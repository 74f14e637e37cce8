import Mathlib
import SessionGrid.Text.Blank

/-!
# Trimming

Blanks around a text that neither starts nor ends with one are what trimming takes away (`strip_append`),
and nothing is left of a text exactly if it was blank (`strip_eq_nil_iff`).
-/

namespace SessionGrid.Text

variable {cs front back : List Char}

/-- No ASCII letter and no digit is a blank. -/
theorem isBlank_of_isAlphanum {c : Char} (own : c.isAlphanum = true) : isBlank c = false := by
  have range : 65 ≤ c.toNat ∧ c.toNat ≤ 90 ∨ 97 ≤ c.toNat ∧ c.toNat ≤ 122 ∨
      48 ≤ c.toNat ∧ c.toNat ≤ 57 := by
    simpa [Char.isAlphanum, Char.isAlpha, Char.isUpper, Char.isLower, Char.isDigit,
      UInt32.le_iff_toNat_le, or_assoc] using own
  simp [isBlank, blankRanges]
  omega

/-- The text neither starts nor ends with a blank. -/
structure Trimmed (cs : List Char) : Prop where
  starts : ∀ c ∈ cs.head?, isBlank c = false
  ends : ∀ c ∈ cs.getLast?, isBlank c = false

theorem trimmed_iff :
    Trimmed cs ↔ cs.head?.any isBlank = false ∧ cs.getLast?.any isBlank = false := by
  have none_iff : ∀ o : Option Char, (∀ c ∈ o, isBlank c = false) ↔ o.any isBlank = false := by
    intro o
    cases o <;> simp
  rw [← none_iff, ← none_iff]
  exact ⟨fun trimmed => ⟨trimmed.starts, trimmed.ends⟩, fun both => ⟨both.1, both.2⟩⟩

instance : Decidable (Trimmed cs) :=
  decidable_of_iff _ trimmed_iff.symm

theorem dropWhile_of_head {p : Char → Bool} (head : ∀ c ∈ cs.head?, p c = false) :
    cs.dropWhile p = cs := by
  cases cs with
  | nil => rfl
  | cons c cs => rw [List.dropWhile_cons, head c rfl, if_neg Bool.false_ne_true]

/-- Trimming takes the blanks around a text away and leaves the text. -/
theorem Trimmed.strip_append (trimmed : Trimmed cs) (before : ∀ c ∈ front, isBlank c = true)
    (behind : ∀ c ∈ back, isBlank c = true) : Text.strip (front ++ (cs ++ back)) = cs := by
  rw [Text.strip, List.dropWhile_append_of_pos before]
  cases cs with
  | nil =>
    rw [List.nil_append, List.dropWhile_eq_nil_iff.2 behind]
    rfl
  | cons c cs =>
    have visible : (c :: cs ++ back).dropWhile isBlank = c :: cs ++ back :=
      dropWhile_of_head trimmed.starts
    have blank : ∀ c ∈ back.reverse, isBlank c = true := fun c mem => behind c (List.mem_reverse.1 mem)
    have last : ∀ d ∈ (c :: cs).reverse.head?, isBlank d = false := by
      rw [List.head?_reverse]
      exact trimmed.ends
    rw [visible, List.reverse_append, List.dropWhile_append_of_pos blank, dropWhile_of_head last,
      List.reverse_reverse]

/-- Trimming takes what it keeps from the first visible character on, up to the last one. -/
theorem dropWhile_eq_strip_append (cs : List Char) :
    cs.dropWhile isBlank =
      strip cs ++ ((cs.dropWhile isBlank).reverse.takeWhile isBlank).reverse := by
  rw [strip, ← List.reverse_append, List.takeWhile_append_dropWhile, List.reverse_reverse]

/-- What trimming takes away are blanks. -/
theorem exists_strip (cs : List Char) :
    ∃ front back, cs = front ++ (strip cs ++ back) ∧ (∀ c ∈ front, isBlank c = true) ∧
      ∀ c ∈ back, isBlank c = true := by
  refine ⟨cs.takeWhile isBlank, ((cs.dropWhile isBlank).reverse.takeWhile isBlank).reverse, ?_,
    fun c mem => List.mem_takeWhile_imp mem,
    fun c mem => List.mem_takeWhile_imp (List.mem_reverse.1 mem)⟩
  rw [← dropWhile_eq_strip_append, List.takeWhile_append_dropWhile]

/-- What is left after trimming has no blank at either end. -/
theorem trimmed_strip (cs : List Char) : Trimmed (strip cs) where
  starts := by
    intro c head
    have stop := List.head?_dropWhile_not isBlank cs
    rw [dropWhile_eq_strip_append, List.head?_append, head] at stop
    simpa using stop
  ends := by
    intro c last
    rw [strip, List.getLast?_reverse] at last
    have stop := List.head?_dropWhile_not isBlank (cs.dropWhile isBlank).reverse
    rw [last] at stop
    simpa using stop

/-- Nothing is left of blanks alone. -/
theorem strip_eq_nil_iff : strip cs = [] ↔ ∀ c ∈ cs, isBlank c = true := by
  rw [strip, List.reverse_eq_nil_iff, List.dropWhile_eq_nil_iff]
  constructor
  · intro all c mem
    rw [← List.takeWhile_append_dropWhile (p := isBlank) (l := cs)] at mem
    rcases List.mem_append.1 mem with first | later
    · exact List.mem_takeWhile_imp first
    · exact all c (List.mem_reverse.2 later)
  · intro all c mem
    exact all c ((List.dropWhile_sublist _).subset (List.mem_reverse.1 mem))

end SessionGrid.Text
