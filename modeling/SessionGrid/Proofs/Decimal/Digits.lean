import Mathlib
import SessionGrid.Decimal.Layout

/-!
# Runs of characters and decimal digits

A run of characters of one kind is taken off up to the first character of another kind (`span_append`), and
the digits of a number are such a run, with a zero in front for zero alone.
-/

namespace SessionGrid.Text

/-- A run of characters of one kind ends where a character of another kind follows. -/
theorem span_append {p : Char → Bool} {s rest : List Char} (all : ∀ c ∈ s, p c = true)
    (ends : ∀ c ∈ rest.head?, p c = false) : (s ++ rest).span p = (s, rest) := by
  have none : rest.takeWhile p = [] ∧ rest.dropWhile p = rest := by
    cases rest with
    | nil => exact ⟨rfl, rfl⟩
    | cons c rest => simp [ends c rfl]
  rw [List.span_eq_takeWhile_dropWhile, List.takeWhile_append_of_pos all,
    List.dropWhile_append_of_pos all, none.1, none.2, List.append_nil]

/-- Where a run ends inside a text, what is appended to the text does not matter. -/
theorem span_append_of_span {p : Char → Bool} {cs ds r rest : List Char} (run : cs.span p = (ds, r))
    (ends : ∀ c ∈ rest.head?, p c = false) : (cs ++ rest).span p = (ds, r ++ rest) := by
  rw [List.span_eq_takeWhile_dropWhile, Prod.mk.injEq] at run
  obtain ⟨rfl, rfl⟩ := run
  have split : cs ++ rest = cs.takeWhile p ++ (cs.dropWhile p ++ rest) := by
    rw [← List.append_assoc, List.takeWhile_append_dropWhile]
  rw [split]
  apply span_append
  · intro c mem
    exact List.mem_takeWhile_imp mem
  · intro c head
    cases later : cs.dropWhile p with
    | nil =>
      rw [later] at head
      exact ends c head
    | cons d ds =>
      rw [later, List.cons_append, List.head?_cons, Option.mem_some_iff] at head
      have stop := List.head?_dropWhile_not p cs
      rw [later] at stop
      simpa [head] using stop

/-- No digits but those of zero start with a zero. -/
theorem toDigits_head {n : Nat} (pos : 0 < n) : (Nat.toDigits 10 n).head? ≠ some '0' := by
  induction n using Nat.strongRecOn with
  | ind n ih =>
    by_cases small : n < 10
    · rw [Nat.toDigits_of_lt_base small]
      interval_cases n <;> decide
    · have more : 0 < n / 10 := Nat.div_pos (Nat.le_of_not_lt small) (by decide)
      rw [Nat.toDigits_of_base_le (by decide) (Nat.le_of_not_lt small),
        List.head?_append_of_ne_nil _ Nat.toDigits_ne_nil]
      exact ih (n / 10) (Nat.div_lt_self pos (by decide)) more

/-- A number is written with digits. -/
theorem isDigit_of_mem_decimalDigits {n : Nat} {c : Char} (mem : c ∈ decimalDigits n) :
    c.isDigit = true :=
  Nat.isDigit_of_mem_toDigits (by decide) (by decide) mem

/-- The shortest decimal of a float is written with digits. -/
theorem isDigit_of_mem_shortest {x : Binary64} {tie : Tie} {c : Char}
    (mem : c ∈ (x.shortest tie).digits) : c.isDigit = true := by
  have trimmed := List.mem_reverse.1 mem
  have digit := List.mem_reverse.1 ((List.dropWhile_suffix _).subset trimmed)
  exact isDigit_of_mem_decimalDigits digit

theorem isDigit_of_mem_zeros {k : Nat} {c : Char} (mem : c ∈ List.replicate k '0') :
    c.isDigit = true := by
  rw [List.eq_of_mem_replicate mem]
  decide

theorem isDigit_of_mem_zero : ∀ c ∈ ['0'], c.isDigit = true :=
  fun _ mem => isDigit_of_mem_zeros (k := 1) mem

end SessionGrid.Text
