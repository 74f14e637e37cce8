import SessionGrid.Capabilities.Pair
import SessionGrid.Proofs.Json.Reading
import SessionGrid.Proofs.Lists
import SessionGrid.Proofs.Text.Blank

/-!
# Typed pairs

A typed pair is one if there is a name before its first `=` (`parsePair_isSome_iff`); what stands around
name and value does not count, and neither does a `=` in the value (`parsePair_pair`). A value is read back
from its own text, which neither starts nor ends with a blank (`trimmed_writeCompact`). Of pairs that are
collected the last one of each name counts (`get?_ofList`), so that a set is typed by the pairs of its names
and values in any order (`parsePairs_perm`).
-/

namespace SessionGrid

namespace Json

/-! ## The ends of a text -/

theorem isNumeral_writeNumber (n : JsonNumber) : ∀ c ∈ writeNumber n, IsNumeral c := by
  cases n with
  | float x => exact isNumeral_writeFloat x
  | integer n =>
    intro c mem
    rw [writeNumber, writeInt] at mem
    split at mem
    · rcases List.mem_cons.1 mem with rfl | digit
      · exact .inr (.inl rfl)
      · exact .inl (Text.isDigit_of_mem_decimalDigits digit)
    · exact .inl (Text.isDigit_of_mem_decimalDigits mem)

theorem trimmed_enclosed {first last : Char} (visible : Text.isBlank first = false)
    (visible' : Text.isBlank last = false) (inner : List Char) :
    Text.Trimmed (first :: (inner ++ [last])) where
  starts := by
    rintro c ⟨⟩
    exact visible
  ends := by
    rw [← List.cons_append, List.getLast?_append_of_ne_nil _ (List.cons_ne_nil last []),
      List.getLast?_singleton]
    rintro c ⟨⟩
    exact visible'

/-- The text of a value neither starts nor ends with a blank. -/
theorem trimmed_writeCompact (v : Json) : Text.Trimmed v.writeCompact := by
  cases v with
  | null => exact trimmed_enclosed (by decide) (by decide) ['u', 'l']
  | bool b =>
    cases b with
    | true => exact trimmed_enclosed (by decide) (by decide) ['r', 'u']
    | false => exact trimmed_enclosed (by decide) (by decide) ['a', 'l', 's']
  | number n =>
    have visible : ∀ c ∈ writeNumber n, Text.isBlank c = false :=
      fun c mem => (isNumeral_writeNumber n c mem).not_blank
    exact ⟨fun c mem => visible c (List.mem_of_mem_head? mem),
      fun c mem => visible c (List.mem_of_getLast? mem)⟩
  | string s =>
    rw [writeCompact]
    exact trimmed_enclosed (by decide) (by decide) _
  | array xs =>
    rw [writeCompact]
    exact trimmed_enclosed (by decide) (by decide) _
  | object fs =>
    rw [writeCompact]
    exact trimmed_enclosed (by decide) (by decide) _

end Json

namespace Bindings

variable {α : Type} {name : String} {value : α}

/-- Of the pairs bound one after the other the last one of a name counts. -/
theorem find?_ofList_eq_some {ps : List (String × α)} :
    find? name (ofList ps) = some value ↔
      ∃ before after, ps = before ++ (name, value) :: after ∧ name ∉ after.map Prod.fst := by
  rw [ofList_eq_insertAll]
  induction ps using List.reverseRecOn with
  | nil => simp [insertAll, find?]
  | append_singleton ps p ih =>
    have last : insertAll (ps ++ [p]) [] = insert p.1 p.2 (insertAll ps []) := insertAll_append ps [p] []
    rw [last, find?_insert]
    obtain ⟨k, v⟩ := p
    by_cases same : k = name
    · subst same
      rw [if_pos rfl]
      constructor
      · rintro ⟨⟩
        exact ⟨ps, [], rfl, List.not_mem_nil⟩
      · rintro ⟨before, after, split, apart⟩
        rcases snoc_eq_append_cons.1 split with ⟨-, own, -⟩ | ⟨later, -, rfl⟩
        · cases own
          rfl
        · simp at apart
    · rw [if_neg same, ih]
      constructor
      · rintro ⟨before, later, rfl, apart⟩
        refine ⟨before, later ++ [(k, v)], snoc_eq_append_cons.2 (.inr ⟨later, rfl, rfl⟩), ?_⟩
        simpa [apart] using Ne.symm same
      · rintro ⟨before, after, split, apart⟩
        rcases snoc_eq_append_cons.1 split with ⟨-, own, -⟩ | ⟨later, rfl, rfl⟩
        · cases own
          exact absurd rfl same
        · exact ⟨before, later, rfl, fun mem => apart (by simp [mem])⟩

end Bindings

namespace Capabilities

/-! ## One pair -/

section Pair

variable {cs name value : List Char}

/-- The first `=` parts a pair. -/
theorem splitPair_eq_some :
    splitPair cs = some (name, value) ↔ cs = name ++ '=' :: value ∧ '=' ∉ name := by
  induction cs generalizing name with
  | nil => simp [splitPair]
  | cons c cs ih =>
    rw [splitPair]
    split
    · next equals =>
      subst equals
      cases name with
      | nil => simp [eq_comm]
      | cons d name =>
        refine iff_of_false nofun ?_
        rintro ⟨same, apart⟩
        cases same
        exact apart List.mem_cons_self
    · next other =>
      rw [Option.map_eq_some_iff]
      constructor
      · rintro ⟨⟨k, v⟩, split, same⟩
        cases same
        obtain ⟨rfl, apart⟩ := ih.1 split
        exact ⟨rfl, fun mem => (List.mem_cons.1 mem).elim (fun own => other own.symm) apart⟩
      · rintro ⟨same, apart⟩
        cases name with
        | nil =>
          cases same
          exact absurd rfl other
        | cons d name =>
          cases same
          obtain ⟨-, apart⟩ := not_or.1 (mt List.mem_cons.2 apart)
          exact ⟨(name, value), ih.2 ⟨rfl, apart⟩, rfl⟩

/-- Behind it everything is the value, more of them included. -/
theorem parsePair_of_split {p : String} (split : splitPair p.toList = some (name, value)) :
    parsePair p =
      if ∀ c ∈ name, Text.isBlank c = true then none
      else some (String.ofList (Text.strip name), typedValue (String.ofList (Text.strip value))) := by
  rw [parsePair, split]
  dsimp only [Option.bind_eq_bind, Option.bind_some]
  by_cases blank : ∀ c ∈ name, Text.isBlank c = true
  · rw [if_pos blank, Text.strip_eq_nil_iff.2 blank]
    rfl
  · rw [if_neg blank, if_neg fun empty => blank (Text.strip_eq_nil_iff.1 (List.isEmpty_iff.1 empty))]

/-- **Pairs.** There must be something visible before the first `=`. -/
theorem parsePair_isSome_iff {p : String} :
    (parsePair p).isSome = true ↔
      ∃ name value, p.toList = name ++ '=' :: value ∧ '=' ∉ name ∧
        ∃ c ∈ name, Text.isBlank c = false := by
  cases split : splitPair p.toList with
  | none =>
    rw [parsePair, split]
    refine iff_of_false nofun ?_
    rintro ⟨name, value, same, apart, -⟩
    cases split.symm.trans (splitPair_eq_some.2 ⟨same, apart⟩)
  | some parts =>
    obtain ⟨name, value⟩ := parts
    have some_iff : (parsePair p).isSome = true ↔ ∃ c ∈ name, Text.isBlank c = false := by
      rw [parsePair_of_split split]
      split
      · next blank =>
        refine iff_of_false nofun ?_
        rintro ⟨c, mem, visible⟩
        cases visible.symm.trans (blank c mem)
      · next visible =>
        refine iff_of_true rfl ?_
        simpa using visible
    rw [some_iff]
    constructor
    · intro visible
      obtain ⟨same, apart⟩ := splitPair_eq_some.1 split
      exact ⟨name, value, same, apart, visible⟩
    · rintro ⟨name', value', same, apart, visible⟩
      cases split.symm.trans (splitPair_eq_some.2 ⟨same, apart⟩)
      exact visible

end Pair

/-- A name that can be typed as it is. -/
structure IsName (name : String) : Prop where
  ne_empty : name ≠ ""
  no_equals : '=' ∉ name.toList
  trimmed : Text.Trimmed name.toList

/-- A pair as typed, with blanks around name and value. -/
def pairText (b₁ name b₂ b₃ value b₄ : String) : String :=
  b₁ ++ name ++ b₂ ++ "=" ++ b₃ ++ value ++ b₄

section Typed

variable {name value : String} {b₁ b₂ b₃ b₄ : String} {v : Json} {c : Capabilities}

theorem isBlank_of_isAllBlank {b : String} (blank : Text.isAllBlank b = true) :
    ∀ c ∈ b.toList, Text.isBlank c = true :=
  List.all_eq_true.1 blank

theorem no_equals_of_isAllBlank {b : String} (blank : Text.isAllBlank b = true) : '=' ∉ b.toList := by
  intro mem
  have equals := isBlank_of_isAllBlank blank '=' mem
  revert equals
  decide

/-- **Pairs.** A pair is read for its name and its value, whatever blanks stand around them. -/
theorem parsePair_pairText (named : IsName name) (trimmed : Text.Trimmed value.toList)
    (blank : ∀ b ∈ [b₁, b₂, b₃, b₄], Text.isAllBlank b = true) :
    parsePair (pairText b₁ name b₂ b₃ value b₄) = some (name, typedValue value) := by
  simp only [List.forall_mem_cons] at blank
  obtain ⟨blank₁, blank₂, blank₃, blank₄, -⟩ := blank
  have apart : '=' ∉ b₁.toList ++ (name.toList ++ b₂.toList) := by
    simp only [List.mem_append, not_or]
    exact ⟨no_equals_of_isAllBlank blank₁, named.no_equals, no_equals_of_isAllBlank blank₂⟩
  have split : splitPair (pairText b₁ name b₂ b₃ value b₄).toList =
      some (b₁.toList ++ (name.toList ++ b₂.toList), b₃.toList ++ (value.toList ++ b₄.toList)) := by
    refine splitPair_eq_some.2 ⟨?_, apart⟩
    simp [pairText]
  have strips := named.trimmed.strip_append (isBlank_of_isAllBlank blank₁)
    (isBlank_of_isAllBlank blank₂)
  have strips' := trimmed.strip_append (isBlank_of_isAllBlank blank₃) (isBlank_of_isAllBlank blank₄)
  rw [parsePair_of_split split, if_neg, strips, strips', String.ofList_toList, String.ofList_toList]
  intro all
  rw [← Text.strip_eq_nil_iff, strips] at all
  exact named.ne_empty (String.toList_eq_nil_iff.1 all)

/-- No value has a blank at either end of its text. -/
theorem trimmed_compact (v : Json) : Text.Trimmed v.compact.toList := by
  rw [Json.compact, String.toList_ofList]
  exact v.trimmed_writeCompact

/-- A value is read back from a pair with its text. -/
theorem parsePair_compact (named : IsName name) (ordered : v.Ordered) (shallow : v.depth ≤ 127)
    (exact : v.FloatsExact) (blank : ∀ b ∈ [b₁, b₂, b₃, b₄], Text.isAllBlank b = true) :
    parsePair (pairText b₁ name b₂ b₃ v.compact b₄) = some (name, v) := by
  rw [parsePair_pairText named (trimmed_compact v) blank, typedValue,
    Json.read_compact ordered shallow exact]
  rfl

/-! ## Many pairs -/

/-- The set can be typed: its names as they are, its values by their texts. -/
structure Typable (c : Capabilities) : Prop where
  ordered : c.toJson.Ordered
  names : ∀ p ∈ c.entries, IsName p.1
  shallow : ∀ p ∈ c.entries, p.2.depth ≤ 127
  exact : ∀ p ∈ c.entries, p.2.FloatsExact

/-- **Sets.** The pairs of the names and values of a set, typed in any order, make the set. -/
theorem Typable.parsePairs (typable : c.Typable) {ps : List (String × Json)}
    (perm : ps.Perm c.entries) :
    Capabilities.parsePairs (ps.map fun p => p.1 ++ "=" ++ p.2.compact) = some c := by
  obtain ⟨sorted, ordered⟩ := Json.ordered_object.1 typable.ordered
  have each : ∀ p ∈ ps, parsePair (p.1 ++ "=" ++ p.2.compact) = some p := by
    intro p mem
    have mem : p ∈ c.entries := perm.mem_iff.1 mem
    have read : parsePair (pairText "" p.1 "" "" p.2.compact "") = some p :=
      parsePair_compact (typable.names p mem) (ordered p mem) (typable.shallow p mem)
        (typable.exact p mem) (by decide)
    simpa [pairText] using read
  have parsed : (ps.map fun p => p.1 ++ "=" ++ p.2.compact).mapM parsePair = some ps :=
    mapM_eq_some.2 (List.forall₂_map_left_iff.2 (List.forall₂_same.2 each))
  have distinct : (ps.map Prod.fst).Nodup := (perm.map Prod.fst).nodup_iff.2 sorted.nodup_names
  rw [Capabilities.parsePairs, parsed, Option.map_some, ofList, Bindings.ofList_perm distinct perm,
    sorted.ofList]

end Typed

/-- **Typed pairs.** A text is a pair exactly if there is something visible before its first `=`. The text
of a value, behind a name and a `=` and with any blanks around, is read for the value, and a text that is
none of a value for itself. So the pairs of a set that can be typed make the set again, in whatever order,
and of any pairs collected the last one of each name counts and no other. -/
theorem typed_pairs :
    (∀ p : String, (parsePair p).isSome = true ↔
      ∃ name value, p.toList = name ++ '=' :: value ∧ '=' ∉ name ∧
        ∃ c ∈ name, Text.isBlank c = false) ∧
    (∀ name b₁ b₂ b₃ b₄, IsName name → (∀ b ∈ [b₁, b₂, b₃, b₄], Text.isAllBlank b = true) →
      (∀ v : Json, v.Ordered → v.depth ≤ 127 → v.FloatsExact →
        parsePair (pairText b₁ name b₂ b₃ v.compact b₄) = some (name, v)) ∧
      ∀ s : String, Text.Trimmed s.toList → Json.read s = none →
        parsePair (pairText b₁ name b₂ b₃ s b₄) = some (name, .string s)) ∧
    (∀ c : Capabilities, c.Typable → ∀ ps : List (String × Json), ps.Perm c.entries →
      parsePairs (ps.map fun p => p.1 ++ "=" ++ p.2.compact) = some c) ∧
    ∀ (ps : List (String × Json)) name value, (ofList ps).get? name = some value ↔
      ∃ before after, ps = before ++ (name, value) :: after ∧ name ∉ after.map Prod.fst := by
  refine ⟨fun p => parsePair_isSome_iff, fun name b₁ b₂ b₃ b₄ named blank => ⟨?_, ?_⟩, ?_, ?_⟩
  · intro v ordered shallow exact
    exact parsePair_compact named ordered shallow exact blank
  · intro s trimmed none
    rw [parsePair_pairText named trimmed blank, typedValue, none]
    rfl
  · exact fun c typable ps perm => typable.parsePairs perm
  · exact fun ps name value => Bindings.find?_ofList_eq_some

/-- Two pairs typed out of order, one of them with a `=` in its value, and one whose value is no JSON. -/
theorem typed_pairs_examples :
    let c : Capabilities :=
      ⟨[("a", .string "x = y"),
        ("b\u00A0c", .array [.null, .number (.integer ⟨0xFFFFFFFFFFFFFFFF, by decide⟩)])]⟩
    c.Typable ∧
      parsePairs ["b\u00A0c=[null,18446744073709551615]", "a=\"x = y\""] = some c ∧
      parsePair "\u00A0note =\tx = y\u3000" = some ("note", .string "x = y") := by
  intro c
  obtain ⟨-, pairs, sets, -⟩ := typed_pairs
  have typable : c.Typable := by
    constructor
    · refine Json.Canonical.ordered ⟨?_, trivial, ⟨trivial, trivial, trivial⟩, trivial⟩
      unfold Bindings.Sorted
      decide
    · simp only [c, List.forall_mem_cons]
      refine ⟨⟨by decide, by decide, by decide⟩, ⟨by decide, by decide, by decide⟩, nofun⟩
    · decide +kernel
    · simp only [c, List.forall_mem_cons]
      refine ⟨fun x inside => ?_, fun x inside => ?_, nofun⟩
      · cases inside
      · obtain impossible | ⟨v, mem, inner⟩ := Json.contains_array.1 inside
        · cases impossible
        obtain _ | ⟨_, _ | ⟨_, ⟨⟩⟩⟩ := mem
        · cases inner
        · cases inner
  have named : IsName "note" := ⟨by decide, by decide, by decide⟩
  have texts : c.entries.reverse.map (fun p => p.1 ++ "=" ++ p.2.compact) =
      ["b\u00A0c=[null,18446744073709551615]", "a=\"x = y\""] := by decide +kernel
  have typed := sets c typable c.entries.reverse (List.reverse_perm _)
  have unread : Json.read "x = y" = none := Option.isNone_iff_eq_none.1 (by decide +kernel)
  have note := (pairs "note" "\u00A0" " " "\t" "\u3000" named (by decide)).2 "x = y" (by decide)
    unread
  rw [texts] at typed
  exact ⟨typable, typed, note⟩

end Capabilities

end SessionGrid
