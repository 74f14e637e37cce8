import SessionGrid.Capabilities.Basic
import SessionGrid.Proofs.Bindings

/-!
# Offers that meet a request

To be the same value is transitive for JSON values (`Json.same_trans`), and to be met is transitive for
capability sets: what a request asks for no more than another one is met by all offers that meet the
other (`Capabilities.satisfiedBy_trans`). An offered wildcard meets only requests that are wildcards
themselves, so the set in the middle cannot hide a demand behind one.
-/

namespace SessionGrid

namespace Binary64

/-- Two floats are the same value if they have the same bits or both are zeros, and no NaN is one. -/
theorem same_iff {x y : Binary64} :
    x.same y = true ↔ x.isNaN = false ∧ (x = y ∨ x.isZero = true ∧ y.isZero = true) := by
  simp [same]

/-- Sameness of floats is transitive: a zero in the middle makes all three zeros. -/
theorem same_trans {x y z : Binary64} (xy : x.same y = true) (yz : y.same z = true) :
    x.same z = true := by
  rw [same_iff] at xy yz ⊢
  obtain ⟨number, xy⟩ := xy
  obtain ⟨-, yz⟩ := yz
  refine ⟨number, ?_⟩
  rcases xy with rfl | ⟨zx, zy⟩
  · exact yz
  · rcases yz with rfl | ⟨-, zz⟩
    · exact .inr ⟨zx, zy⟩
    · exact .inr ⟨zx, zz⟩

end Binary64

/-- Integers and floats are never the same, so a chain of numbers is of one kind. -/
theorem JsonNumber.same_trans {a b c : JsonNumber} (ab : a.same b = true) (bc : b.same c = true) :
    a.same c = true := by
  cases a with
  | integer n =>
    cases b with
    | integer m =>
      have eq : n = m := eq_of_beq ab
      exact eq ▸ bc
    | float y => cases ab
  | float x =>
    cases b with
    | integer m => cases ab
    | float y =>
      cases c with
      | integer k => cases bc
      | float z => exact Binary64.same_trans ab bc

namespace Json

variable {y : Json}

/-! ## Values of one kind -/

theorem null_same_iff : Json.null.same y = true ↔ y = .null := by
  cases y <;> simp [same]

theorem bool_same_iff {b : Bool} : (Json.bool b).same y = true ↔ y = .bool b := by
  cases y <;> simp [same]
  exact eq_comm

theorem number_same_iff {n : JsonNumber} :
    (Json.number n).same y = true ↔ ∃ m, y = .number m ∧ n.same m = true := by
  cases y <;> simp [same]

theorem string_same_iff {s : String} : (Json.string s).same y = true ↔ y = .string s := by
  cases y <;> simp [same]
  exact eq_comm

/-- Arrays are the same if their items are, place by place. -/
theorem array_same_iff {xs : List Json} :
    (Json.array xs).same y = true ↔ ∃ ys, y = .array ys ∧ sameItems xs ys = true := by
  cases y <;> simp [same]

/-- Objects are the same if their fields are, in order of name. -/
theorem object_same_iff {fs : List (String × Json)} :
    (Json.object fs).same y = true ↔ ∃ gs, y = .object gs ∧ sameFields fs gs = true := by
  cases y <;> simp [same]

/-- The first items are the same, and the others too. -/
theorem sameItems_cons_iff {x : Json} {xs ys : List Json} :
    sameItems (x :: xs) ys = true ↔
      ∃ y ys', ys = y :: ys' ∧ x.same y = true ∧ sameItems xs ys' = true := by
  cases ys <;> simp [sameItems, and_assoc]

/-- The first fields have one name and the same value, and the others too. -/
theorem sameFields_cons_iff {name : String} {x : Json} {fs gs : List (String × Json)} :
    sameFields ((name, x) :: fs) gs = true ↔
      ∃ y gs', gs = (name, y) :: gs' ∧ x.same y = true ∧ sameFields fs gs' = true := by
  cases gs with
  | nil => simp [sameFields]
  | cons g gs =>
    obtain ⟨other, y⟩ := g
    simp only [sameFields, Bool.and_eq_true, beq_iff_eq, List.cons.injEq, Prod.mk.injEq]
    constructor
    · rintro ⟨⟨rfl, head⟩, tail⟩
      exact ⟨y, gs, ⟨⟨rfl, rfl⟩, rfl⟩, head, tail⟩
    · rintro ⟨y, gs, ⟨⟨rfl, rfl⟩, rfl⟩, head, tail⟩
      exact ⟨⟨rfl, head⟩, tail⟩

/-! ## Transitivity -/

mutual

theorem same_trans : ∀ (x : Json) {y z : Json}, x.same y = true → y.same z = true → x.same z = true
  | .null, y, z, xy, yz => null_same_iff.1 xy ▸ yz
  | .bool b, y, z, xy, yz => bool_same_iff.1 xy ▸ yz
  | .string s, y, z, xy, yz => string_same_iff.1 xy ▸ yz
  | .number n, y, z, xy, yz => by
    obtain ⟨m, rfl, nm⟩ := number_same_iff.1 xy
    obtain ⟨k, rfl, mk⟩ := number_same_iff.1 yz
    exact number_same_iff.2 ⟨k, rfl, JsonNumber.same_trans nm mk⟩
  | .array xs, y, z, xy, yz => by
    obtain ⟨ys, rfl, items⟩ := array_same_iff.1 xy
    obtain ⟨zs, rfl, items'⟩ := array_same_iff.1 yz
    exact array_same_iff.2 ⟨zs, rfl, sameItems_trans xs items items'⟩
  | .object fs, y, z, xy, yz => by
    obtain ⟨gs, rfl, fields⟩ := object_same_iff.1 xy
    obtain ⟨hs, rfl, fields'⟩ := object_same_iff.1 yz
    exact object_same_iff.2 ⟨hs, rfl, sameFields_trans fs fields fields'⟩

theorem sameItems_trans : ∀ (xs : List Json) {ys zs : List Json},
    sameItems xs ys = true → sameItems ys zs = true → sameItems xs zs = true
  | [], [], zs, _, yz => yz
  | x :: xs, ys, zs, xy, yz => by
    obtain ⟨y, ys, rfl, head, tail⟩ := sameItems_cons_iff.1 xy
    obtain ⟨z, zs, rfl, head', tail'⟩ := sameItems_cons_iff.1 yz
    exact sameItems_cons_iff.2
      ⟨z, zs, rfl, same_trans x head head', sameItems_trans xs tail tail'⟩

theorem sameFields_trans : ∀ (fs : List (String × Json)) {gs hs : List (String × Json)},
    sameFields fs gs = true → sameFields gs hs = true → sameFields fs hs = true
  | [], [], hs, _, gh => gh
  | (name, x) :: fs, gs, hs, fg, gh => by
    obtain ⟨y, gs, rfl, head, tail⟩ := sameFields_cons_iff.1 fg
    obtain ⟨z, hs, rfl, head', tail'⟩ := sameFields_cons_iff.1 gh
    exact sameFields_cons_iff.2
      ⟨z, hs, rfl, same_trans x head head', sameFields_trans fs tail tail'⟩

end

end Json

namespace Capabilities

/-! ## Requested and offered values -/

/-- A text is matched by a text alone, and any other value by the same value. -/
theorem valuesMatch_cases {wanted offered : Json} (matched : valuesMatch wanted offered = true) :
    (∃ s t, wanted = .string s ∧ offered = .string t ∧ Text.lower s = Text.lower t) ∨
      wanted.same offered = true := by
  unfold valuesMatch at matched
  split at matched
  · next s t => exact .inl ⟨s, t, rfl, rfl, Text.sameCaseless_iff.1 matched⟩
  · exact .inr matched

/-- Strings match in any case of their ASCII letters. -/
theorem valuesMatch_string {s t : String} :
    valuesMatch (.string s) (.string t) = true ↔ Text.lower s = Text.lower t :=
  Text.sameCaseless_iff

/-- The same value matches, whatever its kind. -/
theorem valuesMatch_of_same {x y : Json} (same : x.same y = true) : valuesMatch x y = true := by
  unfold valuesMatch
  split
  · next s t =>
    cases Json.string_same_iff.1 same
    exact Text.sameCaseless_iff.2 rfl
  · exact same

/-- Matching is transitive for strings by their lower case, and for other values by sameness. -/
theorem valuesMatch_trans {x y z : Json} (xy : valuesMatch x y = true) (yz : valuesMatch y z = true) :
    valuesMatch x z = true := by
  rcases valuesMatch_cases xy with ⟨s, t, rfl, rfl, lower⟩ | same
  · rcases valuesMatch_cases yz with ⟨t', u, e, rfl, lower'⟩ | same'
    · cases e
      exact valuesMatch_string.2 (lower.trans lower')
    · cases Json.string_same_iff.1 same'
      exact xy
  · rcases valuesMatch_cases yz with ⟨t, u, rfl, rfl, lower'⟩ | same'
    · cases x with
      | string s =>
        cases Json.string_same_iff.1 same
        exact yz
      | _ => simp [Json.same] at same
    · exact valuesMatch_of_same (Json.same_trans x same same')

/-- Whether a string is a wildcard does not depend on the case of its letters. -/
theorem isWildcard_of_lower {s t : String} (lower : Text.lower s = Text.lower t) :
    isWildcard (.string s) = isWildcard (.string t) := by
  have alike : Text.sameCaseless s = Text.sameCaseless t := by
    funext w
    rw [Text.sameCaseless, lower, Text.sameCaseless]
  simp only [isWildcard, alike]

/-- A requested value that a wildcard matches is a wildcard itself. -/
theorem isWildcard_of_match {wanted offered : Json} (matched : valuesMatch wanted offered = true)
    (wildcard : isWildcard offered = true) : isWildcard wanted = true := by
  rcases valuesMatch_cases matched with ⟨s, t, rfl, rfl, lower⟩ | same
  · rw [isWildcard_of_lower lower]
    exact wildcard
  · cases offered with
    | null => cases wanted <;> simp [Json.same] at same; rfl
    | string t =>
      cases wanted with
      | string s => exact Json.string_same_iff.1 same ▸ wildcard
      | _ => simp [Json.same] at same
    | _ => cases wildcard

/-! ## Requests and offers -/

/-- An offer meets a request if it has a match for each name that the request does not leave open. -/
theorem satisfiedBy_iff {requested offered : Capabilities} :
    requested.satisfiedBy offered = true ↔
      ∀ name wanted, (name, wanted) ∈ requested.entries → isWildcard wanted = false →
        ∃ value, offered.get? name = some value ∧ valuesMatch wanted value = true := by
  unfold satisfiedBy
  rw [List.all_eq_true]
  constructor
  · intro all name wanted mem demand
    have met := all _ mem
    simp only [demand, Bool.false_or] at met
    cases value : offered.get? name with
    | none => simp [value] at met
    | some v => exact ⟨v, rfl, by simpa [value] using met⟩
  · rintro all ⟨name, wanted⟩ mem
    cases demand : isWildcard wanted with
    | true => simp [demand]
    | false =>
      obtain ⟨value, bound, met⟩ := all name wanted mem demand
      simp [bound, met]

/-- Who asks for no more than another is served by whatever serves the other. -/
theorem satisfiedBy_trans {a b c : Capabilities} (ab : a.satisfiedBy b = true)
    (bc : b.satisfiedBy c = true) : a.satisfiedBy c = true := by
  rw [satisfiedBy_iff] at ab bc ⊢
  intro name wanted mem demand
  obtain ⟨value, bound, met⟩ := ab name wanted mem demand
  have middle : isWildcard value = false := by
    cases wildcard : isWildcard value with
    | false => rfl
    | true =>
      rw [isWildcard_of_match met wildcard] at demand
      cases demand
  obtain ⟨offered, bound', met'⟩ := bc name value (Bindings.mem_of_find? bound) middle
  exact ⟨offered, bound', valuesMatch_trans met met'⟩

end Capabilities

end SessionGrid
