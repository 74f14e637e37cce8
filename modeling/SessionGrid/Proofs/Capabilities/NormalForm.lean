import SessionGrid.Proofs.Capabilities.Matching
import SessionGrid.Proofs.Json.Tree

/-!
# Normal forms of capability sets

The normal form of a set leaves out its wildcards and lowers the texts directly under its names; what is
nested in arrays and objects stays as it is. Two values are the same if they are equal once every zero is
positive (`Json.same_iff`). A request is met by an offer exactly if each binding of its normal form is one
of the normal form of the offer (`satisfiedBy_iff_norm`), so that an offered wildcard, which the normal
form does not have, meets no demand.
-/

namespace SessionGrid

/-! ## Zeros without a sign -/

/-- The number itself, but for a negative zero, which becomes the positive one. -/
def Binary64.plain (x : Binary64) : Binary64 :=
  if x.isZero then ⟨0⟩ else x

def JsonNumber.plain : JsonNumber → JsonNumber
  | .integer n => .integer n
  | .float x => .float x.plain

namespace Json

mutual

/-- The value with every zero positive, at any depth. -/
def plain : Json → Json
  | .null => .null
  | .bool b => .bool b
  | .number n => .number n.plain
  | .string s => .string s
  | .array xs => .array (plainItems xs)
  | .object fs => .object (plainFields fs)

def plainItems : List Json → List Json
  | [] => []
  | x :: xs => plain x :: plainItems xs

def plainFields : List (String × Json) → List (String × Json)
  | [] => []
  | (k, x) :: fs => (k, plain x) :: plainFields fs

end

end Json

theorem Binary64.isNaN_of_isFinite {x : Binary64} (finite : x.isFinite = true) :
    x.isNaN = false := by
  simp only [isFinite, isNaN, decide_eq_true_eq, decide_eq_false_iff_not] at finite ⊢
  omega

/-- Finite numbers are the same if they are equal once zeros are positive. -/
theorem Binary64.same_iff_plain {x y : Binary64} (finite : x.isFinite = true) :
    x.same y = true ↔ x.plain = y.plain := by
  have zero : (⟨0⟩ : Binary64).isZero = true := by decide
  rw [same_iff]
  unfold plain
  constructor
  · rintro ⟨-, rfl | ⟨zx, zy⟩⟩
    · rfl
    · rw [if_pos zx, if_pos zy]
  · intro equal
    refine ⟨isNaN_of_isFinite finite, ?_⟩
    by_cases zx : x.isZero = true <;> by_cases zy : y.isZero = true
    · exact .inr ⟨zx, zy⟩
    · rw [if_pos zx, if_neg zy] at equal
      exact absurd (equal ▸ zero) zy
    · rw [if_neg zx, if_pos zy] at equal
      exact absurd (equal ▸ zero) zx
    · rw [if_neg zx, if_neg zy] at equal
      exact .inl equal

namespace Json

mutual

/-- Values are the same if they are equal but for the sign of zeros. -/
theorem same_iff : ∀ {x y : Json}, x.Canonical → (x.same y = true ↔ x.plain = y.plain)
  | .null, y, _ => by cases y <;> simp [same, plain]
  | .bool b, y, _ => by cases y <;> simp [same, plain]
  | .string s, y, _ => by cases y <;> simp [same, plain]
  | .number (.integer n), y, _ => by
    cases y with
    | number m =>
      cases m with
      | integer m => simp only [same, plain, JsonNumber.same, JsonNumber.plain, beq_iff_eq,
          number.injEq, JsonNumber.integer.injEq]
      | float v => simp [same, plain, JsonNumber.same, JsonNumber.plain]
    | _ => simp [same, plain]
  | .number (.float u), y, finite => by
    cases y with
    | number m =>
      cases m with
      | integer m => simp [same, plain, JsonNumber.same, JsonNumber.plain]
      | float v =>
        have floats := Binary64.same_iff_plain (y := v) finite
        simpa [same, plain, JsonNumber.same, JsonNumber.plain] using floats
    | _ => simp [same, plain]
  | .array xs, y, canonical => by
    cases y with
    | array ys => simpa [same, plain] using sameItems_iff canonical
    | _ => simp [same, plain]
  | .object fs, y, canonical => by
    cases y with
    | object gs => simpa [same, plain] using sameFields_iff canonical.2
    | _ => simp [same, plain]

theorem sameItems_iff : ∀ {xs ys : List Json}, ItemsCanonical xs →
    (sameItems xs ys = true ↔ plainItems xs = plainItems ys)
  | [], ys, _ => by cases ys <;> simp [sameItems, plainItems]
  | x :: xs, [], _ => by simp [sameItems, plainItems]
  | x :: xs, y :: ys, ⟨own, others⟩ => by
    rw [sameItems, Bool.and_eq_true, same_iff own, sameItems_iff others, plainItems, plainItems,
      List.cons.injEq]

theorem sameFields_iff : ∀ {fs gs : List (String × Json)}, FieldsCanonical fs →
    (sameFields fs gs = true ↔ plainFields fs = plainFields gs)
  | [], gs, _ => by cases gs <;> simp [sameFields, plainFields]
  | (k, x) :: fs, [], _ => by simp [sameFields, plainFields]
  | (k, x) :: fs, (l, y) :: gs, ⟨own, others⟩ => by
    rw [sameFields, Bool.and_eq_true, Bool.and_eq_true, beq_iff_eq, same_iff own,
      sameFields_iff others, plainFields, plainFields, List.cons.injEq, Prod.mk.injEq]

end

end Json

/-! ## Bindings whose values are mapped or dropped -/

/-- What is left of a binding is found under its name. -/
theorem Bindings.Sorted.find?_filterMap {α β : Type} {b : Bindings α} (sorted : b.Sorted)
    (f : α → Option β) (name : String) :
    find? name (b.filterMap fun p => (f p.2).map (p.1, ·)) = (find? name b).bind f := by
  induction b with
  | nil => rfl
  | cons p b ih =>
    obtain ⟨k, v⟩ := p
    have rest := ih (List.pairwise_cons.1 sorted).2
    rw [List.filterMap_cons]
    by_cases own : k = name
    · subst own
      -- No later pair has the name of the first one.
      have later : find? k b = none := find?_eq_none_iff.2 sorted.ne_head
      rw [later] at rest
      cases value : f v with
      | none => simpa [find?, value] using rest
      | some w => simp [find?, value]
    · cases value : f v with
      | none => simpa [find?, own, value] using rest
      | some w => simpa [find?, own, value] using rest

namespace Capabilities

/-! ## Normal forms -/

/-- What a value stands for when it is matched: nothing for a wildcard, a text without capital letters for
a text, and itself for any other value. -/
def normValue? : Json → Option Json
  | .null => none
  | .string s =>
    if Text.lower s ∈ ["", "any", "*"] then none else some (.string (Text.lower s))
  | value => some value

/-- The set without its wildcards, and with its texts lowered. -/
def norm (c : Capabilities) : Capabilities :=
  ⟨c.entries.filterMap fun (name, value) => (normValue? value).map (name, ·)⟩

/-- Every binding of the first set is one of the second, but for the sign of zeros. -/
def Within (a b : Capabilities) : Prop :=
  ∀ name wanted, a.get? name = some wanted →
    ∃ value, b.get? name = some value ∧ wanted.plain = value.plain

/-- Wildcards are what the normal form leaves out. -/
theorem isWildcard_iff {v : Json} : isWildcard v = true ↔ normValue? v = none := by
  cases v with
  | string s =>
    have words : Text.lower "" = "" ∧ Text.lower "any" = "any" ∧ Text.lower "*" = "*" := by decide
    unfold normValue?
    rw [ite_eq_left_iff]
    simp [isWildcard, Text.sameCaseless_iff, words, Decidable.or_iff_not_imp_left]
  | _ => simp [isWildcard, normValue?]

/-- A normal form is that of a text or of a value that stays as it is. -/
theorem normValue?_cases {v w : Json} (norm : normValue? v = some w) :
    (∃ s, v = .string s ∧ w = .string (Text.lower s)) ∨ w = v ∧ ∀ s, v ≠ .string s := by
  cases v with
  | null => cases norm
  | string s =>
    rw [normValue?, Option.ite_none_left_eq_some, Option.some_inj] at norm
    exact .inl ⟨s, rfl, norm.2.symm⟩
  | _ =>
    cases norm
    exact .inr ⟨rfl, nofun⟩

theorem plain_ne_string {v : Json} (other : ∀ s, v ≠ .string s) (s : String) :
    v.plain ≠ .string s := by
  cases v with
  | string t => exact absurd rfl (other t)
  | _ => nofun

/-- Values that are no wildcards match if their normal forms are equal but for the sign of zeros. -/
theorem valuesMatch_iff {wanted offered w v : Json} (canonical : wanted.Canonical)
    (demand : normValue? wanted = some w) (offer : normValue? offered = some v) :
    valuesMatch wanted offered = true ↔ w.plain = v.plain := by
  rcases normValue?_cases demand with ⟨s, rfl, rfl⟩ | ⟨rfl, other⟩
  · rcases normValue?_cases offer with ⟨t, rfl, rfl⟩ | ⟨rfl, other⟩
    · rw [valuesMatch_string, Json.plain, Json.plain, Json.string.injEq]
    · constructor
      · intro matched
        rcases valuesMatch_cases matched with ⟨_, t, -, text, -⟩ | same
        · exact absurd text (other t)
        · exact absurd (Json.string_same_iff.1 same) (other s)
      · intro equal
        exact absurd equal.symm (plain_ne_string other _)
  · have exact : valuesMatch w offered = w.same offered := by
      unfold valuesMatch
      split
      · next s t => exact absurd rfl (other s)
      · rfl
    rw [exact, Json.same_iff canonical]
    rcases normValue?_cases offer with ⟨t, rfl, rfl⟩ | ⟨rfl, -⟩
    · constructor
      · intro equal
        exact absurd equal (plain_ne_string other t)
      · intro equal
        exact absurd equal (plain_ne_string other _)
    · exact Iff.rfl

/-! ## Requests and offers -/

section Sets

variable {a b c : Capabilities}

/-- Under each name the normal form has what is left of the value. -/
theorem get?_norm (sorted : c.entries.Sorted) (name : String) :
    c.norm.get? name = (c.get? name).bind normValue? :=
  sorted.find?_filterMap normValue? name

/-- **Met.** Each binding of one normal form is one of the other. -/
theorem satisfiedBy_iff_within (canonical : a.toJson.Canonical) (sorted : b.entries.Sorted) :
    a.satisfiedBy b = true ↔ a.norm.Within b.norm := by
  obtain ⟨sorted', values⟩ := canonical
  rw [satisfiedBy_iff]
  constructor
  · intro all name w demand
    rw [get?_norm sorted'] at demand
    obtain ⟨wanted, bound, demand⟩ := Option.bind_eq_some_iff.1 demand
    have mem := Bindings.mem_of_find? bound
    have isDemand : isWildcard wanted = false := by
      rw [← Bool.not_eq_true, isWildcard_iff, demand]
      nofun
    obtain ⟨value, offered, matched⟩ := all name wanted mem isDemand
    have isOffer : isWildcard value ≠ true := by
      intro wildcard
      rw [isWildcard_of_match matched wildcard] at isDemand
      cases isDemand
    obtain ⟨v, offer⟩ := Option.ne_none_iff_exists'.1 (mt isWildcard_iff.2 isOffer)
    refine ⟨v, ?_, (valuesMatch_iff (values.of_mem mem) demand offer).1 matched⟩
    rw [get?_norm sorted, offered, Option.bind_some, offer]
  · intro within name wanted mem isDemand
    obtain ⟨w, demand⟩ := Option.ne_none_iff_exists'.1 (mt isWildcard_iff.2 (Bool.eq_false_iff.1 isDemand))
    have bound : a.norm.get? name = some w := by
      rw [get?_norm sorted', get?, sorted'.find?_eq_some_iff.2 mem, Option.bind_some, demand]
    obtain ⟨v, offered, equal⟩ := within name w bound
    rw [get?_norm sorted] at offered
    obtain ⟨value, offered, offer⟩ := Option.bind_eq_some_iff.1 offered
    have matched := valuesMatch_iff (values.of_mem mem) demand offer
    exact ⟨value, offered, matched.2 equal⟩

/-- An offer of exactly what is requested meets the request. -/
theorem satisfiedBy_refl (canonical : a.toJson.Canonical) : a.satisfiedBy a = true := by
  rw [satisfiedBy_iff_within canonical canonical.1]
  intro name wanted bound
  exact ⟨wanted, bound, rfl⟩

/-- Who asks for less is met as well. -/
theorem satisfiedBy_of_subset (fewer : c.entries ⊆ a.entries) (met : a.satisfiedBy b = true) :
    c.satisfiedBy b = true := by
  rw [satisfiedBy_iff] at met ⊢
  intro name wanted mem
  exact met name wanted (fewer mem)

/-- What is offered under a new name takes nothing away. -/
theorem satisfiedBy_insert {name : String} (fresh : b.get? name = none) (value : Json)
    (met : a.satisfiedBy b = true) : a.satisfiedBy (b.insert name value) = true := by
  rw [satisfiedBy_iff] at met ⊢
  intro key wanted mem demand
  obtain ⟨offered, bound, matched⟩ := met key wanted mem demand
  have ne : name ≠ key := by
    rintro rfl
    rw [fresh] at bound
    cases bound
  refine ⟨offered, ?_, matched⟩
  rw [get?, insert, Bindings.find?_insert, if_neg ne]
  exact bound

/-- An offered wildcard meets only a wildcard. -/
theorem isWildcard_of_offered (met : a.satisfiedBy b = true) {name : String} {wanted value : Json}
    (bound : a.get? name = some wanted) (offered : b.get? name = some value)
    (wildcard : isWildcard value = true) : isWildcard wanted = true := by
  cases demand : isWildcard wanted with
  | true => rfl
  | false =>
    obtain ⟨_, same, matched⟩ :=
      satisfiedBy_iff.1 met name wanted (Bindings.mem_of_find? bound) demand
    cases offered.symm.trans same
    rw [isWildcard_of_match matched wildcard] at demand
    cases demand

end Sets

/-- **Matching by normal forms.** A request is met exactly if each binding of its normal form is one of
the normal form of the offer. So every set meets itself, and what meets a set meets all that the set
meets; asking for less or offering more under a new name never spoils a match, and what an offer leaves
open meets only what a request leaves open. -/
theorem satisfiedBy_iff_norm (a b c : Capabilities) (ca : a.toJson.Canonical)
    (cb : b.toJson.Canonical) :
    (a.satisfiedBy b = true ↔ a.norm.Within b.norm) ∧
      a.satisfiedBy a = true ∧
      (a.satisfiedBy b = true → b.satisfiedBy c = true → a.satisfiedBy c = true) ∧
      (c.entries ⊆ a.entries → a.satisfiedBy b = true → c.satisfiedBy b = true) ∧
      (∀ name value, b.get? name = none → a.satisfiedBy b = true →
        a.satisfiedBy (b.insert name value) = true) ∧
      ∀ name wanted value, a.get? name = some wanted → b.get? name = some value →
        normValue? value = none → a.satisfiedBy b = true → normValue? wanted = none := by
  refine ⟨satisfiedBy_iff_within ca cb.1, satisfiedBy_refl ca, satisfiedBy_trans,
    satisfiedBy_of_subset, fun name value fresh => satisfiedBy_insert fresh value, ?_⟩
  intro name wanted value bound offered wildcard met
  exact isWildcard_iff.1 (isWildcard_of_offered met bound offered (isWildcard_iff.2 wildcard))

/-- A text in another case, a zero of the other sign in an array, and a wildcard on either side. -/
theorem satisfiedBy_iff_norm_two_cases :
    let wanted : Capabilities :=
      ⟨[("browser", .string "Chrome"),
        ("sizes", .array [.number (.float ⟨0x8000000000000000⟩), .string "X"]),
        ("version", .string "ANY")]⟩
    let offered : Capabilities :=
      ⟨[("browser", .string "CHROME"), ("platform", .null),
        ("sizes", .array [.number (.float ⟨0⟩), .string "X"])]⟩
    wanted.toJson.Canonical ∧ offered.toJson.Canonical ∧ wanted.norm.Within offered.norm ∧
      wanted.satisfiedBy (offered.insert "version" (.string "9")) = true := by
  intro wanted offered
  have sorted : wanted.entries.Sorted ∧ offered.entries.Sorted := by
    unfold Bindings.Sorted
    decide
  have cw : wanted.toJson.Canonical :=
    ⟨sorted.1, trivial, ⟨rfl, trivial, trivial⟩, trivial, trivial⟩
  have co : offered.toJson.Canonical :=
    ⟨sorted.2, trivial, trivial, ⟨rfl, trivial, trivial⟩, trivial⟩
  have met : wanted.satisfiedBy offered = true := by decide
  obtain ⟨within, -, -, -, more, -⟩ := satisfiedBy_iff_norm wanted offered offered cw co
  exact ⟨cw, co, within.1 met, more "version" (.string "9") rfl met⟩

end Capabilities

end SessionGrid
