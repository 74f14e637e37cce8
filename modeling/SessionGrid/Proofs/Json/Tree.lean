import SessionGrid.Json.Value

/-!
# Values inside a value

What stands inside a JSON value, at any depth (`Json.Contains`), an induction over the items and fields
of a value (`Json.nested`), and what holds of a value's parts because it holds of the value: they are
nested less deep, and canonical if the value is. A value is `Ordered` if the names of every object in it
ascend.
-/

namespace SessionGrid.Json

/-- The value `x` is found in a value, at any depth. -/
inductive Contains (x : Json) : Json → Prop where
  | self : Contains x x
  | item {xs : List Json} {v : Json} (mem : v ∈ xs) (inner : Contains x v) : Contains x (.array xs)
  | field {fs : List (String × Json)} {f : String × Json} (mem : f ∈ fs) (inner : Contains x f.2) :
    Contains x (.object fs)

/-- Induction over the items and fields of a value. -/
@[elab_as_elim]
theorem nested {motive : Json → Prop} (null : motive .null) (bool : ∀ b, motive (.bool b))
    (number : ∀ n, motive (.number n)) (string : ∀ s, motive (.string s))
    (array : ∀ xs, (∀ x ∈ xs, motive x) → motive (.array xs))
    (object : ∀ fs, (∀ f ∈ fs, motive f.2) → motive (.object fs)) (v : Json) : motive v := by
  match v with
  | .null => exact null
  | .bool b => exact bool b
  | .number n => exact number n
  | .string s => exact string s
  | .array xs => exact array xs fun x _ => nested null bool number string array object x
  | .object fs => exact object fs fun f _ => nested null bool number string array object f.2
termination_by sizeOf v
decreasing_by
  · have item := List.sizeOf_lt_of_mem ‹x ∈ xs›
    simp
    omega
  · have field := List.sizeOf_lt_of_mem ‹f ∈ fs›
    have value : sizeOf f.2 < sizeOf f := by
      cases f
      simp only [Prod.mk.sizeOf_spec]
      omega
    simp
    omega

variable {xs : List Json} {fs : List (String × Json)}

/-! ## What a value contains -/

/-- A value stands in an array as the array itself or somewhere in an item. -/
theorem contains_array {x : Json} :
    Contains x (.array xs) ↔ x = .array xs ∨ ∃ v ∈ xs, Contains x v := by
  constructor
  · rintro (_ | ⟨mem, inner⟩)
    · exact .inl rfl
    · exact .inr ⟨_, mem, inner⟩
  · rintro (rfl | ⟨v, mem, inner⟩)
    · exact .self
    · exact .item mem inner

/-- A value stands in an object as the object itself or somewhere in the value of a field. -/
theorem contains_object {x : Json} :
    Contains x (.object fs) ↔ x = .object fs ∨ ∃ f ∈ fs, Contains x f.2 := by
  constructor
  · rintro (_ | _ | ⟨mem, inner⟩)
    · exact .inl rfl
    · exact .inr ⟨_, mem, inner⟩
  · rintro (rfl | ⟨f, mem, inner⟩)
    · exact .self
    · exact .field mem inner

/-- Something that the array itself is not stands in it exactly if it stands in an item. -/
theorem exists_contains_array {p : Json → Prop} (own : ¬ p (.array xs)) :
    (∃ x, Contains x (.array xs) ∧ p x) ↔ ∃ v ∈ xs, ∃ x, Contains x v ∧ p x := by
  constructor
  · rintro ⟨x, inside, holds⟩
    obtain rfl | ⟨v, mem, inner⟩ := contains_array.1 inside
    · exact absurd holds own
    · exact ⟨v, mem, x, inner, holds⟩
  · rintro ⟨v, mem, x, inner, holds⟩
    exact ⟨x, .item mem inner, holds⟩

theorem exists_contains_object {p : Json → Prop} (own : ¬ p (.object fs)) :
    (∃ x, Contains x (.object fs) ∧ p x) ↔ ∃ f ∈ fs, ∃ x, Contains x f.2 ∧ p x := by
  constructor
  · rintro ⟨x, inside, holds⟩
    obtain rfl | ⟨f, mem, inner⟩ := contains_object.1 inside
    · exact absurd holds own
    · exact ⟨f, mem, x, inner, holds⟩
  · rintro ⟨f, mem, x, inner, holds⟩
    exact ⟨x, .field mem inner, holds⟩

/-! ## Parts of a value -/

/-- No item is nested deeper than all of them together. -/
theorem depth_le_of_mem_items {x : Json} (mem : x ∈ xs) : x.depth ≤ itemsDepth xs := by
  induction xs with
  | nil => cases mem
  | cons y xs ih =>
    rw [itemsDepth]
    rcases List.mem_cons.1 mem with rfl | later
    · exact Nat.le_max_left _ _
    · exact Nat.le_trans (ih later) (Nat.le_max_right _ _)

theorem depth_le_of_mem_fields {f : String × Json} (mem : f ∈ fs) : f.2.depth ≤ fieldsDepth fs := by
  induction fs with
  | nil => cases mem
  | cons g fs ih =>
    rw [fieldsDepth]
    rcases List.mem_cons.1 mem with rfl | later
    · exact Nat.le_max_left _ _
    · exact Nat.le_trans (ih later) (Nat.le_max_right _ _)

/-- Canonical items are canonical one by one. -/
theorem ItemsCanonical.of_mem (canonical : ItemsCanonical xs) {x : Json} (mem : x ∈ xs) :
    x.Canonical := by
  induction xs with
  | nil => cases mem
  | cons y xs ih =>
    rcases List.mem_cons.1 mem with rfl | later
    · exact canonical.1
    · exact ih canonical.2 later

/-- Canonical fields have canonical values. -/
theorem FieldsCanonical.of_mem (canonical : FieldsCanonical fs) {f : String × Json} (mem : f ∈ fs) :
    f.2.Canonical := by
  induction fs with
  | nil => cases mem
  | cons g fs ih =>
    rcases List.mem_cons.1 mem with rfl | later
    · exact canonical.1
    · exact ih canonical.2 later

/-- A bound on every item is one on all of them. -/
theorem itemsDepth_le {depth : Nat} (each : ∀ x ∈ xs, x.depth ≤ depth) : itemsDepth xs ≤ depth := by
  induction xs with
  | nil => exact Nat.zero_le _
  | cons x xs ih =>
    obtain ⟨own, others⟩ := List.forall_mem_cons.1 each
    exact Nat.max_le.2 ⟨own, ih others⟩

/-- A bound on the value of every field is one on all fields. -/
theorem fieldsDepth_le {depth : Nat} (each : ∀ f ∈ fs, f.2.depth ≤ depth) :
    fieldsDepth fs ≤ depth := by
  induction fs with
  | nil => exact Nat.zero_le _
  | cons f fs ih =>
    obtain ⟨own, others⟩ := List.forall_mem_cons.1 each
    exact Nat.max_le.2 ⟨own, ih others⟩

/-! ## Values in order -/

/-- The names of every object ascend, at any depth. -/
def Ordered (v : Json) : Prop :=
  ∀ fs, Contains (.object fs) v → Bindings.Sorted fs

theorem ordered_null : Ordered .null := nofun

theorem ordered_bool (b : Bool) : Ordered (.bool b) := nofun

theorem ordered_number (n : JsonNumber) : Ordered (.number n) := nofun

theorem ordered_string (s : String) : Ordered (.string s) := nofun

/-- An array is ordered if its items are: their own order is free. -/
theorem ordered_array : Ordered (.array xs) ↔ ∀ x ∈ xs, x.Ordered := by
  constructor
  · intro ordered x mem gs inside
    exact ordered gs (.item mem inside)
  · intro each gs inside
    obtain impossible | ⟨x, mem, inner⟩ := contains_array.1 inside
    · cases impossible
    · exact each x mem gs inner

/-- An object is ordered if its names ascend and its values are ordered. -/
theorem ordered_object : Ordered (.object fs) ↔ Bindings.Sorted fs ∧ ∀ f ∈ fs, f.2.Ordered := by
  constructor
  · intro ordered
    exact ⟨ordered fs .self, fun f mem gs inside => ordered gs (.field mem inside)⟩
  · rintro ⟨sorted, each⟩ gs inside
    obtain same | ⟨f, mem, inner⟩ := contains_object.1 inside
    · cases same
      exact sorted
    · exact each f mem gs inner

/-- Canonical values are ordered; what more they are concerns numbers alone. -/
theorem Canonical.ordered {v : Json} (canonical : v.Canonical) : v.Ordered := by
  induction v using nested with
  | null => exact ordered_null
  | bool b => exact ordered_bool b
  | number n => exact ordered_number n
  | string s => exact ordered_string s
  | array xs ih => exact ordered_array.2 fun x mem => ih x mem (ItemsCanonical.of_mem canonical mem)
  | object fs ih =>
    exact ordered_object.2 ⟨canonical.1, fun f mem => ih f mem (canonical.2.of_mem mem)⟩

end SessionGrid.Json
