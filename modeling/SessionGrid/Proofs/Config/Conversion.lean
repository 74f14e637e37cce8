import SessionGrid.Config.Toml
import SessionGrid.Proofs.Json.Tree
import SessionGrid.Proofs.Toml.Assembly

/-!
# JSON values as TOML values

A JSON value can be said in TOML unless there is a `null` or an integer above `2 ^ 63 - 1` somewhere
in it (`toToml?_eq_none_iff`). What it becomes then can be written, has its keys in order already and
stands for the value it was made of (`converts_of_toToml?`).
-/

namespace SessionGrid.Json

/-- TOML has no such value. -/
inductive Unsayable : Json → Prop where
  | null : Unsayable .null
  | integer {n : JsonInt} (large : 2 ^ 63 - 1 < n.1) : Unsayable (.number (.integer n))

variable {v : Json} {t : Toml} {xs : List Json} {fs : List (String × Json)} {depth : Nat}

/-! ## What cannot be said -/

/-- Items cannot be said if one of them cannot. -/
theorem itemsToToml?_eq_none_iff : itemsToToml? xs = none ↔ ∃ x ∈ xs, x.toToml? = none := by
  induction xs with
  | nil => simp [itemsToToml?]
  | cons x xs ih =>
    rw [itemsToToml?, List.exists_mem_cons_iff, ← ih]
    cases x.toToml? <;> cases itemsToToml? xs <;> simp

theorem fieldsToToml?_eq_none_iff : fieldsToToml? fs = none ↔ ∃ f ∈ fs, f.2.toToml? = none := by
  induction fs with
  | nil => simp [fieldsToToml?]
  | cons f fs ih =>
    rw [fieldsToToml?, List.exists_mem_cons_iff, ← ih]
    cases f.2.toToml? <;> cases fieldsToToml? fs <;> simp

/-- An integer in bounds stays the same number. -/
theorem ofInt?_val {n : Int} {m : TomlInt} (bounds : Toml.ofInt? n = some m) : m.1 = n := by
  unfold Toml.ofInt? at bounds
  split at bounds
  · cases bounds
    rfl
  · cases bounds

/-- JSON integers are never too small for TOML, only too large. -/
theorem ofInt?_eq_none_iff {n : JsonInt} : Toml.ofInt? n.1 = none ↔ 2 ^ 63 - 1 < n.1 := by
  have low := n.2.1
  unfold Toml.ofInt?
  split
  · next bounds =>
    refine iff_of_false nofun ?_
    omega
  · next bounds =>
    refine iff_of_true rfl ?_
    omega

/-- A value cannot be said if and only if something in it cannot. -/
theorem toToml?_eq_none_iff : v.toToml? = none ↔ ∃ x, Contains x v ∧ Unsayable x := by
  induction v using nested with
  | null => exact iff_of_true rfl ⟨.null, .self, .null⟩
  | bool b =>
    refine iff_of_false nofun ?_
    rintro ⟨_, ⟨⟩, ⟨⟩⟩
  | number n =>
    cases n with
    | integer n =>
      rw [toToml?, Option.map_eq_none_iff, ofInt?_eq_none_iff]
      constructor
      · intro large
        exact ⟨_, .self, .integer large⟩
      · rintro ⟨_, ⟨⟩, unsayable⟩
        cases unsayable with
        | integer large => exact large
    | float x =>
      refine iff_of_false nofun ?_
      rintro ⟨_, ⟨⟩, ⟨⟩⟩
  | string s =>
    refine iff_of_false nofun ?_
    rintro ⟨_, ⟨⟩, ⟨⟩⟩
  | array xs ih =>
    rw [toToml?, Option.map_eq_none_iff, itemsToToml?_eq_none_iff, exists_contains_array nofun]
    exact exists_congr fun x => and_congr_right (ih x)
  | object fs ih =>
    rw [toToml?, Option.map_eq_none_iff, fieldsToToml?_eq_none_iff, exists_contains_object nofun]
    exact exists_congr fun f => and_congr_right (ih f)

/-! ## What can be said -/

/-- The TOML value can be written, has its keys in order and stands for the JSON value. -/
structure Converts (depth : Nat) (v : Json) (t : Toml) : Prop where
  writable : t.Writable depth
  ordered : t.canonical = t
  json : t.toJson = v

/-- Items are said one by one. -/
theorem itemsToToml?_cons {x : Json} {ts : List Toml} (said : itemsToToml? (x :: xs) = some ts) :
    ∃ t ts', x.toToml? = some t ∧ itemsToToml? xs = some ts' ∧ ts = t :: ts' := by
  rw [itemsToToml?] at said
  obtain ⟨t, first, rest⟩ := Option.bind_eq_some_iff.1 said
  obtain ⟨ts', others, same⟩ := Option.bind_eq_some_iff.1 rest
  exact ⟨t, ts', first, others, (Option.some.inj same).symm⟩

/-- What each item becomes, all of them become together. -/
theorem converts_items {ts : List Toml} (said : itemsToToml? xs = some ts)
    (each : ∀ x ∈ xs, ∀ t, x.toToml? = some t → Converts depth x t) :
    (∀ t ∈ ts, t.Writable depth) ∧ Toml.canonicalItems ts = ts ∧ Toml.itemsToJson ts = xs := by
  induction xs generalizing ts with
  | nil =>
    cases said
    exact ⟨nofun, rfl, rfl⟩
  | cons x xs ih =>
    obtain ⟨t, ts, first, others, rfl⟩ := itemsToToml?_cons said
    obtain ⟨own, each⟩ := List.forall_mem_cons.1 each
    have c := own t first
    obtain ⟨writable, ordered, json⟩ := ih others each
    refine ⟨List.forall_mem_cons.2 ⟨c.writable, writable⟩, ?_, ?_⟩
    · rw [Toml.canonicalItems, c.ordered, ordered]
    · rw [Toml.itemsToJson, c.json, json]

/-- Fields are said one by one, under their names. -/
theorem fieldsToToml?_cons {f : String × Json} {gs : List (String × Toml)}
    (said : fieldsToToml? (f :: fs) = some gs) :
    ∃ t gs', f.2.toToml? = some t ∧ fieldsToToml? fs = some gs' ∧ gs = (f.1, t) :: gs' := by
  rw [fieldsToToml?] at said
  obtain ⟨t, first, rest⟩ := Option.bind_eq_some_iff.1 said
  obtain ⟨gs', others, same⟩ := Option.bind_eq_some_iff.1 rest
  exact ⟨t, gs', first, others, (Option.some.inj same).symm⟩

/-- What the value of each field becomes, all of them become together. -/
theorem converts_fields {gs : List (String × Toml)} (said : fieldsToToml? fs = some gs)
    (each : ∀ f ∈ fs, ∀ t, f.2.toToml? = some t → Converts depth f.2 t) :
    (∀ g ∈ gs, g.2.Writable depth) ∧ Toml.canonicalFields gs = gs ∧ Toml.fieldsToJson gs = fs := by
  induction fs generalizing gs with
  | nil =>
    cases said
    exact ⟨nofun, rfl, rfl⟩
  | cons f fs ih =>
    obtain ⟨t, gs, first, others, rfl⟩ := fieldsToToml?_cons said
    obtain ⟨own, each⟩ := List.forall_mem_cons.1 each
    have c := own t first
    obtain ⟨writable, ordered, json⟩ := ih others each
    refine ⟨List.forall_mem_cons.2 ⟨c.writable, writable⟩, ?_, ?_⟩
    · rw [Toml.canonicalFields, c.ordered, ordered]
    · rw [Toml.fieldsToJson, c.json, json]

/-- Names stay what they are, and so does their order. -/
theorem names_fieldsToJson (gs : List (String × Toml)) :
    (Toml.fieldsToJson gs).map Prod.fst = gs.map Prod.fst := by
  induction gs with
  | nil => rfl
  | cons g gs ih => rw [Toml.fieldsToJson, List.map_cons, List.map_cons, ih]

/-- A number becomes one of its own kind. -/
theorem converts_number {n : JsonNumber} (said : (Json.number n).toToml? = some t)
    (canonical : (Json.number n).Canonical)
    (exact : ∀ x, Contains (.number (.float x)) (.number n) →
      Toml.float? (Toml.writeFloat x) = some x) : Converts depth (.number n) t := by
  cases n with
  | integer n =>
    obtain ⟨m, bounds, rfl⟩ := Option.map_eq_some_iff.1 said
    have same : m.1 = n.1 := ofInt?_val bounds
    refine ⟨.integer m, rfl, ?_⟩
    rw [Toml.toJson]
    exact congrArg (fun n => Json.number (.integer n)) (Subtype.ext same)
  | float x =>
    cases said
    have finite : x.isFinite = true := canonical
    refine ⟨.float finite (exact x .self), rfl, ?_⟩
    rw [Toml.toJson, if_pos finite]

/-- An array becomes an array, one deeper than its items. -/
theorem converts_array {ts : List Toml} (said : itemsToToml? xs = some ts)
    (each : ∀ x ∈ xs, ∀ t, x.toToml? = some t → Converts depth x t) :
    Converts (depth + 1) (.array xs) (.array ts) := by
  obtain ⟨writable, ordered, json⟩ := converts_items said each
  refine ⟨.array writable, ?_, ?_⟩
  · rw [Toml.canonical, ordered]
  · rw [Toml.toJson, json]

/-- An object becomes a table with the same names, one deeper than its values. -/
theorem converts_object {gs : List (String × Toml)} (said : fieldsToToml? fs = some gs)
    (sorted : Bindings.Sorted fs)
    (each : ∀ f ∈ fs, ∀ t, f.2.toToml? = some t → Converts depth f.2 t) :
    Converts (depth + 1) (.object fs) (.table gs) := by
  obtain ⟨writable, ordered, json⟩ := converts_fields said each
  have names : gs.map Prod.fst = fs.map Prod.fst := by rw [← json, names_fieldsToJson]
  have sorted' : Bindings.Sorted gs := by
    have ascending : (gs.map Prod.fst).Pairwise (· < ·) := names ▸ List.pairwise_map.2 sorted
    exact List.pairwise_map.1 ascending
  refine ⟨.table (names ▸ sorted.nodup_names) writable, ?_, ?_⟩
  · rw [Toml.canonical, ordered, sorted'.ofList]
  · rw [Toml.toJson, json]

/-- What a value in order becomes can be written, if its floats are read back, and stands for it. -/
theorem converts_of_toToml? (said : v.toToml? = some t) (canonical : v.Canonical)
    (shallow : v.depth ≤ depth)
    (exact : ∀ x, Contains (.number (.float x)) v → Toml.float? (Toml.writeFloat x) = some x) :
    Converts depth v t := by
  induction v using nested generalizing t depth with
  | null => cases said
  | bool b =>
    cases said
    exact ⟨.bool b, rfl, rfl⟩
  | number n => exact converts_number said canonical exact
  | string s =>
    cases said
    exact ⟨.string s, rfl, rfl⟩
  | array xs ih =>
    obtain ⟨ts, items, rfl⟩ := Option.map_eq_some_iff.1 said
    rw [Json.depth] at shallow
    obtain ⟨depth, rfl⟩ : ∃ d, depth = d + 1 := ⟨depth - 1, by omega⟩
    refine converts_array items fun x mem t first => ?_
    have le : x.depth ≤ depth := (depth_le_of_mem_items mem).trans (Nat.le_of_succ_le_succ shallow)
    exact ih x mem first (ItemsCanonical.of_mem canonical mem) le
      fun y inside => exact y (.item mem inside)
  | object fs ih =>
    obtain ⟨gs, fields, rfl⟩ := Option.map_eq_some_iff.1 said
    obtain ⟨sorted, canonical⟩ := canonical
    rw [Json.depth] at shallow
    obtain ⟨depth, rfl⟩ : ∃ d, depth = d + 1 := ⟨depth - 1, by omega⟩
    refine converts_object fields sorted fun f mem t first => ?_
    have le : f.2.depth ≤ depth :=
      (depth_le_of_mem_fields mem).trans (Nat.le_of_succ_le_succ shallow)
    exact ih f mem first (canonical.of_mem mem) le fun y inside => exact y (.field mem inside)

end SessionGrid.Json
