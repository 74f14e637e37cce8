import SessionGrid.Proofs.Config.Conversion
import SessionGrid.Proofs.Lists

/-!
# Configurations are read back

A valid configuration can be written as TOML unless a capability value holds a `null` or an integer
above `2 ^ 63 - 1` somewhere, and is read back from its text as it was (`tomlText?_roundTrip`), as long
as its capability values are nested 70 deep at most and its floats are read back from their texts.
-/

namespace SessionGrid.Config

/-! ## Elements -/

/-- What is written for each element can be written and is read back as the element. -/
theorem mapM_readsBack {α : Type} {xs : List α} {write : α → Option Toml}
    {read : Toml → Option α} {depth : Nat} {ts : List Toml} (written : xs.mapM write = some ts)
    (each : ∀ x ∈ xs, ∀ t, write x = some t → t.Writable depth ∧ read t.canonical = some x) :
    (∀ t ∈ ts, t.Writable depth) ∧ (Toml.canonicalItems ts).mapM read = some xs := by
  induction xs generalizing ts with
  | nil =>
    cases written
    exact ⟨nofun, rfl⟩
  | cons x xs ih =>
    rw [List.mapM_cons] at written
    obtain ⟨t, first, rest⟩ := Option.bind_eq_some_iff.1 written
    obtain ⟨ts', others, same⟩ := Option.bind_eq_some_iff.1 rest
    cases same
    obtain ⟨own, each⟩ := List.forall_mem_cons.1 each
    obtain ⟨writable, back⟩ := own t first
    obtain ⟨writables, backs⟩ := ih others each
    refine ⟨List.forall_mem_cons.2 ⟨writable, writables⟩, ?_⟩
    rw [Toml.canonicalItems, List.mapM_cons, back, backs]
    rfl

/-! ## Records -/

section Records

variable {offer : Capabilities} {n : NodeConfig} {c : Config} {t : Toml}

/-- The set can be written as a capability set of a text: its values are in order and 70 deep at most,
and their floats are read back. -/
structure Portable (offer : Capabilities) : Prop where
  canonical : offer.toJson.Canonical
  shallow : ∀ p ∈ offer.entries, p.2.depth ≤ 70
  exact : ∀ p ∈ offer.entries, ∀ x, Json.Contains (.number (.float x)) p.2 →
    Toml.float? (Toml.writeFloat x) = some x

/-- **Capability sets.** What is written of a set is read back as the set. -/
theorem Portable.readsBack (portable : Portable offer) (written : offer.toJson.toToml? = some t) :
    t.Writable 71 ∧ capabilitiesOf? t.canonical = some offer := by
  have shallow : offer.toJson.depth ≤ 71 := by
    rw [Capabilities.toJson, Json.depth]
    exact Nat.succ_le_succ (Json.fieldsDepth_le portable.shallow)
  have converts := Json.converts_of_toToml? written portable.canonical shallow (by
    intro x inside
    obtain impossible | ⟨p, mem, inner⟩ := Json.contains_object.1 inside
    · cases impossible
    · exact portable.exact p mem x inner)
  refine ⟨converts.writable, ?_⟩
  obtain ⟨gs, fields, rfl⟩ := Option.map_eq_some_iff.1 written
  have json := converts.json
  rw [Toml.toJson, Capabilities.toJson, Json.object.injEq] at json
  rw [converts.ordered, capabilitiesOf?, json]

/-- A limit is read back from its integer. -/
theorem limitOf?_ofInt? {limit : UInt32} {k : TomlInt} (same : Toml.ofInt? limit.toNat = some k) :
    limitOf? (.integer k) = some limit := by
  have value : k.1 = limit.toNat := Json.ofInt?_val same
  have small : limit.toNat < 2 ^ 32 := limit.toNat_lt
  have bounds : 0 ≤ k.1 ∧ k.1 < 0x100000000 := by omega
  rw [limitOf?, if_pos bounds, value, Int.toNat_natCast]
  exact congrArg some (UInt32.ofNat_toNat)

/-- Every limit of 32 bits is an integer of the format. -/
theorem ofInt?_limit (limit : UInt32) : ∃ k, Toml.ofInt? limit.toNat = some k := by
  have small : limit.toNat < 2 ^ 32 := limit.toNat_lt
  cases same : Toml.ofInt? limit.toNat with
  | some k => exact ⟨k, rfl⟩
  | none =>
    unfold Toml.ofInt? at same
    split at same
    · cases same
    · omega

/-- The fields of a node as they are written. -/
theorem nodeToToml?_eq_some (written : nodeToToml? n = some t) :
    ∃ k ts, Toml.ofInt? n.maxSessions.toNat = some k ∧
      n.capabilities.mapM (fun offer => offer.toJson.toToml?) = some ts ∧
      t = .table [("id", .string n.id.text), ("max_sessions", .integer k),
        ("capabilities", .array ts)] := by
  unfold nodeToToml? at written
  obtain ⟨k, limit, rest⟩ := Option.bind_eq_some_iff.1 written
  obtain ⟨ts, offers, same⟩ := Option.bind_eq_some_iff.1 rest
  cases same
  exact ⟨k, ts, limit, offers, rfl⟩

/-- **Nodes.** A node is read back with all its sets, two levels deeper than these. -/
theorem nodeToToml?_readsBack (portable : ∀ offer ∈ n.capabilities, Portable offer)
    (written : nodeToToml? n = some t) : t.Writable 73 ∧ nodeOf? t.canonical = some n := by
  obtain ⟨k, ts, limit, offers, rfl⟩ := nodeToToml?_eq_some written
  obtain ⟨writable, back⟩ := mapM_readsBack offers fun offer mem t first =>
    (portable offer mem).readsBack first
  have distinct : (["id", "max_sessions", "capabilities"] : List String).Nodup := by decide
  refine ⟨.table distinct ?_, ?_⟩
  · simp only [List.forall_mem_cons]
    exact ⟨.string _, .integer k, .array writable, nofun⟩
  · let fs : List (String × Toml) :=
      [("id", .string n.id.text), ("max_sessions", .integer k),
        ("capabilities", .array (Toml.canonicalItems ts))]
    have names : (fs.map Prod.fst).Nodup := distinct
    have id : Bindings.find? "id" (Bindings.ofList fs) = some (.string n.id.text) :=
      Bindings.find?_ofList names (by simp [fs])
    have max : Bindings.find? "max_sessions" (Bindings.ofList fs) = some (.integer k) :=
      Bindings.find?_ofList names (by simp [fs])
    have capabilities : Bindings.find? "capabilities" (Bindings.ofList fs) =
        some (.array (Toml.canonicalItems ts)) :=
      Bindings.find?_ofList names (by simp [fs])
    have canonical : Toml.canonical (.table [("id", .string n.id.text), ("max_sessions", .integer k),
        ("capabilities", .array ts)]) = .table (Bindings.ofList fs) := rfl
    have limit' := limitOf?_ofInt? limit
    rw [canonical, nodeOf?]
    simp [recordOf?, id, max, capabilities, fieldOr, limit', listOf?, back]

/-- The fields of a configuration as they are written. -/
theorem toToml?_eq_some {fields : List (String × Toml)} (written : c.toToml? = some fields) :
    ∃ ts, c.nodes.mapM nodeToToml? = some ts ∧
      fields = [
        ("hub", .table [
          ("throw_on_capability_not_present", .bool c.strict),
          ("policy", .string c.policy.label)]),
        ("node", .array ts)] := by
  obtain ⟨ts, nodes, same⟩ := Option.bind_eq_some_iff.1 written
  exact ⟨ts, nodes, (Option.some.inj same).symm⟩

/-- A policy is known by its label. -/
theorem ofLabel?_label (p : PolicyName) : PolicyName.ofLabel? p.label = some p := by
  cases p <;> decide

theorem hubOf?_readsBack (strict : Bool) (policy : PolicyName) :
    hubOf? (Toml.canonical (.table [("throw_on_capability_not_present", .bool strict),
      ("policy", .string policy.label)])) = some (strict, policy) := by
  let fs : List (String × Toml) :=
    [("throw_on_capability_not_present", .bool strict), ("policy", .string policy.label)]
  have distinct : (["throw_on_capability_not_present", "policy"] : List String).Nodup := by decide
  have names : (fs.map Prod.fst).Nodup := distinct
  have bool : Bindings.find? "throw_on_capability_not_present" (Bindings.ofList fs) =
      some (.bool strict) := Bindings.find?_ofList names (by simp [fs])
  have label : Bindings.find? "policy" (Bindings.ofList fs) = some (.string policy.label) :=
    Bindings.find?_ofList names (by simp [fs])
  have canonical : Toml.canonical (.table [("throw_on_capability_not_present", .bool strict),
      ("policy", .string policy.label)]) = .table (Bindings.ofList fs) := rfl
  rw [canonical, hubOf?]
  simp [recordOf?, bool, label, fieldOr, boolOf?, policyOf?, ofLabel?_label]

/-- **Documents.** The configuration is read back from its fields, two levels deeper again. -/
theorem toToml?_readsBack {fields : List (String × Toml)}
    (portable : ∀ n ∈ c.nodes, ∀ offer ∈ n.capabilities, Portable offer)
    (written : c.toToml? = some fields) :
    (Toml.table fields).Writable 75 ∧
      ofToml? (Bindings.ofList (Toml.canonicalFields fields)) = some c := by
  obtain ⟨ts, nodes, rfl⟩ := toToml?_eq_some written
  obtain ⟨writable, back⟩ := mapM_readsBack nodes fun n mem t first =>
    nodeToToml?_readsBack (portable n mem) first
  have distinct : (["hub", "node"] : List String).Nodup := by decide
  have distinct' : (["throw_on_capability_not_present", "policy"] : List String).Nodup := by decide
  refine ⟨.table distinct ?_, ?_⟩
  · simp only [List.forall_mem_cons]
    refine ⟨.table distinct' ?_, .array writable, nofun⟩
    simp only [List.forall_mem_cons]
    exact ⟨.bool _, .string _, nofun⟩
  · let hub : Toml := .table [("throw_on_capability_not_present", .bool c.strict),
      ("policy", .string c.policy.label)]
    let fs : List (String × Toml) := [("hub", hub.canonical), ("node", .array (Toml.canonicalItems ts))]
    have names : (fs.map Prod.fst).Nodup := distinct
    have first : Bindings.find? "hub" (Bindings.ofList fs) = some hub.canonical :=
      Bindings.find?_ofList names (by simp [fs])
    have second : Bindings.find? "node" (Bindings.ofList fs) =
        some (.array (Toml.canonicalItems ts)) := Bindings.find?_ofList names (by simp [fs])
    have canonical : Toml.canonicalFields [("hub", hub), ("node", .array ts)] = fs := rfl
    have read := hubOf?_readsBack c.strict c.policy
    rw [canonical, ofToml?]
    simp [first, second, fieldOr, hub, read, listOf?, back]

end Records

/-! ## Texts -/

/-- Some node of the configuration offers the value under some name. -/
def Offers (c : Config) (v : Json) : Prop :=
  ∃ n ∈ c.nodes, ∃ offer ∈ n.capabilities, ∃ p ∈ offer.entries, p.2 = v

section Texts

variable {c : Config}

/-- A node cannot be written if one of its sets cannot. -/
theorem nodeToToml?_eq_none_iff {n : NodeConfig} :
    nodeToToml? n = none ↔ ∃ offer ∈ n.capabilities, offer.toJson.toToml? = none := by
  obtain ⟨k, limit⟩ := ofInt?_limit n.maxSessions
  rw [← mapM_eq_none_iff, nodeToToml?, limit]
  cases n.capabilities.mapM fun offer => offer.toJson.toToml? <;> simp

/-- A configuration cannot be written if and only if something in a value that it offers cannot. -/
theorem tomlText?_eq_none_iff :
    c.tomlText? = none ↔ ∃ v, c.Offers v ∧ ∃ x, Json.Contains x v ∧ Json.Unsayable x := by
  have nodes : c.tomlText? = none ↔ ∃ n ∈ c.nodes, nodeToToml? n = none := by
    rw [← mapM_eq_none_iff, tomlText?, Option.map_eq_none_iff, toToml?]
    cases c.nodes.mapM nodeToToml? <;> simp
  rw [nodes]
  constructor
  · rintro ⟨n, memN, none⟩
    obtain ⟨offer, memO, none⟩ := nodeToToml?_eq_none_iff.1 none
    obtain ⟨x, inside, unsayable⟩ := Json.toToml?_eq_none_iff.1 none
    obtain rfl | ⟨p, memP, inner⟩ := Json.contains_object.1 inside
    · cases unsayable
    · exact ⟨p.2, ⟨n, memN, offer, memO, p, memP, rfl⟩, x, inner, unsayable⟩
  · rintro ⟨v, ⟨n, memN, offer, memO, p, memP, rfl⟩, x, inside, unsayable⟩
    refine ⟨n, memN, nodeToToml?_eq_none_iff.2 ⟨offer, memO, ?_⟩⟩
    exact Json.toToml?_eq_none_iff.2 ⟨x, .field memP inside, unsayable⟩

/-- **Round trip.** A valid configuration whose values are in order of name can be written unless one
of them holds a `null` or an integer above `2 ^ 63 - 1`. If its values are nested 70 deep at most, and
if its floats are read back from their texts, the text describes the same configuration again: ids,
limits, flags, the order of nodes and all values. -/
theorem tomlText?_roundTrip (c : Config) (valid : c.fault? = none)
    (canonical : ∀ n ∈ c.nodes, ∀ offer ∈ n.capabilities, offer.toJson.Canonical) :
    (c.tomlText? = none ↔ ∃ v, c.Offers v ∧ ∃ x, Json.Contains x v ∧ Json.Unsayable x) ∧
      ∀ text, c.tomlText? = some text → (∀ v, c.Offers v → v.depth ≤ 70) →
        (∀ v x, c.Offers v → Json.Contains (.number (.float x)) v →
          Toml.float? (Toml.writeFloat x) = some x) →
        ofTomlText text = .ok c := by
  refine ⟨tomlText?_eq_none_iff, fun text written shallow exact => ?_⟩
  obtain ⟨fields, table, rfl⟩ := Option.map_eq_some_iff.1 written
  have portable : ∀ n ∈ c.nodes, ∀ offer ∈ n.capabilities, Portable offer := by
    intro n memN offer memO
    have offers : ∀ p ∈ offer.entries, c.Offers p.2 :=
      fun p memP => ⟨n, memN, offer, memO, p, memP, rfl⟩
    exact ⟨canonical n memN offer memO, fun p memP => shallow p.2 (offers p memP),
      fun p memP x => exact p.2 x (offers p memP)⟩
  obtain ⟨writable, back⟩ := toToml?_readsBack portable table
  have read := Toml.read_write (writable.mono (by decide : 75 ≤ Toml.maxDepth + 1))
  rw [ofTomlText, read, Option.bind_some, back]
  simp only [valid]

/-- Ids that ask for different quotes, a table in an array of tables, an array of arrays with a table,
names that are no bare keys, and a zero of binary64. -/
def mixed : Config :=
  { strict := false
    policy := .roundRobin
    nodes := [
      { id := ⟨"a\"\\\n\u0001é"⟩
        maxSessions := 7
        capabilities := [
          ⟨[("", .object [("x y", .array [.array [], .object [("k", .bool true)]])]),
            ("n", .number (.integer ⟨-5, by decide⟩)),
            ("zero", .number (.float ⟨0⟩))]⟩,
          ⟨[]⟩] },
      { id := ⟨"'"⟩ }] }

/-- A configuration with values of every kind is written and read back. -/
theorem mixed_roundTrip : ∃ text, mixed.tomlText? = some text ∧ ofTomlText text = .ok mixed := by
  have valid : mixed.fault? = none := by decide +kernel
  have canonical : ∀ n ∈ mixed.nodes, ∀ offer ∈ n.capabilities, offer.toJson.Canonical := by
    simp only [mixed, List.forall_mem_cons]
    refine ⟨⟨⟨?_, ⟨?_, ?_⟩, trivial, rfl, trivial⟩, ⟨.nil, trivial⟩, nofun⟩, nofun, nofun⟩
    · unfold Bindings.Sorted
      decide
    · unfold Bindings.Sorted
      decide
    · exact ⟨⟨trivial, ⟨.cons nofun .nil, trivial, trivial⟩, trivial⟩, trivial⟩
  have shallow : ∀ v, mixed.Offers v → v.depth ≤ 70 := by
    rintro _ ⟨n, memN, offer, memO, p, memP, rfl⟩
    revert n offer p
    decide +kernel
  have zero : Toml.float? (Toml.writeFloat ⟨0⟩) = some ⟨0⟩ := by decide +kernel
  have exact : ∀ v x, mixed.Offers v → Json.Contains (.number (.float x)) v →
      Toml.float? (Toml.writeFloat x) = some x := by
    rintro _ x ⟨n, memN, offer, memO, p, memP, rfl⟩ inside
    have bool : ¬ Json.Contains (.number (.float x)) (.bool true) := nofun
    obtain _ | ⟨_, _ | ⟨_, ⟨⟩⟩⟩ := memN
    · obtain _ | ⟨_, _ | ⟨_, ⟨⟩⟩⟩ := memO
      · obtain _ | ⟨_, _ | ⟨_, _ | ⟨_, ⟨⟩⟩⟩⟩ := memP
        · simp [Json.contains_object, Json.contains_array, bool] at inside
        · cases inside
        · cases inside
          exact zero
      · cases memP
    · cases memO
  cases written : mixed.tomlText? with
  | none =>
    have sayable : mixed.tomlText?.isSome := by decide +kernel
    rw [written] at sayable
    cases sayable
  | some text =>
    exact ⟨text, rfl, (tomlText?_roundTrip mixed valid canonical).2 text written shallow exact⟩

end Texts

end SessionGrid.Config
