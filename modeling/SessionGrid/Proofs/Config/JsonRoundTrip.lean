import SessionGrid.CommandLine.Program
import SessionGrid.Proofs.Config.RoundTrip
import SessionGrid.Proofs.Json.Layout

/-!
# Configurations are read back from JSON

Every configuration, valid or not, is read back from its JSON text in either layout, and from what
`check` shows of it (`ofJson?_roundTrip`), as long as its capability values are nested 122 deep at most
and its floats are read back from their texts. A record is read back from the object of its fields if
every field is read back by the reader of its name (`reads_record`).
-/

namespace SessionGrid

open Text

namespace Json

section Records

variable {α σ : Type} {s s₁ s₂ : σ} {level : Nat} (l : Layout)

/-- What a record does with one of its fields. -/
def recordField (known : List (String × (σ → Reader σ))) (k : String) (s : σ) : Reader σ :=
  fun cs =>
    match Bindings.find? k known with
    | some field => field s cs
    | none => (ignored cs).map fun (_, cs) => (s, cs)

/-- A field of a known name is read by the reader of that name, and the others after it. -/
theorem Takes.known {known : List (String × (σ → Reader σ))} {k : String} {field : σ → Reader σ}
    {write : Json → List Char} {v : Json} {fs : List (String × Json)}
    (found : Bindings.find? k known = some field) (first : Reads (field s) (write v) s₁)
    (others : Takes (recordField known) write fs s₁ s₂) :
    Takes (recordField known) write ((k, v) :: fs) s s₂ := by
  refine .cons (first.of_read fun read => ?_) others
  rw [recordField, found]
  exact read

/-- **Records.** A record is read back from the object of its fields. -/
theorem reads_record {known : List (String × (σ → Reader σ))} {fs : List (String × Json)}
    (each : Takes (recordField known) (l.write (level + 1)) fs s s₁) :
    Reads (record known s) (l.write level (.object fs)) s₁ :=
  ⟨⟨'{', _, rfl, by decide, by decide⟩, fun _ => fields_inner l each _⟩

/-- A field that has not been given yet is taken in. -/
theorem reads_once {get : σ → Option α} {set : α → σ → σ} {value : Reader α} {text : List Char}
    {x : α} (new : get s = none) (reads : Reads value text x) :
    Reads (once get set value s) text (set x s) := by
  refine reads.of_read fun read => ?_
  rw [once, new, read]
  rfl

end Records

end Json

namespace Config

open Json

section Parts

variable {α : Type} {level : Nat} (l : Layout)

theorem reads_bool (b : Bool) : Reads readBool (l.write level (.bool b)) b := by
  refine (Json.reads_bool l b).of_read fun read => ?_
  rw [readBool, read]

/-- A limit is read back, since every one of 32 bits fits. -/
theorem reads_limit (n : UInt32) (bound : n.toNat < 0x10000000000000000) :
    Reads readLimit (l.write level (.ofNat n.toNat bound)) n := by
  have number : Reads readScalar (l.write level (.ofNat n.toNat bound)) (.ofNat n.toNat bound) := by
    apply reads_number
    rintro x ⟨⟩
  refine number.of_read fun read => ?_
  have small : n.toNat < 2 ^ 32 := n.toNat_lt
  rw [readLimit, read, ofNat]
  dsimp only
  rw [if_pos (by omega), Int.toNat_natCast]
  exact congrArg (fun n => some (n, _)) UInt32.ofNat_toNat

/-- A policy is read back from its label. -/
theorem reads_policy (p : PolicyName) : Reads readPolicy (l.write level (.string p.label)) p := by
  refine (reads_quoted l p.label).of_read fun {rest} read => ?_
  change (readString (l.write level (.string p.label) ++ rest)).bind _ = _
  rw [read, Option.bind_some]
  dsimp only
  rw [ofLabel?_label]
  rfl

/-- A list is read back if its items are. -/
theorem reads_list {item : Reader α} {xs : List α} {f : α → Json}
    (each : ∀ x ∈ xs, Reads item (l.write (level + 1) (f x)) x) :
    Reads (readList item) (l.write level (.array (xs.map f))) xs where
  starts := ⟨'[', _, rfl, by decide, by decide⟩
  read _ := items_inner l (forall₂_writeItems l each) level _

/-- The configuration can be read back from JSON: its capability values are in order and 122 deep at
most, and their floats are read back. -/
structure JsonPortable (c : Config) : Prop where
  canonical : ∀ n ∈ c.nodes, ∀ offer ∈ n.capabilities, offer.toJson.Canonical
  shallow : ∀ v, c.Offers v → v.depth ≤ 122
  exact : ∀ v x, c.Offers v → Contains (.number (.float x)) v → FloatExact x

/-- **Capability sets.** A set is read back as the object of its values, with its names in order. -/
theorem reads_capabilities {offer : Capabilities} (canonical : offer.toJson.Canonical)
    (shallow : ∀ p ∈ offer.entries, p.2.depth ≤ 122)
    (exact : ∀ p ∈ offer.entries, ∀ x, Contains (.number (.float x)) p.2 → FloatExact x) :
    Reads readCapabilities (l.write level offer.toJson) offer := by
  have depth : offer.toJson.depth ≤ 123 := Nat.succ_le_succ (Json.fieldsDepth_le shallow)
  have value := reads_write l canonical.ordered depth (by
    intro x inside
    obtain impossible | ⟨p, mem, inner⟩ := contains_object.1 inside
    · cases impossible
    · exact exact p mem x inner) level
  refine value.of_read fun read => ?_
  rw [readCapabilities, readObject, maxDepth, read]
  rfl

/-! ## Records -/

/-- The section of the hub is read back with both of its fields. -/
theorem reads_hub (strict : Bool) (p : PolicyName) :
    Reads readHub
      (l.write level (.object [("throw_on_capability_not_present", .bool strict),
        ("policy", .string p.label)]))
      { strict, policy := p } := by
  apply reads_record
  refine .known rfl (reads_once rfl (reads_bool l strict)) ?_
  refine .known rfl (reads_once rfl (reads_policy l p)) ?_
  exact .nil

/-- **Nodes.** A node is read back if the sets that it offers are. -/
theorem reads_node {n : NodeConfig}
    (offers : ∀ offer ∈ n.capabilities,
      Reads readCapabilities (l.write (level + 2) offer.toJson) offer) :
    Reads readNode (l.write level n.toJson) n := by
  have fields : Reads readNodeFields (l.write level n.toJson)
      { id := n.id.text, maxSessions := n.maxSessions, capabilities := n.capabilities } := by
    apply reads_record
    refine .known rfl (reads_once rfl (reads_quoted l n.id.text)) ?_
    refine .known rfl (reads_once rfl (reads_limit l n.maxSessions _)) ?_
    refine .known rfl (reads_once rfl (reads_list l offers)) ?_
    exact .nil
  refine fields.of_read fun {rest} read => ?_
  change (readNodeFields (l.write level n.toJson ++ rest)).bind _ = _
  rw [read]
  rfl

/-- A configuration is read back as the fields that are there, if its nodes are. -/
theorem reads_fields {c : Config}
    (nodes : ∀ n ∈ c.nodes, Reads readNode (l.write (level + 2) n.toJson) n) :
    Reads readFields (l.write level c.toJson)
      { hub := some { strict := c.strict, policy := c.policy }, nodes := c.nodes } := by
  apply reads_record
  refine .known rfl (reads_once rfl (reads_hub l c.strict c.policy)) ?_
  refine .known rfl (reads_once rfl (reads_list l nodes)) ?_
  exact .nil

end Parts

/-! ## Texts -/

variable {c : Config}

/-- Within the bounds the fields of a configuration are read back. -/
theorem JsonPortable.reads (portable : c.JsonPortable) (l : Layout) (level : Nat) :
    Reads readFields (l.write level c.toJson)
      { hub := some { strict := c.strict, policy := c.policy }, nodes := c.nodes } := by
  refine reads_fields l fun n memN => reads_node l fun offer memO => ?_
  have offers : ∀ p ∈ offer.entries, c.Offers p.2 :=
    fun p memP => ⟨n, memN, offer, memO, p, memP, rfl⟩
  exact reads_capabilities l (portable.canonical n memN offer memO)
    (fun p memP => portable.shallow p.2 (offers p memP))
    (fun p memP x => portable.exact p.2 x (offers p memP))

/-- **Documents.** The text is read back to its end, with blanks behind it or without. -/
theorem JsonPortable.ofJson? (portable : c.JsonPortable) (l : Layout) {blanks : List Char}
    (blank : ∀ c ∈ blanks, isSpace c = true) :
    Config.ofJson? (String.ofList (l.write 0 c.toJson ++ blanks)) = some c := by
  rw [Config.ofJson?, whole_of_reads (portable.reads l 0) blank]
  rfl

theorem JsonPortable.compact (portable : c.JsonPortable) :
    Config.ofJson? c.toJson.compact = some c := by
  have read : Config.ofJson? (String.ofList (Layout.compact.write 0 c.toJson ++ [])) = some c :=
    portable.ofJson? Layout.compact (by simp)
  rwa [List.append_nil, Layout.compact_write] at read

theorem JsonPortable.pretty (portable : c.JsonPortable) :
    Config.ofJson? c.toJson.pretty = some c := by
  have read : Config.ofJson? (String.ofList (Layout.pretty.write 0 c.toJson ++ [])) = some c :=
    portable.ofJson? Layout.pretty (by simp)
  rwa [List.append_nil, Layout.pretty_write] at read

/-- What is shown of a configuration ends with its line. -/
theorem JsonPortable.present (portable : c.JsonPortable) :
    Config.ofJson? (CommandLine.present "json" Config.toJson CommandLine.summary (.ok c)).stdout =
      some c := by
  have line : (CommandLine.present "json" Config.toJson CommandLine.summary (.ok c)).stdout =
      String.ofList (c.toJson.writePretty 0 ++ ['\n']) := by
    rw [String.ofList_append]
    rfl
  have blank : ∀ c ∈ ['\n'], isSpace c = true := by simp [isSpace]
  have read := portable.ofJson? Layout.pretty blank
  rwa [Layout.pretty_write, ← line] at read

/-- **Round trip.** A configuration, valid or not, whose capability values are in order and nested 122
deep at most and whose floats are read back from their texts is read back from its JSON text in either
layout and from what is shown of it as JSON: ids, limits, flags, the policy, the order of nodes and all
values. Two such configurations with the same text are the same. -/
theorem ofJson?_roundTrip (c : Config) (portable : c.JsonPortable) :
    Config.ofJson? c.toJson.compact = some c ∧ Config.ofJson? c.toJson.pretty = some c ∧
      Config.ofJson? (CommandLine.present "json" Config.toJson CommandLine.summary (.ok c)).stdout =
        some c ∧
      ∀ d : Config, d.JsonPortable →
        c.toJson.compact = d.toJson.compact ∨ c.toJson.pretty = d.toJson.pretty → c = d := by
  refine ⟨portable.compact, portable.pretty, portable.present, ?_⟩
  rintro d portable' (same | same)
  · have read := portable.compact
    rw [same, portable'.compact] at read
    exact (Option.some.inj read).symm
  · have read := portable.pretty
    rw [same, portable'.pretty] at read
    exact (Option.some.inj read).symm

/-- An invalid configuration: no slot, an id that needs escapes and a blank one, and values with `null`,
a float and an integer that needs all of 64 bits. -/
def odd : Config :=
  { strict := false
    policy := .roundRobin
    nodes := [
      { id := ⟨"\"\\\n\u0001é"⟩
        maxSessions := 0
        capabilities := [
          ⟨[("", .array [.null, .number (.float ⟨0x3FF8000000000000⟩)]),
            ("k", .object [("x", .number (.integer ⟨0xFFFFFFFFFFFFFFFF, by decide⟩))])]⟩] },
      { id := ⟨""⟩ }] }

theorem odd_portable : odd.JsonPortable where
  canonical := by
    have finite : (⟨0x3FF8000000000000⟩ : Binary64).isFinite = true := by decide +kernel
    simp only [odd, List.forall_mem_cons]
    refine ⟨⟨⟨?_, ⟨trivial, finite, trivial⟩, ⟨?_, trivial, trivial⟩, trivial⟩, nofun⟩, nofun,
      nofun⟩
    · unfold Bindings.Sorted
      decide
    · exact .cons nofun .nil
  shallow := by
    rintro _ ⟨n, memN, offer, memO, p, memP, rfl⟩
    revert n offer p
    decide +kernel
  exact := by
    rintro _ x ⟨n, memN, offer, memO, p, memP, rfl⟩ inside
    obtain _ | ⟨_, _ | ⟨_, ⟨⟩⟩⟩ := memN
    · obtain _ | ⟨_, ⟨⟩⟩ := memO
      obtain _ | ⟨_, _ | ⟨_, ⟨⟩⟩⟩ := memP
      · obtain impossible | ⟨v, mem, inner⟩ := contains_array.1 inside
        · cases impossible
        obtain _ | ⟨_, _ | ⟨_, ⟨⟩⟩⟩ := mem
        · cases inner
        · cases inner
          exact floatExact_oneAndAHalf
      · obtain impossible | ⟨f, mem, inner⟩ := contains_object.1 inside
        · cases impossible
        obtain _ | ⟨_, ⟨⟩⟩ := mem
        cases inner
    · cases memO

theorem odd_roundTrip :
    odd.JsonPortable ∧ Config.ofJson? odd.toJson.compact = some odd ∧
      Config.ofJson? odd.toJson.pretty = some odd ∧ odd.fault?.isSome = true :=
  have ⟨compact, pretty, _⟩ := ofJson?_roundTrip odd odd_portable
  ⟨odd_portable, compact, pretty, by decide +kernel⟩

end Config

end SessionGrid
