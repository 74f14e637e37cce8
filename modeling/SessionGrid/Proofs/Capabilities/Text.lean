import SessionGrid.Proofs.Capabilities.Pairs
import SessionGrid.Proofs.Text.ByteOrder

/-!
# Capability sets as text

A set in order is read back from its text (`read_text`), which shows all its objects with their names in
order of their bytes. All that can be done to make a set leaves it in order (`Built.ordered`), so that sets
are known by their bindings (`Built.ext`), and so are their texts.
-/

namespace SessionGrid.Capabilities

variable {c d : Capabilities}

/-! ## Reading back -/

/-- **Round trip.** A set in order is read back from its text. -/
theorem read_text (ordered : c.toJson.Ordered) (shallow : c.toJson.depth ≤ 127)
    (exact : c.toJson.FloatsExact) : read c.text = some c := by
  have value := Json.reads_write Json.Layout.compact ordered shallow exact 0
  have object : Json.Reads (Json.readObject Json.maxDepth) (Json.Layout.compact.write 0 c.toJson)
      c.entries := by
    refine value.of_read fun read => ?_
    rw [Json.readObject, Json.maxDepth, read]
    rfl
  rw [read, text, Json.whole_compact object]
  rfl

/-- The text shows the set as it is, with all fields of its objects in their order. -/
theorem readAsWritten_text (shallow : c.toJson.depth ≤ 127) (exact : c.toJson.FloatsExact) :
    Json.whole (Json.readAsWritten 127) c.text = some c.toJson :=
  Json.whole_compact (Json.readsAsWritten_write Json.Layout.compact shallow exact 0)

/-- What was read is in order, with bounded depth. -/
theorem ordered_of_read {t : String} (said : read t = some c) :
    c.toJson.Ordered ∧ c.toJson.depth ≤ 127 := by
  obtain ⟨b, whole, rfl⟩ := Option.map_eq_some_iff.1 said
  obtain ⟨rest, object, -⟩ := Json.whole_eq_some whole
  rw [Json.readObject] at object
  split at object
  · next value =>
    cases object
    exact Json.readValue_ordered value
  · cases object

/-! ## Sets that are made -/

/-- The set was made by binding names, by collecting pairs, by reading a text or by typing pairs. -/
inductive Built : Capabilities → Prop where
  | empty : Built empty
  | insert {c : Capabilities} {name : String} {value : Json} (built : Built c)
    (ordered : value.Ordered) : Built (c.insert name value)
  | collected {pairs : List (String × Json)} (ordered : ∀ p ∈ pairs, p.2.Ordered) :
    Built (ofList pairs)
  | read {t : String} {c : Capabilities} (said : read t = some c) : Built c
  | typed {pairs : List String} {c : Capabilities} (said : parsePairs pairs = some c) : Built c

/-- A typed value is in order, whether it was read or kept as a string. -/
theorem ordered_typedValue (s : String) : (typedValue s).Ordered := by
  rw [typedValue]
  cases said : Json.read s with
  | none => exact Json.ordered_string s
  | some v =>
    obtain ⟨rest, value, -⟩ := Json.whole_eq_some said
    exact (Json.readValue_ordered value).1

theorem ordered_of_parsePair {s : String} {p : String × Json} (said : parsePair s = some p) :
    p.2.Ordered := by
  obtain ⟨⟨name, value⟩, split, said⟩ := Option.bind_eq_some_iff.1 said
  dsimp only at said
  split at said
  · cases said
  · cases said
    exact ordered_typedValue _

theorem ordered_of_forall₂ {texts : List String} {pairs : List (String × Json)}
    (each : List.Forall₂ (fun s p => parsePair s = some p) texts pairs) : ∀ p ∈ pairs, p.2.Ordered := by
  induction each with
  | nil => exact nofun
  | cons first others ih => exact List.forall_mem_cons.2 ⟨ordered_of_parsePair first, ih⟩

/-- Values in order make a set in order, whatever the order of their names. -/
theorem ordered_ofList {pairs : List (String × Json)} (ordered : ∀ p ∈ pairs, p.2.Ordered) :
    (ofList pairs).toJson.Ordered := by
  have all : ∀ b : Bindings Json, (∀ f ∈ b, f.2.Ordered) →
      ∀ f ∈ Bindings.insertAll pairs b, f.2.Ordered := by
    induction pairs with
    | nil => exact fun b before => before
    | cons p pairs ih =>
      obtain ⟨own, others⟩ := List.forall_mem_cons.1 ordered
      exact fun b before => ih others _ (Json.forall_insert before p.1 own)
  exact Json.ordered_object.2 ⟨Bindings.sorted_ofList pairs, all [] nofun⟩

/-- **Order.** Whatever is done to make a set leaves the names of all its objects in order. -/
theorem Built.ordered (built : Built c) : c.toJson.Ordered := by
  induction built with
  | empty => exact Json.ordered_object.2 ⟨List.Pairwise.nil, nofun⟩
  | @insert c name value built ordered ih =>
    obtain ⟨sorted, each⟩ := Json.ordered_object.1 ih
    exact Json.ordered_object.2 ⟨sorted.insert name value, Json.forall_insert each name ordered⟩
  | collected ordered => exact ordered_ofList ordered
  | read said => exact (ordered_of_read said).1
  | typed said =>
    obtain ⟨ps, parsed, rfl⟩ := Option.map_eq_some_iff.1 said
    exact ordered_ofList (ordered_of_forall₂ (mapM_eq_some.1 parsed))

theorem Built.sorted (built : Built c) : c.entries.Sorted :=
  (Json.ordered_object.1 built.ordered).1

/-- Sets are known by their bindings. -/
theorem Built.ext (hc : Built c) (hd : Built d) (same : ∀ name, c.get? name = d.get? name) : c = d := by
  have entries : c.entries = d.entries := hc.sorted.ext_find? hd.sorted same
  cases c
  cases d
  exact congrArg mk entries

/-- **Text.** A set in order that is nested 127 deep at most and whose floats are read back from their own
texts is read back from its text, in which the names of every object, at any depth, ascend by their bytes.
Sets are in order however they are made; two of them with the same bindings are the same and have the same
text. What was read from any text is read back from its own. -/
theorem text_roundTrip :
    (∀ c : Capabilities, c.toJson.Ordered → c.toJson.depth ≤ 127 → c.toJson.FloatsExact →
      read c.text = some c ∧ Json.whole (Json.readAsWritten 127) c.text = some c.toJson ∧
        ∀ fs, Json.Contains (.object fs) c.toJson →
          fs.Pairwise fun p q => Text.bytes p.1 < Text.bytes q.1) ∧
    (∀ c, Built c → c.toJson.Ordered) ∧
    (∀ c d, Built c → Built d → (∀ name, c.get? name = d.get? name) → c = d ∧ c.text = d.text) ∧
    ∀ t c, read t = some c → c.toJson.FloatsExact → read c.text = some c := by
  refine ⟨?_, fun c built => built.ordered, ?_, ?_⟩
  · intro c ordered shallow exact
    refine ⟨read_text ordered shallow exact, readAsWritten_text shallow exact, fun fs inside => ?_⟩
    exact (ordered fs inside).imp Text.lt_iff_bytes_lt.1
  · intro c d hc hd same
    have same := hc.ext hd same
    exact ⟨same, congrArg text same⟩
  · intro t c said exact
    obtain ⟨ordered, shallow⟩ := ordered_of_read said
    exact read_text ordered shallow exact

/-- A set with a control character, a quote and a backslash in its names and texts, the largest and the
least integer and a float, made in two ways. -/
theorem text_roundTrip_examples :
    let inner : Json := .object
      [("\n", .number (.integer ⟨0xFFFFFFFFFFFFFFFF, by decide⟩)),
        ("é", .number (.integer ⟨-0x8000000000000000, by decide⟩))]
    let outer : Json := .array [.null, .number (.float ⟨0x3FF8000000000000⟩), .string "\"\\\u0001"]
    let c := (empty.insert "b" inner).insert "" outer
    let d := ofList [("", inner), ("", outer), ("b", inner)]
    c.toJson.Ordered ∧ c.toJson.depth = 2 ∧ c.toJson.FloatsExact ∧ read c.text = some c ∧
      c = d ∧ c.text = d.text := by
  intro inner outer c d
  obtain ⟨trips, -, known, -⟩ := text_roundTrip
  have outerOrdered : outer.Ordered := by
    rw [Json.ordered_array]
    simp only [List.forall_mem_cons]
    exact ⟨Json.ordered_null, Json.ordered_number _, Json.ordered_string _, nofun⟩
  have innerOrdered : inner.Ordered := by
    refine Json.Canonical.ordered ⟨?_, trivial, trivial, trivial⟩
    unfold Bindings.Sorted
    decide
  have built : Built c := .insert (.insert .empty innerOrdered) outerOrdered
  have built' : Built d := by
    refine .collected ?_
    simp only [List.forall_mem_cons]
    exact ⟨innerOrdered, outerOrdered, innerOrdered, nofun⟩
  have exact : c.toJson.FloatsExact := by
    intro x inside
    obtain impossible | ⟨p, mem, inner⟩ := Json.contains_object.1 inside
    · cases impossible
    obtain _ | ⟨_, _ | ⟨_, ⟨⟩⟩⟩ := mem
    · obtain impossible | ⟨v, mem, inner⟩ := Json.contains_array.1 inner
      · cases impossible
      obtain _ | ⟨_, _ | ⟨_, _ | ⟨_, ⟨⟩⟩⟩⟩ := mem
      · cases inner
      · cases inner
        exact Json.floatExact_oneAndAHalf
      · cases inner
    · obtain impossible | ⟨f, mem, inner⟩ := Json.contains_object.1 inner
      · cases impossible
      obtain _ | ⟨_, _ | ⟨_, ⟨⟩⟩⟩ := mem
      · cases inner
      · cases inner
  have shallow : c.toJson.depth = 2 := by decide +kernel
  have same : ∀ name, c.get? name = d.get? name := by
    intro name
    simp only [c, d, get?, insert, ofList, Bindings.ofList, List.foldl_cons, List.foldl_nil,
      Bindings.find?_insert]
    split_ifs <;> simp_all [empty]
  obtain ⟨back, -⟩ := trips c built.ordered (by omega) exact
  exact ⟨built.ordered, shallow, exact, back, known c d built built' same⟩

end SessionGrid.Capabilities
