import SessionGrid.Proofs.Hub.NodeStep

/-!
# What questions about the grid depend on

Whether a hub has a capability, and what it answers when a request is to be verified, depends on its
members, on what was declared of each node object and on its strictness, and on nothing that sessions or
shutdowns change. Two hubs that agree on these (`SameFleet`) answer such questions alike, and the same
calls keep them in agreement, whatever their nodes are busy with.
-/

namespace SessionGrid

/-- What a change makes of the members. -/
def Change.apply (members : Bindings Handle) : Change → Bindings Handle
  | added id h true => Bindings.insert id.text h members
  | removed id (.ok _) => Bindings.erase id.text members
  | _ => members

namespace Hub

/-! ## Members -/

section Members

variable {P N : Type} [Node N] {a b : Hub P N}

/-- The changes alone tell what becomes of the membership. -/
theorem MembershipStep.members {hub hub' : Hub P N} {changes : List Change}
    (step : MembershipStep hub changes hub') :
    hub'.members = changes.foldl Change.apply hub.members := by
  cases step with
  | other same => exact same.members
  | accepted | ignored | removed | missing => rfl

/-- A node is taken in if no member has its id. -/
theorem add_answer (hub : Hub P N) (h : Handle) :
    (hub.add h).answer = (hub.idAt h).any fun id => (hub.find? id).isNone := by
  cases own : hub.idAt h with
  | none => rw [add_of_unknown own, Option.any_none]
  | some id =>
    cases found : hub.find? id with
    | none => rw [add_of_free own found, Option.any_some, found, Option.isNone_none]
    | some k => rw [add_of_bound own found, Option.any_some, found, Option.isNone_some]

/-- The changes that a call makes depend on the ids of the node objects and on the members. -/
theorem changes_congr (ids : a.idAt = b.idAt) (found : a.find? = b.find?) (c : Call N) :
    a.changes c = b.changes c := by
  have removed : ∀ id, (a.removeId id).answer = (b.removeId id).answer := by
    intro id
    cases lookup : b.find? id with
    | none => rw [removeId_of_free lookup, removeId_of_free (found ▸ lookup)]
    | some h => rw [removeId_of_bound lookup, removeId_of_bound (found ▸ lookup)]
  cases c with
  | add h => simp only [changes, add_answer, ids, found]
  | remove h | removeId id => simp only [changes, removed, ids]
  | _ => rfl

end Members

/-! ## Declarations -/

section Declarations

variable {hub : Hub Policy SlotNode}

/-- What was declared of each node object, in order of handles. -/
def declared (hub : Hub Policy SlotNode) : List NodeConfig :=
  hub.nodes.map SlotNode.declaration

/-- What was declared of a node object is found under its handle. -/
theorem declared_get? (hub : Hub Policy SlotNode) (h : Handle) :
    hub.declared[h]? = (hub.node? h).map SlotNode.declaration :=
  List.getElem?_map

theorem idAt_eq (hub : Hub Policy SlotNode) (h : Handle) :
    hub.idAt h = hub.declared[h]?.map NodeConfig.id := by
  rw [declared_get?, Option.map_map]
  rfl

/-- A node object may change in all that was not declared of it. -/
theorem declared_setNode {h : Handle} {n n' : SlotNode} (node : hub.node? h = some n)
    (same : n'.declaration = n.declaration) : (hub.setNode h n').declared = hub.declared := by
  obtain ⟨lt, rfl⟩ := List.getElem?_eq_some_iff.1 node
  rw [declared, setNode, List.map_set, same, ← List.map_set, List.set_getElem_self, declared]

/-- A shutdown changes nothing that was declared. -/
theorem declared_shutDown (hub : Hub Policy SlotNode) (h : Handle) :
    (hub.shutDown h).declared = hub.declared := by
  unfold shutDown
  split
  · next n node => exact declared_setNode node rfl
  · rfl

theorem declared_teardown (hub : Hub Policy SlotNode) :
    hub.teardown.state.declared = hub.declared := by
  have all : ∀ (hs : List Handle) (k : Hub Policy SlotNode),
      (hs.foldl shutDown k).declared = k.declared := by
    intro hs
    induction hs with
    | nil => exact fun k => rfl
    | cons h hs ih => exact fun k => (ih _).trans (declared_shutDown k h)
  exact all hub.snapshot hub

/-- The node object that a call makes. -/
def Call.made? {N : Type} : Call N → Option N
  | .create n => some n
  | _ => none

theorem Call.made?_of_isPlain {N : Type} {c : Call N} (plain : c.IsPlain) : c.made? = none := by
  cases c <;> first | rfl | exact plain.elim

/-- A call declares nothing but the node object that it makes. -/
theorem NodeStep.declared {c : Call SlotNode} {s : Option Session} {nodes : List SlotNode}
    (step : hub.NodeStep c s nodes) :
    nodes.map SlotNode.declaration =
      hub.declared ++ (c.made?.map SlotNode.declaration).toList := by
  have unmade : c.made? = none → (c.made?.map SlotNode.declaration).toList = [] := by
    intro none
    rw [none, Option.map_none, Option.toList_none]
  cases step with
  | still plain => rw [unmade (Call.made?_of_isPlain plain), List.append_nil, Hub.declared]
  | made => rw [List.map_append, Hub.declared]; rfl
  | started plain node able =>
    rw [unmade (Call.made?_of_isPlain plain), List.append_nil]
    exact declared_setNode node rfl
  | @freed h n s node used =>
    have same : (hub.setNode h n.releasing).declared = hub.declared := declared_setNode node rfl
    exact same.trans (List.append_nil _).symm
  | stopped => exact (declared_shutDown hub _).trans (List.append_nil _).symm
  | tornDown => exact (declared_teardown hub).trans (List.append_nil _).symm

end Declarations

/-! ## Strictness -/

/-- The strictness that a call asks for. -/
def Call.mode? {N : Type} : Call N → Option Bool
  | .setStrict strict => some strict
  | _ => none

/-- Only switching the mode changes it. -/
theorem strict_callIn (hub : Hub Policy SlotNode) (c : Listing × Call SlotNode) :
    (hub.callIn c).state.strict = c.2.mode?.getD hub.strict := by
  have released : ∀ h s, (hub.release h s).state.strict = hub.strict := by
    intro h s
    unfold release
    split
    · split <;> rfl
    · rfl
  have removed : ∀ id, (hub.removeId id).state.strict = hub.strict := by
    intro id
    unfold removeId
    split <;> rfl
  obtain ⟨l, c⟩ := c
  cases c with
  | add h =>
    show (hub.add h).state.strict = hub.strict
    unfold add
    split
    · rfl
    · dsimp only
      split <;> rfl
  | remove h =>
    simp only [callIn]
    split
    · exact removed _
    · rfl
  | contains h =>
    simp only [callIn]
    split <;> rfl
  | removeId id => exact removed id
  | newSession requested =>
    show (hub.newSessionIn l requested).state.strict = hub.strict
    rcases firstAble_or_noneAble hub requested (hub.sortedIn l).1 with ⟨c, n, first⟩ | none
    · rw [newSessionIn_of_firstAble first]
      rfl
    · rw [newSessionIn_of_noneAble none]
      rfl
  | grant h requested =>
    show (hub.tryGrant h requested).state.strict = hub.strict
    unfold tryGrant
    split <;> rfl
  | release h s => exact released h s
  | shutDown h =>
    have frame := congrArg Hub.strict (shutDown_frame hub h)
    exact frame
  | teardown =>
    have frame := congrArg Hub.strict (teardown_frame hub)
    exact frame
  | _ => rfl

/-! ## Hubs that agree -/

/-- The same members, of which the same was declared, in hubs of one strictness. -/
structure SameFleet (a b : Hub Policy SlotNode) : Prop where
  members : a.members = b.members
  declared : a.declared = b.declared
  strict : a.strict = b.strict

namespace SameFleet

variable {a b : Hub Policy SlotNode}

/-- **One call.** The same call, in whatever order, keeps two hubs in agreement. -/
theorem callIn (same : SameFleet a b) (c : Listing × Call SlotNode) :
    SameFleet (a.callIn c).state (b.callIn c).state := by
  have ids : a.idAt = b.idAt := by
    funext h
    rw [idAt_eq, idAt_eq, same.declared]
  have found : a.find? = b.find? := by
    funext id
    rw [find?, find?, same.members]
  refine ⟨?_, ?_, ?_⟩
  · rw [(callIn_step a c).members, (callIn_step b c).members, changes_congr ids found, same.members]
  · exact (callIn_nodeStep a c).declared.trans
      (same.declared ▸ (callIn_nodeStep b c).declared.symm)
  · rw [strict_callIn, strict_callIn, same.strict]

/-- **Any calls** keep them in agreement. -/
theorem afterIn (same : SameFleet a b) (calls : List (Listing × Call SlotNode)) :
    SameFleet (a.afterIn calls) (b.afterIn calls) := by
  induction calls generalizing a b with
  | nil => exact same
  | cons c cs ih => exact ih (same.callIn c)

end SameFleet

/-- A teardown changes nothing that questions depend on. -/
theorem sameFleet_teardown (hub : Hub Policy SlotNode) : SameFleet hub.teardown.state hub := by
  have members := congrArg Hub.members (teardown_frame hub)
  have strict := congrArg Hub.strict (teardown_frame hub)
  exact ⟨members, declared_teardown hub, strict⟩

/-! ## Questions -/

/-- A capability is there if an offer declared of a member meets it. -/
theorem hasCapability_eq (hub : Hub Policy SlotNode) (requested : Capabilities) :
    hub.hasCapability requested =
      hub.members.any fun p =>
        hub.declared[p.2]?.any fun d => d.capabilities.any requested.satisfiedBy := by
  unfold hasCapability memberNodes
  rw [List.any_filterMap]
  congr 1
  funext ⟨name, h⟩
  rw [declared_get?]
  dsimp only
  cases hub.node? h <;> rfl

namespace SameFleet

variable {a b : Hub Policy SlotNode}

/-- Hubs in agreement have the same capabilities. -/
theorem hasCapability (same : SameFleet a b) (requested : Capabilities) :
    a.hasCapability requested = b.hasCapability requested := by
  rw [hasCapability_eq, hasCapability_eq, same.members, same.declared]

/-- Hubs in agreement answer alike, and report alike, when a request is verified. -/
theorem verify (same : SameFleet a b) (requested : Capabilities) :
    a.verify requested = b.verify requested := by
  have empty : a.isEmpty = b.isEmpty := congrArg List.isEmpty same.members
  rw [Hub.verify, Hub.verify, same.strict, same.hasCapability, empty]

end SameFleet

end Hub

end SessionGrid
