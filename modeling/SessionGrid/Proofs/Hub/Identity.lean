import SessionGrid.Proofs.Bindings
import SessionGrid.Proofs.Hub.Calls

/-!
# Members under their own ids

A node keeps its id for good (`StableId`), so a call that neither adds nor removes a node leaves the
members and the ids of all node objects alone (`SameMembers`). In every reachable state members are
listed in order of name, each under the id of its own node object (`Coherent`).
-/

namespace SessionGrid

/-- Nodes that keep their id through grants, releases and shutdowns. -/
class StableId (N : Type) [Node N] : Prop where
  grant : ∀ {now : Instant} {requested : Capabilities} {n : N} {g : Grant N},
    Node.grant? now requested n = some g → Node.id g.node = Node.id n
  release : ∀ {s : Session} {n n' : N}, Node.release? s n = some n' → Node.id n' = Node.id n
  shutDown : ∀ n : N, Node.id (Node.shutDown n) = Node.id n

namespace Hub

variable {P N : Type}

/-! ## Node objects under their handles -/

theorem node?_setNode_self {hub : Hub P N} {h : Handle} {n : N} (was : hub.node? h = some n)
    (n' : N) : (hub.setNode h n').node? h = some n' := by
  have lt : h < hub.nodes.length := (List.getElem?_eq_some_iff.1 was).1
  simp [node?, setNode, lt]

/-- A node object that was put in place of another leaves all others. -/
theorem node?_setNode_ne (hub : Hub P N) {h k : Handle} (ne : h ≠ k) (n : N) :
    (hub.setNode h n).node? k = hub.node? k :=
  List.getElem?_set_ne ne

/-- What stands under a handle after a node object was exchanged. -/
theorem node?_setNode_cases {hub : Hub P N} {h k : Handle} {n n' m : N}
    (was : hub.node? h = some n) (now : (hub.setNode h n').node? k = some m) :
    (k = h ∧ m = n') ∨ (k ≠ h ∧ hub.node? k = some m) := by
  by_cases same : h = k
  · left
    rw [← same, node?_setNode_self was n'] at now
    exact ⟨same.symm, (Option.some.inj now).symm⟩
  · right
    rw [node?_setNode_ne hub same n'] at now
    exact ⟨Ne.symm same, now⟩

variable [Node N]

/-- A handle has the id of the node object behind it, and none if there is no object. -/
theorem idAt_eq_some_iff {hub : Hub P N} {h : Handle} {id : NodeId} :
    hub.idAt h = some id ↔ ∃ n, hub.node? h = some n ∧ Node.id n = id :=
  Option.map_eq_some_iff

/-! ## Calls that leave the membership alone -/

/-- The same members in both hubs, and every node object of the first is in the second under its
handle and with its id. -/
structure SameMembers (hub hub' : Hub P N) : Prop where
  members : hub'.members = hub.members
  ids : ∀ {h : Handle} {id : NodeId}, hub.idAt h = some id → hub'.idAt h = some id

namespace SameMembers

theorem refl (hub : Hub P N) : SameMembers hub hub := ⟨rfl, fun h => h⟩

theorem trans {hub hub' hub'' : Hub P N} (a : SameMembers hub hub') (b : SameMembers hub' hub'') :
    SameMembers hub hub'' :=
  ⟨b.members.trans a.members, fun h => b.ids (a.ids h)⟩

/-- Nodes and members decide; clock, strictness and policy do not matter. -/
theorem of_eq {hub hub' : Hub P N} (members : hub'.members = hub.members)
    (nodes : hub'.nodes = hub.nodes) : SameMembers hub hub' :=
  ⟨members, fun h => by simpa only [idAt, node?, nodes] using h⟩

/-- A node object may be exchanged for one with the same id. -/
theorem setNode {hub : Hub P N} {h : Handle} {n n' : N} (was : hub.node? h = some n)
    (same : Node.id n' = Node.id n) : SameMembers hub (hub.setNode h n') := by
  refine ⟨rfl, fun {k id} hk => ?_⟩
  obtain ⟨m, hm, rfl⟩ := idAt_eq_some_iff.1 hk
  by_cases e : h = k
  · subst e
    have : m = n := Option.some.inj (hm.symm.trans was)
    subst this
    exact idAt_eq_some_iff.2 ⟨n', node?_setNode_self was n', same⟩
  · exact idAt_eq_some_iff.2 ⟨m, (node?_setNode_ne hub e n').trans hm, rfl⟩

/-- What is found under an id stays the same handle. -/
theorem find? {hub hub' : Hub P N} (s : SameMembers hub hub') (id : NodeId) :
    hub'.find? id = hub.find? id := by
  simp only [Hub.find?, s.members]

end SameMembers

/-- A new node object is no member. -/
theorem sameMembers_create (hub : Hub P N) (n : N) : SameMembers hub (hub.create n).2 := by
  refine ⟨rfl, fun {h id} hid => ?_⟩
  obtain ⟨m, hm, rfl⟩ := idAt_eq_some_iff.1 hid
  have lt : h < hub.nodes.length := (List.getElem?_eq_some_iff.1 hm).1
  refine idAt_eq_some_iff.2 ⟨m, ?_, rfl⟩
  simpa only [create, node?, List.getElem?_append_left lt] using hm

section Stable

variable [StableId N]

/-- A grant may change the node object but not its id. -/
theorem sameMembers_tryGrant (hub : Hub P N) (h : Handle) (requested : Capabilities) :
    SameMembers hub (hub.tryGrant h requested).state := by
  unfold tryGrant
  split
  · next g granted =>
    obtain ⟨n, hn, hg⟩ := Option.bind_eq_some_iff.1 granted
    exact (SameMembers.setNode hn (StableId.grant hg)).trans (.of_eq rfl rfl)
  · exact .refl hub

theorem sameMembers_firstGrant (hub : Hub P N) (requested : Capabilities) (cs : List Candidate) :
    SameMembers hub (hub.firstGrant requested cs).state := by
  induction cs with
  | nil => exact .refl hub
  | cons c cs ih =>
    simp only [firstGrant]
    split
    · exact sameMembers_tryGrant hub c.handle requested
    · exact ih

theorem sameMembers_release (hub : Hub P N) (h : Handle) (s : Session) :
    SameMembers hub (hub.release h s).state := by
  unfold release
  split
  · next n hn =>
    split
    · next n' hr => exact .setNode hn (StableId.release hr)
    · exact .refl hub
  · exact .refl hub

/-- A session given back is looked for among the members, none of which comes or goes. -/
theorem sameMembers_finish (hub : Hub P N) (s : Session) :
    SameMembers hub (hub.finish s).state := by
  unfold finish
  split
  · exact sameMembers_release hub _ s
  · exact .refl hub

theorem sameMembers_shutDown (hub : Hub P N) (h : Handle) : SameMembers hub (hub.shutDown h) := by
  unfold shutDown
  split
  · next n hn => exact .setNode hn (StableId.shutDown n)
  · exact .refl hub

theorem sameMembers_teardown (hub : Hub P N) : SameMembers hub hub.teardown.state := by
  have all : ∀ hs : List Handle, ∀ k : Hub P N, SameMembers k (hs.foldl shutDown k) := by
    intro hs
    induction hs with
    | nil => exact fun k => .refl k
    | cons h hs ih => exact fun k => (sameMembers_shutDown k h).trans (ih _)
  exact all hub.snapshot hub

variable [SelectionPolicy P]

/-- **Requests.** Arranging changes the policy and a grant one node object, and no member comes or goes. -/
theorem sameMembers_newSessionIn (hub : Hub P N) (l : Listing) (requested : Capabilities) :
    SameMembers hub (hub.newSessionIn l requested).state := by
  have sorted : SameMembers hub (hub.sortedIn l).2 := .of_eq rfl rfl
  simp only [newSessionIn]
  split
  · exact sorted.trans (sameMembers_firstGrant _ requested _)
  · exact sorted

theorem sameMembers_newSession (hub : Hub P N) (requested : Capabilities) :
    SameMembers hub (hub.newSession requested).state :=
  sameMembers_newSessionIn hub .byId requested

/-- The calls that can change who is a member. -/
def Call.IsMembership : Call N → Prop
  | .add _ | .remove _ | .removeId _ => True
  | _ => False

/-- Every other call leaves the membership alone. -/
theorem sameMembers_callIn (hub : Hub P N) {c : Listing × Call N} (other : ¬ c.2.IsMembership) :
    SameMembers hub (hub.callIn c).state := by
  obtain ⟨l, c⟩ := c
  cases c with
  | add h => exact (other trivial).elim
  | remove h => exact (other trivial).elim
  | removeId id => exact (other trivial).elim
  | create n => exact sameMembers_create hub n
  | newSession requested => exact sameMembers_newSessionIn hub l requested
  | teardown => exact sameMembers_teardown hub
  | grant h requested => exact sameMembers_tryGrant hub h requested
  | release h s => exact sameMembers_release hub h s
  | shutDown h => exact sameMembers_shutDown hub h
  | contains h =>
    simp only [callIn]
    split <;> exact .refl hub
  | setClock now | setStrict strict | sorted => exact .of_eq rfl rfl
  | containsId id | get id | isEmpty | size | hasCapability r | verify r | busy | iter =>
    exact .refl hub

end Stable

end Hub

end SessionGrid
