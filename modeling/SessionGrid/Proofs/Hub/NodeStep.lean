import SessionGrid.Proofs.Hub.RoundRobin
import SessionGrid.Proofs.Hub.Teardown

/-!
# What one call does to node objects

A call makes a node object, starts a session of one, takes a session back from one, shuts down one or all
members, or leaves all of them as they are (`NodeStep`, `callIn_nodeStep`). So every node object lives on
under its handle, and what becomes of it in one call is one of four things (`SlotNode.Becomes`,
`NodeStep.fate`).
-/

namespace SessionGrid

/-! ## One node object in one call -/

/-- What becomes of a node in a call at the instant `now` that answers with the session `s`, if any. -/
inductive SlotNode.Becomes (now : Instant) (n : SlotNode) : Option Session → SlotNode → Prop where
  | same (s : Option Session) : Becomes now n s n
  | started {requested : Capabilities} (able : n.Able requested) :
      Becomes now n (some n.next) (n.granting now)
  | freed (used : n.active ≠ 0) : Becomes now n none n.releasing
  | stopped : Becomes now n none n.shutDown

namespace SlotNode.Becomes

variable {now : Instant} {n m : SlotNode} {s : Option Session}

/-- Whatever becomes of a node object, what was declared of it stays. -/
theorem declaration (b : Becomes now n s m) : m.declaration = n.declaration := by
  cases b <;> rfl

/-- Only a session that starts is counted, and only its start is recorded. -/
theorem of_no_session (b : Becomes now n none m) :
    m.granted = n.granted ∧ m.lastStart = n.lastStart := by
  cases b <;> exact ⟨rfl, rfl⟩

/-- A node that was shut down starts no session. -/
theorem of_shutDown (b : Becomes now n s m) (down : 0 < n.shutDowns) :
    m.granted = n.granted ∧ m.active ≤ n.active := by
  cases b with
  | same | stopped => exact ⟨rfl, UInt32.le_refl _⟩
  | started able => exact absurd down (of_decide_eq_false able.running)
  | freed used =>
    refine ⟨rfl, UInt32.le_iff_toNat_le.2 ?_⟩
    have one := releasing_active used
    omega

end SlotNode.Becomes

namespace Hub

/-! ## Stored node objects -/

section Stored

variable {P N : Type} [Node N]

/-- The node object is the member under its id. -/
def Stores (hub : Hub P N) (h : Handle) : Prop :=
  (hub.idAt h).bind hub.find? = some h

instance (hub : Hub P N) (h : Handle) : Decidable (hub.Stores h) :=
  inferInstanceAs (Decidable (_ = _))

variable {hub : Hub P N} {h : Handle}

/-- A node object is a member under its own id or not at all. -/
theorem stores_iff : hub.Stores h ↔ ∃ n, hub.IsMember h n := by
  unfold Stores IsMember
  rw [Option.bind_eq_some_iff]
  constructor
  · rintro ⟨id, own, found⟩
    obtain ⟨n, node, rfl⟩ := idAt_eq_some_iff.1 own
    exact ⟨n, found, node⟩
  · rintro ⟨n, found, node⟩
    exact ⟨Node.id n, idAt_eq_some_iff.2 ⟨n, node, rfl⟩, found⟩

/-- A snapshot has exactly the members. -/
theorem Coherent.mem_snapshot (inv : hub.Coherent) : h ∈ hub.snapshot ↔ hub.Stores h := by
  rw [stores_iff, snapshot, List.mem_map]
  constructor
  · rintro ⟨⟨name, k⟩, mem, rfl⟩
    exact inv.isMember_of_mem mem
  · rintro ⟨n, found, -⟩
    exact ⟨_, Bindings.mem_of_find? found, rfl⟩

/-- In a row of all members, whatever their order, stand the members. -/
theorem Coherent.mem_row (inv : hub.Coherent) {row : List Handle} (perm : row.Perm hub.snapshot) :
    h ∈ row ↔ ∃ n, hub.IsMember h n := by
  rw [perm.mem_iff, inv.mem_snapshot, stores_iff]

end Stored

/-- A row of all members has one place for each. -/
theorem length_row {P N : Type} {hub : Hub P N} {row : List Handle}
    (perm : row.Perm hub.snapshot) : row.length = hub.size := by
  rw [perm.length_eq, snapshot, List.length_map, size]

/-! ## All node objects in one call -/

/-- Calls that neither make nor shut down a node object. -/
def Call.IsPlain {N : Type} : Call N → Prop
  | .create _ | .shutDown _ | .teardown => False
  | _ => True

/-- The node objects after a call that answers with the session `s`, if any. -/
inductive NodeStep (hub : Hub Policy SlotNode) :
    Call SlotNode → Option Session → List SlotNode → Prop where
  | still {c : Call SlotNode} (plain : c.IsPlain) : NodeStep hub c none hub.nodes
  | made {n : SlotNode} : NodeStep hub (.create n) none (hub.nodes ++ [n])
  | started {c : Call SlotNode} {h : Handle} {n : SlotNode} {requested : Capabilities}
      (plain : c.IsPlain) (node : hub.node? h = some n) (able : n.Able requested) :
      NodeStep hub c (some n.next) (hub.setNode h (n.granting hub.clock)).nodes
  | freed {h : Handle} {n : SlotNode} {s : Session} (node : hub.node? h = some n)
      (used : n.active ≠ 0) :
      NodeStep hub (.release h s) none (hub.setNode h n.releasing).nodes
  | stopped {h : Handle} : NodeStep hub (.shutDown h) none (hub.shutDown h).nodes
  | tornDown : NodeStep hub .teardown none hub.teardown.state.nodes

section Step

variable {hub : Hub Policy SlotNode}

/-- Adding changes no node object. -/
theorem nodes_add (hub : Hub Policy SlotNode) (h : Handle) :
    (hub.add h).state.nodes = hub.nodes := by
  unfold add
  split
  · rfl
  · dsimp only
    split <;> rfl

theorem nodes_removeId (hub : Hub Policy SlotNode) (id : NodeId) :
    (hub.removeId id).state.nodes = hub.nodes := by
  unfold removeId
  split <;> rfl

/-- Asking one node starts a session of it or does nothing. -/
theorem tryGrant_nodeStep (hub : Hub Policy SlotNode) (h : Handle) (requested : Capabilities)
    {c : Call SlotNode} (plain : c.IsPlain) :
    hub.NodeStep c (hub.tryGrant h requested).answer (hub.tryGrant h requested).state.nodes := by
  by_cases able : ∃ n, hub.node? h = some n ∧ n.Able requested
  · obtain ⟨n, node, able⟩ := able
    rw [tryGrant_of_able node able]
    exact .started plain node able
  · have unable : ∀ n, hub.node? h = some n → ¬ n.Able requested :=
      fun n node able' => able ⟨n, node, able'⟩
    rw [tryGrant_of_not_able unable]
    exact .still plain

/-- A request starts a session of one node or does nothing, whichever node it comes to. -/
theorem newSessionIn_nodeStep (hub : Hub Policy SlotNode) (l : Listing) (requested : Capabilities)
    {c : Call SlotNode} (plain : c.IsPlain) :
    hub.NodeStep c (hub.newSessionIn l requested).answer
      (hub.newSessionIn l requested).state.nodes := by
  rcases firstAble_or_noneAble hub requested (hub.sortedIn l).1 with ⟨c, n, first⟩ | none
  · rw [newSessionIn_of_firstAble first]
    exact .started plain first.node first.able
  · rw [newSessionIn_of_noneAble none]
    exact .still plain

/-- Giving back frees a slot of one node object or does nothing. -/
theorem release_nodeStep (hub : Hub Policy SlotNode) (h : Handle) (s : Session) :
    hub.NodeStep (.release h s) none (hub.release h s).state.nodes := by
  cases node : hub.node? h with
  | none =>
    simp only [release, node]
    exact .still trivial
  | some n =>
    by_cases taken : s.nodeId = n.id ∧ n.active ≠ 0
    · have released : Node.release? s n = some n.releasing := if_pos taken
      simp only [release, node, released]
      exact .freed node taken.2
    · have kept : Node.release? s n = none := if_neg taken
      simp only [release, node, kept]
      exact .still trivial

/-- **One call.** Every call, with any listing, does one of these things. -/
theorem callIn_nodeStep (hub : Hub Policy SlotNode) (c : Listing × Call SlotNode) :
    hub.NodeStep c.2 (hub.callIn c).answer.session? (hub.callIn c).state.nodes := by
  obtain ⟨l, c⟩ := c
  cases c with
  | create n => exact .made
  | newSession requested => exact newSessionIn_nodeStep hub l requested trivial
  | grant h requested => exact tryGrant_nodeStep hub h requested trivial
  | release h s => exact release_nodeStep hub h s
  | shutDown h => exact .stopped
  | teardown => exact .tornDown
  | add h =>
    show hub.NodeStep (.add h) none (hub.add h).state.nodes
    rw [nodes_add]
    exact .still trivial
  | removeId id =>
    show hub.NodeStep (.removeId id) none (hub.removeId id).state.nodes
    rw [nodes_removeId]
    exact .still trivial
  | remove h =>
    simp only [callIn]
    split
    · next id own =>
      show hub.NodeStep (.remove h) none (hub.removeId id).state.nodes
      rw [nodes_removeId]
      exact .still trivial
    · exact .still trivial
  | contains h =>
    simp only [callIn]
    split <;> exact .still trivial
  | _ => exact .still trivial

end Step

/-! ## A node object in any call -/

/-- How often a call shuts down the node object `h`. -/
def stops (hub : Hub Policy SlotNode) (h : Handle) : Call SlotNode → Nat
  | .shutDown k => if k = h then 1 else 0
  | .teardown => if hub.Stores h then 1 else 0
  | _ => 0

/-- What stands under the handle `h` before and after a call. -/
inductive Fate (hub : Hub Policy SlotNode) (h : Handle) (c : Call SlotNode) (s : Option Session) :
    Option SlotNode → Option SlotNode → Prop where
  | absent : Fate hub h c s none none
  | made {n : SlotNode} (create : c = .create n) : Fate hub h c s none (some n)
  | lives {n m : SlotNode} (becomes : n.Becomes hub.clock s m)
      (shutDowns : m.shutDowns = n.shutDowns + hub.stops h c) :
      Fate hub h c s (some n) (some m)

section Fate

variable {hub : Hub Policy SlotNode} {h k : Handle} {c : Call SlotNode} {s : Option Session}

theorem stops_of_isPlain (plain : c.IsPlain) : hub.stops h c = 0 := by
  cases c <;> first | rfl | exact plain.elim

/-- A call that reaches no node object leaves each of them. -/
theorem Fate.of_still (plain : c.IsPlain) : hub.Fate h c s (hub.node? h) (hub.node? h) := by
  cases hub.node? h with
  | none => exact .absent
  | some n => exact .lives (.same s) (by rw [stops_of_isPlain plain, Nat.add_zero])

/-- A call that reaches one node object leaves all others. -/
theorem Fate.of_setNode {n n' : SlotNode} (plain : c.IsPlain) (node : hub.node? h = some n)
    (becomes : n.Becomes hub.clock s n') (shutDowns : n'.shutDowns = n.shutDowns) :
    hub.Fate k c s (hub.node? k) ((hub.setNode h n').node? k) := by
  by_cases same : h = k
  · subst same
    rw [node?_setNode_self node, node]
    exact .lives becomes (by rw [stops_of_isPlain plain, Nat.add_zero, shutDowns])
  · rw [node?_setNode_ne hub same]
    exact .of_still plain

/-- Of those that are shut down each is reached once. -/
theorem Fate.of_shutDown {stopped : Prop} [Decidable stopped]
    (stops : hub.stops h c = if stopped then 1 else 0) :
    hub.Fate h c none (hub.node? h)
      (if stopped then (hub.node? h).map Node.shutDown else hub.node? h) := by
  cases hub.node? h with
  | none =>
    rw [Option.map_none, ite_self]
    exact .absent
  | some n =>
    split
    · next yes =>
      rw [if_pos yes] at stops
      exact .lives .stopped (by rw [stops]; rfl)
    · next no =>
      rw [if_neg no] at stops
      exact .lives (.same none) (by rw [stops, Nat.add_zero])

/-- Every node object lives on under its handle, and a new one gets a new handle. -/
theorem NodeStep.fate {nodes : List SlotNode} (inv : hub.Coherent) (step : hub.NodeStep c s nodes)
    (h : Handle) : hub.Fate h c s (hub.node? h) nodes[h]? := by
  cases step with
  | still plain => exact .of_still plain
  | @made n =>
    rcases Nat.lt_trichotomy h hub.nodes.length with old | rfl | beyond
    · rw [List.getElem?_append_left old]
      show hub.Fate h _ _ (hub.node? h) (hub.node? h)
      cases hub.node? h with
      | none => exact .absent
      | some m => exact .lives (.same none) rfl
    · have none : hub.node? hub.nodes.length = none := List.getElem?_eq_none (Nat.le_refl _)
      rw [none, List.getElem?_concat_length]
      exact .made rfl
    · have none : hub.node? h = none := List.getElem?_eq_none (Nat.le_of_lt beyond)
      have still : (hub.nodes ++ [n])[h]? = .none :=
        List.getElem?_eq_none (by rw [List.length_append]; exact beyond)
      rw [none, still]
      exact .absent
  | started plain node able => exact .of_setNode plain node (.started able) rfl
  | freed node used => exact .of_setNode trivial node (.freed used) rfl
  | @stopped k =>
    show hub.Fate h _ _ _ ((hub.shutDown k).node? h)
    rw [node?_shutDown]
    exact .of_shutDown rfl
  | tornDown =>
    show hub.Fate h _ _ _ (hub.teardown.state.node? h)
    rw [inv.node?_teardown]
    exact .of_shutDown (if_congr inv.mem_snapshot.symm rfl rfl)

/-- A node object lives on through every call. -/
theorem Coherent.callIn_stays (inv : hub.Coherent) (c : Listing × Call SlotNode) {n : SlotNode}
    (node : hub.node? h = some n) :
    ∃ m, (hub.callIn c).state.node? h = some m ∧
      n.Becomes hub.clock (hub.callIn c).answer.session? m ∧
      m.shutDowns = n.shutDowns + hub.stops h c.2 := by
  have fate := (callIn_nodeStep hub c).fate inv h
  rw [node] at fate
  generalize after : (hub.callIn c).state.nodes[h]? = now at fate
  cases fate with
  | lives becomes shutDowns => exact ⟨_, after, becomes, shutDowns⟩

end Fate

end Hub

end SessionGrid
