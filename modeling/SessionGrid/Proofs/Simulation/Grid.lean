import SessionGrid.Proofs.Config.Validity
import SessionGrid.Proofs.Hub.Fleet
import SessionGrid.Simulation.Run

/-!
# The grid of a valid configuration

The node objects of a `Stocked` hub are the declared nodes, in order of declaration, and each of them
is a member. The grid of a valid configuration is stocked with fresh nodes (`grid_enrolled`), and a hub
stays stocked when one of its nodes changes without changing what was declared of it.
-/

namespace SessionGrid

namespace Hub

theorem idAt_create {P : Type} (hub : Hub P SlotNode) (d : NodeConfig) :
    (hub.create d.node).2.idAt hub.nodes.length = some d.id := by
  simp [idAt, node?, create, Node.id, NodeConfig.node]

/-- The node objects of the hub are those declared, in their order, and all of them are members. -/
structure Stocked (hub : Hub Policy SlotNode) (declared : List NodeConfig) : Prop where
  coherent : hub.Coherent
  nodes : hub.nodes.map SlotNode.declaration = declared
  members : ∀ {h : Handle} {n : SlotNode}, hub.node? h = some n → hub.find? n.id = some h

variable {hub : Hub Policy SlotNode} {declared : List NodeConfig}

namespace Stocked

/-- Every node object is a member. -/
theorem isMember (s : hub.Stocked declared) {h : Handle} {n : SlotNode} (node : hub.node? h = some n) :
    hub.IsMember h n :=
  ⟨s.members node, node⟩

/-- Node objects with one id are one node object. -/
theorem handle_inj (s : hub.Stocked declared) {h k : Handle} {n m : SlotNode}
    (hn : hub.node? h = some n) (hm : hub.node? k = some m) (same : n.id = m.id) : h = k :=
  Option.some.inj ((s.members hn).symm.trans (same ▸ s.members hm))

/-- Nodes with one id are one node. -/
theorem eq_of_id (s : hub.Stocked declared) {n m : SlotNode} (hn : n ∈ hub.nodes)
    (hm : m ∈ hub.nodes) (same : n.id = m.id) : n = m := by
  obtain ⟨h, hn⟩ := List.mem_iff_getElem?.1 hn
  obtain ⟨k, hm⟩ := List.mem_iff_getElem?.1 hm
  have handle : h = k := s.handle_inj hn hm same
  subst handle
  exact Option.some.inj (hn.symm.trans hm)

/-- A node changed, but not what was declared of it. -/
theorem setNode (s : hub.Stocked declared) {h : Handle} {n n' : SlotNode}
    (node : hub.node? h = some n) (same : n'.declaration = n.declaration) :
    (hub.setNode h n').Stocked declared := by
  have id : n'.id = n.id := congrArg NodeConfig.id same
  refine ⟨s.coherent.step (.other (.setNode node id)), ?_, ?_⟩
  · exact (declared_setNode node same).trans s.nodes
  · intro k m now
    rcases node?_setNode_cases node now with ⟨rfl, rfl⟩ | ⟨-, old⟩
    · rw [id]
      exact s.members node
    · exact s.members old

theorem of_eq {hub' : Hub Policy SlotNode} (s : hub.Stocked declared) (nodes : hub'.nodes = hub.nodes)
    (members : hub'.members = hub.members) : hub'.Stocked declared := by
  refine ⟨s.coherent.step (.other (.of_eq members nodes)), nodes ▸ s.nodes, ?_⟩
  intro h n node
  simp only [node?, find?, nodes, members] at node ⊢
  exact s.members node

/-- One node more, with an id that is not declared yet. -/
theorem add (s : hub.Stocked declared) (d : NodeConfig) (fresh : d.id ∉ declared.map (·.id)) :
    let added := (hub.create d.node).2.add (hub.create d.node).1
    added.state.Stocked (declared ++ [d]) ∧ added.state.nodes = hub.nodes ++ [d.node] ∧
      added.state.strict = hub.strict ∧ added.state.policy = hub.policy := by
  have own := idAt_create hub d
  have same : SameMembers hub (hub.create d.node).2 := sameMembers_create hub d.node
  have free : (hub.create d.node).2.find? d.id = none := by
    rw [same.find?]
    cases found : hub.find? d.id with
    | none => rfl
    | some h =>
      obtain ⟨n, node, hid⟩ := idAt_eq_some_iff.1 (s.coherent.own found)
      exfalso
      apply fresh
      rw [← s.nodes, List.map_map]
      exact List.mem_map.2 ⟨n, List.mem_of_getElem? node, hid⟩
  intro added
  have taken : added = _ := add_of_free own free
  rw [taken]
  refine ⟨⟨?_, ?_, ?_⟩, rfl, rfl, rfl⟩
  · exact (s.coherent.step (.other same)).step (.accepted own free)
  · simp only [Hub.bind, create, List.map_append, s.nodes]
    rfl
  · intro h n node
    rw [find?_bind, same.find?]
    have node : (hub.nodes ++ [d.node])[h]? = some n := node
    rcases Nat.lt_or_ge h hub.nodes.length with old | new
    · rw [List.getElem?_append_left old] at node
      split
      · next e =>
        rw [same.find?] at free
        rw [e, s.members node] at free
        cases free
      · exact s.members node
    · rw [List.getElem?_append_right new] at node
      obtain ⟨at0, e⟩ := List.getElem?_eq_some_iff.1 node
      have last : h = hub.nodes.length :=
        Nat.le_antisymm (Nat.sub_eq_zero_iff_le.1 (Nat.lt_one_iff.1 at0)) new
      subst last
      have : d.node = n := by simpa using node
      subst this
      exact if_pos rfl

/-- In a stocked hub a teardown shuts down every node object. -/
theorem nodes_teardown (s : hub.Stocked declared) :
    hub.teardown.state.nodes = hub.nodes.map SlotNode.shutDown := by
  apply List.ext_getElem?
  intro h
  have after := s.coherent.node?_teardown h
  rw [List.getElem?_map]
  show hub.teardown.state.node? h = (hub.node? h).map SlotNode.shutDown
  rw [after]
  split
  · rfl
  · next absent =>
    cases node : hub.node? h with
    | none => rfl
    | some n =>
      have mem : (n.id.text, h) ∈ hub.members := Bindings.mem_of_find? (s.members node)
      exact absurd (List.mem_map.2 ⟨_, mem, rfl⟩) absent

end Stocked

end Hub

namespace Simulation

open Hub

/-- A declared node is made and added. -/
def enroll (r : Reply (Hub Policy SlotNode) Unit) (d : NodeConfig) :
    Reply (Hub Policy SlotNode) Unit :=
  let made := r.state.create d.node
  let reply := made.2.add made.1
  ⟨(), reply.state, r.log ++ reply.log⟩

/-- The declared nodes are enrolled one after the other. -/
theorem grid_eq (c : Config) : grid c = c.nodes.foldl enroll ⟨(), c.hub, []⟩ := rfl

/-- The hub has exactly the declared nodes, all of them fresh. -/
structure Enrolled (hub : Hub Policy SlotNode) (declared : List NodeConfig) : Prop where
  stocked : hub.Stocked declared
  fresh : hub.nodes = declared.map NodeConfig.node

/-- A node with a new id is enrolled behind those before it, and the settings stay. -/
theorem Enrolled.enroll {r : Reply (Hub Policy SlotNode) Unit} {declared : List NodeConfig}
    (e : Enrolled r.state declared) {d : NodeConfig} (new : d.id ∉ declared.map (·.id)) :
    Enrolled (enroll r d).state (declared ++ [d]) ∧ (enroll r d).state.strict = r.state.strict ∧
      (enroll r d).state.policy = r.state.policy := by
  obtain ⟨stocked, nodes, strict, policy⟩ := e.stocked.add d new
  refine ⟨⟨stocked, ?_⟩, strict, policy⟩
  rw [List.map_append, ← e.fresh]
  exact nodes

/-- All declared nodes are enrolled in their order, if their ids differ. -/
theorem Enrolled.foldl {rest : List NodeConfig} {r : Reply (Hub Policy SlotNode) Unit}
    {declared : List NodeConfig} (e : Enrolled r.state declared)
    (distinct : ((declared ++ rest).map (·.id)).Nodup) :
    Enrolled (rest.foldl Simulation.enroll r).state (declared ++ rest) ∧
      (rest.foldl Simulation.enroll r).state.strict = r.state.strict ∧
      (rest.foldl Simulation.enroll r).state.policy = r.state.policy := by
  induction rest generalizing r declared with
  | nil =>
    rw [List.append_nil]
    exact ⟨e, rfl, rfl⟩
  | cons d rest ih =>
    have new : d.id ∉ declared.map (·.id) := by
      rw [List.map_append, List.nodup_append] at distinct
      exact fun mem => distinct.2.2 _ mem _ List.mem_cons_self rfl
    obtain ⟨e', strict, policy⟩ := e.enroll new
    have assoc : declared ++ d :: rest = declared ++ [d] ++ rest := by
      rw [List.append_assoc, List.singleton_append]
    rw [assoc] at distinct ⊢
    obtain ⟨all, strict', policy'⟩ := ih e' distinct
    exact ⟨all, strict'.trans strict, policy'.trans policy⟩

/-- The grid of a valid configuration is stocked with the declared nodes, all of them fresh. -/
theorem grid_enrolled {c : Config} (valid : c.fault? = none) :
    Enrolled (grid c).state c.nodes ∧ (grid c).state.strict = c.strict ∧
      (grid c).state.policy = c.policy.policy := by
  have distinct : (([] ++ c.nodes).map NodeConfig.id).Nodup := (Config.fault?_eq_none_iff.1 valid).2
  have none : Enrolled c.hub [] := ⟨⟨coherent_empty _ _, rfl, fun node => nomatch node⟩, rfl⟩
  rw [grid_eq]
  exact none.foldl distinct

end Simulation

end SessionGrid
