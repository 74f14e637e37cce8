import SessionGrid.Proofs.Hub.Scheduling

/-!
# Shutting down all members

Every member has a handle of its own, so a teardown shuts down each member once
(`Coherent.node?_teardown`). All other node objects and the rest of the hub stay as they are.
-/

namespace SessionGrid.Hub

variable {P N : Type} [Node N]

/-! ## One node object and several -/

/-- Shutting a node down reaches that node object alone. -/
theorem node?_shutDown (hub : Hub P N) (h k : Handle) :
    (hub.shutDown h).node? k =
      if h = k then (hub.node? k).map Node.shutDown else hub.node? k := by
  unfold shutDown
  split
  · next n node =>
    split
    · next same =>
      subst same
      rw [node?_setNode_self node, node, Option.map_some]
    · next ne => exact node?_setNode_ne hub ne _
  · next node =>
    split
    · next same =>
      subst same
      rw [node, Option.map_none]
    · rfl

/-- All of the hub but its node objects stays. -/
theorem shutDown_frame (hub : Hub P N) (h : Handle) :
    { hub.shutDown h with nodes := hub.nodes } = hub := by
  unfold shutDown
  split
  · rfl
  · rfl

/-- Different handles are shut down one after the other, each of them once. -/
theorem node?_foldl_shutDown {hs : List Handle} (distinct : hs.Nodup) (hub : Hub P N) (k : Handle) :
    (hs.foldl shutDown hub).node? k =
      if k ∈ hs then (hub.node? k).map Node.shutDown else hub.node? k := by
  induction hs generalizing hub with
  | nil => rw [if_neg List.not_mem_nil, List.foldl_nil]
  | cons h hs ih =>
    obtain ⟨fresh, distinct⟩ := List.nodup_cons.1 distinct
    rw [List.foldl_cons, ih distinct, node?_shutDown]
    by_cases same : h = k
    · subst same
      rw [if_neg fresh, if_pos rfl, if_pos List.mem_cons_self]
    · rw [if_neg same]
      simp only [List.mem_cons, Ne.symm same, false_or]

theorem foldl_shutDown_frame (hub : Hub P N) (hs : List Handle) :
    { hs.foldl shutDown hub with nodes := hub.nodes } = hub := by
  induction hs generalizing hub with
  | nil => rfl
  | cons h hs ih =>
    have rest := congrArg (fun k : Hub P N => { k with nodes := hub.nodes }) (ih (hub.shutDown h))
    exact rest.trans (shutDown_frame hub h)

/-! ## All members -/

/-- No node object is a member twice, since it has one id only. -/
theorem Coherent.nodup_snapshot {hub : Hub P N} (inv : hub.Coherent) : hub.snapshot.Nodup := by
  have own : ∀ p ∈ hub.members, hub.idAt p.2 = some ⟨p.1⟩ := by
    intro p mem
    exact inv.own (inv.sorted.find?_eq_some_iff.2 mem)
  have names : hub.members.Pairwise fun p q => p.1 ≠ q.1 :=
    List.pairwise_map.1 inv.sorted.nodup_names
  apply List.pairwise_map.2
  apply names.imp_of_mem
  intro p q hp hq ne same
  have ids : some (⟨p.1⟩ : NodeId) = some ⟨q.1⟩ := by rw [← own p hp, ← own q hq, same]
  exact ne (congrArg NodeId.text (Option.some.inj ids))

/-- A teardown shuts down every member once and no other node object. -/
theorem Coherent.node?_teardown {hub : Hub P N} (inv : hub.Coherent) (k : Handle) :
    hub.teardown.state.node? k =
      if k ∈ hub.snapshot then (hub.node? k).map Node.shutDown else hub.node? k :=
  node?_foldl_shutDown inv.nodup_snapshot hub k

/-- A teardown leaves the membership, the policy and the clock. -/
theorem teardown_frame (hub : Hub P N) : { hub.teardown.state with nodes := hub.nodes } = hub :=
  foldl_shutDown_frame hub hub.snapshot

end SessionGrid.Hub
