import SessionGrid.Proofs.Hub.Rotation
import SessionGrid.Proofs.Simulation.Completion
import SessionGrid.Proofs.Simulation.Solo

/-!
# Turns of one client

For a client alone the least-loaded policy takes the node that was idle longest of those that offer the
request, and round robin the next node in order of id. Both are rules that the run keeps (`oldest_rule`,
`rotating_rule`), and say how often each node was served at its end (`one_client_served_in_turn`).
-/

namespace SessionGrid

open Hub

namespace Hub

/-- The ids of the members are those declared. -/
theorem Stocked.memberIds_perm {hub : Hub Policy SlotNode} {declared : List NodeConfig}
    (s : hub.Stocked declared) (distinct : (declared.map (·.id)).Nodup) :
    hub.memberIds.Perm (declared.map (·.id)) := by
  refine (List.perm_ext_iff_of_nodup s.coherent.nodup_memberIds distinct).2 fun id => ?_
  rw [← s.coherent.candidates_ids, ← s.nodes, List.map_map, List.mem_map, List.mem_map]
  constructor
  · rintro ⟨c, mem, rfl⟩
    obtain ⟨h, n, member, rfl⟩ := s.coherent.mem_candidates.1 mem
    exact ⟨n, List.mem_of_getElem? member.2, rfl⟩
  · rintro ⟨n, mem, rfl⟩
    obtain ⟨h, node⟩ := List.mem_iff_getElem?.1 mem
    exact ⟨_, s.coherent.mem_candidates.2 ⟨h, n, s.isMember node, rfl⟩, rfl⟩

theorem Coherent.memberIds_ascending {hub : Hub Policy SlotNode} (inv : hub.Coherent) :
    hub.memberIds.Pairwise fun a b => Text.bytes a.text < Text.bytes b.text := by
  apply List.pairwise_map.2
  apply inv.sorted.imp
  intro p q lt
  exact Text.lt_iff_bytes_lt.1 lt

end Hub

namespace Simulation

/-! ## The node that was idle longest -/

/-- Under the least-loaded policy the nodes that offer the request are a queue. -/
structure Oldest (declared : List NodeConfig) (requested : Capabilities) (hub : Hub Policy SlotNode)
    (served : List Handle) : Prop where
  policy : hub.policy = .leastLoaded
  queue : ∃ q, q.Perm (offering declared requested) ∧
    Queue (hub.valueAt SlotNode.granted) (hub.valueAt SlotNode.lastRank) served q

section Oldest

variable {declared : List NodeConfig} {o : Options}

theorem oldest_grid {c : Config} (valid : c.fault? = none) (policy : c.policy = .leastLoaded)
    (requested : Capabilities) : Oldest c.nodes requested (grid c).state [] where
  policy := by
    rw [(grid_enrolled valid).2.2, policy]
    rfl
  queue := by
    refine ⟨offering c.nodes requested, .refl _, .start (nodup_offering _ _) fun h _ => ?_⟩
    exact ⟨valueAt_grid valid (fun _ => rfl) h, valueAt_grid valid (fun _ => rfl) h⟩

theorem oldest_rule (roomy : ∀ d ∈ declared, d.maxSessions ≠ 0)
    (idle : ∀ d ∈ declared, SlotNode.loadAt d.maxSessions 0 = ⟨0⟩)
    (offered : offering declared o.requested ≠ []) : Rule declared o (Oldest declared o.requested) where
  serves {hub served} solo oldest _ l := by
    obtain ⟨policy, q, perm, queue⟩ := oldest
    have inv := solo.stocked.coherent
    have mem_iff : ∀ {h}, h ∈ q ↔ ∃ n, hub.node? h = some n ∧ n.Able o.requested := by
      intro h
      rw [perm.mem_iff, solo.mem_offering]
      exact exists_congr fun n => and_congr_right fun node => (solo.able_iff roomy node).symm
    rcases firstAble_or_noneAble hub o.requested (hub.sortedIn l).1 with ⟨c, n, first⟩ | none
    · have mem : c.handle ∈ q := mem_iff.2 ⟨n, first.node, first.able⟩
      -- All of them have the load of an idle node, so their starts decide.
      have least : ∀ k ∈ q,
          hub.valueAt SlotNode.lastRank c.handle ≤ hub.valueAt SlotNode.lastRank k := by
        intro k memK
        obtain ⟨m, node, able⟩ := mem_iff.1 memK
        rw [valueAt_eq first.node, valueAt_eq node]
        apply first.lastRank_le inv policy (solo.stocked.isMember node) able
        rw [solo.load_eq idle first.node, solo.load_eq idle node]
      obtain ⟨q', perm', queue'⟩ := queue.serve mem least
        (serves_starting first.node rfl fun k _ => solo.past k)
      refine ⟨c, n, first, ?_⟩
      rw [sortedIn_of_leastLoaded policy]
      exact ⟨policy, q', perm'.trans perm, queue'⟩
    · exfalso
      obtain ⟨h, mem⟩ := List.exists_mem_of_ne_nil _ offered
      obtain ⟨n, node, able⟩ := mem_iff.1 (perm.mem_iff.2 mem)
      exact (inv.noneAble_listed_iff (hub.sortedIn_perm l)).1 none h n (solo.stocked.isMember node) able
  releases {hub served h n} node oldest := by
    obtain ⟨policy, q, perm, queue⟩ := oldest
    refine ⟨policy, q, perm, ?_⟩
    rw [valueAt_setNode node (rfl : n.releasing.granted = n.granted),
      valueAt_setNode node (rfl : n.releasing.lastRank = n.lastRank)]
    exact queue

end Oldest

/-! ## The next node in order of id -/

/-- Under round robin the members are served in a cycle, in the order `ids` of their ids. -/
structure Rotating (declared : List NodeConfig) (ids : List NodeId) (hub : Hub Policy SlotNode)
    (served : List Handle) : Prop where
  policy : ∃ next : UInt64, hub.policy = .roundRobin next ∧ next.toNat = served.length
  members : hub.memberIds = ids
  turns : (served.map fun h => declared[h]?.map (·.id)) =
    (List.range served.length).map fun k => ids[k % ids.length]?

section Rotating

variable {declared : List NodeConfig} {ids : List NodeId} {o : Options}

theorem rotating_grid {c : Config} (valid : c.fault? = none) (policy : c.policy = .roundRobin) :
    Rotating c.nodes (grid c).state.memberIds (grid c).state [] where
  policy := by
    refine ⟨0, ?_, rfl⟩
    rw [(grid_enrolled valid).2.2, policy]
    rfl
  members := rfl
  turns := rfl

theorem rotating_rule (distinct : (declared.map (·.id)).Nodup)
    (roomy : ∀ d ∈ declared, d.maxSessions ≠ 0) (some : declared ≠ [])
    (offered : ∀ d ∈ declared, d.node.advertises o.requested = true) (word : o.requests < 2 ^ 64) :
    Rule declared o (Rotating declared ids) where
  serves {hub served} solo rotating few l := by
    obtain ⟨⟨next, policy, number⟩, same, turns⟩ := rotating
    have inv := solo.stocked.coherent
    have occupied : hub.memberIds ≠ [] := by
      intro none
      have perm := solo.stocked.memberIds_perm distinct
      rw [none, List.nil_perm, List.map_eq_nil_iff] at perm
      exact some perm
    obtain ⟨c, rest, sorted, turn⟩ := inv.sorted_of_roundRobin policy occupied
    have listed := inv.sortedIn_of_roundRobin policy l
    have memC : c ∈ hub.sorted.1 := by
      rw [sorted]
      exact List.mem_cons_self
    obtain ⟨h, n, member, rfl⟩ := (inv.mem_listed hub.sorted_perm).1 memC
    have found := solo.stocked.declared_at h
    rw [member.2, Option.map_some] at found
    have able : n.Able o.requested :=
      (solo.able_iff roomy member.2).2 (offered _ (List.mem_of_getElem? found))
    have first : hub.FirstAble o.requested (hub.sortedIn l).1 ⟨h, Node.id n, .of n⟩ n := by
      refine ⟨⟨[], rest, ?_, nofun⟩, member.2, able⟩
      rw [listed, sorted]
      rfl
    refine ⟨_, n, first, ?_⟩
    rw [listed, sorted]
    refine ⟨⟨next + 1, rfl, ?_⟩, same, ?_⟩
    · rw [toNat_succ (by omega), number, Queue.served_length]
    · rw [List.map_append, turns, Queue.served_length, List.range_succ, List.map_append, ← number,
        ← same]
      simp only [List.map_cons, List.map_nil, found, turn, Option.map_some]
      rfl
  releases node rotating := ⟨rotating.policy, rotating.members, rotating.turns⟩

/-- A node comes up as often as its place among the ids does as a remainder. -/
theorem Rotating.count {hub : Hub Policy SlotNode} {served : List Handle}
    (rotating : Rotating declared ids hub served) (distinct : (declared.map (·.id)).Nodup)
    (nodup : ids.Nodup) {h : Handle} {d : NodeConfig} (found : declared[h]? = some d) {place : Nat}
    (at_place : ids[place]? = some d.id) :
    served.count h = (List.range served.length).countP fun k => k % ids.length = place := by
  have lt : place < ids.length := (List.getElem?_eq_some_iff.1 at_place).1
  have own : ∀ k, (declared[k]?.map (·.id) = some d.id ↔ k = h) := by
    intro k
    have at_h : (declared.map (·.id))[h]? = some d.id := by rw [List.getElem?_map, found, Option.map_some]
    rw [← List.getElem?_map, ← at_h]
    constructor
    · intro same
      have lt : h < (declared.map (·.id)).length := (List.getElem?_eq_some_iff.1 at_h).1
      exact ((List.getElem?_inj lt distinct).1 same.symm).symm
    · rintro rfl
      rfl
  calc served.count h
      = (served.map fun h => declared[h]?.map (·.id)).countP fun id => id = some d.id := by
        rw [List.count, List.countP_map]
        apply List.countP_congr
        intro k _
        simp [own]
    _ = ((List.range served.length).map fun k => ids[k % ids.length]?).countP
          fun id => id = some d.id := by rw [rotating.turns]
    _ = (List.range served.length).countP fun k => k % ids.length = place := by
        rw [List.countP_map]
        apply List.countP_congr
        intro k _
        have ltK : k % ids.length < ids.length := Nat.mod_lt _ (Nat.zero_lt_of_lt lt)
        rw [Function.comp_apply, ← at_place, decide_eq_true_eq, decide_eq_true_eq,
          List.getElem?_inj ltK nodup]

end Rotating

/-! ## Reports -/

/-- The place of a member in order of id is the number of declared ids before its own. -/
theorem place_eq {declared : List NodeConfig} {hub : Hub Policy SlotNode} (stocked : hub.Stocked declared)
    (distinct : (declared.map (·.id)).Nodup) {d : NodeConfig} (mem : d ∈ declared) :
    hub.memberIds[declared.countP fun e => Text.bytes e.id.text < Text.bytes d.id.text]? =
      some d.id := by
  have perm := stocked.memberIds_perm distinct
  obtain ⟨place, found⟩ := List.mem_iff_getElem?.1 (perm.mem_iff.2 (List.mem_map_of_mem mem))
  have before : (hub.memberIds.countP fun id => Text.bytes id.text < Text.bytes d.id.text) = place :=
    countP_before (fun a => List.lt_irrefl (Text.bytes a.text)) (fun a b => List.lt_asymm)
      stocked.coherent.memberIds_ascending found
  rw [perm.countP_eq, List.countP_map] at before
  rw [← found, ← before]
  rfl

/-- The report has what was granted of each declared node. -/
theorem Solo.report {declared : List NodeConfig} {s : Simulation} {served : List Handle} {o : Options}
    (solo : Solo declared s.hub served none) {p : NodeConfig → Nat → Prop}
    (counts : ∀ h n, s.hub.node? h = some n → p n.declaration n.granted) :
    List.Forall₂ (fun d r => r.id = d.id ∧ p d r.granted) declared (s.close o).1.nodes := by
  have nodes : (s.close o).1.nodes = (s.hub.nodes.map SlotNode.shutDown).map .of :=
    congrArg (List.map NodeReport.of) solo.stocked.nodes_teardown
  rw [nodes, List.map_map, ← solo.stocked.nodes, List.forall₂_map_left_iff, List.forall₂_map_right_iff,
    List.forall₂_same]
  intro n mem
  obtain ⟨h, node⟩ := List.mem_iff_getElem?.1 mem
  exact ⟨rfl, counts h n node⟩

/-- **One client.** A configuration was read from a text, and some of its nodes offer what the one client
requests. In whatever order the grid lists its members: under the least-loaded policy each of those nodes
is granted the requests divided by their number, rounded down or up, and the others are granted none,
whatever the limits. Under round robin, if all nodes offer the request, the node before which the bytes of
`r` ids come is granted as many sessions as there are requests of which the number leaves the remainder
`r`; the number of requests is a machine word, as the counter of the rotation is. Of the load it is taken
as known only that it is zero for a node without a session. -/
theorem one_client_served_in_turn {text : String} {c : Config}
    (accepted : Config.ofTomlText text = .ok c) (o : Options) (one : o.clients = 1)
    (offered : ∃ d ∈ c.nodes, d.node.advertises o.requested = true) :
    (∃ s, EndsIn c o s ∧ simulate c o = s.close o) ∧
      ∀ s, EndsIn c o s →
        (c.policy = .leastLoaded → (∀ d ∈ c.nodes, SlotNode.loadAt d.maxSessions 0 = ⟨0⟩) →
          let fleet := c.nodes.countP fun d => d.node.advertises o.requested
          List.Forall₂ (fun d r => r.id = d.id ∧
              if d.node.advertises o.requested then
                r.granted = o.requests / fleet ∨ r.granted = (o.requests + fleet - 1) / fleet
              else r.granted = 0)
            c.nodes (s.close o).1.nodes) ∧
        (c.policy = .roundRobin → (∀ d ∈ c.nodes, d.node.advertises o.requested = true) →
          o.requests < 2 ^ 64 →
          List.Forall₂ (fun d r => r.id = d.id ∧
              r.granted = (List.range o.requests).countP fun k => k % c.nodes.length =
                c.nodes.countP fun e => Text.bytes e.id.text < Text.bytes d.id.text)
            c.nodes (s.close o).1.nodes) := by
  have valid : c.fault? = none := Config.fault?_of_ofTomlText accepted
  obtain ⟨sound, distinct⟩ := Config.fault?_eq_none_iff.1 valid
  have roomy : ∀ d ∈ c.nodes, d.maxSessions ≠ 0 := fun d mem => (sound d mem).roomy
  have some : offering c.nodes o.requested ≠ [] := by
    obtain ⟨d, mem, advertised⟩ := offered
    obtain ⟨h, found⟩ := List.mem_iff_getElem?.1 mem
    exact List.ne_nil_of_mem (mem_offering.2 ⟨d, found, advertised⟩)
  refine ⟨simulate_ends c o,
    fun s ends => ⟨fun policy idle => ?_, fun policy all word => ?_⟩⟩
  · obtain ⟨served, solo, number, oldest⟩ := ends.served valid one (oldest_rule roomy idle some) some
      (oldest_grid valid policy o.requested)
    obtain ⟨-, q, perm, queue⟩ := oldest
    intro fleet
    have length : q.length = fleet := perm.length_eq.trans (length_offering _ _)
    apply solo.report (p := fun d granted => if d.node.advertises o.requested then
      granted = o.requests / fleet ∨ granted = (o.requests + fleet - 1) / fleet else granted = 0)
    intro h n node
    have mem_iff : h ∈ q ↔ n.advertises o.requested = true := by
      rw [perm.mem_iff, solo.mem_offering, node]
      simp
    split
    · next advertised =>
      have shares := queue.count_floor_or_ceil (mem_iff.2 advertised)
      rw [valueAt_eq node, number, length] at shares
      exact shares
    · next other =>
      rw [solo.counted node]
      exact List.count_eq_zero_of_not_mem fun mem => other (mem_iff.1 (queue.known mem))
  · obtain ⟨d, mem, -⟩ := offered
    obtain ⟨served, solo, number, rotating⟩ := ends.served valid one
      (rotating_rule distinct roomy (List.ne_nil_of_mem mem) all word) some (rotating_grid valid policy)
    apply solo.report (p := fun d granted => granted = (List.range o.requests).countP fun k =>
      k % c.nodes.length = c.nodes.countP fun e => Text.bytes e.id.text < Text.bytes d.id.text)
    intro h n node
    have found := solo.stocked.declared_at h
    rw [node, Option.map_some] at found
    have place := place_eq solo.stocked distinct (List.mem_of_getElem? found)
    have length : s.hub.memberIds.length = c.nodes.length := by
      rw [(solo.stocked.memberIds_perm distinct).length_eq, List.length_map]
    rw [rotating.members] at place length
    have nodup := rotating.members ▸ solo.stocked.coherent.nodup_memberIds
    rw [solo.counted node, rotating.count distinct nodup found place, number, length]

/-- A text that declares two nodes served in rotation, which offer whatever asks for nothing. -/
def rotationText : String :=
  "[hub]\npolicy = \"round-robin\"\n" ++
  "[[node]]\nid = \"b\"\ncapabilities = [\x7b\x7d]\n" ++
  "[[node]]\nid = \"a\"\ncapabilities = [\x7b\x7d]\n"

def rotation : Config :=
  { policy := .roundRobin
    nodes := [
      { id := ⟨"b"⟩, capabilities := [Capabilities.empty] },
      { id := ⟨"a"⟩, capabilities := [Capabilities.empty] }] }

/-- Three requests: all to the only node that offers them, or every other one to the node whose id comes
second. -/
theorem one_client_served_in_turn_two_nodes :
    let plain : Options :=
      { clients := 1
        requests := 3
        requested := Capabilities.empty
        hold := 1
        maxAttempts := 0
        backoff := 1 }
    let o : Options := { plain with requested := Capabilities.empty.insert "b" (.bool true) }
    Config.ofTomlText Config.twoNodesText = .ok Config.twoNodes ∧
      Config.ofTomlText rotationText = .ok rotation ∧
      (∃ d ∈ Config.twoNodes.nodes, d.node.advertises o.requested = true) ∧
      (∀ d ∈ Config.twoNodes.nodes, SlotNode.loadAt d.maxSessions 0 = ⟨0⟩) ∧
      (∀ d ∈ rotation.nodes, d.node.advertises plain.requested = true) ∧
      (∀ s, EndsIn Config.twoNodes o s → (s.close o).1.nodes.map (·.granted) = [3, 0]) ∧
      ∀ s, EndsIn rotation plain s → (s.close plain).1.nodes.map (·.granted) = [1, 2] := by
  intro plain o
  have accepted : Config.ofTomlText rotationText = .ok rotation := by cbv
  have offered : ∃ d ∈ Config.twoNodes.nodes, d.node.advertises o.requested = true :=
    ⟨_, List.mem_cons_self, by decide +kernel⟩
  have idle : ∀ d ∈ Config.twoNodes.nodes, SlotNode.loadAt d.maxSessions 0 = ⟨0⟩ := by decide +kernel
  have all : ∀ d ∈ rotation.nodes, d.node.advertises plain.requested = true := by decide +kernel
  obtain ⟨-, spread⟩ := one_client_served_in_turn Config.ofTomlText_twoNodes o rfl offered
  obtain ⟨-, cycle⟩ := one_client_served_in_turn accepted plain rfl
    ⟨_, List.mem_cons_self, all _ List.mem_cons_self⟩
  refine ⟨Config.ofTomlText_twoNodes, accepted, offered, idle, all, fun s ends => ?_, fun s ends => ?_⟩
  · have shares := (spread s ends).1 rfl idle
    have fleet : (Config.twoNodes.nodes.countP fun d => d.node.advertises o.requested) = 1 := by
      decide +kernel
    simp only [fleet] at shares
    obtain ⟨a, rest, ⟨-, first⟩, others, nodes⟩ := List.forall₂_cons_left_iff.1 shares
    obtain ⟨b, rest', ⟨-, second⟩, none, rfl⟩ := List.forall₂_cons_left_iff.1 others
    rw [if_pos (by decide +kernel)] at first
    rw [if_neg (by decide +kernel)] at second
    rw [nodes, List.forall₂_nil_left_iff.1 none, List.map_cons, List.map_cons, second,
      first.elim id id, Nat.div_one]
    rfl
  · have shares := (cycle s ends).2 rfl all (by decide)
    obtain ⟨b, rest, ⟨-, first⟩, others, nodes⟩ := List.forall₂_cons_left_iff.1 shares
    obtain ⟨a, rest', ⟨-, second⟩, none, rfl⟩ := List.forall₂_cons_left_iff.1 others
    rw [nodes, List.forall₂_nil_left_iff.1 none, List.map_cons, List.map_cons, first, second]
    decide +kernel

end Simulation
end SessionGrid
