import SessionGrid.Proofs.Hub.Capability
import SessionGrid.Proofs.Hub.Spread
import SessionGrid.Proofs.Simulation.Grid
import SessionGrid.Proofs.Simulation.Listed

/-!
# One client alone

A single client holds one session at a time, so the grid is idle whenever it asks for one (`Solo`), and
every node that offers the request could serve it. The policy alone decides which node does: nobody else
moves in the middle of a search, so each of them is one step. A rule for whose turn it is that every request
and every session given back keeps (`Rule`) is kept by each move of the client (`Phase.act`), and so it
holds at the end of the run, when every request was served (`EndsIn.served`).
-/

namespace SessionGrid

open Hub

namespace Hub

/-- The handles of the declared nodes that offer what is requested. -/
def offering (declared : List NodeConfig) (requested : Capabilities) : List Handle :=
  (List.range declared.length).filter fun h =>
    declared[h]?.any fun d => d.node.advertises requested

section Offering

variable {declared : List NodeConfig} {requested : Capabilities} {h : Handle}

/-- Offering are the declared nodes that advertise the request. -/
theorem mem_offering :
    h ∈ offering declared requested ↔ ∃ d, declared[h]? = some d ∧ d.node.advertises requested = true := by
  rw [offering, List.mem_filter, List.mem_range, Option.any_eq_true]
  constructor
  · rintro ⟨-, d, found, offered⟩
    exact ⟨d, found, offered⟩
  · rintro ⟨d, found, offered⟩
    exact ⟨(List.getElem?_eq_some_iff.1 found).1, d, found, offered⟩

theorem nodup_offering (declared : List NodeConfig) (requested : Capabilities) :
    (offering declared requested).Nodup :=
  List.nodup_range.filter _

theorem length_offering (declared : List NodeConfig) (requested : Capabilities) :
    (offering declared requested).length = declared.countP fun d => d.node.advertises requested := by
  have places : (List.range declared.length).map (fun h => declared[h]?) = declared.map some := by
    apply List.ext_getElem
    · simp
    · intro i lt _
      rw [List.length_map, List.length_range] at lt
      simp [lt]
  rw [offering, ← List.countP_eq_length_filter]
  calc (List.range declared.length).countP
        (fun h => declared[h]?.any fun d => d.node.advertises requested)
      = ((List.range declared.length).map fun h => declared[h]?).countP
          fun d => d.any fun d => d.node.advertises requested := by
        rw [List.countP_map]
        rfl
    _ = declared.countP fun d => d.node.advertises requested := by
        rw [places, List.countP_map]
        rfl

end Offering

theorem Stocked.declared_at {hub : Hub Policy SlotNode} {declared : List NodeConfig}
    (s : hub.Stocked declared) (h : Handle) : declared[h]? = (hub.node? h).map SlotNode.declaration := by
  rw [← s.nodes]
  exact declared_get? hub h

end Hub

namespace Simulation

/-! ## The grid of one client -/

/-- The nodes run, no slot is in use but one of `held`, and each node granted as many sessions as it
comes up in `served`. -/
structure Solo (declared : List NodeConfig) (hub : Hub Policy SlotNode) (served : List Handle)
    (held : Option Handle) : Prop where
  stocked : hub.Stocked declared
  running : ∀ {h n}, hub.node? h = some n → n.shutDowns = 0
  slots : ∀ {h n}, hub.node? h = some n → n.active = if held = some h then 1 else 0
  counted : ∀ {h n}, hub.node? h = some n → n.granted = served.count h
  past : ∀ h, hub.valueAt SlotNode.lastRank h ≤ hub.clock

/-- At the start every node object is as it was declared. -/
theorem fresh_of_grid {c : Config} (valid : c.fault? = none) {h : Handle} {n : SlotNode}
    (node : (grid c).state.node? h = some n) : ∃ d : NodeConfig, n = d.node := by
  rw [node?, (grid_enrolled valid).1.fresh, List.getElem?_map] at node
  obtain ⟨d, -, rfl⟩ := Option.map_eq_some_iff.1 node
  exact ⟨d, rfl⟩

/-- What is zero for a declared node is zero at the start. -/
theorem valueAt_grid {c : Config} (valid : c.fault? = none) {f : SlotNode → Nat}
    (zero : ∀ d : NodeConfig, f d.node = 0) (h : Handle) : (grid c).state.valueAt f h = 0 := by
  cases node : (grid c).state.node? h with
  | none => rw [valueAt, node, Option.elim_none]
  | some n =>
    obtain ⟨d, rfl⟩ := fresh_of_grid valid node
    rw [valueAt_eq node, zero]

namespace Solo

variable {declared : List NodeConfig} {hub : Hub Policy SlotNode} {served : List Handle} {h : Handle}
  {n : SlotNode} {requested : Capabilities}

/-- A client that has not asked yet finds the grid idle. -/
theorem start {c : Config} (valid : c.fault? = none) : Solo c.nodes (grid c).state [] none where
  stocked := (grid_enrolled valid).1.stocked
  running node := by
    obtain ⟨d, rfl⟩ := fresh_of_grid valid node
    rfl
  slots node := by
    obtain ⟨d, rfl⟩ := fresh_of_grid valid node
    rfl
  counted node := by
    obtain ⟨d, rfl⟩ := fresh_of_grid valid node
    rfl
  past h := by
    rw [valueAt_grid valid fun _ => rfl]
    exact Nat.zero_le _

/-- While no session is held, every node that offers the request can serve it. -/
theorem able_iff (solo : Solo declared hub served none) (roomy : ∀ d ∈ declared, d.maxSessions ≠ 0)
    (node : hub.node? h = some n) : n.Able requested ↔ n.advertises requested = true := by
  refine ⟨fun able => (SlotNode.able_iff.1 able).2.2, fun offered => ?_⟩
  refine SlotNode.able_iff.2 ⟨?_, ?_, offered⟩
  · rw [SlotNode.isShutDown, solo.running node]
    rfl
  · have found := solo.stocked.declared_at h
    rw [node, Option.map_some] at found
    have some : n.maxSessions ≠ 0 := roomy _ (List.mem_of_getElem? found)
    rw [solo.slots node, if_neg nofun]
    exact UInt32.pos_iff_ne_zero.2 some

/-- Idle nodes have the load of an idle node. -/
theorem load_eq (solo : Solo declared hub served none)
    (idle : ∀ d ∈ declared, SlotNode.loadAt d.maxSessions 0 = ⟨0⟩) (node : hub.node? h = some n) :
    n.load = ⟨0⟩ := by
  have found := solo.stocked.declared_at h
  rw [node, Option.map_some] at found
  have unused : n.active = 0 := (solo.slots node).trans (if_neg nofun)
  rw [SlotNode.load_eq, unused]
  exact idle _ (List.mem_of_getElem? found)

theorem mem_offering (solo : Solo declared hub served none) :
    h ∈ offering declared requested ↔ ∃ n, hub.node? h = some n ∧ n.advertises requested = true := by
  rw [Hub.mem_offering, solo.stocked.declared_at]
  constructor
  · rintro ⟨d, found, offered⟩
    obtain ⟨n, node, rfl⟩ := Option.map_eq_some_iff.1 found
    exact ⟨n, node, offered⟩
  · rintro ⟨n, node, offered⟩
    exact ⟨n.declaration, by rw [node, Option.map_some], offered⟩

/-- A session that starts is the only one. -/
theorem starting (solo : Solo declared hub served none) (node : hub.node? h = some n) (policy : Policy) :
    Solo declared { hub.starting h n with policy } (served ++ [h]) (some h) := by
  have stocked : (hub.starting h n).Stocked declared :=
    (solo.stocked.setNode node (rfl : (n.granting hub.clock).declaration = n.declaration)).of_eq rfl rfl
  refine ⟨stocked.of_eq rfl rfl, ?_, ?_, ?_, ?_⟩
  · intro k m now
    rcases node?_setNode_cases node now with ⟨rfl, rfl⟩ | ⟨-, old⟩
    · exact (solo.running node : n.shutDowns = 0)
    · exact solo.running old
  · intro k m now
    rcases node?_setNode_cases node now with ⟨rfl, rfl⟩ | ⟨ne, old⟩
    · rw [if_pos rfl]
      have idle : n.active = 0 := (solo.slots node).trans (if_neg nofun)
      rw [SlotNode.granting, idle]
      rfl
    · rw [if_neg fun same => ne (Option.some.inj same).symm]
      exact (solo.slots old).trans (if_neg nofun)
  · intro k m now
    rw [List.count_append, List.count_singleton]
    rcases node?_setNode_cases node now with ⟨rfl, rfl⟩ | ⟨ne, old⟩
    · simp [SlotNode.granting, solo.counted node]
    · simp [solo.counted old, Ne.symm ne]
  · intro k
    show (hub.starting h n).valueAt SlotNode.lastRank k ≤ hub.clock + 1
    by_cases own : k = h
    · subst own
      rw [valueAt_eq (node?_starting_self node)]
      exact Nat.le_refl _
    · rw [valueAt, node?_starting_ne own]
      exact Nat.le_succ_of_le (solo.past k)

/-- Given back, it leaves the grid idle again. -/
theorem releasing (solo : Solo declared hub served (some h)) (node : hub.node? h = some n) :
    Solo declared (hub.setNode h n.releasing) served none := by
  refine ⟨solo.stocked.setNode node rfl, ?_, ?_, ?_, ?_⟩
  · intro k m now
    rcases node?_setNode_cases node now with ⟨rfl, rfl⟩ | ⟨-, old⟩
    · exact (solo.running node : n.shutDowns = 0)
    · exact solo.running old
  · intro k m now
    rw [if_neg nofun]
    rcases node?_setNode_cases node now with ⟨rfl, rfl⟩ | ⟨ne, old⟩
    · have used : n.active = 1 := (solo.slots node).trans (if_pos rfl)
      rw [SlotNode.releasing, used]
      rfl
    · exact (solo.slots old).trans (if_neg fun same => ne (Option.some.inj same).symm)
  · intro k m now
    rcases node?_setNode_cases node now with ⟨rfl, rfl⟩ | ⟨-, old⟩
    · exact (solo.counted node : n.granted = _)
    · exact solo.counted old
  · rw [valueAt_setNode node (rfl : n.releasing.lastRank = n.lastRank)]
    exact solo.past

end Solo

/-! ## Whose turn it is -/

/-- Whenever the grid is idle, a request is served by an able node, and `turn` goes on with that node as
the last one served; a session given back changes nothing about it. -/
structure Rule (declared : List NodeConfig) (o : Options)
    (turn : Hub Policy SlotNode → List Handle → Prop) : Prop where
  serves : ∀ {hub served}, Solo declared hub served none → turn hub served →
    served.length < o.requests → ∀ l, ∃ c n, hub.FirstAble o.requested (hub.sortedIn l).1 c n ∧
      turn ((hub.sortedIn l).2.starting c.handle n) (served ++ [c.handle])
  releases : ∀ {hub served h n}, hub.node? h = some n → turn hub served →
    turn (hub.setNode h n.releasing) served

/-- How far a client and its grid are, by the stage of the client. -/
def Phase (declared : List NodeConfig) (o : Options) (hub : Hub Policy SlotNode)
    (served : List Handle) : Stage → Prop
  | .starting request =>
    served.length = request ∧ request ≤ o.requests ∧ Solo declared hub served none
  | .asking request _ =>
    served.length = request ∧ request < o.requests ∧ Solo declared hub served none
  | .holding request session =>
    served.length = request + 1 ∧ request < o.requests ∧ ∃ h n, hub.node? h = some n ∧
      session.nodeId = n.id ∧ Solo declared hub served (some h)

section Moves

variable {declared : List NodeConfig} {o : Options} {turn : Hub Policy SlotNode → List Handle → Prop}
  {hub : Hub Policy SlotNode} {served : List Handle} {cl : Client}

/-- **One move.** The client asks, is served by the node whose turn it is, and gives the session back. -/
theorem Phase.act (rule : Rule declared o turn) (offered : offering declared o.requested ≠ [])
    (phase : Phase declared o hub served cl.stage) (now : turn hub served) (i : Nat) (l : Listing) :
    ∃ served', Phase declared o (cl.actIn o i l hub).state served' (cl.actIn o i l hub).answer.stage ∧
      turn (cl.actIn o i l hub).state served' := by
  cases stage : cl.stage with
  | starting request =>
    rw [stage] at phase
    obtain ⟨number, upTo, solo⟩ := phase
    refine ⟨served, ?_⟩
    simp only [Client.actIn, stage]
    split
    · exact ⟨stage ▸ ⟨number, upTo, solo⟩, now⟩
    · next more =>
      obtain ⟨h, mem⟩ := List.exists_mem_of_ne_nil _ offered
      obtain ⟨n, node, advertised⟩ := solo.mem_offering.1 mem
      have capable : hub.hasCapability o.requested = true :=
        solo.stocked.coherent.hasCapability_iff.2 ⟨h, n, solo.stocked.isMember node, advertised⟩
      have verified : (hub.verify o.requested).1 = .ok () := verify_eq_ok_iff.2 fun _ => capable
      split
      · exact ⟨⟨number, Nat.lt_of_not_le more, solo⟩, now⟩
      · next refused =>
        have refused := congrArg Prod.fst refused
        cases verified.symm.trans refused
  | asking request misses =>
    rw [stage] at phase
    obtain ⟨number, more, solo⟩ := phase
    obtain ⟨c, n, first, next⟩ := rule.serves solo now (number ▸ more) l
    have outcome := newSessionIn_of_firstAble first
    refine ⟨served ++ [c.handle], ?_⟩
    simp only [Client.actIn, Client.answered, stage, outcome]
    have before : (hub.sortedIn l).2.node? c.handle = some n := first.node
    have node : ((hub.sortedIn l).2.starting c.handle n).node? c.handle = some (n.granting hub.clock) :=
      node?_starting_self before
    refine ⟨⟨?_, more, c.handle, _, node, rfl, solo.starting first.node _⟩, next⟩
    rw [Queue.served_length, number]
  | holding request session =>
    rw [stage] at phase
    obtain ⟨number, more, h, n, node, own, solo⟩ := phase
    have used : n.active ≠ 0 := by
      rw [solo.slots node, if_pos rfl]
      decide
    have finished := finish_of_isMember (solo.stocked.isMember node) own used
    refine ⟨served, ?_⟩
    simp only [Client.actIn, stage, finished]
    exact ⟨⟨number, more, solo.releasing node⟩, rule.releases node now⟩

end Moves

/-- A simulation with one client, which is in phase with the grid. -/
structure Along (declared : List NodeConfig) (o : Options)
    (turn : Hub Policy SlotNode → List Handle → Prop) (s : Simulation) : Prop where
  inPhase : ∃ cl served, s.clients = [cl] ∧ Phase declared o s.hub served cl.stage ∧ turn s.hub served

section Runs

variable {declared : List NodeConfig} {o : Options} {turn : Hub Policy SlotNode → List Handle → Prop}
  {s : Simulation}

/-- **One move.** The rule is kept, whatever listing the client asks with. -/
theorem Along.step (rule : Rule declared o turn) (offered : offering declared o.requested ≠ [])
    (along : Along declared o turn s) (m : Listing × Nat) : Along declared o turn (s.stepIn o m) := by
  obtain ⟨cl, served, client, phase, now⟩ := along
  cases found : s.clients[m.2]? with
  | none =>
    have same : s.stepIn o m = s := by simp only [stepIn, found]
    rw [same]
    exact ⟨cl, served, client, phase, now⟩
  | some cl' =>
    rw [client, List.getElem?_singleton] at found
    split at found
    · next zero =>
      cases found
      obtain ⟨served', phase, now⟩ := phase.act rule offered now m.2 m.1
      have here : s.clients[m.2]? = some cl := by rw [client, zero, List.getElem?_cons_zero]
      have moved : s.stepIn o m =
          { hub := (cl.actIn o m.2 m.1 s.hub).state
            clients := s.clients.set m.2 (cl.actIn o m.2 m.1 s.hub).answer
            log := (cl.actIn o m.2 m.1 s.hub).log.reverse ++ s.log } := by
        simp only [stepIn, here]
      rw [moved]
      refine ⟨_, served', ?_, phase, now⟩
      dsimp only
      rw [client, zero, List.set_cons_zero]
    · cases found

/-- At the end all requests were served, each by the node whose turn it was. -/
theorem Along.finished (along : Along declared o turn s) (done : ∀ cl ∈ s.clients, cl.isDone o = true) :
    ∃ served, Solo declared s.hub served none ∧ served.length = o.requests ∧ turn s.hub served := by
  obtain ⟨cl, served, client, phase, now⟩ := along
  have done := done cl (client ▸ List.mem_cons_self)
  refine ⟨served, ?_⟩
  cases stage : cl.stage with
  | starting request =>
    rw [stage] at phase
    obtain ⟨number, upTo, solo⟩ := phase
    simp only [Client.isDone, stage, decide_eq_true_eq] at done
    exact ⟨solo, number.trans (Nat.le_antisymm upTo done), now⟩
  | asking request misses => simp [Client.isDone, stage] at done
  | holding request session => simp [Client.isDone, stage] at done

/-- **Runs.** What a rule says of whose turn it is holds at the end of the run. -/
theorem EndsIn.served {c : Config} (valid : c.fault? = none) (one : o.clients = 1)
    (rule : Rule c.nodes o turn) (offered : offering c.nodes o.requested ≠ [])
    (start : turn (grid c).state []) (ends : EndsIn c o s) :
    ∃ served, Solo c.nodes s.hub served none ∧ served.length = o.requests ∧ turn s.hub served := by
  obtain ⟨⟨order, rfl⟩, done⟩ := ends
  refine Along.finished (movesIn_induction (fun s m along => along.step rule offered m) ?_ order) done
  refine ⟨{}, [], ?_, ⟨rfl, Nat.zero_le _, .start valid⟩, start⟩
  rw [Simulation.start, one]
  rfl

end Runs

end Simulation
end SessionGrid
