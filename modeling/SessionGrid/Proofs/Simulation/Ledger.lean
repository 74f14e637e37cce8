import SessionGrid.Proofs.Simulation.Grid
import SessionGrid.Proofs.Simulation.Moves

/-!
# The books of a simulation

Slots in use are kept by the nodes, sessions by the clients, and both count what was granted. In every
state of a run the books agree (`Balanced`): a node has as many slots in use as there are clients with
one of its sessions, and all nodes together have granted what all clients together were granted. A
move keeps this, since it either changes no node or is an `Exchange` of one client with one node, and so
does a search in steps, of which only the last one is such an exchange (`Balanced.effect`).
-/

namespace SessionGrid.Simulation

open Hub

/-! ## Sessions that clients hold -/

/-- The id of the node whose session the client holds. -/
def site (c : Client) : Option NodeId :=
  match c.stage with
  | .holding _ session => some session.nodeId
  | _ => none

/-- How many clients hold a session of the node with the given id. -/
def held (id : NodeId) (clients : List Client) : Nat :=
  clients.countP fun c => decide (site c = some id)

section Turns

variable {o : Options} {c c' : Client} {request : Nat}

/-- A client has no session when it has a request verified. -/
theorem Turn.site_verify {answer : Except HubError Unit} (turn : Turn o c request (.verify answer) c') :
    site c = none ∧ site c' = none ∧ c'.tally.granted = c.tally.granted := by
  cases turn with
  | verified stage more | rejected stage more => exact ⟨by rw [site, stage], rfl, rfl⟩

/-- A client that misses holds nothing before and after, and nothing was granted to it. -/
theorem Turn.site_missed (turn : Turn o c request (.ask none) c') :
    site c = none ∧ site c' = none ∧ c'.tally.granted = c.tally.granted := by
  cases turn with
  | gaveUp stage last | retried stage more => exact ⟨by rw [site, stage], rfl, rfl⟩

/-- A client that is served had no session before, and is granted one. -/
theorem Turn.site_served {session : Session} (turn : Turn o c request (.ask (some session)) c') :
    site c = none ∧ site c' = some session.nodeId ∧ c'.tally.granted = c.tally.granted + 1 := by
  cases turn with
  | served stage => exact ⟨by rw [site, stage], rfl, rfl⟩

/-- A client that gives back holds nothing afterwards. -/
theorem Turn.site_giveBack (turn : Turn o c request .giveBack c') :
    site c' = none ∧ c'.tally.granted = c.tally.granted := by
  cases turn with
  | released stage => exact ⟨rfl, rfl⟩

end Turns

section Held

variable {clients : List Client} {i : Nat} {c c' : Client} {id : NodeId}

/-- One client may come to hold a session of a node and another one cease to. -/
theorem held_exchange (found : clients[i]? = some c) (c' : Client) (id : NodeId) :
    held id (clients.set i c') + (if site c = some id then 1 else 0) =
      held id clients + if site c' = some id then 1 else 0 := by
  have count := countP_exchange (fun c => decide (site c = some id)) found c'
  simp only [decide_eq_true_eq] at count
  exact count

/-- A client that moves without leaving its node changes no count. -/
theorem held_same (found : clients[i]? = some c) (same : site c' = site c) :
    held id (clients.set i c') = held id clients := by
  have count := held_exchange found c' id
  rw [same] at count
  exact Nat.add_right_cancel count

/-- A node has a holder if a client holds one of its sessions. -/
theorem held_pos (found : clients[i]? = some c) (holds : site c = some id) :
    0 < held id clients :=
  List.countP_pos_iff.2 ⟨c, List.mem_of_getElem? found, decide_eq_true holds⟩

theorem held_eq_zero (none : ∀ c ∈ clients, site c = none) : held id clients = 0 := by
  apply List.countP_eq_zero.2
  intro c mem holds
  rw [none c mem] at holds
  cases of_decide_eq_true holds

end Held

/-! ## The invariant -/

/-- A node runs, has as many slots in use as sessions of it are held, never more than it has, and
grants nothing that it does not advertise. -/
structure Booked (o : Options) (clients : List Client) (n : SlotNode) : Prop where
  running : n.shutDowns = 0
  slots : n.active.toNat = held n.id clients
  within : n.active ≤ n.maxSessions
  unasked : n.advertises o.requested = false → n.granted = 0

/-- Hub and clients of a simulation of the configuration agree. -/
structure Balanced (c : Config) (o : Options) (s : Simulation) : Prop where
  stocked : s.hub.Stocked c.nodes
  strict : s.hub.strict = c.strict
  policy : s.hub.policy.name = c.policy.label
  clients : s.clients.length = o.clients
  between : ∀ cl ∈ s.clients, InStep o cl
  /-- The node of a session that is held is a member. -/
  sites : ∀ cl ∈ s.clients, ∀ id, site cl = some id → ∃ h, s.hub.find? id = some h
  booked : ∀ h n, s.hub.node? h = some n → Booked o s.clients n
  granted : (s.hub.nodes.map (·.granted)).sum = (s.clients.map (·.tally.granted)).sum

/-- Of every node object the books agree. -/
theorem Balanced.booked_of_mem {c : Config} {o : Options} {s : Simulation} (b : Balanced c o s)
    {n : SlotNode} (mem : n ∈ s.hub.nodes) : Booked o s.clients n := by
  obtain ⟨h, node⟩ := List.mem_iff_getElem?.1 mem
  exact b.booked h n node

/-- At the start nothing is in use and nothing was granted. -/
theorem balanced_start {c : Config} (valid : c.fault? = none) (o : Options) :
    Balanced c o (start c o) := by
  obtain ⟨⟨stocked, nodes⟩, strict, policy⟩ := grid_enrolled valid
  have client : ∀ cl ∈ (start c o).clients, cl = {} := fun cl mem => List.eq_of_mem_replicate mem
  refine ⟨stocked, strict, congrArg Policy.name policy, List.length_replicate, ?_, ?_, ?_, ?_⟩
  · intro cl mem
    rw [client cl mem]
    exact inStep_start o
  · intro cl mem id holds
    rw [client cl mem] at holds
    cases holds
  · intro h n node
    have mem : n ∈ (grid c).state.nodes := List.mem_of_getElem? node
    rw [nodes] at mem
    obtain ⟨d, -, rfl⟩ := List.mem_map.1 mem
    have unheld : held d.node.id (start c o).clients = 0 :=
      held_eq_zero fun cl mem => congrArg site (client cl mem)
    exact ⟨rfl, unheld.symm, UInt32.zero_le, fun _ => rfl⟩
  · have fresh : (c.nodes.map NodeConfig.node).map (·.granted) = List.replicate c.nodes.length 0 := by
      rw [List.map_map, ← List.map_const']
      rfl
    simp only [start, nodes, fresh, List.map_replicate, List.sum_replicate_nat, Nat.mul_zero]

/-! ## Moves -/

/-- Members and settings of two hubs are the same. -/
structure SameSettings (hub hub' : Hub Policy SlotNode) : Prop where
  members : hub'.members = hub.members
  strict : hub'.strict = hub.strict
  policy : hub'.policy.name = hub.policy.name

theorem SameSettings.of_policy (hub : Hub Policy SlotNode) {policy : Policy}
    (same : policy.name = hub.policy.name) : SameSettings hub { hub with policy } :=
  ⟨rfl, rfl, same⟩

/-- A client and a node before and after a session between them begins or ends. -/
structure Exchange (o : Options) (cl cl' : Client) (n n' : SlotNode) : Prop where
  declared : n'.declaration = n.declaration
  running : n'.shutDowns = n.shutDowns
  slots : n'.active.toNat + (if site cl = some n.id then 1 else 0) =
    n.active.toNat + if site cl' = some n.id then 1 else 0
  within : n'.active ≤ n'.maxSessions
  unasked : n.advertises o.requested = false → n'.granted = n.granted
  /-- No session of another node is held before or after. -/
  elsewhere : ∀ id, id ≠ n.id → site cl ≠ some id ∧ site cl' ≠ some id
  granted : n'.granted + cl.tally.granted = n.granted + cl'.tally.granted

section Moves

variable {c : Config} {o : Options} {s : Simulation} {i : Nat} {cl cl' : Client}
  {hub' : Hub Policy SlotNode}

/-- A move that changes no node and no session. -/
theorem Balanced.quiet (b : Balanced c o s) (found : s.clients[i]? = some cl)
    (between : InStep o cl') (same : site cl' = site cl)
    (granted : cl'.tally.granted = cl.tally.granted) (nodes : hub'.nodes = s.hub.nodes)
    (settings : SameSettings s.hub hub') (log : List Event) :
    Balanced c o ⟨hub', s.clients.set i cl', log⟩ := by
  refine
    { stocked := b.stocked.of_eq nodes settings.members
      strict := settings.strict.trans b.strict
      policy := settings.policy.trans b.policy
      clients := List.length_set.trans b.clients
      between := forall_mem_exchange b.between between
      sites := ?_
      booked := ?_
      granted := ?_ }
  · simp only [find?, settings.members]
    apply forall_mem_exchange b.sites
    intro id holds
    exact b.sites cl (List.mem_of_getElem? found) id (same.symm.trans holds)
  · intro h n node
    rw [node?, nodes] at node
    obtain ⟨running, slots, within, unasked⟩ := b.booked h n node
    exact ⟨running, slots.trans (held_same found same).symm, within, unasked⟩
  · have sum := sum_exchange (·.tally.granted) found cl'
    rw [granted] at sum
    rw [nodes, Nat.add_right_cancel sum]
    exact b.granted

/-- A move in which one client and one node exchange a session. -/
theorem Balanced.exchange (b : Balanced c o s) (found : s.clients[i]? = some cl)
    (between : InStep o cl') {h : Handle} {n n' : SlotNode} (node : s.hub.node? h = some n)
    (x : Exchange o cl cl' n n') (nodes : hub'.nodes = (s.hub.setNode h n').nodes)
    (settings : SameSettings s.hub hub') (log : List Event) :
    Balanced c o ⟨hub', s.clients.set i cl', log⟩ := by
  have id : n'.id = n.id := congrArg NodeConfig.id x.declared
  have offers : n'.offers = n.offers := congrArg NodeConfig.capabilities x.declared
  refine
    { stocked := (b.stocked.setNode node x.declared).of_eq nodes settings.members
      strict := settings.strict.trans b.strict
      policy := settings.policy.trans b.policy
      clients := List.length_set.trans b.clients
      between := forall_mem_exchange b.between between
      sites := ?_
      booked := ?_
      granted := ?_ }
  · simp only [find?, settings.members]
    apply forall_mem_exchange b.sites
    intro k holds
    by_cases same : k = n.id
    · exact ⟨h, same ▸ b.stocked.members node⟩
    · exact absurd holds (x.elsewhere k same).2
  · intro k m now
    have now : (s.hub.setNode h n').node? k = some m := by
      rw [node?, nodes] at now
      exact now
    rcases node?_setNode_cases node now with ⟨rfl, rfl⟩ | ⟨other, old⟩
    · obtain ⟨running, slots, within, unasked⟩ := b.booked k n node
      refine ⟨x.running.trans running, ?_, x.within, ?_⟩
      · have count := held_exchange found cl' n.id
        have exchanged := x.slots
        rw [id]
        show m.active.toNat = held n.id (s.clients.set i cl')
        omega
      · intro silent
        simp only [SlotNode.advertises, offers] at silent
        exact (x.unasked silent).trans (unasked silent)
    · have ne : m.id ≠ n.id := fun same => other (b.stocked.handle_inj old node same)
      obtain ⟨running, slots, within, unasked⟩ := b.booked k m old
      have count := held_exchange found cl' m.id
      rw [if_neg (x.elsewhere _ ne).1, if_neg (x.elsewhere _ ne).2] at count
      exact ⟨running, slots.trans count.symm, within, unasked⟩
  · have clientSum := sum_exchange (·.tally.granted) found cl'
    have nodeSum := sum_exchange (·.granted) node n'
    have exchanged := x.granted
    have before := b.granted
    rw [nodes]
    show ((s.hub.nodes.set h n').map (·.granted)).sum =
      ((s.clients.set i cl').map (·.tally.granted)).sum
    omega

/-- A grant takes a slot for the client. -/
theorem Exchange.of_grant {n : SlotNode} (able : n.Able o.requested) (now : Instant)
    (none : site cl = none) (holds : site cl' = some n.id)
    (granted : cl'.tally.granted = cl.tally.granted + 1) :
    Exchange o cl cl' n (n.granting now) := by
  have active := SlotNode.granting_active able.free now
  refine
    { declared := rfl
      running := rfl
      slots := ?_
      within := ?_
      unasked := ?_
      elsewhere := ?_
      granted := ?_ }
  · rw [none, holds, if_neg (nofun), if_pos rfl]
    exact active
  · have free := UInt32.lt_iff_toNat_lt.1 able.free
    rw [UInt32.le_iff_toNat_le, active]
    exact free
  · intro silent
    cases silent.symm.trans (SlotNode.able_iff.1 able).2.2
  · intro id ne
    rw [none, holds]
    exact ⟨nofun, fun same => ne (Option.some.inj same).symm⟩
  · show n.granted + 1 + cl.tally.granted = _
    omega

/-- A session given back frees the slot of the client. -/
theorem Exchange.of_release {n : SlotNode} (within : n.active ≤ n.maxSessions)
    (used : n.active ≠ 0) (holds : site cl = some n.id) (none : site cl' = none)
    (granted : cl'.tally.granted = cl.tally.granted) : Exchange o cl cl' n n.releasing := by
  have active := SlotNode.releasing_active used
  refine
    { declared := rfl
      running := rfl
      slots := ?_
      within := ?_
      unasked := fun _ => rfl
      elsewhere := ?_
      granted := ?_ }
  · rw [none, holds, if_pos rfl, if_neg (nofun)]
    exact active
  · rw [UInt32.le_iff_toNat_le] at within ⊢
    show n.releasing.active.toNat ≤ n.maxSessions.toNat
    omega
  · intro id ne
    rw [none, holds]
    exact ⟨fun same => ne (Option.some.inj same).symm, nofun⟩
  · rw [granted]
    rfl

/-- The node of a session that is held is a member, and the session occupies one of the slots in use. -/
theorem Balanced.exists_granter (b : Balanced c o s) (found : s.clients[i]? = some cl) {id : NodeId}
    (holds : site cl = some id) : ∃ h n, s.hub.IsMember h n ∧ n.id = id ∧ n.active ≠ 0 := by
  obtain ⟨h, bound⟩ := b.sites cl (List.mem_of_getElem? found) id holds
  obtain ⟨n, node, own⟩ := idAt_eq_some_iff.1 (b.stocked.coherent.own bound)
  have own : n.id = id := own
  refine ⟨h, n, b.stocked.isMember node, own, fun zero => ?_⟩
  have slots := (b.booked h n node).slots
  rw [zero] at slots
  exact Nat.ne_of_gt (held_pos found (own ▸ holds)) slots.symm

/-- The books agree after whatever is left of a move. -/
theorem Balanced.effect (b : Balanced c o s) (found : s.clients[i]? = some cl)
    (effect : Effect o s.hub cl hub' cl') (log : List Event) :
    Balanced c o ⟨hub', s.clients.set i cl', log⟩ := by
  have between : InStep o cl' := effect.inStep (b.between cl (List.mem_of_getElem? found))
  cases effect with
  | rests same =>
    refine b.quiet found between rfl rfl ?_ (.of_policy s.hub same) log
    rfl
  | verified turn =>
    obtain ⟨before, after, granted⟩ := turn.site_verify
    exact b.quiet found between (after.trans before.symm) granted rfl (.of_policy s.hub rfl) log
  | missed turn same =>
    obtain ⟨before, after, granted⟩ := turn.site_missed
    refine b.quiet found between (after.trans before.symm) granted ?_ (.of_policy s.hub same) log
    rfl
  | @served request h n policy cl' turn node able same =>
    obtain ⟨before, after, granted⟩ := turn.site_served
    have settings : SameSettings s.hub { s.hub.starting h n with policy } := ⟨rfl, rfl, same⟩
    have nodes : ({ s.hub.starting h n with policy } : Hub Policy SlotNode).nodes =
        (s.hub.setNode h (n.granting s.hub.clock)).nodes := rfl
    exact b.exchange found between node (.of_grant able s.hub.clock before after granted) nodes
      settings log
  | @released request session cl' stage turn =>
    obtain ⟨after, granted⟩ := turn.site_giveBack
    have holds : site cl = some session.nodeId := by rw [site, stage]
    obtain ⟨h, n, member, own, used⟩ := b.exists_granter found holds
    have within := (b.booked h n member.2).within
    rw [finish_of_isMember member own.symm used]
    exact b.exchange found between member.2 (.of_release within used (own ▸ holds) after granted) rfl
      ⟨rfl, rfl, rfl⟩ log

/-- **One step** keeps the books. -/
theorem Balanced.goes (b : Balanced c o s) {s' : Simulation} (goes : Goes o s i s') : Balanced c o s' := by
  rcases goes with rfl | ⟨cl, hub', cl', log, found, effect, rfl⟩
  · exact b
  · exact b.effect found effect log

theorem Balanced.stepIn (b : Balanced c o s) (m : Listing × Nat) : Balanced c o (s.stepIn o m) :=
  b.goes (stepIn_goes o m s)

end Moves

/-- **The books agree.** In every state of every run, whatever its steps are. -/
theorem Trace.balanced {c : Config} {o : Options} {α : Type} (t : Trace c o α) (valid : c.fault? = none)
    (l : List α) : Balanced c o (t.state l) :=
  t.induction (balanced_start valid o) (fun before goes => before.goes goes) l

theorem balanced_movesIn {c : Config} (valid : c.fault? = none) (o : Options)
    (order : List (Listing × Nat)) : Balanced c o ((start c o).movesIn o order) :=
  (Trace.ofMoves c o).balanced valid order

end SessionGrid.Simulation
