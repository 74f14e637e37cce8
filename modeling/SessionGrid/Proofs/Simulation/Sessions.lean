import SessionGrid.Proofs.Hub.SessionId
import SessionGrid.Proofs.Lists
import SessionGrid.Proofs.Simulation.Overlap

/-!
# Sessions that clients hold

A session that a client holds was granted to it by a node object, which the hub finds under the node
id of the session ever since (`GrantedIn`). Its number is one that its node has handed out, and no other
client holds a session of the same number and node (`Numbered`). With the books of the simulation this
gives what holds of sessions in every state (`held_sessions_occupy_slots`): they fill the slots in use,
and each of them is given back to the node object that granted it. The steps of the run may be moves, each
with all that the client asks the hub, or the beats of searches that overlap.
-/

namespace SessionGrid.Simulation

open Hub

/-- The session that a client holds. -/
def Client.session? (c : Client) : Option Session :=
  match c.stage with
  | .holding _ session => some session
  | _ => none

theorem Client.session?_eq_some_iff {c : Client} {session : Session} :
    c.session? = some session ↔ ∃ request, c.stage = .holding request session := by
  cases stage : c.stage <;> simp [session?, stage]

theorem Client.session?_eq_none_iff {c : Client} : c.session? = none ↔ site c = none := by
  cases stage : c.stage <;> simp [session?, site, stage]

theorem Turn.session?_served {o : Options} {c c' : Client} {request : Nat} {session : Session}
    (turn : Turn o c request (.ask (some session)) c') : c'.session? = some session := by
  cases turn with
  | served stage => rfl

/-! ## Numbers of sessions -/

/-- Every session that is held has a number that its node has handed out, and one client only. -/
structure Numbered (s : Simulation) : Prop where
  issued : ∀ cl ∈ s.clients, ∀ session, cl.session? = some session →
    ∃ h n number, s.hub.node? h = some n ∧ number < n.nextSession ∧ session = SlotNode.numbered n.id number
  distinct : ∀ {i j : Nat} {cl cl' : Client} {session : Session}, s.clients[i]? = some cl →
    s.clients[j]? = some cl' → cl.session? = some session → cl'.session? = some session → i = j

/-- Every node object of the first hub is in the second one, with at least as many numbers handed
out. -/
def Onward (hub hub' : Hub Policy SlotNode) : Prop :=
  ∀ h n, hub.node? h = some n →
    ∃ n', hub'.node? h = some n' ∧ n'.id = n.id ∧ n.nextSession ≤ n'.nextSession

theorem Onward.of_nodes {hub hub' : Hub Policy SlotNode} (nodes : hub'.nodes = hub.nodes) :
    Onward hub hub' := by
  intro h n node
  refine ⟨n, ?_, rfl, Nat.le_refl _⟩
  rw [node?, nodes]
  exact node

/-- A node may go on to a higher number. -/
theorem Onward.setNode {hub : Hub Policy SlotNode} {h : Handle} {n n' : SlotNode}
    (node : hub.node? h = some n) (id : n'.id = n.id) (more : n.nextSession ≤ n'.nextSession) :
    Onward hub (hub.setNode h n') := by
  intro k m stored
  by_cases same : h = k
  · subst same
    have eq : m = n := Option.some.inj (stored.symm.trans node)
    subst eq
    exact ⟨n', node?_setNode_self node n', id, more⟩
  · exact ⟨m, (node?_setNode_ne hub same n').trans stored, rfl, Nat.le_refl _⟩

/-- A session given back moves no number. -/
theorem onward_finish (hub : Hub Policy SlotNode) (session : Session) :
    Onward hub (hub.finish session).state := by
  unfold finish
  split
  · next h found =>
    unfold release
    split
    · next n node =>
      split
      · next n' released =>
        have released : n.release? session = some n' := released
        unfold SlotNode.release? at released
        split at released
        · cases released
          exact .setNode node rfl (Nat.le_refl _)
        · cases released
      · exact .of_nodes rfl
    · exact .of_nodes rfl
  · exact .of_nodes rfl

section Moves

variable {c : Config} {o : Options} {s : Simulation} {i : Nat} {cl cl' : Client}
  {hub' : Hub Policy SlotNode}

theorem Numbered.issued_onward (inv : Numbered s) (onward : Onward s.hub hub') (mem : cl ∈ s.clients)
    {session : Session} (holds : cl.session? = some session) :
    ∃ h n number, hub'.node? h = some n ∧ number < n.nextSession ∧ session = SlotNode.numbered n.id number := by
  obtain ⟨h, n, number, node, old, rfl⟩ := inv.issued cl mem session holds
  obtain ⟨n', node', id, more⟩ := onward h n node
  refine ⟨h, n', number, node', Nat.lt_of_lt_of_le old more, ?_⟩
  rw [id]

/-- A move after which the client holds no session. -/
theorem Numbered.idle (inv : Numbered s) (onward : Onward s.hub hub') (idle : cl'.session? = none)
    (log : List Event) : Numbered ⟨hub', s.clients.set i cl', log⟩ where
  issued := by
    apply forall_mem_exchange
    · intro d mem session holds
      exact inv.issued_onward onward mem holds
    · intro session holds
      cases idle.symm.trans holds
  distinct := by
    intro j k d d' session hd hd' holds holds'
    rcases getElem?_set_cases hd with ⟨-, rfl⟩ | ⟨-, old⟩
    · cases idle.symm.trans holds
    · rcases getElem?_set_cases hd' with ⟨-, rfl⟩ | ⟨-, old'⟩
      · cases idle.symm.trans holds'
      · exact inv.distinct old old' holds holds'

/-- A move that gives the client the next session of a node. -/
theorem Numbered.served (inv : Numbered s) (stocked : s.hub.Stocked c.nodes) {h : Handle}
    {n n' : SlotNode} (node : s.hub.node? h = some n) (onward : Onward s.hub hub')
    (node' : hub'.node? h = some n') (id : n'.id = n.id)
    (number : n'.nextSession = n.nextSession + 1) (holds : cl'.session? = some n.next)
    (log : List Event) : Numbered ⟨hub', s.clients.set i cl', log⟩ := by
  -- All sessions held so far have smaller numbers.
  have fresh : ∀ d ∈ s.clients, d.session? ≠ some n.next := by
    intro d mem other
    obtain ⟨k, m, old, stored, less, same⟩ := inv.issued d mem n.next other
    have ids : n.id = m.id := congrArg Session.nodeId same
    have handle : h = k := stocked.handle_inj node stored ids
    subst handle
    have eq : m = n := Option.some.inj (stored.symm.trans node)
    subst eq
    have numbers := (SlotNode.sessionId_inj (congrArg Session.id same)).2
    exact Nat.ne_of_gt less numbers
  refine ⟨?_, ?_⟩
  · apply forall_mem_exchange
    · intro d mem session other
      exact inv.issued_onward onward mem other
    · intro session own
      have eq : session = n.next := Option.some.inj (own.symm.trans holds)
      refine ⟨h, n', n.nextSession, node', ?_, ?_⟩
      · rw [number]
        exact Nat.lt_succ_self _
      · rw [eq, id]
        rfl
  · intro j k d d' session hd hd' own own'
    rcases getElem?_set_cases hd with ⟨rfl, rfl⟩ | ⟨-, old⟩
    · rcases getElem?_set_cases hd' with ⟨rfl, -⟩ | ⟨-, old'⟩
      · rfl
      · have eq : some session = some n.next := own.symm.trans holds
        exact absurd (own'.trans eq) (fresh d' (List.mem_of_getElem? old'))
    · rcases getElem?_set_cases hd' with ⟨-, rfl⟩ | ⟨-, old'⟩
      · have eq : some session = some n.next := own'.symm.trans holds
        exact absurd (own.trans eq) (fresh d (List.mem_of_getElem? old))
      · exact inv.distinct old old' own own'

/-- **One step** of a client leaves every session with its number and its holder. -/
theorem Numbered.effect (inv : Numbered s) (stocked : s.hub.Stocked c.nodes)
    (found : s.clients[i]? = some cl) (effect : Effect o s.hub cl hub' cl') (log : List Event) :
    Numbered ⟨hub', s.clients.set i cl', log⟩ := by
  cases effect with
  | @rests policy same =>
    have onward : Onward s.hub { s.hub with policy } := .of_nodes rfl
    rw [set_own found]
    exact ⟨fun d mem session holds => inv.issued_onward onward mem holds, inv.distinct⟩
  | verified turn =>
    exact inv.idle (.of_nodes rfl) (Client.session?_eq_none_iff.2 turn.site_verify.2.1) log
  | @missed request policy cl' turn same =>
    have onward : Onward s.hub { s.hub with policy } := .of_nodes rfl
    exact inv.idle onward (Client.session?_eq_none_iff.2 turn.site_missed.2.1) log
  | released stage turn =>
    exact inv.idle (onward_finish s.hub _) (Client.session?_eq_none_iff.2 turn.site_giveBack.1) log
  | @served request h n policy cl' turn node able same =>
    have onward : Onward s.hub { s.hub.starting h n with policy } := by
      have one : n.nextSession ≤ (n.granting s.hub.clock).nextSession := Nat.le_succ _
      exact Onward.setNode node rfl one
    have node' : ({ s.hub.starting h n with policy } : Hub Policy SlotNode).node? h =
        some (n.granting s.hub.clock) := node?_setNode_self node _
    exact inv.served stocked node onward node' rfl rfl turn.session?_served log

theorem Numbered.goes (inv : Numbered s) (stocked : s.hub.Stocked c.nodes) {s' : Simulation}
    (goes : Goes o s i s') : Numbered s' := by
  rcases goes with rfl | ⟨cl, hub', cl', log, found, effect, rfl⟩
  · exact inv
  · exact inv.effect stocked found effect log

end Moves

/-- After a run every session has its number and its holder. -/
theorem Trace.numbered {c : Config} {o : Options} {α : Type} (t : Trace c o α) (valid : c.fault? = none)
    (l : List α) : Numbered (t.state l) := by
  have idle : ∀ cl ∈ (start c o).clients, cl.session? = none := by
    intro cl mem
    rw [List.eq_of_mem_replicate mem]
    rfl
  have first : Numbered (start c o) := by
    refine ⟨?_, ?_⟩
    · intro cl mem session holds
      cases (idle cl mem).symm.trans holds
    · intro i j cl cl' session found _ holds _
      cases (idle cl (List.mem_of_getElem? found)).symm.trans holds
  have both : Balanced c o (t.state l) ∧ Numbered (t.state l) := by
    apply t.induction (I := fun s => Balanced c o s ∧ Numbered s)
    · exact ⟨balanced_start valid o, first⟩
    · rintro s i s' ⟨b, inv⟩ goes
      exact ⟨b.goes goes, inv.goes b.stocked goes⟩
  exact both.2

/-! ## Who granted a session -/

/-- In the step from `s` to `s'` the client is granted the session: it held none, holds this one
afterwards, and the node object `h` has granted one more. -/
structure Grants (s s' : Simulation) (i : Nat) (h : Handle) (session : Session) : Prop where
  idle : ∃ cl, s.clients[i]? = some cl ∧ cl.session? = none
  holds : ∃ cl, s'.clients[i]? = some cl ∧ cl.session? = some session
  counted : ∃ n n', s.hub.node? h = some n ∧ s'.hub.node? h = some n' ∧ n'.granted = n.granted + 1

/-- Somewhere in the steps of the list the node object `h` granted the session to the client. -/
def GrantedIn {c : Config} {o : Options} {α : Type} (t : Trace c o α) (l : List α) (i : Nat) (h : Handle)
    (session : Session) : Prop :=
  ∃ before a after, l = before ++ a :: after ∧ t.client a = i ∧
    Grants (t.state before) (t.state (before ++ [a])) i h session

section Grants

variable {c : Config} {o : Options} {α : Type} {t : Trace c o α} {l : List α} {s s' : Simulation}
  {i : Nat} {cl cl' : Client} {hub' : Hub Policy SlotNode} {h : Handle} {session : Session}

/-- What was granted stays granted, whatever comes later. -/
theorem GrantedIn.append (granted : GrantedIn t l i h session) (later : List α) :
    GrantedIn t (l ++ later) i h session := by
  obtain ⟨before, a, after, rfl, own, grants⟩ := granted
  exact ⟨before, a, after ++ later, by rw [List.append_assoc, List.cons_append], own, grants⟩

/-- Clients neither add nor remove nodes. -/
theorem Trace.find? (t : Trace c o α) (l : List α) (id : NodeId) :
    (t.state l).hub.find? id = (start c o).hub.find? id := by
  apply t.induction (I := fun s => s.hub.find? id = (start c o).hub.find? id) rfl
  intro s i s' same goes
  exact (goes.sameMembers.find? id).trans same

/-- The node that granted a session is found under the id in it. -/
theorem Grants.find? (grants : Grants s s' i h session) (goes : Goes o s i s')
    (stocked : s.hub.Stocked c.nodes) : s.hub.find? session.nodeId = some h := by
  obtain ⟨cl, found, idle⟩ := grants.idle
  obtain ⟨cl', found', holds⟩ := grants.holds
  obtain ⟨n, n', node, node', counted⟩ := grants.counted
  have quiet : ∀ d : Client, d = cl' → site d ≠ none := by
    rintro d rfl none
    cases (Client.session?_eq_none_iff.2 none).symm.trans holds
  rcases goes with rfl | ⟨d, hub', d', log, at_i, effect, rfl⟩
  · cases found.symm.trans found'
    cases idle.symm.trans holds
  · cases at_i.symm.trans found
    have same : d' = cl' := Option.some.inj ((getElem?_set_own at_i).symm.trans found')
    cases effect with
    | rests => cases (same ▸ idle).symm.trans holds
    | verified turn => exact absurd turn.site_verify.2.1 (quiet _ same)
    | missed turn => exact absurd turn.site_missed.2.1 (quiet _ same)
    | released stage turn => exact absurd turn.site_giveBack.1 (quiet _ same)
    | @served request k m policy d' turn stored able =>
      have own : session = m.next :=
        Option.some.inj (holds.symm.trans (same ▸ turn.session?_served))
      have node' : (s.hub.setNode k (m.granting s.hub.clock)).node? h = some n' := node'
      rcases node?_setNode_cases stored node' with ⟨rfl, -⟩ | ⟨-, old⟩
      · rw [own]
        exact stocked.members stored
      · -- Another node object has granted nothing in this step.
        have eq : n = n' := Option.some.inj (node.symm.trans old)
        rw [eq] at counted
        omega

/-- A client that has a session after its step, and had none before, was granted it. -/
theorem grants_of_effect (found : s.clients[i]? = some cl) (effect : Effect o s.hub cl hub' cl')
    (holds : cl'.session? = some session) (log : List Event) :
    cl.session? = some session ∨ ∃ h, Grants s ⟨hub', s.clients.set i cl', log⟩ i h session := by
  have quiet : site cl' ≠ none := fun none => by
    cases (Client.session?_eq_none_iff.2 none).symm.trans holds
  cases effect with
  | rests => exact .inl holds
  | verified turn => exact absurd turn.site_verify.2.1 quiet
  | missed turn => exact absurd turn.site_missed.2.1 quiet
  | released stage turn => exact absurd turn.site_giveBack.1 quiet
  | @served request h n policy cl' turn node able =>
    have idle : cl.session? = none := Client.session?_eq_none_iff.2 turn.site_served.1
    have counted : (n.granting s.hub.clock).granted = n.granted + 1 := rfl
    exact .inr ⟨h, ⟨cl, found, idle⟩, ⟨cl', getElem?_set_own found, holds⟩,
      ⟨n, _, node, node?_setNode_self node _, counted⟩⟩

/-- Every session that is held was granted to its client somewhere in the steps so far. -/
theorem exists_grantedIn (t : Trace c o α) (found : (t.state l).clients[i]? = some cl)
    (holds : cl.session? = some session) : ∃ h, GrantedIn t l i h session := by
  induction l using List.reverseRecOn generalizing cl with
  | nil =>
    rw [t.first] at found
    rw [List.eq_of_mem_replicate (List.mem_of_getElem? found)] at holds
    cases holds
  | append_singleton l a ih =>
    have earlier : ∀ {cl}, (t.state l).clients[i]? = some cl → cl.session? = some session →
        ∃ h, GrantedIn t (l ++ [a]) i h session := by
      intro cl found holds
      obtain ⟨h, granted⟩ := ih found holds
      exact ⟨h, granted.append [a]⟩
    rcases t.goes l a with same | ⟨d, hub', d', log, client, effect, after⟩
    · rw [same] at found
      exact earlier found holds
    · have now := found
      rw [after] at now
      rcases getElem?_set_cases now with ⟨rfl, rfl⟩ | ⟨-, old⟩
      · rcases grants_of_effect client effect holds log with held | ⟨h, grants⟩
        · exact earlier client held
        · exact ⟨h, l, a, [], rfl, rfl, after ▸ grants⟩
      · exact earlier old holds

/-- The node that granted a session is found under the node id of the session ever since. -/
theorem GrantedIn.find? (granted : GrantedIn t l i h session) (valid : c.fault? = none) :
    (t.state l).hub.find? session.nodeId = some h := by
  obtain ⟨before, a, after, rfl, rfl, grants⟩ := granted
  have stocked := (t.balanced valid before).stocked
  rw [t.find?, ← t.find? before]
  exact grants.find? (t.goes before a) stocked

end Grants

/-! ## Sessions given back -/

/-- In `hub'` the node object `h`, which is `n` in `hub`, has one slot less in use, and nothing else is
different. -/
structure OneEnded (hub : Hub Policy SlotNode) (h : Handle) (n : SlotNode)
    (hub' : Hub Policy SlotNode) : Prop where
  node : hub'.node? h = some { n with active := n.active - 1 }
  /-- One slot less is in use; the count does not wrap. -/
  active : (n.active - 1).toNat + 1 = n.active.toNat
  others : ∀ k, k ≠ h → hub'.node? k = hub.node? k
  rest : { hub' with nodes := hub.nodes } = hub

/-- The client with the given index, which holds the session, gives it back in its next move: the
release succeeds and frees one slot of the node object `h`. -/
structure GivesBack (o : Options) (s : Simulation) (i : Nat) (session : Session) (h : Handle)
    (n : SlotNode) : Prop where
  succeeds : (s.hub.finish session).answer = some true
  move : ∀ l, (s.stepIn o (l, i)).hub = (s.hub.finish session).state
  frees : OneEnded s.hub h n (s.hub.finish session).state

/-- A session that is held can be given back to its node. -/
theorem Balanced.givesBack {c : Config} {o : Options} {s : Simulation} (b : Balanced c o s) {i : Nat}
    {cl : Client} {session : Session} (found : s.clients[i]? = some cl)
    (holds : cl.session? = some session) :
    ∃ h n, s.hub.IsMember h n ∧ n.id = session.nodeId ∧ GivesBack o s i session h n := by
  obtain ⟨request, stage⟩ := Client.session?_eq_some_iff.1 holds
  have site : site cl = some session.nodeId := by rw [site, stage]
  obtain ⟨h, n, member, own, used⟩ := b.exists_granter found site
  have finished := finish_of_isMember member own.symm used
  refine ⟨h, n, member, own, ?_, fun l => ?_, ?_⟩
  · rw [finished]
  · simp only [Simulation.stepIn, found, Client.actIn, stage]
  · rw [finished]
    exact
      { node := node?_setNode_self member.2 _
        active := SlotNode.releasing_active used
        others := fun k ne => node?_setNode_ne s.hub (Ne.symm ne) _
        rest := rfl }

/-- What holds of sessions in the state `s` of a run in which node objects `granted` sessions to clients. -/
structure SlotsHeld (o : Options) (s : Simulation) (granted : Nat → Handle → Session → Prop) : Prop where
  /-- A node has as many slots in use as there are clients that hold a session of it, and no more than it
  has. -/
  slots : ∀ h n, s.hub.node? h = some n →
    n.active.toNat = held n.id s.clients ∧ n.active ≤ n.maxSessions
  /-- A session that is held is found, by its node id, at the node object that granted it and at no other,
  where its client frees one slot when it gives it back. -/
  own : ∀ i cl session, s.clients[i]? = some cl → cl.session? = some session →
    ∃ h n, s.hub.find? session.nodeId = some h ∧ s.hub.node? h = some n ∧
      (∀ k, granted i k session ↔ k = h) ∧ GivesBack o s i session h n
  /-- No two clients hold sessions of one id. -/
  distinct : ∀ (i j : Nat) (cl cl' : Client) (session session' : Session), s.clients[i]? = some cl →
    s.clients[j]? = some cl' → cl.session? = some session → cl'.session? = some session' →
    session.id = session'.id → i = j

theorem Trace.slotsHeld {c : Config} {o : Options} {α : Type} (t : Trace c o α) (valid : c.fault? = none)
    (l : List α) : SlotsHeld o (t.state l) (GrantedIn t l) := by
  have b : Balanced c o (t.state l) := t.balanced valid l
  have numbers : Numbered (t.state l) := t.numbered valid l
  refine ⟨?_, ?_, ?_⟩
  · intro h n node
    exact ⟨(b.booked h n node).slots, (b.booked h n node).within⟩
  · intro i cl session found holds
    obtain ⟨h, n, member, own, back⟩ := b.givesBack found holds
    have bound : (t.state l).hub.find? session.nodeId = some h := own ▸ member.1
    refine ⟨h, n, bound, member.2, fun k => ⟨?_, ?_⟩, back⟩
    · intro granted
      exact Option.some.inj ((granted.find? valid).symm.trans bound)
    · rintro rfl
      obtain ⟨j, granted⟩ := exists_grantedIn t found holds
      have same : j = k := Option.some.inj ((granted.find? valid).symm.trans bound)
      exact same ▸ granted
  · intro i j cl cl' session session' hi hj holds holds' same
    obtain ⟨h, n, number, -, -, rfl⟩ := numbers.issued cl (List.mem_of_getElem? hi) _ holds
    obtain ⟨k, m, number', -, -, rfl⟩ := numbers.issued cl' (List.mem_of_getElem? hj) _ holds'
    -- Equal ids are equal numbers of nodes with equal ids, hence equal sessions.
    obtain ⟨ids, numbersEq⟩ := SlotNode.id_numbered_inj.1 same
    rw [← ids, ← numbersEq] at holds'
    exact numbers.distinct hi hj holds holds'

/-- **Sessions and slots.** In every state of the simulation of a configuration that was read from a
text, in whatever orders the clients moved and the members were listed (`step` lists them in order of
id): a node has as many slots in use as there are clients that hold a session of it, and no more than it
has; a session that is held is found, by its node id, at the node object that granted it and at no other,
where its client frees one slot when it gives it back; and no two clients hold sessions of one id. All of
this is so as well after each beat of a run in which searches overlap, where a client that holds a session
gives it back in one beat. -/
theorem held_sessions_occupy_slots {text : String} {c : Config}
    (accepted : Config.ofTomlText text = .ok c) (o : Options) :
    (∀ order,
      let s := (start c o).movesIn o order
      (∀ i, s.stepIn o (.byId, i) = s.step o i) ∧ SlotsHeld o s (GrantedIn (.ofMoves c o) order)) ∧
    ∀ beats,
      let t := (Overlap.start c o).run o beats
      SlotsHeld o t.sim (GrantedIn (Overlap.trace c o) beats) ∧
        ∀ (b : Beat) cl session, t.sim.clients[b.client]? = some cl → cl.session? = some session →
          (t.step o b).sim = t.sim.stepIn o (b.listing, b.client) := by
  have valid : c.fault? = none := Config.fault?_of_ofTomlText accepted
  refine ⟨fun order => ⟨fun _ => rfl, (Trace.ofMoves c o).slotsHeld valid order⟩, fun beats => ?_⟩
  refine ⟨(Overlap.trace c o).slotsHeld valid beats, fun b cl session found holds => ?_⟩
  obtain ⟨request, stage⟩ := Client.session?_eq_some_iff.1 holds
  simp only [Overlap.step, found, stage]

/-- A text that declares one node of two slots, which offers whatever asks for nothing. -/
def oneNodeText : String :=
  "[[node]]\nid = \"a\"\nmax_sessions = 2\ncapabilities = [\x7b\x7d]\n"

def oneNode : Config :=
  { nodes := [{ id := ⟨"a"⟩, maxSessions := 2, capabilities := [Capabilities.empty] }] }

/-- Two clients fill the two slots of a node: after two moves each they hold sessions of different ids,
and the move after that gives the session of the second one back. -/
theorem held_sessions_occupy_slots_two_clients :
    let o : Options :=
      { clients := 2
        requests := 1
        requested := Capabilities.empty
        hold := 1
        maxAttempts := 1
        backoff := 1 }
    let order : List (Listing × Nat) := [0, 0, 1, 1].map fun i => (.byId, i)
    let s := (start oneNode o).movesIn o order
    let held : Session := ⟨"a#1", ⟨"a"⟩⟩
    Config.ofTomlText oneNodeText = .ok oneNode ∧
      s.clients.map Client.session? = [some ⟨"a#0", ⟨"a"⟩⟩, some held] ∧
      ∃ h n, s.hub.find? ⟨"a"⟩ = some h ∧ GrantedIn (.ofMoves oneNode o) order 1 h held ∧
        GivesBack o s 1 held h n := by
  intro o order s held
  have accepted : Config.ofTomlText oneNodeText = .ok oneNode := by cbv
  have sessions : s.clients.map Client.session? = [some ⟨"a#0", ⟨"a"⟩⟩, some held] := by
    decide +kernel
  have second : (s.clients.map Client.session?)[1]? = some (some held) := by
    rw [sessions]
    rfl
  rw [List.getElem?_map] at second
  obtain ⟨cl, found, holds⟩ := Option.map_eq_some_iff.1 second
  obtain ⟨-, slots⟩ := (held_sessions_occupy_slots accepted o).1 order
  obtain ⟨h, n, bound, -, granted, gives⟩ := slots.own 1 cl held found holds
  exact ⟨accepted, sessions, h, n, bound, (granted h).2 rfl, gives⟩

end SessionGrid.Simulation
