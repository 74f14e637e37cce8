import SessionGrid.Proofs.Hub.Fleet

/-!
# Shut down for good

A teardown counts as a shutdown for the node objects that are stored when it is called and for no others,
so the shutdowns of a node object are the teardowns during its memberships. They never become fewer,
whatever is added or removed later, and a node that was shut down starts no session. After a teardown
the hub therefore serves no request until a node object that was never shut down is taken in, although
it answers all questions about capabilities as if there had been no teardown
(`teardown_stops_members`).
-/

namespace SessionGrid.Hub

/-! ## Runs -/

/-- Calls that make nodes fresh and shut none down but by a teardown. -/
def Call.IsRegular : Call SlotNode → Prop
  | .create n => n.IsFresh
  | .shutDown _ => False
  | _ => True

def Call.isTeardown {N : Type} : Call N → Bool
  | .teardown => true
  | _ => false

/-- The teardowns of a run that find the node object `h` stored. -/
def sweeps (hub : Hub Policy SlotNode) (h : Handle) : List (Listing × Call SlotNode) → Nat
  | [] => 0
  | c :: cs =>
    (if c.2.isTeardown ∧ hub.Stores h then 1 else 0) + (hub.callIn c).state.sweeps h cs

/-- The call takes in a node object that was never shut down. -/
def TakesInRunning (hub : Hub Policy SlotNode) (c : Call SlotNode) : Prop :=
  ∃ h n, c = .add h ∧ (hub.add h).answer = true ∧ hub.node? h = some n ∧ n.shutDowns = 0

/-- No call of a run takes in a node object that was never shut down. -/
def TakesInNone (hub : Hub Policy SlotNode) : List (Listing × Call SlotNode) → Prop
  | [] => True
  | c :: cs => ¬ hub.TakesInRunning c.2 ∧ (hub.callIn c).state.TakesInNone cs

section Runs

variable {hub : Hub Policy SlotNode} {h : Handle} {n : SlotNode}

/-! ## Shutdowns are teardowns -/

/-- How often the node object under a handle was shut down, never before there is one. -/
def shutDownsAt (hub : Hub Policy SlotNode) (h : Handle) : Nat :=
  (hub.node? h).elim 0 SlotNode.shutDowns

theorem not_stores_of_none (none : hub.node? h = none) : ¬ hub.Stores h := by
  rintro stores
  obtain ⟨n, -, node⟩ := stores_iff.1 stores
  rw [none] at node
  cases node

/-- Among regular calls only a teardown shuts a member down, and each member once. -/
theorem stops_of_isRegular {c : Call SlotNode} (regular : c.IsRegular) :
    hub.stops h c = if c.isTeardown ∧ hub.Stores h then 1 else 0 := by
  cases c with
  | teardown => simp [stops, Call.isTeardown]
  | shutDown k => exact regular.elim
  | _ => exact (if_neg fun both => Bool.false_ne_true both.1).symm

/-- **One call.** A member is shut down once more by a teardown. -/
theorem Coherent.shutDownsAt_callIn (inv : hub.Coherent) {c : Listing × Call SlotNode}
    (regular : c.2.IsRegular) (h : Handle) :
    (hub.callIn c).state.shutDownsAt h =
      hub.shutDownsAt h + if c.2.isTeardown ∧ hub.Stores h then 1 else 0 := by
  have fate := (callIn_nodeStep hub c).fate inv h
  show ((hub.callIn c).state.nodes[h]?).elim 0 SlotNode.shutDowns = _
  rw [shutDownsAt]
  generalize (hub.callIn c).state.nodes[h]? = now at fate
  cases node : hub.node? h with
  | some n =>
    rw [node] at fate
    cases fate with
    | lives becomes shutDowns => exact stops_of_isRegular (h := h) regular ▸ shutDowns
  | none =>
    -- Nothing is stored without a node object, and one that is made now was never shut down.
    rw [if_neg fun both => not_stores_of_none node both.2]
    rw [node] at fate
    cases fate with
    | absent => rfl
    | made create =>
      rw [create] at regular
      exact congrArg SlotNode.shutDowns regular

/-- The shutdowns of a node object are the teardowns during its memberships. -/
theorem Coherent.shutDownsAt_afterIn (inv : hub.Coherent) {calls : List (Listing × Call SlotNode)}
    (regular : ∀ c ∈ calls, c.2.IsRegular) (h : Handle) :
    (hub.afterIn calls).shutDownsAt h = hub.shutDownsAt h + hub.sweeps h calls := by
  induction calls generalizing hub with
  | nil => rfl
  | cons c cs ih =>
    obtain ⟨first, rest⟩ := List.forall_mem_cons.1 regular
    rw [afterIn_cons, ih (inv.callIn c) rest, inv.shutDownsAt_callIn first, sweeps, Nat.add_assoc]

/-! ## No way back -/

/-- A node that was shut down once serves nothing. -/
theorem not_able_of_shutDown (down : 0 < n.shutDowns) (requested : Capabilities) :
    ¬ n.Able requested :=
  fun able => of_decide_eq_false able.running down

/-- A node object that was shut down starts no session in any run. -/
theorem Coherent.stays_shutDown (inv : hub.Coherent) (node : hub.node? h = some n)
    (down : 0 < n.shutDowns) (calls : List (Listing × Call SlotNode)) :
    ∃ m, (hub.afterIn calls).node? h = some m ∧ 0 < m.shutDowns ∧ m.granted = n.granted ∧
      m.active ≤ n.active := by
  induction calls generalizing hub n with
  | nil => exact ⟨n, node, down, rfl, UInt32.le_refl _⟩
  | cons c cs ih =>
    obtain ⟨k, node', becomes, shutDowns⟩ := inv.callIn_stays c node
    obtain ⟨granted, active⟩ := becomes.of_shutDown down
    have down' : 0 < k.shutDowns := by omega
    obtain ⟨m, last, down'', granted', active'⟩ := ih (inv.callIn c) node' down'
    exact ⟨m, last, down'', granted'.trans granted, UInt32.le_trans active' active⟩

/-! ## Hubs without a running member -/

/-- Every member was shut down. -/
def NoneRunning (hub : Hub Policy SlotNode) : Prop :=
  ∀ h n, hub.IsMember h n → 0 < n.shutDowns

/-- Who is stored after a change was stored before or was taken in. -/
theorem MembershipStep.stored {hub' : Hub Policy SlotNode} {changes : List Change}
    (step : MembershipStep hub changes hub') {id : NodeId} (found : hub'.find? id = some h) :
    hub.find? id = some h ∨ Change.added id h true ∈ changes := by
  cases step with
  | other same => exact .inl (same.find? id ▸ found)
  | accepted own free =>
    rw [find?_bind] at found
    split at found
    · next same =>
      cases found
      subst same
      exact .inr (List.mem_singleton.2 rfl)
    · exact .inl found
  | removed bound =>
    rw [find?_unbind] at found
    split at found
    · cases found
    · exact .inl found
  | ignored | missing => exact .inl found

/-- Only an addition that was accepted brings a member. -/
theorem add_of_mem_changes {c : Call SlotNode} {id : NodeId}
    (mem : Change.added id h true ∈ hub.changes c) :
    c = .add h ∧ (hub.add h).answer = true ∧ hub.idAt h = some id := by
  cases c with
  | add k =>
    obtain ⟨id', own, same⟩ := Option.map_eq_some_iff.1 (Option.mem_toList.1 mem)
    obtain ⟨rfl, rfl, accepted⟩ := Change.added.inj same
    exact ⟨rfl, accepted, own⟩
  | _ => simp [changes] at mem

/-- Unless a running node is taken in, none is a member afterwards. -/
theorem NoneRunning.callIn (none : hub.NoneRunning) (inv : hub.Coherent)
    {c : Listing × Call SlotNode} (quiet : ¬ hub.TakesInRunning c.2) :
    (hub.callIn c).state.NoneRunning := by
  intro h m member
  -- A member was one before the call or is taken in by it; in both cases it was shut down before.
  have before : ∃ n, hub.node? h = some n ∧ 0 < n.shutDowns := by
    rcases (callIn_step hub c).stored member.1 with old | new
    · obtain ⟨n, member⟩ := inv.isMember_of_find? old
      exact ⟨n, member.2, none h n member⟩
    · obtain ⟨add, accepted, own⟩ := add_of_mem_changes new
      obtain ⟨n, node, -⟩ := idAt_eq_some_iff.1 own
      refine ⟨n, node, Nat.pos_of_ne_zero fun running => quiet ?_⟩
      exact ⟨h, n, add, accepted, node, running⟩
  obtain ⟨n, node, down⟩ := before
  obtain ⟨m', node', -, shutDowns⟩ := inv.callIn_stays c node
  have same : m' = m := Option.some.inj (node'.symm.trans member.2)
  subst same
  omega

theorem NoneRunning.afterIn (none : hub.NoneRunning) (inv : hub.Coherent)
    {calls : List (Listing × Call SlotNode)} (quiet : hub.TakesInNone calls) :
    (hub.afterIn calls).NoneRunning ∧ (hub.afterIn calls).Coherent := by
  induction calls generalizing hub with
  | nil => exact ⟨none, inv⟩
  | cons c cs ih => exact ih (none.callIn inv quiet.1) (inv.callIn c) quiet.2

/-- After a teardown no member is running. -/
theorem Coherent.noneRunning_teardown (inv : hub.Coherent) : hub.teardown.state.NoneRunning := by
  intro h m member
  have found := (sameMembers_teardown hub).find? (Node.id m) ▸ member.1
  obtain ⟨n, stored⟩ := inv.isMember_of_find? found
  have swept := member.2
  rw [inv.node?_teardown, if_pos (inv.mem_snapshot.2 (stores_iff.2 ⟨n, stored⟩)), stored.2] at swept
  cases swept
  exact Nat.succ_pos n.shutDowns

/-- Without a running member no request is served. -/
theorem NoneRunning.newSessionIn (none : hub.NoneRunning) (inv : hub.Coherent) (l : Listing)
    (requested : Capabilities) : (hub.newSessionIn l requested).answer = .none := by
  rw [← Option.not_isSome_iff_eq_none, inv.newSessionIn_isSome_iff]
  rintro ⟨h, n, member, able⟩
  exact not_able_of_shutDown (none h n member) requested able

end Runs

/-! ## Teardowns -/

/-- **Shut down for good.** In every run over nodes that start fresh, for both policies and whatever the
order in which members are listed, which for plain calls is that of their ids:

* a node object was shut down once for each teardown that found it stored;
* a teardown changes the count of shutdowns of stored node objects, and neither the members, nor slots
  in use, nor the capabilities of the hub;
* a node object that a teardown found stored is never granted from again and never uses more slots
  than now, whatever calls follow;
* after a teardown every request is missed as long as no node object is taken in that was never
  shut down;
* all the while the hub has the same capabilities and gives the same answer when a request is to be
  verified as it would without the teardown. -/
theorem teardown_stops_members (strict : Bool) (policy : Policy)
    (calls : List (Listing × Call SlotNode)) (regular : ∀ c ∈ calls, c.2.IsRegular) :
    let start : Hub Policy SlotNode := empty strict policy
    let hub := start.afterIn calls
    let swept := hub.teardown.state
    (∀ plain : List (Call SlotNode), start.afterIn (plain.map (.byId, ·)) = start.after plain) ∧
      (∀ h n, hub.node? h = some n → n.shutDowns = start.sweeps h calls) ∧
      (swept.members = hub.members ∧
        (∀ h, swept.node? h = (hub.node? h).map fun n =>
          if hub.Stores h then { n with shutDowns := n.shutDowns + 1 } else n) ∧
        ∀ requested, swept.hasCapability requested = hub.hasCapability requested) ∧
      (∀ h n, hub.node? h = some n → 0 < start.sweeps h calls → ∀ later,
        ∃ m, (hub.afterIn later).node? h = some m ∧ m.granted = n.granted ∧ m.active ≤ n.active ∧
          ∀ requested, ((hub.afterIn later).tryGrant h requested).answer = none) ∧
      (∀ later, swept.TakesInNone later → ∀ l requested,
        ((swept.afterIn later).newSessionIn l requested).answer = none) ∧
      ∀ later requested,
        (swept.afterIn later).hasCapability requested = (hub.afterIn later).hasCapability requested ∧
          (swept.afterIn later).verify requested = (hub.afterIn later).verify requested := by
  intro start hub swept
  have inv : hub.Coherent := coherent_afterIn strict policy calls
  have sameFleet : SameFleet swept hub := sameFleet_teardown hub
  have counted : ∀ h n, hub.node? h = some n → n.shutDowns = start.sweeps h calls := by
    intro h n node
    have total := (coherent_empty strict policy).shutDownsAt_afterIn regular h
    have here : hub.shutDownsAt h = n.shutDowns := by rw [shutDownsAt, node, Option.elim_some]
    have none : start.shutDownsAt h = 0 := rfl
    rw [← here]
    exact total.trans (by rw [none, Nat.zero_add])
  refine ⟨fun _ => rfl, counted, ⟨sameFleet.members, ?_, sameFleet.hasCapability⟩, ?_, ?_, ?_⟩
  · intro h
    show hub.teardown.state.node? h = _
    rw [inv.node?_teardown]
    by_cases stored : hub.Stores h
    · rw [if_pos (inv.mem_snapshot.2 stored)]
      simp only [if_pos stored]
      rfl
    · rw [if_neg fun mem => stored (inv.mem_snapshot.1 mem)]
      simp only [if_neg stored, Option.map_id']
  · intro h n node sweptOnce later
    rw [← counted h n node] at sweptOnce
    obtain ⟨m, node', down, granted, active⟩ := inv.stays_shutDown node sweptOnce later
    refine ⟨m, node', granted, active, fun requested => ?_⟩
    have unable : ∀ k, (hub.afterIn later).node? h = some k → ¬ k.Able requested := by
      intro k current
      have same : m = k := Option.some.inj (node'.symm.trans current)
      exact same ▸ not_able_of_shutDown down requested
    rw [tryGrant_of_not_able unable]
  · intro later quiet l requested
    have invSwept : swept.Coherent := inv.step (.other (sameMembers_teardown hub))
    obtain ⟨none, invLater⟩ := inv.noneRunning_teardown.afterIn invSwept quiet
    exact none.newSessionIn invLater l requested
  · intro later requested
    have same := sameFleet.afterIn later
    exact ⟨same.hasCapability requested, same.verify requested⟩

/-- A node that is removed and added again between two teardowns was shut down twice, and its one session
stays the last. -/
theorem teardown_stops_members_added_again :
    let node : SlotNode := { id := ⟨"a"⟩, maxSessions := 2, offers := [Capabilities.empty] }
    let plain : List (Call SlotNode) :=
      [.create node, .add 0, .newSession .empty, .teardown, .remove 0, .add 0, .teardown]
    let calls := plain.map fun c => (Listing.byId, c)
    let start : Hub Policy SlotNode := empty true (.roundRobin 0)
    (∀ c ∈ calls, c.2.IsRegular) ∧
      (∃ n, (start.afterIn calls).node? 0 = some n ∧ n.shutDowns = 2 ∧ n.granted = 1) ∧
      ∀ l requested, ((start.afterIn calls).teardown.state.newSessionIn l requested).answer = none := by
  intro node plain calls start
  have regular : ∀ c ∈ calls, c.2.IsRegular := by
    simp [calls, plain, node, Call.IsRegular, SlotNode.IsFresh, SlotNode.declaration, NodeConfig.node]
  obtain ⟨-, counted, -, -, missed, -⟩ :=
    teardown_stops_members true (.roundRobin 0) calls regular
  have granted : ((start.afterIn calls).node? 0).map (·.granted) = some 1 := by decide +kernel
  obtain ⟨n, present, once⟩ := Option.map_eq_some_iff.1 granted
  have twice : start.sweeps 0 calls = 2 := by decide +kernel
  exact ⟨regular, ⟨n, present, (counted 0 n present).trans twice, once⟩, missed [] trivial⟩

end SessionGrid.Hub
