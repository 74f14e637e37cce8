import SessionGrid.Proofs.Hub.Verification
import SessionGrid.Proofs.Simulation.Accounts

/-!
# Rejected at all times or never

Clients change neither the members of a hub nor what these offer, so a request that passes once passes
every time (`Balanced.verify_eq_ok_iff`). If some declared node offers it, no request is rejected, and
the client that asks first finds all slots free, so that one at least is granted (`Fruitful`). If no
node offers it, none is granted, and each of them ends the same way: rejected by a strict hub, missed
with any other (`Barred`). So says the report of every run (`rejection_all_or_nothing`), and since nothing
in this needs that a search is one step, also the report of a run in which searches overlap.
-/

namespace SessionGrid.Simulation

open Hub

section

variable {c : Config} {o : Options} {s : Simulation}

/-! ## What the hub offers -/

theorem Balanced.isMember_declared (b : Balanced c o s) {h : Handle} {n : SlotNode}
    (member : s.hub.IsMember h n) : n.declaration ∈ c.nodes := by
  rw [← b.stocked.nodes]
  exact List.mem_map_of_mem (List.mem_of_getElem? member.2)

/-- What the members offer is what was declared. -/
theorem Balanced.offers_iff (b : Balanced c o s) (requested : Capabilities) :
    s.hub.Offers requested ↔ ∃ d ∈ c.nodes, d.node.advertises requested = true := by
  constructor
  · rintro ⟨h, n, member, advertises⟩
    exact ⟨n.declaration, b.isMember_declared member, advertises⟩
  · rintro ⟨d, mem, advertises⟩
    rw [← b.stocked.nodes] at mem
    obtain ⟨n, stored, rfl⟩ := List.mem_map.1 mem
    obtain ⟨h, node⟩ := List.mem_iff_getElem?.1 stored
    exact ⟨h, n, b.stocked.isMember node, advertises⟩

/-- A request passes at all times or never. -/
theorem Balanced.verify_eq_ok_iff (b : Balanced c o s) (requested : Capabilities) :
    (s.hub.verify requested).1 = .ok () ↔
      (c.strict = true → ∃ d ∈ c.nodes, d.node.advertises requested = true) := by
  rw [Hub.verify_eq_ok_iff, b.stocked.coherent.hasCapability_iff, b.strict, ← b.offers_iff]
  rfl

theorem Balanced.isMember_roomy (b : Balanced c o s) (valid : c.fault? = none) {h : Handle}
    {n : SlotNode} (member : s.hub.IsMember h n) : n.maxSessions ≠ 0 :=
  ((Config.fault?_eq_none_iff.1 valid).1 _ (b.isMember_declared member)).roomy

/-- While no client holds a session, whatever is offered can be served. -/
theorem Balanced.able_of_idle (b : Balanced c o s) (valid : c.fault? = none)
    (idle : ∀ cl ∈ s.clients, site cl = none) (offers : s.hub.Offers o.requested) :
    ∃ h n, s.hub.IsMember h n ∧ n.Able o.requested := by
  obtain ⟨h, n, member, advertises⟩ := offers
  obtain ⟨running, slots, -, -⟩ := b.booked h n member.2
  have unused : n.active = 0 := UInt32.toNat_inj.1 (slots.trans (held_eq_zero idle))
  have running : n.isShutDown = false := by
    rw [SlotNode.isShutDown, running]
    rfl
  have free : n.active < n.maxSessions := by
    rw [unused]
    exact UInt32.pos_iff_ne_zero.2 (b.isMember_roomy valid member)
  exact ⟨h, n, member, SlotNode.able_iff.2 ⟨running, free, advertises⟩⟩

/-! ## Requests that some node offers -/

/-- What was granted to a client stays granted. -/
theorem Effect.granted_le {hub hub' : Hub Policy SlotNode} {cl cl' : Client}
    (effect : Effect o hub cl hub' cl') : cl.tally.granted ≤ cl'.tally.granted := by
  cases effect with
  | rests same => exact Nat.le_refl _
  | verified turn => exact Nat.le_of_eq turn.site_verify.2.2.symm
  | missed turn same => exact Nat.le_of_eq turn.site_missed.2.2.symm
  | served turn node able same => exact turn.site_served.2.2 ▸ Nat.le_succ _
  | released stage turn => exact Nat.le_of_eq turn.site_giveBack.2.symm

/-- A request that passes is not rejected. -/
theorem Effect.unrejected {hub hub' : Hub Policy SlotNode} {cl cl' : Client}
    (effect : Effect o hub cl hub' cl') (passes : (hub.verify o.requested).1 = .ok ())
    (before : cl.tally.rejected = 0) : cl'.tally.rejected = 0 := by
  cases effect with
  | rests same => exact before
  | verified turn =>
    rw [passes] at turn
    cases turn with
    | verified stage more => exact before
  | missed turn same =>
    cases turn with
    | gaveUp stage last | retried stage more => exact before
  | served turn node able same =>
    cases turn with
    | served stage => exact before
  | released stage turn =>
    cases turn with
    | released stage => exact before

/-- Nothing came of a request of the client yet. -/
def Untouched (cl : Client) : Prop :=
  cl.tally = {} ∧ site cl = none

/-- Either no client was served yet, none has missed a session, and who refused one still would, or one
of them was served. -/
def Fruitful (o : Options) (t : Overlap) : Prop :=
  ((∀ cl ∈ t.sim.clients, Untouched cl) ∧
      ∀ i q, t.search i = some q → t.sim.hub.NoneAble o.requested q.refused) ∨
    0 < (t.sim.clients.map (·.tally.granted)).sum

section Step

variable {t : Overlap}

/-- A move that is no search leaves untouched clients untouched and all node objects as they are. -/
theorem untouched_stepIn {m : Listing × Nat} {cl : Client} (passes : (s.hub.verify o.requested).1 = .ok ())
    (found : s.clients[m.2]? = some cl) (idle : ∀ request misses, cl.stage ≠ .asking request misses)
    (before : ∀ cl ∈ s.clients, Untouched cl) :
    (∀ cl ∈ (s.stepIn o m).clients, Untouched cl) ∧ (s.stepIn o m).hub.nodes = s.hub.nodes := by
  have own : Untouched cl := before cl (List.mem_of_getElem? found)
  rcases stepIn_cases o m s with ⟨-, same⟩ | ⟨d, hub', d', log, found', acts, after⟩
  · rw [same]
    exact ⟨before, rfl⟩
  · cases found.symm.trans found'
    rw [after]
    cases acts with
    | finished stage all => exact ⟨forall_mem_exchange before own, rfl⟩
    | verified stage more passed => exact ⟨forall_mem_exchange before ⟨own.1, rfl⟩, rfl⟩
    | rejected stage more refused => cases passes.symm.trans refused
    | served stage first => exact absurd stage (idle _ _)
    | gaveUp stage none last => exact absurd stage (idle _ _)
    | retried stage none more => exact absurd stage (idle _ _)
    | released stage =>
      have empty := own.2
      rw [site, stage] at empty
      cases empty

/-- **One beat.** The first search finds all slots free, however many beats it takes. -/
theorem Fruitful.step (fruitful : Fruitful o t) (b : Balanced c o t.sim) (underway : t.Underway)
    (valid : c.fault? = none) (offers : t.sim.hub.Offers o.requested) (beat : Beat) :
    Fruitful o (t.step o beat) := by
  have steps := Overlap.step_steps o t beat
  generalize t.step o beat = t' at steps
  rcases fruitful with ⟨untouched, refusing⟩ | served
  · obtain ⟨h, n, member, able⟩ :=
      b.able_of_idle valid (fun cl mem => (untouched cl mem).2) offers
    cases steps with
    | nobody out => exact .inl ⟨untouched, refusing⟩
    | moved found idle =>
      have passes := congrArg Prod.fst (offers.verify b.stocked.coherent)
      obtain ⟨clients, nodes⟩ := untouched_stepIn (m := (beat.listing, beat.client)) passes found idle untouched
      refine .inl ⟨clients, fun i q now k mem n node => ?_⟩
      rw [node?, nodes] at node
      exact refusing i q now k mem n node
    | arranged found stage first =>
      refine .inl ⟨untouched, fun i q now => ?_⟩
      rcases eq_or_ne i beat.client with rfl | other
      · cases (Function.update_self beat.client _ t.search).symm.trans now
        exact List.forall_mem_nil _
      · exact refusing i q ((Function.update_of_ne other _ _).symm.trans now)
    | @refused cl request misses k refused rest found stage next unable =>
      refine .inl ⟨untouched, fun i q now => ?_⟩
      rcases eq_or_ne i beat.client with rfl | other
      · cases (Function.update_self beat.client _ t.search).symm.trans now
        exact List.forall_mem_append.2 ⟨refusing _ _ next, List.forall_mem_singleton.2 unable⟩
      · exact refusing i q ((Function.update_of_ne other _ _).symm.trans now)
    | @served cl cl' request misses k n refused rest found stage next node able turn =>
      have sum := sum_exchange (·.tally.granted) found cl'
      have granted := turn.site_served.2.2
      right
      dsimp only at sum ⊢
      omega
    | missed found stage all turn gaveUp =>
      -- The search has asked all members, and one of them is able.
      obtain ⟨k, mem, handle⟩ := (underway _ _ all).exists_asked member
      rw [List.append_nil] at mem
      exact absurd able (refusing _ _ all k mem n (handle ▸ member.2))
  · right
    rcases steps.goes with same | ⟨cl, hub', cl', log, found, effect, after⟩
    · rw [same]
      exact served
    · have sum := sum_exchange (·.tally.granted) found cl'
      have more := effect.granted_le
      rw [after]
      dsimp only at sum ⊢
      omega

end Step

/-- The books agree, no request was rejected, and the first one that was asked for was granted. -/
structure Welcome (c : Config) (o : Options) (t : Overlap) : Prop where
  balanced : Balanced c o t.sim
  underway : t.Underway
  unrejected : ∀ cl ∈ t.sim.clients, cl.tally.rejected = 0
  fruitful : Fruitful o t

/-- What is known of an offered request is kept by every beat. -/
theorem Welcome.step {t : Overlap} (w : Welcome c o t) (valid : c.fault? = none)
    (offered : ∃ d ∈ c.nodes, d.node.advertises o.requested = true) (beat : Beat) :
    Welcome c o (t.step o beat) := by
  have b := w.balanced
  have offers : t.sim.hub.Offers o.requested := (b.offers_iff o.requested).2 offered
  have passes : (t.sim.hub.verify o.requested).1 = .ok () :=
    (b.verify_eq_ok_iff o.requested).2 fun _ => offered
  have steps := Overlap.step_steps o t beat
  refine ⟨b.goes steps.goes, steps.underway b.stocked.coherent w.underway, ?_,
    w.fruitful.step b w.underway valid offers beat⟩
  rcases steps.goes with same | ⟨cl, hub', cl', log, found, effect, after⟩
  · rw [same]
    exact w.unrejected
  · rw [after]
    apply forall_mem_exchange w.unrejected
    exact effect.unrejected passes (w.unrejected cl (List.mem_of_getElem? found))

/-- What is known of an offered request holds after any beats. -/
theorem welcome_run (valid : c.fault? = none)
    (offered : ∃ d ∈ c.nodes, d.node.advertises o.requested = true) (beats : List Beat) :
    Welcome c o ((Overlap.start c o).run o beats) := by
  apply Overlap.run_induction fun _ b w => w.step valid offered b
  have fresh : ∀ cl ∈ (start c o).clients, cl = {} := fun cl mem => List.eq_of_mem_replicate mem
  refine ⟨balanced_start valid o, (fun i q now => nomatch now), fun cl mem => ?_,
    .inl ⟨fun cl mem => ?_, fun i q now => nomatch now⟩⟩
  · rw [fresh cl mem]
  · rw [fresh cl mem]
    exact ⟨rfl, rfl⟩

/-- Once all clients are done, one of them was granted a session, if there is a request at all. -/
theorem Welcome.granted_pos {t : Overlap} (w : Welcome c o t)
    (done : ∀ cl ∈ t.sim.clients, cl.isDone o = true) (clients : 0 < o.clients)
    (requests : 0 < o.requests) : 0 < t.sim.total.granted := by
  rw [total_count Tally.granted rfl (fun _ _ => rfl) t.sim]
  rcases w.fruitful with ⟨untouched, -⟩ | served
  · obtain ⟨cl, mem⟩ := List.exists_mem_of_length_pos (w.balanced.clients.symm ▸ clients)
    have ended := (w.balanced.between cl mem).ended_of_isDone (done cl mem)
    rw [(untouched cl mem).1] at ended
    exact absurd ended (Nat.ne_of_lt requests)
  · exact served

/-! ## Requests that no node offers -/

/-- What became of the requests of a client if no node offers them: with a strict hub the client never
asks for a session, with any other it is never rejected. -/
structure Barred (strict : Bool) (cl : Client) : Prop where
  granted : cl.tally.granted = 0
  strictly : strict = true → cl.tally.misses = 0 ∧ ∃ request, cl.stage = .starting request
  otherwise : strict = false → cl.tally.rejected = 0

/-- A request that nobody offers ends without a session. -/
theorem Effect.barred {hub hub' : Hub Policy SlotNode} {cl cl' : Client}
    (effect : Effect o hub cl hub' cl') (inv : hub.Coherent)
    (unable : ∀ h n, hub.node? h = some n → ¬ n.Able o.requested)
    (lacking : ¬ hub.Offers o.requested) (before : Barred hub.strict cl) : Barred hub.strict cl' := by
  have passes_iff : (hub.verify o.requested).1 = .ok () ↔ hub.strict = false := by
    rw [Hub.verify_eq_ok_iff, inv.hasCapability_of_not_offers lacking]
    simp
  have asks : ∀ {request misses}, cl.stage = .asking request misses → hub.strict ≠ true := by
    intro request misses stage strict
    obtain ⟨-, first, starting⟩ := before.strictly strict
    cases stage.symm.trans starting
  cases effect with
  | rests same => exact before
  | @verified request cl' turn =>
    generalize answer : (hub.verify o.requested).1 = a at turn
    cases turn with
    | verified stage more =>
      have loose := passes_iff.1 answer
      exact ⟨before.granted, fun strict => absurd (strict.symm.trans loose) nofun, before.otherwise⟩
    | rejected stage more =>
      refine ⟨before.granted, fun strict => ⟨(before.strictly strict).1, _, rfl⟩, fun loose => ?_⟩
      cases (passes_iff.2 loose).symm.trans answer
  | missed turn same =>
    cases turn with
    | gaveUp stage last | retried stage more =>
      exact ⟨before.granted, fun strict => absurd strict (asks stage), before.otherwise⟩
  | served turn node able same => exact absurd able (unable _ _ node)
  | released stage turn =>
    cases turn with
    | released stage =>
      exact ⟨before.granted, fun strict => ⟨(before.strictly strict).1, _, rfl⟩, before.otherwise⟩

/-- The books agree and no client was granted anything. -/
structure Unwelcome (c : Config) (o : Options) (s : Simulation) : Prop where
  balanced : Balanced c o s
  barred : ∀ cl ∈ s.clients, Barred c.strict cl

theorem Unwelcome.step {t : Overlap} (u : Unwelcome c o t.sim)
    (lacking : ¬ ∃ d ∈ c.nodes, d.node.advertises o.requested = true) (beat : Beat) :
    Unwelcome c o (t.step o beat).sim := by
  have b := u.balanced
  have steps := Overlap.step_steps o t beat
  refine ⟨b.goes steps.goes, ?_⟩
  rcases steps.goes with same | ⟨cl, hub', cl', log, found, effect, after⟩
  · rw [same]
    exact u.barred
  · have silent : ¬ t.sim.hub.Offers o.requested := mt (b.offers_iff o.requested).1 lacking
    have unable : ∀ h n, t.sim.hub.node? h = some n → ¬ n.Able o.requested := by
      intro h n node able
      exact silent ⟨h, n, b.stocked.isMember node, (SlotNode.able_iff.1 able).2.2⟩
    rw [after]
    apply forall_mem_exchange u.barred
    have own := u.barred cl (List.mem_of_getElem? found)
    rw [← b.strict] at own ⊢
    exact effect.barred b.stocked.coherent unable silent own

theorem unwelcome_run (valid : c.fault? = none)
    (lacking : ¬ ∃ d ∈ c.nodes, d.node.advertises o.requested = true) (beats : List Beat) :
    Unwelcome c o ((Overlap.start c o).run o beats).sim := by
  apply Overlap.run_induction (I := fun t => Unwelcome c o t.sim) fun _ b u => u.step lacking b
  refine ⟨balanced_start valid o, fun cl mem => ?_⟩
  rw [List.eq_of_mem_replicate mem]
  exact ⟨rfl, fun _ => ⟨rfl, 0, rfl⟩, fun _ => rfl⟩

/-- Once all clients are done, each request was rejected by a strict hub and missed with any other. -/
theorem Unwelcome.total (u : Unwelcome c o s) (done : ∀ cl ∈ s.clients, cl.isDone o = true) :
    s.total = if c.strict then ⟨0, 0, o.clients * o.requests⟩ else ⟨0, o.clients * o.requests, 0⟩ := by
  have granted : s.total.granted = 0 :=
    total_count_eq_zero Tally.granted rfl (fun _ _ => rfl) fun cl mem => (u.barred cl mem).granted
  have ended := ended_total u.balanced.between done
  rw [u.balanced.clients, Tally.ended, granted, Nat.zero_add] at ended
  cases strict : c.strict with
  | true =>
    have misses : s.total.misses = 0 := total_count_eq_zero Tally.misses rfl (fun _ _ => rfl)
      fun cl mem => ((u.barred cl mem).strictly strict).1
    have rejected : s.total.rejected = o.clients * o.requests := by
      rw [← ended, misses, Nat.zero_add]
    rw [if_pos rfl, ← rejected]
    calc s.total = ⟨s.total.granted, s.total.misses, s.total.rejected⟩ := rfl
      _ = ⟨0, 0, s.total.rejected⟩ := by rw [granted, misses]
  | false =>
    have rejected : s.total.rejected = 0 := total_count_eq_zero Tally.rejected rfl (fun _ _ => rfl)
      fun cl mem => (u.barred cl mem).otherwise strict
    have misses : s.total.misses = o.clients * o.requests := by
      rw [← ended, rejected, Nat.add_zero]
    rw [if_neg Bool.false_ne_true, ← misses]
    calc s.total = ⟨s.total.granted, s.total.misses, s.total.rejected⟩ := rfl
      _ = ⟨0, s.total.misses, 0⟩ := by rw [granted, rejected]

end

/-! ## Reports -/

/-- **All or nothing.** A configuration was read from a text. In whatever orders clients move and the
grid lists its members, a request passes at any moment exactly if the hub is not strict or some declared
node offers it. When all requests have ended, and whether the searches for sessions overlapped or not: if
some declared node offers what is requested, none of them was rejected, and some of them was granted if
there was any; if none does, as in a grid without nodes, none was granted, and all of them were rejected
by a strict hub, and missed with any other. -/
theorem rejection_all_or_nothing {text : String} {c : Config}
    (accepted : Config.ofTomlText text = .ok c) (o : Options) :
    let offered := ∃ d ∈ c.nodes, d.node.advertises o.requested = true
    (∃ s, EndsIn c o s ∧ simulate c o = s.close o) ∧
      (∀ order, (((start c o).movesIn o order).hub.verify o.requested).1 = .ok () ↔
        (c.strict = true → offered)) ∧
      (∀ beats, (((Overlap.start c o).run o beats).sim.hub.verify o.requested).1 = .ok () ↔
        (c.strict = true → offered)) ∧
      ∀ s, EndsIn c o s ∨ Overlap.Ends c o s →
        (offered → (s.close o).1.tally.rejected = 0 ∧
          (0 < o.clients → 0 < o.requests → 0 < (s.close o).1.tally.granted)) ∧
        (¬ offered → (s.close o).1.tally =
          if c.strict then ⟨0, 0, o.clients * o.requests⟩ else ⟨0, o.clients * o.requests, 0⟩) := by
  intro offered
  have valid : c.fault? = none := Config.fault?_of_ofTomlText accepted
  refine ⟨simulate_ends c o,
    fun order => (balanced_movesIn valid o order).verify_eq_ok_iff o.requested,
    fun beats => (Overlap.balanced_run valid o beats).verify_eq_ok_iff o.requested, fun s ends => ?_⟩
  obtain ⟨⟨beats, rfl⟩, done⟩ := ends.elim Overlap.ends_of_endsIn id
  refine ⟨fun some => ?_, fun none => ?_⟩
  · have w := welcome_run valid some beats
    exact ⟨total_count_eq_zero Tally.rejected rfl (fun _ _ => rfl) w.unrejected, w.granted_pos done⟩
  · exact (unwelcome_run valid none beats).total done

/-- Two strict runs of three clients: one for what a node offers, one for what no node does. -/
theorem rejection_all_or_nothing_two_nodes :
    let c := Config.twoNodes
    let o : Options :=
      { clients := 3
        requests := 2
        requested := Capabilities.empty.insert "b" (.bool true)
        hold := 1
        maxAttempts := 1
        backoff := 1 }
    let other : Options := { o with requested := Capabilities.empty.insert "b" (.bool false) }
    Config.ofTomlText Config.twoNodesText = .ok c ∧
      (∀ s, EndsIn c o s → (s.close o).1.tally.rejected = 0 ∧ 0 < (s.close o).1.tally.granted) ∧
      ∀ s, EndsIn c other s → (s.close other).1.tally = ⟨0, 0, 6⟩ := by
  intro c o other
  have offered : ∃ d ∈ c.nodes, d.node.advertises o.requested = true := by decide +kernel
  have lacking : ¬ ∃ d ∈ c.nodes, d.node.advertises other.requested = true := by decide +kernel
  obtain ⟨-, -, -, served⟩ := rejection_all_or_nothing Config.ofTomlText_twoNodes o
  obtain ⟨-, -, -, barred⟩ := rejection_all_or_nothing Config.ofTomlText_twoNodes other
  refine ⟨Config.ofTomlText_twoNodes, fun s ends => ?_, fun s ends => (barred s (.inl ends)).2 lacking⟩
  obtain ⟨rejected, granted⟩ := (served s (.inl ends)).1 offered
  exact ⟨rejected, granted (by decide) (by decide)⟩

end SessionGrid.Simulation
