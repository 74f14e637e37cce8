import SessionGrid.Proofs.Simulation.AllOrNothing
import SessionGrid.Proofs.Simulation.Supply

/-!
# Clients in each other's way

If the nodes that advertise the request have as many slots as there are clients, some member can serve a
client that asks, at every moment. One that searches alone finds it. If others move on meanwhile, a member
that has refused may come to have a slot, and the last member with one may lose it before it is asked: then
the client misses, although a slot was free for it all the time (`overlapping_searches_miss`). For this,
another client must have given a session back in the course of the search (`Freed`) and another one must
have been granted one after that (`Retaken`). Nothing else makes a client miss
(`supplied_requests_served`).
-/

namespace SessionGrid

/-- A node that can serve a request can serve it with a slot more. -/
theorem SlotNode.Able.releasing {n : SlotNode} {requested : Capabilities} (able : n.Able requested)
    (used : n.active ≠ 0) : n.releasing.Able requested := by
  refine ⟨able.running, ?_, able.offered⟩
  have active := SlotNode.releasing_active used
  have free := UInt32.lt_iff_toNat_lt.1 able.free
  rw [UInt32.lt_iff_toNat_lt]
  show n.releasing.active.toNat < n.maxSessions.toNat
  omega

namespace Simulation

open Hub

section Effects

variable {c : Config} {o : Options} {s : Simulation} {i : Nat} {cl cl' : Client}
  {hub hub' : Hub Policy SlotNode} {h : Handle}

/-- Who can serve the request still can after a step that grants no session. -/
theorem Balanced.able_after (b : Balanced c o s) (found : s.clients[i]? = some cl)
    (effect : Effect o s.hub cl hub' cl') (grants : site cl ≠ none ∨ site cl' = none) {n : SlotNode}
    (node : s.hub.node? h = some n) (able : n.Able o.requested) :
    ∃ n', hub'.node? h = some n' ∧ n'.Able o.requested := by
  cases effect with
  | rests same | verified turn | missed turn same => exact ⟨n, node, able⟩
  | served turn =>
    obtain ⟨before, after, -⟩ := turn.site_served
    rcases grants with held | idle
    · exact absurd before held
    · cases after.symm.trans idle
  | @released request session cl' stage turn =>
    have holds : site cl = some session.nodeId := by rw [site, stage]
    obtain ⟨k, m, member, own, used⟩ := b.exists_granter found holds
    rw [finish_of_isMember member own.symm used]
    rcases eq_or_ne k h with rfl | other
    · have same : m = n := Option.some.inj (member.2.symm.trans node)
      subst same
      exact ⟨_, node?_setNode_self node _, able.releasing used⟩
    · exact ⟨n, (node?_setNode_ne s.hub other _).trans node, able⟩

/-- Who can serve the request after a step that gives no session back could do so before. -/
theorem Effect.able_before (effect : Effect o hub cl hub' cl') (gives : site cl = none ∨ site cl' ≠ none)
    {n' : SlotNode} (node' : hub'.node? h = some n') (able : n'.Able o.requested) :
    ∃ n, hub.node? h = some n ∧ n.Able o.requested := by
  cases effect with
  | rests same | verified turn | missed turn same => exact ⟨n', node', able⟩
  | @served request k m policy cl' turn node ableNow same =>
    have node' : (hub.setNode k (m.granting hub.clock)).node? h = some n' := node'
    rcases node?_setNode_cases node node' with ⟨rfl, -⟩ | ⟨-, old⟩
    · exact ⟨m, node, ableNow⟩
    · exact ⟨n', old, able⟩
  | released stage turn =>
    rcases gives with idle | held
    · rw [site, stage] at idle
      cases idle
    · exact absurd turn.site_giveBack.1 held

end Effects

namespace Overlap

/-! ## Other clients in the course of a search -/

/-- The client has a session. -/
def Holds (t : Overlap) (i : Nat) : Prop :=
  ∃ cl, t.sim.clients[i]? = some cl ∧ site cl ≠ none

/-- The client `i` is in the middle of a search, and in its course another client has given a session
back. -/
inductive Freed (o : Options) (t : Overlap) (i : Nat) : List Beat → Prop where
  | now {beats : List Beat} {b : Beat} (searches : (t.run o beats).search i ≠ none) (other : b.client ≠ i)
      (held : (t.run o beats).Holds b.client) (gives : ¬ (t.run o (beats ++ [b])).Holds b.client) :
      Freed o t i (beats ++ [b])
  | later {beats : List Beat} {b : Beat} (before : Freed o t i beats)
      (searches : (t.run o (beats ++ [b])).search i ≠ none) : Freed o t i (beats ++ [b])

/-- The client `i` is in the middle of a search, and in its course another client has given a session
back, and after that another one, which need not be the same, was granted a session. -/
inductive Retaken (o : Options) (t : Overlap) (i : Nat) : List Beat → Prop where
  | now {beats : List Beat} {b : Beat} (before : Freed o t i beats) (other : b.client ≠ i)
      (idle : ¬ (t.run o beats).Holds b.client) (takes : (t.run o (beats ++ [b])).Holds b.client) :
      Retaken o t i (beats ++ [b])
  | later {beats : List Beat} {b : Beat} (before : Retaken o t i beats)
      (searches : (t.run o (beats ++ [b])).search i ≠ none) : Retaken o t i (beats ++ [b])

/-- How the search `q` of the client `i` stands after some steps. -/
inductive Course (o : Options) (t : Overlap) (i : Nat) (beats : List Beat) (q : Search) : Prop where
  /-- Who has refused would do so again. -/
  | calm (refusing : (t.run o beats).sim.hub.NoneAble o.requested q.refused)
  /-- Some member that is yet to be asked can serve the request, and nobody takes its slot. -/
  | freed (since : Freed o t i beats) {k : Candidate} (mem : k ∈ q.rest) {n : SlotNode}
      (node : (t.run o beats).sim.hub.node? k.handle = some n) (able : n.Able o.requested)
  | retaken (since : Retaken o t i beats)

section Course

variable {c : Config} {o : Options} {t : Overlap} {i : Nat} {beats : List Beat} {b : Beat} {q : Search}

/-- If nobody who has refused can serve the request, there is a member yet to be asked that can. -/
theorem exists_able_rest (balanced : Balanced c o t.sim) (underway : t.Underway) (valid : c.fault? = none)
    (room : o.clients ≤ supply c o.requested) (searches : t.search i = some q)
    (refusing : t.sim.hub.NoneAble o.requested q.refused) :
    ∃ k ∈ q.rest, ∃ n, t.sim.hub.node? k.handle = some n ∧ n.Able o.requested := by
  have pursued := underway i q searches
  obtain ⟨cl, request, misses, found, stage⟩ := pursued.asking
  have idle : site cl = none := by rw [site, stage]
  obtain ⟨h, n, member, able⟩ := balanced.exists_able valid room (List.mem_of_getElem? found) idle
  obtain ⟨k, mem, rfl⟩ := pursued.exists_asked member
  rcases List.mem_append.1 mem with asked | rest
  · exact absurd able (refusing k asked n member.2)
  · exact ⟨k, rest, n, member.2, able⟩

/-- A step of the client itself, in the middle of its search. -/
theorem Course.own_step (before : ∀ q, (t.run o beats).search i = some q → Course o t i beats q)
    (underway : (t.run o beats).Underway) (own : b.client = i)
    (now : (t.run o (beats ++ [b])).search i = some q) : Course o t i (beats ++ [b]) q := by
  subst own
  have searches : (t.run o (beats ++ [b])).search b.client ≠ none := by
    rw [now]
    exact nofun
  have steps := step_steps o (t.run o beats) b
  rw [← run_snoc] at steps
  generalize after : t.run o (beats ++ [b]) = t' at steps now
  cases steps with
  | nobody out =>
    obtain ⟨cl, request, misses, found, -⟩ := (underway _ q now).asking
    cases out.symm.trans found
  | moved found idle =>
    obtain ⟨cl, request, misses, found', stage⟩ := (underway _ q now).asking
    cases found.symm.trans found'
    exact absurd stage (idle request misses)
  | arranged found stage first =>
    cases (Function.update_self b.client _ (t.run o beats).search).symm.trans now
    exact .calm fun k mem => nomatch mem
  | @refused cl request misses k refused rest found stage next unable =>
    cases (Function.update_self b.client _ (t.run o beats).search).symm.trans now
    have hub : (t.run o (beats ++ [b])).sim.hub = (t.run o beats).sim.hub :=
      congrArg (fun t => t.sim.hub) after
    cases before _ next with
    | calm refusing =>
      refine .calm ?_
      rw [hub]
      exact List.forall_mem_append.2 ⟨refusing, List.forall_mem_singleton.2 unable⟩
    | freed since mem node able =>
      -- The member that can serve the request is not the one that has just refused.
      rcases List.mem_cons.1 mem with rfl | rest
      · exact absurd able (unable _ node)
      · exact .freed (since.later searches) rest (hub ▸ node) able
    | retaken since => exact .retaken (since.later searches)
  | served | missed => cases (Function.update_self b.client _ (t.run o beats).search).symm.trans now

/-- A step of another client. -/
theorem Course.other_step (before : ∀ q, (t.run o beats).search i = some q → Course o t i beats q)
    (balanced : Balanced c o (t.run o beats).sim) (underway : (t.run o beats).Underway)
    (valid : c.fault? = none) (room : o.clients ≤ supply c o.requested) (other : b.client ≠ i)
    (now : (t.run o (beats ++ [b])).search i = some q) : Course o t i (beats ++ [b]) q := by
  have searches : (t.run o (beats ++ [b])).search i ≠ none := by
    rw [now]
    exact nofun
  have steps := step_steps o (t.run o beats) b
  rw [← run_snoc] at steps
  have searched : (t.run o beats).search i = some q := (steps.search_of_ne (Ne.symm other)).symm.trans now
  have course := before q searched
  rcases steps.goes with same | ⟨cl, hub', cl', log, found, effect, after⟩
  · cases course with
    | calm refusing => exact .calm (same ▸ refusing)
    | freed since mem node able => exact .freed (since.later searches) mem (same ▸ node) able
    | retaken since => exact .retaken (since.later searches)
  · have moved : (t.run o (beats ++ [b])).sim.clients[b.client]? = some cl' := by
      rw [after]
      exact getElem?_set_own found
    have hub : (t.run o (beats ++ [b])).sim.hub = hub' := congrArg Simulation.hub after
    cases course with
    | calm refusing =>
      by_cases gives : site cl ≠ none ∧ site cl' = none
      · have since : Freed o t i (beats ++ [b]) := by
          refine .now (fun none => ?_) other ⟨cl, found, gives.1⟩ fun ⟨d, at_b, held⟩ => ?_
          · cases searched.symm.trans none
          · cases moved.symm.trans at_b
            exact held gives.2
        obtain ⟨k, mem, n, node, able⟩ :=
          exists_able_rest balanced underway valid room searched refusing
        obtain ⟨n', node', able'⟩ := balanced.able_after found effect (.inr gives.2) node able
        exact .freed since mem (hub ▸ node') able'
      · refine .calm fun k mem n' node' able' => ?_
        have keeps : site cl = none ∨ site cl' ≠ none := by
          by_cases empty : site cl = none
          · exact .inl empty
          · exact .inr fun gone => gives ⟨empty, gone⟩
        obtain ⟨n, node, able⟩ := effect.able_before keeps (hub ▸ node') able'
        exact refusing k mem n node able
    | @freed since k mem n node able =>
      by_cases takes : site cl = none ∧ site cl' ≠ none
      · refine .retaken (.now since other (fun ⟨d, at_b, held⟩ => ?_) ⟨cl', moved, takes.2⟩)
        cases found.symm.trans at_b
        exact held takes.1
      · have grants : site cl ≠ none ∨ site cl' = none := by
          by_cases idle : site cl' = none
          · exact .inr idle
          · exact .inl fun empty => takes ⟨empty, idle⟩
        obtain ⟨n', node', able'⟩ := balanced.able_after found effect grants node able
        exact .freed (since.later searches) mem (hub ▸ node') able'
    | retaken since => exact .retaken (since.later searches)

end Course

section Run

variable {c : Config} {o : Options}

theorem course_run (valid : c.fault? = none) (room : o.clients ≤ supply c o.requested)
    (beats : List Beat) (i : Nat) :
    ∀ q, ((start c o).run o beats).search i = some q → Course o (start c o) i beats q := by
  induction beats using List.reverseRecOn with
  | nil => exact fun q now => nomatch now
  | append_singleton beats b ih =>
    intro q now
    have underway := underway_run valid o beats
    by_cases own : b.client = i
    · exact Course.own_step ih underway own now
    · exact Course.other_step ih (balanced_run valid o beats) underway valid room own now

/-- A client that has asked all members in vain was in the way of others. -/
theorem retaken_of_all_refused (valid : c.fault? = none) (room : o.clients ≤ supply c o.requested)
    {beats : List Beat} {i : Nat} {refused : List Candidate}
    (all : ((start c o).run o beats).search i = some ⟨refused, []⟩) :
    Retaken o (start c o) i beats := by
  cases course_run valid room beats i _ all with
  | calm refusing =>
    obtain ⟨k, mem, -⟩ := exists_able_rest (balanced_run valid o beats) (underway_run valid o beats)
      valid room all refusing
    cases mem
  | freed since mem => cases mem
  | retaken since => exact since

/-- The step is one in which its client takes note of a miss. -/
def Misses (o : Options) (t : Overlap) (b : Beat) : Prop :=
  ∃ cl cl' request, t.sim.clients[b.client]? = some cl ∧
    (t.step o b).sim.clients[b.client]? = some cl' ∧ Turn o cl request (.ask none) cl'

theorem Steps.all_refused {t t' : Overlap} {b : Beat} (steps : Steps o t b t') {cl cl' : Client}
    {request : Nat} (found : t.sim.clients[b.client]? = some cl)
    (after : t'.sim.clients[b.client]? = some cl') (turn : Turn o cl request (.ask none) cl') :
    ∃ refused, t.search b.client = some ⟨refused, []⟩ := by
  cases steps with
  | nobody out => cases out.symm.trans found
  | moved at_b idle =>
    cases at_b.symm.trans found
    cases turn with
    | gaveUp stage last | retried stage more => exact absurd stage (idle _ _)
  | arranged at_b stage first =>
    cases found.symm.trans after
    exact absurd rfl turn.stage_ne
  | refused at_b stage next unable =>
    cases found.symm.trans after
    exact absurd rfl turn.stage_ne
  | @served c c' r misses k n refused rest at_b stage next node able served =>
    have own : cl' = c' := Option.some.inj (after.symm.trans (getElem?_set_own at_b))
    subst own
    cases served.site_served.2.1.symm.trans turn.site_missed.2.1
  | missed at_b stage all turn gaveUp => exact ⟨_, all⟩

theorem Steps.supplied {t t' : Overlap} {b : Beat} (steps : Steps o t b t') (valid : c.fault? = none)
    (room : o.clients ≤ supply c o.requested)
    (hit : ∀ refused, t.search b.client ≠ some ⟨refused, []⟩) (before : Supplied c o t.sim) :
    Supplied c o t'.sim := by
  have balanced := before.balanced.goes steps.goes
  cases steps with
  | nobody out => exact before
  | moved found idle => exact before.stepIn valid room _
  | arranged found stage first => exact ⟨balanced, before.prompt⟩
  | refused found stage next unable => exact before
  | @served cl cl' request misses k n refused rest found stage next node able turn =>
    refine ⟨balanced, ?_⟩
    apply forall_mem_exchange before.prompt
    exact turn.prompt nofun nofun (before.prompt cl (List.mem_of_getElem? found))
  | missed found stage all turn gaveUp => exact absurd all (hit _)

/-- While nobody gets in the way of a search, every request is served at its first attempt. -/
theorem supplied_run (valid : c.fault? = none) (room : o.clients ≤ supply c o.requested)
    {beats : List Beat}
    (undisturbed : ∀ i before, before <+: beats → ¬ Retaken o (start c o) i before) :
    Supplied c o ((start c o).run o beats).sim := by
  induction beats using List.reverseRecOn with
  | nil => exact supplied_movesIn valid room []
  | append_singleton beats b ih =>
    have before := ih fun i earlier le => undisturbed i earlier (le.trans (List.prefix_append _ _))
    rw [run_snoc]
    refine (step_steps o _ b).supplied valid room (fun refused all => ?_) before
    exact undisturbed b.client beats (List.prefix_append _ _) (retaken_of_all_refused valid room all)

end Run

end Overlap

/-! ## The whole run -/

/-- If there is a client and a slot for it, some declared node advertises the request. -/
theorem exists_advertiser {c : Config} {o : Options} (room : o.clients ≤ supply c o.requested)
    (some : o.clients ≠ 0) : ∃ d ∈ c.nodes, d.node.advertises o.requested = true := by
  have nonempty : c.nodes.filter (fun d => d.node.advertises o.requested) ≠ [] := by
    intro empty
    rw [supply, empty] at room
    exact some (Nat.le_zero.1 room)
  obtain ⟨d, mem⟩ := List.exists_mem_of_ne_nil _ nonempty
  obtain ⟨declared, advertises⟩ := List.mem_filter.1 mem
  exact ⟨d, declared, advertises⟩

/-- Also when searches overlap, no request is rejected if there are slots for all clients. -/
theorem rejected_eq_zero {c : Config} {o : Options} (valid : c.fault? = none)
    (room : o.clients ≤ supply c o.requested) (beats : List Beat) :
    ((Overlap.start c o).run o beats).sim.total.rejected = 0 := by
  apply total_count_eq_zero Tally.rejected rfl fun _ _ => rfl
  intro cl mem
  have clients := (Overlap.balanced_run valid o beats).clients
  have some : o.clients ≠ 0 := by
    rw [← clients]
    exact Nat.ne_of_gt (List.length_pos_of_mem mem)
  exact (welcome_run valid (exists_advertiser room some) beats).unrejected cl mem

/-- **Enough slots.** A configuration was read from a text, and the declared nodes that advertise the
request have as many slots as there are clients. If a search for a session is one step, then, in whatever
orders the clients move and the members are listed, every client that asks for a session is granted one, at
its first attempt, and at the end every request was granted. If searches overlap, no request is rejected,
and every one is granted or missed; but a client misses only if in the course of its search another client
has given a session back and then another one was granted one, and while that does not happen, every request
is granted at its first attempt as before. -/
theorem supplied_requests_served {text : String} {c : Config}
    (accepted : Config.ofTomlText text = .ok c) (o : Options)
    (room : o.clients ≤ supply c o.requested) :
    (∃ s, EndsIn c o s ∧ simulate c o = s.close o) ∧
      (∀ s, EndsIn c o s → (s.close o).1.tally = ⟨o.clients * o.requests, 0, 0⟩) ∧
      (∀ order,
        let s := (start c o).movesIn o order
        ∀ cl ∈ s.clients, ∀ request misses, cl.stage = .asking request misses →
          misses = 0 ∧ ∀ l, (s.hub.newSessionIn l o.requested).answer.isSome = true) ∧
      (∀ s, Overlap.Ends c o s → (s.close o).1.tally.rejected = 0 ∧
        (s.close o).1.tally.granted + (s.close o).1.tally.misses = o.clients * o.requests) ∧
      ∀ beats,
        let t := (Overlap.start c o).run o beats
        (∀ b, Overlap.Misses o t b → Overlap.Retaken o (Overlap.start c o) b.client beats) ∧
          ((∀ i before, before <+: beats → ¬ Overlap.Retaken o (Overlap.start c o) i before) →
            (∀ cl ∈ t.sim.clients, ∀ request misses, cl.stage = .asking request misses → misses = 0) ∧
            ((∀ cl ∈ t.sim.clients, cl.isDone o = true) →
              (t.sim.close o).1.tally = ⟨o.clients * o.requests, 0, 0⟩)) := by
  have valid : c.fault? = none := Config.fault?_of_ofTomlText accepted
  refine ⟨simulate_ends c o, ?_, ?_, ?_, ?_⟩
  · rintro s ⟨⟨order, rfl⟩, done⟩
    exact (supplied_movesIn valid room order).total done
  · intro order s cl mem request misses asking
    have inv : Supplied c o s := supplied_movesIn valid room order
    have idle : site cl = none := by rw [site, asking]
    have able := inv.balanced.exists_able valid room mem idle
    exact ⟨(inv.prompt cl mem).first request misses asking,
      fun l => (inv.balanced.stocked.coherent.newSessionIn_isSome_iff l).2 able⟩
  · rintro s ⟨⟨beats, rfl⟩, done⟩
    have balanced := Overlap.balanced_run valid o beats
    have rejected := rejected_eq_zero valid room beats
    have ended := ended_total balanced.between done
    rw [balanced.clients, Tally.ended, rejected, Nat.add_zero] at ended
    exact ⟨rejected, ended⟩
  · intro beats t
    refine ⟨?_, fun undisturbed => ?_⟩
    · rintro b ⟨cl, cl', request, found, after, turn⟩
      obtain ⟨refused, all⟩ := (Overlap.step_steps o t b).all_refused found after turn
      exact Overlap.retaken_of_all_refused valid room all
    · have inv := Overlap.supplied_run valid room undisturbed
      exact ⟨fun cl mem => (inv.prompt cl mem).first, inv.total⟩

/-- Two clients, which are never to ask twice, and two slots of a node that advertises their requests. If
the slots are those of two nodes and the searches cross, one client gets in the way of the other. -/
theorem supplied_requests_served_two_nodes :
    let c := Config.twoNodes
    let o : Options :=
      { clients := 2
        requests := 3
        requested := Capabilities.empty.insert "b" (.bool true)
        hold := 1
        maxAttempts := 0
        backoff := 1 }
    Config.ofTomlText Config.twoNodesText = .ok c ∧ o.clients ≤ supply c o.requested ∧
      (∃ s, EndsIn c o s ∧ simulate c o = s.close o) ∧
      (∀ s, EndsIn c o s → (s.close o).1.tally = ⟨6, 0, 0⟩) ∧
      ∃ i before, before <+: Overlap.crossingBeats ∧
        Overlap.Retaken Overlap.crossingOptions
          (Overlap.start Overlap.crossing Overlap.crossingOptions) i before := by
  intro c o
  have room : o.clients ≤ supply c o.requested := by decide +kernel
  obtain ⟨ends, tally, -⟩ := supplied_requests_served Config.ofTomlText_twoNodes o room
  refine ⟨Config.ofTomlText_twoNodes, room, ends, tally, ?_⟩
  -- Otherwise the run in which the searches cross would end without a miss.
  by_contra never
  obtain ⟨⟨-, done⟩, missed, -⟩ := Overlap.crossed_ends
  obtain ⟨-, -, -, -, overlap⟩ := supplied_requests_served Overlap.ofTomlText_crossing
    Overlap.crossingOptions (by decide +kernel)
  have served := ((overlap Overlap.crossingBeats).2 fun i before le retaken =>
    never ⟨i, before, le, retaken⟩).2 done
  cases missed.symm.trans served

/-- Two clients and two slots, and still a miss: while the first client searches, the second one gives the
slot of one node back and takes that of the other. -/
theorem overlapping_searches_miss :
    Config.ofTomlText Overlap.crossingText = .ok Overlap.crossing ∧
      (∃ d ∈ Overlap.crossing.nodes, d.node.advertises Overlap.crossingOptions.requested = true) ∧
      Overlap.crossingOptions.clients ≤ supply Overlap.crossing Overlap.crossingOptions.requested ∧
      Overlap.Ends Overlap.crossing Overlap.crossingOptions Overlap.crossed ∧
      (Overlap.crossed.close Overlap.crossingOptions).1.tally = ⟨3, 1, 0⟩ := by
  obtain ⟨ends, tally, -⟩ := Overlap.crossed_ends
  exact ⟨Overlap.ofTomlText_crossing, by decide +kernel, by decide +kernel, ends, tally⟩

end Simulation

end SessionGrid
