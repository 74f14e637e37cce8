import SessionGrid.Proofs.Simulation.Overlap

/-!
# Runs come to an end

Every turn of a client takes its cost from the `budget` of the client, whatever an attempt at a session and
any other turn are said to cost (`Turn.paid`). Counted in moves, all budgets together are `Options.work` at
the start. So no order of busy clients is longer (`BusyIn.length_le_work`), and the run on the virtual
clock, which is one of these orders, ends with all clients done (`run_done`). If searches overlap, an attempt
costs a beat for each member and two more, so that the number of beats is bounded as well
(`Overlap.BusyIn.length_le_work`).
-/

namespace SessionGrid.Simulation

open Hub

/-! ## What a client has left to do -/

/-- What a turn costs, if an attempt costs `ask` and any other turn `other`. -/
def Deed.cost (ask other : Nat) : Deed → Nat
  | .ask _ => ask
  | .verify _ | .giveBack => other

/-- What a request costs at most: its attempts, one turn to verify and one to give the session back. -/
def Options.price (o : Options) (ask other : Nat) : Nat :=
  o.attempts * ask + 2 * other

/-- What all turns that a client has left can cost at most. -/
def budget (o : Options) (ask other : Nat) (c : Client) : Nat :=
  match c.stage with
  | .starting request => (o.requests - request) * o.price ask other
  | .asking request misses =>
    (o.requests - (request + 1)) * o.price ask other + (o.attempts - misses) * ask + other
  | .holding request _ => (o.requests - (request + 1)) * o.price ask other + other

/-- What costs the same from one number on costs so for it and for those after it. -/
theorem sub_mul_unfold {k n : Nat} (more : k < n) (cost : Nat) :
    (n - k) * cost = (n - (k + 1)) * cost + cost := by
  have one : n - k = n - (k + 1) + 1 := by omega
  rw [one, Nat.succ_mul]

/-- **Every turn is paid for.** -/
theorem Turn.paid {o : Options} {c c' : Client} {request : Nat} {deed : Deed}
    (turn : Turn o c request deed c') (before : InStep o c) (ask other : Nat) :
    deed.cost ask other + budget o ask other c' ≤ budget o ask other c := by
  cases turn with
  | verified stage more | rejected stage more =>
    have request := sub_mul_unfold more (o.price ask other)
    have price : o.price ask other = o.attempts * ask + 2 * other := rfl
    simp only [Deed.cost, budget, stage, Nat.sub_zero]
    omega
  | served stage | gaveUp stage last | retried stage more =>
    simp only [InStep, stage] at before
    have attempt := sub_mul_unfold before.2.1 ask
    simp only [Deed.cost, budget, stage]
    omega
  | released stage =>
    simp only [Deed.cost, budget, stage]
    omega

/-- No turn is free if neither price is zero. -/
theorem Deed.one_le_cost (deed : Deed) {ask other : Nat} (a : 1 ≤ ask) (b : 1 ≤ other) :
    1 ≤ deed.cost ask other := by
  cases deed with
  | ask answer => exact a
  | verify answer | giveBack => exact b

/-- Each move of a client that is not done leaves it fewer moves. -/
theorem Acts.budget_lt {o : Options} {l : Listing} {hub hub' : Hub Policy SlotNode} {c c' : Client}
    (acts : Acts o l hub c hub' c') (before : InStep o c) (busy : c.isDone o = false) :
    budget o 1 1 c' < budget o 1 1 c := by
  rcases acts.turn with ⟨done, -⟩ | ⟨request, deed, turn⟩
  · cases busy.symm.trans done
  · have paid := turn.paid before 1 1
    have cost := deed.one_le_cost (Nat.le_refl 1) (Nat.le_refl 1)
    omega

/-- How many moves all clients have left at most. -/
def remaining (o : Options) (s : Simulation) : Nat :=
  (s.clients.map (budget o 1 1)).sum

/-- At the start every client has all its requests to pay for. -/
theorem sum_budget_start (c : Config) (o : Options) (ask other : Nat) :
    ((start c o).clients.map (budget o ask other)).sum =
      o.clients * (o.requests * o.price ask other) := by
  simp only [start, List.map_replicate, List.sum_replicate_nat]
  rfl

theorem remaining_start (c : Config) (o : Options) : remaining o (start c o) = o.work := by
  rw [remaining, sum_budget_start, Options.price, Nat.mul_one]
  rfl

/-- A move of a client that is not done leaves less to do. -/
theorem remaining_stepIn_lt {o : Options} {s : Simulation} {m : Listing × Nat} {c : Client}
    (client : s.clients[m.2]? = some c) (before : InStep o c) (busy : c.isDone o = false) :
    remaining o (s.stepIn o m) < remaining o s := by
  rcases stepIn_cases o m s with ⟨out, -⟩ | ⟨d, hub', d', log, client', acts, after⟩
  · cases client.symm.trans out
  · have same : c = d := Option.some.inj (client.symm.trans client')
    subst same
    have less := acts.budget_lt before busy
    have exchange := sum_exchange (budget o 1 1) client d'
    simp only [remaining, after]
    omega

/-! ## Runs in any order -/

/-- An order of busy clients has no more moves than remain. -/
theorem BusyIn.length_le {o : Options} {order : List (Listing × Nat)} {s : Simulation}
    (busy : BusyIn o order s) (before : ∀ c ∈ s.clients, InStep o c) :
    order.length ≤ remaining o s := by
  induction order generalizing s with
  | nil => exact Nat.zero_le _
  | cons m order ih =>
    obtain ⟨⟨c, client, notDone⟩, rest⟩ := busy
    have less := remaining_stepIn_lt client (before c (List.mem_of_getElem? client)) notDone
    have later := ih rest ((stepIn_goes o m s).inStep before)
    rw [List.length_cons]
    omega

/-! ## The client that is due first -/

theorem all_done_of_earliest {o : Options} {i : Nat} {cs : List Client}
    (idle : earliest o i cs = none) : ∀ c ∈ cs, c.isDone o = true := by
  induction cs generalizing i with
  | nil => exact fun c mem => nomatch mem
  | cons c cs ih =>
    simp only [earliest] at idle
    split at idle
    · next done => exact List.forall_mem_cons.2 ⟨done, ih idle⟩
    · split at idle
      · split at idle <;> cases idle
      · cases idle

/-- It is a client that is not done. -/
theorem busy_of_earliest {o : Options} {i j : Nat} {cs : List Client} {wake : Instant}
    (due : earliest o i cs = some (wake, j)) :
    ∃ k c, j = i + k ∧ cs[k]? = some c ∧ c.isDone o = false := by
  induction cs generalizing i wake j with
  | nil => cases due
  | cons c cs ih =>
    have later : ∀ {w}, earliest o (i + 1) cs = some (w, j) →
        ∃ k d, j = i + k ∧ (c :: cs)[k]? = some d ∧ d.isDone o = false := by
      intro w h
      obtain ⟨k, d, at_k, found, busy⟩ := ih h
      exact ⟨k + 1, d, by omega, found, busy⟩
    simp only [earliest] at due
    split at due
    · exact later due
    · next busy =>
      have head : ∃ k d, i = i + k ∧ (c :: cs)[k]? = some d ∧ d.isDone o = false :=
        ⟨0, c, rfl, rfl, Bool.eq_false_iff.2 busy⟩
      split at due
      · next rest =>
        split at due
        · cases due
          exact head
        · cases due
          exact later rest
      · cases due
        exact head

/-! ## The run on the virtual clock -/

/-- With fuel for all that remains, the run on the virtual clock makes the moves of an order of busy
clients, with the members in order of id, and ends when all clients are done. -/
theorem run_done {o : Options} {s : Simulation} (before : ∀ c ∈ s.clients, InStep o c) {fuel : Nat}
    (enough : remaining o s ≤ fuel) :
    (∃ order, BusyIn o order s ∧ s.run o fuel = s.movesIn o order) ∧
      ∀ c ∈ (s.run o fuel).clients, c.isDone o = true := by
  induction fuel generalizing s with
  | zero =>
    refine ⟨⟨[], trivial, rfl⟩, fun c (mem : c ∈ s.clients) => ?_⟩
    cases busy : c.isDone o with
    | true => rfl
    | false =>
      -- A busy client could make a move, and less would remain than nothing.
      obtain ⟨i, client⟩ := List.mem_iff_getElem?.1 mem
      have less := remaining_stepIn_lt (m := (.byId, i)) client (before c mem) busy
      omega
  | succ fuel ih =>
    simp only [run]
    split
    · next wake i due =>
      obtain ⟨k, c, rfl, client, busy⟩ := busy_of_earliest due
      rw [Nat.zero_add, step]
      have less := remaining_stepIn_lt (m := (.byId, k)) client
        (before c (List.mem_of_getElem? client)) busy
      obtain ⟨⟨order, rest, moves⟩, done⟩ :=
        ih ((stepIn_goes o (.byId, k) s).inStep before) (by omega)
      exact ⟨⟨(.byId, k) :: order, ⟨⟨c, client, busy⟩, rest⟩, moves⟩, done⟩
    · next idle => exact ⟨⟨[], trivial, rfl⟩, all_done_of_earliest idle⟩

theorem inStep_clients_start (c : Config) (o : Options) : ∀ cl ∈ (start c o).clients, InStep o cl := by
  intro cl mem
  rw [List.eq_of_mem_replicate mem]
  exact inStep_start o

/-- **Runs are bounded.** No order of busy clients is longer than the work at the start. -/
theorem BusyIn.length_le_work {c : Config} {o : Options} {order : List (Listing × Nat)}
    (busy : BusyIn o order (start c o)) : order.length ≤ o.work := by
  rw [← remaining_start c o]
  exact busy.length_le (inStep_clients_start c o)

/-- The simulation ends and reports on its end. -/
theorem simulate_ends (c : Config) (o : Options) :
    ∃ s, EndsIn c o s ∧ simulate c o = s.close o := by
  have enough : remaining o (start c o) ≤ o.work := Nat.le_of_eq (remaining_start c o)
  obtain ⟨⟨order, -, moves⟩, done⟩ := run_done (inStep_clients_start c o) enough
  exact ⟨_, ⟨⟨order, moves⟩, done⟩, rfl⟩

/-! ## Searches that overlap -/

namespace Overlap

/-- Every beat is one of a client that is not done. -/
def BusyIn (o : Options) : List Beat → Overlap → Prop
  | [], _ => True
  | b :: beats, t =>
    (∃ c ∈ t.sim.clients[b.client]?, c.isDone o = false) ∧ BusyIn o beats (t.step o b)

/-- More beats than all clients together can take on a hub of `n` members. -/
def work (o : Options) (n : Nat) : Nat :=
  o.clients * (o.requests * o.price (n + 2) 1)

/-- How many beats a client has spent on the search that it is in the middle of. -/
def spent (n : Nat) (c : Client) (search : Option Search) : Nat :=
  match c.stage, search with
  | .asking _ _, some q => n + 1 - q.rest.length
  | _, _ => 0

/-- How many beats a client has left at most. -/
def left (o : Options) (n : Nat) (t : Overlap) (i : Nat) : Nat :=
  match t.sim.clients[i]? with
  | some c => budget o (n + 2) 1 c - spent n c (t.search i)
  | none => 0

/-- What bounds the beats that are left: no search has more members before it than the hub has. -/
structure Bounded (o : Options) (n : Nat) (t : Overlap) : Prop where
  between : ∀ cl ∈ t.sim.clients, InStep o cl
  size : t.sim.hub.size = n
  rest : ∀ i q, t.search i = some q → q.rest.length ≤ n

section Beats

variable {o : Options} {n : Nat} {t t' : Overlap} {b : Beat} {c : Client}

theorem left_eq {i : Nat} (found : t.sim.clients[i]? = some c) :
    t.left o n i = budget o (n + 2) 1 c - spent n c (t.search i) := by
  rw [left, found]

theorem spent_search {request misses : Nat} (stage : c.stage = .asking request misses) (q : Search) :
    spent n c (some q) = n + 1 - q.rest.length := by
  simp only [spent, stage]

theorem spent_none (n : Nat) (c : Client) : spent n c none = 0 := by
  cases stage : c.stage <;> simp only [spent, stage]

/-- Arranging the members is one beat, asking each of them another. -/
theorem spent_le (n : Nat) (c : Client) (search : Option Search) : spent n c search ≤ n + 1 := by
  unfold spent
  split
  · exact Nat.sub_le _ _
  · exact Nat.zero_le _

/-- In the middle of a search a client has more beats left than the search has spent. -/
theorem lt_budget {request misses : Nat} (stage : c.stage = .asking request misses)
    (between : InStep o c) : n + 2 < budget o (n + 2) 1 c := by
  simp only [InStep, stage] at between
  have attempt := sub_mul_unfold between.2.1 (n + 2)
  simp only [budget, stage]
  omega

/-- A search has no more members to ask than there are, in whatever order it asks them. -/
theorem length_arranged_le (hub : Hub Policy SlotNode) (l torn : Listing) :
    (torn.order (hub.sortedIn l).1).length ≤ hub.size := by
  rw [(torn.perm _).length_eq, (hub.sortedIn_perm l).length_eq, candidates, List.length_map]
  exact List.length_filterMap_le _ _

/-- No beat lengthens a search. -/
theorem Steps.bounded (steps : Steps o t b t') (before : Bounded o n t) : Bounded o n t' := by
  refine ⟨steps.goes.inStep before.between, ?_, fun i q now => ?_⟩
  · rw [size, steps.members]
    exact before.size
  · by_cases own : i = b.client
    · subst own
      cases steps with
      | nobody out | moved found idle => exact before.rest _ q now
      | arranged found stage first =>
        cases (Function.update_self b.client _ t.search).symm.trans now
        exact before.size ▸ length_arranged_le _ _ _
      | refused found stage next unable =>
        cases (Function.update_self b.client _ t.search).symm.trans now
        exact Nat.le_trans (Nat.le_succ _) (before.rest _ _ next)
      | served | missed => cases (Function.update_self b.client _ t.search).symm.trans now
    · exact before.rest i q ((steps.search_of_ne own).symm.trans now)

/-- A beat takes nothing from other clients. -/
theorem Steps.left_of_ne (steps : Steps o t b t') {i : Nat} (other : i ≠ b.client) :
    t'.left o n i = t.left o n i := by
  rw [left, left, steps.client_of_ne other, steps.search_of_ne other]

/-- One step more of a search is one beat less. -/
theorem left_search_lt {request misses : Nat} (bounded : Bounded o n t)
    (found : t.sim.clients[b.client]? = some c) (found' : t'.sim.clients[b.client]? = some c)
    (stage : c.stage = .asking request misses)
    (more : spent n c (t.search b.client) < spent n c (t'.search b.client)) :
    t'.left o n b.client < t.left o n b.client := by
  have enough := lt_budget (n := n) stage (bounded.between c (List.mem_of_getElem? found))
  have most := spent_le n c (t'.search b.client)
  rw [left_eq found, left_eq found']
  omega

/-- A turn that ends a search, or that is none, pays for it. -/
theorem left_turn_lt {c' : Client} {request : Nat} {deed : Deed} (bounded : Bounded o n t)
    (found : t.sim.clients[b.client]? = some c) (found' : t'.sim.clients[b.client]? = some c')
    (turn : Turn o c request deed c') (within : spent n c (t.search b.client) < deed.cost (n + 2) 1) :
    t'.left o n b.client < t.left o n b.client := by
  have paid := turn.paid (bounded.between c (List.mem_of_getElem? found)) (n + 2) 1
  rw [left_eq found, left_eq found']
  omega

/-- A beat of a client that is not done leaves it less to do. -/
theorem Steps.left_lt (steps : Steps o t b t') (bounded : Bounded o n t)
    (found : t.sim.clients[b.client]? = some c) (busy : c.isDone o = false) :
    t'.left o n b.client < t.left o n b.client := by
  cases steps with
  | nobody out => cases out.symm.trans found
  | @moved d at_b idle =>
    cases at_b.symm.trans found
    rcases stepIn_cases o (b.listing, b.client) t.sim with ⟨out, -⟩ | ⟨d, hub', c', log, client, acts, after⟩
    · cases out.symm.trans found
    · cases client.symm.trans found
      rcases acts.turn with ⟨done, -⟩ | ⟨request, deed, turn⟩
      · cases busy.symm.trans done
      · have found' : (t.sim.stepIn o (b.listing, b.client)).clients[b.client]? = some c' := by
          rw [after]
          exact getElem?_set_own found
        refine left_turn_lt bounded found found' turn ?_
        have none : spent n c (t.search b.client) = 0 := by
          cases stage : c.stage with
          | asking request misses => exact absurd stage (idle request misses)
          | starting request | holding request session => simp only [spent, stage]
        rw [none]
        exact deed.one_le_cost (Nat.le_add_left 1 _) (Nat.le_refl 1)
  | @arranged d request misses at_b stage first =>
    cases at_b.symm.trans found
    have few : (b.torn.order (t.sim.hub.sortedIn b.listing).1).length ≤ n :=
      bounded.size ▸ length_arranged_le _ _ _
    refine left_search_lt bounded found found stage ?_
    dsimp only
    rw [Function.update_self, first, spent_none, spent_search stage]
    dsimp only
    omega
  | @refused d request misses k refused rest at_b stage next unable =>
    cases at_b.symm.trans found
    have few : rest.length + 1 ≤ n := bounded.rest _ _ next
    refine left_search_lt bounded found found stage ?_
    dsimp only
    rw [Function.update_self, next, spent_search stage, spent_search stage]
    simp only [List.length_cons]
    omega
  | @served d d' request misses k m refused rest at_b stage next node able turn =>
    cases at_b.symm.trans found
    refine left_turn_lt bounded found (getElem?_set_own found) turn ?_
    rw [next, spent_search stage]
    simp only [Deed.cost]
    omega
  | @missed d d' request misses refused reports at_b stage all turn gaveUp =>
    cases at_b.symm.trans found
    refine left_turn_lt bounded found (getElem?_set_own found) turn ?_
    rw [all, spent_search stage]
    simp only [Deed.cost]
    omega

theorem Steps.length_clients (steps : Steps o t b t') : t'.sim.clients.length = t.sim.clients.length := by
  rcases steps.goes with same | ⟨c, hub', c', log, -, -, after⟩
  · rw [same]
  · rw [after, List.length_set]

/-- No run of beats of busy clients is longer than all clients have left. -/
theorem BusyIn.length_le {beats : List Beat} (busy : BusyIn o beats t) (bounded : Bounded o n t) :
    beats.length ≤ ∑ i ∈ Finset.range t.sim.clients.length, t.left o n i := by
  induction beats generalizing t with
  | nil => exact Nat.zero_le _
  | cons b beats ih =>
    obtain ⟨⟨c, found, notDone⟩, rest⟩ := busy
    have steps := step_steps o t b
    have later := ih rest (steps.bounded bounded)
    rw [steps.length_clients] at later
    have less : ∑ i ∈ Finset.range t.sim.clients.length, (t.step o b).left o n i <
        ∑ i ∈ Finset.range t.sim.clients.length, t.left o n i := by
      apply Finset.sum_lt_sum
      · intro i _
        rcases eq_or_ne i b.client with rfl | other
        · exact Nat.le_of_lt (steps.left_lt bounded found notDone)
        · exact Nat.le_of_eq (steps.left_of_ne other)
      · refine ⟨b.client, Finset.mem_range.2 ?_, steps.left_lt bounded found notDone⟩
        exact (List.getElem?_eq_some_iff.1 found).1
    rw [List.length_cons]
    omega

end Beats

/-- **Runs are bounded** as well if searches overlap. -/
theorem BusyIn.length_le_work {c : Config} {o : Options} {beats : List Beat}
    (busy : BusyIn o beats (start c o)) : beats.length ≤ work o (Simulation.start c o).hub.size := by
  have bounded : Bounded o (Simulation.start c o).hub.size (start c o) :=
    ⟨inStep_clients_start c o, rfl, fun i q now => by cases now⟩
  have each : ∀ i ∈ Finset.range (start c o).sim.clients.length,
      (start c o).left o (Simulation.start c o).hub.size i =
        o.requests * o.price ((Simulation.start c o).hub.size + 2) 1 := by
    intro i mem
    have found : (start c o).sim.clients[i]? = some {} := by
      have lt : i < o.clients := by
        have lt := Finset.mem_range.1 mem
        rwa [start, Simulation.start, List.length_replicate] at lt
      rw [start, Simulation.start, List.getElem?_replicate, if_pos lt]
    rw [left_eq found]
    rfl
  calc beats.length ≤ _ := busy.length_le bounded
    _ = ∑ _ ∈ Finset.range (start c o).sim.clients.length, _ := Finset.sum_congr rfl each
    _ = work o (Simulation.start c o).hub.size := by
      rw [Finset.sum_const, Finset.card_range, start, Simulation.start, List.length_replicate]
      rfl

end Overlap

end SessionGrid.Simulation
