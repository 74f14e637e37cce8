import SessionGrid.Proofs.Simulation.Attempts
import SessionGrid.Proofs.Simulation.Completion
import SessionGrid.Proofs.Simulation.Sessions

/-!
# What a run may spend

Every entry of a diary is paid for by its client, so that all of them together cost no more than the clients
have to spend at the start (`Wrote.cost_le`). If attempts alone cost, no run has more of them than
`Options.attempts` for each request of each client. With the course of each request a diary accounts for all
attempts (`Chronicle`), whether the clients make whole moves or their searches overlap
(`attempts_of_requests`).
-/

namespace SessionGrid.Simulation

open Hub

/-! ## Turns that are paid for -/

section Cost

variable {c : Config} {o : Options} {d : List Entry} {cs : List Client}

theorem Wrote.inStep (wrote : Wrote o (start c o).clients d cs) : ∀ cl ∈ cs, InStep o cl := by
  induction wrote with
  | nothing => exact inStep_clients_start c o
  | turn before client turn ih =>
    exact forall_mem_exchange ih (turn.inStep (ih _ (List.mem_of_getElem? client)))

/-- The entries cost no more than their clients had to spend. -/
theorem Wrote.cost_le (wrote : Wrote o (start c o).clients d cs) (ask other : Nat) :
    (d.map fun e => e.deed.cost ask other).sum + (cs.map (budget o ask other)).sum ≤
      o.clients * (o.requests * o.price ask other) := by
  induction wrote with
  | nothing =>
    rw [List.map_nil, List.sum_nil, Nat.zero_add]
    exact Nat.le_of_eq (sum_budget_start c o ask other)
  | @turn d cs e before client turn ih =>
    have paid := turn.paid (before.inStep _ (List.mem_of_getElem? client)) ask other
    have exchange := sum_exchange (budget o ask other) client e.after
    rw [List.map_append, List.sum_append, List.map_singleton, List.sum_singleton]
    omega

/-- If attempts alone cost, and one each, the entries cost as much as there are attempts. -/
theorem length_attempts (d : List Entry) :
    (attempts d).length = (d.map fun e => e.deed.cost 1 0).sum := by
  induction d with
  | nil => rfl
  | cons e d ih =>
    rw [List.map_cons, List.sum_cons, ← ih, attempts, List.filter_cons, Entry.isAttempt]
    cases e.deed with
    | ask answer => exact Nat.add_comm _ _
    | verify answer => exact (Nat.zero_add _).symm
    | giveBack => exact (Nat.zero_add _).symm

/-- There are no more attempts than all requests of all clients may have. -/
theorem Wrote.length_attempts_le (wrote : Wrote o (start c o).clients d cs) :
    (attempts d).length ≤ o.clients * o.requests * o.attempts := by
  have price : o.price 1 0 = o.attempts := Nat.mul_one _
  have cost := wrote.cost_le 1 0
  rw [length_attempts, Nat.mul_assoc, ← price]
  omega

end Cost

/-! ## Requests -/

/-- The request was found to be one that the grid can serve. -/
def Entry.Passed (e : Entry) : Prop :=
  e.deed = .verify (.ok ())

section Requests

variable {o : Options} {c : Client} {n r : Nat} {d : List Entry}

theorem Trying.passed (trying : Trying o n d c) : ∃ e ∈ d, e.Passed := by
  induction trying with
  | @verified e deed quiet => exact ⟨e, List.mem_singleton_self e, deed⟩
  | missed trying deed more sleeps quiet ih =>
    obtain ⟨e, mem, passed⟩ := ih
    exact ⟨e, List.mem_append_left _ mem, passed⟩

theorem Held.passed (held : Held o d c) : ∃ e ∈ d, e.Passed := by
  cases held with
  | served trying deed counted =>
    obtain ⟨e, mem, passed⟩ := trying.passed
    exact ⟨e, List.mem_append_left _ mem, passed⟩

theorem Held.length_attempts_le (held : Held o d c) : (attempts d).length ≤ o.attempts := by
  cases held with
  | served trying deed counted =>
    obtain ⟨session, ask⟩ := deed
    rw [attempts_snoc_ask ask, List.length_append, trying.misses.1]
    exact trying.lt_attempts

/-- A request that has ended was refused, without any attempt, or it was verified and attempted. -/
theorem Ended.attempted_or_refused (ended : Ended o d) :
    (∃ e ∈ d, e.Passed) ∧ Attempted o d ∨
      (∀ e ∈ d, ¬ e.Passed) ∧ attempts d = [] ∧ counts d = ⟨0, 0, 1⟩ := by
  cases ended with
  | @rejected e error deed counted =>
    refine .inr ⟨?_, attempts_verify deed, ?_⟩
    · intro a mem passed
      rw [List.mem_singleton.1 mem] at passed
      cases deed.symm.trans passed
    · rw [← List.nil_append [e], counts_snoc, counted]
      rfl
  | gaveBack held deed quiet =>
    obtain ⟨e, mem, passed⟩ := held.passed
    exact .inl ⟨⟨e, List.mem_append_left _ mem, passed⟩, held.attempted quiet deed⟩
  | gaveUp trying deed last prompt counted =>
    obtain ⟨e, mem, passed⟩ := trying.passed
    exact .inl ⟨⟨e, List.mem_append_left _ mem, passed⟩, trying.attempted deed last prompt counted⟩

/-- However far a request has come, it was not attempted more often than allowed. -/
theorem Told.length_attempts_le (told : Told o c r d) : (attempts d).length ≤ o.attempts := by
  cases told with
  | past before ended =>
    rcases ended.attempted_or_refused with ⟨-, attempted⟩ | ⟨-, none, -⟩
    · exact attempted.bounded
    · rw [none]
      exact Nat.zero_le _
  | now here present =>
    rw [Present] at present
    split at present
    · rw [present]
      exact Nat.zero_le _
    · rw [present.misses.1]
      exact Nat.le_of_lt present.lt_attempts
    · exact present.length_attempts_le
  | future later nothing =>
    rw [nothing]
    exact Nat.zero_le _

/-- A client that is done is through with each of its requests. -/
theorem Client.le_request_of_isDone (done : c.isDone o = true) : o.requests ≤ c.stage.request := by
  cases stage : c.stage with
  | starting request =>
    simp only [Client.isDone, stage, decide_eq_true_eq] at done
    exact done
  | asking request misses => simp [Client.isDone, stage] at done
  | holding request session => simp [Client.isDone, stage] at done

/-- The count of attempts is a word of 32 bits and stays one when it is raised. -/
theorem Trying.misses_lt_word (trying : Trying o n d c) : n + 1 < UInt32.size := by
  have lt := trying.lt_attempts
  have bound : o.attempts = max 1 o.maxAttempts.toNat := rfl
  have word := o.maxAttempts.toNat_lt
  rw [UInt32.size]
  omega

end Requests

/-! ## All requests of a run -/

/-- What the diary `d` tells of the requests of all clients, which it has led to `cs`. -/
structure Chronicle (o : Options) (cs : List Client) (d : List Entry) : Prop where
  /-- All clients together ask for no more sessions than there are attempts for all requests. -/
  few : (attempts d).length ≤ o.clients * o.requests * o.attempts
  /-- The tally of a client is what its entries count. -/
  tally : ∀ (i : Nat) cl, cs[i]? = some cl → cl.tally = counts (ofClient i d)
  finished : ∀ (i : Nat) cl, cs[i]? = some cl → cl.isDone o = true → o.requests ≤ cl.stage.request
  /-- A client that asks has missed as often as it says, which leaves it an attempt, and leaves room in the
  word that counts the misses. -/
  asking : ∀ (i : Nat) cl, cs[i]? = some cl → ∀ r misses, cl.stage = .asking r misses →
    (attempts (ofRequest i r d)).length = misses ∧ misses < o.attempts ∧ misses + 1 < UInt32.size
  bounded : ∀ (i : Nat) cl, cs[i]? = some cl → ∀ r, (attempts (ofRequest i r d)).length ≤ o.attempts
  /-- A request that the client is through with was verified and attempted, or refused without any
  attempt. -/
  ended : ∀ (i : Nat) cl, cs[i]? = some cl → ∀ r, r < cl.stage.request →
    (∃ e ∈ ofRequest i r d, e.Passed) ∧ Attempted o (ofRequest i r d) ∨
      (∀ e ∈ ofRequest i r d, ¬ e.Passed) ∧ attempts (ofRequest i r d) = [] ∧
        counts (ofRequest i r d) = ⟨0, 0, 1⟩

/-- A diary that was written turn by turn tells all this. -/
theorem Wrote.chronicle {c : Config} {o : Options} {d : List Entry} {cs : List Client}
    (wrote : Wrote o (start c o).clients d cs) : Chronicle o cs d where
  few := wrote.length_attempts_le
  tally _ _ found := wrote.counts_ofClient found
  finished _ _ _ done := Client.le_request_of_isDone done
  asking := by
    intro i cl found r misses stage
    have here : r = cl.stage.request := by rw [stage]; rfl
    cases wrote.told found r with
    | past before ended => omega
    | future later nothing => omega
    | now same present =>
      rw [Present, stage] at present
      exact ⟨present.misses.1, present.lt_attempts, present.misses_lt_word⟩
  bounded _ _ found r := (wrote.told found r).length_attempts_le
  ended := by
    intro i cl found r before
    cases wrote.told found r with
    | past before ended => exact ended.attempted_or_refused
    | now same present => omega
    | future later nothing => omega

/-- **Attempts.** The simulation ends. In whatever order clients move and members are listed, and also if
searches overlap: clients that are not done take no more steps than a bound says, the hub has reported on
one search for each attempt in the diary, in the same order and with the same outcome, and the diary tells
of every request as `Chronicle` says. -/
theorem attempts_of_requests (c : Config) (o : Options) :
    (∃ s, EndsIn c o s ∧ simulate c o = s.close o) ∧
      (∀ order,
        let s := (start c o).movesIn o order
        let d := diary o order (start c o)
        (BusyIn o order (start c o) → order.length ≤ o.work) ∧
          List.Forall₂ Outcome (s.log.reverse.filterMap searchOutcome?) (attempts d) ∧
          Chronicle o s.clients d) ∧
      ∀ beats,
        let t := (Overlap.start c o).run o beats
        let d := Overlap.diary o beats (Overlap.start c o)
        (Overlap.BusyIn o beats (Overlap.start c o) →
          beats.length ≤ Overlap.work o (start c o).hub.size) ∧
          List.Forall₂ Outcome (t.sim.log.reverse.filterMap searchOutcome?) (attempts d) ∧
          Chronicle o t.sim.clients d := by
  refine ⟨simulate_ends c o, fun order => ?_, fun beats => ?_⟩
  · have wrote := wrote_movesIn o order (start c o)
    exact ⟨fun busy => busy.length_le_work, search_movesIn c o order, wrote.chronicle⟩
  · have wrote := Overlap.wrote_run o beats (Overlap.start c o)
    exact ⟨fun busy => busy.length_le_work, Overlap.search_run c o beats, wrote.chronicle⟩

/-- Two clients fill the two slots of a node; a third one is refused both attempts that it has. -/
theorem attempts_of_requests_three_clients :
    let o : Options :=
      { clients := 3
        requests := 1
        requested := Capabilities.empty
        hold := 1
        maxAttempts := 2
        backoff := 5 }
    let order : List (Listing × Nat) := [0, 0, 1, 1, 2, 2, 2, 0].map fun i => (.byId, i)
    let d := diary o order (start oneNode o)
    BusyIn o order (start oneNode o) ∧ order.length ≤ o.work ∧
      Attempted o (ofRequest 0 0 d) ∧ Attempted o (ofRequest 2 0 d) ∧
      (attempts (ofRequest 0 0 d)).length = 1 ∧ counts (ofRequest 0 0 d) = ⟨1, 0, 0⟩ ∧
      (attempts (ofRequest 2 0 d)).length = 2 ∧ counts (ofRequest 2 0 d) = ⟨0, 1, 0⟩ ∧
      (attempts (ofRequest 2 0 d)).map (·.after.wake) = [5, 5] := by
  intro o order d
  obtain ⟨-, all, -⟩ := attempts_of_requests oneNode o
  obtain ⟨work, -, chronicle⟩ := all order
  have busy : BusyIn o order (start oneNode o) := by decide +kernel
  have served : counts (ofRequest 0 0 d) = ⟨1, 0, 0⟩ := by decide +kernel
  have missed : counts (ofRequest 2 0 d) = ⟨0, 1, 0⟩ := by decide +kernel
  have ended : ∀ i, (∃ cl ∈ ((start oneNode o).movesIn o order).clients[i]?, 0 < cl.stage.request) →
      counts (ofRequest i 0 d) ≠ ⟨0, 0, 1⟩ → Attempted o (ofRequest i 0 d) := by
    rintro i ⟨cl, found, past⟩ unrefused
    rcases chronicle.ended i cl found 0 past with ⟨-, attempted⟩ | ⟨-, -, refused⟩
    · exact attempted
    · exact absurd refused unrefused
  refine ⟨busy, work busy, ended 0 (by decide +kernel) ?_, ended 2 (by decide +kernel) ?_,
    by decide +kernel, served, by decide +kernel, missed, by decide +kernel⟩
  · rw [served]
    decide
  · rw [missed]
    decide

end SessionGrid.Simulation
