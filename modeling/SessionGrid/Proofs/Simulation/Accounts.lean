import SessionGrid.Proofs.Simulation.Completion
import SessionGrid.Proofs.Simulation.Overlap

/-!
# What a report says

Once all clients are done, the report accounts for every request and for every session, node by node,
and no slot is left in use (`simulation_accounts`). This holds in whatever order the clients moved, whether
their searches for sessions overlap or not.
-/

namespace SessionGrid.Simulation

open Hub

/-! ## The total of all tallies -/

/-- A count that adds up over two tallies adds up over those of all clients. -/
theorem total_count (count : Tally → Nat) (zero : count {} = 0)
    (add : ∀ a b, count (a.add b) = count a + count b) (s : Simulation) :
    count s.total = (s.clients.map fun c => count c.tally).sum := by
  have fold : ∀ (cs : List Client) (t : Tally),
      count (cs.foldl (fun t c => t.add c.tally) t) =
        count t + (cs.map fun c => count c.tally).sum := by
    intro cs
    induction cs with
    | nil => exact fun t => rfl
    | cons c cs ih =>
      intro t
      rw [List.foldl_cons, ih, add, List.map_cons, List.sum_cons, Nat.add_assoc]
  rw [total, fold, zero, Nat.zero_add]

theorem total_count_eq_zero (count : Tally → Nat) (zero : count {} = 0)
    (add : ∀ a b, count (a.add b) = count a + count b) {s : Simulation}
    (none : ∀ c ∈ s.clients, count c.tally = 0) : count s.total = 0 := by
  rw [total_count count zero add, List.map_congr_left none, List.map_const',
    List.sum_replicate_nat, Nat.mul_zero]

theorem Tally.ended_add (a b : Tally) : (a.add b).ended = a.ended + b.ended := by
  simp only [ended, add]
  omega

/-- When all clients are done, all requests of all clients have ended. -/
theorem ended_total {o : Options} {s : Simulation} (between : ∀ c ∈ s.clients, InStep o c)
    (done : ∀ c ∈ s.clients, c.isDone o = true) :
    s.total.ended = s.clients.length * o.requests := by
  have each : (s.clients.map fun c => c.tally.ended) = s.clients.map fun _ => o.requests :=
    List.map_congr_left fun c mem => (between c mem).ended_of_isDone (done c mem)
  rw [total_count Tally.ended rfl Tally.ended_add, each, List.map_const', List.sum_replicate_nat]

/-- A client that is done holds no session. -/
theorem site_of_isDone {o : Options} {c : Client} (done : c.isDone o = true) : site c = none := by
  cases stage : c.stage with
  | starting request => rw [site, stage]
  | asking request misses => rw [site, stage]
  | holding request session => simp [Client.isDone, stage] at done

/-! ## Reports on the end -/

/-- The report `r` accounts for all requests of the options and for all sessions of the declared
nodes; `closed` is the hub at the end. -/
structure Accounts (c : Config) (o : Options) (r : Report) (closed : Hub Policy SlotNode) : Prop where
  requests : r.tally.granted + r.tally.misses + r.tally.rejected = o.clients * o.requests
  sessions : (r.nodes.map (·.granted)).sum = r.tally.granted
  /-- A node that does not advertise the request granted nothing. -/
  unasked : ∀ d ∈ c.nodes, d.node.advertises o.requested = false →
    ∀ n ∈ r.nodes, n.id = d.id → n.granted = 0
  /-- The reported nodes are those declared, in their order. -/
  declared : (r.nodes.map fun n => (n.id, n.maxSessions)) =
    c.nodes.map fun d => (d.id, d.maxSessions)
  shutDown : ∀ n ∈ r.nodes, n.isShutDown = true
  settings : r.policy = c.policy.label ∧ r.strict = c.strict ∧ r.requested = o.requested
  idle : ∀ n ∈ closed.nodes, n.active = 0

theorem Balanced.accounts {c : Config} {o : Options} {s : Simulation} (b : Balanced c o s)
    (done : ∀ cl ∈ s.clients, cl.isDone o = true) :
    Accounts c o (s.close o).1 s.hub.teardown.state := by
  have nodes : s.hub.teardown.state.nodes = s.hub.nodes.map SlotNode.shutDown :=
    b.stocked.nodes_teardown
  have reports : (s.close o).1.nodes = s.hub.nodes.map fun n => NodeReport.of n.shutDown := by
    simp only [close, nodes, List.map_map]
    rfl
  refine
    { requests := ?_
      sessions := ?_
      unasked := ?_
      declared := ?_
      shutDown := ?_
      settings := ⟨?_, ?_, rfl⟩
      idle := ?_ }
  · have ended := ended_total b.between done
    rw [b.clients] at ended
    exact ended
  · have granted : s.total.granted = (s.clients.map (·.tally.granted)).sum :=
      total_count Tally.granted rfl (fun _ _ => rfl) s
    rw [reports, List.map_map]
    exact b.granted.trans granted.symm
  · intro d declared silent r mem same
    rw [reports] at mem
    obtain ⟨n, stored, rfl⟩ := List.mem_map.1 mem
    rw [← b.stocked.nodes] at declared
    obtain ⟨m, member, rfl⟩ := List.mem_map.1 declared
    have node : n = m := b.stocked.eq_of_id stored member same
    subst node
    exact (b.booked_of_mem stored).unasked silent
  · rw [reports, List.map_map, ← b.stocked.nodes, List.map_map]
    rfl
  · intro r mem
    rw [reports] at mem
    obtain ⟨n, stored, rfl⟩ := List.mem_map.1 mem
    show decide (0 < n.shutDowns + 1) = true
    exact decide_eq_true (Nat.succ_pos _)
  · have policy := congrArg Hub.policy s.hub.teardown_frame
    exact (congrArg Policy.name policy).trans b.policy
  · have strict := congrArg Hub.strict s.hub.teardown_frame
    exact strict.trans b.strict
  · intro n mem
    rw [nodes] at mem
    obtain ⟨m, stored, rfl⟩ := List.mem_map.1 mem
    have unheld : held m.id s.clients = 0 :=
      held_eq_zero fun cl mem => site_of_isDone (done cl mem)
    exact UInt32.toNat_inj.1 ((b.booked_of_mem stored).slots.trans unheld)

/-- **The report accounts for everything.** The simulation of a configuration that was read from a text
comes to an end, and so does every order of busy clients. Wherever the steps of the clients end, in
whatever orders they were made and the members listed, and also if searches for sessions overlap, the
report accounts for all requests, sessions and nodes. -/
theorem simulation_accounts {text : String} {c : Config} (accepted : Config.ofTomlText text = .ok c)
    (o : Options) :
    (∃ s, EndsIn c o s ∧ simulate c o = s.close o) ∧
      (∀ order, BusyIn o order (start c o) → order.length ≤ o.work) ∧
      ∀ s, EndsIn c o s ∨ Overlap.Ends c o s → Accounts c o (s.close o).1 s.hub.teardown.state := by
  refine ⟨simulate_ends c o, fun order busy => busy.length_le_work, fun s ends => ?_⟩
  obtain ⟨⟨beats, rfl⟩, done⟩ := ends.elim Overlap.ends_of_endsIn id
  have valid : c.fault? = none := Config.fault?_of_ofTomlText accepted
  exact (Overlap.balanced_run valid o beats).accounts done

/-- Two clients with two requests each on two nodes of one slot: the node `a` grants two sessions and `b`
one, one request is missed, and all sessions are given back. -/
theorem simulation_accounts_crossed :
    Config.ofTomlText Overlap.crossingText = .ok Overlap.crossing ∧
      Overlap.Ends Overlap.crossing Overlap.crossingOptions Overlap.crossed ∧
      (Overlap.crossed.close Overlap.crossingOptions).1.tally = ⟨3, 1, 0⟩ ∧
      (Overlap.crossed.close Overlap.crossingOptions).1.nodes.map (·.granted) = [2, 1] ∧
      Accounts Overlap.crossing Overlap.crossingOptions (Overlap.crossed.close Overlap.crossingOptions).1
        Overlap.crossed.hub.teardown.state := by
  obtain ⟨ends, tally, granted⟩ := Overlap.crossed_ends
  obtain ⟨-, -, accounts⟩ :=
    simulation_accounts Overlap.ofTomlText_crossing Overlap.crossingOptions
  exact ⟨Overlap.ofTomlText_crossing, ends, tally, granted, accounts _ (.inr ends)⟩

end SessionGrid.Simulation
