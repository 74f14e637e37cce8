import SessionGrid.Proofs.Lists
import SessionGrid.Proofs.Simulation.Ledger

/-!
# Searches that overlap

A hub holds no lock while it searches for a session: it arranges its members, and then asks one after the
other. On several threads the clients move on between these steps. A `Beat` is one step of one client: it
arranges the members for a search, asks the next of them, or makes a move that is no search. Such a move is
one step in any case, since it changes one node object at most, and no member comes or goes. A state is the
simulation together with the searches that are under way (`Overlap`).

A search that nobody disturbs is the one move that `Client.actIn` makes of it, so every run of moves is a
run of beats (`exists_run_eq_movesIn`). The books of the simulation agree after every beat
(`balanced_run`), and every search asks each member (`underway_run`).
-/

namespace SessionGrid.Simulation

open Hub

/-- A search for a session: the members that have refused, and those that are yet to be asked. -/
structure Search where
  refused : List Candidate
  rest : List Candidate
deriving DecidableEq

/-- The state of a simulation, with the search that each client is in the middle of. -/
structure Overlap where
  sim : Simulation
  search : Nat → Option Search

/-- One step of one client. If it arranges the members, the hub lists them in one order, and the policy
reads their loads one by one: when other clients change these meanwhile, it may come to another order. -/
structure Beat where
  client : Nat
  listing : Listing
  torn : Listing

/-- A step of a client that finds the members in order of id and reads all loads at once. -/
def Beat.plain (i : Nat) : Beat :=
  ⟨i, .byId, .byId⟩

namespace Overlap

/-- The client takes the answer to its search, which is over. -/
def conclude (o : Options) (i request misses : Nat) (c : Client) (t : Overlap)
    (reply : Reply (Hub Policy SlotNode) (Option Session)) : Overlap :=
  let reply := c.answered o i request misses reply
  { sim :=
      { hub := reply.state
        clients := t.sim.clients.set i reply.answer
        log := reply.log.reverse ++ t.sim.log }
    search := Function.update t.search i none }

/-- One step of the search of a client that asks for a session. -/
def seek (o : Options) (b : Beat) (request misses : Nat) (c : Client) (t : Overlap) : Overlap :=
  match t.search b.client with
  | none =>
    let (cs, hub) := t.sim.hub.sortedIn b.listing
    { sim := { t.sim with hub }
      search := Function.update t.search b.client (some ⟨[], b.torn.order cs⟩) }
  | some ⟨refused, k :: rest⟩ =>
    let reply := t.sim.hub.tryGrant k.handle o.requested
    match reply.answer with
    | some session =>
      t.conclude o b.client request misses c
        ⟨some session, reply.state, reply.log ++ [.requestServed k.id o.requested]⟩
    | none =>
      { sim := t.sim
        search := Function.update t.search b.client (some ⟨refused ++ [k], rest⟩) }
  | some ⟨refused, []⟩ =>
    t.conclude o b.client request misses c
      ⟨none, t.sim.hub, [.requestMissed o.requested refused.length]⟩

/-- One step of a client: of its search if it asks for a session, and else its move. -/
def step (o : Options) (t : Overlap) (b : Beat) : Overlap :=
  match t.sim.clients[b.client]? with
  | none => t
  | some c =>
    match c.stage with
    | .asking request misses => t.seek o b request misses c
    | _ => { t with sim := t.sim.stepIn o (b.listing, b.client) }

def run (o : Options) (t : Overlap) (beats : List Beat) : Overlap :=
  beats.foldl (step o) t

/-- The state before the first step. -/
def start (c : Config) (o : Options) : Overlap :=
  ⟨Simulation.start c o, fun _ => none⟩

theorem run_cons (o : Options) (t : Overlap) (b : Beat) (beats : List Beat) :
    t.run o (b :: beats) = (t.step o b).run o beats :=
  rfl

theorem run_append (o : Options) (t : Overlap) (beats later : List Beat) :
    t.run o (beats ++ later) = (t.run o beats).run o later :=
  List.foldl_append

theorem run_snoc (o : Options) (t : Overlap) (beats : List Beat) (b : Beat) :
    t.run o (beats ++ [b]) = (t.run o beats).step o b :=
  run_append o t beats [b]

/-- What holds of a state and is kept by every step holds after all steps. -/
theorem run_induction {o : Options} {I : Overlap → Prop}
    (step : ∀ (t : Overlap) (b : Beat), I t → I (t.step o b)) {t : Overlap} (start : I t)
    (beats : List Beat) : I (t.run o beats) := by
  induction beats generalizing t with
  | nil => exact start
  | cons b beats ih => exact ih (step t b start)

/-! ## One step -/

/-- What one step does, by the stage of the client and the state of its search. -/
inductive Steps (o : Options) (t : Overlap) (b : Beat) : Overlap → Prop where
  | nobody (out : t.sim.clients[b.client]? = none) : Steps o t b t
  | moved {c : Client} (found : t.sim.clients[b.client]? = some c)
      (idle : ∀ request misses, c.stage ≠ .asking request misses) :
      Steps o t b { t with sim := t.sim.stepIn o (b.listing, b.client) }
  | arranged {c : Client} {request misses : Nat} (found : t.sim.clients[b.client]? = some c)
      (stage : c.stage = .asking request misses) (first : t.search b.client = none) :
      Steps o t b
        { sim := { t.sim with hub := (t.sim.hub.sortedIn b.listing).2 }
          search := Function.update t.search b.client
            (some ⟨[], b.torn.order (t.sim.hub.sortedIn b.listing).1⟩) }
  | refused {c : Client} {request misses : Nat} {k : Candidate} {refused rest : List Candidate}
      (found : t.sim.clients[b.client]? = some c) (stage : c.stage = .asking request misses)
      (next : t.search b.client = some ⟨refused, k :: rest⟩)
      (unable : ∀ n, t.sim.hub.node? k.handle = some n → ¬ n.Able o.requested) :
      Steps o t b
        { sim := t.sim
          search := Function.update t.search b.client (some ⟨refused ++ [k], rest⟩) }
  | served {c c' : Client} {request misses : Nat} {k : Candidate} {n : SlotNode}
      {refused rest : List Candidate} (found : t.sim.clients[b.client]? = some c)
      (stage : c.stage = .asking request misses)
      (next : t.search b.client = some ⟨refused, k :: rest⟩)
      (node : t.sim.hub.node? k.handle = some n) (able : n.Able o.requested)
      (turn : Turn o c request (.ask (some n.next)) c') :
      Steps o t b
        { sim := ⟨t.sim.hub.starting k.handle n, t.sim.clients.set b.client c',
            .requestServed k.id o.requested :: .sessionGranted n.id n.next.id :: t.sim.log⟩
          search := Function.update t.search b.client none }
  | missed {c c' : Client} {request misses : Nat} {refused : List Candidate} {reports : List Event}
      (found : t.sim.clients[b.client]? = some c) (stage : c.stage = .asking request misses)
      (all : t.search b.client = some ⟨refused, []⟩) (turn : Turn o c request (.ask none) c')
      (gaveUp : ∀ e ∈ reports, ∃ attempt, e = .gaveUp b.client request attempt) :
      Steps o t b
        { sim := ⟨t.sim.hub, t.sim.clients.set b.client c',
            reports ++ .requestMissed o.requested refused.length :: t.sim.log⟩
          search := Function.update t.search b.client none }

theorem seek_steps {o : Options} {t : Overlap} {b : Beat} {c : Client} {request misses : Nat}
    (found : t.sim.clients[b.client]? = some c) (stage : c.stage = .asking request misses) :
    Steps o t b (t.seek o b request misses c) := by
  unfold seek
  split
  · next first => exact .arranged found stage first
  · next refused k rest next =>
    by_cases able : ∃ n, t.sim.hub.node? k.handle = some n ∧ n.Able o.requested
    · obtain ⟨n, node, able⟩ := able
      simp only [tryGrant_of_able node able, conclude]
      obtain ⟨turn, state⟩ := answered_turn b.client stage
        ⟨some n.next, t.sim.hub.starting k.handle n,
          [.sessionGranted n.id n.next.id] ++ [.requestServed k.id o.requested]⟩
      rw [state]
      exact .served found stage next node able turn
    · have unable : ∀ n, t.sim.hub.node? k.handle = some n → ¬ n.Able o.requested :=
        fun n node able' => able ⟨n, node, able'⟩
      simp only [tryGrant_of_not_able unable]
      exact .refused found stage next unable
  · next refused all =>
    obtain ⟨turn, state⟩ := answered_turn b.client stage
      ⟨none, t.sim.hub, [.requestMissed o.requested refused.length]⟩
    obtain ⟨reports, log, gaveUp⟩ := answered_log o b.client request misses c
      ⟨none, t.sim.hub, [.requestMissed o.requested refused.length]⟩
    simp only [conclude]
    rw [state, log, List.reverse_append, List.append_assoc]
    refine .missed found stage all turn fun e mem => ?_
    exact gaveUp e (List.mem_reverse.1 mem)

/-- Every beat is one of the steps listed. -/
theorem step_steps (o : Options) (t : Overlap) (b : Beat) : Steps o t b (t.step o b) := by
  unfold step
  split
  · next out => exact .nobody out
  · next c found =>
    split
    · next request misses stage => exact seek_steps found stage
    · next idle => exact .moved found idle

section Steps

variable {o : Options} {t t' : Overlap} {b : Beat}

/-- To the simulation a beat is one step of its client. -/
theorem Steps.goes (steps : Steps o t b t') : Goes o t.sim b.client t'.sim := by
  cases steps with
  | nobody out => exact .inl rfl
  | refused found stage next unable => exact .inl rfl
  | moved found idle => exact stepIn_goes o (b.listing, b.client) t.sim
  | @arranged c request misses found stage first =>
    have same : (t.sim.hub.sortedIn b.listing).2.policy.name = t.sim.hub.policy.name :=
      Policy.name_arrange t.sim.hub.policy (b.listing.order t.sim.hub.candidates)
    refine .inr ⟨c, _, c, t.sim.log, found, .rests same, ?_⟩
    rw [set_own found]
    rfl
  | served found stage next node able turn => exact .inr ⟨_, _, _, _, found, .served turn node able rfl, rfl⟩
  | missed found stage all turn gaveUp => exact .inr ⟨_, _, _, _, found, .missed turn rfl, rfl⟩

/-- Only its own steps change the search of a client. -/
theorem Steps.search_of_ne (steps : Steps o t b t') {i : Nat} (other : i ≠ b.client) :
    t'.search i = t.search i := by
  cases steps with
  | nobody out | moved found idle => rfl
  | arranged | refused | served | missed => exact Function.update_of_ne other _ _

/-- Only its own steps change a client. -/
theorem Steps.client_of_ne (steps : Steps o t b t') {i : Nat} (other : i ≠ b.client) :
    t'.sim.clients[i]? = t.sim.clients[i]? := by
  rcases steps.goes with same | ⟨c, hub', c', log, -, -, after⟩
  · rw [same]
  · rw [after]
    exact List.getElem?_set_ne (Ne.symm other)

/-- No beat changes who is a member. -/
theorem Steps.members (steps : Steps o t b t') : t'.sim.hub.members = t.sim.hub.members :=
  steps.goes.sameMembers.members

end Steps

/-! ## The books -/

/-- The steps of a run are beats. -/
def trace (c : Config) (o : Options) : Trace c o Beat where
  state beats := ((start c o).run o beats).sim
  client := Beat.client
  first := rfl
  goes beats b := by
    rw [run_snoc]
    exact (step_steps o _ b).goes

/-- **The books agree** as well when searches overlap. -/
theorem balanced_run {c : Config} (valid : c.fault? = none) (o : Options) (beats : List Beat) :
    Balanced c o ((start c o).run o beats).sim :=
  (trace c o).balanced valid beats

/-! ## Searches under way -/

/-- The search `q` is that of a client that asks for a session, and each member is asked in it once. -/
structure Pursued (t : Overlap) (i : Nat) (q : Search) : Prop where
  asking : ∃ c request misses, t.sim.clients[i]? = some c ∧ c.stage = .asking request misses
  members : ((q.refused ++ q.rest).map (·.handle)).Perm t.sim.hub.snapshot

def Underway (t : Overlap) : Prop :=
  ∀ i q, t.search i = some q → t.Pursued i q

/-- A search that is under way has asked some members and has the others before it. -/
theorem Steps.underway {o : Options} {t t' : Overlap} {b : Beat} (steps : Steps o t b t')
    (inv : t.sim.hub.Coherent) (before : t.Underway) : t'.Underway := by
  intro i q now
  by_cases own : i = b.client
  · subst own
    cases steps with
    | nobody out =>
      obtain ⟨c, request, misses, found, -⟩ := (before _ q now).asking
      cases out.symm.trans found
    | moved found idle =>
      obtain ⟨c, request, misses, found', stage⟩ := (before _ q now).asking
      cases found.symm.trans found'
      exact absurd stage (idle request misses)
    | arranged found stage first =>
      cases (Function.update_self b.client _ t.search).symm.trans now
      refine ⟨⟨_, _, _, found, stage⟩, ?_⟩
      have listed := (b.torn.perm _).trans (t.sim.hub.sortedIn_perm b.listing)
      exact inv.candidates_handles ▸ listed.map _
    | refused found stage next unable =>
      cases (Function.update_self b.client _ t.search).symm.trans now
      refine ⟨⟨_, _, _, found, stage⟩, ?_⟩
      rw [List.append_assoc, List.singleton_append]
      exact (before _ _ next).members
    | served | missed =>
      cases (Function.update_self b.client _ t.search).symm.trans now
  · rw [steps.search_of_ne own] at now
    obtain ⟨asking, members⟩ := before i q now
    refine ⟨?_, ?_⟩
    · rw [steps.client_of_ne own]
      exact asking
    · rw [snapshot, steps.members]
      exact members

/-- Every search in every run has asked some members and has the others before it. -/
theorem underway_run {c : Config} (valid : c.fault? = none) (o : Options) (beats : List Beat) :
    ((start c o).run o beats).Underway := by
  have both : Balanced c o ((start c o).run o beats).sim ∧ ((start c o).run o beats).Underway := by
    apply run_induction (I := fun t => Balanced c o t.sim ∧ t.Underway)
    · rintro t b ⟨balanced, underway⟩
      have steps := step_steps o t b
      exact ⟨balanced.goes steps.goes, steps.underway balanced.stocked.coherent underway⟩
    · exact ⟨balanced_start valid o, fun i q now => nomatch now⟩
  exact both.2

/-- Every member has refused or is yet to be asked. -/
theorem Pursued.exists_asked {t : Overlap} {i : Nat} {q : Search} (pursued : t.Pursued i q) {h : Handle}
    {n : SlotNode} (member : t.sim.hub.IsMember h n) : ∃ k ∈ q.refused ++ q.rest, k.handle = h := by
  have bound : (n.id.text, h) ∈ t.sim.hub.members := Bindings.mem_of_find? member.1
  have listed : h ∈ t.sim.hub.snapshot := List.mem_map_of_mem (f := Prod.snd) bound
  exact List.mem_map.1 (pursued.members.mem_iff.2 listed)

/-! ## Searches that nobody disturbs -/

section Alone

variable {o : Options} {t : Overlap} {b : Beat} {c : Client} {request misses : Nat}

/-- If only the client that searches takes steps, it gets the first grant of those yet to be asked. -/
theorem exists_run_eq_conclude {refused rest : List Candidate}
    (found : t.sim.clients[b.client]? = some c) (stage : c.stage = .asking request misses)
    (next : t.search b.client = some ⟨refused, rest⟩) :
    let reply := t.sim.hub.firstGrant o.requested rest
    ∃ n, t.run o (List.replicate n b) =
      t.conclude o b.client request misses c
        (if reply.answer.isSome then reply
          else ⟨none, t.sim.hub, [.requestMissed o.requested (refused.length + rest.length)]⟩) := by
  induction rest generalizing t refused with
  | nil =>
    refine ⟨1, ?_⟩
    simp only [List.replicate_one, run, List.foldl_cons, List.foldl_nil, step, found, stage, seek, next]
    rfl
  | cons k rest ih =>
    cases answer : (t.sim.hub.tryGrant k.handle o.requested).answer with
    | some session =>
      refine ⟨1, ?_⟩
      simp only [List.replicate_one, run, List.foldl_cons, List.foldl_nil, step, found, stage, seek, next,
        answer, firstGrant, Option.isSome_some, if_true]
    | none =>
      let t' : Overlap := ⟨t.sim, Function.update t.search b.client (some ⟨refused ++ [k], rest⟩)⟩
      have first : t.step o b = t' := by
        simp only [step, found, stage, seek, next, answer, t']
      obtain ⟨n, later⟩ := ih (t := t') found (Function.update_self _ _ _)
      refine ⟨n + 1, ?_⟩
      have count : (refused ++ [k]).length + rest.length = refused.length + (k :: rest).length := by
        simp only [List.length_append, List.length_cons, List.length_nil]
        omega
      have closed : Function.update t'.search b.client none = Function.update t.search b.client none :=
        Function.update_idem _ _ _
      calc t.run o (List.replicate (n + 1) b)
          = (t.step o b).run o (List.replicate n b) := rfl
        _ = t.conclude o b.client request misses c _ := by
          rw [first, later, count]
          simp only [conclude, closed]
          rfl
        _ = _ := by
          simp only [firstGrant, answer]
          rfl

/-- A search that nobody disturbs is one move of its client. -/
theorem exists_run_eq_stepIn (o : Options) {t : Overlap} (m : Listing × Nat)
    (first : t.search m.2 = none) :
    ∃ beats, t.run o beats = { t with sim := t.sim.stepIn o m } := by
  let b : Beat := ⟨m.2, m.1, .byId⟩
  cases found : t.sim.clients[m.2]? with
  | none =>
    refine ⟨[], ?_⟩
    simp only [stepIn, found]
    rfl
  | some c =>
    cases stage : c.stage with
    | starting request | holding request session =>
      refine ⟨[b], ?_⟩
      simp only [run, List.foldl_cons, List.foldl_nil, step, b, found, stage]
    | asking request misses =>
      let t' : Overlap :=
        { sim := { t.sim with hub := (t.sim.hub.sortedIn m.1).2 }
          search := Function.update t.search m.2 (some ⟨[], (t.sim.hub.sortedIn m.1).1⟩) }
      have arranged : t.step o b = t' := by
        simp only [step, b, found, stage, seek, first, t']
        rfl
      obtain ⟨n, later⟩ := exists_run_eq_conclude (o := o) (t := t') (b := b) found stage
        (Function.update_self _ _ _)
      refine ⟨b :: List.replicate n b, ?_⟩
      have closed : Function.update t'.search m.2 none = t.search := by
        rw [Function.update_idem, ← first, Function.update_eq_self]
      calc t.run o (b :: List.replicate n b)
          = (t.step o b).run o (List.replicate n b) := rfl
        _ = t'.conclude o m.2 request misses c (t.sim.hub.newSessionIn m.1 o.requested) := by
          rw [arranged, later]
          simp only [List.length_nil, Nat.zero_add]
          rfl
        _ = { t with sim := t.sim.stepIn o m } := by
          simp only [conclude, closed, stepIn, found, Client.actIn, stage]
          rfl

end Alone

/-- Every run of moves is a run of beats. -/
theorem exists_run_eq_movesIn (c : Config) (o : Options) (order : List (Listing × Nat)) :
    ∃ beats, (start c o).run o beats = ⟨(Simulation.start c o).movesIn o order, fun _ => none⟩ := by
  induction order using List.reverseRecOn with
  | nil => exact ⟨[], rfl⟩
  | append_singleton order m ih =>
    obtain ⟨beats, before⟩ := ih
    obtain ⟨later, moved⟩ := exists_run_eq_stepIn o
      (t := ⟨(Simulation.start c o).movesIn o order, fun _ => none⟩) m rfl
    refine ⟨beats ++ later, ?_⟩
    rw [run_append, before, moved, movesIn_snoc]

/-- Steps in some order, of searches that may overlap, lead from the start to `s`, where all clients have
made all requests. -/
def Ends (c : Config) (o : Options) (s : Simulation) : Prop :=
  (∃ beats, s = ((start c o).run o beats).sim) ∧ ∀ cl ∈ s.clients, cl.isDone o = true

/-- What ends in moves ends in beats. -/
theorem ends_of_endsIn {c : Config} {o : Options} {s : Simulation} (ends : EndsIn c o s) :
    Ends c o s := by
  obtain ⟨⟨order, rfl⟩, done⟩ := ends
  obtain ⟨beats, run⟩ := exists_run_eq_movesIn c o order
  exact ⟨⟨beats, by rw [run]⟩, done⟩

/-! ## Searches that cross -/

/-- A text that declares two nodes of one slot, which offer whatever asks for nothing. -/
def crossingText : String :=
  "[[node]]\nid = \"a\"\nmax_sessions = 1\ncapabilities = [\x7b\x7d]\n" ++
  "[[node]]\nid = \"b\"\nmax_sessions = 1\ncapabilities = [\x7b\x7d]\n"

def crossing : Config :=
  { nodes := [
      { id := ⟨"a"⟩, maxSessions := 1, capabilities := [Capabilities.empty] },
      { id := ⟨"b"⟩, maxSessions := 1, capabilities := [Capabilities.empty] }] }

theorem ofTomlText_crossing : Config.ofTomlText crossingText = .ok crossing := by
  cbv

/-- As many clients as slots. -/
def crossingOptions : Options :=
  { clients := 2
    requests := 2
    requested := Capabilities.empty
    hold := 0
    maxAttempts := 1
    backoff := 1 }

/-- Both clients find the node `a` first. The second one is granted its slot, so that it refuses the first
one. Before that one asks `b`, the second client gives the session back and is granted one of `b`, which is
idle longer. So `b` refuses the first client as well; its second request is served when all is over. -/
def crossingBeats : List Beat :=
  [0, 1].map .plain ++ .plain 0 :: .plain 1 :: ([1, 0, 1, 1].map .plain ++
    .plain 1 :: ([1, 0, 0, 1, 0].map .plain ++ .plain 0 :: [0, 0].map .plain))

/-- What a search starts with under the least-loaded policy, if there are two members. -/
theorem step_of_pair {o : Options} {t : Overlap} {b : Beat} {c : Client} {request misses : Nat}
    {x y : Candidate} (stage : c.stage = .asking request misses)
    (ready : t.sim.clients[b.client]? = some c ∧ t.search b.client = none ∧
      t.sim.hub.policy = .leastLoaded ∧ b.listing.order t.sim.hub.candidates = [x, y]) :
    t.step o b =
      { sim := t.sim
        search := Function.update t.search b.client
          (some ⟨[], b.torn.order (if x.key.le y.key then [x, y] else [y, x])⟩) } := by
  obtain ⟨found, first, policy, two⟩ := ready
  simp only [step, found, stage, seek, first, sortedIn_of_leastLoaded policy, two, Policy.byLoad_pair]

/-- A node without sessions as it is compared. -/
def idleAt (h : Handle) (id : String) (start : Option Instant) : Candidate :=
  ⟨h, ⟨id⟩, ⟨⟨0⟩, start⟩⟩

/-- The simulation after these steps. -/
def crossed : Simulation :=
  ((start crossing crossingOptions).run crossingOptions crossingBeats).sim

/-- The clients come to their ends with three requests granted and one missed. -/
theorem crossed_ends :
    Ends crossing crossingOptions crossed ∧ (crossed.close crossingOptions).1.tally = ⟨3, 1, 0⟩ ∧
      (crossed.close crossingOptions).1.nodes.map (·.granted) = [2, 1] := by
  let o := crossingOptions
  -- The policy is evaluated at the four places where a search starts, all else by the kernel.
  let t₁ := (start crossing o).run o ([0, 1].map .plain)
  let t₂ : Overlap :=
    ⟨t₁.sim, Function.update t₁.search 0 (some ⟨[], [idleAt 0 "a" none, idleAt 1 "b" none]⟩)⟩
  let t₃ : Overlap :=
    ⟨t₂.sim, Function.update t₂.search 1 (some ⟨[], [idleAt 0 "a" none, idleAt 1 "b" none]⟩)⟩
  let t₄ := t₃.run o ([1, 0, 1, 1].map .plain)
  let t₅ : Overlap :=
    ⟨t₄.sim, Function.update t₄.search 1 (some ⟨[], [idleAt 1 "b" none, idleAt 0 "a" (some 0)]⟩)⟩
  let t₆ := t₅.run o ([1, 0, 0, 1, 0].map .plain)
  let t₇ : Overlap :=
    ⟨t₆.sim, Function.update t₆.search 0 (some ⟨[], [idleAt 0 "a" (some 0), idleAt 1 "b" (some 1)]⟩)⟩
  have first : t₁.step o (.plain 0) = t₂ :=
    step_of_pair (c := { stage := .asking 0 0 }) (x := idleAt 0 "a" none) (y := idleAt 1 "b" none) rfl
      (by decide +kernel)
  have second : t₂.step o (.plain 1) = t₃ :=
    step_of_pair (c := { stage := .asking 0 0 }) (x := idleAt 0 "a" none) (y := idleAt 1 "b" none) rfl
      (by decide +kernel)
  have third : t₄.step o (.plain 1) = t₅ :=
    step_of_pair (c := { stage := .asking 1 0, tally := ⟨1, 0, 0⟩ })
      (x := idleAt 0 "a" (some 0)) (y := idleAt 1 "b" none) rfl (by decide +kernel)
  have fourth : t₆.step o (.plain 0) = t₇ :=
    step_of_pair (c := { stage := .asking 1 0, tally := ⟨0, 1, 0⟩ })
      (x := idleAt 0 "a" (some 0)) (y := idleAt 1 "b" (some 1)) rfl (by decide +kernel)
  have run : (start crossing o).run o crossingBeats = t₇.run o ([0, 0].map .plain) := by
    rw [crossingBeats, run_append, run_cons, run_cons, first, second, run_append, run_cons, third,
      run_append, run_cons, fourth]
  have last : crossed = (t₇.run o ([0, 0].map .plain)).sim := congrArg Overlap.sim run
  have done : ∀ cl ∈ crossed.clients, cl.isDone o = true := by
    rw [last]
    decide +kernel
  refine ⟨⟨⟨crossingBeats, rfl⟩, done⟩, ?_⟩
  rw [last]
  decide +kernel

end Overlap

end SessionGrid.Simulation
