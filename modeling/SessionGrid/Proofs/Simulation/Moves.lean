import SessionGrid.Proofs.Counting
import SessionGrid.Proofs.Hub.NewSession
import SessionGrid.Proofs.Simulation.Listed

/-!
# Moves of clients

`Acts` lists what one move of a client can do if the hub lists its members in a given order, with the hub
and the client after it, and `Turn` what it makes of the client alone. Every move of a simulation is one of
`Acts` (`stepIn_cases`). `Effect` forgets which member the hub should have found: what is left of a move is
also what is left of it if other clients move in the middle of it. Runs of whatever steps, each of which
`Goes` on with one such effect at most, are a `Trace`. Between two moves a client is `InStep`: its tally has
exactly the requests that it is through with.
-/

namespace SessionGrid.Simulation

open Hub

/-- How many requests have ended with a session or without one. -/
def Tally.ended (t : Tally) : Nat :=
  t.granted + t.misses + t.rejected

/-- How often a client asks at most for one session. -/
def Options.attempts (o : Options) : Nat :=
  max 1 o.maxAttempts.toNat

/-! ## One move -/

/-- What one move of a client does, by its stage, if the hub lists its members in the given order. -/
inductive Acts (o : Options) (l : Listing) (hub : Hub Policy SlotNode) (c : Client) :
    Hub Policy SlotNode → Client → Prop where
  | finished {request : Nat} (stage : c.stage = .starting request) (all : o.requests ≤ request) :
      Acts o l hub c hub c
  | verified {request : Nat} (stage : c.stage = .starting request) (more : request < o.requests)
      (passed : (hub.verify o.requested).1 = .ok ()) :
      Acts o l hub c hub { c with stage := .asking request 0 }
  | rejected {request : Nat} {e : HubError} (stage : c.stage = .starting request)
      (more : request < o.requests) (refused : (hub.verify o.requested).1 = .error e) :
      Acts o l hub c hub
        { c with
          stage := .starting (request + 1)
          tally := { c.tally with rejected := c.tally.rejected + 1 } }
  | served {request misses : Nat} {m : Candidate} {n : SlotNode}
      (stage : c.stage = .asking request misses)
      (first : hub.FirstAble o.requested (hub.sortedIn l).1 m n) :
      Acts o l hub c ((hub.sortedIn l).2.starting m.handle n)
        { stage := .holding request n.next
          wake := c.wake + o.hold
          tally := { c.tally with granted := c.tally.granted + 1 } }
  | gaveUp {request misses : Nat} (stage : c.stage = .asking request misses)
      (none : hub.NoneAble o.requested (hub.sortedIn l).1)
      (last : o.maxAttempts.toNat ≤ misses + 1) :
      Acts o l hub c (hub.sortedIn l).2
        { c with
          stage := .starting (request + 1)
          tally := { c.tally with misses := c.tally.misses + 1 } }
  | retried {request misses : Nat} (stage : c.stage = .asking request misses)
      (none : hub.NoneAble o.requested (hub.sortedIn l).1)
      (more : misses + 1 < o.maxAttempts.toNat) :
      Acts o l hub c (hub.sortedIn l).2
        { c with
          stage := .asking request (misses + 1)
          wake := c.wake + o.backoff * (misses + 1) }
  | released {request : Nat} {session : Session} (stage : c.stage = .holding request session) :
      Acts o l hub c (hub.finish session).state { c with stage := .starting (request + 1) }

/-- What a client does for a request in one move, with the answer of the hub. -/
inductive Deed where
  | verify (answer : Except HubError Unit)
  | ask (answer : Option Session)
  | giveBack

/-- How a client goes on from what it did for a request, whatever the hub is. -/
inductive Turn (o : Options) (c : Client) (request : Nat) : Deed → Client → Prop where
  | verified (stage : c.stage = .starting request) (more : request < o.requests) :
      Turn o c request (.verify (.ok ())) { c with stage := .asking request 0 }
  | rejected {e : HubError} (stage : c.stage = .starting request) (more : request < o.requests) :
      Turn o c request (.verify (.error e))
        { c with
          stage := .starting (request + 1)
          tally := { c.tally with rejected := c.tally.rejected + 1 } }
  | served {misses : Nat} {session : Session} (stage : c.stage = .asking request misses) :
      Turn o c request (.ask (some session))
        { stage := .holding request session
          wake := c.wake + o.hold
          tally := { c.tally with granted := c.tally.granted + 1 } }
  | gaveUp {misses : Nat} (stage : c.stage = .asking request misses)
      (last : o.maxAttempts.toNat ≤ misses + 1) :
      Turn o c request (.ask none)
        { c with
          stage := .starting (request + 1)
          tally := { c.tally with misses := c.tally.misses + 1 } }
  | retried {misses : Nat} (stage : c.stage = .asking request misses)
      (more : misses + 1 < o.maxAttempts.toNat) :
      Turn o c request (.ask none)
        { c with
          stage := .asking request (misses + 1)
          wake := c.wake + o.backoff * (misses + 1) }
  | released {session : Session} (stage : c.stage = .holding request session) :
      Turn o c request .giveBack { c with stage := .starting (request + 1) }

/-- A turn never leaves a client in its stage. -/
theorem Turn.stage_ne {o : Options} {c c' : Client} {request : Nat} {deed : Deed}
    (turn : Turn o c request deed c') : c'.stage ≠ c.stage := by
  cases turn with
  | verified stage | served stage | released stage =>
    rw [stage]
    exact nofun
  | rejected stage | gaveUp stage | retried stage => simp [stage]

/-- A client that is not done goes on with a request. -/
theorem Acts.turn {o : Options} {l : Listing} {hub hub' : Hub Policy SlotNode} {c c' : Client}
    (acts : Acts o l hub c hub' c') :
    c.isDone o = true ∧ c' = c ∨ ∃ request deed, Turn o c request deed c' := by
  cases acts with
  | finished stage all =>
    have done : c.isDone o = true := by
      simp only [Client.isDone, stage]
      exact decide_eq_true all
    exact .inl ⟨done, rfl⟩
  | verified stage more passed => exact .inr ⟨_, _, .verified stage more⟩
  | @rejected request e stage more refused => exact .inr ⟨_, .verify (.error e), .rejected stage more⟩
  | served stage first => exact .inr ⟨_, _, .served stage⟩
  | gaveUp stage none last => exact .inr ⟨_, _, .gaveUp stage last⟩
  | retried stage none more => exact .inr ⟨_, _, .retried stage more⟩
  | released stage => exact .inr ⟨_, _, .released stage⟩

/-- What is left of a move, or of a part of one, if it is not known which members the hub has asked: the
client rests, or it takes a turn, and a session it is served with comes from some node that is able. -/
inductive Effect (o : Options) (hub : Hub Policy SlotNode) (c : Client) :
    Hub Policy SlotNode → Client → Prop where
  | rests {policy : Policy} (same : policy.name = hub.policy.name) : Effect o hub c { hub with policy } c
  | verified {request : Nat} {c' : Client}
      (turn : Turn o c request (.verify (hub.verify o.requested).1) c') : Effect o hub c hub c'
  | missed {request : Nat} {policy : Policy} {c' : Client} (turn : Turn o c request (.ask none) c')
      (same : policy.name = hub.policy.name) : Effect o hub c { hub with policy } c'
  | served {request : Nat} {h : Handle} {n : SlotNode} {policy : Policy} {c' : Client}
      (turn : Turn o c request (.ask (some n.next)) c') (node : hub.node? h = some n)
      (able : n.Able o.requested) (same : policy.name = hub.policy.name) :
      Effect o hub c { hub.starting h n with policy } c'
  | released {request : Nat} {session : Session} {c' : Client} (stage : c.stage = .holding request session)
      (turn : Turn o c request .giveBack c') : Effect o hub c (hub.finish session).state c'

theorem Acts.effect {o : Options} {l : Listing} {hub hub' : Hub Policy SlotNode} {c c' : Client}
    (acts : Acts o l hub c hub' c') : Effect o hub c hub' c' := by
  have same : (hub.sortedIn l).2.policy.name = hub.policy.name :=
    Policy.name_arrange hub.policy (l.order hub.candidates)
  cases acts with
  | finished stage all => exact .rests rfl
  | @verified request stage more passed =>
    have turn : Turn o c request (.verify (.ok ())) _ := .verified stage more
    exact .verified (passed ▸ turn)
  | @rejected request e stage more refused =>
    have turn : Turn o c request (.verify (.error e)) _ := .rejected stage more
    exact .verified (refused ▸ turn)
  | served stage first => exact .served (.served stage) first.node first.able same
  | gaveUp stage none last => exact .missed (.gaveUp stage last) same
  | retried stage none more => exact .missed (.retried stage more) same
  | released stage => exact .released stage (.released stage)

/-- Whatever a client does, the members stay. -/
theorem Effect.sameMembers {o : Options} {hub hub' : Hub Policy SlotNode} {c c' : Client}
    (effect : Effect o hub c hub' c') : SameMembers hub hub' := by
  cases effect with
  | rests same => exact .of_eq rfl rfl
  | verified turn => exact .refl hub
  | missed turn same => exact .of_eq rfl rfl
  | served turn node able same => exact (sameMembers_starting node).trans (.of_eq rfl rfl)
  | released stage turn => exact sameMembers_finish hub _

/-- What a client makes of the answer to its request for a session is one of its turns. -/
theorem answered_turn {o : Options} {c : Client} {request misses : Nat} (i : Nat)
    (stage : c.stage = .asking request misses) (reply : Reply (Hub Policy SlotNode) (Option Session)) :
    Turn o c request (.ask reply.answer) (c.answered o i request misses reply).answer ∧
      (c.answered o i request misses reply).state = reply.state := by
  cases answer : reply.answer with
  | some session =>
    simp only [Client.answered, answer, and_true]
    exact .served stage
  | none =>
    simp only [Client.answered, answer]
    split
    · next last => exact ⟨.gaveUp stage last, rfl⟩
    · next more => exact ⟨.retried stage (Nat.lt_of_not_le more), rfl⟩

/-- To the report of the hub a client adds at most that it gave up. -/
theorem answered_log (o : Options) (i request misses : Nat) (c : Client)
    (reply : Reply (Hub Policy SlotNode) (Option Session)) :
    ∃ reports, (c.answered o i request misses reply).log = reply.log ++ reports ∧
      ∀ e ∈ reports, ∃ attempt, e = .gaveUp i request attempt := by
  unfold Client.answered
  split
  · exact ⟨[], (List.append_nil _).symm, List.forall_mem_nil _⟩
  · dsimp only
    split
    · exact ⟨_, rfl, List.forall_mem_singleton.2 ⟨_, rfl⟩⟩
    · exact ⟨[], (List.append_nil _).symm, List.forall_mem_nil _⟩

theorem actIn_acts (o : Options) (i : Nat) (l : Listing) (hub : Hub Policy SlotNode) (c : Client) :
    Acts o l hub c (c.actIn o i l hub).state (c.actIn o i l hub).answer := by
  cases stage : c.stage with
  | starting request =>
    simp only [Client.actIn, stage]
    split
    · next all => exact .finished stage all
    · next more =>
      split
      · next passed => exact .verified stage (Nat.lt_of_not_le more) (congrArg Prod.fst passed)
      · next refused => exact .rejected stage (Nat.lt_of_not_le more) (congrArg Prod.fst refused)
  | asking request misses =>
    rcases firstAble_or_noneAble hub o.requested (hub.sortedIn l).1 with ⟨m, n, first⟩ | none
    · simp only [Client.actIn, Client.answered, stage, newSessionIn_of_firstAble first]
      exact .served stage first
    · simp only [Client.actIn, Client.answered, stage, newSessionIn_of_noneAble none]
      split
      · next last => exact .gaveUp stage none last
      · next more => exact .retried stage none (Nat.lt_of_not_le more)
  | holding request session =>
    simp only [Client.actIn, stage]
    exact .released stage

/-- A move of no client does nothing, a move of a client is one of `Acts`. -/
theorem stepIn_cases (o : Options) (m : Listing × Nat) (s : Simulation) :
    (s.clients[m.2]? = none ∧ s.stepIn o m = s) ∨
      ∃ c hub' c' log, s.clients[m.2]? = some c ∧ Acts o m.1 s.hub c hub' c' ∧
        s.stepIn o m = ⟨hub', s.clients.set m.2 c', log⟩ := by
  cases client : s.clients[m.2]? with
  | none =>
    left
    simp only [stepIn, client, and_self]
  | some c =>
    right
    refine ⟨c, _, _, (c.actIn o m.2 m.1 s.hub).log.reverse ++ s.log, rfl,
      actIn_acts o m.2 m.1 s.hub c, ?_⟩
    simp only [stepIn, client]

/-- What holds before a move of no client and is kept by the moves of each holds after any move. -/
theorem stepIn_keeps {o : Options} {m : Listing × Nat} {s : Simulation} {I : Simulation → Prop}
    (before : I s)
    (keeps : ∀ {c hub' c' log}, s.clients[m.2]? = some c → Acts o m.1 s.hub c hub' c' →
      I ⟨hub', s.clients.set m.2 c', log⟩) : I (s.stepIn o m) := by
  rcases stepIn_cases o m s with ⟨-, same⟩ | ⟨c, hub', c', log, found, acts, after⟩
  · rw [same]
    exact before
  · rw [after]
    exact keeps found acts

/-! ## Runs of any steps -/

/-- One step of a client: nothing changes, or the client and the hub do by an effect. -/
def Goes (o : Options) (s : Simulation) (i : Nat) (s' : Simulation) : Prop :=
  s' = s ∨ ∃ c hub' c' log, s.clients[i]? = some c ∧ Effect o s.hub c hub' c' ∧
    s' = ⟨hub', s.clients.set i c', log⟩

theorem stepIn_goes (o : Options) (m : Listing × Nat) (s : Simulation) : Goes o s m.2 (s.stepIn o m) := by
  rcases stepIn_cases o m s with ⟨-, same⟩ | ⟨c, hub', c', log, found, acts, after⟩
  · exact .inl same
  · exact .inr ⟨c, hub', c', log, found, acts.effect, after⟩

/-- No step changes who is a member. -/
theorem Goes.sameMembers {o : Options} {s s' : Simulation} {i : Nat} (goes : Goes o s i s') :
    SameMembers s.hub s'.hub := by
  rcases goes with rfl | ⟨c, hub', c', log, -, effect, rfl⟩
  · exact .refl _
  · exact effect.sameMembers

/-- The states of a simulation after any lists of steps, each of which is one of a client. -/
structure Trace (c : Config) (o : Options) (α : Type) where
  state : List α → Simulation
  client : α → Nat
  first : state [] = start c o
  goes : ∀ before a, Goes o (state before) (client a) (state (before ++ [a]))

namespace Trace

variable {c : Config} {o : Options}

/-- The steps are moves. -/
def ofMoves (c : Config) (o : Options) : Trace c o (Listing × Nat) where
  state order := (start c o).movesIn o order
  client := Prod.snd
  first := rfl
  goes order m := by
    rw [movesIn_snoc]
    exact stepIn_goes o m _

/-- What holds at the start and is kept by every step holds in every state. -/
theorem induction {α : Type} (t : Trace c o α) {I : Simulation → Prop} (start : I (start c o))
    (step : ∀ {s i s'}, I s → Goes o s i s' → I s') (l : List α) : I (t.state l) := by
  induction l using List.reverseRecOn with
  | nil => exact t.first ▸ start
  | append_singleton l a ih => exact step ih (t.goes l a)

end Trace

/-! ## Clients between two moves -/

/-- The tally of a client has the requests that ended: all before the current one, and the current
one as well while its session is held. -/
def InStep (o : Options) (c : Client) : Prop :=
  match c.stage with
  | .starting request => request ≤ o.requests ∧ c.tally.ended = request
  | .asking request misses =>
    request < o.requests ∧ misses < o.attempts ∧ c.tally.ended = request
  | .holding request _ => request < o.requests ∧ c.tally.ended = request + 1

theorem inStep_start (o : Options) : InStep o {} :=
  ⟨Nat.zero_le _, rfl⟩

theorem Turn.inStep {o : Options} {c c' : Client} {request : Nat} {deed : Deed}
    (turn : Turn o c request deed c') (before : InStep o c) : InStep o c' := by
  cases turn with
  | verified stage more =>
    simp only [InStep, stage] at before
    exact ⟨more, Nat.lt_of_lt_of_le Nat.zero_lt_one (Nat.le_max_left _ _), before.2⟩
  | rejected stage more =>
    simp only [InStep, stage, Tally.ended] at before ⊢
    omega
  | served stage =>
    simp only [InStep, stage, Tally.ended] at before ⊢
    omega
  | gaveUp stage last =>
    simp only [InStep, stage, Tally.ended] at before ⊢
    omega
  | retried stage more =>
    simp only [InStep, stage] at before ⊢
    exact ⟨before.1, Nat.lt_of_lt_of_le more (Nat.le_max_right _ _), before.2.2⟩
  | released stage =>
    simp only [InStep, stage] at before ⊢
    exact before

theorem Effect.inStep {o : Options} {hub hub' : Hub Policy SlotNode} {c c' : Client}
    (effect : Effect o hub c hub' c') (before : InStep o c) : InStep o c' := by
  cases effect with
  | rests same => exact before
  | verified turn | missed turn same | served turn node able same | released stage turn =>
    exact turn.inStep before

theorem Goes.inStep {o : Options} {s s' : Simulation} {i : Nat} (goes : Goes o s i s')
    (before : ∀ cl ∈ s.clients, InStep o cl) : ∀ cl ∈ s'.clients, InStep o cl := by
  rcases goes with rfl | ⟨cl, hub', cl', log, found, effect, rfl⟩
  · exact before
  · exact forall_mem_exchange before (effect.inStep (before cl (List.mem_of_getElem? found)))

/-- A client that is done has made all its requests. -/
theorem InStep.ended_of_isDone {o : Options} {c : Client} (between : InStep o c)
    (done : c.isDone o = true) : c.tally.ended = o.requests := by
  cases stage : c.stage with
  | starting request =>
    simp only [Client.isDone, stage, decide_eq_true_eq] at done
    simp only [InStep, stage] at between
    rw [between.2]
    exact Nat.le_antisymm between.1 done
  | asking request misses => simp [Client.isDone, stage] at done
  | holding request session => simp [Client.isDone, stage] at done

end SessionGrid.Simulation
