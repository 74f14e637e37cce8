import SessionGrid.Proofs.Lists
import SessionGrid.Proofs.Simulation.Overlap

/-!
# The diary of a run

An `Entry` says what a client did for a request, with which answer of the hub, and the client before and
after. The entries of all moves in their order are the `diary` of a run. A search for a session makes one
entry; if searches overlap, it does so when it is over (`Overlap.diary`). Every entry is a `Turn` of its
client, which no other entry touches in between: so both diaries are ones that were written turn by turn
(`Wrote`), and whatever is true of such a diary is shown from one entry to the next. What the entries of a
client count is its tally (`Wrote.counts_ofClient`).
-/

namespace SessionGrid.Simulation

open Hub

/-- What a client does for one of its requests in one go. -/
structure Entry where
  client : Nat
  request : Nat
  deed : Deed
  before : Client
  after : Client

/-- What the move has to be noted for, unless it is one of no client or of a client that is done. -/
def noted? (o : Options) (m : Listing × Nat) (s : Simulation) : Option Entry :=
  match s.clients[m.2]? with
  | none => none
  | some c =>
    let after := (c.actIn o m.2 m.1 s.hub).answer
    match c.stage with
    | .starting request =>
      if o.requests ≤ request then none
      else some ⟨m.2, request, .verify (s.hub.verify o.requested).1, c, after⟩
    | .asking request _ =>
      some ⟨m.2, request, .ask (s.hub.newSessionIn m.1 o.requested).answer, c, after⟩
    | .holding request _ => some ⟨m.2, request, .giveBack, c, after⟩

/-- What the clients do in the moves of the given order. -/
def diary (o : Options) : List (Listing × Nat) → Simulation → List Entry
  | [], _ => []
  | m :: order, s => (noted? o m s).toList ++ diary o order (s.stepIn o m)

namespace Overlap

/-- The answer to the search of the client, if it is over with this beat. -/
def answer? (o : Options) (b : Beat) (t : Overlap) : Option (Option Session) :=
  match t.search b.client with
  | none => none
  | some ⟨_, k :: _⟩ => (t.sim.hub.tryGrant k.handle o.requested).answer.map some
  | some ⟨_, []⟩ => some none

/-- What the beat has to be noted for: a search if it is over, and else a move. -/
def noted? (o : Options) (b : Beat) (t : Overlap) : Option Entry :=
  match t.sim.clients[b.client]? with
  | none => none
  | some c =>
    match c.stage with
    | .asking request _ =>
      let after := ((t.step o b).sim.clients[b.client]?).getD c
      (t.answer? o b).map fun answer => ⟨b.client, request, .ask answer, c, after⟩
    | _ => Simulation.noted? o (b.listing, b.client) t.sim

/-- What the clients do in the given beats. -/
def diary (o : Options) : List Beat → Overlap → List Entry
  | [], _ => []
  | b :: beats, t => (noted? o b t).toList ++ diary o beats (t.step o b)

end Overlap

/-! ## One entry after the other -/

/-- The clients `cs` go on to others: by the turn of one of them, if there is an entry, and else not at
all. -/
inductive Writes (o : Options) (cs : List Client) : Option Entry → List Client → Prop where
  | nothing : Writes o cs none cs
  | turn {e : Entry} (client : cs[e.client]? = some e.before)
      (turn : Turn o e.before e.request e.deed e.after) : Writes o cs (some e) (cs.set e.client e.after)

/-- The clients `cs` have gone on to others by the turns in the diary, one after the other. -/
inductive Wrote (o : Options) (cs : List Client) : List Entry → List Client → Prop where
  | nothing : Wrote o cs [] cs
  | turn {d : List Entry} {cs' : List Client} {e : Entry} (before : Wrote o cs d cs')
      (client : cs'[e.client]? = some e.before) (turn : Turn o e.before e.request e.deed e.after) :
      Wrote o cs (d ++ [e]) (cs'.set e.client e.after)

theorem Wrote.append {o : Options} {cs cs' cs'' : List Client} {d : List Entry} {e? : Option Entry}
    (before : Wrote o cs d cs') (writes : Writes o cs' e? cs'') : Wrote o cs (d ++ e?.toList) cs'' := by
  cases writes with
  | nothing =>
    rw [Option.toList_none, List.append_nil]
    exact before
  | turn client turn => exact .turn before client turn

section Diary

variable {o : Options} {s : Simulation} {m : Listing × Nat}

/-- A client that is not done takes a turn, and the move is noted with the answer of the hub. -/
theorem noted?_of_turn {c : Client} (found : s.clients[m.2]? = some c) :
    c.isDone o = true ∧ noted? o m s = none ∧ (c.actIn o m.2 m.1 s.hub).answer = c ∨
      ∃ e, noted? o m s = some e ∧ e.client = m.2 ∧ e.before = c ∧
        e.after = (c.actIn o m.2 m.1 s.hub).answer ∧ Turn o c e.request e.deed e.after := by
  cases stage : c.stage with
  | starting request =>
    simp only [noted?, found, stage, Client.isDone, Client.actIn]
    split
    · next all => exact .inl ⟨decide_eq_true all, rfl, rfl⟩
    · next more =>
      have more : request < o.requests := Nat.lt_of_not_le more
      right
      split
      · next passed =>
        refine ⟨_, rfl, rfl, rfl, rfl, ?_⟩
        rw [passed]
        exact .verified stage more
      · next refused =>
        refine ⟨_, rfl, rfl, rfl, rfl, ?_⟩
        rw [refused]
        exact .rejected stage more
  | asking request misses =>
    right
    simp only [noted?, found, stage, Client.actIn, Client.answered]
    cases answer : (s.hub.newSessionIn m.1 o.requested).answer with
    | some session => exact ⟨_, rfl, rfl, rfl, rfl, .served stage⟩
    | none =>
      refine ⟨_, rfl, rfl, rfl, rfl, ?_⟩
      dsimp only
      split
      · next last => exact .gaveUp stage last
      · next more => exact .retried stage (Nat.lt_of_not_le more)
  | holding request session =>
    right
    simp only [noted?, found, stage, Client.actIn]
    exact ⟨_, rfl, rfl, rfl, rfl, .released stage⟩

/-- A move that is not noted leaves all clients as they are, one that is noted leaves all others. -/
theorem noted?_writes (o : Options) (m : Listing × Nat) (s : Simulation) :
    Writes o s.clients (noted? o m s) (s.stepIn o m).clients := by
  cases found : s.clients[m.2]? with
  | none =>
    simp only [noted?, stepIn, found]
    exact .nothing
  | some c =>
    have step : (s.stepIn o m).clients =
        s.clients.set m.2 (c.actIn o m.2 m.1 s.hub).answer := by
      simp only [stepIn, found]
    rcases noted?_of_turn found with ⟨-, unnoted, same⟩ | ⟨e, noted, client, rfl, after, turn⟩
    · rw [unnoted, step, same, set_own found]
      exact .nothing
    · rw [noted, step, ← after, ← client]
      exact .turn (client ▸ found) turn

/-- One more move adds its entry, if its client was not done. -/
theorem diary_snoc (o : Options) (order : List (Listing × Nat)) (m : Listing × Nat)
    (s : Simulation) :
    diary o (order ++ [m]) s = diary o order s ++ (noted? o m (s.movesIn o order)).toList := by
  induction order generalizing s with
  | nil => simp [diary, movesIn]
  | cons n order ih =>
    rw [List.cons_append, diary, ih, diary, List.append_assoc]
    rfl

/-- The diary of moves is written turn by turn. -/
theorem wrote_movesIn (o : Options) (order : List (Listing × Nat)) (s : Simulation) :
    Wrote o s.clients (diary o order s) (s.movesIn o order).clients := by
  induction order using List.reverseRecOn with
  | nil => exact .nothing
  | append_singleton order m ih =>
    rw [diary_snoc, movesIn_snoc]
    exact ih.append (noted?_writes o m _)

end Diary

namespace Overlap

section Answers

variable {o : Options} {b : Beat} {t : Overlap} {c : Client} {k : Candidate}
  {refused rest : List Candidate}

/-- A search is over with the first grant. -/
theorem answer?_of_able {n : SlotNode} (next : t.search b.client = some ⟨refused, k :: rest⟩)
    (node : t.sim.hub.node? k.handle = some n) (able : n.Able o.requested) :
    t.answer? o b = some (some n.next) := by
  simp only [answer?, next, tryGrant_of_able node able, Option.map_some]

theorem answer?_of_not_able (next : t.search b.client = some ⟨refused, k :: rest⟩)
    (unable : ∀ n, t.sim.hub.node? k.handle = some n → ¬ n.Able o.requested) :
    t.answer? o b = none := by
  simp only [answer?, next, tryGrant_of_not_able unable, Option.map_none]

/-- A beat that is no step of a search is noted as the move that it is. -/
theorem noted?_of_idle (found : t.sim.clients[b.client]? = some c)
    (idle : ∀ request misses, c.stage ≠ .asking request misses) :
    t.noted? o b = Simulation.noted? o (b.listing, b.client) t.sim := by
  cases stage : c.stage with
  | asking request misses => exact absurd stage (idle request misses)
  | starting request | holding request session => simp only [noted?, found, stage]

theorem noted?_of_asking {request misses : Nat} (found : t.sim.clients[b.client]? = some c)
    (stage : c.stage = .asking request misses) :
    t.noted? o b = (t.answer? o b).map fun answer =>
      ⟨b.client, request, .ask answer, c, ((t.step o b).sim.clients[b.client]?).getD c⟩ := by
  simp only [noted?, found, stage]

end Answers

/-- A beat that is not noted leaves all clients as they are, one that is noted leaves all others. -/
theorem noted?_writes (o : Options) (b : Beat) (t : Overlap) :
    Writes o t.sim.clients (t.noted? o b) (t.step o b).sim.clients := by
  have steps := step_steps o t b
  generalize after : t.step o b = t' at steps
  cases steps with
  | nobody out =>
    simp only [noted?, out]
    exact .nothing
  | moved found idle =>
    rw [noted?_of_idle found idle]
    exact Simulation.noted?_writes o (b.listing, b.client) t.sim
  | arranged found stage first =>
    rw [noted?_of_asking found stage, answer?, first]
    exact .nothing
  | refused found stage next unable =>
    rw [noted?_of_asking found stage, answer?_of_not_able next unable]
    exact .nothing
  | @served c c' request misses k n refused rest found stage next node able turn =>
    rw [noted?_of_asking found stage, answer?_of_able next node able, after, getElem?_set_own found]
    exact .turn (e := ⟨b.client, request, .ask (some n.next), c, c'⟩) found turn
  | @missed c c' request misses refused reports found stage all turn gaveUp =>
    rw [noted?_of_asking found stage, answer?, all, after, getElem?_set_own found]
    exact .turn (e := ⟨b.client, request, .ask none, c, c'⟩) found turn

/-- One more beat adds its entry, if it has one. -/
theorem diary_snoc (o : Options) (beats : List Beat) (b : Beat) (t : Overlap) :
    diary o (beats ++ [b]) t = diary o beats t ++ (noted? o b (t.run o beats)).toList := by
  induction beats generalizing t with
  | nil => simp [diary, run]
  | cons a beats ih =>
    rw [List.cons_append, diary, ih, diary, List.append_assoc]
    rfl

/-- The diary of beats is written turn by turn. -/
theorem wrote_run (o : Options) (beats : List Beat) (t : Overlap) :
    Wrote o t.sim.clients (diary o beats t) (t.run o beats).sim.clients := by
  induction beats using List.reverseRecOn with
  | nil => exact .nothing
  | append_singleton beats b ih =>
    rw [diary_snoc, run_snoc]
    exact ih.append (noted?_writes o b _)

end Overlap

/-! ## What is counted -/

/-- What one tally has more than another. -/
def Tally.sub (a b : Tally) : Tally :=
  ⟨a.granted - b.granted, a.misses - b.misses, a.rejected - b.rejected⟩

/-- What a move adds to the tally of its client. -/
def Entry.counted (e : Entry) : Tally :=
  e.after.tally.sub e.before.tally

/-- What the entries add to tallies, all together. -/
def counts (d : List Entry) : Tally :=
  d.foldl (fun t e => t.add e.counted) {}

@[simp] theorem counts_snoc (d : List Entry) (e : Entry) :
    counts (d ++ [e]) = (counts d).add e.counted := by
  rw [counts, List.foldl_append]
  rfl

/-- What the client with the given index did. -/
def ofClient (i : Nat) (d : List Entry) : List Entry :=
  d.filter fun e => decide (e.client = i)

/-- What the client with the given index did for one request. -/
def ofRequest (i r : Nat) (d : List Entry) : List Entry :=
  d.filter fun e => decide (e.client = i ∧ e.request = r)

section Counted

/-- The tally of a client only grows. -/
theorem Turn.tally_eq {o : Options} {c c' : Client} {request : Nat} {deed : Deed}
    (turn : Turn o c request deed c') : c'.tally = c.tally.add (c'.tally.sub c.tally) := by
  cases turn <;> simp [Tally.add, Tally.sub]

theorem ofClient_snoc (i : Nat) (d : List Entry) (e : Entry) :
    ofClient i (d ++ [e]) = if e.client = i then ofClient i d ++ [e] else ofClient i d := by
  rw [ofClient, List.filter_append]
  split
  · next own => simp [ofClient, own]
  · next other => simp [ofClient, other]

theorem ofRequest_snoc (i r : Nat) (d : List Entry) (e : Entry) :
    ofRequest i r (d ++ [e]) =
      if e.client = i ∧ e.request = r then ofRequest i r d ++ [e] else ofRequest i r d := by
  rw [ofRequest, List.filter_append]
  split
  · next own => simp [ofRequest, own]
  · next other => simp [ofRequest, other]

/-- The tally of a client is what its entries count, if all tallies were empty before the first. -/
theorem Wrote.counts_ofClient {c : Config} {o : Options} {d : List Entry} {cs : List Client}
    (wrote : Wrote o (start c o).clients d cs) {i : Nat} {cl : Client} (found : cs[i]? = some cl) :
    cl.tally = counts (ofClient i d) := by
  induction wrote generalizing i cl with
  | nothing =>
    rw [List.eq_of_mem_replicate (List.mem_of_getElem? found)]
    rfl
  | @turn d cs e before client turn ih =>
    rw [ofClient_snoc]
    split
    · next own =>
      subst own
      rw [getElem?_set_own client] at found
      cases found
      rw [counts_snoc, ← ih client]
      exact turn.tally_eq
    · next other =>
      rw [List.getElem?_set_ne other] at found
      exact ih found

end Counted

end SessionGrid.Simulation
