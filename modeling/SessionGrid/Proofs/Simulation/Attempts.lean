import SessionGrid.Proofs.Simulation.Diary
import SessionGrid.Proofs.Simulation.Grid

/-!
# Attempts at a session

What a client does for one request goes one way: verified, it asks until it is served or has missed often
enough (`Trying`), and then it has `Ended`. A diary tells this of every client and request, at any moment
of the run (`Wrote.told`). The hub reports the outcome of every search it makes, and what it has reported
of a run is, one by one, the attempts in its diary (`search_movesIn`, `Overlap.search_run`).
-/

namespace SessionGrid.Simulation

open Hub

/-- The hub was asked for a session. -/
def Entry.isAttempt (e : Entry) : Bool :=
  match e.deed with
  | .ask _ => true
  | _ => false

/-- The hub was asked for a session and had one. -/
def Entry.Served (e : Entry) : Prop :=
  ∃ session, e.deed = .ask (some session)

/-- The hub was asked for a session and had none. -/
def Entry.Missed (e : Entry) : Prop :=
  e.deed = .ask none

/-- The attempts among the entries. -/
def attempts (d : List Entry) : List Entry :=
  d.filter Entry.isAttempt

/-- An entry that asks is one more attempt. -/
theorem attempts_snoc_ask {e : Entry} {answer : Option Session} (deed : e.deed = .ask answer)
    (d : List Entry) : attempts (d ++ [e]) = attempts d ++ [e] := by
  have attempt : e.isAttempt = true := by rw [Entry.isAttempt, deed]
  rw [attempts, List.filter_append, List.filter_cons_of_pos attempt]
  rfl

theorem attempts_snoc_giveBack {e : Entry} (deed : e.deed = .giveBack) (d : List Entry) :
    attempts (d ++ [e]) = attempts d := by
  have other : ¬ e.isAttempt = true := by simp [Entry.isAttempt, deed]
  rw [attempts, List.filter_append, List.filter_cons_of_neg other, List.filter_nil, List.append_nil]
  rfl

theorem attempts_verify {e : Entry} {answer : Except HubError Unit} (deed : e.deed = .verify answer) :
    attempts [e] = [] := by
  simp [attempts, Entry.isAttempt, deed]

theorem Entry.Served.not_missed {e : Entry} (served : e.Served) : ¬ e.Missed := by
  obtain ⟨session, deed⟩ := served
  intro missed
  cases deed.symm.trans missed

/-! ## The course of a request -/

/-- The request was verified and has been missed `n` times, each time with a sleep thereafter; `c` is the
client now. -/
inductive Trying (o : Options) : Nat → List Entry → Client → Prop where
  | verified {e : Entry} (deed : e.deed = .verify (.ok ())) (quiet : e.counted = {}) :
      Trying o 0 [e] e.after
  | missed {n : Nat} {d : List Entry} {e : Entry} (trying : Trying o n d e.before) (deed : e.Missed)
      (more : n + 1 < o.maxAttempts.toNat)
      (sleeps : e.after.wake = e.before.wake + o.backoff * (n + 1)) (quiet : e.counted = {}) :
      Trying o (n + 1) (d ++ [e]) e.after

/-- The request was served, and the client holds the session. -/
inductive Held (o : Options) : List Entry → Client → Prop where
  | served {n : Nat} {d : List Entry} {e : Entry} (trying : Trying o n d e.before) (deed : e.Served)
      (counted : e.counted = ⟨1, 0, 0⟩) : Held o (d ++ [e]) e.after

/-- All that a client does for a request. -/
inductive Ended (o : Options) : List Entry → Prop where
  | rejected {e : Entry} {error : HubError} (deed : e.deed = .verify (.error error))
      (counted : e.counted = ⟨0, 0, 1⟩) : Ended o [e]
  | gaveBack {d : List Entry} {e : Entry} (held : Held o d e.before) (deed : e.deed = .giveBack)
      (quiet : e.counted = {}) : Ended o (d ++ [e])
  | gaveUp {n : Nat} {d : List Entry} {e : Entry} (trying : Trying o n d e.before) (deed : e.Missed)
      (last : o.maxAttempts.toNat ≤ n + 1) (prompt : e.after.wake = e.before.wake)
      (counted : e.counted = ⟨0, 1, 0⟩) : Ended o (d ++ [e])

/-- The request that a client makes, or is about to make. -/
def Stage.request : Stage → Nat
  | .starting request => request
  | .asking request _ => request
  | .holding request _ => request

/-- What a client has done for its present request. -/
def Present (o : Options) (c : Client) (d : List Entry) : Prop :=
  match c.stage with
  | .starting _ => d = []
  | .asking _ misses => Trying o misses d c
  | .holding _ _ => Held o d c

/-- What a client has done for a request, which may have ended, be its present one or come later. -/
inductive Told (o : Options) (c : Client) (request : Nat) (d : List Entry) : Prop where
  | past (before : request < c.stage.request) (ended : Ended o d)
  | now (here : request = c.stage.request) (present : Present o c d)
  | future (later : c.stage.request < request) (nothing : d = [])

section Course

variable {o : Options} {c c' : Client} {request : Nat} {deed : Deed} {e : Entry} {d : List Entry}

theorem Turn.request_eq (turn : Turn o c request deed c') : c.stage.request = request := by
  cases turn with
  | verified stage more | rejected stage more | served stage | gaveUp stage last | retried stage more
  | released stage => rw [stage]; rfl

/-- A client stays with its request or starts with the next one. -/
theorem Turn.next_request (turn : Turn o c request deed c') :
    c'.stage.request = request ∨ c'.stage = .starting (request + 1) := by
  cases turn with
  | verified | served | retried => exact .inl rfl
  | rejected | gaveUp | released => exact .inr rfl

/-- A move leaves the account of every other request as it is. -/
theorem Turn.told_other (turn : Turn o c request deed c') {r : Nat} (other : request ≠ r)
    (told : Told o c r d) : Told o c' r d := by
  have here := turn.request_eq
  cases told with
  | past before ended =>
    refine .past ?_ ended
    rcases turn.next_request with stays | next
    · omega
    · rw [next, Stage.request]
      omega
  | now same present => exact absurd (here.symm.trans same.symm) other
  | future later nothing =>
    rcases turn.next_request with stays | next
    · exact .future (by omega) nothing
    · by_cases its : r = request + 1
      · refine .now (by rw [next, its]; rfl) ?_
        rw [Present, next]
        exact nothing
      · refine .future ?_ nothing
        rw [next, Stage.request]
        omega

/-- A move continues the account of its own request. -/
theorem Turn.told_own (turn : Turn o e.before e.request e.deed e.after)
    (present : Present o e.before d) : Told o e.after e.request (d ++ [e]) := by
  obtain ⟨client, request, deed, before, after⟩ := e
  dsimp only at turn present
  cases turn with
  | verified stage more =>
    rw [Present, stage] at present
    subst present
    exact .now rfl (.verified rfl (by simp [Entry.counted, Tally.sub]))
  | rejected stage more =>
    rw [Present, stage] at present
    subst present
    exact .past (Nat.lt_succ_self _) (.rejected rfl (by simp [Entry.counted, Tally.sub]))
  | served stage =>
    rw [Present, stage] at present
    exact .now rfl (.served present ⟨_, rfl⟩ (by simp [Entry.counted, Tally.sub]))
  | gaveUp stage last =>
    rw [Present, stage] at present
    exact .past (Nat.lt_succ_self _)
      (.gaveUp present rfl last rfl (by simp [Entry.counted, Tally.sub]))
  | retried stage more =>
    rw [Present, stage] at present
    exact .now rfl (.missed present rfl more rfl (by simp [Entry.counted, Tally.sub]))
  | released stage =>
    rw [Present, stage] at present
    exact .past (Nat.lt_succ_self _) (.gaveBack present rfl (by simp [Entry.counted, Tally.sub]))

end Course

/-- At any moment of a run the diary tells how far each request of each client has come. -/
theorem Wrote.told {c : Config} {o : Options} {d : List Entry} {cs : List Client}
    (wrote : Wrote o (start c o).clients d cs) {i : Nat} {cl : Client} (found : cs[i]? = some cl)
    (r : Nat) : Told o cl r (ofRequest i r d) := by
  induction wrote generalizing i cl with
  | nothing =>
    rw [List.eq_of_mem_replicate (List.mem_of_getElem? found)]
    cases r with
    | zero => exact .now rfl rfl
    | succ r => exact .future (Nat.succ_pos r) rfl
  | @turn d cs e before client turn ih =>
    rw [ofRequest_snoc]
    by_cases own : e.client = i
    · subst own
      rw [getElem?_set_own client] at found
      cases found
      have told := ih client
      by_cases same : e.request = r
      · subst same
        rw [if_pos ⟨rfl, rfl⟩]
        have here := turn.request_eq
        cases told with
        | past before ended => omega
        | now its present => exact turn.told_own present
        | future later nothing => omega
      · rw [if_neg fun both => same both.2]
        exact turn.told_other same told
    · rw [List.getElem?_set_ne own] at found
      rw [if_neg fun both => own both.1]
      exact ih found

/-! ## What the course says about attempts -/

/-- Missed attempts one after the other, with a sleep after each that is longer every time; `c` is the
client after the last. -/
structure Misses (o : Options) (as : List Entry) (c : Client) : Prop where
  missed : ∀ e ∈ as, e.Missed
  sleeps : ∀ j e, as[j]? = some e →
    j + 1 < o.maxAttempts.toNat ∧ e.after.wake = e.before.wake + o.backoff * (j + 1)
  joined : ∀ j e e', as[j]? = some e → as[j + 1]? = some e' → e'.before = e.after
  now : ∀ e ∈ as.getLast?, e.after = c

section Course

variable {o : Options} {n : Nat} {c : Client} {d as : List Entry} {e : Entry}

theorem Misses.nil (c : Client) : Misses o [] c := by
  constructor <;> simp

/-- An attempt after missed ones is made by the client that the last one left. -/
theorem Misses.joined_snoc (misses : Misses o as e.before) {j : Nat} {a b : Entry}
    (first : (as ++ [e])[j]? = some a) (second : (as ++ [e])[j + 1]? = some b) :
    as[j]? = some a ∧ b.before = a.after := by
  have lt : j + 1 < as.length + 1 := by
    have lt := (List.getElem?_eq_some_iff.1 second).1
    rwa [List.length_append] at lt
  rcases getElem?_snoc_cases first with old | ⟨rfl, rfl⟩
  · refine ⟨old, ?_⟩
    rcases getElem?_snoc_cases second with old' | ⟨at_end, rfl⟩
    · exact misses.joined j a b old old'
    · have last : as.getLast? = some a := by
        rw [List.getLast?_eq_getElem?, ← at_end, Nat.add_sub_cancel]
        exact old
      exact (misses.now a last).symm
  · omega

/-- One more miss after others, with a sleep that is longer than theirs. -/
theorem Misses.snoc (misses : Misses o as e.before) (missed : e.Missed)
    (more : as.length + 1 < o.maxAttempts.toNat)
    (sleeps : e.after.wake = e.before.wake + o.backoff * (as.length + 1)) :
    Misses o (as ++ [e]) e.after where
  missed := by
    intro a mem
    rcases List.mem_append.1 mem with old | new
    · exact misses.missed a old
    · rw [List.mem_singleton.1 new]
      exact missed
  sleeps := by
    intro j a found
    rcases getElem?_snoc_cases found with old | ⟨rfl, rfl⟩
    · exact misses.sleeps j a old
    · exact ⟨more, sleeps⟩
  joined _ _ _ first second := (misses.joined_snoc first second).2
  now := by
    intro a last
    rw [List.getLast?_append_of_ne_nil _ (List.cons_ne_nil e []), List.getLast?_singleton] at last
    cases last
    rfl

/-- A request that is still tried has an attempt left. -/
theorem Trying.lt_attempts (trying : Trying o n d c) : n < o.attempts := by
  cases trying with
  | verified => exact Nat.lt_of_lt_of_le Nat.zero_lt_one (Nat.le_max_left _ _)
  | missed trying deed more => exact Nat.lt_of_lt_of_le more (Nat.le_max_right _ _)

/-- All attempts so far were missed, one by one, and nothing has been counted. -/
theorem Trying.misses (trying : Trying o n d c) :
    (attempts d).length = n ∧ Misses o (attempts d) c ∧ counts d = {} := by
  induction trying with
  | @verified e deed quiet =>
    rw [attempts_verify deed]
    refine ⟨rfl, .nil _, ?_⟩
    rw [← List.nil_append [e], counts_snoc, quiet]
    rfl
  | @missed n d e trying deed more sleeps quiet ih =>
    obtain ⟨length, misses, none⟩ := ih
    rw [attempts_snoc_ask deed]
    subst length
    refine ⟨List.length_append, misses.snoc deed more sleeps, ?_⟩
    rw [counts_snoc, none, quiet]
    rfl

/-- What became of a request that was verified: at least one attempt and no more than allowed, of which all
but the last were missed. -/
structure Attempted (o : Options) (d : List Entry) : Prop where
  tried : 1 ≤ (attempts d).length
  bounded : (attempts d).length ≤ o.attempts
  /-- It was counted once, as granted or as missed. -/
  counted : counts d = ⟨1, 0, 0⟩ ∨ counts d = ⟨0, 1, 0⟩
  granted_iff : counts d = ⟨1, 0, 0⟩ ↔ ∃ e ∈ attempts d, e.Served
  /-- No attempt follows one that was served. -/
  stops : ∀ e ∈ (attempts d).dropLast, e.Missed
  missed_iff : counts d = ⟨0, 1, 0⟩ ↔
    (attempts d).length = o.attempts ∧ ∀ e ∈ attempts d, e.Missed
  /-- Between an attempt and the next one the client does nothing but sleep, as many times the backoff as
  it has missed. -/
  sleeps : ∀ j e e', (attempts d)[j]? = some e → (attempts d)[j + 1]? = some e' →
    e'.before = e.after ∧ e.after.wake = e.before.wake + o.backoff * (j + 1) ∧
      j + 1 < o.maxAttempts.toNat
  /-- After the last one, if it was missed, there is no sleep. -/
  prompt : ∀ e ∈ (attempts d).getLast?, e.Missed → e.after.wake = e.before.wake

/-- The last attempt, too, was made after the sleep of the one before. -/
theorem Misses.sleeps_snoc (misses : Misses o as e.before) (j : Nat) (a b : Entry)
    (first : (as ++ [e])[j]? = some a) (second : (as ++ [e])[j + 1]? = some b) :
    b.before = a.after ∧ a.after.wake = a.before.wake + o.backoff * (j + 1) ∧
      j + 1 < o.maxAttempts.toNat := by
  obtain ⟨old, joined⟩ := misses.joined_snoc first second
  obtain ⟨more, sleeps⟩ := misses.sleeps j a old
  exact ⟨joined, sleeps, more⟩

/-- A request that was served ends as granted once its session is given back. -/
theorem Held.attempted (held : Held o d c) (quiet : e.counted = {}) (deed : e.deed = .giveBack) :
    Attempted o (d ++ [e]) := by
  cases held with
  | @served n d last trying served counted =>
    obtain ⟨session, ask⟩ := served
    obtain ⟨length, misses, none⟩ := trying.misses
    have total : counts (d ++ [last] ++ [e]) = ⟨1, 0, 0⟩ := by
      rw [counts_snoc, counts_snoc, none, counted, quiet]
      rfl
    have all : attempts (d ++ [last] ++ [e]) = attempts d ++ [last] := by
      rw [attempts_snoc_giveBack deed, attempts_snoc_ask ask]
    have lt := trying.lt_attempts
    have mem : last ∈ attempts d ++ [last] := List.mem_append_right _ List.mem_cons_self
    refine
      { tried := ?_
        bounded := ?_
        counted := .inl total
        granted_iff := ?_
        stops := ?_
        missed_iff := ?_
        sleeps := ?_
        prompt := ?_ }
    · rw [all, List.length_append]
      exact Nat.le_add_left 1 _
    · rw [all, List.length_append, length]
      exact lt
    · rw [all]
      exact iff_of_true total ⟨last, mem, session, ask⟩
    · rw [all, List.dropLast_concat]
      exact misses.missed
    · rw [all, total]
      refine iff_of_false nofun fun both => ?_
      exact Entry.Served.not_missed ⟨session, ask⟩ (both.2 last mem)
    · rw [all]
      exact misses.sleeps_snoc
    · rw [all, List.getLast?_append_of_ne_nil _ (List.cons_ne_nil last []), List.getLast?_singleton]
      rintro _ ⟨⟩ missed
      exact absurd missed (Entry.Served.not_missed ⟨session, ask⟩)

/-- A request that has no attempt left ends as missed. -/
theorem Trying.attempted (trying : Trying o n d e.before) (missed : e.Missed)
    (last : o.maxAttempts.toNat ≤ n + 1) (prompt : e.after.wake = e.before.wake)
    (counted : e.counted = ⟨0, 1, 0⟩) : Attempted o (d ++ [e]) := by
  obtain ⟨length, misses, none⟩ := trying.misses
  have total : counts (d ++ [e]) = ⟨0, 1, 0⟩ := by
    rw [counts_snoc, none, counted]
    rfl
  have all : attempts (d ++ [e]) = attempts d ++ [e] := attempts_snoc_ask missed d
  have lt := trying.lt_attempts
  have full : n + 1 = o.attempts := by
    have bound : o.attempts = max 1 o.maxAttempts.toNat := rfl
    omega
  have missedAll : ∀ a ∈ attempts d ++ [e], a.Missed := by
    intro a mem
    rcases List.mem_append.1 mem with old | new
    · exact misses.missed a old
    · rw [List.mem_singleton.1 new]
      exact missed
  refine
    { tried := ?_
      bounded := ?_
      counted := .inr total
      granted_iff := ?_
      stops := ?_
      missed_iff := ?_
      sleeps := ?_
      prompt := ?_ }
  · rw [all, List.length_append]
    exact Nat.le_add_left 1 _
  · rw [all, List.length_append, length]
    exact lt
  · rw [all, total]
    refine iff_of_false nofun ?_
    rintro ⟨a, mem, served⟩
    exact served.not_missed (missedAll a mem)
  · rw [all, List.dropLast_concat]
    exact misses.missed
  · rw [all]
    refine iff_of_true total ⟨?_, missedAll⟩
    rw [List.length_append, length]
    exact full
  · rw [all]
    exact misses.sleeps_snoc
  · rw [all, List.getLast?_append_of_ne_nil _ (List.cons_ne_nil e []), List.getLast?_singleton]
    rintro _ ⟨⟩ -
    exact prompt

end Course

/-! ## What the hub reports of attempts -/

/-- Whether the hub found a node, if the event is its report on a search for one. -/
def searchOutcome? : Event → Option Bool
  | .requestServed .. => some true
  | .requestMissed .. => some false
  | _ => none

/-- The outcome is that of the attempt. -/
def Outcome (found : Bool) (e : Entry) : Prop :=
  if found then e.Served else e.Missed

section Reports

variable {P N : Type} [Node N]

/-- Adding a node searches for nothing. -/
theorem search_add (hub : Hub P N) (h : Handle) : (hub.add h).log.filterMap searchOutcome? = [] := by
  unfold add
  split
  · rfl
  · dsimp only
    split <;> rfl

theorem search_verify (hub : Hub P N) (requested : Capabilities) :
    (hub.verify requested).2.filterMap searchOutcome? = [] := by
  unfold verify
  split
  · split
    · rfl
    · split <;> rfl
  · dsimp only
    split <;> split <;> rfl

theorem search_finish (hub : Hub P N) (session : Session) :
    (hub.finish session).log.filterMap searchOutcome? = [] := by
  unfold finish release
  split
  · dsimp only
    split
    · split <;> rfl
    · rfl
  · rfl

/-- Nothing is searched for while the grid is made. -/
theorem search_grid (c : Config) : (grid c).log.filterMap searchOutcome? = [] := by
  rw [grid_eq]
  have all : ∀ (ds : List NodeConfig) (r : Reply (Hub Policy SlotNode) Unit),
      r.log.filterMap searchOutcome? = [] →
        (ds.foldl enroll r).log.filterMap searchOutcome? = [] := by
    intro ds
    induction ds with
    | nil => exact fun r none => none
    | cons d ds ih =>
      intro r none
      apply ih
      rw [enroll, List.filterMap_append, none, List.nil_append]
      exact search_add _ _
  exact all c.nodes _ rfl

/-- Every attempt is one search, which the hub reports on once. -/
theorem search_actIn {o : Options} {s : Simulation} {m : Listing × Nat} {c : Client}
    (found : s.clients[m.2]? = some c) :
    List.Forall₂ Outcome ((c.actIn o m.2 m.1 s.hub).log.filterMap searchOutcome?)
      (attempts (noted? o m s).toList) := by
  cases stage : c.stage with
  | starting request =>
    have verified := search_verify s.hub o.requested
    simp only [noted?, found, Client.actIn, stage]
    split
    · exact .nil
    · have unasked : ∀ after,
          attempts [⟨m.2, request, .verify (s.hub.verify o.requested).1, c, after⟩] = [] :=
        fun after => attempts_verify rfl
      split
      · next passed =>
        rw [passed] at verified
        rw [Option.toList_some, unasked, verified]
        exact .nil
      · next refused =>
        rw [refused] at verified
        rw [Option.toList_some, unasked, List.filterMap_append, verified]
        exact .nil
  | asking request misses =>
    simp only [noted?, found, Client.actIn, Client.answered, stage]
    rcases firstAble_or_noneAble s.hub o.requested (s.hub.sortedIn m.1).1 with ⟨k, n, first⟩ | none
    · simp only [newSessionIn_of_firstAble first]
      exact .cons ⟨_, rfl⟩ .nil
    · simp only [newSessionIn_of_noneAble none]
      split <;> exact .cons rfl .nil
  | holding request session =>
    simp only [noted?, found, Client.actIn, stage]
    rw [search_finish]
    exact .nil

end Reports

/-- What is reported from one state to the next are the outcomes of the attempts that are noted. -/
def Reported (before after : List Event) (noted : Option Entry) : Prop :=
  ∃ news, after = news ++ before ∧
    List.Forall₂ Outcome (news.reverse.filterMap searchOutcome?) (attempts noted.toList)

theorem Reported.nothing (log : List Event) : Reported log log none :=
  ⟨[], rfl, .nil⟩

/-- A move reports on the search in it, if there is one. -/
theorem search_stepIn (o : Options) (m : Listing × Nat) (s : Simulation) :
    Reported s.log (s.stepIn o m).log (noted? o m s) := by
  cases found : s.clients[m.2]? with
  | none =>
    simp only [stepIn, noted?, found]
    exact .nothing _
  | some cl =>
    refine ⟨(cl.actIn o m.2 m.1 s.hub).log.reverse, ?_, ?_⟩
    · simp only [stepIn, found]
    · rw [List.reverse_reverse]
      exact search_actIn found

namespace Overlap

/-- A search that is over has one report, and no other beat of it has any. -/
theorem search_step (o : Options) (b : Beat) (t : Overlap) :
    Reported t.sim.log (t.step o b).sim.log (t.noted? o b) := by
  have steps := step_steps o t b
  generalize t.step o b = t' at steps
  cases steps with
  | nobody out =>
    simp only [noted?, out]
    exact .nothing _
  | moved found idle =>
    rw [noted?_of_idle found idle]
    exact search_stepIn o (b.listing, b.client) t.sim
  | arranged found stage first =>
    rw [noted?_of_asking found stage, answer?, first]
    exact .nothing _
  | refused found stage next unable =>
    rw [noted?_of_asking found stage, answer?_of_not_able next unable]
    exact .nothing _
  | @served c c' request misses k n refused rest found stage next node able turn =>
    rw [noted?_of_asking found stage, answer?_of_able next node able]
    exact ⟨[.requestServed k.id o.requested, .sessionGranted n.id n.next.id], rfl, .cons ⟨_, rfl⟩ .nil⟩
  | @missed c c' request misses refused reports found stage all turn gaveUp =>
    rw [noted?_of_asking found stage, answer?, all]
    refine ⟨reports ++ [.requestMissed o.requested refused.length], by simp, ?_⟩
    have others : reports.reverse.filterMap searchOutcome? = [] := by
      rw [List.filterMap_eq_nil_iff]
      intro e mem
      obtain ⟨attempt, rfl⟩ := gaveUp e (List.mem_reverse.1 mem)
      rfl
    rw [List.reverse_append, List.filterMap_append, others]
    exact .cons rfl .nil

end Overlap

/-- Nothing is searched for before the first move. -/
theorem search_start (c : Config) (o : Options) :
    (start c o).log.reverse.filterMap searchOutcome? = [] := by
  simp only [start, List.reverse_cons, List.reverse_reverse, List.filterMap_append, search_grid]
  rfl

/-- More reports, on the attempts that are noted with them. -/
theorem Reported.append {before after : List Event} {noted : Option Entry} {d : List Entry}
    (reported : Reported before after noted)
    (earlier : List.Forall₂ Outcome (before.reverse.filterMap searchOutcome?) (attempts d)) :
    List.Forall₂ Outcome (after.reverse.filterMap searchOutcome?) (attempts (d ++ noted.toList)) := by
  obtain ⟨news, rfl, outcomes⟩ := reported
  rw [List.reverse_append, List.filterMap_append, attempts, List.filter_append]
  exact List.rel_append earlier outcomes

/-- The hub has reported on one search for each attempt, in the same order and with the same outcome. -/
theorem search_movesIn (c : Config) (o : Options) (order : List (Listing × Nat)) :
    List.Forall₂ Outcome (((start c o).movesIn o order).log.reverse.filterMap searchOutcome?)
      (attempts (diary o order (start c o))) := by
  induction order using List.reverseRecOn with
  | nil =>
    rw [movesIn, List.foldl_nil, search_start]
    exact .nil
  | append_singleton order m ih =>
    rw [movesIn_snoc, diary_snoc]
    exact (search_stepIn o m _).append ih

/-- So it has if searches overlap. -/
theorem Overlap.search_run (c : Config) (o : Options) (beats : List Beat) :
    List.Forall₂ Outcome (((Overlap.start c o).run o beats).sim.log.reverse.filterMap searchOutcome?)
      (attempts (Overlap.diary o beats (Overlap.start c o))) := by
  induction beats using List.reverseRecOn with
  | nil =>
    have first := search_start c o
    rw [run, List.foldl_nil, Overlap.start, first]
    exact .nil
  | append_singleton beats b ih =>
    rw [run_snoc, diary_snoc]
    exact (search_step o b _).append ih

end SessionGrid.Simulation
