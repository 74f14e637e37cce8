import Mathlib
import SessionGrid.Config.Basic
import SessionGrid.Proofs.Hub.SessionId
import SessionGrid.Proofs.Hub.SlotNode

/-!
# The past of one node

A slot node is asked for sessions, gets sessions back and is shut down, in any order and by anyone. It
keeps a count of its slots in use and no list of the sessions that occupy them: what it takes back is
told from the node id of a session and that count alone (`Recorded`). So a session that was given back
before frees a slot again while another one is in use (`repeated_release_frees_a_slot`). If only live
sessions are given back, each of them frees its slot once, and no more sessions are live than the node
has slots (`live_sessions_occupy_slots`).
-/

namespace SessionGrid.SlotNode

/-! ## Calls and what can be observed of them -/

/-- One call on a node. -/
inductive Call where
  | grant (now : Instant) (requested : Capabilities)
  | release (s : Session)
  | shutDown

/-- What a caller sees of a call. -/
inductive Outcome where
  | granted (s : Session)
  /-- No session was granted. -/
  | refused
  /-- The session was taken back. -/
  | freed (s : Session)
  /-- The session was not taken back. -/
  | kept (s : Session)
  | stopped
deriving DecidableEq

/-- One call: what is seen of it and the node after it. -/
def call (n : SlotNode) : Call → Outcome × SlotNode
  | .grant now requested =>
    match n.grant? now requested with
    | some g => (.granted g.session, g.node)
    | none => (.refused, n)
  | .release s =>
    match n.release? s with
    | some n' => (.freed s, n')
    | none => (.kept s, n)
  | .shutDown => (.stopped, n.shutDown)

/-- The node after a list of calls. -/
def after (n : SlotNode) (calls : List Call) : SlotNode :=
  calls.foldl (fun n c => (n.call c).2) n

/-- What was seen of a list of calls, the first one first. -/
def outcomes (n : SlotNode) : List Call → List Outcome
  | [] => []
  | c :: cs => (n.call c).1 :: (n.call c).2.outcomes cs

/-- One more call after others. -/
theorem after_snoc (n : SlotNode) (calls : List Call) (c : Call) :
    n.after (calls ++ [c]) = ((n.after calls).call c).2 := by
  simp only [after, List.foldl_append, List.foldl_cons, List.foldl_nil]

theorem outcomes_snoc (n : SlotNode) (calls : List Call) (c : Call) :
    n.outcomes (calls ++ [c]) = n.outcomes calls ++ [((n.after calls).call c).1] := by
  induction calls generalizing n with
  | nil => rfl
  | cons d calls ih => exact congrArg ((n.call d).1 :: ·) (ih (n.call d).2)

/-- What one call does, by the state of the node. -/
inductive Happens (n : SlotNode) : Call → Outcome → SlotNode → Prop where
  | granted {now : Instant} {requested : Capabilities} (able : n.Able requested) :
      Happens n (.grant now requested) (.granted n.next) (n.granting now)
  | refused {now : Instant} {requested : Capabilities} (unable : ¬ n.Able requested) :
      Happens n (.grant now requested) .refused n
  | freed {s : Session} (own : s.nodeId = n.id) (used : n.active ≠ 0) :
      Happens n (.release s) (.freed s) n.releasing
  | kept {s : Session} (refused : ¬ (s.nodeId = n.id ∧ n.active ≠ 0)) :
      Happens n (.release s) (.kept s) n
  | stopped : Happens n .shutDown .stopped n.shutDown

/-- Each call happens in one of the ways listed. -/
theorem call_happens (n : SlotNode) (c : Call) : n.Happens c (n.call c).1 (n.call c).2 := by
  cases c with
  | grant now requested =>
    by_cases able : n.Able requested
    · simp only [call, grant?_of_able able]
      exact .granted able
    · simp only [call, grant?_of_not_able able]
      exact .refused able
  | release s =>
    by_cases taken : s.nodeId = n.id ∧ n.active ≠ 0
    · simp only [call, release?_of_used taken.1 taken.2]
      exact .freed taken.1 taken.2
    · simp only [call, release?, if_neg taken]
      exact .kept taken
  | shutDown => exact .stopped

/-! ## Sessions of the past -/

@[simp] def Outcome.granted? : Outcome → Option Session
  | granted s => some s
  | _ => none

@[simp] def Outcome.freed? : Outcome → Option Session
  | freed s => some s
  | _ => none

/-- The sessions granted in the past, oldest first. -/
def grants (past : List Outcome) : List Session :=
  past.filterMap Outcome.granted?

/-- The sessions taken back in the past, each as often as it was taken back. -/
def frees (past : List Outcome) : List Session :=
  past.filterMap Outcome.freed?

/-- The sessions granted in the past that were never taken back. -/
def live (past : List Outcome) : List Session :=
  (grants past).filter fun s => decide (s ∉ frees past)

theorem grants_snoc (past : List Outcome) (out : Outcome) :
    grants (past ++ [out]) = grants past ++ out.granted?.toList := by
  cases out <;> simp [grants, Outcome.granted?]

theorem frees_snoc (past : List Outcome) (out : Outcome) :
    frees (past ++ [out]) = frees past ++ out.freed?.toList := by
  cases out <;> simp [frees, Outcome.freed?]

/-- The past is that of the node `n`, which started without a session under the declaration `d`. -/
structure Recorded (d : NodeConfig) (past : List Outcome) (n : SlotNode) : Prop where
  id : n.id = d.id
  limit : n.maxSessions = d.maxSessions
  numbers : grants past = (List.range n.nextSession).map (numbered d.id)
  slots : n.active.toNat + (frees past).length = (grants past).length
  within : n.active ≤ n.maxSessions

/-- A new node has no past. -/
theorem recorded_node (d : NodeConfig) : Recorded d [] d.node :=
  ⟨rfl, rfl, rfl, rfl, UInt32.zero_le⟩

/-- A call that neither grants a session nor takes one back. -/
theorem Recorded.quiet {d : NodeConfig} {past : List Outcome} {n n' : SlotNode} {out : Outcome}
    (r : Recorded d past n) (granted : out.granted? = none) (freed : out.freed? = none)
    (id : n'.id = n.id) (limit : n'.maxSessions = n.maxSessions)
    (number : n'.nextSession = n.nextSession) (active : n'.active = n.active) :
    Recorded d (past ++ [out]) n' := by
  have grants : grants (past ++ [out]) = SlotNode.grants past := by
    rw [grants_snoc, granted, Option.toList_none, List.append_nil]
  have frees : frees (past ++ [out]) = SlotNode.frees past := by
    rw [frees_snoc, freed, Option.toList_none, List.append_nil]
  refine ⟨id.trans r.id, limit.trans r.limit, ?_, ?_, ?_⟩
  · rw [grants, number]
    exact r.numbers
  · rw [grants, frees, active]
    exact r.slots
  · rw [active, limit]
    exact r.within

/-- Each call goes into the record with its outcome. -/
theorem Recorded.step {d : NodeConfig} {past : List Outcome} {n n' : SlotNode} {c : Call}
    {out : Outcome} (r : Recorded d past n) (happens : n.Happens c out n') :
    Recorded d (past ++ [out]) n' := by
  have slots := r.slots
  have within := UInt32.le_iff_toNat_le.1 r.within
  cases happens with
  | @granted now requested able =>
    have active := granting_active able.free now
    refine ⟨r.id, r.limit, ?_, ?_, ?_⟩
    · have next : n.next = numbered d.id n.nextSession := by rw [← r.id]; rfl
      rw [grants_snoc, r.numbers, granting, List.range_succ, List.map_append, Outcome.granted?, next]
      rfl
    · simp [grants_snoc, frees_snoc, active]
      omega
    · rw [UInt32.le_iff_toNat_le, active]
      exact UInt32.lt_iff_toNat_lt.1 able.free
  | @freed s own used =>
    have active := releasing_active used
    refine ⟨r.id, r.limit, ?_, ?_, ?_⟩
    · rw [grants_snoc, releasing]
      simpa using r.numbers
    · simp [grants_snoc, frees_snoc]
      omega
    · rw [UInt32.le_iff_toNat_le]
      show n.releasing.active.toNat ≤ n.maxSessions.toNat
      omega
  | refused unable => exact r.quiet rfl rfl rfl rfl rfl rfl
  | kept refused => exact r.quiet rfl rfl rfl rfl rfl rfl
  | stopped => exact r.quiet rfl rfl rfl rfl rfl rfl

/-- The books of a node after any calls. -/
theorem recorded_after (d : NodeConfig) (calls : List Call) :
    Recorded d (d.node.outcomes calls) (d.node.after calls) := by
  induction calls using List.reverseRecOn with
  | nil => exact recorded_node d
  | append_singleton calls c ih =>
    rw [outcomes_snoc, after_snoc]
    exact ih.step (call_happens _ c)

/-- Numbers are handed out once, so no session is granted twice. -/
theorem Recorded.nodup_grants {d : NodeConfig} {past : List Outcome} {n : SlotNode}
    (r : Recorded d past n) : (grants past).Nodup := by
  rw [r.numbers]
  apply List.nodup_range.map
  intro k l same
  exact (id_numbered_inj.1 (congrArg Session.id same)).2

/-- Every session that the node granted has its id. -/
theorem Recorded.nodeId_of_mem {d : NodeConfig} {past : List Outcome} {n : SlotNode}
    (r : Recorded d past n) {s : Session} (mem : s ∈ grants past) : s.nodeId = n.id := by
  rw [r.numbers] at mem
  obtain ⟨k, -, rfl⟩ := List.mem_map.1 mem
  exact r.id.symm

/-! ## Live sessions given back -/

/-- Whoever gives back a session of the node gives back one that is live. -/
def GivesBackLive (d : NodeConfig) (calls : List Call) : Prop :=
  ∀ before s after, calls = before ++ .release s :: after → s.nodeId = d.id →
    s ∈ live (d.node.outcomes before)

/-- Faithful calls were faithful from the beginning. -/
theorem GivesBackLive.of_append {d : NodeConfig} {calls later : List Call}
    (faithful : GivesBackLive d (calls ++ later)) : GivesBackLive d calls := by
  intro before s after split own
  apply faithful before s (after ++ later) _ own
  rw [split, List.append_assoc, List.cons_append]

/-- Faithful calls stay faithful with one more that gives back nothing but a live session. -/
theorem GivesBackLive.snoc {d : NodeConfig} {calls : List Call} {c : Call}
    (faithful : GivesBackLive d calls)
    (last : ∀ s, c = .release s → s.nodeId = d.id → s ∈ live (d.node.outcomes calls)) :
    GivesBackLive d (calls ++ [c]) := by
  intro before s after split own
  rcases List.eq_nil_or_concat after with rfl | ⟨front, e, rfl⟩
  · obtain ⟨rfl, same⟩ := List.append_inj' split rfl
    exact last s (List.cons.inj same).1 own
  · rw [List.concat_eq_append, ← List.cons_append, ← List.append_assoc] at split
    exact faithful before s front (List.append_inj' split rfl).1 own

/-- Live are the sessions that were granted and have not freed their slot. -/
theorem mem_live {past : List Outcome} {s : Session} :
    s ∈ live past ↔ s ∈ grants past ∧ s ∉ frees past := by
  rw [live, List.mem_filter, decide_eq_true_eq]

/-- Sessions that are taken back once each were all live when they were. -/
structure FreedOnce (past : List Outcome) : Prop where
  granted : ∀ s ∈ frees past, s ∈ grants past
  once : (frees past).Nodup

/-- Each session that was granted is live or has freed its slot. -/
theorem FreedOnce.length_live {past : List Outcome} (f : FreedOnce past)
    (distinct : (grants past).Nodup) :
    (live past).length + (frees past).length = (grants past).length := by
  have freed : ((grants past).filter fun s => !decide (s ∉ frees past)).Perm (frees past) := by
    apply (List.perm_ext_iff_of_nodup (distinct.filter _) f.once).2
    intro s
    simp only [List.mem_filter, decide_not, Bool.not_not, decide_eq_true_eq]
    exact ⟨fun both => both.2, fun mem => ⟨f.granted s mem, mem⟩⟩
  rw [live, ← freed.length_eq]
  exact (List.length_eq_length_filter_add fun s => decide (s ∉ frees past)).symm

/-- A live session that is given back frees its slot for the first time. -/
theorem FreedOnce.step {past : List Outcome} {n n' : SlotNode} {c : Call} {out : Outcome}
    (f : FreedOnce past) (happens : n.Happens c out n')
    (held : ∀ s, c = .release s → s.nodeId = n.id → s ∈ live past) : FreedOnce (past ++ [out]) := by
  obtain ⟨granted, once⟩ := f
  cases happens with
  | granted able =>
    refine ⟨fun t taken => ?_, by simpa [frees_snoc] using once⟩
    have old : t ∈ frees past := by simpa [frees_snoc] using taken
    rw [grants_snoc]
    exact List.mem_append_left _ (granted t old)
  | @freed s own used =>
    obtain ⟨mem, fresh⟩ := mem_live.1 (held s rfl own)
    refine ⟨fun t taken => ?_, ?_⟩
    · rw [frees_snoc, Outcome.freed?, Option.toList_some] at taken
      have old : t ∈ grants past := by
        rcases List.mem_append.1 taken with before | now
        · exact granted t before
        · exact List.mem_singleton.1 now ▸ mem
      simpa [grants_snoc] using old
    · rw [frees_snoc, Outcome.freed?, Option.toList_some, ← List.concat_eq_append]
      exact once.concat fresh
  | refused unable => exact ⟨by simpa [grants_snoc, frees_snoc] using granted, by simpa [frees_snoc]⟩
  | kept refused => exact ⟨by simpa [grants_snoc, frees_snoc] using granted, by simpa [frees_snoc]⟩
  | stopped => exact ⟨by simpa [grants_snoc, frees_snoc] using granted, by simpa [frees_snoc]⟩

/-- After faithful calls every slot was freed by its own session. -/
theorem GivesBackLive.freedOnce {d : NodeConfig} {calls : List Call}
    (faithful : GivesBackLive d calls) : FreedOnce (d.node.outcomes calls) := by
  induction calls using List.reverseRecOn with
  | nil => exact ⟨nofun, List.nodup_nil⟩
  | append_singleton calls c ih =>
    rw [outcomes_snoc]
    apply (ih faithful.of_append).step (call_happens (d.node.after calls) c)
    intro s same own
    exact faithful calls s [] (by rw [same]) (own.trans (recorded_after d calls).id)

/-- If only live sessions are given back, as many are live as there are slots in use. -/
theorem GivesBackLive.length_live {d : NodeConfig} {calls : List Call}
    (faithful : GivesBackLive d calls) :
    (live (d.node.outcomes calls)).length = (d.node.after calls).active.toNat := by
  have r := recorded_after d calls
  have balance := faithful.freedOnce.length_live r.nodup_grants
  rw [← r.slots] at balance
  exact Nat.add_right_cancel balance

/-- A live session that is given back frees its slot. -/
theorem GivesBackLive.release_freed {d : NodeConfig} {calls : List Call}
    (faithful : GivesBackLive d calls) {s : Session} (held : s ∈ live (d.node.outcomes calls)) :
    ((d.node.after calls).call (.release s)).1 = .freed s := by
  have own := (recorded_after d calls).nodeId_of_mem (mem_live.1 held).1
  have used : (d.node.after calls).active ≠ 0 := by
    intro zero
    have none := faithful.length_live
    rw [zero] at none
    exact List.ne_nil_of_mem held (List.eq_nil_of_length_eq_zero none)
  simp only [call, release?_of_used own used]

/-! ## What a release does -/

/-- **Releases go by node id and count.** After any calls on a node, by anyone: its slots in use are
the sessions it granted less those it took back, within its limit; it takes back whatever session
names it, as long as it took back fewer than it granted, which frees one slot, and no other session,
which changes nothing. If only live sessions were given back to it, each of them freed a slot, no
session did twice, and the live sessions are as many as the slots in use. -/
theorem live_sessions_occupy_slots (d : NodeConfig) (calls : List Call) :
    let past := d.node.outcomes calls
    let n := d.node.after calls
    (n.active.toNat + (frees past).length = (grants past).length ∧ n.active ≤ d.maxSessions) ∧
      (∀ s, s.nodeId = d.id → (frees past).length < (grants past).length →
        n.call (.release s) = (.freed s, { n with active := n.active - 1 }) ∧
          (n.active - 1).toNat + 1 = n.active.toNat) ∧
      (∀ s, ¬ (s.nodeId = d.id ∧ (frees past).length < (grants past).length) →
        n.call (.release s) = (.kept s, n)) ∧
      (GivesBackLive d calls →
        (∀ before s after, calls = before ++ .release s :: after → s.nodeId = d.id →
          ((d.node.after before).call (.release s)).1 = .freed s) ∧
        (frees past).Nodup ∧ (∀ s ∈ frees past, s ∈ grants past) ∧
        (live past).length = n.active.toNat ∧ (live past).length ≤ d.maxSessions.toNat) := by
  intro past n
  have r : Recorded d past n := recorded_after d calls
  have slots := r.slots
  have used_iff : n.active ≠ 0 ↔ (frees past).length < (grants past).length := by
    rw [ne_eq, ← UInt32.toNat_inj, UInt32.toNat_zero]
    omega
  refine ⟨⟨slots, r.limit ▸ r.within⟩, ?_, ?_, ?_⟩
  · intro s own left
    have used := used_iff.2 left
    refine ⟨?_, releasing_active used⟩
    simp only [call, release?_of_used (own.trans r.id.symm) used, releasing]
  · intro s refused
    rw [← used_iff, ← r.id] at refused
    simp only [call, release?, if_neg refused]
  · intro faithful
    refine ⟨?_, faithful.freedOnce.once, faithful.freedOnce.granted, faithful.length_live, ?_⟩
    · intro before s after split own
      have earlier : GivesBackLive d before := (split ▸ faithful).of_append
      exact earlier.release_freed (faithful before s after split own)
    · rw [faithful.length_live, ← r.limit]
      exact UInt32.le_iff_toNat_le.1 r.within

/-- Two sessions one after the other on the one slot of a node, each given back once. -/
theorem live_sessions_occupy_slots_one_slot :
    let d : NodeConfig := { id := ⟨"a"⟩, maxSessions := 1, capabilities := [Capabilities.empty] }
    let ask : Call := .grant 0 Capabilities.empty
    let first : Session := ⟨"a#0", ⟨"a"⟩⟩
    let calls : List Call := [ask, .release first, ask]
    GivesBackLive d calls ∧ live (d.node.outcomes calls) = [⟨"a#1", ⟨"a"⟩⟩] ∧
      (d.node.after calls).active.toNat = 1 ∧ (frees (d.node.outcomes calls)).Nodup := by
  intro d ask first calls
  have faithful : GivesBackLive d calls := by
    have none : GivesBackLive d [] := by
      intro before s after split
      exact absurd split (by simp)
    have asked : GivesBackLive d [ask] := none.snoc (fun s same => nomatch same)
    have released : GivesBackLive d [ask, .release first] := by
      apply asked.snoc
      rintro s same -
      cases same
      decide
    exact released.snoc (fun s same => nomatch same)
  obtain ⟨-, -, -, whole⟩ := live_sessions_occupy_slots d calls
  obtain ⟨-, once, -, length, -⟩ := whole faithful
  have one : live (d.node.outcomes calls) = [⟨"a#1", ⟨"a"⟩⟩] := by decide
  rw [one] at length
  exact ⟨faithful, one, length.symm, once⟩

/-- A session that is given back twice frees two slots while another session is live, so that three
sessions are live on two slots; and a session that the node never granted frees a slot as well. -/
theorem repeated_release_frees_a_slot :
    let d : NodeConfig := { id := ⟨"a"⟩, maxSessions := 2, capabilities := [Capabilities.empty] }
    let ask : Call := .grant 0 Capabilities.empty
    let first : Session := ⟨"a#0", ⟨"a"⟩⟩
    let never : Session := ⟨"a#7", ⟨"a"⟩⟩
    let twice := d.node.outcomes [ask, ask, .release first, .release first, ask, ask]
    let stale := d.node.outcomes [ask, .release never]
    (frees twice = [first, first] ∧ d.maxSessions.toNat < (live twice).length) ∧
      (frees stale = [never] ∧ never ∉ grants stale) := by
  decide

end SessionGrid.SlotNode
