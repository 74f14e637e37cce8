import SessionGrid.Proofs.Hub.NodeHistory

/-!
# What a node counts

A node counts its slots in use, the sessions it granted and the numbers it handed out, and it notes when
its last session started. Whatever it is asked for and whatever is given back to it, the counts agree
with each other and with what was seen of its past, no count goes beyond its limit, and a call that is
turned down leaves the node as it was (`counts_agree`).
-/

namespace SessionGrid.SlotNode

/-! ## Starts -/

/-- The instant at which the call started a session, if it was answered with one. -/
def Call.start? : Call → Outcome → Option Instant
  | .grant now _, .granted _ => some now
  | _, _ => none

/-- The instants at which sessions started in a list of calls, oldest first. -/
def starts (n : SlotNode) : List Call → List Instant
  | [] => []
  | c :: cs => (c.start? (n.call c).1).toList ++ (n.call c).2.starts cs

/-- One more call adds its start, if it granted a session. -/
theorem starts_snoc (n : SlotNode) (calls : List Call) (c : Call) :
    n.starts (calls ++ [c]) =
      n.starts calls ++ (c.start? ((n.after calls).call c).1).toList := by
  induction calls generalizing n with
  | nil => exact List.append_nil _
  | cons d calls ih =>
    rw [List.cons_append, starts, ih, starts, List.append_assoc]
    rfl

/-- The node has counted the sessions that started at the given instants, and notes the last of them. -/
structure Counted (starts : List Instant) (n : SlotNode) : Prop where
  granted : n.granted = starts.length
  numbers : n.nextSession = starts.length
  last : n.lastStart = starts.getLast?

/-- Each call that happens keeps the counts in agreement. -/
theorem Counted.step {starts : List Instant} {n n' : SlotNode} {c : Call} {out : Outcome}
    (k : Counted starts n) (happens : n.Happens c out n') :
    Counted (starts ++ (c.start? out).toList) n' := by
  have quiet : Counted (starts ++ []) n := (List.append_nil starts).symm ▸ k
  cases happens with
  | @granted now requested able =>
    refine ⟨?_, ?_, ?_⟩
    · rw [Call.start?, Option.toList_some, List.length_append, ← k.granted]
      rfl
    · rw [Call.start?, Option.toList_some, List.length_append, ← k.numbers]
      rfl
    · exact (List.getLast?_concat).symm
  | freed own used => exact ⟨quiet.granted, quiet.numbers, quiet.last⟩
  | refused unable => exact quiet
  | kept refused => exact quiet
  | stopped => exact ⟨quiet.granted, quiet.numbers, quiet.last⟩

/-- After any calls on a new node the counts agree. -/
theorem counted_after (d : NodeConfig) (calls : List Call) :
    Counted (d.node.starts calls) (d.node.after calls) := by
  induction calls using List.reverseRecOn with
  | nil => exact ⟨rfl, rfl, rfl⟩
  | append_singleton calls c ih =>
    rw [starts_snoc, after_snoc]
    exact ih.step (call_happens _ c)

/-- A node has no last start exactly if it never granted a session. -/
theorem Counted.lastStart_eq_none_iff {starts : List Instant} {n : SlotNode} (k : Counted starts n) :
    n.lastStart = none ↔ n.granted = 0 := by
  rw [k.last, k.granted, List.getLast?_eq_none_iff, List.length_eq_zero_iff]

/-! ## Slots -/

/-- A node within its limit is full exactly if it is at the limit. -/
theorem isFull_iff {n : SlotNode} (within : n.active ≤ n.maxSessions) :
    n.isFull = true ↔ n.active = n.maxSessions := by
  rw [isFull, decide_eq_true_eq]
  constructor
  · exact UInt32.le_antisymm within
  · intro same
    exact same ▸ UInt32.le_refl _

/-- The node did not do what it was called for. -/
def Outcome.IsRefusal : Outcome → Prop
  | refused | kept _ => True
  | _ => False

/-- A call counts one slot up or down without a wrap, and a refusal changes nothing. -/
structure ExactStep (n : SlotNode) (out : Outcome) (n' : SlotNode) : Prop where
  granted : ∀ s, out = .granted s → n'.active.toNat = n.active.toNat + 1
  freed : ∀ s, out = .freed s → n'.active.toNat + 1 = n.active.toNat
  refused : out.IsRefusal → n' = n

/-- A call moves each count by one or not at all. -/
theorem Happens.exactStep {n n' : SlotNode} {c : Call} {out : Outcome} (happens : n.Happens c out n') :
    ExactStep n out n' := by
  cases happens with
  | @granted now requested able => exact ⟨fun s _ => granting_active able.free now, nofun, nofun⟩
  | freed own used => exact ⟨nofun, fun s _ => releasing_active used, nofun⟩
  | refused unable => exact ⟨nofun, nofun, fun _ => rfl⟩
  | kept refused => exact ⟨nofun, nofun, fun _ => rfl⟩
  | stopped => exact ⟨nofun, nofun, nofun⟩

/-! ## All counts -/

/-- **The counts of a node.** After any calls on a node with any limit, none and the greatest word
included, with any requests and any sessions, its own or not and given back as often as anyone likes:

* no more slots are in use than it has, and it is full exactly if all are;
* its slots in use and the sessions it took back make up the sessions it granted, which is also the
  number of its next session, and as long as these are fewer than `2 ^ 64` a word of 64 bits holds it;
* it notes no start exactly if it granted nothing, and else the instant of its latest grant;
* whatever it is called for next, a grant counts one slot more and a release one less, neither of which
  wraps, and a refusal changes nothing of it. -/
theorem counts_agree (d : NodeConfig) (calls : List Call) :
    let past := d.node.outcomes calls
    let n := d.node.after calls
    (n.active ≤ d.maxSessions ∧ (n.isFull = true ↔ n.active = d.maxSessions)) ∧
      (n.active.toNat + (frees past).length = n.granted ∧ n.granted = (grants past).length ∧
        n.nextSession = n.granted ∧ (n.granted < 2 ^ 64 → n.granted.toUInt64.toNat = n.granted)) ∧
      ((n.lastStart = none ↔ n.granted = 0) ∧ n.lastStart = (d.node.starts calls).getLast? ∧
        (d.node.starts calls).length = n.granted) ∧
      ∀ c, ExactStep n (n.call c).1 (n.call c).2 := by
  intro past n
  have r : Recorded d past n := recorded_after d calls
  have k : Counted (d.node.starts calls) n := counted_after d calls
  have next : n.nextSession = n.granted := k.numbers.trans k.granted.symm
  have granted : n.granted = (grants past).length := by
    rw [r.numbers, List.length_map, List.length_range, next]
  refine ⟨⟨r.limit ▸ r.within, ?_⟩, ⟨?_, granted, next, UInt64.toNat_ofNat_of_lt'⟩, ?_, ?_⟩
  · rw [← r.limit]
    exact isFull_iff r.within
  · rw [granted]
    exact r.slots
  · exact ⟨k.lastStart_eq_none_iff, k.last, k.granted.symm⟩
  · intro c
    exact (call_happens n c).exactStep

end SessionGrid.SlotNode
