import Mathlib
import SessionGrid.Hub.Policy
import SessionGrid.Proofs.Binary64

/-!
# What policies do with candidates

Every policy returns the candidates it was given, each as often as it was given (`arrange_perm`). Load
keys are compared like pairs of integers, by load first, and only equal keys compare equal, so that
`byLoad` leaves no candidate behind one with a greater key (`byLoad_ordered`) and puts the keys in one
order, whatever order the candidates came in (`keys_byLoad_of_perm`). Candidates with different ids
have one order by id (`byId_of_perm`).
-/

namespace SessionGrid

/-- Ids are compared by their texts, in order of bytes. -/
theorem NodeId.compare_isLE_iff {a b : NodeId} : (a.compare b).isLE = true ↔ a.text ≤ b.text :=
  isLE_compareOfLessAndEq String.le_antisymm String.not_le String.le_total

namespace LoadKey

/-- The place of a start in time: never comes first. -/
def startRank : Option Instant → Nat
  | none => 0
  | some t => t + 1

/-- A node that was never used comes before every instant. -/
theorem compareStarts_eq (s t : Option Instant) :
    compareStarts s t = Ord.compare (startRank s) (startRank t) := by
  cases s with
  | none =>
    cases t with
    | none => rfl
    | some t => exact (Nat.compare_eq_lt.2 (Nat.succ_pos t)).symm
  | some s =>
    cases t with
    | none => exact (Nat.compare_eq_gt.2 (Nat.succ_pos s)).symm
    | some t => simp only [compareStarts, startRank, Nat.compare_eq_ite_lt, Nat.add_lt_add_iff_right]

theorem startRank_inj {s t : Option Instant} : startRank s = startRank t ↔ s = t := by
  cases s <;> cases t <;> simp [startRank]

/-- Only equal keys compare equal. -/
theorem compare_eq_eq_iff {a b : LoadKey} : a.compare b = .eq ↔ a = b := by
  rw [compare, compareStarts_eq, Binary64.compare, Ordering.then_eq_eq, Int.compare_eq_eq,
    Nat.compare_eq_eq, Binary64.rank_inj, startRank_inj]
  cases a
  cases b
  simp

/-- The load decides, and the last start where loads are equal. -/
theorem compare_eq_lt_iff {a b : LoadKey} :
    a.compare b = .lt ↔
      a.load.rank < b.load.rank ∨
        a.load.rank = b.load.rank ∧ startRank a.lastStart < startRank b.lastStart := by
  rw [compare, compareStarts_eq, Binary64.compare, Ordering.then_eq_lt, Int.compare_eq_lt,
    Int.compare_eq_eq, Nat.compare_eq_lt]

/-- One key stands before another by its load, or by its last start where loads are equal. -/
theorem le_iff {a b : LoadKey} :
    a.le b = true ↔
      a.load.rank < b.load.rank ∨
        a.load.rank = b.load.rank ∧ startRank a.lastStart ≤ startRank b.lastStart := by
  rw [le, compare, compareStarts_eq, Binary64.compare, Ordering.isLE_then_iff_or, Int.compare_eq_lt,
    Int.compare_eq_eq, Nat.isLE_compare]

theorem le_trans {a b c : LoadKey} (ab : a.le b = true) (bc : b.le c = true) : a.le c = true := by
  rw [le_iff] at ab bc ⊢
  omega

/-- Of two keys one stands before the other. -/
theorem le_total (a b : LoadKey) : (a.le b || b.le a) = true := by
  rw [Bool.or_eq_true, le_iff, le_iff]
  omega

theorem le_refl (a : LoadKey) : a.le a = true :=
  le_iff.2 (.inr ⟨rfl, Nat.le_refl _⟩)

/-- Two keys that stand before each other are one. -/
theorem le_antisymm {a b : LoadKey} (ab : a.le b = true) (ba : b.le a = true) : a = b := by
  rw [le_iff] at ab ba
  apply compare_eq_eq_iff.1
  rw [compare, compareStarts_eq, Binary64.compare, Ordering.then_eq_eq, Int.compare_eq_eq,
    Nat.compare_eq_eq]
  omega

theorem le_iff_not_lt {a b : LoadKey} : a.le b = true ↔ b.compare a ≠ .lt := by
  rw [le_iff, ne_eq, compare_eq_lt_iff]
  omega

end LoadKey

/-- The counter of turns below its wrap. -/
theorem toNat_succ {next : UInt64} (small : next.toNat + 1 < 2 ^ 64) :
    (next + 1).toNat = next.toNat + 1 := by
  rw [UInt64.toNat_add, UInt64.toNat_one]
  exact Nat.mod_eq_of_lt small

namespace Policy

/-- A rotation loses nothing. -/
theorem rotate_perm {α : Type} (n : Nat) (l : List α) : (rotate n l).Perm l := by
  unfold rotate
  exact List.perm_append_comm.trans (.of_eq (List.take_append_drop n l))

/-- **Candidates.** A policy returns those it was given, each as often as it was given. -/
theorem arrange_perm (p : Policy) (cs : List Candidate) : (p.arrange cs).1.Perm cs := by
  cases p with
  | leastLoaded => exact List.mergeSort_perm _ _
  | roundRobin next =>
    cases cs with
    | nil => exact .refl []
    | cons c cs => exact (rotate_perm _ _).trans (List.mergeSort_perm _ _)

/-- Policies keep their name from call to call. -/
theorem name_arrange (p : Policy) (cs : List Candidate) : (p.arrange cs).2.name = p.name := by
  cases p with
  | leastLoaded => rfl
  | roundRobin next =>
    cases cs with
    | nil => rfl
    | cons c cs => rfl

/-- No candidate stands behind one with a greater key. -/
theorem byLoad_ordered (cs : List Candidate) :
    (byLoad cs).Pairwise fun a b => a.key.le b.key = true := by
  unfold byLoad
  apply List.pairwise_mergeSort
  · intro a b c ab bc
    exact LoadKey.le_trans ab bc
  · intro a b
    exact LoadKey.le_total a.key b.key

/-- Two candidates are exchanged only if the second one has the smaller key. -/
theorem byLoad_pair (a b : Candidate) :
    byLoad [a, b] = if a.key.le b.key then [a, b] else [b, a] := by
  rw [byLoad, List.mergeSort]
  simp [List.merge]

/-- The keys in order of load do not depend on the order in which the candidates were given. -/
theorem keys_byLoad_of_perm {cs ds : List Candidate} (perm : cs.Perm ds) :
    (byLoad cs).map (·.key) = (byLoad ds).map (·.key) := by
  have same : (byLoad cs).Perm (byLoad ds) :=
    (List.mergeSort_perm cs _).trans (perm.trans (List.mergeSort_perm ds _).symm)
  have ordered : ∀ cs, ((byLoad cs).map (·.key)).Pairwise fun a b => a.le b = true :=
    fun cs => List.pairwise_map.2 (byLoad_ordered cs)
  refine (same.map _).eq_of_pairwise ?_ (ordered cs) (ordered ds)
  exact fun a b _ _ ab ba => LoadKey.le_antisymm ab ba

/-- In order of id no candidate stands behind one with a greater id. -/
theorem byId_ordered (cs : List Candidate) :
    (byId cs).Pairwise fun a b => (a.id.compare b.id).isLE = true := by
  unfold byId
  apply List.pairwise_mergeSort
  · intro a b c ab bc
    rw [NodeId.compare_isLE_iff] at ab bc ⊢
    exact String.le_trans ab bc
  · intro a b
    rw [Bool.or_eq_true, NodeId.compare_isLE_iff, NodeId.compare_isLE_iff]
    exact String.le_total a.id.text b.id.text

/-- Candidates with different ids have one order by id. -/
theorem byId_of_perm {cs ds : List Candidate} (distinct : (cs.map (·.id)).Nodup)
    (perm : cs.Perm ds) : byId cs = byId ds := by
  have same : (byId cs).Perm (byId ds) :=
    (List.mergeSort_perm cs _).trans (perm.trans (List.mergeSort_perm ds _).symm)
  refine same.eq_of_pairwise ?_ (byId_ordered cs) (byId_ordered ds)
  intro a b ha hb ab ba
  have texts : a.id.text = b.id.text :=
    String.le_antisymm (NodeId.compare_isLE_iff.1 ab) (NodeId.compare_isLE_iff.1 ba)
  have ids : a.id = b.id := congrArg NodeId.mk texts
  have ha : a ∈ cs := (List.mergeSort_perm cs _).mem_iff.1 ha
  have hb : b ∈ cs := perm.mem_iff.2 ((List.mergeSort_perm ds _).mem_iff.1 hb)
  exact List.inj_on_of_nodup_map distinct ha hb ids

theorem length_byId (cs : List Candidate) : (byId cs).length = cs.length :=
  (List.mergeSort_perm cs _).length_eq

/-- The turn of a counter, and the counter of the next one. -/
theorem arrange_roundRobin {cs : List Candidate} (some : cs ≠ []) (next : UInt64) :
    (roundRobin next).arrange cs =
      (rotate (next.toNat % cs.length) (byId cs), roundRobin (next + 1)) := by
  cases cs with
  | nil => exact absurd rfl some
  | cons c cs => rfl

/-- The order in which candidates with different ids are given does not matter for round robin. -/
theorem arrange_of_perm {cs ds : List Candidate} (distinct : (cs.map (·.id)).Nodup)
    (perm : cs.Perm ds) (next : UInt64) :
    (roundRobin next).arrange cs = (roundRobin next).arrange ds := by
  by_cases none : cs = []
  · subst none
    rw [List.nil_perm.1 perm]
  · have some : ds ≠ [] := by
      rintro rfl
      exact none (List.perm_nil.1 perm)
    rw [arrange_roundRobin none, arrange_roundRobin some, byId_of_perm distinct perm,
      perm.length_eq]

end Policy

end SessionGrid
