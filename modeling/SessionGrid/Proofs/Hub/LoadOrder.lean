import Mathlib
import SessionGrid.Hub.Node
import SessionGrid.Proofs.Binary64
import SessionGrid.Proofs.Hub.Policy

/-!
# The order of loads and the rows it gives

Load keys have one total order, in which only equal keys compare equal, and which follows the numbers
that loads denote (`LoadKey.compare_total`). Sorting by it is stable, and only one row has the same
elements in order, with those of equal keys as they were given (`StableOrder.unique`). That row is what
the least-loaded policy makes of any nodes (`leastLoaded_arranges_stably`).
-/

namespace SessionGrid

namespace LoadKey

theorem compareStarts_swap (s t : Option Instant) : compareStarts s t = (compareStarts t s).swap := by
  rw [compareStarts_eq, compareStarts_eq, Nat.compare_swap]

/-- Compared the other way round, keys compare the other way round. -/
theorem compare_swap (a b : LoadKey) : a.compare b = (b.compare a).swap := by
  rw [compare, compare, Ordering.swap_then, compareStarts_swap, Binary64.compare, Binary64.compare,
    Int.compare_swap]

theorem le_iff_ne_gt {a b : LoadKey} : a.le b = true ↔ a.compare b ≠ .gt :=
  Ordering.isLE_iff_ne_gt

/-- Only a key compares equal to itself. -/
theorem same_iff {a b : LoadKey} : a.same b = true ↔ a = b := by
  rw [same, Ordering.isEq_iff_eq_eq, compare_eq_eq_iff]

/-- A smaller load comes first, whatever the last starts are. -/
theorem compare_of_rank_lt {a b : LoadKey} (less : a.load.rank < b.load.rank) : a.compare b = .lt :=
  compare_eq_lt_iff.2 (.inl less)

/-- Loads that are the same leave the order to the starts. -/
theorem compare_of_load_eq (x : Binary64) (s t : Option Instant) :
    (LoadKey.mk x s).compare ⟨x, t⟩ = compareStarts s t := by
  have same : x.compare x = .eq := Int.compare_eq_eq.2 rfl
  rw [compare, same]
  rfl

/-- The order of load keys is total, tells apart all keys that differ, and is first of all the order of
the numbers that the loads denote, with every NaN outside of them on the side of its sign. -/
theorem compare_total (a b c : LoadKey) :
    a.compare b = (b.compare a).swap ∧
      (a.compare b ≠ .gt → b.compare c ≠ .gt → a.compare c ≠ .gt) ∧
      (a.compare b = .eq ↔ a.load.bits = b.load.bits ∧ a.lastStart = b.lastStart) ∧
      (a.same b = true ↔ a.compare b = .eq) ∧
      a.partialCompare b = some (a.compare b) ∧
      (a.load.isNaN = false → b.load.isNaN = false → a.load.value < b.load.value →
        a.compare b = .lt) ∧
      (∀ s t, (LoadKey.mk ⟨0x8000000000000000⟩ s).compare ⟨⟨0⟩, t⟩ = .lt) ∧
      (a.load.isNaN = true → b.load.isNaN = false →
        a.compare b = if a.load.isNegative then .lt else .gt) ∧
      (∀ x s t, (LoadKey.mk x none).compare ⟨x, some t⟩ = .lt ∧
        (LoadKey.mk x (some s)).compare ⟨x, some t⟩ = Ord.compare s t) := by
  refine ⟨compare_swap a b, ?transitive, ?identical, Ordering.isEq_iff_eq_eq, rfl, ?numbers, ?zeros,
    ?nans, ?starts⟩
  case transitive =>
    rw [← le_iff_ne_gt, ← le_iff_ne_gt, ← le_iff_ne_gt]
    exact le_trans
  case identical =>
    rw [compare_eq_eq_iff]
    obtain ⟨⟨x⟩, s⟩ := a
    obtain ⟨⟨y⟩, t⟩ := b
    simp
  case numbers =>
    intro numberA numberB less
    exact compare_of_rank_lt (Binary64.rank_lt_of_value_lt numberA numberB less)
  case zeros =>
    intro s t
    exact compare_of_rank_lt (Int.compare_eq_lt.1 Binary64.compare_negativeZero)
  case nans =>
    intro nan number
    split
    · next negative => exact compare_of_rank_lt (Binary64.rank_lt_of_isNaN nan negative number)
    · next positive =>
      have above := Binary64.lt_rank_of_isNaN nan (Bool.eq_false_of_not_eq_true positive) number
      rw [compare_swap, compare_of_rank_lt above, Ordering.swap_lt]
  case starts =>
    intro x s t
    exact ⟨compare_of_load_eq x none (some t), compare_of_load_eq x (some s) (some t)⟩

-- One per cent comes before two, however long the other node has been idle.
example : (LoadKey.mk ⟨0x3FF0000000000000⟩ (some 5)).compare ⟨⟨0x4000000000000000⟩, none⟩ = .lt := by
  decide

end LoadKey

/-! ## Stable rows -/

/-- `row` is `given` in the order of a key, with elements of equal keys as they were given. -/
structure StableOrder {α : Type} (key : α → LoadKey) (given row : List α) : Prop where
  perm : row.Perm given
  ordered : row.Pairwise fun a b => (key a).compare (key b) ≠ .gt
  stable : ∀ k, (row.filter fun a => (key a).same k) = given.filter fun a => (key a).same k

namespace StableOrder

variable {α : Type} {key : α → LoadKey} {given row other : List α}

theorem key_le_trans (key : α → LoadKey) (a b c : α) (ab : (key a).le (key b) = true)
    (bc : (key b).le (key c) = true) : (key a).le (key c) = true :=
  LoadKey.le_trans ab bc

theorem key_le_total (key : α → LoadKey) (a b : α) :
    ((key a).le (key b) || (key b).le (key a)) = true :=
  LoadKey.le_total (key a) (key b)

/-- Sorting keeps the elements of one key as they were given. -/
theorem filter_mergeSort (key : α → LoadKey) (given : List α) (k : LoadKey) :
    ((given.mergeSort fun a b => (key a).le (key b)).filter fun a => (key a).same k) =
      given.filter fun a => (key a).same k := by
  have alike : (given.filter fun a => (key a).same k).Pairwise
      fun a b => (key a).le (key b) = true := by
    apply List.pairwise_of_forall_mem_list
    intro a ha b hb
    rw [LoadKey.same_iff.1 (List.mem_filter.1 ha).2, LoadKey.same_iff.1 (List.mem_filter.1 hb).2]
    exact LoadKey.le_refl k
  -- Elements of one key are in order as they are, and sorting keeps what is in order.
  have kept := List.sublist_mergeSort (key_le_trans key) (key_le_total key) alike List.filter_sublist
  have filtered := kept.filter fun a => (key a).same k
  rw [List.filter_filter] at filtered
  simp only [Bool.and_self] at filtered
  have lengths := ((List.mergeSort_perm given fun a b => (key a).le (key b)).filter
    fun a => (key a).same k).length_eq
  exact (filtered.eq_of_length lengths.symm).symm

/-- Sorting is stable. -/
theorem mergeSort (key : α → LoadKey) (given : List α) :
    StableOrder key given (given.mergeSort fun a b => (key a).le (key b)) where
  perm := List.mergeSort_perm given _
  ordered := by
    have ordered := List.pairwise_mergeSort (key_le_trans key) (key_le_total key) given
    exact ordered.imp LoadKey.le_iff_ne_gt.1
  stable := filter_mergeSort key given

/-- Rows with the same elements under each key have the same elements. -/
theorem mem_iff_of_filters
    (filters : ∀ k, (row.filter fun a => (key a).same k) = other.filter fun a => (key a).same k)
    (a : α) : a ∈ row ↔ a ∈ other := by
  have same : (key a).same (key a) = true := LoadKey.same_iff.2 rfl
  have mem := congrArg (a ∈ ·) (filters (key a))
  simpa only [List.mem_filter, same, and_true, eq_iff_iff] using mem

/-- The first element has the smallest key. -/
theorem head_le {a b : α} (ordered : (a :: row).Pairwise fun a b => (key a).compare (key b) ≠ .gt)
    (mem : b ∈ a :: row) : (key a).le (key b) = true := by
  rcases List.mem_cons.1 mem with rfl | later
  · exact LoadKey.le_refl _
  · exact LoadKey.le_iff_ne_gt.2 (List.rel_of_pairwise_cons ordered later)

/-- Rows in order that agree at every key are the same. -/
theorem eq_of_filters (ordered : row.Pairwise fun a b => (key a).compare (key b) ≠ .gt)
    (ordered' : other.Pairwise fun a b => (key a).compare (key b) ≠ .gt)
    (filters : ∀ k, (row.filter fun a => (key a).same k) = other.filter fun a => (key a).same k) :
    row = other := by
  have shared := mem_iff_of_filters filters
  induction row generalizing other with
  | nil =>
    cases other with
    | nil => rfl
    | cons b other => exact absurd ((shared b).2 List.mem_cons_self) List.not_mem_nil
  | cons a row ih =>
    cases other with
    | nil => exact absurd ((shared a).1 List.mem_cons_self) List.not_mem_nil
    | cons b other =>
      have keys : key a = key b := LoadKey.le_antisymm
        (head_le ordered ((shared b).2 List.mem_cons_self))
        (head_le ordered' ((shared a).1 List.mem_cons_self))
      -- Both heads come first among the elements of their key.
      have heads := filters (key a)
      rw [List.filter_cons, List.filter_cons, if_pos (LoadKey.same_iff.2 rfl),
        if_pos (LoadKey.same_iff.2 keys.symm)] at heads
      obtain rfl : a = b := (List.cons.inj heads).1
      have tails : ∀ k,
          (row.filter fun a => (key a).same k) = other.filter fun a => (key a).same k := by
        intro k
        have whole := filters k
        rw [List.filter_cons, List.filter_cons] at whole
        split at whole
        · exact (List.cons.inj whole).2
        · exact whole
      rw [ih ordered.of_cons ordered'.of_cons tails (mem_iff_of_filters tails)]

/-- **One row.** Order and stability leave no choice. -/
theorem unique (h : StableOrder key given row) (h' : StableOrder key given other) : row = other :=
  eq_of_filters h.ordered h'.ordered fun k => (h.stable k).trans (h'.stable k).symm

/-- What is in order is in its own stable order. -/
theorem refl (ordered : row.Pairwise fun a b => (key a).compare (key b) ≠ .gt) :
    StableOrder key row row :=
  ⟨.refl row, ordered, fun _ => rfl⟩

/-- Where no two elements have one key, the order they were given in does not matter. -/
theorem eq_of_perm {given' : List α}
    (distinct : given.Pairwise fun a b => (key a).compare (key b) ≠ .eq)
    (perm : given'.Perm given) (h : StableOrder key given row) (h' : StableOrder key given' other) :
    other = row := by
  have nodup : (given.map key).Nodup :=
    List.pairwise_map.2 (distinct.imp fun differ same => differ (LoadKey.compare_eq_eq_iff.2 same))
  refine (h'.perm.trans (perm.trans h.perm.symm)).eq_of_pairwise ?_ h'.ordered h.ordered
  intro a b ha hb ab ba
  have keys : key a = key b :=
    LoadKey.le_antisymm (LoadKey.le_iff_ne_gt.2 ab) (LoadKey.le_iff_ne_gt.2 ba)
  exact List.inj_on_of_nodup_map nodup (perm.mem_iff.1 (h'.perm.mem_iff.1 ha))
    (h.perm.mem_iff.1 hb) keys

end StableOrder

/-! ## The least loaded first -/

/-- Nodes as a policy sees them. -/
def candidatesOf {N : Type} [Node N] (nodes : List (Handle × N)) : List Candidate :=
  nodes.map fun p => ⟨p.1, Node.id p.2, .of p.2⟩

section

variable {N : Type} [Node N]

/-- The least-loaded policy sorts the nodes by their keys. -/
theorem arrange_candidatesOf (nodes : List (Handle × N)) :
    Policy.leastLoaded.arrange (candidatesOf nodes) =
      (candidatesOf (nodes.mergeSort fun a b => (LoadKey.of a.2).le (.of b.2)), .leastLoaded) := by
  have sorted : Policy.byLoad (candidatesOf nodes) =
      candidatesOf (nodes.mergeSort fun a b => (LoadKey.of a.2).le (.of b.2)) :=
    (List.map_mergeSort (r := fun a b : Handle × N => (LoadKey.of a.2).le (.of b.2))
      (f := fun p => (⟨p.1, Node.id p.2, .of p.2⟩ : Candidate)) fun _ _ _ _ => rfl).symm
  rw [Policy.arrange, sorted]

/-- The least-loaded policy puts nodes in the one stable order of their load keys. -/
theorem leastLoaded_arranges_stably (nodes : List (Handle × N)) :
    ∃ row : List (Handle × N),
      Policy.leastLoaded.arrange (candidatesOf nodes) = (candidatesOf row, .leastLoaded) ∧
        StableOrder (fun p => LoadKey.of p.2) nodes row ∧
        (∀ other, StableOrder (fun p => LoadKey.of p.2) nodes other → other = row) ∧
        Policy.leastLoaded.arrange (candidatesOf row) = (candidatesOf row, .leastLoaded) ∧
        (row.Pairwise fun a b => Node.loadOrder a.2 b.2 ≠ .gt) ∧
        ((nodes.Pairwise fun a b => Node.loadOrder a.2 b.2 ≠ .eq) →
          ∀ given : List (Handle × N), given.Perm nodes →
            Policy.leastLoaded.arrange (candidatesOf given) = (candidatesOf row, .leastLoaded)) := by
  have sorted : ∀ {given row : List (Handle × N)},
      StableOrder (fun p => LoadKey.of p.2) given row →
        Policy.leastLoaded.arrange (candidatesOf given) = (candidatesOf row, .leastLoaded) := by
    intro given row stable
    rw [arrange_candidatesOf, stable.unique (StableOrder.mergeSort _ given)]
  have stable := StableOrder.mergeSort (fun p => LoadKey.of p.2) nodes
  refine ⟨_, sorted stable, stable, fun other h => h.unique stable, sorted (.refl stable.ordered),
    stable.ordered, fun distinct given perm => ?_⟩
  rw [arrange_candidatesOf, stable.eq_of_perm distinct perm (StableOrder.mergeSort _ given)]

end
end SessionGrid
