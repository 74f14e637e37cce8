import Mathlib
import SessionGrid.Hub.Policy

/-!
# The longest idle first

Who is served goes to the end of the queue. `Queue` says this of numbers alone: how often each handle was
served, and the place in time at which it was served last. Serving the longest idle one keeps it
(`Queue.serve`), whichever of those is taken that were never served. In such a queue everyone is served
equally often but for one turn, and in a cycle.
-/

namespace SessionGrid

/-- The handles of `q` were served in the order `served`, and stand in the order in which each of them
was served last: `count` is how often that was, and `rank` when, with zero for never. -/
structure Queue (count rank : Handle → Nat) (served q : List Handle) : Prop where
  nodup : q.Nodup
  known : ∀ {h}, h ∈ served → h ∈ q
  counts : ∀ {j h}, q[j]? = some h → count h = (served.length + j) / q.length
  unused : ∀ {h}, h ∈ q → (rank h = 0 ↔ count h = 0)
  ordered : q.Pairwise fun h k => rank h = 0 ∨ rank h < rank k
  /-- Those who were served stand as they were served. -/
  recent : ∀ {j h}, q[j]? = some h → q.length ≤ served.length + j →
    served[served.length + j - q.length]? = some h
  cyclic : ∀ {i h}, served[i + q.length]? = some h → served[i]? = some h

namespace Queue

variable {count rank : Handle → Nat} {served q : List Handle}

/-- Nobody was served yet. -/
theorem start (nodup : q.Nodup) (never : ∀ h ∈ q, count h = 0 ∧ rank h = 0) :
    Queue count rank [] q where
  nodup := nodup
  known mem := absurd mem List.not_mem_nil
  counts {j h} at_j := by
    have lt : j < q.length := (List.getElem?_eq_some_iff.1 at_j).1
    rw [(never h (List.mem_of_getElem? at_j)).1, List.length_nil, Nat.zero_add, Nat.div_eq_of_lt lt]
  unused {h} mem := iff_of_true (never h mem).2 (never h mem).1
  ordered := List.pairwise_of_forall_mem_list fun h mem _ _ => .inl (never h mem).2
  recent {j h} at_j late := by
    have lt : j < q.length := (List.getElem?_eq_some_iff.1 at_j).1
    rw [List.length_nil] at late
    omega
  cyclic found := by
    rw [List.getElem?_nil] at found
    cases found

/-! ## Counts -/

section Counts

variable (queue : Queue count rank served q) {h k : Handle}

include queue

/-- Everyone was served as often as the one at some place of the queue. -/
theorem exists_count (mem : h ∈ q) : ∃ j < q.length, count h = (served.length + j) / q.length := by
  obtain ⟨j, at_j⟩ := List.mem_iff_getElem?.1 mem
  exact ⟨j, (List.getElem?_eq_some_iff.1 at_j).1, queue.counts at_j⟩

/-- In full rounds everyone is served once each. -/
theorem le_count (mem : h ∈ q) : served.length / q.length ≤ count h := by
  obtain ⟨j, -, eq⟩ := queue.exists_count mem
  rw [eq]
  exact Nat.div_le_div_right (Nat.le_add_right _ _)

/-- In the round that is not full nobody is served twice. -/
theorem count_le (mem : h ∈ q) : count h ≤ served.length / q.length + 1 := by
  obtain ⟨j, lt, eq⟩ := queue.exists_count mem
  have pos : 0 < q.length := Nat.zero_lt_of_lt lt
  rw [eq, ← Nat.add_div_right _ pos]
  exact Nat.div_le_div_right (by omega)

/-- No two were served more than once apart. -/
theorem count_le_count (memH : h ∈ q) (memK : k ∈ q) : count h ≤ count k + 1 :=
  (queue.count_le memH).trans (Nat.succ_le_succ (queue.le_count memK))

/-- Between two full rounds everyone has the lower or the upper of two counts. -/
theorem count_floor_or_ceil (mem : h ∈ q) :
    count h = served.length / q.length ∨ count h = (served.length + q.length - 1) / q.length := by
  obtain ⟨j, lt, eq⟩ := queue.exists_count mem
  have upper : count h ≤ (served.length + q.length - 1) / q.length := by
    rw [eq]
    exact Nat.div_le_div_right (by omega)
  have ceil : (served.length + q.length - 1) / q.length ≤ served.length / q.length + 1 := by
    rw [← Nat.add_div_right _ (Nat.zero_lt_of_lt lt)]
    exact Nat.div_le_div_right (by omega)
  have lower := queue.le_count mem
  omega

/-- After full rounds everyone was served once in each. -/
theorem count_of_rounds {rounds : Nat} (full : served.length = rounds * q.length) (mem : h ∈ q) :
    count h = rounds := by
  obtain ⟨j, lt, eq⟩ := queue.exists_count mem
  rw [eq, full, Nat.mul_comm, Nat.mul_add_div (Nat.zero_lt_of_lt lt), Nat.div_eq_of_lt lt,
    Nat.add_zero]

/-- The head of the queue was served least often. -/
theorem count_head {rest : List Handle} (split : q = h :: rest) :
    count h = served.length / q.length := by
  have first : q[0]? = some h := by rw [split, List.getElem?_cons_zero]
  exact queue.counts first

/-- The head of the queue was idle longest. -/
theorem rank_head {rest : List Handle} (split : q = h :: rest) (mem : k ∈ q) : rank h ≤ rank k := by
  have ordered := queue.ordered
  rw [split] at ordered mem
  rcases List.mem_cons.1 mem with rfl | later
  · exact Nat.le_refl _
  · have either := List.rel_of_pairwise_cons ordered later
    omega

end Counts

/-! ## Serving -/

/-- The handle `c` of the queue is served, later than all before. -/
structure Serves (q : List Handle) (c : Handle) (count rank count' rank' : Handle → Nat) :
    Prop where
  counted : count' c = count c + 1
  others : ∀ h, h ≠ c → count' h = count h ∧ rank' h = rank h
  latest : ∀ h ∈ q, rank h < rank' c

section Serving

variable {count' rank' : Handle → Nat} {c h : Handle} {before after : List Handle} {i j : Nat}

theorem served_length : (served ++ [c]).length = served.length + 1 := by
  rw [List.length_append, List.length_singleton]

theorem length_split (before after : List Handle) (c : Handle) :
    (before ++ c :: after).length = before.length + after.length + 1 := by
  rw [List.length_append, List.length_cons, Nat.add_assoc]

theorem getElem?_split : (before ++ c :: after)[before.length]? = some c := by
  rw [List.getElem?_append_right (Nat.le_refl _), Nat.sub_self, List.getElem?_cons_zero]

/-- Who was served moves to the end, and nobody is lost. -/
theorem moved_perm : (before ++ after ++ [c]).Perm (before ++ c :: after) :=
  (List.perm_append_singleton c (before ++ after)).trans List.perm_middle.symm

/-- The places of a queue whose element `c` has gone to the end. -/
theorem moved_cases (at_j : (before ++ after ++ [c])[j]? = some h) :
    (j < before.length ∧ (before ++ c :: after)[j]? = some h) ∨
      (before.length ≤ j ∧ j < before.length + after.length ∧
        (before ++ c :: after)[j + 1]? = some h) ∨
      (j = before.length + after.length ∧ h = c) := by
  have length : (before ++ after).length = before.length + after.length := List.length_append
  rw [List.getElem?_append] at at_j
  split at at_j
  · next here =>
    rw [length] at here
    rw [List.getElem?_append] at at_j
    split at at_j
    · next early =>
      left
      rw [List.getElem?_append_left early]
      exact ⟨early, at_j⟩
    · next late =>
      right; left
      have shift : j + 1 - before.length = j - before.length + 1 := by omega
      rw [List.getElem?_append_right (by omega), shift, List.getElem?_cons_succ]
      exact ⟨by omega, here, at_j⟩
  · next beyond =>
    right; right
    obtain ⟨place, rfl⟩ := List.getElem?_eq_some_iff.1 at_j
    rw [length, List.length_singleton] at place
    rw [length] at beyond
    exact ⟨by omega, List.getElem_singleton _⟩

variable (queue : Queue count rank served (before ++ c :: after))

include queue

theorem ne_of_place (at_j : (before ++ c :: after)[j]? = some h) (ne : j ≠ before.length) : h ≠ c := by
  rintro rfl
  have lt := (List.getElem?_eq_some_iff.1 at_j).1
  exact ne ((List.getElem?_inj lt queue.nodup).1 (at_j.trans getElem?_split.symm))

theorem ne_of_mem (mem : h ∈ before ++ after) : h ≠ c := by
  rintro rfl
  have nodup := queue.nodup
  rw [List.nodup_middle, List.nodup_cons] at nodup
  exact nodup.1 mem

/-- The longest idle one is the head of the queue, unless nobody before it was ever served. -/
theorem early (least : ∀ h ∈ before ++ c :: after, rank c ≤ rank h) :
    before = [] ∨ served.length + before.length < (before ++ c :: after).length := by
  cases before with
  | nil => exact .inl rfl
  | cons h rest =>
    right
    have memC : c ∈ h :: rest ++ c :: after := List.mem_append_right _ List.mem_cons_self
    have first := List.rel_of_pairwise_cons queue.ordered (List.mem_append_right rest List.mem_cons_self)
    have never : rank c = 0 := by
      have le := least h List.mem_cons_self
      omega
    have none : (served.length + (h :: rest).length) / (h :: rest ++ c :: after).length = 0 :=
      (queue.counts getElem?_split).symm.trans ((queue.unused memC).1 never)
    exact (Nat.div_eq_zero_iff.1 none).resolve_left (List.length_pos_of_mem memC).ne'

variable (early : before = [] ∨ served.length + before.length < (before ++ c :: after).length)

include early

/-- By its new place each is served as often as its round says. -/
theorem moved_counts (serves : Serves (before ++ c :: after) c count rank count' rank')
    (at_j : (before ++ after ++ [c])[j]? = some h) :
    count' h = (served.length + 1 + j) / (before ++ c :: after).length := by
  have length := length_split before after c
  rcases moved_cases at_j with ⟨lt, was⟩ | ⟨le, lt, was⟩ | ⟨rfl, rfl⟩
  · -- Nobody before `c` was ever served.
    have few := early.resolve_left (List.ne_nil_of_length_pos (Nat.zero_lt_of_lt lt))
    rw [(serves.others h (queue.ne_of_place was (by omega))).1, queue.counts was,
      Nat.div_eq_of_lt (by omega), Nat.div_eq_of_lt (by omega)]
  · have place : served.length + (j + 1) = served.length + 1 + j := by omega
    rw [(serves.others h (queue.ne_of_place was (by omega))).1, queue.counts was, place]
  · have first : count h = served.length / (before ++ h :: after).length := by
      rw [queue.counts getElem?_split]
      rcases early with rfl | few
      · rfl
      · rw [Nat.div_eq_of_lt few, Nat.div_eq_of_lt (by omega)]
    have round : served.length + 1 + (before.length + after.length) =
        served.length + (before ++ h :: after).length := by omega
    rw [serves.counted, first, round, Nat.add_div_right _ (by omega)]

omit early in
/-- The later place, the later it was served. -/
theorem moved_ordered (serves : Serves (before ++ c :: after) c count rank count' rank') :
    (before ++ after ++ [c]).Pairwise fun h k => rank' h = 0 ∨ rank' h < rank' k := by
  have rest : (before ++ after).Sublist (before ++ c :: after) :=
    (List.Sublist.refl before).append (List.sublist_cons_self c after)
  have kept : ∀ h ∈ before ++ after, rank' h = rank h :=
    fun h mem => (serves.others h (queue.ne_of_mem mem)).2
  refine List.pairwise_append.2 ⟨?_, List.pairwise_singleton _ _, ?_⟩
  · refine (queue.ordered.sublist rest).imp_of_mem fun {h k} memH memK rel => ?_
    rw [kept h memH, kept k memK]
    exact rel
  · intro h memH k memK
    obtain rfl := List.mem_singleton.1 memK
    rw [kept h memH]
    exact .inr (serves.latest h (rest.subset memH))

/-- Those in the latest round were served in order of their places. -/
theorem moved_recent (at_j : (before ++ after ++ [c])[j]? = some h)
    (late : (before ++ c :: after).length ≤ served.length + 1 + j) :
    (served ++ [c])[served.length + 1 + j - (before ++ c :: after).length]? = some h := by
  have length := length_split before after c
  rcases moved_cases at_j with ⟨lt, was⟩ | ⟨le, lt, was⟩ | ⟨rfl, rfl⟩
  · have few := early.resolve_left (List.ne_nil_of_length_pos (Nat.zero_lt_of_lt lt))
    omega
  · have place : served.length + 1 + j = served.length + (j + 1) := by omega
    rw [place, List.getElem?_append_left (by omega)]
    exact queue.recent was (by omega)
  · have place : served.length + 1 + (before.length + after.length) -
        (before ++ h :: after).length = served.length := by omega
    rw [place, List.getElem?_concat_length]

/-- Behind a full round the same are served again. -/
theorem moved_cyclic (found : (served ++ [c])[i + (before ++ c :: after).length]? = some h) :
    (served ++ [c])[i]? = some h := by
  have length := length_split before after c
  rcases Nat.lt_or_ge (i + (before ++ c :: after).length) served.length with old | new
  · rw [List.getElem?_append_left old] at found
    rw [List.getElem?_append_left (by omega)]
    exact queue.cyclic found
  · -- The last one served is `c`, which was the head of the queue.
    have last : i + (before ++ c :: after).length = served.length := by
      have bound := (List.getElem?_eq_some_iff.1 found).1
      rw [served_length] at bound
      omega
    rw [last, List.getElem?_concat_length] at found
    have head : before.length = 0 := by
      rw [early.resolve_right (by omega), List.length_nil]
    have was := queue.recent getElem?_split (by omega)
    have place : served.length + before.length - (before ++ c :: after).length = i := by omega
    rw [List.getElem?_append_left (by omega), ← found, ← place]
    exact was

end Serving

/-- **Turns.** If the longest idle one is served it goes to the end, and the others keep their places. -/
theorem serve (queue : Queue count rank served q) {c : Handle} (mem : c ∈ q)
    (least : ∀ h ∈ q, rank c ≤ rank h) {count' rank' : Handle → Nat}
    (serves : Serves q c count rank count' rank') :
    ∃ q', q'.Perm q ∧ Queue count' rank' (served ++ [c]) q' := by
  obtain ⟨before, after, rfl⟩ := List.append_of_mem mem
  have early := queue.early least
  have perm : (before ++ after ++ [c]).Perm (before ++ c :: after) := moved_perm
  refine ⟨before ++ after ++ [c], perm, ?_⟩
  constructor
  case nodup => exact perm.nodup_iff.2 queue.nodup
  case known =>
    intro h memH
    rcases List.mem_append.1 memH with old | new
    · exact perm.mem_iff.2 (queue.known old)
    · exact List.mem_append_right _ new
  case counts =>
    intro j h at_j
    rw [perm.length_eq, served_length]
    exact queue.moved_counts early serves at_j
  case unused =>
    intro h memH
    by_cases own : h = c
    · subst own
      have late := serves.latest h (perm.mem_iff.1 memH)
      have counted := serves.counted
      omega
    · rw [(serves.others h own).1, (serves.others h own).2]
      exact queue.unused (perm.mem_iff.1 memH)
  case ordered => exact queue.moved_ordered serves
  case recent =>
    intro j h at_j
    rw [perm.length_eq, served_length]
    exact queue.moved_recent early at_j
  case cyclic =>
    intro i h
    rw [perm.length_eq]
    exact queue.moved_cyclic early

end Queue
end SessionGrid
