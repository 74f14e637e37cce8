import Mathlib

/-!
# Counts and sums over lists

How a count or a sum changes when one element is exchanged for another, how counts by key add up, how many
elements come before one, and how often a remainder comes up in a row of numbers.
-/

namespace SessionGrid

section Exchange

variable {α : Type} {l : List α} {i : Nat} {a : α}

/-- What holds of all elements and of the new one holds of all afterwards. -/
theorem forall_mem_exchange {p : α → Prop} {b : α} (all : ∀ x ∈ l, p x) (new : p b) :
    ∀ x ∈ l.set i b, p x := by
  intro x mem
  rcases List.mem_or_eq_of_mem_set mem with old | rfl
  · exact all x old
  · exact new

theorem countP_exchange (p : α → Bool) (found : l[i]? = some a) (b : α) :
    (l.set i b).countP p + (if p a then 1 else 0) = l.countP p + (if p b then 1 else 0) := by
  induction l generalizing i with
  | nil => cases found
  | cons x l ih =>
    cases i with
    | zero =>
      cases found
      rw [List.set_cons_zero, List.countP_cons, List.countP_cons]
      omega
    | succ i =>
      have rest := ih found
      rw [List.set_cons_succ, List.countP_cons, List.countP_cons]
      omega

theorem sum_exchange (f : α → Nat) (found : l[i]? = some a) (b : α) :
    ((l.set i b).map f).sum + f a = (l.map f).sum + f b := by
  induction l generalizing i with
  | nil => cases found
  | cons x l ih =>
    cases i with
    | zero =>
      cases found
      rw [List.set_cons_zero, List.map_cons, List.map_cons, List.sum_cons, List.sum_cons]
      omega
    | succ i =>
      have rest := ih found
      rw [List.set_cons_succ, List.map_cons, List.map_cons, List.sum_cons, List.sum_cons]
      omega

end Exchange

section Keys

variable {α β : Type} [DecidableEq β] {keys : List β}

theorem sum_indicator_le (distinct : keys.Nodup) (key : Option β) :
    (keys.map fun k => if key = some k then 1 else 0).sum ≤ if key.isSome = true then 1 else 0 := by
  induction keys with
  | nil => exact Nat.zero_le _
  | cons k keys ih =>
    obtain ⟨fresh, distinct⟩ := List.nodup_cons.1 distinct
    rw [List.map_cons, List.sum_cons]
    by_cases same : key = some k
    · -- No later key is equal to this one.
      have later : (keys.map fun j => if key = some j then 1 else 0) = keys.map fun _ => 0 := by
        apply List.map_congr_left
        intro j mem
        apply if_neg
        intro other
        apply fresh
        rw [Option.some.inj (same.symm.trans other)]
        exact mem
      rw [later, same, List.map_const', List.sum_replicate_nat]
      simp
    · rw [if_neg same, Nat.zero_add]
      exact ih distinct

/-- Elements counted under distinct keys are no more than those with a key. -/
theorem sum_countP_le (distinct : keys.Nodup) (key : α → Option β) (l : List α) :
    (keys.map fun k => l.countP fun a => decide (key a = some k)).sum ≤
      l.countP fun a => (key a).isSome := by
  induction l with
  | nil => simp
  | cons a l ih =>
    simp only [List.countP_cons, decide_eq_true_eq, List.sum_map_add]
    exact Nat.add_le_add ih (sum_indicator_le distinct (key a))

end Keys

section Places

/-- In an ascending list as many elements come before one as its place says. -/
theorem countP_before {α : Type} {lt : α → α → Prop} [DecidableRel lt] (irrefl : ∀ a, ¬ lt a a)
    (asymm : ∀ a b, lt a b → ¬ lt b a) {l : List α} (ascending : l.Pairwise lt) {i : Nat} {a : α}
    (found : l[i]? = some a) : (l.countP fun b => lt b a) = i := by
  induction l generalizing i with
  | nil => cases found
  | cons b l ih =>
    obtain ⟨first, rest⟩ := List.pairwise_cons.1 ascending
    cases i with
    | zero =>
      cases found
      rw [List.countP_cons_of_neg (by simp [irrefl]), List.countP_eq_zero]
      intro c mem
      simp [asymm a c (first c mem)]
    | succ i =>
      have before := first a (List.mem_of_getElem? found)
      rw [List.countP_cons_of_pos (by simp [before]), ih rest found]

end Places

section Remainders

/-- In a row of numbers every remainder comes up once for each full round, and once more if it is early
enough in the round that is not full. -/
theorem exists_countP_mod_range' {n i : Nat} (lt : i < n) (start length : Nat) :
    ∃ v, (List.range' start length).countP (fun t => decide (t % n = i)) =
      length / n + if v < length % n then 1 else 0 := by
  have pos : 0 < n := Nat.zero_lt_of_lt lt
  -- `start + v` has the remainder `i`, so the hits are the numbers congruent to `v`.
  let v := i + (n - 1) * start
  have target : start + v ≡ i [MOD n] := by
    have rounds : start + v = i + n * start := by
      have one : n = n - 1 + 1 := (Nat.sub_add_cancel pos).symm
      have split : n * start = (n - 1) * start + start := by
        rw [← Nat.succ_mul, Nat.succ_eq_add_one, ← one]
      omega
    rw [rounds]
    exact Nat.add_mul_mod_self_left i n start
  have hit : ∀ k, decide ((start + k) % n = i) = decide (k ≡ v [MOD n]) := by
    intro k
    have small : i % n = i := Nat.mod_eq_of_lt lt
    rw [decide_eq_decide, ← small]
    constructor
    · intro same
      exact Nat.ModEq.add_left_cancel' start (Nat.ModEq.trans same target.symm)
    · intro same
      exact (same.add_left start).trans target
  have count : (List.range' start length).countP (fun t => decide (t % n = i)) =
      Nat.count (· ≡ v [MOD n]) length := by
    rw [List.range'_eq_map_range, List.countP_map, Nat.count]
    apply List.countP_congr
    intro k _
    rw [Function.comp_apply, hit]
  exact ⟨v % n, by rw [count, Nat.count_modEq_card length pos]⟩

theorem countP_mod_range' {n i : Nat} (lt : i < n) (start length : Nat) :
    length / n ≤ (List.range' start length).countP (fun t => decide (t % n = i)) ∧
      (List.range' start length).countP (fun t => decide (t % n = i)) ≤ length / n + 1 := by
  obtain ⟨v, count⟩ := exists_countP_mod_range' lt start length
  rw [count]
  split <;> omega

/-- In full rounds every remainder comes up equally often. -/
theorem countP_mod_rounds {n i : Nat} (lt : i < n) (start k : Nat) :
    (List.range' start (k * n)).countP (fun t => decide (t % n = i)) = k := by
  obtain ⟨v, count⟩ := exists_countP_mod_range' lt start (k * n)
  rw [count, Nat.mul_mod_left, if_neg (Nat.not_lt_zero v), Nat.mul_div_cancel k (Nat.zero_lt_of_lt lt)]
  rfl

end Remainders

end SessionGrid
