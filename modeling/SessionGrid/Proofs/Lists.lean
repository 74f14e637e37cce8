import Mathlib

/-!
# Lists

What is found in a list of which one element was exchanged or to which one was added, in how many ways an
element parts a list, and when a function that may fail does so somewhere along a list.
-/

namespace SessionGrid

section Places

variable {α : Type} {xs : List α} {i j : Nat} {x y : α}

theorem getElem?_set_own (found : xs[i]? = some x) : (xs.set i y)[i]? = some y :=
  List.getElem?_set_self (List.getElem?_eq_some_iff.1 found).1

theorem set_own (found : xs[i]? = some x) : xs.set i x = xs := by
  obtain ⟨lt, here⟩ := List.getElem?_eq_some_iff.1 found
  rw [← here, List.set_getElem_self]

/-- After an exchange a place holds the new element or what it held before. -/
theorem getElem?_set_cases (found : (xs.set i x)[j]? = some y) :
    j = i ∧ y = x ∨ j ≠ i ∧ xs[j]? = some y := by
  by_cases same : i = j
  · subst same
    rw [List.getElem?_set_self'] at found
    obtain ⟨old, -, rfl⟩ := Option.map_eq_some_iff.1 found
    exact .inl ⟨rfl, rfl⟩
  · rw [List.getElem?_set_ne same] at found
    exact .inr ⟨Ne.symm same, found⟩

/-- Of a list that has grown at its end a place is an old one or the new last one. -/
theorem getElem?_snoc_cases (found : (xs ++ [x])[j]? = some y) :
    xs[j]? = some y ∨ j = xs.length ∧ y = x := by
  by_cases lt : j < xs.length
  · rw [List.getElem?_append_left lt] at found
    exact .inl found
  · rw [List.getElem?_append_right (Nat.le_of_not_lt lt), List.getElem?_singleton] at found
    split at found
    · cases found
      exact .inr ⟨by omega, rfl⟩
    · cases found

end Places

section Parting

variable {α : Type} {x y : α}

/-- An element that parts a list grown at its end is the new one, or it parts the list as it was. -/
theorem snoc_eq_append_cons {xs before after : List α} :
    xs ++ [x] = before ++ y :: after ↔
      xs = before ∧ x = y ∧ after = [] ∨ ∃ later, xs = before ++ y :: later ∧ after = later ++ [x] := by
  rcases List.eq_nil_or_concat after with rfl | ⟨later, z, rfl⟩
  · simp
  · have assoc : before ++ y :: later.concat z = (before ++ y :: later) ++ [z] := by simp
    rw [assoc, List.concat_eq_append]
    constructor
    · intro same
      obtain ⟨front, last⟩ := List.append_inj' same rfl
      cases last
      exact .inr ⟨later, front, rfl⟩
    · rintro (⟨-, -, none⟩ | ⟨later', rfl, same⟩)
      · simp at none
      · obtain ⟨rfl, last⟩ := List.append_inj' same rfl
        cases last
        rfl

/-- The last `x` of a list parts it in one way only. -/
theorem append_cons_inj_of_not_mem {l l' r r' : List α} (hr : x ∉ r) (hr' : x ∉ r')
    (same : l ++ x :: r = l' ++ x :: r') : l = l' ∧ r = r' := by
  rcases List.append_eq_append_iff.1 same with ⟨as, rfl, rest⟩ | ⟨as, rfl, rest⟩
  · cases as with
    | nil => exact ⟨(List.append_nil l).symm, (List.cons.inj rest).2⟩
    | cons a as =>
      have mem : x ∈ r := (List.cons.inj rest).2 ▸ List.mem_append_right as List.mem_cons_self
      exact absurd mem hr
  · cases as with
    | nil => exact ⟨List.append_nil l', (List.cons.inj rest).2.symm⟩
    | cons a as =>
      have mem : x ∈ r' := (List.cons.inj rest).2 ▸ List.mem_append_right as List.mem_cons_self
      exact absurd mem hr'

end Parting

section Failing

variable {α β : Type} {f : α → Option β} {xs : List α} {ys : List β}

/-- A function that may fail gives the elements of a list one by one. -/
theorem mapM_eq_some : xs.mapM f = some ys ↔ List.Forall₂ (fun x y => f x = some y) xs ys := by
  induction xs generalizing ys with
  | nil => simp [eq_comm]
  | cons x xs ih =>
    rw [List.mapM_cons, List.forall₂_cons_left_iff]
    constructor
    · intro mapped
      obtain ⟨y, first, mapped⟩ := Option.bind_eq_some_iff.1 mapped
      obtain ⟨ys', others, same⟩ := Option.bind_eq_some_iff.1 mapped
      cases same
      exact ⟨y, ys', first, ih.1 others, rfl⟩
    · rintro ⟨y, ys', first, others, rfl⟩
      simp [first, ih.2 others]

/-- It fails on a list exactly if it fails on one of the elements. -/
theorem mapM_eq_none_iff : xs.mapM f = none ↔ ∃ x ∈ xs, f x = none := by
  induction xs with
  | nil => simp
  | cons x xs ih =>
    rw [List.mapM_cons, List.exists_mem_cons_iff, ← ih]
    cases f x <;> cases xs.mapM f <;> simp

theorem exists_of_mem_mapM {x : α} (mapped : xs.mapM f = some ys) (mem : x ∈ xs) :
    ∃ y ∈ ys, f x = some y := by
  have each := mapM_eq_some.1 mapped
  clear mapped
  induction each with
  | nil => cases mem
  | cons first _ ih =>
    rcases List.mem_cons.1 mem with rfl | mem
    · exact ⟨_, List.mem_cons_self, first⟩
    · obtain ⟨y, mem, found⟩ := ih mem
      exact ⟨y, List.mem_cons_of_mem _ mem, found⟩

end Failing

end SessionGrid
