import SessionGrid.Bindings

/-!
# Looking up, counting and listing bindings

In ascending order every name stands once, so that a lookup finds exactly the pairs of the list
(`Sorted.find?_eq_some_iff`). Binding a new name adds one pair and erasing a bound name takes one
away (`length_insert`, `Sorted.length_erase`).
-/

namespace SessionGrid.Bindings

variable {α : Type} {b : Bindings α} {name : String} {value : α}

theorem mem_of_find? (h : find? name b = some value) : (name, value) ∈ b := by
  induction b with
  | nil => cases h
  | cons p b ih =>
    obtain ⟨k, v⟩ := p
    by_cases hk : k = name
    · subst hk
      simp only [find?, if_true, Option.some.injEq] at h
      exact h ▸ List.mem_cons_self
    · simp only [find?, hk, if_false] at h
      exact List.mem_cons_of_mem _ (ih h)

theorem find?_eq_none_iff : find? name b = none ↔ ∀ p ∈ b, p.1 ≠ name := by
  induction b with
  | nil => simp [find?]
  | cons p b ih =>
    obtain ⟨k, v⟩ := p
    by_cases hk : k = name <;> simp [find?, hk, ih]

/-- Behind a name only greater ones follow. -/
theorem Sorted.ne_head {p : String × α} (h : Sorted (p :: b)) : ∀ q ∈ b, q.1 ≠ p.1 := by
  intro q hq e
  have lt := (List.pairwise_cons.1 h).1 q hq
  rw [e] at lt
  exact String.lt_irrefl _ lt

/-- **Lookup.** In ascending order the pairs of the list are all that can be found. -/
theorem Sorted.find?_eq_some_iff (h : Sorted b) :
    find? name b = some value ↔ (name, value) ∈ b := by
  refine ⟨mem_of_find?, fun hm => ?_⟩
  induction b with
  | nil => cases hm
  | cons p b ih =>
    rcases List.mem_cons.1 hm with rfl | hm
    · simp [find?]
    · have hne : p.1 ≠ name := fun e => h.ne_head _ hm e.symm
      simp [find?, hne, ih (List.pairwise_cons.1 h).2 hm]

/-- In ascending order no name stands twice. -/
theorem Sorted.nodup_names (h : Sorted b) : (b.map Prod.fst).Nodup := by
  apply List.pairwise_map.2
  apply h.imp
  intro p q lt e
  rw [e] at lt
  exact String.lt_irrefl _ lt

/-- A new name makes one more pair. -/
theorem length_insert (h : find? name b = none) : (insert name value b).length = b.length + 1 := by
  induction b with
  | nil => rfl
  | cons p b ih =>
    obtain ⟨k, v⟩ := p
    have hk : k ≠ name := find?_eq_none_iff.1 h _ List.mem_cons_self
    simp only [find?, hk, if_false] at h
    by_cases lt : name < k
    · simp [insert, lt]
    · simp [insert, lt, Ne.symm hk, ih h]

/-- There is nothing to erase of a name that is not bound. -/
theorem erase_of_find?_none (h : find? name b = none) : erase name b = b := by
  apply List.filter_eq_self.2
  intro p hp
  simpa using find?_eq_none_iff.1 h p hp

/-- A bound name that is erased takes one pair with it. -/
theorem Sorted.length_erase (h : Sorted b) (bound : find? name b = some value) :
    (Bindings.erase name b).length + 1 = b.length := by
  induction b with
  | nil => cases bound
  | cons p b ih =>
    obtain ⟨k, v⟩ := p
    by_cases hk : k = name
    · subst hk
      have rest : Bindings.erase k b = b :=
        erase_of_find?_none (find?_eq_none_iff.2 h.ne_head)
      simp only [Bindings.erase] at rest ⊢
      simp [rest]
    · simp only [find?, hk, if_false] at bound
      have ih := ih (List.pairwise_cons.1 h).2 bound
      simp only [Bindings.erase] at ih ⊢
      simpa [hk] using ih

/-- Of two bindings of one name after each other the later counts. -/
theorem insert_insert (name : String) (value value' : α) (b : Bindings α) :
    insert name value' (insert name value b) = insert name value' b := by
  induction b with
  | nil => simp [insert]
  | cons p b ih =>
    obtain ⟨k, v⟩ := p
    by_cases lt : name < k
    · simp [insert, lt]
    · by_cases same : name = k
      · subst same
        simp [insert]
      · simp [insert, lt, same, ih]

/-- Bindings in order are known by their pairs. -/
theorem Sorted.ext {c : Bindings α} (hb : Sorted b) (hc : Sorted c) (same : ∀ p, p ∈ b ↔ p ∈ c) :
    b = c := by
  have perm : b.Perm c := by
    have apart : ∀ {b : Bindings α}, Sorted b → b.Nodup := by
      intro b h
      apply h.imp
      rintro p q lt rfl
      exact String.lt_irrefl _ lt
    exact (List.perm_ext_iff_of_nodup (apart hb) (apart hc)).2 same
  refine perm.eq_of_pairwise ?_ hb hc
  intro p q _ _ lt gt
  exact absurd (String.lt_trans lt gt) (String.lt_irrefl _)

/-- Bindings in order are known by what is looked up in them. -/
theorem Sorted.ext_find? {c : Bindings α} (hb : Sorted b) (hc : Sorted c)
    (same : ∀ name, find? name b = find? name c) : b = c := by
  refine hb.ext hc fun p => ?_
  rw [← hb.find?_eq_some_iff, ← hc.find?_eq_some_iff, same]

/-- A new name adds its pair and keeps all others. -/
theorem mem_insert_iff (fresh : find? name b = none) {p : String × α} :
    p ∈ insert name value b ↔ p = (name, value) ∨ p ∈ b := by
  refine ⟨mem_insert, ?_⟩
  induction b with
  | nil => simp [insert]
  | cons q b ih =>
    obtain ⟨k, v⟩ := q
    have hk : k ≠ name := find?_eq_none_iff.1 fresh _ List.mem_cons_self
    simp only [find?, hk, if_false] at fresh
    by_cases lt : name < k
    · simp [insert, lt]
    · have rest := ih fresh
      simp only [insert, lt, if_false, Ne.symm hk, List.mem_cons]
      rintro (new | head | old)
      · exact .inr (rest (.inl new))
      · exact .inl head
      · exact .inr (rest (.inr old))

/-! ## Inserting one after the other -/

section InsertAll

variable {β : Type} {ps : List (String × α)}

/-- All pairs bound one after the other, on top of what is bound already. -/
def insertAll (ps : List (String × α)) (b : Bindings α) : Bindings α :=
  ps.foldl (fun b p => insert p.1 p.2 b) b

theorem insertAll_cons (p : String × α) (ps : List (String × α)) (b : Bindings α) :
    insertAll (p :: ps) b = insertAll ps (insert p.1 p.2 b) := rfl

theorem ofList_eq_insertAll (ps : List (String × α)) : ofList ps = insertAll ps [] := rfl

/-- The same names with other values. -/
def mapValues (f : α → β) (b : List (String × α)) : List (String × β) :=
  b.map fun p => (p.1, f p.2)

/-- Values may be mapped before or after a name is bound. -/
theorem mapValues_insert (f : α → β) (name : String) (value : α) (b : Bindings α) :
    mapValues f (insert name value b) = insert name (f value) (mapValues f b) := by
  induction b with
  | nil => rfl
  | cons p b ih =>
    obtain ⟨k, v⟩ := p
    simp only [mapValues] at ih
    simp only [insert, mapValues, List.map_cons]
    split
    · rfl
    · split
      · rfl
      · simp [ih]

theorem mapValues_insertAll (f : α → β) (ps : List (String × α)) (b : Bindings α) :
    mapValues f (insertAll ps b) = insertAll (mapValues f ps) (mapValues f b) := by
  induction ps generalizing b with
  | nil => rfl
  | cons p ps ih => rw [insertAll_cons, ih, mapValues_insert]; rfl

/-- Mapping the values keeps the names. -/
theorem mapValues_names (f : α → β) (ps : List (String × α)) :
    (mapValues f ps).map Prod.fst = ps.map Prod.fst := by
  rw [mapValues, List.map_map]
  rfl

/-- Binding names keeps the order. -/
theorem Sorted.insertAll {b : Bindings α} (h : Sorted b) (ps : List (String × α)) :
    Sorted (Bindings.insertAll ps b) := by
  induction ps generalizing b with
  | nil => exact h
  | cons p ps ih => exact ih (h.insert p.1 p.2)

theorem sorted_ofList (ps : List (String × α)) : Sorted (ofList ps) :=
  Sorted.insertAll List.Pairwise.nil ps

theorem insertAll_append (ps qs : List (String × α)) (b : Bindings α) :
    insertAll (ps ++ qs) b = insertAll qs (insertAll ps b) :=
  List.foldl_append

/-- Names that are not bound yet stay so while others are bound. -/
theorem find?_insert_of_fresh {k : String} (ne : name ≠ k) (fresh : find? k b = none) :
    find? k (insert name value b) = none := by
  rw [find?_insert, if_neg ne, fresh]

/-- A name that is not among those bound is found as before. -/
theorem find?_insertAll_of_not_mem {k : String} (apart : k ∉ ps.map Prod.fst) :
    find? k (insertAll ps b) = find? k b := by
  induction ps generalizing b with
  | nil => rfl
  | cons p ps ih =>
    obtain ⟨own, others⟩ := not_or.1 (fun either => apart (List.mem_cons.2 either))
    rw [insertAll_cons, ih others, find?_insert, if_neg (Ne.symm own)]

/-- Different new names add all their pairs. -/
theorem mem_insertAll (distinct : (ps.map Prod.fst).Nodup)
    (fresh : ∀ p ∈ ps, find? p.1 b = none) {q : String × α} :
    q ∈ insertAll ps b ↔ q ∈ ps ∨ q ∈ b := by
  induction ps generalizing b with
  | nil => simp [insertAll]
  | cons p ps ih =>
    obtain ⟨apart, distinct⟩ := List.nodup_cons.1 distinct
    have later : ∀ r ∈ ps, find? r.1 (insert p.1 p.2 b) = none := by
      intro r mem
      have ne : p.1 ≠ r.1 := fun same => apart (same ▸ List.mem_map_of_mem mem)
      exact find?_insert_of_fresh ne (fresh r (List.mem_cons_of_mem p mem))
    rw [insertAll_cons, ih distinct later, mem_insert_iff (fresh p List.mem_cons_self),
      List.mem_cons]
    constructor
    · rintro (inner | own | outer)
      · exact .inl (.inr inner)
      · exact .inl (.inl own)
      · exact .inr outer
    · rintro ((own | inner) | outer)
      · exact .inr (.inl own)
      · exact .inl inner
      · exact .inr (.inr outer)

/-- Pairs of different names are all bound. -/
theorem mem_ofList (distinct : (ps.map Prod.fst).Nodup) {p : String × α} :
    p ∈ ofList ps ↔ p ∈ ps := by
  rw [ofList_eq_insertAll, mem_insertAll distinct fun _ _ => rfl]
  simp

/-- Of different names each is found with its value. -/
theorem find?_ofList (distinct : (ps.map Prod.fst).Nodup) {name : String} {value : α}
    (mem : (name, value) ∈ ps) : find? name (ofList ps) = some value :=
  (sorted_ofList ps).find?_eq_some_iff.2 ((mem_ofList distinct).2 mem)

/-- The order of pairs with different names does not matter. -/
theorem ofList_perm {qs : List (String × α)} (distinct : (ps.map Prod.fst).Nodup)
    (perm : ps.Perm qs) : ofList ps = ofList qs := by
  have distinct' : (qs.map Prod.fst).Nodup := (perm.map Prod.fst).nodup_iff.1 distinct
  refine (sorted_ofList ps).ext (sorted_ofList qs) fun p => ?_
  rw [mem_ofList distinct, mem_ofList distinct', perm.mem_iff]

/-- A list in ascending order is already its own. -/
theorem Sorted.ofList {b : Bindings α} (h : Sorted b) : Bindings.ofList b = b :=
  (sorted_ofList b).ext h fun _ => mem_ofList h.nodup_names

end InsertAll

end SessionGrid.Bindings
