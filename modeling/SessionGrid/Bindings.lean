/-!
# Bindings

Values under names, in order of name, each name at most once. Names are ordered by code point, which
is also the order of their UTF-8 bytes. Main statements: a name looked up after `insert` or `erase`
(`find?_insert`, `find?_erase`), and both keep the order (`Sorted.insert`, `Sorted.erase`).
-/

namespace SessionGrid

/-- Values under names. The functions of this namespace expect and keep the order of names. -/
abbrev Bindings (α : Type) := List (String × α)

namespace Bindings

variable {α : Type}

/-- Names strictly ascending. -/
def Sorted (b : Bindings α) : Prop :=
  b.Pairwise fun p q => p.1 < q.1

def find? (name : String) : Bindings α → Option α
  | [] => none
  | (k, v) :: b => if k = name then some v else find? name b

/-- Binds `name` to `value`, in place of what it was bound to. -/
def insert (name : String) (value : α) : Bindings α → Bindings α
  | [] => [(name, value)]
  | (k, v) :: b =>
    if name < k then (name, value) :: (k, v) :: b
    else if name = k then (name, value) :: b
    else (k, v) :: insert name value b

def erase (name : String) (b : Bindings α) : Bindings α :=
  b.filter fun p => p.1 != name

/-- The bindings of a list of pairs; of two pairs with one name the later wins. -/
def ofList (ps : List (String × α)) : Bindings α :=
  ps.foldl (fun b p => insert p.1 p.2 b) []

theorem find?_insert (name : String) (value : α) (b : Bindings α) (k : String) :
    find? k (insert name value b) = if name = k then some value else find? k b := by
  induction b with
  | nil => simp [insert, find?]
  | cons p b ih =>
    obtain ⟨k', v⟩ := p
    by_cases h1 : name < k'
    · simp [insert, h1, find?]
    · by_cases h2 : name = k'
      · subst h2; by_cases hk : name = k <;> simp [insert, find?, hk]
      · by_cases hk : k' = k
        · subst hk; simp [insert, h1, h2, find?]
        · simp [insert, h1, h2, find?, hk, ih]

theorem find?_erase (name : String) (b : Bindings α) (k : String) :
    find? k (erase name b) = if name = k then none else find? k b := by
  induction b with
  | nil => simp [erase, find?]
  | cons p b ih =>
    obtain ⟨k', v⟩ := p
    simp only [erase] at ih ⊢
    by_cases h : k' = name
    · subst h; by_cases hk : k' = k <;> simp_all [find?]
    · by_cases hk : k' = k
      · subst hk; simp [h, find?, Ne.symm h]
      · simp [h, find?, hk, ih]

theorem mem_insert {name : String} {value : α} {b : Bindings α} {p : String × α}
    (h : p ∈ insert name value b) : p = (name, value) ∨ p ∈ b := by
  induction b with
  | nil => simpa [insert] using h
  | cons q b ih =>
    obtain ⟨k, v⟩ := q
    unfold insert at h
    split at h
    · simpa using h
    · split at h
      · rcases List.mem_cons.1 h with h | h
        · exact .inl h
        · exact .inr (List.mem_cons_of_mem _ h)
      · rcases List.mem_cons.1 h with h | h
        · exact .inr (h ▸ List.mem_cons_self)
        · exact (ih h).imp_right (List.mem_cons_of_mem _)

theorem Sorted.insert {b : Bindings α} (h : Sorted b) (name : String) (value : α) :
    Sorted (Bindings.insert name value b) := by
  induction b with
  | nil => simp [Bindings.insert, Sorted]
  | cons p b ih =>
    obtain ⟨k, v⟩ := p
    obtain ⟨hk, hb⟩ := List.pairwise_cons.1 h
    unfold Bindings.insert
    split
    · next hlt =>
      refine List.pairwise_cons.2 ⟨fun q hq => ?_, h⟩
      rcases List.mem_cons.1 hq with rfl | hq
      · exact hlt
      · exact String.lt_trans hlt (hk q hq)
    · split
      · next heq => subst heq; exact List.pairwise_cons.2 ⟨hk, hb⟩
      · next hlt hne =>
        refine List.pairwise_cons.2 ⟨fun q hq => ?_, ih hb⟩
        rcases mem_insert hq with rfl | hq
        · exact Classical.byContradiction fun hn =>
            hne (String.le_antisymm (String.not_lt.1 hn) (String.not_lt.1 hlt))
        · exact hk q hq

theorem Sorted.erase {b : Bindings α} (h : Sorted b) (name : String) :
    Sorted (Bindings.erase name b) :=
  List.Pairwise.filter _ h

end Bindings

end SessionGrid
