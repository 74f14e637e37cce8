import SessionGrid.Proofs.Toml.Value

/-!
# From a line to the document

A line that is read as an entry is an entry of the document (`readStatements_of_readLines`), and an entry of a
table of an array is one of a table in the array that the document describes, whatever comes later: no
later statement changes a value or a table that is closed (`Stands.run`). So what a line says can be found in
the document (`exists_item_of_entry`).
-/

namespace SessionGrid.Toml

open Bindings

/-! ## Lines -/

/-- The statements of the first `n` lines, where one statement counts as one line, and the text behind
them. -/
def readLines : Nat → List Char → Option (List Statement × List Char)
  | 0, cs => some ([], cs)
  | n + 1, cs =>
    match skipBlanks cs with
    | [] => none
    | c :: cs =>
      if c = '\n' || c = '#' then (lineEnd (c :: cs)).bind (readLines n)
      else do
        let (s, cs) ← readStatement (c :: cs)
        let (ss, cs) ← readLines n (← lineEnd cs)
        some (s :: ss, cs)

section Lines

variable {n bound : Nat} {cs rest : List Char} {ss all : List Statement}

/-- What is read line by line is read as statements, and more may follow. -/
theorem readStatements_of_readLines (first : readLines n cs = some (ss, rest))
    (read : readStatements bound cs = some all) :
    ∃ bound' ts, readStatements bound' rest = some ts ∧ all = ss ++ ts := by
  induction n generalizing bound cs ss all with
  | zero =>
    cases first
    exact ⟨bound, all, read, rfl⟩
  | succ n ih =>
    cases bound with
    | zero => cases read
    | succ bound =>
      rw [readLines] at first
      rw [readStatements] at read
      split at first
      · cases first
      · next c next front =>
        rw [front] at read
        dsimp only at read
        split at first
        · next empty =>
          rw [if_pos empty] at read
          obtain ⟨cs', ends, first⟩ := Option.bind_eq_some_iff.1 first
          rw [ends, Option.bind_some] at read
          exact ih first read
        · next solid =>
          rw [if_neg solid] at read
          obtain ⟨⟨s, behind⟩, statement, first⟩ := Option.bind_eq_some_iff.1 first
          obtain ⟨cs', ends, first⟩ := Option.bind_eq_some_iff.1 first
          obtain ⟨⟨ss', rest'⟩, first, same⟩ := Option.bind_eq_some_iff.1 first
          cases same
          simp only [statement, ends, Option.bind_eq_bind, Option.bind_some] at read
          obtain ⟨ts, behind, same⟩ := Option.bind_eq_some_iff.1 read
          cases same
          obtain ⟨bound', ts', later, rfl⟩ := ih first behind
          exact ⟨bound', ts', later, rfl⟩

/-- The statement at the front, if there is one. -/
theorem readStatements_cons {c : Char} (blank : isBlank c = false) (lineFeed : c ≠ '\n')
    (sharp : c ≠ '#') (read : readStatements bound (c :: cs) = some all) :
    ∃ s behind ts, readStatement (c :: cs) = some (s, behind) ∧ all = s :: ts := by
  cases bound with
  | zero => cases read
  | succ bound =>
    rw [readStatements, skipBlanks_cons blank] at read
    simp only [lineFeed, sharp, decide_false, Bool.or_self, Bool.false_eq_true, if_false] at read
    obtain ⟨⟨s, behind⟩, statement, read⟩ := Option.bind_eq_some_iff.1 read
    obtain ⟨cs', ends, read⟩ := Option.bind_eq_some_iff.1 read
    obtain ⟨ts, later, same⟩ := Option.bind_eq_some_iff.1 read
    cases same
    exact ⟨s, behind, ts, statement, rfl⟩

end Lines

/-! ## Values stay -/

namespace Draft

section Keeping

variable {change : Bindings Draft → Option (Bindings Draft)} {es es' : Bindings Draft}
  {k name p : String} {path : List String} {v w : Toml} {d : Draft}

/-- The table or the array under `p` is changed, and never a value; of an array the open table. -/
theorem within_cons_eq_some (changed : within change (p :: path) es = some es') :
    ∃ d, es' = insert p d es ∧ (∀ v, find? p es ≠ some (value v)) ∧
      ∀ closed last, find? p es = some (tables closed last) →
        ∃ last', within change path last = some last' ∧ d = tables closed last' := by
  rw [within] at changed
  split at changed
  · next free =>
    obtain ⟨d, -, same⟩ := Option.bind_eq_some_iff.1 changed
    cases same
    exact ⟨d, rfl, by simp [free], by simp [free]⟩
  · cases changed
  · next table =>
    obtain ⟨d, -, same⟩ := Option.bind_eq_some_iff.1 changed
    cases same
    exact ⟨d, rfl, by simp [table], by simp [table]⟩
  · next closed last tables =>
    obtain ⟨d, inside, same⟩ := Option.bind_eq_some_iff.1 changed
    cases same
    obtain ⟨last', inner, rfl⟩ := Option.map_eq_some_iff.1 inside
    refine ⟨_, rfl, by simp [tables], fun closed' last₁ found => ?_⟩
    cases tables.symm.trans found
    exact ⟨last', inner, rfl⟩

/-- A dotted key does the same to what its first part names. -/
theorem addEntry_cons_eq_some (added : addEntry name w (p :: path) es = some es') :
    ∃ d, es' = insert p d es ∧ (∀ v, find? p es ≠ some (value v)) ∧
      ∀ closed last, find? p es = some (tables closed last) →
        ∃ last', addEntry name w path last = some last' ∧ d = tables closed last' := by
  rw [addEntry] at added
  split at added
  · next free =>
    obtain ⟨d, -, same⟩ := Option.bind_eq_some_iff.1 added
    cases same
    exact ⟨d, rfl, by simp [free], by simp [free]⟩
  · cases added
  · cases added
  · next implied =>
    split at added
    · cases added
    · obtain ⟨d, -, same⟩ := Option.bind_eq_some_iff.1 added
      cases same
      exact ⟨d, rfl, by simp [implied], by simp [implied]⟩
  · next dotted =>
    obtain ⟨d, -, same⟩ := Option.bind_eq_some_iff.1 added
    cases same
    exact ⟨d, rfl, by simp [dotted], by simp [dotted]⟩
  · next closed last tables =>
    split at added
    · cases added
    · obtain ⟨d, inside, same⟩ := Option.bind_eq_some_iff.1 added
      cases same
      obtain ⟨last', inner, rfl⟩ := Option.map_eq_some_iff.1 inside
      refine ⟨_, rfl, by simp [tables], fun closed' last₁ found => ?_⟩
      cases tables.symm.trans found
      exact ⟨last', inner, rfl⟩

/-- What is bound to a value stays bound to it. -/
def Keeps (change : Bindings Draft → Option (Bindings Draft)) : Prop :=
  ∀ {es es' k v}, change es = some es' → find? k es = some (value v) → find? k es' = some (value v)

/-- A value is not bound again, so it stays when another name is. -/
theorem find?_insert_of_value (found : find? k es = some (value v))
    (apart : ∀ v, find? name es ≠ some (value v)) : find? k (insert name d es) = some (value v) := by
  have ne : name ≠ k := by
    rintro rfl
    exact apart v found
  rw [find?_insert, if_neg ne, found]

/-- An entry keeps all values. -/
theorem keeps_addEntry (name : String) (w : Toml) (path : List String) :
    Keeps (addEntry name w path) := by
  intro es es' k v added found
  cases path with
  | nil =>
    rw [addEntry] at added
    split at added
    · cases added
    · next free =>
      cases added
      refine find?_insert_of_value found fun v bound => free ?_
      rw [bound]
      rfl
  | cons p path =>
    obtain ⟨d, rfl, apart, -⟩ := addEntry_cons_eq_some added
    exact find?_insert_of_value found apart

/-- A change inside a table keeps all values if it keeps those in there. -/
theorem keeps_within (keeps : Keeps change) (path : List String) : Keeps (within change path) := by
  intro es es' k v changed found
  cases path with
  | nil => exact keeps changed found
  | cons p path =>
    obtain ⟨d, rfl, apart, -⟩ := within_cons_eq_some changed
    exact find?_insert_of_value found apart

/-- A table that is opened keeps all values. -/
theorem keeps_openTable (name : String) : Keeps (openTable name) := by
  intro es es' k v opened found
  rw [openTable] at opened
  split at opened
  · next free =>
    cases opened
    exact find?_insert_of_value found fun v bound => nomatch free.symm.trans bound
  · next implied =>
    cases opened
    exact find?_insert_of_value found fun v bound => nomatch implied.symm.trans bound
  · cases opened

theorem keeps_openItem (name : String) : Keeps (openItem name) := by
  intro es es' k v opened found
  rw [openItem] at opened
  split at opened
  · next free =>
    cases opened
    exact find?_insert_of_value found fun v bound => nomatch free.symm.trans bound
  · next tables =>
    cases opened
    exact find?_insert_of_value found fun v bound => nomatch tables.symm.trans bound
  · cases opened

end Keeping

end Draft

/-! ## Tables of an array -/

section Tables

variable {name k : String} {v : Toml} {root : Bindings Draft} {a a' : Assembly} {s : Statement}

/-- A table of the array under `name` has the value `v` under `k`: a closed one, or the open one. -/
def Stands (name k : String) (v : Toml) (root : Bindings Draft) : Prop :=
  ∃ closed last, find? name root = some (.tables closed last) ∧
    ((∃ fs, .table fs ∈ closed ∧ find? k fs = some v) ∨ find? k last = some (.value v))

theorem Stands.insert_other (stands : Stands name k v root) {p : String} (other : p ≠ name)
    (d : Draft) : Stands name k v (insert p d root) := by
  obtain ⟨closed, last, found, own⟩ := stands
  exact ⟨closed, last, by rw [find?_insert, if_neg other, found], own⟩

/-- What is done to the open table leaves the value where it is. -/
theorem stands_insert {closed : List Toml} {last last' : Bindings Draft}
    (own : (∃ fs, .table fs ∈ closed ∧ find? k fs = some v) ∨ find? k last = some (.value v))
    (keeps : find? k last = some (.value v) → find? k last' = some (.value v)) :
    Stands name k v (insert name (.tables closed last') root) :=
  ⟨closed, last', by rw [find?_insert, if_pos rfl], own.imp_right keeps⟩

theorem Stands.within_cons (stands : Stands name k v root)
    {change : Bindings Draft → Option (Bindings Draft)} (keeps : Draft.Keeps change) {p : String}
    {path : List String} {root' : Bindings Draft}
    (changed : Draft.within change (p :: path) root = some root') : Stands name k v root' := by
  obtain ⟨d, rfl, -, inside⟩ := Draft.within_cons_eq_some changed
  by_cases own : p = name
  · subst own
    obtain ⟨closed, last, found, held⟩ := stands
    obtain ⟨last', inner, rfl⟩ := inside closed last found
    exact stands_insert held (Draft.keeps_within keeps path inner)
  · exact stands.insert_other own d

/-- Closing an entry does not move it. -/
theorem find?_closeEntries (k : String) (es : Bindings Draft) :
    find? k (Draft.closeEntries es) = (find? k es).map Draft.close := by
  induction es with
  | nil => rfl
  | cons e es ih =>
    obtain ⟨k', d⟩ := e
    rw [Draft.closeEntries, find?, find?]
    split
    · rfl
    · exact ih

theorem Stands.addEntry (stands : Stands name k v root) {n : String} {w : Toml} {path : List String}
    {root' : Bindings Draft} (added : Draft.addEntry n w path root = some root') :
    Stands name k v root' := by
  obtain ⟨closed, last, found, held⟩ := id stands
  cases path with
  | nil =>
    rw [Draft.addEntry] at added
    split at added
    · cases added
    · next free =>
      cases added
      refine stands.insert_other ?_ _
      rintro rfl
      rw [found] at free
      exact free rfl
  | cons p path =>
    obtain ⟨d, rfl, -, inside⟩ := Draft.addEntry_cons_eq_some added
    by_cases own : p = name
    · subst own
      obtain ⟨last', inner, rfl⟩ := inside closed last found
      exact stands_insert held (Draft.keeps_addEntry n w path inner)
    · exact stands.insert_other own d

theorem Stands.openTable (stands : Stands name k v root) {n : String} {root' : Bindings Draft}
    (opened : Draft.openTable n root = some root') : Stands name k v root' := by
  obtain ⟨closed, last, found, held⟩ := id stands
  rw [Draft.openTable] at opened
  split at opened
  · next free =>
    cases opened
    refine stands.insert_other ?_ _
    rintro rfl
    cases found.symm.trans free
  · next implied =>
    cases opened
    refine stands.insert_other ?_ _
    rintro rfl
    cases found.symm.trans implied
  · cases opened

/-- The table that was open is closed with what it has. -/
theorem Stands.openItem (stands : Stands name k v root) {n : String} {root' : Bindings Draft}
    (opened : Draft.openItem n root = some root') : Stands name k v root' := by
  obtain ⟨closed, last, found, held⟩ := id stands
  rw [Draft.openItem] at opened
  split at opened
  · next free =>
    cases opened
    refine stands.insert_other ?_ _
    rintro rfl
    cases found.symm.trans free
  · next closed' last' tables =>
    cases opened
    by_cases own : n = name
    · subst own
      cases found.symm.trans tables
      refine ⟨_, _, by rw [find?_insert, if_pos rfl], .inl ?_⟩
      rcases held with ⟨fs, mem, bound⟩ | bound
      · exact ⟨fs, List.mem_append_left _ mem, bound⟩
      · refine ⟨Draft.closeEntries last, by simp, ?_⟩
        rw [find?_closeEntries, bound]
        rfl
    · exact stands.insert_other own _
  · cases opened

/-- **Steps.** A value in a table of an array stays there. -/
theorem Stands.step (stands : Stands name k v a.root) (step : a.step s = some a') :
    Stands name k v a'.root := by
  cases s with
  | entry path w =>
    obtain ⟨root', changed, same⟩ := Option.map_eq_some_iff.1 step
    cases same
    cases place : a.place with
    | cons p place =>
      rw [place] at changed
      exact stands.within_cons (Draft.keeps_addEntry _ _ _) changed
    | nil =>
      rw [place, Draft.within] at changed
      exact stands.addEntry changed
  | header path =>
    obtain ⟨root', changed, same⟩ := Option.map_eq_some_iff.1 step
    cases same
    cases parents : path.parents with
    | cons p parents =>
      rw [parents] at changed
      exact stands.within_cons (Draft.keeps_openTable _) changed
    | nil =>
      rw [parents, Draft.within] at changed
      exact stands.openTable changed
  | arrayHeader path =>
    obtain ⟨root', changed, same⟩ := Option.map_eq_some_iff.1 step
    cases same
    cases parents : path.parents with
    | cons p parents =>
      rw [parents] at changed
      exact stands.within_cons (Draft.keeps_openItem _) changed
    | nil =>
      rw [parents, Draft.within] at changed
      exact stands.openItem changed

/-- **No later statement** changes what stands. -/
theorem Stands.run {ss : List Statement} (stands : Stands name k v a.root)
    (run : ss.foldlM Assembly.step a = some a') : Stands name k v a'.root := by
  induction ss generalizing a with
  | nil =>
    cases run
    exact stands
  | cons s ss ih =>
    rw [List.foldlM_cons] at run
    obtain ⟨a₁, first, later⟩ := Option.bind_eq_some_iff.1 run
    exact ih (stands.step first) later

/-- The array of the document has a table with the value. -/
theorem Stands.closed (stands : Stands name k v root) :
    ∃ items fs, find? name (Draft.closeEntries root) = some (.array items) ∧ .table fs ∈ items ∧
      find? k fs = some v := by
  obtain ⟨closed, last, found, held⟩ := stands
  refine ⟨closed ++ [.table (Draft.closeEntries last)], ?_⟩
  rw [find?_closeEntries, found]
  rcases held with ⟨fs, mem, bound⟩ | bound
  · exact ⟨fs, rfl, List.mem_append_left _ mem, bound⟩
  · refine ⟨Draft.closeEntries last, rfl, by simp, ?_⟩
    rw [find?_closeEntries, bound]
    rfl

/-! ## The section of a table -/

/-- The last of the statements open a table of the array under `name` and fill it. -/
def Opens (name : String) (ss : List Statement) : Prop :=
  ∃ before entries, ss = before ++ .arrayHeader ⟨[], name⟩ :: entries ∧
    ∀ s ∈ entries, ∃ path v, s = .entry path v

/-- A table of the array under `name` is open. -/
def Open (name : String) (a : Assembly) : Prop :=
  a.place = [name] ∧ ∃ closed last, find? name a.root = some (.tables closed last)

/-- The header of an array opens its last table. -/
theorem open_of_arrayHeader (step : a.step (.arrayHeader ⟨[], name⟩) = some a') : Open name a' := by
  obtain ⟨root', changed, same⟩ := Option.map_eq_some_iff.1 step
  cases same
  refine ⟨rfl, ?_⟩
  rw [Draft.within, Draft.openItem] at changed
  split at changed
  · cases changed
    exact ⟨_, _, by rw [find?_insert, if_pos rfl]⟩
  · cases changed
    exact ⟨_, _, by rw [find?_insert, if_pos rfl]⟩
  · cases changed

/-- An entry goes into the table that is open. -/
theorem Open.entry {path : Path} (open_ : Open name a) (step : a.step (.entry path v) = some a') :
    ∃ closed last last', find? name a.root = some (.tables closed last) ∧
      Draft.addEntry path.name v path.parents last = some last' ∧
      a' = ⟨[name], insert name (.tables closed last') a.root⟩ := by
  obtain ⟨place, closed, last, found⟩ := open_
  obtain ⟨root', changed, same⟩ := Option.map_eq_some_iff.1 step
  cases same
  rw [place] at changed
  obtain ⟨d, rfl, -, inside⟩ := Draft.within_cons_eq_some changed
  obtain ⟨last', inner, rfl⟩ := inside closed last found
  exact ⟨closed, last, last', found, inner, by rw [place]⟩

/-- Entries leave it open. -/
theorem Open.entries {entries : List Statement} (open_ : Open name a)
    (all : ∀ s ∈ entries, ∃ path v, s = .entry path v)
    (run : entries.foldlM Assembly.step a = some a') : Open name a' := by
  induction entries generalizing a with
  | nil =>
    cases run
    exact open_
  | cons s entries ih =>
    rw [List.foldlM_cons] at run
    obtain ⟨a₁, first, later⟩ := Option.bind_eq_some_iff.1 run
    obtain ⟨path, v, rfl⟩ := all s List.mem_cons_self
    obtain ⟨closed, last, last', -, -, rfl⟩ := open_.entry first
    refine ih ⟨rfl, closed, last', ?_⟩ (fun s mem => all s (List.mem_cons_of_mem _ mem)) later
    rw [find?_insert, if_pos rfl]

/-- **Entries.** An entry under a single key, in the section of a table of an array, is one of a table of
that array in the document, whatever statements follow. -/
theorem exists_item_of_entry {ss ts : List Statement} {fields : Bindings Toml} (opens : Opens name ss)
    (assembled : assemble (ss ++ .entry ⟨[], k⟩ v :: ts) = some fields) :
    ∃ items fs, find? name fields = some (.array items) ∧ .table fs ∈ items ∧ find? k fs = some v := by
  obtain ⟨a', run, same⟩ := Option.map_eq_some_iff.1 assembled
  cases same
  obtain ⟨before, entries, rfl, all⟩ := opens
  rw [List.append_assoc, List.foldlM_append] at run
  obtain ⟨a₁, -, run⟩ := Option.bind_eq_some_iff.1 run
  rw [List.cons_append, List.foldlM_cons] at run
  obtain ⟨a₂, header, run⟩ := Option.bind_eq_some_iff.1 run
  rw [List.foldlM_append] at run
  obtain ⟨a₃, filled, run⟩ := Option.bind_eq_some_iff.1 run
  rw [List.foldlM_cons] at run
  obtain ⟨a₄, step, later⟩ := Option.bind_eq_some_iff.1 run
  have open_ : Open name a₃ := (open_of_arrayHeader header).entries all filled
  obtain ⟨closed, last, last', found, added, rfl⟩ := open_.entry step
  have bound : find? k last' = some (.value v) := by
    rw [Draft.addEntry] at added
    split at added
    · cases added
    · cases added
      rw [find?_insert, if_pos rfl]
  have stands : Stands name k v (insert name (.tables closed last') a₃.root) :=
    ⟨closed, last', by rw [find?_insert, if_pos rfl], .inr bound⟩
  exact (stands.run later).closed

end Tables

end SessionGrid.Toml
