import SessionGrid.Proofs.Toml.Layout

/-!
# What is laid out is assembled again

The statements of a table, taken in one after the other, give the table with its keys in order
(`assemble_statements`), and so a table that can be written is read back (`read_write`). What
statements do inside a table they do in the same way from outside, with one key more in front of their
places (`Holds.run_under`): this carries the argument from the entries and sections of a table on its own to
the sections of the table around it, whether its header was written or is only implied, and to each
table of an array.
-/

namespace SessionGrid.Toml

/-- An assembly with some more statements taken in, their values with keys in order. -/
def run (a : Assembly) (ss : List Statement) : Option Assembly :=
  (ss.map Statement.canonical).foldlM Assembly.step a

theorem run_cons (a : Assembly) (s : Statement) (ss : List Statement) :
    run a (s :: ss) = (a.step s.canonical).bind fun a => run a ss := by
  rw [run, List.map_cons, List.foldlM_cons]
  rfl

theorem run_append (a : Assembly) (ss ts : List Statement) :
    run a (ss ++ ts) = (run a ss).bind fun a => run a ts := by
  rw [run, List.map_append, List.foldlM_append]
  rfl

/-! ## Inside a table -/

section Under

variable {k : String} {root es es' : Bindings Draft} {hold : Bindings Draft → Draft}

/-- The open table under `k` has the given entries: a table, the last one of an array, or one that
nothing has named so far. -/
inductive Holds (k : String) (root : Bindings Draft) :
    (Bindings Draft → Draft) → Bindings Draft → Prop where
  | table {origin : Origin} {es : Bindings Draft}
    (found : Bindings.find? k root = some (.table origin es)) : Holds k root (.table origin) es
  | tables {closed : List Toml} {es : Bindings Draft}
    (found : Bindings.find? k root = some (.tables closed es)) : Holds k root (.tables closed) es
  | unnamed (fresh : Bindings.find? k root = none) : Holds k root (.table .implied) []

theorem Holds.insert (h : Holds k root hold es) (es' : Bindings Draft) :
    Holds k (Bindings.insert k (hold es') root) hold es' := by
  have found : Bindings.find? k (Bindings.insert k (hold es') root) = some (hold es') := by
    rw [Bindings.find?_insert, if_pos rfl]
  cases h with
  | table _ | unnamed _ => exact .table found
  | tables _ => exact .tables found

theorem Holds.within_cons (h : Holds k root hold es) (change : Bindings Draft → Option (Bindings Draft))
    (place : List String) :
    Draft.within change (k :: place) root =
      (Draft.within change place es).map fun es' => Bindings.insert k (hold es') root := by
  cases h with
  | table found | tables found | unnamed found =>
    simp only [Draft.within, found, Option.bind_eq_bind, Option.bind_map]
    exact Option.map_eq_bind.symm

/-- A statement inside a table, seen from outside. A header need not find the table open. -/
theorem Holds.step_under (h : Holds k root hold es) {s : Statement} {place place' : List String}
    (inside : Assembly.step ⟨place, es⟩ s.canonical = some ⟨place', es'⟩) {outside : List String}
    (reached : s.IsHeader ∨ outside = k :: place) :
    Assembly.step ⟨outside, root⟩ (s.under k).canonical =
      some ⟨k :: place', Bindings.insert k (hold es') root⟩ := by
  cases s with
  | entry path v =>
    obtain header | rfl := reached
    · exact header.elim
    · obtain ⟨inner, changed, same⟩ := Option.map_eq_some_iff.1 inside
      cases same
      rw [Statement.under, Statement.canonical, Assembly.step, h.within_cons, changed]
      rfl
  | header path | arrayHeader path =>
    obtain ⟨inner, changed, same⟩ := Option.map_eq_some_iff.1 inside
    cases same
    rw [Statement.under, Statement.canonical, Assembly.step, Path.under, h.within_cons, changed]
    rfl

/-- **Inside and outside.** What statements do to the entries of a table on its own they do to the
table under its key, if that is open or their first is a header. -/
theorem Holds.run_under (h : Holds k root hold es) {s : Statement} {ss : List Statement}
    {place place' : List String} (inside : run ⟨place, es⟩ (s :: ss) = some ⟨place', es'⟩)
    {outside : List String} (reached : s.IsHeader ∨ outside = k :: place) :
    run ⟨outside, root⟩ ((s :: ss).map (Statement.under k)) =
      some ⟨k :: place', Bindings.insert k (hold es') root⟩ := by
  induction ss generalizing s place es root outside with
  | nil =>
    rw [run_cons] at inside
    obtain ⟨⟨place₁, es₁⟩, step, done⟩ := Option.bind_eq_some_iff.1 inside
    cases done
    rw [List.map_cons, run_cons, h.step_under step reached]
    rfl
  | cons t ss ih =>
    rw [run_cons] at inside
    obtain ⟨⟨place₁, es₁⟩, step, later⟩ := Option.bind_eq_some_iff.1 inside
    have rest := ih (h.insert es₁) later (.inr rfl)
    rw [List.map_cons, run_cons, h.step_under step reached, Option.bind_some, rest,
      Bindings.insert_insert]

end Under

/-! ## The statements of a table -/

/-- The value is assembled from its statements: a table from those of a document of its own, and
whatever is laid out as sections in any table without its key. -/
structure Assembles (v : Toml) : Prop where
  inside : ∀ {fs}, v = .table fs → ∃ place es, run {} (statements fs) = some ⟨place, es⟩ ∧
    Draft.closeEntries es = Bindings.ofList (canonicalFields fs)
  outside : isSection v = true → ∀ {k es}, Bindings.find? k es = none → ∀ start, ∃ place d,
    run ⟨start, es⟩ (valueSections [] k v) = some ⟨place, Bindings.insert k d es⟩ ∧
      d.close = v.canonical

section Contents

variable {fs : List (String × Toml)} {es : Bindings Draft}

theorem step_entry (k : String) (v : Toml) (fresh : Bindings.find? k es = none) :
    Assembly.step ⟨[], es⟩ (.entry ⟨[], k⟩ v) =
      some ⟨[], Bindings.insert k (.value v) es⟩ := by
  simp [Assembly.step, Draft.within, Draft.addEntry, fresh]

theorem find?_insert_of_apart {k : String} {d : Draft} (apart : k ∉ fs.map Prod.fst)
    {f : String × Toml} (mem : f ∈ fs) (fresh : Bindings.find? f.1 es = none) :
    Bindings.find? f.1 (Bindings.insert k d es) = none := by
  have ne : k ≠ f.1 := fun same => apart (same ▸ List.mem_map_of_mem mem)
  exact Bindings.find?_insert_of_fresh ne fresh

/-- Entries of different names, none of which is taken, are all added. -/
theorem run_entries (distinct : (fs.map Prod.fst).Nodup)
    (fresh : ∀ f ∈ fs, Bindings.find? f.1 es = none) :
    run ⟨[], es⟩ (fs.map fun f => .entry ⟨[], f.1⟩ f.2) =
      some ⟨[], Bindings.insertAll (Bindings.mapValues (.value ∘ canonical) fs) es⟩ := by
  induction fs generalizing es with
  | nil => rfl
  | cons f fs ih =>
    obtain ⟨apart, distinct⟩ := List.nodup_cons.1 distinct
    obtain ⟨new, fresh⟩ := List.forall_mem_cons.1 fresh
    have rest := ih distinct fun g mem =>
      find?_insert_of_apart (d := .value f.2.canonical) apart mem (fresh g mem)
    rw [List.map_cons, run_cons, Statement.canonical, step_entry f.1 _ new, Option.bind_some, rest]
    rfl

/-- So are sections, each closing to its value with the keys in order. -/
theorem run_fieldSections (fields : ∀ f ∈ fs, Assembles f.2) (distinct : (fs.map Prod.fst).Nodup)
    (fresh : ∀ f ∈ fs, isSection f.2 = true → Bindings.find? f.1 es = none) (start : List String) :
    ∃ place ds, run ⟨start, es⟩ (fieldSections [] fs) = some ⟨place, Bindings.insertAll ds es⟩ ∧
      Bindings.mapValues Draft.close ds =
        Bindings.mapValues canonical (fs.filter fun f => isSection f.2) := by
  induction fs generalizing es start with
  | nil => exact ⟨start, [], rfl, rfl⟩
  | cons f fs ih =>
    obtain ⟨own, others⟩ := List.forall_mem_cons.1 fields
    obtain ⟨apart, distinct⟩ := List.nodup_cons.1 distinct
    obtain ⟨new, fresh⟩ := List.forall_mem_cons.1 fresh
    cases outside : isSection f.2 with
    | true =>
      obtain ⟨place, d, first, closes⟩ := own.outside outside (new outside) start
      obtain ⟨place', ds, rest, close⟩ := ih others distinct (fun g mem outside =>
        find?_insert_of_apart apart mem (fresh g mem outside)) place
      refine ⟨place', (f.1, d) :: ds, ?_, ?_⟩
      · rw [fieldSections, run_append, first, Option.bind_some, rest]
        rfl
      · simp only [Bindings.mapValues] at close
        simp [Bindings.mapValues, outside, closes, close]
    | false =>
      obtain ⟨place', ds, rest, close⟩ := ih others distinct fresh start
      refine ⟨place', ds, ?_, ?_⟩
      · rw [fieldSections, valueSections_of_not_section [] f.1 outside]
        exact rest
      · simp [outside, close]

/-- Entries and sections close to the same table in whatever order its fields are. -/
theorem closeEntries_insertAll {inner outer : List (String × Toml)} {ds : Bindings Draft}
    (distinct : (fs.map Prod.fst).Nodup) (all : (inner ++ outer).Perm fs)
    (close : Bindings.mapValues Draft.close ds = Bindings.mapValues canonical outer) :
    Draft.closeEntries (Bindings.insertAll ds
        (Bindings.insertAll (Bindings.mapValues (.value ∘ canonical) inner) [])) =
      Bindings.ofList (canonicalFields fs) := by
  have values : Bindings.mapValues Draft.close (Bindings.mapValues (.value ∘ canonical) inner) =
      Bindings.mapValues canonical inner := by
    simp [Bindings.mapValues, Draft.close]
  calc Draft.closeEntries (Bindings.insertAll ds _)
      = Bindings.insertAll (Bindings.mapValues canonical outer)
          (Bindings.insertAll (Bindings.mapValues canonical inner) []) := by
        rw [closeEntries_eq, Bindings.mapValues_insertAll, close, Bindings.mapValues_insertAll, values]
        rfl
    _ = Bindings.ofList (Bindings.mapValues canonical (inner ++ outer)) := by
        rw [← Bindings.insertAll_append, Bindings.mapValues, Bindings.mapValues, ← List.map_append]
        rfl
    _ = Bindings.ofList (Bindings.mapValues canonical fs) := by
        apply Bindings.ofList_perm
        · rw [Bindings.mapValues_names]
          exact (all.map Prod.fst).nodup_iff.2 distinct
        · exact all.map _
    _ = Bindings.ofList (canonicalFields fs) := by rw [canonicalFields_eq_map]; rfl

/-- **Tables.** The statements of a table on its own give the table with its keys in order. -/
theorem run_statements (fields : ∀ f ∈ fs, Assembles f.2) (distinct : (fs.map Prod.fst).Nodup) :
    ∃ place es, run {} (statements fs) = some ⟨place, es⟩ ∧
      Draft.closeEntries es = Bindings.ofList (canonicalFields fs) := by
  let inner := fs.filter fun f => !isSection f.2
  let outer := fs.filter fun f => isSection f.2
  let kept := Bindings.insertAll (Bindings.mapValues (Draft.value ∘ canonical) inner) []
  have names : (inner.map Prod.fst).Nodup := distinct.sublist (List.filter_sublist.map _)
  have entries : run {} (entries fs) = some ⟨[], kept⟩ := run_entries names fun _ _ => rfl
  have fresh : ∀ f ∈ fs, isSection f.2 = true → Bindings.find? f.1 kept = none := by
    intro f mem outside
    apply Bindings.find?_insertAll_of_not_mem
    rw [Bindings.mapValues_names]
    intro taken
    obtain ⟨g, memG, same⟩ := List.mem_map.1 taken
    obtain ⟨memG, inside⟩ := List.mem_filter.1 memG
    have one : g = f := List.inj_on_of_nodup_map distinct memG mem same
    rw [one, outside] at inside
    cases inside
  obtain ⟨place, ds, sections, close⟩ := run_fieldSections fields distinct fresh []
  refine ⟨place, Bindings.insertAll ds kept, ?_, ?_⟩
  · rw [statements, run_append, entries, Option.bind_some, sections]
  · have all : (inner ++ outer).Perm fs :=
      List.perm_append_comm.trans (List.filter_append_perm (fun f => isSection f.2) fs)
    exact closeEntries_insertAll distinct all close

end Contents

/-! ## Sections -/

section Sections

variable {fs : List (String × Toml)} {k : String} {es es' rest : Bindings Draft}
  {hold : Bindings Draft → Draft} {place : List String}

/-- The sections of a table inside another. -/
theorem statements_under (k : String) (fs : List (String × Toml)) :
    entries fs ++ fieldSections [k] fs = (statements fs).map (Statement.under k) := by
  rw [statements, List.map_append, entries_under, fieldSections_cons]

/-- What the statements of a table make of it, they make of it under its key once that is open. -/
theorem Holds.run_statements (h : Holds k es hold []) (opened : es = Bindings.insert k (hold []) rest)
    (inside : run {} (statements fs) = some ⟨place, es'⟩) :
    run ⟨[k], es⟩ (entries fs ++ fieldSections [k] fs) =
      some ⟨k :: place, Bindings.insert k (hold es') rest⟩ := by
  rw [statements_under]
  cases text : statements fs with
  | nil =>
    rw [text] at inside
    cases inside
    rw [opened]
    rfl
  | cons s ss =>
    rw [text] at inside
    rw [h.run_under inside (.inr rfl), opened, Bindings.insert_insert]

/-- A table under a key that is not taken, with a header or without. -/
theorem run_tableSection {depth : Nat} (w : Writable depth (.table fs))
    (inside : run {} (statements fs) = some ⟨place, es'⟩) (fresh : Bindings.find? k es = none)
    (start : List String) :
    ∃ origin, run ⟨start, es⟩ (valueSections [] k (.table fs)) =
      some ⟨k :: place, Bindings.insert k (.table origin es') es⟩ := by
  obtain ⟨s, ss, text, header⟩ := w.valueSections_opens rfl [] k
  rw [valueSections, List.append_assoc, List.nil_append] at text ⊢
  split
  · have opened : Assembly.step ⟨start, es⟩ (.header ⟨[], k⟩) =
        some ⟨[k], Bindings.insert k (.table .header []) es⟩ := by
      simp [Assembly.step, Draft.within, Draft.openTable, fresh, Path.keys]
    have found : Bindings.find? k (Bindings.insert k (Draft.table .header []) es) =
        some (.table .header []) := by
      rw [Bindings.find?_insert, if_pos rfl]
    have rest := (Holds.table found).run_statements rfl inside
    refine ⟨.header, ?_⟩
    rw [List.singleton_append, run_cons, Statement.canonical, opened, Option.bind_some, rest]
  · next implied =>
    rw [if_neg implied, List.nil_append, statements_under] at text
    rw [List.nil_append, statements_under]
    cases first : statements fs with
    | nil =>
      rw [first] at text
      cases text
    | cons t ts =>
      rw [first] at text inside
      have opens : t.IsHeader := by
        have same : t.under k = s := (List.cons.inj text).1
        rw [← same] at header
        cases t <;> exact header
      exact ⟨.implied, (Holds.unnamed fresh).run_under inside (.inl opens)⟩

/-- An array of tables, the first of which is about to be opened behind some closed ones. -/
theorem run_itemSections {items : List (List (String × Toml))} (some : items ≠ [])
    (inside : ∀ fs ∈ items, ∃ place es, run {} (statements fs) = .some ⟨place, es⟩ ∧
      Draft.closeEntries es = Bindings.ofList (canonicalFields fs))
    {done : List Toml}
    (opens : Draft.openItem k es = .some (Bindings.insert k (.tables done []) rest))
    (start : List String) :
    ∃ place closed last, run ⟨start, es⟩ (itemSections [] k (items.map .table)) =
        .some ⟨place, Bindings.insert k (.tables closed last) rest⟩ ∧
      closed ++ [.table (Draft.closeEntries last)] =
        done ++ items.map fun fs => canonical (.table fs) := by
  induction items generalizing es done start with
  | nil => exact absurd rfl some
  | cons fs items ih =>
    obtain ⟨⟨place, last, own, close⟩, others⟩ := List.forall_mem_cons.1 inside
    have opened : Assembly.step ⟨start, es⟩ (.arrayHeader ⟨[], k⟩) =
        .some ⟨[k], Bindings.insert k (.tables done []) rest⟩ := by
      simp [Assembly.step, Draft.within, opens, Path.keys]
    have found : ∀ last, Bindings.find? k (Bindings.insert k (Draft.tables done last) rest) =
        .some (.tables done last) := by
      intro last
      rw [Bindings.find?_insert, if_pos rfl]
    have first := (Holds.tables (found [])).run_statements rfl own
    have closed : Toml.table (Draft.closeEntries last) = canonical (.table fs) := by
      rw [close, canonical]
    have step : run ⟨start, es⟩ (itemSections [] k ((fs :: items).map .table)) =
        run ⟨k :: place, Bindings.insert k (.tables done last) rest⟩
          (itemSections [] k (items.map .table)) := by
      rw [List.map_cons, itemSections, List.cons_append, run_cons, Statement.canonical, opened,
        Option.bind_some, run_append, List.nil_append, first, Option.bind_some]
    cases items with
    | nil =>
      refine ⟨k :: place, done, last, ?_, ?_⟩
      · rw [step]
        rfl
      · rw [closed]
        rfl
    | cons gs items =>
      have next : Draft.openItem k (Bindings.insert k (.tables done last) rest) =
          .some (Bindings.insert k (.tables (done ++ [canonical (.table fs)]) []) rest) := by
        simp only [Draft.openItem, found, closed, Bindings.insert_insert]
      obtain ⟨place', closed', last', later, whole⟩ :=
        ih (List.cons_ne_nil gs items) others next (k :: place)
      refine ⟨place', closed', last', ?_, ?_⟩
      · rw [step, later]
      · rw [whole]
        simp

end Sections

/-! ## Whole tables -/

section Tables

variable {fs : List (String × Toml)} {v : Toml} {depth : Nat}

theorem Writable.assembles (w : Writable depth v) : Assembles v := by
  induction w with
  | @array depth xs items ih =>
    refine ⟨by rintro _ ⟨⟩, fun outside k es fresh start => ?_⟩
    obtain ⟨fs, others, rfl⟩ := items_of_isSection outside
    have inside : ∀ gs ∈ fs :: others, ∃ place es, run {} (statements gs) = some ⟨place, es⟩ ∧
        Draft.closeEntries es = Bindings.ofList (canonicalFields gs) :=
      fun gs mem => (ih (.table gs) (List.mem_map_of_mem mem)).inside rfl
    have opens : Draft.openItem k es = some (Bindings.insert k (.tables [] []) es) := by
      simp only [Draft.openItem, fresh]
    obtain ⟨place, closed, last, sections, whole⟩ :=
      run_itemSections (List.cons_ne_nil fs others) inside opens start
    refine ⟨place, .tables closed last, ?_, ?_⟩
    · rw [valueSections_items, sections]
    · rw [Draft.close, whole, canonical, canonicalItems_eq_map, List.map_map]
      rfl
  | @table depth fs distinct fields ih =>
    have whole := run_statements ih distinct
    refine ⟨?_, fun _ k es fresh start => ?_⟩
    · rintro gs same
      cases same
      exact whole
    · obtain ⟨place, es', inside, close⟩ := whole
      obtain ⟨origin, sections⟩ := run_tableSection (.table distinct fields) inside fresh start
      refine ⟨k :: place, .table origin es', sections, ?_⟩
      rw [Draft.close, close, canonical]
  | string _ | integer _ | float _ _ | bool _ => exact ⟨by rintro _ ⟨⟩, by rintro ⟨⟩⟩

/-- The statements of a table that can be written describe it. -/
theorem assemble_statements (w : Writable (depth + 1) (.table fs)) :
    assemble ((statements fs).map Statement.canonical) =
      some (Bindings.ofList (canonicalFields fs)) := by
  obtain ⟨place, es, whole, close⟩ := w.assembles.inside rfl
  rw [run] at whole
  rw [assemble, whole, Option.map_some, close]

/-- **Tables.** A table that can be written is read back with its keys in order, at every depth. -/
theorem read_write (w : Writable (maxDepth + 1) (.table fs)) :
    read (write fs) = some (Bindings.ofList (canonicalFields fs)) := by
  have fields : ∀ f ∈ fs, Writable maxDepth f.2 := by
    cases w with
    | table distinct fields => exact fields
  rw [write, read_writeStatements (writable_statements (Nat.le_refl _) fields),
    assemble_statements w]

end Tables

end SessionGrid.Toml
