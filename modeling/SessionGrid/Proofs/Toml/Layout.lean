import SessionGrid.Proofs.Toml.Statement

/-!
# How a table is laid out

The sections of a table inside another are those it has on its own, with one key more in front of
every header (`fieldSections_cons`). A section opens with a header (`Writable.valueSections_opens`), and
all its statements can be written as long as the keys of its place and the tables in it are few enough
together (`Writable.valueSections`).
-/

namespace SessionGrid.Toml

/-! ## Sections inside a table -/

/-- The statement for a place one key further inside. An entry belongs to the open table wherever that
is. -/
def Statement.under (key : String) : Statement → Statement
  | entry path v => entry path v
  | header path => header (path.under key)
  | arrayHeader path => arrayHeader (path.under key)

/-- Entries name no place, so one key more around them changes nothing. -/
theorem entries_under (key : String) (fs : List (String × Toml)) :
    (entries fs).map (Statement.under key) = entries fs := by
  simp [entries, Statement.under]

mutual

/-- **One key more.** Inside another table the same sections come, each header with one key more in front.
-/
theorem fieldSections_cons (key : String) (place : List String) (fs : List (String × Toml)) :
    fieldSections (key :: place) fs = (fieldSections place fs).map (Statement.under key) := by
  match fs with
  | [] => rfl
  | (k, v) :: fs =>
    rw [fieldSections, fieldSections, List.map_append, valueSections_cons key place k v,
      fieldSections_cons key place fs]

theorem valueSections_cons (key : String) (place : List String) (k : String) (v : Toml) :
    valueSections (key :: place) k v = (valueSections place k v).map (Statement.under key) := by
  match v with
  | .table fs =>
    have inner := fieldSections_cons key (place ++ [k]) fs
    rw [valueSections, valueSections, List.map_append, List.map_append, entries_under,
      ← inner]
    split <;> rfl
  | .array xs =>
    rw [valueSections, valueSections]
    split
    · exact itemSections_cons key place k xs
    · rfl
  | .string _ | .integer _ | .float _ | .bool _ | .dateTime _ => rfl

theorem itemSections_cons (key : String) (place : List String) (k : String) (xs : List Toml) :
    itemSections (key :: place) k xs = (itemSections place k xs).map (Statement.under key) := by
  match xs with
  | [] => rfl
  | .table fs :: xs =>
    have inner := fieldSections_cons key (place ++ [k]) fs
    rw [itemSections, itemSections, itemSections_cons key place k xs]
    simp [entries_under, ← inner, Statement.under, Path.under]
  | .array _ :: xs | .string _ :: xs | .integer _ :: xs | .float _ :: xs | .bool _ :: xs
  | .dateTime _ :: xs =>
    rw [itemSections, itemSections, itemSections_cons key place k xs]
    all_goals nofun

end

/-! ## Headers first -/

/-- Opens a table, wherever the open one is. -/
def Statement.IsHeader : Statement → Prop
  | entry .. => False
  | header .. | arrayHeader .. => True

section Opens

variable {fs : List (String × Toml)} {xs : List Toml} {v : Toml}

/-- A value that is written in place has no section. -/
theorem valueSections_of_not_section (place : List String) (k : String)
    (inside : isSection v = false) : valueSections place k v = [] := by
  cases v with
  | table fs => cases inside
  | array xs => rw [valueSections, if_neg (by simpa [isSection] using inside)]
  | string _ | integer _ | float _ | bool _ | dateTime _ => rfl

/-- A field without an entry has a section. -/
theorem isSection_of_entries {f : String × Toml} (none : entries (f :: fs) = []) :
    isSection f.2 = true := by
  by_contra inside
  simp [entries, inside] at none

/-- An array of nothing but tables is the array of their fields. -/
theorem table_of_all (tables : xs.all isTable = true) :
    ∃ items : List (List (String × Toml)), xs = items.map .table := by
  induction xs with
  | nil => exact ⟨[], rfl⟩
  | cons x xs ih =>
    obtain ⟨own, others⟩ := Bool.and_eq_true_iff.1 (List.all_cons ▸ tables)
    obtain ⟨items, rfl⟩ := ih others
    cases x with
    | table fs => exact ⟨fs :: items, rfl⟩
    | _ => cases own

/-- An array that is laid out as sections holds tables, one at least. -/
theorem items_of_isSection (outside : isSection (.array xs) = true) :
    ∃ (fs : List (String × Toml)) (items : List (List (String × Toml))),
      xs = (fs :: items).map .table := by
  obtain ⟨some, tables⟩ := Bool.and_eq_true_iff.1 outside
  obtain ⟨items, rfl⟩ := table_of_all tables
  cases items with
  | nil => cases some
  | cons fs items => exact ⟨fs, items, rfl⟩

/-- An array of tables has a section for each of them. -/
theorem valueSections_items (place : List String) (k : String) (fs : List (String × Toml))
    (items : List (List (String × Toml))) :
    valueSections place k (.array ((fs :: items).map .table)) =
      itemSections place k ((fs :: items).map .table) := by
  simp [valueSections, isTable]

/-- **Headers.** The first statement of a section is a header. -/
theorem Writable.valueSections_opens {depth : Nat} (w : Writable depth v)
    (outside : isSection v = true) (place : List String) (k : String) :
    ∃ s ss, valueSections place k v = s :: ss ∧ s.IsHeader := by
  induction w generalizing place k with
  | @array _ xs items ih =>
    obtain ⟨fs, others, rfl⟩ := items_of_isSection outside
    rw [valueSections_items]
    exact ⟨.arrayHeader ⟨place, k⟩, _, rfl, trivial⟩
  | @table _ fs distinct fields ih =>
    rw [valueSections]
    split
    · exact ⟨.header ⟨place, k⟩, _, rfl, trivial⟩
    · next inner =>
      simp only [Bool.or_eq_true, Bool.not_eq_true', List.isEmpty_iff, not_or, Bool.not_eq_false]
        at inner
      obtain ⟨some, none⟩ := inner
      cases fs with
      | nil => exact absurd rfl some
      | cons f fs =>
        obtain ⟨s, ss, text, header⟩ := ih f List.mem_cons_self (isSection_of_entries none)
          (place ++ [k]) f.1
        exact ⟨s, _, by rw [none, fieldSections, text]; rfl, header⟩
  | _ => cases outside

end Opens

/-! ## Statements that can be written -/

section Written

variable {fs : List (String × Toml)} {v : Toml} {depth : Nat}

/-- A statement of a section belongs to one of the fields. -/
theorem mem_fieldSections {place : List String} {s : Statement} :
    s ∈ fieldSections place fs ↔ ∃ f ∈ fs, s ∈ valueSections place f.1 f.2 := by
  induction fs with
  | nil => simp [fieldSections]
  | cons f fs ih => simp [fieldSections, ih]

/-- In the sections of an array a statement is a header of its own or belongs to one of the tables. -/
theorem mem_itemSections {place : List String} {k : String} {s : Statement}
    {items : List (List (String × Toml))} (mem : s ∈ itemSections place k (items.map .table)) :
    s = .arrayHeader ⟨place, k⟩ ∨ ∃ fs ∈ items, s ∈ valueSections place k (.table fs) := by
  induction items with
  | nil => cases mem
  | cons fs items ih =>
    rw [List.map_cons, itemSections] at mem
    rcases List.mem_append.1 mem with own | later
    · refine (List.mem_cons.1 own).imp_right fun inner => ⟨fs, List.mem_cons_self, ?_⟩
      rw [valueSections, List.append_assoc]
      exact List.mem_append_right _ inner
    · refine (ih later).imp_right ?_
      rintro ⟨gs, memG, mem⟩
      exact ⟨gs, List.mem_cons_of_mem fs memG, mem⟩

/-- Entries of values that can be written can be written. -/
theorem writable_entries (le : depth ≤ maxDepth) (fields : ∀ f ∈ fs, Writable depth f.2) :
    ∀ s ∈ entries fs, s.Writable := by
  intro s mem
  obtain ⟨f, memF, rfl⟩ := List.mem_map.1 mem
  exact ⟨rfl, (fields f (List.mem_filter.1 memF).1).mono le⟩

/-- A header can be written if its place is not too deep. -/
theorem writable_header {place : List String} {k : String} (few : place.length < maxParts) :
    (Path.mk place k).keys.length ≤ maxParts := by
  rw [Path.keys, List.length_append]
  exact few

/-- The headers name few enough keys, and the entries are not too deep. -/
theorem Writable.valueSections (w : Writable depth v) {place : List String}
    (few : place.length + depth ≤ maxParts) (k : String) :
    ∀ s ∈ valueSections place k v, s.Writable := by
  induction w generalizing place k with
  | @array depth xs items ih =>
    intro s mem
    cases outside : isSection (.array xs) with
    | true =>
      obtain ⟨fs, others, rfl⟩ := items_of_isSection outside
      rw [valueSections_items] at mem
      rcases mem_itemSections mem with rfl | ⟨gs, memG, mem⟩
      · exact writable_header (by omega)
      · exact ih (.table gs) (List.mem_map_of_mem memG) (by omega) k s mem
    | false =>
      rw [valueSections_of_not_section place k outside] at mem
      cases mem
  | @table depth fs distinct fields ih =>
    intro s mem
    rw [Toml.valueSections, List.append_assoc] at mem
    rcases List.mem_append.1 mem with header | inner
    · split at header
      · rw [List.mem_singleton.1 header]
        exact writable_header (by omega)
      · cases header
    · rcases List.mem_append.1 inner with entry | section'
      · exact writable_entries (by simp only [maxParts, maxDepth] at few ⊢; omega) fields s entry
      · obtain ⟨f, memF, mem⟩ := mem_fieldSections.1 section'
        have deeper : (place ++ [k]).length + depth ≤ maxParts := by
          rw [List.length_append, List.length_singleton]
          omega
        exact ih f memF deeper f.1 s mem
  | _ =>
    intro s mem
    cases mem

/-- All statements of a table can be written. -/
theorem writable_statements (le : depth ≤ maxDepth) (fields : ∀ f ∈ fs, Writable depth f.2) :
    ∀ s ∈ statements fs, s.Writable := by
  intro s mem
  rcases List.mem_append.1 mem with entry | section'
  · exact writable_entries le fields s entry
  · obtain ⟨f, memF, mem⟩ := mem_fieldSections.1 section'
    exact (fields f memF).valueSections (by simpa [maxParts, maxDepth] using le) f.1 s mem

end Written

end SessionGrid.Toml
