import SessionGrid.Toml.Key
import SessionGrid.Toml.Value

/-!
# Statements of a document

A document is a list of statements: headers that open a table or the next table of an array, and
entries of the table that was opened last. `statements` says how a table is laid out: first its
values, then a section for every table and every array of tables in it, depth first.
-/

namespace SessionGrid.Toml

inductive Statement where
  /-- `path = value` -/
  | entry (path : Path) (value : Toml)
  /-- `[path]` -/
  | header (path : Path)
  /-- `[[path]]` -/
  | arrayHeader (path : Path)


def isTable : Toml → Bool
  | .table _ => true
  | _ => false

/-- Laid out as sections, unless it stands inside a value: a table, or an array of tables and nothing
else that is not empty. -/
def isSection : Toml → Bool
  | .table _ => true
  | .array xs => !xs.isEmpty && xs.all isTable
  | _ => false

/-- The fields that are laid out as entries. -/
def entries (fields : List (String × Toml)) : List Statement :=
  (fields.filter fun f => !isSection f.2).map fun f => .entry ⟨[], f.1⟩ f.2

mutual

/-- The sections of the fields of the table with the given place. -/
def fieldSections (place : List String) : List (String × Toml) → List Statement
  | [] => []
  | (k, v) :: fs => valueSections place k v ++ fieldSections place fs

/-- A section for a table, which needs a header only if it has entries or nothing at all, and a
section for each table of an array. -/
def valueSections (place : List String) (k : String) : Toml → List Statement
  | .table fs =>
    (if fs.isEmpty || !(entries fs).isEmpty then [.header ⟨place, k⟩] else []) ++ entries fs ++
      fieldSections (place ++ [k]) fs
  | .array xs => if !xs.isEmpty && xs.all isTable then itemSections place k xs else []
  | _ => []

def itemSections (place : List String) (k : String) : List Toml → List Statement
  | [] => []
  | .table fs :: xs =>
    .arrayHeader ⟨place, k⟩ :: (entries fs ++ fieldSections (place ++ [k]) fs) ++
      itemSections place k xs
  | _ :: xs => itemSections place k xs

end

/-- The statements of a document. -/
def statements (fields : List (String × Toml)) : List Statement :=
  entries fields ++ fieldSections [] fields

end SessionGrid.Toml
