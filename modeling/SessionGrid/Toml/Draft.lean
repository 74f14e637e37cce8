import SessionGrid.Toml.Statement

/-!
# Documents under construction

Statements are taken in one after the other. Until the end it matters how a table came about: one
that has had its header takes no second one, one that only headers of its subtables or dotted keys
have named can still grow. A value is closed at once, and so is every table of an array when the next
one starts.
-/

namespace SessionGrid.Toml

/-- How a table came about. -/
inductive Origin where
  | header
  /-- Named by the header of a table inside it. -/
  | implied
  /-- Named by a dotted key. -/
  | dotted
deriving DecidableEq

inductive Draft where
  | value (value : Toml)
  | table (origin : Origin) (entries : List (String × Draft))
  /-- An array of tables, of which the last is open. -/
  | tables (closed : List Toml) (last : List (String × Draft))

namespace Draft

mutual

/-- The value that a draft has become. -/
def close : Draft → Toml
  | value v => v
  | table _ es => .table (closeEntries es)
  | tables closed last => .array (closed ++ [.table (closeEntries last)])

def closeEntries : List (String × Draft) → List (String × Toml)
  | [] => []
  | (k, d) :: es => (k, close d) :: closeEntries es

end

/-- Adds `name = value` under a dotted key. Every table on the way has been named by dotted keys or by
headers only; the last has been named by dotted keys or is new. -/
def addEntry (name : String) (v : Toml) : List String → Bindings Draft → Option (Bindings Draft)
  | [], es => if (Bindings.find? name es).isSome then none else some (Bindings.insert name (value v) es)
  | k :: ks, es => do
    let d ← match Bindings.find? k es with
      | none => (addEntry name v ks []).map (table .dotted)
      | some (value _) => none
      | some (table .header _) => none
      | some (table .implied inner) =>
        if ks = [] then none else (addEntry name v ks inner).map (table .implied)
      | some (table .dotted inner) => (addEntry name v ks inner).map (table .dotted)
      | some (tables closed last) =>
        if ks = [] then none else (addEntry name v ks last).map (tables closed)
    some (Bindings.insert k d es)

/-- Changes the table that the keys of a header lead to. Tables that are not there yet are implied;
of an array of tables the last one counts. -/
def within (change : Bindings Draft → Option (Bindings Draft)) :
    List String → Bindings Draft → Option (Bindings Draft)
  | [], es => change es
  | k :: ks, es => do
    let d ← match Bindings.find? k es with
      | none => (within change ks []).map (table .implied)
      | some (value _) => none
      | some (table origin inner) => (within change ks inner).map (table origin)
      | some (tables closed last) => (within change ks last).map (tables closed)
    some (Bindings.insert k d es)

/-- Opens the table of a header: a new one, or one that is only implied so far. -/
def openTable (name : String) (es : Bindings Draft) : Option (Bindings Draft) :=
  match Bindings.find? name es with
  | none => some (Bindings.insert name (table .header []) es)
  | some (table .implied inner) => some (Bindings.insert name (table .header inner) es)
  | _ => none

/-- Opens the next table of an array of tables. -/
def openItem (name : String) (es : Bindings Draft) : Option (Bindings Draft) :=
  match Bindings.find? name es with
  | none => some (Bindings.insert name (tables [] []) es)
  | some (tables closed last) =>
    some (Bindings.insert name (tables (closed ++ [.table (closeEntries last)]) []) es)
  | _ => none

end Draft

/-- A document of which some statements have been taken in. -/
structure Assembly where
  /-- The place of the open table. -/
  place : List String := []
  root : Bindings Draft := []

namespace Assembly

def step (a : Assembly) : Statement → Option Assembly
  | .entry path v =>
    (Draft.within (Draft.addEntry path.name v path.parents) a.place a.root).map ({ a with root := · })
  | .header path => (Draft.within (Draft.openTable path.name) path.parents a.root).map (⟨path.keys, ·⟩)
  | .arrayHeader path =>
    (Draft.within (Draft.openItem path.name) path.parents a.root).map (⟨path.keys, ·⟩)

end Assembly

/-- The table that a list of statements describes, if they agree with each other. -/
def assemble (ss : List Statement) : Option (Bindings Toml) :=
  (ss.foldlM Assembly.step {}).map fun a => Draft.closeEntries a.root

end SessionGrid.Toml
