import SessionGrid.Binary64
import SessionGrid.Bindings
import SessionGrid.Toml.DateTime

/-!
# TOML values

What a document says, without how it says it: a table given by a header, by dotted keys or inline is
the same table. A table that was read has its keys in order; a table to be written can have them in
any order.
-/

namespace SessionGrid

/-- The integers of 64 bits with a sign. -/
abbrev TomlInt := { n : Int // -0x8000000000000000 ≤ n ∧ n < 0x8000000000000000 }

inductive Toml where
  | string (value : String)
  | integer (value : TomlInt)
  | float (value : Binary64)
  | bool (value : Bool)
  | dateTime (value : DateTime)
  | array (items : List Toml)
  | table (fields : List (String × Toml))
deriving Inhabited

namespace Toml

mutual

/-- The same value with the keys of every table in order; of two fields with one key the later
counts. -/
def canonical : Toml → Toml
  | .array xs => .array (canonicalItems xs)
  | .table fs => .table (Bindings.ofList (canonicalFields fs))
  | v => v

def canonicalItems : List Toml → List Toml
  | [] => []
  | x :: xs => canonical x :: canonicalItems xs

def canonicalFields : List (String × Toml) → List (String × Toml)
  | [] => []
  | (k, x) :: fs => (k, canonical x) :: canonicalFields fs

end

end Toml

end SessionGrid
