import SessionGrid.Binary64
import SessionGrid.Bindings

/-!
# JSON values

A number is an integer of at most 64 bits or a binary64 number, and the two kinds are never equal.
The fields of an object are kept in the order of the list; a value read from text has them in order
of name at every depth (`Json.Canonical`). `Json.same` is equality up to the sign of zero.
-/

namespace SessionGrid

/-- The integers that a JSON number holds exactly: 64 bits, with or without a sign. -/
abbrev JsonInt := { n : Int // -0x8000000000000000 ≤ n ∧ n < 0x10000000000000000 }

inductive JsonNumber where
  | integer (value : JsonInt)
  | float (value : Binary64)
deriving DecidableEq

inductive Json where
  | null
  | bool (value : Bool)
  | number (value : JsonNumber)
  | string (value : String)
  | array (items : List Json)
  | object (fields : List (String × Json))
deriving Inhabited

/-- The same number: integers with integers, binary64 numbers with binary64 numbers. -/
def JsonNumber.same : JsonNumber → JsonNumber → Bool
  | .integer a, .integer b => a == b
  | .float a, .float b => a.same b
  | _, _ => false

namespace Json

/-- An integer of 64 bits without a sign as a value. -/
def ofNat (n : Nat) (h : n < 0x10000000000000000 := by decide) : Json :=
  .number (.integer ⟨n, by omega⟩)

mutual

/-- The same value: equal but for the sign of zero, whatever the depth. -/
def same : Json → Json → Bool
  | .null, .null => true
  | .bool a, .bool b => a == b
  | .number a, .number b => a.same b
  | .string a, .string b => a == b
  | .array xs, .array ys => sameItems xs ys
  | .object fs, .object gs => sameFields fs gs
  | _, _ => false

def sameItems : List Json → List Json → Bool
  | [], [] => true
  | x :: xs, y :: ys => same x y && sameItems xs ys
  | _, _ => false

def sameFields : List (String × Json) → List (String × Json) → Bool
  | [], [] => true
  | (k, x) :: fs, (l, y) :: gs => k == l && same x y && sameFields fs gs
  | _, _ => false

end

mutual

/-- How many arrays and objects enclose the innermost value, the value itself counted. -/
def depth : Json → Nat
  | .array xs => itemsDepth xs + 1
  | .object fs => fieldsDepth fs + 1
  | _ => 0

def itemsDepth : List Json → Nat
  | [] => 0
  | x :: xs => max (depth x) (itemsDepth xs)

def fieldsDepth : List (String × Json) → Nat
  | [] => 0
  | (_, x) :: fs => max (depth x) (fieldsDepth fs)

end

mutual

/-- Numbers are finite, and the names of every object ascend. -/
def Canonical : Json → Prop
  | .number (.float x) => x.isFinite = true
  | .array xs => ItemsCanonical xs
  | .object fs => Bindings.Sorted fs ∧ FieldsCanonical fs
  | _ => True

def ItemsCanonical : List Json → Prop
  | [] => True
  | x :: xs => Canonical x ∧ ItemsCanonical xs

def FieldsCanonical : List (String × Json) → Prop
  | [] => True
  | (_, x) :: fs => Canonical x ∧ FieldsCanonical fs

end

end Json

end SessionGrid
