import SessionGrid.Decimal.Layout
import SessionGrid.Json.Value

/-!
# JSON text

Two layouts: `Json.compact` without a blank, and `Json.pretty` with one item a line, two blanks a
level. Fields are written in the order in which the object holds them.
-/

namespace SessionGrid.Json

/-- Numbers are positional from `0.00001` to sixteen digits before the point. -/
def floatStyle : FloatStyle :=
  ⟨fun lead => decide (-5 ≤ lead) && decide (lead ≤ 15), .toEven⟩

/-- The digit `n < 16` in lower case. -/
def hexDigit (n : Nat) : Char :=
  Nat.digitChar n

/-- A character within quotes: a backslash form for quote, backslash and the control characters
below the blank, itself otherwise. -/
def escape (c : Char) : List Char :=
  if c = '"' then ['\\', '"']
  else if c = '\\' then ['\\', '\\']
  else if c = '\x08' then ['\\', 'b']
  else if c = '\t' then ['\\', 't']
  else if c = '\n' then ['\\', 'n']
  else if c = '\x0c' then ['\\', 'f']
  else if c = '\r' then ['\\', 'r']
  else if c.toNat < 0x20 then ['\\', 'u', '0', '0', hexDigit (c.toNat / 16), hexDigit (c.toNat % 16)]
  else [c]

def quoted (s : String) : List Char :=
  '"' :: s.toList.flatMap escape ++ ['"']

def writeInt (n : Int) : List Char :=
  if n < 0 then '-' :: Text.decimalDigits n.natAbs else Text.decimalDigits n.natAbs

def writeNumber : JsonNumber → List Char
  | .integer n => writeInt n
  | .float x => floatStyle.write x

mutual

def writeCompact : Json → List Char
  | .null => ['n', 'u', 'l', 'l']
  | .bool true => ['t', 'r', 'u', 'e']
  | .bool false => ['f', 'a', 'l', 's', 'e']
  | .number n => writeNumber n
  | .string s => quoted s
  | .array xs => '[' :: (compactItems xs ++ [']'])
  | .object fs => '{' :: (compactFields fs ++ ['}'])

def compactItems : List Json → List Char
  | [] => []
  | [x] => writeCompact x
  | x :: y :: xs => writeCompact x ++ ',' :: compactItems (y :: xs)

def compactFields : List (String × Json) → List Char
  | [] => []
  | [(k, x)] => quoted k ++ ':' :: writeCompact x
  | (k, x) :: f :: fs => quoted k ++ ':' :: (writeCompact x ++ ',' :: compactFields (f :: fs))

end

/-- A new line, indented to `level`. -/
def newLine (level : Nat) : List Char :=
  '\n' :: List.replicate (2 * level) ' '

mutual

/-- The pretty layout of a value that stands at `level`. An empty array or object stays closed. -/
def writePretty (level : Nat) : Json → List Char
  | .array (x :: xs) => '[' :: (prettyItems (level + 1) (x :: xs) ++ newLine level ++ [']'])
  | .object (f :: fs) => '{' :: (prettyFields (level + 1) (f :: fs) ++ newLine level ++ ['}'])
  | .null => ['n', 'u', 'l', 'l']
  | .bool true => ['t', 'r', 'u', 'e']
  | .bool false => ['f', 'a', 'l', 's', 'e']
  | .number n => writeNumber n
  | .string s => quoted s
  | .array [] => ['[', ']']
  | .object [] => ['{', '}']

def prettyItems (level : Nat) : List Json → List Char
  | [] => []
  | [x] => newLine level ++ writePretty level x
  | x :: y :: xs => newLine level ++ writePretty level x ++ ',' :: prettyItems level (y :: xs)

def prettyFields (level : Nat) : List (String × Json) → List Char
  | [] => []
  | [(k, x)] => newLine level ++ quoted k ++ ':' :: ' ' :: writePretty level x
  | (k, x) :: f :: fs =>
    newLine level ++ quoted k ++ ':' :: ' ' :: (writePretty level x ++ ',' :: prettyFields level (f :: fs))

end

/-- The text of a value without a blank. -/
def compact (x : Json) : String :=
  String.ofList x.writeCompact

/-- The text of a value with one item a line. -/
def pretty (x : Json) : String :=
  String.ofList (x.writePretty 0)

end SessionGrid.Json
