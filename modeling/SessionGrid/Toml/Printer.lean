import SessionGrid.Decimal.Layout
import SessionGrid.Toml.Statement

/-!
# Writing TOML

A table is written as the statements of its layout, a line or more each, with an empty line before
every header that is not the first line. Inside a value an array of two items or more takes a line for
every item, and a table is written inline.
-/

namespace SessionGrid.Toml

/-- Numbers are always written positionally. -/
def floatStyle : FloatStyle :=
  ⟨fun _ => true, .upward⟩

def writeFloat (x : Binary64) : List Char :=
  if x.isFinite then floatStyle.write x
  else
    (if x.isNegative then ['-'] else []) ++ if x.isNaN then ['n', 'a', 'n'] else ['i', 'n', 'f']

def writeInt (n : Int) : List Char :=
  if n < 0 then '-' :: Text.decimalDigits n.natAbs else Text.decimalDigits n.natAbs

mutual

def writeValue : Toml → List Char
  | .string s => Quoted.write s.toList
  | .integer n => writeInt n
  | .float x => writeFloat x
  | .bool true => ['t', 'r', 'u', 'e']
  | .bool false => ['f', 'a', 'l', 's', 'e']
  | .dateTime d => d.text
  | .array [] => ['[', ']']
  | .array [x] => '[' :: (writeValue x ++ [']'])
  | .array (x :: y :: xs) => '[' :: (writeItems (x :: y :: xs) ++ ['\n', ']'])
  | .table [] => ['{', '}']
  | .table (f :: fs) => '{' :: ' ' :: (writeFields (f :: fs) ++ [' ', '}'])

/-- Items on lines of their own, four blanks from the margin at every depth. -/
def writeItems : List Toml → List Char
  | [] => []
  | x :: xs => '\n' :: ' ' :: ' ' :: ' ' :: ' ' :: (writeValue x ++ ',' :: writeItems xs)

def writeFields : List (String × Toml) → List Char
  | [] => []
  | [(k, x)] => writeKey k ++ ' ' :: '=' :: ' ' :: writeValue x
  | (k, x) :: f :: fs =>
    writeKey k ++ ' ' :: '=' :: ' ' :: (writeValue x ++ ',' :: ' ' :: writeFields (f :: fs))

end

namespace Statement

def write : Statement → List Char
  | entry path v => writeKeys path.keys ++ ' ' :: '=' :: ' ' :: (writeValue v ++ ['\n'])
  | header path => '[' :: (writeKeys path.keys ++ [']', '\n'])
  | arrayHeader path => '[' :: '[' :: (writeKeys path.keys ++ [']', ']', '\n'])

/-- The empty line that sets off a header from what stands before it. -/
def gap : Statement → List Char
  | entry .. => []
  | header .. | arrayHeader .. => ['\n']

end Statement

def writeStatements : List Statement → List Char
  | [] => []
  | s :: ss => s.write ++ ss.flatMap fun s => s.gap ++ s.write

/-- The text of a table. -/
def write (fields : List (String × Toml)) : String :=
  String.ofList (writeStatements (statements fields))

end SessionGrid.Toml
