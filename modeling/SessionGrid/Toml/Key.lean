import SessionGrid.Toml.Quoted

/-!
# Keys

A key is bare or quoted on one line; keys joined by points name a place in nested tables, its `Path`.
-/

namespace SessionGrid.Toml

open Text

/-- Keys from the outside in, the last one apart. -/
structure Path where
  parents : List String
  name : String
deriving DecidableEq

namespace Path

def keys (p : Path) : List String :=
  p.parents ++ [p.name]

/-- The path under `key`. -/
def under (key : String) (p : Path) : Path :=
  ⟨key :: p.parents, p.name⟩

end Path

/-- Keys have at most this many parts. -/
def maxParts : Nat := 79

def isBare (c : Char) : Bool :=
  c.isAlphanum || c == '_' || c == '-'

def skipBlanks (cs : List Char) : List Char :=
  cs.dropWhile isBlank

/-- One part of a key. -/
def readKey : Reader String := fun cs =>
  match cs.span isBare with
  | ([], cs) => (Quoted.readLine cs).map fun (s, cs) => (String.ofList s, cs)
  | (s, cs) => some (String.ofList s, cs)

/-- Parts of a key, joined by points, with blanks around them; at most `bound` of them. -/
def readParts : Nat → Reader Path
  | 0, _ => none
  | bound + 1, cs => do
    let (key, cs) ← readKey (skipBlanks cs)
    match skipBlanks cs with
    | '.' :: cs => (readParts bound cs).map fun (p, cs) => (p.under key, cs)
    | cs => some (⟨[], key⟩, cs)

/-- A key of one part or more. -/
def readPath : Reader Path :=
  readParts maxParts

def writeKey (key : String) : List Char :=
  let s := key.toList
  if s ≠ [] ∧ s.all isBare then s else Quoted.writeLine s

/-- Keys joined by points. -/
def writeKeys : List String → List Char
  | [] => []
  | [k] => writeKey k
  | k :: l :: ks => writeKey k ++ '.' :: writeKeys (l :: ks)

end SessionGrid.Toml
