import SessionGrid.Capabilities.Basic
import SessionGrid.Text.Blank

/-!
# Capabilities as typed: `name=value`

The first `=` ends the name. Blanks around name and value do not count. A value that is JSON text
stands for what it says, any other value for itself, as a text.
-/

namespace SessionGrid.Capabilities

/-- The characters before the first `=` and those behind it. -/
def splitPair : List Char → Option (List Char × List Char)
  | [] => none
  | c :: cs => if c = '=' then some ([], cs) else (splitPair cs).map fun (k, v) => (c :: k, v)

/-- The value that a typed text stands for. -/
def typedValue (s : String) : Json :=
  (Json.read s).getD (.string s)

/-- The name and the value of a typed pair: there has to be a `=`, and a name before it. -/
def parsePair (s : String) : Option (String × Json) := do
  let (name, value) ← splitPair s.toList
  let name := Text.strip name
  if name.isEmpty then none
  else some (String.ofList name, typedValue (String.ofList (Text.strip value)))

/-- Why a typed pair was refused. -/
def pairMessage (s : String) : String :=
  "expected key=value, got `" ++ s ++ "`"

/-- The set of typed pairs, if each of them is one. -/
def parsePairs (pairs : List String) : Option Capabilities :=
  (pairs.mapM parsePair).map ofList

end SessionGrid.Capabilities
