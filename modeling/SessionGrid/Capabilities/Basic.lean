import SessionGrid.Json.Printer
import SessionGrid.Json.Reader
import SessionGrid.Text.Caseless

/-!
# Capability sets

What a client asks for and what a node offers: JSON values under names. A request is met by an offer
that has every requested name with a matching value. Requests may hold wildcards, which ask for
nothing, not even for the name to be there. Texts match whatever their ASCII case, but only directly
under a name: all other values match exactly.
-/

namespace SessionGrid

/-- JSON values under capability names, in order of name. -/
structure Capabilities where
  entries : Bindings Json
deriving Inhabited

namespace Capabilities

def empty : Capabilities := ⟨[]⟩

def isEmpty (c : Capabilities) : Bool :=
  c.entries.isEmpty

def get? (c : Capabilities) (name : String) : Option Json :=
  Bindings.find? name c.entries

/-- The set with `name` bound to `value`, whatever it was bound to. -/
def insert (c : Capabilities) (name : String) (value : Json) : Capabilities :=
  ⟨Bindings.insert name value c.entries⟩

/-- The set of the given pairs; of two pairs with one name the later counts. -/
def ofList (pairs : List (String × Json)) : Capabilities :=
  ⟨Bindings.ofList pairs⟩

def toJson (c : Capabilities) : Json :=
  .object c.entries

/-- The set as JSON text without a blank. -/
def text (c : Capabilities) : String :=
  c.toJson.compact

/-- The set written as a JSON object. -/
def read (s : String) : Option Capabilities :=
  (Json.whole (Json.readObject Json.maxDepth) s).map fun b => ⟨b⟩

/-- The same names with the same values. -/
def same (c d : Capabilities) : Bool :=
  c.toJson.same d.toJson

/-- A requested value that any offer meets: `null`, or one of three texts. -/
def isWildcard : Json → Bool
  | .null => true
  | .string s => ["", "any", "*"].any (Text.sameCaseless s)
  | _ => false

/-- An offered value meets a wanted one. -/
def valuesMatch : Json → Json → Bool
  | .string wanted, .string offered => Text.sameCaseless wanted offered
  | wanted, offered => wanted.same offered

/-- The request is met by what is offered. -/
def satisfiedBy (requested offered : Capabilities) : Bool :=
  requested.entries.all fun (name, wanted) =>
    isWildcard wanted ||
      match offered.get? name with
      | some value => valuesMatch wanted value
      | none => false

end Capabilities

end SessionGrid
