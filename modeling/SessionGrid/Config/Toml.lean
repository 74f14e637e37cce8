import SessionGrid.Config.Basic
import SessionGrid.Toml.Printer
import SessionGrid.Toml.Reader

/-!
# Configurations as TOML

The usual form of a configuration: the table `hub` and the array `node` of tables. Every record may
also be given as an array of its fields. Unknown keys are passed over, and all fields but the id of a
node have defaults. Capability values lose what JSON cannot say: a number that is not finite becomes
`null`, a date or time an object of one field. The other way round, `null` and integers above
`2 ^ 63 - 1` cannot be written.
-/

namespace SessionGrid

/-! ## Values -/

/-- The key under which a date or time is held where a table is wanted. -/
def dateTimeKey : String := "$__toml_private_datetime"

namespace Toml

mutual

/-- A capability value as JSON. -/
def toJson : Toml → Json
  | .string s => .string s
  | .integer n => .number (.integer ⟨n.1, by have := n.2; omega⟩)
  | .float x => if x.isFinite then .number (.float x) else .null
  | .bool b => .bool b
  | .dateTime d => .object [(dateTimeKey, .string (String.ofList d.text))]
  | .array xs => .array (itemsToJson xs)
  | .table fs => .object (fieldsToJson fs)

def itemsToJson : List Toml → List Json
  | [] => []
  | x :: xs => toJson x :: itemsToJson xs

def fieldsToJson : List (String × Toml) → List (String × Json)
  | [] => []
  | (k, x) :: fs => (k, toJson x) :: fieldsToJson fs

end

end Toml

namespace Json

mutual

/-- A capability value as TOML, if it can be written. -/
def toToml? : Json → Option Toml
  | .null => none
  | .bool b => some (.bool b)
  | .number (.integer n) => (Toml.ofInt? n.1).map .integer
  | .number (.float x) => some (.float x)
  | .string s => some (.string s)
  | .array xs => (itemsToToml? xs).map .array
  | .object fs => (fieldsToToml? fs).map .table

def itemsToToml? : List Json → Option (List Toml)
  | [] => some []
  | x :: xs => do some ((← toToml? x) :: (← itemsToToml? xs))

def fieldsToToml? : List (String × Json) → Option (List (String × Toml))
  | [] => some []
  | (k, x) :: fs => do some ((k, ← toToml? x) :: (← fieldsToToml? fs))

end

end Json

namespace Config

/-! ## Writing -/

def nodeToToml? (n : NodeConfig) : Option Toml := do
  let limit ← Toml.ofInt? n.maxSessions.toNat
  let capabilities ← n.capabilities.mapM fun c => c.toJson.toToml?
  some (.table [
    ("id", .string n.id.text),
    ("max_sessions", .integer limit),
    ("capabilities", .array capabilities)])

/-- The configuration as a table, with the fields in the order of their declaration. -/
def toToml? (c : Config) : Option (List (String × Toml)) := do
  let nodes ← c.nodes.mapM nodeToToml?
  some [
    ("hub", .table [
      ("throw_on_capability_not_present", .bool c.strict),
      ("policy", .string c.policy.label)]),
    ("node", .array nodes)]

/-- The configuration as TOML text, if all capability values can be written. -/
def tomlText? (c : Config) : Option String :=
  c.toToml?.map Toml.write

/-! ## Reading -/

/-- The fields of a record with the given field names: a table has them by name and an array by place,
where more items than names do not count. -/
def recordOf? (names : List String) : Toml → Option (Bindings Toml)
  | .table fs => some fs
  | .array xs => some (names.zip xs)
  | .dateTime d => some [(dateTimeKey, .string (String.ofList d.text))]
  | _ => none

/-- A field of a record, which has a default. -/
def fieldOr {α : Type} (default : α) (name : String) (value? : Toml → Option α)
    (fields : Bindings Toml) : Option α :=
  match Bindings.find? name fields with
  | some v => value? v
  | none => some default

def boolOf? : Toml → Option Bool
  | .bool b => some b
  | _ => none

/-- A limit of sessions: an integer of 32 bits without a sign. -/
def limitOf? : Toml → Option UInt32
  | .integer n => if 0 ≤ n.1 ∧ n.1 < 0x100000000 then some n.1.toNat.toUInt32 else none
  | _ => none

/-- The name of a policy, as text or as the only key of a table, with nothing in its value. -/
def policyOf? : Toml → Option PolicyName
  | .string s => PolicyName.ofLabel? s
  | .table [(label, .table [])] => PolicyName.ofLabel? label
  | .table [(label, .array [])] => PolicyName.ofLabel? label
  | _ => none

def capabilitiesOf? : Toml → Option Capabilities
  | .table fs => some ⟨Toml.fieldsToJson fs⟩
  | .dateTime d => some (Capabilities.empty.insert dateTimeKey (.string (String.ofList d.text)))
  | _ => none

/-- An array of values of one kind. -/
def listOf? {α : Type} (value? : Toml → Option α) : Toml → Option (List α)
  | .array xs => xs.mapM value?
  | _ => none

def nodeOf? (v : Toml) : Option NodeConfig := do
  let fields ← recordOf? ["id", "max_sessions", "capabilities"] v
  let .string id ← Bindings.find? "id" fields | none
  some
    { id := ⟨id⟩
      maxSessions := ← fieldOr 5 "max_sessions" limitOf? fields
      capabilities := ← fieldOr [] "capabilities" (listOf? capabilitiesOf?) fields }

/-- Whether the hub is strict, and its policy. -/
def hubOf? (v : Toml) : Option (Bool × PolicyName) := do
  let fields ← recordOf? ["throw_on_capability_not_present", "policy"] v
  let strict ← fieldOr true "throw_on_capability_not_present" boolOf? fields
  some (strict, ← fieldOr .leastLoaded "policy" policyOf? fields)

/-- The configuration that a table describes, valid or not. -/
def ofToml? (fields : Bindings Toml) : Option Config := do
  let (strict, policy) ← fieldOr (true, .leastLoaded) "hub" hubOf? fields
  some { strict, policy, nodes := ← fieldOr [] "node" (listOf? nodeOf?) fields }

/-- Why a configuration cannot be had from a text. -/
inductive TextError where
  /-- The text is no TOML, or does not describe a configuration. -/
  | malformed
  | invalid (fault : ConfigFault)
deriving DecidableEq

def TextError.message : TextError → String
  | malformed => "failed to parse config"
  | invalid fault => "invalid config: " ++ fault.message

/-- The valid configuration that a TOML text describes. -/
def ofTomlText (s : String) : Except TextError Config :=
  match (Toml.read s).bind ofToml? with
  | none => .error .malformed
  | some c =>
    match c.fault? with
    | none => .ok c
    | some fault => .error (.invalid fault)

end Config

end SessionGrid
