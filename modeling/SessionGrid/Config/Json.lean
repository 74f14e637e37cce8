import SessionGrid.Config.Basic

/-!
# Configurations as JSON

A configuration is an object with the fields `hub` and `node`. Every record may also be given as an
array of its fields. Unknown fields are passed over, a known field may be given once, and all fields
but the id of a node have defaults.
-/

namespace SessionGrid

open Json Text

/-! ## Writing -/

def NodeConfig.toJson (n : NodeConfig) : Json :=
  .object [
    ("id", .string n.id.text),
    ("max_sessions", .ofNat n.maxSessions.toNat (by have := n.maxSessions.toNat_lt; omega)),
    ("capabilities", .array (n.capabilities.map Capabilities.toJson))]

namespace Config

/-- The configuration as JSON, with the fields in the order of their declaration. -/
def toJson (c : Config) : Json :=
  .object [
    ("hub", .object [
      ("throw_on_capability_not_present", .bool c.strict),
      ("policy", .string c.policy.label)]),
    ("node", .array (c.nodes.map NodeConfig.toJson))]

/-! ## Reading -/

def readBool : Reader Bool := fun cs =>
  match readScalar cs with
  | some (.bool b, cs) => some (b, cs)
  | _ => none

/-- A limit of sessions: an integer of 32 bits without a sign. -/
def readLimit : Reader UInt32 := fun cs =>
  match readScalar cs with
  | some (.number (.integer n), cs) =>
    if 0 ≤ n.1 ∧ n.1 < 0x100000000 then some (n.1.toNat.toUInt32, cs) else none
  | _ => none

/-- The name of a policy, as text or as the only field of an object, with `null` for its value. -/
def readPolicy : Reader PolicyName
  | '{' :: cs => do
    let (label, cs) ← readString (skip cs)
    let (.null, cs) ← readScalar (skip (← Reader.word [':'] (skip cs))) | none
    let cs ← Reader.word ['}'] (skip cs)
    (PolicyName.ofLabel? label).map (·, cs)
  | cs => do
    let (label, cs) ← readString cs
    (PolicyName.ofLabel? label).map (·, cs)

/-- The hub's fields as far as they have been read. -/
structure HubFields where
  strict : Option Bool := none
  policy : Option PolicyName := none

def readHub : Reader HubFields :=
  record [
    ("throw_on_capability_not_present", once (·.strict) (fun b s => { s with strict := b }) readBool),
    ("policy", once (·.policy) (fun p s => { s with policy := p }) readPolicy)] {}

/-- A capability set: an object inside four arrays and objects. -/
def readCapabilities : Reader Capabilities := fun cs =>
  (readObject (maxDepth - 4) cs).map fun (b, cs) => (⟨b⟩, cs)

/-- An array. -/
def readList {α : Type} (item : Reader α) : Reader (List α)
  | '[' :: cs => items item cs
  | _ => none

/-- A node's fields as far as they have been read. -/
structure NodeFields where
  id : Option String := none
  maxSessions : Option UInt32 := none
  capabilities : Option (List Capabilities) := none

/-- The node with the given fields; all others have their defaults. -/
def NodeFields.node? (s : NodeFields) : Option NodeConfig :=
  s.id.map fun id =>
    { id := ⟨id⟩, maxSessions := s.maxSessions.getD 5, capabilities := s.capabilities.getD [] }

def readNodeFields : Reader NodeFields :=
  record [
    ("id", once (·.id) (fun x s => { s with id := x }) readString),
    ("max_sessions", once (·.maxSessions) (fun n s => { s with maxSessions := n }) readLimit),
    ("capabilities",
      once (·.capabilities) (fun c s => { s with capabilities := c }) (readList readCapabilities))] {}

def readNode : Reader NodeConfig := fun cs => do
  let (s, cs) ← readNodeFields cs
  s.node?.map (·, cs)

/-- The fields of a configuration as far as they have been read. -/
structure Fields where
  hub : Option HubFields := none
  nodes : Option (List NodeConfig) := none

/-- The configuration with the given fields; all others have their defaults. -/
def Fields.config (s : Fields) : Config :=
  let hub := s.hub.getD {}
  { strict := hub.strict.getD true
    policy := hub.policy.getD .leastLoaded
    nodes := s.nodes.getD [] }

def readFields : Reader Fields :=
  record [
    ("hub", once (·.hub) (fun h s => { s with hub := h }) readHub),
    ("node", once (·.nodes) (fun ns s => { s with nodes := ns }) (readList readNode))] {}

/-- The configuration that a JSON text describes, valid or not. -/
def ofJson? (s : String) : Option Config :=
  (whole readFields s).map Fields.config

end Config

end SessionGrid
