import SessionGrid.Capabilities.Basic
import SessionGrid.Hub.Basic

/-!
# Declared grids

A configuration says how a hub behaves and which nodes its grid has. It is valid when a hub could
hold every node: ids are not blank and all different, and every node has a slot.
-/

namespace SessionGrid

/-- The policies that can be declared. -/
inductive PolicyName where
  | leastLoaded
  | roundRobin
deriving DecidableEq

namespace PolicyName

/-- The policy before its first call. -/
def policy : PolicyName → Policy
  | leastLoaded => .leastLoaded
  | roundRobin => .roundRobin 0

def label (p : PolicyName) : String :=
  p.policy.name

def ofLabel? (s : String) : Option PolicyName :=
  [leastLoaded, roundRobin].find? fun p => p.label == s

end PolicyName

structure NodeConfig where
  id : NodeId
  maxSessions : UInt32 := 5
  capabilities : List Capabilities := []

structure Config where
  /-- Requests that can never be served are errors. -/
  strict : Bool := true
  policy : PolicyName := .leastLoaded
  nodes : List NodeConfig := []

/-- What keeps a hub from holding a declared node. -/
inductive ConfigFault where
  | blankId
  | noSessions (id : NodeId)
  | duplicateId (id : NodeId)
deriving DecidableEq

def ConfigFault.message : ConfigFault → String
  | blankId => "node id must not be empty"
  | noSessions id => "node " ++ id.text ++ " declares max_sessions = 0"
  | duplicateId id => "duplicate node id " ++ id.text

namespace Config

/-- The first fault of the nodes after those with the ids `seen`. -/
def faultAfter (seen : List NodeId) : List NodeConfig → Option ConfigFault
  | [] => none
  | n :: ns =>
    if n.id.isBlank then some .blankId
    else if n.maxSessions = 0 then some (.noSessions n.id)
    else if n.id ∈ seen then some (.duplicateId n.id)
    else faultAfter (n.id :: seen) ns

/-- The first fault of a configuration. -/
def fault? (c : Config) : Option ConfigFault :=
  faultAfter [] c.nodes

/-- One local node with two browsers, to start from. -/
def scaffold : Config :=
  { nodes := [{
      id := ⟨"http://localhost:5555"⟩
      capabilities := [
        Capabilities.empty.insert "browserName" (.string "chrome"),
        Capabilities.empty.insert "browserName" (.string "firefox")] }] }

/-- The hub that a configuration asks for, before it has any node. -/
def hub {N : Type} (c : Config) : Hub Policy N :=
  .empty c.strict c.policy.policy

end Config

/-- The node that a configuration asks for. -/
def NodeConfig.node (n : NodeConfig) : SlotNode :=
  { id := n.id, maxSessions := n.maxSessions, offers := n.capabilities }

end SessionGrid
