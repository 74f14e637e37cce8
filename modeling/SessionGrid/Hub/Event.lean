import SessionGrid.Capabilities.Basic
import SessionGrid.Hub.NodeId

/-!
# Events

What a hub, its nodes and the clients of a simulation report about their work. An event has a level,
a message and named fields; `Event.line` writes it.
-/

namespace SessionGrid

inductive Level where
  | debug
  | info
  | warn
deriving DecidableEq

def Level.name : Level → String
  | .debug => "DEBUG"
  | .info => "INFO"
  | .warn => "WARN"

inductive Event where
  /-- A node granted a session. -/
  | sessionGranted (node : NodeId) (session : String)
  /-- A node got a slot back. -/
  | sessionReleased (node : NodeId) (session : String)
  | nodeAdded (node : NodeId) (size : Nat)
  | alreadyMember (node : NodeId)
  | nodeRemoved (node : NodeId)
  | notAMember (node : NodeId)
  | emptyPool (requested : Capabilities)
  | capabilityMissing (requested : Capabilities)
  /-- The hub found a node for a request. -/
  | requestServed (node : NodeId) (requested : Capabilities)
  /-- No candidate granted a session. -/
  | requestMissed (requested : Capabilities) (candidates : Nat)
  | tornDown (count : Nat)
  | simulationStarted (nodes clients requests : Nat) (policy : String) (requested : Capabilities)
  | requestRejected (client request : Nat) (error : String)
  /-- A client stops asking for the session of a request. -/
  | gaveUp (client request attempt : Nat)

namespace Event

def level : Event → Level
  | sessionGranted .. | sessionReleased .. | requestServed .. | requestMissed .. | gaveUp .. => .debug
  | nodeAdded .. | nodeRemoved .. | tornDown .. | simulationStarted .. => .info
  | alreadyMember .. | notAMember .. | emptyPool .. | capabilityMissing .. | requestRejected .. =>
    .warn

def message : Event → String
  | sessionGranted .. => "session granted"
  | sessionReleased .. => "session released"
  | nodeAdded .. => "node added to registry"
  | alreadyMember .. => "node already registered, ignoring add"
  | nodeRemoved .. => "node removed from registry"
  | notAMember .. => "remove called for unregistered node"
  | emptyPool .. => "empty pool of nodes"
  | capabilityMissing .. => "grid doesn't contain requested capabilities at the moment"
  | requestServed .. => "session granted"
  | requestMissed .. => "no node could grant a session"
  | tornDown .. => "registry torn down"
  | simulationStarted .. => "starting simulation"
  | requestRejected .. => "request rejected"
  | gaveUp .. => "giving up after repeated misses"

def fields : Event → List (String × String)
  | sessionGranted node session => [("node_id", node.text), ("session", session)]
  | sessionReleased node session => [("node_id", node.text), ("session", session)]
  | nodeAdded node size => [("node_id", node.text), ("size", toString size)]
  | alreadyMember node => [("node_id", node.text)]
  | nodeRemoved node => [("node_id", node.text)]
  | notAMember node => [("node_id", node.text)]
  | emptyPool requested => [("requested", requested.text)]
  | capabilityMissing requested => [("requested", requested.text)]
  | requestServed node requested => [("node_id", node.text), ("requested", requested.text)]
  | requestMissed requested candidates =>
    [("requested", requested.text), ("candidates", toString candidates)]
  | tornDown count => [("count", toString count)]
  | simulationStarted nodes clients requests policy requested =>
    [("nodes", toString nodes), ("clients", toString clients), ("requests", toString requests),
     ("policy", policy), ("requested", requested.text)]
  | requestRejected client request error =>
    [("client", toString client), ("request", toString request), ("error", error)]
  | gaveUp client request attempt =>
    [("client", toString client), ("request", toString request), ("attempt", toString attempt)]

/-- Level, message and fields, each after a blank. -/
def line (e : Event) : String :=
  e.fields.foldl (fun s (name, value) => s ++ " " ++ name ++ "=" ++ value)
    (e.level.name ++ " " ++ e.message)

end Event

end SessionGrid
