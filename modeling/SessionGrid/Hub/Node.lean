import SessionGrid.Hub.Event
import SessionGrid.Hub.LoadKey

/-!
# Worker nodes

`Node` is what a hub asks of a node. `SlotNode` is a node with a fixed number of session slots, held
in memory: it grants a session if it was not shut down, advertises what is requested and has a slot
left. A session names its node and has an id made of the node's id and a running number; a slot is
given back by a session's node id alone.
-/

namespace SessionGrid

/-- A session granted by a node. -/
structure Session where
  id : String
  nodeId : NodeId
deriving DecidableEq

/-- What comes of a granted request. -/
structure Grant (N : Type) where
  session : Session
  node : N
  log : List Event

/-- What a hub asks of a worker node. -/
class Node (N : Type) where
  id : N → NodeId
  /-- Something the node offers meets the request, however busy the node is. -/
  advertises : N → Capabilities → Bool
  isFull : N → Bool
  /-- Per cent of the node in use. -/
  load : N → Binary64
  lastStart : N → Option Instant
  /-- A session that starts at the given instant, unless the node cannot serve the request now. -/
  grant? : Instant → Capabilities → N → Option (Grant N)
  /-- The node with the slot of a session given back, unless it refuses the session. -/
  release? : Session → N → Option N
  shutDown : N → N

/-- What a node is compared by. -/
def LoadKey.of {N : Type} [Node N] (n : N) : LoadKey :=
  ⟨Node.load n, Node.lastStart n⟩

/-- How two nodes compare by load, with the longer idle one first. -/
def Node.loadOrder {N : Type} [Node N] (a b : N) : Ordering :=
  (LoadKey.of a).compare (.of b)

/-- A node with `maxSessions` slots. -/
structure SlotNode where
  id : NodeId
  maxSessions : UInt32
  offers : List Capabilities
  /-- Slots in use. -/
  active : UInt32 := 0
  lastStart : Option Instant := none
  /-- The number of the next session. -/
  nextSession : Nat := 0
  /-- Sessions granted so far. -/
  granted : Nat := 0
  /-- How often the node was shut down. -/
  shutDowns : Nat := 0

namespace SlotNode

def isShutDown (n : SlotNode) : Bool :=
  decide (0 < n.shutDowns)

def advertises (n : SlotNode) (requested : Capabilities) : Bool :=
  n.offers.any requested.satisfiedBy

def isFull (n : SlotNode) : Bool :=
  decide (n.maxSessions ≤ n.active)

/-- The slots in use in per cent. A node without slots is fully loaded. -/
def load (n : SlotNode) : Binary64 :=
  .ofFloat (if n.maxSessions = 0 then 100 else n.active.toFloat / n.maxSessions.toFloat * 100)

/-- The id of a node's session number `n`. -/
def sessionId (id : NodeId) (n : Nat) : String :=
  id.text ++ "#" ++ toString n

def grant? (now : Instant) (requested : Capabilities) (n : SlotNode) : Option (Grant SlotNode) :=
  if n.isShutDown || !n.advertises requested || n.isFull then none
  else
    let session : Session := ⟨sessionId n.id n.nextSession, n.id⟩
    some
      { session
        node :=
          { n with
            active := n.active + 1
            lastStart := some now
            nextSession := n.nextSession + 1
            granted := n.granted + 1 }
        log := [.sessionGranted n.id session.id] }

/-- The node with one slot given back. A session of another node is refused, and so is every session
while no slot is in use. -/
def release? (s : Session) (n : SlotNode) : Option SlotNode :=
  if s.nodeId = n.id ∧ n.active ≠ 0 then some { n with active := n.active - 1 } else none

def shutDown (n : SlotNode) : SlotNode :=
  { n with shutDowns := n.shutDowns + 1 }

instance : Node SlotNode where
  id := id
  advertises := advertises
  isFull := isFull
  load := load
  lastStart := lastStart
  grant? := grant?
  release? := release?
  shutDown := shutDown

end SlotNode

end SessionGrid
