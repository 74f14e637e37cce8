import SessionGrid.Config.Basic
import SessionGrid.Simulation.Client

/-!
# Running a simulation

The state of a simulation is a hub and its clients. `Simulation.stepIn` lets one client make a move, and
`Simulation.step` is the same move with the members in order of id. `Simulation.run` is the run on a virtual
clock: the client that is due first moves first, of several the one with the least index. A client never
moves more often than `Options.work` says, which bounds the run.
-/

namespace SessionGrid

open Hub Simulation

structure Simulation where
  hub : Hub Policy SlotNode
  clients : List Client
  /-- What has been reported, the last event first. -/
  log : List Event

namespace Simulation

/-- The hub of a configuration with all its nodes as members. -/
def grid (c : Config) : Reply (Hub Policy SlotNode) Unit :=
  c.nodes.foldl
    (fun r n =>
      let (h, hub) := r.state.create n.node
      let reply := hub.add h
      ⟨(), reply.state, r.log ++ reply.log⟩)
    ⟨(), c.hub, []⟩

/-- The state before the first move. -/
def start (c : Config) (o : Options) : Simulation :=
  let reply := grid c
  { hub := reply.state
    clients := List.replicate o.clients {}
    log := .simulationStarted c.nodes.length o.clients o.requests c.policy.label o.requested ::
      reply.log.reverse }

/-- A move of the client with the given index, with the members listed in the given order. -/
def stepIn (o : Options) (m : Listing × Nat) (s : Simulation) : Simulation :=
  match s.clients[m.2]? with
  | none => s
  | some c =>
    let reply := c.actIn o m.2 m.1 s.hub
    { hub := reply.state
      clients := s.clients.set m.2 reply.answer
      log := reply.log.reverse ++ s.log }

def step (o : Options) (i : Nat) (s : Simulation) : Simulation :=
  s.stepIn o (.byId, i)

/-- Of the clients from index `i` on, the index of the one that is due first, and when it is. -/
def earliest (o : Options) (i : Nat) : List Client → Option (Instant × Nat)
  | [] => none
  | c :: cs =>
    let later := earliest o (i + 1) cs
    if c.isDone o then later
    else
      match later with
      | some (wake, j) => if c.wake ≤ wake then some (c.wake, i) else some (wake, j)
      | none => some (c.wake, i)

/-- At most `moves` moves, each of the client that is due first. -/
def run (o : Options) : Nat → Simulation → Simulation
  | 0, s => s
  | moves + 1, s =>
    match earliest o 0 s.clients with
    | some (_, i) => run o moves (s.step o i)
    | none => s

/-- More moves than all clients together can make: for each request one to verify, one for each
attempt and one to give the session back. -/
def Options.work (o : Options) : Nat :=
  o.clients * (o.requests * (max 1 o.maxAttempts.toNat + 2))

/-! ## Reports -/

structure NodeReport where
  id : NodeId
  maxSessions : UInt32
  granted : Nat
  isShutDown : Bool

/-- What a simulation comes to. -/
structure Report where
  policy : String
  strict : Bool
  requested : Capabilities
  tally : Tally
  nodes : List NodeReport

def NodeReport.of (n : SlotNode) : NodeReport :=
  ⟨n.id, n.maxSessions, n.granted, n.isShutDown⟩

/-- The sum of the tallies of all clients. -/
def total (s : Simulation) : Tally :=
  s.clients.foldl (fun t c => t.add c.tally) {}

/-- Shuts all members down and reports on the nodes in the order in which they were made. -/
def close (o : Options) (s : Simulation) : Report × List Event :=
  let reply := s.hub.teardown
  ({ policy := reply.state.policy.name
     strict := reply.state.strict
     requested := o.requested
     tally := s.total
     nodes := reply.state.nodes.map .of },
    s.log.reverse ++ reply.log)

end Simulation

/-- Simulates clients on the grid of a configuration: the report and all events. -/
def simulate (c : Config) (o : Simulation.Options) : Simulation.Report × List Event :=
  ((Simulation.start c o).run o o.work).close o

end SessionGrid
