import SessionGrid.Hub.Basic

/-!
# Clients of a simulation

A client makes its requests one after the other. It lets the hub verify the request, asks for a
session until it has one or has asked too often, holds the session for a while and gives it back.
After the miss number `n` of a request it waits `n` times the backoff. `Client.actIn` is one move of a
client; between two moves any other client can make one. A move that asks for a session is the whole search
for one, in which the hub arranges its members and asks them in turn.
-/

namespace SessionGrid.Simulation

open Hub

/-- What all clients of a simulation do. Durations count the same units as instants. -/
structure Options where
  clients : Nat
  /-- Requests of each client. -/
  requests : Nat
  requested : Capabilities
  /-- How long a session is held. -/
  hold : Nat
  /-- How often a client asks at most for the session of one request; once at least. -/
  maxAttempts : UInt32
  /-- The wait after a first miss. -/
  backoff : Nat

/-- How requests ended. -/
structure Tally where
  granted : Nat := 0
  misses : Nat := 0
  rejected : Nat := 0
deriving DecidableEq

def Tally.add (a b : Tally) : Tally :=
  ⟨a.granted + b.granted, a.misses + b.misses, a.rejected + b.rejected⟩

/-- What a client does next. -/
inductive Stage where
  /-- Has the request of this number verified, if there are that many. -/
  | starting (request : Nat)
  /-- Asks for a session, after some misses. -/
  | asking (request misses : Nat)
  /-- Gives the session back. -/
  | holding (request : Nat) (session : Session)
deriving DecidableEq

structure Client where
  stage : Stage := .starting 0
  /-- When the next move is due. -/
  wake : Instant := 0
  tally : Tally := {}
deriving DecidableEq

namespace Client

/-- All requests have ended. -/
def isDone (o : Options) (c : Client) : Bool :=
  match c.stage with
  | .starting request => decide (o.requests ≤ request)
  | _ => false

/-- What the client with the given index makes of the answer to its request for a session. -/
def answered (o : Options) (index request misses : Nat) (c : Client)
    (reply : Reply (Hub Policy SlotNode) (Option Session)) : Reply (Hub Policy SlotNode) Client :=
  match reply.answer with
  | some session =>
    ⟨{ stage := .holding request session
       wake := c.wake + o.hold
       tally := { c.tally with granted := c.tally.granted + 1 } },
      reply.state, reply.log⟩
  | none =>
    let misses := misses + 1
    if o.maxAttempts.toNat ≤ misses then
      ⟨{ c with
          stage := .starting (request + 1)
          tally := { c.tally with misses := c.tally.misses + 1 } },
        reply.state, reply.log ++ [.gaveUp index request misses]⟩
    else
      ⟨{ c with stage := .asking request misses, wake := c.wake + o.backoff * misses },
        reply.state, reply.log⟩

/-- One move of the client with the given index, on a hub that lists its members in the given order. -/
def actIn (o : Options) (index : Nat) (l : Listing) (hub : Hub Policy SlotNode) (c : Client) :
    Reply (Hub Policy SlotNode) Client :=
  match c.stage with
  | .starting request =>
    if o.requests ≤ request then ⟨c, hub, []⟩
    else
      match hub.verify o.requested with
      | (.ok (), log) => ⟨{ c with stage := .asking request 0 }, hub, log⟩
      | (.error e, log) =>
        ⟨{ c with
            stage := .starting (request + 1)
            tally := { c.tally with rejected := c.tally.rejected + 1 } },
          hub, log ++ [.requestRejected index request e.message]⟩
  | .asking request misses => c.answered o index request misses (hub.newSessionIn l o.requested)
  | .holding request session =>
    let reply := hub.finish session
    ⟨{ c with stage := .starting (request + 1) }, reply.state, reply.log⟩

end Client

end SessionGrid.Simulation
