import SessionGrid.Hub.Node
import SessionGrid.Hub.Policy

/-!
# The hub

A hub keeps the nodes that registered with it, at most one under an id, answers questions about them
and finds a node for a request. Nodes are objects of their own: `nodes` holds every one that was ever
made, by handle, and only those named in `members` belong to the hub. Members are enumerated in order
of id. Everything a hub does is a function from a hub to a `Reply`: an answer, the hub afterwards and
the events it reports.
-/

namespace SessionGrid

/-- The answer to an operation, the state after it and the events on the way. -/
structure Reply (σ α : Type) where
  answer : α
  state : σ
  log : List Event

/-- Why a hub refuses. -/
inductive HubError where
  | notAMember (id : NodeId)
  | poolEmpty (requested : Capabilities)
  | capabilityNotPresent (requested : Capabilities)

namespace HubError

def message : HubError → String
  | notAMember id => "registry does not contain node " ++ id.text
  | poolEmpty requested => "empty pool of nodes for " ++ requested.text
  | capabilityNotPresent requested => "grid doesn't contain " ++ requested.text ++ " at the moment"

/-- The request that could not be met, if it was one. -/
def requested? : HubError → Option Capabilities
  | notAMember _ => none
  | poolEmpty requested => some requested
  | capabilityNotPresent requested => some requested

end HubError

/-- Nodes under handles, and which of them are members. -/
structure Hub (P N : Type) where
  nodes : List N
  /-- The start of the next session. -/
  clock : Instant
  /-- The handle of each member under its id. -/
  members : Bindings Handle
  /-- A request that can never be served is an error and not only a warning. -/
  strict : Bool
  policy : P

namespace Hub

variable {P N : Type}

/-- A hub without nodes. -/
def empty (strict : Bool) (policy : P) : Hub P N :=
  ⟨[], 0, [], strict, policy⟩

/-! ## Nodes -/

def node? (hub : Hub P N) (h : Handle) : Option N :=
  hub.nodes[h]?

/-- A new node, which is no member yet, and its handle. -/
def create (hub : Hub P N) (n : N) : Handle × Hub P N :=
  (hub.nodes.length, { hub with nodes := hub.nodes ++ [n] })

def setNode (hub : Hub P N) (h : Handle) (n : N) : Hub P N :=
  { hub with nodes := hub.nodes.set h n }

/-! ## Membership -/

def size (hub : Hub P N) : Nat :=
  hub.members.length

def isEmpty (hub : Hub P N) : Bool :=
  hub.members.isEmpty

/-- The member with the given id. -/
def find? (hub : Hub P N) (id : NodeId) : Option Handle :=
  Bindings.find? id.text hub.members

def containsId (hub : Hub P N) (id : NodeId) : Bool :=
  (hub.find? id).isSome

/-- Handles and nodes of all members, in order of id. -/
def memberNodes (hub : Hub P N) : List (Handle × N) :=
  hub.members.filterMap fun (_, h) => (hub.node? h).map (h, ·)

/-- The handles of all members, in order of id. -/
def snapshot (hub : Hub P N) : List Handle :=
  hub.members.map (·.2)

/-- Removes the member with the given id. -/
def removeId (hub : Hub P N) (id : NodeId) : Reply (Hub P N) (Except HubError Handle) :=
  match hub.find? id with
  | some h =>
    ⟨.ok h, { hub with members := Bindings.erase id.text hub.members }, [.nodeRemoved id]⟩
  | none => ⟨.error (.notAMember id), hub, [.notAMember id]⟩

def setStrict (hub : Hub P N) (strict : Bool) : Hub P N :=
  { hub with strict }

section Nodes

variable [Node N]

/-- A node becomes a member, unless there is a member with its id. -/
def add (hub : Hub P N) (h : Handle) : Reply (Hub P N) Bool :=
  match hub.node? h with
  | none => ⟨false, hub, []⟩
  | some n =>
    let id := Node.id n
    if hub.containsId id then ⟨false, hub, [.alreadyMember id]⟩
    else
      let hub := { hub with members := Bindings.insert id.text h hub.members }
      ⟨true, hub, [.nodeAdded id hub.size]⟩

/-! ## Questions -/

/-- Some member advertises the request. -/
def hasCapability (hub : Hub P N) (requested : Capabilities) : Bool :=
  hub.memberNodes.any fun (_, n) => Node.advertises n requested

/-- Whether the request could ever be served. An empty pool and a missing capability are looked for
one after the other: a strict hub answers with the first, any other reports both and carries on. -/
def verify (hub : Hub P N) (requested : Capabilities) : Except HubError Unit × List Event :=
  if hub.strict then
    if hub.isEmpty then (.error (.poolEmpty requested), [])
    else if !hub.hasCapability requested then (.error (.capabilityNotPresent requested), [])
    else (.ok (), [])
  else
    (.ok (),
      (if hub.isEmpty then [.emptyPool requested] else []) ++
      if !hub.hasCapability requested then [.capabilityMissing requested] else [])

/-- Members without a free slot. -/
def busy (hub : Hub P N) : List Handle :=
  (hub.memberNodes.filter fun (_, n) => Node.isFull n).map (·.1)

/-- All members as a policy sees them. -/
def candidates (hub : Hub P N) : List Candidate :=
  hub.memberNodes.map fun (h, n) => ⟨h, Node.id n, .of n⟩

/-! ## Sessions -/

/-- Asks one node for a session. -/
def tryGrant (hub : Hub P N) (h : Handle) (requested : Capabilities) :
    Reply (Hub P N) (Option Session) :=
  match (hub.node? h).bind (Node.grant? hub.clock requested) with
  | some g => ⟨some g.session, { hub.setNode h g.node with clock := hub.clock + 1 }, g.log⟩
  | none => ⟨none, hub, []⟩

/-- Asks the candidates in turn; the first grant wins. -/
def firstGrant (hub : Hub P N) (requested : Capabilities) :
    List Candidate → Reply (Hub P N) (Option Session)
  | [] => ⟨none, hub, []⟩
  | c :: cs =>
    let reply := hub.tryGrant c.handle requested
    match reply.answer with
    | some s => ⟨some s, reply.state, reply.log ++ [.requestServed c.id requested]⟩
    | none => hub.firstGrant requested cs

/-- Gives a session back to a node. -/
def release (hub : Hub P N) (h : Handle) (s : Session) : Reply (Hub P N) Bool :=
  match hub.node? h with
  | some n =>
    match Node.release? s n with
    | some n' => ⟨true, hub.setNode h n', [.sessionReleased (Node.id n) s.id]⟩
    | none => ⟨false, hub, []⟩
  | none => ⟨false, hub, []⟩

/-- Gives a session back to the member with the id of its node, if there is one. -/
def finish (hub : Hub P N) (s : Session) : Reply (Hub P N) (Option Bool) :=
  match hub.find? s.nodeId with
  | some h =>
    let reply := hub.release h s
    ⟨some reply.answer, reply.state, reply.log⟩
  | none => ⟨none, hub, []⟩

/-! ## Shutting down -/

/-- Shuts down one node. -/
def shutDown (hub : Hub P N) (h : Handle) : Hub P N :=
  match hub.node? h with
  | some n => hub.setNode h (Node.shutDown n)
  | none => hub

/-- Shuts down every member once. -/
def teardown (hub : Hub P N) : Reply (Hub P N) Unit :=
  ⟨(), hub.snapshot.foldl shutDown hub, [.tornDown hub.size]⟩

/-! ## Scheduling

The hub hands its members to the policy, which puts them in an order, and asks them in that order. The
members of a hub have no order of their own: it may list them in any (`Listing`), and among members that
the policy holds for equal that order decides. `sorted` and `newSession` list them in order of id. -/

/-- An order in which a hub lists its members. -/
structure Listing where
  order : List Candidate → List Candidate
  perm : ∀ cs, (order cs).Perm cs

/-- The order of ids, in which members are kept. -/
def Listing.byId : Listing :=
  ⟨id, fun cs => .refl cs⟩

variable [SelectionPolicy P]

/-- The members in the order of the policy, which gets them in the given order, and the hub with the
policy for the next call. -/
def sortedIn (hub : Hub P N) (l : Listing) : List Candidate × Hub P N :=
  let (cs, policy) := SelectionPolicy.arrange hub.policy (l.order hub.candidates)
  (cs, { hub with policy })

/-- A session for a request, from the first member that grants one. -/
def newSessionIn (hub : Hub P N) (l : Listing) (requested : Capabilities) :
    Reply (Hub P N) (Option Session) :=
  let (cs, hub) := hub.sortedIn l
  let reply := hub.firstGrant requested cs
  if reply.answer.isSome then reply
  else ⟨none, hub, [.requestMissed requested cs.length]⟩

def sorted (hub : Hub P N) : List Candidate × Hub P N :=
  hub.sortedIn .byId

def newSession (hub : Hub P N) (requested : Capabilities) : Reply (Hub P N) (Option Session) :=
  hub.newSessionIn .byId requested

end Nodes

/-- The hub in one line. -/
def description [SelectionPolicy P] (hub : Hub P N) : String :=
  "ProxyRegistry \x7b members: " ++ toString hub.size ++
    ", strict: " ++ (if hub.strict then "true" else "false") ++
    ", policy: \"" ++ SelectionPolicy.name hub.policy ++ "\" \x7d"

end Hub

end SessionGrid
