import SessionGrid.Hub.LoadKey
import SessionGrid.Hub.NodeId

/-!
# Selection policies

A policy puts the candidates for a session in the order in which they are asked. `leastLoaded` sorts
by load and keeps candidates of equal key in their order. `roundRobin` ignores the load: it sorts by
id and starts one candidate further at every call, counting calls in a 64-bit word that wraps. Other
policies can be used through `SelectionPolicy`.
-/

namespace SessionGrid

/-- Names a node object of a hub for good, whether or not it is a member. -/
abbrev Handle := Nat

/-- A node as a policy sees it: what it is compared by, sampled once. -/
structure Candidate where
  handle : Handle
  id : NodeId
  key : LoadKey
deriving DecidableEq

/-- A rule for the order of candidates, which may carry state from call to call. -/
class SelectionPolicy (P : Type) where
  name : P → String
  /-- The candidates, best first, and the policy for the next call. -/
  arrange : P → List Candidate → List Candidate × P

inductive Policy where
  | leastLoaded
  /-- Starts at `next`, counted modulo the number of candidates. -/
  | roundRobin (next : UInt64)
deriving DecidableEq

namespace Policy

def name : Policy → String
  | leastLoaded => "least-loaded"
  | roundRobin _ => "round-robin"

/-- Candidates by load, those of equal key in their given order. -/
def byLoad (cs : List Candidate) : List Candidate :=
  cs.mergeSort fun a b => a.key.le b.key

/-- Candidates by id. -/
def byId (cs : List Candidate) : List Candidate :=
  cs.mergeSort fun a b => (a.id.compare b.id).isLE

/-- `l` with its first `n` elements moved to the end. -/
def rotate {α : Type} (n : Nat) (l : List α) : List α :=
  l.drop n ++ l.take n

def arrange : Policy → List Candidate → List Candidate × Policy
  | leastLoaded, cs => (byLoad cs, leastLoaded)
  | roundRobin next, [] => ([], roundRobin next)
  | roundRobin next, c :: cs =>
    (rotate (next.toNat % (cs.length + 1)) (byId (c :: cs)), roundRobin (next + 1))

instance : SelectionPolicy Policy where
  name := name
  arrange := arrange

end Policy

end SessionGrid
