import SessionGrid.Hub.Basic

/-!
# Going through the members

A roll call goes through the node objects that were members when it was begun, one at a time, and tells
how many are still to come. Its list is a copy of its own: it does not see what happens to the hub in
the meantime.
-/

namespace SessionGrid

/-- The node objects that are still to come. -/
structure RollCall where
  rest : List Handle
deriving DecidableEq

namespace RollCall

/-- The next node object, none at the end, and the roll call after it. -/
def next (r : RollCall) : Option Handle × RollCall :=
  (r.rest.head?, ⟨r.rest.tail⟩)

/-- How many node objects are to come, at least and at most. -/
def sizeHint (r : RollCall) : Nat × Option Nat :=
  (r.rest.length, some r.rest.length)

/-- How many node objects are to come. -/
def size (r : RollCall) : Nat :=
  r.sizeHint.1

end RollCall

/-- A roll call of the members. A loop over a hub is one as well. -/
def Hub.rollCall {P N : Type} (hub : Hub P N) : RollCall :=
  ⟨hub.snapshot⟩

end SessionGrid
