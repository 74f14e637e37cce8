import SessionGrid.Binary64

/-!
# How loaded a node is

A node is compared with another by its load first and by the start of its last session second. A
node that never started a session comes before every node that did.
-/

namespace SessionGrid

/-- A point in time, counted from a fixed one. -/
abbrev Instant := Nat

/-- What the least-loaded order looks at. -/
structure LoadKey where
  load : Binary64
  lastStart : Option Instant
deriving DecidableEq

namespace LoadKey

/-- Never comes before every instant. -/
def compareStarts : Option Instant → Option Instant → Ordering
  | none, none => .eq
  | none, some _ => .lt
  | some _, none => .gt
  | some s, some t => Ord.compare s t

def compare (a b : LoadKey) : Ordering :=
  (a.load.compare b.load).then (compareStarts a.lastStart b.lastStart)

/-- Keys are the same when they compare equal. -/
def same (a b : LoadKey) : Bool :=
  (a.compare b).isEq

/-- Any two keys compare. -/
def partialCompare (a b : LoadKey) : Option Ordering :=
  some (a.compare b)

/-- Not more loaded than, with the longer idle node first. -/
def le (a b : LoadKey) : Bool :=
  (a.compare b).isLE

end LoadKey

end SessionGrid
