import SessionGrid.Text.Blank

/-!
# Names of worker nodes

A node is known by its id, usually the address at which it registered. Ids are compared as texts, by
code point.
-/

namespace SessionGrid

structure NodeId where
  text : String
deriving DecidableEq, Inhabited

namespace NodeId

/-- Blank ids name no node. -/
def isBlank (id : NodeId) : Bool :=
  Text.isAllBlank id.text

def compare (a b : NodeId) : Ordering :=
  Ord.compare a.text b.text

end NodeId

end SessionGrid
