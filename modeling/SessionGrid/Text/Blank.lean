/-!
# Blank characters

The characters with the Unicode property White_Space, as closed ranges of code points, and trimming
by it. Core's `Char.isWhitespace` knows only some of them.
-/

namespace SessionGrid.Text

/-- The 25 white-space characters as closed ranges, ascending and apart. -/
def blankRanges : List (Nat × Nat) :=
  [(0x09, 0x0D), (0x20, 0x20), (0x85, 0x85), (0xA0, 0xA0), (0x1680, 0x1680), (0x2000, 0x200A),
   (0x2028, 0x2029), (0x202F, 0x202F), (0x205F, 0x205F), (0x3000, 0x3000)]

def isBlank (c : Char) : Bool :=
  blankRanges.any fun r => decide (r.1 ≤ c.toNat) && decide (c.toNat ≤ r.2)

/-- `cs` without the blank characters at its two ends. -/
def strip (cs : List Char) : List Char :=
  ((cs.dropWhile isBlank).reverse.dropWhile isBlank).reverse

/-- Nothing but blank characters; the empty text counts. -/
def isAllBlank (s : String) : Bool :=
  s.toList.all isBlank

end SessionGrid.Text
