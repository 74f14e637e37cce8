/-!
# Binary64 numbers as bit patterns

A number in the 64-bit binary format, held as its bits, so that two of them are equal exactly when
they have the same bits. `Binary64.compare` is the total order of the format: the negative patterns
below the positive ones, NaNs at the two ends; `Binary64.same` is equality of the numbers, under
which the two zeros agree.
-/

namespace SessionGrid

/-- A 64-bit pattern: sign, eleven bits of exponent, fifty-two bits of fraction. -/
structure Binary64 where
  bits : UInt64
deriving DecidableEq, Inhabited

namespace Binary64

def ofFloat (x : Float) : Binary64 :=
  ⟨x.toBits⟩

def toFloat (x : Binary64) : Float :=
  Float.ofBits x.bits

/-- The sign bit is set. -/
def isNegative (x : Binary64) : Bool :=
  decide (0x8000000000000000 ≤ x.bits.toNat)

/-- The pattern without its sign bit. -/
def magnitude (x : Binary64) : Nat :=
  x.bits.toNat % 0x8000000000000000

def isZero (x : Binary64) : Bool :=
  x.magnitude == 0

def isNaN (x : Binary64) : Bool :=
  decide (0x7FF0000000000000 < x.magnitude)

def isFinite (x : Binary64) : Bool :=
  decide (x.magnitude < 0x7FF0000000000000)

def neg (x : Binary64) : Binary64 :=
  ⟨x.bits ^^^ 0x8000000000000000⟩

/-- The place of a pattern in the total order. -/
def rank (x : Binary64) : Int :=
  if x.isNegative then -1 - (x.magnitude : Int) else x.magnitude

/-- The total order of all patterns. -/
def compare (x y : Binary64) : Ordering :=
  Ord.compare x.rank y.rank

/-- The same number: equal patterns that are no NaN, or two zeros. -/
def same (x y : Binary64) : Bool :=
  !x.isNaN && (x == y || (x.isZero && y.isZero))

end Binary64

end SessionGrid
