import SessionGrid.Json.Value
import SessionGrid.Text.Reader

/-!
# JSON number literals

A literal without point and exponent is an integer if it fits 64 bits, with the sign if it has one;
`-0` does not count as an integer. Every other literal is a binary64 number. Its significand is made
of the leading digits, as long as they fit 64 bits: of the digits after them those before the point
count as powers of ten and those behind it are dropped. The significand is then scaled by its power
of ten with one rounding a step (`scale?`), so a long literal can differ in the last bit from the
nearest binary64 number. A literal too large for the format has no value.
-/

namespace SessionGrid.Json

/-- The parts of a number literal as written. -/
structure Literal where
  negative : Bool
  whole : List Char
  /-- The digits behind a point, if there is one. -/
  fraction : Option (List Char)
  /-- The sign and the digits of an exponent, if there is one. -/
  exponent : Option (Bool × List Char)

namespace Literal

/-- One digit or more, and the rest. -/
def digits : Text.Reader (List Char) := fun cs =>
  match cs.span Char.isDigit with
  | ([], _) => none
  | (ds, rest) => some (ds, rest)

/-- The digits before the point: no leading zero but zero itself. -/
def wholePart : Text.Reader (List Char) := fun cs =>
  match digits cs with
  | some ('0' :: _ :: _, _) => none
  | other => other

def fractionPart : Text.Reader (Option (List Char))
  | '.' :: cs => (digits cs).map fun (ds, rest) => (some ds, rest)
  | cs => some (none, cs)

def exponentDigits (negative : Bool) (cs : List Char) :
    Option (Option (Bool × List Char) × List Char) :=
  (digits cs).map fun (ds, rest) => (some (negative, ds), rest)

def exponentPart : Text.Reader (Option (Bool × List Char))
  | c :: cs =>
    if c = 'e' ∨ c = 'E' then
      match cs with
      | '+' :: cs => exponentDigits false cs
      | '-' :: cs => exponentDigits true cs
      | cs => exponentDigits false cs
    else some (none, c :: cs)
  | [] => some (none, [])

/-- The literal at the front, as long as it goes. -/
def read : Text.Reader Literal := fun cs => do
  let (negative, cs) := match cs with
    | '-' :: cs => (true, cs)
    | cs => (false, cs)
  let (whole, cs) ← wholePart cs
  let (fraction, cs) ← fractionPart cs
  let (exponent, cs) ← exponentPart cs
  some (⟨negative, whole, fraction, exponent⟩, cs)

/-- Appends digits to a significand while it stays below `2 ^ 64`; the digits left over. -/
def absorb (n : Nat) : List Char → Nat × List Char
  | [] => (n, [])
  | c :: cs =>
    let n' := 10 * n + (c.toNat - 48)
    if n' < 0x10000000000000000 then absorb n' cs else (n, c :: cs)

/-- The power of ten `10 ^ e` with `e ≤ 308`. -/
def powerOfTen (e : Nat) : Float :=
  Float.ofScientific 1 false e

/-- `x * 10 ^ e` by at most `steps` divisions by `10 ^ 308` and a last multiplication or division;
nothing where the product overflows. -/
def scaleFrom : Nat → Float → Int → Option Float
  | 0, x, _ => some x
  | steps + 1, x, e =>
    if e.natAbs ≤ 308 then
      if 0 ≤ e then
        let y := x * powerOfTen e.natAbs
        if y.isInf then none else some y
      else some (x / powerOfTen e.natAbs)
    else if x == 0 then some x
    else if 0 ≤ e then none
    else scaleFrom steps (x / powerOfTen 308) (e + 308)

/-- A significand below `2 ^ 64` times a power of ten. -/
def scale? (significand : Nat) (e : Int) : Option Float :=
  scaleFrom (e.natAbs / 308 + 1) significand.toUInt64.toFloat e

/-- The binary64 number of the literal, unless it is too large. -/
def float? (l : Literal) : Option Binary64 :=
  let (significand, skipped) := absorb 0 l.whole
  let fraction := l.fraction.getD []
  let (significand, unread) := absorb significand fraction
  let shift : Int := (skipped.length : Int) - ((fraction.length : Int) - unread.length)
  let exponent : Int := match l.exponent with
    | none => 0
    | some (true, ds) => -(Text.decimalNumber ds : Int)
    | some (false, ds) => Text.decimalNumber ds
  (scale? significand (shift + exponent)).map fun x => .ofFloat (if l.negative then -x else x)

/-- The integer of a literal without point and exponent, if it fits 64 bits and is not `-0`. -/
def integer? (l : Literal) : Option JsonInt :=
  if l.fraction.isNone ∧ l.exponent.isNone then
    let n : Nat := Text.decimalNumber l.whole
    if l.negative then
      if h : 0 < n ∧ n ≤ 0x8000000000000000 then some ⟨-(n : Int), by omega⟩ else none
    else if h : n < 0x10000000000000000 then some ⟨n, by omega⟩ else none
  else none

def value? (l : Literal) : Option JsonNumber :=
  match l.integer? with
  | some n => some (.integer n)
  | none => l.float?.map .float

end Literal

end SessionGrid.Json
