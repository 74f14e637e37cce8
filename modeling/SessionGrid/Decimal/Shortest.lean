import SessionGrid.Binary64
import SessionGrid.Text.Reader

/-!
# The shortest decimal of a binary64 number

Of the decimals that lie among the reals rounding to a number, `Binary64.shortest` takes one with
the fewest digits, and of those the nearest. The search is exact: the number and the two ends of its
rounding interval are written as naturals over one power of ten, and ever finer decimal grids are
tried, on each of them the two neighbours of the number. The finest grid holds the number itself, so
the search always ends with a decimal of the interval (`Span.search_inside`).
-/

namespace SessionGrid

/-- Which of two decimals of equal length and equal distance is taken. -/
inductive Tie where
  | toEven
  | upward
deriving DecidableEq

/-- A positive number and the ends of its rounding interval, all in units of `10 ^ exponent`. -/
structure Span where
  low : Nat
  value : Nat
  high : Nat
  exponent : Int
  /-- The ends belong to the interval. -/
  closed : Bool

namespace Span

/-- `n` units lie in the interval. -/
def contains (s : Span) (n : Nat) : Bool :=
  if s.closed then decide (s.low ≤ n) && decide (n ≤ s.high)
  else decide (s.low < n) && decide (n < s.high)

/-- The multiple of `grid` in the interval that is a neighbour of the value, if there is one; the
answer counts grid steps. -/
def onGrid? (s : Span) (tie : Tie) (grid : Nat) : Option Nat :=
  let below := s.value / grid
  let above := below + 1
  if s.contains (below * grid) then
    if s.contains (above * grid) then
      match Ord.compare (2 * s.value) ((below + above) * grid), tie with
      | .lt, _ => some below
      | .gt, _ => some above
      | .eq, .upward => some above
      | .eq, .toEven => some (if below % 2 = 0 then below else above)
    else some below
  else if s.contains (above * grid) then some above
  else none

/-- The first hit on the grids `10 ^ n`, ..., `10 ^ 1`, else the value itself: steps and the
exponent of the grid. -/
def search (s : Span) (tie : Tie) : Nat → Nat × Nat
  | 0 => (s.value, 0)
  | n + 1 =>
    match s.onGrid? tie (Nat.pow 10 (n + 1)) with
    | some steps => (steps, n + 1)
    | none => s.search tie n

theorem contains_of_onGrid? {s : Span} {tie : Tie} {grid n : Nat}
    (h : s.onGrid? tie grid = some n) : s.contains (n * grid) = true := by
  simp only [onGrid?] at h
  split at h
  · next hb =>
    split at h
    · next ha =>
      split at h <;> simp only [Option.some.injEq] at h
      · exact h ▸ hb
      · exact h ▸ ha
      · exact h ▸ ha
      · split at h
        · exact h ▸ hb
        · exact h ▸ ha
    · exact Option.some.inj h ▸ hb
  · split at h
    · next ha => exact Option.some.inj h ▸ ha
    · simp at h

/-- What the search finds lies in the interval, if the value does. -/
theorem search_inside {s : Span} (hv : s.contains s.value = true) (tie : Tie) (n : Nat) :
    s.contains ((s.search tie n).1 * Nat.pow 10 (s.search tie n).2) = true := by
  induction n with
  | zero => simpa [search] using hv
  | succ n ih =>
    unfold search
    split
    · next h => exact contains_of_onGrid? h
    · exact ih

end Span

/-- The digits of a positive decimal without trailing zeros, and the power of ten of the first. -/
structure Shortest where
  digits : List Char
  lead : Int

namespace Binary64

/-- The interval of reals that round to the number without its sign, which is finite and not
zero. The gap below a power of two is half the gap above it. -/
def span (x : Binary64) : Span :=
  let e : Nat := x.magnitude / 0x10000000000000
  let f : Nat := x.magnitude % 0x10000000000000
  let m := if e = 0 then f else 0x10000000000000 + f
  let q : Int := (if e = 0 then 1 else (e : Int)) - 1077
  let low := if f = 0 ∧ 1 < e then 4 * m - 1 else 4 * m - 2
  let unit := Nat.pow 2 q.toNat * Nat.pow 5 (-q).toNat
  ⟨low * unit, 4 * m * unit, (4 * m + 2) * unit, min q 0, m % 2 == 0⟩

/-- The shortest decimal of the number without its sign, which is finite and not zero. -/
def shortest (x : Binary64) (tie : Tie) : Shortest :=
  let s := x.span
  let places := (Text.decimalDigits s.value).length
  let (steps, grid) := s.search tie (places - 1)
  let digits := Text.decimalDigits steps
  { digits := (digits.reverse.dropWhile (· == '0')).reverse
    lead := (digits.length : Int) - 1 + grid + s.exponent }

end Binary64

end SessionGrid
