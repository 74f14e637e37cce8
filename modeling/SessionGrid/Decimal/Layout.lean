import SessionGrid.Decimal.Shortest

/-!
# How a shortest decimal is laid out

A number is written positionally or with an exponent. Which of the two, and how ties between equally
short decimals go, are the decisions of a format: one `FloatStyle` value for each. An integral number
written positionally ends in `.0`; an exponent always has its sign.
-/

namespace SessionGrid

/-- The decisions of a format about the text of a binary64 number. -/
structure FloatStyle where
  /-- The powers of ten of the first digit that are written positionally. -/
  isPlain : Int → Bool
  tie : Tie

namespace Shortest

/-- All digits in their places, with a point. -/
def positional (d : Shortest) : List Char :=
  if d.lead < 0 then
    '0' :: '.' :: (List.replicate (-d.lead - 1).toNat '0' ++ d.digits)
  else
    let whole := d.lead.toNat + 1
    if d.digits.length ≤ whole then
      d.digits ++ List.replicate (whole - d.digits.length) '0' ++ ['.', '0']
    else d.digits.take whole ++ '.' :: d.digits.drop whole

/-- One digit before the point and a power of ten behind. -/
def scientific (d : Shortest) : List Char :=
  let mantissa := match d.digits with
    | c :: c' :: r => c :: '.' :: c' :: r
    | ds => ds
  mantissa ++ 'e' :: (if d.lead < 0 then '-' else '+') :: Text.decimalDigits d.lead.natAbs

end Shortest

/-- The text of a finite number. -/
def FloatStyle.write (style : FloatStyle) (x : Binary64) : List Char :=
  (if x.isNegative then ['-'] else []) ++
    if x.isZero then ['0', '.', '0']
    else
      let d := x.shortest style.tie
      if style.isPlain d.lead then d.positional else d.scientific

end SessionGrid
