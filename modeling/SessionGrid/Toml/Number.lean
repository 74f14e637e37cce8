import SessionGrid.Toml.Value

/-!
# TOML numbers

Tokens that stand for integers and for binary64 numbers. Single underscores may stand between two
digits. A decimal literal stands for the nearest binary64 number. One above the range of the format
stands for none, one below it for minus infinity.
-/

namespace SessionGrid.Toml

open Text

def infinity : Binary64 := ⟨0x7FF0000000000000⟩

def notANumber : Binary64 := ⟨0x7FF8000000000000⟩

/-- The digits of a group of them, with single underscores between digits left out. -/
def ungroup (isDigit : Char → Bool) : List Char → Option (List Char)
  | [] => none
  | [c] => if isDigit c then some [c] else none
  | c :: '_' :: cs => if isDigit c then (ungroup isDigit cs).map (c :: ·) else none
  | c :: d :: cs => if isDigit c then (ungroup isDigit (d :: cs)).map (c :: ·) else none

/-- The digits of a whole number: no zero in front but zero itself. -/
def wholeDigits (cs : List Char) : Option (List Char) :=
  match ungroup Char.isDigit cs with
  | some ('0' :: _ :: _) => none
  | other => other

/-- Whether a token starts with `-`, and the token without its sign. -/
def splitSign : List Char → Bool × List Char
  | '-' :: cs => (true, cs)
  | '+' :: cs => (false, cs)
  | cs => (false, cs)

/-- `n` as an integer of the format. -/
def ofInt? (n : Int) : Option TomlInt :=
  if h : -0x8000000000000000 ≤ n ∧ n < 0x8000000000000000 then some ⟨n, h⟩ else none

def isOctalDigit (c : Char) : Bool := decide ('0' ≤ c ∧ c ≤ '7')

def isBinaryDigit (c : Char) : Bool := c == '0' || c == '1'

/-- The integer that a token stands for: decimal with a sign or without, or without a sign in base
16, 8 or 2. -/
def integer? : List Char → Option TomlInt
  | '0' :: 'x' :: cs => do
    let ds ← ungroup (fun c => (hexValue? c).isSome) cs
    ofInt? (← hexNumber? ds)
  | '0' :: 'o' :: cs => do ofInt? (Nat.ofDigitChars 8 (← ungroup isOctalDigit cs) 0)
  | '0' :: 'b' :: cs => do ofInt? (Nat.ofDigitChars 2 (← ungroup isBinaryDigit cs) 0)
  | cs => do
    let (negative, cs) := splitSign cs
    let n := decimalNumber (← wholeDigits cs)
    ofInt? (if negative then -(n : Int) else n)

/-- The binary64 number nearest to the whole number `digits` times `10 ^ exponent`, infinity past the
range of the format. Far outside the range nothing is computed. -/
def nearest (digits : List Char) (exponent : Int) : Binary64 :=
  let n := decimalNumber digits
  let lead := (digits.length : Int) + exponent
  if n = 0 ∨ lead < -400 then ⟨0⟩
  else if 400 < lead ∧ 400 < exponent then infinity
  else if 0 ≤ exponent then .ofFloat (Float.ofScientific n false exponent.natAbs)
  else .ofFloat (Float.ofScientific n true exponent.natAbs)

/-- The digits behind the point of a token, if it goes on with a point, and the rest. -/
def fraction? : List Char → Option (Option (List Char) × List Char)
  | '.' :: cs =>
    let (group, cs) := cs.span fun c => c.isDigit || c == '_'
    (ungroup Char.isDigit group).map fun ds => (some ds, cs)
  | cs => some (none, cs)

/-- The exponent that ends a token, if there is one. -/
def exponent? : List Char → Option (Option Int)
  | [] => some none
  | c :: cs =>
    if c = 'e' ∨ c = 'E' then do
      let (negative, cs) := splitSign cs
      let n := decimalNumber (← ungroup Char.isDigit cs)
      some (some (if negative then -(n : Int) else n))
    else none

/-- The binary64 number that an unsigned literal of digits stands for, infinity past the range of the
format. A literal without point and exponent is none. -/
def decimal? (cs : List Char) : Option Binary64 := do
  let (group, cs) := cs.span fun c => c.isDigit || c == '_'
  let whole ← wholeDigits group
  let (fraction, cs) ← fraction? cs
  let exponent ← exponent? cs
  if fraction.isNone ∧ exponent.isNone then none
  let fraction := fraction.getD []
  some (nearest (whole ++ fraction) (exponent.getD 0 - fraction.length))

/-- The binary64 number that a token stands for. -/
def float? (cs : List Char) : Option Binary64 :=
  let (negative, cs) := splitSign cs
  let signed (x : Binary64) := if negative then x.neg else x
  if cs = ['i', 'n', 'f'] then some (signed infinity)
  else if cs = ['n', 'a', 'n'] then some (signed notANumber)
  else do
    let x ← decimal? cs
    if !negative && !x.isFinite then none else some (signed x)

end SessionGrid.Toml
