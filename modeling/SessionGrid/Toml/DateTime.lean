import SessionGrid.Text.Reader

/-!
# Dates and times

A date, a time of day, or both, then perhaps with an offset from universal time. `DateTime.read?`
takes a token apart, `DateTime.text` writes the one normal form: a `T` between date and time, `Z` for
universal time, no zeros at the end of a fraction.
-/

namespace SessionGrid

structure Date where
  year : Nat
  month : Nat
  day : Nat
deriving DecidableEq

structure Time where
  hour : Nat
  minute : Nat
  /-- Up to 60, for leap seconds. -/
  second : Nat
  nanosecond : Nat
deriving DecidableEq

inductive Offset where
  | universal
  /-- Minutes that the local time is ahead. -/
  | ahead (minutes : Int)
deriving DecidableEq

inductive DateTime where
  | date (date : Date)
  | time (time : Time)
  | moment (date : Date) (time : Time) (offset : Option Offset)
deriving DecidableEq

/-! ## Reading -/

namespace Date

def isLeapYear (year : Nat) : Bool :=
  year % 4 == 0 && (year % 100 != 0 || year % 400 == 0)

def daysOfMonth (year month : Nat) : Nat :=
  if month = 2 then if isLeapYear year then 29 else 28
  else if month = 4 ∨ month = 6 ∨ month = 9 ∨ month = 11 then 30
  else 31

def isValid (d : Date) : Bool :=
  decide (1 ≤ d.month ∧ d.month ≤ 12 ∧ 1 ≤ d.day ∧ d.day ≤ daysOfMonth d.year d.month)

end Date

namespace DateTime

open Text

/-- A number below `100`, always of two digits. -/
def twoDigits : Reader Nat
  | a :: b :: cs => if a.isDigit && b.isDigit then some (decimalNumber [a, b], cs) else none
  | _ => none

/-- `yyyy-mm-dd`, a day of the calendar. -/
def readDate : Reader Date
  | a :: b :: c :: d :: '-' :: cs => do
    if !(a.isDigit && b.isDigit && c.isDigit && d.isDigit) then none
    let (month, cs) ← twoDigits cs
    let (day, cs) ← twoDigits (← Reader.word ['-'] cs)
    let read : Date := ⟨decimalNumber [a, b, c, d], month, day⟩
    if read.isValid then some (read, cs) else none
  | _ => none

/-- The nanoseconds that the digits of a fraction stand for; digits past the ninth are dropped. -/
def nanoseconds (ds : List Char) : Nat :=
  decimalNumber (ds.take 9 ++ List.replicate (9 - ds.length) '0')

/-- A fraction of a second, if there is one. -/
def readFraction : Reader Nat
  | '.' :: cs =>
    match cs.span Char.isDigit with
    | ([], _) => none
    | (ds, cs) => some (nanoseconds ds, cs)
  | cs => some (0, cs)

/-- `hh:mm` -/
def readMinutes : Reader (Nat × Nat) := fun cs => do
  let (hour, cs) ← twoDigits cs
  let (minute, cs) ← twoDigits (← Reader.word [':'] cs)
  if hour ≤ 23 ∧ minute ≤ 59 then some ((hour, minute), cs) else none

/-- `hh:mm:ss` with a fraction or without. -/
def readTime : Reader Time := fun cs => do
  let ((hour, minute), cs) ← readMinutes cs
  let (second, cs) ← twoDigits (← Reader.word [':'] cs)
  let (nanosecond, cs) ← readFraction cs
  if second ≤ 60 then some (⟨hour, minute, second, nanosecond⟩, cs) else none

/-- The offset that ends a token, if there is one. -/
def readOffset? : List Char → Option (Option Offset)
  | [] => some none
  | ['Z'] => some (some .universal)
  | ['z'] => some (some .universal)
  | c :: cs => do
    let sign ← if c = '+' then some (1 : Int) else if c = '-' then some (-1) else none
    let ((hours, minutes), []) ← readMinutes cs | none
    some (some (.ahead (sign * (60 * hours + minutes : Nat))))

/-- What a whole token says. A blank between date and time counts as the `T`. -/
def read? (token : List Char) : Option DateTime :=
  match readDate token with
  | some (d, []) => some (.date d)
  | some (d, c :: cs) =>
    if c = 'T' ∨ c = 't' ∨ c = ' ' then do
      let (t, cs) ← readTime cs
      some (.moment d t (← readOffset? cs))
    else none
  | none =>
    match readTime token with
    | some (t, []) => some (.time t)
    | _ => none

end DateTime

/-! ## Writing -/

/-- The digits of `n` with zeros in front, `width` at least. -/
def paddedDigits (width n : Nat) : List Char :=
  let ds := Text.decimalDigits n
  List.replicate (width - ds.length) '0' ++ ds

def Date.text (d : Date) : List Char :=
  paddedDigits 4 d.year ++ '-' :: (paddedDigits 2 d.month ++ '-' :: paddedDigits 2 d.day)

def Time.text (t : Time) : List Char :=
  paddedDigits 2 t.hour ++ ':' :: (paddedDigits 2 t.minute ++ ':' :: paddedDigits 2 t.second) ++
    if t.nanosecond = 0 then []
    else '.' :: ((paddedDigits 9 t.nanosecond).reverse.dropWhile (· == '0')).reverse

def Offset.text : Offset → List Char
  | universal => ['Z']
  | ahead m =>
    (if m < 0 then '-' else '+') ::
      (paddedDigits 2 (m.natAbs / 60) ++ ':' :: paddedDigits 2 (m.natAbs % 60))

def DateTime.text : DateTime → List Char
  | date d => d.text
  | time t => t.text
  | moment d t o => d.text ++ 'T' :: (t.text ++ (o.map Offset.text).getD [])

end SessionGrid
