/-!
# Readers over lists of characters

A reader takes the characters still to be read and answers with what it read and the rest, or not at
all. Here are the words and the digits that the readers of all formats share.
-/

namespace SessionGrid.Text

/-- What was read and the characters after it. -/
abbrev Reader (α : Type) := List Char → Option (α × List Char)

namespace Reader

/-- The rest after `word`, which must come first. -/
def word : List Char → List Char → Option (List Char)
  | [], cs => some cs
  | w :: ws, c :: cs => if w = c then word ws cs else none
  | _ :: _, [] => none

end Reader

/-- The value of a hexadecimal digit, either case. -/
def hexValue? (c : Char) : Option Nat :=
  if '0' ≤ c ∧ c ≤ '9' then some (c.toNat - 48)
  else if 'a' ≤ c ∧ c ≤ 'f' then some (c.toNat - 87)
  else if 'A' ≤ c ∧ c ≤ 'F' then some (c.toNat - 55)
  else none

/-- The number that hexadecimal digits stand for, the first digit weighing most. -/
def hexNumber? (cs : List Char) : Option Nat :=
  cs.foldlM (fun n c => (hexValue? c).map (16 * n + ·)) 0

/-- The number that decimal digits stand for; the caller has checked that they are digits. -/
def decimalNumber (cs : List Char) : Nat :=
  Nat.ofDigitChars 10 cs 0

/-- The decimal digits of `n`. -/
def decimalDigits (n : Nat) : List Char :=
  Nat.toDigits 10 n

end SessionGrid.Text
