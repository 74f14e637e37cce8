import Mathlib
import SessionGrid.Json.Printer
import SessionGrid.Json.Reader

/-!
# Quoted text is read back

Every character is written as itself, by a letter or by its number behind a backslash, and in each form
it is read back (`stringTail_escape`). So is a text between its quotes, whatever follows
(`readString_quoted`).
-/

namespace SessionGrid.Json

open Text

/-- The four hexadecimal digits of a control character stand for it. -/
theorem hexNumber?_hexDigits {n : Nat} (small : n < 0x20) :
    hexNumber? ['0', '0', hexDigit (n / 16), hexDigit (n % 16)] = some n := by
  have all : ∀ n < 0x20, hexNumber? ['0', '0', hexDigit (n / 16), hexDigit (n % 16)] = some n := by
    decide
  exact all n small

/-- A letter behind a backslash stands for its character. -/
theorem stringTail_letter {c e : Char} (means : unescape e = some c) (cs : List Char) :
    stringTail none ('\\' :: e :: cs) = (stringTail none cs).map fun (s, rest) => (c :: s, rest) := by
  have noNumber : e ≠ 'u' := by
    rintro rfl
    cases means
  rw [stringTail.eq_def]
  split
  · next same => cases same
  · next same =>
    cases same
    exact absurd rfl noNumber
  · next same =>
    cases same
    simp only [Option.isSome_none, Bool.false_eq_true, if_false, if_true, means]
    rw [if_neg (by decide)]
    cases stringTail none cs <;> rfl

/-- A number behind a backslash and an `u` stands for its character. -/
theorem stringTail_number {c : Char} (small : c.toNat < 0x20) (cs : List Char) :
    stringTail none
        ('\\' :: 'u' :: '0' :: '0' :: hexDigit (c.toNat / 16) :: hexDigit (c.toNat % 16) :: cs) =
      (stringTail none cs).map fun (s, rest) => (c :: s, rest) := by
  have low : ¬ (0xD800 ≤ c.toNat ∧ c.toNat < 0xDC00) := by omega
  have high : ¬ (0xDC00 ≤ c.toNat ∧ c.toNat < 0xE000) := by omega
  rw [stringTail.eq_def]
  simp only [hexNumber?_hexDigits small, if_neg low, if_neg high, Char.ofNat_toNat]

theorem stringTail_itself {c : Char} (quote : c ≠ '"') (backslash : c ≠ '\\')
    (printable : ¬ c.toNat < 0x20) (cs : List Char) :
    stringTail none (c :: cs) = (stringTail none cs).map fun (s, rest) => (c :: s, rest) := by
  rw [stringTail.eq_def]
  split
  · next same => cases same
  · next same =>
    cases same
    exact absurd rfl backslash
  · next same =>
    cases same
    simp only [Option.isSome_none, Bool.false_eq_true, if_false, if_neg quote, if_neg backslash,
      if_neg printable]

theorem stringTail_quote (rest : List Char) : stringTail none ('"' :: rest) = some ([], rest) := by
  rw [stringTail.eq_def]
  rfl

/-- **Escapes.** A character is read back from the form it is written in. -/
theorem stringTail_escape (c : Char) (cs : List Char) :
    stringTail none (escape c ++ cs) = (stringTail none cs).map fun (s, rest) => (c :: s, rest) := by
  unfold escape
  split_ifs with quote backslash b t n f r control
  · exact stringTail_letter (by simp [unescape, quote]) cs
  · exact stringTail_letter (by simp [unescape, backslash]) cs
  · exact stringTail_letter (by simp [unescape, b]) cs
  · exact stringTail_letter (by simp [unescape, t]) cs
  · exact stringTail_letter (by simp [unescape, n]) cs
  · exact stringTail_letter (by simp [unescape, f]) cs
  · exact stringTail_letter (by simp [unescape, r]) cs
  · exact stringTail_number control cs
  · exact stringTail_itself quote backslash control cs

theorem stringTail_flatMap_escape (s rest : List Char) :
    stringTail none (s.flatMap escape ++ '"' :: rest) = some (s, rest) := by
  induction s with
  | nil => exact stringTail_quote rest
  | cons c s ih => rw [List.flatMap_cons, List.append_assoc, stringTail_escape, ih]; rfl

/-- **Strings.** A text is read back from between its quotes. -/
theorem readString_quoted (s : String) (rest : List Char) :
    readString (quoted s ++ rest) = some (s, rest) := by
  have text : quoted s ++ rest = '"' :: (s.toList.flatMap escape ++ '"' :: rest) := by
    simp [quoted]
  rw [text, readString, stringTail_flatMap_escape]
  exact congrArg some (Prod.ext String.ofList_toList rfl)

end SessionGrid.Json
