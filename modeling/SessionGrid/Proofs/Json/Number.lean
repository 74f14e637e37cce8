import SessionGrid.Json.Printer
import SessionGrid.Json.Reader
import SessionGrid.Proofs.Decimal.Digits
import SessionGrid.Proofs.Text.Blank

/-!
# Numbers are read back

A literal is taken off the front of a text, and what is appended behind it does not matter as long as
no number could go on with it (`Literal.read_append`). An integer is written as a literal with its value.
What float a literal stands for is decided by rounding, so that it is asked of a float that it be read
back from its own text (`FloatExact`); then it is written as a literal with its value as well
(`exists_literal`).
-/

namespace SessionGrid.Json

open Text

namespace Literal

/-- No number goes on with what is left. -/
def Ends (rest : List Char) : Prop :=
  ∀ c ∈ rest.head?, c.isDigit = false ∧ c ≠ '.' ∧ c ≠ 'e' ∧ c ≠ 'E'

section Parts

variable {cs rest r : List Char}

/-- Digits end where nothing that belongs to a number follows. -/
theorem digits_append {ds : List Char} (read : digits cs = some (ds, r)) (ends : Ends rest) :
    digits (cs ++ rest) = some (ds, r ++ rest) := by
  have noDigit : ∀ c ∈ rest.head?, c.isDigit = false := fun c mem => (ends c mem).1
  unfold digits at read ⊢
  cases run : cs.span Char.isDigit with
  | mk ds' r' =>
    rw [run] at read
    rw [span_append_of_span run noDigit]
    cases ds' with
    | nil => cases read
    | cons d ds' =>
      cases read
      rfl

theorem wholePart_append {ds : List Char} (read : wholePart cs = some (ds, r)) (ends : Ends rest) :
    wholePart (cs ++ rest) = some (ds, r ++ rest) := by
  unfold wholePart at read ⊢
  split at read
  · cases read
  · next other =>
    rw [digits_append read ends]
    split
    · next same =>
      cases same
      exact absurd read (other _ _ _)
    · rfl

/-- A fraction is read the same with more text behind it. -/
theorem fractionPart_append {f : Option (List Char)} (read : fractionPart cs = some (f, r))
    (ends : Ends rest) : fractionPart (cs ++ rest) = some (f, r ++ rest) := by
  unfold fractionPart at read
  split at read
  · next cs =>
    obtain ⟨⟨ds, r'⟩, run, same⟩ := Option.map_eq_some_iff.1 read
    cases same
    rw [List.cons_append, fractionPart, digits_append run ends]
    rfl
  · next other =>
    cases read
    unfold fractionPart
    split
    · next same =>
      cases cs with
      | nil =>
        have head : rest.head? = some '.' := congrArg List.head? same
        exact absurd rfl (ends '.' head).2.1
      | cons c cs =>
        cases same
        exact absurd rfl (other cs)
    · rfl

theorem exponentDigits_append {negative : Bool} {e : Option (Bool × List Char)}
    (read : exponentDigits negative cs = some (e, r)) (ends : Ends rest) :
    exponentDigits negative (cs ++ rest) = some (e, r ++ rest) := by
  obtain ⟨⟨ds, r'⟩, run, same⟩ := Option.map_eq_some_iff.1 read
  cases same
  rw [exponentDigits, digits_append run ends]
  rfl

theorem exponentPart_append {e : Option (Bool × List Char)} (read : exponentPart cs = some (e, r))
    (ends : Ends rest) : exponentPart (cs ++ rest) = some (e, r ++ rest) := by
  cases cs with
  | nil =>
    cases read
    cases rest with
    | nil => rfl
    | cons c rest =>
      have letters := (ends c rfl).2.2
      rw [List.nil_append, exponentPart.eq_def]
      simp [letters]
  | cons c cs =>
    rw [exponentPart.eq_def] at read
    rw [List.cons_append, exponentPart.eq_def]
    by_cases letter : c = 'e' ∨ c = 'E'
    · simp only [if_pos letter] at read ⊢
      split at read
      · exact exponentDigits_append read ends
      · exact exponentDigits_append read ends
      · next noPlus noMinus =>
        have run := exponentDigits_append read ends
        cases cs with
        | nil => cases read
        | cons d cs =>
          rw [List.cons_append] at run ⊢
          split
          · next same =>
            cases same
            exact absurd rfl (noPlus cs)
          · next same =>
            cases same
            exact absurd rfl (noMinus cs)
          · exact run
    · simp only [if_neg letter] at read ⊢
      cases read
      rfl

/-- The literal behind the sign. -/
def readUnsigned (negative : Bool) : Reader Literal := fun cs => do
  let (whole, cs) ← wholePart cs
  let (fraction, cs) ← fractionPart cs
  let (exponent, cs) ← exponentPart cs
  some (⟨negative, whole, fraction, exponent⟩, cs)

theorem read_minus (cs : List Char) : read ('-' :: cs) = readUnsigned true cs := rfl

/-- Without a sign a literal is read from its first digit on. -/
theorem read_of_not_minus (other : cs.head? ≠ some '-') : read cs = readUnsigned false cs := by
  unfold read
  split
  next negative cs' same =>
  split at same
  · exact absurd rfl other
  · cases same
    rfl

/-- A literal is read in three parts, one after the other. -/
theorem readUnsigned_eq_some {negative : Bool} {l : Literal} :
    readUnsigned negative cs = some (l, r) ↔
      ∃ whole fraction exponent b d, wholePart cs = some (whole, b) ∧
        fractionPart b = some (fraction, d) ∧ exponentPart d = some (exponent, r) ∧
        l = ⟨negative, whole, fraction, exponent⟩ := by
  unfold readUnsigned
  constructor
  · intro read
    obtain ⟨⟨whole, b⟩, first, read⟩ := Option.bind_eq_some_iff.1 read
    obtain ⟨⟨fraction, d⟩, second, read⟩ := Option.bind_eq_some_iff.1 read
    obtain ⟨⟨exponent, r⟩, third, read⟩ := Option.bind_eq_some_iff.1 read
    cases read
    exact ⟨whole, fraction, exponent, b, d, first, second, third, rfl⟩
  · rintro ⟨whole, fraction, exponent, b, d, first, second, third, rfl⟩
    simp [first, second, third]

/-- Each part is read the same with more text behind, and so are all three. -/
theorem readUnsigned_append {negative : Bool} {l : Literal}
    (read : readUnsigned negative cs = some (l, r)) (ends : Ends rest) :
    readUnsigned negative (cs ++ rest) = some (l, r ++ rest) := by
  obtain ⟨whole, fraction, exponent, b, d, first, second, third, rfl⟩ := readUnsigned_eq_some.1 read
  exact readUnsigned_eq_some.2 ⟨whole, fraction, exponent, b ++ rest, d ++ rest,
    wholePart_append first ends, fractionPart_append second ends, exponentPart_append third ends, rfl⟩

/-- **Literals.** What is appended to a text does not change the literal at its front, unless a number
could go on with it. -/
theorem read_append {l : Literal} (read : Literal.read cs = some (l, r)) (ends : Ends rest) :
    Literal.read (cs ++ rest) = some (l, r ++ rest) := by
  cases cs with
  | nil => cases read
  | cons c cs =>
    by_cases minus : c = '-'
    · subst minus
      rw [read_minus] at read
      rw [List.cons_append, read_minus]
      exact readUnsigned_append read ends
    · have other : ∀ cs, (c :: cs).head? ≠ some '-' := fun cs same => minus (Option.some.inj same)
      rw [read_of_not_minus (other cs)] at read
      rw [List.cons_append, read_of_not_minus (other (cs ++ rest))]
      exact readUnsigned_append read ends

/-! ## The text of a literal -/

/-- One digit or more. -/
structure IsDigits (ds : List Char) : Prop where
  ne_nil : ds ≠ []
  digits : ∀ c ∈ ds, c.isDigit = true

/-- A point and the digits behind it, or nothing. -/
inductive FractionText : Option (List Char) → List Char → Prop where
  | without : FractionText none []
  | point {ds : List Char} (digits : IsDigits ds) : FractionText (some ds) ('.' :: ds)

/-- The sign of an exponent. -/
inductive SignText : Bool → List Char → Prop where
  | without : SignText false []
  | plus : SignText false ['+']
  | minus : SignText true ['-']

/-- A letter, a sign and the digits of an exponent, or nothing. -/
inductive ExponentText : Option (Bool × List Char) → List Char → Prop where
  | without : ExponentText none []
  | power {letter : Char} {negative : Bool} {sign ds : List Char} (isLetter : letter = 'e' ∨ letter = 'E')
    (signed : SignText negative sign) (digits : IsDigits ds) :
    ExponentText (some (negative, ds)) (letter :: (sign ++ ds))

/-- The literal is spelled by its sign, its digits and the two texts. -/
structure Spelled (l : Literal) (point power : List Char) : Prop where
  whole : IsDigits l.whole
  /-- No zero comes first, but zero itself. -/
  leading : ∀ ds, l.whole = '0' :: ds → ds = []
  fraction : FractionText l.fraction point
  exponent : ExponentText l.exponent power

/-- Digits that were read are digits, one at least, and stood in front. -/
theorem digits_eq_some {ds : List Char} (read : digits cs = some (ds, r)) :
    IsDigits ds ∧ cs = ds ++ r := by
  unfold digits at read
  rw [List.span_eq_takeWhile_dropWhile] at read
  split at read
  · cases read
  · next ds' r' other same =>
    cases same
    cases read
    refine ⟨⟨other, fun c mem => List.mem_takeWhile_imp mem⟩, ?_⟩
    exact List.takeWhile_append_dropWhile.symm

/-- The digits of the whole part have no zero in front but a single one. -/
theorem wholePart_eq_some {ds : List Char} (read : wholePart cs = some (ds, r)) :
    IsDigits ds ∧ (∀ ds', ds = '0' :: ds' → ds' = []) ∧ cs = ds ++ r := by
  unfold wholePart at read
  split at read
  · cases read
  · next other =>
    obtain ⟨digits, text⟩ := digits_eq_some read
    refine ⟨digits, fun ds' same => ?_, text⟩
    cases ds' with
    | nil => rfl
    | cons d ds' => exact absurd (same ▸ read) (other d ds' r)

/-- A fraction that was read stood in front, if there was one. -/
theorem fractionPart_eq_some {f : Option (List Char)} (read : fractionPart cs = some (f, r)) :
    ∃ point, FractionText f point ∧ cs = point ++ r := by
  unfold fractionPart at read
  split at read
  · next cs =>
    obtain ⟨⟨ds, r'⟩, run, same⟩ := Option.map_eq_some_iff.1 read
    cases same
    obtain ⟨digits, rfl⟩ := digits_eq_some run
    exact ⟨_, .point digits, rfl⟩
  · cases read
    exact ⟨_, .without, rfl⟩

theorem exponentPart_eq_some {e : Option (Bool × List Char)} (read : exponentPart cs = some (e, r)) :
    ∃ power, ExponentText e power ∧ cs = power ++ r := by
  have behind : ∀ {letter : Char} {negative : Bool} {sign ds : List Char},
      letter = 'e' ∨ letter = 'E' → SignText negative sign →
      exponentDigits negative ds = some (e, r) →
        ∃ power, ExponentText e power ∧ letter :: (sign ++ ds) = power ++ r := by
    intro letter negative sign ds isLetter signed run
    obtain ⟨⟨ds, r'⟩, run, same⟩ := Option.map_eq_some_iff.1 run
    cases same
    obtain ⟨digits, rfl⟩ := digits_eq_some run
    exact ⟨_, .power isLetter signed digits, by simp⟩
  unfold exponentPart at read
  split at read
  · next c cs =>
    split at read
    · next isLetter =>
      split at read
      · exact behind isLetter .plus read
      · exact behind isLetter .minus read
      · exact behind isLetter .without read
    · cases read
      exact ⟨_, .without, rfl⟩
  · cases read
    exact ⟨_, .without, rfl⟩

/-- What was read of a literal is spelled out in front of the rest. -/
theorem spelled_of_readUnsigned {negative : Bool} {l : Literal}
    (read : readUnsigned negative cs = some (l, r)) :
    ∃ point power, l.Spelled point power ∧ l.negative = negative ∧
      cs = l.whole ++ (point ++ power) ++ r := by
  obtain ⟨whole, fraction, exponent, b, d, first, second, third, rfl⟩ := readUnsigned_eq_some.1 read
  obtain ⟨digits, leading, rfl⟩ := wholePart_eq_some first
  obtain ⟨point, pointed, rfl⟩ := fractionPart_eq_some second
  obtain ⟨power, powered, rfl⟩ := exponentPart_eq_some third
  exact ⟨point, power, ⟨digits, leading, pointed, powered⟩, rfl, by simp⟩

/-- A literal that was read stands at the front of the text. -/
theorem spelled_of_read {l : Literal} (read : Literal.read cs = some (l, r)) :
    ∃ point power, l.Spelled point power ∧
      cs = (if l.negative then ['-'] else []) ++ (l.whole ++ (point ++ power)) ++ r := by
  cases cs with
  | nil => cases read
  | cons c cs =>
    by_cases minus : c = '-'
    · subst minus
      rw [read_minus] at read
      obtain ⟨point, power, spelled, sign, rfl⟩ := spelled_of_readUnsigned read
      exact ⟨point, power, spelled, by rw [sign]; simp⟩
    · have other : (c :: cs).head? ≠ some '-' := fun same => minus (Option.some.inj same)
      rw [read_of_not_minus other] at read
      obtain ⟨point, power, spelled, sign, text⟩ := spelled_of_readUnsigned read
      exact ⟨point, power, spelled, by rw [sign, text]; simp⟩

/-- Reading a literal only takes characters off the front. -/
theorem read_suffix {l : Literal} (read : Literal.read cs = some (l, r)) : r <:+ cs := by
  obtain ⟨point, power, -, text⟩ := spelled_of_read read
  exact ⟨_, text.symm⟩

end Parts

/-! ## Texts that start with no number -/

theorem digits_cons_of_not_digit {c : Char} (noDigit : c.isDigit = false) (cs : List Char) :
    digits (c :: cs) = none := by
  have run : (c :: cs).span Char.isDigit = ([], c :: cs) := by
    rw [List.span_eq_takeWhile_dropWhile, List.takeWhile_cons, List.dropWhile_cons]
    simp [noDigit]
  rw [digits, run]

/-- A literal starts with a digit or a minus sign. -/
theorem read_cons_of_not_digit {c : Char} (noDigit : c.isDigit = false) (noMinus : c ≠ '-')
    (cs : List Char) : read (c :: cs) = none := by
  have other : (c :: cs).head? ≠ some '-' := fun same => noMinus (Option.some.inj same)
  rw [read_of_not_minus other, readUnsigned, wholePart, digits_cons_of_not_digit noDigit]
  rfl

end Literal

section Numbers

variable {cs rest r : List Char} {l : Literal}

/-- The characters of numbers. -/
def IsNumeral (c : Char) : Prop :=
  c.isDigit = true ∨ c = '-' ∨ c = '+' ∨ c = '.' ∨ c = 'e'

theorem IsNumeral.not_blank {c : Char} (numeral : IsNumeral c) : Text.isBlank c = false := by
  rcases numeral with digit | rfl | rfl | rfl | rfl
  · exact Text.isBlank_of_isAlphanum (by simp [Char.isAlphanum, digit])
  all_goals decide

/-- Where a number could start, one is read for its value. -/
theorem readScalar_of_isNumeral (start : ∀ c ∈ cs.head?, IsNumeral c) :
    readScalar cs =
      (Literal.read cs).bind fun (l, rest) => l.value?.map fun n => (.number n, rest) := by
  unfold readScalar
  split
  · exact absurd (start 'n' rfl) (by simp [IsNumeral])
  · exact absurd (start 't' rfl) (by simp [IsNumeral])
  · exact absurd (start 'f' rfl) (by simp [IsNumeral])
  · exact absurd (start '"' rfl) (by simp [IsNumeral])
  · cases Literal.read cs with
    | none => rfl
    | some p => cases value : p.1.value? <;> simp [value]

/-- A text that a literal was read from starts with a character of numbers. -/
theorem exists_cons_of_read (read : Literal.read cs = some (l, r)) :
    ∃ c cs', cs = c :: cs' ∧ IsNumeral c := by
  cases cs with
  | nil => cases read
  | cons c cs =>
    refine ⟨c, cs, rfl, ?_⟩
    by_contra other
    have noDigit : c.isDigit = false := Bool.eq_false_iff.2 fun digit => other (.inl digit)
    have noMinus : c ≠ '-' := fun minus => other (.inr (.inl minus))
    rw [Literal.read_cons_of_not_digit noDigit noMinus] at read
    cases read

/-- Where a literal stands, it is read for its number. -/
theorem readScalar_of_literal (read : Literal.read cs = some (l, r)) :
    readScalar cs = l.value?.map fun n => (.number n, r) := by
  obtain ⟨c, cs', rfl, numeral⟩ := exists_cons_of_read read
  have start : ∀ d ∈ (c :: cs').head?, IsNumeral d := by
    rintro d ⟨⟩
    exact numeral
  rw [readScalar_of_isNumeral start, read]
  rfl

/-- No scalar starts with an opening bracket. -/
theorem readScalar_bracket {c : Char} (bracket : c = '[' ∨ c = '\x7b') (cs : List Char) :
    readScalar (c :: cs) = none := by
  have noLiteral : Literal.read (c :: cs) = none := by
    rcases bracket with rfl | rfl
    · exact Literal.read_cons_of_not_digit (by decide) (by decide) cs
    · exact Literal.read_cons_of_not_digit (by decide) (by decide) cs
  rcases bracket with rfl | rfl
  · simp [readScalar, noLiteral]
  · simp [readScalar, noLiteral]

/-! ## Integers -/

theorem digits_of_all {ds : List Char} (some_ : ds ≠ []) (all : ∀ c ∈ ds, c.isDigit = true) :
    Literal.digits ds = some (ds, []) := by
  have run : ds.span Char.isDigit = (ds, []) := by
    have run : (ds ++ []).span Char.isDigit = (ds, []) := span_append all nofun
    rwa [List.append_nil] at run
  rw [Literal.digits, run]
  cases ds with
  | nil => exact absurd rfl some_
  | cons d ds => rfl

/-- The digits of a number are a literal without point and exponent. -/
theorem readUnsigned_decimalDigits (negative : Bool) (n : Nat) :
    Literal.readUnsigned negative (decimalDigits n) =
      some (⟨negative, decimalDigits n, none, none⟩, []) := by
  have digits : Literal.digits (decimalDigits n) = some (decimalDigits n, []) :=
    digits_of_all Nat.toDigits_ne_nil fun c => isDigit_of_mem_decimalDigits
  have whole : Literal.wholePart (decimalDigits n) = some (decimalDigits n, []) := by
    rw [Literal.wholePart, digits]
    split
    · next same =>
      rw [Option.some.injEq, Prod.mk.injEq] at same
      rcases Nat.eq_zero_or_pos n with rfl | pos
      · cases same.1
      · have head := toDigits_head pos
        rw [← decimalDigits, same.1] at head
        exact absurd rfl head
    · rfl
  exact Literal.readUnsigned_eq_some.2
    ⟨decimalDigits n, none, none, [], [], whole, rfl, rfl, rfl⟩

/-- An integer is written as a literal without fraction and exponent. -/
theorem read_writeInt (n : Int) :
    Literal.read (writeInt n) =
      some (⟨decide (n < 0), decimalDigits n.natAbs, none, none⟩, []) := by
  unfold writeInt
  split
  · next negative =>
    rw [decide_eq_true negative]
    exact readUnsigned_decimalDigits true n.natAbs
  · next negative =>
    have noMinus : (decimalDigits n.natAbs).head? ≠ some '-' := by
      intro head
      have digit := isDigit_of_mem_decimalDigits (List.mem_of_mem_head? head)
      revert digit
      decide
    rw [decide_eq_false negative, Literal.read_of_not_minus noMinus]
    exact readUnsigned_decimalDigits false n.natAbs

/-- The value of this literal is the integer. -/
theorem value?_writeInt (n : JsonInt) :
    Literal.value? ⟨decide (n.1 < 0), decimalDigits n.1.natAbs, none, none⟩ = some (.integer n) := by
  have number : decimalNumber (decimalDigits n.1.natAbs) = n.1.natAbs := Nat.ofDigitChars_ten_toDigits
  obtain ⟨bottom, top⟩ := n.2
  have integer :
      Literal.integer? ⟨decide (n.1 < 0), decimalDigits n.1.natAbs, none, none⟩ = some n := by
    simp only [Literal.integer?, Option.isNone_none, and_self, if_true, number, decide_eq_true_eq]
    split
    · next negative =>
      rw [dif_pos (by omega)]
      exact congrArg some (Subtype.ext (show -(n.1.natAbs : Int) = n.1 by omega))
    · next negative =>
      rw [dif_pos (by omega)]
      exact congrArg some (Subtype.ext (show (n.1.natAbs : Int) = n.1 by omega))
  rw [Literal.value?, integer]

/-! ## Floats -/

theorem isNumeral_positional {d : Shortest} (digits : ∀ c ∈ d.digits, c.isDigit = true) :
    ∀ c ∈ d.positional, IsNumeral c := by
  intro c mem
  unfold Shortest.positional at mem
  have zero : ∀ {k : Nat}, c ∈ List.replicate k '0' → c.isDigit = true := isDigit_of_mem_zeros
  split at mem
  · simp only [List.mem_cons, List.mem_append] at mem
    rcases mem with rfl | rfl | zeros | own
    · exact .inl (by decide)
    · exact .inr (.inr (.inr (.inl rfl)))
    · exact .inl (zero zeros)
    · exact .inl (digits c own)
  · dsimp only at mem
    split at mem
    · simp only [List.mem_append, List.mem_cons, List.not_mem_nil, or_false] at mem
      rcases mem with (own | zeros) | rfl | rfl
      · exact .inl (digits c own)
      · exact .inl (zero zeros)
      · exact .inr (.inr (.inr (.inl rfl)))
      · exact .inl (by decide)
    · simp only [List.mem_append, List.mem_cons] at mem
      rcases mem with front | rfl | back
      · exact .inl (digits c (List.mem_of_mem_take front))
      · exact .inr (.inr (.inr (.inl rfl)))
      · exact .inl (digits c (List.mem_of_mem_drop back))

theorem isNumeral_scientific {d : Shortest} (digits : ∀ c ∈ d.digits, c.isDigit = true) :
    ∀ c ∈ d.scientific, IsNumeral c := by
  intro c mem
  rw [Shortest.scientific, List.mem_append, List.mem_cons, List.mem_cons] at mem
  rcases mem with mantissa | rfl | sign | exponent
  · split at mantissa
    · next first second later same =>
      simp only [List.mem_cons] at mantissa
      rw [same] at digits
      rcases mantissa with rfl | rfl | own
      · exact .inl (digits c List.mem_cons_self)
      · exact .inr (.inr (.inr (.inl rfl)))
      · exact .inl (digits c (List.mem_cons_of_mem _ (List.mem_cons.2 own)))
    · exact .inl (digits c mantissa)
  · exact .inr (.inr (.inr (.inr rfl)))
  · split at sign
    · exact .inr (.inl sign)
    · exact .inr (.inr (.inl sign))
  · exact .inl (isDigit_of_mem_decimalDigits exponent)

/-- A float is written with characters of numbers alone. -/
theorem isNumeral_writeFloat (x : Binary64) : ∀ c ∈ floatStyle.write x, IsNumeral c := by
  intro c mem
  have digits : ∀ c ∈ (x.shortest floatStyle.tie).digits, c.isDigit = true :=
    fun c => isDigit_of_mem_shortest
  rw [FloatStyle.write, List.mem_append] at mem
  rcases mem with sign | body
  · split at sign
    · exact .inr (.inl (List.mem_singleton.1 sign))
    · cases sign
  · split at body
    · simp only [List.mem_cons, List.not_mem_nil, or_false] at body
      rcases body with rfl | rfl | rfl
      · exact .inl (by decide)
      · exact .inr (.inr (.inr (.inl rfl)))
      · exact .inl (by decide)
    · dsimp only at body
      split at body
      · exact isNumeral_positional digits c body
      · exact isNumeral_scientific digits c body

/-- None of these is skipped as a blank. -/
theorem IsNumeral.visible {c : Char} (numeral : IsNumeral c) : isSpace c = false := by
  rcases numeral with digit | rfl | rfl | rfl | rfl
  · rw [Bool.eq_false_iff]
    intro space
    simp only [isSpace, Bool.or_eq_true, beq_iff_eq] at space
    rcases space with ((rfl | rfl) | rfl) | rfl <;> cases digit
  all_goals decide

theorem skip_of_isNumeral {cs : List Char} (all : ∀ c ∈ cs, IsNumeral c) : skip cs = cs := by
  cases cs with
  | nil => rfl
  | cons c cs =>
    rw [skip, List.dropWhile_cons, (all c List.mem_cons_self).visible]
    rfl

/-- What is no array and no object is read as a scalar. -/
theorem readValue_of_other (array : cs.head? ≠ some '[') (object : cs.head? ≠ some '\x7b')
    (depth : Nat) : readValue depth cs = readScalar cs := by
  unfold readValue
  split
  · exact absurd rfl array
  · exact absurd rfl object
  · rfl

/-- What starts like a number is read as a scalar. -/
theorem readValue_of_isNumeral (start : ∀ c ∈ cs.head?, IsNumeral c) (depth : Nat) :
    readValue depth cs = readScalar cs := by
  apply readValue_of_other
  · intro head
    exact absurd (start _ head) (by simp [IsNumeral])
  · intro head
    exact absurd (start _ head) (by simp [IsNumeral])

/-- The float is read back from its own text. -/
def FloatExact (x : Binary64) : Prop :=
  Json.read (Json.number (.float x)).compact = some (.number (.float x))

/-- A float is read back if and only if it is written as a literal with its value. -/
theorem floatExact_iff {x : Binary64} :
    FloatExact x ↔
      ∃ l, Literal.read (floatStyle.write x) = some (l, []) ∧ l.value? = some (.float x) := by
  have numerals := isNumeral_writeFloat x
  have text : (Json.number (.float x)).compact.toList = floatStyle.write x := String.toList_ofList
  have start : ∀ c ∈ (floatStyle.write x).head?, IsNumeral c :=
    fun c head => numerals c (List.mem_of_mem_head? head)
  rw [FloatExact, Json.read, whole, text, skip_of_isNumeral numerals, readValue_of_isNumeral start,
    readScalar_of_isNumeral start]
  constructor
  · intro exact
    cases read : Literal.read (floatStyle.write x) with
    | none =>
      rw [read] at exact
      cases exact
    | some p =>
      obtain ⟨l, r⟩ := p
      have left : skip r = r :=
        skip_of_isNumeral fun c mem => numerals c ((Literal.read_suffix read).subset mem)
      cases value : l.value? with
      | none =>
        simp only [read, Option.bind_some, value, Option.map_none] at exact
        cases exact
      | some n =>
        simp only [read, Option.bind_some, value, Option.map_some, left, List.isEmpty_iff] at exact
        split at exact
        · next done =>
          cases exact
          exact ⟨l, done ▸ rfl, value⟩
        · cases exact
  · rintro ⟨l, read, value⟩
    simp only [read, Option.bind_some, value, Option.map_some]
    rfl

/-- The float 1.5 is read back from its text. -/
theorem floatExact_oneAndAHalf : FloatExact ⟨0x3FF8000000000000⟩ := by
  have text : floatStyle.write ⟨0x3FF8000000000000⟩ = ['1', '.', '5'] := by decide +kernel
  rw [floatExact_iff, text]
  refine ⟨⟨false, ['1'], some ['5'], none⟩, rfl, ?_⟩
  decide +kernel

/-- **Numbers.** A number is written as a literal with its value, if it is read back as a float. -/
theorem exists_literal {n : JsonNumber} (exact : ∀ x, n = .float x → FloatExact x) :
    ∃ l, Literal.read (writeNumber n) = some (l, []) ∧ l.value? = some n := by
  cases n with
  | integer n => exact ⟨_, read_writeInt n.1, value?_writeInt n⟩
  | float x => exact floatExact_iff.1 (exact x rfl)

end Numbers

end SessionGrid.Json
