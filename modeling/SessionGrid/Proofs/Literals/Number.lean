import SessionGrid.Proofs.Capabilities.Matching
import SessionGrid.Proofs.Config.Conversion
import SessionGrid.Proofs.Json.Number
import SessionGrid.Proofs.Text.Blank

/-!
# Number literals in both formats

Where TOML reads a number literal of JSON, the literal is one token and no date, time or truth value. A
literal without point and exponent is an integer in both formats, but for `-0`, which JSON does not count
as one. Every other literal is a binary64 number in both, which TOML rounds once and JSON step by step, so
that the two numbers can differ. `Literal.ReadAlike` says for which literals the formats agree
(`same_iff_readAlike`).
-/

namespace SessionGrid

open Text

namespace Json.Literal

/-- The power of ten that the exponent says. -/
def power (l : Literal) : Int :=
  match l.exponent with
  | none => 0
  | some (true, ds) => -(decimalNumber ds : Int)
  | some (false, ds) => decimalNumber ds

/-- The binary64 number nearest to the literal. -/
def nearest (l : Literal) : Binary64 :=
  let fraction := l.fraction.getD []
  let size := Toml.nearest (l.whole ++ fraction) (l.power - fraction.length)
  if l.negative then size.neg else size

/-- Neither point nor exponent. -/
def IsWhole (l : Literal) : Prop :=
  l.fraction = none ∧ l.exponent = none

/-- Both formats read the same number: the literal is an integer other than `-0`, or JSON finds the nearest
binary64 number, and that is finite. -/
def ReadAlike (l : Literal) : Prop :=
  (l.IsWhole → ¬ (l.negative = true ∧ decimalNumber l.whole = 0)) ∧
    (¬ l.IsWhole → l.nearest.isFinite = true ∧ l.float?.any (·.same l.nearest) = true)

instance (l : Literal) : Decidable l.IsWhole :=
  inferInstanceAs (Decidable (_ ∧ _))

instance (l : Literal) : Decidable l.ReadAlike :=
  inferInstanceAs (Decidable (_ ∧ _))

/-! ## Characters -/

section Characters

open Toml (isTokenChar signed)

variable {l : Literal} {point power : List Char}

/-- The characters of literals. -/
def IsPart (c : Char) : Prop :=
  c.isDigit = true ∨ c ∈ ['-', '+', '.', 'e', 'E']

/-- There is no fraction exactly if nothing is written for it. -/
theorem FractionText.eq_none_iff {f : Option (List Char)} (text : FractionText f point) :
    f = none ↔ point = [] := by
  cases text <;> simp

theorem ExponentText.eq_none_iff {e : Option (Bool × List Char)} (text : ExponentText e power) :
    e = none ↔ power = [] := by
  cases text <;> simp

/-- A fraction starts with its point. -/
theorem FractionText.head {f : Option (List Char)} (text : FractionText f point) :
    ∀ c ∈ point.head?, c = '.' := by
  cases text with
  | without => exact nofun
  | point _ =>
    rintro c ⟨⟩
    rfl

theorem FractionText.pointed {f : Option (List Char)} (text : FractionText f point) :
    ∀ c ∈ point, (c.isDigit || c == '.') = true := by
  cases text with
  | without => exact List.forall_mem_nil _
  | point own =>
    refine List.forall_mem_cons.2 ⟨rfl, fun c mem => ?_⟩
    rw [own.digits c mem, Bool.true_or]

/-- An exponent starts with its letter, small or large. -/
theorem ExponentText.head {e : Option (Bool × List Char)} (text : ExponentText e power) :
    ∀ c ∈ power.head?, c = 'e' ∨ c = 'E' := by
  cases text with
  | without => exact nofun
  | power isLetter _ _ =>
    rintro c ⟨⟩
    exact isLetter

theorem ExponentText.isPart {e : Option (Bool × List Char)} (text : ExponentText e power) :
    ∀ c ∈ power, IsPart c := by
  cases text with
  | without => exact List.forall_mem_nil _
  | power isLetter sign own =>
    refine List.forall_mem_cons.2 ⟨?_, List.forall_mem_append.2 ⟨?_, fun c mem => .inl (own.digits c mem)⟩⟩
    · rcases isLetter with rfl | rfl <;> exact .inr (by decide)
    · cases sign with
      | without => exact List.forall_mem_nil _
      | plus | minus => exact List.forall_mem_singleton.2 (.inr (by decide))

/-- Before the exponent a literal has digits and a point at most. -/
theorem Spelled.pointed (spelled : l.Spelled point power) :
    ∀ c ∈ l.whole ++ point, (c.isDigit || c == '.') = true := by
  refine List.forall_mem_append.2 ⟨fun c mem => ?_, spelled.fraction.pointed⟩
  rw [spelled.whole.digits c mem, Bool.true_or]

/-- A whole literal has digits, signs, a point and the letter of an exponent at most. -/
theorem Spelled.isPart (spelled : l.Spelled point power) :
    ∀ c ∈ signed l.negative (l.whole ++ (point ++ power)), IsPart c := by
  have body : ∀ c ∈ l.whole ++ (point ++ power), IsPart c := by
    rw [← List.append_assoc]
    refine List.forall_mem_append.2 ⟨fun c mem => ?_, spelled.exponent.isPart⟩
    rcases Bool.or_eq_true_iff.1 (spelled.pointed c mem) with digit | point
    · exact .inl digit
    · rw [eq_of_beq point]
      exact .inr (by decide)
  unfold signed
  split
  · exact List.forall_mem_cons.2 ⟨.inr (by decide), body⟩
  · exact body

/-- No other character is in a literal. -/
theorem Spelled.not_mem (spelled : l.Spelled point power) {c : Char} (digit : c.isDigit = false)
    (other : c ∉ ['-', '+', '.', 'e', 'E']) : c ∉ signed l.negative (l.whole ++ (point ++ power)) := by
  intro mem
  rcases spelled.isPart c mem with own | own
  · rw [digit] at own
    cases own
  · exact other own

/-- All these are characters of tokens, so nothing ends a literal before its end. -/
theorem Spelled.tokenChars (spelled : l.Spelled point power) :
    ∀ c ∈ signed l.negative (l.whole ++ (point ++ power)), isTokenChar c = true := by
  intro c mem
  rcases spelled.isPart c mem with digit | other
  · simp [isTokenChar, Toml.isBare, Char.isAlphanum, digit]
  · have all : ['-', '+', '.', 'e', 'E'].all isTokenChar = true := by decide
    exact List.all_eq_true.1 all c other

/-- Behind its sign a literal starts with a digit. -/
theorem Spelled.head (spelled : l.Spelled point power) :
    ∃ c cs, l.whole ++ (point ++ power) = c :: cs ∧ c.isDigit = true := by
  obtain ⟨ne, digits⟩ := spelled.whole
  cases whole : l.whole with
  | nil => exact absurd whole ne
  | cons c cs => exact ⟨c, _, rfl, digits c (by rw [whole]; exact List.mem_cons_self)⟩

theorem Spelled.starts (spelled : l.Spelled point power) :
    ∃ c cs, signed l.negative (l.whole ++ (point ++ power)) = c :: cs ∧ isTokenChar c = true := by
  have chars := spelled.tokenChars
  obtain ⟨c, cs, text, -⟩ := spelled.head
  cases token : signed l.negative (l.whole ++ (point ++ power)) with
  | nil =>
    rw [text] at token
    cases negative : l.negative <;> rw [negative] at token <;> cases token
  | cons d ds => exact ⟨d, ds, rfl, chars d (by rw [token]; exact List.mem_cons_self)⟩

/-- A literal is whole if nothing is written behind its digits. -/
theorem Spelled.isWhole_iff (spelled : l.Spelled point power) :
    l.IsWhole ↔ point ++ power = [] := by
  rw [IsWhole, spelled.fraction.eq_none_iff, spelled.exponent.eq_none_iff, List.append_eq_nil_iff]

/-- What stands behind the digits at the front. -/
theorem Spelled.mark (spelled : l.Spelled point power) :
    ∀ c ∈ (point ++ power).head?, c = '.' ∨ c = 'e' ∨ c = 'E' := by
  intro c head
  cases point with
  | nil => exact .inr (spelled.exponent.head c head)
  | cons d point => exact .inl (spelled.fraction.head c head)

end Characters

/-! ## Tokens -/

section Tokens

open Toml (signed ungroup)

variable {l : Literal} {point power : List Char}

/-- A sign follows no digit, so that no literal starts like a date. -/
theorem Spelled.readDate (spelled : l.Spelled point power) :
    DateTime.readDate (signed l.negative (l.whole ++ (point ++ power))) = none := by
  have run : (l.whole ++ (point ++ power)).dropWhile (fun c => c.isDigit || c == '.') = power := by
    rw [← List.append_assoc, List.dropWhile_append_of_pos spelled.pointed]
    refine dropWhile_of_head fun c head => ?_
    rcases spelled.exponent.head c head with rfl | rfl <;> rfl
  unfold DateTime.readDate
  split
  · next a b c d cs text =>
    have few : (a.isDigit && b.isDigit && c.isDigit && d.isDigit) = false := by
      refine Bool.eq_false_iff.2 fun digits => ?_
      simp only [Bool.and_eq_true] at digits
      obtain ⟨⟨⟨da, db⟩, dc⟩, dd⟩ := digits
      cases negative : l.negative with
      | true =>
        have first : a = '-' := by
          rw [negative] at text
          exact (List.cons.inj text).1.symm
        rw [first] at da
        cases da
      | false =>
        rw [negative] at text
        have text : l.whole ++ (point ++ power) = a :: b :: c :: d :: '-' :: cs := text
        rw [text] at run
        simp [da, db, dc, dd] at run
        exact absurd (spelled.exponent.head '-' (by rw [← run]; rfl)) (by decide)
    simp [few]
  · rfl

/-- With an exponent, too, a literal has no colon and not the hyphens of a date. -/
theorem Spelled.dateTime (spelled : l.Spelled point power) :
    DateTime.read? (signed l.negative (l.whole ++ (point ++ power))) = none := by
  have absent : ':' ∉ signed l.negative (l.whole ++ (point ++ power)) :=
    spelled.not_mem (by decide) (by decide)
  rw [DateTime.read?, spelled.readDate, Toml.readTime_of_not_mem absent]

/-- Its sign is taken off as JSON does it. -/
theorem Spelled.splitSign (spelled : l.Spelled point power) :
    Toml.splitSign (signed l.negative (l.whole ++ (point ++ power))) =
      (l.negative, l.whole ++ (point ++ power)) := by
  obtain ⟨c, cs, text, digit⟩ := spelled.head
  rw [text]
  cases l.negative with
  | true => rfl
  | false =>
    unfold signed Toml.splitSign
    split
    · next same =>
      cases same
      cases digit
    · next same =>
      cases same
      cases digit
    · rfl

/-- A literal has no base. -/
theorem Spelled.integer?_eq (spelled : l.Spelled point power) :
    Toml.integer? (signed l.negative (l.whole ++ (point ++ power))) =
      (Toml.wholeDigits (l.whole ++ (point ++ power))).bind fun ds =>
        Toml.ofInt? (if l.negative then -(decimalNumber ds : Int) else decimalNumber ds) := by
  have letter : ∀ {c : Char}, c.isDigit = false → c ∉ ['-', '+', '.', 'e', 'E'] →
      c ∉ signed l.negative (l.whole ++ (point ++ power)) := spelled.not_mem
  unfold Toml.integer?
  split
  · next same => exact absurd (same ▸ by simp) (letter (c := 'x') (by decide) (by decide))
  · next same => exact absurd (same ▸ by simp) (letter (c := 'o') (by decide) (by decide))
  · next same => exact absurd (same ▸ by simp) (letter (c := 'b') (by decide) (by decide))
  · rw [spelled.splitSign]
    rfl

/-- JSON allows no zero in front either, so its digits are those of a whole number. -/
theorem Spelled.whole_eq (spelled : l.Spelled point power) :
    Toml.wholeDigits l.whole = some l.whole := by
  rw [Toml.wholeDigits, Toml.ungroup_of_digits spelled.whole.ne_nil spelled.whole.digits]
  split
  · next same => cases spelled.leading _ (Option.some.inj same)
  · rfl

/-- Of a whole literal all is taken. -/
theorem Spelled.wholeDigits_of_isWhole (spelled : l.Spelled point power) (isWhole : l.IsWhole) :
    Toml.wholeDigits (l.whole ++ (point ++ power)) = some l.whole := by
  rw [spelled.isWhole_iff.1 isWhole, List.append_nil, spelled.whole_eq]

/-- A point or a letter is no digit. -/
theorem Spelled.wholeDigits_of_not_isWhole (spelled : l.Spelled point power) (other : ¬ l.IsWhole) :
    Toml.wholeDigits (l.whole ++ (point ++ power)) = none := by
  cases behind : point ++ power with
  | nil => exact absurd (spelled.isWhole_iff.2 behind) other
  | cons c cs =>
    have noDigit : c.isDigit = false ∧ c ≠ '_' := by
      rcases spelled.mark c (by rw [behind]; rfl) with rfl | rfl | rfl <;> decide
    rw [Toml.wholeDigits, Toml.ungroup_of_mem (c := c) (by simp) noDigit.1 noDigit.2]

/-- Digits end where a point or an exponent starts; no underscore can be among them. -/
theorem IsDigits.span_append {ds : List Char} (digits : IsDigits ds) {rest : List Char}
    (ends : ∀ c ∈ rest.head?, c = '.' ∨ c = 'e' ∨ c = 'E') :
    (ds ++ rest).span (fun c => c.isDigit || c == '_') = (ds, rest) := by
  refine Text.span_append (fun c mem => ?_) fun c head => ?_
  · rw [digits.digits c mem, Bool.true_or]
  · rcases ends c head with rfl | rfl | rfl <;> rfl

theorem IsDigits.ungroup {ds : List Char} (digits : IsDigits ds) :
    Toml.ungroup Char.isDigit ds = some ds :=
  Toml.ungroup_of_digits digits.ne_nil digits.digits

/-- The fraction is read as it was written. -/
theorem FractionText.fraction?_eq {f : Option (List Char)} (text : FractionText f point)
    (behind : ∀ c ∈ power.head?, c = 'e' ∨ c = 'E') :
    Toml.fraction? (point ++ power) = some (f, power) := by
  cases text with
  | without =>
    rw [List.nil_append]
    unfold Toml.fraction?
    split
    · exact absurd (behind '.' rfl) (by decide)
    · rfl
  | point own =>
    have run := own.span_append fun c head => .inr (behind c head)
    rw [List.cons_append]
    simp only [Toml.fraction?, run, own.ungroup, Option.map_some]

/-- The sign of an exponent is taken off, written or not. -/
theorem SignText.splitSign {negative : Bool} {sign ds : List Char} (text : SignText negative sign)
    (digits : IsDigits ds) : Toml.splitSign (sign ++ ds) = (negative, ds) := by
  cases text with
  | plus | minus => rfl
  | without =>
    rw [List.nil_append]
    unfold Toml.splitSign
    split
    · cases digits.digits '-' List.mem_cons_self
    · cases digits.digits '+' List.mem_cons_self
    · rfl

/-- The exponent is read as the number that it was written for. -/
theorem ExponentText.exponent?_eq {e : Option (Bool × List Char)} (text : ExponentText e power) :
    Toml.exponent? power =
      some (e.map fun p => if p.1 then -(decimalNumber p.2 : Int) else decimalNumber p.2) := by
  cases text with
  | without => rfl
  | power isLetter sign own =>
    simp only [Toml.exponent?, if_pos isLetter, sign.splitSign own, own.ungroup]
    rfl

/-- Both formats take a missing exponent for zero. -/
theorem power_eq (l : Literal) :
    (l.exponent.map fun p => if p.1 then -(decimalNumber p.2 : Int) else decimalNumber p.2).getD 0 =
      l.power := by
  unfold Literal.power
  split
  · next same => rw [same]; rfl
  · next same => rw [same]; rfl
  · next same => rw [same]; rfl

/-- A literal with a point or an exponent stands for the nearest number. -/
theorem Spelled.decimal?_eq (spelled : l.Spelled point power) :
    Toml.decimal? (l.whole ++ (point ++ power)) =
      if l.fraction.isNone ∧ l.exponent.isNone then none
      else some (Toml.nearest (l.whole ++ l.fraction.getD [])
        (l.power - (l.fraction.getD []).length)) := by
  have run := spelled.whole.span_append spelled.mark
  have fraction := spelled.fraction.fraction?_eq spelled.exponent.head
  simp only [Toml.decimal?, run, spelled.whole_eq, fraction, spelled.exponent.exponent?_eq,
    Option.bind_eq_bind, Option.bind_some, Option.bind_none, Option.isNone_map, power_eq]

/-- The sign is put on after rounding, and a number that is not finite passes only with a sign. -/
theorem Spelled.float?_eq (spelled : l.Spelled point power) :
    Toml.float? (signed l.negative (l.whole ++ (point ++ power))) =
      (Toml.decimal? (l.whole ++ (point ++ power))).bind fun x =>
        if !l.negative && !x.isFinite then none else some (if l.negative then x.neg else x) := by
  obtain ⟨c, cs, text, digit⟩ := spelled.head
  have inf : l.whole ++ (point ++ power) ≠ ['i', 'n', 'f'] := by
    rw [text]
    rintro ⟨⟩
    cases digit
  have nan : l.whole ++ (point ++ power) ≠ ['n', 'a', 'n'] := by
    rw [text]
    rintro ⟨⟩
    cases digit
  simp only [Toml.float?, spelled.splitSign, if_neg inf, if_neg nan, Option.bind_eq_bind]

/-- A literal stands for an integer if it can be read as one, and for a float otherwise. -/
theorem Spelled.tokenValue?_eq (spelled : l.Spelled point power) :
    Toml.tokenValue? (signed l.negative (l.whole ++ (point ++ power))) =
      match Toml.integer? (signed l.negative (l.whole ++ (point ++ power))) with
      | some n => some (.integer n)
      | none => (Toml.float? (signed l.negative (l.whole ++ (point ++ power)))).map .float := by
  have ne : ∀ {c : Char} {w : List Char}, c.isDigit = false → c ∉ ['-', '+', '.', 'e', 'E'] → c ∈ w →
      signed l.negative (l.whole ++ (point ++ power)) ≠ w :=
    fun digit other mem same => spelled.not_mem digit other (same ▸ mem)
  rw [Toml.tokenValue?, if_neg (ne (c := 't') (by decide) (by decide) (by decide)),
    if_neg (ne (c := 'f') (by decide) (by decide) (by decide))]
  cases Toml.integer? (signed l.negative (l.whole ++ (point ++ power))) <;> simp only [spelled.dateTime]

end Tokens

/-! ## The number of a literal in both formats -/

section Numbers

open Toml (signed)

variable {l : Literal} {point power : List Char} {w : Toml} {n : JsonNumber}

/-- In JSON an integer of 64 bits with a sign is one, but for `-0`. -/
theorem integer?_of_isWhole (isWhole : l.IsWhole) {m : TomlInt}
    (value : m.1 = if l.negative then -(decimalNumber l.whole : Int) else decimalNumber l.whole) :
    l.integer? =
      if l.negative = true ∧ decimalNumber l.whole = 0 then none
      else some ⟨m.1, by have := m.2; omega⟩ := by
  obtain ⟨low, high⟩ := m.2
  rw [integer?, isWhole.1, isWhole.2]
  cases negative : l.negative with
  | true =>
    rw [negative, if_pos rfl] at value
    simp only [Option.isNone_none, and_self, if_true, true_and]
    by_cases zero : decimalNumber l.whole = 0
    · rw [if_pos zero, dif_neg (by omega)]
    · rw [if_neg zero, dif_pos (by omega)]
      exact congrArg some (Subtype.ext value.symm)
  | false =>
    rw [negative, if_neg Bool.false_ne_true] at value
    simp only [Option.isNone_none, and_self, if_true, Bool.false_eq_true, false_and, if_false]
    rw [dif_pos (by omega)]
    exact congrArg some (Subtype.ext value.symm)

/-- Whole literals stand for the same number in both formats, all but minus zero. -/
theorem same_iff_of_isWhole (spelled : l.Spelled point power) (isWhole : l.IsWhole)
    (json : l.value? = some n)
    (toml : Toml.tokenValue? (signed l.negative (l.whole ++ (point ++ power))) = some w) :
    (Json.number n).same w.toJson = true ↔ ¬ (l.negative = true ∧ decimalNumber l.whole = 0) := by
  rw [spelled.tokenValue?_eq, spelled.integer?_eq, spelled.wholeDigits_of_isWhole isWhole,
    Option.bind_some] at toml
  split at toml
  · next m bounds =>
    cases toml
    rw [value?, integer?_of_isWhole isWhole (ofInt?_val bounds)] at json
    by_cases zero : l.negative = true ∧ decimalNumber l.whole = 0
    · rw [if_pos zero] at json
      obtain ⟨x, -, rfl⟩ := Option.map_eq_some_iff.1 json
      exact iff_of_false Bool.false_ne_true (not_not.2 zero)
    · rw [if_neg zero] at json
      cases json
      refine iff_of_true ?_ zero
      simp [Toml.toJson, same, JsonNumber.same]
  · rw [spelled.float?_eq, spelled.decimal?_eq, isWhole.1, isWhole.2] at toml
    cases toml

/-- Any other literal does if its nearest number is finite and is what JSON arrives at, too. -/
theorem same_iff_of_not_isWhole (spelled : l.Spelled point power) (other : ¬ l.IsWhole)
    (json : l.value? = some n)
    (toml : Toml.tokenValue? (signed l.negative (l.whole ++ (point ++ power))) = some w) :
    (Json.number n).same w.toJson = true ↔
      l.nearest.isFinite = true ∧ l.float?.any (·.same l.nearest) = true := by
  have apart : ¬ (l.fraction.isNone = true ∧ l.exponent.isNone = true) := by
    simpa [IsWhole] using other
  have noInteger : l.integer? = none := by rw [integer?, if_neg apart]
  rw [value?, noInteger] at json
  obtain ⟨x, float, rfl⟩ := Option.map_eq_some_iff.1 json
  rw [spelled.tokenValue?_eq, spelled.integer?_eq, spelled.wholeDigits_of_not_isWhole other,
    Option.bind_none, spelled.float?_eq, spelled.decimal?_eq, if_neg apart, Option.bind_some] at toml
  obtain ⟨y, read, rfl⟩ := Option.map_eq_some_iff.1 toml
  have nearest : y = l.nearest := by
    split at read
    · cases read
    · exact (Option.some.inj read).symm
  rw [nearest, float, Toml.toJson]
  split
  · next finite => simp [same, JsonNumber.same, finite]
  · next infinite => simp [same, infinite]

/-- **Numbers.** Where both formats read a number from a literal, it is the same one exactly if the literal
is read alike. -/
theorem same_iff_readAlike (spelled : l.Spelled point power) (json : l.value? = some n)
    (toml : Toml.tokenValue? (signed l.negative (l.whole ++ (point ++ power))) = some w) :
    (Json.number n).same w.toJson = true ↔ l.ReadAlike := by
  by_cases isWhole : l.IsWhole
  · rw [same_iff_of_isWhole spelled isWhole json toml]
    simp [ReadAlike, isWhole]
  · rw [same_iff_of_not_isWhole spelled isWhole json toml]
    simp [ReadAlike, isWhole]

end Numbers

end Json.Literal

end SessionGrid
