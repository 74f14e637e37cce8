import SessionGrid.Proofs.Toml.Key
import SessionGrid.Toml.Printer
import SessionGrid.Toml.Reader

/-!
# Numbers and truth values are read back

A number is written as digits and points behind a sign, if it has one. Such a token is no date and no
time, for want of a second sign and of a colon. Without a point it is the integer that it was written
for (`integer?_writeInt`); with a point it is no integer (`Numeral.integer?_of_point`), so that what
float it stands for decides. `readToken_of_tokenValue?` takes a token off the front of what is to be
read.
-/

namespace SessionGrid.Toml

open Text

/-! ## Numerals -/

/-- Digits and points, at least one of them. -/
structure Numeral (body : List Char) : Prop where
  ne_nil : body ≠ []
  digits : ∀ c ∈ body, c.isDigit = true ∨ c = '.'

/-- Behind a minus sign or none. -/
def signed (negative : Bool) (body : List Char) : List Char :=
  if negative then '-' :: body else body

section Numerals

variable {negative : Bool} {body : List Char}

/-- Digits and points are all that a numeral has. -/
theorem Numeral.not_mem (n : Numeral body) {c : Char} (digit : c.isDigit = false) (point : c ≠ '.') :
    c ∉ body := by
  intro mem
  rcases n.digits c mem with own | own
  · rw [digit] at own
    cases own
  · exact point own

/-- A sign in front adds only itself. -/
theorem Numeral.not_mem_signed (n : Numeral body) {c : Char} (digit : c.isDigit = false)
    (point : c ≠ '.') (sign : c ≠ '-') : c ∉ signed negative body := by
  unfold signed
  split
  · simp [sign, n.not_mem digit point]
  · exact n.not_mem digit point

/-- A numeral is one token, which nothing inside it ends. -/
theorem Numeral.tokenChars (n : Numeral body) :
    ∀ c ∈ signed negative body, isTokenChar c = true := by
  intro c mem
  have either : c = '-' ∨ c.isDigit = true ∨ c = '.' := by
    unfold signed at mem
    split at mem
    · exact (List.mem_cons.1 mem).imp_right (n.digits c)
    · exact .inr (n.digits c mem)
  rcases either with rfl | digit | rfl
  · decide
  · simp [isTokenChar, isBare, Char.isAlphanum, digit]
  · decide

/-- There is no date without a hyphen. -/
theorem readDate_of_not_mem {cs : List Char} (absent : '-' ∉ cs) : DateTime.readDate cs = none := by
  unfold DateTime.readDate
  split
  · simp at absent
  · rfl

/-- The sign stands where a date has its first digit. -/
theorem Numeral.readDate (n : Numeral body) : DateTime.readDate (signed negative body) = none := by
  cases negative with
  | true =>
    unfold signed DateTime.readDate
    split
    · next same =>
      cases same
      rfl
    · rfl
  | false => exact readDate_of_not_mem (n.not_mem (by decide) (by decide))

/-- A word whose first character does not occur is not read. -/
theorem word_of_not_mem {w : Char} {ws cs : List Char} (absent : w ∉ cs) :
    Reader.word (w :: ws) cs = none := by
  cases cs with
  | nil => rfl
  | cons c cs =>
    have ne : w ≠ c := fun same => absent (same ▸ List.mem_cons_self)
    rw [Reader.word, if_neg ne]

theorem readTime_of_not_mem {cs : List Char} (absent : ':' ∉ cs) : DateTime.readTime cs = none := by
  have minutes : DateTime.readMinutes cs = none := by
    match cs with
    | [] | [_] => rfl
    | a :: b :: cs =>
      have colon : Reader.word [':'] cs = none := by
        apply word_of_not_mem
        intro mem
        exact absent (List.mem_cons_of_mem a (List.mem_cons_of_mem b mem))
      simp only [DateTime.readMinutes, DateTime.twoDigits]
      split
      · simp [colon]
      · rfl
  rw [DateTime.readTime, minutes]
  rfl

/-- A numeral is no date and no time: it has no colon, and a hyphen only in front. -/
theorem Numeral.dateTime (n : Numeral body) : DateTime.read? (signed negative body) = none := by
  have absent : ':' ∉ signed negative body :=
    n.not_mem_signed (by decide) (by decide) (by decide)
  rw [DateTime.read?, n.readDate, readTime_of_not_mem absent]

end Numerals

/-! ## Digits -/

section Digits

theorem numeral_decimalDigits (n : Nat) : Numeral (decimalDigits n) where
  ne_nil := Nat.toDigits_ne_nil
  digits _ mem := .inl (isDigit_of_mem_decimalDigits mem)

/-- A character that no underscore follows is taken by itself. -/
theorem ungroup_cons {isDigit : Char → Bool} {c d : Char} (ne : d ≠ '_') (cs : List Char) :
    ungroup isDigit (c :: d :: cs) =
      if isDigit c then (ungroup isDigit (d :: cs)).map (c :: ·) else none := by
  rw [ungroup]
  exact ne

/-- Digits without underscores are a group as they are. -/
theorem ungroup_of_digits {ds : List Char} (some : ds ≠ []) (all : ∀ c ∈ ds, c.isDigit = true) :
    ungroup Char.isDigit ds = .some ds := by
  match ds with
  | [c] => simp [ungroup, all c]
  | c :: d :: ds =>
    have rest : ungroup Char.isDigit (d :: ds) = .some (d :: ds) :=
      ungroup_of_digits nofun fun e mem => all e (List.mem_cons_of_mem c mem)
    have ne : d ≠ '_' := by
      rintro rfl
      have own := all '_' (by simp)
      revert own
      decide
    rw [ungroup_cons ne, if_pos (all c List.mem_cons_self), rest]
    rfl

/-- Written digits have no zero in front, so they are those of a whole number. -/
theorem wholeDigits_decimalDigits (n : Nat) :
    wholeDigits (decimalDigits n) = some (decimalDigits n) := by
  have digits : ∀ c ∈ decimalDigits n, c.isDigit = true := fun _ => isDigit_of_mem_decimalDigits
  rw [wholeDigits, ungroup_of_digits (numeral_decimalDigits n).ne_nil digits]
  split
  · next same =>
    -- Only a number without digits of its own could start with this zero.
    have text := Option.some.inj same
    cases n with
    | zero => simp [decimalDigits, Nat.toDigits_zero] at text
    | succ n => exact absurd (congrArg List.head? text) (toDigits_head n.succ_pos)
  · rfl

/-- One character that is neither digit nor underscore spoils the group. -/
theorem ungroup_of_mem {isDigit : Char → Bool} {cs : List Char} {c : Char} (mem : c ∈ cs)
    (digit : isDigit c = false) (underscore : c ≠ '_') : ungroup isDigit cs = none := by
  fun_induction ungroup isDigit cs with
  | case1 => rfl
  | case2 d own =>
    rw [List.mem_singleton.1 mem, own] at digit
    cases digit
  | case3 => rfl
  | case4 d cs own ih =>
    have other : c ≠ d := fun same => absurd (same ▸ own) (Bool.eq_false_iff.1 digit)
    rw [ih (((List.mem_cons.1 mem).resolve_left other |> List.mem_cons.1).resolve_left underscore)]
    rfl
  | case5 => rfl
  | case6 d e cs ne own ih =>
    have other : c ≠ d := fun same => absurd (same ▸ own) (Bool.eq_false_iff.1 digit)
    rw [ih ((List.mem_cons.1 mem).resolve_left other)]
    rfl
  | case7 => rfl

end Digits

/-! ## Integers -/

section Integers

variable {negative : Bool} {body : List Char}

/-- The sign is taken off a numeral as it was put in front. -/
theorem Numeral.splitSign_eq (n : Numeral body) :
    splitSign (signed negative body) = (negative, body) := by
  cases negative with
  | true => rfl
  | false =>
    have minus : '-' ∉ body := n.not_mem (by decide) (by decide)
    have plus : '+' ∉ body := n.not_mem (by decide) (by decide)
    unfold signed splitSign
    split
    · simp_all
    · simp_all
    · rfl

/-- A numeral is never in base 16, 8 or 2. -/
theorem Numeral.integer?_eq (n : Numeral body) :
    integer? (signed negative body) = (wholeDigits body).bind fun ds =>
      ofInt? (if negative then -(decimalNumber ds : Int) else decimalNumber ds) := by
  have letter : ∀ {c : Char}, c.isDigit = false → c ≠ '.' → c ≠ '-' →
      c ∉ signed negative body := n.not_mem_signed
  unfold integer?
  split
  · next same => exact absurd (same ▸ by simp) (letter (c := 'x') (by decide) (by decide) (by decide))
  · next same => exact absurd (same ▸ by simp) (letter (c := 'o') (by decide) (by decide) (by decide))
  · next same => exact absurd (same ▸ by simp) (letter (c := 'b') (by decide) (by decide) (by decide))
  · rw [n.splitSign_eq]
    rfl

/-- An integer is written as its sign and the digits of its absolute value. -/
theorem writeInt_eq (n : Int) : writeInt n = signed (decide (n < 0)) (decimalDigits n.natAbs) := by
  unfold writeInt signed
  split <;> simp_all

/-- **Integers.** Every integer of the format is read back, the least one included. -/
theorem integer?_writeInt (n : TomlInt) : integer? (writeInt n.1) = some n := by
  have value : (if decide (n.1 < 0) then -(n.1.natAbs : Int) else n.1.natAbs) = n.1 := by
    by_cases below : n.1 < 0
    · rw [if_pos (decide_eq_true below)]
      omega
    · rw [if_neg (by simpa using below)]
      omega
  rw [writeInt_eq, (numeral_decimalDigits _).integer?_eq, wholeDigits_decimalDigits, Option.bind_some]
  have number : decimalNumber (decimalDigits n.1.natAbs) = n.1.natAbs :=
    Nat.ofDigitChars_ten_toDigits
  rw [number, value, ofInt?, dif_pos n.2]

/-- A point makes a numeral something else than an integer. -/
theorem Numeral.integer?_of_point (n : Numeral body) (point : '.' ∈ body) :
    integer? (signed negative body) = none := by
  rw [n.integer?_eq, wholeDigits, ungroup_of_mem point (by decide) (by decide)]
  rfl

end Integers

/-! ## Floats -/

section Floats

variable {x : Binary64}

/-- Digits on both sides of a point. -/
def Pointed (body : List Char) : Prop :=
  ∃ whole fraction, body = whole ++ '.' :: fraction ∧
    (∀ c ∈ whole, c.isDigit = true) ∧ ∀ c ∈ fraction, c.isDigit = true

theorem Pointed.mem {body : List Char} (p : Pointed body) : '.' ∈ body := by
  obtain ⟨whole, fraction, rfl, -, -⟩ := p
  exact List.mem_append_right whole List.mem_cons_self

/-- Digits on both sides of a point make a numeral. -/
theorem Pointed.numeral {body : List Char} (p : Pointed body) : Numeral body := by
  obtain ⟨whole, fraction, rfl, digits, digits'⟩ := p
  refine ⟨by simp, fun c mem => ?_⟩
  rcases List.mem_append.1 mem with before | behind
  · exact .inl (digits c before)
  · exact (List.mem_cons.1 behind).symm.imp_left (digits' c)

/-- Digits set out by position have a point among them, with digits on both sides. -/
theorem pointed_positional {d : Shortest} (digits : ∀ c ∈ d.digits, c.isDigit = true) :
    Pointed d.positional := by
  have padded : ∀ k, ∀ c ∈ List.replicate k '0' ++ d.digits, c.isDigit = true := by
    intro k c mem
    exact (List.mem_append.1 mem).elim isDigit_of_mem_zeros (digits c)
  unfold Shortest.positional
  dsimp only
  split
  · exact ⟨['0'], _, rfl, isDigit_of_mem_zero, padded _⟩
  · split
    · refine ⟨_, ['0'], rfl, fun c mem => ?_, isDigit_of_mem_zero⟩
      exact (List.mem_append.1 mem).elim (digits c) isDigit_of_mem_zeros
    · exact ⟨_, _, rfl, fun c mem => digits c (List.mem_of_mem_take mem),
        fun c mem => digits c (List.mem_of_mem_drop mem)⟩

/-- A finite float is written as its sign and digits with a point. -/
theorem writeFloat_eq (finite : x.isFinite = true) :
    ∃ body, writeFloat x = signed x.isNegative body ∧ Pointed body := by
  refine ⟨if x.isZero then ['0', '.', '0'] else (x.shortest floatStyle.tie).positional, ?_, ?_⟩
  · rw [writeFloat, if_pos finite, FloatStyle.write, signed]
    cases x.isNegative <;> rfl
  · split
    · exact ⟨['0'], ['0'], rfl, isDigit_of_mem_zero, isDigit_of_mem_zero⟩
    · exact pointed_positional fun c => isDigit_of_mem_shortest

end Floats

/-! ## Tokens -/

section Tokens

variable {token rest : List Char} {v : Toml}

/-- A numeral is an integer if it can be read as one, and a float otherwise. -/
theorem Numeral.tokenValue?_eq {negative : Bool} {body : List Char} (n : Numeral body) :
    tokenValue? (signed negative body) =
      match integer? (signed negative body) with
      | some n => some (.integer n)
      | none => (float? (signed negative body)).map .float := by
  have letter : 'e' ∉ signed negative body := n.not_mem_signed (by decide) (by decide) (by decide)
  have ne : ∀ w, 'e' ∈ w → signed negative body ≠ w := fun w mem same => letter (same ▸ mem)
  rw [tokenValue?, if_neg (ne _ (by decide)), if_neg (ne _ (by decide))]
  cases integer? (signed negative body) <;> simp only [n.dateTime]

/-- A token that is no date is taken off alone. -/
theorem readToken_append (chars : ∀ c ∈ token, isTokenChar c = true)
    (ends : ∀ c ∈ rest.head?, isTokenChar c = false) (date : DateTime.readDate token = none) :
    readToken (token ++ rest) = (tokenValue? token).map (·, rest) := by
  simp only [readToken, span_append chars ends, date]

/-- A token is read up to the first character of another kind. -/
theorem readToken_of_tokenValue? (chars : ∀ c ∈ token, isTokenChar c = true)
    (ends : ∀ c ∈ rest.head?, isTokenChar c = false) (date : DateTime.readDate token = none)
    (value : tokenValue? token = some v) : readToken (token ++ rest) = some (v, rest) := by
  rw [readToken_append chars ends date, value, Option.map_some]

/-- An integer is read back in front of what cannot belong to it. -/
theorem readToken_writeInt (n : TomlInt) (ends : ∀ c ∈ rest.head?, isTokenChar c = false) :
    readToken (writeInt n.1 ++ rest) = some (.integer n, rest) := by
  have numeral := numeral_decimalDigits n.1.natAbs
  have value : tokenValue? (writeInt n.1) = some (.integer n) := by
    rw [writeInt_eq, numeral.tokenValue?_eq, ← writeInt_eq, integer?_writeInt]
  rw [writeInt_eq] at value ⊢
  exact readToken_of_tokenValue? numeral.tokenChars ends numeral.readDate value

/-- A float is read back in front of what cannot belong to it, if its text gives it back. -/
theorem readToken_writeFloat {x : Binary64} (finite : x.isFinite = true)
    (exact : float? (writeFloat x) = some x) (ends : ∀ c ∈ rest.head?, isTokenChar c = false) :
    readToken (writeFloat x ++ rest) = some (.float x, rest) := by
  obtain ⟨body, text, pointed⟩ := writeFloat_eq finite
  rw [text] at exact ⊢
  have value : tokenValue? (signed x.isNegative body) = some (.float x) := by
    rw [pointed.numeral.tokenValue?_eq, pointed.numeral.integer?_of_point pointed.mem, exact]
    rfl
  exact readToken_of_tokenValue? pointed.numeral.tokenChars ends pointed.numeral.readDate value

theorem readToken_true (ends : ∀ c ∈ rest.head?, isTokenChar c = false) :
    readToken (['t', 'r', 'u', 'e'] ++ rest) = some (.bool true, rest) :=
  readToken_of_tokenValue? (List.all_eq_true.1 (by decide)) ends (by decide) rfl

theorem readToken_false (ends : ∀ c ∈ rest.head?, isTokenChar c = false) :
    readToken (['f', 'a', 'l', 's', 'e'] ++ rest) = some (.bool false, rest) :=
  readToken_of_tokenValue? (List.all_eq_true.1 (by decide)) ends (by decide) rfl

end Tokens

end SessionGrid.Toml
