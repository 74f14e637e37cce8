import Mathlib
import SessionGrid.Binary64

/-!
# Arithmetic away from the ends of the range

The sign of a finite number is its first bit alone (`ofFloat_neg`). A finite number that is rounded from a
mantissa and an exponent has an exponent of the size of these (`atMost_round`), so that products
and quotients of numbers with small exponents are finite, in particular a whole number below `2 ^ 53` times or
over a power of ten up to `10 ^ 22` (`isFinite_ofScientific`).
-/

namespace SessionGrid.Binary64

open Float.Model Float.Model.UnpackedFloat

/-! ## Patterns -/

/-- The three components lie side by side in the 64 bits. -/
theorem toNat_packComponents (s : Sign) (e : BitVec 11) (m : BitVec 52) :
    (packComponents .binary64 s e m).toNat = s.toBitVec.toNat * 2 ^ 63 + e.toNat * 2 ^ 52 + m.toNat := by
  have front : (s.toBitVec ++ e).toNat = s.toBitVec.toNat * 2 ^ 11 + e.toNat := by
    rw [BitVec.toNat_append, ← Nat.shiftLeft_add_eq_or_of_lt e.isLt, Nat.shiftLeft_eq]
  have whole : (s.toBitVec ++ e ++ m).toNat = (s.toBitVec ++ e).toNat * 2 ^ 52 + m.toNat := by
    rw [BitVec.toNat_append, ← Nat.shiftLeft_add_eq_or_of_lt m.isLt, Nat.shiftLeft_eq]
  have same : (packComponents .binary64 s e m).toNat = (s.toBitVec ++ e ++ m).toNat := rfl
  rw [same, whole, front]
  omega

/-- A pattern is finite unless all bits of its exponent are set. -/
theorem isFinite_iff_exponent (b : BitVec 64) :
    isFinite ⟨⟨b⟩⟩ = true ↔ (@unpackExponent .binary64 b).toNat < 2047 := by
  have parts := toNat_packComponents (.ofBitVec (@unpackSign .binary64 b))
    (@unpackExponent .binary64 b) (@unpackMantissa .binary64 b)
  rw [packComponents_unpackSign_unpackExponent_unpackMantissa] at parts
  have low := (@unpackMantissa .binary64 b).isLt
  have high := (@unpackExponent .binary64 b).isLt
  have bits : magnitude ⟨⟨b⟩⟩ = b.toNat % 0x8000000000000000 := rfl
  simp only [isFinite, decide_eq_true_eq, bits]
  omega

/-! ## Signs -/

/-- The sign is the first bit and no other. -/
theorem packComponents_neg (s : Sign) (e : BitVec 11) (m : BitVec 52) :
    packComponents .binary64 (-s) e m = packComponents .binary64 s e m ^^^ 0x8000000000000000#64 := by
  have first : (0x8000000000000000#64 : BitVec 64) = 1#1 ++ 0#11 ++ 0#52 := by decide
  have sign : (-s).toBitVec = s.toBitVec ^^^ 1#1 := by cases s <;> rfl
  show (-s).toBitVec ++ e ++ m = (s.toBitVec ++ e ++ m) ^^^ 0x8000000000000000#64
  rw [first, BitVec.xor_append, BitVec.xor_append, BitVec.xor_zero, BitVec.xor_zero, sign]

/-- A change of sign is one of the first bit alone, in all that is a number. -/
theorem pack_neg {f : UnpackedFloat} (number : f ≠ .notANumber) :
    UnpackedFloat.pack .binary64 f.neg = UnpackedFloat.pack .binary64 f ^^^ 0x8000000000000000#64 := by
  cases f with
  | notANumber => exact absurd rfl number
  | infinity s => exact packComponents_neg s _ _
  | zero s => exact packComponents_neg s _ _
  | finite s m e _ =>
    simp only [UnpackedFloat.neg, UnpackedFloat.pack]
    split
    · exact packComponents_neg s _ _
    · split <;> exact packComponents_neg s _ _

/-! ## Exponents -/

/-- Zero, or a finite number with an exponent of at most `k`. -/
def AtMost (k : Int) : UnpackedFloat → Prop
  | .zero _ => True
  | .finite _ _ e _ => e ≤ k
  | _ => False

/-- No mantissa of a packed number has more than 53 bits. -/
theorem mantissa_lt {a : Float.Model} {s : Sign} {m : Nat} {e : Int} {pos : 0 < m}
    (unpacked : a.unpack = .finite s m e pos) : m < 2 ^ 53 := by
  have low := (@unpackMantissa .binary64 a.toBits.toBitVec).isLt
  unfold Float.Model.unpack UnpackedFloat.unpack at unpacked
  dsimp only at unpacked
  split at unpacked
  · split at unpacked <;> cases unpacked
  · split at unpacked
    · split at unpacked
      · cases unpacked
      · cases unpacked
        exact Nat.lt_trans low (by decide)
    · cases unpacked
      exact BitVec.isLt _

/-- The exponent of a pattern that is not all bits is the one of the number. -/
theorem atMost_unpack {b : BitVec 64} {k : Int} (low : -1074 ≤ k) (high : k < 972)
    (exponent : (@unpackExponent .binary64 b).toNat ≤ k + 1075) :
    AtMost k (UnpackedFloat.unpack .binary64 b) := by
  unfold UnpackedFloat.unpack
  dsimp only
  split
  · next all =>
    rw [all] at exponent
    have : (-1#11 : BitVec 11).toNat = 2047 := by decide
    omega
  · split
    · next zero =>
      split
      · trivial
      · rw [zero]
        show ((0 : Nat) : Int) - (1023 + 52) + 1 ≤ k
        omega
    · show ((@unpackExponent .binary64 b).toNat : Int) - (1023 + 52) ≤ k
      omega

/-- Finite numbers have exponents up to 971. -/
theorem atMost_of_isFinite {x : Float} (finite : (ofFloat x).isFinite = true) :
    AtMost 971 x.toModel.unpack := by
  have exponent := (isFinite_iff_exponent x.toModel.toBits.toBitVec).1 finite
  exact atMost_unpack (by decide) (by decide) (by omega)

theorem AtMost.ne_notANumber {f : UnpackedFloat} {k : Int} (atMost : AtMost k f) : f ≠ .notANumber := by
  rintro rfl
  exact atMost

/-- Of a finite number the other sign has the other first bit. -/
theorem ofFloat_neg {x : Float} (finite : (ofFloat x).isFinite = true) : ofFloat (-x) = (ofFloat x).neg := by
  have number := (atMost_of_isFinite finite).ne_notANumber
  have same : UnpackedFloat.pack .binary64 x.toModel.unpack = x.toBits.toBitVec :=
    pack_unpack_of_valid x.toModel.valid
  have flipped : UnpackedFloat.pack .binary64 x.toModel.unpack.neg =
      x.toBits.toBitVec ^^^ 0x8000000000000000#64 := by rw [pack_neg number, same]
  exact congrArg (fun b => Binary64.mk ⟨b⟩) flipped

/-- A change of sign keeps a number finite. -/
theorem isFinite_neg (x : Binary64) : x.neg.isFinite = x.isFinite := by
  obtain ⟨⟨b⟩⟩ := x
  have flipped : (neg ⟨⟨b⟩⟩) = ⟨⟨b ^^^ 0x8000000000000000#64⟩⟩ := rfl
  rw [flipped, Bool.eq_iff_iff, isFinite_iff_exponent, isFinite_iff_exponent,
    ← @packComponents_unpackSign_unpackExponent_unpackMantissa .binary64 b, ← packComponents_neg,
    unpackExponent_packComponents, unpackExponent_packComponents]

theorem isInf_of_isFinite {x : Float} (finite : (ofFloat x).isFinite = true) : x.isInf = false := by
  have atMost := atMost_of_isFinite finite
  show x.toModel.unpack.isInf = false
  cases unpacked : x.toModel.unpack with
  | infinity s =>
    rw [unpacked] at atMost
    exact absurd atMost id
  | _ => rfl

/-- Packing keeps a bound on the exponent. -/
theorem exponent_pack {f : UnpackedFloat} {k : Int} (low : -1074 ≤ k) (high : k < 971)
    (atMost : AtMost k f) :
    (unpackExponent (UnpackedFloat.pack .binary64 f)).toNat ≤ k + 1075 := by
  cases f with
  | notANumber | infinity s => exact absurd atMost id
  | zero s =>
    have packed : UnpackedFloat.pack .binary64 (.zero s) = packComponents .binary64 s 0 0 := rfl
    rw [packed, unpackExponent_packComponents]
    show ((0 : Nat) : Int) ≤ k + 1075
    omega
  | finite s m e pos =>
    have small : e ≤ k := atMost
    simp only [UnpackedFloat.pack]
    have fits : ¬ 2 ^ 11 ≤ (e + (1023 : Nat) + (52 : Nat)).toNat + 1 := by omega
    split
    · next overflow => exact absurd overflow fits
    · split
      · rw [unpackExponent_packComponents, BitVec.toNat_ofNat]
        show (((e + (1023 : Nat) + (52 : Nat)).toNat % 2 ^ 11 : Nat) : Int) ≤ k + 1075
        omega
      · rw [unpackExponent_packComponents]
        show ((0 : Nat) : Int) ≤ k + 1075
        omega

/-- A packed number has the exponent that it had. -/
theorem atMost_unpack_pack {f : UnpackedFloat} {k : Int} (low : -1074 ≤ k) (high : k < 971)
    (atMost : AtMost k f) : AtMost k (Float.Model.pack f).unpack :=
  atMost_unpack low (by omega) (exponent_pack low high atMost)

/-- A number whose exponent is within bounds is packed as a finite one. -/
theorem isFinite_pack {f : UnpackedFloat} {k : Int} (low : -1074 ≤ k) (high : k < 971)
    (atMost : AtMost k f) : isFinite ⟨(Float.Model.pack f).toBits⟩ = true := by
  have exponent := exponent_pack low high atMost
  refine (isFinite_iff_exponent _).2 ?_
  omega

/-! ## Rounding -/

theorem mantissa_shiftRight (em : ExtendedMantissa) (k : Nat) :
    (em >>> k).mantissa = em.mantissa / 2 ^ k := by
  induction k with
  | zero =>
    show em.mantissa = em.mantissa / 1
    rw [Nat.div_one]
  | succ k ih =>
    show (em >>> k).mantissa / 2 = em.mantissa / 2 ^ (k + 1)
    rw [ih, Nat.div_div_eq_div_mul, Nat.pow_succ]

/-- Rounding adds one to the mantissa at most. -/
theorem roundedMantissa_le (em : ExtendedMantissa) : em.roundedMantissa ≤ em.mantissa + 1 := by
  obtain ⟨m, round, sticky⟩ := em
  cases round <;> cases sticky <;>
    simp only [ExtendedMantissa.roundedMantissa, ExtendedMantissa.accuracy, Accuracy.roundToNearestEven] <;> omega

/-- A shift goes to the exponent at which 53 bits are left, and never down. -/
theorem shift_exponent (m : Nat) (e : Int) (acc : Accuracy) :
    (shiftToTargetExponent .binary64 m e acc).2 = max e (max ((m.log2 : Int) + e - 52) (-1074)) := by
  show e + (((max ((m.log2 : Int) + 1 + e - 53) (-1074)) - e).toNat : Int) = _
  omega

/-- A shift drops the bits below its exponent. -/
theorem shift_mantissa (m : Nat) (e : Int) (acc : Accuracy) :
    (shiftToTargetExponent .binary64 m e acc).1.mantissa =
      m / 2 ^ ((shiftToTargetExponent .binary64 m e acc).2 - e).toNat := by
  have kept : (ExtendedMantissa.ofMantissaAndAccuracy m acc).mantissa = m := by
    obtain _ | _ | _ | _ := acc <;> rfl
  have amount : (shiftToTargetExponent .binary64 m e acc).2 - e =
      ((max ((m.log2 : Int) + 1 + e - 53) (-1074)) - e).toNat := by
    rw [shift_exponent]
    omega
  rw [amount, Int.toNat_natCast]
  refine (mantissa_shiftRight (.ofMantissaAndAccuracy m acc) _).trans ?_
  rw [kept]
  rfl

theorem log2_le_of_lt {m a : Nat} (below : m < 2 ^ (a + 1)) : m.log2 ≤ a := by
  by_cases zero : m = 0
  · rw [zero]
    exact Nat.zero_le a
  · exact Nat.le_of_lt_succ ((Nat.log2_lt zero).2 below)

/-- Rounding makes what is left of a mantissa longer by one bit at most. -/
theorem atMost_round {s : Sign} {m a : Nat} {e k : Int} {acc : Accuracy} (below : m < 2 ^ a) (small : e ≤ k)
    (length : a + e ≤ k + 52) (low : -1074 ≤ k) :
    AtMost k (roundWithAccuracy .binary64 s m e acc) := by
  have exponent := shift_exponent m e acc
  have mantissa := shift_mantissa m e acc
  unfold roundWithAccuracy
  cases first : shiftToTargetExponent .binary64 m e acc with
  | mk em e₁ =>
    rw [first] at exponent mantissa
    dsimp only at exponent mantissa ⊢
    have exponent' := shift_exponent em.roundedMantissa e₁ .exact
    have long : m.log2 ≤ a := log2_le_of_lt (Nat.lt_trans below (Nat.pow_lt_pow_succ (by decide)))
    have left : em.mantissa < 2 ^ (a - (e₁ - e).toNat) := by
      rw [mantissa, Nat.div_lt_iff_lt_mul (Nat.two_pow_pos _), ← Nat.pow_add]
      exact Nat.lt_of_lt_of_le below (Nat.pow_le_pow_right (by decide) (by omega))
    have rounded : em.roundedMantissa.log2 ≤ a - (e₁ - e).toNat := by
      apply log2_le_of_lt
      have grown := roundedMantissa_le em
      rw [Nat.pow_succ]
      omega
    split
    · trivial
    · show (shiftToTargetExponent .binary64 em.roundedMantissa e₁ .exact).2 ≤ k
      rw [exponent']
      omega

/-! ## Products and quotients -/

section Operations

variable {a b : Float.Model} {i j k : Int}

/-- **Products.** The exponents add up, and the mantissas add 54 at most. -/
theorem atMost_mul (first : AtMost i a.unpack) (second : AtMost j b.unpack) (sum : i + j + 54 ≤ k)
    (low : -1074 ≤ k) : AtMost k (UnpackedFloat.mul .binary64 a.unpack b.unpack) := by
  cases left : a.unpack with
  | notANumber | infinity s =>
    rw [left] at first
    exact absurd first id
  | zero s =>
    cases right : b.unpack with
    | notANumber | infinity s =>
      rw [right] at second
      exact absurd second id
    | zero s => trivial
    | finite s n f pos => trivial
  | finite s m e pos =>
    cases right : b.unpack with
    | notANumber | infinity s =>
      rw [right] at second
      exact absurd second id
    | zero s => trivial
    | finite s' n f pos' =>
      rw [left] at first
      rw [right] at second
      have first : e ≤ i := first
      have second : f ≤ j := second
      have below : m * n < 2 ^ 53 * 2 ^ 53 := Nat.mul_lt_mul'' (mantissa_lt left) (mantissa_lt right)
      rw [← Nat.pow_add] at below
      exact atMost_round below (by omega) (by omega) low

/-- A finite number other than zero, with an exponent of at least `k`. -/
def AtLeast (k : Int) : UnpackedFloat → Prop
  | .finite _ _ e _ => k ≤ e
  | _ => False

/-- Of a quotient of mantissas as many bits are made as the mantissa above is moved by. -/
theorem exists_divCore {m : Nat} {f : Int} (below : m < 2 ^ 53) (e : Int) (n : Nat) :
    ∃ p t acc, ∃ l : Nat, divCore .binary64 m e n f = (p, t, acc) ∧ p < 2 ^ (53 + l) ∧ t = e - f - l := by
  refine ⟨_, _, _, (e - f - min (e - f)
    (Format.binary64.targetExponent (totalExponent m e - totalExponent n f))).toNat, rfl, ?_, ?_⟩
  · refine Nat.lt_of_le_of_lt (Nat.div_le_self _ n) ?_
    rw [Nat.shiftLeft_eq, Nat.pow_add]
    exact Nat.mul_lt_mul_of_pos_right below (Nat.two_pow_pos _)
  · omega

/-- **Quotients.** The exponents are subtracted. -/
theorem atMost_div (first : AtMost i a.unpack) (second : AtLeast j b.unpack) (difference : i + 1 ≤ j + k)
    (low : -1074 ≤ k) : AtMost k (UnpackedFloat.div .binary64 a.unpack b.unpack) := by
  cases right : b.unpack with
  | notANumber | infinity s | zero s =>
    rw [right] at second
    exact absurd second id
  | finite s' n f pos' =>
    cases left : a.unpack with
    | notANumber | infinity s =>
      rw [left] at first
      exact absurd first id
    | zero s => trivial
    | finite s m e pos =>
      rw [left] at first
      rw [right] at second
      have first : e ≤ i := first
      have second : j ≤ f := second
      obtain ⟨p, t, acc, l, core, below, exponent⟩ := exists_divCore (f := f) (mantissa_lt left) e n
      simp only [UnpackedFloat.div, core]
      exact atMost_round below (by omega) (by omega) low

end Operations

/-! ## Whole numbers and powers of ten -/

/-- A whole number below `2 ^ 53` has a small exponent. -/
theorem atMost_ofUInt64 {n : UInt64} (small : n.toNat < 2 ^ 53) :
    AtMost 1 (UnpackedFloat.ofUInt64 .binary64 n) := by
  unfold UnpackedFloat.ofUInt64 UnpackedFloat.ofNat UnpackedFloat.ofInt UnpackedFloat.normalize
  split
  · next negative =>
    have := Int.compare_eq_lt.1 negative
    omega
  · trivial
  · simp only [UnpackedFloat.round, decreaseExponent, Int.toNat_natCast]
    generalize (0 - Format.binary64.targetExponent (totalExponent n.toNat 0)).toNat = l
    have below : n.toNat <<< l < 2 ^ (53 + l) := by
      rw [Nat.shiftLeft_eq, Nat.pow_add]
      exact Nat.mul_lt_mul_of_pos_right small (Nat.two_pow_pos _)
    exact atMost_round (a := 53 + l) below (by omega) (by omega) (by decide)

theorem atMost_toFloat {n : UInt64} (small : n.toNat < 2 ^ 53) : AtMost 1 n.toFloat.toModel.unpack :=
  atMost_unpack_pack (by decide) (by decide) (atMost_ofUInt64 small)

instance (k : Int) (f : UnpackedFloat) : Decidable (AtMost k f) :=
  match f with
  | .zero _ => .isTrue trivial
  | .finite _ _ e _ => inferInstanceAs (Decidable (e ≤ k))
  | .infinity _ | .notANumber => .isFalse id

instance (k : Int) (f : UnpackedFloat) : Decidable (AtLeast k f) :=
  match f with
  | .finite _ _ e _ => inferInstanceAs (Decidable (k ≤ e))
  | .zero _ | .infinity _ | .notANumber => .isFalse id

/-- Powers of ten up to the 22nd are represented exactly. -/
theorem lt_powersOfTen {e : Nat} (fits : e ≤ 22) : e < Float.exactlyRepresentablePowersOfTen.size :=
  Nat.lt_succ_of_le fits

/-- The powers of ten that are exact have small exponents. -/
theorem exponent_powersOfTen : ∀ (e : Nat) (_ : e < Float.exactlyRepresentablePowersOfTen.size),
    AtMost 21 Float.exactlyRepresentablePowersOfTen[e].toModel.unpack ∧
      AtLeast (-52) Float.exactlyRepresentablePowersOfTen[e].toModel.unpack := by
  decide +kernel

/-- A whole number below `2 ^ 53` times or over a power of ten up to `10 ^ 22` is finite. -/
theorem isFinite_ofScientific {n e : Nat} (small : n < 2 ^ 53) (fits : e ≤ 22) (divided : Bool) :
    (ofFloat (Float.ofScientific n divided e)).isFinite = true := by
  obtain ⟨high, low⟩ := exponent_powersOfTen e (lt_powersOfTen fits)
  have whole : AtMost 1 n.toUInt64.toFloat.toModel.unpack := by
    apply atMost_toFloat
    rw [Nat.toUInt64_eq, UInt64.toNat_ofNat']
    omega
  unfold Float.ofScientific
  rw [dif_pos ⟨small, fits⟩]
  cases divided with
  | true =>
    exact isFinite_pack (k := 76) (by decide) (by decide) (atMost_div whole low (by decide) (by decide))
  | false =>
    exact isFinite_pack (k := 76) (by decide) (by decide) (atMost_mul whole high (by decide) (by decide))

end SessionGrid.Binary64
