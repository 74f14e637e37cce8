import SessionGrid.Proofs.Capabilities.NormalForm
import SessionGrid.Proofs.Literals.Number
import SessionGrid.Proofs.Rounding

/-!
# Literals that are rounded once

A whole number below `2 ^ 53` and a power of ten up to `10 ^ 22` are binary64 numbers themselves, so that their
product and their quotient are rounded once. So JSON finds the nearest number of a literal whose digits make
such a number and whose power of ten is one of these (`Short.float?_eq`), and both formats read it alike
(`Plain.readAlike`).
-/

namespace SessionGrid

open Text

namespace Json.Literal

/-- The digits on both sides of the point as one whole number. -/
def significand (l : Literal) : Nat :=
  decimalNumber (l.whole ++ l.fraction.getD [])

/-- The power of ten that the last digit counts. -/
def scale (l : Literal) : Int :=
  l.power - (l.fraction.getD []).length

/-- The literal without its sign, rounded once. -/
def rounded (l : Literal) : Float :=
  Float.ofScientific l.significand (decide (l.scale < 0)) l.scale.natAbs

/-- A whole number below `2 ^ 53`, times or over a power of ten up to `10 ^ 22`. -/
structure Short (l : Literal) : Prop where
  significand : l.significand < 2 ^ 53
  scale : l.scale.natAbs ≤ 22

/-- An integer other than `-0`, or a literal that is rounded once. -/
def Plain (l : Literal) : Prop :=
  (l.IsWhole → ¬ (l.negative = true ∧ decimalNumber l.whole = 0)) ∧ (¬ l.IsWhole → l.Short)

/-! ## Reading the digits -/

theorem le_ofDigitChars (ds : List Char) (n : Nat) : n ≤ Nat.ofDigitChars 10 ds n := by
  induction ds generalizing n with
  | nil => exact Nat.le_refl n
  | cons c ds ih =>
    rw [Nat.ofDigitChars_cons]
    exact Nat.le_trans (by omega) (ih _)

/-- Digits of a number that fits 64 bits are all made use of. -/
theorem absorb_eq {n : Nat} {ds : List Char} (fits : Nat.ofDigitChars 10 ds n < 2 ^ 64) :
    absorb n ds = (Nat.ofDigitChars 10 ds n, []) := by
  induction ds generalizing n with
  | nil => rfl
  | cons c ds ih =>
    rw [Nat.ofDigitChars_cons] at fits ⊢
    have below := Nat.lt_of_le_of_lt (le_ofDigitChars ds _) fits
    rw [absorb]
    exact (if_pos below).trans (ih fits)

/-! ## One step -/

theorem powerOfTen_eq : ∀ (e : Nat) (_ : e < Float.exactlyRepresentablePowersOfTen.size),
    powerOfTen e = Float.exactlyRepresentablePowersOfTen[e] := by
  decide +kernel

/-- Scaled by a small power of ten, a small number is rounded once. -/
theorem scale?_eq {n : Nat} {e : Int} (small : n < 2 ^ 53) (fits : e.natAbs ≤ 22) :
    scale? n e = some (Float.ofScientific n (decide (e < 0)) e.natAbs) := by
  have steps : e.natAbs / 308 + 1 = 0 + 1 := by omega
  have near : e.natAbs ≤ 308 := by omega
  rw [scale?, steps, scaleFrom, if_pos near, powerOfTen_eq _ (Binary64.lt_powersOfTen fits)]
  have finite := Binary64.isFinite_ofScientific small fits (decide (e < 0))
  unfold Float.ofScientific at finite ⊢
  rw [dif_pos ⟨small, fits⟩] at finite ⊢
  by_cases negative : e < 0
  · rw [if_neg (by omega), decide_eq_true negative]
    rfl
  · rw [decide_eq_false negative] at finite ⊢
    have bounded := Binary64.isInf_of_isFinite finite
    rw [if_pos (by omega)]
    exact if_neg (Bool.eq_false_iff.1 bounded)

section Short

variable {l : Literal}

/-- All digits of a short literal are made use of. -/
theorem Short.float?_eq (short : l.Short) :
    l.float? = some (.ofFloat (if l.negative then -l.rounded else l.rounded)) := by
  have fits : l.significand < 2 ^ 64 := Nat.lt_trans short.significand (by decide)
  have split : l.significand = Nat.ofDigitChars 10 (l.fraction.getD []) (decimalNumber l.whole) :=
    Nat.ofDigitChars_append 0
  have whole : absorb 0 l.whole = (decimalNumber l.whole, []) :=
    absorb_eq (Nat.lt_of_le_of_lt (split ▸ le_ofDigitChars _ _) fits)
  have fraction : absorb (decimalNumber l.whole) (l.fraction.getD []) = (l.significand, []) := by
    rw [split]
    exact absorb_eq (split ▸ fits)
  have read : l.float? =
      (scale? l.significand ((0 : Nat) - ((l.fraction.getD []).length - (0 : Nat)) + l.power)).map
        fun x => .ofFloat (if l.negative then -x else x) := by
    simp only [float?, whole, fraction]
    rfl
  have shift : ((0 : Nat) : Int) - ((l.fraction.getD []).length - (0 : Nat)) + l.power = l.scale := by
    unfold Literal.scale
    omega
  rw [read, shift, scale?_eq short.significand short.scale, Option.map_some, rounded]

/-- Of zero, nothing is left to be rounded. -/
theorem ofScientific_zero : ∀ (e : Nat) (_ : e < 23) (divided : Bool),
    Binary64.ofFloat (Float.ofScientific 0 divided e) = ⟨0⟩ := by
  decide +kernel

/-- The nearest number is the same. -/
theorem Short.nearest_eq (short : l.Short) :
    l.nearest = if l.negative then (Binary64.ofFloat l.rounded).neg else .ofFloat l.rounded := by
  have size : Toml.nearest (l.whole ++ l.fraction.getD []) l.scale = .ofFloat l.rounded := by
    have near := short.scale
    unfold Toml.nearest
    by_cases zero : l.significand = 0
    · have zero' : decimalNumber (l.whole ++ l.fraction.getD []) = 0 := zero
      rw [if_pos (.inl zero'), rounded, zero, ofScientific_zero _ (by omega)]
    · rw [if_neg, if_neg (by omega), rounded]
      · by_cases negative : l.scale < 0
        · rw [if_neg (by omega), decide_eq_true negative]
          rfl
        · rw [if_pos (by omega), decide_eq_false negative]
          rfl
      · rintro (none | far)
        · exact zero none
        · omega
  rw [nearest, ← size]
  rfl

/-- JSON finds the nearest number, and it is finite. -/
theorem Short.readAlike (short : l.Short) :
    l.nearest.isFinite = true ∧ l.float?.any (·.same l.nearest) = true := by
  have finite : (Binary64.ofFloat l.rounded).isFinite = true :=
    Binary64.isFinite_ofScientific short.significand short.scale _
  have bounded : l.nearest.isFinite = true := by
    rw [short.nearest_eq]
    split
    · rw [Binary64.isFinite_neg, finite]
    · exact finite
  have found : l.float? = some l.nearest := by
    rw [short.float?_eq, short.nearest_eq]
    split
    · rw [Binary64.ofFloat_neg finite]
    · rfl
  refine ⟨bounded, ?_⟩
  rw [found, Option.any_some]
  exact Binary64.same_iff.2 ⟨Binary64.isNaN_of_isFinite bounded, .inl rfl⟩

/-- **Short literals.** Integers other than `-0` and literals that are rounded once are read alike. -/
theorem Plain.readAlike (plain : l.Plain) : l.ReadAlike :=
  ⟨plain.1, fun other => (plain.2 other).readAlike⟩

end Short

end Json.Literal

end SessionGrid
