import Mathlib.Algebra.Order.Field.Rat
import Mathlib.Data.Rat.Cast.Defs
import Mathlib.Tactic.NormNum

/-!
The 128-bit decimal format with a binary coefficient: a sign, a biased exponent of 14 bits and a
coefficient of 113 bits. A canonical pattern has a coefficient of at most 34 digits.
-/

namespace Encoding.Decimal128

variable {bits : BitVec 128} {isNegative : Bool} {biased digits : ℕ}

def negative (bits : BitVec 128) : Bool := bits.msb

def exponent (bits : BitVec 128) : ℕ := (bits.extractLsb' 113 14).toNat

def coefficient (bits : BitVec 128) : ℕ := (bits.extractLsb' 0 113).toNat

/-- A finite number in the form whose exponent field starts below the two ones of the others. -/
structure Canonical (bits : BitVec 128) : Prop where
  exponent : exponent bits < 3 * 2 ^ 12
  coefficient : coefficient bits < 10 ^ 34

/-- The exact number that a pattern denotes. -/
def value (bits : BitVec 128) : ℚ :=
  (if negative bits then -1 else 1) * coefficient bits * 10 ^ ((exponent bits : ℤ) - 6176)

/-- A pattern from its fields. -/
def pack (isNegative : Bool) (biased digits : ℕ) : BitVec 128 :=
  ((BitVec.ofBool isNegative).setWidth 128 <<< 127) ||| (BitVec.ofNat 128 biased <<< 113) |||
    BitVec.ofNat 128 digits

theorem exponent_eq (bits : BitVec 128) : exponent bits = bits.toNat / 2 ^ 113 % 2 ^ 14 := by
  rw [exponent, BitVec.extractLsb'_toNat, Nat.shiftRight_eq_div_pow]

theorem coefficient_eq (bits : BitVec 128) : coefficient bits = bits.toNat % 2 ^ 113 := by
  rw [coefficient, BitVec.extractLsb'_toNat, Nat.shiftRight_zero]

theorem negative_eq (bits : BitVec 128) : negative bits = decide (2 ^ 127 ≤ bits.toNat) :=
  BitVec.msb_eq_decide bits

theorem toNat_pack (hbiased : biased < 2 ^ 14) (hdigits : digits < 2 ^ 113) :
    (pack isNegative biased digits).toNat =
      isNegative.toNat * 2 ^ 127 + biased * 2 ^ 113 + digits := by
  have hsign : ((BitVec.ofBool isNegative).setWidth 128 <<< 127).toNat =
      isNegative.toNat <<< 127 := by
    cases isNegative <;> rfl
  have hexponent : (BitVec.ofNat 128 biased <<< 113).toNat = biased <<< 113 := by
    have hshifted : biased <<< 113 < 2 ^ 128 := by
      rw [Nat.shiftLeft_eq]
      omega
    rw [BitVec.toNat_shiftLeft, BitVec.toNat_ofNat,
      Nat.mod_eq_of_lt (show biased < 2 ^ 128 by omega), Nat.mod_eq_of_lt hshifted]
  have hlow : biased <<< 113 ||| digits = biased <<< 113 + digits :=
    (Nat.shiftLeft_add_eq_or_of_lt hdigits biased).symm
  have hbound : biased <<< 113 + digits < 2 ^ 127 := by
    rw [Nat.shiftLeft_eq]
    omega
  rw [pack, BitVec.toNat_or, BitVec.toNat_or, hsign, hexponent, BitVec.toNat_ofNat,
    Nat.mod_eq_of_lt (by omega), Nat.or_assoc, hlow, ← Nat.shiftLeft_add_eq_or_of_lt hbound,
    Nat.shiftLeft_eq, Nat.shiftLeft_eq, Nat.add_assoc]

theorem exponent_pack (isNegative : Bool) (hbiased : biased < 2 ^ 14) (hdigits : digits < 2 ^ 113) :
    exponent (pack isNegative biased digits) = biased := by
  rw [exponent_eq, toNat_pack hbiased hdigits]
  cases isNegative <;> simp only [Bool.toNat_true, Bool.toNat_false] <;> omega

theorem coefficient_pack (isNegative : Bool) (hbiased : biased < 2 ^ 14)
    (hdigits : digits < 2 ^ 113) :
    coefficient (pack isNegative biased digits) = digits := by
  rw [coefficient_eq, toNat_pack hbiased hdigits]
  cases isNegative <;> simp only [Bool.toNat_true, Bool.toNat_false] <;> omega

theorem negative_pack (isNegative : Bool) (hbiased : biased < 2 ^ 14) (hdigits : digits < 2 ^ 113) :
    negative (pack isNegative biased digits) = isNegative := by
  rw [negative_eq, toNat_pack hbiased hdigits]
  cases isNegative <;> simp only [Bool.toNat_true, Bool.toNat_false, decide_eq_true_eq,
    decide_eq_false_iff_not] <;> omega

end Encoding.Decimal128
