import NyxId.CreditsText
import NyxId.Encoding.Decimal128

/-!
Credits in the database. An amount is written as a decimal of twelve places without the zeros
behind the point, and read back from the bits, or from the printed text at other exponents.
-/

namespace NyxId.Credits

open Encoding

/-- The biased exponent of picocredits. -/
def decimalPicoExponent : ℕ := 6176 - 12

/-- The coefficient without the zeros behind the point. -/
def normalized (coefficient exponent : ℕ) : ℕ × ℕ :=
  if exponent < 6176 ∧ coefficient % 10 = 0 then normalized (coefficient / 10) (exponent + 1)
  else (coefficient, exponent)
termination_by 6176 - exponent

def decimal (c : Credits) : BitVec 128 :=
  let (coefficient, exponent) :=
    if c.pico.natAbs = 0 then (0, 6176) else normalized c.pico.natAbs decimalPicoExponent
  Decimal128.pack (c.pico < 0) exponent coefficient

/-- The stored forms of an amount. -/
inductive Bson where
  | decimal128 (bits : BitVec 128)
  | int32 (value : Int32)
  | int64 (value : Int64)
  | other

/-- `print` stands for the text that the database library gives a decimal. -/
def fromBson (print : BitVec 128 → String) (value : Bson) (legacyScale : ℤ) :
    Except ParseFault Credits :=
  match value with
  | .decimal128 bits =>
    let exponent := ((bits >>> 113) &&& 0x3fff).toNat
    if decimalPicoExponent ≤ exponent ∧ exponent ≤ 6176 then do
      let coefficient : ℤ := (bits &&& ((1 <<< 113) - 1)).toNat
      let pico ← orError (checkedI128 (coefficient * 10 ^ (exponent - decimalPicoExponent)))
      orError (fromPico (← withSign (!(bits >>> 127 == 0)) pico))
    else fromStr (print bits)
  | .int32 value => do orError (fromPico (← unchecked (checkedI128 (value.toInt * legacyScale))))
  | .int64 value => do orError (fromPico (← unchecked (checkedI128 (value.toInt * legacyScale))))
  | .other => .error .creditsError

/-- The library prints a canonical decimal as a numeral of exactly its value. -/
def PrintsExactly (print : BitVec 128 → String) : Prop :=
  ∀ bits, Decimal128.Canonical bits → (print bits).length ≤ 42 ∧
    ∃ n : Numeral, n.Decimal ∧ n.chars = (print bits).toList ∧
      ∃ exponent, n.exponentValue = some exponent ∧ n.value exponent = Decimal128.value bits

section Fields

variable (bits : BitVec 128)

theorem exponentBits_eq : ((bits >>> 113) &&& 0x3fff).toNat = Decimal128.exponent bits := by
  have hmask : (0x3fff : BitVec 128).toNat = 2 ^ 14 - 1 := rfl
  rw [Decimal128.exponent_eq, BitVec.toNat_and, BitVec.toNat_ushiftRight, hmask,
    Nat.and_two_pow_sub_one_eq_mod, Nat.shiftRight_eq_div_pow]

theorem coefficientBits_eq :
    (bits &&& ((1 <<< 113) - 1)).toNat = Decimal128.coefficient bits := by
  have hmask : ((1 <<< 113) - 1 : BitVec 128).toNat = 2 ^ 113 - 1 := rfl
  rw [Decimal128.coefficient_eq, BitVec.toNat_and, hmask, Nat.and_two_pow_sub_one_eq_mod]

theorem signBit_eq : (!(bits >>> 127 == 0)) = Decimal128.negative bits := by
  have hbits := bits.isLt
  have hshift : (bits >>> 127).toNat = bits.toNat / 2 ^ 127 := by
    rw [BitVec.toNat_ushiftRight, Nat.shiftRight_eq_div_pow]
  have hzero : bits >>> 127 = 0 ↔ bits.toNat < 2 ^ 127 := by
    rw [← BitVec.toNat_inj, hshift]
    show bits.toNat / 2 ^ 127 = 0 ↔ _
    omega
  rw [Decimal128.negative_eq]
  by_cases hlow : bits.toNat < 2 ^ 127
  · rw [hzero.mpr hlow, decide_eq_false (by omega)]
    rfl
  · have hne : bits >>> 127 ≠ 0 := fun h => hlow (hzero.mp h)
    rw [beq_eq_false_iff_ne.mpr hne, decide_eq_true (by omega)]
    rfl

end Fields

section Written

variable {coefficient exponent : ℕ}

/-- The loop moves zeros from the coefficient to the exponent. -/
theorem normalized_spec (coefficient : ℕ) (hexponent : exponent ≤ 6176) :
    ∃ k, (normalized coefficient exponent).2 = exponent + k ∧ exponent + k ≤ 6176 ∧
      (normalized coefficient exponent).1 * 10 ^ k = coefficient := by
  induction coefficient, exponent using normalized.induct with
  | case1 coefficient exponent hmore ih =>
    obtain ⟨k, hexponent', hle, hvalue⟩ := ih (by omega)
    rw [normalized, if_pos hmore]
    refine ⟨k + 1, by omega, by omega, ?_⟩
    rw [pow_succ, ← mul_assoc, hvalue]
    omega
  | case2 coefficient exponent hdone =>
    rw [normalized, if_neg hdone]
    exact ⟨0, rfl, hexponent, by simp⟩

/-- An amount is written with its own sign and magnitude, at an exponent of the fast path. -/
structure Written (c : Credits) (bits : BitVec 128) : Prop where
  low : decimalPicoExponent ≤ Decimal128.exponent bits
  high : Decimal128.exponent bits ≤ 6176
  negative : Decimal128.negative bits = decide (c.pico < 0)
  magnitude : Decimal128.coefficient bits *
    10 ^ (Decimal128.exponent bits - decimalPicoExponent) = c.pico.natAbs

theorem written_pack {c : Credits} {k : ℕ} (hk : decimalPicoExponent + k ≤ 6176)
    (hvalue : coefficient * 10 ^ k = c.pico.natAbs) :
    Written c (Decimal128.pack (c.pico < 0) (decimalPicoExponent + k) coefficient) := by
  have hrange := c.inRange
  unfold maxPico at hrange
  have hle : coefficient ≤ c.pico.natAbs := hvalue ▸ Nat.le_mul_of_pos_right _ (by positivity)
  have hbiased : decimalPicoExponent + k < 2 ^ 14 := by omega
  have hdigits : coefficient < 2 ^ 113 := by omega
  refine ⟨?_, ?_, Decimal128.negative_pack _ hbiased hdigits, ?_⟩
  · rw [Decimal128.exponent_pack _ hbiased hdigits]
    omega
  · rw [Decimal128.exponent_pack _ hbiased hdigits]
    exact hk
  · rw [Decimal128.exponent_pack _ hbiased hdigits, Decimal128.coefficient_pack _ hbiased hdigits,
      Nat.add_sub_cancel_left, hvalue]

theorem written_decimal (c : Credits) : Written c c.decimal := by
  have hpico : decimalPicoExponent = 6164 := rfl
  unfold decimal
  by_cases hzero : c.pico.natAbs = 0
  · have hwritten : Written c (Decimal128.pack (c.pico < 0) (decimalPicoExponent + 12) 0) :=
      written_pack (by omega) (by rw [hzero, zero_mul])
    rw [if_pos hzero]
    exact hwritten
  · rw [if_neg hzero]
    obtain ⟨k, hexponent, hle, hvalue⟩ :=
      normalized_spec c.pico.natAbs (show decimalPicoExponent ≤ 6176 by omega)
    simp only [hexponent]
    exact written_pack hle hvalue

theorem Written.canonical {c : Credits} {bits : BitVec 128} (h : Written c bits) :
    Decimal128.Canonical bits := by
  have hrange := c.inRange
  unfold maxPico at hrange
  have hle : Decimal128.coefficient bits ≤ c.pico.natAbs :=
    h.magnitude ▸ Nat.le_mul_of_pos_right _ (by positivity)
  have hhigh := h.high
  exact ⟨by omega, by omega⟩

end Written

section Values

variable {bits : BitVec 128} {print : BitVec 128 → String} {legacyScale : ℤ} {c : Credits}

/-- At an exponent of the fast path the amount is the coefficient, shifted to picocredits. -/
theorem value_shifted (hlow : decimalPicoExponent ≤ Decimal128.exponent bits) :
    Decimal128.value bits * 10 ^ 12 =
      ((if Decimal128.negative bits then -1 else 1) * (Decimal128.coefficient bits *
        10 ^ (Decimal128.exponent bits - decimalPicoExponent) : ℕ) : ℤ) := by
  have hpico : decimalPicoExponent = 6164 := rfl
  obtain ⟨k, hk⟩ := Nat.exists_eq_add_of_le hlow
  have hexponent : ((Decimal128.exponent bits : ℕ) : ℤ) - 6176 = (k : ℤ) - (12 : ℕ) := by omega
  have hten : (10 : ℚ) ≠ 0 := by norm_num
  rw [Decimal128.value, hexponent, zpow_sub₀ hten, zpow_natCast, zpow_natCast, hk,
    Nat.add_sub_cancel_left]
  push_cast
  rw [mul_assoc, div_mul_cancel₀ _ (pow_ne_zero 12 hten), mul_assoc]

theorem Written.value {bits : BitVec 128} (h : Written c bits) :
    Decimal128.value bits * 10 ^ 12 = c.pico := by
  rw [value_shifted h.low, h.magnitude, h.negative]
  congr 1
  by_cases hneg : c.pico < 0
  · simp only [hneg, decide_true, if_true]
    omega
  · simp only [hneg, decide_false, Bool.false_eq_true, if_false]
    omega

theorem fromBson_fast (hlow : decimalPicoExponent ≤ Decimal128.exponent bits)
    (hhigh : Decimal128.exponent bits ≤ 6176) :
    fromBson print (.decimal128 bits) legacyScale = (do
      let pico ← orError (checkedI128 (Decimal128.coefficient bits *
        10 ^ (Decimal128.exponent bits - decimalPicoExponent)))
      orError (fromPico (← withSign (Decimal128.negative bits) pico))) := by
  simp only [fromBson, exponentBits_eq, coefficientBits_eq, signBit_eq]
  rw [if_pos ⟨hlow, hhigh⟩]

theorem fromBson_printed (h : ¬ (decimalPicoExponent ≤ Decimal128.exponent bits ∧
    Decimal128.exponent bits ≤ 6176)) :
    fromBson print (.decimal128 bits) legacyScale = fromStr (print bits) := by
  simp only [fromBson, exponentBits_eq]
  rw [if_neg h]

/-- A shifted coefficient, with a sign or without, is read when it is an amount. -/
theorem signed_eq_ok (isNegative : Bool) (magnitude : ℕ) :
    (do
      let pico ← orError (checkedI128 (magnitude : ℤ))
      orError (fromPico (← withSign isNegative pico))) = Except.ok c ↔
      (if isNegative then -1 else 1) * (magnitude : ℤ) = c.pico := by
  have hbounds := c.inRange
  unfold maxPico at hbounds
  by_cases hfits : (magnitude : ℤ) < 2 ^ 127
  · have hchecked : checkedI128 (magnitude : ℤ) = some (magnitude : ℤ) :=
      checkedI128_eq_some.mpr ⟨rfl, by omega, hfits⟩
    rw [hchecked, orError_some, ok_bind, withSign_of_bounds (by omega) hfits, ok_bind,
      orError_eq_ok, fromPico_eq_some]
    cases isNegative <;> simp
  · have hchecked : checkedI128 (magnitude : ℤ) = none := by
      rw [checkedI128, if_neg (by omega)]
    rw [hchecked]
    refine iff_of_false (by simp [orError, bind, Except.bind]) ?_
    split <;> omega

theorem signed_ne_overflow {isNegative : Bool} {magnitude : ℕ} :
    (do
      let pico ← orError (checkedI128 (magnitude : ℤ))
      orError (fromPico (← withSign isNegative pico))) ≠ Except.error ParseFault.overflow := by
  intro hover
  obtain hover | ⟨pico, hpico, hover⟩ := bind_eq_overflow.mp hover
  · exact orError_ne_overflow hover
  · obtain ⟨rfl, -, hfits⟩ := checkedI128_eq_some.mp (orError_eq_ok.mp hpico)
    rw [withSign_of_bounds (by omega) hfits, ok_bind] at hover
    exact orError_ne_overflow hover

/-- A canonical decimal is read, on either path, when it denotes an amount. -/
theorem fromBson_eq_ok (hprint : PrintsExactly print) (hcanonical : Decimal128.Canonical bits) :
    fromBson print (.decimal128 bits) legacyScale = .ok c ↔
      Decimal128.value bits * 10 ^ 12 = c.pico := by
  by_cases hfast : decimalPicoExponent ≤ Decimal128.exponent bits ∧
      Decimal128.exponent bits ≤ 6176
  · have hsigned := signed_eq_ok (c := c) (Decimal128.negative bits) (Decimal128.coefficient bits *
      10 ^ (Decimal128.exponent bits - decimalPicoExponent))
    push_cast at hsigned
    rw [fromBson_fast hfast.1 hfast.2, hsigned, value_shifted hfast.1]
    push_cast
    constructor
    · intro h
      exact_mod_cast h
    · intro h
      exact_mod_cast h
  · obtain ⟨hshort, n, hdecimal, hchars, exponent, hexponent, hvalue⟩ := hprint bits hcanonical
    rw [← String.length_toList] at hshort
    rw [fromBson_printed hfast, fromStr, fromChars_eq_ok (by omega)]
    constructor
    · rintro ⟨m, hm, hmchars, e, he, hmvalue⟩
      have hsame : m = n := by rw [← hm.scan_eq, ← hdecimal.scan_eq, hmchars, hchars]
      subst hsame
      rw [hexponent] at he
      cases he
      rw [← hvalue, hmvalue]
    · intro h
      exact ⟨n, hdecimal, hchars, exponent, hexponent, by rw [hvalue, h]⟩

theorem fromBson_ne_overflow (hprint : PrintsExactly print)
    (hcanonical : Decimal128.Canonical bits) :
    fromBson print (.decimal128 bits) legacyScale ≠ .error .overflow := by
  by_cases hfast : decimalPicoExponent ≤ Decimal128.exponent bits ∧
      Decimal128.exponent bits ≤ 6176
  · rw [fromBson_fast hfast.1 hfast.2]
    exact_mod_cast signed_ne_overflow
  · obtain ⟨hshort, -⟩ := hprint bits hcanonical
    rw [← String.length_toList] at hshort
    rw [fromBson_printed hfast]
    exact fromChars_ne_overflow (by omega)

theorem fromBson_decimal (hprint : PrintsExactly print) (c : Credits) :
    fromBson print (.decimal128 c.decimal) legacyScale = .ok c :=
  (fromBson_eq_ok hprint (written_decimal c).canonical).mpr (written_decimal c).value

theorem decimal_injective {a b : Credits} (h : a.decimal = b.decimal) : a = b := by
  have ha := (written_decimal a).value
  have hb := (written_decimal b).value
  rw [h, hb] at ha
  exact Credits.ext (by exact_mod_cast ha.symm)

end Values

/-- Amounts are read back from their stored decimals, which differ, and any canonical decimal is
read as the amount it denotes or refused. -/
theorem decimal128_exact (print : BitVec 128 → String) (hprint : PrintsExactly print)
    (legacyScale : ℤ) :
    (∀ c : Credits, fromBson print (.decimal128 c.decimal) legacyScale = .ok c) ∧
    Function.Injective decimal ∧
    ∀ bits, Decimal128.Canonical bits →
      fromBson print (.decimal128 bits) legacyScale ≠ .error .overflow ∧
      ∀ c, fromBson print (.decimal128 bits) legacyScale = .ok c ↔
        Decimal128.value bits * 10 ^ 12 = c.pico := by
  refine ⟨fromBson_decimal hprint, fun a b h => decimal_injective h, ?_⟩
  intro bits hcanonical
  exact ⟨fromBson_ne_overflow hprint hcanonical, fun c => fromBson_eq_ok hprint hcanonical⟩

/-! ### A printer -/

/-- The text of an exponent that is not zero. -/
def exponentText (biased : ℕ) : List Char :=
  if 6176 < biased then '+' :: Nat.toDigits 10 (biased - 6176)
  else '-' :: Nat.toDigits 10 (6176 - biased)

def scientific (bits : BitVec 128) : Numeral where
  sign := if Decimal128.negative bits then some '-' else none
  whole := Nat.toDigits 10 (Decimal128.coefficient bits)
  fraction := none
  exponent :=
    if Decimal128.exponent bits = 6176 then none
    else some ('E', exponentText (Decimal128.exponent bits))

def printScientific (bits : BitVec 128) : String := String.ofList (scientific bits).chars

theorem digitsValue_toDigits (k : ℕ) : digitsValue (Nat.toDigits 10 k) = k :=
  Nat.ofDigitChars_ten_toDigits

theorem scientific_exponent {bits : BitVec 128} (h : Decimal128.Canonical bits) :
    (scientific bits).exponentValue = some ((Decimal128.exponent bits : ℤ) - 6176) := by
  have hlt := h.exponent
  unfold Numeral.exponentValue scientific exponentText
  by_cases hzero : Decimal128.exponent bits = 6176
  · simp [hzero]
  · simp only [hzero, if_false, Option.elim_some]
    by_cases hhigh : 6176 < Decimal128.exponent bits
    · rw [if_pos hhigh]
      refine parseSigned_cons (.inr rfl) Nat.toDigits_ne_nil (fun _ => isDigit_of_mem_toDigits)
        ?_ (by omega) (by omega)
      simp only [signedValue, digitsValue_toDigits, Option.some.injEq, Char.reduceEq, if_false]
      omega
    · rw [if_neg hhigh]
      refine parseSigned_cons (.inl rfl) Nat.toDigits_ne_nil (fun _ => isDigit_of_mem_toDigits)
        ?_ (by omega) (by omega)
      simp only [signedValue, digitsValue_toDigits, if_true]
      omega

theorem scientific_decimal (bits : BitVec 128) : (scientific bits).Decimal where
  sign := by
    intro c hc
    unfold scientific at hc
    by_cases hneg : Decimal128.negative bits
    · simp only [hneg, if_true, Option.mem_def, Option.some.injEq] at hc
      exact .inl hc.symm
    · simp [hneg] at hc
  digits := by
    intro c hc
    simp only [Numeral.significand, Numeral.fractionDigits, scientific, Option.getD_none,
      List.append_nil] at hc
    exact isDigit_of_mem_toDigits hc
  nonempty := by
    simp [Numeral.significand, Numeral.fractionDigits, scientific, Nat.toDigits_ne_nil]
  mark := by
    intro part hpart
    unfold scientific at hpart
    by_cases hzero : Decimal128.exponent bits = 6176
    · simp [hzero] at hpart
    · simp only [hzero, if_false, Option.mem_def, Option.some.injEq] at hpart
      subst hpart
      rfl

theorem length_scientific_mark (bits : BitVec 128)
    (hexponent : (exponentText (Decimal128.exponent bits)).length ≤ 5) :
    ((scientific bits).exponent.elim [] fun (mark, text) => mark :: text).length ≤ 6 := by
  unfold scientific
  by_cases hzero : Decimal128.exponent bits = 6176
  · simp [hzero]
  · simp only [hzero, if_false, Option.elim_some, List.length_cons]
    omega

theorem length_scientific_le {bits : BitVec 128} (h : Decimal128.Canonical bits) :
    (scientific bits).chars.length ≤ 42 := by
  have hlt := h.exponent
  have hwhole : (Nat.toDigits 10 (Decimal128.coefficient bits)).length ≤ 34 :=
    (Nat.length_toDigits_le_iff (by omega) (by omega)).mpr h.coefficient
  have hplaces : ∀ k, k < 10 ^ 4 → (Nat.toDigits 10 k).length ≤ 4 := fun k hk =>
    (Nat.length_toDigits_le_iff (by omega) (by omega)).mpr hk
  have hexponent : (exponentText (Decimal128.exponent bits)).length ≤ 5 := by
    unfold exponentText
    by_cases hhigh : 6176 < Decimal128.exponent bits
    · have hle := hplaces (Decimal128.exponent bits - 6176) (by omega)
      rw [if_pos hhigh, List.length_cons]
      omega
    · have hle := hplaces (6176 - Decimal128.exponent bits) (by omega)
      rw [if_neg hhigh, List.length_cons]
      omega
  have hsign : (if Decimal128.negative bits then some '-' else none).toList.length ≤ 1 := by
    split <;> simp
  have hmark := length_scientific_mark bits hexponent
  have hmantissa : (scientific bits).mantissa.length ≤ 34 := by
    simpa [Numeral.mantissa, scientific] using hwhole
  have hminus : (scientific bits).sign.toList.length ≤ 1 := hsign
  rw [Numeral.chars, List.length_append, List.length_append]
  exact (Nat.add_le_add (Nat.add_le_add hminus hmantissa) hmark).trans (by norm_num)

theorem printScientific_exact : PrintsExactly printScientific := by
  intro bits hcanonical
  have hlength : (printScientific bits).length = (scientific bits).chars.length :=
    String.length_ofList
  refine ⟨hlength ▸ length_scientific_le hcanonical, scientific bits, scientific_decimal bits,
    String.toList_ofList.symm, _, scientific_exponent hcanonical, ?_⟩
  have hdigits : digitsValue (scientific bits).significand = Decimal128.coefficient bits := by
    simp [Numeral.significand, Numeral.fractionDigits, scientific]
  have hnegative : (scientific bits).negative = Decimal128.negative bits := by
    unfold Numeral.negative scientific
    cases Decimal128.negative bits <;> rfl
  rw [Numeral.value, hdigits, hnegative, Decimal128.value]
  congr 2
  simp [Numeral.fractionDigits, scientific]

/-- One thousand credits, stored as a coefficient of one. -/
theorem thousand_read : fromBson printScientific (.decimal128 (Decimal128.pack false 6179 1))
    1000000 = .ok ⟨1000000000000000, by decide⟩ := by
  have hbiased : 6179 < 2 ^ 14 := by norm_num
  have hdigits : 1 < 2 ^ 113 := by norm_num
  have hexponent := Decimal128.exponent_pack false hbiased hdigits
  have hcoefficient := Decimal128.coefficient_pack false hbiased hdigits
  have hnegative := Decimal128.negative_pack false hbiased hdigits
  have hcanonical : Decimal128.Canonical (Decimal128.pack false 6179 1) :=
    ⟨by rw [hexponent]; norm_num, by rw [hcoefficient]; norm_num⟩
  refine ((decimal128_exact printScientific printScientific_exact 1000000).2.2 _ hcanonical).2 _
    |>.mpr ?_
  rw [Decimal128.value, hexponent, hcoefficient, hnegative]
  norm_num

end NyxId.Credits
