import NyxId.Credits
import NyxId.Encoding.Json
import NyxId.Encoding.Numerals

/-!
Numbers within integer bounds and a number of decimal places. The text of the number is compared
with the scaled bounds, and the answer is that of the exact value.
-/

namespace NyxId.Permissions

open Encoding

def checkedI32 (x : ℤ) : Option ℤ :=
  if -2 ^ 31 ≤ x ∧ x < 2 ^ 31 then some x else none

/-- A length that is cut to 32 bits. -/
def asI32 (n : ℕ) : ℤ := Int.bmod n (2 ^ 32)

def saturatingNegI32 (x : ℤ) : ℤ := min (-x) (2 ^ 31 - 1)

/-- The coefficient at no decimal places, when it fits 128 bits. -/
def scaledCoefficient (significant : List Char) (shift : ℤ) : Option ℤ :=
  (parseSigned 128 significant).bind fun n =>
    if 0 < shift then (checkedI128 (10 ^ shift.toNat)).bind fun power => checkedI128 (power * n)
    else some n

def withMinus (negative : Bool) (coefficient : ℤ) : Option ℤ :=
  if negative then checkedI128 (-coefficient) else some coefficient

/-- The digits without trailing zeros, against the bounds. No answer means that an operation on
machine integers that is not checked overflows. -/
def significantInBounds (negative : Bool) (significant : List Char) (shift : ℤ)
    (minimum maximum : Int64) (maxFractionDigits : UInt8) : Option Bool :=
  let scale := (max (saturatingNegI32 shift) 0).toNat
  if maxFractionDigits.toNat < scale then some false
  else
    match scaledCoefficient significant shift with
    | none => some false
    | some coefficient => do
      let signed ← withMinus negative coefficient
      let factor ← checkedI128 (10 ^ scale)
      let low ← checkedI128 (minimum.toInt * factor)
      let high ← checkedI128 (maximum.toInt * factor)
      some (low ≤ signed && signed ≤ high)

def textInBounds (text : List Char) (minimum maximum : Int64) (maxFractionDigits : UInt8) :
    Option Bool :=
  let mantissa := (splitExponent text).1
  let exponent := (splitExponent text).2.elim 0 fun (_, e) => (parseSigned 32 e).getD (2 ^ 31 - 1)
  let negative := mantissa.head? == some '-'
  let mantissa := mantissa.dropWhile (· == '-')
  let fraction := (splitPoint mantissa).2.elim 0 fun f => asI32 f.length
  let digits := mantissa.filter (· != '.')
  let significant := digits.rdropWhile (· == '0')
  if significant.isEmpty then some (minimum ≤ 0 && 0 ≤ maximum)
  else do
    let moved ← checkedI32 (exponent - fraction)
    let shift ← checkedI32 (moved + asI32 (digits.length - significant.length))
    significantInBounds negative significant shift minimum maximum maxFractionDigits

def numberInBounds (value : Json) (minimum maximum : Int64) (maxFractionDigits : UInt8) :
    Option Bool :=
  if maximum < minimum || 12 < maxFractionDigits then some false
  else
    match value with
    | .number number => textInBounds number.text minimum maximum maxFractionDigits
    | _ => some false

/-! ### The digits -/

section Digits

variable {digits significant : List Char} {shift : ℤ}

/-- Without its trailing zeros a number is the coefficient of the same value. -/
theorem digitsValue_rdropWhile (digits : List Char) :
    digitsValue digits = digitsValue (digits.rdropWhile (· == '0')) *
      10 ^ (digits.length - (digits.rdropWhile (· == '0')).length) := by
  have hparts : digits.rdropWhile (· == '0') ++ digits.rtakeWhile (· == '0') = digits :=
    List.rdropWhile_append_rtakeWhile
  have hzeros : digitsValue (digits.rtakeWhile (· == '0')) = 0 :=
    digitsValue_zeros fun c hc => by simpa using List.mem_rtakeWhile_imp hc
  have hlength := congrArg List.length hparts
  rw [List.length_append] at hlength
  have hcut : digits.length - (digits.rdropWhile (· == '0')).length =
      (digits.rtakeWhile (· == '0')).length := by omega
  conv_lhs => rw [← hparts]
  rw [digitsValue_append, hzeros, add_zero, hcut]

theorem not_dvd_significant (hdigits : ∀ c ∈ digits, c.isDigit)
    (hne : digits.rdropWhile (· == '0') ≠ []) :
    ¬ 10 ∣ digitsValue (digits.rdropWhile (· == '0')) := by
  intro hdvd
  have hkept : ∀ c ∈ digits.rdropWhile (· == '0'), c.isDigit :=
    fun c hc => hdigits c ((List.rdropWhile_prefix _ _).subset hc)
  have hlength : 1 ≤ (digits.rdropWhile (· == '0')).length := List.length_pos_iff.mpr hne
  have hlast := List.rdropWhile_last_not (· == '0') digits hne
  have hzeros := (pow_dvd_digitsValue hkept hlength).mp (by simpa using hdvd)
  apply hlast
  rw [beq_iff_eq]
  apply hzeros
  rw [List.mem_drop_iff_getElem]
  exact ⟨0, by omega, by simp [List.getLast_eq_getElem]⟩

/-- The coefficient is missing only when it does not fit. -/
theorem scaledCoefficient_eq (hne : significant ≠ []) (hdigits : ∀ c ∈ significant, c.isDigit)
    (hpos : 0 < digitsValue significant) :
    scaledCoefficient significant shift =
      checkedI128 (digitsValue significant * 10 ^ (max shift 0).toNat) := by
  have hparse := parseSigned_digits 128 hne hdigits
  have hone : (1 : ℤ) ≤ digitsValue significant := by omega
  have hpow : (1 : ℤ) ≤ 10 ^ (max shift 0).toNat := one_le_pow₀ (by norm_num)
  have hfirst : (digitsValue significant : ℤ) ≤
      digitsValue significant * 10 ^ (max shift 0).toNat := le_mul_of_one_le_right (by omega) hpow
  have hsecond : (10 : ℤ) ^ (max shift 0).toNat ≤
      digitsValue significant * 10 ^ (max shift 0).toNat := le_mul_of_one_le_left (by omega) hone
  unfold scaledCoefficient
  rw [hparse]
  by_cases hfits : (digitsValue significant : ℤ) < 2 ^ (128 - 1)
  · rw [if_pos hfits, Option.bind_some]
    by_cases hshift : 0 < shift
    · have hmax : (max shift 0).toNat = shift.toNat := by omega
      rw [hmax] at hsecond hpow ⊢
      rw [if_pos hshift]
      by_cases hpower : (10 : ℤ) ^ shift.toNat < 2 ^ 127
      · have hchecked : checkedI128 (10 ^ shift.toNat) = some (10 ^ shift.toNat) :=
          checkedI128_eq_some.mpr ⟨rfl, by omega, hpower⟩
        rw [hchecked, Option.bind_some, mul_comm]
      · rw [checkedI128, if_neg (by omega), Option.bind_none, checkedI128, if_neg (by omega)]
    · have hmax : (max shift 0).toNat = 0 := by omega
      rw [if_neg hshift, hmax, pow_zero, mul_one]
      exact (checkedI128_eq_some.mpr ⟨rfl, by omega, by omega⟩).symm
  · rw [if_neg hfits, Option.bind_none, checkedI128, if_neg (by omega)]

end Digits

/-! ### The comparison -/

section Comparison

variable {negative : Bool} {significant : List Char} {shift : ℤ} {places : ℕ}

/-- What the digits stand for after the shift. -/
def shifted (negative : Bool) (significant : List Char) (shift : ℤ) : ℚ :=
  (if negative then -1 else 1) * digitsValue significant * 10 ^ shift

/-- The value times a power of ten is the signed coefficient. -/
theorem shifted_mul (negative : Bool) (significant : List Char) (shift : ℤ) :
    shifted negative significant shift * 10 ^ (max (-shift) 0).toNat =
      (((if negative then -1 else 1) * (digitsValue significant * 10 ^ (max shift 0).toNat) : ℤ) :
        ℚ) := by
  have hten : (10 : ℚ) ≠ 0 := by norm_num
  have hpower : (10 : ℚ) ^ shift * 10 ^ (max (-shift) 0).toNat = 10 ^ (max shift 0).toNat := by
    rw [← zpow_natCast, ← zpow_natCast, ← zpow_add₀ hten]
    congr 1
    omega
  rw [shifted, mul_assoc, hpower]
  push_cast
  ring

theorem le_shifted_iff (bound : ℤ) :
    (bound : ℚ) ≤ shifted negative significant shift ↔
      bound * 10 ^ (max (-shift) 0).toNat ≤
        (if negative then -1 else 1) * (digitsValue significant * 10 ^ (max shift 0).toNat) := by
  have hpos : (0 : ℚ) < 10 ^ (max (-shift) 0).toNat := by positivity
  rw [← mul_le_mul_iff_of_pos_right hpos, shifted_mul]
  constructor
  · intro h
    exact_mod_cast h
  · intro h
    exact_mod_cast h

theorem shifted_le_iff (bound : ℤ) :
    shifted negative significant shift ≤ (bound : ℚ) ↔
      (if negative then -1 else 1) * (digitsValue significant * 10 ^ (max shift 0).toNat) ≤
        bound * 10 ^ (max (-shift) 0).toNat := by
  have hpos : (0 : ℚ) < 10 ^ (max (-shift) 0).toNat := by positivity
  rw [← mul_le_mul_iff_of_pos_right hpos, shifted_mul]
  constructor
  · intro h
    exact_mod_cast h
  · intro h
    exact_mod_cast h

/-- A coefficient without a zero at its end needs all its places. -/
theorem shifted_isInt (hlast : ¬ 10 ∣ digitsValue significant) :
    (∃ m : ℤ, shifted negative significant shift * 10 ^ places = m) ↔ -shift ≤ places := by
  have hten : (10 : ℚ) ≠ 0 := by norm_num
  have hmul : shifted negative significant shift * 10 ^ places =
      (if negative then -1 else 1) * (digitsValue significant * 10 ^ (shift + places)) := by
    rw [shifted, zpow_add₀ hten, zpow_natCast]
    ring
  have hsign : (∃ m : ℤ, shifted negative significant shift * 10 ^ places = m) ↔
      ∃ m : ℤ, (digitsValue significant : ℚ) * 10 ^ (shift + places) = m := by
    rw [hmul]
    cases negative
    · simp
    · constructor
      · intro ⟨m, hm⟩
        exact ⟨-m, by push_cast; rw [← hm]; simp⟩
      · intro ⟨m, hm⟩
        exact ⟨-m, by push_cast; rw [← hm]; simp⟩
  rw [hsign, isInt_mul_zpow]
  by_cases hplaces : -shift ≤ places
  · have hzero : (-(shift + places)).toNat = 0 := by omega
    rw [hzero, pow_zero]
    exact iff_of_true (one_dvd _) hplaces
  · refine iff_of_false ?_ hplaces
    intro hdvd
    obtain ⟨k, hk⟩ := Nat.exists_eq_add_of_le (show 1 ≤ (-(shift + places)).toNat by omega)
    rw [hk, pow_add, pow_one] at hdvd
    exact hlast (dvd_of_mul_right_dvd hdvd)

end Comparison

section Answers

variable {significant : List Char} {shift : ℤ} {maxFractionDigits : UInt8}

/-- The number has few enough places and is within the bounds. -/
def InBounds (value : ℚ) (minimum maximum : Int64) (maxFractionDigits : UInt8) : Prop :=
  (minimum.toInt : ℚ) ≤ value ∧ value ≤ maximum.toInt ∧
    ∃ m : ℤ, value * 10 ^ maxFractionDigits.toNat = m

theorem significantInBounds_exact (negative : Bool) (minimum maximum : Int64)
    (hne : significant ≠ [])
    (hdigits : ∀ c ∈ significant, c.isDigit) (hlast : ¬ 10 ∣ digitsValue significant)
    (hplaces : maxFractionDigits.toNat ≤ 12) (hshift : -2 ^ 31 < shift) :
    ∃ answer, significantInBounds negative significant shift minimum maximum maxFractionDigits =
        some answer ∧
      (answer = true ↔
        InBounds (shifted negative significant shift) minimum maximum maxFractionDigits) := by
  have hpos : 0 < digitsValue significant := by
    by_contra hzero
    exact hlast (by simp [Nat.eq_zero_of_not_pos hzero])
  have hmin := minimum.toInt_lt
  have hmin' := minimum.le_toInt
  have hmax := maximum.toInt_lt
  have hmax' := maximum.le_toInt
  have hscale : (max (saturatingNegI32 shift) 0).toNat = (max (-shift) 0).toNat := by
    unfold saturatingNegI32
    omega
  unfold significantInBounds InBounds
  rw [shifted_isInt hlast, le_shifted_iff, shifted_le_iff]
  simp only [hscale]
  by_cases hmany : maxFractionDigits.toNat < (max (-shift) 0).toNat
  · rw [if_pos hmany]
    refine ⟨false, rfl, ?_⟩
    simp only [Bool.false_eq_true, false_iff, not_and]
    intro _ _
    omega
  · rw [if_neg hmany, scaledCoefficient_eq hne hdigits hpos]
    have hfew : -shift ≤ maxFractionDigits.toNat := by omega
    have hfactor : (10 : ℤ) ^ (max (-shift) 0).toNat ≤ 10 ^ 12 :=
      pow_le_pow_right₀ (by norm_num) (by omega)
    have hfactorPos : (0 : ℤ) < 10 ^ (max (-shift) 0).toNat := by positivity
    have hmagnitude : (0 : ℤ) < digitsValue significant * 10 ^ (max shift 0).toNat := by positivity
    generalize (10 : ℤ) ^ (max (-shift) 0).toNat = factor at hfactor hfactorPos ⊢
    generalize (digitsValue significant : ℤ) * 10 ^ (max shift 0).toNat = magnitude at hmagnitude ⊢
    have hlow : -2 ^ 63 * factor ≤ minimum.toInt * factor :=
      mul_le_mul_of_nonneg_right hmin' hfactorPos.le
    have hlow' : minimum.toInt * factor < 2 ^ 63 * factor :=
      mul_lt_mul_of_pos_right hmin hfactorPos
    have hhigh : -2 ^ 63 * factor ≤ maximum.toInt * factor :=
      mul_le_mul_of_nonneg_right hmax' hfactorPos.le
    have hhigh' : maximum.toInt * factor < 2 ^ 63 * factor :=
      mul_lt_mul_of_pos_right hmax hfactorPos
    by_cases hfits : magnitude < 2 ^ 127
    · have hcoefficient : checkedI128 magnitude = some magnitude :=
        checkedI128_eq_some.mpr ⟨rfl, by omega, hfits⟩
      have hsigned : withMinus negative magnitude =
          some ((if negative then -1 else 1) * magnitude) := by
        cases negative
        · simp [withMinus]
        · simp only [withMinus, if_true, neg_one_mul]
          exact checkedI128_eq_some.mpr ⟨rfl, by omega, by omega⟩
      have hfactorFits : checkedI128 factor = some factor :=
        checkedI128_eq_some.mpr ⟨rfl, by omega, by omega⟩
      have hlowFits : checkedI128 (minimum.toInt * factor) = some (minimum.toInt * factor) :=
        checkedI128_eq_some.mpr ⟨rfl, by omega, by omega⟩
      have hhighFits : checkedI128 (maximum.toInt * factor) = some (maximum.toInt * factor) :=
        checkedI128_eq_some.mpr ⟨rfl, by omega, by omega⟩
      refine ⟨_, by simp only [hcoefficient, hsigned, hfactorFits, hlowFits, hhighFits,
        Option.bind_eq_bind, Option.bind_some]; rfl, ?_⟩
      simp [hfew]
    · -- a coefficient beyond 128 bits is beyond the bounds
      have hnone : checkedI128 magnitude = none := by rw [checkedI128, if_neg (by omega)]
      rw [hnone]
      refine ⟨false, rfl, ?_⟩
      cases negative
      · simp only [Bool.false_eq_true, if_false, one_mul, false_iff]
        omega
      · simp only [if_true, neg_one_mul, Bool.false_eq_true, false_iff]
        omega

end Answers

/-! ### The text -/

section Texts

variable {n : Numeral} {exponent : ℤ} {maxFractionDigits : UInt8}

/-- A numeral without a plus sign, with lengths and an exponent that 32 bits can count. -/
structure Counted (n : Numeral) (exponent : ℤ) : Prop where
  decimal : n.Decimal
  unsigned : n.sign ≠ some '+'
  short : n.chars.length < 2 ^ 30
  parsed : n.exponentValue = some exponent
  low : -2 ^ 30 < exponent
  high : exponent < 2 ^ 30

theorem asI32_of_lt {k : ℕ} (h : k < 2 ^ 31) : asI32 k = k := by
  unfold asI32
  rw [Int.bmod_eq_of_le (by omega) (by omega)]

theorem checkedI32_of_bounds {x : ℤ} (hlow : -2 ^ 31 ≤ x) (hhigh : x < 2 ^ 31) :
    checkedI32 x = some x := by rw [checkedI32, if_pos ⟨hlow, hhigh⟩]

theorem no_minus_of_mantissa (h : n.Decimal) : ∀ c ∈ n.mantissa, c ≠ '-' := by
  intro c hc hminus
  obtain hdigit | hdot := h.mantissa_chars c hc
  · rw [hminus] at hdigit
    simp at hdigit
  · rw [hminus] at hdot
    simp at hdot

theorem Counted.sign_eq (h : Counted n exponent) :
    n.sign = if n.negative then some '-' else none := by
  cases hsign : n.sign with
  | none => simp [Numeral.negative, hsign]
  | some c =>
    obtain rfl | rfl := h.decimal.sign c hsign
    · simp [Numeral.negative, hsign]
    · exact absurd hsign h.unsigned

theorem Counted.head_eq (h : Counted n exponent) :
    ((n.sign.toList ++ n.mantissa).head? == some '-') = n.negative := by
  rw [h.sign_eq]
  cases hnegative : n.negative with
  | true => simp
  | false =>
    simp only [Bool.false_eq_true, if_false, Option.toList_none, List.nil_append,
      beq_eq_false_iff_ne]
    intro hhead
    exact no_minus_of_mantissa h.decimal '-' (List.mem_of_mem_head? hhead) rfl

theorem Counted.trimmed_eq (h : Counted n exponent) :
    (n.sign.toList ++ n.mantissa).dropWhile (· == '-') = n.mantissa := by
  have hmantissa : n.mantissa.dropWhile (· == '-') = n.mantissa := by
    cases hm : n.mantissa with
    | nil => rfl
    | cons c rest =>
      have hc := no_minus_of_mantissa h.decimal c (hm ▸ List.mem_cons_self)
      rw [List.dropWhile_cons_of_neg (by simpa using hc)]
  rw [h.sign_eq]
  cases n.negative with
  | true =>
    rw [if_pos rfl, Option.toList_some, List.singleton_append,
      List.dropWhile_cons_of_pos (by rfl), hmantissa]
  | false => rw [if_neg (by simp), Option.toList_none, List.nil_append, hmantissa]

theorem Counted.digits_eq (h : Counted n exponent) :
    n.mantissa.filter (· != '.') = n.significand := by
  have hkept : ∀ digits : List Char, (∀ c ∈ digits, c.isDigit) →
      digits.filter (· != '.') = digits := by
    intro digits hdigits
    apply List.filter_eq_self.mpr
    intro c hc
    have hdigit := hdigits c hc
    rw [bne_iff_ne]
    intro hdot
    rw [hdot] at hdigit
    simp at hdigit
  have hwhole := hkept n.whole fun c hc => h.decimal.digits c (List.mem_append_left _ hc)
  have hfraction := hkept n.fractionDigits fun c hc => h.decimal.digits c (List.mem_append_right _ hc)
  rw [Numeral.mantissa, List.filter_append, hwhole, Numeral.significand]
  cases hn : n.fraction with
  | none => simp [Numeral.fractionDigits, hn]
  | some fraction =>
    rw [Numeral.fractionDigits, hn, Option.getD_some] at hfraction
    simp [Numeral.fractionDigits, hn, hfraction]

theorem Counted.exponent_eq (h : Counted n exponent) :
    (n.exponent.elim 0 fun (_, e) => (parseSigned 32 e).getD (2 ^ 31 - 1)) = exponent := by
  have hvalue := h.parsed
  unfold Numeral.exponentValue at hvalue
  cases hn : n.exponent with
  | none =>
    rw [hn] at hvalue
    exact Option.some.inj hvalue
  | some part =>
    rw [hn] at hvalue
    have hparse : parseSigned 32 part.2 = some exponent := hvalue
    simp [hparse]

theorem Counted.fraction_eq (h : Counted n exponent) :
    (n.fraction.elim 0 fun f => asI32 f.length) = n.fractionDigits.length := by
  have hle := n.fractionDigits_length_le
  have hshort := h.short
  cases hn : n.fraction with
  | none => simp [Numeral.fractionDigits, hn]
  | some fraction =>
    rw [Numeral.fractionDigits, hn, Option.getD_some] at hle ⊢
    rw [Option.elim_some, asI32_of_lt (by omega)]

/-- The text is within bounds when the exact value is, and nothing overflows. -/
theorem textInBounds_exact (minimum maximum : Int64) (h : Counted n exponent)
    (hplaces : maxFractionDigits.toNat ≤ 12) :
    ∃ answer, textInBounds n.chars minimum maximum maxFractionDigits = some answer ∧
      (answer = true ↔ InBounds (n.value exponent) minimum maximum maxFractionDigits) := by
  have hlow := h.low
  have hhigh := h.high
  have hshort := h.short
  have hfraction := n.fractionDigits_length_le
  have hlength := n.significand_length_le
  have hcut : (n.significand.rdropWhile (· == '0')).length ≤ n.significand.length :=
    (List.rdropWhile_prefix _ _).length_le
  have hmoved : checkedI32 (exponent - n.fractionDigits.length) =
      some (exponent - n.fractionDigits.length) := checkedI32_of_bounds (by omega) (by omega)
  let zeros := n.significand.length - (n.significand.rdropWhile (· == '0')).length
  have hshift : checkedI32 (exponent - n.fractionDigits.length + zeros) =
      some (exponent - n.fractionDigits.length + zeros) :=
    checkedI32_of_bounds (by omega) (by omega)
  have hvalue := digitsValue_rdropWhile n.significand
  unfold textInBounds
  simp only [h.decimal.splitExponent_eq, h.head_eq, h.trimmed_eq, h.decimal.splitPoint_eq,
    h.exponent_eq, h.fraction_eq, h.digits_eq]
  by_cases hempty : n.significand.rdropWhile (· == '0') = []
  · -- all digits are zeros
    have hzero : n.value exponent = 0 := by
      rw [hempty] at hvalue
      have hdigits : digitsValue n.significand = 0 := by simpa using hvalue
      simp [Numeral.value, hdigits]
    rw [if_pos (by rw [hempty]; rfl), hzero]
    refine ⟨_, rfl, ?_⟩
    simp only [InBounds, Bool.and_eq_true, decide_eq_true_eq, Int64.le_iff_toInt_le,
      Int64.toInt_zero, zero_mul]
    constructor
    · intro ⟨hmin, hmax⟩
      exact ⟨by exact_mod_cast hmin, by exact_mod_cast hmax, 0, by simp⟩
    · intro ⟨hmin, hmax, _⟩
      exact ⟨by exact_mod_cast hmin, by exact_mod_cast hmax⟩
  · have hlast := not_dvd_significant h.decimal.digits hempty
    have hdigits : ∀ c ∈ n.significand.rdropWhile (· == '0'), c.isDigit :=
      fun c hc => h.decimal.digits c ((List.rdropWhile_prefix _ _).subset hc)
    have hsame : shifted n.negative (n.significand.rdropWhile (· == '0'))
        (exponent - n.fractionDigits.length + zeros) = n.value exponent := by
      have hten : (10 : ℚ) ≠ 0 := by norm_num
      rw [shifted, Numeral.value, zpow_add₀ hten, zpow_natCast, hvalue]
      push_cast
      ring
    obtain ⟨answer, hanswer, hiff⟩ := significantInBounds_exact n.negative minimum maximum hempty
      hdigits hlast hplaces (show -2 ^ 31 < exponent - n.fractionDigits.length + zeros by omega)
    rw [hsame] at hiff
    refine ⟨answer, ?_, hiff⟩
    rw [if_neg (by simpa using hempty), hmoved, asI32_of_lt (by omega)]
    simp only [Option.bind_eq_bind, Option.bind_some]
    rw [hshift, Option.bind_some, hanswer]

end Texts

/-! ### The numbers of the library -/

/-- A number is an unsigned or a negative integer of 64 bits, or a float. -/
inductive SerdeNumber (F : Type) where
  | posInt (value : UInt64)
  | negInt (value : Int64)
  | float (value : F)

/-- The text of a number; `print` stands for the text of a float. -/
def SerdeNumber.text {F : Type} (print : F → List Char) : SerdeNumber F → List Char
  | .posInt value => decimalChars value.toNat
  | .negInt value => decimalChars value.toInt
  | .float value => print value

/-- A finite float is printed as a decimal in a few places, without a plus sign. -/
def PrintsFloats {F : Type} (print : F → List Char) : Prop :=
  ∀ value, ∃ n : Numeral, ∃ exponent, Counted n exponent ∧ n.chars = print value

def integerNumeral (z : ℤ) : Numeral where
  sign := if z < 0 then some '-' else none
  whole := Nat.toDigits 10 z.natAbs
  fraction := none
  exponent := none

theorem integerNumeral_chars (z : ℤ) : (integerNumeral z).chars = decimalChars z := by
  simp only [integerNumeral, Numeral.chars, Numeral.mantissa, decimalChars, Option.elim_none,
    List.append_nil]
  congr 1
  split <;> rfl

theorem integerNumeral_counted {z : ℤ} (hlow : -2 ^ 64 < z) (hhigh : z < 2 ^ 64) :
    Counted (integerNumeral z) 0 where
  decimal := {
    sign := by
      intro c hc
      unfold integerNumeral at hc
      by_cases hneg : z < 0
      · simp only [hneg, if_true, Option.mem_def, Option.some.injEq] at hc
        exact .inl hc.symm
      · simp [hneg] at hc
    digits := by
      intro c hc
      simp only [Numeral.significand, Numeral.fractionDigits, integerNumeral, Option.getD_none,
        List.append_nil] at hc
      exact isDigit_of_mem_toDigits hc
    nonempty := by
      simp [Numeral.significand, Numeral.fractionDigits, integerNumeral, Nat.toDigits_ne_nil]
    mark := by simp [integerNumeral] }
  unsigned := by
    unfold integerNumeral
    split <;> simp
  short := by
    have hwhole : (Nat.toDigits 10 z.natAbs).length ≤ 20 :=
      (Nat.length_toDigits_le_iff (by omega) (by omega)).mpr (by omega)
    have hsign : (if z < 0 then ['-'] else []).length ≤ 1 := by split <;> simp
    rw [integerNumeral_chars, decimalChars, List.length_append]
    omega
  parsed := rfl
  low := by norm_num
  high := by norm_num

theorem SerdeNumber.counted {F : Type} {print : F → List Char} (hprint : PrintsFloats print)
    (number : SerdeNumber F) : ∃ n exponent, Counted n exponent ∧ n.chars = number.text print := by
  cases number with
  | posInt value =>
    have hlt := value.toNat_lt
    exact ⟨_, 0, integerNumeral_counted (by omega) (by omega), integerNumeral_chars _⟩
  | negInt value =>
    have hlow := value.le_toInt
    have hhigh := value.toInt_lt
    exact ⟨_, 0, integerNumeral_counted (by omega) (by omega), integerNumeral_chars _⟩
  | float value => exact hprint value

/-- A number is within bounds exactly when the decimal value of its text is. -/
theorem number_in_bounds_exact {F : Type} (print : F → List Char) (hprint : PrintsFloats print)
    (number : SerdeNumber F) (value : JsonNumber) (hvalue : value.text = number.text print)
    (minimum maximum : Int64) (hbounds : minimum ≤ maximum) (maxFractionDigits : UInt8)
    (hplaces : maxFractionDigits ≤ 12) :
    ∃ n : Numeral, n.Decimal ∧ n.chars = value.text ∧
      ∃ exponent, n.exponentValue = some exponent ∧
      ∃ answer, numberInBounds (.number value) minimum maximum maxFractionDigits = some answer ∧
        (answer = true ↔ (minimum.toInt : ℚ) ≤ n.value exponent ∧
          n.value exponent ≤ maximum.toInt ∧
          ∃ m : ℤ, n.value exponent * 10 ^ maxFractionDigits.toNat = m) := by
  obtain ⟨n, exponent, hcounted, hchars⟩ := number.counted hprint
  have hfew : maxFractionDigits.toNat ≤ 12 := UInt8.le_iff_toNat_le.mp hplaces
  obtain ⟨answer, hanswer, hiff⟩ := textInBounds_exact minimum maximum hcounted hfew
  refine ⟨n, hcounted.decimal, hchars.trans hvalue.symm, exponent, hcounted.parsed, answer, ?_, hiff⟩
  have hvalid : ¬ (maximum < minimum || 12 < maxFractionDigits) := by
    simp only [Bool.or_eq_true, decide_eq_true_eq, not_or]
    exact ⟨Int64.not_lt.mpr hbounds, UInt8.not_lt.mpr hplaces⟩
  rw [numberInBounds, if_neg hvalid]
  show textInBounds value.text _ _ _ = _
  rw [hvalue, ← hchars, hanswer]

def sampleNumber : JsonNumber := ⟨"-12.34".toList, by decide, List.all_eq_true.mp (by decide)⟩

/-- A float with two places, printed from its bits. -/
theorem two_places_in_bounds : numberInBounds (.number sampleNumber) (-100) 100 2 = some true := by
  have hprint : PrintsFloats fun _ : UInt64 => "-12.34".toList := by
    intro _
    refine ⟨⟨some '-', ['1', '2'], some ['3', '4'], none⟩, 0, ⟨?_, by decide, by decide, rfl,
      by norm_num, by norm_num⟩, rfl⟩
    exact ⟨by simp, List.all_eq_true.mp (by decide), by decide, by decide⟩
  obtain ⟨n, hdecimal, hchars, exponent, hexponent, answer, hanswer, hiff⟩ :=
    number_in_bounds_exact _ hprint (.float 0xC028AE147AE147AE) sampleNumber rfl (-100) 100
      (by decide) 2 (by decide)
  have hn : n = ⟨some '-', ['1', '2'], some ['3', '4'], none⟩ := by
    rw [← hdecimal.scan_eq, hchars]
    decide
  subst hn
  cases hexponent
  have hdigits : digitsValue ['1', '2', '3', '4'] = 1234 := by decide
  have hmin : (-100 : Int64).toInt = -100 := by decide
  have hmax : (100 : Int64).toInt = 100 := by decide
  have htwo : (2 : UInt8).toNat = 2 := rfl
  rw [hanswer, hiff.mpr]
  simp only [Numeral.value, Numeral.significand, Numeral.fractionDigits, Numeral.negative,
    Option.getD_some, List.cons_append, List.nil_append, hdigits, hmin, hmax, htwo]
  refine ⟨by norm_num, by norm_num, -1234, by norm_num⟩

end NyxId.Permissions
