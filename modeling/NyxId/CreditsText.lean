import NyxId.Credits
import NyxId.Encoding.Numerals
import NyxId.Outcomes

/-!
Reading credits from a decimal text. The digits are shifted to whole picocredits, and the shift
either cuts zeros or appends them, so a text is accepted exactly when its value is an amount.
-/

namespace NyxId.Credits

open Encoding

/-- A text is refused, or an operation on machine integers that is not checked overflows. -/
inductive ParseFault where
  | creditsError
  | overflow
  deriving DecidableEq

def orError {α : Type} (answer : Option α) : Except ParseFault α :=
  answer.elim (.error .creditsError) .ok

def unchecked {α : Type} (answer : Option α) : Except ParseFault α :=
  answer.elim (.error .overflow) .ok

/-- The digits, which start with none that is zero, as picocredits. -/
def scaled (digits : List Char) (shift : ℤ) : Except ParseFault ℤ :=
  if shift < 0 then do
    let cut := (← unchecked (checkedI64 (-shift))).toNat
    if cut ≥ digits.length || !(digits.drop (digits.length - cut)).all (· == '0') then
      .error .creditsError
    else
      orError (parseSigned 128 (digits.take (digits.length - cut)))
  else if shift > 34 || digits.length + shift.toNat > 34 then
    .error .creditsError
  else do
    let coefficient ← orError (parseSigned 128 digits)
    orError (checkedI128 (coefficient * 10 ^ shift.toNat))

def withSign (negative : Bool) (pico : ℤ) : Except ParseFault ℤ :=
  if negative then unchecked (checkedI128 (-pico)) else .ok pico

/-- The amount of the digits around the point, so many of them behind it. -/
def fromDigits (negative : Bool) (combined : List Char) (fraction : ℕ) (exponent : ℤ) :
    Except ParseFault Credits :=
  let digits := combined.dropWhile (· == '0')
  if digits.isEmpty then .ok zero
  else do
    let length ← orError (checkedI64 fraction)
    let shift ← unchecked (checkedI64 (12 + exponent - length))
    let pico ← scaled digits shift
    orError (fromPico (← withSign negative pico))

def fromChars (input : List Char) : Except ParseFault Credits := do
  let (mantissa, mark) := splitExponent input
  let exponent ← orError (mark.elim (some 0) fun (_, text) => parseSigned 32 text)
  let (sign, mantissa) := takeSign mantissa
  let (whole, point) := splitPoint mantissa
  let fraction := point.getD []
  if (whole.isEmpty && fraction.isEmpty) || !(whole ++ fraction).all Char.isDigit then
    .error .creditsError
  else
    fromDigits (sign == some '-') (whole ++ fraction) fraction.length exponent

/-- `from_str` of the source. -/
def fromStr (input : String) : Except ParseFault Credits := fromChars input.toList

section Answers

variable {α β : Type} {answer : Option α} {x : α} {next : α → Except ParseFault β} {y : β}

@[simp] theorem orError_some (x : α) : orError (some x) = .ok x := rfl

theorem ok_bind (x : α) : (Except.ok x >>= next) = next x := rfl

@[simp] theorem unchecked_some (x : α) : unchecked (some x) = .ok x := rfl

theorem orError_eq_ok : orError answer = .ok x ↔ answer = some x := by
  cases answer <;> simp [orError]

theorem unchecked_eq_ok : unchecked answer = .ok x ↔ answer = some x := by
  cases answer <;> simp [unchecked]

theorem orError_ne_overflow : orError answer ≠ .error .overflow := by
  cases answer <;> simp [orError]

theorem bind_eq_overflow {first : Except ParseFault α} :
    (first >>= next) = .error .overflow ↔
      first = .error .overflow ∨ ∃ x, first = .ok x ∧ next x = .error .overflow := by
  cases first <;> simp [bind, Except.bind]

end Answers

section Shifts

variable {digits : List Char} {shift p : ℤ}

theorem checkedI64_neg (hlow : -2 ^ 63 < shift) (hneg : shift < 0) :
    checkedI64 (-shift) = some (-shift) := checkedI64_eq_some.mpr ⟨rfl, by omega, by omega⟩

/-- Digits of at most so many places are read whole. -/
theorem parse_digits (hne : digits ≠ []) (hdigits : ∀ c ∈ digits, c.isDigit)
    (hp : (digitsValue digits : ℤ) = p) (hmax : p < 2 ^ 127) :
    parseSigned 128 digits = some p := by
  rw [parseSigned_digits 128 hne hdigits, if_pos (by omega), hp]

theorem value_of_parse (hne : digits ≠ []) (hdigits : ∀ c ∈ digits, c.isDigit)
    (h : parseSigned 128 digits = some p) : (digitsValue digits : ℤ) = p ∧ p < 2 ^ 127 := by
  rw [parseSigned_digits 128 hne hdigits] at h
  split at h
  · next hlt =>
    cases h
    exact ⟨rfl, hlt⟩
  · simp at h

theorem scaled_ne_overflow (hlow : -2 ^ 63 < shift) : scaled digits shift ≠ .error .overflow := by
  unfold scaled
  by_cases hneg : shift < 0
  · rw [if_pos hneg, checkedI64_neg hlow hneg]
    show (if _ then _ else _) ≠ _
    split
    · simp
    · exact orError_ne_overflow
  · rw [if_neg hneg]
    split
    · simp
    · intro h
      obtain h | ⟨x, -, h⟩ := bind_eq_overflow.mp h
      · exact orError_ne_overflow h
      · exact orError_ne_overflow h

theorem scaled_sound (hdigits : ∀ c ∈ digits, c.isDigit) (hne : digits ≠ [])
    (h : scaled digits shift = .ok p) :
    (digitsValue digits : ℚ) * 10 ^ shift = p ∧ 0 ≤ p ∧ p < 2 ^ 127 := by
  unfold scaled at h
  by_cases hneg : shift < 0
  · rw [if_pos hneg] at h
    obtain ⟨opposite, hopposite, h⟩ := bind_eq_ok.mp h
    obtain ⟨rfl, -, -⟩ := checkedI64_eq_some.mp (unchecked_eq_ok.mp hopposite)
    by_cases hcut : (-shift).toNat ≥ digits.length ||
        !(digits.drop (digits.length - (-shift).toNat)).all (· == '0')
    · rw [if_pos hcut] at h
      simp at h
    · rw [if_neg hcut] at h
      simp only [Bool.or_eq_true, decide_eq_true_eq, Bool.not_eq_true', not_or,
        Bool.not_eq_false, List.all_eq_true, beq_iff_eq] at hcut
      obtain ⟨hlength, hzeros⟩ := hcut
      have htake := digitsValue_take (by omega) hzeros
      have hkept : digits.take (digits.length - (-shift).toNat) ≠ [] := by
        simp only [ne_eq, List.take_eq_nil_iff, hne, or_false]
        omega
      obtain ⟨hvalue, hmax⟩ := value_of_parse hkept
        (fun c hc => hdigits c (List.mem_of_mem_take hc)) (orError_eq_ok.mp h)
      refine ⟨?_, by omega, hmax⟩
      have hshift : shift = -((-shift).toNat : ℤ) := by omega
      have hmul : (digitsValue digits : ℚ) * 10 ^ (-((-shift).toNat : ℤ)) = p :=
        (mul_zpow_neg_eq_iff _ _ _).mpr (by rw [← hvalue, htake]; push_cast; rfl)
      exact hshift ▸ hmul
  · rw [if_neg hneg] at h
    split at h
    · simp at h
    · obtain ⟨coefficient, hparse, h⟩ := bind_eq_ok.mp h
      obtain ⟨hvalue, -⟩ := value_of_parse hne hdigits (orError_eq_ok.mp hparse)
      obtain ⟨hp, -, hmax⟩ := checkedI128_eq_some.mp (orError_eq_ok.mp h)
      have hshift : shift = (shift.toNat : ℤ) := by omega
      refine ⟨?_, ?_, hp ▸ hmax⟩
      · rw [hshift, zpow_natCast, ← hp, ← hvalue]
        push_cast
        rfl
      · rw [← hp, ← hvalue]
        positivity

theorem scaled_complete {first : Char} {rest : List Char} (hlow : -2 ^ 63 < shift)
    (hdigits : ∀ c ∈ first :: rest, c.isDigit) (hfirst : first ≠ '0')
    (hvalue : (digitsValue (first :: rest) : ℚ) * 10 ^ shift = p) (hmax : p ≤ maxPico) :
    scaled (first :: rest) shift = .ok p := by
  have hlead : 10 ^ rest.length ≤ _ :=
    pow_le_digitsValue (hdigits first List.mem_cons_self) hfirst
  have hlast := digitsValue_lt hdigits
  have hpos : 0 < digitsValue (first :: rest) := Nat.lt_of_lt_of_le (by positivity) hlead
  unfold scaled
  by_cases hneg : shift < 0
  · -- an integer value means that the last digits are zeros, and that a digit is left
    have hdvd := (isInt_mul_zpow _ _).mp ⟨p, hvalue⟩
    have hlength : (-shift).toNat < (first :: rest).length := by
      by_contra hlong
      have hpow := Nat.pow_le_pow_right (n := 10) (by omega) (Nat.le_of_not_lt hlong)
      have hle := Nat.le_of_dvd hpos hdvd
      omega
    have hzeros := (pow_dvd_digitsValue hdigits hlength.le).mp hdvd
    have htake := digitsValue_take hlength.le hzeros
    have hkept : (first :: rest).take ((first :: rest).length - (-shift).toNat) ≠ [] := by
      simp only [ne_eq, List.take_eq_nil_iff, reduceCtorEq, or_false]
      omega
    have hall : ((first :: rest).drop ((first :: rest).length - (-shift).toNat)).all (· == '0') =
        true := by
      simp only [List.all_eq_true, beq_iff_eq]
      exact hzeros
    have hprefix : (digitsValue ((first :: rest).take
        ((first :: rest).length - (-shift).toNat)) : ℤ) = p := by
      have hshift : shift = -((-shift).toNat : ℤ) := by omega
      have hpow : (0 : ℚ) < 10 ^ (-shift).toNat := by positivity
      rw [hshift, mul_zpow_neg_eq_iff, htake, Nat.cast_mul, Nat.cast_pow] at hvalue
      exact_mod_cast mul_right_cancel₀ hpow.ne' hvalue
    rw [if_pos hneg, checkedI64_neg hlow hneg, unchecked_some, ok_bind]
    rw [if_neg (by simp only [hall]; simp; simpa using hlength),
      parse_digits hkept (fun c hc => hdigits c (List.mem_of_mem_take hc)) hprefix
        (by unfold maxPico at hmax; omega), orError_some]
  · have hshift : shift = (shift.toNat : ℤ) := by omega
    rw [hshift, zpow_natCast] at hvalue
    have hp : (digitsValue (first :: rest) : ℤ) * 10 ^ shift.toNat = p := by exact_mod_cast hvalue
    -- a longer shift would leave the range
    have hlong : rest.length + shift.toNat < 34 := by
      by_contra hlong
      have hpow : (10 : ℤ) ^ 34 ≤ 10 ^ (rest.length + shift.toNat) :=
        pow_le_pow_right₀ (by norm_num) (Nat.le_of_not_lt hlong)
      have hbig : (10 : ℤ) ^ (rest.length + shift.toNat) ≤ p := by
        rw [← hp, pow_add]
        exact mul_le_mul_of_nonneg_right (by exact_mod_cast hlead) (by positivity)
      unfold maxPico at hmax
      omega
    have hle : (digitsValue (first :: rest) : ℤ) ≤ p := by
      rw [← hp]
      exact le_mul_of_one_le_right (by positivity) (one_le_pow₀ (by norm_num))
    unfold maxPico at hmax
    have hparse := parse_digits (by simp) hdigits rfl (show (digitsValue (first :: rest) : ℤ) < _ by
      omega)
    have hmul : checkedI128 (digitsValue (first :: rest) * 10 ^ shift.toNat) = some p :=
      checkedI128_eq_some.mpr ⟨hp, by omega, by omega⟩
    rw [if_neg hneg, if_neg (by simp; omega), hparse, orError_some, ok_bind, hmul, orError_some]

end Shifts

section Amounts

variable {negative : Bool} {combined input : List Char} {fraction : ℕ} {exponent : ℤ} {c : Credits}

/-- An exponent of 32 bits and digits so few that no shift leaves 64 bits. -/
structure Shiftable (fraction : ℕ) (exponent : ℤ) : Prop where
  low : -2 ^ 31 ≤ exponent
  high : exponent < 2 ^ 31
  short : fraction < 2 ^ 63 - 2 ^ 31

theorem fromDigits_zero (hzero : combined.dropWhile (· == '0') = []) :
    fromDigits negative combined fraction exponent = .ok zero := by
  simp [fromDigits, hzero]

theorem fromDigits_shifted {digits : List Char} (hdigits : combined.dropWhile (· == '0') = digits)
    (hne : digits ≠ []) (h : Shiftable fraction exponent) :
    fromDigits negative combined fraction exponent = (do
      let pico ← scaled digits (12 + exponent - fraction)
      orError (fromPico (← withSign negative pico))) := by
  have hlow := h.low
  have hhigh := h.high
  have hshort := h.short
  have hlength : checkedI64 fraction = some (fraction : ℤ) :=
    checkedI64_eq_some.mpr ⟨rfl, by omega, by omega⟩
  have hshift : checkedI64 (12 + exponent - fraction) = some (12 + exponent - fraction) :=
    checkedI64_eq_some.mpr ⟨rfl, by omega, by omega⟩
  have hfilled : digits.isEmpty = false := List.isEmpty_eq_false_iff.mpr hne
  simp only [fromDigits, hdigits, hfilled, hlength, orError_some, ok_bind, hshift, unchecked_some,
    Bool.false_eq_true, if_false]

theorem withSign_of_bounds {pico : ℤ} (hlow : 0 ≤ pico) (hhigh : pico < 2 ^ 127) :
    withSign negative pico = .ok (if negative then -pico else pico) := by
  have hneg : checkedI128 (-pico) = some (-pico) := checkedI128_eq_some.mpr ⟨rfl, by omega, by omega⟩
  cases negative <;> simp [withSign, hneg]

theorem shift_power (x : ℚ) (e : ℤ) (k : ℕ) :
    x * 10 ^ (e - (k : ℤ)) * 10 ^ 12 = x * 10 ^ (12 + e - (k : ℤ)) := by
  have hten : (10 : ℚ) ≠ 0 := by norm_num
  have hexponent : 12 + e - (k : ℤ) = e - k + (12 : ℕ) := by
    push_cast
    ring
  rw [hexponent, zpow_add₀ hten, zpow_natCast, mul_assoc]

theorem first_ne_zero {first : Char} {rest : List Char}
    (h : combined.dropWhile (· == '0') = first :: rest) : first ≠ '0' := by
  have hhead := List.head?_dropWhile_not (· == '0') combined
  rw [h] at hhead
  simpa using hhead

theorem fromDigits_ne_overflow (h : Shiftable fraction exponent)
    (hdigits : ∀ c ∈ combined, c.isDigit) :
    fromDigits negative combined fraction exponent ≠ .error .overflow := by
  cases hleading : combined.dropWhile (· == '0') with
  | nil => simp [fromDigits_zero hleading]
  | cons first rest =>
    rw [fromDigits_shifted hleading (by simp) h]
    intro hover
    have hkept : ∀ c ∈ first :: rest, c.isDigit := fun c hc =>
      hdigits c ((List.dropWhile_sublist _).subset (hleading ▸ hc))
    have hlow := h.low
    have hshort := h.short
    obtain hover | ⟨pico, hpico, hover⟩ := bind_eq_overflow.mp hover
    · exact scaled_ne_overflow (by omega) hover
    · obtain ⟨-, hnonneg, hmax⟩ := scaled_sound hkept (by simp) hpico
      rw [withSign_of_bounds hnonneg hmax, ok_bind] at hover
      exact orError_ne_overflow hover

theorem fromDigits_eq_ok (h : Shiftable fraction exponent) (hdigits : ∀ c ∈ combined, c.isDigit) :
    fromDigits negative combined fraction exponent = .ok c ↔
      (if negative then -1 else 1) * (digitsValue combined : ℚ) * 10 ^ (exponent - fraction) *
        10 ^ 12 = c.pico := by
  rw [shift_power, ← digitsValue_dropWhile combined]
  cases hleading : combined.dropWhile (· == '0') with
  | nil =>
    have hnil : digitsValue ([] : List Char) = 0 := rfl
    rw [fromDigits_zero hleading, hnil, Except.ok.injEq, Credits.ext_iff, pico_zero]
    simp only [Nat.cast_zero, mul_zero, zero_mul]
    constructor
    · intro hzero
      exact_mod_cast hzero
    · intro hzero
      exact_mod_cast hzero
  | cons first rest =>
    have hkept : ∀ c ∈ first :: rest, c.isDigit := fun c hc =>
      hdigits c ((List.dropWhile_sublist _).subset (hleading ▸ hc))
    rw [fromDigits_shifted hleading (by simp) h]
    constructor
    · intro hok
      obtain ⟨pico, hpico, hok⟩ := bind_eq_ok.mp hok
      obtain ⟨hvalue, hnonneg, hmax⟩ := scaled_sound hkept (by simp) hpico
      rw [withSign_of_bounds hnonneg hmax, ok_bind, orError_eq_ok, fromPico_eq_some] at hok
      rw [mul_assoc, hvalue, ← hok]
      cases negative <;> simp
    · intro hvalue
      have hbounds := c.inRange
      have hlow := h.low
      have hshort := h.short
      have hpositive : (0 : ℚ) ≤ digitsValue (first :: rest) * 10 ^ (12 + exponent - fraction) :=
        mul_nonneg (Nat.cast_nonneg _) (zpow_nonneg (by norm_num) _)
      have hmagnitude : (digitsValue (first :: rest) : ℚ) * 10 ^ (12 + exponent - fraction) =
          ((if negative then -c.pico else c.pico : ℤ) : ℚ) := by
        rw [mul_assoc] at hvalue
        cases negative
        · simpa using hvalue
        · simp only [if_true, neg_one_mul] at hvalue ⊢
          push_cast
          linarith
      have hnonneg : 0 ≤ (if negative then -c.pico else c.pico : ℤ) := by
        rw [hmagnitude] at hpositive
        exact_mod_cast hpositive
      have hmax : (if negative then -c.pico else c.pico : ℤ) ≤ maxPico := by
        split <;> omega
      have hpico := scaled_complete (by omega) hkept (first_ne_zero hleading) hmagnitude hmax
      rw [hpico, ok_bind, withSign_of_bounds hnonneg (by unfold maxPico at hmax; omega), ok_bind,
        orError_eq_ok, fromPico_eq_some]
      cases negative <;> simp

end Amounts

section Texts

variable {input : List Char} {c : Credits}

/-- The parser reads the parts of the text. -/
theorem fromChars_scan (input : List Char) : fromChars input = (do
    let exponent ← orError (scan input).exponentValue
    if (scan input).significand = [] ∨ ¬ (scan input).significand.all Char.isDigit then
      .error .creditsError
    else
      fromDigits (scan input).negative (scan input).significand (scan input).fractionDigits.length
        exponent) := by
  have hempty : ∀ (whole fraction : List Char) (allDigits : Bool),
      ((whole.isEmpty && fraction.isEmpty) || !allDigits) = true ↔
        whole ++ fraction = [] ∨ ¬ allDigits = true := by
    intro whole fraction allDigits
    cases allDigits <;> simp
  show (orError (scan input).exponentValue >>= fun exponent =>
    if ((scan input).whole.isEmpty && (scan input).fractionDigits.isEmpty) ||
        !(scan input).significand.all Char.isDigit then .error .creditsError
    else fromDigits (scan input).negative (scan input).significand
      (scan input).fractionDigits.length exponent) = _
  congr 1
  funext exponent
  exact if_congr (hempty _ _ _) rfl rfl

theorem shiftable_scan {exponent : ℤ} (hlength : input.length < 2 ^ 63 - 2 ^ 31)
    (hexponent : (scan input).exponentValue = some exponent) :
    Shiftable (scan input).fractionDigits.length exponent := by
  have hbounds : -2 ^ 31 ≤ exponent ∧ exponent < 2 ^ 31 := by
    unfold Numeral.exponentValue at hexponent
    cases hpart : (scan input).exponent with
    | none =>
      rw [hpart] at hexponent
      cases hexponent
      norm_num
    | some part =>
      rw [hpart] at hexponent
      exact parseSigned_bounds hexponent
  refine ⟨hbounds.1, hbounds.2, ?_⟩
  have hchars := congrArg List.length (scan_chars input)
  have hpart := (scan input).fractionDigits_length_le
  omega

theorem fromChars_ne_overflow (hlength : input.length < 2 ^ 63 - 2 ^ 31) :
    fromChars input ≠ .error .overflow := by
  rw [fromChars_scan]
  intro hover
  obtain hover | ⟨exponent, hexponent, hover⟩ := bind_eq_overflow.mp hover
  · exact orError_ne_overflow hover
  · have hfits := shiftable_scan hlength (orError_eq_ok.mp hexponent)
    split at hover
    · simp at hover
    · next hdigits =>
      simp only [not_or, not_not, List.all_eq_true] at hdigits
      exact fromDigits_ne_overflow hfits hdigits.2 hover

/-- A text is read as an amount when it spells a numeral of that amount. -/
theorem fromChars_eq_ok (hlength : input.length < 2 ^ 63 - 2 ^ 31) :
    fromChars input = .ok c ↔ ∃ n : Numeral, n.Decimal ∧ n.chars = input ∧
      ∃ exponent, n.exponentValue = some exponent ∧ n.value exponent * 10 ^ 12 = c.pico := by
  rw [Numeral.exists_decimal, scan_decimal, fromChars_scan, bind_eq_ok]
  constructor
  · intro ⟨exponent, hexponent, hok⟩
    rw [orError_eq_ok] at hexponent
    split at hok
    · simp at hok
    · next hdigits =>
      simp only [not_or, not_not] at hdigits
      have hvalue := (fromDigits_eq_ok (shiftable_scan hlength hexponent)
        (List.all_eq_true.mp hdigits.2)).mp hok
      exact ⟨hdigits, exponent, hexponent, hvalue⟩
  · intro ⟨hdigits, exponent, hexponent, hvalue⟩
    refine ⟨exponent, orError_eq_ok.mpr hexponent, ?_⟩
    rw [if_neg (by simpa using hdigits)]
    exact (fromDigits_eq_ok (shiftable_scan hlength hexponent)
      (List.all_eq_true.mp hdigits.2)).mpr hvalue

end Texts

/-! ### The text of an amount -/

/-- The numeral that is written for an amount. -/
def numeral (c : Credits) : Numeral where
  sign := if c.pico < 0 then some '-' else none
  whole := Nat.toDigits 10 (c.pico.natAbs / scale)
  fraction :=
    if c.pico.natAbs % scale ≠ 0 then
      some ((fractionDigits (c.pico.natAbs % scale)).rdropWhile (· == '0'))
    else none
  exponent := none

theorem numeral_chars (c : Credits) : c.numeral.chars = c.displayChars := by
  simp only [numeral, Numeral.chars, Numeral.mantissa, displayChars, Option.elim_none,
    List.append_nil, List.append_assoc]
  congr 1
  · split <;> rfl
  · split <;> rfl

/-- Without its trailing zeros a fraction has its value at a shorter length. -/
theorem fraction_value (whole : List Char) {f : ℕ} (hf : f < scale) :
    ∃ k, ((fractionDigits f).rdropWhile (· == '0')).length + k = 12 ∧
      digitsValue (whole ++ (fractionDigits f).rdropWhile (· == '0')) * 10 ^ k =
        digitsValue whole * 10 ^ 12 + f :=
  trimmed_value whole (by omega) hf

theorem numeral_value (c : Credits) : c.numeral.value 0 * 10 ^ 12 = c.pico := by
  have hscale : scale = 10 ^ 12 := rfl
  have hmod := Nat.mod_lt c.pico.natAbs (show 0 < scale by decide)
  have hdivMod := Nat.div_add_mod c.pico.natAbs scale
  have hsign : (if c.numeral.negative then (-1 : ℚ) else 1) * (c.pico.natAbs : ℚ) = c.pico := by
    by_cases hneg : c.pico < 0
    · have habs : (c.pico.natAbs : ℤ) = -c.pico := by omega
      have hcast : (c.pico.natAbs : ℚ) = -c.pico := by rw [← Int.cast_natCast, habs, Int.cast_neg]
      simp [Numeral.negative, numeral, hneg, hcast]
    · have habs : (c.pico.natAbs : ℤ) = c.pico := by omega
      have hcast : (c.pico.natAbs : ℚ) = c.pico := by rw [← Int.cast_natCast, habs]
      simp [Numeral.negative, numeral, hneg, hcast]
  have hmagnitude : (digitsValue c.numeral.significand : ℚ) *
      10 ^ ((0 : ℤ) - c.numeral.fractionDigits.length) * 10 ^ 12 = c.pico.natAbs := by
    have hwhole : digitsValue (Nat.toDigits 10 (c.pico.natAbs / scale)) = c.pico.natAbs / scale :=
      Nat.ofDigitChars_ten_toDigits
    by_cases hfraction : c.pico.natAbs % scale = 0
    · have hplaces : c.numeral.fractionDigits = [] := by
        simp [Numeral.fractionDigits, numeral, hfraction]
      rw [Numeral.significand, hplaces, List.append_nil]
      show ((digitsValue (Nat.toDigits 10 (c.pico.natAbs / scale)) : ℕ) : ℚ) * 10 ^ (0 - (0 : ℤ)) *
        10 ^ 12 = c.pico.natAbs
      rw [hwhole, sub_zero, zpow_zero, mul_one]
      have hexact : c.pico.natAbs / scale * 10 ^ 12 = c.pico.natAbs := by
        rw [← hscale]
        exact Nat.div_mul_cancel (Nat.dvd_of_mod_eq_zero hfraction)
      exact_mod_cast hexact
    · have hplaces : c.numeral.fractionDigits =
          (fractionDigits (c.pico.natAbs % scale)).rdropWhile (· == '0') := by
        simp [Numeral.fractionDigits, numeral, hfraction]
      obtain ⟨k, hk, hvalue⟩ := fraction_value (Nat.toDigits 10 (c.pico.natAbs / scale)) hmod
      rw [Numeral.significand, shift_power, hplaces]
      have hexponent : 12 + (0 : ℤ) - ((fractionDigits (c.pico.natAbs % scale)).rdropWhile
          (· == '0')).length = k := by omega
      rw [hexponent, zpow_natCast]
      rw [hwhole] at hvalue
      have hexact : digitsValue (c.numeral.whole ++
          (fractionDigits (c.pico.natAbs % scale)).rdropWhile (· == '0')) * 10 ^ k =
          c.pico.natAbs := by
        refine hvalue.trans ?_
        rw [← hscale, mul_comm]
        exact hdivMod
      exact_mod_cast hexact
  rw [Numeral.value, mul_assoc, mul_assoc, ← mul_assoc (digitsValue _ : ℚ), hmagnitude, hsign]

theorem mem_fractionDigits {f : ℕ} {c : Char} (hc : c ∈ fractionDigits f) : c.isDigit := by
  rw [fractionDigits, List.leftpad, List.mem_append] at hc
  obtain hzero | hdigit := hc
  · rw [List.eq_of_mem_replicate hzero]
    rfl
  · exact isDigit_of_mem_toDigits hdigit

theorem numeral_decimal (c : Credits) : c.numeral.Decimal where
  sign := by
    intro s hs
    unfold numeral at hs
    by_cases hneg : c.pico < 0
    · simp only [hneg, if_true, Option.mem_def, Option.some.injEq] at hs
      exact .inl hs.symm
    · simp [hneg] at hs
  digits := by
    intro d hd
    obtain hwhole | hfraction := List.mem_append.mp hd
    · exact isDigit_of_mem_toDigits hwhole
    · unfold Numeral.fractionDigits numeral at hfraction
      by_cases hzero : c.pico.natAbs % scale = 0
      · simp [hzero] at hfraction
      · simp only [ne_eq, hzero, not_false_eq_true, if_true, Option.getD_some] at hfraction
        exact mem_fractionDigits ((List.rdropWhile_prefix _ _).subset hfraction)
  nonempty := by
    intro hnil
    exact Nat.toDigits_ne_nil (List.append_eq_nil_iff.mp hnil).1
  mark := by
    intro part hpart
    simp [numeral] at hpart

theorem length_displayChars_le (c : Credits) : c.displayChars.length ≤ 36 := by
  have hrange := c.inRange
  unfold maxPico at hrange
  have hscale : scale = 1000000000000 := rfl
  have hmod := Nat.mod_lt c.pico.natAbs (show 0 < scale by decide)
  have hwhole : (Nat.toDigits 10 (c.pico.natAbs / scale)).length ≤ 22 :=
    (Nat.length_toDigits_le_iff (by omega) (by omega)).mpr (by rw [hscale]; omega)
  have hfraction := (List.rdropWhile_prefix (· == '0')
    (fractionDigits (c.pico.natAbs % scale))).length_le
  rw [fractionDigits_length hmod] at hfraction
  have hminus : (if c.pico < 0 then ['-'] else []).length ≤ 1 := by split <;> simp
  simp only [displayChars, List.length_append]
  by_cases hzero : c.pico.natAbs % scale = 0
  · simp only [ne_eq, hzero, not_true_eq_false, if_false, List.length_nil]
    omega
  · simp only [ne_eq, hzero, not_false_eq_true, if_true, List.length_cons]
    omega

/-- Writing an amount and reading it back gives the amount. -/
theorem fromStr_display (c : Credits) : fromStr c.display = .ok c := by
  have hshort := length_displayChars_le c
  rw [fromStr, display, String.toList_ofList, fromChars_eq_ok (by omega)]
  exact ⟨c.numeral, numeral_decimal c, numeral_chars c, 0, rfl, numeral_value c⟩

/-! ### Exactness -/

/-- The texts that are read as amounts are the decimal texts of amounts, and every amount is read
back from its text. -/
theorem from_str_exact :
    (∀ input : String, input.length < 2 ^ 63 - 2 ^ 31 →
      fromStr input ≠ .error .overflow ∧
      ∀ c, fromStr input = .ok c ↔ ∃ n : Numeral, n.Decimal ∧ n.chars = input.toList ∧
        ∃ exponent, n.exponentValue = some exponent ∧ n.value exponent * 10 ^ 12 = c.pico) ∧
    ∀ c : Credits, fromStr c.display = .ok c := by
  refine ⟨?_, fromStr_display⟩
  intro input hlength
  rw [← String.length_toList] at hlength
  exact ⟨fromChars_ne_overflow hlength, fun c => fromChars_eq_ok hlength⟩

/-- Ones behind the point and the least exponent. -/
def longNumeral (count : ℕ) : Numeral where
  sign := none
  whole := []
  fraction := some (List.replicate count '1')
  exponent := some ('e', "-2147483648".toList)

theorem longNumeral_overflows {count : ℕ} (hlow : 2 ^ 63 - 2 ^ 31 + 12 < count)
    (hhigh : count < 2 ^ 63) : fromChars (longNumeral count).chars = .error .overflow := by
  have hdecimal : (longNumeral count).Decimal := by
    refine ⟨by simp [longNumeral], ?_, ?_, by simp [longNumeral, isExponentMark]⟩
    · intro c hc
      simp only [longNumeral, Numeral.significand, Numeral.fractionDigits, Option.getD_some,
        List.nil_append] at hc
      rw [List.eq_of_mem_replicate hc]
      rfl
    · simp only [longNumeral, Numeral.significand, Numeral.fractionDigits, Option.getD_some,
        List.nil_append, ne_eq, List.replicate_eq_nil_iff]
      omega
  have hones : (List.replicate count '1').dropWhile (· == '0') = List.replicate count '1' := by
    obtain ⟨k, rfl⟩ := Nat.exists_eq_add_of_lt hlow
    rw [List.replicate_succ, List.dropWhile_cons_of_neg (by decide)]
  have hfilled : (List.replicate count '1').isEmpty = false := by
    rw [List.isEmpty_eq_false_iff, ne_eq, List.replicate_eq_nil_iff]
    omega
  have hlength : checkedI64 count = some (count : ℤ) :=
    checkedI64_eq_some.mpr ⟨rfl, by omega, by omega⟩
  have hshift : checkedI64 (12 + -2147483648 - count) = none := by
    rw [checkedI64, if_neg (by omega)]
  have hparse : parseSigned 32 "-2147483648".toList = some (-2147483648) := by decide
  have hexponent : (longNumeral count).exponentValue = some (-2147483648) := hparse
  have hdigits : ¬ ((longNumeral count).significand = [] ∨
      ¬ (longNumeral count).significand.all Char.isDigit) := by
    rw [not_or, not_not, List.all_eq_true]
    exact ⟨hdecimal.nonempty, hdecimal.digits⟩
  rw [fromChars_scan, hdecimal.scan_eq, hexponent, orError_some, ok_bind, if_neg hdigits]
  simp only [longNumeral, Numeral.significand, Numeral.fractionDigits, Option.getD_some,
    List.nil_append, fromDigits, hones, hfilled, List.length_replicate, hlength, orError_some,
    ok_bind, hshift]
  rfl

/-- A fraction so long that the shift leaves 64 bits is neither read nor refused. -/
theorem long_fraction_overflows :
    fromStr (String.ofList (longNumeral (2 ^ 63 - 2 ^ 31 + 13)).chars) = .error .overflow := by
  rw [fromStr, String.toList_ofList]
  exact longNumeral_overflows (by omega) (by omega)

/-- A sign, a leading zero, two digits behind the point and an exponent. -/
theorem small_amount_read : fromStr "-01.50e-3" = .ok ⟨-1500000000, by decide⟩ := by
  refine ((from_str_exact.1 "-01.50e-3" (by decide)).2 _).mpr
    ⟨⟨some '-', ['0', '1'], some ['5', '0'], some ('e', ['-', '3'])⟩, ?_, by decide, -3, by decide, ?_⟩
  · exact ⟨by simp, List.all_eq_true.mp (by decide), by decide, by decide⟩
  · have hvalue : digitsValue ['0', '1', '5', '0'] = 150 := by decide
    simp only [Numeral.value, Numeral.significand, Numeral.fractionDigits, Option.getD_some,
      List.cons_append, List.nil_append, hvalue]
    norm_num [Numeral.negative]

end NyxId.Credits
