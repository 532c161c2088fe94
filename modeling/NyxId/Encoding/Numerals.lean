import NyxId.Encoding.Text
import Mathlib.Algebra.Order.Field.Rat
import Mathlib.Data.List.DropRight
import Mathlib.Data.Nat.ModEq
import Mathlib.Tactic.Linarith

/-!
Decimal numerals: an optional sign, digits around an optional point and an optional exponent.
The parts of a numeral have an exact value, a text can be read as a numeral in one way only, and
a scaled value is an integer exactly when enough of the last digits are zeros.
-/

namespace Encoding

/-! ### Strings of digits -/

/-- The number that digits stand for, the highest first. -/
abbrev digitsValue (digits : List Char) : ℕ := Nat.ofDigitChars 10 digits 0

variable {digits rest : List Char} {c : Char} {k : ℕ}

theorem digitsValue_append (digits rest : List Char) :
    digitsValue (digits ++ rest) = digitsValue digits * 10 ^ rest.length + digitsValue rest := by
  rw [digitsValue, Nat.ofDigitChars_append, Nat.ofDigitChars_eq_ofDigitChars_zero, mul_comm]

theorem digitsValue_cons (c : Char) (rest : List Char) :
    digitsValue (c :: rest) = (c.toNat - 48) * 10 ^ rest.length + digitsValue rest := by
  rw [digitsValue, Nat.ofDigitChars_cons, Nat.ofDigitChars_eq_ofDigitChars_zero, mul_comm]
  simp

theorem digit_bounds (h : c.isDigit) : 48 ≤ c.toNat ∧ c.toNat ≤ 57 := Char.isDigit_iff_toNat.mp h

theorem eq_zero_of_toNat (h : c.toNat = 48) : c = '0' := Char.toNat_inj.mp (h.trans rfl)

theorem digitsValue_lt (h : ∀ c ∈ digits, c.isDigit) : digitsValue digits < 10 ^ digits.length := by
  induction digits with
  | nil => simp
  | cons c rest ih =>
    obtain ⟨-, hhigh⟩ := digit_bounds (h c List.mem_cons_self)
    have hrest := ih fun d hd => h d (List.mem_cons_of_mem _ hd)
    have hdigit : c.toNat - 48 ≤ 9 := by omega
    calc digitsValue (c :: rest) = (c.toNat - 48) * 10 ^ rest.length + digitsValue rest :=
          digitsValue_cons c rest
      _ < 9 * 10 ^ rest.length + 10 ^ rest.length :=
          Nat.add_lt_add_of_le_of_lt (Nat.mul_le_mul_right _ hdigit) hrest
      _ = 10 ^ (c :: rest).length := by
          rw [List.length_cons, pow_succ]
          ring

/-- A first digit other than zero counts at least one of its place. -/
theorem pow_le_digitsValue (hc : c.isDigit) (hne : c ≠ '0') :
    10 ^ rest.length ≤ digitsValue (c :: rest) := by
  obtain ⟨hlow, -⟩ := digit_bounds hc
  have hdigit : 1 ≤ c.toNat - 48 := by
    have hzero : c.toNat ≠ 48 := fun h => hne (eq_zero_of_toNat h)
    omega
  rw [digitsValue_cons]
  exact le_add_of_le_of_nonneg (Nat.le_mul_of_pos_left _ hdigit) (Nat.zero_le _)

theorem digitsValue_zeros (h : ∀ c ∈ digits, c = '0') : digitsValue digits = 0 := by
  rw [List.eq_replicate_iff.mpr ⟨rfl, h⟩]
  simp

theorem digitsValue_eq_zero (hdigits : ∀ c ∈ digits, c.isDigit) :
    digitsValue digits = 0 ↔ ∀ c ∈ digits, c = '0' := by
  constructor
  · intro h
    induction digits with
    | nil => simp
    | cons c rest ih =>
      have hc := hdigits c List.mem_cons_self
      by_cases hzero : c = '0'
      · subst hzero
        rw [digitsValue_cons] at h
        have hrest := ih (fun d hd => hdigits d (List.mem_cons_of_mem _ hd)) (by omega)
        simpa using hrest
      · have hpos : 10 ^ rest.length ≤ _ := pow_le_digitsValue hc hzero
        have hpow : 0 < 10 ^ rest.length := by positivity
        omega
  · exact digitsValue_zeros

/-- Leading zeros add nothing. -/
theorem digitsValue_dropWhile (digits : List Char) :
    digitsValue (digits.dropWhile (· == '0')) = digitsValue digits := by
  induction digits with
  | nil => rfl
  | cons c rest ih =>
    by_cases hc : c = '0'
    · subst hc
      rw [List.dropWhile_cons_of_pos (by simp), ih, digitsValue_cons]
      simp
    · rw [List.dropWhile_cons_of_neg (by simpa using hc)]

/-- The value of all but the last digits, and of the last digits. -/
theorem digitsValue_split (digits : List Char) (hk : k ≤ digits.length) :
    digitsValue digits = digitsValue (digits.take (digits.length - k)) * 10 ^ k +
      digitsValue (digits.drop (digits.length - k)) := by
  have hlength : (digits.drop (digits.length - k)).length = k := by
    rw [List.length_drop]
    omega
  conv_lhs => rw [← List.take_append_drop (digits.length - k) digits]
  rw [digitsValue_append, hlength]

theorem pow_dvd_digitsValue (hdigits : ∀ c ∈ digits, c.isDigit) (hk : k ≤ digits.length) :
    10 ^ k ∣ digitsValue digits ↔ ∀ c ∈ digits.drop (digits.length - k), c = '0' := by
  have hlast : ∀ c ∈ digits.drop (digits.length - k), c.isDigit :=
    fun c hc => hdigits c (List.mem_of_mem_drop hc)
  have hlength : (digits.drop (digits.length - k)).length = k := by
    rw [List.length_drop]
    omega
  have hlt := digitsValue_lt hlast
  rw [hlength] at hlt
  rw [digitsValue_split digits hk, ← digitsValue_eq_zero hlast, Nat.dvd_add_right (Nat.dvd_mul_left _ _)]
  constructor
  · intro hdvd
    exact Nat.eq_zero_of_dvd_of_lt hdvd hlt
  · intro hzero
    rw [hzero]
    exact Nat.dvd_zero _

theorem digitsValue_take (hk : k ≤ digits.length)
    (hzeros : ∀ c ∈ digits.drop (digits.length - k), c = '0') :
    digitsValue digits = digitsValue (digits.take (digits.length - k)) * 10 ^ k := by
  rw [digitsValue_split digits hk, digitsValue_zeros hzeros, add_zero]

/-! ### Texts cut into parts -/

/-- A text cut at the first character that is marked. -/
def cutAt (mark : Char → Bool) : List Char → Option (List Char × Char × List Char)
  | [] => none
  | c :: rest =>
    if mark c then some ([], c, rest)
    else (cutAt mark rest).map fun (before, found, after) => (c :: before, found, after)

/-- A sign in front of a text, and the rest. -/
def takeSign : List Char → Option Char × List Char
  | [] => (none, [])
  | c :: rest => if c = '-' ∨ c = '+' then (some c, rest) else (none, c :: rest)

variable {mark : Char → Bool} {text before after : List Char}

theorem cutAt_eq_none (h : ∀ c ∈ text, ¬ mark c) : cutAt mark text = none := by
  induction text with
  | nil => rfl
  | cons c rest ih =>
    rw [cutAt, if_neg (h c List.mem_cons_self), ih fun d hd => h d (List.mem_cons_of_mem _ hd)]
    simp

theorem cutAt_append (hbefore : ∀ c ∈ before, ¬ mark c) (hc : mark c) :
    cutAt mark (before ++ c :: after) = some (before, c, after) := by
  induction before with
  | nil => simp [cutAt, hc]
  | cons d rest ih =>
    rw [List.cons_append, cutAt, if_neg (hbefore d List.mem_cons_self),
      ih fun d hd => hbefore d (List.mem_cons_of_mem _ hd)]
    simp

theorem eq_of_cutAt (h : cutAt mark text = some (before, c, after)) :
    text = before ++ c :: after ∧ mark c := by
  induction text generalizing before with
  | nil => simp [cutAt] at h
  | cons d rest ih =>
    by_cases hd : mark d
    · rw [cutAt, if_pos hd] at h
      cases h
      exact ⟨by simp, hd⟩
    · rw [cutAt, if_neg hd] at h
      obtain ⟨⟨b, found, a⟩, hrest, heq⟩ := Option.map_eq_some_iff.mp h
      cases heq
      obtain ⟨hsplit, hmark⟩ := ih hrest
      exact ⟨by rw [hsplit, List.cons_append], hmark⟩

theorem takeSign_append (text : List Char) :
    (takeSign text).1.toList ++ (takeSign text).2 = text := by
  unfold takeSign
  split
  · simp
  · split <;> simp

theorem takeSign_of_head (h : ∀ c ∈ text.head?, ¬ (c = '-' ∨ c = '+')) :
    takeSign text = (none, text) := by
  cases text with
  | nil => rfl
  | cons c rest => rw [takeSign, if_neg (h c (by simp))]

theorem takeSign_of_digits (h : ∀ c ∈ text, c.isDigit) : takeSign text = (none, text) := by
  apply takeSign_of_head
  intro c hc hsign
  have hdigit := h c (List.mem_of_mem_head? hc)
  obtain rfl | rfl := hsign <;> simp at hdigit

/-! ### Integers -/

def signedValue (sign : Option Char) (digits : List Char) : ℤ :=
  if sign = some '-' then -digitsValue digits else digitsValue digits

/-- An integer of so many bits: an optional sign and at least one digit. -/
def parseSigned (bits : ℕ) (text : List Char) : Option ℤ :=
  let (sign, digits) := takeSign text
  let value := signedValue sign digits
  if digits.isEmpty || !digits.all Char.isDigit then none
  else if -2 ^ (bits - 1) ≤ value ∧ value < 2 ^ (bits - 1) then some value
  else none

theorem parseSigned_bounds {bits : ℕ} {value : ℤ} (h : parseSigned bits text = some value) :
    -2 ^ (bits - 1) ≤ value ∧ value < 2 ^ (bits - 1) := by
  unfold parseSigned at h
  simp only at h
  split at h
  · cases h
  · split at h
    · cases h
      assumption
    · cases h

/-- Digits without a sign are read as their value when it fits. -/
theorem parseSigned_digits (bits : ℕ) (hne : digits ≠ []) (hdigits : ∀ c ∈ digits, c.isDigit) :
    parseSigned bits digits =
      if (digitsValue digits : ℤ) < 2 ^ (bits - 1) then some (digitsValue digits : ℤ) else none := by
  have hall : digits.all Char.isDigit = true := List.all_eq_true.mpr hdigits
  have hlow : -2 ^ (bits - 1) ≤ (digitsValue digits : ℤ) := by
    have hpow : (0 : ℤ) ≤ 2 ^ (bits - 1) := by positivity
    omega
  simp [parseSigned, signedValue, takeSign_of_digits hdigits, hne, hall, hlow]

theorem parseSigned_cons {bits : ℕ} {value : ℤ} (hc : c = '-' ∨ c = '+') (hne : digits ≠ [])
    (hdigits : ∀ d ∈ digits, d.isDigit) (hvalue : signedValue (some c) digits = value)
    (hlow : -2 ^ (bits - 1) ≤ value) (hhigh : value < 2 ^ (bits - 1)) :
    parseSigned bits (c :: digits) = some value := by
  have hall : digits.all Char.isDigit = true := List.all_eq_true.mpr hdigits
  simp [parseSigned, takeSign, hc, hne, hall, hvalue, hlow, hhigh]

/-! ### Numerals -/

def isExponentMark (c : Char) : Bool := c == 'e' || c == 'E'

/-- The parts of a decimal text. -/
structure Numeral where
  sign : Option Char
  whole : List Char
  fraction : Option (List Char)
  exponent : Option (Char × List Char)
  deriving DecidableEq

namespace Numeral

variable {n : Numeral}

def mantissa (n : Numeral) : List Char := n.whole ++ n.fraction.elim [] ('.' :: ·)

def chars (n : Numeral) : List Char :=
  n.sign.toList ++ n.mantissa ++ n.exponent.elim [] fun (mark, text) => mark :: text

def fractionDigits (n : Numeral) : List Char := n.fraction.getD []

def significand (n : Numeral) : List Char := n.whole ++ n.fractionDigits

def negative (n : Numeral) : Bool := n.sign == some '-'

/-- The exponent, an integer of 32 bits that is zero when absent. -/
def exponentValue (n : Numeral) : Option ℤ :=
  n.exponent.elim (some 0) fun (_, text) => parseSigned 32 text

/-- The exact number that the parts stand for, at an exponent. -/
def value (n : Numeral) (exponent : ℤ) : ℚ :=
  (if n.negative then -1 else 1) * digitsValue n.significand * 10 ^ (exponent - n.fractionDigits.length)

/-- A sign or none, digits with at most one point and at least one digit, an exponent or none. -/
structure Decimal (n : Numeral) : Prop where
  sign : ∀ c ∈ n.sign, c = '-' ∨ c = '+'
  digits : ∀ c ∈ n.significand, c.isDigit
  nonempty : n.significand ≠ []
  mark : ∀ part ∈ n.exponent, isExponentMark part.1

end Numeral

def splitExponent (text : List Char) : List Char × Option (Char × List Char) :=
  match cutAt isExponentMark text with
  | some (mantissa, mark, exponent) => (mantissa, some (mark, exponent))
  | none => (text, none)

def splitPoint (text : List Char) : List Char × Option (List Char) :=
  match cutAt (· == '.') text with
  | some (whole, _, fraction) => (whole, some fraction)
  | none => (text, none)

/-- The parts of a text, whatever it is. -/
def scan (text : List Char) : Numeral where
  sign := (takeSign (splitExponent text).1).1
  whole := (splitPoint (takeSign (splitExponent text).1).2).1
  fraction := (splitPoint (takeSign (splitExponent text).1).2).2
  exponent := (splitExponent text).2

theorem splitExponent_append (text : List Char) :
    (splitExponent text).1 ++ ((splitExponent text).2.elim [] fun (mark, text) => mark :: text) =
      text := by
  unfold splitExponent
  split
  · next mantissa mark exponent hcut => exact (eq_of_cutAt hcut).1.symm
  · simp

theorem splitExponent_mark (text : List Char) :
    ∀ part ∈ (splitExponent text).2, isExponentMark part.1 := by
  intro part hpart
  unfold splitExponent at hpart
  split at hpart
  · next mantissa mark exponent hcut =>
    simp only [Option.mem_def, Option.some.injEq] at hpart
    subst hpart
    exact (eq_of_cutAt hcut).2
  · simp at hpart

theorem splitPoint_append (text : List Char) :
    (splitPoint text).1 ++ (splitPoint text).2.elim [] ('.' :: ·) = text := by
  unfold splitPoint
  split
  · next whole point fraction hcut =>
    obtain ⟨hsplit, hpoint⟩ := eq_of_cutAt hcut
    have hdot : point = '.' := by simpa using hpoint
    rw [hsplit, hdot]
    simp
  · simp

theorem scan_chars (text : List Char) : (scan text).chars = text := by
  simp only [scan, Numeral.chars, Numeral.mantissa, splitPoint_append, takeSign_append,
    splitExponent_append]

namespace Numeral

variable {n : Numeral}

theorem significand_length_le (n : Numeral) : n.significand.length ≤ n.chars.length := by
  unfold significand fractionDigits chars mantissa
  cases n.fraction with
  | none =>
    simp only [Option.getD_none, Option.elim_none, List.length_append, List.length_nil]
    omega
  | some fraction =>
    simp only [Option.getD_some, Option.elim_some, List.length_append, List.length_cons]
    omega

theorem fractionDigits_length_le (n : Numeral) : n.fractionDigits.length ≤ n.chars.length := by
  have hle := n.significand_length_le
  rw [significand, List.length_append] at hle
  omega

theorem Decimal.mantissa_chars (h : n.Decimal) :
    ∀ c ∈ n.mantissa, c.isDigit ∨ c = '.' := by
  intro c hc
  obtain hwhole | hfraction := List.mem_append.mp hc
  · exact .inl (h.digits c (List.mem_append_left _ hwhole))
  · cases hn : n.fraction with
    | none => simp [hn] at hfraction
    | some fraction =>
      simp only [hn, Option.elim_some, List.mem_cons] at hfraction
      obtain hdot | hdigit := hfraction
      · exact .inr hdot
      · refine .inl (h.digits c (List.mem_append_right _ ?_))
        simpa [fractionDigits, hn] using hdigit

theorem Decimal.splitExponent_eq (h : n.Decimal) :
    splitExponent n.chars = (n.sign.toList ++ n.mantissa, n.exponent) := by
  have hunmarked : ∀ c ∈ n.sign.toList ++ n.mantissa, ¬ isExponentMark c := by
    intro c hc
    obtain hsign | hmantissa := List.mem_append.mp hc
    · obtain rfl | rfl := h.sign c (Option.mem_toList.mp hsign) <;> decide
    · obtain hdigit | rfl := h.mantissa_chars c hmantissa
      · have hbounds := digit_bounds hdigit
        have hlow : c ≠ 'e' ∧ c ≠ 'E' := by
          constructor <;> intro heq <;> subst heq <;> simp at hbounds
        simp [isExponentMark, hlow]
      · decide
  unfold splitExponent chars
  cases hn : n.exponent with
  | none => simp [cutAt_eq_none hunmarked]
  | some part =>
    rw [Option.elim_some, cutAt_append hunmarked (h.mark part hn)]

theorem Decimal.takeSign_eq (h : n.Decimal) :
    takeSign (n.sign.toList ++ n.mantissa) = (n.sign, n.mantissa) := by
  cases hn : n.sign with
  | none =>
    rw [Option.toList_none, List.nil_append]
    apply takeSign_of_head
    intro c hc hsign
    obtain hdigit | rfl := h.mantissa_chars c (List.mem_of_mem_head? hc)
    · obtain rfl | rfl := hsign <;> simp at hdigit
    · simp at hsign
  | some c => simp [takeSign, h.sign c hn]

theorem Decimal.splitPoint_eq (h : n.Decimal) :
    splitPoint n.mantissa = (n.whole, n.fraction) := by
  have hunmarked : ∀ c ∈ n.whole, ¬ (c == '.') := by
    intro c hc hdot
    have hdigit := h.digits c (List.mem_append_left _ hc)
    rw [beq_iff_eq.mp hdot] at hdigit
    simp at hdigit
  unfold splitPoint mantissa
  cases hn : n.fraction with
  | none => simp [cutAt_eq_none hunmarked]
  | some fraction => rw [Option.elim_some, cutAt_append hunmarked (by simp)]

/-- The text of a numeral can be read in one way only. -/
theorem Decimal.scan_eq (h : n.Decimal) : scan n.chars = n := by
  simp only [scan, h.splitExponent_eq, h.takeSign_eq, h.splitPoint_eq]

/-- A text spells a numeral when its own parts are one. -/
theorem exists_decimal (text : List Char) (P : Numeral → Prop) :
    (∃ n : Numeral, n.Decimal ∧ n.chars = text ∧ P n) ↔ (scan text).Decimal ∧ P (scan text) := by
  constructor
  · intro ⟨n, hn, hchars, hP⟩
    rw [← hchars, hn.scan_eq]
    exact ⟨hn, hP⟩
  · intro ⟨hdecimal, hP⟩
    exact ⟨scan text, hdecimal, scan_chars text, hP⟩

end Numeral

theorem takeSign_sign (text : List Char) : ∀ c ∈ (takeSign text).1, c = '-' ∨ c = '+' := by
  intro c hc
  unfold takeSign at hc
  split at hc
  · simp at hc
  · split at hc
    · next hsign =>
      simp only [Option.mem_def, Option.some.injEq] at hc
      exact hc ▸ hsign
    · simp at hc

/-- A text spells a numeral unless a digit is missing or something else stands in its place. -/
theorem scan_decimal (text : List Char) :
    (scan text).Decimal ↔ (scan text).significand ≠ [] ∧ (scan text).significand.all Char.isDigit := by
  constructor
  · intro h
    exact ⟨h.nonempty, List.all_eq_true.mpr h.digits⟩
  · intro ⟨hne, hall⟩
    exact {
      sign := takeSign_sign _
      digits := List.all_eq_true.mp hall
      nonempty := hne
      mark := splitExponent_mark text }

/-! ### Scaled values -/

/-- A power of ten below one is moved to the other side. -/
theorem mul_zpow_neg_eq_iff (x y : ℚ) (e : ℕ) : x * 10 ^ (-(e : ℤ)) = y ↔ x = y * 10 ^ e := by
  have hpow : ((10 : ℚ) ^ e) ≠ 0 := by positivity
  rw [zpow_neg, zpow_natCast, ← div_eq_mul_inv, div_eq_iff hpow]

/-- A value times a power of ten is an integer when the power is none below one or divides. -/
theorem isInt_mul_zpow (n : ℕ) (z : ℤ) :
    (∃ m : ℤ, (n : ℚ) * 10 ^ z = m) ↔ 10 ^ (-z).toNat ∣ n := by
  by_cases hz : 0 ≤ z
  · have hzero : (-z).toNat = 0 := by omega
    obtain ⟨e, rfl⟩ := Int.eq_ofNat_of_zero_le hz
    rw [hzero, pow_zero]
    refine iff_of_true ⟨n * 10 ^ e, ?_⟩ (Nat.one_dvd n)
    push_cast
    rw [zpow_natCast]
  · obtain ⟨e, he⟩ : ∃ e : ℕ, z = -e := ⟨(-z).toNat, by omega⟩
    subst he
    have htoNat : (- -(e : ℤ)).toNat = e := by omega
    rw [htoNat]
    constructor
    · intro ⟨m, hm⟩
      have hint : (n : ℤ) = m * 10 ^ e := by exact_mod_cast (mul_zpow_neg_eq_iff _ _ e).mp hm
      exact Int.natCast_dvd_natCast.mp ⟨m, by push_cast; rw [hint, mul_comm]⟩
    · intro ⟨m, hm⟩
      refine ⟨m, (mul_zpow_neg_eq_iff _ _ e).mpr ?_⟩
      rw [hm, mul_comm]
      push_cast
      ring

/-! ### Fractions of a fixed width -/

/-- A number in at least so many digits. -/
def padded (width n : ℕ) : List Char := (Nat.toDigits 10 n).leftpad width '0'

theorem padded_length {width n : ℕ} (hwidth : 0 < width) (hn : n < 10 ^ width) :
    (padded width n).length = width := by
  have hlength : (Nat.toDigits 10 n).length ≤ width :=
    (Nat.length_toDigits_le_iff (by omega) hwidth).mpr hn
  rw [padded, List.length_leftpad]
  omega

theorem padded_value (width n : ℕ) : digitsValue (padded width n) = n := by
  simp [padded, List.leftpad, Nat.ofDigitChars_append]

theorem isDigit_of_mem_padded {width n : ℕ} (hc : c ∈ padded width n) : c.isDigit := by
  rw [padded, List.leftpad, List.mem_append] at hc
  obtain hzero | hdigit := hc
  · rw [List.eq_of_mem_replicate hzero]
    rfl
  · exact Nat.isDigit_of_mem_toDigits (by omega) (by omega) hdigit

/-- Without its trailing zeros a fraction has its value at a shorter length. -/
theorem trimmed_value {width n : ℕ} (whole : List Char) (hwidth : 0 < width) (hn : n < 10 ^ width) :
    ∃ k, ((padded width n).rdropWhile (· == '0')).length + k = width ∧
      digitsValue (whole ++ (padded width n).rdropWhile (· == '0')) * 10 ^ k =
        digitsValue whole * 10 ^ width + n := by
  let zeros := (padded width n).rtakeWhile (· == '0')
  have hparts : (padded width n).rdropWhile (· == '0') ++ zeros = padded width n :=
    List.rdropWhile_append_rtakeWhile
  have hlength : ((padded width n).rdropWhile (· == '0')).length + zeros.length = width := by
    rw [← List.length_append, hparts, padded_length hwidth hn]
  have hzeros : digitsValue zeros = 0 :=
    digitsValue_zeros fun c hc => by simpa using List.mem_rtakeWhile_imp hc
  refine ⟨zeros.length, hlength, ?_⟩
  have hwhole := digitsValue_append (whole ++ (padded width n).rdropWhile (· == '0')) zeros
  rw [hzeros, add_zero] at hwhole
  rw [← hwhole, List.append_assoc, hparts, digitsValue_append, padded_length hwidth hn, padded_value]

end Encoding
