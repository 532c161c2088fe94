import NyxId.Encoding.Records
import NyxId.MachineQuota.Model
import NyxId.Outcomes
import Mathlib.Tactic.FieldSimp

/-!
The grammar of quantities and their exact values. What a text is read as is the value that the
grammar gives it in nanounits, no operation overflows unnoticed, and the text that is written for
a value is read back.
-/

namespace NyxId.MachineQuota

open Encoding Permissions

/-! ### The grammar -/

/-- The powers of ten that Kubernetes has suffixes for. -/
def decimalSuffixes : List (List Char × ℤ) :=
  [([], 0), (['n'], -9), (['u'], -6), (['m'], -3), (['k'], 3), (['M'], 6), (['G'], 9), (['T'], 12),
    (['P'], 15), (['E'], 18)]

/-- Its powers of two. -/
def binarySuffixes : List (List Char × ℤ) :=
  [(['K', 'i'], 10), (['M', 'i'], 20), (['G', 'i'], 30), (['T', 'i'], 40), (['P', 'i'], 50),
    (['E', 'i'], 60)]

/-- The suffixes of powers of ten that are read: a capital K stands for a small one. -/
def acceptedSuffixes : List (List Char × ℤ) := (['K'], 3) :: decimalSuffixes

/-- What a suffix multiplies by, when these are the suffixes of powers of ten. -/
inductive Multiplies (suffixes : List (List Char × ℤ)) : List Char → ℚ → Prop where
  | decimal {suffix : List Char} {power : ℤ} (h : (suffix, power) ∈ suffixes) :
      Multiplies suffixes suffix (10 ^ power)
  | binary {suffix : List Char} {power : ℤ} (h : (suffix, power) ∈ binarySuffixes) :
      Multiplies suffixes suffix (2 ^ power)
  | exponent {mark : Char} {sign : Option Char} {digits : List Char} (hmark : isExponentMark mark)
      (hsign : ∀ c ∈ sign, c = '-' ∨ c = '+') (hne : digits ≠ [])
      (hdigits : ∀ d ∈ digits, d.isDigit) :
      Multiplies suffixes (mark :: (sign.toList ++ digits)) (10 ^ signedValue sign digits)

/-- A quantity that is not negative: a plus or none, digits with at most one point, a suffix. -/
inductive IsQuantity (suffixes : List (List Char × ℤ)) : List Char → ℚ → Prop where
  | mk {plus : Bool} {whole suffix : List Char} {fraction : Option (List Char)} {multiple : ℚ}
      (hne : whole ++ fraction.getD [] ≠ []) (hdigits : ∀ d ∈ whole ++ fraction.getD [], d.isDigit)
      (hsuffix : Multiplies suffixes suffix multiple) :
      IsQuantity suffixes
        ((if plus then ['+'] else []) ++ (whole ++ fraction.elim [] ('.' :: ·)) ++ suffix)
        (digitsValue (whole ++ fraction.getD []) / 10 ^ (fraction.getD []).length * multiple)

/-! ### Answers -/

section Answers

variable {α β : Type} {answer : Option α} {first : Except Refusal α} {next : α → Except Refusal β}
variable {x : α} {y : β}

@[simp] theorem orUnknown_some (x : α) : orUnknown (some x) = .ok x := rfl

theorem orUnknown_eq_ok : orUnknown answer = .ok x ↔ answer = some x := by
  cases answer <;> simp [orUnknown]

theorem orUnknown_ne_overflow : orUnknown answer ≠ .error .overflow := by
  cases answer <;> simp [orUnknown]

theorem ok_bind (x : α) : (Except.ok x >>= next) = next x := rfl

/-- A computation overflows nowhere when none of its steps does. -/
theorem bind_ne_overflow (hfirst : first ≠ .error .overflow)
    (hnext : ∀ x, first = .ok x → next x ≠ .error .overflow) :
    (first >>= next) ≠ .error .overflow := by
  cases hx : first with
  | error refusal =>
    intro h
    apply hfirst
    rw [hx]
    cases h
    rfl
  | ok x => exact hnext x hx

end Answers

/-! ### Digits at a scale -/

section Scales

variable {value decimal power v : ℤ} {places base : ℕ}

theorem divides_pow (k : ℕ) : divides value (10 ^ k) := by
  have hpow : (0 : ℤ) < 10 ^ k := by positivity
  have hne : (10 : ℤ) ^ k ≠ 0 ∧ (10 : ℤ) ^ k ≠ -1 := by omega
  simp [divides, hne.1, hne.2]

theorem shifted_ne_overflow : shifted value decimal ≠ .error .overflow := by
  unfold shifted
  split
  · exact bind_ne_overflow orUnknown_ne_overflow fun _ _ => orUnknown_ne_overflow
  · refine bind_ne_overflow orUnknown_ne_overflow fun divisor hdivisor => ?_
    obtain ⟨rfl, -, -⟩ := checkedI128_eq_some.mp (orUnknown_eq_ok.mp hdivisor)
    simp only [div128, rem128, divides_pow, if_true, ok_bind]
    split <;> simp

theorem scaled_ne_overflow : scaled value places base power ≠ .error .overflow := by
  have hmove : ∀ decimal, movePoint base power decimal ≠ .error .overflow := by
    intro decimal
    unfold movePoint
    split
    · exact orUnknown_ne_overflow
    · simp
  have hmultiply : multiply base power value ≠ .error .overflow := by
    unfold multiply
    split
    · exact orUnknown_ne_overflow
    · simp
  unfold scaled
  split
  · simp
  · exact bind_ne_overflow orUnknown_ne_overflow fun _ _ => bind_ne_overflow (hmove _) fun _ _ =>
      bind_ne_overflow hmultiply fun _ _ => shifted_ne_overflow

/-- Moving the decimal places is exact. -/
theorem shifted_value (h : shifted value decimal = .ok v) : (value : ℚ) * 10 ^ decimal = v := by
  unfold shifted at h
  split at h
  · next hpos =>
    obtain ⟨factor, hfactor, hproduct⟩ := bind_eq_ok.mp h
    obtain ⟨rfl, -, -⟩ := checkedI128_eq_some.mp (orUnknown_eq_ok.mp hfactor)
    obtain ⟨rfl, -, -⟩ := checkedI128_eq_some.mp (orUnknown_eq_ok.mp hproduct)
    obtain ⟨e, rfl⟩ := Int.eq_ofNat_of_zero_le hpos
    push_cast
    rw [Int.toNat_natCast, zpow_natCast]
  · next hneg =>
    obtain ⟨divisor, hdivisor, hrest⟩ := bind_eq_ok.mp h
    obtain ⟨rfl, -, -⟩ := checkedI128_eq_some.mp (orUnknown_eq_ok.mp hdivisor)
    simp only [div128, rem128, divides_pow, if_true, ok_bind] at hrest
    split at hrest
    · next hzero =>
      cases hrest
      obtain ⟨e, rfl⟩ : ∃ e : ℕ, decimal = -e := ⟨(-decimal).toNat, by omega⟩
      rw [Int.natAbs_neg, Int.natAbs_natCast] at hzero ⊢
      have hexact : value = value.tdiv (10 ^ e) * 10 ^ e :=
        (Int.tdiv_mul_cancel (Int.dvd_of_tmod_eq_zero hzero)).symm
      apply (mul_zpow_neg_eq_iff _ _ e).mpr
      exact_mod_cast hexact
    · simp at hrest

theorem checkedI32_eq {x y : ℤ} (h : checkedI32 x = some y) : y = x := by
  unfold checkedI32 at h
  split at h
  · cases h
    rfl
  · simp at h

/-- Scaling is exact: the answer is the value of the digits in nanounits. -/
theorem scaled_value (hbase : base = 10 ∨ base = 2 ∧ 0 ≤ power)
    (h : scaled value places base power = .ok v) :
    (value : ℚ) / 10 ^ places * (base : ℚ) ^ power * 10 ^ 9 = v := by
  have hpow : ((10 : ℚ) ^ places) ≠ 0 := by positivity
  unfold scaled at h
  split at h
  · simp at h
  · obtain ⟨decimal, hdecimal, h⟩ := bind_eq_ok.mp h
    obtain ⟨length, hlength, hsub⟩ := Option.bind_eq_some_iff.mp (orUnknown_eq_ok.mp hdecimal)
    have hlengthEq := checkedI32_eq hlength
    have hdecimalEq := checkedI32_eq hsub
    subst hlengthEq hdecimalEq
    have hplaces : ((10 : ℚ)) ^ (9 - (places : ℤ)) * 10 ^ places = 10 ^ 9 := by
      rw [← zpow_natCast (10 : ℚ) places, ← zpow_add₀ (by norm_num)]
      norm_num
    obtain ⟨moved, hmoved, h⟩ := bind_eq_ok.mp h
    obtain ⟨product, hproduct, h⟩ := bind_eq_ok.mp h
    rw [← shifted_value h, ← hplaces]
    obtain rfl | ⟨rfl, hpower⟩ := hbase
    · rw [movePoint, if_pos rfl] at hmoved
      have hmovedEq := checkedI32_eq (orUnknown_eq_ok.mp hmoved)
      have hproductEq : product = value := by simpa [multiply] using hproduct.symm
      rw [hmovedEq, hproductEq, zpow_add₀ (by norm_num)]
      push_cast
      field_simp
    · have hmovedEq : moved = 9 - (places : ℤ) := by simpa [movePoint] using hmoved.symm
      rw [multiply, if_pos rfl] at hproduct
      obtain ⟨factor, hfactor, hchecked⟩ := Option.bind_eq_some_iff.mp (orUnknown_eq_ok.mp hproduct)
      obtain ⟨rfl, -, -⟩ := checkedI128_eq_some.mp hfactor
      obtain ⟨rfl, -, -⟩ := checkedI128_eq_some.mp hchecked
      obtain ⟨e, rfl⟩ := Int.eq_ofNat_of_zero_le hpower
      rw [hmovedEq]
      push_cast
      rw [Int.toNat_natCast, zpow_natCast]
      field_simp

end Scales

/-! ### Texts -/

section Texts

variable {text suffix : List Char} {base : ℕ} {power v : ℤ}

/-- An integer is a sign or none and digits. -/
theorem exists_of_parseSigned {bits : ℕ} (h : parseSigned bits text = some v) :
    ∃ sign digits, text = sign.toList ++ digits ∧ (∀ c ∈ sign, c = '-' ∨ c = '+') ∧ digits ≠ [] ∧
      (∀ d ∈ digits, d.isDigit) ∧ v = signedValue sign digits := by
  unfold parseSigned at h
  simp only at h
  split at h
  · simp at h
  · next hdigits =>
    simp only [Bool.or_eq_true, List.isEmpty_iff, not_or, Bool.not_eq_true', Bool.not_eq_false,
      List.all_eq_true] at hdigits
    split at h
    · cases h
      exact ⟨(takeSign text).1, (takeSign text).2, (takeSign_append text).symm,
        takeSign_sign text, hdigits.1, hdigits.2, rfl⟩
    · simp at h

theorem suffixScale_multiplies (h : suffixScale suffix = some (base, power)) :
    Multiplies acceptedSuffixes suffix ((base : ℚ) ^ power) ∧ (base = 10 ∨ base = 2 ∧ 0 ≤ power) := by
  have hdecimal : ∀ {power : ℤ}, (suffix, power) ∈ acceptedSuffixes →
      Multiplies acceptedSuffixes suffix (((10 : ℕ) : ℚ) ^ power) := fun h => .decimal h
  have hbinary : ∀ {power : ℤ}, (suffix, power) ∈ binarySuffixes →
      Multiplies acceptedSuffixes suffix (((2 : ℕ) : ℚ) ^ power) := fun h => .binary h
  unfold suffixScale at h
  split at h
  case h_18 mark exponent hother =>
    split at h
    · next hmark =>
      obtain ⟨value, hvalue, heq⟩ := Option.map_eq_some_iff.mp h
      cases heq
      obtain ⟨sign, digits, rfl, hsign, hne, hdigits, rfl⟩ := exists_of_parseSigned hvalue
      exact ⟨.exponent hmark hsign hne hdigits, .inl rfl⟩
    · simp at h
  case h_12 | h_13 | h_14 | h_15 | h_16 | h_17 =>
    cases h
    exact ⟨hbinary (by simp [binarySuffixes]), .inr ⟨rfl, by omega⟩⟩
  all_goals
    cases h
    exact ⟨hdecimal (by simp [acceptedSuffixes, decimalSuffixes]), .inl rfl⟩

theorem exists_plus (text : List Char) :
    ∃ plus : Bool, text = (if plus then ['+'] else []) ++ stripPlus text := by
  unfold stripPlus
  split
  · exact ⟨true, rfl⟩
  · exact ⟨false, rfl⟩

theorem splitPoint_fst (text : List Char) : '.' ∉ (splitPoint text).1 := by
  unfold splitPoint
  induction text with
  | nil => simp [cutAt]
  | cons c rest ih =>
    by_cases hc : c = '.'
    · simp [cutAt, hc]
    · have hmark : (c == '.') = false := by simpa using hc
      rw [cutAt, hmark]
      cases hcut : cutAt (· == '.') rest with
      | none =>
        rw [hcut] at ih
        simpa [Ne.symm hc] using ih
      | some parts =>
        rw [hcut] at ih
        simpa [Ne.symm hc] using ih

/-- What stands around the only point of a number is digits. -/
theorem splitPoint_digits (hnumber : ∀ c ∈ text, inNumber c)
    (hpoint : '.' ∉ (splitPoint text).2.getD []) :
    ∀ d ∈ (splitPoint text).1 ++ (splitPoint text).2.getD [], d.isDigit := by
  intro d hd
  have hmem : d ∈ text := by
    rw [← splitPoint_append text]
    obtain hwhole | hfraction := List.mem_append.mp hd
    · exact List.mem_append_left _ hwhole
    · apply List.mem_append_right
      cases hpart : (splitPoint text).2 with
      | none => simp [hpart] at hfraction
      | some fraction =>
        rw [hpart, Option.getD_some] at hfraction
        exact List.mem_cons_of_mem _ hfraction
  have hne : d ≠ '.' := by
    rintro rfl
    obtain hwhole | hfraction := List.mem_append.mp hd
    · exact splitPoint_fst text hwhole
    · exact hpoint hfraction
  simpa [inNumber, hne] using hnumber d hmem

def numberOf (text : List Char) : List Char := (stripPlus text).takeWhile inNumber

def wholeOf (text : List Char) : List Char := (splitPoint (numberOf text)).1

def fractionOf (text : List Char) : List Char := (splitPoint (numberOf text)).2.getD []

/-- What is read is the scaled value of digits and of a suffix. -/
theorem quantityChars_parts (h : quantityChars text = .ok v) :
    wholeOf text ++ fractionOf text ≠ [] ∧ (∀ d ∈ wholeOf text ++ fractionOf text, d.isDigit) ∧
      (digitsValue (wholeOf text ++ fractionOf text) : ℤ) < 2 ^ 127 ∧
      ∃ base power, suffixScale ((stripPlus text).dropWhile inNumber) = some (base, power) ∧
        scaled (digitsValue (wholeOf text ++ fractionOf text) : ℤ) (fractionOf text).length base
          power = .ok v := by
  unfold quantityChars at h
  simp only at h
  split at h
  · simp at h
  · next hread =>
    simp only [Bool.or_eq_true, Bool.and_eq_true, List.isEmpty_iff, List.contains_eq_mem,
      decide_eq_true_eq, not_or] at hread
    obtain ⟨value, hvalue, h⟩ := bind_eq_ok.mp h
    obtain ⟨⟨base, power⟩, hscale, h⟩ := bind_eq_ok.mp h
    have hdigits : ∀ d ∈ wholeOf text ++ fractionOf text, d.isDigit :=
      splitPoint_digits (fun c hc => List.mem_takeWhile_imp hc) hread.2
    have hne : wholeOf text ++ fractionOf text ≠ [] :=
      fun hnil => hread.1 (List.append_eq_nil_iff.mp hnil)
    have hparse : parseSigned 128 (wholeOf text ++ fractionOf text) = some value :=
      orUnknown_eq_ok.mp hvalue
    rw [parseSigned_digits 128 hne hdigits] at hparse
    split at hparse
    · next hlt =>
      cases hparse
      exact ⟨hne, hdigits, hlt, base, power, orUnknown_eq_ok.mp hscale, h⟩
    · simp at hparse

theorem quantityChars_value (h : quantityChars text = .ok v) :
    ∃ value, IsQuantity acceptedSuffixes text value ∧ value * 10 ^ 9 = v := by
  obtain ⟨plus, htext⟩ := exists_plus text
  obtain ⟨hne, hdigits, -, base, power, hscale, h⟩ := quantityChars_parts h
  obtain ⟨hmultiple, hbase⟩ := suffixScale_multiplies hscale
  have hwhole := @IsQuantity.mk _ plus _ _ _ _ hne hdigits hmultiple
  rw [wholeOf, splitPoint_append, List.append_assoc, numberOf, List.takeWhile_append_dropWhile,
    ← htext] at hwhole
  refine ⟨_, hwhole, ?_⟩
  rw [← scaled_value hbase h, Int.cast_natCast]
  rfl

/-- No suffix of Kubernetes starts as a number does. -/
theorem Multiplies.head {multiple : ℚ} (h : Multiplies decimalSuffixes suffix multiple) :
    ∀ c ∈ suffix.head?, ¬ inNumber c := by
  intro c hc
  cases h with
  | decimal hmem | binary hmem =>
    simp only [decimalSuffixes, binarySuffixes, List.mem_cons, Prod.mk.injEq, List.not_mem_nil,
      or_false] at hmem
    rcases hmem with ⟨rfl, -⟩ | ⟨rfl, -⟩ | ⟨rfl, -⟩ | ⟨rfl, -⟩ | ⟨rfl, -⟩ | ⟨rfl, -⟩ | ⟨rfl, -⟩ |
      ⟨rfl, -⟩ | ⟨rfl, -⟩ | ⟨rfl, -⟩ <;> simp at hc <;> subst hc <;> decide
  | exponent hmark hsign hne hdigits =>
    simp only [List.head?_cons, Option.mem_def, Option.some.injEq] at hc
    subst hc
    simp only [isExponentMark, Bool.or_eq_true, beq_iff_eq] at hmark
    obtain rfl | rfl := hmark <;> decide

/-- What follows the number of a quantity is its suffix. -/
theorem IsQuantity.multiplies {value : ℚ} (h : IsQuantity decimalSuffixes text value) :
    ∃ multiple, Multiplies decimalSuffixes ((stripPlus text).dropWhile inNumber) multiple := by
  cases h with
  | @mk plus whole suffix fraction multiple hne hdigits hsuffix =>
    have hnumber : ∀ c ∈ whole ++ fraction.elim [] ('.' :: ·), inNumber c := by
      intro c hc
      obtain hwhole | hpoint := List.mem_append.mp hc
      · simp [inNumber, hdigits c (List.mem_append_left _ hwhole)]
      · cases fraction with
        | none => simp at hpoint
        | some fraction =>
          obtain rfl | hfraction := List.mem_cons.mp hpoint
          · rfl
          · simp [inNumber, hdigits c (List.mem_append_right _ hfraction)]
    have hplus : stripPlus ((if plus then ['+'] else []) ++
        (whole ++ fraction.elim [] ('.' :: ·)) ++ suffix) =
        (whole ++ fraction.elim [] ('.' :: ·)) ++ suffix := by
      cases plus with
      | true => rfl
      | false =>
        unfold stripPlus
        split
        · next rest heq =>
          have hnil : whole ++ fraction.elim [] ('.' :: ·) ≠ [] := by
            intro hnil
            obtain ⟨rfl, hpoint⟩ := List.append_eq_nil_iff.mp hnil
            cases fraction with
            | none => exact hne rfl
            | some fraction => simp at hpoint
          obtain ⟨c, tail, hcons⟩ := List.exists_cons_of_ne_nil hnil
          rw [hcons] at heq hnumber
          obtain ⟨rfl, -⟩ := List.cons.inj heq
          have hbad := hnumber '+' List.mem_cons_self
          simp [inNumber] at hbad
        · simp
    have hdrop : suffix.dropWhile inNumber = suffix :=
      List.dropWhile_eq_self_iff.mpr fun hpos => hsuffix.head _ (by simp [List.head?_eq_getElem?])
    rw [hplus, List.dropWhile_append_of_pos hnumber, hdrop]
    exact ⟨multiple, hsuffix⟩

/-- The value that is read is the exact one. -/
theorem quantity_value {text : String} (h : quantity text = .ok v) :
    ∃ value, IsQuantity acceptedSuffixes text.toList value ∧ value * 10 ^ 9 = v := by
  unfold quantity at h
  split at h
  · simp at h
  · exact quantityChars_value h

theorem quantity_ne_overflow (text : String) : quantity text ≠ .error .overflow := by
  unfold quantity quantityChars
  simp only
  split
  · simp
  · split
    · simp
    · exact bind_ne_overflow orUnknown_ne_overflow fun _ _ =>
        bind_ne_overflow orUnknown_ne_overflow fun _ _ => scaled_ne_overflow

end Texts

/-! ### The text of a value -/

/-- Trimming zeros stops at a character that is none. -/
theorem rdropWhile_append_cons {before after : List Char} {c : Char} (hc : c ≠ '0') :
    (before ++ c :: after).rdropWhile (· == '0') = before ++ c :: after.rdropWhile (· == '0') := by
  induction after using List.reverseRecOn with
  | nil => exact List.rdropWhile_concat_neg _ _ _ (by simpa using hc)
  | append_singleton init last ih =>
    rw [← List.cons_append, ← List.append_assoc, List.rdropWhile_concat, List.rdropWhile_concat]
    split
    · exact ih
    · simp

theorem utf8ByteSize_ofList {text : List Char} (hascii : ∀ c ∈ text, c.toNat < 128) :
    (String.ofList text).utf8ByteSize = text.length := by
  rw [← length_utf8, utf8_ofList]
  induction text with
  | nil => rfl
  | cons c rest ih =>
    rw [List.flatMap_cons, List.length_append, utf8EncodeChar_ascii (hascii c List.mem_cons_self),
      ih fun d hd => hascii d (List.mem_cons_of_mem _ hd)]
    simp only [List.length_cons, List.length_nil]
    omega

/-- The numeral that is written for so many nanounits. -/
def written (n : ℕ) : Numeral where
  sign := none
  whole := Nat.toDigits 10 (n / 1000000000)
  fraction :=
    if n % 1000000000 = 0 then none else some ((padded 9 (n % 1000000000)).rdropWhile (· == '0'))
  exponent := none

section Written

variable (n : ℕ)

theorem decimalText_natCast : decimalText n = (written n).mantissa := by
  have hdiv : (n : ℤ).tdiv scale = ((n / 1000000000 : ℕ) : ℤ) := by
    rw [Int.tdiv_eq_ediv_of_nonneg (by omega), scale]
    omega
  have hmod : (n : ℤ).tmod scale = ((n % 1000000000 : ℕ) : ℤ) := by
    rw [Int.tmod_eq_emod_of_nonneg (by omega), scale]
    omega
  have hwhole : decimalChars ((n / 1000000000 : ℕ) : ℤ) = Nat.toDigits 10 (n / 1000000000) := by
    rw [decimalChars, if_neg (by omega), List.nil_append, Int.natAbs_natCast]
  unfold decimalText
  simp only [hdiv, hmod, hwhole]
  by_cases hfraction : n % 1000000000 = 0
  · simp [Numeral.mantissa, written, hfraction]
  · rw [if_neg (by omega), rdropWhile_append_cons (by decide), zeroFilled, if_neg (by omega),
      Int.natAbs_natCast]
    simp [Numeral.mantissa, written, hfraction]

theorem written_decimal : (written n).Decimal where
  sign := by
    intro c hc
    simp [written] at hc
  digits := by
    intro d hd
    obtain hwhole | hfraction := List.mem_append.mp hd
    · exact isDigit_of_mem_toDigits hwhole
    · unfold Numeral.fractionDigits written at hfraction
      split at hfraction
      · simp at hfraction
      · exact isDigit_of_mem_padded ((List.rdropWhile_prefix _ _).subset hfraction)
  nonempty := by
    intro hnil
    exact Nat.toDigits_ne_nil (List.append_eq_nil_iff.mp hnil).1
  mark := by
    intro part hpart
    simp [written] at hpart

/-- The digits are those of the value, less the zeros at the end. -/
theorem written_value : ∃ k, (written n).fractionDigits.length + k = 9 ∧
    digitsValue (written n).significand * 10 ^ k = n := by
  have hdivMod := Nat.div_add_mod n (1000000000)
  have hwhole : digitsValue (Nat.toDigits 10 (n / 1000000000)) = n / 1000000000 :=
    Nat.ofDigitChars_ten_toDigits
  by_cases hfraction : n % 1000000000 = 0
  · refine ⟨9, by simp [Numeral.fractionDigits, written, hfraction], ?_⟩
    simp only [Numeral.significand, Numeral.fractionDigits, written, hfraction, if_true,
      Option.getD_none, List.append_nil, hwhole]
    norm_num
    omega
  · obtain ⟨k, hlength, hvalue⟩ := trimmed_value (Nat.toDigits 10 (n / 1000000000)) (by omega)
      (show n % 1000000000 < 10 ^ 9 by omega)
    simp only [Numeral.significand, Numeral.fractionDigits, written, hfraction, if_false,
      Option.getD_some]
    refine ⟨k, hlength, ?_⟩
    rw [hvalue, hwhole]
    norm_num
    omega

theorem written_length (hn : n < 2 ^ 126) : (written n).mantissa.length ≤ 48 := by
  have hwhole : (Nat.toDigits 10 (n / 1000000000)).length ≤ 38 :=
    (Nat.length_toDigits_le_iff (by omega) (by omega)).mpr (by omega)
  obtain ⟨k, hlength, -⟩ := written_value n
  unfold Numeral.mantissa
  unfold Numeral.fractionDigits at hlength
  rw [List.length_append]
  have hpoint : ((written n).fraction.elim [] ('.' :: ·)).length ≤ 10 := by
    cases hfraction : (written n).fraction with
    | none => simp
    | some fraction =>
      rw [hfraction, Option.getD_some] at hlength
      rw [Option.elim_some, List.length_cons]
      omega
  have hfirst : (written n).whole.length ≤ 38 := hwhole
  omega

end Written

theorem scaled_places {value v : ℤ} {places k : ℕ} (hplaces : places + k = 9)
    (hvalue : value * 10 ^ k = v) (hnonneg : 0 ≤ v) (hv : v < 2 ^ 126) :
    scaled value places 10 0 = .ok v := by
  have hlength : checkedI32 places = some (places : ℤ) := checkedI32_of_bounds (by omega) (by omega)
  have hsub : checkedI32 (9 - (places : ℤ)) = some (k : ℤ) := by
    rw [show 9 - (places : ℤ) = k by omega]
    exact checkedI32_of_bounds (by omega) (by omega)
  have hsum : checkedI32 ((k : ℤ) + 0) = some (k : ℤ) := by
    rw [add_zero]
    exact checkedI32_of_bounds (by omega) (by omega)
  have hpow : (10 : ℤ) ^ k ≤ 10 ^ 9 := pow_le_pow_right₀ (by norm_num) (by omega)
  have hpos : (0 : ℤ) ≤ 10 ^ k := by positivity
  have hfactor : checkedI128 (10 ^ k) = some ((10 : ℤ) ^ k) :=
    checkedI128_eq_some.mpr ⟨rfl, by omega, by omega⟩
  have hproduct : checkedI128 v = some v := checkedI128_eq_some.mpr ⟨rfl, by omega, by omega⟩
  have hshift : shifted value k = .ok v := by
    rw [shifted, if_pos (by omega), Int.toNat_natCast, hfactor, orUnknown_some, ok_bind, hvalue,
      hproduct, orUnknown_some]
  rw [scaled, if_neg (by omega), hlength, Option.bind_some, hsub, orUnknown_some, ok_bind,
    movePoint, if_pos rfl, hsum, orUnknown_some, ok_bind, multiply, if_neg (by omega), ok_bind,
    hshift]

/-- The text of a value is read as the value. -/
theorem quantity_decimal {v : ℤ} (hnonneg : 0 ≤ v) (hv : v < 2 ^ 126) :
    quantity (decimal v) = .ok v := by
  obtain ⟨n, rfl⟩ := Int.eq_ofNat_of_zero_le hnonneg
  have hn : n < 2 ^ 126 := by exact_mod_cast hv
  have hdecimal := written_decimal n
  have hnumber : ∀ c ∈ (written n).mantissa, inNumber c := by
    intro c hc
    obtain hdigit | rfl := hdecimal.mantissa_chars c hc
    · simp [inNumber, hdigit]
    · rfl
  obtain ⟨k, hplaces, hvalue⟩ := written_value n
  have hdigits : (digitsValue (written n).significand : ℤ) < 2 ^ 127 := by
    have hle : digitsValue (written n).significand ≤ n :=
      (Nat.le_mul_of_pos_right _ (by positivity)).trans_eq hvalue
    omega
  have hparse : parseSigned 128 ((written n).whole ++ (written n).fraction.getD []) =
      some (digitsValue (written n).significand : ℤ) := by
    show parseSigned 128 (written n).significand = _
    rw [parseSigned_digits 128 hdecimal.nonempty hdecimal.digits, if_pos hdigits]
  have hscaled := @scaled_places (digitsValue (written n).significand : ℤ) n _ _ hplaces
    (by exact_mod_cast hvalue) (by omega) (by omega)
  have hsize : (String.ofList (written n).mantissa).utf8ByteSize = (written n).mantissa.length := by
    apply utf8ByteSize_ofList
    intro c hc
    obtain hdigit | rfl := hdecimal.mantissa_chars c hc
    · have hbounds := digit_bounds hdigit
      omega
    · decide
  have hplus : stripPlus (written n).mantissa = (written n).mantissa := by
    unfold stripPlus
    split
    · next rest heq =>
      have hbad := hnumber '+' (by rw [heq]; exact List.mem_cons_self)
      simp [inNumber] at hbad
    · rfl
  have htake : (written n).mantissa.takeWhile inNumber = (written n).mantissa :=
    List.takeWhile_eq_self_iff.mpr hnumber
  have hdrop : (written n).mantissa.dropWhile inNumber = [] := List.dropWhile_eq_nil_iff.mpr hnumber
  have hpoint : ((written n).fraction.getD []).contains '.' = false := by
    rw [List.contains_eq_mem, decide_eq_false_iff_not]
    intro hmem
    have hbad := hdecimal.digits '.' (List.mem_append_right _ hmem)
    simp at hbad
  have hread : quantityChars (written n).mantissa = .ok (n : ℤ) := by
    unfold quantityChars
    simp only [hplus, htake, hdrop, hdecimal.splitPoint_eq, hpoint, Bool.or_false]
    have hsome : ((written n).whole.isEmpty && ((written n).fraction.getD []).isEmpty) = false := by
      simp [written, Nat.toDigits_ne_nil]
    have hsuffix : suffixScale [] = some (10, 0) := rfl
    rw [if_neg (by simp [hsome]), hparse, orUnknown_some, ok_bind, hsuffix, orUnknown_some, ok_bind]
    exact hscaled
  have hlong := written_length n hn
  have hshort : 0 < (written n).mantissa.length := by
    have hwhole : 0 < (written n).whole.length := List.length_pos_of_ne_nil Nat.toDigits_ne_nil
    rw [Numeral.mantissa, List.length_append]
    omega
  have hchars : decimal (n : ℤ) = String.ofList (written n).mantissa :=
    congrArg String.ofList (decimalText_natCast n)
  rw [hchars, quantity, hsize, if_neg (by omega), String.toList_ofList, hread]

end NyxId.MachineQuota
