import NyxId.Billing.WindowSplit
import Mathlib.Algebra.Order.Round
import Mathlib.Data.Rat.Floor
import Mathlib.Tactic.FieldSimp

/-!
The split multiplication of a tax is exact: half up it is the rounded product, rounded up it
is its ceiling, and it only fails where that result is no credit amount. An amount settled
within a reserved one therefore never costs more than was reserved for it.
-/

namespace NyxId.Billing

/-! ### Rounding a quotient of integers -/

theorem ceil_div_eq (a : ℤ) {d : ℤ} (hd : 0 < d) :
    ⌈(a : ℚ) / d⌉ = a / d + if 0 < a % d then 1 else 0 := by
  have hd' : (0 : ℚ) < d := by exact_mod_cast hd
  have hdiv := Int.mul_ediv_add_emod a d
  have hlow := Int.emod_nonneg a hd.ne'
  have hhigh := Int.emod_lt_of_pos a hd
  rw [Int.ceil_eq_iff, lt_div_iff₀ hd', div_le_iff₀ hd']
  split
  · constructor <;> norm_cast <;> nlinarith
  · constructor <;> norm_cast <;> nlinarith

/-- A remainder of half the divisor is rounded up. -/
theorem round_div_eq (a : ℤ) {d : ℤ} (hd : 0 < d) :
    round ((a : ℚ) / d) = a / d + if d ≤ 2 * (a % d) then 1 else 0 := by
  have hd' : (0 : ℚ) < d := by exact_mod_cast hd
  have hdiv := Int.mul_ediv_add_emod a d
  have hlow := Int.emod_nonneg a hd.ne'
  have hhigh := Int.emod_lt_of_pos a hd
  have hhalf : (a : ℚ) / d + 1 / 2 = ((2 * a + d : ℤ) : ℚ) / ((2 * d : ℤ) : ℚ) := by
    push_cast
    field_simp
  have htwo : (0 : ℚ) < ((2 * d : ℤ) : ℚ) := by exact_mod_cast (by omega : 0 < 2 * d)
  rw [round_eq, hhalf, Int.floor_eq_iff, le_div_iff₀ htwo, div_lt_iff₀ htwo]
  split
  · constructor <;> norm_cast <;> nlinarith
  · constructor <;> norm_cast <;> nlinarith

/-! ### The tax of an amount -/

/-- `base * rate / 100` in picocredits, the rate being a percentage. -/
def exactTax (base rate : Credits) : ℚ :=
  base.pico * ((rate.pico : ℚ) / Credits.scale) / 100

variable {base rate : Credits}

theorem exactTax_eq (base rate : Credits) :
    exactTax base rate = ((base.pico * rate.pico : ℤ) : ℚ) / (taxDenominator : ℤ) := by
  unfold exactTax taxDenominator Credits.scale
  push_cast
  field_simp
  ring

theorem exactTax_mono {base' : Credits} (hrate : 0 ≤ rate.pico) (hle : base'.pico ≤ base.pico) :
    exactTax base' rate ≤ exactTax base rate := by
  have hle' : (base'.pico : ℚ) ≤ base.pico := by exact_mod_cast hle
  have hrate' : (0 : ℚ) ≤ (rate.pico : ℚ) / Credits.scale := by positivity
  unfold exactTax
  gcongr

theorem exactTax_nonneg (hbase : 0 ≤ base.pico) (hrate : 0 ≤ rate.pico) :
    0 ≤ exactTax base rate := by
  unfold exactTax
  positivity

/-- What `proportional` rounds to. -/
def roundedTax (base rate : Credits) (roundUp : Bool) : ℤ :=
  if roundUp then ⌈exactTax base rate⌉ else round (exactTax base rate)

theorem roundedTax_eq (base rate : Credits) (roundUp : Bool) :
    roundedTax base rate roundUp = base.pico * rate.pico / taxDenominator +
      if roundUp then (if 0 < base.pico * rate.pico % taxDenominator then 1 else 0)
      else (if taxDenominator / 2 ≤ base.pico * rate.pico % taxDenominator then 1 else 0) := by
  have hpos : (0 : ℤ) < taxDenominator := by decide
  unfold roundedTax
  rw [exactTax_eq, ceil_div_eq _ hpos, round_div_eq _ hpos]
  cases roundUp
  · simp only [Bool.false_eq_true, if_false]
    congr 2
    simp only [taxDenominator]
    apply propext
    omega
  · rfl

/-- Up to a million percent every intermediate product fits 128 bits. -/
theorem proportional_eq {roundUp : Bool} (hbase : 0 ≤ base.pico) (hrate : 0 ≤ rate.pico)
    (hmax : rate.pico ≤ 10 ^ 6 * Credits.scale) :
    proportional base rate roundUp = decodeCredits (roundedTax base rate roundUp) := by
  have hden : (100 * (Credits.scale : ℤ)) = taxDenominator := by decide
  have hpos : (0 : ℤ) < taxDenominator := by decide
  have hrange := base.inRange.2
  simp only [maxPico, Credits.scale] at hrange hmax
  have hquotient : 0 ≤ base.pico / taxDenominator ∧ base.pico / taxDenominator < 10 ^ 20 := by
    simp only [taxDenominator]
    omega
  have hremainder : 0 ≤ base.pico % taxDenominator ∧ base.pico % taxDenominator < 10 ^ 14 := by
    simp only [taxDenominator]
    omega
  have hwhole : 0 ≤ base.pico / taxDenominator * rate.pico ∧
      base.pico / taxDenominator * rate.pico ≤ 10 ^ 20 * 10 ^ 18 := by
    constructor
    · exact mul_nonneg hquotient.1 hrate
    · exact mul_le_mul hquotient.2.le (by omega) hrate (by norm_num)
  have hpart : 0 ≤ base.pico % taxDenominator * rate.pico ∧
      base.pico % taxDenominator * rate.pico ≤ 10 ^ 14 * 10 ^ 18 := by
    constructor
    · exact mul_nonneg hremainder.1 hrate
    · exact mul_le_mul hremainder.2.le (by omega) hrate (by norm_num)
  have hproduct : base.pico * rate.pico = base.pico % taxDenominator * rate.pico +
      taxDenominator * (base.pico / taxDenominator * rate.pico) := by
    rw [← mul_assoc, ← add_mul, Int.emod_add_mul_ediv]
  unfold proportional
  dsimp only
  rw [if_neg (by omega), hden, Int.tdiv_eq_ediv_of_nonneg hbase, Int.tmod_eq_emod_of_nonneg hbase,
    roundedTax_eq, hproduct, Int.add_mul_ediv_left _ _ hpos.ne', Int.add_mul_emod_self_left]
  generalize base.pico / taxDenominator * rate.pico = whole at hwhole
  generalize base.pico % taxDenominator * rate.pico = part at hpart
  rw [checkedI128_eq_some.mpr ⟨rfl, by omega, by omega⟩,
    checkedI128_eq_some.mpr ⟨rfl, by omega, by omega⟩]
  dsimp only
  rw [Int.tdiv_eq_ediv_of_nonneg hpart.1, Int.tmod_eq_emod_of_nonneg hpart.1]
  have hfraction : 0 ≤ part / taxDenominator ∧ part / taxDenominator ≤ 10 ^ 18 := by
    simp only [taxDenominator]
    omega
  have hincrement : ∀ increment : ℤ, 0 ≤ increment → increment ≤ 1 →
      ((checkedI128 (whole + part / taxDenominator)).bind fun v => checkedI128 (v + increment)) =
        some (part / taxDenominator + whole + increment) := by
    intro increment hlow hhigh
    rw [checkedI128_eq_some.mpr ⟨rfl, by omega, by omega⟩, Option.bind_some,
      checkedI128_eq_some.mpr ⟨rfl, by omega, by omega⟩, add_comm whole]
  rw [hincrement _ (by split_ifs <;> omega) (by split_ifs <;> omega)]

theorem decodeCredits_eq_ok {pico : ℤ} {c : Credits} :
    decodeCredits pico = .ok c ↔ c.pico = pico := by
  unfold decodeCredits
  constructor
  · intro h
    exact (Credits.fromPico_eq_some.mp (creditsOrError_eq_ok h)).symm
  · intro h
    rw [Credits.fromPico_eq_some.mpr h.symm]
    rfl

/-- The rounded tax, unless it is no credit amount. -/
theorem proportional_eq_ok {roundUp : Bool} {tax : Credits} (hbase : 0 ≤ base.pico)
    (hrate : 0 ≤ rate.pico) (hmax : rate.pico ≤ 10 ^ 6 * Credits.scale) :
    proportional base rate roundUp = .ok tax ↔ tax.pico = roundedTax base rate roundUp := by
  rw [proportional_eq hbase hrate hmax, decodeCredits_eq_ok]

theorem grossCeiling_eq_ok {gross : Credits} (hbase : 0 ≤ base.pico) (hrate : 0 ≤ rate.pico)
    (hmax : rate.pico ≤ 10 ^ 6 * Credits.scale) :
    grossCeiling base rate = .ok gross ↔ gross.pico = base.pico + ⌈exactTax base rate⌉ := by
  constructor
  · intro h
    obtain ⟨tax, htax, hadd⟩ := bind_eq_ok.mp h
    have hsum := Credits.checkedAdd_eq_some.mp (creditsOrError_eq_ok hadd)
    have hceil := (proportional_eq_ok hbase hrate hmax).mp htax
    rw [roundedTax, if_pos rfl] at hceil
    omega
  · intro h
    have hnonneg : 0 ≤ ⌈exactTax base rate⌉ := Int.ceil_nonneg (exactTax_nonneg hbase hrate)
    have hrange := gross.inRange
    simp only [maxPico] at hrange
    let tax : Credits := ⟨⌈exactTax base rate⌉, by simp only [maxPico]; omega⟩
    have htax : proportional base rate true = .ok tax := (proportional_eq_ok hbase hrate hmax).mpr rfl
    have hadd : base.checkedAdd tax = some gross := Credits.checkedAdd_eq_some.mpr h.symm
    unfold grossCeiling
    rw [htax]
    simp only [bind, Except.bind, hadd]
    rfl

theorem round_le_ceil_of_le {x y : ℚ} (h : x ≤ y) : round x ≤ ⌈y⌉ := by
  have hceil : x ≤ ⌈y⌉ := h.trans (Int.le_ceil y)
  rw [round_eq, ← Int.lt_add_one_iff, Int.floor_lt]
  push_cast
  linarith

/-- What is settled within a reserved amount is taxed within the reserved gross. -/
theorem settled_le_reserved {base' gross : Credits} (hbase' : 0 ≤ base'.pico)
    (hle : base'.pico ≤ base.pico) (hrate : 0 ≤ rate.pico)
    (hmax : rate.pico ≤ 10 ^ 6 * Credits.scale) (hgross : grossCeiling base rate = .ok gross) :
    ∃ tax settled, taxHalfUp base' rate = .ok tax ∧ base'.checkedAdd tax = some settled ∧
      settled.pico ≤ gross.pico := by
  have hbase : 0 ≤ base.pico := hbase'.trans hle
  have hreserved := (grossCeiling_eq_ok hbase hrate hmax).mp hgross
  have hround := round_le_ceil_of_le (exactTax_mono hrate hle)
  have hnonneg : 0 ≤ round (exactTax base' rate) := by
    rw [round_eq]
    exact Int.floor_nonneg.mpr (by have := exactTax_nonneg hbase' hrate; linarith)
  have hrange := gross.inRange
  simp only [maxPico] at hrange
  let tax : Credits := ⟨round (exactTax base' rate), by simp only [maxPico]; omega⟩
  let settled : Credits := ⟨base'.pico + round (exactTax base' rate), by simp only [maxPico]; omega⟩
  refine ⟨tax, settled, ?_, Credits.checkedAdd_eq_some.mpr rfl, ?_⟩
  · exact (proportional_eq_ok hbase' hrate hmax).mpr rfl
  · change base'.pico + round (exactTax base' rate) ≤ gross.pico
    omega

/-- A negative base is refused; from any other the tax is rounded exactly, and an amount
settled within it costs no more than was reserved. -/
theorem tax_rounding (base rate : Credits) (hrate : 0 ≤ rate.pico)
    (hmax : rate.pico ≤ 10 ^ 6 * Credits.scale) :
    (base.pico < 0 → ∀ gross, taxHalfUp base rate ≠ .ok gross ∧ grossCeiling base rate ≠ .ok gross) ∧
    (0 ≤ base.pico →
      (∀ tax, taxHalfUp base rate = .ok tax ↔ tax.pico = round (exactTax base rate)) ∧
      (∀ tax, proportional base rate true = .ok tax ↔ tax.pico = ⌈exactTax base rate⌉) ∧
      (∀ gross, grossCeiling base rate = .ok gross ↔
        gross.pico = base.pico + ⌈exactTax base rate⌉) ∧
      ∀ base' gross : Credits, 0 ≤ base'.pico → base'.pico ≤ base.pico →
        grossCeiling base rate = .ok gross →
        ∃ tax settled, taxHalfUp base' rate = .ok tax ∧ base'.checkedAdd tax = some settled ∧
          settled.pico ≤ gross.pico) := by
  constructor
  · intro hneg gross
    have hrefused : ∀ roundUp, ∃ e, proportional base rate roundUp = .error e := by
      intro roundUp
      unfold proportional
      dsimp only
      rw [if_pos (Or.inl hneg)]
      exact ⟨_, rfl⟩
    obtain ⟨e, he⟩ := hrefused false
    obtain ⟨e', he'⟩ := hrefused true
    constructor
    · simp [taxHalfUp, he]
    · simp [grossCeiling, he', bind, Except.bind]
  · intro hbase
    refine ⟨fun tax => proportional_eq_ok hbase hrate hmax,
      fun tax => proportional_eq_ok hbase hrate hmax,
      fun gross => grossCeiling_eq_ok hbase hrate hmax, ?_⟩
    intro base' gross hbase' hle hgross
    exact settled_le_reserved hbase' hle hrate hmax hgross

/-- A quarter of a percent of two hundred picocredits is half a picocredit, which rounds up. -/
theorem tie_rounds_up :
    taxHalfUp ⟨200, by decide⟩ ⟨250000000000, by decide⟩ = .ok ⟨1, by decide⟩ := by
  have hlaw := (tax_rounding ⟨200, by decide⟩ ⟨250000000000, by decide⟩ (by decide) (by decide)).2
    (by decide)
  apply (hlaw.1 _).mpr
  have hhalf : exactTax ⟨200, by decide⟩ ⟨250000000000, by decide⟩ = 1 / 2 := by
    norm_num [exactTax, Credits.scale]
  rw [hhalf, one_div, round_two_inv]

/-- No tax is computed for a negative base, although a rate of zero would give zero. -/
theorem negative_base_refused :
    ¬ ∀ base rate : Credits, 0 ≤ rate.pico → rate.pico ≤ 10 ^ 6 * Credits.scale →
      ∀ tax : Credits, taxHalfUp base rate = .ok tax ↔ tax.pico = round (exactTax base rate) := by
  intro h
  have hzero := (h ⟨-1, by decide⟩ .zero (by decide) (by decide) .zero).mpr (by simp [exactTax])
  have hrefused : (match taxHalfUp ⟨-1, by decide⟩ .zero with | .ok _ => false | .error _ => true) =
      true := by decide
  rw [hzero] at hrefused
  cases hrefused

end NyxId.Billing
