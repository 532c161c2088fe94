import Mathlib.Data.Set.Card
import NyxId.TriggerSchedule.Search

/-!
Intervals of elapsed time. An occurrence is a whole number of steps after the anchor, within the
calendar, and the number of steps to a pivot is one division of milliseconds.
-/

namespace NyxId.TriggerSchedule

/-- An instant of whole milliseconds. -/
def Millis (instant : ℤ) : Prop := nanosPerMilli ∣ instant

instance : DecidablePred Millis := fun instant => inferInstanceAs (Decidable (nanosPerMilli ∣ instant))

/-- An instant four hundred years from both ends of the calendar. -/
def Inside (instant : ℤ) : Prop :=
  (minDate + 146100) * nanosPerDay ≤ instant ∧ instant < (maxDate - 146100) * nanosPerDay

def stepNanos (amount : UInt32) (unit : IntervalUnit) : ℤ :=
  intervalSeconds amount unit * nanosPerSecond

def EveryFires (amount : UInt32) (unit : IntervalUnit) (anchor instant : ℤ) : Prop :=
  instant < (maxDate + 1) * nanosPerDay ∧ ∃ k : ℕ, instant = anchor + k * stepNanos amount unit

section Intervals

variable {amount : UInt32} {unit : IntervalUnit} {anchor pivot step delta k from_ until_ : ℤ}

theorem lt_first_step (hstep : 0 < step) (delta : ℤ) : delta < (delta / step + 1) * step :=
  Int.lt_ediv_add_one_mul_self delta hstep

theorem first_step_le (hstep : 0 < step) (h : delta < k * step) : delta / step + 1 ≤ k :=
  Int.ediv_lt_of_lt_mul hstep h

theorem last_step_lt (hstep : 0 < step) (delta : ℤ) : (delta - 1) / step * step < delta := by
  have hle := Int.ediv_mul_le (delta - 1) hstep.ne'
  omega

theorem le_last_step (hstep : 0 < step) (h : k * step < delta) : k ≤ (delta - 1) / step :=
  Int.le_ediv_of_mul_le hstep (by omega)

theorem intervalSeconds_lt (amount : UInt32) (unit : IntervalUnit) :
    0 ≤ intervalSeconds amount unit ∧ intervalSeconds amount unit < 400000000000000 := by
  have hlt := amount.toNat_lt
  unfold intervalSeconds
  cases unit <;> simp only <;> omega

theorem timestampMillis_mul (millis : ℤ) : timestampMillis (nanosPerMilli * millis) = millis := by
  unfold timestampMillis nanosPerMilli
  omega

theorem add_stepNanos (anchor k : ℤ) (amount : UInt32) (unit : IntervalUnit) :
    nanosPerMilli * anchor + k * stepNanos amount unit =
      nanosPerMilli * (anchor + k * (intervalSeconds amount unit * 1000)) := by
  unfold stepNanos nanosPerMilli nanosPerSecond
  ring

/-- Within the calendar nothing saturates. -/
theorem saturatingMul_eq {x y : ℤ} (hlow : -2 ^ 63 ≤ x * y) (hhigh : x * y < 2 ^ 63) :
    saturatingMul x y = x * y := by
  unfold saturatingMul
  omega

theorem checkedAdd_eq (anchor x : ℤ) (hlow : minDate * nanosPerDay ≤ nanosPerMilli * (anchor + x)) :
    checkedAdd (nanosPerMilli * anchor) (x * nanosPerMilli) =
      if nanosPerMilli * (anchor + x) < (maxDate + 1) * nanosPerDay then
        some (nanosPerMilli * (anchor + x)) else none := by
  have hsum : nanosPerMilli * anchor + x * nanosPerMilli = nanosPerMilli * (anchor + x) := by ring
  unfold checkedAdd
  rw [hsum]
  simp only [hlow, true_and]

/-- In whole milliseconds, with the pivot and the anchor within the calendar. -/
theorem everyOccurrence_forward (hstep : 0 < intervalSeconds amount unit) (hanchor : Millis anchor)
    (hpivot : Millis pivot) (hinside : Inside anchor)
    (hcalendar : minDate * nanosPerDay ≤ pivot ∧ pivot < (maxDate + 1) * nanosPerDay) :
    ∃ found, everyOccurrence amount unit anchor pivot true = .ok found ∧
      FirstBeyond true pivot (EveryFires amount unit anchor) found := by
  obtain ⟨a, rfl⟩ := hpivot
  obtain ⟨b, rfl⟩ := hanchor
  have hsmall := (intervalSeconds_lt amount unit).2
  unfold everyOccurrence EveryFires
  simp only [timestampMillis_mul, add_stepNanos, if_true]
  generalize hstepEq : intervalSeconds amount unit * 1000 = step
  have hpos : 0 < step := by omega
  have hlt := lt_first_step hpos (a - b)
  have hleast : ∀ k : ℤ, a - b < k * step → (a - b) / step + 1 ≤ k :=
    fun k hk => first_step_le hpos hk
  have hroom := Int.ediv_mul_le (a - b) hpos.ne'
  have hnext : ((a - b) / step + 1) * step = (a - b) / step * step + step := by ring
  rw [if_neg hpos.ne']
  generalize (a - b) / step + 1 = periods at *
  have hbounds : -8400000000000000 ≤ a ∧ a < 8400000000000000 ∧ -8400000000000000 ≤ b := by
    unfold Inside nanosPerDay nanosPerMilli nanosPerSecond minDate maxDate at *
    omega
  by_cases hnegative : periods < 0
  · -- the anchor is the first of all
    have hbefore : periods * step ≤ -1 * step := mul_le_mul_of_nonneg_right (by omega) hpos.le
    refine ⟨some (nanosPerMilli * b), by rw [if_pos hnegative], ⟨?_, 0, by simp⟩, ?_, ?_⟩
    · unfold Inside nanosPerDay nanosPerSecond maxDate at *
      omega
    · unfold nanosPerMilli
      simp only [toward, if_true]
      omega
    · intro x hx _
      obtain ⟨-, k, rfl⟩ := hx
      have hsteps : (0 : ℤ) ≤ k * step := mul_nonneg (by omega) hpos.le
      unfold nanosPerMilli
      simp only [toward, if_true]
      omega
  · have hsteps : 0 ≤ periods * step := mul_nonneg (by omega) hpos.le
    have hlow : minDate * nanosPerDay ≤ nanosPerMilli * (b + periods * step) := by
      unfold Inside nanosPerDay nanosPerMilli nanosPerSecond minDate at *
      omega
    have hbeyond : ∀ k : ℕ, nanosPerMilli * a < nanosPerMilli * (b + k * step) →
        nanosPerMilli * (b + periods * step) ≤ nanosPerMilli * (b + k * step) := by
      intro k hk
      unfold nanosPerMilli at *
      have hmul := mul_le_mul_of_nonneg_right (hleast k (by omega)) hpos.le
      omega
    rw [if_neg hnegative, saturatingMul_eq (by omega) (by omega), checkedAdd_eq b _ hlow]
    by_cases hfits : nanosPerMilli * (b + periods * step) < (maxDate + 1) * nanosPerDay
    · rw [if_pos hfits]
      have hnat : (periods.toNat : ℤ) = periods := Int.toNat_of_nonneg (by omega)
      refine ⟨_, rfl, ⟨hfits, periods.toNat, by rw [hnat]⟩, ?_, ?_⟩
      · unfold nanosPerMilli
        simp only [toward, if_true]
        omega
      · intro x hx hlt
        obtain ⟨-, k, rfl⟩ := hx
        exact hbeyond k hlt
    · rw [if_neg hfits]
      refine ⟨none, rfl, ?_⟩
      intro x hx
      obtain ⟨hx, k, rfl⟩ := hx
      by_contra hlt
      exact hfits ((hbeyond k (not_le.mp hlt)).trans_lt hx)

theorem everyOccurrence_backward (hstep : 0 < intervalSeconds amount unit)
    (hanchor : Millis anchor) (hpivot : Millis pivot) (hinside : Inside anchor)
    (hcalendar : minDate * nanosPerDay ≤ pivot ∧ pivot < (maxDate + 1) * nanosPerDay) :
    ∃ found, everyOccurrence amount unit anchor pivot false = .ok found ∧
      FirstBeyond false pivot (EveryFires amount unit anchor) found := by
  obtain ⟨a, rfl⟩ := hpivot
  obtain ⟨b, rfl⟩ := hanchor
  have hsmall := (intervalSeconds_lt amount unit).2
  unfold everyOccurrence EveryFires
  simp only [timestampMillis_mul, add_stepNanos, Bool.false_eq_true, if_false]
  generalize hstepEq : intervalSeconds amount unit * 1000 = step
  have hpos : 0 < step := by omega
  have hlt := last_step_lt hpos (a - b)
  have hgreatest : ∀ k : ℤ, k * step < a - b → k ≤ (a - b - 1) / step :=
    fun k hk => le_last_step hpos hk
  rw [if_neg hpos.ne']
  generalize (a - b - 1) / step = periods at *
  have hbounds : a < 8400000000000000 ∧ -8400000000000000 ≤ b := by
    unfold Inside nanosPerDay nanosPerMilli nanosPerSecond minDate maxDate at *
    omega
  by_cases hnegative : periods < 0
  · refine ⟨none, by rw [if_pos hnegative], ?_⟩
    intro x hx
    obtain ⟨-, k, rfl⟩ := hx
    by_contra hbefore
    simp only [toward, Bool.false_eq_true, if_false, not_le, neg_lt_neg_iff] at hbefore
    unfold nanosPerMilli at hbefore
    have hle := hgreatest k (by omega)
    omega
  · have hsteps : 0 ≤ periods * step := mul_nonneg (by omega) hpos.le
    have hlow : minDate * nanosPerDay ≤ nanosPerMilli * (b + periods * step) := by
      unfold Inside nanosPerDay nanosPerMilli nanosPerSecond minDate at *
      omega
    have hfits : nanosPerMilli * (b + periods * step) < (maxDate + 1) * nanosPerDay := by
      unfold nanosPerMilli at *
      omega
    have hnat : (periods.toNat : ℤ) = periods := Int.toNat_of_nonneg (by omega)
    rw [if_neg hnegative, saturatingMul_eq (by omega) (by omega), checkedAdd_eq b _ hlow,
      if_pos hfits]
    refine ⟨_, rfl, ⟨hfits, periods.toNat, by rw [hnat]⟩, ?_, ?_⟩
    · unfold nanosPerMilli
      simp only [toward, Bool.false_eq_true, if_false]
      omega
    · intro x hx hbefore
      obtain ⟨-, k, rfl⟩ := hx
      simp only [toward, Bool.false_eq_true, if_false, neg_lt_neg_iff, neg_le_neg_iff] at *
      unfold nanosPerMilli at *
      have hmul := mul_le_mul_of_nonneg_right (hgreatest k (by omega)) hpos.le
      omega

/-- The whole steps of a range that begins with an occurrence. -/
theorem ncard_steps (hstep : 0 < intervalSeconds amount unit)
    (hfrom : EveryFires amount unit anchor from_) (hcalendar : until_ < (maxDate + 1) * nanosPerDay) :
    ((until_ - from_) / nanosPerMilli / (intervalSeconds amount unit * 1000)).toNat =
      {x | EveryFires amount unit anchor x ∧ from_ ≤ x ∧ x + stepNanos amount unit ≤ until_}.ncard := by
  have hnanos : nanosPerMilli * (intervalSeconds amount unit * 1000) = stepNanos amount unit := by
    unfold stepNanos nanosPerMilli nanosPerSecond
    ring
  rw [Int.ediv_ediv_of_nonneg (by decide), hnanos]
  unfold EveryFires at *
  have hpos : 0 < stepNanos amount unit := mul_pos hstep (by decide)
  generalize stepNanos amount unit = step at *
  obtain ⟨-, start, rfl⟩ := hfrom
  generalize hsteps : (until_ - (anchor + start * step)) / step = steps
  have hset : {x | (x < (maxDate + 1) * nanosPerDay ∧ ∃ k : ℕ, x = anchor + k * step) ∧
      anchor + start * step ≤ x ∧ x + step ≤ until_} =
      ((Finset.range steps.toNat).image fun i : ℕ => anchor + (start + i) * step : Finset ℤ) := by
    ext x
    simp only [Set.mem_ofPred_eq, Finset.coe_image, Finset.coe_range, Set.mem_image, Set.mem_Iio]
    constructor
    · rintro ⟨⟨-, k, rfl⟩, hfrom, huntil⟩
      have hle : (start : ℤ) ≤ k := le_of_mul_le_mul_right (by omega) hpos
      have hcount : (k : ℤ) - start + 1 ≤ steps := by
        rw [← hsteps]
        refine Int.le_ediv_of_mul_le hpos ?_
        have hexpand : ((k : ℤ) - start + 1) * step = k * step - start * step + step := by ring
        omega
      refine ⟨k - start, by omega, ?_⟩
      rw [Nat.cast_sub (by omega), add_sub_cancel]
    · rintro ⟨i, hi, rfl⟩
      have hroom : ((i : ℤ) + 1) * step ≤ until_ - (anchor + start * step) :=
        (mul_le_mul_of_nonneg_right (show (i : ℤ) + 1 ≤ steps by omega) hpos.le).trans
          (by rw [← hsteps]; exact Int.ediv_mul_le _ hpos.ne')
      have hexpand : ((start : ℤ) + i) * step = start * step + i * step := by ring
      have hmore : ((i : ℤ) + 1) * step = i * step + step := by ring
      have hnonneg : (0 : ℤ) ≤ i * step := mul_nonneg (by omega) hpos.le
      refine ⟨⟨by omega, start + i, by push_cast; rfl⟩, by omega, by omega⟩
  have hinjective : Function.Injective fun i : ℕ => anchor + (start + i) * step := by
    intro i j hij
    have hmul : ((start : ℤ) + i) * step = (start + j) * step := by
      simpa using hij
    have hcancel := mul_right_cancel₀ hpos.ne' hmul
    omega
  rw [hset, Set.ncard_coe_finset, Finset.card_image_of_injective _ hinjective, Finset.card_range]

end Intervals

end NyxId.TriggerSchedule
