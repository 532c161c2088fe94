import NyxId.Billing.Benefits
import Mathlib.Data.Int.ConditionallyCompleteOrder
import Mathlib.Order.Monotone.Basic

/-!
Civil months as intervals of days. A day lies in its month, the months follow one
another, and the days before the next month starts are days of the same month.
-/

namespace NyxId.Billing

/-- Centuries, four-year cycles and years of an era, and the day of the year. -/
private theorem dayOfEra_split (doe : ℤ) (hlo : 0 ≤ doe) (hhi : doe ≤ 146096) :
    ∃ c b a t, doe = 36524 * c + 1461 * b + 365 * a + t ∧ 0 ≤ c ∧ c ≤ 3 ∧ 0 ≤ b ∧ b ≤ 24 ∧
      0 ≤ a ∧ a ≤ 3 ∧ 0 ≤ t ∧ (t ≤ 364 ∨ (a = 3 ∧ t = 365)) ∧ (b = 24 → c < 3 → a = 3 → t ≤ 364) := by
  obtain ⟨c, r, hc, hc0, hc3, hr0, hr, hlast⟩ : ∃ c r, doe = 36524 * c + r ∧ 0 ≤ c ∧ c ≤ 3 ∧
      0 ≤ r ∧ r ≤ 36524 ∧ (c < 3 → r < 36524) :=
    ⟨min (doe / 36524) 3, doe - 36524 * min (doe / 36524) 3, by omega, by omega, by omega,
      by omega, by omega, by omega⟩
  obtain ⟨b, s, hb, hb0, hb24, hs0, hs⟩ : ∃ b s, r = 1461 * b + s ∧ 0 ≤ b ∧ b ≤ 24 ∧ 0 ≤ s ∧
      s ≤ 1460 :=
    ⟨r / 1461, r % 1461, by omega, by omega, by omega, by omega, by omega⟩
  exact ⟨c, b, min (s / 365) 3, s - 365 * min (s / 365) 3, by omega, hc0, hc3, hb0, hb24, by omega,
    by omega, by omega, by omega, by omega⟩

/-- The year of the era that the estimate of `monthOfDay` finds. -/
private theorem yearOfEra_eq {doe c b a t : ℤ} (hdoe : doe = 36524 * c + 1461 * b + 365 * a + t)
    (hc : 0 ≤ c ∧ c ≤ 3) (hb : 0 ≤ b ∧ b ≤ 24) (ha : 0 ≤ a ∧ a ≤ 3) (ht : 0 ≤ t)
    (hlast : t ≤ 364 ∨ (a = 3 ∧ t = 365)) (hcentury : b = 24 → c < 3 → a = 3 → t ≤ 364) :
    (doe - doe / 1460 + doe / 36524 - doe / 146096) / 365 = 100 * c + 4 * b + a := by
  have hcenturies : doe / 36524 - doe / 146096 = c := by
    obtain ⟨r, hr⟩ : ∃ r, r = 1461 * b + 365 * a + t := ⟨_, rfl⟩
    have hrlo : 0 ≤ r := by omega
    have hrhi : r < 36524 ∨ (c = 3 ∧ r = 36524) := by omega
    have hsum : doe = 36524 * c + r := by omega
    clear hdoe hcentury hlast hr
    omega
  obtain ⟨e, he, he01, hcarry⟩ : ∃ e, doe / 1460 = 25 * c + b + e ∧ (e = 0 ∨ e = 1) ∧
      (e = 1 ↔ 1460 ≤ 24 * c + b + 365 * a + t) := by
    refine ⟨(24 * c + b + 365 * a + t) / 1460, ?_, ?_, ?_⟩
    · omega
    · omega
    · omega
  have hestimate : doe - doe / 1460 + doe / 36524 - doe / 146096 =
      365 * (100 * c + 4 * b + a) + (t - e) := by omega
  have hday : 0 ≤ t - e ∧ t - e < 365 := by omega
  rw [hestimate]
  omega

/-- The first day of the month that has the given March-based number in a year that
starts in March. -/
private def marchMonthStart (year month : ℤ) : ℤ :=
  year / 400 * 146097 + ((year - year / 400 * 400) * 365 + (year - year / 400 * 400) / 4 -
    (year - year / 400 * 400) / 100 + (153 * month + 2) / 5) - 719468

private theorem firstDayOfMonth_early {year month : ℤ} (h : month ≤ 2) :
    firstDayOfMonth year month = marchMonthStart (year - 1) (month + 9) := by
  simp only [firstDayOfMonth, marchMonthStart, h, if_true, if_neg (not_lt.mpr h)]

private theorem firstDayOfMonth_late {year month : ℤ} (h : 2 < month) :
    firstDayOfMonth year month = marchMonthStart year (month - 3) := by
  simp only [firstDayOfMonth, marchMonthStart, if_neg (not_le.mpr h), gt_iff_lt, h, if_true]

def nextMonth (m : ℤ × ℤ) : ℤ × ℤ :=
  if m.2 = 12 then (m.1 + 1, 1) else (m.1, m.2 + 1)

private theorem marchMonthStart_eq {year era c b a month : ℤ}
    (hyear : year = 400 * era + 100 * c + 4 * b + a) (hc : 0 ≤ c ∧ c ≤ 3) (hb : 0 ≤ b ∧ b ≤ 24)
    (ha : 0 ≤ a ∧ a ≤ 3) : marchMonthStart year month =
      era * 146097 + 36524 * c + 1461 * b + 365 * a + (153 * month + 2) / 5 - 719468 := by
  have hera : year / 400 = era := by omega
  have hfour : (year - era * 400) / 4 = 25 * c + b := by omega
  have hcentury : (year - era * 400) / 100 = c := by omega
  unfold marchMonthStart
  rw [hera, hfour, hcentury]
  omega

/-- A year that starts in March ends where the next one starts. -/
private theorem day_lt_nextYear {year era c b a t : ℤ}
    (hyear : year = 400 * era + 100 * c + 4 * b + a) (hc : 0 ≤ c ∧ c ≤ 3) (hb : 0 ≤ b ∧ b ≤ 24)
    (ha : 0 ≤ a ∧ a ≤ 3) (hlast : t ≤ 364 ∨ (a = 3 ∧ t = 365))
    (hcentury : b = 24 → c < 3 → a = 3 → t ≤ 364) :
    era * 146097 + 36524 * c + 1461 * b + 365 * a + t - 719468 < marchMonthStart (year + 1) 0 := by
  by_cases hyears : a < 3
  · rw [marchMonthStart_eq (by omega : year + 1 = 400 * era + 100 * c + 4 * b + (a + 1)) hc hb
      (by omega)]
    omega
  by_cases hcycles : b < 24
  · rw [marchMonthStart_eq (by omega : year + 1 = 400 * era + 100 * c + 4 * (b + 1) + 0) hc
      (by omega) (by omega)]
    omega
  by_cases hcenturies : c < 3
  · rw [marchMonthStart_eq (by omega : year + 1 = 400 * era + 100 * (c + 1) + 4 * 0 + 0) (by omega)
      (by omega) (by omega)]
    omega
  · rw [marchMonthStart_eq (by omega : year + 1 = 400 * (era + 1) + 100 * 0 + 4 * 0 + 0) (by omega)
      (by omega) (by omega)]
    omega

private theorem marchMonth_bracket {t : ℤ} (hlo : 0 ≤ t) (hhi : t ≤ 365) :
    ∃ month, (5 * t + 2) / 153 = month ∧ 0 ≤ month ∧ month ≤ 11 ∧ (153 * month + 2) / 5 ≤ t ∧
      (month < 11 → t < (153 * (month + 1) + 2) / 5) :=
  ⟨(5 * t + 2) / 153, rfl, by omega, by omega, by omega, by omega⟩

private theorem march_bracket (day : ℤ) : ∃ year month, 0 ≤ month ∧ month ≤ 11 ∧
    monthOfDay day = (if month < 10 then (year, month + 3) else (year + 1, month - 9)) ∧
    marchMonthStart year month ≤ day ∧
    (month < 11 → day < marchMonthStart year (month + 1)) ∧
    (month = 11 → day < marchMonthStart (year + 1) 0) := by
  obtain ⟨era, doe, hday, hlo, hhi⟩ : ∃ era doe, day = era * 146097 + doe - 719468 ∧ 0 ≤ doe ∧
      doe ≤ 146096 :=
    ⟨(day + 719468) / 146097, (day + 719468) % 146097, by omega, by omega, by omega⟩
  obtain ⟨c, b, a, t, hdoe, hc0, hc3, hb0, hb24, ha0, ha3, ht, hlast, hcentury⟩ :=
    dayOfEra_split doe hlo hhi
  have hc : 0 ≤ c ∧ c ≤ 3 := ⟨hc0, hc3⟩
  have hb : 0 ≤ b ∧ b ≤ 24 := ⟨hb0, hb24⟩
  have ha : 0 ≤ a ∧ a ≤ 3 := ⟨ha0, ha3⟩
  have hera : (day + 719468) / 146097 = era := by omega
  have hdayOfEra : day + 719468 - era * 146097 = doe := by omega
  have hdayOfYear : doe - (365 * (100 * c + 4 * b + a) + (100 * c + 4 * b + a) / 4 -
      (100 * c + 4 * b + a) / 100) = t := by
    have hfour : (100 * c + 4 * b + a) / 4 = 25 * c + b := by omega
    have hhundred : (100 * c + 4 * b + a) / 100 = c := by omega
    omega
  have hsum : day = era * 146097 + 36524 * c + 1461 * b + 365 * a + t - 719468 := by omega
  have hstart : ∀ month, marchMonthStart (400 * era + 100 * c + 4 * b + a) month =
      era * 146097 + 36524 * c + 1461 * b + 365 * a + (153 * month + 2) / 5 - 719468 :=
    fun month => marchMonthStart_eq rfl hc hb ha
  have hyear := yearOfEra_eq hdoe hc hb ha ht hlast hcentury
  obtain ⟨month, hmonth, hmonth0, hmonth11, hfrom, hto⟩ := marchMonth_bracket ht (by omega)
  refine ⟨400 * era + 100 * c + 4 * b + a, month, hmonth0, hmonth11, ?_, ?_, ?_, ?_⟩
  · simp only [monthOfDay, hera, hdayOfEra, hyear, hdayOfYear, hmonth]
    clear hyear hdayOfYear hsum hstart hfrom hto hera hdayOfEra hday hdoe hcentury hlast hmonth
    by_cases hearly : month < 10
    · have hlate : ¬ month + 3 ≤ 2 := by omega
      simp only [hearly, hlate, if_true, if_false, Prod.mk.injEq, and_true]
      omega
    · have hlate : month - 9 ≤ 2 := by omega
      simp only [hearly, hlate, if_true, if_false, Prod.mk.injEq, and_true]
      omega
  · rw [hstart, hsum]
    linarith
  · intro hmonth
    rw [hstart, hsum]
    linarith [hto hmonth]
  · intro hmonth
    rw [hsum]
    exact day_lt_nextYear rfl hc hb ha hlast hcentury

private theorem firstDayOfMonth_march (year : ℤ) {month : ℤ} (hlo : 0 ≤ month) (hhi : month ≤ 11) :
    (if month < 10 then firstDayOfMonth year (month + 3)
      else firstDayOfMonth (year + 1) (month - 9)) = marchMonthStart year month := by
  split
  · rw [firstDayOfMonth_late (by omega), show month + 3 - 3 = month by omega]
  · rw [firstDayOfMonth_early (by omega), show year + 1 - 1 = year by omega,
      show month - 9 + 9 = month by omega]

/-- Every day lies in its own month. -/
theorem monthOfDay_bracket (day : ℤ) :
    1 ≤ (monthOfDay day).2 ∧ (monthOfDay day).2 ≤ 12 ∧
      firstDayOfMonth (monthOfDay day).1 (monthOfDay day).2 ≤ day ∧
      day < firstDayOfMonth (nextMonth (monthOfDay day)).1 (nextMonth (monthOfDay day)).2 := by
  obtain ⟨year, month, hlo, hhi, hmonth, hstart, hnext, hlast⟩ := march_bracket day
  have hfirst := firstDayOfMonth_march year hlo hhi
  rw [hmonth]
  by_cases hearly : month < 10
  · have hmarch := firstDayOfMonth_march year (by omega : 0 ≤ month + 1) (by omega)
    simp only [hearly, if_true] at hfirst ⊢
    have hnext := hnext (by omega)
    refine ⟨by omega, by omega, by omega, ?_⟩
    unfold nextMonth
    by_cases hdecember : month = 9
    · subst hdecember
      rw [← hmarch] at hnext
      simpa using hnext
    · have hsame : month + 1 < 10 := by omega
      have hmonth12 : ¬ month + 3 = 12 := by omega
      simp only [hsame, hmonth12, if_true, if_false] at hmarch ⊢
      rw [show month + 3 + 1 = month + 1 + 3 by omega, hmarch]
      exact hnext
  · simp only [hearly, if_false] at hfirst ⊢
    refine ⟨by omega, by omega, by omega, ?_⟩
    unfold nextMonth
    have hmonth12 : ¬ month - 9 = 12 := by omega
    simp only [hmonth12, if_false]
    by_cases hfebruary : month = 11
    · subst hfebruary
      have hmarch := firstDayOfMonth_march (year + 1) (le_refl 0) (by omega)
      have hlast := hlast rfl
      rw [← hmarch] at hlast
      simpa using hlast
    · have hmarch := firstDayOfMonth_march year (by omega : 0 ≤ month + 1) (by omega)
      have hlate : ¬ month + 1 < 10 := by omega
      simp only [hlate, if_false] at hmarch
      rw [show month - 9 + 1 = month + 1 - 9 by omega, hmarch]
      exact hnext (by omega)

private theorem marchMonthStart_lt (year : ℤ) {month : ℤ} (hlo : 0 ≤ month) (hhi : month ≤ 11) :
    marchMonthStart year month < if month = 11 then marchMonthStart (year + 1) 0
      else marchMonthStart year (month + 1) := by
  obtain ⟨era, c, b, a, hyear, hc, hb, ha⟩ : ∃ era c b a, year = 400 * era + 100 * c + 4 * b + a ∧
      (0 ≤ c ∧ c ≤ 3) ∧ (0 ≤ b ∧ b ≤ 24) ∧ (0 ≤ a ∧ a ≤ 3) :=
    ⟨year / 400, year % 400 / 100, year % 100 / 4, year % 4, by omega, by omega, by omega, by omega⟩
  split
  · rename_i hlast
    subst hlast
    have hnext := day_lt_nextYear (t := 337) hyear hc hb ha (by omega) (by omega)
    rw [marchMonthStart_eq hyear hc hb ha]
    exact hnext
  · rw [marchMonthStart_eq hyear hc hb ha, marchMonthStart_eq hyear hc hb ha]
    have hgrows : (153 * month + 2) / 5 < (153 * (month + 1) + 2) / 5 := by omega
    linarith

/-- The first day of the month with this number, counting months from the year zero. -/
private def monthStart (k : ℤ) : ℤ := firstDayOfMonth (k / 12) (k % 12 + 1)

private theorem monthStart_eq {year month : ℤ} (hlo : 1 ≤ month) (hhi : month ≤ 12) :
    monthStart (12 * year + (month - 1)) = firstDayOfMonth year month := by
  unfold monthStart
  rw [show (12 * year + (month - 1)) / 12 = year by omega,
    show (12 * year + (month - 1)) % 12 + 1 = month by omega]

private theorem monthStart_march (k : ℤ) :
    monthStart k = marchMonthStart ((k - 2) / 12) ((k - 2) % 12) := by
  rw [← firstDayOfMonth_march ((k - 2) / 12) (by omega) (by omega)]
  unfold monthStart
  split
  · rw [show k / 12 = (k - 2) / 12 by omega, show k % 12 + 1 = (k - 2) % 12 + 3 by omega]
  · rw [show k / 12 = (k - 2) / 12 + 1 by omega, show k % 12 + 1 = (k - 2) % 12 - 9 by omega]

private theorem monthStart_strictMono : StrictMono monthStart := by
  refine strictMono_int_of_lt_succ fun k => ?_
  rw [monthStart_march, monthStart_march]
  have hlt := marchMonthStart_lt ((k - 2) / 12) (by omega : 0 ≤ (k - 2) % 12) (by omega)
  split at hlt
  · rw [show (k + 1 - 2) / 12 = (k - 2) / 12 + 1 by omega, show (k + 1 - 2) % 12 = 0 by omega]
    exact hlt
  · rw [show (k + 1 - 2) / 12 = (k - 2) / 12 by omega,
      show (k + 1 - 2) % 12 = (k - 2) % 12 + 1 by omega]
    exact hlt

private theorem monthStart_next {m : ℤ × ℤ} (hlo : 1 ≤ m.2) (hhi : m.2 ≤ 12) :
    firstDayOfMonth (nextMonth m).1 (nextMonth m).2 = monthStart (12 * m.1 + (m.2 - 1) + 1) := by
  unfold nextMonth
  split
  · rename_i hdecember
    rw [← monthStart_eq (by omega) (by omega), hdecember]
    congr 1
    omega
  · rw [← monthStart_eq (by omega) (by omega)]
    congr 1
    omega

/-- Months by number: every day is in exactly one of them. -/
private theorem monthOfDay_number (day : ℤ) :
    monthStart (12 * (monthOfDay day).1 + ((monthOfDay day).2 - 1)) ≤ day ∧
      day < monthStart (12 * (monthOfDay day).1 + ((monthOfDay day).2 - 1) + 1) := by
  obtain ⟨hlo, hhi, hstart, hnext⟩ := monthOfDay_bracket day
  rw [monthStart_next hlo hhi] at hnext
  exact ⟨(monthStart_eq hlo hhi).trans_le hstart, hnext⟩

/-- The days from a day to the start of the next month are in the month of that day. -/
theorem monthOfDay_eq {day later : ℤ} (hle : day ≤ later)
    (hlt : later < firstDayOfMonth (nextMonth (monthOfDay day)).1 (nextMonth (monthOfDay day)).2) :
    monthOfDay later = monthOfDay day := by
  obtain ⟨hlo, hhi, -, -⟩ := monthOfDay_bracket day
  obtain ⟨hlo', hhi', -, -⟩ := monthOfDay_bracket later
  obtain ⟨hstart, -⟩ := monthOfDay_number day
  obtain ⟨hstart', hnext'⟩ := monthOfDay_number later
  rw [monthStart_next hlo hhi] at hlt
  have hnotLater := monthStart_strictMono.lt_iff_lt.mp (hstart'.trans_lt hlt)
  have hnotEarlier := monthStart_strictMono.lt_iff_lt.mp ((hstart.trans hle).trans_lt hnext')
  exact Prod.ext (by omega) (by omega)

end NyxId.Billing
