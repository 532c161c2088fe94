import NyxId.TriggerSchedule.Law

/-!
The least distance between the wall times of a pattern. It is read off the selected minutes of one
day and, over midnight, off four hundred years of dates, after which the dates of a pattern come
again.
-/

namespace NyxId.TriggerSchedule

open WallClock

/-- The dates of a pattern are the same after four hundred years. -/
def Cron.Repeats (pattern : Cron) : Prop :=
  ∀ date, minDate ≤ date → date + 146097 ≤ maxDate →
    pattern.dateMatches (date + 146097) = pattern.dateMatches date

/-- The matching wall times of the calendar. -/
def Cron.wallClock (pattern : Cron) : Set ℤ :=
  {wall | pattern.Matches wall ∧ minDate ≤ Zone.dateOf wall ∧ Zone.dateOf wall ≤ maxDate}

/-- Two dates in a row match. -/
def Cron.Adjacent (pattern : Cron) : Prop :=
  ∃ date, minDate ≤ date ∧ date + 1 ≤ maxDate ∧ pattern.dateMatches date ∧
    pattern.dateMatches (date + 1)

/-- Different wall times of the calendar are a number of seconds apart. -/
def Cron.Apart (pattern : Cron) (seconds : ℤ) : Prop :=
  ∀ wall ∈ pattern.wallClock, ∀ wall' ∈ pattern.wallClock, wall ≠ wall' → seconds ≤ |wall' - wall|

section Adjacent

variable {pattern : Cron} {date first : ℤ} {days : ℕ} {previous : Bool}

/-- The scan finds a match of a date and of the one before it. -/
theorem adjacentFrom_eq_true : adjacentFrom pattern days date previous = true ↔
    (0 < days ∧ previous = true ∧ pattern.dateMatches date = true) ∨
      ∃ k : ℕ, k + 1 < days ∧ pattern.dateMatches (date + k) = true ∧
        pattern.dateMatches (date + k + 1) = true := by
  induction days generalizing date previous with
  | zero => simp [adjacentFrom]
  | succ days ih =>
    rw [adjacentFrom]
    by_cases hboth : previous = true ∧ pattern.dateMatches date = true
    · rw [if_pos (by simp [hboth]), eq_self, true_iff]
      exact .inl ⟨by omega, hboth⟩
    · rw [if_neg (by simpa using hboth), ih]
      constructor
      · rintro (⟨hdays, hmatch, hnext⟩ | ⟨k, hk, hmatch, hnext⟩)
        · exact .inr ⟨0, by omega, by simpa using hmatch, by simpa using hnext⟩
        · refine .inr ⟨k + 1, by omega, ?_, ?_⟩
          · have hdate : date + (k + 1 : ℕ) = date + 1 + k := by omega
            rwa [hdate]
          · have hdate : date + (k + 1 : ℕ) + 1 = date + 1 + k + 1 := by omega
            rwa [hdate]
      · rintro (⟨-, hprevious, hmatch⟩ | ⟨k, hk, hmatch, hnext⟩)
        · exact absurd ⟨hprevious, hmatch⟩ hboth
        · cases k with
          | zero => exact .inl ⟨by omega, by simpa using hmatch, by simpa using hnext⟩
          | succ k =>
            have hdate : date + 1 + k = date + (k + 1 : ℕ) := by omega
            refine .inr ⟨k, by omega, ?_, ?_⟩
            · rwa [hdate]
            · rwa [hdate]

/-- Whole periods later within the calendar the same dates match. -/
theorem Cron.Repeats.later (hpattern : pattern.Repeats) (periods : ℕ) (hfirst : minDate ≤ date)
    (hlast : date + 146097 * periods ≤ maxDate) :
    pattern.dateMatches (date + 146097 * periods) = pattern.dateMatches date := by
  induction periods with
  | zero => simp
  | succ periods ih =>
    push_cast at hlast
    have hstep := hpattern (date + 146097 * periods) (by omega) (by omega)
    have hdate : date + 146097 * (periods + 1 : ℕ) = date + 146097 * periods + 146097 := by
      push_cast
      ring
    rw [hdate, hstep, ih (by omega)]

/-- Every date matches as the one of a given four hundred years does. -/
theorem Cron.Repeats.within (hpattern : pattern.Repeats) (hdate : minDate ≤ date ∧ date ≤ maxDate)
    (hfirst : minDate ≤ first ∧ first + 146096 ≤ maxDate) :
    pattern.dateMatches (first + (date - first) % 146097) = pattern.dateMatches date := by
  have hmod : 0 ≤ (date - first) % 146097 ∧ (date - first) % 146097 < 146097 :=
    ⟨Int.emod_nonneg _ (by decide), Int.emod_lt_of_pos _ (by decide)⟩
  have hdiv := Int.mul_ediv_add_emod (date - first) 146097
  generalize hrest : (date - first) % 146097 = rest at *
  rcases le_total 0 ((date - first) / 146097) with hnonneg | hneg
  · obtain ⟨periods, hperiods⟩ := Int.eq_ofNat_of_zero_le hnonneg
    rw [hperiods] at hdiv
    have hlater := @Cron.Repeats.later _ (first + rest) hpattern periods (by omega) (by omega)
    have hsum : first + rest + 146097 * periods = date := by omega
    rw [hsum] at hlater
    exact hlater.symm
  · obtain ⟨periods, hperiods⟩ := Int.eq_ofNat_of_zero_le (Int.neg_nonneg.mpr hneg)
    have hlater := @Cron.Repeats.later _ date hpattern periods (by omega) (by omega)
    have hsum : date + 146097 * periods = first + rest := by omega
    rwa [hsum] at hlater

theorem Cron.Repeats.matchesAdjacentDates_iff (hpattern : pattern.Repeats) :
    matchesAdjacentDates pattern = true ↔ pattern.Adjacent := by
  unfold matchesAdjacentDates
  rw [adjacentFrom_eq_true]
  simp only [Bool.false_eq_true, false_and, and_false, false_or]
  constructor
  · rintro ⟨k, hk, hmatch, hnext⟩
    exact ⟨10957 + k, by unfold minDate; omega, by unfold maxDate; omega, hmatch, hnext⟩
  · rintro ⟨date, hfirst, hlast, hmatch, hnext⟩
    have hmod : 0 ≤ (date - 10957) % 146097 ∧ (date - 10957) % 146097 < 146097 :=
      ⟨Int.emod_nonneg _ (by decide), Int.emod_lt_of_pos _ (by decide)⟩
    have hsame := @Cron.Repeats.within _ _ 10957 hpattern ⟨hfirst, by omega⟩ (by decide)
    -- the window of the next date begins a day later, so that its last day is scanned too
    have hsame' := @Cron.Repeats.within _ _ 10958 hpattern ⟨by omega, hlast⟩ (by decide)
    have hshift : date + 1 - 10958 = date - 10957 := by ring
    rw [hshift] at hsame'
    generalize (date - 10957) % 146097 = rest at *
    obtain ⟨k, rfl⟩ := Int.eq_ofNat_of_zero_le hmod.1
    refine ⟨k, by omega, hsame.trans hmatch, ?_⟩
    have hdate : (10957 : ℤ) + k + 1 = 10958 + k := by ring
    rw [hdate]
    exact hsame'.trans hnext

end Adjacent

/-! ### Distances -/

/-- Two minutes of a day are a number of seconds apart. -/
def MinutesApart (seconds : ℤ) (minute minute' : ℕ) : Prop :=
  seconds ≤ ((minute' : ℤ) - minute) * 60

section Distances

variable {pattern : Cron} {minimum : ℤ} {minutes : List ℕ}

/-- In an increasing list the distances of neighbours bound all others. -/
theorem zip_tail_apart (hminutes : minutes.Pairwise (· < ·)) :
    ((minutes.zip minutes.tail).any fun v => ((v.2 : ℤ) - v.1) * 60 < minimum) = false ↔
      minutes.Pairwise (MinutesApart minimum) := by
  induction minutes with
  | nil => simp
  | cons a rest ih =>
    cases rest with
    | nil => simp
    | cons b rest =>
      obtain ⟨hfirst, hrest⟩ := List.pairwise_cons.mp hminutes
      have hstep := ih hrest
      rw [List.tail_cons] at hstep
      rw [List.tail_cons, List.zip_cons_cons, List.any_cons, Bool.or_eq_false_iff,
        decide_eq_false_iff_not, not_lt, List.pairwise_cons, hstep]
      constructor
      · rintro ⟨hab, happart⟩
        refine ⟨fun c hc => ?_, happart⟩
        rcases List.mem_cons.mp hc with rfl | hc
        · exact hab
        · have hlt := (List.pairwise_cons.mp hrest).1 c hc
          unfold MinutesApart
          omega
      · rintro ⟨hall, happart⟩
        exact ⟨hall b List.mem_cons_self, happart⟩

/-- Of two members of an increasing list the smaller one stands first. -/
theorem minutesApart_of_lt (hminutes : minutes.Pairwise (· < ·))
    (happart : minutes.Pairwise (MinutesApart minimum)) {a b : ℕ} (ha : a ∈ minutes)
    (hb : b ∈ minutes) (hlt : a < b) : MinutesApart minimum a b := by
  obtain ⟨i, hi, rfl⟩ := List.mem_iff_getElem.mp ha
  obtain ⟨j, hj, rfl⟩ := List.mem_iff_getElem.mp hb
  refine List.pairwise_iff_getElem.mp happart i j hi hj ?_
  by_contra hle
  rcases Nat.eq_or_lt_of_le (not_lt.mp hle) with heq | hji
  · subst heq
    omega
  · have hback := List.pairwise_iff_getElem.mp hminutes j i hj hi hji
    omega

/-- The first and the last of an increasing list. -/
theorem head_getLast_bounds (hminutes : minutes.Pairwise (· < ·)) (hne : minutes ≠ []) :
    minutes.head?.getD 0 ∈ minutes ∧ minutes.getLast?.getD 0 ∈ minutes ∧
      ∀ m ∈ minutes, minutes.head?.getD 0 ≤ m ∧ m ≤ minutes.getLast?.getD 0 := by
  have hhead : minutes.head?.getD 0 = minutes.head hne := by
    rw [List.head?_eq_some_head hne, Option.getD_some]
  have hlast : minutes.getLast?.getD 0 = minutes.getLast hne := by
    rw [List.getLast?_eq_some_getLast hne, Option.getD_some]
  rw [hhead, hlast]
  refine ⟨List.head_mem hne, List.getLast_mem hne, fun m hm => ?_⟩
  have hle := hminutes.imp fun {a b : ℕ} (h : a < b) => h.le
  exact ⟨hle.rel_head hm, hle.rel_getLast hm⟩

theorem tooOften_eq_false (hrepeats : pattern.Repeats) : tooOften pattern minimum = false ↔
    pattern.minutes.Pairwise (MinutesApart minimum) ∧
      (1 < pattern.minutes.length → pattern.Adjacent →
        minimum ≤ (1440 + (pattern.minutes.head?.getD 0 : ℤ) -
          pattern.minutes.getLast?.getD 0) * 60) := by
  unfold tooOften
  rw [Bool.or_eq_false_iff, zip_tail_apart (minutes_pairwise pattern)]
  rw [← Bool.not_eq_true]
  simp only [Bool.and_eq_true, decide_eq_true_eq, hrepeats.matchesAdjacentDates_iff]
  refine and_congr_right fun _ => ⟨fun h hlength hadjacent => ?_, ?_⟩
  · exact not_lt.mp fun hlt => h ⟨⟨hlength, hlt⟩, hadjacent⟩
  · rintro h ⟨⟨hlength, hlt⟩, hadjacent⟩
    exact absurd hlt (not_lt.mpr (h hlength hadjacent))

theorem mem_wallClock {wall : ℤ} : wall ∈ pattern.wallClock ↔
    ∃ date : ℤ, ∃ minute ∈ pattern.minutes, minDate ≤ date ∧ date ≤ maxDate ∧
      pattern.dateMatches date ∧ wall = date * 86400 + minute * 60 := by
  constructor
  · rintro ⟨hmatches, hfirst, hlast⟩
    obtain ⟨hdate, minute, hminute, hwall⟩ := mem_wallTimes.mp (matches_iff.mp hmatches)
    exact ⟨_, minute, hminute, hfirst, hlast, hdate, hwall⟩
  · rintro ⟨date, minute, hminute, hfirst, hlast, hdate, hwall⟩
    have hmem : wall ∈ pattern.wallTimes date := mem_wallTimes.mpr ⟨hdate, minute, hminute, hwall⟩
    obtain rfl := dateOf_wallTime hmem
    exact ⟨matches_iff.mpr hmem, hfirst, hlast⟩

/-- Selected minutes of two dates in a row are as far apart as the last and the first. -/
theorem overnight (hminutes : pattern.minutes ≠ []) {a b : ℕ} (ha : a ∈ pattern.minutes)
    (hb : b ∈ pattern.minutes) : (1440 + (pattern.minutes.head?.getD 0 : ℤ) -
      pattern.minutes.getLast?.getD 0) * 60 ≤ 86400 + (b : ℤ) * 60 - a * 60 := by
  obtain ⟨-, -, hbounds⟩ := head_getLast_bounds (minutes_pairwise pattern) hminutes
  have hlast := (hbounds a ha).2
  have hfirst := (hbounds b hb).1
  omega

/-- Minutes that are far enough apart, also over midnight, keep all wall times apart. -/
theorem apart_of_not_tooOften (hrepeats : pattern.Repeats) (hday : minimum ≤ 86400)
    (h : tooOften pattern minimum = false) : pattern.Apart minimum := by
  obtain ⟨hminutes, hmidnight⟩ := (tooOften_eq_false hrepeats).mp h
  have hordered : ∀ wall ∈ pattern.wallClock, ∀ wall' ∈ pattern.wallClock, wall < wall' →
      minimum ≤ wall' - wall := by
    intro wall hwall wall' hwall' hlt
    obtain ⟨date, minute, hmem, hfirst, -, hdate, rfl⟩ := mem_wallClock.mp hwall
    obtain ⟨date', minute', hmem', -, hlast', hdate', rfl⟩ := mem_wallClock.mp hwall'
    have hminute := minute_lt hmem
    have hminute' := minute_lt hmem'
    rcases lt_trichotomy date' (date + 1) with hsame | hnext | hlater
    · have heq : date' = date := by omega
      have hdistance := minutesApart_of_lt (minutes_pairwise pattern) hminutes hmem hmem' (by omega)
      unfold MinutesApart at hdistance
      omega
    · have hovernight := overnight (List.ne_nil_of_mem hmem) hmem hmem'
      by_cases hlength : 1 < pattern.minutes.length
      · have hwrap := hmidnight hlength ⟨date, hfirst, by omega, hdate, by rwa [← hnext]⟩
        omega
      · -- one minute a day
        obtain ⟨only, honly⟩ := List.length_eq_one_iff.mp
          (by have := List.length_pos_of_mem hmem; omega : pattern.minutes.length = 1)
        rw [honly, List.mem_singleton] at hmem hmem'
        omega
    · omega
  intro wall hwall wall' hwall' hne
  rcases lt_or_gt_of_ne hne with hlt | hgt
  · have hle := hordered wall hwall wall' hwall' hlt
    rwa [abs_of_pos (by omega)]
  · have hle := hordered wall' hwall' wall hwall hgt
    rw [abs_sub_comm, abs_of_pos (by omega)]
    exact hle

/-- When a date matches, minutes that are too close are two wall times that are too close. -/
theorem not_tooOften_of_apart (hrepeats : pattern.Repeats)
    (hdate : ∃ date, minDate ≤ date ∧ date ≤ maxDate ∧ pattern.dateMatches date)
    (h : pattern.Apart minimum) : tooOften pattern minimum = false := by
  obtain ⟨date, hfirst, hlast, hmatch⟩ := hdate
  refine (tooOften_eq_false hrepeats).mpr ⟨?_, fun hlength hadjacent => ?_⟩
  · refine (minutes_pairwise pattern).imp_of_mem fun {a b} ha hb hlt => ?_
    have hdistance := h _ (mem_wallClock.mpr ⟨date, a, ha, hfirst, hlast, hmatch, rfl⟩) _
      (mem_wallClock.mpr ⟨date, b, hb, hfirst, hlast, hmatch, rfl⟩) (by omega)
    rw [abs_of_pos (by omega)] at hdistance
    unfold MinutesApart
    omega
  · obtain ⟨date, hfirst, hlast, hmatch, hnext⟩ := hadjacent
    obtain ⟨hhead, hend, -⟩ := head_getLast_bounds (minutes_pairwise pattern)
      (List.ne_nil_of_length_pos (by omega))
    have hlt := minute_lt hend
    have hdistance := h _ (mem_wallClock.mpr ⟨date, _, hend, hfirst, by omega, hmatch, rfl⟩) _
      (mem_wallClock.mpr ⟨date + 1, _, hhead, by omega, hlast, hnext, rfl⟩) (by omega)
    rw [abs_of_pos (by omega)] at hdistance
    omega

end Distances

/-! ### The check of a schedule -/

def cadenceError : AppError := invalid "Cron cadence is below the owner's minimum interval"

section Check

variable {parseZone : String → Option Zone} {parseCron : String → Option Cron}
  {spec : ScheduleSpec} {expression zone : String} {pattern : Cron} {minimum : ℤ}

theorem message_eq {α : Type} {message : String}
    (h : (.error (invalid message) : Except AppError α) = .error cadenceError) :
    message = "Cron cadence is below the owner's minimum interval" :=
  AppError.validationError.inj (Except.error.inj h)

theorem tooOften_of_ok (htiming : spec.timing = .cron expression zone)
    (hpattern : cron parseCron expression = .ok pattern)
    (h : validate parseZone parseCron spec minimum = .ok ()) :
    tooOften pattern (max minimum defaultScheduleMinimumMinutes * 60) = false := by
  obtain ⟨⟨⟩, hok, -⟩ := bind_eq_ok.mp h
  rw [htiming] at hok
  obtain ⟨place, -, hrest⟩ := bind_eq_ok.mp hok
  obtain ⟨read, hread, hchecks⟩ := bind_eq_ok.mp hrest
  obtain rfl : pattern = read := Except.ok.inj (hpattern.symm.trans hread)
  split_ifs at hchecks with hnone hoften
  exact Bool.eq_false_of_not_eq_true hoften

/-- No other check of a schedule has the error of the cadence. -/
theorem tooOften_of_error (htiming : spec.timing = .cron expression zone)
    (hpattern : cron parseCron expression = .ok pattern)
    (h : validate parseZone parseCron spec minimum = .error cadenceError) :
    tooOften pattern (max minimum defaultScheduleMinimumMinutes * 60) = true := by
  rcases bind_eq_error h with herror | ⟨-, -, herror⟩
  · rw [htiming] at herror
    rcases bind_eq_error herror with hzone | ⟨place, -, hrest⟩
    · unfold timezone okOr at hzone
      cases hplace : parseZone zone with
      | none =>
        rw [hplace] at hzone
        exact absurd (message_eq hzone) (by decide)
      | some place =>
        rw [hplace] at hzone
        cases hzone
    · rcases bind_eq_error hrest with hcron | ⟨read, hread, hchecks⟩
      · rw [hpattern] at hcron
        cases hcron
      · obtain rfl : pattern = read := Except.ok.inj (hpattern.symm.trans hread)
        split_ifs at hchecks with hnone hoften
        · exact absurd (message_eq hchecks) (by decide)
        · exact hoften
  · split_ifs at herror <;> exact absurd (message_eq herror) (by decide)

end Check

/-- A schedule is accepted only when all its wall times are the minimum apart, and refused for its
cadence only when two of them are closer. -/
theorem cadence_exact (parseZone : String → Option Zone) (parseCron : String → Option Cron)
    (spec : ScheduleSpec) (expression zone : String) (pattern : Cron) (minimum : ℤ)
    (hminimum : 5 ≤ minimum ∧ minimum ≤ 1440) (htiming : spec.timing = .cron expression zone)
    (hpattern : cron parseCron expression = .ok pattern) (hrepeats : pattern.Repeats) :
    (validate parseZone parseCron spec minimum = .ok () → pattern.Apart (minimum * 60)) ∧
    ((∃ date, minDate ≤ date ∧ date ≤ maxDate ∧ pattern.dateMatches date) →
      validate parseZone parseCron spec minimum = .error cadenceError →
        ¬ pattern.Apart (minimum * 60)) := by
  have hmax : max minimum defaultScheduleMinimumMinutes = minimum := by
    unfold defaultScheduleMinimumMinutes
    omega
  constructor
  · intro hok
    have hrare := tooOften_of_ok htiming hpattern hok
    rw [hmax] at hrare
    exact apart_of_not_tooOften hrepeats (by omega) hrare
  · intro hdate herror hapart
    have hoften := tooOften_of_error htiming hpattern herror
    rw [hmax, not_tooOften_of_apart hrepeats hdate hapart] at hoften
    cases hoften

/-- On Mondays at midnight and at another hour. -/
def mondays (hour : ℕ) : Cron where
  monthMatch _ := some true
  dayMatch _ _ _ weekday := some (weekday = 1)
  hourMatch h := some (h = 0 ∨ h = hour)
  minuteMatch minute := some (minute = 0)

theorem mondays_repeats (hour : ℕ) : (mondays hour).Repeats := by
  intro date _ _
  have hweekday : weekday (date + 146097) = weekday date := by
    unfold weekday
    omega
  simp [mondays, Cron.dateMatches, hweekday]

theorem mondays_apart : (mondays 12).Apart (120 * 60) ∧ ¬ (mondays 1).Apart (120 * 60) := by
  constructor
  · exact (cadence_exact zoneOf (fun _ => some (mondays 12))
      (unlimited (.cron "0 0,12 * * 1" "UTC")) _ _ _ 120 (by decide) rfl rfl
      (mondays_repeats 12)).1 rfl
  · exact (cadence_exact zoneOf (fun _ => some (mondays 1))
      (unlimited (.cron "0 0,1 * * 1" "UTC")) _ _ _ 120 (by decide) rfl rfl
      (mondays_repeats 1)).2 ⟨4, by decide, by decide, rfl⟩ rfl

end NyxId.TriggerSchedule
