import NyxId.TriggerSchedule.Model

/-!
The search for the occurrence next to a pivot, date by date from the local date of the pivot. Both
directions are one search in the order toward which it looks. Forwards, the dates before the local
date have passed; backwards, the dates after it have not begun unless the clock was set back.
-/

namespace NyxId.TriggerSchedule

open WallClock

/-- The order in which a search looks. -/
def toward (forward : Bool) (x : ℤ) : ℤ := if forward then x else -x

/-- An instant of a date. -/
def OnDate (pattern : Cron) (zone : Zone) (date instant : ℤ) : Prop :=
  ∃ wall ∈ pattern.wallTimes date, resolveWallTime zone wall = .ok instant

/-- The first of the instants beyond a pivot, if there is one. -/
def FirstBeyond (forward : Bool) (pivot : ℤ) (instants : ℤ → Prop) (found : Option ℤ) : Prop :=
  found.elim (∀ x, instants x → toward forward x ≤ toward forward pivot) fun b =>
    instants b ∧ toward forward pivot < toward forward b ∧
      ∀ x, instants x → toward forward pivot < toward forward x →
        toward forward b ≤ toward forward x

section Best

variable {forward : Bool} {pivot instant : ℤ} {best found : Option ℤ}
  {instants : ℤ → Prop} {zone : Zone}

theorem better_eq (pivot : ℤ) (forward : Bool) (best : Option ℤ) (candidate : ℤ) :
    better pivot forward best candidate =
      if toward forward pivot < toward forward candidate then
        some (best.elim candidate fun old =>
          if toward forward candidate < toward forward old then candidate else old)
      else best := by
  unfold better toward
  cases forward with
  | true =>
    have hmin : ∀ old, min old candidate = if candidate < old then candidate else old := by
      intro old
      rw [min_def]
      split <;> split <;> omega
    simp [hmin]
  | false =>
    have hmax : ∀ old, max old candidate = if old < candidate then candidate else old := by
      intro old
      rw [max_def]
      split <;> split <;> omega
    simp [hmax]

theorem FirstBeyond.better (h : FirstBeyond forward pivot instants best) (candidate : ℤ) :
    FirstBeyond forward pivot (fun x => instants x ∨ x = candidate)
      (better pivot forward best candidate) := by
  rw [better_eq]
  by_cases hbeyond : toward forward pivot < toward forward candidate
  · rw [if_pos hbeyond]
    cases best with
    | none =>
      refine ⟨.inr rfl, hbeyond, ?_⟩
      intro x hx hlt
      obtain hold | rfl := hx
      · exact absurd (h x hold) (not_le.mpr hlt)
      · exact le_rfl
    | some old =>
      obtain ⟨hold, hpivot, hfirst⟩ := h
      by_cases hless : toward forward candidate < toward forward old
      · simp only [Option.elim_some, if_pos hless]
        refine ⟨.inr rfl, hbeyond, ?_⟩
        intro x hx hlt
        obtain hx | rfl := hx
        · exact hless.le.trans (hfirst x hx hlt)
        · exact le_rfl
      · simp only [Option.elim_some, if_neg hless]
        refine ⟨.inl hold, hpivot, ?_⟩
        intro x hx hlt
        obtain hx | rfl := hx
        · exact hfirst x hx hlt
        · exact not_lt.mp hless
  · rw [if_neg hbeyond]
    cases best with
    | none =>
      intro x hx
      obtain hold | rfl := hx
      · exact h x hold
      · exact not_lt.mp hbeyond
    | some old =>
      obtain ⟨hold, hpivot, hfirst⟩ := h
      refine ⟨.inl hold, hpivot, ?_⟩
      intro x hx hlt
      obtain hx | rfl := hx
      · exact hfirst x hx hlt
      · exact absurd hlt hbeyond

theorem FirstBeyond.congr {others : ℤ → Prop} (h : FirstBeyond forward pivot instants found)
    (hsame : ∀ x, instants x ↔ others x) : FirstBeyond forward pivot others found := by
  rwa [← funext fun x => propext (hsame x)]

/-- The best instant of a list of wall times. -/
theorem foldlM_better (walls : List ℤ)
    (hresolves : ∀ wall, ∃ c, resolveWallTime zone wall = .ok c)
    (h : FirstBeyond forward pivot instants best) :
    ∃ found, walls.foldlM (fun best wall => do
        return NyxId.TriggerSchedule.better pivot forward best (← resolveWallTime zone wall)) best =
          .ok found ∧
      FirstBeyond forward pivot
        (fun x => instants x ∨ ∃ wall ∈ walls, resolveWallTime zone wall = .ok x) found := by
  induction walls generalizing best instants with
  | nil => exact ⟨best, rfl, h.congr fun x => by simp⟩
  | cons wall walls ih =>
    obtain ⟨c, hc⟩ := hresolves wall
    obtain ⟨found, hfound, hfirst⟩ := ih (h.better c)
    refine ⟨found, ?_, hfirst.congr ?_⟩
    · rw [List.foldlM_cons, hc]
      exact hfound
    · intro x
      rw [List.exists_mem_cons_iff, hc, Except.ok.injEq, or_assoc, eq_comm]

theorem bestOf_eq (hresolves : ∀ wall, ∃ c, resolveWallTime zone wall = .ok c) (pivot : ℤ)
    (forward : Bool) (pattern : Cron) (date : ℤ) :
    ∃ found, bestOf zone pivot forward (pattern.wallTimes date) = .ok found ∧
      FirstBeyond forward pivot (OnDate pattern zone date) found := by
  have hnone : FirstBeyond forward pivot (fun _ => False) none := fun x hx => hx.elim
  obtain ⟨found, hfound, hfirst⟩ := foldlM_better (pattern.wallTimes date) hresolves hnone
  exact ⟨found, hfound, hfirst.congr fun x => by simp [OnDate]⟩

end Best

/-! ### Dates -/

section Dates

variable {forward : Bool} {pivot first : ℤ} {pattern : Cron} {zone : Zone} {dates : ℕ}

/-- The instants from a date on in the direction of the search. -/
def FromDate (pattern : Cron) (zone : Zone) (forward : Bool) (first instant : ℤ) : Prop :=
  ∃ date, toward forward first ≤ toward forward date ∧ OnDate pattern zone date instant

/-- The instants of later dates are not earlier, in the direction of the search. -/
theorem toward_le_of_date (forward : Bool) (hzone : Regular zone) {date date' instant instant' : ℤ}
    (h : OnDate pattern zone date instant) (h' : OnDate pattern zone date' instant')
    (hlt : toward forward date < toward forward date') :
    toward forward instant ≤ toward forward instant' := by
  obtain ⟨wall, hwall, hok⟩ := h
  obtain ⟨wall', hwall', hok'⟩ := h'
  obtain ⟨second, rfl, hresolved⟩ := resolved_of_ok hzone hok
  obtain ⟨second', rfl, hresolved'⟩ := resolved_of_ok hzone hok'
  have hdate := dateOf_wallTime hwall
  have hdate' := dateOf_wallTime hwall'
  unfold Zone.dateOf at hdate hdate'
  unfold toward nanosPerSecond at *
  cases forward with
  | true =>
    have hmono := hresolved.mono hzone.inOrder hresolved' (by simp at hlt; omega)
    simp
    omega
  | false =>
    have hmono := hresolved'.mono hzone.inOrder hresolved (by simp at hlt; omega)
    simp
    omega

/-- The next date is one further, within the calendar. -/
theorem nextDate_eq {room : ℤ} (hpos : 0 < room)
    (hcalendar : if forward then first + room ≤ maxDate else minDate ≤ first - room) :
    ∃ date, (if forward then succOpt first else predOpt first) = some date ∧
      toward forward date = toward forward first + 1 ∧
      if forward then date + (room - 1) ≤ maxDate else minDate ≤ date - (room - 1) := by
  unfold succOpt predOpt toward
  cases forward with
  | true =>
    simp only [if_true] at hcalendar ⊢
    exact ⟨first + 1, if_pos (by omega), rfl, by omega⟩
  | false =>
    simp only [Bool.false_eq_true, if_false] at hcalendar ⊢
    exact ⟨first - 1, if_pos (by omega), by omega, by omega⟩

/-- The first instant of a date that has one is the first of all further dates. -/
theorem FirstBeyond.fromDate (hzone : Regular zone) {b : ℤ}
    (h : FirstBeyond forward pivot (OnDate pattern zone first) (some b)) :
    FirstBeyond forward pivot (FromDate pattern zone forward first) (some b) := by
  obtain ⟨hon, hpivot, hfirst⟩ := h
  refine ⟨⟨first, le_rfl, hon⟩, hpivot, ?_⟩
  intro x hx hlt
  obtain ⟨date, hdate, hx⟩ := hx
  obtain hless | heq := hdate.lt_or_eq
  · exact toward_le_of_date _ hzone hon hx hless
  · have hsame : first = date := by
      unfold toward at heq
      cases forward <;> simp at heq <;> omega
    rw [← hsame] at hx
    exact hfirst x hx hlt

theorem searchDates_eq (pattern : Cron) (pivot : ℤ) (forward : Bool) (dates : ℕ)
    (hzone : Regular zone)
    (hcalendar : if forward then first + dates ≤ maxDate else minDate ≤ first - dates) :
    ∃ found, searchDates pattern zone pivot forward dates first = .ok found ∧
      found.elim
        (∀ date, toward forward first ≤ toward forward date →
          toward forward date < toward forward first + dates →
          ∀ x, OnDate pattern zone date x → toward forward x ≤ toward forward pivot)
        fun _ => FirstBeyond forward pivot (FromDate pattern zone forward first) found := by
  induction dates generalizing first with
  | zero =>
    refine ⟨none, rfl, ?_⟩
    intro date hle hlt
    simp only [Nat.cast_zero] at hlt
    omega
  | succ dates ih =>
    have hresolves : ∀ wall, ∃ c, resolveWallTime zone wall = .ok c := by
      intro wall
      obtain ⟨second, hok, -⟩ := resolveWallTime_eq hzone wall
      exact ⟨_, hok⟩
    obtain ⟨best, hbest, hfirst⟩ := bestOf_eq hresolves pivot forward pattern first
    rw [searchDates, hbest]
    cases best with
    | some b => exact ⟨some b, rfl, hfirst.fromDate hzone⟩
    | none =>
      push_cast at hcalendar
      obtain ⟨date, hdate, htoward, hroom⟩ := nextDate_eq (by omega) hcalendar
      rw [add_sub_cancel_right] at hroom
      obtain ⟨found, hfound, hspec⟩ := ih hroom
      refine ⟨found, ?_, ?_⟩
      · show (okOr (if forward = true then succOpt first else predOpt first) _ >>= _) = _
        rw [hdate]
        exact hfound
      · -- the first date has nothing beyond the pivot
        have hsame : ∀ other, toward forward first ≤ toward forward other →
            toward forward date ≤ toward forward other ∨ other = first := by
          intro other hle
          unfold toward at *
          cases forward <;> simp at * <;> omega
        cases found with
        | none =>
          intro other hle hlt x hx
          obtain hfurther | rfl := hsame other hle
          · exact hspec other hfurther (by push_cast at hlt; omega) x hx
          · exact hfirst x hx
        | some b =>
          obtain ⟨⟨on, hon, hb⟩, hpivot, hleast⟩ := hspec
          refine ⟨⟨on, by omega, hb⟩, hpivot, ?_⟩
          intro x hx hlt
          obtain ⟨other, hle, hx⟩ := hx
          obtain hfurther | rfl := hsame other hle
          · exact hleast x ⟨other, hfurther, hx⟩ hlt
          · exact absurd (hfirst x hx) (not_le.mpr hlt)

end Dates

/-! ### Occurrences of a pattern -/

/-- An instant that a matching wall time stands for. -/
def Cron.Fires (pattern : Cron) (zone : Zone) (instant : ℤ) : Prop :=
  ∃ wall second, pattern.Matches wall ∧ zone.Resolved wall second ∧
    instant = second * nanosPerSecond

section Fires

variable {pattern : Cron} {zone : Zone} {pivot wall second instant date : ℤ}

theorem fires_iff (hzone : Regular zone) :
    pattern.Fires zone instant ↔ ∃ date, OnDate pattern zone date instant := by
  constructor
  · rintro ⟨wall, second, hmatch, hresolved, rfl⟩
    obtain ⟨second', hok, hresolved'⟩ := resolveWallTime_eq hzone wall
    rw [hresolved.unique hresolved']
    exact ⟨_, wall, matches_iff.mp hmatch, hok⟩
  · rintro ⟨date, wall, hwall, hok⟩
    obtain ⟨second, rfl, hresolved⟩ := resolved_of_ok hzone hok
    have hmatch : pattern.Matches wall := by
      rw [matches_iff, dateOf_wallTime hwall]
      exact hwall
    exact ⟨wall, second, hmatch, hresolved, rfl⟩

/-- What an earlier date shows has passed. -/
theorem le_pivot_of_date_lt (pivot : ℤ) (hzone : Regular zone) (h : zone.Resolved wall second)
    (hlt : Zone.dateOf wall < localDate zone pivot) : second * nanosPerSecond ≤ pivot := by
  unfold localDate Zone.dateOf at hlt
  have hle := h.le_of_le_clock hzone.inOrder
    (show wall ≤ zone.clock (pivot / nanosPerSecond) by omega)
  unfold nanosPerSecond at *
  omega

/-- Three dates later is later, whatever the offsets. -/
theorem pivot_lt_of_date (pivot : ℤ) (h : zone.Resolved wall second)
    (hle : localDate zone pivot + 3 ≤ Zone.dateOf wall) : pivot < second * nanosPerSecond := by
  have hclock := h.le_clock
  have hbounds := zone.clock_bounds second
  have hpivot := zone.clock_bounds (pivot / nanosPerSecond)
  unfold localDate Zone.dateOf at hle
  unfold nanosPerSecond at *
  omega

/-- Three dates earlier is earlier. -/
theorem lt_pivot_of_date (pivot : ℤ) (hzone : Regular zone) (h : zone.Resolved wall second)
    (hle : Zone.dateOf wall + 3 ≤ localDate zone pivot) : second * nanosPerSecond < pivot := by
  have hpivot := zone.clock_bounds (pivot / nanosPerSecond)
  have hbefore := zone.clock_bounds (pivot / nanosPerSecond - 1)
  unfold localDate Zone.dateOf at hle
  have hle := h.le_of_le_clock hzone.inOrder
    (show wall ≤ zone.clock (pivot / nanosPerSecond - 1) by omega)
  unfold nanosPerSecond at *
  omega

/-- Where the clock was not set back, a later date has not begun. -/
theorem pivot_lt_of_date_lt (hback : zone.NotSetBack (pivot / nanosPerSecond))
    (h : zone.Resolved wall second) (hlt : localDate zone pivot < Zone.dateOf wall) :
    pivot < second * nanosPerSecond := by
  have hlater := hback.le_second h hlt
  unfold nanosPerSecond at *
  omega

theorem FirstBeyond.of_subset {forward : Bool} {instants others : ℤ → Prop} {b : ℤ}
    (h : FirstBeyond forward pivot instants (some b)) (hsub : ∀ x, instants x → others x)
    (hbeyond : ∀ x, others x → toward forward pivot < toward forward x → instants x) :
    FirstBeyond forward pivot others (some b) :=
  ⟨hsub b h.1, h.2.1, fun x hx hlt => h.2.2 x (hbeyond x hx hlt) hlt⟩

theorem search_forward (hzone : Regular zone) (hpattern : pattern.Recurs)
    (hcalendar : localDate zone pivot + 146098 ≤ maxDate) :
    ∃ found, searchDates pattern zone pivot true 146098 (localDate zone pivot) = .ok found ∧
      FirstBeyond true pivot (pattern.Fires zone) found := by
  obtain ⟨found, hfound, hspec⟩ := searchDates_eq pattern pivot true 146098 hzone hcalendar
  refine ⟨found, hfound, ?_⟩
  cases found with
  | some b =>
    refine FirstBeyond.of_subset hspec ?_ ?_
    · intro x hx
      obtain ⟨date, -, hx⟩ := hx
      exact (fires_iff hzone).mpr ⟨date, hx⟩
    · intro x hx hlt
      obtain ⟨date, wall, hwall, hok⟩ := (fires_iff hzone).mp hx
      obtain ⟨second, rfl, hresolved⟩ := resolved_of_ok hzone hok
      refine ⟨date, ?_, wall, hwall, hok⟩
      by_contra hearlier
      have hpassed := le_pivot_of_date_lt pivot hzone hresolved
        (by rw [dateOf_wallTime hwall]; exact not_le.mp hearlier)
      exact absurd hlt (not_lt.mpr hpassed)
  | none =>
    intro x hx
    obtain ⟨wall, second, hmatch, -, -⟩ := hx
    -- the pattern would match a date of the search that is after the pivot
    obtain ⟨date, hfirst, hlast, again, hagain⟩ :=
      hpattern.wallTime hmatch (localDate zone pivot + 3)
    obtain ⟨second', hok, hresolved⟩ := resolveWallTime_eq hzone again
    have hlater := pivot_lt_of_date pivot hresolved
      (by rw [dateOf_wallTime hagain]; exact hfirst)
    have hpassed := hspec date (show localDate zone pivot ≤ date by omega)
      (show date < localDate zone pivot + (146098 : ℕ) by omega) _ ⟨again, hagain, hok⟩
    exact absurd hpassed (not_le.mpr hlater)

theorem search_backward (hzone : Regular zone) (hpattern : pattern.Recurs)
    (hback : zone.NotSetBack (pivot / nanosPerSecond))
    (hcalendar : minDate ≤ localDate zone pivot - 146098) :
    ∃ found, searchDates pattern zone pivot false 146098 (localDate zone pivot) = .ok found ∧
      FirstBeyond false pivot (pattern.Fires zone) found := by
  obtain ⟨found, hfound, hspec⟩ := searchDates_eq pattern pivot false 146098 hzone hcalendar
  refine ⟨found, hfound, ?_⟩
  cases found with
  | some b =>
    refine FirstBeyond.of_subset hspec ?_ ?_
    · intro x hx
      obtain ⟨date, -, hx⟩ := hx
      exact (fires_iff hzone).mpr ⟨date, hx⟩
    · intro x hx hlt
      obtain ⟨date, wall, hwall, hok⟩ := (fires_iff hzone).mp hx
      obtain ⟨second, rfl, hresolved⟩ := resolved_of_ok hzone hok
      refine ⟨date, ?_, wall, hwall, hok⟩
      by_contra hlater
      have hahead := pivot_lt_of_date_lt hback hresolved
        (by rw [dateOf_wallTime hwall]; simp [toward] at hlater; omega)
      simp only [toward, Bool.false_eq_true, if_false, neg_lt_neg_iff] at hlt
      omega
  | none =>
    intro x hx
    obtain ⟨wall, second, hmatch, -, -⟩ := hx
    obtain ⟨date, hfirst, hlast, again, hagain⟩ :=
      hpattern.wallTime hmatch (localDate zone pivot - 146093)
    obtain ⟨second', hok, hresolved⟩ := resolveWallTime_eq hzone again
    have hearlier := lt_pivot_of_date pivot hzone hresolved
      (by rw [dateOf_wallTime hagain]; omega)
    have hahead := hspec date (by simp [toward]; omega) (by simp [toward]; omega) _
      ⟨again, hagain, hok⟩
    simp only [toward, Bool.false_eq_true, if_false, neg_le_neg_iff] at hahead
    omega

end Fires

end NyxId.TriggerSchedule
