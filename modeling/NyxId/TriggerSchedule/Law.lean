import Mathlib.Data.Int.Interval
import Mathlib.Order.Interval.Finset.Basic
import NyxId.TriggerSchedule.Intervals
import NyxId.TriggerSchedule.Missed

/-!
The queries of a schedule agree on its occurrences. In whole milliseconds and within the calendar,
the next one is the least after an instant, the latest one is the greatest up to it, and the missed
ones of a range are counted one by one.
-/

namespace NyxId.TriggerSchedule

open WallClock

section Definitions

variable (parseZone : String → Option Zone) (parseCron : String → Option Cron)

def Fires (timing : ScheduleKind) (instant : ℤ) : Prop :=
  match timing with
  | .cron expression zone => ∃ pattern place, parseCron expression = some pattern ∧
      parseZone zone = some place ∧ pattern.Fires place instant
  | .every amount unit anchor => EveryFires amount unit anchor instant
  | .at_ only => instant = only

def occurrences (spec : ScheduleSpec) : Set ℤ :=
  {t | Fires parseZone parseCron spec.timing t ∧ (∀ start ∈ spec.start, start ≤ t) ∧
    ∀ end_ ∈ spec.end_, t ≤ end_}

/-- The least instant after another, if there is one. -/
def LeastAfter (instants : Set ℤ) (t : ℤ) (found : Option ℤ) : Prop :=
  found.elim (∀ x ∈ instants, x ≤ t) (IsLeast {x | x ∈ instants ∧ t < x})

/-- The greatest instant up to another, if there is one. -/
def GreatestUpTo (instants : Set ℤ) (t : ℤ) (found : Option ℤ) : Prop :=
  found.elim (∀ x ∈ instants, t < x) (IsGreatest {x | x ∈ instants ∧ x ≤ t})

def PlainTiming : ScheduleKind → Prop
  | .cron _ _ => True
  | .every _ _ anchor => Millis anchor ∧ Inside anchor
  | .at_ only => Millis only

/-- The instants of a specification, as stored: whole milliseconds within the calendar. -/
structure Plain (spec : ScheduleSpec) : Prop where
  start : ∀ start ∈ spec.start, Millis start ∧ Inside start
  end_ : ∀ end_ ∈ spec.end_, Millis end_ ∧ Inside end_
  timing : PlainTiming spec.timing

/-- The zone of a calendar pattern has a property. -/
def OfZone (property : Zone → Prop) (spec : ScheduleSpec) : Prop :=
  ∀ expression zone place, spec.timing = .cron expression zone → parseZone zone = some place →
    property place

/-- Where the search for the next occurrence begins. -/
def nextPivot (spec : ScheduleSpec) (after : ℤ) : ℤ :=
  spec.start.elim after fun start => max after (start - nanosPerMilli)

/-- Where the search for the latest occurrence begins. -/
def latestPivot (spec : ScheduleSpec) (now : ℤ) : ℤ :=
  spec.end_.elim now (fun end_ => min now end_) + nanosPerMilli

/-- What an accepted timing is made of. -/
def AcceptedTiming : ScheduleKind → Prop
  | .cron expression zone => ∃ pattern place, cron parseCron expression = .ok pattern ∧
      timezone parseZone zone = .ok place
  | .every amount unit _ => 0 < intervalSeconds amount unit
  | .at_ _ => True

/-- A range begins with a wall time of the date that the clock shows then. -/
def OnOwnDate (spec : ScheduleSpec) (instant : ℤ) : Prop :=
  ∀ expression zone pattern place, spec.timing = .cron expression zone →
    parseCron expression = some pattern → parseZone zone = some place →
    OnDate pattern place (localDate place instant) instant

/-- The occurrences of a range; of an interval, those whose step has ended. -/
def missed (spec : ScheduleSpec) (from_ until_ : ℤ) : Set ℤ :=
  {x | x ∈ occurrences parseZone parseCron spec ∧ from_ ≤ x ∧
    match spec.timing with
    | .every amount unit _ => x + stepNanos amount unit ≤ until_
    | _ => x < until_}

/-- Query after query for the next occurrence. -/
def visits (spec : ScheduleSpec) : ℕ → ℤ → Except AppError (List ℤ)
  | 0, _ => .ok []
  | n + 1, t => do
    match ← next parseZone parseCron spec t with
    | some x => return x :: (← visits spec n x)
    | none => return []

/-- The queries of a schedule agree on its occurrences. -/
structure Agree (spec : ScheduleSpec) : Prop where
  next : ∀ t, Millis t → Inside t → ∃ found,
    TriggerSchedule.next parseZone parseCron spec t = .ok found ∧
      LeastAfter (occurrences parseZone parseCron spec) t found
  latest : ∀ t, Millis t → Inside t →
    OfZone parseZone (fun place => place.NotSetBack (latestPivot spec t / nanosPerSecond)) spec →
    ∃ found, TriggerSchedule.latest parseZone parseCron spec t = .ok found ∧
      GreatestUpTo (occurrences parseZone parseCron spec) t found
  missed : ∀ from_ until_, from_ ≤ until_ → Inside until_ →
    from_ ∈ occurrences parseZone parseCron spec →
    (∀ x, from_ ≤ x → x < until_ → ∀ end_ ∈ spec.end_, x ≤ end_) →
    OnOwnDate parseZone parseCron spec from_ →
    OfZone parseZone (fun place => place.NotSetBack (until_ / nanosPerSecond)) spec →
    missedCount parseZone parseCron spec from_ until_ =
      .ok (TriggerSchedule.missed parseZone parseCron spec from_ until_).ncard
  wholeSteps : ∀ from_ until_, from_ ∈ occurrences parseZone parseCron spec →
    (∀ amount unit anchor, spec.timing = .every amount unit anchor →
      stepNanos amount unit ∣ until_ - from_) →
    TriggerSchedule.missed parseZone parseCron spec from_ until_ =
      {x | x ∈ occurrences parseZone parseCron spec ∧ from_ ≤ x ∧ x < until_}
  onward : ∀ t x, Millis t → Inside t → Inside x →
    OfZone parseZone (fun place => place.NotSetBack (latestPivot spec t / nanosPerSecond)) spec →
    TriggerSchedule.latest parseZone parseCron spec t = .ok (some x) →
    ∃ found, TriggerSchedule.next parseZone parseCron spec x = .ok found ∧ ∀ y ∈ found, t < y
  visited : ∀ t until_, Millis t → Inside t → Inside until_ → ∃ n times,
    visits parseZone parseCron spec n t = .ok times ∧ times.Pairwise (· < ·) ∧
      ∀ x, x ∈ times ↔ x ∈ occurrences parseZone parseCron spec ∧ t < x ∧ x ≤ until_

end Definitions

section Law

variable {parseZone : String → Option Zone} {parseCron : String → Option Cron}
  {spec : ScheduleSpec} {minimum t from_ until_ pivot : ℤ}

theorem cron_eq {expression : String} {pattern : Cron}
    (h : cron parseCron expression = .ok pattern) : parseCron expression = some pattern := by
  unfold cron at h
  split at h
  · cases h
  · exact okOr_eq_ok.mp h

theorem validateTiming_ok {timing : ScheduleKind}
    (h : validateTiming parseZone parseCron minimum timing = .ok ()) :
    AcceptedTiming parseZone parseCron timing := by
  cases timing with
  | cron expression zone =>
    obtain ⟨place, hplace, hrest⟩ := bind_eq_ok.mp h
    obtain ⟨pattern, hpattern, -⟩ := bind_eq_ok.mp hrest
    exact ⟨pattern, place, hpattern, hplace⟩
  | every amount unit anchor =>
    by_cases hrefused : amount = 0 ∨ intervalSeconds amount unit < minimum
    · rw [validateTiming, if_pos hrefused] at h
      cases h
    · have hamount : 0 < amount.toNat := by
        by_contra hle
        have hzero : amount.toNat = 0 := by omega
        exact hrefused (.inl (UInt32.toNat_inj.mp hzero))
      show 0 < intervalSeconds amount unit
      unfold intervalSeconds
      cases unit <;> simp only <;> omega
  | at_ only => exact trivial

theorem localDate_bounds (zone : Zone) (pivot : ℤ) (h : (minDate + 146100) * nanosPerDay ≤ pivot)
    (h' : pivot < (maxDate - 146099) * nanosPerDay) :
    minDate ≤ localDate zone pivot - 146098 ∧ localDate zone pivot + 146098 ≤ maxDate := by
  have hclock := zone.clock_bounds (pivot / nanosPerSecond)
  unfold localDate Zone.dateOf
  unfold nanosPerDay nanosPerSecond minDate maxDate at *
  omega

/-- An occurrence is at a whole millisecond. -/
theorem fires_millis (hplain : Plain spec) (h : Fires parseZone parseCron spec.timing t) :
    Millis t := by
  have htiming := hplain.timing
  unfold Fires at h
  split at h
  · obtain ⟨-, -, -, -, -, second, -, -, rfl⟩ := h
    exact Dvd.intro_left (second * 1000) (by unfold nanosPerMilli nanosPerSecond; ring)
  · next amount unit anchor heq =>
    simp only [heq] at htiming
    obtain ⟨-, k, rfl⟩ := h
    refine Int.dvd_add htiming.1 (Dvd.intro_left (k * intervalSeconds amount unit * 1000) ?_)
    unfold stepNanos nanosPerMilli nanosPerSecond
    ring
  · next only heq =>
    simp only [heq] at htiming
    rw [h]
    exact htiming

theorem raw_at {only : ℤ} {forward : Bool} :
    FirstBeyond forward pivot (fun x => x = only)
      (if (forward ∧ pivot < only) ∨ (¬ forward ∧ only < pivot) then some only else none) := by
  by_cases hbeyond : (forward ∧ pivot < only) ∨ (¬ forward ∧ only < pivot)
  · rw [if_pos hbeyond]
    refine ⟨rfl, ?_, ?_⟩
    · unfold toward
      cases forward <;> simp at hbeyond ⊢ <;> exact hbeyond
    · intro x hx _
      rw [hx]
  · rw [if_neg hbeyond]
    intro x hx
    rw [hx]
    unfold toward
    cases forward <;> simp at hbeyond ⊢ <;> exact hbeyond

theorem nextPivot_lt_iff (hplain : Plain spec) {x : ℤ} (hx : Millis x) :
    nextPivot spec t < x ↔ t < x ∧ ∀ start ∈ spec.start, start ≤ x := by
  unfold nextPivot
  cases hstart : spec.start with
  | none => simp
  | some start =>
    have hmillis := (hplain.start start hstart).1
    unfold Millis nanosPerMilli at *
    simp only [Option.elim_some, Option.mem_some_iff, forall_eq']
    omega

theorem lt_latestPivot_iff (hplain : Plain spec) {x : ℤ} (hx : Millis x) (ht : Millis t) :
    x < latestPivot spec t ↔ x ≤ t ∧ ∀ end_ ∈ spec.end_, x ≤ end_ := by
  unfold latestPivot
  cases hend : spec.end_ with
  | none =>
    unfold Millis nanosPerMilli at *
    simp only [Option.elim_none, Option.not_mem_none, false_implies, implies_true, and_true]
    omega
  | some end_ =>
    have hmillis := (hplain.end_ end_ hend).1
    unfold Millis nanosPerMilli at *
    simp only [Option.elim_some, Option.mem_some_iff, forall_eq']
    omega

/-- The pivots are whole milliseconds within the calendar. -/
theorem nextPivot_bounds (hplain : Plain spec) (ht : Millis t) (hinside : Inside t) :
    Millis (nextPivot spec t) ∧ (minDate + 146100) * nanosPerDay ≤ nextPivot spec t ∧
      nextPivot spec t < (maxDate - 146099) * nanosPerDay := by
  unfold nextPivot
  cases hstart : spec.start with
  | none =>
    unfold Inside nanosPerDay nanosPerSecond at *
    simp only [Option.elim_none]
    exact ⟨ht, by omega⟩
  | some start =>
    obtain ⟨hmillis, hplaced⟩ := hplain.start start hstart
    unfold Millis Inside nanosPerMilli nanosPerDay nanosPerSecond at *
    simp only [Option.elim_some]
    omega

theorem latestPivot_bounds (hplain : Plain spec) (ht : Millis t) (hinside : Inside t) :
    Millis (latestPivot spec t) ∧ (minDate + 146100) * nanosPerDay ≤ latestPivot spec t ∧
      latestPivot spec t < (maxDate - 146099) * nanosPerDay := by
  unfold latestPivot
  cases hend : spec.end_ with
  | none =>
    unfold Millis Inside nanosPerMilli nanosPerDay nanosPerSecond at *
    simp only [Option.elim_none]
    omega
  | some end_ =>
    obtain ⟨hmillis, hplaced⟩ := hplain.end_ end_ hend
    unfold Millis Inside nanosPerMilli nanosPerDay nanosPerSecond at *
    simp only [Option.elim_some]
    omega

theorem all_iff {limit : Option ℤ} {p : ℤ → Prop} [DecidablePred p] :
    (limit.all fun x => p x) = true ↔ ∀ x ∈ limit, p x := by
  cases limit <;> simp

/-- A range of the schedule that begins with an occurrence keeps all that fires in it. -/
theorem mem_occurrences_iff (hfrom : from_ ∈ occurrences parseZone parseCron spec)
    (hwithin : ∀ x, from_ ≤ x → x < until_ → ∀ end_ ∈ spec.end_, x ≤ end_) {x : ℤ}
    (hle : from_ ≤ x) (hlt : x < until_) :
    x ∈ occurrences parseZone parseCron spec ↔ Fires parseZone parseCron spec.timing x :=
  ⟨fun hx => hx.1, fun hx => ⟨hx, fun start hstart => (hfrom.2.1 start hstart).trans hle,
    hwithin x hle hlt⟩⟩

/-- The missed occurrences of a kind of schedule. -/
theorem missed_eq (ends : ℤ → Prop) (hfrom : from_ ∈ occurrences parseZone parseCron spec)
    (hwithin : ∀ x, from_ ≤ x → x < until_ → ∀ end_ ∈ spec.end_, x ≤ end_)
    (hends : ∀ x, ends x → x < until_)
    (hkind : ∀ x, ends x ↔ match spec.timing with
      | .every amount unit _ => x + stepNanos amount unit ≤ until_
      | _ => x < until_) :
    missed parseZone parseCron spec from_ until_ =
      {x | Fires parseZone parseCron spec.timing x ∧ from_ ≤ x ∧ ends x} := by
  ext x
  unfold missed
  simp only [Set.mem_ofPred_eq, ← hkind]
  constructor
  · intro hx
    exact ⟨hx.1.1, hx.2⟩
  · intro hx
    exact ⟨(mem_occurrences_iff hfrom hwithin hx.2.1 (hends x hx.2.2)).mpr hx.1, hx.2⟩

/-- Of an interval, what is missed between two occurrences is all that lies between them. -/
theorem missed_wholeSteps (hvalid : validate parseZone parseCron spec minimum = .ok ())
    (hfrom : from_ ∈ occurrences parseZone parseCron spec)
    (hsteps : ∀ amount unit anchor, spec.timing = .every amount unit anchor →
      stepNanos amount unit ∣ until_ - from_) :
    missed parseZone parseCron spec from_ until_ =
      {x | x ∈ occurrences parseZone parseCron spec ∧ from_ ≤ x ∧ x < until_} := by
  obtain ⟨⟨⟩, htiming, -⟩ := bind_eq_ok.mp hvalid
  have haccepted := validateTiming_ok htiming
  ext x
  unfold missed
  simp only [Set.mem_ofPred_eq]
  refine and_congr_right fun hx => and_congr_right fun _ => ?_
  have hfires := hfrom.1
  have hfiresx := hx.1
  cases hkind : spec.timing with
  | cron expression zone => exact Iff.rfl
  | at_ only => exact Iff.rfl
  | every amount unit anchor =>
    rw [hkind] at haccepted hfires hfiresx
    have hpos : 0 < stepNanos amount unit := mul_pos haccepted (by decide)
    obtain ⟨steps, hsteps⟩ := hsteps amount unit anchor hkind
    obtain ⟨-, start, hstart⟩ := hfires
    obtain ⟨-, k, hk⟩ := hfiresx
    refine ⟨fun h => by omega, fun h => ?_⟩
    have huntil : until_ = anchor + (start + steps) * stepNanos amount unit := by
      rw [mul_comm] at hsteps
      rw [add_mul]
      omega
    rw [hk, huntil] at h ⊢
    have hless : (k : ℤ) < start + steps := lt_of_mul_lt_mul_right (by omega) hpos.le
    have hmul := mul_le_mul_of_nonneg_right (show (k : ℤ) + 1 ≤ start + steps by omega) hpos.le
    rw [add_mul (k : ℤ), one_mul] at hmul
    omega

section Raw

variable (hvalid : validate parseZone parseCron spec minimum = .ok ()) (hplain : Plain spec)
  (hzones : OfZone parseZone Regular spec)
  (hpatterns : ∀ expression pattern, parseCron expression = some pattern → pattern.Recurs)

include hvalid hplain hzones hpatterns

/-- One direction of the search, on every kind of schedule. -/
theorem raw_eq (forward : Bool) (hpivot : Millis pivot)
    (hlow : (minDate + 146100) * nanosPerDay ≤ pivot)
    (hhigh : pivot < (maxDate - 146099) * nanosPerDay)
    (hback : forward = false →
      OfZone parseZone (fun place => place.NotSetBack (pivot / nanosPerSecond)) spec) :
    ∃ found, raw parseZone parseCron spec pivot forward = .ok found ∧
      FirstBeyond forward pivot (Fires parseZone parseCron spec.timing) found := by
  obtain ⟨⟨⟩, htiming, -⟩ := bind_eq_ok.mp hvalid
  have haccepted := validateTiming_ok htiming
  have hstored := hplain.timing
  have hcalendar : minDate * nanosPerDay ≤ pivot ∧ pivot < (maxDate + 1) * nanosPerDay := by
    unfold nanosPerDay nanosPerSecond at *
    omega
  unfold raw Fires
  cases hkind : spec.timing with
  | cron expression zone =>
    rw [hkind] at haccepted
    obtain ⟨pattern, place, hpattern, hplace⟩ := haccepted
    have hparsed := cron_eq hpattern
    have hlocated := okOr_eq_ok.mp hplace
    have hregular := hzones expression zone place hkind hlocated
    have hrecurs := hpatterns expression pattern hparsed
    have hdates := localDate_bounds place pivot hlow hhigh
    have hfires : ∀ x, pattern.Fires place x ↔ ∃ p q, parseCron expression = some p ∧
        parseZone zone = some q ∧ p.Fires q x := by
      intro x
      rw [hparsed, hlocated]
      simp
    have hsearch : ∃ found,
        searchDates pattern place pivot forward 146098 (localDate place pivot) = .ok found ∧
          FirstBeyond forward pivot (pattern.Fires place) found := by
      cases forward with
      | true => exact search_forward hregular hrecurs hdates.2
      | false =>
        exact search_backward hregular hrecurs (hback rfl expression zone place hkind hlocated)
          hdates.1
    obtain ⟨found, hfound, hfirst⟩ := hsearch
    refine ⟨found, ?_, hfirst.congr hfires⟩
    simp only [cronOccurrence]
    rw [hpattern, hplace]
    exact hfound
  | every amount unit anchor =>
    rw [hkind] at haccepted hstored
    cases forward with
    | true => exact everyOccurrence_forward haccepted hstored.1 hpivot hstored.2 hcalendar
    | false => exact everyOccurrence_backward haccepted hstored.1 hpivot hstored.2 hcalendar
  | at_ only => exact ⟨_, rfl, raw_at⟩

theorem next_eq (ht : Millis t) (hinside : Inside t) :
    ∃ found, next parseZone parseCron spec t = .ok found ∧
      LeastAfter (occurrences parseZone parseCron spec) t found := by
  obtain ⟨hmillis, hlow, hhigh⟩ := nextPivot_bounds hplain ht hinside
  obtain ⟨found, hfound, hfirst⟩ := raw_eq hvalid hplain hzones hpatterns true
    hmillis hlow hhigh (by simp)
  refine ⟨found.filter fun v => spec.end_.all fun end_ => v ≤ end_, ?_, ?_⟩
  · show (raw parseZone parseCron spec (nextPivot spec t) true >>= _) = _
    rw [hfound]
    rfl
  have hbeyond : ∀ x ∈ occurrences parseZone parseCron spec, t < x → nextPivot spec t < x :=
    fun x hx hlt => (nextPivot_lt_iff hplain (fires_millis hplain hx.1)).mpr ⟨hlt, hx.2.1⟩
  cases found with
  | none =>
    intro x hx
    by_contra hlt
    exact absurd (hfirst x hx.1) (not_le.mpr (hbeyond x hx (not_le.mp hlt)))
  | some b =>
    obtain ⟨hb, hpivot, hleast⟩ := hfirst
    obtain ⟨hlt, hstarted⟩ := (nextPivot_lt_iff hplain (fires_millis hplain hb)).mp hpivot
    by_cases hended : ∀ end_ ∈ spec.end_, b ≤ end_
    · rw [Option.filter_some, if_pos (all_iff.mpr hended)]
      exact ⟨⟨⟨hb, hstarted, hended⟩, hlt⟩, fun x hx => hleast x hx.1.1 (hbeyond x hx.1 hx.2)⟩
    · rw [Option.filter_some, if_neg (fun h => hended (all_iff.mp h))]
      intro x hx
      by_contra hafter
      have hle : b ≤ x := hleast x hx.1 (hbeyond x hx (not_le.mp hafter))
      exact hended fun end_ hend => hle.trans (hx.2.2 end_ hend)

theorem latest_eq (ht : Millis t) (hinside : Inside t)
    (hback : OfZone parseZone
      (fun place => place.NotSetBack (latestPivot spec t / nanosPerSecond)) spec) :
    ∃ found, latest parseZone parseCron spec t = .ok found ∧
      GreatestUpTo (occurrences parseZone parseCron spec) t found := by
  obtain ⟨hmillis, hlow, hhigh⟩ := latestPivot_bounds hplain ht hinside
  obtain ⟨found, hfound, hfirst⟩ := raw_eq hvalid hplain hzones hpatterns false
    hmillis hlow hhigh fun _ => hback
  refine ⟨found.filter fun v => spec.start.all fun start => start ≤ v, ?_, ?_⟩
  · show (raw parseZone parseCron spec (latestPivot spec t) false >>= _) = _
    rw [hfound]
    rfl
  have hbeyond : ∀ x ∈ occurrences parseZone parseCron spec, x ≤ t → x < latestPivot spec t :=
    fun x hx hle => (lt_latestPivot_iff hplain (fires_millis hplain hx.1) ht).mpr ⟨hle, hx.2.2⟩
  unfold FirstBeyond toward at hfirst
  simp only [Bool.false_eq_true, if_false, neg_le_neg_iff, neg_lt_neg_iff] at hfirst
  cases found with
  | none =>
    intro x hx
    by_contra hle
    exact absurd (hfirst x hx.1) (not_le.mpr (hbeyond x hx (not_lt.mp hle)))
  | some b =>
    obtain ⟨hb, hpivot, hgreatest⟩ := hfirst
    obtain ⟨hle, hended⟩ := (lt_latestPivot_iff hplain (fires_millis hplain hb) ht).mp hpivot
    by_cases hstarted : ∀ start ∈ spec.start, start ≤ b
    · rw [Option.filter_some, if_pos (all_iff.mpr hstarted)]
      exact ⟨⟨⟨hb, hstarted, hended⟩, hle⟩, fun x hx => hgreatest x hx.1.1 (hbeyond x hx.1 hx.2)⟩
    · rw [Option.filter_some, if_neg (fun h => hstarted (all_iff.mp h))]
      intro x hx
      by_contra hbefore
      have hback : x ≤ b := hgreatest x hx.1 (hbeyond x hx (not_lt.mp hbefore))
      exact hstarted fun start hstart => (hx.2.1 start hstart).trans hback

omit hplain hpatterns in
theorem missedCount_eq (hle : from_ ≤ until_) (hinside : Inside until_)
    (hfrom : from_ ∈ occurrences parseZone parseCron spec)
    (hwithin : ∀ x, from_ ≤ x → x < until_ → ∀ end_ ∈ spec.end_, x ≤ end_)
    (hown : OnOwnDate parseZone parseCron spec from_)
    (hback : OfZone parseZone (fun place => place.NotSetBack (until_ / nanosPerSecond)) spec) :
    missedCount parseZone parseCron spec from_ until_ =
      .ok (missed parseZone parseCron spec from_ until_).ncard := by
  obtain ⟨⟨⟩, htiming, -⟩ := bind_eq_ok.mp hvalid
  have haccepted := validateTiming_ok htiming
  have hfires := hfrom.1
  unfold missedCount
  cases hkind : spec.timing with
  | every amount unit anchor =>
    rw [hkind] at haccepted hfires
    have hstep : 0 < stepNanos amount unit := mul_pos haccepted (by decide)
    have hset := missed_eq (fun x => x + stepNanos amount unit ≤ until_) hfrom hwithin
      (fun x hx => by omega) (fun x => by simp only [hkind])
    have hcalendar : until_ < (maxDate + 1) * nanosPerDay := by
      have hhigh := hinside.2
      unfold nanosPerDay nanosPerSecond at *
      omega
    have hcount := ncard_steps haccepted hfires hcalendar
    rw [hset, hkind]
    show _ = Except.ok (Set.ncard {x | EveryFires amount unit anchor x ∧ _})
    rw [← hcount]
    by_cases hempty : until_ ≤ from_
    · rw [if_pos hempty, le_antisymm hempty hle]
      simp
    · rw [if_neg hempty]
  | at_ only =>
    simp only [hkind] at hfires ⊢
    have hset := missed_eq (fun x => x < until_) hfrom hwithin (fun x hx => hx)
      (fun x => by simp only [hkind])
    rw [hset, hkind]
    have honly : from_ = only := hfires
    by_cases hempty : until_ ≤ from_
    · have hnone : {x | Fires parseZone parseCron (.at_ only) x ∧ from_ ≤ x ∧ x < until_} = ∅ := by
        ext x
        simp only [Set.mem_ofPred_eq, Set.mem_empty_iff_false, iff_false]
        omega
      rw [if_pos hempty, hnone, Set.ncard_empty]
    · have hone : {x | Fires parseZone parseCron (.at_ only) x ∧ from_ ≤ x ∧ x < until_} =
          {only} := by
        ext x
        simp only [Set.mem_ofPred_eq, Set.mem_singleton_iff, Fires]
        omega
      rw [if_neg hempty, hone, Set.ncard_singleton]
  | cron expression zone =>
    rw [hkind] at haccepted hfires
    obtain ⟨pattern, place, hpattern, hplace⟩ := haccepted
    have hparsed := cron_eq hpattern
    have hlocated := okOr_eq_ok.mp hplace
    have hset := missed_eq (fun x => x < until_) hfrom hwithin (fun x hx => hx)
      (fun x => by simp only [hkind])
    have hsame : {x | Fires parseZone parseCron (.cron expression zone) x ∧ from_ ≤ x ∧
        x < until_} = {x | pattern.Fires place x ∧ InRange from_ until_ x} := by
      ext x
      simp [Fires, InRange, hparsed, hlocated]
    rw [hset, hkind, hsame]
    by_cases hempty : until_ ≤ from_
    · have hnone : {x | pattern.Fires place x ∧ InRange from_ until_ x} = ∅ := by
        ext x
        simp only [Set.mem_ofPred_eq, Set.mem_empty_iff_false, iff_false, InRange]
        omega
      rw [if_pos hempty, hnone, Set.ncard_empty]
    · have hdates := (localDate_bounds place until_ hinside.1 (by
        have hhigh := hinside.2
        unfold nanosPerDay nanosPerSecond at *
        omega)).2
      obtain ⟨last, hcount⟩ := countDates_eq (hzones expression zone place hkind hlocated)
        (hown expression zone pattern place hkind hparsed hlocated) (not_le.mp hempty)
        (hback expression zone place hkind hlocated) (by omega)
      rw [if_neg hempty]
      show (cron parseCron expression >>= _) = _
      rw [hpattern]
      show (timezone parseZone zone >>= _) = _
      rw [hplace]
      show (countDates pattern place from_ until_ _ (localDate place from_) (0, none) >>= _) = _
      rw [hcount]
      rfl

theorem latest_then_next {x : ℤ} (ht : Millis t) (hinside : Inside t) (hplaced : Inside x)
    (hback : OfZone parseZone
      (fun place => place.NotSetBack (latestPivot spec t / nanosPerSecond)) spec)
    (h : latest parseZone parseCron spec t = .ok (some x)) :
    ∃ found, next parseZone parseCron spec x = .ok found ∧ ∀ y ∈ found, t < y := by
  obtain ⟨found, hfound, hgreatest⟩ := latest_eq hvalid hplain hzones hpatterns ht hinside hback
  rw [← Except.ok.inj (h.symm.trans hfound)] at hgreatest
  obtain ⟨⟨hx, -⟩, hupper⟩ := hgreatest
  obtain ⟨next, hnext, hleast⟩ :=
    next_eq hvalid hplain hzones hpatterns (fires_millis hplain hx.1) hplaced
  refine ⟨next, hnext, ?_⟩
  intro y hy
  rw [Option.mem_def.mp hy] at hleast
  obtain ⟨⟨hoccurs, hlt⟩, -⟩ := hleast
  by_contra hle
  exact absurd (hupper ⟨hoccurs, not_lt.mp hle⟩) (not_le.mpr hlt)

/-- The occurrences after an instant are visited one by one, in order. -/
theorem visits_eq (ht : Millis t) (hinside : Inside t) (huntil : Inside until_) :
    ∃ n times, visits parseZone parseCron spec n t = .ok times ∧ times.Pairwise (· < ·) ∧
      ∀ x, x ∈ times ↔ x ∈ occurrences parseZone parseCron spec ∧ t < x ∧ x ≤ until_ := by
  induction hsize : (until_ - t).toNat using Nat.strong_induction_on generalizing t with
  | _ size ih =>
    obtain ⟨found, hfound, hleast⟩ := next_eq hvalid hplain hzones hpatterns ht hinside
    by_cases hmore : ∃ b ∈ found, b ≤ until_
    · obtain ⟨b, hb, hle⟩ := hmore
      rw [Option.mem_def.mp hb] at hfound hleast
      obtain ⟨⟨hoccurs, hlt⟩, hlower⟩ := hleast
      have hplaced : Inside b := ⟨hinside.1.trans hlt.le, hle.trans_lt huntil.2⟩
      obtain ⟨n, times, hvisits, hsorted, hmem⟩ :=
        ih (until_ - b).toNat (by omega) (fires_millis hplain hoccurs.1) hplaced rfl
      refine ⟨n + 1, b :: times, ?_, ?_, ?_⟩
      · rw [visits, hfound]
        show (visits parseZone parseCron spec n b >>= _) = _
        rw [hvisits]
        rfl
      · exact List.pairwise_cons.mpr ⟨fun x hx => ((hmem x).mp hx).2.1, hsorted⟩
      · intro x
        rw [List.mem_cons, hmem]
        constructor
        · rintro (rfl | ⟨hx, hafter, hbefore⟩)
          · exact ⟨hoccurs, hlt, hle⟩
          · exact ⟨hx, hlt.trans hafter, hbefore⟩
        · rintro ⟨hx, hafter, hbefore⟩
          have hfirst : b ≤ x := hlower ⟨hx, hafter⟩
          by_cases hsame : x = b
          · exact .inl hsame
          · exact .inr ⟨hx, by omega, hbefore⟩
    · refine ⟨0, [], rfl, .nil, ?_⟩
      intro x
      simp only [List.not_mem_nil, false_iff]
      rintro ⟨hx, hafter, hbefore⟩
      cases found with
      | none => exact absurd (hleast x hx) (not_le.mpr hafter)
      | some b => exact hmore ⟨b, rfl, (hleast.2 ⟨hx, hafter⟩).trans hbefore⟩

end Raw

/-- Every accepted specification, as stored, whose zone is regular. -/
theorem schedule_queries_agree (parseZone : String → Option Zone)
    (parseCron : String → Option Cron) (spec : ScheduleSpec) (minimum : ℤ)
    (hpatterns : ∀ expression pattern, parseCron expression = some pattern → pattern.Recurs)
    (hvalid : validate parseZone parseCron spec minimum = .ok ()) (hplain : Plain spec)
    (hzones : OfZone parseZone Regular spec) : Agree parseZone parseCron spec where
  next _ ht hinside := next_eq hvalid hplain hzones hpatterns ht hinside
  latest _ ht hinside hback := latest_eq hvalid hplain hzones hpatterns ht hinside hback
  missed _ _ hle hinside hfrom hwithin hown hback :=
    missedCount_eq hvalid hzones hle hinside hfrom hwithin hown hback
  wholeSteps _ _ hfrom hsteps := missed_wholeSteps hvalid hfrom hsteps
  onward _ _ ht hinside hplaced hback h :=
    latest_then_next hvalid hplain hzones hpatterns ht hinside hplaced hback h
  visited _ _ ht hinside huntil := visits_eq hvalid hplain hzones hpatterns ht hinside huntil

end Law

/-! ### Concrete zones and patterns -/

/-- A pattern of one minute of every day. -/
def daily (hour minute : ℕ) : Cron where
  monthMatch _ := some true
  dayMatch _ _ _ _ := some true
  hourMatch h := some (h = hour)
  minuteMatch m := some (m = minute)

theorem daily_recurs (hour minute : ℕ) : (daily hour minute).Recurs :=
  fun _ _ first => ⟨first, le_rfl, by omega, rfl⟩

/-- From a local mean time to four hours ahead, at the beginning of 1920. -/
def dubai : Zone := .changing 13272 [(-1577936472, 14400)] (by decide)

theorem dubai_clock (second : ℤ) :
    dubai.clock second = second + if -1577936472 ≤ second then 14400 else 13272 := rfl

theorem dubai_skips {wall : ℤ} (h : dubai.earliest wall = none) :
    -1577923200 ≤ wall ∧ wall < -1577922072 := by
  rw [Zone.earliest_eq_none] at h
  have hbefore := h (wall - 13272)
  have hafter := h (wall - 14400)
  rw [dubai_clock] at hbefore hafter
  split at hbefore <;> split at hafter <;> omega

theorem dubai_regular : Regular dubai where
  inOrder := by
    intro before after hlt hback
    rw [dubai_clock, dubai_clock] at hback
    split at hback <;> split at hback <;> omega
  gaps := by
    intro wall hwall
    obtain ⟨hfrom, hto⟩ := dubai_skips hwall
    refine ⟨-1577922072 - wall, by omega, by omega, ?_, ?_⟩
    · intro x hx hlt
      rw [Zone.earliest_eq_none]
      intro second
      rw [dubai_clock]
      split <;> omega
    · intro x hx _ hnone
      have hskipped := dubai_skips hnone
      omega

/-- A clock that skips a date. -/
def skippedDate : Zone := .changing (-36000) [(122400, 50400)] (by decide)

theorem skippedDate_resolved : skippedDate.Resolved 118800 122400 := by
  refine ⟨172800, by omega, ?_, rfl⟩
  intro x hx hlt
  rw [Zone.earliest_eq_none]
  intro second
  show second + (if 122400 ≤ second then 50400 else -36000) ≠ x
  split <;> omega

def zoneOf : String → Option Zone
  | "UTC" => some (.changing 0 [] (by decide))
  | "Asia/Dubai" => some dubai
  | "over midnight" => some (.changing (-9000) [(95460, -12600)] (by decide))
  | "into a gap" => some (.changing 0 [(84600, 3600), (85500, 0)] (by decide))
  | "forty hours" => some (.changing (-72000) [(0, 72000)] (by decide))
  | "a date" => some skippedDate
  | _ => none

def patternOf : String → Option Cron
  | "0 0 * * *" => some (daily 0 0)
  | "0 4 * * *" => some (daily 4 0)
  | "0 9 * * *" => some (daily 9 0)
  | "50 23 * * *" => some (daily 23 50)
  | _ => none

def unlimited (timing : ScheduleKind) : ScheduleSpec := ⟨timing, none, none, none, none⟩

theorem patternOf_recurs (expression : String) (pattern : Cron)
    (h : patternOf expression = some pattern) : pattern.Recurs := by
  unfold patternOf at h
  split at h <;> cases h <;> exact daily_recurs _ _

theorem dubai_agrees : Agree zoneOf patternOf (unlimited (.cron "0 0 * * *" "Asia/Dubai")) := by
  refine schedule_queries_agree _ _ _ 5 patternOf_recurs rfl ⟨?_, ?_, trivial⟩ ?_
  · simp [unlimited]
  · simp [unlimited]
  · intro expression zone place hkind hplace
    cases hkind
    cases hplace
    exact dubai_regular

/-! ### Limits of the queries -/

section Limits

def NextAnswers (spec : ScheduleSpec) : Prop :=
  ∀ t, Millis t → ∃ found, next zoneOf patternOf spec t = .ok found ∧
    LeastAfter (occurrences zoneOf patternOf spec) t found

def LatestAnswers (spec : ScheduleSpec) : Prop :=
  ∀ t, Millis t → ∃ found, latest zoneOf patternOf spec t = .ok found ∧
    GreatestUpTo (occurrences zoneOf patternOf spec) t found

def MissedAnswers (spec : ScheduleSpec) : Prop :=
  ∀ from_ until_, from_ ≤ until_ → from_ ∈ occurrences zoneOf patternOf spec →
    missedCount zoneOf patternOf spec from_ until_ =
      .ok {x | x ∈ occurrences zoneOf patternOf spec ∧ from_ ≤ x ∧ x < until_}.ncard

variable {spec : ScheduleSpec} {t x from_ until_ : ℤ} {message : String}

theorem not_nextAnswers_of_error (ht : Millis t)
    (h : next zoneOf patternOf spec t = .error (invalid message)) : ¬ NextAnswers spec := by
  intro hanswers
  obtain ⟨found, hfound, -⟩ := hanswers t ht
  rw [h] at hfound
  cases hfound

theorem not_nextAnswers_of_passed {b : ℤ} (ht : Millis t)
    (h : next zoneOf patternOf spec t = .ok (some b))
    (hx : x ∈ occurrences zoneOf patternOf spec) (hafter : t < x) (hbefore : x < b) :
    ¬ NextAnswers spec := by
  intro hanswers
  obtain ⟨found, hfound, hleast⟩ := hanswers t ht
  rw [← Except.ok.inj (h.symm.trans hfound)] at hleast
  exact absurd (hleast.2 ⟨hx, hafter⟩) (not_le.mpr hbefore)

theorem not_latestAnswers_of_passed {b : ℤ} (ht : Millis t)
    (h : latest zoneOf patternOf spec t = .ok (some b))
    (hx : x ∈ occurrences zoneOf patternOf spec) (hbefore : x ≤ t) (hafter : b < x) :
    ¬ LatestAnswers spec := by
  intro hanswers
  obtain ⟨found, hfound, hgreatest⟩ := hanswers t ht
  rw [← Except.ok.inj (h.symm.trans hfound)] at hgreatest
  exact absurd (hgreatest.2 ⟨hx, hbefore⟩) (not_le.mpr hafter)

theorem not_missedAnswers_of_none (from_ until_ : ℤ) (hlt : from_ < until_)
    (hfrom : from_ ∈ occurrences zoneOf patternOf spec)
    (h : missedCount zoneOf patternOf spec from_ until_ = .ok 0) : ¬ MissedAnswers spec := by
  intro hanswers
  have hzero := Except.ok.inj (h.symm.trans (hanswers from_ until_ hlt.le hfrom))
  have hfinite : {x | x ∈ occurrences zoneOf patternOf spec ∧ from_ ≤ x ∧ x < until_}.Finite :=
    (Set.finite_Ico from_ until_).subset fun x hx => hx.2
  rw [eq_comm, Set.ncard_eq_zero hfinite] at hzero
  have hmem : from_ ∈ {x | x ∈ occurrences zoneOf patternOf spec ∧ from_ ≤ x ∧ x < until_} :=
    ⟨hfrom, le_rfl, hlt⟩
  rw [hzero] at hmem
  exact hmem

/-- A wall time of a daily pattern that the clock shows. -/
theorem mem_of_shown {expression zone : String} {hour minute : ℕ} {place : Zone} (wall : ℤ)
    {second : ℤ}
    (hpattern : patternOf expression = some (daily hour minute)) (hzone : zoneOf zone = some place)
    (hwall : wall ∈ (daily hour minute).wallTimes (Zone.dateOf wall))
    (hresolved : place.Resolved wall second) :
    second * nanosPerSecond ∈ occurrences zoneOf patternOf (unlimited (.cron expression zone)) :=
  ⟨⟨_, _, hpattern, hzone, wall, second, matches_iff.mpr hwall, hresolved, rfl⟩, by simp [unlimited],
    by simp [unlimited]⟩

end Limits

/-- At the end of the calendar, in a gap of forty hours, where the clock is set back into a gap and
between milliseconds the next occurrence is missed; where the clock is set back over midnight the
latest one is; and the count is short of an interval that has begun and of the end of a gap that
skipped a date. -/
theorem queries_disagree :
    (validate zoneOf patternOf (unlimited (.cron "0 0 * * *" "UTC")) 5 = .ok () ∧
      ¬ NextAnswers (unlimited (.cron "0 0 * * *" "UTC"))) ∧
    (validate zoneOf patternOf (unlimited (.cron "0 4 * * *" "forty hours")) 5 = .ok () ∧
      ¬ NextAnswers (unlimited (.cron "0 4 * * *" "forty hours"))) ∧
    (validate zoneOf patternOf (unlimited (.cron "50 23 * * *" "into a gap")) 5 = .ok () ∧
      ¬ NextAnswers (unlimited (.cron "50 23 * * *" "into a gap"))) ∧
    (validate zoneOf patternOf (unlimited (.every 5 .minutes 500000)) 5 = .ok () ∧
      ¬ NextAnswers (unlimited (.every 5 .minutes 500000))) ∧
    (validate zoneOf patternOf (unlimited (.cron "0 0 * * *" "over midnight")) 5 = .ok () ∧
      ¬ LatestAnswers (unlimited (.cron "0 0 * * *" "over midnight"))) ∧
    (validate zoneOf patternOf (unlimited (.every 5 .minutes 0)) 5 = .ok () ∧
      ¬ MissedAnswers (unlimited (.every 5 .minutes 0))) ∧
    (validate zoneOf patternOf (unlimited (.cron "0 9 * * *" "a date")) 5 = .ok () ∧
      ¬ MissedAnswers (unlimited (.cron "0 9 * * *" "a date"))) := by
  refine ⟨⟨rfl, ?_⟩, ⟨rfl, ?_⟩, ⟨rfl, ?_⟩, ⟨rfl, ?_⟩, ⟨rfl, ?_⟩, ⟨rfl, ?_⟩, ⟨rfl, ?_⟩⟩
  · exact not_nextAnswers_of_error (t := 8210266833600000000000) (by decide) rfl
  · exact not_nextAnswers_of_error (t := -10000000000000) (by decide) rfl
  · exact not_nextAnswers_of_passed (t := 84660000000000) (x := 85800 * nanosPerSecond) (by decide) rfl
      (mem_of_shown 85800 rfl rfl (by decide) (.of_earliest rfl)) (by decide) (by decide)
  · exact not_nextAnswers_of_passed (t := 300000000000) (x := 300000500000) (by decide) rfl
      ⟨⟨by decide, 1, rfl⟩, by simp [unlimited], by simp [unlimited]⟩ (by decide) (by decide)
  · exact not_latestAnswers_of_passed (t := 96000000000000) (x := 95400 * nanosPerSecond) (by decide) rfl
      (mem_of_shown 86400 rfl rfl (by decide) (.of_earliest rfl)) (by decide) (by decide)
  · exact not_missedAnswers_of_none 0 60000000000 (by decide)
      ⟨⟨by decide, 0, rfl⟩, by simp [unlimited], by simp [unlimited]⟩ rfl
  · exact not_missedAnswers_of_none (122400 * nanosPerSecond) (154800 * nanosPerSecond)
      (by decide)
      (mem_of_shown 118800 rfl rfl (by decide) skippedDate_resolved) rfl

end NyxId.TriggerSchedule
