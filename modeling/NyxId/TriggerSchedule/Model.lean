import NyxId.Encoding.Text
import NyxId.Galloping
import NyxId.UsageMeter
import NyxId.WallClock

/-!
When a schedule is due: calendar patterns in the local time of a zone, intervals of elapsed time,
and single instants. Instants are nanoseconds since the epoch, and dates are days since the epoch.
Time zones and the parts of a calendar pattern come from libraries.
-/

namespace NyxId.TriggerSchedule

open WallClock

/-! ### Instants and dates -/

def nanosPerMilli : ℤ := 1000000

def nanosPerSecond : ℤ := 1000000000

def nanosPerDay : ℤ := 86400 * nanosPerSecond

def timestampMillis (instant : ℤ) : ℤ := instant / nanosPerMilli

/-- The first and the last date of the calendar, in the years -262143 and 262142. -/
def minDate : ℤ := -96465292

def maxDate : ℤ := 95026236

def checkedAdd (instant duration : ℤ) : Option ℤ :=
  if minDate * nanosPerDay ≤ instant + duration ∧
      instant + duration < (maxDate + 1) * nanosPerDay then
    some (instant + duration)
  else none

def saturatingMul (x y : ℤ) : ℤ := max (-2 ^ 63) (min (x * y) (2 ^ 63 - 1))

def succOpt (day : ℤ) : Option ℤ := if day < maxDate then some (day + 1) else none

def predOpt (day : ℤ) : Option ℤ := if minDate < day then some (day - 1) else none

structure NaiveDate where
  year : ℤ
  month : ℕ
  day : ℕ

/-- The date of the Gregorian calendar, which repeats every 146097 days. -/
def naiveDate (date : ℤ) : NaiveDate :=
  let fromMarch := date + 719468
  let ofEra := fromMarch % 146097
  let yearOfEra := (ofEra - ofEra / 1460 + ofEra / 36524 - ofEra / 146096) / 365
  let dayOfYear := ofEra - (365 * yearOfEra + yearOfEra / 4 - yearOfEra / 100)
  let month := (5 * dayOfYear + 2) / 153
  { year := fromMarch / 146097 * 400 + yearOfEra + if month < 10 then 0 else 1
    month := (if month < 10 then month + 3 else month - 9).toNat
    day := (dayOfYear - (153 * month + 2) / 5 + 1).toNat }

/-- Days from Sunday. -/
def weekday (date : ℤ) : ℕ := ((date + 4) % 7).toNat

def localDate (zone : Zone) (instant : ℤ) : ℤ := Zone.dateOf (zone.clock (instant / nanosPerSecond))

/-! ### Calendar patterns -/

/-- The parts of a calendar pattern; a part may fail on a value out of its range. -/
structure Cron where
  monthMatch : ℕ → Option Bool
  dayMatch : ℤ → ℕ → ℕ → ℕ → Option Bool
  hourMatch : ℕ → Option Bool
  minuteMatch : ℕ → Option Bool

def Cron.dateMatches (pattern : Cron) (date : ℤ) : Bool :=
  (pattern.monthMatch (naiveDate date).month).getD false &&
    (pattern.dayMatch (naiveDate date).year (naiveDate date).month (naiveDate date).day
      (weekday date)).getD false

/-- The minutes of a day that a pattern selects, in order. -/
def Cron.minutes (pattern : Cron) : List ℕ :=
  ((List.range 24).filter fun hour => (pattern.hourMatch hour).getD false).flatMap fun hour =>
    ((List.range 60).filter fun minute => (pattern.minuteMatch minute).getD false).map fun minute =>
      hour * 60 + minute

/-- The wall times of a date that match, in order. -/
def Cron.wallTimes (pattern : Cron) (date : ℤ) : List ℤ :=
  if pattern.dateMatches date then
    pattern.minutes.map fun minute : ℕ => date * 86400 + minute * 60
  else []

def adjacentFrom (pattern : Cron) : ℕ → ℤ → Bool → Bool
  | 0, _, _ => false
  | days + 1, date, previous =>
    if previous && pattern.dateMatches date then true
    else adjacentFrom pattern days (date + 1) (pattern.dateMatches date)

/-- `matches_adjacent_dates`: over four hundred years from January 2000. -/
def matchesAdjacentDates (pattern : Cron) : Bool := adjacentFrom pattern 146098 10957 false

/-! ### Specifications -/

inductive IntervalUnit where
  | minutes
  | hours
  | days
  deriving DecidableEq

inductive ScheduleKind where
  | cron (expression timezone : String)
  | every (amount : UInt32) (unit : IntervalUnit) (anchor : ℤ)
  | at_ (instant : ℤ)
  deriving DecidableEq

structure ScheduleSpec where
  timing : ScheduleKind
  start : Option ℤ
  end_ : Option ℤ
  maxRuns : Option UInt32
  graceSeconds : Option UInt32
  deriving DecidableEq

def intervalSeconds (amount : UInt32) (unit : IntervalUnit) : ℤ :=
  amount.toNat * match unit with
    | .minutes => 60
    | .hours => 3600
    | .days => 86400

def invalid (message : String) : AppError := .validationError message

def wordCount (text : String) : ℕ := (text.toList.splitOnP Encoding.isWhitespace).countP fun word => !word.isEmpty

section

-- the libraries' readings of zones and patterns
variable (parseZone : String → Option Zone) (parseCron : String → Option Cron)

def timezone (value : String) : Except AppError Zone :=
  okOr (parseZone value) (invalid "Unknown IANA timezone")

def cron (expression : String) : Except AppError Cron :=
  if 256 < expression.utf8ByteSize ∨ wordCount expression ≠ 5 then
    .error (invalid "Cron must have five fields: minute hour day month weekday")
  else okOr (parseCron expression) (invalid "Invalid five-field cron expression")

def defaultScheduleMinimumMinutes : ℤ := 5

/-- The minimum of seconds holds between the selected minutes of a day, and over midnight when two
dates in a row match. -/
def tooOften (pattern : Cron) (minimum : ℤ) : Bool :=
  ((pattern.minutes.zip pattern.minutes.tail).any fun v => ((v.2 : ℤ) - v.1) * 60 < minimum) ||
    (1 < pattern.minutes.length &&
      (1440 + (pattern.minutes.head?.getD 0 : ℤ) - pattern.minutes.getLast?.getD 0) * 60 < minimum &&
      matchesAdjacentDates pattern)

def validateTiming (minimum : ℤ) : ScheduleKind → Except AppError Unit
  | .cron expression zone => do
    let _ ← timezone parseZone zone
    let pattern ← cron parseCron expression
    if pattern.minutes = [] then .error (invalid "Cron has no matching time")
    else if tooOften pattern minimum then
      .error (invalid "Cron cadence is below the owner's minimum interval")
    else .ok ()
  | .every amount unit _ =>
    if amount = 0 ∨ intervalSeconds amount unit < minimum then
      .error (invalid "Interval must meet the owner's minimum")
    else .ok ()
  | .at_ _ => .ok ()

def validate (spec : ScheduleSpec) (minimumMinutes : ℤ) : Except AppError Unit := do
  validateTiming parseZone parseCron (max minimumMinutes defaultScheduleMinimumMinutes * 60)
    spec.timing
  if ∃ start ∈ spec.start, ∃ end_ ∈ spec.end_, end_ ≤ start then
    .error (invalid "Schedule end must be after start")
  else if ∃ n ∈ spec.maxRuns, n = 0 ∨ 1000000 < n then
    .error (invalid "max_runs must be between 1 and 1000000")
  else if ∃ n ∈ spec.graceSeconds, n = 0 ∨ 86400 < n then
    .error (invalid "grace_seconds must be between 1 and 86400")
  else .ok ()

/-! ### Occurrences of a pattern -/

/-- The instant of a wall time. A skipped wall time is resolved to the end of the gap, found by
doubling the distance and bisecting. -/
def resolveWallTime (zone : Zone) (wall : ℤ) : Except AppError ℤ :=
  match zone.earliest wall with
  | some second => .ok (second * nanosPerSecond)
  | none => do
    let valid := fun seconds => (zone.earliest (wall + seconds)).isSome
    let high ← okOr (Galloping.double valid 172800 18 1) (invalid "Timezone gap exceeds two days")
    let second ← okOr (zone.earliest (wall + Galloping.bisect valid 18 0 high))
      (invalid "Unresolvable timezone gap")
    return second * nanosPerSecond

/-- The better of two instants on one side of the pivot: the first after it or the last before. -/
def better (pivot : ℤ) (forward : Bool) (best : Option ℤ) (candidate : ℤ) : Option ℤ :=
  if (forward ∧ pivot < candidate) ∨ (¬ forward ∧ candidate < pivot) then
    some (best.elim candidate fun old => if forward then min old candidate else max old candidate)
  else best

def bestOf (zone : Zone) (pivot : ℤ) (forward : Bool) (walls : List ℤ) :
    Except AppError (Option ℤ) :=
  walls.foldlM
    (fun best wall => do return better pivot forward best (← resolveWallTime zone wall)) none

def searchDates (pattern : Cron) (zone : Zone) (pivot : ℤ) (forward : Bool) :
    ℕ → ℤ → Except AppError (Option ℤ)
  | 0, _ => .ok none
  | dates + 1, date => do
    let best ← bestOf zone pivot forward (pattern.wallTimes date)
    if best.isSome then return best
    let date ← okOr (if forward then succOpt date else predOpt date)
      (invalid "Schedule exceeds supported calendar")
    searchDates pattern zone pivot forward dates date

def cronOccurrence (expression zone : String) (pivot : ℤ) (forward : Bool) :
    Except AppError (Option ℤ) := do
  let pattern ← cron parseCron expression
  let zone ← timezone parseZone zone
  searchDates pattern zone pivot forward 146098 (localDate zone pivot)

/-! ### Queries -/

def everyOccurrence (amount : UInt32) (unit : IntervalUnit) (anchor pivot : ℤ) (forward : Bool) :
    Except AppError (Option ℤ) :=
  let step := intervalSeconds amount unit * 1000
  if step = 0 then .error (invalid "Interval cannot be zero")
  else
    let delta := timestampMillis pivot - timestampMillis anchor
    let periods := if forward then delta / step + 1 else (delta - 1) / step
    if periods < 0 then .ok (if forward then some anchor else none)
    else .ok (checkedAdd anchor (saturatingMul periods step * nanosPerMilli))

def raw (spec : ScheduleSpec) (pivot : ℤ) (forward : Bool) : Except AppError (Option ℤ) :=
  match spec.timing with
  | .cron expression zone => cronOccurrence parseZone parseCron expression zone pivot forward
  | .at_ instant =>
    .ok (if (forward ∧ pivot < instant) ∨ (¬ forward ∧ instant < pivot) then some instant else none)
  | .every amount unit anchor => everyOccurrence amount unit anchor pivot forward

/-- First occurrence strictly after `after`, with inclusive start and end limits. -/
def next (spec : ScheduleSpec) (after : ℤ) : Except AppError (Option ℤ) := do
  let pivot := spec.start.elim after fun start => max after (start - nanosPerMilli)
  let value ← raw parseZone parseCron spec pivot true
  return value.filter fun v => spec.end_.all fun end_ => v ≤ end_

/-- Most recent occurrence at or before `now`. -/
def latest (spec : ScheduleSpec) (now : ℤ) : Except AppError (Option ℤ) := do
  let pivot := spec.end_.elim now fun end_ => min now end_
  let value ← raw parseZone parseCron spec (pivot + nanosPerMilli) false
  return value.filter fun v => spec.start.all fun start => start ≤ v

/-- Counts an instant in the range that is not the previous one. -/
def visit (zone : Zone) (from_ until_ : ℤ) (counted : ℕ × Option ℤ) (wall : ℤ) :
    Except AppError (ℕ × Option ℤ) := do
  let instant ← resolveWallTime zone wall
  return if from_ ≤ instant ∧ instant < until_ ∧ counted.2 ≠ some instant then
    (counted.1 + 1, some instant)
  else counted

def countDates (pattern : Cron) (zone : Zone) (from_ until_ : ℤ) :
    ℕ → ℤ → ℕ × Option ℤ → Except AppError (ℕ × Option ℤ)
  | 0, _, counted => .ok counted
  | dates + 1, date, counted => do
    let counted ← (pattern.wallTimes date).foldlM (visit zone from_ until_) counted
    let date ← okOr (succOpt date) (invalid "Schedule exceeds supported calendar")
    countDates pattern zone from_ until_ dates date counted

def missedCount (spec : ScheduleSpec) (from_ until_ : ℤ) : Except AppError ℕ :=
  if until_ ≤ from_ then .ok 0
  else match spec.timing with
  | .every amount unit _ =>
    .ok ((until_ - from_) / nanosPerMilli / (intervalSeconds amount unit * 1000)).toNat
  | .at_ _ => .ok 1
  | .cron expression zone => do
    let pattern ← cron parseCron expression
    let zone ← timezone parseZone zone
    let first := localDate zone from_
    let last := localDate zone until_
    let counted ← countDates pattern zone from_ until_ (last + 1 - first).toNat first (0, none)
    return counted.1

end

/-!
The occurrences of a schedule. A calendar pattern matches wall times, each of which stands for one
instant; skipped wall times stand for the end of their gap. In a regular zone the instants are in
the order of the wall times, and the search for the end of a gap finds it.
-/

/-- The wall times of a pattern: minutes of the matching dates. -/
def Cron.Matches (pattern : Cron) (wall : ℤ) : Prop :=
  ∃ date : ℤ, ∃ hour minute : ℕ, hour < 24 ∧ minute < 60 ∧ pattern.dateMatches date ∧
    (pattern.hourMatch hour).getD false ∧ (pattern.minuteMatch minute).getD false ∧
    wall = date * 86400 + hour * 3600 + minute * 60

/-- A pattern that matches a date matches one in every 146090 days. -/
def Cron.Recurs (pattern : Cron) : Prop :=
  ∀ date, pattern.dateMatches date → ∀ first, ∃ later, first ≤ later ∧ later ≤ first + 146090 ∧
    pattern.dateMatches later

/-- No offset change sets the clock back to a skipped wall time; a gap has at most 131072 seconds,
and after it the clock skips nothing for as long. -/
structure Regular (zone : Zone) : Prop where
  inOrder : zone.InOrder
  gaps : ∀ wall, zone.earliest wall = none → ∃ length, 0 < length ∧ length ≤ 131072 ∧
    (∀ x, wall ≤ x → x < wall + length → zone.earliest x = none) ∧
    ∀ x, wall + length ≤ x → x < wall + 2 * length → zone.earliest x ≠ none

/-! ### Wall times of a date -/

section WallTimes

variable {pattern : Cron} {date wall : ℤ} {minute : ℕ}

theorem mem_minutes : minute ∈ pattern.minutes ↔ ∃ hour ofHour : ℕ, hour < 24 ∧ ofHour < 60 ∧
    (pattern.hourMatch hour).getD false ∧ (pattern.minuteMatch ofHour).getD false ∧
    minute = hour * 60 + ofHour := by
  simp only [Cron.minutes, List.mem_flatMap, List.mem_map, List.mem_filter, List.mem_range]
  constructor
  · rintro ⟨hour, ⟨hhour, hmatch⟩, ofHour, ⟨hminute, hselected⟩, rfl⟩
    exact ⟨hour, ofHour, hhour, hminute, hmatch, hselected, rfl⟩
  · rintro ⟨hour, ofHour, hhour, hminute, hmatch, hselected, rfl⟩
    exact ⟨hour, ⟨hhour, hmatch⟩, ofHour, ⟨hminute, hselected⟩, rfl⟩

theorem minute_lt (h : minute ∈ pattern.minutes) : minute < 1440 := by
  obtain ⟨hour, ofHour, hhour, hminute, -, -, rfl⟩ := mem_minutes.mp h
  omega

theorem minutes_pairwise (pattern : Cron) : pattern.minutes.Pairwise (· < ·) := by
  unfold Cron.minutes
  rw [List.pairwise_flatMap]
  constructor
  · intro hour _
    rw [List.pairwise_map]
    refine (List.pairwise_lt_range.filter _).imp fun hlt => ?_
    omega
  · refine (List.pairwise_lt_range.filter _).imp fun {a b} hlt => ?_
    intro x hx y hy
    simp only [List.mem_map, List.mem_filter, List.mem_range] at hx hy
    obtain ⟨i, ⟨hi, -⟩, rfl⟩ := hx
    obtain ⟨j, -, rfl⟩ := hy
    omega

theorem mem_wallTimes : wall ∈ pattern.wallTimes date ↔
    pattern.dateMatches date ∧ ∃ minute ∈ pattern.minutes, wall = date * 86400 + minute * 60 := by
  unfold Cron.wallTimes
  by_cases hmatch : pattern.dateMatches date = true
  · rw [if_pos hmatch, List.mem_map]
    simp only [hmatch, true_and]
    exact exists_congr fun minute => and_congr_right fun _ => eq_comm
  · rw [if_neg hmatch]
    simp [hmatch]

theorem dateOf_wallTime (h : wall ∈ pattern.wallTimes date) : Zone.dateOf wall = date := by
  obtain ⟨-, minute, hminute, rfl⟩ := mem_wallTimes.mp h
  have hlt := minute_lt hminute
  unfold Zone.dateOf
  omega

theorem matches_iff : pattern.Matches wall ↔ wall ∈ pattern.wallTimes (Zone.dateOf wall) := by
  constructor
  · rintro ⟨date, hour, minute, hhour, hminute, hdate, hmatch, hselected, rfl⟩
    have hwall : date * 86400 + hour * 3600 + minute * 60 ∈ pattern.wallTimes date := by
      refine mem_wallTimes.mpr ⟨hdate, hour * 60 + minute, ?_, ?_⟩
      · exact mem_minutes.mpr ⟨hour, minute, hhour, hminute, hmatch, hselected, rfl⟩
      · push_cast
        ring
    rw [dateOf_wallTime hwall]
    exact hwall
  · intro h
    obtain ⟨hdate, minute, hminute, hwall⟩ := mem_wallTimes.mp h
    obtain ⟨hour, ofHour, hhour, hlt, hmatch, hselected, rfl⟩ := mem_minutes.mp hminute
    push_cast at hwall
    exact ⟨Zone.dateOf wall, hour, ofHour, hhour, hlt, hdate, hmatch, hselected, by omega⟩

theorem wallTimes_pairwise (pattern : Cron) (date : ℤ) :
    (pattern.wallTimes date).Pairwise (· < ·) := by
  unfold Cron.wallTimes
  split
  · rw [List.pairwise_map]
    refine (minutes_pairwise pattern).imp fun hlt => ?_
    omega
  · exact .nil

/-- A time that a pattern matches comes again in every 146090 days. -/
theorem Cron.Recurs.wallTime (hpattern : pattern.Recurs) (h : pattern.Matches wall) (first : ℤ) :
    ∃ date, first ≤ date ∧ date ≤ first + 146090 ∧ ∃ again, again ∈ pattern.wallTimes date := by
  obtain ⟨hdate, minute, hminute, -⟩ := mem_wallTimes.mp (matches_iff.mp h)
  obtain ⟨date, hfirst, hlast, hmatch⟩ := hpattern _ hdate first
  exact ⟨date, hfirst, hlast, _, mem_wallTimes.mpr ⟨hmatch, minute, hminute, rfl⟩⟩

end WallTimes

/-! ### Resolution -/

section Resolution

variable {zone : Zone} {wall instant : ℤ}

/-- The end of a gap is found. -/
theorem resolveWallTime_eq (hzone : Regular zone) (wall : ℤ) : ∃ second,
    resolveWallTime zone wall = .ok (second * nanosPerSecond) ∧ zone.Resolved wall second := by
  cases hearliest : zone.earliest wall with
  | some second =>
    refine ⟨second, ?_, .of_earliest hearliest⟩
    unfold resolveWallTime
    rw [hearliest]
  | none =>
    obtain ⟨length, hpos, hle, hskipped, hshown⟩ := hzone.gaps wall hearliest
    have hbelow : ∀ x, 0 < x → x < length → (zone.earliest (wall + x)).isSome = false := by
      intro x hx hlt
      rw [hskipped (wall + x) (by omega) (by omega), Option.isSome_none]
    have habove : ∀ x, length ≤ x → x < 2 * length →
        (zone.earliest (wall + x)).isSome = true := by
      intro x hge hlt
      exact Option.isSome_iff_ne_none.mpr (hshown (wall + x) (by omega) (by omega))
    obtain ⟨high, hhigh, hfrom, hto⟩ := Galloping.double_eq_some 172800 17 18 1 hbelow habove
      (by omega) (by omega) (by omega) (by omega) (by omega)
    have hend := Galloping.bisect_eq 0 high 18 hbelow
      (fun x hge hlt => habove x hge (by omega)) hpos hfrom (by omega)
    obtain ⟨second, hsecond⟩ := Option.ne_none_iff_exists'.mp
      (hshown (wall + length) (by omega) (by omega))
    refine ⟨second, ?_, wall + length, by omega, hskipped, hsecond⟩
    unfold resolveWallTime
    rw [hearliest]
    show (okOr (Galloping.double _ 172800 18 1) _ >>= _) = _
    rw [hhigh]
    show (okOr (zone.earliest (wall + Galloping.bisect _ 18 0 high)) _ >>= _) = _
    rw [hend, hsecond]
    rfl

theorem resolved_of_ok (hzone : Regular zone) (h : resolveWallTime zone wall = .ok instant) :
    ∃ second, instant = second * nanosPerSecond ∧ zone.Resolved wall second := by
  obtain ⟨second, hok, hresolved⟩ := resolveWallTime_eq hzone wall
  exact ⟨second, Except.ok.inj (h.symm.trans hok), hresolved⟩

end Resolution

end NyxId.TriggerSchedule
