import Mathlib.Order.Bounds.Basic
import Mathlib.Tactic.Common
import Mathlib.Data.Int.Order.Basic

/-!
Clocks on the wall. A zone adds an offset of less than a day to every second of universal time, so
that its clock can skip wall times and can show a wall time more than once. A wall time stands for
the first second that shows it or, when the clock skips it, the first wall time after it that is
shown.
-/

namespace WallClock

structure Zone where
  offset : ℤ → ℤ
  offsets : List ℤ
  offset_mem : ∀ second, offset second ∈ offsets
  offset_bounds : ∀ second, -86400 < offset second ∧ offset second < 86400

namespace Zone

/-- The offset of the last change up to a second, or the first offset. -/
def offsetAt : ℤ → List (ℤ × ℤ) → ℤ → ℤ
  | first, [], _ => first
  | first, (time, offset) :: changes, second =>
    if time ≤ second then offsetAt offset changes second else first

theorem offsetAt_mem (first : ℤ) (changes : List (ℤ × ℤ)) (second : ℤ) :
    offsetAt first changes second ∈ first :: changes.map Prod.snd := by
  induction changes generalizing first with
  | nil => exact List.mem_singleton_self first
  | cons change changes ih =>
    rw [offsetAt]
    split
    · exact List.mem_cons_of_mem _ (ih change.2)
    · exact List.mem_cons_self

/-- A zone of offset changes, in order of time. -/
def changing (first : ℤ) (changes : List (ℤ × ℤ))
    (h : ∀ offset ∈ first :: changes.map Prod.snd, -86400 < offset ∧ offset < 86400) : Zone where
  offset := offsetAt first changes
  offsets := first :: changes.map Prod.snd
  offset_mem := offsetAt_mem first changes
  offset_bounds second := h _ (offsetAt_mem first changes second)

variable (zone : Zone)

/-- What the clock shows. -/
def clock (second : ℤ) : ℤ := second + zone.offset second

/-- The first second at which the clock shows a wall time. -/
def earliest (wall : ℤ) : Option ℤ :=
  ((zone.offsets.map (wall - ·)).filter fun second => zone.clock second = wall).min?

/-- A wall time stands for a second: the first to show the next wall time that is shown. -/
def Resolved (wall second : ℤ) : Prop :=
  ∃ shown, wall ≤ shown ∧ (∀ x, wall ≤ x → x < shown → zone.earliest x = none) ∧
    zone.earliest shown = some second

/-- The clock is never set back to a wall time that it skipped. -/
def InOrder : Prop :=
  ∀ before after, before < after → zone.clock after < zone.clock before →
    ∃ first, first < after ∧ zone.clock first = zone.clock after

variable {zone} {wall wall' second second' : ℤ}

theorem clock_bounds (zone : Zone) (second : ℤ) :
    second - 86400 < zone.clock second ∧ zone.clock second < second + 86400 := by
  have hbounds := zone.offset_bounds second
  unfold clock
  omega

theorem earliest_eq_some :
    zone.earliest wall = some second ↔ IsLeast {s | zone.clock s = wall} second := by
  have hmem : ∀ s, s ∈ (zone.offsets.map (wall - ·)).filter (fun s => zone.clock s = wall) ↔
      zone.clock s = wall := by
    intro s
    rw [List.mem_filter, decide_eq_true_eq]
    refine ⟨fun h => h.2, fun h => ⟨?_, h⟩⟩
    refine List.mem_map.mpr ⟨zone.offset s, zone.offset_mem s, ?_⟩
    unfold clock at h
    omega
  unfold earliest
  rw [List.min?_eq_some_iff]
  simp only [hmem]
  rfl

theorem earliest_eq_none : zone.earliest wall = none ↔ ∀ s, zone.clock s ≠ wall := by
  constructor
  · intro h s hs
    unfold earliest at h
    rw [List.min?_eq_none_iff, List.filter_eq_nil_iff] at h
    have hmem : s ∈ zone.offsets.map (wall - ·) := by
      refine List.mem_map.mpr ⟨zone.offset s, zone.offset_mem s, ?_⟩
      unfold clock at hs
      omega
    exact h s hmem (decide_eq_true hs)
  · intro h
    by_contra hsome
    obtain ⟨s, hs⟩ := Option.ne_none_iff_exists'.mp hsome
    exact h s (earliest_eq_some.mp hs).1

theorem clock_of_earliest (h : zone.earliest wall = some second) : zone.clock second = wall :=
  (earliest_eq_some.mp h).1

theorem earliest_le (h : zone.earliest wall = some second) (hshown : zone.clock second' = wall) :
    second ≤ second' :=
  (earliest_eq_some.mp h).2 hshown

theorem Resolved.of_earliest (h : zone.earliest wall = some second) : zone.Resolved wall second :=
  ⟨wall, le_rfl, fun _ hle hlt => absurd hlt (not_lt.mpr hle), h⟩

/-- The second of a wall time is not before the wall time has passed. -/
theorem Resolved.le_clock (h : zone.Resolved wall second) : wall ≤ zone.clock second := by
  obtain ⟨shown, hle, -, hearliest⟩ := h
  rw [clock_of_earliest hearliest]
  exact hle

/-- The wall times that two wall times stand for are in their order. -/
theorem shown_le {shown shown' : ℤ} (hle : wall ≤ wall') (hle' : wall' ≤ shown')
    (hskipped : ∀ x, wall ≤ x → x < shown → zone.earliest x = none)
    (hshown : zone.earliest shown' = some second') : shown ≤ shown' := by
  by_contra hlt
  have hnone := hskipped shown' (hle.trans hle') (not_le.mp hlt)
  rw [hshown] at hnone
  cases hnone

theorem Resolved.mono (hzone : zone.InOrder) (h : zone.Resolved wall second)
    (h' : zone.Resolved wall' second') (hle : wall ≤ wall') : second ≤ second' := by
  obtain ⟨shown, hfrom, hskipped, hearliest⟩ := h
  obtain ⟨shown', hfrom', -, hearliest'⟩ := h'
  have hshown := shown_le hle hfrom' hskipped hearliest'
  by_contra hback
  have hclock := clock_of_earliest hearliest
  have hclock' := clock_of_earliest hearliest'
  by_cases heq : shown = shown'
  · have hsame := earliest_le hearliest (hclock'.trans heq.symm)
    omega
  · -- the clock would be set back to a wall time it had not shown
    obtain ⟨first, hfirst, hshows⟩ := hzone second' second (by omega) (by omega)
    have hleast := earliest_le hearliest (hshows.trans hclock)
    omega

theorem Resolved.unique (h : zone.Resolved wall second) (h' : zone.Resolved wall second') :
    second = second' := by
  obtain ⟨shown, hfrom, hskipped, hearliest⟩ := h
  obtain ⟨shown', hfrom', hskipped', hearliest'⟩ := h'
  have hle := shown_le le_rfl hfrom' hskipped hearliest'
  have hle' := shown_le le_rfl hfrom hskipped' hearliest
  have hsame : shown = shown' := le_antisymm hle hle'
  rw [hsame, hearliest'] at hearliest
  exact (Option.some.inj hearliest).symm

/-- A wall time has come by the second at which the clock shows it or a later one. -/
theorem Resolved.le_of_le_clock (hzone : zone.InOrder) (h : zone.Resolved wall second)
    (hle : wall ≤ zone.clock second') : second ≤ second' := by
  obtain ⟨first, hfirst⟩ : ∃ first, zone.earliest (zone.clock second') = some first := by
    rw [← Option.ne_none_iff_exists', ne_eq, earliest_eq_none]
    exact fun hnever => hnever second' rfl
  exact (h.mono hzone (.of_earliest hfirst) hle).trans (earliest_le hfirst rfl)

/-- The date of a wall time in days. -/
def dateOf (wall : ℤ) : ℤ := wall / 86400

/-- Before a second the clock never showed a later date than it shows then. -/
def NotSetBack (zone : Zone) (second : ℤ) : Prop :=
  ∀ before, before ≤ second → dateOf (zone.clock before) ≤ dateOf (zone.clock second)

theorem NotSetBack.le_second (hzone : zone.NotSetBack second') (h : zone.Resolved wall second)
    (hlater : dateOf (zone.clock second') < dateOf wall) : second' < second := by
  by_contra hbefore
  have hdate := hzone second (not_lt.mp hbefore)
  have hclock : dateOf wall ≤ dateOf (zone.clock second) :=
    Int.ediv_le_ediv (by decide) h.le_clock
  omega

end Zone

end WallClock
