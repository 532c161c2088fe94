import Mathlib.Data.Set.Card
import NyxId.TriggerSchedule.Search

/-!
The count of missed occurrences of a pattern. The wall times are visited in order, so that equal
instants come one after the other, and an instant is new when it is not the previous one.
-/

namespace NyxId.TriggerSchedule

open WallClock

/-- A count and the last instant counted, of a set of instants. -/
structure Counted (instants : Finset ℤ) (counted : ℕ × Option ℤ) : Prop where
  count : counted.1 = instants.card
  last : ∀ last ∈ counted.2, last ∈ instants
  le_last : ∀ x ∈ instants, ∃ last ∈ counted.2, x ≤ last

def InRange (from_ until_ instant : ℤ) : Prop := from_ ≤ instant ∧ instant < until_

section Counting

variable {pattern : Cron} {zone : Zone} {from_ until_ instant wall first : ℤ}
  {instants : Finset ℤ} {counted : ℕ × Option ℤ} {walls : List ℤ}

theorem Counted.empty : Counted ∅ (0, none) := ⟨rfl, by simp, by simp⟩

/-- An instant that is not before those counted is counted unless it is the last of them. -/
theorem Counted.visit (from_ until_ : ℤ) (h : Counted instants counted)
    (hbefore : ∀ x ∈ instants, x ≤ instant)
    (hok : resolveWallTime zone wall = .ok instant) :
    ∃ next after, TriggerSchedule.visit zone from_ until_ counted wall = .ok next ∧
      Counted after next ∧
      ∀ x, x ∈ after ↔ x ∈ instants ∨ InRange from_ until_ x ∧ x = instant := by
  unfold TriggerSchedule.visit
  rw [hok]
  by_cases hrange : from_ ≤ instant ∧ instant < until_
  · by_cases hlast : counted.2 = some instant
    · -- counted before
      refine ⟨counted, instants, ?_, h, ?_⟩
      · show Except.ok (if _ then _ else _) = _
        rw [if_neg (fun hnew => hnew.2.2 hlast)]
      · intro x
        refine ⟨.inl, fun hx => ?_⟩
        obtain hx | ⟨-, rfl⟩ := hx
        · exact hx
        · exact h.last x hlast
    · have hnew : instant ∉ instants := by
        intro hmem
        obtain ⟨last, hsome, hle⟩ := h.le_last instant hmem
        have hback := hbefore last (h.last last hsome)
        have hsame : last = instant := le_antisymm hback hle
        rw [hsame] at hsome
        exact hlast hsome
      refine ⟨(counted.1 + 1, some instant), insert instant instants, ?_, ⟨?_, ?_, ?_⟩, ?_⟩
      · show Except.ok (if _ then _ else _) = _
        rw [if_pos ⟨hrange.1, hrange.2, hlast⟩]
      · rw [Finset.card_insert_of_notMem hnew, h.count]
      · intro last hsome
        rw [← Option.some.inj hsome]
        exact Finset.mem_insert_self _ _
      · intro x hx
        refine ⟨instant, rfl, ?_⟩
        obtain rfl | hx := Finset.mem_insert.mp hx
        · exact le_rfl
        · exact hbefore x hx
      · intro x
        rw [Finset.mem_insert, or_comm]
        refine or_congr_right ⟨fun hx => ⟨?_, hx⟩, fun hx => hx.2⟩
        rw [hx]
        exact hrange
  · refine ⟨counted, instants, ?_, h, ?_⟩
    · show Except.ok (if _ then _ else _) = _
      rw [if_neg (fun hnew => hrange ⟨hnew.1, hnew.2.1⟩)]
    · intro x
      refine ⟨.inl, fun hx => ?_⟩
      obtain hx | ⟨hinside, rfl⟩ := hx
      · exact hx
      · exact absurd hinside hrange

theorem Counted.visitAll (from_ until_ : ℤ) (hzone : Regular zone) (h : Counted instants counted)
    (hsorted : walls.Pairwise (· < ·))
    (hbefore : ∀ x ∈ instants, ∀ wall ∈ walls, ∀ c, resolveWallTime zone wall = .ok c → x ≤ c) :
    ∃ next after, walls.foldlM (TriggerSchedule.visit zone from_ until_) counted = .ok next ∧
      Counted after next ∧
      ∀ x, x ∈ after ↔ x ∈ instants ∨
        InRange from_ until_ x ∧ ∃ wall ∈ walls, resolveWallTime zone wall = .ok x := by
  induction walls generalizing counted instants with
  | nil => exact ⟨counted, instants, rfl, h, fun x => by simp⟩
  | cons wall walls ih =>
    obtain ⟨hless, hsorted⟩ := List.pairwise_cons.mp hsorted
    obtain ⟨second, hok, hresolved⟩ := resolveWallTime_eq hzone wall
    obtain ⟨next, after, hnext, hcounted, hmem⟩ := h.visit from_ until_
      (fun x hx => hbefore x hx wall List.mem_cons_self _ hok) hok
    have hordered : ∀ x ∈ after, ∀ later ∈ walls, ∀ c, resolveWallTime zone later = .ok c →
        x ≤ c := by
      intro x hx later hlater c hc
      obtain hold | ⟨-, rfl⟩ := (hmem x).mp hx
      · exact hbefore x hold later (List.mem_cons_of_mem _ hlater) c hc
      · obtain ⟨second', rfl, hresolved'⟩ := resolved_of_ok hzone hc
        have hmono := hresolved.mono hzone.inOrder hresolved' (hless later hlater).le
        unfold nanosPerSecond
        omega
    obtain ⟨final, all, hfinal, hall, hmemAll⟩ := ih hcounted hsorted hordered
    refine ⟨final, all, ?_, hall, ?_⟩
    · rw [List.foldlM_cons, hnext]
      exact hfinal
    · intro x
      rw [hmemAll, hmem, List.exists_mem_cons_iff, hok, Except.ok.injEq, or_assoc, and_or_left,
        eq_comm (a := x)]

theorem Counted.dates (pattern : Cron) (from_ until_ first : ℤ) (dates : ℕ)
    (hzone : Regular zone) (h : Counted instants counted)
    (hcalendar : first + dates ≤ maxDate)
    (hbefore : ∀ x ∈ instants, ∀ date, first ≤ date → ∀ c, OnDate pattern zone date c → x ≤ c) :
    ∃ next after, countDates pattern zone from_ until_ dates first counted = .ok next ∧
      Counted after next ∧
      ∀ x, x ∈ after ↔ x ∈ instants ∨ InRange from_ until_ x ∧
        ∃ date, first ≤ date ∧ date < first + dates ∧ OnDate pattern zone date x := by
  induction dates generalizing first counted instants with
  | zero =>
    refine ⟨counted, instants, rfl, h, fun x => ⟨.inl, fun hx => ?_⟩⟩
    obtain hx | ⟨-, date, hle, hlt, -⟩ := hx
    · exact hx
    · simp only [Nat.cast_zero] at hlt
      omega
  | succ dates ih =>
    obtain ⟨next, after, hnext, hcounted, hmem⟩ := h.visitAll from_ until_
      hzone (wallTimes_pairwise pattern first)
      (fun x hx wall hwall c hc => hbefore x hx first le_rfl c ⟨wall, hwall, hc⟩)
    have hsucc : succOpt first = some (first + 1) := if_pos (by push_cast at hcalendar; omega)
    have hordered : ∀ x ∈ after, ∀ date, first + 1 ≤ date →
        ∀ c, OnDate pattern zone date c → x ≤ c := by
      intro x hx date hdate c hc
      obtain hold | ⟨-, hx⟩ := (hmem x).mp hx
      · exact hbefore x hold date (by omega) c hc
      · exact toward_le_of_date true hzone hx hc (show first < date by omega)
    obtain ⟨final, all, hfinal, hall, hmemAll⟩ := ih (first + 1) hcounted
      (by push_cast at hcalendar; omega) hordered
    refine ⟨final, all, ?_, hall, ?_⟩
    · rw [countDates, hnext]
      show (okOr (succOpt first) _ >>= _) = _
      rw [hsucc]
      exact hfinal
    · intro x
      rw [hmemAll, hmem, or_assoc, ← and_or_left]
      refine or_congr_right (and_congr_right fun _ => ⟨fun hx => ?_, fun hx => ?_⟩)
      · obtain hx | ⟨date, hle, hlt, hx⟩ := hx
        · exact ⟨first, le_rfl, by push_cast; omega, hx⟩
        · exact ⟨date, by omega, by push_cast; omega, hx⟩
      · obtain ⟨date, hle, hlt, hx⟩ := hx
        by_cases hfirst : date = first
        · rw [hfirst] at hx
          exact .inl hx
        · exact .inr ⟨date, by omega, by push_cast at hlt; omega, hx⟩

/-- The occurrences of a pattern in a range that begins with one. -/
theorem countDates_eq (hzone : Regular zone)
    (hfrom : OnDate pattern zone (localDate zone from_) from_) (hlt : from_ < until_)
    (hback : zone.NotSetBack (until_ / nanosPerSecond))
    (hcalendar : localDate zone until_ < maxDate) :
    ∃ last, countDates pattern zone from_ until_
      (localDate zone until_ + 1 - localDate zone from_).toNat (localDate zone from_) (0, none) =
        .ok ({x | pattern.Fires zone x ∧ InRange from_ until_ x}.ncard, last) := by
  have hsecond : from_ / nanosPerSecond ≤ until_ / nanosPerSecond :=
    Int.ediv_le_ediv (by decide) hlt.le
  have horder : localDate zone from_ ≤ localDate zone until_ := hback _ hsecond
  obtain ⟨next, all, hnext, hcounted, hmem⟩ := Counted.dates pattern from_ until_
    (localDate zone from_) (localDate zone until_ + 1 - localDate zone from_).toNat hzone
    Counted.empty
    (by omega) (by simp)
  have hset : {x | pattern.Fires zone x ∧ InRange from_ until_ x} = all := by
    ext x
    rw [Finset.mem_coe, hmem, Set.mem_ofPred_eq, fires_iff hzone]
    constructor
    · rintro ⟨⟨date, wall, hwall, hok⟩, hrange⟩
      obtain ⟨second, rfl, hresolved⟩ := resolved_of_ok hzone hok
      have hdate := dateOf_wallTime hwall
      have hle : date ≤ localDate zone until_ := by
        by_contra hlater
        have hahead := pivot_lt_of_date_lt hback hresolved (by rw [hdate]; exact not_le.mp hlater)
        exact absurd hrange.2 (not_lt.mpr hahead.le)
      refine .inr ⟨hrange, ?_⟩
      by_cases hstarted : localDate zone from_ ≤ date
      · exact ⟨date, hstarted, by omega, wall, hwall, hok⟩
      · -- an earlier date has only the first instant of the range
        have hpassed := le_pivot_of_date_lt from_ hzone hresolved
          (by rw [hdate]; exact not_le.mp hstarted)
        rw [le_antisymm hpassed hrange.1]
        exact ⟨localDate zone from_, le_rfl, by omega, hfrom⟩
    · rintro (hx | ⟨hrange, date, -, -, hx⟩)
      · exact absurd hx (Finset.notMem_empty x)
      · exact ⟨⟨date, hx⟩, hrange⟩
  refine ⟨next.2, ?_⟩
  rw [hset, Set.ncard_coe_finset, ← hcounted.count]
  exact hnext

end Counting

end NyxId.TriggerSchedule
