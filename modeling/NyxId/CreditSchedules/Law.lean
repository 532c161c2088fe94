import NyxId.CreditSchedules.Model
import Mathlib.Data.List.Dedup
import Mathlib.Data.List.Perm.Subperm

/-!
What a tick that was not stopped by its budget leaves behind: nothing, when every schedule that is due
is on its page and every unfinished period is the current one of its schedule.
-/

namespace NyxId.CreditSchedules

open Interleave Machine

variable {newV5 : String → String} {s t : Store} {k : CreditGrantScheduleOrigin} {now : ℤ}
variable {α : Type} {Q : α → Store → Prop}

def Complete (s : Store) (k : CreditGrantScheduleOrigin) : Prop :=
  ∃ row, s.periods.lookup k = some row ∧ row.status = .complete

/-- Someone's lease on the period has not expired. -/
def CreditSchedulePeriod.Leased (row : CreditSchedulePeriod) (now : ℤ) : Prop :=
  row.status = .disbursing ∧ ∃ expiresAt, row.leaseExpiresAt = some expiresAt ∧ now < expiresAt

def Leased (s : Store) (k : CreditGrantScheduleOrigin) (now : ℤ) : Prop :=
  ∃ row, s.periods.lookup k = some row ∧ row.Leased now

/-- The claim of the period succeeds. -/
def Claimable (s : Store) (k : CreditGrantScheduleOrigin) (now : ℤ) (allowInsert : Bool) : Prop :=
  s.periods.lookup k = none ∧ allowInsert = true ∨
    ∃ row, s.periods.lookup k = some row ∧ row.status = .disbursing ∧ ¬ row.Leased now

def HasPeriod (s : Store) (k : CreditGrantScheduleOrigin) : Prop :=
  (s.periods.lookup k).isSome = true

/-- The other periods are as they were. -/
def Beside (k : CreditGrantScheduleOrigin) (s t : Store) : Prop :=
  ∀ j, j ≠ k → t.periods.lookup j = s.periods.lookup j

theorem Beside.trans {u : Store} (h : Beside k s t) (h' : Beside k t u) : Beside k s u :=
  fun j hj => (h' j hj).trans (h j hj)

theorem complete_congr (h : t.periods.lookup k = s.periods.lookup k) : Complete t k ↔ Complete s k := by
  unfold Complete
  rw [h]

theorem claimable_congr {allowInsert : Bool} (h : t.periods.lookup k = s.periods.lookup k) :
    Claimable t k now allowInsert ↔ Claimable s k now allowInsert := by
  unfold Claimable
  rw [h]

theorem not_leased_iff {row : CreditSchedulePeriod} (hstatus : row.status = .disbursing) :
    ¬ row.Leased now ↔ row.leaseExpiresAt.all (· ≤ now) = true := by
  unfold CreditSchedulePeriod.Leased
  cases hlease : row.leaseExpiresAt with
  | none => simp only [reduceCtorEq, false_and, exists_false, and_false, not_false_iff, Option.all_none]
  | some expiresAt =>
    simp only [hstatus, Option.some.injEq, exists_eq_left', true_and, Option.all_some,
      decide_eq_true_eq, not_lt]

/-! ### Writes of one period -/

section

variable {f : CreditSchedulePeriod → CreditSchedulePeriod}

theorem lookup_rewrite_of_ne {j : CreditGrantScheduleOrigin} (hj : j ≠ k) :
    (s.rewrite k f).periods.lookup j = s.periods.lookup j := by
  unfold Store.rewrite
  split
  · split
    · exact AList.lookup_insert_ne hj
    · rfl
  · rfl

theorem lookup_rewrite (s : Store) (k : CreditGrantScheduleOrigin)
    (f : CreditSchedulePeriod → CreditSchedulePeriod) :
    (s.rewrite k f).periods.lookup k =
      (s.periods.lookup k).map fun row => if row.status = .disbursing then f row else row := by
  unfold Store.rewrite
  cases hrow : s.periods.lookup k with
  | none => exact hrow
  | some row =>
    dsimp only [Option.map_some]
    split
    · exact AList.lookup_insert s.periods
    · exact hrow

theorem hasPeriod_rewrite (h : HasPeriod s k) : HasPeriod (s.rewrite k f) k := by
  unfold HasPeriod
  rw [lookup_rewrite, Option.isSome_map]
  exact h

theorem beside_rewrite : Beside k s (s.rewrite k f) := fun _ hj => lookup_rewrite_of_ne hj

end

theorem complete_completed (count now : ℤ) (h : HasPeriod s k) :
    Complete (s.rewrite k (CreditSchedulePeriod.completed count now)) k := by
  obtain ⟨row, hrow⟩ := Option.isSome_iff_exists.mp h
  refine ⟨_, (lookup_rewrite s k _).trans (congrArg _ hrow), ?_⟩
  dsimp only
  split
  · rfl
  · rename_i hstatus
    cases hrow' : row.status with
    | disbursing => exact absurd hrow' hstatus
    | complete => rfl

/-! ### A period -/

/-- The operations that write no period. -/
def Op.Quiet {β : Type} : Op β → Prop
  | .complete .. | .claim .. | .advance .. | .release .. => False
  | _ => True

theorem quiet_periods {β : Type} (o : Op β) (env : Env) (s : Store) (h : o.Quiet) :
    (exec 0 env o s).2.periods = s.periods := by
  cases o with
  | complete | claim | advance | release => exact h.elim
  | insert grant =>
    simp only [exec]
    split <;> rfl
  | _ => rfl

theorem Gives.quietly {p : Code α} (hp : p.All Op.Quiet) :
    Gives (M := machine newV5) p (fun _ t => t.periods = s.periods) s :=
  Gives.keeps (fun o env s h hs => (quiet_periods o env s h).trans hs) hp rfl

theorem insertGrants_quiet (grants : List CreditGrant) : (insertGrants grants).All Op.Quiet := by
  induction grants with
  | nil => trivial
  | cons grant rest ih =>
    refine Prog.All.bind (Prog.All.attempt (Prog.All.perform (by trivial))) fun result => ?_
    refine Prog.All.bind ih fun inserted => ?_
    dsimp only
    split <;> exact Prog.all_ret _

theorem insertGrantChunk_quiet (grants : List CreditGrant) :
    (insertGrantChunk grants).All Op.Quiet := by
  refine Prog.All.bind (insertGrants_quiet grants) fun inserted => ?_
  dsimp only
  split <;> trivial

theorem ledgerGrants_quiet (grants : List CreditGrant) : (ledgerGrants grants).All Op.Quiet := by
  induction grants with
  | nil => trivial
  | cons grant rest ih =>
    refine Prog.All.bind (Prog.All.perform (by trivial)) fun verdict => ?_
    cases verdict with
    | some e => exact ih
    | none =>
      exact Prog.All.bind (Prog.All.perform (by trivial)) fun _ => Prog.All.bind ih fun _ => trivial

/-- The period is still there, and the others are as they were. -/
def Kept (k : CreditGrantScheduleOrigin) (s t : Store) : Prop := HasPeriod t k ∧ Beside k s t

theorem Kept.of_periods {u : Store} (h : Kept k s t) (hu : u.periods = t.periods) : Kept k s u := by
  constructor
  · unfold HasPeriod
    rw [hu]
    exact h.1
  · intro j hj
    rw [hu]
    exact h.2 j hj

theorem Kept.rewrite {f : CreditSchedulePeriod → CreditSchedulePeriod} (h : Kept k s t) :
    Kept k s (t.rewrite k f) :=
  ⟨hasPeriod_rewrite h.1, h.2.trans beside_rewrite⟩

/-- What the chunks of a period leave: an end of it unless the budget ran out. -/
def Served (k : CreditGrantScheduleOrigin) (s : Store) (stats : DisbursementStats)
    (left : ℕ × DisbursementStats) (t : Store) : Prop :=
  (left.2.budgetExhausted = false → stats.budgetExhausted = false ∧ Complete t k) ∧ Beside k s t

theorem completePeriod_gives (h : Kept k s t) :
    Gives (M := machine newV5) (completePeriod k now) (fun _ u => Complete u k ∧ Beside k s u) t := by
  refine Gives.perform fun env => Gives.perform fun env' => fun env'' => ?_
  have hcomplete := complete_completed (exec 0 env (.countGrants k) t).1 now h.1
  exact ⟨⟨hcomplete, h.rewrite.2⟩, trivial, trivial⟩

theorem advanceCursor_gives {cursor : String} {inserted : ℤ} (h : Kept k s t) :
    Gives (M := machine newV5) (advanceCursor k cursor inserted now) (fun _ u => Kept k s u) t :=
  Gives.perform fun _ _ => ⟨h.rewrite, trivial, trivial⟩

theorem disburseChunks_gives {schedule : CreditSchedule} {terms : PeriodTerms} {rounds remaining : ℕ}
    {cursor : Option String} {stats : DisbursementStats} (hrounds : remaining < rounds)
    (h : Kept k s t) :
    Gives (M := machine newV5) (disburseChunks newV5 schedule k terms now rounds cursor remaining stats)
      (Served k s stats) t := by
  induction rounds generalizing cursor remaining stats t with
  | zero => exact absurd hrounds (Nat.not_lt_zero remaining)
  | succ rounds ih =>
    unfold disburseChunks
    by_cases hremaining : remaining = 0
    · rw [if_pos hremaining]
      exact Gives.perform fun env => ⟨nofun, h.rewrite.2⟩
    · rw [if_neg hremaining]
      refine Gives.perform fun env => ?_
      dsimp only [machine, exec]
      cases hlast : (nextRecipients t.directory terms cursor (min disbursementChunk remaining)).getLast? with
      | none => exact Gives.bind (Gives.mono (fun _ u hu => ⟨fun hstats => ⟨hstats, hu.1⟩, hu.2⟩)
          (completePeriod_gives h))
      | some last =>
        refine Gives.perform fun env' => ?_
        refine Gives.bind (Gives.mono (fun inserted u hu => ?_)
          (Gives.quietly (insertGrantChunk_quiet _)))
        refine Gives.bind (Gives.mono (fun ledgered v hv => ?_)
          (Gives.quietly (ledgerGrants_quiet inserted)))
        have hv : Kept k s v := h.of_periods (hv.trans hu)
        refine Gives.bind (Gives.mono (fun _ w hw => ?_) (advanceCursor_gives hv))
        -- a chunk has at least the recipient that it ends with
        have hpos := List.length_pos_of_mem (List.mem_of_getLast? hlast)
        refine ih ?_ hw
        unfold grantsForRecipients
        rw [List.length_map]
        omega

/-- What the claim of a period says of it. -/
def Claimed (k : CreditGrantScheduleOrigin) (now : ℤ) (allowInsert : Bool) (s : Store) :
    PeriodClaim → Store → Prop
  | .acquired _, t => Claimable s k now allowInsert ∧ Kept k s t
  | _, t => ¬ Claimable s k now allowInsert ∧ t.periods = s.periods

theorem claimPeriod_gives {schedule : CreditSchedule} {window : SchedulePeriod} {id : ScheduleId}
    {allowInsert : Bool} :
    Gives (M := machine newV5) (claimPeriod id schedule window now allowInsert)
      (Claimed ⟨id, window.start⟩ now allowInsert s) s := by
  refine Gives.perform fun env => Gives.perform fun env' => ?_
  dsimp only [machine, exec, Store.claim]
  have hinsert (row : CreditSchedulePeriod) :
      Kept ⟨id, window.start⟩ s { s with periods := s.periods.insert ⟨id, window.start⟩ row } := by
    refine ⟨?_, fun j hj => AList.lookup_insert_ne hj⟩
    unfold HasPeriod
    rw [AList.lookup_insert]
    rfl
  cases hrow : s.periods.lookup ⟨id, window.start⟩ with
  | none =>
    dsimp only
    cases allowInsert with
    | true => exact ⟨.inl ⟨hrow, rfl⟩, hinsert _⟩
    | false =>
      refine ⟨?_, rfl⟩
      rintro (⟨_, h⟩ | ⟨row, h, _⟩)
      · cases h
      · rw [hrow] at h
        cases h
  | some row =>
    dsimp only
    by_cases hfree : row.status = .disbursing ∧ row.leaseExpiresAt.all (· ≤ now) = true
    · rw [if_pos hfree]
      exact ⟨.inr ⟨row, hrow, hfree.1, (not_leased_iff hfree.1).mpr hfree.2⟩, hinsert _⟩
    · rw [if_neg hfree]
      have hclaim : ¬ Claimable s ⟨id, window.start⟩ now allowInsert := by
        rintro (⟨h, _⟩ | ⟨other, h, hstatus, hleased⟩)
        · rw [hrow] at h
          cases h
        · rw [hrow] at h
          cases h
          exact hfree ⟨hstatus, (not_leased_iff hstatus).mp hleased⟩
      cases allowInsert with
      | false => exact ⟨hclaim, rfl⟩
      | true =>
        rw [if_pos rfl]
        refine Gives.perform fun env'' => ?_
        dsimp only [machine, exec]
        by_cases hstatus : (s.periods.lookup ⟨id, window.start⟩).map CreditSchedulePeriod.status =
            some .complete
        · rw [if_pos hstatus]
          exact ⟨hclaim, rfl⟩
        · rw [if_neg hstatus]
          exact ⟨hclaim, rfl⟩

/-! ### The schedules of a page -/

/-- What a page of schedules leaves when the budget lasts: their claimable periods are complete and all
other periods are as they were. -/
structure Disbursed (now : ℤ) (schedules : List (ScheduleId × CreditSchedule)) (s t : Store) : Prop where
  complete : ∀ x ∈ schedules, Claimable s (x.2.current x.1 now) now x.2.isActive →
    Complete t (x.2.current x.1 now)
  same : ∀ k, (∀ x ∈ schedules, k = x.2.current x.1 now → ¬ Claimable s k now x.2.isActive) →
    t.periods.lookup k = s.periods.lookup k

theorem Disbursed.skip {x : ScheduleId × CreditSchedule} {rest : List (ScheduleId × CreditSchedule)}
    {u : Store} (hx : ¬ Claimable s (x.2.current x.1 now) now x.2.isActive) (hu : u.periods = s.periods)
    (h : Disbursed now rest u t) : Disbursed now (x :: rest) s t := by
  have hlookup (j : CreditGrantScheduleOrigin) : u.periods.lookup j = s.periods.lookup j := by rw [hu]
  constructor
  · intro y hy hclaim
    rcases List.mem_cons.mp hy with rfl | hy
    · exact absurd hclaim hx
    · exact h.complete y hy ((claimable_congr (hlookup _)).mpr hclaim)
  · intro k hk
    rw [← hlookup k]
    exact h.same k fun y hy hcurrent hclaim =>
      hk y (List.mem_cons_of_mem x hy) hcurrent ((claimable_congr (hlookup k)).mp hclaim)

theorem Disbursed.cons {x : ScheduleId × CreditSchedule} {rest : List (ScheduleId × CreditSchedule)}
    {u : Store} (hnew : ∀ y ∈ rest, y.1 ≠ x.1)
    (hclaimable : Claimable s (x.2.current x.1 now) now x.2.isActive)
    (hcomplete : Complete u (x.2.current x.1 now)) (hbeside : Beside (x.2.current x.1 now) s u)
    (h : Disbursed now rest u t) : Disbursed now (x :: rest) s t := by
  have hother : ∀ y ∈ rest, y.2.current y.1 now ≠ x.2.current x.1 now := fun y hy hsame =>
    hnew y hy (congrArg CreditGrantScheduleOrigin.scheduleId hsame)
  constructor
  · intro y hy hclaim
    rcases List.mem_cons.mp hy with rfl | hy
    · exact (complete_congr (h.same _ fun z hz hcurrent => absurd hcurrent.symm (hother z hz))).mpr hcomplete
    · exact h.complete y hy ((claimable_congr (hbeside _ (hother y hy))).mpr hclaim)
  · intro k hk
    have hne : k ≠ x.2.current x.1 now := fun hsame =>
      hk x List.mem_cons_self hsame (hsame ▸ hclaimable)
    refine (h.same k fun y hy hcurrent hclaim => ?_).trans (hbeside k hne)
    exact hk y (List.mem_cons_of_mem x hy) hcurrent ((claimable_congr (hbeside k hne)).mp hclaim)

theorem disburseSchedules_gives {schedules : List (ScheduleId × CreditSchedule)} {remaining : ℕ}
    {stats : DisbursementStats} (hnodup : (schedules.map Prod.fst).Nodup) :
    Gives (M := machine newV5) (disburseSchedules newV5 now schedules remaining stats)
      (fun left t => left.budgetExhausted = false →
        stats.budgetExhausted = false ∧ Disbursed now schedules s t) s := by
  induction schedules generalizing s remaining stats with
  | nil =>
    unfold disburseSchedules
    intro hleft
    exact ⟨hleft, fun x hx => absurd hx List.not_mem_nil, fun _ _ => rfl⟩
  | cons x rest ih =>
    obtain ⟨id, schedule⟩ := x
    rw [List.map_cons, List.nodup_cons] at hnodup
    have hnew : ∀ y ∈ rest, y.1 ≠ id := fun y hy hid => hnodup.1 (List.mem_map.mpr ⟨y, hy, hid⟩)
    unfold disburseSchedules
    by_cases hremaining : remaining = 0
    · rw [if_pos hremaining]
      exact nofun
    · rw [if_neg hremaining]
      refine Gives.bind (Gives.mono (fun claim u hu => ?_) claimPeriod_gives)
      cases claim with
      | acquired row =>
        refine Gives.bind (Gives.mono (fun left v hv => ?_)
          (disburseChunks_gives (Nat.lt_succ_self remaining) hu.2))
        refine Gives.mono (fun stats' w hw hleft => ?_) (ih hnodup.2)
        have hrest := hw hleft
        have hserved := hv.1 hrest.1
        exact ⟨hserved.1, hrest.2.cons hnew hu.1 hserved.2 hv.2⟩
      | busy =>
        refine Gives.mono (fun stats' w hw hleft => ?_) (ih hnodup.2)
        exact ⟨(hw hleft).1, (hw hleft).2.skip hu.1 hu.2⟩
      | complete =>
        refine Gives.mono (fun stats' w hw hleft => ?_) (ih hnodup.2)
        exact ⟨(hw hleft).1, (hw hleft).2.skip hu.1 hu.2⟩

/-! ### Periods that have elapsed -/

/-- The same schedules as far as a tick picks from them. -/
structure Alike (s t : Store) : Prop where
  page : ∀ inFlight, t.duePage inFlight = s.duePage inFlight
  lookup : ∀ id, (t.schedules.lookup id).map (fun x => (x.isActive, x.recurrence)) =
    (s.schedules.lookup id).map fun x => (x.isActive, x.recurrence)

theorem Alike.refl (s : Store) : Alike s s := ⟨fun _ => rfl, fun _ => rfl⟩

theorem Alike.trans {u : Store} (h : Alike s t) (h' : Alike t u) : Alike s u :=
  ⟨fun inFlight => (h'.page inFlight).trans (h.page inFlight),
    fun id => (h'.lookup id).trans (h.lookup id)⟩

theorem alike_editSchedule {id : ScheduleId} {f : CreditSchedule → CreditSchedule}
    (hactive : ∀ x, (f x).isActive = x.isActive) (hrecurrence : ∀ x, (f x).recurrence = x.recurrence) :
    Alike s (s.editSchedule id f) := by
  constructor
  · intro inFlight
    unfold Store.duePage Store.editSchedule
    dsimp only
    rw [Collection.listed_mapValues]
    intro other x
    split
    · rw [hactive]
    · rfl
  · intro other
    unfold Store.editSchedule
    dsimp only
    rw [Collection.lookup_mapValues, Option.map_map]
    refine Option.map_congr fun x _ => ?_
    dsimp only [Function.comp_apply]
    split
    · rw [hactive, hrecurrence]
    · rfl

/-- What the end of elapsed periods leaves. -/
structure Abandoned (origins : List CreditGrantScheduleOrigin) (s t : Store) : Prop where
  complete : ∀ k ∈ origins, HasPeriod s k → Complete t k
  keeps : ∀ k, Complete s k → Complete t k
  same : ∀ k, k ∉ origins → t.periods.lookup k = s.periods.lookup k
  alike : Alike s t

theorem Abandoned.cons {k : CreditGrantScheduleOrigin} {rest : List CreditGrantScheduleOrigin}
    {count : ℤ} {u : Store} (h : Abandoned rest u t)
    (hu : u.periods = (s.rewrite k (CreditSchedulePeriod.completed count now)).periods)
    (halike : Alike s u) : Abandoned (k :: rest) s t := by
  have hself : u.periods.lookup k = (s.periods.lookup k).map fun row =>
      if row.status = .disbursing then CreditSchedulePeriod.completed count now row else row :=
    (congrArg (AList.lookup k) hu).trans (lookup_rewrite s k _)
  have hbeside (j : CreditGrantScheduleOrigin) (hj : j ≠ k) :
      u.periods.lookup j = s.periods.lookup j :=
    (congrArg (AList.lookup j) hu).trans (lookup_rewrite_of_ne hj)
  have hended (hk : HasPeriod s k) : Complete u k := by
    obtain ⟨row, hrow, hstatus⟩ := complete_completed count now hk
    exact ⟨row, (congrArg (AList.lookup k) hu).trans hrow, hstatus⟩
  constructor
  · intro j hj hperiod
    by_cases hjk : j = k
    · subst hjk
      exact h.keeps j (hended hperiod)
    · refine h.complete j ((List.mem_cons.mp hj).resolve_left hjk) ?_
      unfold HasPeriod
      rw [hbeside j hjk]
      exact hperiod
  · intro j hj
    by_cases hjk : j = k
    · subst hjk
      obtain ⟨row, hrow, _⟩ := hj
      exact h.keeps j (hended (Option.isSome_iff_exists.mpr ⟨row, hrow⟩))
    · exact h.keeps j ((complete_congr (hbeside j hjk)).mpr hj)
  · intro j hj
    rw [List.mem_cons, not_or] at hj
    exact (h.same j hj.2).trans (hbeside j hj.1)
  · exact halike.trans h.alike

theorem alike_of_schedules (h : t.schedules = s.schedules) : Alike s t := by
  constructor
  · intro inFlight
    unfold Store.duePage
    rw [h]
  · intro id
    rw [h]

theorem rewrite_schedules {f : CreditSchedulePeriod → CreditSchedulePeriod} :
    (s.rewrite k f).schedules = s.schedules := by
  unfold Store.rewrite
  split
  · split <;> rfl
  · rfl

theorem abandonPeriods_gives {origins : List CreditGrantScheduleOrigin} {stats : DisbursementStats} :
    Gives (M := machine newV5) (abandonPeriods now origins stats)
      (fun _ t => Abandoned origins s t) s := by
  induction origins generalizing s stats with
  | nil => exact ⟨nofun, fun _ hk => hk, fun _ _ => rfl, .refl s⟩
  | cons k rest ih =>
    refine Gives.perform fun env => Gives.perform fun env' => ?_
    dsimp only [machine, exec]
    cases (s.periods.lookup k).any (·.status = .disbursing) with
    | false => exact Gives.mono (fun _ t ht => ht.cons rfl (alike_of_schedules rewrite_schedules)) ih
    | true =>
      refine Gives.perform fun env'' => Gives.mono (fun _ t ht => ht.cons rfl ?_) ih
      exact (alike_of_schedules rewrite_schedules).trans
        (alike_editSchedule (fun _ => rfl) fun _ => rfl)

/-! ### The tick -/

/-- The schedules that a tick examines. -/
def Store.page (s : Store) (now : ℤ) : List ScheduleId := s.duePage (s.inFlight now)

theorem mem_elapsed (h : k ∈ s.elapsed now) :
    ∃ row, s.periods.lookup k = some row ∧ row.status = .disbursing ∧ row.terms.periodEnd ≤ now := by
  unfold Store.elapsed at h
  obtain ⟨x, hx, rfl⟩ := List.mem_map.mp h
  obtain ⟨e, he, rfl⟩ := List.mem_map.mp ((List.mem_insertionSort _).mp (List.mem_of_mem_take hx))
  obtain ⟨hmem, hrow⟩ := List.mem_filter.mp he
  rw [Bool.and_eq_true, decide_eq_true_eq, decide_eq_true_eq] at hrow
  exact ⟨e.2, AList.mem_lookup_iff.mpr hmem, hrow⟩

theorem mem_inFlight {id : ScheduleId} : id ∈ s.inFlight now ↔ ∃ k row, k.scheduleId = id ∧
    s.periods.lookup k = some row ∧ row.status = .disbursing ∧ now < row.terms.periodEnd := by
  unfold Store.inFlight
  rw [List.mem_dedup, List.mem_map]
  constructor
  · rintro ⟨e, he, rfl⟩
    obtain ⟨hmem, hrow⟩ := List.mem_filter.mp he
    rw [Bool.and_eq_true, decide_eq_true_eq, decide_eq_true_eq] at hrow
    exact ⟨e.1, e.2, rfl, AList.mem_lookup_iff.mpr hmem, hrow⟩
  · rintro ⟨k, row, rfl, hrow, hstatus, hend⟩
    refine ⟨⟨k, row⟩, List.mem_filter.mpr ⟨AList.mem_lookup_iff.mp hrow, ?_⟩, rfl⟩
    rw [Bool.and_eq_true, decide_eq_true_eq, decide_eq_true_eq]
    exact ⟨hstatus, hend⟩

theorem duePage_congr {a b : List ScheduleId} (h : ∀ id, id ∈ a ↔ id ∈ b) :
    s.duePage a = s.duePage b := by
  have hcontains (id : ScheduleId) : a.contains id = b.contains id := by
    rw [Bool.eq_iff_iff, List.contains_iff_mem, List.contains_iff_mem]
    exact h id
  unfold Store.duePage
  simp only [hcontains]

/-- The end of the elapsed periods changes none that is in flight. -/
theorem Abandoned.page (h : Abandoned (s.elapsed now) s t) : t.page now = s.page now := by
  refine (h.alike.page _).trans (duePage_congr fun id => ?_)
  rw [mem_inFlight, mem_inFlight]
  constructor
  · rintro ⟨k, row, hid, hrow, hstatus, hend⟩
    by_cases hk : k ∈ s.elapsed now
    · obtain ⟨old, hold, _⟩ := mem_elapsed hk
      obtain ⟨new, hnew, hcomplete⟩ := h.complete k hk (Option.isSome_iff_exists.mpr ⟨old, hold⟩)
      rw [hrow, Option.some.injEq] at hnew
      rw [← hnew, hstatus] at hcomplete
      cases hcomplete
    · exact ⟨k, row, hid, (h.same k hk).symm.trans hrow, hstatus, hend⟩
  · rintro ⟨k, row, hid, hrow, hstatus, hend⟩
    have hk : k ∉ s.elapsed now := by
      intro hk
      obtain ⟨old, hold, _, hpast⟩ := mem_elapsed hk
      rw [hrow, Option.some.injEq] at hold
      rw [hold] at hend
      omega
    exact ⟨k, row, hid, (h.same k hk).trans hrow, hstatus, hend⟩

theorem sublist_keys {K V : Type} (p : K → V → Bool) (l : List (Sigma fun _ : K => V)) :
    (l.filterMap fun e => if p e.1 e.2 then some e.1 else none).Sublist l.keys := by
  induction l with
  | nil => exact .slnil
  | cons e rest ih =>
    rw [List.filterMap_cons, List.keys_cons]
    by_cases hp : p e.1 e.2 = true
    · rw [if_pos hp]
      exact ih.cons_cons e.1
    · rw [if_neg hp]
      exact ih.cons e.1

theorem nodup_duePage (s : Store) (inFlight : List ScheduleId) : (s.duePage inFlight).Nodup := by
  have hlisted := (sublist_keys (fun id (schedule : CreditSchedule) =>
    schedule.isActive || inFlight.contains id) s.schedules.entries).nodup s.schedules.nodupKeys
  exact (List.take_sublist _ _).nodup ((List.perm_insertionSort _ _).nodup_iff.mpr hlisted)

theorem mem_due {inFlight : List ScheduleId} {x : ScheduleId × CreditSchedule} :
    x ∈ s.due inFlight ↔ x.1 ∈ s.duePage inFlight ∧ s.schedules.lookup x.1 = some x.2 := by
  unfold Store.due
  rw [List.mem_filterMap]
  constructor
  · rintro ⟨id, hid, h⟩
    obtain ⟨schedule, hschedule, rfl⟩ := Option.map_eq_some_iff.mp h
    exact ⟨hid, hschedule⟩
  · rintro ⟨hid, hschedule⟩
    exact ⟨x.1, hid, by rw [hschedule]; rfl⟩

theorem nodup_due (s : Store) (inFlight : List ScheduleId) :
    ((s.due inFlight).map Prod.fst).Nodup := by
  have hsub : ((s.due inFlight).map Prod.fst).Sublist (s.duePage inFlight) := by
    unfold Store.due
    rw [List.map_filterMap]
    induction s.duePage inFlight with
    | nil => exact .slnil
    | cons id rest ih =>
      rw [List.filterMap_cons]
      cases s.schedules.lookup id with
      | none => exact ih.cons id
      | some schedule => exact ih.cons_cons id
  exact hsub.nodup (nodup_duePage s inFlight)

/-- The tick claims and completes the period. -/
def Taken (s : Store) (now : ℤ) (k : CreditGrantScheduleOrigin) : Prop :=
  ∃ schedule, s.schedules.lookup k.scheduleId = some schedule ∧ k = schedule.current k.scheduleId now ∧
    k.scheduleId ∈ s.page now ∧ Claimable s k now schedule.isActive

/-- The periods that are complete after a tick. -/
def Ends (s : Store) (now : ℤ) (k : CreditGrantScheduleOrigin) : Prop :=
  Complete s k ∨ k ∈ s.elapsed now ∨ Taken s now k

theorem current_congr {a b : CreditSchedule} {id : ScheduleId} (h : a.recurrence = b.recurrence) :
    a.current id now = b.current id now := by
  unfold CreditSchedule.current
  rw [h]

theorem Alike.schedule (h : Alike s t) {id : ScheduleId} {x : CreditSchedule}
    (hx : t.schedules.lookup id = some x) : ∃ y, s.schedules.lookup id = some y ∧
      y.isActive = x.isActive ∧ y.recurrence = x.recurrence := by
  have hlookup := h.lookup id
  rw [hx, Option.map_some] at hlookup
  obtain ⟨y, hy, hsame⟩ := Option.map_eq_some_iff.mp hlookup.symm
  exact ⟨y, hy, congrArg Prod.fst hsame, congrArg Prod.snd hsame⟩

theorem Alike.symm (h : Alike s t) : Alike t s :=
  ⟨fun inFlight => (h.page inFlight).symm, fun id => (h.lookup id).symm⟩

theorem complete_iff_ends {u : Store} (hended : Abandoned (s.elapsed now) s u)
    (h : Disbursed now (u.due (u.inFlight now)) u t) : Complete t k ↔ Ends s now k := by
  by_cases hk : k ∈ s.elapsed now
  · obtain ⟨row, hrow, _⟩ := mem_elapsed hk
    have hcomplete : Complete u k := hended.complete k hk (Option.isSome_iff_exists.mpr ⟨row, hrow⟩)
    refine iff_of_true ((complete_congr (h.same k fun x _ _ hclaim => ?_)).mpr hcomplete) (.inr (.inl hk))
    obtain ⟨new, hnew, hstatus⟩ := hcomplete
    rcases hclaim with ⟨hnone, _⟩ | ⟨other, hother, hdisbursing, _⟩
    · rw [hnew] at hnone
      cases hnone
    · rw [hnew, Option.some.injEq] at hother
      rw [← hother, hstatus] at hdisbursing
      cases hdisbursing
  · have hsame := hended.same k hk
    by_cases htaken : Taken s now k
    · refine iff_of_true ?_ (.inr (.inr htaken))
      obtain ⟨schedule, hschedule, hcurrent, hpage, hclaim⟩ := htaken
      obtain ⟨x, hx, hactive, hrecurrence⟩ := hended.alike.symm.schedule hschedule
      have hkx : k = x.current k.scheduleId now := hcurrent.trans (current_congr hrecurrence.symm)
      rw [← hended.page] at hpage
      have hmem : (k.scheduleId, x) ∈ u.due (u.inFlight now) := mem_due.mpr ⟨hpage, hx⟩
      have hclaim' : Claimable u k now x.isActive := by
        rw [hactive]
        exact (claimable_congr hsame).mpr hclaim
      rw [hkx] at hclaim' ⊢
      exact h.complete _ hmem hclaim'
    · have hfinal : t.periods.lookup k = u.periods.lookup k := by
        refine h.same k fun x hx hcurrent hclaim => htaken ?_
        obtain ⟨hpage, hlookup⟩ := mem_due.mp hx
        obtain ⟨y, hy, hactive, hrecurrence⟩ := hended.alike.schedule hlookup
        have hid : k.scheduleId = x.1 := congrArg CreditGrantScheduleOrigin.scheduleId hcurrent
        rw [← hid] at hy hpage hcurrent
        refine ⟨y, hy, hcurrent.trans (current_congr hrecurrence.symm), hended.page ▸ hpage, ?_⟩
        rw [hactive]
        exact (claimable_congr hsame).mp hclaim
      rw [complete_congr (hfinal.trans hsame)]
      constructor
      · exact .inl
      · rintro (hcomplete | hmem | h)
        · exact hcomplete
        · exact absurd hmem hk
        · exact absurd h htaken

theorem disburseDue_gives (newV5 : String → String) (now : ℤ) (budget : ℕ) (s : Store) :
    Gives (M := machine newV5) (disburseDue newV5 now budget)
      (fun stats t => stats.budgetExhausted = false → ∀ k, Complete t k ↔ Ends s now k) s := by
  refine Gives.perform fun env => ?_
  dsimp only [machine, exec]
  cases env.verdict with
  | some e => trivial
  | none =>
    refine Gives.bind (Gives.perform fun _ => ?_)
    refine Gives.mono (fun stats u hu => ?_) abandonPeriods_gives
    dsimp only [machine, exec] at hu ⊢
    by_cases hbudget : budget = 0
    · rw [if_pos hbudget]
      exact nofun
    · rw [if_neg hbudget]
      refine Gives.perform fun _ => Gives.perform fun _ => ?_
      exact Gives.mono (fun left t ht hleft k => complete_iff_ends hu (ht hleft).2)
        (disburseSchedules_gives (nodup_due u _))

/-! ### Nothing left behind -/

/-- Complete after the tick, or held by another worker when the tick examined it. -/
def Settled (now : ℤ) (s t : Store) (k : CreditGrantScheduleOrigin) : Prop :=
  Complete t k ∨ Leased s k now

/-- An unfinished period of an inactive schedule, with its end still ahead. -/
def Unfinished (s : Store) (now : ℤ) (k : CreditGrantScheduleOrigin) : Prop :=
  ∃ row schedule, s.periods.lookup k = some row ∧ s.schedules.lookup k.scheduleId = some schedule ∧
    schedule.isActive = false ∧ row.status = .disbursing ∧ now < row.terms.periodEnd

structure LeavesNothing (now : ℤ) (s t : Store) : Prop where
  active : ∀ id schedule, s.schedules.lookup id = some schedule → schedule.isActive = true →
    Settled now s t (schedule.current id now)
  inactive : ∀ k, Unfinished s now k → Settled now s t k

/-- Every schedule that is due has its place on the page of the tick, unless nothing is to be done for
it, and an unfinished period of an inactive schedule is its current one. -/
structure Reached (now : ℤ) (s : Store) : Prop where
  active : ∀ id schedule, s.schedules.lookup id = some schedule → schedule.isActive = true →
    id ∈ s.page now ∨ Complete s (schedule.current id now) ∨ Leased s (schedule.current id now) now ∨
      schedule.current id now ∈ s.elapsed now
  inactive : ∀ k, Unfinished s now k → Leased s k now ∨ k.scheduleId ∈ s.page now ∧
    ∃ schedule, s.schedules.lookup k.scheduleId = some schedule ∧ k = schedule.current k.scheduleId now

theorem settled_active_iff {id : ScheduleId} {schedule : CreditSchedule}
    (hschedule : s.schedules.lookup id = some schedule) (hactive : schedule.isActive = true)
    (h : ∀ k, Complete t k ↔ Ends s now k) :
    Settled now s t (schedule.current id now) ↔
      id ∈ s.page now ∨ Complete s (schedule.current id now) ∨
        Leased s (schedule.current id now) now ∨ schedule.current id now ∈ s.elapsed now := by
  unfold Settled
  rw [h]
  constructor
  · rintro ((hcomplete | hmem | htaken) | hleased)
    · exact .inr (.inl hcomplete)
    · exact .inr (.inr (.inr hmem))
    · obtain ⟨_, _, _, hpage, _⟩ := htaken
      exact .inl hpage
    · exact .inr (.inr (.inl hleased))
  · rintro (hpage | hcomplete | hleased | hmem)
    · by_cases hclaim : Claimable s (schedule.current id now) now true
      · exact .inl (.inr (.inr ⟨schedule, hschedule, rfl, hpage, hactive ▸ hclaim⟩))
      · -- a period that cannot be claimed is there, complete or leased
        unfold Claimable at hclaim
        cases hrow : s.periods.lookup (schedule.current id now) with
        | none => exact absurd (.inl ⟨hrow, rfl⟩) hclaim
        | some row =>
          cases hstatus : row.status with
          | complete => exact .inl (.inl ⟨row, hrow, hstatus⟩)
          | disbursing =>
            by_cases hleased : row.Leased now
            · exact .inr ⟨row, hrow, hleased⟩
            · exact absurd (.inr ⟨row, hrow, hstatus, hleased⟩) hclaim
    · exact .inl (.inl hcomplete)
    · exact .inr hleased
    · exact .inl (.inr (.inl hmem))

theorem settled_inactive_iff (hk : Unfinished s now k) (h : ∀ k, Complete t k ↔ Ends s now k) :
    Settled now s t k ↔ Leased s k now ∨ k.scheduleId ∈ s.page now ∧
      ∃ schedule, s.schedules.lookup k.scheduleId = some schedule ∧
        k = schedule.current k.scheduleId now := by
  obtain ⟨row, schedule, hrow, hschedule, hinactive, hstatus, hend⟩ := hk
  unfold Settled
  rw [h]
  constructor
  · rintro ((hcomplete | hmem | htaken) | hleased)
    · obtain ⟨other, hother, hcomplete⟩ := hcomplete
      rw [hrow, Option.some.injEq] at hother
      rw [← hother, hstatus] at hcomplete
      cases hcomplete
    · obtain ⟨other, hother, _, hpast⟩ := mem_elapsed hmem
      rw [hrow, Option.some.injEq] at hother
      rw [hother] at hend
      omega
    · obtain ⟨x, hx, hcurrent, hpage, _⟩ := htaken
      exact .inr ⟨hpage, x, hx, hcurrent⟩
    · exact .inl hleased
  · rintro (hleased | ⟨hpage, x, hx, hcurrent⟩)
    · exact .inr hleased
    · by_cases hleased : row.Leased now
      · exact .inr ⟨row, hrow, hleased⟩
      · exact .inl (.inr (.inr ⟨x, hx, hcurrent, hpage, .inr ⟨row, hrow, hstatus, hleased⟩⟩))

/-- A tick whose budget lasted leaves nothing behind exactly when its page reaches all that is due. -/
theorem tick_leaves_nothing_iff (newV5 : String → String) (now : ℤ) (budget : ℕ) (s t : Store)
    (answers : List (Env × Outcome)) (stats : DisbursementStats)
    (hrun : alone (machine newV5) (disburseDue newV5 now budget) answers s = some (.ok stats, t))
    (hbudget : stats.budgetExhausted = false) : LeavesNothing now s t ↔ Reached now s := by
  have hends := (disburseDue_gives newV5 now budget s).alone hrun hbudget
  constructor
  · intro h
    exact ⟨fun id schedule hschedule hactive =>
      (settled_active_iff hschedule hactive hends).mp (h.active id schedule hschedule hactive),
      fun k hk => (settled_inactive_iff hk hends).mp (h.inactive k hk)⟩
  · intro h
    exact ⟨fun id schedule hschedule hactive =>
      (settled_active_iff hschedule hactive hends).mpr (h.active id schedule hschedule hactive),
      fun k hk => (settled_inactive_iff hk hends).mpr (h.inactive k hk)⟩

/-! ### A tick that began before the period -/

def weekday : ScheduleId := ⟨"s-1", by decide⟩

def paused : CreditSchedule where
  amount := ⟨1, by decide⟩
  recurrence := .daily
  expiry := .endOfPeriod
  targetKind := .selectedUsers
  targetUserIds := ["u-1"]
  targetOrgIds := []
  targetGroupIds := []
  scope := ⟨true, [], []⟩
  serviceLimits := []
  reason := none
  isActive := false
  createdBy := "admin"
  lastPeriodStart := none
  lastDisbursedAt := none
  skippedPeriods := 0

def nextDay : CreditGrantScheduleOrigin := ⟨weekday, 86400000⟩

/-- The period of the next day was claimed, its lease was released, and the schedule was paused. -/
def overnight : Store where
  schedules := (∅ : Collection _ _).insert weekday paused
  periods := (∅ : Collection _ _).insert nextDay
    { (paused.terms ⟨86400000, 172800000⟩ 86400000).period 86400000 with leaseExpiresAt := none }
  grants := ∅
  directory := ⟨∅, []⟩

/-- The tick that began a second before midnight. -/
def beforeMidnight : List (Env × Outcome) := List.replicate 6 (⟨86400000, none⟩, .done)

theorem period_left_behind :
    alone (machine id) (disburseDue id 86399000 1) beforeMidnight overnight =
        some (.ok { schedulesExamined := 1 }, overnight) ∧
      Unfinished overnight 86399000 nextDay ∧ ¬ Settled 86399000 overnight overnight nextDay := by
  refine ⟨rfl, ⟨_, _, rfl, rfl, rfl, rfl, by decide⟩, ?_⟩
  rintro (⟨row, hrow, hstatus⟩ | ⟨row, hrow, _, expiresAt, hlease, _⟩)
  · obtain rfl := Option.some.inj hrow
    cases hstatus
  · obtain rfl := Option.some.inj hrow
    cases hlease

theorem tick_before_midnight :
    LeavesNothing 86399000 overnight overnight ↔ Reached 86399000 overnight :=
  tick_leaves_nothing_iff id 86399000 1 overnight overnight beforeMidnight { schedulesExamined := 1 }
    rfl rfl

end NyxId.CreditSchedules
