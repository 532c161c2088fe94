import NyxId.UsageRollup.Invariant

/-!
What each write does to the invariant: one lemma for every kind of single-document write,
made by a replica whose batch is the current one.
-/

namespace NyxId.UsageRollup

open Interleave

variable {s : Store}

section

variable (hbatch : s.state.batch = none)

include hbatch

theorem hourlyIncrements_of_none : hourlyIncrements s = [] := by
  unfold hourlyIncrements
  rw [hbatch]

theorem currentDaily_of_none : currentDaily s = [] := by
  unfold currentDaily
  rw [hbatch]

/-- Between two batches, every folded row is in the hourly tier. -/
theorem hourlyEarlier_of_none (id : Id) (row : SourceRow) : hourlyEarlier s id row = folded row := by
  unfold hourlyEarlier
  rw [hbatch]
  simp

end

/-- The rest of the program writes a row. -/
theorem StoreInv.write (h : StoreInv s) {id : Id} {row : SourceRow}
    (hwritable : writable s.rows id row = true) :
    Kept s { s with rows := s.rows.insert id row } := by
  obtain ⟨hrow, hold⟩ := pending_of_writable h.marks hwritable
  have hhourly (id' : Id) (row' : SourceRow) (hpending : folded row' = false) :
      hourlyEarlier s id' row' = false := by
    unfold hourlyEarlier
    rw [hpending]
    rfl
  have hdaily (id' : Id) (row' : SourceRow) (hpending : folded row' = false) :
      dailyEarlier s id' row' = false := by
    unfold dailyEarlier
    rw [hpending]
    rfl
  refine ⟨⟨h.nonneg, ?_, fun batch hbatch => (h.batch batch hbatch).write h.marks hwritable, ?_, ?_,
    ?_, h.copies⟩, ?_⟩
  · intro other found hfound hsettled
    by_cases hother : other = id
    · subst hother
      rw [AList.lookup_insert] at hfound
      obtain rfl := Option.some.inj hfound
      simpa [folded] using hrow
    · rw [AList.lookup_insert_ne hother] at hfound
      exact h.marks other found hfound hsettled
  · refine h.hourly.congr fun key m => (rowSum_write ?_ fun old hlookup => ?_).symm
    · simp only [hhourly id row hrow, Bool.false_and]
    · simp only [hhourly id old (hold old hlookup).1, Bool.false_and]
  · refine h.daily.congr fun key m => (rowSum_write ?_ fun old hlookup => ?_).symm
    · simp only [hdaily id row hrow, Bool.false_and]
    · simp only [hdaily id old (hold old hlookup).1, Bool.false_and]
  · intro other found hfound hearlier
    by_cases hother : other = id
    · subst hother
      rw [AList.lookup_insert] at hfound
      obtain rfl := Option.some.inj hfound
      rw [show hourlyEarlier { s with rows := s.rows.insert other row } other row =
        hourlyEarlier s other row from rfl, hhourly other row hrow] at hearlier
      cases hearlier
    · rw [AList.lookup_insert_ne hother] at hfound
      exact h.summaries other found hfound hearlier
  · refine { Grows.refl s with
      rows := fun other found hfound hfolded => ?_
      batch := fun _ hbatch => Or.inl hbatch
      quiet := fun _ hbatch => ⟨hbatch, rfl, Or.inr ⟨id, row, hwritable, rfl⟩, Or.inl rfl⟩ }
    have hne : other ≠ id := by
      rintro rfl
      rw [(hold found hfound).1] at hfolded
      cases hfolded
    exact ⟨found, by rw [AList.lookup_insert_ne hne]; exact hfound, hfolded⟩

/-- Without a batch, the daily tier becomes ready when it holds every hourly summary. -/
theorem StoreInv.markReady (h : StoreInv s) (hbatch : s.state.batch = none)
    (hall : ∀ key summary, s.hourly.lookup key = some summary →
      pending summary.dailyPending = false) :
    Kept s { s with state := { s.state with dailyReady := true } } := by
  refine ⟨⟨h.nonneg, h.marks, fun batch hsome => ?_, h.hourly, ?_, h.summaries, ?_⟩, ?_⟩
  · rw [show s.state.batch = some batch from hsome] at hbatch
    cases hbatch
  · refine h.daily.congr fun key m => rowSum_congr fun id row hrow => ?_
    unfold dailyEarlier
    simp only [hbatch, Option.any_none, Bool.not_false, Bool.and_true, Bool.true_or]
    cases hfolded : folded row with
    | false => simp
    | true =>
      have hearlier : hourlyEarlier s id row = true := by
        unfold hourlyEarlier
        rw [hbatch, hfolded]
        rfl
      obtain ⟨summary, hsummary⟩ := h.summaries id row hrow hearlier
      have hcopied : copied s row.key = true := by
        unfold copied
        rw [hsummary, Option.any_some, hall row.key summary hsummary]
        rfl
      simp [hcopied]
  · intro _ key summary hsummary hpending
    rw [hall key summary hsummary] at hpending
    cases hpending
  · exact { Grows.refl s with
      ready := fun _ => rfl
      batch := fun batch hsome => Or.inl hsome
      quiet := fun _ _ => ⟨hbatch, rfl, Or.inl rfl, Or.inr hall⟩ }

/-- A published claim leaves what the summaries hold. -/
theorem StoreInv.publish (h : StoreInv s) (hbatch : s.state.batch = none)
    {batch : UsageRollupBatch} (hclaim : Claimable s batch) :
    Kept s { s with state := { s.state with batch := some batch } } := by
  have hraw : ∀ id row, s.rows.lookup id = some row → batch.hourlySources = false →
      inBatch batch id row = true → folded row = false := by
    intro id row hrow hkind hin
    unfold inBatch at hin
    simp only [hkind, Bool.false_eq_true, if_false] at hin
    have hpending := hclaim.pendingRows hkind id row (by simpa using hin) hrow
    unfold folded
    rw [hpending]
    rfl
  have hhours : ∀ row : SourceRow, batch.hourlySources = true → row.key ∈ batch.keys →
      copied s row.key = false := by
    intro row hkind hkey
    obtain ⟨summary, hsummary⟩ := (hclaim.found hkind).2 row.key hkey
    unfold copied
    rw [hsummary, Option.any_some, hclaim.pendingHours row.key summary hkind hkey hsummary]
    rfl
  have htierHourly := h.hourly
  have htierDaily := h.daily
  rw [hourlyIncrements_of_none hbatch] at htierHourly
  rw [currentDaily_of_none hbatch] at htierDaily
  refine ⟨⟨h.nonneg, h.marks, fun other hsome => ?_, ?_, ?_, ?_, ?_⟩, ?_⟩
  · obtain rfl := Option.some.inj hsome
    exact ⟨hclaim.sequence, hclaim.daily, hclaim.holds, hclaim.ready, hclaim.rows, hclaim.hours,
      hclaim.found⟩
  · refine (htierHourly.publish _).congr fun key m => rowSum_congr fun id row hrow => ?_
    unfold hourlyEarlier
    simp only [hbatch, Option.any_none, Option.any_some, Bool.not_false, Bool.and_true]
    cases hkind : batch.hourlySources with
    | true => simp
    | false =>
      cases hin : inBatch batch id row with
      | false => simp
      | true => simp [hraw id row hrow hkind hin]
  · refine (htierDaily.publish _).congr fun key m => rowSum_congr fun id row hrow => ?_
    have hcopied : copied { s with state := { s.state with batch := some batch } } row.key =
        copied s row.key := rfl
    unfold dailyEarlier
    simp only [hbatch, hcopied, Option.any_none, Option.any_some, Bool.not_false, Bool.and_true]
    cases hin : inBatch batch id row with
    | false => simp
    | true =>
      cases hkind : batch.hourlySources with
      | false => simp [hraw id row hrow hkind hin]
      | true =>
        have hready := hclaim.ready
        rw [hkind] at hready
        unfold inBatch at hin
        simp only [hkind, if_true, Bool.and_eq_true, decide_eq_true_eq] at hin
        rw [hready, hhours row hkind hin.2]
        simp
  · intro id row hrow hearlier
    refine h.summaries id row hrow ?_
    unfold hourlyEarlier at hearlier ⊢
    rw [hbatch, (Bool.and_eq_true_iff.mp hearlier).1]
    rfl
  · intro hready key summary hsummary hpending
    have hcopies := (h.copies hready key summary hsummary hpending).2
    rw [hourlyIncrements_of_none hbatch] at hcopies
    cases hcopies
  · exact { Grows.refl s with
      batch := fun other hsome => by rw [hbatch] at hsome; cases hsome
      quiet := fun _ hnone => (nomatch hnone) }

section

variable {batch : UsageRollupBatch}

theorem hourlyIncrements_of_raw (hbatch : s.state.batch = some batch)
    (hkind : batch.hourlySources = false) : hourlyIncrements s = batch.increments := by
  unfold hourlyIncrements
  rw [hbatch]
  simp only [hkind, Bool.false_eq_true, if_false]

theorem hourlyIncrements_of_hours (hbatch : s.state.batch = some batch)
    (hkind : batch.hourlySources = true) : hourlyIncrements s = [] := by
  unfold hourlyIncrements
  rw [hbatch]
  simp only [hkind, if_true]

theorem currentDaily_of_some (hbatch : s.state.batch = some batch) :
    currentDaily s = dailyIncrements batch.increments := by
  unfold currentDaily
  rw [hbatch]

/-- Later documents of a tier, as far as other writes rely on them. -/
def Later {K : Type} [DecidableEq K] (tier next : Collection K Summary) : Prop :=
  ∀ key summary, tier.lookup key = some summary → ∃ found,
    next.lookup key = some found ∧ summary.lastBatch ≤ found.lastBatch ∧
      (pending found.dailyPending = true → pending summary.dailyPending = true)

theorem later_insertSummary {K : Type} [DecidableEq K] (tier : Collection K Summary) (key : K) :
    Later tier (insertSummary tier key) := by
  intro other summary hsummary
  unfold insertSummary
  split
  · exact ⟨summary, hsummary, le_refl _, fun h => h⟩
  · rename_i hnone
    have hne : other ≠ key := by
      rintro rfl
      rw [hnone] at hsummary
      cases hsummary
    exact ⟨summary, by rw [AList.lookup_insert_ne hne]; exact hsummary, le_refl _, fun h => h⟩

theorem later_addIncrement {K : Type} [DecidableEq K] (sequence : ℤ) (complete : Bool)
    (increments : List (K × Measures)) (tier : Collection K Summary) (key : K) :
    Later tier (addIncrement sequence complete increments tier key) := by
  intro other summary hsummary
  unfold addIncrement
  split
  · rename_i found delta hfound hdelta
    split
    · rename_i hfence
      by_cases hother : other = key
      · subst hother
        rw [hsummary] at hfound
        obtain rfl := Option.some.inj hfound
        refine ⟨_, AList.lookup_insert tier, hfence.le, ?_⟩
        cases complete with
        | true => exact fun h => (nomatch h)
        | false => exact fun h => h
      · exact ⟨summary, by rw [AList.lookup_insert_ne hother]; exact hsummary, le_refl _, fun h => h⟩
    · exact ⟨summary, hsummary, le_refl _, fun h => h⟩
  · exact ⟨summary, hsummary, le_refl _, fun h => h⟩

/-- Another hourly tier while rows are folded. -/
theorem StoreInv.withHourly (h : StoreInv s) (hbatch : s.state.batch = some batch)
    (hkind : batch.hourlySources = false) {hourly : Collection HourKey Summary}
    (htier : Tier hourly
      (fun key m => rowSum s.rows (fun id row => hourlyEarlier s id row && row.key = key) m)
      (s.state.sequence + 1) batch.increments)
    (hlater : Later s.hourly hourly)
    (hcopies : ∀ key summary, hourly.lookup key = some summary →
      pending summary.dailyPending = true →
        summary.lastBatch ≤ s.state.sequence ∧ key ∈ batch.keys) :
    Kept s { s with hourly := hourly } := by
  have hok := h.batch batch hbatch
  have hready : s.state.dailyReady = true := by
    rw [hok.ready, hkind]
    rfl
  refine ⟨⟨h.nonneg, h.marks, fun other hsome => ?_, ?_, ?_, ?_, ?_⟩, ?_⟩
  · rw [show s.state.batch = some other from hsome] at hbatch
    obtain rfl := Option.some.inj hbatch
    exact ⟨hok.sequence, hok.daily, hok.holds, hok.ready, hok.rows, hok.hours,
      fun htrue => by rw [hkind] at htrue; cases htrue⟩
  · rw [show hourlyIncrements { s with hourly := hourly } = hourlyIncrements s from rfl,
      hourlyIncrements_of_raw hbatch hkind]
    exact htier
  · refine h.daily.congr fun key m => rowSum_congr fun id row _ => ?_
    unfold dailyEarlier
    simp only [hready, Bool.true_or, Bool.and_true]
  · intro id row hrow hearlier
    obtain ⟨summary, hsummary⟩ := h.summaries id row hrow hearlier
    obtain ⟨found, hfound, -⟩ := hlater row.key summary hsummary
    exact ⟨found, hfound⟩
  · intro _ key summary hsummary hpending
    rw [show hourlyIncrements { s with hourly := hourly } = hourlyIncrements s from rfl,
      hourlyIncrements_of_raw hbatch hkind]
    exact hcopies key summary hsummary hpending
  · exact { Grows.refl s with
      hourly := hlater
      batch := fun _ hsome => Or.inl hsome
      quiet := fun _ hnone => by
        rw [show s.state.batch = none from hnone] at hbatch
        cases hbatch }

/-- Another daily tier while a batch is applied. -/
theorem StoreInv.withDaily (h : StoreInv s) (hbatch : s.state.batch = some batch)
    {daily : Collection DayKey Summary}
    (htier : Tier daily
      (fun key m =>
        rowSum s.rows (fun id row => dailyEarlier s id row && row.key.dayKey = key) m)
      (s.state.sequence + 1) (currentDaily s))
    (hlater : Later s.daily daily) :
    Kept s { s with daily := daily } := by
  refine ⟨⟨h.nonneg, h.marks, fun other hsome => ?_, h.hourly, htier, h.summaries, h.copies⟩, ?_⟩
  · have hok := h.batch other hsome
    exact ⟨hok.sequence, hok.daily, hok.holds, hok.ready, hok.rows, hok.hours, hok.found⟩
  · exact { Grows.refl s with
      daily := fun key summary hsummary =>
        let ⟨found, hfound, hlast, _⟩ := hlater key summary hsummary
        ⟨found, hfound, hlast⟩
      batch := fun _ hsome => Or.inl hsome
      quiet := fun _ hnone => by
        rw [show s.state.batch = none from hnone] at hbatch
        cases hbatch }

theorem StoreInv.insertHourly (h : StoreInv s) (hbatch : s.state.batch = some batch)
    (hkind : batch.hourlySources = false) {key : HourKey} (hkey : key ∈ batch.keys) :
    Kept s { s with hourly := insertSummary s.hourly key } := by
  have hready : s.state.dailyReady = true := by
    rw [(h.batch batch hbatch).ready, hkind]
    rfl
  have htier := h.hourly
  have hcopies := h.copies hready
  rw [hourlyIncrements_of_raw hbatch hkind] at htier hcopies
  have hpositive : 0 < s.state.sequence + 1 := Int.lt_add_one_of_le h.nonneg
  refine h.withHourly hbatch hkind (htier.insert hpositive key) (later_insertSummary _ _) ?_
  intro other summary hsummary hpending
  unfold insertSummary at hsummary
  split at hsummary
  · exact hcopies other summary hsummary hpending
  · by_cases hother : other = key
    · subst hother
      rw [AList.lookup_insert] at hsummary
      obtain rfl := Option.some.inj hsummary
      exact ⟨h.nonneg, hkey⟩
    · rw [AList.lookup_insert_ne hother] at hsummary
      exact hcopies other summary hsummary hpending

theorem StoreInv.addHourly (h : StoreInv s) (hbatch : s.state.batch = some batch)
    (hkind : batch.hourlySources = false) (key : HourKey) :
    Kept s { s with
      hourly := addIncrement batch.sequence batch.daily batch.increments s.hourly key } := by
  have hok := h.batch batch hbatch
  have hready : s.state.dailyReady = true := by
    rw [hok.ready, hkind]
    rfl
  have htier := h.hourly
  have hcopies := h.copies hready
  rw [hourlyIncrements_of_raw hbatch hkind] at htier hcopies
  refine h.withHourly hbatch hkind ?_ (later_addIncrement _ _ _ _ _) ?_
  · rw [hok.sequence]
    exact htier.add (fun key m => hok.holds.deltaOf_nonneg key) _ key
  · intro other summary hsummary hpending
    unfold addIncrement at hsummary
    split at hsummary
    · split at hsummary
      · by_cases hother : other = key
        · subst hother
          rw [AList.lookup_insert] at hsummary
          obtain rfl := Option.some.inj hsummary
          rw [hok.daily] at hpending
          cases hpending
        · rw [AList.lookup_insert_ne hother] at hsummary
          exact hcopies other summary hsummary hpending
      · exact hcopies other summary hsummary hpending
    · exact hcopies other summary hsummary hpending

theorem StoreInv.insertDaily (h : StoreInv s) (hbatch : s.state.batch = some batch) (key : DayKey) :
    Kept s { s with daily := insertSummary s.daily key } :=
  h.withDaily hbatch (h.daily.insert (Int.lt_add_one_of_le h.nonneg) key) (later_insertSummary _ _)

theorem StoreInv.addDaily (h : StoreInv s) (hbatch : s.state.batch = some batch) (key : DayKey) :
    Kept s { s with
      daily := addIncrement batch.sequence false (dailyIncrements batch.increments) s.daily key } := by
  have hok := h.batch batch hbatch
  refine h.withDaily hbatch ?_ (later_addIncrement _ _ _ _ _)
  have htier := h.daily
  rw [currentDaily_of_some hbatch] at htier ⊢
  rw [hok.sequence]
  refine htier.add (fun key m => ?_) _ key
  rw [hok.holds.daily]
  exact clamp_nonneg rowSum_nonneg

theorem inBatch_of_raw (hkind : batch.hourlySources = false) (id : Id) (row : SourceRow) :
    inBatch batch id row = batch.rowIds.contains (.row id) := by
  unfold inBatch
  rw [hkind]
  rfl

/-- A claimed row is marked. -/
theorem StoreInv.markRow (h : StoreInv s) (hbatch : s.state.batch = some batch)
    (hkind : batch.hourlySources = false) {id : Id} {row : SourceRow}
    (hid : .row id ∈ batch.rowIds) (hrow : s.rows.lookup id = some row) :
    Kept s { s with rows := s.rows.insert id { row with rollupPending := some false } } := by
  have hok := h.batch batch hbatch
  have hin (row : SourceRow) : inBatch batch id row = true := by
    rw [inBatch_of_raw hkind]
    simpa using hid
  have hsettled : row.settled = true := by
    obtain ⟨other, found, heq, hfound, hsettled⟩ := hok.rows hkind _ hid
    cases heq
    rw [hrow] at hfound
    obtain rfl := Option.some.inj hfound
    exact hsettled
  have hhourly (row : SourceRow) : hourlyEarlier s id row = false := by
    unfold hourlyEarlier
    rw [hbatch, Option.any_some, hkind, hin]
    simp
  have hdaily (row : SourceRow) : dailyEarlier s id row = false := by
    unfold dailyEarlier
    rw [hbatch, Option.any_some, hin]
    simp
  have hlookup : ∀ other found,
      (s.rows.insert id { row with rollupPending := some false }).lookup other = some found →
        other = id ∧ found = { row with rollupPending := some false } ∨
          other ≠ id ∧ s.rows.lookup other = some found := by
    intro other found hfound
    by_cases hother : other = id
    · subst hother
      rw [AList.lookup_insert] at hfound
      exact Or.inl ⟨rfl, (Option.some.inj hfound).symm⟩
    · rw [AList.lookup_insert_ne hother] at hfound
      exact Or.inr ⟨hother, hfound⟩
  refine ⟨⟨h.nonneg, ?_, fun other hsome => ?_, ?_, ?_, ?_, h.copies⟩, ?_⟩
  · intro other found hfound hunsettled
    rcases hlookup other found hfound with ⟨rfl, rfl⟩ | ⟨-, hfound⟩
    · rw [show SourceRow.settled { row with rollupPending := some false } = row.settled from rfl,
        hsettled] at hunsettled
      cases hunsettled
    · exact h.marks other found hfound hunsettled
  · rw [show s.state.batch = some other from hsome] at hbatch
    obtain rfl := Option.some.inj hbatch
    refine ⟨hok.sequence, hok.daily, ⟨hok.holds.nodup, ?_, fun key m => ?_⟩, hok.ready, ?_, hok.hours,
      hok.found⟩
    · intro other found hfound hfoundIn
      rcases hlookup other found hfound with ⟨rfl, rfl⟩ | ⟨-, hfound⟩
      · exact hok.holds.covers other row hrow (hin row)
      · exact hok.holds.covers other found hfound hfoundIn
    · rw [hok.holds.deltas]
      refine congrArg _ (rowSum_insert ?_).symm
      unfold Collection.term
      rw [hrow, Option.elim_some]
      simp only [hin]
      rfl
    · intro hraw source hsource
      obtain ⟨other, found, rfl, hfound, hfoundSettled⟩ := hok.rows hraw source hsource
      by_cases hother : other = id
      · subst hother
        exact ⟨other, _, rfl, AList.lookup_insert s.rows, hsettled⟩
      · exact ⟨other, found, rfl, by rw [AList.lookup_insert_ne hother]; exact hfound, hfoundSettled⟩
  · refine h.hourly.congr fun key m => (rowSum_write ?_ fun old _ => ?_).symm
    · simp only [hhourly, Bool.false_and]
    · simp only [hhourly, Bool.false_and]
  · refine h.daily.congr fun key m => (rowSum_write ?_ fun old _ => ?_).symm
    · simp only [hdaily, Bool.false_and]
    · simp only [hdaily, Bool.false_and]
  · intro other found hfound hearlier
    rcases hlookup other found hfound with ⟨rfl, rfl⟩ | ⟨-, hfound⟩
    · have hnone := hhourly { row with rollupPending := some false }
      rw [show hourlyEarlier { s with rows := s.rows.insert other { row with
        rollupPending := some false } } other { row with rollupPending := some false } =
          hourlyEarlier s other { row with rollupPending := some false } from rfl, hnone] at hearlier
      cases hearlier
    · exact h.summaries other found hfound hearlier
  · refine { Grows.refl s with
      rows := fun other found hfound hfolded => ?_
      batch := fun _ hsome => Or.inl hsome
      quiet := fun _ hnone => by
        rw [show s.state.batch = none from hnone] at hbatch
        cases hbatch }
    by_cases hother : other = id
    · subst hother
      exact ⟨_, AList.lookup_insert s.rows, rfl⟩
    · exact ⟨found, by rw [AList.lookup_insert_ne hother]; exact hfound, hfolded⟩

/-- An hourly summary is marked as part of the daily tier. -/
theorem StoreInv.markHourly (h : StoreInv s) (hbatch : s.state.batch = some batch)
    (hkind : batch.hourlySources = true) {key : HourKey} {summary : Summary}
    (hkey : key ∈ batch.keys) (hsummary : s.hourly.lookup key = some summary) :
    Kept s { s with hourly := s.hourly.insert key { summary with dailyPending := some false } } := by
  have hok := h.batch batch hbatch
  have hready : s.state.dailyReady = false := by
    rw [hok.ready, hkind]
    rfl
  have hnone := hourlyIncrements_of_hours hbatch hkind
  have hlater : Later s.hourly (s.hourly.insert key { summary with dailyPending := some false }) := by
    intro other found hfound
    by_cases hother : other = key
    · subst hother
      rw [hsummary] at hfound
      obtain rfl := Option.some.inj hfound
      exact ⟨_, AList.lookup_insert s.hourly, le_refl _, fun h => (nomatch h)⟩
    · exact ⟨found, by rw [AList.lookup_insert_ne hother]; exact hfound, le_refl _, fun h => h⟩
  refine ⟨⟨h.nonneg, h.marks, fun other hsome => ?_, ?_, ?_, ?_, ?_⟩, ?_⟩
  · rw [show s.state.batch = some other from hsome] at hbatch
    obtain rfl := Option.some.inj hbatch
    refine ⟨hok.sequence, hok.daily, hok.holds, hok.ready, hok.rows, hok.hours, fun _ =>
      ⟨(hok.found hkind).1, fun other hother => ?_⟩⟩
    obtain ⟨found, hfound⟩ := (hok.found hkind).2 other hother
    obtain ⟨next, hnext, -⟩ := hlater other found hfound
    exact ⟨next, hnext⟩
  · have htier := h.hourly
    rw [hnone] at htier
    rw [show hourlyIncrements { s with
      hourly := s.hourly.insert key { summary with dailyPending := some false } } =
        hourlyIncrements s from rfl, hnone]
    constructor
    · intro other m
      have hvalue := htier.values other m
      by_cases hother : other = key
      · subst hother
        unfold measureOf share at hvalue ⊢
        rw [AList.lookup_insert]
        rw [hsummary] at hvalue
        exact hvalue
      · unfold measureOf share at hvalue ⊢
        rw [AList.lookup_insert_ne hother]
        exact hvalue
    · intro other found hfound
      by_cases hother : other = key
      · subst hother
        rw [AList.lookup_insert] at hfound
        obtain rfl := Option.some.inj hfound
        exact htier.fences other summary hsummary
      · rw [AList.lookup_insert_ne hother] at hfound
        exact htier.fences other found hfound
  · refine h.daily.congr fun day m => rowSum_congr fun id row _ => ?_
    unfold dailyEarlier
    simp only [hbatch, Option.any_some]
    by_cases hrow : row.key = key
    · have hin : inBatch batch id row = folded row := by
        unfold inBatch
        rw [hkind, if_pos rfl, hrow, decide_eq_true hkey, Bool.and_true]
      rw [hin]
      cases folded row <;> simp
    · have hcopied : copied { s with
          hourly := s.hourly.insert key { summary with dailyPending := some false } } row.key =
            copied s row.key := by
        unfold copied
        rw [AList.lookup_insert_ne hrow]
      rw [hcopied]
  · intro id row hrow hearlier
    obtain ⟨found, hfound⟩ := h.summaries id row hrow hearlier
    obtain ⟨next, hnext, -⟩ := hlater row.key found hfound
    exact ⟨next, hnext⟩
  · intro htrue
    rw [show s.state.dailyReady = true from htrue] at hready
    cases hready
  · exact { Grows.refl s with
      hourly := hlater
      batch := fun _ hsome => Or.inl hsome
      quiet := fun _ hnone => by
        rw [show s.state.batch = none from hnone] at hbatch
        cases hbatch }

/-- The writes that a finished batch leaves behind. -/
structure Written (store : Store) (batch : UsageRollupBatch) : Prop where
  hourly : batch.hourlySources = false → ∀ key ∈ batch.keys, ∃ summary,
    store.hourly.lookup key = some summary ∧ batch.sequence ≤ summary.lastBatch
  daily : batch.daily = true → ∀ key ∈ (dailyIncrements batch.increments).map Prod.fst,
    ∃ summary, store.daily.lookup key = some summary ∧ batch.sequence ≤ summary.lastBatch
  marks : ∀ source ∈ batch.rowIds, Marked store source

theorem Progress.written {work : Work} (h : Progress s batch work) (hhours : work.hourlyAdds = [])
    (hdays : work.dailyAdds = []) (hmarks : work.marks = []) : Written s batch where
  hourly hkind key hkey := by
    have hstart : key ∈ (startWork batch).hourlyAdds := by
      show key ∈ if batch.hourlySources then [] else batch.increments.map Prod.fst
      rw [hkind]
      exact hkey
    rcases h.hourlyAdds key hstart with hleft | hdone
    · rw [hhours] at hleft
      cases hleft
    · exact hdone
  daily hdaily key hkey := by
    have hstart : key ∈ (startWork batch).dailyAdds := by
      unfold startWork
      simpa only [hdaily, if_true] using hkey
    rcases h.dailyAdds key hstart with hleft | hdone
    · rw [hdays] at hleft
      cases hleft
    · exact hdone
  marks source hsource := by
    rcases h.marks source hsource with hleft | hdone
    · rw [hmarks] at hleft
      cases hleft
    · exact hdone

/-- A counted batch has marked the rows it counts. -/
theorem Written.folded (h : Written s batch) {id : Id} {row : SourceRow}
    (hrow : s.rows.lookup id = some row) (hin : inBatch batch id row = true) :
    folded row = true := by
  unfold inBatch at hin
  split at hin
  · exact (Bool.and_eq_true_iff.mp hin).1
  · obtain ⟨found, hfound, hmark⟩ := h.marks (.row id) (by simpa using hin)
    rw [hrow] at hfound
    obtain rfl := Option.some.inj hfound
    exact hmark

/-- The journal moves past a batch whose writes are all made. -/
theorem StoreInv.retire (h : StoreInv s) (hbatch : s.state.batch = some batch)
    (hwritten : Written s batch)
    (hprogress : Progress s batch noWork) :
    Kept s { s with state := { s.state with sequence := batch.sequence, batch := none } } := by
  have hok := h.batch batch hbatch
  have hearlierHourly (id : Id) (row : SourceRow) : hourlyEarlier s id row =
      (folded row && !(!batch.hourlySources && inBatch batch id row)) := by
    unfold hourlyEarlier
    rw [hbatch]
    rfl
  have hearlierDaily (id : Id) (row : SourceRow) : dailyEarlier s id row =
      (folded row && (s.state.dailyReady || copied s row.key) && !inBatch batch id row) := by
    unfold dailyEarlier
    rw [hbatch]
    rfl
  refine ⟨⟨?_, h.marks, fun other hsome => (nomatch hsome), ?_, ?_, ?_, ?_⟩, ?_⟩
  · rw [show (0 : ℤ) ≤ batch.sequence ↔ 0 ≤ s.state.sequence + 1 from by rw [hok.sequence]]
    have hnonneg := h.nonneg
    omega
  · have htier := h.hourly
    rw [show batch.sequence + 1 = s.state.sequence + 1 + 1 from by rw [hok.sequence]]
    cases hkind : batch.hourlySources with
    | false =>
      rw [hourlyIncrements_of_raw hbatch hkind] at htier
      refine htier.retire (fun key m =>
        rowSum s.rows (fun id row => inBatch batch id row && row.key = key) m)
        (fun key hkey => ?_) hok.holds.deltas (fun _ _ => rowSum_nonneg) fun key m => ?_
      · rw [← hok.sequence]
        exact hwritten.hourly hkind key hkey
      · rw [← rowSum_or]
        · refine rowSum_congr fun id row hrow => ?_
          rw [hearlierHourly, hkind]
          show (folded row && !false && _) = _
          cases hin : inBatch batch id row with
          | false => simp
          | true => simp [hwritten.folded hrow hin]
        · intro id row _ hchosen
          rw [hearlierHourly, hkind] at hchosen
          cases hin : inBatch batch id row with
          | false => rfl
          | true => simp [hin] at hchosen
    | true =>
      rw [hourlyIncrements_of_hours hbatch hkind] at htier
      refine htier.retire (fun _ _ => 0) (fun key hkey => (nomatch hkey))
        (fun key m => clamp_zero.symm) (fun _ _ => rowSum_nonneg) fun key m => ?_
      rw [add_zero]
      refine rowSum_congr fun id row _ => ?_
      rw [hearlierHourly, hkind]
      rfl
  · have htier := h.daily
    rw [currentDaily_of_some hbatch] at htier
    rw [show batch.sequence + 1 = s.state.sequence + 1 + 1 from by rw [hok.sequence]]
    refine htier.retire (fun key m =>
      rowSum s.rows (fun id row => inBatch batch id row && row.key.dayKey = key) m)
      (fun key hkey => ?_) (fun key m => hok.holds.daily key) (fun _ _ => rowSum_nonneg)
      fun key m => ?_
    · rw [← hok.sequence]
      exact hwritten.daily hok.daily key hkey
    · rw [← rowSum_or]
      · refine rowSum_congr fun id row hrow => ?_
        rw [hearlierDaily]
        show (folded row && (s.state.dailyReady || copied s row.key) && !false && _) = _
        cases hin : inBatch batch id row with
        | false => simp
        | true =>
          have hcounts : (s.state.dailyReady || copied s row.key) = true := by
            rw [hok.ready]
            cases hkind : batch.hourlySources with
            | false => rfl
            | true =>
              unfold inBatch at hin
              simp only [hkind, if_true, Bool.and_eq_true, decide_eq_true_eq] at hin
              obtain ⟨summary, hsummary, hmark⟩ := hwritten.marks (.hourly row.key) (by
                rw [hok.hours hkind]
                exact List.mem_map_of_mem hin.2)
              unfold copied
              rw [hsummary, Option.any_some, hmark]
              rfl
          simp [hwritten.folded hrow hin, hcounts]
      · intro id row _ hchosen
        rw [hearlierDaily] at hchosen
        cases hin : inBatch batch id row with
        | false => rfl
        | true => simp [hin] at hchosen
  · intro id row hrow hearlier
    have hfolded : folded row = true := (Bool.and_eq_true_iff.mp hearlier).1
    by_cases hin : (!batch.hourlySources && inBatch batch id row) = true
    · obtain ⟨hkind, hin⟩ := Bool.and_eq_true_iff.mp hin
      obtain ⟨summary, hsummary, -⟩ := hwritten.hourly (by simpa using hkind) row.key
        (hok.holds.covers id row hrow hin)
      exact ⟨summary, hsummary⟩
    · refine h.summaries id row hrow ?_
      rw [hearlierHourly, hfolded, eq_false_of_ne_true hin]
      rfl
  · intro hready key summary hsummary hpending
    obtain ⟨hlast, hkey⟩ := h.copies hready key summary hsummary hpending
    have hkind : batch.hourlySources = false := by
      have hflag := hok.ready
      rw [show s.state.dailyReady = true from hready] at hflag
      simpa using hflag
    rw [hourlyIncrements_of_raw hbatch hkind] at hkey
    obtain ⟨found, hfound, hle⟩ := hwritten.hourly hkind key hkey
    rw [show s.hourly.lookup key = some summary from hsummary] at hfound
    obtain rfl := Option.some.inj hfound
    rw [hok.sequence] at hle
    omega
  · exact { Grows.refl s with
      sequence := by
        show s.state.sequence ≤ batch.sequence
        rw [hok.sequence]
        omega
      batch := fun other hsome => by
        rw [hbatch] at hsome
        obtain rfl := Option.some.inj hsome
        exact Or.inr ⟨le_refl _, hprogress.hourlyInserts, hprogress.hourlyAdds,
          hprogress.dailyInserts, hprogress.dailyAdds, hprogress.marks, hprogress.within⟩
      quiet := fun hsame => by
        have hsequence := hok.sequence
        have hequal : batch.sequence = s.state.sequence := hsame
        omega }

end

end NyxId.UsageRollup
