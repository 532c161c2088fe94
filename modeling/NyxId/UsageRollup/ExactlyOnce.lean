import NyxId.UsageRollup.Steps
import Mathlib.Logic.Relation

/-!
The fold counts every row exactly once. Each step of a replica keeps the invariant, for a
replica that helps a batch already finished because none of its writes has an effect any
more; at the end of every batch the summaries hold the marked rows.
-/

namespace NyxId.UsageRollup

open Interleave

section

variable {s : Store} {batch : UsageRollupBatch} {work : Work}

theorem lookup_insertSummary_self {K : Type} [DecidableEq K] (tier : Collection K Summary) (key : K) :
    ∃ summary, (insertSummary tier key).lookup key = some summary := by
  unfold insertSummary
  split
  · rename_i summary hsummary
    exact ⟨summary, hsummary⟩
  · exact ⟨_, AList.lookup_insert tier⟩

/-- A summary that takes its increment has the number of the batch, or already had a later one. -/
theorem lookup_addIncrement_self {K : Type} [DecidableEq K] {sequence : ℤ} {complete : Bool}
    {increments : List (K × Measures)} {tier : Collection K Summary} {key : K} {summary : Summary}
    (hsummary : tier.lookup key = some summary) (hkey : key ∈ increments.map Prod.fst) :
    ∃ found, (addIncrement sequence complete increments tier key).lookup key = some found ∧
      sequence ≤ found.lastBatch := by
  have hdelta : ∃ delta, increments.lookup key = some delta := by
    cases hlookup : increments.lookup key with
    | none => exact absurd hkey (lookup_eq_none_iff.mp hlookup)
    | some delta => exact ⟨delta, rfl⟩
  obtain ⟨delta, hdelta⟩ := hdelta
  unfold addIncrement
  rw [hsummary, hdelta]
  by_cases hfence : summary.lastBatch < sequence
  · refine ⟨⟨addMeasures summary.measures delta, sequence,
      if complete then some false else summary.dailyPending⟩, ?_, le_refl sequence⟩
    simp only [if_pos hfence]
    exact AList.lookup_insert tier
  · refine ⟨summary, ?_, not_lt.mp hfence⟩
    simp only [if_neg hfence]
    exact hsummary

theorem addIncrement_of_le {K : Type} [DecidableEq K] {sequence : ℤ} {complete : Bool}
    {increments : List (K × Measures)} {tier : Collection K Summary} {key : K} {summary : Summary}
    (hsummary : tier.lookup key = some summary) (hle : sequence ≤ summary.lastBatch) :
    addIncrement sequence complete increments tier key = tier := by
  unfold addIncrement
  rw [hsummary]
  cases increments.lookup key with
  | none => rfl
  | some delta => exact if_neg (not_lt.mpr hle)

theorem markSource_of_marked {source : SourceId} (h : Marked s source) : markSource s source = s := by
  cases source with
  | row id =>
    obtain ⟨row, hrow, hfolded⟩ := h
    have hpending : pending row.rollupPending = false := by simpa [folded] using hfolded
    unfold markSource
    simp only [hrow, hpending, Bool.false_eq_true, if_false]
  | hourly key =>
    obtain ⟨summary, hsummary, hpending⟩ := h
    unfold markSource
    simp only [hsummary, hpending, Bool.false_eq_true, if_false]

theorem progress_startWork (s : Store) (batch : UsageRollupBatch) :
    Progress s batch (startWork batch) where
  hourlyInserts _ h := Or.inl h
  hourlyAdds _ h := Or.inl h
  dailyInserts _ h := Or.inl h
  dailyAdds _ h := Or.inl h
  marks _ h := Or.inl h
  within := ⟨fun _ h => h, fun _ h => h, fun _ h => h, fun _ h => h, fun _ h => h⟩

theorem erase_or {α : Type} [DecidableEq α] {items : List α} {a other : α} {p : α → Prop}
    (h : other ∈ items ∨ p other) (hp : p a) : other ∈ items.erase a ∨ p other := by
  by_cases heq : other = a
  · exact Or.inr (heq ▸ hp)
  · exact h.imp_left (List.mem_erase_of_ne heq).mpr

theorem Progress.insertHourly (h : Progress s batch work) {key : HourKey}
    (hdone : ∃ summary, s.hourly.lookup key = some summary) :
    Progress s batch { work with hourlyInserts := work.hourlyInserts.erase key } :=
  { h with
    hourlyInserts := fun other hother =>
      erase_or (p := fun other => ∃ summary, s.hourly.lookup other = some summary)
        (h.hourlyInserts other hother) hdone
    within := ⟨fun _ hx => h.within.1 (List.mem_of_mem_erase hx), h.within.2⟩ }

theorem Progress.addHourly (h : Progress s batch work) {key : HourKey}
    (hdone : ∃ summary, s.hourly.lookup key = some summary ∧ batch.sequence ≤ summary.lastBatch) :
    Progress s batch { work with hourlyAdds := work.hourlyAdds.erase key } :=
  { h with
    hourlyAdds := fun other hother =>
      erase_or (p := fun other => ∃ summary, s.hourly.lookup other = some summary ∧
        batch.sequence ≤ summary.lastBatch) (h.hourlyAdds other hother) hdone
    within := ⟨h.within.1, fun _ hx => h.within.2.1 (List.mem_of_mem_erase hx), h.within.2.2⟩ }

theorem Progress.insertDaily (h : Progress s batch work) {key : DayKey}
    (hdone : ∃ summary, s.daily.lookup key = some summary) :
    Progress s batch { work with dailyInserts := work.dailyInserts.erase key } :=
  { h with
    dailyInserts := fun other hother =>
      erase_or (p := fun other => ∃ summary, s.daily.lookup other = some summary)
        (h.dailyInserts other hother) hdone
    within := ⟨h.within.1, h.within.2.1, fun _ hx => h.within.2.2.1 (List.mem_of_mem_erase hx),
      h.within.2.2.2⟩ }

theorem Progress.addDaily (h : Progress s batch work) {key : DayKey}
    (hdone : ∃ summary, s.daily.lookup key = some summary ∧ batch.sequence ≤ summary.lastBatch) :
    Progress s batch { work with dailyAdds := work.dailyAdds.erase key } :=
  { h with
    dailyAdds := fun other hother =>
      erase_or (p := fun other => ∃ summary, s.daily.lookup other = some summary ∧
        batch.sequence ≤ summary.lastBatch) (h.dailyAdds other hother) hdone
    within := ⟨h.within.1, h.within.2.1, h.within.2.2.1,
      fun _ hx => h.within.2.2.2.1 (List.mem_of_mem_erase hx), h.within.2.2.2.2⟩ }

theorem Progress.mark (h : Progress s batch work) {source : SourceId} (hdone : Marked s source) :
    Progress s batch { work with marks := work.marks.erase source } :=
  { h with
    marks := fun other hother => erase_or (p := Marked s) (h.marks other hother) hdone
    within := ⟨h.within.1, h.within.2.1, h.within.2.2.1, h.within.2.2.2.1,
      fun _ hx => h.within.2.2.2.2 (List.mem_of_mem_erase hx)⟩ }

/-- With the updates and the marks made, nothing of the batch is left. -/
theorem Progress.finished (h : Progress s batch work) (hhours : work.hourlyAdds = [])
    (hdays : work.dailyAdds = []) (hmarks : work.marks = []) : Progress s batch noWork where
  hourlyInserts key hkey := by
    rcases h.hourlyAdds key hkey with hleft | ⟨summary, hsummary, -⟩
    · rw [hhours] at hleft
      cases hleft
    · exact Or.inr ⟨summary, hsummary⟩
  hourlyAdds key hkey := (h.hourlyAdds key hkey).imp_left fun hleft => by
    rw [hhours] at hleft
    cases hleft
  dailyInserts key hkey := by
    rcases h.dailyAdds key hkey with hleft | ⟨summary, hsummary, -⟩
    · rw [hdays] at hleft
      cases hleft
    · exact Or.inr ⟨summary, hsummary⟩
  dailyAdds key hkey := (h.dailyAdds key hkey).imp_left fun hleft => by
    rw [hdays] at hleft
    cases hleft
  marks source hsource := (h.marks source hsource).imp_left fun hleft => by
    rw [hmarks] at hleft
    cases hleft
  within := ⟨List.nil_subset _, List.nil_subset _, List.nil_subset _, List.nil_subset _,
    List.nil_subset _⟩

theorem raw_of_startWork {key : HourKey} (hkey : key ∈ (startWork batch).hourlyInserts) :
    batch.hourlySources = false ∧ key ∈ batch.keys := by
  have hstart : key ∈ if batch.hourlySources then [] else batch.increments.map Prod.fst := hkey
  split at hstart
  · cases hstart
  · rename_i hkind
    exact ⟨by simpa using hkind, hstart⟩

theorem mem_dailyIncrements_of_startWork {key : DayKey}
    (hkey : key ∈ (startWork batch).dailyInserts) :
    key ∈ (dailyIncrements batch.increments).map Prod.fst := by
  have hstart : key ∈ if batch.daily then (dailyIncrements batch.increments).map Prod.fst else [] :=
    hkey
  split at hstart
  · exact hstart
  · cases hstart

end

section

variable {world : World} {replica : ℕ}

theorem Inv.to (h : Inv world) {t : Store} {phase : Phase} (hstep : Kept world.store t)
    (hphase : PhaseOk t phase) : Inv (world.to replica t phase) := by
  refine ⟨hstep.1, fun other => ?_⟩
  show PhaseOk t (Function.update world.phase replica phase other)
  by_cases hother : other = replica
  · subst hother
    rw [Function.update_self]
    exact hphase
  · rw [Function.update_of_ne hother]
    exact (h.phases other).mono h.store.marks hstep.2

theorem Inv.same (h : Inv world) {phase : Phase} (hphase : PhaseOk world.store phase) :
    Inv (world.to replica world.store phase) := h.to ⟨h.store, Grows.refl _⟩ hphase

variable (world replica) in
/-- The step of a replica that leaves a store and a phase. -/
abbrev Advances (t : Store) (phase : Phase) : Prop :=
  Inv (world.to replica t phase) ∧ Grows world.store t

/-- A batch that a replica applies is the current one, or all its writes are made. -/
theorem Inv.applying (h : Inv world) {batch : UsageRollupBatch} {work : Work}
    (hphase : world.phase replica = .applying batch work) :
    Progress world.store batch work ∧
      (world.store.state.batch = some batch ∨ Retired world.store batch) := by
  have hok := h.phases replica
  rw [hphase] at hok
  exact hok

/-- A write of a batch keeps the invariant when it does so for the current batch and has
no effect for a finished one. -/
theorem Inv.apply (h : Inv world) {batch : UsageRollupBatch} {work next : Work} {t : Store}
    (hphase : world.phase replica = .applying batch work)
    (hcurrent : world.store.state.batch = some batch → Kept world.store t)
    (hretired : Retired world.store batch → t = world.store)
    (hprogress : Progress t batch work → Progress t batch next) :
    Advances world replica t (.applying batch next) := by
  obtain ⟨hold, hstate⟩ := h.applying hphase
  have hstep : Kept world.store t := by
    rcases hstate with hsome | hdone
    · exact hcurrent hsome
    · rw [hretired hdone]
      exact ⟨h.store, Grows.refl _⟩
  refine ⟨h.to hstep ⟨hprogress (hold.mono hstep.2), ?_⟩, hstep.2⟩
  rcases hstate with hsome | hdone
  · exact hstep.2.batch batch hsome
  · exact Or.inr (hdone.mono hstep.2)

theorem inv_insertHourly (h : Inv world) {batch : UsageRollupBatch} {work : Work} {key : HourKey}
    (hphase : world.phase replica = .applying batch work) (hkey : key ∈ work.hourlyInserts) :
    Advances world replica { world.store with hourly := insertSummary world.store.hourly key }
      (.applying batch { work with hourlyInserts := work.hourlyInserts.erase key }) := by
  have hstart := (h.applying hphase).1.within.1 hkey
  obtain ⟨hkind, hmem⟩ := raw_of_startWork hstart
  refine h.apply hphase (fun hsome => h.store.insertHourly hsome hkind hmem) (fun hdone => ?_)
    fun hprogress => hprogress.insertHourly (lookup_insertSummary_self _ key)
  rcases hdone.2.hourlyInserts key hstart with hleft | ⟨summary, hsummary⟩
  · cases hleft
  · rw [lookup_insertSummary_of_some hsummary]

theorem inv_addHourly (h : Inv world) {batch : UsageRollupBatch} {work : Work} {key : HourKey}
    (hphase : world.phase replica = .applying batch work) (hinserted : work.hourlyInserts = [])
    (hkey : key ∈ work.hourlyAdds) :
    Advances world replica { world.store with
        hourly := addIncrement batch.sequence batch.daily batch.increments world.store.hourly key }
      (.applying batch { work with hourlyAdds := work.hourlyAdds.erase key }) := by
  have hold := (h.applying hphase).1
  have hstart := hold.within.2.1 hkey
  obtain ⟨hkind, hmem⟩ := raw_of_startWork hstart
  have hfound : ∃ summary, world.store.hourly.lookup key = some summary := by
    rcases hold.hourlyInserts key hstart with hleft | hfound
    · rw [hinserted] at hleft
      cases hleft
    · exact hfound
  obtain ⟨summary, hsummary⟩ := hfound
  refine h.apply hphase (fun hsome => h.store.addHourly hsome hkind key) (fun hdone => ?_)
    fun hprogress => hprogress.addHourly (lookup_addIncrement_self hsummary hmem)
  rcases hdone.2.hourlyAdds key hstart with hleft | ⟨found, hfound, hle⟩
  · cases hleft
  · rw [addIncrement_of_le hfound hle]

theorem inv_insertDaily (h : Inv world) {batch : UsageRollupBatch} {work : Work} {key : DayKey}
    (hphase : world.phase replica = .applying batch work) (hkey : key ∈ work.dailyInserts) :
    Advances world replica { world.store with daily := insertSummary world.store.daily key }
      (.applying batch { work with dailyInserts := work.dailyInserts.erase key }) := by
  have hstart := (h.applying hphase).1.within.2.2.1 hkey
  refine h.apply hphase (fun hsome => h.store.insertDaily hsome key) (fun hdone => ?_)
    fun hprogress => hprogress.insertDaily (lookup_insertSummary_self _ key)
  rcases hdone.2.dailyInserts key hstart with hleft | ⟨summary, hsummary⟩
  · cases hleft
  · rw [lookup_insertSummary_of_some hsummary]

theorem inv_addDaily (h : Inv world) {batch : UsageRollupBatch} {work : Work} {key : DayKey}
    (hphase : world.phase replica = .applying batch work) (hinserted : work.dailyInserts = [])
    (hkey : key ∈ work.dailyAdds) :
    Advances world replica { world.store with
        daily := addIncrement batch.sequence false (dailyIncrements batch.increments)
          world.store.daily key }
      (.applying batch { work with dailyAdds := work.dailyAdds.erase key }) := by
  have hold := (h.applying hphase).1
  have hstart := hold.within.2.2.2.1 hkey
  have hfound : ∃ summary, world.store.daily.lookup key = some summary := by
    rcases hold.dailyInserts key hstart with hleft | hfound
    · rw [hinserted] at hleft
      cases hleft
    · exact hfound
  obtain ⟨summary, hsummary⟩ := hfound
  refine h.apply hphase (fun hsome => h.store.addDaily hsome key) (fun hdone => ?_)
    fun hprogress => hprogress.addDaily
      (lookup_addIncrement_self hsummary (mem_dailyIncrements_of_startWork hstart))
  rcases hdone.2.dailyAdds key hstart with hleft | ⟨found, hfound, hle⟩
  · cases hleft
  · rw [addIncrement_of_le hfound hle]

theorem pending_eq_false_of_not {mark : Option Bool} (h : ¬ pending mark = true) :
    pending mark = false := eq_false_of_ne_true h

theorem inv_mark (h : Inv world) {batch : UsageRollupBatch} {work : Work} {source : SourceId}
    (hphase : world.phase replica = .applying batch work) (hsource : source ∈ work.marks) :
    Advances world replica (markSource world.store source)
      (.applying batch { work with marks := work.marks.erase source }) := by
  have hmem := (h.applying hphase).1.within.2.2.2.2 hsource
  have hretired : Retired world.store batch → markSource world.store source = world.store := by
    intro hdone
    rcases hdone.2.marks source hmem with hleft | hmarked
    · cases hleft
    · exact markSource_of_marked hmarked
  -- the current batch marks sources that it has read
  have hcurrent : world.store.state.batch = some batch →
      Kept world.store (markSource world.store source) ∧
        Marked (markSource world.store source) source := by
    intro hsome
    have hok := h.store.batch batch hsome
    cases hkind : batch.hourlySources with
    | false =>
      obtain ⟨id, row, rfl, hrow, -⟩ := hok.rows hkind source hmem
      by_cases hpending : pending row.rollupPending = true
      · have hmark : markSource world.store (.row id) = { world.store with
            rows := world.store.rows.insert id { row with rollupPending := some false } } := by
          unfold markSource
          simp only [hrow, hpending, if_true]
        rw [hmark]
        exact ⟨h.store.markRow hsome hkind hmem hrow, _, AList.lookup_insert _, rfl⟩
      · have hmarked : Marked world.store (.row id) :=
          ⟨row, hrow, by simp [folded, pending_eq_false_of_not hpending]⟩
        rw [markSource_of_marked hmarked]
        exact ⟨⟨h.store, Grows.refl _⟩, hmarked⟩
    | true =>
      rw [hok.hours hkind] at hmem
      obtain ⟨key, hkey, rfl⟩ := List.mem_map.mp hmem
      obtain ⟨summary, hsummary⟩ := (hok.found hkind).2 key hkey
      by_cases hpending : pending summary.dailyPending = true
      · have hmark : markSource world.store (.hourly key) = { world.store with
            hourly := world.store.hourly.insert key { summary with dailyPending := some false } } := by
          unfold markSource
          simp only [hsummary, hpending, if_true]
        rw [hmark]
        exact ⟨h.store.markHourly hsome hkind hkey hsummary, _, AList.lookup_insert _, rfl⟩
      · have hmarked : Marked world.store (.hourly key) :=
          ⟨summary, hsummary, pending_eq_false_of_not hpending⟩
        rw [markSource_of_marked hmarked]
        exact ⟨⟨h.store, Grows.refl _⟩, hmarked⟩
  have hmarked : Marked (markSource world.store source) source := by
    rcases (h.applying hphase).2 with hsome | hdone
    · exact (hcurrent hsome).2
    · rw [hretired hdone]
      rcases hdone.2.marks source hmem with hleft | hmarked
      · cases hleft
      · exact hmarked
  exact h.apply hphase (fun hsome => (hcurrent hsome).1) hretired fun hprogress =>
    hprogress.mark hmarked

theorem inv_advance (h : Inv world) {batch : UsageRollupBatch} {work : Work}
    (hphase : world.phase replica = .applying batch work) (hhours : work.hourlyAdds = [])
    (hdays : work.dailyAdds = []) (hmarks : work.marks = []) :
    Advances world replica (retire world.store batch) .idle := by
  obtain ⟨hold, hstate⟩ := h.applying hphase
  rcases hstate with hsome | hdone
  · have hretire : retire world.store batch = { world.store with
        state := { world.store.state with sequence := batch.sequence, batch := none } } := by
      unfold retire
      rw [hsome, Option.any_some, decide_eq_true rfl, if_pos rfl]
    rw [hretire]
    have hstep := h.store.retire hsome (hold.written hhours hdays hmarks)
      (hold.finished hhours hdays hmarks)
    exact ⟨h.to hstep trivial, hstep.2⟩
  · -- a finished batch is not the one in the journal
    have hretire : retire world.store batch = world.store := by
      unfold retire
      refine if_neg fun hany => ?_
      cases hcurrent : world.store.state.batch with
      | none =>
        rw [hcurrent] at hany
        cases hany
      | some current =>
        rw [hcurrent] at hany
        have hsame : current.sequence = batch.sequence := of_decide_eq_true hany
        have hsequence := (h.store.batch current hcurrent).sequence
        have hle := hdone.1
        omega
    rw [hretire]
    exact ⟨h.same trivial, Grows.refl _⟩

theorem unclaimed_iff {store : Store} {current : UsageRollupState} :
    unclaimed store current = true ↔ Fresh store current := by
  unfold unclaimed Fresh
  simp only [Bool.and_eq_true, decide_eq_true_eq, Option.isNone_iff_eq_none]

/-- Hourly summaries that are claimed for the daily tier. -/
theorem claimable_bootstrapBatch {store : Store} (h : StoreInv store) {current : UsageRollupState}
    {keys : List HourKey} (hfresh : Fresh store current) (hkeys : bootstrapSources store keys = true)
    (hne : keys ≠ []) : Claimable store (bootstrapBatch store current keys) := by
  obtain ⟨hkeys, -⟩ := Bool.and_eq_true_iff.mp hkeys
  obtain ⟨hkeys, -⟩ := Bool.and_eq_true_iff.mp hkeys
  obtain ⟨hall, hnodup⟩ := Bool.and_eq_true_iff.mp hkeys
  have hnodup : keys.Nodup := of_decide_eq_true hnodup
  have hfound : ∀ key ∈ keys, ∃ summary, store.hourly.lookup key = some summary ∧
      pending summary.dailyPending = true := by
    intro key hkey
    have hany := List.all_eq_true.mp hall key hkey
    cases hsummary : store.hourly.lookup key with
    | none =>
      rw [hsummary] at hany
      cases hany
    | some summary =>
      rw [hsummary] at hany
      exact ⟨summary, rfl, hany⟩
  have hincrements : (bootstrapBatch store current keys).increments =
      keys.map fun key => (key, fun m => measureOf store.hourly key m) := by
    show (keys.filterMap fun key => (store.hourly.lookup key).map fun summary =>
      (key, summary.measures)) = _
    rw [← List.filterMap_eq_map]
    refine List.filterMap_congr fun key hkey => ?_
    obtain ⟨summary, hsummary, -⟩ := hfound key hkey
    simp only [Function.comp_apply, measureOf, hsummary, Option.elim_some, Option.map_some]
  have hfst : (bootstrapBatch store current keys).increments.map Prod.fst = keys := by
    rw [hincrements, List.map_map]
    exact List.map_id keys
  have hkeysOf : (bootstrapBatch store current keys).keys = keys := hfst
  have hin (id : Id) (row : SourceRow) : inBatch (bootstrapBatch store current keys) id row =
      (folded row && decide (row.key ∈ keys)) := by
    unfold inBatch
    rw [hkeysOf]
    rfl
  have hearlier := hourlyEarlier_of_none hfresh.2
  have hnone := hourlyIncrements_of_none hfresh.2
  have hready : store.state.dailyReady = false := by
    by_contra hready
    rw [Bool.not_eq_false] at hready
    obtain ⟨key, rest, hcons⟩ := List.exists_cons_of_ne_nil hne
    obtain ⟨summary, hsummary, hpending⟩ := hfound key (by rw [hcons]; exact List.mem_cons_self)
    have hmem := (h.copies hready key summary hsummary hpending).2
    rw [hnone] at hmem
    cases hmem
  refine { sequence := ?_, daily := rfl, holds := ⟨?_, ?_, ?_⟩, ready := ?_, rows := ?_, hours := ?_,
           found := ?_, pendingRows := ?_, pendingHours := ?_ }
  · show current.sequence + 1 = _
    rw [hfresh.1]
  · rw [hfst]
    exact hnodup
  · intro id row hrow hchosen
    rw [hin] at hchosen
    rw [hfst]
    exact of_decide_eq_true (Bool.and_eq_true_iff.mp hchosen).2
  · intro key m
    rw [hincrements, deltaOf_map hnodup]
    split
    · rename_i hkey
      rw [h.hourly.values key m]
      have hshare : share store.hourly (store.state.sequence + 1) (hourlyIncrements store) key m = 0 := by
        rw [hnone]
        exact ite_self _
      rw [hshare, add_zero]
      refine congrArg _ (rowSum_congr fun id row _ => ?_)
      rw [hearlier, hin]
      by_cases hrow : row.key = key
      · rw [hrow, decide_eq_true hkey, Bool.and_true]
      · rw [decide_eq_false hrow, Bool.and_false, Bool.and_false]
    · rename_i hkey
      rw [rowSum_eq_zero, clamp_zero]
      intro id row _
      rw [hin]
      by_cases hrow : row.key = key
      · rw [hrow, decide_eq_false hkey, Bool.and_false, Bool.false_and]
      · rw [decide_eq_false hrow, Bool.and_false]
  · rw [hready]
    rfl
  · intro hkind
    cases hkind
  · intro _
    rw [hkeysOf]
    rfl
  · intro _
    rw [hkeysOf]
    exact ⟨hne, fun key hkey =>
      let ⟨summary, hsummary, _⟩ := hfound key hkey
      ⟨summary, hsummary⟩⟩
  · intro hkind
    cases hkind
  · intro key summary _ hkey hsummary
    rw [hkeysOf] at hkey
    obtain ⟨found, hfound, hpending⟩ := hfound key hkey
    rw [hsummary] at hfound
    obtain rfl := Option.some.inj hfound
    exact hpending

/-- Rows that are claimed, with the increments computed from them. -/
theorem claimable_rawBatch {store : Store} {current : UsageRollupState} {ids : List Id}
    (hfresh : Fresh store current) (hready : store.state.dailyReady = true)
    (hids : ∀ id ∈ ids, ∃ row, store.rows.lookup id = some row ∧ row.settled = true ∧
      pending row.rollupPending = true) : Claimable store (rawBatch store current ids) := by
  have hmem (id : Id) : SourceId.row id ∈ (rawBatch store current ids).rowIds ↔ id ∈ ids := by
    show SourceId.row id ∈ ids.map SourceId.row ↔ _
    constructor
    · intro h
      obtain ⟨other, hother, heq⟩ := List.mem_map.mp h
      cases heq
      exact hother
    · exact fun h => List.mem_map_of_mem h
  have hin : inBatch (rawBatch store current ids) = fun id _ => ids.contains id := by
    funext id row
    rw [inBatch_of_raw rfl, Bool.eq_iff_iff, List.contains_iff_mem, List.contains_iff_mem]
    exact hmem id
  refine { sequence := ?_, daily := rfl, holds := ?_, ready := hready, rows := ?_, hours := ?_,
           found := ?_, pendingRows := ?_, pendingHours := ?_ }
  · show current.sequence + 1 = _
    rw [hfresh.1]
  · rw [hin]
    exact holds_rawIncrements ids
  · intro _ source hsource
    obtain ⟨id, hid, rfl⟩ := List.mem_map.mp hsource
    obtain ⟨row, hrow, hsettled, -⟩ := hids id hid
    exact ⟨id, row, rfl, hrow, hsettled⟩
  · intro hkind
    cases hkind
  · intro hkind
    cases hkind
  · intro _ id row hid hrow
    obtain ⟨found, hfound, -, hpending⟩ := hids id ((hmem id).mp hid)
    rw [hrow] at hfound
    obtain rfl := Option.some.inj hfound
    exact hpending
  · intro key summary hkind
    cases hkind

theorem claimable_rows {store : Store} {cutoff : Time} {ids : List Id}
    (h : claimable store cutoff ids = true) : ∀ id ∈ ids, ∃ row, store.rows.lookup id = some row ∧
      row.settled = true ∧ pending row.rollupPending = true := by
  intro id hid
  unfold claimable at h
  obtain ⟨h, -⟩ := Bool.and_eq_true_iff.mp h
  obtain ⟨h, -⟩ := Bool.and_eq_true_iff.mp h
  obtain ⟨hall, -⟩ := Bool.and_eq_true_iff.mp h
  have hany := List.all_eq_true.mp hall id hid
  cases hrow : store.rows.lookup id with
  | none =>
    rw [hrow] at hany
    cases hany
  | some row =>
    rw [hrow] at hany
    obtain ⟨hfilter, -⟩ := Bool.and_eq_true_iff.mp hany
    obtain ⟨hpending, hsettled⟩ := Bool.and_eq_true_iff.mp hfilter
    exact ⟨row, rfl, hsettled, hpending⟩

theorem noSources_of_bootstrapSources {store : Store}
    (h : bootstrapSources store [] = true) : ∀ key summary, store.hourly.lookup key = some summary →
      pending summary.dailyPending = false := by
  intro key summary hsummary
  obtain ⟨-, hnone⟩ := Bool.and_eq_true_iff.mp h
  have hentry := List.all_eq_true.mp hnone ⟨key, summary⟩ (AList.mem_lookup_iff.mp hsummary)
  simpa using hentry

/-- Every step keeps the invariant and takes nothing back. -/
theorem Inv.step {next : World} (h : Inv world) (hstep : Step world next) :
    Inv next ∧ Grows world.store next.store := by
  obtain ⟨replica, action, hexec⟩ := hstep
  have hphase := h.phases replica
  unfold exec at hexec
  simp only at hexec
  split at hexec
  -- write
  · split at hexec
    · rename_i hwritable
      obtain rfl := Option.some.inj hexec
      have hwrite := h.store.write hwritable
      exact ⟨h.to hwrite (hphase.mono h.store.marks hwrite.2), hwrite.2⟩
    · cases hexec
  -- crash
  · obtain rfl := Option.some.inj hexec
    exact ⟨h.same trivial, Grows.refl _⟩
  -- load
  · split at hexec
    · cases hexec
    split at hexec
    · rename_i batch hbatch
      obtain rfl := Option.some.inj hexec
      exact ⟨h.same ⟨progress_startWork _ batch, Or.inl hbatch⟩, Grows.refl _⟩
    · obtain rfl := Option.some.inj hexec
      refine ⟨h.same ?_, Grows.refl _⟩
      split
      · rename_i hready
        exact ⟨le_refl _, hready⟩
      · exact le_refl _
  -- findSources
  · rename_i keys current heq
    rw [heq] at hphase
    split at hexec
    · rename_i hsources
      obtain rfl := Option.some.inj hexec
      refine ⟨h.same ?_, Grows.refl _⟩
      split
      · rename_i hempty
        rw [List.isEmpty_iff.mp hempty] at hsources
        exact ⟨hphase, fun _ => noSources_of_bootstrapSources hsources⟩
      · rename_i hempty
        refine ⟨hphase, fun hfresh => claimable_bootstrapBatch h.store hfresh hsources ?_⟩
        rintro rfl
        exact hempty rfl
    · cases hexec
  -- markReady
  · rename_i current heq
    rw [heq] at hphase
    split at hexec
    · rename_i hunclaimed
      obtain rfl := Option.some.inj hexec
      have hfresh := unclaimed_iff.mp hunclaimed
      have hready := h.store.markReady hfresh.2 (hphase.2 hfresh)
      exact ⟨h.to hready ⟨hphase.1, rfl⟩, hready.2⟩
    · obtain rfl := Option.some.inj hexec
      exact ⟨h.same trivial, Grows.refl _⟩
  -- select
  · rename_i cutoff ids current heq
    rw [heq] at hphase
    split at hexec
    · rename_i hclaimable
      obtain rfl := Option.some.inj hexec
      exact ⟨h.same ⟨hphase.1, hphase.2, fun _ => claimable_rows hclaimable⟩, Grows.refl _⟩
    · cases hexec
  -- aggregate
  · rename_i current ids heq
    rw [heq] at hphase
    obtain rfl := Option.some.inj hexec
    exact ⟨h.same ⟨hphase.1, fun hfresh =>
      claimable_rawBatch hfresh hphase.2.1 (hphase.2.2 hfresh)⟩, Grows.refl _⟩
  -- publish
  · rename_i current batch heq
    rw [heq] at hphase
    split at hexec
    · rename_i hunclaimed
      obtain rfl := Option.some.inj hexec
      have hfresh := unclaimed_iff.mp hunclaimed
      have hpublish := h.store.publish hfresh.2 (hphase.2 hfresh)
      exact ⟨h.to hpublish ⟨progress_startWork _ batch, Or.inl rfl⟩, hpublish.2⟩
    · obtain rfl := Option.some.inj hexec
      exact ⟨h.same trivial, Grows.refl _⟩
  -- insertHourly
  · rename_i key batch work heq
    split at hexec
    · rename_i hkey
      obtain rfl := Option.some.inj hexec
      exact inv_insertHourly h heq hkey
    · cases hexec
  -- addHourly
  · rename_i key batch work heq
    split at hexec
    · rename_i hguard
      obtain rfl := Option.some.inj hexec
      exact inv_addHourly h heq hguard.1 hguard.2
    · cases hexec
  -- insertDaily
  · rename_i key batch work heq
    split at hexec
    · rename_i hguard
      obtain rfl := Option.some.inj hexec
      exact inv_insertDaily h heq hguard.2
    · cases hexec
  -- addDaily
  · rename_i key batch work heq
    split at hexec
    · rename_i hguard
      obtain rfl := Option.some.inj hexec
      exact inv_addDaily h heq hguard.2.1 hguard.2.2
    · cases hexec
  -- mark
  · rename_i source batch work heq
    split at hexec
    · rename_i hguard
      obtain rfl := Option.some.inj hexec
      exact inv_mark h heq hguard.2.2
    · cases hexec
  -- advance
  · rename_i batch work heq
    split at hexec
    · rename_i hguard
      obtain rfl := Option.some.inj hexec
      exact inv_advance h heq hguard.1 hguard.2.1 hguard.2.2
    · cases hexec
  · cases hexec

end

/-- A deployment of the daily tier over an hourly tier, empty or exact, between batches. -/
structure Start (world : World) : Prop where
  idle : ∀ replica, world.phase replica = .idle
  nonneg : 0 ≤ world.store.state.sequence
  batch : world.store.state.batch = none
  notReady : world.store.state.dailyReady = false
  marks : ∀ id row, world.store.rows.lookup id = some row → row.settled = false →
    pending row.rollupPending = true
  hourly : ∀ key m, measureOf world.store.hourly key m =
    clamp m (rowSum world.store.rows (fun _ row => folded row && row.key = key) m)
  fences : ∀ key summary, world.store.hourly.lookup key = some summary →
    summary.lastBatch ≤ world.store.state.sequence ∧ pending summary.dailyPending = true
  summaries : ∀ id row, world.store.rows.lookup id = some row → folded row = true →
    ∃ summary, world.store.hourly.lookup row.key = some summary
  daily : world.store.daily = ∅

theorem Start.inv {world : World} (h : Start world) : Inv world := by
  have hearlier := hourlyEarlier_of_none h.batch
  have hnone := hourlyIncrements_of_none h.batch
  have hdays := currentDaily_of_none h.batch
  have hcopied (key : HourKey) : copied world.store key = false := by
    unfold copied
    cases hsummary : world.store.hourly.lookup key with
    | none => rfl
    | some summary =>
      rw [Option.any_some, (h.fences key summary hsummary).2]
      rfl
  refine ⟨⟨h.nonneg, h.marks, fun batch hsome => ?_, ⟨fun key m => ?_, fun key summary hsummary => ?_⟩,
    ⟨fun key m => ?_, fun key summary hsummary => ?_⟩, fun id row hrow hfolded => ?_,
    fun hready => ?_⟩, fun replica => ?_⟩
  · rw [h.batch] at hsome
    cases hsome
  · have hshare : share world.store.hourly (world.store.state.sequence + 1)
        (hourlyIncrements world.store) key m = 0 := by
      rw [hnone]
      exact ite_self _
    rw [hshare, add_zero, h.hourly]
    simp only [hearlier]
  · have hlast := (h.fences key summary hsummary).1
    exact ⟨by omega, fun heq => by omega⟩
  · have hvalue : measureOf world.store.daily key m = 0 := by
      unfold measureOf
      rw [h.daily]
      rfl
    have hshare : share world.store.daily (world.store.state.sequence + 1)
        (currentDaily world.store) key m = 0 := by
      rw [hdays]
      exact ite_self _
    rw [hvalue, hshare, add_zero, rowSum_eq_zero, clamp_zero]
    intro id row _
    unfold dailyEarlier
    simp only [h.notReady, hcopied, Bool.or_false, Bool.and_false, Bool.false_and]
  · rw [h.daily] at hsummary
    cases hsummary
  · rw [hearlier] at hfolded
    exact h.summaries id row hrow hfolded
  · rw [h.notReady] at hready
    cases hready
  · rw [h.idle replica]
    trivial

theorem reaches_of_run {world next : World} {actions : List (ℕ × Action)}
    (h : run world actions = some next) : Relation.ReflTransGen Step world next := by
  induction actions generalizing world with
  | nil =>
    cases h
    exact Relation.ReflTransGen.refl
  | cons action actions ih =>
    obtain ⟨middle, hstep, hrest⟩ := Option.bind_eq_some_iff.mp h
    exact Relation.ReflTransGen.head ⟨action.1, action.2, hstep⟩ (ih hrest)

theorem inv_of_run {world next : World} (hstart : Start world)
    (hrun : Relation.ReflTransGen Step world next) : Inv next := by
  induction hrun with
  | refl => exact hstart.inv
  | tail _ hstep ih => exact (ih.step hstep).1

/-- The sum of a measure over the hourly summaries of a day. -/
def daySum (hourly : Collection HourKey Summary) (key : DayKey) (m : Measure) : ℤ :=
  Collection.sumOf (fun hourKey summary =>
    if hourKey.dayKey = key then summary.measures m else 0) hourly

/-- Between batches every marked row is counted exactly once in its hourly summary and,
once the daily tier is ready, exactly once in its daily summary; daily counters are the
sums of the hourly ones of the day. Counters stay at their largest value. -/
def CountedOnce (store : Store) : Prop :=
  store.state.batch = none →
    (∀ key m, measureOf store.hourly key m =
      clamp m (rowSum store.rows (fun _ row => folded row && row.key = key) m)) ∧
    (store.state.dailyReady = true → ∀ key m,
      measureOf store.daily key m =
        clamp m (rowSum store.rows (fun _ row => folded row && row.key.dayKey = key) m) ∧
      measureOf store.daily key m = clamp m (daySum store.hourly key m))

/-- No step lowers the fold sequence of a summary, or loses a summary. -/
def SequencesGrow (world : World) : Prop :=
  ∀ next, Step world next →
    (∀ key summary, world.store.hourly.lookup key = some summary → ∃ later,
      next.store.hourly.lookup key = some later ∧ summary.lastBatch ≤ later.lastBatch) ∧
    (∀ key summary, world.store.daily.lookup key = some summary → ∃ later,
      next.store.daily.lookup key = some later ∧ summary.lastBatch ≤ later.lastBatch)

theorem sum_map_ite {α : Type} (items : List α) (p : α → Bool) (f : α → ℤ) :
    (items.map fun a => if p a then f a else 0).sum = ((items.filter p).map f).sum := by
  induction items with
  | nil => rfl
  | cons a items ih =>
    rw [List.map_cons, List.sum_cons, ih]
    by_cases ha : p a = true
    · rw [if_pos ha, List.filter_cons_of_pos ha, List.map_cons, List.sum_cons]
    · rw [if_neg ha, List.filter_cons_of_neg ha, zero_add]

/-- With every marked row in an hourly summary, the hours of a day hold the rows of the day. -/
theorem clamp_daySum {store : Store} {m : Measure} {key : DayKey}
    (hhourly : ∀ key m, measureOf store.hourly key m =
      clamp m (rowSum store.rows (fun _ row => folded row && row.key = key) m))
    (hsummaries : ∀ id row, store.rows.lookup id = some row → folded row = true →
      ∃ summary, store.hourly.lookup row.key = some summary) :
    clamp m (daySum store.hourly key m) =
      clamp m (rowSum store.rows (fun _ row => folded row && row.key.dayKey = key) m) := by
  have hkeys : ((store.hourly.keys.filter fun hourKey => hourKey.dayKey = key)).Nodup :=
    List.filter_sublist.nodup store.hourly.keys_nodup
  have hsum : daySum store.hourly key m =
      ((store.hourly.keys.filter fun hourKey => hourKey.dayKey = key).map fun hourKey =>
        clamp m (rowSum store.rows (fun _ row => folded row && row.key = hourKey) m)).sum := by
    unfold daySum Collection.sumOf
    have hentries : (store.hourly.entries.map fun entry =>
        if entry.1.dayKey = key then entry.2.measures m else 0) =
          (store.hourly.keys.map fun hourKey =>
            if decide (hourKey.dayKey = key) = true then
              clamp m (rowSum store.rows (fun _ row => folded row && row.key = hourKey) m) else 0) := by
      show _ = ((store.hourly.entries.map Sigma.fst).map _)
      rw [List.map_map]
      refine List.map_congr_left fun entry hentry => ?_
      have hvalue := hhourly entry.1 m
      unfold measureOf at hvalue
      rw [AList.mem_lookup_iff.mpr hentry] at hvalue
      simp only [Function.comp_apply, decide_eq_true_eq, ← hvalue, Option.elim_some]
    rw [hentries, sum_map_ite]
  rw [hsum, clamp_sum _ fun _ _ => rowSum_nonneg,
    sum_rowSum hkeys]
  refine congrArg _ (rowSum_congr fun id row hrow => ?_)
  cases hfolded : folded row with
  | false => simp
  | true =>
    obtain ⟨summary, hsummary⟩ := hsummaries id row hrow hfolded
    have hmem : row.key ∈ store.hourly.keys :=
      List.mem_map.mpr ⟨⟨row.key, summary⟩, AList.mem_lookup_iff.mp hsummary, rfl⟩
    simp [hmem]

/-- Whatever the order of the writes of any number of replicas, helpers and crashes, rows
are counted exactly once in both tiers and no fold sequence decreases. -/
theorem fold_exactly_once {world next : World} (hstart : Start world)
    (hrun : Relation.ReflTransGen Step world next) :
    CountedOnce next.store ∧ SequencesGrow next := by
  have hinv := inv_of_run hstart hrun
  refine ⟨fun hbatch => ?_, fun later hstep => ?_⟩
  · have hnone := hourlyIncrements_of_none hbatch
    have hdays := currentDaily_of_none hbatch
    have hearlier := hourlyEarlier_of_none hbatch
    have hhourly : ∀ key m, measureOf next.store.hourly key m =
        clamp m (rowSum next.store.rows (fun _ row => folded row && row.key = key) m) := by
      intro key m
      have hvalue := hinv.store.hourly.values key m
      have hshare : share next.store.hourly (next.store.state.sequence + 1)
          (hourlyIncrements next.store) key m = 0 := by
        rw [hnone]
        exact ite_self _
      rw [hshare, add_zero] at hvalue
      simpa only [hearlier] using hvalue
    refine ⟨hhourly, fun hready key m => ?_⟩
    have hdaily : measureOf next.store.daily key m =
        clamp m (rowSum next.store.rows (fun _ row => folded row && row.key.dayKey = key) m) := by
      have hvalue := hinv.store.daily.values key m
      have hshare : share next.store.daily (next.store.state.sequence + 1)
          (currentDaily next.store) key m = 0 := by
        rw [hdays]
        exact ite_self _
      rw [hshare, add_zero] at hvalue
      rw [hvalue]
      refine congrArg _ (rowSum_congr fun id row _ => ?_)
      unfold dailyEarlier
      rw [hbatch, hready]
      simp
    refine ⟨hdaily, ?_⟩
    rw [hdaily, clamp_daySum hhourly fun id row hrow hfolded =>
      hinv.store.summaries id row hrow (by rw [hearlier]; exact hfolded)]
  · have hgrows := (hinv.step hstep).2
    exact ⟨fun key summary hsummary =>
      let ⟨found, hfound, hlast, _⟩ := hgrows.hourly key summary hsummary
      ⟨found, hfound, hlast⟩, hgrows.daily⟩

section

/-- A free platform row that used the largest quantity. -/
def sampleRow (createdAt : Time) : SourceRow where
  rollupPending := some true
  status := .finalized
  createdAt := createdAt
  quantity := some i64Max
  forwarded := true
  walletId := none
  released := false
  lagoAcked := false
  funding := none
  dimensions := ⟨1, 1, none, none, "", "", "", .platform, none, false, false⟩
  measures m := match m with
    | .quantity => i64Max
    | .rowsFolded => 1
    | _ => 0
  nonneg m := by cases m <;> decide
  counted := rfl

/-- Two rows of neighbouring hours wait for the first fold. -/
def sampleStart : World :=
  ⟨⟨(AList.insert 1 (sampleRow 0) ∅).insert 2 (sampleRow hourLength), ⟨0, none, false⟩, ∅, ∅⟩,
    fun _ => .idle⟩

/-- One replica folds both rows. -/
def sampleRun : List (ℕ × Action) :=
  [.load, .findSources [], .markReady, .select (2 * hourLength) [1, 2], .aggregate, .publish,
    .insertHourly (sampleRow 0).key, .insertHourly (sampleRow hourLength).key,
    .addHourly (sampleRow 0).key, .addHourly (sampleRow hourLength).key,
    .insertDaily (sampleRow 0).key.dayKey, .addDaily (sampleRow 0).key.dayKey,
    .mark (.row 1), .mark (.row 2), .advance].map fun action => (0, action)

def sampleEnd : World := (run sampleStart sampleRun).getD sampleStart

theorem sampleStart_row {id : Id} {row : SourceRow}
    (h : sampleStart.store.rows.lookup id = some row) : ∃ createdAt, row = sampleRow createdAt := by
  unfold sampleStart at h
  by_cases hsecond : id = 2
  · subst hsecond
    rw [AList.lookup_insert] at h
    exact ⟨_, (Option.some.inj h).symm⟩
  · rw [AList.lookup_insert_ne hsecond] at h
    by_cases hfirst : id = 1
    · subst hfirst
      rw [AList.lookup_insert] at h
      exact ⟨_, (Option.some.inj h).symm⟩
    · rw [AList.lookup_insert_ne hfirst] at h
      cases h

theorem start_sampleStart : Start sampleStart where
  idle _ := rfl
  nonneg := le_refl _
  batch := rfl
  notReady := rfl
  marks id row hrow _ := by
    obtain ⟨createdAt, rfl⟩ := sampleStart_row hrow
    rfl
  hourly key m := by
    rw [rowSum_eq_zero, clamp_zero]
    · rfl
    · intro id row hrow
      obtain ⟨createdAt, rfl⟩ := sampleStart_row hrow
      rfl
  fences key summary h := by cases h
  summaries id row hrow hfolded := by
    obtain ⟨createdAt, rfl⟩ := sampleStart_row hrow
    cases hfolded
  daily := rfl

theorem sampleStart_reaches : Relation.ReflTransGen Step sampleStart sampleEnd := by
  have hsome : (run sampleStart sampleRun).isSome = true := by decide
  obtain ⟨next, hnext⟩ := Option.isSome_iff_exists.mp hsome
  have hend : sampleEnd = next := by
    unfold sampleEnd
    rw [hnext]
    rfl
  rw [hend]
  exact reaches_of_run hnext

theorem sample_counted_once : CountedOnce sampleEnd.store ∧ SequencesGrow sampleEnd :=
  fold_exactly_once start_sampleStart sampleStart_reaches

/-- The day of two saturated hours holds less than their sum. -/
theorem day_of_saturated_hours : ¬ ∀ world next, Start world →
    Relation.ReflTransGen Step world next → next.store.state.batch = none →
      next.store.state.dailyReady = true →
        ∀ key m, measureOf next.store.daily key m = daySum next.store.hourly key m := by
  intro h
  have hbatch : sampleEnd.store.state.batch.isNone = true := by decide
  have hready : sampleEnd.store.state.dailyReady = true := by decide
  have hdiffer : measureOf sampleEnd.store.daily (sampleRow 0).key.dayKey .quantity ≠
      daySum sampleEnd.store.hourly (sampleRow 0).key.dayKey .quantity := by decide
  exact hdiffer (h sampleStart sampleEnd start_sampleStart sampleStart_reaches
    (Option.isNone_iff_eq_none.mp hbatch) hready _ _)

end

end NyxId.UsageRollup
