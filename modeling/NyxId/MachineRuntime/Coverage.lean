import NyxId.MachineRuntime.Accounting

/-!
Charged running time. As long as no stop lies before the floor of its
generation, the spans that the finalized intervals charge never overlap, within
a generation or across replacements.
-/

namespace NyxId.MachineRuntime

open Interleave

/-- A stop of a generation that never became ready is not before its floor. -/
def StopAfterFloor (op : Operation) (s : State) : Prop :=
  ∀ stop, op.stopInstant = some stop → s.run.stopNs = none → s.run.readyNs = none →
    ∀ f, s.run.generationFloorNs = some f → f ≤ stop

/-- Time charged to the current generation has been accounted for and proven. -/
structure CurrentSpan (run : MachineRuntimeRun) (span : Span) : Prop where
  ready : ∃ r, run.readyNs = some r ∧ r ≤ span.start
  accounted : span.finish ≤ run.accountedUntilNs
  proven : ∃ p, run.provenUntilNs = some p ∧ span.finish ≤ p

structure Coverage (s : State) : Prop where
  ordered : s.spans.Pairwise fun a b => a.finish ≤ b.start
  nonempty : ∀ span ∈ s.spans, span.start < span.finish
  total : (s.spans.map fun span => span.finish - span.start).sum = s.run.cumulativeCoveredNs
  current : ∀ span ∈ s.spans, span.generation = s.run.runtimeGeneration →
    CurrentSpan s.run span
  past : ∀ span ∈ s.spans, span.generation ≠ s.run.runtimeGeneration →
    span.generation < s.run.runtimeGeneration ∧
      ∃ f, s.run.generationFloorNs = some f ∧ span.finish ≤ f
  readies : ∀ e ∈ s.readies, e.1 ≤ s.run.runtimeGeneration
  ready_mem : ∀ r, s.run.readyNs = some r → (s.run.runtimeGeneration, r) ∈ s.readies
  stops : ∀ e ∈ s.stops, e.1 ≤ s.run.runtimeGeneration ∧
    (e.1 = s.run.runtimeGeneration → s.run.stopNs = some e.2)
  stop_floor : ∀ stop f, s.run.stopNs = some stop → s.run.generationFloorNs = some f → f ≤ stop
  started : ∀ span ∈ s.spans, ∃ r, (span.generation, r) ∈ s.readies ∧ r ≤ span.start
  stopped : ∀ span ∈ s.spans, ∀ stop, (span.generation, stop) ∈ s.stops → span.finish ≤ stop

variable {s t : State}

/-- All time charged so far ends before the current generation's next charge. -/
theorem Coverage.finish_le (h : Coverage s) (hinv : Inv s) {ready from_ : ℤ}
    (hready : s.run.readyNs = some ready) (hfrom : s.run.accountedUntilNs ≤ from_)
    {span : Span} (hspan : span ∈ s.spans) : span.finish ≤ max from_ ready := by
  by_cases hgeneration : span.generation = s.run.runtimeGeneration
  · have haccounted := (h.current span hspan hgeneration).accounted
    omega
  · obtain ⟨-, f, hf, hfinish⟩ := h.past span hspan hgeneration
    have hfloor := hinv.run.ready_floor ready f hready hf
    omega

theorem Coverage.ready (h : Coverage s) {ready revision : ℤ} {id : String}
    (hnone : s.run.readyNs = none) :
    Coverage { s with
      readies := s.readies ++ [(s.run.runtimeGeneration, ready)]
      run := { s.run with
        readyNs := some ready
        provenUntilNs := some ready
        readyEvidenceId := some id
        provenEvidenceId := some id
        state := .running
        revision := revision } } where
  ordered := h.ordered
  nonempty := h.nonempty
  total := h.total
  current span hspan hgeneration := by
    obtain ⟨r, hr, -⟩ := (h.current span hspan hgeneration).ready
    rw [hnone] at hr
    cases hr
  past := h.past
  readies e he := by
    rcases List.mem_append.mp he with he | he
    · exact h.readies e he
    · rw [List.mem_singleton.mp he]
  ready_mem r hr := by
    cases hr
    exact List.mem_append_right _ (List.mem_singleton_self _)
  stops := h.stops
  stop_floor := h.stop_floor
  started span hspan := by
    obtain ⟨r, hr, hle⟩ := h.started span hspan
    exact ⟨r, List.mem_append_left _ hr, hle⟩
  stopped := h.stopped

theorem Coverage.running (h : Coverage s) {through revision : ℤ} {id : String}
    (hproven : ∀ p, s.run.provenUntilNs = some p → p ≤ through) :
    Coverage { s with
      run := { s.run with
        provenUntilNs := some through, provenEvidenceId := some id, revision := revision } } where
  ordered := h.ordered
  nonempty := h.nonempty
  total := h.total
  current span hspan hgeneration := by
    have hspan := h.current span hspan hgeneration
    obtain ⟨p, hp, hle⟩ := hspan.proven
    exact ⟨hspan.ready, hspan.accounted, through, rfl, hle.trans (hproven p hp)⟩
  past := h.past
  readies := h.readies
  ready_mem := h.ready_mem
  stops := h.stops
  stop_floor := h.stop_floor
  started := h.started
  stopped := h.stopped

theorem Coverage.stop (h : Coverage s) (hinv : Inv s) {stop proven revision : ℤ} {upper : Bool}
    {stopId provenId : Option String} (hnone : s.run.stopNs = none)
    (hfloor : s.run.readyNs = none → ∀ f, s.run.generationFloorNs = some f → f ≤ stop)
    (hready : ∀ r, s.run.readyNs = some r → r ≤ stop)
    (hproven : ∀ p, s.run.provenUntilNs = some p → p ≤ proven) (hle : proven ≤ stop) :
    Coverage { s with
      stops := s.stops ++ [(s.run.runtimeGeneration, stop)]
      run := { s.run with
        stopNs := some stop
        stopIsUpperBound := upper
        stopEvidenceId := stopId
        provenUntilNs := some proven
        provenEvidenceId := provenId
        state := .stopped
        revision := revision } } where
  ordered := h.ordered
  nonempty := h.nonempty
  total := h.total
  current span hspan hgeneration := by
    have hspan := h.current span hspan hgeneration
    obtain ⟨p, hp, hfinish⟩ := hspan.proven
    exact ⟨hspan.ready, hspan.accounted, proven, rfl, hfinish.trans (hproven p hp)⟩
  past := h.past
  readies := h.readies
  ready_mem := h.ready_mem
  stops e he := by
    rcases List.mem_append.mp he with he | he
    · refine ⟨(h.stops e he).1, fun hgeneration => ?_⟩
      have hold := (h.stops e he).2 hgeneration
      rw [hnone] at hold
      cases hold
    · rw [List.mem_singleton.mp he]
      exact ⟨le_rfl, fun _ => rfl⟩
  stop_floor st f hst hf := by
    cases hst
    cases hr : s.run.readyNs with
    | none => exact hfloor hr f hf
    | some r => exact (hinv.run.ready_floor r f hr hf).trans (hready r hr)
  started := h.started
  stopped span hspan st hst := by
    rcases List.mem_append.mp hst with hst | hst
    · exact h.stopped span hspan st hst
    · obtain ⟨hgeneration, rfl⟩ := Prod.mk.inj (List.mem_singleton.mp hst)
      obtain ⟨p, hp, hfinish⟩ := (h.current span hspan hgeneration).proven
      exact (hfinish.trans (hproven p hp)).trans hle

/-- A new charge starts after all earlier ones and ends by proof, window and stop. -/
theorem Coverage.finalize (h : Coverage s) (hinv : Inv s) {id : Id}
    {interval finalized : MachineRuntimeInterval} {proven total quantity seconds revision : ℤ}
    (hok : IntervalOk interval) (hproven : s.run.provenUntilNs = some proven)
    (haccounted : s.run.accountedUntilNs ≤ interval.coveredFromNs)
    (htotal : cumulativeSeconds s.run.cumulativeCoveredNs (evidenced s.run proven interval) =
      some (total, quantity)) :
    Coverage { s with
      intervals := s.intervals.insert id finalized
      spans := s.spans ++ evidencedSpan s.run interval (evidenced s.run proven interval)
      run := { s.run with
        cumulativeCoveredNs := total
        cumulativeSeconds := seconds
        accountedUntilNs := interval.coveredUntilNs
        revision := revision } } := by
  obtain ⟨rfl, -⟩ := cumulativeSeconds_eq_some htotal
  have hnonempty := hok.nonempty
  have hgrown : ∀ span ∈ s.spans, span.generation = s.run.runtimeGeneration →
      CurrentSpan { s.run with
        cumulativeCoveredNs := s.run.cumulativeCoveredNs + evidenced s.run proven interval
        cumulativeSeconds := seconds
        accountedUntilNs := interval.coveredUntilNs
        revision := revision } span := by
    intro span hspan hgeneration
    have hcurrent := h.current span hspan hgeneration
    have hle := hcurrent.accounted
    exact ⟨hcurrent.ready, by simp only; omega, hcurrent.proven⟩
  have hevidenced := evidenced_ok s.run proven interval
  by_cases hpos : 0 < evidenced s.run proven interval
  · obtain ⟨ready, hready, hbound, hstop⟩ := hevidenced.bounds hpos
    have hspans : evidencedSpan s.run interval (evidenced s.run proven interval) =
        [⟨s.run.runtimeGeneration, max interval.coveredFromNs ready,
          max interval.coveredFromNs ready + evidenced s.run proven interval⟩] := by
      simp only [evidencedSpan, hready, hpos, if_true]
    rw [hspans]
    refine ⟨?_, ?_, ?_, ?_, ?_, h.readies, h.ready_mem, h.stops, h.stop_floor, ?_, ?_⟩
    · apply List.pairwise_append.mpr
      refine ⟨h.ordered, List.pairwise_singleton _ _, fun a ha b hb => ?_⟩
      rw [List.mem_singleton.mp hb]
      exact h.finish_le hinv hready haccounted ha
    · intro span hspan
      rcases List.mem_append.mp hspan with hspan | hspan
      · exact h.nonempty span hspan
      · rw [List.mem_singleton.mp hspan]
        simp only
        omega
    · rw [List.map_append, List.sum_append, h.total]
      simp
    · intro span hspan hgeneration
      rcases List.mem_append.mp hspan with hspan | hspan
      · exact hgrown span hspan hgeneration
      · rw [List.mem_singleton.mp hspan]
        refine ⟨⟨ready, hready, le_max_right _ _⟩, ?_, proven, hproven, ?_⟩
        · exact hbound.trans (min_le_left _ _)
        · exact hbound.trans (min_le_right _ _)
    · intro span hspan hgeneration
      rcases List.mem_append.mp hspan with hspan | hspan
      · exact h.past span hspan hgeneration
      · rw [List.mem_singleton.mp hspan] at hgeneration
        exact absurd rfl hgeneration
    · intro span hspan
      rcases List.mem_append.mp hspan with hspan | hspan
      · exact h.started span hspan
      · rw [List.mem_singleton.mp hspan]
        exact ⟨ready, h.ready_mem ready hready, le_max_right _ _⟩
    · intro span hspan st hst
      rcases List.mem_append.mp hspan with hspan | hspan
      · exact h.stopped span hspan st hst
      · rw [List.mem_singleton.mp hspan] at hst ⊢
        exact hstop st ((h.stops _ hst).2 rfl)
  · have hzero : evidenced s.run proven interval = 0 := by
      have hnonneg := hevidenced.nonneg
      omega
    have hspans : evidencedSpan s.run interval (evidenced s.run proven interval) = [] := by
      unfold evidencedSpan
      split
      · rw [if_neg hpos]
      · rfl
    rw [hspans, List.append_nil]
    refine ⟨h.ordered, h.nonempty, ?_, hgrown, h.past, h.readies, h.ready_mem, h.stops,
      h.stop_floor, h.started, h.stopped⟩
    rw [h.total, hzero, add_zero]

/-- A replacement starts at or after the stop of the generation it replaces. -/
theorem Coverage.replacement (h : Coverage s) (hinv : Inv s) {p : PreparedRuntimeWindow}
    {run : MachineRuntimeRun} {intervals : Collection Id MachineRuntimeInterval}
    {generation admitted stop revision : ℤ} (hstop : s.run.stopNs = some stop)
    (hgeneration : s.run.runtimeGeneration < generation)
    (hresidual : recordGenerationResidual s.run = .ok run) :
    Coverage { s with
      intervals := intervals
      nextId := s.nextId + 1
      run := { run with
        generationFloorNs := some stop
        runtimeGeneration := generation
        generationCoveredStartNs := run.cumulativeCoveredNs
        generationResidualRecorded := false
        generationAdmittedNs := admitted
        readyNs := none
        provenUntilNs := none
        readyEvidenceId := none
        provenEvidenceId := none
        stopNs := none
        stopIsUpperBound := false
        stopEvidenceId := none
        replacementRequested := false
        state := .accepted
        accountedUntilNs := p.fromNs
        coveredUntilNs := p.untilNs
        lastWindowFromNs := p.fromNs
        revision := revision } } := by
  obtain ⟨a, b, recorded, rfl, -, -⟩ := recordGenerationResidual_eq_ok hresidual
  have hearlier : ∀ span ∈ s.spans, span.generation < generation ∧ span.finish ≤ stop := by
    intro span hspan
    by_cases hcurrent : span.generation = s.run.runtimeGeneration
    · obtain ⟨q, hq, hfinish⟩ := (h.current span hspan hcurrent).proven
      exact ⟨by omega, hfinish.trans (hinv.run.proven_stop q stop hq hstop)⟩
    · obtain ⟨hlt, f, hf, hfinish⟩ := h.past span hspan hcurrent
      exact ⟨by omega, hfinish.trans (h.stop_floor stop f hstop hf)⟩
  exact {
    ordered := h.ordered
    nonempty := h.nonempty
    total := h.total
    current := fun span hspan hsame => by
      have hlt := (hearlier span hspan).1
      simp only at hsame
      omega
    past := fun span hspan _ => ⟨(hearlier span hspan).1, stop, rfl, (hearlier span hspan).2⟩
    readies := fun e he => by
      have hle := h.readies e he
      simp only
      omega
    ready_mem := nofun
    stops := fun e he => by
      have hle := (h.stops e he).1
      exact ⟨by simp only; omega, fun hsame => by simp only at hsame; omega⟩
    stop_floor := nofun
    started := h.started
    stopped := h.stopped }

theorem Coverage.move (h : Coverage s) (hinv : Inv s)
    (hmove : Move (fun stop => s.run.readyNs = none →
      ∀ f, s.run.generationFloorNs = some f → f ≤ stop) s t) : Coverage t := by
  cases hmove with
  | same => exact h
  | ready ready revision id hstate hnone hfloor => exact h.ready hnone
  | running through revision id hstate hready hproven => exact h.running hproven
  | request state replacement revision hstate =>
    exact { h with
      current := fun span hspan hg => ⟨(h.current span hspan hg).ready,
        (h.current span hspan hg).accounted, (h.current span hspan hg).proven⟩ }
  | stop stop proven revision upper stopId provenId hnone hfloor hready hproven hle =>
    exact h.stop hinv hnone hfloor hready hproven hle
  | finalize id interval proven total quantity revision hlookup hopen hproven haccounted htotal =>
    exact h.finalize hinv (hinv.intervals id interval hlookup) hproven haccounted htotal
  | settle id interval hlookup =>
    exact { h with }
  | window p revision =>
    exact { h with
      current := fun span hspan hg => ⟨(h.current span hspan hg).ready,
        (h.current span hspan hg).accounted, (h.current span hspan hg).proven⟩ }
  | replacement p run generation admitted stop revision hstop hgeneration hresidual =>
    exact h.replacement hinv hstop hgeneration hresidual
  | close run revision hstate hresidual =>
    obtain ⟨a, b, recorded, rfl, -, -⟩ := recordGenerationResidual_eq_ok hresidual
    exact { h with
      current := fun span hspan hg => ⟨(h.current span hspan hg).ready,
        (h.current span hspan hg).accounted, (h.current span hspan hg).proven⟩ }

theorem Coverage.initial (h : runtime.Initial s) : Coverage s := by
  obtain ⟨now, funded, quoteCreatedMs, acceptBefore, generation, prior, p, h⟩ := h
  obtain ⟨admitted, rfl⟩ := acceptMachineQuote_eq_ok h
  exact ⟨List.Pairwise.nil, nofun, rfl, nofun, nofun, nofun, nofun, nofun, nofun, nofun, nofun⟩

theorem coverage_of_reaches (h : runtime.Reaches StopAfterFloor s) : Inv s ∧ Coverage s := by
  refine h.invariant (P := fun u => Inv u ∧ Coverage u)
    (fun u hu => ⟨Inv.initial hu, Coverage.initial hu⟩) ?_
  intro op u v hu hop happly
  have hmove : Move (fun stop => u.run.readyNs = none →
      ∀ f, u.run.generationFloorNs = some f → f ≤ stop) u v := by
    exact apply_move op (fun stop hstop hnone => hop stop hstop hnone) happly
  exact ⟨hu.1.move hmove, hu.2.move hu.1 hmove⟩

/-- The funded-responsibility guard of finalization never fires. -/
theorem finalize_guard_unreachable (h : Inv s) (usageOpen : Bool) :
    finalizeMachineInterval usageOpen s ≠
      conflict "runtime evidence exceeds funded responsibility" := by
  intro hguard
  unfold finalizeMachineInterval at hguard
  split at hguard
  · cases hguard
  rename_i id interval hopen
  have hok := h.intervals id interval (earliestOpen_eq_some hopen).1
  split at hguard
  · simp [conflict] at hguard
  split at hguard
  · cases hguard
  rename_i proven hproven
  split at hguard
  · cases hguard
  split at hguard
  · simp [conflict] at hguard
  rcases bind_eq_error hguard with hover | ⟨⟨total, quantity⟩, htotal, hguard⟩
  · cases orInvalid_eq_error hover
  dsimp only at hguard
  have hle := (quantity_le_reserved hok (orInvalid_eq_ok htotal)).2
  rw [if_neg (by omega)] at hguard
  split at hguard
  · simp [conflict] at hguard
  · cases saveRun_eq_error hguard

/-- The residual guard never fires either: charges fit between readiness and stop. -/
theorem residual_guard_unreachable (h : Inv s) :
    recordGenerationResidual s.run ≠ conflict "runtime funded evidence exceeds elapsed time" := by
  intro hguard
  unfold recordGenerationResidual at hguard
  split at hguard
  · cases hguard
  split at hguard
  · rename_i ready stop hready hstop
    obtain ⟨p, hp, hrp⟩ := h.run.ready_proven ready hready
    have hstopped := h.run.proven_stop p stop hp hstop
    have hcharged := h.run.charged ready p hready hp
    have hstart := h.run.start_le
    rcases bind_eq_error hguard with hover | ⟨elapsed, helapsed, hguard⟩
    · cases orInvalid_eq_error hover
    rcases bind_eq_error hguard with hover | ⟨covered, hcovered, hguard⟩
    · cases orInvalid_eq_error hover
    obtain ⟨rfl, -, hfits⟩ := checkedI64_eq_some.mp (orInvalid_eq_ok helapsed)
    obtain ⟨rfl, -, -⟩ := checkedI64_eq_some.mp (orInvalid_eq_ok hcovered)
    split at hguard
    · rename_i hfilter
      have hfit : checkedI64 (stop - ready -
          (s.run.cumulativeCoveredNs - s.run.generationCoveredStartNs)) = some _ :=
        checkedI64_eq_some.mpr ⟨rfl, by omega, by omega⟩
      rw [hfit, Option.filter_some_pos (by simp only [decide_eq_true_eq]; omega)] at hfilter
      cases hfilter
    · split at hguard
      · rcases bind_eq_error hguard with hover | ⟨total, -, hguard⟩
        · cases orInvalid_eq_error hover
        · cases hguard
      · rcases bind_eq_error hguard with hover | ⟨total, -, hguard⟩
        · cases orInvalid_eq_error hover
        · cases hguard
  · cases hguard

end NyxId.MachineRuntime
