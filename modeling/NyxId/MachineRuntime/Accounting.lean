import NyxId.MachineRuntime.Moves

/-!
Quantities and residuals of a run. The finalized quantities are the whole
seconds of the evidenced total, none exceeds the seconds funded for its window,
and the time that no window covered is never negative.
-/

namespace NyxId.MachineRuntime

open Interleave

def quantityTerm (_ : Id) (interval : MachineRuntimeInterval) : ℤ := interval.quantity.getD 0

structure IntervalOk (interval : MachineRuntimeInterval) : Prop where
  nonempty : interval.coveredFromNs < interval.coveredUntilNs
  reserved : interval.reservedSeconds =
    (interval.coveredUntilNs - interval.coveredFromNs + (secondNs - 1)) / secondNs
  quantity_le : ∀ q, interval.quantity = some q → 0 ≤ q ∧ q ≤ interval.reservedSeconds

/-- Evidence and state of the current generation agree, and what it has been
charged fits between readiness and the proven instant. -/
structure RunOk (run : MachineRuntimeRun) : Prop where
  accepted : run.state = .accepted → run.readyNs = none
  live : run.state ≠ .stopped → run.state ≠ .closed → run.stopNs = none
  start_le : 0 ≤ run.generationCoveredStartNs ∧
    run.generationCoveredStartNs ≤ run.cumulativeCoveredNs
  seconds : run.cumulativeSeconds = run.cumulativeCoveredNs / secondNs
  residuals : 0 ≤ run.platformResidualNs ∧ 0 ≤ run.platformResidualUpperBoundNs
  ready_proven : ∀ r, run.readyNs = some r → ∃ p, run.provenUntilNs = some p ∧ r ≤ p
  proven_stop : ∀ p stop, run.provenUntilNs = some p → run.stopNs = some stop → p ≤ stop
  ready_floor : ∀ r f, run.readyNs = some r → run.generationFloorNs = some f → f ≤ r
  unready : run.readyNs = none → run.cumulativeCoveredNs = run.generationCoveredStartNs
  charged : ∀ r p, run.readyNs = some r → run.provenUntilNs = some p →
    run.cumulativeCoveredNs - run.generationCoveredStartNs ≤
      max 0 (min run.accountedUntilNs p - r)

structure Inv (s : State) : Prop where
  run : RunOk s.run
  intervals : ∀ id interval, s.intervals.lookup id = some interval → IntervalOk interval
  fresh : ∀ id, s.nextId ≤ id → s.intervals.lookup id = none
  quantities : Collection.sumOf quantityTerm s.intervals = s.run.cumulativeCoveredNs / secondNs

/-- Where the evidenced time of an interval lies. -/
structure EvidencedOk (run : MachineRuntimeRun) (proven : ℤ) (interval : MachineRuntimeInterval)
    (e : ℤ) : Prop where
  nonneg : 0 ≤ e
  bounds : 0 < e → ∃ ready, run.readyNs = some ready ∧
    max interval.coveredFromNs ready + e ≤ min interval.coveredUntilNs proven ∧
    ∀ stop, run.stopNs = some stop → max interval.coveredFromNs ready + e ≤ stop

theorem evidenced_ok (run : MachineRuntimeRun) (proven : ℤ) (interval : MachineRuntimeInterval) :
    EvidencedOk run proven interval (evidenced run proven interval) := by
  unfold evidenced
  cases hready : run.readyNs with
  | none => exact ⟨le_rfl, fun h => absurd h (lt_irrefl 0)⟩
  | some ready =>
    refine ⟨le_max_right _ _, fun hpos => ⟨ready, hready, ?_, fun stop hstop => ?_⟩⟩
    · simp only [saturatingSub] at hpos ⊢
      omega
    · simp only [hstop, Option.getD_some, saturatingSub] at hpos ⊢
      omega

theorem cumulativeSeconds_eq_some {previous additional total quantity : ℤ}
    (h : cumulativeSeconds previous additional = some (total, quantity)) :
    total = previous + additional ∧ quantity = total / secondNs - previous / secondNs := by
  unfold cumulativeSeconds at h
  split at h
  · cases h
  · obtain ⟨sum, hsum, heq⟩ := Option.map_eq_some_iff.mp h
    obtain ⟨hsum, -, -⟩ := checkedI64_eq_some.mp hsum
    cases heq
    exact ⟨hsum.symm, rfl⟩

theorem evidenced_le_window (run : MachineRuntimeRun) (proven : ℤ)
    (interval : MachineRuntimeInterval)
    (hne : interval.coveredFromNs < interval.coveredUntilNs) :
    evidenced run proven interval ≤ interval.coveredUntilNs - interval.coveredFromNs := by
  have hok := evidenced_ok run proven interval
  by_cases hpos : 0 < evidenced run proven interval
  · obtain ⟨ready, -, hle, -⟩ := hok.bounds hpos
    omega
  · omega

/-- Whole seconds of a window never exceed the seconds funded for it. -/
theorem quantity_le_reserved {run : MachineRuntimeRun} {proven total quantity : ℤ}
    {interval : MachineRuntimeInterval} (hok : IntervalOk interval)
    (htotal : cumulativeSeconds run.cumulativeCoveredNs (evidenced run proven interval) =
      some (total, quantity)) : 0 ≤ quantity ∧ quantity ≤ interval.reservedSeconds := by
  obtain ⟨rfl, rfl⟩ := cumulativeSeconds_eq_some htotal
  have hle := evidenced_le_window run proven interval hok.nonempty
  have hnonneg := (evidenced_ok run proven interval).nonneg
  rw [hok.reserved]
  simp only [secondNs]
  omega

theorem RunOk.of_residual {run run' : MachineRuntimeRun} (h : RunOk run)
    (hres : recordGenerationResidual run = .ok run') : RunOk run' := by
  obtain ⟨a, b, recorded, rfl, ha, hb⟩ := recordGenerationResidual_eq_ok hres
  exact ⟨h.accepted, h.live, h.start_le, h.seconds,
    ⟨h.residuals.1.trans ha, h.residuals.2.trans hb⟩, h.ready_proven, h.proven_stop,
    h.ready_floor, h.unready, h.charged⟩

variable {P : ℤ → Prop} {s t : State}

theorem RunOk.ready {run : MachineRuntimeRun} (h : RunOk run) {ready revision : ℤ} {id : String}
    (hstate : run.state = .accepted) (hnone : run.readyNs = none)
    (hfloor : ∀ f, run.generationFloorNs = some f → f ≤ ready) :
    RunOk { run with
      readyNs := some ready
      provenUntilNs := some ready
      readyEvidenceId := some id
      provenEvidenceId := some id
      state := .running
      revision := revision } where
  accepted := nofun
  live := fun _ _ => h.live (by simp [hstate]) (by simp [hstate])
  start_le := h.start_le
  seconds := h.seconds
  residuals := h.residuals
  ready_proven := fun r hr => ⟨ready, rfl, by cases hr; exact le_rfl⟩
  proven_stop := fun p stop _ hstop => by
    rw [h.live (by simp [hstate]) (by simp [hstate])] at hstop
    cases hstop
  ready_floor := fun r f hr hf => by
    cases hr
    exact hfloor f hf
  unready := nofun
  charged := fun r p _ _ => by
    have hzero := h.unready hnone
    simp only
    omega

theorem RunOk.running {run : MachineRuntimeRun} (h : RunOk run) {through revision : ℤ}
    {id : String} (hstate : run.state = .running ∨ run.state = .stopPending)
    (hready : ∃ ready, run.readyNs = some ready ∧ ready ≤ through)
    (hproven : ∀ p, run.provenUntilNs = some p → p ≤ through) :
    RunOk { run with
      provenUntilNs := some through, provenEvidenceId := some id, revision := revision } where
  accepted := h.accepted
  live := h.live
  start_le := h.start_le
  seconds := h.seconds
  residuals := h.residuals
  ready_proven := fun r hr => by
    obtain ⟨ready, hready, hle⟩ := hready
    cases hready.symm.trans hr
    exact ⟨through, rfl, hle⟩
  proven_stop := fun p stop _ hstop => by
    have hlive : run.stopNs = none := by
      rcases hstate with hs | hs <;> exact h.live (by simp [hs]) (by simp [hs])
    rw [hlive] at hstop
    cases hstop
  ready_floor := h.ready_floor
  unready := h.unready
  charged := fun r p hr hp => by
    obtain ⟨old, hold, -⟩ := h.ready_proven r hr
    have hle := hproven old hold
    have hcharged := h.charged r old hr hold
    cases hp
    simp only
    omega

theorem RunOk.stop {run : MachineRuntimeRun} (h : RunOk run) {stop proven revision : ℤ}
    {upper : Bool} {stopId provenId : Option String}
    (hproven : ∀ p, run.provenUntilNs = some p → p ≤ proven) (hle : proven ≤ stop) :
    RunOk { run with
      stopNs := some stop
      stopIsUpperBound := upper
      stopEvidenceId := stopId
      provenUntilNs := some proven
      provenEvidenceId := provenId
      state := .stopped
      revision := revision } where
  accepted := nofun
  live := fun hs => absurd rfl hs
  start_le := h.start_le
  seconds := h.seconds
  residuals := h.residuals
  ready_proven := fun r hr => by
    obtain ⟨old, hold, hr'⟩ := h.ready_proven r hr
    exact ⟨proven, rfl, hr'.trans (hproven old hold)⟩
  proven_stop := fun p st hp hst => by
    cases hp
    cases hst
    exact hle
  ready_floor := h.ready_floor
  unready := h.unready
  charged := fun r p hr hp => by
    obtain ⟨old, hold, -⟩ := h.ready_proven r hr
    have hold' := hproven old hold
    have hcharged := h.charged r old hr hold
    cases hp
    simp only
    omega

/-- Finalizing charges only time after everything accounted before. -/
theorem RunOk.finalize {run : MachineRuntimeRun} (h : RunOk run)
    {interval : MachineRuntimeInterval} {proven total quantity revision : ℤ}
    (hproven : run.provenUntilNs = some proven) (hok : IntervalOk interval)
    (haccounted : run.accountedUntilNs ≤ interval.coveredFromNs)
    (htotal : cumulativeSeconds run.cumulativeCoveredNs (evidenced run proven interval) =
      some (total, quantity)) :
    RunOk { run with
      cumulativeCoveredNs := total
      cumulativeSeconds := total / secondNs
      accountedUntilNs := interval.coveredUntilNs
      revision := revision } := by
  obtain ⟨rfl, -⟩ := cumulativeSeconds_eq_some htotal
  have hevidenced := evidenced_ok run proven interval
  have hnonempty := hok.nonempty
  exact {
    accepted := h.accepted
    live := h.live
    start_le := by
      have hstart := h.start_le
      have hnonneg := hevidenced.nonneg
      simp only
      omega
    seconds := rfl
    residuals := h.residuals
    ready_proven := h.ready_proven
    proven_stop := h.proven_stop
    ready_floor := h.ready_floor
    unready := fun hnone => by
      have hzero := h.unready hnone
      simp only at hnone
      simp only [evidenced, hnone]
      omega
    charged := fun r p hr hp => by
      have hcharged := h.charged r p hr hp
      simp only at hr hp
      cases hproven.symm.trans hp
      by_cases hpos : 0 < evidenced run proven interval
      · obtain ⟨ready, hready, hle, -⟩ := hevidenced.bounds hpos
        cases hready.symm.trans hr
        simp only
        omega
      · have hnonneg := hevidenced.nonneg
        simp only
        omega }

theorem RunOk.move (h : Inv s) (hmove : Move P s t) : RunOk t.run := by
  cases hmove with
  | same => exact h.run
  | ready ready revision id hstate hnone hfloor => exact h.run.ready hstate hnone hfloor
  | running through revision id hstate hready hproven => exact h.run.running hstate hready hproven
  | request state replacement revision hstate =>
    refine ⟨fun hs => ?_, fun h1 h2 => ?_, h.run.start_le, h.run.seconds, h.run.residuals,
      h.run.ready_proven, h.run.proven_stop, h.run.ready_floor, h.run.unready, h.run.charged⟩
    · rcases hstate with rfl | ⟨rfl, -, -⟩
      · exact h.run.accepted hs
      · cases hs
    · rcases hstate with rfl | ⟨rfl, hstopped, hclosed⟩
      · exact h.run.live h1 h2
      · exact h.run.live hstopped hclosed
  | stop stop proven revision upper stopId provenId hnone hP hready hproven hle =>
    exact h.run.stop hproven hle
  | finalize id interval proven total quantity revision hlookup hopen hproven haccounted htotal =>
    exact h.run.finalize hproven (h.intervals id interval hlookup) haccounted htotal
  | settle id interval hlookup => exact h.run
  | window p revision =>
    exact ⟨h.run.accepted, h.run.live, h.run.start_le, h.run.seconds, h.run.residuals,
      h.run.ready_proven, h.run.proven_stop, h.run.ready_floor, h.run.unready, h.run.charged⟩
  | replacement p run generation admitted stop revision hstop hgeneration hresidual =>
    have hrun := h.run.of_residual hresidual
    have hstart := hrun.start_le
    exact ⟨fun _ => rfl, fun _ _ => rfl, ⟨hstart.1.trans hstart.2, le_rfl⟩, hrun.seconds,
      hrun.residuals, nofun, nofun, nofun, fun _ => rfl, nofun⟩
  | close run revision hstate hresidual =>
    have hrun := h.run.of_residual hresidual
    exact ⟨nofun, fun _ hclosed => absurd rfl hclosed, hrun.start_le, hrun.seconds,
      hrun.residuals, hrun.ready_proven, hrun.proven_stop, hrun.ready_floor, hrun.unready,
      hrun.charged⟩

/-- Inserting a window under the next identity adds an open interval and no quantity. -/
theorem Inv.insert_window (h : Inv s) (generation : ℤ) (rateVersion : Id)
    (p : PreparedRuntimeWindow) {run : MachineRuntimeRun} (hrun : RunOk run)
    (hsame : run.cumulativeCoveredNs = s.run.cumulativeCoveredNs) :
    Inv { s with
      intervals := s.intervals.insert s.nextId (openInterval generation rateVersion p)
      nextId := s.nextId + 1
      run := run } where
  run := hrun
  intervals id interval hlookup := by
    by_cases hid : id = s.nextId
    · subst hid
      rw [AList.lookup_insert, Option.some.injEq] at hlookup
      subst hlookup
      exact ⟨p.nonempty, p.seconds_eq, nofun⟩
    · rw [AList.lookup_insert_ne hid] at hlookup
      exact h.intervals id interval hlookup
  fresh id hid := by
    rw [AList.lookup_insert_ne (Nat.ne_of_gt hid)]
    exact h.fresh id (Nat.le_of_succ_le hid)
  quantities := by
    have hterm : Collection.term quantityTerm s.intervals s.nextId = 0 := by
      simp [Collection.term, h.fresh s.nextId le_rfl]
    rw [Collection.sumOf_insert, hterm, h.quantities, hsame]
    simp [quantityTerm, openInterval]

/-- Rewriting an interval that keeps its window and its funding. -/
theorem Inv.rewrite (h : Inv s) {id : Id} {interval interval' : MachineRuntimeInterval}
    (hlookup : s.intervals.lookup id = some interval) (hok : IntervalOk interval')
    {run : MachineRuntimeRun} (hrun : RunOk run) {spans : List Span}
    (hsum : run.cumulativeCoveredNs / secondNs =
      s.run.cumulativeCoveredNs / secondNs - quantityTerm id interval + quantityTerm id interval') :
    Inv { s with intervals := s.intervals.insert id interval', spans := spans, run := run } where
  run := hrun
  intervals other found hfound := by
    by_cases hother : other = id
    · subst hother
      rw [AList.lookup_insert, Option.some.injEq] at hfound
      subst hfound
      exact hok
    · rw [AList.lookup_insert_ne hother] at hfound
      exact h.intervals other found hfound
  fresh other hother := by
    have hnone := h.fresh other hother
    have hne : other ≠ id := by
      rintro rfl
      rw [hlookup] at hnone
      cases hnone
    rw [AList.lookup_insert_ne hne]
    exact hnone
  quantities := by
    have hterm : Collection.term quantityTerm s.intervals id = quantityTerm id interval := by
      simp only [Collection.term, hlookup, Option.elim_some]
    rw [Collection.sumOf_insert, hterm, h.quantities, hsum]

theorem Inv.move (h : Inv s) (hmove : Move P s t) : Inv t := by
  have hrun := RunOk.move h hmove
  cases hmove with
  | same => exact h
  | ready ready revision id hstate hnone hfloor =>
    exact ⟨hrun, h.intervals, h.fresh, h.quantities⟩
  | running through revision id hstate hready hproven =>
    exact ⟨hrun, h.intervals, h.fresh, h.quantities⟩
  | request state replacement revision hstate =>
    exact ⟨hrun, h.intervals, h.fresh, h.quantities⟩
  | stop stop proven revision upper stopId provenId hnone hP hready hproven hle =>
    exact ⟨hrun, h.intervals, h.fresh, h.quantities⟩
  | finalize id interval proven total quantity revision hlookup hopen hproven haccounted htotal =>
    have hok := h.intervals id interval hlookup
    have hok' : IntervalOk { interval with
        evidencedNs := some (evidenced s.run proven interval)
        quantity := some quantity
        evidenceId := s.run.provenEvidenceId } := by
      have hfunded := quantity_le_reserved hok htotal
      refine ⟨hok.nonempty, hok.reserved, fun q hq => ?_⟩
      cases hq
      exact hfunded
    refine h.rewrite hlookup hok' hrun ?_
    obtain ⟨-, hquantity⟩ := cumulativeSeconds_eq_some htotal
    simp only [quantityTerm, hopen, Option.getD_none, Option.getD_some, hquantity]
    omega
  | settle id interval hlookup =>
    have hok := h.intervals id interval hlookup
    have hok' : IntervalOk { interval with settlementComplete := true } :=
      ⟨hok.nonempty, hok.reserved, hok.quantity_le⟩
    refine h.rewrite hlookup hok' hrun ?_
    simp only [quantityTerm]
    omega
  | window p revision => exact h.insert_window _ _ p hrun rfl
  | replacement p run generation admitted stop revision hstop hgeneration hresidual =>
    obtain ⟨a, b, recorded, rfl, -, -⟩ := recordGenerationResidual_eq_ok hresidual
    exact h.insert_window generation _ p hrun rfl
  | close run revision hstate hresidual =>
    obtain ⟨a, b, recorded, rfl, -, -⟩ := recordGenerationResidual_eq_ok hresidual
    exact ⟨hrun, h.intervals, h.fresh, h.quantities⟩

/-- Acceptance starts from one open window and no evidence. -/
theorem acceptMachineQuote_eq_ok {now quoteCreatedMs acceptBefore generation : ℤ} {funded : Bool}
    {prior : Option PriorRun} {p : PreparedRuntimeWindow}
    (h : acceptMachineQuote now funded quoteCreatedMs acceptBefore generation prior p = .ok s) :
    ∃ admitted, s = insertRuntimeWindow p
      { run :=
          { rateVersion := p.rateVersion, state := .accepted, runtimeGeneration := generation
            revision := 0, generationAdmittedNs := admitted, readyNs := none
            provenUntilNs := none, provenEvidenceId := none, replacementRequested := false
            stopNs := none, stopIsUpperBound := false, readyEvidenceId := none
            stopEvidenceId := none, coveredUntilNs := p.fromNs, lastWindowFromNs := p.fromNs
            accountedUntilNs := p.fromNs, cumulativeCoveredNs := 0, cumulativeSeconds := 0
            generationCoveredStartNs := 0, platformResidualNs := 0
            platformResidualUpperBoundNs := 0, generationResidualRecorded := false
            generationFloorNs := prior.bind (·.stopNs) }
        intervals := ∅, nextId := 0, spans := [], readies := [], stops := [] } := by
  unfold acceptMachineQuote at h
  iterate 5
    split at h
    · cases h
  obtain ⟨_, -, h⟩ := bind_eq_ok.mp h
  obtain ⟨admitted, -, h⟩ := bind_eq_ok.mp h
  cases h
  exact ⟨admitted, rfl⟩

theorem Inv.initial (h : runtime.Initial s) : Inv s := by
  obtain ⟨now, funded, quoteCreatedMs, acceptBefore, generation, prior, p, h⟩ := h
  obtain ⟨admitted, rfl⟩ := acceptMachineQuote_eq_ok h
  have hnone {r : ℤ} {P : Prop} (h : (none : Option ℤ) = some r) : P :=
    absurd h (Option.some_ne_none r).symm
  refine ⟨⟨fun _ => rfl, fun _ _ => rfl, ⟨le_rfl, le_rfl⟩, rfl, ⟨le_rfl, le_rfl⟩, fun _ => hnone,
    fun _ _ => hnone, fun _ _ => hnone, fun _ => rfl, fun _ _ => hnone⟩,
    fun id interval hlookup => ?_, fun id hid => ?_, rfl⟩
  · by_cases hid : id = 0
    · subst hid
      rw [insertRuntimeWindow, AList.lookup_insert, Option.some.injEq] at hlookup
      subst hlookup
      exact ⟨p.nonempty, p.seconds_eq, fun _ => hnone⟩
    · rw [insertRuntimeWindow, AList.lookup_insert_ne hid] at hlookup
      cases hlookup
  · rw [insertRuntimeWindow, AList.lookup_insert_ne (Nat.ne_of_gt hid)]
    rfl

end NyxId.MachineRuntime
