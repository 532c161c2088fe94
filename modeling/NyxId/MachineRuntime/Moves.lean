import NyxId.MachineRuntime.Model

/-!
What a committed operation can do to a run. Every operation makes one of nine
moves; the accounting invariants are proved about the moves alone.
-/

namespace NyxId.MachineRuntime

open Interleave

theorem orInvalid_eq_error {α : Type} {reason : String} {x : Option α} {e : AppError}
    (h : orInvalid reason x = .error e) : e = .validationError reason := by
  cases x with
  | none =>
    cases h
    rfl
  | some b => cases h

theorem ns_eq_ok {time a : ℤ} (h : ns time = .ok a) : time = a :=
  (checkedI64_eq_some.mp (orInvalid_eq_ok h)).1

theorem saveRun_eq_ok {s t : State} {run : MachineRuntimeRun} (h : saveRun s run = .ok t) :
    ∃ revision, t = { s with run := { run with revision := revision } } := by
  obtain ⟨revision, -, h⟩ := bind_eq_ok.mp h
  cases h
  exact ⟨revision, rfl⟩

theorem saveRun_eq_error {s : State} {run : MachineRuntimeRun} {e : AppError}
    (h : saveRun s run = .error e) : e = .validationError "runtime revision overflow" := by
  rcases bind_eq_error h with h | ⟨revision, -, h⟩
  · exact orInvalid_eq_error h
  · cases h

theorem checkEvidence_generation {run : MachineRuntimeRun} {now generation time : ℤ}
    {id : String} {u : Unit} (h : checkEvidence run now generation time id = .ok u) :
    run.runtimeGeneration = generation := by
  unfold checkEvidence at h
  split at h
  · cases h
  · rename_i hbad
    by_contra hne
    exact hbad (.inl hne)

/-- The residuals only grow, and nothing else of the contract changes. -/
theorem recordGenerationResidual_eq_ok {run run' : MachineRuntimeRun}
    (h : recordGenerationResidual run = .ok run') :
    ∃ a b recorded, run' = { run with
        platformResidualNs := a
        platformResidualUpperBoundNs := b
        generationResidualRecorded := recorded } ∧
      run.platformResidualNs ≤ a ∧ run.platformResidualUpperBoundNs ≤ b := by
  unfold recordGenerationResidual at h
  split at h
  · cases h
    exact ⟨_, _, _, rfl, le_rfl, le_rfl⟩
  split at h
  · obtain ⟨elapsed, -, h⟩ := bind_eq_ok.mp h
    obtain ⟨covered, -, h⟩ := bind_eq_ok.mp h
    split at h
    · cases h
    rename_i residual hresidual
    have hnonneg : 0 ≤ residual := by
      simpa using (Option.filter_eq_some_iff.mp hresidual).2
    split at h
    · obtain ⟨total, htotal, h⟩ := bind_eq_ok.mp h
      have hsum := (checkedI64_eq_some.mp (orInvalid_eq_ok htotal)).1
      cases h
      exact ⟨_, _, _, rfl, le_rfl, by omega⟩
    · obtain ⟨total, htotal, h⟩ := bind_eq_ok.mp h
      have hsum := (checkedI64_eq_some.mp (orInvalid_eq_ok htotal)).1
      cases h
      exact ⟨_, _, _, rfl, by omega, le_rfl⟩
  · cases h
    exact ⟨_, _, _, rfl, le_rfl, le_rfl⟩

theorem earliestOpen_eq_some {intervals : Collection Id MachineRuntimeInterval} {id : Id}
    {interval : MachineRuntimeInterval} (h : earliestOpen intervals = some (id, interval)) :
    intervals.lookup id = some interval ∧ interval.quantity = none := by
  obtain ⟨e, he, heq⟩ := Option.map_eq_some_iff.mp h
  obtain ⟨hmem, hopen⟩ := List.mem_filter.mp (oldest_mem he)
  cases heq
  exact ⟨AList.mem_lookup_iff.mpr hmem, Option.isNone_iff_eq_none.mp hopen⟩

/-- The window that an operation inserts for a generation. -/
def openInterval (generation : ℤ) (rateVersion : Id) (p : PreparedRuntimeWindow) :
    MachineRuntimeInterval where
  runtimeGeneration := generation
  rateVersion := rateVersion
  intervalId := p.intervalId
  coveredFromNs := p.fromNs
  coveredUntilNs := p.untilNs
  reservedSeconds := p.seconds
  evidenceId := none
  evidencedNs := none
  quantity := none
  settlementComplete := false

/-- The moves of a run; `P` is what is known of the instant of an accepted stop. -/
inductive Move (P : ℤ → Prop) (s : State) : State → Prop where
  | same : Move P s s
  | ready (ready revision : ℤ) (id : String) (hstate : s.run.state = .accepted)
      (hnone : s.run.readyNs = none) (hfloor : ∀ f, s.run.generationFloorNs = some f → f ≤ ready) :
      Move P s { s with
        readies := s.readies ++ [(s.run.runtimeGeneration, ready)]
        run := { s.run with
          readyNs := some ready
          provenUntilNs := some ready
          readyEvidenceId := some id
          provenEvidenceId := some id
          state := .running
          revision := revision } }
  | running (through revision : ℤ) (id : String)
      (hstate : s.run.state = .running ∨ s.run.state = .stopPending)
      (hready : ∃ ready, s.run.readyNs = some ready ∧ ready ≤ through)
      (hproven : ∀ p, s.run.provenUntilNs = some p → p ≤ through) :
      Move P s { s with
        run := { s.run with
          provenUntilNs := some through, provenEvidenceId := some id, revision := revision } }
  | request (state : MachineRuntimeRunState) (replacement : Bool) (revision : ℤ)
      (hstate : state = s.run.state ∨
        (state = .stopPending ∧ s.run.state ≠ .stopped ∧ s.run.state ≠ .closed))
      (hnarrow : replacement = true → s.run.replacementRequested = true ∨
        s.run.state = .accepted ∨ s.run.state = .running) :
      Move P s { s with
        run := { s.run with
          state := state, replacementRequested := replacement, revision := revision } }
  | stop (stop proven revision : ℤ) (upper : Bool) (stopId provenId : Option String)
      (hnone : s.run.stopNs = none) (hP : P stop)
      (hready : ∀ r, s.run.readyNs = some r → r ≤ stop)
      (hproven : ∀ p, s.run.provenUntilNs = some p → p ≤ proven) (hle : proven ≤ stop)
      (hstate : s.run.state ≠ .closed) :
      Move P s { s with
        stops := s.stops ++ [(s.run.runtimeGeneration, stop)]
        run := { s.run with
          stopNs := some stop
          stopIsUpperBound := upper
          stopEvidenceId := stopId
          provenUntilNs := some proven
          provenEvidenceId := provenId
          state := .stopped
          revision := revision } }
  | finalize (id : Id) (interval : MachineRuntimeInterval) (proven total quantity revision : ℤ)
      (hlookup : s.intervals.lookup id = some interval) (hopen : interval.quantity = none)
      (hproven : s.run.provenUntilNs = some proven)
      (haccounted : s.run.accountedUntilNs ≤ interval.coveredFromNs)
      (htotal : cumulativeSeconds s.run.cumulativeCoveredNs (evidenced s.run proven interval) =
        some (total, quantity))
      (hreserved : quantity ≤ interval.reservedSeconds) :
      Move P s { s with
        intervals := s.intervals.insert id { interval with
          evidencedNs := some (evidenced s.run proven interval)
          quantity := some quantity
          evidenceId := s.run.provenEvidenceId }
        spans := s.spans ++ evidencedSpan s.run interval (evidenced s.run proven interval)
        run := { s.run with
          cumulativeCoveredNs := total
          cumulativeSeconds := total / secondNs
          accountedUntilNs := interval.coveredUntilNs
          revision := revision } }
  | settle (id : Id) (interval : MachineRuntimeInterval)
      (hlookup : s.intervals.lookup id = some interval) :
      Move P s { s with
        intervals := s.intervals.insert id { interval with settlementComplete := true } }
  | window (p : PreparedRuntimeWindow) (revision : ℤ) (hstate : s.run.state = .running) :
      Move P s { s with
        intervals := s.intervals.insert s.nextId
          (openInterval s.run.runtimeGeneration s.run.rateVersion p)
        nextId := s.nextId + 1
        run := { s.run with
          coveredUntilNs := p.untilNs, lastWindowFromNs := p.fromNs, revision := revision } }
  | replacement (p : PreparedRuntimeWindow) (run : MachineRuntimeRun)
      (generation admitted stop revision : ℤ) (hstop : s.run.stopNs = some stop)
      (hgeneration : s.run.runtimeGeneration < generation)
      (hresidual : recordGenerationResidual s.run = .ok run)
      (hrequested : s.run.replacementRequested = true) :
      Move P s { s with
        intervals := s.intervals.insert s.nextId (openInterval generation s.run.rateVersion p)
        nextId := s.nextId + 1
        run := { run with
          generationFloorNs := some stop
          runtimeGeneration := generation
          generationCoveredStartNs := run.cumulativeCoveredNs
          generationResidualRecorded := false
          generationAdmittedNs := admitted
          readyNs := none
          provenUntilNs := none
          readyEvidenceId := none
          provenEvidenceId := none
          stopNs := none
          stopIsUpperBound := false
          stopEvidenceId := none
          replacementRequested := false
          state := .accepted
          accountedUntilNs := p.fromNs
          coveredUntilNs := p.untilNs
          lastWindowFromNs := p.fromNs
          revision := revision } }
  | close (run : MachineRuntimeRun) (revision : ℤ) (hstate : s.run.state = .stopped)
      (hresidual : recordGenerationResidual s.run = .ok run)
      (hrequested : s.run.replacementRequested = false) :
      Move P s { s with run := { run with state := .closed, revision := revision } }

/-- The instant at which an operation says that the generation stopped. -/
def Operation.stopInstant : Operation → Option ℤ
  | .proveStopped _ _ stoppedAt _ => some stoppedAt
  | .proveStopObserved _ _ observedAt _ => some observedAt
  | _ => none

variable {P : ℤ → Prop} {s t : State}

theorem le_of_not_any {known : Option ℤ} {instant : ℤ} (h : ¬ known.any (instant < ·) = true) :
    ∀ n, known = some n → n ≤ instant := by
  rintro n rfl
  simpa using h

theorem proveMachineReady_move {now generation readyAt : ℤ} {id : String}
    (h : proveMachineReady now generation readyAt id s = .ok t) : Move P s t := by
  obtain ⟨_, hcheck, h⟩ := bind_eq_ok.mp h
  obtain ⟨ready, -, h⟩ := bind_eq_ok.mp h
  have hgeneration := checkEvidence_generation hcheck
  split at h
  · split at h
    · cases h
      exact .same
    · cases h
  · rename_i hnone
    split at h
    · cases h
    rename_i hbad
    simp only [not_or, not_lt, not_le, Decidable.not_not] at hbad
    obtain ⟨revision, rfl⟩ := saveRun_eq_ok h
    subst hgeneration
    exact .ready ready revision id hbad.1 hnone (le_of_not_any hbad.2.2.2)

theorem proveMachineRunning_move {now generation throughAt : ℤ} {id : String}
    (h : proveMachineRunning now generation throughAt id s = .ok t) : Move P s t := by
  obtain ⟨_, -, h⟩ := bind_eq_ok.mp h
  obtain ⟨through, -, h⟩ := bind_eq_ok.mp h
  split at h
  · cases h
  rename_i hbad
  simp only [not_or, not_and_or, Decidable.not_not] at hbad
  obtain ⟨revision, rfl⟩ := saveRun_eq_ok h
  obtain ⟨hstate, hready, hproven⟩ := hbad
  refine .running through revision id hstate ?_ (le_of_not_any hproven)
  cases hr : s.run.readyNs with
  | none => simp [hr] at hready
  | some ready =>
    rw [hr] at hready
    exact ⟨ready, rfl, by simpa using hready⟩

theorem requestMachineRuntimeStop_move {generation : ℤ} {replacement : Bool}
    (h : requestMachineRuntimeStop generation replacement s = .ok t) : Move P s t := by
  unfold requestMachineRuntimeStop at h
  split at h
  · cases h
  split at h
  · cases h
    exact .same
  · rename_i hstate
    split at h
    · obtain ⟨revision, rfl⟩ := saveRun_eq_ok h
      exact .request s.run.state false revision (.inl rfl) (fun hreplacement => by cases hreplacement)
    split at h
    · cases h
    · cases h
      exact .same
  · rename_i hclosed hstopped
    split at h
    · cases h
    rename_i hbad
    obtain ⟨revision, rfl⟩ := saveRun_eq_ok h
    refine .request .stopPending replacement revision
      (.inr ⟨rfl, fun hs => hstopped hs, fun hs => hclosed hs⟩) fun hreplacement => ?_
    cases hstate : s.run.state with
    | accepted => exact .inr (.inl rfl)
    | running => exact .inr (.inr rfl)
    | stopPending =>
      -- A pending owner stop is never widened.
      left
      by_contra hrequested
      exact hbad ⟨hstate, fun heq => hrequested (heq.trans hreplacement), hreplacement⟩
    | stopped => exact absurd hstate fun hs => hstopped hs
    | closed => exact absurd hstate fun hs => hclosed hs

theorem proveMachineStopped_move {now generation stoppedAt : ℤ} {id : String}
    (hP : s.run.stopNs = none → P stoppedAt)
    (h : proveMachineStopped now generation stoppedAt id s = .ok t) : Move P s t := by
  obtain ⟨_, hcheck, h⟩ := bind_eq_ok.mp h
  obtain ⟨stop, hns, h⟩ := bind_eq_ok.mp h
  obtain rfl := ns_eq_ok hns
  obtain rfl := checkEvidence_generation hcheck
  split at h
  · split at h
    · cases h
      exact .same
    · cases h
  · rename_i hnone
    split at h
    · cases h
    rename_i hbad
    simp only [not_or] at hbad
    obtain ⟨revision, rfl⟩ := saveRun_eq_ok h
    exact .stop stoppedAt stoppedAt revision _ _ _ hnone (hP hnone) (le_of_not_any hbad.2.1)
      (le_of_not_any hbad.2.2) le_rfl hbad.1

theorem proveMachineStopObserved_move {now generation observedAt : ℤ} {id : String}
    (hP : s.run.stopNs = none → P observedAt)
    (h : proveMachineStopObserved now generation observedAt id s = .ok t) : Move P s t := by
  obtain ⟨_, hcheck, h⟩ := bind_eq_ok.mp h
  obtain ⟨stop, hns, h⟩ := bind_eq_ok.mp h
  obtain rfl := ns_eq_ok hns
  obtain rfl := checkEvidence_generation hcheck
  split at h
  · split at h
    · cases h
      exact .same
    · cases h
  · rename_i hnone
    split at h
    · cases h
    rename_i hbad
    simp only [not_or] at hbad
    obtain ⟨hopen, hready, hproven⟩ := hbad
    obtain ⟨revision, rfl⟩ := saveRun_eq_ok h
    refine .stop observedAt _ revision _ _ _ hnone (hP hnone) (le_of_not_any hready) ?_ ?_ hopen
    · intro p hp
      simp only [hp, le_refl]
    · cases hp : s.run.provenUntilNs with
      | none => exact min_le_right _ _
      | some p => exact le_of_not_any hproven p hp

theorem finalizeMachineInterval_move {usageOpen : Bool}
    (h : finalizeMachineInterval usageOpen s = .ok t) : Move P s t := by
  unfold finalizeMachineInterval at h
  split at h
  · cases h
    exact .same
  rename_i id interval hopen
  obtain ⟨hlookup, hquantity⟩ := earliestOpen_eq_some hopen
  split at h
  · cases h
  split at h
  · cases h
    exact .same
  rename_i proven hproven
  split at h
  · cases h
    exact .same
  split at h
  · cases h
  rename_i haccounted
  obtain ⟨⟨total, quantity⟩, htotal, h⟩ := bind_eq_ok.mp h
  dsimp only at h
  split at h
  · cases h
  rename_i hreserved
  split at h
  · cases h
  obtain ⟨revision, rfl⟩ := saveRun_eq_ok h
  exact .finalize id interval proven total quantity revision hlookup hquantity hproven
    (by omega) (orInvalid_eq_ok htotal) (by omega)

theorem settleMachineInterval_move {id : Id} (h : settleMachineInterval id s = .ok t) :
    Move P s t := by
  unfold settleMachineInterval at h
  split at h
  · rename_i interval hlookup
    split at h
    · cases h
      exact .settle id interval hlookup
    · cases h
      exact .same
  · cases h
    exact .same

theorem closeMachineRuntime_move (h : closeMachineRuntime s = .ok t) : Move P s t := by
  unfold closeMachineRuntime at h
  split at h
  · cases h
    exact .same
  split at h
  · cases h
  rename_i hbad
  simp only [not_or, Decidable.not_not] at hbad
  obtain ⟨_, -, h⟩ := bind_eq_ok.mp h
  obtain ⟨run, hresidual, h⟩ := bind_eq_ok.mp h
  obtain ⟨revision, rfl⟩ := saveRun_eq_ok h
  exact .close run revision hbad.1 hresidual (Bool.eq_false_of_not_eq_true hbad.2.2)

theorem reserveMachineNextWindow_move {now source : ℤ} {funded : Bool}
    {p : PreparedRuntimeWindow} (h : reserveMachineNextWindow now funded source p s = .ok t) :
    Move P s t := by
  unfold reserveMachineNextWindow at h
  split at h
  · cases h
  obtain ⟨found, -, h⟩ := bind_eq_ok.mp h
  split at h
  · cases h
    exact .same
  split at h
  · cases h
  rename_i hfence
  simp only [not_or, Decidable.not_not] at hfence
  split at h
  · cases h
  obtain ⟨_, -, h⟩ := bind_eq_ok.mp h
  obtain ⟨revision, rfl⟩ := saveRun_eq_ok h
  exact .window p revision hfence.1

theorem reserveMachineReplacement_move {now generation : ℤ} {funded : Bool}
    {p : PreparedRuntimeWindow}
    (h : reserveMachineReplacement now funded generation p s = .ok t) : Move P s t := by
  unfold reserveMachineReplacement at h
  split at h
  · cases h
  obtain ⟨found, -, h⟩ := bind_eq_ok.mp h
  split at h
  · split at h
    · cases h
    · cases h
      exact .same
  split at h
  · cases h
  rename_i hbad
  simp only [not_or, not_le] at hbad
  have hrequested : s.run.replacementRequested = true := by simpa using hbad.2.1
  obtain ⟨_, -, h⟩ := bind_eq_ok.mp h
  obtain ⟨run, hresidual, h⟩ := bind_eq_ok.mp h
  obtain ⟨_, -, h⟩ := bind_eq_ok.mp h
  obtain ⟨admitted, -, h⟩ := bind_eq_ok.mp h
  obtain ⟨revision, rfl⟩ := saveRun_eq_ok h
  obtain ⟨a, b, recorded, hrun, -, -⟩ := recordGenerationResidual_eq_ok hresidual
  cases hstop : s.run.stopNs with
  | none => simp [hstop] at hbad
  | some stop =>
    have hsame : run.stopNs = some stop ∧ run.rateVersion = s.run.rateVersion := by
      rw [hrun]
      exact ⟨hstop, rfl⟩
    have hmove := Move.replacement (P := P) p run generation admitted stop revision hstop
      hbad.2.2.1 hresidual hrequested
    simpa only [insertRuntimeWindow, openInterval, hsame] using hmove

/-- Every committed operation is a move of the run. -/
theorem apply_move (op : Operation)
    (hP : ∀ stop, op.stopInstant = some stop → s.run.stopNs = none → P stop)
    (h : apply op s = .ok t) : Move P s t := by
  cases op with
  | reserveNextWindow now funded source p => exact reserveMachineNextWindow_move h
  | proveReady now generation readyAt id => exact proveMachineReady_move h
  | proveRunning now generation through id => exact proveMachineRunning_move h
  | requestStop generation replacement => exact requestMachineRuntimeStop_move h
  | proveStopped now generation stoppedAt id =>
    exact proveMachineStopped_move (hP stoppedAt rfl) h
  | proveStopObserved now generation observedAt id =>
    exact proveMachineStopObserved_move (hP observedAt rfl) h
  | finalizeInterval usageOpen => exact finalizeMachineInterval_move h
  | settleInterval id => exact settleMachineInterval_move h
  | reserveReplacement now funded generation p => exact reserveMachineReplacement_move h
  | close => exact closeMachineRuntime_move h

end NyxId.MachineRuntime
