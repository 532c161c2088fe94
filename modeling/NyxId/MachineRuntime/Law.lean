import NyxId.MachineRuntime.Coverage

/-!
The accounting law of a Machine contract, and the run that breaks it: a stop
recorded before the floor of a generation that was never ready lowers the floor,
and the next generation is charged for time already charged.
-/

namespace NyxId.MachineRuntime

open Interleave

/-- What the finalized intervals of a contract may say. -/
structure RuntimeLaw (s : State) : Prop where
  quantities : Collection.sumOf quantityTerm s.intervals = s.run.cumulativeCoveredNs / secondNs
  funded : ∀ id interval q, s.intervals.lookup id = some interval → interval.quantity = some q →
    q ≤ interval.reservedSeconds
  guard : ∀ usageOpen, finalizeMachineInterval usageOpen s ≠
    conflict "runtime evidence exceeds funded responsibility"
  covered : (s.spans.map fun span => span.finish - span.start).sum = s.run.cumulativeCoveredNs
  disjoint : s.spans.Pairwise fun a b => a.finish ≤ b.start ∨ b.finish ≤ a.start
  within : ∀ span ∈ s.spans, span.start < span.finish ∧
    (∃ ready, (span.generation, ready) ∈ s.readies ∧ ready ≤ span.start) ∧
    ∀ stop, (span.generation, stop) ∈ s.stops → span.finish ≤ stop
  residual : 0 ≤ s.run.platformResidualNs ∧ 0 ≤ s.run.platformResidualUpperBoundNs ∧
    ∀ run, recordGenerationResidual s.run = .ok run →
      s.run.platformResidualNs ≤ run.platformResidualNs ∧
        s.run.platformResidualUpperBoundNs ≤ run.platformResidualUpperBoundNs
  residual_guard : recordGenerationResidual s.run ≠
    conflict "runtime funded evidence exceeds elapsed time"

/-- Runs whose stops respect the floors satisfy the law in every state. -/
theorem runtime_law {s : State} (h : runtime.Reaches StopAfterFloor s) : RuntimeLaw s := by
  obtain ⟨hinv, hcoverage⟩ := coverage_of_reaches h
  constructor
  · exact hinv.quantities
  · exact fun id interval q hlookup hq => ((hinv.intervals id interval hlookup).quantity_le q hq).2
  · exact finalize_guard_unreachable hinv
  · exact hcoverage.total
  · exact hcoverage.ordered.imp fun hle => Or.inl hle
  · exact fun span hspan => ⟨hcoverage.nonempty span hspan, hcoverage.started span hspan,
      hcoverage.stopped span hspan⟩
  · refine ⟨hinv.run.residuals.1, hinv.run.residuals.2, fun run hrun => ?_⟩
    obtain ⟨a, b, recorded, rfl, ha, hb⟩ := recordGenerationResidual_eq_ok hrun
    exact ⟨ha, hb⟩
  · exact residual_guard_unreachable hinv

def firstWindow : PreparedRuntimeWindow :=
  ⟨1, 7, 0, 0, 10000000000, 10, by decide, by decide, by decide⟩

/-- The contract accepted at instant zero for ten seconds. -/
def accepted : Except AppError State :=
  acceptMachineQuote 0 true 0 900000000000 1 none firstWindow

theorem accepted_initial {s : State} (h : accepted = .ok s) : runtime.Initial s :=
  ⟨0, true, 0, 900000000000, 1, none, firstWindow, h⟩

/-- Ready after one second, proven to the end of the window, and finalized. -/
def oneWindow : List Operation :=
  [.proveReady 1000000000 1 1000000000 "ready", .proveRunning 10000000000 1 10000000000 "run",
    .finalizeInterval true]

theorem nine_seconds_charged : ∃ s t, accepted = .ok s ∧
    Transactions.run (T := runtime) oneWindow s = .ok t ∧ RuntimeLaw t ∧
    Collection.sumOf quantityTerm t.intervals = 9 := by
  refine ⟨_, _, rfl, rfl, ?_, rfl⟩
  refine runtime_law (Transactions.Reaches.run oneWindow ?_ (.start (accepted_initial rfl)) rfl)
  intro op hop u stop hstop
  rcases List.mem_cons.mp hop with rfl | hop
  · cases hstop
  rcases List.mem_cons.mp hop with rfl | hop
  · cases hstop
  · obtain rfl := List.mem_singleton.mp hop
    cases hstop

def secondWindow : PreparedRuntimeWindow :=
  ⟨2, 7, 5100000000, 6000000000, 16000000000, 10, by decide, by decide, by decide⟩

def thirdWindow : PreparedRuntimeWindow :=
  ⟨3, 7, 5200000000, 3000000000, 13000000000, 10, by decide, by decide, by decide⟩

/-- The second generation never becomes ready and is said to have stopped at two
seconds, before the first one stopped at six. The third runs from 5.2 seconds. -/
def loweredFloor : List Operation :=
  [.proveReady 1000000000 1 1000000000 "ready-1", .requestStop 1 true,
    .proveStopped 5000000000 1 6000000000 "stop-1", .finalizeInterval true, .settleInterval 0,
    .reserveReplacement 5100000000 true 2 secondWindow, .requestStop 2 true,
    .proveStopped 5150000000 2 2000000000 "stop-2", .finalizeInterval true, .settleInterval 1,
    .reserveReplacement 5200000000 true 3 thirdWindow,
    .proveReady 5200000000 3 5200000000 "ready-3", .requestStop 3 false,
    .proveStopped 12000000000 3 12000000000 "stop-3", .finalizeInterval true]

/-- The instants from 5.2 to 6 seconds are charged twice. -/
theorem lowered_floor_charges_twice : ∃ s : State, runtime.Reaches (fun _ _ => True) s ∧
    s.spans = [⟨1, 1000000000, 6000000000⟩, ⟨3, 5200000000, 12000000000⟩] ∧
    ¬ RuntimeLaw s := by
  have hrun : ∃ s t, accepted = .ok s ∧ Transactions.run (T := runtime) loweredFloor s = .ok t ∧
      t.spans = [⟨1, 1000000000, 6000000000⟩, ⟨3, 5200000000, 12000000000⟩] :=
    ⟨_, _, rfl, rfl, rfl⟩
  obtain ⟨s, t, hs, ht, hspans⟩ := hrun
  refine ⟨t, ?_, hspans, fun hlaw => ?_⟩
  · exact Transactions.Reaches.run loweredFloor (fun _ _ _ => trivial)
      (.start (accepted_initial hs)) ht
  · have hdisjoint := hlaw.disjoint
    rw [hspans] at hdisjoint
    revert hdisjoint
    decide

/-!
A stop that asks for no replacement is final: the run gets no further generation
and no further window, and its stop and stop evidence stay as they are recorded.
-/

/-- What a reservation fixes of a window. -/
def MachineRuntimeInterval.reservation (interval : MachineRuntimeInterval) :
    ℤ × Id × Id × ℤ × ℤ × ℤ :=
  (interval.runtimeGeneration, interval.rateVersion, interval.intervalId,
    interval.coveredFromNs, interval.coveredUntilNs, interval.reservedSeconds)

/-- The evidence that a generation stopped, and how long it is proven to have run. -/
def MachineRuntimeRun.stopEvidence (run : MachineRuntimeRun) :
    Option ℤ × Bool × Option String × Option ℤ × Option String :=
  (run.stopNs, run.stopIsUpperBound, run.stopEvidenceId, run.provenUntilNs, run.provenEvidenceId)

/-- The phases that a stopped contract can still pass through. -/
inductive StopPhase : MachineRuntimeRunState → MachineRuntimeRunState → Prop where
  | pending : StopPhase .stopPending .stopPending
  | proven : StopPhase .stopPending .stopped
  | settled : StopPhase .stopPending .closed
  | stopped : StopPhase .stopped .stopped
  | closing : StopPhase .stopped .closed
  | closed : StopPhase .closed .closed

theorem StopPhase.trans {a b c : MachineRuntimeRunState} (hab : StopPhase a b)
    (hbc : StopPhase b c) : StopPhase a c := by
  cases hab <;> cases hbc <;> constructor

theorem StopPhase.closes {a b : MachineRuntimeRunState} (h : StopPhase a b) :
    StopPhase b .closed := by
  cases h <;> constructor

theorem StopPhase.refl_of_closes {a : MachineRuntimeRunState} (h : StopPhase a .closed) :
    StopPhase a a := by
  cases h <;> constructor

theorem StopPhase.live {a : MachineRuntimeRunState} (h : StopPhase a .closed) :
    a ≠ .accepted ∧ a ≠ .running := by
  cases h <;> decide

/-- The phase of a run goes with its stop. -/
structure PhaseOk (run : MachineRuntimeRun) : Prop where
  stopped : run.stopNs ≠ none ↔ run.state = .stopped ∨ run.state = .closed
  closed : run.state = .closed → run.replacementRequested = false

theorem PhaseOk.of_live {run : MachineRuntimeRun} (hstop : run.stopNs = none)
    (hstopped : run.state ≠ .stopped) (hclosed : run.state ≠ .closed) : PhaseOk run := by
  refine ⟨⟨fun h => absurd hstop h, ?_⟩, fun h => absurd h hclosed⟩
  rintro (h | h)
  · exact absurd h hstopped
  · exact absurd h hclosed

/-- An owner stop is recorded. -/
structure OwnerStopped (run : MachineRuntimeRun) : Prop where
  phase : StopPhase run.state .closed
  request : run.replacementRequested = false

theorem OwnerStopped.pending {run : MachineRuntimeRun} (h : OwnerStopped run)
    (hstopped : run.state ≠ .stopped) (hclosed : run.state ≠ .closed) :
    run.state = .stopPending := by
  have hlive := h.phase.live
  cases hstate : run.state with
  | stopPending => rfl
  | stopped => exact absurd hstate hstopped
  | closed => exact absurd hstate hclosed
  | accepted => exact absurd hstate hlive.1
  | running => exact absurd hstate hlive.2

/-- What never changes from a state after an owner stop to a later one. -/
structure StopFinal (s t : State) : Prop where
  generation : t.run.runtimeGeneration = s.run.runtimeGeneration
  windows : ∀ id, (t.intervals.lookup id).map MachineRuntimeInterval.reservation =
    (s.intervals.lookup id).map MachineRuntimeInterval.reservation
  request : t.run.replacementRequested = false
  evidence : s.run.stopNs ≠ none → t.run.stopEvidence = s.run.stopEvidence
  phase : StopPhase s.run.state t.run.state

theorem StopFinal.refl {s : State} (h : OwnerStopped s.run) : StopFinal s s :=
  ⟨rfl, fun _ => rfl, h.request, fun _ => rfl, h.phase.refl_of_closes⟩

theorem StopFinal.trans {s t u : State} (hst : StopFinal s t) (htu : StopFinal t u) :
    StopFinal s u := by
  refine ⟨htu.generation.trans hst.generation, fun id => (htu.windows id).trans (hst.windows id),
    htu.request, fun hstop => ?_, hst.phase.trans htu.phase⟩
  have hkept := hst.evidence hstop
  have hnone : t.run.stopNs ≠ none := by
    rw [show t.run.stopNs = s.run.stopNs from congrArg Prod.fst hkept]
    exact hstop
  exact (htu.evidence hnone).trans hkept

/-- A window keeps its reservation when its evidence or its settlement is recorded. -/
theorem reservation_insert {intervals : Collection Id MachineRuntimeInterval} {id : Id}
    {old new : MachineRuntimeInterval} (hlookup : intervals.lookup id = some old)
    (hsame : new.reservation = old.reservation) (other : Id) :
    ((intervals.insert id new).lookup other).map MachineRuntimeInterval.reservation =
      (intervals.lookup other).map MachineRuntimeInterval.reservation := by
  by_cases heq : other = id
  · subst heq
    rw [AList.lookup_insert, hlookup]
    exact congrArg some hsame
  · rw [AList.lookup_insert_ne heq]

variable {s t : State}

theorem PhaseOk.stop_none {run : MachineRuntimeRun} (h : PhaseOk run)
    (hstopped : run.state ≠ .stopped) (hclosed : run.state ≠ .closed) : run.stopNs = none := by
  by_contra hstop
  rcases h.stopped.mp hstop with hstate | hstate
  · exact hstopped hstate
  · exact hclosed hstate

theorem Move.phaseOk {P : ℤ → Prop} (hmove : Move P s t) (h : PhaseOk s.run) : PhaseOk t.run := by
  cases hmove with
  | same => exact h
  | ready ready revision id hstate =>
    have hstop : s.run.stopNs = none := h.stop_none (by simp [hstate]) (by simp [hstate])
    exact .of_live hstop (by simp) (by simp)
  | running through revision id hstate => exact ⟨h.stopped, h.closed⟩
  | request state replacement revision hstate hnarrow =>
    rcases hstate with rfl | ⟨rfl, hstopped, hclosed⟩
    · refine ⟨h.stopped, fun hclosed => ?_⟩
      have hclosed : s.run.state = .closed := hclosed
      show replacement = false
      by_contra hreplacement
      have hnarrow := hnarrow (Bool.eq_true_of_not_eq_false hreplacement)
      simp [h.closed hclosed, hclosed] at hnarrow
    · exact .of_live (h.stop_none hstopped hclosed) (by simp) (by simp)
  | stop => exact ⟨by simp, fun hstate => by simp at hstate⟩
  | finalize => exact ⟨h.stopped, h.closed⟩
  | settle => exact h
  | window => exact ⟨h.stopped, h.closed⟩
  | replacement => exact .of_live rfl (by simp) (by simp)
  | close run revision hstate hresidual hrequested =>
    obtain ⟨a, b, recorded, rfl, -, -⟩ := recordGenerationResidual_eq_ok hresidual
    exact ⟨⟨fun _ => .inr rfl, fun _ => h.stopped.mpr (.inl hstate)⟩, fun _ => hrequested⟩

theorem acceptMachineQuote_phaseOk {now quoteCreatedMs acceptBefore generation : ℤ}
    {funded : Bool} {prior : Option PriorRun} {p : PreparedRuntimeWindow}
    (h : acceptMachineQuote now funded quoteCreatedMs acceptBefore generation prior p = .ok s) :
    PhaseOk s.run := by
  unfold acceptMachineQuote at h
  iterate 5
    split at h
    · cases h
  obtain ⟨_, -, h⟩ := bind_eq_ok.mp h
  obtain ⟨admitted, -, h⟩ := bind_eq_ok.mp h
  cases h
  exact .of_live rfl (by simp [insertRuntimeWindow]) (by simp [insertRuntimeWindow])

theorem phaseOk_of_reaches (h : runtime.Reaches (fun _ _ => True) s) : PhaseOk s.run := by
  refine h.invariant (P := fun s : State => PhaseOk s.run) ?_ ?_
  · rintro s ⟨now, funded, created, before, generation, prior, p, haccept⟩
    exact acceptMachineQuote_phaseOk haccept
  · intro op s t hs _ happly
    exact (apply_move (P := fun _ => True) op (fun _ _ _ => trivial) happly).phaseOk hs

/-- No move leaves an owner stop: each is fenced by the phase or by the request. -/
theorem Move.stopFinal {P : ℤ → Prop} (hmove : Move P s t) (hphase : PhaseOk s.run)
    (h : OwnerStopped s.run) : StopFinal s t := by
  have hsame := StopFinal.refl h
  have hlive := h.phase.live
  cases hmove with
  | same => exact hsame
  | ready ready revision id hstate => exact absurd hstate hlive.1
  | running through revision id hstate =>
    -- Running evidence is accepted only before the stop is proven.
    refine ⟨rfl, fun _ => rfl, h.request, fun hstop => ?_, hsame.phase⟩
    rcases hstate with hstate | hstate
    · exact absurd hstate hlive.2
    · have hstopped := hphase.stopped.mp hstop
      simp [hstate] at hstopped
  | request state replacement revision hstate hnarrow =>
    have hrequest : replacement = false := by
      by_contra hreplacement
      have hnarrow := hnarrow (Bool.eq_true_of_not_eq_false hreplacement)
      simp [h.request, hlive] at hnarrow
    refine ⟨rfl, fun _ => rfl, hrequest, fun _ => rfl, ?_⟩
    show StopPhase s.run.state state
    rcases hstate with rfl | ⟨rfl, hstopped, hclosed⟩
    · exact hsame.phase
    · rw [h.pending hstopped hclosed]
      exact .pending
  | stop stop proven revision upper stopId provenId hnone hP hready hproven hle hstate =>
    have hstopped : s.run.state ≠ .stopped := fun heq => hphase.stopped.mpr (.inl heq) hnone
    refine ⟨rfl, fun _ => rfl, h.request, fun hstop => absurd hnone hstop, ?_⟩
    show StopPhase s.run.state .stopped
    rw [h.pending hstopped hstate]
    exact .proven
  | finalize id interval proven total quantity revision hlookup =>
    exact ⟨rfl, reservation_insert hlookup rfl, h.request, fun _ => rfl, hsame.phase⟩
  | settle id interval hlookup =>
    exact ⟨rfl, reservation_insert hlookup rfl, h.request, fun _ => rfl, hsame.phase⟩
  | window p revision hstate => exact absurd hstate hlive.2
  | replacement p run generation admitted stop revision hstop hgeneration hresidual hrequested =>
    rw [h.request] at hrequested
    cases hrequested
  | close run revision hstate hresidual hrequested =>
    obtain ⟨a, b, recorded, rfl, -, -⟩ := recordGenerationResidual_eq_ok hresidual
    refine ⟨rfl, fun _ => rfl, h.request, fun _ => rfl, ?_⟩
    show StopPhase s.run.state .closed
    exact h.phase

theorem StopFinal.ownerStopped (h : StopFinal s t) :
    OwnerStopped t.run :=
  ⟨h.phase.closes, h.request⟩

/-- Every sequence of attempts after an owner stop leaves the stop final. -/
theorem attempts_stopFinal (ops : List Operation) (hphase : PhaseOk s.run)
    (h : OwnerStopped s.run) : StopFinal s (runtime.attempts ops s) := by
  have hkept := Transactions.attempts_keeps (T := runtime)
    (P := fun u : State => PhaseOk u.run ∧ StopFinal s u) ?_ ops ⟨hphase, .refl h⟩
  · exact hkept.2
  · rintro op u v ⟨hu, hsu⟩ happly
    have hmove := apply_move (P := fun _ => True) op (fun _ _ _ => trivial) happly
    exact ⟨hmove.phaseOk hu, hsu.trans (hmove.stopFinal hu hsu.ownerStopped)⟩

theorem requestMachineRuntimeStop_ownerStopped {generation : ℤ} (hphase : PhaseOk s.run)
    (h : requestMachineRuntimeStop generation false s = .ok t) : OwnerStopped t.run := by
  unfold requestMachineRuntimeStop at h
  split at h
  · cases h
  split at h
  · rename_i hstate
    cases h
    exact ⟨by rw [hstate]; exact .closed, hphase.closed hstate⟩
  · rename_i hstate
    split at h
    · obtain ⟨revision, rfl⟩ := saveRun_eq_ok h
      refine ⟨?_, rfl⟩
      show StopPhase s.run.state .closed
      rw [hstate]
      exact .closing
    · rename_i hrequested
      cases h
      exact ⟨by rw [hstate]; exact .closing, by simpa using hrequested⟩
  · split at h
    · cases h
    · obtain ⟨revision, rfl⟩ := saveRun_eq_ok h
      exact ⟨.settled, rfl⟩

/-- Between any two later states of a run that its owner stopped, nothing but the
proof of the stop, its settlement and the close can happen. -/
theorem owner_stop_is_final {generation : ℤ} (hs : runtime.Reaches (fun _ _ => True) s)
    (hstop : requestMachineRuntimeStop generation false s = .ok t)
    (before after : List Operation) :
    StopFinal (runtime.attempts before t) (runtime.attempts after (runtime.attempts before t)) := by
  have hreached : runtime.Reaches (fun _ _ => True) t :=
    hs.commit (.requestStop generation false) trivial hstop
  have hstopped := requestMachineRuntimeStop_ownerStopped (phaseOk_of_reaches hs) hstop
  have hfinal := attempts_stopFinal before (phaseOk_of_reaches hreached) hstopped
  exact attempts_stopFinal after (phaseOk_of_reaches (hreached.attempts before))
    hfinal.ownerStopped

/-- The owner stops the run, a renewal and a replacement are attempted, the stop is
proven, and the run is settled and closed. -/
def stopAndClose : List Operation :=
  [.reserveNextWindow 9000000000 true 1 secondWindow, .requestStop 1 true,
    .proveStopped 5000000000 1 6000000000 "stop-1",
    .reserveReplacement 5100000000 true 2 secondWindow, .finalizeInterval true,
    .settleInterval 0, .close]

theorem stopped_run_closes : ∃ s t, accepted = .ok s ∧
    requestMachineRuntimeStop 1 false s = .ok t ∧
    (runtime.attempts stopAndClose t : State).run.state = .closed ∧
    StopFinal t (runtime.attempts stopAndClose t) := by
  have hrun : ∃ s t, accepted = .ok s ∧ requestMachineRuntimeStop 1 false s = .ok t ∧
      (runtime.attempts stopAndClose t : State).run.state = .closed := ⟨_, _, rfl, rfl, rfl⟩
  obtain ⟨s, t, hs, ht, hclosed⟩ := hrun
  exact ⟨s, t, hs, ht, hclosed,
    owner_stop_is_final (.start (accepted_initial hs)) ht [] stopAndClose⟩

/-- A pending owner stop passes through the stopped phase before it closes. -/
theorem closed_is_not_the_only_phase : ¬ ∀ (s t : State) (generation : ℤ) (ops : List Operation),
    runtime.Reaches (fun _ _ => True) s →
    requestMachineRuntimeStop generation false s = .ok t →
    (runtime.attempts ops t : State).run.state = t.run.state ∨
      (runtime.attempts ops t : State).run.state = .closed := by
  intro hclaim
  have hrun : ∃ s t, accepted = .ok s ∧ requestMachineRuntimeStop 1 false s = .ok t ∧
      t.run.state = .stopPending ∧ (runtime.attempts
        [.proveStopped 5000000000 1 6000000000 "stop-1"] t : State).run.state = .stopped :=
    ⟨_, _, rfl, rfl, rfl, rfl⟩
  obtain ⟨s, t, hs, ht, hpending, hstopped⟩ := hrun
  rcases hclaim s t 1 [.proveStopped 5000000000 1 6000000000 "stop-1"]
    (.start (accepted_initial hs)) ht with hphase | hphase
  · exact absurd (hstopped.symm.trans (hphase.trans hpending)) (by decide)
  · exact absurd (hstopped.symm.trans hphase) (by decide)

end NyxId.MachineRuntime
