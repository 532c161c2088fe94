import NyxId.UsageMeter
import NyxId.Interleave.Transactions

/-!
Durable Machine runtime contracts. Windows are funded ahead of the evidence that
the Machine ran through them; whole seconds are cut from one running total of
evidenced nanoseconds. Every operation is one transaction on the run and its
intervals, aborted on any error. Instants are nanoseconds.
-/

namespace NyxId.MachineRuntime

open Interleave

def secondNs : ℤ := 1000000000

def maxWindowSeconds : ℤ := 300

def admissionProofSeconds : ℤ := 30

/-- The new total and the whole seconds that it completes. -/
def cumulativeSeconds (previousNs additionalNs : ℤ) : Option (ℤ × ℤ) :=
  if previousNs < 0 ∨ additionalNs < 0 then none
  else (checkedI64 (previousNs + additionalNs)).map fun total =>
    (total, total / secondNs - previousNs / secondNs)

def saturatingSub (a b : ℤ) : ℤ := max (-2 ^ 63) (min (2 ^ 63 - 1) (a - b))

def ns (time : ℤ) : Except AppError ℤ :=
  orInvalid "runtime timestamp is outside supported range" (checkedI64 time)

inductive MachineRuntimeRunState where
  | accepted
  | running
  | stopPending
  | stopped
  | closed
  deriving DecidableEq

structure MachineRuntimeRun where
  rateVersion : Id
  state : MachineRuntimeRunState
  runtimeGeneration : ℤ
  revision : ℤ
  generationAdmittedNs : ℤ
  readyNs : Option ℤ
  provenUntilNs : Option ℤ
  provenEvidenceId : Option String
  replacementRequested : Bool
  stopNs : Option ℤ
  stopIsUpperBound : Bool
  readyEvidenceId : Option String
  stopEvidenceId : Option String
  coveredUntilNs : ℤ
  lastWindowFromNs : ℤ
  accountedUntilNs : ℤ
  cumulativeCoveredNs : ℤ
  cumulativeSeconds : ℤ
  generationCoveredStartNs : ℤ
  platformResidualNs : ℤ
  platformResidualUpperBoundNs : ℤ
  generationResidualRecorded : Bool
  generationFloorNs : Option ℤ

structure MachineRuntimeInterval where
  runtimeGeneration : ℤ
  rateVersion : Id
  intervalId : Id
  coveredFromNs : ℤ
  coveredUntilNs : ℤ
  reservedSeconds : ℤ
  evidenceId : Option String
  evidencedNs : Option ℤ
  quantity : Option ℤ
  settlementComplete : Bool

/-- A verified finite window; it cannot be built unless its bounds hold. -/
structure PreparedRuntimeWindow where
  intervalId : Id
  rateVersion : Id
  checkedAt : ℤ
  fromNs : ℤ
  untilNs : ℤ
  seconds : ℤ
  nonempty : fromNs < untilNs
  bounded : untilNs - fromNs ≤ maxWindowSeconds * secondNs
  seconds_eq : seconds = (untilNs - fromNs + (secondNs - 1)) / secondNs

def prepareRuntimeWindow (now : ℤ) (intervalId rateVersion : Id) (start stop : ℤ) :
    Except AppError PreparedRuntimeWindow := do
  let fromNs ← ns start
  let untilNs ← ns stop
  let duration ← orInvalid "invalid runtime window" (checkedI64 (untilNs - fromNs))
  if untilNs ≤ now ∨ now + maxWindowSeconds * secondNs < fromNs then
    invalid "runtime reservation must cover one finite next window"
  else
    let _ ← orInvalid "window overflow" (checkedI64 (duration + (secondNs - 1)))
    if h : fromNs < untilNs ∧ untilNs - fromNs ≤ maxWindowSeconds * secondNs then
      return { intervalId, rateVersion, checkedAt := now, fromNs, untilNs
               seconds := (untilNs - fromNs + (secondNs - 1)) / secondNs
               nonempty := h.1, bounded := h.2, seconds_eq := rfl }
    else
      invalid "runtime reservation must cover one finite next window"

/-- Running time that a finalized interval charges, as an interval of instants. -/
structure Span where
  generation : ℤ
  start : ℤ
  finish : ℤ
  deriving DecidableEq

/-- The run with its intervals, and a record of the evidence it accepted that no
operation reads: charged spans, readiness and stop of every generation. -/
structure State where
  run : MachineRuntimeRun
  intervals : Collection Id MachineRuntimeInterval
  nextId : Id
  spans : List Span
  readies : List (ℤ × ℤ)
  stops : List (ℤ × ℤ)

def saveRun (s : State) (run : MachineRuntimeRun) : Except AppError State := do
  let revision ← orInvalid "runtime revision overflow" (checkedI64 (run.revision + 1))
  return { s with run := { run with revision := revision } }

/-- Evidence of the current generation that is at most one second ahead. -/
def checkEvidence (run : MachineRuntimeRun) (now generation time : ℤ) (id : String) :
    Except AppError Unit :=
  if run.runtimeGeneration ≠ generation ∨ id.isEmpty ∨ 256 < id.utf8ByteSize ∨
      now + secondNs < time then
    conflict "runtime evidence binding is invalid"
  else .ok ()

def proveMachineReady (now generation readyAt : ℤ) (evidenceId : String) (s : State) :
    Except AppError State := do
  checkEvidence s.run now generation readyAt evidenceId
  let ready ← ns readyAt
  match s.run.readyNs with
  | some existing =>
    if existing = ready ∧ s.run.readyEvidenceId = some evidenceId then return s
    else conflict "runtime readiness already recorded"
  | none =>
    if s.run.state ≠ .accepted ∨ ready < s.run.generationAdmittedNs ∨
        s.run.coveredUntilNs ≤ ready ∨ s.run.generationFloorNs.any (ready < ·) then
      conflict "runtime readiness lacks a live funded window or overlaps a predecessor"
    else
      saveRun { s with readies := s.readies ++ [(generation, ready)] }
        { s.run with
          readyNs := some ready
          provenUntilNs := some ready
          readyEvidenceId := some evidenceId
          provenEvidenceId := some evidenceId
          state := .running }

def proveMachineRunning (now generation throughAt : ℤ) (evidenceId : String) (s : State) :
    Except AppError State := do
  checkEvidence s.run now generation throughAt evidenceId
  let through ← ns throughAt
  if (s.run.state ≠ .running ∧ s.run.state ≠ .stopPending) ∨
      s.run.readyNs.all (through < ·) ∨ s.run.provenUntilNs.any (through < ·) then
    conflict "runtime running evidence is stale"
  else
    saveRun s { s.run with provenUntilNs := some through, provenEvidenceId := some evidenceId }

def requestMachineRuntimeStop (generation : ℤ) (replacement : Bool) (s : State) :
    Except AppError State :=
  if s.run.runtimeGeneration ≠ generation then conflict "runtime generation changed"
  else
    match s.run.state with
    | .closed => .ok s
    | .stopped =>
      if !replacement && s.run.replacementRequested then
        saveRun s { s.run with replacementRequested := false }
      else if replacement && !s.run.replacementRequested then
        conflict "a stopped contract cannot be renewed by replacement"
      else .ok s
    | _ =>
      if s.run.state = .stopPending ∧ s.run.replacementRequested ≠ replacement ∧ replacement then
        conflict "a stopped contract cannot be renewed by replacement"
      else saveRun s { s.run with state := .stopPending, replacementRequested := replacement }

def proveMachineStopped (now generation stoppedAt : ℤ) (evidenceId : String) (s : State) :
    Except AppError State := do
  checkEvidence s.run now generation stoppedAt evidenceId
  let stop ← ns stoppedAt
  match s.run.stopNs with
  | some existing =>
    if existing = stop ∧ s.run.stopEvidenceId = some evidenceId then return s
    else conflict "runtime stop evidence already fixed"
  | none =>
    if s.run.state = .closed ∨ s.run.readyNs.any (stop < ·) ∨
        s.run.provenUntilNs.any (stop < ·) then
      conflict "runtime stop contradicts prior evidence"
    else
      saveRun { s with stops := s.stops ++ [(generation, stop)] }
        { s.run with
          stopNs := some stop
          stopEvidenceId := some evidenceId
          provenEvidenceId := some evidenceId
          provenUntilNs := some stop
          state := .stopped }

def proveMachineStopObserved (now generation observedAt : ℤ) (evidenceId : String) (s : State) :
    Except AppError State := do
  checkEvidence s.run now generation observedAt evidenceId
  let observed ← ns observedAt
  match s.run.stopNs with
  | some existing =>
    if existing = observed ∧ s.run.stopIsUpperBound ∧ s.run.stopEvidenceId = some evidenceId then
      return s
    else conflict "runtime stop evidence already fixed"
  | none =>
    if s.run.state = .closed ∨ s.run.readyNs.any (observed < ·) ∨
        s.run.provenUntilNs.any (observed < ·) then
      conflict "runtime stop observation contradicts prior evidence"
    else
      -- A ready generation keeps its proof; an unready one has run for no time.
      let proven := match s.run.provenUntilNs with
        | some proven => (proven, s.run.provenEvidenceId)
        | none => (min s.run.generationAdmittedNs observed, some evidenceId)
      saveRun { s with stops := s.stops ++ [(generation, observed)] }
        { s.run with
          stopNs := some observed
          stopIsUpperBound := true
          stopEvidenceId := some evidenceId
          provenUntilNs := some proven.1
          provenEvidenceId := proven.2
          state := .stopped }

/-- The interval without a quantity that starts first. -/
def earliestOpen (intervals : Collection Id MachineRuntimeInterval) :
    Option (Id × MachineRuntimeInterval) :=
  (oldest (fun e => e.2.coveredFromNs)
    (intervals.entries.filter fun e => e.2.quantity.isNone)).map
    fun e => (e.1, e.2)

/-- Evidenced nanoseconds of one interval. -/
def evidenced (run : MachineRuntimeRun) (proven : ℤ) (interval : MachineRuntimeInterval) : ℤ :=
  match run.readyNs with
  | some ready =>
    max (saturatingSub (min (min interval.coveredUntilNs proven) (run.stopNs.getD (2 ^ 63 - 1)))
      (max interval.coveredFromNs ready)) 0
  | none => 0

/-- The instants that the evidenced nanoseconds of an interval stand for. -/
def evidencedSpan (run : MachineRuntimeRun) (interval : MachineRuntimeInterval)
    (evidencedNs : ℤ) : List Span :=
  match run.readyNs with
  | some ready =>
    if 0 < evidencedNs then
      [⟨run.runtimeGeneration, max interval.coveredFromNs ready,
        max interval.coveredFromNs ready + evidencedNs⟩]
    else []
  | none => []

/-- Finalizes the earliest open window; `usageOpen` says that its usage row still
matches the update in the same transaction. -/
def finalizeMachineInterval (usageOpen : Bool) (s : State) : Except AppError State :=
  match earliestOpen s.intervals with
  | none => .ok s
  | some (id, interval) =>
    if interval.runtimeGeneration ≠ s.run.runtimeGeneration ∨
        interval.rateVersion ≠ s.run.rateVersion then
      conflict "prior runtime intervals require settlement before generation replacement"
    else
      match s.run.provenUntilNs with
      | none => .ok s
      | some proven =>
        if s.run.stopNs.isNone ∧ (s.run.readyNs.isNone ∨ proven < interval.coveredUntilNs) then .ok s
        else if interval.coveredFromNs < s.run.accountedUntilNs then
          conflict "runtime intervals overlap"
        else do
          let evidencedNs := evidenced s.run proven interval
          let (total, quantity) ← orInvalid "runtime cumulative duration overflow"
            (cumulativeSeconds s.run.cumulativeCoveredNs evidencedNs)
          if interval.reservedSeconds < quantity then
            conflict "runtime evidence exceeds funded responsibility"
          else if !usageOpen then
            conflict "runtime usage finalization raced"
          else
            let finalized := { interval with
              evidencedNs := some evidencedNs
              quantity := some quantity
              evidenceId := s.run.provenEvidenceId }
            saveRun { s with
                intervals := s.intervals.insert id finalized
                spans := s.spans ++ evidencedSpan s.run interval evidencedNs }
              { s.run with
                cumulativeCoveredNs := total
                cumulativeSeconds := total / secondNs
                accountedUntilNs := interval.coveredUntilNs }

/-- Marks a finalized interval whose usage row has settled. -/
def settleMachineInterval (id : Id) (s : State) : Except AppError State :=
  match s.intervals.lookup id with
  | some interval =>
    if interval.quantity.isSome then
      .ok { s with intervals := s.intervals.insert id { interval with settlementComplete := true } }
    else .ok s
  | none => .ok s

def ensureRunSettled (s : State) : Except AppError Unit :=
  if s.intervals.entries.all fun e => e.2.settlementComplete then .ok ()
  else conflict "runtime settlement remains pending"

def recordGenerationResidual (run : MachineRuntimeRun) : Except AppError MachineRuntimeRun :=
  if run.generationResidualRecorded then .ok run
  else
    match run.readyNs, run.stopNs with
    | some ready, some stop => do
      let elapsed ← orInvalid "runtime elapsed overflow" (checkedI64 (stop - ready))
      let covered ← orInvalid "runtime covered duration overflow"
        (checkedI64 (run.cumulativeCoveredNs - run.generationCoveredStartNs))
      match (checkedI64 (elapsed - covered)).filter (0 ≤ ·) with
      | none => conflict "runtime funded evidence exceeds elapsed time"
      | some residual =>
        if run.stopIsUpperBound then
          let total ← orInvalid "runtime residual overflow"
            (checkedI64 (run.platformResidualUpperBoundNs + residual))
          return { run with
            platformResidualUpperBoundNs := total, generationResidualRecorded := true }
        else
          let total ← orInvalid "runtime residual overflow"
            (checkedI64 (run.platformResidualNs + residual))
          return { run with platformResidualNs := total, generationResidualRecorded := true }
    | _, _ => .ok { run with generationResidualRecorded := true }

def closeMachineRuntime (s : State) : Except AppError State :=
  if s.run.state = .closed then .ok s
  else if s.run.state ≠ .stopped ∨ s.run.stopNs.isNone ∨ s.run.replacementRequested then
    conflict "runtime stop or replacement liability remains pending"
  else do
    ensureRunSettled s
    let run ← recordGenerationResidual s.run
    saveRun s { run with state := .closed }

/-- A window already inserted under the same identity. -/
def existingWindow (s : State) (p : PreparedRuntimeWindow) : Except AppError Bool :=
  match s.intervals.entries.find? fun e => e.2.intervalId = p.intervalId with
  | none => .ok false
  | some e =>
    if e.2.coveredFromNs ≠ p.fromNs ∨ e.2.coveredUntilNs ≠ p.untilNs ∨
        e.2.rateVersion ≠ p.rateVersion then
      conflict "runtime interval identity reused with different coverage"
    else .ok true

/-- The time bounds of an admission proof; `funded` answers for the wallet, the
rate and the reservation made in the same transaction. -/
def checkRuntimeAdmission (now : ℤ) (funded : Bool) (p : PreparedRuntimeWindow) :
    Except AppError Unit :=
  if now < p.checkedAt ∨ p.checkedAt + admissionProofSeconds * secondNs ≤ now ∨
      p.untilNs ≤ now ∨ !funded then
    unavailable "runtime admission proof expired or billing is unavailable"
  else .ok ()

def insertRuntimeWindow (p : PreparedRuntimeWindow) (s : State) : State :=
  { s with
    intervals := s.intervals.insert s.nextId
      { runtimeGeneration := s.run.runtimeGeneration
        rateVersion := s.run.rateVersion
        intervalId := p.intervalId
        coveredFromNs := p.fromNs
        coveredUntilNs := p.untilNs
        reservedSeconds := p.seconds
        evidenceId := none
        evidencedNs := none
        quantity := none
        settlementComplete := false }
    nextId := s.nextId + 1
    run := { s.run with coveredUntilNs := p.untilNs, lastWindowFromNs := p.fromNs } }

def reserveMachineNextWindow (now : ℤ) (funded : Bool) (sourceGeneration : ℤ)
    (p : PreparedRuntimeWindow) (s : State) : Except AppError State := do
  if s.run.rateVersion ≠ p.rateVersion then conflict "runtime renewal contract changed"
  else if ← existingWindow s p then return s
  else if s.run.state ≠ .running ∨ s.run.runtimeGeneration ≠ sourceGeneration then
    conflict "runtime renewal was fenced"
  else if s.run.coveredUntilNs ≠ p.fromNs ∨ s.run.coveredUntilNs ≤ now ∨
      now < s.run.lastWindowFromNs ∨ p.fromNs < s.run.accountedUntilNs then
    conflict "only the contiguous next runtime window may be reserved"
  else
    checkRuntimeAdmission now funded p
    let t := insertRuntimeWindow p s
    saveRun t t.run

def reserveMachineReplacement (now : ℤ) (funded : Bool) (newGeneration : ℤ)
    (p : PreparedRuntimeWindow) (s : State) : Except AppError State := do
  if s.run.rateVersion ≠ p.rateVersion then conflict "runtime replacement contract changed"
  else if ← existingWindow s p then
    if s.run.runtimeGeneration ≠ newGeneration then conflict "replacement retry generation changed"
    else return s
  else if s.run.state ≠ .stopped ∨ !s.run.replacementRequested ∨
      newGeneration ≤ s.run.runtimeGeneration ∨ s.run.stopNs.all (p.fromNs < ·) then
    conflict "replacement lacks finalized lifecycle stop"
  else
    ensureRunSettled s
    let run ← recordGenerationResidual s.run
    checkRuntimeAdmission now funded p
    let admitted ← ns now
    let t := insertRuntimeWindow p { s with
      run := { run with
        generationFloorNs := run.stopNs
        runtimeGeneration := newGeneration
        generationCoveredStartNs := run.cumulativeCoveredNs
        generationResidualRecorded := false
        generationAdmittedNs := admitted
        readyNs := none
        provenUntilNs := none
        readyEvidenceId := none
        provenEvidenceId := none
        stopNs := none
        stopIsUpperBound := false
        stopEvidenceId := none
        replacementRequested := false
        state := .accepted
        accountedUntilNs := p.fromNs } }
    saveRun t t.run

/-- The contract that ran on the Machine before this one. -/
structure PriorRun where
  state : MachineRuntimeRunState
  runtimeGeneration : ℤ
  stopNs : Option ℤ

def quoteIsLive (createdMs nowMs : ℤ) : Bool :=
  createdMs ≤ nowMs ∧ nowMs < min (createdMs + 15 * 60 * 1000) (2 ^ 63 - 1)

/-- A fresh contract for a live quote, after the prior contract has closed. -/
def acceptMachineQuote (now : ℤ) (funded : Bool) (quoteCreatedMs acceptBefore : ℤ)
    (generation : ℤ) (prior : Option PriorRun) (p : PreparedRuntimeWindow) :
    Except AppError State :=
  if generation ≤ 0 then invalid "runtime acceptance binding mismatch"
  else if !quoteIsLive quoteCreatedMs (now / 1000000) ∨ acceptBefore ≤ now then
    conflict "runtime quote acceptance window expired"
  else if prior.any (·.state ≠ .closed) then
    conflict "prior runtime liability must be resolved before resume"
  else if prior.any (generation ≤ ·.runtimeGeneration) then
    conflict "resume requires a new runtime generation"
  else if (prior.bind (·.stopNs)).any (p.fromNs < ·) then
    conflict "runtime generations may not overlap"
  else do
    checkRuntimeAdmission now funded p
    let admitted ← ns now
    return insertRuntimeWindow p
      { run :=
          { rateVersion := p.rateVersion
            state := .accepted
            runtimeGeneration := generation
            revision := 0
            generationAdmittedNs := admitted
            readyNs := none
            provenUntilNs := none
            provenEvidenceId := none
            replacementRequested := false
            stopNs := none
            stopIsUpperBound := false
            readyEvidenceId := none
            stopEvidenceId := none
            coveredUntilNs := p.fromNs
            lastWindowFromNs := p.fromNs
            accountedUntilNs := p.fromNs
            cumulativeCoveredNs := 0
            cumulativeSeconds := 0
            generationCoveredStartNs := 0
            platformResidualNs := 0
            platformResidualUpperBoundNs := 0
            generationResidualRecorded := false
            generationFloorNs := prior.bind (·.stopNs) }
        intervals := ∅
        nextId := 0
        spans := []
        readies := []
        stops := [] }

inductive Operation where
  | reserveNextWindow (now : ℤ) (funded : Bool) (sourceGeneration : ℤ)
      (p : PreparedRuntimeWindow)
  | proveReady (now generation readyAt : ℤ) (evidenceId : String)
  | proveRunning (now generation through : ℤ) (evidenceId : String)
  | requestStop (generation : ℤ) (replacement : Bool)
  | proveStopped (now generation stoppedAt : ℤ) (evidenceId : String)
  | proveStopObserved (now generation observedAt : ℤ) (evidenceId : String)
  | finalizeInterval (usageOpen : Bool)
  | settleInterval (id : Id)
  | reserveReplacement (now : ℤ) (funded : Bool) (newGeneration : ℤ)
      (p : PreparedRuntimeWindow)
  | close

def apply : Operation → State → Except AppError State
  | .reserveNextWindow now funded source p => reserveMachineNextWindow now funded source p
  | .proveReady now generation at_ id => proveMachineReady now generation at_ id
  | .proveRunning now generation at_ id => proveMachineRunning now generation at_ id
  | .requestStop generation replacement => requestMachineRuntimeStop generation replacement
  | .proveStopped now generation at_ id => proveMachineStopped now generation at_ id
  | .proveStopObserved now generation at_ id => proveMachineStopObserved now generation at_ id
  | .finalizeInterval usageOpen => finalizeMachineInterval usageOpen
  | .settleInterval id => settleMachineInterval id
  | .reserveReplacement now funded generation p =>
    reserveMachineReplacement now funded generation p
  | .close => closeMachineRuntime

/-- One contract from its acceptance on. -/
def runtime : Transactions where
  State := State
  Op := Operation
  Err := AppError
  Initial := fun s => ∃ now funded quoteCreatedMs acceptBefore generation prior p,
    acceptMachineQuote now funded quoteCreatedMs acceptBefore generation prior p = .ok s
  apply := apply

end NyxId.MachineRuntime
