import NyxId.Interleave.Collection
import NyxId.Outcomes
import NyxId.Paging
import Mathlib.Data.String.Basic

/-!
Deadline recovery: batches over the journal in the order of the machine ids, each continued after the
last id of the one before. Times are milliseconds.
-/

namespace NyxId.DeadlineRecovery

open Interleave (Collection)

/-- Texts that are ordered, by their characters. -/
abbrev Id := List Char

structure ClockSample where
  utcMs : ℤ
  monotonicMs : ℕ
  bootId : String

structure RuntimeTarget where
  machineId : Id
  ownerId : String
  sandboxUid : String
  podUid : String
  pvcUid : String
  runtimeGeneration : ℕ
  credentialEpoch : ℕ
  writerFence : String
deriving DecidableEq

structure ResolvedRuntimeTarget where
  target : RuntimeTarget
  nodeUid : String
  nodeBootId : String
  runtimeInstanceDigest : String
  runtimeAttempt : ℕ
  pvUid : String
  csiDriver : String
  volumeHandleDigest : String
  writerDomainDigest : String
deriving DecidableEq

structure DeadlineControl where
  controlRevision : ℕ
  target : RuntimeTarget
  runNotAfterMs : ℤ

structure DeadlineReceipt where
  providerBootId : String
  installedRunNotAfterMs : ℤ

inductive DeadlineState
  | requested
  | installed
  | stopRequested
  | terminal
deriving DecidableEq

structure DeadlineRecord where
  storeVersion : ℕ
  control : DeadlineControl
  resolved : ResolvedRuntimeTarget
  state : DeadlineState
  installed : Option DeadlineReceipt
  lastUtcMs : ℤ
  lastMonotonicMs : ℕ
  clockBootId : String
  monotonicDeadlineMs : ℕ
  terminalEventId : Option Id
  stoppedAtMs : Option ℤ
  stopObservedAtMs : Option ℤ

def DeadlineRecord.machineId (record : DeadlineRecord) : Id := record.control.target.machineId

structure TerminalRuntimeEvent where
  target : ResolvedRuntimeTarget
  eventId : Id
  stoppedAtMs : Option ℤ
  observedAtMs : ℤ

inductive Failure
  | io
  | refused (text : String)
deriving DecidableEq

/-- How a call ends that returns nothing: an error can hide that it took effect. -/
inductive Answer
  | done
  | lost
  | failed
deriving DecidableEq

/-- How the calls for one machine end during a pass. -/
structure Calls where
  /-- `compare_exchange` of the stop. -/
  stop : Answer
  requestStop : Answer
  load : Bool
  terminalEvent : Option (Option TerminalRuntimeEvent)
  /-- `compare_exchange` of the terminal event, or of the observed clock. -/
  exchange : Answer

structure World where
  journal : Collection Id DeadlineRecord
  /-- The stops that reached the actuator. -/
  stops : List (ResolvedRuntimeTarget × ℕ)
  /-- The records that a batch came to. -/
  visited : List Id

/-! ### The store -/

def compareExchange (answer : Answer) (machineId : Id) (expected : Option ℕ)
    (next : DeadlineRecord) (w : World) : Except Failure Bool × World :=
  if answer = .failed then (.error .io, w)
  else if (w.journal.lookup machineId).map DeadlineRecord.storeVersion ≠ expected then
    (if answer = .done then .ok false else .error .io, w)
  else if next.machineId ≠ machineId ∨ next.storeVersion ≠ expected.getD 0 + 1 then
    (.error (.refused "invalid deadline journal transition"), w)
  else (if answer = .done then .ok true else .error .io,
    { w with journal := w.journal.insert machineId next })

def load (answers : Bool) (machineId : Id) (w : World) :
    Except Failure (Option DeadlineRecord) :=
  if answers then .ok (w.journal.lookup machineId) else .error .io

def stripSuffix (name suffix : Id) : Option Id :=
  if suffix.isSuffixOf name then some (name.take (name.length - suffix.length)) else none

section

variable (isUuid : Id → Bool)

/-- The machine whose record a file holds; a name that is no text holds none. -/
def recordId (name : Option Id) : Option Id := (name.bind (stripSuffix · ".json".toList)).filter isUuid

def maxScanned : ℕ := 100000

def pageSize (limit : ℕ) : ℕ := min (max limit 1) 128

/-- `names` is what the directory lists, in its own order. -/
def list (names : Option (List (Option Id))) (after : Option Id) (limit : ℕ) (w : World) :
    Except Failure (List DeadlineRecord) :=
  match names with
  | none => .error .io
  | some names =>
    if names.length > maxScanned then
      .error (.refused "deadline store inventory exceeds bounded local capacity")
    else
      let ids := (names.filterMap (recordId isUuid)).filter fun id => after.all (· < id)
      (ids.foldl (Paging.keepLeast (pageSize limit)) []).mapM fun id =>
        (w.journal.lookup id).elim (.error (.refused "deadline journal disappeared")) .ok

/-! ### The engine -/

variable (providerBootId : String)

def clockUnsafe (prior : DeadlineRecord) (now : ClockSample) : Bool :=
  prior.clockBootId ≠ now.bootId ||
    prior.installed.any (fun r => r.providerBootId ≠ providerBootId) ||
    now.utcMs < prior.lastUtcMs ||
    now.monotonicMs < prior.lastMonotonicMs ||
    now.monotonicMs ≥ prior.monotonicDeadlineMs

/-- The installed cutoff or, before installation, the requested one. -/
def cutoff (record : DeadlineRecord) : ℤ :=
  record.installed.elim record.control.runNotAfterMs DeadlineReceipt.installedRunNotAfterMs

def due (record : DeadlineRecord) (now : ClockSample) : Bool :=
  clockUnsafe providerBootId record now || cutoff record ≤ now.utcMs || record.state = .stopRequested

def requestStop (answer : Answer) (target : ResolvedRuntimeTarget) (revision : ℕ) (w : World) :
    Except Failure Unit × World :=
  if answer = .failed then (.error .io, w)
  else (if answer = .done then .ok () else .error .io,
    { w with stops := w.stops ++ [(target, revision)] })

def stopped (record : DeadlineRecord) (now : ClockSample) : DeadlineRecord :=
  { record with
    storeVersion := record.storeVersion + 1
    state := .stopRequested
    lastUtcMs := max record.lastUtcMs now.utcMs }

def stopRecord (calls : Calls) (record : DeadlineRecord) (now : ClockSample) (w : World) :
    Except Failure Unit × World :=
  if record.state = .terminal then (.ok (), w)
  else
    match compareExchange calls.stop record.machineId (some record.storeVersion) (stopped record now) w with
    | (.error e, w) => (.error e, w)
    | (.ok false, w) => (.error (.refused "deadline stop raced"), w)
    | (.ok true, w) =>
      requestStop calls.requestStop record.resolved record.control.controlRevision w

def eventFits (record : DeadlineRecord) (now : ClockSample) (event : TerminalRuntimeEvent) : Bool :=
  event.target = record.resolved && isUuid event.eventId && event.observedAtMs ≤ now.utcMs &&
    event.stoppedAtMs.all fun t => 0 < t && t ≤ event.observedAtMs

def ended (record : DeadlineRecord) (event : TerminalRuntimeEvent) : DeadlineRecord :=
  { record with
    storeVersion := record.storeVersion + 1
    state := .terminal
    terminalEventId := some event.eventId
    stoppedAtMs := event.stoppedAtMs
    stopObservedAtMs := some event.observedAtMs }

def observed (record : DeadlineRecord) (now : ClockSample) : DeadlineRecord :=
  { record with
    storeVersion := record.storeVersion + 1
    lastUtcMs := now.utcMs
    lastMonotonicMs := now.monotonicMs }

/-- A record that has to be exchanged before the batch goes on. -/
def exchanged (raced : String) (event : Option TerminalRuntimeEvent) :
    Except Failure Bool × World → Except Failure (Option TerminalRuntimeEvent) × World
  | (.error e, w) => (.error e, w)
  | (.ok false, w) => (.error (.refused raced), w)
  | (.ok true, w) => (.ok event, w)

/-- The terminal event of a machine that was asked to stop. -/
def settle (calls : Calls) (machineId : Id) (now : ClockSample) (w : World) :
    Except Failure (Option TerminalRuntimeEvent) × World :=
  match load calls.load machineId w with
  | .error e => (.error e, w)
  | .ok none => (.error (.refused "deadline journal missing"), w)
  | .ok (some record) =>
    match calls.terminalEvent with
    | none => (.error .io, w)
    | some none => (.ok none, w)
    | some (some event) =>
      if eventFits isUuid record now event then
        exchanged "terminal journal raced" (some event) (compareExchange calls.exchange record.machineId
          (some record.storeVersion) (ended record event) w)
      else (.error (.refused "terminal event mismatch"), w)

/-- What a batch does with one record. -/
def recover (calls : Calls) (record : DeadlineRecord) (now : ClockSample) (w : World) :
    Except Failure (Option TerminalRuntimeEvent) × World :=
  let w := { w with visited := w.visited ++ [record.machineId] }
  if record.state = .terminal then (.ok none, w)
  else if due providerBootId record now then
    match stopRecord calls record now w with
    | (.error e, w) => (.error e, w)
    | (.ok (), w) => settle isUuid calls record.machineId now w
  else
    exchanged "deadline clock observation raced" none (compareExchange calls.exchange record.machineId
      (some record.storeVersion) (observed record now) w)

variable (calls : Id → Calls)

/-- The loop of `recover_batch`; the first error ends it. -/
def recoverAll (now : ClockSample) : List DeadlineRecord → World →
    Except Failure (List TerminalRuntimeEvent) × World
  | [], w => (.ok [], w)
  | record :: records, w =>
    match recover isUuid providerBootId (calls record.machineId) record now w with
    | (.error e, w) => (.error e, w)
    | (.ok event, w) =>
      match recoverAll now records w with
      | (.error e, w) => (.error e, w)
      | (.ok terminal, w) => (.ok (event.toList ++ terminal), w)

/-- What a pass finds: at each batch a clock sample and a listing. -/
structure Batches where
  sample : ℕ → ClockSample
  names : ℕ → Option (List (Option Id))

variable (batches : Batches) (limit : ℕ)

def recoverBatch (k : ℕ) (after : Option Id) (w : World) :
    Except Failure (List TerminalRuntimeEvent) × World :=
  match list isUuid (batches.names k) after (pageSize limit) w with
  | .error e => (.error e, w)
  | .ok page => recoverAll isUuid providerBootId calls (batches.sample k) page w

/-- Batches from the `k`-th on, each after the last id of the page before, whether that batch returned
an error or not, until a page is empty or cannot be listed. -/
def passFrom (k : ℕ) (after : Option Id) : ℕ → World → World
  | 0, w => w
  | fuel + 1, w =>
    match list isUuid (batches.names k) after (pageSize limit) w with
    | .error _ => w
    | .ok page =>
      match page.getLast? with
      | none => w
      | some last => passFrom (k + 1) (some last.machineId) fuel
          (recoverBatch isUuid providerBootId calls batches limit k after w).2

/-- A pass, with the visits and the stops that it makes. Every page but the last has a record. -/
def pass (w : World) : World :=
  passFrom isUuid providerBootId calls batches limit 0 none (w.journal.keys.length + 1)
    { w with stops := [], visited := [] }

end

end NyxId.DeadlineRecovery
