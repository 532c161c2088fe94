import NyxId.Interleave.Runs
import Mathlib.Data.List.Sort
import Mathlib.Data.String.Basic

/-!
Commands of one installation of an oracle worker. A call is one transaction: it commits or changes
nothing. Clock readings are milliseconds.
-/

namespace NyxId.WorkerCommands

inductive OracleWorkerCommandKind
  | drain
  | resume
  | restart
  | relaunchBrowser
  | relogin
  | upgrade
  | sessionImport
deriving DecidableEq

inductive OracleWorkerCommandStatus
  | queued
  | delivered
  | succeeded
  | failed
  | expired
  | cancelled
deriving DecidableEq

inductive OracleWorkerDesiredState
  | active
  | draining
deriving DecidableEq

structure OracleWorkerCommand where
  id : String
  workerGeneration : Option String
  kind : OracleWorkerCommandKind
  status : OracleWorkerCommandStatus
  createdByUserId : String
  requiredCapability : Option String
  deliveryCount : ℕ
  resultCode : Option String
  snapshotId : Option String
  deliveredAt : Option ℤ
  deliveryLeaseExpiresAt : Option ℤ
  completedAt : Option ℤ
  deadlineAt : ℤ
  expiresAt : Option ℤ
  createdAt : ℤ
  updatedAt : ℤ
deriving DecidableEq

structure OracleWorker where
  workerLabel : String
  generation : Option String
  enrolled : Bool
  capabilities : List String
  desiredState : OracleWorkerDesiredState
deriving DecidableEq

/-- The worker with the commands of its label, those of earlier installations among them. -/
structure State where
  worker : OracleWorker
  commands : List OracleWorkerCommand
deriving DecidableEq

inductive AppError
  | validationError (text : String)
  | conflict (text : String)
  | forbidden (text : String)
  | oraclePoolInactive (slug : String)
  | oracleWorkerTokenInvalid
  | oracleWorkerCommandNotFound (id : String)
  | oracleWorkerCapabilityUnsupported (text : String)
  | databaseError
deriving DecidableEq

def commandDeadlineMs : ℤ := 24 * 60 * 60 * 1000
def commandDeliveryLeaseMs : ℤ := 60 * 1000
def commandRetentionMs : ℤ := 7 * 24 * 60 * 60 * 1000
def maxCommandDeliveries : ℕ := 10
def commandExpiryBatchSize : ℕ := 256
def maxMetadataLen : ℕ := 128

def requiredCapability : OracleWorkerCommandKind → String
  | .upgrade => "upgrade_v1"
  | .sessionImport => "session_import_v1"
  | _ => "commands_v1"

def validMetadata (value : String) : Bool :=
  !value.isEmpty && value.utf8ByteSize ≤ maxMetadataLen &&
    value.toList.all fun c => c.isAlphanum || c = '-' || c = '_' || c = '.'

def optionalMetadata (value : Option String) (field : String) : Except AppError (Option String) :=
  match value with
  | none => .ok none
  | some value =>
    if validMetadata value then .ok (some value)
    else .error (.validationError (field ++ " contains unsupported characters"))

namespace OracleWorkerCommandStatus

def isPending : OracleWorkerCommandStatus → Bool
  | queued | delivered => true
  | _ => false

def isSettled : OracleWorkerCommandStatus → Bool
  | succeeded | failed | expired | cancelled => true
  | _ => false

end OracleWorkerCommandStatus

namespace OracleWorkerCommand

variable (c : OracleWorkerCommand)

/-- The fields that every settlement sets. -/
def settle (status : OracleWorkerCommandStatus) (resultCode : Option String) (now : ℤ) :
    OracleWorkerCommand :=
  { c with
    status, resultCode
    completedAt := some now
    expiresAt := some (now + commandRetentionMs)
    updatedAt := now }

def deliver (now : ℤ) : OracleWorkerCommand :=
  { c with
    status := .delivered
    deliveredAt := some now
    deliveryLeaseExpiresAt := some (now + commandDeliveryLeaseMs)
    updatedAt := now
    deliveryCount := c.deliveryCount + 1 }

end OracleWorkerCommand

/-- By creation, the oldest first; the store may meet equal ones in any order. -/
def byCreation (order : String → ℕ) (commands : List OracleWorkerCommand) :
    List OracleWorkerCommand :=
  commands.insertionSort fun a b =>
    a.createdAt < b.createdAt ∨ a.createdAt = b.createdAt ∧ order a.id ≤ order b.id

/-- By creation, the newest first. -/
def byCreationDesc (order : String → ℕ) (commands : List OracleWorkerCommand) :
    List OracleWorkerCommand :=
  commands.insertionSort fun a b =>
    b.createdAt < a.createdAt ∨ a.createdAt = b.createdAt ∧ order a.id ≤ order b.id

namespace State

variable (s : State)

/-- `find` by the generation of the installation. -/
def current : List OracleWorkerCommand :=
  s.commands.filter fun c => c.workerGeneration = s.worker.generation

def update (f : OracleWorkerCommand → OracleWorkerCommand) : State :=
  { s with commands := s.commands.map f }

def updateOne (id : String) (f : OracleWorkerCommand → OracleWorkerCommand) : State :=
  s.update fun c => if c.id = id then f c else c

def desire (desiredState : OracleWorkerDesiredState) : State :=
  { s with worker := { s.worker with desiredState } }

def hasPending (workerGeneration : Option String) : Bool :=
  s.commands.any fun c => c.workerGeneration = workerGeneration && c.status.isPending

end State

/-- What a worker without pending commands is to do after a command. -/
def settledState : OracleWorkerCommandKind → OracleWorkerCommandStatus → OracleWorkerDesiredState
  | .drain, .succeeded => .draining
  | .resume, .failed | .resume, .expired => .draining
  | _, _ => .active

def reconcileDesiredState (command : OracleWorkerCommand) (s : State) : State :=
  let desired :=
    if s.hasPending command.workerGeneration then .draining
    else settledState command.kind command.status
  if s.worker.generation = command.workerGeneration then s.desire desired else s

def staleCommands (now : ℤ) (s : State) : List OracleWorkerCommand :=
  let stale := s.current.filter fun c =>
    c.status.isPending && (c.deadlineAt < now || maxCommandDeliveries ≤ c.deliveryCount)
  (stale.insertionSort fun a b => a.id ≤ b.id).take commandExpiryBatchSize

def expireStaleCommands (now : ℤ) (order : String → ℕ) (s : State) : State :=
  let rows := staleCommands now s
  let deadlineIds := (rows.filter fun c => c.deadlineAt < now).map OracleWorkerCommand.id
  let exhaustedIds := (rows.filter fun c => ¬ c.deadlineAt < now).map OracleWorkerCommand.id
  let expired := s.update fun c =>
    if c.id ∈ deadlineIds then c.settle .expired c.resultCode now
    else if c.id ∈ exhaustedIds then c.settle .expired (some "delivery_exhausted") now
    else c
  match (byCreationDesc order expired.current).head? with
  | some latest => reconcileDesiredState latest expired
  | none => expired

/-- What the locks before the work of a call answer: of the pool and the caller's authority, and of
the worker's installation. -/
structure Locks where
  authority : Except AppError Unit
  worker : Except AppError Unit

structure WorkerCommandInput where
  kind : OracleWorkerCommandKind
  snapshotId : Option String

def enqueueWorkerCommand (locks : Locks) (id : String) (now : ℤ) (actor : String)
    (input : WorkerCommandInput) (s : State) : Except AppError (OracleWorkerCommand × State) := do
  locks.authority
  let capability := requiredCapability input.kind
  let command : OracleWorkerCommand :=
    { id
      workerGeneration := s.worker.generation
      kind := input.kind
      status := .queued
      createdByUserId := actor
      requiredCapability := some capability
      deliveryCount := 0
      resultCode := none
      snapshotId := input.snapshotId
      deliveredAt := none
      deliveryLeaseExpiresAt := none
      completedAt := none
      deadlineAt := now + commandDeadlineMs
      expiresAt := none
      createdAt := now
      updatedAt := now }
  locks.worker
  if command.kind = .sessionImport ∧ s.worker.enrolled then
    .error (.oracleWorkerCapabilityUnsupported "contributed workers use their own browser login")
  else if capability ∉ s.worker.capabilities then
    .error (.oracleWorkerCapabilityUnsupported
      ("worker '" ++ s.worker.workerLabel ++ "' does not advertise " ++ capability))
  -- The unique indexes of the collection.
  else if s.commands.any fun c =>
      c.id = id || (c.snapshotId.isSome && c.snapshotId = input.snapshotId) then
    .error .databaseError
  else return (command, { s with commands := s.commands ++ [command] }.desire .draining)

/-- Deliveries to earlier installations are over. -/
def retireOrphans (now : ℤ) (s : State) : State :=
  s.update fun c =>
    if c.workerGeneration ≠ s.worker.generation ∧ c.status = .delivered then
      c.settle .expired (some "worker_replaced") now
    else c

def deliverable (now : ℤ) (capabilities : List String) (delivered : Option OracleWorkerCommand)
    (c : OracleWorkerCommand) : Bool :=
  now < c.deadlineAt && c.deliveryCount < maxCommandDeliveries &&
    c.requiredCapability.any (· ∈ capabilities) &&
    (c.status = .queued || c.status = .delivered && c.deliveryLeaseExpiresAt.any (· ≤ now)) &&
    delivered.all (c.id = ·.id)

def nextDelivery (now : ℤ) (order : String → ℕ) (capabilities : List String) (s : State) :
    Option OracleWorkerCommand :=
  let delivered := s.commands.find? fun c => c.status = .delivered
  if delivered.any fun c => c.deliveryLeaseExpiresAt.any (now < ·) then none
  else (byCreation order (s.current.filter (deliverable now capabilities delivered))).head?

/-- Expiry reads the clock on its own. -/
def deliverNextCommand (locks : Locks) (expiryNow now : ℤ) (order : String → ℕ)
    (capabilities : List String) (s : State) :
    Except AppError (Option OracleWorkerCommand × State) := do
  locks.authority
  let s := expireStaleCommands expiryNow order s
  if "commands_v1" ∉ capabilities then return (none, s)
  else
    let s := retireOrphans now s
    match nextDelivery now order capabilities s with
    | none => return (none, s)
    | some c => return (some (c.deliver now), s.updateOne c.id fun c => c.deliver now)

structure CommandReport where
  commandId : String
  succeeded : Bool
  resultCode : Option String

def checkCommandId (commandId : String) : Except AppError Unit :=
  if validMetadata commandId then .ok ()
  else .error (.validationError "command_id contains unsupported characters")

def applyCommandReport (now : ℤ) (report : CommandReport) (s : State) : Except AppError State := do
  checkCommandId report.commandId
  let resultCode ← optionalMetadata report.resultCode "result_code"
  match s.current.find? fun c => c.id = report.commandId with
  | none => return s
  | some existing =>
    if existing.status.isSettled then
      return reconcileDesiredState existing s
    else if existing.status = .delivered then
      let settle (c : OracleWorkerCommand) :=
        c.settle (if report.succeeded then .succeeded else .failed) resultCode now
      return reconcileDesiredState (settle existing) (s.updateOne report.commandId settle)
    else return s

/-- Every report reads the clock. -/
def applyReports (reports : List (CommandReport × ℤ)) (s : State) : Except AppError State :=
  reports.foldlM (fun s report => applyCommandReport report.2 report.1 s) s

def applyCommandReports (locks : Locks) (reports : List (CommandReport × ℤ)) (s : State) :
    Except AppError State := do
  locks.authority
  applyReports (reports.take 16) s

def cancelWorkerCommand (locks : Locks) (now : ℤ) (commandId : String) (s : State) :
    Except AppError (OracleWorkerCommand × State) := do
  locks.authority
  checkCommandId commandId
  locks.worker
  match s.current.find? fun c => c.id = commandId with
  | none => .error (.oracleWorkerCommandNotFound commandId)
  | some existing =>
    if existing.status.isPending then
      let cancel (c : OracleWorkerCommand) := c.settle .cancelled (some "cancelled_by_manager") now
      let s := s.updateOne commandId cancel
      let desired := if s.hasPending s.worker.generation then .draining else .active
      return (cancel existing, s.desire desired)
    else .error (.conflict ("command " ++ commandId ++ " is already settled"))

def listWorkerCommands (locks : Locks) (now : ℤ) (order : String → ℕ) (s : State) :
    Except AppError (List OracleWorkerCommand × State) := do
  locks.authority
  let s := expireStaleCommands now order s
  return ((byCreationDesc order s.current).take 100, s)

/-! ### Histories -/

/-- A call with what it drew, what it read and what it met. -/
inductive Call
  | enqueue (locks : Locks) (commandId : String) (now : ℤ) (actor : String)
      (input : WorkerCommandInput)
  | deliver (locks : Locks) (expiryNow now : ℤ) (order : String → ℕ) (capabilities : List String)
  | report (locks : Locks) (reports : List (CommandReport × ℤ))
  | cancel (locks : Locks) (now : ℤ) (commandId : String)
  | list (locks : Locks) (now : ℤ) (order : String → ℕ)

inductive Answer
  | enqueued (command : OracleWorkerCommand)
  | delivered (command : Option OracleWorkerCommand)
  | reported
  | cancelled (command : OracleWorkerCommand)
  | listed (commands : List OracleWorkerCommand)

def perform (call : Call) (s : State) : Except AppError (Answer × State) :=
  match call with
  | .enqueue locks commandId now actor input =>
    (enqueueWorkerCommand locks commandId now actor input s).map (Prod.map Answer.enqueued id)
  | .deliver locks expiryNow now order capabilities =>
    (deliverNextCommand locks expiryNow now order capabilities s).map (Prod.map Answer.delivered id)
  | .report locks reports => (applyCommandReports locks reports s).map (Answer.reported, ·)
  | .cancel locks now commandId =>
    (cancelWorkerCommand locks now commandId s).map (Prod.map Answer.cancelled id)
  | .list locks now order =>
    (listWorkerCommands locks now order s).map (Prod.map Answer.listed id)

/-- A committed call and its answer. -/
def Step (s : State) (event : Call × Answer) (t : State) : Prop :=
  perform event.1 s = .ok (event.2, t)

/-- A new installation, which has no commands yet. -/
structure Installed (s : State) : Prop where
  current : ∀ c ∈ s.commands, c.workerGeneration ≠ s.worker.generation
  ids : (s.commands.map OracleWorkerCommand.id).Nodup
  delivered : ∀ c ∈ s.commands, ∀ c' ∈ s.commands, c.status = .delivered →
    c'.status = .delivered → c = c'

def deliveries (events : List (Call × Answer)) : List OracleWorkerCommand :=
  events.filterMap fun event =>
    match event.2 with
    | .delivered command => command
    | _ => none

end NyxId.WorkerCommands
