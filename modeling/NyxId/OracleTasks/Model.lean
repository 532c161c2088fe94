import NyxId.Interleave.Runs
import NyxId.Permissions.Drive
import Mathlib.Data.List.Sort

/-!
Tasks of one oracle pool and the browser workers that take them. A call is one transaction: it
commits or changes nothing. Clock readings are milliseconds.
-/

namespace NyxId.OracleTasks

open Encoding (trim)

abbrev Text := List Char

inductive OracleTaskStatus
  | queued
  | dispatched
  | completed
  | failed
  | cancelled
deriving DecidableEq

structure OracleTask where
  id : String
  status : OracleTaskStatus
  requiredWorkerLabel : Option String
  excludedWorkerIds : List String
  rerouteCount : ℕ
  retryCount : ℕ
  maxRetries : ℕ
  attemptCount : ℕ
  phase : Option Text
  failureReason : Option Text
  failureDetail : Option Text
  assignedWorkerId : Option String
  dispatchAttemptId : Option String
  dispatchedAt : Option ℤ
  leaseExpiresAt : Option ℤ
  response : Option Text
  chatgptUrl : Option Text
  completedAt : Option ℤ
  expiresAt : Option ℤ
  createdAt : ℤ
  updatedAt : ℤ
deriving DecidableEq

structure OracleWorker where
  workerLabel : String
  generation : Option String
  instanceId : Option String
  lastSeenAt : ℤ
  currentTaskId : Option String
  draining : Bool
  loggedIn : Option Bool
  chromeAlive : Option Bool
  lastError : Option Text
  cooldownUntil : Option ℤ
deriving DecidableEq

structure OraclePool where
  taskTimeoutSecs : ℕ
  maxWorkers : ℕ
  retentionDays : ℕ

structure State where
  tasks : List OracleTask
  workers : List OracleWorker
deriving DecidableEq

inductive AppError
  | validationError (text : String)
  | conflict (text : String)
  | oracleWorkerTokenInvalid
  | oraclePoolInactive (slug : String)
  | oracleTaskNotFound (id : String)
  | databaseError
deriving DecidableEq

def maxPhaseLen : ℕ := 80
def maxUrlLen : ℕ := 2048

def maxResponseChars : ℕ := 2000000
def maxCapacityReroutes : ℕ := 20
def taskMaintenanceBatchSize : ℕ := 16
def workerRecentMs : ℤ := 120 * 1000
def dayMs : ℤ := 24 * 60 * 60 * 1000
def defaultOracleTaskMaxRetries : ℕ := 3

def workerCapacityFailures : List Text :=
  ["usage_limit_reached".toList, "model_unavailable".toList]

def workerInfrastructureFailures : List Text := ["browser_recovery_exhausted".toList]

def errorMark : Text := "ERROR:".toList

def workerErrorCode (response : Text) : Option Text :=
  if errorMark.isPrefixOf response then
    let code := trim (response.drop errorMark.length)
    if !code.isEmpty && (code.map Char.utf8Size).sum ≤ maxPhaseLen &&
        code.all (fun c => c.isLower || c.isDigit || c = '_') then
      some code
    else none
  else none

namespace OracleTask

variable (task : OracleTask)

/-- Without its dispatch. -/
def release : OracleTask :=
  { task with
    assignedWorkerId := none
    dispatchedAt := none
    leaseExpiresAt := none
    dispatchAttemptId := none }

def fail (phase reason : Text) (now expiresAt : ℤ) : OracleTask :=
  { task with
    status := .failed
    phase := some phase
    failureReason := some reason
    completedAt := some now
    expiresAt := some expiresAt
    updatedAt := now }

def leaseOver (now : ℤ) : Bool :=
  task.status = .dispatched && task.leaseExpiresAt.any (· < now)

def retryable : Bool := task.retryCount < task.maxRetries

/-- The dispatch that a worker reports on. -/
def isLive (workerLabel taskId : String) (attemptId : Option String) : Bool :=
  task.id = taskId && task.status = .dispatched && task.assignedWorkerId = some workerLabel &&
    attemptId.all (task.dispatchAttemptId = some ·)

end OracleTask

def OracleWorker.isUsable (worker : OracleWorker) (now : ℤ) : Bool :=
  now - workerRecentMs ≤ worker.lastSeenAt && !worker.draining && worker.loggedIn ≠ some false &&
    worker.chromeAlive ≠ some false && worker.cooldownUntil.all (· ≤ now)

namespace State

variable (s : State)

def update (p : OracleTask → Bool) (f : OracleTask → OracleTask) : State :=
  { s with tasks := s.tasks.map fun task => if p task then f task else task }

def hasCapacityAlternative (now : ℤ) (excluded : List String) : Bool :=
  s.workers.any fun worker => worker.workerLabel ∉ excluded && worker.isUsable now

end State

def byCreation (tasks : List OracleTask) : List OracleTask :=
  tasks.insertionSort fun a b => a.createdAt < b.createdAt ∨ a.createdAt = b.createdAt ∧ a.id ≤ b.id

def requeueExpiredLeases (now : ℤ) (pool : OraclePool) (s : State) : State :=
  let s := s.update (fun task => task.leaseOver now && task.retryable) fun task =>
    { task.release with
      status := .queued
      phase := some "requeued_after_lease_expiry".toList
      updatedAt := now
      retryCount := task.retryCount + 1 }
  s.update (fun task => task.leaseOver now && !task.retryable) fun task =>
    task.release.fail "infrastructure_retry_exhausted".toList
      "infrastructure_retry_exhausted".toList now (now + pool.retentionDays * dayMs)

/-- The escape of a pinned task whose worker stays away. -/
def releaseStaleAffinity (now : ℤ) (pool : OraclePool) (s : State) : State :=
  let rows := (byCreation (s.tasks.filter fun task =>
    task.status = .queued && task.requiredWorkerLabel.isSome &&
      task.createdAt < now - pool.taskTimeoutSecs * 1000)).take taskMaintenanceBatchSize
  let ids := rows.map OracleTask.id
  s.update (fun task => task.id ∈ ids) fun task =>
    { task with
      phase := some "affinity_released_after_grace".toList
      requiredWorkerLabel := none
      updatedAt := now }

/-! ### Capacity -/

/-- The clock readings for one task that is looked at. -/
structure SettleClock where
  checked : ℤ
  completed : ℤ
  expiry : ℤ
  updated : ℤ

def isCapacityTask (task : OracleTask) : Bool :=
  task.status = .queued && 0 < task.rerouteCount &&
    task.failureReason.any (· ∈ workerCapacityFailures)

def settleTask (clock : SettleClock) (pool : OraclePool) (task : OracleTask) (s : State) : State :=
  let code := task.failureReason.getD "model_unavailable".toList
  s.update (fun t => t.id = task.id && t.status = .queued && t.rerouteCount = task.rerouteCount)
    fun t =>
    { t with
      status := .failed
      response := some (errorMark ++ ' ' :: code)
      phase := some code
      completedAt := some clock.completed
      expiresAt := some (clock.expiry + pool.retentionDays * dayMs)
      updatedAt := clock.updated }

/-- The rest of the tasks after some have failed. Inside a transaction a row that was read as queued
is still queued. -/
def settleTasks (clock : String → SettleClock) (pool : OraclePool) :
    List OracleTask → ℕ → State → State × ℕ
  | [], failed, s => (s, failed)
  | task :: rest, failed, s =>
    if s.hasCapacityAlternative (clock task.id).checked task.excludedWorkerIds then
      settleTasks clock pool rest failed s
    else
      let s := settleTask (clock task.id) pool task s
      if taskMaintenanceBatchSize ≤ failed + 1 then (s, failed + 1)
      else settleTasks clock pool rest (failed + 1) s

def settleUnroutableCapacityTasks (clock : String → SettleClock) (pool : OraclePool) (s : State) :
    State × ℕ :=
  settleTasks clock pool (byCreation (s.tasks.filter isCapacityTask)) 0 s

/-! ### Workers -/

/-- The installation that a call is authorized for. -/
structure Installation where
  generation : Option String
  instanceId : Option String
deriving DecidableEq

def upsertWorkerPresence (now : ℤ) (workerLabel : String) (currentTaskId : Option String)
    (authorized : Option Installation) (s : State) : Except AppError State :=
  let isTheirs (worker : OracleWorker) : Bool := worker.workerLabel = workerLabel &&
    authorized.all fun installation =>
      worker.generation = installation.generation && worker.instanceId = installation.instanceId
  if s.workers.any isTheirs then
    .ok { s with workers := s.workers.map fun worker =>
      if isTheirs worker then { worker with lastSeenAt := now, currentTaskId } else worker }
  else if authorized.isSome then .error .oracleWorkerTokenInvalid
  else .ok { s with workers := s.workers ++
    [{ workerLabel
       -- A random id in the store; nothing here reads it.
       generation := none
       instanceId := none
       lastSeenAt := now
       currentTaskId
       draining := false
       loggedIn := none
       chromeAlive := none
       lastError := none
       cooldownUntil := none }] }

def recordFailureDetail (workerLabel : String) (detail : Option Text) (s : State) : State :=
  match detail with
  | none => s
  | some detail =>
    { s with workers := s.workers.map fun worker =>
      if worker.workerLabel = workerLabel then { worker with lastError := some detail }
      else worker }

def acceptsNewTasks (now : ℤ) (workerLabel : String) (s : State) : Bool :=
  match s.workers.find? fun worker => worker.workerLabel = workerLabel with
  | none => true
  | some worker => !worker.draining && worker.cooldownUntil.all (· ≤ now)

/-! ### Calls -/

/-- What a claim reads from the clock and draws, in the order of its steps. -/
structure ClaimEnv where
  /-- What the lock of the pool and the checks of the worker answer. -/
  checks : Except AppError Unit
  expiry : ℤ
  affinity : ℤ
  now : ℤ
  presence : ℤ
  sweep : String → SettleClock
  accepts : ℤ
  claimed : ℤ
  attemptId : String
  /-- The order in which the store meets tasks of one creation time. -/
  order : String → ℕ
  /-- The clock does not go back during the call. -/
  sweep_le : ∀ id, (sweep id).checked ≤ claimed

def dispatchTo (workerLabel : String) (env : ClaimEnv) (lease : ℤ) (task : OracleTask) :
    OracleTask :=
  { task with
    status := .dispatched
    failureReason := none
    assignedWorkerId := some workerLabel
    dispatchAttemptId := some env.attemptId
    dispatchedAt := some env.now
    leaseExpiresAt := some lease
    phase := some "dispatched".toList
    updatedAt := env.now
    attemptCount := task.attemptCount + 1 }

def claimable (workerLabel : String) (task : OracleTask) : Bool :=
  task.status = .queued && workerLabel ∉ task.excludedWorkerIds &&
    task.requiredWorkerLabel.all (· = workerLabel)

def dispatchedCount (s : State) : ℕ := s.tasks.countP fun task => task.status = .dispatched

inductive Claim
  | resumed (taskId : String)
  | dispatched (taskId : String)
  | idle
deriving DecidableEq

/-- The claim of a worker without a live dispatch, after the sweep. -/
def takeNext (pool : OraclePool) (workerLabel : String) (authorized : Option Installation)
    (env : ClaimEnv) (lease : ℤ) (s : State) : Except AppError (Claim × State) :=
  if !acceptsNewTasks env.accepts workerLabel s then .ok (.idle, s)
  else if pool.maxWorkers ≤ dispatchedCount s then .ok (.idle, s)
  else
    let waiting := (s.tasks.filter (claimable workerLabel)).insertionSort fun a b =>
      a.createdAt < b.createdAt ∨ a.createdAt = b.createdAt ∧ env.order a.id ≤ env.order b.id
    match waiting.head? with
    | none => .ok (.idle, s)
    | some task => do
      let s := s.update (fun t => t.id = task.id) (dispatchTo workerLabel env lease)
      let s ← upsertWorkerPresence env.claimed workerLabel (some task.id) authorized s
      return (.dispatched task.id, s)

/-- Also answers how many tasks the sweep failed. -/
def claimTask (pool : OraclePool) (workerLabel : String) (authorized : Option Installation)
    (env : ClaimEnv) (s : State) : Except AppError (Claim × ℕ × State) := do
  env.checks
  let s := requeueExpiredLeases env.expiry pool s
  let s := releaseStaleAffinity env.affinity pool s
  let lease := env.now + pool.taskTimeoutSecs * 1000
  match s.tasks.find? fun task =>
      task.status = .dispatched && task.assignedWorkerId = some workerLabel with
  | some task =>
    let s := s.update (fun t => t.id = task.id) fun t =>
      { t with leaseExpiresAt := some lease, updatedAt := env.now }
    let s ← upsertWorkerPresence env.presence workerLabel (some task.id) authorized s
    return (.resumed task.id, 0, s)
  | none =>
    let s ← upsertWorkerPresence env.presence workerLabel none authorized s
    let (s, failed) := settleUnroutableCapacityTasks env.sweep pool s
    let (claim, s) ← takeNext pool workerLabel authorized env lease s
    return (claim, failed, s)

structure StatusEnv where
  checks : Except AppError Unit
  expiry : ℤ
  sweep : String → SettleClock

def poolStatus (pool : OraclePool) (env : StatusEnv) (s : State) : Except AppError (ℕ × State) := do
  env.checks
  let s := requeueExpiredLeases env.expiry pool s
  let (s, failed) := settleUnroutableCapacityTasks env.sweep pool s
  return (failed, s)

structure WorkerResultInput where
  response : Text
  /-- Valid images or files came with the response. -/
  artifacts : Bool
  failureDetail : Option Text
  chatgptUrl : Option Text
  dispatchAttemptId : Option String
  authorized : Option Installation

structure ResultEnv where
  /-- What the lock of the pool and the checks of the worker and the metadata answer. -/
  checks : Except AppError Unit
  now : ℤ
  alternative : ℤ
  terminal : ℤ
  presence : ℤ

inductive ResultOutcome
  | completed
  | failed
  | requeued
  | ignored
deriving DecidableEq

def isFailure (input : WorkerResultInput) : Bool :=
  let trimmed := trim input.response
  (trimmed.isEmpty && !input.artifacts) || errorMark.isPrefixOf trimmed

def exclude (workerLabel : String) (task : OracleTask) : List String :=
  if workerLabel ∈ task.excludedWorkerIds then task.excludedWorkerIds
  else task.excludedWorkerIds ++ [workerLabel]

/-- Capacity failures may go to another account, unless the task is pinned to this one. -/
def canReroute (env : ResultEnv) (workerLabel : String) (task : OracleTask) (s : State) : Bool :=
  task.requiredWorkerLabel.isNone && task.rerouteCount < maxCapacityReroutes &&
    s.hasCapacityAlternative env.alternative (exclude workerLabel task)

def rerouteTask (now : ℤ) (code : Option Text) (input : WorkerResultInput)
    (excluded : List String) (task : OracleTask) : OracleTask :=
  { task.release with
    status := .queued
    phase := some "requeued_after_capacity_failure".toList
    failureDetail := input.failureDetail
    failureReason := code
    excludedWorkerIds := excluded
    chatgptUrl := none
    rerouteCount := task.rerouteCount + 1
    updatedAt := now }

def retryTask (now : ℤ) (input : WorkerResultInput) (task : OracleTask) : OracleTask :=
  { task.release with
    status := .queued
    phase := some "requeued_after_browser_failure".toList
    failureDetail := input.failureDetail
    retryCount := task.retryCount + 1
    updatedAt := now }

def exhaustTask (pool : OraclePool) (env : ResultEnv) (input : WorkerResultInput)
    (task : OracleTask) : OracleTask :=
  { task.release.fail "infrastructure_retry_exhausted".toList
      "infrastructure_retry_exhausted".toList env.now (env.terminal + pool.retentionDays * dayMs) with
    response := some "ERROR: infrastructure_retry_exhausted".toList
    failureDetail := input.failureDetail }

def finishTask (pool : OraclePool) (env : ResultEnv) (input : WorkerResultInput)
    (task : OracleTask) : OracleTask :=
  let trimmed := trim input.response
  let failure := isFailure input
  { task with
    status := if failure then .failed else .completed
    response := some (input.response.take maxResponseChars)
    completedAt := some env.now
    expiresAt := some (env.terminal + pool.retentionDays * dayMs)
    updatedAt := env.now
    failureReason :=
      if failure then
        some (if trimmed.isEmpty then "empty_response".toList
          else (workerErrorCode trimmed).getD "extraction_failure".toList)
      else none
    failureDetail := if failure then input.failureDetail else none
    chatgptUrl := (input.chatgptUrl.map (·.take maxUrlLen)).or task.chatgptUrl }

/-- The report is stored as the outcome of the task. -/
def storeResult (pool : OraclePool) (env : ResultEnv) (workerLabel taskId : String)
    (input : WorkerResultInput) (s : State) : Except AppError (ResultOutcome × State) := do
  let live (task : OracleTask) := task.isLive workerLabel taskId input.dispatchAttemptId
  let updated := s.tasks.any live
  let s ← upsertWorkerPresence env.presence workerLabel none input.authorized
    (s.update live (finishTask pool env input))
  if updated then
    if isFailure input then return (.failed, recordFailureDetail workerLabel input.failureDetail s)
    else return (.completed, s)
  else return (.ignored, s)

/-- A failure of the worker's browser. -/
def retryResult (pool : OraclePool) (env : ResultEnv) (workerLabel taskId : String)
    (input : WorkerResultInput) (s : State) : Except AppError (ResultOutcome × State) := do
  let live (task : OracleTask) := task.isLive workerLabel taskId input.dispatchAttemptId
  if s.tasks.any fun task => live task && task.retryable then
    let s ← upsertWorkerPresence env.presence workerLabel none input.authorized
      (s.update (fun task => live task && task.retryable) (retryTask env.now input))
    return (.requeued, recordFailureDetail workerLabel input.failureDetail s)
  else
    let exhausted := s.tasks.any live
    let s ← upsertWorkerPresence env.presence workerLabel none input.authorized
      (s.update live (exhaustTask pool env input))
    if exhausted then return (.failed, recordFailureDetail workerLabel input.failureDetail s)
    else return (.ignored, s)

def workerSubmitResult (pool : OraclePool) (env : ResultEnv) (workerLabel taskId : String)
    (input : WorkerResultInput) (s : State) : Except AppError (ResultOutcome × State) := do
  env.checks
  let workerError := workerErrorCode (trim input.response)
  let live (task : OracleTask) := task.isLive workerLabel taskId input.dispatchAttemptId
  if workerError.any (· ∈ workerCapacityFailures) then
    match s.tasks.find? live with
    | none => return (.ignored, s)
    | some task =>
      if canReroute env workerLabel task s then
        let s ← upsertWorkerPresence env.presence workerLabel none input.authorized
          (s.update live
            (rerouteTask env.now workerError input (exclude workerLabel task)))
        return (.requeued, recordFailureDetail workerLabel input.failureDetail s)
      else storeResult pool env workerLabel taskId input s
  else if workerError.any (· ∈ workerInfrastructureFailures) then
    retryResult pool env workerLabel taskId input s
  else storeResult pool env workerLabel taskId input s

structure AckEnv where
  checks : Except AppError Unit
  now : ℤ
  presence : ℤ

inductive AckOutcome
  | ok
  | cancelled
deriving DecidableEq

def workerAck (pool : OraclePool) (env : AckEnv) (workerLabel taskId : String)
    (phase : Option Text) (attemptId : Option String) (authorized : Option Installation) (s : State) :
    Except AppError (AckOutcome × State) := do
  env.checks
  let live (task : OracleTask) := task.isLive workerLabel taskId attemptId
  let matched := s.tasks.any live
  let s := s.update live fun task =>
    { task with
      leaseExpiresAt := some (env.now + pool.taskTimeoutSecs * 1000)
      updatedAt := env.now
      phase := (phase.map (·.take maxPhaseLen)).or task.phase }
  let s ← upsertWorkerPresence env.presence workerLabel (if matched then some taskId else none)
    authorized s
  return (if matched then .ok else .cancelled, s)

def cancelTask (pool : OraclePool) (checks : Except AppError Unit) (now terminal : ℤ)
    (taskId : String) (s : State) : Except AppError State := do
  checks
  match s.tasks.find? fun task => task.id = taskId with
  | none => .error (.oracleTaskNotFound taskId)
  | some task =>
    match task.status with
    | .cancelled => return s
    | .completed => .error (.conflict "task is already completed")
    | .failed => .error (.conflict "task is already failed")
    | .queued | .dispatched =>
      return s.update
        (fun t => t.id = taskId && (t.status = .queued || t.status = .dispatched)) fun t =>
        { t with
          status := .cancelled
          completedAt := some now
          expiresAt := some (terminal + pool.retentionDays * dayMs)
          updatedAt := now }

/-- A new task, pinned to the account of its conversation if there is one. -/
def newTask (id : String) (requiredWorkerLabel : Option String) (now : ℤ) : OracleTask where
  id := id
  status := .queued
  requiredWorkerLabel := requiredWorkerLabel
  excludedWorkerIds := []
  rerouteCount := 0
  retryCount := 0
  maxRetries := defaultOracleTaskMaxRetries
  attemptCount := 0
  phase := none
  failureReason := none
  failureDetail := none
  assignedWorkerId := none
  dispatchAttemptId := none
  dispatchedAt := none
  leaseExpiresAt := none
  response := none
  chatgptUrl := none
  completedAt := none
  expiresAt := none
  createdAt := now
  updatedAt := now

def submitTask (checks : Except AppError Unit) (id : String) (requiredWorkerLabel : Option String)
    (now : ℤ) (s : State) : Except AppError State := do
  checks
  if s.tasks.any fun task => task.id = id then .error .databaseError
  else return { s with tasks := s.tasks ++ [newTask id requiredWorkerLabel now] }

/-! ### Histories -/

inductive Call
  | submit (checks : Except AppError Unit) (id : String) (requiredWorkerLabel : Option String)
      (now : ℤ)
  | claim (workerLabel : String) (authorized : Option Installation) (env : ClaimEnv)
  | result (env : ResultEnv) (workerLabel taskId : String) (input : WorkerResultInput)
  | ack (env : AckEnv) (workerLabel taskId : String) (phase : Option Text)
      (attemptId : Option String) (authorized : Option Installation)
  | status (env : StatusEnv)
  | cancel (checks : Except AppError Unit) (now terminal : ℤ) (taskId : String)
  /-- Workers appear, report, drain, cool down or vanish. -/
  | workers (workers : List OracleWorker)

inductive Answer
  | submitted
  | claimed (claim : Claim) (failed : ℕ)
  | reported (outcome : ResultOutcome)
  | acked (outcome : AckOutcome)
  | status (failed : ℕ)
  | cancelled
  | changed
deriving DecidableEq

def perform (pool : OraclePool) (call : Call) (s : State) : Except AppError (Answer × State) :=
  match call with
  | .submit checks taskId required now => do
    let s ← submitTask checks taskId required now s
    return (.submitted, s)
  | .claim workerLabel authorized env => do
    let (claim, failed, s) ← claimTask pool workerLabel authorized env s
    return (.claimed claim failed, s)
  | .result env workerLabel taskId input => do
    let (outcome, s) ← workerSubmitResult pool env workerLabel taskId input s
    return (.reported outcome, s)
  | .ack env workerLabel taskId phase attemptId authorized => do
    let (outcome, s) ← workerAck pool env workerLabel taskId phase attemptId authorized s
    return (.acked outcome, s)
  | .status env => do
    let (failed, s) ← poolStatus pool env s
    return (.status failed, s)
  | .cancel checks now terminal taskId => do
    let s ← cancelTask pool checks now terminal taskId s
    return (.cancelled, s)
  | .workers workers => .ok (.changed, { s with workers })

def Step (pool : OraclePool) (s : State) (event : Call × Answer) (t : State) : Prop :=
  perform pool event.1 s = .ok (event.2, t)

end NyxId.OracleTasks
