import NyxId.Encoding.Text
import NyxId.Interleave.Collection
import NyxId.Interleave.Rely

/-!
Durable operation grants: quota, executions and their reservations. A worker's number is also the
id of the execution that it inserts. Times are nanoseconds since the epoch.
-/

namespace NyxId.DurableGrants

open Interleave

def maxCasAttempts : ℕ := 16

def maxOperationIdLen : ℕ := 200

inductive AppError where
  | missing
  | mismatch
  | revoked
  | expired
  | quotaExhausted
  | contractDrift
  | conflict
  | outcomeUncertain
  | duplicate
  | database
  deriving DecidableEq

/-- The bounds are those that `validate` checks of a window. -/
structure DurableUsageWindow where
  durationSeconds : ℤ
  maxOperations : ℕ
  positive : 0 < durationSeconds
  deriving DecidableEq

structure DurableOperationGrant where
  userId : String
  apiKeyId : String
  userServiceId : String
  validFrom : ℤ
  expiresAt : ℤ
  totalLimit : ℕ
  totalUsed : ℕ
  window : Option DurableUsageWindow
  windowStartedAt : Option ℤ
  windowUsed : ℕ
  revoked : Bool
  stateVersion : ℕ
  deriving DecidableEq

inductive DurableExecutionStatus where
  | reserved
  | dispatched
  | completed
  | failed
  | rejected
  | outcomeUncertain
  deriving DecidableEq

structure DurableOperationExecution where
  grantId : String
  operationId : String
  requestDigest : String
  status : DurableExecutionStatus
  deriving DecidableEq

/-- A quota claim that was stored: by which request, at which clock, and the window it left. -/
structure Claim where
  execution : ℕ
  grantId : String
  now : ℤ
  start : Option ℤ
  used : ℕ
  deriving DecidableEq

structure Move where
  execution : ℕ
  grantId : String
  operationId : String
  before : DurableExecutionStatus
  after : DurableExecutionStatus
  deriving DecidableEq

structure Reservation where
  execution : ℕ
  grantId : String
  operationId : String
  deriving DecidableEq

/-- What happened, as far as the laws speak of it. -/
inductive Happening where
  | claimed (claim : Claim)
  | revoked (grantId : String)
  | returned (reservation : Reservation)
  | moved (move : Move)
  deriving DecidableEq

/-- The newest happening is the first of the history. -/
structure Store where
  grants : Collection String DurableOperationGrant
  executions : Collection ℕ DurableOperationExecution
  history : List Happening

/-- What is stored of a time: milliseconds. -/
def stored (t : ℤ) : ℤ := t / 1000000 * 1000000

def DurableUsageWindow.duration (window : DurableUsageWindow) : ℤ :=
  window.durationSeconds * 1000000000

/-- `Duration::try_seconds` -/
def trySeconds (seconds : ℤ) : Option ℤ :=
  if -9223372036854775 ≤ seconds ∧ seconds ≤ 9223372036854775 then some (seconds * 1000000000)
  else none

/-- The window start, while its window has not elapsed; an end past the latest time is none. -/
def activeStart (latest : ℤ) (start : Option ℤ) (duration now : ℤ) : Option ℤ :=
  start.filter fun start => start + duration ≤ latest && now < start + duration

/-- What `claim_quota` reads off a grant: the window start and the use that it is to store. -/
def nextWindow (latest : ℤ) (grant : DurableOperationGrant) (now : ℤ) :
    Except AppError (Option ℤ × ℕ) :=
  if grant.revoked then .error .revoked
  else if now < grant.validFrom then .error .mismatch
  else if grant.expiresAt ≤ now then .error .expired
  else if grant.totalLimit ≤ grant.totalUsed then .error .quotaExhausted
  else
    match grant.window with
    | some window =>
      match trySeconds window.durationSeconds with
      | none => .error .contractDrift
      | some duration =>
        let active := activeStart latest grant.windowStartedAt duration now
        let used := if active.isSome then grant.windowUsed else 0
        if window.maxOperations ≤ used then .error .quotaExhausted
        else .ok (some (active.getD now), used + 1)
    | none => .ok (grant.windowStartedAt, grant.windowUsed)

/-- The database operations, each atomic, the clock, and the other checks of a request. -/
inductive Op : Type → Type where
  | surroundings : Op (Option AppError)
  | clock : Op ℤ
  | findGrant (grantId : String) : Op (Option DurableOperationGrant)
  | claim (grantId : String) (stateVersion : ℕ) (now : ℤ) (start : Option ℤ) (used : ℕ) : Op Bool
  | revoke (grantId userId apiKeyId : String) : Op Bool
  | insert (execution : DurableOperationExecution) : Op Bool
  | findExecution (grantId operationId : String) : Op (Option DurableOperationExecution)
  | isReserved (execution : ℕ) : Op Bool
  | move (execution : ℕ) (before : List DurableExecutionStatus) (after : DurableExecutionStatus) :
      Op Bool
  | give (reservation : Reservation) : Op Unit
  | holds (reservation : Reservation) : Op Bool

structure Env where
  now : ℤ
  verdict : Option AppError

def Claimable (grant : DurableOperationGrant) (stateVersion : ℕ) : Prop :=
  grant.stateVersion = stateVersion ∧ grant.revoked = false

instance (grant : DurableOperationGrant) (stateVersion : ℕ) :
    Decidable (Claimable grant stateVersion) :=
  inferInstanceAs (Decidable (_ ∧ _))

def DurableOperationGrant.claimed (grant : DurableOperationGrant) (start : Option ℤ) (used : ℕ) :
    DurableOperationGrant :=
  { grant with
    windowStartedAt := start.map stored
    windowUsed := used
    totalUsed := grant.totalUsed + 1
    stateVersion := grant.stateVersion + 1 }

def Store.claim (s : Store) (claim : Claim) (grant : DurableOperationGrant) : Store :=
  { s with
    grants := s.grants.insert claim.grantId (grant.claimed claim.start claim.used)
    history := .claimed { claim with start := claim.start.map stored } :: s.history }

def Store.revoke (s : Store) (grantId : String) (grant : DurableOperationGrant) : Store :=
  { s with
    grants := s.grants.insert grantId
      { grant with revoked := true, stateVersion := grant.stateVersion + 1 }
    history := .revoked grantId :: s.history }

def Store.move (s : Store) (id : ℕ) (execution : DurableOperationExecution)
    (after : DurableExecutionStatus) : Store :=
  { s with
    executions := s.executions.insert id { execution with status := after }
    history := .moved ⟨id, execution.grantId, execution.operationId, execution.status, after⟩ ::
      s.history }

/-- The execution of an operation of a grant. -/
def Store.executionOf (s : Store) (grantId operationId : String) : Option DurableOperationExecution :=
  (s.executions.entries.find? fun e =>
    e.2.grantId = grantId && e.2.operationId = operationId).map Sigma.snd

def exec {β : Type} (w : ℕ) (env : Env) : Op β → Store → β × Store
  | .surroundings, s => (env.verdict, s)
  | .clock, s => (env.now, s)
  | .findGrant grantId, s => (s.grants.lookup grantId, s)
  | .claim grantId stateVersion now start used, s =>
    match s.grants.lookup grantId with
    | some grant =>
      if Claimable grant stateVersion then (true, s.claim ⟨w, grantId, now, start, used⟩ grant)
      else (false, s)
    | none => (false, s)
  | .revoke grantId userId apiKeyId, s =>
    match s.grants.lookup grantId with
    | some grant =>
      if grant.userId = userId ∧ grant.apiKeyId = apiKeyId ∧ grant.revoked = false then
        (true, s.revoke grantId grant)
      else (false, s)
    | none => (false, s)
  | .insert execution, s =>
    if (s.executionOf execution.grantId execution.operationId).isSome ∨
        (s.executions.lookup w).isSome then (false, s)
    else (true, { s with executions := s.executions.insert w execution })
  | .findExecution grantId operationId, s => (s.executionOf grantId operationId, s)
  | .isReserved id, s =>
    ((s.executions.lookup id).any fun execution => execution.status = .reserved, s)
  | .move id before after, s =>
    match s.executions.lookup id with
    | some execution =>
      if execution.status ∈ before then (true, s.move id execution after) else (false, s)
    | none => (false, s)
  | .give reservation, s => ((), { s with history := .returned reservation :: s.history })
  | .holds reservation, s => (decide (.returned reservation ∈ s.history), s)

abbrev Code (α : Type) := Prog Op AppError α

def refuse {α : Type} (e : AppError) : Code α := .ret (.error e)

def claimQuota (latest : ℤ) (grantId : String) (now : ℤ) : ℕ → Code Unit
  | 0 => refuse .quotaExhausted
  | attempts + 1 => do
    match ← Prog.perform (.findGrant grantId) with
    | none => refuse .missing
    | some grant =>
      match nextWindow latest grant now with
      | .error e => refuse e
      | .ok (start, used) =>
        if ← Prog.perform (.claim grantId grant.stateVersion now start used) then pure ()
        else claimQuota latest grantId now attempts

def rejectExecution (id : ℕ) : Code Unit := do
  let _ ← (Prog.perform (.move id [.reserved] .rejected)).attempt
  pure ()

structure Request where
  ownerUserId : String
  apiKeyId : String
  userServiceId : String
  grantId : String
  operationId : String
  requestDigest : String
  isWebsocket : Bool

def validOperationId (value : String) : Bool :=
  !value.isEmpty && (Encoding.utf8 value).length ≤ maxOperationIdLen &&
    value.toList.all fun c => c.isAlphanum || "-_.:".toList.contains c

/-- What a duplicate is answered with. -/
def duplicateError (request : Request) : Option DurableOperationExecution → AppError
  | some existing =>
    if existing.requestDigest ≠ request.requestDigest then .conflict
    else if existing.status = .dispatched ∨ existing.status = .outcomeUncertain then .outcomeUncertain
    else .duplicate
  | none => .duplicate

/-- After the execution is inserted: the quota, and the reservation or the rejection. -/
def reserve (latest : ℤ) (w : ℕ) (request : Request) (now : ℤ) : Code Unit := do
  match ← (claimQuota latest request.grantId now maxCasAttempts).attempt with
  | .error e => do
    rejectExecution w
    refuse e
  | .ok () => Prog.perform (.give ⟨w, request.grantId, request.operationId⟩)

/-- `authorize_and_reserve`; the checks of the key come before the grant is read, those of the
endpoint, the constraints and the body after. -/
def authorizeAndReserve (latest : ℤ) (w : ℕ) (request : Request) : Code Unit := do
  if request.grantId = "" then refuse .missing
  else if !validOperationId request.operationId then refuse .missing
  else if request.isWebsocket then refuse .mismatch
  else
    match ← Prog.perform .surroundings with
    | some e => refuse e
    | none =>
      match ← Prog.perform (.findGrant request.grantId) with
      | none => refuse .missing
      | some grant =>
        if grant.userId ≠ request.ownerUserId ∨ grant.apiKeyId ≠ request.apiKeyId ∨
            grant.userServiceId ≠ request.userServiceId then refuse .mismatch
        else if grant.revoked then refuse .revoked
        else
          let now ← Prog.perform .clock
          if now < grant.validFrom then refuse .mismatch
          else if grant.expiresAt ≤ now then refuse .expired
          else
            match ← Prog.perform .surroundings with
            | some e => refuse e
            | none =>
              if ← Prog.perform (.insert ⟨request.grantId, request.operationId,
                  request.requestDigest, .reserved⟩) then reserve latest w request now
              else
                let existing ← Prog.perform
                  (.findExecution request.grantId request.operationId)
                refuse (duplicateError request existing)

/-- The ends that callers report. -/
inductive Terminal where
  | completed
  | failed
  | outcomeUncertain

def Terminal.status : Terminal → DurableExecutionStatus
  | .completed => .completed
  | .failed => .failed
  | .outcomeUncertain => .outcomeUncertain

inductive Mark where
  | dispatched
  | preDispatchRejected
  | sendRejected
  | terminal (terminal : Terminal)

def markDispatched (id : ℕ) : Code Unit := do
  if ← Prog.perform (.isReserved id) then
    match ← Prog.perform .surroundings with
    | some e => refuse e
    | none =>
      if ← Prog.perform (.move id [.reserved] .dispatched) then pure () else refuse .outcomeUncertain
  else refuse .outcomeUncertain

def markSendRejected (id : ℕ) : Code Unit := do
  let _ ← (Prog.perform (.move id [.reserved, .dispatched] .rejected)).attempt
  pure ()

def markTerminal (id : ℕ) (terminal : Terminal) : Code Unit := do
  let _ ← (Prog.perform (.move id [.dispatched] terminal.status)).attempt
  pure ()

def Mark.code (id : ℕ) : Mark → Code Unit
  | .dispatched => markDispatched id
  | .preDispatchRejected => rejectExecution id
  | .sendRejected => markSendRejected id
  | .terminal finish => markTerminal id finish

/-- Calls to the service; a mark is called with a reservation that was returned. -/
inductive Entry where
  | authorize (request : Request)
  | mark (reservation : Reservation) (mark : Mark)
  | revoke (grantId userId apiKeyId : String)

def Entry.code (latest : ℤ) (w : ℕ) : Entry → Code Unit
  | .authorize request => authorizeAndReserve latest w request
  | .mark reservation change => do
    if ← Prog.perform (.holds reservation) then change.code reservation.execution else pure ()
  | .revoke grantId userId apiKeyId => do
    if ← Prog.perform (.revoke grantId userId apiKeyId) then pure () else refuse .missing

/-- The service, where times after the latest one cannot be represented. -/
def machine (latest : ℤ) : Machine where
  Op := Op
  Err := AppError
  Store := Store
  Env := Env
  Entry := Entry
  exec := exec
  dropped := .database
  code := Entry.code latest

/-- A grant as it is created. -/
structure DurableOperationGrant.New (grant : DurableOperationGrant) : Prop where
  totalUsed : grant.totalUsed = 0
  windowStartedAt : grant.windowStartedAt = none
  windowUsed : grant.windowUsed = 0
  revoked : grant.revoked = false

/-- New grants, and no execution yet. -/
structure Opened (s : Store) : Prop where
  grants : ∀ id grant, s.grants.lookup id = some grant → grant.New
  executions : ∀ id, s.executions.lookup id = none
  history : s.history = []

end NyxId.DurableGrants
