import NyxId.Interleave.Rely
import Mathlib.Algebra.Order.Ring.Int
import Mathlib.Logic.Function.Basic

/-!
Exact service approvals: redeeming and observing one request by any number of workers. Times are
nanoseconds on clocks that the workers do not share; the database keeps whole milliseconds.
-/

namespace NyxId.ExactApproval

open Interleave

def nanosPerSecond : ℤ := 1000000000

def nanosPerMilli : ℤ := 1000000

def maxReceiptResponseBytes : ℕ := 8 * 1024 * 1024

def executionEffectTimeout : ℤ := 600 * nanosPerSecond

def executionOutcomeRecoveryGrace : ℤ := 900 * nanosPerSecond

def providerOutcomeUnknown : String := "provider_outcome_unknown"

inductive RequestStatus where
  | pending
  | approved
  | rejected
  | expired
  | other
  deriving DecidableEq

inductive RedemptionStatus where
  | executing
  | completed
  | drifted
  | revoked
  | failed
  deriving DecidableEq

structure Receipt where
  httpStatus : ℕ
  responseBody : String
  responseDigest : String
  deriving DecidableEq

structure Redemption where
  status : RedemptionStatus
  admittedAt : ℤ
  completedAt : Option ℤ
  receipt : Option Receipt
  failureCode : Option String
  deriving DecidableEq

structure ApprovalRequest where
  status : RequestStatus
  expiresAt : ℤ
  redemption : Option Redemption

inductive ApprovalState where
  | pending
  | approved
  | denied
  | expired
  | revoked
  | drifted
  | redeeming
  | redeemed
  | failed
  deriving DecidableEq

structure ApprovalResult where
  state : ApprovalState
  receipt : Option Receipt
  failureCode : Option String

inductive AppError where
  | forbidden (text : String)
  | conflict (text : String)
  | serviceConcurrencyLimited
  | authority
  | database
  /-- The timer of the execution fired. -/
  | elapsed
  deriving DecidableEq

/-- What a gate before the effect answers instead of letting it pass: how the redemption is to end. -/
structure Refusal where
  status : RedemptionStatus
  failureCode : String
  ended : status ≠ .executing ∧ status ≠ .completed

/-- What the tool execution reports of the effect, with the code of an error. -/
inductive Executed where
  | response (httpStatus : ℕ) (body : String)
  | providerOutcomeUnknown
  | providerUnreachable
  | error (failureCode : String) (limited : Bool)

/-- The claim that was stored: by which call, and when on its clock. -/
structure Claim where
  caller : ℕ
  now : ℤ

/-- A call that reached the provider, and whether the redemption was executing then. -/
structure Effect where
  caller : ℕ
  executing : Bool

structure Store where
  request : ApprovalRequest
  clock : ℤ
  claim : Option Claim
  /-- Whether the claiming call has itself written how its redemption ended. -/
  closed : Bool
  effects : List Effect
  reported : Option Executed
  /-- The request as each call last read it. -/
  loaded : ℕ → Option ApprovalRequest
  results : ℕ → Option (Except AppError ApprovalResult)

/-- What the surroundings supply: the time that has passed, whether the timer fires before an answer
arrives, and what the gates and the provider answer. -/
structure Env where
  elapsed : ℕ
  late : Bool
  refusal : Option Refusal
  executed : Executed

/-- A time as the database keeps it. -/
def stored (t : ℤ) : ℤ := t / nanosPerMilli * nanosPerMilli

def Redemption.stored (r : Redemption) : Redemption :=
  { r with admittedAt := ExactApproval.stored r.admittedAt, completedAt := r.completedAt.map ExactApproval.stored }

/-- A redemption that is not executing. -/
abbrev Ended := { r : Redemption // r.status ≠ .executing }

/-- The steps that the execution's timer can cut. -/
inductive Inner where
  | gate
  | execute
  | persist (redemption : Ended)
  | load

abbrev Inner.Answer : Inner → Type
  | gate => Option Refusal
  | execute => Executed
  | persist _ => Option ApprovalRequest
  | load => ApprovalRequest

inductive Op : Type → Type
  | now : Op ℤ
  | load : Op ApprovalRequest
  | expire (status : RequestStatus) (now : ℤ) : Op (Option ApprovalRequest)
  | authority : Op (Option Refusal)
  | claim (now : ℤ) : Op (Option ApprovalRequest)
  | recover (admittedAt now : ℤ) : Op (Option ApprovalRequest)
  | persist (redemption : Ended) : Op (Option ApprovalRequest)
  | timed (deadline : ℤ) (o : Inner) : Op (Option o.Answer)
  | report (r : Except AppError ApprovalResult) : Op Unit

def Store.read (s : Store) (w : ℕ) : Store :=
  { s with loaded := Function.update s.loaded w (some s.request) }

/-- A write that leaves the request as given, which the call gets back. -/
def Store.write (s : Store) (w : ℕ) (request : ApprovalRequest) : Store :=
  { s with request := request, loaded := Function.update s.loaded w (some request) }

def isExecuting (redemption : Option Redemption) : Bool :=
  redemption.any fun r => r.status = .executing

/-- The write of `persist_redemption`. -/
def execPersist (w : ℕ) (redemption : Ended) (s : Store) : Option ApprovalRequest × Store :=
  if isExecuting s.request.redemption then
    let request := { s.request with redemption := some redemption.1.stored }
    (some request, { s.write w request with
      closed := s.closed || decide (s.claim.map Claim.caller = some w) })
  else (none, s)

def execInner (w : ℕ) (env : Env) (o : Inner) (s : Store) : o.Answer × Store :=
  match o with
  | .gate => (env.refusal, s)
  | .execute => (env.executed, { s with
      effects := s.effects ++ [⟨w, isExecuting s.request.redemption⟩]
      reported := some env.executed })
  | .persist redemption => execPersist w redemption s
  | .load => (s.request, s.read w)

/-- `skew w` is what the clock of worker `w` is ahead. -/
def exec (skew : ℕ → ℤ) {β : Type} (w : ℕ) (env : Env) (o : Op β) (s : Store) : β × Store :=
  match o with
  | .now => (s.clock + env.elapsed + skew w, { s with clock := s.clock + env.elapsed })
  | .load => (s.request, s.read w)
  | .expire status now =>
    if s.request.status = status ∧ s.request.expiresAt ≤ stored now ∧ s.request.redemption = none then
      let request := { s.request with status := .expired }
      (some request, s.write w request)
    else (none, s)
  | .authority => (env.refusal, s)
  | .claim now =>
    if s.request.status = .approved ∧ stored now < s.request.expiresAt ∧
        s.request.redemption = none then
      let redemption : Redemption := ⟨.executing, now, none, none, none⟩
      let request := { s.request with redemption := some redemption.stored }
      (some request, { s.write w request with claim := some ⟨w, now⟩ })
    else (none, s)
  | .recover admittedAt now =>
    if s.request.status = .approved ∧ isExecuting s.request.redemption = true ∧
        s.request.redemption.map Redemption.admittedAt = some (stored admittedAt) then
      let redemption : Redemption := ⟨.failed, admittedAt, some now, none, some providerOutcomeUnknown⟩
      let request := { s.request with redemption := some redemption.stored }
      (some request, s.write w request)
    else (none, s)
  | .persist redemption => execPersist w redemption s
  | .timed deadline o =>
    let s := { s with clock := s.clock + env.elapsed }
    -- a timer that has fired cuts the step off; one that fires meanwhile hides its answer
    if deadline ≤ s.clock + skew w then (none, s)
    else
      (if env.late then none else some (execInner w env o s).1, (execInner w env o s).2)
  | .report r => ((), { s with results := Function.update s.results w (some r) })

abbrev Code := Prog Op AppError

def redemptionState : RedemptionStatus → ApprovalState
  | .executing => .redeeming
  | .completed => .redeemed
  | .drifted => .drifted
  | .revoked => .revoked
  | .failed => .failed

/-- The state and the failure code of a request as it is stored. -/
def persistedState (request : ApprovalRequest) : ApprovalState × Option String :=
  match request.status with
  | .pending => (.pending, none)
  | .rejected => (.denied, none)
  | .expired => (.expired, none)
  | .approved =>
    match request.redemption with
    | some redemption => (redemptionState redemption.status, redemption.failureCode)
    | none => (.approved, none)
  | .other => (.revoked, none)

def resultFor (request : ApprovalRequest) (state : ApprovalState) : ApprovalResult :=
  ⟨state, request.redemption.bind Redemption.receipt, request.redemption.bind Redemption.failureCode⟩

def ensureBound (bound : Bool) (request : ApprovalRequest) : Code ApprovalRequest :=
  if bound then pure request else Prog.fail (.forbidden "exact_service_request_binding_mismatch")

def loadBoundRequest (bound : Bool) : Code ApprovalRequest := do
  let request ← Prog.perform .load
  ensureBound bound request

def expireIfNeeded (request : ApprovalRequest) : Code ApprovalRequest := do
  if request.redemption.isSome ∨ request.status ≠ .pending ∧ request.status ≠ .approved then
    pure request
  else do
    let now ← Prog.perform .now
    if now < request.expiresAt then pure request
    else do
      let now ← Prog.perform .now
      match ← Prog.perform (.expire request.status now) with
      | some updated => pure updated
      | none => Prog.perform .load

def recoverStaleExecution (request : ApprovalRequest) : Code ApprovalRequest := do
  let now ← Prog.perform .now
  match request.redemption with
  | none => pure request
  | some redemption =>
    if redemption.status ≠ .executing ∨ now < redemption.admittedAt + executionOutcomeRecoveryGrace then
      pure request
    else match ← Prog.perform (.recover redemption.admittedAt now) with
      | some updated => pure updated
      | none => Prog.perform .load

/-- Fills a failure code that the request does not store. -/
def withFailureCode (result : ApprovalResult) (code : Option String) : ApprovalResult :=
  { result with failureCode := result.failureCode <|> code }

def defaultFailureCode : ApprovalState → Option String
  | .revoked => some "selector_revoked"
  | .drifted => some "catalog_drift"
  | _ => none

def observeRequest (bound authorized : Bool) : Code ApprovalResult := do
  if !authorized then Prog.fail .authority
  else do
    let request ← loadBoundRequest bound
    let request ← expireIfNeeded request
    let observed := persistedState request
    if observed.1 ≠ .approved then
      pure (withFailureCode (resultFor request observed.1) observed.2)
    else match ← Prog.perform .authority with
      | some refusal =>
        pure (withFailureCode (resultFor request (redemptionState refusal.status)) refusal.failureCode)
      | none => pure (resultFor request .approved)

def stateConflict : AppError := .conflict "exact_service_redemption_state_conflict"

/-- A step of the execution under its timer. -/
def timed (deadline : ℤ) (o : Inner) : Code o.Answer := do
  match ← Prog.perform (.timed deadline o) with
  | some answer => pure answer
  | none => Prog.fail .elapsed

/-- The end of a redemption that a gate refuses. -/
def persistRefusal (deadline now : ℤ) (refusal : Refusal) : Code ApprovalResult := do
  let completedAt ← Prog.perform .now
  match ← timed deadline (.persist
      ⟨⟨refusal.status, now, some completedAt, none, some refusal.failureCode⟩, refusal.ended.1⟩) with
  | some updated => pure (resultFor updated (redemptionState refusal.status))
  | none => Prog.fail stateConflict

def failedWith (now completedAt : ℤ) (code : String) : Ended :=
  ⟨⟨.failed, now, some completedAt, none, some code⟩, nofun⟩

/-- How an execution that reported its end is stored; `digest` is that of a response. -/
def redemptionOf (digest : String → String) (now completedAt : ℤ) : Executed → Ended
  | .response httpStatus body =>
    if maxReceiptResponseBytes < body.utf8ByteSize then
      ⟨⟨.failed, now, some completedAt, some ⟨httpStatus, "", digest body⟩,
        some "provider_response_too_large"⟩, nofun⟩
    else ⟨⟨.completed, now, some completedAt, some ⟨httpStatus, body, digest body⟩, none⟩, nofun⟩
  | .providerOutcomeUnknown => failedWith now completedAt ExactApproval.providerOutcomeUnknown
  | .providerUnreachable => failedWith now completedAt "provider_unreachable"
  | .error code _ => failedWith now completedAt code

def Executed.limited : Executed → Bool
  | .error _ limited => limited
  | _ => false

/-- The gates before the effect, each of them read again for this execution. -/
def passGates (deadline now : ℤ) : ℕ → Code (Option ApprovalResult)
  | 0 => pure none
  | gates + 1 => do
    match ← timed deadline .gate with
    | some refusal => do
      let result ← persistRefusal deadline now refusal
      pure (some result)
    | none => passGates deadline now gates

/-- The stored end, or the one that was stored before. -/
def persistRedemptionOrLoad (bound : Bool) (redemption : Ended) : Code ApprovalRequest := do
  match ← Prog.perform (.persist redemption) with
  | some updated => pure updated
  | none => loadBoundRequest bound

def timedPersistRedemptionOrLoad (bound : Bool) (deadline : ℤ) (redemption : Ended) :
    Code ApprovalRequest := do
  match ← timed deadline (.persist redemption) with
  | some updated => pure updated
  | none => do
    let request ← timed deadline .load
    ensureBound bound request

def settledResult (updated : ApprovalRequest) (limited : Bool) : Code ApprovalResult :=
  if (persistedState updated).1 = .redeeming then Prog.fail stateConflict
  else if limited then Prog.fail .serviceConcurrencyLimited
  else pure (resultFor updated (persistedState updated).1)

/-- What follows the claim, under the timer: the live authority, the execution's authority, the
prepared call and the route are the gates. -/
def postClaim (digest : String → String) (bound : Bool) (deadline now : ℤ) : Code ApprovalResult := do
  match ← passGates deadline now 4 with
  | some result => pure result
  | none => do
    let executed ← timed deadline .execute
    let completedAt ← Prog.perform .now
    let updated ← timedPersistRedemptionOrLoad bound deadline (redemptionOf digest now completedAt executed)
    settledResult updated executed.limited

/-- What follows when the timer fires. -/
def timedOut (bound : Bool) (now : ℤ) : Code ApprovalResult := do
  let completedAt ← Prog.perform .now
  let updated ← persistRedemptionOrLoad bound (failedWith now completedAt providerOutcomeUnknown)
  settledResult updated false

def reloadAfterLostRedemptionClaim (bound : Bool) : Code ApprovalResult := do
  let request ← loadBoundRequest bound
  let request ← expireIfNeeded request
  let request ← recoverStaleExecution request
  let observed := persistedState request
  pure (withFailureCode (resultFor request observed.1) observed.2)

def executeClaim (digest : String → String) (bound : Bool) (now : ℤ) : Code ApprovalResult := do
  match ← (postClaim digest bound (now + executionEffectTimeout) now).attempt with
  | .ok result => pure result
  | .error .elapsed => timedOut bound now
  | .error e => Prog.fail e

def redeemRequest (digest : String → String) (bound authorized fenced : Bool) : Code ApprovalResult := do
  if !authorized then Prog.fail .authority
  else do
    let request ← loadBoundRequest bound
    if !fenced then Prog.fail (.conflict "exact_service_redemption_conflict")
    else do
      let request ← expireIfNeeded request
      let request ← recoverStaleExecution request
      let observed := persistedState request
      if observed.1 = .redeemed ∨ observed.1 = .redeeming ∨ observed.1 = .failed then
        pure (resultFor request observed.1)
      else if observed.1 ≠ .approved then
        pure (withFailureCode (withFailureCode (resultFor request observed.1) observed.2)
          (defaultFailureCode observed.1))
      else do
        let now ← Prog.perform .now
        match ← Prog.perform (.claim now) with
        | none => reloadAfterLostRedemptionClaim bound
        | some _ => executeClaim digest bound now

/-- The caller's bindings, as the request's own fields settle them. -/
inductive Call where
  | redeem (bound authorized fenced : Bool)
  | observe (bound authorized : Bool)

def code (digest : String → String) : Call → Code Unit
  | .redeem bound authorized fenced => do
    let r ← (redeemRequest digest bound authorized fenced).attempt
    Prog.perform (.report r)
  | .observe bound authorized => do
    let _ ← (observeRequest bound authorized).attempt
    pure ()

def machine (digest : String → String) (skew : ℕ → ℤ) : Machine where
  Op := Op
  Err := AppError
  Store := Store
  Env := Env
  Entry := Call
  exec := exec skew
  dropped := .database
  code _ := code digest

/-- A request that nobody has redeemed. -/
def start (status : RequestStatus) (expiresAt clock : ℤ) : Store :=
  ⟨⟨status, expiresAt, none⟩, clock, none, false, [], none, fun _ => none, fun _ => none⟩

end NyxId.ExactApproval
