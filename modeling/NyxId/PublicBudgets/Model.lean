import NyxId.Interleave.Collection
import NyxId.Interleave.Transactions

/-!
Daily budgets of public sessions: buckets, the loops that hold from them and the calls of a loop.
Each transaction on a loop writes its row, so of two that overlap one is retried, and what a
transaction does is a commit on the stored state. Credits are counted in their smallest unit; an
overflow only aborts.
-/

namespace NyxId.PublicBudgets

open Interleave

inductive AppError where
  | conflict
  | rateLimited
  deriving DecidableEq

/-- `scope_key` -/
inductive Scope where
  | total (profileId : String) (day : ℤ)
  | sender (profileId actor : String) (day : ℤ)
  deriving DecidableEq

structure PublicBudgetBucket where
  held : ℤ
  spent : ℤ
  deriving DecidableEq

structure PublicBudgetLoop where
  publicSessionId : String
  turnId : String
  receiptId : String
  claimId : String
  profileId : String
  actor : String
  credentialApiKeyId : String
  policyDigest : String
  day : ℤ
  expiresAt : ℤ
  maximum : ℤ
  held : ℤ
  allocated : ℤ
  spent : ℤ
  calls : ℤ
  maxCalls : ℤ
  continuations : ℤ
  maxContinuations : ℤ
  inputTokens : ℤ
  outputTokens : ℤ
  maxInputTokens : ℤ
  maxOutputTokens : ℤ
  closed : Bool
  deriving DecidableEq

inductive PublicCallState where
  | prepared
  | funded
  | dispatchAdmitted
  | cancelling
  | released
  | conservative
  | settled
  deriving DecidableEq

structure PublicCallReservation where
  loopId : String
  routeDigest : String
  state : PublicCallState
  continuation : Bool
  maximum : ℤ
  capCharge : ℤ
  expiresAt : ℤ
  deriving DecidableEq

structure Store where
  buckets : Collection Scope PublicBudgetBucket
  loops : Collection String PublicBudgetLoop
  calls : Collection String PublicCallReservation

/-- The buckets of `bucket_ids`. -/
def PublicBudgetLoop.References (row : PublicBudgetLoop) (scope : Scope) : Prop :=
  scope = .total row.profileId row.day ∨ scope = .sender row.profileId row.actor row.day

instance (row : PublicBudgetLoop) (scope : Scope) : Decidable (row.References scope) :=
  inferInstanceAs (Decidable (_ ∨ _))

/-- What the quote of a dispatch fixes; a negative maximum is refused when it is made. -/
structure CallQuote where
  callId : String
  routeDigest : String
  credentialApiKeyId : String
  expiresAt : ℤ
  maximum : ℤ
  input : ℤ
  output : ℤ
  continuation : Bool
  nonneg : 0 ≤ maximum

structure ReserveRequest where
  loopId : String
  publicSessionId : String
  turnId : String
  receiptId : String
  claimId : String
  profileId : String
  actor : String
  credentialApiKeyId : String
  policyDigest : String
  /-- Whether `fence_context` and the policy of the proof let the request through. -/
  fenced : Bool
  maximum : ℤ
  maxCalls : ℕ
  maxModelCalls : ℕ
  maxContinuations : ℕ
  maxInputTokens : ℕ
  maxOutputTokens : ℕ
  expiresAt : ℤ
  /-- The day of the server and its end. -/
  day : ℤ
  dayEnd : ℤ
  now : ℤ
  totalDailyCredits : ℤ
  senderDailyCredits : ℤ

def denied {α : Type} : Except AppError α := .error .conflict

def Store.loopOf (s : Store) (publicSessionId turnId : String) : Option PublicBudgetLoop :=
  (s.loops.entries.find? fun e =>
    e.2.publicSessionId = publicSessionId && e.2.turnId = turnId).map Sigma.snd

def ReserveRequest.row (r : ReserveRequest) : PublicBudgetLoop where
  publicSessionId := r.publicSessionId
  turnId := r.turnId
  receiptId := r.receiptId
  claimId := r.claimId
  profileId := r.profileId
  actor := r.actor
  credentialApiKeyId := r.credentialApiKeyId
  policyDigest := r.policyDigest
  day := r.day
  expiresAt := min r.expiresAt r.dayEnd
  maximum := r.maximum
  held := r.maximum
  allocated := 0
  spent := 0
  calls := 0
  maxCalls := r.maxCalls
  continuations := 0
  maxContinuations := r.maxContinuations
  inputTokens := 0
  outputTokens := 0
  maxInputTokens := r.maxInputTokens
  maxOutputTokens := r.maxOutputTokens
  closed := false

/-- Holds an amount in a bucket, which is created when it is missing. -/
def Store.hold (s : Store) (scope : Scope) (amount cap : ℤ) : Except AppError Store :=
  let bucket := (s.buckets.lookup scope).getD ⟨0, 0⟩
  if bucket.held + bucket.spent + amount ≤ cap then
    .ok { s with buckets := s.buckets.insert scope { bucket with held := bucket.held + amount } }
  else .error .rateLimited

/-- `reserve_loop_in_session` -/
def reserveLoop (r : ReserveRequest) (s : Store) : Except AppError Store :=
  if r.maximum < 0 ∨ r.maxCalls = 0 ∨ r.maxModelCalls < r.maxCalls ∨ r.fenced = false then denied
  else
    match s.loopOf r.publicSessionId r.turnId with
    | some existing =>
      if existing.maximum ≠ r.maximum ∨ existing.credentialApiKeyId ≠ r.credentialApiKeyId ∨
          existing.policyDigest ≠ r.policyDigest ∨ existing.receiptId ≠ r.receiptId ∨
          existing.claimId ≠ r.claimId ∨ existing.closed then denied
      else .ok s
    | none =>
      -- the id is a new one
      if (s.loops.lookup r.loopId).isSome then denied
      else if r.row.expiresAt ≤ r.now then denied
      else do
        let s ← s.hold (.total r.profileId r.day) r.maximum r.totalDailyCredits
        let s ← s.hold (.sender r.profileId r.actor r.day) r.maximum r.senderDailyCredits
        .ok { s with loops := s.loops.insert r.loopId r.row }

def continuationCount (continuation : Bool) : ℤ := if continuation then 1 else 0

/-- The filter with which a call is prepared. -/
def Prepares (row : PublicBudgetLoop) (quote : CallQuote) (publicSessionId turnId : String)
    (now : ℤ) : Prop :=
  row.closed = false ∧ row.publicSessionId = publicSessionId ∧ row.turnId = turnId ∧
    row.credentialApiKeyId = quote.credentialApiKeyId ∧ now < row.expiresAt ∧
    row.calls < row.maxCalls ∧ row.allocated + row.spent + quote.maximum ≤ row.maximum ∧
    row.inputTokens + quote.input ≤ row.maxInputTokens ∧
    row.outputTokens + quote.output ≤ row.maxOutputTokens ∧
    row.continuations + continuationCount quote.continuation ≤ row.maxContinuations

instance (row : PublicBudgetLoop) (quote : CallQuote) (publicSessionId turnId : String) (now : ℤ) :
    Decidable (Prepares row quote publicSessionId turnId now) :=
  inferInstanceAs (Decidable (_ ∧ _))

def PublicBudgetLoop.prepared (row : PublicBudgetLoop) (quote : CallQuote) : PublicBudgetLoop :=
  { row with
    allocated := row.allocated + quote.maximum
    calls := row.calls + 1
    inputTokens := row.inputTokens + quote.input
    outputTokens := row.outputTokens + quote.output
    continuations := row.continuations + continuationCount quote.continuation }

/-- `prepare_call_in_session` -/
def prepareCall (publicSessionId turnId loopId : String) (fenced : Bool) (quote : CallQuote)
    (now : ℤ) (s : Store) : Except AppError Store :=
  match s.calls.lookup quote.callId with
  | some existing =>
    if existing.loopId ≠ loopId ∨ existing.routeDigest ≠ quote.routeDigest ∨
        existing.maximum ≠ quote.maximum ∨ existing.continuation ≠ quote.continuation then denied
    else .ok s
  | none =>
    if fenced = false then denied
    else
      match s.loops.lookup loopId with
      | none => denied
      | some row =>
        if Prepares row quote publicSessionId turnId now then
          .ok { s with
            loops := s.loops.insert loopId (row.prepared quote)
            calls := s.calls.insert quote.callId ⟨loopId, quote.routeDigest, .prepared,
              quote.continuation, quote.maximum, 0, min row.expiresAt quote.expiresAt⟩ }
        else denied

/-- A write of one call's state, when the state is one of those it may come from. -/
def Store.restate (s : Store) (id : String) (before : List PublicCallState)
    (after : PublicCallReservation → PublicCallReservation) : Store :=
  match s.calls.lookup id with
  | some call => if call.state ∈ before then { s with calls := s.calls.insert id (after call) } else s
  | none => s

/-- The funding of a prepared call, with the checks of its route as a verdict. -/
def fundCall (id : String) (admitted : Bool) (now : ℤ) (s : Store) : Except AppError Store :=
  match s.calls.lookup id with
  | some call =>
    if admitted = true ∧ call.state = .prepared ∧ now < call.expiresAt then
      .ok { s with calls := s.calls.insert id { call with state := .funded } }
    else denied
  | none => denied

/-- The first write of `cancel_unforwarded_call`. -/
def cancelUnforwarded (id : String) (now : ℤ) (s : Store) : Store :=
  s.restate id [.prepared, .funded] fun call => { call with state := .cancelling, expiresAt := now }

/-- The first write of `reconcile_call`, on a call that it read as expired. -/
def expireCall (id : String) (s : Store) : Store :=
  s.restate id [.prepared, .funded] fun call => { call with state := .cancelling }

/-- `admit_dispatch_in_session`; the verdict is that of the fence and of the meter rows. -/
def admitDispatch (id publicSessionId turnId : String) (admitted : Bool) (now : ℤ) (s : Store) :
    Except AppError Store :=
  match s.calls.lookup id with
  | none => denied
  | some call =>
    match s.loops.lookup call.loopId with
    | none => denied
    | some row =>
      if call.state = .funded ∧ admitted = true ∧ row.closed = false ∧
          row.publicSessionId = publicSessionId ∧ row.turnId = turnId ∧ now < row.expiresAt ∧
          now < call.expiresAt then
        .ok { s with calls := s.calls.insert id { call with state := .dispatchAdmitted } }
      else denied

/-- Adds to the buckets of a loop. -/
def Store.shift (s : Store) (row : PublicBudgetLoop) (held spent : ℤ) :
    Collection Scope PublicBudgetBucket :=
  s.buckets.mapValues fun scope bucket =>
    if row.References scope then ⟨bucket.held + held, bucket.spent + spent⟩ else bucket

/-- `post_cap` -/
def postCap (s : Store) (id : String) (call : PublicCallReservation) (cost : ℤ) (finalCost : Bool) :
    Except AppError Store :=
  if cost < 0 then denied
  else
    match s.loops.lookup call.loopId with
    | none => denied
    | some row =>
      let delta := cost - call.capCharge
      let first := call.state ≠ .conservative
      let holdDelta := if first then -min cost call.maximum else 0
      if (s.buckets.lookup (.total row.profileId row.day)).isNone ∨
          (s.buckets.lookup (.sender row.profileId row.actor row.day)).isNone then denied
      else
        .ok {
          buckets := s.shift row holdDelta delta
          loops := s.loops.insert call.loopId { row with
            held := row.held + holdDelta
            spent := row.spent + delta
            allocated := if first then row.allocated - call.maximum else row.allocated }
          calls := s.calls.insert id { call with
            state := if finalCost then .settled else .conservative
            capCharge := cost } }

/-- The transaction of `reconcile_call`, with the cost that was read before it, if it was known. -/
def reconcile (id : String) (actual : Option ℤ) (now : ℤ) (s : Store) : Except AppError Store :=
  match s.calls.lookup id with
  | none => denied
  | some call =>
    match call.state with
    | .cancelling =>
      match s.loops.lookup call.loopId with
      | none => denied
      | some row =>
        .ok { s with
          loops := s.loops.insert call.loopId { row with allocated := row.allocated - call.maximum }
          calls := s.calls.insert id { call with state := .released } }
    | .dispatchAdmitted =>
      match actual with
      | some cost => postCap s id call cost true
      | none => if call.expiresAt ≤ now then postCap s id call call.maximum false else .ok s
    | .conservative =>
      match actual with
      | some cost => postCap s id call cost true
      | none => .ok s
    | _ => .ok s

def PublicCallState.Active (state : PublicCallState) : Prop :=
  state = .prepared ∨ state = .funded ∨ state = .dispatchAdmitted ∨ state = .cancelling

instance (state : PublicCallState) : Decidable state.Active :=
  inferInstanceAs (Decidable (_ ∨ _))

/-- `close_loop_in_session` -/
def closeLoop (id : String) (s : Store) : Store :=
  match s.loops.lookup id with
  | none => s
  | some row =>
    if row.closed then s
    else if s.calls.entries.any fun e => e.2.loopId = id && e.2.state.Active then s
    else { s with
      buckets := s.shift row (-row.held) 0
      loops := s.loops.insert id { row with closed := true, held := 0 } }

inductive Op where
  | reserve (request : ReserveRequest)
  | prepare (publicSessionId turnId loopId : String) (fenced : Bool) (quote : CallQuote) (now : ℤ)
  | fund (id : String) (admitted : Bool) (now : ℤ)
  | cancel (id : String) (now : ℤ)
  | expire (id : String)
  | dispatch (id publicSessionId turnId : String) (admitted : Bool) (now : ℤ)
  | reconcile (id : String) (actual : Option ℤ) (now : ℤ)
  | close (id : String)

def apply : Op → Store → Except AppError Store
  | .reserve request, s => reserveLoop request s
  | .prepare publicSessionId turnId loopId fenced quote now, s =>
    prepareCall publicSessionId turnId loopId fenced quote now s
  | .fund id admitted now, s => fundCall id admitted now s
  | .cancel id now, s => .ok (cancelUnforwarded id now s)
  | .expire id, s => .ok (expireCall id s)
  | .dispatch id publicSessionId turnId admitted now, s =>
    admitDispatch id publicSessionId turnId admitted now s
  | .reconcile id actual now, s => NyxId.PublicBudgets.reconcile id actual now s
  | .close id, s => .ok (closeLoop id s)

/-- The service, from an empty database. -/
def budgets : Transactions where
  State := Store
  Op := Op
  Err := AppError
  Initial s := s = ⟨∅, ∅, ∅⟩
  apply := apply

end NyxId.PublicBudgets
