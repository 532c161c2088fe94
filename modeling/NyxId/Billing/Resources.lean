import NyxId.Billing.Operations

/-!
Settlement of one allowance period or one credit grant. The lock on the resource
is applied first, then the operation is recorded on the usage row, then the lock
is cleared; any worker may take any of these steps for any other.
-/

namespace NyxId.Billing

open Interleave

def resourceLockRetries : ℕ := 4

def appendAndConfirmDedupe (entry : BillingLedgerEntry) : Code Bool := do
  match ← (commit (.appendLedger entry)).attempt with
  | .ok _ => return true
  | .error _ =>
    match ← (perform (.dedupeExists entry.dedupeKey)).attempt with
    | .ok confirmed => return confirmed
    | .error _ => return false

def recordGrantEvent (movement : Movement) (owner grant : Id) (amount : Credits) (key : DedupeKey)
    (postings : List BillingPosting) : Code Bool := do
  match ← (perform (.dedupeExists key)).attempt with
  | .ok true => return true
  | .error _ => return false
  | .ok false =>
    if amount = .zero then return true
    else appendAndConfirmDedupe {
      seq := 0
      movement := movement
      ownerId := owner
      referenceId := grant
      dedupeKey := key
      postings := postings }

def recordGrantIssued (id : Id) (grant : CreditGrant) : Code Bool :=
  recordGrantEvent .grantIssued grant.recipientUserId id grant.amount (.grantIssued id)
    (transfer (.grant id) .platformPromotions grant.amount)

def recordGrantConsumed (id : Id) (grant : CreditGrant) (lock : CreditGrantSettlementLock) :
    Code Bool :=
  recordGrantEvent .grantConsumed grant.recipientUserId id lock.consume
    (.grantConsumed id lock.operationId)
    (transfer (.usage lock.usageRowId) (.grant id) lock.consume)

def recordGrantExpired (id : Id) (grant : CreditGrant) (amount : Credits) : Code Bool :=
  recordGrantEvent .grantExpired grant.recipientUserId id amount (.grantExpired id)
    (transfer .writeoffGrantExpired (.grant id) amount)

def recordGrantRevoked (id : Id) (grant : CreditGrant) (amount : Credits) : Code Bool :=
  recordGrantEvent .grantRevoked grant.recipientUserId id amount (.grantRevoked id)
    (transfer .writeoffGrantRevoked (.grant id) amount)

/-- A revocation takes effect once nothing is held on the grant any more. -/
def finalizeReclaim (id : Id) : Code Unit := do
  match ← perform (.updateGrant id .finalizeReclaim) with
  | none => return
  | some grant =>
    let amount ← checked (decodeCredits (max grant.remaining 0))
    if ← recordGrantRevoked id grant amount then
      let _ ← perform (.updateGrant id .markTerminalLedgered)
    return

def completeAllowanceLock (id allowanceId : Id) (lock : AllowanceSettlementLock) :
    Code Unit := do
  if ¬ lock.applied then
    let _ ← perform (.updatePeriod id (.applySettlement lock))
  let _ ← perform (.updateRow lock.usageRowId (.recordAllowance {
    operationId := lock.operationId
    allowanceId := allowanceId
    periodId := id
    quantity := lock.consumeQuantity }))
  let _ ← perform (.updatePeriod id (.clearSettlement lock.operationId))

/-- The entry of a consumption must be durable before its lock is cleared. -/
def journalGrantConsumption (id : Id) (lock : CreditGrantSettlementLock) : Code Unit := do
  let grant ← perform (.findGrant id)
  let row ← perform (.findRow lock.usageRowId)
  match grant, row with
  | some grant, some _ =>
    if ← recordGrantConsumed id grant lock then return
    else Prog.fail (.internal "grant consumption ledger append is pending")
  | _, _ => Prog.fail (.internal "grant consumption ledger context is missing")

def completeGrantLock (id : Id) (lock : CreditGrantSettlementLock) : Code Unit := do
  if ¬ lock.applied then
    let _ ← perform (.updateGrant id (.applySettlement lock))
  let _ ← perform (.updateRow lock.usageRowId (.recordGrant {
    operationId := lock.operationId
    grantId := id
    serviceLimitKey := lock.serviceLimitKey
    amount := lock.consume }))
  if 0 < lock.consume.pico then
    journalGrantConsumption id lock
  let _ ← perform (.updateGrant id (.clearSettlement lock.operationId))
  finalizeReclaim id

def finishAllowanceOperationIfLocked (id : Id) (operationId : OperationId) : Code Unit := do
  match ← perform (.findPeriod id) with
  | none => return
  | some period =>
    match period.activeSettlement with
    | none => return
    | some lock =>
      if lock.operationId = operationId then completeAllowanceLock id period.allowanceId lock
      else return

def finishGrantOperationIfLocked (id : Id) (operationId : OperationId) : Code Unit := do
  match ← perform (.findGrant id) with
  | none => return
  | some grant =>
    match grant.activeSettlement with
    | none => return
    | some lock =>
      if lock.operationId = operationId then completeGrantLock id lock
      else return

/-- What one row asks of an allowance period. -/
structure AllowanceRequest where
  rowId : Id
  claim : Option ClaimId
  allowanceId : Id
  periodId : Id
  operationId : OperationId
  reservedQuantity : ℤ
  consumeQuantity : ℤ
  honorReservation : Bool

def AllowanceRequest.lock (r : AllowanceRequest) (consume : ℤ) : AllowanceSettlementLock where
  operationId := r.operationId
  usageRowId := r.rowId
  reservedQuantity := r.reservedQuantity
  consumeQuantity := consume
  applied := false

/-- Completes the lock that stands in the way: the request's own, or another's. -/
def helpAllowance (r : AllowanceRequest) (period : UsageAllowancePeriod)
    (active : AllowanceSettlementLock) (retry : Code Bool) : Code Bool := do
  completeAllowanceLock r.periodId period.allowanceId active
  if active.operationId = r.operationId then return true
  else retry

def settleAllowanceResource (r : AllowanceRequest) : ℕ → Code Bool
  | 0 => Prog.fail (.internal "usage allowance settlement lock busy")
  | n + 1 => do
    match ← perform (.findPeriod r.periodId) with
    | none => return false
    | some period =>
      match period.activeSettlement with
      | some active => helpAllowance r period active (settleAllowanceResource r n)
      | none =>
        let now ← perform .now
        let consume := if r.honorReservation then r.consumeQuantity
          else min r.consumeQuantity (availablePeriodQuantity period)
        if ¬ r.honorReservation ∧ (period.periodEnd.any (· ≤ now) ∨ consume ≤ 0) then
          return false
        else
          let (recorded, acquired) ← commit (.lockAllowance r.rowId r.claim
            (r.operationId.kind = .allowanceRelease) r.periodId (r.lock consume)
            r.honorReservation)
          if recorded then
            finishAllowanceOperationIfLocked r.periodId r.operationId
            return true
          else if acquired then
            completeAllowanceLock r.periodId r.allowanceId (r.lock consume)
            return true
          else match ← perform (.findPeriod r.periodId) with
            | none => return false
            | some period =>
              match period.activeSettlement with
              | none => settleAllowanceResource r n
              | some active => helpAllowance r period active (settleAllowanceResource r n)

/-- What one row asks of a credit grant. -/
structure GrantRequest where
  rowId : Id
  claim : Option ClaimId
  serviceId : Option Id
  serviceSlug : Option Id
  grantId : Id
  operationId : OperationId
  reserved : Credits
  consume : Credits
  serviceLimitKey : Option Id
  honorReservation : Bool

def GrantRequest.lock (r : GrantRequest) (consume : Credits) : CreditGrantSettlementLock where
  operationId := r.operationId
  serviceLimitKey := r.serviceLimitKey
  usageRowId := r.rowId
  reserved := r.reserved
  consume := consume
  applied := false

def helpGrant (r : GrantRequest) (active : CreditGrantSettlementLock) (retry : Code Bool) :
    Code Bool := do
  completeGrantLock r.grantId active
  if active.operationId = r.operationId then return true
  else retry

/-- The rule that the request names must be there, and may not be left out. -/
def GrantRequest.checkRule (r : GrantRequest) (grant : CreditGrant) : Except AppError Unit :=
  match r.serviceLimitKey with
  | some key =>
    if grant.serviceLimits.any (·.key = key) then .ok ()
    else .error (.internal "Reserved service limit is missing")
  | none =>
    if (grant.matchingRule r.serviceId r.serviceSlug).isSome then
      .error (.internal "Service limit identity missing from settlement")
    else .ok ()

/-- An extra consumption is cut to what the grant still offers the service. -/
def GrantRequest.consumeFrom (r : GrantRequest) (grant : CreditGrant) : Except AppError Credits :=
  if r.honorReservation then .ok r.consume
  else do return r.consume.min (← grant.availableForService r.serviceId r.serviceSlug)

def settleGrantResource (r : GrantRequest) : ℕ → Code Bool
  | 0 => Prog.fail (.internal "credit grant settlement lock busy")
  | n + 1 => do
    match ← perform (.findGrant r.grantId) with
    | none => return false
    | some grant =>
      match grant.activeSettlement with
      | some active => helpGrant r active (settleGrantResource r n)
      | none =>
        let now ← perform .now
        if grant.status ≠ .active then return false
        else if ¬ r.honorReservation ∧ (grant.revokeRequestedAt.isSome ∨
            grant.issuedLedgeredAt.isNone ∨ grant.expiresAt.any (· ≤ now)) then
          return false
        else
          let consume ← checked (r.consumeFrom grant)
          if ¬ r.honorReservation ∧ consume.pico ≤ 0 then return false
          else
            checked (r.checkRule grant)
            let (recorded, acquired) ← commit (.lockGrant r.rowId r.claim
              (r.operationId.kind = .grantRelease) r.grantId (r.lock consume)
              r.honorReservation)
            if recorded then
              finishGrantOperationIfLocked r.grantId r.operationId
              return true
            else if acquired then
              completeGrantLock r.grantId (r.lock consume)
              return true
            else match ← perform (.findGrant r.grantId) with
              | none => return false
              | some grant =>
                match grant.activeSettlement with
                | none => settleGrantResource r n
                | some active => helpGrant r active (settleGrantResource r n)

def completeAllowanceLocks : List (Id × UsageAllowancePeriod) → Code Unit
  | [] => return
  | (id, period) :: rest => do
    if let some lock := period.activeSettlement then
      completeAllowanceLock id period.allowanceId lock
    completeAllowanceLocks rest

def completeGrantLocks : List (Id × CreditGrant) → Code Unit
  | [] => return
  | (id, grant) :: rest => do
    if let some lock := grant.activeSettlement then completeGrantLock id lock
    completeGrantLocks rest

/-- Completes the locks that name a row; without a row, every lock. -/
def finishResourceLocks (row : Option Id) : Code Unit := do
  completeAllowanceLocks (← perform (.lockedPeriods row))
  completeGrantLocks (← perform (.lockedGrants row))

end NyxId.Billing
