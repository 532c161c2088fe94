import NyxId.Billing.Settlement
import NyxId.Billing.Grants
import NyxId.Billing.TopupExpiry

/-!
The entry points of the billing services, each the code of one worker, and the
machine that runs any number of them. A sweep over documents is one worker for
each document that it visits.
-/

namespace NyxId.Billing

open Interleave

/-- The fresh rate of a component; a free one has no charge at the provider. -/
def componentRate (spec : MeterSpec) : Code BillingRateCache := do
  if spec.explicitFree then return ⟨0, some 0⟩
  else match ← perform (.findRate spec.lagoMetricCode) with
    | some rate => return rate
    | none => Prog.fail (.billingNotConfigured "billing rate cache is missing for metric")

def estimateLayer (layer : BillingLayer) (spec : MeterSpec) : Code LayerReservation := do
  let rate ← componentRate spec
  let pico := ratePico rate.creditsPerUnitPico rate.creditsPerUnitMicros
  let reserved ← checked (creditsOrError (cost pico spec.estimatedQuantity))
  return {
    layer := layer
    metric := spec.metric
    lagoMetricCode := spec.lagoMetricCode
    estimatedQuantity := spec.estimatedQuantity
    creditsPerUnitMicros := rate.creditsPerUnitMicros
    creditsPerUnitPico := rate.creditsPerUnitPico
    reservedCredits := reserved
    allowanceReservations := []
    grantReservations := []
    appliedTax := none }

def estimateLayers : List (BillingLayer × MeterSpec) → Code (List LayerReservation)
  | [] => return []
  | (layer, spec) :: rest => do
    let first ← estimateLayer layer spec
    return first :: (← estimateLayers rest)

/-- The billable components of a request. -/
def BillingRouteContext.billable (ctx : BillingRouteContext) : List (BillingLayer × MeterSpec) :=
  (if ctx.platformBillable then ctx.platformSpecs.map fun s => (.platform, s) else []) ++
    ctx.resale.toList.map fun s => (.resale, s)

/-- The periods that each layer may reserve from, the earliest to end first. -/
def allowanceCandidates (ctx : BillingRouteContext) (now : Time) :
    List LayerReservation → Code (List (List (Id × Id × UsageAllowancePeriod)))
  | [] => return []
  | layer :: rest => do
    let periods ←
      if layer.layer = .platform ∧ ¬ (ctx.modelTariff ∧ layer.rate = 0) then do
        let definitions ← perform (.applicableAllowances ctx.billingOwnerId ctx.catalogServiceId
          ctx.serviceSlug layer.metric)
        currentPeriods ctx.billingOwnerId now definitions
      else pure []
    return byPeriodEnd periods :: (← allowanceCandidates ctx now rest)

def helpCandidates : List (Id × Id × UsageAllowancePeriod) → Code Unit
  | [] => return
  | (_, id, period) :: rest => do
    if 0 < availablePeriodQuantity period then
      if let some lock := period.activeSettlement then
        completeAllowanceLock id period.allowanceId lock
    helpCandidates rest

def helpGrantCandidates (ctx : BillingRouteContext) : List (Id × CreditGrant) → Code Unit
  | [] => return
  | (id, grant) :: rest => do
    let available ← checked (grant.availableForService ctx.catalogServiceId ctx.serviceSlug)
    if 0 < available.pico then
      if let some lock := grant.activeSettlement then completeGrantLock id lock
    helpGrantCandidates ctx rest

/-- After a refused admission: another attempt may own the holds already. -/
def refusedAdmission (ctx : BillingRouteContext) (walletId : Id) (e : AppError) :
    Code BillingReservation := do
  if ← commit (.completeFundedMeter ctx) then return ⟨ctx.billingOwnerId, walletId, .zero, []⟩
  else
    if e = .walletSuspended then
      let _ ← perform (.updateWallet ctx.billingOwnerId none .suspend)
    Prog.fail e

def reserveAndOpenDurableOnce (ctx : BillingRouteContext) (walletId : Id)
    (subscription : Option Id) (layers : List LayerReservation) : Code BillingReservation := do
  let now ← perform .now
  let candidates ← allowanceCandidates ctx now layers
  let grants ← perform (.activeGrants ctx.billingOwnerId now)
  let grants := eligibleGrants ctx.catalogServiceId ctx.serviceSlug grants
  helpCandidates candidates.flatten
  helpGrantCandidates ctx grants
  let layers := layers.zip (candidates.map fun periods => periods.map fun p => p.2.1)
  match ← (commit (.reserve ctx walletId subscription layers (grants.map (·.1)))).attempt with
  | .ok reservation => return reservation
  | .error e => refusedAdmission ctx walletId e

def reserveAndOpenDurable (ctx : BillingRouteContext) (walletId : Id)
    (subscription : Option Id) (layers : List LayerReservation) : ℕ → Code BillingReservation
  | 0 => Prog.fail (.conflict "Billing settlement is busy; retry")
  | n + 1 => do
    match ← (reserveAndOpenDurableOnce ctx walletId subscription layers).attempt with
    | .ok reservation => return reservation
    | .error e =>
      if e = walletAdmissionBusy then
        finishWalletSettlement ctx.billingOwnerId walletId
        reserveAndOpenDurable ctx walletId subscription layers n
      else if e = benefitAdmissionBusy then
        reserveAndOpenDurable ctx walletId subscription layers n
      else Prog.fail e

/-- Admission of one metered request. -/
def admitRequest (ctx : BillingRouteContext) (walletId : Id) : Code Unit := do
  match ← perform (.findWallet ctx.billingOwnerId walletId) with
  | none => Prog.fail (.billingNotConfigured "billing wallet is not provisioned")
  | some wallet =>
    let layers ← estimateLayers ctx.billable
    let _ ← reserveAndOpenDurable ctx walletId wallet.lagoSubscriptionId layers resourceLockRetries

/-- Settlement of a row as some earlier read found it. -/
def settlePersisted (id : Id) : Code Unit := do
  match (← perform (.findRow id)).filter fun (row : UsageMeterRow) => row.quantity ≠ none with
  | some row => settleOrRecordFailure id row
  | none => return

/-- The measured quantity is written once; whoever writes it settles the row. -/
def finalizeAndSettle (id : Id) (quantity : ℤ) (finalizedAt : Time) : Code Unit := do
  match ← perform (.updateRow id (.finalize quantity finalizedAt)) with
  | some (_, row) => settleOrRecordFailure id row
  | none => settlePersisted id

/-- Settlement of a finalized runtime window; the retry sweep counts its failures. -/
def settleInterval (id : Id) : Code Unit := do
  match (← perform (.findRow id)).filter fun (row : UsageMeterRow) =>
      row.quantity ≠ none ∧ ¬ row.released with
  | some row =>
    let _ ← claimReleasedAndSettle id row
  | none => return

def releaseUnforwarded (id : Id) (status : UsageStatus) : Code Unit := do
  match ← perform (.findRow id) with
  | some row => releaseOneUnforwardedRow id row status
  | none => return

def releaseMeters : List Id → Code Unit
  | [] => return
  | id :: rest => do
    match ← perform (.findRow id) with
    | some row => releaseUsageReservations id row
    | none => pure ()
    releaseMeters rest

def releasePoolRows : List (Id × UsageMeterRow) → Code Unit
  | [] => return
  | (id, _) :: rest => do
    match (← perform (.findRow id)).filter fun (row : UsageMeterRow) =>
        row.released ∧ row.quantity = none with
    | some row => releaseUsageReservations id row
    | none => pure ()
    releasePoolRows rest

/-- The end of a pool attempt whose quantity was never established. -/
def finishPoolAttempt (request : Id) (expiredAt : Option Time) : Code Unit := do
  let rows ← perform (.poolRows request)
  let _ ← commit (.releaseUnknown request expiredAt)
  releasePoolRows rows

def cancelManagedExecution (execution : Id) (provenUnsent : Bool) (rows : List Id) :
    Code Unit := do
  commit (.cancelManaged execution provenUnsent rows)
  releaseMeters rows

def updateAllowance (id : Id) (allowance : UsageAllowance) : Code Unit := do
  checked (validateQuantity allowance.quantity)
  perform (.setAllowance id allowance)

/-- The periods of an owner are brought up to date whenever they are listed. -/
def listCurrentPeriods (owner : Id) (serviceId serviceSlug : Option Id)
    (metric : BillingMetric) : Code Unit := do
  let now ← perform .now
  let definitions ← perform (.applicableAllowances owner serviceId serviceSlug metric)
  let _ ← currentPeriods owner now definitions

/-- The provider's answer to the usage event of a settled row. -/
def pushUsageEvent (id : Id) (accepted : Bool) : Code Unit := do
  match (← perform (.findRow id)).filter fun (row : UsageMeterRow) =>
      row.status = .finalized ∧ row.released ∧ ¬ row.lagoAcked ∧ row.walletId.isSome ∧
        row.quantity ≠ none with
  | none => return
  | some _ =>
    let _ ← perform (.updateRow id (if accepted then .ackLago else .markDeadLetter))

inductive Entry where
  | admitRequest (ctx : BillingRouteContext) (walletId : Id)
  | reserveWindow (window : RuntimeWindow)
  | markForwarded (id : Id)
  | rejectBeforeSend (id : Id)
  | settle (id : Id) (quantity : ℤ) (finalizedAt : Time)
  | settlePersisted (id : Id)
  | finalizeInterval (id : Id) (quantity : ℤ)
  | settleInterval (id : Id)
  | recoverRetryable (id : Id)
  | finishWallet (owner walletId : Id)
  | fail (id : Id)
  | abandonStale (id : Id)
  | recoverTerminalRelease (id : Id)
  | recoverResourceLocks
  | finishPoolAttempt (request : Id) (expiredAt : Option Time)
  | cancelManaged (execution : Id) (provenUnsent : Bool) (rows : List Id)
  | setRate (lagoMetricCode : Id) (rate : BillingRateCache)
  | updateAllowance (id : Id) (allowance : UsageAllowance)
  | listCurrentPeriods (owner : Id) (serviceId serviceSlug : Option Id) (metric : BillingMetric)
  | issueGrant (id : Id) (input : IssueCreditGrant)
  | revokeGrant (id : Id)
  | requestRevokeGrant (id : Id)
  | finalizeReclaim (id : Id)
  | expireGrant (id : Id)
  | recoverUnledgered (id : Id)
  | refreshBalance (owner walletId : Id) (balance : Credits)
  | expirePurchased (owner walletId : Id) (balance : Credits) (expiring : ExpiringPurchases)
  | pushUsageEvent (id : Id) (accepted : Bool)

def code (provider : Provider) : Entry → Code Unit
  | .admitRequest ctx walletId => admitRequest ctx walletId
  | .reserveWindow window => do
    let _ ← commit (.reserveWindow window)
  | .markForwarded id => do
    let _ ← perform (.updateRow id .markForwarded)
  | .rejectBeforeSend id => do
    let _ ← perform (.updateRow id .rejectBeforeSend)
    releaseUnforwarded id .failed
  | .settle id quantity finalizedAt => finalizeAndSettle id quantity finalizedAt
  | .settlePersisted id => settlePersisted id
  | .finalizeInterval id quantity => do
    let _ ← perform (.updateRow id (.finalizeInterval quantity))
    settleInterval id
  | .settleInterval id => settleInterval id
  | .recoverRetryable id => recoverRetryableSettlement id
  | .finishWallet owner walletId => finishWalletSettlement owner walletId
  | .fail id => releaseUnforwarded id .failed
  | .abandonStale id => releaseUnforwarded id .abandoned
  | .recoverTerminalRelease id => recoverTerminalRelease id
  | .recoverResourceLocks => finishResourceLocks none
  | .finishPoolAttempt request expiredAt => finishPoolAttempt request expiredAt
  | .cancelManaged execution provenUnsent rows =>
    cancelManagedExecution execution provenUnsent rows
  | .setRate lagoMetricCode rate => perform (.setRate lagoMetricCode rate)
  | .updateAllowance id allowance => updateAllowance id allowance
  | .listCurrentPeriods owner serviceId serviceSlug metric =>
    listCurrentPeriods owner serviceId serviceSlug metric
  | .issueGrant id input => issueGrant id input
  | .revokeGrant id => revokeGrantImmediate id
  | .requestRevokeGrant id => requestRevokeGrant id
  | .finalizeReclaim id => finalizeReclaim id
  | .expireGrant id => expireDueGrant id
  | .recoverUnledgered id => recoverUnledgeredEvents id
  | .refreshBalance owner walletId balance => refreshWalletBalance owner walletId balance
  | .expirePurchased owner walletId balance expiring =>
    expirePurchasedCredits provider owner walletId balance expiring
  | .pushUsageEvent id accepted => pushUsageEvent id accepted

/-- The billing services of one deployment, with any number of workers. -/
def machine (digest : LagoCarry.Digest) (provider : Provider) : Machine where
  Op := Op
  Err := AppError
  Store := Store
  Env := Env
  Entry := Entry
  exec := fun w env o s => exec digest w env o s
  dropped := .database
  code := fun _ e => code provider e

end NyxId.Billing
