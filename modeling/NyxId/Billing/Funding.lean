import NyxId.Billing.Resources

/-!
Settlement of a row's funding: a worker claims the row, freezes its rate, settles
the benefits that the row reserved and then further ones, and commits the split.
An attempt that stops anywhere is resumed from what the row has recorded.
-/

namespace NyxId.Billing

open Interleave

def runtimeInvalid : AppError := .billingProviderUnavailable
  "Machine settlement requires finalized, frozen and fully reserved usage"

def reservedQuantity (reservations : List AllowanceReservationAllocation) : Except AppError ℤ :=
  reservations.foldlM (fun (total : ℤ) (r : AllowanceReservationAllocation) =>
    if r.quantity < 0 then .error runtimeInvalid
    else match checkedI64 (total + r.quantity) with
      | some sum => .ok sum
      | none => .error runtimeInvalid) (0 : ℤ)

def addReservations (capacity : Credits) (reservations : List GrantReservationAllocation) :
    Except AppError Credits :=
  reservations.foldlM (fun (total : Credits) r =>
    if r.amount.pico < 0 then .error runtimeInvalid
    else creditsOrError (total.checkedAdd r.amount)) capacity

/-- Capacity checks of a runtime window precede any funding mutation. -/
def validateRuntimeSettlement (row : UsageMeterRow) : Except AppError Unit :=
  if ¬ row.metric.isRuntimeAllocation then .ok ()
  else match row.fundingD.settlementRate.filter (fun (rate : Credits) => 0 < rate.pico),
      row.quantity.filter (0 ≤ ·) with
    | some rate, some quantity =>
      if row.walletId.isNone ∨ ¬ (row.status = .finalized ∨ row.status = .failed) ∨
          row.layer ≠ .platform ∨ row.fundingD.walletOnly ∨ row.reservedCredits.pico < 0 then
        .error runtimeInvalid
      else do
        let allowances ← reservedQuantity row.fundingD.allowanceReservations
        let capacity ← creditsOrError (rate.checkedMul allowances)
        let capacity ← creditsOrError (capacity.checkedAdd row.reservedCredits)
        let capacity ← addReservations capacity row.fundingD.grantReservations
        let cost ← creditsOrError (rate.checkedMul quantity)
        if capacity.pico < cost.pico then .error runtimeInvalid else return
    | _, _ => .error runtimeInvalid

/-- The current rate of the row's metric, or the one its reservation found. -/
def settlementRatePico (row : UsageMeterRow) : Code ℤ := do
  match ← perform (.findRate row.lagoMetricCode) with
  | some rate => return ratePico rate.creditsPerUnitPico rate.creditsPerUnitMicros
  | none =>
    return (row.funding.map fun (f : UsageFunding) =>
      ratePico f.creditsPerUnitPico f.creditsPerUnitMicros).getD 0

/-- Legacy rows retain wallet-only semantics across retries. -/
def openLegacyFunding (id : Id) (row : UsageMeterRow) : Code Unit :=
  if row.funding.isSome then return
  else if 0 < row.reservedCredits.pico then do
    match ← perform (.findRate row.lagoMetricCode) with
    | some _ =>
      let _ ← perform (.updateRow id (.initFunding row.reservedCredits))
    | none => Prog.fail (.billingNotConfigured
        "legacy settlement rate unavailable; retaining its hold for recovery")
  else do
    let _ ← perform (.updateRow id (.initFunding row.reservedCredits))

def rowDisappeared : AppError := .internal "usage funding row disappeared"

/-- The row as it stands, if it is still under the same claim. -/
def refreshClaimed (id : Id) (claim : Option ClaimId) : Code UsageMeterRow := do
  match (← perform (.findRow id)).filter fun (row : UsageMeterRow) =>
      row.claim = claim ∧ ¬ row.settled ∧ ¬ row.released with
  | some row => return row
  | none => Prog.fail rowDisappeared

/-- Another attempt holds the claim; it may have settled the row by now. -/
def settledMeanwhile (id : Id) : Code FundingSettlement := do
  match ← perform (.findRow id) with
  | none => Prog.fail rowDisappeared
  | some current =>
    if current.settled then return settlementFromFunding current.fundingD
    else Prog.fail (.internal "usage funding settlement is busy")

/-- The rate that every attempt on the row uses once one attempt has frozen it. -/
def frozenRate (id : Id) (claimed : UsageMeterRow) : Code Credits := do
  match claimed.fundingD.settlementRate with
  | some rate => return rate
  | none =>
    let rate ← settlementRatePico claimed
    let rate ← checked (decodeCredits rate)
    if ← perform (.freezeRate id rate) then return rate
    else Prog.fail (.internal "funding rate freeze lost its settlement claim")

def allowanceConsumed (row : UsageMeterRow) : Except AppError ℤ :=
  row.fundingD.allowanceConsumptions.foldlM
    (fun (total : ℤ) (a : AllowanceConsumptionAllocation) =>
      match checkedI64 (total + a.quantity) with
      | some sum => .ok sum
      | none => .error (.internal "Allowance consumption overflow")) (0 : ℤ)

def grantConsumed (row : UsageMeterRow) : Except AppError Credits :=
  creditsOrError (Credits.checkedSum (row.fundingD.grantConsumptions.map (·.amount)))

/-- The row under settlement with the part of it that benefits cover so far. -/
structure Covered (α : Type) where
  row : UsageMeterRow
  covered : α

def allowanceRequest (id : Id) (claimed : UsageMeterRow) (kind : OperationKind)
    (allowanceId periodId : Id) (reserved consume : ℤ) (honor : Bool) : AllowanceRequest where
  rowId := id
  claim := claimed.claim
  allowanceId := allowanceId
  periodId := periodId
  operationId := ⟨id, kind, periodId⟩
  reservedQuantity := reserved
  consumeQuantity := consume
  honorReservation := honor

def grantRequest (id : Id) (row : UsageMeterRow) (kind : OperationKind) (grantId : Id)
    (key : Option Id) (reserved consume : Credits) (honor : Bool) : GrantRequest where
  rowId := id
  claim := row.claim
  serviceId := row.serviceId
  serviceSlug := row.serviceSlug
  grantId := grantId
  operationId := ⟨id, kind, grantId⟩
  reserved := reserved
  consume := consume
  serviceLimitKey := key
  honorReservation := honor

/-- The row and its coverage once a settled allowance has been recorded. -/
def coverAllowances (id : Id) (claimed : UsageMeterRow) (quantity : ℤ) : Code (Covered ℤ) := do
  let row ← refreshClaimed id claimed.claim
  let consumed ← checked (allowanceConsumed row)
  return ⟨row, min consumed quantity⟩

def settleReservedAllowances (id : Id) (quantity : ℤ) :
    List AllowanceReservationAllocation → Covered ℤ → Code (Covered ℤ)
  | [], state => return state
  | r :: rest, state => do
    let request := allowanceRequest id state.row .allowance r.allowanceId r.periodId
      (max r.quantity 0) (min (max r.quantity 0) (quantity - state.covered)) true
    if hasAllowanceOperation state.row request.operationId then
      finishAllowanceOperationIfLocked r.periodId request.operationId
      settleReservedAllowances id quantity rest state
    else if ← settleAllowanceResource request resourceLockRetries then
      settleReservedAllowances id quantity rest (← coverAllowances id state.row quantity)
    else if state.row.metric.isRuntimeAllocation then
      Prog.fail (.billingProviderUnavailable "Reserved Machine allowance requires reconciliation")
    else settleReservedAllowances id quantity rest state

/-- The owner's current periods of some allowances, created or brought up to date. -/
def currentPeriods (owner : Id) (now : Time) :
    List (Id × UsageAllowance) → Code (List (Id × Id × UsageAllowancePeriod))
  | [] => return []
  | (allowanceId, allowance) :: rest => do
    perform (.ensureCurrentPeriod allowanceId allowance owner now)
    let id := periodId allowanceId owner
      (allowanceWindow allowance.recurrence allowance.createdAt now).1
    match ← perform (.findPeriod id) with
    | none => Prog.fail (.internal "usage allowance period disappeared")
    | some period => return (allowanceId, id, period) :: (← currentPeriods owner now rest)

def byPeriodEnd (periods : List (Id × Id × UsageAllowancePeriod)) :
    List (Id × Id × UsageAllowancePeriod) :=
  periods.insertionSort fun p q => (expiryOrder p.2.2.periodEnd q.2.2.periodEnd).isLE = true

def settleExtraAllowances (id : Id) (quantity : ℤ) :
    List (Id × Id × UsageAllowancePeriod) → Covered ℤ → Code (Covered ℤ)
  | [], state => return state
  | (allowanceId, periodId, period) :: rest, state =>
    if quantity ≤ state.covered then return state
    else do
      let consume := min (availablePeriodQuantity period) (quantity - state.covered)
      let request := allowanceRequest id state.row .allowanceExtra allowanceId periodId 0
        consume false
      if hasAllowanceOperation state.row request.operationId then
        finishAllowanceOperationIfLocked periodId request.operationId
        settleExtraAllowances id quantity rest state
      else if consume ≤ 0 then settleExtraAllowances id quantity rest state
      else if ← settleAllowanceResource request resourceLockRetries then
        settleExtraAllowances id quantity rest (← coverAllowances id state.row quantity)
      else settleExtraAllowances id quantity rest state

/-- Any applicable allowance may cover what the reserved ones did not. -/
def settleApplicableAllowances (id : Id) (quantity : ℤ) (state : Covered ℤ) :
    Code (Covered ℤ) :=
  let row := state.row
  if row.metric.isRuntimeAllocation ∨ row.fundingD.walletOnly ∨ row.layer ≠ .platform ∨
      quantity ≤ state.covered then
    return state
  else do
    let definitions ← perform (.applicableAllowances row.billingOwnerId row.serviceId
      row.serviceSlug row.metric)
    let now ← perform .now
    let periods ← currentPeriods row.billingOwnerId now definitions
    settleExtraAllowances id quantity (byPeriodEnd periods) state

def coverGrants (id : Id) (claimed : UsageMeterRow) (charge : Credits) :
    Code (Covered Credits) := do
  let row ← refreshClaimed id claimed.claim
  let consumed ← checked (grantConsumed row)
  return ⟨row, consumed.min charge⟩

def settleReservedGrants (id : Id) (charge : Credits) :
    List GrantReservationAllocation → Covered Credits → Code (Covered Credits)
  | [], state => return state
  | r :: rest, state => do
    if hasGrantOperation state.row ⟨id, .grant, r.grantId⟩ then
      finishGrantOperationIfLocked r.grantId ⟨id, .grant, r.grantId⟩
      settleReservedGrants id charge rest state
    else
      let left ← checked (creditsOrError (charge.checkedSub state.covered))
      let request := grantRequest id state.row .grant r.grantId r.serviceLimitKey
        (r.amount.max .zero) ((r.amount.max .zero).min left) true
      if ← settleGrantResource request resourceLockRetries then
        settleReservedGrants id charge rest (← coverGrants id state.row charge)
      else if state.row.metric.isRuntimeAllocation then
        Prog.fail (.billingProviderUnavailable "Reserved Machine grant requires reconciliation")
      else settleReservedGrants id charge rest state

def settleExtraGrants (id : Id) (charge : Credits) :
    List (Id × CreditGrant) → Covered Credits → Code (Covered Credits)
  | [], state => return state
  | (grantId, grant) :: rest, state =>
    if charge.pico ≤ state.covered.pico then return state
    else if hasGrantOperation state.row ⟨id, .grantExtra, grantId⟩ then do
      finishGrantOperationIfLocked grantId ⟨id, .grantExtra, grantId⟩
      settleExtraGrants id charge rest state
    else do
      let available ← checked (grant.availableForService state.row.serviceId state.row.serviceSlug)
      let left ← checked (creditsOrError (charge.checkedSub state.covered))
      let request := grantRequest id state.row .grantExtra grantId
        (grant.ruleKey state.row.serviceId state.row.serviceSlug) .zero (available.min left) false
      if request.consume.pico ≤ 0 then settleExtraGrants id charge rest state
      else if ← settleGrantResource request resourceLockRetries then
        settleExtraGrants id charge rest (← coverGrants id state.row charge)
      else settleExtraGrants id charge rest state

/-- Any active grant of the owner may cover what the reserved ones did not. -/
def settleActiveGrants (id : Id) (charge : Credits) (state : Covered Credits) :
    Code (Covered Credits) :=
  let row := state.row
  if row.metric.isRuntimeAllocation ∨ row.fundingD.walletOnly ∨
      charge.pico ≤ state.covered.pico then
    return state
  else do
    let now ← perform .now
    let grants ← perform (.activeGrants row.billingOwnerId now)
    settleExtraGrants id charge (eligibleGrants row.serviceId row.serviceSlug grants) state

def settlementTax (row : UsageMeterRow) (wallet : Credits) : Code (Option Credits) := do
  if wallet = .zero ∨ ¬ row.fundingD.taxAccounting then return none
  else match row.fundingD.appliedTax with
    | some rate => return some rate
    | none =>
      match ← perform .taxRate with
      | some rate => return some rate
      | none => Prog.fail (.billingNotConfigured
          "Fresh Lago tax configuration is required for wallet funding")

def taxOf (wallet : Credits) : Option Credits → Except AppError Credits
  | some rate => taxHalfUp wallet rate
  | none => .ok .zero

/-- What benefits leave of the cost is charged to the wallet, with tax, and committed. -/
def commitFunding (id : Id) (rate : Credits) (allowance total charge : Credits) (covered : ℤ)
    (state : Covered Credits) : Code FundingSettlement := do
  let wallet ← checked (creditsOrError (charge.checkedSub state.covered))
  let applied ← settlementTax state.row wallet
  let tax ← checked (taxOf wallet applied)
  let walletCharge ← checked (creditsOrError (wallet.checkedAdd tax))
  if state.row.metric.isRuntimeAllocation ∧
      state.row.reservedCredits.pico < walletCharge.pico then
    Prog.fail (.billingProviderUnavailable "Machine settlement exceeds its funded wallet window")
  else
    (LagoCarry.commitSettlement id state.row wallet rate {
      totalCharge := total
      allowanceFundedQuantity := covered
      allowanceFunded := allowance
      grantFunded := state.covered
      walletFunded := wallet
      walletChargeCredits := walletCharge
      walletTaxCredits := tax }).mapOp Op.ofCarry

/-- Grants first, then the wallet, for the charge that allowances leave. -/
def settleCharge (id : Id) (rate : Credits) (quantity : ℤ) (state : Covered ℤ) :
    Code FundingSettlement := do
  let total ← checked (creditsOrError (cost rate.pico quantity))
  let allowance ← checked (creditsOrError (cost rate.pico state.covered))
  let charge ← checked (creditsOrError (total.checkedSub allowance))
  let consumed ← checked (creditsOrError
    (Credits.checkedSum (state.row.fundingD.grantConsumptions.map (·.amount.max .zero))))
  let grants ← settleReservedGrants id charge state.row.fundingD.grantReservations
    ⟨state.row, consumed.min charge⟩
  let grants ← settleActiveGrants id charge grants
  commitFunding id rate allowance total charge state.covered grants

/-- One attempt under a fresh claim, resumed from what the row has recorded. -/
def settleClaimed (id : Id) (claim : Option ClaimId) : Code FundingSettlement := do
  finishResourceLocks (some id)
  let claimed ← refreshClaimed id claim
  checked (validateRuntimeSettlement claimed)
  let quantity := max (claimed.quantity.getD 0) 0
  let rate ← frozenRate id claimed
  let covered := min ((claimed.fundingD.allowanceConsumptions.map (max ·.quantity 0)).sum) quantity
  let state ← settleReservedAllowances id quantity claimed.fundingD.allowanceReservations
    ⟨claimed, covered⟩
  let state ← settleApplicableAllowances id quantity state
  settleCharge id rate quantity state

def settleUsageFunding (id : Id) (row : UsageMeterRow) : Code FundingSettlement := do
  checked (validateRuntimeSettlement row)
  if row.settled then return settlementFromFunding row.fundingD
  else if row.walletId.isNone then return ⟨.zero, 0⟩
  else
    openLegacyFunding id row
    match ← perform (.claimFunding id) with
    | none => settledMeanwhile id
    | some claimed => settleClaimed id claimed.claim

def releaseAllowances (id : Id) (row : UsageMeterRow) :
    List AllowanceReservationAllocation → Code Unit
  | [] => return
  | r :: rest => do
    let request := allowanceRequest id row .allowanceRelease r.allowanceId r.periodId
      (max r.quantity 0) 0 true
    if hasAllowanceOperation row request.operationId then
      finishAllowanceOperationIfLocked r.periodId request.operationId
    else
      let _ ← settleAllowanceResource request resourceLockRetries
    releaseAllowances id row rest

def releaseGrants (id : Id) (row : UsageMeterRow) : List GrantReservationAllocation → Code Unit
  | [] => return
  | r :: rest => do
    let request := grantRequest id row .grantRelease r.grantId r.serviceLimitKey
      (r.amount.max .zero) .zero true
    if hasGrantOperation row request.operationId then
      finishGrantOperationIfLocked r.grantId request.operationId
    else
      let _ ← settleGrantResource request resourceLockRetries
    releaseGrants id row rest

/-- Gives back every benefit that a terminal row still holds. -/
def releaseUsageReservations (id : Id) (row : UsageMeterRow) : Code Unit :=
  if row.metric.isRuntimeAllocation then
    Prog.fail (.billingProviderUnavailable
      "Machine liability requires evidence-backed settlement, including zero usage")
  else match row.funding with
    | none => return
    | some funding => do
      releaseAllowances id row funding.allowanceReservations
      releaseGrants id row funding.grantReservations
      let _ ← perform (.updateRow id .settleReleased)

/-- What the sweep over terminal rows does for one of them. -/
def recoverTerminalRelease (id : Id) : Code Unit := do
  match ← perform (.findRow id) with
  | none => return
  | some row =>
    if row.released ∧ (row.status = .failed ∨ row.status = .abandoned) ∧ row.funding.isSome ∧
        ¬ row.settled then
      releaseUsageReservations id row
    else return

end NyxId.Billing
