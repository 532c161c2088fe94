import NyxId.Billing.Updates

/-!
Admission: one transaction reserves allowances, grants and wallet funds for every
metered layer of a request and inserts the usage rows that own these holds.
-/

namespace NyxId.Billing

open Interleave

def benefitAdmissionBusy : AppError :=
  .conflict "Issued or included credit settlement is completing; retry"

def walletAdmissionBusy : AppError :=
  .conflict "Purchased credit settlement is completing; retry"

/-- One metered component of a request with its estimated quantity. -/
structure MeterSpec where
  metric : BillingMetric
  lagoMetricCode : Id
  estimatedQuantity : ℤ
  explicitFree : Bool
  deriving DecidableEq

structure BillingRouteContext where
  billingRequestId : Id
  billingOwnerId : Id
  catalogServiceId : Option Id
  serviceSlug : Option Id
  modelTariff : Bool
  platformMetered : Bool
  platformBillable : Bool
  platformSpecs : List MeterSpec
  resale : Option MeterSpec
  poolLeaseUntil : Option Time
  managedExecution : Option Id
  /-- Platform billing is only switched on together with metering. -/
  metered_of_billable : platformBillable = true → platformMetered = true

structure LayerReservation where
  layer : BillingLayer
  metric : BillingMetric
  lagoMetricCode : Id
  estimatedQuantity : ℤ
  creditsPerUnitMicros : ℤ
  creditsPerUnitPico : Option ℤ
  reservedCredits : Credits
  allowanceReservations : List AllowanceReservationAllocation
  grantReservations : List GrantReservationAllocation
  appliedTax : Option Credits
  deriving DecidableEq

def LayerReservation.rate (layer : LayerReservation) : ℤ :=
  ratePico layer.creditsPerUnitPico layer.creditsPerUnitMicros

structure BillingReservation where
  ownerId : Id
  walletId : Id
  totalReservedCredits : Credits
  layers : List LayerReservation
  deriving DecidableEq

/-- Takes what is left of the wanted quantity from each candidate period in turn. -/
def reserveAllowances (now : Time) : List Id → ℤ → Store →
    Except AppError (List AllowanceReservationAllocation × ℤ × Store)
  | [], remaining, s => .ok ([], remaining, s)
  | id :: rest, remaining, s =>
    if remaining = 0 then .ok ([], remaining, s)
    else match s.periods.lookup id with
      | none => reserveAllowances now rest remaining s
      | some period =>
        let wanted := min remaining (availablePeriodQuantity period)
        if availablePeriodQuantity period ≤ 0 then reserveAllowances now rest remaining s
        else if period.activeSettlement.isSome then .error benefitAdmissionBusy
        else if period.periodEnd.any (· ≤ now) ∨ wanted ≤ 0 then
          reserveAllowances now rest remaining s
        else do
          let held := { period with reservedQuantity := period.reservedQuantity + wanted }
          let (allocations, left, t) ← reserveAllowances now rest (remaining - wanted)
            { s with periods := s.periods.insert id held }
          return (⟨period.allowanceId, id, wanted⟩ :: allocations, left, t)

/-- Where the sources of a hold differ between requests and runtime windows. -/
structure GrantPolicy where
  busy : AppError
  /-- The error for a grant that refuses its reservation, if it is not passed over. -/
  changed : Option AppError

/-- Takes what is left of the cost from each candidate grant in turn. -/
def reserveGrants (policy : GrantPolicy) (now : Time) (serviceId serviceSlug : Option Id) :
    List Id → Credits → Store →
      Except AppError (List GrantReservationAllocation × Credits × Store)
  | [], remaining, s => .ok ([], remaining, s)
  | id :: rest, remaining, s =>
    if remaining = .zero then .ok ([], remaining, s)
    else match s.grants.lookup id with
      | none => reserveGrants policy now serviceId serviceSlug rest remaining s
      | some grant => do
        let available ← grant.availableForService serviceId serviceSlug
        let wanted := remaining.min available
        let key := grant.ruleKey serviceId serviceSlug
        if available.pico ≤ 0 then
          reserveGrants policy now serviceId serviceSlug rest remaining s
        else if grant.activeSettlement.isSome then .error policy.busy
        else if grant.revokeRequestedAt.isSome ∨ wanted.pico ≤ 0 then
          reserveGrants policy now serviceId serviceSlug rest remaining s
        else if ¬ grant.reservable key wanted now then
          match policy.changed with
          | none => reserveGrants policy now serviceId serviceSlug rest remaining s
          | some e => .error e
        else do
          let left ← creditsOrError (remaining.checkedSub wanted)
          let (allocations, left, t) ← reserveGrants policy now serviceId serviceSlug rest left
            { s with grants := s.grants.insert id (grant.reserve key wanted) }
          return (⟨id, key, wanted⟩ :: allocations, left, t)

def requestGrants : GrantPolicy where
  busy := benefitAdmissionBusy
  changed := none

def windowGrants : GrantPolicy where
  busy := .conflict "Issued credit settlement is completing; retry"
  changed := some (.conflict "Machine grant changed during admission")

def reserveGross (taxRate : Option Credits) (base : Credits) :
    Except AppError (Credits × Option Credits) :=
  if base = .zero then .ok (base, none)
  else match taxRate with
    | none => .error (.billingNotConfigured
        "Fresh Lago tax configuration is required for wallet funding")
    | some rate => do return (← grossCeiling base rate, some rate)

/-- Benefits first; what they leave of the cost is held in the wallet, with tax. -/
def reserveLayer (env : Env) (serviceId serviceSlug : Option Id) (candidates grants : List Id)
    (layer : LayerReservation) (s : Store) : Except AppError (LayerReservation × Store) := do
  let (allowances, remaining, s) ←
    reserveAllowances env.now candidates (max layer.estimatedQuantity 0) s
  let remainingCost ← creditsOrError (cost layer.rate remaining)
  let (allocations, remainingCost, s) ←
    reserveGrants requestGrants env.now serviceId serviceSlug grants remainingCost s
  let (gross, tax) ← reserveGross env.taxRate remainingCost
  return ({ layer with
    allowanceReservations := layer.allowanceReservations ++ allowances
    grantReservations := layer.grantReservations ++ allocations
    reservedCredits := gross
    appliedTax := tax.or layer.appliedTax }, s)

def reserveLayers (env : Env) (serviceId serviceSlug : Option Id) (grants : List Id) :
    List (LayerReservation × List Id) → Store → Except AppError (List LayerReservation × Store)
  | [], s => .ok ([], s)
  | (layer, candidates) :: rest, s => do
    let (layer, s) ← reserveLayer env serviceId serviceSlug candidates grants layer s
    let (layers, s) ← reserveLayers env serviceId serviceSlug grants rest s
    return (layer :: layers, s)

/-- Holds the total in the wallet, unless a settlement is still on its way. -/
def holdWallet (env : Env) (owner : Id) (wallet : BillingWallet) (modelTariff : Bool)
    (total : Credits) (s : Store) : Except AppError Store :=
  if total.pico ≤ 0 then .ok s
  else if wallet.activeSettlement.isSome then .error walletAdmissionBusy
  else do
    let prepaid := wallet.planKind = .prepaid
    let overdraft := ¬ modelTariff ∧ ¬ prepaid ∧ wallet.hasPaymentInstrument
    let withOverdraft ← wallet.availableWithOverdraftCredits
    let available ← if overdraft then pure withOverdraft else wallet.availableCredits
    if ¬ prepaid ∧ withOverdraft.pico ≤ 0 then .error .walletSuspended
    else if available.pico < total.pico then
      .error (if overdraft then .walletSuspended else .insufficientCredits)
    else do
      let reserved ← decodeCredits wallet.reservedCredits
      let reserved ← creditsOrError (reserved.checkedAdd total)
      let held := { wallet with reservedCredits := reserved.pico, updatedAt := env.now }
      return { s with wallets := s.wallets.insert owner held }

def reservedRow (now : Time) (ctx : BillingRouteContext) (layer : BillingLayer)
    (metric : BillingMetric) (lagoMetricCode : Id) (reservation : BillingReservation) :
    UsageMeterRow :=
  let found := reservation.layers.find? fun item =>
    item.layer = layer ∧ item.lagoMetricCode = lagoMetricCode
  { billingRequestId := ctx.billingRequestId
    layer := layer
    billingOwnerId := ctx.billingOwnerId
    walletId := found.map fun _ => reservation.walletId
    metric := metric
    lagoMetricCode := lagoMetricCode
    reservedCredits := (found.map (·.reservedCredits)).getD .zero
    funding := found.map fun (item : LayerReservation) => {
      walletOnly := ctx.modelTariff && decide (item.rate = 0)
      creditsPerUnitMicros := item.creditsPerUnitMicros
      creditsPerUnitPico := item.creditsPerUnitPico
      settlementRate :=
        if ctx.modelTariff ∨ ctx.managedExecution.isSome then Credits.fromPico item.rate else none
      allowanceReservations := item.allowanceReservations
      grantReservations := item.grantReservations
      taxAccounting := true
      appliedTax := item.appliedTax }
    quantity := none
    status := .reserved
    forwarded := false
    released := false
    settlementAttempts := 0
    settlementNextRetryAt := none
    finalizedAt := none
    updatedAt := now
    serviceId := ctx.catalogServiceId
    serviceSlug := ctx.serviceSlug
    managedExecution := ctx.managedExecution
    poolLeaseUntil := ctx.poolLeaseUntil }

/-- The unique transaction identifier of a row: the request, the layer and, on the
platform layer, the component. -/
def transactionId (row : UsageMeterRow) : Id × BillingLayer × Option Id :=
  (row.billingRequestId, row.layer,
    if row.layer = .platform then some row.lagoMetricCode else none)

def insertRow (id : Id) (row : UsageMeterRow) (s : Store) : Except AppError Store :=
  if (s.rows.lookup id).isSome ∨
      s.rows.entries.any (fun e => transactionId e.2 = transactionId row) then
    .error .duplicateKey
  else .ok { s with rows := s.rows.insert id row }

def insertRows : List Id → List UsageMeterRow → Store → Except AppError Store
  | _, [], s => .ok s
  | [], _ :: _, _ => .error .duplicateKey
  | id :: ids, row :: rows, s => do insertRows ids rows (← insertRow id row s)

def BillingRouteContext.rows (ctx : BillingRouteContext) (now : Time)
    (reservation : BillingReservation) : List UsageMeterRow :=
  (if ctx.platformMetered then
    ctx.platformSpecs.map fun spec =>
      reservedRow now ctx .platform spec.metric spec.lagoMetricCode reservation
  else []) ++
    (ctx.resale.toList.map fun spec =>
      reservedRow now ctx .resale spec.metric spec.lagoMetricCode reservation)

/-- The body of the admission transaction. -/
def reserveTransaction (env : Env) (ctx : BillingRouteContext) (walletId : Id)
    (expectedSubscription : Option Id) (layers : List (LayerReservation × List Id))
    (grants : List Id) (s : Store) : Except AppError (BillingReservation × Store) :=
  if env.refused then .error (.conflict "Public funding authority changed")
  else if ctx.poolLeaseUntil.any (· ≤ env.now) then
    .error (.billingProviderUnavailable "Pool admission expired")
  else match s.wallet ctx.billingOwnerId walletId with
    | none => .error (.billingNotConfigured "Wallet no longer exists")
    | some wallet =>
      if wallet.suspended then .error .walletSuspended
      else if wallet.lagoSubscriptionId ≠ expectedSubscription then
        .error (.conflict "Billing subscription changed; retry")
      else do
        let (layers, s) ←
          reserveLayers env ctx.catalogServiceId ctx.serviceSlug grants layers s
        let total ← creditsOrError (Credits.checkedSum (layers.map (·.reservedCredits)))
        let s ← holdWallet env ctx.billingOwnerId wallet ctx.modelTariff total s
        let reservation := {
          ownerId := ctx.billingOwnerId
          walletId := walletId
          totalReservedCredits := total
          layers := layers }
        let s ← insertRows env.ids (ctx.rows env.now reservation) s
        return (reservation, s)

def runtimeRefused : AppError :=
  .billingProviderUnavailable "Machine wallet settlement requires reconciliation"

/-- What a runtime window asks for, bound at preparation. -/
structure RuntimeWindow where
  ownerId : Id
  walletId : Id
  intervalId : Id
  serviceId : Option Id
  serviceSlug : Id
  metric : BillingMetric
  lagoMetricCode : Id
  quantity : ℤ
  rate : Credits
  periods : List Id
  deriving DecidableEq

/-- The definition that still offers the period to the window, at its current quantity. -/
def RuntimeWindow.definition (window : RuntimeWindow) (now : Time) (s : Store) (id : Id)
    (period : UsageAllowancePeriod) : Option UsageAllowance :=
  (s.allowances.lookup period.allowanceId).filter fun definition =>
    definition.isActive ∧ definition.metric = window.metric ∧
      (definition.serviceSlug = window.serviceSlug ∨
        some definition.serviceId = window.serviceId) ∧
      definition.targets.all (window.ownerId ∈ ·) ∧
      periodId period.allowanceId window.ownerId
        (allowanceWindow definition.recurrence definition.createdAt now).1 = id ∧
      period.ownerUserId = window.ownerId ∧ period.periodStart ≤ now ∧
      period.periodEnd.all (now < ·)

def reserveWindowAllowances (now : Time) (window : RuntimeWindow) : List Id → ℤ → Store →
    Except AppError (List AllowanceReservationAllocation × ℤ × Store)
  | [], remaining, s => .ok ([], remaining, s)
  | id :: rest, remaining, s =>
    if remaining = 0 then .ok ([], remaining, s)
    else match s.periods.lookup id with
      | none => reserveWindowAllowances now window rest remaining s
      | some period =>
        match window.definition now s id period with
        | none => reserveWindowAllowances now window rest remaining s
        | some definition =>
          let committed := period.consumedQuantity + period.reservedQuantity
          let total := max definition.quantity committed
          let wanted := min remaining (max (total - committed) 0)
          if wanted = 0 then reserveWindowAllowances now window rest remaining s
          else if period.activeSettlement.isSome then
            .error (.conflict "Machine allowance settlement is completing; retry")
          else do
            let held := { period with
              reservedQuantity := period.reservedQuantity + wanted
              totalQuantity := total }
            let (allocations, left, t) ← reserveWindowAllowances now window rest
              (remaining - wanted) { s with periods := s.periods.insert id held }
            return (⟨period.allowanceId, id, wanted⟩ :: allocations, left, t)

def RuntimeWindow.row (window : RuntimeWindow) (now : Time) (layer : LayerReservation) :
    UsageMeterRow where
  billingRequestId := window.intervalId
  layer := .platform
  billingOwnerId := window.ownerId
  walletId := some window.walletId
  metric := window.metric
  lagoMetricCode := window.lagoMetricCode
  reservedCredits := layer.reservedCredits
  funding := some {
    creditsPerUnitMicros := layer.creditsPerUnitMicros
    creditsPerUnitPico := layer.creditsPerUnitPico
    settlementRate := some window.rate
    allowanceReservations := layer.allowanceReservations
    grantReservations := layer.grantReservations
    taxAccounting := true
    appliedTax := layer.appliedTax }
  quantity := none
  status := .reserved
  forwarded := false
  released := false
  settlementAttempts := 0
  settlementNextRetryAt := none
  finalizedAt := none
  updatedAt := now
  serviceId := none
  serviceSlug := some window.serviceSlug

/-- A finite runtime window, held against the same benefits and the same wallet. -/
def reserveRuntimeWindow (env : Env) (window : RuntimeWindow) (s : Store) :
    Except AppError (BillingReservation × Store) :=
  if env.refused ∨ ¬ window.metric.isRuntimeAllocation ∨ window.quantity ≤ 0 ∨
      window.rate.pico ≤ 0 then
    .error (.validationError "Invalid finite Machine funding reservation")
  else match s.wallet window.ownerId window.walletId with
    | none => .error (.billingNotConfigured "Machine wallet is required")
    | some wallet =>
      if wallet.activeSettlement.isSome then .error runtimeRefused
      else if wallet.suspended then .error .walletSuspended
      else do
        let (allowances, remaining, s) ←
          reserveWindowAllowances env.now window window.periods window.quantity s
        let remainingCost ← creditsOrError (cost window.rate.pico remaining)
        let grants := eligibleGrants window.serviceId (some window.serviceSlug)
          (s.activeGrants window.ownerId env.now)
        let (allocations, remainingCost, s) ← reserveGrants windowGrants env.now window.serviceId
          (some window.serviceSlug) (grants.map (·.1)) remainingCost s
        let (gross, tax) ← reserveGross env.taxRate remainingCost
        let s ←
          if gross.pico ≤ 0 then pure s
          else do
            let available ← wallet.availableCredits
            if available.pico < gross.pico then .error .insufficientCredits
            else do
              let reserved ← decodeCredits wallet.reservedCredits
              let _ ← creditsOrError (reserved.checkedAdd gross)
              let held := { wallet with
                reservedCredits := wallet.reservedCredits + gross.pico
                updatedAt := env.now }
              pure { s with wallets := s.wallets.insert window.ownerId held }
        let layer : LayerReservation := {
          layer := .platform
          metric := window.metric
          lagoMetricCode := window.lagoMetricCode
          estimatedQuantity := window.quantity
          creditsPerUnitMicros := window.rate.pico / 1000000
          creditsPerUnitPico := some window.rate.pico
          reservedCredits := gross
          allowanceReservations := allowances
          grantReservations := allocations
          appliedTax := tax }
        let s ← insertRows env.ids [window.row env.now layer] s
        return ({
          ownerId := window.ownerId
          walletId := window.walletId
          totalReservedCredits := gross
          layers := [layer] }, s)

end NyxId.Billing
