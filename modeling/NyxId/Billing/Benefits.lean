import NyxId.UsageMeter
import Mathlib.Data.List.Sort
import Mathlib.Logic.Encodable.Basic

/-!
Allowance periods and credit grants. Each document carries at most one
settlement lock. Quantities and picocredits that the database increments are
plain integers; what the code decodes is checked.
-/

namespace NyxId.Billing

structure AllowanceSettlementLock where
  operationId : OperationId
  usageRowId : Id
  reservedQuantity : ℤ
  consumeQuantity : ℤ
  applied : Bool
  deriving DecidableEq

inductive AllowanceRecurrence where
  | oneTime
  | daily
  | weekly
  | monthly
  deriving DecidableEq

structure UsageAllowance where
  serviceId : Id
  serviceSlug : Id
  metric : BillingMetric
  quantity : ℤ
  recurrence : AllowanceRecurrence
  /-- The owners the allowance is targeted at; everyone if absent. -/
  targets : Option (List Id)
  isActive : Bool
  createdAt : Time
  deriving DecidableEq

def maxAllowanceQuantity : ℤ := 1000000000000

def validateQuantity (quantity : ℤ) : Except AppError Unit :=
  if 1 ≤ quantity ∧ quantity ≤ maxAllowanceQuantity then .ok ()
  else .error (.validationError "allowance quantity must be between 1 and 1000000000000")

structure UsageAllowancePeriod where
  allowanceId : Id
  ownerUserId : Id
  totalQuantity : ℤ
  consumedQuantity : ℤ
  reservedQuantity : ℤ
  periodStart : Time
  periodEnd : Option Time
  activeSettlement : Option AllowanceSettlementLock
  deriving DecidableEq

def millisPerDay : Time := 86400000

/-- The civil month of a day counted from 1970-01-01. -/
def monthOfDay (day : ℤ) : ℤ × ℤ :=
  let shifted := day + 719468
  let era := shifted / 146097
  let dayOfEra := shifted - era * 146097
  let yearOfEra := (dayOfEra - dayOfEra / 1460 + dayOfEra / 36524 - dayOfEra / 146096) / 365
  let dayOfYear := dayOfEra - (365 * yearOfEra + yearOfEra / 4 - yearOfEra / 100)
  let marchMonth := (5 * dayOfYear + 2) / 153
  let month := if marchMonth < 10 then marchMonth + 3 else marchMonth - 9
  (yearOfEra + era * 400 + (if month ≤ 2 then 1 else 0), month)

/-- The first day of a civil month, counted from 1970-01-01. -/
def firstDayOfMonth (year month : ℤ) : ℤ :=
  let y := if month ≤ 2 then year - 1 else year
  let era := y / 400
  let yearOfEra := y - era * 400
  let marchMonth := if month > 2 then month - 3 else month + 9
  let dayOfYear := (153 * marchMonth + 2) / 5
  let dayOfEra := yearOfEra * 365 + yearOfEra / 4 - yearOfEra / 100 + dayOfYear
  era * 146097 + dayOfEra - 719468

/-- Start and end of the window that the allowance has at a moment. -/
def allowanceWindow (recurrence : AllowanceRecurrence) (createdAt now : Time) :
    Time × Option Time :=
  let day := now / millisPerDay
  match recurrence with
  | .oneTime => (createdAt, none)
  | .daily => (day * millisPerDay, some ((day + 1) * millisPerDay))
  | .weekly =>
    -- 1970-01-01 was a Thursday.
    let monday := day - (day + 3) % 7
    (monday * millisPerDay, some ((monday + 7) * millisPerDay))
  | .monthly =>
    let (year, month) := monthOfDay day
    let next := if month = 12 then (year + 1, 1) else (year, month + 1)
    (firstDayOfMonth year month * millisPerDay,
      some (firstDayOfMonth next.1 next.2 * millisPerDay))

/-- Month windows across the end of February of a leap year and of a year. -/
example : allowanceWindow .monthly 0 (1709164800000) = (1706745600000, some 1709251200000) ∧
    allowanceWindow .monthly 0 (1735689599999) = (1733011200000, some 1735689600000) := by
  decide

/-- The text `<allowance>:<owner>:<start>`. -/
def periodId (allowanceId ownerUserId : Id) (start : Time) : Id :=
  Encodable.encode (allowanceId, ownerUserId, start)

def availablePeriodQuantity (period : UsageAllowancePeriod) : ℤ :=
  max (period.totalQuantity - period.consumedQuantity - period.reservedQuantity) 0

inductive CreditGrantStatus where
  | active
  | consumed
  | expired
  | revoked
  deriving DecidableEq

structure CreditGrantSettlementLock where
  operationId : OperationId
  serviceLimitKey : Option Id
  usageRowId : Id
  reserved : Credits
  consume : Credits
  applied : Bool
  deriving DecidableEq

structure CreditServiceLimit where
  key : Id
  serviceIds : List Id
  serviceSlugs : List Id
  limit : Credits
  consumed : ℤ
  reserved : ℤ
  deriving DecidableEq

structure BillingServiceScope where
  allServices : Bool
  serviceIds : List Id
  serviceSlugs : List Id
  deriving DecidableEq

structure CreditGrant where
  recipientUserId : Id
  amount : Credits
  remaining : ℤ
  reserved : ℤ
  scope : BillingServiceScope
  serviceLimits : List CreditServiceLimit
  expiresAt : Option Time
  status : CreditGrantStatus
  issuedLedgeredAt : Option Time
  terminalLedgeredAt : Option Time
  terminalAmount : ℤ
  activeSettlement : Option CreditGrantSettlementLock
  createdAt : Time
  revokeRequestedAt : Option Time
  deriving DecidableEq

def maxGrantCredits : ℤ := 1000000

/-- A counter as the code reads it. -/
def decodeCredits (pico : ℤ) : Except AppError Credits := creditsOrError (Credits.fromPico pico)

def serviceScopeApplies (scope : BillingServiceScope) (serviceId serviceSlug : Option Id) : Bool :=
  scope.allServices ||
    match serviceId with
    | some id =>
      if scope.serviceIds = [] then serviceSlug.any (· ∈ scope.serviceSlugs)
      else id ∈ scope.serviceIds
    | none => serviceSlug.any (· ∈ scope.serviceSlugs)

namespace CreditGrant

def matchingRule (grant : CreditGrant) (serviceId serviceSlug : Option Id) :
    Option CreditServiceLimit :=
  grant.serviceLimits.find? fun rule =>
    match serviceId with
    | some id => id ∈ rule.serviceIds
    | none => serviceSlug.any (· ∈ rule.serviceSlugs)

def ruleKey (grant : CreditGrant) (serviceId serviceSlug : Option Id) : Option Id :=
  (grant.matchingRule serviceId serviceSlug).map (·.key)

end CreditGrant

def ruleAvailable (rule : CreditServiceLimit) : Except AppError Credits := do
  let left ← creditsOrError (rule.limit.checkedSub (← decodeCredits rule.consumed))
  let left ← creditsOrError (left.checkedSub (← decodeCredits rule.reserved))
  return left.max .zero

def unappliedExtra (lock : Option CreditGrantSettlementLock) : Except AppError Credits :=
  match lock with
  | some lock =>
    if lock.applied then return .zero
    else do
      let extra ← creditsOrError (lock.consume.checkedSub lock.reserved)
      return extra.max .zero
  | none => return .zero

namespace CreditGrant

def held (grant : CreditGrant) : Except AppError Credits := do
  let reserved ← decodeCredits grant.reserved
  let held ← creditsOrError (reserved.checkedAdd (← unappliedExtra grant.activeSettlement))
  return (held.min (← decodeCredits grant.remaining)).max .zero

def available (grant : CreditGrant) : Except AppError Credits := do
  let remaining ← decodeCredits grant.remaining
  let left ← creditsOrError (remaining.checkedSub (← grant.held))
  return left.max .zero

def availableForService (grant : CreditGrant) (serviceId serviceSlug : Option Id) :
    Except AppError Credits := do
  let available ← grant.available
  match grant.matchingRule serviceId serviceSlug with
  | some rule =>
    let extra ←
      if (grant.activeSettlement.bind (·.serviceLimitKey)) = some rule.key then
        unappliedExtra grant.activeSettlement
      else pure .zero
    let left ← creditsOrError ((← ruleAvailable rule).checkedSub extra)
    return available.min (left.max .zero)
  | none => return available

/-- What a list of active grants shows: spendable at a moment, before its scope is looked at. -/
def listed (grant : CreditGrant) (owner : Id) (now : Time) : Bool :=
  grant.recipientUserId = owner ∧ grant.status = .active ∧ grant.revokeRequestedAt.isNone ∧
    grant.issuedLedgeredAt.isSome ∧ 0 < grant.remaining ∧ grant.expiresAt.all (now < ·)

/-- The filter of a reservation against the grant and its matching ceiling. -/
def reservable (grant : CreditGrant) (key : Option Id) (wanted : Credits) (now : Time) : Bool :=
  grant.status = .active ∧ grant.expiresAt.all (now < ·) ∧
    wanted.pico ≤ grant.remaining - grant.reserved ∧ grant.activeSettlement.isNone ∧
    grant.revokeRequestedAt.isNone ∧
    (key.all fun k => (grant.serviceLimits.find? (·.key = k)).any fun rule =>
      wanted.pico ≤ rule.limit.pico - (rule.consumed + rule.reserved))

/-- The matching rule's counters move together with the grant's own. -/
def mapRule (grant : CreditGrant) (key : Option Id)
    (f : CreditServiceLimit → CreditServiceLimit) : List CreditServiceLimit :=
  grant.serviceLimits.map fun rule => if some rule.key = key then f rule else rule

def reserve (grant : CreditGrant) (key : Option Id) (wanted : Credits) : CreditGrant :=
  { grant with
    reserved := grant.reserved + wanted.pico
    serviceLimits := grant.mapRule key fun rule =>
      { rule with reserved := rule.reserved + wanted.pico } }

/-- The capacity that a settlement lock asks for. -/
def lockable (grant : CreditGrant) (lock : CreditGrantSettlementLock) : Bool :=
  grant.status = .active ∧ grant.activeSettlement.isNone ∧
    lock.reserved.pico ≤ grant.reserved ∧ lock.consume.pico ≤ grant.remaining ∧
    lock.consume.pico ≤ grant.remaining - grant.reserved + lock.reserved.pico ∧
    (lock.serviceLimitKey.all fun k => (grant.serviceLimits.find? (·.key = k)).any fun rule =>
      lock.reserved.pico ≤ rule.reserved ∧
        lock.consume.pico ≤
          rule.limit.pico - (rule.consumed + rule.reserved) + lock.reserved.pico)

/-- The effect of a settlement lock on the counters. -/
def applyLock (grant : CreditGrant) (lock : CreditGrantSettlementLock) : CreditGrant :=
  { grant with
    reserved := grant.reserved - lock.reserved.pico
    remaining := grant.remaining - lock.consume.pico
    serviceLimits := grant.mapRule lock.serviceLimitKey fun rule =>
      { rule with
        reserved := rule.reserved - lock.reserved.pico
        consumed := rule.consumed + lock.consume.pico }
    status :=
      if grant.revokeRequestedAt.isNone ∧ grant.remaining - lock.consume.pico ≤ 0 then .consumed
      else grant.status
    activeSettlement := grant.activeSettlement.map fun l => { l with applied := true } }

end CreditGrant

end NyxId.Billing
