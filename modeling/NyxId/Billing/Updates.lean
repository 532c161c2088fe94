import NyxId.Billing.Wallets
import NyxId.LagoCarry.Model

/-!
The conditional single-document updates of the billing services. Each has the
filter that a document must match and the document it leaves.
-/

namespace NyxId.Billing

open Interleave

def maxSettlementAttempts : ℕ := 5

def settlementStrandedAfterMillis : Time := 30000

def settlementClaimLeaseMillis : Time := 60000

def settlementRetryBaseMillis : Time := 30000

def settlementRetryMaxMillis : Time := 1800000

def settlementRetryBackoff (attempt : ℕ) : Time :=
  min (settlementRetryBaseMillis * 2 ^ min (attempt - 1) 10) settlementRetryMaxMillis

def settlementDue (now : Time) (row : UsageMeterRow) : Bool :=
  match row.status with
  | .failed => row.settlementNextRetryAt.all (· ≤ now)
  | .finalized =>
    (row.finalizedAt.getD row.updatedAt) ≤ now - settlementStrandedAfterMillis
  | _ => false

def hasAllowanceOperation (row : UsageMeterRow) (operationId : OperationId) : Bool :=
  row.fundingD.allowanceConsumptions.any (·.operationId = operationId)

def hasGrantOperation (row : UsageMeterRow) (operationId : OperationId) : Bool :=
  row.fundingD.grantConsumptions.any (·.operationId = operationId)

inductive RowUpdate where
  | markForwarded
  | rejectBeforeSend
  | finalize (quantity : ℤ) (finalizedAt : Time)
  | finalizeInterval (quantity : ℤ)
  | releaseUnforwarded (status : UsageStatus)
  | initFunding (reserved : Credits)
  | recordAllowance (allocation : AllowanceConsumptionAllocation)
  | recordGrant (allocation : GrantConsumptionAllocation)
  | settleReleased
  | claimDue (attempts : ℕ)
  | completeSettlement
  | settlementFailure (attempts : ℕ) (nextRetryAt : Option Time)
  | markExhausted (attempts : ℕ)
  | ackLago
  | markDeadLetter
  deriving DecidableEq

namespace RowUpdate

def admits (u : RowUpdate) (now : Time) (row : UsageMeterRow) : Bool :=
  match u with
  | markForwarded => row.status = .reserved
  | rejectBeforeSend => row.status = .forwarded ∧ ¬ row.released ∧ row.quantity = none
  | finalize _ _ => row.status = .forwarded
  | finalizeInterval _ =>
    row.quantity = none ∧ ¬ row.released ∧ row.metric.isRuntimeAllocation
  | releaseUnforwarded _ =>
    ¬ row.forwarded ∧ row.status = .reserved ∧ ¬ row.released ∧ ¬ row.metric.isRuntimeAllocation
  | initFunding _ => row.funding = none
  | recordAllowance a => ¬ hasAllowanceOperation row a.operationId
  | recordGrant g => ¬ hasGrantOperation row g.operationId
  | settleReleased => ¬ row.settled
  | claimDue attempts =>
    ¬ row.released ∧ row.quantity ≠ none ∧ settlementDue now row ∧
      row.settlementAttempts = attempts
  | completeSettlement => (row.status = .finalized ∨ row.status = .failed) ∧ ¬ row.released
  | settlementFailure attempts _ =>
    (row.status = .finalized ∨ row.status = .failed) ∧ ¬ row.released ∧
      row.settlementAttempts = attempts
  | markExhausted attempts =>
    row.status = .failed ∧ ¬ row.released ∧ row.settlementAttempts = attempts
  | ackLago => ¬ row.lagoAcked
  | markDeadLetter => ¬ row.lagoAcked ∧ row.status ≠ .deadLetter

def apply (u : RowUpdate) (now : Time) (row : UsageMeterRow) : UsageMeterRow :=
  match u with
  | markForwarded => { row with status := .forwarded, forwarded := true, updatedAt := now }
  | rejectBeforeSend => { row with status := .reserved, forwarded := false, updatedAt := now }
  | finalize quantity finalizedAt =>
    { row with
      status := .finalized
      quantity := some quantity
      released := false
      updatedAt := finalizedAt
      finalizedAt := some finalizedAt }
  | finalizeInterval quantity =>
    { row with
      quantity := some quantity
      status := .finalized
      forwarded := true
      finalizedAt := some now
      updatedAt := now }
  | releaseUnforwarded status =>
    { row with status := status, released := true, updatedAt := now, finalizedAt := some now }
  | initFunding reserved =>
    { row with funding := some { walletOnly := true }, reservedCredits := reserved }
  | recordAllowance a =>
    { row with funding := some { row.fundingD with
        allowanceConsumptions := row.fundingD.allowanceConsumptions ++ [a] } }
  | recordGrant g =>
    { row with funding := some { row.fundingD with
        grantConsumptions := row.fundingD.grantConsumptions ++ [g] } }
  | settleReleased =>
    { row with funding := some { row.fundingD with
        settled := true
        walletChargeCredits := some .zero
        lagoBillableQuantityMicros := some 0
        settlementClaimId := none
        settlementClaimedAt := none } }
  | claimDue _ =>
    { row with
      status := .failed
      settlementNextRetryAt := some (now + settlementClaimLeaseMillis)
      updatedAt := now }
  | completeSettlement =>
    { row with
      status := .finalized
      released := true
      updatedAt := now
      settlementNextRetryAt := none }
  | settlementFailure attempts nextRetryAt =>
    { row with
      status := if nextRetryAt.isSome then .failed else .deadLetter
      settlementNextRetryAt := nextRetryAt
      settlementAttempts := attempts + 1
      updatedAt := now }
  | markExhausted _ =>
    { row with status := .deadLetter, settlementNextRetryAt := none, updatedAt := now }
  | ackLago => { row with lagoAcked := true, updatedAt := now }
  | markDeadLetter =>
    { row with status := .deadLetter, updatedAt := now, finalizedAt := some now }

end RowUpdate

inductive WalletUpdate where
  | acquireSettlement (lock : WalletSettlementLock)
  | applySettlement (lock : WalletSettlementLock)
  | clearSettlement (row : Id)
  | clearSettlementAnyState (row : Id)
  | releaseHold (credits : Credits)
  | suspend
  | startTopupExpiry (operation : PurchasedCreditExpiryOperation) (reserved pending : Credits)
  | leaseTopupExpiry (operationId token : Id) (leaseUntil : Time)
  | recordVoid (operationId token void : Id)
  | finishTopupExpiry (operationId token : Id)
  deriving DecidableEq

namespace WalletUpdate

/-- The expiry operation is still the one that the worker holds. -/
def holdsExpiry (wallet : BillingWallet) (operationId token : Id) : Bool :=
  wallet.activeTopupExpiry.any fun o => o.operationId = operationId ∧ o.processingToken = token

def admits (u : WalletUpdate) (now : Time) (wallet : BillingWallet) : Bool :=
  match u with
  | acquireSettlement _ => wallet.activeSettlement.isNone
  | applySettlement lock => (wallet.lockOf lock.rowId).any (! ·.applied)
  | clearSettlement row => (wallet.lockOf row).any (·.applied)
  | clearSettlementAnyState row => (wallet.lockOf row).isSome
  | releaseHold credits => credits.pico ≤ wallet.reservedCredits
  | suspend => true
  | startTopupExpiry _ reserved pending =>
    wallet.activeTopupExpiry.isNone ∧ wallet.pendingTopupExpiryCredits = .zero ∧
      wallet.reservedCredits = reserved.pico ∧ wallet.pendingLagoDebits = pending.pico
  | leaseTopupExpiry operationId _ _ =>
    wallet.activeTopupExpiry.any fun o => o.operationId = operationId ∧ o.leaseUntil ≤ now
  | recordVoid operationId token _ => holdsExpiry wallet operationId token
  | finishTopupExpiry operationId token => holdsExpiry wallet operationId token

def apply (u : WalletUpdate) (now : Time) (wallet : BillingWallet) : BillingWallet :=
  match u with
  | acquireSettlement lock =>
    { wallet with activeSettlement := some { lock with applied := false }, updatedAt := now }
  | applySettlement lock =>
    { wallet with
      reservedCredits := wallet.reservedCredits - lock.reservedCredits.pico
      pendingLagoDebits := wallet.pendingLagoDebits + lock.actualCredits.pico
      activeSettlement := wallet.activeSettlement.map fun l => { l with applied := true }
      updatedAt := now }
  | clearSettlement _ => { wallet with activeSettlement := none, updatedAt := now }
  | clearSettlementAnyState _ => { wallet with activeSettlement := none, updatedAt := now }
  | releaseHold credits =>
    { wallet with
      reservedCredits := wallet.reservedCredits - credits.pico
      updatedAt := now }
  | suspend => { wallet with suspended := true, updatedAt := now }
  | startTopupExpiry operation _ _ =>
    { wallet with
      activeTopupExpiry := some operation
      pendingTopupExpiryCredits := operation.amount
      updatedAt := now }
  | leaseTopupExpiry _ token leaseUntil =>
    { wallet with
      activeTopupExpiry := wallet.activeTopupExpiry.map fun o =>
        { o with processingToken := token, leaseUntil := leaseUntil }
      updatedAt := now }
  | recordVoid _ _ void =>
    { wallet with
      activeTopupExpiry := wallet.activeTopupExpiry.map fun o =>
        { o with lagoVoidTransactionId := some void }
      updatedAt := now }
  | finishTopupExpiry _ _ =>
    { wallet with
      activeTopupExpiry := none
      pendingTopupExpiryCredits := .zero
      updatedAt := now }

end WalletUpdate

inductive PeriodUpdate where
  | applySettlement (lock : AllowanceSettlementLock)
  | clearSettlement (operationId : OperationId)
  deriving DecidableEq

namespace PeriodUpdate

def admits (u : PeriodUpdate) (period : UsageAllowancePeriod) : Bool :=
  match u with
  | applySettlement lock =>
    period.activeSettlement.any fun l => l.operationId = lock.operationId ∧ ¬ l.applied
  | clearSettlement operationId =>
    period.activeSettlement.any fun l => l.operationId = operationId ∧ l.applied

def apply (u : PeriodUpdate) (period : UsageAllowancePeriod) : UsageAllowancePeriod :=
  match u with
  | applySettlement lock =>
    { period with
      reservedQuantity := period.reservedQuantity - lock.reservedQuantity
      consumedQuantity := period.consumedQuantity + lock.consumeQuantity
      activeSettlement := period.activeSettlement.map fun l => { l with applied := true } }
  | clearSettlement _ => { period with activeSettlement := none }

end PeriodUpdate

inductive GrantUpdate where
  | applySettlement (lock : CreditGrantSettlementLock)
  | clearSettlement (operationId : OperationId)
  | revokeImmediate
  | requestRevoke
  | finalizeReclaim
  | expire (now : Time)
  | markIssuedLedgered
  | markTerminalLedgered
  deriving DecidableEq

namespace GrantUpdate

/-- No lock and no reservation stands in the way of ending the grant. -/
def idle (grant : CreditGrant) : Bool :=
  grant.status = .active ∧ grant.reserved = 0 ∧ grant.activeSettlement.isNone

def admits (u : GrantUpdate) (grant : CreditGrant) : Bool :=
  match u with
  | applySettlement lock =>
    grant.activeSettlement.any fun l => l.operationId = lock.operationId ∧ ¬ l.applied
  | clearSettlement operationId =>
    grant.activeSettlement.any fun l => l.operationId = operationId ∧ l.applied
  | revokeImmediate => idle grant
  | requestRevoke => grant.status = .active ∧ grant.revokeRequestedAt.isNone
  | finalizeReclaim => idle grant ∧ grant.revokeRequestedAt.isSome
  | expire now =>
    idle grant ∧ grant.revokeRequestedAt.isNone ∧ grant.expiresAt.any (· ≤ now)
  | markIssuedLedgered => true
  | markTerminalLedgered => true

def terminate (grant : CreditGrant) (status : CreditGrantStatus) : CreditGrant :=
  { grant with status := status, terminalAmount := grant.remaining, remaining := 0 }

def apply (u : GrantUpdate) (now : Time) (grant : CreditGrant) : CreditGrant :=
  match u with
  | applySettlement lock => grant.applyLock lock
  | clearSettlement _ => { grant with activeSettlement := none }
  | revokeImmediate => { terminate grant .revoked with reserved := 0 }
  | requestRevoke => { grant with revokeRequestedAt := some now }
  | finalizeReclaim => terminate grant .revoked
  | expire _ => { terminate grant .expired with reserved := 0 }
  | markIssuedLedgered => { grant with issuedLedgeredAt := some now }
  | markTerminalLedgered => { grant with terminalLedgeredAt := some now }

end GrantUpdate

/-!
The documents of the billing services and their transactions. A transaction
either commits all of its writes or leaves the store as it was. The log is a
history of effective updates that no code reads.
-/

structure BillingRateCache where
  creditsPerUnitMicros : ℤ
  creditsPerUnitPico : Option ℤ
  deriving DecidableEq

/-- An update that matched its document. -/
inductive Write where
  | row (id : Id) (u : RowUpdate)
  | wallet (owner : Id) (u : WalletUpdate)
  | period (id : Id) (u : PeriodUpdate)
  | grant (id : Id) (u : GrantUpdate)
  | lockAllowance (period : Id) (lock : AllowanceSettlementLock)
  | lockGrant (grant : Id) (lock : CreditGrantSettlementLock)
  deriving DecidableEq

structure Store where
  rows : Collection Id UsageMeterRow
  /-- Under their owners, of whom each has at most one. -/
  wallets : Collection Id BillingWallet
  allowances : Collection Id UsageAllowance
  periods : Collection Id UsageAllowancePeriod
  grants : Collection Id CreditGrant
  rates : Collection Id BillingRateCache
  carries : Collection String LagoCarry.BillingLagoCarry
  ledger : Ledger
  /-- Holds of rows that a worker has released but not yet given back to the wallet. -/
  owed : Collection ℕ (Id × Credits)
  log : List Write

/-- What the clock, the provider and the identifier generator supply at an operation. -/
structure Env where
  now : Time
  /-- Another transaction created the same carry document first. -/
  duplicate : Bool := false
  /-- The rate of the owner's verified tax profile, in percent. -/
  taxRate : Option Credits := none
  /-- An admission fence on a document outside billing refuses. -/
  refused : Bool := false
  /-- Identifiers drawn for inserted documents. -/
  ids : List Id := []

namespace Store

def wallet (s : Store) (owner walletId : Id) : Option BillingWallet :=
  (s.wallets.lookup owner).filter (·.id = walletId)

/-- A worker that releases an unforwarded row owes its hold to the wallet. -/
def owe (w : ℕ) (row : UsageMeterRow) (u : RowUpdate) (owed : Collection ℕ (Id × Credits)) :
    Collection ℕ (Id × Credits) :=
  match u with
  | .releaseUnforwarded _ => owed.insert w (row.billingOwnerId, row.reservedCredits)
  | _ => owed

def repay (w : ℕ) (u : WalletUpdate) (owed : Collection ℕ (Id × Credits)) :
    Collection ℕ (Id × Credits) :=
  match u with
  | .releaseHold _ => owed.erase w
  | _ => owed

/-- The row before and after an update that matched it. -/
def updateRow (s : Store) (w : ℕ) (now : Time) (id : Id) (u : RowUpdate) :
    Option (UsageMeterRow × UsageMeterRow) × Store :=
  match s.rows.lookup id with
  | some row =>
    if u.admits now row then
      (some (row, u.apply now row), { s with
        rows := s.rows.insert id (u.apply now row)
        owed := owe w row u s.owed
        log := .row id u :: s.log })
    else (none, s)
  | none => (none, s)

/-- The filter names the wallet by its owner and, where given, by its identifier. -/
def updateWallet (s : Store) (w : ℕ) (now : Time) (owner : Id) (walletId : Option Id)
    (u : WalletUpdate) : Bool × Store :=
  match s.wallets.lookup owner with
  | some wallet =>
    if walletId.all (· = wallet.id) ∧ u.admits now wallet then
      (true, { s with
        wallets := s.wallets.insert owner (u.apply now wallet)
        owed := repay w u s.owed
        log := .wallet owner u :: s.log })
    else (false, s)
  | none => (false, s)

def updatePeriod (s : Store) (id : Id) (u : PeriodUpdate) : Bool × Store :=
  match s.periods.lookup id with
  | some period =>
    if u.admits period then
      (true, { s with
        periods := s.periods.insert id (u.apply period), log := .period id u :: s.log })
    else (false, s)
  | none => (false, s)

def updateGrant (s : Store) (now : Time) (id : Id) (u : GrantUpdate) :
    Option CreditGrant × Store :=
  match s.grants.lookup id with
  | some grant =>
    if u.admits grant then
      (some grant, { s with
        grants := s.grants.insert id (u.apply now grant), log := .grant id u :: s.log })
    else (none, s)
  | none => (none, s)

/-- The update, or the insertion under the period's own identifier. -/
def ensureCurrentPeriod (s : Store) (allowanceId : Id) (allowance : UsageAllowance)
    (owner : Id) (now : Time) : Store :=
  let window := allowanceWindow allowance.recurrence allowance.createdAt now
  let id := periodId allowanceId owner window.1
  let period := match s.periods.lookup id with
    | some period =>
      { period with
        totalQuantity :=
          max allowance.quantity (period.consumedQuantity + period.reservedQuantity)
        periodEnd := window.2 }
    | none =>
      { allowanceId := allowanceId
        ownerUserId := owner
        totalQuantity := max allowance.quantity 0
        consumedQuantity := 0
        reservedQuantity := 0
        periodStart := window.1
        periodEnd := window.2
        activeSettlement := none }
  { s with periods := s.periods.insert id period }

def activeGrants (s : Store) (owner : Id) (now : Time) : List (Id × CreditGrant) :=
  (s.grants.entries.map fun e => (e.1, e.2)).filter fun g => g.2.listed owner now

/-- The write that makes a resource operation conflict with takeover and release. -/
def fenced (row : UsageMeterRow) (claim : Option ClaimId) (release : Bool) : Bool :=
  ¬ row.settled ∧ row.released = release ∧
    (if release then row.status = .failed ∨ row.status = .abandoned
      else claim.isSome ∧ row.claim = claim)

def disappeared : AppError := .internal "Usage funding owner disappeared"

def ownershipChanged : AppError := .internal "Usage settlement ownership changed"

/-- Whether the operation was already recorded, and whether its lock was acquired. -/
def lockAllowance (s : Store) (now : Time) (rowId : Id) (claim : Option ClaimId)
    (release : Bool) (id : Id) (lock : AllowanceSettlementLock) (honorReservation : Bool) :
    Except AppError (Bool × Bool) × Store :=
  match s.rows.lookup rowId with
  | none => (.error disappeared, s)
  | some row =>
    if hasAllowanceOperation row lock.operationId then (.ok (true, false), s)
    else if ¬ fenced row claim release then (.error ownershipChanged, s)
    else match s.periods.lookup id with
      | some period =>
        if period.activeSettlement.isNone ∧ lock.reservedQuantity ≤ period.reservedQuantity ∧
            lock.consumeQuantity ≤ period.totalQuantity - period.consumedQuantity -
              period.reservedQuantity + lock.reservedQuantity ∧
            (honorReservation ∨ period.periodEnd.all (now < ·)) then
          (.ok (false, true), { s with
            periods := s.periods.insert id { period with activeSettlement := some lock }
            log := .lockAllowance id lock :: s.log })
        else (.ok (false, false), s)
      | none => (.ok (false, false), s)

def lockGrant (s : Store) (now : Time) (rowId : Id) (claim : Option ClaimId) (release : Bool)
    (id : Id) (lock : CreditGrantSettlementLock) (honorReservation : Bool) :
    Except AppError (Bool × Bool) × Store :=
  match s.rows.lookup rowId with
  | none => (.error disappeared, s)
  | some row =>
    if hasGrantOperation row lock.operationId then (.ok (true, false), s)
    else if ¬ fenced row claim release then (.error ownershipChanged, s)
    else match s.grants.lookup id with
      | some grant =>
        if grant.lockable lock ∧ (honorReservation ∨
            (grant.expiresAt.all (now < ·) ∧ grant.revokeRequestedAt.isNone ∧
              grant.issuedLedgeredAt.isSome)) then
          (.ok (false, true), { s with
            grants := s.grants.insert id { grant with activeSettlement := some lock }
            log := .lockGrant id lock :: s.log })
        else (.ok (false, false), s)
      | none => (.ok (false, false), s)

def appendLedger (s : Store) (entry : BillingLedgerEntry) : Except AppError Unit × Store :=
  match s.ledger.append entry with
  | .ok ledger => (.ok (), { s with ledger := ledger })
  | .error e => (.error e, s)

/-- What the carry operations do to rows and carries. -/
def carry {β : Type} (digest : LagoCarry.Digest) (w : ℕ) (env : Env) (o : LagoCarry.Op β)
    (s : Store) : β × Store :=
  let (answer, t) := LagoCarry.exec digest w { now := env.now, duplicate := env.duplicate } o
    { rows := s.rows, carries := s.carries }
  (answer, { s with rows := t.rows, carries := t.carries })

end Store

/-- Documents that expire come first, the earliest of them before the others. -/
def expiryOrder (left right : Option Time) : Ordering :=
  match left, right with
  | some left, some right => compare left right
  | some _, none => .lt
  | none, some _ => .gt
  | none, none => .eq

/-- The grants that a service may use, in the order in which they are used. -/
def eligibleGrants (serviceId serviceSlug : Option Id) (grants : List (Id × CreditGrant)) :
    List (Id × CreditGrant) :=
  (grants.filter fun g => serviceScopeApplies g.2.scope serviceId serviceSlug).insertionSort
    fun g h => ((expiryOrder g.2.expiresAt h.2.expiresAt).then
      (compare g.2.createdAt h.2.createdAt)).isLE = true

end NyxId.Billing
