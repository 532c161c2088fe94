import NyxId.Billing.Ledger
import NyxId.Billing.Benefits

/-!
The wallet of a billing owner with its settlement lock and its expiry operation,
and what a reservation asks of it.
-/

namespace NyxId.Billing

inductive PlanKind where
  | prepaid
  | subscription
  | hybrid
  deriving DecidableEq

/-- Bounded crash bridge for one in-flight wallet settlement. -/
structure WalletSettlementLock where
  rowId : Id
  reservedCredits : Credits
  actualCredits : Credits
  applied : Bool
  deriving DecidableEq

structure PurchasedCreditExpiryItem where
  referenceId : Id
  amount : Credits
  deriving DecidableEq

structure PurchasedCreditExpiryOperation where
  operationId : Id
  processingToken : Id
  leaseUntil : Time
  amount : Credits
  items : List PurchasedCreditExpiryItem
  lagoVoidTransactionId : Option Id
  walletBalanceApplied : Bool
  deriving DecidableEq

structure BillingWallet where
  id : Id
  lagoSubscriptionId : Option Id
  planKind : PlanKind
  balanceCredits : Credits
  reservedCredits : ℤ
  pendingLagoDebits : ℤ
  pendingTopupExpiryCredits : Credits
  hasPaymentInstrument : Bool
  overdraftCapCredits : Credits
  suspended : Bool
  activeSettlement : Option WalletSettlementLock
  activeTopupExpiry : Option PurchasedCreditExpiryOperation
  updatedAt : Time
  deriving DecidableEq

namespace BillingWallet

def availableFrom (wallet : BillingWallet) (funds : Credits) : Except AppError Credits := do
  let left ← creditsOrError (funds.checkedSub (← decodeCredits wallet.reservedCredits))
  let left ← creditsOrError (left.checkedSub (← decodeCredits wallet.pendingLagoDebits))
  creditsOrError (left.checkedSub wallet.pendingTopupExpiryCredits)

def availableCredits (wallet : BillingWallet) : Except AppError Credits :=
  wallet.availableFrom wallet.balanceCredits

def availableWithOverdraftCredits (wallet : BillingWallet) : Except AppError Credits := do
  let funds ← creditsOrError (wallet.balanceCredits.checkedAdd wallet.overdraftCapCredits)
  wallet.availableFrom funds

/-- The lock of the wallet, if it belongs to the row. -/
def lockOf (wallet : BillingWallet) (row : Id) : Option WalletSettlementLock :=
  wallet.activeSettlement.filter (·.rowId = row)

end BillingWallet

/-- The lock that a row proposes for its own amounts. -/
def proposedLock (id : Id) (row : UsageMeterRow) (actual : Credits) : WalletSettlementLock where
  rowId := id
  reservedCredits := row.reservedCredits.max .zero
  actualCredits := actual.max .zero
  applied := false

def WalletSettlementLock.movesMoney (lock : WalletSettlementLock) : Bool :=
  0 < lock.reservedCredits.pico ∨ 0 < lock.actualCredits.pico

/-- Half-up at one picocredit for settlement; ceiling at one pico for admission. -/
def proportional (base rate : Credits) (roundUp : Bool) : Except AppError Credits :=
  let unavailable := AppError.billingNotConfigured
    "Fresh Lago tax configuration is required for wallet funding"
  if base.pico < 0 ∨ rate.pico < 0 then .error unavailable
  else
    let denominator : ℤ := 100 * Credits.scale
    match checkedI128 (base.pico.tdiv denominator * rate.pico),
        checkedI128 (base.pico.tmod denominator * rate.pico) with
    | _, none => .error unavailable
    | none, _ => .error unavailable
    | some whole, some remainder =>
      let residual := remainder.tmod denominator
      let increment : ℤ :=
        if roundUp then (if residual > 0 then 1 else 0)
        else (if residual ≥ denominator / 2 then 1 else 0)
      match (checkedI128 (whole + remainder.tdiv denominator)).bind fun v =>
          checkedI128 (v + increment) with
      | some v => decodeCredits v
      | none => .error unavailable

def taxHalfUp (base rate : Credits) : Except AppError Credits := proportional base rate false

def grossCeiling (base rate : Credits) : Except AppError Credits := do
  creditsOrError (base.checkedAdd (← proportional base rate true))

/-- The ledger entry of one settled row. -/
def usageSettledEntry (id : Id) (row : UsageMeterRow) (credits tax : Credits) :
    Except AppError BillingLedgerEntry :=
  if tax.pico < 0 ∨ credits.pico < tax.pico then .error (.internal "Invalid usage tax split")
  else do
    let net ← creditsOrError (credits.checkedSub tax)
    return {
      seq := 0
      movement := .usageSettled
      ownerId := row.billingOwnerId
      referenceId := id
      dedupeKey := .usageSettled id
      postings := transfer (.usage id) (.wallet row.billingOwnerId) net ++
        transfer (.taxUsage row.billingOwnerId) (.wallet row.billingOwnerId) tax }

end NyxId.Billing
