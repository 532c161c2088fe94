import NyxId.Billing.Resources

/-!
Expiry of purchased credits. A durable operation on the wallet reserves the
amount, the provider voids it, the balance snapshot posts it, and the operation
ends once every item is journaled.
-/

namespace NyxId.Billing

open Interleave

def expiryOperationLeaseMillis : Time := 600000

def expiryPurchaseBatch : ℕ := 100

/-- What the provider still has of purchases past their lifetime, each listed once. -/
structure ExpiringPurchases where
  purchases : List (Id × Credits)
  references_nodup : (purchases.map (·.1)).Nodup

/-- The provider voids once for each operation name and answers the transaction. -/
structure Provider where
  void : Id → Id
  void_injective : Function.Injective void

/-- Amounts below the provider's precision stay in the wallet. -/
def expiringItem (purchase : Id × Credits) : Option PurchasedCreditExpiryItem := do
  let residue ← Credits.fromPico (purchase.2.pico.tmod 10000000)
  let remaining ← purchase.2.checkedSub residue
  if 0 < remaining.pico then
    return { referenceId := purchase.1, amount := remaining }
  else none

def expiringItems (expiring : ExpiringPurchases) : List PurchasedCreditExpiryItem :=
  (expiring.purchases.filterMap expiringItem).take expiryPurchaseBatch

/-- The provider's void, recorded on the operation that the worker holds. -/
def recordExpiryVoid (provider : Provider) (owner walletId : Id)
    (operation : PurchasedCreditExpiryOperation) :
    Code (Option PurchasedCreditExpiryOperation) := do
  match operation.lagoVoidTransactionId with
  | some _ => return some operation
  | none =>
    let void := provider.void operation.operationId
    if ← perform (.updateWallet owner (some walletId)
        (.recordVoid operation.operationId operation.processingToken void)) then
      return some { operation with lagoVoidTransactionId := some void }
    else return none

def applyExpiryBalance (owner walletId : Id) (balance : Credits)
    (operation : PurchasedCreditExpiryOperation) : Code Bool := do
  if operation.walletBalanceApplied then return true
  else
    let outcome ← commit (.providerSnapshot owner walletId balance (some operation))
    return outcome.isSome

def allLedgered (void : Id) : List PurchasedCreditExpiryItem → Code Bool
  | [] => return true
  | item :: rest => do
    let ledgered ← perform (.dedupeExists (.topupExpired item.referenceId void))
    let others ← allLedgered void rest
    return ledgered && others

def completeExpiryOperation (provider : Provider) (owner walletId : Id) (balance : Credits)
    (operation : PurchasedCreditExpiryOperation) : Code Unit := do
  match ← recordExpiryVoid provider owner walletId operation with
  | none => return
  | some operation =>
    if ← applyExpiryBalance owner walletId balance operation then
      if ← allLedgered (operation.lagoVoidTransactionId.getD 0) operation.items then
        let _ ← perform (.updateWallet owner (some walletId)
          (.finishTopupExpiry operation.operationId operation.processingToken))

/-- A later sweep takes an operation over once its lease has run out. -/
def acquireExpiryOperation (owner walletId : Id) (operation : PurchasedCreditExpiryOperation) :
    Code (Option PurchasedCreditExpiryOperation) := do
  let now ← perform .now
  let token ← perform .workerId
  if now < operation.leaseUntil then return none
  else
    let lease := now + expiryOperationLeaseMillis
    if ← perform (.updateWallet owner (some walletId)
        (.leaseTopupExpiry operation.operationId token lease)) then
      return some { operation with processingToken := token, leaseUntil := lease }
    else return none

def startTopupExpiry (provider : Provider) (owner walletId : Id) (wallet : BillingWallet)
    (balance : Credits) (expiring : ExpiringPurchases) : Code Unit := do
  let reserved ← checked (decodeCredits wallet.reservedCredits)
  let pending ← checked (decodeCredits wallet.pendingLagoDebits)
  let items := expiringItems expiring
  let amount ← checked (creditsOrError (Credits.checkedSum (items.map (·.amount))))
  if amount.pico ≤ 0 then return
  else
    let now ← perform .now
    let token ← perform .workerId
    let operation := {
      operationId := token
      processingToken := token
      leaseUntil := now + expiryOperationLeaseMillis
      amount := amount
      items := items
      lagoVoidTransactionId := none
      walletBalanceApplied := false }
    if ← perform (.updateWallet owner (some walletId)
        (.startTopupExpiry operation reserved pending)) then
      completeExpiryOperation provider owner walletId balance operation

/-- What the expiry sweep does for one wallet. -/
def expirePurchasedCredits (provider : Provider) (owner walletId : Id) (balance : Credits)
    (expiring : ExpiringPurchases) : Code Unit := do
  match ← perform (.findWallet owner walletId) with
  | none => return
  | some wallet =>
    match wallet.activeTopupExpiry with
    | none => startTopupExpiry provider owner walletId wallet balance expiring
    | some operation =>
      match ← acquireExpiryOperation owner walletId operation with
      | none => return
      | some operation => completeExpiryOperation provider owner walletId balance operation

/-- The provider's balance is taken over, unless the wallet is busy. -/
def refreshWalletBalance (owner walletId : Id) (balance : Credits) : Code Unit := do
  let _ ← commit (.providerSnapshot owner walletId balance none)

end NyxId.Billing
