import NyxId.Billing.Funding

/-!
Settlement of a row against the wallet. The row's lock on the wallet is applied,
the debit is journaled, the row is released, and the lock is cleared; another
worker may help with any of these steps.
-/

namespace NyxId.Billing

open Interleave

def settlementLockRetries : ℕ := 4

/-- The wallet's durable settlement lock is kept until this append is confirmed. -/
def recordUsageSettled (id : Id) (row : UsageMeterRow) (credits : Credits) : Code Unit :=
  if credits = .zero then return
  else do
    let saved ← if row.settled then pure (some row) else perform (.findRow id)
    let tax := (saved.bind fun (r : UsageMeterRow) => r.fundingD.walletTaxCredits).getD .zero
    let entry ← checked (usageSettledEntry id row credits tax)
    if ← appendAndConfirmDedupe entry then return
    else Prog.fail (.internal "usage ledger append is pending")

def rowIs (id : Id) (released : Bool) : Code Bool := do
  return (← perform (.findRow id)).any (·.released = released)

/-- The release of the row, by this worker or by the one that was faster. -/
def releaseSettledRow (id : Id) : Code Bool := do
  if (← perform (.updateRow id .completeSettlement)).isSome then return true
  else if ← rowIs id true then return false
  else Prog.fail (.internal "billing settlement could not complete usage row")

/-- The lock as the code decodes it. -/
def WalletSettlementLock.parse (lock : WalletSettlementLock) : WalletSettlementLock :=
  { lock with
    reservedCredits := lock.reservedCredits.max .zero
    actualCredits := lock.actualCredits.max .zero }

def loadWalletSettlementLock (owner walletId : Id) : Code (Option WalletSettlementLock) := do
  match ← perform (.findWallet owner walletId) with
  | none => Prog.fail (.internal "billing wallet missing")
  | some wallet => return wallet.activeSettlement.map (·.parse)

/-- The exact arithmetic is checked before the database adds the amounts. -/
def BillingWallet.checkApply (wallet : BillingWallet) (lock : WalletSettlementLock) :
    Except AppError Unit := do
  let pending ← decodeCredits wallet.pendingLagoDebits
  let _ ← creditsOrError (pending.checkedAdd lock.actualCredits)
  let reserved ← decodeCredits wallet.reservedCredits
  let _ ← creditsOrError (reserved.checkedSub lock.reservedCredits)

def applyWalletSettlementLock (owner walletId : Id) (lock : WalletSettlementLock) :
    Code Unit :=
  if lock.applied then return
  else do
    match (← perform (.findWallet owner walletId)).filter fun (wallet : BillingWallet) =>
        (wallet.lockOf lock.rowId).any (! ·.applied) with
    | some wallet => checked (wallet.checkApply lock)
    | none => pure ()
    if ← perform (.updateWallet owner (some walletId) (.applySettlement lock)) then return
    else
      let active ← loadWalletSettlementLock owner walletId
      if active.any fun l => l.rowId = lock.rowId ∧ l.applied then return
      else if ← rowIs lock.rowId true then return
      else Prog.fail (.internal "billing wallet settlement lock missing for usage row")

def clearWalletSettlementLock (owner walletId row : Id) : Code Unit := do
  let _ ← perform (.updateWallet owner (some walletId) (.clearSettlement row))

def clearWalletSettlementLockAnyState (owner walletId row : Id) : Code Unit := do
  let _ ← perform (.updateWallet owner (some walletId) (.clearSettlementAnyState row))

/-- Any worker may finish the operation that the lock stands for. -/
def completeWalletSettlementLock (owner walletId : Id) (lock : WalletSettlementLock) :
    Code Unit := do
  applyWalletSettlementLock owner walletId lock
  match ← perform (.findRow lock.rowId) with
  | none => Prog.fail (.internal "usage row missing for ledger")
  | some row =>
    recordUsageSettled lock.rowId row lock.actualCredits
    let _ ← releaseSettledRow lock.rowId
    clearWalletSettlementLock owner walletId lock.rowId

def ensureWalletSettlementLock (owner walletId : Id) (lock : WalletSettlementLock) :
    ℕ → Code Unit
  | 0 => Prog.fail (.internal "billing wallet settlement lock busy")
  | n + 1 => do
    if ← perform (.updateWallet owner (some walletId) (.acquireSettlement lock)) then return
    else
      match ← loadWalletSettlementLock owner walletId with
      | none => ensureWalletSettlementLock owner walletId lock n
      | some active =>
        if active.rowId = lock.rowId then return
        else
          completeWalletSettlementLock owner walletId active
          ensureWalletSettlementLock owner walletId lock n

def finishWalletSettlement (owner walletId : Id) : Code Unit := do
  match ← loadWalletSettlementLock owner walletId with
  | some lock => completeWalletSettlementLock owner walletId lock
  | none => return

/-- A row released by another worker keeps no lock, whatever state it is in. -/
def dropSettlementLock (id : Id) (row : UsageMeterRow) : Code Bool :=
  match row.walletId with
  | some walletId => do
    clearWalletSettlementLockAnyState row.billingOwnerId walletId id
    return false
  | none => return false

/-- The journal entry, the release of the row and the end of its lock. -/
def finishSettledRow (id : Id) (row : UsageMeterRow) (actual : Credits) : Code Bool :=
  match row.walletId with
  | some walletId => do
    recordUsageSettled id row actual
    let released ← releaseSettledRow id
    clearWalletSettlementLock row.billingOwnerId walletId id
    return released
  | none => releaseSettledRow id

def applySettlementForRow (id : Id) (row : UsageMeterRow) (actual : Credits) : Code Bool := do
  if row.released then dropSettlementLock id row
  else if row.metric.isRuntimeAllocation ∧
      (actual.pico < 0 ∨ row.reservedCredits.pico < actual.pico) then
    Prog.fail (.internal "Machine runtime settlement exceeds its reserved wallet funds")
  else if ! (← rowIs id false) then dropSettlementLock id row
  else
    let lock := proposedLock id row actual
    match row.walletId.filter fun _ => lock.movesMoney with
    | some walletId =>
      ensureWalletSettlementLock row.billingOwnerId walletId lock settlementLockRetries
      if ! (← rowIs id false) then dropSettlementLock id row
      else
        applyWalletSettlementLock row.billingOwnerId walletId lock
        finishSettledRow id row actual
    | none => finishSettledRow id row actual

/-- Settles a finalized row: first its funding, then what it owes the wallet. -/
def claimReleasedAndSettle (id : Id) (row : UsageMeterRow) : Code Bool := do
  let funding ← settleUsageFunding id row
  applySettlementForRow id row funding.walletChargeCredits

/-- Whether an applied lock of the row was found and finished. -/
def finishAppliedLockBeforeDeadLetter (id : Id) (row : UsageMeterRow) : Code Bool := do
  match row.walletId with
  | none => return false
  | some walletId =>
    match (← perform (.findWallet row.billingOwnerId walletId)).bind
        fun (wallet : BillingWallet) => wallet.lockOf id with
    | none => return false
    | some lock =>
      if lock.applied then
        completeWalletSettlementLock row.billingOwnerId walletId lock.parse
        return true
      else
        clearWalletSettlementLockAnyState row.billingOwnerId walletId id
        return false

def recordSettlementFailure (id : Id) (row : UsageMeterRow) (now : Time) : Code Unit := do
  let attempt := row.settlementAttempts + 1
  if attempt ≥ maxSettlementAttempts then
    if ← finishAppliedLockBeforeDeadLetter id row then return
    else
      let _ ← perform (.updateRow id (.settlementFailure row.settlementAttempts none))
  else
    let next := now + settlementRetryBackoff attempt
    let _ ← perform (.updateRow id (.settlementFailure row.settlementAttempts (some next)))

def markExhaustedSettlementDeadLetter (id : Id) (row : UsageMeterRow) : Code Unit := do
  if ← finishAppliedLockBeforeDeadLetter id row then return
  else
    let _ ← perform (.updateRow id (.markExhausted row.settlementAttempts))

/-- A settlement attempt whose failure is counted on the row. -/
def settleOrRecordFailure (id : Id) (row : UsageMeterRow) : Code Unit := do
  match ← (claimReleasedAndSettle id row).attempt with
  | .ok _ => return
  | .error _ => recordSettlementFailure id row (← perform .now)

/-- What the retry sweep does for one of the rows that it finds. -/
def recoverRetryableSettlement (id : Id) : Code Unit := do
  let now ← perform .now
  match (← perform (.findRow id)).filter fun (row : UsageMeterRow) =>
      ¬ row.released ∧ row.quantity ≠ none ∧ settlementDue now row with
  | none => return
  | some row =>
    if row.settlementAttempts ≥ maxSettlementAttempts then
      markExhaustedSettlementDeadLetter id row
    else match ← perform (.updateRow id (.claimDue row.settlementAttempts)) with
      | none => return
      | some (_, claimed) => settleOrRecordFailure id claimed

def releaseWalletHold (owner : Id) (credits : Credits) : Code Unit := do
  if credits.pico ≤ 0 then return
  else
    let _ ← perform (.updateWallet owner none (.releaseHold credits))

/-- The row is released first; its hold and its benefits are given back after that. -/
def releaseOneUnforwardedRow (id : Id) (row : UsageMeterRow) (status : UsageStatus) :
    Code Unit := do
  if row.metric.isRuntimeAllocation then return
  else match ← perform (.updateRow id (.releaseUnforwarded status)) with
    | none => return
    | some (claimed, _) =>
      releaseWalletHold claimed.billingOwnerId claimed.reservedCredits
      releaseUsageReservations id claimed

end NyxId.Billing
