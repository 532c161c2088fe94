import NyxId.Billing.Admission

/-!
The other transactions over rows, wallets and the ledger: the release of a pool
attempt, the cancellation of a managed execution, the provider's balance snapshot,
and the check that compares wallets with their journal.
-/

namespace NyxId.Billing

open Interleave

/-- Gives the hold of a row back to the wallet inside a transaction. -/
def returnHold (now : Time) (owner : Id) (walletId : Option Id) (credits : Credits)
    (refused : AppError) (s : Store) : Except AppError Store :=
  if credits.pico ≤ 0 then .ok s
  else match s.wallets.lookup owner with
    | some wallet =>
      if walletId.all (· = wallet.id) ∧ credits.pico ≤ wallet.reservedCredits then
        let returned := { wallet with
          reservedCredits := wallet.reservedCredits - credits.pico
          updatedAt := now }
        .ok { s with wallets := s.wallets.insert owner returned }
      else .error refused
    | none => .error refused

def poolReleaseFailed : AppError := .internal "Pool reservation wallet release failed"

/-- Every unresolved row of the attempt is abandoned together with its hold. -/
def releaseUnknownRows (now : Time) : List (Id × UsageMeterRow) → Store →
    Except AppError (ℕ × Store)
  | [], s => .ok (0, s)
  | (id, row) :: rest, s =>
    if row.released ∨ row.quantity.isSome ∨
        ¬ (row.status = .reserved ∨ row.status = .forwarded) then
      releaseUnknownRows now rest s
    else do
      let s ← returnHold now row.billingOwnerId none row.reservedCredits poolReleaseFailed s
      let abandoned := { row with
        status := .abandoned
        released := true
        updatedAt := now
        finalizedAt := some now }
      let (released, s) ← releaseUnknownRows now rest
        { s with rows := s.rows.insert id abandoned }
      return (released + 1, s)

def poolRows (s : Store) (request : Id) : List (Id × UsageMeterRow) :=
  (s.rows.entries.map fun e => (e.1, e.2)).filter fun r =>
    r.2.billingRequestId = request ∧ r.2.poolLeaseUntil.isSome

/-- A pending settlement intent, or a lease renewed past the cutoff, takes precedence. -/
def releaseUnknownRequest (env : Env) (request : Id) (expiredAt : Option Time) (s : Store) :
    Except AppError (ℕ × Store) :=
  let rows := poolRows s request
  if env.refused ∨ rows.any (fun r =>
      ! r.2.released && expiredAt.any fun cutoff => r.2.poolLeaseUntil.all (cutoff < ·)) then
    .ok (0, s)
  else releaseUnknownRows env.now rows s

def managedUnavailable : AppError := .billingNotConfigured
  "Managed execution requires a complete synced tariff and bounded platform admission"

/-- The rows of a managed execution that was proven not to have been sent. -/
def cancelManagedRows (now : Time) (execution : Id) (provenUnsent : Bool) : List Id → Store →
    Except AppError Store
  | [], s => .ok s
  | id :: rest, s =>
    match (s.rows.lookup id).filter (·.managedExecution = some execution) with
    | none => .error managedUnavailable
    | some meter =>
      if meter.released then cancelManagedRows now execution provenUnsent rest s
      else
        let rejectedForwarding := provenUnsent && meter.forwarded &&
          decide (meter.status = .forwarded)
        if ¬ rejectedForwarding ∧ (meter.forwarded ∨ meter.status ≠ .reserved) then
          .error managedUnavailable
        else if meter.quantity ≠ none ∨ (0 < meter.reservedCredits.pico ∧ meter.walletId = none) then
          .error managedUnavailable
        else do
          let s ← returnHold now meter.billingOwnerId meter.walletId meter.reservedCredits
            managedUnavailable s
          let cancelled := { meter with
            released := true
            forwarded := false
            status := .failed
            updatedAt := now
            finalizedAt := some now }
          cancelManagedRows now execution provenUnsent rest
            { s with rows := s.rows.insert id cancelled }

/-- Whether another attempt of the same request already opened its rows. -/
def completeFundedMeter (s : Store) (ctx : BillingRouteContext) : Except AppError Bool :=
  let wanted := ctx.rows 0 ⟨ctx.billingOwnerId, 0, .zero, []⟩
  let rows := (s.rows.entries.map (·.2)).filter fun row =>
    wanted.any fun w => transactionId w = transactionId row
  if wanted = [] ∨ rows = [] then .ok false
  else if rows.any fun row => row.billingOwnerId ≠ ctx.billingOwnerId ∨
      row.serviceId ≠ ctx.catalogServiceId ∨ row.serviceSlug ≠ ctx.serviceSlug ∨
      row.managedExecution ≠ ctx.managedExecution then
    .error (.conflict "Billing request identity changed")
  else if rows.any (·.funding.isNone) then
    .error (.conflict "Incomplete funding record; retry with a fresh billing request id")
  else if rows.length = wanted.length ∧ rows.all (fun row =>
      row.status = .reserved ∨ row.status = .forwarded ∨ row.status = .finalized) then
    .ok true
  else .error (.conflict
    "billing request id belongs to released or incomplete usage; retry with a fresh billing request id")

structure WalletRefreshOutcome where
  ownerId : Id
  balanceCredits : Credits
  pendingDebitsCleared : Bool
  deriving DecidableEq

/-- No finalized row of the owner is still to be acknowledged by the provider. -/
def pendingClear (s : Store) (owner : Id) : Bool :=
  ! s.rows.entries.any fun e => e.2.billingOwnerId = owner ∧ e.2.status = .finalized ∧
    e.2.walletId.isSome ∧ ¬ e.2.lagoAcked

def topupExpiredEntry (owner void : Id) (item : PurchasedCreditExpiryItem) :
    BillingLedgerEntry where
  seq := 0
  movement := .topupExpired
  ownerId := owner
  referenceId := item.referenceId
  dedupeKey := .topupExpired item.referenceId void
  postings := transfer .writeoffTopupExpired (.wallet owner) item.amount

def appendExpiryItems (owner void : Id) : List PurchasedCreditExpiryItem → Ledger →
    Except AppError Ledger
  | [], l => .ok l
  | item :: rest, l => do
    appendExpiryItems owner void rest (← l.append (topupExpiredEntry owner void item))

/-- The nonce stands for an identifier drawn for this entry alone. -/
def walletAdjustedEntry (owner walletId : Id) (nonce : ℕ) (adjustment : Credits) :
    Except AppError BillingLedgerEntry := do
  let postings ←
    if 0 < adjustment.pico then pure (transfer (.wallet owner) .externalLago adjustment)
    else do
      let negated ← creditsOrError (Credits.zero.checkedSub adjustment)
      pure (transfer .externalLago (.wallet owner) negated)
  return {
    seq := 0
    movement := .walletAdjusted
    ownerId := owner
    referenceId := walletId
    dedupeKey := .walletAdjusted nonce
    postings := postings }

/-- The worker's expiry operation is the wallet's, and its balance is still to be applied. -/
def expiryMatches (wallet : BillingWallet) (expiry : Option PurchasedCreditExpiryOperation) :
    Bool :=
  match expiry with
  | some op => wallet.activeTopupExpiry.any fun current =>
      current.operationId = op.operationId ∧ current.processingToken = op.processingToken ∧
        ¬ current.walletBalanceApplied
  | none => wallet.activeTopupExpiry.isNone

def appendExpiry (owner : Id) (expiry : Option PurchasedCreditExpiryOperation) (l : Ledger) :
    Except AppError Ledger :=
  match expiry with
  | none => .ok l
  | some op =>
    match op.lagoVoidTransactionId with
    | none => .error (.internal "expiry has no provider receipt")
    | some void => appendExpiryItems owner void op.items l

def appendAdjustment (owner walletId : Id) (adjustment : Credits) (l : Ledger) :
    Except AppError Ledger :=
  if adjustment = .zero then .ok l
  else do l.append (← walletAdjustedEntry owner walletId l.nextSeq adjustment)

/-- Takes the provider's balance over and posts the difference to the journal. -/
def applyProviderSnapshot (env : Env) (owner walletId : Id) (balance : Credits)
    (expiry : Option PurchasedCreditExpiryOperation) (s : Store) :
    Except AppError (Option WalletRefreshOutcome × Store) :=
  match (s.wallet owner walletId).filter (·.activeSettlement.isNone) with
  | none => .ok (none, s)
  | some wallet =>
    if ¬ expiryMatches wallet expiry then .ok (none, s)
    else do
      let clear := pendingClear s owner
      let oldPending ← decodeCredits wallet.pendingLagoDebits
      let pending := if clear then .zero else oldPending
      let before ← creditsOrError (wallet.balanceCredits.checkedSub oldPending)
      let after ← creditsOrError (balance.checkedSub pending)
      let expired := (expiry.map (·.amount)).getD .zero
      let change ← creditsOrError (after.checkedSub before)
      let adjustment ← creditsOrError (change.checkedAdd expired)
      let ledger ← appendExpiry owner expiry s.ledger
      let ledger ← appendAdjustment owner walletId adjustment ledger
      let synced := { wallet with
        balanceCredits := balance
        pendingLagoDebits := pending.pico
        pendingTopupExpiryCredits :=
          if expiry.isSome then .zero else wallet.pendingTopupExpiryCredits
        activeTopupExpiry :=
          if expiry.isSome then
            wallet.activeTopupExpiry.map fun o => { o with walletBalanceApplied := true }
          else wallet.activeTopupExpiry
        updatedAt := env.now }
      return (some {
        ownerId := owner
        balanceCredits := balance
        pendingDebitsCleared := clear && decide (oldPending ≠ .zero) },
        { s with wallets := s.wallets.insert owner synced, ledger := ledger })

/-- Locks and markers are work in progress; such a wallet is checked on a later pass. -/
def deferred (wallet : BillingWallet) : Bool :=
  wallet.activeSettlement.isSome || wallet.activeTopupExpiry.isSome

/-- The account check of one wallet: whether it reports a mismatch. -/
def walletMismatch (s : Store) (owner : Id) : Except AppError Bool :=
  match s.wallets.lookup owner with
  | none => .ok false
  | some wallet =>
    if deferred wallet then .ok false
    else do
      let pending ← decodeCredits wallet.pendingLagoDebits
      let stored ← creditsOrError (wallet.balanceCredits.checkedSub pending)
      let (posted, through) := s.ledger.checkpoint (.wallet owner)
      return decide (stored ≠ posted) || decide (through ≠ s.ledger.latestSeq (.wallet owner))

/-- Runs a transaction body; an error leaves the store alone. -/
def transact {α : Type} (body : Store → Except AppError (α × Store)) (s : Store) :
    Except AppError α × Store :=
  match body s with
  | .ok (a, t) => (.ok a, t)
  | .error e => (.error e, s)

/-!
The atomic operations that billing workers perform: reads, conditional updates
and transactions, each on the documents as they are at that moment.
-/

inductive Op : Type → Type where
  | now : Op Time
  | workerId : Op ℕ
  | findRow (id : Id) : Op (Option UsageMeterRow)
  | updateRow (id : Id) (u : RowUpdate) : Op (Option (UsageMeterRow × UsageMeterRow))
  | claimFunding (id : Id) : Op (Option UsageMeterRow)
  | freezeRate (id : Id) (rate : Credits) : Op Bool
  | settleWithoutWallet (id : Id) (claim : ClaimId) (fields : SettlementFields) : Op Bool
  | commitCarry (id : Id) (row : UsageMeterRow) (wallet rate : Credits)
      (fields : SettlementFields) : Op (Except AppError FundingSettlement)
  | findRate (lagoMetricCode : Id) : Op (Option BillingRateCache)
  | setRate (lagoMetricCode : Id) (rate : BillingRateCache) : Op Unit
  | taxRate : Op (Option Credits)
  | findWallet (owner walletId : Id) : Op (Option BillingWallet)
  | updateWallet (owner : Id) (walletId : Option Id) (u : WalletUpdate) : Op Bool
  | findPeriod (id : Id) : Op (Option UsageAllowancePeriod)
  | lockedPeriods (row : Option Id) : Op (List (Id × UsageAllowancePeriod))
  | updatePeriod (id : Id) (u : PeriodUpdate) : Op Bool
  | applicableAllowances (owner : Id) (serviceId serviceSlug : Option Id)
      (metric : BillingMetric) : Op (List (Id × UsageAllowance))
  | ensureCurrentPeriod (allowanceId : Id) (allowance : UsageAllowance) (owner : Id)
      (now : Time) : Op Unit
  | setAllowance (id : Id) (allowance : UsageAllowance) : Op Unit
  | findGrant (id : Id) : Op (Option CreditGrant)
  | lockedGrants (row : Option Id) : Op (List (Id × CreditGrant))
  | activeGrants (owner : Id) (now : Time) : Op (List (Id × CreditGrant))
  | updateGrant (id : Id) (u : GrantUpdate) : Op (Option CreditGrant)
  | insertGrant (id : Id) (grant : CreditGrant) : Op (Except AppError Unit)
  | lockAllowance (row : Id) (claim : Option ClaimId) (release : Bool) (period : Id)
      (lock : AllowanceSettlementLock) (honorReservation : Bool) :
      Op (Except AppError (Bool × Bool))
  | lockGrant (row : Id) (claim : Option ClaimId) (release : Bool) (grant : Id)
      (lock : CreditGrantSettlementLock) (honorReservation : Bool) :
      Op (Except AppError (Bool × Bool))
  | reserve (ctx : BillingRouteContext) (walletId : Id) (subscription : Option Id)
      (layers : List (LayerReservation × List Id)) (grants : List Id) :
      Op (Except AppError BillingReservation)
  | reserveWindow (window : RuntimeWindow) : Op (Except AppError BillingReservation)
  | completeFundedMeter (ctx : BillingRouteContext) : Op (Except AppError Bool)
  | releaseUnknown (request : Id) (expiredAt : Option Time) : Op (Except AppError ℕ)
  | cancelManaged (execution : Id) (provenUnsent : Bool) (rows : List Id) :
      Op (Except AppError Unit)
  | poolRows (request : Id) : Op (List (Id × UsageMeterRow))
  | appendLedger (entry : BillingLedgerEntry) : Op (Except AppError Unit)
  | dedupeExists (key : DedupeKey) : Op Bool
  | providerSnapshot (owner walletId : Id) (balance : Credits)
      (expiry : Option PurchasedCreditExpiryOperation) :
      Op (Except AppError (Option WalletRefreshOutcome))

/-- The locks of a resource that name a row, or all of them. -/
def lockNames {Lock : Type} (usageRowId : Lock → Id) (row : Option Id) (lock : Option Lock) :
    Bool :=
  lock.any fun l => row.all (· = usageRowId l)

namespace Store

def lockedPeriods (s : Store) (row : Option Id) : List (Id × UsageAllowancePeriod) :=
  (s.periods.entries.map fun e => (e.1, e.2)).filter fun p =>
    lockNames (·.usageRowId) row p.2.activeSettlement

def lockedGrants (s : Store) (row : Option Id) : List (Id × CreditGrant) :=
  (s.grants.entries.map fun e => (e.1, e.2)).filter fun g =>
    lockNames (·.usageRowId) row g.2.activeSettlement

def applicableAllowances (s : Store) (owner : Id) (serviceId serviceSlug : Option Id)
    (metric : BillingMetric) : List (Id × UsageAllowance) :=
  ((s.allowances.entries.map fun e => (e.1, e.2)).filter fun a =>
    a.2.isActive ∧ a.2.metric = metric ∧
      (serviceId = some a.2.serviceId ∨ serviceSlug = some a.2.serviceSlug) ∧
      a.2.targets.all (owner ∈ ·)).insertionSort fun a b => a.2.createdAt ≤ b.2.createdAt

end Store

/-- The carry operations are part of these operations. -/
def Op.ofCarry : {β : Type} → LagoCarry.Op β → Op β
  | _, .claimRow id => .claimFunding id
  | _, .freezeRate id rate => .freezeRate id rate
  | _, .findRow id => .findRow id
  | _, .settleWithoutWallet id claim fields => .settleWithoutWallet id claim fields
  | _, .commit id row wallet rate fields => .commitCarry id row wallet rate fields

/-- What each operation answers and what it makes of the store. -/
def exec (digest : LagoCarry.Digest) (w : ℕ) (env : Env) : {β : Type} → Op β → Store → β × Store
  | _, .now, s => (env.now, s)
  | _, .workerId, s => (w, s)
  | _, .findRow id, s => (s.rows.lookup id, s)
  | _, .updateRow id u, s => s.updateRow w env.now id u
  | _, .claimFunding id, s => s.carry digest w env (.claimRow id)
  | _, .freezeRate id rate, s => s.carry digest w env (.freezeRate id rate)
  | _, .settleWithoutWallet id claim fields, s =>
    s.carry digest w env (.settleWithoutWallet id claim fields)
  | _, .commitCarry id row wallet rate fields, s =>
    s.carry digest w env (.commit id row wallet rate fields)
  | _, .findRate code, s => (s.rates.lookup code, s)
  | _, .setRate code rate, s => ((), { s with rates := s.rates.insert code rate })
  | _, .taxRate, s => (env.taxRate, s)
  | _, .findWallet owner walletId, s => (s.wallet owner walletId, s)
  | _, .updateWallet owner walletId u, s => s.updateWallet w env.now owner walletId u
  | _, .findPeriod id, s => (s.periods.lookup id, s)
  | _, .lockedPeriods row, s => (s.lockedPeriods row, s)
  | _, .updatePeriod id u, s => s.updatePeriod id u
  | _, .applicableAllowances owner serviceId serviceSlug metric, s =>
    (s.applicableAllowances owner serviceId serviceSlug metric, s)
  | _, .ensureCurrentPeriod id allowance owner now, s =>
    ((), s.ensureCurrentPeriod id allowance owner now)
  | _, .setAllowance id allowance, s =>
    ((), { s with allowances := s.allowances.insert id allowance })
  | _, .findGrant id, s => (s.grants.lookup id, s)
  | _, .lockedGrants row, s => (s.lockedGrants row, s)
  | _, .activeGrants owner now, s => (s.activeGrants owner now, s)
  | _, .updateGrant id u, s => s.updateGrant env.now id u
  | _, .insertGrant id grant, s =>
    if (s.grants.lookup id).isSome then (.error .duplicateKey, s)
    else (.ok (), { s with grants := s.grants.insert id grant })
  | _, .lockAllowance row claim release id lock honor, s =>
    s.lockAllowance env.now row claim release id lock honor
  | _, .lockGrant row claim release id lock honor, s =>
    s.lockGrant env.now row claim release id lock honor
  | _, .reserve ctx walletId subscription layers grants, s =>
    transact (reserveTransaction env ctx walletId subscription layers grants) s
  | _, .reserveWindow window, s => transact (reserveRuntimeWindow env window) s
  | _, .completeFundedMeter ctx, s => (completeFundedMeter s ctx, s)
  | _, .releaseUnknown request expiredAt, s =>
    transact (releaseUnknownRequest env request expiredAt) s
  | _, .cancelManaged execution provenUnsent rows, s =>
    transact (fun s => do
      return ((), ← cancelManagedRows env.now execution provenUnsent rows s)) s
  | _, .poolRows request, s => (poolRows s request, s)
  | _, .appendLedger entry, s => s.appendLedger entry
  | _, .dedupeExists key, s => (s.ledger.dedupeExists key, s)
  | _, .providerSnapshot owner walletId balance expiry, s =>
    transact (applyProviderSnapshot env owner walletId balance expiry) s

abbrev Code := Prog Op AppError

def perform {β : Type} (o : Op β) : Code β := Prog.perform o

/-- The answer of a transaction, or its error. -/
def commit {β : Type} (o : Op (Except AppError β)) : Code β := do
  match ← perform o with
  | .ok b => return b
  | .error e => Prog.fail e

/-- The value of checked arithmetic, or its error. -/
def checked {β : Type} (x : Except AppError β) : Code β := Prog.ret x

end NyxId.Billing
