import NyxId.UsageMeter

/-!
Settlement intents of a billed request. Its usage is recorded on the coordinator row before
any row is finalized, so that a recovery sweep can go on after a crash, and rows of a pool
attempt without an intent are released in one transaction under snapshot isolation.
-/

namespace NyxId.SettlementIntent

open Interleave

/-- The text `<request>:<layer>`, with a component code behind it on the other rows. -/
structure TransactionId where
  request : Id
  layer : BillingLayer
  component : Option Id
  deriving DecidableEq

def transactionId (request : Id) (layer : BillingLayer) : TransactionId := ⟨request, layer, none⟩

structure ModelChargeVector where
  tariffId : Id
  publicModel : String
  quantities : List (Id × ℤ)
  deriving DecidableEq

structure PlatformUsage where
  modelCharges : Option ModelChargeVector := none
  requests : ℤ := 0
  bytes : ℤ := 0
  tokens : ℤ := 0
  inputTokens : ℤ := 0
  outputTokens : ℤ := 0
  cacheReadTokens : ℤ := 0
  cacheWriteTokens : ℤ := 0
  images : ℤ := 0
  voiceSeconds : ℤ := 0
  reportedModel : Option String := none
  deriving DecidableEq

def platformQuantity (metric : BillingMetric) (usage : PlatformUsage) : ℤ :=
  match metric with
  | .bytes => max usage.bytes 0
  | .requests => max usage.requests 0
  | .tokens => max usage.tokens 0
  | .inputTokens => max usage.inputTokens 0
  | .outputTokens => max usage.outputTokens 0
  | .cacheReadTokens => max usage.cacheReadTokens 0
  | .cacheWriteTokens => max usage.cacheWriteTokens 0
  | .images => max usage.images 0
  | .voiceSeconds => max usage.voiceSeconds 0
  | _ => 0

inductive PoolAttemptOutcome where
  | unsent
  | rejected
  | unknown
  | reported
  deriving DecidableEq

structure PoolAttempt where
  leaseUntil : Time
  outcome : Option PoolAttemptOutcome
  deriving DecidableEq

/-- The tariff of a model-priced row, with the evidence of its usage. -/
structure RowTariff where
  tariffId : Id
  publicModel : String
  maxQuantity : ℤ
  evidenceDigest : Option String
  evidence : Option ModelChargeVector
  deriving DecidableEq

structure MeterRow where
  billingRequestId : Id
  billingOwnerId : Id
  layer : BillingLayer
  transactionId : TransactionId
  metric : BillingMetric
  lagoMetricCode : Id
  status : UsageStatus
  released : Bool
  reservedCredits : ℤ
  quantity : Option ℤ
  model : Option String
  reportedModel : Option String
  pendingPlatformUsage : Option PlatformUsage
  pendingResaleQuantity : Option ℤ
  modelTariff : Option RowTariff
  poolAttempt : Option PoolAttempt
  lastError : Option String
  updatedAt : Time
  finalizedAt : Option Time
  deriving DecidableEq

/-- What has happened to the rows; nothing reads it back. -/
inductive Event where
  | recorded (request : Id) (usage : PlatformUsage) (resale : Option ℤ)
  | component (id : Id) (usage : PlatformUsage)
  | usageRemoved (request : Id)
  | resaleRemoved (request : Id)
  | released (id owner : Id) (amount : ℤ)
  | settledHold (owner : Id) (amount : ℤ)
  deriving DecidableEq

structure PoolRecoveryCursor where
  leaseUntil : Option Time
  rowId : Option Id

structure Store where
  rows : Collection Id MeterRow
  /-- The reserved credits of each owner's wallet. -/
  wallets : Collection Id ℤ
  cursor : Option PoolRecoveryCursor
  /-- The newest event first. -/
  history : List Event

def select (p : MeterRow → Bool) (s : Store) : List (Id × MeterRow) :=
  (s.rows.entries.map fun e => (e.1, e.2)).filter fun e => p e.2

def findTransaction (tid : TransactionId) (s : Store) : Option (Id × MeterRow) :=
  (select (fun row => row.transactionId = tid) s).head?

def Store.write (s : Store) (id : Id) (row : MeterRow) (events : List Event) : Store :=
  { s with rows := s.rows.insert id row, history := events ++ s.history }

/-- The values that a finalization writes. -/
structure Final where
  quantity : ℤ
  model : Option String
  reportedModel : Option String
  pendingResaleQuantity : Option ℤ
  finalizedAt : Time

def MeterRow.finalize (row : MeterRow) (f : Final) : MeterRow :=
  { row with
    status := .finalized
    quantity := some f.quantity
    released := false
    model := f.model
    reportedModel := f.reportedModel <|> row.reportedModel
    pendingResaleQuantity := f.pendingResaleQuantity <|> row.pendingResaleQuantity
    poolAttempt := row.poolAttempt.map fun attempt => { attempt with outcome := some .reported }
    updatedAt := f.finalizedAt
    finalizedAt := some f.finalizedAt }

variable (digest : ModelChargeVector → String)

/-- An intent is saved on a forwarded coordinator without one, under the same evidence. -/
def MeterRow.acceptsIntent (row : MeterRow) (usage : PlatformUsage) : Bool :=
  row.status = .forwarded && row.pendingPlatformUsage.isNone &&
    match usage.modelCharges with
    | some vector =>
      let saved := row.modelTariff.bind (·.evidenceDigest)
      saved = none || saved = some (digest vector)
    | none => true

def MeterRow.saveIntent (row : MeterRow) (usage : PlatformUsage) (resale : Option ℤ)
    (model : Option String) (now : Time) : MeterRow :=
  { row with
    pendingPlatformUsage := some usage
    pendingResaleQuantity := resale
    model := model
    updatedAt := now
    modelTariff := match usage.modelCharges with
      | some vector => row.modelTariff.map fun tariff =>
          { tariff with evidenceDigest := some (digest vector), evidence := some vector }
      | none => row.modelTariff }

def MeterRow.unresolved (row : MeterRow) : Bool :=
  !row.released && row.quantity.isNone && (row.status = .reserved || row.status = .forwarded)

def MeterRow.releaseUnknown (row : MeterRow) (outcome : PoolAttemptOutcome) (now : Time) : MeterRow :=
  { row with
    status := .abandoned
    released := true
    poolAttempt := row.poolAttempt.map fun attempt => { attempt with outcome := some outcome }
    lastError := some (match outcome with
      | .unsent => "pool_attempt_unsent"
      | .rejected => "pool_attempt_rejected"
      | _ => "pool_attempt_outcome_unknown")
    updatedAt := now
    finalizedAt := some now }

/-- The rows that a release would touch; none while a lease lasts or an intent is recorded. -/
def releasable (expiredAt : Option Time) (rows : List (Id × MeterRow)) : List (Id × MeterRow) :=
  if rows.any fun e => !e.2.released && expiredAt.any fun cutoff =>
      e.2.poolAttempt.all fun attempt => cutoff < attempt.leaseUntil then []
  else if rows.any fun e => e.2.pendingPlatformUsage.isSome || e.2.pendingResaleQuantity.isSome then []
  else rows.filter fun e => e.2.unresolved

/-- One row after the other gives back its hold and is marked. -/
def releaseRows (outcome : PoolAttemptOutcome) (now : Time) :
    List (Id × MeterRow) → Store → Except AppError Store
  | [], s => .ok s
  | (id, row) :: rest, s =>
    if 0 < row.reservedCredits then
      match s.wallets.lookup row.billingOwnerId with
      | some reserved =>
        if row.reservedCredits ≤ reserved then
          releaseRows outcome now rest
            ({ s with wallets := s.wallets.insert row.billingOwnerId (reserved - row.reservedCredits) }.write
              id (row.releaseUnknown outcome now)
              [.released id row.billingOwnerId row.reservedCredits])
        else .error (.internal "Pool reservation wallet release failed")
      | none => .error (.internal "Pool reservation wallet release failed")
    else
      releaseRows outcome now rest
        (s.write id (row.releaseUnknown outcome now) [.released id row.billingOwnerId 0])

/-- What a transaction read when it began. -/
structure Snapshot where
  rows : List (Id × MeterRow)
  wallets : Collection Id ℤ

/-- Documents that the transaction writes are as it read them. -/
def Snapshot.unchanged (snapshot : Snapshot) (writes : List (Id × MeterRow)) (s : Store) : Bool :=
  writes.all fun e => s.rows.lookup e.1 = some e.2 &&
    (e.2.reservedCredits ≤ 0 ||
      s.wallets.lookup e.2.billingOwnerId = snapshot.wallets.lookup e.2.billingOwnerId)

/-- The clock of a worker and how the settlement of one row ends. -/
structure Env where
  now : Time
  status : UsageStatus := .finalized
  released : Bool := true
  holdBack : ℤ := 0

inductive Op : Type → Type where
  | saveIntent (request : Id) (usage : PlatformUsage) (resale : Option ℤ) (model : Option String) :
      Op Unit
  | findTransaction (tid : TransactionId) : Op (Option (Id × MeterRow))
  | findRows (p : MeterRow → Bool) : Op (List (Id × MeterRow))
  | findFinalized (id : Id) : Op (Option MeterRow)
  | finalizeTransaction (tid : TransactionId) (final : Final) : Op (Option (Id × MeterRow))
  | finalizeComponent (id : Id) (usage : PlatformUsage) (final : Final) : Op (Option (Id × MeterRow))
  | resaleMaterialized (request : Id) (quantity : ℤ) (model : Option String) : Op Bool
  | unsetResale (id : Id) (quantity : ℤ) : Op Unit
  | unsetUsage (id : Id) : Op Unit
  | settleRow (id : Id) : Op Unit
  | beginRelease (request : Id) : Op Snapshot
  | commitRelease (snapshot : Snapshot) (outcome : PoolAttemptOutcome) (expiredAt : Option Time) :
      Op (Except AppError ℕ)
  | renewRow (id : Id) (leaseUntil : Time) : Op Unit
  | findCursor : Op (Option PoolRecoveryCursor)
  | saveCursor (cursor : PoolRecoveryCursor) : Op Unit
  | readClock : Op Time

/-- A settled row keeps its quantity; how its hold comes back is not decided here. -/
def MeterRow.settle (row : MeterRow) (env : Env) : MeterRow :=
  { row with
    status := if env.status = .failed ∨ env.status = .deadLetter then env.status else .finalized
    released := row.released || env.released
    updatedAt := env.now }

def exec (env : Env) : {β : Type} → Op β → Store → β × Store
  | _, .saveIntent request usage resale model, s =>
    match findTransaction (transactionId request .platform) s with
    | some (id, row) =>
      if row.acceptsIntent digest usage then
        ((), s.write id (row.saveIntent digest usage resale model env.now)
          [.recorded request usage resale])
      else ((), s)
    | none => ((), s)
  | _, .findTransaction tid, s => (SettlementIntent.findTransaction tid s, s)
  | _, .findRows p, s => (select p s, s)
  | _, .findFinalized id, s => ((s.rows.lookup id).filter fun row => row.quantity.isSome, s)
  | _, .finalizeTransaction tid final, s =>
    match SettlementIntent.findTransaction tid s with
    | some (id, row) =>
      if row.status = .forwarded then
        (some (id, row.finalize final), s.write id (row.finalize final) [])
      else (none, s)
    | none => (none, s)
  | _, .finalizeComponent id usage final, s =>
    match s.rows.lookup id with
    | some row =>
      if row.status = .forwarded then
        (some (id, row.finalize final), s.write id (row.finalize final) [.component id usage])
      else (none, s)
    | none => (none, s)
  | _, .resaleMaterialized request quantity model, s =>
    (!(select (fun row => row.billingRequestId = request && row.layer = .resale &&
      (row.status = .finalized || row.status = .failed || row.status = .deadLetter) &&
      row.quantity = some quantity && row.model = model) s).isEmpty, s)
  | _, .unsetResale id quantity, s =>
    match s.rows.lookup id with
    | some row =>
      if row.pendingResaleQuantity = some quantity then
        ((), s.write id { row with pendingResaleQuantity := none } [.resaleRemoved row.billingRequestId])
      else ((), s)
    | none => ((), s)
  | _, .unsetUsage id, s =>
    match s.rows.lookup id with
    | some row =>
      ((), s.write id { row with pendingPlatformUsage := none } [.usageRemoved row.billingRequestId])
    | none => ((), s)
  | _, .settleRow id, s =>
    match s.rows.lookup id with
    | some row =>
      if row.quantity.isSome then
        let settled := s.write id (row.settle env) [.settledHold row.billingOwnerId env.holdBack]
        ((), { settled with wallets := match s.wallets.lookup row.billingOwnerId with
          | some reserved => s.wallets.insert row.billingOwnerId (reserved - env.holdBack)
          | none => s.wallets })
      else ((), s)
    | none => ((), s)
  | _, .beginRelease request, s =>
    (⟨select (fun row => row.billingRequestId = request && row.poolAttempt.isSome) s, s.wallets⟩, s)
  | _, .commitRelease snapshot outcome expiredAt, s =>
    let writes := releasable expiredAt snapshot.rows
    if snapshot.unchanged writes s then
      match releaseRows outcome env.now writes s with
      | .ok t => (.ok writes.length, t)
      | .error e => (.error e, s)
    else (.error .database, s)
  | _, .renewRow id leaseUntil, s =>
    match s.rows.lookup id with
    | some row =>
      if !row.released && row.poolAttempt.any fun attempt => env.now < attempt.leaseUntil then
        ((), s.write id { row with poolAttempt := row.poolAttempt.map fun attempt =>
          { attempt with leaseUntil := max attempt.leaseUntil leaseUntil } } [])
      else ((), s)
    | none => ((), s)
  | _, .findCursor, s => (s.cursor, s)
  | _, .saveCursor cursor, s => ((), { s with cursor := some cursor })
  | _, .readClock, s => (env.now, s)

end NyxId.SettlementIntent
