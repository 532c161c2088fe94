import NyxId.SettlementIntent.Model

/-!
The code of the workers: saving an intent, finalizing the rows of a request one by one,
sweeping intents that a crash left behind, and giving back what was never reported.
-/

namespace NyxId.SettlementIntent

open Interleave Machine

abbrev Code := Prog Op AppError

/-- The tariff selected for a model-priced request. -/
structure SelectedTariff where
  tariffId : Id
  publicModel : String
  components : List (Id × ℤ)
  /-- Whether the charges are those computed from the native usage they carry. -/
  normalized : ModelChargeVector → Bool

structure BillingRouteContext where
  billingRequestId : Id
  platformMetered : Bool
  platformMetric : BillingMetric
  hasComponents : Bool
  resale : Bool
  modelTariff : Option SelectedTariff

def unavailable (reason : String) : AppError :=
  .billingProviderUnavailable ("Model tariff unavailable: " ++ reason)

/-- Usage of a model-priced request has the evidence of its own tariff; other usage has none. -/
def checkUsage (ctx : BillingRouteContext) (platform : PlatformUsage) : Except AppError Unit :=
  match ctx.modelTariff with
  | some selected =>
    match platform.modelCharges with
    | none => .error (unavailable "missing_usage_evidence")
    | some vector =>
      if !selected.normalized vector then .error (unavailable "invalid_normalized_usage")
      else if vector.tariffId ≠ selected.tariffId ∨ vector.publicModel ≠ selected.publicModel ∨
          vector.quantities.length ≠ selected.components.length ∨
          (selected.components.any fun component =>
            (vector.quantities.lookup component.1).all fun n => n < 0 || component.2 < n) ∨
          platform.reportedModel.isSome then
        .error (unavailable "invalid_usage_evidence")
      else .ok ()
  | none =>
    if platform.modelCharges.isSome then .error (unavailable "unexpected_model_usage") else .ok ()

/-- The quantity that a component intent gives one row. -/
def componentQuantity (usage : PlatformUsage) (row : MeterRow) : ℤ :=
  match usage.modelCharges with
  | some vector => (vector.quantities.lookup row.lagoMetricCode).getD 0
  | none => platformQuantity row.metric usage

/-- The rows are those that the recorded evidence is about. -/
def checkIdentity (usage : PlatformUsage) (rows : List (Id × MeterRow)) : Except AppError Unit :=
  match usage.modelCharges with
  | some vector =>
    if rows.length ≠ vector.quantities.length ∨ (rows.any fun e =>
        e.2.modelTariff.all fun tariff => tariff.tariffId ≠ vector.tariffId ||
          tariff.publicModel ≠ vector.publicModel ||
          (vector.quantities.lookup e.2.lagoMetricCode).all fun n => n < 0 || tariff.maxQuantity < n) then
      .error (unavailable "durable_usage_identity_mismatch")
    else .ok ()
  | none =>
    if rows.any fun e => e.2.modelTariff.isSome then .error (unavailable "missing_durable_usage")
    else .ok ()

def MeterRow.settlementTime (row : MeterRow) : Time := row.finalizedAt.getD row.updatedAt

def clearPendingResaleIntent (id request : Id) (quantity : ℤ) (model : Option String) :
    Code Unit := do
  if ← Prog.perform (.resaleMaterialized request quantity model) then
    Prog.perform (.unsetResale id quantity)
  else Prog.fail (.internal "billing resale settlement intent was not materialized")

def materializePendingResaleIntent (coordinator : Id × MeterRow) :
    Code (Option (Id × MeterRow)) :=
  match coordinator.2.pendingResaleQuantity with
  | none => return none
  | some quantity => do
    let materialized ← Prog.perform (.finalizeTransaction
      (transactionId coordinator.2.billingRequestId .resale)
      ⟨quantity, coordinator.2.model, coordinator.2.reportedModel, none,
        coordinator.2.settlementTime⟩)
    clearPendingResaleIntent coordinator.1 coordinator.2.billingRequestId quantity
      coordinator.2.model
    return materialized

/-- One row after the other; another worker may have finalized a row since it was read. -/
def finalizeComponents (coordinator : Id × MeterRow) (usage : PlatformUsage) :
    List (Id × MeterRow) → Code (List (Id × MeterRow))
  | [] => return []
  | (id, row) :: rest => do
    match ← Prog.perform (.finalizeComponent id usage ⟨componentQuantity usage row,
        coordinator.2.model, usage.reportedModel, none, coordinator.2.settlementTime⟩) with
    | some finalized => do
      let others ← finalizeComponents coordinator usage rest
      return finalized :: others
    | none =>
      match ← Prog.perform (.findFinalized id) with
      | some fresh => do
        let others ← finalizeComponents coordinator usage rest
        return (id, fresh) :: others
      | none => Prog.fail (.internal "component settlement intent could not be materialized")

def materializeComponentIntent (coordinator : Id × MeterRow) : Code (List (Id × MeterRow)) :=
  match coordinator.2.pendingPlatformUsage with
  | none => return []
  | some usage => do
    let rows ← Prog.perform (.findRows fun row =>
      row.billingRequestId = coordinator.2.billingRequestId && row.layer = .platform)
    match checkIdentity usage rows with
    | .error e => Prog.fail e
    | .ok () => do
      let finalized ← finalizeComponents coordinator usage rows
      let resale ← materializePendingResaleIntent coordinator
      Prog.perform (.unsetUsage coordinator.1)
      let materialized := finalized ++ resale.toList
      -- unused holds are released before funds are taken
      return (materialized.filter fun e => !decide (0 < e.2.quantity.getD 0)) ++
        materialized.filter fun e => decide (0 < e.2.quantity.getD 0)

variable (digest : ModelChargeVector → String)

def saveComponentIntent (ctx : BillingRouteContext) (platform : PlatformUsage)
    (resale : Option ℤ) (model : Option String) : Code (Option (Id × MeterRow)) := do
  Prog.perform (.saveIntent ctx.billingRequestId platform
    (if ctx.resale then resale.map (max · 0) else none) model)
  let saved ← Prog.perform (.findTransaction (transactionId ctx.billingRequestId .platform))
  match platform.modelCharges with
  | none => return saved
  | some vector =>
    match saved with
    | none => Prog.fail (unavailable "missing_meter")
    | some coordinator =>
      if (coordinator.2.modelTariff.bind (·.evidenceDigest)) = some (digest vector) then
        return some coordinator
      else Prog.fail (.conflict "Model usage evidence changed")

/-- The coordinator just finalized, or the one that an earlier call left an intent on. -/
def resaleCoordinator (request : Id) : Option (Id × MeterRow) → Code (Option (Id × MeterRow))
  | some row => return some row
  | none => do
    let rows ← Prog.perform (.findRows fun row => row.billingRequestId = request &&
      row.layer = .platform && row.pendingResaleQuantity.isSome)
    return rows.head?

/-- A request without components finalizes its two layers on their own. -/
def persistLayers (ctx : BillingRouteContext) (platform : PlatformUsage) (resale : Option ℤ)
    (model : Option String) : Code (List (Id × MeterRow)) := do
  let now ← Prog.perform .readClock
  let request := ctx.billingRequestId
  let platformTid := transactionId request .platform
  let layer (quantity : ℤ) (pending : Option ℤ) : Final :=
    ⟨quantity, model, platform.reportedModel, pending, now⟩
  match (if ctx.platformMetered then some (platformQuantity ctx.platformMetric platform) else none),
      (if ctx.resale then resale.map (max · 0) else none) with
  | some platformQuantity, some resaleQuantity => do
    let finalized ← Prog.perform (.finalizeTransaction platformTid
      (layer platformQuantity (some resaleQuantity)))
    match ← resaleCoordinator request finalized with
    | some coordinator => do
      let row ← materializePendingResaleIntent coordinator
      return finalized.toList ++ row.toList
    | none => return finalized.toList
  | some platformQuantity, none => do
    let finalized ← Prog.perform (.finalizeTransaction platformTid (layer platformQuantity none))
    return finalized.toList
  | none, some resaleQuantity => do
    let finalized ← Prog.perform (.finalizeTransaction (transactionId request .resale)
      (layer resaleQuantity none))
    return finalized.toList
  | none, none => return []

def persistSettlementIntent (ctx : BillingRouteContext) (platform : PlatformUsage)
    (resale : Option ℤ) (model : Option String) : Code (List (Id × MeterRow)) :=
  match checkUsage ctx platform with
  | .error e => Prog.fail e
  | .ok () =>
    let model := (ctx.modelTariff.map (·.publicModel)) <|> model
    if ctx.platformMetered && (ctx.hasComponents || ctx.modelTariff.isSome) then do
      match ← saveComponentIntent digest ctx platform resale model with
      | some coordinator => materializeComponentIntent coordinator
      | none => return []
    else persistLayers ctx platform resale model

def settlePersisted : List (Id × MeterRow) → Code Unit
  | [] => return
  | (id, _) :: rest => do
    Prog.perform (.settleRow id)
    settlePersisted rest

def recoverComponentIntents : List (Id × MeterRow) → Code Unit
  | [] => return
  | coordinator :: rest => do
    let rows ← materializeComponentIntent coordinator
    settlePersisted rows
    recoverComponentIntents rest

def recoverResaleIntents : List (Id × MeterRow) → Code Unit
  | [] => return
  | coordinator :: rest => do
    let _ ← materializePendingResaleIntent coordinator
    recoverResaleIntents rest

def intentRecoveryBatchSize : ℕ := 100

def recoverPendingResaleIntents : Code Unit := do
  let components ← Prog.perform (.findRows fun row => row.pendingPlatformUsage.isSome)
  recoverComponentIntents (components.take intentRecoveryBatchSize)
  let coordinators ← Prog.perform (.findRows fun row =>
    row.layer = .platform && row.pendingResaleQuantity.isSome)
  recoverResaleIntents (coordinators.take intentRecoveryBatchSize)

/-- The release transaction, begun again after a conflict. -/
def releaseUnknownRequest (request : Id) (outcome : PoolAttemptOutcome) (expiredAt : Option Time) :
    ℕ → Code ℕ
  | 0 => Prog.fail .database
  | attempts + 1 => do
    let snapshot ← Prog.perform (.beginRelease request)
    match ← Prog.perform (.commitRelease snapshot outcome expiredAt) with
    | .ok released => return released
    | .error .database => releaseUnknownRequest request outcome expiredAt attempts
    | .error e => Prog.fail e

def provided (condition : Bool) (code : Code Unit) : Code Unit := if condition then code else return

def finishComponents (row : Id × MeterRow) : Code Unit := do
  let materialized ← materializeComponentIntent row
  settlePersisted materialized

def finishResale (row : Id × MeterRow) : Code Unit := do
  let materialized ← materializePendingResaleIntent row
  settlePersisted materialized.toList

/-- What intents and quantities say about the rows comes before any release. -/
def finishRows : List (Id × MeterRow) → Code Unit
  | [] => return
  | (id, row) :: rest => do
    provided row.pendingPlatformUsage.isSome (finishComponents (id, row))
    provided row.pendingResaleQuantity.isSome (finishResale (id, row))
    provided (row.quantity.isSome && !row.released) (settlePersisted [(id, row)])
    finishRows rest

def finish (request : Id) (outcome : PoolAttemptOutcome) (attempts : ℕ) : Code Unit := do
  let rows ← Prog.perform (.findRows fun row =>
    row.billingRequestId = request && row.poolAttempt.isSome)
  finishRows rows
  let _ ← releaseUnknownRequest request outcome none attempts
  return

/-- A failed release is recorded and the sweep goes on. -/
def releaseExpired (now : Time) (attempts : ℕ) : List Id → Code Unit
  | [] => return
  | request :: rest => do
    let _ ← (releaseUnknownRequest request .unknown (some now) attempts).attempt
    releaseExpired now attempts rest

/-- Rows after the cursor, in the order of their leases. -/
def expiredPage (cursor : Option PoolRecoveryCursor) (rows : List (Id × MeterRow)) :
    List (Id × MeterRow) :=
  let lease (e : Id × MeterRow) : Time := (e.2.poolAttempt.map (·.leaseUntil)).getD 0
  let after := match cursor.bind fun c => c.leaseUntil.bind fun t => c.rowId.map fun id => (t, id) with
    | some (t, id) => rows.filter fun e => t < lease e || (lease e = t && id < e.1)
    | none => rows
  (after.mergeSort fun e e' => lease e < lease e' || (lease e = lease e' && e.1 ≤ e'.1)).take 100

def recoverExpired (now : Time) (attempts : ℕ) : Code Unit := do
  let cursor ← Prog.perform .findCursor
  let rows ← Prog.perform (.findRows fun row => !row.released && row.poolAttempt.any fun attempt =>
    attempt.leaseUntil ≤ now)
  let page := expiredPage cursor rows
  let requests := ((page.filter fun e => e.2.quantity.isNone).map (·.2.billingRequestId)).dedup
  releaseExpired now attempts requests
  Prog.perform (.saveCursor ⟨page.getLast?.bind fun e => e.2.poolAttempt.map (·.leaseUntil),
    page.getLast?.map (·.1)⟩)

def renewRows (leaseUntil : Time) : List (Id × MeterRow) → Code Unit
  | [] => return
  | (id, _) :: rest => do
    Prog.perform (.renewRow id leaseUntil)
    renewRows leaseUntil rest

def renew (request : Id) (leaseUntil : Time) : Code Unit := do
  let rows ← Prog.perform (.findRows fun row => row.billingRequestId = request && !row.released)
  renewRows leaseUntil rows

inductive Entry where
  | persist (ctx : BillingRouteContext) (platform : PlatformUsage) (resale : Option ℤ)
      (model : Option String)
  | settle (ctx : BillingRouteContext) (platform : PlatformUsage) (resale : Option ℤ)
      (model : Option String)
  | recoverIntents
  | finish (request : Id) (outcome : PoolAttemptOutcome) (attempts : ℕ)
  | recoverExpired (now : Time) (attempts : ℕ)
  | renew (request : Id) (leaseUntil : Time)

def code : Entry → Code Unit
  | .persist ctx platform resale model => do
    let _ ← persistSettlementIntent digest ctx platform resale model
    return
  | .settle ctx platform resale model => do
    let persisted ← persistSettlementIntent digest ctx platform resale model
    settlePersisted persisted
  | .recoverIntents => recoverPendingResaleIntents
  | .finish request outcome attempts => SettlementIntent.finish request outcome attempts
  | .recoverExpired now attempts => SettlementIntent.recoverExpired now attempts
  | .renew request leaseUntil => SettlementIntent.renew request leaseUntil

/-- Any number of workers on the rows and wallets of all requests. -/
def machine : Machine where
  Op := Op
  Err := AppError
  Store := Store
  Env := Env
  Entry := Entry
  exec := fun _ env o s => exec digest env o s
  dropped := .database
  code := fun _ e => code digest e

end NyxId.SettlementIntent
