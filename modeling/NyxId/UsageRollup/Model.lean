import NyxId.UsageMeter

/-!
The fold of usage rows into hourly and daily summaries. A durable batch is the claim;
any replica may help to finish it, and a fence on each summary makes every write safe to
repeat. Summaries are stored under their key, for which the source takes its hash.
-/

namespace NyxId.UsageRollup

open Interleave

inductive Measure where
  | quantity
  | events
  | requests
  | exactCostEvents
  | legacyCostEvents
  | legacyQuantity
  | legacyAllowanceQuantity
  | legacyGrantCost
  | grossCost
  | walletCost
  | grantCost
  | allowanceCost
  | promptTokens
  | completionTokens
  | cachedTokens
  | cacheCreationTokens
  | audioInputTokens
  | audioOutputTokens
  | imageInputTokens
  | imageOutputTokens
  | rowsFolded
  deriving DecidableEq

/-- Costs are exact credits; the other measures are 64-bit counters. -/
def moneyMeasure : Measure → Bool
  | .legacyGrantCost | .grossCost | .walletCost | .grantCost | .allowanceCost => true
  | _ => false

def i64Max : ℤ := 2 ^ 63 - 1

/-- A counter stays at its largest value. -/
def clamp (m : Measure) (x : ℤ) : ℤ := if moneyMeasure m then x else min x i64Max

def addMeasure (m : Measure) (current delta : ℤ) : ℤ := clamp m (current + delta)

abbrev Measures := Measure → ℤ

def addMeasures (existing delta : Measures) : Measures := fun m => addMeasure m (existing m) (delta m)

def noMeasures : Measures := fun _ => 0

structure Dimensions where
  actor : Id
  owner : Id
  serviceId : Option Id
  serviceSlug : Option String
  credentialClass : String
  metric : String
  code : String
  layer : BillingLayer
  model : Option String
  billable : Bool
  exact : Bool
  deriving DecidableEq

def hourLength : ℤ := 60 * 60 * 1000

def hour (time : Time) : Time := time - time % hourLength

def day (time : Time) : Time := hour time - hour time % (24 * hourLength)

structure HourKey where
  dimensions : Dimensions
  hour : Time
  deriving DecidableEq

structure DayKey where
  dimensions : Dimensions
  day : Time
  deriving DecidableEq

def HourKey.dayKey (key : HourKey) : DayKey := ⟨key.dimensions, day key.hour⟩

/-- A stored field that may be absent or null. -/
inductive Field where
  | missing
  | null
  | value
  deriving DecidableEq

structure SourceFunding where
  settled : Bool
  totalCharge : Field
  totalChargeMicros : Field
  deriving DecidableEq

/-- A usage row as the fold reads it. Neither quantities nor charges are negative, and the
row counts as one. -/
structure SourceRow where
  rollupPending : Option Bool
  status : UsageStatus
  createdAt : Time
  quantity : Option ℤ
  forwarded : Bool
  walletId : Option Id
  released : Bool
  lagoAcked : Bool
  funding : Option SourceFunding
  dimensions : Dimensions
  measures : Measures
  nonneg : ∀ m, 0 ≤ measures m
  counted : measures .rowsFolded = 1

def SourceRow.key (row : SourceRow) : HourKey := ⟨row.dimensions, hour row.createdAt⟩

/-- A mark that is true or absent, including null. -/
def pending (mark : Option Bool) : Bool := mark != some false

/-- Finalization fixes the measurements of a free row; a charged row stays live until its
wallet is released and its funding has settled. -/
def SourceRow.settled (row : SourceRow) : Bool :=
  (row.status = .finalized || row.status = .deadLetter) && row.quantity.isSome &&
    (row.status = .finalized || row.forwarded) &&
    (row.walletId.isNone || row.released &&
      row.funding.all (·.settled) &&
      (row.lagoAcked || row.status = .deadLetter || row.forwarded && row.funding.any fun funding =>
        funding.totalCharge = .value ||
          funding.totalCharge = .missing && funding.totalChargeMicros = .value))

def pendingFilter (cutoff : Time) (row : SourceRow) : Bool :=
  pending row.rollupPending && row.settled && row.createdAt < cutoff

structure Summary where
  measures : Measures
  lastBatch : ℤ
  /-- Absent on summaries older than the daily tier. -/
  dailyPending : Option Bool

inductive SourceId where
  | row (id : Id)
  | hourly (key : HourKey)
  deriving DecidableEq

structure UsageRollupBatch where
  sequence : ℤ
  daily : Bool
  hourlySources : Bool
  rowIds : List SourceId
  increments : List (HourKey × Measures)

structure UsageRollupState where
  sequence : ℤ
  batch : Option UsageRollupBatch
  dailyReady : Bool

structure Store where
  rows : Collection Id SourceRow
  state : UsageRollupState
  hourly : Collection HourKey Summary
  daily : Collection DayKey Summary

def batchSize : ℕ := 2000

def bootstrapBatchSize : ℕ := 200

/-- The state is refused when its journal cannot be a batch of this code. -/
def UsageRollupState.invalid (state : UsageRollupState) : Bool :=
  state.sequence < 0 || state.sequence = i64Max || state.batch.any fun batch =>
    batch.sequence ≠ state.sequence + 1 || batch.hourlySources && !batch.daily ||
      batch.rowIds.isEmpty || batchSize < batch.rowIds.length || batch.increments.isEmpty

/-- The sum of a measure over the chosen rows of one hourly summary. -/
def rowSum (rows : Collection Id SourceRow) (chosen : Id → SourceRow → Bool) (m : Measure) : ℤ :=
  Collection.sumOf (fun id row => if chosen id row then row.measures m else 0) rows

/-- One increment for each hourly summary of the rows, as the grouped sum. -/
def rawIncrements (rows : Collection Id SourceRow) (ids : List Id) : List (HourKey × Measures) :=
  (ids.filterMap fun id => (rows.lookup id).map SourceRow.key).dedup.map fun key =>
    (key, fun m => clamp m (rowSum rows (fun id row => ids.contains id && row.key = key) m))

/-- Hours of one batch collapsed into their days. -/
def dailyIncrements (increments : List (HourKey × Measures)) : List (DayKey × Measures) :=
  (increments.map fun increment => increment.1.dayKey).dedup.map fun key =>
    (key, (increments.filter fun increment => increment.1.dayKey = key).foldl
      (fun total increment => addMeasures total increment.2) noMeasures)

section

variable {K : Type} [DecidableEq K]

/-- The idempotent initializer of a summary. -/
def insertSummary (summaries : Collection K Summary) (key : K) : Collection K Summary :=
  match summaries.lookup key with
  | some _ => summaries
  | none => summaries.insert key ⟨noMeasures, 0, none⟩

/-- The update of one summary, behind its fence. -/
def addIncrement (sequence : ℤ) (dailyComplete : Bool) (increments : List (K × Measures))
    (summaries : Collection K Summary) (key : K) : Collection K Summary :=
  match summaries.lookup key, increments.lookup key with
  | some summary, some delta =>
    if summary.lastBatch < sequence then
      summaries.insert key ⟨addMeasures summary.measures delta, sequence,
        if dailyComplete then some false else summary.dailyPending⟩
    else summaries
  | _, _ => summaries

end

/-- Marks one source of a batch that is still pending. -/
def markSource (store : Store) : SourceId → Store
  | .row id =>
    match store.rows.lookup id with
    | some row =>
      if pending row.rollupPending then
        { store with rows := store.rows.insert id { row with rollupPending := some false } }
      else store
    | none => store
  | .hourly key =>
    match store.hourly.lookup key with
    | some summary =>
      if pending summary.dailyPending then
        { store with hourly := store.hourly.insert key { summary with dailyPending := some false } }
      else store
    | none => store

/-- The last write of `finish`: it only retires the batch it is about. -/
def retire (store : Store) (batch : UsageRollupBatch) : Store :=
  if store.state.batch.any (·.sequence = batch.sequence) then
    { store with state := { store.state with sequence := batch.sequence, batch := none } }
  else store

/-- The single-document writes of a batch that are left, in their order. -/
structure Work where
  hourlyInserts : List HourKey
  hourlyAdds : List HourKey
  dailyInserts : List DayKey
  dailyAdds : List DayKey
  marks : List SourceId

/-- The writes of `apply` and the marks of `finish`. -/
def startWork (batch : UsageRollupBatch) : Work :=
  let hours := if batch.hourlySources then [] else batch.increments.map Prod.fst
  let days := if batch.daily then (dailyIncrements batch.increments).map Prod.fst else []
  ⟨hours, hours, days, days, batch.rowIds⟩

/-- Where a replica stands in `fold_once`. -/
inductive Phase where
  | idle
  | loaded (current : UsageRollupState)
  | noSources (current : UsageRollupState)
  | claiming (current : UsageRollupState)
  | selected (current : UsageRollupState) (ids : List Id)
  | built (current : UsageRollupState) (batch : UsageRollupBatch)
  | applying (batch : UsageRollupBatch) (work : Work)

structure World where
  store : Store
  phase : ℕ → Phase

/-- One read or single-document write of a replica, a crash, or a write of the rest of
the program to a usage row. A transaction over a batch is a run of its writes with no other
step in between. -/
inductive Action where
  | write (id : Id) (row : SourceRow)
  | load
  | findSources (keys : List HourKey)
  | markReady
  | select (cutoff : Time) (ids : List Id)
  | aggregate
  | publish
  | insertHourly (key : HourKey)
  | addHourly (key : HourKey)
  | insertDaily (key : DayKey)
  | addDaily (key : DayKey)
  | mark (source : SourceId)
  | advance
  | crash

def World.to (world : World) (replica : ℕ) (store : Store) (phase : Phase) : World :=
  ⟨store, Function.update world.phase replica phase⟩

/-- The claim from hourly summaries that the daily tier does not hold yet. -/
def bootstrapBatch (store : Store) (current : UsageRollupState) (keys : List HourKey) :
    UsageRollupBatch :=
  ⟨current.sequence + 1, true, true, keys.map .hourly, keys.filterMap fun key =>
    (store.hourly.lookup key).map fun summary => (key, summary.measures)⟩

/-- The claim from usage rows. -/
def rawBatch (store : Store) (current : UsageRollupState) (ids : List Id) : UsageRollupBatch :=
  ⟨current.sequence + 1, true, false, ids.map .row, rawIncrements store.rows ids⟩

/-- A write of the rest of the program leaves settled rows and the marks alone. -/
def writable (rows : Collection Id SourceRow) (id : Id) (row : SourceRow) : Bool :=
  match rows.lookup id with
  | none => pending row.rollupPending
  | some old => !old.settled && row.rollupPending = old.rollupPending

/-- Keys of hourly summaries that the bootstrap may take next. The byte budget and the
order decide which; none are taken only when none are left. -/
def bootstrapSources (store : Store) (keys : List HourKey) : Bool :=
  (keys.all fun key => (store.hourly.lookup key).any fun summary => pending summary.dailyPending) &&
    decide keys.Nodup && decide (keys.length ≤ bootstrapBatchSize) &&
    (!keys.isEmpty || store.hourly.entries.all fun entry => !pending entry.2.dailyPending)

/-- Rows that a claim may take: newest first, as many as the byte budget allows. -/
def claimable (store : Store) (cutoff : Time) (ids : List Id) : Bool :=
  (ids.all fun id => (store.rows.lookup id).any (pendingFilter cutoff)) &&
    decide ids.Nodup && !ids.isEmpty && decide (ids.length ≤ batchSize)

/-- The state is still the one that was read, with no claim in between. -/
def unclaimed (store : Store) (current : UsageRollupState) : Bool :=
  store.state.sequence = current.sequence && store.state.batch.isNone

def exec (world : World) (replica : ℕ) (action : Action) : Option World :=
  let store := world.store
  match action, world.phase replica with
  | .write id row, phase =>
    if writable store.rows id row then
      some (world.to replica { store with rows := store.rows.insert id row } phase)
    else none
  | .crash, _ => some (world.to replica store .idle)
  | .load, .idle =>
    if store.state.invalid then none
    else
      match store.state.batch with
      | some batch => some (world.to replica store (.applying batch (startWork batch)))
      | none => some (world.to replica store
          (if store.state.dailyReady then .claiming store.state else .loaded store.state))
  | .findSources keys, .loaded current =>
    if bootstrapSources store keys then
      some (world.to replica store (if keys.isEmpty then .noSources current
        else .built current (bootstrapBatch store current keys)))
    else none
  | .markReady, .noSources current =>
    if unclaimed store current then
      some (world.to replica { store with state := { store.state with dailyReady := true } }
        (.claiming current))
    else some (world.to replica store .idle)
  | .select cutoff ids, .claiming current =>
    if claimable store cutoff ids then some (world.to replica store (.selected current ids))
    else none
  | .aggregate, .selected current ids =>
    some (world.to replica store (.built current (rawBatch store current ids)))
  | .publish, .built current batch =>
    if unclaimed store current then
      some (world.to replica { store with state := { store.state with batch := some batch } }
        (.applying batch (startWork batch)))
    else some (world.to replica store .idle)
  | .insertHourly key, .applying batch work =>
    if key ∈ work.hourlyInserts then
      some (world.to replica { store with hourly := insertSummary store.hourly key }
        (.applying batch { work with hourlyInserts := work.hourlyInserts.erase key }))
    else none
  | .addHourly key, .applying batch work =>
    if work.hourlyInserts = [] ∧ key ∈ work.hourlyAdds then
      some (world.to replica
        { store with
          hourly := addIncrement batch.sequence batch.daily batch.increments store.hourly key }
        (.applying batch { work with hourlyAdds := work.hourlyAdds.erase key }))
    else none
  | .insertDaily key, .applying batch work =>
    if work.hourlyAdds = [] ∧ key ∈ work.dailyInserts then
      some (world.to replica { store with daily := insertSummary store.daily key }
        (.applying batch { work with dailyInserts := work.dailyInserts.erase key }))
    else none
  | .addDaily key, .applying batch work =>
    if work.hourlyAdds = [] ∧ work.dailyInserts = [] ∧ key ∈ work.dailyAdds then
      some (world.to replica
        { store with
          daily := addIncrement batch.sequence false (dailyIncrements batch.increments)
            store.daily key }
        (.applying batch { work with dailyAdds := work.dailyAdds.erase key }))
    else none
  | .mark source, .applying batch work =>
    if work.hourlyAdds = [] ∧ work.dailyAdds = [] ∧ source ∈ work.marks then
      some (world.to replica (markSource store source)
        (.applying batch { work with marks := work.marks.erase source }))
    else none
  | .advance, .applying batch work =>
    if work.hourlyAdds = [] ∧ work.dailyAdds = [] ∧ work.marks = [] then
      some (world.to replica (retire store batch) .idle)
    else none
  | _, _ => none

/-- One step of any replica or of the rest of the program. -/
def Step (world next : World) : Prop := ∃ replica action, exec world replica action = some next

def run (world : World) (actions : List (ℕ × Action)) : Option World :=
  actions.foldlM (fun world action => exec world action.1 action.2) world

end NyxId.UsageRollup
