import NyxId.Billing.Benefits
import NyxId.Encoding.Text
import NyxId.Interleave.Machine
import NyxId.Interleave.Collection
import Mathlib.Data.String.Basic

/-!
Credit schedules: a tick that disburses the periods that are due. Times are milliseconds since the
epoch, as the database keeps them. What is used of a grant and of its limits is left out.
-/

namespace NyxId.CreditSchedules

open Interleave

def disbursementChunk : ℕ := 200

def maxRecipientsPerTick : ℕ := 5000

def periodLeaseMillis : ℤ := 300000

def maxSchedulesPerTick : ℕ := 500

inductive AppError where
  | notReady
  | ledger
  | database
  deriving DecidableEq

inductive BillingTargetKind where
  | allUsers
  | selectedUsers
  | orgMembers
  | groups
  deriving DecidableEq

structure BillingServiceScope where
  allServices : Bool
  serviceIds : List String
  serviceSlugs : List String
  deriving DecidableEq

structure CreditServiceLimit where
  key : String
  serviceIds : List String
  serviceSlugs : List String
  label : Option String
  limit : Credits
  deriving DecidableEq

inductive ScheduleRecurrence where
  | daily
  | weekly
  | monthly
  deriving DecidableEq

inductive CreditExpiryPolicy where
  | endOfPeriod
  | afterDays (days : ℕ)
  | never
  deriving DecidableEq

structure SchedulePeriod where
  start : ℤ
  stop : ℤ
  deriving DecidableEq

/-- Ids of schedules are UUIDs. -/
def ScheduleId : Type := {text : String // ':' ∉ text.toList}

instance : DecidableEq ScheduleId := inferInstanceAs (DecidableEq (Subtype _))

structure CreditSchedule where
  amount : Credits
  recurrence : ScheduleRecurrence
  expiry : CreditExpiryPolicy
  targetKind : BillingTargetKind
  targetUserIds : List String
  targetOrgIds : List String
  targetGroupIds : List String
  scope : BillingServiceScope
  serviceLimits : List CreditServiceLimit
  reason : Option String
  isActive : Bool
  createdBy : String
  lastPeriodStart : Option ℤ
  lastDisbursedAt : Option ℤ
  skippedPeriods : ℕ
  deriving DecidableEq

/-! ### Users and memberships -/

structure User where
  isActive : Bool
  isOrg : Bool
  createdAt : ℤ
  groupIds : List String
  deriving DecidableEq

structure Membership where
  orgUserId : String
  memberUserId : String
  createdAt : ℤ
  revoked : Bool
  deriving DecidableEq

structure Directory where
  users : Collection String User
  memberships : List Membership

/-- What a period takes from its schedule when it is first claimed. -/
structure PeriodTerms where
  periodEnd : ℤ
  amount : Credits
  expiresAt : Option ℤ
  targetKind : BillingTargetKind
  targetUserIds : List String
  targetOrgIds : List String
  targetGroupIds : List String
  scope : BillingServiceScope
  serviceLimits : List CreditServiceLimit
  reason : Option String
  createdAt : ℤ
  deriving DecidableEq

def PeriodTerms.userFilter (terms : PeriodTerms) (user : User) : Bool :=
  user.isActive && user.createdAt ≤ terms.createdAt

/-- The filter of `member_recipients` on users. -/
def PeriodTerms.personFilter (terms : PeriodTerms) (user : User) : Bool :=
  terms.userFilter user && !user.isOrg

def PeriodTerms.memberFilter (terms : PeriodTerms) (membership : Membership) : Bool :=
  terms.targetOrgIds.contains membership.orgUserId && !membership.revoked &&
    membership.createdAt ≤ terms.createdAt

def PeriodTerms.groupFilter (terms : PeriodTerms) (user : User) : Bool :=
  terms.personFilter user && user.groupIds.any terms.targetGroupIds.contains

def Directory.usersWhere (d : Directory) (p : User → Bool) : List String :=
  (d.users.entries.filter fun e => p e.2).map Sigma.fst

/-- Everyone whom a period targets, in no order. -/
def Directory.targets (d : Directory) (terms : PeriodTerms) : List String :=
  match terms.targetKind with
  | .allUsers => d.usersWhere terms.userFilter
  | .groups => d.usersWhere terms.groupFilter
  | .orgMembers =>
    ((d.memberships.filter terms.memberFilter).map Membership.memberUserId).dedup.filter
      fun id => (d.users.lookup id).any terms.personFilter
  | .selectedUsers => terms.targetUserIds

def After (cursor : Option String) (id : String) : Prop := ∀ last, cursor = some last → last < id

instance (cursor : Option String) (id : String) : Decidable (After cursor id) :=
  match cursor with
  | none => .isTrue nofun
  | some last => decidable_of_iff (last < id) ⟨fun h _ hlast => Option.some.inj hlast ▸ h, (· last rfl)⟩

/-- `next_recipients` -/
def nextRecipients (d : Directory) (terms : PeriodTerms) (cursor : Option String) (limit : ℕ) :
    List String :=
  (((d.targets terms).insertionSort (· ≤ ·)).filter fun id => After cursor id).take limit

/-! ### Periods and grants -/

/-- The id of a period is the text of both, which are also the origin of its grants. -/
structure CreditGrantScheduleOrigin where
  scheduleId : ScheduleId
  periodStart : ℤ
  deriving DecidableEq

/-- `period_id` -/
def periodId (origin : CreditGrantScheduleOrigin) : String :=
  origin.scheduleId.val ++ ":" ++ Encoding.decimal origin.periodStart

/-- The name that the id of a grant is made from. -/
def grantName (origin : CreditGrantScheduleOrigin) (recipient : String) : String :=
  periodId origin ++ ":" ++ recipient

inductive SchedulePeriodStatus where
  | disbursing
  | complete
  deriving DecidableEq

structure CreditSchedulePeriod where
  terms : PeriodTerms
  status : SchedulePeriodStatus
  cursorUserId : Option String
  disbursedCount : ℤ
  leaseExpiresAt : Option ℤ
  completedAt : Option ℤ

structure CreditGrant where
  id : String
  origin : CreditGrantScheduleOrigin
  recipientUserId : String
  targetKind : BillingTargetKind
  targetOrgIds : List String
  targetGroupIds : List String
  amount : Credits
  scope : BillingServiceScope
  serviceLimits : List CreditServiceLimit
  expiresAt : Option ℤ
  reason : Option String
  grantedBy : String
  createdAt : ℤ
  issuedLedgered : Bool
  deriving DecidableEq

structure Store where
  schedules : Collection ScheduleId CreditSchedule
  periods : Collection CreditGrantScheduleOrigin CreditSchedulePeriod
  grants : Collection String CreditGrant
  directory : Directory

/-- `recurring_utc_window` -/
def schedulePeriod (recurrence : ScheduleRecurrence) (now : ℤ) : SchedulePeriod :=
  let day := now / Billing.millisPerDay
  match recurrence with
  | .daily => ⟨day * Billing.millisPerDay, (day + 1) * Billing.millisPerDay⟩
  | .weekly =>
    -- 1970-01-01 was a Thursday
    let monday := day - (day + 3) % 7
    ⟨monday * Billing.millisPerDay, (monday + 7) * Billing.millisPerDay⟩
  | .monthly =>
    let (year, month) := Billing.monthOfDay day
    let next := if month = 12 then (year + 1, 1) else (year, month + 1)
    ⟨Billing.firstDayOfMonth year month * Billing.millisPerDay,
      Billing.firstDayOfMonth next.1 next.2 * Billing.millisPerDay⟩

/-- `resolve_expiry` -/
def resolveExpiry (policy : CreditExpiryPolicy) (period : SchedulePeriod) (createdAt : ℤ) : Option ℤ :=
  match policy with
  | .endOfPeriod => some period.stop
  | .afterDays days => some (createdAt + days * Billing.millisPerDay)
  | .never => none

/-- What `claim_period` sets on insert. -/
def CreditSchedule.terms (schedule : CreditSchedule) (period : SchedulePeriod) (claimTime : ℤ) :
    PeriodTerms where
  periodEnd := period.stop
  amount := schedule.amount
  expiresAt := resolveExpiry schedule.expiry period claimTime
  targetKind := schedule.targetKind
  targetUserIds := schedule.targetUserIds
  targetOrgIds := schedule.targetOrgIds
  targetGroupIds := schedule.targetGroupIds
  scope := schedule.scope
  serviceLimits := schedule.serviceLimits
  reason := schedule.reason
  createdAt := claimTime

def PeriodTerms.grant (newV5 : String → String) (schedule : CreditSchedule)
    (origin : CreditGrantScheduleOrigin) (terms : PeriodTerms) (now : ℤ) (recipient : String) :
    CreditGrant where
  id := newV5 (grantName origin recipient)
  origin := origin
  recipientUserId := recipient
  targetKind := terms.targetKind
  targetOrgIds := terms.targetOrgIds
  targetGroupIds := terms.targetGroupIds
  amount := terms.amount
  scope := terms.scope
  serviceLimits := terms.serviceLimits
  expiresAt := terms.expiresAt
  reason := terms.reason
  grantedBy := schedule.createdBy
  createdAt := now
  issuedLedgered := false

/-- `grants_for_recipients` -/
def grantsForRecipients (newV5 : String → String) (schedule : CreditSchedule)
    (origin : CreditGrantScheduleOrigin) (terms : PeriodTerms) (recipients : List String) (now : ℤ) :
    List CreditGrant :=
  recipients.map (terms.grant newV5 schedule origin now)

/-! ### Operations -/

/-- What a conditional update that may insert answers. -/
inductive Upsert where
  | row (period : CreditSchedulePeriod)
  | unmatched
  | duplicate

/-- The database operations, each atomic, the clock, and the answers of the ledger. -/
inductive Op : Type → Type where
  | surroundings : Op (Option AppError)
  | clock : Op ℤ
  | elapsed (now : ℤ) : Op (List CreditGrantScheduleOrigin)
  | countGrants (origin : CreditGrantScheduleOrigin) : Op ℤ
  | complete (origin : CreditGrantScheduleOrigin) (count now : ℤ) : Op Bool
  | skip (id : ScheduleId) : Op Unit
  | inFlight (now : ℤ) : Op (List ScheduleId)
  | due (inFlight : List ScheduleId) : Op (List (ScheduleId × CreditSchedule))
  | claim (origin : CreditGrantScheduleOrigin) (terms : PeriodTerms) (now : ℤ) (allowInsert : Bool) :
      Op Upsert
  | status (origin : CreditGrantScheduleOrigin) : Op (Option SchedulePeriodStatus)
  | recipients (terms : PeriodTerms) (cursor : Option String) (limit : ℕ) : Op (List String)
  | insert (grant : CreditGrant) : Op Bool
  | markLedgered (id : String) : Op Unit
  | advance (origin : CreditGrantScheduleOrigin) (cursor : String) (inserted now : ℤ) : Op Unit
  | disbursed (id : ScheduleId) (periodStart : Option ℤ) (now : ℤ) : Op Unit
  | release (origin : CreditGrantScheduleOrigin) : Op Unit

structure Env where
  now : ℤ
  verdict : Option AppError

def elapsedBefore (a b : CreditGrantScheduleOrigin × ℤ) : Prop :=
  a.2 < b.2 ∨ a.2 = b.2 ∧ periodId a.1 ≤ periodId b.1

instance : DecidableRel elapsedBefore := fun _ _ => inferInstanceAs (Decidable (_ ∨ _))

def Store.elapsed (s : Store) (now : ℤ) : List CreditGrantScheduleOrigin :=
  ((((s.periods.entries.filter fun e =>
    e.2.status = .disbursing && e.2.terms.periodEnd ≤ now).map
      fun e => (e.1, e.2.terms.periodEnd)).insertionSort elapsedBefore).take
        maxSchedulesPerTick).map Prod.fst

/-- The schedules with a period that is being disbursed and has not ended. -/
def Store.inFlight (s : Store) (now : ℤ) : List ScheduleId :=
  ((s.periods.entries.filter fun e =>
    e.2.status = .disbursing && now < e.2.terms.periodEnd).map fun e => e.1.scheduleId).dedup

/-- The page of schedules that a tick examines. -/
def Store.duePage (s : Store) (inFlight : List ScheduleId) : List ScheduleId :=
  ((Collection.listed (fun id (schedule : CreditSchedule) =>
    if schedule.isActive || inFlight.contains id then some id else none) s.schedules).insertionSort
      fun a b => a.val ≤ b.val).take maxSchedulesPerTick

def Store.due (s : Store) (inFlight : List ScheduleId) : List (ScheduleId × CreditSchedule) :=
  (s.duePage inFlight).filterMap fun id => (s.schedules.lookup id).map fun schedule => (id, schedule)

/-- A write of a period that is being disbursed. -/
def Store.rewrite (s : Store) (origin : CreditGrantScheduleOrigin)
    (f : CreditSchedulePeriod → CreditSchedulePeriod) : Store :=
  match s.periods.lookup origin with
  | some row =>
    if row.status = .disbursing then { s with periods := s.periods.insert origin (f row) } else s
  | none => s

def Store.editSchedule (s : Store) (id : ScheduleId) (f : CreditSchedule → CreditSchedule) : Store :=
  { s with schedules := s.schedules.mapValues fun other schedule =>
      if other = id then f schedule else schedule }

def CreditSchedulePeriod.completed (count now : ℤ) (row : CreditSchedulePeriod) :
    CreditSchedulePeriod :=
  { row with
    status := .complete
    disbursedCount := count
    leaseExpiresAt := none
    completedAt := some now }

def CreditSchedulePeriod.advanced (cursor : String) (inserted now : ℤ) (row : CreditSchedulePeriod) :
    CreditSchedulePeriod :=
  { row with
    cursorUserId := some (row.cursorUserId.elim cursor (max cursor))
    disbursedCount := row.disbursedCount + inserted
    leaseExpiresAt := some (now + periodLeaseMillis) }

/-- The period as it is inserted. -/
def PeriodTerms.period (terms : PeriodTerms) (now : ℤ) : CreditSchedulePeriod where
  terms := terms
  status := .disbursing
  cursorUserId := none
  disbursedCount := 0
  leaseExpiresAt := some (now + periodLeaseMillis)
  completedAt := none

/-- The update of `claim_period`. -/
def Store.claim (s : Store) (origin : CreditGrantScheduleOrigin) (terms : PeriodTerms) (now : ℤ)
    (allowInsert : Bool) : Upsert × Store :=
  match s.periods.lookup origin with
  | some row =>
    if row.status = .disbursing ∧ row.leaseExpiresAt.all (· ≤ now) then
      let row := { row with leaseExpiresAt := some (now + periodLeaseMillis) }
      (.row row, { s with periods := s.periods.insert origin row })
    else if allowInsert then (.duplicate, s)
    else (.unmatched, s)
  | none =>
    if allowInsert then
      let row := terms.period now
      (.row row, { s with periods := s.periods.insert origin row })
    else (.unmatched, s)

def exec {β : Type} (_ : ℕ) (env : Env) : Op β → Store → β × Store
  | .surroundings, s => (env.verdict, s)
  | .clock, s => (env.now, s)
  | .elapsed now, s => (s.elapsed now, s)
  | .countGrants origin, s => ((s.grants.entries.countP fun e => e.2.origin = origin : ℕ), s)
  | .complete origin count now, s =>
    ((s.periods.lookup origin).any (·.status = .disbursing),
      s.rewrite origin (CreditSchedulePeriod.completed count now))
  | .skip id, s =>
    ((), s.editSchedule id fun schedule =>
      { schedule with skippedPeriods := schedule.skippedPeriods + 1 })
  | .inFlight now, s => (s.inFlight now, s)
  | .due inFlight, s => (s.due inFlight, s)
  | .claim origin terms now allowInsert, s => s.claim origin terms now allowInsert
  | .status origin, s => ((s.periods.lookup origin).map CreditSchedulePeriod.status, s)
  | .recipients terms cursor limit, s => (nextRecipients s.directory terms cursor limit, s)
  | .insert grant, s =>
    if (s.grants.lookup grant.id).isSome then (false, s)
    else (true, { s with grants := s.grants.insert grant.id grant })
  | .markLedgered id, s =>
    ((), { s with grants := s.grants.mapValues fun other grant =>
      if other = id then { grant with issuedLedgered := true } else grant })
  | .advance origin cursor inserted now, s =>
    ((), s.rewrite origin (CreditSchedulePeriod.advanced cursor inserted now))
  | .disbursed id periodStart now, s =>
    ((), s.editSchedule id fun schedule =>
      { schedule with
        lastPeriodStart := periodStart <|> schedule.lastPeriodStart
        lastDisbursedAt := some now })
  | .release origin, s => ((), s.rewrite origin fun row => { row with leaseExpiresAt := none })

abbrev Code (α : Type) := Prog Op AppError α

def refuse {α : Type} (e : AppError) : Code α := .ret (.error e)

inductive PeriodClaim where
  | acquired (period : CreditSchedulePeriod)
  | busy
  | complete

/-- `claim_period` -/
def claimPeriod (id : ScheduleId) (schedule : CreditSchedule) (period : SchedulePeriod) (now : ℤ)
    (allowInsert : Bool) : Code PeriodClaim := do
  let claimTime ← Prog.perform .clock
  match ← Prog.perform
      (.claim ⟨id, period.start⟩ (schedule.terms period claimTime) now allowInsert) with
  | .row period => pure (.acquired period)
  | .unmatched => pure .busy
  | .duplicate =>
    let status ← Prog.perform (.status ⟨id, period.start⟩)
    pure (if status = some .complete then .complete else .busy)

/-- An unordered insert goes on after a document that fails. -/
def insertGrants : List CreditGrant → Code (List CreditGrant × Bool)
  | [] => pure ([], false)
  | grant :: rest => do
    let result ← (Prog.perform (.insert grant)).attempt
    let (inserted, failed) ← insertGrants rest
    match result with
    | .ok true => pure (grant :: inserted, failed)
    | .ok false => pure (inserted, failed)
    | .error _ => pure (inserted, true)

/-- `insert_grant_chunk`: the grants that were new; any error but a duplicate is one of the chunk. -/
def insertGrantChunk (grants : List CreditGrant) : Code (List CreditGrant) := do
  let (inserted, failed) ← insertGrants grants
  if failed then refuse .database else pure inserted

structure DisbursementStats where
  schedulesExamined : ℕ := 0
  periodsClaimed : ℕ := 0
  periodsCompleted : ℕ := 0
  periodsAbandoned : ℕ := 0
  recipientsExamined : ℕ := 0
  grantsCreated : ℕ := 0
  alreadyDisbursed : ℕ := 0
  grantsLedgered : ℕ := 0
  budgetExhausted : Bool := false
  deriving DecidableEq

/-- The entry of each new grant, and how many were written; one that could not be is left to
reconciliation. -/
def ledgerGrants : List CreditGrant → Code ℕ
  | [] => pure 0
  | grant :: rest => do
    match ← Prog.perform .surroundings with
    | some _ => ledgerGrants rest
    | none => do
      Prog.perform (.markLedgered grant.id)
      let ledgered ← ledgerGrants rest
      pure (ledgered + 1)

/-- `advance_cursor` -/
def advanceCursor (origin : CreditGrantScheduleOrigin) (cursor : String) (inserted now : ℤ) :
    Code Unit := do
  Prog.perform (.advance origin cursor inserted now)
  Prog.perform (.disbursed origin.scheduleId (some origin.periodStart) now)

/-- `complete_period` -/
def completePeriod (origin : CreditGrantScheduleOrigin) (now : ℤ) : Code Unit := do
  let count ← Prog.perform (.countGrants origin)
  let _ ← Prog.perform (.complete origin count now)
  Prog.perform (.disbursed origin.scheduleId none now)

def DisbursementStats.chunk (stats : DisbursementStats) (grants inserted ledgered : ℕ) :
    DisbursementStats :=
  { stats with
    recipientsExamined := stats.recipientsExamined + grants
    grantsCreated := stats.grantsCreated + inserted
    alreadyDisbursed := stats.alreadyDisbursed + (grants - inserted)
    grantsLedgered := stats.grantsLedgered + ledgered }

/-- The chunks of a period, and what they leave of the budget. Each round but the last takes at least
one recipient of it, so with a round more than the budget the rounds do not run out. -/
def disburseChunks (newV5 : String → String) (schedule : CreditSchedule)
    (origin : CreditGrantScheduleOrigin) (terms : PeriodTerms) (now : ℤ) :
    ℕ → Option String → ℕ → DisbursementStats → Code (ℕ × DisbursementStats)
  | 0, _, remaining, stats => pure (remaining, stats)
  | rounds + 1, cursor, remaining, stats => do
    if remaining = 0 then do
      Prog.perform (.release origin)
      pure (0, { stats with budgetExhausted := true })
    else do
      let recipients ← Prog.perform (.recipients terms cursor (min disbursementChunk remaining))
      match recipients.getLast? with
      | none => do
        completePeriod origin now
        pure (remaining, { stats with periodsCompleted := stats.periodsCompleted + 1 })
      | some last => do
        let createdAt ← Prog.perform .clock
        let grants := grantsForRecipients newV5 schedule origin terms recipients createdAt
        let inserted ← insertGrantChunk grants
        let ledgered ← ledgerGrants inserted
        advanceCursor origin last inserted.length now
        disburseChunks newV5 schedule origin terms now rounds (some last) (remaining - grants.length)
          (stats.chunk grants.length inserted.length ledgered)

/-- The origin of the current period of a schedule. -/
def CreditSchedule.current (schedule : CreditSchedule) (id : ScheduleId) (now : ℤ) :
    CreditGrantScheduleOrigin :=
  ⟨id, (schedulePeriod schedule.recurrence now).start⟩

def disburseSchedules (newV5 : String → String) (now : ℤ) :
    List (ScheduleId × CreditSchedule) → ℕ → DisbursementStats → Code DisbursementStats
  | [], _, stats => pure stats
  | (id, schedule) :: rest, remaining, stats => do
    if remaining = 0 then pure { stats with budgetExhausted := true }
    else do
      let stats := { stats with schedulesExamined := stats.schedulesExamined + 1 }
      let window := schedulePeriod schedule.recurrence now
      match ← claimPeriod id schedule window now schedule.isActive with
      | .acquired row => do
        let left ← disburseChunks newV5 schedule (schedule.current id now) row.terms now (remaining + 1)
          row.cursorUserId remaining { stats with periodsClaimed := stats.periodsClaimed + 1 }
        disburseSchedules newV5 now rest left.1 left.2
      | .busy => disburseSchedules newV5 now rest remaining stats
      | .complete => disburseSchedules newV5 now rest remaining stats

def abandonPeriods (now : ℤ) : List CreditGrantScheduleOrigin → DisbursementStats → Code DisbursementStats
  | [], stats => pure stats
  | origin :: rest, stats => do
    let count ← Prog.perform (.countGrants origin)
    match ← Prog.perform (.complete origin count now) with
    | false => abandonPeriods now rest stats
    | true => do
      Prog.perform (.skip origin.scheduleId)
      abandonPeriods now rest { stats with periodsAbandoned := stats.periodsAbandoned + 1 }

/-- `abandon_elapsed_periods` -/
def abandonElapsedPeriods (now : ℤ) (stats : DisbursementStats) : Code DisbursementStats := do
  let periods ← Prog.perform (.elapsed now)
  abandonPeriods now periods stats

/-- `disburse_due` -/
def disburseDue (newV5 : String → String) (now : ℤ) (budget : ℕ) : Code DisbursementStats := do
  match ← Prog.perform .surroundings with
  | some e => refuse e
  | none => do
    let stats ← abandonElapsedPeriods now {}
    if budget = 0 then pure { stats with budgetExhausted := true }
    else do
      let inFlight ← Prog.perform (.inFlight now)
      let schedules ← Prog.perform (.due inFlight)
      disburseSchedules newV5 now schedules (min budget maxRecipientsPerTick) stats

/-- A tick of the worker: its time and its budget. -/
structure Entry where
  now : ℤ
  budget : ℕ

/-- The worker; `newV5` is `Uuid::new_v5` in the namespace of URLs. -/
def machine (newV5 : String → String) : Machine where
  Op := Op
  Err := AppError
  Store := Store
  Env := Env
  Entry := Entry
  exec := exec
  dropped := .database
  code _ tick := do
    let _ ← disburseDue newV5 tick.now tick.budget
    pure ()

end NyxId.CreditSchedules
