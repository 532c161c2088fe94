import NyxId.Billing.Workers
import NyxId.Interleave.Machine

/-!
The row of a runtime window while it is settled: how far its reservations are drawn, the lock it may hold,
and the states from which a further attempt goes on.
-/

namespace NyxId.Billing

open Interleave Machine

variable {digest : LagoCarry.Digest} {provider : Provider} {id : Id} {price : Credits}
variable {estimate quantity : ℤ} {base row : UsageMeterRow} {A : List AllowanceConsumptionAllocation}
variable {G : List GrantConsumptionAllocation} {p g : Option Id} {s t : Store} {α : Type}

def exceedsWindow : AppError :=
  .billingProviderUnavailable "Machine settlement exceeds its funded wallet window"

/-! ### The row under settlement -/

structure AllowanceDrawn (id : Id) (r : AllowanceReservationAllocation)
    (a : AllowanceConsumptionAllocation) : Prop where
  operation : a.operationId = ⟨id, .allowance, r.periodId⟩
  period : a.periodId = r.periodId
  within : 0 ≤ a.quantity ∧ a.quantity ≤ r.quantity

structure GrantDrawn (id : Id) (r : GrantReservationAllocation) (a : GrantConsumptionAllocation) :
    Prop where
  operation : a.operationId = ⟨id, .grant, r.grantId⟩
  grant : a.grantId = r.grantId
  limit : a.serviceLimitKey = r.serviceLimitKey
  within : 0 ≤ a.amount.pico ∧ a.amount.pico ≤ r.amount.pico

variable (id base A G) in
/-- Reservations are drawn in order, each of them at most once. -/
def Drawn : Prop :=
  (∃ done rest, base.fundingD.allowanceReservations = done ++ rest ∧
    List.Forall₂ (AllowanceDrawn id) done A) ∧
  ∃ done rest, base.fundingD.grantReservations = done ++ rest ∧
    List.Forall₂ (GrantDrawn id) done G

/-- What the allowances of a window leave of its cost. -/
def windowCharge (price : Credits) (quantity : ℤ) (base : UsageMeterRow) : ℤ :=
  price.pico * quantity -
    price.pico * min quantity (base.fundingD.allowanceReservations.map (·.quantity)).sum

variable (id price quantity base A G) in
/-- How far the settlement of a quantity has come: the first reservations are drawn, each in full but
for the last units, and grants come after all allowances. -/
structure Split : Prop where
  allowances : ∃ done rest, base.fundingD.allowanceReservations = done ++ rest ∧
    List.Forall₂ (AllowanceDrawn id) done A ∧
    (A.map (·.quantity)).sum = min quantity (done.map (·.quantity)).sum
  grants : ∃ done rest, base.fundingD.grantReservations = done ++ rest ∧
    List.Forall₂ (GrantDrawn id) done G ∧
    (G.map (·.amount.pico)).sum = min (windowCharge price quantity base) (done.map (·.amount.pico)).sum
  order : G = [] ∨ A.length = base.fundingD.allowanceReservations.length

theorem Split.drawn (h : Split id price quantity base A G) : Drawn id base A G := by
  obtain ⟨done, rest, hsplit, hdrawn, -⟩ := h.allowances
  obtain ⟨done', rest', hsplit', hdrawn', -⟩ := h.grants
  exact ⟨⟨done, rest, hsplit, hdrawn⟩, done', rest', hsplit', hdrawn'⟩

/-- What the row has consumed so far is within what it reserved. -/
def Within (id : Id) (base : UsageMeterRow) (s : Store) : Prop :=
  ∀ row, s.rows.lookup id = some row →
    Drawn id base row.fundingD.allowanceConsumptions row.fundingD.grantConsumptions

def UsageFunding.unclaimed (f : UsageFunding) : UsageFunding :=
  { f with settlementClaimId := none, settlementClaimedAt := none }

variable (base A G) in
/-- The row apart from its claim and from what does not decide the split. -/
structure Frozen (row : UsageMeterRow) : Prop where
  metric : row.metric = base.metric
  reserved : row.reservedCredits = base.reservedCredits
  quantity : row.quantity = base.quantity
  funded : row.funding.isSome = true
  funding : UsageFunding.unclaimed row.fundingD =
    { UsageFunding.unclaimed base.fundingD with allowanceConsumptions := A, grantConsumptions := G }

theorem Frozen.field {β : Type} (h : Frozen base A G row) (f : UsageFunding → β) :
    f (UsageFunding.unclaimed row.fundingD) = f { UsageFunding.unclaimed base.fundingD with
      allowanceConsumptions := A, grantConsumptions := G } := congrArg f h.funding

theorem Frozen.consumptions (h : Frozen base A G row) :
    row.fundingD.allowanceConsumptions = A ∧ row.fundingD.grantConsumptions = G :=
  ⟨h.field UsageFunding.allowanceConsumptions, h.field UsageFunding.grantConsumptions⟩

theorem Frozen.reservations (h : Frozen base A G row) :
    row.fundingD.allowanceReservations = base.fundingD.allowanceReservations ∧
      row.fundingD.grantReservations = base.fundingD.grantReservations :=
  ⟨h.field UsageFunding.allowanceReservations, h.field UsageFunding.grantReservations⟩

theorem Frozen.settled (h : Frozen base A G row) : row.settled = base.settled :=
  h.field UsageFunding.settled

theorem Frozen.setClaim (h : Frozen base A G row) (claim : ClaimId) (now : Time) :
    Frozen base A G (row.setClaim claim now) :=
  ⟨h.metric, h.reserved, h.quantity, rfl, h.funding⟩

theorem Frozen.recordAllowance (h : Frozen base A G row) (a : AllowanceConsumptionAllocation)
    (now : Time) : Frozen base (A ++ [a]) G ((RowUpdate.recordAllowance a).apply now row) := by
  refine ⟨h.metric, h.reserved, h.quantity, rfl, ?_⟩
  change { UsageFunding.unclaimed row.fundingD with
    allowanceConsumptions := row.fundingD.allowanceConsumptions ++ [a] } = _
  rw [h.funding, h.consumptions.1]

theorem Frozen.recordGrant (h : Frozen base A G row) (g : GrantConsumptionAllocation) (now : Time) :
    Frozen base A (G ++ [g]) ((RowUpdate.recordGrant g).apply now row) := by
  refine ⟨h.metric, h.reserved, h.quantity, rfl, ?_⟩
  change { UsageFunding.unclaimed row.fundingD with
    grantConsumptions := row.fundingD.grantConsumptions ++ [g] } = _
  rw [h.funding, h.consumptions.2]

/-! ### Locks of the row -/

/-- A lock that another row took. -/
def Foreign (id : Id) (usageRowId : Id) (operationId : OperationId) : Prop :=
  usageRowId ≠ id ∧ operationId.row ≠ id

/-- The row has no lock but possibly one on the given period or grant. -/
structure Unlocked (id : Id) (p g : Option Id) (s : Store) : Prop where
  periods : ∀ i period lock, some i ≠ p → s.periods.lookup i = some period →
    period.activeSettlement = some lock → Foreign id lock.usageRowId lock.operationId
  grants : ∀ i grant lock, some i ≠ g → s.grants.lookup i = some grant →
    grant.activeSettlement = some lock → Foreign id lock.usageRowId lock.operationId

variable (id base A G p g s) in
/-- The row as it stands between two operations of its settlement. -/
structure Standing : Prop where
  row : ∃ row, s.rows.lookup id = some row ∧ Frozen base A G row
  unlocked : Unlocked id p g s

theorem Standing.of_same (h : Standing id base A G p g s) (hrows : t.rows = s.rows)
    (hperiods : t.periods = s.periods) (hgrants : t.grants = s.grants) :
    Standing id base A G p g t := by
  constructor
  · rw [hrows]
    exact h.row
  · constructor
    · rw [hperiods]
      exact h.unlocked.periods
    · rw [hgrants]
      exact h.unlocked.grants

/-- A lock on a period. -/
def LocksPeriod (i : Id) (lock : AllowanceSettlementLock) (s : Store) : Prop :=
  ∃ period, s.periods.lookup i = some period ∧ period.activeSettlement = some lock

def LocksGrant (i : Id) (lock : CreditGrantSettlementLock) (s : Store) : Prop :=
  ∃ grant, s.grants.lookup i = some grant ∧ grant.activeSettlement = some lock

/-- The record that a lock stands for, under the allowance that it is completed with. -/
def AllowanceSettlementLock.record (lock : AllowanceSettlementLock) (period allowance : Id) :
    AllowanceConsumptionAllocation := ⟨lock.operationId, allowance, period, lock.consumeQuantity⟩

def CreditGrantSettlementLock.record (lock : CreditGrantSettlementLock) (grant : Id) :
    GrantConsumptionAllocation := ⟨lock.operationId, grant, lock.serviceLimitKey, lock.consume⟩

variable (id price quantity base A G) in
/-- A lock of the row on a period, for the next of its allowances. -/
structure OwnAllowance (i : Id) (lock : AllowanceSettlementLock) : Prop where
  row : lock.usageRowId = id
  fresh : ∀ b ∈ A, b.operationId ≠ lock.operationId
  before : Split id price quantity base A G
  after : ∀ allowance, Split id price quantity base (A ++ [lock.record i allowance]) G

variable (id price quantity base A G) in
structure OwnGrant (i : Id) (lock : CreditGrantSettlementLock) : Prop where
  row : lock.usageRowId = id
  fresh : ∀ b ∈ G, b.operationId ≠ lock.operationId
  before : Split id price quantity base A G
  after : Split id price quantity base A (G ++ [lock.record i])

variable (id base A G) in
/-- Before or after the row has the record of a lock that it holds. -/
def HoldsAllowance (i : Id) (lock : AllowanceSettlementLock) (s : Store) : Prop :=
  LocksPeriod i lock s ∧ (Standing id base A G (some i) none s ∨
    lock.applied = true ∧
      ∃ allowance, Standing id base (A ++ [lock.record i allowance]) G (some i) none s)

variable (id base A G) in
def HoldsGrant (i : Id) (lock : CreditGrantSettlementLock) (s : Store) : Prop :=
  LocksGrant i lock s ∧ (Standing id base A G none (some i) s ∨
    lock.applied = true ∧ Standing id base A (G ++ [lock.record i]) none (some i) s)

variable (id price quantity base s) in
/-- A state from which another attempt goes on, or in which the row is settled. -/
inductive Resumable : Prop
  | free {A : List AllowanceConsumptionAllocation} {G : List GrantConsumptionAllocation}
      (split : Split id price quantity base A G) (standing : Standing id base A G none none s)
  | allowance {A : List AllowanceConsumptionAllocation} {G : List GrantConsumptionAllocation} {i : Id}
      {lock : AllowanceSettlementLock} (own : OwnAllowance id price quantity base A G i lock)
      (holds : HoldsAllowance id base A G i lock s)
  | grant {A : List AllowanceConsumptionAllocation} {G : List GrantConsumptionAllocation} {i : Id}
      {lock : CreditGrantSettlementLock} (own : OwnGrant id price quantity base A G i lock)
      (holds : HoldsGrant id base A G i lock s)
  | settled {row : UsageMeterRow} (found : s.rows.lookup id = some row) (settled : row.settled = true)
      (charge : (row.fundingD.walletChargeCredits.getD .zero).pico ≤ base.reservedCredits.pico)
      (drawn : Drawn id base row.fundingD.allowanceConsumptions row.fundingD.grantConsumptions)
      (unlocked : Unlocked id none none s)

theorem Standing.drawn (h : Standing id base A G p g s) (hdrawn : Drawn id base A G) :
    Within id base s := by
  intro row hrow
  obtain ⟨found, hfound, hfrozen⟩ := h.row
  rw [hrow, Option.some.injEq] at hfound
  rw [hfound, hfrozen.consumptions.1, hfrozen.consumptions.2]
  exact hdrawn

theorem Resumable.within (h : Resumable id price quantity base s) : Within id base s := by
  cases h with
  | free hsplit h => exact h.drawn hsplit.drawn
  | allowance own holds =>
    rcases holds.2 with h | ⟨-, allowance, h⟩
    · exact h.drawn own.before.drawn
    · exact h.drawn (own.after allowance).drawn
  | grant own holds =>
    rcases holds.2 with h | ⟨-, h⟩
    · exact h.drawn own.before.drawn
    · exact h.drawn own.after.drawn
  | settled found _ _ drawn _ =>
    intro row hrow
    rw [found, Option.some.injEq] at hrow
    exact hrow ▸ drawn

/-- A lock after an update of its period is the one before it. -/
theorem periodUpdate_lock {u : PeriodUpdate} {period : UsageAllowancePeriod}
    {lock : AllowanceSettlementLock} (h : (u.apply period).activeSettlement = some lock) :
    ∃ old, period.activeSettlement = some old ∧ old.usageRowId = lock.usageRowId ∧
      old.operationId = lock.operationId := by
  cases u with
  | applySettlement applied =>
    obtain ⟨old, hold, rfl⟩ := Option.map_eq_some_iff.mp h
    exact ⟨old, hold, rfl, rfl⟩
  | clearSettlement operationId => cases h

theorem grantUpdate_lock {u : GrantUpdate} {now : Time} {grant : CreditGrant}
    {lock : CreditGrantSettlementLock} (h : (u.apply now grant).activeSettlement = some lock) :
    ∃ old, grant.activeSettlement = some old ∧ old.usageRowId = lock.usageRowId ∧
      old.operationId = lock.operationId := by
  cases u with
  | applySettlement applied =>
    obtain ⟨old, hold, rfl⟩ := Option.map_eq_some_iff.mp h
    exact ⟨old, hold, rfl, rfl⟩
  | clearSettlement operationId => cases h
  | _ => exact ⟨lock, h, rfl, rfl⟩

theorem Standing.updatePeriod (h : Standing id base A G p g s) (i : Id) (u : PeriodUpdate) :
    Standing id base A G p g (s.updatePeriod i u).2 := by
  unfold Store.updatePeriod
  split
  · rename_i period hperiod
    split
    · refine ⟨h.row, ⟨fun j found lock hj hfound hlock => ?_, h.unlocked.grants⟩⟩
      rcases Collection.lookup_insert_cases hfound with ⟨rfl, rfl⟩ | ⟨_, hfound⟩
      · obtain ⟨old, hold, hrow, hop⟩ := periodUpdate_lock hlock
        rw [← hrow, ← hop]
        exact h.unlocked.periods _ period old hj hperiod hold
      · exact h.unlocked.periods j found lock hj hfound hlock
    · exact h
  · exact h

theorem Standing.updateGrant (h : Standing id base A G p g s) (now : Time) (i : Id) (u : GrantUpdate) :
    Standing id base A G p g (s.updateGrant now i u).2 := by
  unfold Store.updateGrant
  split
  · rename_i grant hgrant
    split
    · refine ⟨h.row, ⟨h.unlocked.periods, fun j found lock hj hfound hlock => ?_⟩⟩
      rcases Collection.lookup_insert_cases hfound with ⟨rfl, rfl⟩ | ⟨_, hfound⟩
      · obtain ⟨old, hold, hrow, hop⟩ := grantUpdate_lock hlock
        rw [← hrow, ← hop]
        exact h.unlocked.grants _ grant old hj hgrant hold
      · exact h.unlocked.grants j found lock hj hfound hlock
    · exact h
  · exact h

/-! ### Operations that leave the row alone -/

/-- Reads, and entries of the journal. -/
def Op.Reading {β : Type} : Op β → Prop
  | .now | .findRow _ | .findPeriod _ | .findGrant _ | .dedupeExists _ | .appendLedger _ => True
  | _ => False

/-- Those, and updates of benefits and of other rows. -/
def Op.Beside (id : Id) {β : Type} : Op β → Prop
  | .updateRow other _ => other ≠ id
  | .updatePeriod .. | .updateGrant .. => True
  | o => o.Reading

theorem reading_same {β : Type} (o : Op β) (env : Env) (s : Store) (h : o.Reading) :
    (exec digest 0 env o s).2.rows = s.rows ∧ (exec digest 0 env o s).2.periods = s.periods ∧
      (exec digest 0 env o s).2.grants = s.grants := by
  cases o with
  | appendLedger entry =>
    simp only [exec, Store.appendLedger]
    split <;> exact ⟨rfl, rfl, rfl⟩
  | now | findRow | findPeriod | findGrant | dedupeExists => exact ⟨rfl, rfl, rfl⟩
  | _ => exact h.elim

theorem Op.Reading.beside {β : Type} (o : Op β) (h : o.Reading) : o.Beside id := by
  cases o with
  | now | findRow | findPeriod | findGrant | dedupeExists | appendLedger => trivial
  | _ => exact h.elim

theorem reading_standing {β : Type} (o : Op β) (env : Env) (s : Store) (ho : o.Reading)
    (h : Standing id base A G p g s) : Standing id base A G p g (exec digest 0 env o s).2 := by
  obtain ⟨hrows, hperiods, hgrants⟩ := @reading_same digest _ o env s ho
  exact h.of_same hrows hperiods hgrants

theorem beside_standing {β : Type} (o : Op β) (env : Env) (s : Store) (ho : o.Beside id)
    (h : Standing id base A G p g s) : Standing id base A G p g (exec digest 0 env o s).2 := by
  cases o with
  | updatePeriod i u => exact h.updatePeriod i u
  | updateGrant i u => exact h.updateGrant env.now i u
  | updateRow other u =>
    simp only [exec, Store.updateRow]
    split
    · split
      · refine ⟨?_, h.unlocked.periods, h.unlocked.grants⟩
        obtain ⟨row, hrow, hfrozen⟩ := h.row
        exact ⟨row, (AList.lookup_insert_ne (Ne.symm ho)).trans hrow, hfrozen⟩
      · exact h
    · exact h
  | now | findRow | findPeriod | findGrant | dedupeExists | appendLedger =>
    exact reading_standing _ env s (by trivial) h
  | _ => exact ho.elim

/-- Any error but that of the guard on the wallet. -/
def Other (e : AppError) : Prop := e ≠ exceedsWindow

theorem other_database : Other .database := nofun

theorem other_duplicateKey : Other .duplicateKey := nofun

theorem other_internal (text : String) : Other (.internal text) := nofun

theorem other_credits : Other .credits := nofun

/-- What holds when the settlement ends with an error. -/
def Fails (id : Id) (price : Credits) (quantity : ℤ) (base : UsageMeterRow) (e : AppError) (s : Store) :
    Prop :=
  Other e ∧ Resumable id price quantity base s

section Sparing

variable (digest provider)

abbrev Sparing (P : {β : Type} → Op β → Prop) (p : Code α) : Prop :=
  Only (M := machine digest provider) P Other p

variable (id price quantity base) in
/-- A part of the settlement, from whose failure another attempt goes on. -/
abbrev Settling (p : Code α) (Q : α → Store → Prop) (s : Store) : Prop :=
  Yields (M := machine digest provider) p Q (Fails id price quantity base) s

variable {digest provider}

theorem commit_all {β : Type} {P : {β : Type} → Op β → Prop} {o : Op (Except AppError β)}
    (ho : P o) :
    (commit o).All P := by
  refine Prog.All.bind (Prog.All.perform ho) fun r => ?_
  cases r <;> trivial

theorem recordGrantEvent_sparing {movement : Movement} {owner grant : Id} {amount : Credits}
    {key : DedupeKey} {postings : List BillingPosting} :
    Sparing digest provider Op.Reading
      (recordGrantEvent movement owner grant amount key postings) := by
  refine Only.bind (Only.attempt (Prog.All.perform (by trivial))) fun known => ?_
  rcases known with _ | _ | _
  · trivial
  · dsimp only
    split
    · trivial
    · refine Only.bind (Only.attempt (commit_all (by trivial))) fun appended => ?_
      cases appended with
      | ok u => trivial
      | error e =>
        refine Only.bind (Only.attempt (Prog.All.perform (by trivial))) fun confirmed => ?_
        cases confirmed <;> trivial
  · trivial

theorem journalGrantConsumption_sparing (i : Id) (lock : CreditGrantSettlementLock) :
    Sparing digest provider Op.Reading (journalGrantConsumption i lock) := by
  refine Only.bind (Only.perform (by trivial) other_database) fun grant => ?_
  refine Only.bind (Only.perform (by trivial) other_database) fun row => ?_
  cases grant with
  | none => exact other_internal _
  | some grant =>
    cases row with
    | none => exact other_internal _
    | some row =>
      refine Only.bind recordGrantEvent_sparing fun recorded => ?_
      cases recorded with
      | true => trivial
      | false => exact other_internal _

theorem checked_sparing {β : Type} {P : {β : Type} → Op β → Prop} {x : Option β} :
    Sparing digest provider P (checked (creditsOrError x)) := by
  cases x with
  | some b => trivial
  | none => exact other_credits

theorem finalizeReclaim_sparing {i : Id} :
    Sparing digest provider (Op.Beside id) (finalizeReclaim i) := by
  refine Only.bind (Only.perform (by trivial) other_database) fun grant => ?_
  cases grant with
  | none => trivial
  | some grant =>
    refine Only.bind checked_sparing fun amount => ?_
    refine Only.bind (Only.mono Op.Reading.beside recordGrantEvent_sparing) fun recorded => ?_
    cases recorded with
    | true => exact Only.bind (Only.perform (by trivial) other_database) fun _ => trivial
    | false => trivial

theorem completeAllowanceLock_sparing {i allowanceId : Id} {lock : AllowanceSettlementLock}
    (hrow : lock.usageRowId ≠ id) :
    Sparing digest provider (Op.Beside id) (completeAllowanceLock i allowanceId lock) := by
  have hrest : Sparing digest provider (Op.Beside id) (do
      let _ ← perform (.updateRow lock.usageRowId (.recordAllowance {
        operationId := lock.operationId
        allowanceId := allowanceId
        periodId := i
        quantity := lock.consumeQuantity }))
      let _ ← perform (.updatePeriod i (.clearSettlement lock.operationId))) :=
    Only.bind (Only.perform hrow other_database) fun _ =>
      Only.bind (Only.perform (by trivial) other_database) fun _ => trivial
  unfold completeAllowanceLock
  dsimp only
  split
  · exact Only.bind (Only.perform (by trivial) other_database) fun _ => hrest
  · exact hrest

theorem completeGrantLock_sparing {i : Id} {lock : CreditGrantSettlementLock}
    (hrow : lock.usageRowId ≠ id) :
    Sparing digest provider (Op.Beside id) (completeGrantLock i lock) := by
  have hclear : Sparing digest provider (Op.Beside id) (do
      let _ ← perform (.updateGrant i (.clearSettlement lock.operationId))
      finalizeReclaim i) :=
    Only.bind (Only.perform (by trivial) other_database) fun _ => finalizeReclaim_sparing
  have hrest : Sparing digest provider (Op.Beside id) (do
      let _ ← perform (.updateRow lock.usageRowId (.recordGrant {
        operationId := lock.operationId
        grantId := i
        serviceLimitKey := lock.serviceLimitKey
        amount := lock.consume }))
      if 0 < lock.consume.pico then
        journalGrantConsumption i lock
      let _ ← perform (.updateGrant i (.clearSettlement lock.operationId))
      finalizeReclaim i) := by
    refine Only.bind (Only.perform hrow other_database) fun _ => ?_
    dsimp only
    split
    · exact Only.bind (Only.mono Op.Reading.beside (journalGrantConsumption_sparing i lock))
        fun _ => hclear
    · exact hclear
  unfold completeGrantLock
  dsimp only
  split
  · exact Only.bind (Only.perform (by trivial) other_database) fun _ => hrest
  · exact hrest

end Sparing

/-- Such code leaves the row standing. -/
theorem Standing.sparing {p' : Code α} (h : Standing id base A G none none s)
    (hsplit : Split id price quantity base A G) (hp : Sparing digest provider (Op.Beside id) p') :
    Settling digest provider id price quantity base p' (fun _ t => Standing id base A G none none t)
      s :=
  Yields.mono (fun _ _ ht => ht) (fun _ _ ht => ⟨ht.1, .free hsplit ht.2⟩)
    (Only.yields (M := machine digest provider) (fun o env s ho hs => beside_standing o env s ho hs) hp h)

/-- An operation that may move the row on; an error of the database leaves a state to resume from. -/
theorem Resumable.step {β : Type} {o : Op β} {f : β → Code α} {Q : α → Store → Prop}
    (h : Resumable id price quantity base s)
    (hf : ∀ env, Resumable id price quantity base (exec digest 0 env o s).2 ∧
      Settling digest provider id price quantity base (f (exec digest 0 env o s).1) Q
        (exec digest 0 env o s).2) :
    Settling digest provider id price quantity base ((perform o).bind f) Q s :=
  Yields.perform (M := machine digest provider) ⟨other_database, h⟩ fun env =>
    ⟨⟨other_database, (hf env).1⟩, (hf env).2⟩

end NyxId.Billing
