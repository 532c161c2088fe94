import NyxId.Billing.WindowSettlement

/-!
A runtime window from its preparation to any number of settlement attempts: it never costs the wallet more
than its row reserved, and the guard on that is never reached.
-/

namespace NyxId.Billing

open Interleave Machine

variable {digest : LagoCarry.Digest} {provider : Provider} {id : Id} {base row : UsageMeterRow}
variable {s t : Store} {A : List AllowanceConsumptionAllocation} {G : List GrantConsumptionAllocation}
variable {α : Type} {p g : Option Id} {price : Credits} {estimate quantity : ℤ}

/-! ### Preparation -/

/-- Locks on the periods that still offer something are finished first. -/
def completePreparedPeriods : List (Id × Id × UsageAllowancePeriod) → Code Unit
  | [] => return
  | (_, id, period) :: rest => do
    if let some lock := period.activeSettlement.filter fun _ => 0 < availablePeriodQuantity period then
      completeAllowanceLock id period.allowanceId lock
    completePreparedPeriods rest

def completePreparedGrant (serviceId serviceSlug : Option Id) (id : Id) (grant : CreditGrant) :
    Code Unit := do
  let available ← checked (grant.availableForService serviceId serviceSlug)
  if let some lock := grant.activeSettlement.filter fun _ => 0 < available.pico then
    completeGrantLock id lock

def completePreparedGrants (serviceId serviceSlug : Option Id) : List (Id × CreditGrant) → Code Unit
  | [] => return
  | (id, grant) :: rest => do
    if serviceScopeApplies grant.scope serviceId serviceSlug then
      completePreparedGrant serviceId serviceSlug id grant
    completePreparedGrants serviceId serviceSlug rest

/-- The periods that a runtime window may draw on, found before its reservation. -/
def prepareRuntimeWindowFunding (owner : Id) (serviceId : Option Id) (serviceSlug : Id)
    (metric : BillingMetric) (now : Time) : Code (List (Id × Id × UsageAllowancePeriod)) := do
  let definitions ← perform (.applicableAllowances owner serviceId (some serviceSlug) metric)
  let periods ← currentPeriods owner now definitions
  completePreparedPeriods periods
  completePreparedGrants serviceId (some serviceSlug) (← perform (.activeGrants owner now))
  return byPeriodEnd periods

section Preparation

variable {digest : LagoCarry.Digest} {provider : Provider} {owner : Id} {now : Time} {α : Type}

theorem nodup_applicableAllowances (owner : Id) (s : Store) (serviceId serviceSlug : Option Id)
    (metric : BillingMetric) :
    ((s.applicableAllowances owner serviceId serviceSlug metric).map (·.1)).Nodup := by
  unfold Store.applicableAllowances
  have hkeys : ((s.allowances.entries.map fun e => (e.1, e.2)).map Prod.fst).Nodup := by
    rw [List.map_map]
    exact s.allowances.nodupKeys
  exact ((List.perm_insertionSort _ _).map Prod.fst).nodup_iff.mpr
    ((List.filter_sublist.map Prod.fst).nodup hkeys)

/-- One period for each definition, under the identifier that the definition gives it. -/
theorem currentPeriods_ids (definitions : List (Id × UsageAllowance)) :
    Gives (M := machine digest provider) (currentPeriods owner now definitions)
      (fun periods _ => periods.map (·.2.1) = definitions.map fun d =>
        periodId d.1 owner (allowanceWindow d.2.recurrence d.2.createdAt now).1) s := by
  induction definitions generalizing s with
  | nil => rfl
  | cons d rest ih =>
    refine Gives.perform fun env => Gives.perform fun env' => ?_
    split
    · trivial
    · refine Gives.bind (Gives.mono (fun periods u hperiods => ?_) ih)
      change _ :: periods.map (·.2.1) = _
      rw [hperiods]
      rfl

theorem periodId_injective {d e : Id × UsageAllowance}
    (h : periodId d.1 owner (allowanceWindow d.2.recurrence d.2.createdAt now).1 =
      periodId e.1 owner (allowanceWindow e.2.recurrence e.2.createdAt now).1) : d.1 = e.1 :=
  (Prod.mk.inj (Encodable.encode_injective h)).1

/-- A window is prepared with no period twice. -/
theorem prepareRuntimeWindowFunding_nodup {serviceId : Option Id} {serviceSlug : Id}
    {metric : BillingMetric} :
    Gives (M := machine digest provider)
      (prepareRuntimeWindowFunding owner serviceId serviceSlug metric now)
      (fun periods _ => (periods.map (·.2.1)).Nodup) s := by
  refine Gives.perform fun env => Gives.bind (Gives.mono (fun periods t hperiods => ?_)
    (currentPeriods_ids _))
  have hdefinitions := nodup_applicableAllowances owner s serviceId (some serviceSlug) metric
  have hnodup : (periods.map (·.2.1)).Nodup := by
    rw [hperiods]
    refine List.Nodup.map_on (fun d hd e he hsame => ?_) (List.Nodup.of_map _ hdefinitions)
    exact List.inj_on_of_nodup_map hdefinitions hd he (periodId_injective hsame)
  refine Gives.bind (Gives.any _ ?_)
  intro _ u
  refine Gives.perform fun env' => Gives.bind (Gives.any _ ?_)
  intro _ v
  have hsorted : (byPeriodEnd periods).Perm periods := List.perm_insertionSort _ _
  exact (hsorted.map (·.2.1)).nodup_iff.mpr hnodup

end Preparation


/-! ### Any number of attempts -/

/-- Work on other rows: this one and the locks it holds stay as they are. -/
structure Elsewhere (id : Id) (s t : Store) : Prop where
  row : t.rows.lookup id = s.rows.lookup id
  periods : ∀ i lock, ¬ Foreign id lock.usageRowId lock.operationId →
    (LocksPeriod i lock t ↔ LocksPeriod i lock s)
  grants : ∀ i lock, ¬ Foreign id lock.usageRowId lock.operationId →
    (LocksGrant i lock t ↔ LocksGrant i lock s)

/-- Attempts to settle a row, each on the row as it finds it and each to its end or to a crash; in between,
any work on other rows, and locks of this row that others finish or leave half finished. -/
inductive Attempted (digest : LagoCarry.Digest) (provider : Provider) (id : Id) (s : Store) : Store → Prop
  | start : Attempted digest provider id s s
  | attempt {t u : Store} {row : UsageMeterRow} {answers : List (Env × Outcome)}
      {result : Except AppError FundingSettlement} (before : Attempted digest provider id s t)
      (found : t.rows.lookup id = some row)
      (run : (machine digest provider).alone (settleUsageFunding id row) answers t = some (result, u)) :
      Attempted digest provider id s u
  | crash {t u : Store} {row : UsageMeterRow} {answers : List (Env × Outcome)}
      (before : Attempted digest provider id s t) (found : t.rows.lookup id = some row)
      (run : (machine digest provider).crashed (settleUsageFunding id row) answers t = some u) :
      Attempted digest provider id s u
  | allowance {t u : Store} {i allowanceId : Id} {lock : AllowanceSettlementLock}
      {answers : List (Env × Outcome)} {result : Except AppError Unit}
      (before : Attempted digest provider id s t) (locked : LocksPeriod i lock t)
      (row : lock.usageRowId = id)
      (run : (machine digest provider).alone (completeAllowanceLock i allowanceId lock) answers t =
        some (result, u)) : Attempted digest provider id s u
  | grant {t u : Store} {i : Id} {lock : CreditGrantSettlementLock} {answers : List (Env × Outcome)}
      {result : Except AppError Unit} (before : Attempted digest provider id s t)
      (locked : LocksGrant i lock t) (row : lock.usageRowId = id)
      (run : (machine digest provider).alone (completeGrantLock i lock) answers t = some (result, u)) :
      Attempted digest provider id s u
  | others {t u : Store} (before : Attempted digest provider id s t) (work : Elsewhere id t u) :
      Attempted digest provider id s u

theorem Unlocked.elsewhere (h : Unlocked id p g s) (hwork : Elsewhere id s t) : Unlocked id p g t := by
  refine ⟨fun i period lock hi hperiod hlock => ?_, fun i grant lock hi hgrant hlock => ?_⟩
  · by_contra hown
    obtain ⟨old, hold, hactive⟩ := (hwork.periods i lock hown).mp ⟨period, hperiod, hlock⟩
    exact hown (h.periods i old lock hi hold hactive)
  · by_contra hown
    obtain ⟨old, hold, hactive⟩ := (hwork.grants i lock hown).mp ⟨grant, hgrant, hlock⟩
    exact hown (h.grants i old lock hi hold hactive)

theorem Standing.elsewhere (h : Standing id base A G p g s) (hwork : Elsewhere id s t) :
    Standing id base A G p g t := by
  refine ⟨?_, h.unlocked.elsewhere hwork⟩
  rw [hwork.row]
  exact h.row

theorem Resumable.elsewhere (h : Resumable id price quantity base s) (hwork : Elsewhere id s t) :
    Resumable id price quantity base t := by
  cases h with
  | free split standing => exact .free split (standing.elsewhere hwork)
  | allowance own holds =>
    obtain ⟨hlock, hstanding⟩ := holds
    refine .allowance own ⟨(hwork.periods _ _ fun hforeign => hforeign.1 own.row).mpr hlock, ?_⟩
    rcases hstanding with hs | ⟨happlied, allowance, hs⟩
    · exact .inl (hs.elsewhere hwork)
    · exact .inr ⟨happlied, allowance, hs.elsewhere hwork⟩
  | grant own holds =>
    obtain ⟨hlock, hstanding⟩ := holds
    refine .grant own ⟨(hwork.grants _ _ fun hforeign => hforeign.1 own.row).mpr hlock, ?_⟩
    rcases hstanding with hs | ⟨happlied, hs⟩
    · exact .inl (hs.elsewhere hwork)
    · exact .inr ⟨happlied, hs.elsewhere hwork⟩
  | settled found settled charge drawn unlocked =>
    exact .settled (hwork.row.trans found) settled charge drawn (unlocked.elsewhere hwork)

/-- A measured row on which no attempt has been made. -/
theorem Resumable.first (hwindow : FundedWindow price estimate base) (hquantity : 0 ≤ quantity)
    (hrow : s.rows.lookup id = some base) (hunlocked : Unlocked id none none s) :
    Resumable id price quantity base s := by
  have hunits : 0 ≤ (base.fundingD.allowanceReservations.map (·.quantity)).sum :=
    hwindow.units_nonneg (List.Subset.refl _)
  have hcharge : 0 ≤ windowCharge price quantity base := by
    unfold windowCharge
    rw [← mul_sub]
    exact mul_nonneg hwindow.positive.le (by omega)
  have hframe : Frozen base [] [] base := by
    refine ⟨rfl, rfl, rfl, hwindow.funded, ?_⟩
    rw [← hwindow.untouched.1, ← hwindow.untouched.2]
    rfl
  exact .free ⟨⟨[], _, rfl, .nil, (min_eq_right hquantity).symm⟩,
    ⟨[], _, rfl, .nil, (min_eq_right hcharge).symm⟩, .inl rfl⟩
    ⟨⟨base, hrow, hframe⟩, hunlocked⟩

theorem Attempted.resumable (hwindow : FundedWindow price estimate base)
    (hmeasured : base.quantity = some quantity) (hquantity : 0 ≤ quantity ∧ quantity ≤ estimate)
    (hfirst : Resumable id price quantity base s) (h : Attempted digest provider id s t) :
    Resumable id price quantity base t := by
  induction h with
  | start => exact hfirst
  | attempt before found run ih =>
    rename_i result
    obtain ⟨hok, herror⟩ :=
      Yields.alone (settleUsageFunding_yields hwindow hmeasured hquantity ih found) run
    cases result with
    | ok x => exact (hok x rfl).2
    | error e => exact (herror e rfl).2
  | crash before found run ih =>
    exact Yields.crashed (settleUsageFunding_yields hwindow hmeasured hquantity ih found)
      (fun _ _ hsettles => hsettles.2) (fun _ _ hfails => hfails.2) run
  | allowance before locked row run ih =>
    rename_i result
    obtain ⟨hok, herror⟩ := Yields.alone (ih.helpAllowance locked row) run
    cases result with
    | ok x => exact hok x rfl
    | error e => exact (herror e rfl).2
  | grant before locked row run ih =>
    rename_i result
    obtain ⟨hok, herror⟩ := Yields.alone (ih.helpGrant locked row) run
    cases result with
    | ok x => exact hok x rfl
    | error e => exact (herror e rfl).2
  | others before work ih => exact ih.elsewhere work

/-- Settlement of a prepared and reserved window for a quantity within its estimate, over any number of
attempts that end anywhere: the wallet is charged no more than the row reserved, benefits are drawn within
their reservations, and the guard on the wallet never refuses. -/
theorem settlement_within_reservation {window : RuntimeWindow} {time : Time}
    {preparing answers : List (Env × Outcome)} {candidates : List (Id × Id × UsageAllowancePeriod)}
    {s₀ s₁ s₂ s₃ s₄ : Store} {env : Env} {reservation : BillingReservation}
    {reserved measured : UsageMeterRow} {result : Except AppError FundingSettlement}
    (hprepared : (machine digest provider).alone (prepareRuntimeWindowFunding window.ownerId
      window.serviceId window.serviceSlug window.metric time) preparing s₀ = some (.ok candidates, s₁))
    (hperiods : window.periods = candidates.map (·.2.1))
    (hreserve : reserveRuntimeWindow env window s₂ = .ok (reservation, s₃))
    (hnew : s₂.rows.lookup id = none) (hreserved : s₃.rows.lookup id = some reserved)
    (hmeasured : s₄.rows.lookup id = some measured) (hfunding : measured.funding = reserved.funding)
    (hcredits : measured.reservedCredits = reserved.reservedCredits)
    (hmetric : measured.metric = reserved.metric) (hactual : measured.quantity = some quantity)
    (hquantity : 0 ≤ quantity ∧ quantity ≤ window.quantity) (hunlocked : Unlocked id none none s₄)
    (hattempts : Attempted digest provider id s₄ s) (hrow : s.rows.lookup id = some row)
    (hrun : (machine digest provider).alone (settleUsageFunding id row) answers s = some (result, t)) :
    (∀ x, result = .ok x → x.walletChargeCredits.pico ≤ reserved.reservedCredits.pico) ∧
      (∀ e, result = .error e → e ≠ exceedsWindow) ∧ Within id reserved t := by
  have hnodup : window.periods.Nodup := by
    rw [hperiods]
    exact Gives.alone prepareRuntimeWindowFunding_nodup hprepared
  have hwindow := (reserveRuntimeWindow_funded hreserve hnodup hreserved hnew).of_same hfunding hcredits
    hmetric
  have hfirst := Resumable.first hwindow hquantity.1 hmeasured hunlocked
  have hresume := hattempts.resumable hwindow hactual hquantity hfirst
  have hwithin (hbase : Within id measured t) : Within id reserved t := by
    unfold Within Drawn UsageMeterRow.fundingD at hbase ⊢
    rw [← hfunding]
    exact hbase
  obtain ⟨hok, herror⟩ :=
    Yields.alone (settleUsageFunding_yields hwindow hactual hquantity hresume hrow) hrun
  cases result with
  | ok x =>
    obtain ⟨hcharge, hafter⟩ := hok x rfl
    refine ⟨fun y hy => ?_, fun e he => (nomatch he), hwithin hafter.within⟩
    rw [← Except.ok.inj hy, ← hcredits]
    exact hcharge
  | error e =>
    obtain ⟨hother, hafter⟩ := herror e rfl
    refine ⟨fun y hy => (nomatch hy), fun e' he => ?_, hwithin hafter.within⟩
    rw [← Except.error.inj he]
    exact hother

section Example

def dailyAllowance : UsageAllowance where
  serviceId := 1
  serviceSlug := 2
  metric := .machineRunningSeconds
  quantity := 3
  recurrence := .daily
  targets := none
  isActive := true
  createdAt := 0

def openGrant : CreditGrant where
  recipientUserId := 7
  amount := ⟨5, by decide⟩
  remaining := 5
  reserved := 0
  scope := ⟨true, [], []⟩
  serviceLimits := []
  expiresAt := none
  status := .active
  issuedLedgeredAt := some 0
  terminalLedgeredAt := none
  terminalAmount := 0
  activeSettlement := none
  createdAt := 0
  revokeRequestedAt := none

def fundedWallet : BillingWallet where
  id := 3
  lagoSubscriptionId := none
  planKind := .prepaid
  balanceCredits := ⟨100, by decide⟩
  reservedCredits := 0
  pendingLagoDebits := 0
  pendingTopupExpiryCredits := .zero
  hasPaymentInstrument := false
  overdraftCapCredits := .zero
  suspended := false
  activeSettlement := none
  activeTopupExpiry := none
  updatedAt := 0

def fundedStore : Store where
  rows := ∅
  wallets := (∅ : Collection Id BillingWallet).insert 7 fundedWallet
  allowances := (∅ : Collection Id UsageAllowance).insert 4 dailyAllowance
  periods := ∅
  grants := (∅ : Collection Id CreditGrant).insert 5 openGrant
  rates := ∅
  carries := ∅
  ledger := ⟨[], ∅⟩
  owed := ∅
  log := []

def shortWindow : RuntimeWindow where
  ownerId := 7
  walletId := 3
  intervalId := 8
  serviceId := some 1
  serviceSlug := 2
  metric := .machineRunningSeconds
  lagoMetricCode := 9
  quantity := 5
  rate := ⟨10, by decide⟩
  periods := [periodId 4 7 0]

/-- A tax of twenty percent. -/
def taxedEnv : Env := { now := 0, taxRate := some ⟨20000000000000, by decide⟩, ids := [6] }

def answered : List (Env × Outcome) := List.replicate 40 (taxedEnv, .done)

abbrev plainMachine : Machine := machine (fun _ => "carry") ⟨fun n => n, fun _ _ h => h⟩

/-- The value and the store of code that ended without an error. -/
def finished (x : Option (Except AppError α × Store)) : Option (α × Store) :=
  x.bind fun r => r.1.toOption.map fun a => (a, r.2)

theorem finished_get {x : Option (Except AppError α × Store)} (h : (finished x).isSome = true) :
    x = some (.ok ((finished x).get h).1, ((finished x).get h).2) := by
  cases x with
  | none => cases h
  | some r =>
    obtain ⟨result, t⟩ := r
    cases result with
    | error e => cases h
    | ok a => rfl

def shortPreparation : Option (List (Id × Id × UsageAllowancePeriod) × Store) :=
  finished (plainMachine.alone (prepareRuntimeWindowFunding 7 (some 1) 2 .machineRunningSeconds 0)
    answered fundedStore)

theorem shortPreparation_isSome : shortPreparation.isSome = true := rfl

def prepared : List (Id × Id × UsageAllowancePeriod) × Store :=
  shortPreparation.get shortPreparation_isSome

def shortReservation : Option (BillingReservation × Store) :=
  (reserveRuntimeWindow taxedEnv shortWindow prepared.2).toOption

theorem shortReservation_isSome : shortReservation.isSome = true := rfl

def reservedStore : Store := (shortReservation.get shortReservation_isSome).2

theorem heldRow_isSome : (reservedStore.rows.lookup 6).isSome = true := rfl

/-- Three units of the allowance, five of the grant, and fifteen with their tax on the wallet. -/
def heldRow : UsageMeterRow := (reservedStore.rows.lookup 6).get heldRow_isSome

def measuredRow : UsageMeterRow := { heldRow with quantity := some 4, status := .finalized }

def measuredStore : Store := { reservedStore with rows := reservedStore.rows.insert 6 measuredRow }

def shortSettlement : Option (FundingSettlement × Store) :=
  finished (plainMachine.alone (settleUsageFunding 6 measuredRow) answered measuredStore)

theorem shortSettlement_isSome : shortSettlement.isSome = true := rfl

def settledWindow : FundingSettlement × Store := shortSettlement.get shortSettlement_isSome

theorem measuredStore_unlocked : Unlocked 6 none none measuredStore := by
  have hperiods : ∀ e ∈ measuredStore.periods.entries, e.2.activeSettlement = none := by decide
  have hgrants : ∀ e ∈ measuredStore.grants.entries, e.2.activeSettlement = none := by decide
  constructor
  · intro i period lock _ hperiod hlock
    rw [hperiods ⟨i, period⟩ (AList.mem_lookup_iff.mp hperiod)] at hlock
    cases hlock
  · intro i grant lock _ hgrant hlock
    rw [hgrants ⟨i, grant⟩ (AList.mem_lookup_iff.mp hgrant)] at hlock
    cases hlock

theorem short_window_within_reservation :
    settledWindow.1.walletChargeCredits.pico ≤ heldRow.reservedCredits.pico ∧
      Within 6 heldRow settledWindow.2 := by
  have hreserve : reserveRuntimeWindow taxedEnv shortWindow prepared.2 =
      .ok (shortReservation.get shortReservation_isSome) := by
    have hsome := Option.some_get shortReservation_isSome
    cases hrun : reserveRuntimeWindow taxedEnv shortWindow prepared.2 with
    | ok r => simp only [shortReservation, hrun, Except.toOption, Option.get_some]
    | error e =>
      have hnone := shortReservation_isSome
      simp only [shortReservation, hrun, Except.toOption] at hnone
      cases hnone
  have hprepared : plainMachine.alone (prepareRuntimeWindowFunding shortWindow.ownerId
      shortWindow.serviceId shortWindow.serviceSlug shortWindow.metric 0) answered fundedStore =
        some (.ok prepared.1, prepared.2) := finished_get shortPreparation_isSome
  have hperiods : shortWindow.periods = prepared.1.map (·.2.1) := rfl
  have hrow : measuredStore.rows.lookup 6 = some measuredRow := AList.lookup_insert _
  have hquantity : (0 : ℤ) ≤ 4 ∧ 4 ≤ shortWindow.quantity := by decide
  have hbound := settlement_within_reservation hprepared hperiods hreserve (by decide)
    (Option.some_get heldRow_isSome).symm hrow rfl rfl rfl rfl hquantity measuredStore_unlocked .start
    hrow (finished_get shortSettlement_isSome)
  exact ⟨hbound.1 _ rfl, hbound.2.2⟩

end Example

end NyxId.Billing
