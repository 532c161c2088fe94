import NyxId.SettlementIntent.Schedules

/-!
What one settlement intent decides about its request, under every schedule of savings,
sweeps, releases and renewals.
-/

namespace NyxId.SettlementIntent

open Interleave Machine

/-- Rows finalized from components have the quantities of one recorded usage. -/
structure OneUsage (s : Store) : Prop where
  agree : ∀ id usage id' usage' row row', Event.component id usage ∈ s.history →
    Event.component id' usage' ∈ s.history → s.rows.lookup id = some row →
    s.rows.lookup id' = some row' → row.billingRequestId = row'.billingRequestId → usage = usage'
  quantity : ∀ id usage, Event.component id usage ∈ s.history → ∃ row,
    s.rows.lookup id = some row ∧ row.quantity = some (componentQuantity usage row) ∧
      Recorded s row.billingRequestId usage

/-- An abandoned row of a request with an intent is a resale row that the intent is silent on. -/
def IntentKept (s : Store) : Prop :=
  ∀ request usage resale id owner amount row, Event.recorded request usage resale ∈ s.history →
    Event.released id owner amount ∈ s.history → s.rows.lookup id = some row →
    row.billingRequestId = request → row.layer = .resale ∧ resale = none

/-- No row with a quantity was given back as unknown. -/
def NeverBoth (s : Store) : Prop :=
  ∀ id owner amount row, Event.released id owner amount ∈ s.history →
    s.rows.lookup id = some row → row.quantity = none

/-- Each part of an intent is on the coordinator until the rows of its layer have quantities. -/
structure RemovedLast (s : Store) : Prop where
  intents : ∀ request usage resale, Event.recorded request usage resale ∈ s.history →
    IntentOk s request usage resale
  usage : ∀ request, Event.usageRemoved request ∈ s.history → Quantified s request .platform
  resale : ∀ request, Event.resaleRemoved request ∈ s.history → Quantified s request .resale

/-- Abandoning a row gives its hold back once, and nothing else but settlement takes funds. -/
structure GivenBackOnce (funds : Collection Id ℤ) (s : Store) : Prop where
  releases : ∀ id row, s.rows.lookup id = some row → ReleaseOk s.history id row
  wallets : ∀ owner, s.wallets.lookup owner =
    (funds.lookup owner).map fun reserved => reserved - (s.history.map (Event.taken owner)).sum

structure Decided (funds : Collection Id ℤ) (s : Store) : Prop where
  oneUsage : OneUsage s
  kept : IntentKept s
  neverBoth : NeverBoth s
  removedLast : RemovedLast s
  givenBack : GivenBackOnce funds s

variable {digest : ModelChargeVector → String} {pooled : Id → Bool} {funds : Collection Id ℤ}
  {s : Store}

/-- Only abandoned rows were ever given back. -/
theorem Inv.abandoned_of_released (h : Inv pooled funds s) {id owner : Id} {amount : ℤ}
    {row : MeterRow} (hmem : Event.released id owner amount ∈ s.history)
    (hrow : s.rows.lookup id = some row) : row.status = .abandoned := by
  by_contra hopen
  have hreleases := h.releases id row hrow
  unfold ReleaseOk at hreleases
  rw [if_neg hopen, List.filter_eq_nil_iff] at hreleases
  exact hreleases _ hmem (decide_eq_true rfl)

theorem Inv.oneUsage (h : Inv pooled funds s) : OneUsage s where
  agree := by
    intro id usage id' usage' row row' hmem hmem' hrow hrow' hrequest
    obtain ⟨found, hfound, -, resale, hrecorded⟩ := h.components id usage hmem
    obtain ⟨found', hfound', -, resale', hrecorded'⟩ := h.components id' usage' hmem'
    rw [hrow] at hfound
    rw [hrow'] at hfound'
    cases hfound
    cases hfound'
    rw [← hrequest] at hrecorded'
    exact (h.single _ _ _ _ _ hrecorded hrecorded').1
  quantity := h.components

theorem Inv.intentKept (h : Inv pooled funds s) : IntentKept s := by
  intro request usage resale id owner amount row hrecorded hreleased hrow hrequest
  exact h.kept request usage resale id row hrecorded hrow hrequest
    (h.abandoned_of_released hreleased hrow)

theorem Inv.neverBoth (h : Inv pooled funds s) : NeverBoth s := by
  intro id owner amount row hreleased hrow
  exact (h.rows id row hrow).abandoned (h.abandoned_of_released hreleased hrow)

theorem Inv.decided (h : Inv pooled funds s) : Decided funds s where
  oneUsage := h.oneUsage
  kept := h.intentKept
  neverBoth := h.neverBoth
  removedLast := ⟨h.intents, h.usageRemoved, h.resaleRemoved⟩
  givenBack := ⟨h.releases, h.wallets⟩

/-- In every interleaving, crashes included, a request is decided by one intent. -/
theorem intent_decides (hs : Opened pooled s) {c : (machine digest).Config}
    (hc : Reaches anyStep s c) : Decided s.wallets c.store :=
  (inv_of_reaches hs hc).decided

/-- A row of a pool attempt, sent on and not yet reported. -/
def forwardedRow (layer : BillingLayer) : MeterRow where
  billingRequestId := 1
  billingOwnerId := 2
  layer := layer
  transactionId := transactionId 1 layer
  metric := .requests
  lagoMetricCode := 3
  status := .forwarded
  released := false
  reservedCredits := 5
  quantity := none
  model := none
  reportedModel := none
  pendingPlatformUsage := none
  pendingResaleQuantity := none
  modelTariff := none
  poolAttempt := some ⟨100, none⟩
  lastError := none
  updatedAt := 0
  finalizedAt := none

def openedRows : Store where
  rows := (AList.insert 20 (forwardedRow .resale) ∅).insert 10 (forwardedRow .platform)
  wallets := AList.insert 2 10 ∅
  cursor := none
  history := []

theorem openedRows_opened : Opened (fun _ => true) openedRows := by
  have hrows : ∀ id row, openedRows.rows.lookup id = some row →
      id = 10 ∧ row = forwardedRow .platform ∨ id = 20 ∧ row = forwardedRow .resale := by
    intro id row hrow
    by_cases h10 : id = 10
    · subst h10
      exact Or.inl ⟨rfl, (Option.some.inj hrow).symm⟩
    · rw [openedRows, AList.lookup_insert_ne h10] at hrow
      by_cases h20 : id = 20
      · subst h20
        exact Or.inr ⟨rfl, (Option.some.inj hrow).symm⟩
      · rw [AList.lookup_insert_ne h20] at hrow
        cases hrow
  have hrow (layer : BillingLayer) : RowOk (fun _ => true) (forwardedRow layer) :=
    ⟨rfl, rfl, fun _ => rfl, rfl, fun _ => ⟨rfl, rfl⟩, fun h => (nomatch h)⟩
  refine ⟨rfl, ?_, ?_⟩
  · intro id row id' row' hfound hfound' htid
    rcases hrows id row hfound with ⟨rfl, rfl⟩ | ⟨rfl, rfl⟩ <;>
      rcases hrows id' row' hfound' with ⟨rfl, rfl⟩ | ⟨rfl, rfl⟩
    · rfl
    · exact absurd htid (by decide)
    · exact absurd htid (by decide)
    · rfl
  · intro id row hfound
    rcases hrows id row hfound with ⟨-, rfl⟩ | ⟨-, rfl⟩
    · exact ⟨hrow _, fun h => (nomatch h), rfl⟩
    · exact ⟨hrow _, fun h => (nomatch h), rfl⟩

def oneRequest : PlatformUsage := { requests := 1 }

/-- The usage of the components is reported without any of the resale layer. -/
def unreportedResale : List (machine fun _ => "").Choice :=
  .spawn (.persist ⟨1, true, .requests, true, true, none⟩ oneRequest none none) ::
    .spawn (.finish 1 .reported 1) ::
    (List.replicate 5 (.step 0 { now := 7 } .done) ++ List.replicate 4 (.step 1 { now := 7 } .done))

/-- The hold of the resale row comes back once and the wallet keeps the other one. -/
theorem unreported_resale_decided :
    Decided openedRows.wallets (run openedRows unreportedResale).store ∧
      (run openedRows unreportedResale).store.wallets.lookup 2 = some 5 :=
  ⟨intent_decides openedRows_opened (reaches_run openedRows unreportedResale), by decide⟩

theorem unreported_resale_history : (run openedRows unreportedResale).store.history =
    [.released 20 2 5, .settledHold 2 0, .usageRemoved 1, .component 10 oneRequest,
      .recorded 1 oneRequest none] := by
  decide

/-- A row of the request is given back as unknown although an intent was recorded before. -/
theorem released_after_intent : ¬ ∀ c : (machine fun _ => "").Config,
    Reaches anyStep openedRows c → ∀ newer older request usage resale id owner amount row,
      c.store.history = newer ++ Event.released id owner amount :: older →
      Event.recorded request usage resale ∈ older → c.store.rows.lookup id = some row →
      row.billingRequestId ≠ request := by
  intro hclaim
  have hrow : ((run openedRows unreportedResale).store.rows.lookup 20).map
      (·.billingRequestId) = some 1 := by
    decide
  obtain ⟨row, hlookup, hrequest⟩ := Option.map_eq_some_iff.mp hrow
  exact hclaim _ (reaches_run openedRows unreportedResale) [] _ 1 oneRequest none 20 2 5 row
    unreported_resale_history (by decide) hlookup hrequest

end NyxId.SettlementIntent
