import NyxId.LagoCarry.Accounting

/-!
The law of a cohort: whatever the order and interleaving of its settlements, the
emitted micro-units are the floor of the scaled wallet total, and an overflowing
settlement changes nothing.
-/

namespace NyxId.LagoCarry

open Interleave Machine

/-- Rows of one owner and metric settled at one rate. -/
structure Cohort where
  owner : Id
  metric : Id
  rate : Credits

def Cohort.text (c : Cohort) : Id × Id × String := (c.owner, c.metric, c.rate.display)

def Cohort.Settled (c : Cohort) (row : UsageMeterRow) : Prop :=
  row.settled = true ∧ row.billingOwnerId = c.owner ∧ row.lagoMetricCode = c.metric ∧
    row.fundingD.settlementRate = some c.rate

instance (c : Cohort) (row : UsageMeterRow) : Decidable (c.Settled row) :=
  inferInstanceAs (Decidable (_ ∧ _ ∧ _ ∧ _))

/-- The wallet charges of the cohort's settled rows. -/
def cohortWallet (c : Cohort) (s : Store) : ℤ :=
  Collection.sumOf (fun _ row =>
    if c.Settled row then (row.fundingD.walletFunded.getD .zero).pico else 0) s.rows

/-- The Lago quantities of the cohort's settled rows. -/
def cohortEmitted (c : Cohort) (s : Store) : ℤ :=
  Collection.sumOf (fun _ row =>
    if c.Settled row then row.fundingD.lagoBillableQuantityMicros.getD 0 else 0) s.rows

/-- No other owner, metric and rate among the rows hashes to the cohort's key. -/
def KeyDistinct (digest : Digest) (c : Cohort) (s : Store) : Prop :=
  ∀ id row rate, s.rows.lookup id = some row → row.fundingD.settlementRate = some rate →
    carryKey digest row rate = digest c.text →
      (row.billingOwnerId, row.lagoMetricCode, rate.display) = c.text

variable {digest : Digest}

/-- Under distinct keys, a row is in the carry of the cohort exactly as a member. -/
private theorem carried_iff {c : Cohort} {s : Store} (hkey : KeyDistinct digest c s)
    {id : Id} {row : UsageMeterRow} {rate : Credits} (hrow : s.rows.lookup id = some row)
    (hrate : row.fundingD.settlementRate = some rate) :
    carryKey digest row rate = digest c.text ↔
      row.billingOwnerId = c.owner ∧ row.lagoMetricCode = c.metric ∧ rate = c.rate := by
  constructor
  · intro h
    have htext := hkey id row rate hrow hrate h
    simp only [Cohort.text, Prod.mk.injEq] at htext
    exact ⟨htext.1, htext.2.1, Credits.display_injective htext.2.2⟩
  · rintro ⟨howner, hmetric, rfl⟩
    simp only [carryKey, Cohort.text, howner, hmetric]

private theorem term_eq {c : Cohort} {s : Store} (hs : Inv digest s)
    (hkey : KeyDistinct digest c s) {f : UsageMeterRow → ℤ}
    (hf : ∀ row, row.fundingD.walletFunded = some .zero →
      row.fundingD.lagoBillableQuantityMicros = some 0 → f row = 0)
    (id : Id) (row : UsageMeterRow) (hrow : s.rows.lookup id = some row) :
    (if c.Settled row then f row else 0) =
      if row.settled ∧ row.fundingD.lagoCarryId = some (digest c.text) then f row else 0 := by
  by_cases hsettled : row.settled = true
  · rcases (hs.rows id row hrow hsettled).carried with ⟨hnone, hwallet, hq⟩ | ⟨rate, hrate, hid⟩
    · rw [hf row hwallet hq, ite_self, ite_self]
    · apply if_congr _ rfl rfl
      have hiff := carried_iff hkey hrow hrate
      simp only [Cohort.Settled, hsettled, true_and, hrate, hid, Option.some.injEq, hiff]
  · simp [Cohort.Settled, hsettled]

theorem cohortWallet_eq {c : Cohort} {s : Store} (hs : Inv digest s)
    (hkey : KeyDistinct digest c s) :
    cohortWallet c s = (previousTotal (s.carries.lookup (digest c.text))).pico := by
  rw [← (hs.carries (digest c.text)).wallet_sum]
  exact Collection.sumOf_congr _ _ _
    (term_eq hs hkey (f := fun row => (row.fundingD.walletFunded.getD .zero).pico)
      (fun row hwallet _ => by simp [hwallet]))

theorem cohortEmitted_eq {c : Cohort} {s : Store} (hs : Inv digest s)
    (hkey : KeyDistinct digest c s) :
    cohortEmitted c s = previousEmitted (s.carries.lookup (digest c.text)) := by
  rw [← (hs.carries (digest c.text)).emitted_sum]
  exact Collection.sumOf_congr _ _ _
    (term_eq hs hkey (f := fun row => row.fundingD.lagoBillableQuantityMicros.getD 0)
      (fun row _ hq => by simp [hq]))

/-- The carry kept under the cohort's key is at the cohort's rate. -/
theorem carry_rate {c : Cohort} {s : Store} (hs : Inv digest s) (hkey : KeyDistinct digest c s)
    {d : BillingLagoCarry} (hd : s.carries.lookup (digest c.text) = some d) :
    d.rate = c.rate := by
  obtain ⟨id, row, hrow, hmember⟩ := (hs.carries (digest c.text)).member d hd
  exact ((carried_iff hkey hrow hmember.rate_eq).mp hmember.key_eq).2.2

/-- Emissions are the floor of the scaled wallet total. -/
theorem emitted_eq_floor {c : Cohort} {s : Store} (hs : Inv digest s)
    (hkey : KeyDistinct digest c s) :
    cohortEmitted c s = cohortWallet c s * 1000000 / c.rate.pico := by
  rw [cohortEmitted_eq hs hkey, cohortWallet_eq hs hkey]
  cases hd : s.carries.lookup (digest c.text) with
  | none => simp [previousEmitted, previousTotal]
  | some d =>
    have hcum := (hs.carries (digest c.text)).cumulative d hd
    rw [carry_rate hs hkey hd] at hcum
    exact hcum.emitted_eq

/-- The stored carry agrees with the cohort and keeps less than one micro-unit. -/
structure CarryInRange (c : Cohort) (s : Store) (d : BillingLagoCarry) : Prop where
  rate : d.rate = c.rate
  wallet : d.walletTotal.pico = cohortWallet c s
  emitted : d.emittedQuantityMicros = cohortEmitted c s
  remainder : 0 ≤ d.remainderNumerator ∧ d.remainderNumerator < c.rate.pico
  exact_total : d.emittedQuantityMicros * c.rate.pico + d.remainderNumerator =
    cohortWallet c s * 1000000

theorem carryInRange {c : Cohort} {s : Store} (hs : Inv digest s)
    (hkey : KeyDistinct digest c s) {d : BillingLagoCarry}
    (hd : s.carries.lookup (digest c.text) = some d) : CarryInRange c s d := by
  have hcum := (hs.carries (digest c.text)).cumulative d hd
  have hrate := carry_rate hs hkey hd
  have hwallet := cohortWallet_eq hs hkey
  have hemitted := cohortEmitted_eq hs hkey
  rw [hd] at hwallet hemitted
  rw [hrate] at hcum
  refine ⟨hrate, hwallet.symm, hemitted.symm, ?_, ?_⟩
  · rw [hcum.remainder_eq]
    have hpos := hcum.rate_pos
    exact ⟨Int.emod_nonneg _ (by omega), Int.emod_lt_of_pos _ hpos⟩
  · rw [hcum.emitted_eq, hcum.remainder_eq, hwallet]
    exact Int.ediv_mul_add_emod _ _

/-- An error of the carry transaction leaves both documents as they were. -/
theorem commit_error_unchanged (w : ℕ) (env : Env) (id : Id) (row : UsageMeterRow)
    (wallet rate : Credits) (fields : SettlementFields) (s : Store) {e : AppError}
    (h : (exec digest w env (.commit id row wallet rate fields) s).1 = .error e) :
    (exec digest w env (.commit id row wallet rate fields) s).2 = s := by
  revert h
  simp only [exec]
  split
  · exact fun _ => rfl
  · split
    · exact fun h => by cases h
    · exact fun _ => rfl

/-- A settlement that would overflow is answered with an error. -/
theorem commit_overflow (w : ℕ) (env : Env) (id : Id) (row : UsageMeterRow)
    (wallet rate : Credits) (fields : SettlementFields) (s : Store)
    (hopen : ∀ saved, s.rows.lookup id = some saved → ¬ saved.settled)
    (hover : ¬ Representable (s.carries.lookup (carryKey digest row rate)) wallet rate) :
    ∃ e, (exec digest w env (.commit id row wallet rate fields) s).1 = .error e := by
  simp only [exec]
  split
  · exact ⟨_, rfl⟩
  split
  · rename_i settlement t hcommit
    unfold commitTransaction at hcommit
    split at hcommit
    · cases hcommit
    rename_i saved hrow
    rw [if_neg (hopen saved hrow)] at hcommit
    split at hcommit
    · cases hcommit
    obtain ⟨e, he⟩ := nextCarry_error_of_not_representable row hover
    obtain ⟨answer, hnext, -⟩ := bind_eq_ok.mp hcommit
    rw [he] at hnext
    cases hnext
  · exact ⟨_, rfl⟩

/-- The carry law of a cohort in every reachable state. -/
theorem cohort_carry_law (c : Cohort) {s : Store} (hs : Initial s)
    {cfg : (machine digest).Config} (hreach : Reaches anyStep s cfg)
    (hkey : KeyDistinct digest c cfg.store) :
    cohortEmitted c cfg.store = cohortWallet c cfg.store * 1000000 / c.rate.pico ∧
    (∀ id row, cfg.store.rows.lookup id = some row → row.settled →
      0 ≤ row.fundingD.lagoBillableQuantityMicros.getD 0) ∧
    (∀ other : (machine digest).Config, Reaches anyStep s other →
      KeyDistinct digest c other.store → cohortWallet c other.store = cohortWallet c cfg.store →
      cohortEmitted c other.store = cohortEmitted c cfg.store) ∧
    (∀ d, cfg.store.carries.lookup (digest c.text) = some d → CarryInRange c cfg.store d) ∧
    (∀ w env id row wallet rate fields,
      (∀ saved, cfg.store.rows.lookup id = some saved → ¬ saved.settled) →
      ¬ Representable (cfg.store.carries.lookup (carryKey digest row rate)) wallet rate →
      (∃ e, (exec digest w env (.commit id row wallet rate fields) cfg.store).1 = .error e) ∧
        (exec digest w env (.commit id row wallet rate fields) cfg.store).2 = cfg.store) := by
  have hinv := inv_of_reaches hs hreach
  refine ⟨emitted_eq_floor hinv hkey, ?_, ?_, ?_, ?_⟩
  · exact fun id row hrow hsettled => (hinv.rows id row hrow hsettled).emitted_nonneg
  · intro other hother hotherKey hwallet
    rw [emitted_eq_floor (inv_of_reaches hs hother) hotherKey, emitted_eq_floor hinv hkey, hwallet]
  · exact fun d hd => carryInRange hinv hkey hd
  · intro w env id row wallet rate fields hopen hover
    obtain ⟨e, he⟩ := commit_overflow w env id row wallet rate fields cfg.store hopen hover
    exact ⟨⟨e, he⟩, commit_error_unchanged w env id row wallet rate fields cfg.store he⟩

/-- A platform row that awaits settlement at a rate of three picocredits. -/
def openRow : UsageMeterRow where
  billingRequestId := 0
  layer := .platform
  billingOwnerId := 1
  walletId := some 1
  metric := .requests
  lagoMetricCode := 2
  reservedCredits := .zero
  funding := some { settlementRate := some ⟨3, by decide⟩ }
  quantity := some 1
  status := .finalized
  forwarded := true
  released := false
  settlementAttempts := 0
  settlementNextRetryAt := none
  finalizedAt := some 0
  updatedAt := 0

def onePico : SettlementFields where
  totalCharge := ⟨1, Credits.one_inRange⟩
  allowanceFundedQuantity := 0
  allowanceFunded := .zero
  grantFunded := .zero
  walletFunded := ⟨1, Credits.one_inRange⟩
  walletChargeCredits := ⟨1, Credits.one_inRange⟩
  walletTaxCredits := .zero

def openRows : Store where
  rows := (AList.insert 20 openRow ∅).insert 10 openRow
  carries := ∅

/-- The digest of the one cohort that occurs. -/
def requestDigest : Digest := fun text =>
  if text = (1, 2, "0.000000000003") then
    "90b702643e462530b07332624d0f703d568df6352d8d557b76467b5c503ca7f3"
  else ""

/-- Two workers settle a row each, one operation at a time in turn. -/
def alternating : List (machine requestDigest).Choice :=
  [.spawn ⟨10, .zero, onePico⟩, .spawn ⟨20, .zero, onePico⟩, .step 0 ⟨0, false⟩ .done,
    .step 1 ⟨0, false⟩ .done, .step 1 ⟨1, true⟩ .done, .step 0 ⟨2, false⟩ .done,
    .step 1 ⟨3, false⟩ .done]

/-- Two charges of a third of a unit emit two thirds, rounded down once. -/
theorem two_thirds_emitted :
    cohortWallet ⟨1, 2, ⟨3, by decide⟩⟩ (run openRows alternating).store = 2 ∧
      cohortEmitted ⟨1, 2, ⟨3, by decide⟩⟩ (run openRows alternating).store = 666666 := by
  have hinit : Initial openRows := by
    refine ⟨fun id row hrow => ?_, rfl⟩
    have hsame : row = openRow := by
      by_cases h10 : id = 10
      · subst h10
        exact (Option.some.inj hrow).symm
      · rw [openRows, AList.lookup_insert_ne h10] at hrow
        by_cases h20 : id = 20
        · subst h20
          exact (Option.some.inj hrow).symm
        · rw [AList.lookup_insert_ne h20] at hrow
          cases hrow
    subst hsame
    exact ⟨rfl, rfl⟩
  have hkey : KeyDistinct requestDigest ⟨1, 2, ⟨3, by decide⟩⟩ (run openRows alternating).store := by
    intro id row rate _ _ h
    have htext : Cohort.text ⟨1, 2, ⟨3, by decide⟩⟩ = (1, 2, "0.000000000003") := by decide
    rw [htext] at h ⊢
    by_contra hne
    simp [carryKey, requestDigest, hne] at h
  have hwallet : cohortWallet ⟨1, 2, ⟨3, by decide⟩⟩ (run openRows alternating).store = 2 := by
    decide
  refine ⟨hwallet, ?_⟩
  rw [(cohort_carry_law _ hinit (reaches_run openRows alternating) hkey).1, hwallet]
  rfl

end NyxId.LagoCarry
