import NyxId.Billing.Updates
import NyxId.Billing.Operations

/-!
What a usage row keeps through its life. Updates move a row forward: who pays,
what is reserved and what has been measured or settled never changes again.
-/

namespace NyxId.Billing

open Interleave

/-- What one settlement commits about a row, once and for all. -/
def outcome (f : UsageFunding) :
    Option Credits × Option Credits × Option ℤ × Option Credits × Option Credits ×
      Option Credits × Option Credits :=
  (f.settlementRate, f.totalCharge, f.allowanceFundedQuantity, f.grantFunded, f.walletFunded,
    f.walletChargeCredits, f.walletTaxCredits)

/-- The well-formedness of one row. -/
structure RowOk (row : UsageMeterRow) : Prop where
  open_unmeasured : row.status = .reserved ∨ row.status = .forwarded → row.quantity = none
  settled_unclaimed : row.settled = true → row.claim = none

/-- A later state of the same row. -/
structure RowGrows (row later : UsageMeterRow) : Prop where
  transaction : later.billingRequestId = row.billingRequestId ∧ later.layer = row.layer ∧
    later.lagoMetricCode = row.lagoMetricCode
  owner : later.billingOwnerId = row.billingOwnerId
  wallet : later.walletId = row.walletId
  metric : later.metric = row.metric
  measured : ∀ q, row.quantity = some q → later.quantity = some q
  settled : row.settled = true →
    later.settled = true ∧ outcome later.fundingD = outcome row.fundingD
  allowanceReservations :
    later.fundingD.allowanceReservations = row.fundingD.allowanceReservations
  grantReservations : later.fundingD.grantReservations = row.fundingD.grantReservations
  allowanceConsumptions :
    row.fundingD.allowanceConsumptions <+: later.fundingD.allowanceConsumptions
  grantConsumptions : row.fundingD.grantConsumptions <+: later.fundingD.grantConsumptions

theorem RowGrows.refl (row : UsageMeterRow) : RowGrows row row := by
  constructor <;> simp

theorem RowGrows.trans {a b c : UsageMeterRow} (hab : RowGrows a b) (hbc : RowGrows b c) :
    RowGrows a c where
  transaction := ⟨hbc.transaction.1.trans hab.transaction.1,
    hbc.transaction.2.1.trans hab.transaction.2.1, hbc.transaction.2.2.trans hab.transaction.2.2⟩
  owner := hbc.owner.trans hab.owner
  wallet := hbc.wallet.trans hab.wallet
  metric := hbc.metric.trans hab.metric
  measured := fun q h => hbc.measured q (hab.measured q h)
  settled := fun h =>
    ⟨(hbc.settled (hab.settled h).1).1, (hbc.settled (hab.settled h).1).2.trans (hab.settled h).2⟩
  allowanceReservations := hbc.allowanceReservations.trans hab.allowanceReservations
  grantReservations := hbc.grantReservations.trans hab.grantReservations
  allowanceConsumptions := hab.allowanceConsumptions.trans hbc.allowanceConsumptions
  grantConsumptions := hab.grantConsumptions.trans hbc.grantConsumptions

theorem RowGrows.transactionId_eq {row later : UsageMeterRow} (h : RowGrows row later) :
    transactionId later = transactionId row := by
  simp only [transactionId, h.transaction.1, h.transaction.2.1, h.transaction.2.2]

theorem RowUpdate.grows {u : RowUpdate} {now : Time} {row : UsageMeterRow} (hrow : RowOk row)
    (hadm : u.admits now row) : RowGrows row (u.apply now row) := by
  have hopen := hrow.open_unmeasured
  cases u <;> constructor <;>
    simp_all [RowUpdate.admits, RowUpdate.apply, UsageMeterRow.settled, UsageMeterRow.fundingD, outcome]

theorem RowUpdate.ok {u : RowUpdate} {now : Time} {row : UsageMeterRow} (hrow : RowOk row)
    (hadm : u.admits now row) : RowOk (u.apply now row) := by
  obtain ⟨hopen, hclaim⟩ := hrow
  cases u
  case settlementFailure attempts next =>
    cases next <;> constructor <;> simp_all [RowUpdate.apply, UsageMeterRow.settled,
      UsageMeterRow.claim, UsageMeterRow.fundingD]
  all_goals
    constructor <;> simp_all [RowUpdate.admits, RowUpdate.apply, UsageMeterRow.settled,
      UsageMeterRow.claim, UsageMeterRow.fundingD]

theorem setClaim_step {row : UsageMeterRow} {claim : ClaimId} {now : Time} (hrow : RowOk row)
    (hopen : row.claimable now) :
    RowGrows row (row.setClaim claim now) ∧ RowOk (row.setClaim claim now) := by
  have hunsettled : row.settled = false := by
    simp only [UsageMeterRow.claimable, Bool.and_eq_true, Bool.not_eq_true'] at hopen
    exact hopen.1.2
  obtain ⟨hopen', hclaim⟩ := hrow
  constructor <;> constructor <;>
    simp_all [UsageMeterRow.setClaim, UsageMeterRow.settled, UsageMeterRow.fundingD]

def frozenRow (row : UsageMeterRow) (rate : Credits) : UsageMeterRow :=
  { row with funding := some { row.fundingD with settlementRate := some rate } }

theorem freeze_step {row : UsageMeterRow} {claim : ClaimId} {rate : Credits} (hrow : RowOk row)
    (hclaimed : row.claim = some claim) :
    RowGrows row (frozenRow row rate) ∧ RowOk (frozenRow row rate) := by
  have hunsettled : row.settled = false := by
    cases hs : row.settled with
    | false => rfl
    | true =>
      rw [hrow.settled_unclaimed hs] at hclaimed
      cases hclaimed
  obtain ⟨hopen, hclaim⟩ := hrow
  constructor <;> constructor <;>
    simp_all [frozenRow, UsageMeterRow.settled, UsageMeterRow.fundingD,
      UsageMeterRow.claim]

theorem commit_step {row : UsageMeterRow} {fields : SettlementFields} {quantity : ℤ}
    {carryId : Option String} {now : Time} (hrow : RowOk row) (hunsettled : row.settled = false) :
    RowGrows row (row.commit fields quantity carryId now) ∧
      RowOk (row.commit fields quantity carryId now) := by
  obtain ⟨hopen, hclaim⟩ := hrow
  constructor <;> constructor <;>
    simp_all [UsageMeterRow.commit, UsageMeterRow.settled, UsageMeterRow.fundingD,
      UsageMeterRow.claim]

/-- What an update of a row does, if it matched. -/
theorem updateRow_cases (s : Store) (w : ℕ) (now : Time) (id : Id) (u : RowUpdate) :
    ((s.updateRow w now id u).1 = none ∧ (s.updateRow w now id u).2 = s) ∨
      ∃ row, s.rows.lookup id = some row ∧ u.admits now row ∧
        s.updateRow w now id u = (some (row, u.apply now row), { s with
          rows := s.rows.insert id (u.apply now row)
          owed := Store.owe w row u s.owed
          log := .row id u :: s.log }) := by
  unfold Store.updateRow
  cases hrow : s.rows.lookup id with
  | none => exact .inl ⟨rfl, rfl⟩
  | some row =>
    by_cases hadm : u.admits now row
    · exact .inr ⟨row, rfl, hadm, by simp [hadm]⟩
    · exact .inl (by simp [hadm])

theorem claimFunding_cases (digest : LagoCarry.Digest) (w : ℕ) (env : Env) (id : Id)
    (s : Store) :
    exec digest w env (.claimFunding id) s = (none, s) ∨
      ∃ row, s.rows.lookup id = some row ∧ row.claimable env.now ∧
        exec digest w env (.claimFunding id) s =
          (some (row.setClaim w env.now),
            { s with rows := s.rows.insert id (row.setClaim w env.now) }) := by
  simp only [exec, Store.carry, LagoCarry.exec]
  cases hrow : s.rows.lookup id with
  | none => exact .inl rfl
  | some row =>
    by_cases hclaim : row.claimable env.now
    · exact .inr ⟨row, rfl, hclaim, by simp [hclaim]⟩
    · exact .inl (by simp [hclaim])

theorem freezeRate_cases (digest : LagoCarry.Digest) (w : ℕ) (env : Env) (id : Id)
    (rate : Credits) (s : Store) :
    exec digest w env (.freezeRate id rate) s = (false, s) ∨
      ∃ row, s.rows.lookup id = some row ∧ row.claim = some w ∧
        exec digest w env (.freezeRate id rate) s =
          (true, { s with rows := s.rows.insert id (frozenRow row rate) }) := by
  simp only [exec, Store.carry, LagoCarry.exec]
  cases hrow : s.rows.lookup id with
  | none => exact .inl rfl
  | some row =>
    by_cases hclaim : row.claim = some w
    · exact .inr ⟨row, rfl, hclaim, by simp only [hclaim, if_true, frozenRow]⟩
    · exact .inl (by simp [hclaim])

theorem settleWithoutWallet_cases (digest : LagoCarry.Digest) (w : ℕ) (env : Env) (id : Id)
    (claim : ClaimId) (fields : SettlementFields) (s : Store) :
    exec digest w env (.settleWithoutWallet id claim fields) s = (false, s) ∨
      ∃ row, s.rows.lookup id = some row ∧ row.claim = some claim ∧ row.settled = false ∧
        exec digest w env (.settleWithoutWallet id claim fields) s =
          (true, { s with rows := s.rows.insert id (row.commit fields 0 none env.now) }) := by
  simp only [exec, Store.carry, LagoCarry.exec]
  cases hrow : s.rows.lookup id with
  | none => exact .inl rfl
  | some row =>
    by_cases hopen : row.claim = some claim ∧ ¬ row.settled
    · exact .inr ⟨row, rfl, hopen.1, by simpa using hopen.2, by simp only [if_pos hopen]⟩
    · exact .inl (by simp only [if_neg hopen])

/-- A commit fails, finds the row settled, or settles it under the caller's claim. -/
theorem commitCarry_cases (digest : LagoCarry.Digest) (w : ℕ) (env : Env) (id : Id)
    (row : UsageMeterRow) (wallet rate : Credits) (fields : SettlementFields) (s : Store) :
    (∃ e, exec digest w env (.commitCarry id row wallet rate fields) s = (.error e, s)) ∨
    (∃ saved, s.rows.lookup id = some saved ∧ saved.settled = true ∧
      exec digest w env (.commitCarry id row wallet rate fields) s =
        (.ok (settlementFromFunding saved.fundingD), s)) ∨
    ∃ saved quantity carryId carries, s.rows.lookup id = some saved ∧ saved.settled = false ∧
      row.claim.isSome ∧ saved.claim = row.claim ∧
      exec digest w env (.commitCarry id row wallet rate fields) s =
        (.ok ⟨fields.walletChargeCredits, quantity⟩, { s with
          rows := s.rows.insert id (saved.commit fields quantity carryId env.now)
          carries := carries }) := by
  simp only [exec, Store.carry, LagoCarry.exec]
  by_cases hdup : env.duplicate
  · exact .inl ⟨.duplicateKey, by rw [if_pos hdup]⟩
  simp only [hdup, Bool.false_eq_true, if_false]
  cases hcommit : LagoCarry.commitTransaction digest env.now id row wallet rate fields
      ⟨s.rows, s.carries⟩ with
  | error e => exact .inl ⟨e, rfl⟩
  | ok answer =>
    obtain ⟨settlement, t⟩ := answer
    refine .inr ?_
    unfold LagoCarry.commitTransaction at hcommit
    cases hrow : s.rows.lookup id with
    | none =>
      rw [hrow] at hcommit
      cases hcommit
    | some saved =>
      rw [hrow] at hcommit
      dsimp only at hcommit
      by_cases hsettled : saved.settled
      · rw [if_pos hsettled] at hcommit
        cases hcommit
        exact .inl ⟨saved, rfl, hsettled, rfl⟩
      · rw [if_neg hsettled] at hcommit
        split at hcommit
        · cases hcommit
        · rename_i hclaim
          obtain ⟨⟨carry, q⟩, -, hnext⟩ := bind_eq_ok.mp hcommit
          cases hnext
          refine .inr ⟨saved, q, _, _, rfl, by simpa using hsettled, ?_, ?_, rfl⟩
          · cases hc : row.claim <;> simp_all
          · by_contra hne
            exact hclaim (.inr hne)

end NyxId.Billing
