import NyxId.UsageMeter

/-!
The durable Lago carry: one document for each owner, metric and unit rate holds
the wallet total of its cohort and the micro-units emitted so far. A settlement
commits the row and the carry in one transaction.
-/

namespace NyxId.LagoCarry

open Interleave

structure BillingLagoCarry where
  ownerId : Id
  metricCode : Id
  rate : Credits
  walletTotal : Credits
  emittedQuantityMicros : ℤ
  remainderNumerator : ℤ
  deriving DecidableEq

/-- Micro-units covered by a wallet total, and the numerator left over. -/
def cumulativeQuantity (total rate : Credits) : Except AppError (ℤ × ℤ) :=
  if total.pico < 0 ∨ rate.pico ≤ 0 then
    .error (.internal "invalid Lago carry amount or rate")
  else do
    -- The division comes first: the scaled total can overflow where its quotient fits.
    let whole := total.pico.tdiv rate.pico
    let remainder ← creditsOrError (checkedI128 (total.pico.tmod rate.pico * 1000000))
    let emitted ← creditsOrError ((checkedI128 (whole * 1000000)).bind fun v =>
      checkedI128 (v + remainder.tdiv rate.pico))
    return (emitted, remainder.tmod rate.pico)

/-- The key text is hashed outside the repository's own code. -/
abbrev Digest := Id × Id × String → String

def carryKey (digest : Digest) (row : UsageMeterRow) (rate : Credits) : String :=
  digest (row.billingOwnerId, row.lagoMetricCode, rate.display)

structure Store where
  rows : Collection Id UsageMeterRow
  carries : Collection String BillingLagoCarry

def lostClaim : AppError := .internal "carry settlement lost its claim"

/-- The carry after one more wallet charge, with the quantity this charge emits. -/
def nextCarry (old : Option BillingLagoCarry) (row : UsageMeterRow) (wallet rate : Credits) :
    Except AppError (BillingLagoCarry × ℤ) := do
  let previous := (old.map (·.walletTotal)).getD .zero
  let oldEmitted := (old.map (·.emittedQuantityMicros)).getD 0
  let total ← creditsOrError (previous.checkedAdd wallet)
  let (emitted, remainder) ← cumulativeQuantity total rate
  let difference ← creditsOrError (checkedI128 (emitted - oldEmitted))
  match checkedI64 difference with
  | none => .error (.internal "Lago quantity overflow")
  | some q =>
    if q < 0 then
      .error (.internal "Lago carry regressed")
    else
      return ({ ownerId := row.billingOwnerId
                metricCode := row.lagoMetricCode
                rate := rate
                walletTotal := total
                emittedQuantityMicros := emitted
                remainderNumerator := remainder }, q)

/-- The body of the carry transaction on the committed documents. -/
def commitTransaction (digest : Digest) (now : Time) (id : Id) (row : UsageMeterRow)
    (wallet rate : Credits) (fields : SettlementFields) (s : Store) :
    Except AppError (FundingSettlement × Store) :=
  match s.rows.lookup id with
  | none => .error (.internal "carry usage row is missing")
  | some saved =>
    if saved.settled then
      .ok (settlementFromFunding saved.fundingD, s)
    else if row.claim.isNone ∨ saved.claim ≠ row.claim then
      .error lostClaim
    else do
      let key := carryKey digest row rate
      let (carry, q) ← nextCarry (s.carries.lookup key) row wallet rate
      return ({ walletChargeCredits := fields.walletChargeCredits
                lagoBillableQuantityMicros := q },
        { rows := s.rows.insert id (saved.commit fields q (some key) now)
          carries := s.carries.insert key carry })

/-- Clock and transaction conflicts at one operation. -/
structure Env where
  now : Time
  /-- Another transaction created the same carry document first. -/
  duplicate : Bool := false

inductive Op : Type → Type where
  | claimRow (id : Id) : Op (Option UsageMeterRow)
  | freezeRate (id : Id) (rate : Credits) : Op Bool
  | findRow (id : Id) : Op (Option UsageMeterRow)
  | settleWithoutWallet (id : Id) (claim : ClaimId) (fields : SettlementFields) : Op Bool
  | commit (id : Id) (row : UsageMeterRow) (wallet rate : Credits)
      (fields : SettlementFields) : Op (Except AppError FundingSettlement)

def exec (digest : Digest) (w : ℕ) (env : Env) : {β : Type} → Op β → Store → β × Store
  | _, .claimRow id, s =>
    match s.rows.lookup id with
    | some row =>
      if row.claimable env.now then
        let claimed := row.setClaim w env.now
        (some claimed, { s with rows := s.rows.insert id claimed })
      else (none, s)
    | none => (none, s)
  | _, .freezeRate id rate, s =>
    match s.rows.lookup id with
    | some row =>
      if row.claim = some w then
        let frozen := { row with funding := some { row.fundingD with settlementRate := some rate } }
        (true, { s with rows := s.rows.insert id frozen })
      else (false, s)
    | none => (false, s)
  | _, .findRow id, s => (s.rows.lookup id, s)
  | _, .settleWithoutWallet id claim fields, s =>
    match s.rows.lookup id with
    | some row =>
      if row.claim = some claim ∧ ¬ row.settled then
        (true, { s with rows := s.rows.insert id (row.commit fields 0 none env.now) })
      else (false, s)
    | none => (false, s)
  | _, .commit id row wallet rate fields, s =>
    if env.duplicate then (.error .duplicateKey, s)
    else
      match commitTransaction digest env.now id row wallet rate fields s with
      | .ok (settlement, t) => (.ok settlement, t)
      | .error e => (.error e, s)

abbrev Code := Prog Op AppError

def commitAttempts (id : Id) (row : UsageMeterRow) (wallet rate : Credits)
    (fields : SettlementFields) : ℕ → Code FundingSettlement
  | 0 => Prog.fail (.internal "Lago carry contention")
  | n + 1 => do
    match ← Prog.perform (Op.commit id row wallet rate fields) with
    | .ok settlement => return settlement
    | .error e =>
      if e = .duplicateKey ∧ 0 < n then commitAttempts id row wallet rate fields n
      else Prog.fail e

def commitSettlement (id : Id) (row : UsageMeterRow) (wallet rate : Credits)
    (fields : SettlementFields) : Code FundingSettlement :=
  if wallet = .zero then
    match row.claim with
    | none => Prog.fail lostClaim
    | some claim => do
      if ← Prog.perform (Op.settleWithoutWallet id claim fields) then
        return { walletChargeCredits := .zero, lagoBillableQuantityMicros := 0 }
      match ← Prog.perform (Op.findRow id) with
      | some saved =>
        if saved.settled then return settlementFromFunding saved.fundingD
        else Prog.fail lostClaim
      | none => Prog.fail lostClaim
  else commitAttempts id row wallet rate fields 16

/-- One settlement attempt of a row: it claims the row, freezes the rate if no
earlier attempt has, and commits the split it computed. -/
structure Attempt where
  row : Id
  currentRate : Credits
  fields : SettlementFields

def settleRow (a : Attempt) : Code Unit := do
  match ← Prog.perform (Op.claimRow a.row) with
  | none => Prog.fail (.internal "usage funding settlement is busy")
  | some claimed =>
    match claimed.fundingD.settlementRate with
    | some rate =>
      let _ ← commitSettlement a.row claimed a.fields.walletFunded rate a.fields
      return
    | none =>
      if ← Prog.perform (Op.freezeRate a.row a.currentRate) then
        let _ ← commitSettlement a.row claimed a.fields.walletFunded a.currentRate a.fields
        return
      else Prog.fail (.internal "funding rate freeze lost its settlement claim")

/-- Settlement attempts over rows and carries, in any number and order. -/
def machine (digest : Digest) : Machine where
  Op := Op
  Err := AppError
  Store := Store
  Env := Env
  Entry := Attempt
  exec := fun w env o s => exec digest w env o s
  dropped := .database
  code := fun _ a => settleRow a

/-!
The arithmetic of one carry step. Dividing before scaling gives the floor of the
scaled total, and a step that would leave 128 bits, the credit range or the
64-bit quantity is an error.
-/

/-- Whole units first, then the scaled remainder, is the floor of the scaled total. -/
theorem scaled_split (total rate : ℤ) (hrate : 0 < rate) :
    total * 1000000 / rate = total / rate * 1000000 + total % rate * 1000000 / rate ∧
      total * 1000000 % rate = total % rate * 1000000 % rate := by
  have hdiv : total * 1000000 = total % rate * 1000000 + rate * (total / rate * 1000000) := by
    have h := Int.emod_add_mul_ediv total rate
    calc total * 1000000 = (total % rate + rate * (total / rate)) * 1000000 := by rw [h]
      _ = total % rate * 1000000 + rate * (total / rate * 1000000) := by ring
  constructor
  · rw [hdiv, Int.add_mul_ediv_left _ _ (by omega)]
    ring
  · rw [hdiv, Int.add_mul_emod_self_left]

/-- What an answer of `cumulativeQuantity` says, and the ranges it passed. -/
structure Cumulative (total rate : Credits) (emitted remainder : ℤ) : Prop where
  total_nonneg : 0 ≤ total.pico
  rate_pos : 0 < rate.pico
  emitted_eq : emitted = total.pico * 1000000 / rate.pico
  remainder_eq : remainder = total.pico * 1000000 % rate.pico
  numerator_fits : total.pico % rate.pico * 1000000 < 2 ^ 127
  emitted_fits : emitted < 2 ^ 127

theorem cumulativeQuantity_eq_ok {total rate : Credits} {emitted remainder : ℤ}
    (h : cumulativeQuantity total rate = .ok (emitted, remainder)) :
    Cumulative total rate emitted remainder := by
  unfold cumulativeQuantity at h
  split at h
  · cases h
  rename_i hrange
  have htotal : 0 ≤ total.pico := by omega
  have hrate : 0 < rate.pico := by omega
  obtain ⟨numerator, hnum, h⟩ := bind_eq_ok.mp h
  obtain ⟨quotient, hquot, h⟩ := bind_eq_ok.mp h
  obtain ⟨hnum, -, hfits⟩ := checkedI128_eq_some.mp (creditsOrError_eq_ok hnum)
  obtain ⟨whole, hwhole, hquot⟩ := Option.bind_eq_some_iff.mp (creditsOrError_eq_ok hquot)
  obtain ⟨hwhole, -, -⟩ := checkedI128_eq_some.mp hwhole
  obtain ⟨hquot, -, hquotFits⟩ := checkedI128_eq_some.mp hquot
  rw [Int.tmod_eq_emod_of_nonneg htotal] at hnum hfits
  rw [Int.tdiv_eq_ediv_of_nonneg htotal] at hwhole
  have hnumNonneg : 0 ≤ numerator := by
    rw [← hnum]
    exact mul_nonneg (Int.emod_nonneg _ (by omega)) (by norm_num)
  rw [Int.tdiv_eq_ediv_of_nonneg hnumNonneg] at hquot hquotFits
  cases h
  have hsplit := scaled_split total.pico rate.pico hrate
  refine ⟨htotal, hrate, ?_, ?_, hfits, by omega⟩
  · rw [hsplit.1, ← hquot, ← hwhole, ← hnum]
  · rw [Int.tmod_eq_emod_of_nonneg hnumNonneg, hsplit.2, ← hnum]

/-- The totals before a charge; a missing carry counts from zero. -/
def previousTotal (old : Option BillingLagoCarry) : Credits :=
  (old.map (·.walletTotal)).getD .zero

def previousEmitted (old : Option BillingLagoCarry) : ℤ :=
  (old.map (·.emittedQuantityMicros)).getD 0

/-- One charge moves the total by the charge and emits the difference of floors. -/
structure CarryStep (old : Option BillingLagoCarry) (row : UsageMeterRow)
    (wallet rate : Credits) (carry : BillingLagoCarry) (q : ℤ) : Prop where
  owner_eq : carry.ownerId = row.billingOwnerId
  metric_eq : carry.metricCode = row.lagoMetricCode
  rate_eq : carry.rate = rate
  total_eq : carry.walletTotal.pico = (previousTotal old).pico + wallet.pico
  cumulative : Cumulative carry.walletTotal rate carry.emittedQuantityMicros
    carry.remainderNumerator
  quantity_eq : q = carry.emittedQuantityMicros - previousEmitted old
  quantity_nonneg : 0 ≤ q
  quantity_fits : q < 2 ^ 63

theorem nextCarry_eq_ok {old : Option BillingLagoCarry} {row : UsageMeterRow}
    {wallet rate : Credits} {carry : BillingLagoCarry} {q : ℤ}
    (h : nextCarry old row wallet rate = .ok (carry, q)) :
    CarryStep old row wallet rate carry q := by
  unfold nextCarry at h
  obtain ⟨total, htotal, h⟩ := bind_eq_ok.mp h
  obtain ⟨⟨emitted, remainder⟩, hcum, h⟩ := bind_eq_ok.mp h
  obtain ⟨difference, hdiff, h⟩ := bind_eq_ok.mp h
  obtain ⟨hdiff, -, -⟩ := checkedI128_eq_some.mp (creditsOrError_eq_ok hdiff)
  have htotal := Credits.checkedAdd_eq_some.mp (creditsOrError_eq_ok htotal)
  split at h
  · cases h
  · rename_i quantity hq
    obtain ⟨hq, -, hfits⟩ := checkedI64_eq_some.mp hq
    split at h
    · cases h
    · rename_i hneg
      cases h
      exact ⟨rfl, rfl, rfl, htotal.symm, cumulativeQuantity_eq_ok hcum,
        by rw [← hq, ← hdiff]; rfl, by omega, by omega⟩

/-- The arithmetic of a charge stays in every range the code computes in. -/
structure Representable (old : Option BillingLagoCarry) (wallet rate : Credits) : Prop where
  total : (previousTotal old).pico + wallet.pico ≤ maxPico
  numerator : ((previousTotal old).pico + wallet.pico) % rate.pico * 1000000 < 2 ^ 127
  emitted : ((previousTotal old).pico + wallet.pico) * 1000000 / rate.pico < 2 ^ 127
  quantity : ((previousTotal old).pico + wallet.pico) * 1000000 / rate.pico -
    previousEmitted old < 2 ^ 63

/-- A charge that would overflow any of them is an error. -/
theorem nextCarry_error_of_not_representable {old : Option BillingLagoCarry}
    (row : UsageMeterRow) {wallet rate : Credits} (h : ¬ Representable old wallet rate) :
    ∃ e, nextCarry old row wallet rate = .error e := by
  cases hnext : nextCarry old row wallet rate with
  | error e => exact ⟨e, rfl⟩
  | ok answer =>
    obtain ⟨carry, q⟩ := answer
    have hstep := nextCarry_eq_ok hnext
    have hcum := hstep.cumulative
    refine absurd ⟨?_, ?_, ?_, ?_⟩ h
    · rw [← hstep.total_eq]
      exact carry.walletTotal.inRange.2
    · rw [← hstep.total_eq]
      exact hcum.numerator_fits
    · rw [← hstep.total_eq, ← hcum.emitted_eq]
      exact hcum.emitted_fits
    · rw [← hstep.total_eq, ← hcum.emitted_eq, ← hstep.quantity_eq]
      exact hstep.quantity_fits

end NyxId.LagoCarry
