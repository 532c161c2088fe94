import NyxId.Billing.Openings

/-!
What the reservation of a runtime window freezes on its row: the parts that allowances, grants and the
wallet hold, and that no smaller quantity costs the wallet more than it holds, tax included.
-/

namespace NyxId.Billing

open Interleave

variable {s t : Store}

/-! ### Tax -/

def taxDenominator : ℤ := 100000000000000

theorem proportional_value {base rate tax : Credits} {roundUp : Bool}
    (h : proportional base rate roundUp = .ok tax) :
    tax.pico = base.pico * rate.pico / taxDenominator +
      if roundUp then (if 0 < base.pico * rate.pico % taxDenominator then 1 else 0)
      else (if taxDenominator / 2 ≤ base.pico * rate.pico % taxDenominator then 1 else 0) := by
  unfold proportional at h
  dsimp only at h
  split at h
  · cases h
  · rename_i hsign
    have hbase : 0 ≤ base.pico := by omega
    have hrate : 0 ≤ rate.pico := by omega
    split at h
    · cases h
    · cases h
    · rename_i whole remainder hwhole hrem
      split at h
      · rename_i v hv
        have htax := Credits.fromPico_eq_some.mp (creditsOrError_eq_ok h)
        obtain ⟨mid, hmid, hsum⟩ := Option.bind_eq_some_iff.mp hv
        have hw := (checkedI128_eq_some.mp hwhole).1
        have hr := (checkedI128_eq_some.mp hrem).1
        have hm := (checkedI128_eq_some.mp hmid).1
        have hs := (checkedI128_eq_some.mp hsum).1
        have hden : (100 * (Credits.scale : ℤ)) = taxDenominator := by decide
        rw [hden] at hw hr hm hs
        have hpos : (0 : ℤ) < taxDenominator := by decide
        rw [Int.tdiv_eq_ediv_of_nonneg hbase] at hw
        rw [Int.tmod_eq_emod_of_nonneg hbase] at hr
        have hr0 : 0 ≤ remainder := hr ▸ mul_nonneg (Int.emod_nonneg _ hpos.ne') hrate
        rw [Int.tdiv_eq_ediv_of_nonneg hr0] at hm
        rw [Int.tmod_eq_emod_of_nonneg hr0] at hs
        -- the whole multiples of the denominator drop out of the remainder
        have hproduct : base.pico * rate.pico = remainder + taxDenominator * whole := by
          rw [← hw, ← hr, ← mul_assoc, ← add_mul, Int.emod_add_mul_ediv]
        rw [hproduct, Int.add_mul_ediv_left _ _ hpos.ne', Int.add_mul_emod_self_left, ← htax, ← hs,
          ← hm]
        ring_nf
      · cases h

/-- A smaller amount with its tax half up stays within a larger one with its tax rounded up. -/
theorem halfUp_le_ceiling {wallet left rate tax gross : Credits} (htax : taxHalfUp wallet rate = .ok tax)
    (hgross : grossCeiling left rate = .ok gross) (hrate : 0 ≤ rate.pico)
    (hle : wallet.pico ≤ left.pico) : wallet.pico + tax.pico ≤ gross.pico := by
  obtain ⟨ceiling, hceiling, hadd⟩ := bind_eq_ok.mp hgross
  have hgross := Credits.checkedAdd_eq_some.mp (creditsOrError_eq_ok hadd)
  have hlow := proportional_value htax
  have hhigh := proportional_value hceiling
  have hmul : wallet.pico * rate.pico ≤ left.pico * rate.pico := mul_le_mul_of_nonneg_right hle hrate
  rw [if_neg Bool.false_ne_true] at hlow
  rw [if_pos rfl] at hhigh
  simp only [taxDenominator] at hlow hhigh
  generalize wallet.pico * rate.pico = x at hlow hmul
  generalize left.pico * rate.pico = y at hhigh hmul
  split_ifs at hlow hhigh <;> omega

/-! ### Reservation -/

theorem reserveWindowAllowances_split {now : Time} {window : RuntimeWindow} {ids : List Id}
    {remaining left : ℤ} {allocations : List AllowanceReservationAllocation}
    (h : reserveWindowAllowances now window ids remaining s = .ok (allocations, left, t))
    (hremaining : 0 ≤ remaining) :
    (allocations.map (·.quantity)).sum + left = remaining ∧ 0 ≤ left ∧
      (∀ a ∈ allocations, 0 ≤ a.quantity) ∧ (allocations.map (·.periodId)).Sublist ids := by
  induction ids generalizing remaining s allocations with
  | nil =>
    cases h
    exact ⟨by simp, hremaining, fun _ ha => absurd ha List.not_mem_nil, .slnil⟩
  | cons id rest ih =>
    have hskip (hrest : reserveWindowAllowances now window rest remaining s =
        .ok (allocations, left, t)) :
        (allocations.map (·.quantity)).sum + left = remaining ∧ 0 ≤ left ∧
          (∀ a ∈ allocations, 0 ≤ a.quantity) ∧
            (allocations.map (·.periodId)).Sublist (id :: rest) := by
      obtain ⟨hsum, hleft, hquantity, hids⟩ := ih hrest hremaining
      exact ⟨hsum, hleft, hquantity, hids.cons id⟩
    unfold reserveWindowAllowances at h
    split at h
    · cases h
      exact ⟨by simp, hremaining, fun _ ha => absurd ha List.not_mem_nil, List.nil_sublist _⟩
    · split at h
      · exact hskip h
      · split at h
        · exact hskip h
        · dsimp only at h
          split at h
          · exact hskip h
          · split at h
            · cases h
            · obtain ⟨⟨allocations', left', t'⟩, hrest, h⟩ := bind_eq_ok.mp h
              cases h
              obtain ⟨hsum, hleft, hquantity, hids⟩ := ih hrest (by omega)
              refine ⟨?_, hleft, ?_, hids.cons_cons id⟩
              · rw [List.map_cons, List.sum_cons]
                dsimp only at hsum ⊢
                omega
              · intro a ha
                rcases List.mem_cons.mp ha with rfl | ha
                · dsimp only
                  omega
                · exact hquantity a ha

theorem reserveGrants_split {policy : GrantPolicy} {now : Time} {serviceId serviceSlug : Option Id}
    {ids : List Id} {remaining left : Credits} {allocations : List GrantReservationAllocation}
    (h : reserveGrants policy now serviceId serviceSlug ids remaining s =
      .ok (allocations, left, t)) :
    (allocations.map (·.amount.pico)).sum + left.pico = remaining.pico ∧
      (∀ a ∈ allocations, 0 ≤ a.amount.pico) ∧ (allocations.map (·.grantId)).Sublist ids := by
  induction ids generalizing remaining s allocations with
  | nil =>
    cases h
    exact ⟨by simp, fun _ ha => absurd ha List.not_mem_nil, .slnil⟩
  | cons id rest ih =>
    have hskip (hrest : reserveGrants policy now serviceId serviceSlug rest remaining s =
        .ok (allocations, left, t)) :
        (allocations.map (·.amount.pico)).sum + left.pico = remaining.pico ∧
          (∀ a ∈ allocations, 0 ≤ a.amount.pico) ∧
            (allocations.map (·.grantId)).Sublist (id :: rest) := by
      obtain ⟨hsum, hamount, hids⟩ := ih hrest
      exact ⟨hsum, hamount, hids.cons id⟩
    unfold reserveGrants at h
    split at h
    · cases h
      exact ⟨by simp, fun _ ha => absurd ha List.not_mem_nil, List.nil_sublist _⟩
    · split at h
      · exact hskip h
      · obtain ⟨available, -, h⟩ := bind_eq_ok.mp h
        dsimp only at h
        split at h
        · exact hskip h
        · split at h
          · cases h
          · split at h
            · exact hskip h
            · rename_i hwanted
              split at h
              · split at h
                · exact hskip h
                · cases h
              · obtain ⟨next, hnext, h⟩ := bind_eq_ok.mp h
                obtain ⟨⟨allocations', left', t'⟩, hrest, h⟩ := bind_eq_ok.mp h
                cases h
                have hsub := Credits.checkedSub_eq_some.mp (creditsOrError_eq_ok hnext)
                obtain ⟨hsum, hamount, hids⟩ := ih hrest
                refine ⟨?_, ?_, hids.cons_cons id⟩
                · rw [List.map_cons, List.sum_cons]
                  dsimp only at hsum ⊢
                  omega
                · intro a ha
                  rcases List.mem_cons.mp ha with rfl | ha
                  · dsimp only
                    omega
                  · exact hamount a ha

/-- What a reservation of a quantity at a rate has frozen on a row, with no settlement begun. -/
structure FundedWindow (price : Credits) (quantity : ℤ) (row : UsageMeterRow) : Prop where
  metric : row.metric.isRuntimeAllocation = true
  funded : row.funding.isSome = true
  positive : 0 < price.pico
  rate : row.fundingD.settlementRate = some price
  taxed : row.fundingD.taxAccounting = true
  unsettled : row.fundingD.settled = false
  allowances : ∀ r ∈ row.fundingD.allowanceReservations, 0 ≤ r.quantity
  grants : ∀ r ∈ row.fundingD.grantReservations, 0 ≤ r.amount.pico
  periods : (row.fundingD.allowanceReservations.map (·.periodId)).Nodup
  grantIds : (row.fundingD.grantReservations.map (·.grantId)).Nodup
  untouched : row.fundingD.allowanceConsumptions = [] ∧ row.fundingD.grantConsumptions = []
  /-- Allowances cover units, grants cover cost, and the wallet holds what is left with its tax. -/
  balance : ∃ (remaining : ℤ) (left : Credits) (taxRate : Option Credits), 0 ≤ remaining ∧
    (row.fundingD.allowanceReservations.map (·.quantity)).sum + remaining = quantity ∧
    (row.fundingD.grantReservations.map (·.amount.pico)).sum + left.pico = price.pico * remaining ∧
    0 ≤ left.pico ∧ reserveGross taxRate left = .ok (row.reservedCredits, row.fundingD.appliedTax)

/-- The units of allowances that a window reserves are no negative number, whichever are counted. -/
theorem FundedWindow.units_nonneg {price : Credits} {quantity : ℤ} {row : UsageMeterRow}
    (h : FundedWindow price quantity row) {done : List AllowanceReservationAllocation}
    (hdone : done ⊆ row.fundingD.allowanceReservations) : 0 ≤ (done.map (·.quantity)).sum := by
  refine List.sum_nonneg fun x hx => ?_
  obtain ⟨r, hr, rfl⟩ := List.mem_map.mp hx
  exact h.allowances r (hdone hr)

theorem nodup_eligibleGrants (serviceId serviceSlug : Option Id) (owner : Id) (now : Time) (s : Store) :
    ((eligibleGrants serviceId serviceSlug (s.activeGrants owner now)).map (·.1)).Nodup := by
  unfold eligibleGrants Store.activeGrants
  have hkeys : ((s.grants.entries.map fun e => (e.1, e.2)).map Prod.fst).Nodup := by
    rw [List.map_map]
    exact s.grants.nodupKeys
  have hsub := ((List.filter_sublist (p := fun g : Id × CreditGrant =>
    serviceScopeApplies g.2.scope serviceId serviceSlug)).trans (List.filter_sublist
      (p := fun g : Id × CreditGrant => g.2.listed owner now)
      (l := s.grants.entries.map fun e => (e.1, e.2)))).map Prod.fst
  exact ((List.perm_insertionSort _ _).map Prod.fst).nodup_iff.mpr (hsub.nodup hkeys)

theorem reserveRuntimeWindow_funded {env : Env} {window : RuntimeWindow}
    {reservation : BillingReservation} (h : reserveRuntimeWindow env window s = .ok (reservation, t))
    (hperiods : window.periods.Nodup) {id : Id} {row : UsageMeterRow}
    (hrow : t.rows.lookup id = some row) (hnew : s.rows.lookup id = none) :
    FundedWindow window.rate window.quantity row := by
  unfold reserveRuntimeWindow at h
  split at h
  · cases h
  · rename_i hvalid
    push Not at hvalid
    split at h
    · cases h
    · split at h
      · cases h
      · split at h
        · cases h
        · obtain ⟨⟨allowances, remaining, s1⟩, hallowances, h⟩ := bind_eq_ok.mp h
          obtain ⟨remainingCost, hcost, h⟩ := bind_eq_ok.mp h
          obtain ⟨⟨allocations, left, s2⟩, hgrants, h⟩ := bind_eq_ok.mp h
          obtain ⟨⟨gross, tax⟩, hgross, h⟩ := bind_eq_ok.mp h
          have hstep := (reserveWindowAllowances_step hallowances).trans (reserveGrants_step hgrants).1
          have hrows : s2.rows = s.rows := by rw [hstep.same]
          have hquantity : 0 ≤ window.quantity := by omega
          obtain ⟨hsum, hremaining, hallowed, hperiodIds⟩ :=
            reserveWindowAllowances_split hallowances hquantity
          obtain ⟨hcovered, hgranted, hgrantIds⟩ := reserveGrants_split hgrants
          have hprice := cost_eq_some (creditsOrError_eq_ok hcost)
          rw [max_eq_left hremaining] at hprice
          have hnonneg : 0 ≤ remainingCost.pico := by
            rw [hprice]
            exact mul_nonneg (by omega) hremaining
          have hmetric : window.metric.isRuntimeAllocation = true := by
            simpa only [Bool.not_eq_true, Bool.not_eq_false] using hvalid.2.1
          have hfinish (layer : LayerReservation) (s3 : Store) (ids : List Id)
              (hinsert : insertRows ids [window.row env.now layer] s3 = .ok t) (hrows3 : s3.rows = s.rows)
              (hlayer : layer.allowanceReservations = allowances ∧ layer.grantReservations = allocations ∧
                layer.reservedCredits = gross ∧ layer.appliedTax = tax) :
              FundedWindow window.rate window.quantity row := by
            obtain ⟨rfl, rfl, rfl, rfl⟩ := hlayer
            have hfound : row = window.row env.now layer := by
              cases ids with
              | nil => cases hinsert
              | cons first rest =>
                obtain ⟨s4, hone, hrest⟩ := bind_eq_ok.mp hinsert
                have hlast : s4 = t := by cases rest <;> exact Except.ok.inj hrest
                obtain ⟨-, hs4, -⟩ := insertRow_cases hone
                rw [← hlast, hs4] at hrow
                rcases Collection.lookup_insert_cases hrow with ⟨-, hfound⟩ | ⟨-, hold⟩
                · exact hfound
                · rw [hrows3, hnew] at hold
                  cases hold
            subst hfound
            exact
              { metric := hmetric
                funded := rfl
                positive := by omega
                rate := rfl
                taxed := rfl
                unsettled := rfl
                allowances := hallowed
                grants := hgranted
                periods := hperiodIds.nodup hperiods
                grantIds := hgrantIds.nodup (nodup_eligibleGrants _ _ _ _ _)
                untouched := ⟨rfl, rfl⟩
                balance := ⟨remaining, left, env.taxRate, hremaining, hsum, hcovered.trans hprice,
                  (reserveGrants_step hgrants).2 hnonneg, hgross⟩ }
          dsimp only at h
          split at h
          · obtain ⟨s3, hs3, h⟩ := bind_eq_ok.mp h
            cases hs3
            obtain ⟨s4, hinsert, h⟩ := bind_eq_ok.mp h
            cases h
            exact hfinish _ _ _ hinsert hrows ⟨rfl, rfl, rfl, rfl⟩
          · obtain ⟨available, -, h⟩ := bind_eq_ok.mp h
            split at h
            · obtain ⟨s3, hs3, -⟩ := bind_eq_ok.mp h
              cases hs3
            · obtain ⟨reserved, -, h⟩ := bind_eq_ok.mp h
              obtain ⟨held, -, h⟩ := bind_eq_ok.mp h
              obtain ⟨s3, hs3, h⟩ := bind_eq_ok.mp h
              cases hs3
              obtain ⟨s4, hinsert, h⟩ := bind_eq_ok.mp h
              cases h
              exact hfinish _ _ _ hinsert hrows ⟨rfl, rfl, rfl, rfl⟩

end NyxId.Billing
