import NyxId.Billing.WindowBenefits

/-!
A settlement attempt on a runtime window: what benefits leave of the cost is charged to the wallet with its
tax, and fits what was held there.
-/

namespace NyxId.Billing

open Interleave Machine

variable {digest : LagoCarry.Digest} {provider : Provider} {id : Id} {base row : UsageMeterRow}
variable {s t : Store} {A : List AllowanceConsumptionAllocation} {G : List GrantConsumptionAllocation}
variable {α : Type} {p g : Option Id} {price : Credits} {estimate quantity : ℤ}

/-! ### The charge on the wallet -/

/-- Arithmetic whose errors are all of another kind. -/
def Benign {β : Type} (x : Except AppError β) : Prop := ∀ e, x = .error e → Other e

section Benign

variable {β γ : Type}

theorem Benign.ok (b : β) : Benign (.ok b) := nofun

theorem Benign.error {e : AppError} (h : Other e) : Benign (.error e : Except AppError β) := by
  intro e' hsame
  cases hsame
  exact h

theorem Benign.credits (x : Option β) : Benign (creditsOrError x) := by
  cases x with
  | some b => exact .ok b
  | none => exact .error other_credits

theorem Benign.bind {x : Except AppError β} {f : β → Except AppError γ} (hx : Benign x)
    (hf : ∀ b, x = .ok b → Benign (f b)) : Benign (x.bind f) := by
  cases x with
  | ok b => exact hf b rfl
  | error e => exact .error (hx e rfl)

theorem Benign.foldlM {f : γ → β → Except AppError γ} (hf : ∀ c b, Benign (f c b)) (l : List β)
    (c : γ) :
    Benign (l.foldlM f c) := by
  induction l generalizing c with
  | nil => exact .ok c
  | cons b rest ih =>
    rw [List.foldlM_cons]
    exact Benign.bind (hf c b) fun c' _ => ih c'

theorem Benign.ite {P : Prop} [Decidable P] {x y : Except AppError β} (hx : Benign x) (hy : Benign y) :
    Benign (if P then x else y) := by
  split
  · exact hx
  · exact hy

/-- Such arithmetic ends the settlement or passes its value on. -/
theorem Benign.yields {x : Except AppError β} {f : β → Code α} {Q : α → Store → Prop}
    (hx : Benign x) (hresume : Resumable id price quantity base s)
    (h : ∀ b, x = .ok b →
      Settling digest provider id price quantity base (f b) Q s) :
    Settling digest provider id price quantity base ((checked x).bind f) Q s := by
  cases x with
  | ok b => exact h b rfl
  | error e => exact ⟨hx e rfl, hresume⟩

end Benign

theorem other_runtimeInvalid : Other runtimeInvalid := other_reconciliation _ (by decide)

theorem validateRuntimeSettlement_benign (row : UsageMeterRow) :
    Benign (validateRuntimeSettlement row) := by
  have hinvalid {β : Type} : Benign (.error runtimeInvalid : Except AppError β) :=
    .error other_runtimeInvalid
  unfold validateRuntimeSettlement
  refine .ite (.ok _) ?_
  split
  · refine .ite hinvalid ?_
    refine Benign.bind (Benign.foldlM (fun total r => .ite hinvalid ?_) _ _) fun allowances _ => ?_
    · split
      · exact .ok _
      · exact hinvalid
    refine Benign.bind (.credits _) fun capacity _ => ?_
    refine Benign.bind (.credits _) fun capacity _ => ?_
    refine Benign.bind (Benign.foldlM (fun total r => .ite hinvalid (.credits _)) _ _) fun capacity _ => ?_
    exact Benign.bind (.credits _) fun cost _ => .ite hinvalid (.ok _)
  · exact hinvalid

theorem proportional_benign (amount rate : Credits) (roundUp : Bool) :
    Benign (proportional amount rate roundUp) := by
  unfold proportional
  dsimp only
  refine .ite (.error nofun) ?_
  split
  · exact .error nofun
  · exact .error nofun
  · split
    · exact .credits _
    · exact .error nofun

theorem other_lostClaim : Other LagoCarry.lostClaim := other_internal _

theorem nextCarry_benign (old : Option LagoCarry.BillingLagoCarry) (row : UsageMeterRow)
    (wallet rate : Credits) : Benign (LagoCarry.nextCarry old row wallet rate) := by
  unfold LagoCarry.nextCarry
  refine Benign.bind (.credits _) fun total _ => ?_
  refine Benign.bind ?_ fun emitted _ => ?_
  · unfold LagoCarry.cumulativeQuantity
    refine .ite (.error (other_internal _)) ?_
    exact Benign.bind (.credits _) fun _ _ => Benign.bind (.credits _) fun _ _ => .ok _
  · refine Benign.bind (.credits _) fun difference _ => ?_
    split
    · exact .error (other_internal _)
    · exact .ite (.error (other_internal _)) (.ok _)

theorem commitTransaction_benign (now : Time) (row : UsageMeterRow) (wallet rate : Credits)
    (fields : SettlementFields) (s : LagoCarry.Store) :
    Benign (LagoCarry.commitTransaction digest now id row wallet rate fields s) := by
  unfold LagoCarry.commitTransaction
  split
  · exact .error (other_internal _)
  · refine .ite (.ok _) (.ite (.error other_lostClaim) ?_)
    exact Benign.bind (nextCarry_benign _ _ _ _) fun _ _ => .ok _

/-- What a settlement returns, and what it leaves of the row. -/
def Settles (id : Id) (price : Credits) (quantity : ℤ) (base : UsageMeterRow) (x : FundingSettlement)
    (t : Store) : Prop :=
  x.walletChargeCredits.pico ≤ base.reservedCredits.pico ∧ Resumable id price quantity base t

theorem Standing.commit (h : Standing id base A G none none s) (hdrawn : Drawn id base A G)
    {saved : UsageMeterRow} (hsaved : s.rows.lookup id = some saved) {t : Store}
    {fields : SettlementFields} {units : ℤ} {carryId : Option String} {now : Time}
    (ht : t.rows = s.rows.insert id (saved.commit fields units carryId now))
    (hperiods : t.periods = s.periods) (hgrants : t.grants = s.grants)
    (hcharge : fields.walletChargeCredits.pico ≤ base.reservedCredits.pico) :
    Resumable id price quantity base t := by
  obtain ⟨found, hfound, hfrozen⟩ := h.row
  rw [hsaved, Option.some.injEq] at hfound
  subst hfound
  have hcommitted : t.rows.lookup id = some (saved.commit fields units carryId now) := by
    rw [ht]
    exact AList.lookup_insert _
  refine .settled hcommitted rfl hcharge ?_ ?_
  · change Drawn id base saved.fundingD.allowanceConsumptions saved.fundingD.grantConsumptions
    rw [hfrozen.consumptions.1, hfrozen.consumptions.2]
    exact hdrawn
  · constructor
    · rw [hperiods]
      exact h.unlocked.periods
    · rw [hgrants]
      exact h.unlocked.grants

/-- The same step of code over the operations on rows and carries. -/
theorem Resumable.carryStep {β : Type} {o : LagoCarry.Op β} {f : β → LagoCarry.Code α}
    {Q : α → Store → Prop} (h : Resumable id price quantity base s)
    (hf : ∀ env, Resumable id price quantity base (exec digest 0 env (Op.ofCarry o) s).2 ∧
      Settling digest provider id price quantity base
        ((f (exec digest 0 env (Op.ofCarry o) s).1).mapOp Op.ofCarry) Q
        (exec digest 0 env (Op.ofCarry o) s).2) :
    Settling digest provider id price quantity base (((Prog.perform o).bind f).mapOp Op.ofCarry) Q s :=
  fun env => ⟨(hf env).2, ⟨other_database, (hf env).1⟩, other_database, h⟩

theorem commitAttempts_yields {wallet rate : Credits} {fields : SettlementFields} {claimed : UsageMeterRow}
    (hcharge : fields.walletChargeCredits.pico ≤ base.reservedCredits.pico) (hopen : base.settled = false)
    (hsplit : Split id price quantity base A G) (n : ℕ) (h : Standing id base A G none none s) :
    Settling digest provider id price quantity base
      ((LagoCarry.commitAttempts id claimed wallet rate fields n).mapOp Op.ofCarry)
      (Settles id price quantity base) s := by
  have hresume : Resumable id price quantity base s := .free hsplit h
  induction n with
  | zero => exact ⟨other_internal _, hresume⟩
  | succ n ih =>
    have hstep (env : Env) :
        let answer := exec digest 0 env (.commitCarry id claimed wallet rate fields) s
        Resumable id price quantity base answer.2 ∧
          ((∃ e, answer.1 = .error e ∧ Other e ∧ answer.2 = s) ∨
            ∃ units, answer.1 = .ok ⟨fields.walletChargeCredits, units⟩) := by
      obtain ⟨found, hfound, hfrozen⟩ := h.row
      rcases commitCarry_cases digest 0 env id claimed wallet rate fields s with
        ⟨e, hexec⟩ | ⟨saved, hsaved, hsettled, -⟩ |
          ⟨saved, units, carryId, carries, hsaved, -, -, -, hexec⟩
      · refine ⟨by rw [hexec]; exact hresume, .inl ⟨e, by rw [hexec], ?_, by rw [hexec]⟩⟩
        simp only [exec, Store.carry, LagoCarry.exec] at hexec
        split at hexec
        · obtain ⟨hsame, -⟩ := Prod.mk.inj hexec
          cases hsame
          exact other_duplicateKey
        · cases hcommit : LagoCarry.commitTransaction digest env.now id claimed wallet rate fields
              ⟨s.rows, s.carries⟩ with
          | ok answer =>
            rw [hcommit] at hexec
            cases hexec
          | error e' =>
            rw [hcommit] at hexec
            obtain ⟨hsame, -⟩ := Prod.mk.inj hexec
            cases hsame
            exact commitTransaction_benign _ _ _ _ _ _ _ hcommit
      · rw [hsaved, Option.some.injEq] at hfound
        rw [hfound, hfrozen.settled, hopen] at hsettled
        cases hsettled
      · rw [hexec]
        exact ⟨h.commit hsplit.drawn hsaved rfl rfl rfl hcharge, .inr ⟨units, rfl⟩⟩
    refine Resumable.carryStep hresume fun env => ?_
    obtain ⟨hafter, hanswer⟩ := hstep env
    refine ⟨hafter, ?_⟩
    dsimp only [Op.ofCarry]
    rcases hanswer with ⟨e, hanswer, hother, hsame⟩ | ⟨units, hanswer⟩
    · rw [hanswer, hsame]
      dsimp only
      split
      · exact ih
      · exact ⟨hother, hresume⟩
    · rw [hanswer]
      exact ⟨hcharge, hafter⟩

theorem commitSettlement_yields {wallet rate : Credits} {fields : SettlementFields}
    {claimed : UsageMeterRow} (hcharge : fields.walletChargeCredits.pico ≤ base.reservedCredits.pico)
    (hreserved : 0 ≤ base.reservedCredits.pico) (hopen : base.settled = false)
    (hsplit : Split id price quantity base A G) (h : Standing id base A G none none s) :
    Settling digest provider id price quantity base
      ((LagoCarry.commitSettlement id claimed wallet rate fields).mapOp Op.ofCarry)
      (Settles id price quantity base) s := by
  have hresume : Resumable id price quantity base s := .free hsplit h
  unfold LagoCarry.commitSettlement
  split
  · split
    · exact ⟨other_lostClaim, hresume⟩
    · rename_i claim _
      refine Resumable.carryStep hresume fun env => ?_
      dsimp only [Op.ofCarry]
      obtain ⟨found, hfound, hfrozen⟩ := h.row
      rcases settleWithoutWallet_cases digest 0 env id claim fields s with
        hexec | ⟨saved, hsaved, -, -, hexec⟩
      · rw [hexec]
        refine ⟨hresume, Resumable.carryStep hresume fun env' => ⟨hresume, ?_⟩⟩
        dsimp only [Op.ofCarry, exec]
        rw [hfound]
        dsimp only
        rw [if_neg (by rw [hfrozen.settled, hopen]; exact Bool.false_ne_true)]
        exact ⟨other_lostClaim, hresume⟩
      · rw [hexec]
        have hafter : Resumable id price quantity base { s with
            rows := s.rows.insert id (saved.commit fields 0 none env.now) } :=
          h.commit hsplit.drawn hsaved rfl rfl rfl hcharge
        exact ⟨hafter, hreserved, hafter⟩
  · exact commitAttempts_yields hcharge hopen hsplit 16 h

/-- What benefits leave of a smaller quantity is no more than the reservation left to the wallet. -/
theorem wallet_le_left {price quantity estimate a g remaining left charge wallet : ℤ} (hprice : 0 < price)
    (hquantity : quantity ≤ estimate) (ha : a + remaining = estimate) (hremaining : 0 ≤ remaining)
    (hg : g + left = price * remaining) (hleft : 0 ≤ left)
    (hcharge : charge = price * quantity - price * min quantity a)
    (hwallet : wallet = charge - min charge g) : wallet ≤ left := by
  have hunits : quantity - min quantity a ≤ remaining := by omega
  have hcost : charge ≤ price * remaining := by
    rw [hcharge, ← mul_sub]
    exact mul_le_mul_of_nonneg_left hunits hprice.le
  omega

/-- The wallet's part with its tax fits what the reservation holds there. -/
theorem walletCharge_le {left wallet tax : Credits}
    {taxRate applied : Option Credits}
    (hgross : reserveGross taxRate left = .ok (base.reservedCredits, base.fundingD.appliedTax))
    (hleft : 0 ≤ left.pico) (hwallet : 0 ≤ wallet.pico ∧ wallet.pico ≤ left.pico)
    (happlied : applied = if wallet = .zero then none else base.fundingD.appliedTax)
    (htax : taxOf wallet applied = .ok tax) :
    wallet.pico + tax.pico ≤ base.reservedCredits.pico := by
  by_cases hzero : wallet = .zero
  · rw [if_pos hzero] at happlied
    subst hzero happlied
    cases htax
    exact reserveGross_nonneg hgross hleft
  · rw [if_neg hzero] at happlied
    have hpositive : wallet.pico ≠ 0 := fun hnone => hzero (Credits.ext hnone)
    unfold reserveGross at hgross
    rw [if_neg (fun hnone => by rw [hnone, Credits.pico_zero] at hwallet; omega)] at hgross
    cases taxRate with
    | none => cases hgross
    | some rate =>
      obtain ⟨gross, hceiling, hsame⟩ := bind_eq_ok.mp hgross
      obtain ⟨hreserved, hrate⟩ := Prod.mk.inj (Except.ok.inj hsame)
      rw [happlied, ← hrate] at htax
      rw [← hreserved]
      refine halfUp_le_ceiling htax hceiling ?_ hwallet.2
      obtain ⟨ceiling, hpart, -⟩ := bind_eq_ok.mp hceiling
      unfold proportional at hpart
      dsimp only at hpart
      split at hpart
      · cases hpart
      · omega

/-! ### A settlement attempt -/

theorem settlementTax_yields {wallet : Credits} {f : Option Credits → Code α} {Q : α → Store → Prop}
    (hrow : Frozen base A G row) (htaxed : base.fundingD.taxAccounting = true)
    (happlied : wallet ≠ .zero → base.fundingD.appliedTax.isSome = true)
    (h : Settling digest provider id price quantity base
      (f (if wallet = .zero then none else base.fundingD.appliedTax)) Q s) :
    Settling digest provider id price quantity base ((settlementTax row wallet).bind f) Q s := by
  have hsame : row.fundingD.taxAccounting = true ∧
      row.fundingD.appliedTax = base.fundingD.appliedTax :=
    ⟨(hrow.field UsageFunding.taxAccounting).trans htaxed, hrow.field UsageFunding.appliedTax⟩
  unfold settlementTax
  by_cases hzero : wallet = .zero
  · rw [if_pos hzero] at h
    rw [if_pos (Or.inl hzero)]
    exact h
  · rw [if_neg hzero] at h
    rw [if_neg (fun hnone => hnone.elim hzero fun htax => htax hsame.1), hsame.2]
    obtain ⟨rate, hrate⟩ := Option.isSome_iff_exists.mp (happlied hzero)
    rw [hrate] at h ⊢
    exact h

theorem taxOf_benign (wallet : Credits) (rate : Option Credits) : Benign (taxOf wallet rate) := by
  cases rate with
  | some rate => exact proportional_benign _ _ _
  | none => exact .ok _

theorem commitFunding_yields (hwindow : FundedWindow price estimate base)
    (hquantity : quantity ≤ estimate)
    {rate allowance total charge : Credits} {covered : ℤ} {state : Covered Credits}
    (hcharge : charge.pico = windowCharge price quantity base)
    (hstate : GrantsCovered id base charge A base.fundingD.grantReservations G state)
    (hsplit : Split id price quantity base A G) (h : Standing id base A G none none s) :
    Settling digest provider id price quantity base
      (commitFunding id rate allowance total charge covered state) (Settles id price quantity base)
      s := by
  have hresume : Resumable id price quantity base s := .free hsplit h
  obtain ⟨remaining, left, taxRate, hremaining, hunits, hcost, hleft, hgross⟩ := hwindow.balance
  unfold commitFunding
  refine (Benign.credits _).yields hresume fun wallet hwallet => ?_
  have hsub := Credits.checkedSub_eq_some.mp (creditsOrError_eq_ok hwallet)
  have hcovered := hstate.covered
  have htotal := hstate.total
  have hle : wallet.pico ≤ left.pico :=
    wallet_le_left hwindow.positive hquantity hunits hremaining hcost hleft hcharge (by omega)
  have happlied (hzero : wallet ≠ .zero) : base.fundingD.appliedTax.isSome = true := by
    unfold reserveGross at hgross
    split at hgross
    · rename_i hnone
      rw [hnone, Credits.pico_zero] at hle
      have hpico : wallet.pico = Credits.zero.pico := by
        rw [Credits.pico_zero]
        omega
      exact absurd (Credits.ext hpico) hzero
    · cases taxRate with
      | none => cases hgross
      | some tax =>
        obtain ⟨gross, -, hsame⟩ := bind_eq_ok.mp hgross
        rw [← (Prod.mk.inj (Except.ok.inj hsame)).2]
        rfl
  refine settlementTax_yields hstate.row hwindow.taxed happlied ?_
  refine (taxOf_benign _ _).yields hresume fun tax htax => ?_
  refine (Benign.credits _).yields hresume fun walletCharge hadd => ?_
  have hbound := walletCharge_le hgross hleft ⟨by omega, hle⟩ rfl htax
  rw [Credits.checkedAdd_eq_some.mp (creditsOrError_eq_ok hadd)] at hbound
  rw [if_neg (fun hover => by rw [hstate.row.reserved] at hover; omega)]
  exact commitSettlement_yields hbound (reserveGross_nonneg hgross hleft) hwindow.unsettled hsplit h

theorem settleCharge_yields (hwindow : FundedWindow price estimate base)
    (hquantity : 0 ≤ quantity ∧ quantity ≤ estimate) {state : Covered ℤ}
    (hstate : AllowancesCovered id base quantity base.fundingD.allowanceReservations A G state)
    (hsplit : Split id price quantity base A G) (h : Standing id base A G none none s) :
    Settling digest provider id price quantity base (settleCharge id price quantity state)
      (Settles id price quantity base) s := by
  have hresume : Resumable id price quantity base s := .free hsplit h
  have hunits : 0 ≤ (base.fundingD.allowanceReservations.map (·.quantity)).sum :=
    hwindow.units_nonneg (List.Subset.refl _)
  have hcovered := hstate.covered.trans hstate.total
  obtain ⟨done, rest, hlist, hdrawn, hsum⟩ := hsplit.grants
  unfold settleCharge
  refine (Benign.credits _).yields hresume fun total htotal => ?_
  refine (Benign.credits _).yields hresume fun allowance hallowance => ?_
  refine (Benign.credits _).yields hresume fun charge hcharge => ?_
  refine (Benign.credits _).yields hresume fun consumed hconsumed => ?_
  have htotal := cost_eq_some (creditsOrError_eq_ok htotal)
  have hallowance := cost_eq_some (creditsOrError_eq_ok hallowance)
  have hcharge := Credits.checkedSub_eq_some.mp (creditsOrError_eq_ok hcharge)
  have hconsumed := Credits.checkedSum_eq_some (creditsOrError_eq_ok hconsumed)
  rw [max_eq_left hquantity.1] at htotal
  rw [max_eq_left (by omega), hcovered] at hallowance
  have hwindowCharge : charge.pico = windowCharge price quantity base := by
    rw [← hcharge, htotal, hallowance]
    rfl
  have hamounts : consumed.pico = (G.map (·.amount.pico)).sum := by
    rw [hconsumed, hstate.row.consumptions.2, List.map_map]
    refine congrArg List.sum (List.map_congr_left fun a ha => ?_)
    change (a.amount.max .zero).pico = a.amount.pico
    rw [Credits.pico_max, Credits.pico_zero]
    obtain ⟨_, _, hrecords⟩ := Outcomes.exists_of_forall₂ hdrawn ha
    exact max_eq_left hrecords.within.1
  rw [hstate.row.reservations.2]
  nth_rewrite 1 [hlist]
  have hgrants : GrantsCovered id base charge A done G ⟨state.row, consumed.min charge⟩ := by
    refine ⟨hstate.row, hdrawn, hwindowCharge ▸ hsum, ?_⟩
    dsimp only
    rw [Credits.pico_min, hamounts, hwindowCharge]
    exact min_eq_left (hsum.trans_le (min_le_left _ _))
  refine Yields.bind (settleReservedGrants_recorded hsplit hstate.row (fun t ht => ?_) done
    (operation_mem hdrawn fun _ _ hrecords => hrecords.operation) h)
  refine Yields.mono (fun grants u hu => ?_) (fun _ _ hu => hu)
    (settleReservedGrants_yields hwindow hwindowCharge hstate.drawn.length_eq.symm done rest hlist hgrants
      hsplit ht)
  obtain ⟨G', hgrants', hsplit', hu⟩ := hu
  unfold settleActiveGrants
  dsimp only
  have hmetric : grants.row.metric.isRuntimeAllocation = true := hgrants'.row.metric ▸ hwindow.metric
  rw [if_pos (Or.inl hmetric)]
  exact commitFunding_yields hwindow hquantity.2 hwindowCharge hgrants' hsplit' hu

/-- The rate that the reservation froze. -/
theorem frozenRate_yields {claimed : UsageMeterRow} {f : Credits → Code α} {Q : α → Store → Prop}
    (hrate : claimed.fundingD.settlementRate = some price)
    (h : Settling digest provider id price quantity base (f price) Q s) :
    Settling digest provider id price quantity base ((frozenRate id claimed).bind f) Q s := by
  unfold frozenRate
  rw [hrate]
  exact h

theorem settleClaimed_yields (hwindow : FundedWindow price estimate base)
    (hrow : base.quantity = some quantity) (hquantity : 0 ≤ quantity ∧ quantity ≤ estimate) (claim : Option ClaimId)
    (h : Resumable id price quantity base s)
    (hopen : ∀ row, s.rows.lookup id = some row → ¬ row.settled = true) :
    Settling digest provider id price quantity base (settleClaimed id claim)
      (Settles id price quantity base) s := by
  unfold settleClaimed
  refine Yields.seq (finishResourceLocks_yields h hopen) fun _ t ht => ?_
  obtain ⟨A, G, hsplit, ht⟩ := ht
  refine Yields.bind (refreshClaimed_yields hsplit ht fun claimed hclaimed => ?_)
  refine (validateRuntimeSettlement_benign claimed).yields (.free hsplit ht) fun _ _ => ?_
  have hrate : claimed.fundingD.settlementRate = some price :=
    (hclaimed.field UsageFunding.settlementRate).trans hwindow.rate
  have hmeasured : max (claimed.quantity.getD 0) 0 = quantity := by
    rw [hclaimed.quantity, hrow, Option.getD_some, max_eq_left hquantity.1]
  obtain ⟨done, rest, hlist, hdrawn, hsum⟩ := hsplit.allowances
  have hunits : (claimed.fundingD.allowanceConsumptions.map (max ·.quantity 0)).sum =
      (A.map (·.quantity)).sum := by
    rw [hclaimed.consumptions.1]
    refine congrArg List.sum (List.map_congr_left fun a ha => ?_)
    obtain ⟨_, _, hrecords⟩ := Outcomes.exists_of_forall₂ hdrawn ha
    exact max_eq_left hrecords.within.1
  dsimp only
  rw [hmeasured]
  refine frozenRate_yields hrate ?_
  rw [hunits, hclaimed.reservations.1]
  nth_rewrite 1 [hlist]
  have hstate : AllowancesCovered id base quantity done A G
      ⟨claimed, min (A.map (·.quantity)).sum quantity⟩ :=
    ⟨hclaimed, hdrawn, hsum, min_eq_left (hsum.trans_le (min_le_left _ _))⟩
  refine Yields.bind (settleReservedAllowances_recorded hsplit hclaimed (fun u hu => ?_) done
    (operation_mem hdrawn fun _ _ hrecords => hrecords.operation) ht)
  refine Yields.mono (fun state v hv => ?_) (fun _ _ hv => hv)
    (settleReservedAllowances_yields hwindow done rest hlist hstate hsplit hu)
  obtain ⟨A', hstate', hsplit', hv⟩ := hv
  have hmetric : state.row.metric.isRuntimeAllocation = true := hstate'.row.metric ▸ hwindow.metric
  unfold settleApplicableAllowances
  dsimp only
  rw [if_pos (Or.inl hmetric)]
  exact settleCharge_yields hwindow hquantity hstate' hsplit' hv

/-- What a resumed attempt reads: a row on which settlement goes on, or the split of a settled one. -/
theorem Resumable.row_cases (h : Resumable id price quantity base s) (hrow : s.rows.lookup id = some row) :
    (∃ A G, Frozen base A G row) ∨ row.settled = true ∧
      (row.fundingD.walletChargeCredits.getD .zero).pico ≤ base.reservedCredits.pico := by
  have hstanding {A : List AllowanceConsumptionAllocation} {G : List GrantConsumptionAllocation}
      {p g : Option Id} (hs : Standing id base A G p g s) : ∃ A G, Frozen base A G row := by
    obtain ⟨found, hfound, hfrozen⟩ := hs.row
    rw [hrow, Option.some.injEq] at hfound
    exact ⟨A, G, hfound ▸ hfrozen⟩
  cases h with
  | free split standing => exact .inl (hstanding standing)
  | allowance own holds =>
    rcases holds.2 with hs | ⟨-, _, hs⟩
    · exact .inl (hstanding hs)
    · exact .inl (hstanding hs)
  | grant own holds =>
    rcases holds.2 with hs | ⟨-, hs⟩
    · exact .inl (hstanding hs)
    · exact .inl (hstanding hs)
  | settled found settled charge _ _ =>
    rw [hrow, Option.some.injEq] at found
    exact .inr ⟨found ▸ settled, found ▸ charge⟩

theorem Standing.setClaim (h : Standing id base A G p g s) (hrow : s.rows.lookup id = some row)
    (claim : ClaimId) (now : Time) :
    Standing id base A G p g { s with rows := s.rows.insert id (row.setClaim claim now) } := by
  obtain ⟨found, hfound, hfrozen⟩ := h.row
  rw [hrow, Option.some.injEq] at hfound
  subst hfound
  exact ⟨⟨_, AList.lookup_insert _, hfrozen.setClaim claim now⟩, h.unlocked.periods,
    h.unlocked.grants⟩

/-- A new claim on a row that is not settled leaves everything else of it. -/
theorem Resumable.setClaim (h : Resumable id price quantity base s) (hrow : s.rows.lookup id = some row)
    (hopen : ¬ row.settled = true) (claim : ClaimId) (now : Time) :
    Resumable id price quantity base { s with rows := s.rows.insert id (row.setClaim claim now) } := by
  cases h with
  | free split standing => exact .free split (standing.setClaim hrow claim now)
  | allowance own holds =>
    obtain ⟨hlock, hstanding⟩ := holds
    refine .allowance own ⟨hlock, ?_⟩
    rcases hstanding with hs | ⟨happlied, allowance, hs⟩
    · exact .inl (hs.setClaim hrow claim now)
    · exact .inr ⟨happlied, allowance, hs.setClaim hrow claim now⟩
  | grant own holds =>
    obtain ⟨hlock, hstanding⟩ := holds
    refine .grant own ⟨hlock, ?_⟩
    rcases hstanding with hs | ⟨happlied, hs⟩
    · exact .inl (hs.setClaim hrow claim now)
    · exact .inr ⟨happlied, hs.setClaim hrow claim now⟩
  | settled found settled _ _ _ =>
    rw [hrow, Option.some.injEq] at found
    exact absurd (found ▸ settled) hopen

theorem settleUsageFunding_yields (hwindow : FundedWindow price estimate base)
    (hmeasured : base.quantity = some quantity) (hquantity : 0 ≤ quantity ∧ quantity ≤ estimate)
    (h : Resumable id price quantity base s) (hrow : s.rows.lookup id = some row) :
    Settling digest provider id price quantity base (settleUsageFunding id row)
      (Settles id price quantity base) s := by
  have hreserved : 0 ≤ base.reservedCredits.pico := by
    obtain ⟨remaining, left, taxRate, -, -, -, hleft, hgross⟩ := hwindow.balance
    exact reserveGross_nonneg hgross hleft
  unfold settleUsageFunding
  refine (validateRuntimeSettlement_benign row).yields h fun _ _ => ?_
  split
  · rename_i hsettled
    refine ⟨?_, h⟩
    change ((row.fundingD.walletChargeCredits.getD .zero).max .zero).pico ≤ _
    rw [Credits.pico_max, Credits.pico_zero]
    rcases h.row_cases hrow with ⟨A, G, hfrozen⟩ | ⟨-, hcharge⟩
    · rw [hfrozen.settled] at hsettled
      rw [show base.settled = false from hwindow.unsettled] at hsettled
      cases hsettled
    · exact max_le hcharge hreserved
  · rename_i hopen
    split
    · exact ⟨hreserved, h⟩
    · have hfunded : row.funding.isSome = true := by
        rcases h.row_cases hrow with ⟨A, G, hfrozen⟩ | ⟨hsettled, -⟩
        · exact hfrozen.funded
        · exact absurd hsettled hopen
      unfold openLegacyFunding
      rw [if_pos hfunded]
      refine Resumable.step h fun env => ?_
      rcases claimFunding_cases digest 0 env id s with hexec | ⟨found, hfound, -, hexec⟩
      · rw [hexec]
        refine ⟨h, Resumable.step h fun env' => ⟨h, ?_⟩⟩
        dsimp only [exec]
        rw [hrow]
        dsimp only
        rw [if_neg hopen]
        exact ⟨other_internal _, h⟩
      · rw [hexec]
        rw [hrow, Option.some.injEq] at hfound
        subst hfound
        have hclaimed := h.setClaim hrow hopen 0 env.now
        refine ⟨hclaimed,
          settleClaimed_yields hwindow hmeasured hquantity _ hclaimed fun found hfound => ?_⟩
        rw [AList.lookup_insert, Option.some.injEq] at hfound
        rw [← hfound]
        exact hopen

theorem FundedWindow.of_same {reserved : UsageMeterRow} (h : FundedWindow price estimate reserved)
    (hfunding : row.funding = reserved.funding) (hcredits : row.reservedCredits = reserved.reservedCredits)
    (hmetric : row.metric = reserved.metric) : FundedWindow price estimate row := by
  have hsame : row.fundingD = reserved.fundingD := by
    unfold UsageMeterRow.fundingD
    rw [hfunding]
  refine ⟨?_, ?_, h.positive, ?_, ?_, ?_, ?_, ?_, ?_, ?_, ?_, ?_⟩
  · exact hmetric ▸ h.metric
  · exact hfunding ▸ h.funded
  all_goals rw [hsame]
  · exact h.rate
  · exact h.taxed
  · exact h.unsettled
  · exact h.allowances
  · exact h.grants
  · exact h.periods
  · exact h.grantIds
  · exact h.untouched
  · rw [hcredits]
    exact h.balance

end NyxId.Billing
