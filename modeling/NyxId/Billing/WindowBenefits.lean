import NyxId.Billing.WindowResources
import NyxId.Billing.WindowSplit

/-!
The reserved benefits of a runtime window in turn: each is drawn once and for no more than it holds, and
those that earlier attempts have drawn are passed over.
-/

namespace NyxId.Billing

open Interleave Machine

variable {digest : LagoCarry.Digest} {provider : Provider} {id : Id} {price : Credits}
variable {estimate quantity : ℤ} {base row : UsageMeterRow} {A : List AllowanceConsumptionAllocation}
variable {G : List GrantConsumptionAllocation} {p g : Option Id} {s t : Store} {α : Type}

/-! ### The reserved benefits in turn -/

theorem foldlM_total {f : ℤ → AllowanceConsumptionAllocation → Except AppError ℤ}
    (hf : ∀ total a, f total a = .ok (total + a.quantity) ∨
      ∃ text, f total a = .error (.internal text))
    (l : List AllowanceConsumptionAllocation) (total : ℤ) :
    l.foldlM f total = .ok (total + (l.map (·.quantity)).sum) ∨
      ∃ text, l.foldlM f total = .error (.internal text) := by
  induction l generalizing total with
  | nil =>
    left
    rw [List.map_nil, List.sum_nil, add_zero]
    rfl
  | cons a rest ih =>
    rw [List.foldlM_cons, List.map_cons, List.sum_cons, ← add_assoc]
    rcases hf total a with hok | ⟨text, herror⟩
    · rw [hok]
      exact ih _
    · rw [herror]
      exact .inr ⟨text, rfl⟩

theorem allowanceConsumed_cases (row : UsageMeterRow) :
    allowanceConsumed row = .ok (row.fundingD.allowanceConsumptions.map (·.quantity)).sum ∨
      ∃ text, allowanceConsumed row = .error (.internal text) := by
  rw [← zero_add (List.sum _)]
  refine foldlM_total (fun total a => ?_) _ 0
  cases hsum : checkedI64 (total + a.quantity) with
  | none => exact .inr ⟨_, rfl⟩
  | some sum =>
    obtain ⟨rfl, -⟩ := checkedI64_eq_some.mp hsum
    exact .inl rfl

/-- The row after a benefit was drawn, as the settlement reads it again. -/
theorem refreshClaimed_yields {claim : Option ClaimId} {Q : UsageMeterRow → Store → Prop}
    (hsplit : Split id price quantity base A G) (h : Standing id base A G none none s)
    (hQ : ∀ row, Frozen base A G row → Q row s) :
    Settling digest provider id price quantity base (refreshClaimed id claim) Q s := by
  have hresume : Resumable id price quantity base s := .free hsplit h
  refine Resumable.step hresume fun env => ⟨hresume, ?_⟩
  obtain ⟨row, hrow, hfrozen⟩ := h.row
  dsimp only [exec]
  rw [hrow]
  cases hfound : (some row).filter fun (row : UsageMeterRow) =>
      decide (row.claim = claim ∧ ¬ row.settled ∧ ¬ row.released) with
  | none => exact ⟨other_internal _, hresume⟩
  | some found =>
    obtain ⟨hsame, -⟩ := Option.filter_eq_some_iff.mp hfound
    cases hsame
    exact hQ row hfrozen

/-- The row and its coverage once the first allowances have been drawn. -/
structure AllowancesCovered (id : Id) (base : UsageMeterRow) (quantity : ℤ)
    (done : List AllowanceReservationAllocation) (A : List AllowanceConsumptionAllocation)
    (G : List GrantConsumptionAllocation) (state : Covered ℤ) : Prop where
  row : Frozen base A G state.row
  drawn : List.Forall₂ (AllowanceDrawn id) done A
  total : (A.map (·.quantity)).sum = min quantity (done.map (·.quantity)).sum
  covered : state.covered = (A.map (·.quantity)).sum

section

variable {R C : Type} {Records : R → C → Prop} {done : List R} {drawn : List C} {resource : R → Id}
variable {operation : C → OperationId} {kind : OperationKind}

/-- Records of reservations name no operation on another resource. -/
theorem operation_ne (h : List.Forall₂ Records done drawn)
    (hnames : ∀ r c, Records r c → operation c = ⟨id, kind, resource r⟩) {i : Id}
    (hnew : i ∉ done.map resource) : ∀ c ∈ drawn, operation c ≠ ⟨id, kind, i⟩ := by
  intro c hc hsame
  obtain ⟨r, hr, hrecords⟩ := Outcomes.exists_of_forall₂ h hc
  rw [hnames r c hrecords] at hsame
  exact hnew (List.mem_map.mpr ⟨r, hr, congrArg OperationId.resource hsame⟩)

theorem operation_mem (h : List.Forall₂ Records done drawn)
    (hnames : ∀ r c, Records r c → operation c = ⟨id, kind, resource r⟩) :
    ∀ r ∈ done, ∃ c ∈ drawn, operation c = ⟨id, kind, resource r⟩ := by
  intro r hr
  obtain ⟨c, hc, hrecords⟩ := Outcomes.exists_of_forall₂ h.flip hr
  exact ⟨c, hc, hnames r c hrecords⟩

end

/-- Allowances that an earlier attempt has drawn are passed over. -/
theorem settleReservedAllowances_recorded {rest : List AllowanceReservationAllocation}
    {state : Covered ℤ} {Q : Covered ℤ → Store → Prop} (hsplit : Split id price quantity base A G)
    (hrow : Frozen base A G state.row)
    (hrest : ∀ t, Standing id base A G none none t →
      Settling digest provider id price quantity base
        (settleReservedAllowances id quantity rest state) Q t)
    (skip : List AllowanceReservationAllocation)
    (hskip : ∀ r ∈ skip, ∃ a ∈ A, a.operationId = ⟨id, .allowance, r.periodId⟩)
    (h : Standing id base A G none none s) :
    Settling digest provider id price quantity base
      (settleReservedAllowances id quantity (skip ++ rest) state) Q s := by
  induction skip generalizing s with
  | nil => exact hrest s h
  | cons r skip ih =>
    have hoperation : hasAllowanceOperation state.row ⟨id, .allowance, r.periodId⟩ = true := by
      obtain ⟨a, ha, hop⟩ := hskip r List.mem_cons_self
      unfold hasAllowanceOperation
      rw [hrow.consumptions.1]
      exact List.any_eq_true.mpr ⟨a, ha, by simpa using hop⟩
    rw [List.cons_append]
    unfold settleReservedAllowances
    dsimp only [allowanceRequest]
    rw [if_pos hoperation]
    exact Yields.seq (finishAllowanceOperation_yields rfl hsplit h)
      fun _ t ht => ih (fun r' hr' => hskip r' (List.mem_cons_of_mem _ hr')) ht

theorem settleReservedAllowances_yields (hwindow : FundedWindow price estimate base)
    (done rest : List AllowanceReservationAllocation)
    (hlist : base.fundingD.allowanceReservations = done ++ rest) {state : Covered ℤ}
    (hstate : AllowancesCovered id base quantity done A G state)
    (hsplit : Split id price quantity base A G) (h : Standing id base A G none none s) :
    Settling digest provider id price quantity base
      (settleReservedAllowances id quantity rest state)
      (fun state t => ∃ A', AllowancesCovered id base quantity base.fundingD.allowanceReservations A' G
        state ∧ Split id price quantity base A' G ∧ Standing id base A' G none none t) s := by
  induction rest generalizing done A state s with
  | nil =>
    rw [List.append_nil] at hlist
    exact ⟨A, hlist ▸ hstate, hsplit, h⟩
  | cons r rest ih =>
    have hnone : G = [] := by
      rcases hsplit.order with hnone | hall
      · exact hnone
      · rw [hlist, ← hstate.drawn.length_eq, List.length_append, List.length_cons] at hall
        omega
    subst hnone
    have hr : 0 ≤ r.quantity :=
      hwindow.allowances r (hlist ▸ List.mem_append_right _ List.mem_cons_self)
    have hfresh : r.periodId ∉ done.map (·.periodId) := by
      have hnodup := hwindow.periods
      rw [hlist, List.map_append, List.map_cons] at hnodup
      exact fun hmem => (List.nodup_append.mp hnodup).2.2 _ hmem _ List.mem_cons_self rfl
    have hnew := operation_ne hstate.drawn (fun _ _ hdrawn => hdrawn.operation) hfresh
    have hdone : 0 ≤ (done.map (·.quantity)).sum :=
      hwindow.units_nonneg (hlist ▸ List.subset_append_left _ _)
    have hcovered := hstate.covered
    have htotal := hstate.total
    let lock : AllowanceSettlementLock := ⟨⟨id, .allowance, r.periodId⟩, id, max r.quantity 0,
      min (max r.quantity 0) (quantity - state.covered), false⟩
    have hamount : lock.consumeQuantity = min (max r.quantity 0) (quantity - state.covered) := rfl
    have hlist' : base.fundingD.allowanceReservations = (done ++ [r]) ++ rest := by
      rw [hlist, List.append_assoc, List.singleton_append]
    have hdrawn (allowance : Id) :
        List.Forall₂ (AllowanceDrawn id) (done ++ [r]) (A ++ [lock.record r.periodId allowance]) := by
      refine List.rel_append hstate.drawn (.cons ⟨rfl, rfl, ?_⟩ .nil)
      change 0 ≤ lock.consumeQuantity ∧ lock.consumeQuantity ≤ r.quantity
      omega
    have hsum (allowance : Id) : ((A ++ [lock.record r.periodId allowance]).map (·.quantity)).sum =
        min quantity ((done ++ [r]).map (·.quantity)).sum := by
      have hrecord : (lock.record r.periodId allowance).quantity = lock.consumeQuantity := rfl
      rw [List.map_append, List.map_append, List.sum_append, List.sum_append]
      simp only [List.map_cons, List.map_nil, List.sum_cons, List.sum_nil, add_zero, hrecord]
      omega
    have hafter (allowance : Id) :
        Split id price quantity base (A ++ [lock.record r.periodId allowance]) [] :=
      ⟨⟨done ++ [r], rest, hlist', hdrawn allowance, hsum allowance⟩, hsplit.grants, .inl rfl⟩
    have hoperation : ¬ hasAllowanceOperation state.row ⟨id, .allowance, r.periodId⟩ = true := by
      unfold hasAllowanceOperation
      rw [hstate.row.consumptions.1]
      simpa using hnew
    unfold settleReservedAllowances
    dsimp only [allowanceRequest]
    rw [if_neg hoperation]
    refine Yields.seq (settleAllowance_yields rfl rfl rfl ⟨rfl, hnew, hsplit, hafter⟩
      resourceLockRetries h) fun drew t ht => ?_
    cases drew with
    | false =>
      have hmetric : state.row.metric.isRuntimeAllocation = true := hstate.row.metric ▸ hwindow.metric
      rw [if_neg Bool.false_ne_true, if_pos hmetric]
      exact ⟨other_reconciliation _ (by decide), .free hsplit ht⟩
    | true =>
      obtain ⟨allowance, ht⟩ := ht
      rw [if_pos rfl]
      refine Yields.bind (Yields.bind (refreshClaimed_yields (hafter allowance) ht fun row hrow => ?_))
      rcases allowanceConsumed_cases row with hok | ⟨text, herror⟩
      · rw [hok, hrow.consumptions.1]
        refine ih (done ++ [r]) hlist' ⟨hrow, hdrawn allowance, hsum allowance, ?_⟩
          (hafter allowance) ht
        exact min_eq_left ((hsum allowance).trans_le (min_le_left _ _))
      · rw [herror]
        exact ⟨other_internal _, .free (hafter allowance) ht⟩

theorem grantConsumed_cases (row : UsageMeterRow) :
    (∃ total, grantConsumed row = .ok total ∧
      total.pico = (row.fundingD.grantConsumptions.map (·.amount.pico)).sum) ∨
      grantConsumed row = .error .credits := by
  unfold grantConsumed
  cases hsum : Credits.checkedSum (row.fundingD.grantConsumptions.map (·.amount)) with
  | none => exact .inr rfl
  | some total =>
    refine .inl ⟨total, rfl, ?_⟩
    rw [Credits.checkedSum_eq_some hsum, List.map_map]
    rfl

structure GrantsCovered (id : Id) (base : UsageMeterRow) (charge : Credits)
    (A : List AllowanceConsumptionAllocation) (done : List GrantReservationAllocation)
    (G : List GrantConsumptionAllocation) (state : Covered Credits) : Prop where
  row : Frozen base A G state.row
  drawn : List.Forall₂ (GrantDrawn id) done G
  total : (G.map (·.amount.pico)).sum = min charge.pico (done.map (·.amount.pico)).sum
  covered : state.covered.pico = (G.map (·.amount.pico)).sum

theorem settleReservedGrants_recorded {charge : Credits} {rest : List GrantReservationAllocation}
    {state : Covered Credits} {Q : Covered Credits → Store → Prop}
    (hsplit : Split id price quantity base A G) (hrow : Frozen base A G state.row)
    (hrest : ∀ t, Standing id base A G none none t →
      Settling digest provider id price quantity base (settleReservedGrants id charge rest state) Q t)
    (skip : List GrantReservationAllocation)
    (hskip : ∀ r ∈ skip, ∃ a ∈ G, a.operationId = ⟨id, .grant, r.grantId⟩)
    (h : Standing id base A G none none s) :
    Settling digest provider id price quantity base
      (settleReservedGrants id charge (skip ++ rest) state) Q s := by
  induction skip generalizing s with
  | nil => exact hrest s h
  | cons r skip ih =>
    have hoperation : hasGrantOperation state.row ⟨id, .grant, r.grantId⟩ = true := by
      obtain ⟨a, ha, hop⟩ := hskip r List.mem_cons_self
      unfold hasGrantOperation
      rw [hrow.consumptions.2]
      exact List.any_eq_true.mpr ⟨a, ha, by simpa using hop⟩
    rw [List.cons_append]
    unfold settleReservedGrants
    rw [if_pos hoperation]
    exact Yields.seq (finishGrantOperation_yields rfl hsplit h)
      fun _ t ht => ih (fun r' hr' => hskip r' (List.mem_cons_of_mem _ hr')) ht

theorem settleReservedGrants_yields (hwindow : FundedWindow price estimate base) {charge : Credits}
    (hcharge : charge.pico = windowCharge price quantity base)
    (hall : A.length = base.fundingD.allowanceReservations.length)
    (done rest : List GrantReservationAllocation)
    (hlist : base.fundingD.grantReservations = done ++ rest) {state : Covered Credits}
    (hstate : GrantsCovered id base charge A done G state)
    (hsplit : Split id price quantity base A G) (h : Standing id base A G none none s) :
    Settling digest provider id price quantity base (settleReservedGrants id charge rest state)
      (fun state t => ∃ G', GrantsCovered id base charge A base.fundingD.grantReservations G' state ∧
        Split id price quantity base A G' ∧ Standing id base A G' none none t) s := by
  induction rest generalizing done G state s with
  | nil =>
    rw [List.append_nil] at hlist
    exact ⟨G, hlist ▸ hstate, hsplit, h⟩
  | cons r rest ih =>
    have hresume : Resumable id price quantity base s := .free hsplit h
    have hr : 0 ≤ r.amount.pico :=
      hwindow.grants r (hlist ▸ List.mem_append_right _ List.mem_cons_self)
    have hfresh : r.grantId ∉ done.map (·.grantId) := by
      have hnodup := hwindow.grantIds
      rw [hlist, List.map_append, List.map_cons] at hnodup
      exact fun hmem => (List.nodup_append.mp hnodup).2.2 _ hmem _ List.mem_cons_self rfl
    have hnew := operation_ne hstate.drawn (fun _ _ hdrawn => hdrawn.operation) hfresh
    have hoperation : ¬ hasGrantOperation state.row ⟨id, .grant, r.grantId⟩ = true := by
      unfold hasGrantOperation
      rw [hstate.row.consumptions.2]
      simpa using hnew
    have hcovered := hstate.covered
    have htotal := hstate.total
    unfold settleReservedGrants
    rw [if_neg hoperation]
    cases hleft : charge.checkedSub state.covered with
    | none => exact ⟨other_credits, hresume⟩
    | some left =>
      have hsub := Credits.checkedSub_eq_some.mp hleft
      refine Yields.checked ?_
      let lock : CreditGrantSettlementLock := ⟨⟨id, .grant, r.grantId⟩, r.serviceLimitKey, id,
        r.amount.max .zero, (r.amount.max .zero).min left, false⟩
      have hamount : (lock.record r.grantId).amount.pico = min (max r.amount.pico 0) left.pico := by
        change ((r.amount.max .zero).min left).pico = _
        rw [Credits.pico_min, Credits.pico_max, Credits.pico_zero]
      have hlist' : base.fundingD.grantReservations = (done ++ [r]) ++ rest := by
        rw [hlist, List.append_assoc, List.singleton_append]
      have hdrawn : List.Forall₂ (GrantDrawn id) (done ++ [r]) (G ++ [lock.record r.grantId]) := by
        refine List.rel_append hstate.drawn (.cons ⟨rfl, rfl, rfl, ?_⟩ .nil)
        omega
      have hsum : ((G ++ [lock.record r.grantId]).map (·.amount.pico)).sum =
          min charge.pico ((done ++ [r]).map (·.amount.pico)).sum := by
        rw [List.map_append, List.map_append, List.sum_append, List.sum_append]
        simp only [List.map_cons, List.map_nil, List.sum_cons, List.sum_nil, add_zero, hamount]
        omega
      have hafter : Split id price quantity base A (G ++ [lock.record r.grantId]) :=
        ⟨hsplit.allowances, ⟨done ++ [r], rest, hlist', hdrawn, hcharge ▸ hsum⟩, .inr hall⟩
      dsimp only [grantRequest]
      refine Yields.seq (settleGrant_yields rfl rfl rfl ⟨rfl, hnew, hsplit, hafter⟩
        resourceLockRetries h) fun drew t ht => ?_
      cases drew with
      | false =>
        have hmetric : state.row.metric.isRuntimeAllocation = true := hstate.row.metric ▸ hwindow.metric
        rw [if_neg Bool.false_ne_true, if_pos hmetric]
        exact ⟨other_reconciliation _ (by decide), .free hsplit ht⟩
      | true =>
        rw [if_pos rfl]
        refine Yields.bind (Yields.bind (refreshClaimed_yields hafter ht fun row hrow => ?_))
        rcases grantConsumed_cases row with ⟨total, hok, hvalue⟩ | herror
        · rw [hok]
          rw [hrow.consumptions.2] at hvalue
          refine ih (done ++ [r]) hlist' ⟨hrow, hdrawn, hsum, ?_⟩ hafter ht
          dsimp only
          rw [Credits.pico_min, hvalue]
          exact min_eq_left (hsum.trans_le (min_le_left _ _))
        · rw [herror]
          exact ⟨other_credits, .free hafter ht⟩

end NyxId.Billing
