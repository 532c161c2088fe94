import NyxId.Billing.Rows

/-!
Admission: what the transactions that open usage rows do to the benefits, to the
wallet and to the rows, and that the hold they take is the sum of the new rows'.
-/

namespace NyxId.Billing

open Interleave

variable {s t : Store}

/-- Only benefits are written. -/
structure BenefitStep (s t : Store) : Prop where
  same : t = { s with periods := t.periods, grants := t.grants }
  periods : ∀ id, (s.periods.lookup id).isSome → (t.periods.lookup id).isSome
  grants : ∀ id, (s.grants.lookup id).isSome → (t.grants.lookup id).isSome

theorem BenefitStep.refl (s : Store) : BenefitStep s s := ⟨rfl, fun _ h => h, fun _ h => h⟩

theorem BenefitStep.trans {s t u : Store} (h : BenefitStep s t) (h' : BenefitStep t u) :
    BenefitStep s u where
  same := by
    have hst := h.same
    have htu := h'.same
    rw [hst] at htu
    exact htu
  periods := fun id hid => h'.periods id (h.periods id hid)
  grants := fun id hid => h'.grants id (h.grants id hid)

theorem isSome_lookup_insert {V : Type} {m : Collection Id V} {k k' : Id} {v : V}
    (h : (m.lookup k').isSome) : ((m.insert k v).lookup k').isSome := by
  by_cases hk : k' = k
  · rw [hk, AList.lookup_insert]
    rfl
  · rwa [AList.lookup_insert_ne hk]

theorem BenefitStep.period {id : Id} {period : UsageAllowancePeriod} :
    BenefitStep s { s with periods := s.periods.insert id period } :=
  ⟨rfl, fun _ h => isSome_lookup_insert h, fun _ h => h⟩

theorem BenefitStep.grant {id : Id} {grant : CreditGrant} :
    BenefitStep s { s with grants := s.grants.insert id grant } :=
  ⟨rfl, fun _ h => h, fun _ h => isSome_lookup_insert h⟩

theorem reserveAllowances_step {now : Time} {ids : List Id} {remaining left : ℤ}
    {allocations : List AllowanceReservationAllocation}
    (h : reserveAllowances now ids remaining s = .ok (allocations, left, t)) :
    BenefitStep s t := by
  induction ids generalizing remaining s allocations with
  | nil =>
    cases h
    exact .refl _
  | cons id rest ih =>
    unfold reserveAllowances at h
    split at h
    · cases h
      exact .refl _
    · split at h
      · exact ih h
      · dsimp only at h
        split at h
        · exact ih h
        · split at h
          · cases h
          · split at h
            · exact ih h
            · obtain ⟨⟨_, _, _⟩, hrest, h⟩ := bind_eq_ok.mp h
              cases h
              exact BenefitStep.period.trans (ih hrest)

theorem reserveWindowAllowances_step {now : Time} {window : RuntimeWindow} {ids : List Id}
    {remaining left : ℤ} {allocations : List AllowanceReservationAllocation}
    (h : reserveWindowAllowances now window ids remaining s = .ok (allocations, left, t)) :
    BenefitStep s t := by
  induction ids generalizing remaining s allocations with
  | nil =>
    cases h
    exact .refl _
  | cons id rest ih =>
    unfold reserveWindowAllowances at h
    split at h
    · cases h
      exact .refl _
    · split at h
      · exact ih h
      · split at h
        · exact ih h
        · dsimp only at h
          split at h
          · exact ih h
          · split at h
            · cases h
            · obtain ⟨⟨_, _, _⟩, hrest, h⟩ := bind_eq_ok.mp h
              cases h
              exact BenefitStep.period.trans (ih hrest)

theorem reserveGrants_step {policy : GrantPolicy} {now : Time} {serviceId serviceSlug : Option Id}
    {ids : List Id} {remaining left : Credits} {allocations : List GrantReservationAllocation}
    (h : reserveGrants policy now serviceId serviceSlug ids remaining s =
      .ok (allocations, left, t)) :
    BenefitStep s t ∧ (0 ≤ remaining.pico → 0 ≤ left.pico) := by
  induction ids generalizing remaining s allocations with
  | nil =>
    cases h
    exact ⟨.refl _, fun h => h⟩
  | cons id rest ih =>
    unfold reserveGrants at h
    split at h
    · cases h
      exact ⟨.refl _, fun h => h⟩
    · split at h
      · exact ih h
      · obtain ⟨available, -, h⟩ := bind_eq_ok.mp h
        dsimp only at h
        split at h
        · exact ih h
        · split at h
          · cases h
          · split at h
            · exact ih h
            · split at h
              · split at h
                · exact ih h
                · cases h
              · obtain ⟨next, hnext, h⟩ := bind_eq_ok.mp h
                obtain ⟨⟨_, _, _⟩, hrest, h⟩ := bind_eq_ok.mp h
                cases h
                obtain ⟨hstep, hnonneg⟩ := ih hrest
                refine ⟨BenefitStep.grant.trans hstep, fun hpos => hnonneg ?_⟩
                have hsub := Credits.checkedSub_eq_some.mp (creditsOrError_eq_ok hnext)
                rw [Credits.pico_min] at hsub
                omega

theorem proportional_nonneg {base rate tax : Credits} {roundUp : Bool}
    (h : proportional base rate roundUp = .ok tax) : 0 ≤ tax.pico := by
  unfold proportional at h
  dsimp only at h
  split at h
  · cases h
  · rename_i hsign
    have hbase : 0 ≤ base.pico := by omega
    have hrate : 0 ≤ rate.pico := by omega
    split at h
    · cases h
    · cases h
    · rename_i whole remainder hwhole hrem
      split at h
      · rename_i v hv
        have hv' := Credits.fromPico_eq_some.mp (creditsOrError_eq_ok h)
        obtain ⟨mid, hmid, hsum⟩ := Option.bind_eq_some_iff.mp hv
        have hw := (checkedI128_eq_some.mp hwhole).1
        have hr := (checkedI128_eq_some.mp hrem).1
        have hm := (checkedI128_eq_some.mp hmid).1
        have hs := (checkedI128_eq_some.mp hsum).1
        have hden : (0 : ℤ) ≤ 100 * Credits.scale := by positivity
        have hw0 : 0 ≤ whole := hw ▸ mul_nonneg (Int.tdiv_nonneg hbase hden) hrate
        have hr0 : 0 ≤ remainder := hr ▸ mul_nonneg (Int.tmod_nonneg _ hbase) hrate
        have hd0 : 0 ≤ remainder.tdiv (100 * Credits.scale) := Int.tdiv_nonneg hr0 hden
        have hi : ∀ (b : Bool) (p q : Prop) [Decidable p] [Decidable q],
            0 ≤ (if b = true then (if p then 1 else 0) else (if q then (1 : ℤ) else 0)) := by
          intro b p q _ _
          split <;> split <;> decide
        have hi0 := hi roundUp (remainder.tmod (100 * Credits.scale) > 0)
          (remainder.tmod (100 * Credits.scale) ≥ 100 * Credits.scale / 2)
        omega
      · cases h

theorem reserveGross_nonneg {taxRate : Option Credits} {base gross : Credits}
    {tax : Option Credits} (h : reserveGross taxRate base = .ok (gross, tax))
    (hbase : 0 ≤ base.pico) : 0 ≤ gross.pico := by
  unfold reserveGross at h
  split at h
  · cases h
    exact hbase
  · cases taxRate with
    | none => cases h
    | some rate =>
      obtain ⟨ceiling, hceiling, h⟩ := bind_eq_ok.mp h
      cases h
      obtain ⟨part, hpart, hsum⟩ := bind_eq_ok.mp hceiling
      have hsum := Credits.checkedAdd_eq_some.mp (creditsOrError_eq_ok hsum)
      have := proportional_nonneg hpart
      omega

theorem insertRow_cases {id : Id} {row : UsageMeterRow} (h : insertRow id row s = .ok t) :
    s.rows.lookup id = none ∧ t = { s with rows := s.rows.insert id row } ∧
      ∀ i r, s.rows.lookup i = some r → transactionId r ≠ transactionId row := by
  unfold insertRow at h
  split at h
  · cases h
  · rename_i hfree
    cases h
    simp only [not_or, Bool.not_eq_true, Option.isSome_eq_false_iff, Option.isNone_iff_eq_none]
      at hfree
    refine ⟨hfree.1, rfl, fun i r hr heq => ?_⟩
    have hany : s.rows.entries.any (fun e => transactionId e.2 = transactionId row) = true :=
      List.any_eq_true.mpr ⟨⟨i, r⟩, AList.mem_lookup_iff.mp hr, by simpa using heq⟩
    rw [hfree.2] at hany
    cases hany

end NyxId.Billing
