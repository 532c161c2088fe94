import NyxId.Billing.WindowProgress

/-!
A lock of the row on one of its benefits, finished from wherever an attempt left it: the lock is applied,
the row takes its record once, and the lock is cleared.
-/

namespace NyxId.Billing

open Interleave Machine

variable {digest : LagoCarry.Digest} {provider : Provider} {id : Id} {base row : UsageMeterRow}
variable {s t : Store} {A : List AllowanceConsumptionAllocation} {G : List GrantConsumptionAllocation}
variable {α : Type} {p g : Option Id} {price : Credits} {estimate quantity : ℤ}

/-! ### Records and locks -/

/-- The row takes the record of an operation that it does not have yet. -/
theorem Standing.recordAllowance (h : Standing id base A G p g s) {a : AllowanceConsumptionAllocation}
    (hnew : ∀ b ∈ A, b.operationId ≠ a.operationId) (w : ℕ) (now : Time) :
    Standing id base (A ++ [a]) G p g (s.updateRow w now id (.recordAllowance a)).2 := by
  obtain ⟨row, hrow, hfrozen⟩ := h.row
  have hadmits : (RowUpdate.recordAllowance a).admits now row = true := by
    unfold RowUpdate.admits hasAllowanceOperation
    rw [hfrozen.consumptions.1]
    simpa using hnew
  unfold Store.updateRow
  rw [hrow]
  dsimp only
  rw [if_pos hadmits]
  exact ⟨⟨_, AList.lookup_insert _, hfrozen.recordAllowance a now⟩, h.unlocked.periods,
    h.unlocked.grants⟩

theorem Standing.recordGrant (h : Standing id base A G p g s) {a : GrantConsumptionAllocation}
    (hnew : ∀ b ∈ G, b.operationId ≠ a.operationId) (w : ℕ) (now : Time) :
    Standing id base A (G ++ [a]) p g (s.updateRow w now id (.recordGrant a)).2 := by
  obtain ⟨row, hrow, hfrozen⟩ := h.row
  have hadmits : (RowUpdate.recordGrant a).admits now row = true := by
    unfold RowUpdate.admits hasGrantOperation
    rw [hfrozen.consumptions.2]
    simpa using hnew
  unfold Store.updateRow
  rw [hrow]
  dsimp only
  rw [if_pos hadmits]
  exact ⟨⟨_, AList.lookup_insert _, hfrozen.recordGrant a now⟩, h.unlocked.periods,
    h.unlocked.grants⟩

theorem updateRow_benefits (s : Store) (w : ℕ) (now : Time) (i : Id) (u : RowUpdate) :
    (s.updateRow w now i u).2.periods = s.periods ∧ (s.updateRow w now i u).2.grants = s.grants := by
  unfold Store.updateRow
  split
  · split <;> exact ⟨rfl, rfl⟩
  · exact ⟨rfl, rfl⟩

/-- The end of the one lock that the row had. -/
theorem Standing.clearPeriod {i : Id} {lock : AllowanceSettlementLock}
    (h : Standing id base A G (some i) none s) (hlock : LocksPeriod i lock s)
    (happlied : lock.applied = true) :
    Standing id base A G none none (s.updatePeriod i (.clearSettlement lock.operationId)).2 := by
  obtain ⟨period, hperiod, hactive⟩ := hlock
  have hadmits : (PeriodUpdate.clearSettlement lock.operationId).admits period = true := by
    unfold PeriodUpdate.admits
    rw [hactive]
    simp [happlied]
  unfold Store.updatePeriod
  rw [hperiod]
  dsimp only
  rw [if_pos hadmits]
  refine ⟨h.row, fun j found other _ hfound hother => ?_, h.unlocked.grants⟩
  rcases Collection.lookup_insert_cases hfound with ⟨-, rfl⟩ | ⟨hj, hfound⟩
  · cases hother
  · exact h.unlocked.periods j found other (fun hsome => hj (Option.some.inj hsome)) hfound hother

theorem Standing.clearGrant {i : Id} {lock : CreditGrantSettlementLock}
    (h : Standing id base A G none (some i) s) (hlock : LocksGrant i lock s)
    (happlied : lock.applied = true) (now : Time) :
    Standing id base A G none none (s.updateGrant now i (.clearSettlement lock.operationId)).2 := by
  obtain ⟨grant, hgrant, hactive⟩ := hlock
  have hadmits : (GrantUpdate.clearSettlement lock.operationId).admits grant = true := by
    unfold GrantUpdate.admits
    rw [hactive]
    simp [happlied]
  unfold Store.updateGrant
  rw [hgrant]
  dsimp only
  rw [if_pos hadmits]
  refine ⟨h.row, h.unlocked.periods, fun j found other _ hfound hother => ?_⟩
  rcases Collection.lookup_insert_cases hfound with ⟨-, rfl⟩ | ⟨hj, hfound⟩
  · cases hother
  · exact h.unlocked.grants j found other (fun hsome => hj (Option.some.inj hsome)) hfound hother

theorem LocksPeriod.apply {i : Id} {lock : AllowanceSettlementLock} (h : LocksPeriod i lock s)
    (happlied : lock.applied = false) :
    LocksPeriod i { lock with applied := true } (s.updatePeriod i (.applySettlement lock)).2 := by
  obtain ⟨period, hperiod, hactive⟩ := h
  have hadmits : (PeriodUpdate.applySettlement lock).admits period = true := by
    unfold PeriodUpdate.admits
    rw [hactive]
    simp [happlied]
  unfold Store.updatePeriod
  rw [hperiod]
  dsimp only
  rw [if_pos hadmits]
  refine ⟨_, AList.lookup_insert _, ?_⟩
  change period.activeSettlement.map _ = _
  rw [hactive]
  rfl

theorem LocksGrant.apply {i : Id} {lock : CreditGrantSettlementLock} (h : LocksGrant i lock s)
    (happlied : lock.applied = false) (now : Time) :
    LocksGrant i { lock with applied := true } (s.updateGrant now i (.applySettlement lock)).2 := by
  obtain ⟨grant, hgrant, hactive⟩ := h
  have hadmits : (GrantUpdate.applySettlement lock).admits grant = true := by
    unfold GrantUpdate.admits
    rw [hactive]
    simp [happlied]
  unfold Store.updateGrant
  rw [hgrant]
  dsimp only
  rw [if_pos hadmits]
  refine ⟨_, AList.lookup_insert _, ?_⟩
  change grant.activeSettlement.map _ = _
  rw [hactive]
  rfl

/-- A record is made once, under whatever allowance it is completed again. -/
theorem Standing.recordAllowance_again {a b : AllowanceConsumptionAllocation}
    (h : Standing id base (A ++ [a]) G p g s) (hsame : a.operationId = b.operationId) (w : ℕ)
    (now : Time) :
    (s.updateRow w now id (.recordAllowance b)).2 = s := by
  obtain ⟨row, hrow, hfrozen⟩ := h.row
  have hrefused : ¬ (RowUpdate.recordAllowance b).admits now row = true := by
    unfold RowUpdate.admits hasAllowanceOperation
    rw [hfrozen.consumptions.1]
    simp [hsame]
  unfold Store.updateRow
  rw [hrow]
  dsimp only
  rw [if_neg hrefused]

theorem Standing.recordGrant_again {a : GrantConsumptionAllocation}
    (h : Standing id base A (G ++ [a]) p g s) (w : ℕ) (now : Time) :
    (s.updateRow w now id (.recordGrant a)).2 = s := by
  obtain ⟨row, hrow, hfrozen⟩ := h.row
  have hrefused : ¬ (RowUpdate.recordGrant a).admits now row = true := by
    unfold RowUpdate.admits hasGrantOperation
    rw [hfrozen.consumptions.2]
    simp
  unfold Store.updateRow
  rw [hrow]
  dsimp only
  rw [if_neg hrefused]

theorem OwnAllowance.mark {i : Id} {lock : AllowanceSettlementLock}
    (own : OwnAllowance id price quantity base A G i lock) :
    OwnAllowance id price quantity base A G i { lock with applied := true } :=
  ⟨own.row, own.fresh, own.before, own.after⟩

theorem OwnGrant.mark {i : Id} {lock : CreditGrantSettlementLock}
    (own : OwnGrant id price quantity base A G i lock) :
    OwnGrant id price quantity base A G i { lock with applied := true } :=
  ⟨own.row, own.fresh, own.before, own.after⟩

/-- The record of an applied lock on a period, and the end of that lock. -/
theorem finishOwnAllowance {i allowanceId : Id} {lock : AllowanceSettlementLock}
    (own : OwnAllowance id price quantity base A G i lock)
    (holds : HoldsAllowance id base A G i { lock with applied := true } s) :
    Settling digest provider id price quantity base (do
      let _ ← perform (.updateRow lock.usageRowId (.recordAllowance (lock.record i allowanceId)))
      let _ ← perform (.updatePeriod i (.clearSettlement lock.operationId)))
      (fun _ t => ∃ allowance, Standing id base (A ++ [lock.record i allowance]) G none none t) s := by
  have hclear (t : Store) (hlock : LocksPeriod i { lock with applied := true } t) (allowance : Id)
      (ht : Standing id base (A ++ [lock.record i allowance]) G (some i) none t) :
      Resumable id price quantity base t ∧ Settling digest provider id price quantity base (do
        let _ ← perform (.updatePeriod i (.clearSettlement lock.operationId)))
        (fun _ u => ∃ allowance, Standing id base (A ++ [lock.record i allowance]) G none none u)
        t := by
    have hresume : Resumable id price quantity base t :=
      .allowance own.mark ⟨hlock, .inr ⟨rfl, allowance, ht⟩⟩
    refine ⟨hresume, Resumable.step hresume fun env => ?_⟩
    have hcleared := ht.clearPeriod hlock rfl
    exact ⟨.free (own.after allowance) hcleared, allowance, hcleared⟩
  obtain ⟨hlock, hstanding⟩ := holds
  refine Resumable.step (.allowance own.mark ⟨hlock, hstanding⟩) fun env => ?_
  rw [own.row]
  rcases hstanding with h | ⟨-, allowance, h⟩
  · have hrecorded := h.recordAllowance (a := lock.record i allowanceId) own.fresh 0 env.now
    have hsame := updateRow_benefits s 0 env.now id (.recordAllowance (lock.record i allowanceId))
    have hheld : LocksPeriod i { lock with applied := true }
        (s.updateRow 0 env.now id (.recordAllowance (lock.record i allowanceId))).2 := by
      unfold LocksPeriod
      rw [hsame.1]
      exact hlock
    exact hclear _ hheld allowanceId hrecorded
  · have hagain := h.recordAllowance_again (b := lock.record i allowanceId) rfl 0 env.now
    have hafter :
        (exec digest 0 env (.updateRow id (.recordAllowance (lock.record i allowanceId))) s).2 = s :=
      hagain
    rw [hafter]
    exact hclear s hlock allowance h

/-- A lock of the row on a period is finished from wherever it stands. -/
theorem completeOwnAllowance {i allowanceId : Id} {lock : AllowanceSettlementLock}
    (own : OwnAllowance id price quantity base A G i lock)
    (holds : HoldsAllowance id base A G i lock s) :
    Settling digest provider id price quantity base (completeAllowanceLock i allowanceId lock)
      (fun _ t => ∃ allowance, Standing id base (A ++ [lock.record i allowance]) G none none t) s := by
  unfold completeAllowanceLock
  dsimp only
  split
  · rename_i hunapplied
    have happlied : lock.applied = false := by simpa using hunapplied
    obtain ⟨hlock, h⟩ := holds
    rcases h with h | ⟨hmarked, -⟩
    · refine Resumable.step (.allowance own ⟨hlock, .inl h⟩) fun env => ?_
      have hheld : HoldsAllowance id base A G i { lock with applied := true }
          (s.updatePeriod i (.applySettlement lock)).2 :=
        ⟨hlock.apply happlied, .inl (h.updatePeriod i (.applySettlement lock))⟩
      exact ⟨.allowance own.mark hheld, finishOwnAllowance own hheld⟩
    · rw [happlied] at hmarked
      cases hmarked
  · rename_i happlied
    have hsame : lock = { lock with applied := true } := by
      cases lock
      simpa using happlied
    exact finishOwnAllowance own (hsame ▸ holds)

/-- The record of an applied lock on a grant, its entry in the journal, and the end of that lock. -/
theorem finishOwnGrant {i : Id} {lock : CreditGrantSettlementLock}
    (own : OwnGrant id price quantity base A G i lock)
    (holds : HoldsGrant id base A G i { lock with applied := true } s) :
    Settling digest provider id price quantity base (do
      let _ ← perform (.updateRow lock.usageRowId (.recordGrant (lock.record i)))
      if 0 < lock.consume.pico then
        journalGrantConsumption i lock
      let _ ← perform (.updateGrant i (.clearSettlement lock.operationId))
      finalizeReclaim i) (fun _ t => Standing id base A (G ++ [lock.record i]) none none t) s := by
  have hresume (t : Store) (hlock : LocksGrant i { lock with applied := true } t)
      (ht : Standing id base A (G ++ [lock.record i]) none (some i) t) :
      Resumable id price quantity base t := .grant own.mark ⟨hlock, .inr ⟨rfl, ht⟩⟩
  have hclear (t : Store) (hlock : LocksGrant i { lock with applied := true } t)
      (ht : Standing id base A (G ++ [lock.record i]) none (some i) t) :
      Settling digest provider id price quantity base (do
        let _ ← perform (.updateGrant i (.clearSettlement lock.operationId))
        finalizeReclaim i) (fun _ u => Standing id base A (G ++ [lock.record i]) none none u) t := by
    refine Resumable.step (hresume t hlock ht) fun env => ?_
    have hcleared := ht.clearGrant hlock rfl env.now
    exact ⟨.free own.after hcleared, hcleared.sparing own.after finalizeReclaim_sparing⟩
  have hrest (t : Store) (hlock : LocksGrant i { lock with applied := true } t)
      (ht : Standing id base A (G ++ [lock.record i]) none (some i) t) :
      Settling digest provider id price quantity base (do
        if 0 < lock.consume.pico then
          journalGrantConsumption i lock
        let _ ← perform (.updateGrant i (.clearSettlement lock.operationId))
        finalizeReclaim i) (fun _ u => Standing id base A (G ++ [lock.record i]) none none u) t := by
    dsimp only
    split
    · have hjournal := Only.yields (M := machine digest provider)
        (R := fun u => Standing id base A (G ++ [lock.record i]) none (some i) u ∧
          LocksGrant i { lock with applied := true } u)
        (fun o env u ho hu => ⟨reading_standing o env u ho hu.1, by
          obtain ⟨-, -, hgrants⟩ := @reading_same digest _ o env u ho
          change LocksGrant i { lock with applied := true } (exec digest 0 env o u).2
          unfold LocksGrant
          rw [hgrants]
          exact hu.2⟩)
        (journalGrantConsumption_sparing i lock) ⟨ht, hlock⟩
      exact Yields.bind (Yields.mono (fun _ u hu => hclear u hu.2 hu.1)
        (fun e u hu => ⟨hu.1, hresume u hu.2.2 hu.2.1⟩) hjournal)
    · exact hclear t hlock ht
  obtain ⟨hlock, hstanding⟩ := holds
  refine Resumable.step (.grant own.mark ⟨hlock, hstanding⟩) fun env => ?_
  rw [own.row]
  rcases hstanding with h | ⟨-, h⟩
  · have hrecorded := h.recordGrant (a := lock.record i) own.fresh 0 env.now
    have hsame := updateRow_benefits s 0 env.now id (.recordGrant (lock.record i))
    have hheld : LocksGrant i { lock with applied := true }
        (s.updateRow 0 env.now id (.recordGrant (lock.record i))).2 := by
      unfold LocksGrant
      rw [hsame.2]
      exact hlock
    exact ⟨hresume _ hheld hrecorded, hrest _ hheld hrecorded⟩
  · have hagain := h.recordGrant_again 0 env.now
    have hafter : (exec digest 0 env (.updateRow id (.recordGrant (lock.record i))) s).2 = s := hagain
    rw [hafter]
    exact ⟨hresume s hlock h, hrest s hlock h⟩

theorem completeOwnGrant {i : Id} {lock : CreditGrantSettlementLock}
    (own : OwnGrant id price quantity base A G i lock) (holds : HoldsGrant id base A G i lock s) :
    Settling digest provider id price quantity base (completeGrantLock i lock)
      (fun _ t => Standing id base A (G ++ [lock.record i]) none none t) s := by
  unfold completeGrantLock
  dsimp only
  split
  · rename_i hunapplied
    have happlied : lock.applied = false := by simpa using hunapplied
    obtain ⟨hlock, h⟩ := holds
    rcases h with h | ⟨hmarked, -⟩
    · refine Resumable.step (.grant own ⟨hlock, .inl h⟩) fun env => ?_
      have hheld : HoldsGrant id base A G i { lock with applied := true }
          (s.updateGrant env.now i (.applySettlement lock)).2 :=
        ⟨hlock.apply happlied env.now, .inl (h.updateGrant env.now i (.applySettlement lock))⟩
      exact ⟨.grant own.mark hheld, finishOwnGrant own hheld⟩
    · rw [happlied] at hmarked
      cases hmarked
  · rename_i happlied
    have hsame : lock = { lock with applied := true } := by
      cases lock
      simpa using happlied
    exact finishOwnGrant own (hsame ▸ holds)

end NyxId.Billing
