import NyxId.Billing.WindowLocks

/-!
One benefit settled for the row: other locks on it are finished first, and then it is drawn or left as it
was. A further attempt finds what earlier ones left.
-/

namespace NyxId.Billing

open Interleave Machine

variable {digest : LagoCarry.Digest} {provider : Provider} {id : Id} {price : Credits}
variable {estimate quantity : ℤ} {base row : UsageMeterRow} {A : List AllowanceConsumptionAllocation}
variable {G : List GrantConsumptionAllocation} {p g : Option Id} {s t : Store} {α : Type}

/-! ### Resources -/

/-- The attempt to lock a period for an operation that the row does not have yet. -/
theorem lockAllowance_cases (h : Standing id base A G none none s) (now : Time) (claim : Option ClaimId)
    (release honor : Bool) (i : Id) (lock : AllowanceSettlementLock)
    (hnew : ∀ b ∈ A, b.operationId ≠ lock.operationId) :
    (∃ e, s.lockAllowance now id claim release i lock honor = (.error e, s) ∧ Other e) ∨
      s.lockAllowance now id claim release i lock honor = (.ok (false, false), s) ∨
      ∃ t, s.lockAllowance now id claim release i lock honor = (.ok (false, true), t) ∧
        Standing id base A G (some i) none t ∧ LocksPeriod i lock t := by
  obtain ⟨row, hrow, hfrozen⟩ := h.row
  have hfree : ¬ hasAllowanceOperation row lock.operationId = true := by
    unfold hasAllowanceOperation
    rw [hfrozen.consumptions.1]
    simpa using hnew
  unfold Store.lockAllowance
  rw [hrow]
  dsimp only
  rw [if_neg hfree]
  split
  · exact .inl ⟨_, rfl, other_internal _⟩
  · split
    · split
      · refine .inr (.inr ⟨_, rfl, ⟨⟨row, hrow, hfrozen⟩, fun j found other hj hfound hother => ?_,
          h.unlocked.grants⟩, _, AList.lookup_insert _, rfl⟩)
        rcases Collection.lookup_insert_cases hfound with ⟨rfl, -⟩ | ⟨-, hfound⟩
        · exact absurd rfl hj
        · exact h.unlocked.periods j found other nofun hfound hother
      · exact .inr (.inl rfl)
    · exact .inr (.inl rfl)

theorem lockGrant_cases (h : Standing id base A G none none s) (now : Time) (claim : Option ClaimId)
    (release honor : Bool) (i : Id) (lock : CreditGrantSettlementLock)
    (hnew : ∀ b ∈ G, b.operationId ≠ lock.operationId) :
    (∃ e, s.lockGrant now id claim release i lock honor = (.error e, s) ∧ Other e) ∨
      s.lockGrant now id claim release i lock honor = (.ok (false, false), s) ∨
      ∃ t, s.lockGrant now id claim release i lock honor = (.ok (false, true), t) ∧
        Standing id base A G none (some i) t ∧ LocksGrant i lock t := by
  obtain ⟨row, hrow, hfrozen⟩ := h.row
  have hfree : ¬ hasGrantOperation row lock.operationId = true := by
    unfold hasGrantOperation
    rw [hfrozen.consumptions.2]
    simpa using hnew
  unfold Store.lockGrant
  rw [hrow]
  dsimp only
  rw [if_neg hfree]
  split
  · exact .inl ⟨_, rfl, other_internal _⟩
  · split
    · split
      · refine .inr (.inr ⟨_, rfl, ⟨⟨row, hrow, hfrozen⟩, h.unlocked.periods,
          fun j found other hj hfound hother => ?_⟩, _, AList.lookup_insert _, rfl⟩)
        rcases Collection.lookup_insert_cases hfound with ⟨rfl, -⟩ | ⟨-, hfound⟩
        · exact absurd rfl hj
        · exact h.unlocked.grants j found other nofun hfound hother
      · exact .inr (.inl rfl)
    · exact .inr (.inl rfl)

theorem other_reconciliation (text : String)
    (htext : text ≠ "Machine settlement exceeds its funded wallet window") :
    Other (.billingProviderUnavailable text) := by
  intro hsame
  cases hsame
  exact htext rfl

variable (id base A G) in
/-- One more allowance drawn, or none. -/
def DrewAllowance (i : Id) (lock : AllowanceSettlementLock) (drew : Bool) (t : Store) : Prop :=
  if drew then ∃ allowance, Standing id base (A ++ [lock.record i allowance]) G none none t
  else Standing id base A G none none t

theorem helpAllowance_yields {q : AllowanceRequest} {lock : AllowanceSettlementLock}
    {period : UsageAllowancePeriod} {active : AllowanceSettlementLock} {retry : Code Bool}
    (hop : q.operationId.row = id) (h : Standing id base A G none none s)
    (hsplit : Split id price quantity base A G)
    (hactive : Foreign id active.usageRowId active.operationId)
    (hretry : ∀ t, Standing id base A G none none t → Settling digest provider id price quantity base
      retry (DrewAllowance id base A G q.periodId lock) t) :
    Settling digest provider id price quantity base (helpAllowance q period active retry)
      (DrewAllowance id base A G q.periodId lock) s := by
  have hother : active.operationId ≠ q.operationId := fun hsame => hactive.2 (hsame ▸ hop)
  refine Yields.seq (h.sparing hsplit (completeAllowanceLock_sparing hactive.1)) fun _ t ht => ?_
  rw [if_neg hother]
  exact hretry t ht

theorem settleAllowance_yields {q : AllowanceRequest} (hrow : q.rowId = id)
    (hop : q.operationId.row = id) (hhonor : q.honorReservation = true)
    (own : OwnAllowance id price quantity base A G q.periodId (q.lock q.consumeQuantity)) (n : ℕ)
    (h : Standing id base A G none none s) :
    Settling digest provider id price quantity base (settleAllowanceResource q n)
      (DrewAllowance id base A G q.periodId (q.lock q.consumeQuantity)) s := by
  have hsplit := own.before
  induction n generalizing s with
  | zero => exact ⟨other_internal _, .free hsplit h⟩
  | succ n ih =>
    have hresume : Resumable id price quantity base s := .free hsplit h
    unfold settleAllowanceResource
    refine Resumable.step hresume fun env => ⟨hresume, ?_⟩
    dsimp only [exec]
    cases hperiod : s.periods.lookup q.periodId with
    | none => exact h
    | some period =>
      dsimp only
      cases hactive : period.activeSettlement with
      | some active =>
        exact helpAllowance_yields hop h hsplit
          (h.unlocked.periods _ period active nofun hperiod hactive) fun t ht => ih ht
      | none =>
        refine Resumable.step hresume fun env' => ⟨hresume, ?_⟩
        dsimp only [exec]
        simp only [hhonor, not_true_eq_false, false_and, if_true, if_false]
        refine Yields.bind (Resumable.step hresume fun env'' => ?_)
        dsimp only [exec]
        rw [hrow]
        rcases lockAllowance_cases h env''.now q.claim
          (decide (q.operationId.kind = .allowanceRelease)) true q.periodId (q.lock q.consumeQuantity)
          own.fresh with ⟨e, hlock, hother⟩ | hlock | ⟨t, hlock, ht, hheld⟩
        · rw [hlock]
          exact ⟨hresume, hother, hresume⟩
        · rw [hlock]
          refine ⟨hresume, ?_⟩
          dsimp only
          refine Resumable.step hresume fun env3 => ⟨hresume, ?_⟩
          dsimp only [exec]
          rw [hperiod]
          dsimp only
          rw [hactive]
          exact ih h
        · rw [hlock]
          refine ⟨.allowance own ⟨hheld, .inl ht⟩, ?_⟩
          dsimp only
          exact Yields.seq (completeOwnAllowance own ⟨hheld, .inl ht⟩) fun _ u hu => hu

variable (id base A G) in
/-- One more grant drawn, or none. -/
def DrewGrant (i : Id) (lock : CreditGrantSettlementLock) (drew : Bool) (t : Store) : Prop :=
  if drew then Standing id base A (G ++ [lock.record i]) none none t
  else Standing id base A G none none t

theorem helpGrant_yields {q : GrantRequest} {lock : CreditGrantSettlementLock}
    {active : CreditGrantSettlementLock} {retry : Code Bool}
    (hop : q.operationId.row = id) (h : Standing id base A G none none s)
    (hsplit : Split id price quantity base A G)
    (hactive : Foreign id active.usageRowId active.operationId)
    (hretry : ∀ t, Standing id base A G none none t → Settling digest provider id price quantity base
      retry (DrewGrant id base A G q.grantId lock) t) :
    Settling digest provider id price quantity base (helpGrant q active retry)
      (DrewGrant id base A G q.grantId lock) s := by
  have hother : active.operationId ≠ q.operationId := fun hsame => hactive.2 (hsame ▸ hop)
  refine Yields.seq (h.sparing hsplit (completeGrantLock_sparing hactive.1)) fun _ t ht => ?_
  rw [if_neg hother]
  exact hretry t ht

theorem checkRule_cases (q : GrantRequest) (grant : CreditGrant) :
    q.checkRule grant = .ok () ∨ ∃ text, q.checkRule grant = .error (.internal text) := by
  unfold GrantRequest.checkRule
  split
  · split
    · exact .inl rfl
    · exact .inr ⟨_, rfl⟩
  · split
    · exact .inr ⟨_, rfl⟩
    · exact .inl rfl

/-- Arithmetic that succeeds is passed through. -/
theorem Yields.checked {β : Type} {x : β} {f : β → Code α} {Q : α → Store → Prop}
    {E : AppError → Store → Prop} (h : Yields (M := machine digest provider) (f x) Q E s) :
    Yields (M := machine digest provider) ((Billing.checked (.ok x)).bind f) Q E s := h

theorem settleGrant_yields {q : GrantRequest} (hrow : q.rowId = id) (hop : q.operationId.row = id)
    (hhonor : q.honorReservation = true)
    (own : OwnGrant id price quantity base A G q.grantId (q.lock q.consume)) (n : ℕ)
    (h : Standing id base A G none none s) :
    Settling digest provider id price quantity base (settleGrantResource q n)
      (DrewGrant id base A G q.grantId (q.lock q.consume)) s := by
  have hsplit := own.before
  induction n generalizing s with
  | zero => exact ⟨other_internal _, .free hsplit h⟩
  | succ n ih =>
    have hresume : Resumable id price quantity base s := .free hsplit h
    have hconsume (grant : CreditGrant) : q.consumeFrom grant = .ok q.consume := by
      unfold GrantRequest.consumeFrom
      rw [if_pos hhonor]
    unfold settleGrantResource
    refine Resumable.step hresume fun env => ⟨hresume, ?_⟩
    dsimp only [exec]
    cases hgrant : s.grants.lookup q.grantId with
    | none => exact h
    | some grant =>
      dsimp only
      cases hactive : grant.activeSettlement with
      | some active =>
        exact helpGrant_yields hop h hsplit
          (h.unlocked.grants _ grant active nofun hgrant hactive) fun t ht => ih ht
      | none =>
        refine Resumable.step hresume fun env' => ⟨hresume, ?_⟩
        dsimp only [exec]
        simp only [hhonor, not_true_eq_false, false_and, if_false, hconsume]
        split
        · exact h
        · rcases checkRule_cases q grant with hrule | ⟨text, hrule⟩
          · rw [hrule]
            refine Yields.checked (Yields.checked (Yields.bind (Resumable.step hresume fun env'' => ?_)))
            dsimp only [exec]
            rw [hrow]
            rcases lockGrant_cases h env''.now q.claim
              (decide (q.operationId.kind = .grantRelease)) true q.grantId (q.lock q.consume) own.fresh
              with ⟨e, hlock, hother⟩ | hlock | ⟨t, hlock, ht, hheld⟩
            · rw [hlock]
              exact ⟨hresume, hother, hresume⟩
            · rw [hlock]
              refine ⟨hresume, ?_⟩
              dsimp only
              refine Resumable.step hresume fun env3 => ⟨hresume, ?_⟩
              dsimp only [exec]
              rw [hgrant]
              dsimp only
              rw [hactive]
              exact ih h
            · rw [hlock]
              refine ⟨.grant own ⟨hheld, .inl ht⟩, ?_⟩
              dsimp only
              exact Yields.seq (completeOwnGrant own ⟨hheld, .inl ht⟩) fun _ u hu => hu
          · rw [hrule]
            exact Yields.checked ⟨other_internal _, hresume⟩

/-! ### What a further attempt finds -/

/-- An operation on record has no lock left, so there is nothing to finish. -/
theorem finishAllowanceOperation_yields {i : Id} {op : OperationId} (hop : op.row = id)
    (hsplit : Split id price quantity base A G) (h : Standing id base A G none none s) :
    Settling digest provider id price quantity base (finishAllowanceOperationIfLocked i op)
      (fun _ t => Standing id base A G none none t) s := by
  have hresume : Resumable id price quantity base s := .free hsplit h
  refine Resumable.step hresume fun env => ⟨hresume, ?_⟩
  dsimp only [exec]
  cases hperiod : s.periods.lookup i with
  | none => exact h
  | some period =>
    dsimp only
    cases hactive : period.activeSettlement with
    | none => exact h
    | some lock =>
      have hforeign := h.unlocked.periods i period lock nofun hperiod hactive
      dsimp only
      have hother : ¬ lock.operationId = op := fun hsame => hforeign.2 (hsame ▸ hop)
      rw [if_neg hother]
      exact h

theorem finishGrantOperation_yields {i : Id} {op : OperationId} (hop : op.row = id)
    (hsplit : Split id price quantity base A G) (h : Standing id base A G none none s) :
    Settling digest provider id price quantity base (finishGrantOperationIfLocked i op)
      (fun _ t => Standing id base A G none none t) s := by
  have hresume : Resumable id price quantity base s := .free hsplit h
  refine Resumable.step hresume fun env => ⟨hresume, ?_⟩
  dsimp only [exec]
  cases hgrant : s.grants.lookup i with
  | none => exact h
  | some grant =>
    dsimp only
    cases hactive : grant.activeSettlement with
    | none => exact h
    | some lock =>
      have hforeign := h.unlocked.grants i grant lock nofun hgrant hactive
      dsimp only
      have hother : ¬ lock.operationId = op := fun hsame => hforeign.2 (hsame ▸ hop)
      rw [if_neg hother]
      exact h

theorem lockNames_row {Lock : Type} {usageRowId : Lock → Id} {lock : Option Lock}
    (h : lockNames usageRowId (some id) lock = true) : ∃ l, lock = some l ∧ usageRowId l = id := by
  obtain ⟨l, hlock, hrow⟩ := (Option.any_eq_true _ _).mp h
  exact ⟨l, hlock, (by simpa using hrow : id = usageRowId l).symm⟩

theorem lockedPeriods_nil (h : Unlocked id none g s) : s.lockedPeriods (some id) = [] := by
  refine List.filter_eq_nil_iff.mpr fun entry hentry hnames => ?_
  obtain ⟨e, he, rfl⟩ := List.mem_map.mp hentry
  obtain ⟨lock, hlock, hrow⟩ := lockNames_row hnames
  exact (h.periods e.1 e.2 lock nofun (AList.mem_lookup_iff.mpr he) hlock).1 hrow

theorem lockedGrants_nil (h : Unlocked id p none s) : s.lockedGrants (some id) = [] := by
  refine List.filter_eq_nil_iff.mpr fun entry hentry hnames => ?_
  obtain ⟨e, he, rfl⟩ := List.mem_map.mp hentry
  obtain ⟨lock, hlock, hrow⟩ := lockNames_row hnames
  exact (h.grants e.1 e.2 lock nofun (AList.mem_lookup_iff.mpr he) hlock).1 hrow

/-- The one document that a query over a collection finds. -/
theorem filter_entries_singleton {V : Type} {docs : Collection Id V} {keep : Id × V → Bool} {i : Id}
    {v : V} (hfound : docs.lookup i = some v) (hkeep : keep (i, v) = true)
    (honly : ∀ j w, docs.lookup j = some w → keep (j, w) = true → j = i) :
    (docs.entries.map fun e => (e.1, e.2)).filter keep = [(i, v)] := by
  have hkeys : ((docs.entries.map fun e => (e.1, e.2)).map Prod.fst).Nodup := by
    rw [List.map_map]
    exact docs.nodupKeys
  have hnodup := ((List.Nodup.of_map _ hkeys).filter keep)
  refine List.perm_singleton.mp ((List.perm_ext_iff_of_nodup hnodup (List.nodup_singleton _)).mpr
    fun entry => ?_)
  rw [List.mem_filter, List.mem_singleton]
  constructor
  · rintro ⟨hentry, hnames⟩
    obtain ⟨e, he, rfl⟩ := List.mem_map.mp hentry
    have hlookup : docs.lookup e.1 = some e.2 := AList.mem_lookup_iff.mpr he
    have hsame := honly e.1 e.2 hlookup hnames
    rw [hsame, hfound, Option.some.injEq] at hlookup
    rw [hsame, hlookup]
  · rintro rfl
    exact ⟨List.mem_map.mpr ⟨⟨i, v⟩, AList.mem_lookup_iff.mp hfound, rfl⟩, hkeep⟩

/-- Whatever an attempt left locked is finished before the next one goes on. -/
theorem finishResourceLocks_yields (h : Resumable id price quantity base s)
    (hopen : ∀ row, s.rows.lookup id = some row → ¬ row.settled = true) :
    Settling digest provider id price quantity base (finishResourceLocks (some id))
      (fun _ t => ∃ A G, Split id price quantity base A G ∧ Standing id base A G none none t) s := by
  have hgrants (A : List AllowanceConsumptionAllocation) (G : List GrantConsumptionAllocation)
      (hsplit : Split id price quantity base A G) (t : Store) (ht : Standing id base A G none none t) :
      Settling digest provider id price quantity base (do
        completeGrantLocks (← perform (.lockedGrants (some id))))
        (fun _ u => ∃ A G, Split id price quantity base A G ∧ Standing id base A G none none u) t := by
    have hresume : Resumable id price quantity base t := .free hsplit ht
    refine Resumable.step hresume fun env => ⟨hresume, ?_⟩
    dsimp only [exec]
    rw [lockedGrants_nil ht.unlocked]
    exact ⟨A, G, hsplit, ht⟩
  unfold finishResourceLocks
  refine Resumable.step h fun env => ⟨h, ?_⟩
  dsimp only [exec]
  cases h with
  | free split standing =>
    rw [lockedPeriods_nil standing.unlocked]
    exact hgrants _ _ split _ standing
  | allowance own holds =>
    rename_i A G i lock
    obtain ⟨⟨period, hperiod, hactive⟩, hstanding⟩ := holds
    have hunlocked : Unlocked id (some i) none s := by
      rcases hstanding with hs | ⟨-, _, hs⟩
      · exact hs.unlocked
      · exact hs.unlocked
    have hnamed : s.lockedPeriods (some id) = [(i, period)] := by
      refine filter_entries_singleton hperiod ?_ fun j found hfound hnames => ?_
      · unfold lockNames
        rw [hactive]
        simp [own.row]
      · by_contra hother
        obtain ⟨l, hlock, hrow⟩ := lockNames_row hnames
        exact (hunlocked.periods j found l (fun hsame => hother (Option.some.inj hsame)) hfound
          hlock).1 hrow
    rw [hnamed]
    unfold completeAllowanceLocks
    dsimp only
    rw [hactive]
    refine Yields.bind (Yields.seq (completeOwnAllowance own ⟨⟨period, hperiod, hactive⟩, hstanding⟩)
      fun _ t ht => ?_)
    obtain ⟨allowance, ht⟩ := ht
    exact hgrants _ _ (own.after allowance) t ht
  | grant own holds =>
    rename_i A G i lock
    obtain ⟨⟨grant, hgrant, hactive⟩, hstanding⟩ := holds
    have hunlocked : Unlocked id none (some i) s := by
      rcases hstanding with hs | ⟨-, hs⟩
      · exact hs.unlocked
      · exact hs.unlocked
    have hnamed : s.lockedGrants (some id) = [(i, grant)] := by
      refine filter_entries_singleton hgrant ?_ fun j found hfound hnames => ?_
      · unfold lockNames
        rw [hactive]
        simp [own.row]
      · by_contra hother
        obtain ⟨l, hlock, hrow⟩ := lockNames_row hnames
        exact (hunlocked.grants j found l (fun hsame => hother (Option.some.inj hsame)) hfound
          hlock).1 hrow
    have hresume : Resumable id price quantity base s :=
      .grant own ⟨⟨grant, hgrant, hactive⟩, hstanding⟩
    rw [lockedPeriods_nil hunlocked]
    refine Resumable.step hresume fun env' => ⟨hresume, ?_⟩
    dsimp only [exec]
    rw [hnamed]
    unfold completeGrantLocks
    dsimp only
    rw [hactive]
    refine Yields.seq (completeOwnGrant own ⟨⟨grant, hgrant, hactive⟩, hstanding⟩) fun _ t ht => ?_
    exact ⟨A, G ++ [lock.record i], own.after, ht⟩
  | settled found settled _ _ _ => exact absurd settled (hopen _ found)

theorem locksPeriod_inj {i : Id} {lock other : AllowanceSettlementLock} (h : LocksPeriod i lock s)
    (h' : LocksPeriod i other s) : lock = other := by
  obtain ⟨period, hperiod, hactive⟩ := h
  obtain ⟨period', hperiod', hactive'⟩ := h'
  rw [hperiod, Option.some.injEq] at hperiod'
  rw [← hperiod', hactive, Option.some.injEq] at hactive'
  exact hactive'

theorem locksGrant_inj {i : Id} {lock other : CreditGrantSettlementLock} (h : LocksGrant i lock s)
    (h' : LocksGrant i other s) : lock = other := by
  obtain ⟨grant, hgrant, hactive⟩ := h
  obtain ⟨grant', hgrant', hactive'⟩ := h'
  rw [hgrant, Option.some.injEq] at hgrant'
  rw [← hgrant', hactive, Option.some.injEq] at hactive'
  exact hactive'

/-- Another row's settlement, or a sweep, may finish a lock of this row. -/
theorem Resumable.helpAllowance {i allowance : Id} {lock : AllowanceSettlementLock}
    (h : Resumable id price quantity base s) (hlock : LocksPeriod i lock s) (hrow : lock.usageRowId = id) :
    Settling digest provider id price quantity base (completeAllowanceLock i allowance lock)
      (fun _ t => Resumable id price quantity base t) s := by
  have hfree {g : Option Id} (hunlocked : Unlocked id none g s) : False := by
    obtain ⟨period, hperiod, hactive⟩ := hlock
    exact (hunlocked.periods i period lock nofun hperiod hactive).1 hrow
  cases h with
  | free split standing => exact (hfree standing.unlocked).elim
  | allowance own holds =>
    rename_i A G j held
    have hunlocked : Unlocked id (some j) none s := by
      rcases holds.2 with hs | ⟨-, _, hs⟩
      · exact hs.unlocked
      · exact hs.unlocked
    have hsame : i = j := by
      by_contra hother
      obtain ⟨period, hperiod, hactive⟩ := hlock
      exact (hunlocked.periods i period lock (fun hsome => hother (Option.some.inj hsome)) hperiod
        hactive).1 hrow
    subst hsame
    obtain rfl := locksPeriod_inj hlock holds.1
    refine Yields.mono (fun _ t ht => ?_) (fun _ _ ht => ht) (completeOwnAllowance own holds)
    obtain ⟨recorded, ht⟩ := ht
    exact .free (own.after recorded) ht
  | grant own holds =>
    rcases holds.2 with hs | ⟨-, hs⟩
    · exact (hfree hs.unlocked).elim
    · exact (hfree hs.unlocked).elim
  | settled _ _ _ _ unlocked => exact (hfree unlocked).elim

theorem Resumable.helpGrant {i : Id} {lock : CreditGrantSettlementLock}
    (h : Resumable id price quantity base s) (hlock : LocksGrant i lock s) (hrow : lock.usageRowId = id) :
    Settling digest provider id price quantity base (completeGrantLock i lock)
      (fun _ t => Resumable id price quantity base t) s := by
  have hfree {p : Option Id} (hunlocked : Unlocked id p none s) : False := by
    obtain ⟨grant, hgrant, hactive⟩ := hlock
    exact (hunlocked.grants i grant lock nofun hgrant hactive).1 hrow
  cases h with
  | free split standing => exact (hfree standing.unlocked).elim
  | allowance own holds =>
    rcases holds.2 with hs | ⟨-, _, hs⟩
    · exact (hfree hs.unlocked).elim
    · exact (hfree hs.unlocked).elim
  | grant own holds =>
    rename_i A G j held
    have hunlocked : Unlocked id none (some j) s := by
      rcases holds.2 with hs | ⟨-, hs⟩
      · exact hs.unlocked
      · exact hs.unlocked
    have hsame : i = j := by
      by_contra hother
      obtain ⟨grant, hgrant, hactive⟩ := hlock
      exact (hunlocked.grants i grant lock (fun hsome => hother (Option.some.inj hsome)) hgrant
        hactive).1 hrow
    subst hsame
    obtain rfl := locksGrant_inj hlock holds.1
    exact Yields.mono (fun _ t ht => .free own.after ht) (fun _ _ ht => ht) (completeOwnGrant own holds)
  | settled _ _ _ _ unlocked => exact (hfree unlocked).elim

end NyxId.Billing
