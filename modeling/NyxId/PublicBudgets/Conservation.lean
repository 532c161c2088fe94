import NyxId.PublicBudgets.Postings

/-!
Conservation of the budgets over every run, and when the hold of a loop covers its calls.
-/

namespace NyxId.PublicBudgets

open Interleave Collection

variable {s t : Store} {id cid : String}

/-- How an operation changes a call: it is charged its maximum once, or its cost, and only then. -/
inductive CallStep (op : Op) (cid : String) (call call' : PublicCallReservation) : Prop where
  | same (h : call' = call)
  | uncharged (hbefore : call.state.Active) (hconservative : call'.state ≠ .conservative)
      (hsettled : call'.state ≠ .settled) (hcharge : call'.capCharge = call.capCharge)
      (hdispatched : call.state = .dispatchAdmitted → call'.state = .dispatchAdmitted)
  | conservative (hbefore : call.state = .dispatchAdmitted) (hafter : call'.state = .conservative)
      (hcharge : call'.capCharge = call.maximum)
  | settled {cost now : ℤ} (hbefore : call.Postable) (hafter : call'.state = .settled)
      (hop : op = .reconcile cid (some cost) now) (hcharge : call'.capCharge = cost)

/-- Every call of a store is still there, changed by a step. -/
def CallsStep (op : Op) (s t : Store) : Prop :=
  ∀ cid call, s.calls.lookup cid = some call →
    ∃ call', t.calls.lookup cid = some call' ∧ CallStep op cid call call'

theorem callsStep_same {op : Op} (h : t.calls = s.calls) : CallsStep op s t := by
  intro cid call hcall
  exact ⟨call, h ▸ hcall, .same rfl⟩

theorem callsStep_insert {op : Op} {call' : PublicCallReservation}
    (h : t.calls = s.calls.insert cid call')
    (hstep : ∀ call, s.calls.lookup cid = some call → CallStep op cid call call') :
    CallsStep op s t := by
  intro other call hcall
  by_cases hother : other = cid
  · subst hother
    exact ⟨call', by rw [h, AList.lookup_insert], hstep call hcall⟩
  · exact ⟨call, by rw [h, AList.lookup_insert_ne hother]; exact hcall, .same rfl⟩

theorem callsStep_restate {op : Op} {before : List PublicCallState}
    {after : PublicCallReservation → PublicCallReservation}
    (hbefore : ∀ state ∈ before, state.Active ∧ state ≠ .dispatchAdmitted)
    (hafter : ∀ call, (after call).state = .cancelling ∧ (after call).capCharge = call.capCharge) :
    CallsStep op s (s.restate cid before after) := by
  unfold Store.restate
  split
  · rename_i call hcall
    split
    · rename_i hstate
      refine callsStep_insert rfl fun old hold => ?_
      obtain rfl := Option.some.inj (hold.symm.trans hcall)
      obtain ⟨hactive, hundispatched⟩ := hbefore _ hstate
      obtain ⟨hcancelling, hcharge⟩ := hafter old
      exact .uncharged hactive (hcancelling ▸ nofun) (hcancelling ▸ nofun) hcharge
        fun h => absurd h hundispatched
    · exact callsStep_same rfl
  · exact callsStep_same rfl

theorem cancellable {state : PublicCallState} (h : state ∈ [PublicCallState.prepared, .funded]) :
    state.Active ∧ state ≠ .dispatchAdmitted := by
  refine ⟨cancellable_active h, ?_⟩
  rintro rfl
  simp at h

theorem callsStep_apply {op : Op} (h : apply op s = .ok t) : CallsStep op s t := by
  cases op with
  | reserve r =>
    rcases reserveLoop_ok h with ⟨rfl, -⟩ | hreserved
    · exact callsStep_same rfl
    · exact callsStep_same hreserved.calls
  | prepare publicSessionId turnId loopId fenced quote now =>
    rcases prepareCall_ok h with rfl | ⟨hfenced, row, call, hprepared⟩
    · exact callsStep_same rfl
    · rw [hprepared.after]
      refine callsStep_insert rfl fun old hold => ?_
      rw [hprepared.fresh] at hold
      cases hold
  | fund cid admitted now =>
    change fundCall cid admitted now s = _ at h
    unfold fundCall at h
    split at h
    · rename_i call hcall
      split at h
      · rename_i hfunds
        obtain rfl := Except.ok.inj h
        refine callsStep_insert rfl fun old hold => ?_
        obtain rfl := Option.some.inj (hold.symm.trans hcall)
        refine .uncharged (Or.inl hfunds.2.1) nofun nofun rfl fun hstate => ?_
        rw [hfunds.2.1] at hstate
        cases hstate
      · cases h
    · cases h
  | cancel cid now =>
    obtain rfl := Except.ok.inj h
    exact callsStep_restate (fun _ hmem => cancellable hmem) fun _ => ⟨rfl, rfl⟩
  | expire cid =>
    obtain rfl := Except.ok.inj h
    exact callsStep_restate (fun _ hmem => cancellable hmem) fun _ => ⟨rfl, rfl⟩
  | dispatch cid publicSessionId turnId admitted now =>
    change admitDispatch cid publicSessionId turnId admitted now s = _ at h
    unfold admitDispatch at h
    split at h
    · cases h
    rename_i call hcall
    split at h
    · cases h
    split at h
    · rename_i hadmits
      obtain rfl := Except.ok.inj h
      refine callsStep_insert rfl fun old hold => ?_
      obtain rfl := Option.some.inj (hold.symm.trans hcall)
      exact .uncharged (Or.inr (Or.inl hadmits.1)) nofun nofun rfl fun _ => rfl
    · cases h
  | reconcile cid actual now =>
    cases reconcile_ok h with
    | same h => exact h ▸ callsStep_same rfl
    | @release row call hcall h =>
      rw [h.after]
      refine callsStep_insert rfl fun old hold => ?_
      obtain rfl := Option.some.inj (hold.symm.trans hcall)
      refine .uncharged (Or.inr (Or.inr (Or.inr h.state))) nofun nofun rfl fun hstate => ?_
      rw [h.state] at hstate
      cases hstate
    | @conservative row call hcall hstate h =>
      refine callsStep_insert h.calls fun old hold => ?_
      obtain rfl := Option.some.inj (hold.symm.trans hcall)
      exact .conservative hstate rfl rfl
    | @settle row call cost hcall hpostable hactual h =>
      refine callsStep_insert h.calls fun old hold => ?_
      obtain rfl := Option.some.inj (hold.symm.trans hcall)
      exact .settled hpostable rfl (congrArg (Op.reconcile cid · now) hactual) rfl
  | close id =>
    obtain rfl := Except.ok.inj h
    rcases closeLoop_cases id s with hsame | ⟨row, hcloses⟩
    · exact callsStep_same (congrArg Store.calls hsame)
    · exact callsStep_same (by rw [hcloses.after])

/-! ### Cover -/

/-- The hold of every open loop covers what is allocated to its calls. -/
def Covered (s : Store) : Prop :=
  ∀ id row, s.loops.lookup id = some row → row.closed = false → row.allocated ≤ row.held

/-- A call is prepared only within what its loop holds and has not allocated. -/
def PreparesWithin : Op → Store → Prop
  | .prepare publicSessionId turnId loopId fenced quote now, s =>
      fenced = true → s.calls.lookup quote.callId = none → ∀ row, s.loops.lookup loopId = some row →
        Prepares row quote publicSessionId turnId now → row.allocated + quote.maximum ≤ row.held
  | _, _ => True

theorem Covered.insert {row' : PublicBudgetLoop} (hs : Covered s)
    (hloops : t.loops = s.loops.insert id row')
    (hnew : row'.closed = false → row'.allocated ≤ row'.held) : Covered t := by
  intro other row hrow hopen
  rw [hloops] at hrow
  rcases lookup_insert_cases hrow with ⟨rfl, rfl⟩ | ⟨-, hold⟩
  · exact hnew hopen
  · exact hs other row hold hopen

theorem Covered.same (hs : Covered s) (hloops : t.loops = s.loops) : Covered t := by
  intro other row hrow
  exact hs other row (hloops ▸ hrow)

theorem Covered.posted {row : PublicBudgetLoop} {call : PublicCallReservation} {cost : ℤ}
    {finalCost : Bool} (hs : Covered s) (h : Posted s cid row call cost finalCost t) : Covered t := by
  refine hs.insert h.loops fun hopen => ?_
  have hcovered := hs _ row h.stored hopen
  have hmin : min cost call.maximum ≤ call.maximum := min_le_right _ _
  unfold PublicBudgetLoop.posted
  dsimp only
  split <;> omega

theorem restate_loops {before : List PublicCallState}
    {after : PublicCallReservation → PublicCallReservation} :
    (s.restate cid before after).loops = s.loops := by
  unfold Store.restate
  split
  · split <;> rfl
  · rfl

theorem Covered.apply {op : Op} (hbooks : Books s) (hs : Covered s) (hop : PreparesWithin op s)
    (h : apply op s = .ok t) : Covered t := by
  cases op with
  | reserve r =>
    rcases reserveLoop_ok h with ⟨rfl, -⟩ | hreserved
    · exact hs
    · exact hs.insert hreserved.loops fun _ => hreserved.nonneg
  | prepare publicSessionId turnId loopId fenced quote now =>
    rcases prepareCall_ok h with rfl | ⟨hfenced, row, call, hprepared⟩
    · exact hs
    · have hloops := congrArg Store.loops hprepared.after
      exact hs.insert hloops fun _ => hop hfenced hprepared.fresh row hprepared.stored hprepared.prepares
  | fund cid admitted now =>
    change fundCall cid admitted now s = _ at h
    unfold fundCall at h
    split at h
    · split at h
      · obtain rfl := Except.ok.inj h
        exact hs.same rfl
      · cases h
    · cases h
  | cancel cid now =>
    obtain rfl := Except.ok.inj h
    exact hs.same restate_loops
  | expire cid =>
    obtain rfl := Except.ok.inj h
    exact hs.same restate_loops
  | dispatch cid publicSessionId turnId admitted now =>
    change admitDispatch cid publicSessionId turnId admitted now s = _ at h
    unfold admitDispatch at h
    split at h
    · cases h
    split at h
    · cases h
    split at h
    · obtain rfl := Except.ok.inj h
      exact hs.same rfl
    · cases h
  | reconcile cid actual now =>
    cases reconcile_ok h with
    | same h => exact h ▸ hs
    | @release row call hcall h =>
      have hloops := congrArg Store.loops h.after
      refine hs.insert hloops fun hopen => ?_
      have hcovered := hs _ row h.stored hopen
      have hnonneg := (hbooks.charged cid call hcall).maximum
      unfold PublicBudgetLoop.freed
      dsimp only
      omega
    | conservative hcall hstate h => exact hs.posted h
    | settle hcall hpostable hactual h => exact hs.posted h
  | close id =>
    obtain rfl := Except.ok.inj h
    rcases closeLoop_cases id s with hsame | ⟨row, hcloses⟩
    · exact hs.same (congrArg Store.loops hsame)
    · exact hs.insert (congrArg Store.loops hcloses.after) fun hopen => nomatch hopen

/-! ### Runs -/

theorem lookup_none_of_empty {K V : Type} [DecidableEq K] {k : K} {v : V}
    (h : (∅ : Collection K V).lookup k = some v) : False := by
  rw [AList.lookup_empty] at h
  cases h

theorem books_empty : Books ⟨∅, ∅, ∅⟩ where
  held _ := by simp [Store.bucketAt, sumOf]
  spent _ := by simp [Store.bucketAt, sumOf]
  referenced _ _ _ hrow := (lookup_none_of_empty hrow).elim
  allocated _ _ hrow := (lookup_none_of_empty hrow).elim
  closed _ _ hrow := (lookup_none_of_empty hrow).elim
  known _ _ hcall := (lookup_none_of_empty hcall).elim
  charged _ _ hcall := (lookup_none_of_empty hcall).elim
  limited _ _ hrow := (lookup_none_of_empty hrow).elim

theorem books_of_reaches {C : Op → Store → Prop} (h : budgets.Reaches C s) : Books s := by
  refine Transactions.Reaches.invariant (T := budgets) (C := C) (P := Books) (fun s hs => ?_)
    (fun op s t hs _ happly => hs.apply happly) h
  obtain rfl : s = ⟨∅, ∅, ∅⟩ := hs
  exact books_empty

theorem covered_of_reaches (h : budgets.Reaches PreparesWithin s) : Covered s := by
  have hboth : Books s ∧ Covered s := by
    refine Transactions.Reaches.invariant (T := budgets) (C := PreparesWithin)
      (P := fun s => Books s ∧ Covered s) (fun s hs => ?_)
      (fun op s t hs hop happly => ⟨hs.1.apply happly, hs.2.apply hs.1 hop happly⟩) h
    obtain rfl : s = ⟨∅, ∅, ∅⟩ := hs
    exact ⟨books_empty, fun _ _ hrow => (lookup_none_of_empty hrow).elim⟩
  exact hboth.2

/-- What holds of the stored budgets after every run. -/
structure Conserved (s : Store) : Prop where
  held : ∀ scope bucket, s.buckets.lookup scope = some bucket →
    bucket.held = sumOf (openHold scope) s.loops
  spent : ∀ scope bucket, s.buckets.lookup scope = some bucket →
    bucket.spent = sumOf (chargeOn s.loops scope) s.calls
  allocated : ∀ id row, s.loops.lookup id = some row →
    row.allocated = sumOf (activeMaximum id) s.calls ∧ 0 ≤ row.allocated
  limited : ∀ id row, s.loops.lookup id = some row → row.Limited
  charged : ∀ cid call, s.calls.lookup cid = some call → call.Charged

theorem Books.conserved (hs : Books s) : Conserved s := by
  have hat {scope : Scope} {bucket : PublicBudgetBucket} (h : s.buckets.lookup scope = some bucket) :
      s.bucketAt scope = bucket := by
    unfold Store.bucketAt
    rw [h, Option.getD_some]
  refine ⟨fun scope bucket h => ?_, fun scope bucket h => ?_, fun id row hrow => ?_, hs.limited,
    hs.charged⟩
  · rw [← hs.held scope, hat h]
  · rw [← hs.spent scope, hat h]
  · refine ⟨hs.allocated id row hrow, ?_⟩
    rw [hs.allocated id row hrow]
    refine sumOf_nonneg _ _ fun cid call hcall => ?_
    unfold activeMaximum PublicCallReservation.activeAmount
    have hnonneg := (hs.charged cid call hcall).maximum
    split
    · split
      · exact hnonneg
      · exact le_refl _
    · exact le_refl _

/-- Budgets are conserved in every run; holds cover allocations while calls are prepared within. -/
theorem budgets_conserved (s : Store) :
    (budgets.Reaches (fun _ _ => True) s → Conserved s ∧
      ∀ op t, apply op s = .ok t → CallsStep op s t ∧
        ∀ r, op = .reserve r → s.loopOf r.publicSessionId r.turnId = none →
          (t.bucketAt (.total r.profileId r.day)).held +
            (t.bucketAt (.total r.profileId r.day)).spent ≤ r.totalDailyCredits ∧
          (t.bucketAt (.sender r.profileId r.actor r.day)).held +
            (t.bucketAt (.sender r.profileId r.actor r.day)).spent ≤ r.senderDailyCredits) ∧
    (budgets.Reaches PreparesWithin s → ∀ id row, s.loops.lookup id = some row →
      row.closed = false → 0 ≤ row.allocated ∧ row.allocated ≤ row.held) := by
  refine ⟨fun h => ?_, fun h id row hrow hopen => ?_⟩
  · have hs := books_of_reaches h
    refine ⟨hs.conserved, fun op t happly => ⟨callsStep_apply happly, ?_⟩⟩
    rintro r rfl hnone
    rcases reserveLoop_ok happly with ⟨-, hsome⟩ | hreserved
    · exact absurd hnone hsome
    · exact ⟨hreserved.total, hreserved.sender⟩
  · exact ⟨((books_of_reaches h).conserved.allocated id row hrow).2,
      covered_of_reaches h id row hrow hopen⟩

def sampleRequest : ReserveRequest where
  loopId := "L"
  publicSessionId := "p"
  turnId := "t"
  receiptId := "r"
  claimId := "c"
  profileId := "f"
  actor := "a"
  credentialApiKeyId := "k"
  policyDigest := "d"
  fenced := true
  maximum := 10
  maxCalls := 2
  maxModelCalls := 2
  maxContinuations := 0
  maxInputTokens := 10
  maxOutputTokens := 10
  expiresAt := 100
  day := 0
  dayEnd := 1000
  now := 1
  totalDailyCredits := 10
  senderDailyCredits := 10

def sampleQuote (callId : String) (maximum : ℕ) : CallQuote :=
  ⟨callId, "d", "k", 100, maximum, 1, 1, false, Int.natCast_nonneg _⟩

def samplePrepare (callId : String) (maximum : ℕ) (now : ℤ) : Op :=
  .prepare "p" "t" "L" true (sampleQuote callId maximum) now

theorem reaches_apply {C : Op → Store → Prop} (op : Op) (h : budgets.Reaches C s) (hop : C op s)
    (happly : apply op s = .ok t) : budgets.Reaches C t :=
  .commit op h hop happly

/-- A call of the whole hold is prepared in a new loop. -/
theorem sample_conserved : ∃ s t, apply (.reserve sampleRequest) ⟨∅, ∅, ∅⟩ = .ok s ∧
    apply (samplePrepare "A" 10 2) s = .ok t ∧ Conserved t ∧ ∀ id row, t.loops.lookup id = some row →
      row.closed = false → 0 ≤ row.allocated ∧ row.allocated ≤ row.held := by
  have hruns : ∃ s t, apply (.reserve sampleRequest) ⟨∅, ∅, ∅⟩ = .ok s ∧
      apply (samplePrepare "A" 10 2) s = .ok t := ⟨_, _, rfl, rfl⟩
  obtain ⟨s, t, hs, ht⟩ := hruns
  have hwithin : PreparesWithin (samplePrepare "A" 10 2) s := by
    intro _ _ row hrow _
    have hreserve : reserveLoop sampleRequest ⟨∅, ∅, ∅⟩ = .ok s := hs
    rcases reserveLoop_ok hreserve with ⟨-, hsome⟩ | hreserved
    · exact absurd rfl hsome
    · have hlookup : s.loops.lookup "L" = some sampleRequest.row := by
        rw [hreserved.loops]
        exact AList.lookup_insert _
      obtain rfl := Option.some.inj (hlookup.symm.trans hrow)
      decide
  have hstart {C : Op → Store → Prop} : budgets.Reaches C ⟨∅, ∅, ∅⟩ := .start rfl
  obtain ⟨hevery, hcovered⟩ := budgets_conserved t
  have hreached : budgets.Reaches (fun _ _ => True) t :=
    reaches_apply (samplePrepare "A" 10 2) (reaches_apply (.reserve sampleRequest) hstart trivial hs)
      trivial ht
  have hreachedWithin : budgets.Reaches PreparesWithin t :=
    reaches_apply (samplePrepare "A" 10 2) (reaches_apply (.reserve sampleRequest) hstart trivial hs)
      hwithin ht
  exact ⟨s, t, hs, ht, (hevery hreached).1, hcovered hreachedWithin⟩

/-- A conservative posting that is then lowered, and a call prepared with what it gave back. -/
def overdrawnOps : List Op := [
  .reserve sampleRequest, samplePrepare "A" 10 2, .fund "A" true 3, .dispatch "A" "p" "t" true 4,
  .reconcile "A" none 100, .reconcile "A" (some 1) 101, samplePrepare "B" 9 50]

/-- The open loop allocates nine credits and holds none. -/
theorem refund_overdraws_hold : ∃ s, budgets.Reaches (fun _ _ => True) s ∧
    ∃ row, s.loops.lookup "L" = some row ∧ row.closed = false ∧ row.held < row.allocated := by
  have hany : (Transactions.run (T := budgets) overdrawnOps ⟨∅, ∅, ∅⟩).toOption.any (fun s : Store =>
      (s.loops.lookup "L").any fun row => !row.closed && decide (row.held < row.allocated)) = true := by
    decide
  obtain ⟨s, hs, hrow⟩ := Option.any_eq_true _ _ |>.mp hany
  have hrun : Transactions.run (T := budgets) overdrawnOps ⟨∅, ∅, ∅⟩ = .ok s := by
    cases hresult : Transactions.run (T := budgets) overdrawnOps ⟨∅, ∅, ∅⟩ with
    | error e =>
      rw [hresult] at hs
      cases hs
    | ok found =>
      rw [hresult] at hs
      exact congrArg Except.ok (Option.some.inj hs)
  obtain ⟨row, hlookup, hstate⟩ := Option.any_eq_true _ _ |>.mp hrow
  rw [Bool.and_eq_true, Bool.not_eq_true', decide_eq_true_eq] at hstate
  exact ⟨s, Transactions.Reaches.run _ (fun _ _ _ => trivial) (.start rfl) hrun, row, hlookup,
    hstate.1, hstate.2⟩

end NyxId.PublicBudgets
