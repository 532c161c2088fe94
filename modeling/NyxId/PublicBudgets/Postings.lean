import NyxId.PublicBudgets.Law

/-!
Postings, releases and closings; what holds in every run of the budgets.
-/

namespace NyxId.PublicBudgets

open Interleave Collection

variable {s t : Store} {id cid : String} {row : PublicBudgetLoop} {call : PublicCallReservation}

/-- The loop after a posting. -/
def PublicBudgetLoop.posted (row : PublicBudgetLoop) (call : PublicCallReservation) (cost : ℤ) :
    PublicBudgetLoop :=
  { row with
    held := row.held + (if call.state ≠ .conservative then -min cost call.maximum else 0)
    spent := row.spent + (cost - call.capCharge)
    allocated := if call.state ≠ .conservative then row.allocated - call.maximum else row.allocated }

def PublicCallReservation.posted (call : PublicCallReservation) (cost : ℤ) (finalCost : Bool) :
    PublicCallReservation :=
  { call with state := if finalCost then .settled else .conservative, capCharge := cost }

structure Posted (s : Store) (cid : String) (row : PublicBudgetLoop) (call : PublicCallReservation)
    (cost : ℤ) (finalCost : Bool) (t : Store) : Prop where
  stored : s.loops.lookup call.loopId = some row
  loops : t.loops = s.loops.insert call.loopId (row.posted call cost)
  calls : t.calls = s.calls.insert cid (call.posted cost finalCost)
  buckets : t.buckets = s.shift row (if call.state ≠ .conservative then -min cost call.maximum else 0)
    (cost - call.capCharge)

theorem postCap_ok {cost : ℤ} {finalCost : Bool} (h : postCap s cid call cost finalCost = .ok t) :
    ∃ row, Posted s cid row call cost finalCost t := by
  unfold postCap at h
  split at h
  · cases h
  split at h
  · cases h
  rename_i row hrow
  dsimp only at h
  split at h
  · cases h
  · obtain rfl := Except.ok.inj h
    exact ⟨row, hrow, rfl, rfl, rfl⟩

theorem not_active_of_posted {cost : ℤ} {finalCost : Bool} :
    ¬(call.posted cost finalCost).state.Active := by
  have hsettled : ¬PublicCallState.settled.Active := by decide
  have hconservative : ¬PublicCallState.conservative.Active := by decide
  cases finalCost with
  | true => exact hsettled
  | false => exact hconservative

/-- The call may be posted: for the first time, or finally after a conservative posting. -/
def PublicCallReservation.Postable (call : PublicCallReservation) : Prop :=
  call.state = .dispatchAdmitted ∨ call.state = .conservative

theorem Books.open_of_active (hs : Books s) (hcall : s.calls.lookup cid = some call)
    (hrow : s.loops.lookup call.loopId = some row) (hactive : call.state.Active) :
    row.closed = false := by
  by_contra hclosed
  exact hs.closed _ row hrow (Bool.eq_true_of_not_eq_false hclosed) cid call hcall rfl hactive

theorem Books.posted {cost : ℤ} {finalCost : Bool} (hs : Books s)
    (hcall : s.calls.lookup cid = some call) (hpostable : call.Postable)
    (hcost : finalCost = false → cost = call.maximum) (h : Posted s cid row call cost finalCost t) :
    Books t := by
  have hchange : Change s call.loopId cid row (row.posted call cost) (call.posted cost finalCost)
      (if call.state ≠ .conservative then -min cost call.maximum else 0) (cost - call.capCharge) := by
    refine ⟨h.stored, fun _ => Iff.rfl, rfl, fun old hold => ?_, ?_, ?_, ?_, fun hclosed => ?_, ?_, ?_⟩
    · obtain rfl := Option.some.inj (hold.symm.trans hcall)
      rfl
    · unfold PublicBudgetLoop.openAmount PublicBudgetLoop.posted
      dsimp only
      rcases hpostable with hstate | hstate
      · have hopen := hs.open_of_active hcall h.stored (Or.inr (Or.inr (Or.inl hstate)))
        simp only [hopen, Bool.false_eq_true, if_false]
      · simp [hstate]
    · rw [hcall, Option.elim_some]
      change cost = _
      omega
    · rw [hcall, Option.elim_some]
      have hnew : (call.posted cost finalCost).activeAmount = 0 := if_neg not_active_of_posted
      rw [hnew]
      unfold PublicBudgetLoop.posted PublicCallReservation.activeAmount
      dsimp only
      rcases hpostable with hstate | hstate
      · have hactive : call.state.Active := Or.inr (Or.inr (Or.inl hstate))
        have hfirst : call.state ≠ .conservative := by simp [hstate]
        rw [if_pos hfirst, if_pos hactive]
        omega
      · have hactive : ¬call.state.Active := by
          rw [hstate]
          decide
        rw [if_neg (not_not.mpr hstate), if_neg hactive]
        omega
    · exact ⟨hclosed, not_active_of_posted⟩
    · refine ⟨(hs.charged cid call hcall).maximum, fun hne hne' => ?_, fun hstate => ?_⟩
      · unfold PublicCallReservation.posted at hne hne'
        cases finalCost with
        | true => exact absurd rfl hne'
        | false => exact absurd rfl hne
      · cases finalCost with
        | true => exact absurd hstate nofun
        | false => exact hcost rfl
    · obtain ⟨hcalls, hinput, houtput, hcontinuations⟩ := hs.limited _ row h.stored
      exact ⟨hcalls, hinput, houtput, hcontinuations⟩
  have hbooks := hs.change hchange
  rw [← h.loops, ← h.calls, ← h.buckets] at hbooks
  exact hbooks

/-! ### Releases -/

def PublicBudgetLoop.freed (row : PublicBudgetLoop) (amount : ℤ) : PublicBudgetLoop :=
  { row with allocated := row.allocated - amount }

def PublicCallReservation.released (call : PublicCallReservation) : PublicCallReservation :=
  { call with state := .released }

theorem not_active_of_released : ¬call.released.state.Active := by
  have hreleased : ¬PublicCallState.released.Active := by decide
  exact hreleased

structure Released (s : Store) (cid : String) (row : PublicBudgetLoop) (call : PublicCallReservation)
    (t : Store) : Prop where
  state : call.state = .cancelling
  stored : s.loops.lookup call.loopId = some row
  after : t = { s with
    loops := s.loops.insert call.loopId (row.freed call.maximum)
    calls := s.calls.insert cid call.released }

theorem Books.released (hs : Books s) (hcall : s.calls.lookup cid = some call)
    (h : Released s cid row call t) : Books t := by
  have hactive : call.state.Active := Or.inr (Or.inr (Or.inr h.state))
  have hchange : Change s call.loopId cid row (row.freed call.maximum) call.released 0 0 := by
    refine ⟨h.stored, fun _ => Iff.rfl, rfl, fun old hold => ?_, (Int.add_zero _).symm, ?_, ?_,
      fun hclosed => ⟨hclosed, not_active_of_released⟩, ?_, ?_⟩
    · obtain rfl := Option.some.inj (hold.symm.trans hcall)
      rfl
    · rw [hcall]
      exact (Int.add_zero _).symm
    · rw [hcall, Option.elim_some]
      have hnew : call.released.activeAmount = 0 := if_neg not_active_of_released
      have hold : call.activeAmount = call.maximum := if_pos hactive
      rw [hnew, hold]
      unfold PublicBudgetLoop.freed
      dsimp only
      omega
    · obtain ⟨hnonneg, hzero, -⟩ := hs.charged cid call hcall
      refine ⟨hnonneg, fun _ _ => hzero ?_ ?_, fun hstate => absurd hstate nofun⟩
      · simp [h.state]
      · simp [h.state]
    · obtain ⟨hcalls, hinput, houtput, hcontinuations⟩ := hs.limited _ row h.stored
      exact ⟨hcalls, hinput, houtput, hcontinuations⟩
  have hbooks := hs.change hchange
  rw [shift_zero] at hbooks
  rw [h.after]
  exact hbooks

/-! ### The transaction of a reconciliation -/

/-- What the transaction of a reconciliation does. -/
inductive Reconciled (actual : Option ℤ) (s : Store) (cid : String) (t : Store) : Prop where
  | same (h : t = s)
  | release {row : PublicBudgetLoop} {call : PublicCallReservation}
      (hcall : s.calls.lookup cid = some call) (h : Released s cid row call t)
  | conservative {row : PublicBudgetLoop} {call : PublicCallReservation}
      (hcall : s.calls.lookup cid = some call) (hstate : call.state = .dispatchAdmitted)
      (h : Posted s cid row call call.maximum false t)
  | settle {row : PublicBudgetLoop} {call : PublicCallReservation} {cost : ℤ}
      (hcall : s.calls.lookup cid = some call) (hpostable : call.Postable)
      (hactual : actual = some cost) (h : Posted s cid row call cost true t)

theorem reconcile_ok {actual : Option ℤ} {now : ℤ} (h : reconcile cid actual now s = .ok t) :
    Reconciled actual s cid t := by
  unfold reconcile at h
  split at h
  · cases h
  rename_i call hcall
  split at h
  · rename_i hstate
    split at h
    · cases h
    rename_i row hrow
    exact .release hcall ⟨hstate, hrow, (Except.ok.inj h).symm⟩
  · rename_i hstate
    split at h
    · obtain ⟨row, hposted⟩ := postCap_ok h
      exact .settle hcall (Or.inl hstate) rfl hposted
    · split at h
      · obtain ⟨row, hposted⟩ := postCap_ok h
        exact .conservative hcall hstate hposted
      · exact .same (Except.ok.inj h).symm
  · rename_i hstate
    split at h
    · obtain ⟨row, hposted⟩ := postCap_ok h
      exact .settle hcall (Or.inr hstate) rfl hposted
    · exact .same (Except.ok.inj h).symm
  · exact .same (Except.ok.inj h).symm

theorem Books.reconciled {actual : Option ℤ} (hs : Books s) (h : Reconciled actual s cid t) :
    Books t := by
  cases h with
  | same h => exact h ▸ hs
  | release hcall h => exact hs.released hcall h
  | conservative hcall hstate h => exact hs.posted hcall (Or.inl hstate) (fun _ => rfl) h
  | @settle row call cost hcall hpostable hactual h =>
    have hcost : true = false → cost = call.maximum := nofun
    exact hs.posted hcall hpostable hcost h

/-! ### Closing -/

def PublicBudgetLoop.finished (row : PublicBudgetLoop) : PublicBudgetLoop :=
  { row with closed := true, held := 0 }

structure Closes (s : Store) (id : String) (row : PublicBudgetLoop) (t : Store) : Prop where
  stored : s.loops.lookup id = some row
  isOpen : row.closed = false
  idle : ∀ cid call, s.calls.lookup cid = some call → call.loopId = id → ¬call.state.Active
  after : t = { s with
    buckets := s.shift row (-row.held) 0
    loops := s.loops.insert id row.finished }

theorem closeLoop_cases (id : String) (s : Store) :
    closeLoop id s = s ∨ ∃ row, Closes s id row (closeLoop id s) := by
  unfold closeLoop
  split
  · exact Or.inl rfl
  rename_i row hrow
  split
  · exact Or.inl rfl
  rename_i hopen
  split
  · exact Or.inl rfl
  rename_i hidle
  refine Or.inr ⟨row, hrow, Bool.eq_false_iff.mpr hopen, fun cid call hcall hloop hactive => hidle ?_,
    rfl⟩
  refine List.any_eq_true.mpr ⟨⟨cid, call⟩, AList.mem_lookup_iff.mp hcall, ?_⟩
  simp [hloop, hactive]

theorem Books.closes (hs : Books s) (h : Closes s id row t) : Books t := by
  obtain ⟨hrow, hopen, hidle, rfl⟩ := h
  have hreferenced (scope : Scope) : row.References scope → (s.buckets.lookup scope).isSome :=
    hs.referenced id row scope hrow
  have hcharge (scope : Scope) : sumOf (chargeOn (s.loops.insert id row.finished) scope) s.calls =
      sumOf (chargeOn s.loops scope) s.calls :=
    sumOf_congr _ _ _ fun cid call _ =>
      chargeOn_insert hrow (Iff.rfl : row.finished.References scope ↔ _) cid call
  refine ⟨fun scope => ?_, fun scope => ?_, fun id' found scope hfound href => ?_,
    fun id' found hfound => ?_, fun id' found hfound hclosed cid call hcall hloop => ?_,
    fun cid call hcall => ?_, hs.charged, fun id' found hfound => ?_⟩
  · rw [bucketAt_shift (hreferenced scope), sumOf_insert, term_of_lookup hrow, ← hs.held scope,
      openHold_of_lookup, openHold_of_lookup]
    have hnew : row.finished.openAmount = 0 := rfl
    have hscopes : row.finished.References scope ↔ row.References scope := Iff.rfl
    have hold : row.openAmount = row.held := by
      unfold PublicBudgetLoop.openAmount
      rw [hopen]
      rfl
    rw [hnew, hold]
    simp only [hscopes]
    by_cases href : row.References scope
    · rw [if_pos href, if_pos href, if_pos href]
      dsimp only
      omega
    · rw [if_neg href, if_neg href, if_neg href]
      omega
  · rw [bucketAt_shift (hreferenced scope), hcharge, ← hs.spent scope]
    split
    · exact Int.add_zero _
    · rfl
  · rw [isSome_shift]
    rcases lookup_insert_cases hfound with ⟨rfl, rfl⟩ | ⟨-, hold⟩
    · exact hreferenced scope href
    · exact hs.referenced id' found scope hold href
  · rcases lookup_insert_cases hfound with ⟨rfl, rfl⟩ | ⟨-, hold⟩
    · exact hs.allocated id' row hrow
    · exact hs.allocated id' found hold
  · rcases lookup_insert_cases hfound with ⟨rfl, rfl⟩ | ⟨-, hold⟩
    · exact hidle cid call hcall hloop
    · exact hs.closed id' found hold hclosed cid call hcall hloop
  · have hknown := hs.known cid call hcall
    change ((s.loops.insert id _).lookup call.loopId).isSome
    by_cases hid : call.loopId = id
    · rw [hid, AList.lookup_insert]
      rfl
    · rw [AList.lookup_insert_ne hid]
      exact hknown
  · rcases lookup_insert_cases hfound with ⟨rfl, rfl⟩ | ⟨-, hold⟩
    · obtain ⟨hcalls, hinput, houtput, hcontinuations⟩ := hs.limited id' row hrow
      exact ⟨hcalls, hinput, houtput, hcontinuations⟩
    · exact hs.limited id' found hold

theorem Books.apply {op : Op} (hs : Books s) (h : apply op s = .ok t) : Books t := by
  cases op with
  | reserve r =>
    rcases reserveLoop_ok h with ⟨rfl, -⟩ | hreserved
    · exact hs
    · exact hs.reserved hreserved
  | prepare publicSessionId turnId loopId fenced quote now =>
    rcases prepareCall_ok h with rfl | ⟨-, row, call, hprepared⟩
    · exact hs
    · exact hs.prepared hprepared
  | fund cid admitted now => exact hs.funded h
  | cancel cid now =>
    obtain rfl := Except.ok.inj h
    exact hs.restated (fun _ hmem => cancellable_active hmem)
      fun call => ⟨Or.inr (Or.inr (Or.inr rfl)), rfl, rfl, rfl⟩
  | expire cid =>
    obtain rfl := Except.ok.inj h
    exact hs.restated (fun _ hmem => cancellable_active hmem)
      fun call => ⟨Or.inr (Or.inr (Or.inr rfl)), rfl, rfl, rfl⟩
  | dispatch cid publicSessionId turnId admitted now => exact hs.dispatched h
  | reconcile cid actual now => exact hs.reconciled (reconcile_ok h)
  | close id =>
    obtain rfl := Except.ok.inj h
    rcases closeLoop_cases id s with hsame | ⟨row, hcloses⟩
    · rw [hsame]
      exact hs
    · exact hs.closes hcloses

end NyxId.PublicBudgets
