import NyxId.PublicBudgets.Books

/-!
The budgets are conserved, and the hold of a loop covers what is allocated as long as calls are
prepared only within it.
-/

namespace NyxId.PublicBudgets

open Interleave Collection

variable {s t : Store} {id cid : String} {row : PublicBudgetLoop} {call : PublicCallReservation}
  {scope : Scope}

/-! ### Reservations -/

/-- What a hold leaves. -/
structure Held (s : Store) (scope : Scope) (amount cap : ℤ) (t : Store) : Prop where
  loops : t.loops = s.loops
  calls : t.calls = s.calls
  stored : (t.buckets.lookup scope).isSome
  kept : ∀ other, (s.buckets.lookup other).isSome → (t.buckets.lookup other).isSome
  at_scope : t.bucketAt scope = ⟨(s.bucketAt scope).held + amount, (s.bucketAt scope).spent⟩
  others : ∀ other, other ≠ scope → t.bucketAt other = s.bucketAt other
  below : (t.bucketAt scope).held + (t.bucketAt scope).spent ≤ cap

theorem hold_ok {amount cap : ℤ} (h : s.hold scope amount cap = .ok t) :
    Held s scope amount cap t := by
  unfold Store.hold at h
  dsimp only at h
  split at h
  · rename_i hcap
    obtain rfl := Except.ok.inj h
    have hat : Store.bucketAt ⟨s.buckets.insert scope ⟨((s.buckets.lookup scope).getD ⟨0, 0⟩).held +
        amount, ((s.buckets.lookup scope).getD ⟨0, 0⟩).spent⟩, s.loops, s.calls⟩ scope =
        ⟨(s.bucketAt scope).held + amount, (s.bucketAt scope).spent⟩ := by
      unfold Store.bucketAt
      dsimp only
      rw [AList.lookup_insert, Option.getD_some]
    refine ⟨rfl, rfl, ?_, fun other hsome => ?_, hat, fun other hother => ?_, ?_⟩
    · rw [AList.lookup_insert]
      rfl
    · by_cases hother : other = scope
      · rw [hother, AList.lookup_insert]
        rfl
      · rw [AList.lookup_insert_ne hother]
        exact hsome
    · unfold Store.bucketAt
      dsimp only
      rw [AList.lookup_insert_ne hother]
    · rw [hat]
      unfold Store.bucketAt
      dsimp only
      omega
  · cases h

/-- What a new reservation leaves: the request fits both caps. -/
structure Reserved (r : ReserveRequest) (s t : Store) : Prop where
  fresh : s.loops.lookup r.loopId = none
  nonneg : 0 ≤ r.maximum
  loops : t.loops = s.loops.insert r.loopId r.row
  calls : t.calls = s.calls
  kept : ∀ scope, (s.buckets.lookup scope).isSome → (t.buckets.lookup scope).isSome
  stored : ∀ scope, r.row.References scope → (t.buckets.lookup scope).isSome
  buckets : ∀ scope, t.bucketAt scope = if r.row.References scope then
    ⟨(s.bucketAt scope).held + r.maximum, (s.bucketAt scope).spent⟩ else s.bucketAt scope
  total : (t.bucketAt (.total r.profileId r.day)).held +
    (t.bucketAt (.total r.profileId r.day)).spent ≤ r.totalDailyCredits
  sender : (t.bucketAt (.sender r.profileId r.actor r.day)).held +
    (t.bucketAt (.sender r.profileId r.actor r.day)).spent ≤ r.senderDailyCredits

theorem reserveLoop_ok {r : ReserveRequest} (h : reserveLoop r s = .ok t) :
    t = s ∧ s.loopOf r.publicSessionId r.turnId ≠ none ∨ Reserved r s t := by
  unfold reserveLoop at h
  split at h
  · cases h
  rename_i hvalid
  split at h
  · rename_i existing hexisting
    split at h
    · cases h
    · refine Or.inl ⟨(Except.ok.inj h).symm, ?_⟩
      rw [hexisting]
      exact nofun
  split at h
  · cases h
  rename_i hfresh
  split at h
  · cases h
  cases hfirst : s.hold (.total r.profileId r.day) r.maximum r.totalDailyCredits with
  | error e =>
    rw [hfirst] at h
    cases h
  | ok u =>
    rw [hfirst] at h
    change (u.hold _ _ _).bind _ = _ at h
    cases hsecond : u.hold (.sender r.profileId r.actor r.day) r.maximum r.senderDailyCredits with
    | error e =>
      rw [hsecond] at h
      cases h
    | ok v =>
      rw [hsecond] at h
      obtain rfl := Except.ok.inj h
      have hu := hold_ok hfirst
      have hv := hold_ok hsecond
      have htotal : Scope.total r.profileId r.day ≠ .sender r.profileId r.actor r.day := nofun
      rw [not_or] at hvalid
      have htotalAt := hv.others _ htotal
      refine Or.inr ⟨Option.not_isSome_iff_eq_none.mp hfresh, not_lt.mp hvalid.1, ?_,
        hv.calls.trans hu.calls, fun scope hsome => hv.kept scope (hu.kept scope hsome), ?_, ?_, ?_,
        hv.below⟩
      · change AList.insert _ _ v.loops = _
        rw [hv.loops, hu.loops]
      · rintro scope (rfl | rfl)
        · exact hv.kept _ hu.stored
        · exact hv.stored
      · intro scope
        change v.bucketAt scope = _
        split
        · rename_i href
          rcases href with rfl | rfl
          · exact htotalAt.trans hu.at_scope
          · exact hv.at_scope.trans (congrArg (fun bucket : PublicBudgetBucket =>
              (⟨bucket.held + r.maximum, bucket.spent⟩ : PublicBudgetBucket))
              (hu.others _ htotal.symm))
        · rename_i href
          exact (hv.others scope fun hsame => href (Or.inr hsame)).trans
            (hu.others scope fun hsame => href (Or.inl hsame))
      · change (v.bucketAt _).held + (v.bucketAt _).spent ≤ _
        rw [htotalAt]
        exact hu.below

theorem Books.reserved {r : ReserveRequest} (hs : Books s) (h : Reserved r s t) : Books t := by
  obtain ⟨hfresh, hnonneg, hloops, hcalls, hkept, hstored, hbuckets, -, -⟩ := h
  have hunknown (cid : String) (call : PublicCallReservation) (hcall : s.calls.lookup cid = some call) :
      call.loopId ≠ r.loopId := by
    intro hsame
    have hsome := hs.known cid call hcall
    rw [hsame, hfresh] at hsome
    cases hsome
  have hcharge (scope : Scope) : sumOf (chargeOn t.loops scope) t.calls =
      sumOf (chargeOn s.loops scope) s.calls := by
    rw [hcalls, hloops]
    refine sumOf_congr _ _ _ fun cid call hcall => ?_
    unfold chargeOn
    rw [AList.lookup_insert_ne (hunknown cid call hcall)]
  refine ⟨fun scope => ?_, fun scope => ?_, fun id row scope hrow href => ?_, fun id row hrow => ?_,
    fun id row hrow hclosed cid call hcall hloop => ?_, fun cid call hcall => ?_,
    fun cid call hcall => ?_, fun id row hrow => ?_⟩
  · rw [hbuckets, hloops, sumOf_insert, term_of_none hfresh, ← hs.held scope]
    unfold openHold
    split
    · change _ = _ - 0 + r.maximum
      dsimp only
      omega
    · omega
  · rw [hcharge, ← hs.spent scope, hbuckets]
    split <;> rfl
  · rw [hloops] at hrow
    rcases lookup_insert_cases hrow with ⟨rfl, rfl⟩ | ⟨-, hold⟩
    · exact hstored scope href
    · exact hkept scope (hs.referenced id row scope hold href)
  · rw [hloops] at hrow
    rw [hcalls]
    rcases lookup_insert_cases hrow with ⟨rfl, rfl⟩ | ⟨-, hold⟩
    · exact (sumOf_eq_zero _ _ fun cid call hcall => if_neg (hunknown cid call hcall)).symm
    · exact hs.allocated id row hold
  · rw [hloops] at hrow
    rw [hcalls] at hcall
    rcases lookup_insert_cases hrow with ⟨rfl, rfl⟩ | ⟨-, hold⟩
    · exact absurd hloop (hunknown cid call hcall)
    · exact hs.closed id row hold hclosed cid call hcall hloop
  · rw [hcalls] at hcall
    rw [hloops, AList.lookup_insert_ne (hunknown cid call hcall)]
    exact hs.known cid call hcall
  · rw [hcalls] at hcall
    exact hs.charged cid call hcall
  · rw [hloops] at hrow
    rcases lookup_insert_cases hrow with ⟨rfl, rfl⟩ | ⟨-, hold⟩
    · exact ⟨Int.natCast_nonneg _, Int.natCast_nonneg _, Int.natCast_nonneg _,
        Int.natCast_nonneg _⟩
    · exact hs.limited id row hold

/-! ### Calls -/

/-- What a new preparation leaves. -/
structure PreparedCall (publicSessionId turnId id : String) (quote : CallQuote) (now : ℤ)
    (row : PublicBudgetLoop) (call : PublicCallReservation) (s t : Store) : Prop where
  fresh : s.calls.lookup quote.callId = none
  stored : s.loops.lookup id = some row
  prepares : Prepares row quote publicSessionId turnId now
  written : call.loopId = id ∧ call.state = .prepared ∧ call.maximum = quote.maximum ∧ call.capCharge = 0
  after : t = { s with
    loops := s.loops.insert id (row.prepared quote)
    calls := s.calls.insert quote.callId call }

theorem prepareCall_ok {publicSessionId turnId : String} {fenced : Bool} {quote : CallQuote} {now : ℤ}
    (h : prepareCall publicSessionId turnId id fenced quote now s = .ok t) :
    t = s ∨ fenced = true ∧ ∃ row call, PreparedCall publicSessionId turnId id quote now row call s t := by
  unfold prepareCall at h
  split at h
  · split at h
    · cases h
    · exact Or.inl (Except.ok.inj h).symm
  rename_i hfresh
  split at h
  · cases h
  rename_i hfenced
  split at h
  · cases h
  rename_i row hrow
  split at h
  · rename_i hprepares
    exact Or.inr ⟨Bool.eq_true_of_not_eq_false hfenced, row, _, hfresh, hrow, hprepares,
      ⟨rfl, rfl, rfl, rfl⟩, (Except.ok.inj h).symm⟩
  · cases h

variable {publicSessionId turnId : String} {quote : CallQuote} {now : ℤ}

theorem PreparedCall.active (h : PreparedCall publicSessionId turnId id quote now row call s t) :
    call.activeAmount = quote.maximum := by
  have hactive : call.state.Active := Or.inl h.written.2.1
  unfold PublicCallReservation.activeAmount
  rw [if_pos hactive, h.written.2.2.1]

theorem Books.prepared (hs : Books s)
    (h : PreparedCall publicSessionId turnId id quote now row call s t) : Books t := by
  obtain ⟨hopen, -, -, -, -, hcalls, -, hinput, houtput, hcontinuations⟩ := h.prepares
  have hchange : Change s id quote.callId row (row.prepared quote) call 0 0 := by
    refine ⟨h.stored, fun _ => Iff.rfl, h.written.1, fun old hold => ?_, (Int.add_zero _).symm, ?_, ?_,
      fun hclosed => ?_, ?_, ?_⟩
    · rw [h.fresh] at hold
      cases hold
    · rw [h.fresh, h.written.2.2.2]
      rfl
    · rw [h.fresh, h.active]
      exact (Int.sub_zero _).symm
    · rw [PublicBudgetLoop.prepared, hopen] at hclosed
      cases hclosed
    · refine ⟨h.written.2.2.1 ▸ quote.nonneg, fun _ _ => h.written.2.2.2, fun hstate => ?_⟩
      rw [h.written.2.1] at hstate
      cases hstate
    · exact ⟨Int.add_one_le_iff.mpr hcalls, hinput, houtput, hcontinuations⟩
  have hbooks := hs.change hchange
  rw [shift_zero] at hbooks
  rw [h.after]
  exact hbooks

theorem Books.restated {before : List PublicCallState}
    {after : PublicCallReservation → PublicCallReservation} (hs : Books s)
    (hbefore : ∀ state ∈ before, state.Active)
    (hafter : ∀ call, (after call).state.Active ∧ (after call).loopId = call.loopId ∧
      (after call).maximum = call.maximum ∧ (after call).capCharge = call.capCharge) :
    Books (s.restate cid before after) := by
  unfold Store.restate
  split
  · rename_i call hcall
    split
    · rename_i hstate
      obtain ⟨hactive, hloop, hmaximum, hcharge⟩ := hafter call
      exact hs.restate hcall (hbefore _ hstate) hactive hloop hmaximum hcharge
    · exact hs
  · exact hs

theorem cancellable_active {state : PublicCallState} (h : state ∈ [PublicCallState.prepared, .funded]) :
    state.Active := by
  rcases List.mem_cons.mp h with rfl | h
  · exact Or.inl rfl
  · exact Or.inr (Or.inl (List.mem_singleton.mp h))

theorem Books.funded {admitted : Bool} (hs : Books s)
    (h : fundCall cid admitted now s = .ok t) : Books t := by
  unfold fundCall at h
  split at h
  · rename_i call hcall
    split at h
    · rename_i hfunds
      obtain rfl := Except.ok.inj h
      exact hs.restate hcall (Or.inl hfunds.2.1) (Or.inr (Or.inl rfl)) rfl rfl rfl
    · cases h
  · cases h

theorem Books.dispatched {admitted : Bool} (hs : Books s)
    (h : admitDispatch cid publicSessionId turnId admitted now s = .ok t) : Books t := by
  unfold admitDispatch at h
  split at h
  · cases h
  rename_i call hcall
  split at h
  · cases h
  split at h
  · rename_i hadmits
    obtain rfl := Except.ok.inj h
    exact hs.restate hcall (Or.inr (Or.inl hadmits.1)) (Or.inr (Or.inr (Or.inl rfl))) rfl rfl rfl
  · cases h

end NyxId.PublicBudgets
