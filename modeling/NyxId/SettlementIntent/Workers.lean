import NyxId.SettlementIntent.Releases

/-!
Every operation of the workers keeps the invariant where they perform it, and so does every
schedule of any number of them, whichever answers are lost and wherever they stop.
-/

namespace NyxId.SettlementIntent

open Interleave Machine

variable {digest : ModelChargeVector → String} {pooled : Id → Bool} {funds : Collection Id ℤ}
  {s t : Store}

section

/-- An operation that keeps the invariant and only moves the rows on. -/
def Keeps (pooled : Id → Bool) (funds : Collection Id ℤ) (s t : Store) : Prop :=
  Inv pooled funds t ∧ Evolves s t

theorem Keeps.refl (hinv : Inv pooled funds s) : Keeps pooled funds s s := ⟨hinv, Evolves.refl s⟩

theorem Writes.keeps {id : Id} {row row' : MeterRow} {events : List Event}
    (h : Writes s t id row row' events) (hinv : Inv pooled funds s) : Keeps pooled funds s t :=
  ⟨h.inv hinv, h.evolves⟩

theorem lookup_of_findTransaction {tid : TransactionId} {id : Id} {row : MeterRow}
    (h : findTransaction tid s = some (id, row)) :
    s.rows.lookup id = some row ∧ row.transactionId = tid := by
  obtain ⟨hrow, htid⟩ := mem_select.mp (List.mem_of_mem_head? h)
  exact ⟨hrow, of_decide_eq_true htid⟩

theorem map_wallet_zero (owner : Id) (s : Store) :
    s.wallets.lookup owner = (s.wallets.lookup owner).map fun reserved => reserved - 0 := by
  cases s.wallets.lookup owner with
  | none => rfl
  | some reserved => rw [Option.map_some, Int.sub_zero]

/-- Rewriting a row without any event. -/
theorem writes_silently {id : Id} {row row' : MeterRow} (hrow : s.rows.lookup id = some row)
    (hmoves : RowMoves row row') (habandoned : row'.status = .abandoned ↔ row.status = .abandoned)
    (hquantity : row.status = .abandoned → row'.quantity = row.quantity)
    (husage : row'.pendingPlatformUsage = row.pendingPlatformUsage)
    (hresale : row.pendingResaleQuantity.isSome → row'.pendingResaleQuantity.isSome) :
    Writes s (s.write id row' []) id row row' [] where
  found := hrow
  rows := rfl
  history := rfl
  wallets owner := map_wallet_zero owner s
  moves := hmoves
  abandoned := habandoned
  quantity := hquantity
  releases _ he := (nomatch he)
  recorded _ _ _ he := (nomatch he)
  component _ _ he := (nomatch he)
  usageRemoved _ he := (nomatch he)
  resaleRemoved _ he := (nomatch he)
  pending := Or.inl husage
  resale := Or.inl hresale

/-- What a write to a row has to meet for the event that it leaves behind. -/
def EventOk (s : Store) (id : Id) (row row' : MeterRow) : Event → Prop
  | .recorded request usage resale => row.transactionId = transactionId request .platform ∧
      row.status = .forwarded ∧ row.pendingPlatformUsage = none ∧
      row'.pendingPlatformUsage = some usage ∧ row'.pendingResaleQuantity = resale
  | .component other usage => other = id ∧ row'.quantity = some (componentQuantity usage row) ∧
      Recorded s row.billingRequestId usage
  | .usageRemoved request => Quantified s request .platform
  | .resaleRemoved request => Quantified s request .resale
  | .released _ _ _ => False
  | .settledHold _ _ => True

/-- Rewriting a row with one event, which decides what is asked of the write. -/
theorem writes_event {id : Id} {row row' : MeterRow} (event : Event)
    (hrow : s.rows.lookup id = some row) (hrows : t.rows = s.rows.insert id row')
    (hhistory : t.history = event :: s.history)
    (hwallets : ∀ owner, t.wallets.lookup owner =
      (s.wallets.lookup owner).map fun reserved => reserved - event.taken owner)
    (hmoves : RowMoves row row') (habandoned : row'.status = .abandoned ↔ row.status = .abandoned)
    (hquantity : row.status = .abandoned → row'.quantity = row.quantity)
    (hevent : EventOk s id row row' event)
    (hpending : row'.pendingPlatformUsage = row.pendingPlatformUsage ∨
      (row'.pendingPlatformUsage = none ∧ Quantified s row.billingRequestId .platform) ∨
      ∃ usage resale, row'.pendingPlatformUsage = some usage ∧
        event = .recorded row.billingRequestId usage resale)
    (hresale : (row.pendingResaleQuantity.isSome → row'.pendingResaleQuantity.isSome) ∨
      Quantified s row.billingRequestId .resale ∨
      ∃ usage resale, event = .recorded row.billingRequestId usage resale) :
    Writes s t id row row' [event] where
  found := hrow
  rows := hrows
  history := hhistory
  wallets owner := by
    rw [hwallets, List.map_singleton, List.sum_singleton]
  moves := hmoves
  abandoned := habandoned
  quantity := hquantity
  releases e he other := by
    obtain rfl := List.mem_singleton.mp he
    cases e with
    | released _ _ _ => exact hevent.elim
    | _ => rfl
  recorded request usage resale he := by
    obtain rfl := List.mem_singleton.mp he
    exact ⟨rfl, hevent⟩
  component other usage he := by
    obtain rfl := List.mem_singleton.mp he
    exact hevent
  usageRemoved request he := by
    obtain rfl := List.mem_singleton.mp he
    exact hevent
  resaleRemoved request he := by
    obtain rfl := List.mem_singleton.mp he
    exact hevent
  pending := by
    refine hpending.imp_right (Or.imp_right ?_)
    rintro ⟨usage, resale, hsome, rfl⟩
    exact ⟨usage, resale, hsome, List.mem_cons_self⟩
  resale := by
    refine hresale.imp_right (Or.imp_right ?_)
    rintro ⟨usage, resale, rfl⟩
    exact ⟨usage, resale, List.mem_cons_self⟩

theorem RowMoves.finalize {row : MeterRow} {final : Final} (hquantity : row.quantity = none) :
    RowMoves row (row.finalize final) where
  same := ⟨rfl, rfl, rfl, rfl, rfl, rfl, rfl, by simp [MeterRow.finalize]⟩
  quantity q hq := by
    rw [hquantity] at hq
    cases hq
  forwarded hstatus := by cases hstatus

theorem finalize_resale {row : MeterRow} {final : Final} (h : row.pendingResaleQuantity.isSome) :
    (row.finalize final).pendingResaleQuantity.isSome := by
  obtain ⟨q, hq⟩ := Option.isSome_iff_exists.mp h
  unfold MeterRow.finalize
  cases hfinal : final.pendingResaleQuantity with
  | none => simp [hq]
  | some q' => rfl

theorem saveIntent_keeps (hinv : Inv pooled funds s) (env : Env) (request : Id)
    (usage : PlatformUsage) (resale : Option ℤ) (model : Option String) :
    Keeps pooled funds s (exec digest env (.saveIntent request usage resale model) s).2 := by
  unfold exec
  dsimp only
  split
  · rename_i id row hfind
    obtain ⟨hrow, htid⟩ := lookup_of_findTransaction hfind
    split
    · rename_i haccepts
      unfold MeterRow.acceptsIntent at haccepts
      simp only [Bool.and_eq_true, decide_eq_true_eq, Option.isNone_iff_eq_none] at haccepts
      obtain ⟨⟨hstatus, hpending⟩, -⟩ := haccepts
      have hrequest := (hinv.request_of_tid hrow htid).1
      have hmoves : RowMoves row (row.saveIntent digest usage resale model env.now) :=
        ⟨⟨rfl, rfl, rfl, rfl, rfl, rfl, rfl, rfl⟩, fun _ hq => hq, fun h => ⟨h, rfl, rfl⟩⟩
      have hevent : Event.recorded request usage resale =
          .recorded row.billingRequestId usage resale := by
        rw [hrequest]
      exact Writes.keeps (writes_event (.recorded request usage resale) hrow rfl rfl
        (fun owner => map_wallet_zero owner s) hmoves Iff.rfl (fun _ => rfl)
        ⟨htid, hstatus, hpending, rfl, rfl⟩
        (Or.inr (Or.inr ⟨usage, resale, rfl, hevent⟩))
        (Or.inr (Or.inr ⟨usage, resale, hevent⟩))) hinv
    · exact Keeps.refl hinv
  · exact Keeps.refl hinv

theorem finalizeTransaction_keeps (hinv : Inv pooled funds s) (env : Env) (tid : TransactionId)
    (final : Final) :
    Keeps pooled funds s (exec digest env (.finalizeTransaction tid final) s).2 := by
  unfold exec
  dsimp only
  split
  · rename_i id row hfind
    obtain ⟨hrow, -⟩ := lookup_of_findTransaction hfind
    split
    · rename_i hstatus
      obtain ⟨hquantity, -⟩ := (hinv.rows _ _ hrow).forwarded hstatus
      refine (writes_silently hrow (RowMoves.finalize hquantity) ?_ ?_ rfl finalize_resale).keeps hinv
      · rw [hstatus]
        exact ⟨fun h => (nomatch h), fun h => (nomatch h)⟩
      · intro h
        rw [hstatus] at h
        cases h
    · exact Keeps.refl hinv
  · exact Keeps.refl hinv

/-- A component is finalized with the quantity that the recorded usage gives its row. -/
theorem finalizeComponent_keeps (hinv : Inv pooled funds s) (env : Env) {id : Id}
    {usage : PlatformUsage} {final : Final}
    (hknown : ∀ row, s.rows.lookup id = some row → Recorded s row.billingRequestId usage ∧
      final.quantity = componentQuantity usage row) :
    Keeps pooled funds s (exec digest env (.finalizeComponent id usage final) s).2 := by
  unfold exec
  dsimp only
  split
  · rename_i row hrow
    obtain ⟨hrecorded, hvalue⟩ := hknown row hrow
    split
    · rename_i hstatus
      obtain ⟨hquantity, -⟩ := (hinv.rows _ _ hrow).forwarded hstatus
      have hmoves : RowMoves row (row.finalize final) := RowMoves.finalize hquantity
      refine Writes.keeps (writes_event (.component id usage) hrow rfl rfl
        (fun owner => map_wallet_zero owner s) hmoves ?_ ?_
        ⟨rfl, congrArg some hvalue, hrecorded⟩ (Or.inl rfl) (Or.inl finalize_resale)) hinv
      · rw [hstatus]
        exact ⟨fun h => (nomatch h), fun h => (nomatch h)⟩
      · intro h
        rw [hstatus] at h
        cases h
    · exact Keeps.refl hinv
  · exact Keeps.refl hinv

theorem unsetUsage_keeps (hinv : Inv pooled funds s) (env : Env) {id : Id}
    (hknown : ∀ row, s.rows.lookup id = some row → Quantified s row.billingRequestId .platform) :
    Keeps pooled funds s (exec digest env (.unsetUsage id) s).2 := by
  unfold exec
  dsimp only
  split
  · rename_i row hrow
    have hall := hknown row hrow
    have hmoves : RowMoves row { row with pendingPlatformUsage := none } :=
      ⟨⟨rfl, rfl, rfl, rfl, rfl, rfl, rfl, rfl⟩, fun _ hq => hq, fun h => ⟨h, rfl, rfl⟩⟩
    exact Writes.keeps (writes_event (.usageRemoved row.billingRequestId) hrow rfl rfl
      (fun owner => map_wallet_zero owner s) hmoves Iff.rfl (fun _ => rfl) hall
      (Or.inr (Or.inl ⟨rfl, hall⟩)) (Or.inl fun h => h)) hinv
  · exact Keeps.refl hinv

theorem unsetResale_keeps (hinv : Inv pooled funds s) (env : Env) {id : Id} (quantity : ℤ)
    (hknown : ∀ row, s.rows.lookup id = some row → Quantified s row.billingRequestId .resale) :
    Keeps pooled funds s (exec digest env (.unsetResale id quantity) s).2 := by
  unfold exec
  dsimp only
  split
  · rename_i row hrow
    have hall := hknown row hrow
    split
    · have hmoves : RowMoves row { row with pendingResaleQuantity := none } :=
        ⟨⟨rfl, rfl, rfl, rfl, rfl, rfl, rfl, rfl⟩, fun _ hq => hq, fun h => ⟨h, rfl, rfl⟩⟩
      exact Writes.keeps (writes_event (.resaleRemoved row.billingRequestId) hrow rfl rfl
        (fun owner => map_wallet_zero owner s) hmoves Iff.rfl (fun _ => rfl) hall (Or.inl rfl)
        (Or.inr (Or.inl hall))) hinv
    · exact Keeps.refl hinv
  · exact Keeps.refl hinv

/-- Settlement touches rows with a quantity and the wallets of their owners. -/
theorem settleRow_keeps (hinv : Inv pooled funds s) (env : Env) (id : Id) :
    Keeps pooled funds s (exec digest env (.settleRow id) s).2 := by
  unfold exec
  dsimp only
  split
  · rename_i row hrow
    split
    · rename_i hquantity
      have hopen : row.status ≠ .abandoned := by
        intro habandoned
        rw [(hinv.rows _ _ hrow).abandoned habandoned] at hquantity
        cases hquantity
      have hstatus : (row.settle env).status ≠ .abandoned ∧ (row.settle env).status ≠ .forwarded := by
        unfold MeterRow.settle
        dsimp only
        split
        · rename_i hfailed
          rcases hfailed with h | h <;> rw [h] <;> decide
        · decide
      have hmoves : RowMoves row (row.settle env) :=
        ⟨⟨rfl, rfl, rfl, rfl, rfl, rfl, rfl, rfl⟩, fun _ hq => hq, fun h => absurd h hstatus.2⟩
      refine Writes.keeps (writes_event (.settledHold row.billingOwnerId env.holdBack) hrow rfl rfl
        (fun owner => ?_) hmoves
        ⟨fun h => absurd h hstatus.1, fun h => absurd h hopen⟩ (fun _ => rfl) trivial (Or.inl rfl)
        (Or.inl fun h => h)) hinv
      by_cases howner : row.billingOwnerId = owner
      · subst howner
        rw [Event.taken, if_pos rfl]
        split
        · rename_i reserved hwallet
          rw [AList.lookup_insert, hwallet]
          rfl
        · rename_i hwallet
          rw [hwallet]
          rfl
      · rw [Event.taken, if_neg howner]
        split
        · rw [AList.lookup_insert_ne (Ne.symm howner)]
          exact map_wallet_zero owner s
        · exact map_wallet_zero owner s
    · exact Keeps.refl hinv
  · exact Keeps.refl hinv

theorem renewRow_keeps (hinv : Inv pooled funds s) (env : Env) (id : Id) (leaseUntil : Time) :
    Keeps pooled funds s (exec digest env (.renewRow id leaseUntil) s).2 := by
  unfold exec
  dsimp only
  split
  · rename_i row hrow
    split
    · have hmoves : RowMoves row { row with poolAttempt := row.poolAttempt.map fun attempt =>
          { attempt with leaseUntil := max attempt.leaseUntil leaseUntil } } :=
        ⟨⟨rfl, rfl, rfl, rfl, rfl, rfl, rfl, by simp⟩, fun _ hq => hq, fun h => ⟨h, rfl, rfl⟩⟩
      exact (writes_silently hrow hmoves Iff.rfl (fun _ => rfl) rfl fun h => h).keeps hinv
    · exact Keeps.refl hinv
  · exact Keeps.refl hinv

/-- The transaction commits on what it read, or not at all. -/
theorem commitRelease_keeps (hinv : Inv pooled funds s) (env : Env) {request : Id}
    {snapshot : Snapshot} (hsnapshot : SnapshotOk pooled funds request snapshot s)
    (outcome : PoolAttemptOutcome) (expiredAt : Option Time) :
    Keeps pooled funds s (exec digest env (.commitRelease snapshot outcome expiredAt) s).2 := by
  unfold exec
  dsimp only
  split
  · rename_i hunchanged
    have hplan := plan_of_snapshot hinv hsnapshot hunchanged
    split
    · rename_i t hreleased
      have hrel := released_of_releaseRows hreleased hplan.nodup
      exact ⟨hrel.inv hplan hinv, hrel.evolves hplan⟩
    · exact Keeps.refl hinv
  · exact Keeps.refl hinv

end

end NyxId.SettlementIntent
