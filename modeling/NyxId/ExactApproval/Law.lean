import NyxId.ExactApproval.Invariant

/-!
One exact approval under any number of redemptions and observations, whatever times out or crashes:
the provider is reached at most once, and the end that was stored first is the answer.
-/

namespace NyxId.ExactApproval

open Interleave Machine

variable {digest : String → String} {skew : ℕ → ℤ} {s t : Store} {w v : ℕ}

/-! ### What a call knows -/

/-- The call stored the claim at the given time and has not returned. -/
def Claimed (w : ℕ) (now : ℤ) (s : Store) : Prop :=
  ∃ closed effects reported, view w s = ⟨none, some (now, closed, effects, reported)⟩

/-- The execution has reported its end. -/
def During (w : ℕ) (now : ℤ) (x : Executed) (s : Store) : Prop :=
  ∃ closed effects, view w s = ⟨none, some (now, closed, effects, some x)⟩

/-- The call holds a result that says what it last read. -/
def Finished (w : ℕ) (r : ApprovalResult) (s : Store) : Prop :=
  (view w s).result = none ∧ ∃ row, s.loaded w = some row ∧ Faithful row r

variable {α β : Type} {Q : α → Store → Prop} {E : AppError → Store → Prop}

theorem wp_op {o : Op β} {f : β → Code α}
    (h : ∀ t env, Rely w s t → Inv digest skew t →
      (discipline digest skew).Guar w t (exec skew w env o t).2 ∧
        (discipline digest skew).wp w (f (exec skew w env o t).1) Q E (exec skew w env o t).2 ∧
          (∀ e, E e (exec skew w env o t).2) ∧ ∀ e, E e t) :
    (discipline digest skew).wp w ((Prog.perform o).bind f) Q E s := fun t env hst ht =>
  { done := fun _ => ⟨(h t env hst ht).1, (h t env hst ht).2.1⟩
    lost := fun _ => ⟨(h t env hst ht).1, (h t env hst ht).2.2.1 _⟩
    failed := fun _ => (h t env hst ht).2.2.2 _
    crash := fun _ => trivial }

variable {x : View}

/-- An operation that leaves what the call holds. -/
theorem wp_kept {o : Op β} {f : β → Code α} (P : β → Store → Prop) (hx : view w s = x)
    (hE : ∀ e t, view w t = x → E e t)
    (ho : ∀ t env, Rely w s t → Inv digest skew t → view w t = x →
      (discipline digest skew).Guar w t (exec skew w env o t).2 ∧
        view w (exec skew w env o t).2 = x ∧ P (exec skew w env o t).1 (exec skew w env o t).2)
    (h : ∀ b t, Inv digest skew t → view w t = x → P b t →
      (discipline digest skew).wp w (f b) Q E t) :
    (discipline digest skew).wp w ((Prog.perform o).bind f) Q E s := by
  refine wp_op fun t env hst ht => ?_
  have hxt := hst.view.trans hx
  obtain ⟨hguar, hxu, hholds⟩ := ho t env hst ht hxt
  exact ⟨hguar, h _ _ hguar.1 hxu hholds, fun e => hE e _ hxu, fun e => hE e t hxt⟩

theorem wp_now {f : ℤ → Code α} (hx : view w s = x) (hE : ∀ e t, view w t = x → E e t)
    (h : ∀ now t, Inv digest skew t → view w t = x → t.loaded w = s.loaded w →
      now ≤ t.clock + skew w → (discipline digest skew).wp w (f now) Q E t) :
    (discipline digest skew).wp w ((Prog.perform .now).bind f) Q E s :=
  wp_kept (fun now t => t.loaded w = s.loaded w ∧ now ≤ t.clock + skew w) hx hE
    (fun _ env hst ht hxt => ⟨guar_clock ht env.elapsed, hxt, hst.loaded, le_rfl⟩)
    fun now t ht hxt hnow => h now t ht hxt hnow.1 hnow.2

/-- A row that the operation answers is the one last loaded. -/
def Answers (w : ℕ) (answer : Option ApprovalRequest) (s : Store) : Prop :=
  ∀ row, answer = some row → s.loaded w = some row

theorem answers_write (row : ApprovalRequest) : Answers w (some row) (s.write w row) := by
  intro row hrow
  obtain rfl := Option.some.inj hrow
  exact Function.update_self _ _ _

theorem answers_none : Answers w none s := fun _ hrow => nomatch hrow

/-! ### Reading, expiring and recovering -/

/-- What a call holds that has read a request. -/
def HasRead (digest : String → String) (skew : ℕ → ℤ) (w : ℕ) (x : View) (row : ApprovalRequest)
    (s : Store) : Prop :=
  Inv digest skew s ∧ view w s = x ∧ s.loaded w = some row

theorem loadBoundRequest_wp {bound : Bool} (hx : view w s = x) (hnone : x.result = none)
    (hE : ∀ e t, view w t = x → E e t) :
    (discipline digest skew).wp w (loadBoundRequest bound) (HasRead digest skew w x) E s := by
  refine wp_kept (fun row t => t.loaded w = some row) hx hE (fun t _ _ ht hxt => ?_)
    fun row t ht hxt hrow => ?_
  · exact ⟨guar_read ht ((congrArg View.result hxt).trans hnone), hxt, Function.update_self _ _ _⟩
  cases bound with
  | true => exact ⟨ht, hxt, hrow⟩
  | false => exact hE _ t hxt

/-- The last read of a call that found nothing to write. -/
theorem wp_reload (hx : view w s = x) (hnone : x.result = none) (hE : ∀ e t, view w t = x → E e t) :
    (discipline digest skew).wp w (Prog.perform .load) (HasRead digest skew w x) E s := by
  intro t env hst ht
  have hxt := hst.view.trans hx
  have hguar := guar_read ht ((congrArg View.result hxt).trans hnone)
  exact {
    done := fun _ => ⟨hguar, hguar.1, hxt, Function.update_self _ _ _⟩
    lost := fun _ => ⟨hguar, hE _ _ hxt⟩
    failed := fun _ => hE _ t hxt
    crash := fun _ => trivial }

theorem expireIfNeeded_wp {row : ApprovalRequest} (hs : HasRead digest skew w x row s)
    (hnone : x.result = none) (hE : ∀ e t, view w t = x → E e t) :
    (discipline digest skew).wp w (expireIfNeeded row) (HasRead digest skew w x) E s := by
  unfold expireIfNeeded
  split
  · exact hs
  refine wp_now hs.2.1 hE fun now t ht hxt hrow _ => ?_
  split
  · exact ⟨ht, hxt, hrow.trans hs.2.2⟩
  refine wp_now hxt hE fun now t ht hxt _ _ => ?_
  refine wp_kept (Answers w) hxt hE (fun u _ _ hu hxu => ?_) fun answer u hu hxu hrow => ?_
  · simp only [exec]
    split
    · rename_i hexpired
      exact ⟨guar_expire hu ((congrArg View.result hxu).trans hnone) hexpired.2.2, hxu,
        answers_write _⟩
    · exact ⟨(discipline digest skew).guar_refl hu, hxu, answers_none⟩
  cases answer with
  | some updated => exact ⟨hu, hxu, hrow updated rfl⟩
  | none => exact wp_reload hxu hnone hE

theorem recoverStaleExecution_wp {row : ApprovalRequest} (hs : HasRead digest skew w x row s)
    (hnone : x.result = none) (hE : ∀ e t, view w t = x → E e t) :
    (discipline digest skew).wp w (recoverStaleExecution row) (HasRead digest skew w x) E s := by
  refine wp_now hs.2.1 hE fun now t ht hxt hrow hclock => ?_
  cases row.redemption with
  | none => exact ⟨ht, hxt, hrow.trans hs.2.2⟩
  | some redemption =>
    by_cases hfresh : redemption.status ≠ .executing ∨
        now < redemption.admittedAt + executionOutcomeRecoveryGrace
    · dsimp only
      rw [if_pos hfresh]
      exact ⟨ht, hxt, hrow.trans hs.2.2⟩
    · dsimp only
      rw [if_neg hfresh]
      rw [not_or, not_lt] at hfresh
      refine wp_kept (Answers w) hxt hE (fun u _ htu hu hxu => ?_) fun answer u hu hxu hrow => ?_
      · have hlater := htu.clock
        simp only [exec]
        split
        · rename_i hstale
          exact ⟨guar_recover hu ((congrArg View.result hxu).trans hnone) hstale.1 hstale.2.1
            hstale.2.2 hfresh.2 (by omega), hxu, answers_write _⟩
        · exact ⟨(discipline digest skew).guar_refl hu, hxu, answers_none⟩
      cases answer with
      | some updated => exact ⟨hu, hxu, hrow updated rfl⟩
      | none => exact wp_reload hxu hnone hE

/-! ### Results -/

theorem persistedState_of_redemption {row : ApprovalRequest} {red : Redemption}
    (happroved : row.status = .approved) (hred : row.redemption = some red) :
    persistedState row = (redemptionState red.status, red.failureCode) := by
  unfold persistedState
  rw [happroved, hred]

theorem resultFor_of_redemption {row : ApprovalRequest} {red : Redemption}
    (happroved : row.status = .approved) (hred : row.redemption = some red) :
    resultFor row (persistedState row).1 = red.outcome := by
  rw [persistedState_of_redemption happroved hred]
  unfold resultFor
  rw [hred]
  rfl

theorem faithful_resultFor {row : ApprovalRequest} (hs : HasRead digest skew w x row s) :
    Faithful row (resultFor row (persistedState row).1) := fun red hred _ =>
  resultFor_of_redemption (hs.1.approved w row red hs.2.2 hred) hred

theorem withFailureCode_same (r : ApprovalResult) : withFailureCode r r.failureCode = r := by
  obtain ⟨state, receipt, failureCode⟩ := r
  cases failureCode <;> rfl

theorem withFailureCode_isSome {r : ApprovalResult} (h : r.failureCode.isSome = true)
    (code : Option String) : withFailureCode r code = r := by
  unfold withFailureCode
  obtain ⟨found, hfound⟩ := Option.isSome_iff_exists.mp h
  obtain ⟨state, receipt, failureCode⟩ := r
  obtain rfl : failureCode = some found := hfound
  rfl

theorem faithful_observed {row : ApprovalRequest} (hs : HasRead digest skew w x row s) :
    Faithful row (withFailureCode (resultFor row (persistedState row).1) (persistedState row).2) := by
  intro red hred _
  have happroved := hs.1.approved w row red hs.2.2 hred
  rw [resultFor_of_redemption happroved hred, persistedState_of_redemption happroved hred]
  exact withFailureCode_same red.outcome

/-- The codes that fill a missing one are for ends that have one. -/
theorem faithful_defaulted {row : ApprovalRequest} (hs : HasRead digest skew w x row s)
    (hother : ¬((persistedState row).1 = .redeemed ∨ (persistedState row).1 = .redeeming ∨
      (persistedState row).1 = .failed)) :
    Faithful row (withFailureCode
      (withFailureCode (resultFor row (persistedState row).1) (persistedState row).2)
        (defaultFailureCode (persistedState row).1)) := by
  intro red hred hterminal
  have happroved := hs.1.approved w row red hs.2.2 hred
  have hcurrent := hs.1.loaded w row red hs.2.2 hred hterminal
  have hstate : (persistedState row).1 = redemptionState red.status := by
    rw [persistedState_of_redemption happroved hred]
  have hcode : red.failureCode.isSome = true := by
    refine hs.1.codes red hcurrent ?_
    rw [hstate] at hother
    cases hstatus : red.status with
    | revoked => exact .inl rfl
    | drifted => exact .inr rfl
    | executing => exact absurd (.inr (.inl (congrArg redemptionState hstatus))) hother
    | completed => exact absurd (.inl (congrArg redemptionState hstatus)) hother
    | failed => exact absurd (.inr (.inr (congrArg redemptionState hstatus))) hother
  rw [faithful_observed hs red hred hterminal]
  exact withFailureCode_isSome hcode _

theorem HasRead.finished {row : ApprovalRequest} {r : ApprovalResult}
    (hs : HasRead digest skew w x row s) (hnone : x.result = none) (hr : Faithful row r) :
    Finished w r s :=
  ⟨(congrArg View.result hs.2.1).trans hnone, row, hs.2.2, hr⟩

/-! ### The steps under the timer -/

variable {now deadline : ℤ}

theorem Claimed.result (h : Claimed w now s) : (view w s).result = none := by
  obtain ⟨closed, effects, reported, hx⟩ := h
  rw [hx]

theorem Claimed.claim (h : Claimed w now s) : s.claim = some ⟨w, now⟩ := by
  obtain ⟨closed, effects, reported, hx⟩ := h
  exact (claim_of_own (congrArg View.own hx)).1

theorem claimed_of_claim (hnone : s.results w = none) (hclaim : s.claim = some ⟨w, now⟩) :
    Claimed w now s := by
  refine ⟨s.closed, s.effects, s.reported, ?_⟩
  have hown := own_of_claim hclaim rfl
  unfold view at hown ⊢
  rw [hnone]
  exact congrArg (View.mk none) hown

theorem During.claimed {x : Executed} (h : During w now x s) : Claimed w now s :=
  let ⟨closed, effects, hx⟩ := h
  ⟨closed, effects, some x, hx⟩

variable {closed : Bool} {effects : List Effect} {reported : Option Executed}

theorem claimed_of_view (hx : view w s = ⟨none, some (now, closed, effects, reported)⟩) :
    Claimed w now s := ⟨closed, effects, reported, hx⟩

/-- A step under the timer runs when the timer has not fired, and its answer may still be lost. -/
theorem timed_wp {o : Inner} {Q : o.Answer → Store → Prop}
    (hx : view w s = ⟨none, some (now, closed, effects, reported)⟩)
    (hstep : ∀ t env, Inv digest skew t → view w t = ⟨none, some (now, closed, effects, reported)⟩ →
      t.clock + skew w < deadline →
      (discipline digest skew).Guar w t (execInner w env o t).2 ∧
        Claimed w now (execInner w env o t).2 ∧ Q (execInner w env o t).1 (execInner w env o t).2) :
    (discipline digest skew).wp w (timed deadline o) Q (fun _ => Claimed w now) s := by
  refine wp_op fun t env hst ht => ?_
  have hxt := hst.view.trans hx
  have htick := guar_clock (w := w) ht env.elapsed
  simp only [exec]
  split
  · exact ⟨htick, claimed_of_view hxt, fun _ => claimed_of_view hxt, fun _ => claimed_of_view hxt⟩
  rename_i htimely
  obtain ⟨hguar, hafter, hQ⟩ := hstep { t with clock := t.clock + env.elapsed } env htick.1 hxt
    (not_le.mp htimely)
  refine ⟨⟨hguar.1, fun v hv => (discipline digest skew).rely_trans v _ _ _ (htick.2 v hv)
    (hguar.2 v hv)⟩, ?_, fun _ => hafter, fun _ => claimed_of_view hxt⟩
  cases env.late with
  | true => exact hafter
  | false => exact hQ

theorem gate_wp (hx : view w s = ⟨none, some (now, closed, effects, reported)⟩) :
    (discipline digest skew).wp w (timed deadline .gate)
      (fun _ t => Inv digest skew t ∧ view w t = ⟨none, some (now, closed, effects, reported)⟩)
      (fun _ => Claimed w now) s :=
  timed_wp hx fun _ _ ht hxt _ =>
    ⟨(discipline digest skew).guar_refl ht, claimed_of_view hxt, ht, hxt⟩

/-- What a claiming call knows that got a request back. -/
def HasClaimed (digest : String → String) (skew : ℕ → ℤ) (w : ℕ) (now : ℤ) (row : ApprovalRequest)
    (s : Store) : Prop :=
  Inv digest skew s ∧ Claimed w now s ∧ s.loaded w = some row

theorem HasClaimed.hasRead {row : ApprovalRequest} (hs : HasClaimed digest skew w now row s) :
    HasRead digest skew w (view w s) row s := ⟨hs.1, rfl, hs.2.2⟩

theorem load_wp (hx : view w s = ⟨none, some (now, closed, effects, reported)⟩) :
    (discipline digest skew).wp w (timed deadline .load) (HasClaimed digest skew w now)
      (fun _ => Claimed w now) s := by
  refine timed_wp hx fun t env ht hxt _ => ?_
  have hguar := guar_read ht (congrArg View.result hxt)
  exact ⟨hguar, claimed_of_view hxt, hguar.1, claimed_of_view hxt, Function.update_self _ _ _⟩

/-- The store after a write of the redemption's end. -/
theorem execPersist_spec {redemption : Ended} (ht : Claimed w now t) :
    Claimed w now (execPersist w redemption t).2 ∧ ∀ row, (execPersist w redemption t).1 = some row →
      (execPersist w redemption t).2.loaded w = some row ∧
        row.redemption = some redemption.1.stored := by
  unfold execPersist
  split
  · refine ⟨claimed_of_claim ht.result ht.claim, fun row hrow => ?_⟩
    obtain rfl := Option.some.inj hrow
    exact ⟨Function.update_self _ _ _, rfl⟩
  · exact ⟨ht, fun _ hrow => nomatch hrow⟩

/-- What the answer of such a write tells. -/
def Persisted (digest : String → String) (skew : ℕ → ℤ) (w : ℕ) (now : ℤ) (redemption : Ended)
    (answer : Option ApprovalRequest) (s : Store) : Prop :=
  Inv digest skew s ∧ Claimed w now s ∧ ∀ row, answer = some row →
    s.loaded w = some row ∧ row.redemption = some redemption.1.stored

theorem persist_wp {redemption : Ended} (hx : view w s = ⟨none, some (now, closed, effects, reported)⟩)
    (hpersistable : ∀ t, view w t = ⟨none, some (now, closed, effects, reported)⟩ →
      Persistable digest w now redemption t) :
    (discipline digest skew).wp w (timed deadline (.persist redemption))
      (Persisted digest skew w now redemption) (fun _ => Claimed w now) s := by
  refine timed_wp hx fun t env ht hxt _ => ?_
  have hclaimed : Claimed w now t := claimed_of_view hxt
  have hguar := guar_persist ht hclaimed.result hclaimed.claim (hpersistable t hxt)
  obtain ⟨hafter, hrow⟩ := @execPersist_spec _ w now redemption hclaimed
  exact ⟨hguar, hafter, hguar.1, hafter, hrow⟩

theorem execute_wp (hskew : ClocksClose skew)
    (hx : view w s = ⟨none, some (now, false, [], reported)⟩)
    (hdeadline : deadline = now + executionEffectTimeout) :
    (discipline digest skew).wp w (timed deadline .execute)
      (fun x t => Inv digest skew t ∧ During w now x t) (fun _ => Claimed w now) s := by
  refine timed_wp hx fun t env ht hxt htimely => ?_
  obtain ⟨hclaim, hclosed, hnone, -⟩ := claim_of_own (congrArg View.own hxt)
  rw [hdeadline] at htimely
  have hguar := guar_execute ht hclaim hnone (executing_of_timely hskew ht hclaim hclosed htimely)
    env.executed
  have hduring : During w now env.executed (execInner w env .execute t).2 := by
    refine ⟨t.closed, t.effects ++ [⟨w, isExecuting t.request.redemption⟩], ?_⟩
    have hresult : t.results w = none := congrArg View.result hxt
    have hown : (view w (execInner w env .execute t).2).own = some (now, t.closed,
        t.effects ++ [⟨w, isExecuting t.request.redemption⟩], some env.executed) := by
      have hsame : (execInner w env .execute t).2.claim = some ⟨w, now⟩ := hclaim
      exact own_of_claim hsame rfl
    exact congrArg₂ View.mk hresult hown
  exact ⟨hguar, hduring.claimed, hguar.1, hduring⟩

/-! ### The execution -/

theorem persistable_refusal {refusal : Refusal} {completedAt : ℤ}
    (hx : view w t = ⟨none, some (now, closed, [], reported)⟩) :
    Persistable digest w now
      ⟨⟨refusal.status, now, some completedAt, none, some refusal.failureCode⟩, refusal.ended.1⟩ t :=
  ⟨rfl, fun _ => rfl, fun hne => absurd (claim_of_own (congrArg View.own hx)).2.2.1 hne⟩

theorem persistable_unknown {completedAt : ℤ} :
    Persistable digest w now (failedWith now completedAt providerOutcomeUnknown) t := by
  refine ⟨rfl, fun h => ?_, fun _ => .inr ⟨rfl, rfl⟩⟩
  rcases h with h | h <;> cases h

theorem redemptionOf_admitted (completedAt : ℤ) (x : Executed) :
    (redemptionOf digest now completedAt x).1.admittedAt = now ∧
      (redemptionOf digest now completedAt x).1.status ≠ .revoked ∧
        (redemptionOf digest now completedAt x).1.status ≠ .drifted := by
  cases x with
  | response httpStatus body =>
    by_cases hlarge : maxReceiptResponseBytes < body.utf8ByteSize
    · unfold redemptionOf
      dsimp only
      rw [if_pos hlarge]
      exact ⟨rfl, nofun, nofun⟩
    · unfold redemptionOf
      dsimp only
      rw [if_neg hlarge]
      exact ⟨rfl, nofun, nofun⟩
  | providerOutcomeUnknown => exact ⟨rfl, nofun, nofun⟩
  | providerUnreachable => exact ⟨rfl, nofun, nofun⟩
  | error code limited => exact ⟨rfl, nofun, nofun⟩

theorem persistable_executed {x : Executed} {completedAt : ℤ}
    (hx : view w t = ⟨none, some (now, closed, effects, some x)⟩) :
    Persistable digest w now (redemptionOf digest now completedAt x) t := by
  obtain ⟨hadmitted, hrevoked, hdrifted⟩ := @redemptionOf_admitted digest now completedAt x
  refine ⟨hadmitted, fun h => ?_, fun _ => .inl ⟨x, now, completedAt, ?_, rfl⟩⟩
  · exact absurd h (not_or.mpr ⟨hrevoked, hdrifted⟩)
  · exact (claim_of_own (congrArg View.own hx)).2.2.2

theorem HasClaimed.finished {row : ApprovalRequest} {r : ApprovalResult}
    (hs : HasClaimed digest skew w now row s) (hr : Faithful row r) : Finished w r s :=
  ⟨hs.2.1.result, row, hs.2.2, hr⟩

theorem persistRefusal_wp {refusal : Refusal}
    (hx : view w s = ⟨none, some (now, closed, [], reported)⟩) :
    (discipline digest skew).wp w (persistRefusal deadline now refusal) (Finished w)
      (fun _ => Claimed w now) s := by
  refine wp_now hx (fun _ _ h => claimed_of_view h) fun completedAt t ht hxt _ _ => ?_
  refine Discipline.wp_seq ht (persist_wp hxt fun u hxu => persistable_refusal hxu)
    fun answer u hu h => ?_
  obtain ⟨-, hclaimed, hrow⟩ := h
  cases answer with
  | none => exact hclaimed
  | some updated =>
    obtain ⟨hloaded, hred⟩ := hrow updated rfl
    refine ⟨hclaimed.result, updated, hloaded, fun red hsame _ => ?_⟩
    rw [hred] at hsame
    obtain rfl := Option.some.inj hsame
    unfold resultFor
    rw [hred]
    rfl

theorem passGates_wp (gates : ℕ) (hs : Inv digest skew s)
    (hx : view w s = ⟨none, some (now, closed, [], reported)⟩) :
    (discipline digest skew).wp w (passGates deadline now gates)
      (fun answer t => match answer with
        | some result => Finished w result t
        | none => Inv digest skew t ∧ view w t = ⟨none, some (now, closed, [], reported)⟩)
      (fun _ => Claimed w now) s := by
  induction gates generalizing s with
  | zero => exact ⟨hs, hx⟩
  | succ gates ih =>
    refine Discipline.wp_seq hs (gate_wp hx) fun answer t ht h => ?_
    cases answer with
    | none => exact ih ht h.2
    | some refusal =>
      exact Discipline.wp_seq ht (persistRefusal_wp h.2) fun _ _ _ h => h

/-- The result of a request that the call read back, unless it is still executing. -/
theorem settledResult_wp {row : ApprovalRequest} {limited : Bool}
    (hs : HasClaimed digest skew w now row s) :
    (discipline digest skew).wp w (settledResult row limited) (Finished w) (fun _ => Claimed w now) s := by
  unfold settledResult
  split
  · exact hs.2.1
  split
  · exact hs.2.1
  · exact hs.finished (faithful_resultFor hs.hasRead)

theorem timedPersist_wp {bound : Bool} {redemption : Ended} (hs : Inv digest skew s)
    (hx : view w s = ⟨none, some (now, closed, effects, reported)⟩)
    (hpersistable : ∀ t, view w t = ⟨none, some (now, closed, effects, reported)⟩ →
      Persistable digest w now redemption t) :
    (discipline digest skew).wp w (timedPersistRedemptionOrLoad bound deadline redemption)
      (HasClaimed digest skew w now) (fun _ => Claimed w now) s := by
  refine Discipline.wp_seq hs (persist_wp hx hpersistable) fun answer t ht h => ?_
  obtain ⟨-, hclaimed, hrow⟩ := h
  cases answer with
  | some updated => exact ⟨ht, hclaimed, (hrow updated rfl).1⟩
  | none =>
    obtain ⟨closed, effects, reported, hxt⟩ := hclaimed
    refine Discipline.wp_seq ht (load_wp hxt) fun row u hu h => ?_
    cases bound with
    | true => exact h
    | false => exact h.2.1

theorem postClaim_wp (hskew : ClocksClose skew) {bound : Bool} (hs : Inv digest skew s)
    (hx : view w s = ⟨none, some (now, false, [], reported)⟩) :
    (discipline digest skew).wp w (postClaim digest bound (now + executionEffectTimeout) now)
      (Finished w) (fun _ => Claimed w now) s := by
  refine Discipline.wp_seq hs (passGates_wp 4 hs hx) fun answer t ht h => ?_
  cases answer with
  | some result => exact h
  | none =>
    refine Discipline.wp_seq ht (execute_wp hskew h.2 rfl) fun x u hu h => ?_
    obtain ⟨-, closed, effects, hxu⟩ := h
    refine wp_now hxu (fun _ _ h => claimed_of_view h) fun completedAt v hv hxv _ _ => ?_
    exact Discipline.wp_seq hv (timedPersist_wp hv hxv fun _ hxt => persistable_executed hxt)
      fun row t ht h => settledResult_wp h

def anyhow : AppError → Store → Prop := fun _ _ => True

theorem persistOrLoad_wp {bound : Bool} {completedAt : ℤ}
    (hx : view w s = ⟨none, some (now, closed, effects, reported)⟩) :
    (discipline digest skew).wp w
      (persistRedemptionOrLoad bound (failedWith now completedAt providerOutcomeUnknown))
      (HasClaimed digest skew w now) anyhow s := by
  refine wp_op fun u env hst hu => ?_
  have hclaimed : Claimed w now u := claimed_of_view (hst.view.trans hx)
  have hguar := guar_persist hu hclaimed.result hclaimed.claim
    (@persistable_unknown digest _ w now completedAt)
  obtain ⟨hafter, hrow⟩ :=
    @execPersist_spec _ w now (failedWith now completedAt providerOutcomeUnknown) hclaimed
  refine ⟨hguar, ?_, fun _ => trivial, fun _ => trivial⟩
  simp only [exec]
  cases hanswer : (execPersist w (failedWith now completedAt providerOutcomeUnknown) u).1 with
  | some updated => exact ⟨hguar.1, hafter, (hrow updated hanswer).1⟩
  | none =>
    obtain ⟨closed, effects, reported, hxu⟩ := hafter
    exact Discipline.wp_mono (fun row v _ h => ⟨h.1, claimed_of_view h.2.1, h.2.2⟩)
      (fun _ _ _ h => h) _ _ hguar.1 (loadBoundRequest_wp hxu rfl fun _ _ _ => trivial)

theorem timedOut_wp {bound : Bool} (hs : Claimed w now s) :
    (discipline digest skew).wp w (timedOut bound now) (Finished w) anyhow s := by
  obtain ⟨closed, effects, reported, hx⟩ := hs
  refine wp_now hx (fun _ _ _ => trivial) fun completedAt t ht hxt _ _ => ?_
  refine Discipline.wp_seq ht (persistOrLoad_wp hxt)
    fun row u hu h => Discipline.wp_mono (fun _ _ _ h => h) (fun _ _ _ _ => trivial) _ u hu (settledResult_wp h)

theorem executeClaim_wp (hskew : ClocksClose skew) {bound : Bool} (hs : Inv digest skew s)
    (hx : view w s = ⟨none, some (now, false, [], reported)⟩) :
    (discipline digest skew).wp w (executeClaim digest bound now) (Finished w) anyhow s := by
  refine Discipline.wp_try hs (postClaim_wp hskew hs hx) (fun r t _ h => h) (fun e t ht h => ?_)
  cases e with
  | elapsed => exact timedOut_wp h
  | _ => trivial

theorem reloadAfterLostRedemptionClaim_wp {bound : Bool} (hs : Inv digest skew s)
    (hx : view w s = x) (hnone : x.result = none) :
    (discipline digest skew).wp w (reloadAfterLostRedemptionClaim bound) (Finished w) anyhow s := by
  refine Discipline.wp_seq hs (loadBoundRequest_wp hx hnone fun _ _ _ => trivial) fun row t ht h => ?_
  refine Discipline.wp_seq ht (expireIfNeeded_wp h hnone fun _ _ _ => trivial) fun row u hu h => ?_
  refine Discipline.wp_seq hu (recoverStaleExecution_wp h hnone fun _ _ _ => trivial)
    fun row v hv h => ?_
  exact h.finished hnone (faithful_observed h)

/-- A call that has not claimed anything. -/
theorem wp_claim {f : Option ApprovalRequest → Code α} (hx : view w s = ⟨none, none⟩)
    (h : ∀ answer t, Inv digest skew t → (answer = none → view w t = ⟨none, none⟩) →
      (∀ row, answer = some row → ∃ reported, view w t = ⟨none, some (now, false, [], reported)⟩) →
        (discipline digest skew).wp w (f answer) Q anyhow t) :
    (discipline digest skew).wp w ((Prog.perform (.claim now)).bind f) Q anyhow s := by
  refine wp_op fun t env hst ht => ?_
  have hxt := hst.view.trans hx
  simp only [exec]
  split
  · rename_i hfree
    obtain ⟨-, hclosed, heffects⟩ := ht.unclaimed hfree.2.2
    have hguar := guar_claim ht (congrArg View.result hxt) hfree.1 hfree.2.2 now
    refine ⟨hguar, h _ _ hguar.1 nofun fun row _ => ⟨t.reported, ?_⟩, fun _ => trivial, fun _ => trivial⟩
    have hresult : t.results w = none := congrArg View.result hxt
    refine congrArg₂ View.mk hresult ?_
    rw [Option.filter_some, if_pos (decide_eq_true rfl)]
    change some (now, t.closed, t.effects, t.reported) = _
    rw [hclosed, heffects]
  · exact ⟨(discipline digest skew).guar_refl ht, h none t ht (fun _ => hxt) (fun _ hrow => nomatch hrow),
      fun _ => trivial, fun _ => trivial⟩

theorem redeemRequest_wp (hskew : ClocksClose skew) {bound authorized fenced : Bool}
    (hs : Inv digest skew s) (hx : view w s = ⟨none, none⟩) :
    (discipline digest skew).wp w (redeemRequest digest bound authorized fenced) (Finished w) anyhow s := by
  cases authorized with
  | false => trivial
  | true =>
    refine Discipline.wp_seq hs (loadBoundRequest_wp hx rfl fun _ _ _ => trivial) fun row t ht h => ?_
    cases fenced with
    | false => trivial
    | true =>
      refine Discipline.wp_seq ht (expireIfNeeded_wp h rfl fun _ _ _ => trivial) fun row u hu h => ?_
      refine Discipline.wp_seq hu (recoverStaleExecution_wp h rfl fun _ _ _ => trivial)
        fun row v hv h => ?_
      by_cases hanswered : (persistedState row).1 = .redeemed ∨ (persistedState row).1 = .redeeming ∨
          (persistedState row).1 = .failed
      · dsimp only
        rw [if_pos hanswered]
        exact h.finished rfl (faithful_resultFor h)
      dsimp only
      rw [if_neg hanswered]
      by_cases happroved : (persistedState row).1 ≠ .approved
      · rw [if_pos happroved]
        exact h.finished rfl (faithful_defaulted h hanswered)
      rw [if_neg happroved]
      refine wp_now h.2.1 (fun _ _ _ => trivial) fun now t ht hxt _ _ => ?_
      refine wp_claim hxt fun answer u hu hlost hwon => ?_
      cases answer with
      | none => exact reloadAfterLostRedemptionClaim_wp hu (hlost rfl) rfl
      | some row =>
        obtain ⟨reported, hxu⟩ := hwon row rfl
        exact executeClaim_wp hskew hu hxu

theorem observeRequest_wp {bound authorized : Bool} (hs : Inv digest skew s)
    (hx : view w s = ⟨none, none⟩) :
    (discipline digest skew).wp w (observeRequest bound authorized) (fun _ _ => True) anyhow s := by
  cases authorized with
  | false => trivial
  | true =>
    refine Discipline.wp_seq hs (loadBoundRequest_wp hx rfl fun _ _ _ => trivial) fun row t ht h => ?_
    refine Discipline.wp_seq ht (expireIfNeeded_wp h rfl fun _ _ _ => trivial) fun row u hu h => ?_
    by_cases happroved : (persistedState row).1 ≠ .approved
    · dsimp only
      rw [if_pos happroved]
      trivial
    · dsimp only
      rw [if_neg happroved]
      refine wp_kept (fun _ _ => True) h.2.1 (fun _ _ _ => trivial)
        (fun v _ _ hv hxv => ⟨(discipline digest skew).guar_refl hv, hxv, trivial⟩)
        fun refusal v hv hxv _ => ?_
      cases refusal <;> trivial

theorem sequential (digest : String → String) (hskew : ClocksClose skew) :
    (discipline digest skew).Sequential := by
  intro w call s hs hfresh
  cases call with
  | observe bound authorized =>
    exact Discipline.wp_try hs (observeRequest_wp hs hfresh) (fun _ _ _ _ => trivial)
      (fun _ _ _ _ => trivial)
  | redeem bound authorized fenced =>
    have hreport {r : Except AppError ApprovalResult} {u : Store}
        (hr : ∀ x, r = .ok x → Finished w x u) :
        (discipline digest skew).wp w (Prog.perform (.report r)) (fun _ _ => True) (fun _ _ => True) u := by
      intro t env hst ht
      have hguar := guar_report (w := w) ht r fun x hx => by
        obtain ⟨-, row, hrow, hfaithful⟩ := hr x hx
        exact ⟨row, hst.loaded.trans hrow, hfaithful⟩
      exact {
        done := fun _ => ⟨hguar, trivial⟩
        lost := fun _ => ⟨hguar, trivial⟩
        failed := fun _ => trivial
        crash := fun _ => trivial }
    refine Discipline.wp_try hs (redeemRequest_wp hskew hs hfresh) (fun r u hu h => ?_)
      (fun e u hu _ => ?_)
    · refine hreport fun x hx => ?_
      obtain rfl := Except.ok.inj hx
      exact h
    · exact hreport nofun

/-! ### Phases -/

/-- What a step may do to a redemption: claim one, end one, or leave it. -/
def Follows (before after : Option Redemption) : Prop :=
  after = before ∨ (before = none ∧ isExecuting after = true) ∨
    isExecuting before = true ∧ ∃ red, after = some red ∧ red.Terminal

theorem execPersist_follows (redemption : Ended) :
    Follows s.request.redemption (execPersist w redemption s).2.request.redemption := by
  unfold execPersist
  split
  · rename_i hexecuting
    exact .inr (.inr ⟨hexecuting, _, rfl, redemption.2⟩)
  · exact .inl rfl

theorem exec_follows {o : Op β} {env : Env} :
    Follows s.request.redemption (exec skew w env o s).2.request.redemption := by
  cases o with
  | expire status now =>
    simp only [exec]
    split <;> exact .inl rfl
  | claim now =>
    simp only [exec]
    split
    · rename_i hfree
      exact .inr (.inl ⟨hfree.2.2, rfl⟩)
    · exact .inl rfl
  | recover admittedAt now =>
    simp only [exec]
    split
    · rename_i hstale
      exact .inr (.inr ⟨hstale.2.1, _, rfl, nofun⟩)
    · exact .inl rfl
  | persist redemption => exact execPersist_follows redemption
  | timed deadline o =>
    simp only [exec]
    split
    · exact .inl rfl
    · cases o with
      | persist redemption => exact @execPersist_follows { s with clock := s.clock + env.elapsed } w redemption
      | _ => exact .inl rfl
  | now => exact .inl rfl
  | load => exact .inl rfl
  | authority => exact .inl rfl
  | report r => exact .inl rfl

theorem next_follows (c : (machine digest skew).Config) (ch : (machine digest skew).Choice) :
    let s : Store := c.store
    let t : Store := (c.next ch).store
    Follows s.request.redemption t.request.redemption := by
  intro s t
  cases ch with
  | spawn call => exact .inl rfl
  | step w env out =>
    unfold t Config.next
    dsimp only
    split
    · rename_i p _
      cases p with
      | ret r => exact .inl rfl
      | call o k =>
        cases out with
        | done => exact exec_follows
        | lost => exact exec_follows
        | failed => exact .inl rfl
        | crash => exact .inl rfl
    · exact .inl rfl

theorem inv_start (status : RequestStatus) (expiresAt clock : ℤ) :
    Inv digest skew (start status expiresAt clock) where
  claimed _ h := nomatch h
  unclaimed _ := ⟨rfl, rfl, rfl⟩
  codes _ h := nomatch h
  ended _ h := nomatch h
  effects := ⟨Nat.zero_le 1, fun _ h => nomatch h⟩
  settled hne := absurd rfl hne
  loaded _ _ _ h := nomatch h
  approved _ _ _ h := nomatch h
  results _ _ h := nomatch h

/-- An exact approval runs at most once and answers with the end that was stored first. -/
theorem exact_approval_once (digest : String → String) (hskew : ClocksClose skew)
    (status : RequestStatus) (expiresAt clock : ℤ) {c : (machine digest skew).Config}
    (hc : Reaches anyStep (start status expiresAt clock) c) :
    let s : Store := c.store
    s.effects.length ≤ 1 ∧ (∀ e ∈ s.effects, e.executing = true) ∧
    (∀ ch, let t : Store := (c.next ch).store
      Follows s.request.redemption t.request.redemption) ∧
    (∀ w r, s.results w = some (.ok r) → ∃ row, s.loaded w = some row ∧
      ∀ red, row.redemption = some red → red.Terminal →
        s.request.redemption = some red ∧ r = red.outcome) ∧
    (s.effects ≠ [] → ∀ red, s.request.redemption = some red → red.Terminal →
      (∃ x now completedAt, s.reported = some x ∧
        red = (redemptionOf digest now completedAt x).1.stored) ∨
        red.status = .failed ∧ red.failureCode = some providerOutcomeUnknown) := by
  have hinv : Inv digest skew c.store := ((sequential digest hskew).sound
    (inv_start status expiresAt clock) (fun _ => rfl) hc).inv
  intro s
  refine ⟨hinv.effects.1, hinv.effects.2, next_follows c, fun w r hr => ?_, hinv.settled⟩
  obtain ⟨row, hrow, hfaithful⟩ := hinv.results w r hr
  exact ⟨row, hrow, fun red hred hterminal =>
    ⟨hinv.loaded w row red hrow hred hterminal, hfaithful red hred hterminal⟩⟩

/-! ### Reads and clocks on the edge -/

def quietly (elapsed : ℕ) : Env := ⟨elapsed, false, none, .response 200 "done"⟩

/-- A call executes; another reads the request meanwhile. -/
def overtaken : List (machine id fun _ => 0).Choice :=
  [.spawn (.redeem true true true), .spawn (.redeem true true true)] ++
    List.replicate 11 (.step 0 (quietly 0) .done) ++
      [.step 1 (quietly 0) .done, .step 0 (quietly 0) .done]

/-- The second clock is ahead by half a millisecond less than five minutes. -/
def ahead (w : ℕ) : ℤ := if w = 1 then 299999500000 else 0

/-- The first call is admitted in the middle of a millisecond; the second recovers before its effect. -/
def recovered : List (machine id ahead).Choice :=
  [.spawn (.redeem true true true), .spawn (.redeem true true true)] ++
    List.replicate 3 (.step 0 (quietly 0) .done) ++ [.step 0 (quietly 900000) .done] ++
      List.replicate 5 (.step 0 (quietly 0) .done) ++
        [.step 1 (quietly 0) .done, .step 1 (quietly 599999700000) .done, .step 1 (quietly 0) .done,
          .step 0 (quietly 0) .done]

theorem late_reads_and_clocks :
    (let s : Store := (run (start .approved nanosPerSecond 0) overtaken).store
     let t : Store := (run (start .approved nanosPerSecond 0)
       (overtaken ++ List.replicate 2 (.step 1 (quietly 0) .done))).store
     (s.request.redemption.map Redemption.status = some .completed ∧ s.results 1 = none) ∧
       t.request.redemption.map Redemption.status = some .completed ∧
         (t.results 1).map (·.toOption.map ApprovalResult.state) = some (some .redeeming)) ∧
    (let s : Store := (run (start .approved nanosPerSecond 0) recovered).store
     |ahead 1 - ahead 0| < 300 * nanosPerSecond ∧ s.effects = [⟨0, false⟩] ∧
       s.request.redemption.bind Redemption.failureCode = some providerOutcomeUnknown) :=
  ⟨⟨⟨rfl, rfl⟩, rfl, rfl⟩, by decide, rfl, rfl⟩

/-- One effect in the first of these runs, although two calls redeem. -/
theorem exact_approval_once_overtaken :
    let s : Store := (run (start .approved nanosPerSecond 0) overtaken).store
    s.effects.length ≤ 1 :=
  have hclose : ClocksClose fun _ => 0 := fun _ _ => (by decide : (0 : ℤ) - 0 ≤ _)
  (exact_approval_once id hclose .approved nanosPerSecond 0 (reaches_run _ overtaken)).1

end NyxId.ExactApproval
