import NyxId.DeviceCodes.Invariant

/-!
One device code under any number of approvals and polls: it is approved once and delivered once, as
long as no expiry mark falls on a row that was approved or delivered meanwhile.
-/

namespace NyxId.DeviceCodes

open Interleave Machine

variable {verify : DeviceCodePollInput → Bool} {s t : Store} {w : ℕ}
variable {α β : Type} {Q : α → Store → Prop} {E : AppError → Store → Prop}

/-! ### The calls -/

/-- A call that stored no approval and holds nothing. -/
structure View.Unowned (x : View) : Prop where
  key : x.key = false
  node : x.node = false
  result : x.result = none
  won : x.won = none

theorem View.Unowned.settled {x : View} (h : x.Unowned) : x.Settled w := by
  refine ⟨?_, fun hwon => ?_⟩
  · rintro (hkey | hnode)
    · rw [h.key] at hkey
      cases hkey
    · rw [h.node] at hnode
      cases hnode
  · rw [h.won] at hwon
    cases hwon

theorem View.unowned_fresh : View.fresh.Unowned := ⟨rfl, rfl, rfl, rfl⟩

/-- An expiry mark of one's own, in any state of the row. -/
theorem wp_markExpired {f : Unit → Code α} {x : View} (hx : view w s = x)
    (h : ∀ t, Inv verify t → view w t = x → (discipline verify).wp w (f ()) Q E t) :
    (discipline verify).wp w ((Prog.perform .markExpired).bind f) Q E s := by
  refine wp_op fun t env hst ht hmark => ?_
  have hguar : (discipline verify).Guar w t _ := guar_markExpired ht (hmark trivial)
  exact ⟨hguar, h _ hguar.1 (hst.view.trans hx)⟩

theorem ensureRowApprovable_wp {row : DeviceCode} {now : ℤ} {x : View} (hs : Inv verify s)
    (hx : view w s = x) (hE : ∀ e t, Inv verify t → view w t = x → E e t) :
    (discipline verify).wp w (ensureRowApprovable row now) (fun _ t => Inv verify t ∧ view w t = x) E s := by
  unfold ensureRowApprovable
  split
  · exact wp_markExpired hx fun t ht hxt => hE _ t ht hxt
  · split
    · exact ⟨hs, hx⟩
    all_goals exact hE _ s hs hx

/-- The removal of the node and of the key that a call created. -/
theorem cleanup_wp {x : View} (hx : view w s = x) :
    (discipline verify).wp w (cleanupPartialApproval (some w) (some w))
      (fun _ t => Inv verify t ∧ view w t = { x with key := false, node := false }) E s := by
  refine wp_tried fun t env hst ht _ => ?_
  have hguar := guar_nodes (w := w) ht false
  refine ⟨hguar, ?_⟩
  have hxt : view w { t with nodes := Function.update t.nodes w false } = { x with node := false } := by
    rw [view_nodes, hst.view, hx]
  refine wp_tried fun u env hst hu _ => ?_
  have hguar := guar_keys (w := w) hu none
  refine ⟨hguar, hguar.1, ?_⟩
  change view w { u with keys := Function.update u.keys w none } = _
  have hxu : view w u = { x with node := false } := hst.view.trans hxt
  rw [view_keys, hxu]
  rfl

/-- An approval that was stored, with its key and its node still there. -/
def Won (w : ℕ) (r : DeviceCodeApprove) (s : Store) : Prop :=
  r = ⟨w, w⟩ ∧ ∃ a, s.approval = some a ∧ a.caller = w ∧ view w s = ⟨true, true, none, some a, false⟩

def Clean (w : ℕ) (s : Store) : Prop := view w s = .fresh

/-- Removing what was created leaves nothing of the call. -/
theorem fail_after_cleanup_wp {key node : Bool} {e : AppError} (hs : Inv verify s)
    (hx : view w s = ⟨key, node, none, none, false⟩) :
    (discipline verify).wp w ((cleanupPartialApproval (some w) (some w)).bind fun _ => Prog.fail e) Q
      (fun _ => Clean w) s :=
  Discipline.wp_seq hs (cleanup_wp hx) fun _ _ _ h => h.2

/-- The key provider changes nothing. -/
theorem withEncryptionKeys_wp (secret : String) :
    (discipline verify).wp w (withEncryptionKeys secret) (fun r t => r = secret ∧ Rely w s t)
      (fun _ t => Rely w s t) s := by
  refine wp_op fun t env hst ht _ => ⟨(discipline verify).guar_refl ht, ?_⟩
  simp only [exec]
  cases env.refused with
  | none => exact ⟨rfl, hst⟩
  | some e => exact hst

theorem storeApproval_wp {input : DeviceCodeApproveInput} {row : DeviceCode} {created : CreatedKey}
    {secrets : Secrets} (hid : created.id = w) (hx : view w s = ⟨true, true, none, none, false⟩) :
    (discipline verify).wp w (storeApproval input row created secrets) (Won w) (fun _ => Clean w) s := by
  refine wp_quiet (by trivial) hx fun now t ht hxt => ?_
  refine wp_tried fun u env hst hu _ => ?_
  have hxu := hst.view.trans hxt
  simp only [exec]
  split
  · rename_i hpending
    have hguar : (discipline verify).Guar w u _ := guar_storeApproval hu
      { u.row with
        status := .approved
        approvedByUserId := some input.actorUserId
        approvedOrgId := input.orgId
        issuedApiKeyId := some w
        issuedNodeId := some w
        deliveryApiKey := some secrets.apiKey
        deliveryRefreshToken := some secrets.refreshToken
        expiresAt := now + deliveryExpiresInMs }
      ⟨w, secrets, now + deliveryExpiresInMs⟩ rfl hpending.1 rfl rfl rfl rfl
    refine ⟨hguar, ?_⟩
    rw [hid]
    refine ⟨rfl, _, rfl, rfl, ?_⟩
    have hkey := congrArg View.key hxu
    have hnode := congrArg View.node hxu
    have hresult := congrArg View.result hxu
    have hclaimed := congrArg View.claimed hxu
    simp only [view, Option.filter_some, decide_true, if_true] at hkey hnode hresult hclaimed ⊢
    rw [hkey, hnode, hresult, hclaimed]
  · refine ⟨(discipline verify).guar_refl hu, ?_⟩
    rw [hid]
    by_cases hexpired : row.expiresAt ≤ now
    · rw [if_pos hexpired]
      exact fail_after_cleanup_wp hu hxu
    · rw [if_neg hexpired]
      exact fail_after_cleanup_wp hu hxu

theorem commitApproval_wp {input : DeviceCodeApproveInput} {row : DeviceCode} {created : CreatedKey}
    (hid : created.id = w) (hx : view w s = ⟨true, true, none, none, false⟩) :
    (discipline verify).wp w (commitApproval input row created) (Won w) (fun _ => Clean w) s := by
  refine wp_quiet (by trivial) hx fun refreshToken t ht hxt => ?_
  refine Discipline.wp_try ht (withEncryptionKeys_wp created.fullKey) (fun key u hu h => ?_)
    (fun e u hu h => ?_)
  · have hxu := h.2.view.trans hxt
    refine Discipline.wp_try hu (withEncryptionKeys_wp refreshToken) (fun token v hv h => ?_)
      (fun e v hv h => ?_)
    · exact storeApproval_wp hid (h.2.view.trans hxu)
    · rw [hid]
      exact fail_after_cleanup_wp hv (h.view.trans hxu)
  · rw [hid]
    exact fail_after_cleanup_wp hu (h.view.trans hxt)

theorem approve_wp (input : DeviceCodeApproveInput) (hx : view w s = .fresh) :
    (discipline verify).wp w (approve input) (Won w) (fun _ => Clean w) s := by
  refine wp_quiet (by trivial) hx fun now t ht hxt => ?_
  refine wp_quiet (by trivial) hxt fun row t ht hxt => ?_
  cases row with
  | none => exact hxt
  | some row =>
    refine Discipline.wp_seq ht (ensureRowApprovable_wp ht hxt fun _ _ _ h => h) fun _ u hu h => ?_
    refine wp_quiet (by trivial) h.2 fun refused v hv hxv => ?_
    cases refused with
    | some e => exact hxv
    | none =>
      refine wp_op fun t env hst ht _ => ?_
      have hguar := guar_keys (w := w) ht (some ⟨false, []⟩)
      refine ⟨hguar, ?_⟩
      have hxt : view w { t with keys := Function.update t.keys w (some ⟨false, []⟩) } =
          { View.fresh with key := true } := by
        rw [view_keys, hst.view, hxv]
        rfl
      refine wp_tried fun u env' hst hu _ => ?_
      have hguar := guar_nodes (w := w) hu true
      refine ⟨hguar, ?_⟩
      have hxu : view w { u with nodes := Function.update u.nodes w true } =
          ⟨true, true, none, none, false⟩ := by
        have hxu : view w u = { View.fresh with key := true } := hst.view.trans hxt
        rw [view_nodes, hxu]
        rfl
      refine wp_quiet_tried (by trivial) hxu fun matched v hv hxv => ?_
      cases matched with
      | true => exact commitApproval_wp rfl hxv
      | false => exact fail_after_cleanup_wp hv hxv

/-! ### Polls -/

/-- A delivery that a call with a valid signature claimed. -/
def Delivered (verify : DeviceCodePollInput → Bool) (w : ℕ) (input : DeviceCodePollInput)
    (r : DeviceCodePoll) (s : Store) : Prop :=
  (view w s).Unowned ∧ ∀ secrets nodeId, r = .approved secrets nodeId →
    s.claimed = some w ∧ verify input = true ∧ ∃ a, s.approval = some a ∧ a.secrets = secrets

def Polling (w : ℕ) (s : Store) : Prop := (view w s).Unowned

variable {input : DeviceCodePollInput} {x : View}

theorem polling_of_view (hx : view w s = x) (h : x.Unowned) : Polling w s := by
  unfold Polling
  rw [hx]
  exact h

theorem rotateAndPersist_wp {row : DeviceCode} {timestamp : Int64} {now : ℤ} (attempts : ℕ) (hx : view w s = x)
    (h : x.Unowned) : (discipline verify).wp w (rotateAndPersistPendingPoll row timestamp now attempts)
      (Delivered verify w input) (fun _ => Polling w) s := by
  induction attempts generalizing s with
  | zero => exact polling_of_view hx h
  | succ attempts ih =>
    refine wp_quiet (by trivial) hx fun newCode t ht hxt => ?_
    cases rotateUserCodeIfNeeded row now newCode with
    | error e => exact polling_of_view hxt h
    | ok rotated =>
      refine wp_quiet (by trivial) hxt fun stored u hu hxu => ?_
      cases stored with
      | true => exact ⟨polling_of_view hxu h, nofun⟩
      | false => exact ih hxu

theorem recordSignatureFailure_wp {now : ℤ} (hx : view w s = x) :
    (discipline verify).wp w (recordSignatureFailure now) (fun _ t => Inv verify t ∧ view w t = x) E s := by
  refine wp_quiet (by trivial) hx fun failures t ht hxt => ?_
  by_cases hfew : failures < signatureFailureLockThreshold
  · rw [if_pos hfew]
    exact ⟨ht, hxt⟩
  · rw [if_neg hfew]
    exact wp_quiet (by trivial) hxt fun _ u hu hxu => ⟨hu, hxu⟩

theorem recordPubkeySignatureFailure_wp {now : ℤ} (hx : view w s = x)
    (hE : ∀ e t, view w t = x → E e t) :
    (discipline verify).wp w (recordPubkeySignatureFailure now)
      (fun _ t => Inv verify t ∧ view w t = x) E s := by
  refine wp_quiet (by trivial) hx fun updated t ht hxt => ?_
  by_cases hdone : isLocked updated.lockedUntil now ∨
      updated.failedPollCount < signatureFailureLockThreshold
  · rw [if_pos hdone]
    exact ⟨ht, hxt⟩
  · rw [if_neg hdone]
    refine wp_quiet (by trivial) hxt fun locked u hu hxu => ?_
    cases locked with
    | some locked => exact ⟨hu, hxu⟩
    | none =>
      refine wp_quiet (by trivial) hxu fun found v hv hxv => ?_
      cases found with
      | some found => exact ⟨hv, hxv⟩
      | none => exact hE _ v hxv

theorem view_claim (row : DeviceCode) :
    view w { s with row := row, claimed := some w } = { view w s with claimed := true } := by
  simp only [view, decide_true]

/-- A claimed row is opened, or the key provider refuses; the claim and the approval stay. -/
theorem openDelivery_wp {row : DeviceCode} {a : Approval} (hs : Inv verify s)
    (hx : view w s = ⟨false, false, none, none, true⟩) (ha : s.approval = some a)
    (hkey : row.deliveryApiKey = some a.secrets.apiKey)
    (htoken : row.deliveryRefreshToken = some a.secrets.refreshToken) (hverify : verify input = true) :
    (discipline verify).wp w (openDelivery row) (Delivered verify w input) (fun _ => Polling w) s := by
  have hpolling {t : Store} (hst : Rely w s t) : Polling w t :=
    polling_of_view (hst.view.trans hx) ⟨rfl, rfl, rfl, rfl⟩
  unfold openDelivery
  rw [hkey, htoken]
  refine Discipline.wp_bind hs (Discipline.wp_mono (fun key t ht h => ?_) (fun e t ht h => ?_) _ s hs
    (withEncryptionKeys_wp a.secrets.apiKey))
  · obtain ⟨rfl, hst⟩ := h
    refine Discipline.wp_bind ht (Discipline.wp_mono (fun token u hu h => ?_) (fun e u hu h => ?_) _ t ht
      (withEncryptionKeys_wp a.secrets.refreshToken))
    · obtain ⟨rfl, htu⟩ := h
      have hsu : Rely w s u := (discipline verify).rely_trans w s t u hst htu
      cases row.issuedNodeId with
      | none => exact hpolling hsu
      | some nodeId =>
        refine ⟨hpolling hsu, fun secrets node hsame => ?_⟩
        obtain ⟨rfl, -⟩ := DeviceCodePoll.approved.inj hsame
        have hclaimed : decide (u.claimed = some w) = true :=
          congrArg View.claimed (hsu.view.trans hx)
        exact ⟨of_decide_eq_true hclaimed, hverify, a, hsu.approval a ha, rfl⟩
    · exact hpolling ((discipline verify).rely_trans w s t u hst h)
  · exact hpolling h

theorem deliver_wp {row : DeviceCode} {timestamp : Int64} {now : ℤ} (hx : view w s = .fresh)
    (hverify : verify input = true) : (discipline verify).wp w (deliver row timestamp now)
      (Delivered verify w input) (fun _ => Polling w) s := by
  unfold deliver
  cases row.issuedApiKeyId with
  | none => exact polling_of_view hx View.unowned_fresh
  | some keyId =>
    refine wp_quiet (by trivial) hx fun key t ht hxt => ?_
    cases key with
    | none => exact polling_of_view hxt View.unowned_fresh
    | some key =>
      refine wp_op fun u env hst hu _ => ?_
      have hxu := hst.view.trans hxt
      simp only [exec]
      split
      · rename_i happroved
        obtain ⟨a, ha⟩ := hu.issued (.inl happroved)
        obtain ⟨-, -, hkey, htoken⟩ := hu.approved a ha happroved
        have hguar {row : DeviceCode} (hrow : row.status = .delivered) :=
          guar_claim (w := w) hu row happroved hrow
        have hclaimed (row : DeviceCode) : view w { u with row := row, claimed := some w } =
            { View.fresh with claimed := true } := by
          rw [view_claim, hxu]
        exact ⟨hguar rfl, openDelivery_wp (hguar rfl).1 (hclaimed _) ha hkey htoken hverify⟩
      · exact ⟨(discipline verify).guar_refl hu, polling_of_view hxu View.unowned_fresh⟩

theorem poll_wp (input : DeviceCodePollInput) (hx : view w s = .fresh) :
    (discipline verify).wp w (poll verify input) (Delivered verify w input) (fun _ => Polling w) s := by
  have hpolling {t : Store} (hxt : view w t = .fresh) : Polling w t :=
    polling_of_view hxt View.unowned_fresh
  refine wp_quiet (by trivial) hx fun now t ht hxt => ?_
  refine wp_quiet (by trivial) hxt fun row t ht hxt => ?_
  by_cases hdelivered : row.status = .delivered
  · rw [if_pos hdelivered]
    exact hpolling hxt
  rw [if_neg hdelivered]
  by_cases hexpired : row.expiresAt ≤ now ∨ row.status = .expired
  · rw [if_pos hexpired]
    exact wp_markExpired hxt fun u hu hxu => hpolling hxu
  rw [if_neg hexpired]
  refine wp_quiet (by trivial) hxt fun lockout u hu hxu => ?_
  by_cases hlocked : (lockout.any fun lockout => isLocked lockout.lockedUntil now) = true
  · rw [if_pos hlocked]
    exact hpolling hxu
  rw [if_neg hlocked]
  cases verifyPollTimestamp row input.timestamp now with
  | some e => exact hpolling hxu
  | none =>
    by_cases hverify : verify input = false
    · dsimp only
      rw [if_pos hverify]
      refine Discipline.wp_seq hu (recordSignatureFailure_wp hxu) fun _ t ht h => ?_
      refine Discipline.wp_seq ht (recordPubkeySignatureFailure_wp h.2 fun _ _ hxt => hpolling hxt)
        fun lockout v hv h => ?_
      by_cases hnow : isLocked lockout.lockedUntil now = true
      · rw [if_pos hnow]
        exact hpolling h.2
      · rw [if_neg hnow]
        exact hpolling h.2
    · dsimp only
      rw [if_neg hverify]
      refine wp_quiet (by trivial) hxu fun _ v hv hxv => ?_
      cases row.status with
      | pending => exact rotateAndPersist_wp _ hxv View.unowned_fresh
      | approved => exact deliver_wp hxv (Bool.eq_true_of_not_eq_false hverify)
      | denied => exact hpolling hxv
      | expired => exact hpolling hxv
      | delivered => exact hpolling hxv

/-! ### All calls together -/

theorem reportable_settled {r : Result} (hw : ∀ x, r = .approve (.ok x) → Won w x s)
    (hother : (∀ x, r ≠ .approve (.ok x)) → (view w s).Unowned) :
    (view w { s with results := Function.update s.results w (some r) }).Settled w := by
  have hview : view w { s with results := Function.update s.results w (some r) } =
      { view w s with result := some r } := by
    simp only [view, Function.update_self]
  rw [hview]
  by_cases hr : ∃ x, r = .approve (.ok x)
  · obtain ⟨x, rfl⟩ := hr
    obtain ⟨rfl, a, -, -, hview⟩ := hw x rfl
    rw [hview]
    exact ⟨fun _ => rfl, fun _ => ⟨rfl, rfl, rfl⟩⟩
  · obtain ⟨hkey, hnode, -, hwon⟩ := hother fun x hx => hr ⟨x, hx⟩
    refine ⟨?_, fun h => ?_⟩
    · rintro (h | h)
      · rw [hkey] at h
        cases h
      · rw [hnode] at h
        cases h
    · rw [hwon] at h
      cases h

/-- What a call knows of itself when it reports stays so while the others run. -/
theorem report_wp {r : Result}
    (h : ∀ t, Rely w s t → Inv verify t → Reportable verify w t r ∧
      (view w { t with results := Function.update t.results w (some r) }).Settled w) :
    (discipline verify).wp w (Prog.perform (.report r)) (fun _ t => (view w t).Settled w)
      (fun _ t => (view w t).Settled w) s := fun t _ hst ht =>
  { done := fun _ => ⟨guar_report ht (h t hst ht).1, (h t hst ht).2⟩
    lost := fun hc => nomatch hc.1
    failed := fun hc => nomatch hc.1
    crash := fun hc => nomatch hc.1 }

theorem Won.stable {r : DeviceCodeApprove} (h : Won w r s) (hst : Rely w s t) : Won w r t := by
  obtain ⟨hr, a, ha, hcaller, hview⟩ := h
  exact ⟨hr, a, hst.approval a ha, hcaller, hst.view.trans hview⟩

theorem sequential (verify : DeviceCodePollInput → Bool) : (discipline verify).Sequential := by
  intro w call s hs hfresh
  cases call with
  | approve input =>
    refine Discipline.wp_try hs (approve_wp input hfresh) (fun r u hu h => ?_) (fun e u hu h => ?_)
    · refine report_wp fun t hst ht => ?_
      have hwon := h.stable hst
      obtain ⟨hr, a, ha, hcaller, -⟩ := hwon
      refine ⟨⟨⟨a, ha, hcaller⟩, hr⟩, reportable_settled (fun x hx => ?_) fun hne => absurd rfl (hne r)⟩
      obtain rfl := Except.ok.inj (Result.approve.inj hx)
      exact h.stable hst
    · refine report_wp fun t hst ht => ⟨trivial, reportable_settled (fun x hx => ?_) fun _ => ?_⟩
      · cases hx
      · exact polling_of_view (hst.view.trans h) View.unowned_fresh
  | poll input =>
    refine Discipline.wp_try hs (poll_wp input hfresh) (fun r u hu h => ?_) (fun e u hu h => ?_)
    · obtain ⟨hunowned, hdelivered⟩ := h
      refine report_wp fun t hst ht => ⟨?_, reportable_settled (fun x hx => ?_) fun _ => ?_⟩
      · cases r with
        | pending current => trivial
        | approved secrets nodeId =>
          obtain ⟨hclaimed, hverify, a, ha, hsecrets⟩ := hdelivered secrets nodeId rfl
          refine ⟨?_, hverify, a, hst.approval a ha, hsecrets⟩
          have hsame := congrArg View.claimed hst.view
          change decide (t.claimed = some w) = decide (u.claimed = some w) at hsame
          rw [decide_eq_true hclaimed] at hsame
          exact of_decide_eq_true hsame
      · cases hx
      · exact polling_of_view hst.view hunowned
    · refine report_wp fun t hst ht => ⟨trivial, reportable_settled (fun x hx => ?_) fun _ => ?_⟩
      · cases hx
      · exact polling_of_view hst.view h

/-- A row for which nothing was approved. -/
def Unissued (row : DeviceCode) : Prop := row.status ≠ .approved ∧ row.status ≠ .delivered

theorem inv_start {row : DeviceCode} (hrow : Unissued row) (lockout : Option DevicePubkeyLockout)
    (clock : ℤ) : Inv verify (start row lockout clock) := by
  refine ⟨?_, nofun, nofun, nofun, nofun, fun h => absurd h hrow.2, nofun, nofun⟩
  rintro (h | h)
  · exact absurd h hrow.1
  · exact absurd h hrow.2

/-- An approval that was stored stays stored, and a claimed delivery stays claimed. -/
theorem exec_keeps {β : Type} {o : Op β} {env : Env} (hs : Inv verify s) :
    (∀ a, s.approval = some a → (exec w env o s).2.approval = some a) ∧
      (s.claimed.isSome = true → (exec w env o s).2.claimed.isSome = true) := by
  by_cases ho : o.Quiet
  · have hquiet : Quiet s (exec w env o s).2 := exec_quiet ho env
    rw [hquiet.approval, hquiet.claimed]
    exact ⟨fun _ h => h, id⟩
  · cases o with
    | storeApproval input now secrets =>
      simp only [exec]
      split
      · rename_i hpending
        exact ⟨fun a ha => absurd hpending.1 (hs.decided a ha), id⟩
      · exact ⟨fun _ h => h, id⟩
    | claimApprovedDelivery now timestamp =>
      simp only [exec]
      split
      · exact ⟨fun _ h => h, fun _ => rfl⟩
      · exact ⟨fun _ h => h, id⟩
    | markExpired => exact ⟨fun _ h => h, id⟩
    | createApiKey => exact ⟨fun _ h => h, id⟩
    | createNode => exact ⟨fun _ h => h, id⟩
    | deleteNode id => exact ⟨fun _ h => h, fun h => h⟩
    | deleteKey id => exact ⟨fun _ h => h, fun h => h⟩
    | report r => exact ⟨fun _ h => h, id⟩
    | _ => exact absurd trivial ho

theorem next_keeps {c : (machine verify).Config} (hs : Inv verify c.store)
    (ch : (machine verify).Choice) : let s : Store := c.store
    let t : Store := (c.next ch).store
    (∀ a, s.approval = some a → t.approval = some a) ∧
      (s.claimed.isSome = true → t.claimed.isSome = true) := by
  intro s t
  cases ch with
  | spawn call => exact ⟨fun _ h => h, id⟩
  | step w env out =>
    unfold t Config.next
    dsimp only
    split
    · rename_i p _
      cases p with
      | ret r => exact ⟨fun _ h => h, id⟩
      | call o k =>
        cases out with
        | done => exact exec_keeps hs
        | lost => exact exec_keeps hs
        | failed => exact ⟨fun _ h => h, id⟩
        | crash => exact ⟨fun _ h => h, id⟩
    · exact ⟨fun _ h => h, id⟩

/-- A device code is approved once and delivered once in every run whose expiry marks fall on rows
that they may expire. -/
theorem device_code_once (verify : DeviceCodePollInput → Bool) {row : DeviceCode}
    (hrow : Unissued row) (lockout : Option DevicePubkeyLockout) (clock : ℤ)
    {c : (machine verify).Config} (hc : Reaches (Timely verify) (start row lockout clock) c) :
    let s : Store := c.store
    (∀ w v r r', s.results w = some (.approve (.ok r)) → s.results v = some (.approve (.ok r')) → w = v) ∧
    ((∀ w, w < c.tasks.length → c.tasks[w]? = some none) → ∀ w,
      ((s.keys w).isSome = true ↔ s.results w = some (.approve (.ok ⟨w, w⟩))) ∧
      (s.nodes w = true ↔ s.results w = some (.approve (.ok ⟨w, w⟩)))) ∧
    (∀ w v input input' secrets secrets' node node',
      s.results w = some (.poll input (.ok (.approved secrets node))) →
      s.results v = some (.poll input' (.ok (.approved secrets' node'))) → w = v) ∧
    (∀ w input secrets node, s.results w = some (.poll input (.ok (.approved secrets node))) →
      verify input = true ∧ ∃ a, s.approval = some a ∧ a.secrets = secrets) ∧
    (∀ a, s.approval = some a → s.row.status ≠ .pending ∧ (s.clock < a.deliveryExpiresAt →
      s.row.status = .approved ∨ s.row.status = .delivered)) ∧
    ∀ ch, c.Admits (Timely verify) ch →
      let t : Store := (c.next ch).store
      (∀ a, s.approval = some a → t.approval = some a) ∧
        (s.row.status = .delivered → t.row.status = .delivered) := by
  have hsound := (sequential verify).sound (inv_start hrow lockout clock) (fun _ => rfl) hc
  have hinv : Inv verify c.store := hsound.inv
  intro s
  refine ⟨fun w v r r' hw hv => ?_, fun hreturned w => ?_,
    fun w v input input' secrets secrets' node node' hw hv => ?_, fun w input secrets node hw => ?_,
    fun a ha => ⟨hinv.decided a ha, hinv.window a ha⟩, fun ch hch => ?_⟩
  · obtain ⟨⟨a, ha, hcaller⟩, -⟩ := hinv.succeeded w r hw
    obtain ⟨⟨b, hb, hcaller'⟩, -⟩ := hinv.succeeded v r' hv
    rw [ha] at hb
    obtain rfl := Option.some.inj hb
    exact hcaller.symm.trans hcaller'
  · have hsettled : (view w s).Settled w := by
      by_cases hw : w < c.tasks.length
      · exact hsound.idle w (hreturned w hw)
      · have hfresh : view w s = .fresh := hsound.fresh w (not_lt.mp hw)
        rw [hfresh]
        exact View.unowned_fresh.settled
    have hkept (h : (view w s).key = true ∨ (view w s).node = true) :
        s.results w = some (.approve (.ok ⟨w, w⟩)) := (hsettled.2 (hsettled.1 h)).2.2
    have hwon (h : s.results w = some (.approve (.ok ⟨w, w⟩))) :
        (view w s).key = true ∧ (view w s).node = true := by
      obtain ⟨⟨a, ha, hcaller⟩, -⟩ := hinv.succeeded w _ h
      have hsome : (view w s).won.isSome = true := by
        change (s.approval.filter fun b => decide (b.caller = w)).isSome = true
        rw [ha, Option.filter_some, if_pos (decide_eq_true hcaller)]
        rfl
      exact ⟨(hsettled.2 hsome).1, (hsettled.2 hsome).2.1⟩
    exact ⟨⟨fun h => hkept (.inl h), fun h => (hwon h).1⟩, ⟨fun h => hkept (.inr h), fun h => (hwon h).2⟩⟩
  · obtain ⟨hclaimed, -⟩ := hinv.returned w input secrets node hw
    obtain ⟨hclaimed', -⟩ := hinv.returned v input' secrets' node' hv
    exact Option.some.inj (hclaimed.symm.trans hclaimed')
  · exact (hinv.returned w input secrets node hw).2
  · have hnext := (sequential verify).sound (inv_start hrow lockout clock) (fun _ => rfl)
      (.next ch hc hch)
    have hinv' : Inv verify (c.next ch).store := hnext.inv
    obtain ⟨happroval, hclaimed⟩ := next_keeps hinv ch
    refine ⟨happroval, fun hdelivered => ?_⟩
    obtain ⟨v, hv⟩ := Option.isSome_iff_exists.mp (hclaimed (hinv.delivered hdelivered))
    exact hinv'.claimed v hv

/-- A code about to expire. -/
def doorbell : DeviceCode where
  userCodeHistory := [⟨"ABCD", 0⟩]
  status := .pending
  approvedByUserId := none
  approvedOrgId := none
  issuedApiKeyId := none
  issuedNodeId := none
  deliveryApiKey := none
  deliveryRefreshToken := none
  failedPollCount := 0
  lockedUntil := none
  expiresAt := 900000
  lastPolledAt := none
  lastPollTimestamp := none
  lastRotatedAt := 0

def anySignature : DeviceCodePollInput → Bool := fun _ => true

def after (elapsed : ℕ) : Env := ⟨elapsed, "s-1", none, false⟩

/-- An approval up to its return and then two polls, which both read the approved row before one of
them claims its delivery. -/
def approvedAndPolled : List (machine anySignature).Choice :=
  [.spawn (.approve ⟨"u-1", "ABCD", none⟩), .spawn (.poll ⟨899, []⟩), .spawn (.poll ⟨900, []⟩)] ++
    List.replicate 13 (.step 0 (after 0) .done) ++
      List.replicate 2 (.step 1 (after 0) .done) ++ List.replicate 10 (.step 2 (after 0) .done) ++
        List.replicate 6 (.step 1 (after 0) .done)

theorem doorbell_approved_once :
    let s : Store := (run (start doorbell none 899000) approvedAndPolled).store
    s.results 0 = some (.approve (.ok ⟨0, 0⟩)) ∧ (s.keys 0).isSome = true ∧
      s.results 1 = some (.poll ⟨899, []⟩ (.error .deviceCodeAlreadyDelivered)) ∧
      s.results 2 = some (.poll ⟨900, []⟩ (.ok (.approved ⟨"s-1", "s-1"⟩ 0))) ∧
      ∀ w input secrets node, s.results w = some (.poll input (.ok (.approved secrets node))) → w = 2 := by
  have hc : Reaches (Timely anySignature) (start doorbell none 899000)
      (run (start doorbell none 899000) approvedAndPolled) := by
    refine Reaches.start.schedule ?_
    repeat first
      | exact trivial
      | refine And.intro trivial ?_
      | refine And.intro (And.intro rfl fun h => h.elim) ?_
  obtain ⟨-, hkeys, hdelivered, -⟩ := device_code_once anySignature ⟨by decide, by decide⟩ none 899000 hc
  refine ⟨rfl, ((hkeys ?_ 0).1).mpr rfl, rfl, rfl, fun w input secrets node hw =>
    hdelivered w 2 input ⟨900, []⟩ secrets ⟨"s-1", "s-1"⟩ node 0 hw rfl⟩
  intro w hw
  have htasks : (run (start doorbell none 899000) approvedAndPolled).tasks = [none, none, none] := rfl
  rw [htasks] at hw ⊢
  have hw : w = 0 ∨ w = 1 ∨ w = 2 := by
    change w < 3 at hw
    omega
  rcases hw with rfl | rfl | rfl <;> rfl

/-- A poll reads the row as it expires, the approval that began before is stored, and the poll marks
the row. -/
def lateMark : List (machine anySignature).Choice :=
  [.spawn (.approve ⟨"u-1", "ABCD", none⟩), .spawn (.poll ⟨900, []⟩)] ++
    List.replicate 10 (.step 0 (after 0) .done) ++
      [.step 1 (after 1000) .done, .step 1 (after 0) .done] ++
        List.replicate 3 (.step 0 (after 0) .done) ++ List.replicate 3 (.step 1 (after 0) .done)

theorem late_mark_expires_approval :
    let s : Store := (run (start doorbell none 899000) lateMark).store
    s.approval.map (·.deliveryExpiresAt) = some (899000 + deliveryExpiresInMs) ∧ s.clock = 900000 ∧
      s.row.status = .expired ∧ s.results 0 = some (.approve (.ok ⟨0, 0⟩)) ∧
        (s.keys 0).isSome = true ∧ (run (start doorbell none 899000) lateMark).tasks = [none, none] :=
  ⟨rfl, rfl, rfl, rfl, rfl, rfl⟩

end NyxId.DeviceCodes
