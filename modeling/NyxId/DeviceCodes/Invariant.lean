import NyxId.DeviceCodes.Model

/-!
What holds of a device code's row whoever writes it, and what each operation does to it.
-/

namespace NyxId.DeviceCodes

open Interleave Machine

variable {verify : DeviceCodePollInput → Bool} {s t : Store} {w : ℕ}

/-- The rows on which an expiry mark does no harm. -/
def Store.Expirable (s : Store) : Prop :=
  s.row.status ≠ .delivered ∧ (s.row.status = .approved → s.row.expiresAt ≤ s.clock)

def Op.Marks {β : Type} : Op β → Prop
  | .markExpired => True
  | _ => False

/-- Every operation succeeds, and an expiry mark finds a row that it may expire. -/
def Timely (verify : DeviceCodePollInput → Bool) : (machine verify).Cond :=
  fun _ _ _ out (o : Op _) s => out = .done ∧ (o.Marks → Store.Expirable s)

/-! ### The invariant -/

/-- What is a call's own. -/
structure View where
  key : Bool
  node : Bool
  result : Option Result
  won : Option Approval
  claimed : Bool

def view (w : ℕ) (s : Store) : View :=
  ⟨(s.keys w).isSome, s.nodes w, s.results w, s.approval.filter (·.caller = w),
    decide (s.claimed = some w)⟩

/-- A call that has done nothing yet. -/
def View.fresh : View := ⟨false, false, none, none, false⟩

structure Inv (verify : DeviceCodePollInput → Bool) (s : Store) : Prop where
  issued : s.row.status = .approved ∨ s.row.status = .delivered → ∃ a, s.approval = some a
  decided : ∀ a, s.approval = some a → s.row.status ≠ .pending
  window : ∀ a, s.approval = some a → s.clock < a.deliveryExpiresAt →
    s.row.status = .approved ∨ s.row.status = .delivered
  approved : ∀ a, s.approval = some a → s.row.status = .approved → s.claimed = none ∧
    s.row.expiresAt = a.deliveryExpiresAt ∧ s.row.deliveryApiKey = some a.secrets.apiKey ∧
      s.row.deliveryRefreshToken = some a.secrets.refreshToken
  claimed : ∀ w, s.claimed = some w → s.row.status = .delivered
  delivered : s.row.status = .delivered → s.claimed.isSome = true
  succeeded : ∀ w r, s.results w = some (.approve (.ok r)) →
    (∃ a, s.approval = some a ∧ a.caller = w) ∧ r = ⟨w, w⟩
  returned : ∀ w input secrets nodeId,
    s.results w = some (.poll input (.ok (.approved secrets nodeId))) →
      s.claimed = some w ∧ verify input = true ∧ ∃ a, s.approval = some a ∧ a.secrets = secrets

structure Rely (w : ℕ) (s t : Store) : Prop where
  view : view w t = view w s
  approval : ∀ a, s.approval = some a → t.approval = some a

/-- A finished call has left the key and the node of the approval that it stored, or nothing. -/
def View.Settled (w : ℕ) (x : View) : Prop :=
  (x.key = true ∨ x.node = true → x.won.isSome = true) ∧
    (x.won.isSome = true → x.key = true ∧ x.node = true ∧ x.result = some (.approve (.ok ⟨w, w⟩)))

def discipline (verify : DeviceCodePollInput → Bool) : Discipline (machine verify) where
  Cond := Timely verify
  Inv := Inv verify
  Rely := Rely
  Idle w s := (view w s).Settled w
  Fresh w s := view w s = .fresh
  rely_refl _ _ := ⟨rfl, fun _ h => h⟩
  rely_trans _ _ _ _ h h' := ⟨h'.view.trans h.view, fun a ha => h'.approval a (h.approval a ha)⟩
  idle_stable _ _ _ h hidle := by rw [h.view]; exact hidle
  fresh_stable _ _ _ h hfresh := h.view.trans hfresh

/-! ### Operations that leave the approval alone -/

/-- What most operations leave as it is. -/
structure Quiet (s t : Store) : Prop where
  status : t.row.status = s.row.status
  expiresAt : t.row.expiresAt = s.row.expiresAt
  deliveryApiKey : t.row.deliveryApiKey = s.row.deliveryApiKey
  deliveryRefreshToken : t.row.deliveryRefreshToken = s.row.deliveryRefreshToken
  keys : ∀ v, (t.keys v).isSome = (s.keys v).isSome
  nodes : t.nodes = s.nodes
  results : t.results = s.results
  approval : t.approval = s.approval
  claimed : t.claimed = s.claimed
  clock : s.clock ≤ t.clock

def Op.Quiet {β : Type} : Op β → Prop
  | .markExpired | .createApiKey | .createNode | .storeApproval .. | .deleteNode _ | .deleteKey _ => False
  | .claimApprovedDelivery .. | .report _ => False
  | _ => True

theorem Quiet.refl (s : Store) : Quiet s s :=
  ⟨rfl, rfl, rfl, rfl, fun _ => rfl, rfl, rfl, rfl, rfl, le_rfl⟩

theorem exec_quiet {β : Type} {o : Op β} (ho : o.Quiet) (env : Env) : Quiet s (exec w env o s).2 := by
  cases o with
  | now => exact ⟨rfl, rfl, rfl, rfl, fun _ => rfl, rfl, rfl, rfl, rfl, by simp only [exec]; omega⟩
  | scopeKeyToNode key node =>
    simp only [exec]
    split
    · exact .refl s
    · rename_i found hfound
      refine ⟨rfl, rfl, rfl, rfl, fun v => ?_, rfl, rfl, rfl, rfl, le_rfl⟩
      by_cases hv : v = key
      · subst hv
        change (Function.update s.keys v _ v).isSome = _
        rw [Function.update_self, hfound]
        rfl
      · change (Function.update s.keys key _ v).isSome = _
        rw [Function.update_of_ne hv]
  | lockRow now =>
    simp only [exec]
    split <;> exact ⟨rfl, rfl, rfl, rfl, fun _ => rfl, rfl, rfl, rfl, rfl, le_rfl⟩
  | lockPubkey now =>
    simp only [exec]
    split
    · exact .refl s
    · split <;> exact ⟨rfl, rfl, rfl, rfl, fun _ => rfl, rfl, rfl, rfl, rfl, le_rfl⟩
  | persistSuccessfulPoll fields =>
    simp only [exec]
    split <;> exact ⟨rfl, rfl, rfl, rfl, fun _ => rfl, rfl, rfl, rfl, rfl, le_rfl⟩
  | findByUserCode code => exact .refl s
  | findRow => exact .refl s
  | resolve => exact .refl s
  | random => exact .refl s
  | encryptionKeys => exact .refl s
  | findLockout => exact .refl s
  | recordSignatureFailure now => exact ⟨rfl, rfl, rfl, rfl, fun _ => rfl, rfl, rfl, rfl, rfl, le_rfl⟩
  | recordPubkeyFailure => exact ⟨rfl, rfl, rfl, rfl, fun _ => rfl, rfl, rfl, rfl, rfl, le_rfl⟩
  | resetPubkeyLockout => exact ⟨rfl, rfl, rfl, rfl, fun _ => rfl, rfl, rfl, rfl, rfl, le_rfl⟩
  | findKey id => exact .refl s
  | _ => exact ho.elim

theorem Quiet.view (h : Quiet s t) (w : ℕ) : view w t = view w s := by
  unfold DeviceCodes.view
  rw [h.keys, h.nodes, h.results, h.approval, h.claimed]

theorem Quiet.inv (h : Quiet s t) (hs : Inv verify s) : Inv verify t := by
  have hclock := h.clock
  refine ⟨?_, ?_, fun a ha hlt => ?_, ?_, ?_, ?_, ?_, ?_⟩
  · rw [h.status, h.approval]
    exact hs.issued
  · rw [h.status, h.approval]
    exact hs.decided
  · rw [h.approval] at ha
    rw [h.status]
    exact hs.window a ha (by omega)
  · rw [h.status, h.approval, h.claimed, h.expiresAt, h.deliveryApiKey, h.deliveryRefreshToken]
    exact hs.approved
  · rw [h.status, h.claimed]
    exact hs.claimed
  · rw [h.status, h.claimed]
    exact hs.delivered
  · rw [h.results, h.approval]
    exact hs.succeeded
  · rw [h.results, h.approval, h.claimed]
    exact hs.returned

theorem Quiet.guar (h : Quiet s t) (hs : Inv verify s) : (discipline verify).Guar w s t :=
  ⟨h.inv hs, fun v _ => ⟨h.view v, fun _ ha => h.approval.trans ha⟩⟩

/-! ### One operation of a call -/

variable {α β : Type} {Q : α → Store → Prop} {E : AppError → Store → Prop}

theorem wp_op {o : Op β} {f : β → Code α}
    (h : ∀ t env, Rely w s t → Inv verify t → (o.Marks → t.Expirable) →
      (discipline verify).Guar w t (exec w env o t).2 ∧
        (discipline verify).wp w (f (exec w env o t).1) Q E (exec w env o t).2) :
    (discipline verify).wp w ((Prog.perform o).bind f) Q E s := fun t env hst ht =>
  { done := fun hc => h t env hst ht hc.2
    lost := fun hc => nomatch hc.1
    failed := fun hc => nomatch hc.1
    crash := fun hc => nomatch hc.1 }

theorem wp_tried {o : Op β} {f : Except AppError β → Code α}
    (h : ∀ t env, Rely w s t → Inv verify t → (o.Marks → t.Expirable) →
      (discipline verify).Guar w t (exec w env o t).2 ∧
        (discipline verify).wp w (f (.ok (exec w env o t).1)) Q E (exec w env o t).2) :
    (discipline verify).wp w ((Prog.perform o).attempt.bind f) Q E s := fun t env hst ht =>
  { done := fun hc => h t env hst ht hc.2
    lost := fun hc => nomatch hc.1
    failed := fun hc => nomatch hc.1
    crash := fun hc => nomatch hc.1 }

theorem wp_quiet {o : Op β} (ho : o.Quiet) {f : β → Code α} {x : View} (hx : view w s = x)
    (h : ∀ r t, Inv verify t → view w t = x → (discipline verify).wp w (f r) Q E t) :
    (discipline verify).wp w ((Prog.perform o).bind f) Q E s := by
  refine wp_op fun t env hst ht _ => ?_
  have hquiet : Quiet t (exec w env o t).2 := exec_quiet ho env
  exact ⟨hquiet.guar ht, h _ _ (hquiet.inv ht) ((hquiet.view w).trans (hst.view.trans hx))⟩

theorem wp_quiet_tried {o : Op β} (ho : o.Quiet) {f : Except AppError β → Code α} {x : View}
    (hx : view w s = x)
    (h : ∀ r t, Inv verify t → view w t = x → (discipline verify).wp w (f (.ok r)) Q E t) :
    (discipline verify).wp w ((Prog.perform o).attempt.bind f) Q E s := by
  refine wp_tried fun t env hst ht _ => ?_
  have hquiet : Quiet t (exec w env o t).2 := exec_quiet ho env
  exact ⟨hquiet.guar ht, h _ _ (hquiet.inv ht) ((hquiet.view w).trans (hst.view.trans hx))⟩

/-! ### The other operations -/

theorem view_update_keys {v : ℕ} (hv : v ≠ w) (key : Option ApiKey) :
    view v { s with keys := Function.update s.keys w key } = view v s := by
  simp only [view, Function.update_of_ne hv]

theorem view_update_nodes {v : ℕ} (hv : v ≠ w) (node : Bool) :
    view v { s with nodes := Function.update s.nodes w node } = view v s := by
  simp only [view, Function.update_of_ne hv]

theorem view_keys (key : Option ApiKey) : view w { s with keys := Function.update s.keys w key } =
    { view w s with key := key.isSome } := by
  simp only [view, Function.update_self]

theorem view_nodes (node : Bool) : view w { s with nodes := Function.update s.nodes w node } =
    { view w s with node := node } := by
  simp only [view, Function.update_self]

/-- Creating and removing one's own key disturbs nobody. -/
theorem guar_keys (hs : Inv verify s) (key : Option ApiKey) :
    (discipline verify).Guar w s { s with keys := Function.update s.keys w key } :=
  ⟨⟨hs.issued, hs.decided, hs.window, hs.approved, hs.claimed, hs.delivered, hs.succeeded, hs.returned⟩,
    fun _ hv => ⟨view_update_keys hv key, fun _ h => h⟩⟩

theorem guar_nodes (hs : Inv verify s) (node : Bool) :
    (discipline verify).Guar w s { s with nodes := Function.update s.nodes w node } :=
  ⟨⟨hs.issued, hs.decided, hs.window, hs.approved, hs.claimed, hs.delivered, hs.succeeded, hs.returned⟩,
    fun _ hv => ⟨view_update_nodes hv node, fun _ h => h⟩⟩

/-- An expiry mark on a row that it may expire leaves every window alone. -/
theorem guar_markExpired (hs : Inv verify s) (hexpirable : s.Expirable) :
    (discipline verify).Guar w s { s with row := { s.row with status := .expired } } := by
  refine ⟨⟨?_, fun a ha => ?_, fun a ha hlt => ?_, fun a ha => ?_, fun v hv => ?_, nofun,
    hs.succeeded,
    hs.returned⟩, fun v _ => ⟨rfl, fun _ h => h⟩⟩
  · rintro (h | h) <;> cases h
  · exact nofun
  · rcases hs.window a ha hlt with happroved | hdelivered
    · have hexpires := hexpirable.2 happroved
      obtain ⟨-, hsame, -⟩ := hs.approved a ha happroved
      rw [hsame] at hexpires
      exact absurd hlt (not_lt.mpr hexpires)
    · exact absurd hdelivered hexpirable.1
  · exact nofun
  · exact absurd (hs.claimed v hv) hexpirable.1

/-- An approval is stored on a row that has none. -/
theorem guar_storeApproval (hs : Inv verify s) (row : DeviceCode) (a : Approval) (hw : a.caller = w)
    (hpending : s.row.status = .pending) (hstatus : row.status = .approved)
    (hexpires : row.expiresAt = a.deliveryExpiresAt) (hkey : row.deliveryApiKey = some a.secrets.apiKey)
    (htoken : row.deliveryRefreshToken = some a.secrets.refreshToken) :
    (discipline verify).Guar w s { s with row := row, approval := some a } := by
  have hnone : s.approval = none := by
    by_contra hne
    obtain ⟨b, hb⟩ := Option.ne_none_iff_exists'.mp hne
    exact hs.decided b hb hpending
  have hunclaimed : s.claimed = none := by
    by_contra hne
    obtain ⟨v, hv⟩ := Option.ne_none_iff_exists'.mp hne
    have hdelivered := hs.claimed v hv
    rw [hpending] at hdelivered
    cases hdelivered
  refine ⟨⟨fun _ => ⟨a, rfl⟩, fun b _ => ?_, fun b _ _ => .inl hstatus, fun b hb _ => ?_,
    fun v hv => ?_, fun h => ?_, fun v r hr => ?_, fun v input secrets nodeId hr => ?_⟩,
    fun v hv => ⟨?_, fun b hb => ?_⟩⟩
  · rw [hstatus]
    exact nofun
  · obtain rfl := Option.some.inj hb
    exact ⟨hunclaimed, hexpires, hkey, htoken⟩
  · rw [hunclaimed] at hv
    cases hv
  · rw [hstatus] at h
    cases h
  · obtain ⟨⟨b, hb, -⟩, -⟩ := hs.succeeded v r hr
    rw [hnone] at hb
    cases hb
  · have hclaimed := (hs.returned v input secrets nodeId hr).1
    rw [hunclaimed] at hclaimed
    cases hclaimed
  · unfold view
    have hother : (some a).filter (fun b => decide (b.caller = v)) = none := by
      rw [Option.filter_some, if_neg]
      rw [decide_eq_true_iff, hw]
      exact fun h => hv h.symm
    rw [hother, hnone]
    rfl
  · rw [hnone] at hb
    cases hb

/-- The delivery of an approved row is claimed by one call, which gets the row's secrets. -/
theorem guar_claim (hs : Inv verify s) (row : DeviceCode) (happroved : s.row.status = .approved)
    (hstatus : row.status = .delivered) :
    (discipline verify).Guar w s { s with row := row, claimed := some w } := by
  obtain ⟨a, ha⟩ := hs.issued (.inl happroved)
  have hunclaimed := (hs.approved a ha happroved).1
  refine ⟨⟨fun _ => ⟨a, ha⟩, fun b _ => ?_, fun b _ _ => .inr hstatus, fun b _ h => ?_,
    fun _ _ => hstatus, fun _ => rfl, hs.succeeded, fun v input secrets nodeId hr => ?_⟩,
    fun v hv => ⟨?_, fun _ h => h⟩⟩
  · rw [hstatus]
    exact nofun
  · rw [hstatus] at h
    cases h
  · have hclaimed := (hs.returned v input secrets nodeId hr).1
    rw [hunclaimed] at hclaimed
    cases hclaimed
  · unfold view
    rw [hunclaimed, decide_eq_false (fun h => hv (Option.some.inj h).symm : ¬some w = some v)]
    rfl

theorem view_report_ne {v : ℕ} (hv : v ≠ w) (r : Result) :
    view v { s with results := Function.update s.results w (some r) } = view v s := by
  simp only [view, Function.update_of_ne hv]

/-- What a call may report: the approval that it stored, the delivery that it claimed. -/
def Reportable (verify : DeviceCodePollInput → Bool) (w : ℕ) (s : Store) : Result → Prop
  | .approve (.ok r) => (∃ a, s.approval = some a ∧ a.caller = w) ∧ r = ⟨w, w⟩
  | .poll input (.ok (.approved secrets _)) =>
    s.claimed = some w ∧ verify input = true ∧ ∃ a, s.approval = some a ∧ a.secrets = secrets
  | _ => True

theorem guar_report (hs : Inv verify s) {r : Result} (hr : Reportable verify w s r) :
    (discipline verify).Guar w s { s with results := Function.update s.results w (some r) } := by
  refine ⟨⟨hs.issued, hs.decided, hs.window, hs.approved, hs.claimed, hs.delivered, fun v r' hr' => ?_,
    fun v input secrets nodeId hr' => ?_⟩, fun v hv => ⟨view_report_ne hv r, fun _ h => h⟩⟩
  · rcases update_cases hr' with ⟨rfl, rfl⟩ | ⟨-, hr'⟩
    · exact hr
    · exact hs.succeeded v r' hr'
  · rcases update_cases hr' with ⟨rfl, rfl⟩ | ⟨-, hr'⟩
    · exact hr
    · exact hs.returned v input secrets nodeId hr'

end NyxId.DeviceCodes
