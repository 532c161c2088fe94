import NyxId.DurableGrants.Writes

/-!
Durable operations are spent once per operation, within the quota of their grant.
-/

namespace NyxId.DurableGrants

open Interleave Machine

variable {latest : ℤ} {s t : Store} {w : ℕ}

theorem Rely.refl (w : ℕ) (s : Store) : Rely w s s :=
  ⟨.refl s, fun _ h _ => h, fun _ h _ => h, fun h => h⟩

theorem Rely.trans {u : Store} (h : Rely w s t) (h' : Rely w t u) : Rely w s u :=
  ⟨h.evolves.trans h'.evolves, fun c hmem hc => h.claims c (h'.claims c hmem hc) hc,
    fun r hmem hr => h.returns r (h'.returns r hmem hr) hr, fun hnone => h'.fresh (h.fresh hnone)⟩

def discipline (latest : ℤ) : Discipline (machine latest) where
  Cond := anyStep
  Inv := Inv latest
  Rely := Rely
  Idle _ _ := True
  Fresh w s := s.executions.lookup w = none
  rely_refl := Rely.refl
  rely_trans _ _ _ _ := Rely.trans
  idle_stable _ _ _ _ h := h
  fresh_stable _ _ _ hst h := hst.fresh h

/-- How a worker may end: with any error, anywhere. -/
def anyhow {α : Type} : α → Store → Prop := fun _ _ => True

/-- An operation writes as a worker may, or not at all. -/
def Steps (latest : ℤ) (w : ℕ) (s t : Store) : Prop := t = s ∨ Writes latest w s t

theorem Steps.guar (h : Steps latest w s t) (hs : Inv latest s) : (discipline latest).Guar w s t := by
  rcases h with rfl | h
  · exact (discipline latest).guar_refl hs
  · exact ⟨h.inv hs, fun v hv => h.rely hv⟩

def Stable (w : ℕ) (R : Store → Prop) : Prop := ∀ s t, Rely w s t → R s → R t

variable {α β : Type} {Q : α → Store → Prop}

/-- An operation of a worker that has something to count on. -/
theorem wp_operation {R : Store → Prop} (hstable : Stable w R) {o : Op β} {f : β → Code α}
    (hs : R s) (h : ∀ t env, Inv latest t → R t → Steps latest w t (exec w env o t).2 ∧
      (discipline latest).wp w (f (exec w env o t).1) Q anyhow (exec w env o t).2) :
    (discipline latest).wp w ((Prog.perform o).bind f) Q anyhow s := by
  intro t env hst ht
  have hR := hstable s t hst hs
  exact {
    done := fun _ => ⟨(h t env ht hR).1.guar ht, (h t env ht hR).2⟩
    lost := fun _ => ⟨(h t env ht hR).1.guar ht, trivial⟩
    failed := fun _ => trivial
    crash := fun _ => trivial }

/-- An operation whose errors the worker ignores. -/
theorem wp_ignored {R : Store → Prop} (hstable : Stable w R) {o : Op β} (hs : R s)
    (h : ∀ t env, Inv latest t → R t → Steps latest w t (exec w env o t).2) :
    (discipline latest).wp w ((Prog.perform o).attempt.bind fun _ => pure ()) anyhow anyhow s := by
  intro t env hst ht
  have hR := hstable s t hst hs
  exact {
    done := fun _ => ⟨(h t env ht hR).guar ht, trivial⟩
    lost := fun _ => ⟨(h t env ht hR).guar ht, trivial⟩
    failed := fun _ => trivial
    crash := fun _ => trivial }

/-! ### What a worker knows -/

/-- The execution is the worker's and nothing was claimed for it or returned. -/
structure Mine (w : ℕ) (grantId operationId : String) (s : Store) : Prop where
  owns : Owns s w grantId operationId
  unclaimed : ∀ c, .claimed c ∈ s.history → c.execution ≠ w
  unreturned : ∀ r, .returned r ∈ s.history → r.execution ≠ w

structure Quoted (w : ℕ) (grantId operationId : String) (s : Store) : Prop where
  owns : Owns s w grantId operationId
  claimed : ClaimedBy s w grantId
  unreturned : ∀ r, .returned r ∈ s.history → r.execution ≠ w

/-- A grant that was read: the stored one is it, unless it has a later version. -/
def Seen (grantId : String) (grant : DurableOperationGrant) (s : Store) : Prop :=
  ∃ found, s.grants.lookup grantId = some found ∧ grant.stateVersion ≤ found.stateVersion ∧
    (found.stateVersion = grant.stateVersion → found = grant)

def Returned (id : ℕ) (s : Store) : Prop := ∃ r, .returned r ∈ s.history ∧ r.execution = id

variable {grantId operationId : String}

theorem Mine.stable : Stable w (Mine w grantId operationId) := fun _ _ hst h =>
  ⟨h.owns.evolves hst.evolves, fun c hmem hc => h.unclaimed c (hst.claims c hmem hc) hc,
    fun r hmem hr => h.unreturned r (hst.returns r hmem hr) hr⟩

theorem Quoted.stable : Stable w (Quoted w grantId operationId) := fun _ _ hst h =>
  ⟨h.owns.evolves hst.evolves, h.claimed.evolves hst.evolves,
    fun r hmem hr => h.unreturned r (hst.returns r hmem hr) hr⟩

theorem Seen.evolves {grant : DurableOperationGrant} (h : Seen grantId grant s) (hst : Evolves s t) :
    Seen grantId grant t := by
  obtain ⟨found, hfound, hle, hsame⟩ := h
  obtain ⟨found', hfound', hle', hsame', -⟩ := hst.grants grantId found hfound
  refine ⟨found', hfound', hle.trans hle', fun hversion => ?_⟩
  have hfirst : found' = found := hsame' (by omega)
  subst hfirst
  exact hsame hversion

theorem stable_true : Stable w fun _ => True := fun _ _ _ h => h

theorem Returned.stable {id : ℕ} : Stable w (Returned id) := fun _ _ hst h =>
  h.imp fun _ hr => ⟨hst.evolves.history _ hr.1, hr.2⟩

/-! ### The operations -/

theorem move_steps {id : ℕ} {before : List DurableExecutionStatus} {after : DurableExecutionStatus}
    (env : Env) (hallowed : ∀ status ∈ before, Allowed status after)
    (hheld : after = .dispatched → Returned id s) :
    Steps latest w s (exec w env (.move id before after) s).2 := by
  simp only [exec]
  split
  · rename_i execution hexecution
    split
    · rename_i hstatus
      exact Or.inr (.move hexecution (hallowed _ hstatus) hheld)
    · exact Or.inl rfl
  · exact Or.inl rfl

theorem revoke_steps {userId apiKeyId : String} (env : Env) :
    Steps latest w s (exec w env (.revoke grantId userId apiKeyId) s).2 := by
  simp only [exec]
  split
  · rename_i grant hgrant
    split
    · exact Or.inr (.revoke hgrant)
    · exact Or.inl rfl
  · exact Or.inl rfl

/-- A claim whose version still matches is one that the quota check let through. -/
theorem claim_steps {grant : DurableOperationGrant} {now : ℤ} {start : Option ℤ} {used : ℕ}
    (env : Env) (hnext : nextWindow latest grant now = .ok (start, used))
    (hmine : Mine w grantId operationId s) (hseen : Seen grantId grant s) :
    Steps latest w s (exec w env (.claim grantId grant.stateVersion now start used) s).2 ∧
    ((exec w env (.claim grantId grant.stateVersion now start used) s).1 = true →
      Quoted w grantId operationId (exec w env (.claim grantId grant.stateVersion now start used) s).2) ∧
    ((exec w env (.claim grantId grant.stateVersion now start used) s).1 = false →
      Mine w grantId operationId (exec w env (.claim grantId grant.stateVersion now start used) s).2) := by
  obtain ⟨found, hfound, -, hsame⟩ := hseen
  simp only [exec]
  rw [hfound]
  dsimp only
  split
  · rename_i hclaimable
    obtain rfl := hsame hclaimable.1
    have hwrites : Writes latest w s (s.claim ⟨w, grantId, now, start, used⟩ found) :=
      .claim hfound hclaimable.2 (nextWindow_ok hnext) ⟨operationId, hmine.owns⟩ hmine.unclaimed
    refine ⟨Or.inr hwrites, fun _ => ⟨hmine.owns, ⟨_, List.mem_cons_self, rfl, rfl⟩, fun r hmem => ?_⟩,
      fun h => nomatch h⟩
    exact hmine.unreturned r ((List.mem_cons.mp hmem).resolve_left nofun)
  · exact ⟨Or.inl rfl, (nomatch ·), fun _ => hmine⟩

theorem executionOf_isNone {x : DurableOperationExecution}
    (h : s.executionOf x.grantId x.operationId = none) (id : ℕ) : ¬Owns s id x.grantId x.operationId := by
  rintro ⟨execution, hexecution, hgrant, hoperation⟩
  unfold Store.executionOf at h
  rw [Option.map_eq_none_iff, List.find?_eq_none] at h
  have hnone := h ⟨id, execution⟩ (AList.mem_lookup_iff.mp hexecution)
  simp [hgrant, hoperation] at hnone

theorem insert_steps {x : DurableOperationExecution} (env : Env) (hs : Inv latest s)
    (h : s.executions.lookup w = none) :
    Steps latest w s (exec w env (.insert x) s).2 ∧ ((exec w env (.insert x) s).1 = true →
      Mine w x.grantId x.operationId (exec w env (.insert x) s).2) := by
  simp only [exec]
  split
  · exact ⟨Or.inl rfl, fun h => nomatch h⟩
  · rename_i hnone
    rw [not_or, Option.not_isSome_iff_eq_none] at hnone
    have hwrites : Writes latest w s { s with executions := s.executions.insert w x } :=
      .insert h (executionOf_isNone hnone.1)
    refine ⟨Or.inr hwrites, fun _ => ⟨⟨x, AList.lookup_insert _, rfl, rfl⟩, ?_, ?_⟩⟩
    · rintro c hmem rfl
      obtain ⟨-, execution, hexecution, -⟩ := hs.happened _ hmem
      rw [h] at hexecution
      cases hexecution
    · rintro r hmem rfl
      obtain ⟨⟨execution, hexecution, -⟩, -⟩ := hs.happened _ hmem
      rw [h] at hexecution
      cases hexecution

/-! ### The code -/

theorem claimQuota_wp {now : ℤ} (attempts : ℕ) (hs : Mine w grantId operationId s) :
    (discipline latest).wp w (claimQuota latest grantId now attempts)
      (fun _ => Quoted w grantId operationId) anyhow s := by
  induction attempts generalizing s with
  | zero => trivial
  | succ attempts ih =>
    refine wp_operation Mine.stable hs fun t env ht hmine => ⟨Or.inl rfl, ?_⟩
    dsimp only [exec]
    cases hgrant : t.grants.lookup grantId with
    | none => trivial
    | some grant =>
      dsimp only
      split
      · trivial
      · rename_i start used hnext
        have hknown : Mine w grantId operationId t ∧ Seen grantId grant t :=
          ⟨hmine, grant, hgrant, le_refl _, fun _ => rfl⟩
        refine wp_operation (R := fun s => Mine w grantId operationId s ∧ Seen grantId grant s)
          (fun s t hst h => ⟨Mine.stable s t hst h.1, h.2.evolves hst.evolves⟩) hknown
          fun u env' hu hboth => ?_
        obtain ⟨hsteps, htrue, hfalse⟩ := claim_steps env' hnext hboth.1 hboth.2
        refine ⟨hsteps, ?_⟩
        split
        · rename_i hclaimed
          exact htrue hclaimed
        · rename_i hlost
          exact ih (hfalse (Bool.eq_false_iff.mpr hlost))

theorem rejectExecution_wp {id : ℕ} :
    (discipline latest).wp w (rejectExecution id) anyhow anyhow s :=
  wp_ignored stable_true trivial fun t env _ _ => move_steps env
    (fun status hmem => by rw [List.mem_singleton.mp hmem]; exact .reject) nofun

theorem reserve_wp {request : Request} {now : ℤ} (hs : Inv latest s)
    (h : Mine w request.grantId request.operationId s) :
    (discipline latest).wp w (reserve latest w request now) anyhow anyhow s := by
  refine Discipline.wp_try hs (claimQuota_wp maxCasAttempts h) (fun _ u hu hquoted => ?_)
    (fun e u hu _ => ?_)
  · intro v env hrely hv
    have hkept := Quoted.stable u v hrely hquoted
    have hwrites : Writes latest w v _ := .give hkept.owns hkept.claimed hkept.unreturned
    exact {
      done := fun _ => ⟨Steps.guar (Or.inr hwrites) hv, trivial⟩
      lost := fun _ => ⟨Steps.guar (Or.inr hwrites) hv, trivial⟩
      failed := fun _ => trivial
      crash := fun _ => trivial }
  · exact Discipline.wp_seq hu rejectExecution_wp fun _ _ _ _ => trivial

/-- An operation that only reads. -/
theorem wp_read {R : Store → Prop} (hstable : Stable w R) {o : Op β} {f : β → Code α}
    (hread : ∀ t env, (exec w env o t).2 = t) (hs : R s)
    (h : ∀ t env, Inv latest t → R t →
      (discipline latest).wp w (f (exec w env o t).1) Q anyhow t) :
    (discipline latest).wp w ((Prog.perform o).bind f) Q anyhow s := by
  refine wp_operation hstable hs fun t env ht hR => ⟨Or.inl (hread t env), ?_⟩
  rw [hread t env]
  exact h t env ht hR

def Unspawned (w : ℕ) (s : Store) : Prop := s.executions.lookup w = none

theorem Unspawned.stable : Stable w (Unspawned w) := fun _ _ hst h => hst.fresh h

theorem authorizeAndReserve_wp {request : Request} (hs : Unspawned w s) :
    (discipline latest).wp w (authorizeAndReserve latest w request) anyhow anyhow s := by
  unfold authorizeAndReserve
  split
  · trivial
  split
  · trivial
  split
  · trivial
  refine wp_read Unspawned.stable (fun _ _ => rfl) hs fun t env _ ht => ?_
  split
  · trivial
  refine wp_read Unspawned.stable (fun _ _ => rfl) ht fun t env _ ht => ?_
  split
  · trivial
  split
  · trivial
  split
  · trivial
  refine wp_read Unspawned.stable (fun _ _ => rfl) ht fun t env _ ht => ?_
  split
  · trivial
  split
  · trivial
  refine wp_read Unspawned.stable (fun _ _ => rfl) ht fun t env _ ht => ?_
  split
  · trivial
  refine wp_operation Unspawned.stable ht fun t env hinv ht => ?_
  obtain ⟨hsteps, hinserted⟩ := insert_steps env hinv ht
  refine ⟨hsteps, ?_⟩
  split
  · rename_i htrue
    exact reserve_wp (hsteps.guar hinv).1 (hinserted htrue)
  · exact wp_read stable_true (fun _ _ => rfl) trivial fun t env _ _ => trivial

theorem mark_wp {id : ℕ} (mark : Mark) (hs : Returned id s) :
    (discipline latest).wp w (mark.code id) anyhow anyhow s := by
  cases mark with
  | dispatched =>
    refine wp_read Returned.stable (fun _ _ => rfl) hs fun t env _ ht => ?_
    split
    · refine wp_read Returned.stable (fun _ _ => rfl) ht fun t env _ ht => ?_
      split
      · trivial
      refine wp_operation Returned.stable ht fun t env _ ht => ⟨move_steps env ?_ fun _ => ht, ?_⟩
      · intro status hmem
        rw [List.mem_singleton.mp hmem]
        exact .dispatch
      · split
        · trivial
        · trivial
    · trivial
  | preDispatchRejected => exact rejectExecution_wp
  | sendRejected =>
    refine wp_ignored stable_true trivial fun t env _ _ => move_steps env ?_ nofun
    intro status hmem
    rcases List.mem_cons.mp hmem with rfl | hmem
    · exact .reject
    · rw [List.mem_singleton.mp hmem]
      exact .finish nofun nofun
  | terminal finish =>
    refine wp_ignored stable_true trivial fun t env _ _ => move_steps env ?_ ?_
    · intro status hmem
      rw [List.mem_singleton.mp hmem]
      cases finish with
      | completed => exact .finish nofun nofun
      | failed => exact .finish nofun nofun
      | outcomeUncertain => exact .finish nofun nofun
    · cases finish with
      | completed => exact nofun
      | failed => exact nofun
      | outcomeUncertain => exact nofun

theorem sequential (latest : ℤ) : (discipline latest).Sequential := by
  intro w entry s _ hfresh
  cases entry with
  | authorize request => exact authorizeAndReserve_wp hfresh
  | mark reservation change =>
    refine wp_read stable_true (fun _ _ => rfl) trivial fun t env _ _ => ?_
    split
    · rename_i hholds
      exact mark_wp change ⟨reservation, of_decide_eq_true hholds, rfl⟩
    · trivial
  | revoke grantId userId apiKeyId =>
    refine wp_operation stable_true trivial fun t env _ _ => ⟨revoke_steps env, ?_⟩
    split
    · trivial
    · trivial

theorem Opened.inv (h : Opened s) : Inv latest s := by
  refine ⟨fun id _ _ _ howns => ?_, ?_, fun _ hmem => ?_, fun id grant hgrant => ?_⟩
  · obtain ⟨execution, hexecution, -⟩ := howns
    rw [h.executions] at hexecution
    cases hexecution
  · rw [h.history]
    exact List.Pairwise.nil
  · rw [h.history] at hmem
    cases hmem
  · obtain ⟨hused, hstarted, hwindowUsed, -⟩ := h.grants id grant hgrant
    have hclaims : claimsOf id s.history = [] := by rw [h.history]; rfl
    rw [hclaims]
    refine ⟨hused, by omega, fun start hstart => ?_, fun window _ _ => ⟨nofun, fun start hstart => ?_,
      fun _ => Nat.zero_le _, List.Pairwise.nil⟩⟩
    · rw [hstarted] at hstart
      cases hstart
    · rw [hstarted] at hstart
      cases hstart

theorem inv_of_reaches (hstart : Opened s) {c : (machine latest).Config} (hc : Reaches anyStep s c) :
    Inv latest c.store :=
  ((sequential latest).sound hstart.inv hstart.executions hc).inv

end NyxId.DurableGrants
