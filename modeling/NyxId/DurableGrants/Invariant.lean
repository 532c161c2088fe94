import NyxId.DurableGrants.Model

/-!
What every write keeps: who may claim, return and move, and how the windows of a grant follow.
-/

namespace NyxId.DurableGrants

open Interleave

inductive Allowed : DurableExecutionStatus → DurableExecutionStatus → Prop where
  | dispatch : Allowed .reserved .dispatched
  | reject : Allowed .reserved .rejected
  | finish {after : DurableExecutionStatus} (hreserved : after ≠ .reserved)
      (hdispatched : after ≠ .dispatched) : Allowed .dispatched after

def claimOf (grantId : String) : Happening → Option Claim
  | .claimed claim => if claim.grantId = grantId then some claim else none
  | _ => none

/-- The claims on a grant, the newest first. -/
def claimsOf (grantId : String) (history : List Happening) : List Claim :=
  history.filterMap (claimOf grantId)

def dispatchOf (grantId : String) : Happening → Option ℕ
  | .moved move => if move.grantId = grantId ∧ move.after = .dispatched then some move.execution else none
  | _ => none

/-- The executions of a grant that were dispatched. -/
def dispatchesOf (grantId : String) (history : List Happening) : List ℕ :=
  history.filterMap (dispatchOf grantId)

/-- The windows that claims opened end at times that can be represented. -/
def Fits (latest : ℤ) (window : DurableUsageWindow) (claims : List Claim) : Prop :=
  ∀ claim ∈ claims, claim.used = 1 → stored claim.now + window.duration ≤ latest

def startedAt (start : ℤ) (claims : List Claim) : List Claim :=
  claims.filter fun claim => claim.start = some start

/-- Windows of a grant: at most the quota in each, and a duration from start to start. -/
structure Windowed (window : DurableUsageWindow) (grant : DurableOperationGrant)
    (claims : List Claim) : Prop where
  started : ∀ claim ∈ claims, ∃ t start, claim.start = some t ∧
    grant.windowStartedAt = some start ∧ (t = start ∨ t + window.duration ≤ start)
  current : ∀ start, grant.windowStartedAt = some start →
    (startedAt start claims).length = grant.windowUsed
  quota : ∀ start, (startedAt start claims).length ≤ window.maxOperations
  spaced : claims.Pairwise fun newer older => ∀ t u, newer.start = some t → older.start = some u →
    t = u ∨ u + window.duration ≤ t

structure GrantOk (latest : ℤ) (grant : DurableOperationGrant) (claims : List Claim) : Prop where
  used : grant.totalUsed = claims.length
  limit : grant.totalUsed ≤ grant.totalLimit
  opened : ∀ start, grant.windowStartedAt = some start →
    ∃ claim ∈ claims, claim.used = 1 ∧ stored claim.now = start
  windowed : ∀ window, grant.window = some window → Fits latest window claims →
    Windowed window grant claims

/-- How a happening relates to an older one. -/
def After : Happening → Happening → Prop
  | .claimed c, .claimed d => c.execution ≠ d.execution
  | .claimed c, .revoked grantId => c.grantId ≠ grantId
  | .returned r, .returned q => r.execution ≠ q.execution
  | .moved m, .moved n => m.execution = n.execution →
      n.before = .reserved ∧ n.after = .dispatched ∧ m.before = .dispatched
  | _, _ => True

def Owns (s : Store) (id : ℕ) (grantId operationId : String) : Prop :=
  ∃ execution, s.executions.lookup id = some execution ∧ execution.grantId = grantId ∧
    execution.operationId = operationId

def ClaimedBy (s : Store) (id : ℕ) (grantId : String) : Prop :=
  ∃ claim, .claimed claim ∈ s.history ∧ claim.execution = id ∧ claim.grantId = grantId

def Settled (s : Store) (move : Move) : Prop :=
  ∃ execution, s.executions.lookup move.execution = some execution ∧
    execution.status ≠ .reserved ∧ (move.after ≠ .dispatched → execution.status = move.after)

/-- What the store has for a happening. -/
def Happened (s : Store) : Happening → Prop
  | .claimed c => ∃ operationId, Owns s c.execution c.grantId operationId
  | .revoked grantId => ∃ grant, s.grants.lookup grantId = some grant ∧ grant.revoked = true
  | .returned r => Owns s r.execution r.grantId r.operationId ∧ ClaimedBy s r.execution r.grantId
  | .moved m => Allowed m.before m.after ∧ Owns s m.execution m.grantId m.operationId ∧ Settled s m ∧
      (m.after = .dispatched → ∃ r, .returned r ∈ s.history ∧ r.execution = m.execution)

structure Inv (latest : ℤ) (s : Store) : Prop where
  unique : ∀ id id' grantId operationId, Owns s id grantId operationId →
    Owns s id' grantId operationId → id = id'
  ordered : s.history.Pairwise After
  happened : ∀ happening ∈ s.history, Happened s happening
  grants : ∀ id grant, s.grants.lookup id = some grant → GrantOk latest grant (claimsOf id s.history)

/-- How a status goes on: never back to reserved, and not on from an end. -/
def Later (status status' : DurableExecutionStatus) : Prop :=
  status ≠ .reserved → status' ≠ .reserved ∧ (status ≠ .dispatched → status' = status)

structure Evolves (s t : Store) : Prop where
  grants : ∀ id grant, s.grants.lookup id = some grant → ∃ grant', t.grants.lookup id = some grant' ∧
    grant.stateVersion ≤ grant'.stateVersion ∧
    (grant'.stateVersion = grant.stateVersion → grant' = grant) ∧
    (grant.revoked = true → grant'.revoked = true)
  executions : ∀ id execution, s.executions.lookup id = some execution →
    ∃ execution', t.executions.lookup id = some execution' ∧
      execution'.grantId = execution.grantId ∧ execution'.operationId = execution.operationId ∧
      Later execution.status execution'.status
  history : ∀ happening ∈ s.history, happening ∈ t.history

variable {latest : ℤ} {s t u : Store} {w : ℕ}

theorem Later.refl (status : DurableExecutionStatus) : Later status status :=
  fun h => ⟨h, fun _ => rfl⟩

theorem Later.trans {a b c : DurableExecutionStatus} (h : Later a b) (h' : Later b c) : Later a c := by
  intro ha
  obtain ⟨hb, hsame⟩ := h ha
  obtain ⟨hc, hsame'⟩ := h' hb
  refine ⟨hc, fun hd => ?_⟩
  have hba := hsame hd
  rw [hsame' (hba ▸ hd), hba]

theorem Allowed.later {before after : DurableExecutionStatus} (h : Allowed before after) :
    Later before after := by
  cases h with
  | dispatch => exact fun h => absurd rfl h
  | reject => exact fun h => absurd rfl h
  | finish hreserved hdispatched => exact fun _ => ⟨hreserved, fun h => absurd rfl h⟩

theorem Evolves.refl (s : Store) : Evolves s s :=
  ⟨fun _ grant h => ⟨grant, h, le_refl _, fun _ => rfl, id⟩,
    fun _ execution h => ⟨execution, h, rfl, rfl, .refl _⟩, fun _ h => h⟩

theorem Evolves.trans (h : Evolves s t) (h' : Evolves t u) : Evolves s u := by
  refine ⟨fun id grant hgrant => ?_, fun id execution hexecution => ?_,
    fun _ hmem => h'.history _ (h.history _ hmem)⟩
  · obtain ⟨grant', hgrant', hle, hsame, hrevoked⟩ := h.grants id grant hgrant
    obtain ⟨grant'', hgrant'', hle', hsame', hrevoked'⟩ := h'.grants id grant' hgrant'
    refine ⟨grant'', hgrant'', hle.trans hle', fun hversion => ?_, fun h => hrevoked' (hrevoked h)⟩
    have hversion' : grant''.stateVersion = grant'.stateVersion := by omega
    have hsecond := hsame' hversion'
    subst hsecond
    exact hsame hversion
  · obtain ⟨execution', hexecution', hgrant, hoperation, hlater⟩ := h.executions id execution hexecution
    obtain ⟨execution'', hexecution'', hgrant', hoperation', hlater'⟩ :=
      h'.executions id execution' hexecution'
    exact ⟨execution'', hexecution'', hgrant'.trans hgrant, hoperation'.trans hoperation,
      hlater.trans hlater'⟩

theorem Owns.evolves {id : ℕ} {grantId operationId : String} (h : Owns s id grantId operationId)
    (hst : Evolves s t) : Owns t id grantId operationId := by
  obtain ⟨execution, hexecution, rfl, rfl⟩ := h
  obtain ⟨execution', hexecution', hgrant, hoperation, -⟩ := hst.executions id execution hexecution
  exact ⟨execution', hexecution', hgrant, hoperation⟩

theorem ClaimedBy.evolves {id : ℕ} {grantId : String} (h : ClaimedBy s id grantId)
    (hst : Evolves s t) : ClaimedBy t id grantId := by
  obtain ⟨claim, hmem, hclaim⟩ := h
  exact ⟨claim, hst.history _ hmem, hclaim⟩

theorem Settled.evolves {move : Move} (h : Settled s move) (hst : Evolves s t) : Settled t move := by
  obtain ⟨execution, hexecution, hreserved, hend⟩ := h
  obtain ⟨execution', hexecution', -, -, hlater⟩ := hst.executions _ execution hexecution
  obtain ⟨hreserved', hsame⟩ := hlater hreserved
  refine ⟨execution', hexecution', hreserved', fun hafter => ?_⟩
  have hstatus := hend hafter
  rw [hsame (hstatus ▸ hafter), hstatus]

theorem Happened.evolves {happening : Happening} (h : Happened s happening) (hst : Evolves s t) :
    Happened t happening := by
  cases happening with
  | claimed c =>
    obtain ⟨operationId, howns⟩ := h
    exact ⟨operationId, howns.evolves hst⟩
  | revoked grantId =>
    obtain ⟨grant, hgrant, hrevoked⟩ := h
    obtain ⟨grant', hgrant', -, -, hkept⟩ := hst.grants grantId grant hgrant
    exact ⟨grant', hgrant', hkept hrevoked⟩
  | returned r => exact ⟨h.1.evolves hst, h.2.evolves hst⟩
  | moved m =>
    obtain ⟨hallowed, howns, hsettled, hheld⟩ := h
    refine ⟨hallowed, howns.evolves hst, hsettled.evolves hst, fun hafter => ?_⟩
    obtain ⟨r, hmem, hr⟩ := hheld hafter
    exact ⟨r, hst.history _ hmem, hr⟩

/-! ### Windows -/

theorem stored_stored (t : ℤ) : stored (stored t) = stored t := by
  unfold stored
  omega

theorem startedAt_cons {start : ℤ} {claim : Claim} {claims : List Claim} :
    (startedAt start (claim :: claims)).length =
      (startedAt start claims).length + if claim.start = some start then 1 else 0 := by
  unfold startedAt
  rw [List.filter_cons]
  by_cases h : claim.start = some start
  · simp [h]
  · simp [h]

/-- What the quota check lets through. -/
structure Admissible (latest : ℤ) (grant : DurableOperationGrant) (now : ℤ)
    (start : Option ℤ) (used : ℕ) : Prop where
  below : grant.totalUsed < grant.totalLimit
  unlimited : grant.window = none → start = grant.windowStartedAt
  limited : ∀ window, grant.window = some window →
    (∃ t, grant.windowStartedAt = some t ∧ start = some t ∧ used = grant.windowUsed + 1 ∧
      used ≤ window.maxOperations) ∨
    (start = some now ∧ used = 1 ∧ 1 ≤ window.maxOperations ∧
      ∀ t, grant.windowStartedAt = some t → t + window.duration ≤ latest →
        t + window.duration ≤ now)

theorem nextWindow_ok {grant : DurableOperationGrant} {now : ℤ} {start : Option ℤ} {used : ℕ}
    (h : nextWindow latest grant now = .ok (start, used)) : Admissible latest grant now start used := by
  unfold nextWindow at h
  split at h
  · cases h
  split at h
  · cases h
  split at h
  · cases h
  split at h
  · cases h
  rename_i hbelow
  refine ⟨not_le.mp hbelow, fun hnone => ?_, fun window hwindow => ?_⟩
  · rw [hnone] at h
    exact (Prod.mk.inj (Except.ok.inj h)).1.symm
  · rw [hwindow] at h
    dsimp only at h
    split at h
    · cases h
    rename_i duration hduration
    have hseconds : duration = window.duration := by
      unfold trySeconds at hduration
      split at hduration
      · exact (Option.some.inj hduration).symm
      · cases hduration
    subst hseconds
    cases hactive : activeStart latest grant.windowStartedAt window.duration now with
    | some t =>
      rw [hactive] at h
      simp only [Option.isSome_some, if_true, Option.getD_some] at h
      split at h
      · cases h
      rename_i hquota
      obtain ⟨hstart, hused⟩ := Prod.mk.inj (Except.ok.inj h)
      unfold activeStart at hactive
      obtain ⟨hstarted, -⟩ := Option.filter_eq_some_iff.mp hactive
      exact Or.inl ⟨t, hstarted, hstart.symm, hused.symm, by omega⟩
    | none =>
      rw [hactive] at h
      simp only [Option.isSome_none, Bool.false_eq_true, if_false, Option.getD_none] at h
      split at h
      · cases h
      rename_i hquota
      obtain ⟨hstart, hused⟩ := Prod.mk.inj (Except.ok.inj h)
      refine Or.inr ⟨hstart.symm, hused.symm, by omega, fun t hstarted hfits => ?_⟩
      unfold activeStart at hactive
      rw [hstarted, Option.filter_eq_none_iff] at hactive
      have hover := hactive t rfl
      simp only [Bool.and_eq_true, decide_eq_true_eq, not_and, not_lt] at hover
      exact hover hfits

theorem GrantOk.claimed {grant : DurableOperationGrant} {claims : List Claim} {now : ℤ}
    {start : Option ℤ} {used id : ℕ} {grantId : String} (h : GrantOk latest grant claims)
    (hnext : Admissible latest grant now start used) :
    GrantOk latest (grant.claimed start used)
      (⟨id, grantId, now, start.map stored, used⟩ :: claims) := by
  have hkept (t : ℤ) (ht : grant.windowStartedAt = some t) : stored t = t := by
    obtain ⟨claim, -, -, hnow⟩ := h.opened t ht
    rw [← hnow, stored_stored]
  refine ⟨?_, hnext.below, fun t ht => ?_, fun window hwindow hfits => ?_⟩
  · have hused := h.used
    unfold DurableOperationGrant.claimed
    rw [List.length_cons, ← hused]
  · have hstart : start.map stored = some t := ht
    have hold (hsame : start = grant.windowStartedAt) : ∃ claim ∈ claims, claim.used = 1 ∧
        stored claim.now = t := by
      obtain ⟨t', hstarted, hstored⟩ := Option.map_eq_some_iff.mp hstart
      rw [hsame] at hstarted
      obtain ⟨claim, hmem, hone, hnow⟩ := h.opened t' hstarted
      rw [← hstored, hkept t' hstarted]
      exact ⟨claim, hmem, hone, hnow⟩
    cases hwindow : grant.window with
    | none =>
      obtain ⟨claim, hmem, hclaim⟩ := hold (hnext.unlimited hwindow)
      exact ⟨claim, List.mem_cons_of_mem _ hmem, hclaim⟩
    | some window =>
      rcases hnext.limited window hwindow with ⟨t', hstarted, hsame, -, -⟩ | ⟨hnow, hone, -, -⟩
      · obtain ⟨claim, hmem, hclaim⟩ := hold (hsame.trans hstarted.symm)
        exact ⟨claim, List.mem_cons_of_mem _ hmem, hclaim⟩
      · refine ⟨_, List.mem_cons_self, hone, ?_⟩
        rw [hnow] at hstart
        exact Option.some.inj hstart
  · have hwindow' : grant.window = some window := hwindow
    have hfitsOld : Fits latest window claims := fun claim hmem => hfits claim (List.mem_cons_of_mem _ hmem)
    obtain ⟨hstarted, hcurrent, hquota, hspaced⟩ := h.windowed window hwindow' hfitsOld
    have hpositive : 0 < window.duration := by
      have hseconds := window.positive
      unfold DurableUsageWindow.duration
      omega
    rcases hnext.limited window hwindow' with ⟨t, hat, rfl, rfl, hmax⟩ | ⟨rfl, rfl, hmax, helapsed⟩
    · have hstored : (some t).map stored = some t := congrArg some (hkept t hat)
      have hcount := hcurrent t hat
      unfold DurableOperationGrant.claimed
      rw [hstored]
      refine ⟨?_, ?_, ?_, ?_⟩
      · intro claim hmem
        rcases List.mem_cons.mp hmem with rfl | hmem
        · exact ⟨t, t, rfl, rfl, Or.inl rfl⟩
        · obtain ⟨t', start, hclaim, hstart, hle⟩ := hstarted claim hmem
          exact ⟨t', start, hclaim, hat.symm.trans hstart, hle⟩
      · intro start hstart
        obtain rfl := Option.some.inj hstart
        rw [startedAt_cons, hcount, if_pos rfl]
      · intro start
        rw [startedAt_cons]
        by_cases hsame : t = start
        · subst hsame
          rw [hcount, if_pos rfl]
          exact hmax
        · rw [if_neg fun h => hsame (Option.some.inj h)]
          exact hquota start
      · refine List.pairwise_cons.mpr ⟨fun claim hmem t' u ht' hu => ?_, hspaced⟩
        obtain rfl := Option.some.inj ht'
        obtain ⟨u', start, hclaim, hstart, hle⟩ := hstarted claim hmem
        obtain rfl := Option.some.inj (hu.symm.trans hclaim)
        obtain rfl := Option.some.inj (hat.symm.trans hstart)
        exact hle.imp_left Eq.symm
    · have hafter (claim : Claim) (hmem : claim ∈ claims) : ∃ u, claim.start = some u ∧
          u + window.duration ≤ stored now := by
        obtain ⟨u, t, hclaim, hat, hle⟩ := hstarted claim hmem
        obtain ⟨opening, hopening, hone, hnow⟩ := h.opened t hat
        have hlatest := hfitsOld opening hopening hone
        rw [hnow] at hlatest
        have hnowLe := helapsed t hat hlatest
        have hstoredT := hkept t hat
        have hstoredNow : t + window.duration ≤ stored now := by
          unfold stored DurableUsageWindow.duration at *
          omega
        refine ⟨u, hclaim, ?_⟩
        rcases hle with rfl | hle
        · exact hstoredNow
        · omega
      have hnone : startedAt (stored now) claims = [] := by
        unfold startedAt
        rw [List.filter_eq_nil_iff]
        intro claim hmem hsame
        obtain ⟨u, hclaim, hle⟩ := hafter claim hmem
        rw [decide_eq_true_eq, hclaim] at hsame
        have hu := Option.some.inj hsame
        omega
      unfold DurableOperationGrant.claimed
      rw [Option.map_some]
      refine ⟨?_, ?_, ?_, ?_⟩
      · intro claim hmem
        rcases List.mem_cons.mp hmem with rfl | hmem
        · exact ⟨stored now, stored now, rfl, rfl, Or.inl rfl⟩
        · obtain ⟨u, hclaim, hle⟩ := hafter claim hmem
          exact ⟨u, stored now, hclaim, rfl, Or.inr hle⟩
      · intro start hstart
        obtain rfl := Option.some.inj hstart
        rw [startedAt_cons, hnone, if_pos rfl]
        rfl
      · intro start
        rw [startedAt_cons]
        by_cases hsame : stored now = start
        · subst hsame
          rw [hnone, if_pos rfl]
          exact hmax
        · rw [if_neg fun h => hsame (Option.some.inj h)]
          exact hquota start
      · refine List.pairwise_cons.mpr ⟨fun claim hmem t' u ht' hu => ?_, hspaced⟩
        obtain rfl := Option.some.inj ht'
        obtain ⟨u', hclaim, hle⟩ := hafter claim hmem
        obtain rfl := Option.some.inj (hu.symm.trans hclaim)
        exact Or.inr hle

end NyxId.DurableGrants
