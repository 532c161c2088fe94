import NyxId.DurableGrants.Invariant

/-!
The writes of a worker, each of which keeps the invariant and what the other workers rely on.
-/

namespace NyxId.DurableGrants

open Interleave

inductive Writes (latest : ℤ) (w : ℕ) (s : Store) : Store → Prop where
  | insert {execution : DurableOperationExecution} (hfree : s.executions.lookup w = none)
      (hnew : ∀ id, ¬Owns s id execution.grantId execution.operationId) :
      Writes latest w s { s with executions := s.executions.insert w execution }
  | claim {grantId : String} {grant : DurableOperationGrant} {now : ℤ} {start : Option ℤ}
      {used : ℕ} (hgrant : s.grants.lookup grantId = some grant) (hrevoked : grant.revoked = false)
      (hnext : Admissible latest grant now start used) (howns : ∃ operationId, Owns s w grantId operationId)
      (hfirst : ∀ c, .claimed c ∈ s.history → c.execution ≠ w) :
      Writes latest w s (s.claim ⟨w, grantId, now, start, used⟩ grant)
  | revoke {grantId : String} {grant : DurableOperationGrant}
      (hgrant : s.grants.lookup grantId = some grant) : Writes latest w s (s.revoke grantId grant)
  | move {id : ℕ} {execution : DurableOperationExecution} {after : DurableExecutionStatus}
      (hexecution : s.executions.lookup id = some execution)
      (hallowed : Allowed execution.status after)
      (hheld : after = .dispatched → ∃ r, .returned r ∈ s.history ∧ r.execution = id) :
      Writes latest w s (s.move id execution after)
  | give {grantId operationId : String} (howns : Owns s w grantId operationId)
      (hclaimed : ClaimedBy s w grantId) (hfirst : ∀ r, .returned r ∈ s.history → r.execution ≠ w) :
      Writes latest w s { s with history := .returned ⟨w, grantId, operationId⟩ :: s.history }

variable {latest : ℤ} {s t : Store} {w : ℕ}

theorem evolves_grant {grantId : String} {grant grant' : DurableOperationGrant}
    {history : List Happening} (hgrant : s.grants.lookup grantId = some grant)
    (hversion : grant.stateVersion < grant'.stateVersion)
    (hrevoked : grant.revoked = true → grant'.revoked = true)
    (hhistory : ∀ happening ∈ s.history, happening ∈ history) :
    Evolves s { s with grants := s.grants.insert grantId grant', history := history } := by
  refine ⟨fun id found hfound => ?_, (Evolves.refl s).executions, hhistory⟩
  by_cases hid : id = grantId
  · subst hid
    obtain rfl := Option.some.inj (hfound.symm.trans hgrant)
    exact ⟨grant', AList.lookup_insert _, hversion.le, fun hsame => by omega, hrevoked⟩
  · exact ⟨found, (AList.lookup_insert_ne hid).trans hfound, le_refl _, fun _ => rfl, fun h => h⟩

theorem Writes.evolves (h : Writes latest w s t) : Evolves s t := by
  cases h with
  | @insert execution hfree hnew =>
    refine ⟨(Evolves.refl s).grants, fun id found hfound => ?_, fun _ hmem => hmem⟩
    have hid : id ≠ w := by
      rintro rfl
      rw [hfree] at hfound
      cases hfound
    exact ⟨found, (AList.lookup_insert_ne hid).trans hfound, rfl, rfl, .refl _⟩
  | claim hgrant hrevoked hnext howns hfirst =>
    exact evolves_grant hgrant (Nat.lt_succ_self _) (fun h => h) fun _ hmem => List.mem_cons_of_mem _ hmem
  | revoke hgrant =>
    exact evolves_grant hgrant (Nat.lt_succ_self _) (fun _ => rfl) fun _ hmem => List.mem_cons_of_mem _ hmem
  | @move id execution after hexecution hallowed hheld =>
    refine ⟨(Evolves.refl s).grants, fun other found hfound => ?_, fun _ hmem => List.mem_cons_of_mem _ hmem⟩
    by_cases hid : other = id
    · subst hid
      obtain rfl := Option.some.inj (hfound.symm.trans hexecution)
      exact ⟨_, AList.lookup_insert _, rfl, rfl, hallowed.later⟩
    · exact ⟨found, (AList.lookup_insert_ne hid).trans hfound, rfl, rfl, .refl _⟩
  | give howns hclaimed hfirst =>
    exact ⟨(Evolves.refl s).grants, (Evolves.refl s).executions, fun _ hmem => List.mem_cons_of_mem _ hmem⟩

theorem claimsOf_cons_self {id used : ℕ} {grantId : String} {now : ℤ} {start : Option ℤ}
    {history : List Happening} : claimsOf grantId (.claimed ⟨id, grantId, now, start, used⟩ :: history) =
      ⟨id, grantId, now, start, used⟩ :: claimsOf grantId history :=
  List.filterMap_cons_some (if_pos rfl)

theorem claimsOf_cons_ne {grantId : String} {claim : Claim} {history : List Happening}
    (h : grantId ≠ claim.grantId) :
    claimsOf grantId (.claimed claim :: history) = claimsOf grantId history :=
  List.filterMap_cons_none (if_neg h.symm)

/-- A happening recorded on top of a lawful history. -/
theorem Inv.happened_cons {happening : Happening} {history : List Happening} (hs : Inv latest s)
    (hst : Evolves s t) (hhistory : history = happening :: s.history) (hnew : Happened t happening) :
    ∀ other ∈ history, Happened t other := by
  intro other hmem
  rw [hhistory] at hmem
  rcases List.mem_cons.mp hmem with rfl | hmem
  · exact hnew
  · exact (hs.happened other hmem).evolves hst

theorem Inv.insert {execution : DurableOperationExecution} (hs : Inv latest s)
    (h : Writes latest w s { s with executions := s.executions.insert w execution })
    (hnew : ∀ id, ¬Owns s id execution.grantId execution.operationId) :
    Inv latest { s with executions := s.executions.insert w execution } := by
  refine ⟨fun id id' grantId operationId howns howns' => ?_, hs.ordered,
    fun other hmem => (hs.happened other hmem).evolves h.evolves, hs.grants⟩
  obtain ⟨found, hfound, rfl, rfl⟩ := howns
  obtain ⟨found', hfound', hgrant, hoperation⟩ := howns'
  rcases Collection.lookup_insert_cases hfound with ⟨rfl, rfl⟩ | ⟨hid, hold⟩
  · rcases Collection.lookup_insert_cases hfound' with ⟨rfl, rfl⟩ | ⟨hid', hold'⟩
    · rfl
    · exact absurd ⟨found', hold', hgrant, hoperation⟩ (hnew id')
  · rcases Collection.lookup_insert_cases hfound' with ⟨rfl, rfl⟩ | ⟨hid', hold'⟩
    · exact absurd ⟨found, hold, hgrant.symm, hoperation.symm⟩ (hnew id)
    · exact hs.unique _ _ _ _ ⟨found, hold, rfl, rfl⟩ ⟨found', hold', hgrant, hoperation⟩

theorem Inv.claim {grantId : String} {grant : DurableOperationGrant} {now : ℤ}
    {start : Option ℤ} {used : ℕ} (hs : Inv latest s)
    (h : Writes latest w s (s.claim ⟨w, grantId, now, start, used⟩ grant))
    (hgrant : s.grants.lookup grantId = some grant) (hrevoked : grant.revoked = false)
    (hnext : Admissible latest grant now start used) (howns : ∃ operationId, Owns s w grantId operationId)
    (hfirst : ∀ c, .claimed c ∈ s.history → c.execution ≠ w) :
    Inv latest (s.claim ⟨w, grantId, now, start, used⟩ grant) := by
  refine ⟨hs.unique, List.pairwise_cons.mpr ⟨fun other hmem => ?_, hs.ordered⟩,
    hs.happened_cons h.evolves rfl ?_, fun id found hfound => ?_⟩
  · cases other with
    | claimed c => exact (hfirst c hmem).symm
    | revoked revokedId =>
      intro hsame
      obtain ⟨found, hfound, hstopped⟩ := hs.happened _ hmem
      dsimp only at hsame
      subst hsame
      obtain rfl := Option.some.inj (hfound.symm.trans hgrant)
      rw [hrevoked] at hstopped
      cases hstopped
    | returned r => trivial
    | moved m => trivial
  · obtain ⟨operationId, howns⟩ := howns
    exact ⟨operationId, howns.evolves h.evolves⟩
  · change GrantOk latest found (claimsOf id
      (.claimed ⟨w, grantId, now, start.map stored, used⟩ :: s.history))
    rcases Collection.lookup_insert_cases hfound with ⟨hid, rfl⟩ | ⟨hid, hold⟩
    · obtain rfl : id = grantId := hid
      rw [claimsOf_cons_self]
      exact (hs.grants _ _ hgrant).claimed hnext
    · have hother : id ≠ grantId := hid
      rw [claimsOf_cons_ne hother]
      exact hs.grants id found hold

theorem Inv.revoke {grantId : String} {grant : DurableOperationGrant} (hs : Inv latest s)
    (h : Writes latest w s (s.revoke grantId grant)) (hgrant : s.grants.lookup grantId = some grant) :
    Inv latest (s.revoke grantId grant) := by
  refine ⟨hs.unique, List.pairwise_cons.mpr ⟨fun other _ => ?_, hs.ordered⟩,
    hs.happened_cons h.evolves rfl ⟨_, AList.lookup_insert _, rfl⟩, fun id found hfound => ?_⟩
  · cases other <;> trivial
  · rcases Collection.lookup_insert_cases hfound with ⟨rfl, rfl⟩ | ⟨hid, hold⟩
    · obtain ⟨hused, hlimit, hopened, hwindowed⟩ := hs.grants _ _ hgrant
      refine ⟨hused, hlimit, hopened, fun window hwindow hfits => ?_⟩
      obtain ⟨hstarted, hcurrent, hquota, hspaced⟩ := hwindowed window hwindow hfits
      exact ⟨hstarted, hcurrent, hquota, hspaced⟩
    · exact hs.grants id found hold

theorem Allowed.of_dispatched {before after : DurableExecutionStatus} (h : Allowed before after)
    (hafter : after = .dispatched) : before = .reserved := by
  cases h with
  | dispatch => rfl
  | reject => rfl
  | finish hreserved hdispatched => exact absurd hafter hdispatched

theorem Allowed.of_not_reserved {before after : DurableExecutionStatus} (h : Allowed before after)
    (hbefore : before ≠ .reserved) : before = .dispatched := by
  cases h with
  | dispatch => exact absurd rfl hbefore
  | reject => exact absurd rfl hbefore
  | finish hreserved hdispatched => rfl

theorem Allowed.ne_reserved {before after : DurableExecutionStatus} (h : Allowed before after) :
    after ≠ .reserved := by
  cases h with
  | dispatch => exact nofun
  | reject => exact nofun
  | finish hreserved hdispatched => exact hreserved

theorem Inv.move {id : ℕ} {execution : DurableOperationExecution} {after : DurableExecutionStatus}
    (hs : Inv latest s) (h : Writes latest w s (s.move id execution after))
    (hexecution : s.executions.lookup id = some execution)
    (hallowed : Allowed execution.status after)
    (hheld : after = .dispatched → ∃ r, .returned r ∈ s.history ∧ r.execution = id) :
    Inv latest (s.move id execution after) := by
  refine ⟨fun id' id'' grantId operationId howns howns' => ?_,
    List.pairwise_cons.mpr ⟨fun other hmem => ?_, hs.ordered⟩, hs.happened_cons h.evolves rfl ?_,
    hs.grants⟩
  · have hback (other : ℕ) (howns : Owns (s.move id execution after) other grantId operationId) :
        Owns s other grantId operationId := by
      obtain ⟨found, hfound, hgrant, hoperation⟩ := howns
      rcases Collection.lookup_insert_cases hfound with ⟨rfl, rfl⟩ | ⟨-, hold⟩
      · exact ⟨execution, hexecution, hgrant, hoperation⟩
      · exact ⟨found, hold, hgrant, hoperation⟩
    exact hs.unique _ _ _ _ (hback id' howns) (hback id'' howns')
  · cases other with
    | claimed c => trivial
    | revoked revokedId => trivial
    | returned r => trivial
    | moved n =>
      intro hsame
      dsimp only at hsame
      obtain ⟨hallowed', -, ⟨found, hfound, hreserved, hend⟩, -⟩ := hs.happened _ hmem
      rw [← hsame] at hfound
      obtain rfl := Option.some.inj (hfound.symm.trans hexecution)
      have hstatus := hallowed.of_not_reserved hreserved
      have hafter : n.after = .dispatched := by
        by_contra hne
        exact hne ((hend hne).symm.trans hstatus)
      exact ⟨hallowed'.of_dispatched hafter, hafter, hstatus⟩
  · refine ⟨hallowed, ⟨_, AList.lookup_insert _, rfl, rfl⟩,
      ⟨_, AList.lookup_insert _, hallowed.ne_reserved, fun _ => rfl⟩, fun hafter => ?_⟩
    obtain ⟨r, hmem, hr⟩ := hheld hafter
    exact ⟨r, List.mem_cons_of_mem _ hmem, hr⟩

theorem Inv.give {grantId operationId : String} (hs : Inv latest s)
    (h : Writes latest w s { s with history := .returned ⟨w, grantId, operationId⟩ :: s.history })
    (howns : Owns s w grantId operationId) (hclaimed : ClaimedBy s w grantId)
    (hfirst : ∀ r, .returned r ∈ s.history → r.execution ≠ w) :
    Inv latest { s with history := .returned ⟨w, grantId, operationId⟩ :: s.history } := by
  refine ⟨hs.unique, List.pairwise_cons.mpr ⟨fun other hmem => ?_, hs.ordered⟩,
    hs.happened_cons h.evolves rfl ⟨howns, hclaimed.evolves h.evolves⟩, hs.grants⟩
  cases other with
  | claimed c => trivial
  | revoked revokedId => trivial
  | returned q => exact (hfirst q hmem).symm
  | moved m => trivial

theorem Writes.inv (h : Writes latest w s t) (hs : Inv latest s) : Inv latest t := by
  cases h with
  | insert hfree hnew => exact hs.insert (.insert hfree hnew) hnew
  | claim hgrant hrevoked hnext howns hfirst =>
    exact hs.claim (.claim hgrant hrevoked hnext howns hfirst) hgrant hrevoked hnext howns hfirst
  | revoke hgrant => exact hs.revoke (Writes.revoke hgrant : Writes latest w s _) hgrant
  | move hexecution hallowed hheld =>
    exact hs.move (Writes.move hexecution hallowed hheld : Writes latest w s _) hexecution hallowed hheld
  | give howns hclaimed hfirst =>
    exact hs.give (.give howns hclaimed hfirst) howns hclaimed hfirst

/-- What a worker counts on: only it claims for its execution, returns it and inserts it. -/
structure Rely (w : ℕ) (s t : Store) : Prop where
  evolves : Evolves s t
  claims : ∀ c, .claimed c ∈ t.history → c.execution = w → .claimed c ∈ s.history
  returns : ∀ r, .returned r ∈ t.history → r.execution = w → .returned r ∈ s.history
  fresh : s.executions.lookup w = none → t.executions.lookup w = none

theorem Writes.rely (h : Writes latest w s t) {v : ℕ} (hv : v ≠ w) : Rely v s t := by
  have hevolves := h.evolves
  cases h with
  | insert hfree hnew =>
    exact ⟨hevolves, fun _ hmem _ => hmem, fun _ hmem _ => hmem,
      fun hnone => (AList.lookup_insert_ne hv).trans hnone⟩
  | claim hgrant hrevoked hnext howns hfirst =>
    refine ⟨hevolves, fun c hmem hc => ?_, fun r hmem _ => ?_, fun hnone => hnone⟩
    · rcases List.mem_cons.mp hmem with hnew | hmem
      · have hexecution := congrArg Claim.execution (Happening.claimed.inj hnew)
        exact absurd (hc.symm.trans hexecution) hv
      · exact hmem
    · exact (List.mem_cons.mp hmem).resolve_left nofun
  | revoke hgrant =>
    exact ⟨hevolves, fun c hmem _ => (List.mem_cons.mp hmem).resolve_left nofun,
      fun r hmem _ => (List.mem_cons.mp hmem).resolve_left nofun, fun hnone => hnone⟩
  | @move id execution after hexecution hallowed hheld =>
    refine ⟨hevolves, fun c hmem _ => (List.mem_cons.mp hmem).resolve_left nofun,
      fun r hmem _ => (List.mem_cons.mp hmem).resolve_left nofun, fun hnone => ?_⟩
    have hid : v ≠ id := by
      rintro rfl
      rw [hnone] at hexecution
      cases hexecution
    exact (AList.lookup_insert_ne hid).trans hnone
  | give howns hclaimed hfirst =>
    refine ⟨hevolves, fun c hmem _ => (List.mem_cons.mp hmem).resolve_left nofun,
      fun r hmem hr => ?_, fun hnone => hnone⟩
    rcases List.mem_cons.mp hmem with hnew | hmem
    · have hexecution := congrArg Reservation.execution (Happening.returned.inj hnew)
      exact absurd (hr.symm.trans hexecution) hv
    · exact hmem

end NyxId.DurableGrants
