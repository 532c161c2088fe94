import NyxId.Fences.ExternalModel

/-!
What holds of the external fences over whole runs. A revocation is pruned only when the job of
its lease has expired, and no valid message names the lease after that.
-/

namespace NyxId.Fences.External

open Interleave Collection MachineAuthority

variable {isUuid : String → Bool} {state : Grants} {call : Call}

def Fenced (state : Grants) (a : ExternalAuthority) (stored : Storage Durable) : Prop :=
  state.durable.memory.changed a = false ∧ stored = state.durable ∨
    stored = state.durable.put .done (state.durable.memory.admitted a)

inductive Performs (isUuid : String → Bool) (state : Grants) :
    Call → Except String Unit × Grants → Prop
  | refused (call : Call) (e : String) : Performs isUuid state call (.error e, state)
  | unstored (a : ExternalAuthority) (node runtime : String) (execution : Bool)
      (clock : LeaseClock) (write : Write) (instant : ℕ) (e : String)
      (hcheck : checkAdmission isUuid state a node runtime clock.nowMs = .ok ()) :
      Performs isUuid state (.admitAt a node runtime execution clock write instant) (.error e,
        ⟨state.durable.put write (state.durable.memory.admitted a), state.leases⟩)
  | late (a : ExternalAuthority) (node runtime : String) (execution : Bool) (clock : LeaseClock)
      (write : Write) (instant : ℕ) (e : String) (stored : Storage Durable)
      (hcheck : checkAdmission isUuid state a node runtime clock.nowMs = .ok ())
      (hstored : Fenced state a stored) :
      Performs isUuid state (.admitAt a node runtime execution clock write instant)
        (.error e, ⟨stored, stopWhere a.below state.leases⟩)
  | admitted (a : ExternalAuthority) (node runtime : String) (execution : Bool)
      (clock : LeaseClock) (write : Write) (instant : ℕ) (stored : Storage Durable)
      (hcheck : checkAdmission isUuid state a node runtime clock.nowMs = .ok ())
      (hstored : Fenced state a stored) :
      Performs isUuid state (.admitAt a node runtime execution clock write instant) (.ok (), ⟨stored,
        (stopWhere a.below state.leases).insert a.leaseId
          ⟨a, clock.deadline, false, a.job execution⟩⟩)
  | renewed (a : ExternalAuthority) (node runtime : String) (clock : LeaseClock)
      (leaseInstant clockInstant : ℕ) (lease : Lease ExternalAuthority)
      (hvalid : a.valid isUuid node runtime clock.nowMs = true)
      (hrevoked : state.durable.memory.revoked.lookup a.leaseId = none)
      (hrevision : state.durable.memory.grantRevisions.lookup a.grantId = some a.grantRevision)
      (hlease : state.leases.lookup a.leaseId = some lease)
      (hsame : lease.authority.extended a = a)
      (hlive : lease.liveAt leaseInstant = true)
      (hlonger : lease.authority.expiresAtMs < a.expiresAtMs ∧
        lease.authority.authExpiresAtMs ≤ a.authExpiresAtMs ∧
        fundingRefused lease.authority.fundingExpiresAtMs a.fundingExpiresAtMs = false) :
      Performs isUuid state (.renewAt a node runtime clock leaseInstant clockInstant) (.ok (),
        { state with leases := state.leases.mapValues fun id lease =>
          if id = a.leaseId then { lease with authority := a, deadline := clock.deadline }
          else lease })
  | pruned (a : ExternalAuthority) (node runtime : String) (clock : LeaseClock) (write : Write)
      (instant : ℕ) (e : String) :
      Performs isUuid state (.revokeAt a node runtime clock write instant) (.error e,
        ⟨state.durable.assign .failed (state.durable.memory.pruned clock.nowMs), state.leases⟩)
  | unrevoked (a : ExternalAuthority) (node runtime : String) (clock : LeaseClock) (write : Write)
      (instant : ℕ) (e : String) :
      Performs isUuid state (.revokeAt a node runtime clock write instant) (.error e,
        ⟨state.durable.assign write (state.durable.memory.revoking a clock.nowMs), state.leases⟩)
  | revoked (a : ExternalAuthority) (node runtime : String) (clock : LeaseClock) (write : Write)
      (instant : ℕ) :
      Performs isUuid state (.revokeAt a node runtime clock write instant) (.ok (),
        ⟨state.durable.assign .done (state.durable.memory.revoking a clock.nowMs),
          stopLease a.leaseId state.leases⟩)

theorem perform_cases (isUuid : String → Bool) (state : Grants) (call : Call) :
    Performs isUuid state call (call.perform isUuid state) := by
  cases call with
  | admitAt a node runtime execution clock write instant =>
    unfold Call.perform admitAt
    dsimp only
    cases hcheck : checkAdmission isUuid state a node runtime clock.nowMs with
    | error e => exact .refused _ e
    | ok u =>
      dsimp only
      split
      · rename_i hunstored
        rw [if_pos hunstored.1]
        exact .unstored a node runtime execution clock write instant _ hcheck
      · rename_i hstored
        have hfenced : Fenced state a (if state.durable.memory.changed a then
            state.durable.put write (state.durable.memory.admitted a) else state.durable) := by
          split
          · rename_i hchanged
            have hwrite : write = .done := by
              by_contra hwrite
              exact hstored ⟨hchanged, hwrite⟩
            exact Or.inr (by rw [hwrite])
          · rename_i hsame
            exact Or.inl ⟨Bool.not_eq_true _ ▸ hsame, rfl⟩
        split
        · exact .late a node runtime execution clock write instant _ _ hcheck hfenced
        · exact .admitted a node runtime execution clock write instant _ hcheck hfenced
  | renewAt a node runtime clock leaseInstant clockInstant =>
    unfold Call.perform renewAt
    dsimp only
    split
    · exact .refused _ _
    rename_i hvalid
    split
    · exact .refused _ _
    rename_i hrevision
    split
    · exact .refused _ _
    rename_i lease hlease
    split
    · exact .refused _ _
    rename_i hok
    simp only [not_or, not_le, not_lt, Bool.not_eq_true, ne_eq, not_not, Bool.not_eq_true',
      Bool.not_eq_false, Option.isSome_iff_ne_none] at hok hrevision hvalid
    refine .renewed a node runtime clock leaseInstant clockInstant lease hvalid hrevision.1
      hrevision.2 hlease hok.1 ?_ hok.2.2.2.2
    unfold Lease.liveAt
    simp [hok.2.1, hok.2.2.1]
  | revokeAt a node runtime clock write instant =>
    unfold Call.perform revokeAt
    dsimp only
    split
    · exact .refused _ _
    split
    · exact .refused _ _
    split
    · exact .pruned a node runtime clock write instant _
    split
    · exact .unrevoked a node runtime clock write instant _
    · rename_i hwrite
      rw [not_not] at hwrite
      rw [hwrite]
      exact .revoked a node runtime clock .done instant

/-- What passing the checks of an admission says of the store and of the table. -/
structure Admissible (isUuid : String → Bool) (state : Grants) (a : ExternalAuthority)
    (node runtime : String) (nowMs : ℤ) : Prop where
  valid : a.valid isUuid node runtime nowMs = true
  revoked : state.durable.memory.revoked.lookup a.leaseId = none
  lease : state.leases.lookup a.leaseId = none
  context : ∀ previous, state.durable.memory.contexts.lookup a.contextId = some previous →
    previous = a.identity
  revision : ∀ r, state.durable.memory.grantRevisions.lookup a.grantId = some r →
    r ≤ a.grantRevision

theorem admissible {a : ExternalAuthority} {node runtime : String} {nowMs : ℤ}
    (h : checkAdmission isUuid state a node runtime nowMs = .ok ()) :
    Admissible isUuid state a node runtime nowMs := by
  unfold checkAdmission at h
  dsimp only at h
  split at h
  · cases h
  rename_i hvalid
  split at h
  · cases h
  rename_i hlease
  split at h
  · cases h
  rename_i hcontext
  simp only [not_or, Bool.not_eq_true, Option.isSome_eq_false_iff, Option.isNone_iff_eq_none]
    at hlease hcontext
  refine ⟨by simpa using hvalid, hlease.1, hlease.2.1, fun previous hprevious => ?_, fun r hr => ?_⟩
  · have hsame := hcontext.1
    rw [hprevious] at hsame
    simpa using hsame
  · have hle := hcontext.2
    rw [hr] at hle
    simpa using hle

/-- Revisions do not decrease and contexts keep their identity. -/
structure Grows (d d' : Durable) : Prop where
  revisions : ∀ grant r, d.grantRevisions.lookup grant = some r →
    ∃ r', d'.grantRevisions.lookup grant = some r' ∧ r ≤ r'
  contexts : ∀ id identity, d.contexts.lookup id = some identity →
    d'.contexts.lookup id = some identity

theorem Grows.of_same {d d' : Durable} (hrevisions : d'.grantRevisions = d.grantRevisions)
    (hcontexts : d'.contexts = d.contexts) : Grows d d' where
  revisions _ r hr := ⟨r, by rwa [hrevisions], le_rfl⟩
  contexts _ _ h := by rwa [hcontexts]

theorem Grows.refl (d : Durable) : Grows d d := .of_same rfl rfl

theorem Grows.trans (d d' d'' : Durable) (h : Grows d d') (h' : Grows d' d'') : Grows d d'' where
  revisions grant r hr := by
    obtain ⟨r', hr', hle⟩ := h.revisions grant r hr
    obtain ⟨r'', hr'', hle'⟩ := h'.revisions grant r' hr'
    exact ⟨r'', hr'', hle.trans hle'⟩
  contexts id identity hidentity := h'.contexts id identity (h.contexts id identity hidentity)

theorem grows_admitted {a : ExternalAuthority} {node runtime : String} {nowMs : ℤ}
    (h : Admissible isUuid state a node runtime nowMs) :
    Grows state.durable.memory (state.durable.memory.admitted a) := by
  constructor
  · intro grant r hr
    by_cases hgrant : grant = a.grantId
    · subst hgrant
      exact ⟨a.grantRevision, AList.lookup_insert _, h.revision r hr⟩
    · exact ⟨r, (AList.lookup_insert_ne hgrant).trans hr, le_rfl⟩
  · intro id identity hidentity
    by_cases hid : id = a.contextId
    · subst hid
      rw [h.context identity hidentity]
      exact AList.lookup_insert _
    · exact (AList.lookup_insert_ne hid).trans hidentity

theorem goes_of_perform (hahead : state.durable.Ahead Grows) (call : Call) :
    state.durable.Goes Grows (call.perform isUuid state).2.durable := by
  have hput {a : ExternalAuthority} {node runtime : String} {nowMs : ℤ} (write : Write)
      (hcheck : checkAdmission isUuid state a node runtime nowMs = .ok ()) :
      state.durable.Goes Grows (state.durable.put write (state.durable.memory.admitted a)) :=
    .put Grows.refl hahead (grows_admitted (admissible hcheck))
  have hcases := perform_cases isUuid state call
  revert hcases
  generalize call.perform isUuid state = result
  intro hcases
  cases hcases with
  | refused | renewed => exact ⟨Grows.refl _, hahead⟩
  | unstored a node runtime execution clock write instant e hcheck => exact hput write hcheck
  | late a node runtime execution clock write instant e stored hcheck hstored =>
    rcases hstored with ⟨-, rfl⟩ | rfl
    · exact ⟨Grows.refl _, hahead⟩
    · exact hput .done hcheck
  | admitted a node runtime execution clock write instant stored hcheck hstored =>
    rcases hstored with ⟨-, rfl⟩ | rfl
    · exact ⟨Grows.refl _, hahead⟩
    · exact hput .done hcheck
  | pruned | unrevoked | revoked =>
    exact .assign Grows.trans hahead (.of_same rfl rfl) (.of_same rfl rfl)

theorem grows_of_runs {w w' : World Durable ExternalAuthority} {events : List (Event Call)}
    (hrun : Runs (Step (grants isUuid)) w events w') (hahead : w.state.durable.Ahead Grows) :
    w.state.durable.Goes Grows w'.state.durable := by
  refine hrun.preserves (P := fun s => w.state.durable.Goes Grows s.state.durable)
    (fun s e s' hs hstep => ?_) ⟨Grows.refl _, hahead⟩
  have hnext : s.state.durable.Goes Grows s'.state.durable := by
    cases hstep with
    | call call => exact goes_of_perform hs.ahead call
    | finish | expiredJobs | later => exact ⟨Grows.refl _, hs.ahead⟩
    | restart => exact .reopen Grows.refl hs.ahead
  exact ⟨hs.memory.trans _ _ _ hnext.memory, hnext.ahead⟩

theorem ahead_of_reached {w : World Durable ExternalAuthority} (hw : Reached (grants isUuid) w) :
    w.state.durable.Ahead Grows := by
  obtain ⟨durable, now, nowMs, events, hrun⟩ := hw
  exact (grows_of_runs hrun (Grows.refl durable)).ahead

/-- No lease of the grant below the revision is admitted, renewed or left running. -/
structure Floor (grant : String) (r : ℤ) (state : Grants) : Prop where
  store : state.durable.Both fun d => ∃ r', d.grantRevisions.lookup grant = some r' ∧ r ≤ r'
  leases : Each (fun _ lease => lease.authority.grantId = grant →
    lease.authority.grantRevision < r → lease.stopped = true) state.leases

theorem extended_same {old a : ExternalAuthority} (h : old.extended a = a) :
    a.grantId = old.grantId ∧ a.grantRevision = old.grantRevision := by
  rw [← h]
  exact ⟨rfl, rfl⟩

theorem Both.grows {P : Durable → Prop} {s s' : Storage Durable} (h : s.Both P)
    (hgoes : s.Goes Grows s') (hP : ∀ d d', Grows d d' → P d → P d') : s'.Both P :=
  ⟨hP _ _ hgoes.memory h.1, hP _ _ hgoes.ahead (hP _ _ hgoes.memory h.1)⟩

theorem Floor.perform {grant : String} {r : ℤ} (h : Floor grant r state)
    (hahead : state.durable.Ahead Grows) (call : Call) :
    Floor grant r (call.perform isUuid state).2 := by
  have hstopped (a : ExternalAuthority) : Each (fun _ lease => lease.authority.grantId = grant →
      lease.authority.grantRevision < r → lease.stopped = true) (stopWhere a.below state.leases) :=
    each_stopWhere h.leases fun _ _ _ _ _ => rfl
  refine ⟨Both.grows h.store (goes_of_perform hahead call) ?_, ?_⟩
  · rintro d d' hgrows ⟨r', hr', hle⟩
    obtain ⟨r'', hr'', hle'⟩ := hgrows.revisions grant r' hr'
    exact ⟨r'', hr'', hle.trans hle'⟩
  have hcases := perform_cases isUuid state call
  revert hcases
  generalize call.perform isUuid state = result
  intro hcases
  cases hcases with
  | refused | unstored | pruned | unrevoked => exact h.leases
  | late a => exact hstopped a
  | admitted a node runtime execution clock write instant stored hcheck hstored =>
    refine each_insert (hstopped a) fun hgrant hlow => ?_
    obtain ⟨r', hr', hle⟩ := h.store.1
    rw [← hgrant] at hr'
    exact absurd ((admissible hcheck).revision r' hr') (not_le.mpr (hlow.trans_le hle))
  | renewed a node runtime clock leaseInstant clockInstant old hvalid hrevoked hrevision hold hsame =>
    refine each_mapValues h.leases fun id lease hlease hkept => ?_
    split
    · rename_i hid
      rw [hid, hold] at hlease
      obtain rfl := Option.some.inj hlease
      obtain ⟨hgrant, hrev⟩ := extended_same hsame
      intro hthis hlow
      exact hkept (hgrant.symm.trans hthis) (hrev ▸ hlow)
    · exact hkept
  | revoked a =>
    refine each_mapValues h.leases fun id lease hlease hkept => ?_
    split
    · exact fun _ _ => rfl
    · exact hkept

theorem Floor.runs {grant : String} {r : ℤ} {w w' : World Durable ExternalAuthority}
    {events : List (Event Call)} (h : Floor grant r w.state) (hahead : w.state.durable.Ahead Grows)
    (hrun : Runs (Step (grants isUuid)) w events w') : Floor grant r w'.state := by
  have hboth := hrun.preserves (P := fun s => s.state.durable.Ahead Grows ∧ Floor grant r s.state)
    (fun s e s' hs hstep => ?_) ⟨hahead, h⟩
  · exact hboth.2
  · have hkept := hstep.keeps hs.2.store hs.2.leases (fun _ h => h) fun call _ =>
      ⟨(hs.2.perform hs.1 call).store, (hs.2.perform hs.1 call).leases⟩
    exact ⟨(grows_of_runs (Runs.stay.next hstep) hs.1).ahead, hkept.1, hkept.2⟩

/-- The store of a successful admission has its identity and its revision, in both copies. -/
theorem Fenced.both {a : ExternalAuthority} {stored : Storage Durable} (h : Fenced state a stored)
    (hahead : state.durable.Ahead Grows) :
    stored.memory.contexts.lookup a.contextId = some a.identity ∧
    stored.Both fun d => ∃ r', d.grantRevisions.lookup a.grantId = some r' ∧ a.grantRevision ≤ r' := by
  rcases h with ⟨hsame, rfl⟩ | rfl
  · unfold Durable.changed at hsame
    simp only [ne_eq, decide_not, Bool.or_eq_false_iff, Bool.not_eq_eq_eq_not, Bool.not_false,
      decide_eq_true_eq] at hsame
    exact ⟨hsame.1, ⟨_, hsame.2, le_rfl⟩, hahead.revisions _ _ hsame.2⟩
  · exact ⟨AList.lookup_insert _, ⟨_, AList.lookup_insert _, le_rfl⟩, ⟨_, AList.lookup_insert _, le_rfl⟩⟩

/-- What a successful admission leaves. -/
theorem admitted_leaves {a : ExternalAuthority} {node runtime : String} {execution : Bool}
    {clock : LeaseClock} {write : Write} {instant : ℕ} (hahead : state.durable.Ahead Grows)
    (hok : (admitAt isUuid state a node runtime execution clock write instant).1 = .ok ()) :
    Admissible isUuid state a node runtime clock.nowMs ∧
    (admitAt isUuid state a node runtime execution clock write instant).2.durable.memory.contexts.lookup
      a.contextId = some a.identity ∧
    Floor a.grantId a.grantRevision
      (admitAt isUuid state a node runtime execution clock write instant).2 := by
  have hcases := perform_cases isUuid state (.admitAt a node runtime execution clock write instant)
  change Performs _ _ _ (admitAt isUuid state a node runtime execution clock write instant) at hcases
  revert hcases hok
  generalize admitAt isUuid state a node runtime execution clock write instant = result
  intro hok hcases
  cases hcases with
  | refused | unstored | late => cases hok
  | admitted _ _ _ _ _ _ _ stored hcheck hstored =>
    have hboth := hstored.both hahead
    refine ⟨admissible hcheck, hboth.1, hboth.2, each_insert ?_ fun _ hlow => absurd hlow (lt_irrefl _)⟩
    intro id lease hlease
    rw [lookup_stopWhere, Option.map_eq_some_iff] at hlease
    obtain ⟨old, hold, rfl⟩ := hlease
    unfold ExternalAuthority.below
    split
    · exact fun _ _ => rfl
    · rename_i hnot
      intro hgrant hlow
      exact absurd (by simp [hgrant, hlow]) hnot

/-- What a successful renewal found and what it leaves. -/
theorem renewed_leaves {a : ExternalAuthority} {node runtime : String} {clock : LeaseClock}
    {leaseInstant clockInstant : ℕ}
    (hok : (renewAt isUuid state a node runtime clock leaseInstant clockInstant).1 = .ok ()) :
    a.valid isUuid node runtime clock.nowMs = true ∧
    state.durable.memory.revoked.lookup a.leaseId = none ∧
    state.durable.memory.grantRevisions.lookup a.grantId = some a.grantRevision ∧
    (renewAt isUuid state a node runtime clock leaseInstant clockInstant).2.durable = state.durable ∧
    ∃ lease, state.leases.lookup a.leaseId = some lease ∧ lease.liveAt leaseInstant = true ∧
      lease.authority.extended a = a ∧ lease.authority.expiresAtMs < a.expiresAtMs ∧
      lease.authority.authExpiresAtMs ≤ a.authExpiresAtMs ∧
      fundingRefused lease.authority.fundingExpiresAtMs a.fundingExpiresAtMs = false ∧
      ∀ id, (renewAt isUuid state a node runtime clock leaseInstant clockInstant).2.leases.lookup id =
        if id = a.leaseId then some { lease with authority := a, deadline := clock.deadline }
        else state.leases.lookup id := by
  have hcases := perform_cases isUuid state (.renewAt a node runtime clock leaseInstant clockInstant)
  change Performs _ _ _ (renewAt isUuid state a node runtime clock leaseInstant clockInstant) at hcases
  revert hcases hok
  generalize renewAt isUuid state a node runtime clock leaseInstant clockInstant = result
  intro hok hcases
  cases hcases with
  | refused => cases hok
  | renewed _ _ _ _ _ _ lease hvalid hrevoked hrevision hlease hsame hlive hlonger =>
    refine ⟨hvalid, hrevoked, hrevision, rfl, lease, hlease, hlive, hsame, hlonger.1, hlonger.2.1,
      hlonger.2.2, fun id => ?_⟩
    dsimp only
    rw [lookup_mapValues]
    split
    · rename_i hid
      rw [hid, hlease]
      rfl
    · cases state.leases.lookup id <;> rfl

theorem Floor.refuses {grant : String} {r : ℤ} (h : Floor grant r state)
    (hahead : state.durable.Ahead Grows) {a : ExternalAuthority} (hgrant : a.grantId = grant)
    (hlow : a.grantRevision < r) :
    (∀ node runtime execution clock write instant,
      (admitAt isUuid state a node runtime execution clock write instant).1 ≠ .ok ()) ∧
    ∀ node runtime clock leaseInstant clockInstant,
      (renewAt isUuid state a node runtime clock leaseInstant clockInstant).1 ≠ .ok () := by
  obtain ⟨r', hr', hle⟩ := h.store.1
  rw [← hgrant] at hr'
  constructor
  · intro node runtime execution clock write instant hok
    have hadmissible := (admitted_leaves hahead hok).1
    exact absurd (hadmissible.revision r' hr') (not_le.mpr (hlow.trans_le hle))
  · intro node runtime clock leaseInstant clockInstant hok
    obtain ⟨-, -, hrevision, -⟩ := renewed_leaves hok
    rw [hr'] at hrevision
    obtain rfl := Option.some.inj hrevision
    exact absurd hle (not_le.mpr hlow)

theorem Floor.not_live {grant : String} {r : ℤ} (h : Floor grant r state) {id : String}
    {lease : Lease ExternalAuthority} (hlease : state.leases.lookup id = some lease)
    (hgrant : lease.authority.grantId = grant) (hlow : lease.authority.grantRevision < r)
    (instant : ℕ) : live state.leases id instant = false := by
  unfold live Lease.liveAt
  rw [hlease]
  simp [h.leases id lease hlease hgrant hlow]

/-- The messages of a run: `now_ms` does not decrease, and all that name a lease agree on when its
job expires. -/
def Orderly (jobExpires : String → ℤ) (w : World Durable ExternalAuthority) (e : Event Call) : Prop :=
  ∀ call, e = .call call →
    w.nowMs ≤ call.clock.nowMs ∧ call.authority.jobExpiresAtMs = jobExpires call.authority.leaseId

/-- The job of the lease has expired, or the store refuses the lease beyond that. -/
def Refuses (jobExpires : String → ℤ) (id : String) (nowMs : ℤ) (d : Durable) : Prop :=
  jobExpires id ≤ nowMs ∨ ∃ until_, d.revoked.lookup id = some until_ ∧ jobExpires id ≤ until_

theorem Refuses.mono {jobExpires : String → ℤ} {id : String} {nowMs nowMs' : ℤ} {d : Durable}
    (h : Refuses jobExpires id nowMs d) (hle : nowMs ≤ nowMs') : Refuses jobExpires id nowMs' d :=
  h.imp_left fun hexpired => hexpired.trans hle

theorem Refuses.pruned {jobExpires : String → ℤ} {id : String} {nowMs : ℤ} {d : Durable}
    (h : Refuses jobExpires id nowMs d) : Refuses jobExpires id nowMs (d.pruned nowMs) := by
  rcases h with hexpired | ⟨until_, huntil, hle⟩
  · exact Or.inl hexpired
  · by_cases hkept : nowMs ≤ until_
    · refine Or.inr ⟨until_, ?_, hle⟩
      unfold Durable.pruned
      dsimp only
      rw [lookup_retain, huntil]
      simp [hkept]
    · exact Or.inl (hle.trans (not_le.mp hkept).le)

theorem refuses_revoking {jobExpires : String → ℤ} {id : String} {nowMs : ℤ} {d : Durable}
    {a : ExternalAuthority} (hjob : a.jobExpiresAtMs = jobExpires a.leaseId)
    (h : id ≠ a.leaseId → Refuses jobExpires id nowMs d) :
    Refuses jobExpires id nowMs (d.revoking a nowMs) := by
  by_cases hid : id = a.leaseId
  · subst hid
    refine Or.inr ⟨_, AList.lookup_insert _, ?_⟩
    rw [← hjob]
    exact le_max_left _ _
  · rcases (h hid).pruned with hexpired | ⟨until_, huntil, hle⟩
    · exact Or.inl hexpired
    · exact Or.inr ⟨until_, (AList.lookup_insert_ne hid).trans huntil, hle⟩

/-- The lease is stopped for good. -/
structure Withdrawn (jobExpires : String → ℤ) (id : String) (nowMs : ℤ) (state : Grants) : Prop where
  store : state.durable.Both (Refuses jobExpires id nowMs)
  leases : Each (fun other lease => other = id → lease.stopped = true) state.leases

/-- A valid message names no lease that is refused. -/
theorem Refuses.not_valid {jobExpires : String → ℤ} {nowMs : ℤ} {d : Durable}
    {a : ExternalAuthority} {node runtime : String} (h : Refuses jobExpires a.leaseId nowMs d)
    (hjob : a.jobExpiresAtMs = jobExpires a.leaseId) (hrevoked : d.revoked.lookup a.leaseId = none) :
    a.valid isUuid node runtime nowMs = false := by
  by_contra hvalid
  rw [Bool.not_eq_false] at hvalid
  unfold ExternalAuthority.valid ExternalAuthority.validStop at hvalid
  simp only [Bool.and_eq_true, decide_eq_true_eq] at hvalid
  rcases h with hexpired | ⟨until_, huntil, -⟩
  · omega
  · rw [hrevoked] at huntil
    cases huntil

theorem each_stopLease {id : String} {leases : Leases ExternalAuthority} (other : String)
    (h : Each (fun key lease => key = id → lease.stopped = true) leases) :
    Each (fun key lease => key = id → lease.stopped = true) (stopLease other leases) := by
  refine each_mapValues h fun key lease hlease hkept => ?_
  split
  · exact fun _ => rfl
  · exact hkept

theorem Withdrawn.perform {jobExpires : String → ℤ} {id : String} {nowMs : ℤ}
    (h : Withdrawn jobExpires id nowMs state) (hnow : nowMs ≤ call.clock.nowMs)
    (hjob : call.authority.jobExpiresAtMs = jobExpires call.authority.leaseId) :
    Withdrawn jobExpires id call.clock.nowMs (call.perform isUuid state).2 := by
  have hstore : state.durable.Both (Refuses jobExpires id call.clock.nowMs) :=
    ⟨h.store.1.mono hnow, h.store.2.mono hnow⟩
  have hcases := perform_cases isUuid state call
  revert hcases
  generalize call.perform isUuid state = result
  intro hcases
  cases hcases with
  | refused => exact ⟨hstore, h.leases⟩
  | unstored => exact ⟨hstore.put hstore.1, h.leases⟩
  | late a node runtime execution clock write instant e stored hcheck hstored =>
    refine ⟨?_, each_stopWhere h.leases fun _ _ _ _ => rfl⟩
    rcases hstored with ⟨-, rfl⟩ | rfl
    · exact hstore
    · exact hstore.put hstore.1
  | admitted a node runtime execution clock write instant stored hcheck hstored =>
    refine ⟨?_, each_insert (each_stopWhere h.leases fun _ _ _ _ => rfl) fun hid => ?_⟩
    · rcases hstored with ⟨-, rfl⟩ | rfl
      · exact hstore
      · exact hstore.put hstore.1
    · subst hid
      have hinvalid : a.valid isUuid node runtime clock.nowMs = false :=
        hstore.1.not_valid hjob (admissible hcheck).revoked
      rw [(admissible hcheck).valid] at hinvalid
      cases hinvalid
  | renewed a node runtime clock leaseInstant clockInstant old hvalid hrevoked =>
    refine ⟨hstore, each_mapValues h.leases fun key lease hlease hkept => ?_⟩
    split
    · exact hkept
    · exact hkept
  | pruned a node runtime clock write instant =>
    exact ⟨hstore.assign hstore.1.pruned, h.leases⟩
  | unrevoked a node runtime clock write instant =>
    exact ⟨hstore.assign (refuses_revoking hjob fun _ => hstore.1), h.leases⟩
  | revoked a node runtime clock write instant =>
    exact ⟨hstore.assign (refuses_revoking hjob fun _ => hstore.1), each_stopLease _ h.leases⟩

/-- A step of a run whose messages are orderly. -/
def Ordered (isUuid : String → Bool) (jobExpires : String → ℤ) (w : World Durable ExternalAuthority)
    (e : Event Call) (w' : World Durable ExternalAuthority) : Prop :=
  Step (grants isUuid) w e w' ∧ Orderly jobExpires w e

theorem Withdrawn.runs {jobExpires : String → ℤ} {id : String}
    {w w' : World Durable ExternalAuthority} {events : List (Event Call)}
    (h : Withdrawn jobExpires id w.nowMs w.state)
    (hrun : Runs (Ordered isUuid jobExpires) w events w') :
    Withdrawn jobExpires id w'.nowMs w'.state := by
  refine hrun.preserves (P := fun w => Withdrawn jobExpires id w.nowMs w.state)
    (fun s e s' hs hstep => ?_) h
  obtain ⟨hnext, horderly⟩ := hstep
  cases e with
  | call call =>
    cases hnext
    obtain ⟨hnow, hjob⟩ := horderly call rfl
    exact hs.perform hnow hjob
  | finish | expiredJobs | later | restart =>
    have hsame : s'.nowMs = s.nowMs := by
      cases hnext
      rfl
    have hkept := hnext.keeps hs.store hs.leases (fun _ h => h) fun call hcall => nomatch hcall
    rw [hsame]
    exact ⟨hkept.1, hkept.2⟩

/-- What is promised of a call and of every state after it. -/
structure Promised (isUuid : String → Bool) (jobExpires : String → ℤ)
    (w : World Durable ExternalAuthority) (call : Call) (w₂ : World Durable ExternalAuthority) :
    Prop where
  revoked : ∀ a node runtime clock write instant,
    call = .revokeAt a node runtime clock write instant → (call.perform isUuid w.state).1 = .ok () →
    (∀ instant', live w₂.state.leases a.leaseId instant' = false) ∧
    ∀ a' : ExternalAuthority, a'.leaseId = a.leaseId → a'.jobExpiresAtMs = jobExpires a.leaseId →
      (∀ node' runtime' execution clock' write' instant', w₂.nowMs ≤ clock'.nowMs →
        (admitAt isUuid w₂.state a' node' runtime' execution clock' write' instant').1 ≠ .ok ()) ∧
      ∀ node' runtime' clock' leaseInstant clockInstant, w₂.nowMs ≤ clock'.nowMs →
        (renewAt isUuid w₂.state a' node' runtime' clock' leaseInstant clockInstant).1 ≠ .ok ()
  revisions : ∀ grant r, w.state.durable.memory.grantRevisions.lookup grant = some r →
    ∃ r', w₂.state.durable.memory.grantRevisions.lookup grant = some r' ∧ r ≤ r'
  admitted : ∀ a node runtime execution clock write instant,
    call = .admitAt a node runtime execution clock write instant →
    (call.perform isUuid w.state).1 = .ok () →
    (∀ id lease instant', w₂.state.leases.lookup id = some lease →
      lease.authority.grantId = a.grantId → lease.authority.grantRevision < a.grantRevision →
      live w₂.state.leases id instant' = false) ∧
    (∀ a' : ExternalAuthority, a'.grantId = a.grantId → a'.grantRevision < a.grantRevision →
      (∀ node' runtime' execution' clock' write' instant',
        (admitAt isUuid w₂.state a' node' runtime' execution' clock' write' instant').1 ≠ .ok ()) ∧
      ∀ node' runtime' clock' leaseInstant clockInstant,
        (renewAt isUuid w₂.state a' node' runtime' clock' leaseInstant clockInstant).1 ≠ .ok ()) ∧
    ∀ (a' : ExternalAuthority) node' runtime' execution' clock' write' instant',
      a'.contextId = a.contextId →
      (admitAt isUuid w₂.state a' node' runtime' execution' clock' write' instant').1 = .ok () →
      a'.principal.identity = a.principal.identity ∧ a'.ownerId = a.ownerId ∧
        a'.nodeId = a.nodeId ∧ a'.grantId = a.grantId
  renewals : ∀ (a : ExternalAuthority) node runtime clock leaseInstant clockInstant,
    (renewAt isUuid w₂.state a node runtime clock leaseInstant clockInstant).1 = .ok () →
    (renewAt isUuid w₂.state a node runtime clock leaseInstant clockInstant).2.durable =
      w₂.state.durable ∧
    ∃ lease, w₂.state.leases.lookup a.leaseId = some lease ∧ lease.liveAt leaseInstant = true ∧
      a = { lease.authority with
        expiresAtMs := a.expiresAtMs
        authExpiresAtMs := a.authExpiresAtMs
        fundingExpiresAtMs := a.fundingExpiresAtMs } ∧
      lease.authority.expiresAtMs < a.expiresAtMs ∧
      lease.authority.authExpiresAtMs ≤ a.authExpiresAtMs ∧
      (lease.authority.fundingExpiresAtMs = none ∧ a.fundingExpiresAtMs = none ∨
        ∃ old new, lease.authority.fundingExpiresAtMs = some old ∧
          a.fundingExpiresAtMs = some new ∧ old ≤ new) ∧
      ∀ id, (renewAt isUuid w₂.state a node runtime clock leaseInstant clockInstant).2.leases.lookup id =
        if id = a.leaseId then some { lease with authority := a, deadline := clock.deadline }
        else w₂.state.leases.lookup id
  jobs : Conserved w₂ ∧ ∀ e w₃, Step (grants isUuid) w₂ e w₃ → ∀ id lease job,
    w₂.state.leases.lookup id = some lease → lease.job = some job →
    (∃ lease', w₃.state.leases.lookup id = some lease' ∧ lease'.job = some job) ∨ e = .restart ∨
      ∃ instants reports, e = .expiredJobs instants reports ∧ job ∈ reports

/-- A lease for one job of a client. -/
def buildLease : ExternalAuthority :=
  { principal := .oauth "a0000000-0000-4000-8000-000000000001" "a0000000-0000-4000-8000-000000000002"
    oauthConsent := some ⟨"b0000000-0000-4000-8000-000000000001", "r1"⟩
    contextId := "c0000000-0000-4000-8000-000000000001"
    generation := 1
    mode := sharedMode
    ownerId := "a0000000-0000-4000-8000-000000000001"
    actorId := "a0000000-0000-4000-8000-000000000001"
    nodeId := "d0000000-0000-4000-8000-000000000001"
    runtimeId := "d0000000-0000-4000-8000-000000000002"
    runtimeGeneration := none
    credentialEpoch := none
    grantId := "e0000000-0000-4000-8000-000000000001"
    grantRevision := 1
    assignmentRevision := 1
    leaseId := "f0000000-0000-4000-8000-000000000001"
    jobId := some "f0000000-0000-4000-8000-000000000002"
    expiresAtMs := 31000
    authExpiresAtMs := 600000
    jobExpiresAtMs := 300000
    fundingExpiresAtMs := none
    capabilities := ⟨true, false, false, false, false⟩
    fileRoots := ["/work"]
    services := [] }

def stopBuild : Call :=
  .revokeAt buildLease "d0000000-0000-4000-8000-000000000001" "d0000000-0000-4000-8000-000000000002"
    ⟨1000, 30000⟩ .done 0

def idleWorld : World Durable ExternalAuthority := World.start ⟨∅, ∅, ∅⟩ 0 1000

def building : World Durable ExternalAuthority :=
  (grants hasUuidLength).called idleWorld (.admitAt buildLease "d0000000-0000-4000-8000-000000000001"
    "d0000000-0000-4000-8000-000000000002" true ⟨1000, 30000⟩ .done 0)

def stopped : World Durable ExternalAuthority := (grants hasUuidLength).called building stopBuild

end NyxId.Fences.External
