import NyxId.Fences.AuthorityModel

/-!
What holds of the agents' fences over whole runs, with writes that fail and restarts.
-/

namespace NyxId.Fences

open Interleave Collection MachineAuthority

variable {isUuid : String → Bool} {state : Agents} {call : Call}

/-- What a call writes, once its checks have passed. -/
inductive Stores (isUuid : String → Bool) (state : Agents) : Call → Durable → Prop
  | admission (a : Authority) (runtime : String) (job : Option String) (clock : LeaseClock)
      (write : Write) (instant : ℕ)
      (hcheck : checkAdmission isUuid state a runtime clock.nowMs = .ok ()) :
      Stores isUuid state (.admitAt a runtime job clock write instant)
        (state.durable.memory.admitted a)
  | revocation (a : Authority) (runtime : String) (clock : LeaseClock) (write : Write) (instant : ℕ)
      (hvalid : a.valid isUuid runtime clock.nowMs = true) :
      Stores isUuid state (.revokeAt a runtime clock write instant) (state.durable.memory.revoked a)

/-- The store has the fence of an admission. -/
def Fenced (state : Agents) (a : Authority) (write : Write) (stored : Storage Durable) : Prop :=
  state.durable.memory.changed a = false ∧ stored = state.durable ∨
    write = .done ∧ stored = state.durable.put .done (state.durable.memory.admitted a)

def Call.write : Call → Option Write
  | .admitAt _ _ _ _ write _ => some write
  | .renewAt _ _ _ _ _ => none
  | .revokeAt _ _ _ write _ => some write

inductive Performs (isUuid : String → Bool) (state : Agents) :
    Call → Except String Unit × Agents → Prop
  | refused (call : Call) (e : String) : Performs isUuid state call (.error e, state)
  | unstored (call : Call) (write : Write) (next : Durable)
      (hstores : Stores isUuid state call next) (hcall : call.write = some write)
      (hwrite : write ≠ .done) :
      Performs isUuid state call (.error "authority_store_unavailable",
        { state with durable := state.durable.put write next })
  | late (a : Authority) (runtime : String) (job : Option String) (clock : LeaseClock)
      (write : Write) (instant : ℕ) (stored : Storage Durable)
      (hcheck : checkAdmission isUuid state a runtime clock.nowMs = .ok ())
      (hstored : Fenced state a write stored) :
      Performs isUuid state (.admitAt a runtime job clock write instant)
        (.error "authority_expired", ⟨stored, stopWhere a.below state.leases⟩)
  | admitted (a : Authority) (runtime : String) (job : Option String) (clock : LeaseClock)
      (write : Write) (instant : ℕ) (stored : Storage Durable)
      (hcheck : checkAdmission isUuid state a runtime clock.nowMs = .ok ())
      (hstored : Fenced state a write stored) (hclock : instant < clock.deadline) :
      Performs isUuid state (.admitAt a runtime job clock write instant) (.ok (), ⟨stored,
        (stopWhere a.below state.leases).insert a.leaseId ⟨a, clock.deadline, false, job⟩⟩)
  | renewed (a : Authority) (runtime : String) (clock : LeaseClock) (leaseInstant clockInstant : ℕ)
      (lease : Lease Authority)
      (hrevision : state.durable.memory.revisions.lookup a.agentId = some a.revision)
      (hlease : state.leases.lookup a.leaseId = some lease)
      (hsame : { lease.authority with expiresAtMs := a.expiresAtMs } = a)
      (hlive : lease.stopped = false ∧ leaseInstant < lease.deadline) :
      Performs isUuid state (.renewAt a runtime clock leaseInstant clockInstant) (.ok (), { state with
        leases := state.leases.mapValues fun id lease => if id = a.leaseId then
          { lease with
            authority.expiresAtMs := a.expiresAtMs
            deadline := clock.deadline } else lease })
  | revoked (a : Authority) (runtime : String) (clock : LeaseClock) (instant : ℕ)
      (hvalid : a.valid isUuid runtime clock.nowMs = true) :
      Performs isUuid state (.revokeAt a runtime clock .done instant)
        (.ok (), ⟨state.durable.put .done (state.durable.memory.revoked a),
          stopWhere a.below state.leases⟩)

theorem perform_cases (isUuid : String → Bool) (state : Agents) (call : Call) :
    Performs isUuid state call (call.perform isUuid state) := by
  cases call with
  | admitAt a runtime job clock write instant =>
    unfold Call.perform admitAt
    dsimp only
    cases hcheck : checkAdmission isUuid state a runtime clock.nowMs with
    | error e => exact .refused _ e
    | ok u =>
      dsimp only
      split
      · rename_i hunstored
        rw [if_pos hunstored.1]
        exact .unstored _ write _ (.admission a runtime job clock write instant hcheck) rfl hunstored.2
      · rename_i hstored
        have hfenced : Fenced state a write (if state.durable.memory.changed a then
            state.durable.put write (state.durable.memory.admitted a) else state.durable) := by
          split
          · rename_i hchanged
            have hwrite : write = .done := by
              by_contra hwrite
              exact hstored ⟨hchanged, hwrite⟩
            exact Or.inr ⟨hwrite, by rw [hwrite]⟩
          · rename_i hsame
            exact Or.inl ⟨Bool.not_eq_true _ ▸ hsame, rfl⟩
        split
        · exact .late a runtime job clock write instant _ hcheck hfenced
        · rename_i hclock
          exact .admitted a runtime job clock write instant _ hcheck hfenced (not_le.mp hclock)
  | renewAt a runtime clock leaseInstant clockInstant =>
    unfold Call.perform renewAt
    dsimp only
    split
    · exact .refused _ _
    split
    · exact .refused _ _
    rename_i hrevision
    split
    · exact .refused _ _
    rename_i lease hlease
    split
    · exact .refused _ _
    rename_i hok
    simp only [not_or, not_le, Bool.not_eq_true, ne_eq, not_not] at hok hrevision
    exact .renewed a runtime clock leaseInstant clockInstant lease hrevision hlease hok.1
      ⟨hok.2.1, hok.2.2.1⟩
  | revokeAt a runtime clock write instant =>
    unfold Call.perform revokeAt
    dsimp only
    split
    · exact .refused _ _
    rename_i hvalid
    rw [Bool.not_eq_true', Bool.not_eq_false] at hvalid
    split
    · rename_i hwrite
      exact .unstored _ write _ (.revocation a runtime clock write instant hvalid) rfl hwrite
    · rename_i hwrite
      rw [not_not] at hwrite
      rw [hwrite]
      exact .revoked a runtime clock instant hvalid

/-- What passing the checks of an admission says of the store and of the table. -/
structure Admissible (isUuid : String → Bool) (state : Agents) (a : Authority) (runtime : String)
    (nowMs : ℤ) : Prop where
  valid : a.valid isUuid runtime nowMs = true
  revision : ∀ r, state.durable.memory.revisions.lookup a.agentId = some r → r ≤ a.revision
  context : ∀ old, state.durable.memory.contexts.lookup a.contextId = some old →
    old.refuses a.identity = false
  lease : state.leases.lookup a.leaseId = none

theorem admissible {a : Authority} {runtime : String} {nowMs : ℤ}
    (h : checkAdmission isUuid state a runtime nowMs = .ok ()) :
    Admissible isUuid state a runtime nowMs := by
  unfold checkAdmission at h
  dsimp only at h
  split at h
  · cases h
  rename_i hvalid
  split at h
  · cases h
  rename_i hrevision
  split at h
  · cases h
  rename_i hcontext
  split at h
  · cases h
  rename_i hlease
  refine ⟨by simpa using hvalid, fun r hr => ?_, fun old hold => ?_, by simpa using hlease⟩
  · rw [hr] at hrevision
    simpa using hrevision
  · rw [hold] at hcontext
    simpa using hcontext

theorem agents_keeps (call : Call) (state : Agents) :
    Keeps state.leases ((agents isUuid).newJob call state).toList
      (call.perform isUuid state).2.leases := by
  have hcases := perform_cases isUuid state call
  have herror (e : String) (h : (call.perform isUuid state).1 = .error e) :
      (agents isUuid).newJob call state = none := Kind.newJob_of_error h
  have hok (h : (call.perform isUuid state).1 = .ok ()) :
      (agents isUuid).newJob call state = call.admission.bind fun admission =>
        admission.2.map fun job => (admission.1, job) := Kind.newJob_of_ok h
  revert hcases herror hok
  generalize call.perform isUuid state = result
  intro hcases herror hok
  cases hcases with
  | refused call e =>
    rw [herror _ rfl]
    exact keeps_refl _
  | unstored call write next hstores hcall hwrite =>
    rw [herror _ rfl]
    exact keeps_refl _
  | late a runtime job clock write instant stored hcheck hstored =>
    rw [herror _ rfl]
    exact keeps_stopWhere _ _
  | admitted a runtime job clock write instant stored hcheck hstored hclock =>
    rw [hok rfl]
    exact keeps_admitted a.below _ (admissible hcheck).lease
  | renewed a runtime clock leaseInstant clockInstant lease hrevision hlease hsame hlive =>
    rw [hok rfl]
    refine keeps_mapValues _ fun id lease => ?_
    split <;> exact ⟨rfl, fun h => h⟩
  | revoked a runtime clock instant hvalid =>
    rw [hok rfl]
    exact keeps_stopWhere _ _

theorem agents_lawful : Lawful (agents isUuid) :=
  ⟨fun c state => (agents_keeps c state).1, fun c state => (agents_keeps c state).2⟩

theorem perform_durable (isUuid : String → Bool) (state : Agents) (call : Call) :
    (call.perform isUuid state).2.durable = state.durable ∨
      ∃ next write, Stores isUuid state call next ∧ call.write = some write ∧
        (call.perform isUuid state).2.durable = state.durable.put write next := by
  have hcases := perform_cases isUuid state call
  revert hcases
  generalize call.perform isUuid state = result
  intro hcases
  cases hcases with
  | refused => exact Or.inl rfl
  | unstored call write next hstores hcall hwrite => exact Or.inr ⟨next, write, hstores, hcall, rfl⟩
  | late a runtime job clock write instant stored hcheck hstored =>
    rcases hstored with ⟨-, rfl⟩ | ⟨rfl, rfl⟩
    · exact Or.inl rfl
    · exact Or.inr ⟨_, .done, .admission a runtime job clock .done instant hcheck, rfl, rfl⟩
  | admitted a runtime job clock write instant stored hcheck hstored hclock =>
    rcases hstored with ⟨-, rfl⟩ | ⟨rfl, rfl⟩
    · exact Or.inl rfl
    · exact Or.inr ⟨_, .done, .admission a runtime job clock .done instant hcheck, rfl, rfl⟩
  | renewed => exact Or.inl rfl
  | revoked a runtime clock instant hvalid =>
    exact Or.inr ⟨_, .done, .revocation a runtime clock .done instant hvalid, rfl, rfl⟩

/-- An order on stores that every write follows is followed by every step. -/
theorem Step.goes {le : Durable → Durable → Prop} (hrefl : ∀ d, le d d)
    {w w' : World Durable Authority} {e : Event Call} (hstep : Step (agents isUuid) w e w')
    (hstores : ∀ call next, e = .call call → call.write ≠ some .failed →
      Stores isUuid w.state call next → le w.state.durable.memory next)
    (hahead : w.state.durable.Ahead le) : w.state.durable.Goes le w'.state.durable := by
  cases hstep with
  | call call hfirst hlast =>
    have hsame : ((agents isUuid).called w call).state.durable =
        (call.perform isUuid w.state).2.durable := rfl
    rw [hsame]
    rcases perform_durable isUuid w.state call with hdurable | ⟨next, write, hnext, hcall, hdurable⟩
    · rw [hdurable]
      exact ⟨hrefl _, hahead⟩
    · rw [hdurable]
      by_cases hfailed : write = .failed
      · subst hfailed
        exact ⟨hrefl _, hahead⟩
      · exact .put hrefl hahead (hstores call next rfl (by simpa [hcall] using hfailed) hnext)
  | finish id => exact ⟨hrefl _, hahead⟩
  | expiredJobs => exact ⟨hrefl _, hahead⟩
  | later => exact ⟨hrefl _, hahead⟩
  | restart => exact .reopen hrefl hahead

/-- The identity of a context but for its mode and generation. -/
def Identity.Same (old new : Identity) : Prop :=
  new.agent = old.agent ∧ new.owner = old.owner ∧ new.actor = old.actor ∧ new.group = old.group

/-- Revisions do not decrease and contexts keep their identity. -/
structure Grows (d d' : Durable) : Prop where
  revisions : ∀ agent r, d.revisions.lookup agent = some r →
    ∃ r', d'.revisions.lookup agent = some r' ∧ r ≤ r'
  contexts : ∀ id old, d.contexts.lookup id = some old →
    ∃ new, d'.contexts.lookup id = some new ∧ old.Same new

theorem Grows.refl (d : Durable) : Grows d d :=
  ⟨fun _ r hr => ⟨r, hr, le_rfl⟩, fun _ old hold => ⟨old, hold, rfl, rfl, rfl, rfl⟩⟩

theorem Identity.Same.trans {a b c : Identity} (h : a.Same b) (h' : b.Same c) : a.Same c :=
  ⟨h'.1.trans h.1, h'.2.1.trans h.2.1, h'.2.2.1.trans h.2.2.1, h'.2.2.2.trans h.2.2.2⟩

theorem Grows.trans {d d' d'' : Durable} (h : Grows d d') (h' : Grows d' d'') : Grows d d'' where
  revisions agent r hr := by
    obtain ⟨r', hr', hle⟩ := h.revisions agent r hr
    obtain ⟨r'', hr'', hle'⟩ := h'.revisions agent r' hr'
    exact ⟨r'', hr'', hle.trans hle'⟩
  contexts id old hold := by
    obtain ⟨new, hnew, hsame⟩ := h.contexts id old hold
    obtain ⟨newer, hnewer, hsame'⟩ := h'.contexts id new hnew
    exact ⟨newer, hnewer, hsame.trans hsame'⟩

/-- What an identity that is not refused has in common with the stored one. -/
theorem same_of_not_refuses {old new : Identity} (h : old.refuses new = false) :
    old.Same new ∧
      (old.mode = separatedMode → new.mode = separatedMode → old.generation ≤ new.generation) := by
  unfold Identity.refuses at h
  simp only [Bool.or_eq_false_iff, decide_eq_false_iff_not, Bool.and_eq_false_iff, ne_eq, not_not,
    not_lt] at h
  obtain ⟨⟨⟨⟨hagent, howner⟩, hactor⟩, hgroup⟩, hgeneration⟩ := h
  refine ⟨⟨hagent.symm, howner.symm, hactor.symm, hgroup.symm⟩, fun hold hnew => ?_⟩
  rcases hgeneration with (hold' | hnew') | hle
  · exact absurd hold hold'
  · exact absurd hnew hnew'
  · exact hle

theorem grows_of_stores {next : Durable} (h : Stores isUuid state call next) :
    Grows state.durable.memory next := by
  cases h with
  | admission a runtime job clock write instant hcheck =>
    have hok := admissible hcheck
    constructor
    · intro agent r hr
      by_cases hagent : agent = a.agentId
      · subst hagent
        exact ⟨a.revision, AList.lookup_insert _, hok.revision r hr⟩
      · exact ⟨r, (AList.lookup_insert_ne hagent).trans hr, le_rfl⟩
    · intro id old hold
      by_cases hid : id = a.contextId
      · subst hid
        exact ⟨a.identity, AList.lookup_insert _, (same_of_not_refuses (hok.context old hold)).1⟩
      · exact ⟨old, (AList.lookup_insert_ne hid).trans hold, rfl, rfl, rfl, rfl⟩
  | revocation a runtime clock write instant hvalid =>
    constructor
    · intro agent r hr
      by_cases hagent : agent = a.agentId
      · subst hagent
        refine ⟨_, AList.lookup_insert _, ?_⟩
        rw [hr]
        exact le_max_left _ _
      · exact ⟨r, (AList.lookup_insert_ne hagent).trans hr, le_rfl⟩
    · exact fun id old hold => ⟨old, hold, rfl, rfl, rfl, rfl⟩

theorem goes_of_runs {le : Durable → Durable → Prop} (hrefl : ∀ d, le d d)
    (htrans : ∀ a b c, le a b → le b c → le a c) {w w' : World Durable Authority}
    {events : List (Event Call)} {Allowed : World Durable Authority → Event Call → Prop}
    (hrun : Runs (fun w e w' => Step (agents isUuid) w e w' ∧ Allowed w e) w events w')
    (hstores : ∀ (w : World Durable Authority) call next, Allowed w (.call call) →
      call.write ≠ some .failed → Stores isUuid w.state call next → le w.state.durable.memory next)
    (hahead : w.state.durable.Ahead le) : w.state.durable.Goes le w'.state.durable := by
  refine hrun.preserves (P := fun s => w.state.durable.Goes le s.state.durable)
    (fun s e s' hs hstep => ?_) ⟨hrefl _, hahead⟩
  have hgoes := hstep.1.goes hrefl (fun call next he hwrite hnext =>
    hstores s call next (he ▸ hstep.2) hwrite hnext) hs.ahead
  exact ⟨htrans _ _ _ hs.memory hgoes.memory, hgoes.ahead⟩

theorem grows_of_runs {w w' : World Durable Authority} {events : List (Event Call)}
    (hrun : Runs (Step (agents isUuid)) w events w') (hahead : w.state.durable.Ahead Grows) :
    w.state.durable.Goes Grows w'.state.durable :=
  goes_of_runs Grows.refl (fun _ _ _ => Grows.trans) (hrun.mono fun _ _ _ hstep => ⟨hstep, trivial⟩)
    (fun _ _ _ (_ : True) _ hstores => grows_of_stores hstores) hahead

theorem ahead_of_reached {w : World Durable Authority} (hw : Reached (agents isUuid) w) :
    w.state.durable.Ahead Grows := by
  obtain ⟨durable, now, nowMs, events, hrun⟩ := hw
  exact (grows_of_runs hrun (Grows.refl durable)).ahead

/-- No lease of the agent below the revision is admitted, renewed or left running. -/
structure Floor (agent : String) (r : ℤ) (state : Agents) : Prop where
  store : state.durable.Both fun d => ∃ r', d.revisions.lookup agent = some r' ∧ r ≤ r'
  leases : Each (fun _ lease => lease.authority.agentId = agent → lease.authority.revision < r →
    lease.stopped = true) state.leases

theorem Floor.perform {agent : String} {r : ℤ} (h : Floor agent r state) (call : Call) :
    Floor agent r (call.perform isUuid state).2 := by
  have hstopped (a : Authority) : Each (fun _ lease => lease.authority.agentId = agent →
      lease.authority.revision < r → lease.stopped = true) (stopWhere a.below state.leases) :=
    each_stopWhere h.leases fun _ _ _ _ _ => rfl
  refine ⟨?_, ?_⟩
  · rcases perform_durable isUuid state call with hsame | ⟨next, write, hstores, -, hput⟩
    · rw [hsame]
      exact h.store
    · rw [hput]
      obtain ⟨r', hr', hle⟩ := h.store.1
      obtain ⟨r'', hr'', hle'⟩ := (grows_of_stores hstores).revisions agent r' hr'
      exact h.store.put ⟨r'', hr'', hle.trans hle'⟩
  · have hcases := perform_cases isUuid state call
    revert hcases
    generalize call.perform isUuid state = result
    intro hcases
    cases hcases with
    | refused => exact h.leases
    | unstored => exact h.leases
    | late a => exact hstopped a
    | admitted a runtime job clock write instant stored hcheck hstored hclock =>
      refine each_insert (hstopped a) fun hagent hlow => ?_
      obtain ⟨r', hr', hle⟩ := h.store.1
      rw [← hagent] at hr'
      exact absurd ((admissible hcheck).revision r' hr') (not_le.mpr (hlow.trans_le hle))
    | renewed a runtime clock leaseInstant clockInstant old hrevision hold hsame hlive =>
      refine each_mapValues h.leases fun id lease hlease hkept => ?_
      split
      · exact hkept
      · exact hkept
    | revoked a => exact hstopped a

theorem Floor.runs {agent : String} {r : ℤ} {w w' : World Durable Authority}
    {events : List (Event Call)} (h : Floor agent r w.state)
    (hrun : Runs (Step (agents isUuid)) w events w') : Floor agent r w'.state := by
  refine hrun.preserves (P := fun w => Floor agent r w.state) (fun s e s' hs hstep => ?_) h
  have hkept := hstep.keeps hs.store hs.leases (fun _ h => h) fun call _ =>
    ⟨(hs.perform call).store, (hs.perform call).leases⟩
  exact ⟨hkept.1, hkept.2⟩

/-- The agent and the revision that a call fences. -/
def Call.fence : Call → Option (String × ℤ)
  | .admitAt a _ _ _ _ _ => some (a.agentId, a.revision)
  | .revokeAt a _ _ _ _ => some (a.agentId, a.revision)
  | .renewAt _ _ _ _ _ => none

theorem each_below (a : Authority) (leases : Leases Authority) :
    Each (fun _ lease => lease.authority.agentId = a.agentId →
      lease.authority.revision < a.revision → lease.stopped = true) (stopWhere a.below leases) := by
  intro id lease hlease
  rw [lookup_stopWhere, Option.map_eq_some_iff] at hlease
  obtain ⟨old, hold, rfl⟩ := hlease
  unfold Authority.below
  split
  · exact fun _ _ => rfl
  · rename_i hnot
    intro hagent hlow
    exact absurd (by simp [hagent, hlow]) hnot

/-- The store of a successful admission has its identity and its revision, in both copies. -/
theorem Fenced.both {a : Authority} {write : Write} {stored : Storage Durable}
    (h : Fenced state a write stored)
    (hahead : state.durable.Ahead Grows) :
    (stored.memory.contexts.lookup a.contextId = some a.identity ∧
      stored.memory.revisions.lookup a.agentId = some a.revision) ∧
    stored.Both fun d => ∃ r', d.revisions.lookup a.agentId = some r' ∧ a.revision ≤ r' := by
  rcases h with ⟨hsame, rfl⟩ | ⟨-, rfl⟩
  · unfold Durable.changed at hsame
    simp only [ne_eq, decide_not, Bool.or_eq_false_iff, Bool.not_eq_eq_eq_not, Bool.not_false,
      decide_eq_true_eq] at hsame
    exact ⟨⟨hsame.1.2, hsame.2⟩, ⟨_, hsame.2, le_rfl⟩, hahead.revisions _ _ hsame.2⟩
  · exact ⟨⟨AList.lookup_insert _, AList.lookup_insert _⟩,
      ⟨_, AList.lookup_insert _, le_rfl⟩, ⟨_, AList.lookup_insert _, le_rfl⟩⟩

theorem floor_of_fence {agent : String} {r : ℤ} (hahead : state.durable.Ahead Grows)
    (hfence : call.fence = some (agent, r)) (hok : (call.perform isUuid state).1 = .ok ()) :
    Floor agent r (call.perform isUuid state).2 := by
  have hcases := perform_cases isUuid state call
  revert hcases hok
  generalize call.perform isUuid state = result
  intro hok hcases
  cases hcases with
  | refused => cases hok
  | unstored => cases hok
  | late => cases hok
  | renewed => cases hfence
  | admitted a runtime job clock write instant stored hcheck hstored hclock =>
    cases hfence
    exact ⟨(hstored.both hahead).2,
      each_insert (each_below a _) fun _ hlow => absurd hlow (lt_irrefl _)⟩
  | revoked a runtime clock instant hvalid =>
    cases hfence
    exact ⟨⟨⟨_, AList.lookup_insert _, le_max_right _ _⟩, ⟨_, AList.lookup_insert _, le_max_right _ _⟩⟩,
      each_below a _⟩

theorem Floor.not_live {agent : String} {r : ℤ} (h : Floor agent r state) {id : String}
    {lease : Lease Authority} (hlease : state.leases.lookup id = some lease)
    (hagent : lease.authority.agentId = agent) (hlow : lease.authority.revision < r) (instant : ℕ) :
    live state.leases id instant = false := by
  unfold live Lease.liveAt
  rw [hlease]
  simp [h.leases id lease hlease hagent hlow]

/-- An admission that succeeds was admissible, and its authority is stored. -/
theorem fenced_of_admitted {a : Authority} {runtime : String} {job : Option String}
    {clock : LeaseClock} {write : Write} {instant : ℕ}
    (hok : (admitAt isUuid state a runtime job clock write instant).1 = .ok ()) :
    Admissible isUuid state a runtime clock.nowMs ∧
      Fenced state a write (admitAt isUuid state a runtime job clock write instant).2.durable := by
  have hcases := perform_cases isUuid state (.admitAt a runtime job clock write instant)
  change Performs _ _ _ (admitAt isUuid state a runtime job clock write instant) at hcases
  revert hcases hok
  generalize admitAt isUuid state a runtime job clock write instant = result
  intro hok hcases
  cases hcases with
  | refused => cases hok
  | unstored => cases hok
  | late => cases hok
  | admitted _ _ _ _ _ _ stored hcheck hstored => exact ⟨admissible hcheck, hstored⟩

/-- Neither admitted nor renewed. -/
theorem Floor.refuses {agent : String} {r : ℤ} (h : Floor agent r state) {a : Authority}
    (hagent : a.agentId = agent) (hlow : a.revision < r) :
    (∀ runtime job clock write instant,
      (admitAt isUuid state a runtime job clock write instant).1 ≠ .ok ()) ∧
    ∀ runtime clock leaseInstant clockInstant,
      (renewAt isUuid state a runtime clock leaseInstant clockInstant).1 ≠ .ok () := by
  obtain ⟨r', hr', hle⟩ := h.store.1
  rw [← hagent] at hr'
  constructor
  · intro runtime job clock write instant hok
    exact absurd ((fenced_of_admitted hok).1.revision r' hr') (not_le.mpr (hlow.trans_le hle))
  · intro runtime clock leaseInstant clockInstant hok
    have hcases := perform_cases isUuid state (.renewAt a runtime clock leaseInstant clockInstant)
    change Performs _ _ _ (renewAt isUuid state a runtime clock leaseInstant clockInstant) at hcases
    revert hcases hok
    generalize renewAt isUuid state a runtime clock leaseInstant clockInstant = result
    intro hok hcases
    cases hcases with
    | refused => cases hok
    | unstored => cases hok
    | renewed _ _ _ _ _ old hrevision =>
      rw [hr'] at hrevision
      obtain rfl := Option.some.inj hrevision
      exact absurd hle (not_le.mpr hlow)

/-- A context admitted in separated mode stays separated, at no earlier generation. -/
def Generations (d d' : Durable) : Prop :=
  ∀ id old, d.contexts.lookup id = some old → old.mode = separatedMode →
    ∃ new, d'.contexts.lookup id = some new ∧ new.mode = separatedMode ∧
      old.generation ≤ new.generation

theorem Generations.refl (d : Durable) : Generations d d :=
  fun _ old hold hmode => ⟨old, hold, hmode, le_rfl⟩

theorem Generations.trans {d d' d'' : Durable} (h : Generations d d') (h' : Generations d' d'') :
    Generations d d'' := by
  intro id old hold hmode
  obtain ⟨new, hnew, hmode', hle⟩ := h id old hold hmode
  obtain ⟨newer, hnewer, hmode'', hle'⟩ := h' id new hnew hmode'
  exact ⟨newer, hnewer, hmode'', hle.trans hle'⟩

/-- An admission in the shared mode that writes over a separated context. -/
def Downgrades (isUuid : String → Bool) (state : Agents) : Call → Prop
  | .admitAt a runtime _ clock write _ =>
    a.mode = sharedMode ∧ write ≠ .failed ∧
      checkAdmission isUuid state a runtime clock.nowMs = .ok () ∧
      ∃ old, state.durable.memory.contexts.lookup a.contextId = some old ∧ old.mode = separatedMode
  | _ => False

def Separates (isUuid : String → Bool) (w : World Durable Authority) (e : Event Call) : Prop :=
  ∀ call, e = .call call → ¬Downgrades isUuid w.state call

theorem mode_of_valid {a : Authority} {runtime : String} {nowMs : ℤ}
    (h : a.valid isUuid runtime nowMs = true) : a.mode = sharedMode ∨ a.mode = separatedMode := by
  unfold Authority.valid at h
  simp only [Bool.and_eq_true, Bool.or_eq_true, decide_eq_true_eq] at h
  exact h.1.1.1.1.1.1.1.1.imp (fun h => h.1) fun h => h.1.1

theorem generations_of_stores {next : Durable} (h : Stores isUuid state call next)
    (hwrite : call.write ≠ some .failed) (hkeeps : ¬Downgrades isUuid state call) :
    Generations state.durable.memory next := by
  intro id old hold hmode
  cases h with
  | admission a runtime job clock write instant hcheck =>
    by_cases hid : id = a.contextId
    · subst hid
      have hok := admissible hcheck
      have hseparated : a.mode = separatedMode := by
        refine (mode_of_valid hok.valid).resolve_left fun hshared => hkeeps ?_
        exact ⟨hshared, fun heq => hwrite (congrArg some heq), hcheck, old, hold, hmode⟩
      refine ⟨a.identity, AList.lookup_insert _, hseparated, ?_⟩
      exact (same_of_not_refuses (hok.context old hold)).2 hmode hseparated
    · exact ⟨old, (AList.lookup_insert_ne hid).trans hold, hmode, le_rfl⟩
  | revocation => exact ⟨old, hold, hmode, le_rfl⟩

theorem generations_of_runs {w w' : World Durable Authority} {events : List (Event Call)}
    (hrun : Runs (fun w e w' => Step (agents isUuid) w e w' ∧ Separates isUuid w e) w events w')
    (hahead : w.state.durable.Ahead Generations) :
    w.state.durable.Goes Generations w'.state.durable :=
  goes_of_runs Generations.refl (fun _ _ _ => Generations.trans) hrun
    (fun _ call _ hkeeps hwrite hstores => generations_of_stores hstores hwrite (hkeeps call rfl)) hahead

/-- What a renewal does to the table. -/
theorem renewAt_lookup (a : Authority) (runtime : String) (clock : LeaseClock)
    (leaseInstant clockInstant : ℕ) (id : String) (lease : Lease Authority)
    (hlease : state.leases.lookup id = some lease) :
    (renewAt isUuid state a runtime clock leaseInstant clockInstant).2.leases.lookup id = some lease ∨
      id = a.leaseId ∧ lease.liveAt leaseInstant = true ∧
      (renewAt isUuid state a runtime clock leaseInstant clockInstant).2.leases.lookup id =
        some { lease with
          authority.expiresAtMs := a.expiresAtMs
          deadline := clock.deadline } := by
  have hcases := perform_cases isUuid state (.renewAt a runtime clock leaseInstant clockInstant)
  change Performs _ _ _ (renewAt isUuid state a runtime clock leaseInstant clockInstant) at hcases
  revert hcases
  generalize renewAt isUuid state a runtime clock leaseInstant clockInstant = result
  intro hcases
  cases hcases with
  | refused => exact Or.inl hlease
  | unstored => exact Or.inl hlease
  | renewed _ _ _ _ _ old hrevision hold hsame hlive =>
    dsimp only
    rw [lookup_mapValues, hlease, Option.map_some]
    by_cases hid : id = a.leaseId
    · refine Or.inr ⟨hid, ?_, by rw [if_pos hid]⟩
      rw [hid, hold] at hlease
      obtain rfl := Option.some.inj hlease
      unfold Lease.liveAt
      simp [hlive]
    · exact Or.inl (by rw [if_neg hid])

/-- What a renewal leaves alone. -/
theorem renewAt_rest (a : Authority) (runtime : String) (clock : LeaseClock)
    (leaseInstant clockInstant : ℕ) :
    (renewAt isUuid state a runtime clock leaseInstant clockInstant).2.durable = state.durable ∧
      ∀ id, state.leases.lookup id = none →
        (renewAt isUuid state a runtime clock leaseInstant clockInstant).2.leases.lookup id = none := by
  have hcases := perform_cases isUuid state (.renewAt a runtime clock leaseInstant clockInstant)
  change Performs _ _ _ (renewAt isUuid state a runtime clock leaseInstant clockInstant) at hcases
  revert hcases
  generalize renewAt isUuid state a runtime clock leaseInstant clockInstant = result
  intro hcases
  cases hcases with
  | refused => exact ⟨rfl, fun _ h => h⟩
  | unstored call write next hstores => cases hstores
  | renewed =>
    refine ⟨rfl, fun id hid => ?_⟩
    dsimp only
    rw [lookup_mapValues, hid]
    rfl

/-- A write that fails leaves the fences and the leases of the process as they were. -/
theorem unstored_same (h : (call.perform isUuid state).1 = .error "authority_store_unavailable") :
    (call.perform isUuid state).2.durable.memory = state.durable.memory ∧
      (call.perform isUuid state).2.leases = state.leases := by
  have hcases := perform_cases isUuid state call
  revert hcases h
  generalize call.perform isUuid state = result
  intro h hcases
  cases hcases with
  | refused => exact ⟨rfl, rfl⟩
  | unstored call write next hstores hcall hwrite =>
    refine ⟨?_, rfl⟩
    cases write with
    | done => exact absurd rfl hwrite
    | failed => rfl
    | unsynced => rfl
  | late => exact absurd (Except.error.inj h) (by decide)
  | admitted => cases h
  | renewed => cases h
  | revoked => cases h

/-- The identity that a successful admission stores. -/
theorem context_of_admitted {a : Authority} {runtime : String} {job : Option String}
    {clock : LeaseClock} {write : Write} {instant : ℕ} (hahead : state.durable.Ahead Grows)
    (hok : (admitAt isUuid state a runtime job clock write instant).1 = .ok ()) :
    Admissible isUuid state a runtime clock.nowMs ∧
    (admitAt isUuid state a runtime job clock write instant).2.durable.memory.contexts.lookup
      a.contextId = some a.identity :=
  have hfenced := fenced_of_admitted hok
  ⟨hfenced.1, (hfenced.2.both hahead).1.1⟩

/-- A step that writes over no separated context. -/
def Kept (isUuid : String → Bool) (w : World Durable Authority) (e : Event Call)
    (w' : World Durable Authority) : Prop :=
  Step (agents isUuid) w e w' ∧ Separates isUuid w e

/-- The two admissions stand in a run of steps that write over no separated context. -/
def KeptRun (isUuid : String → Bool) (w : World Durable Authority) (e : Event Call)
    (w₁ w₂ : World Durable Authority) : Prop :=
  ∃ durable now nowMs before events, Runs (Kept isUuid) (World.start durable now nowMs) before w ∧
    Kept isUuid w e w₁ ∧ Runs (Kept isUuid) w₁ events w₂

/-- What is promised of a call and of every state after it. -/
structure Promised (isUuid : String → Bool) (w : World Durable Authority) (call : Call)
    (w₁ w₂ : World Durable Authority) : Prop where
  revisions : ∀ agent r, w.state.durable.memory.revisions.lookup agent = some r →
    ∃ r', w₂.state.durable.memory.revisions.lookup agent = some r' ∧ r ≤ r'
  fenced : ∀ agent r, call.fence = some (agent, r) → (call.perform isUuid w.state).1 = .ok () →
    (∀ id lease instant, w₂.state.leases.lookup id = some lease →
      lease.authority.agentId = agent → lease.authority.revision < r →
      live w₂.state.leases id instant = false) ∧
    ∀ a : Authority, a.agentId = agent → a.revision < r →
      (∀ runtime job clock write instant,
        (admitAt isUuid w₂.state a runtime job clock write instant).1 ≠ .ok ()) ∧
      ∀ runtime clock leaseInstant clockInstant,
        (renewAt isUuid w₂.state a runtime clock leaseInstant clockInstant).1 ≠ .ok ()
  contexts : ∀ a runtime job clock write instant,
    call = .admitAt a runtime job clock write instant → (call.perform isUuid w.state).1 = .ok () →
    ∀ (a' : Authority) runtime' job' clock' write' instant', a'.contextId = a.contextId →
      (admitAt isUuid w₂.state a' runtime' job' clock' write' instant').1 = .ok () →
      (a'.agentId = a.agentId ∧ a'.ownerId = a.ownerId ∧ a'.actorId = a.actorId ∧
        a'.groupId = a.groupId) ∧
      (KeptRun isUuid w (.call call) w₁ w₂ → a.mode = separatedMode → a'.mode = separatedMode →
        a.generation ≤ a'.generation)
  renewals : ∀ (a : Authority) runtime clock leaseInstant clockInstant,
    w₂.now ≤ leaseInstant →
    (renewAt isUuid w₂.state a runtime clock leaseInstant clockInstant).2.durable =
      w₂.state.durable ∧
    ∀ id,
      (w₂.state.leases.lookup id = none →
        (renewAt isUuid w₂.state a runtime clock leaseInstant clockInstant).2.leases.lookup id =
          none) ∧
      ∀ lease, w₂.state.leases.lookup id = some lease →
        (renewAt isUuid w₂.state a runtime clock leaseInstant clockInstant).2.leases.lookup id =
          some lease ∨
        id = a.leaseId ∧ lease.liveAt w₂.now = true ∧
        (renewAt isUuid w₂.state a runtime clock leaseInstant clockInstant).2.leases.lookup id =
          some { lease with
            authority.expiresAtMs := a.expiresAtMs
            deadline := clock.deadline }
  jobs : Conserved w₂ ∧ ∀ e w₃, Step (agents isUuid) w₂ e w₃ → ∀ id lease job,
    w₂.state.leases.lookup id = some lease → lease.job = some job →
    (∃ lease', w₃.state.leases.lookup id = some lease' ∧ lease'.job = some job) ∨ e = .restart ∨
      ∃ instants reports, e = .expiredJobs instants reports ∧ job ∈ reports
  unstored : ∀ call' : Call,
    (call'.perform isUuid w₂.state).1 = .error "authority_store_unavailable" →
    (call'.perform isUuid w₂.state).2.durable.memory = w₂.state.durable.memory ∧
      (call'.perform isUuid w₂.state).2.leases = w₂.state.leases

/-- The generation of a separated context does not go back in a run that keeps it separated. -/
theorem generation_le {w w₁ w₂ : World Durable Authority} {a a' : Authority} {runtime : String}
    {job : Option String} {clock : LeaseClock} {write : Write} {instant : ℕ} {runtime' : String}
    {nowMs : ℤ} (hkept : KeptRun isUuid w (.call (.admitAt a runtime job clock write instant)) w₁ w₂)
    (hcontext : w₁.state.durable.memory.contexts.lookup a.contextId = some a.identity)
    (hadmissible : Admissible isUuid w₂.state a' runtime' nowMs) (hsame : a'.contextId = a.contextId)
    (hmode : a.mode = separatedMode) (hmode' : a'.mode = separatedMode) :
    a.generation ≤ a'.generation := by
  obtain ⟨durable, now, startMs, before, events, hbefore, hstep, hrun⟩ := hkept
  have hstart : (World.start durable now startMs : World Durable Authority).state.durable.Ahead
      Generations := Generations.refl durable
  have hahead := (generations_of_runs (hbefore.next hstep) hstart).ahead
  obtain ⟨new, hnew, hnewmode, hle⟩ :=
    (generations_of_runs hrun hahead).memory a.contextId a.identity hcontext hmode
  rw [← hsame] at hnew
  exact hle.trans ((same_of_not_refuses (hadmissible.context new hnew)).2 hnewmode hmode')

/-- The agents' fences over whole runs. A separated generation is kept where no admission in the
shared mode writes over a separated context. -/
theorem fences_promised {w w₁ w₂ : World Durable Authority} {call : Call}
    {events : List (Event Call)} (hw : Reached (agents isUuid) w)
    (hstep : Step (agents isUuid) w (.call call) w₁)
    (hrun : Runs (Step (agents isUuid)) w₁ events w₂) : Promised isUuid w call w₁ w₂ := by
  have hahead := ahead_of_reached hw
  have hruns : Runs (Step (agents isUuid)) w ([.call call] ++ events) w₂ :=
    (Runs.stay.next hstep).append hrun
  have hw₂ := hw.runs hruns
  have hgoes := grows_of_runs hruns hahead
  have hafter : w₁.state = (call.perform isUuid w.state).2 := by
    cases hstep
    rfl
  constructor
  · exact hgoes.memory.revisions
  · intro agent r hfence hok
    have hfloor : Floor agent r w₁.state := by
      rw [hafter]
      exact floor_of_fence hahead hfence hok
    have hfloor₂ := hfloor.runs hrun
    exact ⟨fun id lease instant hlease hagent hlow => hfloor₂.not_live hlease hagent hlow instant,
      fun a hagent hlow => hfloor₂.refuses hagent hlow⟩
  · rintro a runtime job clock write instant rfl hok a' runtime' job' clock' write' instant' hsame hok'
    have hcontext := (context_of_admitted hahead hok).2
    change (Call.perform isUuid (.admitAt a runtime job clock write instant)
      w.state).2.durable.memory.contexts.lookup a.contextId = some a.identity at hcontext
    rw [← hafter] at hcontext
    have hahead₁ : w₁.state.durable.Ahead Grows := ahead_of_reached
      (hw.runs (Runs.stay.next hstep))
    have hadmissible := (context_of_admitted (ahead_of_reached hw₂) hok').1
    refine ⟨?_, fun hkept hmode hmode' => ?_⟩
    · obtain ⟨new, hnew, hidentity⟩ :=
        (grows_of_runs hrun hahead₁).memory.contexts a.contextId a.identity hcontext
      rw [← hsame] at hnew
      exact hidentity.trans (same_of_not_refuses (hadmissible.context new hnew)).1
    · exact generation_le hkept hcontext hadmissible hsame hmode hmode'
  · intro a runtime clock leaseInstant clockInstant hle
    obtain ⟨hdurable, hnone⟩ := @renewAt_rest isUuid w₂.state a runtime clock leaseInstant clockInstant
    refine ⟨hdurable, fun id => ⟨hnone id, fun lease hlease => ?_⟩⟩
    rcases @renewAt_lookup isUuid w₂.state a runtime clock leaseInstant clockInstant id lease hlease
      with hsame | ⟨hid, hlive, hrenewed⟩
    · exact Or.inl hsame
    · exact Or.inr ⟨hid, Lease.liveAt_mono hlive hle, hrenewed⟩
  · refine ⟨conserved_of_reached agents_lawful hw₂, fun e w₃ hnext id lease job hlease hjob => ?_⟩
    rcases hnext.job_leaves agents_lawful hlease hjob with hstays | hrestart | ⟨instants, reports, he, hmem, -⟩
    · exact Or.inl hstays
    · exact Or.inr (Or.inl hrestart)
    · exact Or.inr (Or.inr ⟨instants, reports, he, hmem⟩)
  · exact fun call' h => unstored_same h

/-- A turn of one agent in one context. -/
def turn (leaseId mode : String) (generation : ℕ) : Authority :=
  { requireV2 := true
    contextId := "c0000000-0000-4000-8000-000000000001"
    generation
    mode
    agentId := "a0000000-0000-4000-8000-000000000001"
    ownerId := "b0000000-0000-4000-8000-000000000001"
    actorId := "b0000000-0000-4000-8000-000000000001"
    groupId := none
    runtimeId := "d0000000-0000-4000-8000-000000000001"
    conversationId := "e0000000-0000-4000-8000-000000000001"
    turnId := "f0000000-0000-4000-8000-000000000001"
    leaseId
    revision := 1
    expiresAtMs := 31000
    capabilities := ⟨true, false, false, false, false⟩ }

def admitTurn (a : Authority) (instant : ℕ) : Call :=
  .admitAt a "d0000000-0000-4000-8000-000000000001" none ⟨1000, 30000⟩ .done instant

def firstTurn : Call := admitTurn (turn "10000000-0000-4000-8000-000000000001" separatedMode 5) 0

def sharedTurn : Call := admitTurn (turn "20000000-0000-4000-8000-000000000001" sharedMode 1) 1

def earlierTurn : Call := admitTurn (turn "30000000-0000-4000-8000-000000000001" separatedMode 3) 2

def freshWorld : World Durable Authority := World.start Durable.default 0 1000

def afterFirst : World Durable Authority := (agents hasUuidLength).called freshWorld firstTurn

def afterShared : World Durable Authority := (agents hasUuidLength).called afterFirst sharedTurn

theorem freshWorld_reached : Reached (agents hasUuidLength) freshWorld :=
  ⟨Durable.default, 0, 1000, [], .stay⟩

theorem firstTurn_step : Step (agents hasUuidLength) freshWorld (.call firstTurn) afterFirst :=
  .call firstTurn (Nat.zero_le 0) (Nat.zero_le 0)

def renewedTurn : Call :=
  .renewAt { turn "10000000-0000-4000-8000-000000000001" separatedMode 5 with expiresAtMs := 40000 }
    "d0000000-0000-4000-8000-000000000001" ⟨1001, 39000⟩ 1 2

def laterTurn : Call := admitTurn (turn "40000000-0000-4000-8000-000000000001" separatedMode 6) 3

/-- The first turn is renewed; after a restart a later generation of its context is admitted. -/
theorem firstTurn_promised : ∃ w₂ : World Durable Authority,
    Runs (Step (agents hasUuidLength)) afterFirst [.call renewedTurn, .restart, .call laterTurn] w₂ ∧
    (renewedTurn.perform hasUuidLength afterFirst.state).1 = .ok () ∧
    w₂.state.leases.keys = ["40000000-0000-4000-8000-000000000001"] ∧
    Promised hasUuidLength freshWorld firstTurn afterFirst w₂ :=
  have hrun := ((Runs.stay.next (.call renewedTurn (Nat.zero_le 1) (Nat.le_succ 1))).next .restart).next
    (.call laterTurn (Nat.le_succ 2) le_rfl)
  ⟨_, hrun, rfl, rfl, fences_promised freshWorld_reached firstTurn_step hrun⟩

/-- A turn in the shared mode makes the store forget the generation of the context. -/
theorem separated_generation_goes_back :
    ∃ w₁ w₂ : World Durable Authority, Reached (agents hasUuidLength) freshWorld ∧
      Step (agents hasUuidLength) freshWorld (.call firstTurn) w₁ ∧
      (firstTurn.perform hasUuidLength freshWorld.state).1 = .ok () ∧
      Runs (Step (agents hasUuidLength)) w₁ [.call sharedTurn] w₂ ∧
      (earlierTurn.perform hasUuidLength w₂.state).1 = .ok () :=
  ⟨afterFirst, afterShared, freshWorld_reached, firstTurn_step, rfl,
    Runs.stay.next (.call sharedTurn (Nat.zero_le 1) le_rfl), rfl⟩

end NyxId.Fences
