import NyxId.Interleave.Collection
import NyxId.Interleave.Runs

/-!
The leases of a daemon: each has a deadline on the monotonic clock, a stop flag and perhaps a
job. What the calls of a kind of fences do to them is a parameter.
-/

namespace NyxId.Fences

open Interleave Collection

structure LeaseClock where
  nowMs : ℤ
  deadline : ℕ

structure Lease (A : Type) where
  authority : A
  deadline : ℕ
  stopped : Bool
  job : Option String

abbrev Leases (A : Type) := Collection String (Lease A)

section

variable {A : Type}

def Lease.liveAt (lease : Lease A) (instant : ℕ) : Bool :=
  !lease.stopped && decide (instant < lease.deadline)

def live (leases : Leases A) (id : String) (instant : ℕ) : Bool :=
  (leases.lookup id).any fun lease => lease.liveAt instant

def stopWhere (p : A → Bool) (leases : Leases A) : Leases A :=
  leases.mapValues fun _ lease =>
    if p lease.authority then { lease with stopped := true } else lease

def finish (id : String) (leases : Leases A) : Leases A :=
  if (leases.lookup id).any fun lease => lease.job.isNone then leases.erase id else leases

def jobOf (id : String) (lease : Lease A) : Option (String × String) :=
  lease.job.map fun job => (id, job)

/-- The jobs in the table, each with the lease that carries it. -/
def jobs (leases : Leases A) : List (String × String) := listed jobOf leases

/-- `expired_jobs`: each lease is compared with its own reading of the clock. -/
def expiredJobs (instants : String → ℕ) (leases : Leases A) :
    List (String × String) × Leases A :=
  (jobs (leases.retain fun id lease => !lease.liveAt (instants id)),
    leases.retain fun id lease => lease.liveAt (instants id))

end

structure State (D A : Type) where
  durable : Storage D
  leases : Leases A

/-- A kind of fences: what its calls do, which of them admit a lease, and the clocks they read. -/
structure Kind (D A C : Type) where
  perform : C → State D A → Except String Unit × State D A
  admission : C → Option (String × Option String)
  first : C → ℕ
  last : C → ℕ
  nowMs : C → ℤ

inductive Event (C : Type) where
  | call (c : C)
  | finish (id : String)
  | expiredJobs (instants : String → ℕ) (jobs : List String)
  | later
  | restart

structure World (D A : Type) where
  state : State D A
  now : ℕ
  nowMs : ℤ
  /-- The jobs of admitted leases, those reported and those lost in a restart. -/
  admitted : List (String × String)
  reported : List (String × String)
  lost : List (String × String)

variable {D A C : Type}

/-- The job of the lease that a call admits. -/
def Kind.newJob (kind : Kind D A C) (c : C) (state : State D A) : Option (String × String) :=
  match (kind.perform c state).1, kind.admission c with
  | .ok (), some (id, some job) => some (id, job)
  | _, _ => none

def World.start (durable : D) (now : ℕ) (nowMs : ℤ) : World D A :=
  { state := ⟨⟨durable, durable⟩, ∅⟩, now, nowMs, admitted := [], reported := [], lost := [] }

def Kind.called (kind : Kind D A C) (w : World D A) (c : C) : World D A :=
  { w with
    state := (kind.perform c w.state).2
    now := kind.last c
    nowMs := kind.nowMs c
    admitted := (kind.newJob c w.state).toList ++ w.admitted }

inductive Step (kind : Kind D A C) (w : World D A) : Event C → World D A → Prop
  | call (c : C) (hfirst : w.now ≤ kind.first c) (hlast : kind.first c ≤ kind.last c) :
      Step kind w (.call c) (kind.called w c)
  | finish (id : String) :
      Step kind w (.finish id) { w with state.leases := Fences.finish id w.state.leases }
  | expiredJobs (instants : String → ℕ) (ending : ℕ) (reports : List String)
      (hinstants : ∀ id, w.now ≤ instants id ∧ instants id ≤ ending)
      (hreports : reports.Perm ((Fences.expiredJobs instants w.state.leases).1.map Prod.snd)) :
      Step kind w (.expiredJobs instants reports)
        { w with
          state.leases := (Fences.expiredJobs instants w.state.leases).2
          now := ending
          reported := (Fences.expiredJobs instants w.state.leases).1 ++ w.reported }
  | later (now : ℕ) (hle : w.now ≤ now) : Step kind w .later { w with now := now }
  | restart :
      Step kind w .restart
        { w with
          state := ⟨w.state.durable.reopen, ∅⟩
          lost := jobs w.state.leases ++ w.lost }

/-- From a first start, with whatever the file held. -/
def Reached (kind : Kind D A C) (w : World D A) : Prop :=
  ∃ durable now nowMs events, Runs (Step kind) (World.start durable now nowMs) events w

/-- What every call leaves of the leases: each stays with its job, and a stopped one stopped. -/
structure Lawful (kind : Kind D A C) : Prop where
  jobs : ∀ c state, jobs (kind.perform c state).2.leases =
    (kind.newJob c state).toList ++ jobs state.leases
  kept : ∀ c state id lease, state.leases.lookup id = some lease →
    ∃ lease', (kind.perform c state).2.leases.lookup id = some lease' ∧ lease'.job = lease.job ∧
      (lease.stopped = true → lease'.stopped = true)

theorem Kind.newJob_of_error {kind : Kind D A C} {c : C} {state : State D A} {e : String}
    (h : (kind.perform c state).1 = .error e) : kind.newJob c state = none := by
  unfold Kind.newJob
  rw [h]

theorem Kind.newJob_of_ok {kind : Kind D A C} {c : C} {state : State D A}
    (h : (kind.perform c state).1 = .ok ()) : kind.newJob c state =
      (kind.admission c).bind fun admission => admission.2.map fun job => (admission.1, job) := by
  unfold Kind.newJob
  rw [h]
  cases kind.admission c with
  | none => rfl
  | some admission =>
    obtain ⟨id, job⟩ := admission
    cases job <;> rfl

/-- Every job of an admitted lease is in the table, reported or lost, and so once. -/
def Conserved (w : World D A) : Prop :=
  w.admitted.Perm (jobs w.state.leases ++ (w.reported ++ w.lost))

theorem jobs_finish (id : String) (leases : Leases A) : jobs (finish id leases) = jobs leases := by
  unfold finish
  split
  · rename_i hnone
    refine listed_erase leases fun lease hlease => ?_
    rw [hlease] at hnone
    have hjob : lease.job = none := Option.isNone_iff_eq_none.mp hnone
    unfold jobOf
    rw [hjob]
    rfl
  · rfl

theorem jobs_expired (instants : String → ℕ) (leases : Leases A) :
    (jobs leases).Perm ((expiredJobs instants leases).1 ++ jobs (expiredJobs instants leases).2) :=
  ((listed_retain jobOf (fun id lease => lease.liveAt (instants id)) leases).symm).trans
    List.perm_append_comm

theorem Step.conserved {kind : Kind D A C} (hkind : Lawful kind) {w w' : World D A} {e : Event C}
    (hstep : Step kind w e w') (hw : Conserved w) : Conserved w' := by
  unfold Conserved at hw ⊢
  cases hstep with
  | call c =>
    unfold Kind.called
    dsimp only
    rw [hkind.jobs, List.append_assoc]
    exact hw.append_left _
  | finish id =>
    dsimp only
    rw [jobs_finish]
    exact hw
  | expiredJobs instants ending reports hinstants hreports =>
    dsimp only
    refine hw.trans (((jobs_expired instants _).append_right _).trans ?_)
    rw [List.append_assoc, List.append_assoc, ← List.append_assoc _ _ (w.reported ++ w.lost),
      ← List.append_assoc (jobs _)]
    exact List.perm_append_comm.append_right _
  | later => exact hw
  | restart =>
    dsimp only
    exact hw.trans (List.perm_append_comm_assoc _ _ _)

theorem conserved_of_reached {kind : Kind D A C} (hkind : Lawful kind) {w : World D A}
    (hw : Reached kind w) : Conserved w := by
  obtain ⟨durable, now, nowMs, events, hrun⟩ := hw
  have hstart : Conserved (World.start durable now nowMs : World D A) := List.Perm.nil
  exact hrun.preserves (fun _ _ _ hs hstep => hstep.conserved hkind hs) hstart

/-- A lease with a job stays in the table until `expired_jobs` reports the job, or a restart. -/
theorem Step.job_leaves {kind : Kind D A C} (hkind : Lawful kind) {w w' : World D A} {e : Event C}
    (hstep : Step kind w e w') {id job : String} {lease : Lease A}
    (hlease : w.state.leases.lookup id = some lease) (hjob : lease.job = some job) :
    (∃ lease', w'.state.leases.lookup id = some lease' ∧ lease'.job = some job) ∨ e = .restart ∨
      ∃ instants reports, e = .expiredJobs instants reports ∧ job ∈ reports ∧
        lease.liveAt (instants id) = false := by
  cases hstep with
  | call c =>
    obtain ⟨lease', hlease', hsame, -⟩ := hkind.kept c w.state id lease hlease
    exact Or.inl ⟨lease', hlease', hsame.trans hjob⟩
  | finish other =>
    refine Or.inl ⟨lease, ?_, hjob⟩
    dsimp only [Fences.finish]
    split
    · rename_i hnone
      rw [AList.lookup_erase_ne]
      · exact hlease
      · rintro rfl
        rw [hlease] at hnone
        simp [hjob] at hnone
    · exact hlease
  | expiredJobs instants ending reports hinstants hreports =>
    cases hlive : lease.liveAt (instants id) with
    | true =>
      refine Or.inl ⟨lease, ?_, hjob⟩
      dsimp only [Fences.expiredJobs]
      rw [lookup_retain, hlease]
      simp [hlive]
    | false =>
      refine Or.inr (Or.inr ⟨instants, reports, rfl, hreports.mem_iff.mpr ?_, hlive⟩)
      refine List.mem_map.mpr ⟨(id, job), ?_, rfl⟩
      refine List.mem_filterMap.mpr ⟨⟨id, lease⟩, List.mem_filter.mpr ⟨?_, ?_⟩, ?_⟩
      · exact AList.mem_lookup_iff.mp hlease
      · simp [hlive]
      · simp [jobOf, hjob]
  | later => exact Or.inl ⟨lease, hlease, hjob⟩
  | restart => exact Or.inr (Or.inl rfl)

@[simp]
theorem lookup_stopWhere (p : A → Bool) (leases : Leases A) (id : String) :
    (stopWhere p leases).lookup id = (leases.lookup id).map fun lease =>
      if p lease.authority then { lease with stopped := true } else lease :=
  lookup_mapValues _ _ _

/-- Each lease stays with its job and a stopped one stopped; the new jobs come before the others. -/
def Keeps (leases : Leases A) (new : List (String × String)) (leases' : Leases A) : Prop :=
  jobs leases' = new ++ jobs leases ∧ ∀ id lease, leases.lookup id = some lease →
    ∃ lease', leases'.lookup id = some lease' ∧ lease'.job = lease.job ∧
      (lease.stopped = true → lease'.stopped = true)

theorem keeps_refl (leases : Leases A) : Keeps leases [] leases :=
  ⟨rfl, fun _ lease hlease => ⟨lease, hlease, rfl, fun h => h⟩⟩

theorem keeps_mapValues {f : String → Lease A → Lease A} (leases : Leases A)
    (hf : ∀ id lease, (f id lease).job = lease.job ∧
      (lease.stopped = true → (f id lease).stopped = true)) :
    Keeps leases [] (leases.mapValues f) := by
  refine ⟨listed_mapValues leases fun id lease => ?_, fun id lease hlease => ?_⟩
  · unfold jobOf
    rw [(hf id lease).1]
  · rw [lookup_mapValues, hlease]
    exact ⟨_, rfl, hf id lease⟩

theorem keeps_stopWhere (p : A → Bool) (leases : Leases A) : Keeps leases [] (stopWhere p leases) := by
  refine keeps_mapValues leases fun id lease => ?_
  split
  · exact ⟨rfl, fun _ => rfl⟩
  · exact ⟨rfl, fun hstopped => hstopped⟩

theorem keeps_admitted (p : A → Bool) {leases : Leases A} {id : String} (lease : Lease A)
    (hnew : leases.lookup id = none) :
    Keeps leases (jobOf id lease).toList ((stopWhere p leases).insert id lease) := by
  have hfree : (stopWhere p leases).lookup id = none := by
    rw [lookup_stopWhere, hnew]
    rfl
  refine ⟨(listed_insert (g := jobOf) lease hfree).trans ?_, fun other old hold => ?_⟩
  · exact congrArg _ (keeps_stopWhere p leases).1
  · rw [AList.lookup_insert_ne]
    · exact (keeps_stopWhere p leases).2 other old hold
    · rintro rfl
      rw [hnew] at hold
      cases hold

/-- Of each lease in the table. -/
def Each (P : String → Lease A → Prop) (leases : Leases A) : Prop :=
  ∀ id lease, leases.lookup id = some lease → P id lease

theorem Each.finish {P : String → Lease A → Prop} {leases : Leases A} (h : Each P leases)
    (id : String) : Each P (finish id leases) := by
  intro other lease hlease
  unfold Fences.finish at hlease
  split at hlease
  · by_cases hother : other = id
    · subst hother
      rw [AList.lookup_erase] at hlease
      cases hlease
    · rw [AList.lookup_erase_ne hother] at hlease
      exact h other lease hlease
  · exact h other lease hlease

theorem Each.retain {P : String → Lease A → Prop} {leases : Leases A} (h : Each P leases)
    (p : String → Lease A → Bool) : Each P (leases.retain p) := by
  intro id lease hlease
  rw [lookup_retain, Option.filter_eq_some_iff] at hlease
  exact h id lease hlease.1

theorem each_mapValues {Q : String → Lease A → Prop} {leases : Leases A}
    {f : String → Lease A → Lease A} (h : Each Q leases)
    (hQ : ∀ id lease, leases.lookup id = some lease → Q id lease → Q id (f id lease)) :
    Each Q (leases.mapValues f) := by
  intro id lease hlease
  rw [lookup_mapValues, Option.map_eq_some_iff] at hlease
  obtain ⟨old, hold, rfl⟩ := hlease
  exact hQ id old hold (h id old hold)

theorem each_stopWhere {Q : String → Lease A → Prop} {leases : Leases A} {p : A → Bool}
    (h : Each Q leases) (hQ : ∀ id lease, Q id lease → Q id { lease with stopped := true }) :
    Each Q (stopWhere p leases) := by
  intro id lease hlease
  rw [lookup_stopWhere, Option.map_eq_some_iff] at hlease
  obtain ⟨old, hold, rfl⟩ := hlease
  split
  · exact hQ id old (h id old hold)
  · exact h id old hold

/-- A stop takes no lease away, nor the job of one, and starts none again. -/
theorem each_insert {Q : String → Lease A → Prop} {leases : Leases A} {id : String}
    {lease : Lease A} (h : Each Q leases) (hnew : Q id lease) : Each Q (leases.insert id lease) := by
  intro other found hfound
  rcases lookup_insert_cases hfound with ⟨rfl, rfl⟩ | ⟨-, hold⟩
  · exact hnew
  · exact h other found hold

/-- A property of the leases and of the store that the calls keep is kept by every step; that of
the store may become weaker. -/
theorem Step.keeps {kind : Kind D A C} {w w' : World D A} {e : Event C}
    (hstep : Step kind w e w') {P P' : D → Prop} {Q : String → Lease A → Prop}
    (hP : w.state.durable.Both P) (hQ : Each Q w.state.leases) (hweak : ∀ d, P d → P' d)
    (hcall : ∀ c, e = .call c → (kind.perform c w.state).2.durable.Both P' ∧
      Each Q (kind.perform c w.state).2.leases) :
    w'.state.durable.Both P' ∧ Each Q w'.state.leases := by
  have hP' : w.state.durable.Both P' := ⟨hweak _ hP.1, hweak _ hP.2⟩
  cases hstep with
  | call c => exact hcall c rfl
  | finish id => exact ⟨hP', hQ.finish id⟩
  | expiredJobs instants ending reports hinstants hreports => exact ⟨hP', hQ.retain _⟩
  | later => exact ⟨hP', hQ⟩
  | restart => exact ⟨hP'.reopen, fun _ _ hlease => nomatch hlease⟩

theorem Reached.runs {kind : Kind D A C} {w w' : World D A} {events : List (Event C)}
    (hw : Reached kind w) (hrun : Runs (Step kind) w events w') : Reached kind w' := by
  obtain ⟨durable, now, nowMs, before, hbefore⟩ := hw
  exact ⟨durable, now, nowMs, before ++ events, hbefore.append hrun⟩

theorem Lease.liveAt_mono {lease : Lease A} {instant now : ℕ}
    (h : lease.liveAt instant = true) (hle : now ≤ instant) : lease.liveAt now = true := by
  unfold Lease.liveAt at h ⊢
  simp only [Bool.and_eq_true, decide_eq_true_eq] at h ⊢
  exact ⟨h.1, hle.trans_lt h.2⟩

end NyxId.Fences
