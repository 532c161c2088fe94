import NyxId.OracleTasks.Histories

/-!
Sweeps over the tasks that wait for another account: which of them a sweep fails, and which of them
it leaves.
-/

namespace NyxId.OracleTasks

open Interleave Outcomes

variable {pool : OraclePool} {s t u : State} {task task' : OracleTask}
  {clock : String → SettleClock}

/-- A sweep leaves a task as it is or fails it, the latter only if no usable worker is left for it. -/
def Swept (clock : String → SettleClock) (s : State) (row row' : OracleTask) : Prop :=
  row' = row ∨ row'.status = .failed ∧ row'.id = row.id ∧
    s.hasCapacityAlternative (clock row.id).checked row.excludedWorkerIds = false

/-- The rows of the store under the ids of the given ones are as those were read. -/
def Fresh (rows : List OracleTask) (s : State) : Prop :=
  ∀ task ∈ rows, ∀ row ∈ s.tasks, row.id = task.id → row.status = .queued →
    row.rerouteCount = task.rerouteCount ∧ row.excludedWorkerIds = task.excludedWorkerIds

theorem settleTask_swept (pool : OraclePool) (hfresh : ∀ row ∈ s.tasks, row.id = task.id →
      row.status = .queued → row.rerouteCount = task.rerouteCount ∧
        row.excludedWorkerIds = task.excludedWorkerIds)
    (hnone : s.hasCapacityAlternative (clock task.id).checked task.excludedWorkerIds = false) :
    List.Forall₂ (Swept clock s) s.tasks (settleTask (clock task.id) pool task s).tasks ∧
      ∀ row ∈ (settleTask (clock task.id) pool task s).tasks, row.id = task.id →
        row.status ≠ .queued := by
  constructor
  · refine List.forall₂_map_right_iff.mpr (List.forall₂_same.mpr fun row hrow => ?_)
    split
    · rename_i hp
      simp only [Bool.and_eq_true, decide_eq_true_eq] at hp
      refine Or.inr ⟨rfl, rfl, ?_⟩
      rw [hp.1.1, (hfresh row hrow hp.1.1 hp.1.2).2]
      exact hnone
    · exact Or.inl rfl
  · intro row' hrow' hid hqueued
    obtain ⟨row, hrow, rfl⟩ := List.mem_map.mp hrow'
    split at hid
    · rename_i hp
      rw [if_pos hp] at hqueued
      cases hqueued
    · rename_i hp
      rw [if_neg hp] at hqueued
      refine hp ?_
      simp only [Bool.and_eq_true, decide_eq_true_eq]
      exact ⟨⟨hid, hqueued⟩, (hfresh row hrow hid hqueued).1⟩

theorem Swept.trans {row later last : OracleTask} (h : Swept clock s row later)
    (h' : Swept clock s later last) : Swept clock s row last := by
  rcases h with rfl | ⟨hstatus, hid, hnone⟩
  · exact h'
  · rcases h' with rfl | ⟨hstatus', hid', -⟩
    · exact Or.inr ⟨hstatus, hid, hnone⟩
    · exact Or.inr ⟨hstatus', hid'.trans hid, hnone⟩

/-- A sweep that fails fewer tasks than a batch has looked at all of them. -/
theorem settleTasks_spec (clock : String → SettleClock) (pool : OraclePool) {rows : List OracleTask}
    (failed : ℕ) (hfresh : Fresh rows s) :
    (settleTasks clock pool rows failed s).1.workers = s.workers ∧
      List.Forall₂ (Swept clock s) s.tasks (settleTasks clock pool rows failed s).1.tasks ∧
      ((settleTasks clock pool rows failed s).2 < taskMaintenanceBatchSize →
        ∀ task ∈ rows, s.hasCapacityAlternative (clock task.id).checked task.excludedWorkerIds ∨
          ∀ row ∈ (settleTasks clock pool rows failed s).1.tasks, row.id = task.id →
            row.status ≠ .queued) := by
  induction rows generalizing failed s with
  | nil => exact ⟨rfl, List.forall₂_same.mpr fun _ _ => Or.inl rfl, fun _ _ htask => by cases htask⟩
  | cons task rows ih =>
    have hrest : Fresh rows s := fun row hrow => hfresh row (List.mem_cons_of_mem task hrow)
    rw [settleTasks]
    split
    · rename_i hother
      obtain ⟨hworkers, hswept, hall⟩ := ih failed hrest
      refine ⟨hworkers, hswept, fun hfew row hrow => ?_⟩
      rcases List.mem_cons.mp hrow with rfl | hrow
      · exact Or.inl hother
      · exact hall hfew row hrow
    · rename_i hnone
      rw [Bool.not_eq_true] at hnone
      obtain ⟨hswept, hsettled⟩ := settleTask_swept pool
        (hfresh task List.mem_cons_self) hnone
      split
      · rename_i hfull
        exact ⟨rfl, hswept, fun hfew => absurd hfew (Nat.not_lt_of_le hfull)⟩
      · -- The rows that are left are still as they were read, or failed.
        have hlater : Fresh rows (settleTask (clock task.id) pool task s) := by
          intro row hrow later hlater hid hqueued
          obtain ⟨before, hbefore, hrowSwept⟩ := Outcomes.exists_of_forall₂ hswept hlater
          rcases hrowSwept with rfl | ⟨hfailed, -, -⟩
          · exact hrest row hrow later hbefore hid hqueued
          · rw [hfailed] at hqueued
            cases hqueued
        obtain ⟨hworkers, hswept', hall⟩ := ih (s := settleTask (clock task.id) pool task s)
          (failed + 1) hlater
        refine ⟨hworkers, forall₂_trans (fun _ _ _ h h' => h.trans h') hswept hswept', fun hfew row hrow => ?_⟩
        rcases List.mem_cons.mp hrow with rfl | hrow
        · refine Or.inr fun later hlater hid => ?_
          obtain ⟨before, hbefore, hrowSwept⟩ := Outcomes.exists_of_forall₂ hswept' hlater
          rcases hrowSwept with rfl | ⟨hfailed, -, -⟩
          · exact hsettled later hbefore hid
          · rw [hfailed]
            exact OracleTaskStatus.noConfusion
        · exact hall hfew row hrow

/-- Also of the tasks that carry the mark: a sweep that leaves one has found a worker for it. -/
theorem settleUnroutable_routes (clock : String → SettleClock) (pool : OraclePool) (hids : (s.tasks.map OracleTask.id).Nodup) :
    (settleUnroutableCapacityTasks clock pool s).1.workers = s.workers ∧
      List.Forall₂ (Swept clock s) s.tasks (settleUnroutableCapacityTasks clock pool s).1.tasks ∧
      ((settleUnroutableCapacityTasks clock pool s).2 < taskMaintenanceBatchSize →
        (∀ task ∈ s.tasks, Marked task) →
        ∀ task ∈ (settleUnroutableCapacityTasks clock pool s).1.tasks, task.status = .queued →
          task.excludedWorkerIds ≠ [] →
          s.hasCapacityAlternative (clock task.id).checked task.excludedWorkerIds) := by
  have hrows {task : OracleTask} (htask : task ∈ byCreation (s.tasks.filter isCapacityTask)) :
      task ∈ s.tasks := (List.mem_filter.mp (mem_byCreation.mp htask)).1
  have hfresh : Fresh (byCreation (s.tasks.filter isCapacityTask)) s := by
    intro task htask row hrow hid _
    rw [eq_of_id_eq hids hrow (hrows htask) hid]
    exact ⟨rfl, rfl⟩
  obtain ⟨hworkers, hswept, hall⟩ := settleTasks_spec clock pool 0 hfresh
  refine ⟨hworkers, hswept, fun hfew hmarked task htask hqueued hexcluded => ?_⟩
  obtain ⟨row, hrow, hstep⟩ := Outcomes.exists_of_forall₂ hswept htask
  rcases hstep with rfl | ⟨hfailed, -, -⟩
  · have hmark := hmarked task hrow hqueued hexcluded
    rcases hall hfew task (mem_byCreation.mpr (List.mem_filter.mpr ⟨hrow, hmark⟩)) with hother | hgone
    · exact hother
    · exact absurd hqueued (hgone task htask rfl)
  · rw [hfailed] at hqueued
    cases hqueued

/-! ### Calls that sweep -/

/-- How many tasks a call that swept has failed. -/
def Answer.swept : Answer → Option ℕ
  | .claimed (.resumed _) _ => none
  | .claimed _ failed => some failed
  | .status failed => some failed
  | _ => none

/-- The clock reading at which a call looks for a worker for a task. -/
def Call.checkedAt : Call → String → ℤ
  | .claim _ _ env, taskId => (env.sweep taskId).checked
  | .status env, taskId => (env.sweep taskId).checked
  | _, _ => 0

/-- The workers that the sweep of a call finds. -/
def Call.sweptWorkers (call : Call) (s : State) : List OracleWorker :=
  match call with
  | .claim workerLabel authorized env =>
    match upsertWorkerPresence env.presence workerLabel none authorized s with
    | .ok seen => seen.workers
    | .error _ => s.workers
  | _ => s.workers

theorem hasCapacityAlternative_iff {now : ℤ} {excluded : List String} :
    s.hasCapacityAlternative now excluded ↔
      ∃ worker ∈ s.workers, worker.workerLabel ∉ excluded ∧ worker.isUsable now := by
  simp only [State.hasCapacityAlternative, List.any_eq_true, Bool.and_eq_true, decide_eq_true_eq]

theorem isUsable_seen {worker : OracleWorker} {now seen : ℤ} (current : Option String)
    (hle : now ≤ seen) (h : worker.isUsable now) :
    { worker with lastSeenAt := seen, currentTaskId := current }.isUsable now := by
  simp only [OracleWorker.isUsable, Bool.and_eq_true, decide_eq_true_eq] at h ⊢
  refine ⟨⟨⟨⟨?_, h.1.1.1.2⟩, h.1.1.2⟩, h.1.2⟩, h.2⟩
  have hrecent : 0 ≤ workerRecentMs := by decide
  omega

/-- A worker that is seen later stays as usable as it was. -/
theorem upsertWorkerPresence_routes {now seen : ℤ} {workerLabel : String} {current : Option String}
    {authorized : Option Installation} {excluded : List String} (hle : now ≤ seen)
    (h : upsertWorkerPresence seen workerLabel current authorized s = .ok t)
    (hother : s.hasCapacityAlternative now excluded) : t.hasCapacityAlternative now excluded := by
  obtain ⟨worker, hworker, hnew, husable⟩ := hasCapacityAlternative_iff.mp hother
  simp only [upsertWorkerPresence] at h
  split at h
  · cases h
    refine hasCapacityAlternative_iff.mpr ⟨_, List.mem_map_of_mem hworker, ?_, ?_⟩
    · split <;> exact hnew
    · split
      · exact isUsable_seen current hle husable
      · exact husable
  · split at h
    · cases h
    · cases h
      exact hasCapacityAlternative_iff.mpr
        ⟨worker, List.mem_append_left _ hworker, hnew, husable⟩

/-! ### Histories without repeated failures -/

/-- A step that puts no task back for its lease or its browser that already excludes a worker: such a
task would wait without the mark. -/
def RoutedStep (pool : OraclePool) (s : State) (event : Call × Answer) (t : State) : Prop :=
  Step pool s event t ∧ ∀ task ∈ s.tasks, event.1.Requeues task → task.excludedWorkerIds = []

variable {call : Call} {answer : Answer} {events : List (Call × Answer)}

theorem marked_evolves (h : Evolves (fun task => task.excludedWorkerIds = []) s.tasks t.tasks)
    (hmarked : ∀ task ∈ s.tasks, Marked task) : ∀ task ∈ t.tasks, Marked task := by
  intro task' htask'
  obtain ⟨task, htask, hcourse⟩ := h.exists_source htask'
  exact hcourse.preserves (fun _ _ hmark hmove => hmark.move (fun hnone => hnone) hmove)
    (hmarked task htask)

theorem marked_step (hok : PoolOk pool s) (hstep : RoutedStep pool s (call, answer) t)
    (hmarked : ∀ task ∈ s.tasks, Marked task) : ∀ task ∈ t.tasks, Marked task := by
  have heffect := perform_effect hok hstep.2 hstep.1
  cases heffect with
  | moves hmoves => exact marked_evolves hmoves hmarked
  | opens id required now hnew ht =>
    intro task htask
    rw [ht] at htask
    rcases List.mem_append.mp htask with htask | htask
    · exact hmarked task htask
    · rw [List.mem_singleton.mp htask]
      exact fun _ hexcluded => absurd rfl hexcluded
  | dispatches mid workerLabel env lease task hmid htask hclaim hfree hroom hdrew ht =>
    intro later hlater
    rw [ht] at hlater
    rcases (mem_dispatched (hok.evolves hmid).ids htask).mp hlater with rfl | ⟨hlater, -⟩
    · exact fun hqueued => by cases hqueued
    · exact marked_evolves hmid hmarked later hlater

theorem marked_run {workers : List OracleWorker}
    (h : Runs (RoutedStep pool) (opened workers) events s) :
    PoolOk pool s ∧ ∀ task ∈ s.tasks, Marked task :=
  h.preserves (P := fun u => PoolOk pool u ∧ ∀ task ∈ u.tasks, Marked task)
    (fun _ _ _ hu hstep => ⟨hu.1.step hstep.1, marked_step hu.1 hstep hu.2⟩)
    ⟨opened_ok pool workers, fun _ htask => absurd htask List.not_mem_nil⟩

/-- Leases say nothing about tasks that wait. -/
theorem mem_requeueExpiredLeases {now : ℤ} (pool : OraclePool) (htask : task ∈ s.tasks)
    (hqueued : task.status = .queued) : task ∈ (requeueExpiredLeases now pool s).tasks := by
  have hnot (other : Bool) : ¬ (task.leaseOver now && other) = true := by
    simp only [OracleTask.leaseOver, hqueued, reduceCtorEq, decide_false, Bool.false_and,
      Bool.false_eq_true, not_false_eq_true]
  exact List.mem_map.mpr ⟨task, List.mem_map.mpr ⟨task, htask, if_neg (hnot _)⟩, if_neg (hnot _)⟩

theorem waiting_refreshed {pool : OraclePool} {env : ClaimEnv} (hok : PoolOk pool s)
    (htask : task ∈ s.tasks) (hqueued : task.status = .queued) {row : OracleTask}
    (hrow : row ∈ (refreshed pool env s).tasks) (hid : row.id = task.id) :
    row.status = .queued ∧ row.excludedWorkerIds = task.excludedWorkerIds := by
  have hmoves : Evolves (fun _ => True) s.tasks (requeueExpiredLeases env.expiry pool s).tasks :=
    requeueExpiredLeases_evolves pool fun _ _ _ => trivial
  have hmem : task ∈ (requeueExpiredLeases env.expiry pool s).tasks :=
    mem_requeueExpiredLeases pool htask hqueued
  obtain ⟨before, hbefore, rfl⟩ := List.mem_map.mp hrow
  have hsame : before = task := by
    refine eq_of_id_eq (hok.evolves hmoves).ids hbefore hmem ?_
    rw [← hid]
    split <;> rfl
  rw [hsame]
  split
  · exact ⟨hqueued, rfl⟩
  · exact ⟨hqueued, rfl⟩

theorem sweptWorkers_claim {workerLabel : String} {authorized : Option Installation} {env : ClaimEnv}
    {seen : State} (h : upsertWorkerPresence env.presence workerLabel none authorized
      (refreshed pool env s) = .ok seen) :
    seen.workers = (Call.claim workerLabel authorized env).sweptWorkers s := by
  have hworkers : (refreshed pool env s).workers = s.workers := rfl
  simp only [Call.sweptWorkers]
  simp only [upsertWorkerPresence, hworkers] at h ⊢
  split at h
  · rename_i hany
    cases h
    rw [if_pos hany]
  · rename_i hany
    split at h
    · cases h
    · rename_i hauthorized
      cases h
      rw [if_neg hany, if_neg hauthorized]

/-- What a call that sweeps does: the store `seen` that its sweep finds, and the one that it leaves,
from which a claim at most takes one task. -/
structure SweepsFrom (pool : OraclePool) (call : Call) (s t : State) (failed : ℕ) (seen : State)
    (clock : String → SettleClock) : Prop where
  checked (taskId) : (clock taskId).checked = call.checkedAt taskId
  moves : Evolves (fun task => task.excludedWorkerIds = []) s.tasks seen.tasks
  waiting : ∀ task ∈ s.tasks, task.status = .queued → ∀ row ∈ seen.tasks, row.id = task.id →
    row.status = .queued ∧ row.excludedWorkerIds = task.excludedWorkerIds
  workers : seen.workers = call.sweptWorkers s
  failed : failed = (settleUnroutableCapacityTasks clock pool seen).2
  tasks : ∀ task ∈ t.tasks, task.status ≠ .dispatched →
    task ∈ (settleUnroutableCapacityTasks clock pool seen).1.tasks
  routes (taskId excluded) : (settleUnroutableCapacityTasks clock pool seen).1.hasCapacityAlternative
    (call.checkedAt taskId) excluded → t.hasCapacityAlternative (call.checkedAt taskId) excluded

theorem claim_sweeps (hok : PoolOk pool s) {workerLabel : String} {authorized : Option Installation}
    {env : ClaimEnv} {claim : Claim} {failed : ℕ}
    (hallowed : ∀ task ∈ s.tasks, (Call.claim workerLabel authorized env).Requeues task →
      task.excludedWorkerIds = [])
    (h : claimTask pool workerLabel authorized env s = .ok (claim, failed, t))
    {swept : ℕ} (hanswer : (Answer.claimed claim failed).swept = some swept) :
    ∃ seen, SweepsFrom pool (.claim workerLabel authorized env) s t swept seen env.sweep := by
  rcases claimTask_cases h with ⟨task, htask, hheld, rfl, ht⟩ | ⟨hfree, seen, hseen, rfl, hnext⟩
  · cases hanswer
  · have hmoves := refreshed_evolves hok hallowed
    have htasks := upsertWorkerPresence_tasks hseen
    rw [← htasks] at hmoves
    refine ⟨seen, fun _ => rfl, hmoves, fun task htask hqueued row hrow hid => ?_,
      sweptWorkers_claim hseen, ?_, ?_, ?_⟩
    · rw [htasks] at hrow
      exact waiting_refreshed hok htask hqueued hrow hid
    · cases claim with
      | resumed taskId => cases hanswer
      | dispatched taskId => exact (Option.some.inj hanswer).symm
      | idle => exact (Option.some.inj hanswer).symm
    · rcases takeNext_cases hnext with ⟨-, rfl⟩ | ⟨task, htask, hclaim, hroom, -, hlater⟩
      · exact fun _ htask _ => htask
      · intro row hrow hstatus
        have hswept : Evolves (fun task => task.excludedWorkerIds = []) seen.tasks
            (settleUnroutableCapacityTasks env.sweep pool seen).1.tasks :=
          settleTasks_evolves env.sweep pool _ 0 seen
        rw [upsertWorkerPresence_tasks hlater] at hrow
        rcases (mem_dispatched ((hok.evolves hmoves).evolves hswept).ids htask).mp hrow with
          rfl | ⟨hrow, -⟩
        · exact absurd rfl hstatus
        · exact hrow
    · rcases takeNext_cases hnext with ⟨-, rfl⟩ | ⟨task, htask, hclaim, hroom, -, hlater⟩
      · exact fun _ _ hother => hother
      · exact fun taskId excluded hother =>
          upsertWorkerPresence_routes (env.sweep_le taskId) hlater hother

theorem status_sweeps (hok : PoolOk pool s) {env : StatusEnv} {failed : ℕ}
    (hallowed : ∀ task ∈ s.tasks, (Call.status env).Requeues task → task.excludedWorkerIds = [])
    (h : poolStatus pool env s = .ok (failed, t)) :
    SweepsFrom pool (.status env) s t failed (requeueExpiredLeases env.expiry pool s) env.sweep := by
  obtain ⟨-, -, h⟩ := bind_eq_ok.mp h
  cases h
  have hmoves := requeueExpiredLeases_evolves pool hallowed
  refine ⟨fun _ => rfl, hmoves, fun task htask hqueued row hrow hid => ?_, rfl, rfl,
    fun _ htask _ => htask, fun _ _ hother => hother⟩
  rw [eq_of_id_eq (hok.evolves hmoves).ids hrow (mem_requeueExpiredLeases pool htask hqueued) hid]
  exact ⟨hqueued, rfl⟩

theorem swept_cases (hok : PoolOk pool s) (hstep : RoutedStep pool s (call, answer) t) {failed : ℕ}
    (hanswer : answer.swept = some failed) : ∃ seen clock, SweepsFrom pool call s t failed seen clock := by
  obtain ⟨hstep, hallowed⟩ := hstep
  cases call with
  | claim workerLabel authorized env =>
    obtain ⟨⟨claim, failed', later⟩, hlater, h⟩ := bind_eq_ok.mp hstep
    cases h
    obtain ⟨seen, hsweeps⟩ := claim_sweeps hok hallowed hlater hanswer
    exact ⟨seen, env.sweep, hsweeps⟩
  | status env =>
    obtain ⟨⟨failed', later⟩, hlater, h⟩ := bind_eq_ok.mp hstep
    cases h
    cases hanswer
    exact ⟨_, env.sweep, status_sweeps hok hallowed hlater⟩
  | submit checks id required now =>
    obtain ⟨later, -, h⟩ := bind_eq_ok.mp hstep
    cases h
    cases hanswer
  | result env workerLabel taskId input =>
    obtain ⟨⟨outcome, later⟩, -, h⟩ := bind_eq_ok.mp hstep
    cases h
    cases hanswer
  | ack env workerLabel taskId phase attemptId authorized =>
    obtain ⟨⟨outcome, later⟩, -, h⟩ := bind_eq_ok.mp hstep
    cases h
    cases hanswer
  | cancel checks now terminal taskId =>
    obtain ⟨later, -, h⟩ := bind_eq_ok.mp hstep
    cases h
    cases hanswer
  | workers workers =>
    cases hstep
    cases hanswer

/-- In a history that never puts back, for its lease or its browser, a task that excludes a worker:
once a call has swept and failed fewer tasks than a batch, every waiting task that excludes workers
has a usable worker among the others, and a waiting task that the call failed had none. -/
theorem sweeps_route (workers : List OracleWorker) (hrun : Runs (RoutedStep pool) (opened workers) events s)
    (hstep : RoutedStep pool s (call, answer) t) {failed : ℕ} (hanswer : answer.swept = some failed) :
    (failed < taskMaintenanceBatchSize → ∀ task ∈ t.tasks, task.status = .queued →
      task.excludedWorkerIds ≠ [] →
        t.hasCapacityAlternative (call.checkedAt task.id) task.excludedWorkerIds) ∧
    ∀ task ∈ s.tasks, ∀ task' ∈ t.tasks, task'.id = task.id → task.status = .queued →
      task'.status = .failed → ∀ worker ∈ call.sweptWorkers s,
        worker.workerLabel ∉ task.excludedWorkerIds → ¬ worker.isUsable (call.checkedAt task.id) := by
  obtain ⟨hok, hmarked⟩ := marked_run hrun
  obtain ⟨seen, clock, hsweeps⟩ := swept_cases hok hstep hanswer
  obtain ⟨hkept, hswept, hall⟩ := settleUnroutable_routes clock pool (hok.evolves hsweeps.moves).ids
  constructor
  · intro hfew task htask hqueued hexcluded
    rw [hsweeps.failed] at hfew
    have hnot : task.status ≠ .dispatched := by
      rw [hqueued]
      exact OracleTaskStatus.noConfusion
    have hother := hall hfew (marked_evolves hsweeps.moves hmarked) task
      (hsweeps.tasks task htask hnot) hqueued hexcluded
    rw [hsweeps.checked] at hother
    exact hsweeps.routes task.id _ (hasCapacityAlternative_iff.mpr
      (hkept.symm ▸ hasCapacityAlternative_iff.mp hother))
  · intro task htask task' htask' hid hqueued hfail worker hworker hnew husable
    have hnot : task'.status ≠ .dispatched := by
      rw [hfail]
      exact OracleTaskStatus.noConfusion
    obtain ⟨row, hrow, hstep⟩ := Outcomes.exists_of_forall₂ hswept (hsweeps.tasks task' htask' hnot)
    rcases hstep with rfl | ⟨-, hsame, hnone⟩
    · rw [(hsweeps.waiting task htask hqueued task' hrow hid).1] at hfail
      cases hfail
    · have hrowId := hsame.symm.trans hid
      rw [(hsweeps.waiting task htask hqueued row hrow hrowId).2, hsweeps.checked, hrowId] at hnone
      have hother := hasCapacityAlternative_iff.mpr
        ⟨worker, hsweeps.workers ▸ hworker, hnew, husable⟩
      rw [hnone] at hother
      cases hother

def sampleStatus : StatusEnv where
  checks := .ok ()
  expiry := 0
  sweep := sampleClock

def limited : State := leaves (sampleReport "ERROR: usage_limit_reached") claimed

theorem limited_step : Step samplePool claimed
    (sampleReport "ERROR: usage_limit_reached", .reported .requeued) limited := rfl

theorem submitted_unexcluded : ∀ task ∈ submitted.tasks, task.excludedWorkerIds = [] := by decide

theorem limited_waits : ∀ task ∈ limited.tasks, task.leaseOver 0 = false := by decide

theorem limited_routes : (limited.tasks.map fun task => (task.status, task.excludedWorkerIds)) =
      [(.queued, ["a"])] ∧
    ∀ task ∈ (leaves (.status sampleStatus) limited).tasks, task.status = .queued →
      task.excludedWorkerIds ≠ [] →
        (leaves (.status sampleStatus) limited).hasCapacityAlternative 0 task.excludedWorkerIds := by
  -- No lease has run out, and the failure is not one of the browser.
  have hkept : ∀ task ∈ claimed.tasks, ¬ (sampleReport "ERROR: usage_limit_reached").Requeues task :=
    fun _ _ hput => absurd hput.1 (by decide)
  have hrun : Runs (RoutedStep samplePool) (opened sampleWorkers) _ limited :=
    .next (.next (.next .stay ⟨submitted_step, fun _ _ hput => hput.elim⟩)
      ⟨claimed_step, fun task htask _ => submitted_unexcluded task htask⟩)
      ⟨limited_step, fun task htask hput => absurd hput (hkept task htask)⟩
  have hstep : RoutedStep samplePool limited (.status sampleStatus, .status 0)
      (leaves (.status sampleStatus) limited) :=
    ⟨rfl, fun task htask hput => absurd hput.1 (ne_true_of_eq_false (limited_waits task htask))⟩
  exact ⟨rfl, (sweeps_route sampleWorkers hrun hstep rfl).1 (by decide)⟩

end NyxId.OracleTasks
