import NyxId.OracleTasks.Law

/-!
What each call does to the tasks of its pool, and what all histories keep true.
-/

namespace NyxId.OracleTasks

open Interleave Outcomes
open Encoding (trim)

variable {pool : OraclePool} {s t u : State} {task task' : OracleTask} {allowed : OracleTask → Prop}

/-- The call puts the task back for its lease or for a failure of its browser. -/
def Call.Requeues (call : Call) (task : OracleTask) : Prop :=
  match call with
  | .claim _ _ env => task.leaseOver env.expiry ∧ task.retryable
  | .status env => task.leaseOver env.expiry ∧ task.retryable
  | .result _ workerLabel taskId input =>
    (∃ code ∈ workerInfrastructureFailures, workerErrorCode (trim input.response) = some code) ∧
      task.isLive workerLabel taskId input.dispatchAttemptId ∧ task.retryable
  | _ => False

/-- The attempt id that a call drew for a dispatch. -/
def drawn : Call × Answer → Option String
  | (.claim _ _ env, .claimed (.dispatched _) _) => some env.attemptId
  | _ => none

/-- What a call that commits does to the tasks, with the attempt id that it drew. -/
inductive Effect (pool : OraclePool) (allowed : OracleTask → Prop) (drew : Option String)
    (s t : State) : Prop
  | moves (h : Evolves allowed s.tasks t.tasks)
  | opens (id : String) (required : Option String) (now : ℤ) (hnew : ∀ task ∈ s.tasks, task.id ≠ id)
      (h : t.tasks = s.tasks ++ [newTask id required now])
  | dispatches (mid : State) (workerLabel : String) (env : ClaimEnv) (lease : ℤ) (task : OracleTask)
      (hmid : Evolves allowed s.tasks mid.tasks) (htask : task ∈ mid.tasks)
      (hclaim : claimable workerLabel task)
      (hfree : ∀ other ∈ mid.tasks, other.status = .dispatched →
        other.assignedWorkerId ≠ some workerLabel)
      (hroom : dispatchedCount mid < pool.maxWorkers) (hdrew : drew = some env.attemptId)
      (h : t.tasks = (mid.update (·.id = task.id) (dispatchTo workerLabel env lease)).tasks)

/-! ### Dispatches -/

theorem newTask_ok (id : String) (required : Option String) (now : ℤ) :
    TaskOk (newTask id required now) where
  retries := Nat.zero_le _
  reroutes := Nat.zero_le _
  excluded_le := Nat.le_refl _
  excluded_nodup := List.nodup_nil
  held := OracleTaskStatus.noConfusion
  underway := OracleTaskStatus.noConfusion
  waiting := fun _ => ⟨rfl, rfl⟩
  attempts := Nat.zero_le _

theorem claimable_iff {workerLabel : String} : claimable workerLabel task ↔
    task.status = .queued ∧ workerLabel ∉ task.excludedWorkerIds ∧
      task.requiredWorkerLabel.all (· = workerLabel) := by
  simp only [claimable, Bool.and_eq_true, decide_eq_true_eq, and_assoc]

theorem dispatchTo_ok {workerLabel : String} (env : ClaimEnv) (lease : ℤ) (h : TaskOk task)
    (hclaim : claimable workerLabel task) : TaskOk (dispatchTo workerLabel env lease task) := by
  obtain ⟨hstatus, hexcluded, hpin⟩ := claimable_iff.mp hclaim
  have hattempts := (h.waiting hstatus).2
  exact { h with
    held := fun _ => ⟨workerLabel, rfl, hexcluded, hpin⟩
    underway := fun _ => congrArg (· + 1) hattempts
    waiting := OracleTaskStatus.noConfusion
    attempts := Nat.succ_le_succ (Nat.le_of_eq hattempts) }

theorem mem_dispatched (hids : (s.tasks.map OracleTask.id).Nodup) (htask : task ∈ s.tasks)
    {workerLabel : String} {env : ClaimEnv} {lease : ℤ} {later : OracleTask} :
    later ∈ (s.update (·.id = task.id) (dispatchTo workerLabel env lease)).tasks ↔
      later = dispatchTo workerLabel env lease task ∨ later ∈ s.tasks ∧ later.id ≠ task.id := by
  simp only [State.update, List.mem_map, decide_eq_true_eq]
  constructor
  · rintro ⟨other, hother, rfl⟩
    split
    · rename_i hid
      rw [eq_of_id_eq hids hother htask hid]
      exact Or.inl rfl
    · rename_i hid
      exact Or.inr ⟨hother, hid⟩
  · rintro (rfl | ⟨hlater, hid⟩)
    · exact ⟨task, htask, if_pos rfl⟩
    · exact ⟨later, hlater, if_neg hid⟩

/-- Ids differ, so that at most one task changes. -/
theorem countP_update_le {xs : List OracleTask} (hids : (xs.map OracleTask.id).Nodup) (id : String)
    (p : OracleTask → Bool) (f : OracleTask → OracleTask) :
    (xs.map fun task => if decide (task.id = id) then f task else task).countP p ≤ xs.countP p + 1 := by
  induction xs with
  | nil => exact Nat.zero_le _
  | cons x xs ih =>
    obtain ⟨hnew, hids⟩ := List.nodup_cons.mp hids
    rw [List.map_cons, List.countP_cons, List.countP_cons]
    by_cases hid : x.id = id
    · have hrest : (xs.map fun task => if decide (task.id = id) then f task else task) = xs := by
        conv_rhs => rw [← List.map_id xs]
        refine List.map_congr_left fun task htask => if_neg ?_
        rw [decide_eq_true_eq, ← hid]
        exact fun heq => hnew (heq ▸ List.mem_map_of_mem htask)
      rw [hrest]
      split <;> split <;> omega
    · have hrest := ih hids
      simp only [hid, decide_false, Bool.false_eq_true, if_false]
      omega

theorem PoolOk.dispatch (h : PoolOk pool s) (htask : task ∈ s.tasks) {workerLabel : String}
    {env : ClaimEnv} {lease : ℤ} (hclaim : claimable workerLabel task)
    (hfree : ∀ other ∈ s.tasks, other.status = .dispatched →
      other.assignedWorkerId ≠ some workerLabel)
    (hroom : dispatchedCount s < pool.maxWorkers)
    (ht : t.tasks = (s.update (·.id = task.id) (dispatchTo workerLabel env lease)).tasks) :
    PoolOk pool t where
  ids := by
    have hsame : t.tasks.map OracleTask.id = s.tasks.map OracleTask.id := by
      rw [ht]
      simp only [State.update, List.map_map]
      refine List.map_congr_left fun other _ => ?_
      simp only [Function.comp_apply]
      split <;> rfl
    rw [hsame]
    exact h.ids
  each later hlater := by
    rw [ht] at hlater
    rcases (mem_dispatched h.ids htask).mp hlater with rfl | ⟨hlater, -⟩
    · exact dispatchTo_ok env lease (h.each task htask) hclaim
    · exact h.each later hlater
  once a ha b hb hheldA hheldB hworker := by
    rw [ht] at ha hb
    rcases (mem_dispatched h.ids htask).mp ha with rfl | ⟨ha, -⟩ <;>
      rcases (mem_dispatched h.ids htask).mp hb with rfl | ⟨hb, -⟩
    · rfl
    · exact absurd hworker.symm (hfree b hb hheldB)
    · exact absurd hworker (hfree a ha hheldA)
    · exact h.once a ha b hb hheldA hheldB hworker
  limit := by
    have hcount := countP_update_le h.ids task.id (fun task => task.status = .dispatched)
      (dispatchTo workerLabel env lease)
    rw [dispatchedCount, ht]
    exact hcount.trans hroom

theorem PoolOk.effect (h : PoolOk pool s) {drew : Option String}
    (heffect : Effect pool allowed drew s t) : PoolOk pool t := by
  cases heffect with
  | moves hmoves => exact h.evolves hmoves
  | opens id required now hnew ht =>
    refine ⟨?_, fun task htask => ?_, fun a ha b hb hheldA hheldB => ?_, ?_⟩
    · rw [ht, List.map_append]
      refine List.nodup_append.mpr ⟨h.ids, List.nodup_singleton _, ?_⟩
      intro id' hid' id'' hid'' heq
      obtain ⟨task, htask, rfl⟩ := List.mem_map.mp hid'
      exact hnew task htask (heq.trans (List.mem_singleton.mp hid''))
    · rw [ht] at htask
      rcases List.mem_append.mp htask with htask | htask
      · exact h.each task htask
      · rw [List.mem_singleton.mp htask]
        exact newTask_ok id required now
    · have hold {task : OracleTask} (htask : task ∈ t.tasks) (hheld : task.status = .dispatched) :
          task ∈ s.tasks := by
        rw [ht] at htask
        rcases List.mem_append.mp htask with htask | htask
        · exact htask
        · rw [List.mem_singleton.mp htask] at hheld
          cases hheld
      exact h.once a (hold ha hheldA) b (hold hb hheldB) hheldA hheldB
    · rw [dispatchedCount, ht, List.countP_append]
      exact h.limit
  | dispatches mid workerLabel env lease task hmid htask hclaim hfree hroom hdrew ht =>
    exact (h.evolves hmid).dispatch htask hclaim hfree hroom ht

/-! ### Calls -/

theorem upsertWorkerPresence_tasks {now : ℤ} {workerLabel : String} {current : Option String}
    {authorized : Option Installation}
    (h : upsertWorkerPresence now workerLabel current authorized s = .ok t) : t.tasks = s.tasks := by
  simp only [upsertWorkerPresence] at h
  split at h
  · cases h
    rfl
  · split at h
    · cases h
    · cases h
      rfl

theorem recordFailureDetail_tasks (workerLabel : String) (detail : Option Text) (s : State) :
    (recordFailureDetail workerLabel detail s).tasks = s.tasks := by
  cases detail <;> rfl

theorem leaseOver_dispatched {now : ℤ} (h : task.leaseOver now) : task.status = .dispatched := by
  simp only [OracleTask.leaseOver, Bool.and_eq_true, decide_eq_true_eq] at h
  exact h.1

theorem isLive_iff {workerLabel taskId : String} {attemptId : Option String} :
    task.isLive workerLabel taskId attemptId ↔ task.id = taskId ∧ task.status = .dispatched ∧
      task.assignedWorkerId = some workerLabel ∧ attemptId.all (task.dispatchAttemptId = some ·) := by
  simp only [OracleTask.isLive, Bool.and_eq_true, decide_eq_true_eq, and_assoc]

theorem requeueExpiredLeases_evolves {now : ℤ} (pool : OraclePool)
    (hallowed : ∀ task ∈ s.tasks, task.leaseOver now ∧ task.retryable → allowed task) :
    Evolves allowed s.tasks (requeueExpiredLeases now pool s).tasks := by
  refine Evolves.trans (evolves_update fun task htask hp => ?_) (evolves_update fun task _ hp => ?_)
  · obtain ⟨hover, hretry⟩ := (Bool.and_eq_true _ _).mp hp
    exact .retry _ task.failureDetail now (leaseOver_dispatched hover) (of_decide_eq_true hretry)
      (hallowed task htask ⟨hover, hretry⟩)
  · obtain ⟨hover, -⟩ := (Bool.and_eq_true _ _).mp hp
    refine .close ?_ rfl ⟨rfl, rfl, rfl, rfl, rfl, rfl, rfl⟩
    rw [leaseOver_dispatched hover]
    rfl

theorem mem_byCreation {xs : List OracleTask} : task ∈ byCreation xs ↔ task ∈ xs :=
  List.mem_insertionSort _

theorem releaseStaleAffinity_evolves (hids : (s.tasks.map OracleTask.id).Nodup) (now : ℤ)
    (pool : OraclePool) : Evolves allowed s.tasks (releaseStaleAffinity now pool s).tasks := by
  refine evolves_update fun task htask hp => .unpin _ now ?_
  obtain ⟨row, hrow, hid⟩ := List.mem_map.mp (of_decide_eq_true hp)
  obtain ⟨hmem, hrow⟩ := List.mem_filter.mp (mem_byCreation.mp (List.mem_of_mem_take hrow))
  rw [← eq_of_id_eq hids hmem htask hid]
  simp only [Bool.and_eq_true, decide_eq_true_eq] at hrow
  exact hrow.1.1

theorem settleTask_evolves (clock : SettleClock) (pool : OraclePool) (task : OracleTask) (s : State) :
    Evolves allowed s.tasks (settleTask clock pool task s).tasks := by
  refine evolves_update fun row _ hp => .close ?_ rfl ⟨rfl, rfl, rfl, rfl, rfl, rfl, rfl⟩
  simp only [Bool.and_eq_true, decide_eq_true_eq] at hp
  rw [hp.1.2]
  rfl

theorem settleTasks_evolves (clock : String → SettleClock) (pool : OraclePool) (rows : List OracleTask)
    (failed : ℕ) (s : State) : Evolves allowed s.tasks (settleTasks clock pool rows failed s).1.tasks := by
  induction rows generalizing failed s with
  | nil => exact .refl _
  | cons row rows ih =>
    rw [settleTasks]
    split
    · exact ih failed s
    · split
      · exact settleTask_evolves _ pool row s
      · exact (settleTask_evolves _ pool row s).trans (ih _ _)

/-- A worker without a live dispatch takes at most one task, one that it may have. -/
theorem takeNext_cases {workerLabel : String} {authorized : Option Installation} {env : ClaimEnv}
    {lease : ℤ} {claim : Claim} (h : takeNext pool workerLabel authorized env lease s = .ok (claim, t)) :
    (claim = .idle ∧ t = s) ∨ ∃ task ∈ s.tasks, claimable workerLabel task ∧
      dispatchedCount s < pool.maxWorkers ∧ claim = .dispatched task.id ∧
      upsertWorkerPresence env.claimed workerLabel (some task.id) authorized
        (s.update (·.id = task.id) (dispatchTo workerLabel env lease)) = .ok t := by
  simp only [takeNext] at h
  split at h
  · cases h
    exact Or.inl ⟨rfl, rfl⟩
  · split at h
    · cases h
      exact Or.inl ⟨rfl, rfl⟩
    · rename_i hroom
      split at h
      · cases h
        exact Or.inl ⟨rfl, rfl⟩
      · rename_i task hhead
        obtain ⟨later, hlater, h⟩ := bind_eq_ok.mp h
        cases h
        have hwaiting := (List.mem_insertionSort _).mp (List.mem_of_mem_head? hhead)
        obtain ⟨htask, hclaim⟩ := List.mem_filter.mp hwaiting
        exact Or.inr ⟨task, htask, hclaim, Nat.lt_of_not_le hroom, rfl, hlater⟩

/-- The tasks as a claim finds them, once leases and pins that have run out are gone. -/
def refreshed (pool : OraclePool) (env : ClaimEnv) (s : State) : State :=
  releaseStaleAffinity env.affinity pool (requeueExpiredLeases env.expiry pool s)

/-- A claim resumes the worker's dispatch, or sweeps and then takes the next task. -/
theorem claimTask_cases {workerLabel : String} {authorized : Option Installation} {env : ClaimEnv}
    {claim : Claim} {failed : ℕ}
    (h : claimTask pool workerLabel authorized env s = .ok (claim, failed, t)) :
    (∃ task ∈ (refreshed pool env s).tasks, task.status = .dispatched ∧ claim = .resumed task.id ∧
      t.tasks = ((refreshed pool env s).update (·.id = task.id) fun t =>
        { t with
          leaseExpiresAt := some (env.now + pool.taskTimeoutSecs * 1000)
          updatedAt := env.now }).tasks) ∨
    ((∀ other ∈ (refreshed pool env s).tasks, other.status = .dispatched →
        other.assignedWorkerId ≠ some workerLabel) ∧
      ∃ seen, upsertWorkerPresence env.presence workerLabel none authorized
          (refreshed pool env s) = .ok seen ∧
        failed = (settleUnroutableCapacityTasks env.sweep pool seen).2 ∧
        takeNext pool workerLabel authorized env (env.now + pool.taskTimeoutSecs * 1000)
          (settleUnroutableCapacityTasks env.sweep pool seen).1 = .ok (claim, t)) := by
  obtain ⟨-, -, h⟩ := bind_eq_ok.mp h
  dsimp only at h
  split at h
  · rename_i task hfind
    obtain ⟨later, hlater, h⟩ := bind_eq_ok.mp h
    cases h
    have hfound := List.find?_some hfind
    rw [Bool.and_eq_true, decide_eq_true_eq] at hfound
    exact Or.inl ⟨task, List.mem_of_find?_eq_some hfind, hfound.1, rfl,
      upsertWorkerPresence_tasks hlater⟩
  · rename_i hfind
    obtain ⟨seen, hseen, h⟩ := bind_eq_ok.mp h
    obtain ⟨⟨claim', next⟩, hnext, h⟩ := bind_eq_ok.mp h
    cases h
    refine Or.inr ⟨fun other hother hheld hworker => ?_, seen, hseen, rfl, hnext⟩
    refine List.find?_eq_none.mp hfind other hother ?_
    simp only [Bool.and_eq_true, decide_eq_true_eq]
    exact ⟨hheld, hworker⟩

theorem refreshed_evolves (hok : PoolOk pool s) {env : ClaimEnv}
    (hallowed : ∀ task ∈ s.tasks, task.leaseOver env.expiry ∧ task.retryable → allowed task) :
    Evolves allowed s.tasks (refreshed pool env s).tasks := by
  have hexpired := requeueExpiredLeases_evolves pool hallowed
  exact hexpired.trans (releaseStaleAffinity_evolves (hok.evolves hexpired).ids env.affinity pool)

theorem claimTask_effect (hok : PoolOk pool s) {workerLabel : String}
    {authorized : Option Installation} {env : ClaimEnv} {claim : Claim} {failed : ℕ}
    (hallowed : ∀ task ∈ s.tasks, task.leaseOver env.expiry ∧ task.retryable → allowed task)
    (h : claimTask pool workerLabel authorized env s = .ok (claim, failed, t)) :
    Effect pool allowed (drawn (.claim workerLabel authorized env, .claimed claim failed)) s t := by
  have hmoves := refreshed_evolves hok hallowed
  rcases claimTask_cases h with ⟨task, htask, hheld, -, ht⟩ | ⟨hfree, seen, hseen, -, hnext⟩
  · refine .moves (hmoves.trans ?_)
    rw [ht]
    refine evolves_update fun row hrow hid => .extend row.phase _ _ ?_
    rw [eq_of_id_eq (hok.evolves hmoves).ids hrow htask (of_decide_eq_true hid)]
    exact hheld
  · have htasks := upsertWorkerPresence_tasks hseen
    have hsweep : Evolves allowed seen.tasks
        (settleUnroutableCapacityTasks env.sweep pool seen).1.tasks :=
      settleTasks_evolves env.sweep pool (byCreation (seen.tasks.filter isCapacityTask)) 0 seen
    have hmid := hmoves.trans (htasks ▸ hsweep)
    rcases takeNext_cases hnext with ⟨-, rfl⟩ | ⟨task, htask, hclaim, hroom, rfl, hlater⟩
    · exact .moves hmid
    · refine .dispatches _ workerLabel env _ task hmid htask hclaim (fun other hother hheld hworker => ?_)
        hroom rfl (upsertWorkerPresence_tasks hlater)
      -- The sweep dispatches nothing, so that the worker would have had the task before.
      obtain ⟨row, hrow, hcourse⟩ := hsweep.exists_source hother
      obtain ⟨hbefore, hsame, -⟩ := hcourse.dispatched hheld
      rw [htasks] at hrow
      exact hfree row hrow hbefore (hsame.symm.trans hworker)

theorem finishTask_close (pool : OraclePool) (env : ResultEnv) (input : WorkerResultInput)
    (hstatus : task.status = .dispatched) : Move allowed task (finishTask pool env input task) := by
  refine .close ?_ ?_ ⟨rfl, rfl, rfl, rfl, rfl, rfl, rfl⟩
  · rw [hstatus]
    rfl
  · show OracleTaskStatus.isTerminal (if isFailure input then .failed else .completed)
    split <;> rfl

variable {env : ResultEnv} {workerLabel taskId : String} {input : WorkerResultInput}
  {outcome : ResultOutcome}

/-- The tasks that a stored report leaves, and whose dispatch it then ends. -/
theorem storeResult_tasks (h : storeResult pool env workerLabel taskId input s = .ok (outcome, t)) :
    t.tasks = (s.update (·.isLive workerLabel taskId input.dispatchAttemptId)
        (finishTask pool env input)).tasks ∧
      (outcome ≠ .ignored → s.tasks.any (·.isLive workerLabel taskId input.dispatchAttemptId)) := by
  obtain ⟨later, hlater, h⟩ := bind_eq_ok.mp h
  rw [← upsertWorkerPresence_tasks hlater]
  split at h
  · rename_i hany
    split at h <;> cases h
    · exact ⟨recordFailureDetail_tasks workerLabel input.failureDetail later, fun _ => hany⟩
    · exact ⟨rfl, fun _ => hany⟩
  · cases h
    exact ⟨rfl, absurd rfl⟩

theorem retryResult_tasks (h : retryResult pool env workerLabel taskId input s = .ok (outcome, t)) :
    (t.tasks = (s.update (fun task => task.isLive workerLabel taskId input.dispatchAttemptId &&
          task.retryable) (retryTask env.now input)).tasks ∧
      s.tasks.any fun task => task.isLive workerLabel taskId input.dispatchAttemptId &&
        task.retryable) ∨
    t.tasks = (s.update (·.isLive workerLabel taskId input.dispatchAttemptId)
        (exhaustTask pool env input)).tasks ∧
      (outcome ≠ .ignored → s.tasks.any (·.isLive workerLabel taskId input.dispatchAttemptId)) := by
  simp only [retryResult] at h
  split at h
  · rename_i hany
    obtain ⟨later, hlater, h⟩ := bind_eq_ok.mp h
    cases h
    rw [recordFailureDetail_tasks, upsertWorkerPresence_tasks hlater]
    exact .inl ⟨rfl, hany⟩
  · obtain ⟨later, hlater, h⟩ := bind_eq_ok.mp h
    rw [← upsertWorkerPresence_tasks hlater]
    split at h
    · rename_i hany
      cases h
      exact .inr ⟨recordFailureDetail_tasks workerLabel input.failureDetail later, fun _ => hany⟩
    · cases h
      exact .inr ⟨rfl, absurd rfl⟩

theorem storeResult_evolves (h : storeResult pool env workerLabel taskId input s = .ok (outcome, t)) :
    Evolves allowed s.tasks t.tasks := by
  rw [(storeResult_tasks h).1]
  exact evolves_update fun task _ hlive => finishTask_close pool env input (isLive_iff.mp hlive).2.1

theorem retryResult_evolves
    (hallowed : ∀ task ∈ s.tasks, task.isLive workerLabel taskId input.dispatchAttemptId ∧
      task.retryable → allowed task)
    (h : retryResult pool env workerLabel taskId input s = .ok (outcome, t)) :
    Evolves allowed s.tasks t.tasks := by
  rcases retryResult_tasks h with ⟨htasks, -⟩ | ⟨htasks, -⟩
  · rw [htasks]
    refine evolves_update fun task htask hp => ?_
    obtain ⟨hlive, hretry⟩ := (Bool.and_eq_true _ _).mp hp
    exact .retry _ _ _ (isLive_iff.mp hlive).2.1 (of_decide_eq_true hretry)
      (hallowed task htask ⟨hlive, hretry⟩)
  · rw [htasks]
    refine evolves_update fun task _ hlive => .close ?_ rfl ⟨rfl, rfl, rfl, rfl, rfl, rfl, rfl⟩
    rw [(isLive_iff.mp hlive).2.1]
    rfl

theorem workerSubmitResult_evolves (hids : (s.tasks.map OracleTask.id).Nodup)
    (hallowed : ∀ task ∈ s.tasks, (Call.result env workerLabel taskId input).Requeues task → allowed task)
    (h : workerSubmitResult pool env workerLabel taskId input s = .ok (outcome, t)) :
    Evolves allowed s.tasks t.tasks := by
  obtain ⟨-, -, h⟩ := bind_eq_ok.mp h
  dsimp only at h
  split at h
  · rename_i hcapacity
    split at h
    · cases h
      exact .refl _
    · rename_i task hfind
      split at h
      · rename_i hroute
        obtain ⟨later, hlater, h⟩ := bind_eq_ok.mp h
        cases h
        rw [recordFailureDetail_tasks, upsertWorkerPresence_tasks hlater]
        obtain ⟨code, hcode, hmember⟩ := (Option.any_eq_true _ _).mp hcapacity
        simp only [canReroute, Bool.and_eq_true, decide_eq_true_eq, Option.isNone_iff_eq_none] at hroute
        refine evolves_update fun row hrow hlive => ?_
        obtain ⟨hid, hstatus, hworker, -⟩ := isLive_iff.mp hlive
        have hfound := List.find?_some hfind
        rw [isLive_iff] at hfound
        rw [eq_of_id_eq hids hrow (List.mem_of_find?_eq_some hfind) (hid.trans hfound.1.symm), hcode]
        exact .reroute workerLabel code input env.now hfound.2.1 hfound.2.2.1 hroute.1.1 hroute.1.2
          (of_decide_eq_true hmember)
      · exact storeResult_evolves h
  · split at h
    · rename_i hinfrastructure
      obtain ⟨code, hcode, hmember⟩ := (Option.any_eq_true _ _).mp hinfrastructure
      exact retryResult_evolves (fun task htask hlive =>
        hallowed task htask ⟨⟨code, of_decide_eq_true hmember, hcode⟩, hlive⟩) h
    · exact storeResult_evolves h

theorem workerAck_evolves {env : AckEnv} {workerLabel taskId : String} {phase : Option Text}
    {attemptId : Option String} {authorized : Option Installation} {outcome : AckOutcome}
    (h : workerAck pool env workerLabel taskId phase attemptId authorized s = .ok (outcome, t)) :
    Evolves allowed s.tasks t.tasks := by
  obtain ⟨-, -, h⟩ := bind_eq_ok.mp h
  obtain ⟨later, hlater, h⟩ := bind_eq_ok.mp h
  cases h
  rw [upsertWorkerPresence_tasks hlater]
  exact evolves_update fun task _ hlive => .extend _ _ _ (isLive_iff.mp hlive).2.1

theorem cancelTask_evolves {checks : Except AppError Unit} {now terminal : ℤ} {taskId : String}
    (h : cancelTask pool checks now terminal taskId s = .ok t) : Evolves allowed s.tasks t.tasks := by
  obtain ⟨-, -, h⟩ := bind_eq_ok.mp h
  have hclose : Evolves allowed s.tasks (s.update
      (fun t => t.id = taskId && (t.status = .queued || t.status = .dispatched)) fun t =>
      { t with
        status := .cancelled
        completedAt := some now
        expiresAt := some (terminal + pool.retentionDays * dayMs)
        updatedAt := now }).tasks := by
    refine evolves_update fun task _ hp => .close ?_ rfl ⟨rfl, rfl, rfl, rfl, rfl, rfl, rfl⟩
    simp only [Bool.and_eq_true, Bool.or_eq_true, decide_eq_true_eq] at hp
    rcases hp.2 with hstatus | hstatus <;> rw [hstatus] <;> rfl
  split at h
  · cases h
  · split at h
    · cases h
      exact .refl _
    · cases h
    · cases h
    · cases h
      exact hclose
    · cases h
      exact hclose

theorem perform_effect (hok : PoolOk pool s) {call : Call} {answer : Answer}
    (hallowed : ∀ task ∈ s.tasks, call.Requeues task → allowed task)
    (h : perform pool call s = .ok (answer, t)) :
    Effect pool allowed (drawn (call, answer)) s t := by
  cases call with
  | submit checks id required now =>
    obtain ⟨later, hlater, h⟩ := bind_eq_ok.mp h
    cases h
    obtain ⟨-, -, hlater⟩ := bind_eq_ok.mp hlater
    split at hlater
    · cases hlater
    · rename_i hnew
      cases hlater
      refine .opens id required now (fun task htask hid => hnew ?_) rfl
      exact List.any_eq_true.mpr ⟨task, htask, decide_eq_true hid⟩
  | claim workerLabel authorized env =>
    obtain ⟨⟨claim, failed, later⟩, hlater, h⟩ := bind_eq_ok.mp h
    cases h
    exact claimTask_effect hok hallowed hlater
  | result env workerLabel taskId input =>
    obtain ⟨⟨outcome, later⟩, hlater, h⟩ := bind_eq_ok.mp h
    cases h
    exact .moves (workerSubmitResult_evolves hok.ids hallowed hlater)
  | ack env workerLabel taskId phase attemptId authorized =>
    obtain ⟨⟨outcome, later⟩, hlater, h⟩ := bind_eq_ok.mp h
    cases h
    exact .moves (workerAck_evolves hlater)
  | status env =>
    obtain ⟨⟨failed, later⟩, hlater, h⟩ := bind_eq_ok.mp h
    cases h
    obtain ⟨-, -, hlater⟩ := bind_eq_ok.mp hlater
    cases hlater
    exact .moves ((requeueExpiredLeases_evolves pool hallowed).trans
      (settleTasks_evolves env.sweep pool _ 0 _))
  | cancel checks now terminal taskId =>
    obtain ⟨later, hlater, h⟩ := bind_eq_ok.mp h
    cases h
    exact .moves (cancelTask_evolves hlater)
  | workers workers =>
    cases h
    exact .moves (.refl _)

/-! ### Runs -/

variable {events : List (Call × Answer)}

theorem PoolOk.step (h : PoolOk pool s) {event : Call × Answer} (hstep : Step pool s event t) :
    PoolOk pool t := by
  have heffect : Effect pool (fun _ => True) (drawn event) s t :=
    perform_effect h (fun _ _ _ => trivial) hstep
  exact h.effect heffect

theorem PoolOk.run (hs : PoolOk pool s) (h : Runs (Step pool) s events t) : PoolOk pool t :=
  h.preserves (fun _ _ _ hok hstep => hok.step hstep) hs

/-- A pool before its first task. -/
def opened (workers : List OracleWorker) : State where
  tasks := []
  workers := workers

theorem opened_ok (pool : OraclePool) (workers : List OracleWorker) : PoolOk pool (opened workers) where
  ids := List.nodup_nil
  each := fun _ htask => absurd htask List.not_mem_nil
  once := fun _ htask => absurd htask List.not_mem_nil
  limit := Nat.zero_le _

/-- In every history a worker holds at most one dispatch, one that excludes nobody who holds it and
that is pinned to nobody else; no more than the limit of the pool are out; and no task is sent out
more often than its retries and reroutes allow. -/
theorem dispatches_exclusive (workers : List OracleWorker)
    (h : Runs (Step pool) (opened workers) events s) :
    (∀ task ∈ s.tasks, ∀ task' ∈ s.tasks, task.status = .dispatched → task'.status = .dispatched →
      task.assignedWorkerId = task'.assignedWorkerId → task = task') ∧
    (∀ task ∈ s.tasks, task.status = .dispatched → ∃ workerLabel,
      task.assignedWorkerId = some workerLabel ∧ workerLabel ∉ task.excludedWorkerIds ∧
        task.requiredWorkerLabel.all (· = workerLabel)) ∧
    dispatchedCount s ≤ pool.maxWorkers ∧
    (∀ task ∈ s.tasks, task.attemptCount ≤ task.maxRetries + maxCapacityReroutes + 1) ∧
    ∀ task ∈ s.tasks, task.excludedWorkerIds.Nodup ∧
      task.excludedWorkerIds.length ≤ maxCapacityReroutes := by
  have hok := (opened_ok pool workers).run h
  refine ⟨hok.once, fun task htask => (hok.each task htask).held, hok.limit, fun task htask => ?_,
    fun task htask => ?_⟩
  · obtain ⟨hretries, hreroutes, -, -, -, -, -, hattempts⟩ := hok.each task htask
    omega
  · have hall := hok.each task htask
    exact ⟨hall.excluded_nodup, hall.excluded_le.trans hall.reroutes⟩

def samplePool : OraclePool where
  taskTimeoutSecs := 60
  maxWorkers := 1
  retentionDays := 7

def sampleWorker (workerLabel : String) : OracleWorker where
  workerLabel := workerLabel
  generation := none
  instanceId := none
  lastSeenAt := 0
  currentTaskId := none
  draining := false
  loggedIn := none
  chromeAlive := none
  lastError := none
  cooldownUntil := none

def sampleClock (_ : String) : SettleClock := ⟨0, 0, 0, 0⟩

theorem sampleClock_le (taskId : String) : (sampleClock taskId).checked ≤ 0 := Int.le_refl 0

def sampleClaim : ClaimEnv where
  checks := .ok ()
  expiry := 0
  affinity := 0
  now := 0
  presence := 0
  sweep := sampleClock
  accepts := 0
  claimed := 0
  attemptId := "1"
  order := fun _ => 0
  sweep_le := sampleClock_le

def sampleResult : ResultEnv where
  checks := .ok ()
  now := 0
  alternative := 0
  terminal := 0
  presence := 0

def sampleReport (response : String) : Call :=
  .result sampleResult "a" "q" {
    response := response.toList
    artifacts := false
    failureDetail := none
    chatgptUrl := none
    dispatchAttemptId := some "1"
    authorized := none }

def sampleWorkers : List OracleWorker := [sampleWorker "a", sampleWorker "b"]

/-- The store that a call leaves. -/
def leaves (call : Call) (s : State) : State :=
  match perform samplePool call s with
  | .ok (_, t) => t
  | .error _ => s

def submitted : State := leaves (.submit (.ok ()) "q" none 0) (opened sampleWorkers)

def claimed : State := leaves (.claim "a" none sampleClaim) submitted

def answered : State := leaves (sampleReport "42") claimed

theorem submitted_step : Step samplePool (opened sampleWorkers)
    (.submit (.ok ()) "q" none 0, .submitted) submitted := rfl

theorem claimed_step : Step samplePool submitted
    (.claim "a" none sampleClaim, .claimed (.dispatched "q") 0) claimed := rfl

theorem answered_step : Step samplePool claimed
    (sampleReport "42", .reported .completed) answered := rfl

theorem claimed_exclusive : dispatchedCount claimed = 1 ∧ dispatchedCount claimed ≤ samplePool.maxWorkers :=
  ⟨rfl, (dispatches_exclusive sampleWorkers
    (.next (.next .stay submitted_step) claimed_step)).2.2.1⟩

/-- A task that has ended stays as it ended, whatever is reported about it later. -/
theorem terminal_kept (workers : List OracleWorker) {later : List (Call × Answer)}
    (h : Runs (Step pool) (opened workers) events s) (hlater : Runs (Step pool) s later t)
    (htask : task ∈ s.tasks) (hterminal : task.status.isTerminal) :
    task ∈ t.tasks ∧ ∀ row ∈ t.tasks, row.id = task.id → row = task := by
  have hkept : PoolOk pool t ∧ task ∈ t.tasks := by
    refine hlater.preserves (P := fun u => PoolOk pool u ∧ task ∈ u.tasks) (fun u event v hu hstep => ?_)
      ⟨(opened_ok pool workers).run h, htask⟩
    refine ⟨hu.1.step hstep, ?_⟩
    have heffect : Effect pool (fun _ => True) (drawn event) u v :=
      perform_effect hu.1 (fun _ _ _ => trivial) hstep
    cases heffect with
    | moves hmoves => exact hmoves.mem_of_terminal hu.2 hterminal
    | opens id required now hnew hv =>
      rw [hv]
      exact List.mem_append_left _ hu.2
    | dispatches mid workerLabel env lease row hmid hrow hclaim hfree hroom hdrew hv =>
      have hmem := hmid.mem_of_terminal hu.2 hterminal
      rw [hv]
      refine (mem_dispatched (hu.1.evolves hmid).ids hrow).mpr (Or.inr ⟨hmem, fun hid => ?_⟩)
      rw [eq_of_id_eq (hu.1.evolves hmid).ids hmem hrow hid, (claimable_iff.mp hclaim).1] at hterminal
      cases hterminal
  exact ⟨hkept.2, fun row hrow => eq_of_id_eq hkept.1.ids hrow hkept.2⟩

theorem repeated_step : Step samplePool answered (sampleReport "42", .reported .ignored)
    (leaves (sampleReport "42") answered) := rfl

theorem answered_kept : ∃ task, answered.tasks = [task] ∧ task.status = .completed ∧
    task ∈ (leaves (sampleReport "42") answered).tasks := by
  obtain ⟨task, htask⟩ : ∃ task, answered.tasks = [task] := ⟨_, rfl⟩
  have hstatus : (answered.tasks.map (·.status)) = [.completed] := rfl
  rw [htask] at hstatus
  have hcompleted : task.status = .completed := (List.cons.inj hstatus).1
  refine ⟨task, htask, hcompleted, (terminal_kept sampleWorkers
    (.next (.next (.next .stay submitted_step) claimed_step) answered_step) (.next .stay repeated_step)
    (htask ▸ List.mem_singleton_self task) ?_).1⟩
  rw [hcompleted]
  rfl

end NyxId.OracleTasks
