import NyxId.OracleTasks.Histories

/-!
Attempt ids: which reports take effect, and how often.
-/

namespace NyxId.OracleTasks

open Interleave Outcomes
open Encoding (trim)

variable {pool : OraclePool} {s t u : State} {task task' : OracleTask} {allowed : OracleTask → Prop}
  {attemptId : String} {events : List (Call × Answer)}

/-- The task is out under the attempt id. -/
def OracleTask.Holds (task : OracleTask) (attemptId : String) : Prop :=
  task.status = .dispatched ∧ task.dispatchAttemptId = some attemptId

/-- The report under the attempt id took effect. -/
def settles (attemptId : String) : Call × Answer → Bool
  | (.result _ _ _ input, .reported outcome) =>
    input.dispatchAttemptId = some attemptId && outcome ≠ .ignored
  | _ => false

/-- Attempt ids name dispatches of the past, and those that have been settled are not out any more. -/
structure AttemptOk (attemptId : String) (events : List (Call × Answer)) (s : State) : Prop where
  held : ∀ task ∈ s.tasks, task.Holds attemptId → attemptId ∈ events.filterMap drawn
  one : ∀ task ∈ s.tasks, ∀ task' ∈ s.tasks, task.Holds attemptId → task'.Holds attemptId → task = task'
  once : events.countP (settles attemptId) ≤ 1
  settled : 0 < events.countP (settles attemptId) →
    attemptId ∈ events.filterMap drawn ∧ ∀ task ∈ s.tasks, ¬ task.Holds attemptId

theorem Evolves.holds (h : Evolves allowed s.tasks t.tasks) (htask : task' ∈ t.tasks)
    (hholds : task'.Holds attemptId) : ∃ task ∈ s.tasks, task.id = task'.id ∧ task.Holds attemptId := by
  obtain ⟨task, htask, hcourse⟩ := h.exists_source htask
  obtain ⟨hstatus, -, hattempt⟩ := hcourse.dispatched hholds.1
  exact ⟨task, htask, hcourse.id.symm, hstatus, hattempt.symm.trans hholds.2⟩

theorem filterMap_drawn_append (events : List (Call × Answer)) (event : Call × Answer) :
    (events ++ [event]).filterMap drawn =
      events.filterMap drawn ++ (drawn event).toList := by
  rw [List.filterMap_append]
  cases hdrawn : drawn event with
  | none => simp only [List.filterMap_cons, hdrawn, List.filterMap_nil, Option.toList_none]
  | some drew => simp only [List.filterMap_cons, hdrawn, List.filterMap_nil, Option.toList_some]

/-- A task that holds an attempt id after a step held it before, or the step drew it. -/
theorem holds_cases (hok : PoolOk pool s) {event : Call × Answer} (hstep : Step pool s event t)
    (htask : task' ∈ t.tasks) (hholds : task'.Holds attemptId) :
    (∃ task ∈ s.tasks, task.id = task'.id ∧ task.Holds attemptId) ∨
      drawn event = some attemptId ∧ ∀ other ∈ t.tasks, other.id ≠ task'.id → other.Holds attemptId →
        ∃ task ∈ s.tasks, task.id = other.id ∧ task.Holds attemptId := by
  have heffect : Effect pool (fun _ => True) (drawn event) s t :=
    perform_effect hok (fun _ _ _ => trivial) hstep
  cases heffect with
  | moves hmoves => exact Or.inl (hmoves.holds htask hholds)
  | opens id required now hnew ht =>
    rw [ht] at htask
    rcases List.mem_append.mp htask with htask | htask
    · exact Or.inl ⟨task', htask, rfl, hholds⟩
    · rw [List.mem_singleton.mp htask] at hholds
      cases hholds.1
  | dispatches mid workerLabel env lease task hmid hmem hclaim hfree hroom hdrew ht =>
    rw [ht] at htask
    rcases (mem_dispatched (hok.evolves hmid).ids hmem).mp htask with rfl | ⟨htask, -⟩
    · refine Or.inr ⟨hdrew.trans hholds.2, fun other hother hid hotherHolds => ?_⟩
      rw [ht] at hother
      rcases (mem_dispatched (hok.evolves hmid).ids hmem).mp hother with rfl | ⟨hother, -⟩
      · exact absurd rfl hid
      · exact hmid.holds hother hotherHolds
    · exact Or.inl (hmid.holds htask hholds)

/-! ### Reports that take effect -/

theorem ended_of_update {workerLabel taskId : String} {attemptId : Option String}
    {p : OracleTask → Bool} {f : OracleTask → OracleTask} (hids : (s.tasks.map OracleTask.id).Nodup)
    (htasks : t.tasks = (s.update p f).tasks) (hid : ∀ task, (f task).id = task.id)
    (hf : ∀ task, (f task).status ≠ .dispatched) (hany : s.tasks.any p)
    (hp : ∀ task, p task → task.isLive workerLabel taskId attemptId) :
    (∃ task ∈ s.tasks, task.isLive workerLabel taskId attemptId) ∧
      ∀ row ∈ t.tasks, row.id = taskId → row.status ≠ .dispatched := by
  obtain ⟨live, hmem, hlive⟩ := List.any_eq_true.mp hany
  refine ⟨⟨live, hmem, hp live hlive⟩, fun row hrow hrowId => ?_⟩
  rw [htasks] at hrow
  obtain ⟨task, htask, rfl⟩ := List.mem_map.mp hrow
  have hmatch : p task := by
    have hsame : task.id = taskId := by
      rw [← hrowId]
      split
      · exact (hid task).symm
      · rfl
    rw [eq_of_id_eq hids htask hmem (hsame.trans (isLive_iff.mp (hp live hlive)).1.symm)]
    exact hlive
  rw [if_pos hmatch]
  exact hf task

theorem finishTask_ended (pool : OraclePool) (env : ResultEnv) (input : WorkerResultInput)
    (task : OracleTask) : (finishTask pool env input task).status ≠ .dispatched := by
  show (if isFailure input then OracleTaskStatus.failed else .completed) ≠ .dispatched
  split <;> exact OracleTaskStatus.noConfusion

variable {env : ResultEnv} {workerLabel taskId : String} {input : WorkerResultInput}
  {outcome : ResultOutcome}

theorem storeResult_ended (hids : (s.tasks.map OracleTask.id).Nodup) (houtcome : outcome ≠ .ignored)
    (h : storeResult pool env workerLabel taskId input s = .ok (outcome, t)) :
    (∃ task ∈ s.tasks, task.isLive workerLabel taskId input.dispatchAttemptId) ∧
      ∀ row ∈ t.tasks, row.id = taskId → row.status ≠ .dispatched := by
  obtain ⟨htasks, hany⟩ := storeResult_tasks h
  exact ended_of_update hids htasks (fun _ => rfl) (finishTask_ended pool env input) (hany houtcome)
    fun _ hlive => hlive

theorem retryResult_ended (hids : (s.tasks.map OracleTask.id).Nodup) (houtcome : outcome ≠ .ignored)
    (h : retryResult pool env workerLabel taskId input s = .ok (outcome, t)) :
    (∃ task ∈ s.tasks, task.isLive workerLabel taskId input.dispatchAttemptId) ∧
      ∀ row ∈ t.tasks, row.id = taskId → row.status ≠ .dispatched := by
  rcases retryResult_tasks h with ⟨htasks, hany⟩ | ⟨htasks, hany⟩
  · exact ended_of_update hids htasks (fun _ => rfl) (fun _ => OracleTaskStatus.noConfusion) hany
      fun _ hboth => ((Bool.and_eq_true _ _).mp hboth).1
  · exact ended_of_update hids htasks (fun _ => rfl) (fun _ => OracleTaskStatus.noConfusion)
      (hany houtcome) fun _ hlive => hlive

/-- A report that is not ignored ends the dispatch that it names. -/
theorem workerSubmitResult_ended (hids : (s.tasks.map OracleTask.id).Nodup)
    (houtcome : outcome ≠ .ignored)
    (h : workerSubmitResult pool env workerLabel taskId input s = .ok (outcome, t)) :
    (∃ task ∈ s.tasks, task.isLive workerLabel taskId input.dispatchAttemptId) ∧
      ∀ row ∈ t.tasks, row.id = taskId → row.status ≠ .dispatched := by
  obtain ⟨-, -, h⟩ := bind_eq_ok.mp h
  dsimp only at h
  split at h
  · split at h
    · cases h
      exact absurd rfl houtcome
    · rename_i live hfind
      split at h
      · obtain ⟨later, hlater, h⟩ := bind_eq_ok.mp h
        cases h
        have hlive := List.find?_some hfind
        have hany : s.tasks.any (·.isLive workerLabel taskId input.dispatchAttemptId) :=
          List.any_eq_true.mpr ⟨live, List.mem_of_find?_eq_some hfind, hlive⟩
        exact ended_of_update hids ((recordFailureDetail_tasks _ _ _).trans
          (upsertWorkerPresence_tasks hlater)) (fun _ => rfl) (fun _ => OracleTaskStatus.noConfusion)
          hany fun _ hlive => hlive
      · exact storeResult_ended hids houtcome h
  · split at h
    · exact retryResult_ended hids houtcome h
    · exact storeResult_ended hids houtcome h

theorem settles_ended (hok : PoolOk pool s) {event : Call × Answer} (hstep : Step pool s event t)
    (hsettles : settles attemptId event) : ∃ live ∈ s.tasks, live.Holds attemptId ∧
      ∀ row ∈ t.tasks, row.id = live.id → row.status ≠ .dispatched := by
  obtain ⟨call, answer⟩ := event
  simp only [settles] at hsettles
  split at hsettles
  · rename_i env workerLabel taskId input outcome heq
    cases heq
    obtain ⟨⟨outcome', later⟩, hlater, h⟩ := bind_eq_ok.mp hstep
    cases h
    simp only [Bool.and_eq_true, decide_eq_true_eq] at hsettles
    obtain ⟨⟨live, hmem, hlive⟩, hended⟩ := workerSubmitResult_ended hok.ids hsettles.2 hlater
    obtain ⟨hid, hstatus, -, hattempt⟩ := isLive_iff.mp hlive
    rw [hsettles.1, Option.all_some, decide_eq_true_eq] at hattempt
    exact ⟨live, hmem, ⟨hstatus, hattempt⟩, hid ▸ hended⟩
  · cases hsettles

/-! ### Histories -/

theorem AttemptOk.step (hok : PoolOk pool s) (h : AttemptOk attemptId events s)
    {event : Call × Answer} (hstep : Step pool s event t)
    (hfresh : ((events ++ [event]).filterMap drawn).Nodup) :
    AttemptOk attemptId (events ++ [event]) t := by
  have hdrawn := filterMap_drawn_append events event
  rw [hdrawn] at hfresh
  -- What is drawn now was not drawn before, so that no task was out under it.
  have hnew (hdrew : drawn event = some attemptId) : attemptId ∉ events.filterMap drawn := by
    rw [hdrew] at hfresh
    exact fun hold => (List.nodup_append.mp hfresh).2.2 _ hold _ (List.mem_singleton_self _) rfl
  have hsource {task : OracleTask} (htask : task ∈ t.tasks) (hholds : task.Holds attemptId) :
      (∃ before ∈ s.tasks, before.id = task.id ∧ before.Holds attemptId) ∨
        drawn event = some attemptId := (holds_cases hok hstep htask hholds).imp_right And.left
  have hcount : (events ++ [event]).countP (settles attemptId) =
      events.countP (settles attemptId) + if settles attemptId event then 1 else 0 := by
    rw [List.countP_append, List.countP_singleton]
  refine ⟨fun task htask hholds => ?_, fun task htask task' htask' hholds hholds' => ?_, ?_, fun hsome => ?_⟩
  · rw [hdrawn, List.mem_append]
    rcases hsource htask hholds with ⟨before, hbefore, -, hheld⟩ | hdrew
    · exact Or.inl (h.held before hbefore hheld)
    · rw [hdrew]
      exact Or.inr (List.mem_singleton_self _)
  · refine eq_of_id_eq (hok.step hstep).ids htask htask' ?_
    rcases holds_cases hok hstep htask hholds with ⟨before, hbefore, hid, hheld⟩ | ⟨hdrew, hothers⟩
    · rcases hsource htask' hholds' with ⟨before', hbefore', hid', hheld'⟩ | hdrew
      · rw [← hid, ← hid', h.one before hbefore before' hbefore' hheld hheld']
      · exact absurd (h.held before hbefore hheld) (hnew hdrew)
    · by_contra hdiffer
      obtain ⟨before, hbefore, -, hheld⟩ := hothers task' htask' (Ne.symm hdiffer) hholds'
      exact hnew hdrew (h.held before hbefore hheld)
  · rw [hcount]
    split
    · rename_i hsettles
      obtain ⟨live, hlive, hheld, -⟩ := settles_ended hok hstep hsettles
      have hnone : ¬ 0 < events.countP (settles attemptId) :=
        fun hbefore => (h.settled hbefore).2 live hlive hheld
      omega
    · exact h.once
  · by_cases hsettles : settles attemptId event
    · obtain ⟨live, hlive, hheld, hended⟩ := settles_ended hok hstep hsettles
      have hknown := h.held live hlive hheld
      refine ⟨hdrawn ▸ List.mem_append_left _ hknown, fun task htask hholds => ?_⟩
      rcases hsource htask hholds with ⟨before, hbefore, hid, hheld'⟩ | hdrew
      · rw [h.one before hbefore live hlive hheld' hheld] at hid
        exact hended task htask hid.symm hholds.1
      · exact hnew hdrew hknown
    · rw [hcount, if_neg hsettles, Nat.add_zero] at hsome
      obtain ⟨hknown, hnone⟩ := h.settled hsome
      refine ⟨hdrawn ▸ List.mem_append_left _ hknown, fun task htask hholds => ?_⟩
      rcases hsource htask hholds with ⟨before, hbefore, -, hheld⟩ | hdrew
      · exact hnone before hbefore hheld
      · exact hnew hdrew hknown

/-- Where claims draw new attempt ids, a report that names one takes effect at most once in a history,
however often it is sent and whatever has become of its dispatch meanwhile; and the id was drawn for a
dispatch. -/
theorem attempt_settles_once (workers : List OracleWorker) (attemptId : String)
    (h : Runs (Step pool) (opened workers) events s) (hfresh : (events.filterMap drawn).Nodup) :
    events.countP (settles attemptId) ≤ 1 ∧
      (0 < events.countP (settles attemptId) → attemptId ∈ events.filterMap drawn ∧
        ∀ task ∈ s.tasks, task.status = .dispatched → task.dispatchAttemptId ≠ some attemptId) := by
  have hall : PoolOk pool s ∧ AttemptOk attemptId events s := by
    induction h with
    | stay =>
      refine ⟨opened_ok pool workers, ?_, ?_, Nat.zero_le 1, fun hsome => absurd hsome (Nat.lt_irrefl 0)⟩
      · exact fun _ htask => absurd htask List.not_mem_nil
      · exact fun _ htask => absurd htask List.not_mem_nil
    | @next events s₁ s₂ event hrun hstep ih =>
      have hbefore : (events.filterMap drawn).Nodup := by
        rw [filterMap_drawn_append] at hfresh
        exact (List.nodup_append.mp hfresh).1
      obtain ⟨hok, hattempt⟩ := ih hbefore
      exact ⟨hok.step hstep, hattempt.step hok hstep hfresh⟩
  refine ⟨hall.2.once, fun hsome => ?_⟩
  obtain ⟨hknown, hnone⟩ := hall.2.settled hsome
  exact ⟨hknown, fun task htask hstatus hattempt => hnone task htask ⟨hstatus, hattempt⟩⟩

theorem answered_once : ([(.submit (.ok ()) "q" none 0, .submitted),
    (.claim "a" none sampleClaim, .claimed (.dispatched "q") 0),
    (sampleReport "42", .reported .completed),
    (sampleReport "42", .reported .ignored)].countP (settles "1")) ≤ 1 := by
  have hrun := Runs.next (.next (.next (.next .stay submitted_step) claimed_step) answered_step)
    repeated_step
  exact (attempt_settles_once sampleWorkers "1" hrun (List.nodup_singleton "1")).1

end NyxId.OracleTasks
