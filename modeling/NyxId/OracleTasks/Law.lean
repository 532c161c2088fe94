import NyxId.OracleTasks.Model
import NyxId.Outcomes

/-!
Histories of a pool: what becomes of each task, who holds which dispatch, and whether a task that
excludes a worker is left for another one.
-/

namespace NyxId.OracleTasks

open Interleave

variable {pool : OraclePool} {s t u : State} {task task' : OracleTask} {allowed : OracleTask → Prop}

/-! ### Moves of one task -/

def OracleTaskStatus.isTerminal : OracleTaskStatus → Bool
  | completed | failed | cancelled => true
  | queued | dispatched => false

/-- The data that an outcome leaves as it was. -/
structure SameCourse (task task' : OracleTask) : Prop where
  id : task'.id = task.id
  requiredWorkerLabel : task'.requiredWorkerLabel = task.requiredWorkerLabel
  excludedWorkerIds : task'.excludedWorkerIds = task.excludedWorkerIds
  rerouteCount : task'.rerouteCount = task.rerouteCount
  retryCount : task'.retryCount = task.retryCount
  maxRetries : task'.maxRetries = task.maxRetries
  attemptCount : task'.attemptCount = task.attemptCount

/-- What a call can do to a task, dispatching apart. Tasks that are put back because of a lease or a
browser are the allowed ones. -/
inductive Move (allowed : OracleTask → Prop) (task : OracleTask) : OracleTask → Prop
  | retry (phase : Text) (detail : Option Text) (now : ℤ) (hstatus : task.status = .dispatched)
      (hretry : task.retryCount < task.maxRetries) (hallowed : allowed task) :
      Move allowed task { task.release with
        status := .queued
        phase := some phase
        failureDetail := detail
        updatedAt := now
        retryCount := task.retryCount + 1 }
  | close {task' : OracleTask} (hstatus : task.status.isTerminal = false)
      (hterminal : task'.status.isTerminal) (hsame : SameCourse task task') :
      Move allowed task task'
  | unpin (phase : Text) (now : ℤ) (hstatus : task.status = .queued) :
      Move allowed task
        { task with phase := some phase, requiredWorkerLabel := none, updatedAt := now }
  | extend (phase : Option Text) (lease now : ℤ) (hstatus : task.status = .dispatched) :
      Move allowed task { task with leaseExpiresAt := some lease, updatedAt := now, phase }
  | reroute (workerLabel : String) (code : Text) (input : WorkerResultInput) (now : ℤ)
      (hstatus : task.status = .dispatched) (hworker : task.assignedWorkerId = some workerLabel)
      (hunpinned : task.requiredWorkerLabel = none)
      (hcount : task.rerouteCount < maxCapacityReroutes) (hcode : code ∈ workerCapacityFailures) :
      Move allowed task (rerouteTask now (some code) input (exclude workerLabel task) task)

/-- What the calls keep true of every single task. -/
structure TaskOk (task : OracleTask) : Prop where
  retries : task.retryCount ≤ task.maxRetries
  reroutes : task.rerouteCount ≤ maxCapacityReroutes
  excluded_le : task.excludedWorkerIds.length ≤ task.rerouteCount
  excluded_nodup : task.excludedWorkerIds.Nodup
  held : task.status = .dispatched → ∃ workerLabel, task.assignedWorkerId = some workerLabel ∧
    workerLabel ∉ task.excludedWorkerIds ∧ task.requiredWorkerLabel.all (· = workerLabel)
  underway : task.status = .dispatched →
    task.attemptCount = task.retryCount + task.rerouteCount + 1
  waiting : task.status = .queued → task.assignedWorkerId = none ∧
    task.attemptCount = task.retryCount + task.rerouteCount
  attempts : task.attemptCount ≤ task.retryCount + task.rerouteCount + 1

/-- A task that waits for another account carries the mark that the sweep looks for. -/
def Marked (task : OracleTask) : Prop :=
  task.status = .queued → task.excludedWorkerIds ≠ [] → isCapacityTask task

theorem Move.id (h : Move allowed task task') : task'.id = task.id := by
  cases h with
  | close _ _ hsame => exact hsame.id
  | _ => rfl

/-- No move dispatches a task. -/
theorem Move.dispatched (h : Move allowed task task') (hstatus : task'.status = .dispatched) :
    task.status = .dispatched ∧ task'.assignedWorkerId = task.assignedWorkerId ∧
      task'.dispatchAttemptId = task.dispatchAttemptId := by
  cases h with
  | retry => cases hstatus
  | close _ hterminal =>
    rw [hstatus] at hterminal
    cases hterminal
  | unpin phase now hqueued =>
    have hstatus : task.status = .dispatched := hstatus
    rw [hqueued] at hstatus
    cases hstatus
  | extend phase lease now hheld => exact ⟨hheld, rfl, rfl⟩
  | reroute => cases hstatus

theorem Move.not_terminal (h : Move allowed task task') : task.status.isTerminal = false := by
  cases h with
  | retry phase detail now hstatus => rw [hstatus]; rfl
  | close hstatus => exact hstatus
  | unpin phase now hstatus => rw [hstatus]; rfl
  | extend phase lease now hstatus => rw [hstatus]; rfl
  | reroute workerLabel code input now hstatus => rw [hstatus]; rfl

theorem TaskOk.move (h : TaskOk task) (hmove : Move allowed task task') : TaskOk task' := by
  cases hmove with
  | retry phase detail now hstatus hretry =>
    have hattempts := h.underway hstatus
    refine { h with
      retries := hretry
      held := fun hheld => by cases hheld
      underway := fun hheld => by cases hheld
      waiting := fun _ => ⟨rfl, ?_⟩
      attempts := ?_ }
    · show task.attemptCount = task.retryCount + 1 + task.rerouteCount
      omega
    · show task.attemptCount ≤ task.retryCount + 1 + task.rerouteCount + 1
      omega
  | close hstatus hterminal hsame =>
    have hnot {status : OracleTaskStatus} (hopen : status.isTerminal = false) :
        task'.status ≠ status := by
      rintro rfl
      rw [hterminal] at hopen
      cases hopen
    refine ⟨?_, ?_, ?_, ?_, fun hheld => absurd hheld (hnot rfl), fun hheld => absurd hheld (hnot rfl),
      fun hqueued => absurd hqueued (hnot rfl), ?_⟩
    · rw [hsame.retryCount, hsame.maxRetries]
      exact h.retries
    · rw [hsame.rerouteCount]
      exact h.reroutes
    · rw [hsame.excludedWorkerIds, hsame.rerouteCount]
      exact h.excluded_le
    · rw [hsame.excludedWorkerIds]
      exact h.excluded_nodup
    · rw [hsame.attemptCount, hsame.retryCount, hsame.rerouteCount]
      exact h.attempts
  | unpin phase now hstatus =>
    have hnot : ¬ task.status = .dispatched := by
      rw [hstatus]
      exact OracleTaskStatus.noConfusion
    exact { h with held := fun hheld => absurd hheld hnot }
  | extend phase lease now hstatus => exact { h with }
  | reroute workerLabel code input now hstatus hworker hunpinned hcount hcode =>
    obtain ⟨holder, hholder, hnew, -⟩ := h.held hstatus
    rw [hworker, Option.some.injEq] at hholder
    subst hholder
    have hexclude : exclude workerLabel task = task.excludedWorkerIds ++ [workerLabel] := if_neg hnew
    have hle := h.excluded_le
    have hattempts := h.underway hstatus
    refine ⟨h.retries, hcount, ?_, ?_, OracleTaskStatus.noConfusion, OracleTaskStatus.noConfusion,
      fun _ => ⟨rfl, hattempts⟩, ?_⟩
    · show (exclude workerLabel task).length ≤ task.rerouteCount + 1
      rw [hexclude, List.length_append, List.length_singleton]
      omega
    · show (exclude workerLabel task).Nodup
      rw [hexclude]
      refine List.nodup_append.mpr ⟨h.excluded_nodup, List.nodup_singleton _, ?_⟩
      intro label hold label' hlabel' heq
      rw [heq, List.mem_singleton.mp hlabel'] at hold
      exact hnew hold
    · show task.attemptCount ≤ task.retryCount + (task.rerouteCount + 1) + 1
      omega

/-- The mark survives unless a task that excludes a worker is put back for its lease or its browser. -/
theorem Marked.move (h : Marked task) (hallowed : allowed task → task.excludedWorkerIds = [])
    (hmove : Move allowed task task') : Marked task' := by
  intro hqueued hexcluded
  cases hmove with
  | retry phase detail now hstatus hretry hmay => exact absurd (hallowed hmay) hexcluded
  | close hstatus hterminal hsame =>
    rw [hqueued] at hterminal
    cases hterminal
  | unpin phase now hstatus => exact h hstatus hexcluded
  | extend phase lease now hstatus =>
    have hqueued : task.status = .queued := hqueued
    rw [hstatus] at hqueued
    cases hqueued
  | reroute workerLabel code input now hstatus hworker hunpinned hcount hcode =>
    have hany : (some code).any (· ∈ workerCapacityFailures) = true := decide_eq_true hcode
    show (decide (OracleTaskStatus.queued = .queued) && decide (0 < task.rerouteCount + 1) &&
      (some code).any (· ∈ workerCapacityFailures)) = true
    rw [hany, decide_eq_true (Nat.succ_pos task.rerouteCount)]
    rfl

/-! ### Moves of the tasks of a pool -/

/-- Any number of moves. -/
def Course (allowed : OracleTask → Prop) : OracleTask → OracleTask → Prop :=
  Relation.ReflTransGen (Move allowed)

theorem Course.preserves {P : OracleTask → Prop} (h : Course allowed task task')
    (hmove : ∀ task task', P task → Move allowed task task' → P task') (hstart : P task) : P task' := by
  induction h with
  | refl => exact hstart
  | tail _ hlast ih => exact hmove _ _ ih hlast

theorem Course.id (h : Course allowed task task') : task'.id = task.id :=
  h.preserves (P := fun later => later.id = task.id) (fun _ _ hid hmove => hmove.id.trans hid) rfl

theorem Course.dispatched (h : Course allowed task task') (hstatus : task'.status = .dispatched) :
    task.status = .dispatched ∧ task'.assignedWorkerId = task.assignedWorkerId ∧
      task'.dispatchAttemptId = task.dispatchAttemptId := by
  refine h.preserves (P := fun later => later.status = .dispatched →
    task.status = .dispatched ∧ later.assignedWorkerId = task.assignedWorkerId ∧
      later.dispatchAttemptId = task.dispatchAttemptId)
    (fun _ _ ih hmove hheld => ?_) (fun hheld => ⟨hheld, rfl, rfl⟩) hstatus
  obtain ⟨hbefore, hworker, hattempt⟩ := hmove.dispatched hheld
  obtain ⟨hstart, hworker', hattempt'⟩ := ih hbefore
  exact ⟨hstart, hworker.trans hworker', hattempt.trans hattempt'⟩

theorem Course.terminal (h : Course allowed task task') (hterminal : task.status.isTerminal) :
    task' = task := by
  refine h.preserves (P := fun later => later = task) (fun _ _ heq hmove => ?_) rfl
  rw [heq] at hmove
  rw [hmove.not_terminal] at hterminal
  cases hterminal

theorem forall₂_trans {R : OracleTask → OracleTask → Prop}
    (hR : ∀ x y z, R x y → R y z → R x z) {xs ys zs : List OracleTask} (h : List.Forall₂ R xs ys)
    (h' : List.Forall₂ R ys zs) : List.Forall₂ R xs zs := by
  induction h generalizing zs with
  | nil => exact h'
  | cons hxy _ ih =>
    obtain ⟨z, zs, hyz, hrest, rfl⟩ := List.forall₂_cons_left_iff.mp h'
    exact .cons (hR _ _ _ hxy hyz) (ih hrest)

/-- Every task comes from the one in its place by moves. -/
def Evolves (allowed : OracleTask → Prop) : List OracleTask → List OracleTask → Prop :=
  List.Forall₂ (Course allowed)

namespace Evolves

variable {xs ys zs : List OracleTask}

theorem refl (xs : List OracleTask) : Evolves allowed xs xs := List.forall₂_same.mpr fun _ _ => .refl

theorem trans (h : Evolves allowed xs ys) (h' : Evolves allowed ys zs) : Evolves allowed xs zs :=
  forall₂_trans (fun _ _ _ => Relation.ReflTransGen.trans) h h'

theorem exists_source (h : Evolves allowed xs ys) (hy : task' ∈ ys) :
    ∃ task ∈ xs, Course allowed task task' := Outcomes.exists_of_forall₂ h hy

theorem ids (h : Evolves allowed xs ys) : ys.map OracleTask.id = xs.map OracleTask.id := by
  induction h with
  | nil => rfl
  | cons hxy _ ih => rw [List.map_cons, List.map_cons, ih, hxy.id]

theorem countP_le (h : Evolves allowed xs ys) :
    ys.countP (fun task => task.status = .dispatched) ≤
      xs.countP (fun task => task.status = .dispatched) := by
  induction h with
  | nil => exact Nat.le_refl _
  | @cons x y xs ys hxy _ ih =>
    have hstatus : y.status = .dispatched → x.status = .dispatched := fun hy => (hxy.dispatched hy).1
    simp only [List.countP_cons, decide_eq_true_eq]
    split <;> split <;> grind

/-- Terminal tasks stay as they are. -/
theorem mem_of_terminal (h : Evolves allowed xs ys) (hmem : task ∈ xs)
    (hterminal : task.status.isTerminal) : task ∈ ys := by
  induction h with
  | nil => cases hmem
  | @cons x y xs ys hxy _ ih =>
    rcases List.mem_cons.mp hmem with rfl | hmem
    · rw [hxy.terminal hterminal]
      exact List.mem_cons_self
    · exact List.mem_cons_of_mem y (ih hmem)

end Evolves

theorem evolves_update {p : OracleTask → Bool} {f : OracleTask → OracleTask}
    (h : ∀ task ∈ s.tasks, p task → Move allowed task (f task)) :
    Evolves allowed s.tasks (s.update p f).tasks := by
  show Evolves allowed s.tasks (s.tasks.map fun task => if p task then f task else task)
  refine List.forall₂_map_right_iff.mpr (List.forall₂_same.mpr fun task htask => ?_)
  split
  · rename_i hp
    exact .single (h task htask hp)
  · exact .refl

/-- The task of an id, where ids are unique. -/
theorem eq_of_id_eq (hids : (s.tasks.map OracleTask.id).Nodup) (htask : task ∈ s.tasks)
    (htask' : task' ∈ s.tasks) (hid : task.id = task'.id) : task = task' :=
  List.inj_on_of_nodup_map hids htask htask' hid

/-- What every history keeps true of the tasks of a pool. -/
structure PoolOk (pool : OraclePool) (s : State) : Prop where
  ids : (s.tasks.map OracleTask.id).Nodup
  each : ∀ task ∈ s.tasks, TaskOk task
  once : ∀ task ∈ s.tasks, ∀ task' ∈ s.tasks, task.status = .dispatched → task'.status = .dispatched →
    task.assignedWorkerId = task'.assignedWorkerId → task = task'
  limit : dispatchedCount s ≤ pool.maxWorkers

theorem PoolOk.evolves (h : PoolOk pool s) (hmoves : Evolves allowed s.tasks t.tasks) :
    PoolOk pool t where
  ids := by
    rw [hmoves.ids]
    exact h.ids
  each task' htask' := by
    obtain ⟨task, htask, hcourse⟩ := hmoves.exists_source htask'
    exact hcourse.preserves (fun _ _ hok hmove => hok.move hmove) (h.each task htask)
  once a ha b hb hheldA hheldB hworker := by
    obtain ⟨a', ha', hcourseA⟩ := hmoves.exists_source ha
    obtain ⟨b', hb', hcourseB⟩ := hmoves.exists_source hb
    obtain ⟨hbeforeA, hsameA, -⟩ := hcourseA.dispatched hheldA
    obtain ⟨hbeforeB, hsameB, -⟩ := hcourseB.dispatched hheldB
    have hsame : a' = b' :=
      h.once a' ha' b' hb' hbeforeA hbeforeB (hsameA.symm.trans (hworker.trans hsameB))
    have hids : (t.tasks.map OracleTask.id).Nodup := by
      rw [hmoves.ids]
      exact h.ids
    refine eq_of_id_eq hids ha hb ?_
    rw [hcourseA.id, hcourseB.id, hsame]
  limit := hmoves.countP_le.trans h.limit

end NyxId.OracleTasks
