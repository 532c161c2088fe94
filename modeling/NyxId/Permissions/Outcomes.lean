import NyxId.Permissions.Model

/-!
What the caller of the engine is told of a write. Wherever the timer fires, the answer is by
what the engine saw: an accepted response, the mark of the transport, or neither.
-/

namespace NyxId.Permissions

open Interleave Encoding

section

variable (engine : Engine) (permit : Bool) (patience : ℕ) (request : Request)

/-- The primary send was marked before the timer fired. -/
def Engine.Dispatched : Prop :=
  Flag.dispatched ∈ ((engine.pipeline permit request).cut patience).1

/-- The answer of the primary send that came before the timer fired. -/
def Engine.received : Option (Plan × Response) :=
  match (engine.sent permit request).cut patience with
  | (_, some (.ok answer, _)) => some answer
  | _ => none

/-- A response of a write that was accepted came in time. -/
def Engine.Accepted : Prop :=
  ∃ plan response, engine.received permit patience request = some (plan, response) ∧
    accepted response = true

/-- The adapter or the transport itself returns an error. -/
def Engine.Raises (e : Error) : Prop :=
  engine.adapter.plan engine.policy request = .error e ∨
    ∃ plan, engine.adapter.plan engine.policy request = .ok plan ∧
      ((engine.adapter.verify engine.policy plan engine.transport).result = some (.error e) ∨
        (engine.transport.sendVerified plan).result = some (.error e) ∨
        ∃ response, (engine.transport.sendVerified plan).result = some (.ok response) ∧
          engine.adapter.sanitizeResponse plan response = .error e)

end

/-- The errors that are about the outcome of a write. -/
def Error.Ambiguous (e : Error) : Prop := e = .outcomeUncertain ∨ e = .writeAcceptedResponseWithheld

variable {engine : Engine} {permit : Bool} {patience : ℕ} {request : Request}

theorem parseJson_error {read : JsonReader} {bytes : List UInt8} {e : Error}
    (h : parseJson read bytes = .error e) : ∃ message, e = .denied message := by
  unfold parseJson at h
  split at h
  · split at h
    · cases h
    · exact ⟨_, (Except.error.inj h).symm⟩
  · exact ⟨_, (Except.error.inj h).symm⟩

theorem enforceConstraint_error {body : Json} {constraint : ParameterConstraint} {e : Error}
    (h : enforceConstraint request body constraint = .error e) : ∃ message, e = .denied message := by
  unfold enforceConstraint at h
  split at h <;> split at h
  · exact ⟨_, (Except.error.inj h).symm⟩
  · cases h
  · cases h
  · exact ⟨_, (Except.error.inj h).symm⟩

theorem enforceEach_error {body : Json} {constraints : List ParameterConstraint} {e : Error}
    (h : enforceEach request body constraints = .error e) : ∃ message, e = .denied message := by
  induction constraints with
  | nil => cases h
  | cons constraint rest ih =>
    unfold enforceEach at h
    split at h
    · next other hother =>
      obtain rfl := Except.error.inj h
      exact enforceConstraint_error hother
    · exact ih h

theorem constrain_error {plan : Plan} {e : Error} (h : engine.constrain plan = .error e) :
    ∃ message, e = .denied message := by
  unfold Engine.constrain at h
  split at h
  · unfold enforceConstraints at h
    split at h
    · next other hbody =>
      obtain rfl := Except.error.inj h
      unfold bodyValue at hbody
      split at hbody
      · cases hbody
      · exact parseJson_error hbody
    · exact enforceEach_error h
  · cases h

/-- A check ends with a denial, or with what the adapter returned. -/
theorem check_error {e : Error} (h : engine.check request = .error e) :
    (∃ message, e = .denied message) ∨ engine.adapter.plan engine.policy request = .error e := by
  unfold Engine.check at h
  split at h
  · exact Or.inl ⟨_, (Except.error.inj h).symm⟩
  split at h
  · exact Or.inl ⟨_, (Except.error.inj h).symm⟩
  split at h
  · next other hplan =>
    obtain rfl := Except.error.inj h
    exact Or.inr hplan
  · split at h
    · exact Or.inl ⟨_, (Except.error.inj h).symm⟩
    split at h
    · next other hconstrain =>
      obtain rfl := Except.error.inj h
      exact Or.inl (constrain_error hconstrain)
    · cases h

theorem plan_of_check {plan : Plan} (h : engine.check request = .ok plan) :
    engine.adapter.plan engine.policy request = .ok plan := by
  unfold Engine.check at h
  split at h
  · cases h
  split at h
  · cases h
  split at h
  · cases h
  · next other hplan =>
    split at h
    · cases h
    split at h
    · cases h
    · obtain rfl := Except.ok.inj h
      exact hplan

/-- Hooks fail with their own errors only. -/
theorem runHooks_error {stage : HookStage} {policy : Policy} {plan : Plan}
    {response : Option Response} {hooks : List BoundHook} {e : Error}
    (h : (runHooks stage policy plan response hooks).result = some (.error e)) :
    ∃ hook, e = .hookDenied hook stage ∨ e = .hookUnavailable hook stage := by
  induction hooks with
  | nil => cases h
  | cons hook rest ih =>
    unfold runHooks at h
    split at h
    · rw [Task.result_bind] at h
      obtain ⟨answer, -, h⟩ := Option.bind_eq_some_iff.mp h
      split at h
      · exact ih h
      · exact ⟨_, Or.inl (Except.error.inj (Option.some.inj h)).symm⟩
      · exact ⟨_, Or.inr (Except.error.inj (Option.some.inj h)).symm⟩
    · exact ih h

/-- Hooks pass when every one that applies allows. -/
theorem runHooks_ok {stage : HookStage} {policy : Policy} {plan : Plan}
    {response : Option Response} {hooks : List BoundHook}
    (h : (runHooks stage policy plan response hooks).result = some (.ok ())) :
    ∀ hook ∈ hooks, hook.applies stage plan = true →
      ((hook.check policy plan response).within hook.patience).result =
        some (some (.decision .allow)) := by
  induction hooks with
  | nil => exact fun hook hhook => nomatch hhook
  | cons head rest ih =>
    intro hook hhook happlies
    unfold runHooks at h
    split at h
    · rw [Task.result_bind] at h
      obtain ⟨answer, hanswer, h⟩ := Option.bind_eq_some_iff.mp h
      split at h
      · rcases List.mem_cons.mp hhook with rfl | hhook
        · exact hanswer
        · exact ih h hook hhook happlies
      · cases h
      · cases h
    · next hskip =>
      rcases List.mem_cons.mp hhook with rfl | hhook
      · exact absurd happlies hskip
      · exact ih h hook hhook happlies

theorem authorize_error {e : Error} (he : e.Ambiguous)
    (h : (engine.authorize request).result = some (.error e)) : engine.Raises request e := by
  unfold Engine.authorize at h
  split at h
  · next other hcheck =>
    obtain rfl := Except.error.inj (Option.some.inj h)
    rcases check_error hcheck with ⟨message, rfl⟩ | hplan
    · rcases he with he | he <;> cases he
    · exact Or.inl hplan
  · next plan hcheck =>
    rw [Task.result_bind] at h
    obtain ⟨before, hbefore, h⟩ := Option.bind_eq_some_iff.mp h
    split at h
    · obtain rfl := Except.error.inj (Option.some.inj h)
      obtain ⟨hook, rfl | rfl⟩ := runHooks_error hbefore <;> rcases he with he | he <;> cases he
    · rw [Task.result_bind] at h
      obtain ⟨verified, hverified, h⟩ := Option.bind_eq_some_iff.mp h
      split at h
      · obtain rfl := Except.error.inj (Option.some.inj h)
        exact Or.inr ⟨plan, plan_of_check hcheck, Or.inl hverified⟩
      · cases h

theorem plan_of_authorize {plan : Plan} (h : (engine.authorize request).result = some (.ok plan)) :
    engine.adapter.plan engine.policy request = .ok plan := by
  unfold Engine.authorize at h
  split at h
  · cases h
  · next other hcheck =>
    rw [Task.result_bind] at h
    obtain ⟨before, -, h⟩ := Option.bind_eq_some_iff.mp h
    split at h
    · cases h
    · rw [Task.result_bind] at h
      obtain ⟨verified, -, h⟩ := Option.bind_eq_some_iff.mp h
      split at h
      · cases h
      · obtain rfl := Except.ok.inj (Option.some.inj h)
        exact plan_of_check hcheck

theorem sent_error {e : Error} (he : e.Ambiguous)
    (h : (engine.sent permit request).result = some (.error e)) : engine.Raises request e := by
  unfold Engine.sent at h
  split at h
  · obtain rfl := Except.error.inj (Option.some.inj h)
    rcases he with he | he <;> cases he
  · rw [Task.result_bind] at h
    obtain ⟨authorized, hauthorized, h⟩ := Option.bind_eq_some_iff.mp h
    split at h
    · obtain rfl := Except.error.inj (Option.some.inj h)
      exact authorize_error he hauthorized
    · next plan =>
      rw [Task.result_bind] at h
      obtain ⟨answer, hanswer, h⟩ := Option.bind_eq_some_iff.mp h
      split at h
      · obtain rfl := Except.error.inj (Option.some.inj h)
        exact Or.inr ⟨plan, plan_of_authorize hauthorized, Or.inr (Or.inl hanswer)⟩
      · cases h

theorem answer_of_sent {plan : Plan} {response : Response}
    (h : (engine.sent permit request).result = some (.ok (plan, response))) :
    engine.adapter.plan engine.policy request = .ok plan ∧
      (engine.transport.sendVerified plan).result = some (.ok response) := by
  unfold Engine.sent at h
  split at h
  · cases h
  · rw [Task.result_bind] at h
    obtain ⟨authorized, hauthorized, h⟩ := Option.bind_eq_some_iff.mp h
    split at h
    · cases h
    · next other =>
      rw [Task.result_bind] at h
      obtain ⟨answer, hanswer, h⟩ := Option.bind_eq_some_iff.mp h
      split at h
      · cases h
      · obtain ⟨rfl, rfl⟩ := Prod.mk.inj (Except.ok.inj (Option.some.inj h))
        exact ⟨plan_of_authorize hauthorized, hanswer⟩

theorem deliver_error {plan : Plan} {response : Response} {e : Error} (he : e.Ambiguous)
    (h : (engine.deliver plan response).result = some (.error e)) :
    engine.adapter.sanitizeResponse plan response = .error e := by
  unfold Engine.deliver at h
  split at h
  · next other hsanitize =>
    obtain rfl := Except.error.inj (Option.some.inj h)
    exact hsanitize
  · rw [Task.result_bind] at h
    obtain ⟨after, hafter, h⟩ := Option.bind_eq_some_iff.mp h
    split at h
    · obtain rfl := Except.error.inj (Option.some.inj h)
      obtain ⟨hook, rfl | rfl⟩ := runHooks_error hafter <;> rcases he with he | he <;> cases he
    · cases h

theorem deliver_ok {plan : Plan} {response delivered : Response}
    (h : (engine.deliver plan response).result = some (.ok delivered)) :
    engine.adapter.sanitizeResponse plan response = .ok delivered ∧
      ∀ hook ∈ engine.hooks, hook.applies .afterResponse plan = true →
        ((hook.check engine.policy plan (some delivered)).within hook.patience).result =
          some (some (.decision .allow)) := by
  unfold Engine.deliver at h
  split at h
  · cases h
  · next sanitized hsanitize =>
    rw [Task.result_bind] at h
    obtain ⟨after, hafter, h⟩ := Option.bind_eq_some_iff.mp h
    split at h
    · cases h
    · obtain rfl := Except.ok.inj (Option.some.inj h)
      exact ⟨hsanitize, runHooks_ok hafter⟩

section

variable (engine permit patience request)

theorem notMem_marks (marks : List Unit) :
    Flag.writeAccepted ∉ marks.map fun _ => Flag.dispatched := by
  intro h
  obtain ⟨mark, -, hmark⟩ := List.mem_map.mp h
  cases hmark

/-- How far the pipeline came before the timer fired. -/
theorem pipeline_cases :
    (engine.received permit patience request = none ∧
        Flag.writeAccepted ∉ ((engine.pipeline permit request).cut patience).1 ∧
        (((engine.pipeline permit request).cut patience).2 = none ∨
          ∃ e left, ((engine.pipeline permit request).cut patience).2 = some (.error e, left) ∧
            (engine.sent permit request).result = some (.error e))) ∨
      ∃ plan response, engine.received permit patience request = some (plan, response) ∧
        (engine.sent permit request).result = some (.ok (plan, response)) ∧
        ((accepted response = false ∧
            Flag.writeAccepted ∉ ((engine.pipeline permit request).cut patience).1 ∧
            ∃ e left, ((engine.pipeline permit request).cut patience).2 = some (.error e, left) ∧
              (e = .responseTooLarge ∨ e = .upstream)) ∨
          (accepted response = true ∧
            (Flag.writeAccepted ∈ ((engine.pipeline permit request).cut patience).1 ↔
              mutating request = true) ∧
            (((engine.pipeline permit request).cut patience).2 = none ∨
              ∃ result left, ((engine.pipeline permit request).cut patience).2 =
                some (result, left) ∧ (engine.deliver plan response).result = some result))) := by
  unfold Engine.pipeline Engine.received
  rw [Task.cut_bind, Task.cut_lift]
  rcases hsent : (engine.sent permit request).cut patience with
    ⟨marks, _ | ⟨e | ⟨plan, response⟩, left⟩⟩
  · exact Or.inl ⟨rfl, notMem_marks marks, Or.inl rfl⟩
  · refine Or.inl ⟨rfl, ?_, Or.inr ⟨e, left, rfl, Task.result_of_cut hsent⟩⟩
    simpa only [Task.cut, List.append_nil] using notMem_marks marks
  · refine Or.inr ⟨plan, response, rfl, Task.result_of_cut hsent, ?_⟩
    dsimp only
    by_cases hsize : maxResponseBytes < response.body.length
    · refine Or.inl ⟨?_, ?_, .responseTooLarge, left, ?_, Or.inl rfl⟩
      · simp only [accepted, Bool.and_eq_false_iff, decide_eq_false_iff_not]
        exact Or.inl (Or.inl (by omega))
      · simpa only [if_pos hsize, Task.cut, List.append_nil] using notMem_marks marks
      · rw [if_pos hsize, Task.cut]
    by_cases hstatus : 200 ≤ response.status ∧ response.status < 300
    · have hflag : (!(decide (200 ≤ response.status) && decide (response.status < 300))) = false := by
        simp [hstatus]
      refine Or.inr ⟨by simp [accepted, hstatus]; omega, ?_⟩
      simp only [if_neg hsize, hflag, Bool.false_eq_true, if_false]
      rcases hdeliver : (engine.deliver plan response).cut left with ⟨late, _ | ⟨result, left'⟩⟩
      · cases hmutating : mutating request with
        | true =>
          simp only [if_true, Task.cut, Task.cut_lift, hdeliver]
          exact ⟨by simp, Or.inl trivial⟩
        | false =>
          simp only [Bool.false_eq_true, if_false, Task.cut_lift, hdeliver]
          refine ⟨iff_of_false ?_ (by simp), Or.inl trivial⟩
          rw [← List.map_append]
          exact notMem_marks _
      · have hresult := Task.result_of_cut hdeliver
        cases hmutating : mutating request with
        | true =>
          simp only [if_true, Task.cut, Task.cut_lift, hdeliver]
          exact ⟨by simp, Or.inr ⟨result, left', rfl, hresult⟩⟩
        | false =>
          simp only [Bool.false_eq_true, if_false, Task.cut_lift, hdeliver]
          refine ⟨iff_of_false ?_ (by simp), Or.inr ⟨result, left', rfl, hresult⟩⟩
          rw [← List.map_append]
          exact notMem_marks _
    · have hflag : (!(decide (200 ≤ response.status) && decide (response.status < 300))) = true := by
        simp only [Bool.not_eq_true', Bool.and_eq_false_iff, decide_eq_false_iff_not]
        omega
      refine Or.inl ⟨?_, ?_, .upstream, left, ?_, Or.inr rfl⟩
      · simp only [accepted, Bool.and_eq_false_iff, decide_eq_false_iff_not]
        omega
      · simpa only [if_neg hsize, hflag, if_true, Task.cut, List.append_nil] using notMem_marks marks
      · simp only [if_neg hsize, hflag, if_true, Task.cut]

/-- What the caller of the engine is told, by what was received and what was marked. -/
structure Engine.WriteOutcomes : Prop where
  ok : ∀ delivered, engine.execute permit patience request = .ok delivered →
    ∃ plan response, engine.received permit patience request = some (plan, response) ∧
      accepted response = true ∧ engine.adapter.sanitizeResponse plan response = .ok delivered ∧
      ∀ hook ∈ engine.hooks, hook.applies .afterResponse plan = true →
        ((hook.check engine.policy plan (some delivered)).within hook.patience).result =
          some (some (.decision .allow))
  withheld : mutating request = true → engine.Accepted permit patience request →
    ∀ e, engine.execute permit patience request = .error e → e = .writeAcceptedResponseWithheld
  uncertain : mutating request = true → engine.Dispatched permit patience request →
    ¬ engine.Accepted permit patience request →
      engine.execute permit patience request = .error .outcomeUncertain
  undispatched : ¬ engine.Dispatched permit patience request → ∀ e, e.Ambiguous →
    engine.execute permit patience request = .error e →
      engine.Raises request e ∨
        e = .writeAcceptedResponseWithheld ∧ engine.Accepted permit patience request

end

theorem execute_eq : engine.execute permit patience request =
    report request ((engine.pipeline permit request).cut patience).1
      (match ((engine.pipeline permit request).cut patience).2 with
        | some (result, _) => result
        | none => .error .timeout) := by
  unfold Engine.execute
  rcases (engine.pipeline permit request).cut patience with ⟨flags, _ | ⟨result, left⟩⟩ <;> rfl

theorem report_eq_ok {flags : List Flag} {result : Except Error Response} {delivered : Response}
    (h : report request flags result = .ok delivered) : result = .ok delivered := by
  cases result with
  | ok response => exact h
  | error e =>
    unfold report at h
    dsimp only at h
    split at h
    · cases h
    split at h <;> cases h

/-- Without the flag of an accepted write, an ambiguous error is one of the result, unless the
primary send was marked. -/
theorem report_undispatched {flags : List Flag} {result : Except Error Response} {e : Error}
    (hflag : Flag.writeAccepted ∉ flags) (hmark : Flag.dispatched ∉ flags)
    (h : report request flags result = .error e) : result = .error e := by
  cases result with
  | ok response => cases h
  | error other =>
    unfold report at h
    simpa [hflag, hmark] using h

/-- Under the flag of an accepted write, every error says that the response is withheld. -/
theorem report_accepted {flags : List Flag} {result : Except Error Response} {e : Error}
    (hflag : Flag.writeAccepted ∈ flags) (h : report request flags result = .error e) :
    e = .writeAcceptedResponseWithheld := by
  cases result with
  | ok response => cases h
  | error other =>
    simp only [report, List.contains_iff_mem, hflag, if_true] at h
    exact (Except.error.inj h).symm

/-- What is handed out was sanitized from an accepted answer, and its hooks allow it. -/
theorem execute_ok {delivered : Response}
    (h : engine.execute permit patience request = .ok delivered) :
    ∃ plan response, engine.received permit patience request = some (plan, response) ∧
      accepted response = true ∧ engine.adapter.sanitizeResponse plan response = .ok delivered ∧
      ∀ hook ∈ engine.hooks, hook.applies .afterResponse plan = true →
        ((hook.check engine.policy plan (some delivered)).within hook.patience).result =
          some (some (.decision .allow)) := by
  rw [execute_eq] at h
  have hresult := report_eq_ok h
  rcases pipeline_cases engine permit patience request with
    ⟨-, -, hcut | ⟨e, left, hcut, -⟩⟩ |
      ⟨plan, response, hreceived, -, ⟨-, -, e, left, hcut, -⟩ |
        ⟨haccepted, -, hcut | ⟨result, left, hcut, hdeliver⟩⟩⟩ <;> rw [hcut] at hresult
  · cases hresult
  · cases hresult
  · cases hresult
  · cases hresult
  · obtain ⟨hsanitize, hhooks⟩ := deliver_ok ((congrArg some hresult) ▸ hdeliver)
    exact ⟨plan, response, hreceived, haccepted, hsanitize, hhooks⟩

theorem execute_withheld (hmutating : mutating request = true)
    (haccepted : engine.Accepted permit patience request) {e : Error}
    (h : engine.execute permit patience request = .error e) :
    e = .writeAcceptedResponseWithheld := by
  obtain ⟨plan, response, hreceived, haccepted⟩ := haccepted
  rw [execute_eq] at h
  rcases pipeline_cases engine permit patience request with
    ⟨hnone, -⟩ | ⟨plan', response', hsome, -, ⟨hrefused, -⟩ | ⟨-, hflag, -⟩⟩
  · rw [hreceived] at hnone
    cases hnone
  · rw [hreceived] at hsome
    obtain ⟨rfl, rfl⟩ := Prod.mk.inj (Option.some.inj hsome)
    rw [haccepted] at hrefused
    cases hrefused
  · exact report_accepted (hflag.mpr hmutating) h

theorem execute_uncertain (hmutating : mutating request = true)
    (hdispatched : engine.Dispatched permit patience request)
    (haccepted : ¬ engine.Accepted permit patience request) :
    engine.execute permit patience request = .error .outcomeUncertain := by
  rw [execute_eq]
  have hreport : ∀ e, Flag.writeAccepted ∉ ((engine.pipeline permit request).cut patience).1 →
      report request ((engine.pipeline permit request).cut patience).1 (.error e) =
        .error .outcomeUncertain := by
    intro e hflag
    have hmark : Flag.dispatched ∈ ((engine.pipeline permit request).cut patience).1 := hdispatched
    simp [report, hflag, hmark, hmutating]
  rcases pipeline_cases engine permit patience request with
    ⟨-, hflag, hcut | ⟨e, left, hcut, -⟩⟩ |
      ⟨plan, response, hreceived, -, ⟨-, hflag, e, left, hcut, -⟩ | ⟨haccept, -⟩⟩
  · rw [hcut]
    exact hreport _ hflag
  · rw [hcut]
    exact hreport _ hflag
  · rw [hcut]
    exact hreport _ hflag
  · exact absurd ⟨plan, response, hreceived, haccept⟩ haccepted

theorem execute_undispatched (hdispatched : ¬ engine.Dispatched permit patience request) {e : Error}
    (he : e.Ambiguous) (h : engine.execute permit patience request = .error e) :
    engine.Raises request e ∨
      e = .writeAcceptedResponseWithheld ∧ engine.Accepted permit patience request := by
  rw [execute_eq] at h
  rcases pipeline_cases engine permit patience request with
    ⟨-, hflag, hcut | ⟨other, left, hcut, hsent⟩⟩ |
      ⟨plan, response, hreceived, hsent, ⟨-, hflag, other, left, hcut, hother⟩ |
        ⟨haccepted, hflag, hcut⟩⟩
  · rw [hcut] at h
    cases report_undispatched hflag hdispatched h
    rcases he with he | he <;> cases he
  · rw [hcut] at h
    obtain rfl := Except.error.inj (report_undispatched hflag hdispatched h)
    exact Or.inl (sent_error he hsent)
  · rw [hcut] at h
    obtain rfl := Except.error.inj (report_undispatched hflag hdispatched h)
    rcases hother with rfl | rfl <;> rcases he with he | he <;> cases he
  · cases hmutating : mutating request with
    | true =>
      exact Or.inr ⟨report_accepted (hflag.mpr hmutating) h, plan, response, hreceived, haccepted⟩
    | false =>
      have hnot : Flag.writeAccepted ∉ ((engine.pipeline permit request).cut patience).1 := by
        rw [hflag, hmutating]
        exact Bool.false_ne_true
      have hresult := report_undispatched hnot hdispatched h
      rcases hcut with hcut | ⟨result, left, hcut, hdeliver⟩
      · rw [hcut] at hresult
        cases hresult
        rcases he with he | he <;> cases he
      · rw [hcut] at hresult
        have hsanitize := deliver_error he ((congrArg some hresult) ▸ hdeliver)
        obtain ⟨hplan, hanswer⟩ := answer_of_sent hsent
        exact Or.inl (Or.inr ⟨plan, hplan, Or.inr (Or.inr ⟨response, hanswer, hsanitize⟩)⟩)

/-- Writes are told apart at every point where the timer can fire. -/
theorem write_outcomes (engine : Engine) (permit : Bool) (patience : ℕ) (request : Request) :
    engine.WriteOutcomes permit patience request where
  ok _ h := execute_ok h
  withheld hmutating haccepted _ h := execute_withheld hmutating haccepted h
  uncertain hmutating hdispatched haccepted := execute_uncertain hmutating hdispatched haccepted
  undispatched hdispatched _ he h := execute_undispatched hdispatched he h

/-- A transport that answers without its mark, under an adapter that refuses the answer. -/
def unmarkedEngine : Engine where
  policy := ⟨"mock", .googleApi, ["write"], .empty⟩
  adapter :=
    { plan := fun _ request => .ok ⟨"write", none, request, []⟩
      verify := fun _ _ _ => .done (.ok ())
      sanitizeResponse := fun _ _ => .error .verification }
  transport :=
    { send := fun _ => .done (.ok ⟨200, "application/json", []⟩)
      sendVerified := fun _ => .done (.ok ⟨200, "application/json", []⟩) }
  hooks := []
  read := ⟨fun _ => none, rfl⟩

def sampleWrite : Request := ⟨"POST", "/write", .empty, [], none⟩

theorem undispatched_withheld : ¬ ∀ (engine : Engine) (permit : Bool) (patience : ℕ)
    (request : Request), ¬ engine.Dispatched permit patience request →
      engine.execute permit patience request ≠ .error .outcomeUncertain ∧
        engine.execute permit patience request ≠ .error .writeAcceptedResponseWithheld := by
  intro h
  have hunmarked : ¬ unmarkedEngine.Dispatched true 0 sampleWrite := by
    unfold Engine.Dispatched
    decide
  exact (h unmarkedEngine true 0 sampleWrite hunmarked).2 rfl

/-- A transport that sets its mark and never answers. -/
def silentEngine : Engine :=
  { unmarkedEngine with transport := { send := fun _ => .hang, sendVerified := fun _ => .note () .hang } }

theorem silent_write_uncertain :
    silentEngine.execute true 20 sampleWrite = .error .outcomeUncertain := by
  refine (write_outcomes silentEngine true 20 sampleWrite).uncertain (by decide) ?_ ?_
  · unfold Engine.Dispatched
    decide
  · rintro ⟨plan, response, hreceived, -⟩
    cases hreceived

end NyxId.Permissions
