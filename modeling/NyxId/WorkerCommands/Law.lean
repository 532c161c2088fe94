import NyxId.WorkerCommands.Model
import NyxId.Outcomes

/-!
What holds of the commands of one installation over any history of calls.
-/

namespace NyxId.WorkerCommands

open Interleave

variable {s t u : State} {c c' : OracleWorkerCommand} {events : List (Call × Answer)}

/-! ### Calls that deliver nothing -/

/-- A pending command comes to an end. -/
def Settlement (c c' : OracleWorkerCommand) : Prop :=
  c.status.isPending ∧ ∃ status resultCode now,
    status.isSettled ∧ c' = c.settle status resultCode now

/-- Commands stay as they are or come to an end. -/
structure Settling (s t : State) : Prop where
  generation : t.worker.generation = s.worker.generation
  commands : ∃ f, t.commands = s.commands.map f ∧ ∀ c ∈ s.commands, f c = c ∨ Settlement c (f c)

/-- Pending commands keep the worker from taking tasks. -/
def Drained (s : State) : Prop :=
  s.hasPending s.worker.generation → s.worker.desiredState = .draining

theorem OracleWorkerCommandStatus.not_settled_of_pending {status : OracleWorkerCommandStatus}
    (h : status.isPending) : ¬ status.isSettled := by
  cases status
  case queued | delivered => exact Bool.false_ne_true
  all_goals cases h

theorem hasPending_iff {generation : Option String} :
    s.hasPending generation ↔
      ∃ c ∈ s.commands, c.workerGeneration = generation ∧ c.status.isPending := by
  simp only [State.hasPending, List.any_eq_true, Bool.and_eq_true, decide_eq_true_eq]

theorem mem_current : c ∈ s.current ↔ c ∈ s.commands ∧ c.workerGeneration = s.worker.generation := by
  simp only [State.current, List.mem_filter, decide_eq_true_eq]

theorem of_find_current {commandId : String}
    (h : (s.current.find? fun c => c.id = commandId) = some c) :
    c ∈ s.commands ∧ c.workerGeneration = s.worker.generation ∧ c.id = commandId := by
  have hid := List.find?_some h
  obtain ⟨hmem, hgen⟩ := mem_current.mp (List.mem_of_find?_eq_some h)
  exact ⟨hmem, hgen, of_decide_eq_true hid⟩

theorem Settlement.id (h : Settlement c c') : c'.id = c.id := by
  obtain ⟨-, status, resultCode, now, -, rfl⟩ := h
  rfl

theorem Settlement.workerGeneration (h : Settlement c c') :
    c'.workerGeneration = c.workerGeneration := by
  obtain ⟨-, status, resultCode, now, -, rfl⟩ := h
  rfl

theorem Settlement.deliveryCount (h : Settlement c c') : c'.deliveryCount = c.deliveryCount := by
  obtain ⟨-, status, resultCode, now, -, rfl⟩ := h
  rfl

theorem Settlement.lease (h : Settlement c c') :
    c'.deliveryLeaseExpiresAt = c.deliveryLeaseExpiresAt := by
  obtain ⟨-, status, resultCode, now, -, rfl⟩ := h
  rfl

theorem Settlement.settled (h : Settlement c c') : c'.status.isSettled := by
  obtain ⟨-, status, resultCode, now, hsettled, rfl⟩ := h
  exact hsettled

namespace Settling

theorem refl (s : State) : Settling s s :=
  ⟨rfl, _, (List.map_id _).symm, fun _ _ => .inl rfl⟩

theorem trans (h : Settling s t) (h' : Settling t u) : Settling s u := by
  obtain ⟨hgen, f, hf, hcommands⟩ := h
  obtain ⟨hgen', g, hg, hcommands'⟩ := h'
  refine ⟨hgen'.trans hgen, g ∘ f, by rw [hg, hf, List.map_map], fun c hc => ?_⟩
  have hfc : f c ∈ t.commands := hf ▸ List.mem_map_of_mem hc
  show g (f c) = c ∨ Settlement c (g (f c))
  rcases hcommands c hc with hsame | hsettle
  · rw [hsame] at hfc ⊢
    exact hcommands' c hfc
  · rcases hcommands' (f c) hfc with hsame | hagain
    · rw [hsame]
      exact .inr hsettle
    · exact absurd hsettle.settled (OracleWorkerCommandStatus.not_settled_of_pending hagain.1)

/-- Where a command comes from. -/
theorem source (h : Settling s t) (hc' : c' ∈ t.commands) :
    ∃ c ∈ s.commands, c' = c ∨ Settlement c c' := by
  obtain ⟨-, f, hf, hcommands⟩ := h
  rw [hf] at hc'
  obtain ⟨c, hc, rfl⟩ := List.mem_map.mp hc'
  exact ⟨c, hc, hcommands c hc⟩

/-- What becomes of a command. -/
theorem target (h : Settling s t) (hc : c ∈ s.commands) :
    ∃ c' ∈ t.commands, c' = c ∨ Settlement c c' := by
  obtain ⟨-, f, hf, hcommands⟩ := h
  exact ⟨f c, hf ▸ List.mem_map_of_mem hc, hcommands c hc⟩

theorem ids (h : Settling s t) :
    t.commands.map OracleWorkerCommand.id = s.commands.map OracleWorkerCommand.id := by
  obtain ⟨-, f, hf, hcommands⟩ := h
  rw [hf, List.map_map]
  refine List.map_congr_left fun c hc => ?_
  rcases hcommands c hc with hsame | hsettle
  · exact congrArg _ hsame
  · exact hsettle.id

/-- A command that is still pending was there before. -/
theorem pending (h : Settling s t) (hc : c ∈ t.commands) (hpending : c.status.isPending) :
    c ∈ s.commands := by
  obtain ⟨c₀, hc₀, rfl | hsettle⟩ := h.source hc
  · exact hc₀
  · exact absurd hsettle.settled (OracleWorkerCommandStatus.not_settled_of_pending hpending)

theorem hasPending {generation : Option String} (h : Settling s t)
    (hpending : t.hasPending generation) : s.hasPending generation := by
  rw [hasPending_iff] at hpending ⊢
  obtain ⟨c, hc, hgen, hstatus⟩ := hpending
  exact ⟨c, h.pending hc hstatus, hgen, hstatus⟩

theorem drained (h : Settling s t) (hdesired : t.worker.desiredState = s.worker.desiredState)
    (hs : Drained s) : Drained t := by
  intro hpending
  rw [h.generation] at hpending
  rw [hdesired]
  exact hs (h.hasPending hpending)

end Settling

theorem settling_update {f : OracleWorkerCommand → OracleWorkerCommand}
    (hf : ∀ c ∈ s.commands, f c = c ∨ Settlement c (f c)) : Settling s (s.update f) :=
  ⟨rfl, f, rfl, hf⟩

theorem settling_desire (desiredState : OracleWorkerDesiredState) :
    Settling s (s.desire desiredState) :=
  ⟨rfl, _, (List.map_id _).symm, fun _ _ => .inl rfl⟩

theorem reconcileDesiredState_eq (command : OracleWorkerCommand) :
    reconcileDesiredState command s = s ∨
      ∃ desiredState, reconcileDesiredState command s = s.desire desiredState := by
  by_cases hgen : s.worker.generation = command.workerGeneration
  · exact .inr ⟨_, if_pos hgen⟩
  · exact .inl (if_neg hgen)

theorem settling_reconcile (command : OracleWorkerCommand) :
    Settling s (reconcileDesiredState command s) := by
  rcases reconcileDesiredState_eq (s := s) command with h | ⟨desiredState, h⟩
  · rw [h]
    exact Settling.refl s
  · rw [h]
    exact settling_desire desiredState

theorem drained_reconcile {command : OracleWorkerCommand}
    (hgen : command.workerGeneration = s.worker.generation) :
    Drained (reconcileDesiredState command s) := by
  unfold reconcileDesiredState
  rw [if_pos hgen.symm, hgen]
  intro hpending
  have hpending : s.hasPending s.worker.generation := hpending
  exact if_pos hpending

/-! ### Expiry -/

/-- No two commands share an id, and at most one of the worker's is delivered. -/
structure Inv (s : State) : Prop where
  ids : (s.commands.map OracleWorkerCommand.id).Nodup
  delivered : ∀ c ∈ s.commands, ∀ c' ∈ s.commands, c.status = .delivered →
    c'.status = .delivered → c = c'
  deliveryCount : ∀ c ∈ s.current, c.deliveryCount ≤ maxCommandDeliveries
  drained : Drained s

theorem Inv.eq_of_id (hs : Inv s) (hc : c ∈ s.commands) (hc' : c' ∈ s.commands)
    (hid : c.id = c'.id) : c = c' :=
  List.inj_on_of_nodup_map hs.ids hc hc' hid

theorem Inv.settling (hs : Inv s) (h : Settling s t) (hdrained : Drained t) : Inv t where
  ids := by
    rw [h.ids]
    exact hs.ids
  delivered c hc c' hc' hstatus hstatus' := by
    have hpending : c.status.isPending := by rw [hstatus]; rfl
    have hpending' : c'.status.isPending := by rw [hstatus']; rfl
    exact hs.delivered c (h.pending hc hpending) c' (h.pending hc' hpending') hstatus hstatus'
  deliveryCount c hc := by
    obtain ⟨hc, hgen⟩ := mem_current.mp hc
    rw [h.generation] at hgen
    obtain ⟨c₀, hc₀, rfl | hsettle⟩ := h.source hc
    · exact hs.deliveryCount c (mem_current.mpr ⟨hc₀, hgen⟩)
    · rw [hsettle.deliveryCount]
      rw [hsettle.workerGeneration] at hgen
      exact hs.deliveryCount c₀ (mem_current.mpr ⟨hc₀, hgen⟩)
  drained := hdrained

theorem pending_of_mem_stale {now : ℤ} (hc : c ∈ staleCommands now s) :
    c ∈ s.commands ∧ c.status.isPending := by
  have hc := (List.mem_insertionSort _).mp (List.mem_of_mem_take hc)
  obtain ⟨hcurrent, hstale⟩ := List.mem_filter.mp hc
  exact ⟨(mem_current.mp hcurrent).1, (Bool.and_eq_true _ _ ▸ hstale).1⟩

/-- A command whose id was collected for an update by ids. -/
theorem Inv.pending_of_id {p : OracleWorkerCommand → Bool} {now : ℤ} (hs : Inv s)
    (hc : c ∈ s.commands)
    (hid : c.id ∈ ((staleCommands now s).filter p).map OracleWorkerCommand.id) :
    c.status.isPending := by
  obtain ⟨row, hrow, hid⟩ := List.mem_map.mp hid
  obtain ⟨hmem, hpending⟩ := pending_of_mem_stale (List.mem_filter.mp hrow).1
  rw [hs.eq_of_id hc hmem hid.symm]
  exact hpending

theorem Inv.expire (hs : Inv s) (now : ℤ) (order : String → ℕ) :
    Settling s (expireStaleCommands now order s) ∧ Drained (expireStaleCommands now order s) := by
  unfold expireStaleCommands
  extract_lets rows deadlineIds exhaustedIds expired
  have hexpired : Settling s expired := by
    refine settling_update fun c hc => ?_
    split_ifs with hdeadline hexhausted
    · exact .inr ⟨hs.pending_of_id hc hdeadline, .expired, _, now, rfl, rfl⟩
    · exact .inr ⟨hs.pending_of_id hc hexhausted, .expired, _, now, rfl, rfl⟩
    · exact .inl rfl
  cases hlatest : (byCreationDesc order expired.current).head? with
  | none => exact ⟨hexpired, hexpired.drained rfl hs.drained⟩
  | some latest =>
    have hmem := (List.mem_insertionSort _).mp (List.mem_of_mem_head? hlatest)
    exact ⟨hexpired.trans (settling_reconcile latest), drained_reconcile (mem_current.mp hmem).2⟩

theorem settling_retire (now : ℤ) : Settling s (retireOrphans now s) := by
  refine settling_update fun c _ => ?_
  split_ifs with h
  · refine .inr ⟨?_, .expired, _, now, rfl, rfl⟩
    rw [h.2]
    rfl
  · exact .inl rfl

/-! ### Deliveries -/

/-- What is true of a command that is about to be delivered. -/
structure Deliverable (now : ℤ) (s : State) (c : OracleWorkerCommand) : Prop where
  mem : c ∈ s.current
  deadline : now < c.deadlineAt
  deliveryCount : c.deliveryCount < maxCommandDeliveries
  status : c.status = .queued ∨
    c.status = .delivered ∧ ∃ lease, c.deliveryLeaseExpiresAt = some lease ∧ lease ≤ now
  alone : ∀ c' ∈ s.commands, c'.status = .delivered → c'.id = c.id

theorem Inv.next_deliverable {now : ℤ} {order : String → ℕ} {capabilities : List String} (hs : Inv s)
    (h : nextDelivery now order capabilities s = some c) : Deliverable now s c := by
  unfold nextDelivery at h
  extract_lets delivered at h
  split_ifs at h with hlease
  have hmem := (List.mem_insertionSort _).mp (List.mem_of_mem_head? h)
  obtain ⟨hcurrent, hfit⟩ := List.mem_filter.mp hmem
  simp only [deliverable, Bool.and_eq_true, Bool.or_eq_true, decide_eq_true_eq] at hfit
  obtain ⟨⟨⟨⟨hdeadline, hcount⟩, -⟩, hstatus⟩, halone⟩ := hfit
  refine ⟨hcurrent, hdeadline, hcount, ?_, fun c' hc' hstatus' => ?_⟩
  · refine hstatus.imp_right fun ⟨hstatus, hlease⟩ => ⟨hstatus, ?_⟩
    obtain ⟨lease, hlease, hle⟩ := (Option.any_eq_true _ _).mp hlease
    exact ⟨lease, hlease, of_decide_eq_true hle⟩
  · cases hfind : delivered with
    | none => exact absurd (decide_eq_true hstatus') (List.find?_eq_none.mp hfind c' hc')
    | some found =>
      have hfound := List.find?_some hfind
      rw [hs.delivered c' hc' found (List.mem_of_find?_eq_some hfind) hstatus'
        (of_decide_eq_true hfound)]
      rw [hfind] at halone
      exact (of_decide_eq_true halone).symm

/-! ### Calls -/

/-- What a committed call does to the commands. -/
inductive Effect (s : State) (event : Call × Answer) (t : State) : Prop
  | settle (hsettling : Settling s t) (hdrained : Drained t) (hnone : deliveries [event] = [])
  | enqueue (command : OracleWorkerCommand)
      (hid : command.id ∉ s.commands.map OracleWorkerCommand.id)
      (hgeneration : command.workerGeneration = s.worker.generation)
      (hqueued : command.status = .queued) (hcount : command.deliveryCount = 0)
      (ht : t = { s with commands := s.commands ++ [command] }.desire .draining)
      (hnone : deliveries [event] = [])
  | deliver (u : State) (c : OracleWorkerCommand) (locks : Locks) (expiryNow now : ℤ)
      (order : String → ℕ) (capabilities : List String)
      (hevent : event = (.deliver locks expiryNow now order capabilities,
        .delivered (some (c.deliver now))))
      (hsettling : Settling s u) (hdrained : Drained u) (hdeliverable : Deliverable now u c)
      (ht : t = u.updateOne c.id fun c => c.deliver now)

theorem except_map_eq_ok {ε α β : Type} {f : α → β} {result : Except ε α} {b : β}
    (h : result.map f = .ok b) : ∃ a, result = .ok a ∧ f a = b := by
  cases result with
  | error e => cases h
  | ok a => exact ⟨a, rfl, Except.ok.inj h⟩

/-- An update by the id of a pending command that ends it. -/
theorem Inv.settling_updateOne {f : OracleWorkerCommand → OracleWorkerCommand}
    (hs : Inv s) (hc : c ∈ s.commands) (hf : Settlement c (f c)) :
    Settling s (s.updateOne c.id f) := by
  refine settling_update fun c' hc' => ?_
  split_ifs with hid
  · rw [hs.eq_of_id hc' hc hid]
    exact .inr hf
  · exact .inl rfl

theorem Inv.report {now : ℤ} {report : CommandReport} (hs : Inv s)
    (h : applyCommandReport now report s = .ok t) : Settling s t ∧ Drained t := by
  unfold applyCommandReport at h
  obtain ⟨-, -, h⟩ := bind_eq_ok.mp h
  obtain ⟨resultCode, -, h⟩ := bind_eq_ok.mp h
  split at h
  · cases h
    exact ⟨Settling.refl s, hs.drained⟩
  · rename_i existing hfind
    obtain ⟨hmem, hgen, hid⟩ := of_find_current hfind
    by_cases hsettled : existing.status.isSettled
    · rw [if_pos hsettled] at h
      cases h
      exact ⟨settling_reconcile existing, drained_reconcile hgen⟩
    rw [if_neg hsettled] at h
    by_cases hdelivered : existing.status = .delivered
    · rw [if_pos hdelivered] at h
      cases h
      rw [← hid]
      have hpending : existing.status.isPending := by rw [hdelivered]; rfl
      have hsettle := hs.settling_updateOne hmem (f := fun c =>
        c.settle (if report.succeeded then .succeeded else .failed) resultCode now)
        ⟨hpending, _, _, now, by split <;> rfl, rfl⟩
      exact ⟨hsettle.trans (settling_reconcile _), drained_reconcile hgen⟩
    · rw [if_neg hdelivered] at h
      cases h
      exact ⟨Settling.refl s, hs.drained⟩

theorem Inv.reports (hs : Inv s) {reports : List (CommandReport × ℤ)}
    (h : applyReports reports s = .ok t) : Settling s t ∧ Drained t := by
  unfold applyReports at h
  induction reports generalizing s with
  | nil =>
    cases h
    exact ⟨Settling.refl _, hs.drained⟩
  | cons report rest ih =>
    rw [List.foldlM_cons] at h
    obtain ⟨u, hu, h⟩ := bind_eq_ok.mp h
    obtain ⟨hsettling, hdrained⟩ := hs.report hu
    obtain ⟨hrest, ht⟩ := ih (hs.settling hsettling hdrained) h
    exact ⟨hsettling.trans hrest, ht⟩

theorem Inv.cancel {locks : Locks} {now : ℤ} {commandId : String} (hs : Inv s)
    (h : cancelWorkerCommand locks now commandId s = .ok (c, t)) : Settling s t ∧ Drained t := by
  unfold cancelWorkerCommand at h
  obtain ⟨-, -, h⟩ := bind_eq_ok.mp h
  obtain ⟨-, -, h⟩ := bind_eq_ok.mp h
  obtain ⟨-, -, h⟩ := bind_eq_ok.mp h
  split at h
  · cases h
  · rename_i existing hfind
    obtain ⟨hmem, hgen, hid⟩ := of_find_current hfind
    split_ifs at h with hpending
    cases h
    rw [← hid]
    have hsettle := hs.settling_updateOne hmem (f := fun c =>
      c.settle .cancelled (some "cancelled_by_manager") now) ⟨hpending, _, _, now, rfl, rfl⟩
    refine ⟨hsettle.trans (settling_desire _), fun hleft => ?_⟩
    exact if_pos hleft

theorem step_effect (hs : Inv s) {event : Call × Answer} (hstep : Step s event t) :
    Effect s event t := by
  obtain ⟨call, answer⟩ := event
  unfold Step at hstep
  cases call with
  | enqueue locks commandId now actor input =>
    obtain ⟨⟨command, t'⟩, h, heq⟩ := except_map_eq_ok hstep
    cases heq
    unfold enqueueWorkerCommand at h
    obtain ⟨-, -, h⟩ := bind_eq_ok.mp h
    obtain ⟨-, -, h⟩ := bind_eq_ok.mp h
    split_ifs at h with himport hcapability hunique
    cases h
    refine .enqueue _ (fun hmem => hunique ?_) rfl rfl rfl rfl rfl
    obtain ⟨c, hc, hid⟩ := List.mem_map.mp hmem
    exact List.any_eq_true.mpr ⟨c, hc, by rw [decide_eq_true hid, Bool.true_or]⟩
  | deliver locks expiryNow now order capabilities =>
    obtain ⟨⟨command, t'⟩, h, heq⟩ := except_map_eq_ok hstep
    cases heq
    unfold deliverNextCommand at h
    obtain ⟨-, -, h⟩ := bind_eq_ok.mp h
    obtain ⟨hexpire, hdrained⟩ := hs.expire expiryNow order
    split_ifs at h with hcapability
    · have hretire := settling_retire (s := expireStaleCommands expiryNow order s) now
      have hdrained' := hretire.drained rfl hdrained
      have hu := (hs.settling hexpire hdrained).settling hretire hdrained'
      dsimp only at h
      split at h
      · cases h
        exact .settle (hexpire.trans hretire) hdrained' rfl
      · rename_i c hnext
        cases h
        exact .deliver _ c locks expiryNow now order capabilities rfl (hexpire.trans hretire)
          hdrained' (hu.next_deliverable hnext) rfl
    · cases h
      exact .settle hexpire hdrained rfl
  | report locks reports =>
    obtain ⟨t', h, heq⟩ := except_map_eq_ok hstep
    cases heq
    obtain ⟨-, -, h⟩ := bind_eq_ok.mp h
    obtain ⟨hsettling, hdrained⟩ := hs.reports h
    exact .settle hsettling hdrained rfl
  | cancel locks now commandId =>
    obtain ⟨⟨command, t'⟩, h, heq⟩ := except_map_eq_ok hstep
    cases heq
    obtain ⟨hsettling, hdrained⟩ := hs.cancel h
    exact .settle hsettling hdrained rfl
  | list locks now order =>
    obtain ⟨⟨commands, t'⟩, h, heq⟩ := except_map_eq_ok hstep
    cases heq
    obtain ⟨-, -, h⟩ := bind_eq_ok.mp h
    cases h
    obtain ⟨hexpire, hdrained⟩ := hs.expire now order
    exact .settle hexpire hdrained rfl

/-! ### Whole histories -/

/-- What the deliveries of a history have left in the commands. -/
structure Recorded (events : List (Call × Answer)) (s : State) : Prop where
  known : ∀ d ∈ deliveries events, ∃ c ∈ s.current, c.id = d.id ∧ c.status ≠ .queued ∧
    ∃ lease, c.deliveryLeaseExpiresAt = some lease ∧
      ∀ earlier, d.deliveryLeaseExpiresAt = some earlier → earlier ≤ lease
  counted : ∀ c ∈ s.current, (deliveries events).countP (·.id = c.id) ≤ c.deliveryCount

theorem deliveries_append (before after : List (Call × Answer)) :
    deliveries (before ++ after) = deliveries before ++ deliveries after :=
  List.filterMap_append

theorem Settlement.not_queued (h : Settlement c c') : c'.status ≠ .queued := by
  intro hqueued
  have hsettled := h.settled
  rw [hqueued] at hsettled
  cases hsettled

theorem Settling.source_current (h : Settling s t) (hc' : c' ∈ t.current) :
    ∃ c ∈ s.current, c' = c ∨ Settlement c c' := by
  obtain ⟨hmem, hgen⟩ := mem_current.mp hc'
  rw [h.generation] at hgen
  obtain ⟨c, hc, heq | hsettle⟩ := h.source hmem
  · rw [heq] at hgen
    exact ⟨c, mem_current.mpr ⟨hc, hgen⟩, .inl heq⟩
  · rw [hsettle.workerGeneration] at hgen
    exact ⟨c, mem_current.mpr ⟨hc, hgen⟩, .inr hsettle⟩

theorem Settling.target_current (h : Settling s t) (hc : c ∈ s.current) :
    ∃ c' ∈ t.current, c' = c ∨ Settlement c c' := by
  obtain ⟨hmem, hgen⟩ := mem_current.mp hc
  rw [← h.generation] at hgen
  obtain ⟨c', hc', heq | hsettle⟩ := h.target hmem
  · rw [← heq] at hgen
    exact ⟨c', mem_current.mpr ⟨hc', hgen⟩, .inl heq⟩
  · rw [← hsettle.workerGeneration] at hgen
    exact ⟨c', mem_current.mpr ⟨hc', hgen⟩, .inr hsettle⟩

theorem Recorded.settling (hr : Recorded events s) (h : Settling s t) : Recorded events t where
  known d hd := by
    obtain ⟨c, hc, hid, hqueued, hlease⟩ := hr.known d hd
    obtain ⟨c', hc', rfl | hsettle⟩ := h.target_current hc
    · exact ⟨c', hc', hid, hqueued, hlease⟩
    · refine ⟨c', hc', hsettle.id.trans hid, hsettle.not_queued, ?_⟩
      rw [hsettle.lease]
      exact hlease
  counted c' hc' := by
    obtain ⟨c, hc, rfl | hsettle⟩ := h.source_current hc'
    · exact hr.counted c' hc
    · rw [hsettle.id, hsettle.deliveryCount]
      exact hr.counted c hc

/-- No more deliveries of a command than the limit. -/
theorem Recorded.limit (hr : Recorded events s) (hs : Inv s) (id : String) :
    (deliveries events).countP (·.id = id) ≤ maxCommandDeliveries := by
  by_cases hany : ∃ d ∈ deliveries events, d.id = id
  · obtain ⟨d, hd, rfl⟩ := hany
    obtain ⟨c, hc, hid, -⟩ := hr.known d hd
    rw [← hid]
    exact (hr.counted c hc).trans (hs.deliveryCount c hc)
  · have hzero : (deliveries events).countP (·.id = id) = 0 :=
      List.countP_eq_zero.mpr fun d hd hid => hany ⟨d, hd, of_decide_eq_true hid⟩
    omega

/-- No lease of a delivery of the command is running any more. -/
theorem Recorded.lease_over (hr : Recorded events s) (hs : Inv s) {now : ℤ}
    (hc : Deliverable now s c) {d : OracleWorkerCommand} (hd : d ∈ deliveries events)
    (hid : d.id = c.id) {lease : ℤ} (hlease : d.deliveryLeaseExpiresAt = some lease) :
    lease ≤ now := by
  obtain ⟨c₀, hc₀, hid₀, hqueued, last, hlast, hle⟩ := hr.known d hd
  have heq : c₀ = c :=
    hs.eq_of_id (mem_current.mp hc₀).1 (mem_current.mp hc.mem).1 (hid₀.trans hid)
  rw [heq] at hqueued hlast
  rcases hc.status with hstatus | ⟨-, expiry, hover, hnow⟩
  · exact absurd hstatus hqueued
  · rw [hlast] at hover
    cases hover
    exact (hle lease hlease).trans hnow

theorem Inv.mem_updateOne (hs : Inv s) (hc : c ∈ s.commands)
    {f : OracleWorkerCommand → OracleWorkerCommand} :
    c' ∈ (s.updateOne c.id f).commands ↔ c' ∈ s.commands ∧ c'.id ≠ c.id ∨ c' = f c := by
  show c' ∈ s.commands.map _ ↔ _
  rw [List.mem_map]
  constructor
  · rintro ⟨c₀, hc₀, rfl⟩
    by_cases hid : c₀.id = c.id
    · rw [if_pos hid, hs.eq_of_id hc₀ hc hid]
      exact .inr rfl
    · rw [if_neg hid]
      exact .inl ⟨hc₀, hid⟩
  · rintro (⟨hc', hid⟩ | rfl)
    · exact ⟨c', hc', if_neg hid⟩
    · exact ⟨c, hc, if_pos rfl⟩

section Delivering

variable {now : ℤ} (hs : Inv s) (hc : Deliverable now s c)
include hs hc

theorem Inv.mem_current_deliver :
    c' ∈ (s.updateOne c.id fun c => c.deliver now).current ↔
      c' ∈ s.current ∧ c'.id ≠ c.id ∨ c' = c.deliver now := by
  obtain ⟨hmem, hgen⟩ := mem_current.mp hc.mem
  rw [mem_current, mem_current, hs.mem_updateOne hmem]
  constructor
  · rintro ⟨⟨hc', hid⟩ | rfl, hgen'⟩
    · exact .inl ⟨⟨hc', hgen'⟩, hid⟩
    · exact .inr rfl
  · rintro (⟨⟨hc', hgen'⟩, hid⟩ | rfl)
    · exact ⟨.inl ⟨hc', hid⟩, hgen'⟩
    · exact ⟨.inr rfl, hgen⟩

theorem Inv.deliver : Inv (s.updateOne c.id fun c => c.deliver now) where
  ids := by
    have hsame : (s.updateOne c.id fun c => c.deliver now).commands.map OracleWorkerCommand.id =
        s.commands.map OracleWorkerCommand.id := by
      show (s.commands.map _).map _ = _
      rw [List.map_map]
      refine List.map_congr_left fun c' _ => ?_
      show (if c'.id = c.id then c'.deliver now else c').id = c'.id
      split_ifs <;> rfl
    rw [hsame]
    exact hs.ids
  delivered c₁ hc₁ c₂ hc₂ hstatus₁ hstatus₂ := by
    obtain ⟨hmem, -⟩ := mem_current.mp hc.mem
    rcases (hs.mem_updateOne hmem).mp hc₁ with ⟨hc₁, hid₁⟩ | rfl
    · exact absurd (hc.alone c₁ hc₁ hstatus₁) hid₁
    rcases (hs.mem_updateOne hmem).mp hc₂ with ⟨hc₂, hid₂⟩ | rfl
    · exact absurd (hc.alone c₂ hc₂ hstatus₂) hid₂
    · rfl
  deliveryCount c' hc' := by
    rcases (hs.mem_current_deliver hc).mp hc' with ⟨hc', -⟩ | rfl
    · exact hs.deliveryCount c' hc'
    · exact hc.deliveryCount
  drained _ := by
    obtain ⟨hmem, hgen⟩ := mem_current.mp hc.mem
    refine hs.drained (hasPending_iff.mpr ⟨c, hmem, hgen, ?_⟩)
    rcases hc.status with hstatus | ⟨hstatus, -⟩
    · rw [hstatus]
      rfl
    · rw [hstatus]
      rfl

theorem Recorded.deliver (hr : Recorded events s) {event : Call × Answer}
    (hevent : deliveries [event] = [c.deliver now]) :
    Recorded (events ++ [event]) (s.updateOne c.id fun c => c.deliver now) where
  known d hd := by
    rw [deliveries_append, hevent, List.mem_append, List.mem_singleton] at hd
    have hnew : c.deliver now ∈ (s.updateOne c.id fun c => c.deliver now).current :=
      (hs.mem_current_deliver hc).mpr (.inr rfl)
    rcases hd with hd | rfl
    · by_cases hid : d.id = c.id
      · refine ⟨c.deliver now, hnew, hid.symm, nofun, _, rfl, fun earlier hearlier => ?_⟩
        have hover := hr.lease_over hs hc hd hid hearlier
        have hlater : now ≤ now + commandDeliveryLeaseMs := by
          unfold commandDeliveryLeaseMs
          omega
        exact hover.trans hlater
      · obtain ⟨c₀, hc₀, hid₀, hrest⟩ := hr.known d hd
        rw [← hid₀] at hid
        exact ⟨c₀, (hs.mem_current_deliver hc).mpr (.inl ⟨hc₀, hid⟩), hid₀, hrest⟩
    · refine ⟨c.deliver now, hnew, rfl, nofun, _, rfl, fun earlier hearlier => ?_⟩
      exact (Option.some.inj hearlier).ge
  counted c' hc' := by
    rw [deliveries_append, hevent, List.countP_append, List.countP_singleton]
    rcases (hs.mem_current_deliver hc).mp hc' with ⟨hc', hid⟩ | rfl
    · have hother : ¬ (c.deliver now).id = c'.id := fun h => hid h.symm
      rw [if_neg (by rw [decide_eq_true_eq]; exact hother)]
      exact hr.counted c' hc'
    · have hold := hr.counted c hc.mem
      rw [if_pos (decide_eq_true rfl)]
      exact Nat.succ_le_succ hold

end Delivering

section Enqueueing

variable {command : OracleWorkerCommand} (hid : command.id ∉ s.commands.map OracleWorkerCommand.id)
  (hgeneration : command.workerGeneration = s.worker.generation)
  (hqueued : command.status = .queued)

def State.withNew (s : State) (command : OracleWorkerCommand) : State :=
  { s with commands := s.commands ++ [command] }.desire .draining

theorem mem_current_new (h : c ∈ (s.withNew command).current) : c ∈ s.current ∨ c = command := by
  obtain ⟨hmem, hgen⟩ := mem_current.mp h
  have hmem : c ∈ s.commands ++ [command] := hmem
  rw [List.mem_append, List.mem_singleton] at hmem
  exact hmem.imp_left fun hmem => mem_current.mpr ⟨hmem, hgen⟩

include hid hqueued in
theorem Inv.enqueue (hs : Inv s) (hcount : command.deliveryCount = 0) :
    Inv (s.withNew command) where
  ids := by
    show ((s.commands ++ [command]).map _).Nodup
    rw [List.map_append, List.map_singleton]
    refine List.nodup_append.mpr ⟨hs.ids, List.nodup_singleton _, fun id hold id' hnew heq => ?_⟩
    rw [heq, List.mem_singleton.mp hnew] at hold
    exact hid hold
  delivered c hc c' hc' hstatus hstatus' := by
    have hold : ∀ c ∈ s.commands ++ [command], c.status = .delivered → c ∈ s.commands := by
      intro c hc hstatus
      rw [List.mem_append, List.mem_singleton] at hc
      rcases hc with hc | rfl
      · exact hc
      · rw [hqueued] at hstatus
        cases hstatus
    exact hs.delivered c (hold c hc hstatus) c' (hold c' hc' hstatus') hstatus hstatus'
  deliveryCount c hc := by
    rcases mem_current_new hc with hc | rfl
    · exact hs.deliveryCount c hc
    · rw [hcount]
      exact Nat.zero_le _
  drained _ := rfl

include hid in
theorem Recorded.enqueue (hr : Recorded events s) : Recorded events (s.withNew command) where
  known d hd := by
    obtain ⟨c, hc, hrest⟩ := hr.known d hd
    obtain ⟨hmem, hgen⟩ := mem_current.mp hc
    exact ⟨c, mem_current.mpr ⟨List.mem_append_left _ hmem, hgen⟩, hrest⟩
  counted c hc := by
    rcases mem_current_new hc with hc | rfl
    · exact hr.counted c hc
    · have hzero : (deliveries events).countP (·.id = c.id) = 0 := by
        refine List.countP_eq_zero.mpr fun d hd heq => hid ?_
        obtain ⟨c₀, hc₀, hid₀, -⟩ := hr.known d hd
        rw [← of_decide_eq_true heq, ← hid₀]
        exact List.mem_map_of_mem (mem_current.mp hc₀).1
      omega

end Enqueueing

theorem Inv.step (hs : Inv s) {event : Call × Answer} (h : Step s event t) : Inv t := by
  cases step_effect hs h with
  | settle hsettling hdrained => exact hs.settling hsettling hdrained
  | enqueue command hid hgeneration hqueued hcount ht =>
    subst ht
    exact hs.enqueue hid hqueued hcount
  | deliver u c locks expiryNow now order capabilities hevent hsettling hdrained hdeliverable ht =>
    subst ht
    exact (hs.settling hsettling hdrained).deliver hdeliverable

theorem Recorded.step (hs : Inv s) (hr : Recorded events s) {event : Call × Answer}
    (h : Step s event t) : Recorded (events ++ [event]) t := by
  have hquiet (hnone : deliveries [event] = []) {v : State} (hv : Recorded events v) :
      Recorded (events ++ [event]) v := by
    have hsame : deliveries (events ++ [event]) = deliveries events := by
      rw [deliveries_append, hnone, List.append_nil]
    constructor
    · rw [hsame]
      exact hv.known
    · rw [hsame]
      exact hv.counted
  cases step_effect hs h with
  | settle hsettling hdrained hnone =>
    exact hquiet hnone (hr.settling hsettling)
  | enqueue command hid hgeneration hqueued hcount ht hnone =>
    subst ht
    exact hquiet hnone (hr.enqueue hid)
  | deliver u c locks expiryNow now order capabilities hevent hsettling hdrained hdeliverable ht =>
    subst ht
    have hu := hs.settling hsettling hdrained
    refine (hr.settling hsettling).deliver hu hdeliverable ?_
    rw [hevent]
    rfl

theorem Installed.inv (h : Installed s) : Inv s where
  ids := h.ids
  delivered := h.delivered
  deliveryCount c hc := absurd (mem_current.mp hc).2 (h.current c (mem_current.mp hc).1)
  drained hpending := by
    obtain ⟨c, hc, hgen, -⟩ := hasPending_iff.mp hpending
    exact absurd hgen (h.current c hc)

theorem Installed.recorded (h : Installed s) : Recorded [] s where
  known _ hd := absurd hd List.not_mem_nil
  counted c hc := absurd (mem_current.mp hc).2 (h.current c (mem_current.mp hc).1)

theorem runs_recorded (hs : Installed s) (h : Runs Step s events t) :
    Inv t ∧ Recorded events t := by
  induction h with
  | stay => exact ⟨hs.inv, hs.recorded⟩
  | next _ hstep ih => exact ⟨ih.1.step hstep, ih.2.step ih.1 hstep⟩

theorem Inv.step_settled (hs : Inv s) {event : Call × Answer} (h : Step s event t)
    (hc : c ∈ s.commands) (hsettled : c.status.isSettled) : c ∈ t.commands := by
  have hstays {v : State} (hv : Settling s v) : c ∈ v.commands := by
    obtain ⟨c', hc', rfl | hsettle⟩ := hv.target hc
    · exact hc'
    · exact absurd hsettled (OracleWorkerCommandStatus.not_settled_of_pending hsettle.1)
  cases step_effect hs h with
  | settle hsettling => exact hstays hsettling
  | enqueue command hid hgeneration hqueued hcount ht =>
    subst ht
    exact List.mem_append_left _ hc
  | deliver u d locks expiryNow now order capabilities hevent hsettling hdrained hdeliverable ht =>
    subst ht
    have hu := hs.settling hsettling hdrained
    have hd := (mem_current.mp hdeliverable.mem).1
    refine (hu.mem_updateOne hd).mpr (.inl ⟨hstays hsettling, fun hid => ?_⟩)
    rw [hu.eq_of_id (hstays hsettling) hd hid] at hsettled
    rcases hdeliverable.status with hstatus | ⟨hstatus, -⟩
    · rw [hstatus] at hsettled
      cases hsettled
    · rw [hstatus] at hsettled
      cases hsettled

theorem Inv.runs_settled (hs : Inv s) (h : Runs Step s events t) (hc : c ∈ s.commands)
    (hsettled : c.status.isSettled) : Inv t ∧ c ∈ t.commands := by
  induction h with
  | stay => exact ⟨hs, hc⟩
  | next _ hstep ih => exact ⟨ih.1.step hstep, ih.1.step_settled hstep ih.2 hsettled⟩

/-! ### Reports of settled commands -/

/-- The worker does what it is to do after the command, or has commands to wait for. -/
def OutcomeStands (c : OracleWorkerCommand) (s : State) : Prop :=
  (∃ c ∈ s.current, c.status.isPending) ∨
    (s.worker.desiredState = .draining ↔ c.kind = .drain ∧ c.status = .succeeded ∨
      c.kind = .resume ∧ (c.status = .failed ∨ c.status = .expired))

theorem settledState_eq_draining (kind : OracleWorkerCommandKind)
    (status : OracleWorkerCommandStatus) : settledState kind status = .draining ↔
      kind = .drain ∧ status = .succeeded ∨
        kind = .resume ∧ (status = .failed ∨ status = .expired) := by
  cases kind <;> cases status <;> decide

theorem desiredState_eq_iff {a b : OracleWorkerDesiredState} :
    a = b ↔ (a = .draining ↔ b = .draining) := by
  cases a <;> cases b <;> decide

theorem exists_pending_iff :
    (∃ c ∈ s.current, c.status.isPending) ↔ s.hasPending s.worker.generation := by
  rw [hasPending_iff]
  constructor
  · rintro ⟨c, hc, hpending⟩
    exact ⟨c, (mem_current.mp hc).1, (mem_current.mp hc).2, hpending⟩
  · rintro ⟨c, hc, hgen, hpending⟩
    exact ⟨c, mem_current.mpr ⟨hc, hgen⟩, hpending⟩

theorem Inv.settled_report (hs : Inv s) (hc : c ∈ s.current) (hsettled : c.status.isSettled)
    {now : ℤ} {report : CommandReport} (hid : report.commandId = c.id)
    (h : applyCommandReport now report s = .ok t) :
    t.commands = s.commands ∧
      (t.worker.desiredState = s.worker.desiredState ↔ OutcomeStands c s) := by
  obtain ⟨hmem, hgen⟩ := mem_current.mp hc
  unfold applyCommandReport at h
  obtain ⟨-, -, h⟩ := bind_eq_ok.mp h
  obtain ⟨resultCode, -, h⟩ := bind_eq_ok.mp h
  cases hfind : s.current.find? fun c => c.id = report.commandId with
  | none => exact absurd (decide_eq_true hid.symm) (List.find?_eq_none.mp hfind c hc)
  | some existing =>
    obtain ⟨hexisting, -, hid'⟩ := of_find_current hfind
    have heq : existing = c := hs.eq_of_id hexisting hmem (hid'.trans hid)
    subst heq
    rw [hfind] at h
    dsimp only at h
    rw [if_pos hsettled] at h
    cases h
    unfold reconcileDesiredState
    rw [if_pos hgen.symm, hgen]
    refine ⟨rfl, ?_⟩
    unfold OutcomeStands
    rw [exists_pending_iff]
    show (if s.hasPending s.worker.generation then _ else _) = s.worker.desiredState ↔ _
    by_cases hpending : s.hasPending s.worker.generation
    · rw [if_pos hpending]
      exact ⟨fun _ => .inl hpending, fun _ => (hs.drained hpending).symm⟩
    · rw [if_neg hpending, ← settledState_eq_draining, ← desiredState_eq_iff, eq_comm]
      exact ⟨.inr, fun h => h.resolve_left hpending⟩

theorem commands_settled_in_turn {start : State} (hstart : Installed start)
    (h : Runs Step start events s) :
    (∀ c ∈ s.commands, ∀ c' ∈ s.commands, c.status = .delivered → c'.status = .delivered →
      c = c') ∧
    (∀ id, (deliveries events).countP (·.id = id) ≤ 10) ∧
    (∀ locks expiryNow now order capabilities c t,
      Step s (.deliver locks expiryNow now order capabilities, .delivered (some c)) t →
      now < c.deadlineAt ∧ ∀ d ∈ deliveries events, d.id = c.id →
        ∀ lease, d.deliveryLeaseExpiresAt = some lease → lease ≤ now) ∧
    (∀ later t, Runs Step s later t → ∀ c ∈ s.commands, c.status.isSettled →
      c ∈ t.commands ∧ ∀ c' ∈ t.commands, c'.id = c.id → c' = c) ∧
    ((∃ c ∈ s.current, c.status.isPending) → s.worker.desiredState = .draining) ∧
    ∀ reports t, applyReports reports s = .ok t → ∀ c ∈ t.current, c.status.isSettled →
      ∀ now report u, report.commandId = c.id → applyCommandReport now report t = .ok u →
      u.commands = t.commands ∧
        (u.worker.desiredState = t.worker.desiredState ↔ OutcomeStands c t) := by
  obtain ⟨hs, hr⟩ := runs_recorded hstart h
  refine ⟨hs.delivered, hr.limit hs, ?_, ?_, ?_, ?_⟩
  · intro locks expiryNow now order capabilities c t hstep
    cases step_effect hs hstep with
    | settle _ _ hnone => cases hnone
    | enqueue _ _ _ _ _ _ hnone => cases hnone
    | deliver u d _ _ _ _ _ hevent hsettling hdrained hdeliverable =>
      cases hevent
      refine ⟨hdeliverable.deadline, fun e he hid lease hlease => ?_⟩
      exact (hr.settling hsettling).lease_over (hs.settling hsettling hdrained) hdeliverable he hid
        hlease
  · intro later t hlater c hc hsettled
    obtain ⟨ht, hmem⟩ := hs.runs_settled hlater hc hsettled
    exact ⟨hmem, fun c' hc' hid => ht.eq_of_id hc' hmem hid⟩
  · intro hpending
    exact hs.drained (exists_pending_iff.mp hpending)
  · intro reports t hreports c hc hsettled now report u hid happly
    obtain ⟨hsettling, hdrained⟩ := hs.reports hreports
    exact (hs.settling hsettling hdrained).settled_report hc hsettled hid happly

/-! ### A drain that is reported twice -/

def freeLocks : Locks := ⟨.ok (), .ok ()⟩

def newlyInstalled : State := ⟨⟨"press", some "first", false, ["commands_v1"], .active⟩, []⟩

def enqueueCall (commandId : String) (now : ℤ) (kind : OracleWorkerCommandKind) : Call :=
  .enqueue freeLocks commandId now "owner" ⟨kind, none⟩

def deliverCall (now : ℤ) : Call := .deliver freeLocks now now (fun _ => 0) ["commands_v1"]

def reportCall (commandId : String) (now : ℤ) : Call :=
  .report freeLocks [(⟨commandId, true, none⟩, now)]

theorem newlyInstalled_installed : Installed newlyInstalled where
  current _ hc := absurd hc List.not_mem_nil
  ids := List.nodup_nil
  delivered _ hc := absurd hc List.not_mem_nil

theorem drain_delivered : ∃ events s, Runs Step newlyInstalled events s ∧
    (deliveries events).countP (·.id = "drain") = 1 ∧
    (deliveries events).countP (·.id = "drain") ≤ 10 := by
  have hrun : ∃ events s, Runs Step newlyInstalled events s ∧
      (deliveries events).countP (·.id = "drain") = 1 :=
    ⟨_, _, .next (e := (deliverCall 1, _))
      (.next (e := (enqueueCall "drain" 0 .drain, _)) .stay rfl) rfl, by decide⟩
  obtain ⟨events, s, hrun, hone⟩ := hrun
  have hlaw := commands_settled_in_turn newlyInstalled_installed hrun
  exact ⟨events, s, hrun, hone, hlaw.2.1 "drain"⟩

/-- The worker drained and was resumed; the report of the drain comes once more. -/
theorem stale_report_drains : ∃ events s, Runs Step newlyInstalled events s ∧
    ∃ c ∈ s.current, c.status.isSettled ∧
      ∃ t, applyCommandReport 6 ⟨c.id, true, none⟩ s = .ok t ∧
        s.worker.desiredState = .active ∧ t.worker.desiredState = .draining := by
  refine ⟨_, _, .next (e := (reportCall "resume" 5, _))
    (.next (e := (deliverCall 4, _))
    (.next (e := (enqueueCall "resume" 3 .resume, _))
    (.next (e := (reportCall "drain" 2, _))
    (.next (e := (deliverCall 1, _))
    (.next (e := (enqueueCall "drain" 0 .drain, _)) .stay rfl) rfl) rfl) rfl) rfl) rfl,
    _, List.mem_cons_self, rfl, _, rfl, rfl, rfl⟩

end NyxId.WorkerCommands
