import NyxId.TurnStops.Model

/-!
A stopped turn stays stopped. Receivers that were handed out read stopped, other turns are left
alone, and a scope is refused only when too many are held; but a stop of an unknown scope that
comes while too many are held is forgotten, and calls of the turn are admitted when room comes free.
-/

namespace NyxId.TurnStops

open Turns

def tenMinutes : ℕ := seconds 600

def oneDay : ℕ := seconds 86400

/-- A subscription would be given a receiver that reads stopped. -/
def ReturnsStopped (turns : Turns) (now : ℕ) (scope : Scope) : Prop :=
  (turns.subscribe now scope).2.reads (turns.subscribe now scope).1

/-- The call that stops a turn. -/
def stopping (instant : ℕ) (scope : Scope) : Event := ⟨instant, .stop (some scope)⟩

def subscribing (instant : ℕ) (scope : Scope) : Event := ⟨instant, .subscribe scope⟩

/-- A stopped turn stays stopped, and nothing else is. -/
structure StaysStopped (history : List Event) : Prop where
  receivers : ∀ before after t s, history = before ++ stopping t s :: after → s.turnId ≠ "" →
    ∀ h ∈ (run before).2, h.scope = s → t ≤ h.instant + oneDay → (run history).1.reads h.receiver
  calls : ∀ before middle after t t' s,
    history = before ++ stopping t s :: (middle ++ subscribing t' s :: after) → s.turnId ≠ "" →
    t' ≤ t + tenMinutes → ReturnsStopped (run (before ++ stopping t s :: middle)).1 t' s
  others : ∀ before after t s, history = before ++ stopping t s :: after →
    ∀ h ∈ (run before).2, h.scope.conversationId ≠ s.conversationId ∨
        s.turnId ≠ "" ∧ h.scope.turnId ≠ s.turnId →
      ((run before).1.stop t (some s)).reads h.receiver = (run before).1.reads h.receiver
  refusals : ∀ before after t s, history = before ++ subscribing t s :: after → ¬ Covered before s →
    ReturnsStopped (run before).1 t s → (run before).1.full t

/-- A call finds its scope unknown, and room. -/
def Admits (before : List Event) (t : ℕ) (s : Scope) : Prop :=
  ¬ (run before).1.full t ∧ ¬ (run before).1.held t s

/-- A stop finds its scope unknown and the table full, and within ten minutes a call of the turn
finds room. -/
def LosesStop (history : List Event) : Prop :=
  ∃ before middle after t t' s,
    history = before ++ stopping t s :: (middle ++ subscribing t' s :: after) ∧ s.turnId ≠ "" ∧
    t' ≤ t + tenMinutes ∧ ((run before).1.full t ∧ ¬ (run before).1.held t s) ∧
    Admits (before ++ stopping t s :: middle) t' s

section Steps

variable {turns : Turns} {handed : List Handed} {past : List Event} {now later t : ℕ}
variable {s scope : Scope} {receiver : ℕ} {event : Event} {target : Option Scope}

/-! ### Channels keep their value -/

theorem reads_of_subscribe (hopened : receiver < turns.channels.length) :
    (turns.subscribe now scope).2.reads receiver = turns.reads receiver := by
  obtain ⟨-, -, heq⟩ | ⟨e, -, heq⟩ | ⟨-, -, heq⟩ := subscribe_cases turns now scope
  · rw [heq]
    exact reads_append true hopened
  · rw [heq]
    rfl
  · rw [heq]
    exact reads_append false hopened

theorem opened_subscribe (hopened : receiver < turns.channels.length) :
    receiver < (turns.subscribe now scope).2.channels.length := by
  obtain ⟨-, -, heq⟩ | ⟨e, -, heq⟩ | ⟨-, -, heq⟩ := subscribe_cases turns now scope
  · rw [heq]
    simp only [List.length_append]
    omega
  · rw [heq]
    exact hopened
  · rw [heq]
    simp only [List.length_append]
    omega

theorem reads_stop (hopened : receiver < turns.channels.length) (h : turns.reads receiver) :
    (turns.stop now target).reads receiver := by
  unfold Turns.stop
  cases target with
  | none => exact (reads_sendStop hopened).mpr (.inl h)
  | some k =>
    apply (reads_sendStop (opened_subscribe hopened)).mpr
    rw [reads_of_subscribe hopened]
    exact .inl h

/-- What reads stopped does so after any call. -/
theorem reads_step {state : Turns × List Handed} (hopened : receiver < state.1.channels.length)
    (h : state.1.reads receiver) :
    (step state event).1.reads receiver ∧ receiver < (step state event).1.channels.length := by
  obtain ⟨instant, call⟩ := event
  cases call with
  | subscribe k => exact ⟨(reads_of_subscribe hopened).trans h, opened_subscribe hopened⟩
  | stop target =>
    refine ⟨reads_stop hopened h, ?_⟩
    show receiver < (state.1.stop instant target).channels.length
    unfold Turns.stop
    cases target <;> simp only [sendStop, List.length_mapIdx]
    · exact hopened
    · exact opened_subscribe hopened

theorem reads_run {before : List Event} (rest : List Event)
    (hopened : receiver < (run before).1.channels.length) (h : (run before).1.reads receiver) :
    (run (before ++ rest)).1.reads receiver ∧ receiver < (run (before ++ rest)).1.channels.length := by
  induction rest using List.reverseRecOn with
  | nil =>
    rw [List.append_nil]
    exact ⟨h, hopened⟩
  | append_singleton rest event ih =>
    rw [← List.append_assoc, run_concat]
    exact reads_step ih.2 ih.1

/-! ### A scope that is held and stopped -/

/-- The scope is held since some instant and its channel reads stopped. -/
def Fenced (turns : Turns) (t : ℕ) (s : Scope) : Prop :=
  ∃ e, (s, e) ∈ turns.entries ∧ turns.reads e.stop ∧ t ≤ e.touched

theorem covers_self (s : Scope) : covers (some s) s := by simp [covers]

/-- A scope that is used is kept. -/
theorem mem_unexpired {e : Entry} (hmem : (s, e) ∈ turns.entries) (htouched : t ≤ e.touched)
    (hlt : now < t + retention) : (s, e) ∈ turns.unexpired now := by
  refine List.mem_filter.mpr ⟨hmem, ?_⟩
  have hpos : 0 < retention := by decide
  rw [decide_eq_true_eq]
  omega

theorem Fenced.subscribe (h : Consistent turns handed now past) (hle : now ≤ later)
    (hfenced : Fenced turns t s) (hlt : later < t + retention) :
    Fenced (turns.subscribe later scope).2 t s := by
  obtain ⟨e, hmem, hreads, htouched⟩ := hfenced
  have hkept := mem_unexpired hmem htouched hlt
  have hbefore : e.touched ≤ later := Nat.le_trans (h.touched _ hmem) hle
  have hreads' : (turns.subscribe later scope).2.reads e.stop :=
    (reads_of_subscribe (h.opened _ hmem)).trans hreads
  obtain ⟨-, -, heq⟩ | ⟨other, -, heq⟩ | ⟨-, -, heq⟩ := subscribe_cases turns later scope
  · rw [heq] at hreads' ⊢
    exact ⟨e, hkept, hreads', htouched⟩
  · rw [heq] at hreads' ⊢
    have hused : (s, if s = scope then { e with touched := later } else e) ∈
        touch later (fun key => key = scope) (turns.unexpired later) :=
      mem_touch.mpr ⟨e, hkept, by simp⟩
    refine ⟨_, hused, ?_, ?_⟩
    · split <;> exact hreads'
    · split
      · exact Nat.le_trans htouched hbefore
      · exact htouched
  · rw [heq] at hreads' ⊢
    exact ⟨e, List.mem_cons_of_mem _ hkept, hreads', htouched⟩

theorem Fenced.sendStop (h : Consistent turns handed now past) (hfenced : Fenced turns t s) :
    Fenced (turns.sendStop now target) t s := by
  obtain ⟨e, hmem, hreads, htouched⟩ := hfenced
  have hbefore : e.touched ≤ now := h.touched _ hmem
  have hreads' := (@reads_sendStop _ now target _ (h.opened _ hmem)).mpr (.inl hreads)
  refine ⟨if covers target s then { e with touched := now } else e,
    mem_touch.mpr ⟨e, hmem, rfl⟩, ?_, ?_⟩
  · split <;> exact hreads'
  · split
    · exact Nat.le_trans htouched hbefore
    · exact htouched

theorem fenced_step {history : List Event} (horder : InOrder (history ++ [event]))
    (hfenced : Fenced (run history).1 t s) (hlt : event.instant < t + retention) :
    Fenced (run (history ++ [event])).1 t s := by
  have hle := clock_le horder
  have hbefore := run_consistent (List.pairwise_append.mp horder).1
  rw [run_concat]
  obtain ⟨instant, call⟩ := event
  cases call with
  | subscribe k => exact hfenced.subscribe hbefore hle hlt
  | stop target =>
    show Fenced ((run history).1.stop instant target) t s
    unfold Turns.stop
    cases target with
    | none => exact hfenced.sendStop (hbefore.at hle)
    | some k => exact (hfenced.subscribe hbefore hle hlt).sendStop (hbefore.subscribe hle k)

/-- A stop that finds its scope, or room for it, holds it stopped. -/
theorem fenced_of_stop (h : Consistent turns handed now past) (hle : now ≤ later)
    (hroom : turns.held later s ∨ ¬ turns.full later) :
    Fenced (turns.stop later (some s)) later s := by
  have hafter := h.subscribe hle s
  have hin : ∃ e, (s, e) ∈ (turns.subscribe later s).2.entries := by
    obtain ⟨hfull, hheld, -⟩ | ⟨e, hmem, heq⟩ | ⟨-, -, heq⟩ := subscribe_cases turns later s
    · exact absurd hroom (by simp [hfull, hheld])
    · rw [heq]
      exact ⟨_, mem_touch_self hmem⟩
    · rw [heq]
      exact ⟨_, List.mem_cons_self⟩
  obtain ⟨e, hmem⟩ := hin
  have hreads := (@reads_sendStop _ later (some s) _ (hafter.opened _ hmem)).mpr
    (.inr ⟨_, hmem, covers_self s, rfl⟩)
  have hused : (s, { e with touched := later }) ∈
      touch later (covers (some s)) (turns.subscribe later s).2.entries :=
    mem_touch.mpr ⟨e, hmem, by rw [if_pos (covers_self s)]⟩
  exact ⟨_, hused, hreads, Nat.le_refl later⟩

/-- A scope that is held stopped gives receivers that read stopped. -/
theorem Fenced.returns (h : Consistent turns handed now past) (hle : now ≤ later)
    (hfenced : Fenced turns t s) (hlt : later < t + retention) : ReturnsStopped turns later s := by
  obtain ⟨e, hmem, hreads, htouched⟩ := hfenced
  have hkept := mem_unexpired hmem htouched hlt
  have hheld : turns.held later s := held_iff.mpr ⟨e, hkept⟩
  unfold ReturnsStopped
  obtain ⟨-, hfree, -⟩ | ⟨other, hother, heq⟩ | ⟨-, hfree, -⟩ := subscribe_cases turns later s
  · exact absurd hheld hfree
  · have hsame := List.inj_on_of_nodup_map (h.expire hle).keys hother hkept rfl
    rw [heq]
    show turns.reads other.stop
    rw [(Prod.mk.inj hsame).2]
    exact hreads
  · exact absurd hheld hfree

/-! ### A scope that is not held -/

theorem not_mem_sendStop (h : ∀ e, (s, e) ∉ turns.entries) :
    ∀ e, (s, e) ∉ (turns.sendStop now target).entries := by
  intro e hmem
  obtain ⟨other, hother, -⟩ := mem_touch.mp hmem
  exact h other hother

/-- A stop that finds neither its scope nor room does not hold it. -/
theorem not_mem_of_lost (hfull : turns.full now) (hfree : ¬ turns.held now s) :
    ∀ e, (s, e) ∉ (turns.stop now (some s)).entries := by
  apply not_mem_sendStop
  intro e hmem
  obtain ⟨-, -, heq⟩ | ⟨other, hother, -⟩ | ⟨hroom, -, -⟩ := subscribe_cases turns now s
  · rw [heq] at hmem
    exact hfree (held_iff.mpr ⟨e, hmem⟩)
  · exact hfree (held_iff.mpr ⟨other, hother⟩)
  · exact hroom hfull

theorem not_held (h : ∀ e, (s, e) ∉ turns.entries) : ¬ turns.held now s := by
  intro hheld
  obtain ⟨e, hmem⟩ := held_iff.mp hheld
  exact h e (List.mem_of_mem_filter hmem)

theorem not_mem_subscribe (h : ∀ e, (s, e) ∉ turns.entries) (hother : s ≠ scope ∨ turns.full now) :
    ∀ e, (s, e) ∉ (turns.subscribe now scope).2.entries := by
  intro e hmem
  obtain ⟨-, -, heq⟩ | ⟨other, -, heq⟩ | ⟨hroom, -, heq⟩ := subscribe_cases turns now scope
  · rw [heq] at hmem
    exact h e (List.mem_of_mem_filter hmem)
  · rw [heq] at hmem
    replace hmem : (s, e) ∈ touch now (fun key => key = scope) (turns.unexpired now) := hmem
    obtain ⟨before, hbefore, -⟩ := mem_touch.mp hmem
    exact h before (List.mem_of_mem_filter hbefore)
  · rw [heq] at hmem
    obtain hnew | hold := List.mem_cons.mp hmem
    · exact hother.elim (fun hne => hne (Prod.mk.inj hnew).1) hroom
    · exact h e (List.mem_of_mem_filter hold)

/-- With room a scope that is not held gets a live receiver. -/
theorem returns_live (hroom : ¬ turns.full now) (hfree : ¬ turns.held now s) :
    ¬ ReturnsStopped turns now s := by
  unfold ReturnsStopped
  obtain ⟨hfull, -, -⟩ | ⟨e, hmem, -⟩ | ⟨-, -, heq⟩ := subscribe_cases turns now s
  · exact absurd hfull hroom
  · exact absurd (held_iff.mpr ⟨e, hmem⟩) hfree
  · rw [heq]
    simp [reads_opened]

end Steps

/-! ### Runs -/

section Runs

variable {history before middle after : List Event} {event : Event} {t t' : ℕ} {s : Scope}

theorem InOrder.prefix (h : InOrder (before ++ after)) : InOrder before :=
  (List.pairwise_append.mp h).1

theorem InOrder.le (h : InOrder (before ++ event :: after)) : clock before ≤ event.instant := by
  rw [List.append_cons] at h
  exact clock_le h.prefix

/-- A stop that is recorded fences its scope as long as it is kept. -/
theorem fenced_run (horder : InOrder (before ++ stopping t s :: middle))
    (hroom : (run before).1.held t s ∨ ¬ (run before).1.full t)
    (hlt : ∀ event ∈ middle, event.instant < t + retention) :
    Fenced (run (before ++ stopping t s :: middle)).1 t s := by
  induction middle using List.reverseRecOn with
  | nil =>
    rw [run_concat]
    exact fenced_of_stop (run_consistent horder.prefix) horder.le hroom
  | append_singleton middle event ih =>
    have hsplit : before ++ stopping t s :: (middle ++ [event]) =
        (before ++ stopping t s :: middle) ++ [event] := by simp
    rw [hsplit] at horder ⊢
    apply fenced_step horder
    · exact ih horder.prefix fun event hevent => hlt event (List.mem_append_left _ hevent)
    · exact hlt event (List.mem_append_right _ (List.mem_singleton_self event))

/-- After one call a scope that was not held still is not, or is stopped, or a call of it was
admitted. -/
theorem free_step (horder : InOrder (history ++ [event]))
    (hfree : ∀ e, (s, e) ∉ (run history).1.entries) :
    (∀ e, (s, e) ∉ (run (history ++ [event])).1.entries) ∨
      Fenced (run (history ++ [event])).1 event.instant s ∨
      (event = subscribing event.instant s ∧ Admits history event.instant s) := by
  have hle := clock_le horder
  have hbefore := run_consistent horder.prefix
  rw [run_concat]
  obtain ⟨instant, call⟩ := event
  cases call with
  | subscribe k =>
    by_cases hother : s ≠ k ∨ (run history).1.full instant
    · exact .inl (not_mem_subscribe hfree hother)
    · push Not at hother
      obtain ⟨rfl, hroom⟩ := hother
      exact .inr (.inr ⟨rfl, by simpa using hroom, not_held hfree⟩)
  | stop target =>
    cases target with
    | none => exact .inl (not_mem_sendStop hfree)
    | some k =>
      by_cases hother : s ≠ k ∨ (run history).1.full instant
      · exact .inl (not_mem_sendStop (not_mem_subscribe hfree hother))
      · push Not at hother
        obtain ⟨rfl, hroom⟩ := hother
        exact .inr (.inl (fenced_of_stop hbefore hle (.inr hroom)))

theorem Fenced.mono {turns : Turns} (h : Fenced turns t' s) (hle : t ≤ t') : Fenced turns t s := by
  obtain ⟨e, hmem, hreads, htouched⟩ := h
  exact ⟨e, hmem, hreads, Nat.le_trans hle htouched⟩

/-- After a stop that was lost, the scope is not held, or stopped later, or was admitted. -/
theorem lost_run (horder : InOrder (before ++ stopping t s :: middle))
    (hfull : (run before).1.full t) (hfree : ¬ (run before).1.held t s)
    (hlt : ∀ event ∈ middle, event.instant < t + retention) :
    (∀ e, (s, e) ∉ (run (before ++ stopping t s :: middle)).1.entries) ∨
      Fenced (run (before ++ stopping t s :: middle)).1 t s ∨
      ∃ first t' rest, middle = first ++ subscribing t' s :: rest ∧
        Admits (before ++ stopping t s :: first) t' s := by
  induction middle using List.reverseRecOn with
  | nil =>
    rw [run_concat]
    exact .inl (not_mem_of_lost hfull hfree)
  | append_singleton middle event ih =>
    have hsplit : before ++ stopping t s :: (middle ++ [event]) =
        (before ++ stopping t s :: middle) ++ [event] := by simp
    rw [hsplit] at horder ⊢
    have hevent := hlt event (List.mem_append_right _ (List.mem_singleton_self event))
    have hlater : t ≤ event.instant :=
      (List.pairwise_append.mp horder).2.2 (stopping t s)
        (List.mem_append_right _ List.mem_cons_self) event (List.mem_singleton_self event)
    obtain hunheld | hfenced | ⟨first, t', rest, heq, hadmits⟩ :=
      ih horder.prefix fun event hevent => hlt event (List.mem_append_left _ hevent)
    · obtain hunheld | hfenced | ⟨heq, hadmits⟩ := free_step horder hunheld
      · exact .inl hunheld
      · exact .inr (.inl (hfenced.mono hlater))
      · exact .inr (.inr ⟨middle, event.instant, [], by rw [← heq], hadmits⟩)
    · exact .inr (.inl (fenced_step horder hfenced hevent))
    · exact .inr (.inr ⟨first, t', rest ++ [event], by rw [heq]; simp, hadmits⟩)

/-! ### The parts of the law -/

/-- A stop sends its value to the receivers of a scope that has not expired. -/
theorem stop_reads {turns : Turns} {handed : List Handed} {past : List Event} {now later : ℕ}
    {e : Entry} (h : Consistent turns handed now past) (hmem : (s, e) ∈ turns.entries)
    (hlt : later < e.touched + retention) : (turns.stop later (some s)).reads e.stop := by
  have hkept := mem_unexpired hmem (Nat.le_refl e.touched) hlt
  have hheld : turns.held later s := held_iff.mpr ⟨e, hkept⟩
  have hopened := @opened_subscribe _ later s _ (h.opened _ hmem)
  refine (reads_sendStop hopened).mpr (.inr ?_)
  obtain ⟨-, hfree, -⟩ | ⟨other, hother, heq⟩ | ⟨-, hfree, -⟩ := subscribe_cases turns later s
  · exact absurd hheld hfree
  · rw [heq]
    exact ⟨_, mem_touch_self hkept, covers_self s, rfl⟩
  · exact absurd hheld hfree

theorem receivers_stopped (horder : InOrder (before ++ stopping t s :: after)) {h : Handed}
    (hmem : h ∈ (run before).2) (hscope : h.scope = s) (hday : t ≤ h.instant + oneDay) :
    (run (before ++ stopping t s :: after)).1.reads h.receiver := by
  have hbefore := run_consistent horder.prefix
  have hle : clock before ≤ t := horder.le
  have hkept : oneDay < retention := by decide
  have hopened := hbefore.receivers h hmem
  rw [List.append_cons]
  have hafter : (run (before ++ [stopping t s])).1.reads h.receiver ∧
      h.receiver < (run (before ++ [stopping t s])).1.channels.length := by
    rw [run_concat]
    obtain hreads | hexpired | ⟨e, hheld, hstop, htouched⟩ := hbefore.live h hmem
    · exact reads_step hopened hreads
    · omega
    · rw [hscope] at hheld
      have hreads := stop_reads hbefore hheld (show t < e.touched + retention by omega)
      rw [hstop] at hreads
      refine ⟨hreads, ?_⟩
      have hlength := @opened_subscribe _ t s _ hopened
      simpa [step, stopping, Turns.stop, sendStop] using hlength
  exact (reads_run after hafter.2 hafter.1).1

theorem others_kept (horder : InOrder (before ++ stopping t s :: after)) {h : Handed}
    (hmem : h ∈ (run before).2) (hother : ¬ covers (some s) h.scope) :
    ((run before).1.stop t (some s)).reads h.receiver = (run before).1.reads h.receiver := by
  have hbefore := run_consistent horder.prefix
  have hafter := hbefore.subscribe horder.le s
  have hopened := hbefore.receivers h hmem
  rw [Bool.eq_iff_iff]
  refine (reads_sendStop (opened_subscribe hopened)).trans ?_
  rw [reads_of_subscribe hopened, or_iff_left_iff_imp]
  intro ⟨p, hp, hcovers, hsame⟩
  rw [hafter.owned h hmem p hp hsame] at hcovers
  exact absurd hcovers hother

theorem refused_full (horder : InOrder (before ++ subscribing t s :: after))
    (huncovered : ¬ Covered before s) (hstopped : ReturnsStopped (run before).1 t s) :
    (run before).1.full t := by
  have hbefore := run_consistent horder.prefix
  unfold ReturnsStopped at hstopped
  obtain ⟨hfull, -, -⟩ | ⟨e, hmem, heq⟩ | ⟨hroom, hfree, -⟩ := subscribe_cases (run before).1 t s
  · exact hfull
  · rw [heq] at hstopped
    exact absurd (hbefore.covered _ (List.mem_of_mem_filter hmem) hstopped) huncovered
  · exact absurd hstopped (returns_live hroom hfree)

theorem instant_le {rest : List Event} (horder : InOrder (before ++ event :: (middle ++ rest)))
    {later : Event} (hlater : later ∈ rest) : ∀ other ∈ middle, other.instant ≤ later.instant := by
  intro other hother
  have htail := (List.pairwise_append.mp horder).2.1
  have hrest := (List.pairwise_cons.mp htail).2
  exact (List.pairwise_append.mp hrest).2.2 other hother later hlater

/-- Calls of a stopped turn are refused exactly when no stop is lost. -/
theorem calls_stopped_iff (horder : InOrder history) :
    (∀ before middle after t t' s,
      history = before ++ stopping t s :: (middle ++ subscribing t' s :: after) → s.turnId ≠ "" →
      t' ≤ t + tenMinutes → ReturnsStopped (run (before ++ stopping t s :: middle)).1 t' s) ↔
    ¬ LosesStop history := by
  constructor
  · intro hcalls ⟨before, middle, after, t, t', s, heq, hturn, hsoon, _, hroom, hfree⟩
    exact returns_live hroom hfree (hcalls before middle after t t' s heq hturn hsoon)
  · intro hkeeps before middle after t t' s heq hturn hsoon
    rw [heq] at horder
    have hmiddle := instant_le horder List.mem_cons_self
    have hshort : tenMinutes < retention := by decide
    have hsplit : before ++ stopping t s :: (middle ++ subscribing t' s :: after) =
        (before ++ stopping t s :: middle) ++ subscribing t' s :: after := by simp
    rw [hsplit] at horder
    have hle : clock (before ++ stopping t s :: middle) ≤ t' := horder.le
    have hconsistent := run_consistent horder.prefix
    have hlt : ∀ event ∈ middle, event.instant < t + retention := by
      intro event hevent
      have hbound : event.instant ≤ t' := hmiddle event hevent
      omega
    by_contra hlive
    by_cases hroom : (run before).1.held t s ∨ ¬ (run before).1.full t
    · exact hlive ((fenced_run horder.prefix hroom hlt).returns hconsistent hle (by omega))
    · push Not at hroom
      obtain ⟨hfree, hfull⟩ := hroom
      obtain hunheld | hfenced | ⟨first, u, rest, hmid, hadmits⟩ :=
        lost_run horder.prefix hfull (by simpa using hfree) hlt
      · apply hkeeps
        have hadmits : Admits (before ++ stopping t s :: middle) t' s := by
          refine ⟨fun hfull' => hlive ?_, not_held hunheld⟩
          obtain ⟨-, -, hrefused⟩ | ⟨e, hmem, -⟩ | ⟨hroom', -, -⟩ :=
            subscribe_cases (run (before ++ stopping t s :: middle)).1 t' s
          · rw [ReturnsStopped, hrefused]
            exact reads_opened true
          · exact absurd (List.mem_of_mem_filter hmem) (hunheld e)
          · exact absurd hfull' hroom'
        exact ⟨before, middle, after, t, t', s, heq, hturn, hsoon, ⟨hfull, by simpa using hfree⟩,
          hadmits⟩
      · exact hlive (hfenced.returns hconsistent hle (by omega))
      · apply hkeeps
        have hbound : u ≤ t' := hmiddle (subscribing u s) (by rw [hmid]; simp)
        refine ⟨before, first, rest ++ subscribing t' s :: after, t, u, s, ?_, hturn, by omega,
          ⟨hfull, by simpa using hfree⟩, hadmits⟩
        rw [heq, hmid]
        simp

end Runs

/-- A call adds at most one scope. -/
theorem length_step (state : Turns × List Handed) (event : Event) :
    (step state event).1.entries.length ≤ state.1.entries.length + 1 := by
  have hsubscribe : ∀ now scope, (state.1.subscribe now scope).2.entries.length ≤
      state.1.entries.length + 1 := by
    intro now scope
    have hkept : (state.1.unexpired now).length ≤ state.1.entries.length := List.length_filter_le _ _
    obtain ⟨-, -, heq⟩ | ⟨e, -, heq⟩ | ⟨-, -, heq⟩ := subscribe_cases state.1 now scope
    · rw [heq]
      exact Nat.le_succ_of_le hkept
    · rw [heq]
      simp only [touch, List.length_map]
      omega
    · rw [heq]
      simp only [List.length_cons]
      omega
  obtain ⟨instant, call⟩ := event
  cases call with
  | subscribe scope => exact hsubscribe instant scope
  | stop target =>
    cases target with
    | none => simp [step, Turns.stop, sendStop, touch]
    | some scope => simpa [step, Turns.stop, sendStop, touch] using hsubscribe instant scope

theorem not_full_of_short {history : List Event} {now : ℕ} (hshort : history.length < capacity) :
    ¬ (run history).1.full now := by
  have hlength : (run history).1.entries.length ≤ history.length := by
    clear hshort
    induction history using List.reverseRecOn with
    | nil => exact Nat.le_refl 0
    | append_singleton history event ih =>
      have hstep := length_step (run history) event
      rw [run_concat, List.length_append, List.length_singleton]
      omega
  have hkept : ((run history).1.unexpired now).length ≤ (run history).1.entries.length :=
    List.length_filter_le _ _
  simp only [full, ge_iff_le, decide_eq_true_eq]
  omega

/-! ### The law -/

/-- In any run of calls a stopped turn stays stopped, and nothing else is, exactly when no stop of
an unknown scope comes while too many are held and a call of it comes after there is room. -/
theorem stays_stopped_iff (history : List Event) (horder : InOrder history) :
    StaysStopped history ↔ ¬ LosesStop history := by
  constructor
  · intro h
    exact (calls_stopped_iff horder).mp h.calls
  · intro hkeeps
    exact {
      receivers := by
        rintro before after t s rfl - h hmem hscope hday
        exact receivers_stopped horder hmem hscope hday
      calls := (calls_stopped_iff horder).mpr hkeeps
      others := by
        rintro before after t s rfl h hmem hother
        refine others_kept horder hmem fun hcovers => ?_
        simp only [covers, Bool.and_eq_true, Bool.or_eq_true, decide_eq_true_eq,
          String.isEmpty_iff] at hcovers
        obtain hconversation | ⟨hturn, hne⟩ := hother
        · exact hconversation hcovers.1.symm
        · exact hcovers.2.elim hturn fun heq => hne heq.symm
      refusals := by
        rintro before after t s rfl huncovered hstopped
        exact refused_full horder huncovered hstopped }

def chat : Scope := ⟨"chat", "old"⟩

def shortHistory : List Event :=
  [subscribing 0 chat, stopping 1 chat, subscribing 2 chat, subscribing 3 ⟨"chat", "new"⟩]

theorem short_history_stays_stopped : StaysStopped shortHistory := by
  refine (stays_stopped_iff shortHistory (by simp [InOrder, shortHistory, subscribing, stopping])).mpr ?_
  intro ⟨before, middle, after, t, t', s, heq, _, _, ⟨hfull, _⟩, _⟩
  refine not_full_of_short ?_ hfull
  have hlength := congrArg List.length heq
  have hfour : shortHistory.length = 4 := rfl
  have hcapacity : capacity = 8192 := rfl
  rw [List.length_append] at hlength
  omega

/-! ### A stop that is lost -/

theorem entries_stopping (state : Turns × List Handed) (t : ℕ) (s : Scope) :
    (step state (stopping t s)).1.entries =
      touch t (covers (some s)) (state.1.subscribe t s).2.entries := rfl

/-- After a stop that was lost there is room as soon as all other scopes have expired. -/
theorem admits_of_expired {before : List Event} {t t' : ℕ} {s : Scope}
    (hfull : (run before).1.full t) (hfree : ¬ (run before).1.held t s)
    (hold : ∀ p ∈ (run before).1.entries, p.2.touched + retention ≤ t' ∧ ¬ covers (some s) p.1) :
    Admits (before ++ [stopping t s]) t' s := by
  have hempty : (run (before ++ [stopping t s])).1.unexpired t' = [] := by
    rw [run_concat, unexpired, entries_stopping]
    apply List.filter_eq_nil_iff.mpr
    intro p hp
    obtain ⟨e, hmem, hafter⟩ := mem_touch.mp hp
    obtain ⟨-, -, heq⟩ | ⟨other, hother, -⟩ | ⟨hroom, -, -⟩ := subscribe_cases (run before).1 t s
    · rw [heq] at hmem
      obtain ⟨hgone, huncovered⟩ := hold _ (List.mem_of_mem_filter hmem)
      rw [if_neg huncovered] at hafter
      have hage : e.touched + retention ≤ t' := hgone
      simp only [hafter, decide_eq_true_eq]
      omega
    · exact absurd (held_iff.mpr ⟨other, hother⟩) hfree
    · exact absurd hfull hroom
  refine ⟨?_, ?_⟩
  · rw [full, hempty]
    decide
  · rw [held, hempty]
    exact Bool.false_ne_true

/-- Another turn of another conversation for every number. -/
def otherTurn (i : ℕ) : Scope := ⟨"other", String.ofList (List.replicate i 'x')⟩

theorem otherTurn_injective {i j : ℕ} (h : otherTurn i = otherTurn j) : i = j := by
  have hchars := String.ofList_injective (Scope.mk.inj h).2
  simpa using congrArg List.length hchars

/-- So many turns are begun at one instant. -/
def crowd (n : ℕ) : List Event := (List.range n).map fun i => subscribing 0 (otherTurn i)

theorem crowd_entries {n : ℕ} (hn : n ≤ capacity) :
    (run (crowd n)).1.entries.length = n ∧
      ∀ p ∈ (run (crowd n)).1.entries, p.2.touched = 0 ∧ ∃ i < n, p.1 = otherTurn i := by
  induction n with
  | zero => simp [crowd, run, Turns.empty]
  | succ n ih =>
    obtain ⟨hlength, hentries⟩ := ih (by omega)
    have hconcat : crowd (n + 1) = crowd n ++ [subscribing 0 (otherTurn n)] := by
      simp [crowd, List.range_succ]
    have hunexpired : (run (crowd n)).1.unexpired 0 = (run (crowd n)).1.entries := by
      apply List.filter_eq_self.mpr
      intro p hp
      rw [decide_eq_true_eq, (hentries p hp).1]
      decide
    have hfree : ¬ (run (crowd n)).1.held 0 (otherTurn n) := by
      intro hheld
      obtain ⟨e, hmem⟩ := held_iff.mp hheld
      rw [hunexpired] at hmem
      obtain ⟨-, i, hi, heq⟩ := hentries _ hmem
      have hsame := otherTurn_injective heq
      omega
    have hroom : ¬ (run (crowd n)).1.full 0 := by
      simp only [full, hunexpired, hlength, ge_iff_le, decide_eq_true_eq]
      omega
    rw [hconcat, run_concat]
    have hstep : (step (run (crowd n)) (subscribing 0 (otherTurn n))).1.entries =
        (otherTurn n, ⟨(run (crowd n)).1.channels.length, 0⟩) :: (run (crowd n)).1.entries := by
      obtain ⟨hfull, -, -⟩ | ⟨e, hmem, -⟩ | ⟨-, -, heq⟩ :=
        subscribe_cases (run (crowd n)).1 0 (otherTurn n)
      · exact absurd hfull hroom
      · exact absurd (held_iff.mpr ⟨e, hmem⟩) hfree
      · rw [hunexpired] at heq
        show ((run (crowd n)).1.subscribe 0 (otherTurn n)).2.entries = _
        rw [heq]
    rw [hstep]
    refine ⟨by rw [List.length_cons, hlength], fun p hp => ?_⟩
    obtain rfl | hp := List.mem_cons.mp hp
    · exact ⟨rfl, n, by omega, rfl⟩
    · obtain ⟨htouched, i, hi, heq⟩ := hentries p hp
      exact ⟨htouched, i, by omega, heq⟩

/-- The table is full of turns of a day ago when the chat is stopped, and empty a second later. -/
def lostHistory : List Event :=
  crowd capacity ++ [stopping (seconds 86459) chat, subscribing (seconds 86460) chat]

theorem lostHistory_inOrder : InOrder lostHistory := by
  refine List.pairwise_append.mpr ⟨?_, by simp [stopping, subscribing, seconds], ?_⟩
  · rw [crowd, List.pairwise_map]
    exact List.pairwise_of_forall fun _ _ => Nat.le_refl 0
  · intro event hevent other _
    obtain ⟨i, -, rfl⟩ := List.mem_map.mp hevent
    exact Nat.zero_le _

theorem lostHistory_loses : LosesStop lostHistory := by
  obtain ⟨hlength, hentries⟩ := crowd_entries (Nat.le_refl capacity)
  have hunexpired : (run (crowd capacity)).1.unexpired (seconds 86459) =
      (run (crowd capacity)).1.entries := by
    apply List.filter_eq_self.mpr
    intro p hp
    rw [decide_eq_true_eq, (hentries p hp).1]
    decide
  have hfree : ¬ (run (crowd capacity)).1.held (seconds 86459) chat := by
    intro hheld
    obtain ⟨e, hmem⟩ := held_iff.mp hheld
    rw [hunexpired] at hmem
    obtain ⟨-, i, -, heq⟩ := hentries _ hmem
    have hconversation := congrArg Scope.conversationId heq
    simp [chat, otherTurn] at hconversation
  have hfull : (run (crowd capacity)).1.full (seconds 86459) := by
    simp only [full, hunexpired, hlength, ge_iff_le, Nat.le_refl, decide_true]
  refine ⟨crowd capacity, [], [], seconds 86459, seconds 86460, chat, rfl, by decide, by decide,
    ⟨hfull, hfree⟩, admits_of_expired hfull hfree fun p hp => ?_⟩
  obtain ⟨htouched, i, -, hkey⟩ := hentries p hp
  rw [htouched, hkey]
  exact ⟨by decide, by simp [covers, chat, otherTurn]⟩

/-- The stop is forgotten: a call of the chat is admitted a second after it. -/
theorem lost_stop_admits : InOrder lostHistory ∧ ¬ StaysStopped lostHistory := by
  refine ⟨lostHistory_inOrder, fun h => ?_⟩
  exact (calls_stopped_iff lostHistory_inOrder).mp h.calls lostHistory_loses

end NyxId.TurnStops
