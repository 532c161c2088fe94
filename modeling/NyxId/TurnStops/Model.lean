import Mathlib.Data.List.Nodup
import Mathlib.Data.List.Perm.Basic
import Mathlib.Tactic.Common
import Mathlib.Data.List.Induction

/-!
Cancellation of the turns of a conversation. A scope that is held has a channel, which its
receivers read; scopes are kept for a day, and when too many are held new ones are refused.
-/

namespace NyxId.TurnStops

structure Scope where
  conversationId : String
  turnId : String
  deriving DecidableEq

/-- A channel, named by its place among those that were opened, and the last use of a scope. -/
structure Entry where
  stop : ℕ
  touched : ℕ
  deriving DecidableEq

/-- The scopes that are held and the values of all channels; instants are in nanoseconds. -/
structure Turns where
  entries : List (Scope × Entry)
  channels : List Bool
  deriving DecidableEq

def seconds (n : ℕ) : ℕ := n * 1000000000

def retention : ℕ := seconds 86460

def capacity : ℕ := 8192

/-- The scopes that are marked are used now. -/
def touch (now : ℕ) (marked : Scope → Bool) (entries : List (Scope × Entry)) : List (Scope × Entry) :=
  entries.map fun (key, entry) =>
    if marked key then (key, { entry with touched := now }) else (key, entry)

namespace Turns

variable (turns : Turns) (now : ℕ) (scope : Scope)

def empty : Turns := ⟨[], []⟩

/-- What a receiver of a channel reads. -/
def reads (receiver : ℕ) : Bool := turns.channels[receiver]?.getD false

def unexpired : List (Scope × Entry) :=
  turns.entries.filter fun (_, entry) => now - entry.touched < retention

/-- `contains_key` after the scopes that expired are dropped. -/
def held : Bool := (turns.unexpired now).any fun (key, _) => key = scope

def full : Bool := (turns.unexpired now).length ≥ capacity

def subscribe : ℕ × Turns :=
  let entries := turns.unexpired now
  if turns.full now && !turns.held now scope then
    (turns.channels.length, ⟨entries, turns.channels ++ [true]⟩)
  else
    match entries.lookup scope with
    | some entry =>
      (entry.stop, ⟨touch now (fun key => key = scope) entries, turns.channels⟩)
    | none =>
      (turns.channels.length,
        ⟨(scope, ⟨turns.channels.length, now⟩) :: entries, turns.channels ++ [false]⟩)

/-- Every scope, a conversation, or one turn of it. -/
def covers (target : Option Scope) (key : Scope) : Bool :=
  match target with
  | none => true
  | some s => s.conversationId = key.conversationId && (s.turnId.isEmpty || s.turnId = key.turnId)

/-- The value true is sent on the channel of every scope that is covered. -/
def sendStop (target : Option Scope) : Turns where
  entries := touch now (covers target) turns.entries
  channels := turns.channels.mapIdx fun channel value =>
    value || turns.entries.any fun (key, entry) => covers target key && entry.stop = channel

def stop (target : Option Scope) : Turns :=
  match target with
  | none => turns.sendStop now none
  | some s => (turns.subscribe now s).2.sendStop now (some s)

end Turns

/-! ### Runs -/

inductive Call where
  | subscribe (scope : Scope)
  | stop (target : Option Scope)
  deriving DecidableEq

structure Event where
  instant : ℕ
  call : Call
  deriving DecidableEq

/-- A receiver, and when and for which scope it was handed out. -/
structure Handed where
  instant : ℕ
  scope : Scope
  receiver : ℕ
  deriving DecidableEq

def step (state : Turns × List Handed) (event : Event) : Turns × List Handed :=
  match event.call with
  | .subscribe scope =>
    let (receiver, turns) := state.1.subscribe event.instant scope
    (turns, state.2 ++ [⟨event.instant, scope, receiver⟩])
  | .stop target => (state.1.stop event.instant target, state.2)

/-- The turns after some calls and the receivers that were handed out. -/
def run (history : List Event) : Turns × List Handed := history.foldl step (Turns.empty, [])

def InOrder (history : List Event) : Prop := history.Pairwise fun a b => a.instant ≤ b.instant

/-!
What holds in every run. Channels belong to one scope each, a receiver keeps its scope's channel
until the scope expires, and a channel reads stopped only after a call that covers its scope.
-/

open Turns

def Covered (past : List Event) (key : Scope) : Prop :=
  ∃ event ∈ past, ∃ target, event.call = .stop target ∧ covers target key

/-- The invariant of the scopes that are held, the receivers and the calls so far. -/
structure Consistent (turns : Turns) (handed : List Handed) (now : ℕ) (past : List Event) : Prop where
  keys : (turns.entries.map Prod.fst).Nodup
  stops : (turns.entries.map fun p => p.2.stop).Nodup
  opened : ∀ p ∈ turns.entries, p.2.stop < turns.channels.length
  touched : ∀ p ∈ turns.entries, p.2.touched ≤ now
  covered : ∀ p ∈ turns.entries, turns.reads p.2.stop → Covered past p.1
  receivers : ∀ h ∈ handed, h.receiver < turns.channels.length
  owned : ∀ h ∈ handed, ∀ p ∈ turns.entries, p.2.stop = h.receiver → p.1 = h.scope
  live : ∀ h ∈ handed, turns.reads h.receiver ∨ h.instant + retention ≤ now ∨
    ∃ e, (h.scope, e) ∈ turns.entries ∧ e.stop = h.receiver ∧ h.instant ≤ e.touched

section Steps

variable {turns : Turns} {handed : List Handed} {past : List Event} {now later : ℕ} {key scope : Scope}
variable {entries : List (Scope × Entry)} {e : Entry} {marked : Scope → Bool} {p : Scope × Entry}

/-! ### Entries -/

theorem mem_touch : p ∈ touch now marked entries ↔ ∃ e, (p.1, e) ∈ entries ∧
    p.2 = if marked p.1 then { e with touched := now } else e := by
  unfold touch
  rw [List.mem_map]
  constructor
  · intro ⟨⟨key, e⟩, hmem, heq⟩
    subst heq
    refine ⟨e, ?_, ?_⟩ <;> simp only <;> split <;> simp_all
  · intro ⟨e, hmem, heq⟩
    refine ⟨(p.1, e), hmem, ?_⟩
    simp only
    split at heq
    · next hmarked => rw [if_pos hmarked, ← heq]
    · next hmarked => rw [if_neg hmarked, ← heq]

theorem mem_touch_self (hmem : (scope, e) ∈ entries) :
    (scope, { e with touched := now }) ∈ touch now (fun key => key = scope) entries :=
  mem_touch.mpr ⟨e, hmem, by simp⟩

theorem map_touch {α : Type} (f : Scope × Entry → α)
    (hf : ∀ key e, f (key, { e with touched := now }) = f (key, e)) :
    (touch now marked entries).map f = entries.map f := by
  unfold touch
  rw [List.map_map]
  apply List.map_congr_left
  intro ⟨key, e⟩ hmem
  simp only [Function.comp_apply]
  split
  · exact hf key e
  · rfl

theorem stop_of_mem_touch (h : p ∈ touch now marked entries) :
    ∃ e, (p.1, e) ∈ entries ∧ p.2.stop = e.stop := by
  obtain ⟨e, hmem, heq⟩ := mem_touch.mp h
  refine ⟨e, hmem, ?_⟩
  rw [heq]
  split <;> rfl

theorem reads_append (value : Bool) {receiver : ℕ} (h : receiver < turns.channels.length) :
    (⟨entries, turns.channels ++ [value]⟩ : Turns).reads receiver = turns.reads receiver := by
  unfold reads
  rw [List.getElem?_append_left h]

theorem reads_opened (value : Bool) :
    (⟨entries, turns.channels ++ [value]⟩ : Turns).reads turns.channels.length = value := by
  simp [reads]

/-! ### Parts of a call -/

theorem Consistent.expire (h : Consistent turns handed now past) (hle : now ≤ later) :
    Consistent ⟨turns.unexpired later, turns.channels⟩ handed later past where
  keys := (List.filter_sublist.map _).nodup h.keys
  stops := (List.filter_sublist.map _).nodup h.stops
  opened p hp := h.opened p (List.mem_of_mem_filter hp)
  touched p hp := Nat.le_trans (h.touched p (List.mem_of_mem_filter hp)) hle
  covered p hp := h.covered p (List.mem_of_mem_filter hp)
  receivers := h.receivers
  owned r hr p hp := h.owned r hr p (List.mem_of_mem_filter hp)
  live := by
    intro r hr
    obtain hreads | hexpired | ⟨e, hmem, hstop, htouched⟩ := h.live r hr
    · exact .inl hreads
    · exact .inr (.inl (Nat.le_trans hexpired hle))
    · by_cases hkept : later - e.touched < retention
      · exact .inr (.inr ⟨e, List.mem_filter.mpr ⟨hmem, by simpa using hkept⟩, hstop, htouched⟩)
      · have hbefore : e.touched ≤ now := h.touched _ hmem
        have hgone : retention ≤ later - e.touched := Nat.le_of_not_lt hkept
        exact .inr (.inl (by omega))

/-- A channel is opened that no scope has. -/
theorem Consistent.openChannel (h : Consistent turns handed now past) (value : Bool) :
    Consistent ⟨turns.entries, turns.channels ++ [value]⟩ handed now past where
  keys := h.keys
  stops := h.stops
  opened p hp := by
    have hlt := h.opened p hp
    rw [List.length_append]
    omega
  touched := h.touched
  covered p hp := by
    rw [reads_append value (h.opened p hp)]
    exact h.covered p hp
  receivers r hr := by
    have hlt := h.receivers r hr
    rw [List.length_append]
    omega
  owned := h.owned
  live r hr := by
    rw [reads_append value (h.receivers r hr)]
    exact h.live r hr

theorem Consistent.touchMarked (h : Consistent turns handed now past) (marked : Scope → Bool) :
    Consistent ⟨touch now marked turns.entries, turns.channels⟩ handed now past where
  keys := by
    rw [map_touch _ fun _ _ => rfl]
    exact h.keys
  stops := by
    rw [map_touch _ fun _ _ => rfl]
    exact h.stops
  opened p hp := by
    obtain ⟨e, hmem, hstop⟩ := stop_of_mem_touch hp
    rw [hstop]
    exact h.opened _ hmem
  touched p hp := by
    obtain ⟨e, hmem, heq⟩ := mem_touch.mp hp
    have hle := h.touched _ hmem
    rw [heq]
    split
    · exact Nat.le_refl now
    · exact hle
  covered p hp := by
    obtain ⟨e, hmem, hstop⟩ := stop_of_mem_touch hp
    rw [hstop]
    exact h.covered _ hmem
  receivers := h.receivers
  owned r hr p hp hreceiver := by
    obtain ⟨e, hmem, hstop⟩ := stop_of_mem_touch hp
    exact h.owned r hr (p.1, e) hmem (hstop.symm.trans hreceiver)
  live r hr := by
    obtain hreads | hexpired | ⟨e, hmem, hstop, htouched⟩ := h.live r hr
    · exact .inl hreads
    · exact .inr (.inl hexpired)
    · have hle := h.touched _ hmem
      refine .inr (.inr ⟨if marked r.scope then { e with touched := now } else e,
        mem_touch.mpr ⟨e, hmem, rfl⟩, ?_, ?_⟩)
      · split <;> exact hstop
      · split
        · exact Nat.le_trans htouched hle
        · exact htouched

/-- A scope that is held nowhere gets the channel that was opened last. -/
theorem Consistent.insert (h : Consistent turns handed now past)
    (hnew : ∀ p ∈ turns.entries, p.1 ≠ scope) :
    Consistent ⟨(scope, ⟨turns.channels.length, now⟩) :: turns.entries, turns.channels ++ [false]⟩
      handed now past := by
  have hopen := h.openChannel false
  have hreads := @reads_opened turns
    ((scope, ⟨turns.channels.length, now⟩) :: turns.entries) false
  exact {
    keys := by
      rw [List.map_cons, List.nodup_cons]
      refine ⟨fun hmem => ?_, h.keys⟩
      obtain ⟨p, hp, heq⟩ := List.mem_map.mp hmem
      exact hnew p hp heq
    stops := by
      rw [List.map_cons, List.nodup_cons]
      refine ⟨fun hmem => ?_, h.stops⟩
      obtain ⟨p, hp, heq⟩ := List.mem_map.mp hmem
      exact absurd (h.opened p hp) (by simp only at heq; omega)
    opened := by
      intro p hp
      obtain rfl | hp := List.mem_cons.mp hp
      · simp
      · exact hopen.opened p hp
    touched := by
      intro p hp
      obtain rfl | hp := List.mem_cons.mp hp
      · exact Nat.le_refl now
      · exact h.touched p hp
    covered := by
      intro p hp hstopped
      obtain rfl | hp := List.mem_cons.mp hp
      · rw [hreads] at hstopped
        cases hstopped
      · exact hopen.covered p hp hstopped
    receivers := hopen.receivers
    owned := by
      intro r hr p hp hreceiver
      obtain rfl | hp := List.mem_cons.mp hp
      · exact absurd (h.receivers r hr) (by simp only at hreceiver; omega)
      · exact h.owned r hr p hp hreceiver
    live := by
      intro r hr
      obtain hstopped | hexpired | ⟨e, hmem, hrest⟩ := hopen.live r hr
      · exact .inl hstopped
      · exact .inr (.inl hexpired)
      · exact .inr (.inr ⟨e, List.mem_cons_of_mem _ hmem, hrest⟩) }

/-- A receiver is handed out of a scope that is held, or of a channel that reads stopped. -/
theorem Consistent.handOut (h : Consistent turns handed now past) {receiver : ℕ}
    (hopened : receiver < turns.channels.length)
    (howned : ∀ p ∈ turns.entries, p.2.stop = receiver → p.1 = scope)
    (hlive : turns.reads receiver ∨
      ∃ e, (scope, e) ∈ turns.entries ∧ e.stop = receiver ∧ now ≤ e.touched) :
    Consistent turns (handed ++ [⟨now, scope, receiver⟩]) now past where
  keys := h.keys
  stops := h.stops
  opened := h.opened
  touched := h.touched
  covered := h.covered
  receivers r hr := by
    obtain hr | hr := List.mem_append.mp hr
    · exact h.receivers r hr
    · rw [List.mem_singleton.mp hr]
      exact hopened
  owned r hr := by
    obtain hr | hr := List.mem_append.mp hr
    · exact h.owned r hr
    · rw [List.mem_singleton.mp hr]
      exact howned
  live r hr := by
    obtain hr | hr := List.mem_append.mp hr
    · exact h.live r hr
    · rw [List.mem_singleton.mp hr]
      exact hlive.imp_right .inr

/-! ### Calls -/

theorem held_iff : turns.held now scope ↔ ∃ e, (scope, e) ∈ turns.unexpired now := by
  unfold held
  rw [List.any_eq_true]
  constructor
  · intro ⟨⟨key, e⟩, hmem, heq⟩
    have hkey : key = scope := by simpa using heq
    exact ⟨e, hkey ▸ hmem⟩
  · intro ⟨e, hmem⟩
    exact ⟨(scope, e), hmem, by simp⟩

/-- A subscription is refused, joins a scope that is held, or begins to hold the scope. -/
theorem subscribe_cases (turns : Turns) (now : ℕ) (scope : Scope) :
    (turns.full now ∧ ¬ turns.held now scope ∧ turns.subscribe now scope =
      (turns.channels.length, ⟨turns.unexpired now, turns.channels ++ [true]⟩)) ∨
    (∃ e, (scope, e) ∈ turns.unexpired now ∧ turns.subscribe now scope =
      (e.stop, ⟨touch now (fun key => key = scope) (turns.unexpired now), turns.channels⟩)) ∨
    (¬ turns.full now ∧ ¬ turns.held now scope ∧ turns.subscribe now scope =
      (turns.channels.length, ⟨(scope, ⟨turns.channels.length, now⟩) :: turns.unexpired now,
        turns.channels ++ [false]⟩)) := by
  by_cases hheld : turns.held now scope
  · right; left
    have hlookup : (turns.unexpired now).lookup scope ≠ none := by
      obtain ⟨e, hmem⟩ := held_iff.mp hheld
      intro hnone
      have hfree := List.lookup_eq_none_iff.mp hnone (scope, e) hmem
      simp at hfree
    obtain ⟨e, he⟩ := Option.ne_none_iff_exists'.mp hlookup
    obtain ⟨before, after, hsplit, -⟩ := List.lookup_eq_some_iff.mp he
    refine ⟨e, by rw [hsplit]; simp, ?_⟩
    simp [subscribe, hheld, he]
  · have hlookup : (turns.unexpired now).lookup scope = none := by
      rw [List.lookup_eq_none_iff]
      intro p hp
      have hne : p.1 ≠ scope := fun heq => hheld (held_iff.mpr ⟨p.2, heq ▸ hp⟩)
      simpa using Ne.symm hne
    by_cases hfull : turns.full now
    · exact .inl ⟨hfull, hheld, by simp [subscribe, hheld, hfull]⟩
    · exact .inr (.inr ⟨hfull, hheld, by simp [subscribe, hheld, hfull, hlookup]⟩)

theorem Consistent.subscribe (h : Consistent turns handed now past) (hle : now ≤ later)
    (scope : Scope) : Consistent (turns.subscribe later scope).2 handed later past := by
  have hexpired := h.expire hle
  obtain ⟨-, -, heq⟩ | ⟨e, -, heq⟩ | ⟨-, hheld, heq⟩ := subscribe_cases turns later scope
  · rw [heq]
    exact hexpired.openChannel true
  · rw [heq]
    exact hexpired.touchMarked _
  · rw [heq]
    refine hexpired.insert fun p hp hkey => hheld (held_iff.mpr ⟨p.2, ?_⟩)
    rw [← hkey]
    exact hp

theorem Consistent.handSubscribed (h : Consistent turns handed now past) (hle : now ≤ later)
    (scope : Scope) :
    Consistent (turns.subscribe later scope).2
      (handed ++ [⟨later, scope, (turns.subscribe later scope).1⟩]) later past := by
  have hafter := h.subscribe hle scope
  have hexpired := h.expire hle
  obtain ⟨-, -, heq⟩ | ⟨e, hmem, heq⟩ | ⟨-, -, heq⟩ := subscribe_cases turns later scope
  · rw [heq] at hafter ⊢
    refine hafter.handOut (by simp) (fun p hp hreceiver => ?_) (.inl (reads_opened true))
    exact absurd (hexpired.opened p hp) (by simp only at hreceiver ⊢; omega)
  · rw [heq] at hafter ⊢
    dsimp only at hafter ⊢
    refine hafter.handOut (hexpired.opened _ hmem) (fun p hp hreceiver => ?_) (.inr ?_)
    · replace hp : p ∈ touch later (fun key => key = scope) (turns.unexpired later) := hp
      obtain ⟨other, hother, hstop⟩ := stop_of_mem_touch hp
      have hsame := List.inj_on_of_nodup_map hexpired.stops hother hmem (by
        exact hstop.symm.trans hreceiver)
      exact congrArg Prod.fst hsame
    · exact ⟨_, mem_touch_self hmem, rfl, Nat.le_refl later⟩
  · rw [heq] at hafter ⊢
    refine hafter.handOut (by simp) (fun p hp hreceiver => ?_)
      (.inr ⟨_, List.mem_cons_self, rfl, Nat.le_refl later⟩)
    obtain rfl | hp := List.mem_cons.mp hp
    · rfl
    · exact absurd (hexpired.opened p hp) (by simp only at hreceiver ⊢; omega)

/-- A channel reads stopped after the value is sent if it did before or its scope is covered. -/
theorem reads_sendStop {target : Option Scope} {receiver : ℕ} (h : receiver < turns.channels.length) :
    (turns.sendStop now target).reads receiver ↔ turns.reads receiver ∨
      ∃ p ∈ turns.entries, covers target p.1 ∧ p.2.stop = receiver := by
  simp [reads, sendStop, List.getElem?_mapIdx, List.getElem?_eq_getElem h]

theorem Consistent.sendStop (h : Consistent turns handed now past) (target : Option Scope) :
    Consistent (turns.sendStop now target) handed now (past ++ [⟨now, .stop target⟩]) := by
  have htouched := h.touchMarked (covers target)
  have hlength : (turns.sendStop now target).channels.length = turns.channels.length := by
    simp [Turns.sendStop]
  exact {
    keys := htouched.keys
    stops := htouched.stops
    opened := fun p hp => by
      rw [hlength]
      exact htouched.opened p hp
    touched := htouched.touched
    covered := by
      intro p hp hstopped
      obtain ⟨e, hmem, hstop⟩ := stop_of_mem_touch hp
      rw [hstop, reads_sendStop (h.opened _ hmem)] at hstopped
      obtain hbefore | ⟨q, hq, hcovers, hsame⟩ := hstopped
      · obtain ⟨event, hevent, hrest⟩ := h.covered _ hmem hbefore
        exact ⟨event, List.mem_append_left _ hevent, hrest⟩
      · have heq := List.inj_on_of_nodup_map h.stops hq hmem hsame
        refine ⟨_, List.mem_append_right _ (List.mem_singleton_self _), target, rfl, ?_⟩
        rw [heq] at hcovers
        exact hcovers
    receivers := fun r hr => by
      rw [hlength]
      exact h.receivers r hr
    owned := htouched.owned
    live := by
      intro r hr
      obtain hreads | hrest := htouched.live r hr
      · exact .inl ((reads_sendStop (h.receivers r hr)).mpr (.inl hreads))
      · exact .inr hrest }

theorem Consistent.at (h : Consistent turns handed now past) (hle : now ≤ later) :
    Consistent turns handed later past :=
  { h with
    touched := fun p hp => Nat.le_trans (h.touched p hp) hle
    live := fun r hr => (h.live r hr).imp_right (Or.imp_left fun hgone => Nat.le_trans hgone hle) }

theorem Consistent.stop (h : Consistent turns handed now past) (hle : now ≤ later)
    (target : Option Scope) :
    Consistent (turns.stop later target) handed later (past ++ [⟨later, .stop target⟩]) := by
  unfold Turns.stop
  cases target with
  | none => exact (h.at hle).sendStop none
  | some scope => exact (h.subscribe hle scope).sendStop (some scope)

end Steps

/-! ### Runs -/

section Runs

variable {history : List Event} {event : Event}

theorem run_concat (history : List Event) (event : Event) :
    run (history ++ [event]) = step (run history) event := List.foldl_concat _ _ _ _

/-- The instant of the last call. -/
def clock (history : List Event) : ℕ := (history.getLast?.map Event.instant).getD 0

theorem clock_le (horder : InOrder (history ++ [event])) : clock history ≤ event.instant := by
  unfold clock
  cases hlast : history.getLast? with
  | none => simp
  | some last =>
    exact (List.pairwise_append.mp horder).2.2 last (List.mem_of_getLast? hlast) event
      (List.mem_singleton_self event)

theorem clock_concat (history : List Event) (event : Event) :
    clock (history ++ [event]) = event.instant := by simp [clock]

/-- The invariant holds in every run. -/
theorem run_consistent (horder : InOrder history) :
    Consistent (run history).1 (run history).2 (clock history) history := by
  induction history using List.reverseRecOn with
  | nil =>
    exact ⟨by simp [run, Turns.empty], by simp [run, Turns.empty], by simp [run, Turns.empty],
      by simp [run, Turns.empty], by simp [run, Turns.empty], by simp [run], by simp [run],
      by simp [run]⟩
  | append_singleton history event ih =>
    have hle := clock_le horder
    have hbefore := ih (List.pairwise_append.mp horder).1
    rw [run_concat, clock_concat]
    obtain ⟨instant, call⟩ := event
    cases call with
    | subscribe scope =>
      have hafter := hbefore.handSubscribed hle scope
      exact { hafter with
        covered := fun p hp hstopped => by
          obtain ⟨event, hevent, hrest⟩ := hafter.covered p hp hstopped
          exact ⟨event, List.mem_append_left _ hevent, hrest⟩ }
    | stop target => exact hbefore.stop hle target

end Runs

end NyxId.TurnStops
