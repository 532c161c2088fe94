import NyxId.Coordination.Leases
import Mathlib.Data.List.Nodup

/-!
Slots under one limit for each namespace and scope. A call tries the slots one after the
other, and other calls may come between its updates.
-/

namespace NyxId.Coordination

open Interleave

/-- The slots, the calls between two updates under the lease each has drawn, the tokens given
out with their calls, and for each lease its slot and its time. -/
structure SlotWorld where
  now : ℕ
  slots : Slots
  pending : Collection String SlotCall
  issued : List (SlotCall × SlotToken)
  granted : String → Option (String × ℕ)

def SlotWorld.start : SlotWorld := ⟨0, ∅, ∅, [], fun _ => none⟩

inductive SlotEvent
  | wait (later : ℕ)
  | expire (id : String)
  | call (space scope : String) (holder : CoordinationHolder) (ttl : ℕ) (leaseId : String)
  | probe (leaseId : String) (answer : Option SlotToken)
  | leave (leaseId : String)
  | renew (token : SlotToken) (ttl : ℕ) (answer : Bool)
  | release (token : SlotToken) (answer : Bool)

variable (sha256 : List UInt8 → Vector UInt8 32) (limit : String → String → ℕ)

def SlotCall.next (call : SlotCall) : SlotCall := { call with offset := call.offset + 1 }

inductive SlotStep (w : SlotWorld) : SlotEvent → SlotWorld → Prop
  | wait (later : ℕ) (hlater : w.now ≤ later) : SlotStep w (.wait later) { w with now := later }
  | expire (id : String) (slot : CoordinationSlot) (hfound : w.slots.lookup id = some slot)
      (hended : slot.expiresAt ≤ w.now) :
      SlotStep w (.expire id) { w with slots := w.slots.erase id }
  | call (space scope : String) (holder : CoordinationHolder) (ttl : ℕ) (leaseId : String)
      (ttlMs : ℕ) (hlimit : limit space scope ≠ 0)
      (httl : durationMillis ttl "slot TTL" = .ok ttlMs)
      (hfresh : w.granted leaseId = none) (hnew : w.pending.lookup leaseId = none) :
      SlotStep w (.call space scope holder ttl leaseId) { w with
        pending := w.pending.insert leaseId
          ⟨space, scope, limit space scope, holder, ttlMs, 0⟩ }
  | claimed (leaseId : String) (call : SlotCall) (slots : Slots) (token : SlotToken)
      (hcall : w.pending.lookup leaseId = some call) (hround : call.offset < call.limit)
      (hok : call.probe sha256 w.now leaseId w.slots = (slots, some token)) :
      SlotStep w (.probe leaseId (some token)) { w with
        slots := slots
        pending := w.pending.erase leaseId
        issued := (call, token) :: w.issued
        granted := Function.update w.granted leaseId
          (some (token.id, dateAddNow w.now call.ttlMs)) }
  | refused (leaseId : String) (call : SlotCall) (slots : Slots)
      (hcall : w.pending.lookup leaseId = some call) (hround : call.offset < call.limit)
      (hok : call.probe sha256 w.now leaseId w.slots = (slots, none)) :
      SlotStep w (.probe leaseId none) { w with
        slots := slots
        pending := w.pending.insert leaseId call.next }
  -- two calls may insert a slot at once
  | duplicate (leaseId : String) (call : SlotCall)
      (hcall : w.pending.lookup leaseId = some call) (hround : call.offset < call.limit) :
      SlotStep w (.probe leaseId none) { w with pending := w.pending.insert leaseId call.next }
  -- all slots are tried, or an update fails
  | leave (leaseId : String) :
      SlotStep w (.leave leaseId) { w with pending := w.pending.erase leaseId }
  | renew (call : SlotCall) (token : SlotToken) (ttl : ℕ) (slots : Slots) (answer : Bool)
      (htoken : (call, token) ∈ w.issued)
      (hok : renewSlot w.now token ttl w.slots = .ok (slots, answer)) :
      SlotStep w (.renew token ttl answer) { w with
        slots := slots
        granted := Tenures.grantIf answer w.granted token.leaseId token.id
          (dateAddNow w.now ttl) }
  | release (call : SlotCall) (token : SlotToken) (slots : Slots) (answer : Bool)
      (htoken : (call, token) ∈ w.issued) (hok : releaseSlot token w.slots = (slots, answer)) :
      SlotStep w (.release token answer) { w with
        slots := slots
        granted := Tenures.grantIf answer w.granted token.leaseId token.id 0 }

abbrev SlotRun : SlotWorld → List SlotEvent → SlotWorld → Prop := Runs (SlotStep sha256 limit)

def CoordinationSlot.view (slot : CoordinationSlot) : String × ℕ := (slot.leaseId, slot.expiresAt)

def SlotWorld.tenures (w : SlotWorld) : Tenures String String :=
  ⟨w.now, Tenures.heldBy CoordinationSlot.view w.slots, w.granted⟩

/-- The holder of a token may still rely on it. -/
def SlotWorld.Unexpired (w : SlotWorld) (token : SlotToken) : Prop :=
  ∃ until_, w.granted token.leaseId = some (token.id, until_) ∧ w.now < until_

/-- An unexpired token that was given out for a namespace and a scope. -/
def SlotWorld.Holds (w : SlotWorld) (space scope : String) (token : SlotToken) : Prop :=
  ∃ call, (call, token) ∈ w.issued ∧ call.space = space ∧ call.scope = scope ∧ w.Unexpired token

theorem exactSlot_iff {holder : CoordinationHolder} {leaseId : String} {slot : CoordinationSlot} :
    exactSlot holder leaseId slot = true ↔ slot.holder = holder ∧ slot.leaseId = leaseId := by
  obtain ⟨_, _, _, ⟨instanceId, generationId⟩, _⟩ := slot
  obtain ⟨instanceId', generationId'⟩ := holder
  simp [exactSlot]

theorem activeSlot_iff {now : ℕ} {holder : CoordinationHolder} {leaseId : String}
    {slot : CoordinationSlot} :
    activeSlot now holder leaseId slot = true ↔
      (slot.holder = holder ∧ slot.leaseId = leaseId) ∧ now < slot.expiresAt := by
  rw [activeSlot, Bool.and_eq_true, exactSlot_iff, decide_eq_true_iff]

theorem renewSlot_ok {now ttl : ℕ} {token : SlotToken} {slots slots' : Slots} {answer : Bool}
    (h : renewSlot now token ttl slots = .ok (slots', answer)) :
    updateOne (activeSlot now token.holder token.leaseId)
      (fun slot => { slot with updatedAt := now, expiresAt := dateAddNow now ttl })
      slots token.id = (slots', answer) := by
  unfold renewSlot at h
  exact Except.ok.inj (of_durationMillis h)

section

variable {sha256} {limit}

/-- A probe of a fresh lease claims a slot that is free, or finds another lease there. -/
theorem probe_fresh {w : SlotWorld} (hw : w.tenures.Exact) {call : SlotCall} {leaseId : String}
    {slots : Slots} {answer : Option SlotToken} (hfresh : w.granted leaseId = none)
    (hok : call.probe sha256 w.now leaseId w.slots = (slots, answer)) :
    (w.tenures.Free (call.id sha256 leaseId) ∧
        slots = w.slots.insert (call.id sha256 leaseId) (call.claim sha256 w.now leaseId) ∧
        answer = some (call.token sha256 leaseId)) ∨
      slots = w.slots ∧ answer = none := by
  unfold SlotCall.probe at hok
  dsimp only at hok
  split at hok
  · next hclaim =>
    obtain ⟨rfl, rfl⟩ := Prod.mk.inj hok
    refine Or.inl ⟨fun h until_ hheld => ?_, rfl, rfl⟩
    obtain ⟨slot, hfound, hview⟩ := Option.map_eq_some_iff.mp hheld
    obtain ⟨rfl, rfl⟩ := Prod.mk.inj hview
    exact claimable_iff.mp hclaim slot hfound
  · split at hok
    · next hsame =>
      obtain ⟨slot, hfound, hlease⟩ := (Option.any_eq_true _ _).mp hsame
      have hheld := Tenures.heldBy_of_lookup CoordinationSlot.view hfound
      have hgranted := hw.known _ slot.leaseId slot.expiresAt hheld
      rw [of_decide_eq_true hlease] at hgranted
      cases hfresh.symm.trans hgranted
    · obtain ⟨rfl, rfl⟩ := Prod.mk.inj hok
      exact Or.inr ⟨rfl, rfl⟩

/-- Calls in progress have drawn fresh leases; tokens are those of their calls, one for each
lease, and every slot is one of them. -/
structure SlotWorld.Good (sha256 : List UInt8 → Vector UInt8 32) (limit : String → String → ℕ)
    (w : SlotWorld) : Prop where
  exact : w.tenures.Exact
  pending : ∀ leaseId call, w.pending.lookup leaseId = some call →
    w.granted leaseId = none ∧ call.limit = limit call.space call.scope
  issued : ∀ call token, (call, token) ∈ w.issued →
    token = call.token sha256 token.leaseId ∧ call.limit = limit call.space call.scope ∧
      0 < call.limit ∧ ∃ until_, w.granted token.leaseId = some (token.id, until_)
  single : ∀ p ∈ w.issued, ∀ p' ∈ w.issued, p.2.leaseId = p'.2.leaseId → p = p'
  slots : ∀ id slot, w.slots.lookup id = some slot →
    ∃ p ∈ w.issued, p.2.leaseId = slot.leaseId ∧ p.2.id = id

theorem SlotStep.tenures {w w' : SlotWorld} {e : SlotEvent}
    (hstep : SlotStep sha256 limit w e w') (hw : w.Good sha256 limit) :
    Tenures.Steps w.tenures w'.tenures := by
  cases hstep with
  | wait later hlater => exact .single (.wait later hlater)
  | expire id slot hfound hended =>
    have hheld := Tenures.heldBy_of_lookup CoordinationSlot.view hfound
    have hlapse := Tenures.Step.lapse (t := w.tenures) id slot.leaseId slot.expiresAt hheld hended
    apply Relation.ReflTransGen.single
    simpa only [SlotWorld.tenures, Tenures.heldBy_erase] using hlapse
  | claimed leaseId call slots token hcall hround hok =>
    have hfresh := (hw.pending leaseId call hcall).1
    rcases probe_fresh hw.exact hfresh hok with ⟨hfree, rfl, hsome⟩ | ⟨-, hnone⟩
    · obtain rfl := Option.some.inj hsome
      have hclaim := Tenures.Step.claim (t := w.tenures) (call.id sha256 leaseId) leaseId
        (dateAddNow w.now call.ttlMs) hfresh hfree
      apply Relation.ReflTransGen.single
      simp only [SlotWorld.tenures, Tenures.heldBy_insert]
      exact hclaim
    · cases hnone
  | refused leaseId call slots hcall hround hok =>
    have hfresh := (hw.pending leaseId call hcall).1
    rcases probe_fresh hw.exact hfresh hok with ⟨-, -, hsome⟩ | ⟨rfl, -⟩
    · cases hsome
    · exact .refl
  | call | duplicate | leave => exact .refl
  | renew call token ttl slots answer htoken hok =>
    apply steps_renewed (renewSlot_ok hok)
    · intro slot hactive
      obtain ⟨⟨-, hlease⟩, -⟩ := activeSlot_iff.mp hactive
      exact ⟨Prod.ext hlease rfl, hlease⟩
    · intro slot hactive
      exact (activeSlot_iff.mp hactive).2
  | release call token slots answer htoken hok =>
    apply steps_deleted hok
    intro slot hexact
    exact (exactSlot_iff.mp hexact).2

theorem good_slots_start : SlotWorld.start.Good sha256 limit where
  exact := Tenures.exact_start
  pending _ _ hfound := by cases hfound
  issued _ _ htoken := by cases htoken
  single _ hp := by cases hp
  slots _ _ hfound := by cases hfound

/-- What holds of the tokens, the calls and the slots after a step that grants no lease. -/
theorem SlotWorld.Good.settled {w w' : SlotWorld} (hw : w.Good sha256 limit)
    (hsteps : Tenures.Steps w.tenures w'.tenures) (hissued : w'.issued = w.issued)
    (hpending : ∀ leaseId call, w'.pending.lookup leaseId = some call →
      w'.granted leaseId = none ∧ call.limit = limit call.space call.scope)
    (hslots : ∀ id slot, w'.slots.lookup id = some slot →
      ∃ before, w.slots.lookup id = some before ∧ before.leaseId = slot.leaseId) :
    w'.Good sha256 limit where
  exact := hsteps.exact hw.exact
  pending := hpending
  issued call token htoken := by
    rw [hissued] at htoken
    obtain ⟨htoken, hlimit, hpos, until_, hgranted⟩ := hw.issued call token htoken
    exact ⟨htoken, hlimit, hpos, hsteps.granted hw.exact hgranted⟩
  single := by
    rw [hissued]
    exact hw.single
  slots id slot hfound := by
    obtain ⟨before, hbefore, hlease⟩ := hslots id slot hfound
    obtain ⟨p, hp, hp_lease, hp_id⟩ := hw.slots id before hbefore
    exact ⟨p, hissued ▸ hp, hp_lease.trans hlease, hp_id⟩

/-- A time given to a token does not touch the leases that calls have drawn. -/
theorem SlotWorld.Good.pending_grantIf {w : SlotWorld}
    (hw : w.Good sha256 limit) {call : SlotCall} {token : SlotToken}
    (htoken : (call, token) ∈ w.issued) {answer : Bool} {until_ : ℕ} {leaseId : String}
    {other : SlotCall} (hother : w.pending.lookup leaseId = some other) :
    Tenures.grantIf answer w.granted token.leaseId token.id until_ leaseId = none ∧
      other.limit = limit other.space other.scope := by
  obtain ⟨hfresh, hlimit⟩ := hw.pending leaseId other hother
  obtain ⟨-, -, -, old, hgranted⟩ := hw.issued call token htoken
  have hne : leaseId ≠ token.leaseId := by
    rintro rfl
    cases hfresh.symm.trans hgranted
  refine ⟨?_, hlimit⟩
  cases answer with
  | true => exact (Function.update_of_ne hne ..).trans hfresh
  | false => exact hfresh

theorem SlotStep.good {w w' : SlotWorld} {e : SlotEvent} (hstep : SlotStep sha256 limit w e w')
    (hw : w.Good sha256 limit) :
    w'.Good sha256 limit := by
  have hsteps := hstep.tenures hw
  cases hstep with
  | wait later hlater =>
    exact hw.settled hsteps rfl hw.pending fun id slot hfound => ⟨slot, hfound, rfl⟩
  | expire id slot hfound hended =>
    exact hw.settled hsteps rfl hw.pending fun id slot hfound =>
      ⟨slot, (lookup_of_erased hfound).2, rfl⟩
  | call space scope holder ttl leaseId ttlMs hlimit httl hfresh hnew =>
    refine hw.settled hsteps rfl ?_ fun id slot hfound => ⟨slot, hfound, rfl⟩
    intro other call hcall
    rcases Collection.lookup_insert_cases hcall with ⟨rfl, rfl⟩ | ⟨-, hold⟩
    · exact ⟨hfresh, rfl⟩
    · exact hw.pending other call hold
  | claimed leaseId call slots token hcall hround hok =>
    obtain ⟨hfresh, hlimit⟩ := hw.pending leaseId call hcall
    rcases probe_fresh hw.exact hfresh hok with ⟨hfree, rfl, hsome⟩ | ⟨-, hnone⟩
    · obtain rfl := Option.some.inj hsome
      have hnotissued : ∀ p ∈ w.issued, p.2.leaseId ≠ leaseId := by
        intro p hp hsame
        obtain ⟨-, -, -, until_, hgranted⟩ := hw.issued p.1 p.2 hp
        rw [hsame] at hgranted
        cases hfresh.symm.trans hgranted
      exact {
        exact := hsteps.exact hw.exact
        pending := by
          intro other call' hcall'
          obtain ⟨hne, hold⟩ := lookup_of_erased hcall'
          obtain ⟨hfresh', hlimit'⟩ := hw.pending other call' hold
          exact ⟨(Function.update_of_ne hne ..).trans hfresh', hlimit'⟩
        issued := by
          intro call' token' htoken'
          rcases List.mem_cons.mp htoken' with hsame | hold
          · obtain ⟨rfl, rfl⟩ := Prod.mk.inj hsame
            exact ⟨rfl, hlimit, by omega, _, Function.update_self ..⟩
          · obtain ⟨htoken, hlimit', hpos, until_, hgranted⟩ := hw.issued call' token' hold
            exact ⟨htoken, hlimit', hpos, hsteps.granted hw.exact hgranted⟩
        single := by
          intro p hp p' hp' hsame
          rcases List.mem_cons.mp hp with rfl | hp <;> rcases List.mem_cons.mp hp' with rfl | hp'
          · rfl
          · exact absurd hsame.symm (hnotissued p' hp')
          · exact absurd hsame (hnotissued p hp)
          · exact hw.single p hp p' hp' hsame
        slots := by
          intro id slot hfound
          rcases Collection.lookup_insert_cases hfound with ⟨rfl, rfl⟩ | ⟨-, hold⟩
          · exact ⟨_, List.mem_cons_self, rfl, rfl⟩
          · obtain ⟨p, hp, hp_lease, hp_id⟩ := hw.slots id slot hold
            exact ⟨p, List.mem_cons_of_mem _ hp, hp_lease, hp_id⟩ }
    · cases hnone
  | refused leaseId call slots hcall hround hok =>
    obtain ⟨hfresh, hlimit⟩ := hw.pending leaseId call hcall
    rcases probe_fresh hw.exact hfresh hok with ⟨-, -, hsome⟩ | ⟨rfl, -⟩
    · cases hsome
    · refine hw.settled hsteps rfl ?_ fun id slot hfound => ⟨slot, hfound, rfl⟩
      intro other call' hcall'
      rcases Collection.lookup_insert_cases hcall' with ⟨rfl, rfl⟩ | ⟨-, hold⟩
      · exact ⟨hfresh, hlimit⟩
      · exact hw.pending other call' hold
  | duplicate leaseId call hcall hround =>
    obtain ⟨hfresh, hlimit⟩ := hw.pending leaseId call hcall
    refine hw.settled hsteps rfl ?_ fun id slot hfound => ⟨slot, hfound, rfl⟩
    intro other call' hcall'
    rcases Collection.lookup_insert_cases hcall' with ⟨rfl, rfl⟩ | ⟨-, hold⟩
    · exact ⟨hfresh, hlimit⟩
    · exact hw.pending other call' hold
  | leave leaseId =>
    refine hw.settled hsteps rfl ?_ fun id slot hfound => ⟨slot, hfound, rfl⟩
    intro other call hcall
    exact hw.pending other call (lookup_of_erased hcall).2
  | renew call token ttl slots answer htoken hok =>
    refine hw.settled hsteps rfl (fun _ _ hother => hw.pending_grantIf htoken hother) ?_
    intro id slot hfound
    rcases lookup_of_updated (renewSlot_ok hok) hfound with hold | ⟨before, rfl, hold, -, rfl⟩
    · exact ⟨slot, hold, rfl⟩
    · exact ⟨before, hold, rfl⟩
  | release call token slots answer htoken hok =>
    refine hw.settled hsteps rfl (fun _ _ hother => hw.pending_grantIf htoken hother) ?_
    exact fun id slot hfound => ⟨slot, lookup_of_deleted hok hfound, rfl⟩

def SlotWorld.Reached (sha256 : List UInt8 → Vector UInt8 32) (limit : String → String → ℕ)
    (w : SlotWorld) : Prop := ∃ events, SlotRun sha256 limit .start events w

theorem SlotWorld.Reached.good {w : SlotWorld} (hw : w.Reached sha256 limit) :
    w.Good sha256 limit := by
  obtain ⟨events, hrun⟩ := hw
  exact Runs.preserves (fun _ _ _ hgood hstep => hstep.good hgood) good_slots_start hrun

/-- Unexpired tokens of one slot are one token. -/
theorem SlotWorld.Good.eq_of_slot {w : SlotWorld} (hw : w.Good sha256 limit) {space scope : String}
    {token token' : SlotToken} (h : w.Holds space scope token) (h' : w.Holds space scope token')
    (hslot : token.slot = token'.slot) : token = token' := by
  obtain ⟨call, htoken, rfl, rfl, until_, hgranted, hlive⟩ := h
  obtain ⟨call', htoken', hspace, hscope, until', hgranted', hlive'⟩ := h'
  have hid : token'.id = token.id := by
    obtain ⟨hthis, -⟩ := hw.issued call token htoken
    obtain ⟨hother, -⟩ := hw.issued call' token' htoken'
    rw [hthis, hother] at hslot ⊢
    change hashParts sha256 [_, _, _] = hashParts sha256 [_, _, _]
    rw [hspace, hscope, show call'.slot sha256 token'.leaseId = call.slot sha256 token.leaseId from
      hslot.symm]
  rw [hid] at hgranted'
  have hlease := hw.exact.exclusive ⟨until_, hgranted, hlive⟩ ⟨until', hgranted', hlive'⟩
  exact (Prod.mk.inj (hw.single _ htoken _ htoken' hlease)).2

theorem SlotWorld.Good.slot_lt {w : SlotWorld} (hw : w.Good sha256 limit) {space scope : String}
    {token : SlotToken} (h : w.Holds space scope token) : token.slot < limit space scope := by
  obtain ⟨call, htoken, rfl, rfl, -⟩ := h
  obtain ⟨hthis, hlimit, hpos, -⟩ := hw.issued call token htoken
  rw [hthis, ← hlimit]
  exact Nat.mod_lt _ hpos

theorem SlotWorld.Good.length_le {w : SlotWorld} (hw : w.Good sha256 limit) {space scope : String}
    {tokens : List SlotToken} (hnodup : tokens.Nodup)
    (hheld : ∀ token ∈ tokens, w.Holds space scope token) : tokens.length ≤ limit space scope := by
  have hslots : (tokens.map (·.slot)).Nodup :=
    List.Nodup.map_on (fun token htoken token' htoken' hslot =>
      hw.eq_of_slot (hheld token htoken) (hheld token' htoken') hslot) hnodup
  have hsub : tokens.map (·.slot) ⊆ List.range (limit space scope) := by
    intro slot hslot
    obtain ⟨token, htoken, rfl⟩ := List.mem_map.mp hslot
    exact List.mem_range.mpr (hw.slot_lt (hheld token htoken))
  have hlength := (List.subperm_of_subset hslots hsub).length_le
  rwa [List.length_map, List.length_range] at hlength

theorem oldestSlot_mem {slots : List CoordinationSlot} {oldest : CoordinationSlot}
    (h : oldestSlot slots = some oldest) : oldest ∈ slots := by
  induction slots using List.reverseRecOn generalizing oldest with
  | nil => cases h
  | append_singleton slots last ih =>
    unfold oldestSlot at h ih
    rw [List.foldl_append, List.foldl_cons, List.foldl_nil] at h
    rw [List.mem_append, List.mem_singleton]
    split at h
    · exact Or.inr (Option.some.inj h).symm
    · next other hbest =>
      split at h
      · exact Or.inr (Option.some.inj h).symm
      · obtain rfl := Option.some.inj h
        exact Or.inl (ih hbest)

/-- The oldest token is one whose holder may rely on it. -/
theorem SlotWorld.Good.unexpired_of_oldest {w : SlotWorld} (hw : w.Good sha256 limit)
    {call : SlotCall} {token : SlotToken} (htoken : (call, token) ∈ w.issued)
    (holdest : isOldestLive w.now token w.slots = true) : w.Unexpired token := by
  obtain ⟨slot, hslot, hlease⟩ := (Option.any_eq_true _ _).mp holdest
  obtain ⟨hmem, hfilter⟩ := List.mem_filter.mp (oldestSlot_mem hslot)
  obtain ⟨entry, hentry, rfl⟩ := List.mem_map.mp hmem
  have hfound : w.slots.lookup entry.1 = some entry.2 := AList.mem_lookup_iff.mpr hentry
  have hheld := Tenures.heldBy_of_lookup CoordinationSlot.view hfound
  have hgranted := hw.exact.known _ _ _ hheld
  rw [of_decide_eq_true hlease] at hgranted
  obtain ⟨-, -, -, until_, hown⟩ := hw.issued call token htoken
  have hkey := (Prod.mk.inj (Option.some.inj (hown.symm.trans hgranted))).1
  refine ⟨entry.2.expiresAt, hkey ▸ hgranted, ?_⟩
  exact of_decide_eq_true (Bool.and_eq_true_iff.mp hfilter).2

end

def LeaseEvent.Releases {α : Type} (token : LeaseToken) : LeaseEvent α → Prop
  | .delete other _ | .finish other _ _ => other = token
  | _ => False

/-- What holds of the leases of a world, and of every run from there. -/
structure LeaseWorld.Lawful {α : Type} [DecidableEq α] (w : LeaseWorld α) : Prop where
  exclusive : ∀ name leaseId leaseId', w.Unexpired name leaseId → w.Unexpired name leaseId' →
    leaseId = leaseId'
  stored : ∀ name lease, w.leases.lookup name = some lease → w.now < lease.expiresAt →
    w.Unexpired name lease.leaseId
  expired : ∀ token ∈ w.tokens, ¬ w.Unexpired token.name token.leaseId →
    ∀ events later, LeaseRun w events later → later.Powerless token
  ended : ∀ token ∈ w.tokens, ∀ e next, LeaseStep w e next → e.Ends token →
    ∀ events later, LeaseRun next events later → later.Powerless token
  spared : ∀ token e next, LeaseStep w e next → e.Releases token →
    ∀ name lease, w.leases.lookup name = some lease → lease.leaseId ≠ token.leaseId →
      next.leases.lookup name = some lease
  kept : ∀ token checkpoint clientNow next, LeaseStep w (.store token checkpoint clientNow true) next →
    ∀ events later, LeaseRun next events later → (∀ e ∈ events, ¬ e.Stores token.name) →
      (∃ lease, later.leases.lookup token.name = some lease ∧
        lease.checkpoint = some checkpoint) ∧
      ∀ other ∈ later.tokens, other.name = token.name → later.Unexpired other.name other.leaseId →
        loadCheckpoint later.now other later.leases = checkpoint.read

/-- What holds of the slots of a world. -/
structure SlotWorld.Lawful (limit : String → String → ℕ) (w : SlotWorld) : Prop where
  bounded : ∀ space scope (tokens : List SlotToken), tokens.Nodup →
    (∀ token ∈ tokens, w.Holds space scope token) → tokens.length ≤ limit space scope
  distinct : ∀ space scope token token', w.Holds space scope token → w.Holds space scope token' →
    token.slot = token'.slot → token = token'
  stored : ∀ id slot, w.slots.lookup id = some slot → w.now < slot.expiresAt →
    ∃ call token, (call, token) ∈ w.issued ∧ token.id = id ∧ token.leaseId = slot.leaseId ∧
      w.Unexpired token
  oldest : ∀ space scope token token', w.Holds space scope token → w.Holds space scope token' →
    isOldestLive w.now token w.slots = true → isOldestLive w.now token' w.slots = true →
      token = token'
  oldestLive : ∀ call token, (call, token) ∈ w.issued →
    isOldestLive w.now token w.slots = true → w.Unexpired token

theorem LeaseWorld.Reached.lawful {α : Type} [DecidableEq α] {w : LeaseWorld α}
    (hw : w.Reached) : w.Lawful where
  exclusive := hw.good.exclusive.1
  stored := hw.good.exclusive.2
  expired token htoken hexpired events later hrun :=
    (LeaseRun.good hrun hw.good).powerless (LeaseRun.over hrun hw.good (hw.good.over htoken hexpired))
  ended token htoken e next hstep hends events later hrun := by
    have hover := hstep.over_of_ends hw.good htoken hends
    have hnext := hstep.good hw.good
    exact (LeaseRun.good hrun hnext).powerless (LeaseRun.over hrun hnext hover)
  spared token e next hstep hrelease name lease hfound hother := by
    apply hstep.spares _ hfound hother
    cases e with
    | delete other answer => exact Or.inl ⟨answer, congrArg (LeaseEvent.delete · answer) hrelease⟩
    | finish other clientNow answer =>
      exact Or.inr ⟨clientNow, answer, congrArg (LeaseEvent.finish · clientNow answer) hrelease⟩
    | _ => cases hrelease
  kept token checkpoint clientNow next hstep events later hrun hother := by
    have hnext := hstep.good hw.good
    have hkept := LeaseRun.keeps hrun hnext hstep.stored hother
    refine ⟨hkept, fun other htoken hname hlive => ?_⟩
    exact (LeaseRun.good hrun hnext).load htoken hlive (hname ▸ hkept)

theorem SlotWorld.Reached.lawful {sha256 : List UInt8 → Vector UInt8 32}
    {limit : String → String → ℕ} {w : SlotWorld} (hw : w.Reached sha256 limit) :
    w.Lawful limit where
  bounded _ _ _ hnodup hheld := hw.good.length_le hnodup hheld
  distinct _ _ _ _ h h' hslot := hw.good.eq_of_slot h h' hslot
  stored id slot hfound hlive := by
    obtain ⟨p, hp, hlease, hid⟩ := hw.good.slots id slot hfound
    have hheld := Tenures.heldBy_of_lookup CoordinationSlot.view hfound
    have hgranted := hw.good.exact.known id slot.leaseId slot.expiresAt hheld
    exact ⟨p.1, p.2, hp, hid, hlease, slot.expiresAt, by rw [hlease, hid]; exact hgranted, hlive⟩
  oldest space scope token token' h h' holdest holdest' := by
    obtain ⟨call, htoken, rfl, rfl, -⟩ := h
    obtain ⟨call', htoken', hspace, hscope, -⟩ := h'
    obtain ⟨slot, hslot, hlease⟩ := (Option.any_eq_true _ _).mp holdest
    obtain ⟨slot', hslot', hlease'⟩ := (Option.any_eq_true _ _).mp holdest'
    have hquery : token'.space = token.space ∧ token'.scopeHash = token.scopeHash := by
      obtain ⟨hthis, -⟩ := hw.good.issued call token htoken
      obtain ⟨hother, -⟩ := hw.good.issued call' token' htoken'
      rw [hthis, hother]
      exact ⟨hspace, congrArg (fun scope => hashParts sha256 [scope]) hscope⟩
    rw [hquery.1, hquery.2, hslot] at hslot'
    obtain rfl := Option.some.inj hslot'
    have hsame := (of_decide_eq_true hlease).symm.trans (of_decide_eq_true hlease')
    exact (Prod.mk.inj (hw.good.single _ htoken _ htoken' hsame)).2
  oldestLive _ _ htoken holdest := hw.good.unexpired_of_oldest htoken holdest

/-- Leases and slots exclude each other in every world that a run reaches. -/
theorem leases_and_slots_exclude (α : Type) [DecidableEq α]
    (sha256 : List UInt8 → Vector UInt8 32) (limit : String → String → ℕ) :
    (∀ w : LeaseWorld α, w.Reached → w.Lawful) ∧
      ∀ w : SlotWorld, w.Reached sha256 limit → w.Lawful limit :=
  ⟨fun _ hw => hw.lawful, fun _ hw => hw.lawful⟩

def sampleHolder : CoordinationHolder := ⟨"instance", "generation"⟩

def sampleLease : CoordinationLease ℕ := claimLease 0 10 sampleHolder "first" none

/-- A lease that ended and was taken over. -/
def sampleLeases : LeaseWorld ℕ where
  now := 10
  leases := AList.insert "job" (claimLease 10 5 sampleHolder "second" (some sampleLease))
    (AList.insert "job" sampleLease ∅)
  tokens := [⟨"job", sampleHolder, "second"⟩, ⟨"job", sampleHolder, "first"⟩]
  releasing := []
  granted := Function.update (Function.update (fun _ => none) "first" (some ("job", 10))) "second"
    (some ("job", 15))

theorem sampleLeases_reached : sampleLeases.Reached := by
  have hfirst := LeaseStep.acquire (w := (.start : LeaseWorld ℕ)) "job" sampleHolder 10 "first" _ _
    rfl rfl
  exact ⟨_, .next (.next (.next .stay hfirst) (.wait 10 (by decide)))
    (.acquire "job" sampleHolder 5 "second" _ (some ⟨"job", sampleHolder, "second"⟩) rfl rfl)⟩

def sampleSha256 (_ : List UInt8) : Vector UInt8 32 := Vector.replicate 32 0

def sampleCall : SlotCall := ⟨"turns", "owner", 1, sampleHolder, 10, 0⟩

/-- The one slot of a scope is held. -/
def sampleSlots : SlotWorld where
  now := 0
  slots := AList.insert (sampleCall.id sampleSha256 "first")
    (sampleCall.claim sampleSha256 0 "first") ∅
  pending := (AList.insert "first" sampleCall ∅).erase "first"
  issued := [(sampleCall, sampleCall.token sampleSha256 "first")]
  granted := Function.update (fun _ => none) "first"
    (some ((sampleCall.token sampleSha256 "first").id, 10))

theorem sampleSlots_reached : sampleSlots.Reached sampleSha256 fun _ _ => 1 := by
  have hcall : SlotStep sampleSha256 (fun _ _ => 1) .start _ _ :=
    .call "turns" "owner" sampleHolder 10 "first" 10 (by decide) rfl rfl rfl
  exact ⟨_, .next (.next .stay hcall) (.claimed "first" sampleCall _
    (sampleCall.token sampleSha256 "first") rfl (by decide) rfl)⟩

theorem sample_worlds_lawful : sampleLeases.Lawful ∧ sampleSlots.Lawful fun _ _ => 1 :=
  ⟨(leases_and_slots_exclude ℕ sampleSha256 fun _ _ => 1).1 sampleLeases sampleLeases_reached,
    (leases_and_slots_exclude ℕ sampleSha256 fun _ _ => 1).2 sampleSlots sampleSlots_reached⟩

end NyxId.Coordination
