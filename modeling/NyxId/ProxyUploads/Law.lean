import NyxId.ProxyUploads.Pump
import Mathlib.Logic.Relation

/-!
Streamed uploads are whole or visibly broken. In every run the consumer of an upload ends cleanly
when its frames up to the one flagged as the end came in order and in time within the limit, and
otherwise with an error after a first part of what was accepted.
-/

namespace NyxId.ProxyUploads

/-- The frames of an upload up to the first that is flagged as the end came while it was connected,
numbered in order and of the right kind, every send of them was in time, and their bytes keep within
the limit. -/
structure Whole (u : Upload) : Prop where
  numbered : ∀ (n : ℕ) (call : Call), (upToEnd u.calls)[n]? = some call → call.good n
  ended : ∃ call ∈ upToEnd u.calls, call.frame.final
  limit : (bytesOf (upToEnd u.calls)).length ≤ u.limit

/-- The part of the frame call under way that is of an upload. -/
def State.flightOf (s : State) (k : ℕ) : Option (Frame × Phase) :=
  s.flight.bind fun flight => if flight.channel = k then some (flight.frame, flight.phase) else none

structure Invariant (s : State) : Prop where
  sound : ∀ (k : ℕ) (u : Upload), s.uploads[k]? = some u → Sound u (s.flightOf k)
  unique : ∀ (j k : ℕ) (u v : Upload), s.uploads[j]? = some u → s.uploads[k]? = some v → u.sequence.isSome →
    v.sequence.isSome → u.id = v.id → j = k
  flying : ∀ flight ∈ s.flight, flight.channel < s.uploads.length

/-- A change of an upload that does not put it into the map. -/
def Tame (u u' : Upload) : Prop := u'.id = u.id ∧ (u'.sequence.isSome → u.sequence.isSome)

section Changes

variable {u : Upload} {f : Frame} {s : State} {k : ℕ}

theorem tame_cutOff (u : Upload) : Tame u u.cutOff := by
  unfold Upload.cutOff
  split
  · exact ⟨rfl, by simp⟩
  · exact ⟨rfl, id⟩

theorem tame_ignore (u : Upload) (f : Frame) : Tame u (u.ignore f) := by
  unfold Upload.ignore
  split <;> exact ⟨rfl, id⟩

theorem tame_taken (u : Upload) (f : Frame) : Tame u (u.taken f) := by
  refine ⟨rfl, ?_⟩
  simp only [Upload.taken]
  split <;> simp

theorem tame_lookUp (u : Upload) (f : Frame) : Tame u (u.lookUp f) := by
  have htaken := tame_taken u f
  unfold Upload.lookUp
  split <;> exact htaken

theorem tame_receive (u : Upload) : Tame u u.receive := by
  obtain ⟨hid, -, hentry, -⟩ := receive_kept u
  exact ⟨hid, fun h => hentry ▸ h⟩

/-- Changing uploads in place keeps the ids of the map apart. -/
theorem Invariant.unique_of (h : Invariant s) {s' : State}
    (htame : ∀ (k : ℕ) (u' : Upload), s'.uploads[k]? = some u' → ∃ u, s.uploads[k]? = some u ∧ Tame u u') :
    ∀ (j k : ℕ) (u v : Upload), s'.uploads[j]? = some u → s'.uploads[k]? = some v → u.sequence.isSome →
      v.sequence.isSome → u.id = v.id → j = k := by
  intro j k u v hu hv husome hvsome hid
  obtain ⟨u₀, hu₀, huid, huentry⟩ := htame j u hu
  obtain ⟨v₀, hv₀, hvid, hventry⟩ := htame k v hv
  exact h.unique j k u₀ v₀ hu₀ hv₀ (huentry husome) (hventry hvsome) (by rw [← huid, ← hvid, hid])

theorem getElem?_modify_cases {uploads : List Upload} {change : Upload → Upload} {j : ℕ}
    {u' : Upload} (h : (uploads.modify k change)[j]? = some u') :
    (j = k ∧ ∃ u, uploads[k]? = some u ∧ u' = change u) ∨ (j ≠ k ∧ uploads[j]? = some u') := by
  rw [List.getElem?_modify] at h
  obtain ⟨u, hu, heq⟩ := Option.map_eq_some_iff.mp h
  by_cases hjk : k = j
  · subst hjk
    rw [if_pos rfl] at heq
    exact .inl ⟨rfl, u, hu, heq.symm⟩
  · rw [if_neg hjk] at heq
    exact .inr ⟨Ne.symm hjk, heq ▸ hu⟩

theorem getElem?_concat_cases {uploads : List Upload} {new : Upload} {j : ℕ} {u : Upload}
    (h : (uploads ++ [new])[j]? = some u) :
    uploads[j]? = some u ∨ (j = uploads.length ∧ u = new) := by
  by_cases hj : j < uploads.length
  · rw [List.getElem?_append_left hj] at h
    exact .inl h
  · obtain ⟨hlt, heq⟩ := List.getElem?_eq_some_iff.mp h
    rw [List.length_append, List.length_singleton] at hlt
    have hlast : j = uploads.length := by omega
    subst hlast
    exact .inr ⟨rfl, by simpa using heq.symm⟩

theorem flightOf_ne {flight : Flight} {j : ℕ} (hflight : s.flight = some flight)
    (hne : flight.channel ≠ j) : s.flightOf j = none := by
  rw [State.flightOf, hflight, Option.bind_some, if_neg hne]

theorem flightOf_self {flight : Flight} (hflight : s.flight = some flight) :
    s.flightOf flight.channel = some (flight.frame, flight.phase) := by
  rw [State.flightOf, hflight, Option.bind_some, if_pos rfl]

/-! ### Steps -/

/-- A part of a frame call changes the upload of the call. -/
theorem Invariant.part (h : Invariant s) {f : Frame} {phase : Phase} {change : Upload → Upload}
    (next : Option Phase) (hflight : s.flight = some ⟨f, k, phase⟩)
    (hsound : ∀ u, s.uploads[k]? = some u → Sound u (some (f, phase)) →
      Sound (change u) (next.map fun phase => (f, phase)))
    (htame : ∀ u, Tame u (change u)) :
    Invariant ⟨s.uploads.modify k change, next.map fun phase => ⟨f, k, phase⟩, s.cleanups⟩ where
  sound j u' hu' := by
    obtain ⟨rfl, u, hu, rfl⟩ | ⟨hne, hu⟩ := getElem?_modify_cases hu'
    · have hbefore := h.sound j u hu
      rw [flightOf_self hflight] at hbefore
      have hafter := hsound u hu hbefore
      cases next with
      | none => exact hafter
      | some phase => simpa [State.flightOf] using hafter
    · have hbefore := h.sound j u' hu
      rw [flightOf_ne hflight (Ne.symm hne)] at hbefore
      cases next with
      | none => exact hbefore
      | some phase => simpa [State.flightOf, Ne.symm hne] using hbefore
  unique := h.unique_of fun j u' hu' => by
    obtain ⟨rfl, u, hu, rfl⟩ | ⟨hne, hu⟩ := getElem?_modify_cases hu'
    · exact ⟨u, hu, htame u⟩
    · exact ⟨u', hu, rfl, id⟩
  flying flight hmem := by
    have hbound := h.flying _ hflight
    obtain ⟨phase, -, rfl⟩ := Option.map_eq_some_iff.mp hmem
    rw [List.length_modify]
    exact hbound

/-- A consumer changes its own upload. -/
theorem Invariant.consumer (h : Invariant s) {change : Upload → Upload} (hu : s.uploads[k]? = some u)
    (hsound : ∀ phase, Sound u phase → Sound (change u) phase) (htame : ∀ u, Tame u (change u)) :
    Invariant (s.consumed k u change) where
  sound j u' hu' := by
    obtain ⟨rfl, v, hv, rfl⟩ | ⟨hne, hv⟩ := getElem?_modify_cases hu'
    · rw [hu] at hv
      cases hv
      exact hsound _ (h.sound j u hu)
    · exact h.sound j u' hv
  unique := h.unique_of fun j u' hu' => by
    obtain ⟨rfl, v, hv, rfl⟩ | ⟨hne, hv⟩ := getElem?_modify_cases hu'
    · exact ⟨v, hv, htame v⟩
    · exact ⟨u', hv, rfl, id⟩
  flying flight hmem := by
    have hbound := h.flying flight hmem
    show flight.channel < (s.uploads.modify k change).length
    rw [List.length_modify]
    exact hbound

theorem Invariant.reads {s' : State} (h : Invariant s) (hstep : Reads k s s') : Invariant s' := by
  cases hstep with
  | receive u hu hopen hitem =>
    exact h.consumer hu (fun phase hsound => hsound.receive hopen hitem) tame_receive
  | disconnected u hu hopen hempty hsender =>
    exact h.consumer hu (fun phase hsound => hsound.fail hopen hempty _) fun _ => ⟨rfl, id⟩
  | idle u hu hopen hempty hsender =>
    exact h.consumer hu (fun phase hsound => hsound.fail hopen hempty _) fun _ => ⟨rfl, id⟩

/-- The map loses some of its streams. -/
theorem Invariant.cut (h : Invariant s) (gone : Upload → Bool) (cleanups : List Uuid) :
    Invariant ⟨s.uploads.map fun u => if gone u then u.cutOff else u, s.flight, cleanups⟩ where
  sound k u' hu' := by
    obtain ⟨u, hu, rfl⟩ := Option.map_eq_some_iff.mp ((List.getElem?_map ..).symm.trans hu')
    have hbefore : Sound u (s.flightOf k) := h.sound k u hu
    split
    · exact hbefore.cutOff
    · exact hbefore
  unique := h.unique_of fun k u' hu' => by
    obtain ⟨u, hu, rfl⟩ := Option.map_eq_some_iff.mp ((List.getElem?_map ..).symm.trans hu')
    refine ⟨u, hu, ?_⟩
    split
    · exact tame_cutOff u
    · exact ⟨rfl, id⟩
  flying flight hmem := by
    rw [List.length_map]
    exact h.flying flight hmem

/-- The map holds at most one upload of an id. -/
theorem Invariant.findIdx (h : Invariant s) {id : Uuid} (hu : s.uploads[k]? = some u)
    (hheld : u.held id) : s.uploads.findIdx? (·.held id) = some k := by
  obtain ⟨hk, heq⟩ := List.getElem?_eq_some_iff.mp hu
  refine List.findIdx?_eq_some_iff_getElem.mpr ⟨hk, by rw [heq]; exact hheld, fun j hj hother => ?_⟩
  simp only [Upload.held, Bool.and_eq_true, decide_eq_true_eq] at hheld hother
  have hsame := h.unique j k _ u (List.getElem?_eq_getElem (by omega)) hu hother.1 hheld.1
    (by rw [hother.2, hheld.2])
  omega

/-- A frame is looked up: the upload that the map holds takes it, and all others ignore it. -/
theorem Invariant.frame (h : Invariant s) (hidle : s.flight = none) (f : Frame) :
    Invariant (s.frame f) where
  sound k u' hu' := by
    obtain ⟨u, hu, rfl⟩ := Option.map_eq_some_iff.mp ((List.getElem?_map ..).symm.trans hu')
    have hbefore : Sound u none := by
      have hsound := h.sound k u hu
      rwa [State.flightOf, hidle, Option.bind_none] at hsound
    split
    · next hheld =>
      have hfind := h.findIdx hu hheld
      have hflight : (s.frame f).flightOf k = (u.nextPhase f).map fun phase => (f, phase) := by
        simp only [State.flightOf, State.frame, hfind, Option.bind_some, hu]
        cases u.nextPhase f <;> simp
      rw [hflight]
      exact hbefore.lookUp hheld
    · next hfree =>
      have hflight : (s.frame f).flightOf k = none := by
        simp only [State.flightOf, State.frame]
        cases hfind : s.uploads.findIdx? (·.held f.id) with
        | none => rfl
        | some j =>
          obtain ⟨hj, hheld, -⟩ := List.findIdx?_eq_some_iff_getElem.mp hfind
          have hne : j ≠ k := by
            rintro rfl
            rw [(List.getElem?_eq_some_iff.mp hu).2] at hheld
            exact hfree hheld
          simp only [Option.bind_some, List.getElem?_eq_getElem hj]
          cases s.uploads[j].nextPhase f <;> simp [hne]
      rw [hflight]
      exact hbefore.ignore hfree
  unique := h.unique_of fun k u' hu' => by
    obtain ⟨u, hu, rfl⟩ := Option.map_eq_some_iff.mp ((List.getElem?_map ..).symm.trans hu')
    refine ⟨u, hu, ?_⟩
    split
    · exact tame_lookUp u f
    · exact tame_ignore u f
  flying flight hmem := by
    simp only [State.frame, Option.mem_def, Option.bind_eq_some_iff, Option.map_eq_some_iff] at hmem
    obtain ⟨k, -, u, hu, phase, -, rfl⟩ := hmem
    show k < (s.uploads.map _).length
    rw [List.length_map]
    exact (List.getElem?_eq_some_iff.mp hu).1

/-- An upload is opened under an id that the map does not hold. -/
theorem Invariant.opened (h : Invariant s) {id : Uuid} {limit : ℕ} (hlimit : limit ≤ maxBytes)
    (hfree : ¬ s.contains id) : Invariant (s.opened id limit) where
  sound k u hu := by
    obtain hold | ⟨hnew, rfl⟩ := getElem?_concat_cases hu
    · exact h.sound k u hold
    · have hflight : (s.opened id limit).flightOf k = none := by
        cases hflight : s.flight with
        | none => simp [State.flightOf, State.opened, hflight]
        | some flight =>
          have hbound := h.flying flight hflight
          exact flightOf_ne (s := s.opened id limit) hflight (by omega)
      rw [hflight]
      exact sound_opened id hlimit
  unique j k u v hu hv husome hvsome hid := by
    have hfresh : ∀ {i : ℕ} {w : Upload}, s.uploads[i]? = some w → w.sequence.isSome → w.id ≠ id := by
      intro i w hw hsome heq
      apply hfree
      exact List.any_eq_true.mpr ⟨w, List.mem_of_getElem? hw, by simp [Upload.held, hsome, heq]⟩
    obtain hu | ⟨hj, rfl⟩ := getElem?_concat_cases hu <;>
      obtain hv | ⟨hk, rfl⟩ := getElem?_concat_cases hv
    · exact h.unique j k u v hu hv husome hvsome hid
    · exact absurd hid (hfresh hu husome)
    · exact absurd hid.symm (hfresh hv hvsome)
    · omega
  flying flight hmem := by
    have hbound := h.flying flight hmem
    show flight.channel < (s.uploads ++ [_]).length
    rw [List.length_append]
    omega

theorem Invariant.drop (h : Invariant s) (hflight : s.flight = some ⟨f, k, .drop⟩) :
    Invariant (s.remove f.id).finish where
  sound j u' hu' := by
    obtain ⟨u, hu, rfl⟩ := Option.map_eq_some_iff.mp ((List.getElem?_map ..).symm.trans hu')
    have hbefore := h.sound j u hu
    show Sound _ none
    by_cases hjk : j = k
    · subst hjk
      rw [flightOf_self hflight] at hbefore
      exact hbefore.drop
    · rw [flightOf_ne hflight (Ne.symm hjk)] at hbefore
      split
      · exact hbefore.cutOff
      · exact hbefore
  unique := (h.cut (·.held f.id) s.cleanups).unique
  flying flight hmem := by
    simp [State.finish] at hmem

/-- One step of any party. -/
theorem Invariant.step {s' : State} (h : Invariant s) (hstep : Step s s') : Invariant s' := by
  cases hstep with
  | begin id limit hlimit hroom hfree => exact h.opened hlimit hfree
  | disconnect =>
    have hcut := h.cut (fun _ => true) s.cleanups
    simp only [if_true] at hcut
    exact hcut
  | cleanUp id hid => exact h.cut (·.held id) _
  | frame f hidle => exact h.frame hidle f
  | interrupt f k hflight =>
    refine h.part none hflight (fun u _ hsound => hsound.interrupt _) fun u => ?_
    unfold Upload.tryPush
    split <;> exact ⟨rfl, id⟩
  | data f k u hflight hu hready =>
    split
    · next hfinal =>
      refine h.part (some .mark) hflight (fun v hv hsound => ?_) fun _ => ⟨rfl, id⟩
      rw [hu] at hv
      cases hv
      exact hsound.dataFinal hready hfinal
    · next hopen =>
      refine h.part none hflight (fun v hv hsound => ?_) fun _ => ⟨rfl, id⟩
      rw [hu] at hv
      cases hv
      exact hsound.dataMore hready hopen
  | dataLate f k hflight =>
    exact h.part (some .drop) hflight (fun u _ hsound => hsound.dataLate) fun _ => ⟨rfl, id⟩
  | drop f k hflight => exact h.drop hflight
  | mark f k u hflight hu hready =>
    refine h.part none hflight (fun v hv hsound => ?_) fun _ => ⟨rfl, id⟩
    rw [hu] at hv
    cases hv
    exact hsound.mark hready
  | markLate f k hflight =>
    exact h.part none hflight (fun u _ hsound => hsound.markLate) fun _ => ⟨rfl, id⟩
  | reads k hreads => exact h.reads hreads

/-- The invariant holds in every run. -/
theorem Reachable.invariant (h : Reachable s) : Invariant s := by
  induction h with
  | start => exact ⟨by simp [State.empty], by simp [State.empty], by simp [State.empty]⟩
  | next _ hstep ih => exact ih.step hstep

end Changes

/-! ### What the consumer sees -/

section Outcomes

variable {u : Upload} {phase : Option (Frame × Phase)} {s : State} {k : ℕ}

theorem size_chunksOf (calls : List Call) : size (chunksOf calls) = (bytesOf calls).length := by
  rw [size, flatten_chunksOf]

theorem whole_iff : Whole u ↔
    verdict 0 u.calls = .whole ∧ (bytesOf (upToEnd u.calls)).length ≤ u.limit := by
  rw [verdict_whole_iff]
  simp only [Nat.zero_add]
  exact ⟨fun h => ⟨⟨h.numbered, h.ended⟩, h.limit⟩, fun h => ⟨h.1.1, h.1.2, h.2⟩⟩

/-- What was sent on the channel is decided by the frames. -/
theorem Pumped.mark_iff {tail : List Item} (h : Pumped u phase tail) :
    tail = [endMark] ↔ verdict 0 u.calls = .whole := by
  cases h with
  | live hcalls | lost hcalls | data f hcalls | mark f hcalls | interrupt f hcalls | drop f hcalls =>
    simp [hcalls]
  | whole hcalls => simp [hcalls]
  | broken hcalls hentry htail => simp [hcalls, htail]

theorem Pumped.accepted_eq {tail : List Item} (h : Pumped u phase tail)
    (hwhole : verdict 0 u.calls = .whole) : u.accepted = chunksOf (upToEnd u.calls) := by
  cases h with
  | live hcalls | lost hcalls | data f hcalls | mark f hcalls | interrupt f hcalls | drop f hcalls
  | broken hcalls =>
    rw [hcalls] at hwhole
    cases hwhole
  | whole hcalls haccepted => exact haccepted

/-- A consumer ends cleanly when the body is whole, and it has all of it then. -/
theorem Sound.outcome {outcome : Outcome} (h : Sound u phase) (houtcome : u.outcome = some outcome) :
    (outcome = .ended ↔ Whole u) ∧
      (outcome = .ended → u.yielded.flatten = bytesOf (upToEnd u.calls)) := by
  obtain ⟨tail, hclosing, hchunks, hlimit, hconsumed, hpumped⟩ := h
  rw [whole_iff, ← hpumped.mark_iff]
  cases hconsumed with
  | waiting hopen => rw [hopen] at houtcome; cases houtcome
  | ended hended htail hyielded hle =>
    rw [hended] at houtcome
    cases houtcome
    have haccepted := hpumped.accepted_eq (hpumped.mark_iff.mp htail)
    rw [hyielded, haccepted] at hle ⊢
    rw [size_chunksOf] at hle
    exact ⟨iff_of_true rfl ⟨htail, hle⟩, fun _ => flatten_chunksOf _⟩
  | failed error hfailed hfront hle htail =>
    rw [hfailed] at houtcome
    cases houtcome
    refine ⟨iff_of_false (by simp) ?_, by simp⟩
    intro ⟨hmark, hfits⟩
    have hover := htail hmark
    rw [hpumped.accepted_eq (hpumped.mark_iff.mp hmark), size_chunksOf] at hover
    omega

/-- At any time a consumer has a first part of what was accepted, within the limit. -/
theorem Sound.yielded (h : Sound u phase) :
    u.yielded.flatten <+: u.accepted.flatten ∧ u.yielded.flatten.length ≤ u.limit := by
  obtain ⟨tail, hclosing, hchunks, hlimit, hconsumed, hpumped⟩ := h
  obtain ⟨more, hmore⟩ := hconsumed.prefix hclosing
  refine ⟨⟨more.flatten, by rw [← List.flatten_append, hmore]⟩, ?_⟩
  cases hconsumed with
  | waiting houtcome hitems hnonempty htotal hle => exact hle
  | ended houtcome htail hyielded hle => exact hle
  | failed error houtcome hfront hle htail => exact hle

theorem receive_shorter (hitem : u.queue ≠ []) :
    u.receive.outcome ≠ none ∨ u.receive.queue.length < u.queue.length := by
  unfold Upload.receive
  split
  · next hnil => exact absurd hnil hitem
  · exact .inl (by simp [Upload.fail])
  · exact .inl (by simp)
  · next hqueue _ =>
    simp only
    split
    · exact .inl (by simp [Upload.fail])
    · exact .inr (by simp_all)

/-- A consumer that reads on comes to an end, whatever the others do not do. -/
theorem reads_to_end (hu : s.uploads[k]? = some u) :
    ∃ s' u', Relation.ReflTransGen (Reads k) s s' ∧ s'.uploads[k]? = some u' ∧ u'.outcome ≠ none ∧
      u'.calls = u.calls := by
  have hself : ∀ {s : State} {u : Upload} (change : Upload → Upload), s.uploads[k]? = some u →
      (s.consumed k u change).uploads[k]? = some (change u) := by
    intro s u change hu
    show (s.uploads.modify k change)[k]? = _
    rw [List.getElem?_modify, hu]
    simp
  induction hlength : u.queue.length using Nat.strongRecOn generalizing s u with
  | ind n ih =>
    by_cases hopen : u.outcome = none
    · by_cases hempty : u.queue = []
      · by_cases hsender : u.sequence ≠ none ∨ ∃ flight ∈ s.flight, flight.channel = k
        · exact ⟨_, _, .single (.idle u hu hopen hempty hsender), hself _ hu, by simp [Upload.fail], rfl⟩
        · exact ⟨_, _, .single (.disconnected u hu hopen hempty hsender), hself _ hu,
            by simp [Upload.fail], rfl⟩
      · have hstep := Reads.receive (k := k) u hu hopen hempty
        have hcalls := (receive_kept u).2.1
        obtain hend | hless := receive_shorter hempty
        · exact ⟨_, _, .single hstep, hself _ hu, hend, hcalls⟩
        · obtain ⟨s', u', hreads, hu', hend, hsame⟩ := ih _ (hlength ▸ hless) (hself _ hu) rfl
          exact ⟨s', u', .head hstep hreads, hu', hend, hsame.trans hcalls⟩
    · exact ⟨s, u, .refl, hu, hopen, rfl⟩

end Outcomes

/-- In every run, whatever comes of an upload: its consumer ends cleanly exactly when its frames up
to the end were in order, connected and in time within the limit, and then it has their bytes; it
always has a first part of what was accepted within the limit; and when it reads on it comes to an
end. -/
theorem uploads_whole_or_broken (s : State) (hreachable : Reachable s) (k : ℕ) (u : Upload)
    (hu : s.uploads[k]? = some u) :
    (∀ outcome, u.outcome = some outcome → (outcome = .ended ↔ Whole u) ∧
      (outcome = .ended → u.yielded.flatten = bytesOf (upToEnd u.calls))) ∧
    u.yielded.flatten <+: u.accepted.flatten ∧ u.yielded.flatten.length ≤ u.limit ∧
    ∃ s' u', Relation.ReflTransGen (Reads k) s s' ∧ s'.uploads[k]? = some u' ∧ u'.outcome ≠ none ∧
      u'.calls = u.calls := by
  have hsound := hreachable.invariant.sound k u hu
  exact ⟨fun outcome houtcome => hsound.outcome houtcome, hsound.yielded.1, hsound.yielded.2,
    reads_to_end hu⟩

/-! ### A repeated frame -/

/-- All frames of an upload are numbered from zero without gap or repeat, the last one and no other
is flagged as the end, and no send is late. -/
def AllNumbered (u : Upload) : Prop :=
  u.calls ≠ [] ∧ (bytesOf u.calls).length ≤ u.limit ∧
    ∀ (n : ℕ) (call : Call), u.calls[n]? = some call →
      call.frame.kind = .proxyUpload ∧ call.frame.sequence = UInt64.ofNat n ∧
      (call.frame.final ↔ n + 1 = u.calls.length) ∧ call.inTime

def firstFrame : Frame := ⟨.proxyUpload, false, 5, 0, [3]⟩

def lastFrame : Frame := ⟨.proxyUpload, true, 5, 1, [7]⟩

/-- An upload of two frames, with what its parties have done so far. -/
def uploadOf (sequence : Option UInt64) (queue : List Item) (yielded : List (List UInt8))
    (outcome : Option Outcome) (accepted : List (List UInt8)) (calls : List Call) : Upload :=
  ⟨5, 10, sequence, queue, size yielded, yielded, outcome, accepted, calls, false⟩

def stateOf (upload : Upload) (flight : Option Flight) (cleanups : List Uuid) : State :=
  ⟨[upload], flight, cleanups⟩

def firstCall : Call := ⟨firstFrame, false, true⟩

def lastCall : Call := ⟨lastFrame, false, true⟩

def endedUpload (calls : List Call) : Upload :=
  uploadOf none [] [[3], [7]] (some .ended) [[3], [7]] (firstCall :: lastCall :: calls)

/-- The frames are sent, and the consumer reads to the end. -/
theorem endedUpload_reachable : Reachable (stateOf (endedUpload []) none [5]) := by
  let opened := uploadOf (some 0) [] [] none [] []
  let taken := uploadOf (some 1) [] [] none [] []
  let half := uploadOf (some 1) [.ok [3]] [] none [[3]] [firstCall]
  let last := uploadOf none [.ok [3]] [] none [[3]] [firstCall]
  let marked := uploadOf none [.ok [3], .ok [7]] [] none [[3], [7]] [firstCall]
  let sent := uploadOf none [.ok [3], .ok [7], endMark] [] none [[3], [7]] [firstCall, lastCall]
  let read := uploadOf none [.ok [7], endMark] [[3]] none [[3], [7]] [firstCall, lastCall]
  let whole := uploadOf none [endMark] [[3], [7]] none [[3], [7]] [firstCall, lastCall]
  have hbegin : Step State.empty (stateOf opened none []) :=
    .begin 5 10 (by decide) (by decide) (by decide)
  have hfirst : Step (stateOf opened none []) (stateOf taken (some ⟨firstFrame, 0, .data⟩) []) :=
    .frame firstFrame rfl
  have hhalf : Step (stateOf taken (some ⟨firstFrame, 0, .data⟩) []) (stateOf half none []) :=
    .data firstFrame 0 _ rfl rfl rfl
  have hlast : Step (stateOf half none []) (stateOf last (some ⟨lastFrame, 0, .data⟩) []) :=
    .frame lastFrame rfl
  have hdata : Step (stateOf last (some ⟨lastFrame, 0, .data⟩) [])
      (stateOf marked (some ⟨lastFrame, 0, .mark⟩) []) := .data lastFrame 0 _ rfl rfl rfl
  have hmark : Step (stateOf marked (some ⟨lastFrame, 0, .mark⟩) []) (stateOf sent none []) :=
    .mark lastFrame 0 _ rfl rfl rfl
  have hchunk : Step (stateOf sent none []) (stateOf read none []) :=
    .reads 0 (.receive sent rfl rfl (List.cons_ne_nil _ _))
  have hrest : Step (stateOf read none []) (stateOf whole none []) :=
    .reads 0 (.receive read rfl rfl (List.cons_ne_nil _ _))
  have hend : Step (stateOf whole none []) (stateOf (endedUpload []) none [5]) :=
    .reads 0 (.receive whole rfl rfl (List.cons_ne_nil _ _))
  exact ((((((((Reachable.start.next hbegin).next hfirst).next hhalf).next hlast).next hdata).next
    hmark).next hchunk).next hrest).next hend

/-- A repeat of the last frame after the end is ignored, and the body still ends cleanly. -/
theorem repeat_ends_cleanly : ¬ ∀ s, Reachable s → ∀ (k : ℕ) (u : Upload), s.uploads[k]? = some u →
    ∀ outcome, u.outcome = some outcome → (outcome = .ended ↔ AllNumbered u) := by
  intro h
  have hrepeat : Step (stateOf (endedUpload []) none [5]) (stateOf (endedUpload [lastCall]) none [5]) :=
    .frame lastFrame rfl
  obtain ⟨-, -, hnumbered⟩ := (h _ (endedUpload_reachable.next hrepeat) 0 _ rfl .ended rfl).mp rfl
  have hlast := hnumbered 1 lastCall rfl
  exact absurd (hlast.2.2.1.mp rfl) (by simp [endedUpload, uploadOf])

theorem two_frames_whole : Whole (endedUpload []) ∧ (endedUpload []).yielded.flatten = [3, 7] := by
  have hlaw := uploads_whole_or_broken _ endedUpload_reachable 0 (endedUpload []) rfl
  exact ⟨(hlaw.1 .ended rfl).1.mp rfl, (hlaw.1 .ended rfl).2 rfl⟩

end NyxId.ProxyUploads
