import NyxId.DeadlineRecovery.Model

/-!
A pass visits every record once, and stops every machine that is due and answers, exactly when each
batch can list its page and nothing goes wrong on a page before its last record.
-/

namespace NyxId.DeadlineRecovery

open Interleave Outcomes

section

variable {isUuid : Id → Bool} {providerBootId : String} {now : ClockSample} {w w' : World}
variable {record : DeadlineRecord} {id : Id}

/-! ### What the calls for one machine change -/

structure Touches (id : Id) (w w' : World) : Prop where
  keys : w'.journal.keys.Perm w.journal.keys
  others : ∀ other, other ≠ id → w'.journal.lookup other = w.journal.lookup other
  own : (∃ r, w.journal.lookup id = some r ∧ r.machineId = id) →
    ∃ r, w'.journal.lookup id = some r ∧ r.machineId = id
  stops : w.stops ⊆ w'.stops
  visited : w'.visited = w.visited

theorem Touches.refl (id : Id) (w : World) : Touches id w w :=
  ⟨.refl _, fun _ _ => rfl, fun h => h, fun _ h => h, rfl⟩

theorem Touches.trans {w'' : World} (h : Touches id w w') (h' : Touches id w' w'') :
    Touches id w w'' where
  keys := h'.keys.trans h.keys
  others other hother := (h'.others other hother).trans (h.others other hother)
  own hown := h'.own (h.own hown)
  stops := fun _ hstop => h'.stops (h.stops hstop)
  visited := h'.visited.trans h.visited

theorem keys_insert_of_mem {docs : Collection Id DeadlineRecord} (h : id ∈ docs.keys)
    (next : DeadlineRecord) : (docs.insert id next).keys.Perm docs.keys := by
  refine (List.perm_ext_iff_of_nodup (docs.insert id next).nodupKeys docs.nodupKeys).mpr ?_
  intro other
  change other ∈ (docs.insert id next).keys ↔ other ∈ docs.keys
  rw [← AList.mem_keys, AList.mem_insert, AList.mem_keys]
  exact or_iff_right_of_imp fun heq => heq ▸ h

/-- A record that was written in place of an earlier one. -/
theorem touches_insert {next : DeadlineRecord} (hfound : w.journal.lookup id = some record)
    (hnext : next.machineId = id) :
    Touches id w { w with journal := w.journal.insert id next } where
  keys := keys_insert_of_mem (AList.lookup_isSome.mp (by rw [hfound]; rfl)) next
  others _ hother := AList.lookup_insert_ne hother
  own _ := ⟨next, AList.lookup_insert .., hnext⟩
  stops := fun _ h => h
  visited := rfl

/-- An exchange of the record that is there for its next version. -/
theorem compareExchange_next {answer : Answer} {next : DeadlineRecord}
    (hfound : w.journal.lookup id = some record) (hnext : next.machineId = id)
    (hversion : next.storeVersion = record.storeVersion + 1) :
    compareExchange answer id (some record.storeVersion) next w =
      if answer = .failed then (.error .io, w)
      else (if answer = .done then .ok true else .error .io,
        { w with journal := w.journal.insert id next }) := by
  have hsame : (w.journal.lookup id).map DeadlineRecord.storeVersion = some record.storeVersion := by
    rw [hfound, Option.map_some]
  have hfits : ¬ (next.machineId ≠ id ∨
      next.storeVersion ≠ (some record.storeVersion).getD 0 + 1) := by
    rw [hnext, hversion, Option.getD_some]
    simp
  unfold compareExchange
  rw [if_neg (not_not_intro hsame), if_neg hfits]

theorem touches_compareExchange {answer : Answer} {next : DeadlineRecord}
    (hfound : w.journal.lookup id = some record) (hnext : next.machineId = id)
    (hversion : next.storeVersion = record.storeVersion + 1) :
    Touches id w (compareExchange answer id (some record.storeVersion) next w).2 := by
  rw [compareExchange_next hfound hnext hversion]
  split
  · exact .refl id w
  · exact touches_insert hfound hnext

theorem exchanged_world (raced : String) (event : Option TerminalRuntimeEvent)
    (r : Except Failure Bool × World) : (exchanged raced event r).2 = r.2 := by
  obtain ⟨r, w⟩ := r
  match r with
  | .error e => rfl
  | .ok true => rfl
  | .ok false => rfl

theorem touches_requestStop (answer : Answer) (target : ResolvedRuntimeTarget) (revision : ℕ) :
    Touches id w (requestStop answer target revision w).2 := by
  unfold requestStop
  split
  · exact .refl id w
  · exact ⟨.refl _, fun _ _ => rfl, fun h => h, List.subset_append_left _ _, rfl⟩

/-! ### The steps for one record -/

/-- The record with its stop requested. -/
def fence (record : DeadlineRecord) (now : ClockSample) (w : World) : World :=
  { w with journal := w.journal.insert record.machineId (stopped record now) }

theorem stopRecord_eq (calls : Calls) (hfound : w.journal.lookup record.machineId = some record)
    (hstate : record.state ≠ .terminal) : stopRecord calls record now w =
      if calls.stop = .failed then (.error .io, w)
      else if calls.stop = .lost then (.error .io, fence record now w)
      else requestStop calls.requestStop record.resolved record.control.controlRevision
        (fence record now w) := by
  unfold stopRecord
  have hnext : (stopped record now).machineId = record.machineId := rfl
  rw [if_neg hstate, compareExchange_next hfound hnext rfl]
  cases calls.stop <;> rfl

theorem settle_eq (calls : Calls) (hfound : w.journal.lookup record.machineId = some record) :
    settle isUuid calls record.machineId now w =
      if calls.load = false then (.error .io, w)
      else match calls.terminalEvent with
        | none => (.error .io, w)
        | some none => (.ok none, w)
        | some (some event) =>
          if eventFits isUuid record now event then
            if calls.exchange = .failed then (.error .io, w)
            else (if calls.exchange = .done then .ok (some event) else .error .io,
              { w with journal := w.journal.insert record.machineId (ended record event) })
          else (.error (.refused "terminal event mismatch"), w) := by
  unfold settle load
  cases calls.load with
  | false => rfl
  | true =>
    rw [if_pos rfl, if_neg (by simp), hfound]
    cases calls.terminalEvent with
    | none => rfl
    | some found =>
      cases found with
      | none => rfl
      | some event =>
        have hnext : (ended record event).machineId = record.machineId := rfl
        dsimp only
        rw [compareExchange_next hfound hnext rfl]
        split
        · cases calls.exchange <;> rfl
        · rfl

theorem settle_touches (calls : Calls) (hfound : w.journal.lookup record.machineId = some record) :
    Touches record.machineId w (settle isUuid calls record.machineId now w).2 := by
  rw [settle_eq calls hfound]
  split
  · exact .refl _ w
  · split
    · exact .refl _ w
    · exact .refl _ w
    · split
      · split
        · exact .refl _ w
        · exact touches_insert hfound rfl
      · exact .refl _ w

/-- What is settled stays stopped. -/
theorem settle_state (calls : Calls) (hfound : w.journal.lookup record.machineId = some record)
    (hstate : record.state = .stopRequested) :
    ∃ r, (settle isUuid calls record.machineId now w).2.journal.lookup record.machineId = some r ∧
      (r.state = .stopRequested ∨ r.state = .terminal) := by
  rw [settle_eq calls hfound]
  split
  · exact ⟨record, hfound, Or.inl hstate⟩
  · split
    · exact ⟨record, hfound, Or.inl hstate⟩
    · exact ⟨record, hfound, Or.inl hstate⟩
    · split
      · split
        · exact ⟨record, hfound, Or.inl hstate⟩
        · exact ⟨_, AList.lookup_insert .., Or.inr rfl⟩
      · exact ⟨record, hfound, Or.inl hstate⟩

theorem settle_isOk (calls : Calls) (hfound : w.journal.lookup record.machineId = some record) :
    (settle isUuid calls record.machineId now w).1.isOk = (calls.load &&
      match calls.terminalEvent with
      | none => false
      | some none => true
      | some (some event) => eventFits isUuid record now event && decide (calls.exchange = .done)) := by
  rw [settle_eq calls hfound]
  cases calls.load with
  | false => rfl
  | true =>
    rw [if_neg (by simp), Bool.true_and]
    cases calls.terminalEvent with
    | none => rfl
    | some found =>
      cases found with
      | none => rfl
      | some event =>
        dsimp only
        cases eventFits isUuid record now event with
        | false => rfl
        | true => cases calls.exchange <;> rfl

/-- Nothing goes wrong with the record: its calls answer, and a terminal event is accepted. -/
def undisturbed (isUuid : Id → Bool) (providerBootId : String) (calls : Calls)
    (now : ClockSample) (record : DeadlineRecord) : Bool :=
  record.state = .terminal ||
    if due providerBootId record now then
      calls.stop = .done && calls.requestStop = .done && calls.load &&
        match calls.terminalEvent with
        | none => false
        | some none => true
        | some (some event) => eventFits isUuid record now event && calls.exchange = .done
    else calls.exchange = .done

/-- What a visit owes to a record: one that is due is stopped, if its stop goes through. -/
structure Handled (providerBootId : String) (calls : Calls) (now : ClockSample)
    (record : DeadlineRecord) (w : World) : Prop where
  terminal : record.state = .terminal → w.journal.lookup record.machineId = some record
  stopped : record.state ≠ .terminal → due providerBootId record now = true → calls.stop = .done →
    calls.requestStop = .done →
      (∃ r, w.journal.lookup record.machineId = some r ∧
        (r.state = .stopRequested ∨ r.state = .terminal)) ∧
      (record.resolved, record.control.controlRevision) ∈ w.stops

/-! ### A visit -/

theorem fence_touches (hfound : w.journal.lookup record.machineId = some record) :
    Touches record.machineId w (fence record now w) := touches_insert hfound rfl

/-- The record with its stop requested and sent. -/
def sent (record : DeadlineRecord) (now : ClockSample) (w : World) : World :=
  { fence record now w with
    stops := w.stops ++ [(record.resolved, record.control.controlRevision)] }

theorem sent_touches (hfound : w.journal.lookup record.machineId = some record) :
    Touches record.machineId w (sent record now w) :=
  (fence_touches hfound).trans (touches_requestStop .done _ _)

/-- A world that differs in what it visited only. -/
def visit (id : Id) (w : World) : World := { w with visited := w.visited ++ [id] }

theorem recover_due (calls : Calls) (hstate : record.state ≠ .terminal) (hdue : due providerBootId record now = true) :
    recover isUuid providerBootId calls record now w =
      match stopRecord calls record now (visit record.machineId w) with
      | (.error e, w) => (.error e, w)
      | (.ok (), w) => settle isUuid calls record.machineId now w := by
  unfold recover
  dsimp only
  rw [if_neg hstate, if_pos hdue]
  rfl

structure Visited (isUuid : Id → Bool) (providerBootId : String) (calls : Calls)
    (now : ClockSample) (record : DeadlineRecord) (w : World)
    (r : Except Failure (Option TerminalRuntimeEvent) × World) : Prop where
  touches : Touches record.machineId (visit record.machineId w) r.2
  handled : Handled providerBootId calls now record r.2
  ends : r.1.isOk = undisturbed isUuid providerBootId calls now record

theorem recover_visited (calls : Calls) (hfound : w.journal.lookup record.machineId = some record) :
    Visited isUuid providerBootId calls now record w
      (recover isUuid providerBootId calls record now w) := by
  have hvisit : (visit record.machineId w).journal.lookup record.machineId = some record := hfound
  by_cases hstate : record.state = .terminal
  · unfold recover
    dsimp only
    rw [if_pos hstate]
    refine ⟨.refl _ _, ⟨fun _ => hfound, fun hne => absurd hstate hne⟩, ?_⟩
    rw [undisturbed, decide_eq_true hstate]
    rfl
  have hlive : decide (record.state = .terminal) = false := decide_eq_false hstate
  cases hdue : due providerBootId record now with
  | false =>
    have hnext : (observed record now).machineId = record.machineId := rfl
    have hrecover : recover isUuid providerBootId calls record now w =
        exchanged "deadline clock observation raced" none (compareExchange calls.exchange
          record.machineId (some record.storeVersion) (observed record now)
            (visit record.machineId w)) := by
      unfold recover
      dsimp only
      rw [if_neg hstate, if_neg (by rw [hdue]; exact Bool.false_ne_true)]
      rfl
    rw [hrecover]
    refine ⟨?_, ⟨fun h => absurd h hstate, fun _ h => ?_⟩, ?_⟩
    · rw [exchanged_world]
      exact touches_compareExchange hvisit hnext rfl
    · rw [hdue] at h
      cases h
    · rw [compareExchange_next hvisit hnext rfl, undisturbed, hlive, hdue]
      cases calls.exchange <;> rfl
  | true =>
    rw [recover_due calls hstate hdue, stopRecord_eq calls hvisit hstate]
    have hfence := @fence_touches now _ record hvisit
    have hnot : ∀ h : record.state = .terminal,
        ∀ w : World, w.journal.lookup record.machineId = some record := fun h => absurd h hstate
    cases hstop : calls.stop with
    | failed =>
      refine ⟨.refl _ _, ⟨fun h => hnot h _, fun _ _ h => ?_⟩, ?_⟩
      · rw [hstop] at h
        cases h
      · rw [undisturbed, hlive, hdue, hstop]
        rfl
    | lost =>
      refine ⟨hfence, ⟨fun h => hnot h _, fun _ _ h => ?_⟩, ?_⟩
      · rw [hstop] at h
        cases h
      · rw [undisturbed, hlive, hdue, hstop]
        rfl
    | done =>
      rw [if_neg (by simp), if_neg (by simp)]
      cases hrequest : calls.requestStop with
      | failed =>
        refine ⟨hfence, ⟨fun h => hnot h _, fun _ _ _ h => ?_⟩, ?_⟩
        · rw [hrequest] at h
          cases h
        · rw [undisturbed, hlive, hdue, hstop, hrequest]
          rfl
      | lost =>
        refine ⟨sent_touches hvisit, ⟨fun h => hnot h _, fun _ _ _ h => ?_⟩, ?_⟩
        · rw [hrequest] at h
          cases h
        · rw [undisturbed, hlive, hdue, hstop, hrequest]
          rfl
      | done =>
        have hsent : (sent record now (visit record.machineId w)).journal.lookup
            (stopped record now).machineId = some (stopped record now) := AList.lookup_insert ..
        obtain ⟨r, hr, hstopped⟩ := @settle_state isUuid now _ _ calls hsent rfl
        have hsettled := @settle_touches isUuid now _ _ calls hsent
        refine ⟨(sent_touches hvisit).trans hsettled, ⟨fun h => hnot h _, fun _ _ _ _ =>
          ⟨⟨r, hr, hstopped⟩, ?_⟩⟩, ?_⟩
        · exact hsettled.stops (List.mem_append_right _ (List.mem_singleton_self _))
        · have hends := @settle_isOk isUuid now _ _ calls hsent
          rw [undisturbed, hlive, hdue, hstop, hrequest]
          exact hends

/-! ### A batch -/

variable {calls : Id → Calls}

/-- Records as they are in the journal. -/
def Found (w : World) (records : List DeadlineRecord) : Prop :=
  ∀ record ∈ records, w.journal.lookup record.machineId = some record

def ids (records : List DeadlineRecord) : List Id := records.map DeadlineRecord.machineId

/-- What a part of a pass changes that handles the given records. -/
structure Leaves (handled : List Id) (w w' : World) : Prop where
  keys : w'.journal.keys.Perm w.journal.keys
  others : ∀ other, other ∉ handled → w'.journal.lookup other = w.journal.lookup other
  stops : w.stops ⊆ w'.stops

theorem Touches.leaves (h : Touches id (visit id w) w') : Leaves [id] w w' :=
  ⟨h.keys, fun other hother => h.others other fun heq => hother (heq ▸ List.mem_singleton_self _),
    h.stops⟩

theorem Leaves.trans {front back : List Id} {w'' : World} (h : Leaves front w w')
    (h' : Leaves back w' w'') : Leaves (front ++ back) w w'' where
  keys := h'.keys.trans h.keys
  others other hother := by
    rw [List.mem_append, not_or] at hother
    exact (h'.others other hother.2).trans (h.others other hother.1)
  stops := fun _ hstop => h'.stops (h.stops hstop)

theorem Handled.leaves {handled : List Id} {own : Calls}
    (h : Handled providerBootId own now record w) (hother : record.machineId ∉ handled)
    (hleaves : Leaves handled w w') : Handled providerBootId own now record w' where
  terminal hstate := (hleaves.others _ hother).trans (h.terminal hstate)
  stopped hstate hdue hstop hrequest := by
    obtain ⟨hrecord, hsent⟩ := h.stopped hstate hdue hstop hrequest
    rw [hleaves.others _ hother]
    exact ⟨hrecord, hleaves.stops hsent⟩

theorem Found.leaves {handled : List Id} {records : List DeadlineRecord} (h : Found w records)
    (hothers : ∀ record ∈ records, record.machineId ∉ handled) (hleaves : Leaves handled w w') :
    Found w' records := fun record hrecord =>
  (hleaves.others _ (hothers record hrecord)).trans (h record hrecord)

def come (isUuid : Id → Bool) (providerBootId : String) (calls : Id → Calls)
    (now : ClockSample) (records : List DeadlineRecord) : List DeadlineRecord :=
  Paging.through (fun r => undisturbed isUuid providerBootId (calls r.machineId) now r) records

theorem recoverAll_spec {records : List DeadlineRecord} (hfound : Found w records)
    (hnodup : (ids records).Nodup) {w' : World}
    (hw : (recoverAll isUuid providerBootId calls now records w).2 = w') :
    w'.visited = w.visited ++ ids (come isUuid providerBootId calls now records) ∧
      Leaves (ids records) w w' ∧
      ∀ record ∈ come isUuid providerBootId calls now records,
        Handled providerBootId (calls record.machineId) now record w' := by
  induction records generalizing w with
  | nil =>
    subst hw
    exact ⟨(List.append_nil _).symm, ⟨.refl _, fun _ _ => rfl, fun _ h => h⟩,
      fun _ h => absurd h List.not_mem_nil⟩
  | cons record records ih =>
    obtain ⟨hnew, hrest⟩ := List.nodup_cons.mp hnodup
    have hvisited := @recover_visited isUuid providerBootId now w record (calls record.machineId)
      (hfound record List.mem_cons_self)
    have hleaves := hvisited.touches.leaves
    have hothers : ∀ other ∈ records, other.machineId ∉ [record.machineId] := fun other hother hmem =>
      hnew (List.mem_singleton.mp hmem ▸ List.mem_map_of_mem hother)
    have hfound' : Found (recover isUuid providerBootId (calls record.machineId) record now w).2
        records := Found.leaves (fun r hr => hfound r (List.mem_cons_of_mem _ hr)) hothers hleaves
    have hcome : come isUuid providerBootId calls now (record :: records) = record ::
        if undisturbed isUuid providerBootId (calls record.machineId) now record then
          come isUuid providerBootId calls now records else [] := rfl
    rw [recoverAll] at hw
    have hends := hvisited.ends
    have hhandled := hvisited.handled
    have hsee := hvisited.touches.visited
    generalize recover isUuid providerBootId (calls record.machineId) record now w = r at *
    obtain ⟨result, w₁⟩ := r
    rw [hcome, ← hends]
    cases result with
    | error e =>
      subst hw
      refine ⟨hsee, ⟨hleaves.keys, fun other hother => ?_, hleaves.stops⟩, fun r hr => ?_⟩
      · exact hleaves.others other fun hmem => hother (by
          rw [List.mem_singleton.mp hmem]
          exact List.mem_cons_self)
      · obtain rfl := List.mem_singleton.mp hr
        exact hhandled
    | ok event =>
      have hw₁ : (recoverAll isUuid providerBootId calls now records w₁).2 = w' := by
        rw [← hw]
        dsimp only
        generalize recoverAll isUuid providerBootId calls now records w₁ = rest
        obtain ⟨result, w₂⟩ := rest
        cases result <;> rfl
      obtain ⟨hsee', hleaves', hhandled'⟩ := ih hfound' hrest hw₁
      refine ⟨?_, hleaves.trans hleaves', fun r hr => ?_⟩
      · rw [hsee', hsee]
        exact List.append_assoc _ _ _
      · rcases List.mem_cons.mp hr with rfl | hr
        · exact hhandled.leaves hnew hleaves'
        · exact hhandled' r hr

/-! ### The pages -/

/-- A directory can be listed within the bounds of the store. -/
def canList (names : Option (List (Option Id))) : Bool := names.any (·.length ≤ maxScanned)

/-- The records behind a page, in order. -/
structure Ahead (after : Option Id) (w : World) (rest : List DeadlineRecord) : Prop where
  sorted : (ids rest).Pairwise (· < ·)
  found : Found w rest
  all : ∀ id, id ∈ ids rest ↔ id ∈ w.journal.keys ∧ after.all (· < id) = true

theorem Ahead.nodup {after : Option Id} {rest : List DeadlineRecord} (h : Ahead after w rest) :
    (ids rest).Nodup := h.sorted.imp ne_of_lt

theorem lookup_page {page : List DeadlineRecord} (hfound : Found w page) :
    ((ids page).mapM fun id => (w.journal.lookup id).elim
      (Except.error (Failure.refused "deadline journal disappeared")) Except.ok) = .ok page := by
  rw [mapM_eq_ok]
  induction page with
  | nil => exact .nil
  | cons record page ih =>
    refine .cons ?_ (ih fun r hr => hfound r (List.mem_cons_of_mem _ hr))
    rw [hfound record List.mem_cons_self]
    rfl

theorem list_eq {names : List (Option Id)} {after : Option Id} {limit : ℕ}
    {rest : List DeadlineRecord} (hahead : Ahead after w rest)
    (hnames : (names.filterMap (recordId isUuid)).Perm w.journal.keys)
    (hlength : names.length ≤ maxScanned) :
    list isUuid (some names) after limit w = .ok (rest.take (pageSize limit)) := by
  have hnodup : ((names.filterMap (recordId isUuid)).filter fun id => after.all (· < id)).Nodup :=
    (hnames.nodup_iff.mpr w.journal.nodupKeys).filter _
  have hperm : (ids rest).Perm
      ((names.filterMap (recordId isUuid)).filter fun id => after.all (· < id)) := by
    rw [List.perm_ext_iff_of_nodup hahead.nodup hnodup]
    intro id
    rw [hahead.all, List.mem_filter, hnames.mem_iff]
  have hsorted := Paging.insertionSort_eq_of_perm hperm (hahead.sorted.imp le_of_lt)
  unfold list
  dsimp only
  rw [if_neg (Nat.not_lt.mpr hlength), Paging.foldl_keepLeast hnodup, hsorted]
  have hpage : (ids rest).take (pageSize limit) = ids (rest.take (pageSize limit)) :=
    List.map_take.symm
  rw [hpage]
  exact lookup_page fun record hrecord => hahead.found record (List.mem_of_mem_take hrecord)

theorem list_of_not_canList {names : Option (List (Option Id))} {after : Option Id}
    {limit : ℕ} (h : canList names = false) : ∃ e, list isUuid names after limit w = .error e := by
  cases names with
  | none => exact ⟨_, rfl⟩
  | some names =>
    refine ⟨_, if_pos ?_⟩
    have hlong : decide (names.length ≤ maxScanned) = false := h
    exact Nat.not_le.mp (of_decide_eq_false hlong)

/-- What is ahead after a page whose records were visited. -/
theorem Ahead.next {after : Option Id} {page rest : List DeadlineRecord} {last : DeadlineRecord}
    (h : Ahead after w (page ++ rest)) (hlast : page.getLast? = some last)
    (hleaves : Leaves (ids page) w w') : Ahead (some last.machineId) w' rest := by
  have hids : ids (page ++ rest) = ids page ++ ids rest := List.map_append
  have hsorted := h.sorted
  rw [hids, List.pairwise_append] at hsorted
  obtain ⟨hpage, hrest, hbetween⟩ := hsorted
  have hmem : last.machineId ∈ ids page := List.mem_map_of_mem (List.mem_of_getLast? hlast)
  refine ⟨hrest, ?_, fun id => ?_⟩
  · refine Found.leaves (fun r hr => h.found r (List.mem_append_right _ hr)) (fun r hr hin => ?_) hleaves
    exact lt_irrefl _ (hbetween _ hin _ (List.mem_map_of_mem hr))
  · rw [hleaves.keys.mem_iff, Option.all_some, decide_eq_true_eq]
    constructor
    · intro hid
      refine ⟨?_, hbetween _ hmem _ hid⟩
      exact ((h.all id).mp (by rw [hids]; exact List.mem_append_right _ hid)).1
    · intro ⟨hkey, hlt⟩
      have hafter : after.all (· < id) = true := by
        have hold := ((h.all last.machineId).mp (by rw [hids]; exact List.mem_append_left _ hmem)).2
        cases after with
        | none => rfl
        | some bound =>
          rw [Option.all_some, decide_eq_true_eq] at hold ⊢
          exact hold.trans hlt
      have hin := (h.all id).mpr ⟨hkey, hafter⟩
      rw [hids, List.mem_append] at hin
      refine hin.resolve_left fun hin => ?_
      -- the last record of a page has its greatest id
      obtain ⟨front, rfl⟩ := List.getLast?_eq_some_iff.mp hlast
      have hidsPage : ids (front ++ [last]) = ids front ++ [last.machineId] := List.map_append
      rw [hidsPage] at hin hpage
      rcases List.mem_append.mp hin with hfront | hsame
      · exact lt_asymm hlt ((List.pairwise_append.mp hpage).2.2 _ hfront _ (List.mem_singleton_self _))
      · exact lt_irrefl _ (List.mem_singleton.mp hsame ▸ hlt)

/-! ### The pass -/

variable {batches : Batches} {limit : ℕ}

/-- Each page can be listed, and nothing goes wrong on it before its last record. -/
def Unhindered (isUuid : Id → Bool) (providerBootId : String) (calls : Id → Calls)
    (batches : Batches) (limit k : ℕ) (rest : List DeadlineRecord) : Prop :=
  ∀ i, (h : i < rest.length) → canList (batches.names (k + i / pageSize limit)) = true ∧
    (i % pageSize limit + 1 < pageSize limit → i + 1 < rest.length →
      undisturbed isUuid providerBootId (calls rest[i].machineId)
        (batches.sample (k + i / pageSize limit)) rest[i] = true)

theorem pageSize_pos (limit : ℕ) : 0 < pageSize limit := by
  unfold pageSize
  omega

theorem pageSize_idem (limit : ℕ) : pageSize (pageSize limit) = pageSize limit := by
  unfold pageSize
  omega

theorem unhindered_iff {k : ℕ} {rest : List DeadlineRecord} (hne : rest ≠ []) :
    Unhindered isUuid providerBootId calls batches limit k rest ↔
      canList (batches.names k) = true ∧
      come isUuid providerBootId calls (batches.sample k) (rest.take (pageSize limit)) =
        rest.take (pageSize limit) ∧
      Unhindered isUuid providerBootId calls batches limit (k + 1) (rest.drop (pageSize limit)) := by
  have hpositive := pageSize_pos limit
  have hlength := List.length_pos_iff.mpr hne
  unfold Unhindered come
  rw [Paging.through_eq_self]
  constructor
  · intro h
    have hfirst := (h 0 hlength).1
    rw [Nat.zero_div, Nat.add_zero] at hfirst
    refine ⟨hfirst, fun i hi => ?_, fun i hi => ?_⟩
    · rw [List.length_take] at hi
      have hin := (h i (by omega)).2
      rw [Nat.mod_eq_of_lt (by omega), Nat.div_eq_of_lt (by omega), Nat.add_zero] at hin
      rw [List.getElem_take]
      exact hin (by omega) (by omega)
    · rw [List.length_drop] at hi
      have hin := h (pageSize limit + i) (by omega)
      rw [Nat.add_mod_left, Nat.add_div_left _ hpositive, ← Nat.add_assoc,
        Nat.add_right_comm] at hin
      refine ⟨hin.1, fun hpage hmore => ?_⟩
      rw [List.length_drop] at hmore
      rw [List.getElem_drop]
      exact hin.2 hpage (by omega)
  · intro ⟨hlist, hpage, hrest⟩ i hi
    rcases Nat.lt_or_ge i (pageSize limit) with hlt | hge
    · rw [Nat.div_eq_of_lt hlt, Nat.add_zero, Nat.mod_eq_of_lt hlt]
      refine ⟨hlist, fun hin hmore => ?_⟩
      have hfine := hpage i (by rw [List.length_take]; omega)
      rwa [List.getElem_take] at hfine
    · obtain ⟨j, rfl⟩ := Nat.exists_eq_add_of_le hge
      have hj : j < (rest.drop (pageSize limit)).length := by
        rw [List.length_drop]
        omega
      have hlater := hrest j hj
      rw [Nat.add_mod_left, Nat.add_div_left _ hpositive, ← Nat.add_assoc, Nat.add_right_comm]
      refine ⟨hlater.1, fun hin hmore => ?_⟩
      have hfine := hlater.2 hin (by rw [List.length_drop]; omega)
      rwa [List.getElem_drop] at hfine

/-- What a pass from some page on has seen. -/
structure Passed (isUuid : Id → Bool) (providerBootId : String) (calls : Id → Calls)
    (batches : Batches) (limit k : ℕ) (rest seen : List DeadlineRecord) (w w' : World) : Prop where
  some_of : seen.Sublist rest
  visited : w'.visited = w.visited ++ ids seen
  whole : seen = rest ↔ Unhindered isUuid providerBootId calls batches limit k rest
  leaves : Leaves (ids rest) w w'
  handled : ∀ i, (h : i < rest.length) → rest[i] ∈ seen →
    Handled providerBootId (calls rest[i].machineId) (batches.sample (k + i / pageSize limit)) rest[i] w'

theorem Passed.stop {k : ℕ} {rest : List DeadlineRecord}
    (h : rest = [] ∨ canList (batches.names k) = false) :
    Passed isUuid providerBootId calls batches limit k rest [] w w where
  some_of := List.nil_sublist _
  visited := (List.append_nil _).symm
  whole := by
    rcases h with rfl | h
    · exact ⟨fun _ i hi => absurd hi (Nat.not_lt_zero _), fun _ => rfl⟩
    · by_cases hne : rest = []
      · subst hne
        exact ⟨fun _ i hi => absurd hi (Nat.not_lt_zero _), fun _ => rfl⟩
      · rw [unhindered_iff hne, h]
        exact ⟨fun hnil => absurd hnil.symm hne, fun hall => absurd hall.1 Bool.false_ne_true⟩
  leaves := ⟨.refl _, fun _ _ => rfl, fun _ h => h⟩
  handled _ _ hmem := absurd hmem List.not_mem_nil

/-- A page, and the pages after it. -/
theorem Passed.page {k : ℕ} {rest seen : List DeadlineRecord} {w₁ : World} (hne : rest ≠ [])
    (hnodup : (ids rest).Nodup) (hlist : canList (batches.names k) = true)
    (hvisited : w₁.visited = w.visited ++
      ids (come isUuid providerBootId calls (batches.sample k) (rest.take (pageSize limit))))
    (hleaves : Leaves (ids (rest.take (pageSize limit))) w w₁)
    (hhandled : ∀ r ∈ come isUuid providerBootId calls (batches.sample k)
        (rest.take (pageSize limit)),
      Handled providerBootId (calls r.machineId) (batches.sample k) r w₁)
    (h : Passed isUuid providerBootId calls batches limit (k + 1) (rest.drop (pageSize limit)) seen
      w₁ w') :
    Passed isUuid providerBootId calls batches limit k rest
      (come isUuid providerBootId calls (batches.sample k) (rest.take (pageSize limit)) ++ seen)
      w w' := by
  have hcome : come isUuid providerBootId calls (batches.sample k) (rest.take (pageSize limit)) <+:
      rest.take (pageSize limit) := Paging.through_prefix _
  have hids : ids rest = ids (rest.take (pageSize limit)) ++ ids (rest.drop (pageSize limit)) := by
    conv_lhs => rw [← List.take_append_drop (pageSize limit) rest]
    exact List.map_append
  have hapart : ∀ r ∈ rest.take (pageSize limit), r.machineId ∉ ids (rest.drop (pageSize limit)) := by
    intro r hr hin
    rw [hids, List.nodup_append] at hnodup
    exact hnodup.2.2 _ (List.mem_map_of_mem hr) _ hin rfl
  refine ⟨?_, ?_, ?_, ?_, fun i hi hmem => ?_⟩
  · have hsub := hcome.sublist.append h.some_of
    rwa [List.take_append_drop] at hsub
  · rw [h.visited, hvisited, List.append_assoc]
    congr 1
    exact List.map_append.symm
  · rw [unhindered_iff hne, ← h.whole]
    constructor
    · intro hwhole
      have hlengths := congrArg List.length hwhole
      rw [List.length_append] at hlengths
      have hfront := hcome.length_le
      have hback := h.some_of.length_le
      rw [List.length_drop] at hback
      rw [List.length_take] at hfront
      refine ⟨hlist, hcome.eq_of_length ?_, h.some_of.eq_of_length ?_⟩
      · rw [List.length_take]
        omega
      · rw [List.length_drop]
        omega
    · intro ⟨_, hpage, hrest⟩
      rw [hpage, hrest, List.take_append_drop]
  · rw [hids]
    exact hleaves.trans h.leaves
  · rcases Nat.lt_or_ge i (pageSize limit) with hlt | hge
    · have hin : rest[i] ∈ rest.take (pageSize limit) := by
        rw [List.mem_take_iff_getElem]
        exact ⟨i, by omega, rfl⟩
      have hnot : rest[i] ∉ seen := fun hseen =>
        hapart _ hin (List.mem_map_of_mem (h.some_of.subset hseen))
      rw [Nat.div_eq_of_lt hlt, Nat.add_zero]
      exact (hhandled _ ((List.mem_append.mp hmem).resolve_right hnot)).leaves (hapart _ hin) h.leaves
    · obtain ⟨j, rfl⟩ := Nat.exists_eq_add_of_le hge
      have hj : j < (rest.drop (pageSize limit)).length := by
        rw [List.length_drop]
        omega
      have hsame : (rest.drop (pageSize limit))[j] = rest[pageSize limit + j] := List.getElem_drop
      have hnot : rest[pageSize limit + j] ∉ come isUuid providerBootId calls (batches.sample k)
          (rest.take (pageSize limit)) := fun hin => by
        refine hapart _ (hcome.subset hin) ?_
        rw [← hsame]
        exact List.mem_map_of_mem (List.getElem_mem hj)
      have hlater := h.handled j hj (by
        rw [hsame]
        exact (List.mem_append.mp hmem).resolve_left hnot)
      rw [hsame] at hlater
      rwa [Nat.add_div_left _ (pageSize_pos limit), ← Nat.add_assoc, Nat.add_right_comm]

theorem passFrom_spec {k fuel : ℕ} {after : Option Id} {rest : List DeadlineRecord}
    (hahead : Ahead after w rest) (hnames : ∀ k names, batches.names k = some names →
      (names.filterMap (recordId isUuid)).Perm w.journal.keys) (hfuel : rest.length < fuel) :
    ∃ seen, Passed isUuid providerBootId calls batches limit k rest seen w
      (passFrom isUuid providerBootId calls batches limit k after fuel w) := by
  induction fuel generalizing k after rest w with
  | zero => exact absurd hfuel (Nat.not_lt_zero _)
  | succ fuel ih =>
    cases hlist : canList (batches.names k) with
    | false =>
      obtain ⟨e, he⟩ := @list_of_not_canList isUuid w _ after (pageSize limit) hlist
      rw [passFrom, he]
      exact ⟨[], .stop (Or.inr hlist)⟩
    | true =>
      obtain ⟨names, hsome, hlength⟩ := (Option.any_eq_true _ _).mp hlist
      have hpage := @list_eq isUuid w names after (pageSize limit) rest hahead (hnames k names hsome)
        (of_decide_eq_true hlength)
      rw [pageSize_idem] at hpage
      rw [passFrom, hsome, hpage]
      dsimp only
      cases hlast : (rest.take (pageSize limit)).getLast? with
      | none =>
        have hnil : rest = [] := by
          have hpositive := pageSize_pos limit
          rcases List.take_eq_nil_iff.mp (List.getLast?_eq_none_iff.mp hlast) with hzero | hnil
          · omega
          · exact hnil
        exact ⟨[], .stop (Or.inl hnil)⟩
      | some last =>
        have hne : rest ≠ [] := by
          rintro rfl
          rw [List.take_nil] at hlast
          cases hlast
        have hsplit := List.take_append_drop (pageSize limit) rest
        have hpageFound : Found w (rest.take (pageSize limit)) := fun r hr =>
          hahead.found r (List.mem_of_mem_take hr)
        have hpageNodup : (ids (rest.take (pageSize limit))).Nodup :=
          hahead.nodup.sublist ((List.take_sublist _ _).map _)
        have hbatch : (recoverBatch isUuid providerBootId calls batches limit k after w).2 =
            (recoverAll isUuid providerBootId calls (batches.sample k) (rest.take (pageSize limit))
              w).2 := by
          rw [recoverBatch, hsome, hpage]
        dsimp only
        rw [hbatch]
        obtain ⟨hvisited, hleaves, hhandled⟩ := @recoverAll_spec isUuid providerBootId
          (batches.sample k) w calls _ hpageFound hpageNodup _ rfl
        have hnext : Ahead (some last.machineId) _ (rest.drop (pageSize limit)) :=
          Ahead.next (by rw [hsplit]; exact hahead) hlast hleaves
        have hpositive := pageSize_pos limit
        have hnonempty := List.length_pos_iff.mpr hne
        obtain ⟨seen, hseen⟩ := ih (k := k + 1) hnext
          (fun k names hk => (hnames k names hk).trans hleaves.keys.symm)
          (by rw [List.length_drop]; omega)
        exact ⟨_, .page hne hahead.nodup hlist hvisited hleaves hhandled hseen⟩

/-- The records of a journal in the order of their machines. -/
def records (w : World) : List DeadlineRecord :=
  (w.journal.keys.insertionSort (· ≤ ·)).filterMap w.journal.lookup

/-- A journal that every listing shows whole: each record under its machine, in a file that is named
for it, beside files that hold none. -/
structure Legible (isUuid : Id → Bool) (batches : Batches) (w : World) : Prop where
  named : ∀ id record, w.journal.lookup id = some record → record.machineId = id
  shown : ∀ k names, batches.names k = some names →
    (names.filterMap (recordId isUuid)).Perm w.journal.keys

theorem ids_records (hnamed : ∀ id record, w.journal.lookup id = some record → record.machineId = id) :
    ids (records w) = w.journal.keys.insertionSort (· ≤ ·) := by
  unfold ids records
  rw [List.map_filterMap]
  have hsame : ∀ id ∈ w.journal.keys.insertionSort (· ≤ ·),
      (w.journal.lookup id).map DeadlineRecord.machineId = some id := fun id hid => by
    have hkey := (List.mem_insertionSort _).mp hid
    obtain ⟨record, hrecord⟩ := Option.isSome_iff_exists.mp (AList.lookup_isSome.mpr hkey)
    rw [hrecord, Option.map_some, hnamed id record hrecord]
  rw [List.filterMap_congr hsame, List.filterMap_some]

theorem ahead_records
    (hnamed : ∀ id record, w.journal.lookup id = some record → record.machineId = id) :
    Ahead none w (records w) := by
  have hids := ids_records hnamed
  refine ⟨?_, fun record hrecord => ?_, fun id => ?_⟩
  · rw [hids]
    have hsorted := List.pairwise_insertionSort (· ≤ ·) w.journal.keys
    have hnodup := (List.perm_insertionSort (· ≤ ·) w.journal.keys).nodup_iff.mpr
      w.journal.nodupKeys
    exact (hsorted.and hnodup).imp fun h => lt_of_le_of_ne h.1 h.2
  · obtain ⟨id, -, hid⟩ := List.mem_filterMap.mp hrecord
    rw [hnamed id record hid]
    exact hid
  · rw [hids, List.mem_insertionSort]
    exact ⟨fun h => ⟨h, rfl⟩, fun h => h.1⟩

/-- Every record is visited once, and those that are due at their batch's sample are stopped unless
their own stop or its request failed. -/
structure Recovered (providerBootId : String) (calls : Id → Calls) (batches : Batches)
    (limit : ℕ) (w w' : World) : Prop where
  once : w'.visited.Perm w.journal.keys
  handled : ∀ i, (h : i < (records w).length) →
    Handled providerBootId (calls (records w)[i].machineId) (batches.sample (i / pageSize limit))
      (records w)[i] w'

theorem pass_recovers_iff (isUuid : Id → Bool) (providerBootId : String)
    (calls : Id → Calls) (batches : Batches) (limit : ℕ) (w : World)
    (hlegible : Legible isUuid batches w) :
    Recovered providerBootId calls batches limit w
        (pass isUuid providerBootId calls batches limit w) ↔
      Unhindered isUuid providerBootId calls batches limit 0 (records w) := by
  have hids := ids_records hlegible.named
  have hperm : (ids (records w)).Perm w.journal.keys := by
    rw [hids]
    exact List.perm_insertionSort _ _
  have hfuel : (records w).length < w.journal.keys.length + 1 := by
    have hlength := hperm.length_eq
    unfold ids at hlength
    rw [List.length_map] at hlength
    omega
  have hahead : Ahead none { w with stops := [], visited := [] } (records w) :=
    have h := ahead_records hlegible.named
    ⟨h.sorted, h.found, h.all⟩
  obtain ⟨seen, hseen⟩ := @passFrom_spec isUuid providerBootId _ calls batches limit 0 _ none _ hahead
    hlegible.shown hfuel
  change Passed _ _ _ _ _ _ _ _ _ (pass isUuid providerBootId calls batches limit w) at hseen
  have hvisited := hseen.visited
  rw [List.nil_append] at hvisited
  constructor
  · intro h
    rw [← hseen.whole]
    have hlength := (h.once.trans hperm.symm).length_eq
    rw [hvisited] at hlength
    unfold ids at hlength
    rw [List.length_map, List.length_map] at hlength
    exact hseen.some_of.eq_of_length hlength
  · intro h
    have hwhole := hseen.whole.mpr h
    subst hwhole
    refine ⟨?_, fun i hi => ?_⟩
    · rw [hvisited]
      exact hperm
    · have hhandled := hseen.handled i hi (List.getElem_mem hi)
      rwa [Nat.zero_add] at hhandled

end

/-! ### A neighbour's failure -/

def machine (id : Id) : RuntimeTarget := ⟨id, "o", "s", "p", "v", 1, 1, "f"⟩

def resolved (id : Id) : ResolvedRuntimeTarget := ⟨machine id, "n", "b", "d", 1, "pv", "c", "h", "w"⟩

/-- A machine whose installed cutoff is at 1000. -/
def funded (id : Id) : DeadlineRecord where
  storeVersion := 1
  control := ⟨1, machine id, 1000⟩
  resolved := resolved id
  state := .installed
  installed := some ⟨"provider", 1000⟩
  lastUtcMs := 500
  lastMonotonicMs := 500
  clockBootId := "host"
  monotonicDeadlineMs := 9000
  terminalEventId := none
  stoppedAtMs := none
  stopObservedAtMs := none

def first : Id := "00000000-0000-4000-8000-00000000000a".toList

def second : Id := "00000000-0000-4000-8000-00000000000b".toList

def answered : Calls := ⟨.done, .done, true, some none, .done⟩

def both : World := ⟨((∅ : Collection Id DeadlineRecord).insert first (funded first)).insert second (funded second), [],
  []⟩

def late : Batches where
  sample _ := ⟨2000, 2000, "host"⟩
  names _ := some [some ".lock".toList, some (first ++ ".json".toList), some (second ++ ".json".toList)]

def isId (text : Id) : Bool := text.length = 36

theorem both_legible : Legible isId late both where
  named id record h := by
    rcases Collection.lookup_insert_cases h with ⟨rfl, rfl⟩ | ⟨-, h⟩
    · rfl
    · rcases Collection.lookup_insert_cases h with ⟨rfl, rfl⟩ | ⟨-, h⟩
      · rfl
      · cases h
  shown k names h := by
    obtain rfl := Option.some.inj h
    decide

theorem both_recovered : Recovered "provider" (fun _ => answered) late 10 both
    (pass isId "provider" (fun _ => answered) late 10 both) := by
  refine (pass_recovers_iff isId "provider" (fun _ => answered) late 10 both both_legible).mpr
    fun i h => ?_
  have hlength : (records both).length = 2 := by decide
  obtain rfl | rfl : i = 0 ∨ i = 1 := by omega
  · exact ⟨by decide, fun _ _ => rfl⟩
  · exact ⟨by decide, fun _ hmore => absurd hmore (by decide)⟩

/-- The stop of one machine cannot be sent, and the other one is not even visited. -/
theorem neighbour_starved :
    let w := pass isId "provider" (fun id => if id = first then ⟨.done, .failed, true, some none, .done⟩
      else answered) late 10 both
    w.visited = [first] ∧ w.stops = [] ∧
      (w.journal.lookup second).map DeadlineRecord.state = some .installed ∧
      due "provider" (funded second) (late.sample 0) = true := by
  refine ⟨?_, ?_, ?_, ?_⟩ <;> decide

end NyxId.DeadlineRecovery
