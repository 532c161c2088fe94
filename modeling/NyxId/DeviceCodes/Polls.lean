import NyxId.DeviceCodes.Law

/-!
Any number of polls of one pending row. A poll checks the row that it read, and its update overwrites
whatever row it finds, so a run is judged by what its updates find.
-/

namespace NyxId.DeviceCodes

open Interleave Machine

/-- An update of a poll that was applied to the row. -/
structure Update where
  caller : ℕ
  fields : PolledFields
  /-- The poll drew a new code. -/
  rotated : Bool
  /-- The newest code of the row as the update left it. -/
  shown : Option String

/-- What is noted of the calls: the clock and the row that each of them read, and the updates. -/
structure Notes where
  reading : ℕ → Option ℤ
  read : ℕ → Option DeviceCode
  updates : List Update

def newestCode (row : DeviceCode) : Option String := row.userCodeHistory.head?.map UserCodeGen.code

def rotationDue (row : DeviceCode) (now : ℤ) : Bool := rotateMs < now - row.lastRotatedAt

def note {β : Type} (w : ℕ) (env : Env) (o : Op β) (s : Store) (notes : Notes) : Notes :=
  match o with
  | .now => { notes with reading := Function.update notes.reading w (some (exec w env .now s).1) }
  | .findRow => { notes with read := Function.update notes.read w (some s.row) }
  | .persistSuccessfulPoll fields =>
    if env.duplicate then notes
    else { notes with
      updates := notes.updates ++ [⟨w, fields, (notes.read w).any (rotationDue · fields.lastPolledAt),
        newestCode (exec w env (.persistSuccessfulPoll fields) s).2.row⟩] }
  | _ => notes

/-- Polls alone. -/
def polls (verify : DeviceCodePollInput → Bool) : Machine where
  Op := Op
  Err := AppError
  Store := Store
  Env := Env
  Entry := DeviceCodePollInput
  exec := exec
  dropped := .database
  code _ input := code verify (.poll input)

def watched (verify : DeviceCodePollInput → Bool) : Machine := (polls verify).noted note

/-- A reading that a clock can give, in a type whose years have six digits. -/
def IsReading (now : ℤ) : Prop := (now / 1000).natAbs < 2 ^ 62

/-- What an update must find for the promises to hold. -/
structure Undisturbed (w : ℕ) (fields : PolledFields) (s : Store) (notes : Notes) : Prop where
  /-- The one distance that has no absolute value in 64 bits. -/
  distance : fields.lastPollTimestamp - Int64.ofInt (fields.lastPolledAt / 1000) ≠ Int64.minValue
  later : ∀ last, s.row.lastPollTimestamp = some last → last < fields.lastPollTimestamp
  current : ∀ row, notes.read w = some row → rotationDue row fields.lastPolledAt = false →
    newestCode s.row = newestCode row

def Op.Orderly {β : Type} (w : ℕ) (env : Env) (s : Store) (notes : Notes) : Op β → Prop
  | .now => IsReading (s.clock + env.elapsed)
  | .persistSuccessfulPoll fields => env.duplicate = false → Undisturbed w fields s notes
  | _ => True

/-- The runs whose updates find the row in order. -/
def Orderly (verify : DeviceCodePollInput → Bool) : (watched verify).Cond :=
  fun _ w env out (o : Op _) (s : Store × Notes) => out = .done ∨ out = .lost → o.Orderly w env s.1 s.2

/-! ### The distance from the clock -/

theorem near_of_pollSkew {timestamp : Int64} {now : ℤ} (hnow : IsReading now)
    (hne : timestamp - Int64.ofInt (now / 1000) ≠ Int64.minValue)
    (hskew : (pollSkew timestamp now).toInt ≤ timestampSkewSecs) :
    ((timestamp.toInt - now / 1000).natAbs : ℤ) ≤ timestampSkewSecs := by
  unfold IsReading at hnow
  have habs : (pollSkew timestamp now).toInt =
      (timestamp - Int64.ofInt (now / 1000)).toInt.natAbs := by
    have hbits : (timestamp - Int64.ofInt (now / 1000)).toBitVec ≠ BitVec.intMin 64 := fun h =>
      hne (Int64.toBitVec_inj.mp h)
    exact BitVec.toInt_abs_eq_natAbs_of_ne_intMin hbits
  have hvalue : (timestamp - Int64.ofInt (now / 1000)).toInt =
      (timestamp.toInt - now / 1000).bmod (2 ^ 64) := by
    rw [Int64.toInt_sub, Int64.toInt_ofInt_of_le (by omega) (by omega)]
  have hfloor := timestamp.le_toInt
  have hceiling := timestamp.toInt_lt
  have hbound : timestampSkewSecs = 10 := rfl
  rw [habs, hvalue, hbound] at hskew
  rw [hbound]
  rw [Int.bmod] at hskew
  split at hskew <;> omega

/-! ### What holds whoever writes -/

variable {verify : DeviceCodePollInput → Bool} {s t : Store × Notes} {w : ℕ}

/-- An update that answers a message: near the clock reading of its call, with the code that the
call returns as the newest one of the row. -/
structure Answers (w : ℕ) (input : DeviceCodePollInput) (r : DeviceCodePoll) (s : Store × Notes)
    (u : Update) : Prop where
  caller : u.caller = w
  timestamp : u.fields.lastPollTimestamp = input.timestamp
  reading : s.2.reading w = some u.fields.lastPolledAt
  near : ((input.timestamp.toInt - u.fields.lastPolledAt / 1000).natAbs : ℤ) ≤ timestampSkewSecs
  shown : ∃ code, u.shown = some code ∧ r = .pending code

structure PollInv (s : Store × Notes) : Prop where
  status : s.1.row.status = .pending ∨ s.1.row.status = .expired
  ordered : s.2.updates.Pairwise fun u v => u.fields.lastPollTimestamp < v.fields.lastPollTimestamp
  latest : ∀ u ∈ s.2.updates, ∃ last, s.1.row.lastPollTimestamp = some last ∧
    u.fields.lastPollTimestamp ≤ last
  shown : ∀ front u back, s.2.updates = front ++ u :: back → (∀ v ∈ back, v.rotated = false) →
    newestCode s.1.row = u.shown
  returned : ∀ w input r, s.1.results w = some (.poll input (.ok r)) →
    ∃ u ∈ s.2.updates, Answers w input r s u

/-- What is a call's own. -/
structure Seen where
  result : Option Result
  reading : Option ℤ
  read : Option DeviceCode

def seen (w : ℕ) (s : Store × Notes) : Seen := ⟨s.1.results w, s.2.reading w, s.2.read w⟩

structure PollRely (w : ℕ) (s t : Store × Notes) : Prop where
  seen : seen w t = seen w s
  updates : ∀ u ∈ s.2.updates, u ∈ t.2.updates

def pollDiscipline (verify : DeviceCodePollInput → Bool) : Discipline (watched verify) where
  Cond := Orderly verify
  Inv := PollInv
  Rely := PollRely
  Idle _ _ := True
  Fresh w s := (seen w s).result = none
  rely_refl _ _ := ⟨rfl, fun _ h => h⟩
  rely_trans _ _ _ _ h h' := ⟨h'.seen.trans h.seen, fun u hu => h'.updates u (h.updates u hu)⟩
  idle_stable _ _ _ _ _ := trivial
  fresh_stable _ _ _ h hfresh := by rw [h.seen]; exact hfresh

theorem Answers.rely {input : DeviceCodePollInput} {r : DeviceCodePoll} {u : Update}
    (h : Answers w input r s u) (hst : PollRely w s t) : Answers w input r t u :=
  ⟨h.caller, h.timestamp, (congrArg Seen.reading hst.seen).trans h.reading, h.near, h.shown⟩

/-- Results stay answered as long as their updates and readings stay. -/
theorem PollInv.keeps_returned (hs : PollInv s) (hst : ∀ v, (seen v s).result ≠ none → PollRely v s t)
    (hresults : t.1.results = s.1.results) {v : ℕ} {input : DeviceCodePollInput} {r : DeviceCodePoll}
    (hr : t.1.results v = some (.poll input (.ok r))) : ∃ u ∈ t.2.updates, Answers v input r t u := by
  rw [hresults] at hr
  obtain ⟨u, hu, hanswers⟩ := hs.returned v input r hr
  have hrely := hst v (by
    change s.1.results v ≠ none
    rw [hr]
    exact Option.some_ne_none _)
  exact ⟨u, hrely.updates u hu, hanswers.rely hrely⟩

/-! ### Single operations -/

/-- Operations that leave alone what the promises are about. -/
structure Silent (s t : Store × Notes) : Prop where
  status : t.1.row.status = s.1.row.status ∨ t.1.row.status = .expired
  timestamp : t.1.row.lastPollTimestamp = s.1.row.lastPollTimestamp
  newest : newestCode t.1.row = newestCode s.1.row
  results : t.1.results = s.1.results
  notes : t.2 = s.2

def Op.Silent {β : Type} : Op β → Prop
  | .random | .markExpired | .findLockout | .recordSignatureFailure _ | .lockRow _ => True
  | .recordPubkeyFailure | .lockPubkey _ | .resetPubkeyLockout | .findKey _ => True
  | _ => False

def applied {β : Type} (w : ℕ) (env : Env) (o : Op β) (s : Store × Notes) : Store × Notes :=
  ((exec w env o s.1).2, note w env o s.1 s.2)

theorem applied_silent {β : Type} {o : Op β} (ho : o.Silent) (env : Env) : Silent s (applied w env o s) := by
  cases o with
  | random => exact ⟨.inl rfl, rfl, rfl, rfl, rfl⟩
  | markExpired => exact ⟨.inr rfl, rfl, rfl, rfl, rfl⟩
  | findLockout => exact ⟨.inl rfl, rfl, rfl, rfl, rfl⟩
  | recordSignatureFailure now => exact ⟨.inl rfl, rfl, rfl, rfl, rfl⟩
  | lockRow now =>
    unfold applied
    simp only [exec]
    split <;> exact ⟨.inl rfl, rfl, rfl, rfl, rfl⟩
  | recordPubkeyFailure => exact ⟨.inl rfl, rfl, rfl, rfl, rfl⟩
  | lockPubkey now =>
    unfold applied
    simp only [exec]
    split
    · exact ⟨.inl rfl, rfl, rfl, rfl, rfl⟩
    · split <;> exact ⟨.inl rfl, rfl, rfl, rfl, rfl⟩
  | resetPubkeyLockout => exact ⟨.inl rfl, rfl, rfl, rfl, rfl⟩
  | findKey id => exact ⟨.inl rfl, rfl, rfl, rfl, rfl⟩
  | _ => exact ho.elim

theorem Silent.rely (h : Silent s t) (v : ℕ) : PollRely v s t := by
  refine ⟨?_, fun u hu => ?_⟩
  · unfold DeviceCodes.seen
    rw [h.results, h.notes]
  · rw [h.notes]
    exact hu

theorem Silent.guar (h : Silent s t) (hs : PollInv s) : (pollDiscipline verify).Guar w s t := by
  refine ⟨⟨?_, ?_, ?_, ?_, fun v input r hr => ?_⟩, fun v _ => h.rely v⟩
  · rcases h.status with hsame | hexpired
    · rw [hsame]
      exact hs.status
    · exact Or.inr hexpired
  · rw [h.notes]
    exact hs.ordered
  · rw [h.notes, h.timestamp]
    exact hs.latest
  · rw [h.notes, h.newest]
    exact hs.shown
  · exact hs.keeps_returned (fun v _ => h.rely v) h.results hr

/-- Reading the clock or the row is noted for a call that has not returned. -/
theorem guar_noted (hs : PollInv s) (hresult : (seen w s).result = none) {store : Store} {notes : Notes}
    (hrow : store.row = s.1.row) (hresults : store.results = s.1.results)
    (hupdates : notes.updates = s.2.updates)
    (hothers : ∀ v, v ≠ w → notes.reading v = s.2.reading v ∧ notes.read v = s.2.read v) :
    (pollDiscipline verify).Guar w s (store, notes) := by
  have hrely : ∀ v, v ≠ w → PollRely v s (store, notes) := fun v hv => by
    refine ⟨?_, fun u hu => ?_⟩
    · unfold seen
      rw [hresults, (hothers v hv).1, (hothers v hv).2]
    · change u ∈ notes.updates
      rw [hupdates]
      exact hu
  refine ⟨⟨?_, ?_, ?_, ?_, fun v input r hr => ?_⟩, hrely⟩
  · rw [hrow]
    exact hs.status
  · rw [hupdates]
    exact hs.ordered
  · rw [hupdates, hrow]
    exact hs.latest
  · rw [hupdates, hrow]
    exact hs.shown
  · refine hs.keeps_returned (fun v hv => hrely v fun hvw => ?_) hresults hr
    subst hvw
    exact hv hresult

/-- An update that finds the row in order. -/
theorem guar_persist {env : Env} {fields : PolledFields} (hs : PollInv s)
    (hfound : Undisturbed w fields s.1 s.2) (hnew : env.duplicate = false) {row : DeviceCode}
    (hread : s.2.read w = some row)
    (hkept : rotationDue row fields.lastPolledAt = false →
      fields.userCodeHistory.head?.map UserCodeGen.code = newestCode row) :
    (pollDiscipline verify).Guar w s (applied w env (.persistSuccessfulPoll fields) s) := by
  have hupdates : (applied w env (.persistSuccessfulPoll fields) s).2.updates = s.2.updates ++
      [⟨w, fields, rotationDue row fields.lastPolledAt,
        fields.userCodeHistory.head?.map UserCodeGen.code⟩] := by
    simp only [applied, note, exec, hnew, hread, Option.any_some, Bool.false_eq_true, if_false]
    rfl
  have hstore : (applied w env (.persistSuccessfulPoll fields) s).1 = { s.1 with
      row := { s.1.row with
        failedPollCount := 0
        lastPolledAt := some fields.lastPolledAt
        lastPollTimestamp := some fields.lastPollTimestamp
        userCodeHistory := fields.userCodeHistory
        lastRotatedAt := fields.lastRotatedAt } } := by
    simp only [applied, exec, hnew, Bool.false_eq_true, if_false]
  have hnotes : (applied w env (.persistSuccessfulPoll fields) s).2.reading = s.2.reading ∧
      (applied w env (.persistSuccessfulPoll fields) s).2.read = s.2.read := by
    simp only [applied, note, hnew, Bool.false_eq_true, if_false, and_self]
  generalize applied w env (.persistSuccessfulPoll fields) s = t at hupdates hstore hnotes
  have hrely : ∀ v, PollRely v s t := fun v => by
    refine ⟨?_, fun u hu => ?_⟩
    · unfold seen
      rw [hstore, hnotes.1, hnotes.2]
    · rw [hupdates]
      exact List.mem_append_left _ hu
  refine ⟨⟨?_, ?_, fun u hu => ?_, fun front u back hsplit hback => ?_, fun v input r hr => ?_⟩,
    fun v _ => hrely v⟩
  · rw [hstore]
    exact hs.status
  · rw [hupdates, List.pairwise_append]
    refine ⟨hs.ordered, List.pairwise_singleton _ _, fun u hu v hv => ?_⟩
    obtain rfl := List.mem_singleton.mp hv
    obtain ⟨last, hlast, hle⟩ := hs.latest u hu
    exact Int64.lt_of_le_of_lt hle (hfound.later last hlast)
  · rw [hstore]
    refine ⟨_, rfl, ?_⟩
    rw [hupdates, List.mem_append, List.mem_singleton] at hu
    rcases hu with hold | rfl
    · obtain ⟨last, hlast, hle⟩ := hs.latest u hold
      exact Int64.le_of_lt (Int64.lt_of_le_of_lt hle (hfound.later last hlast))
    · exact Int64.le_refl _
  · rw [hstore]
    change fields.userCodeHistory.head?.map UserCodeGen.code = u.shown
    rw [hupdates] at hsplit
    rcases List.eq_nil_or_concat back with rfl | ⟨back, v, rfl⟩
    · rw [← List.concat_eq_append, ← List.concat_eq_append] at hsplit
      obtain ⟨-, rfl⟩ := List.concat_inj.mp hsplit
      rfl
    · rw [List.concat_eq_append] at hsplit hback
      rw [← List.cons_append, ← List.append_assoc] at hsplit
      obtain ⟨hfront, hlast⟩ := List.append_inj' hsplit rfl
      obtain rfl := List.cons.inj hlast |>.1
      have hsame := hback _ (List.mem_append_right _ (List.mem_singleton_self _))
      have hearlier := hs.shown front u back hfront fun x hx =>
        hback x (List.mem_append_left _ hx)
      rw [hkept hsame, ← hfound.current row hread hsame, hearlier]
  · exact hs.keeps_returned (fun v _ => hrely v) (by rw [hstore]) hr

/-- A call reports its error, or what its update answers. -/
theorem guar_report_poll {env : Env} {input : DeviceCodePollInput} {r : Except AppError DeviceCodePoll}
    (hs : PollInv s) (hr : ∀ x, r = .ok x → ∃ u ∈ s.2.updates, Answers w input x s u) :
    (pollDiscipline verify).Guar w s (applied w env (.report (.poll input r)) s) := by
  refine ⟨⟨hs.status, hs.ordered, hs.latest, hs.shown, fun v input' x hx => ?_⟩,
    fun v hv => ⟨?_, fun _ h => h⟩⟩
  · rcases update_cases hx with ⟨rfl, hsame⟩ | ⟨-, hx⟩
    · obtain ⟨rfl, rfl⟩ := Result.poll.inj hsame
      obtain ⟨u, hu, hanswers⟩ := hr x rfl
      exact ⟨u, hu, hanswers.caller, hanswers.timestamp, hanswers.reading, hanswers.near,
        hanswers.shown⟩
    · obtain ⟨u, hu, hanswers⟩ := hs.returned v input' x hx
      exact ⟨u, hu, hanswers.caller, hanswers.timestamp, hanswers.reading, hanswers.near,
        hanswers.shown⟩
  · change Seen.mk (Function.update s.1.results w _ v) _ _ = _
    rw [Function.update_of_ne hv]
    rfl

/-! ### One call -/

section

variable {α β : Type} {Q : α → Store × Notes → Prop} {x : Seen}

/-- Code of a poll that runs to its end, with or without an error. -/
def Runs (verify : DeviceCodePollInput → Bool) (w : ℕ) (p : Code α) (Q : α → Store × Notes → Prop)
    (s : Store × Notes) : Prop :=
  (pollDiscipline verify).wp w p Q (fun _ _ => True) s

theorem runs_op {o : Op β} {f : β → Code α}
    (h : ∀ t env, PollRely w s t → PollInv t → o.Orderly w env t.1 t.2 →
      (pollDiscipline verify).Guar w t (applied w env o t) ∧
        Runs verify w (f (exec w env o t.1).1) Q (applied w env o t)) :
    Runs verify w ((Prog.perform o).bind f) Q s := fun t env hst ht =>
  { done := fun hc => h t env hst ht (hc (Or.inl rfl))
    lost := fun hc => ⟨(h t env hst ht (hc (Or.inr rfl))).1, trivial⟩
    failed := fun _ => trivial
    crash := fun _ => trivial }

theorem runs_silent {o : Op β} (ho : o.Silent) {f : β → Code α} (hx : seen w s = x)
    (h : ∀ r t, PollInv t → seen w t = x → Runs verify w (f r) Q t) :
    Runs verify w ((Prog.perform o).bind f) Q s := by
  refine runs_op fun t env hst ht _ => ?_
  have hsilent : Silent t (applied w env o t) := applied_silent ho env
  have hguar : (pollDiscipline verify).Guar w t (applied w env o t) := hsilent.guar ht
  exact ⟨hguar, h _ _ hguar.1 ((hsilent.rely w).seen.trans (hst.seen.trans hx))⟩

theorem runs_fail (e : AppError) : Runs verify w (Prog.fail e : Code α) Q s := trivial

/-- What a call that succeeds knows of itself. -/
def Answered (w : ℕ) (input : DeviceCodePollInput) (r : DeviceCodePoll) (s : Store × Notes) : Prop :=
  ∃ u ∈ s.2.updates, Answers w input r s u

variable {row : DeviceCode} {input : DeviceCodePollInput} {now : ℤ}

theorem rotateUserCodeIfNeeded_eq_ok {newCode current : String} {history : List UserCodeGen}
    {rotatedAt : ℤ} (h : rotateUserCodeIfNeeded row now newCode = .ok (current, history, rotatedAt)) :
    history.head?.map UserCodeGen.code = some current ∧
      (rotationDue row now = false → history = row.userCodeHistory) := by
  unfold rotateUserCodeIfNeeded at h
  unfold rotationDue
  split at h
  · rename_i hdue
    obtain ⟨rfl, hpair⟩ := Prod.mk.inj (Except.ok.inj h)
    obtain ⟨rfl, -⟩ := Prod.mk.inj hpair
    exact ⟨rfl, fun hnot => absurd hdue (of_decide_eq_false hnot)⟩
  · split at h
    · rename_i generation rest hhistory
      obtain ⟨rfl, hpair⟩ := Prod.mk.inj (Except.ok.inj h)
      obtain ⟨rfl, -⟩ := Prod.mk.inj hpair
      rw [hhistory]
      exact ⟨rfl, fun _ => rfl⟩
    · cases h

theorem rotateAndPersist_runs (attempts : ℕ) (hnow : IsReading now)
    (hskew : (pollSkew input.timestamp now).toInt ≤ timestampSkewSecs)
    (hx : seen w s = ⟨none, some now, some row⟩) :
    Runs verify w (rotateAndPersistPendingPoll row input.timestamp now attempts) (Answered w input)
      s := by
  induction attempts generalizing s with
  | zero => exact runs_fail _
  | succ attempts ih =>
    refine runs_silent (by trivial) hx fun newCode t ht hxt => ?_
    cases hrotated : rotateUserCodeIfNeeded row now newCode with
    | error e => exact runs_fail _
    | ok rotated =>
      obtain ⟨current, history, rotatedAt⟩ := rotated
      obtain ⟨hcurrent, hkept⟩ := rotateUserCodeIfNeeded_eq_ok hrotated
      dsimp only
      refine runs_op fun u env hst hu horder => ?_
      have hxu := hst.seen.trans hxt
      have hreading : u.2.reading w = some now := congrArg Seen.reading hxu
      have hread : u.2.read w = some row := congrArg Seen.read hxu
      cases hnew : env.duplicate with
      | true =>
        have hsame : applied w env (.persistSuccessfulPoll ⟨now, input.timestamp, history, rotatedAt⟩) u =
            u := by
          simp only [applied, exec, note, hnew, if_true]
        rw [hsame]
        refine ⟨(pollDiscipline verify).guar_refl hu, ?_⟩
        simp only [exec, hnew, if_true]
        exact ih hxu
      | false =>
        have hguar := @guar_persist verify u w env
          ⟨now, input.timestamp, history, rotatedAt⟩ hu (horder hnew) hnew row hread
          fun hnot => by rw [hkept hnot]; rfl
        refine ⟨hguar, ?_⟩
        have hupdates : (applied w env
            (.persistSuccessfulPoll ⟨now, input.timestamp, history, rotatedAt⟩) u).2.updates =
              u.2.updates ++ [⟨w, ⟨now, input.timestamp, history, rotatedAt⟩, rotationDue row now,
                some current⟩] := by
          simp only [applied, note, exec, hnew, hread, Option.any_some, Bool.false_eq_true, if_false,
            newestCode, hcurrent]
        simp only [exec, hnew, Bool.false_eq_true, if_false, if_true]
        refine ⟨⟨w, ⟨now, input.timestamp, history, rotatedAt⟩, rotationDue row now, some current⟩,
          ?_, rfl, rfl, ?_, ?_, current, rfl, rfl⟩
        · rw [hupdates]
          exact List.mem_append_right _ (List.mem_singleton_self _)
        · simp only [applied, note, hnew, Bool.false_eq_true, if_false]
          exact hreading
        · exact near_of_pollSkew hnow (horder hnew).distance hskew

theorem verifyPollTimestamp_eq_none (h : verifyPollTimestamp row input.timestamp now = none) :
    (pollSkew input.timestamp now).toInt ≤ timestampSkewSecs := by
  unfold verifyPollTimestamp at h
  split at h
  · cases h
  · rename_i hle
    exact not_lt.mp hle

theorem recordSignatureFailure_runs (hx : seen w s = x) :
    Runs verify w (recordSignatureFailure now) (fun _ t => PollInv t ∧ seen w t = x) s := by
  refine runs_silent (by trivial) hx fun failures t ht hxt => ?_
  by_cases hfew : failures < signatureFailureLockThreshold
  · rw [if_pos hfew]
    exact ⟨ht, hxt⟩
  · rw [if_neg hfew]
    exact runs_silent (by trivial) hxt fun _ u hu hxu => ⟨hu, hxu⟩

theorem recordPubkeySignatureFailure_runs (hx : seen w s = x) :
    Runs verify w (recordPubkeySignatureFailure now) (fun _ t => PollInv t ∧ seen w t = x) s := by
  refine runs_silent (by trivial) hx fun updated t ht hxt => ?_
  by_cases hdone : isLocked updated.lockedUntil now ∨
      updated.failedPollCount < signatureFailureLockThreshold
  · rw [if_pos hdone]
    exact ⟨ht, hxt⟩
  · rw [if_neg hdone]
    refine runs_silent (by trivial) hxt fun locked u hu hxu => ?_
    cases locked with
    | some locked => exact ⟨hu, hxu⟩
    | none =>
      refine runs_silent (by trivial) hxu fun found v hv hxv => ?_
      cases found with
      | some found => exact ⟨hv, hxv⟩
      | none => exact runs_fail _

theorem poll_runs (hx : (seen w s).result = none) :
    Runs verify w (poll verify input) (Answered w input) s := by
  refine runs_op fun t env hst ht hnow => ?_
  have hresult : (seen w t).result = none := (congrArg Seen.result hst.seen).trans hx
  have hguar : (pollDiscipline verify).Guar w t (applied w env .now t) :=
    guar_noted ht hresult rfl rfl rfl fun v hv => ⟨Function.update_of_ne hv .., rfl⟩
  refine ⟨hguar, ?_⟩
  generalize hclock : (exec w env .now t.1).1 = now
  have hreading : IsReading now := by
    rw [← hclock]
    exact hnow
  have hxt : (seen w (applied w env .now t)).result = none ∧
      (seen w (applied w env .now t)).reading = some now := by
    refine ⟨hresult, ?_⟩
    change Function.update t.2.reading w (some (exec w env .now t.1).1) w = _
    rw [Function.update_self, hclock]
  refine runs_op fun u env' hst hu _ => ?_
  have hresult : (seen w u).result = none := (congrArg Seen.result hst.seen).trans hxt.1
  have hguar : (pollDiscipline verify).Guar w u (applied w env' .findRow u) :=
    guar_noted hu hresult rfl rfl rfl fun v hv => ⟨rfl, Function.update_of_ne hv ..⟩
  refine ⟨hguar, ?_⟩
  have hxu : seen w (applied w env' .findRow u) = ⟨none, some now, some u.1.row⟩ := by
    have hread : (applied w env' .findRow u).2.read w = some u.1.row := Function.update_self ..
    have hkept : (seen w u).reading = some now := (congrArg Seen.reading hst.seen).trans hxt.2
    exact Seen.mk.injEq .. ▸ ⟨hresult, hkept, hread⟩
  have hstatus := hu.status
  generalize applied w env' .findRow u = s at hguar hxu
  generalize hrow : (exec w env' .findRow u.1).1 = row
  have hfound : u.1.row = row := hrow
  rw [hfound] at hxu hstatus
  by_cases hdelivered : row.status = .delivered
  · rw [if_pos hdelivered]
    exact runs_fail _
  rw [if_neg hdelivered]
  by_cases hexpired : row.expiresAt ≤ now ∨ row.status = .expired
  · rw [if_pos hexpired]
    exact runs_silent (by trivial) hxu fun _ u hu hxu => runs_fail _
  rw [if_neg hexpired]
  refine runs_silent (by trivial) hxu fun lockout u hu hxu => ?_
  by_cases hlocked : (lockout.any fun lockout => isLocked lockout.lockedUntil now) = true
  · rw [if_pos hlocked]
    exact runs_fail _
  rw [if_neg hlocked]
  cases hverified : verifyPollTimestamp row input.timestamp now with
  | some e => exact runs_fail _
  | none =>
    by_cases hverify : verify input = false
    · dsimp only
      rw [if_pos hverify]
      refine Discipline.wp_seq hu (recordSignatureFailure_runs hxu) fun _ t ht h => ?_
      refine Discipline.wp_seq ht (recordPubkeySignatureFailure_runs h.2) fun lockout v hv _ => ?_
      split <;> exact runs_fail _
    · dsimp only
      rw [if_neg hverify]
      refine runs_silent (by trivial) hxu fun _ v hv hxv => ?_
      rcases hstatus with hpending | hmarked
      · rw [hpending]
        exact rotateAndPersist_runs _ hreading (verifyPollTimestamp_eq_none hverified) hxv
      · exact absurd (Or.inr hmarked) hexpired

end

/-! ### All calls together -/

theorem polls_sequential (verify : DeviceCodePollInput → Bool) :
    (pollDiscipline verify).Sequential := by
  intro w input s hs hfresh
  have hreport : ∀ (r : Except AppError DeviceCodePoll) (t : Store × Notes),
      (∀ x, r = .ok x → Answered w input x t) →
        Runs verify w (Prog.perform (.report (.poll input r))) (fun _ _ => True) t := by
    intro r t hr
    have hstep : ∀ u env, PollRely w t u → PollInv u →
        (pollDiscipline verify).Guar w u (applied w env (.report (.poll input r)) u) := by
      intro u env hst hu
      refine guar_report_poll hu fun x hx => ?_
      obtain ⟨update, hmem, hanswers⟩ := hr x hx
      exact ⟨update, hst.updates update hmem, hanswers.rely hst⟩
    exact fun u env hst hu =>
      { done := fun _ => ⟨hstep u env hst hu, trivial⟩
        lost := fun _ => ⟨hstep u env hst hu, trivial⟩
        failed := fun _ => trivial
        crash := fun _ => trivial }
  have hpoll : Runs verify w (poll verify input) (Answered w input) s := poll_runs hfresh
  refine Discipline.wp_try hs hpoll (fun r u _ h => hreport _ u fun x hx => ?_)
    (fun e u _ _ => hreport _ u fun x hx => ?_)
  · obtain rfl := Except.ok.inj hx
    exact h
  · cases hx

/-- Nothing but an update in order writes the last timestamp of a row that is not approved. -/
theorem timestamp_after {β : Type} {o : Op β} {env : Env} (hs : PollInv s)
    (horder : o.Orderly w env s.1 s.2) {last : Int64} (hlast : s.1.row.lastPollTimestamp = some last) :
    ∃ later, (exec w env o s.1).2.row.lastPollTimestamp = some later ∧ last ≤ later := by
  cases o with
  | persistSuccessfulPoll fields =>
    simp only [exec]
    cases hnew : env.duplicate with
    | true => exact ⟨last, hlast, Int64.le_refl _⟩
    | false => exact ⟨_, rfl, Int64.le_of_lt ((horder hnew).later last hlast)⟩
  | claimApprovedDelivery now timestamp =>
    have hnot : s.1.row.status ≠ .approved := by
      intro happroved
      rcases hs.status with h | h
      · rw [h] at happroved
        cases happroved
      · rw [h] at happroved
        cases happroved
    simp only [exec, if_neg hnot]
    exact ⟨last, hlast, Int64.le_refl _⟩
  | _ =>
    simp only [exec]
    repeat' split
    all_goals exact ⟨last, hlast, Int64.le_refl _⟩

def watchedStart (row : DeviceCode) (lockout : Option DevicePubkeyLockout) (clock : ℤ) : Store × Notes :=
  (start row lockout clock, ⟨fun _ => none, fun _ => none, []⟩)

/-- In runs whose updates find the row in order, polls are accepted once and fresh, and show a code
that is the newest one until a poll draws another. -/
theorem polls_fresh_and_once (verify : DeviceCodePollInput → Bool) {row : DeviceCode}
    (hrow : row.status = .pending) (lockout : Option DevicePubkeyLockout) (clock : ℤ)
    {c : (watched verify).Config} (hc : Reaches (Orderly verify) (watchedStart row lockout clock) c) :
    let s : Store := c.store.1
    let notes : Notes := c.store.2
    Reaches (M := polls verify) anyStep (start row lockout clock) c.forget ∧
    (∀ w input r, s.results w = some (.poll input (.ok r)) → ∃ u ∈ notes.updates,
      u.caller = w ∧ u.fields.lastPollTimestamp = input.timestamp ∧
      notes.reading w = some u.fields.lastPolledAt ∧
      ((input.timestamp.toInt - u.fields.lastPolledAt / 1000).natAbs : ℤ) ≤ timestampSkewSecs ∧
      ∃ code, u.shown = some code ∧ r = .pending code) ∧
    (∀ w v input r r', s.results w = some (.poll input (.ok r)) →
      s.results v = some (.poll input (.ok r')) → w = v) ∧
    (∀ front u back, notes.updates = front ++ u :: back → (∀ v ∈ back, v.rotated = false) →
      newestCode s.row = u.shown) ∧
    ∀ ch, c.Admits (Orderly verify) ch → ∀ last, s.row.lastPollTimestamp = some last →
      ∃ later, (c.next ch).store.1.row.lastPollTimestamp = some later ∧ last ≤ later := by
  have hstart : PollInv (watchedStart row lockout clock) :=
    ⟨Or.inl hrow, .nil, nofun, fun front u back h => absurd h.symm (by simp [watchedStart]), nofun⟩
  have hsound := (polls_sequential verify).sound hstart (fun _ => rfl) hc
  have hinv : PollInv c.store := hsound.inv
  intro s notes
  refine ⟨hc.forget, fun w input r hr => ?_, fun w v input r r' hw hv => ?_, hinv.shown,
    fun ch hch last hlast => ?_⟩
  · obtain ⟨u, hu, hanswers⟩ := hinv.returned w input r hr
    exact ⟨u, hu, hanswers.caller, hanswers.timestamp, hanswers.reading, hanswers.near,
      hanswers.shown⟩
  · obtain ⟨u, hu, hanswers⟩ := hinv.returned w input r hw
    obtain ⟨u', hu', hanswers'⟩ := hinv.returned v input r' hv
    have hsame : u = u' := by
      by_contra hne
      have hstamp := hanswers.timestamp.trans hanswers'.timestamp.symm
      obtain ⟨i, hi, rfl⟩ := List.getElem_of_mem hu
      obtain ⟨j, hj, rfl⟩ := List.getElem_of_mem hu'
      have hordered := List.pairwise_iff_getElem.mp hinv.ordered
      rcases Nat.lt_trichotomy i j with hlt | rfl | hgt
      · have hless := hordered i j hi hj hlt
        rw [hstamp] at hless
        exact Int64.lt_irrefl hless
      · exact hne rfl
      · have hless := hordered j i hj hi hgt
        rw [hstamp] at hless
        exact Int64.lt_irrefl hless
    rw [← hanswers.caller, hsame, hanswers'.caller]
  · cases ch with
    | spawn input => exact ⟨last, hlast, Int64.le_refl _⟩
    | step w env out =>
      unfold Config.next
      dsimp only
      split
      · rename_i p htask
        cases p with
        | ret r => exact ⟨last, hlast, Int64.le_refl _⟩
        | call o k =>
          simp only [Config.Admits, htask] at hch
          cases out with
          | done => exact timestamp_after hinv (hch (Or.inl rfl)) hlast
          | lost => exact timestamp_after hinv (hch (Or.inr rfl)) hlast
          | failed => exact ⟨last, hlast, Int64.le_refl _⟩
          | crash => exact ⟨last, hlast, Int64.le_refl _⟩
      · exact ⟨last, hlast, Int64.le_refl _⟩

/-- Two polls, one after the other, and then a copy of the second message. -/
def polledTwice : List (watched anySignature).Choice :=
  [.spawn (⟨10, []⟩ : DeviceCodePollInput), .spawn (⟨11, []⟩ : DeviceCodePollInput),
    .spawn (⟨11, []⟩ : DeviceCodePollInput)] ++ List.replicate 7 (.step 0 (after 0) .done) ++
      [.step 1 (after 1000) .done] ++ List.replicate 6 (.step 1 (after 0) .done) ++
        List.replicate 7 (.step 2 (after 0) .done)

theorem doorbell_polled_twice :
    let c : (watched anySignature).Config := run (watchedStart doorbell none 10000) polledTwice
    let s : Store := c.store.1
    s.results 0 = some (.poll ⟨10, []⟩ (.ok (.pending "ABCD"))) ∧
      s.results 1 = some (.poll ⟨11, []⟩ (.ok (.pending "ABCD"))) ∧ (s.results 2).isSome = true ∧
      (∃ u ∈ c.store.2.updates, u.caller = 1 ∧
        ((11 - u.fields.lastPolledAt / 1000).natAbs : ℤ) ≤ timestampSkewSecs) ∧
      ∀ v r, s.results v = some (.poll ⟨11, []⟩ (.ok r)) → v = 1 := by
  have hc : Reaches (Orderly anySignature) (watchedStart doorbell none 10000)
      (run (watchedStart doorbell none 10000) polledTwice) := by
    refine Reaches.start.schedule ?_
    repeat first
      | exact trivial
      | refine And.intro trivial ?_
      | refine And.intro (fun _ => trivial) ?_
      | refine And.intro (fun _ => show (_ : ℤ).natAbs < 2 ^ 62 by decide) ?_
      | refine And.intro (fun _ _ => ⟨by decide, fun last hlast => by cases hlast <;> decide,
          fun row hrow _ => by cases hrow; rfl⟩) ?_
  obtain ⟨-, hfresh, honce, -⟩ := polls_fresh_and_once anySignature rfl none 10000 hc
  obtain ⟨u, hu, hcaller, -, -, hnear, -⟩ := hfresh 1 ⟨11, []⟩ (.pending "ABCD") rfl
  exact ⟨rfl, rfl, rfl, ⟨u, hu, hcaller, hnear⟩, fun v r hv => honce v 1 _ r _ hv rfl⟩

/-- A poll that reads the clock and the row before another one runs to its end. -/
def overtaken (first second : DeviceCodePollInput) (between : ℕ) :
    List (polls anySignature).Choice :=
  [.spawn first, .spawn second, .step 0 (after 0) .done, .step 0 (after 0) .done,
    .step 1 (after between) .done] ++ List.replicate 7 (.step 1 (after 0) .done)

def resumed (first second : DeviceCodePollInput) (between : ℕ) : List (polls anySignature).Choice :=
  overtaken first second between ++ List.replicate 6 (.step 0 (after 0) .done)

/-- One poll up to its report. -/
def alone (input : DeviceCodePollInput) : List (polls anySignature).Choice :=
  .spawn input :: List.replicate 7 (.step 0 (after 0) .done)

/-- Two copies of a message are both accepted; a late update takes back the timestamp and the code of
an earlier one; and a timestamp from the far past is taken for a fresh one. -/
theorem polls_replayed_reverted_and_stale :
    let s₁ : Store := (run (start doorbell none 10000) (resumed ⟨10, [7]⟩ ⟨10, [7]⟩ 0)).store
    let s₂ : Store := (run (start doorbell none 29000) (overtaken ⟨29, []⟩ ⟨31, []⟩ 2000)).store
    let s₃ : Store := (run (start doorbell none 29000) (resumed ⟨29, []⟩ ⟨31, []⟩ 2000)).store
    let s₄ : Store := (run (start doorbell none 10000) (alone ⟨Int64.minValue + 10, []⟩)).store
    (s₁.results 0 = some (.poll ⟨10, [7]⟩ (.ok (.pending "ABCD"))) ∧
      s₁.results 1 = some (.poll ⟨10, [7]⟩ (.ok (.pending "ABCD")))) ∧
    (s₂.row.lastPollTimestamp = some 31 ∧ s₃.row.lastPollTimestamp = some 29 ∧
      s₂.results 1 = some (.poll ⟨31, []⟩ (.ok (.pending "s-1"))) ∧
      newestCode s₂.row = some "s-1" ∧ newestCode s₃.row = some "ABCD" ∧ s₃.clock = 31000) ∧
    s₄.results 0 = some (.poll ⟨Int64.minValue + 10, []⟩ (.ok (.pending "ABCD"))) ∧
      s₄.clock = 10000 :=
  ⟨⟨rfl, rfl⟩, ⟨rfl, rfl, rfl, rfl, rfl, rfl⟩, rfl, rfl⟩

end NyxId.DeviceCodes
