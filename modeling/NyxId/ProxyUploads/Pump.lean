import NyxId.ProxyUploads.Model

/-!
The frames of an upload. They are judged one by one, and the first that ends the body or breaks it
decides for good. Each part of a frame call keeps what was sent in step with that judgement.
-/

namespace NyxId.ProxyUploads

/-- The frame is the one that is due: its kind and number are right, the map has not lost the
stream, and no send of it was late. -/
def Call.good (n : ℕ) (call : Call) : Bool :=
  call.frame.kind = .proxyUpload && call.frame.sequence = UInt64.ofNat n && !call.cut && call.inTime

inductive Verdict where
  | running
  | whole
  | broken
  deriving DecidableEq

def Call.verdict (n : ℕ) (call : Call) : Verdict :=
  if call.good n then if call.frame.final then .whole else .running else .broken

/-- What the calls of an upload amount to, the first of which is due at a number. -/
def verdict : ℕ → List Call → Verdict
  | _, [] => .running
  | n, call :: rest => match call.verdict n with
    | .running => verdict (n + 1) rest
    | decided => decided

/-- The calls up to the first whose frame is flagged as the end. -/
def upToEnd : List Call → List Call
  | [] => []
  | call :: rest => if call.frame.final then [call] else call :: upToEnd rest

def bytesOf (calls : List Call) : List UInt8 := calls.flatMap fun call => call.frame.bytes

/-- The chunks of the calls; an empty frame sends none. -/
def chunksOf (calls : List Call) : List (List UInt8) :=
  (calls.map fun call => call.frame.bytes).filter fun bytes => !bytes.isEmpty

section Verdicts

variable {n : ℕ} {calls : List Call} {call : Call}

theorem call_running : call.verdict n = .running ↔ call.good n ∧ ¬ call.frame.final := by
  unfold Call.verdict
  cases call.good n <;> cases call.frame.final <;> simp

theorem call_whole : call.verdict n = .whole ↔ call.good n ∧ call.frame.final := by
  unfold Call.verdict
  cases call.good n <;> cases call.frame.final <;> simp

theorem verdict_concat (n : ℕ) (calls : List Call) (call : Call) :
    verdict n (calls ++ [call]) = match verdict n calls with
      | .running => call.verdict (n + calls.length)
      | decided => decided := by
  induction calls generalizing n with
  | nil =>
    simp only [List.nil_append, verdict, List.length_nil, Nat.add_zero]
    cases call.verdict n <;> rfl
  | cons first rest ih =>
    rw [List.cons_append, verdict, verdict]
    cases hfirst : first.verdict n with
    | running =>
      simp only [ih, List.length_cons]
      rw [show n + 1 + rest.length = n + (rest.length + 1) by omega]
    | whole => rfl
    | broken => rfl

/-- Until the verdict no frame was flagged as the end. -/
theorem upToEnd_of_running (h : verdict n calls = .running) : upToEnd calls = calls := by
  induction calls generalizing n with
  | nil => rfl
  | cons first rest ih =>
    unfold verdict at h
    cases hfirst : first.verdict n with
    | running =>
      rw [hfirst] at h
      rw [upToEnd, if_neg (call_running.mp hfirst).2, ih h]
    | whole => simp [hfirst] at h
    | broken => simp [hfirst] at h

theorem upToEnd_append (hcalls : upToEnd calls = calls) (hopen : ∀ c ∈ calls, ¬ c.frame.final)
    (hfinal : call.frame.final) : upToEnd (calls ++ [call]) = calls ++ [call] := by
  induction calls with
  | nil => simp [upToEnd, hfinal]
  | cons first rest ih =>
    have hfirst := hopen first List.mem_cons_self
    rw [upToEnd, if_neg hfirst, List.cons.injEq] at hcalls
    rw [List.cons_append, upToEnd, if_neg hfirst,
      ih hcalls.2 fun c hc => hopen c (List.mem_cons_of_mem _ hc)]

theorem not_final_of_running (h : verdict n calls = .running) : ∀ c ∈ calls, ¬ c.frame.final := by
  induction calls generalizing n with
  | nil => simp
  | cons first rest ih =>
    unfold verdict at h
    cases hfirst : first.verdict n with
    | running =>
      rw [hfirst] at h
      intro c hc
      obtain rfl | hc := List.mem_cons.mp hc
      · exact (call_running.mp hfirst).2
      · exact ih h c hc
    | whole => simp [hfirst] at h
    | broken => simp [hfirst] at h

/-- More calls change nothing after the end of the body. -/
theorem upToEnd_concat_of_whole (h : verdict n calls = .whole) (call : Call) :
    upToEnd (calls ++ [call]) = upToEnd calls := by
  induction calls generalizing n with
  | nil => simp [verdict] at h
  | cons first rest ih =>
    rw [List.cons_append, upToEnd, upToEnd]
    split
    · rfl
    · next hopen =>
      unfold verdict at h
      cases hfirst : first.verdict n with
      | running =>
        rw [hfirst] at h
        rw [ih h]
      | whole => exact absurd (call_whole.mp hfirst).2 hopen
      | broken => simp [hfirst] at h

/-- The verdict is that the body is whole when the frames up to its end are numbered without gap. -/
theorem verdict_whole_iff : verdict n calls = .whole ↔
    (∀ (i : ℕ) (c : Call), (upToEnd calls)[i]? = some c → c.good (n + i)) ∧ ∃ c ∈ upToEnd calls, c.frame.final := by
  induction calls generalizing n with
  | nil => simp [verdict, upToEnd]
  | cons first rest ih =>
    rw [verdict, upToEnd]
    by_cases hgood : first.good n
    · by_cases hfinal : first.frame.final
      · simp only [Call.verdict, hgood, hfinal, if_true, true_iff]
        refine ⟨fun i c hc => ?_, first, List.mem_singleton_self first, hfinal⟩
        obtain ⟨hi, hc⟩ := List.getElem?_eq_some_iff.mp hc
        have hzero : i = 0 := by simpa using hi
        subst hzero
        rw [← hc]
        exact hgood
      · simp only [Call.verdict, hgood, hfinal, if_true, if_false, Bool.false_eq_true]
        rw [ih]
        constructor
        · intro ⟨hnumbered, c, hc, hend⟩
          refine ⟨fun i c hc => ?_, c, List.mem_cons_of_mem _ hc, hend⟩
          cases i with
          | zero =>
            obtain rfl : first = c := by simpa using hc
            exact hgood
          | succ i =>
            have hlater := hnumbered i c (by simpa using hc)
            rwa [show n + (i + 1) = n + 1 + i by omega]
        · intro ⟨hnumbered, c, hc, hend⟩
          refine ⟨fun i c hc => ?_, c, ?_, hend⟩
          · have hlater := hnumbered (i + 1) c (by simpa using hc)
            rwa [show n + (i + 1) = n + 1 + i by omega] at hlater
          · obtain rfl | hc := List.mem_cons.mp hc
            · exact absurd hend hfinal
            · exact hc
    · simp only [Call.verdict, hgood, Bool.false_eq_true, if_false, reduceCtorEq, false_iff, not_and]
      intro hnumbered
      refine absurd ?_ hgood
      split at hnumbered
      · exact hnumbered 0 first rfl
      · exact hnumbered 0 first rfl

/-- A call with an empty frame sends no chunk. -/
theorem chunksOf_concat_nil (calls : List Call) (hbytes : call.frame.bytes = []) :
    chunksOf (calls ++ [call]) = chunksOf calls := by
  simp [chunksOf, hbytes]

theorem chunksOf_concat (calls : List Call) (hbytes : call.frame.bytes ≠ []) :
    chunksOf (calls ++ [call]) = chunksOf calls ++ [call.frame.bytes] := by
  simp [chunksOf, hbytes]

theorem flatten_chunksOf (calls : List Call) : (chunksOf calls).flatten = bytesOf calls := by
  unfold chunksOf bytesOf
  induction calls with
  | nil => rfl
  | cons call rest ih =>
    rw [List.map_cons, List.flatMap_cons, List.filter_cons, ← ih]
    cases hbytes : call.frame.bytes <;> simp

end Verdicts

/-! ### Parts of a frame call -/

/-- The frame is of the right kind and has the next number. -/
def Due (u : Upload) (f : Frame) : Prop :=
  f.kind = .proxyUpload ∧ f.sequence = UInt64.ofNat u.calls.length

/-- The frame call under way, if it is of the upload, the calls before it and what was sent. -/
inductive Pumped (u : Upload) : Option (Frame × Phase) → List Item → Prop where
  | live (hcalls : verdict 0 u.calls = .running) (haccepted : u.accepted = chunksOf u.calls)
      (hentry : u.sequence = some (UInt64.ofNat u.calls.length)) (hcut : u.cut = false) : Pumped u none []
  | lost (hcalls : verdict 0 u.calls = .running) (haccepted : u.accepted = chunksOf u.calls)
      (hentry : u.sequence = none) (hcut : u.cut = true) : Pumped u none []
  | data (f : Frame) (hcalls : verdict 0 u.calls = .running) (haccepted : u.accepted = chunksOf u.calls)
      (hdue : Due u f) (hid : u.id = f.id) (hbytes : f.bytes ≠ [])
      (hentry : f.final ∧ u.sequence = none ∨ ¬ f.final ∧
        (u.sequence = some (UInt64.ofNat (u.calls.length + 1)) ∧ u.cut = false ∨
          u.sequence = none ∧ u.cut = true)) : Pumped u (some (f, .data)) []
  | mark (f : Frame) (hcalls : verdict 0 u.calls = .running)
      (haccepted : u.accepted = chunksOf (u.calls ++ [⟨f, false, true⟩])) (hdue : Due u f)
      (hfinal : f.final) (hentry : u.sequence = none) : Pumped u (some (f, .mark)) []
  | interrupt (f : Frame) (hcalls : verdict 0 u.calls = .broken) (hentry : u.sequence = none) :
      Pumped u (some (f, .interrupt)) []
  | drop (f : Frame) (hcalls : verdict 0 u.calls = .broken) (hid : u.id = f.id) :
      Pumped u (some (f, .drop)) []
  | whole (hcalls : verdict 0 u.calls = .whole) (haccepted : u.accepted = chunksOf (upToEnd u.calls))
      (hentry : u.sequence = none) : Pumped u none [endMark]
  | broken {tail : List Item} (hcalls : verdict 0 u.calls = .broken) (hentry : u.sequence = none)
      (htail : tail ≠ [endMark]) : Pumped u none tail

/-- What holds of every upload: its consumer and its frames agree on what was sent. -/
def Sound (u : Upload) (phase : Option (Frame × Phase)) : Prop :=
  ∃ tail, Closing tail ∧ (∀ chunk ∈ u.accepted, chunk ≠ []) ∧ u.limit ≤ maxBytes ∧
    Consumed u tail ∧ Pumped u phase tail

section Parts

variable {u : Upload} {f : Frame} {phase : Option (Frame × Phase)} {inTime : Bool}

theorem due_verdict (hdue : Due u f) (hcalls : verdict 0 u.calls = .running) :
    verdict 0 (u.calls ++ [⟨f, false, true⟩]) = if f.final then .whole else .running := by
  have hgood : Call.good u.calls.length ⟨f, false, true⟩ := by
    simp [Call.good, hdue.1, hdue.2]
  rw [verdict_concat, hcalls]
  simp [Call.verdict, hgood]

theorem late_verdict (hcalls : verdict 0 u.calls = .running) :
    verdict 0 (u.calls ++ [⟨f, false, false⟩]) = .broken := by
  rw [verdict_concat, hcalls]
  simp [Call.verdict, Call.good]

theorem sound_opened (id : Uuid) {limit : ℕ} (hlimit : limit ≤ maxBytes) :
    Sound (.opened id limit) none :=
  ⟨[], .inl rfl, by simp [Upload.opened], hlimit,
    .waiting rfl rfl (by simp [Upload.opened]) rfl (Nat.zero_le _), .live rfl rfl rfl rfl⟩

/-- The map loses the stream of an upload. -/
theorem Sound.cutOff (h : Sound u phase) : Sound u.cutOff phase := by
  obtain ⟨tail, hclosing, hchunks, hlimit, hconsumed, hpumped⟩ := h
  unfold Upload.cutOff
  split
  · next hheld =>
    refine ⟨tail, hclosing, hchunks, hlimit, hconsumed.congr rfl, ?_⟩
    cases hpumped with
    | live hcalls haccepted hentry hcut => exact .lost hcalls haccepted rfl rfl
    | lost hcalls haccepted hentry hcut => simp [hentry] at hheld
    | data f hcalls haccepted hdue hid hbytes hentry =>
      refine .data f hcalls haccepted hdue hid hbytes ?_
      obtain ⟨-, hnone⟩ | ⟨hopen, -⟩ := hentry
      · simp [hnone] at hheld
      · exact .inr ⟨hopen, .inr ⟨rfl, rfl⟩⟩
    | mark f hcalls haccepted hdue hfinal hentry => simp [hentry] at hheld
    | interrupt f hcalls hentry => simp [hentry] at hheld
    | drop f hcalls hid => exact .drop f hcalls hid
    | whole hcalls haccepted hentry => simp [hentry] at hheld
    | broken hcalls hentry htail => simp [hentry] at hheld
  · exact ⟨tail, hclosing, hchunks, hlimit, hconsumed, hpumped⟩

/-- A frame comes when the map does not hold the upload. -/
theorem Sound.ignore (h : Sound u none) (hfree : ¬ u.held f.id) : Sound (u.ignore f) none := by
  unfold Upload.ignore
  split
  · next hid =>
    have hentry : u.sequence = none := by simpa [Upload.held, hid] using hfree
    obtain ⟨tail, hclosing, hchunks, hlimit, hconsumed, hpumped⟩ := h
    refine ⟨tail, hclosing, hchunks, hlimit, hconsumed.congr rfl, ?_⟩
    cases hpumped with
    | live hcalls haccepted hlive hcut => rw [hentry] at hlive; cases hlive
    | lost hcalls haccepted hnone hcut =>
      refine .broken ?_ hentry (by simp)
      show verdict 0 (u.calls ++ [⟨f, u.cut, true⟩]) = _
      rw [verdict_concat, hcalls]
      simp [Call.verdict, Call.good, hcut]
    | whole hcalls haccepted hnone =>
      refine .whole ?_ ?_ hentry
      · show verdict 0 (u.calls ++ [⟨f, u.cut, true⟩]) = _
        rw [verdict_concat, hcalls]
      · show u.accepted = chunksOf (upToEnd (u.calls ++ [⟨f, u.cut, true⟩]))
        rw [upToEnd_concat_of_whole hcalls, haccepted]
    | broken hcalls hnone htail =>
      refine .broken ?_ hentry htail
      show verdict 0 (u.calls ++ [⟨f, u.cut, true⟩]) = _
      rw [verdict_concat, hcalls]
  · exact h

/-- The lookup of a frame that the map holds. -/
theorem Sound.lookUp (h : Sound u none) (hheld : u.held f.id) :
    Sound (u.lookUp f) ((u.nextPhase f).map fun phase => (f, phase)) := by
  obtain ⟨hsome, hid⟩ : u.sequence.isSome ∧ u.id = f.id := by simpa [Upload.held] using hheld
  obtain ⟨tail, hclosing, hchunks, hlimit, hconsumed, hpumped⟩ := h
  cases hpumped with
  | lost hcalls haccepted hentry hcut => simp [hentry] at hsome
  | whole hcalls haccepted hentry => simp [hentry] at hsome
  | broken hcalls hentry htail => simp [hentry] at hsome
  | live hcalls haccepted hentry hcut =>
    by_cases haccepts : u.accepts f
    · have hdue : Due u f := by
        simp only [Upload.accepts, hentry, Bool.and_eq_true, decide_eq_true_eq,
          Option.some.injEq] at haccepts
        exact ⟨haccepts.1, haccepts.2.symm⟩
      have hnext : u.sequence.map (· + 1) = some (UInt64.ofNat (u.calls.length + 1)) := by
        rw [hentry, Option.map_some, UInt64.ofNat_add]
        rfl
      have htaken : (u.taken f).sequence =
          if f.final then none else some (UInt64.ofNat (u.calls.length + 1)) := by
        simp [Upload.taken, haccepts, hnext]
      by_cases hbytes : f.bytes = []
      · by_cases hfinal : f.final
        · have hphase : u.nextPhase f = some .mark := by
            simp [Upload.nextPhase, haccepts, hbytes, hfinal]
          simp only [Upload.lookUp, hphase, Option.map_some]
          refine ⟨[], .inl rfl, hchunks, hlimit, hconsumed.congr rfl, ?_⟩
          refine .mark f hcalls ?_ hdue hfinal (by rw [htaken, if_pos hfinal])
          exact haccepted.trans (chunksOf_concat_nil u.calls hbytes).symm
        · have hphase : u.nextPhase f = none := by
            simp [Upload.nextPhase, haccepts, hbytes, hfinal]
          simp only [Upload.lookUp, hphase, Option.map_none]
          refine ⟨[], .inl rfl, hchunks, hlimit, hconsumed.congr rfl, ?_⟩
          refine .live ?_ ?_ ?_ hcut
          · have hverdict := due_verdict hdue hcalls
            rw [if_neg hfinal] at hverdict
            exact hverdict
          · exact haccepted.trans (chunksOf_concat_nil u.calls hbytes).symm
          · show (u.taken f).sequence = some (UInt64.ofNat (u.calls ++ [_]).length)
            rw [htaken, if_neg hfinal, List.length_append]
            rfl
      · have hphase : u.nextPhase f = some .data := by
          simp [Upload.nextPhase, haccepts, hbytes]
        simp only [Upload.lookUp, hphase, Option.map_some]
        refine ⟨[], .inl rfl, hchunks, hlimit, hconsumed.congr rfl, ?_⟩
        refine .data f hcalls haccepted hdue hid hbytes ?_
        by_cases hfinal : f.final
        · exact .inl ⟨hfinal, by rw [htaken, if_pos hfinal]⟩
        · exact .inr ⟨hfinal, .inl ⟨by rw [htaken, if_neg hfinal]; rfl, hcut⟩⟩
    · have hphase : u.nextPhase f = some .interrupt := by simp [Upload.nextPhase, haccepts]
      simp only [Upload.lookUp, hphase, Option.map_some]
      refine ⟨[], .inl rfl, hchunks, hlimit, hconsumed.congr rfl, ?_⟩
      refine .interrupt f ?_ (by simp [Upload.log, Upload.taken, haccepts])
      show verdict 0 (u.calls ++ [⟨f, false, true⟩]) = _
      have hbad : ¬ Call.good u.calls.length ⟨f, false, true⟩ := by
        intro hgood
        apply haccepts
        simp only [Call.good, Bool.and_eq_true, decide_eq_true_eq] at hgood
        simp [Upload.accepts, hentry, hgood.1.1.1, hgood.1.1.2]
      rw [verdict_concat, hcalls, Nat.zero_add]
      simp only [Call.verdict, hbad, Bool.false_eq_true, if_false]

/-- An interrupted call sends an error when there is room for it. -/
theorem Sound.interrupt (h : Sound u (some (f, .interrupt))) (error : String) :
    Sound (u.tryPush (.error error)) none := by
  obtain ⟨tail, hclosing, hchunks, hlimit, hconsumed, hpumped⟩ := h
  cases hpumped with
  | interrupt f hcalls hentry =>
    unfold Upload.tryPush
    split
    · next hready =>
      simp only [Upload.ready, Bool.and_eq_true, Option.isNone_iff_eq_none] at hready
      exact ⟨[.error error], .inr (.inr ⟨error, rfl⟩), hchunks, hlimit,
        hconsumed.close hready.1 _, .broken hcalls hentry (by simp [endMark])⟩
    · exact ⟨[], .inl rfl, hchunks, hlimit, hconsumed, .broken hcalls hentry (by simp)⟩

theorem accept_chunks (hchunks : ∀ chunk ∈ u.accepted, chunk ≠ []) {bytes : List UInt8}
    (hbytes : bytes ≠ []) : ∀ chunk ∈ u.accepted ++ [bytes], chunk ≠ [] := by
  intro chunk hchunk
  obtain hold | hnew := List.mem_append.mp hchunk
  · exact hchunks chunk hold
  · rw [List.mem_singleton.mp hnew]
    exact hbytes

/-- The chunk of a frame is sent in time, and the end of the body is still to be sent. -/
theorem Sound.dataFinal (h : Sound u (some (f, .data))) (hready : u.ready) (hfinal : f.final) :
    Sound { u.push (.ok f.bytes) with accepted := u.accepted ++ [f.bytes] } (some (f, .mark)) := by
  obtain ⟨tail, hclosing, hchunks, hlimit, hconsumed, hpumped⟩ := h
  simp only [Upload.ready, Bool.and_eq_true, Option.isNone_iff_eq_none] at hready
  cases hpumped with
  | data f hcalls haccepted hdue hid hbytes hentry =>
    have hnone : u.sequence = none := by
      obtain ⟨-, hnone⟩ | ⟨hopen, -⟩ := hentry
      · exact hnone
      · exact absurd hfinal hopen
    refine ⟨[], .inl rfl, accept_chunks hchunks hbytes, hlimit, hconsumed.accept hready.1 f.bytes,
      .mark f hcalls ?_ hdue hfinal hnone⟩
    show u.accepted ++ [f.bytes] = chunksOf (u.calls ++ [⟨f, false, true⟩])
    rw [chunksOf_concat _ hbytes, haccepted]

theorem Sound.dataMore (h : Sound u (some (f, .data))) (hready : u.ready) (hopen : ¬ f.final) :
    Sound ({ u.push (.ok f.bytes) with accepted := u.accepted ++ [f.bytes] }.log ⟨f, false, true⟩)
      none := by
  obtain ⟨tail, hclosing, hchunks, hlimit, hconsumed, hpumped⟩ := h
  simp only [Upload.ready, Bool.and_eq_true, Option.isNone_iff_eq_none] at hready
  cases hpumped with
  | data f hcalls haccepted hdue hid hbytes hentry =>
    have hrunning := due_verdict hdue hcalls
    rw [if_neg hopen] at hrunning
    have haccepted' : u.accepted ++ [f.bytes] = chunksOf (u.calls ++ [⟨f, false, true⟩]) := by
      rw [chunksOf_concat _ hbytes, haccepted]
    refine ⟨[], .inl rfl, accept_chunks hchunks hbytes, hlimit,
      (hconsumed.accept hready.1 f.bytes).congr rfl, ?_⟩
    obtain ⟨hfinal, -⟩ | ⟨-, ⟨hlive, hcut⟩ | ⟨hlost, hcut⟩⟩ := hentry
    · exact absurd hfinal hopen
    · refine .live hrunning haccepted' ?_ hcut
      show u.sequence = some (UInt64.ofNat (u.calls ++ [_]).length)
      rw [hlive, List.length_append]
      rfl
    · exact .lost hrunning haccepted' hlost hcut

/-- A chunk is late. -/
theorem Sound.dataLate (h : Sound u (some (f, .data))) :
    Sound (u.log ⟨f, false, false⟩) (some (f, .drop)) := by
  obtain ⟨tail, hclosing, hchunks, hlimit, hconsumed, hpumped⟩ := h
  cases hpumped with
  | data f hcalls haccepted hdue hid hbytes hentry =>
    exact ⟨[], .inl rfl, hchunks, hlimit, hconsumed.congr rfl, .drop f (late_verdict hcalls) hid⟩

/-- After a late chunk the map loses the stream. -/
theorem Sound.drop (h : Sound u (some (f, .drop))) :
    Sound (if u.held f.id then u.cutOff else u) none := by
  obtain ⟨tail, hclosing, hchunks, hlimit, hconsumed, hpumped⟩ := h
  cases hpumped with
  | drop f hcalls hid =>
    split
    · next hheld =>
      have hsome : u.sequence.isSome := by simpa [Upload.held, hid] using hheld
      rw [Upload.cutOff, if_pos hsome]
      exact ⟨[], .inl rfl, hchunks, hlimit, hconsumed.congr rfl, .broken hcalls rfl (by simp)⟩
    · next hfree =>
      have hnone : u.sequence = none := by simpa [Upload.held, hid] using hfree
      exact ⟨[], .inl rfl, hchunks, hlimit, hconsumed, .broken hcalls hnone (by simp)⟩

/-- The end of the body is sent in time. -/
theorem Sound.mark (h : Sound u (some (f, .mark))) (hready : u.ready) :
    Sound ((u.push endMark).log ⟨f, false, true⟩) none := by
  obtain ⟨tail, hclosing, hchunks, hlimit, hconsumed, hpumped⟩ := h
  simp only [Upload.ready, Bool.and_eq_true, Option.isNone_iff_eq_none] at hready
  cases hpumped with
  | mark f hcalls haccepted hdue hfinal hentry =>
    have hwhole := due_verdict hdue hcalls
    rw [if_pos hfinal] at hwhole
    refine ⟨[endMark], .inr (.inl rfl), hchunks, hlimit, (hconsumed.close hready.1 _).congr rfl,
      .whole hwhole ?_ hentry⟩
    show u.accepted = chunksOf (upToEnd (u.calls ++ [⟨f, false, true⟩]))
    rw [upToEnd_append (upToEnd_of_running hcalls) (not_final_of_running hcalls) hfinal, haccepted]

theorem Sound.markLate (h : Sound u (some (f, .mark))) : Sound (u.log ⟨f, false, false⟩) none := by
  obtain ⟨tail, hclosing, hchunks, hlimit, hconsumed, hpumped⟩ := h
  cases hpumped with
  | mark f hcalls haccepted hdue hfinal hentry =>
    exact ⟨[], .inl rfl, hchunks, hlimit, hconsumed.congr rfl,
      .broken (late_verdict hcalls) hentry (by simp)⟩

/-- What the consumer does is not seen by the frames. -/
theorem Pumped.congr {u' : Upload} {tail : List Item} (h : Pumped u phase tail) (hid : u'.id = u.id)
    (hcalls : u'.calls = u.calls) (hentry : u'.sequence = u.sequence) (hcut : u'.cut = u.cut)
    (haccepted : u'.accepted = u.accepted) : Pumped u' phase tail := by
  obtain ⟨id, limit, sequence, queue, total, yielded, outcome, accepted, calls, cut⟩ := u'
  simp only at hid hcalls hentry hcut haccepted
  subst hid hcalls hentry hcut haccepted
  cases h with
  | live hcalls haccepted hentry hcut => exact .live hcalls haccepted hentry hcut
  | lost hcalls haccepted hentry hcut => exact .lost hcalls haccepted hentry hcut
  | data f hcalls haccepted hdue hid hbytes hentry => exact .data f hcalls haccepted hdue hid hbytes hentry
  | mark f hcalls haccepted hdue hfinal hentry => exact .mark f hcalls haccepted hdue hfinal hentry
  | interrupt f hcalls hentry => exact .interrupt f hcalls hentry
  | drop f hcalls hid => exact .drop f hcalls hid
  | whole hcalls haccepted hentry => exact .whole hcalls haccepted hentry
  | broken hcalls hentry htail => exact .broken hcalls hentry htail

/-- Everything but the consumer's own part of an upload. -/
theorem receive_kept (u : Upload) : u.receive.id = u.id ∧ u.receive.calls = u.calls ∧
    u.receive.sequence = u.sequence ∧ u.receive.cut = u.cut ∧ u.receive.accepted = u.accepted ∧
    u.receive.limit = u.limit := by
  unfold Upload.receive
  split
  · simp
  · simp [Upload.fail]
  · simp
  · simp only
    split <;> simp [Upload.fail]

theorem Sound.receive (h : Sound u phase) (hopen : u.outcome = none) (hitem : u.queue ≠ []) :
    Sound u.receive phase := by
  obtain ⟨tail, hclosing, hchunks, hlimit, hconsumed, hpumped⟩ := h
  obtain ⟨hid, hcalls, hentry, hcut, haccepted, hsame⟩ := receive_kept u
  exact ⟨tail, hclosing, by rw [haccepted]; exact hchunks, by rw [hsame]; exact hlimit,
    hconsumed.receive hclosing hchunks hlimit hopen hitem,
    hpumped.congr hid hcalls hentry hcut haccepted⟩

theorem Sound.fail (h : Sound u phase) (hopen : u.outcome = none) (hempty : u.queue = [])
    (error : String) : Sound (u.fail error) phase := by
  obtain ⟨tail, hclosing, hchunks, hlimit, hconsumed, hpumped⟩ := h
  exact ⟨tail, hclosing, hchunks, hlimit, hconsumed.fail hclosing hopen hempty error,
    hpumped.congr rfl rfl rfl rfl rfl⟩

end Parts

end NyxId.ProxyUploads
