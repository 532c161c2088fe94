import NyxId.Reconciliation.Model

/-!
A full pass covers both collections. Between two ends of a cycle, the clean batches put
every row that is there throughout on exactly one page; broken batches repeat a page.
-/

namespace NyxId.Reconciliation

open Interleave LedgerChain

theorem mem_found (step : Step) (kind : AssetKind) {row : AssetRow}
    (hrow : row ∈ (step.found kind).2) :
    row ∈ (step.found .wallets).2 ++ (step.found .grants).2 := by
  cases kind with
  | wallets => exact List.mem_append_left _ hrow
  | grants => exact List.mem_append_right _ hrow

variable {hmac : List UInt8 → String}

/-- What a clean batch has read, compared and left behind. -/
theorem clean_result {step : Step} (h : step.clean hmac = true) :
    ∃ deferred : Bool,
      (deferred = true ↔ step.Defers) ∧
      (∀ kind, ∀ row ∈ (step.found kind).2, row.inProgress = false → ∃ stored,
        row.stored = .ok stored ∧
          compareAccount hmac step.2.snapshot.ledger row.account stored = none) ∧
      runBatch hmac step.1 step.2 =
        ⟨⟨fun kind => if step.wrapped then ⟨(step.found kind).1.cursor, false⟩
            else (step.found kind).1, !step.wrapped && (step.1.state.deferred || deferred)⟩,
          if step.wrapped && !(step.1.state.deferred || deferred) then some step.2.now
          else step.1.lastFullPassAt⟩ := by
  unfold Step.clean Step.result at h
  cases hresult : verifySnapshot hmac step.2.snapshot step.1.state step.1.lastFullPassAt
      step.2.now with
  | error e =>
    rw [hresult] at h
    cases h
  | ok result =>
    rw [hresult] at h
    obtain ⟨⟨expected, count⟩, hread, hend⟩ := bind_eq_ok.mp hresult
    cases hend
    obtain ⟨hkept, -, hcount⟩ := foldlM_readRow (pages_accounts step) hread
    have hnone : firstMismatch hmac step.2.snapshot.ledger expected = none := by simpa using h
    refine ⟨decide (0 < count), ?_, ?_, ?_⟩
    · rw [decide_eq_true_eq]
      have hpos : 0 < count ↔ ∃ row ∈ (step.found .wallets).2 ++ (step.found .grants).2,
          row.inProgress = true := by
        have hzero : count = 0 + List.countP AssetRow.inProgress _ := hcount
        rw [hzero, Nat.zero_add]
        exact List.countP_pos_iff
      rw [hpos]
      constructor
      · rintro ⟨row, hrow, hprogress⟩
        rcases List.mem_append.mp hrow with hrow | hrow
        · exact ⟨.wallets, row, hrow, hprogress⟩
        · exact ⟨.grants, row, hrow, hprogress⟩
      · rintro ⟨kind, row, hrow, hprogress⟩
        exact ⟨row, mem_found step kind hrow, hprogress⟩
    · intro kind row hrow hfree
      obtain ⟨stored, hstored, hlookup⟩ := hkept row (mem_found step kind hrow) hfree
      refine ⟨stored, hstored, ?_⟩
      unfold firstMismatch at hnone
      rw [List.findSome?_eq_none_iff] at hnone
      exact hnone ⟨row.account, stored⟩ (List.mem_mergeSort.mpr (AList.mem_lookup_iff.mp hlookup))
    · unfold runBatch
      rw [hresult]
      simp only [hnone, Option.isNone_none, Bool.and_true, if_true]
      rfl

/-- A batch that fails or finds a mismatch leaves the cycle where it was. -/
theorem unclean_result {step : Step} (h : step.clean hmac = false) :
    runBatch hmac step.1 step.2 = step.1 := by
  unfold Step.clean Step.result at h
  unfold runBatch
  cases hresult : verifySnapshot hmac step.2.snapshot step.1.state step.1.lastFullPassAt
      step.2.now with
  | error e => rfl
  | ok result =>
    rw [hresult] at h
    obtain ⟨⟨expected, count⟩, hread, hend⟩ := bind_eq_ok.mp hresult
    cases hend
    have hbroken : (firstMismatch hmac step.2.snapshot.ledger expected).isNone = false := h
    simp [hbroken]

/-- A clean batch at the end of both collections ends a cycle. -/
def Step.ends (hmac : List UInt8 → String) (step : Step) : Bool := step.clean hmac && step.wrapped

/-- How far the clean batches of an unfinished cycle have come. -/
structure CycleInv (hmac : List UInt8 → String) (steps : List Step) (state : VerifyState) :
    Prop where
  unfinished : ∀ step ∈ steps, step.ends hmac = false
  passed : ∀ kind id, Throughout steps kind id → id ≠ "" →
    steps.countP (fun step => step.clean hmac && step.onPage kind id) =
      if Passed (state.collections kind) id then 1 else 0
  deferred : state.deferred = true ↔ ∃ step ∈ steps, step.clean hmac = true ∧ step.Defers

theorem eq_empty_of_le {id : String} (h : id ≤ "") : id = "" := by
  have hnot : ¬ ("".toList < id.toList) :=
    fun hlt => not_lt.mpr h (String.lt_iff_toList_lt.mpr hlt)
  apply String.toList_injective
  cases hid : id.toList with
  | nil => rfl
  | cons c cs =>
    rw [hid] at hnot
    exact absurd (List.nil_lt_cons c cs) hnot

theorem cycleInv_start : CycleInv hmac [] .fresh := by
  refine ⟨fun step hstep => (nomatch hstep), fun kind id _ hid => ?_, ?_⟩
  · have hpassed : ¬ Passed (VerifyState.fresh.collections kind) id := by
      unfold Passed VerifyState.fresh
      rintro (h | h)
      · cases h
      · exact hid (eq_empty_of_le h)
    rw [if_neg hpassed]
    rfl
  · constructor
    · intro h
      cases h
    · rintro ⟨step, hstep, -⟩
      cases hstep

/-- Whether a cycle is past a row, after one more clean batch. -/
theorem countP_passed {steps : List Step} {step : Step} {kind : AssetKind} {id : String}
    (hcount : steps.countP (fun s => s.clean hmac && s.onPage kind id) =
      if Passed (step.1.state.collections kind) id then 1 else 0)
    (hclean : step.clean hmac = true)
    (hid : id ∈ (step.2.snapshot.rows kind).map AssetRow.id) :
    (steps ++ [step]).countP (fun s => s.clean hmac && s.onPage kind id) =
      if Passed (step.found kind).1 id then 1 else 0 := by
  obtain ⟨hiff, hnot⟩ := passed_scan (rows_nodup step.2.snapshot kind)
    (rows_named step.2.snapshot kind) (step.1.state.collections kind) hid
  have hpage : step.onPage kind id = true ↔
      ((scan (step.1.state.collections kind) (step.2.snapshot.rows kind)).2.any
        fun row => row.id == id) = true := Iff.rfl
  rw [← hpage] at hiff hnot
  rw [List.countP_append, hcount, List.countP_singleton, hclean, Bool.true_and]
  unfold Step.found
  by_cases hbefore : Passed (step.1.state.collections kind) id
  · have hoff : ¬ step.onPage kind id = true := fun h => hnot ⟨hbefore, h⟩
    rw [if_pos hbefore, if_neg hoff, if_pos (hiff.mpr (.inl hbefore))]
  · by_cases hon : step.onPage kind id = true
    · rw [if_neg hbefore, if_pos hon, if_pos (hiff.mpr (.inr hon))]
    · rw [if_neg hbefore, if_neg hon, if_neg fun h => (hiff.mp h).elim hbefore hon]

theorem CycleInv.step {steps : List Step} {step : Step} (h : CycleInv hmac steps step.1.state)
    (hend : step.ends hmac = false) :
    CycleInv hmac (steps ++ [step]) (runBatch hmac step.1 step.2).state := by
  have hunfinished : ∀ s ∈ steps ++ [step], s.ends hmac = false := by
    intro s hs
    rcases List.mem_append.mp hs with hs | hs
    · exact h.unfinished s hs
    · rwa [List.mem_singleton.mp hs]
  have hbefore : ∀ {kind id}, Throughout (steps ++ [step]) kind id → Throughout steps kind id :=
    fun hthrough s hs => hthrough s (List.mem_append_left _ hs)
  cases hclean : step.clean hmac with
  | false =>
    rw [unclean_result hclean]
    refine ⟨hunfinished, fun kind id hthrough hid => ?_, ?_⟩
    · rw [List.countP_append, List.countP_singleton, hclean, ← h.passed kind id (hbefore hthrough) hid]
      rfl
    · rw [h.deferred]
      constructor
      · rintro ⟨s, hs, hdefers⟩
        exact ⟨s, List.mem_append_left _ hs, hdefers⟩
      · rintro ⟨s, hs, hsclean, hdefers⟩
        rcases List.mem_append.mp hs with hs | hs
        · exact ⟨s, hs, hsclean, hdefers⟩
        · rw [List.mem_singleton.mp hs, hclean] at hsclean
          cases hsclean
  | true =>
    have hwrapped : step.wrapped = false := by
      unfold Step.ends at hend
      rwa [hclean, Bool.true_and] at hend
    obtain ⟨deferred, hdeferred, -, hrun⟩ := clean_result hclean
    rw [hrun, hwrapped]
    refine ⟨hunfinished, fun kind id hthrough hid => ?_, ?_⟩
    · exact countP_passed (h.passed kind id (hbefore hthrough) hid) hclean
        (hthrough step (List.mem_append_right _ List.mem_cons_self))
    · simp only [Bool.not_false, Bool.true_and, Bool.or_eq_true]
      rw [h.deferred, hdeferred]
      constructor
      · rintro (⟨s, hs, hsclean, hdefers⟩ | hdefers)
        · exact ⟨s, List.mem_append_left _ hs, hsclean, hdefers⟩
        · exact ⟨step, List.mem_append_right _ List.mem_cons_self, hclean, hdefers⟩
      · rintro ⟨s, hs, hsclean, hdefers⟩
        rcases List.mem_append.mp hs with hs | hs
        · exact .inl ⟨s, hs, hsclean, hdefers⟩
        · rw [List.mem_singleton.mp hs] at hdefers
          exact .inr hdefers

/-- The batches since the last end of a cycle, when the newest of them ends one. -/
structure Cycle (hmac : List UInt8 → String) (steps cycle : List Step) : Prop where
  suffix : ∃ earlier, steps = earlier ++ cycle ∧
    ∀ step, earlier.getLast? = some step → step.ends hmac = true
  ended : ∃ before last, cycle = before ++ [last] ∧ last.ends hmac = true ∧
    ∀ step ∈ before, step.ends hmac = false

theorem trace_concat (progress : Progress) (batches : List Batch) (last : Batch) :
    trace hmac progress (batches ++ [last]) =
      trace hmac progress batches ++ [(run hmac progress batches, last)] := by
  induction batches generalizing progress with
  | nil => rfl
  | cons batch batches ih =>
    rw [List.cons_append, trace, trace, ih, List.cons_append]
    rfl

/-- At every moment the batches since the last end of a cycle are an unfinished one. -/
theorem unfinished_cycle (hmac : List UInt8 → String) (batches : List Batch) :
    ∃ earlier steps, trace hmac .start batches = earlier ++ steps ∧
      (∀ step, earlier.getLast? = some step → step.ends hmac = true) ∧
      CycleInv hmac steps (run hmac .start batches).state := by
  induction batches using List.reverseRecOn with
  | nil => exact ⟨[], [], rfl, fun step h => (nomatch h), cycleInv_start⟩
  | append_singleton batches last ih =>
    obtain ⟨earlier, steps, htrace, hearlier, hinv⟩ := ih
    have hrun : run hmac .start (batches ++ [last]) =
        runBatch hmac (run hmac .start batches) last := by
      unfold run
      rw [List.foldl_append]
      rfl
    rw [trace_concat, htrace, hrun]
    obtain ⟨step, hstep⟩ : ∃ step : Step, step = (run hmac .start batches, last) := ⟨_, rfl⟩
    rw [← hstep]
    cases hend : step.ends hmac with
    | false =>
      refine ⟨earlier, steps ++ [step], List.append_assoc _ _ _, hearlier, ?_⟩
      have hinv : CycleInv hmac steps step.1.state := by rwa [hstep]
      have hnext := hinv.step hend
      rwa [hstep] at hnext ⊢
    | true =>
      refine ⟨earlier ++ steps ++ [step], [], (List.append_nil _).symm, ?_, ?_⟩
      · intro other hother
        rw [List.getLast?_concat] at hother
        cases hother
        exact hend
      · have hboth := hend
        unfold Step.ends at hboth
        obtain ⟨hclean, hwrapped⟩ := Bool.and_eq_true_iff.mp hboth
        obtain ⟨deferred, -, -, hresult⟩ := clean_result hclean
        rw [hstep] at hresult
        rw [hresult, ← hstep, hwrapped]
        have hfresh : (⟨fun kind => ⟨(step.found kind).1.cursor, false⟩, false⟩ : VerifyState) =
            .fresh := by
          unfold Step.wrapped at hwrapped
          obtain ⟨hwallets, hgrants⟩ := Bool.and_eq_true_iff.mp hwrapped
          unfold VerifyState.fresh
          congr 1
          funext kind
          cases kind with
          | wallets => rw [String.isEmpty_iff.mp hwallets]
          | grants => rw [String.isEmpty_iff.mp hgrants]
        simp only [if_true, Bool.not_true, Bool.false_and]
        rw [hfresh]
        exact cycleInv_start

/-- A full pass: in the clean batches of the cycle every row that was there throughout
was compared exactly once and matched, and nothing was deferred. -/
structure FullPass (hmac : List UInt8 → String) (cycle : List Step) : Prop where
  once : ∀ kind id, Throughout cycle kind id →
    cycle.countP (fun step => step.clean hmac && step.compares kind id) = 1
  matched : ∀ step ∈ cycle, step.clean hmac = true → ∀ kind id, step.compares kind id = true →
    step.Matches hmac kind id
  nothingDeferred : ∀ step ∈ cycle, step.clean hmac = true → ¬ step.Defers

theorem compares_eq_onPage {step : Step} (h : ¬ step.Defers) (kind : AssetKind) (id : String) :
    step.compares kind id = step.onPage kind id := by
  unfold Step.compares Step.onPage
  rw [Bool.eq_iff_iff, List.any_eq_true, List.any_eq_true]
  constructor
  · rintro ⟨row, hrow, hsame⟩
    exact ⟨row, hrow, (Bool.and_eq_true_iff.mp hsame).1⟩
  · rintro ⟨row, hrow, hsame⟩
    have hfree : row.inProgress = false := by
      by_contra hprogress
      exact h ⟨kind, row, hrow, by simpa using hprogress⟩
    exact ⟨row, hrow, by rw [hsame, hfree]; rfl⟩

/-- The full-pass time moves only at the end of a cycle that was a full pass. -/
theorem full_pass (hmac : List UInt8 → String) (batches : List Batch) (last : Batch)
    (hadvanced : (run hmac .start (batches ++ [last])).lastFullPassAt ≠
      (run hmac .start batches).lastFullPassAt) :
    ∃ cycle, Cycle hmac (trace hmac .start (batches ++ [last])) cycle ∧ FullPass hmac cycle := by
  obtain ⟨earlier, steps, htrace, hearlier, hinv⟩ := unfinished_cycle hmac batches
  obtain ⟨step, hstep⟩ : ∃ step : Step, step = (run hmac .start batches, last) := ⟨_, rfl⟩
  have hrun : run hmac .start (batches ++ [last]) = runBatch hmac step.1 step.2 := by
    unfold run
    rw [List.foldl_append, hstep]
    rfl
  have hstate : CycleInv hmac steps step.1.state := by rwa [hstep]
  have hadvanced : (runBatch hmac step.1 step.2).lastFullPassAt ≠ step.1.lastFullPassAt := by
    rwa [hrun, ← show step.1 = run hmac .start batches by rw [hstep]] at hadvanced
  -- Only a clean batch that ends an undeferred cycle moves the time.
  have hclean : step.clean hmac = true := by
    by_contra hunclean
    rw [unclean_result (by simpa using hunclean)] at hadvanced
    exact hadvanced rfl
  obtain ⟨deferred, hdeferred, hmatched, hresult⟩ := clean_result hclean
  have hends : step.wrapped = true ∧ step.1.state.deferred = false ∧ deferred = false := by
    rw [hresult] at hadvanced
    by_contra hnot
    refine hadvanced (if_neg fun hboth => hnot ?_)
    simpa [Bool.and_eq_true_iff] using hboth
  obtain ⟨hwrapped, hbefore, hnow⟩ := hends
  have hfree : ∀ s ∈ steps ++ [step], s.clean hmac = true → ¬ s.Defers := by
    intro s hs hsclean hdefers
    rcases List.mem_append.mp hs with hs | hs
    · rw [hstate.deferred.mpr ⟨s, hs, hsclean, hdefers⟩] at hbefore
      cases hbefore
    · rw [List.mem_singleton.mp hs] at hdefers
      rw [hdeferred.mpr hdefers] at hnow
      cases hnow
  refine ⟨steps ++ [step], ⟨⟨earlier, ?_, hearlier⟩, ⟨steps, step, rfl, ?_, hstate.unfinished⟩⟩,
    ⟨fun kind id hthrough => ?_, fun s hs hsclean kind id hcompares => ?_, hfree⟩⟩
  · rw [trace_concat, htrace, hstep, List.append_assoc]
  · unfold Step.ends
    rw [hclean, hwrapped]
    rfl
  · have hpresent := hthrough step (List.mem_append_right _ List.mem_cons_self)
    have hnamed : id ≠ "" := by
      obtain ⟨row, hrow, rfl⟩ := List.mem_map.mp hpresent
      exact rows_named step.2.snapshot kind row hrow
    have hdone : (step.found kind).1.done = true := by
      unfold Step.wrapped at hwrapped
      obtain ⟨hwallets, hgrants⟩ := Bool.and_eq_true_iff.mp hwrapped
      cases kind with
      | wallets => exact scan_end _ _ hwallets
      | grants => exact scan_end _ _ hgrants
    have hcount := countP_passed (hstate.passed kind id
      (fun s hs => hthrough s (List.mem_append_left _ hs)) hnamed) hclean hpresent
    rw [if_pos (.inl hdone)] at hcount
    rw [← hcount]
    apply List.countP_congr
    intro s hs
    cases hsclean : s.clean hmac with
    | false => simp
    | true => rw [compares_eq_onPage (hfree s hs hsclean)]
  · obtain ⟨deferred', -, hsmatched, -⟩ := clean_result hsclean
    intro row hrow _
    refine hsmatched kind row hrow ?_
    by_contra hprogress
    exact hfree s hs hsclean ⟨kind, row, hrow, by simpa using hprogress⟩

/-- A ledger without entries and checkpoints. -/
def emptyLedger : LedgerStore := ⟨[], fun _ => none⟩

/-- One wallet with a balance, and one grant that is used up. -/
def walletAndGrant (balance : Credits) : Snapshot where
  wallets := [⟨"w", "owner", some 2, false, false, balance, Credits.zero⟩]
  grants := [⟨"g", false, some 0, none, .consumed, Credits.zero⟩]
  ledger := emptyLedger
  walletIds := List.nodup_singleton _
  grantIds := List.nodup_singleton _
  owners := List.nodup_singleton _
  walletNamed := by simp
  grantNamed := by simp

def offByOne : Credits := ⟨1, Credits.one_inRange⟩

/-- A wallet off by one is found, repaired, and compared again. -/
def repairedBatches : List Batch := [⟨walletAndGrant offByOne, 10⟩, ⟨walletAndGrant Credits.zero, 20⟩]

theorem page_singleton {row : AssetRow} (h : "" < row.id) : page [row] "" = [row] := by
  unfold page
  rw [List.mergeSort_singleton, List.filter_cons_of_pos (by simpa using h)]
  rfl

/-- A batch from the start of a cycle reads the wallet on one page and the grant on another. -/
theorem found_one (balance : Credits) (lastFullPassAt : Option ℤ) (now : ℤ) (kind : AssetKind) :
    Step.found (⟨.fresh, lastFullPassAt⟩, ⟨walletAndGrant balance, now⟩) kind =
      (⟨"", true⟩, (walletAndGrant balance).rows kind) := by
  have hpage : page ((walletAndGrant balance).rows kind) "" = (walletAndGrant balance).rows kind := by
    cases kind with
    | wallets => exact page_singleton (show "" < "w" by decide)
    | grants => exact page_singleton (show "" < "g" by decide)
  show scan ⟨"", false⟩ _ = _
  unfold scan
  rw [if_neg (by simp)]
  dsimp only
  rw [hpage]
  cases kind <;> rfl

theorem compare_one (account : String) (balance : Credits) :
    compareAccount (fun _ => "h") emptyLedger account balance = none ↔
      balance = Credits.zero := by
  have hlatest : latestSeq emptyLedger.entries account = 0 := rfl
  unfold compareAccount
  simp only [emptyLedger] at hlatest ⊢
  simp [hlatest]

theorem result_one (balance : Credits) (lastFullPassAt : Option ℤ) (now : ℤ) :
    ∃ state status, Step.result (fun _ => "h")
        (⟨.fresh, lastFullPassAt⟩, ⟨walletAndGrant balance, now⟩) = .ok (state, status, true) ∧
      (status.mismatch.isNone = true ↔ balance = Credits.zero) ∧
      status.lastFullPassAt = if status.mismatch.isNone then some now else lastFullPassAt := by
  have hstored : creditsOrError (balance.checkedSub Credits.zero) = .ok balance := by
    rw [show balance.checkedSub Credits.zero = some balance from
      Credits.checkedSub_eq_some.mpr (by simp)]
    rfl
  obtain ⟨expected, hexpected⟩ : ∃ expected : Collection String Credits, expected =
      AList.insert "grant:g" Credits.zero (AList.insert "wallet:owner" balance ∅) := ⟨_, rfl⟩
  have hread : ((walletAndGrant balance).rows .wallets ++ (walletAndGrant balance).rows .grants).foldlM
      readRow (∅, 0) = .ok (expected, 0) := by
    show (readRow _ _ >>= fun read => readRow read _ >>= _) = _
    unfold readRow
    simp only [AssetRow.inProgress, AssetRow.stored, hstored, ne_eq, not_true_eq_false,
      decide_false, Bool.or_self, Bool.false_eq_true, if_false, bind, Except.bind, pure, Except.pure]
    rw [hexpected]
    rfl
  have hmismatch : (firstMismatch (fun _ => "h") emptyLedger expected).isNone = true ↔
      balance = Credits.zero := by
    have hentries : expected.entries =
        [⟨"grant:g", Credits.zero⟩, ⟨"wallet:owner", balance⟩] := by
      rw [hexpected]
      rfl
    unfold firstMismatch
    rw [hentries, List.mergeSort_of_pairwise (by simp), List.findSome?_cons,
      (compare_one "grant:g" _).mpr rfl, List.findSome?_singleton, Option.isNone_iff_eq_none]
    exact compare_one _ balance
  have hfound (kind : AssetKind) := found_one balance lastFullPassAt now kind
  unfold Step.found at hfound
  unfold Step.result verifySnapshot
  simp only [hfound, hread, bind, Except.bind, pure, Except.pure]
  refine ⟨_, _, rfl, hmismatch, ?_⟩
  have hempty : "".isEmpty = true := rfl
  simp [hempty, VerifyState.fresh]

theorem clean_one (balance : Credits) (lastFullPassAt : Option ℤ) (now : ℤ) :
    Step.clean (fun _ => "h") (⟨.fresh, lastFullPassAt⟩, ⟨walletAndGrant balance, now⟩) = true ↔
      balance = Credits.zero := by
  obtain ⟨state, status, hresult, hmismatch, -⟩ := result_one balance lastFullPassAt now
  unfold Step.clean
  rw [hresult]
  exact hmismatch

theorem lastFullPassAt_one (now : ℤ) :
    (runBatch (fun _ => "h") .start ⟨walletAndGrant Credits.zero, now⟩).lastFullPassAt = some now := by
  obtain ⟨state, status, hresult, hmismatch, hpass⟩ := result_one Credits.zero none now
  unfold Step.result at hresult
  unfold runBatch Progress.start
  rw [hresult]
  dsimp only
  rw [hpass, if_pos (hmismatch.mpr rfl)]

/-- A batch that finds a mismatch leaves the cycle where it was. -/
theorem run_offByOne (now : ℤ) :
    runBatch (fun _ => "h") .start ⟨walletAndGrant offByOne, now⟩ = .start := by
  apply @unclean_result (fun _ => "h") (.start, ⟨walletAndGrant offByOne, now⟩)
  rw [Bool.eq_false_iff]
  exact fun h => absurd ((clean_one _ none now).mp h) (by decide)

/-- The batch over a wallet and a grant in order completes a full pass. -/
theorem wallet_and_grant_pass :
    ∃ cycle, Cycle (fun _ => "h") (trace (fun _ => "h") .start
        ([⟨walletAndGrant offByOne, 10⟩] ++ [⟨walletAndGrant Credits.zero, 20⟩])) cycle ∧
      FullPass (fun _ => "h") cycle := by
  refine full_pass (fun _ => "h") [⟨walletAndGrant offByOne, 10⟩] ⟨walletAndGrant Credits.zero, 20⟩ ?_
  have hstay : run (fun _ => "h") .start [⟨walletAndGrant offByOne, 10⟩] = .start := run_offByOne 10
  have hpass : (run (fun _ => "h") .start ([⟨walletAndGrant offByOne, 10⟩] ++
      [⟨walletAndGrant Credits.zero, 20⟩])).lastFullPassAt = some 20 := by
    unfold run at hstay ⊢
    rw [List.foldl_append, hstay]
    exact lastFullPassAt_one 20
  rw [hpass, hstay]
  exact Option.some_ne_none _

/-- In the cycle before a full pass, a wallet that was found off and repaired was
compared twice, and the first time it did not match. -/
theorem repaired_wallet_compared_twice :
    (run (fun _ => "h") .start repairedBatches).lastFullPassAt = some 20 ∧
    ∀ cycle, Cycle (fun _ => "h") (trace (fun _ => "h") .start repairedBatches) cycle →
      Throughout cycle .wallets "w" ∧
      cycle.countP (fun step => step.compares .wallets "w") = 2 ∧
      ∃ step ∈ cycle, step.compares .wallets "w" = true ∧
        ¬ step.Matches (fun _ => "h") .wallets "w" := by
  obtain ⟨first, hfirst⟩ : ∃ first : Step, first = (.start, ⟨walletAndGrant offByOne, 10⟩) :=
    ⟨_, rfl⟩
  obtain ⟨second, hsecond⟩ : ∃ second : Step, second = (.start, ⟨walletAndGrant Credits.zero, 20⟩) :=
    ⟨_, rfl⟩
  have hfound : ∀ balance now, Step.found (.start, ⟨walletAndGrant balance, now⟩) .wallets =
      (⟨"", true⟩, (walletAndGrant balance).rows .wallets) :=
    fun balance now => found_one balance none now .wallets
  have hunclean : first.clean (fun _ => "h") = false := by
    rw [hfirst, Bool.eq_false_iff]
    exact fun h => absurd ((clean_one _ none 10).mp h) (by decide)
  have hstay := run_offByOne 10
  have htrace : trace (fun _ => "h") .start repairedBatches = [first, second] := by
    unfold repairedBatches
    rw [trace, hstay, hfirst, hsecond]
    rfl
  constructor
  · unfold run repairedBatches
    rw [List.foldl_cons, hstay]
    exact lastFullPassAt_one 20
  · rintro cycle ⟨⟨earlier, hsplit, hearlier⟩, before, last, hended, -, -⟩
    rw [htrace] at hsplit
    have hcycle : cycle = [first, second] := by
      rcases earlier with _ | ⟨a, _ | ⟨b, rest⟩⟩
      · exact hsplit.symm
      · -- The broken first batch ended nothing.
        obtain ⟨rfl, -⟩ := List.cons.inj hsplit
        have hends := hearlier first rfl
        unfold Step.ends at hends
        rw [hunclean] at hends
        cases hends
      · have hnil : rest ++ cycle = [] := by
          simp only [List.cons_append, List.cons.injEq] at hsplit
          exact hsplit.2.2.symm
        rw [(List.append_eq_nil_iff.mp hnil).2] at hended
        exact absurd hended.symm (by simp)
    have hpages : ∀ step ∈ [first, second], step.compares .wallets "w" = true := by
      intro step hstep
      unfold Step.compares
      rcases List.mem_pair.mp hstep with rfl | rfl
      · rw [hfirst, hfound]
        rfl
      · rw [hsecond, hfound]
        rfl
    rw [hcycle]
    refine ⟨?_, ?_, first, List.mem_cons_self, hpages first List.mem_cons_self, ?_⟩
    · intro step hstep
      rcases List.mem_pair.mp hstep with rfl | rfl
      · rw [hfirst]
        exact List.mem_cons_self
      · rw [hsecond]
        exact List.mem_cons_self
    · exact (List.countP_eq_length.mpr hpages)
    · intro hmatches
      unfold Step.Matches at hmatches
      rw [hfirst, hfound] at hmatches
      obtain ⟨stored, hstored, hcompare⟩ := hmatches _ List.mem_cons_self rfl
      have hzero := (compare_one _ stored).mp hcompare
      rw [hzero] at hstored
      revert hstored
      decide

end NyxId.Reconciliation
