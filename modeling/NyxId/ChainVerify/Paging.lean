import NyxId.ChainVerify.Model
import Mathlib.Tactic.Linarith

/-!
Pages add up. A walk over a longer range goes on where the walk over its first part
ended, and the next page starts there; so pages give the verdict of the whole range.
-/

namespace NyxId.ChainVerify

variable {E : Type} (K : ChainReader E)

/-- An unbroken run of valid entries from a number and the hash before it. -/
def Run : ℤ → String → List E → Prop
  | _, _, [] => True
  | n, prev, entry :: entries =>
    K.seq entry = n ∧ K.prevHash entry = prev ∧ K.balanced entry = true ∧
      K.computeHash entry = .ok (K.entryHash entry) ∧ Run (n + 1) (K.entryHash entry) entries

/-- The hash that the entry after a run has to link to. -/
def lastHash (prev : String) (entries : List E) : String :=
  (entries.getLast?.map K.entryHash).getD prev

/-- Where a walk over a run ends. -/
def Walk.after (w : Walk) (entries : List E) : Walk where
  checked := w.checked + entries.length
  expectedSeq := w.expectedSeq + entries.length
  expectedPrevHash := lastHash K w.expectedPrevHash entries
  breakInfo := w.breakInfo

theorem Walk.after_nil (w : Walk) : w.after K [] = w := by
  simp [Walk.after, lastHash]

theorem Walk.after_cons (w : Walk) (entry : E) (entries : List E) :
    w.after K (entry :: entries) =
      ({ w with
        checked := w.checked + 1
        expectedSeq := w.expectedSeq + 1
        expectedPrevHash := K.entryHash entry } : Walk).after K entries := by
  unfold Walk.after lastHash
  congr 1
  · simp only [List.length_cons]
    omega
  · simp only [List.length_cons, Nat.cast_add, Nat.cast_one]
    omega
  · cases entries <;> simp [List.getLast?_cons]

variable {K}

/-- A walk goes through a run to its end. -/
theorem walk_run {entries : List E} {w : Walk}
    (h : Run K w.expectedSeq w.expectedPrevHash entries) (rest : List E) :
    walk K (entries ++ rest) w = walk K rest (w.after K entries) := by
  induction entries generalizing w with
  | nil => rw [List.nil_append, Walk.after_nil]
  | cons entry entries ih =>
    obtain ⟨hseq, hprev, hbalanced, hhash, hrun⟩ := h
    rw [List.cons_append, Walk.after_cons, walk]
    simp only [hseq, hprev, hbalanced, hhash, ne_eq, not_true_eq_false, if_false, Bool.not_true,
      Bool.false_eq_true, bind, Except.bind]
    exact ih hrun

/-- A walk that is not through a run stops there, whatever comes after. -/
theorem walk_stop {entries : List E} {w : Walk}
    (h : ¬ Run K w.expectedSeq w.expectedPrevHash entries) (rest : List E) :
    walk K (entries ++ rest) w = walk K entries w ∧
      ∀ v, walk K entries w = .ok v → v.breakInfo ≠ none := by
  induction entries generalizing w with
  | nil => exact absurd trivial h
  | cons entry entries ih =>
    rw [List.cons_append, walk, walk]
    split
    · refine ⟨rfl, fun v hv => ?_⟩
      cases hv
      exact Option.some_ne_none _
    rename_i hseq
    split
    · refine ⟨rfl, fun v hv => ?_⟩
      cases hv
      exact Option.some_ne_none _
    rename_i hprev
    split
    · refine ⟨rfl, fun v hv => ?_⟩
      cases hv
      exact Option.some_ne_none _
    rename_i hbalanced
    cases hhash : K.computeHash entry with
    | error e => exact ⟨rfl, fun v hv => by cases hv⟩
    | ok expected =>
      simp only [bind, Except.bind]
      split
      · refine ⟨rfl, fun v hv => ?_⟩
        cases hv
        exact Option.some_ne_none _
      rename_i hsame
      refine ih fun hrun => h ⟨Decidable.not_not.mp hseq, Decidable.not_not.mp hprev,
        by simpa using hbalanced, ?_, hrun⟩
      rw [hhash, Decidable.not_not.mp hsame]

/-- What a walk says: the break that stopped it, if any. -/
def verdict (entries : List E) (fromSeq : ℤ) (prev : String) : Except AppError (Option ChainBreak) :=
  (walk K entries ⟨0, fromSeq, prev, none⟩).map Walk.breakInfo

theorem run_mem {n : ℤ} {prev : String} {entries : List E} (h : Run K n prev entries) {entry : E}
    (hmem : entry ∈ entries) : n ≤ K.seq entry ∧ K.seq entry < n + entries.length := by
  induction entries generalizing n prev with
  | nil => cases hmem
  | cons head entries ih =>
    obtain ⟨hseq, -, -, -, hrun⟩ := h
    simp only [List.length_cons, Nat.cast_add, Nat.cast_one]
    rcases List.mem_cons.mp hmem with rfl | hmem
    · omega
    · have hle := ih hrun hmem
      omega

theorem run_getLast {n : ℤ} {prev : String} {entries : List E} (h : Run K n prev entries)
    {entry : E} (hlast : entries.getLast? = some entry) : K.seq entry = n + entries.length - 1 := by
  induction entries generalizing n prev with
  | nil => cases hlast
  | cons head entries ih =>
    obtain ⟨hseq, -, -, -, hrun⟩ := h
    cases entries with
    | nil =>
      obtain rfl : head = entry := by simpa using hlast
      simp [hseq]
    | cons next entries =>
      rw [List.getLast?_cons_cons] at hlast
      have hend := ih hrun hlast
      simp only [List.length_cons, Nat.cast_add, Nat.cast_one] at hend ⊢
      omega

theorem run_exists {n m : ℤ} {prev : String} {entries : List E} (h : Run K n prev entries)
    (hle : n ≤ m) (hlt : m < n + entries.length) : ∃ entry ∈ entries, K.seq entry = m ∧
      K.computeHash entry = .ok (K.entryHash entry) ∧
      ((m = n ∧ K.prevHash entry = prev) ∨
        ∃ before ∈ entries, K.seq before = m - 1 ∧ K.prevHash entry = K.entryHash before) := by
  induction entries generalizing n prev with
  | nil =>
    simp only [List.length_nil, Nat.cast_zero] at hlt
    omega
  | cons head entries ih =>
    obtain ⟨hseq, hprev, -, hhash, hrun⟩ := h
    by_cases hfirst : m = n
    · exact ⟨head, List.mem_cons_self, by omega, hhash, .inl ⟨hfirst, hprev⟩⟩
    · simp only [List.length_cons, Nat.cast_add, Nat.cast_one] at hlt
      obtain ⟨entry, hmem, hm, hvalid, hlink⟩ := ih hrun (by omega) (by omega)
      refine ⟨entry, List.mem_cons_of_mem _ hmem, hm, hvalid, .inr ?_⟩
      rcases hlink with ⟨hnext, hlink⟩ | ⟨before, hbefore, hseq', hlink⟩
      · exact ⟨head, List.mem_cons_self, by omega, hlink⟩
      · exact ⟨before, List.mem_cons_of_mem _ hbefore, hseq', hlink⟩

section

variable {stored : List E} {head : Option (ℤ × String)} {fromSeq : ℤ} {toSeq : Option ℤ}

theorem mem_window {entry : E} : entry ∈ window K stored fromSeq toSeq ↔
    entry ∈ stored ∧ fromSeq ≤ K.seq entry ∧ ∀ t, toSeq = some t → K.seq entry ≤ t := by
  unfold window
  rw [List.mem_filter, List.mem_mergeSort]
  cases toSeq <;> simp

/-- Numbers are unique, so a range is in strictly increasing order. -/
theorem window_sorted (hunique : (stored.map K.seq).Nodup) :
    (window K stored fromSeq toSeq).Pairwise fun a b => K.seq a < K.seq b := by
  have hsorted : (stored.mergeSort fun a b => K.seq a ≤ K.seq b).Pairwise
      fun a b => K.seq a ≤ K.seq b := by
    have hle := @List.pairwise_mergeSort E (fun a b => decide (K.seq a ≤ K.seq b))
      (by simp; omega) (by simp; omega) stored
    simpa using hle
  have hnodup : (stored.mergeSort fun a b => K.seq a ≤ K.seq b).Pairwise
      fun a b => K.seq a ≠ K.seq b := by
    have hperm := (List.mergeSort_perm stored fun a b => K.seq a ≤ K.seq b).map K.seq
    exact List.pairwise_map.mp (hperm.nodup_iff.mpr hunique)
  exact ((hsorted.and hnodup).imp fun h => lt_of_le_of_ne h.1 h.2).filter _

/-- The range from a later number on. -/
theorem window_from {m : ℤ} (hle : fromSeq ≤ m) : window K stored m toSeq =
    (window K stored fromSeq toSeq).filter fun entry => m ≤ K.seq entry := by
  unfold window
  rw [List.filter_filter]
  congr 1
  funext entry
  simp only [Bool.decide_and, Bool.decide_eq_true]
  by_cases hm : m ≤ K.seq entry
  · simp [hm, hle.trans hm]
  · simp [hm]

/-- The first entries of a range, when they are a run, and the rest of the range. -/
theorem window_rest {limit : ℕ} {prev : String}
    (hrun : Run K fromSeq prev ((window K stored fromSeq toSeq).take limit))
    (hunique : (stored.map K.seq).Nodup) :
    window K stored (fromSeq + ((window K stored fromSeq toSeq).take limit).length) toSeq =
      (window K stored fromSeq toSeq).drop limit := by
  obtain ⟨page, hpage⟩ : ∃ page, page = (window K stored fromSeq toSeq).take limit := ⟨_, rfl⟩
  obtain ⟨rest, hrest⟩ : ∃ rest, rest = (window K stored fromSeq toSeq).drop limit := ⟨_, rfl⟩
  rw [← hpage] at hrun
  rw [← hpage, ← hrest, window_from (by omega : fromSeq ≤ fromSeq + page.length)]
  have hsplit : window K stored fromSeq toSeq = page ++ rest := by
    rw [hpage, hrest, List.take_append_drop]
  have hsorted : (window K stored fromSeq toSeq).Pairwise fun a b => K.seq a < K.seq b :=
    window_sorted hunique
  rw [hsplit, List.pairwise_append] at hsorted
  rw [hsplit, List.filter_append]
  have hbefore : page.filter (fun entry => fromSeq + page.length ≤ K.seq entry) = [] := by
    rw [List.filter_eq_nil_iff]
    intro entry hentry
    have hlt := (run_mem hrun hentry).2
    simpa using hlt
  have hafter : rest.filter (fun entry => fromSeq + page.length ≤ K.seq entry) = rest := by
    rw [List.filter_eq_self]
    intro entry hentry
    have hge : fromSeq ≤ K.seq entry :=
      (mem_window.mp (hsplit ▸ List.mem_append_right page hentry)).2.1
    cases hlast : page.getLast? with
    | none =>
      rw [List.getLast?_eq_none_iff] at hlast
      simpa [hlast] using hge
    | some last =>
      have hend := run_getLast hrun hlast
      have hlt := hsorted.2.2 last (List.mem_of_getLast? hlast) entry hentry
      simp only [decide_eq_true_eq]
      omega
  rw [hbefore, hafter, List.nil_append]

/-- The page after a run links to the last entry of the run. -/
theorem anchor_next {limit : ℕ} {prev : String} (hfrom : 1 ≤ fromSeq)
    (hrun : Run K fromSeq prev ((window K stored fromSeq toSeq).take limit))
    (hne : (window K stored fromSeq toSeq).take limit ≠ [])
    (hunique : (stored.map K.seq).Nodup) :
    anchor K stored (fromSeq + ((window K stored fromSeq toSeq).take limit).length) =
      some (lastHash K prev ((window K stored fromSeq toSeq).take limit)) := by
  obtain ⟨page, hpage⟩ : ∃ page, page = (window K stored fromSeq toSeq).take limit := ⟨_, rfl⟩
  rw [← hpage] at hrun hne ⊢
  obtain ⟨last, hlast⟩ := Option.ne_none_iff_exists'.mp
    (fun hnone => hne (List.getLast?_eq_none_iff.mp hnone))
  have hseq := run_getLast hrun hlast
  have hpos : 0 < page.length := List.length_pos_of_ne_nil hne
  have hstored : last ∈ stored := by
    have hmem := List.mem_of_getLast? hlast
    rw [hpage] at hmem
    exact (mem_window.mp (List.mem_of_mem_take hmem)).1
  have hfound : stored.find? (fun entry => K.seq entry = fromSeq + page.length - 1) =
      some last := by
    obtain ⟨found, hfound⟩ := Option.isSome_iff_exists.mp
      (List.find?_isSome (p := fun entry => decide (K.seq entry = fromSeq + page.length - 1)).mpr
        ⟨last, hstored, by simpa using hseq⟩)
    have hsame : K.seq found = K.seq last := by
      have hprop := List.find?_some hfound
      simp only [decide_eq_true_eq] at hprop
      omega
    rw [hfound, List.inj_on_of_nodup_map hunique (List.mem_of_find?_eq_some hfound) hstored hsame]
  unfold anchor lastHash
  rw [if_neg (by omega), hfound, hlast]
  rfl

end

/-- Verification of a whole range at once. -/
def verifyRange (K : ChainReader E) (stored : List E) (fromSeq : ℤ) (toSeq : Option ℤ) :
    Except AppError (Option ChainBreak) :=
  match anchor K stored fromSeq with
  | none => .ok (some ⟨fromSeq, .gap, toString (fromSeq - 1), "missing"⟩)
  | some prev => verdict (K := K) (window K stored fromSeq toSeq) fromSeq prev

/-- The verdict of pages of one limit, following the number that each page names. -/
def followPages (page : Option ℤ → Except AppError VerifyReport) :
    ℕ → Option ℤ → Option (Except AppError (Option ChainBreak))
  | 0, _ => none
  | pages + 1, fromSeq =>
    match page fromSeq with
    | .error e => some (.error e)
    | .ok report =>
      match report.breakInfo, report.nextFromSeq with
      | some breakInfo, _ => some (.ok (some breakInfo))
      | none, some next => followPages page pages (some next)
      | none, none => some (.ok none)

section

variable {stored : List E} {head : Option (ℤ × String)} {fromSeq : ℤ} {toSeq : Option ℤ}
  {limit : ℕ} {prev : String}

/-- A page that is a run is reported in full, with the number of the next page. -/
theorem verifyPage_run (head : Option (ℤ × String)) (hanchor : anchor K stored fromSeq = some prev)
    (hrun : Run K fromSeq prev ((window K stored fromSeq toSeq).take limit)) :
    ∃ report, verifyPage K stored head fromSeq toSeq limit = .ok report ∧ report.status = .ok ∧
      report.breakInfo = none ∧
      report.nextFromSeq =
        if ((window K stored fromSeq toSeq).take limit).length = limit ∧
            toSeq.all (fromSeq + ((window K stored fromSeq toSeq).take limit).length ≤ ·) ∧
            head.any (fun tail =>
              fromSeq + ((window K stored fromSeq toSeq).take limit).length ≤ tail.1) then
          some (fromSeq + ((window K stored fromSeq toSeq).take limit).length)
        else none := by
  have hwalk := walk_run (w := ⟨0, fromSeq, prev, none⟩) hrun []
  rw [List.append_nil, walk] at hwalk
  unfold verifyPage
  rw [hanchor]
  simp only [hwalk, bind, Except.bind, Walk.after]
  exact ⟨_, rfl, rfl, rfl, rfl⟩

/-- A page that is not a run has the verdict of the whole range. -/
theorem verifyPage_stop (head : Option (ℤ × String)) (hanchor : anchor K stored fromSeq = some prev)
    (hrun : ¬ Run K fromSeq prev ((window K stored fromSeq toSeq).take limit)) :
    (∃ e, verifyPage K stored head fromSeq toSeq limit = .error e ∧
      verifyRange K stored fromSeq toSeq = .error e) ∨
    ∃ report b, verifyPage K stored head fromSeq toSeq limit = .ok report ∧
      report.status = .broken ∧ report.breakInfo = some b ∧
      verifyRange K stored fromSeq toSeq = .ok (some b) := by
  have hstop := walk_stop (w := ⟨0, fromSeq, prev, none⟩) hrun
    ((window K stored fromSeq toSeq).drop limit)
  rw [List.take_append_drop] at hstop
  obtain ⟨hsame, hbreak⟩ := hstop
  unfold verifyPage verifyRange verdict
  rw [hanchor]
  simp only [hsame]
  cases hwalk : walk K ((window K stored fromSeq toSeq).take limit) ⟨0, fromSeq, prev, none⟩ with
  | error e => exact .inl ⟨e, rfl, rfl⟩
  | ok w =>
    obtain ⟨b, hb⟩ := Option.ne_none_iff_exists'.mp (hbreak w hwalk)
    refine .inr ⟨_, b, by simp only [bind, Except.bind, hb]; rfl, rfl, rfl, ?_⟩
    rw [Except.map, hb]

/-- A run through the whole range is found sound. -/
theorem verifyRange_run (hanchor : anchor K stored fromSeq = some prev) :
    verifyRange K stored fromSeq toSeq = .ok none ↔
      Run K fromSeq prev (window K stored fromSeq toSeq) := by
  unfold verifyRange verdict
  rw [hanchor]
  dsimp only
  constructor
  · intro h
    by_contra hrun
    obtain ⟨-, hbreak⟩ := walk_stop (w := ⟨0, fromSeq, prev, none⟩) hrun []
    cases hwalk : walk K (window K stored fromSeq toSeq) ⟨0, fromSeq, prev, none⟩ with
    | error e =>
      rw [hwalk] at h
      cases h
    | ok w =>
      rw [hwalk] at h
      exact hbreak w hwalk (Except.ok.inj h)
  · intro hrun
    have hwalk := walk_run (w := ⟨0, fromSeq, prev, none⟩) hrun []
    rw [List.append_nil, walk] at hwalk
    simp only [hwalk]
    rfl

/-- The break that a walk finds does not depend on how many entries it has checked. -/
theorem walk_checked (entries : List E) (w : Walk) (checked : ℕ) :
    (walk K entries { w with checked := checked }).map Walk.breakInfo =
      (walk K entries w).map Walk.breakInfo := by
  induction entries generalizing w checked with
  | nil => rfl
  | cons entry entries ih =>
    rw [walk, walk]
    split
    · rfl
    split
    · rfl
    split
    · rfl
    cases K.computeHash entry with
    | error e => rfl
    | ok expected =>
      simp only [bind, Except.bind]
      split
      · rfl
      · exact (ih { w with
          checked := w.checked + 1
          expectedSeq := w.expectedSeq + 1
          expectedPrevHash := K.entryHash entry } (checked + 1))

/-- After a page that is a run, the rest of a range has the verdict of the range. -/
theorem verifyRange_rest (hfrom : 1 ≤ fromSeq) (hunique : (stored.map K.seq).Nodup)
    (hanchor : anchor K stored fromSeq = some prev)
    (hrun : Run K fromSeq prev ((window K stored fromSeq toSeq).take limit))
    (hne : (window K stored fromSeq toSeq).take limit ≠ []) :
    verifyRange K stored (fromSeq + ((window K stored fromSeq toSeq).take limit).length) toSeq =
      verifyRange K stored fromSeq toSeq := by
  have hwalk := walk_run (w := ⟨0, fromSeq, prev, none⟩) hrun
    ((window K stored fromSeq toSeq).drop limit)
  rw [List.take_append_drop] at hwalk
  unfold verifyRange verdict
  rw [anchor_next hfrom hrun hne hunique, window_rest hrun hunique, hanchor]
  dsimp only
  rw [hwalk]
  exact walk_checked _ (Walk.after K ⟨0, fromSeq, prev, none⟩
    ((window K stored fromSeq toSeq).take limit)) 0

end

end NyxId.ChainVerify
