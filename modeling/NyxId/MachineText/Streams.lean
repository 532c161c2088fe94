import NyxId.MachineText.Rings
import Mathlib.Data.List.Induction

/-!
Redaction of a stream that arrives in chunks. A streaming call drains its output up to a cut
point that no complete occurrence crosses; an occurrence whose end has not arrived can be
cut, and then its rest is shown unless another occurrence covers it.
-/

namespace NyxId.MachineText

/-- A mark next to a mark is one mark. -/
def mergeStep (output : List Piece) (piece : Piece) : List Piece :=
  if piece = .redacted ∧ output.getLast? = some .redacted then output else output ++ [piece]

/-- An output up to how adjacent marks are merged. -/
def merge (output : List Piece) : List Piece := output.foldl mergeStep []

/-- One mark for every hidden position. -/
def marks (hidden : ℕ → Bool) (value : Bytes) (start size : ℕ) : List Piece :=
  (List.range' start size).map fun index =>
    if hidden index then .redacted else .clear index (value.getD index 0)

/-- An occurrence crosses a point. -/
def crossed (patterns : List Bytes) (value : Bytes) (point : ℕ) : Bool :=
  (List.range point).any fun index => patterns.any fun pattern =>
    pattern.isPrefixOf (value.drop index) && decide (point < index + pattern.length)

/-- The first point from a start on that no complete occurrence crosses. -/
def firstFree (patterns : List Bytes) (pending : Bytes) (start : ℕ) : ℕ :=
  ((List.range' start (pending.length - start)).find? fun point =>
    !crossed patterns pending point).getD pending.length

/-- Where the chunks of a stream, all but the last, are cut: the first points at least the
longest pattern before the received bytes that no complete occurrence crosses. -/
def cutPoints (redactor : Redactor) : ℕ → Bytes → List Bytes → List ℕ
  | _, _, [] => []
  | base, pending, chunk :: rest =>
    let point := firstFree redactor.patterns (pending ++ chunk)
      ((pending ++ chunk).length - redactor.maxPatternBytes)
    (base + point) :: cutPoints redactor (base + point) ((pending ++ chunk).drop point) rest

/-- A byte lies in an occurrence that no cut point divides. -/
def coveredUncut (patterns : List Bytes) (value : Bytes) (points : List ℕ) (position : ℕ) : Bool :=
  (List.range (position + 1)).any fun index => patterns.any fun pattern =>
    pattern.isPrefixOf (value.drop index) && decide (position < index + pattern.length) &&
      points.all fun point => !(decide (index < point) && decide (point < index + pattern.length))

/-- The calls for the chunks of a stream, the last one with `eof`. -/
def streamChunks (redactor : Redactor) : ℕ → Bytes → List Bytes → Bytes → List Piece
  | base, pending, [], last => (redactor.stream (pending ++ last) true).1.map (Piece.shift base)
  | base, pending, chunk :: rest, last =>
    let called := redactor.stream (pending ++ chunk) false
    called.1.map (Piece.shift base) ++ streamChunks redactor
      (base + ((pending ++ chunk).length - called.2.length)) called.2 rest last

section

variable {patterns : List Bytes} {value : Bytes}

theorem merge_append (a b : List Piece) : merge (a ++ b) = b.foldl mergeStep (merge a) :=
  List.foldl_append

theorem merge_concat (a : List Piece) (piece : Piece) :
    merge (a ++ [piece]) = mergeStep (merge a) piece := merge_append a [piece]

/-- After a mark an output ends in a mark. -/
theorem getLast?_mergeStep_redacted (output : List Piece) :
    (mergeStep output .redacted).getLast? = some .redacted := by
  unfold mergeStep
  split
  · rename_i hlast
    exact hlast.2
  · exact List.getLast?_concat

theorem foldl_mergeStep_merge (start output : List Piece) :
    output.foldl mergeStep start = (merge output).foldl mergeStep start := by
  induction output using List.reverseRecOn with
  | nil => rfl
  | append_singleton output piece ih =>
    rw [List.foldl_append, List.foldl_cons, List.foldl_nil, ih, merge_concat]
    by_cases hmerged : piece = .redacted ∧ (merge output).getLast? = some .redacted
    · obtain ⟨rfl, hlast⟩ := hmerged
      obtain ⟨front, hfront⟩ := List.getLast?_eq_some_iff.mp hlast
      have hends : ((merge output).foldl mergeStep start).getLast? = some .redacted := by
        rw [hfront, List.foldl_append]
        exact getLast?_mergeStep_redacted _
      have hsame : mergeStep (merge output) .redacted = merge output := if_pos ⟨rfl, hlast⟩
      rw [hsame]
      exact if_pos ⟨rfl, hends⟩
    · have hadded : mergeStep (merge output) piece = merge output ++ [piece] := if_neg hmerged
      rw [hadded, List.foldl_append]
      rfl

/-- Outputs may be merged part by part. -/
theorem merge_append_congr {a a' b b' : List Piece} (ha : merge a = merge a')
    (hb : merge b = merge b') : merge (a ++ b) = merge (a' ++ b') := by
  rw [merge_append, merge_append, ha, foldl_mergeStep_merge _ b, hb, ← foldl_mergeStep_merge _ b']

theorem shift_eq_redacted {base : ℕ} {piece : Piece} :
    piece.shift base = .redacted ↔ piece = .redacted := by
  cases piece <;> simp [Piece.shift]

theorem merge_map_shift (base : ℕ) (output : List Piece) :
    merge (output.map (Piece.shift base)) = (merge output).map (Piece.shift base) := by
  induction output using List.reverseRecOn with
  | nil => rfl
  | append_singleton output piece ih =>
    rw [List.map_append, List.map_singleton, merge_concat, merge_concat, ih]
    unfold mergeStep
    have hlast : ((merge output).map (Piece.shift base)).getLast? = some .redacted ↔
        (merge output).getLast? = some .redacted := by
      rw [List.getLast?_map, Option.map_eq_some_iff]
      constructor
      · rintro ⟨last, hlast, hshift⟩
        rw [hlast, shift_eq_redacted.mp hshift]
      · intro hlast
        exact ⟨.redacted, hlast, rfl⟩
    by_cases hmerged : piece = .redacted ∧ (merge output).getLast? = some .redacted
    · rw [if_pos hmerged, if_pos ⟨shift_eq_redacted.mpr hmerged.1, hlast.mpr hmerged.2⟩]
    · rw [if_neg hmerged, if_neg fun h => hmerged ⟨shift_eq_redacted.mp h.1, hlast.mp h.2⟩,
        List.map_append, List.map_singleton]

theorem clears_merge (output : List Piece) : clears (merge output) = clears output := by
  induction output using List.reverseRecOn with
  | nil => rfl
  | append_singleton output piece ih =>
    rw [merge_concat, clears_append]
    unfold mergeStep
    split
    · rename_i hmark
      rw [ih, hmark.1]
      exact (List.append_nil _).symm
    · rw [clears_append, ih]

theorem marks_succ {hidden : ℕ → Bool} {start size : ℕ} :
    marks hidden value start (size + 1) = marks hidden value start size ++
      [if hidden (start + size) then .redacted
        else .clear (start + size) (value.getD (start + size) 0)] := by
  unfold marks
  rw [List.range'_concat, Nat.one_mul, List.map_append, List.map_singleton]

theorem marks_append {hidden : ℕ → Bool} {start first second : ℕ} :
    marks hidden value start (first + second) =
      marks hidden value start first ++ marks hidden value (start + first) second := by
  unfold marks
  rw [← List.map_append, ← List.range'_append, Nat.one_mul]

theorem marks_congr {hidden hidden' : ℕ → Bool} {value' : Bytes} {start start' size : ℕ}
    (base : ℕ) (hstart : start = base + start')
    (hhidden : ∀ index, index < size → hidden (start + index) = hidden' (start' + index))
    (hbyte : ∀ index, index < size →
      value.getD (start + index) 0 = value'.getD (start' + index) 0) :
    marks hidden value start size = (marks hidden' value' start' size).map (Piece.shift base) := by
  induction size with
  | zero => rfl
  | succ size ih =>
    rw [marks_succ, marks_succ, List.map_append, List.map_singleton,
      ih (fun index hlt => hhidden index (by omega)) fun index hlt => hbyte index (by omega),
      hhidden size (by omega), hbyte size (by omega)]
    split
    · rfl
    · rw [hstart, Nat.add_assoc]
      rfl

/-- What a scan has output, up to merged marks, and when the last mark still counts. -/
structure MarkInv (patterns : List Bytes) (value : Bytes) (start count : ℕ) (scan : Scan) :
    Prop where
  scanned : ScanInv patterns value start count scan
  output : merge scan.output = merge (marks (covered patterns value) value start (count - start))
  emitted : scan.emitted = true → count < scan.coveredUntil →
    (merge scan.output).getLast? = some .redacted

theorem covered_of_scan {start count : ℕ} {scan : Scan}
    (h : ScanInv patterns value start (count + 1) scan) :
    count < scan.coveredUntil ↔ covered patterns value count = true := by
  rw [h.coveredUntil, covered_iff]
  constructor
  · rintro ⟨index, hindex, length, hoccurs, hlt⟩
    exact ⟨index, length, hoccurs, by omega, hlt⟩
  · rintro ⟨index, length, hoccurs, hindex, hlt⟩
    exact ⟨index, by omega, length, hoccurs, hlt⟩

theorem markInv_step {start count : ℕ} {scan : Scan} (h : MarkInv patterns value start count scan) :
    MarkInv patterns value start (count + 1) (scanStep patterns value start scan count) := by
  have hscanned := scanInv_step h.scanned
  have hcovered := covered_of_scan hscanned
  have hmarks (hstart : start ≤ count) :
      merge (marks (covered patterns value) value start (count + 1 - start)) =
        mergeStep (merge scan.output)
          (if covered patterns value count then .redacted
            else .clear count (value.getD count 0)) := by
    have hsize : count + 1 - start = (count - start) + 1 := by omega
    have hposition : start + (count - start) = count := by omega
    rw [hsize, marks_succ, merge_concat, h.output, hposition]
  suffices hboth : merge (scanStep patterns value start scan count).output =
        merge (marks (covered patterns value) value start (count + 1 - start)) ∧
      ((scanStep patterns value start scan count).emitted = true →
        count + 1 < (scanStep patterns value start scan count).coveredUntil →
          (merge (scanStep patterns value start scan count).output).getLast? = some .redacted) from
    ⟨hscanned, hboth.1, hboth.2⟩
  revert hcovered
  unfold scanStep
  dsimp only
  generalize hreset : (if scan.coveredUntil ≤ count then false else scan.emitted) = emitted
  have hkept : emitted = true → (merge scan.output).getLast? = some .redacted := by
    intro hemitted
    rw [← hreset] at hemitted
    split at hemitted
    · cases hemitted
    · exact h.emitted hemitted (by omega)
  by_cases hstart : start ≤ count
  · rw [if_pos hstart, hmarks hstart]
    by_cases hlt : count < extend patterns value count scan.coveredUntil
    · rw [if_pos hlt]
      intro hcovered
      cases emitted with
      | false =>
        have hadded : merge (scan.output ++ [.redacted]) = mergeStep (merge scan.output) .redacted :=
          merge_concat _ _
        rw [if_pos (hcovered.mp hlt)]
        refine ⟨hadded, fun _ _ => ?_⟩
        show (merge (scan.output ++ [.redacted])).getLast? = _
        rw [hadded]
        exact getLast?_mergeStep_redacted _
      | true =>
        rw [if_pos (hcovered.mp hlt)]
        exact ⟨(if_pos ⟨rfl, hkept rfl⟩).symm, fun _ _ => hkept rfl⟩
    · rw [if_neg hlt]
      intro hcovered
      rw [if_neg (mt hcovered.mpr hlt)]
      exact ⟨merge_concat _ _, fun _ hnext => absurd (Nat.lt_of_succ_lt hnext) hlt⟩
  · rw [if_neg hstart]
    have hbefore : count + 1 - start = 0 := by omega
    have hsame : count - start = 0 := by omega
    intro _
    refine ⟨?_, fun hemitted _ => hkept hemitted⟩
    rw [hbefore]
    show merge scan.output = _
    rw [h.output, hsame]

theorem markInv_range (start count : ℕ) : MarkInv patterns value start count
    ((List.range count).foldl (scanStep patterns value start) ⟨0, false, []⟩) := by
  induction count with
  | zero =>
    refine ⟨scanInv_range start 0, ?_, fun hemitted => (nomatch hemitted)⟩
    rw [Nat.zero_sub]
    rfl
  | succ count ih =>
    rw [List.range_succ, List.foldl_append]
    exact markInv_step ih

/-- Up to merged marks, a redacted prefix has a mark for every covered byte. -/
theorem merge_redactWindow {redactor : Redactor} {stop : ℕ} (hstop : stop ≤ value.length) :
    merge (redactor.redactWindow value 0 stop) =
      merge (marks (covered redactor.patterns value) value 0 stop) := by
  unfold Redactor.redactWindow
  have hmin : min 0 value.length = 0 := by omega
  have hmax : max (min stop value.length) 0 = stop := by omega
  simp only [hmin, hmax]
  split
  · rename_i hempty
    have hnone : redactor.patterns = [] := List.isEmpty_iff.mp hempty
    have hcovered (index : ℕ) : covered redactor.patterns value index = false := by
      rw [hnone]
      simp [covered]
    unfold marks
    simp only [hcovered, Bool.false_eq_true, if_false, Nat.sub_zero]
  · exact (markInv_range 0 stop).output

/-- Two outputs of the same positions agree when they hide the same bytes. -/
theorem merge_marks_iff {hidden hidden' : ℕ → Bool} {size : ℕ} :
    merge (marks hidden value 0 size) = merge (marks hidden' value 0 size) ↔
      ∀ position, position < size → hidden position = hidden' position := by
  constructor
  · intro hmerge
    have hclears : clears (marks hidden value 0 size) = clears (marks hidden' value 0 size) := by
      rw [← clears_merge, hmerge, clears_merge]
    have hmem (hidden : ℕ → Bool) (position : ℕ) (hlt : position < size) :
        (position, value.getD position 0) ∈ clears (marks hidden value 0 size) ↔
          hidden position = false := by
      unfold clears marks
      rw [List.filterMap_map, List.mem_filterMap]
      constructor
      · rintro ⟨index, -, hclear⟩
        rw [Function.comp_apply] at hclear
        cases hhidden : hidden index with
        | true =>
          rw [hhidden] at hclear
          cases hclear
        | false =>
          rw [hhidden] at hclear
          cases hclear
          exact hhidden
      · intro hshown
        refine ⟨position, List.mem_range'_1.mpr ⟨Nat.zero_le _, by omega⟩, ?_⟩
        rw [Function.comp_apply, hshown]
        rfl
    intro position hlt
    have hiff := hmem hidden position hlt
    rw [hclears, hmem hidden' position hlt] at hiff
    cases hone : hidden position with
    | false => exact (hiff.mpr hone).symm
    | true =>
      cases hother : hidden' position with
      | true => rfl
      | false =>
        have hshown := hiff.mp hother
        rw [hone] at hshown
        cases hshown
  · intro hsame
    have hmarks : marks hidden value 0 size = marks hidden' value 0 size := by
      unfold marks
      refine List.map_congr_left fun position hposition => ?_
      rw [List.mem_range'_1] at hposition
      rw [hsame position (by omega)]
    rw [hmarks]

end

section

variable {patterns : List Bytes} {pending : Bytes}

/-- No complete occurrence crosses the point. -/
def Free (patterns : List Bytes) (pending : Bytes) (point : ℕ) : Prop :=
  ∀ index length, Occurs patterns pending index length → index < point → index + length ≤ point

theorem crossed_eq_false_iff {point : ℕ} :
    crossed patterns pending point = false ↔ Free patterns pending point := by
  rw [Bool.eq_false_iff]
  unfold crossed Free Occurs
  simp only [ne_eq, List.any_eq_true, List.mem_range, Bool.and_eq_true, decide_eq_true_eq,
    List.isPrefixOf_iff_prefix]
  constructor
  · rintro hnone index length ⟨pattern, hpattern, hstart, rfl⟩ hlt
    by_contra hcross
    exact hnone ⟨index, hlt, pattern, hpattern, hstart, by omega⟩
  · rintro hfree ⟨index, hlt, pattern, hpattern, hstart, hcross⟩
    have hle := hfree index pattern.length ⟨pattern, hpattern, hstart, rfl⟩ hlt
    omega

theorem free_length : Free patterns pending pending.length := by
  intro index length hoccurs hlt
  by_cases hpos : 0 < length
  · exact hoccurs.le_length hpos
  · omega

/-- The least free point from a start on. -/
structure LeastFree (patterns : List Bytes) (pending : Bytes) (start point : ℕ) : Prop where
  above : start ≤ point
  inside : point ≤ pending.length
  free : Free patterns pending point
  least : ∀ other, start ≤ other → Free patterns pending other → point ≤ other

theorem LeastFree.unique {start point point' : ℕ} (h : LeastFree patterns pending start point)
    (h' : LeastFree patterns pending start point') : point = point' :=
  le_antisymm (h.least point' h'.above h'.free) (h'.least point h.above h.free)

theorem leastFree_firstFree {start : ℕ} (hstart : start ≤ pending.length) :
    LeastFree patterns pending start (firstFree patterns pending start) := by
  unfold firstFree
  cases hfound : (List.range' start (pending.length - start)).find? fun point =>
      !crossed patterns pending point with
  | none =>
    refine ⟨hstart, le_refl _, free_length, fun other hge hfree => ?_⟩
    by_contra hlt
    have hmem : other ∈ List.range' start (pending.length - start) := by
      rw [List.mem_range'_1]
      rw [Option.getD_none] at hlt
      omega
    have hcrossed := List.find?_eq_none.mp hfound other hmem
    rw [crossed_eq_false_iff.mpr hfree] at hcrossed
    exact hcrossed rfl
  | some point =>
    rw [Option.getD_some]
    have hfree : Free patterns pending point := by
      have hclear := List.find?_some hfound
      exact crossed_eq_false_iff.mp (by simpa using hclear)
    have hmem := List.mem_of_find?_eq_some hfound
    rw [List.mem_range'_1] at hmem
    refine ⟨hmem.1, by omega, hfree, fun other hge hother => ?_⟩
    by_contra hlt
    obtain ⟨front, back, hsplit, hbefore⟩ := (List.find?_eq_some_iff_append.mp hfound).2
    have hother' : other ∈ front := by
      have hrange : other ∈ List.range' start (pending.length - start) := by
        rw [List.mem_range'_1]
        omega
      have hsorted := List.pairwise_lt_range' (s := start) (n := pending.length - start)
      rw [hsplit] at hrange hsorted
      rcases List.mem_append.mp hrange with hfront | hback
      · exact hfront
      · rcases List.mem_cons.mp hback with heq | hback
        · omega
        · have hpoint := List.rel_of_pairwise_cons (List.pairwise_append.mp hsorted).2.1 hback
          omega
    have hcrossed := hbefore other hother'
    rw [crossed_eq_false_iff.mpr hother] at hcrossed
    cases hcrossed

theorem extend_le {index cut bound : ℕ} (hcut : cut ≤ bound)
    (hoccurs : ∀ length, Occurs patterns pending index length → index + length ≤ bound) :
    extend patterns pending index cut ≤ bound := by
  by_contra hlt
  rcases lt_extend_iff.mp (not_le.mp hlt) with hcut' | ⟨length, hoccurs', hlt'⟩
  · omega
  · have hle := hoccurs length hoccurs'
    omega

/-- The scan of a streaming call stops at the least free point. -/
theorem streamCut_leastFree {fuel index cut : ℕ} (hfuel : pending.length ≤ fuel + index)
    (hcut : cut ≤ pending.length)
    (hseen : ∀ start length, Occurs patterns pending start length → start < index →
      start + length ≤ cut) :
    LeastFree patterns pending cut (streamCut patterns pending fuel index cut) := by
  induction fuel generalizing index cut with
  | zero =>
    refine ⟨le_refl _, hcut, fun start length hoccurs hlt => ?_, fun _ hge _ => hge⟩
    have hcut' : streamCut patterns pending 0 index cut = cut := rfl
    rw [hcut'] at hlt
    exact hseen start length hoccurs (by omega)
  | succ fuel ih =>
    unfold streamCut
    by_cases hindex : index < cut
    · rw [if_pos hindex]
      have hinside : ∀ length, Occurs patterns pending index length →
          index + length ≤ pending.length := by
        intro length hoccurs
        exact free_length index length hoccurs (by omega)
      have hgrow := @le_extend patterns pending index cut
      have hnext := @ih (index + 1) (extend patterns pending index cut) (by omega)
        (extend_le hcut hinside) (by
          intro start length hoccurs hlt
          by_cases hlast : start = index
          · subst hlast
            by_contra hbeyond
            have hreach := @lt_extend_iff patterns pending start cut
              (extend patterns pending start cut)
            exact absurd (hreach.mpr (Or.inr ⟨length, hoccurs, by omega⟩)) (lt_irrefl _)
          · have hle := hseen start length hoccurs (by omega)
            omega)
      refine ⟨hgrow.trans hnext.above, hnext.inside, hnext.free, fun other hge hfree => ?_⟩
      refine hnext.least other (extend_le hge fun length hoccurs => ?_) hfree
      exact hfree index length hoccurs (by omega)
    · rw [if_neg hindex]
      refine ⟨le_refl _, hcut, fun start length hoccurs hlt => ?_, fun _ hge _ => hge⟩
      exact hseen start length hoccurs (by omega)

theorem streamCut_eq {start : ℕ} (hstart : start ≤ pending.length) :
    streamCut patterns pending pending.length 0 start = firstFree patterns pending start :=
  (streamCut_leastFree (by omega) hstart
    (fun _ _ _ hlt => absurd hlt (Nat.not_lt_zero _))).unique (leastFree_firstFree hstart)

end

section

variable {redactor : Redactor} {text : Bytes}

theorem coveredUncut_iff {patterns : List Bytes} {points : List ℕ} {position : ℕ} :
    coveredUncut patterns text points position = true ↔
      ∃ index length, Occurs patterns text index length ∧ index ≤ position ∧
        position < index + length ∧ ∀ point ∈ points, ¬ (index < point ∧ point < index + length) := by
  unfold coveredUncut Occurs
  simp only [List.any_eq_true, List.mem_range, Bool.and_eq_true, decide_eq_true_eq,
    List.isPrefixOf_iff_prefix, List.all_eq_true, Bool.not_eq_true', Bool.and_eq_false_iff,
    decide_eq_false_iff_not, ← not_and_or]
  constructor
  · rintro ⟨index, hindex, pattern, hpattern, ⟨hstart, hlt⟩, huncut⟩
    exact ⟨index, pattern.length, ⟨pattern, hpattern, hstart, rfl⟩, by omega, hlt, huncut⟩
  · rintro ⟨index, length, ⟨pattern, hpattern, hstart, rfl⟩, hindex, hlt, huncut⟩
    exact ⟨index, by omega, pattern, hpattern, ⟨hstart, hlt⟩, huncut⟩

theorem le_cutPoints {base point : ℕ} {pending : Bytes} {chunks : List Bytes}
    (h : point ∈ cutPoints redactor base pending chunks) : base ≤ point := by
  induction chunks generalizing base pending with
  | nil => cases h
  | cons chunk rest ih =>
    rcases List.mem_cons.mp h with rfl | hrest
    · omega
    · have hle := ih hrest
      omega

/-- Occurrences of the bytes that are pending, in the text. -/
theorem occurs_pending_iff {patterns : List Bytes} {base index length : ℕ} {pending more : Bytes}
    (htext : text.drop base = pending ++ more) :
    Occurs patterns pending index length ↔
      Occurs patterns text (base + index) length ∧ length ≤ pending.length - index := by
  have hpending : pending = (text.drop base).take pending.length := by
    rw [htext, List.take_left]
  rw [hpending, Occurs.slice_iff, ← hpending]

/-- Up to its cut point a call hides what occurrences between the points cover. -/
theorem merge_call {base point : ℕ} {pending more : Bytes} {points : List ℕ}
    (htext : text.drop base = pending ++ more) (hpoint : point ≤ pending.length)
    (hfree : Free redactor.patterns pending point)
    (hpoints : ∀ other ∈ points, base + point ≤ other)
    (hcut : base + point ∈ points ∨ more = []) :
    merge ((redactor.redactWindow pending 0 point).map (Piece.shift base)) =
      merge (marks (coveredUncut redactor.patterns text (base :: points)) text base point) := by
  have hlength : text.length - base = pending.length + more.length := by
    rw [← List.length_drop, htext, List.length_append]
  have hmarks : marks (coveredUncut redactor.patterns text (base :: points)) text base point =
      (marks (covered redactor.patterns pending) pending 0 point).map (Piece.shift base) := by
    refine marks_congr base (Nat.add_zero base).symm (fun index hlt => ?_) fun index hlt => ?_
    · rw [Nat.zero_add, Bool.eq_iff_iff, coveredUncut_iff, covered_iff]
      constructor
      · rintro ⟨start, length, hoccurs, hle, hreach, huncut⟩
        have hbase := huncut base List.mem_cons_self
        have hstart : base + (start - base) = start := by omega
        have hfits : start + length ≤ base + pending.length := by
          rcases hcut with hmem | hnil
          · have hstop := huncut _ (List.mem_cons_of_mem _ hmem)
            omega
          · have hinside := hoccurs.le_length (by omega)
            rw [hnil, List.length_nil] at hlength
            omega
        refine ⟨start - base, length, (occurs_pending_iff htext).mpr ⟨?_, by omega⟩, by omega,
          by omega⟩
        rw [hstart]
        exact hoccurs
      · rintro ⟨start, length, hoccurs, hle, hreach⟩
        have hend := hfree start length hoccurs (by omega)
        refine ⟨base + start, length, ((occurs_pending_iff htext).mp hoccurs).1, by omega, by omega,
          fun other hother => ?_⟩
        rcases List.mem_cons.mp hother with rfl | hother
        · omega
        · have hbeyond := hpoints other hother
          omega
    · rw [Nat.zero_add, List.getD_eq_getElem?_getD, List.getD_eq_getElem?_getD,
        ← List.getElem?_drop, htext, List.getElem?_append_left (by omega)]
  rw [hmarks, merge_map_shift, merge_map_shift, merge_redactWindow hpoint]

/-- Chunk by chunk, the output hides the bytes in occurrences that no cut point divides. -/
theorem merge_streamChunks {base : ℕ} {pending last : Bytes} {chunks : List Bytes}
    (htext : text.drop base = pending ++ (chunks.flatten ++ last)) (hbase : base ≤ text.length) :
    merge (streamChunks redactor base pending chunks last) =
      merge (marks (coveredUncut redactor.patterns text
        (base :: cutPoints redactor base pending chunks)) text base (text.length - base)) := by
  induction chunks generalizing base pending with
  | nil =>
    have hnil : text.drop base = (pending ++ last) ++ [] := by
      rw [htext, List.flatten_nil, List.nil_append, List.append_nil]
    have hlength : text.length - base = (pending ++ last).length := by
      rw [← List.length_drop, hnil, List.append_nil]
    have hcall : (redactor.stream (pending ++ last) true).1 =
        redactor.redactWindow (pending ++ last) 0 (pending ++ last).length := by
      have hcut : firstFree redactor.patterns (pending ++ last) (pending ++ last).length =
          (pending ++ last).length :=
        le_antisymm (leastFree_firstFree (le_refl _)).inside (leastFree_firstFree (le_refl _)).above
      unfold Redactor.stream
      simp only [if_true]
      rw [streamCut_eq (le_refl _), hcut]
    show merge (((redactor.stream (pending ++ last) true).1).map (Piece.shift base)) = _
    rw [hcall, hlength]
    exact merge_call hnil (le_refl _) free_length (fun _ hother => (nomatch hother)) (Or.inr rfl)
  | cons chunk rest ih =>
    have hchunk : text.drop base = (pending ++ chunk) ++ (rest.flatten ++ last) := by
      rw [htext, List.flatten_cons, List.append_assoc, List.append_assoc]
    generalize hreceived : pending ++ chunk = received at hchunk
    have hstart : received.length - redactor.maxPatternBytes ≤ received.length := Nat.sub_le _ _
    have hleast := @leastFree_firstFree redactor.patterns received _ hstart
    generalize hpoint : firstFree redactor.patterns received
      (received.length - redactor.maxPatternBytes) = point at hleast
    have hlength : text.length - base = received.length + (rest.flatten ++ last).length := by
      rw [← List.length_drop, hchunk, List.length_append]
    have hcall : redactor.stream received false =
        (redactor.redactWindow received 0 point, received.drop point) := by
      unfold Redactor.stream
      simp only [Bool.false_eq_true, if_false]
      rw [streamCut_eq hstart, hpoint]
    have hrest : text.drop (base + point) = received.drop point ++ (rest.flatten ++ last) := by
      rw [← List.drop_drop, hchunk, List.drop_append_of_le_length hleast.inside]
    have hdrained : received.length - (received.drop point).length = point := by
      have hinside := hleast.inside
      rw [List.length_drop]
      omega
    have hpoints : cutPoints redactor base pending (chunk :: rest) =
        (base + point) :: cutPoints redactor (base + point) (received.drop point) rest := by
      show (_ :: _ : List ℕ) = _
      rw [hreceived, hpoint]
    have houtput : streamChunks redactor base pending (chunk :: rest) last =
        (redactor.redactWindow received 0 point).map (Piece.shift base) ++
          streamChunks redactor (base + point) (received.drop point) rest last := by
      show ((redactor.stream (pending ++ chunk) false).1.map (Piece.shift base) ++ streamChunks redactor
        (base + ((pending ++ chunk).length - (redactor.stream (pending ++ chunk) false).2.length))
        (redactor.stream (pending ++ chunk) false).2 rest last) = _
      rw [hreceived, hcall]
      simp only [hdrained]
    have hinside := hleast.inside
    have hsize : text.length - base = point + (text.length - (base + point)) := by omega
    rw [houtput, hpoints, hsize, marks_append]
    refine merge_append_congr ?_ ?_
    · refine merge_call hchunk hleast.inside hleast.free (fun other hother => ?_)
        (Or.inl List.mem_cons_self)
      rcases List.mem_cons.mp hother with rfl | hother
      · exact le_refl _
      · exact le_cutPoints hother
    · rw [ih hrest (by omega)]
      -- an occurrence over a byte after the cut point begins after it or is divided by it
      congr 1
      unfold marks
      refine List.map_congr_left fun position hposition => ?_
      rw [List.mem_range'_1] at hposition
      have hsame : coveredUncut redactor.patterns text
          ((base + point) :: cutPoints redactor (base + point) (received.drop point) rest) position =
            coveredUncut redactor.patterns text (base :: (base + point) ::
              cutPoints redactor (base + point) (received.drop point) rest) position := by
        rw [Bool.eq_iff_iff, coveredUncut_iff, coveredUncut_iff]
        constructor
        · rintro ⟨index, length, hoccurs, hle, hreach, huncut⟩
          refine ⟨index, length, hoccurs, hle, hreach, fun other hother => ?_⟩
          rcases List.mem_cons.mp hother with rfl | hother
          · have hcut := huncut _ List.mem_cons_self
            omega
          · exact huncut other hother
        · rintro ⟨index, length, hoccurs, hle, hreach, huncut⟩
          exact ⟨index, length, hoccurs, hle, hreach,
            fun other hother => huncut other (List.mem_cons_of_mem _ hother)⟩
      rw [hsame]

end

/-- The output of a stream is that of the whole text, up to how adjacent marks are merged. -/
def StreamAgrees (redactor : Redactor) (chunks : List Bytes) (last : Bytes) : Prop :=
  merge (streamChunks redactor 0 [] chunks last) =
    merge (redactor.redactWindow (chunks.flatten ++ last) 0 (chunks.flatten ++ last).length)

/-- A stream is redacted as its whole text exactly when every byte in an occurrence lies in
one that no cut point divides. -/
theorem stream_agrees_iff (redactor : Redactor) (chunks : List Bytes) (last : Bytes) :
    StreamAgrees redactor chunks last ↔
      ∀ position, covered redactor.patterns (chunks.flatten ++ last) position = true →
        coveredUncut redactor.patterns (chunks.flatten ++ last)
          (cutPoints redactor 0 [] chunks) position = true := by
  generalize htext : chunks.flatten ++ last = text
  have hstream := @merge_streamChunks redactor text 0 [] last chunks (by rw [htext]; rfl)
    (Nat.zero_le _)
  have hzero (position : ℕ) : coveredUncut redactor.patterns text
      (0 :: cutPoints redactor 0 [] chunks) position =
        coveredUncut redactor.patterns text (cutPoints redactor 0 [] chunks) position := by
    unfold coveredUncut
    simp only [List.all_cons, Nat.not_lt_zero, decide_false, Bool.false_and, Bool.not_false,
      Bool.true_and]
  unfold StreamAgrees
  rw [htext, hstream, merge_redactWindow (le_refl _), Nat.sub_zero, merge_marks_iff]
  simp only [hzero]
  constructor
  · intro hsame position hcovered
    obtain ⟨index, length, hoccurs, hle, hreach⟩ := covered_iff.mp hcovered
    have hinside := hoccurs.le_length (by omega)
    rw [hsame position (by omega)]
    exact hcovered
  · intro hcovers position _
    rw [Bool.eq_iff_iff]
    refine ⟨fun huncut => ?_, hcovers position⟩
    obtain ⟨index, length, hoccurs, hle, hreach, -⟩ := coveredUncut_iff.mp huncut
    exact covered_iff.mpr ⟨index, length, hoccurs, hle, hreach⟩

section

open Encoding

/-- The first secret, with a chunk border inside it. -/
theorem parted_secret_hidden : ∀ position,
    covered sampleRedactor.patterns (utf8 "x%61%62%63%64y") position = true →
      coveredUncut sampleRedactor.patterns (utf8 "x%61%62%63%64y")
        (cutPoints sampleRedactor 0 [] [utf8 "x%61%62"]) position = true := by
  refine (stream_agrees_iff sampleRedactor [utf8 "x%61%62"] (utf8 "%63%64y")).mp ?_
  unfold StreamAgrees
  decide +kernel

/-- The second secret begins in the last byte of an encoding of the first one, and its end
arrives with the next chunk. -/
theorem stream_shows_secret_tail :
    ¬ StreamAgrees sampleRedactor [utf8 "%61%62%63%64x"] (utf8 "yz") := by
  unfold StreamAgrees
  decide +kernel

end

end NyxId.MachineText
