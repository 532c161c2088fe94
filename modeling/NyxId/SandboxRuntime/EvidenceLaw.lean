import NyxId.SandboxRuntime.Model
import Mathlib.Data.Int.ConditionallyCompleteOrder

/-!
Which evidence a funded window accepts, and what it is charged then.
-/

namespace NyxId.SandboxRuntime

variable {start stop : ℤ} {allocation : Amounts} {interval : IntervalEvidence}
  {intervals : List IntervalEvidence}

/-! ### Products -/

theorem checkedProducts_eq_some {seconds : ℤ} {quantity : Amounts} :
    checkedProducts allocation seconds = some quantity ↔
      (∀ i, -2 ^ 63 ≤ allocation i * seconds ∧ allocation i * seconds < 2 ^ 63) ∧
        quantity = fun i => allocation i * seconds := by
  unfold checkedProducts
  split
  · rename_i h
    exact ⟨fun hq => ⟨h, (Option.some.inj hq).symm⟩, fun hq => congrArg some hq.2.symm⟩
  · rename_i h
    exact ⟨nofun, fun hq => absurd hq.1 h⟩

/-- A product of non-negative numbers that fits. -/
def Fits (allocation : Amounts) (seconds : ℤ) : Prop :=
  0 ≤ seconds ∧ ∀ i, 0 ≤ allocation i ∧ allocation i * seconds < 2 ^ 63

theorem arrayQuantities_eq_ok {seconds : ℤ} {quantity : Amounts} :
    arrayQuantities allocation seconds = .ok quantity ↔
      Fits allocation seconds ∧ quantity = fun i => allocation i * seconds := by
  unfold arrayQuantities
  split
  · rename_i hneg
    refine ⟨nofun, fun ⟨⟨hseconds, hfits⟩, _⟩ => ?_⟩
    rcases hneg with hneg | ⟨i, hneg⟩
    · omega
    · exact absurd hneg (not_lt.mpr (hfits i).1)
  rename_i hnonneg
  rw [not_or, not_lt, not_exists] at hnonneg
  obtain ⟨hseconds, hnonneg⟩ := hnonneg
  have hproduct (i : Fin 3) : 0 ≤ allocation i * seconds :=
    mul_nonneg (not_lt.mp (hnonneg i)) hseconds
  split
  · rename_i hnone
    refine ⟨nofun, fun ⟨⟨_, hfits⟩, _⟩ => ?_⟩
    have hsome := checkedProducts_eq_some.mpr ⟨fun i => ⟨by have := hproduct i; omega, (hfits i).2⟩, rfl⟩
    rw [hnone] at hsome
    cases hsome
  · rename_i found hfound
    obtain ⟨hrange, rfl⟩ := checkedProducts_eq_some.mp hfound
    constructor
    · intro h
      exact ⟨⟨hseconds, fun i => ⟨not_lt.mp (hnonneg i), (hrange i).2⟩⟩, (Except.ok.inj h).symm⟩
    · rintro ⟨-, rfl⟩
      rfl

/-! ### One segment -/

/-- What the validators ask of a segment by itself. -/
structure IntervalEvidence.Consistent (interval : IntervalEvidence) : Prop where
  revision : 0 < interval.revision
  started : 0 ≤ interval.startedAt
  ordered : interval.startedAt ≤ interval.endedAt
  allocation : ∀ i, 0 ≤ interval.allocation i
  quantity : ∀ i, interval.quantity i = interval.allocation i * (interval.endedAt - interval.startedAt)

/-- The segment meets the closed window. -/
def IntervalEvidence.Touches (interval : IntervalEvidence) (start stop : ℤ) : Prop :=
  start ≤ interval.endedAt ∧ interval.startedAt ≤ stop

/-- The seconds of the window that the segment covers, if it touches the window. -/
def IntervalEvidence.overlap (interval : IntervalEvidence) (start stop : ℤ) : ℤ :=
  min interval.endedAt stop - max interval.startedAt start

def IntervalEvidence.Reserved (interval : IntervalEvidence) (start stop : ℤ) (allocation : Amounts) :
    Prop :=
  0 < interval.overlap start stop → ∀ i, interval.allocation i ≤ allocation i

/-- A segment continues another one. -/
def IntervalEvidence.Continues (last next : IntervalEvidence) : Prop :=
  next.revision = last.revision + 1 ∧ next.startedAt = last.endedAt

theorem recorded_iff (hrevision : 0 < interval.revision) (hstarted : 0 ≤ interval.startedAt)
    (hordered : interval.startedAt ≤ interval.endedAt) {quantity : Amounts} :
    arrayQuantities interval.allocation (interval.endedAt - interval.startedAt) = .ok quantity ∧
      quantity = interval.quantity ↔ interval.Consistent ∧ quantity = interval.quantity := by
  constructor
  · rintro ⟨h, rfl⟩
    obtain ⟨⟨-, hfits⟩, hquantity⟩ := arrayQuantities_eq_ok.mp h
    exact ⟨⟨hrevision, hstarted, hordered, fun i => (hfits i).1, fun i => congrFun hquantity i⟩, rfl⟩
  · rintro ⟨h, rfl⟩
    refine ⟨arrayQuantities_eq_ok.mpr ⟨⟨by omega, fun i => ⟨h.allocation i, ?_⟩⟩, funext h.quantity⟩, rfl⟩
    rw [← h.quantity i]
    exact (interval.quantityFits i).2

theorem follows_some {last : IntervalEvidence} :
    Follows (some last) interval ↔ last.Continues interval := by
  constructor
  · intro h
    obtain ⟨hrevision, hstarted⟩ := h
    exact ⟨(checkedI64_eq_some.mp hrevision).1.symm, hstarted.symm⟩
  · rintro ⟨hrevision, hstarted⟩
    refine ⟨checkedI64_eq_some.mpr ⟨hrevision.symm, ?_⟩, hstarted.symm⟩
    rw [← hrevision]
    exact interval.revisionFits

theorem follows_none : Follows none interval := trivial

/-- What the loop has added up stays within the reservation so far. -/
structure EvidenceScan.Within (s : EvidenceScan) (start stop : ℤ) (allocation : Amounts) : Prop where
  started : start ≤ s.cursor
  ended : s.cursor ≤ stop
  nonneg : ∀ i, 0 ≤ s.total i
  bounded : ∀ i, s.total i ≤ allocation i * (s.cursor - start)

/-- The state after a segment. -/
def EvidenceScan.next (s : EvidenceScan) (start stop : ℤ) (interval : IntervalEvidence) : EvidenceScan :=
  ⟨min interval.endedAt stop, some interval,
    fun i => s.total i + interval.allocation i * interval.overlap start stop⟩

/-- When a round of the loop goes on. -/
structure Admits (start stop : ℤ) (allocation : Amounts) (s : EvidenceScan)
    (interval : IntervalEvidence) : Prop where
  consistent : interval.Consistent
  follows : Follows s.previous interval
  touches : interval.Touches start stop
  reserved : interval.Reserved start stop allocation
  cursor : max interval.startedAt start = s.cursor
  overlap : 0 ≤ interval.overlap start stop

variable {s t : EvidenceScan}

/-- Within the reservation no product and no sum leaves 64 bits. -/
theorem EvidenceScan.Within.adds (hs : s.Within start stop allocation)
    (hfits : Fits allocation (stop - start)) (h : Admits start stop allocation s interval)
    (hpositive : 0 < interval.overlap start stop) :
    Fits interval.allocation (interval.overlap start stop) ∧
      checkedSums s.total (fun i => interval.allocation i * interval.overlap start stop) =
        some (s.next start stop interval).total := by
  have hend : interval.overlap start stop = min interval.endedAt stop - s.cursor := by
    unfold IntervalEvidence.overlap
    rw [h.cursor]
  have hstop : min interval.endedAt stop ≤ stop := min_le_right _ _
  have hquantity (i : Fin 3) : interval.allocation i * interval.overlap start stop ≤
      allocation i * interval.overlap start stop :=
    mul_le_mul_of_nonneg_right (h.reserved hpositive i) hpositive.le
  have hsum (i : Fin 3) : s.total i + interval.allocation i * interval.overlap start stop <
      2 ^ 63 := by
    have hbounded := hs.bounded i
    have hrest : allocation i * (s.cursor - start) + allocation i * interval.overlap start stop ≤
        allocation i * (stop - start) := by
      rw [← mul_add]
      exact mul_le_mul_of_nonneg_left (by omega) (hfits.2 i).1
    have := (hfits.2 i).2
    have := hquantity i
    omega
  have hproduct (i : Fin 3) : 0 ≤ interval.allocation i * interval.overlap start stop :=
    mul_nonneg (h.consistent.allocation i) hpositive.le
  refine ⟨⟨hpositive.le, fun i => ⟨h.consistent.allocation i, ?_⟩⟩, ?_⟩
  · have := hs.nonneg i
    have := hsum i
    omega
  · unfold checkedSums
    rw [if_pos]
    · rfl
    · intro i
      have := hs.nonneg i
      have := hproduct i
      refine ⟨?_, hsum i⟩
      change -2 ^ 63 ≤ s.total i + interval.allocation i * interval.overlap start stop
      omega

theorem EvidenceScan.Within.next (hs : s.Within start stop allocation)
    (h : Admits start stop allocation s interval) :
    (s.next start stop interval).Within start stop allocation := by
  have hend : min interval.endedAt stop = s.cursor + interval.overlap start stop := by
    unfold IntervalEvidence.overlap
    rw [h.cursor]
    omega
  have hoverlap := h.overlap
  have hstarted := hs.started
  refine ⟨?_, min_le_right _ _, fun i => ?_, fun i => ?_⟩
  · change start ≤ min interval.endedAt stop
    omega
  · exact add_nonneg (hs.nonneg i) (mul_nonneg (h.consistent.allocation i) hoverlap)
  · change s.total i + interval.allocation i * interval.overlap start stop ≤
      allocation i * (min interval.endedAt stop - start)
    have hquantity : interval.allocation i * interval.overlap start stop ≤
        allocation i * interval.overlap start stop := by
      rcases hoverlap.eq_or_lt with hzero | hpositive
      · rw [← hzero, mul_zero, mul_zero]
      · exact mul_le_mul_of_nonneg_right (h.reserved hpositive i) hoverlap
    have hsplit : allocation i * (min interval.endedAt stop - start) =
        allocation i * (s.cursor - start) + allocation i * interval.overlap start stop := by
      rw [← mul_add, hend]
      congr 1
      omega
    have := hs.bounded i
    omega

def overflowText : String := "Sandbox evidence quantity overflow"

theorem arrayQuantities_error {seconds : ℤ} {e : String}
    (h : arrayQuantities allocation seconds = .error e) : e ≠ overflowText := by
  unfold arrayQuantities at h
  split at h
  · obtain rfl := Except.error.inj h
    decide
  split at h
  · obtain rfl := Except.error.inj h
    decide
  · cases h

/-- A round goes on exactly on an admitted segment, and never fails for want of bits. -/
inductive Round (start stop : ℤ) (allocation : Amounts) (s : EvidenceScan) (interval : IntervalEvidence) :
    Except String EvidenceScan → Prop where
  | goes (h : Admits start stop allocation s interval) :
      Round start stop allocation s interval (.ok (s.next start stop interval))
  | stops {e : String} (h : ¬Admits start stop allocation s interval) (he : e ≠ overflowText) :
      Round start stop allocation s interval (.error e)

theorem scanInterval_round (hs : s.Within start stop allocation)
    (hfits : Fits allocation (stop - start)) :
    Round start stop allocation s interval (scanInterval start stop allocation s interval) := by
  unfold scanInterval
  split
  · rename_i hinvalid
    refine .stops (fun h => ?_) (by decide)
    obtain ⟨hrevision, hstarted, hordered, -, -⟩ := h.consistent
    omega
  rename_i hvalid
  rw [not_or, not_or, not_le, not_lt, not_lt] at hvalid
  obtain ⟨hrevision, hstarted, hordered⟩ := hvalid
  split
  · rename_i hfollows
    exact .stops (fun h => hfollows h.follows) (by decide)
  rename_i hfollows
  rw [not_not] at hfollows
  cases hrecorded : arrayQuantities interval.allocation (interval.endedAt - interval.startedAt) with
  | error e =>
    refine .stops (fun h => ?_) (arrayQuantities_error hrecorded)
    obtain ⟨hok, -⟩ := (recorded_iff hrevision hstarted hordered).mpr ⟨h.consistent, rfl⟩
    rw [hrecorded] at hok
    cases hok
  | ok recorded =>
    change Round _ _ _ _ _ (if recorded ≠ interval.quantity then _ else _)
    split
    · rename_i hne
      refine .stops (fun h => ?_) (by decide)
      obtain ⟨hok, -⟩ := (recorded_iff hrevision hstarted hordered).mpr ⟨h.consistent, rfl⟩
      exact hne (Except.ok.inj (hrecorded.symm.trans hok))
    rename_i hsame
    obtain ⟨hconsistent, -⟩ :=
      (recorded_iff hrevision hstarted hordered).mp ⟨hrecorded, not_not.mp hsame⟩
    split
    · rename_i houtside
      refine .stops (fun h => ?_) (by decide)
      obtain ⟨hended, hstarts⟩ := h.touches
      omega
    rename_i htouches
    rw [not_or, not_lt, not_lt] at htouches
    dsimp only
    split
    · rename_i hgap
      refine .stops (fun h => ?_) (by decide)
      have hoverlap := h.overlap
      unfold IntervalEvidence.overlap at hoverlap
      rcases hgap with hgap | hgap
      · exact hgap h.cursor
      · omega
    rename_i hcursor
    rw [not_or, not_not, not_lt] at hcursor
    have hoverlap : 0 ≤ interval.overlap start stop := sub_nonneg.mpr hcursor.2
    split
    · rename_i hpositive
      have hpositive' : 0 < interval.overlap start stop := sub_pos.mpr hpositive
      split
      · rename_i hexceeds
        obtain ⟨i, hexceeds⟩ := hexceeds
        exact .stops (fun h => absurd (h.reserved hpositive' i) (not_le.mpr hexceeds)) (by decide)
      rename_i hreserved
      rw [not_exists] at hreserved
      have hadmits : Admits start stop allocation s interval :=
        ⟨hconsistent, hfollows, htouches, fun _ i => not_lt.mp (hreserved i), hcursor.1, hoverlap⟩
      obtain ⟨hquantity, hsums⟩ := hs.adds hfits hadmits hpositive'
      have hok := arrayQuantities_eq_ok.mpr ⟨hquantity, rfl⟩
      change Round _ _ _ _ _ ((arrayQuantities interval.allocation (interval.overlap start stop)).bind _)
      rw [hok]
      dsimp only [Except.bind]
      rw [hsums]
      exact .goes hadmits
    · rename_i hzero
      have hnone : interval.overlap start stop = 0 := by
        unfold IntervalEvidence.overlap at hoverlap ⊢
        omega
      have hadmits : Admits start stop allocation s interval :=
        ⟨hconsistent, hfollows, htouches, fun hpositive => absurd hnone hpositive.ne', hcursor.1,
          hoverlap⟩
      have hnext : s.next start stop interval = ⟨min interval.endedAt stop, some interval, s.total⟩ := by
        unfold EvidenceScan.next
        rw [hnone]
        simp only [mul_zero, add_zero]
      rw [← hnext]
      exact .goes hadmits

theorem scanInterval_eq_ok (hs : s.Within start stop allocation)
    (hfits : Fits allocation (stop - start)) :
    scanInterval start stop allocation s interval = .ok t ↔
      Admits start stop allocation s interval ∧ t = s.next start stop interval := by
  have hround : Round start stop allocation s interval _ := scanInterval_round hs hfits
  generalize scanInterval start stop allocation s interval = result at hround
  cases hround with
  | goes h => exact ⟨fun ht => ⟨h, (Except.ok.inj ht).symm⟩, fun ht => congrArg Except.ok ht.2.symm⟩
  | stops h he => exact ⟨nofun, fun ht => absurd ht.1 h⟩

theorem scanInterval_ne_overflow (hs : s.Within start stop allocation)
    (hfits : Fits allocation (stop - start)) :
    scanInterval start stop allocation s interval ≠ .error overflowText := by
  have hround : Round start stop allocation s interval _ := scanInterval_round hs hfits
  generalize scanInterval start stop allocation s interval = result at hround
  cases hround with
  | goes h => exact nofun
  | stops h he => exact fun hsame => he (Except.error.inj hsame)

/-! ### All segments -/

/-- A segment that the window accepts, but for its place in the chain. -/
structure IntervalEvidence.Accepted (interval : IntervalEvidence) (start stop : ℤ)
    (allocation : Amounts) : Prop where
  consistent : interval.Consistent
  touches : interval.Touches start stop
  reserved : interval.Reserved start stop allocation

theorem IntervalEvidence.Accepted.overlap_nonneg (h : interval.Accepted start stop allocation)
    (hwindow : start ≤ stop) : 0 ≤ interval.overlap start stop := by
  have hordered := h.consistent.ordered
  obtain ⟨hended, hstarted⟩ := h.touches
  unfold IntervalEvidence.overlap
  omega

theorem admits_first (hwindow : start ≤ stop) (hnone : s.previous = none) (hcursor : s.cursor = start) :
    Admits start stop allocation s interval ↔
      interval.Accepted start stop allocation ∧ interval.startedAt ≤ start := by
  constructor
  · intro h
    have hfirst := h.cursor
    exact ⟨⟨h.consistent, h.touches, h.reserved⟩, by omega⟩
  · rintro ⟨h, hstarted⟩
    exact ⟨h.consistent, hnone ▸ follows_none, h.touches, h.reserved, by omega,
      h.overlap_nonneg hwindow⟩

theorem admits_next (hwindow : start ≤ stop) {last : IntervalEvidence} (hlast : s.previous = some last)
    (htouches : last.Touches start stop) (hcursor : s.cursor = min last.endedAt stop) :
    Admits start stop allocation s interval ↔
      interval.Accepted start stop allocation ∧ last.Continues interval := by
  constructor
  · intro h
    exact ⟨⟨h.consistent, h.touches, h.reserved⟩, follows_some.mp (hlast ▸ h.follows)⟩
  · rintro ⟨h, hcontinues⟩
    obtain ⟨hended, -⟩ := htouches
    obtain ⟨-, hstarted⟩ := h.touches
    have hsame := hcontinues.2
    exact ⟨h.consistent, hlast ▸ follows_some.mpr hcontinues, h.touches, h.reserved, by omega,
      h.overlap_nonneg hwindow⟩

def EvidenceScan.run (s : EvidenceScan) (start stop : ℤ) (intervals : List IntervalEvidence) :
    EvidenceScan :=
  intervals.foldl (fun s interval => s.next start stop interval) s

theorem scanIntervals_cons (rest : List IntervalEvidence) :
    scanIntervals start stop allocation s (interval :: rest) =
      (scanInterval start stop allocation s interval).bind
        fun s => scanIntervals start stop allocation s rest := rfl

/-- A round, and the rounds after it. -/
theorem scanIntervals_cons_eq_ok (hs : s.Within start stop allocation)
    (hfits : Fits allocation (stop - start)) (rest : List IntervalEvidence) :
    scanIntervals start stop allocation s (interval :: rest) = .ok t ↔
      Admits start stop allocation s interval ∧
        scanIntervals start stop allocation (s.next start stop interval) rest = .ok t := by
  rw [scanIntervals_cons]
  cases hround : scanInterval start stop allocation s interval with
  | error e =>
    refine ⟨nofun, fun ⟨h, _⟩ => ?_⟩
    have hok := (scanInterval_eq_ok hs hfits).mpr ⟨h, rfl⟩
    rw [hround] at hok
    cases hok
  | ok u =>
    obtain ⟨hadmits, rfl⟩ := (scanInterval_eq_ok hs hfits).mp hround
    exact ⟨fun h => ⟨hadmits, h⟩, fun h => h.2⟩

/-- The rounds after the first go on exactly along a chain of accepted segments. -/
theorem scanIntervals_eq_ok (hfits : Fits allocation (stop - start)) (hwindow : start ≤ stop)
    (hs : s.Within start stop allocation) {last : IntervalEvidence} (hlast : s.previous = some last)
    (htouches : last.Touches start stop) (hcursor : s.cursor = min last.endedAt stop) :
    scanIntervals start stop allocation s intervals = .ok t ↔
      (∀ x ∈ intervals, x.Accepted start stop allocation) ∧
        (last :: intervals).IsChain IntervalEvidence.Continues ∧ t = s.run start stop intervals := by
  induction intervals generalizing s last with
  | nil =>
    constructor
    · intro h
      exact ⟨fun x hx => absurd hx List.not_mem_nil, .singleton last, (Except.ok.inj h).symm⟩
    · rintro ⟨-, -, rfl⟩
      rfl
  | cons interval rest ih =>
    rw [scanIntervals_cons_eq_ok hs hfits, admits_next hwindow hlast htouches hcursor,
      List.isChain_cons_cons, List.forall_mem_cons]
    constructor
    · rintro ⟨⟨haccepted, hcontinues⟩, hrest⟩
      have hadmits := (admits_next hwindow hlast htouches hcursor).mpr ⟨haccepted, hcontinues⟩
      obtain ⟨hall, hchain, ht⟩ := (ih (hs.next hadmits) rfl haccepted.touches rfl).mp hrest
      exact ⟨⟨haccepted, hall⟩, ⟨hcontinues, hchain⟩, ht⟩
    · rintro ⟨⟨haccepted, hall⟩, ⟨hcontinues, hchain⟩, ht⟩
      have hadmits := (admits_next hwindow hlast htouches hcursor).mpr ⟨haccepted, hcontinues⟩
      exact ⟨⟨haccepted, hcontinues⟩,
        (ih (hs.next hadmits) rfl haccepted.touches rfl).mpr ⟨hall, hchain, ht⟩⟩

theorem scanIntervals_within (hfits : Fits allocation (stop - start))
    (hs : s.Within start stop allocation)
    (h : scanIntervals start stop allocation s intervals = .ok t) : t.Within start stop allocation := by
  induction intervals generalizing s with
  | nil =>
    obtain rfl := Except.ok.inj h
    exact hs
  | cons interval rest ih =>
    obtain ⟨hadmits, hrest⟩ := (scanIntervals_cons_eq_ok hs hfits rest).mp h
    exact ih (hs.next hadmits) hrest

theorem scanIntervals_ne_overflow (hfits : Fits allocation (stop - start))
    (hs : s.Within start stop allocation) :
    scanIntervals start stop allocation s intervals ≠ .error overflowText := by
  induction intervals generalizing s with
  | nil => exact nofun
  | cons interval rest ih =>
    rw [scanIntervals_cons]
    intro h
    cases hround : scanInterval start stop allocation s interval with
    | error e =>
      rw [hround] at h
      obtain rfl := Except.error.inj h
      exact scanInterval_ne_overflow hs hfits hround
    | ok u =>
      obtain ⟨hadmits, rfl⟩ := (scanInterval_eq_ok hs hfits).mp hround
      rw [hround] at h
      exact ih (hs.next hadmits) h

theorem run_total (i : Fin 3) : (s.run start stop intervals).total i =
    s.total i + (intervals.map fun x => x.allocation i * x.overlap start stop).sum := by
  induction intervals generalizing s with
  | nil => exact (add_zero _).symm
  | cons interval rest ih =>
    change ((s.next start stop interval).run start stop rest).total i = _
    rw [ih, List.map_cons, List.sum_cons, ← add_assoc]
    rfl

theorem run_cursor {last : IntervalEvidence} (hlast : intervals.getLast? = some last) :
    (s.run start stop intervals).cursor = min last.endedAt stop := by
  obtain ⟨initial, rfl⟩ := List.getLast?_eq_some_iff.mp hlast
  unfold EvidenceScan.run
  rw [List.foldl_append]
  rfl

/-! ### The integral -/

/-- What is allocated at a second. -/
def allocatedAt (intervals : List IntervalEvidence) (i : Fin 3) (second : ℤ) : ℤ :=
  (intervals.map fun x =>
    if x.startedAt ≤ second ∧ second < x.endedAt then x.allocation i else 0).sum

theorem sum_segment (i : Fin 3) (hoverlap : 0 ≤ interval.overlap start stop) :
    ∑ second ∈ Finset.Ico start stop,
      (if interval.startedAt ≤ second ∧ second < interval.endedAt then interval.allocation i else 0) =
        interval.allocation i * interval.overlap start stop := by
  have hseconds : (Finset.Ico start stop).filter
      (fun second => interval.startedAt ≤ second ∧ second < interval.endedAt) =
        Finset.Ico (max interval.startedAt start) (min interval.endedAt stop) := by
    ext second
    simp only [Finset.mem_filter, Finset.mem_Ico, max_le_iff, lt_min_iff]
    tauto
  have hcard : ((Finset.Ico (max interval.startedAt start) (min interval.endedAt stop)).card : ℤ) =
      interval.overlap start stop := by
    rw [Int.card_Ico]
    exact Int.toNat_of_nonneg hoverlap
  rw [← Finset.sum_filter, hseconds, Finset.sum_const, nsmul_eq_mul, hcard, mul_comm]

theorem sum_allocatedAt (i : Fin 3) (h : ∀ x ∈ intervals, 0 ≤ x.overlap start stop) :
    ∑ second ∈ Finset.Ico start stop, allocatedAt intervals i second =
      (intervals.map fun x => x.allocation i * x.overlap start stop).sum := by
  induction intervals with
  | nil => exact Finset.sum_const_zero
  | cons interval rest ih =>
    rw [List.forall_mem_cons] at h
    have hsplit (second : ℤ) : allocatedAt (interval :: rest) i second =
        (if interval.startedAt ≤ second ∧ second < interval.endedAt then interval.allocation i else 0) +
          allocatedAt rest i second := by
      unfold allocatedAt
      rw [List.map_cons, List.sum_cons]
    rw [Finset.sum_congr rfl fun second _ => hsplit second, Finset.sum_add_distrib, sum_segment i h.1,
      ih h.2, List.map_cons, List.sum_cons]

/-! ### Accepted evidence -/

/-- One contiguous chain over the window, consistent and within the reservation. -/
structure ClosesWindow (start stop : ℤ) (allocation : Amounts) (intervals : List IntervalEvidence) :
    Prop where
  consistent : ∀ x ∈ intervals, x.Consistent
  reserved : ∀ x ∈ intervals, x.Reserved start stop allocation
  chain : intervals.IsChain IntervalEvidence.Continues
  first : ∃ x, intervals.head? = some x ∧ x.startedAt ≤ start
  last : ∃ x, intervals.getLast? = some x ∧ stop ≤ x.endedAt

/-- A window that can be funded. -/
structure FundedWindow (start stop : ℤ) (allocation : Amounts) : Prop where
  started : 0 ≤ start
  nonempty : start < stop
  bounded : stop - start ≤ maxWindowSeconds
  fits : Fits allocation (stop - start)

theorem scan_accepts (hwindow : FundedWindow start stop allocation) :
    scanIntervals start stop allocation ⟨start, none, fun _ => 0⟩ intervals = .ok t ∧ t.cursor = stop ↔
      ClosesWindow start stop allocation intervals ∧ (∀ x ∈ intervals, x.Touches start stop) ∧
        t = EvidenceScan.run ⟨start, none, fun _ => 0⟩ start stop intervals := by
  have hle : start ≤ stop := hwindow.nonempty.le
  have hs : EvidenceScan.Within ⟨start, none, fun _ => 0⟩ start stop allocation :=
    ⟨le_rfl, hle, fun _ => le_rfl, fun _ => by simp⟩
  cases intervals with
  | nil =>
    constructor
    · rintro ⟨h, hcursor⟩
      obtain rfl := Except.ok.inj h
      exact absurd hcursor hwindow.nonempty.ne
    · rintro ⟨h, -⟩
      obtain ⟨x, hx, -⟩ := h.first
      cases hx
  | cons interval rest =>
    rw [scanIntervals_cons_eq_ok hs hwindow.fits, admits_first hle rfl rfl]
    obtain ⟨last, hlast⟩ : ∃ last, (interval :: rest).getLast? = some last :=
      ⟨_, List.getLast?_eq_getLast_of_ne_nil (List.cons_ne_nil _ _)⟩
    have hcursor : (EvidenceScan.run ⟨start, none, fun _ => 0⟩ start stop (interval :: rest)).cursor =
        min last.endedAt stop := run_cursor hlast
    constructor
    · rintro ⟨⟨⟨haccepted, hstarted⟩, hrest⟩, hstop⟩
      have hadmits := (admits_first (s := ⟨start, none, fun _ => 0⟩) hle rfl rfl).mpr
        ⟨haccepted, hstarted⟩
      obtain ⟨hall, hchain, rfl⟩ := (scanIntervals_eq_ok hwindow.fits hle (hs.next hadmits)
        rfl haccepted.touches rfl).mp hrest
      have haccepts : ∀ x ∈ interval :: rest, x.Accepted start stop allocation :=
        List.forall_mem_cons.mpr ⟨haccepted, hall⟩
      have hends : min last.endedAt stop = stop := hcursor.symm.trans hstop
      refine ⟨⟨fun x hx => (haccepts x hx).consistent, fun x hx => (haccepts x hx).reserved, hchain,
        ⟨interval, rfl, hstarted⟩, ⟨last, hlast, ?_⟩⟩, fun x hx => (haccepts x hx).touches, rfl⟩
      exact min_eq_right_iff.mp hends
    · rintro ⟨hcloses, htouches, rfl⟩
      have haccepts : ∀ x ∈ interval :: rest, x.Accepted start stop allocation :=
        fun x hx => ⟨hcloses.consistent x hx, htouches x hx, hcloses.reserved x hx⟩
      obtain ⟨first, hfirst, hstarted⟩ := hcloses.first
      obtain rfl := Option.some.inj hfirst
      obtain ⟨haccepted, hall⟩ := List.forall_mem_cons.mp haccepts
      have hadmits := (admits_first (s := ⟨start, none, fun _ => 0⟩) hle rfl rfl).mpr
        ⟨haccepted, hstarted⟩
      have hrest := (scanIntervals_eq_ok hwindow.fits hle (hs.next hadmits)
        rfl haccepted.touches rfl).mpr ⟨hall, hcloses.chain, rfl⟩
      refine ⟨⟨⟨haccepted, hstarted⟩, hrest⟩, ?_⟩
      obtain ⟨x, hx, hends⟩ := hcloses.last
      obtain rfl := Option.some.inj (hlast.symm.trans hx)
      exact hcursor.trans (min_eq_right hends)

theorem within_start (hwindow : start ≤ stop) :
    EvidenceScan.Within ⟨start, none, fun _ => 0⟩ start stop allocation :=
  ⟨le_rfl, hwindow, fun _ => le_rfl, fun _ => by simp⟩

theorem arrayFiniteQuantities_eq_ok {seconds : ℤ} {maximum : Amounts} :
    arrayFiniteQuantities allocation seconds = .ok maximum ↔
      (1 ≤ seconds ∧ seconds ≤ maxWindowSeconds) ∧ Fits allocation seconds ∧
        maximum = fun i => allocation i * seconds := by
  unfold arrayFiniteQuantities
  split
  · rename_i hbounds
    exact ⟨nofun, fun h => absurd h.1 hbounds⟩
  · rename_i hbounds
    rw [arrayQuantities_eq_ok]
    exact ⟨fun h => ⟨not_not.mp hbounds, h⟩, fun h => h.2⟩

theorem funded_of_ok {total : Amounts}
    (h : evidencedQuantities start stop allocation intervals = .ok total) :
    FundedWindow start stop allocation := by
  unfold evidencedQuantities at h
  split at h
  · cases h
  rename_i hwindow
  rw [not_or, not_or, not_lt, not_le, not_lt] at hwindow
  cases hmaximum : arrayFiniteQuantities allocation (stop - start) with
  | error e =>
    rw [hmaximum] at h
    cases h
  | ok maximum =>
    exact ⟨hwindow.1, hwindow.2.1, hwindow.2.2, (arrayFiniteQuantities_eq_ok.mp hmaximum).2.1⟩

theorem evidencedQuantities_funded (hwindow : FundedWindow start stop allocation) :
    evidencedQuantities start stop allocation intervals =
      if intervals = [] ∨ maxEvidenceIntervals < intervals.length then
        .error "Sandbox evidence must be a bounded nonempty ledger range"
      else (scanIntervals start stop allocation ⟨start, none, fun _ => 0⟩ intervals).bind fun s =>
        if s.cursor ≠ stop ∨ ∃ i, allocation i * (stop - start) < s.total i then
          .error "Sandbox evidence does not close the funded window"
        else .ok s.total := by
  obtain ⟨hstarted, hnonempty, hbounded, hfits⟩ := hwindow
  have hmaximum : arrayFiniteQuantities allocation (stop - start) =
      .ok fun i => allocation i * (stop - start) :=
    arrayFiniteQuantities_eq_ok.mpr ⟨⟨by omega, hbounded⟩, hfits, rfl⟩
  unfold evidencedQuantities
  rw [if_neg (by omega), hmaximum]
  rfl

/-- The last guard on the total never refuses. -/
theorem EvidenceScan.Within.guard (hs : s.Within start stop allocation)
    (hwindow : FundedWindow start stop allocation) (i : Fin 3) :
    s.total i ≤ allocation i * (stop - start) := by
  have hended := hs.ended
  exact (hs.bounded i).trans (mul_le_mul_of_nonneg_left (by omega) (hwindow.fits.2 i).1)

theorem evidence_ne_overflow :
    evidencedQuantities start stop allocation intervals ≠ .error overflowText := by
  by_cases hwindow : FundedWindow start stop allocation
  · rw [evidencedQuantities_funded hwindow]
    split
    · exact fun h => absurd (Except.error.inj h) (by decide)
    cases hscan : scanIntervals start stop allocation ⟨start, none, fun _ => 0⟩ intervals with
    | error e =>
      intro h
      obtain rfl := Except.error.inj h
      exact scanIntervals_ne_overflow hwindow.fits (within_start hwindow.nonempty.le) hscan
    | ok s =>
      change (if _ then _ else _) ≠ _
      split
      · exact fun h => absurd (Except.error.inj h) (by decide)
      · exact nofun
  · intro h
    unfold evidencedQuantities at h
    split at h
    · exact absurd (Except.error.inj h) (by decide)
    rename_i hbounds
    rw [not_or, not_or, not_lt, not_le, not_lt] at hbounds
    cases hmaximum : arrayFiniteQuantities allocation (stop - start) with
    | error e =>
      rw [hmaximum] at h
      obtain rfl := Except.error.inj h
      unfold arrayFiniteQuantities at hmaximum
      split at hmaximum
      · exact absurd (Except.error.inj hmaximum) (by decide)
      · exact arrayQuantities_error hmaximum rfl
    | ok maximum =>
      exact hwindow ⟨hbounds.1, hbounds.2.1, hbounds.2.2, (arrayFiniteQuantities_eq_ok.mp hmaximum).2.1⟩

/-- Evidence is accepted exactly when its segments form a chain over the window and each of them meets
it; the charge is then the integral of the allocation, and the guards on the total never refuse. -/
theorem evidence_integrates (start stop : ℤ) (allocation : Amounts) (intervals : List IntervalEvidence) :
    (∀ total, evidencedQuantities start stop allocation intervals = .ok total ↔
      FundedWindow start stop allocation ∧ intervals.length ≤ maxEvidenceIntervals ∧
        ClosesWindow start stop allocation intervals ∧ (∀ x ∈ intervals, x.Touches start stop) ∧
          ∀ i, total i = ∑ second ∈ Finset.Ico start stop, allocatedAt intervals i second) ∧
    (FundedWindow start stop allocation → ∀ s,
      scanIntervals start stop allocation ⟨start, none, fun _ => 0⟩ intervals = .ok s →
        ∀ i, 0 ≤ s.total i ∧ s.total i ≤ allocation i * (stop - start)) ∧
    evidencedQuantities start stop allocation intervals ≠ .error overflowText := by
  have hintegral (hwindow : FundedWindow start stop allocation)
      (hcloses : ClosesWindow start stop allocation intervals)
      (htouches : ∀ x ∈ intervals, x.Touches start stop) (i : Fin 3) :
      (EvidenceScan.run ⟨start, none, fun _ => 0⟩ start stop intervals).total i =
        ∑ second ∈ Finset.Ico start stop, allocatedAt intervals i second := by
    have hoverlap : ∀ x ∈ intervals, 0 ≤ x.overlap start stop := fun x hx => by
      have haccepted : x.Accepted start stop allocation :=
        ⟨hcloses.consistent x hx, htouches x hx, hcloses.reserved x hx⟩
      exact haccepted.overlap_nonneg hwindow.nonempty.le
    rw [run_total, sum_allocatedAt i hoverlap]
    exact zero_add _
  refine ⟨fun total => ⟨fun h => ?_, fun h => ?_⟩, fun hwindow s hscan i => ?_, evidence_ne_overflow⟩
  · have hwindow := funded_of_ok h
    rw [evidencedQuantities_funded hwindow] at h
    split at h
    · cases h
    rename_i hcount
    rw [not_or, not_lt] at hcount
    cases hscan : scanIntervals start stop allocation ⟨start, none, fun _ => 0⟩ intervals with
    | error e =>
      rw [hscan] at h
      cases h
    | ok s =>
      rw [hscan] at h
      change (if _ then _ else _) = _ at h
      split at h
      · cases h
      rename_i hguard
      rw [not_or, not_not] at hguard
      obtain rfl := Except.ok.inj h
      obtain ⟨hcloses, htouches, rfl⟩ := (scan_accepts hwindow).mp ⟨hscan, hguard.1⟩
      exact ⟨hwindow, hcount.2, hcloses, htouches, hintegral hwindow hcloses htouches⟩
  · obtain ⟨hwindow, hcount, hcloses, htouches, htotal⟩ := h
    obtain ⟨hscan, hcursor⟩ := (scan_accepts hwindow).mpr ⟨hcloses, htouches, rfl⟩
    have hwithin := scanIntervals_within hwindow.fits (within_start hwindow.nonempty.le) hscan
    have hnonempty : intervals ≠ [] := by
      rintro rfl
      obtain ⟨x, hx, -⟩ := hcloses.first
      cases hx
    have hnot : ¬(intervals = [] ∨ maxEvidenceIntervals < intervals.length) :=
      not_or.mpr ⟨hnonempty, not_lt.mpr hcount⟩
    rw [evidencedQuantities_funded hwindow, if_neg hnot, hscan]
    change (if _ then _ else _) = _
    rw [if_neg]
    · exact congrArg Except.ok (funext fun i => (hintegral hwindow hcloses htouches i).trans (htotal i).symm)
    · rw [not_or, not_not, not_exists]
      exact ⟨hcursor, fun i => not_lt.mpr (hwithin.guard hwindow i)⟩
  · have hwithin := scanIntervals_within hwindow.fits (within_start hwindow.nonempty.le) hscan
    exact ⟨hwithin.nonneg i, hwithin.guard hwindow i⟩

/-- One unit of each resource, and two from the middle of the window on. -/
def resizedEvidence : List IntervalEvidence :=
  [⟨1, 10, 15, fun _ => 1, fun _ => 5, by decide, by decide⟩,
    ⟨2, 15, 20, fun _ => 2, fun _ => 10, by decide, by decide⟩]

theorem resized_integrates : ∃ total,
    evidencedQuantities 10 20 (fun _ => 2) resizedEvidence = .ok total ∧
      ∀ i, total i = ∑ second ∈ Finset.Ico 10 20, allocatedAt resizedEvidence i second := by
  obtain ⟨hexact, -, -⟩ := evidence_integrates 10 20 (fun _ => 2) resizedEvidence
  exact ⟨_, rfl, ((hexact _).mp rfl).2.2.2.2⟩

/-- A chain over the window that begins with a segment of no second in it. -/
def paddedEvidence : List IntervalEvidence :=
  [⟨1, 0, 5, fun _ => 1, fun _ => 5, by decide, by decide⟩,
    ⟨2, 5, 20, fun _ => 1, fun _ => 15, by decide, by decide⟩]

theorem padding_refused : FundedWindow 10 20 (fun _ => 1) ∧
    ClosesWindow 10 20 (fun _ => 1) paddedEvidence ∧
    evidencedQuantities 10 20 (fun _ => 1) paddedEvidence =
      .error "Sandbox ledger interval is outside funded coverage" := by
  refine ⟨⟨by decide, by decide, by decide, by decide, fun _ => ⟨by simp, by simp⟩⟩, ?_, rfl⟩
  refine ⟨fun x hx => ?_, fun x hx _ _ => ?_, ?_, ⟨_, rfl, by decide⟩, ⟨_, rfl, by decide⟩⟩
  · rcases List.mem_cons.mp hx with rfl | hx
    · exact ⟨by decide, by decide, by decide, by decide, by decide⟩
    · obtain rfl := List.mem_singleton.mp hx
      exact ⟨by decide, by decide, by decide, by decide, by decide⟩
  · rcases List.mem_cons.mp hx with rfl | hx
    · exact le_rfl
    · obtain rfl := List.mem_singleton.mp hx
      exact le_rfl
  · exact .cons_cons ⟨rfl, rfl⟩ (.singleton _)

end NyxId.SandboxRuntime
