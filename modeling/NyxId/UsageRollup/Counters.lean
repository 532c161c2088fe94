import NyxId.UsageRollup.Model
import Mathlib.Data.List.Dedup

/-!
Arithmetic of the fold. Counters that stay at their largest value still add up, so the
order and the grouping of increments do not matter; sums over rows split along the keys.
-/

namespace NyxId.UsageRollup

open Interleave

section

section

variable {m : Measure}

theorem clamp_add_clamp {x y : ℤ} (hx : 0 ≤ x) :
    clamp m (x + clamp m y) = clamp m (x + y) := by
  unfold clamp i64Max
  split
  · rfl
  · omega

theorem clamp_clamp_add {x y : ℤ} (hy : 0 ≤ y) :
    clamp m (clamp m x + y) = clamp m (x + y) := by
  rw [add_comm, clamp_add_clamp hy, add_comm]

theorem clamp_nonneg {x : ℤ} (hx : 0 ≤ x) : 0 ≤ clamp m x := by
  unfold clamp i64Max
  split
  · exact hx
  · omega

theorem clamp_zero : clamp m 0 = 0 := by
  unfold clamp i64Max
  split
  · rfl
  · omega

/-- Parts that stay at their largest value leave the clamped sum as it is. -/
theorem clamp_sum {α : Type} (items : List α) {f : α → ℤ} (hf : ∀ a ∈ items, 0 ≤ f a) :
    clamp m (items.map fun a => clamp m (f a)).sum = clamp m (items.map f).sum := by
  induction items with
  | nil => rfl
  | cons a items ih =>
    obtain ⟨ha, hitems⟩ := List.forall_mem_cons.mp hf
    have hrest : 0 ≤ (items.map f).sum := by
      refine List.sum_nonneg fun x hx => ?_
      obtain ⟨b, hb, rfl⟩ := List.mem_map.mp hx
      exact hitems b hb
    rw [List.map_cons, List.sum_cons, List.map_cons, List.sum_cons,
      ← clamp_add_clamp (clamp_nonneg ha), ih hitems, clamp_add_clamp (clamp_nonneg ha),
      clamp_clamp_add hrest]

theorem foldl_addMeasures {K : Type} (increments : List (K × Measures)) {start : Measures}
    (hnonneg : ∀ increment ∈ increments, 0 ≤ increment.2 m) :
    (increments.foldl (fun total increment => addMeasures total increment.2) start) m =
      if increments = [] then start m
      else clamp m (start m + (increments.map fun increment => increment.2 m).sum) := by
  induction increments generalizing start with
  | nil => rfl
  | cons increment increments ih =>
    obtain ⟨hhead, htail⟩ := List.forall_mem_cons.mp hnonneg
    have hsum : 0 ≤ (increments.map fun increment => increment.2 m).sum := by
      refine List.sum_nonneg fun x hx => ?_
      obtain ⟨increment, hmem, rfl⟩ := List.mem_map.mp hx
      exact htail increment hmem
    have hstep : addMeasures start increment.2 m = clamp m (start m + increment.2 m) := rfl
    rw [List.foldl_cons, ih htail, if_neg (List.cons_ne_nil _ _), List.map_cons, List.sum_cons,
      ← add_assoc, hstep]
    split
    · rename_i hnil
      rw [hnil, List.map_nil, List.sum_nil, add_zero]
    · exact clamp_clamp_add hsum

end

section

variable {rows : Collection Id SourceRow} {chosen other : Id → SourceRow → Bool} {m : Measure}

theorem rowSum_nonneg : 0 ≤ rowSum rows chosen m := by
  refine Collection.sumOf_nonneg _ _ fun id row _ => ?_
  split
  · exact row.nonneg m
  · exact le_refl _

theorem rowSum_congr (h : ∀ id row, rows.lookup id = some row → chosen id row = other id row) :
    rowSum rows chosen m = rowSum rows other m :=
  Collection.sumOf_congr _ _ _ fun id row hrow => by rw [h id row hrow]

theorem rowSum_eq_zero (h : ∀ id row, rows.lookup id = some row → chosen id row = false) :
    rowSum rows chosen m = 0 :=
  Collection.sumOf_eq_zero _ _ fun id row hrow => by rw [h id row hrow]; rfl

/-- A sum over the rows chosen one way or the other, when none is chosen both ways. -/
theorem rowSum_or (hdisjoint : ∀ id row, rows.lookup id = some row → chosen id row = true →
    other id row = false) :
    rowSum rows (fun id row => chosen id row || other id row) m =
      rowSum rows chosen m + rowSum rows other m := by
  unfold rowSum
  rw [← Collection.sumOf_add]
  refine Collection.sumOf_congr _ _ _ fun id row hrow => ?_
  cases hchosen : chosen id row with
  | false => simp only [hchosen, Bool.false_or, Bool.false_eq_true, if_false, zero_add]
  | true =>
    simp only [hchosen, hdisjoint id row hrow hchosen, Bool.or_false, Bool.false_eq_true, if_true, if_false,
      add_zero]

/-- A written row leaves a sum alone when it counts as much as before. -/
theorem rowSum_insert {id : Id} {row : SourceRow}
    (h : Collection.term (fun id row => if chosen id row then row.measures m else 0) rows id =
      if chosen id row then row.measures m else 0) :
    rowSum (rows.insert id row) chosen m = rowSum rows chosen m := by
  unfold rowSum
  rw [Collection.sumOf_insert, h]
  omega

/-- Sums over the rows of different keys add up to the sum over all of them. -/
theorem sum_rowSum {K : Type} [DecidableEq K] {keyOf : SourceRow → K} {keys : List K}
    (hkeys : keys.Nodup) :
    (keys.map fun key => rowSum rows (fun id row => chosen id row && keyOf row = key) m).sum =
      rowSum rows (fun id row => chosen id row && decide (keyOf row ∈ keys)) m := by
  induction keys with
  | nil => exact (rowSum_eq_zero fun id row _ => by simp).symm
  | cons key keys ih =>
    obtain ⟨hkey, hkeys⟩ := List.nodup_cons.mp hkeys
    rw [List.map_cons, List.sum_cons, ih hkeys, ← rowSum_or]
    · refine rowSum_congr fun id row _ => ?_
      cases chosen id row with
      | false => simp
      | true => simp
    · intro id row _ hchosen
      obtain ⟨-, heq⟩ := Bool.and_eq_true_iff.mp hchosen
      have heq : keyOf row = key := of_decide_eq_true heq
      simp [heq, hkey]

end

section

variable {K : Type} [DecidableEq K]

/-- What increments add to one measure of a summary. -/
def deltaOf (increments : List (K × Measures)) (key : K) (m : Measure) : ℤ :=
  (increments.lookup key).elim 0 fun delta => delta m

theorem lookup_eq_some_iff {increments : List (K × Measures)} (hkeys : (increments.map Prod.fst).Nodup)
    {key : K} {delta : Measures} :
    increments.lookup key = some delta ↔ (key, delta) ∈ increments := by
  induction increments with
  | nil => simp
  | cons increment increments ih =>
    obtain ⟨other, measures⟩ := increment
    obtain ⟨hother, hkeys⟩ := List.nodup_cons.mp hkeys
    by_cases heq : key = other
    · subst heq
      rw [List.lookup_cons_self, List.mem_cons]
      constructor
      · intro h
        cases h
        exact Or.inl rfl
      · rintro (h | h)
        · cases h
          rfl
        · exact absurd (List.mem_map_of_mem h) hother
    · rw [List.lookup_cons, beq_false_of_ne heq]
      simp only [List.mem_cons, Prod.mk.injEq, heq, false_and, false_or]
      exact ih hkeys

theorem lookup_eq_none_iff {increments : List (K × Measures)} {key : K} :
    increments.lookup key = none ↔ key ∉ increments.map Prod.fst := by
  rw [List.lookup_eq_none_iff]
  constructor
  · intro h hmem
    obtain ⟨increment, hincrement, rfl⟩ := List.mem_map.mp hmem
    simpa using h increment hincrement
  · intro h increment hincrement
    have hne : key ≠ increment.1 := fun heq => h (heq ▸ List.mem_map_of_mem hincrement)
    simpa using hne

/-- Increments that are given key by key. -/
theorem deltaOf_map {keys : List K} (hkeys : keys.Nodup) (f : K → Measures) (key : K) (m : Measure) :
    deltaOf (keys.map fun key => (key, f key)) key m = if key ∈ keys then f key m else 0 := by
  have hfst : (keys.map fun key => (key, f key)).map Prod.fst = keys := by
    rw [List.map_map]
    exact List.map_id keys
  unfold deltaOf
  by_cases hkey : key ∈ keys
  · have hlookup : (keys.map fun key => (key, f key)).lookup key = some (f key) :=
      (lookup_eq_some_iff (by rw [hfst]; exact hkeys)).mpr (List.mem_map.mpr ⟨key, hkey, rfl⟩)
    rw [hlookup, if_pos hkey]
    rfl
  · rw [lookup_eq_none_iff.mpr (by rw [hfst]; exact hkey), if_neg hkey]
    rfl

end

section

variable {rows : Collection Id SourceRow} {chosen : Id → SourceRow → Bool}
  {increments : List (HourKey × Measures)} {m : Measure}

/-- Increments hold the chosen rows, each under its key. -/
structure Holds (rows : Collection Id SourceRow) (chosen : Id → SourceRow → Bool)
    (increments : List (HourKey × Measures)) : Prop where
  nodup : (increments.map Prod.fst).Nodup
  covers : ∀ id row, rows.lookup id = some row → chosen id row = true →
    row.key ∈ increments.map Prod.fst
  deltas : ∀ key m, deltaOf increments key m =
    clamp m (rowSum rows (fun id row => chosen id row && row.key = key) m)

theorem Holds.deltaOf_nonneg (h : Holds rows chosen increments) (key : HourKey) :
    0 ≤ deltaOf increments key m := by
  rw [h.deltas]
  exact clamp_nonneg rowSum_nonneg

/-- The increments of the days hold the same rows. -/
theorem Holds.daily (h : Holds rows chosen increments) (key : DayKey) :
    deltaOf (dailyIncrements increments) key m =
      clamp m (rowSum rows (fun id row => chosen id row && row.key.dayKey = key) m) := by
  have hfound : ∀ increment ∈ increments, increment.2 m = deltaOf increments increment.1 m := by
    intro increment hincrement
    unfold deltaOf
    rw [(lookup_eq_some_iff h.nodup).mpr hincrement]
    rfl
  unfold dailyIncrements
  rw [deltaOf_map (List.nodup_dedup _)]
  simp only [List.mem_dedup]
  split
  · have hnonneg : ∀ increment ∈ increments.filter fun increment => increment.1.dayKey = key,
        0 ≤ increment.2 m := by
      intro increment hincrement
      rw [hfound increment (List.mem_filter.mp hincrement).1]
      exact h.deltaOf_nonneg increment.1
    have hkeys : ((increments.filter fun increment => increment.1.dayKey = key).map Prod.fst).Nodup :=
      (List.filter_sublist.map Prod.fst).nodup h.nodup
    have hsum : ((increments.filter fun increment => increment.1.dayKey = key).map fun increment =>
        increment.2 m) = ((increments.filter fun increment => increment.1.dayKey = key).map
          Prod.fst).map fun hourKey =>
            clamp m (rowSum rows (fun id row => chosen id row && row.key = hourKey) m) := by
      rw [List.map_map]
      refine List.map_congr_left fun increment hincrement => ?_
      rw [hfound increment (List.mem_filter.mp hincrement).1, h.deltas]
      rfl
    rw [foldl_addMeasures _ hnonneg]
    have hne : (increments.filter fun increment => increment.1.dayKey = key) ≠ [] := by
      rename_i hmem
      obtain ⟨increment, hincrement, hday⟩ := List.mem_map.mp hmem
      exact List.ne_nil_of_mem (List.mem_filter.mpr ⟨hincrement, decide_eq_true hday⟩)
    rw [if_neg hne, hsum, show noMeasures m = 0 from rfl, zero_add,
      clamp_sum _ fun _ _ => rowSum_nonneg, sum_rowSum hkeys]
    congr 1
    refine rowSum_congr fun id row hrow => ?_
    cases hchosen : chosen id row with
    | false => rfl
    | true =>
      have hcovered := h.covers id row hrow hchosen
      have hiff : row.key ∈ (increments.filter fun increment => increment.1.dayKey = key).map Prod.fst ↔
          row.key.dayKey = key := by
        constructor
        · intro hmem
          obtain ⟨increment, hincrement, heq⟩ := List.mem_map.mp hmem
          rw [← heq]
          exact of_decide_eq_true (List.mem_filter.mp hincrement).2
        · intro hday
          obtain ⟨increment, hincrement, heq⟩ := List.mem_map.mp hcovered
          refine List.mem_map.mpr ⟨increment, List.mem_filter.mpr ⟨hincrement, ?_⟩, heq⟩
          rw [heq]
          exact decide_eq_true hday
      simp only [hiff]
  · rename_i hmem
    rw [rowSum_eq_zero, clamp_zero]
    intro id row hrow
    cases hchosen : chosen id row with
    | false => rfl
    | true =>
      have hne : row.key.dayKey ≠ key := by
        rintro rfl
        obtain ⟨increment, hincrement, heq⟩ := List.mem_map.mp (h.covers id row hrow hchosen)
        exact hmem (List.mem_map.mpr ⟨increment, hincrement, by rw [heq]⟩)
      rw [Bool.true_and]
      exact decide_eq_false hne

/-- The grouped increments hold the rows of the claim. -/
theorem holds_rawIncrements (ids : List Id) :
    Holds rows (fun id _ => ids.contains id) (rawIncrements rows ids) := by
  have hfst : (rawIncrements rows ids).map Prod.fst =
      (ids.filterMap fun id => (rows.lookup id).map SourceRow.key).dedup := by
    unfold rawIncrements
    rw [List.map_map]
    exact List.map_id _
  have hcovers : ∀ id row, rows.lookup id = some row → ids.contains id = true →
      row.key ∈ (ids.filterMap fun id => (rows.lookup id).map SourceRow.key).dedup := by
    intro id row hrow hid
    rw [List.mem_dedup]
    refine List.mem_filterMap.mpr ⟨id, by simpa using hid, ?_⟩
    rw [hrow]
    rfl
  refine ⟨?_, ?_, fun key m => ?_⟩
  · rw [hfst]
    exact List.nodup_dedup _
  · rw [hfst]
    exact hcovers
  · unfold rawIncrements
    rw [deltaOf_map (List.nodup_dedup _)]
    split
    · rfl
    · rename_i hkey
      rw [rowSum_eq_zero, clamp_zero]
      intro id row hrow
      cases hid : ids.contains id with
      | false => rfl
      | true =>
        have hne : row.key ≠ key := by
          rintro rfl
          exact hkey (hcovers id row hrow hid)
        rw [Bool.true_and]
        exact decide_eq_false hne

end

end

/-!
One tier of summaries while a batch is applied to it. The measures of a summary are what
earlier batches counted, and its share of the current batch once its fence has the number
of that batch.
-/

variable {K : Type} [DecidableEq K]

def measureOf (tier : Collection K Summary) (key : K) (m : Measure) : ℤ :=
  (tier.lookup key).elim 0 fun summary => summary.measures m

/-- The part of the current batch that a summary already holds. -/
def share (tier : Collection K Summary) (top : ℤ) (increments : List (K × Measures)) (key : K)
    (m : Measure) : ℤ :=
  if (tier.lookup key).any fun summary => summary.lastBatch = top then deltaOf increments key m
  else 0

/-- The summaries of a tier over what earlier batches counted. -/
structure Tier (tier : Collection K Summary) (base : K → Measure → ℤ) (top : ℤ)
    (increments : List (K × Measures)) : Prop where
  values : ∀ key m, measureOf tier key m = clamp m (base key m + share tier top increments key m)
  fences : ∀ key summary, tier.lookup key = some summary →
    summary.lastBatch ≤ top ∧ (summary.lastBatch = top → key ∈ increments.map Prod.fst)

variable {tier : Collection K Summary} {base : K → Measure → ℤ} {top : ℤ}
  {increments : List (K × Measures)}

theorem lookup_insertSummary_of_some {key : K} {summary : Summary}
    (h : tier.lookup key = some summary) : insertSummary tier key = tier := by
  unfold insertSummary
  rw [h]

theorem measureOf_of_some {key : K} {summary : Summary} (h : tier.lookup key = some summary)
    (m : Measure) : measureOf tier key m = summary.measures m := by
  unfold measureOf
  rw [h]
  rfl

theorem share_of_some {key : K} {summary : Summary} (h : tier.lookup key = some summary)
    (m : Measure) : share tier top increments key m =
      if summary.lastBatch = top then deltaOf increments key m else 0 := by
  unfold share
  simp only [h, Option.any_some, decide_eq_true_eq]

@[simp] theorem share_nil (key : K) (m : Measure) : share tier top [] key m = 0 := ite_self _

theorem Tier.congr {base' : K → Measure → ℤ} (h : Tier tier base top increments)
    (hbase : ∀ key m, base key m = base' key m) : Tier tier base' top increments :=
  ⟨fun key m => by rw [← hbase]; exact h.values key m, h.fences⟩

/-- Between batches a summary is what the earlier ones counted. -/
theorem Tier.measureOf_eq (h : Tier tier base top []) (key : K) (m : Measure) :
    measureOf tier key m = clamp m (base key m) := by
  rw [h.values, share_nil, add_zero]

theorem Tier.measures_eq (h : Tier tier base top increments) {key : K} {summary : Summary}
    (hsummary : tier.lookup key = some summary) (m : Measure) :
    summary.measures m = clamp m (base key m +
      if summary.lastBatch = top then deltaOf increments key m else 0) := by
  rw [← measureOf_of_some hsummary, h.values, share_of_some hsummary]

/-- A summary may be replaced by one that holds what it should. -/
theorem Tier.set (h : Tier tier base top increments) {key : K} {summary : Summary}
    (hmeasures : ∀ m, summary.measures m = clamp m (base key m +
      if summary.lastBatch = top then deltaOf increments key m else 0))
    (hfence : summary.lastBatch ≤ top ∧
      (summary.lastBatch = top → key ∈ increments.map Prod.fst)) :
    Tier (tier.insert key summary) base top increments := by
  constructor
  · intro other m
    by_cases hother : other = key
    · subst hother
      rw [measureOf_of_some (AList.lookup_insert tier), share_of_some (AList.lookup_insert tier)]
      exact hmeasures m
    · have hvalue := h.values other m
      unfold measureOf share at hvalue ⊢
      rw [AList.lookup_insert_ne hother]
      exact hvalue
  · intro other found hfound
    rcases Collection.lookup_insert_cases hfound with ⟨rfl, rfl⟩ | ⟨-, hfound⟩
    · exact hfence
    · exact h.fences other found hfound

/-- An initialized summary counts nothing yet. -/
theorem Tier.insert (h : Tier tier base top increments) (htop : 0 < top) (key : K) :
    Tier (insertSummary tier key) base top increments := by
  cases hkey : tier.lookup key with
  | some summary =>
    rw [lookup_insertSummary_of_some hkey]
    exact h
  | none =>
    have hinsert : insertSummary tier key = tier.insert key ⟨noMeasures, 0, none⟩ := by
      unfold insertSummary
      rw [hkey]
    rw [hinsert]
    refine h.set (fun m => ?_) ⟨htop.le, fun heq => absurd heq htop.ne⟩
    have hvalue := h.values key m
    unfold measureOf share at hvalue
    rw [hkey] at hvalue
    rw [if_neg htop.ne]
    exact hvalue

/-- A summary behind the fence takes its increment once. -/
theorem Tier.add (h : Tier tier base top increments)
    (hnonneg : ∀ key m, 0 ≤ deltaOf increments key m) (complete : Bool) (key : K) :
    Tier (addIncrement top complete increments tier key) base top increments := by
  unfold addIncrement
  split
  · rename_i summary delta hsummary hdelta
    split
    · rename_i hfence
      have hkey : key ∈ increments.map Prod.fst := by
        by_contra hmem
        rw [lookup_eq_none_iff.mpr hmem] at hdelta
        cases hdelta
      have hdeltaOf (m : Measure) : deltaOf increments key m = delta m := by
        unfold deltaOf
        rw [hdelta]
        rfl
      refine h.set (fun m => ?_) ⟨le_refl _, fun _ => hkey⟩
      have hold := h.measures_eq hsummary m
      rw [if_neg hfence.ne, add_zero] at hold
      rw [if_pos rfl, hdeltaOf]
      show addMeasures summary.measures delta m = _
      unfold addMeasures addMeasure
      rw [hold, clamp_clamp_add (by rw [← hdeltaOf]; exact hnonneg key m)]
    · exact h
  · exact h

/-- A fresh batch has touched no summary. -/
theorem Tier.publish (h : Tier tier base top []) (increments : List (K × Measures)) :
    Tier tier base top increments := by
  have hfence : ∀ key summary, tier.lookup key = some summary → summary.lastBatch ≠ top := by
    intro key summary hsummary heq
    exact absurd ((h.fences key summary hsummary).2 heq) List.not_mem_nil
  constructor
  · intro key m
    cases hsummary : tier.lookup key with
    | none =>
      have hnone : share tier top increments key m = 0 := by
        unfold share
        simp only [hsummary, Option.any_none, Bool.false_eq_true, if_false]
      rw [h.measureOf_eq, hnone, add_zero]
    | some summary =>
      rw [h.measureOf_eq, share_of_some hsummary, if_neg (hfence key summary hsummary), add_zero]
  · intro key summary hsummary
    exact ⟨(h.fences key summary hsummary).1, fun heq => absurd heq (hfence key summary hsummary)⟩

/-- When every summary of a batch has its number, the batch is counted. -/
theorem Tier.retire {base' : K → Measure → ℤ} (h : Tier tier base top increments)
    (counted : K → Measure → ℤ)
    (hdone : ∀ key ∈ increments.map Prod.fst, ∃ summary, tier.lookup key = some summary ∧
      top ≤ summary.lastBatch)
    (hdelta : ∀ key m, deltaOf increments key m = clamp m (counted key m))
    (hnonneg : ∀ key m, 0 ≤ base key m)
    (hbase : ∀ key m, base' key m = base key m + counted key m) :
    Tier tier base' (top + 1) [] := by
  have hshare : ∀ key m, share tier top increments key m = deltaOf increments key m := by
    intro key m
    by_cases hkey : key ∈ increments.map Prod.fst
    · obtain ⟨summary, hsummary, hle⟩ := hdone key hkey
      have heq : summary.lastBatch = top := le_antisymm (h.fences key summary hsummary).1 hle
      rw [share_of_some hsummary, if_pos heq]
    · unfold share deltaOf
      rw [lookup_eq_none_iff.mpr hkey]
      exact ite_self _
  have hfence : ∀ key summary, tier.lookup key = some summary → summary.lastBatch < top + 1 :=
    fun key summary hsummary => Int.lt_add_one_of_le (h.fences key summary hsummary).1
  constructor
  · intro key m
    rw [h.values, hshare, hdelta, clamp_add_clamp (hnonneg key m), share_nil, hbase, add_zero]
  · intro key summary hsummary
    have hlt := hfence key summary hsummary
    exact ⟨hlt.le, fun heq => absurd heq hlt.ne⟩

end NyxId.UsageRollup
