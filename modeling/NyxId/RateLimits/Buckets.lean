import NyxId.RateLimits.Model

/-!
A token bucket admits no more than its burst and what was refilled meanwhile. What a bucket holds
and what was admitted since any moment is paid for by the capacity and the refill since then, and
an expired bucket is full, so that deleting it changes nothing.
-/

namespace NyxId.RateLimits

open Coordination

def refillUnits (refillTokens : UInt32) (periodMs : ℕ) : ℤ :=
  refillTokens.toNat * tokenScale / periodMs

def capacityOf (burst : UInt32) : ℤ := burst.toNat * tokenScale

/-- What a bucket holds at a time, without the bounds of any integer type. -/
def available (units capacity : ℤ) (doc : Option TokenBucketRecord) (now : ℤ) : ℤ :=
  doc.elim capacity fun record =>
    min capacity (record.tokensMillis + (now - record.lastRefillAt) * units)

/-- The admitted requests between two times. -/
def admittedIn (first last : ℤ) (trace : List (ℤ × Bool)) : ℕ :=
  trace.countP fun answer => answer.2 && first ≤ answer.1 && answer.1 ≤ last

def admittedSince (first : ℤ) (trace : List (ℤ × Bool)) : ℕ :=
  trace.countP fun answer => answer.2 && first ≤ answer.1

/-! ### Arithmetic of the update -/

section Arithmetic

variable {toDouble : ℤ → ℤ} {capacity tokens refill : ℤ}

theorem promoted_of_fits {x : ℤ} (hlow : 0 ≤ x) (hhigh : x < 2 ^ 63) : promoted toDouble x = x := by
  have hfits : checkedI64 x = some x := checkedI64_eq_some.mpr ⟨rfl, by omega, hhigh⟩
  rw [promoted, hfits, Option.getD_some]

theorem promoted_of_large (hdouble : ∀ x, 2 ^ 63 ≤ x → 2 ^ 63 ≤ toDouble x) {x : ℤ}
    (h : 2 ^ 63 ≤ x) : 2 ^ 63 ≤ promoted toDouble x := by
  have hnone : checkedI64 x = none := by rw [checkedI64, if_neg (by omega)]
  rw [promoted, hnone, Option.getD_none]
  exact hdouble x h

/-- Beyond 64 bits the capacity is the least, as it is for the exact sum. -/
theorem min_promoted (hdouble : ∀ x, 2 ^ 63 ≤ x → 2 ^ 63 ≤ toDouble x) (htokens : 0 ≤ tokens)
    (hcapacity : capacity < 2 ^ 63) (hrefill : 0 ≤ refill) :
    min capacity (promoted toDouble (tokens + promoted toDouble refill)) =
      min capacity (tokens + refill) := by
  by_cases hproduct : refill < 2 ^ 63
  · rw [promoted_of_fits hrefill hproduct]
    by_cases hsum : tokens + refill < 2 ^ 63
    · rw [promoted_of_fits (by omega) hsum]
    · have hlarge := promoted_of_large hdouble (show 2 ^ 63 ≤ tokens + refill by omega)
      omega
  · have hlarge := promoted_of_large hdouble (show 2 ^ 63 ≤ refill by omega)
    have hlarger := promoted_of_large hdouble
      (show 2 ^ 63 ≤ tokens + promoted toDouble refill by omega)
    omega

end Arithmetic

/-! ### One update -/

section Updates

variable {toDouble : ℤ → ℤ} {sha256 : List UInt8 → Vector UInt8 32}
  {space key keyHash id : String} {refillTokens burst : UInt32} {refillPeriod : ℕ}
  {units capacity retentionMs now later : ℤ} {before next : Option TokenBucketRecord}
  {record : TokenBucketRecord} {admitted : Bool}

/-- A stored amount is between nothing and the capacity, of a time that has passed, and is full
again when the document expires. -/
structure Sound (units capacity now : ℤ) (record : TokenBucketRecord) : Prop where
  nonneg : 0 ≤ record.tokensMillis
  le : record.tokensMillis ≤ capacity
  past : record.lastRefillAt ≤ now
  retained : capacity ≤ (record.expiresAt - record.lastRefillAt) * units

/-- What an answered request makes of the document. -/
structure BucketUpdate (units capacity now : ℤ) (id : String) (before : Option TokenBucketRecord)
    (record : TokenBucketRecord) : Prop where
  tokens : record.tokensMillis = if tokenScale ≤ available units capacity before now then
    available units capacity before now - tokenScale else available units capacity before now
  admission : record.lastAdmissionId = if tokenScale ≤ available units capacity before now then
    some id else before.bind (·.lastAdmissionId)
  refilled : record.lastRefillAt = now
  sound : Sound units capacity now record

theorem available_le_capacity (units capacity now : ℤ) (before : Option TokenBucketRecord) :
    available units capacity before now ≤ capacity := by
  cases before with
  | none => exact le_rfl
  | some r => exact min_le_left _ _

theorem available_nonneg (hcapacity : 0 ≤ capacity) (hunits : 0 < units)
    (hsound : ∀ r ∈ before, Sound units capacity now r) :
    0 ≤ available units capacity before now := by
  cases before with
  | none => exact hcapacity
  | some r =>
    have hr := hsound r rfl
    have hrefill : 0 ≤ (now - r.lastRefillAt) * units :=
      mul_nonneg (sub_nonneg.mpr hr.past) hunits.le
    have htokens := hr.nonneg
    exact le_min hcapacity (by omega)

/-- Waiting refills at most at the rate. -/
theorem available_later (capacity : ℤ) (before : Option TokenBucketRecord) (hunits : 0 < units) (hle : now ≤ later) :
    available units capacity before later ≤
      available units capacity before now + (later - now) * units := by
  have hgain : 0 ≤ (later - now) * units := mul_nonneg (sub_nonneg.mpr hle) hunits.le
  cases before with
  | none =>
    show capacity ≤ capacity + _
    omega
  | some r =>
    have hsplit : (later - r.lastRefillAt) * units =
        (now - r.lastRefillAt) * units + (later - now) * units := by ring
    show min capacity _ ≤ min capacity _ + _
    rw [hsplit]
    omega

/-- An expired bucket is full. -/
theorem available_of_expired (hunits : 0 < units) (hsound : Sound units capacity now record)
    (hexpired : record.expiresAt ≤ now) :
    available units capacity (some record) now = capacity := by
  have hrefill : (record.expiresAt - record.lastRefillAt) * units ≤
      (now - record.lastRefillAt) * units := mul_le_mul_of_nonneg_right (by omega) hunits.le
  have hretained := hsound.retained
  have hnonneg := hsound.nonneg
  show min capacity _ = _
  omega

theorem tokenBucket_update (hdouble : ∀ x, 2 ^ 63 ≤ x → 2 ^ 63 ≤ toDouble x)
    (hunits : 0 < units) (hcapacity : 0 ≤ capacity) (hfits : capacity < 2 ^ 63)
    (hretention : capacity ≤ retentionMs * units)
    (hsound : ∀ r ∈ before, Sound units capacity now r)
    (h : tokenBucket toDouble space keyHash id units capacity retentionMs now before =
      some record) : BucketUpdate units capacity now id before record := by
  obtain ⟨elapsed, helapsed, hrest⟩ := Option.bind_eq_some_iff.mp h
  obtain ⟨expiresAt, hexpires, hrecord⟩ := Option.bind_eq_some_iff.mp hrest
  obtain ⟨rfl, -⟩ := checkedI64_eq_some.mp helapsed
  obtain ⟨rfl, -⟩ := checkedI64_eq_some.mp hexpires
  have hexact : min capacity (promoted toDouble ((before.map (·.tokensMillis)).getD capacity +
      promoted toDouble (max 0 (now - (before.map (·.lastRefillAt)).getD now) * units))) =
      available units capacity before now := by
    cases before with
    | none =>
      simp only [Option.map_none, Option.getD_none, sub_self, max_self, zero_mul]
      rw [min_promoted hdouble hcapacity hfits le_rfl, add_zero, min_self]
      rfl
    | some r =>
      have hr := hsound r rfl
      have hpast := hr.past
      have helapsed : max 0 (now - r.lastRefillAt) = now - r.lastRefillAt := by omega
      simp only [Option.map_some, Option.getD_some]
      rw [min_promoted hdouble hr.nonneg hfits (mul_nonneg (le_max_left _ _) hunits.le), helapsed]
      rfl
  have hnonneg := available_nonneg hcapacity hunits hsound
  have hle := available_le_capacity units capacity now before
  have hwritten := Option.some.inj hrecord
  rw [hexact] at hwritten
  have htokens : record.tokensMillis = if tokenScale ≤ available units capacity before now then
      available units capacity before now - tokenScale else available units capacity before now :=
    congrArg (·.tokensMillis) hwritten.symm
  have hrefilled : record.lastRefillAt = now := congrArg (·.lastRefillAt) hwritten.symm
  have hexpiresAt : record.expiresAt = now + retentionMs :=
    congrArg (·.expiresAt) hwritten.symm
  refine ⟨htokens, congrArg (·.lastAdmissionId) hwritten.symm, hrefilled, ⟨?_, ?_, ?_, ?_⟩⟩
  · rw [htokens]
    split <;> omega
  · rw [htokens]
    unfold tokenScale
    split <;> omega
  · rw [hrefilled]
  · rw [hexpiresAt, hrefilled, add_sub_cancel_left]
    exact hretention

theorem retention_covers (hunits : 0 < units) (hcapacity : 0 ≤ capacity)
    (hunitsFit : units < 2 ^ 60) (hcapacityFits : capacity < 2 ^ 60) :
    capacity ≤ saturatingI64 (max (saturatingI64 (capacity + (units - 1)) / units) 1000 * 2) *
      units := by
  have hsum : saturatingI64 (capacity + (units - 1)) = capacity + (units - 1) := by
    unfold saturatingI64
    omega
  rw [hsum]
  have hlow := Int.lt_ediv_add_one_mul_self (capacity + (units - 1)) hunits
  have hquotient : (capacity + (units - 1)) / units ≤ capacity + (units - 1) :=
    Int.ediv_le_self _ (by omega)
  have hnonneg : 0 ≤ (capacity + (units - 1)) / units := Int.ediv_nonneg (by omega) hunits.le
  rw [add_mul, one_mul] at hlow
  generalize (capacity + (units - 1)) / units = refillMs at hlow hquotient hnonneg ⊢
  have hretention : refillMs ≤ saturatingI64 (max refillMs 1000 * 2) := by
    unfold saturatingI64
    omega
  have hmul := mul_le_mul_of_nonneg_right hretention hunits.le
  omega

/-- Whole parameters, as the store reads them. -/
structure Refills (refillTokens burst : UInt32) (refillPeriod : ℕ) : Prop where
  refill : refillTokens ≠ 0
  burst : burst ≠ 0
  units : 0 < refillUnits refillTokens refillPeriod

theorem capacityOf_bounds (burst : UInt32) : 0 ≤ capacityOf burst ∧ capacityOf burst < 2 ^ 60 := by
  have hlt := burst.toNat_lt
  unfold capacityOf tokenScale
  omega

theorem refillUnits_lt (refillTokens : UInt32) (refillPeriod : ℕ) :
    refillUnits refillTokens refillPeriod < 2 ^ 60 := by
  have hlt := refillTokens.toNat_lt
  have hle : (refillTokens.toNat * tokenScale) / (refillPeriod : ℤ) ≤
      refillTokens.toNat * tokenScale := Int.ediv_le_self _ (by unfold tokenScale; omega)
  unfold refillUnits
  unfold tokenScale at hle ⊢
  omega

/-- A request leaves the document alone and is refused, or updates it with whole parameters. -/
theorem bucketStore_answer (hdouble : ∀ x, 2 ^ 63 ≤ x → 2 ^ 63 ≤ toDouble x)
    (hsound : ∀ r ∈ before,
      Sound (refillUnits refillTokens refillPeriod) (capacityOf burst) now r)
    (h : (bucketStore toDouble sha256 space key refillTokens refillPeriod burst).answer now id
      before = some (next, admitted)) :
    (next = before ∧ admitted = false ∧ (refillTokens = 0 ∨ burst = 0)) ∨
      Refills refillTokens burst refillPeriod ∧ ∃ record, next = some record ∧
        BucketUpdate (refillUnits refillTokens refillPeriod) (capacityOf burst) now id before
          record ∧
        admitted = (record.lastAdmissionId == some id) := by
  unfold bucketStore at h
  simp only at h
  split at h
  · next record admission hadmit =>
    simp only [Option.some.injEq, Prod.mk.injEq] at h
    obtain ⟨rfl, rfl⟩ := h
    unfold admitOverPeriod at hadmit
    by_cases hidle : refillTokens = 0 ∨ burst = 0
    · rw [if_pos hidle] at hadmit
      obtain ⟨rfl, rfl⟩ := Prod.mk.inj (Except.ok.inj hadmit)
      exact .inl ⟨rfl, rfl, hidle⟩
    · rw [if_neg hidle] at hadmit
      obtain ⟨periodMs, hperiod, hrest⟩ := bind_eq_ok.mp hadmit
      obtain ⟨rfl, -, -⟩ := durationMillis_ok hperiod
      obtain ⟨refill, hrefill, hrest⟩ := bind_eq_ok.mp hrest
      obtain ⟨rfl, -⟩ := checkedI64_eq_some.mp (okOr_eq_ok.mp hrefill)
      obtain ⟨units, hunits, hrest⟩ := bind_eq_ok.mp hrest
      obtain ⟨hvalue, hpos⟩ := Option.filter_eq_some_iff.mp (okOr_eq_ok.mp hunits)
      obtain ⟨capacity, hcapacity, hrest⟩ := bind_eq_ok.mp hrest
      obtain ⟨rfl, -⟩ := checkedI64_eq_some.mp (okOr_eq_ok.mp hcapacity)
      obtain ⟨written, hwritten, hrest⟩ := bind_eq_ok.mp hrest
      obtain ⟨rfl, rfl⟩ := Prod.mk.inj (Except.ok.inj hrest)
      have hunitsEq : refillUnits refillTokens periodMs = units := Option.some.inj hvalue
      have hpositive : 0 < units := by simpa using hpos
      rw [← hunitsEq] at hpositive hwritten
      have hbounds := capacityOf_bounds burst
      have hlt := refillUnits_lt refillTokens periodMs
      have hcovers := retention_covers hpositive hbounds.1 hlt hbounds.2
      refine .inr ⟨⟨fun h => hidle (.inl h), fun h => hidle (.inr h), hpositive⟩, written, rfl, ?_,
        rfl⟩
      exact tokenBucket_update hdouble hpositive hbounds.1 (by omega) hcovers hsound
        (okOr_eq_ok.mp hwritten)
  · simp at h

end Updates

/-! ### Runs -/

section Counts

variable {first last now : ℤ} {trace : List (ℤ × Bool)} {admitted : Bool}

theorem admittedIn_concat : admittedIn first last (trace ++ [(now, admitted)]) =
    admittedIn first last trace + if admitted ∧ first ≤ now ∧ now ≤ last then 1 else 0 := by
  unfold admittedIn
  rw [List.countP_append, List.countP_singleton]
  simp [and_assoc]

theorem admittedSince_concat : admittedSince first (trace ++ [(now, admitted)]) =
    admittedSince first trace + if admitted ∧ first ≤ now then 1 else 0 := by
  unfold admittedSince
  rw [List.countP_append, List.countP_singleton]
  simp

theorem admittedIn_le (first last : ℤ) (trace : List (ℤ × Bool)) :
    admittedIn first last trace ≤ admittedSince first trace := by
  apply List.countP_mono_left
  intro answer _ h
  simp only [Bool.and_eq_true, decide_eq_true_eq] at h ⊢
  exact h.1

theorem admittedSince_eq_zero (h : ∀ answer ∈ trace, answer.1 < first) :
    admittedSince first trace = 0 := by
  unfold admittedSince
  rw [List.countP_eq_zero]
  intro answer hanswer
  have hlt := h answer hanswer
  simp only [Bool.and_eq_true, decide_eq_true_eq, not_and]
  omega

end Counts

/-- What was admitted and what is left is paid by the capacity and the refill since any time. -/
structure BucketInv (units capacity : ℤ) (trace : List (ℤ × Bool)) (now : ℤ) (used : List String)
    (doc : Option TokenBucketRecord) : Prop where
  sound : ∀ r ∈ doc, Sound units capacity now r
  ids : ∀ r ∈ doc, ∀ id ∈ r.lastAdmissionId, id ∈ used
  spent : ∀ first, tokenScale * admittedSince first trace + available units capacity doc now ≤
    capacity + max 0 (now - first) * units
  bounded : ∀ first last, first ≤ last →
    tokenScale * admittedIn first last trace ≤ capacity + (last - first) * units

section Runs

variable {toDouble : ℤ → ℤ} {sha256 : List UInt8 → Vector UInt8 32} {space key id : String}
  {refillTokens burst : UInt32} {refillPeriod : ℕ} {units capacity now later : ℤ}
  {trace : List (ℤ × Bool)} {used : List String} {doc : Option TokenBucketRecord}
  {record : TokenBucketRecord}

theorem Sound.wait (h : Sound units capacity now record) (hle : now ≤ later) :
    Sound units capacity later record := ⟨h.nonneg, h.le, h.past.trans hle, h.retained⟩

theorem BucketInv.wait (h : BucketInv units capacity trace now used doc) (hunits : 0 < units)
    (htimes : ∀ answer ∈ trace, answer.1 ≤ now) (hle : now ≤ later) :
    BucketInv units capacity trace later used doc where
  sound r hr := (h.sound r hr).wait hle
  ids := h.ids
  spent := by
    intro first
    by_cases hstarted : first ≤ now
    · have hspent := h.spent first
      have hgain := available_later capacity doc hunits hle
      have hnow : max 0 (now - first) = now - first := by omega
      have hlater : max 0 (later - first) = later - first := by omega
      have hsplit : (later - first) * units = (now - first) * units + (later - now) * units := by
        ring
      rw [hnow] at hspent
      rw [hlater, hsplit]
      omega
    · -- nothing was admitted since a time that has not come
      have hzero : admittedSince first trace = 0 :=
        admittedSince_eq_zero fun answer hanswer => by
          have htime := htimes answer hanswer
          omega
      have hcapacity := available_le_capacity units capacity later doc
      have hgain : 0 ≤ max 0 (later - first) * units :=
        mul_nonneg (le_max_left _ _) hunits.le
      rw [hzero, Nat.cast_zero, mul_zero]
      omega
  bounded := h.bounded

theorem BucketInv.expire (h : BucketInv units capacity trace now used (some record))
    (hunits : 0 < units) (hexpired : record.expiresAt ≤ now) :
    BucketInv units capacity trace now used none where
  sound r hr := by simp at hr
  ids r hr := by simp at hr
  spent first := by
    have hspent := h.spent first
    rw [available_of_expired hunits (h.sound record rfl) hexpired] at hspent
    exact hspent
  bounded := h.bounded

theorem BucketInv.admitted_eq (h : BucketInv units capacity trace now used doc)
    (hid : id ∉ used) (hupdate : BucketUpdate units capacity now id doc record) :
    (record.lastAdmissionId == some id) = decide (tokenScale ≤ available units capacity doc now) := by
  have hadmission := hupdate.admission
  by_cases hfull : tokenScale ≤ available units capacity doc now
  · rw [hadmission, if_pos hfull, decide_eq_true hfull]
    simp
  · rw [hadmission, if_neg hfull, decide_eq_false hfull, beq_eq_false_iff_ne]
    intro hsome
    obtain ⟨r, hr, hlast⟩ := Option.bind_eq_some_iff.mp hsome
    exact hid (h.ids r hr id hlast)

theorem BucketUpdate.available_eq (h : BucketUpdate units capacity now id doc record) :
    available units capacity (some record) now = record.tokensMillis := by
  have hle := h.sound.le
  show min capacity (record.tokensMillis + (now - record.lastRefillAt) * units) = _
  rw [h.refilled, sub_self, zero_mul, add_zero]
  omega

/-- A request pays for its admission with a token of what was available. -/
theorem BucketInv.request_spent (h : BucketInv units capacity trace now used doc)
    (hid : id ∉ used) (hupdate : BucketUpdate units capacity now id doc record) (first : ℤ) :
    tokenScale * (admittedSince first
      (trace ++ [(now, record.lastAdmissionId == some id)]) : ℤ) +
      available units capacity (some record) now ≤ capacity + max 0 (now - first) * units := by
  have hspent := h.spent first
  have htokens := hupdate.tokens
  rw [h.admitted_eq hid hupdate, hupdate.available_eq, admittedSince_concat]
  simp only [decide_eq_true_eq]
  by_cases hfull : tokenScale ≤ available units capacity doc now
  · rw [if_pos hfull] at htokens
    by_cases hstarted : first ≤ now
    · rw [if_pos ⟨hfull, hstarted⟩, Nat.cast_add, Nat.cast_one, mul_add, mul_one]
      omega
    · rw [if_neg (fun h => hstarted h.2), add_zero]
      unfold tokenScale at htokens hspent ⊢
      omega
  · rw [if_neg hfull] at htokens
    rw [if_neg (fun h => hfull h.1), add_zero]
    omega

theorem BucketInv.request (h : BucketInv units capacity trace now used doc)
    (hunits : 0 < units) (hid : id ∉ used)
    (hupdate : BucketUpdate units capacity now id doc record) :
    BucketInv units capacity (trace ++ [(now, record.lastAdmissionId == some id)]) now
      (id :: used) (some record) := by
  refine ⟨?_, ?_, h.request_spent hid hupdate, ?_⟩
  · intro r hr
    cases hr
    exact hupdate.sound
  · intro r hr i hi
    cases hr
    have hadmission := hupdate.admission
    by_cases hfull : tokenScale ≤ available units capacity doc now
    · rw [if_pos hfull] at hadmission
      rw [hadmission] at hi
      cases hi
      exact List.mem_cons_self
    · rw [if_neg hfull] at hadmission
      rw [hadmission] at hi
      obtain ⟨r, hr, hlast⟩ := Option.bind_eq_some_iff.mp hi
      exact List.mem_cons_of_mem _ (h.ids r hr i hlast)
  · intro first last hle
    by_cases hended : last < now
    · -- the request came after the interval
      rw [admittedIn_concat, if_neg (by omega), add_zero]
      exact h.bounded first last hle
    · have hcount := admittedIn_le first last (trace ++ [(now, record.lastAdmissionId == some id)])
      have hspent := h.request_spent hid hupdate first
      have havailable : 0 ≤ available units capacity (some record) now := by
        rw [hupdate.available_eq]
        exact hupdate.sound.nonneg
      have hgain : max 0 (now - first) * units ≤ (last - first) * units :=
        mul_le_mul_of_nonneg_right (by omega) hunits.le
      unfold tokenScale at hspent ⊢
      omega

theorem bucketInv_of_run (hdouble : ∀ x, 2 ^ 63 ≤ x → 2 ^ 63 ≤ toDouble x)
    (hrefills : Refills refillTokens burst refillPeriod)
    (h : Expiring.Run (bucketStore toDouble sha256 space key refillTokens refillPeriod burst)
      trace now used doc) :
    BucketInv (refillUnits refillTokens refillPeriod) (capacityOf burst) trace now used doc := by
  have hunits := hrefills.units
  have hcapacity := (capacityOf_bounds burst).1
  induction h with
  | start now =>
    refine ⟨by simp, by simp, ?_, ?_⟩
    · intro first
      have hgain : 0 ≤ max 0 (now - first) * refillUnits refillTokens refillPeriod :=
        mul_nonneg (le_max_left _ _) hunits.le
      show tokenScale * 0 + capacityOf burst ≤ _
      omega
    · intro first last hle
      have hgain : 0 ≤ (last - first) * refillUnits refillTokens refillPeriod :=
        mul_nonneg (sub_nonneg.mpr hle) hunits.le
      show tokenScale * 0 ≤ _
      omega
  | wait hrun hle ih => exact ih.wait hunits hrun.le hle
  | request _ hid hanswer ih =>
    obtain ⟨-, -, hidle⟩ | ⟨-, record, rfl, hupdate, rfl⟩ :=
      bucketStore_answer hdouble ih.sound hanswer
    · exact absurd hidle (not_or.mpr ⟨hrefills.refill, hrefills.burst⟩)
    · exact ih.request hunits hid hupdate
  | expire _ hexpired ih => exact ih.expire hunits hexpired

/-- Without whole parameters nothing is stored and nothing is admitted. -/
theorem idle_of_run (hdouble : ∀ x, 2 ^ 63 ≤ x → 2 ^ 63 ≤ toDouble x)
    (hidle : ¬ Refills refillTokens burst refillPeriod)
    (h : Expiring.Run (bucketStore toDouble sha256 space key refillTokens refillPeriod burst)
      trace now used doc) : doc = none ∧ ∀ answer ∈ trace, answer.2 = false := by
  induction h with
  | start now => simp
  | wait _ _ ih => exact ih
  | request _ _ hanswer ih =>
    obtain ⟨rfl, hbefore⟩ := ih
    obtain ⟨rfl, rfl, -⟩ | ⟨hrefills, -⟩ := bucketStore_answer hdouble (by simp) hanswer
    · refine ⟨rfl, ?_⟩
      intro answer hanswer
      obtain hold | hnew := List.mem_append.mp hanswer
      · exact hbefore answer hold
      · exact congrArg Prod.snd (List.mem_singleton.mp hnew)
    · exact absurd hrefills hidle
  | expire _ _ ih => exact ⟨rfl, ih.2⟩

end Runs

end NyxId.RateLimits
