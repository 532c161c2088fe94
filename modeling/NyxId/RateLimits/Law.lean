import NyxId.RateLimits.Model
import NyxId.RateLimits.Buckets

/-!
In every aligned window the first requests are admitted, up to the limit. The document counts the
requests of its own window, which is the latest of any request, and it cannot expire before that
window has passed.
-/

namespace NyxId.RateLimits

open Coordination

section

/-! ### Bins -/

section Bins

variable {date later binSize : ℤ}

theorem lt_dateTrunc_add (hsize : 0 < binSize) (date : ℤ) :
    date < dateTrunc date binSize + binSize := by
  have hlt := Int.lt_ediv_add_one_mul_self (date - 946684800000) hsize
  rw [add_mul, one_mul] at hlt
  unfold dateTrunc
  omega

theorem dateTrunc_mono (hsize : 0 < binSize) (h : date ≤ later) :
    dateTrunc date binSize ≤ dateTrunc later binSize := by
  have hdiv : (date - 946684800000) / binSize ≤ (later - 946684800000) / binSize :=
    Int.ediv_le_ediv hsize (by omega)
  have hmul := mul_le_mul_of_nonneg_right hdiv hsize.le
  unfold dateTrunc
  omega

end Bins

/-! ### Answers of one window -/

/-- The answers to the requests of a window, in order. -/
def inWindow (windowMs start : ℤ) (trace : List (ℤ × Bool)) : List Bool :=
  (trace.filter fun answer => dateTrunc answer.1 windowMs = start).map Prod.snd

/-- The first requests are admitted, up to the limit, and no others. -/
def FirstAdmitted (limit : ℕ) (answers : List Bool) : Prop :=
  answers = List.replicate (min limit answers.length) true ++
    List.replicate (answers.length - limit) false

section Answers

variable {limit : ℕ} {answers : List Bool} {windowMs start now : ℤ} {trace : List (ℤ × Bool)}
  {admitted : Bool}

theorem firstAdmitted_nil : FirstAdmitted limit [] := by simp [FirstAdmitted]

theorem FirstAdmitted.next (h : FirstAdmitted limit answers) :
    FirstAdmitted limit (answers ++ [decide (answers.length < limit)]) := by
  unfold FirstAdmitted at h ⊢
  rw [List.length_append, List.length_singleton]
  by_cases hlow : answers.length < limit
  · have hmin : min limit answers.length = answers.length := by omega
    have hmin' : min limit (answers.length + 1) = answers.length + 1 := by omega
    have hrest : answers.length - limit = 0 := by omega
    have hrest' : answers.length + 1 - limit = 0 := by omega
    rw [hmin, hrest, List.replicate_zero, List.append_nil] at h
    rw [hmin', hrest', List.replicate_zero, List.append_nil, decide_eq_true hlow,
      List.replicate_succ', ← h]
  · have hmin : min limit (answers.length + 1) = min limit answers.length := by omega
    have hrest : answers.length + 1 - limit = answers.length - limit + 1 := by omega
    rw [hmin, hrest, decide_eq_false hlow, List.replicate_succ', ← List.append_assoc, ← h]

theorem inWindow_concat : inWindow windowMs start (trace ++ [(now, admitted)]) =
    inWindow windowMs start trace ++ if dateTrunc now windowMs = start then [admitted] else [] := by
  unfold inWindow
  rw [List.filter_append, List.map_append]
  by_cases hsame : dateTrunc now windowMs = start
  · simp [hsame]
  · simp [hsame]

theorem inWindow_eq_nil (h : ∀ answer ∈ trace, dateTrunc answer.1 windowMs ≠ start) :
    inWindow windowMs start trace = [] := by
  unfold inWindow
  rw [List.map_eq_nil_iff, List.filter_eq_nil_iff]
  intro answer hanswer
  simpa using h answer hanswer

end Answers

/-! ### One update -/

/-- The requests that a document counts for a window. -/
def counted (doc : Option RateWindowRecord) (start : ℤ) : ℤ :=
  doc.elim 0 fun record => if record.windowStart = start then record.count else 0

/-- What an answered request makes of the document. -/
structure WindowUpdate (limit : ℕ) (windowMs now : ℤ) (id : String)
    (before : Option RateWindowRecord) (record : RateWindowRecord) : Prop where
  start : record.windowStart = dateTrunc now windowMs
  expiry : record.windowStart + windowMs ≤ record.expiresAt
  count : record.count = if counted before (dateTrunc now windowMs) < limit then
    counted before (dateTrunc now windowMs) + 1 else counted before (dateTrunc now windowMs)
  admission : record.lastAdmissionId = if counted before (dateTrunc now windowMs) < limit then
    some id else before.bind (·.lastAdmissionId)

section Updates

variable {sha256 : List UInt8 → Vector UInt8 32} {space key keyHash id : String}
  {limit window : ℕ} {windowMs now : ℤ} {before next : Option RateWindowRecord}
  {record : RateWindowRecord} {admitted : Bool}

theorem le_saturated {x : ℤ} (hlow : 0 < x) (hhigh : x < 2 ^ 63) : x ≤ saturatingI64 (x * 2) := by
  unfold saturatingI64
  omega

/-- The update of the document, whichever window it was in. -/
theorem rateWindow_update (hpos : 0 < windowMs) (hfits : windowMs < 2 ^ 63)
    (h : rateWindow space keyHash id limit windowMs now before = some record) :
    WindowUpdate limit windowMs now id before record := by
  obtain ⟨expiresAt, hexpires, rfl⟩ := Option.map_eq_some_iff.mp h
  obtain ⟨rfl, -⟩ := checkedI64_eq_some.mp hexpires
  have hexpiry := le_saturated hpos hfits
  by_cases hsame : (before.map (·.windowStart)).getD 0 = dateTrunc now windowMs
  · have hcounted : counted before (dateTrunc now windowMs) = (before.map (·.count)).getD 0 := by
      cases before with
      | none => rfl
      | some r =>
        have hstart : r.windowStart = dateTrunc now windowMs := hsame
        simp [counted, hstart]
    refine ⟨rfl, by simp only; omega, ?_, ?_⟩
    · simp [hsame, hcounted]
    · simp [hsame, hcounted]
  · have hcounted : counted before (dateTrunc now windowMs) = 0 := by
      cases before with
      | none => rfl
      | some r =>
        have hstart : ¬ r.windowStart = dateTrunc now windowMs := hsame
        simp [counted, hstart]
    refine ⟨rfl, by simp only; omega, ?_, ?_⟩
    · simp [hsame, hcounted]
    · simp [hsame, hcounted]

theorem windowStore_answer
    (h : (windowStore sha256 space key limit window).answer now id before = some (next, admitted)) :
    0 < window ∧ ∃ record, next = some record ∧ WindowUpdate limit window now id before record ∧
      admitted = (record.lastAdmissionId == some id) := by
  unfold windowStore at h
  simp only at h
  split at h
  · next record admission hadmit =>
    simp only [Option.some.injEq, Prod.mk.injEq] at h
    obtain ⟨rfl, rfl⟩ := h
    obtain ⟨windowMs, hwindow, hchecked⟩ := bind_eq_ok.mp hadmit
    obtain ⟨rfl, hpos, hfits⟩ := durationMillis_ok hwindow
    obtain ⟨checked, hlimit, hupdated⟩ := bind_eq_ok.mp hchecked
    obtain ⟨rfl, -⟩ := checkedI64_eq_some.mp (okOr_eq_ok.mp hlimit)
    obtain ⟨written, hwritten, hanswer⟩ := bind_eq_ok.mp hupdated
    obtain ⟨rfl, rfl⟩ := Prod.mk.inj (Except.ok.inj hanswer)
    exact ⟨hpos, written, rfl, rateWindow_update (by omega) (by omega) (okOr_eq_ok.mp hwritten), rfl⟩
  · simp at h

end Updates

/-! ### Runs -/

/-- The document counts the requests of its window, the latest that a request was in; without a
document all requests were in earlier windows than the present one. -/
structure WindowInv (limit : ℕ) (windowMs : ℤ) (trace : List (ℤ × Bool)) (now : ℤ)
    (used : List String) (doc : Option RateWindowRecord) : Prop where
  first : ∀ start, FirstAdmitted limit (inWindow windowMs start trace)
  absent : doc = none → ∀ answer ∈ trace, dateTrunc answer.1 windowMs < dateTrunc now windowMs
  latest : ∀ r ∈ doc, ∀ answer ∈ trace, dateTrunc answer.1 windowMs ≤ r.windowStart
  past : ∀ r ∈ doc, r.windowStart ≤ dateTrunc now windowMs
  count : ∀ r ∈ doc, r.count = min limit (inWindow windowMs r.windowStart trace).length
  expiry : ∀ r ∈ doc, r.windowStart + windowMs ≤ r.expiresAt
  ids : ∀ r ∈ doc, ∀ id ∈ r.lastAdmissionId, id ∈ used

section Runs

variable {sha256 : List UInt8 → Vector UInt8 32} {space key id : String} {limit window : ℕ}
  {windowMs now later : ℤ} {trace : List (ℤ × Bool)} {used : List String}
  {doc : Option RateWindowRecord} {record : RateWindowRecord}

theorem WindowInv.wait (h : WindowInv limit windowMs trace now used doc) (hpos : 0 < windowMs)
    (hle : now ≤ later) : WindowInv limit windowMs trace later used doc where
  first := h.first
  absent hdoc answer hanswer :=
    lt_of_lt_of_le (h.absent hdoc answer hanswer) (dateTrunc_mono hpos hle)
  latest := h.latest
  past r hr := (h.past r hr).trans (dateTrunc_mono hpos hle)
  count := h.count
  expiry := h.expiry
  ids := h.ids

/-- An expired document counted a window that has passed. -/
theorem WindowInv.expire (h : WindowInv limit windowMs trace now used (some record))
    (hpos : 0 < windowMs) (hexpired : record.expiresAt ≤ now) :
    WindowInv limit windowMs trace now used none where
  first := h.first
  absent _ answer hanswer := by
    have hlatest := h.latest record rfl answer hanswer
    have hexpiry := h.expiry record rfl
    have hnow := lt_dateTrunc_add hpos now
    omega
  latest r hr := by simp at hr
  past r hr := by simp at hr
  count r hr := by simp at hr
  expiry r hr := by simp at hr
  ids r hr := by simp at hr

/-- The document counts exactly the admitted requests of the present window. -/
theorem WindowInv.counted_eq (h : WindowInv limit windowMs trace now used doc) :
    counted doc (dateTrunc now windowMs) =
      min limit (inWindow windowMs (dateTrunc now windowMs) trace).length := by
  cases doc with
  | none =>
    rw [inWindow_eq_nil fun answer hanswer => (h.absent rfl answer hanswer).ne]
    simp [counted]
  | some r =>
    by_cases hsame : r.windowStart = dateTrunc now windowMs
    · have hcount := h.count r rfl
      rw [hsame] at hcount
      simp [counted, hsame, hcount]
    · have hpast := h.past r rfl
      rw [inWindow_eq_nil fun answer hanswer => ?_]
      · simp [counted, hsame]
      · have hlatest := h.latest r rfl answer hanswer
        omega

theorem WindowInv.admitted_eq (h : WindowInv limit windowMs trace now used doc)
    (hid : id ∉ used) (hupdate : WindowUpdate limit windowMs now id doc record) :
    (record.lastAdmissionId == some id) =
      decide ((inWindow windowMs (dateTrunc now windowMs) trace).length < limit) := by
  have hadmission := hupdate.admission
  rw [h.counted_eq] at hadmission
  by_cases hlow : (inWindow windowMs (dateTrunc now windowMs) trace).length < limit
  · rw [hadmission, if_pos (by omega), decide_eq_true hlow]
    simp
  · rw [hadmission, if_neg (by omega), decide_eq_false hlow, beq_eq_false_iff_ne]
    intro hsome
    obtain ⟨r, hr, hlast⟩ := Option.bind_eq_some_iff.mp hsome
    exact hid (h.ids r hr id hlast)

theorem WindowInv.request (h : WindowInv limit windowMs trace now used doc)
    (htimes : ∀ answer ∈ trace, answer.1 ≤ now) (hpos : 0 < windowMs) (hid : id ∉ used)
    (hupdate : WindowUpdate limit windowMs now id doc record) :
    WindowInv limit windowMs (trace ++ [(now, record.lastAdmissionId == some id)]) now
      (id :: used) (some record) where
  first := by
    intro start
    rw [inWindow_concat]
    by_cases hsame : dateTrunc now windowMs = start
    · rw [if_pos hsame, h.admitted_eq hid hupdate, hsame]
      exact (h.first start).next
    · rw [if_neg hsame, List.append_nil]
      exact h.first start
  absent hdoc := by simp at hdoc
  latest := by
    intro r hr answer hanswer
    cases hr
    rw [hupdate.start]
    obtain hbefore | hnew := List.mem_append.mp hanswer
    · exact dateTrunc_mono hpos (htimes answer hbefore)
    · rw [List.mem_singleton.mp hnew]
  past := by
    intro r hr
    cases hr
    exact hupdate.start.le
  count := by
    intro r hr
    cases hr
    rw [hupdate.count, hupdate.start, inWindow_concat, if_pos rfl, h.counted_eq,
      List.length_append, List.length_singleton]
    split <;> omega
  expiry := by
    intro r hr
    cases hr
    exact hupdate.expiry
  ids := by
    intro r hr i hi
    cases hr
    have hadmission := hupdate.admission
    split at hadmission
    · rw [hadmission] at hi
      cases hi
      exact List.mem_cons_self
    · rw [hadmission] at hi
      obtain ⟨r, hr, hlast⟩ := Option.bind_eq_some_iff.mp hi
      exact List.mem_cons_of_mem _ (h.ids r hr i hlast)

theorem windowInv_of_run (hpos : 0 < window)
    (h : Expiring.Run (windowStore sha256 space key limit window) trace now used doc) :
    WindowInv limit window trace now used doc := by
  have hwindow : (0 : ℤ) < window := by omega
  induction h with
  | start now =>
    exact ⟨fun start => firstAdmitted_nil, by simp, by simp, by simp, by simp, by simp, by simp⟩
  | wait _ hle ih => exact ih.wait hwindow hle
  | request hrun hid hanswer ih =>
    obtain ⟨-, record, rfl, hupdate, rfl⟩ := windowStore_answer hanswer
    exact ih.request hrun.le hwindow hid hupdate
  | expire _ hexpired ih => exact ih.expire hwindow hexpired

/-- In every window the first requests are admitted, up to the limit. -/
theorem first_admitted
    (h : Expiring.Run (windowStore sha256 space key limit window) trace now used doc) (start : ℤ) :
    FirstAdmitted limit (inWindow window start trace) := by
  by_cases hpos : 0 < window
  · exact (windowInv_of_run hpos h).first start
  · -- no request is answered when the window is refused
    have hnil : trace = [] := by
      induction h with
      | start now => rfl
      | wait _ _ ih => exact ih
      | request _ _ hanswer => exact absurd (windowStore_answer hanswer).1 hpos
      | expire _ _ ih => exact ih
    rw [hnil]
    exact firstAdmitted_nil

end Runs

end

/-!
Rate limits over whole runs. The requests of one key come at times that never go back, and its
document may be deleted whenever it has expired.
-/

/-- Hundred years of milliseconds. -/
def century : ℤ := 100 * 365 * 86400000

/-- What the store computes before the update. -/
def requestValues (refillTokens burst : UInt32) (periodMs : ℕ) : List ℤ :=
  let units := refillUnits refillTokens periodMs
  let refillMs := (capacityOf burst + (units - 1)) / units
  [refillTokens.toNat * tokenScale, units, capacityOf burst, capacityOf burst + (units - 1),
    refillMs, max refillMs 1000 * 2]

/-- What the update computes from the document. -/
def updateValues (units now : ℤ) (record : TokenBucketRecord) : List ℤ :=
  let elapsedMs := now - record.lastRefillAt
  [elapsedMs, elapsedMs * units, record.tokensMillis + elapsedMs * units]

/-- The law of a bucket at a moment of a run. -/
structure BucketLaw (store : Expiring.Store ℤ TokenBucketRecord String)
    (refillTokens burst : UInt32) (units : ℤ) (trace : List (ℤ × Bool)) (now : ℤ)
    (used : List String) (doc : Option TokenBucketRecord) : Prop where
  bounded : ∀ first length, 0 ≤ length →
    (admittedIn first (first + length) trace : ℤ) ≤ burst.toNat + length * units / tokenScale
  stored : ∀ record ∈ doc, 0 ≤ record.tokensMillis ∧ record.tokensMillis ≤ capacityOf burst
  refused : ∀ id next admitted, id ∉ used → store.answer now id doc = some (next, admitted) →
    refillTokens ≠ 0 →
      (admitted = false ↔ available units (capacityOf burst) doc now < tokenScale)
  left : ∀ id next admitted, id ∉ used → store.answer now id doc = some (next, admitted) →
    ∀ record ∈ next, record.tokensMillis =
      available units (capacityOf burst) doc now - if admitted then tokenScale else 0
  deleted : ∀ record ∈ doc, record.expiresAt ≤ now → ∀ later, now ≤ later →
    available units (capacityOf burst) none later ≤
      available units (capacityOf burst) (some record) later
  fits : ∀ record ∈ doc, record.tokensMillis + (now - record.lastRefillAt) * units < 2 ^ 63 →
    ∀ value ∈ updateValues units now record, 0 ≤ value ∧ value < 2 ^ 63

section Law

variable {toDouble : ℤ → ℤ} {sha256 : List UInt8 → Vector UInt8 32} {space key : String}
  {limit window : ℕ} {refillTokens burst : UInt32} {refillPeriod : ℕ} {units capacity now : ℤ}
  {trace : List (ℤ × Bool)} {used : List String} {doc : Option TokenBucketRecord}
  {record : TokenBucketRecord}

theorem refillUnits_nonneg (refillTokens : UInt32) (refillPeriod : ℕ) :
    0 ≤ refillUnits refillTokens refillPeriod :=
  Int.ediv_nonneg (by unfold tokenScale; omega) (by omega)

theorem BucketInv.bounded_tokens (h : BucketInv units (capacityOf burst) trace now used doc)
    (first : ℤ) {length : ℤ} (hlength : 0 ≤ length) :
    (admittedIn first (first + length) trace : ℤ) ≤
      burst.toNat + length * units / tokenScale := by
  have hbounded := h.bounded first (first + length) (by omega)
  rw [add_sub_cancel_left] at hbounded
  unfold capacityOf tokenScale at hbounded
  unfold tokenScale
  omega

theorem Sound.values_fit (h : Sound units capacity now record) (hunits : 0 < units)
    (hsum : record.tokensMillis + (now - record.lastRefillAt) * units < 2 ^ 63) :
    ∀ value ∈ updateValues units now record, 0 ≤ value ∧ value < 2 ^ 63 := by
  have helapsed : 0 ≤ now - record.lastRefillAt := sub_nonneg.mpr h.past
  have hproduct : now - record.lastRefillAt ≤ (now - record.lastRefillAt) * units :=
    le_mul_of_one_le_right helapsed (by omega)
  have htokens := h.nonneg
  intro value hvalue
  simp only [updateValues, List.mem_cons, List.not_mem_nil, or_false] at hvalue
  omega

/-- The parameters of a request are far from the bounds. -/
theorem requestValues_fit (refillTokens burst : UInt32) (periodMs : ℕ)
    (hunits : 0 < refillUnits refillTokens periodMs) :
    ∀ value ∈ requestValues refillTokens burst periodMs, 0 ≤ value ∧ value < 2 ^ 63 := by
  have hrefill := refillTokens.toNat_lt
  have hlt := refillUnits_lt refillTokens periodMs
  have hbounds := capacityOf_bounds burst
  have hle := Int.ediv_le_self (refillUnits refillTokens periodMs)
    (show 0 ≤ capacityOf burst + (refillUnits refillTokens periodMs - 1) by omega)
  have hnonneg : 0 ≤ (capacityOf burst + (refillUnits refillTokens periodMs - 1)) /
      refillUnits refillTokens periodMs := Int.ediv_nonneg (by omega) hunits.le
  intro value hvalue
  simp only [requestValues, List.mem_cons, List.not_mem_nil, or_false] at hvalue
  unfold tokenScale at hvalue
  omega

theorem bucketLaw_of_run (hdouble : ∀ x, 2 ^ 63 ≤ x → 2 ^ 63 ≤ toDouble x)
    (h : Expiring.Run (bucketStore toDouble sha256 space key refillTokens refillPeriod burst)
      trace now used doc) :
    BucketLaw (bucketStore toDouble sha256 space key refillTokens refillPeriod burst) refillTokens
      burst (refillUnits refillTokens refillPeriod) trace now used doc := by
  by_cases hrefills : Refills refillTokens burst refillPeriod
  · have hinv := bucketInv_of_run hdouble hrefills h
    have hnot : ¬ (refillTokens = 0 ∨ burst = 0) :=
      not_or.mpr ⟨hrefills.refill, hrefills.burst⟩
    refine ⟨?_, ?_, ?_, ?_, ?_, ?_⟩
    · intro first length hlength
      exact hinv.bounded_tokens first hlength
    · intro record hrecord
      exact ⟨(hinv.sound record hrecord).nonneg, (hinv.sound record hrecord).le⟩
    · intro id next admitted hid hanswer _
      obtain ⟨-, -, hidle⟩ | ⟨-, record, rfl, hupdate, rfl⟩ :=
        bucketStore_answer hdouble hinv.sound hanswer
      · exact absurd hidle hnot
      · rw [hinv.admitted_eq hid hupdate, decide_eq_false_iff_not, not_le]
    · intro id next admitted hid hanswer
      obtain ⟨-, -, hidle⟩ | ⟨-, record, rfl, hupdate, rfl⟩ :=
        bucketStore_answer hdouble hinv.sound hanswer
      · exact absurd hidle hnot
      · intro r hr
        cases hr
        rw [hinv.admitted_eq hid hupdate, hupdate.tokens]
        simp only [decide_eq_true_eq]
        split <;> omega
    · intro record hrecord hexpired later hlater
      have hsound := hinv.sound record hrecord
      rw [available_of_expired hrefills.units (hsound.wait hlater) (hexpired.trans hlater)]
      exact le_rfl
    · intro record hrecord hsum value hvalue
      exact (hinv.sound record hrecord).values_fit hrefills.units hsum value hvalue
  · obtain ⟨rfl, hnone⟩ := idle_of_run hdouble hrefills h
    refine ⟨?_, by simp, ?_, ?_, by simp, by simp⟩
    · intro first length hlength
      have hzero : admittedIn first (first + length) trace = 0 := by
        unfold admittedIn
        rw [List.countP_eq_zero]
        intro answer hanswer
        simp [hnone answer hanswer]
      have hgain : 0 ≤ length * refillUnits refillTokens refillPeriod :=
        mul_nonneg hlength (refillUnits_nonneg refillTokens refillPeriod)
      rw [hzero]
      unfold tokenScale
      omega
    · intro id next admitted _ hanswer hrefill
      obtain ⟨-, rfl, hidle⟩ | ⟨hwhole, -⟩ := bucketStore_answer hdouble (by simp) hanswer
      · obtain hzero | rfl := hidle
        · exact absurd hzero hrefill
        · have hempty : available (refillUnits refillTokens refillPeriod) (capacityOf 0) none now <
              tokenScale := show capacityOf 0 < tokenScale by decide
          exact iff_of_true rfl hempty
      · exact absurd hwhole hrefills
    · intro id next admitted _ hanswer
      obtain ⟨rfl, -, -⟩ | ⟨hwhole, -⟩ := bucketStore_answer hdouble (by simp) hanswer
      · simp
      · exact absurd hwhole hrefills

/-- Windows admit their first requests; buckets admit at most their burst and the refill of the
interval, and hold what they should whatever the database makes of a product beyond 64 bits. -/
theorem rate_limits_hold (toDouble : ℤ → ℤ) (hdouble : ∀ x, 2 ^ 63 ≤ x → 2 ^ 63 ≤ toDouble x)
    (sha256 : List UInt8 → Vector UInt8 32) (space key : String) (limit window : ℕ)
    (refillTokens burst : UInt32) (refillPeriod : ℕ) :
    (∀ trace now used doc,
      Expiring.Run (windowStore sha256 space key limit window) trace now used doc →
        ∀ start, FirstAdmitted limit (inWindow window start trace)) ∧
      (∀ trace now used doc,
        Expiring.Run (bucketStore toDouble sha256 space key refillTokens refillPeriod burst) trace
          now used doc →
        BucketLaw (bucketStore toDouble sha256 space key refillTokens refillPeriod burst)
          refillTokens burst (refillUnits refillTokens refillPeriod) trace now used doc) ∧
      (0 < refillUnits refillTokens refillPeriod →
        ∀ value ∈ requestValues refillTokens burst refillPeriod, 0 ≤ value ∧ value < 2 ^ 63) :=
  ⟨fun _ _ _ _ hrun start => first_admitted hrun start,
    fun _ _ _ _ hrun => bucketLaw_of_run hdouble hrun,
    requestValues_fit refillTokens burst refillPeriod⟩

end Law

/-- A bucket of two that refills every second, with the tokens of its last request. -/
def bucketAt (tokensMillis now : ℤ) (admissionId : String) : TokenBucketRecord where
  space := "ns"
  keyHash := hashParts (fun _ => Vector.replicate 32 0) ["key"]
  tokensMillis
  lastRefillAt := now
  lastAdmissionId := some admissionId
  updatedAt := now
  expiresAt := now + 4000

def smallBucket : Expiring.Store ℤ TokenBucketRecord String :=
  bucketStore id (fun _ => Vector.replicate 32 0) "ns" "key" 1 1000 2

/-- Two requests empty the bucket, and the third is refused. -/
theorem asked_thrice :
    Expiring.Run smallBucket [(5, true), (6, true), (7, false)] 7 ["third", "second", "first"]
      (some (bucketAt 120 7 "second")) ∧
      admittedIn 0 10 [(5, true), (6, true), (7, false)] ≤ 2 + 10 * 60 / tokenScale := by
  have hfirst : Expiring.Run smallBucket [(5, true)] 5 ["first"] (some (bucketAt 60000 5 "first")) :=
    .request (.start 5) (by simp) (by decide)
  have hsecond : Expiring.Run smallBucket [(5, true), (6, true)] 6 ["second", "first"]
      (some (bucketAt 60 6 "second")) :=
    .request (hfirst.wait (show (5 : ℤ) ≤ 6 by decide)) (by decide) (by decide)
  have hrun : Expiring.Run smallBucket [(5, true), (6, true), (7, false)] 7
      ["third", "second", "first"] (some (bucketAt 120 7 "second")) :=
    .request (hsecond.wait (show (6 : ℤ) ≤ 7 by decide)) (by decide) (by decide)
  exact ⟨hrun, ((rate_limits_hold id (fun x hx => hx) (fun _ => Vector.replicate 32 0) "ns" "key" 5
    1000 1 2 1000).2.1 _ _ _ _ hrun).bounded 0 10 (by decide)⟩

/-- The largest bucket, after its first request. -/
def largestBucket : TokenBucketRecord where
  space := "ns"
  keyHash := hashParts (fun _ => Vector.replicate 32 0) ["key"]
  tokensMillis := 0
  lastRefillAt := 0
  lastAdmissionId := some "first"
  updatedAt := 0
  expiresAt := 2000

/-- The refill of a century is beyond 64 bits, and a bucket that never refills refuses although it
is full. -/
theorem century_overflows :
    (∃ trace used, Expiring.Run
      (bucketStore id (fun _ => Vector.replicate 32 0) "ns" "key" 4294967295 1 1) trace century used
        (some largestBucket) ∧
      ¬ ∀ value ∈ updateValues (refillUnits 4294967295 1) century largestBucket, value < 2 ^ 63) ∧
      (bucketStore id (fun _ => Vector.replicate 32 0) "ns" "key" 0 1 1).answer 0 "first" none =
        some (none, false) ∧
      tokenScale ≤ available 0 (capacityOf 1) none 0 := by
  refine ⟨⟨[(0, true)], ["first"], ?_, by decide⟩, by decide, by decide⟩
  exact .wait (.request (.start 0) (by simp) (by decide)) (by decide)

end NyxId.RateLimits
