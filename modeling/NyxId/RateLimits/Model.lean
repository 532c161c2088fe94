import NyxId.Coordination.Model
import NyxId.Credits
import NyxId.Expiring
import NyxId.UsageMeter
import Mathlib.Data.Int.ConditionallyCompleteOrder

/-!
Rate limits in the database: fixed windows and token buckets. Each request is one update of the
document of its key, made upon insertion if need be, and it was admitted when the document then
carries the id of the request. Dates are milliseconds since the epoch.
-/

namespace NyxId.RateLimits

open Coordination

def internalError {α : Type} (answer : Except String α) : Except AppError α :=
  answer.mapError .internal

theorem durationMillis_ok {millis ms : ℕ} {name : String}
    (h : internalError (durationMillis millis name) = .ok ms) :
    ms = millis ∧ 0 < millis ∧ millis < 2 ^ 63 := by
  unfold durationMillis at h
  split at h
  · simp [internalError, Except.mapError] at h
  · split at h
    · simp [internalError, Except.mapError] at h
    · simp only [internalError, Except.mapError, Except.ok.injEq] at h
      omega

def saturatingI64 (x : ℤ) : ℤ := max (-2 ^ 63) (min x (2 ^ 63 - 1))

/-- A date of 64 bits; beyond, the database fails the update. -/
def dateAdd (start amount : ℤ) : Option ℤ := checkedI64 (start + amount)

def dateDiff (start finish : ℤ) : Option ℤ := checkedI64 (finish - start)

/-- The start of the bin of a date; bins are aligned to the first of January 2000. -/
def dateTrunc (date binSize : ℤ) : ℤ :=
  946684800000 + (date - 946684800000) / binSize * binSize

structure RateAdmission where
  allowed : Bool
  remaining : ℕ
  resetAt : ℤ
  deriving DecidableEq

/-! ### Windows -/

structure RateWindowRecord where
  space : String
  keyHash : String
  windowStart : ℤ
  count : ℤ
  lastAdmissionId : Option String
  updatedAt : ℤ
  expiresAt : ℤ
  deriving DecidableEq

/-- `rate_window_pipeline`: an absent start counts as the epoch, an absent count as zero. -/
def rateWindow (space keyHash admissionId : String) (limit windowMs now : ℤ)
    (before : Option RateWindowRecord) : Option RateWindowRecord :=
  let currentWindow := dateTrunc now windowMs
  let newWindow := decide ((before.map (·.windowStart)).getD 0 ≠ currentWindow)
  let count := (before.map (·.count)).getD 0
  (dateAdd currentWindow (saturatingI64 (windowMs * 2))).map fun expiresAt =>
    { space := space
      keyHash := keyHash
      windowStart := currentWindow
      count :=
        if newWindow then (if 0 < limit then 1 else 0)
        else if count < limit then count + 1
        else count
      lastAdmissionId :=
        if (newWindow && 0 < limit) || (!newWindow && count < limit) then some admissionId
        else before.bind (·.lastAdmissionId)
      updatedAt := now
      expiresAt := expiresAt }

/-- `RateWindowStore::admit`, with the document after the update. -/
def admitWindow (sha256 : List UInt8 → Vector UInt8 32) (space key : String) (limit window : ℕ)
    (now : ℤ) (admissionId : String) (before : Option RateWindowRecord) :
    Except AppError (RateWindowRecord × RateAdmission) := do
  let windowMs ← internalError (durationMillis window "rate window")
  let limit ← okOr (checkedI64 limit) (.internal "Rate limit exceeds MongoDB integer range")
  let record ← okOr
    (rateWindow space (hashParts sha256 [key]) admissionId limit windowMs now before) .database
  let allowed := record.lastAdmissionId == some admissionId
  return (record,
    { allowed := allowed
      remaining := if allowed then (max (limit - record.count) 0).toNat else 0
      resetAt := record.windowStart + windowMs })

/-- The document of one key with a fixed limit and window. -/
def windowStore (sha256 : List UInt8 → Vector UInt8 32) (space key : String) (limit window : ℕ) :
    Expiring.Store ℤ RateWindowRecord String where
  expiresAt := (·.expiresAt)
  answer now id before :=
    match admitWindow sha256 space key limit window now id before with
    | .ok (record, admission) => some (some record, admission.allowed)
    | .error _ => none

/-! ### Buckets -/

def tokenScale : ℤ := 60000

structure TokenBucketRecord where
  space : String
  keyHash : String
  tokensMillis : ℤ
  lastRefillAt : ℤ
  lastAdmissionId : Option String
  updatedAt : ℤ
  expiresAt : ℤ
  deriving DecidableEq

section

-- the double that the database takes for a result beyond 64 bits
variable (toDouble : ℤ → ℤ)

/-- The integer when it has 64 bits, else a double. -/
def promoted (x : ℤ) : ℤ := (checkedI64 x).getD (toDouble x)

/-- `token_bucket_pipeline`: an absent bucket is full, and was refilled now. -/
def tokenBucket (space keyHash admissionId : String)
    (refillUnitsPerMs capacity retentionMs now : ℤ) (before : Option TokenBucketRecord) :
    Option TokenBucketRecord := do
  let elapsedMs := max 0 (← dateDiff ((before.map (·.lastRefillAt)).getD now) now)
  let available := min capacity (promoted toDouble
    ((before.map (·.tokensMillis)).getD capacity + promoted toDouble (elapsedMs * refillUnitsPerMs)))
  let expiresAt ← dateAdd now retentionMs
  return {
    space := space
    keyHash := keyHash
    tokensMillis := if tokenScale ≤ available then available - tokenScale else available
    lastRefillAt := now
    lastAdmissionId :=
      if tokenScale ≤ available then some admissionId else before.bind (·.lastAdmissionId)
    updatedAt := now
    expiresAt := expiresAt }

/-- `TokenBucketStore::admit_over_period`, with the document after the update. -/
def admitOverPeriod (sha256 : List UInt8 → Vector UInt8 32) (space key : String)
    (refillTokens : UInt32) (refillPeriod : ℕ) (burst : UInt32) (now : ℤ) (admissionId : String)
    (before : Option TokenBucketRecord) :
    Except AppError (Option TokenBucketRecord × RateAdmission) :=
  if refillTokens = 0 ∨ burst = 0 then .ok (before, ⟨false, 0, now⟩)
  else do
    let periodMs ← internalError (durationMillis refillPeriod "token refill period")
    let refill ← okOr (checkedI64 (refillTokens.toNat * tokenScale))
      (.internal "Token-bucket refill overflow")
    let refillUnitsPerMs ← okOr (some (refill / periodMs) |>.filter (0 < ·))
      (.internal "Token-bucket refill precision is too small")
    let capacity ← okOr (checkedI64 (burst.toNat * tokenScale))
      (.internal "Token-bucket capacity overflow")
    let refillMs := saturatingI64 (capacity + (refillUnitsPerMs - 1)) / refillUnitsPerMs
    let retentionMs := saturatingI64 (max refillMs 1000 * 2)
    let record ← okOr (tokenBucket toDouble space (hashParts sha256 [key]) admissionId
      refillUnitsPerMs capacity retentionMs now before) .database
    let allowed := record.lastAdmissionId == some admissionId
    let missing := saturatingI64 (capacity - max record.tokensMillis 0)
    let resetMs := saturatingI64 (missing + (refillUnitsPerMs - 1)) / refillUnitsPerMs
    return (some record,
      { allowed := allowed
        remaining := if allowed then (max record.tokensMillis 0 / tokenScale).toNat else 0
        resetAt := record.lastRefillAt + resetMs })

/-- The document of one key with fixed parameters. -/
def bucketStore (sha256 : List UInt8 → Vector UInt8 32) (space key : String)
    (refillTokens : UInt32) (refillPeriod : ℕ) (burst : UInt32) :
    Expiring.Store ℤ TokenBucketRecord String where
  expiresAt := (·.expiresAt)
  answer now id before :=
    match admitOverPeriod toDouble sha256 space key refillTokens refillPeriod burst now id before with
    | .ok (record, admission) => some (record, admission.allowed)
    | .error _ => none

end

end NyxId.RateLimits
