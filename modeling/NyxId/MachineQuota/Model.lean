import NyxId.Credits
import NyxId.Permissions.NumberBounds
import NyxId.Permissions.Drive

/-!
Quantities of Kubernetes in nanounits. A text is read in checked arithmetic of 128 bits, and a
fraction below one nanounit is refused instead of rounded. What is read is the exact value of
the text, and the text that is written for a value is read back as it.
-/

namespace NyxId.MachineQuota

open Encoding Permissions

/-- Nanounits in a unit. -/
def scale : ℤ := 1000000000

/-- A text has no value here, or an operation that is not checked overflows. -/
inductive Refusal where
  | unknown
  | overflow
  deriving DecidableEq

def orUnknown {α : Type} (answer : Option α) : Except Refusal α := answer.elim (.error .unknown) .ok

/-- A division of 128 bits fails at zero and at the one quotient out of range. -/
def divides (value divisor : ℤ) : Bool := divisor ≠ 0 && !(value = -2 ^ 127 && divisor = -1)

def div128 (value divisor : ℤ) : Except Refusal ℤ :=
  if divides value divisor then .ok (value.tdiv divisor) else .error .overflow

def rem128 (value divisor : ℤ) : Except Refusal ℤ :=
  if divides value divisor then .ok (value.tmod divisor) else .error .overflow

/-- The base and the power that a suffix stands for. -/
def suffixScale : List Char → Option (ℕ × ℤ)
  | [] => some (10, 0)
  | ['n'] => some (10, -9)
  | ['u'] => some (10, -6)
  | ['m'] => some (10, -3)
  | ['k'] => some (10, 3)
  | ['K'] => some (10, 3)
  | ['M'] => some (10, 6)
  | ['G'] => some (10, 9)
  | ['T'] => some (10, 12)
  | ['P'] => some (10, 15)
  | ['E'] => some (10, 18)
  | ['K', 'i'] => some (2, 10)
  | ['M', 'i'] => some (2, 20)
  | ['G', 'i'] => some (2, 30)
  | ['T', 'i'] => some (2, 40)
  | ['P', 'i'] => some (2, 50)
  | ['E', 'i'] => some (2, 60)
  | mark :: exponent =>
    if isExponentMark mark then (parseSigned 32 exponent).map fun power => (10, power) else none

/-- A value moved by so many decimal places, when none of its digits is lost. -/
def shifted (value decimal : ℤ) : Except Refusal ℤ := do
  if decimal ≥ 0 then
    let factor ← orUnknown (checkedI128 (10 ^ decimal.toNat))
    orUnknown (checkedI128 (value * factor))
  else
    let divisor ← orUnknown (checkedI128 (10 ^ decimal.natAbs))
    -- the quotient is computed before the remainder is asked for
    let quotient ← div128 value divisor
    if (← rem128 value divisor) = 0 then .ok quotient else .error .unknown

/-- A decimal power moves the point. -/
def movePoint (base : ℕ) (power decimal : ℤ) : Except Refusal ℤ :=
  if base = 10 then orUnknown (checkedI32 (decimal + power)) else .ok decimal

/-- A binary power multiplies the digits. -/
def multiply (base : ℕ) (power value : ℤ) : Except Refusal ℤ :=
  if base = 2 then
    orUnknown ((checkedI128 (2 ^ power.toNat)).bind fun factor => checkedI128 (value * factor))
  else .ok value

/-- The nanounits of so many digits, the last of them behind the point, at a scale. -/
def scaled (value : ℤ) (places base : ℕ) (power : ℤ) : Except Refusal ℤ := do
  if ¬ (-38 ≤ power ∧ power ≤ 38) ∧ base = 10 then .error .unknown
  else
    let decimal ← orUnknown ((checkedI32 places).bind fun length => checkedI32 (9 - length))
    let decimal ← movePoint base power decimal
    let value ← multiply base power value
    shifted value decimal

def stripPlus : List Char → List Char
  | '+' :: rest => rest
  | text => text

def inNumber (c : Char) : Bool := c.isDigit || c == '.'

def quantityChars (text : List Char) : Except Refusal ℤ := do
  let text := stripPlus text
  let (whole, point) := splitPoint (text.takeWhile inNumber)
  let fraction := point.getD []
  if (whole.isEmpty && fraction.isEmpty) || fraction.contains '.' then .error .unknown
  else
    let value ← orUnknown (parseSigned 128 (whole ++ fraction))
    let (base, power) ← orUnknown (suffixScale (text.dropWhile inNumber))
    scaled value fraction.length base power

/-- Exact nonnegative nanounits. -/
def quantity (text : String) : Except Refusal ℤ :=
  if text.utf8ByteSize = 0 ∨ text.utf8ByteSize > 96 then .error .unknown
  else quantityChars text.toList

/-- An integer in so many characters, its sign among them. -/
def zeroFilled (width : ℕ) (value : ℤ) : List Char :=
  if value < 0 then '-' :: padded (width - 1) value.natAbs else padded width value.natAbs

def decimalText (value : ℤ) : List Char :=
  let whole := value.tdiv scale
  let fraction := value.tmod scale
  if fraction = 0 then decimalChars whole
  else (decimalChars whole ++ '.' :: zeroFilled 9 fraction).rdropWhile (· == '0')

def decimal (value : ℤ) : String := String.ofList (decimalText value)

/-!
Quota documents as rows of constraints, and what an owner is told about them. The quotas apply
together, so the bound is the least over the rows, and it is withheld when anything is uncertain.
-/

inductive Operation where
  | create
  | retainedVolumeResume
  deriving DecidableEq

structure MachineProfileSpec where
  cpuMillis : UInt32
  memoryMib : UInt32
  workspaceGib : UInt32

structure Constraint where
  resource : String
  hard : Option String
  used : Option String
  remaining : Option String
  deficit : Option String
  demand : Option String
  additionalProfilesUpperBound : Option ℕ
  reason : Option String
  deriving DecidableEq

structure QuotaRow where
  name : String
  applicability : String
  constraints : List Constraint
  reasons : List String
  deriving DecidableEq

/-- An observation of all quotas; times are in nanoseconds. -/
structure Inventory where
  profileVersion : String
  rows : List QuotaRow
  complete : Bool
  observedAt : ℤ
  reason : Option String
  quotaUsageFreshness : String

structure OwnerQuotaView where
  status : String
  reason : String
  operation : Operation
  profileVersion : String
  additionalProfilesUpperBound : Option ℕ
  observedAt : ℤ
  validUntil : ℤ
  capacityGuarantee : Bool
  quotaUsageFreshness : String

/-! ### Demands -/

/-- A text around the first place where another text stands in it. -/
def splitOnce (mark : List Char) : List Char → Option (List Char × List Char)
  | [] => none
  | c :: rest =>
    if mark.isPrefixOf (c :: rest) then some ([], (c :: rest).drop mark.length)
    else (splitOnce mark rest).map fun (before, after) => (c :: before, after)

def storageClassMark : List Char := ".storageclass.storage.k8s.io/".toList

section

variable (operation : Operation) (storageClass : Option String) (profile : MachineProfileSpec)

/-- One for a new machine, which brings its volume. -/
def created : ℤ := if operation = .create then 1 else 0

def workspaceBytes : ℤ := created operation * (profile.workspaceGib.toNat * 1024 * 1024 * 1024)

/-- The demand of a key that is restricted to a storage class. -/
def classDemand (storage key : List Char) : Option ℤ :=
  match storageClass with
  | none => none
  | some selected =>
    if selected.toList ≠ storage then some 0
    else if key = "requests.storage".toList then some (workspaceBytes operation profile)
    else if key = "persistentvolumeclaims".toList then some (created operation)
    else none

def demand (resource : String) : Option ℤ :=
  let nanounits (value : ℤ) := checkedI128 (value * scale)
  if resource ∈ ["pods", "count/pods"] then nanounits 1
  else if resource ∈ ["count/sandboxes.agents.x-k8s.io", "persistentvolumeclaims",
      "count/persistentvolumeclaims"] then nanounits (created operation)
  else if resource ∈ ["cpu", "requests.cpu", "limits.cpu"] then
    (checkedI128 (profile.cpuMillis.toNat * scale)).map (·.tdiv 1000)
  else if resource ∈ ["memory", "requests.memory", "limits.memory"] then
    nanounits (profile.memoryMib.toNat * 1024 * 1024)
  else if resource ∈ ["ephemeral-storage", "requests.ephemeral-storage",
      "limits.ephemeral-storage"] then none
  else if resource = "requests.storage" then nanounits (workspaceBytes operation profile)
  else if resource ∈ ["services", "count/services", "services.nodeports", "services.loadbalancers",
      "secrets", "configmaps", "count/secrets", "count/configmaps"] then nanounits 0
  else do
    let (storage, key) ← splitOnce storageClassMark resource.toList
    nanounits (← classDemand operation storageClass profile storage key)

/-! ### Rows -/

/-- `value[name]`, null where there is none. -/
def index (value : Json) (name : String) : Json := (Json.field value name).getD .null

def asObject : Json → Option (List (String × Json))
  | .object members => some members
  | _ => none

def isNull : Json → Bool
  | .null => true
  | _ => false

def nonemptyArray : Json → Bool
  | .array items => !items.isEmpty
  | _ => false

def quantityOf (value : Json) : Option ℤ := (Json.asStr value).bind fun text => (quantity text).toOption

def usedOf (used : List (String × Json)) (resource : String) : Option ℤ :=
  (used.lookup resource).bind quantityOf

def asU64 (value : ℤ) : Option ℕ := if 0 ≤ value ∧ value < 2 ^ 64 then some value.toNat else none

/-- How many more demands fit in what remains. -/
def additional (remaining d : ℤ) : Option ℕ := if d > 0 then asU64 (remaining.tdiv d) else none

/-- Both amounts are known. -/
def both {α : Type} (first second : Option ℤ) (next : ℤ → ℤ → Option α) : Option α :=
  first.bind fun a => second.bind fun b => next a b

def constraintOf (used : List (String × Json)) (resource : String) (rawHard : Json) : Constraint :=
  let h := quantityOf rawHard
  let u := usedOf used resource
  let d := demand operation storageClass profile resource
  let remaining := both h u fun h u => some (max (h - u) 0)
  { resource := resource
    hard := h.map decimal
    used := u.map decimal
    remaining := remaining.map decimal
    deficit := both h u fun h u => some (decimal (max (u - h) 0))
    demand := d.map decimal
    additionalProfilesUpperBound := both remaining d additional
    reason :=
      if h.isNone then some "hard_quantity_invalid_or_unsupported"
      else if u.isNone then some "used_quantity_missing_invalid_or_unsupported"
      else if d.isNone then some "resource_demand_unknown"
      else none }

/-- The limits of the specification have not all reached the status. -/
def unpropagated (spec hard : List (String × Json)) : Bool :=
  spec.length ≠ hard.length || spec.any fun (key, v) =>
    (quantityOf v).isNone || quantityOf v ≠ (hard.lookup key).bind quantityOf

def resourceTooLong (resource : String) : Bool := resource.utf8ByteSize > 253

def hardOf (value : Json) : Option (List (String × Json)) :=
  asObject (index (index value "status") "hard")

def usedMembers (value : Json) : Option (List (String × Json)) :=
  asObject (index (index value "status") "used")

/-- A selector that is not supported might apply. -/
def hasScopes (value : Json) : Bool :=
  nonemptyArray (index (index value "spec") "scopes") ||
    !isNull (index (index value "spec") "scopeSelector")

def nameOf (value : Json) : String :=
  ((Json.asStr (index (index value "metadata") "name")).filter (·.utf8ByteSize ≤ 253)).getD "unknown"

def projectProfile (value : Json) : QuotaRow :=
  let row : QuotaRow := {
    name := nameOf value
    applicability := if hasScopes value then "unknown" else "applicable"
    constraints := []
    reasons := if hasScopes value then ["quota_scope_not_supported"] else [] }
  match asObject (index (index value "spec") "hard"), hardOf value, usedMembers value with
  | some spec, some hard, some used =>
    if hard.isEmpty || hard.length > 128 || spec.length > 128 || used.length > 128 then
      { row with reasons := row.reasons ++ ["quota_projection_limit_or_empty"] }
    else
      let kept := hard.filter fun (resource, _) => !resourceTooLong resource
      let dropped := hard.filter fun (resource, _) => resourceTooLong resource
      { row with
        constraints := kept.map fun (resource, rawHard) =>
          constraintOf operation storageClass profile used resource rawHard
        reasons := row.reasons ++
          (if unpropagated spec hard then ["quota_spec_status_propagation_unknown"] else []) ++
          dropped.map fun _ => "quota_resource_invalid" }
  | _, _, _ => { row with reasons := row.reasons ++ ["quota_status_missing"] }

end

/-! ### The owner's view -/

def thirtySeconds : ℤ := 30 * 1000000000

namespace Inventory

variable (inventory : Inventory)

def stale (now : ℤ) : Bool :=
  now < inventory.observedAt || now - inventory.observedAt > thirtySeconds

def uncertain : Bool :=
  !inventory.complete || inventory.reason.isSome || inventory.rows.any fun q =>
    q.applicability = "unknown" || !q.reasons.isEmpty || q.constraints.any fun c => c.reason.isSome

/-- The least bound of the quotas that apply without a reservation. -/
def upper : Option ℕ :=
  (((inventory.rows.filter fun q => q.applicability = "applicable" && q.reasons.isEmpty).flatMap
    QuotaRow.constraints).filterMap Constraint.additionalProfilesUpperBound).min?

def owner (operation : Operation) (now : ℤ) (overheadVerified : Bool) : OwnerQuotaView :=
  let (status, reason) :=
    if inventory.stale now then ("unknown", "quota_observation_stale")
    else if inventory.upper = some 0 then ("insufficient", "applicable_quota_exhausted")
    else if inventory.uncertain then
      ("unknown", inventory.reason.getD "quota_inventory_or_applicability_unknown")
    else if !overheadVerified then ("unknown", "runtime_overhead_or_admission_mutation_unverified")
    else ("headroom_observed", "quota_headroom_is_not_capacity_or_reservation")
  { status := status
    reason := reason
    operation := operation
    profileVersion := inventory.profileVersion
    additionalProfilesUpperBound :=
      if inventory.stale now || inventory.uncertain || !overheadVerified then none
      else inventory.upper
    observedAt := inventory.observedAt
    validUntil := inventory.observedAt + thirtySeconds
    capacityGuarantee := false
    quotaUsageFreshness := inventory.quotaUsageFreshness }

end Inventory

/-- The inventory of a list of documents that was read to its end. -/
def observed (operation : Operation) (storageClass : Option String) (profile : MachineProfileSpec)
    (profileVersion : String) (documents : List Json) (observedAt : ℤ) : Inventory where
  profileVersion := profileVersion
  rows := documents.map (projectProfile operation storageClass profile)
  complete := true
  observedAt := observedAt
  reason := none
  quotaUsageFreshness := "controller_reconciliation_time_unknown"

end NyxId.MachineQuota
