import NyxId.Credits
import NyxId.Interleave.Collection
import NyxId.Interleave.Rely
import NyxId.Outcomes

/-!
The usage row and the funding record embedded in it, as far as settlement reads
or writes them. Identifiers are opaque; a claim identifier is the number of the
worker that drew it.
-/

namespace NyxId

abbrev Id := ℕ

abbrev ClaimId := ℕ

/-- Milliseconds on the database clock. -/
abbrev Time := ℤ

inductive AppError where
  | credits
  | internal (message : String)
  | billingProviderUnavailable (message : String)
  | billingNotConfigured (message : String)
  | conflict (message : String)
  | validationError (message : String)
  | badRequest (message : String)
  | walletSuspended
  | insufficientCredits
  | duplicateKey
  | database
  deriving DecidableEq

def conflict {α : Type} (reason : String) : Except AppError α := .error (.conflict reason)

def invalid {α : Type} (reason : String) : Except AppError α := .error (.validationError reason)

def unavailable {α : Type} (reason : String) : Except AppError α :=
  .error (.billingProviderUnavailable reason)

def orInvalid {α : Type} (reason : String) : Option α → Except AppError α
  | some a => .ok a
  | none => invalid reason

theorem orInvalid_eq_ok {α : Type} {reason : String} {x : Option α} {a : α}
    (h : orInvalid reason x = .ok a) : x = some a := by
  cases x with
  | none => cases h
  | some b =>
    cases h
    rfl

/-- The value, or an error where there is none. -/
def okOr {ε α : Type} (answer : Option α) (error : ε) : Except ε α := answer.elim (.error error) .ok

theorem okOr_eq_ok {ε α : Type} {answer : Option α} {error : ε} {x : α} :
    okOr answer error = .ok x ↔ answer = some x := by
  cases answer <;> simp [okOr]

/-- An error of fallible code came from its first part or from the rest. -/
theorem bind_eq_error {α β : Type} {x : Except AppError α} {f : α → Except AppError β}
    {e : AppError} (h : x >>= f = .error e) : x = .error e ∨ ∃ a, x = .ok a ∧ f a = .error e := by
  cases x with
  | error e' =>
    cases h
    exact .inl rfl
  | ok a => exact .inr ⟨a, rfl, h⟩

/-- An amount outside the credit range is an error of the checked arithmetic. -/
def creditsOrError {α : Type} : Option α → Except AppError α
  | some a => .ok a
  | none => .error .credits

theorem creditsOrError_eq_ok {α : Type} {x : Option α} {a : α}
    (h : creditsOrError x = .ok a) : x = some a := by
  cases x with
  | none => cases h
  | some b =>
    cases h
    rfl

inductive BillingMetric where
  | tokens
  | requests
  | bytes
  | inputTokens
  | outputTokens
  | cacheReadTokens
  | cacheWriteTokens
  | reasoningTokens
  | imageInputTokens
  | imageOutputTokens
  | audioInputTokens
  | audioOutputTokens
  | images
  | voiceSeconds
  | machineRunningSeconds
  | sandboxCpuMillisSeconds
  | sandboxMemoryMibSeconds
  | sandboxDiskGibSeconds
  deriving DecidableEq

def BillingMetric.isRuntimeAllocation : BillingMetric → Bool
  | machineRunningSeconds | sandboxCpuMillisSeconds | sandboxMemoryMibSeconds
  | sandboxDiskGibSeconds => true
  | _ => false

inductive UsageStatus where
  | reserved
  | forwarded
  | finalized
  | failed
  | abandoned
  | deadLetter
  deriving DecidableEq

inductive BillingLayer where
  | platform
  | resale
  deriving DecidableEq

/-- What a settlement operation on a benefit is for. -/
inductive OperationKind where
  | allowance
  | allowanceExtra
  | allowanceRelease
  | grant
  | grantExtra
  | grantRelease
  deriving DecidableEq

/-- The text `<row>:<kind>:<resource>` that names a settlement operation. -/
structure OperationId where
  row : Id
  kind : OperationKind
  resource : Id
  deriving DecidableEq

structure AllowanceReservationAllocation where
  allowanceId : Id
  periodId : Id
  quantity : ℤ
  deriving DecidableEq

structure GrantReservationAllocation where
  grantId : Id
  serviceLimitKey : Option Id
  amount : Credits
  deriving DecidableEq

structure AllowanceConsumptionAllocation where
  operationId : OperationId
  allowanceId : Id
  periodId : Id
  quantity : ℤ
  deriving DecidableEq

structure GrantConsumptionAllocation where
  operationId : OperationId
  grantId : Id
  serviceLimitKey : Option Id
  amount : Credits
  deriving DecidableEq

structure UsageFunding where
  walletOnly : Bool := false
  lagoCarryId : Option String := none
  creditsPerUnitMicros : ℤ := 0
  creditsPerUnitPico : Option ℤ := none
  settlementRate : Option Credits := none
  allowanceReservations : List AllowanceReservationAllocation := []
  grantReservations : List GrantReservationAllocation := []
  allowanceConsumptions : List AllowanceConsumptionAllocation := []
  grantConsumptions : List GrantConsumptionAllocation := []
  settled : Bool := false
  settlementClaimId : Option ClaimId := none
  settlementClaimedAt : Option Time := none
  walletChargeCredits : Option Credits := none
  walletTaxCredits : Option Credits := none
  totalCharge : Option Credits := none
  allowanceFundedQuantity : Option ℤ := none
  allowanceFunded : Option Credits := none
  grantFunded : Option Credits := none
  walletFunded : Option Credits := none
  lagoBillableQuantityMicros : Option ℤ := none
  taxAccounting : Bool := false
  /-- The tax rate, in percent, that the reservation found. -/
  appliedTax : Option Credits := none
  deriving DecidableEq

structure UsageMeterRow where
  billingRequestId : Id
  layer : BillingLayer
  billingOwnerId : Id
  walletId : Option Id
  metric : BillingMetric
  lagoMetricCode : Id
  reservedCredits : Credits
  funding : Option UsageFunding
  quantity : Option ℤ
  status : UsageStatus
  forwarded : Bool
  released : Bool
  settlementAttempts : ℕ
  settlementNextRetryAt : Option Time
  finalizedAt : Option Time
  updatedAt : Time
  serviceId : Option Id := none
  serviceSlug : Option Id := none
  lagoAcked : Bool := false
  managedExecution : Option Id := none
  /-- The lease of the pool attempt that the row belongs to. -/
  poolLeaseUntil : Option Time := none
  deriving DecidableEq

/-- The funding record that an update of one of its fields finds or creates. -/
def UsageMeterRow.fundingD (row : UsageMeterRow) : UsageFunding := row.funding.getD {}

def UsageMeterRow.settled (row : UsageMeterRow) : Bool := row.fundingD.settled

def UsageMeterRow.claim (row : UsageMeterRow) : Option ClaimId :=
  row.fundingD.settlementClaimId

/-- A settlement attempt may take the row over once an earlier claim is stale. -/
def fundingClaimLeaseMillis : Time := 60000

def UsageMeterRow.claimable (row : UsageMeterRow) (now : Time) : Bool :=
  !row.released && !row.settled &&
    (row.claim.isNone ||
      row.fundingD.settlementClaimedAt.any (· ≤ now - fundingClaimLeaseMillis))

def UsageMeterRow.setClaim (row : UsageMeterRow) (claim : ClaimId) (now : Time) :
    UsageMeterRow :=
  { row with
    funding := some { row.fundingD with
      settlementClaimId := some claim
      settlementClaimedAt := some now }
    updatedAt := now }

/-- The funding fields that one commit writes besides the Lago quantity. -/
structure SettlementFields where
  totalCharge : Credits
  allowanceFundedQuantity : ℤ
  allowanceFunded : Credits
  grantFunded : Credits
  walletFunded : Credits
  walletChargeCredits : Credits
  walletTaxCredits : Credits
  deriving DecidableEq

/-- The row as one commit leaves it: settled, with its claim removed. -/
def UsageMeterRow.commit (row : UsageMeterRow) (fields : SettlementFields) (quantity : ℤ)
    (carryId : Option String) (now : Time) : UsageMeterRow :=
  { row with
    funding := some { row.fundingD with
      settled := true
      totalCharge := some fields.totalCharge
      allowanceFundedQuantity := some fields.allowanceFundedQuantity
      allowanceFunded := some fields.allowanceFunded
      grantFunded := some fields.grantFunded
      walletFunded := some fields.walletFunded
      walletChargeCredits := some fields.walletChargeCredits
      walletTaxCredits := some fields.walletTaxCredits
      lagoBillableQuantityMicros := some quantity
      lagoCarryId := carryId
      settlementClaimId := none
      settlementClaimedAt := none }
    updatedAt := now }

/-- What a settled row's funding leaves for the wallet and for Lago. -/
structure FundingSettlement where
  walletChargeCredits : Credits
  lagoBillableQuantityMicros : ℤ
  deriving DecidableEq

def settlementFromFunding (funding : UsageFunding) : FundingSettlement where
  walletChargeCredits := (funding.walletChargeCredits.getD .zero).max .zero
  lagoBillableQuantityMicros := max (funding.lagoBillableQuantityMicros.getD 0) 0

end NyxId
