import NyxId.Billing.Resources
import Mathlib.Logic.Equiv.List

/-!
The life of a credit grant outside settlement: issue, revocation, reclaim and
expiry, each journaled after its effect and caught up with by a later sweep.
-/

namespace NyxId.Billing

open Interleave

def maxServiceLimits : ℕ := 20

/-- One requested ceiling, with its services resolved. -/
structure CreditServiceLimitInput where
  serviceIds : List Id
  serviceSlugs : List Id
  amount : Credits

/-- The stable key of a canonical group of services. -/
def serviceLimitKey (serviceIds : List Id) : Id :=
  Encodable.encode (serviceIds.insertionSort (· ≤ ·))

/-- The ceilings of a grant: a service belongs to one of them at most. -/
def resolveServiceLimits (scope : BillingServiceScope) (amount : Credits) :
    List CreditServiceLimitInput → List Id → Except AppError (List CreditServiceLimit)
  | [], _ => .ok []
  | input :: rest, used =>
    if input.serviceIds = [] then
      .error (.validationError "Each service limit needs 1–100 services")
    else if input.amount.pico ≤ 0 ∨ amount.pico < input.amount.pico then
      .error (.validationError
        "Service limits must be positive and no greater than the shared total")
    else if ¬ input.serviceIds.Nodup ∨ input.serviceIds.any (· ∈ used) then
      .error (.validationError
        "A service can belong to only one limit (including ID and slug aliases)")
    else if ¬ scope.allServices ∧ input.serviceIds.any (· ∉ scope.serviceIds) then
      .error (.validationError "Service limits must select eligible services")
    else do
      let rules ← resolveServiceLimits scope amount rest (input.serviceIds ++ used)
      return {
        key := serviceLimitKey input.serviceIds
        serviceIds := input.serviceIds.insertionSort (· ≤ ·)
        serviceSlugs := input.serviceSlugs
        limit := input.amount
        consumed := 0
        reserved := 0 } :: rules

/-- One recipient's share of an issue request. -/
structure IssueCreditGrant where
  recipientUserId : Id
  amount : Credits
  scope : BillingServiceScope
  serviceLimits : List CreditServiceLimitInput
  expiresAt : Option Time

def IssueCreditGrant.grant (input : IssueCreditGrant) (now : Time) :
    Except AppError CreditGrant :=
  if input.amount.pico ≤ 0 ∨ maxGrantCredits * Credits.scale < input.amount.pico then
    .error (.validationError "Allocation amount must be positive and at most 1000000 credits")
  else if maxServiceLimits < input.serviceLimits.length then
    .error (.validationError "At most 20 service limits are allowed")
  else do
    let rules ← resolveServiceLimits input.scope input.amount input.serviceLimits []
    return {
      recipientUserId := input.recipientUserId
      amount := input.amount
      remaining := input.amount.pico
      reserved := 0
      scope := input.scope
      serviceLimits := rules
      expiresAt := input.expiresAt
      status := .active
      issuedLedgeredAt := none
      terminalLedgeredAt := none
      terminalAmount := 0
      activeSettlement := none
      createdAt := now
      revokeRequestedAt := none }

def journalIssue (id : Id) (grant : CreditGrant) : Code Unit := do
  if ← recordGrantIssued id grant then
    let _ ← perform (.updateGrant id .markIssuedLedgered)

def issueGrant (id : Id) (input : IssueCreditGrant) : Code Unit := do
  let now ← perform .now
  let grant ← checked (input.grant now)
  commit (.insertGrant id grant)
  journalIssue id grant

def revokeGrantImmediate (id : Id) : Code Unit := do
  match ← perform (.updateGrant id .revokeImmediate) with
  | none =>
    Prog.fail (.badRequest "credit grant is not active or has an in-flight settlement")
  | some previous =>
    let amount ← checked (decodeCredits (max previous.remaining 0))
    if ← recordGrantRevoked id previous amount then
      let _ ← perform (.updateGrant id .markTerminalLedgered)

def requestRevokeGrant (id : Id) : Code Unit := do
  let _ ← perform (.updateGrant id .requestRevoke)
  finalizeReclaim id

/-- What the expiry sweep does for one of the grants that are due. -/
def expireDueGrant (id : Id) : Code Unit := do
  let now ← perform .now
  match ← perform (.updateGrant id (.expire now)) with
  | none => return
  | some grant =>
    let amount ← checked (decodeCredits (max grant.remaining 0))
    if ← recordGrantExpired id grant amount then
      let _ ← perform (.updateGrant id .markTerminalLedgered)

def journalTerminal (id : Id) (grant : CreditGrant) : Code Bool := do
  let amount ← checked (decodeCredits (max grant.terminalAmount 0))
  match grant.status with
  | .expired => recordGrantExpired id grant amount
  | .revoked => recordGrantRevoked id grant amount
  | _ => return false

/-- Journal writes that a crash left pending are retried. -/
def recoverUnledgeredEvents (id : Id) : Code Unit := do
  match ← perform (.findGrant id) with
  | none => return
  | some grant =>
    if grant.issuedLedgeredAt.isNone then journalIssue id grant
    if grant.terminalLedgeredAt.isNone then
      if ← journalTerminal id grant then
        let _ ← perform (.updateGrant id .markTerminalLedgered)

end NyxId.Billing
