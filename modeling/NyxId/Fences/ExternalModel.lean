import NyxId.Fences.AuthorityModel

/-!
The fences of external leases: revoked leases are stored until no message can name them again.
-/

namespace NyxId.Fences.External

open Interleave Collection MachineAuthority

structure ExternalAuthority where
  principal : ExternalPrincipal
  oauthConsent : Option OAuthConsent
  contextId : String
  generation : ℕ
  mode : String
  ownerId : String
  actorId : String
  nodeId : String
  runtimeId : String
  runtimeGeneration : Option ℕ
  credentialEpoch : Option ℕ
  grantId : String
  grantRevision : ℤ
  assignmentRevision : ℤ
  leaseId : String
  jobId : Option String
  expiresAtMs : ℤ
  authExpiresAtMs : ℤ
  jobExpiresAtMs : ℤ
  fundingExpiresAtMs : Option ℤ
  capabilities : Capabilities
  fileRoots : List String
  services : List DeclaredService
  deriving DecidableEq

/-- A managed runtime has both a generation and an epoch, from 1. -/
def managedFences : Option ℕ → Option ℕ → Bool
  | none, none => true
  | some generation, some epoch => 1 ≤ generation && 1 ≤ epoch
  | _, _ => false

def consentMatches (isUuid : String → Bool) : ExternalPrincipal → Option OAuthConsent → Bool
  | .oauth _ _, some consent =>
    isUuid consent.consentId && !consent.consentRevision.isEmpty &&
      consent.consentRevision.utf8ByteSize ≤ 256
  | .apiKey _ _ _, none => true
  | _, _ => false

def ExternalAuthority.validStop (isUuid : String → Bool) (a : ExternalAuthority)
    (node runtime : String) (nowMs : ℤ) : Bool :=
  a.principal.valid isUuid && a.actorId = a.principal.userId && a.ownerId = a.actorId &&
    a.nodeId = node && a.runtimeId = runtime && a.mode = sharedMode && a.generation = 1 &&
    0 < a.grantRevision && 0 < a.assignmentRevision && nowMs < a.expiresAtMs &&
    a.expiresAtMs ≤ saturatingAdd nowMs leaseMs &&
    [a.contextId, a.ownerId, a.actorId, a.nodeId, a.runtimeId, a.grantId, a.leaseId].all isUuid &&
    a.jobId.all isUuid && managedFences a.runtimeGeneration a.credentialEpoch &&
    consentMatches isUuid a.principal a.oauthConsent

def validRoot (root : String) : Bool :=
  root.utf8ByteSize ≤ 4096 && !root.toList.contains '\x00' && root.toList.head? = some '/' &&
    !(root.toList.splitOn '/').contains ['.', '.']

def DeclaredService.valid (isUuid : String → Bool) (service : DeclaredService) : Bool :=
  isUuid service.id && !service.slug.isEmpty && service.slug.utf8ByteSize ≤ 128 &&
    service.slug.toList.all fun c => c.isAlphanum || c = '-' || c = '_'

def ExternalAuthority.valid (isUuid : String → Bool) (a : ExternalAuthority)
    (node runtime : String) (nowMs : ℤ) : Bool :=
  a.validStop isUuid node runtime nowMs && a.expiresAtMs ≤ a.authExpiresAtMs &&
    a.expiresAtMs ≤ a.jobExpiresAtMs && (a.fundingExpiresAtMs.all fun until_ => a.expiresAtMs ≤ until_) &&
    a.capabilities.valid && !a.capabilities.browser && !a.capabilities.computer &&
    !a.capabilities.developerBrowser && !a.fileRoots.isEmpty && a.fileRoots.length ≤ 16 &&
    a.fileRoots.all validRoot && a.services.length ≤ 128 &&
    (a.services.all fun service => DeclaredService.valid isUuid service) &&
    a.services.Pairwise fun other service => service.id ≠ other.id ∧ service.slug ≠ other.slug

structure ContextIdentity where
  principal : ExternalPrincipal
  ownerId : String
  nodeId : String
  grantId : String
  deriving DecidableEq

structure Durable where
  revoked : Collection String ℤ
  contexts : Collection String ContextIdentity
  grantRevisions : Collection String ℤ

def ExternalAuthority.identity (a : ExternalAuthority) : ContextIdentity :=
  { principal := a.principal.identity
    ownerId := a.ownerId
    nodeId := a.nodeId
    grantId := a.grantId }

abbrev Grants := State Durable ExternalAuthority

def Durable.changed (durable : Durable) (a : ExternalAuthority) : Bool :=
  durable.contexts.lookup a.contextId ≠ some a.identity ||
    durable.grantRevisions.lookup a.grantId ≠ some a.grantRevision

def Durable.full (durable : Durable) (a : ExternalAuthority) : Bool :=
  ((durable.contexts.lookup a.contextId).isNone && 8192 ≤ durable.contexts.entries.length) ||
    ((durable.grantRevisions.lookup a.grantId).isNone &&
      8192 ≤ durable.grantRevisions.entries.length)

def checkAdmission (isUuid : String → Bool) (state : Grants) (a : ExternalAuthority)
    (node runtime : String) (nowMs : ℤ) : Except String Unit :=
  let durable := state.durable.memory
  if !a.valid isUuid node runtime nowMs then .error "invalid external authority"
  else if (durable.revoked.lookup a.leaseId).isSome ∨ (state.leases.lookup a.leaseId).isSome ∨
      8192 ≤ state.leases.entries.length then
    .error "revoked or duplicate external lease"
  else if ((durable.contexts.lookup a.contextId).any fun previous => previous ≠ a.identity) ∨
      ((durable.grantRevisions.lookup a.grantId).any fun r => a.grantRevision < r) then
    .error "external context rebound or stale grant revision"
  else if durable.changed a ∧ durable.full a then .error "external context capacity"
  else .ok ()

def Durable.admitted (durable : Durable) (a : ExternalAuthority) : Durable :=
  { durable with
    contexts := durable.contexts.insert a.contextId a.identity
    grantRevisions := durable.grantRevisions.insert a.grantId a.grantRevision }

def ExternalAuthority.below (a other : ExternalAuthority) : Bool :=
  other.grantId = a.grantId && other.grantRevision < a.grantRevision

def ExternalAuthority.job (a : ExternalAuthority) (execution : Bool) : Option String :=
  if execution then a.jobId else none

def admitAt (isUuid : String → Bool) (state : Grants) (a : ExternalAuthority)
    (node runtime : String) (execution : Bool) (clock : LeaseClock) (write : Write)
    (instant : ℕ) : Except String Unit × Grants :=
  match checkAdmission isUuid state a node runtime clock.nowMs with
  | .error e => (.error e, state)
  | .ok () =>
    let durable := state.durable.memory
    let stored := if durable.changed a then state.durable.put write (durable.admitted a)
      else state.durable
    if durable.changed a ∧ write ≠ .done then
      (.error "external authority not stored", { state with durable := stored })
    else
      let leases := stopWhere a.below state.leases
      if clock.deadline ≤ instant then (.error "authority_expired", ⟨stored, leases⟩)
      else (.ok (), ⟨stored, leases.insert a.leaseId ⟨a, clock.deadline, false, a.job execution⟩⟩)

/-- Whether a renewal would shorten, add or drop the funding. -/
def fundingRefused : Option ℤ → Option ℤ → Bool
  | none, none => false
  | some old, some new => new < old
  | _, _ => true

def ExternalAuthority.extended (old new : ExternalAuthority) : ExternalAuthority :=
  { old with
    expiresAtMs := new.expiresAtMs
    authExpiresAtMs := new.authExpiresAtMs
    fundingExpiresAtMs := new.fundingExpiresAtMs }

def renewAt (isUuid : String → Bool) (state : Grants) (a : ExternalAuthority)
    (node runtime : String) (clock : LeaseClock) (leaseInstant clockInstant : ℕ) :
    Except String Unit × Grants :=
  if !a.valid isUuid node runtime clock.nowMs then (.error "invalid external renewal", state)
  else if (state.durable.memory.revoked.lookup a.leaseId).isSome ∨
      state.durable.memory.grantRevisions.lookup a.grantId ≠ some a.grantRevision then
    (.error "revoked external lease", state)
  else
    match state.leases.lookup a.leaseId with
    | none => (.error "unknown external lease", state)
    | some lease =>
      if lease.authority.extended a ≠ a ∨ lease.stopped = true ∨
          lease.deadline ≤ leaseInstant ∨ clock.deadline ≤ clockInstant ∨
          a.expiresAtMs ≤ lease.authority.expiresAtMs ∨
          a.authExpiresAtMs < lease.authority.authExpiresAtMs ∨
          fundingRefused lease.authority.fundingExpiresAtMs a.fundingExpiresAtMs = true then
        (.error "expired or changed external renewal", state)
      else
        (.ok (), { state with leases := state.leases.mapValues fun id lease =>
          if id = a.leaseId then { lease with authority := a, deadline := clock.deadline }
          else lease })

def retentionMs : ℤ := 120000

/-- The revocations that are still kept. -/
def Durable.pruned (durable : Durable) (nowMs : ℤ) : Durable :=
  { durable with revoked := durable.revoked.retain fun _ until_ => nowMs ≤ until_ }

def Durable.revoking (durable : Durable) (a : ExternalAuthority) (nowMs : ℤ) : Durable :=
  { durable.pruned nowMs with
    revoked := (durable.pruned nowMs).revoked.insert a.leaseId
      (max a.jobExpiresAtMs (saturatingAdd nowMs retentionMs)) }

def stopLease (id : String) (leases : Leases ExternalAuthority) : Leases ExternalAuthority :=
  leases.mapValues fun other lease => if other = id then { lease with stopped := true } else lease

def ExternalAuthority.mismatches (a other : ExternalAuthority) : Bool :=
  other.principal ≠ a.principal || other.grantId ≠ a.grantId || other.jobId ≠ a.jobId

/-- Memory is changed first, and stays so when the write fails. -/
def revokeAt (isUuid : String → Bool) (state : Grants) (a : ExternalAuthority)
    (node runtime : String) (clock : LeaseClock) (write : Write) : Except String Unit × Grants :=
  if !a.validStop isUuid node runtime clock.nowMs then (.error "invalid external revocation", state)
  else if (state.leases.lookup a.leaseId).any fun lease => a.mismatches lease.authority then
    (.error "external revocation binding mismatch", state)
  else
    let pruned := state.durable.memory.pruned clock.nowMs
    if 8192 ≤ pruned.revoked.entries.length ∧ pruned.revoked.lookup a.leaseId = none then
      (.error "external revocation capacity", { state with durable.memory := pruned })
    else
      let stored := state.durable.assign write (state.durable.memory.revoking a clock.nowMs)
      if write ≠ .done then (.error "external revocation not stored", { state with durable := stored })
      else (.ok (), ⟨stored, stopLease a.leaseId state.leases⟩)

inductive Call where
  | admitAt (a : ExternalAuthority) (node runtime : String) (execution : Bool) (clock : LeaseClock)
      (write : Write) (instant : ℕ)
  | renewAt (a : ExternalAuthority) (node runtime : String) (clock : LeaseClock)
      (leaseInstant clockInstant : ℕ)
  | revokeAt (a : ExternalAuthority) (node runtime : String) (clock : LeaseClock) (write : Write)
      (instant : ℕ)

def Call.perform (isUuid : String → Bool) (call : Call) (state : Grants) :
    Except String Unit × Grants :=
  match call with
  | .admitAt a node runtime execution clock write instant =>
    External.admitAt isUuid state a node runtime execution clock write instant
  | .renewAt a node runtime clock leaseInstant clockInstant =>
    External.renewAt isUuid state a node runtime clock leaseInstant clockInstant
  | .revokeAt a node runtime clock write _ => External.revokeAt isUuid state a node runtime clock write

def Call.authority : Call → ExternalAuthority
  | .admitAt a _ _ _ _ _ _ => a
  | .renewAt a _ _ _ _ _ => a
  | .revokeAt a _ _ _ _ _ => a

def Call.admission : Call → Option (String × Option String)
  | .admitAt a _ _ execution _ _ _ => some (a.leaseId, a.job execution)
  | _ => none

def Call.clock : Call → LeaseClock
  | .admitAt _ _ _ _ clock _ _ => clock
  | .renewAt _ _ _ clock _ _ => clock
  | .revokeAt _ _ _ clock _ _ => clock

def Call.instants : Call → ℕ × ℕ
  | .admitAt _ _ _ _ _ _ instant => (instant, instant)
  | .renewAt _ _ _ _ leaseInstant clockInstant => (leaseInstant, clockInstant)
  | .revokeAt _ _ _ _ _ instant => (instant, instant)

def grants (isUuid : String → Bool) : Kind Durable ExternalAuthority Call where
  perform := Call.perform isUuid
  admission := Call.admission
  first call := call.instants.1
  last call := call.instants.2
  nowMs call := call.clock.nowMs

end NyxId.Fences.External
