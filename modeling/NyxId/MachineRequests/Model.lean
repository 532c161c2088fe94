import NyxId.Encoding.KeyOrder
import NyxId.Encoding.Records
import NyxId.MachineAuthority

/-!
Signed requests to a machine: what the signature is computed over, and the guard that
accepts every signed request once.
-/

namespace NyxId.MachineRequests

open Encoding MachineAuthority

structure Authority where
  requireV2 : Bool
  contextId : String
  generation : UInt64
  mode : String
  agentId : String
  ownerId : String
  actorId : String
  groupId : Option String
  runtimeId : String
  conversationId : String
  turnId : String
  leaseId : String
  revision : Int64
  expiresAtMs : Int64
  capabilities : Capabilities
deriving DecidableEq

structure ExternalAuthority where
  principal : ExternalPrincipal
  oauthConsent : Option OAuthConsent
  contextId : String
  generation : UInt64
  mode : String
  ownerId : String
  actorId : String
  nodeId : String
  runtimeId : String
  runtimeGeneration : Option UInt64
  credentialEpoch : Option UInt64
  grantId : String
  grantRevision : Int64
  assignmentRevision : Int64
  leaseId : String
  jobId : Option String
  expiresAtMs : Int64
  authExpiresAtMs : Int64
  jobExpiresAtMs : Int64
  fundingExpiresAtMs : Option Int64
  capabilities : Capabilities
  fileRoots : List String
  services : List DeclaredService
deriving DecidableEq

inductive Operation
  | authorityRenew | authorityRevoke | proxyUpload | serviceCall | jobFinished | exec | job
  | jobCancel | listFiles | readFile | writeFile | editFile | saveAttachment | shareFile
  | computer | browser | cancel | cancelExact | upgrade | upgradeStatus | containerInspect
  | containerMigrate | desktopOpen | desktopClose | desktopControl | desktopInput | fillLogin
deriving DecidableEq

def Operation.asStr : Operation → String
  | .authorityRenew => "authority_renew"
  | .authorityRevoke => "authority_revoke"
  | .proxyUpload => "proxy_upload"
  | .serviceCall => "service_call"
  | .jobFinished => "job_finished"
  | .exec => "exec"
  | .job => "job"
  | .jobCancel => "job_cancel"
  | .listFiles => "list_files"
  | .readFile => "read_file"
  | .writeFile => "write_file"
  | .editFile => "edit_file"
  | .saveAttachment => "save_attachment"
  | .shareFile => "share_file"
  | .computer => "computer"
  | .browser => "browser"
  | .cancel => "cancel"
  | .cancelExact => "cancel_exact"
  | .upgrade => "upgrade"
  | .upgradeStatus => "upgrade_status"
  | .containerInspect => "container_inspect"
  | .containerMigrate => "container_migrate"
  | .desktopOpen => "desktop_open"
  | .desktopClose => "desktop_close"
  | .desktopControl => "desktop_control"
  | .desktopInput => "desktop_input"
  | .fillLogin => "fill_login"

/-- A text has at most `isize::MAX` bytes. -/
def FitsInMemory (text : String) : Prop := text.utf8ByteSize < 2 ^ 63

instance (text : String) : Decidable (FitsInMemory text) :=
  inferInstanceAs (Decidable (text.utf8ByteSize < 2 ^ 63))

structure Request where
  version : UInt32
  authority : Option Authority
  externalAuthority : Option ExternalAuthority
  requestId : String
  nodeId : String
  operation : Operation
  parameters : Json
  timestamp : Int64
  nonce : String
  signature : String
  sizes : FitsInMemory requestId ∧ FitsInMemory nodeId ∧ FitsInMemory nonce

def unsignedJson (n : UInt64) : Json := integerJson n.toNat

def signedJson (n : Int64) : Json := integerJson n.toInt

def Capabilities.toJson (c : Capabilities) : Json :=
  .object [("shell", .bool c.shell), ("files", .bool c.files), ("browser", .bool c.browser),
    ("computer", .bool c.computer), ("developer_browser", .bool c.developerBrowser)]

def Authority.toJson (a : Authority) : Json :=
  .object [("require_v2", .bool a.requireV2), ("context_id", .string a.contextId),
    ("generation", unsignedJson a.generation), ("mode", .string a.mode),
    ("agent_id", .string a.agentId), ("owner_id", .string a.ownerId),
    ("actor_id", .string a.actorId), ("group_id", optionJson .string a.groupId),
    ("runtime_id", .string a.runtimeId), ("conversation_id", .string a.conversationId),
    ("turn_id", .string a.turnId), ("lease_id", .string a.leaseId),
    ("revision", signedJson a.revision), ("expires_at_ms", signedJson a.expiresAtMs),
    ("capabilities", Capabilities.toJson a.capabilities)]

def ExternalPrincipal.toJson : ExternalPrincipal → Json
  | .oauth userId oauthClientId =>
    .object [("kind", .string "oauth"), ("user_id", .string userId),
      ("oauth_client_id", .string oauthClientId)]
  | .apiKey userId apiKeyId apiKeyCredentialId =>
    .object [("kind", .string "api_key"), ("user_id", .string userId),
      ("api_key_id", .string apiKeyId),
      ("api_key_credential_id", optionJson .string apiKeyCredentialId)]

def OAuthConsent.toJson (c : OAuthConsent) : Json :=
  .object [("consent_id", .string c.consentId), ("consent_revision", .string c.consentRevision)]

def DeclaredService.toJson (s : DeclaredService) : Json :=
  .object [("id", .string s.id), ("slug", .string s.slug)]

def ExternalAuthority.toJson (a : ExternalAuthority) : Json :=
  .object [("principal", ExternalPrincipal.toJson a.principal),
    ("oauth_consent", optionJson OAuthConsent.toJson a.oauthConsent),
    ("context_id", .string a.contextId), ("generation", unsignedJson a.generation),
    ("mode", .string a.mode), ("owner_id", .string a.ownerId), ("actor_id", .string a.actorId),
    ("node_id", .string a.nodeId), ("runtime_id", .string a.runtimeId),
    ("runtime_generation", optionJson unsignedJson a.runtimeGeneration),
    ("credential_epoch", optionJson unsignedJson a.credentialEpoch),
    ("grant_id", .string a.grantId), ("grant_revision", signedJson a.grantRevision),
    ("assignment_revision", signedJson a.assignmentRevision), ("lease_id", .string a.leaseId),
    ("job_id", optionJson .string a.jobId), ("expires_at_ms", signedJson a.expiresAtMs),
    ("auth_expires_at_ms", signedJson a.authExpiresAtMs),
    ("job_expires_at_ms", signedJson a.jobExpiresAtMs),
    ("funding_expires_at_ms", optionJson signedJson a.fundingExpiresAtMs),
    ("capabilities", Capabilities.toJson a.capabilities),
    ("file_roots", .array (a.fileRoots.map .string)),
    ("services", .array (a.services.map DeclaredService.toJson))]

/-- Functions of other packages. -/
structure Crypto where
  sha256 : List UInt8 → Vector UInt8 32
  hmacSha256 : List UInt8 → List UInt8 → List UInt8
  hexDecode : String → Option (List UInt8)
  uuidParses : String → Bool

/-- Compact text with the fields of every object in the order of their keys. -/
def canonical (value : Json) : List UInt8 := utf8 (String.ofList (writeJson (sortKeys value)))

def externalVersion : UInt32 := 3

def authorityVersion : UInt32 := 2

def authorityText (request : Request) : List UInt8 :=
  canonical (optionJson Authority.toJson request.authority)

def externalAuthorityText (request : Request) : List UInt8 :=
  canonical (optionJson ExternalAuthority.toJson request.externalAuthority)

def domain (crypto : Crypto) (request : Request) : List UInt8 :=
  if request.version = externalVersion then
    utf8 "nyxid.machine.request.v3\x00" ++
      ((crypto.sha256 (externalAuthorityText request)).toList ++ beBytes 4 request.version.toNat)
  else if request.version = authorityVersion then
    utf8 "nyxid.machine.request.v2\x00" ++
      ((crypto.sha256 (authorityText request)).toList ++ beBytes 4 request.version.toNat)
  else utf8 "nyxid.machine.request.v1\x00"

def frames (crypto : Crypto) (request : Request) : List (List UInt8) :=
  [utf8 request.requestId, utf8 request.nodeId,
    utf8 (String.ofList (writeString request.operation.asStr)),
    (crypto.sha256 (canonical request.parameters)).toList,
    beBytes 8 request.timestamp.toUInt64.toNat, utf8 request.nonce]

/-- The bytes that `request_mac` feeds. -/
def macInput (crypto : Crypto) (request : Request) : List UInt8 :=
  domain crypto request ++ (frames crypto request).flatMap (framed (beBytes 8))

inductive Rejection
  | malformed
  | signature
  | stale
  | replay
  | capacity
deriving DecidableEq

def windowSecs : ℤ := 60

def maxNonces : ℕ := 8192

def i64Max : ℤ := 2 ^ 63 - 1

/-- The version and shape checks. -/
def wellShaped (crypto : Crypto) (request : Request) (nodeId : String) (secret : List UInt8) : Bool :=
  !(!(request.version = 1 ∨ request.version = 2 ∨ request.version = 3)
    || (request.version = 1 && request.authority.isSome)
    || (request.version = 2 && request.authority.isNone)
    || (request.version ≠ 3 && request.externalAuthority.isSome)
    || (request.version = 3 && (request.externalAuthority.isNone || request.authority.isSome))
    || request.nodeId ≠ nodeId
    || !crypto.uuidParses request.requestId
    || !crypto.uuidParses request.nonce
    || secret.isEmpty)

def verifySignatureAndFreshness (crypto : Crypto) (request : Request) (nodeId : String)
    (secret : List UInt8) (now : Int64) : Except Rejection Unit :=
  if !wellShaped crypto request nodeId secret then .error .malformed
  else if |request.timestamp.toInt - now.toInt| > windowSecs then .error .stale
  else match crypto.hexDecode request.signature with
    | none => .error .signature
    | some provided =>
      if crypto.hmacSha256 secret (macInput crypto request) = provided then .ok ()
      else .error .signature

/-- Nonces with the time up to which they are kept. -/
structure ReplayGuard where
  nonces : List (String × ℤ)
deriving DecidableEq

def ReplayGuard.new : ReplayGuard := ⟨[]⟩

def ReplayGuard.verify (crypto : Crypto) (guard : ReplayGuard) (request : Request)
    (nodeId : String) (secret : List UInt8) (now : Int64) : ReplayGuard × Except Rejection Unit :=
  match verifySignatureAndFreshness crypto request nodeId secret now with
  | .error rejection => (guard, .error rejection)
  | .ok () =>
    let nonces := guard.nonces.filter fun entry => now.toInt ≤ entry.2
    if (nonces.map Prod.fst).contains request.nonce then (⟨nonces⟩, .error .replay)
    else if maxNonces ≤ nonces.length then (⟨nonces⟩, .error .capacity)
    else (⟨nonces ++ [(request.nonce, min (request.timestamp.toInt + windowSecs) i64Max)]⟩, .ok ())

/-- A call of the guard. -/
structure Call where
  request : Request
  nodeId : String
  secret : List UInt8
  now : Int64

/-- The calls that a guard accepts, in their order. -/
def accepted (crypto : Crypto) : ReplayGuard → List Call → List Call
  | _, [] => []
  | guard, call :: rest =>
    let (next, result) := guard.verify crypto call.request call.nodeId call.secret call.now
    match result with
    | .ok _ => call :: accepted crypto next rest
    | .error _ => accepted crypto next rest

end NyxId.MachineRequests
