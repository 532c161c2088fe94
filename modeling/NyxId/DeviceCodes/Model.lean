import NyxId.Interleave.Rely
import Mathlib.Algebra.Order.Ring.Int
import Mathlib.Logic.Function.Basic

/-!
Device codes: approving and polling one row. A worker's number is also the id of the key and of the
node that it creates. Times are milliseconds since the epoch, poll timestamps seconds in 64 bits.
-/

namespace NyxId.DeviceCodes

open Interleave

def signatureFailureLockThreshold : ℕ := 3

def lockoutMs : ℤ := 60 * 60 * 1000

def rotateMs : ℤ := 30 * 1000

def timestampSkewSecs : ℤ := 10

def deliveryExpiresInMs : ℤ := 24 * 60 * 60 * 1000

def userCodeWriteRetries : ℕ := 5

inductive DeviceCodeStatus where
  | pending
  | approved
  | denied
  | expired
  | delivered
  deriving DecidableEq

inductive AppError where
  | deviceUserCodeInvalid
  | deviceCodeExpired
  | deviceCodeAlreadyDelivered
  | deviceCodeLocked
  | devicePollSignatureInvalid (text : String)
  | forbidden (text : String)
  | internal (text : String)
  | database
  deriving DecidableEq

structure UserCodeGen where
  code : String
  generatedAt : ℤ

/-- The delivery secrets stand for their encrypted forms, which the server alone reads. -/
structure DeviceCode where
  userCodeHistory : List UserCodeGen
  status : DeviceCodeStatus
  approvedByUserId : Option String
  approvedOrgId : Option String
  issuedApiKeyId : Option ℕ
  issuedNodeId : Option ℕ
  deliveryApiKey : Option String
  deliveryRefreshToken : Option String
  failedPollCount : ℕ
  lockedUntil : Option ℤ
  expiresAt : ℤ
  lastPolledAt : Option ℤ
  lastPollTimestamp : Option Int64
  lastRotatedAt : ℤ

structure DevicePubkeyLockout where
  failedPollCount : ℕ
  lockedUntil : Option ℤ

structure ApiKey where
  allowAllNodes : Bool
  allowedNodeIds : List ℕ

structure CreatedKey where
  id : ℕ
  fullKey : String

structure Secrets where
  apiKey : String
  refreshToken : String

structure DeviceCodeApproveInput where
  actorUserId : String
  userCode : String
  orgId : Option String

structure DeviceCodeApprove where
  apiKeyId : ℕ
  nodeId : ℕ

structure DeviceCodePollInput where
  timestamp : Int64
  signature : List UInt8

inductive DeviceCodePoll where
  | pending (currentUserCode : String)
  | approved (secrets : Secrets) (nodeId : ℕ)

/-- How a call returned. -/
inductive Result where
  | approve (r : Except AppError DeviceCodeApprove)
  | poll (input : DeviceCodePollInput) (r : Except AppError DeviceCodePoll)

/-- An approval that was stored: by which call, what the device is to get, and until when. -/
structure Approval where
  caller : ℕ
  secrets : Secrets
  deliveryExpiresAt : ℤ

structure Store where
  row : DeviceCode
  lockout : Option DevicePubkeyLockout
  keys : ℕ → Option ApiKey
  nodes : ℕ → Bool
  /-- The last reading of the server's clock. -/
  clock : ℤ
  results : ℕ → Option Result
  approval : Option Approval
  /-- The call that claimed the delivery. -/
  claimed : Option ℕ

/-- What the surroundings supply: the time that has passed, a random text, what the checks of the
owner, the label and the services or the key provider refuse, and whether a new user code is another
row's. -/
structure Env where
  elapsed : ℕ
  random : String
  refused : Option AppError
  duplicate : Bool

/-- The fields of `persist_successful_poll`. -/
structure PolledFields where
  lastPolledAt : ℤ
  lastPollTimestamp : Int64
  userCodeHistory : List UserCodeGen
  lastRotatedAt : ℤ

inductive Op : Type → Type
  | now : Op ℤ
  | findByUserCode (code : String) : Op (Option DeviceCode)
  | findRow : Op DeviceCode
  | markExpired : Op Unit
  | resolve : Op (Option AppError)
  | createApiKey : Op CreatedKey
  | createNode : Op Unit
  | scopeKeyToNode (key node : ℕ) : Op Bool
  | random : Op String
  | encryptionKeys : Op (Option AppError)
  | storeApproval (input : DeviceCodeApproveInput) (now : ℤ) (secrets : Secrets) : Op Bool
  | deleteNode (id : ℕ) : Op Unit
  | deleteKey (id : ℕ) : Op Unit
  | findLockout : Op (Option DevicePubkeyLockout)
  | recordSignatureFailure (now : ℤ) : Op ℕ
  | lockRow (now : ℤ) : Op Unit
  | recordPubkeyFailure : Op DevicePubkeyLockout
  | lockPubkey (now : ℤ) : Op (Option DevicePubkeyLockout)
  | resetPubkeyLockout : Op Unit
  | persistSuccessfulPoll (fields : PolledFields) : Op Bool
  | findKey (id : ℕ) : Op (Option ApiKey)
  | claimApprovedDelivery (now : ℤ) (timestamp : Int64) : Op (Option DeviceCode)
  | report (r : Result) : Op Unit

def isLocked (lockedUntil : Option ℤ) (now : ℤ) : Bool := lockedUntil.any (now < ·)

def exec {β : Type} (w : ℕ) (env : Env) (o : Op β) (s : Store) : β × Store :=
  match o with
  | .now => (s.clock + env.elapsed, { s with clock := s.clock + env.elapsed })
  | .findByUserCode code =>
    (if (s.row.userCodeHistory.head?.map UserCodeGen.code) = some code then some s.row else none, s)
  | .findRow => (s.row, s)
  | .markExpired => ((), { s with row := { s.row with status := .expired } })
  | .resolve => (env.refused, s)
  | .createApiKey =>
    (⟨w, env.random⟩, { s with keys := Function.update s.keys w (some ⟨false, []⟩) })
  | .createNode => ((), { s with nodes := Function.update s.nodes w true })
  | .scopeKeyToNode key node =>
    match s.keys key with
    | none => (false, s)
    | some _ => (true, { s with keys := Function.update s.keys key (some ⟨false, [node]⟩) })
  | .random => (env.random, s)
  | .encryptionKeys => (env.refused, s)
  | .storeApproval input now secrets =>
    if s.row.status = .pending ∧ now < s.row.expiresAt then
      (true, { s with
        row := { s.row with
          status := .approved
          approvedByUserId := some input.actorUserId
          approvedOrgId := input.orgId
          issuedApiKeyId := some w
          issuedNodeId := some w
          deliveryApiKey := some secrets.apiKey
          deliveryRefreshToken := some secrets.refreshToken
          expiresAt := now + deliveryExpiresInMs }
        approval := some ⟨w, secrets, now + deliveryExpiresInMs⟩ })
    else (false, s)
  | .deleteNode id => ((), { s with nodes := Function.update s.nodes id false })
  | .deleteKey id => ((), { s with keys := Function.update s.keys id none })
  | .findLockout => (s.lockout, s)
  | .recordSignatureFailure now =>
    (s.row.failedPollCount + 1, { s with
      row := { s.row with failedPollCount := s.row.failedPollCount + 1, lastPolledAt := some now } })
  | .lockRow now =>
    if isLocked s.row.lockedUntil now then ((), s)
    else ((), { s with row := { s.row with lockedUntil := some (now + lockoutMs) } })
  | .recordPubkeyFailure =>
    let lockout : DevicePubkeyLockout := match s.lockout with
      | none => ⟨1, none⟩
      | some lockout => { lockout with failedPollCount := lockout.failedPollCount + 1 }
    (lockout, { s with lockout := some lockout })
  | .lockPubkey now =>
    match s.lockout with
    | none => (none, s)
    | some lockout =>
      if isLocked lockout.lockedUntil now then (none, s)
      else
        let lockout := { lockout with lockedUntil := some (now + lockoutMs) }
        (some lockout, { s with lockout := some lockout })
  | .resetPubkeyLockout => ((), { s with lockout := s.lockout.map fun _ => ⟨0, none⟩ })
  | .persistSuccessfulPoll fields =>
    if env.duplicate then (false, s)
    else (true, { s with
      row := { s.row with
        failedPollCount := 0
        lastPolledAt := some fields.lastPolledAt
        lastPollTimestamp := some fields.lastPollTimestamp
        userCodeHistory := fields.userCodeHistory
        lastRotatedAt := fields.lastRotatedAt } })
  | .findKey id => (s.keys id, s)
  | .claimApprovedDelivery now timestamp =>
    if s.row.status = .approved then
      (some s.row, { s with
        row := { s.row with
          status := .delivered
          failedPollCount := 0
          lastPolledAt := some now
          lastPollTimestamp := some timestamp
          expiresAt := now + deliveryExpiresInMs
          deliveryApiKey := none
          deliveryRefreshToken := none }
        claimed := some w })
    else (none, s)
  | .report r => ((), { s with results := Function.update s.results w (some r) })

abbrev Code := Prog Op AppError

def ensureRowApprovable (row : DeviceCode) (now : ℤ) : Code Unit :=
  if row.expiresAt ≤ now ∨ row.status = .expired then do
    Prog.perform .markExpired
    Prog.fail .deviceCodeExpired
  else match row.status with
    | .pending => pure ()
    | .denied => Prog.fail (.forbidden "Device code denied")
    | .expired => Prog.fail .deviceCodeExpired
    | .approved => Prog.fail .deviceCodeAlreadyDelivered
    | .delivered => Prog.fail .deviceCodeAlreadyDelivered

/-- Errors of the removals are only logged. -/
def cleanupPartialApproval (apiKeyId nodeId : Option ℕ) : Code Unit := do
  match nodeId with
  | some id => do
    let _ ← (Prog.perform (.deleteNode id)).attempt
    pure ()
  | none => pure ()
  match apiKeyId with
  | some id => do
    let _ ← (Prog.perform (.deleteKey id)).attempt
    pure ()
  | none => pure ()

/-- Encrypts or decrypts a secret with the server's keys. -/
def withEncryptionKeys (secret : String) : Code String := do
  match ← Prog.perform .encryptionKeys with
  | some e => Prog.fail e
  | none => pure secret

/-- What follows once the secrets are encrypted. -/
def storeApproval (input : DeviceCodeApproveInput) (row : DeviceCode) (created : CreatedKey)
    (secrets : Secrets) : Code DeviceCodeApprove := do
  let now ← Prog.perform .now
  match ← (Prog.perform (.storeApproval input now secrets)).attempt with
  | .error e => do
    cleanupPartialApproval (some created.id) (some created.id)
    Prog.fail e
  | .ok false => do
    cleanupPartialApproval (some created.id) (some created.id)
    if row.expiresAt ≤ now then Prog.fail .deviceCodeExpired
    else Prog.fail .deviceCodeAlreadyDelivered
  | .ok true => pure ⟨created.id, created.id⟩

/-- What follows once the key and its node are there. -/
def commitApproval (input : DeviceCodeApproveInput) (row : DeviceCode) (created : CreatedKey) :
    Code DeviceCodeApprove := do
  let refreshToken ← Prog.perform .random
  match ← (withEncryptionKeys created.fullKey).attempt with
  | .error e => do
    cleanupPartialApproval (some created.id) (some created.id)
    Prog.fail e
  | .ok deliveryApiKey =>
    match ← (withEncryptionKeys refreshToken).attempt with
    | .error e => do
      cleanupPartialApproval (some created.id) (some created.id)
      Prog.fail e
    | .ok deliveryRefreshToken =>
      storeApproval input row created ⟨deliveryApiKey, deliveryRefreshToken⟩

def approve (input : DeviceCodeApproveInput) : Code DeviceCodeApprove := do
  let now ← Prog.perform .now
  match ← Prog.perform (.findByUserCode input.userCode) with
  | none => Prog.fail .deviceUserCodeInvalid
  | some row => do
    ensureRowApprovable row now
    match ← Prog.perform .resolve with
    | some e => Prog.fail e
    | none => do
      let created ← Prog.perform .createApiKey
      match ← (Prog.perform .createNode).attempt with
      | .error e => do
        cleanupPartialApproval (some created.id) none
        Prog.fail e
      | .ok () =>
        match ← (Prog.perform (.scopeKeyToNode created.id created.id)).attempt with
        | .error e => do
          cleanupPartialApproval (some created.id) (some created.id)
          Prog.fail e
        | .ok false => do
          cleanupPartialApproval (some created.id) (some created.id)
          Prog.fail (.internal "created device API key disappeared before node scoping")
        | .ok true => commitApproval input row created

/-- The distance of a timestamp from the clock, in arithmetic that wraps around. -/
def pollSkew (timestamp : Int64) (now : ℤ) : Int64 := (timestamp - Int64.ofInt (now / 1000)).abs

def verifyPollTimestamp (row : DeviceCode) (timestamp : Int64) (now : ℤ) : Option AppError :=
  if timestampSkewSecs < (pollSkew timestamp now).toInt then
    some (.devicePollSignatureInvalid "poll timestamp outside allowed skew")
  else if row.lastPollTimestamp.any (timestamp ≤ ·) then
    some (.devicePollSignatureInvalid "poll timestamp replay detected")
  else none

/-- The code that the device is to show, and the row's history with it. -/
def rotateUserCodeIfNeeded (row : DeviceCode) (now : ℤ) (newCode : String) :
    Except AppError (String × List UserCodeGen × ℤ) :=
  if rotateMs < now - row.lastRotatedAt then
    .ok (newCode, (⟨newCode, now⟩ :: row.userCodeHistory).take 4, now)
  else match row.userCodeHistory with
    | generation :: _ => .ok (generation.code, row.userCodeHistory, row.lastRotatedAt)
    | [] => .error (.internal "device code has no user code history")

/-- The attempts that are left after a user code that another row has. -/
def rotateAndPersistPendingPoll (row : DeviceCode) (timestamp : Int64) (now : ℤ) : ℕ → Code DeviceCodePoll
  | 0 => Prog.fail .database
  | attempts + 1 => do
    let newCode ← Prog.perform .random
    match rotateUserCodeIfNeeded row now newCode with
    | .error e => Prog.fail e
    | .ok (current, history, rotatedAt) => do
      if ← Prog.perform (.persistSuccessfulPoll ⟨now, timestamp, history, rotatedAt⟩) then
        pure (.pending current)
      else rotateAndPersistPendingPoll row timestamp now attempts

def recordSignatureFailure (now : ℤ) : Code Unit := do
  let failures ← Prog.perform (.recordSignatureFailure now)
  if failures < signatureFailureLockThreshold then pure ()
  else Prog.perform (.lockRow now)

def recordPubkeySignatureFailure (now : ℤ) : Code DevicePubkeyLockout := do
  let updated ← Prog.perform .recordPubkeyFailure
  if isLocked updated.lockedUntil now ∨ updated.failedPollCount < signatureFailureLockThreshold then
    pure updated
  else match ← Prog.perform (.lockPubkey now) with
    | some locked => pure locked
    | none =>
      match ← Prog.perform .findLockout with
      | some locked => pure locked
      | none => Prog.fail (.internal "pubkey lockout row disappeared")

def decryptDeliverySecret (encrypted : Option String) (label : String) : Code String :=
  match encrypted with
  | none => Prog.fail (.internal ("approved device code missing delivery " ++ label))
  | some secret => withEncryptionKeys secret

/-- The answer that a claimed row gives. -/
def openDelivery (claimed : DeviceCode) : Code DeviceCodePoll := do
  let apiKey ← decryptDeliverySecret claimed.deliveryApiKey "api key"
  let refreshToken ← decryptDeliverySecret claimed.deliveryRefreshToken "refresh token"
  match claimed.issuedNodeId with
  | none => Prog.fail (.internal "approved device code missing issued node id")
  | some nodeId => pure (.approved ⟨apiKey, refreshToken⟩ nodeId)

def deliver (row : DeviceCode) (timestamp : Int64) (now : ℤ) : Code DeviceCodePoll := do
  match row.issuedApiKeyId with
  | none => Prog.fail (.internal "approved device code missing issued key id")
  | some keyId =>
    match ← Prog.perform (.findKey keyId) with
    | none => Prog.fail (.internal "issued device key is missing")
    | some _ =>
      match ← Prog.perform (.claimApprovedDelivery now timestamp) with
      | none => Prog.fail .deviceCodeAlreadyDelivered
      | some claimed => openDelivery claimed

/-- `verify` is the check of a signature with the row's public key. -/
def poll (verify : DeviceCodePollInput → Bool) (input : DeviceCodePollInput) : Code DeviceCodePoll := do
  let now ← Prog.perform .now
  let row ← Prog.perform .findRow
  if row.status = .delivered then Prog.fail .deviceCodeAlreadyDelivered
  else if row.expiresAt ≤ now ∨ row.status = .expired then do
    Prog.perform .markExpired
    Prog.fail .deviceCodeExpired
  else do
    let lockout ← Prog.perform .findLockout
    if lockout.any fun lockout => isLocked lockout.lockedUntil now then Prog.fail .deviceCodeLocked
    else match verifyPollTimestamp row input.timestamp now with
      | some e => Prog.fail e
      | none =>
        if verify input = false then do
          recordSignatureFailure now
          let lockout ← recordPubkeySignatureFailure now
          if isLocked lockout.lockedUntil now then Prog.fail .deviceCodeLocked
          else Prog.fail (.devicePollSignatureInvalid "poll signature verification failed")
        else do
          Prog.perform .resetPubkeyLockout
          match row.status with
          | .pending =>
            rotateAndPersistPendingPoll row input.timestamp now (userCodeWriteRetries + 1)
          | .approved => deliver row input.timestamp now
          | .denied => Prog.fail (.forbidden "Device code denied")
          | .expired => Prog.fail .deviceCodeExpired
          | .delivered => Prog.fail .deviceCodeAlreadyDelivered

inductive Call where
  | approve (input : DeviceCodeApproveInput)
  | poll (input : DeviceCodePollInput)

def code (verify : DeviceCodePollInput → Bool) : Call → Code Unit
  | .approve input => do
    let r ← (approve input).attempt
    Prog.perform (.report (.approve r))
  | .poll input => do
    let r ← (poll verify input).attempt
    Prog.perform (.report (.poll input r))

def machine (verify : DeviceCodePollInput → Bool) : Machine where
  Op := Op
  Err := AppError
  Store := Store
  Env := Env
  Entry := Call
  exec := exec
  dropped := .database
  code _ := code verify

/-- A row that nothing was approved for, before any call. -/
def start (row : DeviceCode) (lockout : Option DevicePubkeyLockout) (clock : ℤ) : Store :=
  ⟨row, lockout, fun _ => none, fun _ => false, clock, fun _ => none, none, none⟩

end NyxId.DeviceCodes
