import NyxId.Encoding.Text
import NyxId.Interleave.Collection
import NyxId.Interleave.Tenures

/-!
The stores through which replicas coordinate: leases, slots, event claims and replay
records. Every document of a store is found under its key, and every update of one is one
step under the clock of the database, in milliseconds since the epoch.
-/

namespace NyxId.Coordination

open Interleave Encoding

structure CoordinationHolder where
  instanceId : String
  generationId : String
deriving DecidableEq

def durationMillis (millis : ℕ) (name : String) : Except String ℕ :=
  if 2 ^ 63 - 1 < millis then .error (name ++ " exceeds MongoDB duration range")
  else if millis = 0 then .error (name ++ " must be positive")
  else .ok millis

def hashParts (sha256 : List UInt8 → Vector UInt8 32) (parts : List String) : String :=
  hexEncode (sha256 (parts.flatMap fun part =>
    beBytes 8 (utf8 part).length ++ utf8 part)).toList

def dateAddNow (now amountMs : ℕ) : ℕ := now + amountMs

/-- `claimable_stage`: an absent date counts as the epoch. -/
def claimable (expiresAt : Option ℕ) (now : ℕ) : Bool := expiresAt.getD 0 ≤ now

section

variable {V : Type} [DecidableEq V]

/-- `update_one`, and whether it modified the document. -/
def updateOne (filter : V → Bool) (change : V → V) (docs : Collection String V) (key : String) :
    Collection String V × Bool :=
  match docs.lookup key with
  | some doc =>
    if filter doc then (docs.insert key (change doc), decide (change doc ≠ doc)) else (docs, false)
  | none => (docs, false)

omit [DecidableEq V] in
/-- `delete_one`, and whether it deleted the document. -/
def deleteOne (filter : V → Bool) (docs : Collection String V) (key : String) :
    Collection String V × Bool :=
  match docs.lookup key with
  | some doc => if filter doc then (docs.erase key, true) else (docs, false)
  | none => (docs, false)

end

section

variable {α : Type}

inductive CoordinationLeaseKind
  | ephemeral
  | checkpoint
deriving DecidableEq

/-- A stored value; a null is read back as no value. -/
inductive Bson (α : Type)
  | null
  | value (v : α)
deriving DecidableEq

structure CoordinationLease (α : Type) where
  holder : CoordinationHolder
  leaseId : String
  recordKind : CoordinationLeaseKind
  acquiredAt : ℕ
  updatedAt : ℕ
  expiresAt : ℕ
  checkpoint : Option (Bson α)
deriving DecidableEq

structure LeaseToken where
  name : String
  holder : CoordinationHolder
  leaseId : String
deriving DecidableEq

abbrev Leases (α : Type) := Collection String (CoordinationLease α)

/-- The lease after it was claimed; what it kept before is its kind and its checkpoint. -/
def claimLease (now ttlMs : ℕ) (holder : CoordinationHolder) (leaseId : String)
    (before : Option (CoordinationLease α)) : CoordinationLease α where
  holder := holder
  leaseId := leaseId
  recordKind := (before.map (·.recordKind)).getD .ephemeral
  acquiredAt := now
  updatedAt := now
  expiresAt := dateAddNow now ttlMs
  checkpoint := before.bind (·.checkpoint)

def acquireLease (now : ℕ) (name : String) (holder : CoordinationHolder) (ttl : ℕ)
    (leaseId : String) (leases : Leases α) : Except String (Leases α × Option LeaseToken) := do
  let ttlMs ← durationMillis ttl "lease TTL"
  let before := leases.lookup name
  if claimable (before.map (·.expiresAt)) now then
    return (leases.insert name (claimLease now ttlMs holder leaseId before),
      some ⟨name, holder, leaseId⟩)
  else if before.any (·.leaseId = leaseId) then
    return (leases, some ⟨name, holder, leaseId⟩)
  else return (leases, none)

def exactLease (holder : CoordinationHolder) (leaseId : String) (lease : CoordinationLease α) :
    Bool :=
  lease.holder.instanceId = holder.instanceId && lease.holder.generationId = holder.generationId &&
    lease.leaseId = leaseId

def activeLease (now : ℕ) (holder : CoordinationHolder) (leaseId : String)
    (lease : CoordinationLease α) : Bool :=
  exactLease holder leaseId lease && now < lease.expiresAt

/-- The first update of a release. -/
def deleteLease (token : LeaseToken) (leases : Leases α) : Leases α × Bool :=
  deleteOne (fun lease => exactLease token.holder token.leaseId lease && lease.checkpoint.isNone)
    leases token.name

def loadCheckpoint (now : ℕ) (token : LeaseToken) (leases : Leases α) : Option α :=
  match (leases.lookup token.name).filter (activeLease now token.holder token.leaseId) with
  | some lease =>
    match lease.checkpoint with
    | some (.value v) => some v
    | _ => none
  | none => none

variable [DecidableEq α]

def renewLease (now : ℕ) (token : LeaseToken) (ttl : ℕ) (leases : Leases α) :
    Except String (Leases α × Bool) := do
  let ttlMs ← durationMillis ttl "lease TTL"
  return updateOne (activeLease now token.holder token.leaseId)
    (fun lease => { lease with updatedAt := now, expiresAt := dateAddNow now ttlMs })
    leases token.name

/-- The second update of a release, when the first deleted nothing. -/
def endLease (clientNow : ℕ) (token : LeaseToken) (leases : Leases α) : Leases α × Bool :=
  updateOne (fun lease => exactLease token.holder token.leaseId lease && lease.checkpoint.isSome)
    (fun lease => { lease with updatedAt := clientNow, expiresAt := 0 }) leases token.name

def storeCheckpoint (now clientNow : ℕ) (token : LeaseToken) (checkpoint : Bson α)
    (leases : Leases α) : Leases α × Bool :=
  updateOne (activeLease now token.holder token.leaseId)
    (fun lease => { lease with
      checkpoint := some checkpoint
      recordKind := .checkpoint
      updatedAt := clientNow }) leases token.name

end

structure CoordinationSlot where
  space : String
  scopeHash : String
  slot : ℕ
  holder : CoordinationHolder
  leaseId : String
  acquiredAt : ℕ
  updatedAt : ℕ
  expiresAt : ℕ
deriving DecidableEq

structure SlotToken where
  id : String
  space : String
  scopeHash : String
  slot : ℕ
  holder : CoordinationHolder
  leaseId : String
deriving DecidableEq

abbrev Slots := Collection String CoordinationSlot

/-- A call of the slot store's `acquire` between its updates. -/
structure SlotCall where
  space : String
  scope : String
  limit : ℕ
  holder : CoordinationHolder
  ttlMs : ℕ
  offset : ℕ
deriving DecidableEq

section

variable (sha256 : List UInt8 → Vector UInt8 32)

def slotStart (leaseId : String) (limit : ℕ) : ℕ :=
  let digest := sha256 (utf8 leaseId)
  (digest[0].toNat * 2 ^ 24 + digest[1].toNat * 2 ^ 16 + digest[2].toNat * 2 ^ 8 +
    digest[3].toNat) % limit

/-- The sum is one of 32-bit numbers. -/
def SlotCall.slot (call : SlotCall) (leaseId : String) : ℕ :=
  (slotStart sha256 leaseId call.limit + call.offset) % 2 ^ 32 % call.limit

def SlotCall.id (call : SlotCall) (leaseId : String) : String :=
  hashParts sha256 [call.space, call.scope, Nat.repr (call.slot sha256 leaseId)]

def SlotCall.token (call : SlotCall) (leaseId : String) : SlotToken where
  id := call.id sha256 leaseId
  space := call.space
  scopeHash := hashParts sha256 [call.scope]
  slot := call.slot sha256 leaseId
  holder := call.holder
  leaseId := leaseId

def SlotCall.claim (now : ℕ) (call : SlotCall) (leaseId : String) : CoordinationSlot where
  space := call.space
  scopeHash := hashParts sha256 [call.scope]
  slot := call.slot sha256 leaseId
  holder := call.holder
  leaseId := leaseId
  acquiredAt := now
  updatedAt := now
  expiresAt := dateAddNow now call.ttlMs

/-- One round of the loop of `acquire`. -/
def SlotCall.probe (now : ℕ) (call : SlotCall) (leaseId : String) (slots : Slots) :
    Slots × Option SlotToken :=
  let before := slots.lookup (call.id sha256 leaseId)
  if claimable (before.map (·.expiresAt)) now then
    (slots.insert (call.id sha256 leaseId) (call.claim sha256 now leaseId),
      some (call.token sha256 leaseId))
  else if before.any (·.leaseId = leaseId) then (slots, some (call.token sha256 leaseId))
  else (slots, none)

end

def exactSlot (holder : CoordinationHolder) (leaseId : String) (slot : CoordinationSlot) : Bool :=
  slot.holder.instanceId = holder.instanceId && slot.holder.generationId = holder.generationId &&
    slot.leaseId = leaseId

def activeSlot (now : ℕ) (holder : CoordinationHolder) (leaseId : String)
    (slot : CoordinationSlot) : Bool :=
  exactSlot holder leaseId slot && now < slot.expiresAt

def renewSlot (now : ℕ) (token : SlotToken) (ttl : ℕ) (slots : Slots) :
    Except String (Slots × Bool) := do
  let ttlMs ← durationMillis ttl "slot TTL"
  return updateOne (activeSlot now token.holder token.leaseId)
    (fun slot => { slot with updatedAt := now, expiresAt := dateAddNow now ttlMs }) slots token.id

def releaseSlot (token : SlotToken) (slots : Slots) : Slots × Bool :=
  deleteOne (exactSlot token.holder token.leaseId) slots token.id

/-- `live_slot_filter`. -/
def liveSlot (now : ℕ) (space scopeHash : String) (slot : CoordinationSlot) : Bool :=
  slot.space = space && slot.scopeHash = scopeHash && now < slot.expiresAt

def liveSlots (now : ℕ) (space scopeHash : String) (slots : Slots) : List CoordinationSlot :=
  (slots.entries.map fun e => e.2).filter (liveSlot now space scopeHash)

/-- Earlier in the order of the query: by the time of the claim, then by lease. -/
def CoordinationSlot.before (slot other : CoordinationSlot) : Bool :=
  slot.acquiredAt < other.acquiredAt ||
    (slot.acquiredAt = other.acquiredAt && slot.leaseId < other.leaseId)

def oldestSlot (slots : List CoordinationSlot) : Option CoordinationSlot :=
  slots.foldl (fun best slot => match best with
    | none => some slot
    | some other => if slot.before other then some slot else some other) none

def isOldestLive (now : ℕ) (token : SlotToken) (slots : Slots) : Bool :=
  (oldestSlot (liveSlots now token.space token.scopeHash slots)).any (·.leaseId = token.leaseId)

inductive EventDedupState
  | claimed
  | committed
deriving DecidableEq

structure EventDedupRecord where
  space : String
  scopeHash : String
  eventHash : String
  state : EventDedupState
  claimId : String
  createdAt : ℕ
  updatedAt : ℕ
  expiresAt : ℕ
deriving DecidableEq

structure EventDedupClaim where
  id : String
  claimId : String
deriving DecidableEq

abbrev EventRecords := Collection String EventDedupRecord

section

variable (sha256 : List UInt8 → Vector UInt8 32)

def eventKey (space scope eventId : String) : String := hashParts sha256 [space, scope, eventId]

/-- `Claimed`, or nothing for `Duplicate`. -/
def claimEvent (now : ℕ) (space scope eventId : String) (ttl : ℕ) (claimId : String)
    (records : EventRecords) : Except String (EventRecords × Option EventDedupClaim) := do
  let ttlMs ← durationMillis ttl "event claim TTL"
  let id := eventKey sha256 space scope eventId
  let before := records.lookup id
  if claimable (before.map (·.expiresAt)) now then
    return (records.insert id {
      space := space
      scopeHash := hashParts sha256 [scope]
      eventHash := hashParts sha256 [eventId]
      state := .claimed
      claimId := claimId
      createdAt := now
      updatedAt := now
      expiresAt := dateAddNow now ttlMs }, some ⟨id, claimId⟩)
  else if before.any (·.claimId = claimId) then return (records, some ⟨id, claimId⟩)
  else return (records, none)

end

/-- The filter of a release, and with the expiry that of a renewal and of a commit. -/
def claimedEvent (claim : EventDedupClaim) (record : EventDedupRecord) : Bool :=
  record.claimId = claim.claimId && record.state = .claimed

def activeEvent (now : ℕ) (claim : EventDedupClaim) (record : EventDedupRecord) : Bool :=
  claimedEvent claim record && now < record.expiresAt

def renewEvent (now : ℕ) (claim : EventDedupClaim) (ttl : ℕ) (records : EventRecords) :
    Except String (EventRecords × Bool) := do
  let ttlMs ← durationMillis ttl "event claim TTL"
  return updateOne (activeEvent now claim)
    (fun record => { record with updatedAt := now, expiresAt := dateAddNow now ttlMs })
    records claim.id

def commitEvent (now : ℕ) (claim : EventDedupClaim) (ttl : ℕ) (records : EventRecords) :
    Except String (EventRecords × Bool) := do
  let ttlMs ← durationMillis ttl "event dedup TTL"
  return updateOne (activeEvent now claim)
    (fun record => { record with
      state := .committed
      updatedAt := now
      expiresAt := dateAddNow now ttlMs }) records claim.id

def releaseEvent (claim : EventDedupClaim) (records : EventRecords) : EventRecords × Bool :=
  deleteOne (claimedEvent claim) records claim.id

structure ReplayRecord where
  space : String
  keyHash : String
  claimId : String
  createdAt : ℕ
  expiresAt : ℕ
deriving DecidableEq

abbrev ReplayRecords := Collection String ReplayRecord

/-- A record that is there is kept as it is, even after its time. -/
def claimReplay (sha256 : List UInt8 → Vector UInt8 32) (now : ℕ) (space key : String) (ttl : ℕ)
    (claimId : String) (records : ReplayRecords) : Except String (ReplayRecords × Bool) := do
  let ttlMs ← durationMillis ttl "replay TTL"
  match records.lookup (hashParts sha256 [space, key]) with
  | some record => return (records, record.claimId = claimId)
  | none =>
    return (records.insert (hashParts sha256 [space, key])
      ⟨space, hashParts sha256 [key], claimId, now, dateAddNow now ttlMs⟩, true)

end NyxId.Coordination
