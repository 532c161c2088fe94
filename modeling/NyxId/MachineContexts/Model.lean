import NyxId.Interleave.SortedMap
import NyxId.MachineRequests.Model
import Mathlib.Data.String.Basic

/-!
The registry that gives OS users to the separated contexts of a machine. Users are
allocated in order and kept across generations; a generation that was quarantined or
superseded is never opened again.
-/

namespace NyxId.MachineContexts

open Interleave NyxId.MachineRequests MachineAuthority

def maxContexts : ℕ := 128

def maxGenerations : ℕ := 128

def firstUid : ℕ := 20000

def lastUid : ℕ := 999999

def isAsciiHexDigit (c : Char) : Bool :=
  c.isDigit || ('a' ≤ c && c ≤ 'f') || ('A' ≤ c && c ≤ 'F')

/-- The prefix and 32 hexadecimal digits. -/
def prefixedHex (mark : String) (text : String) : Bool :=
  mark.toList.isPrefixOf text.toList &&
    ((text.toList.drop mark.length).length = 32 &&
      (text.toList.drop mark.length).all isAsciiHexDigit)

/-- `Authority::valid`. -/
def validAuthority (uuidParses : String → Bool) (a : Authority) (runtime : String) (nowMs : ℤ) :
    Bool :=
  ((a.mode = "shared_legacy" && a.generation = 1) ||
      (a.mode = separatedMode && 0 < a.generation && a.requireV2)) &&
    0 < a.revision.toInt && a.runtimeId = runtime && a.capabilities.valid &&
    nowMs < a.expiresAtMs.toInt && a.expiresAtMs.toInt ≤ min (nowMs + leaseMs) i64Max &&
    [a.contextId, a.agentId, a.ownerId, a.actorId, a.runtimeId, a.turnId, a.leaseId].all
      uuidParses &&
    (uuidParses a.conversationId || prefixedHex "nyxa-" a.conversationId) &&
    a.groupId.all (prefixedHex "nyxg-")

structure Binding where
  agent : String
  owner : String
  actor : String
  group : Option String
deriving DecidableEq

def Binding.from (a : Authority) : Binding := ⟨a.agentId, a.ownerId, a.actorId, a.groupId⟩

structure Browsers where
  secureUid : ℕ
  devUid : ℕ
deriving DecidableEq

structure Allocation where
  binding : Binding
  commandUid : ℕ
  generation : ℕ
  quarantined : Bool
  revision : ℤ
  browsers : SortedMap ℕ Browsers

structure Registry where
  nextUid : ℕ
  contexts : SortedMap String Allocation

def Registry.new : Registry := ⟨firstUid, .empty⟩

/-- The next user that is not occupied; a predicate may answer by all it was asked before. -/
def uid (occupied : List ℕ → Bool) : ℕ → ℕ → List ℕ → ℕ × List ℕ × Except String ℕ
  | 0, next, asked => (next, asked, .error "context_uid_capacity")
  | fuel + 1, next, asked =>
    if lastUid < next then (next, asked, .error "context_uid_capacity")
    else if !occupied (next :: asked) then (next + 1, next :: asked, .ok next)
    else uid occupied fuel (next + 1) (next :: asked)

def uidAttempts : ℕ := 4096

/-- The second half of `allocate`: users for the browsers of a new generation. -/
def Registry.openGeneration (registry : Registry) (a : Authority) (occupied : List ℕ → Bool)
    (asked : List ℕ) (entry : Allocation) : Registry × Except String Allocation :=
  match uid occupied uidAttempts registry.nextUid asked with
  | (next, _, .error e) => ({ registry with nextUid := next }, .error e)
  | (next, asked, .ok secureUid) =>
    match uid occupied uidAttempts next asked with
    | (next, _, .error e) => ({ registry with nextUid := next }, .error e)
    | (next, _, .ok devUid) =>
      let entry := { entry with
        generation := a.generation.toNat
        revision := a.revision.toInt
        quarantined := false
        browsers := entry.browsers.insert a.generation.toNat ⟨secureUid, devUid⟩ }
      (⟨next, registry.contexts.insert a.contextId entry⟩, .ok entry)

def Registry.allocate (uuidParses : String → Bool) (registry : Registry) (a : Authority)
    (occupied : List ℕ → Bool) : Registry × Except String Allocation :=
  if a.mode ≠ separatedMode || !a.requireV2 || a.revision.toInt < 1 || a.generation = 0 ||
      !uuidParses a.contextId then (registry, .error "context_authority_invalid")
  else
    let binding := Binding.from a
    match registry.contexts.get a.contextId with
    | some old =>
      if old.binding ≠ binding then (registry, .error "context_identity_mismatch")
      else if a.generation.toNat < old.generation || a.revision.toInt < old.revision then
        (registry, .error "context_generation_quarantined")
      else if a.generation.toNat = old.generation then
        if old.quarantined then (registry, .error "context_generation_quarantined")
        else (registry, .ok old)
      else if maxGenerations ≤ old.browsers.size then
        (registry, .error "context_generation_capacity")
      else registry.openGeneration a occupied [] old
    | none =>
      if maxContexts ≤ registry.contexts.size then (registry, .error "context_capacity")
      else
        match uid occupied uidAttempts registry.nextUid [] with
        | (next, _, .error e) => ({ registry with nextUid := next }, .error e)
        | (next, asked, .ok commandUid) =>
          Registry.openGeneration { registry with nextUid := next } a occupied asked
            ⟨binding, commandUid, a.generation.toNat, false, a.revision.toInt, .empty⟩

/-- Contexts that a quarantine is about. -/
def affected (agent : String) (beforeRevision : ℤ) (entry : Allocation) : Bool :=
  entry.binding.agent = agent && entry.revision < beforeRevision

/-- The registry and the users of the generations that were live. -/
def Registry.quarantine (registry : Registry) (agent : String) (beforeRevision : ℤ) :
    Registry × List ℕ :=
  (⟨registry.nextUid, registry.contexts.mapValues fun entry =>
      if affected agent beforeRevision entry then { entry with quarantined := true } else entry⟩,
    registry.contexts.values.flatMap fun entry =>
      if affected agent beforeRevision entry then
        match entry.browsers.get entry.generation with
        | some browser => [browser.secureUid, browser.devUid]
        | none => []
      else [])

def Allocation.uids (entry : Allocation) : List ℕ :=
  entry.commandUid :: entry.browsers.values.flatMap fun b => [b.secureUid, b.devUid]

def validEntry (uuidParses : String → Bool) (id : String) (entry : Allocation) : Bool :=
  !(!uuidParses id || entry.revision < 1 ||
    [entry.binding.agent, entry.binding.owner, entry.binding.actor].any (fun id => !uuidParses id) ||
    entry.binding.group.any (fun id => !prefixedHex "nyxg-" id) ||
    (entry.browsers.get 0).isSome || entry.generation = 0 ||
    maxGenerations < entry.browsers.size || entry.browsers.lastKey ≠ some entry.generation)

/-- The users seen so far with those of an entry, unless one is out of range or repeated. -/
def seeUids (nextUid : ℕ) : List ℕ → List ℕ → Option (List ℕ)
  | seen, [] => some seen
  | seen, user :: rest =>
    if !(firstUid ≤ user && user < nextUid) || seen.contains user then none
    else seeUids nextUid (user :: seen) rest

def validEntries (uuidParses : String → Bool) (nextUid : ℕ) :
    List ℕ → List (String × Allocation) → Except String Unit
  | _, [] => .ok ()
  | seen, (id, entry) :: rest =>
    if !validEntry uuidParses id entry then .error "context_store_invalid"
    else match seeUids nextUid seen entry.uids with
      | none => .error "context_store_invalid"
      | some seen => validEntries uuidParses nextUid seen rest

def Registry.validate (uuidParses : String → Bool) (registry : Registry) : Except String Unit :=
  if maxContexts < registry.contexts.size ||
      !(firstUid ≤ registry.nextUid && registry.nextUid ≤ lastUid + 1) then
    .error "context_store_invalid"
  else validEntries uuidParses registry.nextUid [] registry.contexts.entries

inductive Call
  | allocate (a : Authority) (occupied : List ℕ → Bool)
  | quarantine (agent : String) (beforeRevision : ℤ)
  | reload

/-- What a call returns, and the registry after it. -/
structure Event where
  call : Call
  result : Except String (Option Allocation)
  registry : Registry

/-- Persisting and opening both refuse a registry that is not valid; what was persisted is
read back. -/
def Registry.reload (uuidParses : String → Bool) (registry : Registry) :
    Registry × Except String (Option Allocation) :=
  match registry.validate uuidParses with
  | .ok () => (registry, .ok none)
  | .error e => (registry, .error e)

def Registry.apply (uuidParses : String → Bool) (registry : Registry) (call : Call) : Event :=
  match call with
  | .allocate a occupied =>
    let (next, result) := registry.allocate uuidParses a occupied
    ⟨call, result.map some, next⟩
  | .quarantine agent beforeRevision =>
    ⟨call, .ok none, (registry.quarantine agent beforeRevision).1⟩
  | .reload =>
    let (next, result) := registry.reload uuidParses
    ⟨call, result, next⟩

/-- The events of calls, in their order. -/
def history (uuidParses : String → Bool) : Registry → List Call → List Event
  | _, [] => []
  | registry, call :: rest =>
    let event := registry.apply uuidParses call
    event :: history uuidParses event.registry rest

end NyxId.MachineContexts
