import NyxId.Fences.Leases
import NyxId.Credits
import NyxId.MachineAuthority

/-!
The fences of agents: a revision for each agent and an identity for each context are stored
before a lease is admitted.
-/

namespace NyxId.Fences

open Interleave MachineAuthority

structure Authority where
  requireV2 : Bool
  contextId : String
  generation : ℕ
  mode : String
  agentId : String
  ownerId : String
  actorId : String
  groupId : Option String
  runtimeId : String
  conversationId : String
  turnId : String
  leaseId : String
  revision : ℤ
  expiresAtMs : ℤ
  capabilities : Capabilities
  deriving DecidableEq

def sharedMode : String := "shared_legacy"

/-- `i64::saturating_add` of a number that is not negative. -/
def saturatingAdd (n by_ : ℤ) : ℤ := min (n + by_) (2 ^ 63 - 1)

def isHexDigit (c : Char) : Bool :=
  ('0' ≤ c && c ≤ '9') || ('a' ≤ c && c ≤ 'f') || ('A' ≤ c && c ≤ 'F')

/-- The mark and then 32 hexadecimal digits. -/
def markedHex (mark id : String) : Bool :=
  mark.toList.isPrefixOf id.toList &&
    (id.toList.drop mark.toList.length).length = 32 &&
    (id.toList.drop mark.toList.length).all isHexDigit

def Authority.valid (isUuid : String → Bool) (a : Authority) (runtime : String) (nowMs : ℤ) : Bool :=
  ((a.mode = sharedMode && a.generation = 1) ||
      (a.mode = separatedMode && 0 < a.generation && a.requireV2)) &&
    0 < a.revision && a.runtimeId = runtime && a.capabilities.valid && nowMs < a.expiresAtMs &&
    a.expiresAtMs ≤ saturatingAdd nowMs leaseMs &&
    [a.contextId, a.agentId, a.ownerId, a.actorId, a.runtimeId, a.turnId, a.leaseId].all isUuid &&
    (isUuid a.conversationId || markedHex "nyxa-" a.conversationId) &&
    a.groupId.all fun id => markedHex "nyxg-" id

structure Identity where
  agent : String
  owner : String
  actor : String
  group : Option String
  mode : String
  generation : ℕ
  deriving DecidableEq

def Authority.identity (a : Authority) : Identity :=
  { agent := a.agentId
    owner := a.ownerId
    actor := a.actorId
    group := a.groupId
    mode := a.mode
    generation := a.generation }

structure Durable where
  enrolled : Bool
  revisions : Collection String ℤ
  contexts : Collection String Identity

/-- The file when there is none. -/
def Durable.default : Durable := ⟨false, ∅, ∅⟩

def Identity.refuses (old new : Identity) : Bool :=
  old.agent ≠ new.agent || old.owner ≠ new.owner || old.actor ≠ new.actor ||
    old.group ≠ new.group ||
    (old.mode = separatedMode && new.mode = separatedMode && new.generation < old.generation)

abbrev Agents := State Durable Authority

/-- The checks of an admission. -/
def checkAdmission (isUuid : String → Bool) (state : Agents) (a : Authority) (runtime : String)
    (nowMs : ℤ) : Except String Unit :=
  let durable := state.durable.memory
  if !a.valid isUuid runtime nowMs then .error "authority_binding_invalid"
  else if (durable.revisions.lookup a.agentId).any fun r => a.revision < r then
    .error "authority_revision_stale"
  else if (durable.contexts.lookup a.contextId).any fun old => old.refuses a.identity then
    .error "authority_context_mismatch"
  else if (state.leases.lookup a.leaseId).isSome then .error "authority_lease_duplicate"
  else if 8192 ≤ durable.contexts.entries.length ∨ 8192 ≤ state.leases.entries.length then
    .error "authority_capacity"
  else .ok ()

def Durable.changed (durable : Durable) (a : Authority) : Bool :=
  (a.requireV2 && !durable.enrolled) || durable.contexts.lookup a.contextId ≠ some a.identity ||
    durable.revisions.lookup a.agentId ≠ some a.revision

def Durable.admitted (durable : Durable) (a : Authority) : Durable :=
  { enrolled := durable.enrolled || a.requireV2
    contexts := durable.contexts.insert a.contextId a.identity
    revisions := durable.revisions.insert a.agentId a.revision }

def Authority.below (a other : Authority) : Bool :=
  other.agentId = a.agentId && other.revision < a.revision

def admitAt (isUuid : String → Bool) (state : Agents) (a : Authority) (runtime : String)
    (job : Option String) (clock : LeaseClock) (write : Write) (instant : ℕ) :
    Except String Unit × Agents :=
  match checkAdmission isUuid state a runtime clock.nowMs with
  | .error e => (.error e, state)
  | .ok () =>
    let durable := state.durable.memory
    let stored := if durable.changed a then state.durable.put write (durable.admitted a)
      else state.durable
    if durable.changed a ∧ write ≠ .done then
      (.error "authority_store_unavailable", { state with durable := stored })
    else
      let leases := stopWhere a.below state.leases
      if clock.deadline ≤ instant then (.error "authority_expired", ⟨stored, leases⟩)
      else (.ok (), ⟨stored, leases.insert a.leaseId ⟨a, clock.deadline, false, job⟩⟩)

def renewAt (isUuid : String → Bool) (state : Agents) (a : Authority) (runtime : String)
    (clock : LeaseClock) (leaseInstant clockInstant : ℕ) : Except String Unit × Agents :=
  if !a.valid isUuid runtime clock.nowMs then (.error "authority_binding_invalid", state)
  else if state.durable.memory.revisions.lookup a.agentId ≠ some a.revision then
    (.error "authority_revision_stale", state)
  else
    match state.leases.lookup a.leaseId with
    | none => (.error "authority_lease_unknown", state)
    | some lease =>
      if { lease.authority with expiresAtMs := a.expiresAtMs } ≠ a ∨ lease.stopped = true ∨
          lease.deadline ≤ leaseInstant ∨ clock.deadline ≤ clockInstant ∨
          a.expiresAtMs ≤ lease.authority.expiresAtMs then
        (.error "authority_renewal_refused", state)
      else
        (.ok (), { state with leases := state.leases.mapValues fun id lease =>
          if id = a.leaseId then
            { lease with
              authority.expiresAtMs := a.expiresAtMs
              deadline := clock.deadline }
          else lease })

def Durable.revoked (durable : Durable) (a : Authority) : Durable :=
  { durable with
    enrolled := durable.enrolled || a.requireV2
    revisions := durable.revisions.insert a.agentId
      (max ((durable.revisions.lookup a.agentId).getD 0) a.revision) }

def revokeAt (isUuid : String → Bool) (state : Agents) (a : Authority) (runtime : String)
    (clock : LeaseClock) (write : Write) : Except String Unit × Agents :=
  if !a.valid isUuid runtime clock.nowMs then (.error "authority_binding_invalid", state)
  else
    let stored := state.durable.put write (state.durable.memory.revoked a)
    if write ≠ .done then (.error "authority_store_unavailable", { state with durable := stored })
    else (.ok (), ⟨stored, stopWhere a.below state.leases⟩)

/-- A call, with the outcome of its write and the instants that it reads. -/
inductive Call where
  | admitAt (a : Authority) (runtime : String) (job : Option String) (clock : LeaseClock)
      (write : Write) (instant : ℕ)
  | renewAt (a : Authority) (runtime : String) (clock : LeaseClock) (leaseInstant clockInstant : ℕ)
  | revokeAt (a : Authority) (runtime : String) (clock : LeaseClock) (write : Write) (instant : ℕ)

def Call.perform (isUuid : String → Bool) (call : Call) (state : Agents) :
    Except String Unit × Agents :=
  match call with
  | .admitAt a runtime job clock write instant =>
    Fences.admitAt isUuid state a runtime job clock write instant
  | .renewAt a runtime clock leaseInstant clockInstant =>
    Fences.renewAt isUuid state a runtime clock leaseInstant clockInstant
  | .revokeAt a runtime clock write _ => Fences.revokeAt isUuid state a runtime clock write

def Call.admission : Call → Option (String × Option String)
  | .admitAt a _ job _ _ _ => some (a.leaseId, job)
  | _ => none

def Call.clock : Call → LeaseClock
  | .admitAt _ _ _ clock _ _ => clock
  | .renewAt _ _ clock _ _ => clock
  | .revokeAt _ _ clock _ _ => clock

def Call.instants : Call → ℕ × ℕ
  | .admitAt _ _ _ _ _ instant => (instant, instant)
  | .renewAt _ _ _ leaseInstant clockInstant => (leaseInstant, clockInstant)
  | .revokeAt _ _ _ _ instant => (instant, instant)

def agents (isUuid : String → Bool) : Kind Durable Authority Call where
  perform := Call.perform isUuid
  admission := Call.admission
  first call := call.instants.1
  last call := call.instants.2
  nowMs call := call.clock.nowMs

/-!
The clock that a signed lease gets on a node. Server and node may differ by the skew, which is
taken from the lease: the latest possible server time decides, so the local deadline is never
later than the signed expiry.
-/

inductive TimingRejection where
  | clockSkew
  | lifetime
  | expired
  deriving DecidableEq

def TimingRejection.reason : TimingRejection → String
  | clockSkew => "authority_clock_skew"
  | lifetime => "authority_lifetime_invalid"
  | expired => "authority_expired"

/-- Maximum server/node clock difference. -/
def clockSkewMs : ℤ := 5000

/-- `i64::saturating_sub` -/
def saturatingSub (n by_ : ℤ) : ℤ := max (-2 ^ 63) (min (n - by_) (2 ^ 63 - 1))

/-- `LeaseClock::signed` when the monotonic clock reads `instant`. No answer is an unchecked
operation that left 64 bits. -/
def LeaseClock.signed (instant : ℕ) (timestamp expires nodeNow : Int64) :
    Option (Except TimingRejection LeaseClock) :=
  match checkedI64 (timestamp.toInt * 1000) with
  | none => some (.error .lifetime)
  | some issued =>
    match checkedI64 (issued + 999) with
    | none => some (.error .lifetime)
    | some upper =>
      match checkedI64 (nodeNow.toInt + clockSkewMs) with
      | none => some (.error .lifetime)
      | some latest =>
        if latest < issued ∨ clockSkewMs < saturatingSub nodeNow.toInt upper then
          some (.error .clockSkew)
        else if saturatingAdd upper leaseMs < expires.toInt then some (.error .lifetime)
        else if expires.toInt ≤ latest then some (.error .expired)
        else
          (checkedI64 (expires.toInt - latest)).map fun left =>
            -- a negative duration would wrap around
            .ok ⟨latest, instant + (min left leaseMs % 2 ^ 64).toNat⟩

variable {instant : ℕ} {timestamp expires nodeNow : Int64}

/-- The whole-second part of an instant and its last millisecond fit 64 bits, and so does the
latest possible server time. -/
structure ClocksFit (timestamp nodeNow : ℤ) : Prop where
  first : -2 ^ 63 ≤ timestamp * 1000
  last : timestamp * 1000 + 999 < 2 ^ 63
  latest : nodeNow + clockSkewMs < 2 ^ 63

/-- The checks in their order, once the values they compare fit 64 bits. A lease that passes the
first two is short, so its remaining time fits as well. -/
theorem signed_eq (hfit : ClocksFit timestamp.toInt nodeNow.toInt) :
    LeaseClock.signed instant timestamp expires nodeNow =
      if nodeNow.toInt + clockSkewMs < timestamp.toInt * 1000 ∨
          clockSkewMs < nodeNow.toInt - (timestamp.toInt * 1000 + 999) then
        some (.error .clockSkew)
      else if timestamp.toInt * 1000 + 999 + leaseMs < expires.toInt then some (.error .lifetime)
      else if expires.toInt ≤ nodeNow.toInt + clockSkewMs then some (.error .expired)
      else some (.ok ⟨nodeNow.toInt + clockSkewMs,
        instant + (min (expires.toInt - (nodeNow.toInt + clockSkewMs)) leaseMs).toNat⟩) := by
  obtain ⟨hfirst, hlast, hlatest⟩ := hfit
  have hnode := nodeNow.le_toInt
  have hexpires := expires.toInt_lt
  have hskewMs : clockSkewMs = 5000 := rfl
  have hleaseMs : leaseMs = 45000 := rfl
  unfold LeaseClock.signed
  rw [checkedI64_eq_some.mpr ⟨rfl, by omega, by omega⟩]
  dsimp only
  rw [checkedI64_eq_some.mpr ⟨rfl, by omega, by omega⟩]
  dsimp only
  rw [checkedI64_eq_some.mpr ⟨rfl, by omega, hlatest⟩]
  dsimp only
  generalize timestamp.toInt * 1000 = issued at *
  have hskew : clockSkewMs < saturatingSub nodeNow.toInt (issued + 999) ↔
      clockSkewMs < nodeNow.toInt - (issued + 999) := by
    unfold saturatingSub
    omega
  have hlife : saturatingAdd (issued + 999) leaseMs < expires.toInt ↔
      issued + 999 + leaseMs < expires.toInt := by
    unfold saturatingAdd
    omega
  simp only [hskew, hlife]
  split_ifs with hclock hlong hpast
  · rfl
  · rfl
  · rfl
  · rw [checkedI64_eq_some.mpr ⟨rfl, by omega, by omega⟩, Option.map_some,
      Int.emod_eq_of_lt (by omega) (by omega)]

/-- A clock at the far end of 64 bits is refused as a lifetime. -/
theorem signed_of_not_fit (hfit : ¬ ClocksFit timestamp.toInt nodeNow.toInt) :
    LeaseClock.signed instant timestamp expires nodeNow = some (.error .lifetime) := by
  unfold LeaseClock.signed
  split
  · rfl
  · rename_i issued hissued
    obtain ⟨rfl, hlow, hhigh⟩ := checkedI64_eq_some.mp hissued
    split
    · rfl
    · rename_i upper hupper
      obtain ⟨rfl, hlow', hhigh'⟩ := checkedI64_eq_some.mp hupper
      split
      · rfl
      · rename_i latest hlatest
        obtain ⟨rfl, hlow'', hhigh''⟩ := checkedI64_eq_some.mp hlatest
        exact absurd ⟨hlow, hhigh', hhigh''⟩ hfit

theorem signed_ne_none : LeaseClock.signed instant timestamp expires nodeNow ≠ none := by
  by_cases hfit : ClocksFit timestamp.toInt nodeNow.toInt
  · rw [signed_eq hfit]
    split_ifs <;> simp
  · simp [signed_of_not_fit hfit]

/-- What an accepted lease satisfies: its deadline leaves the time that is left at the latest
possible server time, and no more than the grace. -/
theorem accepted_deadline {clock : LeaseClock}
    (h : LeaseClock.signed instant timestamp expires nodeNow = some (.ok clock)) :
    clock.nowMs = nodeNow.toInt + clockSkewMs ∧ clock.nowMs < expires.toInt ∧
      clock.deadline = instant + (min (expires.toInt - clock.nowMs) leaseMs).toNat := by
  by_cases hfit : ClocksFit timestamp.toInt nodeNow.toInt
  · rw [signed_eq hfit] at h
    split_ifs at h with hclock hlong hpast
    · cases h
    · cases h
    · cases h
    · cases h
      exact ⟨rfl, lt_of_not_ge hpast, rfl⟩
  · rw [signed_of_not_fit hfit] at h
    cases h

/-- A lease as its issuer makes it, received while the node's clock is near the instant of issue. -/
structure Fresh (issuedAt : ℤ) (timestamp expires nodeNow : Int64) : Prop where
  wholeSeconds : timestamp.toInt = issuedAt / 1000
  lifetime : expires.toInt ≤ issuedAt + leaseMs
  near : |nodeNow.toInt - issuedAt| ≤ clockSkewMs

theorem fresh_not_refused {issuedAt : ℤ} (hfresh : Fresh issuedAt timestamp expires nodeNow)
    (hfit : ClocksFit timestamp.toInt nodeNow.toInt) {rejection : TimingRejection}
    (h : LeaseClock.signed instant timestamp expires nodeNow = some (.error rejection)) :
    rejection = .expired := by
  obtain ⟨hseconds, hlife, hnear⟩ := hfresh
  obtain ⟨hbelow, habove⟩ := abs_le.mp hnear
  have hskewMs : clockSkewMs = 5000 := rfl
  rw [signed_eq hfit] at h
  split_ifs at h with hclock hlong hpast
  · omega
  · omega
  · cases h
    rfl
  · cases h

/-- An accepted lease ends by its signed expiry whatever the server's clock is within the skew,
and after the grace at most; a lease just issued is refused only when it has expired, or as a
lifetime where the clocks do not fit 64 bits; and no operation overflows. -/
theorem signed_clock_conservative (instant : ℕ) (timestamp expires nodeNow : Int64) :
    (∀ clock, LeaseClock.signed instant timestamp expires nodeNow = some (.ok clock) →
      (∀ server : ℤ, |server - nodeNow.toInt| ≤ clockSkewMs →
        server + (clock.deadline - instant : ℤ) ≤ expires.toInt) ∧
      clock.deadline ≤ instant + leaseMs) ∧
    (∀ issuedAt, Fresh issuedAt timestamp expires nodeNow →
      LeaseClock.signed instant timestamp expires nodeNow ≠ some (.error .clockSkew) ∧
      (LeaseClock.signed instant timestamp expires nodeNow = some (.error .lifetime) ↔
        ¬ ClocksFit timestamp.toInt nodeNow.toInt)) ∧
    LeaseClock.signed instant timestamp expires nodeNow ≠ none := by
  refine ⟨?_, ?_, signed_ne_none⟩
  · intro clock h
    obtain ⟨hnow, hleft, hdeadline⟩ := accepted_deadline h
    have hleaseMs : leaseMs = 45000 := rfl
    constructor
    · intro server hserver
      have habove := (abs_le.mp hserver).2
      omega
    · omega
  · intro issuedAt hfresh
    by_cases hfit : ClocksFit timestamp.toInt nodeNow.toInt
    · have hnot : ∀ rejection, rejection ≠ TimingRejection.expired →
          LeaseClock.signed instant timestamp expires nodeNow ≠ some (.error rejection) :=
        fun rejection hne h => hne (fresh_not_refused hfresh hfit h)
      exact ⟨hnot _ (by decide), iff_of_false (hnot _ (by decide)) (not_not_intro hfit)⟩
    · rw [signed_of_not_fit hfit]
      exact ⟨by simp, iff_of_true rfl hfit⟩

/-- Received in the millisecond of its issue, a lease of 45 seconds is not refused. -/
theorem prompt_lease_runs :
    LeaseClock.signed 0 1000 1045500 1000500 = some (.ok ⟨1005500, 40000⟩) ∧
      (1005500 + (40000 - 0) : ℤ) ≤ 1045500 := by
  have haccepted : LeaseClock.signed 0 1000 1045500 1000500 = some (.ok ⟨1005500, 40000⟩) := rfl
  exact ⟨haccepted, ((signed_clock_conservative 0 1000 1045500 1000500).1 _ haccepted).1 1005500
    (by decide)⟩

/-- A lease issued and received in the last second of 64 bits is refused as a lifetime. -/
theorem last_second_refused :
    ¬ ∀ (issuedAt : ℤ) (timestamp expires nodeNow : Int64), Fresh issuedAt timestamp expires nodeNow →
      LeaseClock.signed 0 timestamp expires nodeNow ≠ some (.error .lifetime) := by
  intro h
  have hfresh : Fresh (2 ^ 63 - 1) 9223372036854775 Int64.maxValue Int64.maxValue :=
    ⟨by decide, by decide, by decide⟩
  have hfit : ¬ ClocksFit (9223372036854775 : Int64).toInt Int64.maxValue.toInt :=
    fun hfit => absurd hfit.latest (by decide)
  exact h _ _ _ _ hfresh (signed_of_not_fit hfit)

end NyxId.Fences
