import NyxId.Encoding.Records
import NyxId.Interleave.Collection
import NyxId.UsageMeter

/-!
The hash-chained billing ledger: its entries, the bytes their keyed hashes commit to,
and the transaction that appends entries with the checkpoints of their accounts.
Times are nanoseconds; `hmac` is the keyed hash of one key.
-/

namespace NyxId

open Interleave Encoding

def BillingLayer.asTransactionSuffix : BillingLayer → String
  | platform => "platform"
  | resale => "resale"

def BillingMetric.asStr : BillingMetric → String
  | tokens => "tokens"
  | requests => "requests"
  | bytes => "bytes"
  | inputTokens => "input_tokens"
  | outputTokens => "output_tokens"
  | cacheReadTokens => "cache_read_tokens"
  | cacheWriteTokens => "cache_write_tokens"
  | reasoningTokens => "reasoning_tokens"
  | imageInputTokens => "image_input_tokens"
  | imageOutputTokens => "image_output_tokens"
  | audioInputTokens => "audio_input_tokens"
  | audioOutputTokens => "audio_output_tokens"
  | images => "images"
  | voiceSeconds => "voice_seconds"
  | machineRunningSeconds => "machine_running_seconds"
  | sandboxCpuMillisSeconds => "sandbox_cpu_millis_seconds"
  | sandboxMemoryMibSeconds => "sandbox_memory_mib_seconds"
  | sandboxDiskGibSeconds => "sandbox_disk_gib_seconds"

namespace LedgerChain

inductive BillingLedgerEventType where
  | accountingV2
  | usageSettled
  | topupCreated
  | walletCredited
  | grantIssued
  | grantConsumed
  | grantExpired
  | grantRevoked
  | topupExpired
  deriving DecidableEq

namespace BillingLedgerEventType

def asStr : BillingLedgerEventType → String
  | accountingV2 => "accounting_v2"
  | usageSettled => "usage_settled"
  | topupCreated => "topup_created"
  | walletCredited => "wallet_credited"
  | grantIssued => "grant_issued"
  | grantConsumed => "grant_consumed"
  | grantExpired => "grant_expired"
  | grantRevoked => "grant_revoked"
  | topupExpired => "topup_expired"

def usesExtendedEncoding : BillingLedgerEventType → Bool
  | grantIssued | grantConsumed | grantExpired | grantRevoked | topupExpired => true
  | _ => false

end BillingLedgerEventType

inductive PostingSide where
  | debit
  | credit
  deriving DecidableEq

def PostingSide.asStr : PostingSide → String
  | debit => "debit"
  | credit => "credit"

structure BillingPosting where
  account : String
  side : PostingSide
  amount : Credits
  deriving DecidableEq

/-- Debits count up and credits count down. -/
def BillingPosting.delta (posting : BillingPosting) : ℤ :=
  match posting.side with
  | .debit => posting.amount.pico
  | .credit => -posting.amount.pico

structure BillingLedgerEntry where
  id : String
  seq : ℤ
  prevHash : String
  entryHash : String
  eventType : BillingLedgerEventType
  movement : Option String
  postings : List BillingPosting
  ownerId : String
  referenceId : String
  transactionId : Option String
  layer : Option BillingLayer
  metric : Option BillingMetric
  serviceSlug : Option String
  model : Option String
  quantity : Option ℤ
  amountCredits : Option ℤ
  amountMicros : Option ℤ
  balanceCredits : Option ℤ
  dedupeKey : Option String
  walletId : Option String
  createdAt : ℤ
  deriving DecidableEq

/-- Debits and credits of an entry, posting by posting. -/
def addPosting (totals : Credits × Credits) (posting : BillingPosting) :
    Except AppError (Credits × Credits) :=
  if posting.amount.pico ≤ 0 ∨ posting.account.isEmpty then
    .error (.internal "invalid v2 posting")
  else
    match posting.side with
    | .debit => do
      let debit ← creditsOrError (totals.1.checkedAdd posting.amount)
      return (debit, totals.2)
    | .credit => do
      let credit ← creditsOrError (totals.2.checkedAdd posting.amount)
      return (totals.1, credit)

def validatePostings (entry : BillingLedgerEntry) : Except AppError Unit :=
  if entry.eventType ≠ .accountingV2 then .ok ()
  else
    match entry.movement with
    | none => .error (.internal "v2 movement is missing")
    | some movement =>
      if entry.postings.isEmpty ∧
          movement ∈ ["topup_created", "opening_balance", "wallet_credited"] then
        .ok ()
      else do
        let (debit, credit) ← entry.postings.foldlM addPosting (Credits.zero, Credits.zero)
        if debit = Credits.zero ∨ debit ≠ credit then
          .error (.internal "unbalanced v2 transaction")
        else .ok ()

def genesisPrevHash : String := String.ofList (List.replicate 64 '0')

def recordSeparator : UInt8 := 0x1e

def timestampMillis (createdAt : ℤ) : ℤ := createdAt / 1000000

def orEmpty {α : Type} (text : α → String) (value : Option α) : String := (value.map text).getD ""

def postingTexts (posting : BillingPosting) : List String :=
  [posting.account, posting.side.asStr, posting.amount.display]

def accountingTexts (entry : BillingLedgerEntry) : List String :=
  [decimal entry.seq,
    entry.prevHash,
    entry.id,
    entry.ownerId,
    entry.referenceId,
    entry.movement.getD "",
    entry.transactionId.getD "",
    orEmpty BillingLayer.asTransactionSuffix entry.layer,
    orEmpty BillingMetric.asStr entry.metric,
    entry.serviceSlug.getD "",
    entry.model.getD "",
    orEmpty decimal entry.quantity,
    orEmpty decimal entry.amountCredits,
    orEmpty decimal entry.amountMicros,
    orEmpty decimal entry.balanceCredits,
    entry.dedupeKey.getD "",
    entry.walletId.getD "",
    decimal (timestampMillis entry.createdAt),
    decimal entry.postings.length] ++
  entry.postings.flatMap postingTexts

def eventTexts (entry : BillingLedgerEntry) : List String :=
  [decimal entry.seq,
    entry.prevHash,
    entry.id,
    entry.eventType.asStr,
    entry.ownerId,
    entry.referenceId,
    entry.transactionId.getD "",
    orEmpty BillingLayer.asTransactionSuffix entry.layer,
    orEmpty BillingMetric.asStr entry.metric,
    entry.serviceSlug.getD "",
    entry.model.getD "",
    orEmpty decimal entry.quantity,
    orEmpty decimal entry.amountCredits,
    orEmpty decimal entry.balanceCredits,
    entry.dedupeKey.getD "",
    entry.walletId.getD "",
    decimal (timestampMillis entry.createdAt)] ++
  -- Only event types newer than the first format carry exact microcredits.
  if entry.eventType.usesExtendedEncoding then [orEmpty decimal entry.amountMicros] else []

/-- Length-prefixed join: `<len>:<bytes>` per field, separated by 0x1E. -/
def joinRecordFields (fields : List String) : List UInt8 :=
  List.intercalate [recordSeparator] (fields.map fun field => framed lengthHeader (utf8 field))

def canonicalEntryBytes (entry : BillingLedgerEntry) : List UInt8 :=
  if entry.eventType = .accountingV2 then
    -- Version marker and length-prefixed fields; posting order is committed.
    utf8 "nyxid:billing-ledger:v2\u0000" ++
      (accountingTexts entry).flatMap fun field => framed (beBytes 8) (utf8 field)
  else joinRecordFields (eventTexts entry)

def computeEntryHash (hmac : List UInt8 → String) (entry : BillingLedgerEntry) : String :=
  hmac (canonicalEntryBytes entry)

end LedgerChain

end NyxId

/-!
Appending entries to the ledger. One transaction links a list of entries to the tail,
inserts them and moves the signed checkpoints of the accounts they post to; a batch
that fails is appended entry by entry.
-/

namespace NyxId.LedgerChain

open Interleave Encoding

/-- The balance of an account after its postings up to a sequence number. -/
structure Checkpoint where
  balance : Credits
  throughSeq : ℤ
  signature : String
  deriving DecidableEq

/-- The ledger and the checkpoints of its accounts. -/
structure LedgerStore where
  entries : List BillingLedgerEntry
  checkpoints : String → Option Checkpoint

/-- The entry with the largest sequence number. -/
def readTail (entries : List BillingLedgerEntry) : Option BillingLedgerEntry :=
  newest BillingLedgerEntry.seq entries

def truncateToBsonMillis (createdAt : ℤ) : ℤ := timestampMillis createdAt * 1000000

def isReconciledAccount (account : String) : Bool :=
  "wallet:".toList.isPrefixOf account.toList || "grant:".toList.isPrefixOf account.toList

def checkpointSignature (hmac : List UInt8 → String) (account : String) (seq : ℤ)
    (balance : Credits) : String :=
  hmac (utf8 "nyxid:billing-account:v1\u0000" ++
    [account, decimal seq, balance.display].flatMap fun value => framed (beBytes 8) (utf8 value))

def authenticatedCheckpoint (hmac : List UInt8 → String) (account : String)
    (checkpoint : Checkpoint) : Except AppError (Credits × ℤ) :=
  if checkpoint.signature =
      checkpointSignature hmac account checkpoint.throughSeq checkpoint.balance then
    .ok (checkpoint.balance, checkpoint.throughSeq)
  else .error (.internal "invalid billing account checkpoint")

/-- The entry under a dedupe key; the last one found wins. -/
def withDedupeKey (entries : List BillingLedgerEntry) (key : String) :
    Option BillingLedgerEntry :=
  (entries.filter fun entry => entry.dedupeKey = some key).getLast?

/-- What the loop over the entries to append carries. -/
structure AppendPlan where
  nextSeq : ℤ
  previousHash : String
  saved : List BillingLedgerEntry
  newEntries : List BillingLedgerEntry

/-- The entry as it is stored at the next place of the chain. -/
def linkEntry (hmac : List UInt8 → String) (nextSeq : ℤ) (previousHash : String)
    (entry : BillingLedgerEntry) : BillingLedgerEntry :=
  let linked := { entry with
    seq := nextSeq
    prevHash := previousHash
    createdAt := truncateToBsonMillis entry.createdAt }
  { linked with entryHash := computeEntryHash hmac linked }

def planEntry (hmac : List UInt8 → String) (stored : List BillingLedgerEntry) (plan : AppendPlan)
    (entry : BillingLedgerEntry) : Except AppError AppendPlan :=
  match entry.dedupeKey.bind (withDedupeKey stored) with
  | some existing => .ok { plan with saved := plan.saved ++ [existing] }
  | none =>
    match entry.dedupeKey.bind (withDedupeKey plan.newEntries) with
    | some inserted => .ok { plan with saved := plan.saved ++ [inserted] }
    | none => do
      validatePostings entry
      let linked := linkEntry hmac plan.nextSeq plan.previousHash entry
      let nextSeq ← creditsOrError (checkedI64 (plan.nextSeq + 1))
      return {
        nextSeq := nextSeq
        previousHash := linked.entryHash
        saved := plan.saved ++ [linked]
        newEntries := plan.newEntries ++ [linked] }

/-- The place after the tail. -/
def nextPlace (entries : List BillingLedgerEntry) : Except AppError AppendPlan :=
  match readTail entries with
  | none => .ok ⟨1, genesisPrevHash, [], []⟩
  | some tail => do
    let nextSeq ← creditsOrError (checkedI64 (tail.seq + 1))
    return ⟨nextSeq, tail.entryHash, [], []⟩

/-- Identifiers, sequence numbers and dedupe keys are unique in the collection. -/
def insertMany (stored newEntries : List BillingLedgerEntry) :
    Except AppError (List BillingLedgerEntry) :=
  if ((stored ++ newEntries).map BillingLedgerEntry.id).Nodup ∧
      ((stored ++ newEntries).map BillingLedgerEntry.seq).Nodup ∧
      ((stored ++ newEntries).filterMap BillingLedgerEntry.dedupeKey).Nodup then
    .ok (stored ++ newEntries)
  else .error .duplicateKey

def storeNew (stored newEntries : List BillingLedgerEntry) :
    Except AppError (List BillingLedgerEntry) :=
  if newEntries.isEmpty then .ok stored else insertMany stored newEntries

def BillingPosting.signedAmount (posting : BillingPosting) : Credits :=
  match posting.side with
  | .debit => posting.amount
  | .credit => ⟨-posting.amount.pico, posting.amount.neg_inRange⟩

/-- The postings of entries, each with the number of its entry. -/
def numberedPostings (entries : List BillingLedgerEntry) : List (ℤ × BillingPosting) :=
  entries.flatMap fun entry => entry.postings.map fun posting => (entry.seq, posting)

def addDelta (deltas : Collection String (Credits × ℤ)) (posting : ℤ × BillingPosting) :
    Except AppError (Collection String (Credits × ℤ)) :=
  if isReconciledAccount posting.2.account then do
    let previous := ((deltas.lookup posting.2.account).map Prod.fst).getD Credits.zero
    let total ← creditsOrError (previous.checkedAdd posting.2.signedAmount)
    return deltas.insert posting.2.account (total, posting.1)
  else .ok deltas

def accountDeltas (newEntries : List BillingLedgerEntry) :
    Except AppError (Collection String (Credits × ℤ)) :=
  (numberedPostings newEntries).foldlM addDelta ∅

/-- The authenticated balance of an account before the append. -/
def previousBalance (hmac : List UInt8 → String) (checkpoints : String → Option Checkpoint)
    (account : String) : Except AppError Credits :=
  match checkpoints account with
  | none => .ok Credits.zero
  | some checkpoint => (authenticatedCheckpoint hmac account checkpoint).map Prod.fst

def checkpointUpdate (hmac : List UInt8 → String) (account : String) (previous delta : Credits)
    (throughSeq : ℤ) : Except AppError (String × Checkpoint) := do
  let balance ← creditsOrError (previous.checkedAdd delta)
  return (account, ⟨balance, throughSeq, checkpointSignature hmac account throughSeq balance⟩)

/-- Every account is read and authenticated before the first balance is added up. -/
def checkpointUpdates (hmac : List UInt8 → String) (checkpoints : String → Option Checkpoint)
    (deltas : Collection String (Credits × ℤ)) : Except AppError (List (String × Checkpoint)) := do
  let previous ← deltas.entries.mapM fun e => previousBalance hmac checkpoints e.1
  (previous.zip deltas.entries).mapM fun e => checkpointUpdate hmac e.2.1 e.1 e.2.2.1 e.2.2.2

def bulkWrite (checkpoints : String → Option Checkpoint) (updates : List (String × Checkpoint)) :
    String → Option Checkpoint :=
  updates.foldl (fun written update => Function.update written update.1 (some update.2)) checkpoints

def appendEntries (hmac : List UInt8 → String) (s : LedgerStore)
    (entriesToAppend : List BillingLedgerEntry) :
    Except AppError (List BillingLedgerEntry × LedgerStore) := do
  entriesToAppend.forM validatePostings
  let start ← nextPlace s.entries
  let plan ← entriesToAppend.foldlM (planEntry hmac s.entries) start
  let entries ← storeNew s.entries plan.newEntries
  let deltas ← accountDeltas plan.newEntries
  let updates ← checkpointUpdates hmac s.checkpoints deltas
  return (plan.saved, ⟨entries, bulkWrite s.checkpoints updates⟩)

/-- What one request is answered and the store after it. A retry of a failed
transaction on the same store fails again. -/
def appendOneWithRetry (hmac : List UInt8 → String) (s : LedgerStore)
    (entry : BillingLedgerEntry) : Except AppError BillingLedgerEntry × LedgerStore :=
  match appendEntries hmac s [entry] with
  | .ok (saved, s') => (.ok (saved.headD entry), s')
  | .error e => (.error e, s)

def appendRequestsIndividually (hmac : List UInt8 → String) :
    LedgerStore → List BillingLedgerEntry →
      List (Except AppError BillingLedgerEntry) × LedgerStore
  | s, [] => ([], s)
  | s, entry :: entries =>
    let (reply, s') := appendOneWithRetry hmac s entry
    let (replies, s'') := appendRequestsIndividually hmac s' entries
    (reply :: replies, s'')

def appendBatchWithRetry (hmac : List UInt8 → String) (s : LedgerStore)
    (entries : List BillingLedgerEntry) :
    List (Except AppError BillingLedgerEntry) × LedgerStore :=
  match appendEntries hmac s entries with
  | .ok (saved, s') => (saved.map .ok, s')
  | .error e =>
    if entries.length > 1 then appendRequestsIndividually hmac s entries
    else (entries.map fun _ => .error e, s)

end NyxId.LedgerChain
