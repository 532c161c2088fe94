import NyxId.ChainVerify.Coverage
import NyxId.AuditChain.HashCoverage
import NyxId.LedgerChain.Model

/-!
Verification of the two chains: the billing ledger and the audit log. Both collections
have a unique index on the sequence number.
-/

namespace NyxId

open ChainVerify Interleave

namespace LedgerChain

/-- The stored ledger; its sequence numbers are unique. -/
structure Ledger where
  entries : List BillingLedgerEntry
  unique : (entries.map BillingLedgerEntry.seq).Nodup

def reader (hmac : List UInt8 → String) : ChainReader BillingLedgerEntry where
  seq := BillingLedgerEntry.seq
  prevHash := BillingLedgerEntry.prevHash
  entryHash := BillingLedgerEntry.entryHash
  computeHash entry := .ok (computeEntryHash hmac entry)
  balanced entry := (validatePostings entry).isOk

def Ledger.head (ledger : Ledger) : Option (ℤ × String) :=
  (readTail ledger.entries).map fun tail => (tail.seq, tail.entryHash)

def verifyChain (hmac : List UInt8 → String) (ledger : Ledger) (fromSeq toSeq limit : Option ℤ) :
    Except AppError VerifyReport :=
  verify (reader hmac) ledger.entries ledger.head fromSeq toSeq limit

end LedgerChain

namespace AuditChain

/-- The stored audit log; the sequence numbers of chained rows are unique. Rows from
before the chain have none. -/
structure AuditRows where
  rows : List AuditLog
  unique : (rows.filterMap AuditLog.seq).Nodup

def AuditRows.chained (log : AuditRows) : List AuditLog := log.rows.filter (·.seq.isSome)

def AuditRows.preChainCount (log : AuditRows) : ℕ := log.rows.countP (·.seq.isNone)

/-- The newest row, unless it lacks its hash. -/
def AuditRows.head (log : AuditRows) : Option (ℤ × String) :=
  (newest (fun entry => entry.seq.getD 0) log.chained).bind fun tail =>
    tail.entryHash.map fun entryHash => (tail.seq.getD 0, entryHash)

def reader (hmac : List UInt8 → String) : ChainReader AuditLog where
  seq entry := entry.seq.getD 0
  prevHash entry := entry.prevHash.getD ""
  entryHash entry := entry.entryHash.getD ""
  computeHash := computeEntryHash hmac
  balanced _ := true

structure AuditChainVerifyReport extends VerifyReport where
  preChainCount : ℕ

def verifyChain (hmac : List UInt8 → String) (log : AuditRows) (fromSeq toSeq limit : Option ℤ) :
    Except AppError AuditChainVerifyReport := do
  let report ← verify (reader hmac) log.chained log.head fromSeq toSeq limit
  return { report with preChainCount := log.preChainCount }

theorem AuditRows.chained_unique (log : AuditRows) :
    (log.chained.map fun entry => entry.seq.getD 0).Nodup := by
  have hsame : ∀ rows : List AuditLog, ((rows.filter (·.seq.isSome)).map fun entry =>
      entry.seq.getD 0) = rows.filterMap AuditLog.seq := by
    intro rows
    induction rows with
    | nil => rfl
    | cons row rows ih =>
      cases hseq : row.seq with
      | none => simp [hseq, ih]
      | some n => simp [hseq, ih]
  unfold AuditRows.chained
  rw [hsame]
  exact log.unique

theorem verifyChain_page (hmac : List UInt8 → String) (log : AuditRows)
    (fromSeq toSeq limit : Option ℤ) :
    (verifyChain hmac log fromSeq toSeq limit).map AuditChainVerifyReport.toVerifyReport =
      verify (reader hmac) log.chained log.head fromSeq toSeq limit := by
  unfold verifyChain
  cases verify (reader hmac) log.chained log.head fromSeq toSeq limit <;> rfl

end AuditChain

namespace ChainVerify

/-- No valid request has a first page that is a run and stops short of its range. -/
def NeverShort {E : Type} (K : ChainReader E) (stored : List E) (head : Option (ℤ × String))
    (fromSeq toSeq limit : Option ℤ) : Prop :=
  checkRange (fromSeq.getD 1) toSeq = .ok () → checkLimit (limit.getD defaultVerifyLimit) = .ok () →
    ReachesEnd K stored head (fromSeq.getD 1) toSeq (limit.getD defaultVerifyLimit).toNat

/-- For both chains, verification is complete and pageable exactly when the entries of
the first page do not stop short of the range. -/
theorem chains_verify_iff (hmac : List UInt8 → String) (fromSeq toSeq limit : Option ℤ) :
    (∀ ledger : LedgerChain.Ledger,
      Verifies (LedgerChain.reader hmac) ledger.entries
          (LedgerChain.verifyChain hmac ledger · toSeq limit) fromSeq toSeq limit ↔
        NeverShort (LedgerChain.reader hmac) ledger.entries ledger.head fromSeq toSeq limit) ∧
    (∀ log : AuditChain.AuditRows,
      Verifies (AuditChain.reader hmac) log.chained
          (fun fromSeq => (AuditChain.verifyChain hmac log fromSeq toSeq limit).map
            AuditChain.AuditChainVerifyReport.toVerifyReport) fromSeq toSeq limit ↔
        NeverShort (AuditChain.reader hmac) log.chained log.head fromSeq toSeq limit) := by
  refine ⟨fun ledger => ?_, fun log => ?_⟩
  · have hhead : HeadOf (LedgerChain.reader hmac) ledger.entries ledger.head := by
      unfold LedgerChain.Ledger.head LedgerChain.readTail
      rw [Option.map_eq_bind]
      exact headOf_newest fun tail : LedgerChain.BillingLedgerEntry => some tail.entryHash
    exact verifies_iff ledger.unique hhead
  · simp only [AuditChain.verifyChain_page]
    exact verifies_iff log.chained_unique (headOf_newest AuditChain.AuditLog.entryHash)

/-- A chain entry whose hash is `h` under a constant hash function. -/
def constantEntry (seq : ℤ) (prevHash : String) : LedgerChain.BillingLedgerEntry where
  id := LedgerChain.orEmpty Encoding.decimal (some seq)
  seq := seq
  prevHash := prevHash
  entryHash := "h"
  eventType := .walletCredited
  movement := none
  postings := []
  ownerId := "owner"
  referenceId := "top-up"
  transactionId := none
  layer := none
  metric := none
  serviceSlug := none
  model := none
  quantity := none
  amountCredits := some 1
  amountMicros := none
  balanceCredits := none
  dedupeKey := none
  walletId := none
  createdAt := 0

/-- The fourth of five entries is deleted. -/
def deletedFourth : LedgerChain.Ledger where
  entries := [constantEntry 1 LedgerChain.genesisPrevHash, constantEntry 2 "h",
    constantEntry 3 "h", constantEntry 5 "h"]
  unique := by decide

/-- The range before the deletion, on two pages. -/
theorem before_deletion_verifies :
    Verifies (LedgerChain.reader fun _ => "h") deletedFourth.entries
      (LedgerChain.verifyChain (fun _ => "h") deletedFourth · (some 3) (some 2))
      none (some 3) (some 2) := by
  refine ((chains_verify_iff (fun _ => "h") none (some 3) (some 2)).1 deletedFourth).mpr ?_
  intro _ _ _ _ _
  refine .inr ⟨?_, .inl (by decide)⟩
  unfold window
  rw [List.mergeSort_of_pairwise (by decide)]
  decide

/-- A range that ends in a deletion is reported sound. -/
theorem deletion_at_end_unseen :
    (∃ report, LedgerChain.verifyChain (fun _ => "h") deletedFourth (some 1) (some 4) none =
        .ok report ∧ report.status = .ok ∧ report.headSeq = some 5 ∧ report.nextFromSeq = none) ∧
      ¬ Complete (LedgerChain.reader fun _ => "h") deletedFourth.entries 1 (some 4) := by
  have hwindow : window (LedgerChain.reader fun _ => "h") deletedFourth.entries 1 (some 4) =
      [constantEntry 1 LedgerChain.genesisPrevHash, constantEntry 2 "h", constantEntry 3 "h"] := by
    unfold window
    rw [List.mergeSort_of_pairwise (by decide)]
    decide
  constructor
  · unfold LedgerChain.verifyChain
    rw [verify_valid rfl rfl]
    unfold verifyPage
    rw [Option.getD_some, hwindow]
    exact ⟨_, rfl, rfl, rfl, rfl⟩
  · intro hcomplete
    obtain ⟨entry, honce, -⟩ := hcomplete 4 (by decide) ⟨by simp, constantEntry 5 "h", by
      simp [deletedFourth], by decide⟩
    have hnone : (deletedFourth.entries.filter fun e =>
        (LedgerChain.reader fun _ => "h").seq e = 4) = [] := by decide
    rw [hnone] at honce
    cases honce

end ChainVerify

end NyxId
