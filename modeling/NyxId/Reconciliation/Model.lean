import NyxId.LedgerChain.Model
import Mathlib.Data.String.Basic

/-!
Rolling reconciliation of stored balances with the journal. One batch reads a page of
the wallets and a page of the grants in one snapshot; a full pass is a cycle of batches
through both collections. Times are nanoseconds.
-/

namespace NyxId.Reconciliation

open Interleave LedgerChain

def batchSize : ℕ := 1000

structure BillingWallet where
  id : String
  ownerId : String
  exactAccountingVersion : Option ℤ
  activeSettlement : Bool
  activeTopupExpiry : Bool
  balanceCredits : Credits
  pendingLagoDebits : Credits

inductive CreditGrantStatus where
  | active
  | consumed
  | expired
  | revoked
  deriving DecidableEq

structure CreditGrant where
  id : String
  activeSettlement : Bool
  issuedLedgeredAt : Option ℤ
  terminalLedgeredAt : Option ℤ
  status : CreditGrantStatus
  remaining : Credits

/-- The collections in the order in which a batch reads them. -/
inductive AssetKind where
  | wallets
  | grants
  deriving DecidableEq

inductive AssetRow where
  | wallet (wallet : BillingWallet)
  | grant (grant : CreditGrant)

namespace AssetRow

def id : AssetRow → String
  | wallet w => w.id
  | grant g => g.id

def account : AssetRow → String
  | wallet w => "wallet:" ++ w.ownerId
  | grant g => "grant:" ++ g.id

/-- Locks and markers are durable work in progress. -/
def inProgress : AssetRow → Bool
  | wallet w => w.exactAccountingVersion ≠ some 2 || w.activeSettlement || w.activeTopupExpiry
  | grant g => g.activeSettlement || g.issuedLedgeredAt.isNone ||
      ((g.status = .expired || g.status = .revoked) && g.terminalLedgeredAt.isNone)

/-- The balance that the journal has to show. -/
def stored : AssetRow → Except AppError Credits
  | wallet w => creditsOrError (w.balanceCredits.checkedSub w.pendingLagoDebits)
  | grant g => .ok g.remaining

end AssetRow

/-- What one transaction reads. Identifiers and wallet owners are unique. -/
structure Snapshot where
  wallets : List BillingWallet
  grants : List CreditGrant
  ledger : LedgerStore
  walletIds : (wallets.map BillingWallet.id).Nodup
  grantIds : (grants.map CreditGrant.id).Nodup
  owners : (wallets.map BillingWallet.ownerId).Nodup
  walletNamed : ∀ wallet ∈ wallets, wallet.id ≠ ""
  grantNamed : ∀ grant ∈ grants, grant.id ≠ ""

def Snapshot.rows (snapshot : Snapshot) : AssetKind → List AssetRow
  | .wallets => snapshot.wallets.map .wallet
  | .grants => snapshot.grants.map .grant

/-- Where a cycle stands in one collection. -/
structure CollectionState where
  cursor : String
  done : Bool

structure VerifyState where
  collections : AssetKind → CollectionState
  deferred : Bool

/-- The state before the first batch of a cycle. -/
def VerifyState.fresh : VerifyState := ⟨fun _ => ⟨"", false⟩, false⟩

/-- The next rows of a collection in the order of their identifiers. -/
def page (rows : List AssetRow) (after : String) : List AssetRow :=
  ((rows.mergeSort fun a b => a.id ≤ b.id).filter fun row => after < row.id).take batchSize

/-- A collection that is done waits for the other one. -/
def scan (state : CollectionState) (rows : List AssetRow) : CollectionState × List AssetRow :=
  if state.done then (⟨"", true⟩, [])
  else
    let found := page rows state.cursor
    let last := if found.length = batchSize then (found.getLast?.map AssetRow.id).getD "" else ""
    (⟨last, last.isEmpty⟩, found)

/-- Balances to compare and the number of deferred rows, row by row. -/
def readRow (read : Collection String Credits × ℕ) (row : AssetRow) :
    Except AppError (Collection String Credits × ℕ) :=
  if row.inProgress then .ok (read.1, read.2 + 1)
  else do
    let stored ← row.stored
    return (read.1.insert row.account stored, read.2)

inductive Mismatch where
  | invalidCheckpoint (account : String) (error : AppError)
  | differs (account : String) (stored journal : Credits) (checkpoint latest : ℤ)

/-- The number of the newest entry that posts to an account. -/
def latestSeq (entries : List BillingLedgerEntry) (account : String) : ℤ :=
  (newest BillingLedgerEntry.seq (entries.filter fun entry =>
    entry.postings.any (·.account = account))).elim 0 BillingLedgerEntry.seq

def compareAccount (hmac : List UInt8 → String) (ledger : LedgerStore) (account : String)
    (stored : Credits) : Option Mismatch :=
  let checkpoint : Except AppError (Credits × ℤ) := match ledger.checkpoints account with
    | none => .ok (Credits.zero, 0)
    | some checkpoint => authenticatedCheckpoint hmac account checkpoint
  match checkpoint with
  | .error e => some (.invalidCheckpoint account e)
  | .ok (posted, through) =>
    -- An authenticated older checkpoint is still a replay.
    let latest := latestSeq ledger.entries account
    if stored ≠ posted ∨ through ≠ latest then
      some (.differs account stored posted through latest)
    else none

/-- The first mismatch in the order of the accounts. -/
def firstMismatch (hmac : List UInt8 → String) (ledger : LedgerStore)
    (expected : Collection String Credits) : Option Mismatch :=
  (expected.entries.mergeSort fun a b => a.1 ≤ b.1).findSome? fun e =>
    compareAccount hmac ledger e.1 e.2

structure ChainVerifyStatus where
  headSeq : Option ℤ
  checkedEntries : ℕ
  lastFullPassAt : Option ℤ
  mismatch : Option Mismatch
  deferred : ℕ
  lastRunAt : ℤ

/-- One batch: the state to go on from, the status, and whether the cycle wrapped. -/
def verifySnapshot (hmac : List UInt8 → String) (snapshot : Snapshot) (state : VerifyState)
    (lastFullPassAt : Option ℤ) (now : ℤ) :
    Except AppError (VerifyState × ChainVerifyStatus × Bool) := do
  let found := fun kind => scan (state.collections kind) (snapshot.rows kind)
  let wrapped := (found .wallets).1.cursor.isEmpty && (found .grants).1.cursor.isEmpty
  let (expected, deferred) ← ((found .wallets).2 ++ (found .grants).2).foldlM readRow (∅, 0)
  let mismatch := firstMismatch hmac snapshot.ledger expected
  let cycleDeferred := state.deferred || decide (0 < deferred)
  let next : VerifyState :=
    { collections := fun kind =>
        if wrapped then ⟨(found kind).1.cursor, false⟩ else (found kind).1
      deferred := !wrapped && cycleDeferred }
  let status : ChainVerifyStatus :=
    { headSeq := (readTail snapshot.ledger.entries).map BillingLedgerEntry.seq
      checkedEntries := expected.entries.length
      lastFullPassAt :=
        if wrapped && mismatch.isNone && !cycleDeferred then some now else lastFullPassAt
      mismatch := mismatch
      deferred := deferred
      lastRunAt := now }
  return (if mismatch.isNone then next else state, status, wrapped)

/-- One batch of the schedule. -/
structure Batch where
  snapshot : Snapshot
  now : ℤ

/-- What batches leave behind. -/
structure Progress where
  state : VerifyState
  lastFullPassAt : Option ℤ

/-- Before the first batch ever. -/
def Progress.start : Progress := ⟨.fresh, none⟩

/-- A batch that fails is rolled back. -/
def runBatch (hmac : List UInt8 → String) (progress : Progress) (batch : Batch) : Progress :=
  match verifySnapshot hmac batch.snapshot progress.state progress.lastFullPassAt batch.now with
  | .ok (state, status, _) => ⟨state, status.lastFullPassAt⟩
  | .error _ => progress

/-!
Runs of batches, and what one batch reads: a page goes past its own rows and no others,
and the balances of its rows are kept under different accounts.
-/

/-- A batch with the progress that it starts from. -/
abbrev Step := Progress × Batch

def trace (hmac : List UInt8 → String) : Progress → List Batch → List Step
  | _, [] => []
  | progress, batch :: batches =>
    (progress, batch) :: trace hmac (runBatch hmac progress batch) batches

def run (hmac : List UInt8 → String) (progress : Progress) (batches : List Batch) : Progress :=
  batches.foldl (runBatch hmac) progress

def Step.result (hmac : List UInt8 → String) (step : Step) :
    Except AppError (VerifyState × ChainVerifyStatus × Bool) :=
  verifySnapshot hmac step.2.snapshot step.1.state step.1.lastFullPassAt step.2.now

def Step.found (step : Step) (kind : AssetKind) : CollectionState × List AssetRow :=
  scan (step.1.state.collections kind) (step.2.snapshot.rows kind)

/-- The batch committed and found no mismatch. -/
def Step.clean (hmac : List UInt8 → String) (step : Step) : Bool :=
  match step.result hmac with
  | .ok (_, status, _) => status.mismatch.isNone
  | .error _ => false

/-- The batch reached the end of both collections. -/
def Step.wrapped (step : Step) : Bool :=
  (step.found .wallets).1.cursor.isEmpty && (step.found .grants).1.cursor.isEmpty

/-- The row is on the batch's page. -/
def Step.onPage (step : Step) (kind : AssetKind) (id : String) : Bool :=
  (step.found kind).2.any fun row => row.id == id

/-- The batch put the balance of the row up for comparison. -/
def Step.compares (step : Step) (kind : AssetKind) (id : String) : Bool :=
  (step.found kind).2.any fun row => row.id == id && !row.inProgress

/-- Every row of the collection with this identifier agrees with the journal. -/
def Step.Matches (hmac : List UInt8 → String) (step : Step) (kind : AssetKind) (id : String) :
    Prop :=
  ∀ row ∈ (step.found kind).2, row.id = id → ∃ stored, row.stored = .ok stored ∧
    compareAccount hmac step.2.snapshot.ledger row.account stored = none

/-- A row of the page is work in progress. -/
def Step.Defers (step : Step) : Prop :=
  ∃ kind, ∃ row ∈ (step.found kind).2, row.inProgress = true

/-- The row is there in every snapshot. -/
def Throughout (steps : List Step) (kind : AssetKind) (id : String) : Prop :=
  ∀ step ∈ steps, id ∈ (step.2.snapshot.rows kind).map AssetRow.id

theorem rows_nodup (snapshot : Snapshot) (kind : AssetKind) :
    ((snapshot.rows kind).map AssetRow.id).Nodup := by
  cases kind with
  | wallets =>
    simp only [Snapshot.rows, List.map_map]
    exact snapshot.walletIds
  | grants =>
    simp only [Snapshot.rows, List.map_map]
    exact snapshot.grantIds

theorem rows_named (snapshot : Snapshot) (kind : AssetKind) :
    ∀ row ∈ snapshot.rows kind, row.id ≠ "" := by
  intro row hrow
  cases kind with
  | wallets =>
    obtain ⟨wallet, hwallet, rfl⟩ := List.mem_map.mp hrow
    exact snapshot.walletNamed wallet hwallet
  | grants =>
    obtain ⟨grant, hgrant, rfl⟩ := List.mem_map.mp hrow
    exact snapshot.grantNamed grant hgrant

/-- The rows after a cursor, in strictly increasing order. -/
def after (rows : List AssetRow) (cursor : String) : List AssetRow :=
  (rows.mergeSort fun a b => a.id ≤ b.id).filter fun row => cursor < row.id

theorem mem_after {rows : List AssetRow} {cursor : String} {row : AssetRow} :
    row ∈ after rows cursor ↔ row ∈ rows ∧ cursor < row.id := by
  unfold after
  rw [List.mem_filter, List.mem_mergeSort, decide_eq_true_eq]

theorem after_sorted {rows : List AssetRow} (hunique : (rows.map AssetRow.id).Nodup)
    (cursor : String) : (after rows cursor).Pairwise fun a b => a.id < b.id := by
  have hsorted : (rows.mergeSort fun a b => a.id ≤ b.id).Pairwise fun a b => a.id ≤ b.id := by
    have hle := @List.pairwise_mergeSort AssetRow (fun a b => decide (a.id ≤ b.id))
      (fun a b c => by simpa using le_trans) (fun a b => by simpa using le_total a.id b.id) rows
    simpa using hle
  have hnodup : (rows.mergeSort fun a b => a.id ≤ b.id).Pairwise fun a b => a.id ≠ b.id := by
    have hperm := (List.mergeSort_perm rows fun a b => a.id ≤ b.id).map AssetRow.id
    exact List.pairwise_map.mp (hperm.nodup_iff.mpr hunique)
  exact ((hsorted.and hnodup).imp fun h => lt_of_le_of_ne h.1 h.2).filter _

/-- A full page ends with its largest identifier; a shorter one is all there is. -/
theorem mem_page {rows : List AssetRow} (hunique : (rows.map AssetRow.id).Nodup)
    {cursor : String} {row : AssetRow} : row ∈ page rows cursor ↔
      row ∈ rows ∧ cursor < row.id ∧
        ((page rows cursor).length = batchSize →
          ∀ last, (page rows cursor).getLast? = some last → row.id ≤ last.id) := by
  have hsorted := after_sorted hunique cursor
  have hsplit : after rows cursor = page rows cursor ++ (after rows cursor).drop batchSize :=
    (List.take_append_drop batchSize _).symm
  constructor
  · intro hrow
    have hmem := mem_after.mp (List.mem_of_mem_take hrow)
    refine ⟨hmem.1, hmem.2, fun _ last hlast => ?_⟩
    rw [hsplit, List.pairwise_append] at hsorted
    obtain ⟨before, hbefore⟩ := List.getLast?_eq_some_iff.mp hlast
    rw [hbefore] at hrow
    rcases List.mem_append.mp hrow with hrow | hrow
    · rw [hbefore, List.pairwise_append] at hsorted
      exact (hsorted.1.2.2 row hrow last List.mem_cons_self).le
    · rw [List.mem_singleton.mp hrow]
  · rintro ⟨hrow, hlt, hlast⟩
    have hmem := mem_after.mpr ⟨hrow, hlt⟩
    by_cases hfull : (page rows cursor).length = batchSize
    · rw [hsplit] at hmem
      rcases List.mem_append.mp hmem with hmem | hmem
      · exact hmem
      · have hne : page rows cursor ≠ [] := by
          intro hnil
          rw [hnil] at hfull
          cases hfull
        obtain ⟨last, hget⟩ := Option.ne_none_iff_exists'.mp
          (fun hnone => hne (List.getLast?_eq_none_iff.mp hnone))
        rw [hsplit, List.pairwise_append] at hsorted
        have hbeyond := hsorted.2.2 last (List.mem_of_getLast? hget) row hmem
        exact absurd (hlast hfull last hget) (not_le.mpr hbeyond)
    · have hwhole : page rows cursor = after rows cursor := by
        refine List.take_of_length_le ?_
        show (after rows cursor).length ≤ batchSize
        have hlen : (page rows cursor).length = min batchSize (after rows cursor).length :=
          List.length_take
        omega
      rwa [hwhole]

/-- The cycle has been past the identifier in the collection. -/
def Passed (state : CollectionState) (id : String) : Prop := state.done = true ∨ id ≤ state.cursor

instance (state : CollectionState) (id : String) : Decidable (Passed state id) := by
  unfold Passed
  infer_instance

/-- A batch goes past the rows on its page and no others. -/
theorem passed_scan {rows : List AssetRow} (hunique : (rows.map AssetRow.id).Nodup)
    (hnamed : ∀ row ∈ rows, row.id ≠ "") (state : CollectionState) {id : String}
    (hid : id ∈ rows.map AssetRow.id) :
    (Passed (scan state rows).1 id ↔
      Passed state id ∨ ((scan state rows).2.any fun row => row.id == id) = true) ∧
    ¬ (Passed state id ∧ ((scan state rows).2.any fun row => row.id == id) = true) := by
  obtain ⟨row, hrow, rfl⟩ := List.mem_map.mp hid
  unfold scan
  by_cases hdone : state.done = true
  · rw [if_pos hdone]
    simp [Passed, hdone]
  · rw [if_neg hdone]
    have hany : ((page rows state.cursor).any fun other => other.id == row.id) = true ↔
        row ∈ page rows state.cursor := by
      rw [List.any_eq_true]
      constructor
      · rintro ⟨other, hother, hsame⟩
        have hmem := (mem_page hunique).mp hother
        rwa [← List.inj_on_of_nodup_map hunique hmem.1 hrow (by simpa using hsame)]
      · exact fun hmem => ⟨row, hmem, by simp⟩
    dsimp only
    rw [hany, mem_page hunique]
    simp only [Passed, hdone, false_or, Bool.false_eq_true]
    by_cases hfull : (page rows state.cursor).length = batchSize
    · have hne : page rows state.cursor ≠ [] := by
        intro hnil
        rw [hnil] at hfull
        cases hfull
      obtain ⟨last, hlast⟩ := Option.ne_none_iff_exists'.mp
        (fun hnone => hne (List.getLast?_eq_none_iff.mp hnone))
      have hmem := (mem_page hunique).mp (List.mem_of_getLast? hlast)
      have hname : last.id.isEmpty = false := by
        simpa using hnamed last hmem.1
      simp only [hfull, if_true, hlast, Option.map_some, Option.getD_some, hname, Option.some.injEq,
        forall_eq', forall_const, Bool.false_eq_true, false_or]
      constructor
      · constructor
        · intro hle
          rcases le_or_gt row.id state.cursor with h | h
          · exact .inl h
          · exact .inr ⟨hrow, h, hle⟩
        · rintro (h | ⟨-, -, h⟩)
          · exact h.trans hmem.2.1.le
          · exact h
      · rintro ⟨hle, -, hlt, -⟩
        exact absurd hle (not_le.mpr hlt)
    · have hempty : "".isEmpty = true := rfl
      simp only [hfull, if_false, hempty, true_or, false_imp_iff, and_true, true_iff]
      constructor
      · rcases le_or_gt row.id state.cursor with h | h
        · exact .inl h
        · exact .inr ⟨hrow, h⟩
      · rintro ⟨hle, -, hlt⟩
        exact absurd hle (not_le.mpr hlt)

theorem scan_end (state : CollectionState) (rows : List AssetRow)
    (h : (scan state rows).1.cursor.isEmpty = true) : (scan state rows).1.done = true := by
  unfold scan at h ⊢
  by_cases hdone : state.done = true
  · rw [if_pos hdone]
  · rw [if_neg hdone] at h ⊢
    exact h

/-- Rows read into the balances to compare: rows in progress are counted, the stored
balance of every other row is kept under its account. -/
theorem foldlM_readRow {rows : List AssetRow} (hunique : (rows.map AssetRow.account).Nodup)
    {read read' : Collection String Credits × ℕ} (h : rows.foldlM readRow read = .ok read') :
    (∀ row ∈ rows, row.inProgress = false →
      ∃ stored, row.stored = .ok stored ∧ read'.1.lookup row.account = some stored) ∧
    (∀ account, account ∉ rows.map AssetRow.account →
      read'.1.lookup account = read.1.lookup account) ∧
    read'.2 = read.2 + rows.countP AssetRow.inProgress := by
  induction rows generalizing read with
  | nil =>
    cases h
    exact ⟨fun row hrow => (nomatch hrow), fun _ _ => rfl, rfl⟩
  | cons row rows ih =>
    rw [List.foldlM_cons] at h
    obtain ⟨next, hnext, h⟩ := bind_eq_ok.mp h
    rw [List.map_cons, List.nodup_cons] at hunique
    obtain ⟨hkept, hother, hcount⟩ := ih hunique.2 h
    unfold readRow at hnext
    by_cases hprogress : row.inProgress = true
    · rw [if_pos hprogress] at hnext
      cases hnext
      refine ⟨fun other hmem hfree => ?_, fun account haccount => ?_, ?_⟩
      · rcases List.mem_cons.mp hmem with rfl | hmem
        · rw [hprogress] at hfree
          cases hfree
        · exact hkept other hmem hfree
      · exact hother account fun hmem => haccount (List.mem_cons_of_mem _ hmem)
      · rw [hcount, List.countP_cons_of_pos hprogress]
        dsimp only
        omega
    · rw [if_neg hprogress] at hnext
      obtain ⟨stored, hstored, hnext⟩ := bind_eq_ok.mp hnext
      cases hnext
      refine ⟨fun other hmem hfree => ?_, fun account haccount => ?_, ?_⟩
      · rcases List.mem_cons.mp hmem with rfl | hmem
        · exact ⟨stored, hstored, by rw [hother _ hunique.1, AList.lookup_insert]⟩
        · exact hkept other hmem hfree
      · rw [List.map_cons, List.mem_cons, not_or] at haccount
        rw [hother account haccount.2, AList.lookup_insert_ne haccount.1]
      · rw [hcount, List.countP_cons_of_neg hprogress]

theorem mem_scan (state : CollectionState) (rows : List AssetRow) :
    (scan state rows).2.Subperm rows := by
  unfold scan
  split
  · exact List.nil_subperm
  · exact ((List.take_sublist _ _).trans List.filter_sublist).subperm.trans
      (List.mergeSort_perm rows _).subperm

theorem rows_accounts (snapshot : Snapshot) (kind : AssetKind) :
    ((snapshot.rows kind).map AssetRow.account).Nodup := by
  cases kind with
  | wallets =>
    simp only [Snapshot.rows, List.map_map]
    refine (List.nodup_map_iff_inj_on (List.Nodup.of_map _ snapshot.walletIds)).mpr ?_
    intro w hw v hv hsame
    have howner : w.ownerId = v.ownerId := by
      simpa [AssetRow.account] using hsame
    exact List.inj_on_of_nodup_map snapshot.owners hw hv howner
  | grants =>
    simp only [Snapshot.rows, List.map_map]
    refine (List.nodup_map_iff_inj_on (List.Nodup.of_map _ snapshot.grantIds)).mpr ?_
    intro g hg f hf hsame
    have hid : g.id = f.id := by
      simpa [AssetRow.account] using hsame
    exact List.inj_on_of_nodup_map snapshot.grantIds hg hf hid

/-- The pages of one batch have different accounts. -/
theorem pages_accounts (step : Step) :
    (((step.found .wallets).2 ++ (step.found .grants).2).map AssetRow.account).Nodup := by
  have hpage : ∀ kind, ((step.found kind).2.map AssetRow.account).Nodup := by
    intro kind
    have hperm : ((step.found kind).2.map AssetRow.account).Subperm
        ((step.2.snapshot.rows kind).map AssetRow.account) := by
      obtain ⟨rows, hperm, hsub⟩ := mem_scan (step.1.state.collections kind)
        (step.2.snapshot.rows kind)
      exact ⟨rows.map AssetRow.account, hperm.map _, hsub.map _⟩
    obtain ⟨accounts, hperm, hsub⟩ := hperm
    exact hperm.nodup_iff.mp ((rows_accounts step.2.snapshot kind).sublist hsub)
  rw [List.map_append, List.nodup_append]
  refine ⟨hpage _, hpage _, ?_⟩
  intro a ha b hb hsame
  obtain ⟨wallet, hwallet, rfl⟩ := List.mem_map.mp ha
  obtain ⟨grant, hgrant, rfl⟩ := List.mem_map.mp hb
  obtain ⟨w, -, rfl⟩ := List.mem_map.mp ((mem_scan _ _).subset hwallet)
  obtain ⟨g, -, rfl⟩ := List.mem_map.mp ((mem_scan _ _).subset hgrant)
  have hlist := congrArg String.toList hsame
  simp [AssetRow.account] at hlist

end NyxId.Reconciliation
