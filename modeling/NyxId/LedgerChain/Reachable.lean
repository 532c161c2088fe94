import NyxId.LedgerChain.BatchAppend

/-!
Checkpoints in reachable states: every checkpoint is the signed sum of the postings to
its account, and no posting lies beyond it.
-/

namespace NyxId.LedgerChain

open Interleave

variable {hmac : List UInt8 → String}

/-- Stores reached by appends. Ledgers from before the checkpoints have no postings to
the accounts that get one. -/
inductive Reachable (hmac : List UInt8 → String) : LedgerStore → Prop
  | start {entries : List BillingLedgerEntry}
      (hnone : ∀ account, touching account (numberedPostings entries) = []) :
      Reachable hmac ⟨entries, fun _ => none⟩
  | append {s s' : LedgerStore} {es saved : List BillingLedgerEntry} (h : Reachable hmac s)
      (happend : appendEntries hmac s es = .ok (saved, s')) : Reachable hmac s'

/-- Batches and single requests only ever append. -/
theorem Reachable.individually {s : LedgerStore} (h : Reachable hmac s)
    (es : List BillingLedgerEntry) :
    Reachable hmac (appendRequestsIndividually hmac s es).2 := by
  induction es generalizing s with
  | nil => exact h
  | cons entry es ih =>
    unfold appendRequestsIndividually appendOneWithRetry
    cases hone : appendEntries hmac s [entry] with
    | ok result => exact ih (h.append hone)
    | error e => exact ih h

theorem Reachable.batch {s : LedgerStore} (h : Reachable hmac s)
    (es : List BillingLedgerEntry) : Reachable hmac (appendBatchWithRetry hmac s es).2 := by
  unfold appendBatchWithRetry
  cases hbatch : appendEntries hmac s es with
  | ok result => exact h.append hbatch
  | error e =>
    dsimp only
    split
    · exact h.individually es
    · exact h

/-- The new entries of a plan have increasing numbers from the first place on. -/
structure InOrder (first : ℤ) (plan : AppendPlan) : Prop where
  increasing : plan.newEntries.Pairwise fun a b => a.seq < b.seq
  bounds : ∀ entry ∈ plan.newEntries, first ≤ entry.seq ∧ entry.seq < plan.nextSeq
  place : first ≤ plan.nextSeq

theorem inOrder_run {first : ℤ} {stored es : List BillingLedgerEntry} {plan plan' : AppendPlan}
    (h : InOrder first plan) (hplan : es.foldlM (planEntry hmac stored) plan = .ok plan') :
    InOrder first plan' := by
  induction es generalizing plan with
  | nil =>
    cases hplan
    exact h
  | cons entry es ih =>
    rw [List.foldlM_cons] at hplan
    obtain ⟨mid, hmid, hplan⟩ := bind_eq_ok.mp hplan
    refine ih ?_ hplan
    rcases planEntry_cases hmid with ⟨key, found, -, -, rfl⟩ | ⟨-, -, nextSeq, hnext, rfl⟩
    · exact ⟨h.increasing, h.bounds, h.place⟩
    · have hnext := (checkedI64_eq_some.mp hnext).1
      have hplace := h.place
      have hlinked : (linkEntry hmac plan.nextSeq plan.previousHash entry).seq = plan.nextSeq := rfl
      refine ⟨?_, ?_, by dsimp only; omega⟩
      · rw [List.pairwise_append]
        refine ⟨h.increasing, List.pairwise_singleton _ _, fun a ha b hb => ?_⟩
        rw [List.mem_singleton.mp hb, hlinked]
        exact (h.bounds a ha).2
      · intro e he
        dsimp only
        rcases List.mem_append.mp he with he | he
        · have hle := h.bounds e he
          omega
        · rw [List.mem_singleton.mp he, hlinked]
          omega

theorem nextPlace_above {entries : List BillingLedgerEntry} {place : AppendPlan}
    (h : nextPlace entries = .ok place) : ∀ entry ∈ entries, entry.seq < place.nextSeq := by
  intro entry hentry
  unfold nextPlace at h
  cases htail : readTail entries with
  | none =>
    rw [newest_eq_none htail] at hentry
    cases hentry
  | some tail =>
    rw [htail] at h
    obtain ⟨next, hplace, hend⟩ := bind_eq_ok.mp h
    cases hend
    have hlt := (checkedI64_eq_some.mp (creditsOrError_eq_ok hplace)).1
    have hle : entry.seq ≤ tail.seq := le_newest htail hentry
    dsimp only
    omega

theorem numberedPostings_sorted {entries : List BillingLedgerEntry}
    (h : entries.Pairwise fun a b => a.seq < b.seq) :
    (numberedPostings entries).Pairwise fun p q => p.1 ≤ q.1 := by
  unfold numberedPostings
  rw [List.pairwise_flatMap]
  refine ⟨fun entry _ => ?_, h.imp fun {a b} hlt => ?_⟩
  · rw [List.pairwise_map]
    exact List.pairwise_of_forall fun _ _ => le_refl _
  · intro p hp q hq
    obtain ⟨-, -, rfl⟩ := List.mem_map.mp hp
    obtain ⟨-, -, rfl⟩ := List.mem_map.mp hq
    exact hlt.le

theorem mem_numberedPostings {entries : List BillingLedgerEntry} {p : ℤ × BillingPosting}
    (h : p ∈ numberedPostings entries) : ∃ entry ∈ entries, entry.seq = p.1 := by
  obtain ⟨entry, hentry, hp⟩ := List.mem_flatMap.mp h
  obtain ⟨posting, -, rfl⟩ := List.mem_map.mp hp
  exact ⟨entry, hentry, rfl⟩

/-- Every checkpoint has moved by all the postings to its account, in their order. -/
structure Reconciled (hmac : List UInt8 → String) (s : LedgerStore) : Prop where
  moved : ∀ account, Moved hmac account none (s.checkpoints account)
    (touching account (numberedPostings s.entries))
  sorted : ∀ account, (touching account (numberedPostings s.entries)).Pairwise
    fun p q => p.1 ≤ q.1

theorem Reconciled.append {s s' : LedgerStore} {es saved : List BillingLedgerEntry}
    (h : Reconciled hmac s) (happend : appendEntries hmac s es = .ok (saved, s')) :
    Reconciled hmac s' := by
  obtain ⟨-, start, plan, entries, deltas, updates, hstart, hplan, hentries, hdeltas, hupdates,
    -, rfl⟩ := appendEntries_eq_ok.mp happend
  obtain rfl := storeNew_eq_ok hentries
  obtain ⟨-, hnew⟩ := nextPlace_fresh hstart
  have horder : InOrder start.nextSeq plan := inOrder_run
    ⟨by rw [hnew]; exact .nil, by rw [hnew]; exact fun e he => (nomatch he), le_refl _⟩ hplan
  constructor
  · intro account
    dsimp only
    rw [numberedPostings_append, touching_append]
    exact (h.moved account).trans (moved_of_updates hdeltas hupdates account)
  · intro account
    dsimp only
    rw [numberedPostings_append, touching_append, List.pairwise_append]
    refine ⟨h.sorted account, (numberedPostings_sorted horder.increasing).filter _, ?_⟩
    intro p hp q hq
    obtain ⟨e, he, hseq⟩ := mem_numberedPostings (List.mem_of_mem_filter hp)
    obtain ⟨e', he', hseq'⟩ := mem_numberedPostings (List.mem_of_mem_filter hq)
    have hbelow := nextPlace_above hstart e he
    have habove := (horder.bounds e' he').1
    omega

theorem Reachable.reconciled {s : LedgerStore} (h : Reachable hmac s) : Reconciled hmac s := by
  induction h with
  | start hnone =>
    refine ⟨fun account => ?_, fun account => ?_⟩
    · dsimp only
      rw [hnone account]
      rfl
    · dsimp only
      rw [hnone account]
      exact .nil
  | append _ happend ih => exact ih.append happend

/-- The signed sum of the postings to an account up to a sequence number. -/
def postedThrough (entries : List BillingLedgerEntry) (account : String) (seq : ℤ) : ℤ :=
  signedSum ((numberedPostings entries).filter fun p => p.2.account = account ∧ p.1 ≤ seq)

theorem Reconciled.balance {s : LedgerStore} (h : Reconciled hmac s) {account : String}
    {checkpoint : Checkpoint} (hcheckpoint : s.checkpoints account = some checkpoint) :
    checkpoint.balance.pico = postedThrough s.entries account checkpoint.throughSeq := by
  have hmoved := h.moved account
  have hsorted := h.sorted account
  unfold Moved at hmoved
  rw [hcheckpoint] at hmoved
  split at hmoved
  · cases hmoved
  · rename_i last hlast
    obtain ⟨balance, hsome, hbalance⟩ := hmoved
    cases hsome
    have htouch : isReconciledAccount account = true := by
      have hmem := List.of_mem_filter (List.mem_of_getLast? hlast)
      simp only [Bool.and_eq_true, beq_iff_eq] at hmem
      exact hmem.2 ▸ hmem.1
    obtain ⟨before, hbefore⟩ := List.getLast?_eq_some_iff.mp hlast
    have hle : ∀ p ∈ touching account (numberedPostings s.entries), p.1 ≤ last.1 := by
      rw [hbefore, List.pairwise_append] at hsorted
      intro p hp
      rw [hbefore] at hp
      rcases List.mem_append.mp hp with hp | hp
      · exact hsorted.2.2 p hp last List.mem_cons_self
      · rw [List.mem_singleton.mp hp]
    have hsame : ((numberedPostings s.entries).filter fun p =>
        p.2.account = account ∧ p.1 ≤ last.1) = touching account (numberedPostings s.entries) := by
      unfold touching
      apply List.filter_congr
      intro p hp
      by_cases haccount : p.2.account = account
      · have hmem : p ∈ touching account (numberedPostings s.entries) := by
          refine List.mem_filter.mpr ⟨hp, ?_⟩
          simp [haccount, htouch]
        simp [haccount, htouch, hle p hmem]
      · simp [haccount]
    unfold postedThrough
    dsimp only
    rw [hsame, hbalance]
    simp

/-- A batch does what its entries do one at a time unless an amount overflows on the
way, and in every reachable state each checkpoint is the signed sum of the postings to
its account up to its number. -/
theorem batch_append_refines (hmac : List UInt8 → String) :
    (∀ s es, NoOverflow hmac s es →
      appendBatchWithRetry hmac s es = appendRequestsIndividually hmac s es) ∧
    ∀ s, Reachable hmac s → ∀ account checkpoint, s.checkpoints account = some checkpoint →
      checkpoint.balance.pico = postedThrough s.entries account checkpoint.throughSeq :=
  ⟨fun _ _ hfit => appendBatch_eq_individually hfit,
    fun _ h _ _ hcheckpoint => h.reconciled.balance hcheckpoint⟩

/-- A credit of one unit to a wallet, retried under its dedupe key. -/
def retriedTopup : BillingLedgerEntry where
  id := "topup"
  seq := 0
  prevHash := ""
  entryHash := ""
  eventType := .accountingV2
  movement := some "wallet_topup"
  postings := [⟨"platform:cash", .credit, ⟨1, Credits.one_inRange⟩⟩,
    ⟨"wallet:owner", .debit, ⟨1, Credits.one_inRange⟩⟩]
  ownerId := "owner"
  referenceId := "topup"
  transactionId := none
  layer := none
  metric := none
  serviceSlug := none
  model := none
  quantity := none
  amountCredits := none
  amountMicros := none
  balanceCredits := none
  dedupeKey := some "topup:1"
  walletId := none
  createdAt := 1500000

def emptyStore : LedgerStore := ⟨[], fun _ => none⟩

/-- A batch with a repeated dedupe key stores one entry and one checkpoint. -/
theorem retried_topup_batch :
    NoOverflow (fun _ => "h") emptyStore [retriedTopup, retriedTopup] ∧
      appendBatchWithRetry (fun _ => "h") emptyStore [retriedTopup, retriedTopup] =
        appendRequestsIndividually (fun _ => "h") emptyStore [retriedTopup, retriedTopup] ∧
      ∀ account checkpoint,
        (appendBatchWithRetry (fun _ => "h") emptyStore [retriedTopup]).2.checkpoints account =
          some checkpoint →
        checkpoint.balance.pico = postedThrough
          (appendBatchWithRetry (fun _ => "h") emptyStore [retriedTopup]).2.entries account
          checkpoint.throughSeq := by
  have hcash : isReconciledAccount "platform:cash" = false := by decide
  have hwallet : isReconciledAccount "wallet:owner" = true := by decide
  have hone : creditsOrError (Credits.zero.checkedAdd ⟨1, by decide⟩) = .ok ⟨1, by decide⟩ := rfl
  have hdeltas : ∀ seq prevHash, accountDeltas [linkEntry (fun _ => "h") seq prevHash retriedTopup] =
      .ok ((∅ : Collection String (Credits × ℤ)).insert "wallet:owner" (⟨1, by decide⟩, seq)) := by
    intro seq prevHash
    show ([(seq, ⟨"platform:cash", .credit, ⟨1, by decide⟩⟩),
      (seq, ⟨"wallet:owner", .debit, ⟨1, by decide⟩⟩)] : List (ℤ × BillingPosting)).foldlM addDelta
        ∅ = _
    simp only [List.foldlM_cons, List.foldlM_nil, addDelta, hcash, hwallet, Bool.false_eq_true,
      if_false, if_true, bind, Except.bind, AList.lookup_empty, Option.map_none, Option.getD_none,
      BillingPosting.signedAmount, hone, pure, Except.pure]
  have hlookup : ∀ (account : String) (total : Credits) (n seq : ℤ),
      ((∅ : Collection String (Credits × ℤ)).insert "wallet:owner"
        (⟨1, by decide⟩, n)).lookup account = some (total, seq) →
        account = "wallet:owner" ∧ total = ⟨1, by decide⟩ := by
    intro account total n seq h
    by_cases haccount : account = "wallet:owner"
    · subst haccount
      rw [AList.lookup_insert] at h
      cases h
      exact ⟨rfl, rfl⟩
    · rw [AList.lookup_insert_ne haccount, AList.lookup_empty] at h
      cases h
  have hafter : (appendOneWithRetry (fun _ => "h") emptyStore retriedTopup).2 =
      ⟨[linkEntry (fun _ => "h") 1 genesisPrevHash retriedTopup],
        bulkWrite (fun _ => none) [("wallet:owner", ⟨⟨1, by decide⟩, 1, "h"⟩)]⟩ := rfl
  have hfit : NoOverflow (fun _ => "h") emptyStore [retriedTopup, retriedTopup] := by
    refine ⟨fun place _ => ⟨_, hdeltas _ _, fun account total seq hsome => ?_⟩,
      fun place _ => ⟨_, hdeltas _ _, fun account total seq hsome => ?_⟩, trivial⟩
    · obtain ⟨rfl, rfl⟩ := hlookup _ _ _ _ hsome
      decide
    · obtain ⟨rfl, rfl⟩ := hlookup _ _ _ _ hsome
      rw [hafter]
      decide
  have hreachable : Reachable (fun _ => "h") emptyStore := .start fun _ => rfl
  exact ⟨hfit, (batch_append_refines fun _ => "h").1 _ _ hfit,
    (batch_append_refines fun _ => "h").2 _ (hreachable.batch _)⟩

end NyxId.LedgerChain
