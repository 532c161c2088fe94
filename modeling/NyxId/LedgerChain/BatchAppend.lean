import NyxId.LedgerChain.Checkpoints

/-!
A batch append refines appends one at a time: same entries, links, dedupe outcomes,
replies and checkpoints, as long as no amount overflows on the way.
-/

namespace NyxId.LedgerChain

open Interleave

variable {hmac : List UInt8 → String}

/-- Appended by itself, the entry overflows neither the totals of its postings nor the
balance of an account. -/
def AmountsFit (hmac : List UInt8 → String) (s : LedgerStore) (entry : BillingLedgerEntry) : Prop :=
  ∀ place, nextPlace s.entries = .ok place →
    ∃ deltas, accountDeltas [linkEntry hmac place.nextSeq place.previousHash entry] = .ok deltas ∧
      ∀ account total seq, deltas.lookup account = some (total, seq) →
        ((s.checkpoints account).elim Credits.zero Checkpoint.balance).checkedAdd total ≠ none

/-- No amount overflows while the entries are appended one at a time. -/
def NoOverflow (hmac : List UInt8 → String) : LedgerStore → List BillingLedgerEntry → Prop
  | _, [] => True
  | s, entry :: entries =>
    AmountsFit hmac s entry ∧ NoOverflow hmac (appendOneWithRetry hmac s entry).2 entries

/-- The parts of a successful append. -/
theorem appendEntries_eq_ok {s s' : LedgerStore} {es saved : List BillingLedgerEntry} :
    appendEntries hmac s es = .ok (saved, s') ↔
      es.forM validatePostings = .ok () ∧ ∃ start plan entries deltas updates,
        nextPlace s.entries = .ok start ∧
        es.foldlM (planEntry hmac s.entries) start = .ok plan ∧
        storeNew s.entries plan.newEntries = .ok entries ∧
        accountDeltas plan.newEntries = .ok deltas ∧
        checkpointUpdates hmac s.checkpoints deltas = .ok updates ∧
        saved = plan.saved ∧ s' = ⟨entries, bulkWrite s.checkpoints updates⟩ := by
  constructor
  · intro h
    obtain ⟨_, hvalid, h⟩ := bind_eq_ok.mp h
    obtain ⟨start, hstart, h⟩ := bind_eq_ok.mp h
    obtain ⟨plan, hplan, h⟩ := bind_eq_ok.mp h
    obtain ⟨entries, hentries, h⟩ := bind_eq_ok.mp h
    obtain ⟨deltas, hdeltas, h⟩ := bind_eq_ok.mp h
    obtain ⟨updates, hupdates, h⟩ := bind_eq_ok.mp h
    cases h
    exact ⟨hvalid, start, plan, entries, deltas, updates, hstart, hplan, hentries, hdeltas,
      hupdates, rfl, rfl⟩
  · rintro ⟨hvalid, start, plan, entries, deltas, updates, hstart, hplan, hentries, hdeltas,
      hupdates, rfl, rfl⟩
    unfold appendEntries
    simp only [hvalid, hstart, hplan, hentries, hdeltas, hupdates, bind, Except.bind]
    rfl

theorem storeNew_eq_ok {stored new entries : List BillingLedgerEntry}
    (h : storeNew stored new = .ok entries) : entries = stored ++ new := by
  unfold storeNew insertMany at h
  split at h
  · rename_i hempty
    rw [List.isEmpty_iff.mp hempty, List.append_nil]
    exact (Except.ok.inj h).symm
  · split at h
    · exact (Except.ok.inj h).symm
    · cases h

/-- What can be stored after entries can be stored after them one by one. -/
theorem storeNew_step {stored new rest : List BillingLedgerEntry} {entry : BillingLedgerEntry}
    {entries : List BillingLedgerEntry}
    (h : storeNew stored (new ++ entry :: rest) = .ok entries) :
    storeNew (stored ++ new) [entry] = .ok (stored ++ new ++ [entry]) := by
  unfold storeNew insertMany at h ⊢
  rw [if_neg (by simp)] at h
  rw [if_neg (by simp)]
  split at h
  · rename_i hunique
    obtain ⟨hid, hseq, hkey⟩ := hunique
    have hsub : (stored ++ new ++ [entry]).Sublist (stored ++ (new ++ entry :: rest)) := by
      rw [List.append_assoc]
      exact ((List.singleton_sublist.mpr List.mem_cons_self).append_left new).append_left stored
    rw [if_pos ⟨hid.sublist (hsub.map _), hseq.sublist (hsub.map _),
      hkey.sublist (hsub.filterMap _)⟩]
  · cases h

theorem withDedupeKey_append (xs ys : List BillingLedgerEntry) (key : String) :
    withDedupeKey (xs ++ ys) key = (withDedupeKey ys key).or (withDedupeKey xs key) := by
  unfold withDedupeKey
  rw [List.filter_append, List.getLast?_append]

theorem withDedupeKey_eq_none {entries : List BillingLedgerEntry} {key : String}
    (h : ∀ e ∈ entries, e.dedupeKey ≠ some key) : withDedupeKey entries key = none := by
  unfold withDedupeKey
  rw [List.getLast?_eq_none_iff, List.filter_eq_nil_iff]
  intro e he
  simpa using h e he

/-- The tail after an entry at the next place is that entry. -/
theorem nextPlace_append {entries : List BillingLedgerEntry} {place : AppendPlan}
    {entry : BillingLedgerEntry} {nextSeq : ℤ} (h : nextPlace entries = .ok place)
    (hseq : entry.seq = place.nextSeq) (hnext : checkedI64 (entry.seq + 1) = some nextSeq) :
    nextPlace (entries ++ [entry]) = .ok ⟨nextSeq, entry.entryHash, [], []⟩ := by
  have htail : readTail (entries ++ [entry]) = some entry := by
    unfold nextPlace at h
    cases htail : readTail entries with
    | none =>
      unfold readTail at htail ⊢
      rw [newest_eq_none htail]
      rfl
    | some tail =>
      rw [htail] at h
      obtain ⟨next, hplace, hend⟩ := bind_eq_ok.mp h
      cases hend
      have hlt := (checkedI64_eq_some.mp (creditsOrError_eq_ok hplace)).1
      unfold readTail at htail ⊢
      rw [newest_concat, htail]
      dsimp only at hseq ⊢
      rw [if_pos (by omega)]
  unfold nextPlace
  rw [htail]
  dsimp only
  rw [hnext]
  rfl

theorem nextPlace_fresh {entries : List BillingLedgerEntry} {place : AppendPlan}
    (h : nextPlace entries = .ok place) : place.saved = [] ∧ place.newEntries = [] := by
  unfold nextPlace at h
  split at h
  · cases h
    exact ⟨rfl, rfl⟩
  · obtain ⟨next, -, hend⟩ := bind_eq_ok.mp h
    cases hend
    exact ⟨rfl, rfl⟩

/-- A store to which the new entries of a plan have been appended one at a time. -/
structure Follows (hmac : List UInt8 → String) (s : LedgerStore) (plan : AppendPlan)
    (t : LedgerStore) : Prop where
  entries : t.entries = s.entries ++ plan.newEntries
  place : nextPlace t.entries = .ok ⟨plan.nextSeq, plan.previousHash, [], []⟩
  fresh : ∀ entry ∈ plan.newEntries, ∀ key, entry.dedupeKey = some key →
    withDedupeKey s.entries key = none
  moved : ∀ account, Moved hmac account (s.checkpoints account) (t.checkpoints account)
    (touching account (numberedPostings plan.newEntries))

theorem follows_start {s : LedgerStore} {start : AppendPlan}
    (h : nextPlace s.entries = .ok start) : Follows hmac s start s := by
  obtain ⟨hsaved, hnew⟩ := nextPlace_fresh h
  obtain ⟨nextSeq, previousHash, saved, newEntries⟩ := start
  obtain rfl : saved = [] := hsaved
  obtain rfl : newEntries = [] := hnew
  exact ⟨(List.append_nil _).symm, h, fun entry hentry => (nomatch hentry), fun account => rfl⟩

/-- The two ways in which the loop treats an entry: the entry under its dedupe key
answers it, or it is linked and new. -/
theorem planEntry_cases {stored : List BillingLedgerEntry} {plan plan' : AppendPlan}
    {entry : BillingLedgerEntry} (h : planEntry hmac stored plan entry = .ok plan') :
    (∃ key found, entry.dedupeKey = some key ∧
      (withDedupeKey stored key = some found ∨
        withDedupeKey stored key = none ∧ withDedupeKey plan.newEntries key = some found) ∧
      plan' = { plan with saved := plan.saved ++ [found] }) ∨
    ((∀ key, entry.dedupeKey = some key →
        withDedupeKey stored key = none ∧ withDedupeKey plan.newEntries key = none) ∧
      validatePostings entry = .ok () ∧ ∃ nextSeq, checkedI64 (plan.nextSeq + 1) = some nextSeq ∧
        plan' = ⟨nextSeq, (linkEntry hmac plan.nextSeq plan.previousHash entry).entryHash,
          plan.saved ++ [linkEntry hmac plan.nextSeq plan.previousHash entry],
          plan.newEntries ++ [linkEntry hmac plan.nextSeq plan.previousHash entry]⟩) := by
  unfold planEntry at h
  cases hkey : entry.dedupeKey with
  | none =>
    simp only [hkey, Option.bind_none] at h
    obtain ⟨_, hvalid, h⟩ := bind_eq_ok.mp h
    obtain ⟨nextSeq, hnext, h⟩ := bind_eq_ok.mp h
    cases h
    exact .inr ⟨fun key h => (nomatch h), hvalid, nextSeq, creditsOrError_eq_ok hnext, rfl⟩
  | some key =>
    simp only [hkey, Option.bind_some] at h
    cases hstored : withDedupeKey stored key with
    | some found =>
      rw [hstored] at h
      cases h
      exact .inl ⟨key, found, rfl, .inl hstored, rfl⟩
    | none =>
      rw [hstored] at h
      dsimp only at h
      cases hinserted : withDedupeKey plan.newEntries key with
      | some found =>
        rw [hinserted] at h
        cases h
        exact .inl ⟨key, found, rfl, .inr ⟨hstored, hinserted⟩, rfl⟩
      | none =>
        rw [hinserted] at h
        obtain ⟨_, hvalid, h⟩ := bind_eq_ok.mp h
        obtain ⟨nextSeq, hnext, h⟩ := bind_eq_ok.mp h
        cases h
        refine .inr ⟨fun other hother => ?_, hvalid, nextSeq, creditsOrError_eq_ok hnext, rfl⟩
        cases hother
        exact ⟨hstored, hinserted⟩

/-- Whatever the loop does, its new entries stay. -/
theorem foldlM_planEntry_new {stored es : List BillingLedgerEntry} {plan plan' : AppendPlan}
    (h : es.foldlM (planEntry hmac stored) plan = .ok plan') :
    ∃ rest, plan'.newEntries = plan.newEntries ++ rest := by
  induction es generalizing plan with
  | nil =>
    cases h
    exact ⟨[], (List.append_nil _).symm⟩
  | cons entry es ih =>
    rw [List.foldlM_cons] at h
    obtain ⟨mid, hmid, h⟩ := bind_eq_ok.mp h
    obtain ⟨rest, hrest⟩ := ih h
    rcases planEntry_cases hmid with ⟨key, found, -, -, rfl⟩ | ⟨-, -, nextSeq, -, rfl⟩
    · exact ⟨rest, hrest⟩
    · exact ⟨_, hrest.trans (List.append_assoc _ _ _)⟩

/-- The checkpoint of an account stays authentic under its moves. -/
theorem previousBalance_moved {old new : String → Option Checkpoint} {account : String}
    {ps : List (ℤ × BillingPosting)} {balance : Credits}
    (hold : previousBalance hmac old account = .ok balance)
    (hmoved : Moved hmac account (old account) (new account) ps) :
    previousBalance hmac new account =
      .ok ((new account).elim Credits.zero Checkpoint.balance) := by
  unfold Moved at hmoved
  split at hmoved
  · have hsame : previousBalance hmac new account = previousBalance hmac old account := by
      unfold previousBalance
      rw [hmoved]
    rw [hsame, hold, hmoved, previousBalance_eq_ok hold]
  · obtain ⟨balance', hnew, -⟩ := hmoved
    unfold previousBalance
    rw [hnew]
    dsimp only
    unfold authenticatedCheckpoint
    rw [if_pos rfl]
    rfl

theorem exists_forall₂ {α β : Type} {r : α → β → Prop} {xs : List α}
    (h : ∀ x ∈ xs, ∃ y, r x y) : ∃ ys, List.Forall₂ r xs ys := by
  induction xs with
  | nil => exact ⟨[], .nil⟩
  | cons x xs ih =>
    obtain ⟨y, hy⟩ := h x List.mem_cons_self
    obtain ⟨ys, hys⟩ := ih fun x' hx' => h x' (List.mem_cons_of_mem x hx')
    exact ⟨y :: ys, .cons hy hys⟩

/-- Authentic accounts whose balances do not overflow can be updated. -/
theorem checkpointUpdates_exists {checkpoints : String → Option Checkpoint}
    {newEntries : List BillingLedgerEntry} {deltas : Collection String (Credits × ℤ)}
    (hdeltas : accountDeltas newEntries = .ok deltas)
    (hauthentic : ∀ account, touching account (numberedPostings newEntries) ≠ [] →
      previousBalance hmac checkpoints account =
        .ok ((checkpoints account).elim Credits.zero Checkpoint.balance))
    (hfits : ∀ account total seq, deltas.lookup account = some (total, seq) →
      ((checkpoints account).elim Credits.zero Checkpoint.balance).checkedAdd total ≠ none) :
    ∃ updates, checkpointUpdates hmac checkpoints deltas = .ok updates := by
  simp only [checkpointUpdates_eq_ok]
  apply exists_forall₂
  rintro ⟨account, total, seq⟩ hmem
  have hlookup : deltas.lookup account = some (total, seq) := AList.mem_lookup_iff.mpr hmem
  have htouched : touching account (numberedPostings newEntries) ≠ [] := by
    intro hnil
    have hmoved := foldlM_addDelta hdeltas account
    rw [hnil, hlookup] at hmoved
    cases hmoved
  obtain ⟨balance, hbalance⟩ := Option.ne_none_iff_exists'.mp (hfits account total seq hlookup)
  refine ⟨(account, ⟨balance, seq, checkpointSignature hmac account seq balance⟩), _,
    hauthentic account htouched, ?_⟩
  unfold checkpointUpdate
  rw [hbalance]
  rfl

/-- One entry of a batch that can be appended is appended by itself in the same way. -/
theorem follows_step {s t : LedgerStore} {plan plan' : AppendPlan} {entry : BillingLedgerEntry}
    {rest entries : List BillingLedgerEntry} (hfollows : Follows hmac s plan t)
    (hplan : planEntry hmac s.entries plan entry = .ok plan')
    (hvalid : validatePostings entry = .ok ())
    (hstore : storeNew s.entries (plan'.newEntries ++ rest) = .ok entries)
    (hauthentic : ∀ account, touching account (numberedPostings plan'.newEntries) ≠ [] →
      ∃ balance, previousBalance hmac s.checkpoints account = .ok balance)
    (hfit : AmountsFit hmac t entry) :
    ∃ reply t', appendOneWithRetry hmac t entry = (.ok reply, t') ∧ Follows hmac s plan' t' ∧
      plan'.saved = plan.saved ++ [reply] := by
  have hvalid' : [entry].forM validatePostings = .ok () := by
    show (validatePostings entry >>= fun _ => pure PUnit.unit) = .ok ()
    rw [hvalid]
    rfl
  have hfresh : ∀ key, withDedupeKey s.entries key ≠ none →
      withDedupeKey plan.newEntries key = none := by
    intro key hstored
    refine withDedupeKey_eq_none fun e he hkey => hstored (hfollows.fresh e he key hkey)
  rcases planEntry_cases hplan with ⟨key, found, hkey, hfound, rfl⟩ |
    ⟨hnew, -, nextSeq, hnext, rfl⟩
  · -- The entry is answered by an entry that the other store has as well.
    have hfound' : withDedupeKey t.entries key = some found := by
      rw [hfollows.entries, withDedupeKey_append]
      rcases hfound with hstored | ⟨hstored, hinserted⟩
      · rw [hfresh key (by simp [hstored]), hstored, Option.none_or]
      · rw [hinserted, Option.some_or]
    have happend : appendEntries hmac t [entry] = .ok ([found], t) := by
      rw [appendEntries_eq_ok]
      refine ⟨hvalid', _, ⟨plan.nextSeq, plan.previousHash, [found], []⟩, t.entries, ∅, [],
        hfollows.place, ?_, rfl, rfl, rfl, rfl, rfl⟩
      rw [List.foldlM_cons]
      unfold planEntry
      rw [hkey, Option.bind_some, hfound']
      rfl
    refine ⟨found, t, ?_, ⟨hfollows.entries, hfollows.place, hfollows.fresh, hfollows.moved⟩, rfl⟩
    unfold appendOneWithRetry
    rw [happend]
    rfl
  · -- The entry is new in both stores and gets the same place.
    obtain ⟨linked, hlinked⟩ : ∃ linked,
        linked = linkEntry hmac plan.nextSeq plan.previousHash entry := ⟨_, rfl⟩
    rw [← hlinked] at hstore hauthentic ⊢
    have hnone : entry.dedupeKey.bind (withDedupeKey t.entries) = none := by
      cases hkey : entry.dedupeKey with
      | none => rfl
      | some key =>
        obtain ⟨hstored, hinserted⟩ := hnew key hkey
        rw [Option.bind_some, hfollows.entries, withDedupeKey_append, hstored, hinserted]
        rfl
    obtain ⟨deltas, hdeltas, hfits⟩ := hfit _ hfollows.place
    dsimp only at hdeltas
    rw [← hlinked] at hdeltas
    obtain ⟨updates, hupdates⟩ := checkpointUpdates_exists hdeltas
      (fun account htouched => by
        obtain ⟨balance, hbalance⟩ := hauthentic account (by
          rw [numberedPostings_append, touching_append]
          exact fun hnil => htouched (List.append_eq_nil_iff.mp hnil).2)
        exact previousBalance_moved hbalance (hfollows.moved account)) hfits
    have hstored := storeNew_step (by rwa [List.append_assoc] at hstore)
    rw [← hfollows.entries] at hstored
    have happend : appendEntries hmac t [entry] =
        .ok ([linked], ⟨t.entries ++ [linked], bulkWrite t.checkpoints updates⟩) := by
      rw [appendEntries_eq_ok]
      refine ⟨hvalid', _, ⟨nextSeq, linked.entryHash, [linked], [linked]⟩, _, deltas, updates,
        hfollows.place, ?_, hstored, hdeltas, hupdates, rfl, rfl⟩
      rw [List.foldlM_cons]
      unfold planEntry
      rw [hnone]
      have hnil : entry.dedupeKey.bind (withDedupeKey []) = none := by
        cases entry.dedupeKey <;> rfl
      simp only [hnil, hvalid, hnext, bind, Except.bind, creditsOrError, ← hlinked]
      rfl
    refine ⟨linked, ⟨t.entries ++ [linked], bulkWrite t.checkpoints updates⟩, ?_,
      ⟨?_, ?_, ?_, ?_⟩, rfl⟩
    · unfold appendOneWithRetry
      rw [happend]
      rfl
    · rw [hfollows.entries, List.append_assoc]
    · refine nextPlace_append hfollows.place ?_ ?_
      · rw [hlinked]
        rfl
      · rw [hlinked]
        exact hnext
    · intro e he key hkey
      rcases List.mem_append.mp he with he | he
      · exact hfollows.fresh e he key hkey
      · rw [List.mem_singleton.mp he, hlinked] at hkey
        exact (hnew key hkey).1
    · intro account
      rw [numberedPostings_append, touching_append]
      exact (hfollows.moved account).trans (moved_of_updates hdeltas hupdates account)

/-- Entries of a batch that can be appended are appended one at a time in the same way. -/
theorem follows_run {s t : LedgerStore} {plan plan' : AppendPlan}
    {es entries : List BillingLedgerEntry} (hfollows : Follows hmac s plan t)
    (hplan : es.foldlM (planEntry hmac s.entries) plan = .ok plan')
    (hvalid : ∀ entry ∈ es, validatePostings entry = .ok ())
    (hstore : storeNew s.entries plan'.newEntries = .ok entries)
    (hauthentic : ∀ account, touching account (numberedPostings plan'.newEntries) ≠ [] →
      ∃ balance, previousBalance hmac s.checkpoints account = .ok balance)
    (hfit : NoOverflow hmac t es) :
    ∃ replies t', appendRequestsIndividually hmac t es = (replies.map .ok, t') ∧
      Follows hmac s plan' t' ∧ plan'.saved = plan.saved ++ replies := by
  induction es generalizing plan t with
  | nil =>
    cases hplan
    exact ⟨[], t, rfl, hfollows, (List.append_nil _).symm⟩
  | cons entry es ih =>
    rw [List.foldlM_cons] at hplan
    obtain ⟨mid, hmid, hplan⟩ := bind_eq_ok.mp hplan
    obtain ⟨rest, hrest⟩ := foldlM_planEntry_new hplan
    obtain ⟨hfirst, hfit⟩ := hfit
    have hauthentic' : ∀ account, touching account (numberedPostings mid.newEntries) ≠ [] →
        ∃ balance, previousBalance hmac s.checkpoints account = .ok balance := by
      intro account htouched
      refine hauthentic account ?_
      rw [hrest, numberedPostings_append, touching_append]
      exact fun hnil => htouched (List.append_eq_nil_iff.mp hnil).1
    obtain ⟨reply, t', hone, hfollows', hsaved⟩ := follows_step hfollows hmid
      (hvalid entry List.mem_cons_self) (hrest ▸ hstore) hauthentic' hfirst
    rw [hone] at hfit
    obtain ⟨replies, t'', hmany, hfollows'', hsaved'⟩ := ih hfollows' hplan
      (fun e he => hvalid e (List.mem_cons_of_mem entry he)) hfit
    refine ⟨reply :: replies, t'', ?_, hfollows'', ?_⟩
    · unfold appendRequestsIndividually
      rw [hone]
      dsimp only
      rw [hmany]
      rfl
    · rw [hsaved', hsaved, List.append_assoc]
      rfl

theorem forM_validatePostings {es : List BillingLedgerEntry}
    (h : es.forM validatePostings = .ok ()) : ∀ entry ∈ es, validatePostings entry = .ok () := by
  induction es with
  | nil => exact fun entry hentry => (nomatch hentry)
  | cons first es ih =>
    obtain ⟨_, hfirst, hrest⟩ := bind_eq_ok.mp h
    intro entry hentry
    rcases List.mem_cons.mp hentry with rfl | hentry
    · exact hfirst
    · exact ih hrest entry hentry

/-- The accounts that a successful append moves had authentic checkpoints. -/
theorem authentic_of_updates {s : LedgerStore} {newEntries : List BillingLedgerEntry}
    {deltas : Collection String (Credits × ℤ)} {updates : List (String × Checkpoint)}
    (hdeltas : accountDeltas newEntries = .ok deltas)
    (hupdates : checkpointUpdates hmac s.checkpoints deltas = .ok updates) (account : String)
    (htouched : touching account (numberedPostings newEntries) ≠ []) :
    ∃ balance, previousBalance hmac s.checkpoints account = .ok balance := by
  have hmoved := foldlM_addDelta hdeltas account
  obtain ⟨last, hlast⟩ := Option.ne_none_iff_exists'.mp
    (fun hnone => htouched (List.getLast?_eq_none_iff.mp hnone))
  unfold DeltaMoved at hmoved
  rw [hlast] at hmoved
  obtain ⟨total, htotal, -⟩ := hmoved
  obtain ⟨update, ⟨balance, hbalance, -⟩, -⟩ := (bulkWrite_apply
    (checkpointUpdates_eq_ok.mp hupdates) deltas.nodupKeys s.checkpoints account).2 _ htotal
  exact ⟨balance, hbalance⟩

/-- A batch that commits does what its entries do one at a time. -/
theorem batch_refines {s s' : LedgerStore} {es saved : List BillingLedgerEntry}
    (h : appendEntries hmac s es = .ok (saved, s')) (hfit : NoOverflow hmac s es) :
    appendRequestsIndividually hmac s es = (saved.map .ok, s') := by
  obtain ⟨hvalid, start, plan, entries, deltas, updates, hstart, hplan, hentries, hdeltas,
    hupdates, rfl, rfl⟩ := appendEntries_eq_ok.mp h
  obtain ⟨replies, t, hmany, hfollows, hsaved⟩ := follows_run (follows_start hstart) hplan
    (forM_validatePostings hvalid) hentries (authentic_of_updates hdeltas hupdates) hfit
  rw [(nextPlace_fresh hstart).1, List.nil_append] at hsaved
  have hcheckpoints : t.checkpoints = bulkWrite s.checkpoints updates := by
    funext account
    exact (hfollows.moved account).unique (moved_of_updates hdeltas hupdates account)
  rw [hmany, hsaved, ← hcheckpoints, storeNew_eq_ok hentries, ← hfollows.entries]

/-- Appending entries as a batch answers every request and leaves the store as
appending them one at a time does. -/
theorem appendBatch_eq_individually {s : LedgerStore} {es : List BillingLedgerEntry}
    (hfit : NoOverflow hmac s es) :
    appendBatchWithRetry hmac s es = appendRequestsIndividually hmac s es := by
  unfold appendBatchWithRetry
  cases h : appendEntries hmac s es with
  | ok result =>
    obtain ⟨saved, s'⟩ := result
    exact (batch_refines h hfit).symm
  | error e =>
    dsimp only
    split
    · rfl
    · -- Fewer than two requests: the only one gets the error of its own append.
      rename_i hfew
      cases es with
      | nil => rfl
      | cons entry rest =>
        obtain rfl : rest = [] := by
          rw [List.length_cons] at hfew
          exact List.length_eq_zero_iff.mp (by omega)
        simp only [appendRequestsIndividually, appendOneWithRetry, h, List.map_cons, List.map_nil]

end NyxId.LedgerChain
