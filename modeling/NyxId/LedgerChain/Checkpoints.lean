import NyxId.LedgerChain.Model

/-!
What an append does to the checkpoint of one account: it moves by the signed sum of
the postings to the account and stands at the number of the last of them.
-/

namespace NyxId.LedgerChain

open Interleave

/-- The postings to one account that has a checkpoint. -/
def touching (account : String) (postings : List (ℤ × BillingPosting)) :
    List (ℤ × BillingPosting) :=
  postings.filter fun p => isReconciledAccount p.2.account && (p.2.account == account)

def signedSum (postings : List (ℤ × BillingPosting)) : ℤ := (postings.map fun p => p.2.delta).sum

/-- The total of an account moves by its postings. -/
def DeltaMoved (old new : Option (Credits × ℤ)) (postings : List (ℤ × BillingPosting)) : Prop :=
  match postings.getLast? with
  | none => new = old
  | some last => ∃ total, new = some (total, last.1) ∧
      total.pico = old.elim 0 (fun d => d.1.pico) + signedSum postings

/-- The checkpoint of an account moves by its postings and is signed again. -/
def Moved (hmac : List UInt8 → String) (account : String) (old new : Option Checkpoint)
    (postings : List (ℤ × BillingPosting)) : Prop :=
  match postings.getLast? with
  | none => new = old
  | some last => ∃ balance : Credits,
      new = some ⟨balance, last.1, checkpointSignature hmac account last.1 balance⟩ ∧
        balance.pico = old.elim 0 (fun c => c.balance.pico) + signedSum postings

variable {hmac : List UInt8 → String} {account : String}

theorem signedAmount_pico (posting : BillingPosting) :
    posting.signedAmount.pico = posting.delta := by
  unfold BillingPosting.signedAmount BillingPosting.delta
  cases posting.side <;> rfl

theorem touching_append (ps qs : List (ℤ × BillingPosting)) :
    touching account (ps ++ qs) = touching account ps ++ touching account qs :=
  List.filter_append ..

theorem numberedPostings_append (xs ys : List BillingLedgerEntry) :
    numberedPostings (xs ++ ys) = numberedPostings xs ++ numberedPostings ys :=
  List.flatMap_append ..

theorem signedSum_append (ps qs : List (ℤ × BillingPosting)) :
    signedSum (ps ++ qs) = signedSum ps + signedSum qs := by
  simp [signedSum]

theorem DeltaMoved.snoc {old mid new : Option (Credits × ℤ)} {ps : List (ℤ × BillingPosting)}
    {p : ℤ × BillingPosting} {total : Credits} (h : DeltaMoved old mid ps)
    (hnew : new = some (total, p.1))
    (htotal : total.pico = mid.elim 0 (fun d => d.1.pico) + p.2.delta) :
    DeltaMoved old new (ps ++ [p]) := by
  unfold DeltaMoved at h ⊢
  rw [List.getLast?_concat]
  refine ⟨total, hnew, ?_⟩
  rw [htotal, signedSum_append]
  have hlast : signedSum [p] = p.2.delta := by simp [signedSum]
  rw [hlast]
  split at h
  · rename_i hnone
    rw [List.getLast?_eq_none_iff.mp hnone, h]
    simp [signedSum]
  · obtain ⟨total', rfl, htotal'⟩ := h
    simp only [Option.elim_some, htotal']
    omega

/-- Postings move the totals of their own accounts only. -/
theorem foldlM_addDelta {ps : List (ℤ × BillingPosting)}
    {deltas deltas' : Collection String (Credits × ℤ)}
    (h : ps.foldlM addDelta deltas = .ok deltas') (account : String) :
    DeltaMoved (deltas.lookup account) (deltas'.lookup account) (touching account ps) := by
  induction ps using List.reverseRecOn generalizing deltas' with
  | nil =>
    cases h
    rfl
  | append_singleton ps p ih =>
    rw [List.foldlM_append] at h
    obtain ⟨mid, hmid, hlast⟩ := bind_eq_ok.mp h
    have hmoved := ih hmid
    rw [List.foldlM_cons] at hlast
    obtain ⟨next, hnext, hend⟩ := bind_eq_ok.mp hlast
    cases hend
    rw [touching_append]
    unfold addDelta at hnext
    by_cases hreconciled : isReconciledAccount p.2.account = true
    · rw [if_pos hreconciled] at hnext
      obtain ⟨total, htotal, hinsert⟩ := bind_eq_ok.mp hnext
      cases hinsert
      have hsum := Credits.checkedAdd_eq_some.mp (creditsOrError_eq_ok htotal)
      rw [signedAmount_pico] at hsum
      by_cases haccount : p.2.account = account
      · have htouch : touching account [p] = [p] := by
          rw [haccount] at hreconciled
          simp [touching, hreconciled, haccount]
        rw [htouch]
        refine hmoved.snoc (by rw [haccount, AList.lookup_insert]) ?_
        rw [← hsum, haccount]
        cases mid.lookup account <;> rfl
      · have htouch : touching account [p] = [] := by
          simp [touching, haccount]
        rw [htouch, List.append_nil, AList.lookup_insert_ne (Ne.symm haccount)]
        exact hmoved
    · rw [if_neg hreconciled] at hnext
      cases hnext
      have htouch : touching account [p] = [] := by
        simp [touching, hreconciled]
      rw [htouch, List.append_nil]
      exact hmoved

/-- One account's update: its checkpoint is authentic and its balance moves. -/
def Updates (hmac : List UInt8 → String) (checkpoints : String → Option Checkpoint)
    (e : Sigma fun _ : String => Credits × ℤ) (update : String × Checkpoint) : Prop :=
  ∃ previous, previousBalance hmac checkpoints e.1 = .ok previous ∧
    checkpointUpdate hmac e.1 previous e.2.1 e.2.2 = .ok update

theorem checkpointUpdates_eq_ok {checkpoints : String → Option Checkpoint}
    {deltas : Collection String (Credits × ℤ)} {updates : List (String × Checkpoint)} :
    checkpointUpdates hmac checkpoints deltas = .ok updates ↔
      List.Forall₂ (Updates hmac checkpoints) deltas.entries updates := by
  unfold checkpointUpdates
  obtain ⟨accounts, haccounts⟩ : ∃ accounts, accounts = deltas.entries := ⟨_, rfl⟩
  rw [← haccounts]
  constructor
  · intro h
    obtain ⟨previous, hprevious, hupdates⟩ := bind_eq_ok.mp h
    rw [Outcomes.mapM_eq_ok] at hprevious hupdates
    clear h haccounts
    induction hprevious generalizing updates with
    | nil =>
      cases hupdates
      exact .nil
    | cons hfirst _ ih =>
      cases hupdates with
      | cons hupdate hupdates => exact .cons ⟨_, hfirst, hupdate⟩ (ih hupdates)
  · intro h
    clear haccounts
    have hexists : ∃ previous,
        accounts.mapM (fun e => previousBalance hmac checkpoints e.1) = .ok previous ∧
          ((previous.zip accounts).mapM fun e =>
            checkpointUpdate hmac e.2.1 e.1 e.2.2.1 e.2.2.2) = .ok updates := by
      simp only [Outcomes.mapM_eq_ok]
      induction h with
      | nil => exact ⟨[], .nil, .nil⟩
      | cons hfirst _ ih =>
        obtain ⟨previous, hprevious, hupdates⟩ := ih
        obtain ⟨balance, hbalance, hupdate⟩ := hfirst
        exact ⟨balance :: previous, .cons hbalance hprevious, .cons hupdate hupdates⟩
    obtain ⟨previous, hprevious, hupdates⟩ := hexists
    rw [hprevious]
    exact hupdates

theorem checkpointUpdate_eq_ok {previous delta : Credits} {throughSeq : ℤ}
    {update : String × Checkpoint}
    (h : checkpointUpdate hmac account previous delta throughSeq = .ok update) :
    ∃ balance : Credits, previous.pico + delta.pico = balance.pico ∧
      update = (account, ⟨balance, throughSeq,
        checkpointSignature hmac account throughSeq balance⟩) := by
  obtain ⟨balance, hbalance, hend⟩ := bind_eq_ok.mp h
  cases hend
  exact ⟨balance, Credits.checkedAdd_eq_some.mp (creditsOrError_eq_ok hbalance), rfl⟩

/-- Updates of different accounts: each is in place, other accounts are unchanged. -/
theorem bulkWrite_apply {checkpoints : String → Option Checkpoint}
    {accounts : List (Sigma fun _ : String => Credits × ℤ)}
    {updates : List (String × Checkpoint)}
    (h : List.Forall₂ (Updates hmac checkpoints) accounts updates) (hkeys : accounts.NodupKeys)
    (written : String → Option Checkpoint) (account : String) :
    (accounts.dlookup account = none → bulkWrite written updates account = written account) ∧
    ∀ delta, accounts.dlookup account = some delta → ∃ update,
      Updates hmac checkpoints ⟨account, delta⟩ update ∧
        bulkWrite written updates account = some update.2 := by
  induction h generalizing written with
  | nil => exact ⟨fun _ => rfl, fun delta hd => by cases hd⟩
  | @cons e update accounts updates hfirst _ ih =>
    obtain ⟨name, delta⟩ := e
    rw [List.nodupKeys_cons] at hkeys
    have hname : update.1 = name := by
      obtain ⟨previous, -, hupdate⟩ := hfirst
      obtain ⟨balance, -, rfl⟩ := checkpointUpdate_eq_ok hupdate
      rfl
    obtain ⟨hnone, hsome⟩ := ih hkeys.2 (Function.update written update.1 (some update.2))
    change (_ → bulkWrite (Function.update written update.1 (some update.2)) updates account = _) ∧
      ∀ delta, _ → ∃ update', _ ∧
        bulkWrite (Function.update written update.1 (some update.2)) updates account = _
    by_cases haccount : name = account
    · subst haccount
      rw [List.dlookup_cons_eq]
      refine ⟨fun h => (nomatch h), fun d hd => ?_⟩
      cases hd
      refine ⟨update, hfirst, ?_⟩
      rw [hnone (List.dlookup_eq_none.mpr hkeys.1), hname, Function.update_self]
    · rw [List.dlookup_cons_ne _ _ (Ne.symm haccount)]
      refine ⟨fun h => ?_, hsome⟩
      rw [hnone h, hname, Function.update_of_ne (Ne.symm haccount)]

theorem previousBalance_eq_ok {checkpoints : String → Option Checkpoint} {balance : Credits}
    (h : previousBalance hmac checkpoints account = .ok balance) :
    balance = (checkpoints account).elim Credits.zero Checkpoint.balance := by
  unfold previousBalance at h
  cases hold : checkpoints account with
  | none =>
    rw [hold] at h
    cases h
    rfl
  | some c =>
    rw [hold] at h
    unfold authenticatedCheckpoint at h
    dsimp only at h
    split at h
    · cases h
      rfl
    · cases h

/-- The checkpoints after the updates of an append. -/
theorem moved_of_updates {s : LedgerStore} {newEntries : List BillingLedgerEntry}
    {deltas : Collection String (Credits × ℤ)} {updates : List (String × Checkpoint)}
    (hdeltas : accountDeltas newEntries = .ok deltas)
    (hupdates : checkpointUpdates hmac s.checkpoints deltas = .ok updates) (account : String) :
    Moved hmac account (s.checkpoints account) (bulkWrite s.checkpoints updates account)
      (touching account (numberedPostings newEntries)) := by
  have hdelta := foldlM_addDelta hdeltas account
  obtain ⟨hnone, hsome⟩ := bulkWrite_apply (checkpointUpdates_eq_ok.mp hupdates) deltas.nodupKeys
    s.checkpoints account
  unfold DeltaMoved at hdelta
  unfold Moved
  split at hdelta
  · exact hnone hdelta
  · obtain ⟨total, htotal, hsum⟩ := hdelta
    obtain ⟨update, ⟨previous, hprevious, hupdate⟩, hwritten⟩ := hsome _ htotal
    obtain ⟨balance, hbalance, rfl⟩ := checkpointUpdate_eq_ok hupdate
    refine ⟨balance, hwritten, ?_⟩
    rw [← hbalance, previousBalance_eq_ok hprevious, hsum]
    cases s.checkpoints account <;> simp

theorem Moved.unique {old new new' : Option Checkpoint} {ps : List (ℤ × BillingPosting)}
    (h : Moved hmac account old new ps) (h' : Moved hmac account old new' ps) : new = new' := by
  unfold Moved at h h'
  cases hlast : ps.getLast? with
  | none =>
    rw [hlast] at h h'
    exact h.trans h'.symm
  | some last =>
    rw [hlast] at h h'
    obtain ⟨balance, rfl, hbalance⟩ := h
    obtain ⟨balance', rfl, hbalance'⟩ := h'
    have hsame : balance = balance' := Credits.ext (hbalance.trans hbalance'.symm)
    rw [hsame]

theorem Moved.trans {old mid new : Option Checkpoint} {ps qs : List (ℤ × BillingPosting)}
    (h : Moved hmac account old mid ps) (h' : Moved hmac account mid new qs) :
    Moved hmac account old new (ps ++ qs) := by
  unfold Moved at h h' ⊢
  rw [List.getLast?_append, signedSum_append]
  cases hqs : qs.getLast? with
  | none =>
    rw [hqs] at h'
    rw [List.getLast?_eq_none_iff.mp hqs, Option.none_or, h']
    simpa [signedSum] using h
  | some last =>
    rw [hqs] at h'
    obtain ⟨balance, rfl, hbalance⟩ := h'
    rw [Option.some_or]
    refine ⟨balance, rfl, ?_⟩
    rw [hbalance]
    split at h
    · rename_i hps
      rw [h, List.getLast?_eq_none_iff.mp hps]
      simp [signedSum]
    · obtain ⟨balance', rfl, hbalance'⟩ := h
      simp only [Option.elim_some, hbalance']
      omega

end NyxId.LedgerChain
