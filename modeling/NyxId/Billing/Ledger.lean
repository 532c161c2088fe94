import NyxId.UsageMeter

/-!
The append-only billing ledger and its account checkpoints. An entry whose
dedupe key is already present is not appended again; an appended entry moves the
checkpoint of every wallet and grant account it posts to.
-/

namespace NyxId.Billing

open Interleave

inductive Account where
  | wallet (owner : Id)
  | grant (grant : Id)
  | usage (row : Id)
  | taxUsage (owner : Id)
  | externalLago
  | platformPromotions
  | writeoffTopupExpired
  | writeoffGrantExpired
  | writeoffGrantRevoked
  deriving DecidableEq

def Account.isReconciled : Account → Bool
  | wallet _ | grant _ => true
  | _ => false

inductive PostingSide where
  | debit
  | credit
  deriving DecidableEq

structure BillingPosting where
  account : Account
  side : PostingSide
  amount : Credits
  deriving DecidableEq

/-- Debits count up and credits count down. -/
def BillingPosting.signed (p : BillingPosting) : ℤ :=
  match p.side with
  | .debit => p.amount.pico
  | .credit => -p.amount.pico

inductive Movement where
  | usageSettled
  | walletAdjusted
  | topupExpired
  | grantIssued
  | grantConsumed
  | grantExpired
  | grantRevoked
  | topupCreated
  | openingBalance
  | walletCredited
  deriving DecidableEq

inductive DedupeKey where
  | usageSettled (row : Id)
  | topupExpired (reference void : Id)
  | walletAdjusted (nonce : ℕ)
  | grantIssued (grant : Id)
  | grantConsumed (grant : Id) (operation : OperationId)
  | grantExpired (grant : Id)
  | grantRevoked (grant : Id)
  deriving DecidableEq

structure BillingLedgerEntry where
  seq : ℕ
  movement : Movement
  ownerId : Id
  referenceId : Id
  dedupeKey : DedupeKey
  postings : List BillingPosting
  deriving DecidableEq

structure AccountBalance where
  balance : Credits
  throughSeq : ℕ
  deriving DecidableEq

structure Ledger where
  /-- Newest first. -/
  entries : List BillingLedgerEntry
  balances : Collection Account AccountBalance

def transfer (debit credit : Account) (amount : Credits) : List BillingPosting :=
  if amount = .zero then []
  else [⟨debit, .debit, amount⟩, ⟨credit, .credit, amount⟩]

def postingTotals (postings : List BillingPosting) : Except AppError (Credits × Credits) :=
  postings.foldlM (fun (totals : Credits × Credits) p =>
    if p.amount.pico ≤ 0 then .error (.internal "invalid v2 posting")
    else match p.side with
      | .debit => do
        let debit ← creditsOrError (totals.1.checkedAdd p.amount)
        return (debit, totals.2)
      | .credit => do
        let credit ← creditsOrError (totals.2.checkedAdd p.amount)
        return (totals.1, credit)) (.zero, .zero)

def validatePostings (entry : BillingLedgerEntry) : Except AppError Unit :=
  if entry.postings = [] ∧
      (entry.movement = .topupCreated ∨ entry.movement = .openingBalance ∨
        entry.movement = .walletCredited) then
    .ok ()
  else do
    let (debit, credit) ← postingTotals entry.postings
    if debit = .zero ∨ debit ≠ credit then .error (.internal "unbalanced v2 transaction")
    else return

/-- The change of every reconciled account that one entry posts to. -/
def postingDeltas (postings : List BillingPosting) :
    Except AppError (Collection Account Credits) :=
  postings.foldlM (fun (deltas : Collection Account Credits) p =>
    if p.account.isReconciled then do
      let previous := (deltas.lookup p.account).getD .zero
      let sum ← creditsOrError (match p.side with
        | .debit => previous.checkedAdd p.amount
        | .credit => previous.checkedSub p.amount)
      return deltas.insert p.account sum
    else return deltas) ∅

def updateCheckpoints (seq : ℕ) (deltas : List (Sigma fun _ : Account => Credits))
    (balances : Collection Account AccountBalance) :
    Except AppError (Collection Account AccountBalance) :=
  deltas.foldlM (fun (balances : Collection Account AccountBalance) delta => do
    let previous := ((balances.lookup delta.1).map (·.balance)).getD .zero
    let balance ← creditsOrError (previous.checkedAdd delta.2)
    return balances.insert delta.1 ⟨balance, seq⟩) balances

namespace Ledger

def nextSeq (l : Ledger) : ℕ :=
  match l.entries with
  | [] => 1
  | tail :: _ => tail.seq + 1

def dedupeExists (l : Ledger) (key : DedupeKey) : Bool :=
  l.entries.any fun e => e.dedupeKey = key

/-- One entry with its checkpoints, in one transaction. -/
def append (l : Ledger) (entry : BillingLedgerEntry) : Except AppError Ledger := do
  validatePostings entry
  if l.dedupeExists entry.dedupeKey then return l
  let deltas ← postingDeltas entry.postings
  let balances ← updateCheckpoints l.nextSeq deltas.entries l.balances
  return { entries := { entry with seq := l.nextSeq } :: l.entries, balances := balances }

/-- The signed postings to one account. -/
def posted (l : Ledger) (account : Account) : ℤ :=
  (l.entries.map fun e =>
    ((e.postings.filter (·.account = account)).map BillingPosting.signed).sum).sum

/-- The newest entry that posts to the account. -/
def latestSeq (l : Ledger) (account : Account) : ℕ :=
  ((l.entries.find? fun e => e.postings.any (·.account = account)).map (·.seq)).getD 0

def checkpoint (l : Ledger) (account : Account) : Credits × ℕ :=
  ((l.balances.lookup account).map fun b => (b.balance, b.throughSeq)).getD (.zero, 0)

end Ledger

/-- What a list of postings adds to one account. -/
def postedTo (account : Account) (postings : List BillingPosting) : ℤ :=
  ((postings.filter (·.account = account)).map BillingPosting.signed).sum

theorem postedTo_cons (account : Account) (p : BillingPosting) (postings : List BillingPosting) :
    postedTo account (p :: postings) =
      (if p.account = account then p.signed else 0) + postedTo account postings := by
  unfold postedTo
  by_cases h : p.account = account <;> simp [h]

private theorem delta_step {p : BillingPosting} {previous sum : Credits}
    (h : creditsOrError (match p.side with
      | .debit => previous.checkedAdd p.amount
      | .credit => previous.checkedSub p.amount) = .ok sum) :
    sum.pico = previous.pico + p.signed := by
  have h := creditsOrError_eq_ok h
  unfold BillingPosting.signed
  cases hs : p.side with
  | debit =>
    rw [hs] at h
    exact (Credits.checkedAdd_eq_some.mp h).symm
  | credit =>
    rw [hs] at h
    have := Credits.checkedSub_eq_some.mp h
    dsimp only
    omega

/-- The deltas of an entry are its postings, account by account. -/
private theorem postingDeltas_from (postings : List BillingPosting)
    (start deltas : Collection Account Credits)
    (h : postings.foldlM (fun (deltas : Collection Account Credits) p =>
      if p.account.isReconciled then do
        let previous := (deltas.lookup p.account).getD .zero
        let sum ← creditsOrError (match p.side with
          | .debit => previous.checkedAdd p.amount
          | .credit => previous.checkedSub p.amount)
        return deltas.insert p.account sum
      else return deltas) start = .ok deltas)
    (account : Account) (ha : account.isReconciled) :
    ((deltas.lookup account).getD .zero).pico =
        ((start.lookup account).getD .zero).pico + postedTo account postings ∧
      ((deltas.lookup account).isSome ↔
        (start.lookup account).isSome ∨ ∃ p ∈ postings, p.account = account) := by
  induction postings generalizing start with
  | nil =>
    cases h
    simp [postedTo]
  | cons p rest ih =>
    rw [List.foldlM_cons] at h
    obtain ⟨next, hnext, hrest⟩ := bind_eq_ok.mp h
    obtain ⟨hsum, hsome⟩ := ih next hrest
    rw [postedTo_cons, hsum, hsome]
    by_cases hp : p.account = account
    · subst hp
      rw [if_pos ha] at hnext
      obtain ⟨sum, hstep, hnext⟩ := bind_eq_ok.mp hnext
      cases hnext
      have hval := delta_step hstep
      simp only [AList.lookup_insert, Option.getD_some, Option.isSome_some, true_or, if_true,
        true_iff]
      refine ⟨by omega, .inr ⟨p, by simp, rfl⟩⟩
    · have hkeep : next.lookup account = start.lookup account := by
        by_cases hr : p.account.isReconciled
        · rw [if_pos hr] at hnext
          obtain ⟨sum, -, hnext⟩ := bind_eq_ok.mp hnext
          cases hnext
          exact AList.lookup_insert_ne (Ne.symm hp)
        · rw [if_neg hr] at hnext
          cases hnext
          rfl
      rw [hkeep, if_neg hp]
      simp [hp]

private theorem updateCheckpoints_from (seq : ℕ) (deltas : List (Sigma fun _ : Account => Credits))
    (hnodup : deltas.NodupKeys) (start balances : Collection Account AccountBalance)
    (h : updateCheckpoints seq deltas start = .ok balances) (account : Account) :
    (deltas.dlookup account = none → balances.lookup account = start.lookup account) ∧
      ∀ c, deltas.dlookup account = some c → ∃ b : Credits,
        balances.lookup account = some ⟨b, seq⟩ ∧
          b.pico =
            (((start.lookup account).map AccountBalance.balance).getD Credits.zero).pico +
              c.pico := by
  induction deltas generalizing start with
  | nil =>
    cases h
    exact ⟨fun _ => rfl, fun c hc => by cases hc⟩
  | cons delta rest ih =>
    obtain ⟨key, amount⟩ := delta
    rw [updateCheckpoints, List.foldlM_cons] at h
    obtain ⟨next, hnext, hrest⟩ := bind_eq_ok.mp h
    obtain ⟨balance, hbalance, hnext⟩ := bind_eq_ok.mp hnext
    cases hnext
    have hkey : rest.dlookup key = none := by
      rw [List.dlookup_eq_none]
      exact (List.nodupKeys_cons.mp hnodup).1
    obtain ⟨hnone, hsome⟩ := ih (List.nodupKeys_cons.mp hnodup).2 _ hrest
    by_cases ha : account = key
    · subst ha
      have hsum := Credits.checkedAdd_eq_some.mp (creditsOrError_eq_ok hbalance)
      refine ⟨fun hc => by simp at hc, fun c hc => ?_⟩
      rw [List.dlookup_cons_eq, Option.some.injEq] at hc
      subst hc
      refine ⟨balance, ?_, hsum.symm⟩
      rw [hnone hkey, AList.lookup_insert]
    · rw [AList.lookup_insert_ne ha] at hnone hsome
      rw [List.dlookup_cons_ne _ _ ha]
      exact ⟨hnone, hsome⟩

namespace Ledger

/-- Every checkpoint is the sum of its account's postings, up to the newest of them. -/
def Checked (l : Ledger) : Prop :=
  ∀ account : Account, account.isReconciled →
    (l.checkpoint account).1.pico = l.posted account ∧
      (l.checkpoint account).2 = l.latestSeq account

/-- An append keeps the entries that are there and adds at most the new one. -/
theorem append_cases {l t : Ledger} {entry : BillingLedgerEntry} (h : l.append entry = .ok t) :
    (t = l ∧ l.dedupeExists entry.dedupeKey) ∨
      (¬ l.dedupeExists entry.dedupeKey ∧
        t.entries = { entry with seq := l.nextSeq } :: l.entries) := by
  obtain ⟨-, -, h⟩ := bind_eq_ok.mp h
  split at h
  · rename_i hdup
    cases h
    exact .inl ⟨rfl, hdup⟩
  · rename_i hdup
    obtain ⟨deltas, -, h⟩ := bind_eq_ok.mp h
    obtain ⟨balances, -, h⟩ := bind_eq_ok.mp h
    cases h
    exact .inr ⟨hdup, rfl⟩

theorem append_posted {l t : Ledger} {entry : BillingLedgerEntry} (h : l.append entry = .ok t)
    (hnew : ¬ l.dedupeExists entry.dedupeKey) (account : Account) :
    t.posted account = l.posted account + postedTo account entry.postings := by
  rcases append_cases h with ⟨-, hdup⟩ | ⟨-, hentries⟩
  · exact absurd hdup hnew
  · simp only [posted, hentries, List.map_cons, List.sum_cons]
    change postedTo account entry.postings + _ = _
    omega

/-- An append moves the checkpoints with the postings. -/
theorem append_checked {l t : Ledger} {entry : BillingLedgerEntry} (h : l.append entry = .ok t)
    (hl : l.Checked) : t.Checked := by
  intro account ha
  by_cases hdup : l.dedupeExists entry.dedupeKey
  · rcases append_cases h with ⟨rfl, -⟩ | ⟨hnew, -⟩
    · exact hl account ha
    · exact absurd hdup hnew
  have hposted := append_posted h hdup account
  obtain ⟨-, -, h⟩ := bind_eq_ok.mp h
  rw [if_neg hdup] at h
  obtain ⟨deltas, hdeltas, h⟩ := bind_eq_ok.mp h
  obtain ⟨balances, hbalances, h⟩ := bind_eq_ok.mp h
  cases h
  obtain ⟨hsum, hsome⟩ := postingDeltas_from entry.postings ∅ deltas hdeltas account ha
  obtain ⟨hnone', hsome'⟩ := updateCheckpoints_from l.nextSeq deltas.entries deltas.nodupKeys
    l.balances balances hbalances account
  obtain ⟨hbal, hseq⟩ := hl account ha
  simp only [AList.lookup_empty, Option.getD_none, Credits.pico_zero, zero_add,
    Option.isSome_none, Bool.false_eq_true, false_or] at hsum hsome
  change _ = _ at hsum
  cases hd : deltas.lookup account with
  | none =>
    have hno : ∀ p ∈ entry.postings, ¬ p.account = account := by
      intro p hp hacc
      have := hsome.mpr ⟨p, hp, hacc⟩
      rw [hd] at this
      cases this
    have hzero : postedTo account entry.postings = 0 := by
      rw [← hsum, hd]
      rfl
    have hlookup := hnone' hd
    constructor
    · rw [hposted, hzero]
      simp only [checkpoint, hlookup] at hbal ⊢
      omega
    · have hfind : latestSeq ⟨{ entry with seq := l.nextSeq } :: l.entries, balances⟩ account =
          l.latestSeq account := by
        unfold latestSeq
        rw [List.find?_cons_of_neg]
        simpa using hno
      rw [hfind, ← hseq]
      simp only [checkpoint, hlookup]
  | some c =>
    obtain ⟨b, hb, hbc⟩ := hsome' c hd
    obtain ⟨p, hp, hacc⟩ := hsome.mp (by rw [hd]; rfl)
    have hc : c.pico = postedTo account entry.postings := by
      rw [← hsum, hd]
      rfl
    constructor
    · rw [hposted, ← hbal, ← hc]
      simp only [checkpoint, hb, Option.map_some, Option.getD_some, hbc]
      cases l.balances.lookup account <;> rfl
    · have hfind : latestSeq ⟨{ entry with seq := l.nextSeq } :: l.entries, balances⟩ account =
          l.nextSeq := by
        unfold latestSeq
        rw [List.find?_cons_of_pos]
        · rfl
        · simp only [List.any_eq_true, decide_eq_true_eq]
          exact ⟨p, hp, hacc⟩
      rw [hfind]
      simp only [checkpoint, hb, Option.map_some, Option.getD_some]

end Ledger

end NyxId.Billing
