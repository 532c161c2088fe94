import NyxId.Billing.TopupExpiry
import NyxId.Waterfall
import Mathlib.Data.List.Sort
import Mathlib.Data.String.Basic

/-!
What of each purchase is left for expiry. The provider's remainders are taken as they are, or
else the oldest purchases are taken as spent; the protected amount is then deducted from the
oldest remainders first.
-/

namespace NyxId.Billing

section Model

variable {ι : Type}

/-- A wallet transaction of the provider, as far as expiry reads it. -/
structure LagoWalletTransaction (ι : Type) where
  id : ι
  status : String
  transactionStatus : String
  transactionType : String
  creditAmount : Credits
  remainingCredit : Option Credits
  settledAt : Option Time
  createdAt : Time

structure ExpiringPurchase (ι : Type) where
  transactionId : ι
  settledAt : Time
  remaining : Credits

def LagoWalletTransaction.isSettledPurchase (transaction : LagoWalletTransaction ι) : Bool :=
  transaction.status = "settled" && transaction.transactionStatus = "purchased" &&
    transaction.transactionType = "inbound" && 0 < transaction.creditAmount.pico

def LagoWalletTransaction.purchasedAt (transaction : LagoWalletTransaction ι) : Time :=
  transaction.settledAt.getD transaction.createdAt

/-- The oldest purchases spend what is consumed. -/
def consume : Credits → List Credits → Except AppError (List Credits)
  | _, [] => .ok []
  | consumed, amount :: rest => do
    let spent := consumed.min amount
    let consumed ← creditsOrError (consumed.checkedSub spent)
    let left ← creditsOrError (amount.checkedSub spent)
    return left :: (← consume consumed rest)

/-- The oldest remainders are held first, until nothing is left to protect. -/
def protect : Credits → List Credits → Except AppError (List Credits)
  | _, [] => .ok []
  | protectedLeft, amount :: rest => do
    let held := protectedLeft.min amount
    let left ← creditsOrError (amount.checkedSub held)
    let protectedLeft ← creditsOrError (protectedLeft.checkedSub held)
    if protectedLeft = .zero then return left :: rest
    else return left :: (← protect protectedLeft rest)

/-- The purchases in first-in first-out order; equal times are ordered by id. -/
def settledPurchases [LinearOrder ι] (transactions : List (LagoWalletTransaction ι)) :
    List (LagoWalletTransaction ι) :=
  (transactions.filter (·.isSettledPurchase)).mergeSort fun left right =>
    left.purchasedAt < right.purchasedAt || (left.purchasedAt = right.purchasedAt && left.id ≤ right.id)

def traceable (purchased : List (LagoWalletTransaction ι)) : Bool :=
  purchased.all (·.remainingCredit.isSome)

/-- What is left of the purchases before anything is protected. -/
def remainders (purchased : List (LagoWalletTransaction ι)) (total walletBalance : Credits) :
    Except AppError (List Credits) :=
  if traceable purchased then
    .ok (purchased.map fun transaction => (transaction.remainingCredit.getD .zero).max .zero)
  else do
    let consumed ← creditsOrError (total.checkedSub (walletBalance.max .zero))
    consume (consumed.max .zero) (purchased.map (·.creditAmount))

def purchasedRemaining [LinearOrder ι] (transactions : List (LagoWalletTransaction ι))
    (walletBalance protectedCredits : Credits) : Except AppError (List (ExpiringPurchase ι)) := do
  let purchased := settledPurchases transactions
  let total ← creditsOrError (Credits.checkedSum (purchased.map (·.creditAmount)))
  let remaining ← remainders purchased total walletBalance
  let remaining ← protect (protectedCredits.max .zero) remaining
  return purchased.zipWith (fun transaction left => ⟨transaction.id, transaction.purchasedAt, left⟩)
    remaining

def purchasedCreditLifetimeMillis : Time := 365 * 24 * 60 * 60 * 1000

/-- Purchases past their lifetime, each rounded down to what the provider can void. -/
def prepareExpiredPurchases (purchases : List (ExpiringPurchase ι)) (now : Time) :
    Except AppError (List (ExpiringPurchase ι)) :=
  let cutoff := now - purchasedCreditLifetimeMillis
  (purchases.filter (·.settledAt ≤ cutoff)).foldlM (fun expired purchase => do
    let residue ← decodeCredits (purchase.remaining.pico.tmod 10000000)
    let remaining ← creditsOrError (purchase.remaining.checkedSub residue)
    if 0 < remaining.pico ∧ expired.length < expiryPurchaseBatch then
      return expired ++ [{ purchase with remaining := remaining }]
    else return expired) []

end Model

/-! ### The passes over the remainders -/

/-- A difference that stays between nothing and the whole is a credit amount. -/
theorem sub_ok {a b : Credits} (hb : 0 ≤ b.pico) (hle : b.pico ≤ a.pico) :
    ∃ c : Credits, creditsOrError (a.checkedSub b) = .ok c ∧ c.pico = a.pico - b.pico := by
  have hrange := a.inRange
  simp only [maxPico] at hrange
  let c : Credits := ⟨a.pico - b.pico, by simp only [maxPico]; omega⟩
  refine ⟨c, ?_, rfl⟩
  have hsub : a.checkedSub b = some c := Credits.checkedSub_eq_some.mpr rfl
  rw [hsub]
  rfl

/-- What one amount pays of a debt, and what is left of both. -/
theorem pay_ok {debt amount : Credits} (hdebt : 0 ≤ debt.pico) (hamount : 0 ≤ amount.pico) :
    ∃ next left : Credits, creditsOrError (debt.checkedSub (debt.min amount)) = .ok next ∧
      creditsOrError (amount.checkedSub (debt.min amount)) = .ok left ∧
      next.pico = debt.pico - min debt.pico amount.pico ∧
      left.pico = amount.pico - min debt.pico amount.pico := by
  rw [← Credits.pico_min]
  have hpaid : 0 ≤ (debt.min amount).pico := by
    rw [Credits.pico_min]
    omega
  obtain ⟨next, hnext, hnextPico⟩ := sub_ok (a := debt) hpaid (by rw [Credits.pico_min]; omega)
  obtain ⟨left, hleft, hleftPico⟩ := sub_ok (a := amount) hpaid (by rw [Credits.pico_min]; omega)
  exact ⟨next, left, hnext, hleft, hnextPico, hleftPico⟩

theorem forall_pico_nonneg {amounts : List Credits} (h : ∀ a ∈ amounts, 0 ≤ a.pico) :
    ∀ x ∈ amounts.map Credits.pico, 0 ≤ x := by
  intro x hx
  obtain ⟨a, ha, rfl⟩ := List.mem_map.mp hx
  exact h a ha

theorem consume_ok (consumed : Credits) {amounts : List Credits} (hconsumed : 0 ≤ consumed.pico)
    (hamounts : ∀ a ∈ amounts, 0 ≤ a.pico) : ∃ left, consume consumed amounts = .ok left ∧
      left.map Credits.pico = Waterfall.settle consumed.pico (amounts.map Credits.pico) := by
  induction amounts generalizing consumed with
  | nil => exact ⟨[], rfl, rfl⟩
  | cons amount rest ih =>
    have hamount : 0 ≤ amount.pico := hamounts amount List.mem_cons_self
    obtain ⟨next, left, hnext, hleft, hnextPico, hleftPico⟩ := pay_ok hconsumed hamount
    obtain ⟨lefts, hlefts, hmap⟩ := ih next (by omega)
      fun a ha => hamounts a (List.mem_cons_of_mem _ ha)
    refine ⟨left :: lefts, ?_, ?_⟩
    · simp [consume, hnext, hleft, hlefts, bind, Except.bind, pure, Except.pure]
    · rw [List.map_cons, List.map_cons, Waterfall.settle_cons, hmap, hnextPico, hleftPico]

/-- The loop may stop when nothing is left to protect: the rest would not change. -/
theorem protect_ok (protectedLeft : Credits) {amounts : List Credits}
    (hprotected : 0 ≤ protectedLeft.pico) (hamounts : ∀ a ∈ amounts, 0 ≤ a.pico) :
    ∃ left, protect protectedLeft amounts = .ok left ∧
      left.map Credits.pico = Waterfall.settle protectedLeft.pico (amounts.map Credits.pico) := by
  induction amounts generalizing protectedLeft with
  | nil => exact ⟨[], rfl, rfl⟩
  | cons amount rest ih =>
    have hamount : 0 ≤ amount.pico := hamounts amount List.mem_cons_self
    have hrest : ∀ a ∈ rest, 0 ≤ a.pico := fun a ha => hamounts a (List.mem_cons_of_mem _ ha)
    obtain ⟨next, left, hnext, hleft, hnextPico, hleftPico⟩ := pay_ok hprotected hamount
    by_cases hzero : next = .zero
    · refine ⟨left :: rest, ?_, ?_⟩
      · simp [protect, hnext, hleft, hzero, bind, Except.bind, pure, Except.pure]
      · rw [hzero, Credits.pico_zero] at hnextPico
        rw [List.map_cons, List.map_cons, Waterfall.settle_cons, ← hnextPico,
          Waterfall.settle_zero (forall_pico_nonneg hrest), hleftPico]
    · obtain ⟨lefts, hlefts, hmap⟩ := ih next (by omega) hrest
      refine ⟨left :: lefts, ?_, ?_⟩
      · simp [protect, hnext, hleft, hzero, hlefts, bind, Except.bind, pure, Except.pure]
      · rw [List.map_cons, List.map_cons, Waterfall.settle_cons, hmap, hnextPico, hleftPico]

/-- Amounts that are not negative have a checked sum exactly while their sum is in range. -/
theorem checkedSum_of_nonneg {values : List Credits} (hvalues : ∀ a ∈ values, 0 ≤ a.pico) :
    Credits.checkedSum values = none ↔ maxPico < (values.map Credits.pico).sum := by
  have hfold : ∀ start : Credits, 0 ≤ start.pico →
      (values.foldlM Credits.checkedAdd start = none ↔
        maxPico < start.pico + (values.map Credits.pico).sum) := by
    induction values with
    | nil =>
      intro start _
      have hrange := start.inRange.2
      simp only [List.foldlM_nil, List.map_nil, List.sum_nil, add_zero]
      exact iff_of_false (by simp) (by omega)
    | cons value rest ih =>
      intro start hstart
      have hvalue : 0 ≤ value.pico := hvalues value List.mem_cons_self
      have hrest : ∀ a ∈ rest, 0 ≤ a.pico := fun a ha => hvalues a (List.mem_cons_of_mem _ ha)
      have hsum : 0 ≤ (rest.map Credits.pico).sum := List.sum_nonneg (forall_pico_nonneg hrest)
      rw [List.foldlM_cons, List.map_cons, List.sum_cons]
      cases hadd : start.checkedAdd value with
      | none =>
        have hout : maxPico < start.pico + value.pico := by
          by_contra hin
          have hsome : start.checkedAdd value =
              some ⟨start.pico + value.pico, by simp only [maxPico] at *; omega⟩ :=
            Credits.checkedAdd_eq_some.mpr rfl
          rw [hsome] at hadd
          cases hadd
        exact iff_of_true rfl (by omega)
      | some next =>
        have hnext := Credits.checkedAdd_eq_some.mp hadd
        have hiff := ih hrest next (by omega)
        rw [Option.bind_eq_bind, Option.bind_some, hiff, ← hnext, add_assoc]
  simpa [Credits.checkedSum] using hfold .zero (by simp)

/-! ### The remainders -/

section Law

variable {ι : Type} [LinearOrder ι]

theorem settledPurchases_positive {transactions : List (LagoWalletTransaction ι)} :
    ∀ t ∈ settledPurchases transactions, 0 < t.creditAmount.pico := by
  intro t ht
  have hfilter := (List.mem_filter.mp (List.mem_mergeSort.mp ht)).2
  unfold LagoWalletTransaction.isSettledPurchase at hfilter
  simp only [Bool.and_eq_true, decide_eq_true_eq] at hfilter
  exact hfilter.2

/-- The amounts of the purchases, the oldest first. -/
def purchasedAmounts (transactions : List (LagoWalletTransaction ι)) : List ℤ :=
  (settledPurchases transactions).map (·.creditAmount.pico)

/-- What was left of the purchases before anything is protected: as the provider has it, or the
balance spread over the newest. -/
def rawRemainders (transactions : List (LagoWalletTransaction ι)) (walletBalance : Credits) :
    List ℤ :=
  if traceable (settledPurchases transactions) then
    (settledPurchases transactions).map fun t => max 0 (t.remainingCredit.getD .zero).pico
  else
    Waterfall.settle (max 0 ((purchasedAmounts transactions).sum - max 0 walletBalance.pico))
      (purchasedAmounts transactions)

variable {transactions : List (LagoWalletTransaction ι)} {walletBalance protectedCredits : Credits}

theorem purchasedAmounts_nonneg : ∀ x ∈ purchasedAmounts transactions, 0 ≤ x := by
  intro x hx
  obtain ⟨t, ht, rfl⟩ := List.mem_map.mp hx
  exact (settledPurchases_positive t ht).le

theorem rawRemainders_nonneg (transactions : List (LagoWalletTransaction ι))
    (walletBalance : Credits) : ∀ x ∈ rawRemainders transactions walletBalance, 0 ≤ x := by
  unfold rawRemainders
  split
  · intro x hx
    obtain ⟨t, -, rfl⟩ := List.mem_map.mp hx
    exact le_max_left _ _
  · exact Waterfall.settle_nonneg (le_max_left _ _) purchasedAmounts_nonneg

/-- Without traceable data the purchases share the balance, up to their total. -/
theorem sum_rawRemainders (h : traceable (settledPurchases transactions) = false) :
    (rawRemainders transactions walletBalance).sum =
      min (purchasedAmounts transactions).sum (max 0 walletBalance.pico) := by
  have hsum : 0 ≤ (purchasedAmounts transactions).sum := List.sum_nonneg purchasedAmounts_nonneg
  unfold rawRemainders
  rw [if_neg (by simp [h]), Waterfall.sum_settle (le_max_left _ _) purchasedAmounts_nonneg]
  omega

theorem checkedSum_amounts : Credits.checkedSum
    ((settledPurchases transactions).map (·.creditAmount)) = none ↔
      maxPico < (purchasedAmounts transactions).sum := by
  have hmap : ((settledPurchases transactions).map (·.creditAmount)).map Credits.pico =
      purchasedAmounts transactions := by
    rw [List.map_map]
    rfl
  rw [checkedSum_of_nonneg, hmap]
  intro a ha
  obtain ⟨t, ht, rfl⟩ := List.mem_map.mp ha
  exact (settledPurchases_positive t ht).le

theorem remainders_ok (walletBalance : Credits) {total : Credits} (htotal : total.pico = (purchasedAmounts transactions).sum) :
    ∃ remaining, remainders (settledPurchases transactions) total walletBalance = .ok remaining ∧
      remaining.map Credits.pico = rawRemainders transactions walletBalance := by
  unfold remainders
  unfold rawRemainders
  by_cases htrace : traceable (settledPurchases transactions) = true
  · refine ⟨_, if_pos htrace, ?_⟩
    rw [if_pos htrace, List.map_map]
    apply List.map_congr_left
    intro t _
    rw [Function.comp_apply, Credits.pico_max, Credits.pico_zero, max_comm]
  · have htotal' : 0 ≤ total.pico := htotal ▸ List.sum_nonneg purchasedAmounts_nonneg
    have hrange := total.inRange
    have hbalance := walletBalance.inRange
    simp only [maxPico] at hrange hbalance
    let consumed : Credits := ⟨total.pico - max 0 walletBalance.pico, by simp only [maxPico]; omega⟩
    have hconsumed : total.checkedSub (walletBalance.max .zero) = some consumed := by
      apply Credits.checkedSub_eq_some.mpr
      rw [Credits.pico_max, Credits.pico_zero, max_comm]
    have hamounts : ∀ a ∈ (settledPurchases transactions).map (·.creditAmount), 0 ≤ a.pico := by
      intro a ha
      obtain ⟨t, ht, rfl⟩ := List.mem_map.mp ha
      exact (settledPurchases_positive t ht).le
    obtain ⟨left, hleft, hmap⟩ := consume_ok (consumed.max .zero)
      (by rw [Credits.pico_max]; exact le_max_right _ _) hamounts
    refine ⟨left, ?_, ?_⟩
    · rw [if_neg htrace, hconsumed]
      exact hleft
    · rw [if_neg htrace, hmap, Credits.pico_max, Credits.pico_zero, max_comm, List.map_map, ← htotal]
      rfl

/-- The purchases in order, with the oldest raw remainders reduced by what is protected. -/
theorem purchasedRemaining_ok (walletBalance protectedCredits : Credits)
    (h : (purchasedAmounts transactions).sum ≤ maxPico) :
    ∃ left : List Credits,
      purchasedRemaining transactions walletBalance protectedCredits =
        .ok ((settledPurchases transactions).zipWith
          (fun t left => ⟨t.id, t.purchasedAt, left⟩) left) ∧
      left.map Credits.pico = Waterfall.settle (max 0 protectedCredits.pico)
        (rawRemainders transactions walletBalance) := by
  obtain ⟨total, hsum⟩ : ∃ total,
      Credits.checkedSum ((settledPurchases transactions).map (·.creditAmount)) = some total := by
    apply Option.ne_none_iff_exists'.mp
    rw [Ne, checkedSum_amounts]
    omega
  have htotal : total.pico = (purchasedAmounts transactions).sum := by
    rw [Credits.checkedSum_eq_some hsum, List.map_map]
    rfl
  obtain ⟨remaining, hremaining, hraw⟩ := remainders_ok walletBalance htotal
  have hnonneg : ∀ a ∈ remaining, 0 ≤ a.pico := by
    intro a ha
    exact rawRemainders_nonneg transactions walletBalance _
      (hraw ▸ List.mem_map_of_mem ha)
  obtain ⟨left, hleft, hmap⟩ := protect_ok (protectedCredits.max .zero)
    (by rw [Credits.pico_max]; exact le_max_right _ _) hnonneg
  refine ⟨left, ?_, ?_⟩
  · unfold purchasedRemaining
    simp only [hsum, creditsOrError, hremaining, hleft, bind, Except.bind]
    rfl
  · rw [hmap, Credits.pico_max, Credits.pico_zero, max_comm, hraw]

theorem purchasedRemaining_error (walletBalance protectedCredits : Credits) :
    (∃ e, purchasedRemaining transactions walletBalance protectedCredits = .error e) ↔
      maxPico < (purchasedAmounts transactions).sum := by
  by_cases hsum : (purchasedAmounts transactions).sum ≤ maxPico
  · obtain ⟨left, hleft, -⟩ := purchasedRemaining_ok walletBalance protectedCredits hsum
    simp [hleft, hsum]
  · have hnone := checkedSum_amounts.mpr (lt_of_not_ge hsum)
    simp [purchasedRemaining, hnone, creditsOrError, bind, Except.bind, lt_of_not_ge hsum]

/-- First-in first-out: each result is what the deduction of the protected amount leaves of its
raw remainder, the oldest deducted first. -/
structure FifoRemainders (transactions : List (LagoWalletTransaction ι))
    (walletBalance protectedCredits : Credits) (result : List (ExpiringPurchase ι)) : Prop where
  inOrder : result.map (fun p => (p.transactionId, p.settledAt)) =
    (settledPurchases transactions).map fun t => (t.id, t.purchasedAt)
  bounds : List.Forall₂ (fun p raw => 0 ≤ p.remaining.pico ∧ p.remaining.pico ≤ raw) result
    (rawRemainders transactions walletBalance)
  total : (result.map (·.remaining.pico)).sum =
    max 0 ((rawRemainders transactions walletBalance).sum - max 0 protectedCredits.pico)
  oldestFirst : (List.zip result (rawRemainders transactions walletBalance)).Pairwise
    fun older newer => newer.1.remaining.pico < newer.2 → older.1.remaining.pico = 0

theorem length_rawRemainders (transactions : List (LagoWalletTransaction ι))
    (walletBalance : Credits) :
    (rawRemainders transactions walletBalance).length = (settledPurchases transactions).length := by
  unfold rawRemainders purchasedAmounts
  split <;> simp

/-- The result lists the purchases in order, and their remainders are the deduction's. -/
theorem purchasedRemaining_parts {result : List (ExpiringPurchase ι)}
    (h : purchasedRemaining transactions walletBalance protectedCredits = .ok result) :
    result.map (fun p => (p.transactionId, p.settledAt)) =
        (settledPurchases transactions).map (fun t => (t.id, t.purchasedAt)) ∧
      result.map (·.remaining.pico) = Waterfall.settle (max 0 protectedCredits.pico)
        (rawRemainders transactions walletBalance) := by
  have hsum : (purchasedAmounts transactions).sum ≤ maxPico := by
    by_contra hlarge
    obtain ⟨e, he⟩ := (purchasedRemaining_error walletBalance protectedCredits).mpr (lt_of_not_ge hlarge)
    rw [h] at he
    cases he
  obtain ⟨left, hleft, hmap⟩ := purchasedRemaining_ok walletBalance protectedCredits hsum
  have hlength : left.length = (settledPurchases transactions).length := by
    rw [← length_rawRemainders transactions walletBalance,
      ← Waterfall.length_settle (max 0 protectedCredits.pico), ← hmap, List.length_map]
  rw [hleft] at h
  cases h
  rw [← List.map_uncurry_zip_eq_zipWith, List.map_map, List.map_map]
  constructor
  · change List.map ((fun t : LagoWalletTransaction ι => (t.id, t.purchasedAt)) ∘ Prod.fst) _ = _
    rw [← List.map_map, List.map_fst_zip hlength.ge]
  · change List.map (Credits.pico ∘ Prod.snd) _ = _
    rw [← List.map_map, List.map_snd_zip hlength.le, hmap]

theorem fifoRemainders {result : List (ExpiringPurchase ι)}
    (h : purchasedRemaining transactions walletBalance protectedCredits = .ok result) :
    FifoRemainders transactions walletBalance protectedCredits result := by
  obtain ⟨hids, hremaining⟩ := purchasedRemaining_parts h
  have hraw := rawRemainders_nonneg transactions walletBalance
  have hprotected : 0 ≤ max 0 protectedCredits.pico := le_max_left _ _
  constructor
  · exact hids
  · have hbounds := Waterfall.settle_bounds hprotected hraw
    rw [← hremaining, List.forall₂_map_left_iff] at hbounds
    exact hbounds
  · rw [hremaining, Waterfall.sum_settle hprotected hraw]
  · have horder := Waterfall.settle_in_order hprotected hraw
    rw [← hremaining, List.zip_map_left, List.pairwise_map] at horder
    exact horder

end Law

/-! ### What expires -/

section Expiry

variable {ι : Type}

/-- A purchase without what the provider cannot void of it. -/
def voidablePart (purchase : ExpiringPurchase ι) : Option (ExpiringPurchase ι) := do
  let residue ← Credits.fromPico (purchase.remaining.pico.tmod 10000000)
  let remaining ← purchase.remaining.checkedSub residue
  if 0 < remaining.pico then return { purchase with remaining := remaining } else none

theorem residue_ok {c : Credits} (hc : 0 ≤ c.pico) : ∃ residue remaining : Credits,
    Credits.fromPico (c.pico.tmod 10000000) = some residue ∧ c.checkedSub residue = some remaining ∧
      0 ≤ remaining.pico ∧ remaining.pico ≤ c.pico := by
  have hrange := c.inRange
  simp only [maxPico] at hrange
  rw [Int.tmod_eq_emod_of_nonneg hc]
  let residue : Credits := ⟨c.pico % 10000000, by simp only [maxPico]; omega⟩
  let remaining : Credits := ⟨c.pico - c.pico % 10000000, by simp only [maxPico]; omega⟩
  have hremaining : remaining.pico = c.pico - c.pico % 10000000 := rfl
  exact ⟨residue, remaining, Credits.fromPico_eq_some.mpr rfl, Credits.checkedSub_eq_some.mpr rfl,
    by omega, by omega⟩

theorem voidablePart_le {purchase part : ExpiringPurchase ι} (hpurchase : 0 ≤ purchase.remaining.pico)
    (h : voidablePart purchase = some part) :
    0 ≤ part.remaining.pico ∧ part.remaining.pico ≤ purchase.remaining.pico := by
  obtain ⟨residue, remaining, hresidue, hremaining, hlow, hhigh⟩ := residue_ok hpurchase
  simp only [voidablePart, hresidue, hremaining, Option.bind_eq_bind, Option.bind_some] at h
  split at h
  · cases h
    exact ⟨hlow, hhigh⟩
  · cases h

/-- The loop collects the voidable parts until the batch is full. -/
theorem prepareExpiredPurchases_ok {purchases : List (ExpiringPurchase ι)} {now : Time}
    (h : ∀ p ∈ purchases, 0 ≤ p.remaining.pico) : prepareExpiredPurchases purchases now =
      .ok (((purchases.filter (·.settledAt ≤ now - purchasedCreditLifetimeMillis)).filterMap
        voidablePart).take expiryPurchaseBatch) := by
  have hpast : ∀ p ∈ purchases.filter (·.settledAt ≤ now - purchasedCreditLifetimeMillis),
      0 ≤ p.remaining.pico := fun p hp => h p (List.mem_of_mem_filter hp)
  unfold prepareExpiredPurchases
  dsimp only
  generalize purchases.filter (·.settledAt ≤ now - purchasedCreditLifetimeMillis) = past at hpast
  have hfold : ∀ start : List (ExpiringPurchase ι), start.length ≤ expiryPurchaseBatch →
      past.foldlM (fun expired purchase => do
        let residue ← decodeCredits (purchase.remaining.pico.tmod 10000000)
        let remaining ← creditsOrError (purchase.remaining.checkedSub residue)
        if 0 < remaining.pico ∧ expired.length < expiryPurchaseBatch then
          return expired ++ [{ purchase with remaining := remaining }]
        else return expired) start =
      (.ok ((start ++ past.filterMap voidablePart).take expiryPurchaseBatch) :
        Except AppError (List (ExpiringPurchase ι))) := by
    induction past with
    | nil =>
      intro start hstart
      simp [List.take_of_length_le hstart, pure, Except.pure]
    | cons purchase rest ih =>
      intro start hstart
      obtain ⟨residue, remaining, hresidue, hremaining, -⟩ :=
        residue_ok (hpast purchase List.mem_cons_self)
      have hrest := ih fun p hp => hpast p (List.mem_cons_of_mem _ hp)
      simp only [List.foldlM_cons, decodeCredits, hresidue, hremaining, creditsOrError, bind,
        Except.bind, pure, Except.pure] at hrest ⊢
      by_cases hpositive : 0 < remaining.pico
      · have hpart : voidablePart purchase = some { purchase with remaining := remaining } := by
          simp [voidablePart, hresidue, hremaining, hpositive]
        rw [List.filterMap_cons_some hpart]
        by_cases hfull : start.length < expiryPurchaseBatch
        · rw [if_pos ⟨hpositive, hfull⟩]
          have hnext := hrest (start ++ [{ purchase with remaining := remaining }])
            (by rw [List.length_append, List.length_singleton]; omega)
          rw [List.append_assoc, List.singleton_append] at hnext
          exact hnext
        · -- the batch is full already
          have hlength : start.length = expiryPurchaseBatch := by omega
          rw [if_neg (fun hif => hfull hif.2), List.take_left' hlength]
          have hnext := hrest start hstart
          rw [List.take_left' hlength] at hnext
          exact hnext
      · have hpart : voidablePart purchase = none := by
          simp [voidablePart, hresidue, hremaining, hpositive]
        rw [if_neg (fun hif => hpositive hif.1), List.filterMap_cons_none hpart]
        exact hrest start hstart
  simpa using hfold [] (Nat.zero_le _)

theorem sum_voidableParts_le {purchases : List (ExpiringPurchase ι)}
    (h : ∀ p ∈ purchases, 0 ≤ p.remaining.pico) :
    ((purchases.filterMap voidablePart).map (·.remaining.pico)).sum ≤
      (purchases.map (·.remaining.pico)).sum := by
  induction purchases with
  | nil => simp
  | cons purchase rest ih =>
    have hpurchase := h purchase List.mem_cons_self
    have hrest := ih fun p hp => h p (List.mem_cons_of_mem _ hp)
    cases hpart : voidablePart purchase with
    | none =>
      rw [List.filterMap_cons_none hpart, List.map_cons, List.sum_cons]
      omega
    | some part =>
      have hle := (voidablePart_le hpurchase hpart).2
      rw [List.filterMap_cons_some hpart, List.map_cons, List.map_cons, List.sum_cons, List.sum_cons]
      omega

/-- Expiry never takes more than the remainders it is given. -/
theorem prepareExpiredPurchases_le {purchases : List (ExpiringPurchase ι)} (now : Time)
    (h : ∀ p ∈ purchases, 0 ≤ p.remaining.pico) : ∃ expired,
      prepareExpiredPurchases purchases now = .ok expired ∧
        (expired.map (·.remaining.pico)).sum ≤ (purchases.map (·.remaining.pico)).sum := by
  refine ⟨_, prepareExpiredPurchases_ok h, ?_⟩
  have hpast : ∀ p ∈ purchases.filter (·.settledAt ≤ now - purchasedCreditLifetimeMillis),
      0 ≤ p.remaining.pico := fun p hp => h p (List.mem_of_mem_filter hp)
  calc _ ≤ (((purchases.filter (·.settledAt ≤ now - purchasedCreditLifetimeMillis)).filterMap
          voidablePart).map (·.remaining.pico)).sum := by
        apply List.Sublist.sum_le_sum ((List.take_sublist _ _).map _)
        intro x hx
        obtain ⟨part, hpart, rfl⟩ := List.mem_map.mp hx
        obtain ⟨purchase, hpurchase, hvoidable⟩ := List.mem_filterMap.mp hpart
        exact (voidablePart_le (hpast purchase hpurchase) hvoidable).1
    _ ≤ ((purchases.filter (·.settledAt ≤ now - purchasedCreditLifetimeMillis)).map
          (·.remaining.pico)).sum := sum_voidableParts_le hpast
    _ ≤ (purchases.map (·.remaining.pico)).sum := by
        apply List.Sublist.sum_le_sum (List.filter_sublist.map _)
        intro x hx
        obtain ⟨purchase, hpurchase, rfl⟩ := List.mem_map.mp hx
        exact h purchase hpurchase

end Expiry

section

variable {ι : Type} [LinearOrder ι]

/-- The remainders are first-in first-out, and what expires is never protected. -/
theorem purchased_remaining_fifo (transactions : List (LagoWalletTransaction ι))
    (walletBalance protectedCredits : Credits) :
    ((∃ e, purchasedRemaining transactions walletBalance protectedCredits = .error e) ↔
      maxPico < (purchasedAmounts transactions).sum) ∧
    (traceable (settledPurchases transactions) = false →
      (rawRemainders transactions walletBalance).sum =
        min (purchasedAmounts transactions).sum (max 0 walletBalance.pico)) ∧
    ∀ result, purchasedRemaining transactions walletBalance protectedCredits = .ok result →
      FifoRemainders transactions walletBalance protectedCredits result ∧
      ∀ now, ∃ expired, prepareExpiredPurchases result now = .ok expired ∧
        (expired.map (·.remaining.pico)).sum ≤
          max 0 ((rawRemainders transactions walletBalance).sum - max 0 protectedCredits.pico) ∧
        (traceable (settledPurchases transactions) = false →
          (expired.map (·.remaining.pico)).sum ≤
            max 0 (walletBalance.pico - max 0 protectedCredits.pico)) := by
  refine ⟨purchasedRemaining_error _ _, sum_rawRemainders, ?_⟩
  intro result h
  have hfifo := fifoRemainders h
  have hnonneg : ∀ p ∈ result, 0 ≤ p.remaining.pico := by
    intro p hp
    obtain ⟨i, hi, rfl⟩ := List.getElem_of_mem hp
    exact (hfifo.bounds.get hi (hfifo.bounds.length_eq ▸ hi)).1
  refine ⟨hfifo, fun now => ?_⟩
  obtain ⟨expired, hexpired, hle⟩ := prepareExpiredPurchases_le now hnonneg
  rw [hfifo.total] at hle
  refine ⟨expired, hexpired, hle, fun htrace => ?_⟩
  rw [sum_rawRemainders htrace] at hle
  omega

end

theorem twenty_inRange : -maxPico ≤ 20000000000000 ∧ 20000000000000 ≤ maxPico := by decide

theorem ten_inRange : -maxPico ≤ 10000000000000 ∧ 10000000000000 ≤ maxPico := by decide

/-- A purchase of twenty credits with ten of them left. -/
def samplePurchase : LagoWalletTransaction String where
  id := "purchase"
  status := "settled"
  transactionStatus := "purchased"
  transactionType := "inbound"
  creditAmount := ⟨20000000000000, twenty_inRange⟩
  remainingCredit := some ⟨10000000000000, ten_inRange⟩
  settledAt := none
  createdAt := 0

theorem settledPurchases_sample : settledPurchases [samplePurchase] = [samplePurchase] := by
  have hfilter : [samplePurchase].filter (·.isSettledPurchase) = [samplePurchase] := rfl
  rw [settledPurchases, hfilter, List.mergeSort_singleton]

theorem rawRemainders_sample :
    rawRemainders [samplePurchase] Credits.zero = [10000000000000] := by
  unfold rawRemainders
  rw [settledPurchases_sample]
  rfl

theorem purchasedRemaining_sample {protectedCredits : Credits} (h : protectedCredits.pico ≤ 0) :
    purchasedRemaining [samplePurchase] .zero protectedCredits =
      .ok [⟨"purchase", 0, ⟨10000000000000, by decide⟩⟩] := by
  have hzero : protectedCredits.max .zero = .zero := by
    apply Credits.ext
    rw [Credits.pico_max, Credits.pico_zero, max_eq_right h]
  unfold purchasedRemaining
  rw [settledPurchases_sample, hzero]
  rfl

/-- A negative protected amount protects nothing, and traceable remainders expire whatever the
local balance is. -/
theorem remainders_beyond_balance :
    (∃ result, purchasedRemaining [samplePurchase] .zero ⟨-1, by decide⟩ = .ok result ∧
      (result.map (·.remaining.pico)).sum ≠
        max 0 ((rawRemainders [samplePurchase] .zero).sum - (-1))) ∧
    ∃ result expired, purchasedRemaining [samplePurchase] .zero .zero = .ok result ∧
      prepareExpiredPurchases result purchasedCreditLifetimeMillis = .ok expired ∧
      max 0 (Credits.zero.pico - Credits.zero.pico) < (expired.map (·.remaining.pico)).sum := by
  constructor
  · refine ⟨_, purchasedRemaining_sample (by decide), ?_⟩
    rw [rawRemainders_sample]
    decide
  · exact ⟨_, _, purchasedRemaining_sample le_rfl, rfl, by decide⟩

def laterPurchase : LagoWalletTransaction String :=
  { samplePurchase with id := "purchase-2", createdAt := 1 }

theorem settledPurchases_two : settledPurchases [samplePurchase, laterPurchase] =
    [samplePurchase, laterPurchase] := by
  have hfilter : [samplePurchase, laterPurchase].filter (·.isSettledPurchase) =
      [samplePurchase, laterPurchase] := rfl
  rw [settledPurchases, hfilter, List.mergeSort_of_pairwise (by decide)]

/-- Fourteen credits are protected, ten of the older purchase and four of the newer one: six are left. -/
theorem six_credits_left : ∃ result,
    purchasedRemaining [samplePurchase, laterPurchase] .zero ⟨14000000000000, by decide⟩ = .ok result ∧
      FifoRemainders [samplePurchase, laterPurchase] .zero ⟨14000000000000, by decide⟩ result ∧
      (result.map (·.remaining.pico)).sum = 6000000000000 := by
  have htotal : (purchasedAmounts [samplePurchase, laterPurchase]).sum ≤ maxPico := by
    rw [purchasedAmounts, settledPurchases_two]
    decide
  obtain ⟨left, hresult, -⟩ := purchasedRemaining_ok .zero ⟨14000000000000, by decide⟩ htotal
  have hfifo := ((purchased_remaining_fifo [samplePurchase, laterPurchase] .zero
    ⟨14000000000000, by decide⟩).2.2 _ hresult).1
  have hraw : rawRemainders [samplePurchase, laterPurchase] .zero = [10000000000000, 10000000000000] := by
    unfold rawRemainders
    rw [settledPurchases_two]
    rfl
  refine ⟨_, hresult, hfifo, ?_⟩
  rw [hfifo.total, hraw]
  decide

end NyxId.Billing
