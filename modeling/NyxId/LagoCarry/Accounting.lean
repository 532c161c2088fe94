import NyxId.LagoCarry.Model

/-!
The carry invariant over all interleavings of settlement attempts. Each carry
document holds the totals of the rows committed under its key, so the emitted
micro-units of a cohort are the floor of its wallet total.
-/

namespace NyxId.LagoCarry

open Interleave Machine

/-- The wallet charge a settled row contributed to a carry document. -/
def walletTerm (key : String) (_ : Id) (row : UsageMeterRow) : ℤ :=
  if row.settled ∧ row.fundingD.lagoCarryId = some key then
    (row.fundingD.walletFunded.getD .zero).pico
  else 0

/-- The micro-units a settled row emitted under a carry document. -/
def emittedTerm (key : String) (_ : Id) (row : UsageMeterRow) : ℤ :=
  if row.settled ∧ row.fundingD.lagoCarryId = some key then
    row.fundingD.lagoBillableQuantityMicros.getD 0
  else 0

/-- A settled row either touched no carry or names the carry of its own rate. -/
structure RowOk (digest : Digest) (row : UsageMeterRow) : Prop where
  unclaimed : row.claim = none
  emitted_nonneg : 0 ≤ row.fundingD.lagoBillableQuantityMicros.getD 0
  carried :
    (row.fundingD.lagoCarryId = none ∧ row.fundingD.walletFunded = some .zero ∧
      row.fundingD.lagoBillableQuantityMicros = some 0) ∨
    ∃ rate, row.fundingD.settlementRate = some rate ∧
      row.fundingD.lagoCarryId = some (carryKey digest row rate)

/-- A row committed under the key at the rate. -/
structure Member (digest : Digest) (key : String) (rate : Credits) (row : UsageMeterRow) :
    Prop where
  settled : row.settled
  rate_eq : row.fundingD.settlementRate = some rate
  key_eq : carryKey digest row rate = key

structure CarryOk (digest : Digest) (rows : Collection Id UsageMeterRow) (key : String)
    (carry : Option BillingLagoCarry) : Prop where
  wallet_sum : Collection.sumOf (walletTerm key) rows = (previousTotal carry).pico
  emitted_sum : Collection.sumOf (emittedTerm key) rows = previousEmitted carry
  cumulative : ∀ c, carry = some c →
    Cumulative c.walletTotal c.rate c.emittedQuantityMicros c.remainderNumerator
  member : ∀ c, carry = some c →
    ∃ id row, rows.lookup id = some row ∧ Member digest key c.rate row

structure Inv (digest : Digest) (s : Store) : Prop where
  rows : ∀ id row, s.rows.lookup id = some row → row.settled → RowOk digest row
  carries : ∀ key, CarryOk digest s.rows key (s.carries.lookup key)

/-- The parts of a claimed row that only its claim holder changes. -/
structure SameClaim (w : ℕ) (row row' : UsageMeterRow) : Prop where
  claim : row.claim = some w
  rate : row'.fundingD.settlementRate = row.fundingD.settlementRate
  owner : row'.billingOwnerId = row.billingOwnerId
  metric : row'.lagoMetricCode = row.lagoMetricCode

def Rely (w : ℕ) (s t : Store) : Prop :=
  ∀ id row', t.rows.lookup id = some row' → row'.claim = some w →
    ∃ row, s.rows.lookup id = some row ∧ SameClaim w row row'

theorem rely_refl (w : ℕ) (s : Store) : Rely w s s :=
  fun _ row hrow hclaim => ⟨row, hrow, hclaim, rfl, rfl, rfl⟩

theorem rely_trans (w : ℕ) (s t u : Store) (hst : Rely w s t) (htu : Rely w t u) :
    Rely w s u := by
  intro id row'' hrow'' hclaim
  obtain ⟨row', hrow', hsame'⟩ := htu id row'' hrow'' hclaim
  obtain ⟨row, hrow, hsame⟩ := hst id row' hrow' hsame'.claim
  exact ⟨row, hrow, hsame.claim, hsame'.rate.trans hsame.rate,
    hsame'.owner.trans hsame.owner, hsame'.metric.trans hsame.metric⟩

def discipline (digest : Digest) : Discipline (machine digest) where
  Cond := anyStep
  Inv := Inv digest
  Rely := Rely
  Idle := fun _ _ => True
  Fresh := fun w s => ∀ id row, s.rows.lookup id = some row → row.claim ≠ some w
  rely_refl := rely_refl
  rely_trans := rely_trans
  idle_stable := fun _ _ _ _ _ => trivial
  fresh_stable := by
    intro w s t hst hfresh id row' hrow' hclaim
    obtain ⟨row, hrow, hsame⟩ := hst id row' hrow' hclaim
    exact hfresh id row hrow hsame.claim

/-- The row the worker claimed, at the rate it will commit. -/
def Held (w : ℕ) (id : Id) (claimed : UsageMeterRow) (rate : Option Credits) (s : Store) :
    Prop :=
  ∀ row, s.rows.lookup id = some row → row.claim = some w →
    row.fundingD.settlementRate = rate ∧ row.billingOwnerId = claimed.billingOwnerId ∧
      row.lagoMetricCode = claimed.lagoMetricCode

theorem Held.rely {w : ℕ} {id : Id} {claimed : UsageMeterRow} {rate : Option Credits}
    {s t : Store} (hst : Rely w s t) (h : Held w id claimed rate s) :
    Held w id claimed rate t := by
  intro row' hrow' hclaim
  obtain ⟨row, hrow, hsame⟩ := hst id row' hrow' hclaim
  obtain ⟨hrate, howner, hmetric⟩ := h row hrow hsame.claim
  exact ⟨hsame.rate.trans hrate, hsame.owner.trans howner, hsame.metric.trans hmetric⟩

/-- Writing one row disturbs another worker only through a claim of that worker. -/
theorem rely_write {v : ℕ} {s t : Store} {id : Id} {row' : UsageMeterRow}
    (ht : t.rows = s.rows.insert id row')
    (h : row'.claim = some v → ∃ row, s.rows.lookup id = some row ∧ SameClaim v row row') :
    Rely v s t := by
  intro other found hfound hclaim
  rw [ht] at hfound
  by_cases hother : other = id
  · subst hother
    rw [AList.lookup_insert, Option.some.injEq] at hfound
    subst hfound
    exact h hclaim
  · rw [AList.lookup_insert_ne hother] at hfound
    exact ⟨found, hfound, hclaim, rfl, rfl, rfl⟩

theorem Member.of_write {digest : Digest} {rows : Collection Id UsageMeterRow} {key : String}
    {rate : Credits} {id : Id} {row row' : UsageMeterRow} (hrow : rows.lookup id = some row)
    (hopen : ¬ row.settled)
    (h : ∃ other found, rows.lookup other = some found ∧ Member digest key rate found) :
    ∃ other found, (rows.insert id row').lookup other = some found ∧
      Member digest key rate found := by
  obtain ⟨other, found, hfound, hmember⟩ := h
  have hother : other ≠ id := by
    rintro rfl
    rw [hrow, Option.some.injEq] at hfound
    subst hfound
    exact hopen hmember.settled
  exact ⟨other, found, by rwa [AList.lookup_insert_ne hother], hmember⟩

theorem term_open (f : String → Id → UsageMeterRow → ℤ)
    (hf : f = walletTerm ∨ f = emittedTerm) {rows : Collection Id UsageMeterRow} {id : Id}
    {row : UsageMeterRow} (hrow : rows.lookup id = some row) (hopen : ¬ row.settled)
    (key : String) (row' : UsageMeterRow) :
    Collection.sumOf (f key) (rows.insert id row') =
      Collection.sumOf (f key) rows + f key id row' := by
  have hterm : Collection.term (f key) rows id = 0 := by
    rcases hf with rfl | rfl
    · simp [Collection.term, hrow, walletTerm, hopen]
    · simp [Collection.term, hrow, emittedTerm, hopen]
  rw [Collection.sumOf_insert, hterm]
  omega

/-- A write that leaves an open row without any term keeps every carry as it is. -/
theorem CarryOk.of_write {digest : Digest} {rows : Collection Id UsageMeterRow} {key : String}
    {carry : Option BillingLagoCarry} {id : Id} {row row' : UsageMeterRow}
    (h : CarryOk digest rows key carry) (hrow : rows.lookup id = some row)
    (hopen : ¬ row.settled) (hterm : row'.settled → row'.fundingD.lagoCarryId ≠ some key) :
    CarryOk digest (rows.insert id row') key carry where
  wallet_sum := by
    rw [term_open walletTerm (.inl rfl) hrow hopen, h.wallet_sum, walletTerm,
      if_neg (fun hand => hterm hand.1 hand.2)]
    omega
  emitted_sum := by
    rw [term_open emittedTerm (.inr rfl) hrow hopen, h.emitted_sum, emittedTerm,
      if_neg (fun hand => hterm hand.1 hand.2)]
    omega
  cumulative := h.cumulative
  member c hc := Member.of_write hrow hopen (h.member c hc)

theorem Inv.of_write {digest : Digest} {s : Store} {id : Id} {row row' : UsageMeterRow}
    (h : Inv digest s) (hrow : s.rows.lookup id = some row) (hopen : ¬ row.settled)
    (hok : row'.settled → RowOk digest row')
    (hterm : row'.settled → row'.fundingD.lagoCarryId = none) :
    Inv digest { s with rows := s.rows.insert id row' } where
  rows other found hfound hsettled := by
    by_cases hother : other = id
    · subst hother
      rw [AList.lookup_insert, Option.some.injEq] at hfound
      subst hfound
      exact hok hsettled
    · rw [AList.lookup_insert_ne hother] at hfound
      exact h.rows other found hfound hsettled
  carries key := (h.carries key).of_write hrow hopen
    (fun hsettled => by simp [hterm hsettled])

/-- The carry transaction adds the row to the carry of its rate. -/
theorem Inv.of_commit {digest : Digest} {s : Store} {id : Id} {saved row : UsageMeterRow}
    {rate : Credits} {fields : SettlementFields} {carry : BillingLagoCarry} {q : ℤ} {now : Time}
    (h : Inv digest s) (hrow : s.rows.lookup id = some saved) (hopen : ¬ saved.settled)
    (hrate : saved.fundingD.settlementRate = some rate)
    (hkey : carryKey digest saved rate = carryKey digest row rate)
    (hnext : CarryStep (s.carries.lookup (carryKey digest row rate)) row fields.walletFunded
      rate carry q) :
    Inv digest
      { rows := s.rows.insert id (saved.commit fields q (some (carryKey digest row rate)) now)
        carries := s.carries.insert (carryKey digest row rate) carry } where
  rows other found hfound hsettled := by
    by_cases hother : other = id
    · subst hother
      rw [AList.lookup_insert, Option.some.injEq] at hfound
      subst hfound
      exact ⟨rfl, hnext.quantity_nonneg, .inr ⟨rate, hrate, congrArg some hkey.symm⟩⟩
    · rw [AList.lookup_insert_ne hother] at hfound
      exact h.rows other found hfound hsettled
  carries key := by
    by_cases hk : key = carryKey digest row rate
    · subst hk
      have hold := h.carries (carryKey digest row rate)
      rw [AList.lookup_insert]
      refine ⟨?_, ?_, ?_, ?_⟩
      · rw [term_open walletTerm (.inl rfl) hrow hopen, hold.wallet_sum]
        simp [walletTerm, UsageMeterRow.commit, UsageMeterRow.settled, UsageMeterRow.fundingD,
          previousTotal, hnext.total_eq]
      · rw [term_open emittedTerm (.inr rfl) hrow hopen, hold.emitted_sum]
        simp [emittedTerm, UsageMeterRow.commit, UsageMeterRow.settled, UsageMeterRow.fundingD,
          previousEmitted, hnext.quantity_eq]
      · intro c hc
        cases hc
        rw [hnext.rate_eq]
        exact hnext.cumulative
      · intro c hc
        cases hc
        rw [hnext.rate_eq]
        exact ⟨id, _, AList.lookup_insert s.rows, rfl, hrate, hkey⟩
    · rw [AList.lookup_insert_ne hk]
      refine (h.carries key).of_write hrow hopen (fun _ hsome => hk ?_)
      exact (Option.some.inj hsome).symm

variable {digest : Digest}

/-- Guarantees of one write: the invariant holds after it and every other worker
keeps the rows it has claimed. -/
theorem guar_write {w : ℕ} {s t : Store} {id : Id} {row row' : UsageMeterRow}
    (hinv : Inv digest t) (ht : t.rows = s.rows.insert id row')
    (hrow : s.rows.lookup id = some row)
    (h : ∀ v, v ≠ w → row'.claim = some v → SameClaim v row row') :
    (discipline digest).Guar w s t :=
  ⟨hinv, fun v hv => rely_write ht fun hclaim => ⟨row, hrow, h v hv hclaim⟩⟩

/-- After an operation the worker either goes on as proved or has failed. -/
theorem step_intro {w : ℕ} {env : Env} {β : Type} {o : Op β} {s : Store}
    {Q : β → Store → Prop}
    (hguar : (discipline digest).Guar w s (exec digest w env o s).2)
    (hQ : Q (exec digest w env o s).1 (exec digest w env o s).2) :
    (discipline digest).Step w o Q (fun _ => True) s env :=
  ⟨fun _ => ⟨hguar, hQ⟩, fun _ => ⟨hguar, trivial⟩, fun _ => trivial, fun _ => trivial⟩

theorem settleWithoutWallet_guar (w : ℕ) (env : Env) (id : Id) (claim : ClaimId)
    {fields : SettlementFields} (hwallet : fields.walletFunded = .zero) {s : Store}
    (hs : Inv digest s) : (discipline digest).Guar w s
      (exec digest w env (.settleWithoutWallet id claim fields) s).2 := by
  simp only [exec]
  split
  · rename_i row hrow
    split
    · rename_i hand
      have hinv : Inv digest
          { s with rows := s.rows.insert id (row.commit fields 0 none env.now) } :=
        hs.of_write hrow hand.2
          (fun _ => ⟨rfl, le_rfl, .inl ⟨rfl, congrArg some hwallet, rfl⟩⟩) (fun _ => rfl)
      exact guar_write hinv rfl hrow (fun v _ hclaim => by cases hclaim)
    · exact (discipline digest).guar_refl hs
  · exact (discipline digest).guar_refl hs

theorem commit_guar (w : ℕ) (env : Env) {id : Id} {claimed : UsageMeterRow}
    {rate : Credits} {fields : SettlementFields} (hclaimed : claimed.claim = some w) {s : Store}
    (hs : Inv digest s) (hheld : Held w id claimed (some rate) s) :
    (discipline digest).Guar w s
      (exec digest w env (.commit id claimed fields.walletFunded rate fields) s).2 := by
  simp only [exec]
  split
  · exact (discipline digest).guar_refl hs
  split
  · rename_i settlement t hcommit
    unfold commitTransaction at hcommit
    split at hcommit
    · cases hcommit
    rename_i saved hrow
    split at hcommit
    · cases hcommit
      exact (discipline digest).guar_refl hs
    rename_i hopen
    split at hcommit
    · cases hcommit
    rename_i hclaim
    have hsaved : saved.claim = some w := by
      by_contra hne
      exact hclaim (.inr (hclaimed ▸ hne))
    obtain ⟨hrate, howner, hmetric⟩ := hheld saved hrow hsaved
    obtain ⟨⟨carry, q⟩, hnext, hcommit⟩ := bind_eq_ok.mp hcommit
    cases hcommit
    have hkey : carryKey digest saved rate = carryKey digest claimed rate := by
      simp only [carryKey, howner, hmetric]
    exact guar_write (hs.of_commit hrow hopen hrate hkey (nextCarry_eq_ok hnext)) rfl hrow
      (fun v _ hnone => by cases hnone)
  · exact (discipline digest).guar_refl hs

theorem commitAttempts_wp (w : ℕ) {id : Id} {claimed : UsageMeterRow} {rate : Credits}
    {fields : SettlementFields} (hclaimed : claimed.claim = some w) (n : ℕ) {s : Store}
    (hheld : Held w id claimed (some rate) s) :
    (discipline digest).wp w (commitAttempts id claimed fields.walletFunded rate fields n)
      (fun _ _ => True) (fun _ _ => True) s := by
  induction n generalizing s with
  | zero => trivial
  | succ n ih =>
    apply Discipline.wp_perform
    intro t env hst ht
    have hheldT := hheld.rely hst
    have hguar : (discipline digest).Guar w t
        (exec digest w env (.commit id claimed fields.walletFunded rate fields) t).2 :=
      commit_guar w env hclaimed ht hheldT
    refine step_intro hguar ?_
    -- A retry only follows an error, and an error leaves the store alone.
    have hsame : ∀ e, (exec digest w env (.commit id claimed fields.walletFunded rate fields)
        t).1 = .error e → (exec digest w env
          (.commit id claimed fields.walletFunded rate fields) t).2 = t := by
      intro e
      simp only [exec]
      split
      · exact fun _ => rfl
      · split
        · exact fun h => by cases h
        · exact fun _ => rfl
    cases hanswer : (exec digest w env
        (.commit id claimed fields.walletFunded rate fields) t).1 with
    | ok settlement => trivial
    | error e =>
      simp only
      split
      · rw [hsame e hanswer]
        exact ih hheldT
      · trivial

theorem commitSettlement_wp (w : ℕ) {id : Id} {claimed : UsageMeterRow} {rate : Credits}
    {fields : SettlementFields} (hclaimed : claimed.claim = some w) {s : Store}
    (hheld : Held w id claimed (some rate) s) :
    (discipline digest).wp w (commitSettlement id claimed fields.walletFunded rate fields)
      (fun _ _ => True) (fun _ _ => True) s := by
  unfold commitSettlement
  split
  · rename_i hwallet
    rw [hclaimed]
    apply Discipline.wp_perform
    intro t env _ ht
    refine step_intro (settleWithoutWallet_guar w env id w hwallet ht) ?_
    split
    · trivial
    · apply Discipline.wp_perform
      intro u env' _ hu
      refine step_intro ((discipline digest).guar_refl hu) ?_
      split
      · split <;> trivial
      · trivial
  · exact commitAttempts_wp w hclaimed 16 hheld

theorem claimRow_guar (w : ℕ) (env : Env) (id : Id) {s : Store} (hs : Inv digest s) :
    (discipline digest).Guar w s (exec digest w env (.claimRow id) s).2 := by
  simp only [exec]
  split
  · rename_i row hrow
    split
    · rename_i hclaimable
      have hopen : ¬ row.settled := by
        simp only [UsageMeterRow.claimable, Bool.and_eq_true, Bool.not_eq_true'] at hclaimable
        simp [hclaimable.1.2]
      exact guar_write (hs.of_write hrow hopen (fun h => absurd h hopen)
        (fun h => absurd h hopen)) rfl hrow
        (fun v hv hclaim => absurd (Option.some.inj hclaim).symm hv)
    · exact (discipline digest).guar_refl hs
  · exact (discipline digest).guar_refl hs

theorem claimRow_held (w : ℕ) (env : Env) (id : Id) (s : Store) {claimed : UsageMeterRow}
    (h : (exec digest w env (.claimRow id) s).1 = some claimed) :
    claimed.claim = some w ∧ Held w id claimed claimed.fundingD.settlementRate
      (exec digest w env (.claimRow id) s).2 := by
  revert h
  simp only [exec]
  split
  · split
    · intro h
      cases h
      refine ⟨rfl, fun row hrow _ => ?_⟩
      rw [AList.lookup_insert, Option.some.injEq] at hrow
      subst hrow
      exact ⟨rfl, rfl, rfl⟩
    · intro h
      cases h
  · intro h
    cases h

/-- Only an unsettled row carries a claim, so freezing its rate moves no carry. -/
theorem freezeRate_guar (w : ℕ) (env : Env) (id : Id) (rate : Credits) {s : Store}
    (hs : Inv digest s) :
    (discipline digest).Guar w s (exec digest w env (.freezeRate id rate) s).2 := by
  simp only [exec]
  split
  · rename_i row hrow
    split
    · rename_i hclaim
      have hrowOpen : ¬ row.settled := by
        intro hsettled
        rw [(hs.rows id row hrow hsettled).unclaimed] at hclaim
        cases hclaim
      exact guar_write (hs.of_write hrow hrowOpen (fun h => absurd h hrowOpen)
        (fun h => absurd h hrowOpen)) rfl hrow
        (fun v hv hv' => absurd (Option.some.inj (hv'.symm.trans hclaim)) hv)
    · exact (discipline digest).guar_refl hs
  · exact (discipline digest).guar_refl hs

theorem freezeRate_held {w : ℕ} {env : Env} {id : Id} {rate : Credits} {claimed : UsageMeterRow}
    {s : Store} (hheld : Held w id claimed none s)
    (h : (exec digest w env (.freezeRate id rate) s).1 = true) :
    Held w id claimed (some rate) (exec digest w env (.freezeRate id rate) s).2 := by
  revert h
  simp only [exec]
  split
  · rename_i row hrow
    split
    · rename_i hclaim
      intro _ found hfound _
      rw [AList.lookup_insert, Option.some.injEq] at hfound
      subst hfound
      exact ⟨rfl, (hheld row hrow hclaim).2⟩
    · intro h
      cases h
  · intro h
    cases h

theorem settleRow_wp (w : ℕ) (a : Attempt) (s : Store) :
    (discipline digest).wp w (settleRow a) (fun _ _ => True) (fun _ _ => True) s := by
  apply Discipline.wp_perform
  intro t env _ ht
  have hguar := claimRow_guar w env a.row ht
  refine step_intro hguar ?_
  split
  · trivial
  · rename_i claimed hanswer
    obtain ⟨hclaimed, hheld⟩ := claimRow_held w env a.row t hanswer
    split
    · rename_i rate hrate
      rw [hrate] at hheld
      apply Discipline.wp_bind hguar.1
      exact commitSettlement_wp w hclaimed hheld
    · rename_i hrate
      rw [hrate] at hheld
      apply Discipline.wp_perform
      intro u env' htu hu
      have hguar' := freezeRate_guar w env' a.row a.currentRate hu
      refine step_intro hguar' ?_
      split
      · rename_i hfrozen
        apply Discipline.wp_bind hguar'.1
        exact commitSettlement_wp w hclaimed (freezeRate_held (hheld.rely htu) hfrozen)
      · trivial

theorem sequential : (discipline digest).Sequential :=
  fun w a s _ _ => settleRow_wp w a s

/-- Before the first settlement: no row is settled or claimed, no carry exists. -/
structure Initial (s : Store) : Prop where
  rows : ∀ id row, s.rows.lookup id = some row → row.settled = false ∧ row.claim = none
  carries : s.carries = ∅

theorem Initial.inv {s : Store} (h : Initial s) : Inv digest s where
  rows id row hrow hsettled := by simp [(h.rows id row hrow).1] at hsettled
  carries key := by
    have hnone : s.carries.lookup key = none := by
      rw [h.carries]
      rfl
    rw [hnone]
    refine ⟨?_, ?_, (fun c hc => by cases hc), (fun c hc => by cases hc)⟩
    · exact Collection.sumOf_eq_zero _ _
        (fun id row hrow => by simp [walletTerm, (h.rows id row hrow).1])
    · exact Collection.sumOf_eq_zero _ _
        (fun id row hrow => by simp [emittedTerm, (h.rows id row hrow).1])

theorem inv_of_reaches {s : Store} (hs : Initial s) {c : (machine digest).Config}
    (hc : Reaches anyStep s c) : Inv digest c.store :=
  (sequential.sound (D := discipline digest) hs.inv
    (fun _ id row hrow => by rw [(hs.rows id row hrow).2]; exact nofun) hc).inv

end NyxId.LagoCarry
