import NyxId.Billing.Openings
import NyxId.Billing.Workers

/-!
What no billing worker can undo. Whoever runs, in whatever order and with whatever failures, rows
stay whose they are, are measured once and settled once, and the journal is only appended to.
-/

namespace NyxId.Billing

open Interleave Interleave.Machine

variable {s t u : Store}

/-! ### The journal -/

theorem postingTotals_sum {postings : List BillingPosting} {start totals : Credits × Credits}
    (h : postings.foldlM (fun (totals : Credits × Credits) p =>
      if p.amount.pico ≤ 0 then .error (.internal "invalid v2 posting")
      else match p.side with
        | .debit => do
          let debit ← creditsOrError (totals.1.checkedAdd p.amount)
          return (debit, totals.2)
        | .credit => do
          let credit ← creditsOrError (totals.2.checkedAdd p.amount)
          return (totals.1, credit)) start = (.ok totals : Except AppError _)) :
    totals.1.pico - totals.2.pico =
      start.1.pico - start.2.pico + (postings.map BillingPosting.signed).sum := by
  induction postings generalizing start with
  | nil =>
    cases h
    simp only [List.map_nil, List.sum_nil, add_zero]
  | cons p postings ih =>
    rw [List.foldlM_cons] at h
    obtain ⟨next, hnext, h⟩ := bind_eq_ok.mp h
    have hrest := ih h
    rw [List.map_cons, List.sum_cons]
    split at hnext
    · cases hnext
    · split at hnext
      · rename_i hside
        obtain ⟨debit, hdebit, hnext⟩ := bind_eq_ok.mp hnext
        cases hnext
        have hsum := Credits.checkedAdd_eq_some.mp (creditsOrError_eq_ok hdebit)
        have hsigned : p.signed = p.amount.pico := by simp only [BillingPosting.signed, hside]
        dsimp only at hrest
        omega
      · rename_i hside
        obtain ⟨credit, hcredit, hnext⟩ := bind_eq_ok.mp hnext
        cases hnext
        have hsum := Credits.checkedAdd_eq_some.mp (creditsOrError_eq_ok hcredit)
        have hsigned : p.signed = -p.amount.pico := by simp only [BillingPosting.signed, hside]
        dsimp only at hrest
        omega

/-- Debits and credits of an entry that is let in are equal. -/
theorem validatePostings_balanced {entry : BillingLedgerEntry} (h : validatePostings entry = .ok ()) :
    (entry.postings.map BillingPosting.signed).sum = 0 := by
  unfold validatePostings at h
  split at h
  · rename_i hempty
    rw [hempty.1]
    rfl
  · obtain ⟨⟨debit, credit⟩, htotals, h⟩ := bind_eq_ok.mp h
    have hsum := postingTotals_sum htotals
    dsimp only at h hsum
    split at h
    · cases h
    · rename_i hequal
      simp only [not_or, not_not] at hequal
      rw [hequal.2] at hsum
      simp only [Credits.pico_zero] at hsum
      omega

/-- The journal is numbered from one without a gap, holds no key twice and only balanced entries, and
every checkpoint is the sum of its account's postings. -/
structure Ledger.Sound (l : Ledger) : Prop where
  numbered : l.entries.map (·.seq) = (List.range' 1 l.entries.length).reverse
  unique : (l.entries.map (·.dedupeKey)).Nodup
  balanced : ∀ e ∈ l.entries, (e.postings.map BillingPosting.signed).sum = 0
  checked : l.Checked

theorem Ledger.nextSeq_eq {l : Ledger}
    (h : l.entries.map (·.seq) = (List.range' 1 l.entries.length).reverse) :
    l.nextSeq = l.entries.length + 1 := by
  unfold Ledger.nextSeq
  cases hentries : l.entries with
  | nil => rfl
  | cons e rest =>
    rw [hentries, List.length_cons, List.range'_concat, List.reverse_append, List.map_cons] at h
    have hhead := (List.cons.inj h).1
    simp only [List.length_cons]
    omega

theorem Ledger.Sound.append {l m : Ledger} {entry : BillingLedgerEntry} (h : l.Sound)
    (happend : l.append entry = .ok m) : m.Sound ∧ l.entries <:+ m.entries := by
  have hchecked := append_checked happend h.checked
  rcases append_cases happend with ⟨rfl, -⟩ | ⟨hnew, hentries⟩
  · exact ⟨h, List.suffix_refl _⟩
  · obtain ⟨_, hvalid, -⟩ := bind_eq_ok.mp happend
    refine ⟨⟨?_, ?_, fun e he => ?_, hchecked⟩, hentries ▸ List.suffix_cons _ _⟩
    · rw [hentries, List.map_cons, List.length_cons, List.range'_concat, List.reverse_append,
        h.numbered, nextSeq_eq h.numbered, Nat.one_mul, Nat.add_comm]
      rfl
    · rw [hentries, List.map_cons]
      refine List.nodup_cons.mpr ⟨fun hmem => hnew ?_, h.unique⟩
      obtain ⟨e, he, hkey⟩ := List.mem_map.mp hmem
      exact List.any_eq_true.mpr ⟨e, he, decide_eq_true hkey⟩
    · rw [hentries] at he
      rcases List.mem_cons.mp he with rfl | he
      · exact validatePostings_balanced hvalid
      · exact h.balanced e he

/-! ### One operation -/

/-- No component of a request is metered by two rows. -/
def MeteredOnce (s : Store) : Prop :=
  ∀ i j row other, s.rows.lookup i = some row → s.rows.lookup j = some other →
    transactionId row = transactionId other → i = j

structure Lawful (s : Store) : Prop where
  rows : ∀ id row, s.rows.lookup id = some row → RowOk row
  metered : MeteredOnce s
  ledger : s.ledger.Sound

/-- Rows move forward, and the journal is appended to. -/
structure Grows (s t : Store) : Prop where
  rows : ∀ id row, s.rows.lookup id = some row →
    ∃ later, t.rows.lookup id = some later ∧ RowGrows row later
  entries : s.ledger.entries <:+ t.ledger.entries

/-- A step that does neither harm. -/
def Keeps (s t : Store) : Prop := Lawful s → Lawful t ∧ Grows s t

theorem Keeps.of_same (hrows : t.rows = s.rows) (hledger : t.ledger = s.ledger) : Keeps s t := by
  refine fun h => ⟨⟨?_, ?_, ?_⟩, ⟨fun id row hrow => ⟨row, ?_, .refl row⟩, ?_⟩⟩
  · rw [hrows]
    exact h.rows
  · unfold MeteredOnce
    rw [hrows]
    exact h.metered
  · rw [hledger]
    exact h.ledger
  · rw [hrows]
    exact hrow
  · rw [hledger]

theorem Keeps.trans (hst : Keeps s t) (htu : Keeps t u) : Keeps s u := by
  intro h
  obtain ⟨ht, hgrow⟩ := hst h
  obtain ⟨hu, hgrow'⟩ := htu ht
  refine ⟨hu, ⟨fun id row hrow => ?_, hgrow.entries.trans hgrow'.entries⟩⟩
  obtain ⟨mid, hmid, hrowMid⟩ := hgrow.rows id row hrow
  obtain ⟨later, hlater, hmidLater⟩ := hgrow'.rows id mid hmid
  exact ⟨later, hlater, hrowMid.trans hmidLater⟩

theorem Keeps.of_insert {id : Id} {later : UsageMeterRow} (hrows : t.rows = s.rows.insert id later)
    (hledger : t.ledger = s.ledger) (hok : Lawful s → RowOk later)
    (hgrows : Lawful s → ∀ row, s.rows.lookup id = some row → RowGrows row later)
    (hmine : Lawful s → ∀ i row, s.rows.lookup i = some row →
      transactionId row = transactionId later → i = id) : Keeps s t := by
  refine fun h => ⟨⟨fun i row hrow => ?_, fun i j row other hrow hother heq => ?_, ?_⟩,
    ⟨fun i row hrow => ?_, ?_⟩⟩
  · by_cases hid : i = id
    · rw [hrows, hid, AList.lookup_insert] at hrow
      exact Option.some.inj hrow ▸ hok h
    · rw [hrows, AList.lookup_insert_ne hid] at hrow
      exact h.rows i row hrow
  · rw [hrows] at hrow hother
    rcases Collection.lookup_insert_cases hrow with ⟨hi, hlater⟩ | ⟨-, hold⟩
    · rcases Collection.lookup_insert_cases hother with ⟨hj, -⟩ | ⟨-, hold⟩
      · exact hi.trans hj.symm
      · exact hi.trans (hmine h j other hold (heq.symm.trans (congrArg transactionId hlater))).symm
    · rcases Collection.lookup_insert_cases hother with ⟨hj, hlater⟩ | ⟨-, hold'⟩
      · exact (hmine h i row hold (heq.trans (congrArg transactionId hlater))).trans hj.symm
      · exact h.metered i j row other hold hold' heq
  · rw [hledger]
    exact h.ledger
  · by_cases hid : i = id
    · subst hid
      exact ⟨later, by rw [hrows, AList.lookup_insert], hgrows h row hrow⟩
    · exact ⟨row, by rw [hrows, AList.lookup_insert_ne hid, hrow], .refl row⟩
  · rw [hledger]

theorem Keeps.of_step {id : Id} {row later : UsageMeterRow} (hfound : s.rows.lookup id = some row)
    (hrows : t.rows = s.rows.insert id later) (hledger : t.ledger = s.ledger)
    (hstep : RowOk row → RowGrows row later ∧ RowOk later) : Keeps s t := by
  refine .of_insert hrows hledger (fun h => (hstep (h.rows id row hfound)).2) (fun h r hr => ?_)
    fun h i r hr heq => ?_
  · rw [hfound] at hr
    exact Option.some.inj hr ▸ (hstep (h.rows id row hfound)).1
  · exact h.metered i id r row hr hfound (heq.trans (hstep (h.rows id row hfound)).1.transactionId_eq)

/-- The journal alone. -/
theorem Keeps.of_ledger (hrows : t.rows = s.rows)
    (hledger : s.ledger.Sound → t.ledger.Sound ∧ s.ledger.entries <:+ t.ledger.entries) : Keeps s t := by
  refine fun h => ⟨⟨?_, ?_, (hledger h.ledger).1⟩, ⟨fun id row hrow => ⟨row, ?_, .refl row⟩,
    (hledger h.ledger).2⟩⟩
  · rw [hrows]
    exact h.rows
  · unfold MeteredOnce
    rw [hrows]
    exact h.metered
  · rw [hrows]
    exact hrow

theorem insertRows_keeps {ids : List Id} {rows : List UsageMeterRow} (hrows : ∀ row ∈ rows, RowOk row)
    (h : insertRows ids rows s = .ok t) : Keeps s t := by
  induction rows generalizing ids s with
  | nil =>
    cases ids <;> cases h <;> exact .of_same rfl rfl
  | cons row rows ih =>
    cases ids with
    | nil => cases h
    | cons id ids =>
      obtain ⟨mid, hmid, h⟩ := bind_eq_ok.mp h
      obtain ⟨hfree, hstore, hother⟩ := insertRow_cases hmid
      have hnew : Keeps s mid := by
        rw [hstore]
        refine .of_insert rfl rfl (fun _ => hrows row List.mem_cons_self) (fun _ r hr => ?_)
          fun _ i r hr heq => absurd heq (hother i r hr)
        rw [hfree] at hr
        cases hr
      exact hnew.trans (ih (fun r hr => hrows r (List.mem_cons_of_mem row hr)) h)

theorem BenefitStep.keeps (h : BenefitStep s t) : Keeps s t := by
  rw [h.same]
  exact .of_same rfl rfl

theorem returnHold_keeps {now : Time} {owner : Id} {walletId : Option Id} {credits : Credits}
    {refused : AppError} (h : returnHold now owner walletId credits refused s = .ok t) :
    t.rows = s.rows ∧ t.ledger = s.ledger := by
  unfold returnHold at h
  split at h
  · cases h
    exact ⟨rfl, rfl⟩
  · split at h
    · split at h
      · cases h
        exact ⟨rfl, rfl⟩
      · cases h
    · cases h

theorem cancelManagedRows_keeps {now : Time} {execution : Id} {provenUnsent : Bool} {ids : List Id}
    (h : cancelManagedRows now execution provenUnsent ids s = .ok t) : Keeps s t := by
  induction ids generalizing s with
  | nil =>
    cases h
    exact .of_same rfl rfl
  | cons id rest ih =>
    unfold cancelManagedRows at h
    split at h
    · cases h
    · rename_i meter hmeter
      obtain ⟨hfound, -⟩ := Option.filter_eq_some_iff.mp hmeter
      split at h
      · exact ih h
      · dsimp only at h
        split at h
        · cases h
        · split at h
          · cases h
          · obtain ⟨mid, hmid, h⟩ := bind_eq_ok.mp h
            obtain ⟨hrows, hledger⟩ := returnHold_keeps hmid
            rw [← hrows] at hfound
            refine (Keeps.of_same hrows hledger).trans (Keeps.trans ?_ (ih h))
            refine .of_step hfound rfl rfl fun hok => ⟨⟨⟨rfl, rfl, rfl⟩, rfl, rfl, rfl, fun _ hq => hq, fun hs => ⟨hs, rfl⟩,
              rfl, rfl, List.prefix_refl _, List.prefix_refl _⟩, ⟨?_, hok.settled_unclaimed⟩⟩
            rintro (hstatus | hstatus) <;> cases hstatus

theorem releaseUnknownRows_keeps {now : Time} {rows : List (Id × UsageMeterRow)} {released : ℕ}
    (hfound : ∀ r ∈ rows, s.rows.lookup r.1 = some r.2) (hids : (rows.map Prod.fst).Nodup)
    (h : releaseUnknownRows now rows s = .ok (released, t)) : Keeps s t := by
  induction rows generalizing s released with
  | nil =>
    cases h
    exact .of_same rfl rfl
  | cons r rest ih =>
    obtain ⟨id, row⟩ := r
    obtain ⟨hnew, hids⟩ := List.nodup_cons.mp hids
    unfold releaseUnknownRows at h
    split at h
    · exact ih (fun r hr => hfound r (List.mem_cons_of_mem _ hr)) hids h
    · obtain ⟨mid, hmid, h⟩ := bind_eq_ok.mp h
      obtain ⟨⟨count, last⟩, hrest, h⟩ := bind_eq_ok.mp h
      cases h
      obtain ⟨hrows, hledger⟩ := returnHold_keeps hmid
      have hmine : mid.rows.lookup id = some row := by
        rw [hrows]
        exact hfound _ List.mem_cons_self
      refine (Keeps.of_same hrows hledger).trans (Keeps.trans ?_ (ih (fun r hr => ?_) hids hrest))
      · refine .of_step hmine rfl rfl fun hok => ⟨⟨⟨rfl, rfl, rfl⟩, rfl, rfl, rfl, fun _ hq => hq, fun hs => ⟨hs, rfl⟩, rfl,
          rfl, List.prefix_refl _, List.prefix_refl _⟩, ⟨?_, hok.settled_unclaimed⟩⟩
        rintro (hstatus | hstatus) <;> cases hstatus
      · have hne : r.1 ≠ id := fun heq => hnew (List.mem_map.mpr ⟨r, hr, heq⟩)
        simp only [AList.lookup_insert_ne hne, hrows]
        exact hfound r (List.mem_cons_of_mem _ hr)

theorem releaseUnknownRequest_keeps {env : Env} {request : Id} {expiredAt : Option Time} {released : ℕ}
    (h : releaseUnknownRequest env request expiredAt s = .ok (released, t)) : Keeps s t := by
  unfold releaseUnknownRequest at h
  dsimp only at h
  split at h
  · cases h
    exact .of_same rfl rfl
  · refine releaseUnknownRows_keeps (fun r hr => ?_) ?_ h
    · obtain ⟨e, he, rfl⟩ := List.mem_map.mp (List.mem_filter.mp hr).1
      exact AList.mem_lookup_iff.mpr he
    · refine List.Nodup.sublist (List.Sublist.map Prod.fst List.filter_sublist) ?_
      rw [List.map_map]
      exact s.rows.nodupKeys

theorem reserveLayers_keeps {env : Env} {serviceId serviceSlug : Option Id} {grants : List Id}
    {layers : List (LayerReservation × List Id)} {reserved : List LayerReservation}
    (h : reserveLayers env serviceId serviceSlug grants layers s = .ok (reserved, t)) : Keeps s t := by
  induction layers generalizing s reserved with
  | nil =>
    cases h
    exact .of_same rfl rfl
  | cons first rest ih =>
    obtain ⟨layer, candidates⟩ := first
    obtain ⟨⟨out, mid⟩, hfirst, h⟩ := bind_eq_ok.mp h
    obtain ⟨⟨outs, last⟩, hrest, h⟩ := bind_eq_ok.mp h
    cases h
    obtain ⟨⟨allowances, remaining, s₁⟩, hallow, hfirst⟩ := bind_eq_ok.mp hfirst
    obtain ⟨left, -, hfirst⟩ := bind_eq_ok.mp hfirst
    obtain ⟨⟨allocations, uncovered, s₂⟩, hgrants, hfirst⟩ := bind_eq_ok.mp hfirst
    obtain ⟨_, -, hfirst⟩ := bind_eq_ok.mp hfirst
    cases hfirst
    exact (reserveAllowances_step hallow).keeps.trans
      ((reserveGrants_step hgrants).1.keeps.trans (ih hrest))

theorem holdWallet_keeps {env : Env} {owner : Id} {wallet : BillingWallet} {modelTariff : Bool}
    {total : Credits} (h : holdWallet env owner wallet modelTariff total s = .ok t) : Keeps s t := by
  unfold holdWallet at h
  split at h
  · cases h
    exact .of_same rfl rfl
  · split at h
    · cases h
    · obtain ⟨withOverdraft, -, h⟩ := bind_eq_ok.mp h
      dsimp only at h
      split at h
      all_goals
        obtain ⟨available, -, h⟩ := bind_eq_ok.mp h
        split at h
        · cases h
        · split at h
          · cases h
          · obtain ⟨held, -, h⟩ := bind_eq_ok.mp h
            obtain ⟨sum, -, h⟩ := bind_eq_ok.mp h
            cases h
            exact .of_same rfl rfl

theorem reservedRow_ok (now : Time) (ctx : BillingRouteContext) (layer : BillingLayer)
    (metric : BillingMetric) (lagoMetricCode : Id) (reservation : BillingReservation) :
    RowOk (reservedRow now ctx layer metric lagoMetricCode reservation) where
  open_unmeasured := fun _ => rfl
  settled_unclaimed := by
    simp only [reservedRow, UsageMeterRow.settled, UsageMeterRow.claim, UsageMeterRow.fundingD]
    cases reservation.layers.find? _ <;> intro h <;> cases h

theorem reserveTransaction_keeps {env : Env} {ctx : BillingRouteContext} {walletId : Id}
    {subscription : Option Id} {layers : List (LayerReservation × List Id)} {grants : List Id}
    {reservation : BillingReservation}
    (h : reserveTransaction env ctx walletId subscription layers grants s = .ok (reservation, t)) :
    Keeps s t := by
  unfold reserveTransaction at h
  split at h
  · cases h
  · split at h
    · cases h
    · split at h
      · cases h
      · split at h
        · cases h
        · split at h
          · cases h
          · obtain ⟨⟨reserved, s₁⟩, hlayers, h⟩ := bind_eq_ok.mp h
            obtain ⟨total, -, h⟩ := bind_eq_ok.mp h
            obtain ⟨s₂, hhold, h⟩ := bind_eq_ok.mp h
            obtain ⟨s₃, hinsert, h⟩ := bind_eq_ok.mp h
            cases h
            refine (reserveLayers_keeps hlayers).trans ((holdWallet_keeps hhold).trans
              (insertRows_keeps (fun row hrow => ?_) hinsert))
            rcases List.mem_append.mp hrow with hrow | hrow
            · split at hrow
              · obtain ⟨spec, -, rfl⟩ := List.mem_map.mp hrow
                exact reservedRow_ok _ _ _ _ _ _
              · cases hrow
            · obtain ⟨spec, -, rfl⟩ := List.mem_map.mp hrow
              exact reservedRow_ok _ _ _ _ _ _

theorem reserveRuntimeWindow_keeps {env : Env} {window : RuntimeWindow}
    {reservation : BillingReservation}
    (h : reserveRuntimeWindow env window s = .ok (reservation, t)) : Keeps s t := by
  unfold reserveRuntimeWindow at h
  split at h
  · cases h
  · split at h
    · cases h
    · split at h
      · cases h
      · split at h
        · cases h
        · obtain ⟨⟨allowances, remaining, s₁⟩, hallow, h⟩ := bind_eq_ok.mp h
          obtain ⟨cost, -, h⟩ := bind_eq_ok.mp h
          obtain ⟨⟨allocations, left, s₂⟩, hgrants, h⟩ := bind_eq_ok.mp h
          obtain ⟨⟨gross, tax⟩, -, h⟩ := bind_eq_ok.mp h
          have hfinish (layer : LayerReservation) (s₃ : Store) (ids : List Id)
              (hinsert : insertRows ids [window.row env.now layer] s₃ = .ok t)
              (hrows : s₃.rows = s₂.rows) (hledger : s₃.ledger = s₂.ledger) : Keeps s t := by
            refine (reserveWindowAllowances_step hallow).keeps.trans
              ((reserveGrants_step hgrants).1.keeps.trans ((Keeps.of_same hrows hledger).trans
                (insertRows_keeps (fun row hrow => ?_) hinsert)))
            rw [List.mem_singleton.mp hrow]
            exact ⟨fun _ => rfl, fun _ => rfl⟩
          dsimp only at h
          split at h
          · obtain ⟨s₃, hpure, h⟩ := bind_eq_ok.mp h
            cases hpure
            obtain ⟨s₄, hinsert, h⟩ := bind_eq_ok.mp h
            cases h
            exact hfinish _ _ _ hinsert rfl rfl
          · obtain ⟨available, -, h⟩ := bind_eq_ok.mp h
            split at h
            · obtain ⟨s₃, hrefused, -⟩ := bind_eq_ok.mp h
              cases hrefused
            · obtain ⟨_, -, h⟩ := bind_eq_ok.mp h
              obtain ⟨_, -, h⟩ := bind_eq_ok.mp h
              obtain ⟨s₃, hpure, h⟩ := bind_eq_ok.mp h
              cases hpure
              obtain ⟨s₄, hinsert, h⟩ := bind_eq_ok.mp h
              cases h
              exact hfinish _ _ _ hinsert rfl rfl

theorem appendExpiryItems_sound {owner void : Id} {items : List PurchasedCreditExpiryItem} {l m : Ledger}
    (hl : l.Sound) (h : appendExpiryItems owner void items l = .ok m) :
    m.Sound ∧ l.entries <:+ m.entries := by
  induction items generalizing l with
  | nil =>
    cases h
    exact ⟨hl, List.suffix_refl _⟩
  | cons item items ih =>
    obtain ⟨mid, hmid, h⟩ := bind_eq_ok.mp h
    obtain ⟨hsound, hsuffix⟩ := hl.append hmid
    obtain ⟨hm, hsuffix'⟩ := ih hsound h
    exact ⟨hm, hsuffix.trans hsuffix'⟩

theorem applyProviderSnapshot_keeps {env : Env} {owner walletId : Id} {balance : Credits}
    {expiry : Option PurchasedCreditExpiryOperation} {outcome : Option WalletRefreshOutcome}
    (h : applyProviderSnapshot env owner walletId balance expiry s = .ok (outcome, t)) : Keeps s t := by
  unfold applyProviderSnapshot at h
  split at h
  · cases h
    exact .of_same rfl rfl
  · split at h
    · cases h
      exact .of_same rfl rfl
    · obtain ⟨_, -, h⟩ := bind_eq_ok.mp h
      obtain ⟨_, -, h⟩ := bind_eq_ok.mp h
      obtain ⟨_, -, h⟩ := bind_eq_ok.mp h
      obtain ⟨_, -, h⟩ := bind_eq_ok.mp h
      obtain ⟨adjustment, -, h⟩ := bind_eq_ok.mp h
      obtain ⟨expired, hexpired, h⟩ := bind_eq_ok.mp h
      obtain ⟨ledger, hledger, h⟩ := bind_eq_ok.mp h
      cases h
      refine .of_ledger rfl fun hsound => ?_
      have hfirst : expired.Sound ∧ s.ledger.entries <:+ expired.entries := by
        unfold appendExpiry at hexpired
        split at hexpired
        · cases hexpired
          exact ⟨hsound, List.suffix_refl _⟩
        · split at hexpired
          · cases hexpired
          · exact appendExpiryItems_sound hsound hexpired
      unfold appendAdjustment at hledger
      split at hledger
      · cases hledger
        exact hfirst
      · obtain ⟨entry, -, hledger⟩ := bind_eq_ok.mp hledger
        obtain ⟨hlast, hsuffix⟩ := hfirst.1.append hledger
        exact ⟨hlast, hfirst.2.trans hsuffix⟩

theorem transact_keeps {α : Type} {body : Store → Except AppError (α × Store)}
    (h : ∀ a t, body s = .ok (a, t) → Keeps s t) : Keeps s (transact body s).2 := by
  unfold transact
  split
  · rename_i a t hbody
    exact h a t hbody
  · exact .of_same rfl rfl

/-- No operation of a billing worker undoes what rows and journal say. -/
theorem exec_keeps (digest : LagoCarry.Digest) (w : ℕ) (env : Env) {β : Type} (o : Op β) (s : Store) :
    Keeps s (exec digest w env o s).2 := by
  cases o with
  | updateRow id u =>
    rcases updateRow_cases s w env.now id u with
      ⟨-, hsame⟩ | ⟨row, hrow, hadm, hstep⟩
    · simp only [exec, hsame]
      exact .of_same rfl rfl
    · simp only [exec, hstep]
      exact .of_step hrow rfl rfl fun hok => ⟨RowUpdate.grows hok hadm, RowUpdate.ok hok hadm⟩
  | claimFunding id =>
    rcases claimFunding_cases digest w env id s with hsame | ⟨row, hrow, hclaim, hstep⟩
    · rw [hsame]
      exact .of_same rfl rfl
    · rw [hstep]
      exact .of_step hrow rfl rfl fun hok => setClaim_step hok hclaim
  | freezeRate id rate =>
    rcases freezeRate_cases digest w env id rate s with hsame | ⟨row, hrow, hclaim, hstep⟩
    · rw [hsame]
      exact .of_same rfl rfl
    · rw [hstep]
      exact .of_step hrow rfl rfl fun hok => freeze_step hok hclaim
  | settleWithoutWallet id claim fields =>
    rcases settleWithoutWallet_cases digest w env id claim fields s with
      hsame | ⟨row, hrow, -, hopen, hstep⟩
    · rw [hsame]
      exact .of_same rfl rfl
    · rw [hstep]
      exact .of_step hrow rfl rfl fun hok => commit_step hok hopen
  | commitCarry id row wallet rate fields =>
    rcases commitCarry_cases digest w env id row wallet rate fields s with
      ⟨e, hsame⟩ | ⟨saved, -, -, hsame⟩ | ⟨saved, quantity, carryId, carries, hsaved, hopen, -, -, hstep⟩
    · rw [hsame]
      exact .of_same rfl rfl
    · rw [hsame]
      exact .of_same rfl rfl
    · rw [hstep]
      exact .of_step hsaved rfl rfl fun hok => commit_step hok hopen
  | reserve ctx walletId subscription layers grants =>
    exact transact_keeps fun _ _ h => reserveTransaction_keeps h
  | reserveWindow window => exact transact_keeps fun _ _ h => reserveRuntimeWindow_keeps h
  | releaseUnknown request expiredAt => exact transact_keeps fun _ _ h => releaseUnknownRequest_keeps h
  | cancelManaged execution provenUnsent rows =>
    refine transact_keeps fun _ _ h => ?_
    obtain ⟨mid, hmid, h⟩ := bind_eq_ok.mp h
    cases h
    exact cancelManagedRows_keeps hmid
  | providerSnapshot owner walletId balance expiry =>
    exact transact_keeps fun _ _ h => applyProviderSnapshot_keeps h
  | appendLedger entry =>
    simp only [exec, Store.appendLedger]
    split
    · rename_i ledger happend
      exact .of_ledger rfl fun hsound => hsound.append happend
    · exact .of_same rfl rfl
  | updateWallet owner walletId u =>
    simp only [exec, Store.updateWallet]
    split <;> (try split) <;> exact .of_same rfl rfl
  | updatePeriod id u =>
    simp only [exec, Store.updatePeriod]
    split <;> (try split) <;> exact .of_same rfl rfl
  | updateGrant id u =>
    simp only [exec, Store.updateGrant]
    split <;> (try split) <;> exact .of_same rfl rfl
  | insertGrant id grant =>
    simp only [exec]
    split <;> exact .of_same rfl rfl
  | lockAllowance row claim release id lock honor =>
    simp only [exec, Store.lockAllowance]
    repeat' split
    all_goals exact .of_same rfl rfl
  | lockGrant row claim release id lock honor =>
    simp only [exec, Store.lockGrant]
    repeat' split
    all_goals exact .of_same rfl rfl
  | _ => exact .of_same rfl rfl

/-! ### Runs -/

variable {digest : LagoCarry.Digest} {provider : Provider}

theorem next_keeps (c : (machine digest provider).Config) (ch : (machine digest provider).Choice) :
    Keeps c.store (c.next ch).store := by
  cases ch with
  | spawn e => exact .of_same rfl rfl
  | step w env out =>
    simp only [Config.next]
    split
    · rename_i p hp
      cases p with
      | ret r => exact .of_same rfl rfl
      | call o k =>
        cases out with
        | done => exact exec_keeps digest w env o c.store
        | lost => exact exec_keeps digest w env o c.store
        | failed => exact .of_same rfl rfl
        | crash => exact .of_same rfl rfl
    · exact .of_same rfl rfl

theorem schedule_keeps (schedule : List (machine digest provider).Choice)
    (c : (machine digest provider).Config) : Keeps c.store (schedule.foldl Config.next c).store := by
  induction schedule generalizing c with
  | nil => exact .of_same rfl rfl
  | cons ch rest ih => exact (next_keeps c ch).trans (ih (c.next ch))

theorem run_lawful {s : Store} (hrows : s.rows = ∅) (hledger : s.ledger = ⟨[], ∅⟩)
    (schedule : List (machine digest provider).Choice) : Lawful (run s schedule).store := by
  have hs : Lawful s := by
    refine ⟨fun id row hrow => ?_, fun i j row other hrow => ?_, ?_⟩
    · rw [hrows, AList.lookup_empty] at hrow
      cases hrow
    · rw [hrows, AList.lookup_empty] at hrow
      intro _ _
      cases hrow
    · rw [hledger]
      exact ⟨rfl, List.nodup_nil, fun e he => absurd he List.not_mem_nil, fun account _ => ⟨rfl, rfl⟩⟩
  exact (schedule_keeps schedule ⟨s, []⟩ hs).1

/-- Whatever billing workers run in whatever order, with answers lost and workers stopped anywhere:
the journal is numbered without gaps, balanced, free of repeated keys and agrees with its checkpoints,
what it says at one time it says ever after; no component of a request is metered twice; and a row
that is there stays, with its payer, its measured quantity and, once it is settled, the outcome. -/
theorem billed_once (digest : LagoCarry.Digest) (provider : Provider) {s : Store} (hrows : s.rows = ∅)
    (hledger : s.ledger = ⟨[], ∅⟩) (before after : List (machine digest provider).Choice) :
    (run s before).store.ledger.Sound ∧
      (run s before).store.ledger.entries <:+ (run s (before ++ after)).store.ledger.entries ∧
      MeteredOnce (run s before).store ∧
      ∀ id row, (run s before).store.rows.lookup id = some row →
        ∃ later, (run s (before ++ after)).store.rows.lookup id = some later ∧ RowGrows row later := by
  have hbefore := run_lawful hrows hledger before
  obtain ⟨-, hgrows⟩ := schedule_keeps after (run s before) hbefore
  have hrun : run s (before ++ after) = after.foldl Config.next (run s before) := List.foldl_append
  rw [hrun]
  exact ⟨hbefore.ledger, hgrows.entries, hbefore.metered, hgrows.rows⟩

def noBilling : Store := ⟨∅, ∅, ∅, ∅, ∅, ∅, ∅, ⟨[], ∅⟩, ∅, []⟩

def sampleProvider : Provider := ⟨id, Function.injective_id⟩

def sampleAllocation : IssueCreditGrant where
  recipientUserId := 1
  amount := ⟨1, Credits.one_inRange⟩
  scope := ⟨true, [], []⟩
  serviceLimits := []
  expiresAt := none

/-- A grant is issued; the answer to its journal entry is lost, and the worker goes on to read it back. -/
def lostIssue : List (machine (fun _ => "") sampleProvider).Choice :=
  .spawn (.issueGrant 7 sampleAllocation) ::
    ([.done, .done, .done, .lost].map fun out => .step 0 { now := 5 } out)

/-- The sweep that catches up with the journal finds the entry there. -/
def catchUp : List (machine (fun _ => "") sampleProvider).Choice :=
  .spawn (.recoverUnledgered 7) :: List.replicate 4 (.step 1 { now := 9 } .done)

theorem billed_once_issue :
    (run noBilling lostIssue).store.ledger.entries.length = 1 ∧
      (run noBilling lostIssue).store.ledger.Sound ∧
      (run noBilling lostIssue).store.ledger.entries <:+
        (run noBilling (lostIssue ++ catchUp)).store.ledger.entries :=
  have h := billed_once (fun _ => "") sampleProvider rfl rfl lostIssue catchUp (s := noBilling)
  ⟨by decide, h.1, h.2.1⟩

/-- The account check of a wallet without work in progress finds a mismatch exactly where the wallet
differs from what the journal has posted to it: no checkpoint is ever behind or wrong. -/
theorem reconciled_exactly (digest : LagoCarry.Digest) (provider : Provider) {s : Store}
    (hrows : s.rows = ∅) (hledger : s.ledger = ⟨[], ∅⟩) (schedule : List (machine digest provider).Choice)
    {owner : Id} {wallet : BillingWallet} {mismatch : Bool}
    (hwallet : (run s schedule).store.wallets.lookup owner = some wallet) (hidle : deferred wallet = false)
    (h : walletMismatch (run s schedule).store owner = .ok mismatch) :
    mismatch = true ↔ wallet.balanceCredits.pico - wallet.pendingLagoDebits ≠
      (run s schedule).store.ledger.posted (.wallet owner) := by
  obtain ⟨hbalance, hthrough⟩ := (run_lawful hrows hledger schedule).ledger.checked (.wallet owner) rfl
  simp only [walletMismatch, hwallet, hidle] at h
  obtain ⟨pending, hpending, h⟩ := bind_eq_ok.mp h
  obtain ⟨stored, hstored, h⟩ := bind_eq_ok.mp h
  have hpico := Credits.fromPico_eq_some.mp (creditsOrError_eq_ok hpending)
  have hsum := Credits.checkedSub_eq_some.mp (creditsOrError_eq_ok hstored)
  cases h
  rw [← hbalance, hpico, hsum]
  simp only [hthrough, Credits.ext_iff, ne_eq, Bool.or_eq_true, decide_eq_true_eq, not_true, or_false]

def unjournaledWallet : BillingWallet :=
  ⟨10, none, .prepaid, ⟨1, Credits.one_inRange⟩, 0, 0, .zero, false, .zero, false, none, none, 0⟩

def unjournaled : Store := { noBilling with wallets := AList.singleton 1 unjournaledWallet }

/-- The provider has four; the three more than the stored one are posted. -/
def refreshedByThree : List (machine (fun _ => "") sampleProvider).Choice :=
  .spawn (.refreshBalance 1 10 ⟨4, by decide⟩) :: List.replicate 2 (.step 0 { now := 5 } .done)

theorem unjournaled_reconciled :
    (run unjournaled refreshedByThree).store.ledger.posted (.wallet 1) = 3 ∧
      4 ≠ (run unjournaled refreshedByThree).store.ledger.posted (.wallet 1) :=
  have hwallet : (run unjournaled refreshedByThree).store.wallets.lookup 1 =
      some { unjournaledWallet with balanceCredits := ⟨4, by decide⟩, updatedAt := 5 } := by decide
  have hfound : walletMismatch (run unjournaled refreshedByThree).store 1 = .ok true := by decide
  ⟨by decide,
    (reconciled_exactly (fun _ => "") sampleProvider rfl rfl refreshedByThree hwallet rfl hfound).mp rfl⟩

end NyxId.Billing
