import NyxId.SettlementIntent.Workers

/-!
The code of the workers under every schedule. What a worker has read of a row or an intent
stays true while the others run, and that is what each of its later operations needs.
-/

namespace NyxId.SettlementIntent

open Interleave Machine

variable {digest : ModelChargeVector → String} {pooled : Id → Bool} {funds : Collection Id ℤ}
  {s t : Store} {w : ℕ}

section

variable (digest pooled funds) in
def discipline : Discipline (machine digest) where
  Cond := anyStep
  Inv := Inv pooled funds
  Rely := fun _ => Evolves
  Idle := fun _ _ => True
  Fresh := fun _ _ => True
  rely_refl := fun _ => Evolves.refl
  rely_trans := fun _ _ _ _ => Evolves.trans
  idle_stable := fun _ _ _ _ _ => trivial
  fresh_stable := fun _ _ _ _ _ => trivial

variable {α : Type}

variable (digest pooled funds) in
/-- Code that ends with an error or as said. -/
abbrev Runs (w : ℕ) (p : Code α) (Q : α → Store → Prop) (s : Store) : Prop :=
  (discipline digest pooled funds).wp w p Q (fun _ _ => True) s

variable (digest pooled funds) in
/-- Code of which only the discipline is asked. -/
abbrev Ends (w : ℕ) (p : Code α) (s : Store) : Prop :=
  Runs digest pooled funds w p (fun _ _ => True) s

theorem guar_iff : (discipline digest pooled funds).Guar w s t ↔ Keeps pooled funds s t := by
  constructor
  · rintro ⟨hinv, hrely⟩
    exact ⟨hinv, hrely (w + 1) (Nat.succ_ne_self w)⟩
  · rintro ⟨hinv, hevolves⟩
    exact ⟨hinv, fun _ _ => hevolves⟩

/-- After an operation the worker goes on as proved or has failed. -/
theorem step_intro {β : Type} {o : Op β} {Q : β → Store → Prop} {env : Env}
    (hkeeps : Keeps pooled funds s (exec digest env o s).2)
    (hQ : Q (exec digest env o s).1 (exec digest env o s).2) :
    (discipline digest pooled funds).Step w o Q (fun _ => True) s env :=
  ⟨fun _ => ⟨guar_iff.mpr hkeeps, hQ⟩, fun _ => ⟨guar_iff.mpr hkeeps, trivial⟩, fun _ => trivial,
    fun _ => trivial⟩

/-- A row as it was once read. -/
def Seen (e : Id × MeterRow) (s : Store) : Prop :=
  ∃ row, s.rows.lookup e.1 = some row ∧ SameRow e.2 row

theorem Seen.evolves {e : Id × MeterRow} (h : Seen e s) (hst : Evolves s t) : Seen e t := by
  obtain ⟨row, hrow, hsame⟩ := h
  obtain ⟨events, hmoved, -⟩ := hst
  obtain ⟨row', hrow', hmoves⟩ := hmoved.forth hrow
  exact ⟨row', hrow', hsame.trans hmoves.same⟩

theorem Seen.same {e : Id × MeterRow} (h : Seen e s) {row : MeterRow}
    (hrow : s.rows.lookup e.1 = some row) : SameRow e.2 row := by
  obtain ⟨found, hfound, hsame⟩ := h
  rw [hrow] at hfound
  cases hfound
  exact hsame

/-- A row as it was once read, with the intent that it had. -/
structure SeenIntent (e : Id × MeterRow) (s : Store) : Prop where
  seen : Seen e s
  recorded : ∀ usage, e.2.pendingPlatformUsage = some usage → Recorded s e.2.billingRequestId usage

theorem SeenIntent.evolves {e : Id × MeterRow} (h : SeenIntent e s) (hst : Evolves s t) :
    SeenIntent e t where
  seen := h.seen.evolves hst
  recorded usage husage := by
    obtain ⟨events, hmoved, -⟩ := hst
    exact (h.recorded usage husage).move hmoved

theorem Inv.seenIntent (hinv : Inv pooled funds s) {e : Id × MeterRow}
    (h : s.rows.lookup e.1 = some e.2) : SeenIntent e s where
  seen := ⟨e.2, h, SameRow.refl e.2⟩
  recorded usage husage := (hinv.pending _ _ usage h husage).2

theorem Inv.seen_select (hinv : Inv pooled funds s) {p : MeterRow → Bool} :
    ∀ e ∈ select p s, SeenIntent e s :=
  fun _ he => hinv.seenIntent (mem_select.mp he).1

theorem seen_all_evolves {rows : List (Id × MeterRow)} (h : ∀ e ∈ rows, SeenIntent e s)
    (hst : Evolves s t) : ∀ e ∈ rows, SeenIntent e t :=
  fun e he => (h e he).evolves hst

theorem Quantified.evolves {request : Id} {layer : BillingLayer} (h : Quantified s request layer)
    (hst : Evolves s t) : Quantified t request layer := by
  obtain ⟨events, hmoved, -⟩ := hst
  exact h.move hmoved

/-- The row of a key has a quantity. -/
def HasQuantity (id : Id) (s : Store) : Prop :=
  ∀ row, s.rows.lookup id = some row → row.quantity.isSome

theorem HasQuantity.evolves {id : Id} (h : HasQuantity id s) (hst : Evolves s t) :
    HasQuantity id t := by
  intro row' hrow'
  obtain ⟨events, hmoved, -⟩ := hst
  obtain ⟨row, hrow, hmoves⟩ := hmoved.back hrow'
  obtain ⟨q, hq⟩ := Option.isSome_iff_exists.mp (h row hrow)
  rw [hmoves.quantity q hq]
  rfl

/-- Rows that were read are all those of a layer of the request. -/
def Complete (rows : List (Id × MeterRow)) (request : Id) (layer : BillingLayer) (s : Store) : Prop :=
  ∀ id row, s.rows.lookup id = some row → row.billingRequestId = request → row.layer = layer →
    ∃ e ∈ rows, e.1 = id

theorem Complete.evolves {rows : List (Id × MeterRow)} {request : Id} {layer : BillingLayer}
    (h : Complete rows request layer s) (hst : Evolves s t) : Complete rows request layer t := by
  intro id row' hrow' hrequest hlayer
  obtain ⟨events, hmoved, -⟩ := hst
  obtain ⟨row, hrow, hmoves⟩ := hmoved.back hrow'
  exact h id row hrow (hmoves.same.request.symm.trans hrequest)
    (hmoves.same.layer.symm.trans hlayer)

/-- Code after code, with what the first has established. -/
theorem wp_then {β : Type} {p : Code α} {f : α → Code β} {Q : α → Store → Prop}
    {Q' : β → Store → Prop} (hinv : Inv pooled funds s)
    (hp : Runs digest pooled funds w p Q s)
    (hf : ∀ a t, Inv pooled funds t → Q a t → Runs digest pooled funds w (f a) Q' t) :
    Runs digest pooled funds w (p.bind f) Q' s :=
  Discipline.wp_seq hinv hp hf

theorem findRows_wp {p : MeterRow → Bool} {f : List (Id × MeterRow) → Code α}
    {Q : α → Store → Prop} (h : ∀ t, Evolves s t → Inv pooled funds t →
      Runs digest pooled funds w (f (select p t)) Q t) :
    Runs digest pooled funds w ((Prog.perform (.findRows p)).bind f) Q s := by
  apply Discipline.wp_perform
  intro t env hst ht
  exact step_intro (Keeps.refl ht) (h t hst ht)

/-- A stable fact is carried past any code. -/
theorem wp_stable {Q : α → Store → Prop} {R : Store → Prop}
    (hstable : ∀ s t, Evolves s t → R s → R t) {p : Code α} (hinv : Inv pooled funds s) (hR : R s)
    (h : Runs digest pooled funds w p Q s) :
    Runs digest pooled funds w p (fun a t => Q a t ∧ R t) s := by
  apply Discipline.wp_mono (D := discipline digest pooled funds) (fun _ _ _ h => h)
    (fun _ _ _ _ => trivial) p s hinv
  exact Discipline.wp_frame (D := discipline digest pooled funds)
    (fun s t hst => hstable s t hst) (fun s t hst => hstable s t (guar_iff.mp hst).2) hR h

end

section

theorem clearPendingResaleIntent_wp {e : Id × MeterRow} (hseen : Seen e s) (quantity : ℤ)
    (model : Option String) : Ends digest pooled funds w
      (clearPendingResaleIntent e.1 e.2.billingRequestId quantity model) s := by
  unfold clearPendingResaleIntent
  apply Discipline.wp_perform
  intro t env hst ht
  refine step_intro (Keeps.refl ht) ?_
  split
  · rename_i hmaterialized
    intro u env' htu hu
    -- the resale row of the request is unique, and it was found with a quantity
    have hall : Quantified t e.2.billingRequestId .resale := by
      intro id row hrow hrequest hlayer
      have hne : (select (fun row => row.billingRequestId = e.2.billingRequestId &&
          row.layer = .resale && (row.status = .finalized || row.status = .failed ||
          row.status = .deadLetter) && row.quantity = some quantity && row.model = model) t) ≠ [] := by
        intro hnil
        simp only [exec, hnil] at hmaterialized
        cases hmaterialized
      obtain ⟨⟨other, found⟩, hmem⟩ := List.exists_mem_of_ne_nil _ hne
      obtain ⟨hfound, hfilter⟩ := mem_select.mp hmem
      simp only [Bool.and_eq_true, decide_eq_true_eq] at hfilter
      obtain ⟨⟨⟨⟨hfoundRequest, hfoundLayer⟩, -⟩, hquantity⟩, -⟩ := hfilter
      have hok := ht.rows _ _ hrow
      have hfoundOk := ht.rows _ _ hfound
      have htid : row.transactionId = found.transactionId := by
        have hcomponent := hok.resale hlayer
        have hfoundComponent := hfoundOk.resale hfoundLayer
        have hrowLayer := hok.layer
        have hrowRequest := hok.request
        have hfoundTidLayer := hfoundOk.layer
        have hfoundTidRequest := hfoundOk.request
        cases hrowTid : row.transactionId
        cases hfoundTid : found.transactionId
        simp only [hrowTid] at hcomponent hrowLayer hrowRequest
        simp only [hfoundTid] at hfoundComponent hfoundTidLayer hfoundTidRequest
        rw [hcomponent, hrowLayer, hrowRequest, hfoundComponent, hfoundTidLayer, hfoundTidRequest,
          hrequest, hfoundRequest, hlayer, hfoundLayer]
      obtain rfl := ht.unique _ _ _ _ hrow hfound htid
      rw [hrow] at hfound
      cases hfound
      rw [hquantity]
      rfl
    refine step_intro (unsetResale_keeps hu env' quantity fun row hrow => ?_) trivial
    rw [((hseen.evolves hst).evolves htu).same hrow |>.request]
    exact hall.evolves htu
  · trivial

theorem materializePendingResaleIntent_wp {e : Id × MeterRow} (hseen : Seen e s) :
    Ends digest pooled funds w (materializePendingResaleIntent e) s := by
  unfold materializePendingResaleIntent
  split
  · trivial
  · rename_i quantity hquantity
    apply Discipline.wp_perform
    intro t env hst ht
    have hkeeps : Keeps pooled funds t (exec digest env (.finalizeTransaction
        (transactionId e.2.billingRequestId .resale) ⟨quantity, e.2.model, e.2.reportedModel, none,
          e.2.settlementTime⟩) t).2 :=
      finalizeTransaction_keeps ht env _ _
    refine step_intro hkeeps ?_
    apply wp_then hkeeps.1
      (clearPendingResaleIntent_wp ((hseen.evolves hst).evolves hkeeps.2) quantity e.2.model)
    exact fun _ _ _ _ => trivial

theorem hasQuantity_of_finalizeComponent {env : Env} {id : Id} {usage : PlatformUsage}
    {final : Final} {finalized : Id × MeterRow}
    (h : (exec digest env (.finalizeComponent id usage final) s).1 = some finalized) :
    HasQuantity id (exec digest env (.finalizeComponent id usage final) s).2 := by
  revert h
  simp only [exec]
  split
  · split
    · intro _ found hfound
      simp only [Store.write, AList.lookup_insert, Option.some.injEq] at hfound
      rw [← hfound]
      rfl
    · intro h
      cases h
  · intro h
    cases h

theorem hasQuantity_of_findFinalized {env : Env} {id : Id} {fresh : MeterRow}
    (h : (exec digest env (.findFinalized id) s).1 = some fresh) : HasQuantity id s := by
  intro row hrow
  simp only [exec, hrow] at h
  exact (Option.filter_eq_some_iff.mp h).2 |> fun hsome => by
    obtain ⟨heq, -⟩ := Option.filter_eq_some_iff.mp h
    cases heq
    exact hsome

theorem finalizeComponents_wp {coordinator : Id × MeterRow} {usage : PlatformUsage}
    {request : Id} {rows : List (Id × MeterRow)} (hrecorded : Recorded s request usage)
    (hseen : ∀ e ∈ rows, Seen e s ∧ e.2.billingRequestId = request) :
    Runs digest pooled funds w (finalizeComponents coordinator usage rows)
      (fun _ t => ∀ e ∈ rows, HasQuantity e.1 t) s := by
  induction rows generalizing s with
  | nil => exact fun e he => (nomatch he)
  | cons e rest ih =>
    obtain ⟨id, row⟩ := e
    obtain ⟨⟨hfirst, hrequest⟩, hrest⟩ := List.forall_mem_cons.mp hseen
    -- the others' knowledge, in any later state
    have hlater : ∀ t, Inv pooled funds t → Evolves s t → HasQuantity id t →
        ∀ finalized : Id × MeterRow, Runs digest pooled funds w
          (do let others ← finalizeComponents coordinator usage rest
              return finalized :: others)
          (fun _ t => ∀ e ∈ (id, row) :: rest, HasQuantity e.1 t) t := by
      intro t ht hst hquantity finalized
      have hrecordedT : Recorded t request usage := by
        obtain ⟨events, hmoved, -⟩ := hst
        exact hrecorded.move hmoved
      apply wp_then ht (wp_stable (fun _ _ hst h => h.evolves hst) ht hquantity
        (ih hrecordedT fun e he => ⟨(hrest e he).1.evolves hst, (hrest e he).2⟩))
      rintro _ u - ⟨hothers, hhead⟩
      exact List.forall_mem_cons.mpr ⟨hhead, hothers⟩
    apply Discipline.wp_perform
    intro t env hst ht
    have hkeeps : Keeps pooled funds t (exec digest env (.finalizeComponent id usage
        ⟨componentQuantity usage row, coordinator.2.model, usage.reportedModel, none,
          coordinator.2.settlementTime⟩) t).2 := by
      apply finalizeComponent_keeps ht env
      intro found hfound
      have hsame := (hfirst.evolves hst).same hfound
      refine ⟨?_, (hsame.componentQuantity_eq usage).symm⟩
      rw [hsame.request, hrequest]
      obtain ⟨events, hmoved, -⟩ := hst
      exact hrecorded.move hmoved
    refine step_intro hkeeps ?_
    split
    · rename_i finalized hanswer
      exact hlater _ hkeeps.1 (hst.trans hkeeps.2) (hasQuantity_of_finalizeComponent hanswer) _
    · apply Discipline.wp_perform
      intro u env' htu hu
      refine step_intro (Keeps.refl hu) ?_
      split
      · rename_i fresh hfresh
        exact hlater _ hu ((hst.trans hkeeps.2).trans htu) (hasQuantity_of_findFinalized hfresh) _
      · trivial

theorem materializeComponentIntent_wp {e : Id × MeterRow} (h : SeenIntent e s) :
    Ends digest pooled funds w (materializeComponentIntent e) s := by
  unfold materializeComponentIntent
  split
  · trivial
  · rename_i usage husage
    apply findRows_wp
    intro t hst ht
    have hseen := h.evolves hst
    split
    · trivial
    · have hrows : ∀ row ∈ select (fun row => row.billingRequestId = e.2.billingRequestId &&
          row.layer = .platform) t, Seen row t ∧ row.2.billingRequestId = e.2.billingRequestId := by
        intro row hmem
        obtain ⟨hrow, hfilter⟩ := mem_select.mp hmem
        simp only [Bool.and_eq_true, decide_eq_true_eq] at hfilter
        exact ⟨(ht.seenIntent hrow).seen, hfilter.1⟩
      have hcomplete : Complete (select (fun row =>
          row.billingRequestId = e.2.billingRequestId && row.layer = .platform) t)
          e.2.billingRequestId .platform t := by
        intro id row hrow hrequest hlayer
        exact ⟨(id, row), mem_select.mpr ⟨hrow, by simp [hrequest, hlayer]⟩, rfl⟩
      have hcomponents : Runs digest pooled funds w (finalizeComponents e usage
          (select (fun row => row.billingRequestId = e.2.billingRequestId &&
            row.layer = .platform) t)) _ t :=
        finalizeComponents_wp (hseen.recorded usage husage) hrows
      have hfinalize := wp_stable
        (R := fun u => Complete (select (fun row =>
          row.billingRequestId = e.2.billingRequestId && row.layer = .platform) t)
          e.2.billingRequestId .platform u ∧ Seen e u)
        (fun _ _ hst h => ⟨h.1.evolves hst, h.2.evolves hst⟩) ht ⟨hcomplete, hseen.seen⟩
        hcomponents
      apply wp_then ht hfinalize
      rintro finalized u hu ⟨hquantities, hcompleteU, hseenU⟩
      have hall : Quantified u e.2.billingRequestId .platform := by
        intro id row hrow hrequest hlayer
        obtain ⟨found, hfound, rfl⟩ := hcompleteU id row hrow hrequest hlayer
        exact hquantities found hfound row hrow
      have hpending : Ends digest pooled funds w (materializePendingResaleIntent e) u :=
        materializePendingResaleIntent_wp hseenU
      have hresale := wp_stable
        (R := fun v => Quantified v e.2.billingRequestId .platform ∧ Seen e v)
        (fun _ _ hst h => ⟨h.1.evolves hst, h.2.evolves hst⟩) hu ⟨hall, hseenU⟩
        hpending
      apply wp_then hu hresale
      rintro resale v hv ⟨-, hallV, hseenV⟩
      apply Discipline.wp_perform
      intro x env' hvx hx
      refine step_intro (unsetUsage_keeps hx env' fun row hrow => ?_) trivial
      rw [((hseenV.evolves hvx).same hrow).request]
      exact hallV.evolves hvx

theorem settlePersisted_wp (rows : List (Id × MeterRow)) :
    Ends digest pooled funds w (settlePersisted rows) s := by
  induction rows generalizing s with
  | nil => trivial
  | cons e rest ih =>
    apply Discipline.wp_perform
    intro t env _ ht
    exact step_intro (settleRow_keeps ht env e.1) ih

/-- A coordinator was finalized just now or read again; either way it is a row as it was. -/
theorem resaleCoordinator_wp (request : Id) {finalized : Option (Id × MeterRow)}
    (hseen : ∀ e, finalized = some e → Seen e s) :
    Runs digest pooled funds w (resaleCoordinator request finalized)
      (fun found t => ∀ e, found = some e → Seen e t) s := by
  unfold resaleCoordinator
  split
  · exact hseen
  · apply findRows_wp
    intro t _ ht e he
    exact (ht.seen_select e (List.mem_of_mem_head? he)).seen

theorem seen_of_finalizeTransaction {env : Env} {tid : TransactionId}
    {final : Final} {e : Id × MeterRow}
    (h : (exec digest env (.finalizeTransaction tid final) s).1 = some e) :
    Seen e (exec digest env (.finalizeTransaction tid final) s).2 := by
  revert h
  simp only [exec]
  split
  · split
    · intro h
      cases h
      exact ⟨_, AList.lookup_insert _, SameRow.refl _⟩
    · intro h
      cases h
  · intro h
    cases h

theorem persistLayers_wp (ctx : BillingRouteContext) (platform : PlatformUsage) (resale : Option ℤ)
    (model : Option String) : Ends digest pooled funds w (persistLayers ctx platform resale model) s := by
  unfold persistLayers
  apply Discipline.wp_perform
  intro t env _ ht
  refine step_intro (Keeps.refl ht) ?_
  dsimp only
  split
  · apply Discipline.wp_perform
    intro u env' _ hu
    have hkeeps : ∀ final, Keeps pooled funds u (exec digest env' (.finalizeTransaction
        (transactionId ctx.billingRequestId .platform) final) u).2 :=
      finalizeTransaction_keeps hu env' _
    refine step_intro (hkeeps _) ?_
    apply wp_then (hkeeps _).1
      (resaleCoordinator_wp ctx.billingRequestId fun e he => seen_of_finalizeTransaction he)
    intro coordinator v hv hseen
    split
    · apply wp_then hv (materializePendingResaleIntent_wp (hseen _ rfl))
      exact fun _ _ _ _ => trivial
    · trivial
  · apply Discipline.wp_perform
    intro u env' _ hu
    exact step_intro (finalizeTransaction_keeps hu env' _ _) trivial
  · apply Discipline.wp_perform
    intro u env' _ hu
    exact step_intro (finalizeTransaction_keeps hu env' _ _) trivial
  · trivial

theorem saveComponentIntent_wp (ctx : BillingRouteContext) (platform : PlatformUsage)
    (resale : Option ℤ) (model : Option String) :
    Runs digest pooled funds w (saveComponentIntent digest ctx platform resale model)
      (fun saved t => ∀ e, saved = some e → SeenIntent e t) s := by
  unfold saveComponentIntent
  apply Discipline.wp_perform
  intro t env _ ht
  refine step_intro (saveIntent_keeps ht env _ _ _ _) ?_
  apply Discipline.wp_perform
  intro u env' _ hu
  refine step_intro (Keeps.refl hu) ?_
  have hfound : ∀ e, findTransaction (transactionId ctx.billingRequestId .platform) u = some e →
      SeenIntent e u := fun e he => hu.seenIntent (lookup_of_findTransaction he).1
  split
  · exact hfound
  · split
    · trivial
    · rename_i coordinator hsaved
      split
      · intro e he
        cases he
        exact hfound coordinator hsaved
      · trivial

theorem persistSettlementIntent_wp (ctx : BillingRouteContext) (platform : PlatformUsage)
    (resale : Option ℤ) (model : Option String) (hinv : Inv pooled funds s) :
    Ends digest pooled funds w (persistSettlementIntent digest ctx platform resale model) s := by
  unfold persistSettlementIntent
  split
  · trivial
  · dsimp only
    split
    · apply wp_then hinv (saveComponentIntent_wp ctx platform resale _)
      intro saved t ht hseen
      split
      · exact materializeComponentIntent_wp (hseen _ rfl)
      · trivial
    · exact persistLayers_wp ctx platform resale _

theorem recoverComponentIntents_wp {rows : List (Id × MeterRow)} (hinv : Inv pooled funds s)
    (hseen : ∀ e ∈ rows, SeenIntent e s) : Ends digest pooled funds w (recoverComponentIntents rows) s := by
  induction rows generalizing s with
  | nil => trivial
  | cons e rest ih =>
    obtain ⟨hfirst, hrest⟩ := List.forall_mem_cons.mp hseen
    apply wp_then hinv (wp_stable (fun _ _ hst h => seen_all_evolves h hst) hinv hrest
      (materializeComponentIntent_wp hfirst))
    rintro materialized t ht ⟨-, hrestT⟩
    apply wp_then ht (wp_stable (fun _ _ hst h => seen_all_evolves h hst) ht hrestT
      (settlePersisted_wp materialized))
    rintro - u hu ⟨-, hrestU⟩
    exact ih hu hrestU

theorem recoverResaleIntents_wp {rows : List (Id × MeterRow)} (hinv : Inv pooled funds s)
    (hseen : ∀ e ∈ rows, SeenIntent e s) : Ends digest pooled funds w (recoverResaleIntents rows) s := by
  induction rows generalizing s with
  | nil => trivial
  | cons e rest ih =>
    obtain ⟨hfirst, hrest⟩ := List.forall_mem_cons.mp hseen
    apply wp_then hinv (wp_stable (fun _ _ hst h => seen_all_evolves h hst) hinv hrest
      (materializePendingResaleIntent_wp hfirst.seen))
    rintro - t ht ⟨-, hrestT⟩
    exact ih ht hrestT

theorem recoverPendingResaleIntents_wp : Ends digest pooled funds w recoverPendingResaleIntents s := by
  unfold recoverPendingResaleIntents
  apply findRows_wp
  intro t _ ht
  apply wp_then ht (recoverComponentIntents_wp ht fun e he =>
    ht.seen_select e (List.mem_of_mem_take he))
  rintro - u hu -
  apply findRows_wp
  intro v _ hv
  exact recoverResaleIntents_wp hv fun e he => hv.seen_select e (List.mem_of_mem_take he)

theorem releaseUnknownRequest_wp (request : Id) (outcome : PoolAttemptOutcome)
    (expiredAt : Option Time) (attempts : ℕ) :
    Ends digest pooled funds w (releaseUnknownRequest request outcome expiredAt attempts) s := by
  induction attempts generalizing s with
  | zero => trivial
  | succ attempts ih =>
    apply Discipline.wp_perform
    intro t env _ ht
    refine step_intro (Keeps.refl ht) ?_
    apply Discipline.wp_perform
    intro u env' htu hu
    have hsnapshot : SnapshotOk pooled funds request
        (exec digest env (.beginRelease request) t).1 u := ⟨t, ht, htu, rfl⟩
    refine step_intro (commitRelease_keeps hu env' hsnapshot outcome expiredAt) ?_
    split
    · trivial
    · exact ih
    · trivial

theorem provided_wp {condition : Bool} {p : Code Unit}
    (h : Ends digest pooled funds w p s) : Ends digest pooled funds w (provided condition p) s := by
  unfold provided
  split
  · exact h
  · trivial

theorem finishRows_wp {rows : List (Id × MeterRow)} (hinv : Inv pooled funds s)
    (hseen : ∀ e ∈ rows, SeenIntent e s) : Ends digest pooled funds w (finishRows rows) s := by
  induction rows generalizing s with
  | nil => trivial
  | cons e rest ih =>
    obtain ⟨id, row⟩ := e
    have hcomponents : Ends digest pooled funds w (finishComponents (id, row)) s :=
      wp_then hinv (materializeComponentIntent_wp (hseen _ List.mem_cons_self))
        fun materialized _ _ _ => settlePersisted_wp materialized
    apply wp_then hinv (wp_stable (fun _ _ hst h => seen_all_evolves h hst) hinv hseen
      (provided_wp hcomponents))
    rintro - t ht ⟨-, hseenT⟩
    have hresale : Ends digest pooled funds w (finishResale (id, row)) t :=
      wp_then ht (materializePendingResaleIntent_wp (hseenT _ List.mem_cons_self).seen)
        fun materialized _ _ _ => settlePersisted_wp materialized.toList
    apply wp_then ht (wp_stable (fun _ _ hst h => seen_all_evolves h hst) ht hseenT
      (provided_wp hresale))
    rintro - u hu ⟨-, hseenU⟩
    apply wp_then hu (wp_stable (fun _ _ hst h => seen_all_evolves h hst) hu hseenU
      (provided_wp (settlePersisted_wp [(id, row)])))
    rintro - v hv ⟨-, hseenV⟩
    exact ih hv (List.forall_mem_cons.mp hseenV).2

theorem finish_wp (request : Id) (outcome : PoolAttemptOutcome) (attempts : ℕ) :
    Ends digest pooled funds w (finish request outcome attempts) s := by
  unfold finish
  apply findRows_wp
  intro t _ ht
  apply wp_then ht (finishRows_wp ht ht.seen_select)
  rintro - u hu -
  apply wp_then hu (releaseUnknownRequest_wp request outcome none attempts)
  exact fun _ _ _ _ => trivial

theorem releaseExpired_wp (now : Time) (attempts : ℕ) (requests : List Id)
    (hinv : Inv pooled funds s) : Ends digest pooled funds w (releaseExpired now attempts requests) s := by
  induction requests generalizing s with
  | nil => trivial
  | cons request rest ih =>
    have hrelease := Discipline.wp_attempt (D := discipline digest pooled funds) (w := w)
      (Q := fun _ _ => True) (E := fun _ _ => True) hinv
      (releaseUnknownRequest_wp request .unknown (some now) attempts)
    apply wp_then hinv hrelease
    exact fun _ _ ht _ => ih ht

theorem renewRows_wp (leaseUntil : Time) (rows : List (Id × MeterRow)) :
    Ends digest pooled funds w (renewRows leaseUntil rows) s := by
  induction rows generalizing s with
  | nil => trivial
  | cons e rest ih =>
    apply Discipline.wp_perform
    intro t env _ ht
    exact step_intro (renewRow_keeps ht env e.1 leaseUntil) ih

theorem renew_wp (request : Id) (leaseUntil : Time) :
    Ends digest pooled funds w (renew request leaseUntil) s := by
  unfold renew
  apply findRows_wp
  exact fun _ _ _ => renewRows_wp leaseUntil _

/-- The cursor of the sweep is no part of what the invariant speaks of. -/
theorem saveCursor_keeps (hinv : Inv pooled funds s) (env : Env) (cursor : PoolRecoveryCursor) :
    Keeps pooled funds s (exec digest env (.saveCursor cursor) s).2 := by
  have hmoved : Moved s { s with cursor := some cursor } [] := ⟨(Moved.refl s).rows, rfl⟩
  exact ⟨⟨hinv.unique, hinv.rows, hinv.releases, hinv.wallets, hinv.single, hinv.intents,
    hinv.pending, hinv.closed, hinv.kept, hinv.components, hinv.usageRemoved, hinv.resaleRemoved⟩,
    [], hmoved, fun _ _ _ h => (nomatch h)⟩

theorem recoverExpired_wp (now : Time) (attempts : ℕ) :
    Ends digest pooled funds w (recoverExpired now attempts) s := by
  unfold recoverExpired
  apply Discipline.wp_perform
  intro t env _ ht
  refine step_intro (Keeps.refl ht) ?_
  apply findRows_wp
  intro u _ hu
  apply wp_then hu (releaseExpired_wp now attempts _ hu)
  rintro - v hv -
  intro x env' _ hx
  exact step_intro (saveCursor_keeps hx env' _) trivial

theorem sequential : (discipline digest pooled funds).Sequential := by
  intro w entry s hinv _
  cases entry with
  | persist ctx platform resale model =>
    exact wp_then hinv (persistSettlementIntent_wp ctx platform resale model hinv)
      fun _ _ _ _ => trivial
  | settle ctx platform resale model =>
    exact wp_then hinv (persistSettlementIntent_wp ctx platform resale model hinv)
      fun persisted _ _ _ => settlePersisted_wp persisted
  | recoverIntents => exact recoverPendingResaleIntents_wp
  | finish request outcome attempts => exact finish_wp request outcome attempts
  | recoverExpired now attempts => exact recoverExpired_wp now attempts
  | renew request leaseUntil => exact renew_wp request leaseUntil

/-- The rows of requests as they are opened, before anything is known of their usage. -/
structure Opened (pooled : Id → Bool) (s : Store) : Prop where
  history : s.history = []
  unique : ∀ id row id' row', s.rows.lookup id = some row → s.rows.lookup id' = some row' →
    row.transactionId = row'.transactionId → id = id'
  rows : ∀ id row, s.rows.lookup id = some row → RowOk pooled row ∧ row.status ≠ .abandoned ∧
    row.pendingPlatformUsage = none

theorem Opened.inv (h : Opened pooled s) : Inv pooled s.wallets s := by
  have hnone (e : Event) : e ∉ s.history := by
    rw [h.history]
    exact List.not_mem_nil
  refine ⟨h.unique, fun id row hrow => (h.rows id row hrow).1, fun id row hrow => ?_,
    fun owner => ?_, fun _ _ _ _ _ hmem => absurd hmem (hnone _), fun _ _ _ hmem => absurd hmem (hnone _),
    fun id row usage hrow hpending => ?_, fun id row _ _ hrow hstatus => ?_,
    fun _ _ _ _ _ hmem => absurd hmem (hnone _), fun _ _ hmem => absurd hmem (hnone _),
    fun _ hmem => absurd hmem (hnone _), fun _ hmem => absurd hmem (hnone _)⟩
  · unfold ReleaseOk
    rw [h.history, if_neg (h.rows id row hrow).2.1]
    rfl
  · rw [h.history]
    exact map_wallet_zero owner s
  · rw [(h.rows id row hrow).2.2] at hpending
    cases hpending
  · exact absurd hstatus (h.rows id row hrow).2.1

theorem inv_of_reaches (hs : Opened pooled s) {c : (machine digest).Config}
    (hc : Reaches anyStep s c) : Inv pooled s.wallets c.store :=
  (sequential.sound (D := discipline digest pooled s.wallets) hs.inv (fun _ => trivial) hc).inv

end

end NyxId.SettlementIntent
