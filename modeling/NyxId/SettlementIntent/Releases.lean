import NyxId.SettlementIntent.Invariant

/-!
The release transaction. It writes every unresolved row of its request, the coordinator
among them, so that under snapshot isolation no intent is recorded between its reads and
its commit, and each row it abandons gives its hold back once.
-/

namespace NyxId.SettlementIntent

open Interleave

variable {pooled : Id → Bool} {funds : Collection Id ℤ} {s t u : Store}

section

/-- The rows moved on, and an intent was only recorded where the coordinator was forwarded. -/
def Evolves (s t : Store) : Prop :=
  ∃ events, Moved s t events ∧ ∀ request usage resale, Event.recorded request usage resale ∈ events →
    ∃ id row, s.rows.lookup id = some row ∧ row.transactionId = transactionId request .platform ∧
      row.status = .forwarded

theorem Evolves.refl (s : Store) : Evolves s s :=
  ⟨[], Moved.refl s, fun _ _ _ h => (nomatch h)⟩

theorem Evolves.trans (h : Evolves s t) (h' : Evolves t u) : Evolves s u := by
  obtain ⟨events, hmoved, hrecorded⟩ := h
  obtain ⟨events', hmoved', hrecorded'⟩ := h'
  refine ⟨events' ++ events, hmoved.trans hmoved', fun request usage resale hmem => ?_⟩
  rcases List.mem_append.mp hmem with hnew | hold
  · obtain ⟨id, row', hrow', htid, hstatus⟩ := hrecorded' request usage resale hnew
    obtain ⟨row, hrow, hmoves⟩ := hmoved.back hrow'
    exact ⟨id, row, hrow, hmoves.same.tid.symm.trans htid, (hmoves.forwarded hstatus).1⟩
  · exact hrecorded request usage resale hold

theorem Writes.evolves {id : Id} {row row' : MeterRow} {events : List Event}
    (h : Writes s t id row row' events) : Evolves s t := by
  refine ⟨events, h.moved, fun request usage resale hmem => ?_⟩
  obtain ⟨-, htid, hstatus, -⟩ := h.recorded request usage resale hmem
  exact ⟨id, row, h.found, htid, hstatus⟩

theorem mem_select {p : MeterRow → Bool} {id : Id} {row : MeterRow} :
    (id, row) ∈ select p s ↔ s.rows.lookup id = some row ∧ p row = true := by
  unfold select
  rw [List.mem_filter, List.mem_map]
  constructor
  · rintro ⟨⟨e, hmem, heq⟩, hp⟩
    cases heq
    exact ⟨AList.mem_lookup_iff.mpr hmem, hp⟩
  · rintro ⟨hrow, hp⟩
    exact ⟨⟨⟨id, row⟩, AList.mem_lookup_iff.mp hrow, rfl⟩, hp⟩

theorem nodup_select (p : MeterRow → Bool) (s : Store) : ((select p s).map (·.1)).Nodup := by
  have hkeys : ((s.rows.entries.map fun e => (e.1, e.2)).map (·.1)).Nodup := by
    rw [List.map_map]
    exact s.rows.nodupKeys
  exact hkeys.sublist (List.filter_sublist.map _)

end

section

variable {outcome : PoolAttemptOutcome} {now : Time}

def releaseEvent (e : Id × MeterRow) : Event :=
  .released e.1 e.2.billingOwnerId (max e.2.reservedCredits 0)

/-- A store in which the rows of a plan were released. -/
structure Released (outcome : PoolAttemptOutcome) (now : Time) (plan : List (Id × MeterRow))
    (s t : Store) : Prop where
  planned : ∀ e ∈ plan, t.rows.lookup e.1 = some (e.2.releaseUnknown outcome now)
  others : ∀ id, id ∉ plan.map (·.1) → t.rows.lookup id = s.rows.lookup id
  history : t.history = (plan.map releaseEvent).reverse ++ s.history
  wallets : ∀ owner, t.wallets.lookup owner = (s.wallets.lookup owner).map fun reserved =>
    reserved - ((plan.map releaseEvent).map (Event.taken owner)).sum

theorem releaseRows_cons {id : Id} {row : MeterRow} {rest : List (Id × MeterRow)}
    (h : releaseRows outcome now ((id, row) :: rest) s = .ok t) :
    ∃ middle, releaseRows outcome now rest middle = .ok t ∧
      middle.rows = s.rows.insert id (row.releaseUnknown outcome now) ∧
      middle.history = releaseEvent (id, row) :: s.history ∧
      ∀ owner, middle.wallets.lookup owner = (s.wallets.lookup owner).map fun reserved =>
        reserved - (releaseEvent (id, row)).taken owner := by
  unfold releaseRows at h
  split at h
  · rename_i hpositive
    split at h
    · rename_i reserved hwallet
      split at h
      · refine ⟨_, h, rfl, ?_, fun owner => ?_⟩
        · show _ = Event.released _ _ (max row.reservedCredits 0) :: s.history
          rw [max_eq_left (Int.le_of_lt hpositive)]
          rfl
        · simp only [Store.write, releaseEvent, Event.taken, max_eq_left (Int.le_of_lt hpositive)]
          by_cases howner : row.billingOwnerId = owner
          · subst howner
            rw [AList.lookup_insert, hwallet, if_pos rfl]
            rfl
          · rw [AList.lookup_insert_ne (Ne.symm howner), if_neg howner]
            simp
      · cases h
    · cases h
  · rename_i hzero
    refine ⟨_, h, rfl, ?_, fun owner => ?_⟩
    · show _ = Event.released _ _ (max row.reservedCredits 0) :: s.history
      rw [max_eq_right (Int.not_lt.mp hzero)]
      rfl
    · simp only [Store.write, releaseEvent, Event.taken, max_eq_right (Int.not_lt.mp hzero)]
      simp

/-- The transaction releases its plan and nothing else. -/
theorem released_of_releaseRows {plan : List (Id × MeterRow)}
    (h : releaseRows outcome now plan s = .ok t) (hnodup : (plan.map (·.1)).Nodup) :
    Released outcome now plan s t := by
  induction plan generalizing s with
  | nil =>
    cases h
    exact ⟨fun e he => (nomatch he), fun _ _ => rfl, rfl, fun owner => by simp⟩
  | cons e rest ih =>
    obtain ⟨id, row⟩ := e
    obtain ⟨middle, hrest, hrows, hhistory, hwallets⟩ := releaseRows_cons h
    rw [List.map_cons, List.nodup_cons] at hnodup
    obtain ⟨hfresh, hnodup⟩ := hnodup
    have hrel := ih hrest hnodup
    refine ⟨fun e he => ?_, fun other hother => ?_, ?_, fun owner => ?_⟩
    · rcases List.mem_cons.mp he with rfl | he
      · rw [hrel.others _ hfresh, hrows, AList.lookup_insert]
      · exact hrel.planned e he
    · rw [List.map_cons, List.mem_cons, not_or] at hother
      rw [hrel.others other hother.2, hrows, AList.lookup_insert_ne hother.1]
    · rw [hrel.history, hhistory, List.map_cons, List.reverse_cons, List.append_assoc]
      rfl
    · rw [hrel.wallets, hwallets, Option.map_map, List.map_cons, List.map_cons, List.sum_cons]
      congr 1
      funext reserved
      simp only [Function.comp_apply]
      omega

theorem RowMoves.release {row : MeterRow} : RowMoves row (row.releaseUnknown outcome now) where
  same := ⟨rfl, rfl, rfl, rfl, rfl, rfl, rfl, by simp [MeterRow.releaseUnknown]⟩
  quantity _ hq := hq
  forwarded hstatus := by cases hstatus

theorem Released.moved {plan : List (Id × MeterRow)} (h : Released outcome now plan s t)
    (hplan : ∀ e ∈ plan, s.rows.lookup e.1 = some e.2) :
    Moved s t (plan.map releaseEvent).reverse where
  rows id := by
    by_cases hid : id ∈ plan.map (·.1)
    · obtain ⟨e, he, rfl⟩ := List.mem_map.mp hid
      exact Or.inr ⟨e.2, _, hplan e he, h.planned e he, RowMoves.release⟩
    · rw [h.others id hid]
      exact (Moved.refl s).rows id
  history := h.history

/-- A row after a release is a released row of the plan or as it was. -/
theorem Released.lookup_cases {plan : List (Id × MeterRow)} (h : Released outcome now plan s t)
    {id : Id} {found : MeterRow} (hfound : t.rows.lookup id = some found) :
    (∃ row, (id, row) ∈ plan ∧ found = row.releaseUnknown outcome now) ∨
      id ∉ plan.map (·.1) ∧ s.rows.lookup id = some found := by
  by_cases hid : id ∈ plan.map (·.1)
  · obtain ⟨e, he, rfl⟩ := List.mem_map.mp hid
    rw [h.planned e he] at hfound
    exact Or.inl ⟨e.2, he, (Option.some.inj hfound).symm⟩
  · rw [h.others id hid] at hfound
    exact Or.inr ⟨hid, hfound⟩

/-- Each row of a plan is released by one of its events. -/
theorem filter_releaseEvent {plan : List (Id × MeterRow)} (hnodup : (plan.map (·.1)).Nodup)
    {id : Id} {row : MeterRow} (hmem : (id, row) ∈ plan) :
    (plan.map releaseEvent).filter (Event.releases id) = [releaseEvent (id, row)] := by
  induction plan with
  | nil => cases hmem
  | cons e rest ih =>
    rw [List.map_cons, List.nodup_cons] at hnodup
    obtain ⟨hfresh, hnodup⟩ := hnodup
    rw [List.map_cons]
    rcases List.mem_cons.mp hmem with rfl | hmem
    · have hnone : (rest.map releaseEvent).filter (Event.releases id) = [] := by
        apply List.filter_eq_nil_iff.mpr
        intro event hevent hreleases
        obtain ⟨other, hother, rfl⟩ := List.mem_map.mp hevent
        exact hfresh (List.mem_map.mpr ⟨other, hother, of_decide_eq_true hreleases⟩)
      rw [List.filter_cons_of_pos (by simp [releaseEvent, Event.releases]), hnone]
    · have hother : e.1 ≠ id := by
        rintro rfl
        exact hfresh (List.mem_map.mpr ⟨_, hmem, rfl⟩)
      rw [List.filter_cons_of_neg (by simpa [releaseEvent, Event.releases] using hother)]
      exact ih hnodup hmem

end

section

variable {request : Id} {expiredAt : Option Time} {snapshot : Snapshot}

/-- What a worker that read a snapshot knows of it while others run. -/
def SnapshotOk (pooled : Id → Bool) (funds : Collection Id ℤ) (request : Id) (snapshot : Snapshot)
    (s : Store) : Prop :=
  ∃ before, Inv pooled funds before ∧ Evolves before s ∧ snapshot.rows =
    select (fun row => row.billingRequestId = request && row.poolAttempt.isSome) before

/-- The rows of a release without intents among all those that were read. -/
theorem mem_releasable {rows : List (Id × MeterRow)} {e : Id × MeterRow}
    (h : e ∈ releasable expiredAt rows) :
    e ∈ rows ∧ e.2.unresolved = true ∧
      (∀ e' ∈ rows, e'.2.pendingPlatformUsage = none ∧ e'.2.pendingResaleQuantity = none) ∧
      ∀ e' ∈ rows, e'.2.unresolved = true → e' ∈ releasable expiredAt rows := by
  have hform : releasable expiredAt rows = rows.filter fun e => e.2.unresolved := by
    unfold releasable at h ⊢
    split
    · rename_i hlease
      rw [if_pos hlease] at h
      cases h
    · rename_i hlease
      rw [if_neg hlease] at h
      split
      · rename_i hintent
        rw [if_pos hintent] at h
        cases h
      · rfl
  have hclear : ∀ e' ∈ rows, e'.2.pendingPlatformUsage = none ∧ e'.2.pendingResaleQuantity = none := by
    unfold releasable at h
    split at h
    · cases h
    split at h
    · cases h
    rename_i hintent
    intro e' he'
    have hnot : ¬ (e'.2.pendingPlatformUsage.isSome || e'.2.pendingResaleQuantity.isSome) = true :=
      fun hsome => hintent (List.any_eq_true.mpr ⟨e', he', hsome⟩)
    simpa using hnot
  rw [hform] at h ⊢
  obtain ⟨hmem, hopen⟩ := List.mem_filter.mp h
  exact ⟨hmem, hopen, hclear, fun e' he' hopen' => List.mem_filter.mpr ⟨he', hopen'⟩⟩

theorem unresolved_iff {row : MeterRow} : row.unresolved = true ↔
    row.released = false ∧ row.quantity = none ∧
      (row.status = .reserved ∨ row.status = .forwarded) := by
  unfold MeterRow.unresolved
  simp [and_assoc]

/-- A plan of the transaction on documents that have not changed since it read them. -/
structure Plan (pooled : Id → Bool) (funds : Collection Id ℤ) (request : Id)
    (plan : List (Id × MeterRow)) (s : Store) : Prop where
  nodup : (plan.map (·.1)).Nodup
  current : ∀ e ∈ plan, s.rows.lookup e.1 = some e.2
  unresolved : ∀ e ∈ plan, e.2.unresolved = true
  ofRequest : ∀ e ∈ plan, e.2.billingRequestId = request
  /-- The coordinator of the request is forwarded no longer. -/
  coordinator : ∀ e ∈ plan, ∀ id row, s.rows.lookup id = some row →
    row.transactionId = transactionId request .platform → row.status = .forwarded →
      id ∈ plan.map (·.1)
  kept : ∀ e ∈ plan, ∀ usage resale, Event.recorded request usage resale ∈ s.history →
    e.2.layer = .resale ∧ resale = none

theorem plan_of_snapshot (hinv : Inv pooled funds s)
    (hsnapshot : SnapshotOk pooled funds request snapshot s)
    (hunchanged : snapshot.unchanged (releasable expiredAt snapshot.rows) s = true) :
    Plan pooled funds request (releasable expiredAt snapshot.rows) s := by
  obtain ⟨before, hbefore, ⟨events, hmoved, hrecorded⟩, hrows⟩ := hsnapshot
  have hcurrent : ∀ e ∈ releasable expiredAt snapshot.rows, s.rows.lookup e.1 = some e.2 := by
    intro e he
    have hsame := List.all_eq_true.mp hunchanged e he
    exact of_decide_eq_true (Bool.and_eq_true_iff.mp hsame).1
  have hread : ∀ e ∈ snapshot.rows, before.rows.lookup e.1 = some e.2 ∧
      e.2.billingRequestId = request ∧ e.2.poolAttempt.isSome = true := by
    intro e he
    rw [hrows] at he
    obtain ⟨hrow, hfilter⟩ := mem_select.mp he
    simpa [hrow] using hfilter
  -- a forwarded coordinator was read with the others and is unresolved
  have hcoordinator : ∀ e ∈ releasable expiredAt snapshot.rows, ∀ id row,
      before.rows.lookup id = some row → row.transactionId = transactionId request .platform →
      row.status = .forwarded → (id, row) ∈ releasable expiredAt snapshot.rows := by
    intro e he id row hrow htid hstatus
    obtain ⟨hmem, -, -, hcomplete⟩ := mem_releasable he
    obtain ⟨hfound, hrequest, hpool⟩ := hread e hmem
    have hok := hbefore.rows _ _ hrow
    have hrowRequest := (hbefore.request_of_tid hrow htid).1
    obtain ⟨hquantity, hreleased⟩ := hok.forwarded hstatus
    apply hcomplete
    · rw [hrows]
      apply mem_select.mpr
      refine ⟨hrow, ?_⟩
      have hpooled : row.poolAttempt.isSome = true := by
        rw [hok.pool, hrowRequest, ← hrequest, ← (hbefore.rows _ _ hfound).pool]
        exact hpool
      simp [hrowRequest, hpooled]
    · exact unresolved_iff.mpr ⟨hreleased, hquantity, Or.inr hstatus⟩
  refine ⟨?_, hcurrent, fun e he => (mem_releasable he).2.1,
    fun e he => (hread e (mem_releasable he).1).2.1, ?_, ?_⟩
  · have hnodup := nodup_select
      (fun row => row.billingRequestId = request && row.poolAttempt.isSome) before
    rw [← hrows] at hnodup
    refine hnodup.sublist (List.Sublist.map _ ?_)
    unfold releasable
    split
    · exact List.nil_sublist _
    · split
      · exact List.nil_sublist _
      · exact List.filter_sublist
  · intro e he id row hrow htid hstatus
    obtain ⟨row₀, hrow₀, hmoves⟩ := hmoved.back hrow
    exact List.mem_map.mpr ⟨_, hcoordinator e he id row₀ hrow₀ (hmoves.same.tid.symm.trans htid)
      (hmoves.forwarded hstatus).1, rfl⟩
  · intro e he usage resale hmem
    obtain ⟨hread_e, hopen, hclear, -⟩ := mem_releasable he
    obtain ⟨hfound, hrequest, hpool⟩ := hread e hread_e
    have hquantity := (unresolved_iff.mp hopen).2.1
    rw [hmoved.history] at hmem
    rcases List.mem_append.mp hmem with hnew | hold
    · -- the coordinator was forwarded when it was read, so it is a document of the plan
      obtain ⟨id, row, hrow, htid, hstatus⟩ := hrecorded request usage resale hnew
      have hplanned := hcoordinator e he id row hrow htid hstatus
      obtain ⟨hread_c, hopen_c, -, -⟩ := mem_releasable hplanned
      have hnow := hcurrent _ hplanned
      have hinHistory : Event.recorded request usage resale ∈ s.history := by
        rw [hmoved.history]
        exact List.mem_append_left _ hnew
      obtain ⟨hok, -⟩ := (hinv.rows _ _ hnow).forwarded hstatus
      exact absurd hinHistory
        (hinv.not_recorded hnow htid hstatus (hclear _ hread_c).1 usage resale)
    · obtain ⟨id, row, hrow, htid, husage, hresale⟩ := hbefore.intents request usage resale hold
      have hrow_read : (id, row) ∈ snapshot.rows := by
        have hok := hbefore.rows _ _ hrow
        have hrowRequest := (hbefore.request_of_tid hrow htid).1
        have hpooled : row.poolAttempt.isSome = true := by
          rw [hok.pool, hrowRequest, ← hrequest, ← (hbefore.rows _ _ hfound).pool]
          exact hpool
        rw [hrows]
        exact mem_select.mpr ⟨hrow, by simp [hrowRequest, hpooled]⟩
      obtain ⟨hnoUsage, hnoResale⟩ := hclear _ hrow_read
      have hplatform : Quantified before request .platform := by
        rcases husage with hsome | hall
        · rw [hnoUsage] at hsome
          cases hsome
        · exact hall
      have hunquantified (layer : BillingLayer) (hall : Quantified before request layer) :
          e.2.layer ≠ layer := by
        intro hlayer
        have hsome := hall _ _ hfound hrequest hlayer
        rw [hquantity] at hsome
        cases hsome
      have hlayer : e.2.layer = .resale := by
        cases hcase : e.2.layer with
        | platform => exact absurd hcase (hunquantified .platform hplatform)
        | resale => rfl
      refine ⟨hlayer, ?_⟩
      by_contra hne
      rcases hresale (Option.ne_none_iff_isSome.mp hne) with hsome | hall
      · rw [hnoResale] at hsome
        cases hsome
      · exact hunquantified .resale hall hlayer

end

section

variable {request : Id} {plan : List (Id × MeterRow)} {outcome : PoolAttemptOutcome} {now : Time}

theorem Released.inHistory (hrel : Released outcome now plan s t) {e : Event} (he : e ∈ t.history)
    (hother : ∀ row, e ≠ releaseEvent row) : e ∈ s.history := by
  rw [hrel.history] at he
  rcases List.mem_append.mp he with hnew | hold
  · obtain ⟨row, -, heq⟩ := List.mem_map.mp (List.mem_reverse.mp hnew)
    exact absurd heq.symm (hother row)
  · exact hold

theorem Released.evolves (hrel : Released outcome now plan s t)
    (hplan : Plan pooled funds request plan s) : Evolves s t := by
  refine ⟨_, hrel.moved hplan.current, fun request usage resale hmem => ?_⟩
  obtain ⟨row, -, heq⟩ := List.mem_map.mp (List.mem_reverse.mp hmem)
  cases heq

theorem RowOk.release {row : MeterRow} (h : RowOk pooled row) (hopen : row.unresolved = true) :
    RowOk pooled (row.releaseUnknown outcome now) where
  request := h.request
  layer := h.layer
  resale := h.resale
  pool := by
    rw [show (row.releaseUnknown outcome now).billingRequestId = row.billingRequestId from rfl,
      ← h.pool]
    simp [MeterRow.releaseUnknown]
  forwarded hstatus := by cases hstatus
  abandoned _ := (unresolved_iff.mp hopen).2.1

theorem ReleaseOk.release (hplan : Plan pooled funds request plan s)
    (hrel : Released outcome now plan s t) (hinv : Inv pooled funds s) {id : Id} {found : MeterRow}
    (hfound : t.rows.lookup id = some found) : ReleaseOk t.history id found := by
  unfold ReleaseOk
  rw [hrel.history, List.filter_append, List.filter_reverse]
  rcases hrel.lookup_cases hfound with ⟨row, hmem, rfl⟩ | ⟨hfresh, hbefore⟩
  · have hnew := filter_releaseEvent hplan.nodup hmem
    have hold := hinv.releases _ _ (hplan.current _ hmem)
    have hstatus : row.status ≠ .abandoned := by
      intro habandoned
      have hopen := (unresolved_iff.mp (hplan.unresolved _ hmem)).2.2
      rw [habandoned] at hopen
      rcases hopen with h | h <;> cases h
    unfold ReleaseOk at hold
    rw [if_neg hstatus] at hold
    rw [hnew, hold]
    rfl
  · have hnone : (plan.map releaseEvent).filter (Event.releases id) = [] := by
      apply List.filter_eq_nil_iff.mpr
      intro event hevent hreleases
      obtain ⟨e, he, rfl⟩ := List.mem_map.mp hevent
      exact hfresh (List.mem_map.mpr ⟨e, he, of_decide_eq_true hreleases⟩)
    rw [hnone, List.reverse_nil, List.nil_append]
    exact hinv.releases _ _ hbefore

/-- A release leaves the intents on every row as they are. -/
theorem Released.back (hrel : Released outcome now plan s t)
    (hplan : Plan pooled funds request plan s) {id : Id} {found : MeterRow}
    (hfound : t.rows.lookup id = some found) : ∃ row, s.rows.lookup id = some row ∧
      SameRow row found ∧ found.pendingPlatformUsage = row.pendingPlatformUsage ∧
      found.pendingResaleQuantity = row.pendingResaleQuantity ∧
      (found.status = .abandoned → row.status = .abandoned ∨
        ∃ e ∈ plan, e.1 = id ∧ e.2 = row) := by
  rcases hrel.lookup_cases hfound with ⟨row, hmem, rfl⟩ | ⟨-, hbefore⟩
  · exact ⟨row, hplan.current _ hmem, RowMoves.release.same, rfl, rfl,
      fun _ => Or.inr ⟨_, hmem, rfl, rfl⟩⟩
  · exact ⟨found, hbefore, SameRow.refl found, rfl, rfl, Or.inl⟩

/-- The release transaction keeps the invariant. -/
theorem Released.inv (hrel : Released outcome now plan s t)
    (hplan : Plan pooled funds request plan s) (hinv : Inv pooled funds s) : Inv pooled funds t where
  unique first found second found' hfirst hsecond htid := by
    obtain ⟨before, hbefore, hsame, -⟩ := hrel.back hplan hfirst
    obtain ⟨before', hbefore', hsame', -⟩ := hrel.back hplan hsecond
    apply hinv.unique _ _ _ _ hbefore hbefore'
    rw [← hsame.tid, ← hsame'.tid]
    exact htid
  rows id found hfound := by
    rcases hrel.lookup_cases hfound with ⟨row, hmem, rfl⟩ | ⟨-, hbefore⟩
    · exact (hinv.rows _ _ (hplan.current _ hmem)).release (hplan.unresolved _ hmem)
    · exact hinv.rows _ _ hbefore
  releases id found hfound := ReleaseOk.release hplan hrel hinv hfound
  wallets owner := by
    rw [hrel.wallets, hinv.wallets, hrel.history, List.map_append, List.sum_append,
      List.map_reverse, List.sum_reverse, Option.map_map]
    congr 1
    funext reserved
    simp only [Function.comp_apply]
    omega
  single request usage resale usage' resale' hmem hmem' :=
    hinv.single _ _ _ _ _ (hrel.inHistory hmem fun _ h => (nomatch h))
      (hrel.inHistory hmem' fun _ h => (nomatch h))
  intents request usage resale hmem := by
    obtain ⟨id, row, hrow, htid, husage, hresale⟩ := hinv.intents request usage resale
      (hrel.inHistory hmem fun _ h => (nomatch h))
    have hmoved := hrel.moved hplan.current
    obtain ⟨row', hrow', hmoves⟩ := hmoved.forth hrow
    obtain ⟨before, hbefore, -, hkeepUsage, hkeepResale, -⟩ := hrel.back hplan hrow'
    obtain rfl := Option.some.inj (hrow.symm.trans hbefore)
    refine ⟨id, row', hrow', hmoves.same.tid.trans htid, ?_, fun hsome => ?_⟩
    · rw [hkeepUsage]
      exact husage.imp_right fun hall => hall.move hmoved
    · rw [hkeepResale]
      exact (hresale hsome).imp_right fun hall => hall.move hmoved
  pending id found usage hfound hpending := by
    obtain ⟨row, hrow, hsame, hkeepUsage, -, -⟩ := hrel.back hplan hfound
    rw [hkeepUsage] at hpending
    obtain ⟨htid, hrecorded⟩ := hinv.pending _ _ _ hrow hpending
    rw [hsame.tid, hsame.request]
    exact ⟨htid, hrecorded.move (hrel.moved hplan.current)⟩
  closed id found coordinator found' hfound hstatus hfound' htid hforwarded := by
    obtain ⟨row, hrow, hsame, -, -, habandoned⟩ := hrel.back hplan hfound
    obtain ⟨row', hrow', hmoves'⟩ := (hrel.moved hplan.current).back hfound'
    have hbefore := (hmoves'.forwarded hforwarded).1
    have htid' : row'.transactionId = transactionId row.billingRequestId .platform := by
      rw [← hmoves'.same.tid, htid, hsame.request]
    rcases habandoned hstatus with hold | ⟨e, he, rfl, rfl⟩
    · exact hinv.closed _ _ _ _ hrow hold hrow' htid' hbefore
    · rw [hplan.ofRequest e he] at htid'
      obtain ⟨planned, hplanned, heq⟩ :=
        List.mem_map.mp (hplan.coordinator e he _ _ hrow' htid' hbefore)
      have hreleased := hrel.planned planned hplanned
      rw [heq, hfound'] at hreleased
      rw [Option.some.inj hreleased] at hforwarded
      cases hforwarded
  kept request' usage resale id found hmem hfound hrequest hstatus := by
    have hold := hrel.inHistory hmem fun _ h => (nomatch h)
    obtain ⟨row, hrow, hsame, -, -, habandoned⟩ := hrel.back hplan hfound
    rw [hsame.request] at hrequest
    rw [hsame.layer]
    rcases habandoned hstatus with hbefore | ⟨e, he, rfl, rfl⟩
    · exact hinv.kept _ _ _ _ _ hold hrow hrequest hbefore
    · rw [hplan.ofRequest e he] at hrequest
      subst hrequest
      exact hplan.kept e he usage resale hold
  components id usage hmem := by
    obtain ⟨row, hrow, hquantity, hrecorded⟩ := hinv.components _ _
      (hrel.inHistory hmem fun _ h => (nomatch h))
    have hmoved := hrel.moved hplan.current
    obtain ⟨row', hrow', hmoves⟩ := hmoved.forth hrow
    refine ⟨row', hrow', ?_, ?_⟩
    · rw [hmoves.quantity _ hquantity, hmoves.same.componentQuantity_eq]
    · rw [hmoves.same.request]
      exact hrecorded.move hmoved
  usageRemoved request hmem :=
    (hinv.usageRemoved _ (hrel.inHistory hmem fun _ h => (nomatch h))).move
      (hrel.moved hplan.current)
  resaleRemoved request hmem :=
    (hinv.resaleRemoved _ (hrel.inHistory hmem fun _ h => (nomatch h))).move
      (hrel.moved hplan.current)

end

end NyxId.SettlementIntent
