import NyxId.SettlementIntent.Programs

/-!
What always holds of intents, quantities and releases. A recorded intent stays on the
coordinator until every row it finalizes has a quantity, and a row is abandoned only while
its coordinator can no longer take an intent.
-/

namespace NyxId.SettlementIntent

open Interleave

/-- The parts of a row that no worker changes. -/
structure SameRow (row row' : MeterRow) : Prop where
  request : row'.billingRequestId = row.billingRequestId
  owner : row'.billingOwnerId = row.billingOwnerId
  layer : row'.layer = row.layer
  tid : row'.transactionId = row.transactionId
  metric : row'.metric = row.metric
  code : row'.lagoMetricCode = row.lagoMetricCode
  hold : row'.reservedCredits = row.reservedCredits
  pool : row'.poolAttempt.isSome = row.poolAttempt.isSome

theorem SameRow.refl (row : MeterRow) : SameRow row row := ⟨rfl, rfl, rfl, rfl, rfl, rfl, rfl, rfl⟩

theorem SameRow.trans {row row' row'' : MeterRow} (h : SameRow row row') (h' : SameRow row' row'') :
    SameRow row row'' :=
  ⟨h'.request.trans h.request, h'.owner.trans h.owner, h'.layer.trans h.layer, h'.tid.trans h.tid,
    h'.metric.trans h.metric, h'.code.trans h.code, h'.hold.trans h.hold, h'.pool.trans h.pool⟩

theorem SameRow.componentQuantity_eq {row row' : MeterRow} (h : SameRow row row')
    (usage : PlatformUsage) : componentQuantity usage row' = componentQuantity usage row := by
  unfold componentQuantity
  rw [h.code, h.metric]

/-- A quantity stays and no row becomes forwarded again. -/
structure RowMoves (row row' : MeterRow) : Prop where
  same : SameRow row row'
  quantity : ∀ q, row.quantity = some q → row'.quantity = some q
  forwarded : row'.status = .forwarded →
    row.status = .forwarded ∧ row'.quantity = row.quantity ∧ row'.released = row.released

theorem RowMoves.refl (row : MeterRow) : RowMoves row row :=
  ⟨SameRow.refl row, fun _ h => h, fun h => ⟨h, rfl, rfl⟩⟩

theorem RowMoves.trans {row row' row'' : MeterRow} (h : RowMoves row row')
    (h' : RowMoves row' row'') : RowMoves row row'' where
  same := h.same.trans h'.same
  quantity q hq := h'.quantity q (h.quantity q hq)
  forwarded hstatus := by
    obtain ⟨hmiddle, hquantity', hreleased'⟩ := h'.forwarded hstatus
    obtain ⟨hfirst, hquantity, hreleased⟩ := h.forwarded hmiddle
    exact ⟨hfirst, hquantity'.trans hquantity, hreleased'.trans hreleased⟩

/-- The same rows, each moved on, and a longer history. -/
structure Moved (s t : Store) (events : List Event) : Prop where
  rows : ∀ id, s.rows.lookup id = none ∧ t.rows.lookup id = none ∨
    ∃ row row', s.rows.lookup id = some row ∧ t.rows.lookup id = some row' ∧ RowMoves row row'
  history : t.history = events ++ s.history

theorem Moved.refl (s : Store) : Moved s s [] where
  rows id := by
    cases hrow : s.rows.lookup id with
    | none => exact Or.inl ⟨rfl, rfl⟩
    | some row => exact Or.inr ⟨row, row, rfl, rfl, RowMoves.refl row⟩
  history := rfl

theorem Moved.forth {s t : Store} {events : List Event} (h : Moved s t events) {id : Id}
    {row : MeterRow} (hrow : s.rows.lookup id = some row) :
    ∃ row', t.rows.lookup id = some row' ∧ RowMoves row row' := by
  rcases h.rows id with ⟨hnone, -⟩ | ⟨found, row', hfound, hrow', hmoves⟩
  · rw [hrow] at hnone
    cases hnone
  · rw [hrow] at hfound
    cases hfound
    exact ⟨row', hrow', hmoves⟩

theorem Moved.back {s t : Store} {events : List Event} (h : Moved s t events) {id : Id}
    {row' : MeterRow} (hrow' : t.rows.lookup id = some row') :
    ∃ row, s.rows.lookup id = some row ∧ RowMoves row row' := by
  rcases h.rows id with ⟨-, hnone⟩ | ⟨row, found, hrow, hfound, hmoves⟩
  · rw [hrow'] at hnone
    cases hnone
  · rw [hrow'] at hfound
    cases hfound
    exact ⟨row, hrow, hmoves⟩

theorem Moved.trans {s t u : Store} {events events' : List Event} (h : Moved s t events)
    (h' : Moved t u events') : Moved s u (events' ++ events) where
  rows id := by
    rcases h.rows id with ⟨hnone, hnone'⟩ | ⟨row, row', hrow, hrow', hmoves⟩
    · rcases h'.rows id with ⟨-, hlast⟩ | ⟨found, _, hfound, -, -⟩
      · exact Or.inl ⟨hnone, hlast⟩
      · rw [hnone'] at hfound
        cases hfound
    · obtain ⟨row'', hrow'', hmoves'⟩ := h'.forth hrow'
      exact Or.inr ⟨row, row'', hrow, hrow'', hmoves.trans hmoves'⟩
  history := by
    rw [h'.history, h.history, List.append_assoc]

/-- Rewriting one row. -/
theorem Moved.write {s t : Store} {id : Id} {row row' : MeterRow} {events : List Event}
    (hrow : s.rows.lookup id = some row) (hmoves : RowMoves row row')
    (hrows : t.rows = s.rows.insert id row') (hhistory : t.history = events ++ s.history) :
    Moved s t events where
  rows other := by
    rw [hrows]
    by_cases hother : other = id
    · subst hother
      exact Or.inr ⟨row, row', hrow, AList.lookup_insert _, hmoves⟩
    · rw [AList.lookup_insert_ne hother]
      exact (Moved.refl s).rows other
  history := hhistory

/-- Every row of a layer of the request has a quantity. -/
def Quantified (s : Store) (request : Id) (layer : BillingLayer) : Prop :=
  ∀ id row, s.rows.lookup id = some row → row.billingRequestId = request → row.layer = layer →
    row.quantity.isSome

theorem Quantified.move {s t : Store} {events : List Event} {request : Id} {layer : BillingLayer}
    (h : Quantified s request layer) (hmoved : Moved s t events) : Quantified t request layer := by
  intro id row' hrow' hrequest hlayer
  obtain ⟨row, hrow, hmoves⟩ := hmoved.back hrow'
  have hsome := h id row hrow (hmoves.same.request.symm.trans hrequest)
    (hmoves.same.layer.symm.trans hlayer)
  obtain ⟨q, hq⟩ := Option.isSome_iff_exists.mp hsome
  rw [hmoves.quantity q hq]
  rfl

def Recorded (s : Store) (request : Id) (usage : PlatformUsage) : Prop :=
  ∃ resale, Event.recorded request usage resale ∈ s.history

theorem Recorded.move {s t : Store} {events : List Event} {request : Id} {usage : PlatformUsage}
    (h : Recorded s request usage) (hmoved : Moved s t events) : Recorded t request usage := by
  obtain ⟨resale, hmem⟩ := h
  refine ⟨resale, ?_⟩
  rw [hmoved.history]
  exact List.mem_append_right _ hmem

/-- What a row says about its own text of identity, its request's pool and its state. -/
structure RowOk (pooled : Id → Bool) (row : MeterRow) : Prop where
  request : row.transactionId.request = row.billingRequestId
  layer : row.transactionId.layer = row.layer
  resale : row.layer = .resale → row.transactionId.component = none
  pool : row.poolAttempt.isSome = pooled row.billingRequestId
  forwarded : row.status = .forwarded → row.quantity = none ∧ row.released = false
  abandoned : row.status = .abandoned → row.quantity = none

def Event.releases (id : Id) : Event → Bool
  | .released other _ _ => other = id
  | _ => false

/-- What an event takes from the reserved credits of a wallet. -/
def Event.taken (owner : Id) : Event → ℤ
  | .released _ other amount => if other = owner then amount else 0
  | .settledHold other amount => if other = owner then amount else 0
  | _ => 0

/-- A row is abandoned by one event, which gives its hold back. -/
def ReleaseOk (history : List Event) (id : Id) (row : MeterRow) : Prop :=
  history.filter (Event.releases id) =
    if row.status = .abandoned then [.released id row.billingOwnerId (max row.reservedCredits 0)]
    else []

/-- The intent of a request is on its coordinator until the rows it finalizes are. -/
def IntentOk (s : Store) (request : Id) (usage : PlatformUsage) (resale : Option ℤ) : Prop :=
  ∃ id row, s.rows.lookup id = some row ∧ row.transactionId = transactionId request .platform ∧
    (row.pendingPlatformUsage = some usage ∨ Quantified s request .platform) ∧
    (resale.isSome → row.pendingResaleQuantity.isSome ∨ Quantified s request .resale)

structure Inv (pooled : Id → Bool) (funds : Collection Id ℤ) (s : Store) : Prop where
  unique : ∀ id row id' row', s.rows.lookup id = some row → s.rows.lookup id' = some row' →
    row.transactionId = row'.transactionId → id = id'
  rows : ∀ id row, s.rows.lookup id = some row → RowOk pooled row
  releases : ∀ id row, s.rows.lookup id = some row → ReleaseOk s.history id row
  wallets : ∀ owner, s.wallets.lookup owner =
    (funds.lookup owner).map fun reserved => reserved - (s.history.map (Event.taken owner)).sum
  single : ∀ request usage resale usage' resale', Event.recorded request usage resale ∈ s.history →
    Event.recorded request usage' resale' ∈ s.history → usage = usage' ∧ resale = resale'
  intents : ∀ request usage resale, Event.recorded request usage resale ∈ s.history →
    IntentOk s request usage resale
  pending : ∀ id row usage, s.rows.lookup id = some row → row.pendingPlatformUsage = some usage →
    row.transactionId = transactionId row.billingRequestId .platform ∧
      Recorded s row.billingRequestId usage
  closed : ∀ id row id' row', s.rows.lookup id = some row → row.status = .abandoned →
    s.rows.lookup id' = some row' → row'.transactionId = transactionId row.billingRequestId .platform →
    row'.status ≠ .forwarded
  kept : ∀ request usage resale id row, Event.recorded request usage resale ∈ s.history →
    s.rows.lookup id = some row → row.billingRequestId = request → row.status = .abandoned →
    row.layer = .resale ∧ resale = none
  components : ∀ id usage, Event.component id usage ∈ s.history → ∃ row,
    s.rows.lookup id = some row ∧ row.quantity = some (componentQuantity usage row) ∧
      Recorded s row.billingRequestId usage
  usageRemoved : ∀ request, Event.usageRemoved request ∈ s.history → Quantified s request .platform
  resaleRemoved : ∀ request, Event.resaleRemoved request ∈ s.history → Quantified s request .resale

/-!
A write to one row that releases nothing keeps the invariant, if it takes an intent off its
row only after the rows that the intent finalizes have quantities.
-/

variable {pooled : Id → Bool} {funds : Collection Id ℤ} {s t : Store}

/-- What is asked of a write that releases nothing. -/
structure Writes (s t : Store) (id : Id) (row row' : MeterRow) (events : List Event) : Prop where
  found : s.rows.lookup id = some row
  rows : t.rows = s.rows.insert id row'
  history : t.history = events ++ s.history
  wallets : ∀ owner, t.wallets.lookup owner =
    (s.wallets.lookup owner).map fun reserved => reserved - (events.map (Event.taken owner)).sum
  moves : RowMoves row row'
  abandoned : row'.status = .abandoned ↔ row.status = .abandoned
  quantity : row.status = .abandoned → row'.quantity = row.quantity
  releases : ∀ e ∈ events, ∀ other, e.releases other = false
  recorded : ∀ request usage resale, Event.recorded request usage resale ∈ events →
    events = [.recorded request usage resale] ∧
      row.transactionId = transactionId request .platform ∧ row.status = .forwarded ∧
      row.pendingPlatformUsage = none ∧ row'.pendingPlatformUsage = some usage ∧
      row'.pendingResaleQuantity = resale
  component : ∀ other usage, Event.component other usage ∈ events → other = id ∧
    row'.quantity = some (componentQuantity usage row) ∧ Recorded s row.billingRequestId usage
  usageRemoved : ∀ request, Event.usageRemoved request ∈ events → Quantified s request .platform
  resaleRemoved : ∀ request, Event.resaleRemoved request ∈ events → Quantified s request .resale
  pending : row'.pendingPlatformUsage = row.pendingPlatformUsage ∨
    (row'.pendingPlatformUsage = none ∧ Quantified s row.billingRequestId .platform) ∨
    ∃ usage resale, row'.pendingPlatformUsage = some usage ∧
      Event.recorded row.billingRequestId usage resale ∈ events
  resale : (row.pendingResaleQuantity.isSome → row'.pendingResaleQuantity.isSome) ∨
    Quantified s row.billingRequestId .resale ∨
    ∃ usage resale, Event.recorded row.billingRequestId usage resale ∈ events

section

variable {id : Id} {row row' : MeterRow} {events : List Event}

theorem Writes.moved (h : Writes s t id row row' events) : Moved s t events :=
  Moved.write h.found h.moves h.rows h.history

theorem Writes.lookup_cases (h : Writes s t id row row' events) {other : Id} {found : MeterRow}
    (hfound : t.rows.lookup other = some found) :
    other = id ∧ found = row' ∨ other ≠ id ∧ s.rows.lookup other = some found := by
  rw [h.rows] at hfound
  exact Collection.lookup_insert_cases hfound

/-- An abandoned row was abandoned before the write. -/
theorem Writes.abandoned_back (h : Writes s t id row row' events) {other : Id} {found : MeterRow}
    (hfound : t.rows.lookup other = some found) (hstatus : found.status = .abandoned) :
    ∃ before, s.rows.lookup other = some before ∧ SameRow before found ∧
      before.status = .abandoned := by
  rcases h.lookup_cases hfound with ⟨rfl, rfl⟩ | ⟨-, hbefore⟩
  · exact ⟨row, h.found, h.moves.same, h.abandoned.mp hstatus⟩
  · exact ⟨found, hbefore, SameRow.refl found, hstatus⟩

theorem Writes.inHistory (h : Writes s t id row row' events) {e : Event} (he : e ∈ t.history) :
    e ∈ events ∨ e ∈ s.history := by
  rw [h.history] at he
  exact List.mem_append.mp he

/-- A forwarded coordinator without an intent never had one. -/
theorem Inv.not_recorded (hinv : Inv pooled funds s) (hrow : s.rows.lookup id = some row)
    {request : Id} (htid : row.transactionId = transactionId request .platform)
    (hstatus : row.status = .forwarded) (hpending : row.pendingPlatformUsage = none)
    (usage : PlatformUsage) (resale : Option ℤ) :
    Event.recorded request usage resale ∉ s.history := by
  intro hmem
  obtain ⟨other, found, hfound, hother, hintent, -⟩ := hinv.intents request usage resale hmem
  obtain rfl := hinv.unique _ _ _ _ hrow hfound (htid.trans hother.symm)
  obtain rfl := Option.some.inj (hrow.symm.trans hfound)
  have hok := hinv.rows _ _ hrow
  rcases hintent with hsome | hall
  · rw [hpending] at hsome
    cases hsome
  · have hrequest : row.billingRequestId = request := by
      rw [← hok.request, htid]
      rfl
    have hlayer : row.layer = .platform := by
      rw [← hok.layer, htid]
      rfl
    have hsome := hall _ _ hrow hrequest hlayer
    rw [(hok.forwarded hstatus).1] at hsome
    cases hsome

theorem Inv.request_of_tid (hinv : Inv pooled funds s) (hrow : s.rows.lookup id = some row)
    {request : Id} {layer : BillingLayer} (htid : row.transactionId = transactionId request layer) :
    row.billingRequestId = request ∧ row.layer = layer := by
  have hok := hinv.rows _ _ hrow
  rw [← hok.request, ← hok.layer, htid]
  exact ⟨rfl, rfl⟩

theorem RowOk.write (h : Writes s t id row row' events) (hok : RowOk pooled row) :
    RowOk pooled row' where
  request := by
    rw [h.moves.same.tid, h.moves.same.request]
    exact hok.request
  layer := by
    rw [h.moves.same.tid, h.moves.same.layer]
    exact hok.layer
  resale hlayer := by
    rw [h.moves.same.layer] at hlayer
    rw [h.moves.same.tid]
    exact hok.resale hlayer
  pool := by
    rw [h.moves.same.pool, h.moves.same.request]
    exact hok.pool
  forwarded hstatus := by
    obtain ⟨hbefore, hquantity, hreleased⟩ := h.moves.forwarded hstatus
    rw [hquantity, hreleased]
    exact hok.forwarded hbefore
  abandoned hstatus := by
    have hbefore := h.abandoned.mp hstatus
    rw [h.quantity hbefore]
    exact hok.abandoned hbefore

theorem ReleaseOk.write (h : Writes s t id row row' events) (hinv : Inv pooled funds s)
    {other : Id} {found : MeterRow} (hfound : t.rows.lookup other = some found) :
    ReleaseOk t.history other found := by
  have hnone : events.filter (Event.releases other) = [] :=
    List.filter_eq_nil_iff.mpr fun e he => by rw [h.releases e he other]; decide
  unfold ReleaseOk
  rw [h.history, List.filter_append, hnone, List.nil_append]
  rcases h.lookup_cases hfound with ⟨rfl, rfl⟩ | ⟨-, hbefore⟩
  · rw [h.moves.same.owner, h.moves.same.hold, hinv.releases _ _ h.found]
    exact if_congr h.abandoned.symm rfl rfl
  · exact hinv.releases _ _ hbefore

theorem IntentOk.write (h : Writes s t id row row' events) (hinv : Inv pooled funds s)
    {request : Id} {usage : PlatformUsage} {resale : Option ℤ}
    (hmem : Event.recorded request usage resale ∈ s.history) : IntentOk t request usage resale := by
  obtain ⟨other, found, hfound, htid, husage, hresale⟩ := hinv.intents request usage resale hmem
  have hmoved := h.moved
  by_cases hother : other = id
  · subst hother
    obtain rfl := Option.some.inj (h.found.symm.trans hfound)
    have hrequest := (hinv.request_of_tid hfound htid).1
    have hnew : ∀ usage' resale', Event.recorded row.billingRequestId usage' resale' ∉ events := by
      intro usage' resale' hevent
      obtain ⟨-, hcoordinator, hstatus, hnone, -, -⟩ := h.recorded _ _ _ hevent
      rw [hrequest] at hcoordinator
      exact hinv.not_recorded hfound hcoordinator hstatus hnone usage resale hmem
    refine ⟨other, row', by rw [h.rows]; exact AList.lookup_insert _,
      h.moves.same.tid.trans htid, ?_, fun hsome => ?_⟩
    · rcases h.pending with hsame | ⟨-, hall⟩ | ⟨usage', resale', -, hevent⟩
      · rw [hsame]
        exact husage.imp_right fun hall => hall.move hmoved
      · rw [hrequest] at hall
        exact Or.inr (hall.move hmoved)
      · exact absurd hevent (hnew usage' resale')
    · rcases h.resale with hkeeps | hall | ⟨usage', resale', hevent⟩
      · exact (hresale hsome).imp hkeeps fun hall => hall.move hmoved
      · rw [hrequest] at hall
        exact Or.inr (hall.move hmoved)
      · exact absurd hevent (hnew usage' resale')
  · refine ⟨other, found, by rw [h.rows, AList.lookup_insert_ne hother]; exact hfound, htid,
      husage.imp_right fun hall => hall.move hmoved,
      fun hsome => (hresale hsome).imp_right fun hall => hall.move hmoved⟩

/-- A write that releases nothing keeps the invariant. -/
theorem Writes.inv (h : Writes s t id row row' events) (hinv : Inv pooled funds s) :
    Inv pooled funds t where
  unique first found second found' hfirst hsecond htid := by
    obtain ⟨before, hbefore, hmoves⟩ := h.moved.back hfirst
    obtain ⟨before', hbefore', hmoves'⟩ := h.moved.back hsecond
    apply hinv.unique _ _ _ _ hbefore hbefore'
    rw [← hmoves.same.tid, ← hmoves'.same.tid]
    exact htid
  rows other found hfound := by
    rcases h.lookup_cases hfound with ⟨rfl, rfl⟩ | ⟨-, hbefore⟩
    · exact RowOk.write h (hinv.rows _ _ h.found)
    · exact hinv.rows _ _ hbefore
  releases other found hfound := ReleaseOk.write h hinv hfound
  wallets owner := by
    rw [h.wallets, hinv.wallets, h.history, List.map_append, List.sum_append, Option.map_map]
    congr 1
    funext reserved
    simp only [Function.comp_apply]
    omega
  single request usage resale usage' resale' hmem hmem' := by
    rcases h.inHistory hmem with hnew | hold
    · obtain ⟨hevents, htid, hstatus, hnone, -, -⟩ := h.recorded _ _ _ hnew
      rcases h.inHistory hmem' with hnew' | hold'
      · rw [hevents] at hnew'
        cases List.mem_singleton.mp hnew'
        exact ⟨rfl, rfl⟩
      · exact absurd hold' (hinv.not_recorded h.found htid hstatus hnone _ _)
    · rcases h.inHistory hmem' with hnew' | hold'
      · obtain ⟨-, htid, hstatus, hnone, -, -⟩ := h.recorded _ _ _ hnew'
        exact absurd hold (hinv.not_recorded h.found htid hstatus hnone _ _)
      · exact hinv.single _ _ _ _ _ hold hold'
  intents request usage resale hmem := by
    rcases h.inHistory hmem with hnew | hold
    · obtain ⟨-, htid, -, -, husage, hresale⟩ := h.recorded _ _ _ hnew
      exact ⟨id, row', by rw [h.rows]; exact AList.lookup_insert _, h.moves.same.tid.trans htid,
        Or.inl husage, fun hsome => Or.inl (by rw [hresale]; exact hsome)⟩
    · exact IntentOk.write h hinv hold
  pending other found usage hfound hpending := by
    rcases h.lookup_cases hfound with ⟨rfl, rfl⟩ | ⟨-, hbefore⟩
    · rw [h.moves.same.tid, h.moves.same.request]
      rcases h.pending with hsame | ⟨hnone, -⟩ | ⟨usage', resale', hsome, hevent⟩
      · rw [hsame] at hpending
        obtain ⟨htid, hrecorded⟩ := hinv.pending _ _ _ h.found hpending
        exact ⟨htid, hrecorded.move h.moved⟩
      · rw [hnone] at hpending
        cases hpending
      · rw [hsome] at hpending
        cases hpending
        obtain ⟨-, htid, -⟩ := h.recorded _ _ _ hevent
        refine ⟨htid, resale', ?_⟩
        rw [h.history]
        exact List.mem_append_left _ hevent
    · obtain ⟨htid, hrecorded⟩ := hinv.pending _ _ _ hbefore hpending
      exact ⟨htid, hrecorded.move h.moved⟩
  closed other found coordinator found' hfound hstatus hfound' htid hforwarded := by
    obtain ⟨before, hbefore, hsame, habandoned⟩ := h.abandoned_back hfound hstatus
    obtain ⟨before', hbefore', hmoves'⟩ := h.moved.back hfound'
    apply hinv.closed _ _ _ _ hbefore habandoned hbefore' _ (hmoves'.forwarded hforwarded).1
    rw [← hmoves'.same.tid, htid, hsame.request]
  kept request usage resale other found hmem hfound hrequest hstatus := by
    obtain ⟨before, hbefore, hsame, habandoned⟩ := h.abandoned_back hfound hstatus
    rw [hsame.layer]
    rcases h.inHistory hmem with hnew | hold
    · obtain ⟨-, htid, hforwarded, -, -, -⟩ := h.recorded _ _ _ hnew
      refine absurd hforwarded (hinv.closed _ _ _ _ hbefore habandoned h.found ?_)
      rw [htid, ← hrequest, hsame.request]
    · exact hinv.kept _ _ _ _ _ hold hbefore (hsame.request.symm.trans hrequest) habandoned
  components other usage hmem := by
    rcases h.inHistory hmem with hnew | hold
    · obtain ⟨rfl, hquantity, hrecorded⟩ := h.component _ _ hnew
      refine ⟨row', by rw [h.rows]; exact AList.lookup_insert _, ?_, ?_⟩
      · rw [hquantity, h.moves.same.componentQuantity_eq]
      · rw [h.moves.same.request]
        exact hrecorded.move h.moved
    · obtain ⟨found, hfound, hquantity, hrecorded⟩ := hinv.components _ _ hold
      obtain ⟨found', hfound', hmoves⟩ := h.moved.forth hfound
      refine ⟨found', hfound', ?_, ?_⟩
      · rw [hmoves.quantity _ hquantity, hmoves.same.componentQuantity_eq]
      · rw [hmoves.same.request]
        exact hrecorded.move h.moved
  usageRemoved request hmem := by
    rcases h.inHistory hmem with hnew | hold
    · exact (h.usageRemoved _ hnew).move h.moved
    · exact (hinv.usageRemoved _ hold).move h.moved
  resaleRemoved request hmem := by
    rcases h.inHistory hmem with hnew | hold
    · exact (h.resaleRemoved _ hnew).move h.moved
    · exact (hinv.resaleRemoved _ hold).move h.moved

end

end NyxId.SettlementIntent
