import NyxId.UsageRollup.Counters

/-!
The invariant of the fold: what the summaries hold of the rows at every point of a batch,
what a replica that applies a batch has already written, and what a claim still relies on.
-/

namespace NyxId.UsageRollup

open Interleave

/-- The row is marked as counted. -/
def folded (row : SourceRow) : Bool := !pending row.rollupPending

def UsageRollupBatch.keys (batch : UsageRollupBatch) : List HourKey := batch.increments.map Prod.fst

/-- The rows that a batch counts: those it claims, or those in the hourly summaries it
copies into days. -/
def inBatch (batch : UsageRollupBatch) (id : Id) (row : SourceRow) : Bool :=
  if batch.hourlySources then folded row && decide (row.key ∈ batch.keys)
  else batch.rowIds.contains (.row id)

/-- A claim fits the store it was read from. -/
structure BatchOk (store : Store) (batch : UsageRollupBatch) : Prop where
  sequence : batch.sequence = store.state.sequence + 1
  daily : batch.daily = true
  holds : Holds store.rows (inBatch batch) batch.increments
  ready : store.state.dailyReady = !batch.hourlySources
  rows : batch.hourlySources = false → ∀ source ∈ batch.rowIds, ∃ id row, source = .row id ∧
    store.rows.lookup id = some row ∧ row.settled = true
  hours : batch.hourlySources = true → batch.rowIds = batch.keys.map .hourly
  found : batch.hourlySources = true → batch.keys ≠ [] ∧
    ∀ key ∈ batch.keys, ∃ summary, store.hourly.lookup key = some summary

/-- Until it is published, the sources of a claim are pending. -/
structure Claimable (store : Store) (batch : UsageRollupBatch) : Prop extends BatchOk store batch where
  pendingRows : batch.hourlySources = false → ∀ id row, .row id ∈ batch.rowIds →
    store.rows.lookup id = some row → pending row.rollupPending = true
  pendingHours : ∀ key summary, batch.hourlySources = true → key ∈ batch.keys →
    store.hourly.lookup key = some summary → pending summary.dailyPending = true

/-- The increments under way in the hourly tier. -/
def hourlyIncrements (store : Store) : List (HourKey × Measures) :=
  match store.state.batch with
  | some batch => if batch.hourlySources then [] else batch.increments
  | none => []

def currentDaily (store : Store) : List (DayKey × Measures) :=
  match store.state.batch with
  | some batch => dailyIncrements batch.increments
  | none => []

/-- Rows that earlier batches counted in the hourly tier. -/
def hourlyEarlier (store : Store) (id : Id) (row : SourceRow) : Bool :=
  folded row && !(store.state.batch.any fun batch => !batch.hourlySources && inBatch batch id row)

/-- The hourly summary is part of the daily tier. -/
def copied (store : Store) (key : HourKey) : Bool :=
  (store.hourly.lookup key).any fun summary => !pending summary.dailyPending

/-- Rows that earlier batches counted in the daily tier. -/
def dailyEarlier (store : Store) (id : Id) (row : SourceRow) : Bool :=
  folded row && (store.state.dailyReady || copied store row.key) &&
    !(store.state.batch.any fun batch => inBatch batch id row)

structure StoreInv (store : Store) : Prop where
  nonneg : 0 ≤ store.state.sequence
  marks : ∀ id row, store.rows.lookup id = some row → row.settled = false →
    pending row.rollupPending = true
  batch : ∀ batch, store.state.batch = some batch → BatchOk store batch
  hourly : Tier store.hourly
    (fun key m => rowSum store.rows (fun id row => hourlyEarlier store id row && row.key = key) m)
    (store.state.sequence + 1) (hourlyIncrements store)
  daily : Tier store.daily
    (fun key m =>
      rowSum store.rows (fun id row => dailyEarlier store id row && row.key.dayKey = key) m)
    (store.state.sequence + 1) (currentDaily store)
  summaries : ∀ id row, store.rows.lookup id = some row → hourlyEarlier store id row = true →
    ∃ summary, store.hourly.lookup row.key = some summary
  copies : store.state.dailyReady = true → ∀ key summary, store.hourly.lookup key = some summary →
    pending summary.dailyPending = true →
      summary.lastBatch ≤ store.state.sequence ∧ key ∈ (hourlyIncrements store).map Prod.fst

def Marked (store : Store) : SourceId → Prop
  | .row id => ∃ row, store.rows.lookup id = some row ∧ folded row = true
  | .hourly key => ∃ summary, store.hourly.lookup key = some summary ∧
      pending summary.dailyPending = false

/-- The writes of a batch that are no longer left have been made. -/
structure Progress (store : Store) (batch : UsageRollupBatch) (work : Work) : Prop where
  hourlyInserts : ∀ key ∈ (startWork batch).hourlyInserts,
    key ∈ work.hourlyInserts ∨ ∃ summary, store.hourly.lookup key = some summary
  hourlyAdds : ∀ key ∈ (startWork batch).hourlyAdds, key ∈ work.hourlyAdds ∨
    ∃ summary, store.hourly.lookup key = some summary ∧ batch.sequence ≤ summary.lastBatch
  dailyInserts : ∀ key ∈ (startWork batch).dailyInserts,
    key ∈ work.dailyInserts ∨ ∃ summary, store.daily.lookup key = some summary
  dailyAdds : ∀ key ∈ (startWork batch).dailyAdds, key ∈ work.dailyAdds ∨
    ∃ summary, store.daily.lookup key = some summary ∧ batch.sequence ≤ summary.lastBatch
  marks : ∀ source ∈ batch.rowIds, source ∈ work.marks ∨ Marked store source
  within : work.hourlyInserts ⊆ (startWork batch).hourlyInserts ∧
    work.hourlyAdds ⊆ (startWork batch).hourlyAdds ∧
    work.dailyInserts ⊆ (startWork batch).dailyInserts ∧
    work.dailyAdds ⊆ (startWork batch).dailyAdds ∧ work.marks ⊆ batch.rowIds

def noWork : Work := ⟨[], [], [], [], []⟩

/-- The batch has been finished by some replica. -/
def Retired (store : Store) (batch : UsageRollupBatch) : Prop :=
  batch.sequence ≤ store.state.sequence ∧ Progress store batch noWork

/-- What no single step takes back. -/
structure Grows (s t : Store) : Prop where
  sequence : s.state.sequence ≤ t.state.sequence
  ready : s.state.dailyReady = true → t.state.dailyReady = true
  hourly : ∀ key summary, s.hourly.lookup key = some summary → ∃ next,
    t.hourly.lookup key = some next ∧ summary.lastBatch ≤ next.lastBatch ∧
      (pending next.dailyPending = true → pending summary.dailyPending = true)
  daily : ∀ key summary, s.daily.lookup key = some summary → ∃ next,
    t.daily.lookup key = some next ∧ summary.lastBatch ≤ next.lastBatch
  rows : ∀ id row, s.rows.lookup id = some row → folded row = true → ∃ next,
    t.rows.lookup id = some next ∧ folded next = true
  batch : ∀ batch, s.state.batch = some batch → t.state.batch = some batch ∨ Retired t batch
  /-- While no batch is in between, only unsettled rows change, and the daily tier can
  only become ready once every hourly summary is part of it. -/
  quiet : t.state.sequence = s.state.sequence → t.state.batch = none →
    s.state.batch = none ∧ t.hourly = s.hourly ∧
    (t.rows = s.rows ∨ ∃ id row, writable s.rows id row = true ∧ t.rows = s.rows.insert id row) ∧
    (t.state.dailyReady = s.state.dailyReady ∨ ∀ key summary, s.hourly.lookup key = some summary →
      pending summary.dailyPending = false)

/-- A step that keeps the invariant. -/
abbrev Kept (s t : Store) : Prop := StoreInv t ∧ Grows s t

theorem Grows.refl (s : Store) : Grows s s where
  sequence := le_refl _
  ready h := h
  hourly _ summary h := ⟨summary, h, le_refl _, fun h => h⟩
  daily _ summary h := ⟨summary, h, le_refl _⟩
  rows _ row h hfolded := ⟨row, h, hfolded⟩
  batch _ h := Or.inl h
  quiet _ h := ⟨h, rfl, Or.inl rfl, Or.inl rfl⟩

/-- What a replica knows while it claims. -/
def Fresh (store : Store) (current : UsageRollupState) : Prop :=
  store.state.sequence = current.sequence ∧ store.state.batch = none

def PhaseOk (store : Store) : Phase → Prop
  | .idle => True
  | .loaded current => current.sequence ≤ store.state.sequence
  | .noSources current => current.sequence ≤ store.state.sequence ∧
      (Fresh store current → ∀ key summary, store.hourly.lookup key = some summary →
        pending summary.dailyPending = false)
  | .claiming current => current.sequence ≤ store.state.sequence ∧ store.state.dailyReady = true
  | .selected current ids => current.sequence ≤ store.state.sequence ∧
      store.state.dailyReady = true ∧ (Fresh store current → ∀ id ∈ ids, ∃ row,
        store.rows.lookup id = some row ∧ row.settled = true ∧ pending row.rollupPending = true)
  | .built current batch => current.sequence ≤ store.state.sequence ∧
      (Fresh store current → Claimable store batch)
  | .applying batch work => Progress store batch work ∧
      (store.state.batch = some batch ∨ Retired store batch)

structure Inv (world : World) : Prop where
  store : StoreInv world.store
  phases : ∀ replica, PhaseOk world.store (world.phase replica)

section

variable {s t : Store}

theorem Marked.mono (hgrows : Grows s t) {source : SourceId} (h : Marked s source) :
    Marked t source := by
  cases source with
  | row id =>
    obtain ⟨row, hrow, hfolded⟩ := h
    exact hgrows.rows id row hrow hfolded
  | hourly key =>
    obtain ⟨summary, hsummary, hmark⟩ := h
    obtain ⟨next, hnext, -, hpending⟩ := hgrows.hourly key summary hsummary
    refine ⟨next, hnext, ?_⟩
    by_contra hne
    rw [Bool.not_eq_false] at hne
    rw [hpending hne] at hmark
    cases hmark

theorem Progress.mono (hgrows : Grows s t) {batch : UsageRollupBatch} {work : Work}
    (h : Progress s batch work) : Progress t batch work where
  hourlyInserts key hkey := (h.hourlyInserts key hkey).imp_right fun ⟨summary, hsummary⟩ =>
    let ⟨next, hnext, _, _⟩ := hgrows.hourly key summary hsummary
    ⟨next, hnext⟩
  hourlyAdds key hkey := (h.hourlyAdds key hkey).imp_right fun ⟨summary, hsummary, hle⟩ =>
    let ⟨next, hnext, hlast, _⟩ := hgrows.hourly key summary hsummary
    ⟨next, hnext, hle.trans hlast⟩
  dailyInserts key hkey := (h.dailyInserts key hkey).imp_right fun ⟨summary, hsummary⟩ =>
    let ⟨next, hnext, _⟩ := hgrows.daily key summary hsummary
    ⟨next, hnext⟩
  dailyAdds key hkey := (h.dailyAdds key hkey).imp_right fun ⟨summary, hsummary, hle⟩ =>
    let ⟨next, hnext, hlast⟩ := hgrows.daily key summary hsummary
    ⟨next, hnext, hle.trans hlast⟩
  marks source hsource := (h.marks source hsource).imp_right (Marked.mono hgrows)
  within := h.within

theorem Retired.mono (hgrows : Grows s t) {batch : UsageRollupBatch} (h : Retired s batch) :
    Retired t batch := ⟨h.1.trans hgrows.sequence, h.2.mono hgrows⟩

theorem Fresh.back (hgrows : Grows s t) {current : UsageRollupState}
    (hle : current.sequence ≤ s.state.sequence) (h : Fresh t current) : Fresh s current := by
  have hsequence : t.state.sequence = s.state.sequence := by
    have hgrow := hgrows.sequence
    have heq := h.1
    omega
  exact ⟨by rw [← hsequence]; exact h.1, (hgrows.quiet hsequence h.2).1⟩

/-- A settled row is not written by the rest of the program. -/
theorem lookup_of_writable {rows : Collection Id SourceRow} {id other : Id} {row old : SourceRow}
    (hwritable : writable rows id row = true) (hold : rows.lookup other = some old)
    (hsettled : old.settled = true) : (rows.insert id row).lookup other = some old := by
  have hne : other ≠ id := by
    rintro rfl
    unfold writable at hwritable
    rw [hold] at hwritable
    simp only [hsettled, Bool.not_true, Bool.false_and] at hwritable
    cases hwritable
  rw [AList.lookup_insert_ne hne]
  exact hold

theorem pending_of_writable {id : Id} {row : SourceRow}
    (hmarks : ∀ id row, s.rows.lookup id = some row → row.settled = false →
      pending row.rollupPending = true)
    (hwritable : writable s.rows id row = true) :
    folded row = false ∧ ∀ old, s.rows.lookup id = some old → folded old = false ∧
      old.settled = false := by
  unfold writable at hwritable
  unfold folded
  cases hold : s.rows.lookup id with
  | none =>
    rw [hold] at hwritable
    simp only at hwritable
    exact ⟨by rw [hwritable]; rfl, fun old h => (nomatch h)⟩
  | some old =>
    rw [hold] at hwritable
    obtain ⟨hsettled, hmark⟩ := Bool.and_eq_true_iff.mp hwritable
    have hunsettled : old.settled = false := by simpa using hsettled
    have hmark : row.rollupPending = old.rollupPending := of_decide_eq_true hmark
    have hpending := hmarks id old hold hunsettled
    refine ⟨by rw [hmark, hpending]; rfl, fun other h => ?_⟩
    obtain rfl := Option.some.inj h
    exact ⟨by rw [hpending]; rfl, hunsettled⟩

theorem not_inBatch_of_writable {batch : UsageRollupBatch} {id : Id} {row : SourceRow}
    (hmarks : ∀ id row, s.rows.lookup id = some row → row.settled = false →
      pending row.rollupPending = true)
    (hok : BatchOk s batch) (hwritable : writable s.rows id row = true) :
    inBatch batch id row = false ∧ ∀ old, s.rows.lookup id = some old →
      inBatch batch id old = false := by
  obtain ⟨hrow, hold⟩ := pending_of_writable hmarks hwritable
  cases hkind : batch.hourlySources with
  | true =>
    unfold inBatch
    simp only [hkind, if_true]
    exact ⟨by rw [hrow]; rfl, fun old h => by rw [(hold old h).1]; rfl⟩
  | false =>
    have hnot : batch.rowIds.contains (.row id) = false := by
      by_contra hcontains
      rw [Bool.not_eq_false] at hcontains
      obtain ⟨other, old, heq, hlookup, hsettled⟩ := hok.rows hkind _ (by simpa using hcontains)
      cases heq
      rw [(hold old hlookup).2] at hsettled
      cases hsettled
    unfold inBatch
    simp only [hkind, Bool.false_eq_true, if_false]
    exact ⟨hnot, fun _ _ => hnot⟩

/-- A row that counts for nothing before and after leaves every sum alone. -/
theorem rowSum_write {rows : Collection Id SourceRow} {chosen : Id → SourceRow → Bool} {m : Measure}
    {id : Id} {row : SourceRow} (hrow : chosen id row = false)
    (hold : ∀ old, rows.lookup id = some old → chosen id old = false) :
    rowSum (rows.insert id row) chosen m = rowSum rows chosen m := by
  apply rowSum_insert
  rw [hrow]
  unfold Collection.term
  cases hlookup : rows.lookup id with
  | none => rfl
  | some old =>
    show (if chosen id old = true then old.measures m else 0) = _
    rw [hold old hlookup]
    rfl

theorem BatchOk.write {batch : UsageRollupBatch} {id : Id} {row : SourceRow}
    (hmarks : ∀ id row, s.rows.lookup id = some row → row.settled = false →
      pending row.rollupPending = true)
    (hok : BatchOk s batch) (hwritable : writable s.rows id row = true) :
    BatchOk { s with rows := s.rows.insert id row } batch where
  sequence := hok.sequence
  daily := hok.daily
  ready := hok.ready
  hours := hok.hours
  found := hok.found
  rows hkind source hsource := by
    obtain ⟨other, old, rfl, hlookup, hsettled⟩ := hok.rows hkind source hsource
    exact ⟨other, old, rfl, lookup_of_writable hwritable hlookup hsettled, hsettled⟩
  holds := by
    obtain ⟨hrow, hold⟩ := not_inBatch_of_writable hmarks hok hwritable
    refine ⟨hok.holds.nodup, fun other found hfound hin => ?_, fun key m => ?_⟩
    · by_cases hother : other = id
      · subst hother
        rw [AList.lookup_insert] at hfound
        obtain rfl := Option.some.inj hfound
        rw [hrow] at hin
        cases hin
      · rw [AList.lookup_insert_ne hother] at hfound
        exact hok.holds.covers other found hfound hin
    · rw [hok.holds.deltas]
      refine congrArg _ (rowSum_write ?_ fun old hlookup => ?_).symm
      · simp only [hrow, Bool.false_and]
      · simp only [hold old hlookup, Bool.false_and]

/-- While no batch is in between, a claim keeps fitting the store. -/
theorem Claimable.mono (hmarks : ∀ id row, s.rows.lookup id = some row → row.settled = false →
      pending row.rollupPending = true)
    (hgrows : Grows s t) (hsequence : t.state.sequence = s.state.sequence)
    (hbatch : t.state.batch = none) {batch : UsageRollupBatch} (h : Claimable s batch) :
    Claimable t batch := by
  obtain ⟨-, hhourly, hrows, hready⟩ := hgrows.quiet hsequence hbatch
  have hsettled : ∀ id row, s.rows.lookup id = some row → row.settled = true →
      t.rows.lookup id = some row := by
    intro id row hrow hsettled
    rcases hrows with heq | ⟨other, written, hwritable, heq⟩
    · rw [heq]
      exact hrow
    · rw [heq]
      exact lookup_of_writable hwritable hrow hsettled
  have hholds : Holds t.rows (inBatch batch) batch.increments := by
    rcases hrows with heq | ⟨other, written, hwritable, heq⟩
    · rw [heq]
      exact h.holds
    · rw [heq]
      exact (h.toBatchOk.write hmarks hwritable).holds
  have hdaily : t.state.dailyReady = !batch.hourlySources := by
    rcases hready with heq | hall
    · rw [heq]
      exact h.ready
    · cases hkind : batch.hourlySources with
      | false =>
        have hready := h.ready
        rw [hkind] at hready
        exact hgrows.ready hready
      | true =>
        obtain ⟨hne, hfound⟩ := h.found hkind
        obtain ⟨key, keys, hcons⟩ := List.exists_cons_of_ne_nil hne
        have hkey : key ∈ batch.keys := by
          rw [hcons]
          exact List.mem_cons_self
        obtain ⟨summary, hsummary⟩ := hfound key hkey
        have hpending := h.pendingHours key summary hkind hkey hsummary
        rw [hall key summary hsummary] at hpending
        cases hpending
  refine { sequence := by rw [hsequence]; exact h.sequence, daily := h.daily, holds := hholds,
           ready := hdaily, rows := ?_, hours := h.hours, found := ?_, pendingRows := ?_,
           pendingHours := ?_ }
  · intro hkind source hsource
    obtain ⟨id, row, rfl, hrow, hset⟩ := h.rows hkind source hsource
    exact ⟨id, row, rfl, hsettled id row hrow hset, hset⟩
  · rw [hhourly]
    exact h.found
  · intro hkind id row hmem hrow
    obtain ⟨other, old, heq, hold, hset⟩ := h.rows hkind _ hmem
    cases heq
    have hsame := hsettled id old hold hset
    rw [hrow] at hsame
    obtain rfl := Option.some.inj hsame
    exact h.pendingRows hkind id row hmem hold
  · rw [hhourly]
    exact h.pendingHours

/-- What a replica knows survives the steps of the others. -/
theorem PhaseOk.mono (hmarks : ∀ id row, s.rows.lookup id = some row → row.settled = false →
      pending row.rollupPending = true)
    (hgrows : Grows s t) {phase : Phase} (h : PhaseOk s phase) : PhaseOk t phase := by
  cases phase with
  | idle => trivial
  | loaded current => exact le_trans h hgrows.sequence
  | noSources current =>
    refine ⟨h.1.trans hgrows.sequence, fun hfresh => ?_⟩
    have hback := hfresh.back hgrows h.1
    rw [(hgrows.quiet (by rw [hfresh.1, hback.1]) hfresh.2).2.1]
    exact h.2 hback
  | claiming current => exact ⟨h.1.trans hgrows.sequence, hgrows.ready h.2⟩
  | selected current ids =>
    refine ⟨h.1.trans hgrows.sequence, hgrows.ready h.2.1, fun hfresh id hid => ?_⟩
    have hback := hfresh.back hgrows h.1
    obtain ⟨row, hrow, hsettled, hpending⟩ := h.2.2 hback id hid
    obtain ⟨-, -, hrows, -⟩ := hgrows.quiet (by rw [hfresh.1, hback.1]) hfresh.2
    refine ⟨row, ?_, hsettled, hpending⟩
    rcases hrows with heq | ⟨other, written, hwritable, heq⟩
    · rw [heq]
      exact hrow
    · rw [heq]
      exact lookup_of_writable hwritable hrow hsettled
  | built current batch =>
    refine ⟨h.1.trans hgrows.sequence, fun hfresh => ?_⟩
    have hback := hfresh.back hgrows h.1
    exact (h.2 hback).mono hmarks hgrows (by rw [hfresh.1, hback.1]) hfresh.2
  | applying batch work =>
    refine ⟨h.1.mono hgrows, ?_⟩
    rcases h.2 with hcurrent | hretired
    · exact hgrows.batch batch hcurrent
    · exact Or.inr (hretired.mono hgrows)

end

end NyxId.UsageRollup
