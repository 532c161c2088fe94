import NyxId.PublicBudgets.Model

/-!
The books of the daily budgets, and what the writes of the transactions do to them.
-/

namespace NyxId.PublicBudgets

open Interleave Collection

/-- What a loop still holds of its buckets. -/
def PublicBudgetLoop.openAmount (row : PublicBudgetLoop) : ℤ := if row.closed then 0 else row.held

def PublicCallReservation.activeAmount (call : PublicCallReservation) : ℤ :=
  if call.state.Active then call.maximum else 0

def openHold (scope : Scope) (_ : String) (row : PublicBudgetLoop) : ℤ :=
  if row.References scope then row.openAmount else 0

/-- The charge of a call, if its loop references the bucket. -/
def chargeOn (loops : Collection String PublicBudgetLoop) (scope : Scope) (_ : String)
    (call : PublicCallReservation) : ℤ :=
  (loops.lookup call.loopId).elim 0 fun row => if row.References scope then call.capCharge else 0

def activeMaximum (id : String) (_ : String) (call : PublicCallReservation) : ℤ :=
  if call.loopId = id then call.activeAmount else 0

def Store.bucketAt (s : Store) (scope : Scope) : PublicBudgetBucket :=
  (s.buckets.lookup scope).getD ⟨0, 0⟩

/-- Nothing is charged before a posting, and the maximum after a conservative one. -/
structure PublicCallReservation.Charged (call : PublicCallReservation) : Prop where
  maximum : 0 ≤ call.maximum
  unposted : call.state ≠ .conservative → call.state ≠ .settled → call.capCharge = 0
  conservative : call.state = .conservative → call.capCharge = call.maximum

structure PublicBudgetLoop.Limited (row : PublicBudgetLoop) : Prop where
  calls : row.calls ≤ row.maxCalls
  inputTokens : row.inputTokens ≤ row.maxInputTokens
  outputTokens : row.outputTokens ≤ row.maxOutputTokens
  continuations : row.continuations ≤ row.maxContinuations

structure Books (s : Store) : Prop where
  held : ∀ scope, (s.bucketAt scope).held = sumOf (openHold scope) s.loops
  spent : ∀ scope, (s.bucketAt scope).spent = sumOf (chargeOn s.loops scope) s.calls
  referenced : ∀ id row scope, s.loops.lookup id = some row → row.References scope →
    (s.buckets.lookup scope).isSome
  allocated : ∀ id row, s.loops.lookup id = some row →
    row.allocated = sumOf (activeMaximum id) s.calls
  closed : ∀ id row, s.loops.lookup id = some row → row.closed = true →
    ∀ cid call, s.calls.lookup cid = some call → call.loopId = id → ¬call.state.Active
  known : ∀ cid call, s.calls.lookup cid = some call → (s.loops.lookup call.loopId).isSome
  charged : ∀ cid call, s.calls.lookup cid = some call → call.Charged
  limited : ∀ id row, s.loops.lookup id = some row → row.Limited

variable {s t : Store} {id cid : String} {row row' : PublicBudgetLoop}
  {call call' : PublicCallReservation} {scope : Scope} {held spent : ℤ}

theorem term_of_lookup {K V : Type} [DecidableEq K] {f : K → V → ℤ} {m : Collection K V} {k : K} {v : V}
    (h : m.lookup k = some v) : term f m k = f k v := by
  unfold term
  rw [h, Option.elim_some]

theorem term_of_none {K V : Type} [DecidableEq K] {f : K → V → ℤ} {m : Collection K V} {k : K}
    (h : m.lookup k = none) : term f m k = 0 := by
  unfold term
  rw [h, Option.elim_none]

/-- A charge depends on the scopes of the loop only. -/
theorem chargeOn_insert {loops : Collection String PublicBudgetLoop} (hrow : loops.lookup id = some row)
    (hscopes : row'.References scope ↔ row.References scope) (cid : String)
    (call : PublicCallReservation) :
    chargeOn (loops.insert id row') scope cid call = chargeOn loops scope cid call := by
  unfold chargeOn
  by_cases hid : call.loopId = id
  · rw [hid, AList.lookup_insert, hrow, Option.elim_some, Option.elim_some]
    simp only [hscopes]
  · rw [AList.lookup_insert_ne hid]

theorem chargeOn_of_lookup {loops : Collection String PublicBudgetLoop}
    (hrow : loops.lookup call.loopId = some row) (cid : String) :
    chargeOn loops scope cid call = if row.References scope then call.capCharge else 0 := by
  unfold chargeOn
  rw [hrow, Option.elim_some]

theorem openHold_of_lookup (id : String) :
    openHold scope id row = if row.References scope then row.openAmount else 0 := rfl

theorem bucketAt_shift (hreferenced : row.References scope → (s.buckets.lookup scope).isSome)
    {loops : Collection String PublicBudgetLoop} {calls : Collection String PublicCallReservation} :
    Store.bucketAt ⟨s.shift row held spent, loops, calls⟩ scope =
      if row.References scope then
        ⟨(s.bucketAt scope).held + held, (s.bucketAt scope).spent + spent⟩
      else s.bucketAt scope := by
  unfold Store.bucketAt Store.shift
  dsimp only
  rw [lookup_mapValues]
  split
  · rename_i href
    obtain ⟨bucket, hbucket⟩ := Option.isSome_iff_exists.mp (hreferenced href)
    rw [hbucket, Option.map_some, Option.getD_some, Option.getD_some]
  · cases s.buckets.lookup scope with
    | none => rfl
    | some bucket => rfl

theorem isSome_shift : ((s.shift row held spent).lookup scope).isSome =
    (s.buckets.lookup scope).isSome := by
  unfold Store.shift
  rw [lookup_mapValues, Option.isSome_map]

theorem shift_zero : s.shift row 0 0 = s.buckets := by
  have hsame : (fun scope (bucket : PublicBudgetBucket) =>
      if row.References scope then (⟨bucket.held + 0, bucket.spent + 0⟩ : PublicBudgetBucket)
      else bucket) = fun _ bucket => bucket := by
    funext scope bucket
    simp
  unfold Store.shift
  rw [hsame]
  exact AList.ext (List.map_id _)

/-- A write of a loop and one of its calls, with what its buckets take of it. -/
structure Change (s : Store) (id cid : String) (row row' : PublicBudgetLoop)
    (call' : PublicCallReservation) (held spent : ℤ) : Prop where
  stored : s.loops.lookup id = some row
  scopes : ∀ scope, row'.References scope ↔ row.References scope
  loop : call'.loopId = id
  earlier : ∀ call, s.calls.lookup cid = some call → call.loopId = id
  held : row'.openAmount = row.openAmount + held
  spent : call'.capCharge =
    (s.calls.lookup cid).elim 0 PublicCallReservation.capCharge + spent
  allocated : row'.allocated = row.allocated + call'.activeAmount -
    (s.calls.lookup cid).elim 0 PublicCallReservation.activeAmount
  closed : row'.closed = true → row.closed = true ∧ ¬call'.state.Active
  charged : call'.Charged
  limited : row'.Limited

theorem Books.change (hs : Books s) (h : Change s id cid row row' call' held spent) :
    Books ⟨s.shift row held spent, s.loops.insert id row', s.calls.insert cid call'⟩ := by
  have hreferenced (scope : Scope) : row.References scope → (s.buckets.lookup scope).isSome :=
    hs.referenced id row scope h.stored
  have hrow' : (s.loops.insert id row').lookup call'.loopId = some row' := by
    rw [h.loop, AList.lookup_insert]
  refine ⟨fun scope => ?_, fun scope => ?_, fun id' found scope hfound href => ?_,
    fun id' found hfound => ?_, fun id' found hfound hclosed cid' found' hfound' hloop => ?_,
    fun cid' found hfound => ?_, fun cid' found hfound => ?_, fun id' found hfound => ?_⟩
  · rw [bucketAt_shift (hreferenced scope), sumOf_insert, term_of_lookup h.stored, ← hs.held scope,
      openHold_of_lookup, openHold_of_lookup]
    have hheld := h.held
    by_cases href : row.References scope
    · rw [if_pos href, if_pos href, if_pos ((h.scopes scope).mpr href)]
      dsimp only
      omega
    · rw [if_neg href, if_neg href, if_neg (fun h' => href ((h.scopes scope).mp h'))]
      omega
  · have hsame : sumOf (chargeOn (s.loops.insert id row') scope) s.calls =
        sumOf (chargeOn s.loops scope) s.calls :=
      sumOf_congr _ _ _ fun k v _ => chargeOn_insert h.stored (h.scopes scope) k v
    have hold : term (chargeOn (s.loops.insert id row') scope) s.calls cid =
        if row.References scope then (s.calls.lookup cid).elim 0 PublicCallReservation.capCharge
        else 0 := by
      cases hcall : s.calls.lookup cid with
      | none =>
        rw [term_of_none hcall]
        simp
      | some call =>
        have hloop : s.loops.lookup call.loopId = some row := by
          rw [h.earlier call hcall, h.stored]
        rw [term_of_lookup hcall, chargeOn_insert h.stored (h.scopes scope), chargeOn_of_lookup hloop,
          Option.elim_some]
    rw [bucketAt_shift (hreferenced scope), sumOf_insert, hsame, hold, chargeOn_of_lookup hrow',
      ← hs.spent scope]
    have hspent := h.spent
    by_cases href : row.References scope
    · rw [if_pos href, if_pos href, if_pos ((h.scopes scope).mpr href)]
      dsimp only
      omega
    · rw [if_neg href, if_neg href, if_neg (fun h' => href ((h.scopes scope).mp h'))]
      omega
  · rw [isSome_shift]
    rcases lookup_insert_cases hfound with ⟨rfl, rfl⟩ | ⟨-, hold⟩
    · exact hreferenced scope ((h.scopes scope).mp href)
    · exact hs.referenced id' found scope hold href
  · rw [sumOf_insert]
    have hother (hid : id' ≠ id) : term (activeMaximum id') s.calls cid = 0 ∧
        activeMaximum id' cid call' = 0 := by
      constructor
      · cases hcall : s.calls.lookup cid with
        | none => exact term_of_none hcall
        | some call =>
          rw [term_of_lookup hcall]
          exact if_neg (fun hsame => hid (hsame.symm.trans (h.earlier call hcall)))
      · exact if_neg (fun hsame => hid (hsame.symm.trans h.loop))
    rcases lookup_insert_cases hfound with ⟨rfl, rfl⟩ | ⟨hid, hold⟩
    · have hterm : term (activeMaximum id') s.calls cid =
          (s.calls.lookup cid).elim 0 PublicCallReservation.activeAmount := by
        cases hcall : s.calls.lookup cid with
        | none => rw [term_of_none hcall, Option.elim_none]
        | some call =>
          rw [term_of_lookup hcall, Option.elim_some]
          exact if_pos (h.earlier call hcall)
      have hnew : activeMaximum id' cid call' = call'.activeAmount := if_pos h.loop
      have hallocated := h.allocated
      have hbefore := hs.allocated id' row h.stored
      rw [hterm, hnew]
      omega
    · obtain ⟨hterm, hnew⟩ := hother hid
      rw [hterm, hnew, ← hs.allocated id' found hold]
      omega
  · rcases lookup_insert_cases hfound' with ⟨rfl, rfl⟩ | ⟨-, hcall⟩
    · obtain rfl : id = id' := h.loop.symm.trans hloop
      rw [AList.lookup_insert] at hfound
      obtain rfl := Option.some.inj hfound
      exact (h.closed hclosed).2
    · rcases lookup_insert_cases hfound with ⟨rfl, rfl⟩ | ⟨-, hold⟩
      · exact hs.closed id' row h.stored (h.closed hclosed).1 cid' found' hcall hloop
      · exact hs.closed id' found hold hclosed cid' found' hcall hloop
  · have hkept {other : String} (hsome : (s.loops.lookup other).isSome) :
        ((s.loops.insert id row').lookup other).isSome := by
      by_cases hid : other = id
      · rw [hid, AList.lookup_insert]
        rfl
      · rw [AList.lookup_insert_ne hid]
        exact hsome
    rcases lookup_insert_cases hfound with ⟨rfl, rfl⟩ | ⟨-, hold⟩
    · rw [hrow']
      rfl
    · exact hkept (hs.known cid' found hold)
  · rcases lookup_insert_cases hfound with ⟨rfl, rfl⟩ | ⟨-, hold⟩
    · exact h.charged
    · exact hs.charged cid' found hold
  · rcases lookup_insert_cases hfound with ⟨rfl, rfl⟩ | ⟨-, hold⟩
    · exact h.limited
    · exact hs.limited id' found hold

/-- A call that stays active, under the same maximum. -/
theorem Books.restate (hs : Books s) (hcall : s.calls.lookup cid = some call)
    (hactive : call.state.Active) (hactive' : call'.state.Active) (hloop : call'.loopId = call.loopId)
    (hmaximum : call'.maximum = call.maximum) (hcharge : call'.capCharge = call.capCharge) :
    Books { s with calls := s.calls.insert cid call' } := by
  have hsum (f : String → PublicCallReservation → ℤ) (hsame : f cid call' = f cid call) :
      sumOf f (s.calls.insert cid call') = sumOf f s.calls := by
    rw [sumOf_insert, term_of_lookup hcall, hsame]
    omega
  have hunposted : call'.state ≠ .conservative ∧ call'.state ≠ .settled ∧
      call.state ≠ .conservative ∧ call.state ≠ .settled := by
    rcases hactive with h | h | h | h <;> rcases hactive' with h' | h' | h' | h' <;> simp [h, h']
  refine ⟨hs.held, fun scope => ?_, hs.referenced, fun id row hrow => ?_,
    fun id row hrow hclosed cid' found hfound hid => ?_, fun cid' found hfound => ?_,
    fun cid' found hfound => ?_, hs.limited⟩
  · have hsame : chargeOn s.loops scope cid call' = chargeOn s.loops scope cid call := by
      unfold chargeOn
      rw [hloop, hcharge]
    exact (hs.spent scope).trans (hsum _ hsame).symm
  · have hsame : activeMaximum id cid call' = activeMaximum id cid call := by
      unfold activeMaximum PublicCallReservation.activeAmount
      rw [hloop, if_pos hactive, if_pos hactive', hmaximum]
    exact (hs.allocated id row hrow).trans (hsum _ hsame).symm
  · rcases lookup_insert_cases hfound with ⟨rfl, rfl⟩ | ⟨-, hold⟩
    · exact absurd hactive (hs.closed id row hrow hclosed cid' call hcall (hloop.symm.trans hid))
    · exact hs.closed id row hrow hclosed cid' found hold hid
  · rcases lookup_insert_cases hfound with ⟨rfl, rfl⟩ | ⟨-, hold⟩
    · rw [hloop]
      exact hs.known cid' call hcall
    · exact hs.known cid' found hold
  · rcases lookup_insert_cases hfound with ⟨rfl, rfl⟩ | ⟨-, hold⟩
    · obtain ⟨hnonneg, hzero, -⟩ := hs.charged cid' call hcall
      refine ⟨hmaximum ▸ hnonneg, fun _ _ => ?_, fun h => absurd h hunposted.1⟩
      rw [hcharge, hzero hunposted.2.2.1 hunposted.2.2.2]
    · exact hs.charged cid' found hold

end NyxId.PublicBudgets
