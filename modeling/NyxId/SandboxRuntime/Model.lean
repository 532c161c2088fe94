import NyxId.Billing.Calendar
import NyxId.Interleave.Transactions
import Mathlib.Algebra.BigOperators.Intervals
import Mathlib.Order.Interval.Finset.Basic
import Mathlib.Data.Int.Interval
import Mathlib.Algebra.Order.BigOperators.Group.Finset

/-!
Finite funding windows of a Sandbox. A producer reserves whole seconds ahead of
the usage, one window at a time behind a cursor; every admission is one
transaction, aborted on any error. Instants are milliseconds, coverage is seconds.
-/

namespace NyxId.SandboxRuntime

open Interleave

structure SandboxAllocation where
  cpuMillis : ℤ
  memoryMib : ℤ
  diskGib : ℤ
  deriving DecidableEq

def units (allocation : SandboxAllocation) : List ℤ :=
  [allocation.cpuMillis, allocation.memoryMib, allocation.diskGib]

def maxWindowSeconds : ℤ := 300

def allocationQuantities (allocation : List ℤ) (seconds : ℤ) : Except AppError (List ℤ) :=
  if seconds < 0 ∨ allocation.any (· < 0) then
    invalid "Sandbox quantities must be non-negative integers"
  else
    allocation.mapM fun quantity =>
      orInvalid "Sandbox allocation quantity overflow" (checkedI64 (quantity * seconds))

def finiteQuantities (allocation : List ℤ) (seconds : ℤ) : Except AppError (List ℤ) :=
  if ¬(1 ≤ seconds ∧ seconds ≤ maxWindowSeconds) then
    invalid "Sandbox funding requires a finite window of at most 300 seconds"
  else allocationQuantities allocation seconds

/-- The trusted producer supplies lifecycle identity, never a price or amount. -/
structure ReserveSandboxWindow where
  requestId : Id
  quoteId : Id
  ownerId : Id
  sandboxId : Id
  runtimeGeneration : ℤ
  operationId : Id
  previousWindowId : Option Id
  seconds : ℤ
  allocation : SandboxAllocation
  deriving DecidableEq

structure SandboxBillingQuote where
  id : Id
  producerId : Id
  ownerId : Id
  sandboxId : Id
  maximumAllocation : SandboxAllocation
  rateCardId : Id
  acceptedOperationId : Option Id
  acceptBefore : Time
  acceptedAt : Option Time

structure SandboxBillingWindow where
  id : Id
  producerId : Id
  requestId : Id
  requestDigest : String
  quoteId : Id
  ownerId : Id
  sandboxId : Id
  runtimeGeneration : ℤ
  coveredFrom : ℤ
  coveredUntil : ℤ
  allocation : SandboxAllocation
  createdAt : Time
  finalizedAt : Option Time

structure SandboxBillingCursor where
  producerId : Id
  sandboxId : Id
  ownerId : Id
  quoteId : Id
  runtimeGeneration : ℤ
  coveredUntil : ℤ
  lastWindowId : Id
  evidenceCoveredUntil : Option ℤ
  lastEvidenceWindowId : Option Id
  updatedAt : Time

structure SandboxRateCard where
  id : Id
  version : ℤ
  effectiveFrom : Time
  synced : Bool

/-- A cursor serializes the reservations of one producer's Sandbox; windows are in
the order of their commits. -/
structure State where
  rateCards : List SandboxRateCard
  quotes : Collection Id SandboxBillingQuote
  cursors : Collection (Id × Id) SandboxBillingCursor
  windows : List SandboxBillingWindow
  nextId : Id

def replay (receipt : SandboxBillingWindow) (digest : String) :
    Except AppError SandboxBillingWindow :=
  if receipt.requestDigest ≠ digest then
    conflict "Sandbox request ID was already used with different input"
  else .ok receipt

def nextCoverage (cursor : Option SandboxBillingCursor) (input : ReserveSandboxWindow) (now : ℤ) :
    Except AppError ℤ := do
  let prospective ← orInvalid "Sandbox timestamp overflow" (checkedI64 (now + 1))
  match cursor with
  | none =>
    if input.previousWindowId.isSome then conflict "Sandbox has no prior funded window"
    else return prospective
  | some previous =>
    if previous.ownerId ≠ input.ownerId ∨ input.previousWindowId ≠ some previous.lastWindowId then
      conflict "Sandbox owner or previous window differs"
    else if previous.runtimeGeneration = input.runtimeGeneration then
      if previous.quoteId ≠ input.quoteId ∨ previous.coveredUntil ≤ now ∨
          min (now + 30) (2 ^ 63 - 1) < previous.coveredUntil then
        conflict "Sandbox renewal requires its current quote and the final 30 seconds of live coverage"
      else return previous.coveredUntil
    else
      let generation ← orInvalid "Sandbox generation overflow"
        (checkedI64 (previous.runtimeGeneration + 1))
      if input.runtimeGeneration ≠ generation ∨ input.quoteId = previous.quoteId ∨
          now < previous.coveredUntil then
        conflict "A new Sandbox generation requires a fresh quote after prior coverage ends"
      else return prospective

def secondsPerDay : ℤ := 86400

/-- Civil dates are supported for the years from -262143 to 262142. -/
def supportedYear (year : ℤ) : Bool := -262143 ≤ year ∧ year ≤ 262142

/-- A provider event belongs to one invoice month: coverage ends at its boundary. -/
def windowUntil (start seconds : ℤ) : Except AppError ℤ :=
  let month := Billing.monthOfDay (start / secondsPerDay)
  if !supportedYear month.1 then invalid "Invalid Sandbox timestamp"
  else
    let next := Billing.nextMonth month
    if !supportedYear next.1 then invalid "Invalid Sandbox month boundary"
    else do
      let sum ← orInvalid "Sandbox coverage overflow" (checkedI64 (start + seconds))
      return min sum (Billing.firstDayOfMonth next.1 next.2 * secondsPerDay)

/-- Coverage ends where the next rate card takes effect. -/
def coverageLimit (rateCards : List SandboxRateCard) (rateId : Id) (start stop : ℤ) :
    Except AppError ℤ := do
  if rateCards.all (·.version ≠ 1) then unavailable "CMA initial rate card is missing"
  else
    let at_ ← orInvalid "Sandbox time overflow" (checkedI64 (start * 1000))
    match newest (fun card => card.effectiveFrom) (rateCards.filter (·.effectiveFrom ≤ at_)) with
    | none => unavailable "CMA rate card is not configured"
    | some current =>
      if current.id ≠ rateId then
        conflict "CMA rate changed; finish prior coverage and obtain a fresh quote for a new lifecycle operation"
      else if !current.synced then unavailable "CMA rate card is not synchronized"
      else
        match oldest (fun card => card.effectiveFrom) (rateCards.filter (at_ < ·.effectiveFrom)) with
        | none => return stop
        | some next => return min stop (next.effectiveFrom / 1000)

/-- The quote accepts one operation, and only before it expires. -/
def acceptQuote (quote : SandboxBillingQuote) (operationId : Id) (now : Time) :
    Except AppError SandboxBillingQuote :=
  match quote.acceptedOperationId with
  | some operation =>
    if operation ≠ operationId then conflict "Sandbox accepted operation differs" else .ok quote
  | none =>
    if quote.acceptBefore ≤ now then conflict "Sandbox quote expired"
    else .ok { quote with acceptedOperationId := some operationId, acceptedAt := some now }

/-- What a request was checked against before its transaction: the quote as it was
read then, and whether the producer, the owner, the wallet, the catalog and the
funding of the window pass their checks. -/
structure Admission where
  quote : SandboxBillingQuote
  passes : Bool

section

variable (digest : ReserveSandboxWindow → String)

/-- One admission; a request that has a window already gets it back. -/
def reserveSandboxWindow (producer : Id) (admission : Admission) (now : Time)
    (input : ReserveSandboxWindow) (s : State) : Except AppError (State × SandboxBillingWindow) := do
  let estimated ← finiteQuantities (units input.allocation) input.seconds
  if input.runtimeGeneration ≤ 0 ∨ estimated.all (· = 0) then
    invalid "Sandbox funding requires a generation and nonzero allocation"
  else
    match s.windows.find? fun w => w.producerId = producer ∧ w.requestId = input.requestId with
    | some receipt => do
      let receipt ← replay receipt (digest input)
      return (s, receipt)
    | none =>
      let quote := admission.quote
      if quote.id ≠ input.quoteId ∨ quote.producerId ≠ producer ∨ quote.ownerId ≠ input.ownerId ∨
          quote.sandboxId ≠ input.sandboxId then
        invalid "Sandbox quote does not match this request"
      else if (List.zip (units input.allocation) (units quote.maximumAllocation)).any
          fun pair => pair.2 < pair.1 then
        conflict "Sandbox allocation or catalog differs from its quote"
      else if !admission.passes then unavailable "Sandbox admission is unavailable"
      else
        match s.quotes.lookup quote.id with
        | none => conflict "Sandbox quote disappeared"
        | some stored => do
          let accepted ← acceptQuote stored input.operationId now
          let cursor := s.cursors.lookup (producer, quote.sandboxId)
          let start ← nextCoverage cursor input (now / 1000)
          let renewal := cursor.any (·.runtimeGeneration = input.runtimeGeneration)
          if !renewal && quote.acceptedAt.isSome then
            conflict "A new Sandbox generation requires a previously unaccepted quote"
          else if !renewal && cursor.isSome && s.windows.any (fun w => w.producerId = producer ∧
              w.sandboxId = quote.sandboxId ∧ w.finalizedAt = none) then
            conflict "Prior Sandbox generation requires complete usage evidence"
          else
            let limit ← windowUntil start input.seconds
            let stop ← coverageLimit s.rateCards quote.rateCardId start limit
            let _ ← finiteQuantities (units input.allocation) (stop - start)
            let window :=
              { id := s.nextId
                producerId := producer
                requestId := input.requestId
                requestDigest := digest input
                quoteId := quote.id
                ownerId := quote.ownerId
                sandboxId := quote.sandboxId
                runtimeGeneration := input.runtimeGeneration
                coveredFrom := start
                coveredUntil := stop
                allocation := input.allocation
                createdAt := now
                finalizedAt := none }
            let next :=
              { producerId := producer
                sandboxId := quote.sandboxId
                ownerId := quote.ownerId
                quoteId := quote.id
                runtimeGeneration := input.runtimeGeneration
                coveredUntil := stop
                lastWindowId := window.id
                evidenceCoveredUntil := cursor.bind (·.evidenceCoveredUntil)
                lastEvidenceWindowId := cursor.bind (·.lastEvidenceWindowId)
                updatedAt := now }
            return ({ s with
              quotes := s.quotes.insert accepted.id accepted
              cursors := s.cursors.insert (producer, quote.sandboxId) next
              windows := s.windows ++ [window]
              nextId := s.nextId + 1 }, window)

/-- Records accepted evidence of the whole window; the evidence itself is checked
against the coverage before. -/
def finalizeSandboxWindow (now : Time) (windowId : Id) (s : State) : Except AppError State :=
  match s.windows.find? (·.id = windowId) with
  | none => invalid "Sandbox evidence identity does not match a funded window"
  | some window =>
    if window.finalizedAt.isSome then .ok s
    else
      match s.cursors.lookup (window.producerId, window.sandboxId) with
      | none => conflict "Sandbox evidence cursor is missing"
      | some cursor => .ok { s with
          windows := s.windows.map fun w =>
            if w.id = windowId then { w with finalizedAt := some now } else w
          cursors := s.cursors.insert (window.producerId, window.sandboxId) { cursor with
            evidenceCoveredUntil := some window.coveredUntil
            lastEvidenceWindowId := some windowId
            updatedAt := now } }

inductive Operation where
  | publishRate (card : SandboxRateCard)
  | syncRate (id : Id) (synced : Bool)
  | quote (quote : SandboxBillingQuote)
  | reserve (producer : Id) (admission : Admission) (now : Time) (input : ReserveSandboxWindow)
  | finalize (now : Time) (windowId : Id)

def apply : Operation → State → Except AppError State
  | .publishRate card, s => .ok { s with rateCards := s.rateCards ++ [card] }
  | .syncRate id synced, s => .ok { s with
      rateCards := s.rateCards.map fun card =>
        if card.id = id then { card with synced := synced } else card }
  | .quote quote, s =>
    if (s.quotes.lookup quote.id).isSome then .error .duplicateKey
    else .ok { s with quotes := s.quotes.insert quote.id quote }
  | .reserve producer admission now input, s =>
    (reserveSandboxWindow digest producer admission now input s).map Prod.fst
  | .finalize now windowId, s => finalizeSandboxWindow now windowId s

/-- Admissions of any producers for any Sandboxes, from the first one on. -/
def sandboxRuntime : Transactions where
  State := State
  Op := Operation
  Err := AppError
  Initial := fun s => s.cursors = ∅ ∧ s.windows = []
  apply := apply digest

end

/-!
Evidence of a funded window: a chain of ledger segments, each an allocation over a span of seconds.
What a window is charged is the allocation integrated over its seconds.
-/

/-- CPU millicores, memory MiB and disk GiB, in that order. -/
abbrev Amounts := Fin 3 → ℤ

def maxEvidenceIntervals : ℕ := 1024

/-- A segment; its numbers are 64-bit ones. -/
structure IntervalEvidence where
  revision : ℤ
  startedAt : ℤ
  endedAt : ℤ
  allocation : Amounts
  quantity : Amounts
  revisionFits : -2 ^ 63 ≤ revision ∧ revision < 2 ^ 63
  quantityFits : ∀ i, -2 ^ 63 ≤ quantity i ∧ quantity i < 2 ^ 63

/-- The product of an allocation and its seconds, in 64 bits. -/
def checkedProducts (allocation : Amounts) (seconds : ℤ) : Option Amounts :=
  if ∀ i, -2 ^ 63 ≤ allocation i * seconds ∧ allocation i * seconds < 2 ^ 63 then
    some fun i => allocation i * seconds
  else none

def checkedSums (total quantity : Amounts) : Option Amounts :=
  if ∀ i, -2 ^ 63 ≤ total i + quantity i ∧ total i + quantity i < 2 ^ 63 then
    some fun i => total i + quantity i
  else none

/-- `allocation_quantities` -/
def arrayQuantities (allocation : Amounts) (seconds : ℤ) : Except String Amounts :=
  if seconds < 0 ∨ ∃ i, allocation i < 0 then
    .error "Sandbox quantities must be non-negative integers"
  else
    match checkedProducts allocation seconds with
    | none => .error "Sandbox allocation quantity overflow"
    | some quantity => .ok quantity

/-- `finite_quantities` -/
def arrayFiniteQuantities (allocation : Amounts) (seconds : ℤ) : Except String Amounts :=
  if ¬(1 ≤ seconds ∧ seconds ≤ maxWindowSeconds) then
    .error "Sandbox funding requires a finite window of at most 300 seconds"
  else arrayQuantities allocation seconds

/-- Where the loop over the segments is. -/
structure EvidenceScan where
  cursor : ℤ
  previous : Option IntervalEvidence
  total : Amounts

def Follows : Option IntervalEvidence → IntervalEvidence → Prop
  | none, _ => True
  | some last, interval =>
    checkedI64 (last.revision + 1) = some interval.revision ∧ last.endedAt = interval.startedAt

instance : (previous : Option IntervalEvidence) → (interval : IntervalEvidence) →
    Decidable (Follows previous interval)
  | none, _ => .isTrue trivial
  | some _, _ => inferInstanceAs (Decidable (_ ∧ _))

/-- One round of the loop. -/
def scanInterval (start stop : ℤ) (allocation : Amounts) (s : EvidenceScan)
    (interval : IntervalEvidence) : Except String EvidenceScan :=
  if interval.revision ≤ 0 ∨ interval.startedAt < 0 ∨ interval.endedAt < interval.startedAt then
    .error "Invalid Sandbox ledger interval"
  else if ¬Follows s.previous interval then
    .error "Sandbox ledger revisions or intervals are not contiguous"
  else do
    let recorded ← arrayQuantities interval.allocation (interval.endedAt - interval.startedAt)
    if recorded ≠ interval.quantity then
      .error "Sandbox ledger arithmetic does not match its allocation"
    else if interval.endedAt < start ∨ stop < interval.startedAt then
      .error "Sandbox ledger interval is outside funded coverage"
    else
      let first := max interval.startedAt start
      let last := min interval.endedAt stop
      if first ≠ s.cursor ∨ last < first then
        .error "Sandbox ledger has a gap or overlap in funded coverage"
      else if first < last then
        if ∃ i, allocation i < interval.allocation i then
          .error "Sandbox allocation exceeds the accepted reservation"
        else do
          let quantity ← arrayQuantities interval.allocation (last - first)
          match checkedSums s.total quantity with
          | none => .error "Sandbox evidence quantity overflow"
          | some total => .ok ⟨last, some interval, total⟩
      else .ok ⟨last, some interval, s.total⟩

def scanIntervals (start stop : ℤ) (allocation : Amounts) :
    EvidenceScan → List IntervalEvidence → Except String EvidenceScan
  | s, [] => .ok s
  | s, interval :: rest => do
    let s ← scanInterval start stop allocation s interval
    scanIntervals start stop allocation s rest

/-- `evidenced_quantities` -/
def evidencedQuantities (start stop : ℤ) (allocation : Amounts) (intervals : List IntervalEvidence) :
    Except String Amounts :=
  if start < 0 ∨ stop ≤ start ∨ maxWindowSeconds < stop - start then
    .error "Invalid funded Sandbox interval"
  else do
    let maximum ← arrayFiniteQuantities allocation (stop - start)
    if intervals = [] ∨ maxEvidenceIntervals < intervals.length then
      .error "Sandbox evidence must be a bounded nonempty ledger range"
    else do
      let s ← scanIntervals start stop allocation ⟨start, none, fun _ => 0⟩ intervals
      if s.cursor ≠ stop ∨ ∃ i, maximum i < s.total i then
        .error "Sandbox evidence does not close the funded window"
      else .ok s.total

end NyxId.SandboxRuntime
