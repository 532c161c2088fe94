import NyxId.UsageMeter
import Mathlib.Data.List.Sort

/-!
Verification of a stored hash chain, page by page. The audit chain and the billing
ledger walk their entries in the same way and differ in what they read of an entry.
-/

namespace NyxId.ChainVerify

/-- What verification reads of an entry: its place and links as stored, the hash that
its content gives, and whether its content is well formed. -/
structure ChainReader (E : Type) where
  seq : E → ℤ
  prevHash : E → String
  entryHash : E → String
  computeHash : E → Except AppError String
  balanced : E → Bool

inductive BreakKind where
  | unbalanced
  | gap
  | linkMismatch
  | hashMismatch
  deriving DecidableEq

structure ChainBreak where
  breakSeq : ℤ
  breakKind : BreakKind
  expected : String
  actual : String
  deriving DecidableEq

inductive Status where
  | ok
  | broken
  deriving DecidableEq

structure VerifyReport where
  status : Status
  checkedCount : ℕ
  headSeq : Option ℤ
  headHash : Option String
  breakInfo : Option ChainBreak
  nextFromSeq : Option ℤ
  deriving DecidableEq

def genesisPrevHash : String := String.ofList (List.replicate 64 '0')

def defaultVerifyLimit : ℤ := 10000

def maxVerifyLimit : ℤ := 10000

/-- Where a walk stands: entries checked, the number it expects next, the hash that the
next entry has to link to, and the break that stopped it. -/
structure Walk where
  checked : ℕ
  expectedSeq : ℤ
  expectedPrevHash : String
  breakInfo : Option ChainBreak
  deriving DecidableEq

variable {E : Type} (K : ChainReader E)

def walk : List E → Walk → Except AppError Walk
  | [], w => .ok w
  | entry :: entries, w =>
    if K.seq entry ≠ w.expectedSeq then
      .ok { w with breakInfo := some (.mk w.expectedSeq .gap (toString w.expectedSeq)
          (toString (K.seq entry))) }
    else if K.prevHash entry ≠ w.expectedPrevHash then
      .ok { w with breakInfo := some (.mk w.expectedSeq .linkMismatch w.expectedPrevHash
          (K.prevHash entry)) }
    else if !K.balanced entry then
      .ok { w with breakInfo := some (.mk (K.seq entry) .unbalanced "balanced v2 postings"
          "invalid postings") }
    else do
      let expectedEntryHash ← K.computeHash entry
      if K.entryHash entry ≠ expectedEntryHash then
        .ok { w with breakInfo := some (.mk w.expectedSeq .hashMismatch expectedEntryHash
            (K.entryHash entry)) }
      else
        walk entries
          { w with
            checked := w.checked + 1
            expectedSeq := w.expectedSeq + 1
            expectedPrevHash := K.entryHash entry }

/-- The stored entries of a range, in the order of their numbers. -/
def window (stored : List E) (fromSeq : ℤ) (toSeq : Option ℤ) : List E :=
  (stored.mergeSort fun a b => K.seq a ≤ K.seq b).filter fun entry =>
    fromSeq ≤ K.seq entry ∧ toSeq.all (K.seq entry ≤ ·)

/-- The hash that the first entry of a range has to link to. -/
def anchor (stored : List E) (fromSeq : ℤ) : Option String :=
  if fromSeq = 1 then some genesisPrevHash
  else (stored.find? fun entry => K.seq entry = fromSeq - 1).map K.entryHash

def brokenReport (checkedCount : ℕ) (head : Option (ℤ × String)) (breakInfo : ChainBreak) :
    VerifyReport where
  status := .broken
  checkedCount := checkedCount
  headSeq := head.map Prod.fst
  headHash := head.map Prod.snd
  breakInfo := some breakInfo
  nextFromSeq := none

/-- One page of a range that starts at a valid number. -/
def verifyPage (stored : List E) (head : Option (ℤ × String)) (fromSeq : ℤ) (toSeq : Option ℤ)
    (limit : ℕ) : Except AppError VerifyReport :=
  let entries := (window K stored fromSeq toSeq).take limit
  match anchor K stored fromSeq with
  | none => .ok (brokenReport 0 head
      ⟨fromSeq, .gap, toString (fromSeq - 1), "missing"⟩)
  | some expectedPrevHash => do
    let w ← walk K entries ⟨0, fromSeq, expectedPrevHash, none⟩
    match w.breakInfo with
    | some breakInfo => return brokenReport w.checked head breakInfo
    | none =>
      let more := entries.length = limit ∧ toSeq.all (w.expectedSeq ≤ ·) ∧
        head.any fun tail => w.expectedSeq ≤ tail.1
      return {
        status := .ok
        checkedCount := w.checked
        headSeq := head.map Prod.fst
        headHash := head.map Prod.snd
        breakInfo := none
        nextFromSeq := if more then some w.expectedSeq else none }

def checkRange (fromSeq : ℤ) (toSeq : Option ℤ) : Except AppError Unit :=
  if fromSeq < 1 then
    .error (.validationError "from_seq must be greater than or equal to 1")
  else if toSeq.any (· < fromSeq) then
    .error (.validationError "to_seq must be greater than or equal to from_seq")
  else .ok ()

def checkLimit (limit : ℤ) : Except AppError Unit :=
  if 1 ≤ limit ∧ limit ≤ maxVerifyLimit then .ok ()
  else .error (.validationError "limit must be between 1 and 10000")

def verify (stored : List E) (head : Option (ℤ × String)) (fromSeq toSeq limit : Option ℤ) :
    Except AppError VerifyReport := do
  let fromSeq := fromSeq.getD 1
  checkRange fromSeq toSeq
  let limit := limit.getD defaultVerifyLimit
  checkLimit limit
  verifyPage K stored head fromSeq toSeq limit.toNat

end NyxId.ChainVerify
