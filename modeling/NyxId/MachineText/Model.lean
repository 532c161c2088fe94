import NyxId.Encoding.Text
import Mathlib.Data.List.Lex
import Mathlib.Data.List.Destutter
import Mathlib.Data.List.Sort
import Mathlib.Data.List.Basic

/-!
Output of machine commands: the ring that keeps the last bytes of a stream, the registry
of secret patterns, and the scans that hide them. An output is kept as a list of pieces,
which remember the position every clear byte is read from.
-/

namespace NyxId.MachineText

open Encoding

abbrev Bytes := List UInt8

/-- Encodings from other packages, on the bytes of a text. -/
structure Encoders where
  standard : Bytes → Bytes
  standardNoPad : Bytes → Bytes
  urlSafe : Bytes → Bytes
  urlSafeNoPad : Bytes → Bytes
  hexEncode : Bytes → Bytes
  hexEncodeUpper : Bytes → Bytes
  urlencode : Bytes → Bytes

def percent : UInt8 := 37

def upperHexDigit (n : ℕ) : UInt8 := UInt8.ofNat (if n < 10 then 48 + n else 55 + n)

/-- `%{byte:02X}` for every byte. -/
def percentEncode (secret : Bytes) : Bytes :=
  secret.flatMap fun byte =>
    [percent, upperHexDigit (byte.toNat / 16), upperHexDigit (byte.toNat % 16)]

def toAsciiLowercase (byte : UInt8) : UInt8 :=
  if 65 ≤ byte ∧ byte ≤ 90 then byte + 32 else byte

/-- The two bytes after every percent sign in lower case. -/
def lowerEscapes : Bytes → Bytes
  | [] => []
  | byte :: rest =>
    if byte = percent then
      match rest with
      | [] => [byte]
      | [high] => [byte, toAsciiLowercase high]
      | high :: low :: rest =>
        byte :: toAsciiLowercase high :: toAsciiLowercase low :: lowerEscapes rest
    else byte :: lowerEscapes rest

def maxSecretBytes : ℕ := 16384

def maxRegistryBytes : ℕ := 1024 * 1024

/-- The registered patterns, the longest first. -/
structure Redactor where
  patterns : List Bytes
  bytes : ℕ
  sorted : patterns.Pairwise fun a b => b.length ≤ a.length

def Redactor.new : Redactor := ⟨[], 0, List.Pairwise.nil⟩

def additions (encoders : Encoders) (patterns : List Bytes) (secret : Bytes) : List Bytes :=
  let encoded := percentEncode secret
  let all := [secret, encoders.standard secret, encoders.standardNoPad secret,
    encoders.urlSafe secret, encoders.urlSafeNoPad secret, encoders.hexEncode secret,
    encoders.hexEncodeUpper secret, encoders.urlencode secret, encoded.map toAsciiLowercase,
    encoded, lowerEscapes (encoders.urlencode secret)]
  let sorted := all.insertionSort (· ≤ ·)
  (sorted.destutter (· ≠ ·)).filter fun value => !patterns.contains value

theorem pairwise_insertionSort_length (patterns : List Bytes) :
    (patterns.insertionSort fun a b => b.length ≤ a.length).Pairwise fun a b =>
      b.length ≤ a.length := by
  have htotal : Std.Total fun a b : Bytes => b.length ≤ a.length :=
    ⟨fun a b => le_total b.length a.length⟩
  have htrans : IsTrans Bytes fun a b => b.length ≤ a.length :=
    ⟨fun _ _ _ hab hbc => hbc.trans hab⟩
  exact List.pairwise_insertionSort _ patterns

/-- A secret is refused when it is empty or too long, or the registry is full. -/
def Redactor.register (encoders : Encoders) (redactor : Redactor) (secret : Bytes) :
    Except String Redactor :=
  if secret.isEmpty || secret.length > maxSecretBytes then
    .error "invalid secret length"
  else
    let added := additions encoders redactor.patterns secret
    let size := (added.map List.length).sum
    if redactor.bytes + size > maxRegistryBytes then
      .error "scrub registry full"
    else
      .ok ⟨(redactor.patterns ++ added).insertionSort fun a b => b.length ≤ a.length,
        redactor.bytes + size, pairwise_insertionSort_length _⟩

/-- A registry after secrets were offered to it, some of them refused. -/
def Redactor.registerAll (encoders : Encoders) (secrets : List Bytes) : Redactor :=
  secrets.foldl (fun redactor secret => match redactor.register encoders secret with
    | .ok next => next
    | .error _ => redactor) .new

def Redactor.maxPatternBytes (redactor : Redactor) : ℕ :=
  (redactor.patterns.head?).elim 0 List.length

/-- A part of an output: a byte in clear with its position, or a mark. -/
inductive Piece
  | clear (position : ℕ) (byte : UInt8)
  | redacted
  | truncated
deriving DecidableEq, Repr

def Piece.bytes : Piece → Bytes
  | .clear _ byte => [byte]
  | .redacted => utf8 "[redacted]"
  | .truncated => utf8 "\n[truncated]\n"

def Piece.clear? : Piece → Option (ℕ × UInt8)
  | .clear position byte => some (position, byte)
  | _ => none

/-- Positions of a slice as positions of the text it begins in at `base`. -/
def Piece.shift (base : ℕ) : Piece → Piece
  | .clear position byte => .clear (base + position) byte
  | .redacted => .redacted
  | .truncated => .truncated

structure Scan where
  coveredUntil : ℕ
  emitted : Bool
  output : List Piece

/-- The end of the longest pattern at an index, when it is beyond the end so far. -/
def extend (patterns : List Bytes) (value : Bytes) (index : ℕ) (until_ : ℕ) : ℕ :=
  patterns.foldl (fun until_ pattern =>
    if pattern.isPrefixOf (value.drop index) then max until_ (index + pattern.length)
    else until_) until_

def scanStep (patterns : List Bytes) (value : Bytes) (start : ℕ) (scan : Scan) (index : ℕ) :
    Scan :=
  let emitted := if scan.coveredUntil ≤ index then false else scan.emitted
  let coveredUntil := extend patterns value index scan.coveredUntil
  if start ≤ index then
    if index < coveredUntil then
      if !emitted then ⟨coveredUntil, true, scan.output ++ [.redacted]⟩
      else ⟨coveredUntil, emitted, scan.output⟩
    else ⟨coveredUntil, emitted, scan.output ++ [.clear index (value.getD index 0)]⟩
  else ⟨coveredUntil, emitted, scan.output⟩

def Redactor.redactWindow (redactor : Redactor) (value : Bytes) (start stop : ℕ) : List Piece :=
  let start := min start value.length
  let stop := max (min stop value.length) start
  if redactor.patterns.isEmpty then
    (List.range' start (stop - start)).map fun index => .clear index (value.getD index 0)
  else
    ((List.range stop).foldl (scanStep redactor.patterns value start) ⟨0, false, []⟩).output

/-- The scan of a streaming call: a match may move the cut. -/
def streamCut (patterns : List Bytes) (pending : Bytes) : ℕ → ℕ → ℕ → ℕ
  | 0, _, cut => cut
  | fuel + 1, index, cut =>
    if index < cut then streamCut patterns pending fuel (index + 1) (extend patterns pending index cut)
    else cut

/-- The output of a streaming call and the bytes that stay pending. An index of the scan is
below the number of pending bytes. -/
def Redactor.stream (redactor : Redactor) (pending : Bytes) (eof : Bool) : List Piece × Bytes :=
  let start := if eof then pending.length else pending.length - redactor.maxPatternBytes
  let cut := streamCut redactor.patterns pending pending.length 0 start
  (redactor.redactWindow pending 0 cut, pending.drop cut)

/-- Bounded output with absolute offsets. A stream has less than 2^64 bytes. -/
structure OutputRing where
  head : Bytes
  headCapacity : ℕ
  bytes : Bytes
  capacity : ℕ
  stop : ℕ
deriving DecidableEq, Repr

namespace OutputRing

def new (capacity : ℕ) : OutputRing := ⟨[], 0, [], capacity, 0⟩

def withHead (capacity : ℕ) : OutputRing :=
  let headCapacity := min (capacity / 4) 4096
  ⟨[], headCapacity, [], capacity - headCapacity, 0⟩

def push (ring : OutputRing) (bytes : Bytes) : OutputRing :=
  let initial := min bytes.length (ring.headCapacity - ring.head.length)
  let kept := bytes.drop (bytes.length - ring.capacity)
  let excess := ring.bytes.length + kept.length - ring.capacity
  { ring with
    head := ring.head ++ bytes.take initial
    stop := ring.stop + bytes.length
    bytes := ring.bytes.drop excess ++ kept }

/-- The offset after the page, the page, and whether bytes before the ring are lost. -/
def readRedacted (ring : OutputRing) (offset limit : ℕ) (redactor : Redactor) :
    ℕ × List Piece × Bool :=
  let start := ring.stop - ring.bytes.length
  let offset := min (max offset start) ring.stop
  let stop := min (offset + limit) ring.stop
  let padding := redactor.maxPatternBytes
  let contextStart := max (offset - padding) start
  let contextEnd := min (stop + padding) ring.stop
  let bytes := (ring.bytes.drop (contextStart - start)).take (contextEnd - contextStart)
  -- a discarded prefix can hold the beginning of a secret
  let uncertainEnd := if start > 0 then min (start + padding) stop else offset
  let output := if uncertainEnd > offset then [Piece.redacted] else []
  (stop, output ++ (redactor.redactWindow bytes (max offset uncertainEnd - contextStart)
    (stop - contextStart)).map (Piece.shift contextStart), decide (start > 0))

def summaryRedacted (ring : OutputRing) (limit : ℕ) (redactor : Redactor) : List Piece × Bool :=
  if ring.stop ≤ limit ∧ ring.stop ≤ ring.bytes.length then
    let (_, bytes, truncated) := ring.readRedacted 0 limit redactor
    (bytes, truncated)
  else
    let requestedHead := min (limit / 2) ring.head.length
    let safeHead := if ring.stop > ring.head.length then
      ring.head.length - redactor.maxPatternBytes else ring.head.length
    let headEnd := min requestedHead safeHead
    let output := redactor.redactWindow ring.head 0 headEnd
    let output := if headEnd < requestedHead then output ++ [.redacted] else output
    let tailLimit := limit - requestedHead
    let (_, tail, _) := ring.readRedacted (ring.stop - tailLimit) tailLimit redactor
    (output ++ [.truncated] ++ tail, true)

end OutputRing

/-- The bytes of an output. -/
def render (output : List Piece) : Bytes := output.flatMap Piece.bytes

/-- The bytes that an output shows in clear, with their positions. -/
def clears (output : List Piece) : List (ℕ × UInt8) := output.filterMap Piece.clear?

/-!
What a scan of a window hides: exactly the bytes inside an occurrence of a pattern in the
scanned text. Occurrences in a slice are those of the text that fit into it.
-/

/-- A pattern begins at an index. -/
def Occurs (patterns : List Bytes) (value : Bytes) (index length : ℕ) : Prop :=
  ∃ pattern ∈ patterns, pattern <+: value.drop index ∧ pattern.length = length

/-- The byte lies inside an occurrence of a pattern. -/
def covered (patterns : List Bytes) (value : Bytes) (position : ℕ) : Bool :=
  (List.range (position + 1)).any fun index => patterns.any fun pattern =>
    pattern.isPrefixOf (value.drop index) && decide (position < index + pattern.length)

variable {patterns : List Bytes} {value : Bytes}

theorem covered_iff {position : ℕ} : covered patterns value position = true ↔
    ∃ index length, Occurs patterns value index length ∧ index ≤ position ∧
      position < index + length := by
  unfold covered Occurs
  simp only [List.any_eq_true, List.mem_range, Bool.and_eq_true, decide_eq_true_eq,
    List.isPrefixOf_iff_prefix]
  constructor
  · rintro ⟨index, hindex, pattern, hpattern, hstart, hlt⟩
    exact ⟨index, pattern.length, ⟨pattern, hpattern, hstart, rfl⟩, by omega, hlt⟩
  · rintro ⟨index, length, ⟨pattern, hpattern, hstart, rfl⟩, hindex, hlt⟩
    exact ⟨index, by omega, pattern, hpattern, hstart, hlt⟩

/-- An occurrence lies inside the text. -/
theorem Occurs.le_length {index length : ℕ} (h : Occurs patterns value index length)
    (hpos : 0 < length) : index + length ≤ value.length := by
  obtain ⟨pattern, -, hstart, rfl⟩ := h
  have hle := hstart.length_le
  rw [List.length_drop] at hle
  omega

theorem Occurs.slice_iff {base size index length : ℕ} :
    Occurs patterns ((value.drop base).take size) index length ↔
      Occurs patterns value (base + index) length ∧ length ≤ size - index := by
  unfold Occurs
  constructor
  · rintro ⟨pattern, hpattern, hstart, rfl⟩
    rw [List.drop_take, List.drop_drop, List.prefix_take_iff] at hstart
    exact ⟨⟨pattern, hpattern, hstart.1, rfl⟩, hstart.2⟩
  · rintro ⟨⟨pattern, hpattern, hstart, rfl⟩, hle⟩
    refine ⟨pattern, hpattern, ?_, rfl⟩
    rw [List.drop_take, List.drop_drop, List.prefix_take_iff]
    exact ⟨hstart, hle⟩

theorem lt_extend_iff {index until_ position : ℕ} :
    position < extend patterns value index until_ ↔
      position < until_ ∨ ∃ length, Occurs patterns value index length ∧
        position < index + length := by
  unfold extend Occurs
  induction patterns generalizing until_ with
  | nil => simp
  | cons pattern rest ih =>
    rw [List.foldl_cons, ih]
    by_cases hstart : pattern.isPrefixOf (value.drop index) = true
    · rw [if_pos hstart]
      rw [List.isPrefixOf_iff_prefix] at hstart
      simp only [List.exists_mem_cons_iff]
      constructor
      · rintro (hlt | ⟨length, ⟨other, hother, hfits, rfl⟩, hlt⟩)
        · rcases lt_max_iff.mp hlt with hlt | hlt
          · exact Or.inl hlt
          · exact Or.inr ⟨_, Or.inl ⟨hstart, rfl⟩, hlt⟩
        · exact Or.inr ⟨_, Or.inr ⟨other, hother, hfits, rfl⟩, hlt⟩
      · rintro (hlt | ⟨length, ⟨-, rfl⟩ | ⟨other, hother, hfits, rfl⟩, hlt⟩)
        · exact Or.inl (lt_max_of_lt_left hlt)
        · exact Or.inl (lt_max_of_lt_right hlt)
        · exact Or.inr ⟨_, ⟨other, hother, hfits, rfl⟩, hlt⟩
    · rw [if_neg hstart]
      rw [List.isPrefixOf_iff_prefix] at hstart
      simp only [List.exists_mem_cons_iff, hstart, false_and, false_or]

theorem le_extend (index until_ : ℕ) : until_ ≤ extend patterns value index until_ := by
  by_contra hlt
  have hself := @lt_extend_iff patterns value index until_
    (extend patterns value index until_)
  have hlt : extend patterns value index until_ < until_ := not_le.mp hlt
  exact absurd (hself.mpr (Or.inl hlt)) (lt_irrefl _)

theorem clears_append (a b : List Piece) : clears (a ++ b) = clears a ++ clears b :=
  List.filterMap_append

/-- The clear bytes of a range of positions. -/
def exposed (patterns : List Bytes) (value : Bytes) (start size : ℕ) : List (ℕ × UInt8) :=
  ((List.range' start size).filter fun index => !covered patterns value index).map fun index =>
    (index, value.getD index 0)

/-- A scan after its first indices. -/
structure ScanInv (patterns : List Bytes) (value : Bytes) (start count : ℕ) (scan : Scan) :
    Prop where
  coveredUntil : ∀ position, position < scan.coveredUntil ↔
    ∃ index < count, ∃ length, Occurs patterns value index length ∧ position < index + length
  output : clears scan.output = exposed patterns value start (count - start)

theorem exposed_succ {start size : ℕ} :
    exposed patterns value start (size + 1) = exposed patterns value start size ++
      if covered patterns value (start + size) = true then []
      else [(start + size, value.getD (start + size) 0)] := by
  unfold exposed
  rw [List.range'_concat, Nat.one_mul, List.filter_append, List.map_append]
  congr 1
  by_cases hcovered : covered patterns value (start + size) = true
  · simp [hcovered]
  · simp [hcovered]

/-- One index of a scan. -/
theorem scanInv_step {start count : ℕ} {scan : Scan} (h : ScanInv patterns value start count scan) :
    ScanInv patterns value start (count + 1) (scanStep patterns value start scan count) := by
  have huntil : ∀ position, position < extend patterns value count scan.coveredUntil ↔
      ∃ index < count + 1, ∃ length, Occurs patterns value index length ∧
        position < index + length := by
    intro position
    rw [lt_extend_iff, h.coveredUntil]
    constructor
    · rintro (⟨index, hindex, hcovers⟩ | hcovers)
      · exact ⟨index, by omega, hcovers⟩
      · exact ⟨count, by omega, hcovers⟩
    · rintro ⟨index, hindex, hcovers⟩
      by_cases hlast : index = count
      · exact Or.inr (hlast ▸ hcovers)
      · exact Or.inl ⟨index, by omega, hcovers⟩
  have hcovered : count < extend patterns value count scan.coveredUntil ↔
      covered patterns value count = true := by
    rw [huntil, covered_iff]
    constructor
    · rintro ⟨index, hindex, length, hoccurs, hlt⟩
      exact ⟨index, length, hoccurs, by omega, hlt⟩
    · rintro ⟨index, length, hoccurs, hindex, hlt⟩
      exact ⟨index, by omega, length, hoccurs, hlt⟩
  unfold scanStep
  dsimp only
  generalize (if scan.coveredUntil ≤ count then false else scan.emitted) = emitted
  by_cases hstart : start ≤ count
  · have hsize : count + 1 - start = (count - start) + 1 := by omega
    have hposition : start + (count - start) = count := by omega
    have hexposed : exposed patterns value start (count + 1 - start) =
        exposed patterns value start (count - start) ++
          if covered patterns value count = true then [] else [(count, value.getD count 0)] := by
      rw [hsize, exposed_succ, hposition]
    rw [if_pos hstart]
    by_cases hlt : count < extend patterns value count scan.coveredUntil
    · have hhidden := hcovered.mp hlt
      rw [if_pos hhidden, List.append_nil] at hexposed
      rw [if_pos hlt]
      cases emitted with
      | false =>
        refine ⟨huntil, ?_⟩
        show clears (scan.output ++ [.redacted]) = _
        rw [hexposed, ← h.output, clears_append]
        exact List.append_nil _
      | true => exact ⟨huntil, h.output.trans hexposed.symm⟩
    · have hshown := mt hcovered.mpr hlt
      rw [if_neg hshown] at hexposed
      rw [if_neg hlt]
      refine ⟨huntil, ?_⟩
      rw [hexposed, ← h.output, clears_append]
      rfl
  · rw [if_neg hstart]
    refine ⟨huntil, ?_⟩
    have hbefore : count + 1 - start = 0 := by omega
    have hsame : count - start = 0 := by omega
    show clears scan.output = _
    rw [h.output, hbefore, hsame]

theorem scanInv_range (start count : ℕ) : ScanInv patterns value start count
    ((List.range count).foldl (scanStep patterns value start) ⟨0, false, []⟩) := by
  induction count with
  | zero =>
    refine ⟨fun position => ?_, ?_⟩
    · constructor
      · intro hlt
        exact absurd hlt (Nat.not_lt_zero _)
      · rintro ⟨index, hindex, -⟩
        exact absurd hindex (Nat.not_lt_zero _)
    · rw [Nat.zero_sub]
      rfl
  | succ count ih =>
    rw [List.range_succ, List.foldl_append]
    exact scanInv_step ih

/-- A redacted window shows the bytes that no occurrence covers, in their order. -/
theorem clears_redactWindow {redactor : Redactor} {start stop : ℕ} (hstart : start ≤ stop)
    (hstop : stop ≤ value.length) : clears (redactor.redactWindow value start stop) =
      exposed redactor.patterns value start (stop - start) := by
  unfold Redactor.redactWindow
  have hmin : min start value.length = start := by omega
  have hmax : max (min stop value.length) start = stop := by omega
  simp only [hmin, hmax]
  split
  · rename_i hempty
    have hnone : redactor.patterns = [] := List.isEmpty_iff.mp hempty
    have hcovered (index : ℕ) : covered redactor.patterns value index = false := by
      rw [hnone]
      simp [covered]
    unfold exposed clears
    simp only [hcovered, Bool.not_false, List.filter_true, List.filterMap_map]
    rw [← List.filterMap_eq_map]
    rfl
  · exact (scanInv_range start stop).output

theorem clears_shift (base : ℕ) (output : List Piece) :
    clears (output.map (Piece.shift base)) =
      (clears output).map fun shown => (base + shown.1, shown.2) := by
  unfold clears
  rw [List.filterMap_map, List.map_filterMap]
  refine List.filterMap_congr fun piece _ => ?_
  cases piece <;> rfl

/-- The longest pattern bounds every occurrence. -/
theorem Occurs.le_max {redactor : Redactor} {index length : ℕ}
    (h : Occurs redactor.patterns value index length) : length ≤ redactor.maxPatternBytes := by
  obtain ⟨pattern, hpattern, -, rfl⟩ := h
  have hsorted := redactor.sorted
  unfold Redactor.maxPatternBytes
  cases hpatterns : redactor.patterns with
  | nil =>
    rw [hpatterns] at hpattern
    cases hpattern
  | cons first rest =>
    rw [hpatterns] at hpattern hsorted
    rw [List.head?_cons, Option.elim_some]
    rcases List.mem_cons.mp hpattern with rfl | hmem
    · exact le_refl _
    · exact (List.pairwise_cons.mp hsorted).1 pattern hmem

end NyxId.MachineText
