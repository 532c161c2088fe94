import NyxId.MachineText.Model

/-!
No secret byte leaves the output ring. The ring holds both ends of the pushed stream; the
padding around a page holds every occurrence that reaches into it, and where bytes before
the ring are lost, the first ones are hidden.
-/

namespace NyxId.MachineText

/-- The ring of a stream: its first bytes and its last ones. -/
structure OutputRing.Holds (ring : OutputRing) (stream : Bytes) : Prop where
  head : ring.head = stream.take ring.headCapacity
  bytes : ring.bytes = stream.drop (stream.length - ring.capacity)
  stop : ring.stop = stream.length

theorem drop_append_drop {stream more : Bytes} {capacity : ℕ} :
    (stream.drop (stream.length - capacity)).drop
        ((stream.drop (stream.length - capacity)).length +
          (more.drop (more.length - capacity)).length - capacity) ++
      more.drop (more.length - capacity) =
        (stream ++ more).drop ((stream ++ more).length - capacity) := by
  rw [List.drop_drop, List.drop_append, List.length_append, List.length_drop, List.length_drop]
  by_cases hmore : capacity ≤ more.length
  · have hdropped : stream.length ≤ stream.length + more.length - capacity := by omega
    have hkept : stream.length ≤ stream.length - capacity +
        (stream.length - (stream.length - capacity) + (more.length - (more.length - capacity)) -
          capacity) := by omega
    have hrest : stream.length + more.length - capacity - stream.length =
        more.length - capacity := by omega
    rw [List.drop_eq_nil_of_le hdropped, List.drop_eq_nil_of_le hkept, hrest]
  · have hrest : stream.length + more.length - capacity - stream.length = 0 := by omega
    have hall : more.length - capacity = 0 := by omega
    have hsame : stream.length - capacity +
        (stream.length - (stream.length - capacity) + (more.length - 0) - capacity) =
          stream.length + more.length - capacity := by omega
    rw [hrest, hall, hsame]

theorem OutputRing.Holds.push {ring : OutputRing} {stream : Bytes} (h : ring.Holds stream)
    (bytes : Bytes) : (ring.push bytes).Holds (stream ++ bytes) where
  head := by
    show ring.head ++ bytes.take (min bytes.length (ring.headCapacity - ring.head.length)) =
      (stream ++ bytes).take ring.headCapacity
    rw [List.take_append, h.head]
    congr 1
    rw [List.length_take]
    by_cases hfull : ring.headCapacity ≤ stream.length
    · have hnone : min bytes.length (ring.headCapacity - min ring.headCapacity stream.length) = 0 := by
        omega
      have hrest : ring.headCapacity - stream.length = 0 := by omega
      rw [hnone, hrest]
    · have hleft : ring.headCapacity - min ring.headCapacity stream.length =
          ring.headCapacity - stream.length := by omega
      rw [hleft, List.take_eq_take_iff]
      omega
  bytes := by
    show ring.bytes.drop (ring.bytes.length + (bytes.drop (bytes.length - ring.capacity)).length -
      ring.capacity) ++ bytes.drop (bytes.length - ring.capacity) = _
    rw [h.bytes]
    exact drop_append_drop
  stop := by
    show ring.stop + bytes.length = _
    rw [h.stop, List.length_append]

/-- A ring after pushes. -/
def OutputRing.pushAll (ring : OutputRing) (chunks : List Bytes) : OutputRing :=
  chunks.foldl OutputRing.push ring

theorem OutputRing.Holds.pushAll {ring : OutputRing} {stream : Bytes} (h : ring.Holds stream)
    (chunks : List Bytes) : (ring.pushAll chunks).Holds (stream ++ chunks.flatten) := by
  induction chunks generalizing ring stream with
  | nil =>
    rw [List.flatten_nil, List.append_nil]
    exact h
  | cons chunk rest ih =>
    rw [List.flatten_cons, ← List.append_assoc]
    exact ih (h.push chunk)

section

variable {redactor : Redactor} {stream : Bytes} {position : ℕ}

/-- A slice that holds everything within a pattern of a byte covers the byte when the
stream does. -/
theorem covered_slice {base size : ℕ} (hbase : base ≤ position)
    (hbefore : ∀ length, length ≤ redactor.maxPatternBytes → ∀ index, index ≤ position →
      position < index + length → base ≤ index)
    (hafter : ∀ length, length ≤ redactor.maxPatternBytes → ∀ index, index ≤ position →
      position < index + length → index + length ≤ stream.length → index + length ≤ base + size) :
    covered redactor.patterns ((stream.drop base).take size) (position - base) =
      covered redactor.patterns stream position := by
  rw [Bool.eq_iff_iff, covered_iff, covered_iff]
  constructor
  · rintro ⟨index, length, hoccurs, hindex, hlt⟩
    exact ⟨base + index, length, (Occurs.slice_iff.mp hoccurs).1, by omega, by omega⟩
  · rintro ⟨index, length, hoccurs, hindex, hlt⟩
    have hstart := hbefore length hoccurs.le_max index hindex hlt
    have hend := hafter length hoccurs.le_max index hindex hlt (hoccurs.le_length (by omega))
    have hshift : base + (index - base) = index := by omega
    refine ⟨index - base, length, Occurs.slice_iff.mpr ⟨by rw [hshift]; exact hoccurs, ?_⟩, ?_, ?_⟩
    · omega
    · omega
    · omega

theorem exposed_shift {patterns : List Bytes} {base start size count : ℕ}
    (hfits : start + size ≤ count)
    (hcovered : ∀ index, start ≤ index → index < start + size →
      covered patterns ((stream.drop base).take count) index =
        covered patterns stream (base + index)) :
    (exposed patterns ((stream.drop base).take count) start size).map
      (fun shown => (base + shown.1, shown.2)) = exposed patterns stream (base + start) size := by
  induction size with
  | zero => rfl
  | succ size ih =>
    have hlast := hcovered (start + size) (by omega) (by omega)
    have hbyte : ((stream.drop base).take count).getD (start + size) 0 =
        stream.getD (base + (start + size)) 0 := by
      rw [List.getD_eq_getElem?_getD, List.getD_eq_getElem?_getD, List.getElem?_take_of_lt (by omega),
        List.getElem?_drop]
    rw [exposed_succ, exposed_succ, List.map_append,
      ih (by omega) fun index hge hlt => hcovered index hge (by omega), Nat.add_assoc, hlast, hbyte]
    split
    · rfl
    · rfl

end

namespace OutputRing

/-- How many bytes of the stream are lost before the ring. -/
def lost (ring : OutputRing) : ℕ := ring.stop - ring.bytes.length

/-- The window that a read is about. -/
def windowStart (ring : OutputRing) (offset : ℕ) : ℕ := min (max offset ring.lost) ring.stop

def windowStop (ring : OutputRing) (offset limit : ℕ) : ℕ :=
  min (ring.windowStart offset + limit) ring.stop

/-- Beyond the reach of a pattern that begins in a lost prefix. -/
def certain (ring : OutputRing) (redactor : Redactor) (position : ℕ) : Bool :=
  ring.lost = 0 || ring.lost + redactor.maxPatternBytes ≤ position

/-- The bytes of a window that a read shows. -/
def windowClears (ring : OutputRing) (redactor : Redactor) (stream : Bytes) (offset limit : ℕ) :
    List (ℕ × UInt8) :=
  ((List.range' (ring.windowStart offset)
      (ring.windowStop offset limit - ring.windowStart offset)).filter fun position =>
    !covered redactor.patterns stream position && ring.certain redactor position).map
      fun position => (position, stream.getD position 0)

variable {ring : OutputRing} {stream : Bytes}

theorem Holds.lost_eq (h : ring.Holds stream) : ring.lost = stream.length - ring.capacity := by
  unfold lost
  rw [h.stop, h.bytes, List.length_drop]
  omega

/-- The ring holds the stream after the lost bytes. -/
theorem Holds.drop_lost (h : ring.Holds stream) : ring.bytes = stream.drop ring.lost := by
  rw [h.lost_eq]
  exact h.bytes

theorem Holds.lost_le (h : ring.Holds stream) : ring.lost ≤ stream.length := by
  rw [h.lost_eq]
  omega

/-- Up to the uncertain boundary the window shows nothing. -/
theorem windowClears_eq_exposed {redactor : Redactor} {offset limit first : ℕ}
    (hfirst : ring.windowStart offset ≤ first) (hlast : first ≤ ring.windowStop offset limit)
    (hhidden : ∀ position, ring.windowStart offset ≤ position → position < first →
      ring.certain redactor position = false)
    (hcertain : ∀ position, first ≤ position → position < ring.windowStop offset limit →
      ring.certain redactor position = true) :
    ring.windowClears redactor stream offset limit =
      exposed redactor.patterns stream first (ring.windowStop offset limit - first) := by
  unfold windowClears exposed
  have hsplit : List.range' (ring.windowStart offset)
      (ring.windowStop offset limit - ring.windowStart offset) =
        List.range' (ring.windowStart offset) (first - ring.windowStart offset) ++
          List.range' first (ring.windowStop offset limit - first) := by
    have hstart : first = ring.windowStart offset + 1 * (first - ring.windowStart offset) := by omega
    have hsize : ring.windowStop offset limit - ring.windowStart offset =
        first - ring.windowStart offset + (ring.windowStop offset limit - first) := by omega
    rw [hsize, ← List.range'_append, ← hstart]
  have hbefore : (List.range' (ring.windowStart offset) (first - ring.windowStart offset)).filter
      (fun position => !covered redactor.patterns stream position &&
        ring.certain redactor position) = [] := by
    apply List.filter_eq_nil_iff.mpr
    intro position hposition
    rw [List.mem_range'_1] at hposition
    rw [hhidden position hposition.1 (by omega), Bool.and_false]
    exact Bool.false_ne_true
  rw [hsplit, List.filter_append, hbefore, List.nil_append]
  congr 1
  refine List.filter_congr fun position hposition => ?_
  rw [List.mem_range'_1] at hposition
  rw [hcertain position hposition.1 (by omega), Bool.and_true]

theorem clears_mark (hide : Prop) [Decidable hide] (output : List Piece) :
    clears ((if hide then [Piece.redacted] else []) ++ output) = clears output := by
  rw [clears_append]
  split
  · rfl
  · rfl

theorem clears_append_mark (hide : Prop) [Decidable hide] (output : List Piece) :
    clears (if hide then output ++ [Piece.redacted] else output) = clears output := by
  split
  · rw [clears_append]
    exact List.append_nil _
  · rfl

/-- A read shows the bytes of its window that no pattern can cover, and no others. -/
theorem Holds.clears_readRedacted (h : ring.Holds stream) (offset limit : ℕ)
    (redactor : Redactor) : clears (ring.readRedacted offset limit redactor).2.1 =
      ring.windowClears redactor stream offset limit := by
  have hlost := h.lost_le
  have hstop := h.stop
  have hstart : ring.windowStart offset = min (max offset ring.lost) ring.stop := rfl
  have hlast : ring.windowStop offset limit = min (ring.windowStart offset + limit) ring.stop := rfl
  generalize hpadding : redactor.maxPatternBytes = padding
  generalize huncertain : (if ring.lost > 0 then
    min (ring.lost + padding) (ring.windowStop offset limit) else ring.windowStart offset) = uncertain
  generalize hbase : max (ring.windowStart offset - padding) ring.lost = base
  generalize hend : min (ring.windowStop offset limit + padding) ring.stop = contextEnd
  generalize hfirst : max (ring.windowStart offset) uncertain = first
  have hpage : (ring.readRedacted offset limit redactor).2.1 =
      (if uncertain > ring.windowStart offset then [Piece.redacted] else []) ++
        (redactor.redactWindow ((ring.bytes.drop (base - ring.lost)).take (contextEnd - base))
          (first - base) (ring.windowStop offset limit - base)).map (Piece.shift base) := by
    rw [← hfirst, ← hend, ← hbase, ← huncertain, ← hpadding]
    rfl
  have hbounds : ring.windowStart offset ≤ ring.windowStop offset limit ∧
      ring.windowStop offset limit ≤ stream.length ∧ ring.lost ≤ ring.windowStart offset := by
    rw [hlast, hstart]
    omega
  have huncertainLe : uncertain ≤ ring.windowStop offset limit := by
    rw [← huncertain]
    split <;> omega
  have hcontext : (ring.bytes.drop (base - ring.lost)).take (contextEnd - base) =
      (stream.drop base).take (contextEnd - base) := by
    have hsum : ring.lost + (base - ring.lost) = base := by omega
    rw [h.drop_lost, List.drop_drop, hsum]
  have hbaseLe : base ≤ first := by omega
  have hfits : ring.windowStop offset limit - base ≤
      ((stream.drop base).take (contextEnd - base)).length := by
    rw [List.length_take, List.length_drop]
    omega
  rw [hpage, clears_mark, hcontext, clears_shift, clears_redactWindow (by omega) hfits,
    exposed_shift (by omega)]
  · have hposition : base + (first - base) = first := by omega
    have hsize : ring.windowStop offset limit - base - (first - base) =
        ring.windowStop offset limit - first := by omega
    rw [hposition, hsize]
    refine (windowClears_eq_exposed (by omega) (by omega) ?_ ?_).symm
    · intro position hge hlt
      unfold certain
      rw [hpadding, Bool.or_eq_false_iff, decide_eq_false_iff_not, decide_eq_false_iff_not]
      split at huncertain
      · omega
      · omega
    · intro position hge hlt
      unfold certain
      rw [hpadding, Bool.or_eq_true, decide_eq_true_eq, decide_eq_true_eq]
      split at huncertain
      · omega
      · omega
  · intro index hge hlt
    have hshift : index = base + index - base := by omega
    rw [hshift, covered_slice (by omega)]
    · congr 1
      omega
    · intro length hlength start hle hreach
      split at huncertain
      · omega
      · omega
    · intro length hlength start hle hreach hinside
      omega

end OutputRing

/-- A clear byte is the byte of the stream at its position, in no occurrence of a pattern. -/
def Safe (redactor : Redactor) (stream : Bytes) (shown : ℕ × UInt8) : Prop :=
  stream[shown.1]? = some shown.2 ∧ covered redactor.patterns stream shown.1 = false

section

variable {redactor : Redactor} {stream : Bytes} {ring : OutputRing}

theorem safe_of_getD {position : ℕ} (hlt : position < stream.length)
    (hcovered : covered redactor.patterns stream position = false) :
    Safe redactor stream (position, stream.getD position 0) := by
  refine ⟨?_, hcovered⟩
  rw [List.getD_eq_getElem?_getD, List.getElem?_eq_getElem hlt]
  rfl

theorem OutputRing.Holds.safe_of_read (h : ring.Holds stream) {offset limit : ℕ}
    {shown : ℕ × UInt8} (hshown : shown ∈ clears (ring.readRedacted offset limit redactor).2.1) :
    Safe redactor stream shown := by
  rw [h.clears_readRedacted] at hshown
  obtain ⟨position, hposition, rfl⟩ := List.mem_map.mp hshown
  obtain ⟨hmem, hclear⟩ := List.mem_filter.mp hposition
  rw [List.mem_range'_1] at hmem
  have hstop := h.stop
  have hlast : ring.windowStop offset limit ≤ ring.stop := min_le_right _ _
  have hcovered := (Bool.and_eq_true_iff.mp hclear).1
  exact safe_of_getD (by omega) (by simpa using hcovered)

/-- The head shows no byte of a pattern that ends beyond it. -/
theorem OutputRing.Holds.safe_of_head (h : ring.Holds stream) {headEnd : ℕ} {shown : ℕ × UInt8}
    (hend : headEnd ≤ ring.head.length)
    (hsafe : ring.head.length < stream.length →
      headEnd ≤ ring.head.length - redactor.maxPatternBytes)
    (hshown : shown ∈ clears (redactor.redactWindow ring.head 0 headEnd)) :
    Safe redactor stream shown := by
  have hhead : ring.head = (stream.drop 0).take ring.headCapacity := h.head
  have hlength : ring.head.length = min ring.headCapacity stream.length := by
    rw [h.head, List.length_take]
  rw [clears_redactWindow (Nat.zero_le _) hend] at hshown
  obtain ⟨position, hposition, rfl⟩ := List.mem_map.mp hshown
  obtain ⟨hmem, hclear⟩ := List.mem_filter.mp hposition
  rw [List.mem_range'_1] at hmem
  have hcovered : covered redactor.patterns ring.head position =
      covered redactor.patterns stream position := by
    rw [hhead]
    refine @covered_slice redactor stream position 0 _ (Nat.zero_le _) (fun _ _ _ _ _ => Nat.zero_le _) ?_
    intro length hlength index hle hreach hinside
    by_cases hwhole : ring.head.length < stream.length
    · have hbound := hsafe hwhole
      omega
    · omega
  have hbyte : ring.head.getD position 0 = stream.getD position 0 := by
    rw [h.head, List.getD_eq_getElem?_getD, List.getD_eq_getElem?_getD,
      List.getElem?_take_of_lt (by omega)]
  rw [hbyte]
  refine safe_of_getD (by omega) ?_
  rw [← hcovered]
  simpa using hclear

theorem OutputRing.Holds.safe_of_summary (h : ring.Holds stream) {limit : ℕ} {shown : ℕ × UInt8}
    (hshown : shown ∈ clears (ring.summaryRedacted limit redactor).1) :
    Safe redactor stream shown := by
  unfold OutputRing.summaryRedacted at hshown
  split at hshown
  · exact h.safe_of_read hshown
  · simp only [clears_append, List.mem_append] at hshown
    rcases hshown with (hhead | hmark) | htail
    · have hstop := h.stop
      refine @OutputRing.Holds.safe_of_head redactor stream ring h (min (min (limit / 2) ring.head.length)
        (if ring.stop > ring.head.length then ring.head.length - redactor.maxPatternBytes
          else ring.head.length)) shown ?_ ?_ ?_
      · omega
      · intro hlonger
        rw [if_pos (by omega)]
        omega
      · rw [OutputRing.clears_append_mark] at hhead
        exact hhead
    · cases hmark
    · exact h.safe_of_read htail

end

def OutputRing.create (retained : Bool) (capacity : ℕ) : OutputRing :=
  if retained then .withHead capacity else .new capacity

theorem OutputRing.holds_create (retained : Bool) (capacity : ℕ) :
    (OutputRing.create retained capacity).Holds [] := by
  cases retained with
  | false => exact ⟨rfl, List.drop_nil.symm, rfl⟩
  | true => exact ⟨List.take_nil.symm, List.drop_nil.symm, rfl⟩

/-- Whatever was pushed and registered before, no byte of an occurrence of a pattern is
output in clear, and a read shows every other byte of its window that is beyond the reach
of the lost prefix, in the order of the stream. -/
theorem no_secret_leaves_ring (encoders : Encoders) (secrets : List Bytes) (retained : Bool)
    (capacity : ℕ) (chunks : List Bytes) (offset limit : ℕ) :
    let redactor := Redactor.registerAll encoders secrets
    let ring := (OutputRing.create retained capacity).pushAll chunks
    let stream := chunks.flatten
    (∀ shown ∈ clears (ring.readRedacted offset limit redactor).2.1, Safe redactor stream shown) ∧
      (∀ shown ∈ clears (ring.summaryRedacted limit redactor).1, Safe redactor stream shown) ∧
      clears (ring.readRedacted offset limit redactor).2.1 =
        ring.windowClears redactor stream offset limit := by
  intro redactor ring stream
  have hholds : ring.Holds stream := (OutputRing.holds_create retained capacity).pushAll chunks
  exact ⟨fun _ hshown => hholds.safe_of_read hshown, fun _ hshown => hholds.safe_of_summary hshown,
    hholds.clears_readRedacted offset limit redactor⟩

section

open Encoding

/-- The encodings of two short secrets. -/
def sampleEncoders : Encoders where
  standard secret := if secret = utf8 "abcd" then utf8 "YWJjZA==" else utf8 "NHh5eg=="
  standardNoPad secret := if secret = utf8 "abcd" then utf8 "YWJjZA" else utf8 "NHh5eg"
  urlSafe secret := if secret = utf8 "abcd" then utf8 "YWJjZA==" else utf8 "NHh5eg=="
  urlSafeNoPad secret := if secret = utf8 "abcd" then utf8 "YWJjZA" else utf8 "NHh5eg"
  hexEncode secret := if secret = utf8 "abcd" then utf8 "61626364" else utf8 "3478797a"
  hexEncodeUpper secret := if secret = utf8 "abcd" then utf8 "61626364" else utf8 "3478797A"
  urlencode secret := secret

def sampleRedactor : Redactor := .registerAll sampleEncoders [utf8 "abcd", utf8 "4xyz"]

/-- A secret that came in two chunks. -/
theorem parted_secret_stays : ∀ shown ∈ clears (((OutputRing.create false 16).pushAll
    [utf8 "xab", utf8 "cdy"]).readRedacted 0 16 sampleRedactor).2.1,
      Safe sampleRedactor (utf8 "xabcdy") shown :=
  (no_secret_leaves_ring sampleEncoders [utf8 "abcd", utf8 "4xyz"] false 16
    [utf8 "xab", utf8 "cdy"] 0 16).1

end

end NyxId.MachineText
