import NyxId.EventStream.Model
import NyxId.Encoding.Records

/-!
The decoder against a reading of the whole stream: the stream with one kind of line ending is cut
into lines, the lines into frames at the blank ones, and every frame is read on its own.
-/

namespace NyxId.EventStream

open Encoding

/-! ### The stream read as a whole -/

/-- Every line ending as a line feed. -/
def normalize : Bytes → Bytes
  | 13 :: 10 :: rest => 10 :: normalize rest
  | 13 :: rest => 10 :: normalize rest
  | byte :: rest => byte :: normalize rest
  | [] => []

def streamLines (bytes : Bytes) : List Bytes := (normalize bytes).splitOn 10

/-- The complete lines between blank lines. -/
def lineGroups (bytes : Bytes) : List (List Bytes) := (streamLines bytes).dropLast.splitOn []

def frameText (frame : List Bytes) : Bytes := frame.flatMap fun line => line ++ [10]

/-- The frames of a stream, each with the lines that a blank line ends. -/
def frames (bytes : Bytes) : List (List Bytes) := (lineGroups bytes).dropLast

/-- What comes after the last blank line. -/
def lastFrame (bytes : Bytes) : Bytes :=
  frameText ((lineGroups bytes).getLastD []) ++ (streamLines bytes).getLastD []

section

variable (fromStr : String → Option Json) (limit : ℕ)

/-- What a frame of a stream is, whatever came before it. -/
def frameResult (frame : List Bytes) : Option (Except EventDecodeError SseEvent) :=
  if limit ≤ (frameText frame).length then some (.error .tooLarge)
  else match fromUtf8 (frameText frame) with
    | none => some (.error .invalidUtf8)
    | some text => (parseNextEvent fromStr (text ++ ['\n'])).1.map .ok

/-- What a stream gives: a result for each frame, and the refusal of an unfinished one. -/
def streamResults (bytes : Bytes) : List (Except EventDecodeError SseEvent) :=
  (frames bytes).filterMap (frameResult fromStr limit) ++
    if limit ≤ (lastFrame bytes).length then [.error .tooLarge] else []

end

/-! ### One frame -/

section Frame

variable {fromStr : String → Option Json} {frame : List Bytes} {text : List Char}

theorem encode_newline : String.utf8EncodeChar '\n' = [10] := by decide

/-- A line feed more is decoded as one. -/
theorem fromUtf8_newline (bytes : Bytes) :
    fromUtf8 (bytes ++ [10]) = (fromUtf8 bytes).map (· ++ ['\n']) := by
  apply Option.ext
  intro text
  rw [Option.map_eq_some_iff, fromUtf8_eq_some]
  constructor
  · intro h
    cases text using List.reverseRecOn with
    | nil => simp at h
    | append_singleton text c =>
      rw [List.flatMap_append, List.flatMap_singleton] at h
      have hlast := congrArg List.getLast? h
      rw [List.getLast?_append_of_ne_nil _ (utf8EncodeChar_ne_nil c), List.getLast?_concat] at hlast
      obtain rfl : c = '\n' :=
        (mem_utf8EncodeChar_ascii (by decide)).mp (List.mem_of_getLast? hlast)
      rw [encode_newline] at h
      exact ⟨text, fromUtf8_eq_some.mpr (List.append_cancel_right h), rfl⟩
  · rintro ⟨before, hbefore, rfl⟩
    rw [List.flatMap_append, fromUtf8_eq_some.mp hbefore, List.flatMap_singleton, encode_newline]

/-- Lines that are not empty, without line endings. -/
def PlainLines {α : Type} (endings : List α) (eventLines : List (List α)) : Prop :=
  ∀ line ∈ eventLines, line ≠ [] ∧ ∀ c ∈ endings, c ∉ line

theorem PlainLines.tail {α : Type} {endings : List α} {line : List α} {rest : List (List α)}
    (h : PlainLines endings (line :: rest)) : PlainLines endings rest :=
  fun other hother => h other (List.mem_cons_of_mem _ hother)

/-- The text of a frame is cut into the texts of its lines. -/
theorem exists_lines (hframe : PlainLines [10, 13] frame)
    (htext : fromUtf8 (frameText frame) = some text) :
    ∃ eventLines, text = eventLines.flatMap (· ++ ['\n']) ∧
      PlainLines ['\n', '\r'] eventLines := by
  rw [fromUtf8_eq_some] at htext
  induction frame generalizing text with
  | nil => exact ⟨[], encode_eq_nil.mp htext, fun _ h => absurd h List.not_mem_nil⟩
  | cons line frame ih =>
    obtain ⟨hne, hendings⟩ := hframe line List.mem_cons_self
    rw [frameText, List.flatMap_cons, List.append_assoc, List.singleton_append] at htext
    obtain ⟨before, after, rfl, hbefore, hafter⟩ :=
      exists_cut_of_encode (c := '\n') (by decide) (hendings 10 (by simp)) htext
    obtain ⟨eventLines, rfl, hplain⟩ := ih hframe.tail hafter
    refine ⟨before :: eventLines, by simp, fun other hother => ?_⟩
    rcases List.mem_cons.mp hother with rfl | hother
    · refine ⟨fun hnil => hne (by rw [← hbefore, hnil]; rfl), fun c hc => ?_⟩
      simp only [List.mem_cons, List.not_mem_nil, or_false] at hc
      rcases hc with rfl | rfl
      · exact notMem_of_encode (by decide) (by rw [hbefore]; exact hendings 10 (by simp))
      · exact notMem_of_encode (by decide) (by rw [hbefore]; exact hendings 13 (by simp))
    · exact hplain other hother

theorem findBlank_append {line : List Char} (hline : '\n' ∉ line) (buffer : List Char) :
    findBlank (line ++ buffer) = (findBlank buffer).map fun found => (line ++ found.1, found.2) := by
  induction line with
  | nil => simp
  | cons c line ih =>
    rw [List.mem_cons, not_or] at hline
    rw [List.cons_append, findBlank, ih hline.2, Option.map_map]
    · rfl
    · intro rest hc
      exact absurd hc.symm hline.1

theorem findBlank_newline {buffer : List Char} (hbuffer : buffer.head? ≠ some '\n') :
    findBlank ('\n' :: buffer) =
      (findBlank buffer).map fun found => ('\n' :: found.1, found.2) := by
  rw [findBlank]
  intro rest _ hrest
  rw [hrest] at hbuffer
  exact hbuffer rfl

/-- The first blank line of a frame is its end. -/
theorem findBlank_frame {line : List Char} {eventLines : List (List Char)}
    (h : PlainLines ['\n', '\r'] (line :: eventLines)) :
    findBlank ((line :: eventLines).flatMap (· ++ ['\n']) ++ ['\n']) =
      some (List.intercalate ['\n'] (line :: eventLines), []) := by
  induction eventLines generalizing line with
  | nil =>
    have hline := (h line List.mem_cons_self).2 '\n' (by simp)
    simp only [List.flatMap_cons, List.flatMap_nil, List.append_nil, List.append_assoc]
    rw [findBlank_append hline]
    simp [findBlank]
  | cons next rest ih =>
    have hline := (h line List.mem_cons_self).2 '\n' (by simp)
    obtain ⟨hne, hnext⟩ := h next (List.mem_cons_of_mem _ List.mem_cons_self)
    obtain ⟨first, chars, rfl⟩ := List.exists_cons_of_ne_nil hne
    have hfirst : first ≠ '\n' := by
      rintro rfl
      exact hnext '\n' (by simp) List.mem_cons_self
    rw [List.flatMap_cons, List.append_assoc, List.append_assoc, findBlank_append hline,
      List.singleton_append, findBlank_newline, ih h.tail, List.intercalate_cons_cons]
    · simp
    · simpa using hfirst

theorem lines_frame {line : List Char} {eventLines : List (List Char)}
    (h : PlainLines ['\n', '\r'] (line :: eventLines)) :
    lines (List.intercalate ['\n'] (line :: eventLines)) = line :: eventLines := by
  have hsplit : (List.intercalate ['\n'] (line :: eventLines)).splitOn '\n' = line :: eventLines :=
    List.splitOn_intercalate '\n' (fun l hl => (h l hl).2 '\n' (by simp)) (List.cons_ne_nil _ _)
  have hstrip : ∀ l ∈ (line :: eventLines).dropLast, stripCr l = l := by
    intro l hl
    refine if_neg fun hlast => ?_
    exact (h l (List.dropLast_subset _ hl)).2 '\r' (by simp) (List.mem_of_getLast? hlast)
  have hlast : (line :: eventLines).getLast (List.cons_ne_nil _ _) ≠ [] :=
    (h _ (List.getLast_mem _)).1
  unfold lines
  simp only [hsplit]
  rw [List.map_congr_left hstrip, List.map_id', List.getLast?_eq_some_getLast (List.cons_ne_nil _ _),
    Option.filter_some, if_pos (by simpa using hlast)]
  exact List.dropLast_concat_getLast _

theorem splitOn_frame {eventLines : List (List Char)} (h : PlainLines ['\n', '\r'] eventLines) :
    (eventLines.flatMap (· ++ ['\n'])).splitOn '\n' = eventLines ++ [[]] := by
  induction eventLines with
  | nil => rfl
  | cons line eventLines ih =>
    have hline := (h line List.mem_cons_self).2 '\n' (by simp)
    rw [List.flatMap_cons, List.append_assoc, List.singleton_append,
      List.splitOn_append_cons_self_of_not_mem hline, ih h.tail, List.cons_append]

theorem parseNextEvent_of_none {buffer : List Char} (h : findBlank buffer = none) :
    parseNextEvent fromStr buffer = (none, buffer) := by
  rw [parseNextEvent]
  split
  · rfl
  · rename_i hsome
    rw [h] at hsome
    cases hsome

theorem parseNextEvent_of_some {buffer before rest : List Char}
    (h : findBlank buffer = some (before, rest)) :
    parseNextEvent fromStr buffer = match readEvent fromStr (lines before) with
      | none => parseNextEvent fromStr rest
      | some event => (some event, rest) := by
  rw [parseNextEvent]
  split
  · rename_i hnone
    rw [h] at hnone
    cases hnone
  · rename_i hsome
    rw [h] at hsome
    cases hsome
    rfl

/-- The parser reads a frame line by line. -/
theorem parseNextEvent_frame (hframe : PlainLines [10, 13] frame)
    (htext : fromUtf8 (frameText frame) = some text) :
    (parseNextEvent fromStr (text ++ ['\n'])).1 =
      readEvent fromStr (text.splitOn '\n').dropLast := by
  obtain ⟨eventLines, rfl, hplain⟩ := exists_lines hframe htext
  rw [splitOn_frame hplain, List.dropLast_concat]
  cases eventLines with
  | nil =>
    rw [parseNextEvent_of_none (by rfl)]
    rfl
  | cons line eventLines =>
    rw [parseNextEvent_of_some (findBlank_frame hplain), lines_frame hplain]
    cases hevent : readEvent fromStr (line :: eventLines) with
    | none => rw [parseNextEvent_of_none (by rfl)]
    | some event => rfl

/-- Neither a type nor data was read. -/
def Fields.IsEmpty (fields : Fields) : Prop := fields.dataParts = [] ∧ fields.eventType = none

theorem stripPrefix_eq_none {start line : List Char} :
    stripPrefix start line = none ↔ ¬ start <+: line := by
  unfold stripPrefix
  rw [← List.isPrefixOf_iff_prefix]
  split <;> simp_all

theorem Fields.isEmpty_read (fields : Fields) (line : List Char) : (fields.read line).IsEmpty ↔
    fields.IsEmpty ∧ ¬ "event:".toList <+: line ∧ ¬ "data:".toList <+: line := by
  rw [← stripPrefix_eq_none, ← stripPrefix_eq_none]
  unfold Fields.read Fields.IsEmpty
  cases stripPrefix "event:".toList line with
  | some rest => simp
  | none =>
    cases stripPrefix "data:".toList line with
    | some rest => simp
    | none => simp

/-- Nothing is read from lines of other kinds, and something from every other list of lines. -/
theorem readEvent_eq_none {eventLines : List (List Char)} :
    readEvent fromStr eventLines = none ↔
      ∀ line ∈ eventLines, ¬ "event:".toList <+: line ∧ ¬ "data:".toList <+: line := by
  have hread : ∀ fields : Fields, (eventLines.foldl Fields.read fields).IsEmpty ↔
      fields.IsEmpty ∧ ∀ line ∈ eventLines, ¬ "event:".toList <+: line ∧ ¬ "data:".toList <+: line := by
    induction eventLines with
    | nil => simp
    | cons line eventLines ih =>
      intro fields
      rw [List.foldl_cons, ih, Fields.isEmpty_read, List.forall_mem_cons, and_assoc]
  have hnone : readEvent fromStr eventLines = none ↔
      (eventLines.foldl Fields.read ⟨none, []⟩).IsEmpty := by
    unfold readEvent Fields.IsEmpty
    simp only
    split_ifs with hempty <;> simp [hempty]
  rw [hnone, hread]
  exact and_iff_right ⟨rfl, rfl⟩

end Frame

/-! ### One byte more -/

section Normalize

variable {bytes : Bytes} {byte : UInt8}

theorem normalize_cons (bytes : Bytes) (h : byte = 13 → bytes.head? ≠ some 10) :
    normalize (byte :: bytes) = (if byte = 13 then 10 else byte) :: normalize bytes := by
  by_cases hcr : byte = 13
  · subst hcr
    rw [if_pos rfl, normalize]
    intro after hbytes
    rw [hbytes] at h
    exact h rfl rfl
  · rw [if_neg hcr, normalize]
    · intro rest hbyte _
      exact hcr hbyte
    · exact hcr

/-- The line feed after a carriage return ends no further line. -/
theorem normalize_skip (h : bytes.getLast? = some 13) :
    normalize (bytes ++ [10]) = normalize bytes := by
  fun_induction normalize bytes with
  | case1 rest ih =>
    cases rest with
    | nil => cases h
    | cons first rest =>
      rw [List.cons_append, List.cons_append, normalize, ih (by simpa using h)]
  | case2 rest hrest ih =>
    cases rest with
    | nil => rfl
    | cons first rest =>
      rw [List.cons_append, normalize_cons, ih (by simpa using h), if_pos rfl]
      intro _ hfirst
      exact hrest rest (by simpa using hfirst)
  | case3 byte rest hcrlf hcr ih =>
    cases rest with
    | nil => exact absurd (by simpa using h) hcr
    | cons first rest =>
      rw [List.cons_append, normalize_cons _ (fun hbyte => absurd hbyte hcr),
        ih (by simpa using h), if_neg hcr]
  | case4 => cases h

theorem normalize_concat (h : bytes.getLast? = some 13 → byte ≠ 10) :
    normalize (bytes ++ [byte]) = normalize bytes ++ [if byte = 13 then 10 else byte] := by
  fun_induction normalize bytes with
  | case1 rest ih =>
    rw [List.cons_append, List.cons_append, normalize, ih, List.cons_append]
    intro hlast
    exact h (by cases rest <;> simp_all)
  | case2 rest hrest ih =>
    cases rest with
    | nil =>
      rw [List.singleton_append, normalize_cons, normalize_cons]
      · rfl
      · simp
      · simpa using h
    | cons first rest =>
      rw [List.cons_append, normalize_cons, ih (by simpa using h), if_pos rfl]
      · rfl
      intro _ hfirst
      exact hrest rest (by simpa using hfirst)
  | case3 b rest hcrlf hcr ih =>
    rw [List.cons_append, normalize_cons _ (fun hbyte => absurd hbyte hcr), if_neg hcr, ih]
    · rfl
    · intro hlast
      exact h (by cases rest <;> simp_all)
  | case4 =>
    rw [List.nil_append, normalize_cons]
    · rfl
    · simp

theorem cr_notMem_normalize (bytes : Bytes) : 13 ∉ normalize bytes := by
  fun_induction normalize bytes with
  | case1 rest ih => simpa using ih
  | case2 rest hrest ih => simpa using ih
  | case3 byte rest hcrlf hcr ih => simpa [Ne.symm hcr] using ih
  | case4 => simp

end Normalize

/-! ### Frames, one byte after the other -/

/-- A text cut into the groups of lines before its blank lines, the lines after them, and the
beginning of a line. -/
def Cut (text : Bytes) (groups : List (List Bytes)) (group : List Bytes) (line : Bytes) : Prop :=
  ∃ init, text.splitOn 10 = init ++ [line] ∧ init.splitOn [] = groups ++ [group]

section Cut

variable {text : Bytes} {groups : List (List Bytes)} {group : List Bytes} {line : Bytes} {byte : UInt8}

theorem cut_nil : Cut [] [] [] [] := ⟨[], rfl, rfl⟩

theorem Cut.content (h : Cut text groups group line) (hbyte : byte ≠ 10) :
    Cut (text ++ [byte]) groups group (line ++ [byte]) := by
  obtain ⟨init, hlines, hgroups⟩ := h
  exact ⟨init, splitOn_concat_of_ne hbyte hlines, hgroups⟩

theorem Cut.ending (h : Cut text groups group line) (hline : line ≠ []) :
    Cut (text ++ [10]) groups (group ++ [line]) [] := by
  obtain ⟨init, hlines, hgroups⟩ := h
  exact ⟨init ++ [line], splitOn_concat_self hlines, splitOn_concat_of_ne hline hgroups⟩

theorem Cut.blank (h : Cut text groups group []) :
    Cut (text ++ [10]) (groups ++ [group]) [] [] := by
  obtain ⟨init, hlines, hgroups⟩ := h
  exact ⟨init ++ [[]], splitOn_concat_self hlines, splitOn_concat_self hgroups⟩

variable {bytes : Bytes}

theorem Cut.frames_eq (h : Cut (normalize bytes) groups group line) : frames bytes = groups := by
  obtain ⟨init, hlines, hgroups⟩ := h
  unfold frames lineGroups streamLines
  rw [hlines, List.dropLast_concat, hgroups, List.dropLast_concat]

theorem Cut.lastFrame_eq (h : Cut (normalize bytes) groups group line) :
    lastFrame bytes = frameText group ++ line := by
  obtain ⟨init, hlines, hgroups⟩ := h
  unfold lastFrame lineGroups streamLines
  rw [hlines, List.dropLast_concat, hgroups, List.getLastD_concat, List.getLastD_concat]

end Cut

/-! ### The decoder, one byte after the other -/

section Decoder

variable (fromStr : String → Option Json) (maxBytes : Option ℕ)

def limitOf (maxBytes : Option ℕ) : ℕ := maxBytes.getD (512 * 1024)

/-- The decoder in the middle of a frame. -/
def decoderAt (maxBytes : Option ℕ) (previousCr : Bool) (group : List Bytes) (line : Bytes) :
    BoundedEventDecoder where
  buffer := if limitOf maxBytes ≤ (frameText group ++ line).length then [] else frameText group ++ line
  previousCr := previousCr
  lineHasContent := line ≠ []
  discarding := limitOf maxBytes ≤ (frameText group ++ line).length
  maxBytes := maxBytes

/-- The refusal of a frame, at the byte with which it becomes too large. -/
def refusal (maxBytes : Option ℕ) (size : ℕ) : Option (Except EventDecodeError SseEvent) :=
  if limitOf maxBytes = size + 1 then some (.error .tooLarge) else none

variable {fromStr maxBytes} {cr : Bool} {group : List Bytes} {line : Bytes} {byte : UInt8}

theorem decoderAt_full (hfull : limitOf maxBytes ≤ (frameText group ++ line).length) :
    decoderAt maxBytes cr group line = ⟨[], cr, line ≠ [], true, maxBytes⟩ := by
  unfold decoderAt
  rw [if_pos hfull, decide_eq_true hfull]

theorem decoderAt_room (hroom : ¬ limitOf maxBytes ≤ (frameText group ++ line).length) :
    decoderAt maxBytes cr group line =
      ⟨frameText group ++ line, cr, line ≠ [], false, maxBytes⟩ := by
  unfold decoderAt
  rw [if_neg hroom, decide_eq_false hroom]

/-- Nothing is left of a frame that is too large. -/
theorem checkSize_discarding (hlimit : 0 < limitOf maxBytes) (content : Bool) :
    BoundedEventDecoder.checkSize ⟨[], cr, content, true, maxBytes⟩ =
      (⟨[], cr, content, true, maxBytes⟩, none) :=
  if_neg (not_le.mpr hlimit)

/-- A byte more of a frame, in whatever line it is. -/
theorem checkSize_append (hroom : ¬ limitOf maxBytes ≤ (frameText group ++ line).length)
    {group' : List Bytes} {line' : Bytes} {content : Bool} (hcontent : content = (line' ≠ []))
    (htext : frameText group' ++ line' = frameText group ++ line ++ [byte]) :
    BoundedEventDecoder.checkSize ⟨frameText group ++ line ++ [byte], cr, content, false, maxBytes⟩ =
      (decoderAt maxBytes cr group' line', refusal maxBytes (frameText group ++ line).length) := by
  have hlength : (frameText group ++ line ++ [byte]).length =
      (frameText group ++ line).length + 1 := List.length_append
  have hdecide : content = decide (line' ≠ []) := by
    rw [Bool.eq_iff_iff, hcontent, decide_eq_true_eq]
  unfold BoundedEventDecoder.checkSize refusal
  show (if limitOf maxBytes ≤ (frameText group ++ line ++ [byte]).length then _ else _) = _
  by_cases hfull : limitOf maxBytes ≤ (frameText group ++ line ++ [byte]).length
  · rw [if_pos hfull, if_pos (by omega), decoderAt_full (by rwa [htext]), hdecide]
  · rw [if_neg hfull, if_neg (by omega), decoderAt_room (by rwa [htext]), htext, hdecide]

theorem refusal_full (hfull : limitOf maxBytes ≤ (frameText group ++ line).length) :
    refusal maxBytes (frameText group ++ line).length = none :=
  if_neg (by omega)

theorem length_le_of_append {group' : List Bytes} {line' : Bytes}
    (htext : frameText group' ++ line' = frameText group ++ line ++ [byte])
    (hfull : limitOf maxBytes ≤ (frameText group ++ line).length) :
    limitOf maxBytes ≤ (frameText group' ++ line').length := by
  rw [htext, List.length_append]
  omega

theorem pushByte_skip : (decoderAt maxBytes true group line).pushByte fromStr 10 =
    (decoderAt maxBytes false group line, none) := rfl

theorem pushByte_content (hlimit : 0 < limitOf maxBytes) (hcr : byte ≠ 13) (hlf : byte ≠ 10) :
    (decoderAt maxBytes cr group line).pushByte fromStr byte =
      (decoderAt maxBytes false group (line ++ [byte]),
        refusal maxBytes (frameText group ++ line).length) := by
  have htext : frameText group ++ (line ++ [byte]) = frameText group ++ line ++ [byte] :=
    (List.append_assoc _ _ _).symm
  have hcontent : true = (line ++ [byte] ≠ []) := by simp
  unfold BoundedEventDecoder.pushByte
  rw [if_neg (fun h => hlf h.2), if_neg (by simp [hcr, hlf]), decide_eq_false hcr]
  by_cases hfull : limitOf maxBytes ≤ (frameText group ++ line).length
  · rw [decoderAt_full hfull, decoderAt_full (length_le_of_append htext hfull), refusal_full hfull,
      decide_eq_true (List.append_ne_nil_of_right_ne_nil line (List.cons_ne_nil byte []))]
    exact checkSize_discarding hlimit true
  · rw [decoderAt_room hfull]
    exact checkSize_append hfull hcontent htext

theorem pushByte_ending (hlimit : 0 < limitOf maxBytes) (hline : line ≠ [])
    (hbyte : byte = 13 ∨ byte = 10 ∧ cr = false) :
    (decoderAt maxBytes cr group line).pushByte fromStr byte =
      (decoderAt maxBytes (byte = 13) (group ++ [line]) [],
        refusal maxBytes (frameText group ++ line).length) := by
  have htext : frameText (group ++ [line]) ++ [] = frameText group ++ line ++ [10] := by
    simp [frameText]
  have hcontent : false = (([] : Bytes) ≠ []) := by simp
  unfold BoundedEventDecoder.pushByte
  rw [if_neg (by rcases hbyte with rfl | ⟨rfl, rfl⟩ <;> simp [decoderAt]),
    if_pos (hbyte.imp_right And.left)]
  by_cases hfull : limitOf maxBytes ≤ (frameText group ++ line).length
  · rw [decoderAt_full hfull, decoderAt_full (length_le_of_append htext hfull), refusal_full hfull,
      decide_eq_true hline]
    exact checkSize_discarding hlimit false
  · rw [decoderAt_room hfull, decide_eq_true hline]
    exact checkSize_append hfull hcontent htext

theorem pushByte_blank (hlimit : 0 < limitOf maxBytes)
    (hbyte : byte = 13 ∨ byte = 10 ∧ cr = false) :
    (decoderAt maxBytes cr group []).pushByte fromStr byte =
      (decoderAt maxBytes (byte = 13) [] [],
        if limitOf maxBytes ≤ (frameText group).length then none
        else frameResult fromStr (limitOf maxBytes) group) := by
  have hempty : ¬ limitOf maxBytes ≤ (frameText [] ++ []).length := not_le.mpr hlimit
  unfold BoundedEventDecoder.pushByte
  rw [if_neg (by rcases hbyte with rfl | ⟨rfl, rfl⟩ <;> simp [decoderAt]),
    if_pos (hbyte.imp_right And.left), decoderAt_room hempty]
  by_cases hfull : limitOf maxBytes ≤ (frameText group).length
  · rw [decoderAt_full (by rwa [List.append_nil]), if_pos hfull]
    rfl
  · rw [decoderAt_room (by rwa [List.append_nil]), if_neg hfull]
    unfold frameResult
    rw [if_neg hfull]
    refine Prod.ext rfl ?_
    dsimp only [decoderAt]
    rw [List.append_nil, fromUtf8_newline]
    cases fromUtf8 (frameText group) <;> rfl

theorem pushBytes_append (decoder : BoundedEventDecoder) (before after : Bytes) :
    decoder.pushBytes fromStr (before ++ after) =
      (((decoder.pushBytes fromStr before).1.pushBytes fromStr after).1,
        (decoder.pushBytes fromStr before).2 ++
          ((decoder.pushBytes fromStr before).1.pushBytes fromStr after).2) := by
  induction before generalizing decoder with
  | nil => rfl
  | cons byte before ih =>
    simp only [List.cons_append, BoundedEventDecoder.pushBytes, ih, List.append_assoc]

/-- What the decoder gave for the frames so far. -/
def resultsAt (fromStr : String → Option Json) (maxBytes : Option ℕ)
    (groups : List (List Bytes)) (group : List Bytes) (line : Bytes) :
    List (Except EventDecodeError SseEvent) :=
  groups.filterMap (frameResult fromStr (limitOf maxBytes)) ++
    if limitOf maxBytes ≤ (frameText group ++ line).length then [.error .tooLarge] else []

/-- A frame is refused once, when it becomes too large. -/
theorem resultsAt_append {groups : List (List Bytes)} {group' : List Bytes} {line' : Bytes}
    (htext : frameText group' ++ line' = frameText group ++ line ++ [byte]) :
    resultsAt fromStr maxBytes groups group line ++
        (refusal maxBytes (frameText group ++ line).length).toList =
      resultsAt fromStr maxBytes groups group' line' := by
  have hlength : (frameText group' ++ line').length = (frameText group ++ line).length + 1 := by
    rw [htext, List.length_append, List.length_singleton]
  unfold resultsAt refusal
  rw [hlength, List.append_assoc]
  congr 1
  split_ifs <;> first | rfl | omega

theorem resultsAt_blank (hlimit : 0 < limitOf maxBytes) {groups : List (List Bytes)} :
    resultsAt fromStr maxBytes groups group [] ++
        (if limitOf maxBytes ≤ (frameText group).length then none
          else frameResult fromStr (limitOf maxBytes) group).toList =
      resultsAt fromStr maxBytes (groups ++ [group]) [] [] := by
  have hempty : ¬ limitOf maxBytes ≤ (frameText [] ++ []).length := not_le.mpr hlimit
  unfold resultsAt
  rw [if_neg hempty, List.append_nil, List.append_nil, List.filterMap_append, List.append_assoc]
  congr 1
  by_cases hfull : limitOf maxBytes ≤ (frameText group).length
  · have hresult : frameResult fromStr (limitOf maxBytes) group = some (.error .tooLarge) :=
      if_pos hfull
    simp [if_pos hfull, hresult]
  · rw [if_neg hfull, if_neg hfull]
    cases hresult : frameResult fromStr (limitOf maxBytes) group <;> simp [hresult]

/-- After any bytes the decoder stands where the whole stream stands. -/
theorem pushBytes_eq (hlimit : 0 < limitOf maxBytes) (bytes : Bytes) :
    ∃ groups group line, Cut (normalize bytes) groups group line ∧
      ({ maxBytes } : BoundedEventDecoder).pushBytes fromStr bytes =
        (decoderAt maxBytes (bytes.getLast? = some 13) group line,
          resultsAt fromStr maxBytes groups group line) := by
  induction bytes using List.reverseRecOn with
  | nil =>
    have hempty : ¬ limitOf maxBytes ≤ (frameText [] ++ []).length := not_le.mpr hlimit
    refine ⟨[], [], [], cut_nil, ?_⟩
    rw [decoderAt_room hempty, resultsAt, if_neg hempty]
    rfl
  | append_singleton bytes byte ih =>
    obtain ⟨groups, group, line, hcut, hpushed⟩ := ih
    rw [pushBytes_append, hpushed, List.getLast?_concat]
    simp only [BoundedEventDecoder.pushBytes, List.append_nil, Option.some.injEq]
    by_cases hskip : bytes.getLast? = some 13 ∧ byte = 10
    · -- the line feed after a carriage return
      obtain ⟨hlast, rfl⟩ := hskip
      refine ⟨groups, group, line, by rwa [normalize_skip hlast], ?_⟩
      rw [decide_eq_true hlast, pushByte_skip]
      exact Prod.ext rfl (List.append_nil _)
    · have hnormalize : normalize (bytes ++ [byte]) =
          normalize bytes ++ [if byte = 13 then 10 else byte] :=
        normalize_concat fun hlast hbyte => hskip ⟨hlast, hbyte⟩
      by_cases hend : byte = 13 ∨ byte = 10
      · have hfeed : (if byte = 13 then 10 else byte) = 10 := by
          rcases hend with rfl | rfl <;> rfl
        have hbyte : byte = 13 ∨ byte = 10 ∧ decide (bytes.getLast? = some 13) = false :=
          hend.imp_right fun hlf => ⟨hlf, decide_eq_false fun hlast => hskip ⟨hlast, hlf⟩⟩
        rw [hfeed] at hnormalize
        by_cases hline : line = []
        · subst hline
          refine ⟨groups ++ [group], [], [], by rw [hnormalize]; exact hcut.blank, ?_⟩
          rw [pushByte_blank hlimit hbyte, resultsAt_blank hlimit]
        · refine ⟨groups, group ++ [line], [], by rw [hnormalize]; exact hcut.ending hline, ?_⟩
          have htext : frameText (group ++ [line]) ++ [] = frameText group ++ line ++ [10] := by
            simp [frameText]
          rw [pushByte_ending hlimit hline hbyte, resultsAt_append htext]
      · obtain ⟨hcr, hlf⟩ := not_or.mp hend
        rw [if_neg hcr] at hnormalize
        refine ⟨groups, group, line ++ [byte], by rw [hnormalize]; exact hcut.content hlf, ?_⟩
        rw [pushByte_content hlimit hcr hlf, resultsAt_append (List.append_assoc _ _ _).symm,
          decide_eq_false hcr]

/-- The lines of a frame are not empty. -/
theorem Cut.plainLines {bytes : Bytes} {groups : List (List Bytes)}
    (h : Cut (normalize bytes) groups group line) {frame : List Bytes} (hframe : frame ∈ groups) :
    PlainLines [10, 13] frame := by
  obtain ⟨init, hlines, hgroups⟩ := h
  intro one hone
  have hsplit : frame ∈ init.splitOn [] := by
    rw [hgroups]
    exact List.mem_append_left _ hframe
  have hpiece : one ∈ (normalize bytes).splitOn 10 := by
    rw [hlines]
    exact List.mem_append_left _ (mem_of_mem_splitOn hsplit hone)
  refine ⟨fun hnil => notMem_of_mem_splitOn hsplit (hnil ▸ hone), fun c hc hmem => ?_⟩
  simp only [List.mem_cons, List.not_mem_nil, or_false] at hc
  rcases hc with rfl | rfl
  · exact notMem_of_mem_splitOn hpiece hmem
  · exact cr_notMem_normalize bytes (mem_of_mem_splitOn hpiece hmem)

theorem hasIncompleteEvent_decoderAt : (decoderAt maxBytes cr group line).hasIncompleteEvent = true ↔
    limitOf maxBytes ≤ (frameText group ++ line).length ∨
      ∃ b ∈ frameText group ++ line, isAsciiWhitespace b = false := by
  unfold BoundedEventDecoder.hasIncompleteEvent
  by_cases hfull : limitOf maxBytes ≤ (frameText group ++ line).length
  · rw [decoderAt_full hfull]
    exact ⟨fun _ => .inl hfull, fun _ => rfl⟩
  · rw [decoderAt_room hfull, or_iff_right hfull]
    simp only [Bool.false_or, List.any_eq_true, Bool.not_eq_true']

end Decoder

/-- A decoder fed with a stream, byte by byte, against a reading of the whole stream. -/
structure ReadsFrames (fromStr : String → Option Json) (maxBytes : Option ℕ) (bytes : Bytes) :
    Prop where
  results : (({ maxBytes } : BoundedEventDecoder).pushBytes fromStr bytes).2 =
    streamResults fromStr (limitOf maxBytes) bytes
  plain : ∀ frame ∈ frames bytes, ∀ text, fromUtf8 (frameText frame) = some text →
    (parseNextEvent fromStr (text ++ ['\n'])).1 = readEvent fromStr (text.splitOn '\n').dropLast
  silent : ∀ eventLines, readEvent fromStr eventLines = none ↔
    ∀ line ∈ eventLines, ¬ "event:".toList <+: line ∧ ¬ "data:".toList <+: line
  incomplete :
    (({ maxBytes } : BoundedEventDecoder).pushBytes fromStr bytes).1.hasIncompleteEvent = true ↔
      limitOf maxBytes ≤ (lastFrame bytes).length ∨
        ∃ byte ∈ lastFrame bytes, isAsciiWhitespace byte = false

/-- Whatever the bytes, their line endings and the limit. -/
theorem decoder_reads_frames (fromStr : String → Option Json) (maxBytes : Option ℕ)
    (hlimit : 0 < limitOf maxBytes) (bytes : Bytes) : ReadsFrames fromStr maxBytes bytes := by
  obtain ⟨groups, group, line, hcut, hpushed⟩ :=
    @pushBytes_eq fromStr maxBytes hlimit bytes
  constructor
  · rw [hpushed, streamResults, hcut.frames_eq, hcut.lastFrame_eq, resultsAt]
  · intro frame hframe text htext
    rw [hcut.frames_eq] at hframe
    exact parseNextEvent_frame (hcut.plainLines hframe) htext
  · exact fun eventLines => readEvent_eq_none
  · rw [hpushed, hcut.lastFrame_eq]
    exact hasIncompleteEvent_decoderAt

/-- An event, a frame of eight bytes and an unfinished frame under a limit of eight. -/
theorem small_frames_read :
    ReadsFrames (fun _ => none) (some 8) (utf8 "data:a\r\n\r\ndata:bc\n\n:") :=
  decoder_reads_frames _ _ (by decide) _

end NyxId.EventStream
