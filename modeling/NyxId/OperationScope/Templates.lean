import NyxId.OperationScope.Rules
import NyxId.Encoding.Records
import Mathlib.Data.List.Chain

/-!
Facts on the text operations behind path templates: stripping, splitting at a separator
and joining with slashes, the variable of a segment, and what a validated segment is.
-/

namespace NyxId.OperationScope

open Encoding

section

variable {U : CharClass}

theorem stripPrefix_eq_some {start text rest : String} (h : stripPrefix start text = some rest) :
    text.toList = start.toList ++ rest.toList := by
  unfold stripPrefix at h
  split at h
  · rename_i hstart
    obtain ⟨tail, htail⟩ := List.isPrefixOf_iff_prefix.mp hstart
    obtain rfl := Option.some.inj h
    rw [String.toList_ofList, ← htail, List.drop_left]
  · cases h

theorem stripSuffix_eq_some {ending text rest : String} (h : stripSuffix ending text = some rest) :
    text.toList = rest.toList ++ ending.toList := by
  unfold stripSuffix at h
  split at h
  · rename_i hsuffix
    obtain ⟨front, hfront⟩ := List.isSuffixOf_iff_suffix.mp hsuffix
    obtain rfl := Option.some.inj h
    rw [String.toList_ofList, ← hfront, List.length_append, Nat.add_sub_cancel, List.take_left]
  · cases h

theorem stripPrefix_append {start text : String} {rest : List Char}
    (h : text.toList = start.toList ++ rest) : stripPrefix start text = some (String.ofList rest) := by
  unfold stripPrefix
  rw [if_pos (List.isPrefixOf_iff_prefix.mpr ⟨rest, h.symm⟩), h, List.drop_left]

theorem stripSuffix_append {ending text : String} {front : List Char}
    (h : text.toList = front ++ ending.toList) :
    stripSuffix ending text = some (String.ofList front) := by
  unfold stripSuffix
  rw [if_pos (List.isSuffixOf_iff_suffix.mpr ⟨front, h.symm⟩), h, List.length_append,
    Nat.add_sub_cancel, List.take_left]

theorem splitOnce_eq_none {separator : Char} {text : String} (h : separator ∉ text.toList) :
    splitOnce separator text = none := by
  unfold splitOnce
  rw [if_neg (by simpa using h)]

theorem splitOnce_eq_some {separator : Char} {text : String} {parts : String × String}
    (h : splitOnce separator text = some parts) :
    text.toList = parts.1.toList ++ separator :: parts.2.toList := by
  unfold splitOnce at h
  split at h
  · rename_i hmem
    obtain rfl := Option.some.inj h
    simp only [String.toList_ofList]
    cases hrest : text.toList.dropWhile (· ≠ separator) with
    | nil =>
      rw [List.dropWhile_eq_nil_iff] at hrest
      have hne := hrest separator (by simpa using hmem)
      simp at hne
    | cons c rest =>
      have hc : c = separator := by
        have hhead := List.head?_dropWhile_not (· ≠ separator) text.toList
        rw [hrest] at hhead
        simpa using hhead
      have hsplit := List.takeWhile_append_dropWhile (p := (· ≠ separator)) (l := text.toList)
      rw [hrest, hc] at hsplit
      rw [List.drop_succ_cons, List.drop_zero]
      exact hsplit.symm
  · cases h

/-- The variable that a template segment captures. -/
def segmentName (segment : String) : Option String :=
  parameterName (splitTemplateSegment segment).1

theorem splitAt_eq_singleton {separator : Char} {text : String} (h : separator ∉ text.toList) :
    splitAt separator text = [text] := by
  unfold splitAt
  rw [List.splitOn_eq_singleton h, List.map_singleton, String.ofList_toList]

/-- Leading slashes add nothing to the segments that are matched. -/
theorem templateSegments_eq (rule : ProxyOperationRule) : templateSegments rule =
    (splitAt '/' rule.pathTemplate).filter fun segment => !segment.isEmpty := by
  unfold templateSegments splitAt
  rw [String.toList_ofList]
  generalize rule.pathTemplate.toList = chars
  induction chars with
  | nil => rfl
  | cons c chars ih =>
    by_cases hc : c = '/'
    · subst hc
      rw [List.dropWhile_cons_of_pos (by simp), ih, List.splitOn_cons_eq_if_modifyHead]
      simp
    · rw [List.dropWhile_cons_of_neg (by simpa using hc)]

/-- The value that a variable captures from an actual segment. -/
def capturedValue (template segment : String) : Option String :=
  match (splitTemplateSegment template).2 with
  | some verb => stripCustomMethod segment verb
  | none => some segment

theorem ne_empty_of_parameterMatches {constraint : Option ProxyPathConstraint} {value : String}
    (h : parameterMatches U constraint value = true) : value ≠ "" := by
  rintro rfl
  unfold parameterMatches at h
  rw [if_pos (Or.inl rfl)] at h
  cases h

theorem notMem_colon_of_parameterMatches {value : String}
    (h : parameterMatches U none value = true) : ':' ∉ value.toList := by
  intro hcolon
  unfold parameterMatches at h
  split at h
  · cases h
  · have hany : containsAny value [':'] = true := by
      unfold containsAny
      exact List.any_eq_true.mpr ⟨':', hcolon, by simp⟩
    rw [hany] at h
    cases h

/-- A template segment without a variable matches itself. -/
theorem matchSegments_literal {rule : ProxyOperationRule} {template : String}
    {templates actual : List String} {arguments result : List (String × String)}
    (hname : segmentName template = none) :
    matchSegments U rule (template :: templates) actual arguments = some result ↔
      ∃ rest, actual = template :: rest ∧
        matchSegments U rule templates rest arguments = some result := by
  rw [matchSegments.eq_def]
  simp only [show parameterName (splitTemplateSegment template).1 = none from hname]
  cases actual with
  | nil => simp
  | cons segment rest =>
    simp only [List.cons.injEq]
    constructor
    · intro h
      split at h
      · cases h
      · rename_i heq
        exact ⟨rest, ⟨by simpa using heq, rfl⟩, h⟩
    · rintro ⟨_, ⟨rfl, rfl⟩, h⟩
      rw [if_neg (by simp)]
      exact h

theorem captureValue_eq (rule : ProxyOperationRule) (name template captured : String) :
    captureValue U rule name (splitTemplateSegment template).2 captured =
      (capturedValue template captured).bind fun value =>
        if !rule.isMultiSegment name && !parameterMatches U (rule.constraint name) value then none
        else some value := by
  unfold captureValue capturedValue
  cases (splitTemplateSegment template).2 <;> rfl

theorem stripCustomMethod_eq_some {actual verb value : String}
    (h : stripCustomMethod actual verb = some value) :
    actual.toList = value.toList ++ ':' :: verb.toList := by
  unfold stripCustomMethod at h
  obtain ⟨hstripped, -⟩ := Option.filter_eq_some_iff.mp h
  obtain ⟨resource, hverb, hcolon⟩ := Option.bind_eq_some_iff.mp hstripped
  rw [stripSuffix_eq_some hverb, stripSuffix_eq_some hcolon, List.append_assoc]
  rfl

end

/-!
Paths that a typed endpoint built: percent-decoded once and then read like any other. What
is encoded decodes to itself when it has none of the characters that are refused in encoded
form, and clean segments joined with slashes are always read back as those segments.
-/

def hexValue (byte : UInt8) : Option UInt8 :=
  if 48 ≤ byte ∧ byte ≤ 57 then some (byte - 48)
  else if 97 ≤ byte ∧ byte ≤ 102 then some (byte - 97 + 10)
  else if 65 ≤ byte ∧ byte ≤ 70 then some (byte - 65 + 10)
  else none

/-- A slash, a backslash, a percent sign and NUL. -/
def undecodable : List UInt8 := [47, 92, 37, 0]

def percentDecodeBytes : List UInt8 → Option (List UInt8)
  | [] => some []
  | byte :: rest =>
    if byte ≠ 37 then (percentDecodeBytes rest).map (byte :: ·)
    else
      match rest with
      | high :: low :: rest =>
        match hexValue high, hexValue low with
        | some high, some low =>
          if high <<< 4 ||| low ∈ undecodable then none
          else (percentDecodeBytes rest).map ((high <<< 4 ||| low) :: ·)
        | _, _ => none
      -- fewer than two digits are left
      | _ => none

def invalidPath : AppError := .badRequest "Invalid proxy path"

def percentDecodePath (path : String) : Except AppError String :=
  match (percentDecodeBytes (utf8 path)).bind fun decoded => String.fromUTF8? decoded.toByteArray with
  | some decoded => .ok decoded
  | none => .error invalidPath

/-- A path as a typed endpoint builds it from encoded arguments. -/
def CanonicalPath.fromMcpBuilt (path : String) : Except AppError CanonicalPath := do
  rejectCommonAmbiguity path false
  let decoded ← percentDecodePath path
  CanonicalPath.fromDecoded decoded

section

theorem percentDecodeBytes_cons {byte : UInt8} (h : byte ≠ 37) (rest : List UInt8) :
    percentDecodeBytes (byte :: rest) = (percentDecodeBytes rest).map (byte :: ·) := by
  rw [percentDecodeBytes.eq_def]
  exact if_pos h

/-- What decodes decodes to the same bytes in front of others. -/
theorem percentDecodeBytes_append {bytes decoded : List UInt8}
    (h : percentDecodeBytes bytes = some decoded) (rest : List UInt8) :
    percentDecodeBytes (bytes ++ rest) = (percentDecodeBytes rest).map (decoded ++ ·) := by
  fun_induction percentDecodeBytes bytes generalizing decoded with
  | case1 =>
    cases h
    simp
  | case2 byte bytes hplain ih =>
    obtain ⟨decoded, hdecoded, rfl⟩ := Option.map_eq_some_iff.mp h
    rw [List.cons_append, percentDecodeBytes_cons hplain, ih hdecoded, Option.map_map]
    rfl
  | case3 => cases h
  | case4 byte hpercent high low bytes high' low' hlow hhigh hgood ih =>
    obtain ⟨decoded, hdecoded, rfl⟩ := Option.map_eq_some_iff.mp h
    rw [List.cons_append, List.cons_append, List.cons_append, percentDecodeBytes.eq_def]
    simp only [hpercent, hhigh, hlow, if_neg hgood, if_false]
    rw [ih hdecoded, Option.map_map]
    rfl
  | case5 => cases h
  | case6 => cases h

/-- Bytes without a percent sign stand for themselves. -/
theorem percentDecodeBytes_plain {bytes : List UInt8} (h : (37 : UInt8) ∉ bytes) :
    percentDecodeBytes bytes = some bytes := by
  induction bytes with
  | nil => rfl
  | cons byte bytes ih =>
    rw [List.mem_cons, not_or] at h
    rw [percentDecodeBytes_cons (Ne.symm h.1), ih h.2]
    rfl

/-- The characters that encode one byte. -/
def encodedByte (byte : UInt8) : List Char :=
  let c := Char.ofNat byte.toNat
  if c.isAlphanum || c = '-' || c = '_' || c = '.' || c = '~' then [c]
  else ['%', urlEncode.hexUpper (byte.toNat / 16), urlEncode.hexUpper (byte.toNat % 16)]

theorem urlEncode_eq (value : String) :
    urlEncode value = String.ofList ((utf8 value).flatMap encodedByte) := rfl

theorem encodedByte_spec (byte : UInt8) :
    (byte ∉ undecodable →
      percentDecodeBytes ((encodedByte byte).flatMap String.utf8EncodeChar) = some [byte]) ∧
      ∀ c ∈ encodedByte byte, c ∉ ['?', '#', '\\', '/', ':'] ∧ 32 ≤ c.toNat ∧ c.toNat ≠ 127 := by
  -- a quantifier over the characters would be decided over all of Unicode
  have hall : ∀ n : Fin 256, (UInt8.ofNat n ∉ undecodable →
      percentDecodeBytes ((encodedByte (UInt8.ofNat n)).flatMap String.utf8EncodeChar) =
        some [UInt8.ofNat n]) ∧
      (encodedByte (UInt8.ofNat n)).all (fun c => decide
        (c ∉ ['?', '#', '\\', '/', ':'] ∧ 32 ≤ c.toNat ∧ c.toNat ≠ 127)) = true := by
    decide +kernel
  have hbyte := hall ⟨byte.toNat, byte.toNat_lt⟩
  rw [show UInt8.ofNat (⟨byte.toNat, byte.toNat_lt⟩ : Fin 256) = byte from UInt8.ofNat_toNat] at hbyte
  exact ⟨hbyte.1, fun c hc => of_decide_eq_true (List.all_eq_true.mp hbyte.2 c hc)⟩

theorem mem_urlEncode {value : String} {c : Char} (h : c ∈ (urlEncode value).toList) :
    c ∉ ['?', '#', '\\', '/', ':'] ∧ 32 ≤ c.toNat ∧ c.toNat ≠ 127 := by
  rw [urlEncode_eq, String.toList_ofList] at h
  obtain ⟨byte, -, hc⟩ := List.mem_flatMap.mp h
  exact (encodedByte_spec byte).2 c hc

theorem percentDecodeBytes_urlEncode {value : String}
    (h : ∀ byte ∈ utf8 value, byte ∉ undecodable) :
    percentDecodeBytes (utf8 (urlEncode value)) = some (utf8 value) := by
  rw [urlEncode_eq, utf8_ofList, List.flatMap_assoc]
  generalize utf8 value = bytes at h
  induction bytes with
  | nil => rfl
  | cons byte bytes ih =>
    obtain ⟨hbyte, hbytes⟩ := List.forall_mem_cons.mp h
    rw [List.flatMap_cons, percentDecodeBytes_append ((encodedByte_spec byte).1 hbyte), ih hbytes]
    rfl

/-- A text without refused characters has none of their bytes. -/
theorem notMem_undecodable {value : String}
    (h : ∀ c ∈ value.toList, c ∉ ['/', '\\', '%'] ∧ c.toNat ≠ 0) :
    ∀ byte ∈ utf8 value, byte ∉ undecodable := by
  intro byte hbyte hbad
  rw [← String.ofList_toList (s := value), utf8_ofList] at hbyte
  obtain ⟨c, hc, hbyte⟩ := List.mem_flatMap.mp hbyte
  obtain ⟨hplain, hzero⟩ := h c hc
  have hcode (d : Char) (hd : byte.toNat = d.toNat) (hascii : d.toNat < 128) : c = d := by
    apply Char.toNat_inj.mp
    rw [← hd, ascii_of_mem_utf8EncodeChar hbyte (by omega)]
  simp only [undecodable, List.mem_cons, List.not_mem_nil, or_false] at hbad
  rcases hbad with rfl | rfl | rfl | rfl
  · exact hplain (hcode '/' rfl (by decide) ▸ by simp)
  · exact hplain (hcode '\\' rfl (by decide) ▸ by simp)
  · exact hplain (hcode '%' rfl (by decide) ▸ by simp)
  · exact hzero (hcode (Char.ofNat 0) rfl (by decide) ▸ rfl)

theorem percentDecodePath_of_bytes {path decoded : String}
    (h : percentDecodeBytes (utf8 path) = some (utf8 decoded)) :
    percentDecodePath path = .ok decoded := by
  have hbytes : (utf8 decoded).toByteArray = decoded.toByteArray := by
    apply ByteArray.ext
    rw [List.data_toByteArray]
    rfl
  unfold percentDecodePath
  rw [h, Option.bind_some, hbytes, String.fromUTF8?, dif_pos decoded.isValidUTF8]
  rfl

end

end NyxId.OperationScope
