import NyxId.OperationPath.Breakers

/-!
Accepted values are safe under any number of decodings, and plain values are always accepted.
-/

namespace NyxId.OperationPath

open Encoding OperationScope

variable {decode : String → Option String}

/-! ### What is accepted -/

theorem encodeSegment_eq_ok {segment encoded : String} :
    encodeSegment decode segment = .ok encoded ↔
      checkStable decode 8 segment = .ok () ∧ encoded = urlEncode segment := by
  unfold encodeSegment
  cases hcheck : checkStable decode 8 segment with
  | error e => simp [bind, Except.bind]
  | ok u => simp [bind, Except.bind, pure, Except.pure, eq_comm]

theorem mapM_encodeSegment {segments encoded : List String} :
    segments.mapM (encodeSegment decode) = .ok encoded ↔
      (∀ segment ∈ segments, checkStable decode 8 segment = .ok ()) ∧
        encoded = segments.map urlEncode := by
  induction segments generalizing encoded with
  | nil => simp [pure, Except.pure, eq_comm]
  | cons segment segments ih =>
    rw [List.mapM_cons]
    constructor
    · intro h
      cases hfirst : encodeSegment decode segment with
      | error e => simp [hfirst, bind, Except.bind] at h
      | ok first =>
        cases hrest : segments.mapM (encodeSegment decode) with
        | error e => simp [hfirst, hrest, bind, Except.bind] at h
        | ok rest =>
          simp only [hfirst, hrest, bind, Except.bind, pure, Except.pure, Except.ok.injEq] at h
          obtain ⟨hcheck, hfirstEq⟩ := encodeSegment_eq_ok.mp hfirst
          obtain ⟨hchecks, hrestEq⟩ := ih.mp hrest
          refine ⟨List.forall_mem_cons.mpr ⟨hcheck, hchecks⟩, ?_⟩
          rw [← h, hfirstEq, hrestEq, List.map_cons]
    · intro ⟨hchecks, hencoded⟩
      obtain ⟨hcheck, hchecks⟩ := List.forall_mem_cons.mp hchecks
      have hfirst := encodeSegment_eq_ok.mpr ⟨hcheck, rfl⟩
      have hrest := ih.mpr ⟨hchecks, rfl⟩
      simp only [hfirst, hrest, bind, Except.bind, pure, Except.pure, hencoded, List.map_cons]

/-- A nonempty value is encoded segment by segment when all of them are checked. -/
theorem encodeParameter_eq_ok {parameter : Json} {value encoded : String}
    (hmulti : multiSegment parameter) (hvalue : value ≠ "") :
    encodeParameter decode parameter value = .ok encoded ↔
      (∀ segment ∈ splitAt '/' value, checkStable decode 8 segment = .ok ()) ∧
        encoded = joinSlash ((splitAt '/' value).map urlEncode) ∧
        validateRequestedProxyPath decode encoded = .ok () := by
  unfold encodeParameter
  rw [if_neg (by simp [hmulti]), if_neg hvalue]
  constructor
  · intro h
    cases hmap : (splitAt '/' value).mapM (encodeSegment decode) with
    | error e => simp [hmap, bind, Except.bind] at h
    | ok segments =>
      obtain ⟨hchecks, hsegments⟩ := mapM_encodeSegment.mp hmap
      cases hvalid : validateRequestedProxyPath decode (joinSlash segments) with
      | error e => simp [hmap, hvalid, bind, Except.bind] at h
      | ok u =>
        simp only [hmap, hvalid, bind, Except.bind, pure, Except.pure, Except.ok.injEq] at h
        subst h
        exact ⟨hchecks, by rw [hsegments], hvalid⟩
  · intro ⟨hchecks, hencoded, hvalid⟩
    have hmap := mapM_encodeSegment.mpr ⟨hchecks, rfl⟩
    simp only [hmap, bind, Except.bind, ← hencoded, hvalid, pure, Except.pure]

/-- What is accepted decodes once to the value, keeps its segments, and is safe for ever. -/
theorem accepted_safe (hdecode : DecodesPercent decode) {parameter : Json} {value encoded : String}
    (hmulti : multiSegment parameter) (h : encodeParameter decode parameter value = .ok encoded) :
    decode encoded = some value ∧ (segmentsOf encoded).length = (segmentsOf value).length ∧
      ∀ segment ∈ segmentsOf value, ∀ times, ∃ decoded,
        decodeTimes decode times segment = some decoded ∧ Safe decoded := by
  by_cases hvalue : value = ""
  · subst hvalue
    have hempty : encoded = "" := by
      unfold encodeParameter at h
      rw [if_neg (by simp [hmulti]), if_pos rfl] at h
      exact (Except.ok.inj h).symm
    subst hempty
    exact ⟨hdecode.empty, rfl, by simp [segmentsOf]⟩
  · obtain ⟨hchecks, hencoded, -⟩ := (encodeParameter_eq_ok hmulti hvalue).mp h
    have hsafe := fun segment hsegment => safe_of_checkStable (hchecks segment hsegment)
    have hdecoded : decode encoded = some value := by
      rw [hencoded, hdecode.joined, joinSlash_splitAt]
    have hne : encoded ≠ "" := by
      intro hempty
      rw [hempty, hdecode.empty] at hdecoded
      exact hvalue (Option.some.inj hdecoded).symm
    refine ⟨hdecoded, ?_, ?_⟩
    · have hsegments : splitAt '/' encoded = (splitAt '/' value).map urlEncode := by
        rw [hencoded]
        apply splitAt_joinSlash
        · intro segment hsegment
          obtain ⟨part, -, rfl⟩ := List.mem_map.mp hsegment
          exact (notMem_urlEncode part).2
        · simpa using splitAt_ne_nil '/' value
      simp only [segmentsOf, if_neg hvalue, if_neg hne, hsegments, List.length_map]
    · rw [segmentsOf, if_neg hvalue]
      exact hsafe

theorem Plain.safe {segment : String} (h : Plain segment) (hslash : '/' ∉ segment.toList) :
    Safe segment := by
  refine ⟨h.nonempty, h.dots, fun c hc => ?_⟩
  obtain ⟨hplain, hcontrol⟩ := h.chars c hc
  simp only [List.mem_cons, List.not_mem_nil, or_false, not_or] at hplain
  exact ⟨fun heq => hslash (heq ▸ hc), hplain.2.2.2, hcontrol⟩

/-- A value of plain segments is accepted. -/
theorem plain_accepted (hdecode : DecodesPercent decode) {parameter : Json} {value : String}
    (hmulti : multiSegment parameter) (hplain : ∀ segment ∈ segmentsOf value, Plain segment) :
    ∃ encoded, encodeParameter decode parameter value = .ok encoded := by
  by_cases hvalue : value = ""
  · refine ⟨"", ?_⟩
    rw [encodeParameter, if_neg (by simp [hmulti]), if_pos hvalue]
  · rw [segmentsOf, if_neg hvalue] at hplain
    have hslash := notMem_splitAt '/' value
    have hclean : ∀ segment ∈ splitAt '/' value, CleanSegment true segment :=
      fun segment hsegment => (hplain segment hsegment).clean (hslash segment hsegment)
    refine ⟨_, (encodeParameter_eq_ok hmulti hvalue).mpr ⟨fun segment hsegment => ?_, rfl,
      validate_joinSlash hdecode hclean (splitAt_ne_nil '/' value)⟩⟩
    apply checkStable_of_fixed ((hplain segment hsegment).safe (hslash segment hsegment))
    apply hdecode.itself
    intro hmem
    exact ((hclean segment hsegment).chars '%' hmem).2.1 rfl rfl

/-- Accepted values are safe under any number of decodings, and plain values are accepted. -/
theorem multi_segment_safe (decode : String → Option String) (hdecode : DecodesPercent decode)
    (parameter : Json) (hmulti : multiSegment parameter) (value : String) :
    (∀ encoded, encodeParameter decode parameter value = .ok encoded →
      decode encoded = some value ∧
      (segmentsOf encoded).length = (segmentsOf value).length ∧
      ∀ segment ∈ segmentsOf value, ∀ times, ∃ decoded,
        decodeTimes decode times segment = some decoded ∧ Safe decoded) ∧
    ((∀ segment ∈ segmentsOf value, Plain segment) →
      ∃ encoded, encodeParameter decode parameter value = .ok encoded) :=
  ⟨fun _ h => accepted_safe hdecode hmulti h, plain_accepted hdecode hmulti⟩

/-! ### A decoding -/

/-- Percent signs before two hexadecimal digits stand for a byte, others for themselves. -/
def decodedBytes : List UInt8 → List UInt8
  | [] => []
  | byte :: rest =>
    if byte ≠ 37 then byte :: decodedBytes rest
    else
      match rest with
      | high :: low :: tail =>
        match hexValue high, hexValue low with
        | some high, some low => (high <<< 4 ||| low) :: decodedBytes tail
        | _, _ => 37 :: decodedBytes (high :: low :: tail)
      | short => 37 :: short

def percentDecode (text : String) : Option String :=
  String.fromUTF8? (decodedBytes (utf8 text)).toByteArray

theorem decodedBytes_plain {bytes : List UInt8} (h : (37 : UInt8) ∉ bytes) (rest : List UInt8) :
    decodedBytes (bytes ++ rest) = bytes ++ decodedBytes rest := by
  induction bytes with
  | nil => rfl
  | cons byte bytes ih =>
    rw [List.mem_cons, not_or] at h
    rw [List.cons_append, decodedBytes.eq_def]
    simp only [ne_eq, Ne.symm h.1, not_false_eq_true, if_true, ih h.2, List.cons_append]

theorem encodedByte_table : ∀ n : Fin 256,
    (match (encodedByte (UInt8.ofNat n)).flatMap String.utf8EncodeChar with
    | [b] => decide (b = UInt8.ofNat n ∧ b ≠ 37)
    | [p, high, low] => decide (p = 37 ∧ ((hexValue high).bind fun h =>
        (hexValue low).map fun l => h <<< 4 ||| l) = some (UInt8.ofNat n))
    | _ => false) = true := by
  decide +kernel

theorem decodedBytes_encodedByte (byte : UInt8) (rest : List UInt8) :
    decodedBytes ((encodedByte byte).flatMap String.utf8EncodeChar ++ rest) =
      byte :: decodedBytes rest := by
  have hbyte := encodedByte_table ⟨byte.toNat, byte.toNat_lt⟩
  rw [show UInt8.ofNat (⟨byte.toNat, byte.toNat_lt⟩ : Fin 256) = byte from UInt8.ofNat_toNat] at hbyte
  split at hbyte
  · next b hb =>
    obtain ⟨rfl, hne⟩ := of_decide_eq_true hbyte
    rw [hb]
    exact decodedBytes_plain (by simpa using Ne.symm hne) rest
  · next p high low hparts =>
    obtain ⟨rfl, hvalue⟩ := of_decide_eq_true hbyte
    obtain ⟨h, hhigh, hrest⟩ := Option.bind_eq_some_iff.mp hvalue
    obtain ⟨l, hlow, hsum⟩ := Option.map_eq_some_iff.mp hrest
    rw [hparts]
    show decodedBytes (37 :: high :: low :: rest) = _
    rw [decodedBytes]
    simp only [ne_eq, not_true_eq_false, if_false, hhigh, hlow, hsum]
  · simp at hbyte

theorem percentDecode_eq_some {text decoded : String} :
    percentDecode text = some decoded ↔ decodedBytes (utf8 text) = utf8 decoded := by
  unfold percentDecode String.fromUTF8?
  constructor
  · intro h
    split at h
    · rw [← Option.some.inj h]
      show _ = (decodedBytes (utf8 text)).toByteArray.data.toList
      rw [List.data_toByteArray]
    · simp at h
  · intro h
    have hbytes : (utf8 decoded).toByteArray = decoded.toByteArray := by
      apply ByteArray.ext
      rw [List.data_toByteArray]
      rfl
    rw [h, hbytes, dif_pos decoded.isValidUTF8]
    rfl

theorem percentDecode_decodes : DecodesPercent percentDecode where
  empty := percentDecode_eq_some.mpr rfl
  plain := by
    intro c text decoded hc h
    rw [percentDecode_eq_some] at h ⊢
    have hchar : utf8 (String.singleton c) = String.utf8EncodeChar c := by
      have hlist : String.singleton c = String.ofList [c] := by
        apply String.toList_inj.mp
        simp
      rw [hlist, utf8_ofList]
      simp
    have hplain : (37 : UInt8) ∉ utf8 (String.singleton c) := by
      rw [hchar]
      intro hmem
      exact hc (Char.toNat_inj.mp (ascii_of_mem_utf8EncodeChar hmem (by decide)).symm)
    rw [utf8_append, utf8_append, decodedBytes_plain hplain, h]
  encoded := by
    intro value text decoded h
    rw [percentDecode_eq_some] at h ⊢
    rw [utf8_append, utf8_append, urlEncode_eq, utf8_ofList, List.flatMap_assoc, ← h]
    generalize utf8 value = bytes
    induction bytes with
    | nil => rfl
    | cons byte bytes ih =>
      rw [List.flatMap_cons, List.append_assoc, decodedBytes_encodedByte, ih, List.cons_append]

def sampleParameter : Json :=
  .object [("allowReserved", .bool true), ("in", .string "path")]

/-- Two plain segments, one with a blank. -/
theorem two_segments_accepted : ∃ encoded,
    encodeParameter percentDecode sampleParameter "docs/a b.txt" = .ok encoded ∧
      percentDecode encoded = some "docs/a b.txt" := by
  have hmulti : multiSegment sampleParameter = true := by decide
  obtain ⟨hsafe, haccepted⟩ :=
    multi_segment_safe percentDecode percentDecode_decodes sampleParameter hmulti "docs/a b.txt"
  have hsegments : segmentsOf "docs/a b.txt" = ["docs", "a b.txt"] := by decide
  obtain ⟨encoded, hencoded⟩ := haccepted (by
    rw [hsegments]
    intro segment hsegment
    simp only [List.mem_cons, List.not_mem_nil, or_false] at hsegment
    obtain rfl | rfl := hsegment
    · exact ⟨by decide, by decide, by simp [Permissions.isControl]⟩
    · exact ⟨by decide, by decide, by simp [Permissions.isControl]⟩)
  exact ⟨encoded, hencoded, (hsafe encoded hencoded).1⟩

end NyxId.OperationPath
