import NyxId.OperationScope.Rereading
import NyxId.Permissions.Drive

/-!
Encoding of path parameters. A parameter of several segments keeps its slashes; each segment is
decoded until nothing changes and may at no point become a separator or a dot segment, and the
encoded path must still pass the checks of the proxy.
-/

namespace NyxId.OperationPath

open Encoding OperationScope
open Permissions (isControl Json.field Json.asStr)

def pathSegmentsMarker : String := "x-nyxid-path-segments"

def asBool : Json → Option Bool
  | .bool value => some value
  | _ => none

/-- The marks of a path parameter that may have several segments. -/
def multiSegment (parameter : Json) : Bool :=
  (Json.field parameter "in").bind Json.asStr = some "path" &&
    ((Json.field parameter "allowReserved").bind asBool = some true ||
      (Json.field parameter pathSegmentsMarker).bind asBool = some true)

def containsText (text pattern : List Char) : Bool := text.tails.any (pattern.isPrefixOf ·)

def containsDotSegment (value : String) : Bool :=
  (splitAt '/' value).any fun segment => segment = "." || segment = ".."

def containsRawPathBreaker (value : String) : Bool :=
  containsAny value ['\\', Char.ofNat 0, '?', '#'] || containsText value.toList ['/', '/'] ||
    containsDotSegment value

/-- Encoded dots become dots. -/
def replaceDots : List Char → List Char
  | '%' :: '2' :: 'e' :: rest => '.' :: replaceDots rest
  | c :: rest => c :: replaceDots rest
  | [] => []

/-- The encodings of a slash, a backslash, NUL, a question mark and a hash. -/
def encodedBreakers : List (List Char) :=
  ["%2f".toList, "%5c".toList, "%00".toList, "%3f".toList, "%23".toList]

def containsPercentEncodedPathBreaker (value : String) : Bool :=
  let lower := value.toList.map Char.toLower
  encodedBreakers.any (containsText lower ·) ||
    (lower.splitOn '/').any fun segment =>
      replaceDots segment = ['.'] || replaceDots segment = ['.', '.']

section

-- the percent-decoding of the library: no text when the bytes are not UTF-8
variable (decode : String → Option String)

/-- The rounds of decoding that are left, on a text that none of the earlier rounds refused. -/
def containsNested : ℕ → String → Bool
  | 0, _ => false
  | rounds + 1, current =>
    if containsPercentEncodedPathBreaker current then true
    else
      match decode current with
      | none => false
      | some decoded =>
        if decoded = current then false
        else if containsRawPathBreaker decoded then true
        else containsNested rounds decoded

def containsNestedPercentEncodedPathBreaker (value : String) : Bool := containsNested decode 8 value

def validateRequestedProxyPath (path : String) : Except AppError Unit :=
  if containsRawPathBreaker path || containsNestedPercentEncodedPathBreaker decode path then
    .error (.badRequest "Invalid proxy path")
  else .ok ()

def invalid : AppError := .badRequest "Invalid multi-segment path parameter"

/-- A segment that some round leaves unchanged, with nothing refused before. -/
def checkStable : ℕ → String → Except AppError Unit
  | 0, _ => .error invalid
  | rounds + 1, decoded =>
    if decoded ∈ ["", ".", ".."] ∨ containsAny decoded ['/', '\\'] ∨ decoded.toList.any isControl then
      .error invalid
    else
      match decode decoded with
      | none => .error invalid
      | some next => if next = decoded then .ok () else checkStable rounds next

def encodeSegment (segment : String) : Except AppError String := do
  checkStable decode 8 segment
  return urlEncode segment

def encodeParameter (parameter : Json) (value : String) : Except AppError String :=
  if !multiSegment parameter then .ok (urlEncode value)
  -- an entirely empty value denotes zero segments
  else if value = "" then .ok ""
  else do
    let encoded ← (splitAt '/' value).mapM (encodeSegment decode)
    validateRequestedProxyPath decode (joinSlash encoded)
    return joinSlash encoded

/-- Decoding again and again. -/
def decodeTimes : ℕ → String → Option String
  | 0, text => some text
  | times + 1, text => (decode text).bind (decodeTimes times)

end

/-- The segments that a value denotes. -/
def segmentsOf (value : String) : List String := if value = "" then [] else splitAt '/' value

/-- A segment that a router cannot take for a separator, a parent or nothing. -/
structure Safe (segment : String) : Prop where
  nonempty : segment ≠ ""
  dots : segment ≠ "." ∧ segment ≠ ".."
  chars : ∀ c ∈ segment.toList, c ≠ '/' ∧ c ≠ '\\' ∧ ¬ isControl c

/-- A segment that stands for itself in any encoding. -/
structure Plain (segment : String) : Prop where
  nonempty : segment ≠ ""
  dots : segment ≠ "." ∧ segment ≠ ".."
  chars : ∀ c ∈ segment.toList, c ∉ ['%', '?', '#', '\\'] ∧ ¬ isControl c

/-- What is documented of the decoding: text without percent signs and encoded text stand for
themselves in front of any text that can be decoded. -/
structure DecodesPercent (decode : String → Option String) : Prop where
  empty : decode "" = some ""
  plain : ∀ (c : Char) (text decoded : String), c ≠ '%' → decode text = some decoded →
    decode (String.singleton c ++ text) = some (String.singleton c ++ decoded)
  encoded : ∀ value text decoded : String, decode text = some decoded →
    decode (urlEncode value ++ text) = some (value ++ decoded)

/-!
Segments under repeated decoding: a text that decodes to itself stays so, and everything before
it was checked. What was encoded decodes to itself.
-/

variable {decode : String → Option String}

/-! ### Checked segments -/

theorem safe_iff {segment : String} :
    ¬ (segment ∈ ["", ".", ".."] ∨ containsAny segment ['/', '\\'] ∨
      segment.toList.any isControl) ↔ Safe segment := by
  simp only [containsAny, List.mem_cons, List.not_mem_nil, or_false, List.any_eq_true,
    decide_eq_true_eq, not_or, not_exists, not_and]
  constructor
  · intro ⟨⟨hempty, hdots⟩, hmarks, hcontrol⟩
    exact ⟨hempty, hdots, fun c hc => ⟨(hmarks c hc).1, (hmarks c hc).2, hcontrol c hc⟩⟩
  · intro h
    exact ⟨⟨h.nonempty, h.dots⟩, fun c hc => ⟨(h.chars c hc).1, (h.chars c hc).2.1⟩,
      fun c hc => (h.chars c hc).2.2⟩

theorem decodeTimes_of_fixed {text : String} (h : decode text = some text) (times : ℕ) :
    decodeTimes decode times text = some text := by
  induction times with
  | zero => rfl
  | succ times ih => rw [decodeTimes, h, Option.bind_some, ih]

/-- Within some rounds the decoding is at a fixed point, and all it passed through is safe. -/
theorem safe_of_checkStable {rounds : ℕ} {segment : String}
    (h : checkStable decode rounds segment = .ok ()) (times : ℕ) :
    ∃ decoded, decodeTimes decode times segment = some decoded ∧ Safe decoded := by
  induction rounds generalizing segment times with
  | zero => simp [checkStable] at h
  | succ rounds ih =>
    rw [checkStable] at h
    split at h
    · simp at h
    · next hsafe =>
      rw [safe_iff] at hsafe
      cases hdecode : decode segment with
      | none => simp [hdecode] at h
      | some next =>
        simp only [hdecode] at h
        by_cases hfixed : next = segment
        · subst hfixed
          exact ⟨next, decodeTimes_of_fixed hdecode times, hsafe⟩
        · rw [if_neg hfixed] at h
          cases times with
          | zero => exact ⟨segment, rfl, hsafe⟩
          | succ times =>
            rw [decodeTimes, hdecode, Option.bind_some]
            exact ih h times

theorem checkStable_of_fixed {rounds : ℕ} {segment : String} (hsafe : Safe segment)
    (hfixed : decode segment = some segment) : checkStable decode (rounds + 1) segment = .ok () := by
  rw [checkStable, if_neg (safe_iff.mpr hsafe)]
  simp [hfixed]

/-! ### Decoding what was encoded -/

theorem DecodesPercent.encode (h : DecodesPercent decode) (value : String) :
    decode (urlEncode value) = some value := by
  simpa using h.encoded value "" "" h.empty

theorem DecodesPercent.slash (h : DecodesPercent decode) {text decoded : String}
    (htext : decode text = some decoded) : decode ("/" ++ text) = some ("/" ++ decoded) :=
  h.plain '/' text decoded (by decide) htext

theorem DecodesPercent.joined (h : DecodesPercent decode) (segments : List String) :
    decode (joinSlash (segments.map urlEncode)) = some (joinSlash segments) := by
  induction segments with
  | nil => exact h.empty
  | cons segment segments ih =>
    by_cases hnil : segments = []
    · subst hnil
      rw [List.map_singleton, joinSlash_singleton, joinSlash_singleton]
      exact h.encode segment
    · rw [List.map_cons, joinSlash_cons _ (by simpa using hnil), joinSlash_cons _ hnil,
        String.append_assoc, String.append_assoc]
      exact h.encoded segment _ _ (h.slash ih)

/-- Text without percent signs is decoded to itself. -/
theorem DecodesPercent.itself (h : DecodesPercent decode) {text : String}
    (htext : '%' ∉ text.toList) : decode text = some text := by
  have hchars : ∀ chars : List Char, '%' ∉ chars →
      decode (String.ofList chars) = some (String.ofList chars) := by
    intro chars hchars
    induction chars with
    | nil => exact h.empty
    | cons c rest ih =>
      rw [List.mem_cons, not_or] at hchars
      have hcons : String.ofList (c :: rest) = String.singleton c ++ String.ofList rest := by
        apply String.toList_inj.mp
        simp
      rw [hcons]
      exact h.plain c _ _ (Ne.symm hchars.1) (ih hchars.2)
  have hall := hchars text.toList htext
  rwa [String.ofList_toList] at hall

end NyxId.OperationPath
