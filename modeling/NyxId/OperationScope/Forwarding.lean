import NyxId.OperationScope.Templates
import NyxId.Encoding.Records

/-!
The forwarded form of a matched call. Each segment of the path is either encoded whole or
keeps its last colon as a custom method, and a variable of several segments that captures
none leaves an empty segment; two rules forward a path alike exactly when they choose the
same form for every segment.
-/

namespace NyxId.OperationScope

open Encoding

variable {U : CharClass}

section

theorem toList_joinSlash (segments : List String) :
    (joinSlash segments).toList = List.intercalate ['/'] (segments.map String.toList) :=
  String.toList_ofList

theorem splitAt_joinSlash {segments : List String}
    (hclean : ∀ segment ∈ segments, '/' ∉ segment.toList) (hne : segments ≠ []) :
    splitAt '/' (joinSlash segments) = segments := by
  unfold splitAt
  rw [toList_joinSlash, List.splitOn_intercalate '/'
    (fun chars hchars => by
      obtain ⟨segment, hsegment, rfl⟩ := List.mem_map.mp hchars
      exact hclean segment hsegment)
    (by simpa using hne), List.map_map]
  exact List.map_id'' (fun segment => String.ofList_toList) segments

theorem joinSlash_inj {segments others : List String}
    (hclean : ∀ segment ∈ segments, '/' ∉ segment.toList)
    (hclean' : ∀ segment ∈ others, '/' ∉ segment.toList) (hne : segments ≠ []) (hne' : others ≠ [])
    (h : joinSlash segments = joinSlash others) : segments = others := by
  rw [← splitAt_joinSlash hclean hne, h, splitAt_joinSlash hclean' hne']

theorem joinSlash_cons (segment : String) {segments : List String} (hne : segments ≠ []) :
    joinSlash (segment :: segments) = segment ++ "/" ++ joinSlash segments := by
  obtain ⟨next, rest, rfl⟩ := List.exists_cons_of_ne_nil hne
  apply String.toList_inj.mp
  rw [toList_joinSlash, String.toList_append, String.toList_append, toList_joinSlash]
  simp

theorem joinSlash_append {segments others : List String} (hne : segments ≠ []) (hne' : others ≠ []) :
    joinSlash (segments ++ others) = joinSlash segments ++ "/" ++ joinSlash others := by
  induction segments with
  | nil => exact absurd rfl hne
  | cons segment segments ih =>
    rw [List.cons_append, joinSlash_cons segment (by simp [hne'])]
    by_cases hsegments : segments = []
    · subst hsegments
      apply String.toList_inj.mp
      simp [toList_joinSlash]
    · rw [ih hsegments, joinSlash_cons segment hsegments]
      simp only [String.append_assoc]

theorem joinSlash_flatMap {α : Type} {parts : α → List String} {items : List α}
    (hne : ∀ item ∈ items, parts item ≠ []) :
    joinSlash (items.map fun item => joinSlash (parts item)) = joinSlash (items.flatMap parts) := by
  induction items with
  | nil => rfl
  | cons item items ih =>
    obtain ⟨hitem, hitems⟩ := List.forall_mem_cons.mp hne
    rw [List.map_cons, List.flatMap_cons]
    cases items with
    | nil =>
      apply String.toList_inj.mp
      simp [toList_joinSlash]
    | cons other items =>
      have hflat : (other :: items).flatMap parts ≠ [] := by
        rw [List.flatMap_cons]
        exact List.append_ne_nil_of_left_ne_nil (hitems other List.mem_cons_self) _
      rw [joinSlash_cons _ (by simp), ih hitems, joinSlash_append hitem hflat]

theorem joinSlash_singleton (text : String) : joinSlash [text] = text := by
  apply String.toList_inj.mp
  simp [toList_joinSlash]

theorem joinSlash_concat (segments : List String) (segment ending : String) :
    joinSlash (segments ++ [segment ++ ending]) = joinSlash (segments ++ [segment]) ++ ending := by
  by_cases hsegments : segments = []
  · subst hsegments
    rw [List.nil_append, List.nil_append, joinSlash_singleton, joinSlash_singleton]
  · rw [joinSlash_append hsegments (by simp), joinSlash_append hsegments (by simp),
      joinSlash_singleton, joinSlash_singleton]
    simp only [String.append_assoc]

/-- The last separator is found before a text without it. -/
theorem rsplitOnce_of_append {separator : Char} {text before after : String}
    (h : text.toList = before.toList ++ separator :: after.toList)
    (hafter : separator ∉ after.toList) :
    rsplitOnce separator text = some (before, after) := by
  unfold rsplitOnce
  have hreverse : text.toList.reverse = after.toList.reverse ++ separator :: before.toList.reverse := by
    rw [h]
    simp
  have hclean : ∀ c ∈ after.toList.reverse, decide (c ≠ separator) = true := by
    intro c hc
    refine decide_eq_true ?_
    rintro rfl
    exact hafter (List.mem_reverse.mp hc)
  rw [if_pos (by rw [h]; simp), hreverse, List.dropWhile_append_of_pos hclean,
    List.takeWhile_append_of_pos hclean, List.dropWhile_cons_of_neg (by simp),
    List.takeWhile_cons_of_neg (by simp)]
  simp

theorem hexUpper_mem (n : ℕ) (h : n < 16) : urlEncode.hexUpper n ≠ ':' ∧ urlEncode.hexUpper n ≠ '/' := by
  have hall : ∀ m : Fin 16, urlEncode.hexUpper m ≠ ':' ∧ urlEncode.hexUpper m ≠ '/' := by decide
  exact hall ⟨n, h⟩

/-- Encoded text has neither separators nor colons. -/
theorem notMem_urlEncode (value : String) :
    ':' ∉ (urlEncode value).toList ∧ '/' ∉ (urlEncode value).toList := by
  have hall : ∀ c ∈ (urlEncode value).toList, c ≠ ':' ∧ c ≠ '/' := by
    intro c hc
    unfold urlEncode at hc
    rw [String.toList_ofList] at hc
    obtain ⟨byte, -, hc⟩ := List.mem_flatMap.mp hc
    simp only at hc
    split at hc
    · rename_i hplain
      obtain rfl := List.mem_singleton.mp hc
      constructor <;> (intro heq; rw [heq] at hplain; revert hplain; decide)
    · have hbyte := byte.toNat_lt
      simp only [List.mem_cons, List.not_mem_nil, or_false] at hc
      rcases hc with rfl | rfl | rfl
      · decide
      · exact hexUpper_mem _ (by omega)
      · exact hexUpper_mem _ (by omega)
  exact ⟨fun h => (hall _ h).1 rfl, fun h => (hall _ h).2 rfl⟩

theorem urlEncode_ne_empty {value : String} (h : value ≠ "") : urlEncode value ≠ "" := by
  intro hempty
  have hchars := congrArg String.toList hempty
  unfold urlEncode at hchars
  rw [String.toList_ofList] at hchars
  have hbytes : utf8 value ≠ [] := by
    intro hnil
    exact h (utf8_injective (hnil.trans rfl))
  obtain ⟨byte, rest, hcons⟩ := List.exists_cons_of_ne_nil hbytes
  rw [hcons, List.flatMap_cons] at hchars
  have hpart := (List.append_eq_nil_iff.mp hchars).1
  simp only at hpart
  split at hpart <;> cases hpart

end

/-- How a segment is forwarded: encoded whole, with its last colon kept, or empty where a
variable captures no segment. -/
inductive Piece where
  | plain
  | method
  | empty
  deriving DecidableEq

def pieceOf (verb : Option String) : Piece := if verb.isSome then .method else .plain

/-- A segment with the custom method after its last colon. -/
def methodForm (segment : String) : String :=
  let (resource, verb) := (rsplitOnce ':' segment).getD (segment, "")
  urlEncode resource ++ ":" ++ verb

/-- The forwarded segments of a path under chosen forms. -/
def render : List Piece → List String → List String
  | [], _ => []
  | .empty :: pieces, segments => "" :: render pieces segments
  | _ :: _, [] => []
  | .plain :: pieces, segment :: rest => urlEncode segment :: render pieces rest
  | .method :: pieces, segment :: rest => methodForm segment :: render pieces rest

/-- The forms that the templates of a rule give to a path of so many segments. -/
def templatePieces (rule : ProxyOperationRule) : List String → ℕ → List Piece
  | [], _ => []
  | template :: templates, length =>
    let piece := pieceOf (splitTemplateSegment template).2
    if (segmentName template).any rule.isMultiSegment then
      let take := length - templates.length
      if take = 0 then .empty :: templatePieces rule templates length
      else List.replicate (take - 1) .plain ++ piece :: templatePieces rule templates (length - take)
    else piece :: templatePieces rule templates (length - 1)

/-- The form in which a rule forwards a path; one without segments is an empty one. -/
def forwardForm (rule : ProxyOperationRule) (path : CanonicalPath) : List Piece :=
  match templatePieces rule (templateSegments rule) path.segments.length with
  | [] => [.empty]
  | piece :: pieces => piece :: pieces

section

theorem mem_methodForm (segment : String) : ':' ∈ (methodForm segment).toList := by
  unfold methodForm
  simp

theorem notMem_slash_methodForm {segment : String} (h : '/' ∉ segment.toList) :
    '/' ∉ (methodForm segment).toList := by
  unfold methodForm
  have hverb : '/' ∉ ((rsplitOnce ':' segment).getD (segment, "")).2.toList := by
    unfold rsplitOnce
    split
    · rw [Option.getD_some, String.toList_ofList, List.mem_reverse]
      intro hmem
      exact h (List.mem_reverse.mp ((List.takeWhile_sublist _).subset hmem))
    · simp
  simp only [String.toList_append, List.mem_append, not_or]
  exact ⟨⟨(notMem_urlEncode _).2, by decide⟩, hverb⟩

theorem notMem_slash_render {pieces : List Piece} {segments : List String}
    (hclean : ∀ segment ∈ segments, '/' ∉ segment.toList) :
    ∀ part ∈ render pieces segments, '/' ∉ part.toList := by
  induction pieces generalizing segments with
  | nil => exact fun part h => (nomatch h)
  | cons piece pieces ih =>
    cases piece with
    | empty => exact List.forall_mem_cons.mpr ⟨by simp, ih hclean⟩
    | plain =>
      cases segments with
      | nil => exact fun part h => (nomatch h)
      | cons segment rest =>
        obtain ⟨-, hrest⟩ := List.forall_mem_cons.mp hclean
        exact List.forall_mem_cons.mpr ⟨(notMem_urlEncode segment).2, ih hrest⟩
    | method =>
      cases segments with
      | nil => exact fun part h => (nomatch h)
      | cons segment rest =>
        obtain ⟨hsegment, hrest⟩ := List.forall_mem_cons.mp hclean
        exact List.forall_mem_cons.mpr ⟨notMem_slash_methodForm hsegment, ih hrest⟩

theorem methodForm_ne_empty (segment : String) : methodForm segment ≠ "" := by
  intro h
  have hcolon := mem_methodForm segment
  rw [h] at hcolon
  cases hcolon

theorem methodForm_ne_urlEncode (segment : String) : methodForm segment ≠ urlEncode segment := by
  intro h
  have hcolon := mem_methodForm segment
  rw [h] at hcolon
  exact (notMem_urlEncode segment).1 hcolon

theorem countP_cons_consuming {piece : Piece} {pieces : List Piece} (h : piece ≠ .empty) :
    (piece :: pieces).countP (· ≠ .empty) = pieces.countP (· ≠ .empty) + 1 :=
  List.countP_cons_of_pos (by simpa using h)

theorem countP_cons_empty {pieces : List Piece} :
    (Piece.empty :: pieces).countP (· ≠ .empty) = pieces.countP (· ≠ .empty) :=
  List.countP_cons_of_neg (by simp)

/-- Forms that use up the segments render to one part each. -/
theorem length_render {pieces : List Piece} {segments : List String}
    (hcount : pieces.countP (· ≠ .empty) = segments.length) :
    (render pieces segments).length = pieces.length := by
  induction pieces generalizing segments with
  | nil => rfl
  | cons piece pieces ih =>
    cases piece with
    | empty =>
      rw [countP_cons_empty] at hcount
      exact congrArg (· + 1) (ih hcount)
    | plain =>
      rw [countP_cons_consuming (by decide)] at hcount
      cases segments with
      | nil => cases hcount
      | cons segment rest => exact congrArg (· + 1) (ih (Nat.succ.inj hcount))
    | method =>
      rw [countP_cons_consuming (by decide)] at hcount
      cases segments with
      | nil => cases hcount
      | cons segment rest => exact congrArg (· + 1) (ih (Nat.succ.inj hcount))

/-- Forms that use up the same segments are equal when they render alike. -/
theorem render_inj {pieces others : List Piece} {segments : List String}
    (hsegments : ∀ segment ∈ segments, segment ≠ "")
    (hcount : pieces.countP (· ≠ .empty) = segments.length)
    (hcount' : others.countP (· ≠ .empty) = segments.length)
    (h : render pieces segments = render others segments) : pieces = others := by
  have hlength : pieces.length = others.length := by
    rw [← length_render hcount, h, length_render hcount']
  induction pieces generalizing others segments with
  | nil => exact (List.length_eq_zero_iff.mp hlength.symm).symm
  | cons piece pieces ih =>
    cases others with
    | nil => cases hlength
    | cons other others =>
      have hrestLength := Nat.succ.inj hlength
      cases segments with
      | nil =>
        -- no segment is left, so both forms are empty
        have hempty (p : Piece) (ps : List Piece) (hp : (p :: ps).countP (· ≠ .empty) = 0) :
            p = .empty := by
          by_contra hne
          rw [countP_cons_consuming hne] at hp
          cases hp
        obtain rfl := hempty piece pieces hcount
        obtain rfl := hempty other others hcount'
        rw [countP_cons_empty] at hcount hcount'
        rw [ih hsegments hcount hcount' (List.cons.inj h).2 hrestLength]
      | cons segment rest =>
        obtain ⟨hsegment, hrest⟩ := List.forall_mem_cons.mp hsegments
        have hplain := urlEncode_ne_empty hsegment
        have hmethod := methodForm_ne_empty segment
        have hdiffer := methodForm_ne_urlEncode segment
        cases piece <;> cases other <;> simp only [render, List.cons.injEq] at h
        case empty.empty =>
          rw [countP_cons_empty] at hcount hcount'
          rw [ih hsegments hcount hcount' h.2 hrestLength]
        case plain.plain =>
          rw [countP_cons_consuming (by decide)] at hcount hcount'
          rw [ih hrest (Nat.succ.inj hcount) (Nat.succ.inj hcount') h.2 hrestLength]
        case method.method =>
          rw [countP_cons_consuming (by decide)] at hcount hcount'
          rw [ih hrest (Nat.succ.inj hcount) (Nat.succ.inj hcount') h.2 hrestLength]
        case plain.method => exact absurd h.1.symm hdiffer
        case method.plain => exact absurd h.1 hdiffer
        case plain.empty => exact absurd h.1 hplain
        case method.empty => exact absurd h.1 hmethod
        case empty.plain => exact absurd h.1.symm hplain
        case empty.method => exact absurd h.1.symm hmethod

end

section

/-- How the templates of a rule match the segments of a path under final captures. -/
inductive Matched (rule : ProxyOperationRule) (arguments : List (String × String)) :
    List String → List String → Prop where
  | nil : Matched rule arguments [] []
  | literal {template : String} {templates rest : List String} (hname : segmentName template = none)
      (tail : Matched rule arguments templates rest) :
      Matched rule arguments (template :: templates) (template :: rest)
  | single {template name segment value : String} {templates rest : List String}
      (hname : segmentName template = some name) (single : rule.isMultiSegment name = false)
      (captured : capturedValue template segment = some value) (nonempty : segment ≠ "")
      (bound : arguments.lookup name = some value) (tail : Matched rule arguments templates rest) :
      Matched rule arguments (template :: templates) (segment :: rest)
  | absent {template name : String} {templates actual : List String}
      (hname : segmentName template = some name) (multi : rule.isMultiSegment name = true)
      (verb : (splitTemplateSegment template).2 = none) (bound : arguments.lookup name = some "")
      (length : actual.length = templates.length) (tail : Matched rule arguments templates actual) :
      Matched rule arguments (template :: templates) actual
  | several {template name value : String} {templates taken rest : List String}
      (hname : segmentName template = some name) (multi : rule.isMultiSegment name = true)
      (taken_ne : taken ≠ []) (nonempty : ∀ segment ∈ taken, segment ≠ "")
      (captured : capturedValue template (joinSlash taken) = some value)
      (bound : arguments.lookup name = some value) (length : rest.length = templates.length)
      (tail : Matched rule arguments templates rest) :
      Matched rule arguments (template :: templates) (taken ++ rest)

variable {rule : ProxyOperationRule}

theorem captureValue_eq_some {name template captured value : String}
    (h : captureValue U rule name (splitTemplateSegment template).2 captured = some value) :
    capturedValue template captured = some value ∧
      (rule.isMultiSegment name = false →
        parameterMatches U (rule.constraint name) value = true) := by
  rw [captureValue_eq] at h
  obtain ⟨stripped, hstripped, h⟩ := Option.bind_eq_some_iff.mp h
  split at h
  · cases h
  · rename_i hok
    cases h
    refine ⟨hstripped, fun hsingle => ?_⟩
    rw [hsingle] at hok
    simpa using hok

theorem lookup_bindArgument {arguments bound : List (String × String)} {name value : String}
    (h : bindArgument arguments name value = some bound) :
    bound.lookup name = some value ∧
      ∀ other found, arguments.lookup other = some found → bound.lookup other = some found := by
  unfold bindArgument at h
  split at h
  · rename_i previous hprevious
    split at h
    · cases h
    · rename_i hsame
      cases h
      rw [not_not] at hsame
      rw [← hsame]
      exact ⟨hprevious, fun _ _ hfound => hfound⟩
  · rename_i hnone
    cases h
    refine ⟨List.lookup_cons_self, fun other found hfound => ?_⟩
    have hne : other ≠ name := by
      rintro rfl
      rw [hnone] at hfound
      cases hfound
    rw [List.lookup_cons, beq_false_of_ne hne]
    exact hfound

theorem matchSegments_captured {template name : String} {templates actual : List String}
    {arguments result : List (String × String)} (hname : segmentName template = some name)
    (h : matchSegments U rule (template :: templates) actual arguments = some result) :
    ∃ captured rest value bound,
      capture U (rule.isMultiSegment name) templates.length actual = some (captured, rest) ∧
      captureValue U rule name (splitTemplateSegment template).2 captured = some value ∧
      bindArgument arguments name value = some bound ∧
      matchSegments U rule templates rest bound = some result := by
  rw [matchSegments.eq_def] at h
  simp only [show parameterName (splitTemplateSegment template).1 = some name from hname] at h
  obtain ⟨⟨captured, rest⟩, hcapture, h⟩ := Option.bind_eq_some_iff.mp h
  obtain ⟨value, hvalue, h⟩ := Option.bind_eq_some_iff.mp h
  obtain ⟨bound, hbound, h⟩ := Option.bind_eq_some_iff.mp h
  exact ⟨captured, rest, value, bound, hcapture, hvalue, hbound, h⟩

/-- Captures are never dropped. -/
theorem lookup_matchSegments {templates actual : List String}
    {arguments result : List (String × String)}
    (h : matchSegments U rule templates actual arguments = some result) {name value : String}
    (hlookup : arguments.lookup name = some value) : result.lookup name = some value := by
  induction templates generalizing actual arguments with
  | nil =>
    cases actual with
    | nil =>
      cases h
      exact hlookup
    | cons segment rest => cases h
  | cons template templates ih =>
    cases hname : segmentName template with
    | none =>
      obtain ⟨rest, -, h⟩ := (matchSegments_literal hname).mp h
      exact ih h hlookup
    | some other =>
      obtain ⟨captured, rest, found, bound, -, -, hbound, h⟩ := matchSegments_captured hname h
      exact ih h ((lookup_bindArgument hbound).2 name value hlookup)

theorem capture_single {remaining : ℕ} {actual rest : List String} {captured : String}
    (h : capture U false remaining actual = some (captured, rest)) : actual = captured :: rest := by
  unfold capture at h
  rw [if_neg (by decide)] at h
  cases actual with
  | nil => cases h
  | cons segment tail =>
    cases h
    rfl

theorem capture_multi {remaining : ℕ} {actual rest : List String} {captured : String}
    (h : capture U true remaining actual = some (captured, rest)) :
    (captured = "" ∧ rest = actual ∧ actual.length = remaining) ∨
      ∃ taken, taken ≠ [] ∧ (∀ segment ∈ taken, segment ≠ "") ∧ captured = joinSlash taken ∧
        actual = taken ++ rest ∧ rest.length = remaining := by
  unfold capture at h
  rw [if_pos rfl] at h
  split at h
  · cases h
  rename_i hlength
  simp only at h
  split at h
  · rename_i htake
    cases h
    exact Or.inl ⟨rfl, rfl, by omega⟩
  rename_i htake
  split at h
  · cases h
  rename_i hclear
  cases h
  refine Or.inr ⟨actual.take (actual.length - remaining), ?_, ?_, rfl,
    (List.take_append_drop _ _).symm, ?_⟩
  · intro hnil
    have hzero := congrArg List.length hnil
    rw [List.length_take, List.length_nil] at hzero
    omega
  · rintro segment hsegment rfl
    exact hclear (List.any_eq_true.mpr ⟨"", hsegment, rfl⟩)
  · rw [List.length_drop]
    omega

theorem capturedValue_ne_empty {template segment value : String}
    (h : capturedValue template segment = some value) (hvalue : value ≠ "") : segment ≠ "" := by
  rintro rfl
  unfold capturedValue at h
  split at h
  · have hchars := stripCustomMethod_eq_some h
    simp at hchars
  · cases h
    exact hvalue rfl

theorem matched_of_matchSegments {templates actual : List String}
    {arguments result : List (String × String)}
    (h : matchSegments U rule templates actual arguments = some result) :
    Matched rule result templates actual := by
  induction templates generalizing actual arguments with
  | nil =>
    cases actual with
    | nil => exact Matched.nil
    | cons segment rest => cases h
  | cons template templates ih =>
    cases hname : segmentName template with
    | none =>
      obtain ⟨rest, rfl, htail⟩ := (matchSegments_literal hname).mp h
      exact Matched.literal hname (ih htail)
    | some name =>
      obtain ⟨captured, rest, value, bound, hcapture, hvalue, hbound, htail⟩ :=
        matchSegments_captured hname h
      have hlookup := lookup_matchSegments htail (lookup_bindArgument hbound).1
      obtain ⟨hcaptured, hmatches⟩ := captureValue_eq_some hvalue
      cases hmulti : rule.isMultiSegment name with
      | false =>
        rw [hmulti] at hcapture
        obtain rfl := capture_single hcapture
        exact Matched.single hname hmulti hcaptured (capturedValue_ne_empty hcaptured
          (ne_empty_of_parameterMatches (hmatches hmulti))) hlookup (ih htail)
      | true =>
        rw [hmulti] at hcapture
        rcases capture_multi hcapture with ⟨rfl, rfl, hlength⟩ | ⟨taken, hne, hall, rfl, rfl, hlength⟩
        · have hverb : (splitTemplateSegment template).2 = none ∧ value = "" := by
            unfold capturedValue at hcaptured
            split at hcaptured
            · have hchars := stripCustomMethod_eq_some hcaptured
              simp at hchars
            · rename_i hverb
              cases hcaptured
              exact ⟨hverb, rfl⟩
          obtain ⟨hverb, rfl⟩ := hverb
          exact Matched.absent hname hmulti hverb hlookup hlength (ih htail)
        · exact Matched.several hname hmulti hne hall hcaptured hlookup hlength (ih htail)

/-- The parts with a custom method after the last one. -/
def withVerb (verb : Option String) (parts : List String) : List String :=
  match verb with
  | some verb => parts.dropLast ++ [parts.getLast?.getD "" ++ (":" ++ verb)]
  | none => parts

/-- The forwarded parts of a template segment. -/
def forwardParts (rule : ProxyOperationRule) (arguments : List (String × String))
    (template : String) : List String :=
  let value := ((segmentName template).bind fun name => arguments.lookup name).getD
    (splitTemplateSegment template).1
  withVerb (splitTemplateSegment template).2
    (if (segmentName template).any rule.isMultiSegment then (splitAt '/' value).map urlEncode
      else [urlEncode value])

theorem withVerb_concat (verb : Option String) (parts : List String) (part : String) :
    withVerb verb (parts ++ [part]) = parts ++ withVerb verb [part] := by
  cases verb with
  | none => rfl
  | some verb => simp [withVerb]

theorem joinSlash_withVerb (verb : Option String) {parts : List String} (hne : parts ≠ []) :
    joinSlash (withVerb verb parts) = match verb with
      | some verb => joinSlash parts ++ ":" ++ verb
      | none => joinSlash parts := by
  cases verb with
  | none => rfl
  | some verb =>
    rcases List.eq_nil_or_concat' parts with rfl | ⟨front, last, rfl⟩
    · exact absurd rfl hne
    · rw [withVerb_concat]
      simp only [withVerb, List.dropLast_singleton, List.nil_append, List.getLast?_singleton,
        Option.getD_some]
      rw [joinSlash_concat, String.append_assoc]

theorem withVerb_ne_nil (verb : Option String) {parts : List String} (hne : parts ≠ []) :
    withVerb verb parts ≠ [] := by
  cases verb with
  | none => exact hne
  | some verb => simp [withVerb]

theorem splitAt_ne_nil (separator : Char) (text : String) : splitAt separator text ≠ [] := by
  unfold splitAt
  simp [List.splitOn_ne_nil separator text.toList]

theorem forwardParts_ne_nil (arguments : List (String × String)) (template : String) :
    forwardParts rule arguments template ≠ [] := by
  unfold forwardParts
  refine withVerb_ne_nil _ ?_
  split
  · simpa using splitAt_ne_nil '/' _
  · simp

theorem forwardSegment_eq (arguments : List (String × String)) (template : String) :
    forwardSegment rule arguments template = joinSlash (forwardParts rule arguments template) := by
  unfold forwardParts
  rw [joinSlash_withVerb]
  · unfold forwardSegment segmentName
    obtain ⟨resource, verb, hsplit⟩ : ∃ resource verb,
        splitTemplateSegment template = (resource, verb) := ⟨_, _, rfl⟩
    simp only [hsplit]
    cases (parameterName resource).any rule.isMultiSegment <;> cases verb <;>
      simp [joinSlash_singleton]
  · split
    · simpa using splitAt_ne_nil '/' _
    · simp

/-- A text is a value with the custom method, if any, behind it. -/
def Extended (verb : Option String) (value text : String) : Prop :=
  match verb with
  | some verb => text.toList = value.toList ++ ':' :: verb.toList
  | none => text = value

theorem extended_of_capturedValue {template segment value : String}
    (h : capturedValue template segment = some value) :
    Extended (splitTemplateSegment template).2 value segment := by
  unfold capturedValue at h
  cases hverb : (splitTemplateSegment template).2 with
  | none =>
    rw [hverb] at h
    cases h
    rfl
  | some verb =>
    rw [hverb] at h
    exact stripCustomMethod_eq_some h

theorem extended_template (template : String) :
    Extended (splitTemplateSegment template).2 (splitTemplateSegment template).1 template := by
  unfold splitTemplateSegment
  cases hsplit : splitOnce ':' template with
  | none => rfl
  | some parts => exact splitOnce_eq_some hsplit

theorem render_pieceOf {verb : Option String} {value segment : String} {rest : List String}
    {pieces : List Piece} (h : Extended verb value segment)
    (hverb : ∀ v, verb = some v → ':' ∉ v.toList) :
    render (pieceOf verb :: pieces) (segment :: rest) =
      withVerb verb [urlEncode value] ++ render pieces rest := by
  cases verb with
  | none =>
    obtain rfl : segment = value := h
    rfl
  | some verb =>
    have hform : methodForm segment = urlEncode value ++ ":" ++ verb := by
      unfold methodForm
      rw [rsplitOnce_of_append h (hverb verb rfl)]
      rfl
    show methodForm segment :: render pieces rest = _
    rw [hform, String.append_assoc]
    rfl

theorem render_plain (front : List String) (pieces : List Piece) (segments : List String) :
    render (List.replicate front.length .plain ++ pieces) (front ++ segments) =
      front.map urlEncode ++ render pieces segments := by
  induction front with
  | nil => rfl
  | cons segment front ih => exact congrArg (urlEncode segment :: ·) ih

theorem joinSlash_splitAt (text : String) : joinSlash (splitAt '/' text) = text := by
  apply String.toList_inj.mp
  rw [toList_joinSlash]
  unfold splitAt
  rw [List.map_map, show String.toList ∘ String.ofList = id from
    funext fun _ => String.toList_ofList, List.map_id]
  exact List.intercalate_splitOn _

/-- Splitting a value splits the text that extends it, up to the custom method. -/
theorem splitAt_of_extended {verb : Option String} {value : String} {front : List String}
    {last : String} (h : Extended verb value (joinSlash (front ++ [last])))
    (hclean : ∀ segment ∈ front ++ [last], '/' ∉ segment.toList)
    (hverb : ∀ v, verb = some v → '/' ∉ v.toList) :
    ∃ final, splitAt '/' value = front ++ [final] ∧ Extended verb final last := by
  cases verb with
  | none =>
    obtain rfl : joinSlash (front ++ [last]) = value := h
    exact ⟨last, splitAt_joinSlash hclean (by simp), rfl⟩
  | some verb =>
    obtain hnil | ⟨front', final, hparts⟩ := List.eq_nil_or_concat' (splitAt '/' value)
    · exact absurd hnil (splitAt_ne_nil '/' value)
    have hjoin : joinSlash (front ++ [last]) = joinSlash (front' ++ [final ++ (":" ++ verb)]) := by
      rw [joinSlash_concat, ← hparts, joinSlash_splitAt]
      apply String.toList_inj.mp
      rw [show (joinSlash (front ++ [last])).toList = _ from h]
      simp
    have hclean' : ∀ segment ∈ front' ++ [final ++ (":" ++ verb)], '/' ∉ segment.toList := by
      have hsplit := notMem_splitAt '/' value
      rw [hparts] at hsplit
      intro segment hsegment
      rcases List.mem_append.mp hsegment with hfront | hlast
      · exact hsplit segment (by simp [hfront])
      · obtain rfl := List.mem_singleton.mp hlast
        have hfinal := hsplit final (by simp)
        have hfree := hverb verb rfl
        simpa [hfinal] using hfree
    obtain ⟨rfl, hlast⟩ := List.append_inj' (joinSlash_inj hclean hclean' (by simp) (by simp) hjoin) rfl
    refine ⟨final, hparts, ?_⟩
    obtain rfl := (List.cons.inj hlast).1
    show (final ++ (":" ++ verb)).toList = _
    simp

variable {arguments : List (String × String)}

/-- A segment that a template takes alone is used up by one form. -/
theorem templatePieces_single {template : String} {templates : List String} {length : ℕ}
    (h : (segmentName template).any rule.isMultiSegment = false) :
    templatePieces rule (template :: templates) (length + 1) =
      pieceOf (splitTemplateSegment template).2 :: templatePieces rule templates length := by
  rw [templatePieces, if_neg (by simp [h])]
  rfl

theorem pieceOf_ne_empty (verb : Option String) : pieceOf verb ≠ .empty := by
  cases verb <;> simp [pieceOf]

theorem templatePieces_several {template : String} {templates taken rest : List String}
    (h : (segmentName template).any rule.isMultiSegment = true) (hne : taken ≠ [])
    (hlength : rest.length = templates.length) :
    templatePieces rule (template :: templates) (taken ++ rest).length =
      List.replicate (taken.length - 1) .plain ++
        pieceOf (splitTemplateSegment template).2 :: templatePieces rule templates rest.length := by
  have hpos : 0 < taken.length := List.length_pos_iff.mpr hne
  have htake : (taken ++ rest).length - templates.length = taken.length := by
    rw [List.length_append]
    omega
  have hdrop : (taken ++ rest).length - taken.length = rest.length := by
    rw [List.length_append]
    omega
  rw [templatePieces, if_pos h, htake]
  simp only
  rw [if_neg (by omega), hdrop]

theorem templatePieces_absent {template : String} {templates actual : List String}
    (h : (segmentName template).any rule.isMultiSegment = true)
    (hlength : actual.length = templates.length) :
    templatePieces rule (template :: templates) actual.length =
      .empty :: templatePieces rule templates actual.length := by
  rw [templatePieces, if_pos h]
  simp only
  rw [if_pos (by omega)]

theorem forwardParts_literal {template : String} (hname : segmentName template = none) :
    forwardParts rule arguments template = withVerb (splitTemplateSegment template).2
      [urlEncode (splitTemplateSegment template).1] := by
  unfold forwardParts
  rw [hname]
  rfl

theorem forwardParts_single {template name value : String} (hname : segmentName template = some name)
    (hsingle : rule.isMultiSegment name = false) (hbound : arguments.lookup name = some value) :
    forwardParts rule arguments template = withVerb (splitTemplateSegment template).2
      [urlEncode value] := by
  unfold forwardParts
  rw [hname, Option.any_some, hsingle, Option.bind_some, hbound]
  rfl

theorem forwardParts_multi {template name value : String} (hname : segmentName template = some name)
    (hmulti : rule.isMultiSegment name = true) (hbound : arguments.lookup name = some value) :
    forwardParts rule arguments template = withVerb (splitTemplateSegment template).2
      ((splitAt '/' value).map urlEncode) := by
  unfold forwardParts
  rw [hname, Option.any_some, hmulti, Option.bind_some, hbound]
  rfl

/-- Matching templates forward the segments in the forms that the templates choose. -/
theorem flatMap_forwardParts {templates actual : List String}
    (hmatched : Matched rule arguments templates actual)
    (hverbs : ∀ template ∈ templates, ∀ verb, (splitTemplateSegment template).2 = some verb →
      ':' ∉ verb.toList ∧ '/' ∉ verb.toList)
    (hclean : ∀ segment ∈ actual, '/' ∉ segment.toList) :
    templates.flatMap (forwardParts rule arguments) =
      render (templatePieces rule templates actual.length) actual := by
  induction hmatched with
  | nil => rfl
  | @literal template templates rest hname tail ih =>
    obtain ⟨hverb, hverbs⟩ := List.forall_mem_cons.mp hverbs
    obtain ⟨-, hclean⟩ := List.forall_mem_cons.mp hclean
    rw [List.flatMap_cons, ih hverbs hclean, List.length_cons,
      templatePieces_single (by rw [hname]; rfl),
      render_pieceOf (extended_template template) fun v hv => (hverb v hv).1,
      forwardParts_literal hname]
  | @single template name segment value templates rest hname single captured nonempty bound tail ih =>
    obtain ⟨hverb, hverbs⟩ := List.forall_mem_cons.mp hverbs
    obtain ⟨-, hclean⟩ := List.forall_mem_cons.mp hclean
    have hsingle : (segmentName template).any rule.isMultiSegment = false := by
      rw [hname]
      exact single
    rw [List.flatMap_cons, ih hverbs hclean, List.length_cons, templatePieces_single hsingle,
      render_pieceOf (extended_of_capturedValue captured) fun v hv => (hverb v hv).1,
      forwardParts_single hname single bound]
  | @absent template name templates actual hname multi verb bound length tail ih =>
    obtain ⟨-, hverbs⟩ := List.forall_mem_cons.mp hverbs
    have hmulti : (segmentName template).any rule.isMultiSegment = true := by
      rw [hname]
      exact multi
    rw [List.flatMap_cons, ih hverbs hclean, templatePieces_absent hmulti length,
      forwardParts_multi hname multi bound, verb]
    rfl
  | @several template name value templates taken rest hname multi taken_ne nonempty captured bound
      length tail ih =>
    obtain ⟨hverb, hverbs⟩ := List.forall_mem_cons.mp hverbs
    obtain ⟨htaken, hrest⟩ := List.forall_mem_append.mp hclean
    have hmulti : (segmentName template).any rule.isMultiSegment = true := by
      rw [hname]
      exact multi
    rcases List.eq_nil_or_concat' taken with rfl | ⟨front, last, rfl⟩
    · exact absurd rfl taken_ne
    obtain ⟨final, hsplit, hextended⟩ := splitAt_of_extended (extended_of_capturedValue captured)
      htaken fun v hv => (hverb v hv).2
    rw [List.flatMap_cons, ih hverbs hrest, templatePieces_several hmulti taken_ne length,
      List.append_assoc, List.length_append, List.length_singleton, Nat.add_sub_cancel,
      render_plain, List.singleton_append,
      render_pieceOf hextended fun v hv => (hverb v hv).1, forwardParts_multi hname multi bound,
      hsplit, List.map_append, List.map_singleton, withVerb_concat, List.append_assoc]

theorem countP_templatePieces {templates actual : List String}
    (hmatched : Matched rule arguments templates actual) :
    (templatePieces rule templates actual.length).countP (· ≠ .empty) = actual.length := by
  induction hmatched with
  | nil => rfl
  | @literal template templates rest hname tail ih =>
    rw [List.length_cons, templatePieces_single (by rw [hname]; rfl),
      countP_cons_consuming (pieceOf_ne_empty _), ih]
  | @single template name segment value templates rest hname single captured nonempty bound tail ih =>
    rw [List.length_cons, templatePieces_single (by rw [hname]; exact single),
      countP_cons_consuming (pieceOf_ne_empty _), ih]
  | @absent template name templates actual hname multi verb bound length tail ih =>
    rw [templatePieces_absent (by rw [hname]; exact multi) length, countP_cons_empty, ih]
  | @several template name value templates taken rest hname multi taken_ne nonempty captured bound
      length tail ih =>
    have hpos : 0 < taken.length := List.length_pos_iff.mpr taken_ne
    rw [templatePieces_several (by rw [hname]; exact multi) taken_ne length, List.countP_append,
      List.countP_replicate, countP_cons_consuming (pieceOf_ne_empty _), ih, List.length_append]
    simp
    omega

theorem nonempty_of_matched {templates actual : List String}
    (hmatched : Matched rule arguments templates actual)
    (htemplates : ∀ template ∈ templates, template ≠ "") : ∀ segment ∈ actual, segment ≠ "" := by
  induction hmatched with
  | nil => exact fun segment h => absurd h List.not_mem_nil
  | literal hname tail ih =>
    obtain ⟨htemplate, htemplates⟩ := List.forall_mem_cons.mp htemplates
    exact List.forall_mem_cons.mpr ⟨htemplate, ih htemplates⟩
  | single hname single captured nonempty bound tail ih =>
    obtain ⟨-, htemplates⟩ := List.forall_mem_cons.mp htemplates
    exact List.forall_mem_cons.mpr ⟨nonempty, ih htemplates⟩
  | absent hname multi verb bound length tail ih =>
    exact ih (List.forall_mem_cons.mp htemplates).2
  | several hname multi taken_ne nonempty captured bound length tail ih =>
    exact List.forall_mem_append.mpr ⟨nonempty, ih (List.forall_mem_cons.mp htemplates).2⟩

theorem forM_eq_ok {ε α : Type} {f : α → Except ε Unit} {items : List α}
    (h : items.forM f = .ok ()) : ∀ item ∈ items, f item = .ok () := by
  induction items with
  | nil => exact fun item h => (nomatch h)
  | cons item items ih =>
    obtain ⟨_, hitem, hitems⟩ := bind_eq_ok.mp h
    exact List.forall_mem_cons.mpr ⟨hitem, ih hitems⟩

theorem validated_segments (h : validateRule rule = .ok ()) :
    ∀ template ∈ templateSegments rule, validateTemplateSegment template = .ok () := by
  obtain ⟨_, htemplate, -⟩ := bind_eq_ok.mp h
  unfold validateTemplate at htemplate
  split at htemplate
  · cases htemplate
  split at htemplate
  · cases htemplate
  split at htemplate
  · cases htemplate
  split at htemplate
  · rename_i hroot
    intro template hmem
    unfold templateSegments at hmem
    rw [hroot] at hmem
    exact absurd hmem (by decide +revert)
  · intro template hmem
    exact forM_eq_ok htemplate template (List.mem_filter.mp hmem).1

/-- The verb of a validated segment has no separator of its own. -/
theorem verb_of_validated {template verb : String}
    (h : validateTemplateSegment template = .ok ())
    (hverb : (splitTemplateSegment template).2 = some verb) :
    ':' ∉ verb.toList ∧ '/' ∉ verb.toList := by
  unfold validateTemplateSegment at h
  simp only [hverb, Option.any_some] at h
  split at h
  · cases h
  rename_i hletters
  have hall : ¬ verb = "" ∧ ∀ c ∈ verb.toList, isAsciiAlphanumeric c = true := by
    simpa using hletters
  constructor
  · intro hmem
    have hletter := hall.2 _ hmem
    revert hletter
    decide
  · intro hmem
    have hletter := hall.2 _ hmem
    revert hletter
    decide

theorem forwardForm_ne_nil (path : CanonicalPath) : forwardForm rule path ≠ [] := by
  unfold forwardForm
  split <;> simp

theorem joinSlash_render_forwardForm (path : CanonicalPath) :
    joinSlash (render (forwardForm rule path) path.segments) =
      joinSlash (render (templatePieces rule (templateSegments rule) path.segments.length)
        path.segments) := by
  unfold forwardForm
  split
  · rename_i hnil
    rw [hnil]
    rfl
  · rename_i hcons
    rw [hcons]

theorem matched_of_ruleMatches {method : String} {path : CanonicalPath}
    (h : ruleMatches U rule method path = true) :
    ∃ arguments, matchPathArguments U rule path = some arguments ∧ validateRule rule = .ok () ∧
      Matched rule arguments (templateSegments rule) path.segments := by
  obtain ⟨-, hsome⟩ := Bool.and_eq_true_iff.mp h
  obtain ⟨arguments, harguments⟩ := Option.isSome_iff_exists.mp hsome
  refine ⟨arguments, harguments, ?_⟩
  unfold matchPathArguments at harguments
  split at harguments
  · cases harguments
  · rename_i hvalid
    exact ⟨hvalid, matched_of_matchSegments harguments⟩

/-- A matched path is forwarded as the parts of the templates. -/
theorem ruleForwardingPath_parts {method : String} {path : CanonicalPath}
    (h : ruleMatches U rule method path = true)
    (harguments : matchPathArguments U rule path = some arguments) :
    ruleForwardingPath U rule method path =
        some (joinSlash ((templateSegments rule).map (forwardSegment rule arguments))) ∧
      joinSlash ((templateSegments rule).map (forwardSegment rule arguments)) =
        joinSlash ((templateSegments rule).flatMap (forwardParts rule arguments)) := by
  constructor
  · unfold ruleForwardingPath
    rw [h, harguments]
    rfl
  · rw [← joinSlash_flatMap fun template _ => forwardParts_ne_nil arguments template]
    simp only [← forwardSegment_eq]

/-- A matched path is forwarded with its segments in the form of the rule. -/
theorem ruleForwardingPath_eq {method : String} {path : CanonicalPath}
    (h : ruleMatches U rule method path = true) :
    ruleForwardingPath U rule method path =
      some (joinSlash (render (forwardForm rule path) path.segments)) := by
  obtain ⟨arguments, harguments, hvalid, hmatched⟩ := matched_of_ruleMatches h
  have hparts := flatMap_forwardParts hmatched
    (fun template hmem verb hverb => verb_of_validated (validated_segments hvalid template hmem) hverb)
    path.clean
  obtain ⟨hpath, hjoin⟩ := ruleForwardingPath_parts h harguments
  rw [hpath, hjoin, joinSlash_render_forwardForm, hparts]

theorem countP_forwardForm {method : String} {path : CanonicalPath}
    (h : ruleMatches U rule method path = true) :
    (forwardForm rule path).countP (· ≠ .empty) = path.segments.length := by
  obtain ⟨arguments, -, -, hmatched⟩ := matched_of_ruleMatches h
  rw [← countP_templatePieces hmatched]
  unfold forwardForm
  split
  · rename_i hnil
    rw [hnil]
    rfl
  · rename_i hcons
    rw [hcons]

theorem nonempty_of_ruleMatches {method : String} {path : CanonicalPath}
    (h : ruleMatches U rule method path = true) : ∀ segment ∈ path.segments, segment ≠ "" := by
  obtain ⟨arguments, -, -, hmatched⟩ := matched_of_ruleMatches h
  refine nonempty_of_matched hmatched fun template hmem hempty => ?_
  have hkept := (List.mem_filter.mp hmem).2
  rw [hempty] at hkept
  revert hkept
  decide

end

/-- Two rules that match a path forward it alike exactly when they choose the same forms. -/
theorem ruleForwardingPath_eq_iff {rule other : ProxyOperationRule} {method : String}
    {path : CanonicalPath} (h : ruleMatches U rule method path = true)
    (h' : ruleMatches U other method path = true) :
    ruleForwardingPath U rule method path = ruleForwardingPath U other method path ↔
      forwardForm rule path = forwardForm other path := by
  rw [ruleForwardingPath_eq h, ruleForwardingPath_eq h', Option.some_inj]
  constructor
  · intro hjoin
    have hne (rule : ProxyOperationRule) (hmatches : ruleMatches U rule method path = true) :
        render (forwardForm rule path) path.segments ≠ [] := by
      rw [← List.length_pos_iff, length_render (countP_forwardForm hmatches), List.length_pos_iff]
      exact forwardForm_ne_nil path
    have hrender := joinSlash_inj (notMem_slash_render path.clean) (notMem_slash_render path.clean)
      (hne rule h) (hne other h') hjoin
    exact render_inj (nonempty_of_ruleMatches h) (countP_forwardForm h) (countP_forwardForm h') hrender
  · intro hform
    rw [hform]

end NyxId.OperationScope
