import NyxId.OperationScope.Templates
import NyxId.OperationScope.Forwarding
import Mathlib.Data.List.Infix

/-!
The forwarded path is the path that was authorized. Every part decodes to the segment it
was made from, so that the path read back is the canonical path and matches the same rule
with the same captures; only a variable of several segments that captures none adds a part
that no segment stands behind.
-/

namespace NyxId.OperationScope

open Encoding

variable {U : CharClass}

section

/-- A segment that a canonical path may have; percent signs are refused unless they encode. -/
structure CleanSegment (rejectPercent : Bool) (segment : String) : Prop where
  nonempty : segment ≠ ""
  chars : ∀ c ∈ segment.toList, c ∉ ['?', '#', '\\', '/'] ∧ (rejectPercent = true → c ≠ '%') ∧
    32 ≤ c.toNat ∧ c.toNat ≠ 127
  dots : segment ≠ "." ∧ segment ≠ ".."

theorem CleanSegment.notMem_slash {rejectPercent : Bool} {segment : String}
    (h : CleanSegment rejectPercent segment) : '/' ∉ segment.toList :=
  fun hmem => (h.chars '/' hmem).1 (by simp)

theorem CleanSegment.toList_ne_nil {rejectPercent : Bool} {segment : String}
    (h : CleanSegment rejectPercent segment) : segment.toList ≠ [] := by
  intro hnil
  exact h.nonempty (String.toList_inj.mp hnil)

theorem notMem_marks_iff {c : Char} :
    c ∉ ['?', '#', '\\', '/'] ↔ c ∉ ['?', '#', '\\'] ∧ c ≠ '/' := by
  simp only [List.mem_cons, List.not_mem_nil, or_false]
  tauto

theorem joinSlash_nil : joinSlash [] = "" := rfl

theorem mem_joinSlash {segments : List String} {c : Char} (h : c ∈ (joinSlash segments).toList) :
    c = '/' ∨ ∃ segment ∈ segments, c ∈ segment.toList := by
  induction segments with
  | nil => cases h
  | cons segment segments ih =>
    by_cases hnil : segments = []
    · subst hnil
      rw [joinSlash_singleton] at h
      exact Or.inr ⟨segment, List.mem_cons_self, h⟩
    · rw [joinSlash_cons segment hnil, String.toList_append, String.toList_append,
        List.mem_append, List.mem_append] at h
      rcases h with (hfirst | hslash) | hrest
      · exact Or.inr ⟨segment, List.mem_cons_self, hfirst⟩
      · exact Or.inl (List.mem_singleton.mp hslash)
      · rcases ih hrest with hc | ⟨other, hother, hc⟩
        · exact Or.inl hc
        · exact Or.inr ⟨other, List.mem_cons_of_mem _ hother, hc⟩

/-- Every character of a segment is one of the joined text. -/
theorem mem_joinSlash_of_mem {segments : List String} {segment : String} (h : segment ∈ segments)
    {c : Char} (hc : c ∈ segment.toList) : c ∈ (joinSlash segments).toList := by
  induction segments with
  | nil => cases h
  | cons first segments ih =>
    by_cases hnil : segments = []
    · subst hnil
      obtain rfl := List.mem_singleton.mp h
      rw [joinSlash_singleton]
      exact hc
    · rw [joinSlash_cons first hnil, String.toList_append, String.toList_append, List.mem_append,
        List.mem_append]
      rcases List.mem_cons.mp h with rfl | hrest
      · exact Or.inl (Or.inl hc)
      · exact Or.inr (ih hrest)

theorem joinSlash_ne_empty {rejectPercent : Bool} {segments : List String}
    (h : ∀ segment ∈ segments, CleanSegment rejectPercent segment) (hne : segments ≠ []) :
    (joinSlash segments).toList ≠ [] := by
  obtain ⟨segment, hsegment⟩ := List.exists_mem_of_ne_nil _ hne
  obtain ⟨c, hc⟩ := List.exists_mem_of_ne_nil _ (h segment hsegment).toList_ne_nil
  exact List.ne_nil_of_mem (mem_joinSlash_of_mem hsegment hc)

/-- Two characters that are not both slashes. -/
def Apart (c d : Char) : Prop := ¬ (c = '/' ∧ d = '/')

/-- Clean segments are joined without two slashes in a row and without one at an end. -/
theorem joinSlash_spread {rejectPercent : Bool} {segments : List String}
    (h : ∀ segment ∈ segments, CleanSegment rejectPercent segment) :
    (joinSlash segments).toList.IsChain Apart ∧ (joinSlash segments).toList.head? ≠ some '/' ∧
      (joinSlash segments).toList.getLast? ≠ some '/' := by
  induction segments with
  | nil => simp [joinSlash_nil]
  | cons segment segments ih =>
    obtain ⟨hsegment, hsegments⟩ := List.forall_mem_cons.mp h
    obtain ⟨hchain, hhead, hlast⟩ := ih hsegments
    have hslash := hsegment.notMem_slash
    have hfirst : segment.toList.IsChain Apart := by
      apply List.Pairwise.isChain
      apply List.pairwise_of_forall_mem_list
      rintro c hc d hd ⟨rfl, -⟩
      exact hslash hc
    have hfirstHead : segment.toList.head? ≠ some '/' :=
      fun hc => hslash (List.mem_of_mem_head? hc)
    have hfirstLast : segment.toList.getLast? ≠ some '/' :=
      fun hc => hslash (List.mem_of_mem_getLast? hc)
    by_cases hnil : segments = []
    · subst hnil
      rw [joinSlash_singleton]
      exact ⟨hfirst, hfirstHead, hfirstLast⟩
    · obtain ⟨next, rest, rfl⟩ := List.exists_cons_of_ne_nil hnil
      have hne := joinSlash_ne_empty hsegments hnil
      have htoList : (joinSlash (segment :: next :: rest)).toList =
          segment.toList ++ '/' :: (joinSlash (next :: rest)).toList := by
        rw [joinSlash_cons segment (by simp), String.toList_append, String.toList_append,
          List.append_assoc]
        rfl
      rw [htoList]
      refine ⟨List.isChain_append.mpr ⟨hfirst, List.isChain_cons.mpr ⟨?_, hchain⟩, ?_⟩, ?_, ?_⟩
      · rintro d hd ⟨-, rfl⟩
        exact hhead hd
      · rintro c hc d - ⟨rfl, -⟩
        exact hfirstLast hc
      · rw [List.head?_append_of_ne_nil _ hsegment.toList_ne_nil]
        exact hfirstHead
      · rw [List.getLast?_append_of_ne_nil _ (by simp), List.getLast?_cons_of_ne_nil hne]
        exact hlast

theorem any_tails_eq_false {chars : List Char} (h : chars.IsChain Apart) :
    chars.tails.any (['/', '/'].isPrefixOf ·) = false := by
  apply List.any_eq_false.mpr
  intro tail htail hstart
  obtain ⟨rest, hrest⟩ := List.isPrefixOf_iff_prefix.mp hstart
  have hchain := h.suffix ((List.mem_tails _ _).mp htail)
  rw [← hrest, List.cons_append, List.cons_append, List.isChain_cons_cons] at hchain
  exact hchain.1 ⟨rfl, rfl⟩

theorem containsAny_eq_false {text : String} {chars : List Char}
    (h : ∀ c ∈ text.toList, c ∉ chars) : containsAny text chars = false := by
  unfold containsAny
  apply List.any_eq_false.mpr
  intro c hc
  simpa using h c hc

/-- Clean segments joined with slashes are never refused. -/
theorem rejectCommonAmbiguity_joinSlash {rejectPercent : Bool} {segments : List String}
    (h : ∀ segment ∈ segments, CleanSegment rejectPercent segment) :
    stripPrefix "/" (joinSlash segments) = none ∧
      rejectCommonAmbiguity (joinSlash segments) rejectPercent = .ok () := by
  obtain ⟨hchain, hhead, hlast⟩ := joinSlash_spread h
  have hchars : ∀ c ∈ (joinSlash segments).toList, c ∉ ['?', '#', '\\'] ∧
      (rejectPercent = true → c ≠ '%') ∧ 32 ≤ c.toNat ∧ c.toNat ≠ 127 := by
    intro c hc
    rcases mem_joinSlash hc with rfl | ⟨segment, hsegment, hc⟩
    · exact ⟨by decide, fun _ => by decide, by decide⟩
    · obtain ⟨hplain, hrest⟩ := (h segment hsegment).chars c hc
      exact ⟨(notMem_marks_iff.mp hplain).1, hrest⟩
  have hstrip : stripPrefix "/" (joinSlash segments) = none := by
    unfold stripPrefix
    apply if_neg
    intro hstart
    obtain ⟨rest, hrest⟩ := List.isPrefixOf_iff_prefix.mp hstart
    rw [← hrest] at hhead
    exact hhead rfl
  refine ⟨hstrip, ?_⟩
  have hsplit : (splitAt '/' (joinSlash segments)).any
      (fun segment => decide (segment = "." ∨ segment = "..")) = false := by
    by_cases hnil : segments = []
    · subst hnil
      decide
    · rw [splitAt_joinSlash (fun segment hsegment => (h segment hsegment).notMem_slash) hnil]
      apply List.any_eq_false.mpr
      intro segment hsegment hdots
      have hclean := (h segment hsegment).dots
      rcases of_decide_eq_true hdots with hdot | hdot
      · exact hclean.1 hdot
      · exact hclean.2 hdot
  unfold rejectCommonAmbiguity
  rw [if_neg, hstrip, Option.getD_none, hsplit]
  · rfl
  · rintro (hbad | ⟨hpercent, hbad⟩ | hbad | hbad | ⟨-, hbad⟩)
    · rw [containsAny_eq_false fun c hc => (hchars c hc).1] at hbad
      cases hbad
    · rw [containsAny_eq_false fun c hc => by simpa using (hchars c hc).2.1 hpercent] at hbad
      cases hbad
    · obtain ⟨c, hc, hcontrol⟩ := List.any_eq_true.mp hbad
      have hrange := (hchars c hc).2.2
      have hout := of_decide_eq_true hcontrol
      omega
    · rw [any_tails_eq_false hchain] at hbad
      cases hbad
    · exact hlast hbad

theorem fromDecoded_eq_ok {text : String} {path : CanonicalPath} :
    CanonicalPath.fromDecoded text = .ok path ↔ rejectCommonAmbiguity text true = .ok () ∧
      path.segments = if ((stripPrefix "/" text).getD text).isEmpty then []
        else splitAt '/' ((stripPrefix "/" text).getD text) := by
  obtain ⟨segments, hclean⟩ := path
  unfold CanonicalPath.fromDecoded
  cases rejectCommonAmbiguity text true with
  | error e => exact ⟨fun h => (nomatch h), fun h => (nomatch h.1)⟩
  | ok _ =>
    show (if ((stripPrefix "/" text).getD text).isEmpty then _ else _) = _ ↔ _
    split
    · constructor
      · intro h
        cases h
        exact ⟨rfl, rfl⟩
      · rintro ⟨-, rfl⟩
        rfl
    · constructor
      · intro h
        cases h
        exact ⟨rfl, rfl⟩
      · rintro ⟨-, rfl⟩
        rfl

/-- Clean segments are read back from the path that joins them. -/
theorem fromDecoded_joinSlash {path : CanonicalPath}
    (h : ∀ segment ∈ path.segments, CleanSegment true segment) :
    CanonicalPath.fromDecoded (joinSlash path.segments) = .ok path := by
  obtain ⟨hstrip, hreject⟩ := rejectCommonAmbiguity_joinSlash h
  apply fromDecoded_eq_ok.mpr
  refine ⟨hreject, ?_⟩
  rw [hstrip, Option.getD_none]
  split
  · rename_i hempty
    by_contra hne
    apply joinSlash_ne_empty h hne
    rw [String.isEmpty_iff.mp hempty]
    rfl
  · rename_i hfull
    have hne : path.segments ≠ [] := by
      intro hnil
      rw [hnil] at hfull
      exact hfull rfl
    exact (splitAt_joinSlash path.clean hne).symm

/-- The segments of a canonical path are clean, where they are not empty. -/
theorem clean_of_fromDecoded {text : String} {path : CanonicalPath}
    (h : CanonicalPath.fromDecoded text = .ok path) {segment : String}
    (hsegment : segment ∈ path.segments) (hne : segment ≠ "") : CleanSegment true segment := by
  obtain ⟨hreject, hsegments⟩ := fromDecoded_eq_ok.mp h
  rw [hsegments] at hsegment
  split at hsegment
  · cases hsegment
  unfold rejectCommonAmbiguity at hreject
  split at hreject
  · cases hreject
  rename_i hplain
  split at hreject
  · cases hreject
  rename_i hdots
  simp only [not_or] at hplain
  obtain ⟨hmarks, hpercent, hcontrol, -, -⟩ := hplain
  have hmem (c : Char) (hc : c ∈ segment.toList) : c ∈ text.toList := by
    have htrimmed := mem_joinSlash_of_mem hsegment hc
    rw [joinSlash_splitAt] at htrimmed
    cases hstrip : stripPrefix "/" text with
    | none =>
      rw [hstrip, Option.getD_none] at htrimmed
      exact htrimmed
    | some trimmed =>
      rw [hstrip, Option.getD_some] at htrimmed
      rw [stripPrefix_eq_some hstrip]
      exact List.mem_append_right _ htrimmed
  refine ⟨hne, fun c hc => ⟨?_, fun _ => ?_, ?_⟩, ?_⟩
  · apply notMem_marks_iff.mpr
    constructor
    · intro hmark
      exact hmarks (List.any_eq_true.mpr ⟨c, hmem c hc, decide_eq_true hmark⟩)
    · rintro rfl
      exact notMem_splitAt '/' _ segment hsegment hc
  · rintro rfl
    exact hpercent ⟨trivial, List.any_eq_true.mpr ⟨'%', hmem _ hc, by decide⟩⟩
  · have hrange : ¬ (c.toNat < 32 ∨ c.toNat = 127) := fun hout =>
      hcontrol (List.any_eq_true.mpr ⟨c, hmem c hc, decide_eq_true hout⟩)
    omega
  · have hdot : ¬ (segment = "." ∨ segment = "..") := fun hdot =>
      hdots (List.any_eq_true.mpr ⟨segment, hsegment, decide_eq_true hdot⟩)
    exact not_or.mp hdot

end

section

/-- A forwarded part that decodes to its segment and is clean itself. -/
structure Reads (part segment : String) : Prop where
  decoded : percentDecodeBytes (utf8 part) = some (utf8 segment)
  chars : ∀ c ∈ part.toList, c ∉ ['?', '#', '\\', '/'] ∧ 32 ≤ c.toNat ∧ c.toNat ≠ 127

theorem CleanSegment.undecodable_free {segment : String} (h : CleanSegment true segment) :
    ∀ byte ∈ utf8 segment, byte ∉ undecodable := by
  apply notMem_undecodable
  intro c hc
  obtain ⟨hplain, hpercent, hrange, -⟩ := h.chars c hc
  constructor
  · intro hmem
    simp only [List.mem_cons, List.not_mem_nil, or_false] at hmem hplain
    have hne := hpercent rfl
    tauto
  · omega

theorem CleanSegment.reads_urlEncode {segment : String} (h : CleanSegment true segment) :
    Reads (urlEncode segment) segment := by
  refine ⟨percentDecodeBytes_urlEncode h.undecodable_free, fun c hc => ?_⟩
  obtain ⟨hplain, hrange⟩ := mem_urlEncode hc
  refine ⟨fun hmem => hplain ?_, hrange⟩
  simp only [List.mem_cons, List.not_mem_nil, or_false] at hmem ⊢
  tauto

/-- An encoded value with its custom method behind it reads as the segment they make. -/
theorem reads_withVerb {verb : Option String} {value segment : String}
    (h : Extended verb value segment) (hclean : CleanSegment true segment) :
    ∃ part, withVerb verb [urlEncode value] = [part] ∧ Reads part segment := by
  cases verb with
  | none =>
    obtain rfl : segment = value := h
    exact ⟨urlEncode segment, rfl, hclean.reads_urlEncode⟩
  | some verb =>
    have hsegment : segment = value ++ (":" ++ verb) := by
      apply String.toList_inj.mp
      rw [show segment.toList = _ from h, String.toList_append, String.toList_append]
      rfl
    have hfree := hclean.undecodable_free
    rw [hsegment, utf8_append] at hfree
    refine ⟨urlEncode value ++ (":" ++ verb), rfl, ?_, fun c hc => ?_⟩
    · have hvalue := percentDecodeBytes_urlEncode fun byte hbyte =>
        hfree byte (List.mem_append_left _ hbyte)
      have hverb : percentDecodeBytes (utf8 (":" ++ verb)) = some (utf8 (":" ++ verb)) := by
        apply percentDecodeBytes_plain
        intro hmem
        exact hfree 37 (List.mem_append_right _ hmem) (by decide)
      rw [utf8_append, percentDecodeBytes_append hvalue, hverb, hsegment, utf8_append]
      rfl
    · rw [String.toList_append] at hc
      rcases List.mem_append.mp hc with hc | hc
      · obtain ⟨hplain, hrange⟩ := mem_urlEncode hc
        refine ⟨fun hmem => hplain ?_, hrange⟩
        simp only [List.mem_cons, List.not_mem_nil, or_false] at hmem ⊢
        tauto
      · obtain ⟨hplain, -, hrange⟩ := hclean.chars c (by
          rw [hsegment, String.toList_append]
          exact List.mem_append_right _ hc)
        exact ⟨hplain, hrange⟩

/-- A part that reads as a clean segment is clean, percent signs apart. -/
theorem Reads.clean {part segment : String} (h : Reads part segment)
    (hclean : CleanSegment true segment) : CleanSegment false part := by
  have hdiffers (text : String) (hplain : percentDecodeBytes (utf8 text) = some (utf8 text))
      (hne : segment ≠ text) : part ≠ text := by
    rintro rfl
    rw [h.decoded] at hplain
    exact hne (utf8_injective (Option.some.inj hplain))
  refine ⟨hdiffers "" (by decide) hclean.nonempty, fun c hc => ?_,
    hdiffers "." (by decide) hclean.dots.1, hdiffers ".." (by decide) hclean.dots.2⟩
  obtain ⟨hplain, hrange⟩ := h.chars c hc
  exact ⟨hplain, fun hfalse => (nomatch hfalse), hrange⟩

theorem clean_of_reads {parts segments : List String} (h : List.Forall₂ Reads parts segments)
    (hclean : ∀ segment ∈ segments, CleanSegment true segment) :
    ∀ part ∈ parts, CleanSegment false part := by
  induction h with
  | nil => exact fun part hpart => absurd hpart List.not_mem_nil
  | cons hpart hparts ih =>
    obtain ⟨hfirst, hrest⟩ := List.forall_mem_cons.mp hclean
    exact List.forall_mem_cons.mpr ⟨hpart.clean hfirst, ih hrest⟩

/-- Parts that read as segments decode to the path that joins them. -/
theorem decode_joinSlash {parts segments : List String} (h : List.Forall₂ Reads parts segments) :
    percentDecodeBytes (utf8 (joinSlash parts)) = some (utf8 (joinSlash segments)) := by
  induction h with
  | nil => rfl
  | @cons part segment parts segments hpart hparts ih =>
    cases hparts with
    | nil =>
      rw [joinSlash_singleton, joinSlash_singleton]
      exact hpart.decoded
    | @cons next nextSegment parts segments hnext hparts =>
      have hslash : percentDecodeBytes (utf8 "/") = some (utf8 "/") := by decide
      rw [joinSlash_cons part (by simp), joinSlash_cons segment (by simp), utf8_append, utf8_append,
        utf8_append, utf8_append, List.append_assoc, percentDecodeBytes_append hpart.decoded,
        percentDecodeBytes_append hslash, ih]
      simp

variable {rule : ProxyOperationRule} {arguments : List (String × String)}

/-- Where no variable captures nothing, the forwarded parts read as the segments. -/
theorem reads_of_matched {templates actual : List String}
    (hmatched : Matched rule arguments templates actual)
    (hlength : templates.length ≤ actual.length)
    (hverbs : ∀ template ∈ templates, ∀ verb, (splitTemplateSegment template).2 = some verb →
      ':' ∉ verb.toList ∧ '/' ∉ verb.toList)
    (hclean : ∀ segment ∈ actual, CleanSegment true segment) :
    List.Forall₂ Reads (templates.flatMap (forwardParts rule arguments)) actual := by
  induction hmatched with
  | nil => exact List.Forall₂.nil
  | @literal template templates rest hname tail ih =>
    obtain ⟨-, hverbs⟩ := List.forall_mem_cons.mp hverbs
    obtain ⟨hfirst, hclean⟩ := List.forall_mem_cons.mp hclean
    obtain ⟨part, hpart, hreads⟩ := reads_withVerb (extended_template template) hfirst
    rw [List.flatMap_cons, forwardParts_literal hname, hpart]
    exact List.Forall₂.cons hreads (ih (Nat.le_of_succ_le_succ hlength) hverbs hclean)
  | @single template name segment value templates rest hname single captured nonempty bound tail ih =>
    obtain ⟨-, hverbs⟩ := List.forall_mem_cons.mp hverbs
    obtain ⟨hfirst, hclean⟩ := List.forall_mem_cons.mp hclean
    obtain ⟨part, hpart, hreads⟩ := reads_withVerb (extended_of_capturedValue captured) hfirst
    rw [List.flatMap_cons, forwardParts_single hname single bound, hpart]
    exact List.Forall₂.cons hreads (ih (Nat.le_of_succ_le_succ hlength) hverbs hclean)
  | @absent template name templates actual hname multi verb bound length tail ih =>
    rw [List.length_cons] at hlength
    omega
  | @several template name value templates taken rest hname multi taken_ne nonempty captured bound
      length tail ih =>
    obtain ⟨hverb, hverbs⟩ := List.forall_mem_cons.mp hverbs
    obtain ⟨htaken, hrest⟩ := List.forall_mem_append.mp hclean
    rcases List.eq_nil_or_concat' taken with rfl | ⟨front, last, rfl⟩
    · exact absurd rfl taken_ne
    obtain ⟨hfront, hlast⟩ := List.forall_mem_append.mp htaken
    obtain ⟨final, hsplit, hextended⟩ := splitAt_of_extended (extended_of_capturedValue captured)
      (fun segment hsegment => (htaken segment hsegment).notMem_slash) fun v hv => (hverb v hv).2
    obtain ⟨part, hpart, hreads⟩ := reads_withVerb hextended (hlast last (List.mem_singleton_self _))
    have hencoded : List.Forall₂ Reads (front.map urlEncode) front := by
      rw [List.forall₂_map_left_iff]
      exact List.forall₂_same.mpr fun segment hsegment => (hfront segment hsegment).reads_urlEncode
    rw [List.flatMap_cons, forwardParts_multi hname multi bound, hsplit, List.map_append,
      List.map_singleton, withVerb_concat, hpart]
    apply List.rel_append
    · exact List.rel_append hencoded (List.Forall₂.cons hreads List.Forall₂.nil)
    · exact ih (by omega) hverbs hrest

/-- Where a variable captures nothing, one of the forwarded parts is empty. -/
theorem empty_of_matched {templates actual : List String}
    (hmatched : Matched rule arguments templates actual)
    (hlength : actual.length < templates.length) :
    "" ∈ templates.flatMap (forwardParts rule arguments) := by
  induction hmatched with
  | nil => exact absurd hlength (Nat.lt_irrefl 0)
  | literal hname tail ih =>
    exact List.mem_append_right _ (ih (Nat.lt_of_succ_lt_succ hlength))
  | single hname single captured nonempty bound tail ih =>
    exact List.mem_append_right _ (ih (Nat.lt_of_succ_lt_succ hlength))
  | absent hname multi verb bound length tail ih =>
    rw [List.flatMap_cons, forwardParts_multi hname multi bound, verb]
    exact List.mem_append_left _ (List.mem_singleton_self _)
  | several hname multi taken_ne nonempty captured bound length tail ih =>
    have hpos := List.length_pos_iff.mpr taken_ne
    rw [List.length_append, List.length_cons] at hlength
    omega

/-- The path without segments is forwarded as the empty text. -/
theorem forwarded_nil {templates actual : List String}
    (hmatched : Matched rule arguments templates actual) (hnil : actual = []) :
    joinSlash (templates.flatMap (forwardParts rule arguments)) = "" := by
  cases hmatched with
  | nil => rfl
  | literal hname tail => cases hnil
  | single hname single captured nonempty bound tail => cases hnil
  | @absent template name templates _ hname multi verb bound length tail =>
    rw [hnil] at length
    obtain rfl := List.length_eq_zero_iff.mp length.symm
    rw [List.flatMap_cons, forwardParts_multi hname multi bound, verb]
    rfl
  | several hname multi taken_ne nonempty captured bound length tail =>
    exact absurd (List.append_eq_nil_iff.mp hnil).1 taken_ne

end

section

/-- The segments of a path; the empty text has none. -/
def pathSegments (path : String) : List String :=
  if path.isEmpty then [] else splitAt '/' path

/-- A part that has no colon but the one before the custom method of its template. -/
def DeclaredColon (template part : String) : Prop :=
  ∃ encoded : String, ':' ∉ encoded.toList ∧
    match (splitTemplateSegment template).2 with
    | some verb => ':' ∉ verb.toList ∧ part = encoded ++ ":" ++ verb
    | none => part = encoded

variable (U) in
/-- What is sent for a matched path is that path: it decodes to the same segments, has no
colon that the rule does not declare, and is read back as a path with the same captures. -/
structure SendsMatched (rule : ProxyOperationRule) (method : String) (path : CanonicalPath)
    (forwarded : String) : Prop where
  decodes : (pathSegments forwarded).mapM percentDecodePath = .ok path.segments
  nonempty : ∀ segment ∈ pathSegments forwarded, segment ≠ ""
  colons : ∃ arguments, matchPathArguments U rule path = some arguments ∧
    forwarded = joinSlash ((templateSegments rule).map (forwardSegment rule arguments)) ∧
    ∀ template ∈ templateSegments rule, (segmentName template).isSome →
      DeclaredColon template (forwardSegment rule arguments template)
  rereads : ∃ read, CanonicalPath.fromMcpBuilt forwarded = .ok read ∧
    ruleMatches U rule method read = true ∧
    matchPathArguments U rule read = matchPathArguments U rule path

theorem declaredColon_forwardSegment (rule : ProxyOperationRule)
    (arguments : List (String × String)) {template : String}
    (hverb : ∀ verb, (splitTemplateSegment template).2 = some verb → ':' ∉ verb.toList) :
    DeclaredColon template (forwardSegment rule arguments template) := by
  have hencoded (value : String) (multi : Bool) : ':' ∉ (if multi then
      joinSlash ((splitAt '/' value).map urlEncode) else urlEncode value).toList := by
    cases multi with
    | false => exact (notMem_urlEncode value).1
    | true =>
      intro hmem
      rcases mem_joinSlash hmem with hslash | ⟨part, hpart, hc⟩
      · exact absurd hslash (by decide)
      · obtain ⟨piece, -, rfl⟩ := List.mem_map.mp hpart
        exact (notMem_urlEncode piece).1 hc
  unfold DeclaredColon forwardSegment
  obtain ⟨resource, verb, hsplit⟩ : ∃ resource verb,
      splitTemplateSegment template = (resource, verb) := ⟨_, _, rfl⟩
  rw [hsplit] at hverb ⊢
  cases verb with
  | none => exact ⟨_, hencoded _ _, rfl⟩
  | some verb => exact ⟨_, hencoded _ _, hverb verb rfl, rfl⟩

theorem mapM_percentDecodePath {parts segments : List String}
    (h : List.Forall₂ Reads parts segments) : parts.mapM percentDecodePath = .ok segments := by
  induction h with
  | nil => rfl
  | cons hpart hparts ih =>
    rw [List.mapM_cons, percentDecodePath_of_bytes hpart.decoded, ih]
    rfl

theorem pathSegments_joinSlash {parts : List String}
    (h : ∀ part ∈ parts, CleanSegment false part) : pathSegments (joinSlash parts) = parts := by
  unfold pathSegments
  split
  · rename_i hempty
    by_contra hne
    apply joinSlash_ne_empty h (Ne.symm hne)
    rw [String.isEmpty_iff.mp hempty]
    rfl
  · rename_i hfull
    apply splitAt_joinSlash fun part hpart => (h part hpart).notMem_slash
    rintro rfl
    exact hfull rfl

/-- Parts that read as the segments of a canonical path are read back as that path. -/
theorem sendsMatched_of_reads {rule : ProxyOperationRule} {method : String} {path : CanonicalPath}
    {arguments : List (String × String)} {parts : List String}
    (h : ruleMatches U rule method path = true)
    (harguments : matchPathArguments U rule path = some arguments)
    (hclean : ∀ segment ∈ path.segments, CleanSegment true segment)
    (hreads : List.Forall₂ Reads parts path.segments)
    (hjoin : joinSlash ((templateSegments rule).map (forwardSegment rule arguments)) =
      joinSlash parts) :
    SendsMatched U rule method path (joinSlash parts) := by
  have hparts := clean_of_reads hreads hclean
  obtain ⟨-, -, hvalid, -⟩ := matched_of_ruleMatches h
  refine ⟨?_, ?_, ⟨arguments, harguments, hjoin.symm, ?_⟩, path, ?_, h, rfl⟩
  · rw [pathSegments_joinSlash hparts]
    exact mapM_percentDecodePath hreads
  · rw [pathSegments_joinSlash hparts]
    exact fun part hpart => (hparts part hpart).nonempty
  · intro template htemplate _
    apply declaredColon_forwardSegment
    intro verb hverb
    exact (verb_of_validated (validated_segments hvalid template htemplate) hverb).1
  · unfold CanonicalPath.fromMcpBuilt
    rw [(rejectCommonAmbiguity_joinSlash hparts).2,
      percentDecodePath_of_bytes (decode_joinSlash hreads)]
    exact fromDecoded_joinSlash hclean

/-- A matched path is sent as itself exactly when no variable captures nothing: it is the
root, or it has a segment for every segment of the template. -/
theorem sends_matched_iff {rule : ProxyOperationRule} {method text : String}
    {path : CanonicalPath} (hpath : CanonicalPath.fromDecoded text = .ok path)
    (h : ruleMatches U rule method path = true) :
    (∃ forwarded, ruleForwardingPath U rule method path = some forwarded ∧
      SendsMatched U rule method path forwarded) ↔
      path.segments = [] ∨ (templateSegments rule).length ≤ path.segments.length := by
  obtain ⟨arguments, harguments, hvalid, hmatched⟩ := matched_of_ruleMatches h
  obtain ⟨hforwarded, hjoin⟩ := ruleForwardingPath_parts h harguments
  have hclean : ∀ segment ∈ path.segments, CleanSegment true segment := fun segment hsegment =>
    clean_of_fromDecoded hpath hsegment (nonempty_of_ruleMatches h segment hsegment)
  have hverbs : ∀ template ∈ templateSegments rule, ∀ verb,
      (splitTemplateSegment template).2 = some verb → ':' ∉ verb.toList ∧ '/' ∉ verb.toList :=
    fun template hmem verb => verb_of_validated (validated_segments hvalid template hmem)
  constructor
  · rintro ⟨forwarded, hsome, hsends⟩
    obtain rfl := Option.some.inj (hforwarded.symm.trans hsome)
    by_contra hshort
    rw [not_or, Nat.not_le] at hshort
    obtain ⟨hne, hlength⟩ := hshort
    have hempty := empty_of_matched hmatched hlength
    have hslashes : ∀ part ∈ (templateSegments rule).flatMap (forwardParts rule arguments),
        '/' ∉ part.toList := by
      rw [flatMap_forwardParts hmatched hverbs path.clean]
      exact notMem_slash_render path.clean
    have hnonempty := hsends.nonempty
    have hdecodes := hsends.decodes
    unfold pathSegments at hnonempty hdecodes
    rw [hjoin] at hnonempty hdecodes
    split at hnonempty
    · rename_i hnothing
      rw [if_pos hnothing] at hdecodes
      exact hne (Except.ok.inj hdecodes).symm
    · rw [splitAt_joinSlash hslashes (List.ne_nil_of_mem hempty)] at hnonempty
      exact hnonempty "" hempty rfl
  · rintro (hnil | hlength)
    · refine ⟨joinSlash [], ?_, sendsMatched_of_reads h harguments hclean ?_ ?_⟩
      · rw [hforwarded, hjoin, forwarded_nil hmatched hnil]
        rfl
      · rw [hnil]
        exact List.Forall₂.nil
      · rw [hjoin, forwarded_nil hmatched hnil]
        rfl
    · have hreads := reads_of_matched hmatched hlength hverbs hclean
      refine ⟨_, ?_, sendsMatched_of_reads h harguments hclean hreads hjoin⟩
      rw [hforwarded, hjoin]

/-- Files below a folder, at any depth. -/
def filesRule : ProxyOperationRule := ⟨"GET", "/files/\x7bpath\x7d", none, [("path", .multiSegment)]⟩

def nestedFile : CanonicalPath := ⟨["files", "notes", "to do.txt"], by decide⟩

def folderItself : CanonicalPath := ⟨["files"], by decide⟩

theorem nested_file_sent : ∃ forwarded,
    ruleForwardingPath asciiClass filesRule "GET" nestedFile = some forwarded ∧
      SendsMatched asciiClass filesRule "GET" nestedFile forwarded :=
  (sends_matched_iff
    (show CanonicalPath.fromDecoded "/files/notes/to do.txt" = .ok nestedFile by decide)
    (by decide)).mpr (by decide)

/-- The folder itself is matched by its files' rule and sent with a slash behind it, which is
no canonical path. -/
theorem folder_sent_with_slash : CanonicalPath.fromDecoded "/files" = .ok folderItself ∧
    ruleMatches asciiClass filesRule "GET" folderItself = true ∧
    ruleForwardingPath asciiClass filesRule "GET" folderItself = some "files/" ∧
    CanonicalPath.fromMcpBuilt "files/" = .error invalidPath ∧
    ¬ ∃ forwarded, ruleForwardingPath asciiClass filesRule "GET" folderItself = some forwarded ∧
      SendsMatched asciiClass filesRule "GET" folderItself forwarded := by
  have hforwarded : ruleForwardingPath asciiClass filesRule "GET" folderItself = some "files/" := by
    decide
  refine ⟨by decide, by decide, hforwarded, by decide, ?_⟩
  rintro ⟨forwarded, hsome, hsends⟩
  obtain rfl := Option.some.inj (hforwarded.symm.trans hsome)
  exact hsends.nonempty "" (by decide) rfl

end

end NyxId.OperationScope
