import NyxId.OperationPath.Model

/-!
Texts that the proxy lets through. A percent sign of an encoded path starts the encoding of one
byte, so that path holds no encoded separator, mark or dot unless the value does.
-/

namespace NyxId.OperationPath

open Encoding OperationScope
open Permissions (isControl)

variable {decode : String → Option String}

/-! ### Texts without breakers -/

theorem eq_of_toLower {c d : Char} (h : c.toLower = d) (hd : ¬ (97 ≤ d.toNat ∧ d.toNat ≤ 122)) :
    c = d := by
  unfold Char.toLower at h
  split at h
  · next hupper =>
    have hlow : 65 ≤ c.val.toNat := UInt32.le_iff_toNat_le.mp hupper.1
    have hhigh : c.val.toNat ≤ 90 := UInt32.le_iff_toNat_le.mp hupper.2
    have hgap : ('a'.val - 'A'.val).toNat = 32 := by decide
    have hlower : d.toNat = (c.val.toNat + 32) % 2 ^ 32 := by
      rw [← h, ← hgap]
      exact UInt32.toNat_add c.val ('a'.val - 'A'.val)
    omega
  · exact h

theorem eq_of_map_toLower {chars target : List Char} (h : chars.map Char.toLower = target)
    (htarget : ∀ d ∈ target, ¬ (97 ≤ d.toNat ∧ d.toNat ≤ 122)) : chars = target := by
  induction chars generalizing target with
  | nil => exact h
  | cons c rest ih =>
    obtain ⟨hd, htail⟩ := List.forall_mem_cons.mp (h ▸ htarget)
    rw [← h]
    exact congrArg₂ List.cons (eq_of_toLower rfl hd) (ih rfl htail)

theorem infix_joinSlash {segments : List String} {segment : String} (h : segment ∈ segments) :
    segment.toList <:+: (joinSlash segments).toList := by
  induction segments with
  | nil => simp at h
  | cons first segments ih =>
    by_cases hnil : segments = []
    · subst hnil
      rw [joinSlash_singleton, List.mem_singleton.mp h]
    · rw [joinSlash_cons first hnil, String.toList_append, String.toList_append]
      obtain rfl | hrest := List.mem_cons.mp h
      · exact ⟨[], _, by rw [List.nil_append, List.append_assoc]⟩
      · exact (ih hrest).trans (List.suffix_append _ _).isInfix

theorem containsText_eq_false {text pattern : List Char} (h : ¬ pattern <:+: text) :
    containsText text pattern = false := by
  apply List.any_eq_false.mpr
  intro tail htail hstart
  apply h
  exact (List.isPrefixOf_iff_prefix.mp hstart).isInfix.trans ((List.mem_tails _ _).mp htail).isInfix

/-- The lower-case digits of the encodings that are refused, those of a dot among them. -/
def refusedDigits : List (List Char) :=
  ["2f".toList, "5c".toList, "00".toList, "3f".toList, "23".toList, "2e".toList]

/-- No encoding in a text is one of a separator, a mark or a dot. -/
def Unbroken (text : List Char) : Prop :=
  ∀ x y, ['%', x, y] <:+: text → [x.toLower, y.toLower] ∉ refusedDigits

theorem Unbroken.lower {text : List Char} (h : Unbroken text) {x y : Char}
    (hxy : [x, y] ∈ refusedDigits) : ¬ ['%', x, y] <:+: text.map Char.toLower := by
  intro ⟨before, after, hinside⟩
  obtain ⟨front, back, hparts, hfront, -⟩ := List.map_eq_append_iff.mp hinside.symm
  obtain ⟨start, triple, hstart, -, htriple⟩ := List.map_eq_append_iff.mp hfront
  obtain ⟨p, rest, rfl, hp, hrest⟩ := List.map_eq_cons_iff.mp htriple
  obtain ⟨a, rest, rfl, ha, hrest⟩ := List.map_eq_cons_iff.mp hrest
  obtain ⟨b, rest, rfl, hb, hrest⟩ := List.map_eq_cons_iff.mp hrest
  obtain rfl := List.map_eq_nil_iff.mp hrest
  obtain rfl := eq_of_toLower hp (by decide)
  apply h a b ⟨start, back, by rw [hparts, hstart]⟩
  rw [ha, hb]
  exact hxy

theorem replaceDots_eq {text : List Char} (h : ¬ "%2e".toList <:+: text) :
    replaceDots text = text := by
  fun_induction replaceDots text with
  | case1 rest ih => exact absurd ⟨[], rest, rfl⟩ h
  | case2 c rest hne ih => rw [ih fun hinside => h (hinside.trans (List.suffix_cons _ _).isInfix)]
  | case3 => rfl

theorem map_intercalate {A B : Type} (f : A → B) (separator : List A) (parts : List (List A)) :
    (List.intercalate separator parts).map f =
      List.intercalate (separator.map f) (parts.map (·.map f)) := by
  induction parts with
  | nil => rfl
  | cons part rest ih =>
    by_cases hrest : rest = []
    · subst hrest
      simp
    · rw [List.map_cons, List.intercalate_cons_of_ne_nil hrest,
        List.intercalate_cons_of_ne_nil (by simpa using hrest), List.map_append, List.map_append, ih]

/-- Clean segments without refused encodings are not refused in encoded form. -/
theorem percentBreaker_eq_false {segments : List String}
    (hclean : ∀ segment ∈ segments, CleanSegment false segment) (hne : segments ≠ [])
    (hunbroken : Unbroken (joinSlash segments).toList) :
    containsPercentEncodedPathBreaker (joinSlash segments) = false := by
  have hslash : ∀ segment ∈ segments, '/' ∉ segment.toList.map Char.toLower := by
    intro segment hsegment hmem
    obtain ⟨c, hc, hlower⟩ := List.mem_map.mp hmem
    rw [eq_of_toLower hlower (by decide)] at hc
    exact (hclean segment hsegment).notMem_slash hc
  have hsplit : ((joinSlash segments).toList.map Char.toLower).splitOn '/' =
      segments.map fun segment => segment.toList.map Char.toLower := by
    rw [toList_joinSlash, map_intercalate, List.map_map]
    apply List.splitOn_intercalate
    · intro chars hchars
      obtain ⟨segment, hsegment, rfl⟩ := List.mem_map.mp hchars
      exact hslash segment hsegment
    · simpa using hne
  unfold containsPercentEncodedPathBreaker
  simp only [Bool.or_eq_false_iff]
  refine ⟨?_, ?_⟩
  · apply List.any_eq_false.mpr
    intro pattern hpattern
    have htriple : ∀ x y, [x, y] ∈ refusedDigits →
        containsText ((joinSlash segments).toList.map Char.toLower) ['%', x, y] = false :=
      fun x y hxy => containsText_eq_false (hunbroken.lower hxy)
    simp only [encodedBreakers, List.mem_cons, List.not_mem_nil, or_false] at hpattern
    obtain rfl | rfl | rfl | rfl | rfl := hpattern
    · simp [htriple '2' 'f' (by decide)]
    · simp [htriple '5' 'c' (by decide)]
    · simp [htriple '0' '0' (by decide)]
    · simp [htriple '3' 'f' (by decide)]
    · simp [htriple '2' '3' (by decide)]
  · rw [hsplit]
    apply List.any_eq_false.mpr
    intro lowered hlowered
    obtain ⟨segment, hsegment, rfl⟩ := List.mem_map.mp hlowered
    have hinside : segment.toList.map Char.toLower <:+:
        (joinSlash segments).toList.map Char.toLower := (infix_joinSlash hsegment).map _
    have hdots := (hclean segment hsegment).dots
    have hsame : ∀ dots : String, (∀ d ∈ dots.toList, ¬ (97 ≤ d.toNat ∧ d.toNat ≤ 122)) →
        segment.toList.map Char.toLower = dots.toList → segment = dots :=
      fun dots hlow h => String.toList_inj.mp (eq_of_map_toLower h hlow)
    rw [replaceDots_eq fun h => hunbroken.lower (show ['2', 'e'] ∈ refusedDigits by decide)
      (h.trans hinside)]
    simp only [Bool.or_eq_true, decide_eq_true_eq, not_or]
    exact ⟨fun h => hdots.1 (hsame "." (by simp) h), fun h => hdots.2 (hsame ".." (by simp) h)⟩

theorem rawBreaker_eq_false {segments : List String}
    (hclean : ∀ segment ∈ segments, CleanSegment false segment) (hne : segments ≠ []) :
    containsRawPathBreaker (joinSlash segments) = false := by
  have hchars : ∀ c ∈ (joinSlash segments).toList, c ∉ ['\\', Char.ofNat 0, '?', '#'] := by
    intro c hc hmem
    obtain rfl | ⟨segment, hsegment, hc⟩ := mem_joinSlash hc
    · revert hmem
      decide
    · obtain ⟨hmarks, -, hlow, -⟩ := (hclean segment hsegment).chars c hc
      simp only [List.mem_cons, List.not_mem_nil, or_false] at hmem hmarks
      have hzero : c = Char.ofNat 0 → c.toNat = 0 := fun h => by rw [h]; rfl
      have hnul : c ≠ Char.ofNat 0 := by
        intro h
        have hlow' := hzero h
        omega
      tauto
  have hdots : containsDotSegment (joinSlash segments) = false := by
    unfold containsDotSegment
    rw [splitAt_joinSlash (fun segment hsegment => (hclean segment hsegment).notMem_slash) hne]
    apply List.any_eq_false.mpr
    intro segment hsegment
    have hsegmentDots := (hclean segment hsegment).dots
    simpa using hsegmentDots
  have hslashes : containsText (joinSlash segments).toList ['/', '/'] = false :=
    any_tails_eq_false (joinSlash_spread hclean).1
  rw [containsRawPathBreaker, containsAny_eq_false hchars, hslashes, hdots]
  rfl

/-! ### Plain values -/

/-- What one byte of a value becomes. -/
def piece (byte : UInt8) : List Char := if byte = 47 then ['/'] else encodedByte byte

theorem piece_table : ∀ n : Fin 256, (match piece (UInt8.ofNat n) with
    | [c] => decide (c ≠ '%')
    | [p, x, y] => decide (p = '%' ∧ x ≠ '%' ∧ y ≠ '%' ∧
      ([x.toLower, y.toLower] ∈ refusedDigits → UInt8.ofNat n ∈ ([92, 0, 63, 35] : List UInt8)))
    | _ => false) = true := by
  decide +kernel

/-- A byte is kept, or becomes a percent sign and two digits; the digits of a separator or a mark
come from that character only. -/
theorem piece_cases (byte : UInt8) :
    (∃ c, piece byte = [c] ∧ c ≠ '%') ∨
      ∃ x y, piece byte = ['%', x, y] ∧ x ≠ '%' ∧ y ≠ '%' ∧
        ([x.toLower, y.toLower] ∈ refusedDigits → byte ∈ [92, 0, 63, 35]) := by
  have hbyte := piece_table ⟨byte.toNat, byte.toNat_lt⟩
  rw [show UInt8.ofNat (⟨byte.toNat, byte.toNat_lt⟩ : Fin 256) = byte from UInt8.ofNat_toNat] at hbyte
  split at hbyte
  · next c hc => exact .inl ⟨c, hc, of_decide_eq_true hbyte⟩
  · next p x y hpiece =>
    obtain ⟨rfl, hx, hy, hrefused⟩ := of_decide_eq_true hbyte
    exact .inr ⟨x, y, hpiece, hx, hy, hrefused⟩
  · simp at hbyte

theorem piece_of_infix {bytes : List UInt8} {x y : Char}
    (h : ['%', x, y] <:+: bytes.flatMap piece) : ∃ byte ∈ bytes, piece byte = ['%', x, y] := by
  induction bytes with
  | nil => simp at h
  | cons byte bytes ih =>
    rw [List.flatMap_cons] at h
    have hrest : ['%', x, y] <:+: bytes.flatMap piece → ∃ b ∈ byte :: bytes, piece b = ['%', x, y] := by
      intro hinside
      obtain ⟨b, hb, hpiece⟩ := ih hinside
      exact ⟨b, List.mem_cons_of_mem _ hb, hpiece⟩
    obtain ⟨c, hpiece, hc⟩ | ⟨a, b, hpiece, ha, hb, -⟩ := piece_cases byte
    · rw [hpiece, List.singleton_append, List.infix_cons_iff] at h
      obtain hstart | hinside := h
      · exact absurd (List.cons_prefix_cons.mp hstart).1 (Ne.symm hc)
      · exact hrest hinside
    · rw [hpiece, List.cons_append, List.cons_append, List.cons_append, List.nil_append,
        List.infix_cons_iff, List.infix_cons_iff, List.infix_cons_iff] at h
      obtain hstart | hstart | hstart | hinside := h
      · refine ⟨byte, List.mem_cons_self, ?_⟩
        simp only [List.cons_prefix_cons, true_and, List.nil_prefix, and_true] at hstart
        rw [hpiece, hstart.1, hstart.2]
      · exact absurd (List.cons_prefix_cons.mp hstart).1 (Ne.symm ha)
      · exact absurd (List.cons_prefix_cons.mp hstart).1 (Ne.symm hb)
      · exact hrest hinside

/-- Encoding by segments is encoding all bytes but the slashes. -/
theorem joinSlash_urlEncode {segments : List String}
    (hslash : ∀ segment ∈ segments, '/' ∉ segment.toList) :
    (joinSlash (segments.map urlEncode)).toList = (utf8 (joinSlash segments)).flatMap piece := by
  have hone : ∀ segment : String, '/' ∉ segment.toList →
      (urlEncode segment).toList = (utf8 segment).flatMap piece := by
    intro segment hsegment
    rw [urlEncode_eq, String.toList_ofList]
    apply List.flatMap_congr
    intro byte hbyte
    rw [piece, if_neg]
    intro hslash
    rw [← String.ofList_toList (s := segment), utf8_ofList] at hbyte
    obtain ⟨c, hc, hbyte⟩ := List.mem_flatMap.mp hbyte
    have hnat := ascii_of_mem_utf8EncodeChar hbyte (by rw [hslash]; decide)
    have hchar : c = '/' := Char.toNat_inj.mp (by rw [← hnat, hslash]; rfl)
    exact hsegment (hchar ▸ hc)
  induction segments with
  | nil => rfl
  | cons segment segments ih =>
    obtain ⟨hsegment, hsegments⟩ := List.forall_mem_cons.mp hslash
    by_cases hnil : segments = []
    · subst hnil
      rw [List.map_singleton, joinSlash_singleton, joinSlash_singleton, hone segment hsegment]
    · have hmark : (utf8 "/").flatMap piece = "/".toList := by decide
      rw [List.map_cons, joinSlash_cons _ (by simpa using hnil), joinSlash_cons _ hnil,
        String.toList_append, String.toList_append, utf8_append, utf8_append, List.flatMap_append,
        List.flatMap_append, hone segment hsegment, ih hsegments, hmark]

theorem control_bounds {c : Char} (h : ¬ isControl c) : 32 ≤ c.toNat ∧ c.toNat ≠ 127 := by
  unfold isControl at h
  simp only [Bool.or_eq_true, decide_eq_true_eq, Bool.and_eq_true, not_or, not_and] at h
  omega

theorem Plain.clean {segment : String} (h : Plain segment) (hslash : '/' ∉ segment.toList) :
    CleanSegment true segment := by
  refine ⟨h.nonempty, fun c hc => ?_, h.dots⟩
  obtain ⟨hplain, hcontrol⟩ := h.chars c hc
  have hbounds := control_bounds hcontrol
  have hne : c ≠ '/' := fun heq => hslash (heq ▸ hc)
  simp only [List.mem_cons, List.not_mem_nil, or_false] at hplain ⊢
  tauto

theorem clean_weaken {segment : String} (h : CleanSegment true segment) :
    CleanSegment false segment := by
  refine ⟨h.nonempty, fun c hc => ?_, h.dots⟩
  obtain ⟨hmarks, -, hbounds⟩ := h.chars c hc
  exact ⟨hmarks, by simp, hbounds⟩

/-- A clean segment is clean in its encoded form. -/
theorem clean_urlEncode (hdecode : DecodesPercent decode) {segment : String}
    (h : CleanSegment true segment) : CleanSegment false (urlEncode segment) := by
  have hsame : ∀ dots : String, '%' ∉ dots.toList → urlEncode segment = dots → segment = dots := by
    intro dots hplain heq
    have hdecoded := hdecode.encode segment
    rw [heq, hdecode.itself hplain] at hdecoded
    exact (Option.some.inj hdecoded).symm
  refine ⟨urlEncode_ne_empty h.nonempty, fun c hc => ?_, ?_⟩
  · obtain ⟨hplain, hbounds⟩ := mem_urlEncode hc
    refine ⟨fun hmem => hplain ?_, by simp, hbounds⟩
    simp only [List.mem_cons, List.not_mem_nil, or_false] at hmem ⊢
    tauto
  · exact ⟨fun heq => h.dots.1 (hsame "." (by decide) heq),
      fun heq => h.dots.2 (hsame ".." (by decide) heq)⟩

theorem unbroken_encoded {segments : List String}
    (hclean : ∀ segment ∈ segments, CleanSegment true segment) :
    Unbroken (joinSlash (segments.map urlEncode)).toList := by
  intro x y hinside hrefused
  rw [joinSlash_urlEncode fun segment hsegment => (hclean segment hsegment).notMem_slash] at hinside
  obtain ⟨byte, hbyte, hpiece⟩ := piece_of_infix hinside
  have hmark : byte ∈ ([92, 0, 63, 35] : List UInt8) := by
    obtain ⟨c, hc, -⟩ | ⟨a, b, hab, -, -, hmark⟩ := piece_cases byte
    · simp [hpiece] at hc
    · rw [hpiece] at hab
      simp only [List.cons.injEq, and_true, true_and] at hab
      exact hmark (hab.1 ▸ hab.2 ▸ hrefused)
  rw [← String.ofList_toList (s := joinSlash segments), utf8_ofList] at hbyte
  obtain ⟨c, hc, hbyte⟩ := List.mem_flatMap.mp hbyte
  obtain rfl | ⟨segment, hsegment, hc⟩ := mem_joinSlash hc
  · have hslash : String.utf8EncodeChar '/' = [47] := by decide
    rw [hslash, List.mem_singleton] at hbyte
    rw [hbyte] at hmark
    exact absurd hmark (by decide)
  · obtain ⟨hmarks, -, hlow, -⟩ := (hclean segment hsegment).chars c hc
    have hascii : byte.toNat < 128 := by
      simp only [List.mem_cons, List.not_mem_nil, or_false] at hmark
      obtain rfl | rfl | rfl | rfl := hmark <;> decide
    have hnat := ascii_of_mem_utf8EncodeChar hbyte hascii
    have hcode : ∀ d : Char, byte.toNat = d.toNat → c = d := fun d hd =>
      Char.toNat_inj.mp (by rw [← hnat, hd])
    simp only [List.mem_cons, List.not_mem_nil, or_false] at hmark hmarks
    obtain rfl | rfl | rfl | rfl := hmark
    · have hchar := hcode '\\' rfl
      tauto
    · have hzero : c.toNat = 0 := hnat.symm
      omega
    · have hchar := hcode '?' rfl
      tauto
    · have hchar := hcode '#' rfl
      tauto

theorem unbroken_plain {text : List Char} (h : '%' ∉ text) : Unbroken text :=
  fun _ _ hinside => absurd (hinside.subset List.mem_cons_self) h

/-- The encoded path of clean segments passes the checks of the proxy. -/
theorem validate_joinSlash (hdecode : DecodesPercent decode) {segments : List String}
    (hclean : ∀ segment ∈ segments, CleanSegment true segment) (hne : segments ≠ []) :
    validateRequestedProxyPath decode (joinSlash (segments.map urlEncode)) = .ok () := by
  have hencoded : ∀ segment ∈ segments.map urlEncode, CleanSegment false segment := by
    intro segment hsegment
    obtain ⟨part, hpart, rfl⟩ := List.mem_map.mp hsegment
    exact clean_urlEncode hdecode (hclean part hpart)
  have hweak : ∀ segment ∈ segments, CleanSegment false segment :=
    fun segment hsegment => clean_weaken (hclean segment hsegment)
  have hpercent : '%' ∉ (joinSlash segments).toList := by
    intro hmem
    obtain hslash | ⟨segment, hsegment, hc⟩ := mem_joinSlash hmem
    · simp at hslash
    · exact ((hclean segment hsegment).chars '%' hc).2.1 rfl rfl
  have hne' : segments.map urlEncode ≠ [] := by simpa using hne
  have hvalue : containsNested decode 7 (joinSlash segments) = false := by
    rw [containsNested, percentBreaker_eq_false hweak hne (unbroken_plain hpercent)]
    simp [hdecode.itself hpercent]
  have hnested : containsNestedPercentEncodedPathBreaker decode
      (joinSlash (segments.map urlEncode)) = false := by
    rw [containsNestedPercentEncodedPathBreaker, containsNested,
      percentBreaker_eq_false hencoded hne' (unbroken_encoded hclean)]
    simp only [Bool.false_eq_true, if_false, hdecode.joined, rawBreaker_eq_false hweak hne, hvalue]
    split <;> rfl
  rw [validateRequestedProxyPath, rawBreaker_eq_false hencoded hne', hnested]
  rfl

end NyxId.OperationPath
