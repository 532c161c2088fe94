import NyxId.Encoding.Text
import Mathlib.Algebra.Order.BigOperators.Group.List
import Mathlib.Algebra.Order.Ring.Nat

/-!
Records of several fields as one sequence. Joined by a separator, fields without the
separator are determined when their number is known; with a length before each field,
any fields are determined.
-/

namespace Encoding

section

variable {α : Type*}

theorem count_intercalate [DecidableEq α] (x : α) {ls : List (List α)} (hls : ls ≠ []) :
    (List.intercalate [x] ls).count x + 1 = ls.length + (ls.map (List.count x)).sum := by
  induction ls with
  | nil => exact absurd rfl hls
  | cons l rest ih =>
    cases rest with
    | nil =>
      simp
      omega
    | cons m rest =>
      have hrest := ih (List.cons_ne_nil m rest)
      rw [List.intercalate_cons_cons]
      simp only [List.count_append, List.count_singleton_self, List.map_cons, List.sum_cons,
        List.length_cons] at hrest ⊢
      omega

/-- As many clean fields as there are in a record are the fields of that record. -/
theorem intercalate_inj [DecidableEq α] {x : α} {ls ms : List (List α)}
    (hlen : ls.length = ms.length) (hclean : ∀ l ∈ ls, x ∉ l)
    (h : List.intercalate [x] ls = List.intercalate [x] ms) : ls = ms := by
  by_cases hls : ls = []
  · subst hls
    exact (List.length_eq_zero_iff.mp hlen.symm).symm
  have hms : ms ≠ [] := by
    rintro rfl
    exact hls (List.length_eq_zero_iff.mp hlen)
  have hzero : (ls.map (List.count x)).sum = 0 := by
    apply List.sum_eq_zero
    intro n hn
    obtain ⟨l, hl, rfl⟩ := List.mem_map.mp hn
    exact List.count_eq_zero.mpr (hclean l hl)
  have hcount := count_intercalate x hls
  have hcount' := count_intercalate x hms
  rw [h] at hcount
  have hclean' : ∀ m ∈ ms, x ∉ m := by
    intro m hm
    have hle : m.count x ≤ (ms.map (List.count x)).sum :=
      List.single_le_sum (by simp) _ (List.mem_map_of_mem hm)
    exact List.count_eq_zero.mp (by omega)
  rw [← List.splitOn_intercalate x hclean hls, h, List.splitOn_intercalate x hclean' hms]

/-- The bytes of joined texts are the bytes of the joined text. -/
theorem intercalate_utf8 {separator : Char} {byte : UInt8}
    (hbyte : utf8 (String.singleton separator) = [byte]) (fields : List String) :
    List.intercalate [byte] (fields.map utf8) =
      utf8 (String.ofList (List.intercalate [separator] (fields.map String.toList))) := by
  induction fields with
  | nil => rfl
  | cons f rest ih =>
    cases rest with
    | nil => simp
    | cons g rest =>
      simp only [List.map_cons, List.intercalate_cons_cons] at ih ⊢
      rw [ih, String.ofList_append, String.ofList_append, utf8_append, utf8_append,
        String.ofList_toList, ← hbyte]
      rfl

section

variable {header : ℕ → List α} {bound : ℕ}

/-- A header tells where it ends and how long the field after it is. -/
def SelfDelimiting (header : ℕ → List α) (bound : ℕ) : Prop :=
  ∀ n m r s, n < bound → m < bound → header n ++ r = header m ++ s → n = m ∧ r = s

def framed (header : ℕ → List α) (field : List α) : List α := header field.length ++ field

theorem framed_append_inj (hheader : SelfDelimiting header bound) {f g r s : List α}
    (hf : f.length < bound) (hg : g.length < bound)
    (h : framed header f ++ r = framed header g ++ s) : f = g ∧ r = s := by
  simp only [framed, List.append_assoc] at h
  obtain ⟨hlen, hrest⟩ := hheader _ _ _ _ hf hg h
  exact List.append_inj hrest hlen

theorem flatMap_framed_inj (hheader : SelfDelimiting header bound) (hne : ∀ n, header n ≠ [])
    {fs gs : List (List α)} (hfs : ∀ f ∈ fs, f.length < bound) (hgs : ∀ g ∈ gs, g.length < bound)
    (h : fs.flatMap (framed header) = gs.flatMap (framed header)) : fs = gs := by
  induction fs generalizing gs with
  | nil =>
    cases gs with
    | nil => rfl
    | cons g gs =>
      simp [framed, hne] at h
  | cons f fs ih =>
    cases gs with
    | nil => simp [framed, hne] at h
    | cons g gs =>
      simp only [List.flatMap_cons] at h
      obtain ⟨rfl, hrest⟩ := framed_append_inj hheader (hfs f List.mem_cons_self)
        (hgs g List.mem_cons_self) h
      rw [ih (fun l hl => hfs l (List.mem_cons_of_mem _ hl))
        (fun l hl => hgs l (List.mem_cons_of_mem _ hl)) hrest]

theorem intercalate_framed_inj {x : α} (hheader : SelfDelimiting header bound)
    {fs gs : List (List α)} (hfs : ∀ f ∈ fs, f.length < bound) (hgs : ∀ g ∈ gs, g.length < bound)
    (hne : fs ≠ []) (hne' : gs ≠ [])
    (h : List.intercalate [x] (fs.map (framed header)) =
      List.intercalate [x] (gs.map (framed header))) : fs = gs := by
  induction fs generalizing gs with
  | nil => exact absurd rfl hne
  | cons f fs ih =>
    obtain ⟨g, gs, rfl⟩ := List.exists_cons_of_ne_nil hne'
    have hf := hfs f List.mem_cons_self
    have hg := hgs g List.mem_cons_self
    cases fs with
    | nil =>
      cases gs with
      | nil =>
        simp only [List.map_cons, List.map_nil, List.intercalate_singleton] at h
        obtain ⟨rfl, -⟩ := framed_append_inj (r := []) (s := []) hheader hf hg (by simpa using h)
        rfl
      | cons g' gs =>
        simp only [List.map_cons, List.map_nil, List.intercalate_singleton,
          List.intercalate_cons_cons, List.append_assoc] at h
        obtain ⟨-, hrest⟩ := framed_append_inj (r := []) hheader hf hg (by simpa using h)
        simp at hrest
    | cons f' fs =>
      cases gs with
      | nil =>
        simp only [List.map_cons, List.map_nil, List.intercalate_singleton,
          List.intercalate_cons_cons, List.append_assoc] at h
        obtain ⟨-, hrest⟩ := framed_append_inj (s := []) hheader hf hg (by simpa using h)
        simp at hrest
      | cons g' gs =>
        simp only [List.map_cons, List.intercalate_cons_cons, List.append_assoc] at h
        obtain ⟨rfl, hrest⟩ := framed_append_inj hheader hf hg h
        have htail := List.append_cancel_left hrest
        rw [ih (fun l hl => hfs l (List.mem_cons_of_mem _ hl))
          (fun l hl => hgs l (List.mem_cons_of_mem _ hl)) (List.cons_ne_nil _ _)
          (List.cons_ne_nil _ _) (by simpa using htail)]

end

theorem selfDelimiting_beBytes (k : ℕ) : SelfDelimiting (beBytes k) (256 ^ k) := by
  intro n m r s hn hm h
  obtain ⟨hheader, hrest⟩ := List.append_inj h (by simp)
  exact ⟨beBytes_injective hn hm hheader, hrest⟩

/-- A decimal length and a colon. -/
def lengthHeader (n : ℕ) : List UInt8 := utf8 (decimal n) ++ utf8 ":"

theorem utf8_ofList (l : List Char) :
    utf8 (String.ofList l) = l.flatMap String.utf8EncodeChar := by
  simp [utf8, List.utf8Encode]

/-- The bytes of characters beyond ASCII are beyond ASCII. -/
theorem ascii_of_mem_utf8EncodeChar {c : Char} {byte : UInt8}
    (h : byte ∈ String.utf8EncodeChar c) (hascii : byte.toNat < 128) : byte.toNat = c.toNat := by
  have hwrap (n : ℕ) (hn : n < 256) : (UInt8.ofNat n).toNat = n := by
    rw [UInt8.toNat_ofNat']
    exact Nat.mod_eq_of_lt hn
  have hval : c.val.toNat = c.toNat := rfl
  unfold String.utf8EncodeChar at h
  simp only at h
  split at h
  · rename_i hle
    obtain rfl := List.mem_singleton.mp h
    rw [hwrap _ (by omega)]
    rfl
  · exfalso
    split at h
    · simp only [List.mem_cons, List.not_mem_nil, or_false] at h
      rcases h with rfl | rfl
      all_goals
        rw [hwrap _ (by omega)] at hascii
        omega
    · split at h
      · simp only [List.mem_cons, List.not_mem_nil, or_false] at h
        rcases h with rfl | rfl | rfl
        all_goals
          rw [hwrap _ (by omega)] at hascii
          omega
      · simp only [List.mem_cons, List.not_mem_nil, or_false] at h
        rcases h with rfl | rfl | rfl | rfl
        all_goals
          rw [hwrap _ (by omega)] at hascii
          omega

/-- The bytes of a length are digits. -/
theorem digit_of_mem_utf8_decimal {n : ℕ} {byte : UInt8} (h : byte ∈ utf8 (decimal n)) :
    48 ≤ byte.toNat ∧ byte.toNat ≤ 57 := by
  rw [decimal, utf8_ofList] at h
  obtain ⟨c, hc, hbyte⟩ := List.mem_flatMap.mp h
  have hdigit : c.isDigit := by
    simp only [decimalChars, if_neg (Int.not_lt.mpr (Int.natCast_nonneg n)), List.nil_append] at hc
    exact isDigit_of_mem_toDigits hc
  obtain ⟨hlo, hhi⟩ : 48 ≤ c.val.toNat ∧ c.val.toNat ≤ 57 := Char.isDigit_iff_toNat.mp hdigit
  have hsize : c.utf8Size = 1 := by
    rw [Char.utf8Size_eq_one_iff, UInt32.le_iff_toNat_le]
    exact hhi.trans (by decide)
  rw [String.utf8EncodeChar_eq_singleton hsize, List.mem_singleton] at hbyte
  have hval : byte.toNat = c.val.toNat % 256 := congrArg UInt8.toNat hbyte
  omega

private theorem colon_notMem_digits (n : ℕ) : (58 : UInt8) ∉ utf8 (decimal n) := by
  intro hmem
  have hrange := digit_of_mem_utf8_decimal hmem
  revert hrange
  decide

theorem lengthHeader_head (n : ℕ) : ∃ byte rest, lengthHeader n = byte :: rest ∧
    48 ≤ byte.toNat ∧ byte.toNat ≤ 57 := by
  have hne : utf8 (decimal n) ≠ [] := by
    intro hnil
    exact decimal_ne_empty n (utf8_injective hnil)
  obtain ⟨byte, rest, hbytes⟩ := List.exists_cons_of_ne_nil hne
  have hmem : byte ∈ utf8 (decimal n) := by
    rw [hbytes]
    exact List.mem_cons_self
  exact ⟨byte, rest ++ utf8 ":", by rw [lengthHeader, hbytes]; rfl, digit_of_mem_utf8_decimal hmem⟩

/-- A field without the mark ends at the first mark. -/
theorem append_mark_inj {x : α} {a b r s : List α} (ha : x ∉ a) (hb : x ∉ b)
    (h : a ++ x :: r = b ++ x :: s) : a = b ∧ r = s := by
  rcases List.append_eq_append_iff.mp h with ⟨t, rfl, ht⟩ | ⟨t, rfl, ht⟩
  · cases t with
    | nil => exact ⟨by simp, by simpa using ht⟩
    | cons y t =>
      obtain ⟨rfl, -⟩ := List.cons.inj ht
      simp at hb
  · cases t with
    | nil => exact ⟨by simp, by simpa using ht.symm⟩
    | cons y t =>
      obtain ⟨rfl, -⟩ := List.cons.inj ht
      simp at ha

theorem selfDelimiting_lengthHeader (bound : ℕ) : SelfDelimiting lengthHeader bound := by
  intro n m r s _ _ h
  have hcolon : utf8 ":" = [58] := by decide
  simp only [lengthHeader, hcolon, List.append_assoc, List.singleton_append] at h
  obtain ⟨hdigits, hrest⟩ := append_mark_inj (colon_notMem_digits n) (colon_notMem_digits m) h
  have hsame := decimal_injective (utf8_injective hdigits)
  exact ⟨by omega, hrest⟩

end

/-!
Characters read from bytes. The bytes of a text are cut at an ASCII character exactly where the
text is.
-/

/-- The text of some bytes, when they are UTF-8. -/
def fromUtf8 (bytes : List UInt8) : Option (List Char) :=
  (String.fromUTF8? bytes.toByteArray).map String.toList

section

variable {bytes left right : List UInt8} {text : List Char} {c : Char}

theorem fromUtf8_eq_some :
    fromUtf8 bytes = some text ↔ text.flatMap String.utf8EncodeChar = bytes := by
  rw [← utf8_ofList]
  unfold fromUtf8 String.fromUTF8?
  constructor
  · intro h
    split at h
    · rw [← Option.some.inj h, String.ofList_toList]
      show bytes.toByteArray.data.toList = bytes
      rw [List.data_toByteArray]
    · cases h
  · rintro rfl
    have hbytes : (utf8 (String.ofList text)).toByteArray = (String.ofList text).toByteArray := by
      apply ByteArray.ext
      rw [List.data_toByteArray]
      rfl
    rw [hbytes, dif_pos (String.ofList text).isValidUTF8]
    exact congrArg some String.toList_ofList

theorem utf8EncodeChar_ne_nil (c : Char) : String.utf8EncodeChar c ≠ [] := by
  intro hnil
  have hsize := String.length_utf8EncodeChar c
  rw [hnil] at hsize
  exact absurd hsize (Nat.ne_of_lt c.utf8Size_pos)

theorem encode_eq_nil : text.flatMap String.utf8EncodeChar = [] ↔ text = [] := by
  constructor
  · intro h
    cases text with
    | nil => rfl
    | cons c text =>
      rw [List.flatMap_cons] at h
      exact absurd (List.append_eq_nil_iff.mp h).1 (utf8EncodeChar_ne_nil c)
  · rintro rfl
    rfl

theorem utf8EncodeChar_ascii (hascii : c.toNat < 128) :
    String.utf8EncodeChar c = [UInt8.ofNat c.toNat] := by
  have hsize : c.utf8Size = 1 := by
    rw [Char.utf8Size_eq_one_iff, UInt32.le_iff_toNat_le]
    exact Nat.le_of_lt_succ hascii
  rw [String.utf8EncodeChar_eq_singleton hsize]
  rfl

/-- The byte of an ASCII character is in the bytes of no other. -/
theorem mem_utf8EncodeChar_ascii (hascii : c.toNat < 128) {d : Char} :
    UInt8.ofNat c.toNat ∈ String.utf8EncodeChar d ↔ d = c := by
  have hbyte : (UInt8.ofNat c.toNat).toNat = c.toNat := by
    rw [UInt8.toNat_ofNat']
    exact Nat.mod_eq_of_lt (by omega)
  constructor
  · intro h
    have hcode := ascii_of_mem_utf8EncodeChar h (by omega)
    exact Char.toNat_inj.mp (by omega)
  · rintro rfl
    rw [utf8EncodeChar_ascii hascii]
    exact List.mem_singleton_self _

/-- The text before the byte of an ASCII character, and the text after it. -/
theorem exists_cut_of_encode (hascii : c.toNat < 128) (hleft : UInt8.ofNat c.toNat ∉ left)
    (h : text.flatMap String.utf8EncodeChar = left ++ UInt8.ofNat c.toNat :: right) :
    ∃ before after, text = before ++ c :: after ∧
      before.flatMap String.utf8EncodeChar = left ∧ after.flatMap String.utf8EncodeChar = right := by
  induction text generalizing left with
  | nil => simp at h
  | cons d text ih =>
    rw [List.flatMap_cons] at h
    by_cases hd : d = c
    · subst hd
      rw [utf8EncodeChar_ascii hascii] at h
      cases left with
      | nil => exact ⟨[], text, rfl, rfl, (List.cons.inj h).2⟩
      | cons first left =>
        obtain ⟨hfirst, -⟩ := List.cons.inj h
        exact absurd (hfirst ▸ List.mem_cons_self) hleft
    · have hnotMem : UInt8.ofNat c.toNat ∉ String.utf8EncodeChar d :=
        fun hmem => hd ((mem_utf8EncodeChar_ascii hascii).mp hmem)
      have hrest : ∃ middle, left = String.utf8EncodeChar d ++ middle ∧
          text.flatMap String.utf8EncodeChar = middle ++ UInt8.ofNat c.toNat :: right := by
        rcases List.append_eq_append_iff.mp h with ⟨middle, hleft', hright⟩ | ⟨middle, hd', hright⟩
        · exact ⟨middle, hleft', hright⟩
        · cases middle with
          | nil => exact ⟨[], by simpa using hd'.symm, by simpa using hright.symm⟩
          | cons first middle =>
            obtain ⟨hfirst, -⟩ := List.cons.inj hright
            rw [hd', ← hfirst] at hnotMem
            exact absurd (List.mem_append_right _ List.mem_cons_self) hnotMem
      obtain ⟨middle, rfl, htext⟩ := hrest
      obtain ⟨before, after, rfl, hbefore, hafter⟩ :=
        ih (fun hmem => hleft (List.mem_append_right _ hmem)) htext
      exact ⟨d :: before, after, rfl, by rw [List.flatMap_cons, hbefore], hafter⟩

/-- A text of bytes without an ASCII character has no such character. -/
theorem notMem_of_encode (hascii : c.toNat < 128)
    (h : UInt8.ofNat c.toNat ∉ text.flatMap String.utf8EncodeChar) : c ∉ text := by
  intro hmem
  exact h (List.mem_flatMap.mpr ⟨c, hmem, (mem_utf8EncodeChar_ascii hascii).mpr rfl⟩)

end

end Encoding
