import NyxId.Encoding.Json
import NyxId.Encoding.Records
import NyxId.UsageMeter

/-!
Entries of the audit chain and the bytes that their keyed hash commits to. Creation
times are nanoseconds.
-/

namespace NyxId.AuditChain

open Encoding

structure AuditLog where
  id : String
  userId : Option String
  eventType : String
  eventData : Option Json
  ipAddress : Option String
  userAgent : Option String
  apiKeyId : Option String
  apiKeyName : Option String
  createdAt : ℤ
  seq : Option ℤ
  prevHash : Option String
  entryHash : Option String

def genesisPrevHash : String := String.ofList (List.replicate 64 '0')

def recordSeparator : UInt8 := 0x1e

def timestampMillis (createdAt : ℤ) : ℤ := createdAt / 1000000

/-- Keys of a map are unique, so collecting the members in key order sorts them. -/
def sortMembers (members : List (String × Json)) : List (String × Json) :=
  members.insertionSort fun a b => a.1 ≤ b.1

mutual

def canonicalJsonValue : Json → Json
  | .array items => .array (canonicalItems items)
  | .object members => .object (sortMembers (canonicalMembers members))
  | value => value

def canonicalItems : List Json → List Json
  | [] => []
  | item :: items => canonicalJsonValue item :: canonicalItems items

def canonicalMembers : List (String × Json) → List (String × Json)
  | [] => []
  | (key, value) :: members => (key, canonicalJsonValue value) :: canonicalMembers members

end

def canonicalJsonString (value : Json) : String := String.ofList (writeJson (canonicalJsonValue value))

def joinRecordFields (fields : List String) : List UInt8 :=
  List.intercalate [recordSeparator] (fields.map utf8)

/-- The committed fields of an entry at a place in the chain. -/
def recordFields (entry : AuditLog) (seq : ℤ) (prevHash : String) : List String :=
  [decimal seq,
    prevHash,
    entry.id,
    entry.userId.getD "",
    entry.eventType,
    (entry.eventData.map canonicalJsonString).getD "",
    entry.ipAddress.getD "",
    entry.userAgent.getD "",
    entry.apiKeyId.getD "",
    entry.apiKeyName.getD "",
    decimal (timestampMillis entry.createdAt)]

def canonicalAuditBytes (entry : AuditLog) : Except AppError (List UInt8) :=
  match entry.seq with
  | none => .error (.internal "audit chain entry missing seq")
  | some seq =>
    match entry.prevHash with
    | none => .error (.internal "audit chain entry missing prev_hash")
    | some prevHash => .ok (joinRecordFields (recordFields entry seq prevHash))

/-- The keyed hash of an entry, for the hash function of one key. -/
def computeEntryHash (hmac : List UInt8 → String) (entry : AuditLog) : Except AppError String :=
  (canonicalAuditBytes entry).map hmac

/-!
What the hash of an audit entry covers. Fields are joined without their lengths, so
the bytes determine the committed fields exactly for the entries whose texts do not
contain the separator.
-/

/-- Equality of JSON values up to the order of the members of their objects. -/
inductive SameJson : Json → Json → Prop where
  | refl (v : Json) : SameJson v v
  | symm {v w : Json} (h : SameJson v w) : SameJson w v
  | trans {u v w : Json} (huv : SameJson u v) (hvw : SameJson v w) : SameJson u w
  | item {v w : Json} (before after : List Json) (h : SameJson v w) :
      SameJson (.array (before ++ v :: after)) (.array (before ++ w :: after))
  | member {v w : Json} (key : String) (before after : List (String × Json)) (h : SameJson v w) :
      SameJson (.object (before ++ (key, v) :: after)) (.object (before ++ (key, w) :: after))
  | order {members members' : List (String × Json)} (h : members.Perm members') :
      SameJson (.object members) (.object members')

mutual

theorem canonicalJsonValue_same (v : Json) : SameJson v (canonicalJsonValue v) := by
  match v with
  | .null | .bool _ | .number _ | .string _ => exact .refl _
  | .array items => exact canonicalItems_same [] items
  | .object members =>
    exact .trans (canonicalMembers_same [] members)
      (.order (List.perm_insertionSort _ (canonicalMembers members)).symm)

theorem canonicalItems_same (before items : List Json) :
    SameJson (.array (before ++ items)) (.array (before ++ canonicalItems items)) := by
  match items with
  | [] => exact .refl _
  | item :: items =>
    have hrest := canonicalItems_same (before ++ [canonicalJsonValue item]) items
    simp only [List.append_assoc, List.singleton_append] at hrest
    exact .trans (.item before items (canonicalJsonValue_same item)) hrest

theorem canonicalMembers_same (before members : List (String × Json)) :
    SameJson (.object (before ++ members)) (.object (before ++ canonicalMembers members)) := by
  match members with
  | [] => exact .refl _
  | (key, value) :: members =>
    have hrest := canonicalMembers_same (before ++ [(key, canonicalJsonValue value)]) members
    simp only [List.append_assoc, List.singleton_append] at hrest
    exact .trans (.member key before members (canonicalJsonValue_same value)) hrest

end

/-- Values with one canonical text differ only in the order of members. -/
theorem same_of_canonicalJsonString {v w : Json}
    (h : canonicalJsonString v = canonicalJsonString w) : SameJson v w := by
  have hcanonical := writeJson_injective (String.ofList_injective h)
  exact .trans (canonicalJsonValue_same v) (hcanonical ▸ (canonicalJsonValue_same w).symm)

/-- Agreement on every field that the hash commits to. -/
structure Committed (a b : AuditLog) : Prop where
  seq : a.seq = b.seq
  prevHash : a.prevHash = b.prevHash
  id : a.id = b.id
  userId : a.userId.getD "" = b.userId.getD ""
  eventType : a.eventType = b.eventType
  eventData : Option.Rel SameJson a.eventData b.eventData
  ipAddress : a.ipAddress.getD "" = b.ipAddress.getD ""
  userAgent : a.userAgent.getD "" = b.userAgent.getD ""
  apiKeyId : a.apiKeyId.getD "" = b.apiKeyId.getD ""
  apiKeyName : a.apiKeyName.getD "" = b.apiKeyName.getD ""
  createdAt : timestampMillis a.createdAt = timestampMillis b.createdAt

/-- The texts of an entry that may hold any character. -/
def freeTexts (entry : AuditLog) : List String :=
  [entry.prevHash.getD "", entry.id, entry.userId.getD "", entry.eventType,
    entry.ipAddress.getD "", entry.userAgent.getD "", entry.apiKeyId.getD "",
    entry.apiKeyName.getD ""]

/-- No text of the entry contains the separator. -/
def SeparatorFree (entry : AuditLog) : Prop := ∀ text ∈ freeTexts entry, '\u001e' ∉ text.toList

private theorem separator_notMem_decimal (n : ℤ) : '\u001e' ∉ (decimal n).toList := by
  rw [decimal, String.toList_ofList]
  intro h
  rcases mem_decimalChars h with h | h
  · revert h
    decide
  · revert h
    decide

private theorem separator_notMem_eventData (value : Option Json) :
    '\u001e' ∉ ((value.map canonicalJsonString).getD "").toList := by
  cases value with
  | none => decide
  | some v =>
    intro h
    simp only [Option.map_some, Option.getD_some, canonicalJsonString, String.toList_ofList] at h
    exact absurd (printable_writeJson _ _ h) (by decide)

theorem canonicalAuditBytes_eq_ok {entry : AuditLog} {bytes : List UInt8}
    (h : canonicalAuditBytes entry = .ok bytes) : ∃ seq prevHash, entry.seq = some seq ∧
      entry.prevHash = some prevHash ∧
      bytes = joinRecordFields (recordFields entry seq prevHash) := by
  unfold canonicalAuditBytes at h
  split at h
  · cases h
  rename_i seq hseq
  split at h
  · cases h
  rename_i prevHash hprev
  cases h
  exact ⟨seq, prevHash, hseq, hprev, rfl⟩

private theorem recordFields_clean {entry : AuditLog} {seq : ℤ} {prevHash : String}
    (hprev : entry.prevHash = some prevHash) (h : SeparatorFree entry) :
    ∀ field ∈ recordFields entry seq prevHash, '\u001e' ∉ field.toList := by
  unfold SeparatorFree freeTexts at h
  rw [hprev] at h
  simp only [List.forall_mem_cons, Option.getD_some] at h
  obtain ⟨hprev, hid, huser, htype, hip, hagent, hkey, hname, -⟩ := h
  simp only [recordFields, List.forall_mem_cons]
  exact ⟨separator_notMem_decimal _, hprev, hid, huser, htype, separator_notMem_eventData _, hip,
    hagent, hkey, hname, separator_notMem_decimal _, by simp⟩

theorem joinRecordFields_inj {fields fields' : List String}
    (hlen : fields.length = fields'.length) (hclean : ∀ f ∈ fields, '\u001e' ∉ f.toList)
    (h : joinRecordFields fields = joinRecordFields fields') : fields = fields' := by
  have hbyte : utf8 (String.singleton '\u001e') = [recordSeparator] := by decide
  simp only [joinRecordFields, intercalate_utf8 hbyte] at h
  have hchars := String.ofList_injective (utf8_injective h)
  have hlists := intercalate_inj (by simpa using hlen) (fun l hl => by
    obtain ⟨f, hf, rfl⟩ := List.mem_map.mp hl
    exact hclean f hf) hchars
  exact (List.map_injective_iff.mpr fun _ _ => String.toList_injective) hlists

private theorem eventData_same {v w : Option Json}
    (h : (v.map canonicalJsonString).getD "" = (w.map canonicalJsonString).getD "") :
    Option.Rel SameJson v w := by
  have hne : ∀ u : Json, canonicalJsonString u ≠ "" := fun u hu =>
    writeJson_ne_nil _ (String.ofList_injective hu)
  cases v with
  | none =>
    cases w with
    | none => exact .none
    | some w => exact absurd h.symm (hne w)
  | some v =>
    cases w with
    | none => exact absurd h (hne v)
    | some w => exact .some (same_of_canonicalJsonString h)

/-- Entries with one record have the same committed fields. -/
theorem committed_of_separatorFree {a b : AuditLog} {bytes : List UInt8} (hclean : SeparatorFree a)
    (ha : canonicalAuditBytes a = .ok bytes) (hb : canonicalAuditBytes b = .ok bytes) :
    Committed a b := by
  obtain ⟨seq, prevHash, hseq, hprev, rfl⟩ := canonicalAuditBytes_eq_ok ha
  obtain ⟨seq', prevHash', hseq', hprev', hbytes⟩ := canonicalAuditBytes_eq_ok hb
  have hlen : (recordFields a seq prevHash).length = (recordFields b seq' prevHash').length := rfl
  have hfields := joinRecordFields_inj hlen (recordFields_clean hprev hclean) hbytes
  simp only [recordFields, List.cons.injEq, and_true] at hfields
  obtain ⟨hs, hp, hid, huser, htype, hdata, hip, hagent, hkey, hname, htime⟩ := hfields
  exact ⟨by rw [hseq, hseq', decimal_injective hs], by rw [hprev, hprev', hp], hid, huser, htype,
    eventData_same hdata, hip, hagent, hkey, hname, decimal_injective htime⟩

/-- A separator inside a field may as well end the field there. -/
private theorem joinRecordFields_resplit (before after : List String) (l m n : String) :
    joinRecordFields (before ++ (l ++ "\u001e" ++ m) :: n :: after) =
      joinRecordFields (before ++ l :: (m ++ "\u001e" ++ n) :: after) := by
  have hbyte : utf8 "\u001e" = [recordSeparator] := by decide
  unfold joinRecordFields
  induction before with
  | nil =>
    cases after with
    | nil =>
      simp only [List.nil_append, List.map_cons, List.map_nil, List.intercalate_cons_cons,
        List.intercalate_singleton, utf8_append, hbyte, List.append_assoc]
    | cons p after =>
      simp only [List.nil_append, List.map_cons, List.intercalate_cons_cons, utf8_append, hbyte,
        List.append_assoc]
  | cons f before ih =>
    cases before with
    | nil =>
      simp only [List.nil_append, List.cons_append, List.map_cons,
        List.intercalate_cons_cons] at ih ⊢
      rw [ih]
    | cons g before =>
      simp only [List.cons_append, List.map_cons, List.intercalate_cons_cons] at ih ⊢
      rw [ih]

private theorem exists_split {text : String} (h : '\u001e' ∈ text.toList) :
    ∃ l m, text = l ++ "\u001e" ++ m ∧ l ≠ text ∧ m ≠ text := by
  obtain ⟨l, m, hlist⟩ := List.append_of_mem h
  have htext : text = String.ofList l ++ "\u001e" ++ String.ofList m := by
    apply String.toList_injective
    simp [hlist]
  have hlen := congrArg List.length hlist
  simp only [String.length_toList, List.length_append, List.length_cons] at hlen
  refine ⟨String.ofList l, String.ofList m, htext, fun heq => ?_, fun heq => ?_⟩
  · have hl : l.length = text.length := by rw [← heq, String.length_ofList]
    omega
  · have hm : m.length = text.length := by rw [← heq, String.length_ofList]
    omega

private theorem record_resplit {a b : AuditLog} {seq : ℤ} {p q : String} (hseq : b.seq = some seq)
    (hq : b.prevHash = some q) (before after : List String) (l m n : String)
    (ha : recordFields a seq p = before ++ (l ++ "\u001e" ++ m) :: n :: after)
    (hb : recordFields b seq q = before ++ l :: (m ++ "\u001e" ++ n) :: after) :
    canonicalAuditBytes b = .ok (joinRecordFields (recordFields a seq p)) := by
  rw [ha, joinRecordFields_resplit, ← hb]
  simp only [canonicalAuditBytes, hseq, hq]

private theorem record_resplit_left {a b : AuditLog} {seq : ℤ} {p q : String}
    (hseq : b.seq = some seq) (hq : b.prevHash = some q) (before after : List String)
    (l m n : String) (ha : recordFields a seq p = before ++ n :: (l ++ "\u001e" ++ m) :: after)
    (hb : recordFields b seq q = before ++ (n ++ "\u001e" ++ l) :: m :: after) :
    canonicalAuditBytes b = .ok (joinRecordFields (recordFields a seq p)) := by
  rw [ha, ← joinRecordFields_resplit, ← hb]
  simp only [canonicalAuditBytes, hseq, hq]

/-- Where a text contains the separator, another entry has the same record. -/
theorem exists_collision {a : AuditLog} {bytes : List UInt8}
    (ha : canonicalAuditBytes a = .ok bytes) (h : ¬ SeparatorFree a) :
    ∃ b, canonicalAuditBytes b = .ok bytes ∧ ¬ Committed a b := by
  obtain ⟨seq, prevHash, hseq, hprev, rfl⟩ := canonicalAuditBytes_eq_ok ha
  clear ha
  simp only [SeparatorFree, freeTexts, hprev, Option.getD_some, not_forall, Decidable.not_not,
    exists_prop, List.mem_cons, List.not_mem_nil, or_false] at h
  obtain ⟨text, hfield, hmem⟩ := h
  obtain ⟨l, m, htext, hl, hm⟩ := exists_split hmem
  clear hmem
  -- The part after the separator moves to the next field, or the part before it to the previous.
  rcases hfield with rfl | rfl | rfl | rfl | rfl | rfl | rfl | rfl
  · refine ⟨{ a with prevHash := some l, id := m ++ "\u001e" ++ a.id }, ?_, fun hsame => ?_⟩
    · exact record_resplit hseq rfl ((recordFields a seq text).take 1)
        ((recordFields a seq text).drop 3) l m a.id (by rw [← htext]; rfl) rfl
    · exact hl (Option.some.inj (hprev.symm.trans hsame.prevHash)).symm
  · refine ⟨{ a with id := l, userId := some (m ++ "\u001e" ++ a.userId.getD "") }, ?_,
      fun hsame => ?_⟩
    · exact record_resplit hseq hprev ((recordFields a seq prevHash).take 2)
        ((recordFields a seq prevHash).drop 4) l m (a.userId.getD "") (by rw [← htext]; rfl) rfl
    · exact hl hsame.id.symm
  · refine ⟨{ a with userId := some l, eventType := m ++ "\u001e" ++ a.eventType }, ?_,
      fun hsame => ?_⟩
    · exact record_resplit hseq hprev ((recordFields a seq prevHash).take 3)
        ((recordFields a seq prevHash).drop 5) l m a.eventType (by rw [← htext]; rfl) rfl
    · exact hl hsame.userId.symm
  · refine ⟨{ a with userId := some (a.userId.getD "" ++ "\u001e" ++ l), eventType := m }, ?_,
      fun hsame => ?_⟩
    · exact record_resplit_left hseq hprev ((recordFields a seq prevHash).take 3)
        ((recordFields a seq prevHash).drop 5) l m (a.userId.getD "") (by rw [← htext]; rfl) rfl
    · exact hm hsame.eventType.symm
  · refine ⟨{ a with ipAddress := some l, userAgent := some (m ++ "\u001e" ++ a.userAgent.getD "") },
      ?_, fun hsame => ?_⟩
    · exact record_resplit hseq hprev ((recordFields a seq prevHash).take 6)
        ((recordFields a seq prevHash).drop 8) l m (a.userAgent.getD "") (by rw [← htext]; rfl) rfl
    · exact hl hsame.ipAddress.symm
  · refine ⟨{ a with userAgent := some l, apiKeyId := some (m ++ "\u001e" ++ a.apiKeyId.getD "") },
      ?_, fun hsame => ?_⟩
    · exact record_resplit hseq hprev ((recordFields a seq prevHash).take 7)
        ((recordFields a seq prevHash).drop 9) l m (a.apiKeyId.getD "") (by rw [← htext]; rfl) rfl
    · exact hl hsame.userAgent.symm
  · refine ⟨{ a with apiKeyId := some l, apiKeyName := some (m ++ "\u001e" ++ a.apiKeyName.getD "") },
      ?_, fun hsame => ?_⟩
    · exact record_resplit hseq hprev ((recordFields a seq prevHash).take 8)
        ((recordFields a seq prevHash).drop 10) l m (a.apiKeyName.getD "") (by rw [← htext]; rfl) rfl
    · exact hl hsame.apiKeyId.symm
  · refine ⟨{ a with apiKeyId := some (a.apiKeyId.getD "" ++ "\u001e" ++ l), apiKeyName := some m },
      ?_, fun hsame => ?_⟩
    · exact record_resplit_left hseq hprev ((recordFields a seq prevHash).take 8)
        ((recordFields a seq prevHash).drop 10) l m (a.apiKeyId.getD "") (by rw [← htext]; rfl) rfl
    · exact hm hsame.apiKeyName.symm

theorem computeEntryHash_eq_iff {hmac : List UInt8 → String} (hfree : Function.Injective hmac)
    {a b : AuditLog} {bytes : List UInt8} (ha : canonicalAuditBytes a = .ok bytes) :
    computeEntryHash hmac b = computeEntryHash hmac a ↔ canonicalAuditBytes b = .ok bytes := by
  unfold computeEntryHash
  rw [ha]
  constructor
  · intro h
    cases hb : canonicalAuditBytes b with
    | error e =>
      rw [hb] at h
      cases h
    | ok bytes' =>
      rw [hb] at h
      rw [hfree (Except.ok.inj h)]
  · intro hb
    rw [hb]

/-- The record of an entry, and with a collision-free hash its hash, covers the
committed fields if and only if no text of the entry contains the separator. -/
theorem audit_hash_covers_iff {a : AuditLog} {bytes : List UInt8}
    (ha : canonicalAuditBytes a = .ok bytes) :
    ((∀ b, canonicalAuditBytes b = .ok bytes → Committed a b) ↔ SeparatorFree a) ∧
      ∀ hmac : List UInt8 → String, Function.Injective hmac →
        ((∀ b, computeEntryHash hmac b = computeEntryHash hmac a → Committed a b) ↔
          SeparatorFree a) := by
  have hcovers : (∀ b, canonicalAuditBytes b = .ok bytes → Committed a b) ↔ SeparatorFree a := by
    constructor
    · intro hall
      by_contra hclean
      obtain ⟨b, hb, hdiffers⟩ := exists_collision ha hclean
      exact hdiffers (hall b hb)
    · exact fun hclean b hb => committed_of_separatorFree hclean ha hb
  refine ⟨hcovers, fun hmac hfree => ?_⟩
  simp only [computeEntryHash_eq_iff hfree ha]
  exact hcovers

/-- A request with an API key; the name of the key can hold any character. -/
def requestEntry (apiKeyId apiKeyName : String) : AuditLog where
  id := "entry"
  userId := none
  eventType := "proxy_request"
  eventData := none
  ipAddress := none
  userAgent := some "curl"
  apiKeyId := some apiKeyId
  apiKeyName := some apiKeyName
  createdAt := 0
  seq := some 1
  prevHash := some genesisPrevHash
  entryHash := none

/-- The committed fields of a plain request are those of any entry with its bytes. -/
theorem plain_request_covered :
    Committed (requestEntry "key" "laptop")
      { requestEntry "key" "laptop" with entryHash := some "0000" } :=
  (audit_hash_covers_iff (a := requestEntry "key" "laptop") rfl).1.mpr (by
    unfold SeparatorFree
    decide) _ rfl

/-- A separator in the name of the API key hides a change of the key. -/
theorem separator_hides_tampering : ¬ ∀ a b : AuditLog, ∀ bytes,
    canonicalAuditBytes a = .ok bytes → canonicalAuditBytes b = .ok bytes → Committed a b := by
  intro hclaim
  have hsame := hclaim (requestEntry "key" "a\u001eb") (requestEntry "key\u001ea" "b")
    _ rfl (by decide)
  exact absurd hsame.apiKeyId (by decide)

end NyxId.AuditChain
