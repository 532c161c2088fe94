import NyxId.LedgerChain.Model

/-!
What the hash of a ledger entry covers. The three record formats are disjoint, and in
each of them the length of every field stands before it, so equal bytes come from
equal committed fields.
-/

namespace NyxId.LedgerChain

open Encoding

inductive RecordFormat where
  | legacy
  | extended
  | accountingV2
  deriving DecidableEq

def BillingLedgerEntry.format (entry : BillingLedgerEntry) : RecordFormat :=
  if entry.eventType = .accountingV2 then .accountingV2
  else if entry.eventType.usesExtendedEncoding then .extended
  else .legacy

/-- The texts that the record of an entry is made of. -/
def BillingLedgerEntry.texts (entry : BillingLedgerEntry) : List String :=
  if entry.eventType = .accountingV2 then accountingTexts entry else eventTexts entry

/-- A length is a machine word: no text has 2^64 bytes. -/
def BillingLedgerEntry.Representable (entry : BillingLedgerEntry) : Prop :=
  ∀ text ∈ entry.texts, text.utf8ByteSize < 2 ^ 64

/-- One format and agreement on every field that it commits to. -/
structure SameRecord (a b : BillingLedgerEntry) : Prop where
  format : a.format = b.format
  seq : a.seq = b.seq
  prevHash : a.prevHash = b.prevHash
  id : a.id = b.id
  eventType : a.eventType = b.eventType
  ownerId : a.ownerId = b.ownerId
  referenceId : a.referenceId = b.referenceId
  transactionId : a.transactionId.getD "" = b.transactionId.getD ""
  layer : a.layer = b.layer
  metric : a.metric = b.metric
  serviceSlug : a.serviceSlug.getD "" = b.serviceSlug.getD ""
  model : a.model.getD "" = b.model.getD ""
  quantity : a.quantity = b.quantity
  amountCredits : a.amountCredits = b.amountCredits
  balanceCredits : a.balanceCredits = b.balanceCredits
  dedupeKey : a.dedupeKey.getD "" = b.dedupeKey.getD ""
  walletId : a.walletId.getD "" = b.walletId.getD ""
  createdAt : timestampMillis a.createdAt = timestampMillis b.createdAt
  amountMicros : a.format ≠ .legacy → a.amountMicros = b.amountMicros
  movement : a.format = .accountingV2 → a.movement.getD "" = b.movement.getD ""
  postings : a.format = .accountingV2 → a.postings = b.postings

theorem asTransactionSuffix_injective {a b : BillingLayer}
    (h : a.asTransactionSuffix = b.asTransactionSuffix) : a = b := by
  revert h
  cases a <;> cases b <;> decide

theorem metric_asStr_injective {a b : BillingMetric} (h : a.asStr = b.asStr) : a = b := by
  revert h
  cases a <;> cases b <;> decide

theorem eventType_asStr_injective {a b : BillingLedgerEventType} (h : a.asStr = b.asStr) :
    a = b := by
  revert h
  cases a <;> cases b <;> decide

theorem side_asStr_injective {a b : PostingSide} (h : a.asStr = b.asStr) : a = b := by
  revert h
  cases a <;> cases b <;> decide

/-- Values whose texts are never empty are told apart from an absent value. -/
theorem orEmpty_injective {α : Type} {text : α → String} (hne : ∀ a, text a ≠ "")
    (hinj : ∀ {a b : α}, text a = text b → a = b) {x y : Option α}
    (h : orEmpty text x = orEmpty text y) : x = y := by
  cases x with
  | none =>
    cases y with
    | none => rfl
    | some b => exact absurd h.symm (hne b)
  | some a =>
    cases y with
    | none => exact absurd h (hne a)
    | some b => exact congrArg some (hinj h)

private theorem layer_eq {x y : Option BillingLayer}
    (h : orEmpty BillingLayer.asTransactionSuffix x = orEmpty BillingLayer.asTransactionSuffix y) :
    x = y :=
  orEmpty_injective (fun a => by cases a <;> decide) asTransactionSuffix_injective h

private theorem metric_eq {x y : Option BillingMetric}
    (h : orEmpty BillingMetric.asStr x = orEmpty BillingMetric.asStr y) : x = y :=
  orEmpty_injective (fun a => by cases a <;> decide) metric_asStr_injective h

private theorem decimal_eq {x y : Option ℤ} (h : orEmpty decimal x = orEmpty decimal y) : x = y :=
  orEmpty_injective decimal_ne_empty decimal_injective h

theorem flatMap_postingTexts_injective {ps qs : List BillingPosting}
    (h : ps.flatMap postingTexts = qs.flatMap postingTexts) : ps = qs := by
  induction ps generalizing qs with
  | nil =>
    cases qs with
    | nil => rfl
    | cons q qs => simp [postingTexts] at h
  | cons p ps ih =>
    cases qs with
    | nil => simp [postingTexts] at h
    | cons q qs =>
      simp only [List.flatMap_cons, postingTexts, List.cons_append, List.nil_append,
        List.cons.injEq] at h
      obtain ⟨haccount, hside, hamount, hrest⟩ := h
      obtain ⟨account, side, amount⟩ := p
      obtain ⟨account', side', amount'⟩ := q
      obtain rfl : account = account' := haccount
      obtain rfl : side = side' := side_asStr_injective hside
      obtain rfl : amount = amount' := Credits.display_injective hamount
      rw [ih hrest]

theorem map_utf8_injective {xs ys : List String} (h : xs.map utf8 = ys.map utf8) : xs = ys :=
  (List.map_injective_iff.mpr fun _ _ hs => utf8_injective hs) h

private theorem lengths_lt {texts : List String} (h : ∀ text ∈ texts, text.utf8ByteSize < 2 ^ 64) :
    ∀ field ∈ texts.map utf8, field.length < 256 ^ 8 := by
  intro field hfield
  obtain ⟨text, htext, rfl⟩ := List.mem_map.mp hfield
  rw [length_utf8]
  exact h text htext

private theorem accounting_inj {xs ys : List String}
    (hxs : ∀ text ∈ xs, text.utf8ByteSize < 2 ^ 64) (hys : ∀ text ∈ ys, text.utf8ByteSize < 2 ^ 64)
    (h : (xs.flatMap fun field => framed (beBytes 8) (utf8 field)) =
      ys.flatMap fun field => framed (beBytes 8) (utf8 field)) : xs = ys := by
  have hmap : ∀ texts : List String, (texts.flatMap fun field => framed (beBytes 8) (utf8 field)) =
      (texts.map utf8).flatMap (framed (beBytes 8)) := by
    intro texts
    rw [List.flatMap_map]
  rw [hmap, hmap] at h
  have hne : ∀ n, beBytes 8 n ≠ [] := by
    intro n hnil
    have hlen := length_beBytes 8 n
    rw [hnil] at hlen
    cases hlen
  exact map_utf8_injective (flatMap_framed_inj (selfDelimiting_beBytes 8) hne (lengths_lt hxs)
    (lengths_lt hys) h)

private theorem joined_inj {xs ys : List String}
    (hxs : ∀ text ∈ xs, text.utf8ByteSize < 2 ^ 64) (hys : ∀ text ∈ ys, text.utf8ByteSize < 2 ^ 64)
    (hne : xs ≠ []) (hne' : ys ≠ []) (h : joinRecordFields xs = joinRecordFields ys) : xs = ys := by
  have hmap : ∀ texts : List String, (texts.map fun field => framed lengthHeader (utf8 field)) =
      (texts.map utf8).map (framed lengthHeader) := by
    intro texts
    rw [List.map_map]
    rfl
  unfold joinRecordFields at h
  rw [hmap, hmap] at h
  exact map_utf8_injective (intercalate_framed_inj (selfDelimiting_lengthHeader _) (lengths_lt hxs)
    (lengths_lt hys) (by simpa using hne) (by simpa using hne') h)

/-- A joined record starts with a digit, so the version marker never starts one. -/
private theorem joined_ne_marked {field : String} (fields : List String) (rest : List UInt8) :
    joinRecordFields (field :: fields) ≠ utf8 "nyxid:billing-ledger:v2\u0000" ++ rest := by
  obtain ⟨byte, header, hheader, hlo, hhi⟩ := lengthHeader_head (utf8 field).length
  obtain ⟨tail, hjoined⟩ : ∃ tail, joinRecordFields (field :: fields) = byte :: tail := by
    cases fields with
    | nil => exact ⟨_, by simp only [joinRecordFields, List.map_cons, List.map_nil,
        List.intercalate_singleton, framed, hheader, List.cons_append]; rfl⟩
    | cons next fields => exact ⟨_, by simp only [joinRecordFields, List.map_cons,
        List.intercalate_cons_cons, framed, hheader, List.cons_append]; rfl⟩
  have hmarker : utf8 "nyxid:billing-ledger:v2\u0000" =
      110 :: (utf8 "nyxid:billing-ledger:v2\u0000").tail := by decide
  rw [hjoined, hmarker]
  intro h
  obtain ⟨rfl, -⟩ := List.cons.inj h
  revert hhi
  decide

theorem accountingTexts_same {a b : BillingLedgerEntry} (ha : a.eventType = .accountingV2)
    (hb : b.eventType = .accountingV2) (h : accountingTexts a = accountingTexts b) :
    SameRecord a b := by
  have hformat : a.format = .accountingV2 ∧ b.format = .accountingV2 := by
    simp [BillingLedgerEntry.format, ha, hb]
  simp only [accountingTexts, List.cons_append, List.nil_append, List.cons.injEq] at h
  obtain ⟨hseq, hprev, hid, howner, href, hmovement, htransaction, hlayer, hmetric, hslug, hmodel,
    hquantity, hcredits, hmicros, hbalance, hdedupe, hwallet, htime, -, hpostings⟩ := h
  exact ⟨by rw [hformat.1, hformat.2], decimal_injective hseq, hprev, hid, by rw [ha, hb], howner,
    href, htransaction, layer_eq hlayer, metric_eq hmetric, hslug, hmodel, decimal_eq hquantity,
    decimal_eq hcredits, decimal_eq hbalance, hdedupe, hwallet, decimal_injective htime,
    fun _ => decimal_eq hmicros, fun _ => hmovement,
    fun _ => flatMap_postingTexts_injective hpostings⟩

theorem eventTexts_same {a b : BillingLedgerEntry} (ha : a.eventType ≠ .accountingV2)
    (h : eventTexts a = eventTexts b) : SameRecord a b := by
  simp only [eventTexts, List.cons_append, List.nil_append, List.cons.injEq] at h
  obtain ⟨hseq, hprev, hid, htype, howner, href, htransaction, hlayer, hmetric, hslug, hmodel,
    hquantity, hcredits, hbalance, hdedupe, hwallet, htime, hextension⟩ := h
  have hsame := eventType_asStr_injective htype
  have hformat : a.format = b.format := by simp only [BillingLedgerEntry.format, hsame]
  have hold : a.format ≠ .accountingV2 := by
    unfold BillingLedgerEntry.format
    rw [if_neg ha]
    split <;> decide
  refine ⟨hformat, decimal_injective hseq, hprev, hid, hsame, howner, href, htransaction,
    layer_eq hlayer, metric_eq hmetric, hslug, hmodel, decimal_eq hquantity, decimal_eq hcredits,
    decimal_eq hbalance, hdedupe, hwallet, decimal_injective htime, fun hextended => ?_,
    fun hv2 => absurd hv2 hold, fun hv2 => absurd hv2 hold⟩
  have huses : a.eventType.usesExtendedEncoding = true := by
    by_contra hlegacy
    exact hextended (by simp [BillingLedgerEntry.format, ha, hlegacy])
  rw [← hsame, huses, if_pos rfl, if_pos rfl] at hextension
  exact decimal_eq (List.cons.inj hextension).1

/-- Entries with one record have one format and the same committed fields, whatever
their texts contain. -/
theorem ledger_record_covers {a b : BillingLedgerEntry} (ha : a.Representable)
    (hb : b.Representable) (h : canonicalEntryBytes a = canonicalEntryBytes b) :
    SameRecord a b := by
  unfold BillingLedgerEntry.Representable BillingLedgerEntry.texts at ha hb
  unfold canonicalEntryBytes at h
  by_cases hva : a.eventType = .accountingV2 <;> by_cases hvb : b.eventType = .accountingV2
  · rw [if_pos hva] at ha h
    rw [if_pos hvb] at hb h
    exact accountingTexts_same hva hvb (accounting_inj ha hb (List.append_cancel_left h))
  · rw [if_pos hva, if_neg hvb] at h
    exact absurd h.symm (joined_ne_marked _ _)
  · rw [if_neg hva, if_pos hvb] at h
    exact absurd h (joined_ne_marked _ _)
  · rw [if_neg hva] at ha h
    rw [if_neg hvb] at hb h
    exact eventTexts_same hva (joined_inj ha hb (List.cons_ne_nil _ _) (List.cons_ne_nil _ _) h)

/-- A charge of one credit, posted to a wallet. -/
def usageEntry (eventType : BillingLedgerEventType) (model : Option String) :
    BillingLedgerEntry where
  id := "entry"
  seq := 1
  prevHash := genesisPrevHash
  entryHash := ""
  eventType := eventType
  movement := some "usage_settled"
  postings := [⟨"usage:row", .debit, ⟨1000000000000, by decide⟩⟩,
    ⟨"wallet:owner", .credit, ⟨1000000000000, by decide⟩⟩]
  ownerId := "owner"
  referenceId := "row"
  transactionId := none
  layer := some .platform
  metric := some .tokens
  serviceSlug := some "llm"
  model := model
  quantity := some 100
  amountCredits := none
  amountMicros := none
  balanceCredits := none
  dedupeKey := some "usage-settled:row"
  walletId := none
  createdAt := 0

/-- An absent model and an empty one have the same record. -/
theorem absent_model_same_record :
    SameRecord (usageEntry .accountingV2 none) (usageEntry .accountingV2 (some "")) := by
  refine ledger_record_covers ?_ ?_ rfl
  · unfold BillingLedgerEntry.Representable
    decide
  · unfold BillingLedgerEntry.Representable
    decide

end NyxId.LedgerChain
