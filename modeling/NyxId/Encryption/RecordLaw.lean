import NyxId.Encryption.Model

/-!
An envelope is accepted under a context only as `encrypt_record` made it under that context.
-/

namespace NyxId.Encryption

open Encoding

theorem flatMap_component_append_inj {fs gs : List Bytes} {r s : Bytes}
    (hlen : fs.length = gs.length) (hfs : ∀ f ∈ fs, f.length < 256 ^ 4)
    (hgs : ∀ g ∈ gs, g.length < 256 ^ 4)
    (h : fs.flatMap component ++ r = gs.flatMap component ++ s) : fs = gs ∧ r = s := by
  induction fs generalizing gs with
  | nil =>
    obtain rfl := List.length_eq_zero_iff.mp hlen.symm
    exact ⟨rfl, h⟩
  | cons f fs ih =>
    obtain ⟨g, gs, rfl⟩ := List.exists_cons_of_length_eq_add_one hlen.symm
    simp only [List.flatMap_cons, List.append_assoc] at h
    obtain ⟨rfl, hrest⟩ := framed_append_inj (selfDelimiting_beBytes 4) (hfs f List.mem_cons_self)
      (hgs g List.mem_cons_self) h
    obtain ⟨rfl, htail⟩ := ih (Nat.succ.inj hlen) (fun l hl => hfs l (List.mem_cons_of_mem _ hl))
      (fun l hl => hgs l (List.mem_cons_of_mem _ hl)) hrest
    exact ⟨rfl, htail⟩

/-- The components are short enough for their lengths to be written in full. -/
structure Short (context : RecordContext) : Prop where
  identity : ∀ part ∈ [context.collection, context.recordId, context.ownerId],
    (utf8 part).length < 256 ^ 4
  count : context.field.length < 256 ^ 4
  field : ∀ part ∈ context.field, (utf8 part).length < 256 ^ 4

theorem RecordContext.short (context : RecordContext) : Short context := by
  have h := context.accepted
  unfold acceptedContext at h
  simp only [Bool.not_eq_true', Bool.or_eq_false_iff, decide_eq_false_iff_not, not_lt,
    List.any_eq_false, Bool.not_eq_true] at h
  obtain ⟨⟨⟨⟨⟨⟨⟨⟨⟨-, hcollection⟩, -⟩, -⟩, hrecord⟩, -⟩, howner⟩, -⟩, hcount⟩, hfield⟩ := h
  refine ⟨fun part hpart => ?_, by omega, fun part hpart => ?_⟩
  · simp only [List.mem_cons, List.not_mem_nil, or_false] at hpart
    rcases hpart with rfl | rfl | rfl <;> omega
  · have hle := (hfield part hpart).2
    omega

theorem short_map {parts : List String} (h : ∀ part ∈ parts, (utf8 part).length < 256 ^ 4) :
    ∀ f ∈ parts.map utf8, f.length < 256 ^ 4 := by
  intro f hf
  obtain ⟨part, hpart, rfl⟩ := List.mem_map.mp hf
  exact h part hpart

/-- Different contexts or headers are authenticated as different bytes. -/
theorem authenticatedBytes_inj {context context' : RecordContext} {header header' : Bytes}
    (hheader : header.length < 256 ^ 4) (hheader' : header'.length < 256 ^ 4)
    (h : context.authenticatedBytes header = context'.authenticatedBytes header') :
    context = context' ∧ header = header' := by
  have hshort := context.short
  have hshort' := context'.short
  have hmap (parts : List String) : (parts.flatMap fun part => component (utf8 part)) =
      (parts.map utf8).flatMap component := by
    rw [List.flatMap_map]
  unfold RecordContext.authenticatedBytes at h
  rw [hmap, hmap, hmap, hmap] at h
  simp only [List.append_assoc] at h
  have hbytes := List.append_cancel_left h
  have hthree : ([context.collection, context.recordId, context.ownerId].map utf8).length =
      ([context'.collection, context'.recordId, context'.ownerId].map utf8).length := rfl
  obtain ⟨hidentity, hrest⟩ := flatMap_component_append_inj hthree
    (short_map hshort.identity) (short_map hshort'.identity) hbytes
  obtain ⟨hcount, hrest⟩ := selfDelimiting_beBytes 4 _ _ _ _ hshort.count hshort'.count hrest
  obtain ⟨hfield, hrest⟩ := flatMap_component_append_inj (by simpa using hcount)
    (short_map hshort.field) (short_map hshort'.field) hrest
  have hsame := framed_append_inj (r := []) (s := []) (selfDelimiting_beBytes 4) hheader hheader'
    (by simpa [component] using hrest)
  simp only [List.map_cons, List.map_nil, List.cons.injEq, and_true] at hidentity
  refine ⟨RecordContext.ext (utf8_injective hidentity.1) (utf8_injective hidentity.2.1)
    (utf8_injective hidentity.2.2) ?_, hsame.1⟩
  exact List.map_injective_iff.mpr (fun _ _ => utf8_injective) hfield

variable {aead : Aead} {keys : EncryptionKeys} {context : RecordContext}

/-- What `encrypt_record` returns when it does. -/
structure Encrypted (aead : Aead) (keys : EncryptionKeys) (plaintext : Bytes)
    (context : RecordContext) (dek random nonce envelope : Bytes) (wrapped : WrappedKey)
    (sealed_ : Bytes) : Prop where
  wrap : keys.provider.wrapDek random dek = .ok wrapped
  size : 0 < wrapped.ciphertext.length ∧ wrapped.ciphertext.length ≤ maxWrappedDekSize
  encrypt : aead.encrypt dek nonce (context.authenticatedBytes (recordHeader wrapped)) plaintext =
    .ok sealed_
  envelope : envelope = recordHeader wrapped ++ nonce ++ sealed_

theorem encryptRecord_ok {plaintext dek random nonce envelope : Bytes}
    (h : encryptRecord aead keys plaintext context dek random nonce = .ok envelope) :
    ∃ wrapped sealed_,
      Encrypted aead keys plaintext context dek random nonce envelope wrapped sealed_ := by
  unfold encryptRecord at h
  split at h
  · cases h
  split at h
  · cases h
  rename_i wrapped hwrap
  split at h
  · cases h
  rename_i hsize
  dsimp only at h
  split at h
  · cases h
  rename_i sealed_ hsealed
  rw [not_or, not_lt] at hsize
  exact ⟨wrapped, sealed_, hwrap, ⟨List.length_pos_iff.mpr hsize.1, hsize.2⟩, hsealed,
    (Except.ok.inj h).symm⟩

theorem length_recordHeader (wrapped : WrappedKey) :
    (recordHeader wrapped).length = recordFixedHeader + wrapped.ciphertext.length := by
  unfold recordHeader recordMagic recordFixedHeader
  simp only [List.length_append, List.length_cons, List.length_nil, length_beBytes]

/-- A header, then 12 bytes of nonce, then at least a tag. -/
structure Parsed (ciphertext : Bytes) (wrapped : WrappedKey) (nonce sealed_ : Bytes) : Prop where
  size : 0 < wrapped.ciphertext.length ∧ wrapped.ciphertext.length ≤ maxWrappedDekSize
  bytes : ciphertext = recordHeader wrapped ++ nonce ++ sealed_
  nonceSize : nonce.length = nonceSize

theorem beBytes_two (a b : UInt8) : beBytes 2 (a.toNat * 256 + b.toNat) = [a, b] := by
  have ha := a.toNat_lt
  have hb := b.toNat_lt
  have hhigh : (a.toNat * 256 + b.toNat) / 256 = a.toNat := by omega
  have hlow : (a.toNat * 256 + b.toNat) % 256 = b.toNat := by omega
  have hmod : a.toNat % 256 = a.toNat := by omega
  simp [beBytes, hhigh, hlow, hmod]

/-- What a string parses to is what it is made of. -/
theorem parsed_of_bytes {ciphertext : Bytes} {wrappedLen : ℕ}
    (hmagic : isRecordEnvelope ciphertext = true) (hlen : recordFixedHeader ≤ ciphertext.length)
    (hwrapped : wrappedLen = (ciphertext.getD 5 0).toNat * 256 + (ciphertext.getD 6 0).toNat)
    (hsize : 0 < wrappedLen ∧ wrappedLen ≤ maxWrappedDekSize)
    (hrest : recordFixedHeader + wrappedLen + nonceSize ≤ ciphertext.length) :
    Parsed ciphertext
      ⟨ciphertext.getD 4 0, (ciphertext.take (recordFixedHeader + wrappedLen)).drop recordFixedHeader⟩
      ((ciphertext.drop (recordFixedHeader + wrappedLen)).take nonceSize)
      ((ciphertext.drop (recordFixedHeader + wrappedLen)).drop nonceSize) ∧
    ciphertext.take (recordFixedHeader + wrappedLen) = recordHeader
      ⟨ciphertext.getD 4 0, (ciphertext.take (recordFixedHeader + wrappedLen)).drop recordFixedHeader⟩ := by
  obtain ⟨rest, rfl⟩ := List.isPrefixOf_iff_prefix.mp hmagic
  have hmagicLen : recordMagic.length = 4 := rfl
  unfold recordFixedHeader at hlen hrest ⊢
  rw [List.length_append, hmagicLen] at hlen hrest
  have hrestLen : 3 ≤ rest.length := by omega
  obtain ⟨keyId, rest, rfl⟩ := List.exists_cons_of_length_pos (by omega : 0 < rest.length)
  obtain ⟨high, rest, rfl⟩ := List.exists_cons_of_length_pos (by
    simp only [List.length_cons] at hrestLen
    omega : 0 < rest.length)
  obtain ⟨low, rest, rfl⟩ := List.exists_cons_of_length_pos (by
    simp only [List.length_cons] at hrestLen
    omega : 0 < rest.length)
  have hbytes : wrappedLen = high.toNat * 256 + low.toNat := hwrapped
  have hrestSize : wrappedLen + nonceSize ≤ rest.length := by
    simp only [List.length_cons] at hrest
    omega
  have htake : (recordMagic ++ keyId :: high :: low :: rest).take (7 + wrappedLen) =
      recordMagic ++ keyId :: high :: low :: rest.take wrappedLen := by
    rw [Nat.add_comm]
    rfl
  have hdrop : (recordMagic ++ keyId :: high :: low :: rest).drop (7 + wrappedLen) =
      rest.drop wrappedLen := by
    rw [Nat.add_comm]
    rfl
  have hlength : (rest.take wrappedLen).length = wrappedLen := by
    rw [List.length_take]
    omega
  have hheader : recordMagic ++ keyId :: high :: low :: rest.take wrappedLen =
      recordHeader ⟨keyId, rest.take wrappedLen⟩ := by
    unfold recordHeader
    dsimp only
    rw [hlength, hbytes, beBytes_two]
    rfl
  rw [htake, hdrop]
  have hcipher : (recordMagic ++ keyId :: high :: low :: rest.take wrappedLen).drop 7 =
      rest.take wrappedLen := rfl
  have hkey : (recordMagic ++ keyId :: high :: low :: rest).getD 4 0 = keyId := rfl
  rw [hcipher, hkey]
  refine ⟨⟨?_, ?_, ?_⟩, hheader⟩
  · dsimp only
    rw [hlength]
    exact hsize
  · rw [← hheader, List.append_assoc, List.take_append_drop]
    simp
  · rw [List.length_take, List.length_drop]
    omega

theorem getD_five_six {n : ℕ} (hn : n ≤ maxWrappedDekSize) :
    ∃ high low : UInt8, beBytes 2 n = [high, low] ∧ high.toNat * 256 + low.toNat = n := by
  unfold maxWrappedDekSize at hn
  refine ⟨UInt8.ofNat (n / 256), UInt8.ofNat (n % 256), ?_, ?_⟩
  · have hhigh : n / 256 % 256 = n / 256 := by omega
    simp [beBytes, hhigh]
  · rw [UInt8.toNat_ofNat', UInt8.toNat_ofNat']
    omega

/-- Decryption of what parses as an envelope, once its DEK is unwrapped. -/
theorem decryptRecord_parsed {ciphertext nonce sealed_ dek : Bytes} {wrapped : WrappedKey}
    (h : Parsed ciphertext wrapped nonce sealed_) (htag : tagSize ≤ sealed_.length)
    (hunwrap : unwrapRecord keys wrapped false = .ok dek) (hdek : dek.length = 32) :
    decryptRecord aead keys ciphertext context =
      (aead.decrypt dek nonce (context.authenticatedBytes (recordHeader wrapped)) sealed_).mapError
        fun _ => invalidRecord := by
  obtain ⟨hsize, hbytes, hnonce⟩ := h
  obtain ⟨high, low, htwo, hsum⟩ := getD_five_six hsize.2
  have hheader : recordHeader wrapped =
      recordMagic ++ wrapped.keyId :: high :: low :: wrapped.ciphertext := by
    unfold recordHeader
    rw [htwo]
    rfl
  have hlength := length_recordHeader wrapped
  have htake : ciphertext.take (recordFixedHeader + wrapped.ciphertext.length) = recordHeader wrapped := by
    rw [hbytes, List.append_assoc, ← hlength, List.take_left]
  have hdrop : ciphertext.drop (recordFixedHeader + wrapped.ciphertext.length) = nonce ++ sealed_ := by
    rw [hbytes, List.append_assoc, ← hlength, List.drop_left]
  have htotal : ciphertext.length =
      recordFixedHeader + wrapped.ciphertext.length + nonceSize + sealed_.length := by
    rw [hbytes, List.length_append, List.length_append, hlength, hnonce]
  have hmagic : isRecordEnvelope ciphertext = true := by
    rw [hbytes, hheader]
    rfl
  have hkey : ciphertext.getD 4 0 = wrapped.keyId := by
    rw [hbytes, hheader]
    rfl
  have hlen : (ciphertext.getD 5 0).toNat * 256 + (ciphertext.getD 6 0).toNat =
      wrapped.ciphertext.length := by
    rw [hbytes, hheader, ← hsum]
    rfl
  have hcipher : (recordHeader wrapped).drop recordFixedHeader = wrapped.ciphertext := by
    rw [hheader]
    rfl
  unfold decryptRecord decryptRecordWithPolicy
  dsimp only
  rw [hmagic, hkey, hlen, htake, hdrop, hcipher, ← hnonce, List.take_left, List.drop_left]
  have hshort : ¬ciphertext.length < recordFixedHeader := by omega
  have hwrapped : ¬(wrapped.ciphertext.length = 0 ∨ maxWrappedDekSize < wrapped.ciphertext.length) := by
    omega
  have hrest : ¬ciphertext.length < recordFixedHeader + wrapped.ciphertext.length + nonce.length +
      tagSize := by
    omega
  simp only [hshort, decide_false, Bool.not_true, Bool.or_self, Bool.false_eq_true, if_false,
    Bool.false_and, hwrapped, hrest, hunwrap]
  rw [if_neg (not_not.mpr hdek)]
  cases aead.decrypt dek nonce (context.authenticatedBytes (recordHeader wrapped)) sealed_ with
  | error e => rfl
  | ok plaintext => rfl

theorem decryptRecord_ok {ciphertext plaintext : Bytes}
    (h : decryptRecord aead keys ciphertext context = .ok plaintext) :
    ∃ wrapped dek nonce sealed_, Parsed ciphertext wrapped nonce sealed_ ∧
      aead.decrypt dek nonce (context.authenticatedBytes (recordHeader wrapped)) sealed_ =
        .ok plaintext := by
  unfold decryptRecord decryptRecordWithPolicy at h
  split at h
  · cases h
  rename_i hshape
  dsimp only at h
  split at h
  · cases h
  split at h
  · cases h
  rename_i hsize
  split at h
  · cases h
  rename_i hrest
  split at h
  · cases h
  rename_i dek hunwrap
  split at h
  · cases h
  split at h
  · cases h
  rename_i found hdecrypt
  simp only [Bool.or_eq_true, Bool.not_eq_true', decide_eq_true_eq, not_or, Bool.not_eq_false, not_lt]
    at hshape hsize hrest
  have hparsed := parsed_of_bytes hshape.1 hshape.2 rfl ⟨by omega, hsize.2⟩ (by omega)
  rw [hparsed.2] at hdecrypt
  exact ⟨_, dek, _, _, hparsed.1, (Except.ok.inj h) ▸ hdecrypt⟩

variable {Kek : Type} {Wrapped : Wrappings Kek} {primary fallback : Kek → Prop}

/-- A wrapped DEK is found while one of the two providers has the key that wrapped it. -/
theorem unwrapRecord_of_held (honce : WrapsOnce Wrapped)
    (hkeys : Configured keys primary fallback Wrapped) {kek : Kek} {dek : Bytes} {wrapped : WrappedKey}
    (hwrapped : Wrapped kek dek wrapped) (hheld : primary kek ∨ fallback kek) :
    unwrapRecord keys wrapped false = .ok dek := by
  have hfound {provider : KeyProvider} {holds : Kek → Prop} (hideal : provider.Ideal holds Wrapped)
      (hholds : holds kek) : provider.unwrapDek wrapped = .ok dek :=
    (hideal.unwraps dek wrapped).mpr ⟨kek, hholds, hwrapped⟩
  unfold unwrapRecord
  cases hprimary : keys.provider.unwrapDek wrapped with
  | ok found =>
    obtain ⟨kek', -, hother⟩ := (hkeys.provider.unwraps found wrapped).mp hprimary
    dsimp only
    rw [honce _ _ _ _ _ hother hwrapped]
  | error e =>
    have hfallback : fallback kek := by
      refine hheld.resolve_left fun hholds => ?_
      rw [hfound hkeys.provider hholds] at hprimary
      cases hprimary
    cases hother : keys.fallbackProvider with
    | none => exact absurd hfallback (hkeys.alone hother kek)
    | some provider =>
      have hideal := hkeys.other provider hother
      dsimp only
      rw [if_neg Bool.false_ne_true, if_pos (hideal.has kek dek wrapped hfallback hwrapped),
        hfound hideal hfallback]

theorem Run.parsed (run : Run aead) : ∃ wrapped sealed_,
    Encrypted aead run.keys run.plaintext run.context run.dek run.random run.nonce run.envelope
      wrapped sealed_ ∧ Parsed run.envelope wrapped run.nonce sealed_ := by
  obtain ⟨wrapped, sealed_, h⟩ := encryptRecord_ok run.returned
  exact ⟨wrapped, sealed_, h, h.size, h.envelope, run.nonceSize⟩

theorem header_short {wrapped : WrappedKey} (h : wrapped.ciphertext.length ≤ maxWrappedDekSize) :
    (recordHeader wrapped).length < 256 ^ 4 := by
  rw [length_recordHeader]
  unfold maxWrappedDekSize at h
  unfold recordFixedHeader
  omega

theorem domain_of_authenticated (context : RecordContext) (header : Bytes) :
    recordDomain <+: context.authenticatedBytes header := by
  unfold RecordContext.authenticatedBytes
  simp only [List.append_assoc]
  exact List.prefix_append _ _

/-- Only what `encrypt_record` returned under a context is accepted under it. -/
theorem run_of_accepted {Made Other : Sealings} {runs : Run aead → Prop}
    (hideal : aead.Ideal Made)
    (hmade : ∀ key nonce aad plain cipher, Made key nonce aad plain cipher ↔
      (∃ run, runs run ∧ run.Seals key nonce aad plain cipher) ∨ Other key nonce aad plain cipher)
    (hother : ∀ key nonce aad plain cipher, Other key nonce aad plain cipher → ¬recordDomain <+: aad)
    {ciphertext plaintext : Bytes}
    (h : decryptRecord aead keys ciphertext context = .ok plaintext) :
    ∃ run, runs run ∧ run.context = context ∧ run.envelope = ciphertext ∧
      run.plaintext = plaintext := by
  obtain ⟨wrapped, dek, nonce, sealed_, hparsed, hdecrypt⟩ := decryptRecord_ok h
  rcases (hmade _ _ _ _ _).mp ((hideal.opens _ _ _ _ _).mp hdecrypt) with
    ⟨run, hrun, hdek, hnonce, hplain, wrapped', hwrap, haad, hsealed⟩ | hrest
  · obtain ⟨made, cipher, hencrypted, hmadeParsed⟩ := run.parsed
    have hsame := hencrypted.wrap
    rw [hwrap] at hsame
    obtain rfl := Except.ok.inj hsame
    obtain ⟨hcontext, hheader⟩ := authenticatedBytes_inj (header_short hparsed.size.2)
      (header_short hencrypted.size.2) haad
    have hcipher := hencrypted.encrypt
    rw [hdek, hnonce, haad, hplain, hcipher] at hsealed
    obtain rfl := Except.ok.inj hsealed
    refine ⟨run, hrun, hcontext.symm, ?_, hplain.symm⟩
    rw [hencrypted.envelope, hparsed.bytes, hheader, hnonce]
  · exact absurd (domain_of_authenticated context _) (hother _ _ _ _ _ hrest)

/-- Record envelopes are bound to their record, their header and their payload. -/
theorem records_bound {Made Other : Sealings} {runs : Run aead → Prop} (hideal : aead.Ideal Made)
    (hmade : ∀ key nonce aad plain cipher, Made key nonce aad plain cipher ↔
      (∃ run, runs run ∧ run.Seals key nonce aad plain cipher) ∨ Other key nonce aad plain cipher)
    (hother : ∀ key nonce aad plain cipher, Other key nonce aad plain cipher → ¬recordDomain <+: aad)
    (honce : WrapsOnce Wrapped) (hkeys : Configured keys primary fallback Wrapped) :
    (∀ run, runs run → (∀ wrapped, run.keys.provider.wrapDek run.random run.dek = .ok wrapped →
        ∃ kek, Wrapped kek run.dek wrapped ∧ (primary kek ∨ fallback kek)) →
      decryptRecord aead keys run.envelope run.context = .ok run.plaintext ∧
      ∀ context : RecordContext, context.collection ≠ run.context.collection ∨
        context.recordId ≠ run.context.recordId ∨ context.ownerId ≠ run.context.ownerId ∨
        context.field ≠ run.context.field →
        ∃ e, decryptRecord aead keys run.envelope context = .error e) ∧
    ∀ context ciphertext, (∀ run, runs run → run.context = context → run.envelope ≠ ciphertext) →
      ∃ e, decryptRecord aead keys ciphertext context = .error e := by
  refine ⟨fun run hrun hheld => ?_, fun context ciphertext hnone => ?_⟩
  · obtain ⟨wrapped, sealed_, hencrypted, hparsed⟩ := run.parsed
    have hmadeRun : Made run.dek run.nonce (run.context.authenticatedBytes (recordHeader wrapped))
        run.plaintext sealed_ :=
      (hmade _ _ _ _ _).mpr (Or.inl
        ⟨run, hrun, rfl, rfl, rfl, wrapped, hencrypted.wrap, rfl, hencrypted.encrypt⟩)
    have htag : tagSize ≤ sealed_.length := by
      rw [hideal.size _ _ _ _ _ hmadeRun]
      exact Nat.le_add_left _ _
    obtain ⟨kek, hwrapped, hkek⟩ := hheld wrapped hencrypted.wrap
    have hunwrap := unwrapRecord_of_held honce hkeys hwrapped hkek
    constructor
    · rw [decryptRecord_parsed hparsed htag hunwrap run.dekSize,
        (hideal.opens _ _ _ _ _).mpr hmadeRun]
      rfl
    · intro context hdiffers
      have hne : context ≠ run.context := by
        rintro rfl
        simp at hdiffers
      rw [decryptRecord_parsed hparsed htag hunwrap run.dekSize]
      cases hopen : aead.decrypt run.dek run.nonce
          (context.authenticatedBytes (recordHeader wrapped)) sealed_ with
      | error e => exact ⟨_, rfl⟩
      | ok plaintext =>
        have hsame := (hideal.once _ _ _ _ _ _ _ _ _ ((hideal.opens _ _ _ _ _).mp hopen)
          hmadeRun).2.2
        exact absurd (authenticatedBytes_inj (header_short hencrypted.size.2)
          (header_short hencrypted.size.2) hsame).1 hne
  · cases haccepted : decryptRecord aead keys ciphertext context with
    | error e => exact ⟨e, rfl⟩
    | ok plaintext =>
      obtain ⟨run, hrun, hcontext, henvelope, -⟩ :=
        run_of_accepted hideal hmade hother haccepted
      exact absurd henvelope (hnone run hrun hcontext)

def recordKek : Bytes := (List.range 32).map UInt8.ofNat

def sampleDek : Bytes := (List.range 32).map fun i => UInt8.ofNat (32 + i)

def bytesFrom (start : ℕ) : Bytes := (List.range nonceSize).map fun i => UInt8.ofNat (start + i)

/-- The first byte of SHA-256 on the key. -/
def recordKeyId (_ : Bytes) : UInt8 := 99

def recordKeys : LocalKeys recordKeyId := ⟨recordKek, none, fun _ h => (nomatch h)⟩

def sampleContext : RecordContext := ⟨"nodes", "r-1", "o-1", ["secret"], by decide⟩

def sampleWrapped : Bytes :=
  [37, 203, 120, 246, 200, 177, 214, 161, 100, 139, 73, 108, 60, 62, 196, 7, 114, 114, 211, 205, 163,
    88, 102, 242, 153, 102, 195, 31, 162, 139, 72, 250, 123, 49, 195, 179, 88, 98, 6, 22, 35, 45, 200,
    191, 95, 233, 254, 110]

def sampleHeader : Bytes := recordHeader ⟨99, bytesFrom 1 ++ sampleWrapped⟩

def sampleEncrypted : Bytes :=
  [28, 249, 138, 226, 97, 146, 75, 234, 51, 180, 129, 6, 111, 25, 29, 213, 218, 153, 19, 80]

/-- The wrapping of a DEK and the encryption of a field with it. -/
def recordTable : List Sealing := [
  ⟨recordKek, bytesFrom 1, [], sampleDek, sampleWrapped⟩,
  ⟨sampleDek, bytesFrom 21, sampleContext.authenticatedBytes sampleHeader, utf8 "hush",
    sampleEncrypted⟩]

def sampleRun : Run (Aead.ofTable recordTable) where
  keys := EncryptionKeys.ofLocal (Aead.ofTable recordTable) true recordKeys
  plaintext := utf8 "hush"
  context := sampleContext
  dek := sampleDek
  random := bytesFrom 1
  nonce := bytesFrom 21
  envelope := sampleHeader ++ bytesFrom 21 ++ sampleEncrypted
  dekSize := rfl
  nonceSize := rfl
  returned := by decide

theorem recordTable_ideal : (Aead.ofTable recordTable).Ideal (MadeIn recordTable) :=
  ideal_ofTable (by decide +kernel) (by decide)

/-- The second encryption of the table is that of the field. -/
theorem recordTable_made (key nonce aad plain cipher : Bytes) :
    MadeIn recordTable key nonce aad plain cipher ↔
      (∃ run, run = sampleRun ∧ run.Seals key nonce aad plain cipher) ∨
        (⟨key, nonce, aad, plain, cipher⟩ : Sealing) =
          ⟨recordKek, bytesFrom 1, [], sampleDek, sampleWrapped⟩ := by
  have hwrap : sampleRun.keys.provider.wrapDek sampleRun.random sampleRun.dek =
      .ok ⟨99, bytesFrom 1 ++ sampleWrapped⟩ := by decide
  have hencrypt : (Aead.ofTable recordTable).encrypt sampleDek (bytesFrom 21)
      (sampleContext.authenticatedBytes sampleHeader) (utf8 "hush") = .ok sampleEncrypted := by
    decide
  constructor
  · intro h
    rcases List.mem_cons.mp h with hfirst | hrest
    · exact Or.inr hfirst
    · have hsecond := List.mem_singleton.mp hrest
      simp only [Sealing.mk.injEq] at hsecond
      obtain ⟨rfl, rfl, rfl, rfl, rfl⟩ := hsecond
      exact Or.inl ⟨sampleRun, rfl, rfl, rfl, rfl, _, hwrap, rfl, hencrypt⟩
  · rintro (⟨run, rfl, rfl, rfl, rfl, wrapped, hwrapped, rfl, hsealed⟩ | hfirst)
    · rw [hwrap] at hwrapped
      obtain rfl := Except.ok.inj hwrapped
      exact madeIn_of_encrypt hsealed
    · rw [MadeIn, hfirst]
      exact List.mem_cons_self

/-- The field is read in its record, and in no record of another id. -/
theorem sample_record_bound :
    decryptRecord (Aead.ofTable recordTable) sampleRun.keys sampleRun.envelope sampleContext =
      .ok (utf8 "hush") ∧
    ∀ context : RecordContext, context.recordId ≠ "r-1" →
      ∃ e, decryptRecord (Aead.ofTable recordTable) sampleRun.keys sampleRun.envelope context =
        .error e := by
  have hother (key nonce aad plain cipher : Bytes) : (⟨key, nonce, aad, plain, cipher⟩ : Sealing) =
      ⟨recordKek, bytesFrom 1, [], sampleDek, sampleWrapped⟩ → ¬recordDomain <+: aad := by
    intro h
    simp only [Sealing.mk.injEq] at h
    rw [h.2.2.1]
    decide
  have hbound := (records_bound recordTable_ideal recordTable_made hother
    (wrapsOnce_localWrapped recordTable_ideal)
    (LocalKeys.configured recordKeys recordTable_ideal true)).1 sampleRun rfl
      fun wrapped hwrapped => ⟨_, (localWrapped_of_wrapDek rfl hwrapped).1, Or.inl (Or.inl rfl)⟩
  exact ⟨hbound.1, fun context hid => hbound.2 context (Or.inr (Or.inl hid))⟩

end NyxId.Encryption
