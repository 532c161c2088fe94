import NyxId.Encryption.Formats
import NyxId.Encryption.Model
import NyxId.Encryption.RecordLaw
import NyxId.Outcomes

/-!
What was written in any format is read, except drafts under a key id that the other key took; and
rotation changes no data.
-/

namespace NyxId.Encryption

open Encoding Outcomes

inductive Slot where
  | current
  | previous
  deriving DecidableEq

inductive Format where
  | v2
  | v1 (slot : Slot)
  | draft (slot : Slot) (keyId : UInt8)
  | v0 (slot : Slot)
  deriving DecidableEq

/-- The legacy keys of a configuration with a current and a previous key. -/
def legacyKeys (deriveKeyId : Bytes → UInt8) (current previous : Bytes) : LegacyKeys :=
  ⟨current, deriveKeyId current, some previous, some (deriveKeyId previous)⟩

def Slot.key (current previous : Bytes) : Slot → Bytes
  | .current => current
  | .previous => previous

theorem Slot.key_current (current previous : Bytes) : Slot.current.key current previous = current :=
  rfl

theorem Slot.key_previous (current previous : Bytes) :
    Slot.previous.key current previous = previous :=
  rfl

def Slot.other : Slot → Slot
  | .current => .previous
  | .previous => .current

variable {Kek : Type}

/-- The encryptions that were made, the DEKs that were wrapped, and the keys that unwrap. -/
structure World (Kek : Type) where
  Made : Sealings
  Wrapped : Wrappings Kek
  held : Kek → Prop
  deriveKeyId : Bytes → UInt8
  current : Bytes
  previous : Bytes

/-- A payload: a nonce, then what was encrypted with it. -/
def World.Payload (world : World Kek) (key aad plaintext payload : Bytes) : Prop :=
  ∃ nonce encrypted, nonce.length = nonceSize ∧ payload = nonce ++ encrypted ∧
    world.Made key nonce aad plaintext encrypted

/-- Ciphertexts of a plaintext in a format, under one of the keys. -/
def World.Written (world : World Kek) (aad plaintext : Bytes) : Format → Bytes → Prop
  | .v2, ciphertext => ∃ kek dek wrapped payload, world.held kek ∧ world.Wrapped kek dek wrapped ∧
      wrapped.ciphertext.length ≤ maxWrappedDekSize ∧ world.Payload dek aad plaintext payload ∧
      ciphertext = v2Header wrapped ++ payload
  | .v1 slot, ciphertext => ∃ payload,
      world.Payload (slot.key world.current world.previous) aad plaintext payload ∧
      ciphertext = versionV1 :: world.deriveKeyId (slot.key world.current world.previous) :: payload
  | .draft slot keyId, ciphertext => ∃ payload,
      (keyId = draftKeyIdCurrent ∨ keyId = draftKeyIdPrevious) ∧
      world.Payload (slot.key world.current world.previous) aad plaintext payload ∧
      ciphertext = versionV1 :: keyId :: payload
  | .v0 slot, ciphertext =>
      world.Payload (slot.key world.current world.previous) aad plaintext ciphertext

/-- A draft under the derived key id of the other key. -/
def World.Shadowed (world : World Kek) : Format → Prop
  | .draft slot keyId => keyId = world.deriveKeyId (slot.other.key world.current world.previous)
  | _ => False

/-- What was made or wrapped is not also found behind the header of another format. -/
structure World.Apart (world : World Kek) : Prop where
  shifted : ∀ key aad plain payload key' aad' plain' payload', world.Payload key aad plain payload →
    world.Payload key' aad' plain' payload' → payload ≠ payload'.drop v1HeaderSize
  embedded : ∀ kek dek wrapped key aad plain payload, world.Wrapped kek dek wrapped →
    world.Payload key aad plain payload → ¬wrapped.ciphertext <+: payload.drop v2HeaderSize
  wrapped : ∀ kek dek wrapped, world.Wrapped kek dek wrapped → wrapped.ciphertext ≠ []

/-- AES-256-GCM and the wrapping of DEKs are ideal, and these are the keys of the configuration. -/
structure World.Rules (world : World Kek) (aead : Aead) (keys : EncryptionKeys)
    (primary fallback : Kek → Prop) : Prop where
  ideal : aead.Ideal world.Made
  once : WrapsOnce world.Wrapped
  configured : Configured keys primary fallback world.Wrapped
  held : ∀ kek, world.held kek ↔ primary kek ∨ fallback kek
  legacy : keys.legacy = some (legacyKeys world.deriveKeyId world.current world.previous)
  distinct : world.deriveKeyId world.current ≠ world.deriveKeyId world.previous
  apart : world.Apart

variable {world : World Kek} {aead : Aead} {keys : EncryptionKeys} {primary fallback : Kek → Prop}
variable {aad plaintext : Bytes}

theorem decryptRaw_eq_ok (hideal : aead.Ideal world.Made) {data key : Bytes} :
    decryptRaw aead data key aad = .ok plaintext ↔ world.Payload key aad plaintext data := by
  unfold decryptRaw World.Payload
  constructor
  · intro h
    split at h
    · cases h
    rename_i hlen
    refine ⟨data.take nonceSize, data.drop nonceSize, ?_, (List.take_append_drop _ _).symm,
      (hideal.opens _ _ _ _ _).mp h⟩
    rw [List.length_take]
    omega
  · rintro ⟨nonce, encrypted, hnonce, rfl, hmade⟩
    have hlen : ¬(nonce ++ encrypted).length < nonceSize := by
      rw [List.length_append]
      omega
    rw [if_neg hlen, ← hnonce, List.take_left, List.drop_left]
    exact (hideal.opens _ _ _ _ _).mpr hmade

theorem World.Payload.size (hideal : aead.Ideal world.Made) {key payload : Bytes}
    (h : world.Payload key aad plaintext payload) : nonceSize + tagSize ≤ payload.length := by
  obtain ⟨nonce, encrypted, hnonce, rfl, hmade⟩ := h
  rw [List.length_append, hnonce, hideal.size _ _ _ _ _ hmade]
  omega

/-- A payload was made with one key. -/
theorem World.Payload.unique (hideal : aead.Ideal world.Made) {key key' aad' plaintext' payload : Bytes}
    (h : world.Payload key aad plaintext payload) (h' : world.Payload key' aad' plaintext' payload) :
    key = key' ∧ plaintext = plaintext' := by
  obtain ⟨nonce, encrypted, hnonce, rfl, hmade⟩ := h
  obtain ⟨nonce', encrypted', hnonce', hbytes, hmade'⟩ := h'
  obtain ⟨rfl, rfl⟩ := List.append_inj hbytes (hnonce.trans hnonce'.symm)
  obtain ⟨rfl, -, rfl⟩ := hideal.once _ _ _ _ _ _ _ _ _ hmade hmade'
  have hopen := (hideal.opens _ _ _ _ _).mpr hmade
  rw [(hideal.opens _ _ _ _ _).mpr hmade'] at hopen
  exact ⟨rfl, (Except.ok.inj hopen).symm⟩

theorem unwrap_eq_some (honce : WrapsOnce world.Wrapped)
    (hkeys : Configured keys primary fallback world.Wrapped) {dek : Bytes} {wrapped : WrappedKey} :
    keys.unwrap wrapped = some dek ↔
      ∃ kek, (primary kek ∨ fallback kek) ∧ world.Wrapped kek dek wrapped := by
  unfold EncryptionKeys.unwrap
  constructor
  · intro h
    split at h
    · rename_i found hfound
      obtain rfl := Option.some.inj h
      obtain ⟨kek, hholds, hwrapped⟩ := (hkeys.provider.unwraps _ _).mp hfound
      exact ⟨kek, Or.inl hholds, hwrapped⟩
    · split at h
      · rename_i provider hprovider
        split at h
        · obtain ⟨kek, hholds, hwrapped⟩ :=
            ((hkeys.other provider hprovider).unwraps _ _).mp (toOption_eq_some.mp h)
          exact ⟨kek, Or.inr hholds, hwrapped⟩
        · cases h
      · cases h
  · rintro ⟨kek, hholds, hwrapped⟩
    cases hprimary : keys.provider.unwrapDek wrapped with
    | ok found =>
      obtain ⟨kek', -, hother⟩ := (hkeys.provider.unwraps found wrapped).mp hprimary
      exact congrArg some (honce _ _ _ _ _ hother hwrapped)
    | error e =>
      have hfallback : fallback kek := by
        refine hholds.resolve_left fun hfound => ?_
        rw [(hkeys.provider.unwraps dek wrapped).mpr ⟨kek, hfound, hwrapped⟩] at hprimary
        cases hprimary
      cases hother : keys.fallbackProvider with
      | none => exact absurd hfallback (hkeys.alone hother kek)
      | some provider =>
        have hideal := hkeys.other provider hother
        dsimp only
        rw [if_pos (hideal.has kek dek wrapped hfallback hwrapped),
          (hideal.unwraps dek wrapped).mpr ⟨kek, hfallback, hwrapped⟩]
        rfl

/-! ### Envelopes -/

/-- A header, then a data portion of at least a nonce and a tag. -/
structure Enveloped (ciphertext : Bytes) (wrapped : WrappedKey) (data : Bytes) : Prop where
  size : 0 < wrapped.ciphertext.length ∧ wrapped.ciphertext.length ≤ maxWrappedDekSize
  bytes : ciphertext = v2Header wrapped ++ data
  room : nonceSize + tagSize ≤ data.length

theorem Enveloped.parts {ciphertext data : Bytes} {wrapped : WrappedKey}
    (h : Enveloped ciphertext wrapped data) :
    looksLikeV2 ciphertext = true ∧ v2Parts ciphertext = some (wrapped, data) := by
  obtain ⟨hsize, rfl, hroom⟩ := h
  obtain ⟨high, low, htwo, hsum⟩ := getD_five_six hsize.2
  have hbytes : v2Header wrapped ++ data =
      versionV2 :: wrapped.keyId :: high :: low :: (wrapped.ciphertext ++ data) := by
    unfold v2Header
    rw [htwo]
    simp
  rw [hbytes]
  have hlen : (versionV2 :: wrapped.keyId :: high :: low :: (wrapped.ciphertext ++ data)).length =
      v2HeaderSize + wrapped.ciphertext.length + data.length := by
    simp only [List.length_cons, List.length_append, v2HeaderSize]
    omega
  have hdrop : (versionV2 :: wrapped.keyId :: high :: low :: (wrapped.ciphertext ++ data)).drop
      v2HeaderSize = wrapped.ciphertext ++ data := rfl
  constructor
  · unfold looksLikeV2
    rw [hlen, Bool.and_eq_true]
    refine ⟨decide_eq_true ?_, rfl⟩
    unfold v2MinSize
    omega
  · have hwritten : ((versionV2 :: wrapped.keyId :: high :: low ::
        (wrapped.ciphertext ++ data)).getD 2 0).toNat * 256 + ((versionV2 :: wrapped.keyId :: high ::
        low :: (wrapped.ciphertext ++ data)).getD 3 0).toNat = wrapped.ciphertext.length := hsum
    unfold v2Parts
    dsimp only
    rw [hwritten, hlen, if_pos ⟨hsize.2, hsize.1, by omega⟩, ← List.drop_drop, hdrop, List.take_left,
      List.drop_left]
    rfl

theorem enveloped_of_v2Parts {ciphertext data : Bytes} {wrapped : WrappedKey}
    (hlooks : looksLikeV2 ciphertext = true) (h : v2Parts ciphertext = some (wrapped, data)) :
    Enveloped ciphertext wrapped data := by
  unfold looksLikeV2 at hlooks
  rw [Bool.and_eq_true, decide_eq_true_eq, beq_iff_eq] at hlooks
  obtain ⟨hmin, hversion⟩ := hlooks
  unfold v2MinSize v2HeaderSize at hmin
  obtain ⟨version, rest, rfl⟩ := List.exists_cons_of_length_pos (by omega : 0 < ciphertext.length)
  rw [List.length_cons] at hmin
  obtain ⟨keyId, rest, rfl⟩ := List.exists_cons_of_length_pos (by omega : 0 < rest.length)
  rw [List.length_cons] at hmin
  obtain ⟨high, rest, rfl⟩ := List.exists_cons_of_length_pos (by omega : 0 < rest.length)
  rw [List.length_cons] at hmin
  obtain ⟨low, rest, rfl⟩ := List.exists_cons_of_length_pos (by omega : 0 < rest.length)
  have hwritten : ((version :: keyId :: high :: low :: rest).getD 2 0).toNat * 256 +
      ((version :: keyId :: high :: low :: rest).getD 3 0).toNat = high.toNat * 256 + low.toNat := rfl
  have hnamed : (version :: keyId :: high :: low :: rest).getD 1 0 = keyId := rfl
  have hfirst : (version :: keyId :: high :: low :: rest).getD 0 0 = version := rfl
  unfold v2Parts at h
  dsimp only at h
  rw [hwritten, hnamed] at h
  rw [hfirst] at hversion
  split at h
  · rename_i hbounds
    obtain ⟨hmax, hpos, hroom⟩ := hbounds
    have hparts := Option.some.inj h
    rw [Prod.mk.injEq] at hparts
    obtain ⟨rfl, rfl⟩ := hparts
    rw [← List.drop_drop]
    have hdrop : (version :: keyId :: high :: low :: rest).drop v2HeaderSize = rest := rfl
    have htotal : (version :: keyId :: high :: low :: rest).length = v2HeaderSize + rest.length := by
      simp only [List.length_cons, v2HeaderSize]
      omega
    rw [htotal] at hroom
    rw [hdrop]
    have hlen : (rest.take (high.toNat * 256 + low.toNat)).length = high.toNat * 256 + low.toNat := by
      rw [List.length_take]
      omega
    refine ⟨?_, ?_, ?_⟩
    · dsimp only
      rw [hlen]
      exact ⟨hpos, hmax⟩
    · unfold v2Header
      dsimp only
      rw [hlen, beBytes_two, hversion]
      simp
    · rw [List.length_drop]
      omega
  · cases h

/-- The version byte of another format is not that of an envelope. -/
theorem decryptV2_of_v1 {rest : Bytes} : decryptV2 aead keys (versionV1 :: rest) aad = none := by
  have hlooks : looksLikeV2 (versionV1 :: rest) = false := by
    unfold looksLikeV2
    rw [Bool.and_eq_false_iff]
    exact Or.inr rfl
  unfold decryptV2
  rw [hlooks, if_neg Bool.false_ne_true]

/-- An envelope is decided by its wrapped DEK. -/
theorem decryptWithAad_enveloped {ciphertext data dek : Bytes} {wrapped : WrappedKey}
    (henveloped : Enveloped ciphertext wrapped data) (hunwrap : keys.unwrap wrapped = some dek) :
    decryptWithAad aead keys ciphertext aad = decryptWithDek aead data dek aad := by
  obtain ⟨hlooks, hparts⟩ := henveloped.parts
  unfold decryptWithAad decryptV2
  rw [if_pos hlooks, hparts]
  dsimp only
  rw [hunwrap, Option.map_some]

theorem decryptWithDek_ok (hideal : aead.Ideal world.Made) {data dek : Bytes}
    (h : world.Payload dek aad plaintext data) : decryptWithDek aead data dek aad = .ok plaintext := by
  have hopens := (decryptRaw_eq_ok hideal).mpr h
  obtain ⟨nonce, encrypted, -, -, hmade⟩ := h
  unfold decryptWithDek
  rw [if_neg (not_not.mpr (hideal.keySize _ _ _ _ _ hmade)), hopens]

/-! ### Payloads of the legacy keys -/

abbrev World.legacy (world : World Kek) : LegacyKeys :=
  legacyKeys world.deriveKeyId world.current world.previous

variable {key payload : Bytes}

theorem tryCurrent_eq_some (hideal : aead.Ideal world.Made) :
    tryCurrent aead world.legacy payload aad = some plaintext ↔
      world.Payload (Slot.current.key world.current world.previous) aad plaintext payload :=
  toOption_eq_some.trans (decryptRaw_eq_ok hideal)

theorem tryPrevious_eq_some (hideal : aead.Ideal world.Made) :
    tryPrevious aead world.legacy payload aad = some plaintext ↔
      world.Payload (Slot.previous.key world.current world.previous) aad plaintext payload :=
  toOption_eq_some.trans (decryptRaw_eq_ok hideal)

/-- No payload opens with either key. -/
def World.Closed (world : World Kek) (aad payload : Bytes) : Prop :=
  ∀ slot : Slot, ∀ plaintext,
    ¬world.Payload (slot.key world.current world.previous) aad plaintext payload

theorem tryCurrent_eq_none (hideal : aead.Ideal world.Made)
    (h : ∀ plaintext, ¬world.Payload (Slot.current.key world.current world.previous) aad plaintext
      payload) :
    tryCurrent aead world.legacy payload aad = none :=
  Option.eq_none_iff_forall_not_mem.mpr fun plaintext hsome =>
    h plaintext ((tryCurrent_eq_some hideal).mp hsome)

theorem tryPrevious_eq_none (hideal : aead.Ideal world.Made)
    (h : ∀ plaintext, ¬world.Payload (Slot.previous.key world.current world.previous) aad plaintext
      payload) :
    tryPrevious aead world.legacy payload aad = none :=
  Option.eq_none_iff_forall_not_mem.mpr fun plaintext hsome =>
    h plaintext ((tryPrevious_eq_some hideal).mp hsome)

/-- Trying both keys finds the plaintext whichever of them it was written under. -/
theorem tryBoth_eq_some (hideal : aead.Ideal world.Made) {slot : Slot}
    (h : world.Payload (slot.key world.current world.previous) aad plaintext payload) :
    (tryCurrent aead world.legacy payload aad).or
      (tryPrevious aead world.legacy payload aad) =
      some plaintext := by
  cases slot with
  | current => rw [(tryCurrent_eq_some hideal).mpr h, Option.some_or]
  | previous =>
    rw [(tryPrevious_eq_some hideal).mpr h]
    cases hcurrent : tryCurrent aead world.legacy payload aad with
    | none => rw [Option.none_or]
    | some found =>
      have hfound := (tryCurrent_eq_some hideal).mp hcurrent
      rw [Option.some_or, (hfound.unique hideal h).2]

theorem tryBoth_eq_none (hideal : aead.Ideal world.Made)
    (h : world.Closed aad payload) :
    (tryCurrent aead world.legacy payload aad).or
      (tryPrevious aead world.legacy payload aad) =
      none := by
  rw [tryCurrent_eq_none hideal (h .current), tryPrevious_eq_none hideal (h .previous)]
  rfl

/-- Behind the header of a key id stands a payload that does not open from the header on. -/
theorem closed_whole (happart : world.Apart) (version keyId : UInt8)
    (h : world.Payload key aad plaintext payload) : world.Closed aad (version :: keyId :: payload) :=
  fun _ _ hwhole => happart.shifted _ _ _ _ _ _ _ _ h hwhole rfl

theorem closed_shifted (happart : world.Apart) (h : world.Payload key aad plaintext payload) :
    world.Closed aad (payload.drop v1HeaderSize) :=
  fun _ _ hshifted => happart.shifted _ _ _ _ _ _ _ _ hshifted h rfl

theorem looksLikeV1_of_payload (hideal : aead.Ideal world.Made) (keyId : UInt8)
    (h : world.Payload key aad plaintext payload) :
    looksLikeV1 (versionV1 :: keyId :: payload) = true := by
  have hsize := h.size hideal
  unfold looksLikeV1
  rw [Bool.and_eq_true, decide_eq_true_eq]
  refine ⟨?_, rfl⟩
  simp only [List.length_cons, v1MinSize, v1HeaderSize]
  omega

/-- What decides a payload behind a key id. -/
theorem decryptWithAad_keyed (h : world.Rules aead keys primary fallback) (keyId : UInt8)
    (hpayload : world.Payload key aad plaintext payload) :
    decryptWithAad aead keys (versionV1 :: keyId :: payload) aad =
      (decryptV1 aead keys (versionV1 :: keyId :: payload) aad).elim
        (.error (.internal "AES decryption failed: no key could decrypt the data")) .ok := by
  have hv0 : decryptV0 aead keys (versionV1 :: keyId :: payload) aad = none := by
    unfold decryptV0
    rw [h.legacy]
    exact tryBoth_eq_none h.ideal (closed_whole h.apart versionV1 keyId hpayload)
  unfold decryptWithAad
  rw [decryptV2_of_v1, hv0, Option.or_none]
  cases decryptV1 aead keys (versionV1 :: keyId :: payload) aad with
  | none => rfl
  | some plain => rfl

theorem decryptV1_keyed (h : world.Rules aead keys primary fallback) (keyId : UInt8)
    (hpayload : world.Payload key aad plaintext payload) :
    decryptV1 aead keys (versionV1 :: keyId :: payload) aad =
      let legacy := world.legacy
      if keyId = world.deriveKeyId world.current then tryCurrent aead legacy payload aad
      else if keyId = world.deriveKeyId world.previous then tryPrevious aead legacy payload aad
      else if keyId = draftKeyIdCurrent ∨ keyId = draftKeyIdPrevious then
        (tryCurrent aead legacy payload aad).or (tryPrevious aead legacy payload aad)
      else none := by
  have hsame : (some (world.deriveKeyId world.previous) = some keyId) ↔
      keyId = world.deriveKeyId world.previous := by
    rw [Option.some.injEq]
    exact eq_comm
  have hnamed : (versionV1 :: keyId :: payload).getD 1 0 = keyId := rfl
  have hrest : (versionV1 :: keyId :: payload).drop v1HeaderSize = payload := rfl
  unfold decryptV1
  rw [if_pos (looksLikeV1_of_payload h.ideal keyId hpayload), h.legacy]
  dsimp only [World.legacy, legacyKeys]
  simp only [hnamed, hrest, hsame]

/-- Under its derived key id, a payload is tried with the key of the id. -/
theorem keyed_read (h : world.Rules aead keys primary fallback) {slot : Slot}
    (hpayload : world.Payload (slot.key world.current world.previous) aad plaintext payload) :
    decryptWithAad aead keys (versionV1 ::
      world.deriveKeyId (slot.key world.current world.previous) :: payload) aad = .ok plaintext := by
  rw [decryptWithAad_keyed h _ hpayload, decryptV1_keyed h _ hpayload]
  dsimp only
  cases slot with
  | current =>
    rw [Slot.key_current, if_pos rfl, (tryCurrent_eq_some h.ideal).mpr hpayload, Option.elim_some]
  | previous =>
    rw [Slot.key_previous, if_neg h.distinct.symm, if_pos rfl,
      (tryPrevious_eq_some h.ideal).mpr hpayload, Option.elim_some]

/-- Under a draft id, a payload is lost exactly if the id is the other key's. -/
theorem draft_read_iff (h : world.Rules aead keys primary fallback) {slot : Slot} {keyId : UInt8}
    (hid : keyId = draftKeyIdCurrent ∨ keyId = draftKeyIdPrevious)
    (hpayload : world.Payload (slot.key world.current world.previous) aad plaintext payload) :
    decryptWithAad aead keys (versionV1 :: keyId :: payload) aad = .ok plaintext ↔
      keyId ≠ world.deriveKeyId (slot.other.key world.current world.previous) := by
  have hkeys : world.current ≠ world.previous := fun hsame => h.distinct (congrArg _ hsame)
  by_cases hown : keyId = world.deriveKeyId (slot.key world.current world.previous)
  · have hread := keyed_read h hpayload
    rw [← hown] at hread
    refine iff_of_true hread ?_
    rw [hown]
    cases slot with
    | current => exact h.distinct
    | previous => exact h.distinct.symm
  rw [decryptWithAad_keyed h _ hpayload, decryptV1_keyed h _ hpayload]
  dsimp only
  cases slot with
  | current =>
    rw [Slot.key_current] at hown
    rw [if_neg hown]
    by_cases hother : keyId = world.deriveKeyId world.previous
    · have hnone : tryPrevious aead world.legacy payload aad = none :=
        tryPrevious_eq_none h.ideal fun _ hopened => hkeys (hpayload.unique h.ideal hopened).1
      rw [if_pos hother, hnone]
      exact iff_of_false (nomatch ·) (not_not.mpr hother)
    · rw [if_neg hother, if_pos hid, tryBoth_eq_some h.ideal hpayload]
      exact iff_of_true rfl hother
  | previous =>
    rw [Slot.key_previous] at hown
    by_cases hother : keyId = world.deriveKeyId world.current
    · have hnone : tryCurrent aead world.legacy payload aad = none :=
        tryCurrent_eq_none h.ideal fun _ hopened => hkeys (hpayload.unique h.ideal hopened).1.symm
      rw [if_pos hother, hnone]
      exact iff_of_false (nomatch ·) (not_not.mpr hother)
    · rw [if_neg hother, if_neg hown, if_pos hid, tryBoth_eq_some h.ideal hpayload]
      exact iff_of_true rfl hother

/-- A bare payload is read whatever its first bytes look like. -/
theorem bare_read (h : world.Rules aead keys primary fallback) {slot : Slot}
    (hpayload : world.Payload (slot.key world.current world.previous) aad plaintext payload) :
    decryptWithAad aead keys payload aad = .ok plaintext := by
  have hv2 : decryptV2 aead keys payload aad = none := by
    unfold decryptV2
    split
    · split
      · rename_i wrapped data hparts
        have hnone : keys.unwrap wrapped = none := by
          refine Option.eq_none_iff_forall_not_mem.mpr fun dek hdek => ?_
          obtain ⟨kek, -, hwrapped⟩ := (unwrap_eq_some h.once h.configured).mp hdek
          refine h.apart.embedded _ _ _ _ _ _ _ hwrapped hpayload ?_
          unfold v2Parts at hparts
          dsimp only at hparts
          split at hparts
          · obtain ⟨rfl, -⟩ := Prod.mk.inj (Option.some.inj hparts)
            exact List.take_prefix _ _
          · cases hparts
        rw [hnone, Option.map_none]
      · rfl
    · rfl
  have hv1 : decryptV1 aead keys payload aad = none := by
    have hclosed := closed_shifted h.apart hpayload
    unfold decryptV1
    rw [h.legacy]
    dsimp only
    rw [tryCurrent_eq_none h.ideal (hclosed .current), tryPrevious_eq_none h.ideal
      (hclosed .previous)]
    simp
  have hv0 : decryptV0 aead keys payload aad = some plaintext := by
    unfold decryptV0
    rw [h.legacy]
    exact tryBoth_eq_some h.ideal hpayload
  unfold decryptWithAad
  rw [hv2, hv1, hv0]
  rfl

theorem World.Written.read_iff (h : world.Rules aead keys primary fallback) {format : Format}
    {ciphertext : Bytes} (hwritten : world.Written aad plaintext format ciphertext) :
    decryptWithAad aead keys ciphertext aad = .ok plaintext ↔ ¬world.Shadowed format := by
  cases format with
  | v2 =>
    obtain ⟨kek, dek, wrapped, payload, hheld, hwrapped, hmax, hpayload, rfl⟩ := hwritten
    have henveloped : Enveloped (v2Header wrapped ++ payload) wrapped payload :=
      ⟨⟨List.length_pos_iff.mpr (h.apart.wrapped _ _ _ hwrapped), hmax⟩, rfl, hpayload.size h.ideal⟩
    have hunwrap := (unwrap_eq_some h.once h.configured).mpr ⟨kek, (h.held kek).mp hheld, hwrapped⟩
    rw [decryptWithAad_enveloped henveloped hunwrap]
    exact iff_of_true (decryptWithDek_ok h.ideal hpayload) id
  | v1 slot =>
    obtain ⟨payload, hpayload, rfl⟩ := hwritten
    exact iff_of_true (keyed_read h hpayload) id
  | draft slot keyId =>
    obtain ⟨payload, hid, hpayload, rfl⟩ := hwritten
    exact draft_read_iff h hid hpayload
  | v0 slot => exact iff_of_true (bare_read h hwritten) id

/-! ### Rotation -/

/-- Wrapping a DEK again, with this randomness, is a wrapping by the current key. -/
def World.WrapsBy (world : World Kek) (provider : KeyProvider) (current : Kek) (random : Bytes) : Prop :=
  ∀ kek dek old wrapped, world.Wrapped kek dek old → provider.wrapDek random dek = .ok wrapped →
    world.Wrapped current dek wrapped ∧ wrapped.keyId = provider.currentKeyId

/-- The key that a provider wraps with is the one that it has under its current key id. -/
def World.Selects (world : World Kek) (provider : KeyProvider) (current : Kek) (primary : Kek → Prop) :
    Prop :=
  primary current ∧ ∀ kek dek wrapped, primary kek → world.Wrapped kek dek wrapped →
    wrapped.keyId = provider.currentKeyId → kek = current

/-- The providers unwrap, and the primary one wraps, as in `Rules`; legacy keys do not matter. -/
structure World.Rotates (world : World Kek) (aead : Aead) (keys : EncryptionKeys)
    (primary fallback : Kek → Prop) (current : Kek) : Prop where
  ideal : aead.Ideal world.Made
  once : WrapsOnce world.Wrapped
  configured : Configured keys primary fallback world.Wrapped
  selects : world.Selects keys.provider current primary

/-- An envelope with its DEK and plaintext. -/
structure World.Opened (world : World Kek) (aad plaintext ciphertext : Bytes) (kek : Kek)
    (wrapped : WrappedKey) (dek data : Bytes) : Prop where
  enveloped : Enveloped ciphertext wrapped data
  wrapped : world.Wrapped kek dek wrapped
  payload : world.Payload dek aad plaintext data

theorem World.Opened.read {ciphertext dek data : Bytes} {kek : Kek} {wrapped : WrappedKey}
    (hideal : aead.Ideal world.Made) (honce : WrapsOnce world.Wrapped)
    (hopened : world.Opened aad plaintext ciphertext kek wrapped dek data)
    (hfound : ∃ found, keys.unwrap wrapped = some found ∧ ∃ kek, world.Wrapped kek found wrapped) :
    decryptWithAad aead keys ciphertext aad = .ok plaintext := by
  obtain ⟨found, hunwrap, kek', hwrapped⟩ := hfound
  obtain rfl := honce _ _ _ _ _ hwrapped hopened.wrapped
  rw [decryptWithAad_enveloped hopened.enveloped hunwrap]
  exact decryptWithDek_ok hideal hopened.payload

variable {current : Kek}

/-- A wrapping by the current key is read with that key alone. -/
theorem World.Opened.read_alone {ciphertext dek data : Bytes} {wrapped : WrappedKey}
    (hideal : aead.Ideal world.Made) (honce : WrapsOnce world.Wrapped)
    (hopened : world.Opened aad plaintext ciphertext current wrapped dek data) {alone : EncryptionKeys}
    (halone : alone.provider.Ideal (· = current) world.Wrapped) :
    decryptWithAad aead alone ciphertext aad = .ok plaintext := by
  have hunwrap := (halone.unwraps dek wrapped).mpr ⟨current, rfl, hopened.wrapped⟩
  refine hopened.read hideal honce ⟨dek, ?_, current, hopened.wrapped⟩
  unfold EncryptionKeys.unwrap
  rw [hunwrap]

/-- What is already under the current key is authenticated and returned unchanged. -/
theorem World.Opened.rewrap {ciphertext dek data : Bytes} {wrapped : WrappedKey}
    (h : world.Rotates aead keys primary fallback current)
    (hopened : world.Opened aad plaintext ciphertext current wrapped dek data)
    (hid : wrapped.keyId = keys.provider.currentKeyId) (random : Bytes) :
    rewrapWithAad aead keys ciphertext aad random = .ok ciphertext := by
  obtain ⟨hlooks, hparts⟩ := hopened.enveloped.parts
  have hunwrap : unwrapForRewrap keys wrapped = .ok (dek, true) := by
    unfold unwrapForRewrap
    rw [(h.configured.provider.unwraps dek wrapped).mpr ⟨current, h.selects.1, hopened.wrapped⟩]
  unfold rewrapWithAad
  simp only [hlooks, hparts, hunwrap, (decryptRaw_eq_ok h.ideal).mpr hopened.payload, hid,
    Bool.not_true, Bool.false_eq_true, if_false, beq_self_eq_true, Bool.and_self, if_true]

theorem unwrapForRewrap_ok (h : world.Rotates aead keys primary fallback current)
    {wrapped : WrappedKey} {dek : Bytes} {primaryUnwrapped : Bool}
    (hunwrap : unwrapForRewrap keys wrapped = .ok (dek, primaryUnwrapped)) :
    ∃ kek, (primary kek ∨ fallback kek) ∧ world.Wrapped kek dek wrapped ∧
      (primaryUnwrapped = true → primary kek) := by
  unfold unwrapForRewrap at hunwrap
  split at hunwrap
  · rename_i found hfound
    obtain ⟨rfl, -⟩ := Prod.mk.inj (Except.ok.inj hunwrap)
    obtain ⟨kek, hholds, hwrapped⟩ := (h.configured.provider.unwraps _ _).mp hfound
    exact ⟨kek, Or.inl hholds, hwrapped, fun _ => hholds⟩
  · split at hunwrap
    · cases hunwrap
    rename_i provider hprovider
    cases hfound : provider.unwrapDek wrapped with
    | error e =>
      rw [hfound] at hunwrap
      cases hunwrap
    | ok found =>
      rw [hfound] at hunwrap
      obtain ⟨rfl, rfl⟩ := Prod.mk.inj (Except.ok.inj hunwrap)
      obtain ⟨kek, hholds, hwrapped⟩ :=
        ((h.configured.other provider hprovider).unwraps _ _).mp hfound
      exact ⟨kek, Or.inr hholds, hwrapped, fun hfalse => absurd hfalse Bool.false_ne_true⟩

/-- A rewrapped envelope opens to the same plaintext, under a wrapping by the current key. -/
theorem rewrapWithAad_ok (h : world.Rotates aead keys primary fallback current)
    {ciphertext random result : Bytes} (hwraps : world.WrapsBy keys.provider current random)
    (hrewrap : rewrapWithAad aead keys ciphertext aad random = .ok result) :
    ∃ plaintext kek old new dek data, (primary kek ∨ fallback kek) ∧
      world.Opened aad plaintext ciphertext kek old dek data ∧
      world.Opened aad plaintext result current new dek data ∧
      new.keyId = keys.provider.currentKeyId := by
  unfold rewrapWithAad at hrewrap
  split at hrewrap
  · cases hrewrap
  rename_i hlooks
  rw [Bool.not_eq_true', Bool.not_eq_false] at hlooks
  split at hrewrap
  · cases hrewrap
  rename_i wrapped data hparts
  have henveloped := enveloped_of_v2Parts hlooks hparts
  split at hrewrap
  · cases hrewrap
  rename_i dek primaryUnwrapped hunwrap
  obtain ⟨kek, hholds, hwrapped, hprimary⟩ := unwrapForRewrap_ok h hunwrap
  split at hrewrap
  · cases hrewrap
  rename_i plaintext hplain
  have hpayload := (decryptRaw_eq_ok h.ideal).mp hplain
  have hopened : world.Opened aad plaintext ciphertext kek wrapped dek data :=
    ⟨henveloped, hwrapped, hpayload⟩
  split at hrewrap
  · rename_i hcurrent
    rw [Bool.and_eq_true, beq_iff_eq] at hcurrent
    obtain rfl := Except.ok.inj hrewrap
    obtain rfl := h.selects.2 kek dek wrapped (hprimary hcurrent.1) hwrapped hcurrent.2
    exact ⟨plaintext, kek, wrapped, wrapped, dek, data, hholds, hopened, hopened, hcurrent.2⟩
  · split at hrewrap
    · cases hrewrap
    rename_i rewrapped hrewrapped
    obtain ⟨hnew, hid⟩ := hwraps kek dek wrapped rewrapped hwrapped hrewrapped
    split at hrewrap
    · cases hrewrap
    rename_i hsize
    rw [not_or, not_lt] at hsize
    obtain rfl := Except.ok.inj hrewrap
    exact ⟨plaintext, kek, wrapped, rewrapped, dek, data, hholds, hopened,
      ⟨⟨⟨List.length_pos_iff.mpr hsize.1, hsize.2⟩, rfl, henveloped.room⟩, hnew, hpayload⟩, hid⟩

/-- No ciphertext is lost, except drafts under the other key's id; and rotation loses none. -/
theorem formats_read (h : world.Rules aead keys primary fallback)
    (hselects : world.Selects keys.provider current primary) :
    (∀ format plaintext ciphertext, world.Written [] plaintext format ciphertext →
      (decrypt aead keys ciphertext = .ok plaintext ↔ ¬world.Shadowed format)) ∧
    ∀ ciphertext aad random result, world.WrapsBy keys.provider current random →
      rewrapWithAad aead keys ciphertext aad random = .ok result →
      ∃ plaintext old new data, decryptWithAad aead keys ciphertext aad = .ok plaintext ∧
        (∀ alone : EncryptionKeys, alone.provider.Ideal (· = current) world.Wrapped →
          decryptWithAad aead alone result aad = .ok plaintext) ∧
        v2Parts ciphertext = some (old, data) ∧ v2Parts result = some (new, data) ∧
        ∀ again, rewrapWithAad aead keys result aad again = .ok result := by
  refine ⟨fun format plaintext ciphertext hwritten => hwritten.read_iff h, ?_⟩
  intro ciphertext aad random result hwraps hrewrap
  have hrotates : world.Rotates aead keys primary fallback current :=
    ⟨h.ideal, h.once, h.configured, hselects⟩
  obtain ⟨plaintext, kek, old, new, dek, data, hholds, hopened, hresult, hid⟩ :=
    rewrapWithAad_ok hrotates hwraps hrewrap
  have hunwrap := (unwrap_eq_some h.once h.configured).mpr ⟨kek, hholds, hopened.wrapped⟩
  exact ⟨plaintext, old, new, data,
    hopened.read h.ideal h.once ⟨dek, hunwrap, kek, hopened.wrapped⟩,
    fun alone halone => hresult.read_alone h.ideal h.once halone,
    hopened.enveloped.parts.2, hresult.enveloped.parts.2,
    fun again => hresult.rewrap hrotates hid again⟩

/-! ### Local keys -/

variable {deriveKeyId : Bytes → UInt8}

/-- Local keys, all of whose encryptions are in a table. -/
def localWorld (table : List Sealing) (keys : LocalKeys deriveKeyId) (previous : Bytes) :
    World Bytes :=
  ⟨MadeIn table, LocalWrapped deriveKeyId (MadeIn table), keys.Holds, deriveKeyId, keys.current,
    previous⟩

theorem localWorld_apart {table : List Sealing} {keys : LocalKeys deriveKeyId} {previous : Bytes}
    (h : ∀ s ∈ table, ∀ t ∈ table,
      s.nonce ++ s.cipher ≠ (t.nonce ++ t.cipher).drop v1HeaderSize ∧
      ¬s.nonce ++ s.cipher <+: (t.nonce ++ t.cipher).drop v2HeaderSize) :
    (localWorld table keys previous).Apart := by
  refine ⟨?_, ?_, ?_⟩
  · rintro _ _ _ _ _ _ _ _ ⟨nonce, encrypted, -, rfl, hmade⟩ ⟨nonce', encrypted', -, rfl, hmade'⟩
    exact (h _ hmade _ hmade').1
  · rintro _ _ _ _ _ _ _ ⟨-, nonce, encrypted, -, hbytes, hmade⟩
      ⟨nonce', encrypted', -, rfl, hmade'⟩
    rw [hbytes]
    exact (h _ hmade _ hmade').2
  · rintro _ _ _ ⟨-, nonce, encrypted, hnonce, hbytes, -⟩ hempty
    rw [hbytes, List.append_eq_nil_iff] at hempty
    rw [hempty.1] at hnonce
    cases hnonce

theorem localWorld_rules {table : List Sealing} {keys : LocalKeys deriveKeyId} {previous : Bytes}
    (hideal : (Aead.ofTable table).Ideal (MadeIn table)) (hprevious : keys.previous = some previous)
    (happart : (localWorld table keys previous).Apart) (writes : Bool) :
    (localWorld table keys previous).Rules (Aead.ofTable table)
      (EncryptionKeys.ofLocal (Aead.ofTable table) writes keys) keys.Holds (fun _ => False) := by
  refine ⟨hideal, wrapsOnce_localWrapped hideal, LocalKeys.configured keys hideal writes,
    fun _ => (iff_of_eq (or_false _)).symm, ?_, (keys.apart previous hprevious).symm, happart⟩
  unfold EncryptionKeys.ofLocal LocalKeys.legacy
  dsimp only
  rw [hprevious]
  rfl

/-- A draft with key id 0 under a previous key, where 0 is derived from the current key. -/
def sampleCurrent : Bytes := List.replicate 31 0 ++ [98]

def samplePrevious : Bytes := List.replicate 32 0

/-- The first byte of SHA-256 on the two keys. -/
def sampleKeyId (key : Bytes) : UInt8 := if key = sampleCurrent then 0 else 102

def sampleLocalKeys : LocalKeys sampleKeyId where
  current := sampleCurrent
  previous := some samplePrevious
  apart key h := by
    obtain rfl := Option.some.inj h
    decide

def sampleTable : List Sealing := [
  ⟨samplePrevious, bytesFrom 0, [], utf8 "hush",
    [224, 190, 64, 58, 150, 171, 36, 226, 21, 192, 231, 190, 128, 40, 164, 206, 232, 251, 165, 18]⟩,
  ⟨samplePrevious, bytesFrom 1, [], sampleDek,
    [29, 101, 245, 1, 3, 92, 82, 173, 171, 116, 156, 115, 215, 175, 90, 177, 212, 166, 60, 143, 205,
      153, 6, 89, 50, 9, 248, 184, 168, 199, 166, 169, 123, 80, 253, 2, 159, 60, 43, 110, 72, 15, 30,
      215, 254, 149, 85, 238]⟩,
  ⟨sampleDek, bytesFrom 21, [], utf8 "hush",
    [28, 249, 138, 226, 16, 246, 219, 15, 180, 210, 208, 137, 123, 73, 204, 39, 23, 52, 201, 152]⟩,
  ⟨sampleCurrent, bytesFrom 41, [], sampleDek,
    [231, 87, 252, 19, 21, 178, 239, 243, 37, 19, 208, 138, 107, 243, 125, 162, 36, 107, 163, 88, 180,
      94, 102, 45, 246, 182, 220, 87, 248, 255, 220, 151, 153, 67, 19, 2, 212, 225, 226, 52, 50, 227,
      151, 166, 10, 228, 98, 44]⟩]

def sampleWorld : World Bytes := localWorld sampleTable sampleLocalKeys samplePrevious

def sampleAead : Aead := Aead.ofTable sampleTable

def sampleKeys : EncryptionKeys := EncryptionKeys.ofLocal sampleAead true sampleLocalKeys

theorem sample_rules :
    sampleWorld.Rules sampleAead sampleKeys sampleLocalKeys.Holds (fun _ => False) :=
  localWorld_rules (ideal_ofTable (by decide) (by decide)) rfl
    (localWorld_apart (by decide)) true

theorem sample_selects :
    sampleWorld.Selects sampleKeys.provider sampleLocalKeys.current sampleLocalKeys.Holds :=
  ⟨Or.inl rfl, fun _ _ _ hholds hwrapped hid => LocalKeys.current_of_id hholds hwrapped hid⟩

def sampleDraft (keyId : UInt8) : Bytes :=
  versionV1 :: keyId :: (bytesFrom 0 ++ [224, 190, 64, 58, 150, 171, 36, 226, 21, 192, 231, 190, 128,
    40, 164, 206, 232, 251, 165, 18])

theorem sampleDraft_written (keyId : UInt8)
    (h : keyId = draftKeyIdCurrent ∨ keyId = draftKeyIdPrevious) :
    sampleWorld.Written [] (utf8 "hush") (.draft .previous keyId) (sampleDraft keyId) :=
  ⟨_, h, ⟨bytesFrom 0, _, rfl, rfl, List.mem_cons_self⟩, rfl⟩

/-- An envelope under the previous key. -/
def sampleEnvelope : Bytes :=
  v2Header ⟨102, bytesFrom 1 ++ [29, 101, 245, 1, 3, 92, 82, 173, 171, 116, 156, 115, 215, 175, 90,
    177, 212, 166, 60, 143, 205, 153, 6, 89, 50, 9, 248, 184, 168, 199, 166, 169, 123, 80, 253, 2, 159,
    60, 43, 110, 72, 15, 30, 215, 254, 149, 85, 238]⟩ ++ bytesFrom 21 ++ [28, 249, 138, 226, 16, 246,
    219, 15, 180, 210, 208, 137, 123, 73, 204, 39, 23, 52, 201, 152]

/-- The draft is read under id 1; the envelope is rotated and read with the current key alone. -/
theorem sample_formats_read :
    decrypt sampleAead sampleKeys (sampleDraft 1) = .ok (utf8 "hush") ∧
    ∃ result plaintext, rewrapWithAad sampleAead sampleKeys sampleEnvelope [] (bytesFrom 41) =
        .ok result ∧ decryptWithAad sampleAead sampleKeys sampleEnvelope [] = .ok plaintext ∧
      ∀ alone : EncryptionKeys, alone.provider.Ideal (· = sampleCurrent) sampleWorld.Wrapped →
        decryptWithAad sampleAead alone result [] = .ok plaintext := by
  have hfree : (1 : UInt8) ≠ sampleKeyId sampleCurrent := by decide
  obtain ⟨hread, hrotated⟩ := formats_read sample_rules sample_selects
  refine ⟨(hread _ _ _ (sampleDraft_written 1 (Or.inr rfl))).mpr hfree, ?_⟩
  have hrewrap : ∃ result, rewrapWithAad sampleAead sampleKeys sampleEnvelope [] (bytesFrom 41) =
      .ok result := ⟨_, rfl⟩
  obtain ⟨result, hresult⟩ := hrewrap
  obtain ⟨plaintext, -, -, -, hplaintext, halone, -⟩ := hrotated _ _ _ _
    (fun _ _ _ _ _ hwraps => localWrapped_of_wrapDek rfl hwraps) hresult
  exact ⟨result, plaintext, hresult, hplaintext, halone⟩

/-- The draft under id 0 is not read, although its key is configured. -/
theorem draft_under_taken_id_lost :
    sampleWorld.Rules sampleAead sampleKeys sampleLocalKeys.Holds (fun _ => False) ∧
    sampleWorld.Written [] (utf8 "hush") (.draft .previous 0) (sampleDraft 0) ∧
    ∃ e, decrypt sampleAead sampleKeys (sampleDraft 0) = .error e :=
  ⟨sample_rules, sampleDraft_written 0 (Or.inl rfl), _, rfl⟩

end NyxId.Encryption
