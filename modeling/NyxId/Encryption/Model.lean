import NyxId.Encoding.Records

/-!
Envelopes of encrypted fields. AES-256-GCM and the key providers are parameters; what is
assumed of them refers to the encryptions that were made.
-/

namespace NyxId.Encryption

open Encoding

section

section

abbrev Bytes := List UInt8

inductive AppError where
  | internal (message : String)
  | conflict (message : String)
  deriving DecidableEq

structure WrappedKey where
  keyId : UInt8
  ciphertext : Bytes
  deriving DecidableEq

structure KeyProvider where
  /-- The first argument is the randomness that the call draws. -/
  wrapDek : Bytes → Bytes → Except AppError WrappedKey
  unwrapDek : WrappedKey → Except AppError Bytes
  currentKeyId : UInt8
  hasKeyId : UInt8 → Bool

/-- AES-256-GCM by key, nonce and associated data; a key that is not of 32 bytes is an error. -/
structure Aead where
  encrypt : Bytes → Bytes → Bytes → Bytes → Except AppError Bytes
  decrypt : Bytes → Bytes → Bytes → Bytes → Except AppError Bytes

structure LegacyKeys where
  current : Bytes
  currentId : UInt8
  previous : Option Bytes
  previousId : Option UInt8

structure EncryptionKeys where
  contextualRecordWrites : Bool
  provider : KeyProvider
  fallbackProvider : Option KeyProvider
  legacy : Option LegacyKeys

def nonceSize : ℕ := 12

def tagSize : ℕ := 16

def maxWrappedDekSize : ℕ := 1024

/-- The encryptions that were made: key, nonce, associated data, plaintext and ciphertext. -/
abbrev Sealings := Bytes → Bytes → Bytes → Bytes → Bytes → Prop

/-- Decryption succeeds exactly on the ciphertext made with the same key, nonce and data. -/
structure Aead.Ideal (aead : Aead) (Made : Sealings) : Prop where
  opens : ∀ key nonce aad plain cipher,
    aead.decrypt key nonce aad cipher = .ok plain ↔ Made key nonce aad plain cipher
  once : ∀ key nonce aad plain key' nonce' aad' plain' cipher, Made key nonce aad plain cipher →
    Made key' nonce' aad' plain' cipher → key = key' ∧ nonce = nonce' ∧ aad = aad'
  size : ∀ key nonce aad plain cipher, Made key nonce aad plain cipher →
    cipher.length = plain.length + tagSize
  keySize : ∀ key nonce aad plain cipher, Made key nonce aad plain cipher → key.length = 32

structure Sealing where
  key : Bytes
  nonce : Bytes
  aad : Bytes
  plain : Bytes
  cipher : Bytes
  deriving DecidableEq

def MadeIn (table : List Sealing) : Sealings := fun key nonce aad plain cipher =>
  ⟨key, nonce, aad, plain, cipher⟩ ∈ table

/-- The functionality of a table of encryptions. -/
def Aead.ofTable (table : List Sealing) : Aead where
  encrypt key nonce aad plain :=
    match table.find? fun s => s.key == key && s.nonce == nonce && s.aad == aad && s.plain == plain with
    | some s => .ok s.cipher
    | none => .error (.internal "Not in the table")
  decrypt key nonce aad cipher :=
    match table.find? fun s => s.key == key && s.nonce == nonce && s.aad == aad && s.cipher == cipher
      with
    | some s => .ok s.plain
    | none => .error (.internal "Not in the table")

theorem madeIn_of_encrypt {table : List Sealing} {key nonce aad plain cipher : Bytes}
    (h : (Aead.ofTable table).encrypt key nonce aad plain = .ok cipher) :
    MadeIn table key nonce aad plain cipher := by
  unfold Aead.ofTable at h
  dsimp only at h
  split at h
  · rename_i s hfind
    have hsame := List.find?_some hfind
    simp only [Bool.and_eq_true, beq_iff_eq] at hsame
    obtain ⟨⟨⟨rfl, rfl⟩, rfl⟩, rfl⟩ := hsame
    obtain rfl := Except.ok.inj h
    exact List.mem_of_find?_eq_some hfind
  · cases h

theorem ideal_ofTable {table : List Sealing}
    (hciphers : ∀ s ∈ table, ∀ t ∈ table, s.cipher = t.cipher → s = t)
    (hsizes : ∀ s ∈ table, s.cipher.length = s.plain.length + tagSize ∧ s.key.length = 32) :
    (Aead.ofTable table).Ideal (MadeIn table) := by
  refine ⟨fun key nonce aad plain cipher => ?_, ?_, fun _ _ _ _ _ h => (hsizes _ h).1,
    fun _ _ _ _ _ h => (hsizes _ h).2⟩
  · unfold Aead.ofTable MadeIn
    dsimp only
    cases hfind : table.find? fun s =>
        s.key == key && s.nonce == nonce && s.aad == aad && s.cipher == cipher with
    | none =>
      refine ⟨(nomatch ·), fun h => ?_⟩
      have hnone := List.find?_eq_none.mp hfind _ h
      simp at hnone
    | some s =>
      have hmem := List.mem_of_find?_eq_some hfind
      have hsame := List.find?_some hfind
      simp only [Bool.and_eq_true, beq_iff_eq] at hsame
      obtain ⟨⟨⟨rfl, rfl⟩, rfl⟩, rfl⟩ := hsame
      constructor
      · intro h
        obtain rfl := Except.ok.inj h
        exact hmem
      · intro h
        exact congrArg (fun t => Except.ok t.plain) (hciphers _ hmem _ h rfl)
  · intro key nonce aad plain key' nonce' aad' plain' cipher h h'
    have hsame := hciphers _ h _ h' rfl
    simp only [Sealing.mk.injEq] at hsame
    exact ⟨hsame.1, hsame.2.1, hsame.2.2.1⟩

variable {Kek : Type}

/-- The DEKs that were wrapped, each by a wrapping key. -/
abbrev Wrappings (Kek : Type) := Kek → Bytes → WrappedKey → Prop

/-- Unwrapping succeeds exactly on the DEKs that a key of the provider wrapped. -/
structure KeyProvider.Ideal (provider : KeyProvider) (holds : Kek → Prop)
    (Wrapped : Wrappings Kek) : Prop where
  unwraps : ∀ dek wrapped,
    provider.unwrapDek wrapped = .ok dek ↔ ∃ kek, holds kek ∧ Wrapped kek dek wrapped
  has : ∀ kek dek wrapped, holds kek → Wrapped kek dek wrapped →
    provider.hasKeyId wrapped.keyId = true

/-- A wrapped DEK is the wrapping of one DEK. -/
def WrapsOnce (Wrapped : Wrappings Kek) : Prop :=
  ∀ kek kek' dek dek' wrapped, Wrapped kek dek wrapped → Wrapped kek' dek' wrapped → dek = dek'

/-- The keys that unwrap in a configuration: those of the provider and of the fallback. -/
structure Configured (keys : EncryptionKeys) (primary fallback : Kek → Prop)
    (Wrapped : Wrappings Kek) : Prop where
  provider : keys.provider.Ideal primary Wrapped
  other : ∀ provider, keys.fallbackProvider = some provider → provider.Ideal fallback Wrapped
  alone : keys.fallbackProvider = none → ∀ kek, ¬fallback kek

end

/-!
Contextual envelopes: the data is bound to its record and to the header of the envelope.
-/

def recordMagic : Bytes := [3, 78, 89, 88]

def recordFixedHeader : ℕ := 7

def recordDomain : Bytes := utf8 "nyxid:record-envelope:v3\x00"

def isCollectionByte (b : UInt8) : Bool :=
  (97 ≤ b && b ≤ 122) || (48 ≤ b && b ≤ 57) || b == 95

/-- The components that a context may have. -/
def acceptedContext (collection recordId ownerId : String) (field : List String) : Bool :=
  !((utf8 collection).isEmpty || 128 < (utf8 collection).length ||
    !(utf8 collection).all isCollectionByte || (utf8 recordId).isEmpty ||
    512 < (utf8 recordId).length || (utf8 ownerId).isEmpty || 512 < (utf8 ownerId).length ||
    field.isEmpty || 16 < field.length ||
    field.any fun part => (utf8 part).isEmpty || 1024 < (utf8 part).length)

@[ext]
structure RecordContext where
  collection : String
  recordId : String
  ownerId : String
  field : List String
  accepted : acceptedContext collection recordId ownerId field = true

def RecordContext.new (collection recordId ownerId : String) (field : List String) :
    Except AppError RecordContext :=
  if h : acceptedContext collection recordId ownerId field = true then
    .ok ⟨collection, recordId, ownerId, field, h⟩
  else .error (.internal "Invalid server encryption context")

/-- `encode_component` -/
def component (value : Bytes) : Bytes := framed (beBytes 4) value

def RecordContext.authenticatedBytes (context : RecordContext) (header : Bytes) : Bytes :=
  recordDomain ++
    ([context.collection, context.recordId, context.ownerId].flatMap fun part =>
      component (utf8 part)) ++
    beBytes 4 context.field.length ++ (context.field.flatMap fun part => component (utf8 part)) ++
    component header

def invalidRecord : AppError := .internal "Encrypted field authentication failed"

/-- Format, key selector and wrapped DEK. -/
def recordHeader (wrapped : WrappedKey) : Bytes :=
  recordMagic ++ [wrapped.keyId] ++ beBytes 2 wrapped.ciphertext.length ++ wrapped.ciphertext

def isRecordEnvelope (ciphertext : Bytes) : Bool := recordMagic.isPrefixOf ciphertext

variable (aead : Aead)

/-- The DEK, the nonce and the randomness of the wrapping are those that the call draws. -/
def encryptRecord (keys : EncryptionKeys) (plaintext : Bytes) (context : RecordContext)
    (dek random nonce : Bytes) : Except AppError Bytes :=
  if !keys.contextualRecordWrites then
    .error (.conflict "Encrypted field writes await the configured writer cutover")
  else
    match keys.provider.wrapDek random dek with
    | .error e => .error e
    | .ok wrapped =>
      if wrapped.ciphertext = [] ∨ maxWrappedDekSize < wrapped.ciphertext.length then
        .error invalidRecord
      else
        let header := recordHeader wrapped
        match aead.encrypt dek nonce (context.authenticatedBytes header) plaintext with
        | .error _ => .error invalidRecord
        | .ok encrypted => .ok (header ++ nonce ++ encrypted)

/-- The DEK by the provider or, when every key may be tried, by the fallback that has the key. -/
def unwrapRecord (keys : EncryptionKeys) (wrapped : WrappedKey) (primaryCurrentOnly : Bool) :
    Except AppError Bytes :=
  match keys.provider.unwrapDek wrapped with
  | .ok dek => .ok dek
  | .error _ =>
    if primaryCurrentOnly then .error invalidRecord
    else
      match keys.fallbackProvider with
      | some provider =>
        if provider.hasKeyId wrapped.keyId then
          match provider.unwrapDek wrapped with
          | .ok dek => .ok dek
          | .error _ => .error invalidRecord
        else .error invalidRecord
      | none => .error invalidRecord

def decryptRecordWithPolicy (keys : EncryptionKeys) (ciphertext : Bytes) (context : RecordContext)
    (primaryCurrentOnly : Bool) : Except AppError Bytes :=
  if !isRecordEnvelope ciphertext || ciphertext.length < recordFixedHeader then .error invalidRecord
  else
    let keyId := ciphertext.getD 4 0
    if primaryCurrentOnly && keyId ≠ keys.provider.currentKeyId then .error invalidRecord
    else
      let wrappedLen := (ciphertext.getD 5 0).toNat * 256 + (ciphertext.getD 6 0).toNat
      if wrappedLen = 0 ∨ maxWrappedDekSize < wrappedLen then .error invalidRecord
      else
        let headerLen := recordFixedHeader + wrappedLen
        if ciphertext.length < headerLen + nonceSize + tagSize then .error invalidRecord
        else
          let wrapped := ⟨keyId, (ciphertext.take headerLen).drop recordFixedHeader⟩
          match unwrapRecord keys wrapped primaryCurrentOnly with
          | .error e => .error e
          | .ok dek =>
            if dek.length ≠ 32 then .error invalidRecord
            else
              let aad := context.authenticatedBytes (ciphertext.take headerLen)
              let payload := ciphertext.drop headerLen
              match aead.decrypt dek (payload.take nonceSize) aad (payload.drop nonceSize) with
              | .error _ => .error invalidRecord
              | .ok plaintext => .ok plaintext

def decryptRecord (keys : EncryptionKeys) (ciphertext : Bytes) (context : RecordContext) :
    Except AppError Bytes :=
  decryptRecordWithPolicy aead keys ciphertext context false

/-- A call of `encrypt_record` that returned. -/
structure Run where
  keys : EncryptionKeys
  plaintext : Bytes
  context : RecordContext
  dek : Bytes
  random : Bytes
  nonce : Bytes
  envelope : Bytes
  dekSize : dek.length = 32
  nonceSize : nonce.length = nonceSize
  returned : encryptRecord aead keys plaintext context dek random nonce = .ok envelope

variable {aead}

/-- The encryption that the call made. -/
def Run.Seals (run : Run aead) (key nonce aad plain cipher : Bytes) : Prop :=
  key = run.dek ∧ nonce = run.nonce ∧ plain = run.plaintext ∧
    ∃ wrapped, run.keys.provider.wrapDek run.random run.dek = .ok wrapped ∧
      aad = run.context.authenticatedBytes (recordHeader wrapped) ∧
      aead.encrypt key nonce aad plain = .ok cipher

end

/-!
The provider that wraps with a current key in the process and unwraps with it or a previous one.
-/

/-- The keys of a local provider; their key ids are derived from the key material. -/
structure LocalKeys (deriveKeyId : Bytes → UInt8) where
  current : Bytes
  previous : Option Bytes
  apart : ∀ key, previous = some key → deriveKeyId key ≠ deriveKeyId current

variable {deriveKeyId : Bytes → UInt8}

/-- The key of a key id. -/
def LocalKeys.keyOf (keys : LocalKeys deriveKeyId) (keyId : UInt8) : Option Bytes :=
  if keyId = deriveKeyId keys.current then some keys.current
  else keys.previous.filter fun key => deriveKeyId key == keyId

/-- `LocalKeyProvider`; the randomness of a wrapping is its nonce. -/
def LocalKeys.provider (aead : Aead) (keys : LocalKeys deriveKeyId) : KeyProvider where
  wrapDek random dek :=
    match aead.encrypt keys.current random [] dek with
    | .error e => .error e
    | .ok encrypted => .ok ⟨deriveKeyId keys.current, random ++ encrypted⟩
  unwrapDek wrapped :=
    match keys.keyOf wrapped.keyId with
    | none => .error (.internal "No key available for key id")
    | some key =>
      if wrapped.ciphertext.length < nonceSize then
        .error (.internal "Wrapped DEK ciphertext too short")
      else aead.decrypt key (wrapped.ciphertext.take nonceSize) [] (wrapped.ciphertext.drop nonceSize)
  currentKeyId := deriveKeyId keys.current
  hasKeyId keyId :=
    keyId == deriveKeyId keys.current || keys.previous.map deriveKeyId == some keyId

/-- `LegacyKeys::from_config` -/
def LocalKeys.legacy (keys : LocalKeys deriveKeyId) : LegacyKeys :=
  ⟨keys.current, deriveKeyId keys.current, keys.previous, keys.previous.map deriveKeyId⟩

/-- `EncryptionKeys::from_config` -/
def EncryptionKeys.ofLocal (aead : Aead) (contextualRecordWrites : Bool)
    (keys : LocalKeys deriveKeyId) : EncryptionKeys :=
  ⟨contextualRecordWrites, keys.provider aead, none, some keys.legacy⟩

def LocalKeys.Holds (keys : LocalKeys deriveKeyId) (key : Bytes) : Prop :=
  key = keys.current ∨ keys.previous = some key

/-- The DEKs that local keys encrypted, each under the key id of its key. -/
def LocalWrapped (deriveKeyId : Bytes → UInt8) (Made : Sealings) : Wrappings Bytes :=
  fun key dek wrapped => wrapped.keyId = deriveKeyId key ∧ ∃ nonce encrypted,
    nonce.length = nonceSize ∧ wrapped.ciphertext = nonce ++ encrypted ∧ Made key nonce [] dek encrypted

variable {keys : LocalKeys deriveKeyId}

theorem LocalKeys.keyOf_eq_some {keyId : UInt8} {key : Bytes} :
    keys.keyOf keyId = some key ↔ keys.Holds key ∧ keyId = deriveKeyId key := by
  unfold LocalKeys.keyOf LocalKeys.Holds
  have hapart := keys.apart
  split
  · rename_i hcurrent
    constructor
    · intro h
      obtain rfl := Option.some.inj h
      exact ⟨Or.inl rfl, hcurrent⟩
    · rintro ⟨rfl | hprevious, hid⟩
      · rfl
      · exact absurd (hid.symm.trans hcurrent) (hapart key hprevious)
  · rename_i hcurrent
    rw [Option.filter_eq_some_iff, beq_iff_eq]
    constructor
    · rintro ⟨hprevious, hid⟩
      exact ⟨Or.inr hprevious, hid.symm⟩
    · rintro ⟨rfl | hprevious, hid⟩
      · exact absurd hid hcurrent
      · exact ⟨hprevious, hid.symm⟩

theorem wrapsOnce_localWrapped {aead : Aead} {Made : Sealings} (hideal : aead.Ideal Made) :
    WrapsOnce (LocalWrapped deriveKeyId Made) := by
  rintro key key' dek dek' wrapped ⟨-, nonce, encrypted, hnonce, hbytes, hmade⟩
    ⟨-, nonce', encrypted', hnonce', hbytes', hmade'⟩
  obtain ⟨rfl, rfl⟩ := List.append_inj (hbytes.symm.trans hbytes') (hnonce.trans hnonce'.symm)
  obtain ⟨rfl, -, -⟩ := hideal.once _ _ _ _ _ _ _ _ _ hmade hmade'
  have hopen := (hideal.opens _ _ _ _ _).mpr hmade
  rw [(hideal.opens _ _ _ _ _).mpr hmade'] at hopen
  exact (Except.ok.inj hopen).symm

/-- With AES-256-GCM ideal, local keys unwrap exactly what they wrapped. -/
theorem LocalKeys.ideal {aead : Aead} {Made : Sealings} (hideal : aead.Ideal Made) :
    (keys.provider aead).Ideal keys.Holds (LocalWrapped deriveKeyId Made) := by
  refine ⟨fun dek wrapped => ?_, fun key dek wrapped hholds hwrapped => ?_⟩
  · unfold LocalKeys.provider
    dsimp only
    constructor
    · intro h
      split at h
      · cases h
      rename_i key hkey
      split at h
      · cases h
      rename_i hlen
      obtain ⟨hholds, hid⟩ := LocalKeys.keyOf_eq_some.mp hkey
      refine ⟨key, hholds, hid, wrapped.ciphertext.take nonceSize, wrapped.ciphertext.drop nonceSize,
        ?_, (List.take_append_drop _ _).symm, (hideal.opens _ _ _ _ _).mp h⟩
      rw [List.length_take]
      omega
    · rintro ⟨key, hholds, hid, nonce, encrypted, hnonce, hbytes, hmade⟩
      rw [LocalKeys.keyOf_eq_some.mpr ⟨hholds, hid⟩]
      dsimp only
      have hlen : ¬wrapped.ciphertext.length < nonceSize := by
        rw [hbytes, List.length_append]
        omega
      rw [if_neg hlen, hbytes, ← hnonce, List.take_left, List.drop_left]
      exact (hideal.opens _ _ _ _ _).mpr hmade
  · have hid := hwrapped.1
    unfold LocalKeys.provider
    dsimp only
    rw [hid]
    rcases hholds with rfl | hprevious
    · simp
    · simp [hprevious]

theorem LocalKeys.configured {aead : Aead} {Made : Sealings} (keys : LocalKeys deriveKeyId)
    (hideal : aead.Ideal Made) (writes : Bool) : Configured (EncryptionKeys.ofLocal aead writes keys) keys.Holds
      (fun _ => False) (LocalWrapped deriveKeyId Made) :=
  ⟨LocalKeys.ideal hideal, fun _ h => (nomatch h), fun _ _ h => h⟩

/-- Of the keys of a local provider, the current one has the current key id. -/
theorem LocalKeys.current_of_id {Made : Sealings} {key dek : Bytes} {wrapped : WrappedKey}
    (hholds : keys.Holds key) (hwrapped : LocalWrapped deriveKeyId Made key dek wrapped)
    (hid : wrapped.keyId = deriveKeyId keys.current) : key = keys.current := by
  rcases hholds with hcurrent | hprevious
  · exact hcurrent
  · exact absurd (hwrapped.1.symm.trans hid) (keys.apart key hprevious)

/-- With a table of encryptions, a wrapping that returns is one of the table. -/
theorem localWrapped_of_wrapDek {table : List Sealing} {random dek : Bytes} {wrapped : WrappedKey}
    (hrandom : random.length = nonceSize)
    (h : (keys.provider (Aead.ofTable table)).wrapDek random dek = .ok wrapped) :
    LocalWrapped deriveKeyId (MadeIn table) keys.current dek wrapped ∧
      wrapped.keyId = deriveKeyId keys.current := by
  unfold LocalKeys.provider at h
  dsimp only at h
  split at h
  · cases h
  rename_i encrypted hencrypted
  obtain rfl := Except.ok.inj h
  exact ⟨⟨rfl, random, encrypted, hrandom, rfl, madeIn_of_encrypt hencrypted⟩, rfl⟩

end NyxId.Encryption
