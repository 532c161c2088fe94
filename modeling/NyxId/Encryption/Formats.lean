import NyxId.Encryption.Model

/-!
The formats before contextual envelopes: an envelope of a wrapped DEK (v2), a payload after a key
id (v1) and a bare payload (v0).
-/

namespace NyxId.Encryption

open Encoding

def versionV1 : UInt8 := 1

def versionV2 : UInt8 := 2

def draftKeyIdCurrent : UInt8 := 0

def draftKeyIdPrevious : UInt8 := 1

def v1HeaderSize : ℕ := 2

def v1MinSize : ℕ := v1HeaderSize + nonceSize + tagSize

def v2HeaderSize : ℕ := 4

def v2MinSize : ℕ := v2HeaderSize + 1 + nonceSize + tagSize

def looksLikeV2 (data : Bytes) : Bool := v2MinSize ≤ data.length && data.getD 0 0 == versionV2

def looksLikeV1 (data : Bytes) : Bool := v1MinSize ≤ data.length && data.getD 0 0 == versionV1

/-- The wrapped DEK and the data portion, unless the length of the wrapped DEK is malformed. -/
def v2Parts (ciphertext : Bytes) : Option (WrappedKey × Bytes) :=
  let wrappedLen := (ciphertext.getD 2 0).toNat * 256 + (ciphertext.getD 3 0).toNat
  if wrappedLen ≤ maxWrappedDekSize ∧ 0 < wrappedLen ∧
      v2HeaderSize + wrappedLen + nonceSize + tagSize ≤ ciphertext.length then
    some (⟨ciphertext.getD 1 0, (ciphertext.drop v2HeaderSize).take wrappedLen⟩,
      ciphertext.drop (v2HeaderSize + wrappedLen))
  else none

def v2Header (wrapped : WrappedKey) : Bytes :=
  [versionV2, wrapped.keyId] ++ beBytes 2 wrapped.ciphertext.length ++ wrapped.ciphertext

variable (aead : Aead)

/-- `decrypt_raw` and, with associated data, `decrypt_raw_with_aad` -/
def decryptRaw (data key aad : Bytes) : Except AppError Bytes :=
  if data.length < nonceSize then .error (.internal "Ciphertext too short to contain nonce")
  else aead.decrypt key (data.take nonceSize) aad (data.drop nonceSize)

/-- The DEK by the provider, else by the fallback that has the key. -/
def EncryptionKeys.unwrap (keys : EncryptionKeys) (wrapped : WrappedKey) : Option Bytes :=
  match keys.provider.unwrapDek wrapped with
  | .ok dek => some dek
  | .error _ =>
    match keys.fallbackProvider with
    | some fallback =>
      if fallback.hasKeyId wrapped.keyId then (fallback.unwrapDek wrapped).toOption else none
    | none => none

def decryptWithDek (data dek aad : Bytes) : Except AppError Bytes :=
  if dek.length ≠ 32 then .error (.internal "Unwrapped DEK is not 32 bytes")
  else decryptRaw aead data dek aad

/-- Once a DEK is unwrapped, no other format is tried. -/
def decryptV2 (keys : EncryptionKeys) (ciphertext aad : Bytes) : Option (Except AppError Bytes) :=
  if looksLikeV2 ciphertext then
    match v2Parts ciphertext with
    | some (wrapped, data) => (keys.unwrap wrapped).map fun dek => decryptWithDek aead data dek aad
    | none => none
  else none

def tryCurrent (legacy : LegacyKeys) (payload aad : Bytes) : Option Bytes :=
  (decryptRaw aead payload legacy.current aad).toOption

def tryPrevious (legacy : LegacyKeys) (payload aad : Bytes) : Option Bytes :=
  legacy.previous.bind fun previous => (decryptRaw aead payload previous aad).toOption

def decryptV1 (keys : EncryptionKeys) (ciphertext aad : Bytes) : Option Bytes :=
  if looksLikeV1 ciphertext then
    match keys.legacy with
    | some legacy =>
      let keyId := ciphertext.getD 1 0
      let payload := ciphertext.drop v1HeaderSize
      if keyId = legacy.currentId then tryCurrent aead legacy payload aad
      else if legacy.previousId = some keyId then tryPrevious aead legacy payload aad
      else if keyId = draftKeyIdCurrent ∨ keyId = draftKeyIdPrevious then
        (tryCurrent aead legacy payload aad).or (tryPrevious aead legacy payload aad)
      else none
    | none => none
  else none

def decryptV0 (keys : EncryptionKeys) (ciphertext aad : Bytes) : Option Bytes :=
  keys.legacy.bind fun legacy =>
    (tryCurrent aead legacy ciphertext aad).or (tryPrevious aead legacy ciphertext aad)

def decryptWithAad (keys : EncryptionKeys) (ciphertext aad : Bytes) : Except AppError Bytes :=
  match decryptV2 aead keys ciphertext aad with
  | some result => result
  | none =>
    match (decryptV1 aead keys ciphertext aad).or (decryptV0 aead keys ciphertext aad) with
    | some plain => .ok plain
    | none => .error (.internal "AES decryption failed: no key could decrypt the data")

def decrypt (keys : EncryptionKeys) (ciphertext : Bytes) : Except AppError Bytes :=
  decryptWithAad aead keys ciphertext []

/-- The DEK, and whether the primary provider unwrapped it; the fallback is not asked for the id. -/
def unwrapForRewrap (keys : EncryptionKeys) (wrapped : WrappedKey) :
    Except AppError (Bytes × Bool) :=
  match keys.provider.unwrapDek wrapped with
  | .ok dek => .ok (dek, true)
  | .error _ =>
    match keys.fallbackProvider with
    | none => .error (.internal "No provider could unwrap DEK for rewrap")
    | some fallback => (fallback.unwrapDek wrapped).map fun dek => (dek, false)

def rewrapWithAad (keys : EncryptionKeys) (ciphertext aad random : Bytes) : Except AppError Bytes :=
  if !looksLikeV2 ciphertext then
    .error (.internal "rewrap() only supports v2 envelope format")
  else
    match v2Parts ciphertext with
    | none => .error (.internal "Malformed v2 ciphertext")
    | some (wrapped, data) =>
      match unwrapForRewrap keys wrapped with
      | .error e => .error e
      | .ok (dek, primaryUnwrapped) =>
        match decryptRaw aead data dek aad with
        | .error e => .error e
        | .ok _ =>
          if primaryUnwrapped && wrapped.keyId == keys.provider.currentKeyId then .ok ciphertext
          else
            match keys.provider.wrapDek random dek with
            | .error e => .error e
            | .ok rewrapped =>
              if rewrapped.ciphertext = [] ∨ maxWrappedDekSize < rewrapped.ciphertext.length then
                .error (.internal "Invalid wrapped DEK size")
              else .ok (v2Header rewrapped ++ data)

end NyxId.Encryption
