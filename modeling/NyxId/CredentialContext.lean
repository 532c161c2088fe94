import NyxId.Encoding.Records

/-!
The context that a remote credential is bound to. Its two encodings, for the key derivation and
for the authenticated data, write each field after its length; they share no output, and each
determines the fields it encodes.
-/

namespace NyxId.CredentialContext

open Encoding

inductive RciCryptoError where
  | fieldTooLong (field : String)
  deriving DecidableEq

structure RciContext where
  nodeId : String
  pendingCredentialId : String
  serviceSlug : String
  injectionMethod : String
  fieldName : String
  targetUrl : Option String
  version : String
  deriving DecidableEq

def kdfPrefix : List UInt8 := utf8 "nyxid:rci:v1:kdf\x00"

def aadPrefix : List UInt8 := utf8 "nyxid:rci:v1:aad\x00"

/-- The length as a `u16` in big endian, then the bytes. -/
def pushLp (out : List UInt8) (field value : String) : Except RciCryptoError (List UInt8) :=
  let bytes := utf8 value
  if bytes.length < 2 ^ 16 then .ok (out ++ beBytes 2 bytes.length ++ bytes)
  else .error (.fieldTooLong field)

namespace RciContext

def kdfInfoBytes (context : RciContext) : Except RciCryptoError (List UInt8) := do
  let out ← pushLp kdfPrefix "node_id" context.nodeId
  let out ← pushLp out "pending_credential_id" context.pendingCredentialId
  let out ← pushLp out "service_slug" context.serviceSlug
  pushLp out "version" context.version

def aadBytes (context : RciContext) : Except RciCryptoError (List UInt8) := do
  let out ← pushLp aadPrefix "node_id" context.nodeId
  let out ← pushLp out "pending_credential_id" context.pendingCredentialId
  let out ← pushLp out "service_slug" context.serviceSlug
  let out ← pushLp out "injection_method" context.injectionMethod
  let out ← pushLp out "field_name" context.fieldName
  let out ← pushLp out "target_url" (context.targetUrl.getD "")
  pushLp out "version" context.version

/-- The fields of the key derivation, with their names in errors. -/
def kdfFields (context : RciContext) : List (String × String) :=
  [("node_id", context.nodeId), ("pending_credential_id", context.pendingCredentialId),
    ("service_slug", context.serviceSlug), ("version", context.version)]

def aadFields (context : RciContext) : List (String × String) :=
  [("node_id", context.nodeId), ("pending_credential_id", context.pendingCredentialId),
    ("service_slug", context.serviceSlug), ("injection_method", context.injectionMethod),
    ("field_name", context.fieldName), ("target_url", context.targetUrl.getD ""),
    ("version", context.version)]

end RciContext

/-- A record of fields behind its prefix. -/
def pushAll (start : List UInt8) (fields : List (String × String)) :
    Except RciCryptoError (List UInt8) :=
  fields.foldlM (fun out field => pushLp out field.1 field.2) start

def TooLong (value : String) : Prop := 65535 < (utf8 value).length

instance (value : String) : Decidable (TooLong value) :=
  inferInstanceAs (Decidable (65535 < (utf8 value).length))

theorem pushLp_eq_ok {out result : List UInt8} {field value : String} :
    pushLp out field value = .ok result ↔
      ¬ TooLong value ∧ result = out ++ framed (beBytes 2) (utf8 value) := by
  unfold pushLp TooLong framed
  by_cases hlen : (utf8 value).length < 2 ^ 16
  · rw [if_pos hlen, Except.ok.injEq, ← List.append_assoc]
    constructor
    · intro h
      exact ⟨by omega, h.symm⟩
    · intro h
      exact h.2.symm
  · rw [if_neg hlen]
    constructor
    · intro h
      cases h
    · intro h
      omega

theorem pushLp_of_tooLong {out : List UInt8} {field value : String} (h : TooLong value) :
    pushLp out field value = .error (.fieldTooLong field) := by
  unfold TooLong at h
  exact if_neg (by omega)

theorem pushAll_cons_of_tooLong {field : String × String} {rest : List (String × String)}
    {start : List UInt8} (h : TooLong field.2) :
    pushAll start (field :: rest) = .error (.fieldTooLong field.1) := by
  rw [pushAll, List.foldlM_cons, pushLp_of_tooLong h]
  rfl

theorem pushAll_cons_of_fits {field : String × String} {rest : List (String × String)}
    {start : List UInt8} (h : ¬ TooLong field.2) :
    pushAll start (field :: rest) = pushAll (start ++ framed (beBytes 2) (utf8 field.2)) rest := by
  rw [pushAll, List.foldlM_cons, pushLp_eq_ok.mpr ⟨h, rfl⟩]
  rfl

theorem pushAll_eq_ok {fields : List (String × String)} {start result : List UInt8} :
    pushAll start fields = .ok result ↔ (∀ field ∈ fields, ¬ TooLong field.2) ∧
      result = start ++ (fields.map fun field => utf8 field.2).flatMap (framed (beBytes 2)) := by
  induction fields generalizing start with
  | nil => simp [pushAll, eq_comm, pure, Except.pure]
  | cons field rest ih =>
    by_cases hlong : TooLong field.2
    · simp [pushAll_cons_of_tooLong hlong, hlong]
    · rw [pushAll_cons_of_fits hlong, ih]
      simp [hlong]

/-- Encoding stops at the first field that is too long, and names it. -/
theorem pushAll_eq_error {fields : List (String × String)} {start : List UInt8}
    {e : RciCryptoError} : pushAll start fields = .error e ↔
      ∃ field, fields.find? (fun field => TooLong field.2) = some field ∧
        e = .fieldTooLong field.1 := by
  induction fields generalizing start with
  | nil => simp [pushAll, pure, Except.pure]
  | cons field rest ih =>
    by_cases hlong : TooLong field.2
    · simp [pushAll_cons_of_tooLong hlong, hlong, eq_comm]
    · rw [pushAll_cons_of_fits hlong, ih]
      simp [hlong]

theorem pushAll_fails {fields : List (String × String)} {start : List UInt8} :
    (∃ e, pushAll start fields = .error e) ↔ ∃ field ∈ fields, TooLong field.2 := by
  simp only [pushAll_eq_error]
  constructor
  · rintro ⟨e, field, hfind, -⟩
    exact ⟨field, List.mem_of_find?_eq_some hfind, by simpa using List.find?_some hfind⟩
  · intro h
    have hsome : (fields.find? fun field => TooLong field.2).isSome := by
      rw [List.find?_isSome]
      simpa using h
    obtain ⟨field, hfind⟩ := Option.isSome_iff_exists.mp hsome
    exact ⟨_, field, hfind, rfl⟩

theorem beBytes_two_ne_nil (n : ℕ) : beBytes 2 n ≠ [] := by
  intro h
  have hlength := length_beBytes 2 n
  simp [h] at hlength

/-- Behind one prefix, the values of the fields are determined. -/
theorem pushAll_inj {fields fields' : List (String × String)} {start result : List UInt8}
    (h : pushAll start fields = .ok result) (h' : pushAll start fields' = .ok result) :
    fields.map (·.2) = fields'.map (·.2) := by
  obtain ⟨hfit, hresult⟩ := pushAll_eq_ok.mp h
  obtain ⟨hfit', hresult'⟩ := pushAll_eq_ok.mp h'
  have hbytes := List.append_cancel_left (hresult.symm.trans hresult')
  have hsize : ∀ values : List (String × String), (∀ field ∈ values, ¬ TooLong field.2) →
      ∀ bytes ∈ values.map (fun field => utf8 field.2), bytes.length < 256 ^ 2 := by
    intro values hvalues bytes hbytes
    obtain ⟨field, hfield, rfl⟩ := List.mem_map.mp hbytes
    have hshort := hvalues field hfield
    unfold TooLong at hshort
    omega
  have hvalues := flatMap_framed_inj (selfDelimiting_beBytes 2) beBytes_two_ne_nil
    (hsize fields hfit) (hsize fields' hfit') hbytes
  have hmap : ∀ values : List (String × String),
      values.map (fun field => utf8 field.2) = (values.map (·.2)).map utf8 := by
    intro values
    rw [List.map_map]
    rfl
  rw [hmap, hmap] at hvalues
  exact List.map_injective_iff.mpr (fun _ _ => utf8_injective) hvalues

/-- Records behind different prefixes of one length differ. -/
theorem pushAll_ne {fields fields' : List (String × String)} {start start' result result' : List UInt8}
    (hlength : start.length = start'.length) (hne : start ≠ start')
    (h : pushAll start fields = .ok result) (h' : pushAll start' fields' = .ok result') :
    result ≠ result' := by
  rintro rfl
  obtain ⟨-, hresult⟩ := pushAll_eq_ok.mp h
  obtain ⟨-, hresult'⟩ := pushAll_eq_ok.mp h'
  exact hne (List.append_inj_left (hresult.symm.trans hresult') hlength)

namespace RciContext

variable {c c' : RciContext}

theorem kdfInfoBytes_eq (c : RciContext) : c.kdfInfoBytes = pushAll kdfPrefix c.kdfFields := by
  simp [kdfInfoBytes, kdfFields, pushAll]

theorem aadBytes_eq (c : RciContext) : c.aadBytes = pushAll aadPrefix c.aadFields := by
  simp [aadBytes, aadFields, pushAll]

/-- What the key derivation is bound to. -/
structure SameKey (c c' : RciContext) : Prop where
  nodeId : c.nodeId = c'.nodeId
  pendingCredentialId : c.pendingCredentialId = c'.pendingCredentialId
  serviceSlug : c.serviceSlug = c'.serviceSlug
  version : c.version = c'.version

/-- All fields are the same; an absent target is an empty one. -/
structure Same (c c' : RciContext) : Prop extends SameKey c c' where
  injectionMethod : c.injectionMethod = c'.injectionMethod
  fieldName : c.fieldName = c'.fieldName
  targetUrl : c.targetUrl.getD "" = c'.targetUrl.getD ""

theorem sameKey_of_kdf (h : c.kdfFields.map (·.2) = c'.kdfFields.map (·.2)) : SameKey c c' := by
  simp only [kdfFields, List.map_cons, List.map_nil, List.cons.injEq, and_true] at h
  obtain ⟨hnode, hpending, hslug, hversion⟩ := h
  exact ⟨hnode, hpending, hslug, hversion⟩

theorem same_of_aad (h : c.aadFields.map (·.2) = c'.aadFields.map (·.2)) : Same c c' := by
  simp only [aadFields, List.map_cons, List.map_nil, List.cons.injEq, and_true] at h
  obtain ⟨hnode, hpending, hslug, hmethod, hfield, htarget, hversion⟩ := h
  exact ⟨⟨hnode, hpending, hslug, hversion⟩, hmethod, hfield, htarget⟩

/-- Equal outputs come from the same fields, the two encodings share no output, and an encoding
fails for its long fields alone. -/
theorem encodings_bind :
    (∀ (c c' : RciContext) out, c.aadBytes = .ok out → c'.aadBytes = .ok out → Same c c') ∧
    (∀ (c c' : RciContext) out, c.kdfInfoBytes = .ok out → c'.kdfInfoBytes = .ok out →
      SameKey c c') ∧
    (∀ (c c' : RciContext) out out', c.aadBytes = .ok out → c'.kdfInfoBytes = .ok out' →
      out ≠ out') ∧
    ∀ c : RciContext,
      ((∃ e, c.aadBytes = .error e) ↔ ∃ field ∈ c.aadFields, TooLong field.2) ∧
      ((∃ e, c.kdfInfoBytes = .error e) ↔ ∃ field ∈ c.kdfFields, TooLong field.2) := by
  simp only [aadBytes_eq, kdfInfoBytes_eq]
  refine ⟨?_, ?_, ?_, fun c => ⟨pushAll_fails, pushAll_fails⟩⟩
  · intro c c' out h h'
    exact same_of_aad (pushAll_inj h h')
  · intro c c' out h h'
    exact sameKey_of_kdf (pushAll_inj h h')
  · intro c c' out out' h h'
    exact pushAll_ne (by decide) (by decide) h h'

def sampleContext (serviceSlug injectionMethod : String) : RciContext :=
  ⟨"node", "pending", serviceSlug, injectionMethod, "Authorization", none, "1"⟩

/-- A byte that moves from one field to the next changes the output. -/
theorem moved_byte_bound : ∃ out out', (sampleContext "slack" "header").aadBytes = .ok out ∧
    (sampleContext "slackh" "eader").aadBytes = .ok out' ∧ out ≠ out' := by
  obtain ⟨hinjective, -, -, hfails⟩ := encodings_bind
  have hencodes (c : RciContext) (hshort : ∀ field ∈ c.aadFields, ¬ TooLong field.2) :
      ∃ out, c.aadBytes = .ok out := by
    cases hout : c.aadBytes with
    | ok out => exact ⟨out, rfl⟩
    | error e =>
      obtain ⟨field, hfield, hlong⟩ := (hfails c).1.mp ⟨e, hout⟩
      exact absurd hlong (hshort field hfield)
  obtain ⟨out, hout⟩ := hencodes (sampleContext "slack" "header") (by decide)
  obtain ⟨out', hout'⟩ := hencodes (sampleContext "slackh" "eader") (by decide)
  refine ⟨out, out', hout, hout', fun hsame => ?_⟩
  exact absurd (hinjective _ _ out hout (hsame ▸ hout')).serviceSlug (by decide)

end RciContext

end NyxId.CredentialContext
