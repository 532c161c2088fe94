import NyxId.MachineRequests.Model

/-!
The bytes that a signature is computed over bind every field of a request: the authority
records are told apart by their canonical text, the three framings by their first bytes,
and the fields by the lengths before them.
-/

namespace NyxId.MachineRequests

open Encoding MachineAuthority

theorem length_eq_of_sortKeys {ms ns : List (String × Json)}
    (h : sortKeys (.object ms) = sortKeys (.object ns)) : ms.length = ns.length := by
  rw [sortKeys, sortKeys, sortValues_eq_map, sortValues_eq_map] at h
  have hlengths := ((perm_sortMembers _).symm.trans
    ((Json.object.inj h) ▸ perm_sortMembers _)).length_eq
  rw [List.length_map, List.length_map] at hlengths
  exact hlengths.symm

theorem tells_unsigned : Tells unsignedJson := by
  intro a b h
  exact UInt64.toNat_inj.mp (Int.natCast_inj.mp (tells_integer _ _ h))

theorem tells_signed : Tells signedJson := by
  intro a b h
  exact Int64.toInt_inj.mp (tells_integer _ _ h)

theorem tells_optionString : Tells (optionJson .string) := by
  refine tells_option tells_string fun a => ?_
  rw [sortKeys]
  nofun

theorem sortKeys_integerJson_ne_null (n : ℤ) : sortKeys (integerJson n) ≠ .null := by
  unfold integerJson
  rw [sortKeys]
  nofun

theorem tells_optionUnsigned : Tells (optionJson unsignedJson) :=
  tells_option tells_unsigned fun a => sortKeys_integerJson_ne_null a.toNat

theorem tells_optionSigned : Tells (optionJson signedJson) :=
  tells_option tells_signed fun a => sortKeys_integerJson_ne_null a.toInt

theorem tells_capabilities : Tells Capabilities.toJson := by
  intro a b h
  have hfields := sortKeys_object_inj
    ["shell", "files", "browser", "computer", "developer_browser"]
    ⟨rfl, by decide⟩ ⟨rfl, by decide⟩ h
  simp only [List.map_cons, List.map_nil, List.cons.injEq, and_true] at hfields
  obtain ⟨hshell, hfiles, hbrowser, hcomputer, hdeveloper⟩ := hfields
  cases a
  cases b
  rw [Capabilities.mk.injEq]
  exact ⟨tells_bool _ _ hshell, tells_bool _ _ hfiles, tells_bool _ _ hbrowser,
    tells_bool _ _ hcomputer, tells_bool _ _ hdeveloper⟩

theorem tells_authority : Tells Authority.toJson := by
  intro a b h
  have hfields := sortKeys_object_inj
    ["require_v2", "context_id", "generation", "mode", "agent_id", "owner_id", "actor_id",
      "group_id", "runtime_id", "conversation_id", "turn_id", "lease_id", "revision",
      "expires_at_ms", "capabilities"]
    ⟨rfl, by decide⟩ ⟨rfl, by decide⟩ h
  simp only [List.map_cons, List.map_nil, List.cons.injEq, and_true] at hfields
  obtain ⟨hrequire, hcontext, hgeneration, hmode, hagent, howner, hactor, hgroup, hruntime,
    hconversation, hturn, hlease, hrevision, hexpires, hcapabilities⟩ := hfields
  cases a
  cases b
  rw [Authority.mk.injEq]
  exact ⟨tells_bool _ _ hrequire, tells_string _ _ hcontext, tells_unsigned _ _ hgeneration,
    tells_string _ _ hmode, tells_string _ _ hagent, tells_string _ _ howner,
    tells_string _ _ hactor, tells_optionString _ _ hgroup, tells_string _ _ hruntime,
    tells_string _ _ hconversation, tells_string _ _ hturn, tells_string _ _ hlease,
    tells_signed _ _ hrevision, tells_signed _ _ hexpires, tells_capabilities _ _ hcapabilities⟩

theorem tells_principal : Tells ExternalPrincipal.toJson := by
  intro a b h
  cases a with
  | oauth userId clientId =>
    cases b with
    | oauth userId' clientId' =>
      have hfields := sortKeys_object_inj ["kind", "user_id", "oauth_client_id"]
        ⟨rfl, by decide⟩ ⟨rfl, by decide⟩ h
      simp only [List.map_cons, List.map_nil, List.cons.injEq, and_true] at hfields
      rw [tells_string _ _ hfields.2.1, tells_string _ _ hfields.2.2]
    | apiKey userId' keyId' credentialId' => exact absurd (length_eq_of_sortKeys h) (by simp)
  | apiKey userId keyId credentialId =>
    cases b with
    | oauth userId' clientId' => exact absurd (length_eq_of_sortKeys h) (by simp)
    | apiKey userId' keyId' credentialId' =>
      have hfields := sortKeys_object_inj
        ["kind", "user_id", "api_key_id", "api_key_credential_id"]
        ⟨rfl, by decide⟩ ⟨rfl, by decide⟩ h
      simp only [List.map_cons, List.map_nil, List.cons.injEq, and_true] at hfields
      rw [tells_string _ _ hfields.2.1, tells_string _ _ hfields.2.2.1,
        tells_optionString _ _ hfields.2.2.2]

theorem tells_consent : Tells OAuthConsent.toJson := by
  intro a b h
  have hfields := sortKeys_object_inj ["consent_id", "consent_revision"]
    ⟨rfl, by decide⟩ ⟨rfl, by decide⟩ h
  simp only [List.map_cons, List.map_nil, List.cons.injEq, and_true] at hfields
  cases a
  cases b
  rw [OAuthConsent.mk.injEq]
  exact ⟨tells_string _ _ hfields.1, tells_string _ _ hfields.2⟩

theorem tells_service : Tells DeclaredService.toJson := by
  intro a b h
  have hfields := sortKeys_object_inj ["id", "slug"] ⟨rfl, by decide⟩ ⟨rfl, by decide⟩ h
  simp only [List.map_cons, List.map_nil, List.cons.injEq, and_true] at hfields
  cases a
  cases b
  rw [DeclaredService.mk.injEq]
  exact ⟨tells_string _ _ hfields.1, tells_string _ _ hfields.2⟩

theorem tells_optionConsent : Tells (optionJson OAuthConsent.toJson) := by
  refine tells_option tells_consent fun a => ?_
  rw [OAuthConsent.toJson, sortKeys]
  nofun

theorem tells_externalAuthority : Tells ExternalAuthority.toJson := by
  intro a b h
  have hfields := sortKeys_object_inj
    ["principal", "oauth_consent", "context_id", "generation", "mode", "owner_id",
      "actor_id", "node_id", "runtime_id", "runtime_generation", "credential_epoch", "grant_id",
      "grant_revision", "assignment_revision", "lease_id", "job_id", "expires_at_ms",
      "auth_expires_at_ms", "job_expires_at_ms", "funding_expires_at_ms", "capabilities",
      "file_roots", "services"]
    ⟨rfl, by decide⟩ ⟨rfl, by decide⟩ h
  simp only [List.map_cons, List.map_nil, List.cons.injEq, and_true] at hfields
  obtain ⟨hprincipal, hconsent, hcontext, hgeneration, hmode, howner, hactor, hnode, hruntime,
    hruntimeGeneration, hepoch, hgrant, hgrantRevision, hassignment, hlease, hjob, hexpires,
    hauthExpires, hjobExpires, hfunding, hcapabilities, hroots, hservices⟩ := hfields
  cases a
  cases b
  rw [ExternalAuthority.mk.injEq]
  exact ⟨tells_principal _ _ hprincipal, tells_optionConsent _ _ hconsent,
    tells_string _ _ hcontext, tells_unsigned _ _ hgeneration, tells_string _ _ hmode,
    tells_string _ _ howner, tells_string _ _ hactor, tells_string _ _ hnode,
    tells_string _ _ hruntime, tells_optionUnsigned _ _ hruntimeGeneration,
    tells_optionUnsigned _ _ hepoch, tells_string _ _ hgrant, tells_signed _ _ hgrantRevision,
    tells_signed _ _ hassignment, tells_string _ _ hlease, tells_optionString _ _ hjob,
    tells_signed _ _ hexpires, tells_signed _ _ hauthExpires, tells_signed _ _ hjobExpires,
    tells_optionSigned _ _ hfunding, tells_capabilities _ _ hcapabilities,
    tells_list tells_string _ _ hroots, tells_list tells_service _ _ hservices⟩

theorem canonical_inj {v w : Json} (h : canonical v = canonical w) : sortKeys v = sortKeys w :=
  writeJson_injective (String.ofList_injective (utf8_injective h))

theorem authority_inj {a b : Option Authority}
    (h : canonical (optionJson Authority.toJson a) = canonical (optionJson Authority.toJson b)) :
    a = b := by
  refine tells_option tells_authority (fun a => ?_) a b (canonical_inj h)
  rw [Authority.toJson, sortKeys]
  nofun

theorem externalAuthority_inj {a b : Option ExternalAuthority}
    (h : canonical (optionJson ExternalAuthority.toJson a) =
      canonical (optionJson ExternalAuthority.toJson b)) : a = b := by
  refine tells_option tells_externalAuthority (fun a => ?_) a b (canonical_inj h)
  rw [ExternalAuthority.toJson, sortKeys]
  nofun

def operations : List Operation :=
  [.authorityRenew, .authorityRevoke, .proxyUpload, .serviceCall, .jobFinished, .exec, .job,
    .jobCancel, .listFiles, .readFile, .writeFile, .editFile, .saveAttachment, .shareFile,
    .computer, .browser, .cancel, .cancelExact, .upgrade, .upgradeStatus, .containerInspect,
    .containerMigrate, .desktopOpen, .desktopClose, .desktopControl, .desktopInput, .fillLogin]

theorem operation_ofStr (operation : Operation) :
    (operations.find? fun other => other.asStr = operation.asStr) = some operation := by
  cases operation <;> decide

theorem asStr_injective {a b : Operation} (h : a.asStr = b.asStr) : a = b := by
  have ha := operation_ofStr a
  rw [h, operation_ofStr b] at ha
  exact (Option.some.inj ha).symm

theorem operationText_inj {a b : Operation}
    (h : utf8 (String.ofList (writeString a.asStr)) = utf8 (String.ofList (writeString b.asStr))) :
    a = b := by
  have htext := String.ofList_injective (utf8_injective h)
  have hboth : writeString a.asStr ++ [] = writeString b.asStr ++ [] := by rw [htext]
  exact asStr_injective (writeString_append_inj hboth).1

/-- Two requests with the same signed content. -/
structure SameRequest (r r' : Request) : Prop where
  version : r.version = r'.version
  authority : r.authority = r'.authority
  externalAuthority : r.externalAuthority = r'.externalAuthority
  requestId : r.requestId = r'.requestId
  nodeId : r.nodeId = r'.nodeId
  operation : r.operation = r'.operation
  timestamp : r.timestamp = r'.timestamp
  nonce : r.nonce = r'.nonce
  parameters : r.parameters.Same r'.parameters

/-- The texts whose digests a signature is computed over. -/
def digested (r : Request) : Set (List UInt8) :=
  {canonical r.parameters, authorityText r, externalAuthorityText r}

section

variable {crypto : Crypto} {r r' : Request}

theorem version_cases {nodeId : String} {secret : List UInt8}
    (h : wellShaped crypto r nodeId secret = true) :
    (r.version = 1 ∧ r.authority = none ∧ r.externalAuthority = none) ∨
      (r.version = 2 ∧ r.externalAuthority = none) ∨ (r.version = 3 ∧ r.authority = none) := by
  unfold wellShaped at h
  simp only [Bool.not_eq_true', Bool.or_eq_false_iff, Bool.and_eq_false_iff, decide_eq_false_iff_not,
    decide_not, Bool.not_eq_false', decide_eq_true_eq, Option.isSome_eq_false_iff,
    Option.isNone_iff_eq_none] at h
  obtain ⟨⟨⟨⟨⟨⟨⟨⟨hversion, hone⟩, -⟩, hother⟩, hthree⟩, -⟩, -⟩, -⟩, -⟩ := h
  rcases hversion with hv | hv | hv
  · refine Or.inl ⟨hv, hone.resolve_left (by simp [hv]), hother.resolve_left ?_⟩
    simp [hv]
  · refine Or.inr (Or.inl ⟨hv, hother.resolve_left ?_⟩)
    simp [hv]
  · refine Or.inr (Or.inr ⟨hv, ?_⟩)
    exact (hthree.resolve_left (by simp [hv])).2

theorem frames_inj (hfree : Set.InjOn crypto.sha256 (digested r ∪ digested r'))
    (h : (frames crypto r).flatMap (framed (beBytes 8)) =
      (frames crypto r').flatMap (framed (beBytes 8))) :
    r.requestId = r'.requestId ∧ r.nodeId = r'.nodeId ∧ r.operation = r'.operation ∧
      r.timestamp = r'.timestamp ∧ r.nonce = r'.nonce ∧ r.parameters.Same r'.parameters := by
  have hsize (other : Request) : ∀ field ∈ frames crypto other, field.length < 256 ^ 8 := by
    obtain ⟨hrequest, hnode, hnonce⟩ := other.sizes
    unfold FitsInMemory at hrequest hnode hnonce
    have hoperation : (utf8 (String.ofList (writeString other.operation.asStr))).length < 256 ^ 8 := by
      cases other.operation <;> decide
    intro field hfield
    simp only [frames, List.mem_cons, List.not_mem_nil, or_false] at hfield
    rcases hfield with rfl | rfl | rfl | rfl | rfl | rfl
    · rw [length_utf8]
      omega
    · rw [length_utf8]
      omega
    · exact hoperation
    · rw [Vector.length_toList]
      decide
    · rw [length_beBytes]
      decide
    · rw [length_utf8]
      omega
  have hne : ∀ n, beBytes 8 n ≠ [] := by
    intro n hnil
    have hlength := length_beBytes 8 n
    rw [hnil] at hlength
    cases hlength
  have hframes := flatMap_framed_inj (selfDelimiting_beBytes 8) hne (hsize r) (hsize r') h
  simp only [frames, List.cons.injEq, and_true] at hframes
  obtain ⟨hrequest, hnode, hoperation, hdigest, htimestamp, hnonce⟩ := hframes
  have hparameters : canonical r.parameters = canonical r'.parameters :=
    hfree (Or.inl (Or.inl rfl)) (Or.inr (Or.inl rfl)) (Vector.toList_inj.mp hdigest)
  have hclock : r.timestamp.toUInt64 = r'.timestamp.toUInt64 :=
    UInt64.toNat_inj.mp (beBytes_injective r.timestamp.toUInt64.toNat_lt
      r'.timestamp.toUInt64.toNat_lt htimestamp)
  have hsigned : r.timestamp = r'.timestamp := by
    show (⟨r.timestamp.toUInt64⟩ : Int64) = ⟨r'.timestamp.toUInt64⟩
    rw [hclock]
  exact ⟨utf8_injective hrequest, utf8_injective hnode, operationText_inj hoperation, hsigned,
    utf8_injective hnonce, same_of_sortKeys _ _ (canonical_inj hparameters)⟩

theorem domain_one (h : r.version = 1) : domain crypto r = utf8 "nyxid.machine.request.v1\x00" := by
  unfold domain
  rw [h, if_neg (by decide), if_neg (by decide)]

theorem domain_two (h : r.version = 2) : domain crypto r =
    utf8 "nyxid.machine.request.v2\x00" ++
      ((crypto.sha256 (authorityText r)).toList ++ beBytes 4 2) := by
  unfold domain
  rw [h, if_neg (by decide), if_pos (by decide)]
  rfl

theorem domain_three (h : r.version = 3) : domain crypto r =
    utf8 "nyxid.machine.request.v3\x00" ++
      ((crypto.sha256 (externalAuthorityText r)).toList ++ beBytes 4 3) := by
  unfold domain
  rw [h, if_pos (by decide)]
  rfl

/-- Framings of different versions differ in their first bytes. -/
theorem prefix_ne {a b r s : List UInt8} (hlength : a.length = b.length) (hne : a ≠ b) :
    a ++ r ≠ b ++ s := fun h => hne (List.append_inj h hlength).1

/-- Well-shaped requests that feed the same bytes agree on every signed field. -/
theorem sameRequest_of_macInput {nodeId nodeId' : String} {secret secret' : List UInt8}
    (hr : wellShaped crypto r nodeId secret = true)
    (hr' : wellShaped crypto r' nodeId' secret' = true)
    (hfree : Set.InjOn crypto.sha256 (digested r ∪ digested r'))
    (h : macInput crypto r = macInput crypto r') : SameRequest r r' := by
  have hbuild (hversion : r.version = r'.version) (hauthority : r.authority = r'.authority)
      (hexternal : r.externalAuthority = r'.externalAuthority)
      (hframes : (frames crypto r).flatMap (framed (beBytes 8)) =
        (frames crypto r').flatMap (framed (beBytes 8))) : SameRequest r r' := by
    obtain ⟨hrequest, hnode, hoperation, htimestamp, hnonce, hparameters⟩ := frames_inj hfree hframes
    exact ⟨hversion, hauthority, hexternal, hrequest, hnode, hoperation, htimestamp, hnonce,
      hparameters⟩
  unfold macInput at h
  rcases version_cases hr with ⟨hv, ha, he⟩ | ⟨hv, he⟩ | ⟨hv, ha⟩ <;>
    rcases version_cases hr' with ⟨hv', ha', he'⟩ | ⟨hv', he'⟩ | ⟨hv', ha'⟩
  · rw [domain_one hv, domain_one hv'] at h
    exact hbuild (hv.trans hv'.symm) (ha.trans ha'.symm) (he.trans he'.symm)
      (List.append_cancel_left h)
  · rw [domain_one hv, domain_two hv', List.append_assoc] at h
    exact absurd h (prefix_ne (by decide) (by decide))
  · rw [domain_one hv, domain_three hv', List.append_assoc] at h
    exact absurd h (prefix_ne (by decide) (by decide))
  · rw [domain_two hv, domain_one hv', List.append_assoc] at h
    exact absurd h (prefix_ne (by decide) (by decide))
  · rw [domain_two hv, domain_two hv'] at h
    simp only [List.append_assoc] at h
    obtain ⟨hdigest, hrest⟩ := List.append_inj (List.append_cancel_left h)
      (by rw [Vector.length_toList, Vector.length_toList])
    have htext : authorityText r = authorityText r' :=
      hfree (Or.inl (Or.inr (Or.inl rfl))) (Or.inr (Or.inr (Or.inl rfl)))
        (Vector.toList_inj.mp hdigest)
    exact hbuild (hv.trans hv'.symm) (authority_inj htext) (he.trans he'.symm)
      (List.append_cancel_left hrest)
  · rw [domain_two hv, domain_three hv'] at h
    simp only [List.append_assoc] at h
    exact absurd h (prefix_ne (by decide) (by decide))
  · rw [domain_three hv, domain_one hv', List.append_assoc] at h
    exact absurd h (prefix_ne (by decide) (by decide))
  · rw [domain_three hv, domain_two hv'] at h
    simp only [List.append_assoc] at h
    exact absurd h (prefix_ne (by decide) (by decide))
  · rw [domain_three hv, domain_three hv'] at h
    simp only [List.append_assoc] at h
    obtain ⟨hdigest, hrest⟩ := List.append_inj (List.append_cancel_left h)
      (by rw [Vector.length_toList, Vector.length_toList])
    have htext : externalAuthorityText r = externalAuthorityText r' :=
      hfree (Or.inl (Or.inr (Or.inr rfl))) (Or.inr (Or.inr (Or.inr rfl)))
        (Vector.toList_inj.mp hdigest)
    exact hbuild (hv.trans hv'.symm) (ha.trans ha'.symm) (externalAuthority_inj htext)
      (List.append_cancel_left hrest)

end

end NyxId.MachineRequests
