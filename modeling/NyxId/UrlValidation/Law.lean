import NyxId.Encoding.Records
import NyxId.Outcomes
import NyxId.UrlValidation.Model

/-!
Metadata endpoints. An accepted URL names none of them in any spelling of its host, and an
address that is public by one validator is no endpoint by the other.
-/

namespace NyxId.UrlValidation

open Encoding (isWhitespace trim)

def metadataName : List Char := "metadata.google.internal".toList

def awsMetadata : Ipv4Addr := ⟨169, 254, 169, 254⟩

def alibabaMetadata : Ipv4Addr := ⟨100, 100, 100, 200⟩

def azureMetadata : Ipv4Addr := ⟨168, 63, 129, 16⟩

def awsMetadataIpv6 : Ipv6Addr := ⟨[0xfd, 0, 0x0e, 0xc2, 0, 0, 0, 0, 0, 0, 0, 0, 0, 0, 2, 0x54], rfl⟩

def metadataAddresses : List IpAddr :=
  [.v4 awsMetadata, .v4 alibabaMetadata, .v4 azureMetadata, .v6 awsMetadataIpv6]

def IpAddr.text : IpAddr → List Char
  | .v4 ip => ip.text
  | .v6 ip => ip.text

/-- A domain in any case, with any number of dots after it. -/
def Host.Spells (host : Host) (name : List Char) : Prop :=
  ∃ text, host = .domain text ∧ (text.rdropWhile (· = '.')).map Char.toLower = name

/-- The host that is read of an address. -/
def IpAddr.host : IpAddr → Host
  | .v4 ip => .ipv4 ip
  | .v6 ip => .ipv6 ip

/-- The host is the address, as the parser has read it or as a domain that spells it. -/
def Host.Denotes (host : Host) (ip : IpAddr) : Prop := host.Spells ip.text ∨ host = ip.host

/-- The host is the address mapped into IPv6. -/
def Host.Maps (host : Host) (ip : IpAddr) : Prop :=
  ∃ v6 v4, host = .ipv6 v6 ∧ ip = .v4 v4 ∧ v6.toIpv4Mapped = some v4

/-! ### Bare hosts -/

theorem toLower_eq_self {c : Char} (h : ¬ (65 ≤ c.toNat ∧ c.toNat ≤ 90)) : c.toLower = c := by
  unfold Char.toLower
  rw [dif_neg]
  intro ⟨hlow, hhigh⟩
  rw [ge_iff_le, UInt32.le_iff_toNat_le] at hlow
  rw [UInt32.le_iff_toNat_le] at hhigh
  exact h ⟨hlow, hhigh⟩

theorem dropWhile_eq_self {p : Char → Bool} {text : List Char} (h : ∀ c ∈ text, p c = false) :
    text.dropWhile p = text := by
  cases text with
  | nil => rfl
  | cons c rest => rw [List.dropWhile_cons_of_neg (by simp [h c List.mem_cons_self])]

theorem rdropWhile_eq_self {p : Char → Bool} {text : List Char} (h : ∀ c ∈ text, p c = false) :
    text.rdropWhile p = text := by
  rw [List.rdropWhile_eq_self_iff]
  intro hne
  rw [h _ (List.getLast_mem hne)]
  exact Bool.false_ne_true

/-- No bracket, no white space: the characters a name is made of. -/
def Plain (c : Char) : Prop := c ≠ '[' ∧ c ≠ ']' ∧ isWhitespace c = false

instance (c : Char) : Decidable (Plain c) := inferInstanceAs (Decidable (_ ∧ _ ∧ _))

theorem toLower_of_not_plain {c : Char} (h : ¬ Plain c) : c.toLower = c := by
  apply toLower_eq_self
  intro ⟨hlow, hhigh⟩
  refine h ⟨?_, ?_, ?_⟩
  · intro hc
    rw [hc] at hhigh
    exact absurd hhigh (by decide)
  · intro hc
    rw [hc] at hhigh
    exact absurd hhigh (by decide)
  · simp only [isWhitespace, Bool.or_eq_false_iff, Bool.and_eq_false_iff, decide_eq_false_iff_not]
    omega

theorem trim_eq_self {text : List Char} (hfirst : ∀ c ∈ text.head?, isWhitespace c = false)
    (hlast : ∀ c ∈ text.getLast?, isWhitespace c = false) : trim text = text := by
  have hfront : text.dropWhile isWhitespace = text := by
    cases text with
    | nil => rfl
    | cons c rest => rw [List.dropWhile_cons_of_neg (by simp [hfirst c rfl])]
  have hback : text.reverse.dropWhile isWhitespace = text.reverse := by
    rw [← List.head?_reverse] at hlast
    cases hreverse : text.reverse with
    | nil => rfl
    | cons c rest =>
      rw [hreverse] at hlast
      rw [List.dropWhile_cons_of_neg (by simp [hlast c rfl])]
  rw [trim, hfront, hback, List.reverse_reverse]

/-- A spelled name is bare but for its case and the dots after it. -/
theorem normalize_spelled {text name : List Char} (hname : ∀ c ∈ name, Plain c)
    (h : (text.rdropWhile (· = '.')).map Char.toLower = name) :
    bare text = name ∧ normalizeHost text = name := by
  have hplain : ∀ c ∈ text, Plain c := by
    intro c hc
    by_contra hnot
    rw [← List.rdropWhile_append_rtakeWhile (p := (· = '.')) (l := text)] at hc
    rcases List.mem_append.mp hc with hbody | hdots
    · have hmem : c.toLower ∈ (text.rdropWhile (· = '.')).map Char.toLower :=
        List.mem_map_of_mem hbody
      rw [h, toLower_of_not_plain hnot] at hmem
      exact hnot (hname c hmem)
    · have hdot := List.mem_rtakeWhile_imp hdots
      rw [of_decide_eq_true hdot] at hnot
      exact hnot (by decide)
  have hopen : text.dropWhile (· = '[') = text :=
    dropWhile_eq_self fun c hc => decide_eq_false (hplain c hc).1
  have hclose : text.rdropWhile (· = ']') = text :=
    rdropWhile_eq_self fun c hc => decide_eq_false (hplain c hc).2.1
  have hbare : bare text = name := by
    rw [bare, hopen, hclose, h]
  have htrim : trim text = text :=
    trim_eq_self (fun c hc => (hplain c (List.mem_of_mem_head? hc)).2.2)
      fun c hc => (hplain c (List.mem_of_mem_getLast? hc)).2.2
  exact ⟨hbare, by rw [normalizeHost, htrim, hbare]⟩

/-! ### Literal addresses -/

theorem Ipv4Addr.text_eq (ip : Ipv4Addr) :
    ip.text = Nat.toDigits 10 ip.a.toNat ++ '.' :: (Nat.toDigits 10 ip.b.toNat ++
      '.' :: (Nat.toDigits 10 ip.c.toNat ++ '.' :: Nat.toDigits 10 ip.d.toNat)) := by
  simp [text, octets, List.intercalate]

theorem Ipv4Addr.mem_text {ip : Ipv4Addr} {c : Char} (h : c ∈ ip.text) : c.isDigit ∨ c = '.' := by
  rw [ip.text_eq] at h
  simp only [List.mem_append, List.mem_cons] at h
  have hdigits {octet : UInt8} (hc : c ∈ Nat.toDigits 10 octet.toNat) : c.isDigit ∨ c = '.' :=
    Or.inl (Encoding.isDigit_of_mem_toDigits hc)
  rcases h with h | h | h | h | h | h | h
  · exact hdigits h
  · exact Or.inr h
  · exact hdigits h
  · exact Or.inr h
  · exact hdigits h
  · exact Or.inr h
  · exact hdigits h

theorem digit_or_dot_plain {c : Char} (h : c.isDigit ∨ c = '.') : Plain c ∧ c.toLower = c := by
  rcases h with h | rfl
  · simp only [Char.isDigit, Bool.and_eq_true, decide_eq_true_eq, ge_iff_le,
      UInt32.le_iff_toNat_le] at h
    have hlow : 48 ≤ c.toNat := h.1
    have hhigh : c.toNat ≤ 57 := h.2
    refine ⟨⟨?_, ?_, ?_⟩, toLower_eq_self (by omega)⟩
    · intro hc
      rw [hc] at hhigh
      exact absurd hhigh (by decide)
    · intro hc
      rw [hc] at hhigh
      exact absurd hhigh (by decide)
    · simp only [isWhitespace, Bool.or_eq_false_iff, Bool.and_eq_false_iff, decide_eq_false_iff_not]
      omega
  · decide

/-- The text of an IPv4 address is its bare text already. -/
theorem Ipv4Addr.bare_text (ip : Ipv4Addr) : bare ip.text = ip.text := by
  have hplain (c : Char) (hc : c ∈ ip.text) := digit_or_dot_plain (mem_text hc)
  refine (normalize_spelled (fun c hc => (hplain c hc).1) ?_).1
  have hlast : ip.text.rdropWhile (· = '.') = ip.text := by
    rw [List.rdropWhile_eq_self_iff]
    intro hne hdot
    have hdigits : Nat.toDigits 10 ip.d.toNat ≠ [] := Nat.toDigits_ne_nil
    have htext : ip.text = (Nat.toDigits 10 ip.a.toNat ++ '.' :: (Nat.toDigits 10 ip.b.toNat ++
        '.' :: (Nat.toDigits 10 ip.c.toNat ++ ['.']))) ++ Nat.toDigits 10 ip.d.toNat := by
      rw [ip.text_eq]
      simp
    have hgetLast : ip.text.getLast hne = (Nat.toDigits 10 ip.d.toNat).getLast hdigits := by
      rw [List.getLast_congr _ _ htext, List.getLast_append_of_ne_nil]
      simp
    have hdigit := Encoding.isDigit_of_mem_toDigits (List.getLast_mem hdigits)
    rw [← hgetLast, of_decide_eq_true hdot] at hdigit
    exact absurd hdigit (by decide)
  rw [hlast]
  rw [List.map_congr_left fun c hc => (hplain c hc).2, List.map_id']

theorem trim_literal (ip : IpAddr) : trim ip.host.hostStr = ip.host.hostStr := by
  cases ip with
  | v4 ip =>
    have hchars : ∀ c ∈ ip.text, isWhitespace c = false := by
      intro c hc
      exact (digit_or_dot_plain (Ipv4Addr.mem_text hc)).1.2.2
    exact trim_eq_self (fun c hc => hchars c (List.mem_of_mem_head? hc))
      fun c hc => hchars c (List.mem_of_mem_getLast? hc)
  | v6 ip =>
    apply trim_eq_self
    · intro c hc
      cases hc
      decide
    · intro c hc
      have hlast : (Host.ipv6 ip).hostStr.getLast? = some ']' := by
        rw [Host.hostStr, List.getLast?_concat]
      rw [IpAddr.host, hlast] at hc
      cases hc
      decide

theorem Ipv4Addr.text_injective : Function.Injective Ipv4Addr.text := by
  intro left right h
  have hdot (octet : UInt8) : '.' ∉ Nat.toDigits 10 octet.toNat := by
    intro hmem
    exact absurd (Encoding.isDigit_of_mem_toDigits hmem) (by decide)
  have hoctet {x y : UInt8} (hxy : Nat.toDigits 10 x.toNat = Nat.toDigits 10 y.toNat) : x = y :=
    UInt8.toNat_inj.mp (Encoding.toDigits_injective hxy)
  rw [left.text_eq, right.text_eq] at h
  obtain ⟨ha, h⟩ := Encoding.append_mark_inj (hdot _) (hdot _) h
  obtain ⟨hb, h⟩ := Encoding.append_mark_inj (hdot _) (hdot _) h
  obtain ⟨hc, hd⟩ := Encoding.append_mark_inj (hdot _) (hdot _) h
  cases left
  cases right
  simp only [Ipv4Addr.mk.injEq]
  exact ⟨hoctet ha, hoctet hb, hoctet hc, hoctet hd⟩

theorem length_pairs (octets : List UInt8) : (Ipv6Addr.pairs octets).length = octets.length / 2 := by
  induction octets using Ipv6Addr.pairs.induct with
  | case1 high low rest ih =>
    simp only [Ipv6Addr.pairs, List.length_cons, ih]
    omega
  | case2 octets hshort =>
    match octets with
    | [] => rfl
    | [_] => simp [Ipv6Addr.pairs]
    | high :: low :: rest => exact absurd rfl (hshort high low rest)

theorem Ipv6Addr.colon_mem_text (ip : Ipv6Addr) : ':' ∈ ip.text := by
  unfold text
  simp only
  split
  · have hlength : ip.segments.length = 8 := by
      rw [segments, length_pairs, ip.length_octets]
    match hsegments : ip.segments, hlength with
    | first :: second :: rest, _ =>
      simp [hexGroups, List.intercalate]
  · simp

theorem mem_dropWhile {p : Char → Bool} {c : Char} {text : List Char} (hc : c ∈ text)
    (hp : p c = false) : c ∈ text.dropWhile p := by
  rw [← List.takeWhile_append_dropWhile (p := p) (l := text)] at hc
  rcases List.mem_append.mp hc with htaken | hdropped
  · rw [List.mem_takeWhile_imp htaken] at hp
    cases hp
  · exact hdropped

theorem mem_rdropWhile {p : Char → Bool} {c : Char} {text : List Char} (hc : c ∈ text)
    (hp : p c = false) : c ∈ text.rdropWhile p :=
  List.mem_reverse.mpr (mem_dropWhile (List.mem_reverse.mpr hc) hp)

/-- The bare text of an IPv6 address still has its colons. -/
theorem colon_mem_bare (ip : Ipv6Addr) : ':' ∈ bare (Host.ipv6 ip).hostStr := by
  have hcolon : ':' ∈ (Host.ipv6 ip).hostStr :=
    List.mem_append_left _ (List.mem_cons_of_mem _ ip.colon_mem_text)
  have hmem := List.mem_map_of_mem (f := Char.toLower)
    (mem_rdropWhile (mem_rdropWhile (mem_dropWhile hcolon (p := (· = '[')) (by decide))
      (p := (· = ']')) (by decide)) (p := (· = '.')) (by decide))
  exact hmem

/-! ### Metadata hosts are noticed -/

/-- Plain text is recognised item by item. -/
theorem plain_of_all {text : List Char} (h : text.all (fun c => decide (Plain c)) = true) :
    ∀ c ∈ text, Plain c :=
  fun c hc => of_decide_eq_true (List.all_eq_true.mp h c hc)

theorem metadataName_plain : ∀ c ∈ metadataName, Plain c := plain_of_all (by decide)

/-- How the metadata addresses are written. -/
theorem metadataAddresses_text :
    metadataAddresses.map IpAddr.text = ["169.254.169.254".toList, "100.100.100.200".toList,
      "168.63.129.16".toList, "fd00:ec2::254".toList] ∧
    ∀ ip ∈ metadataAddresses, ip.text.all (fun c => decide (Plain c)) = true ∧
      bare ip.host.hostStr = ip.text := by
  decide

theorem exists_mem_four {α : Type} {a b c d x : α} :
    (∃ y ∈ [a, b, c, d], x = y) ↔ x = a ∨ x = b ∨ x = c ∨ x = d := by
  simp

theorem or_reorder {p q r s t : Prop} : (((p ∨ q) ∨ t) ∨ r) ∨ s ↔ p ∨ q ∨ r ∨ s ∨ t := by
  tauto

theorem isCloudMetadataHost_iff {host : List Char} : isCloudMetadataHost host = true ↔
    bare host = metadataName ∨ ∃ ip ∈ metadataAddresses, bare host = ip.text := by
  have haddresses : (∃ ip ∈ metadataAddresses, bare host = ip.text) ↔
      bare host = "169.254.169.254".toList ∨ bare host = "100.100.100.200".toList ∨
        bare host = "168.63.129.16".toList ∨ bare host = "fd00:ec2::254".toList := by
    rw [← exists_mem_four, ← metadataAddresses_text.1]
    simp only [List.mem_map, exists_exists_and_eq_and]
  rw [haddresses]
  unfold isCloudMetadataHost
  simp only [Bool.or_eq_true, decide_eq_true_eq]
  exact or_reorder

theorem Host.Spells.normalize {host : Host} {name : List Char} (h : host.Spells name)
    (hname : ∀ c ∈ name, Plain c) :
    bare host.hostStr = name ∧ normalizeHost host.hostStr = name := by
  obtain ⟨text, rfl, htext⟩ := h
  exact normalize_spelled hname htext

theorem Host.Denotes.normalize {host : Host} {ip : IpAddr} (h : host.Denotes ip)
    (hip : ip ∈ metadataAddresses) :
    bare host.hostStr = ip.text ∧ normalizeHost host.hostStr = ip.text := by
  rcases h with hspells | rfl
  · exact hspells.normalize (plain_of_all (metadataAddresses_text.2 ip hip).1)
  · have hbare := (metadataAddresses_text.2 ip hip).2
    exact ⟨hbare, by rw [normalizeHost, trim_literal, hbare]⟩

theorem isCloudMetadataHost_of_spells {host : Host} (h : host.Spells metadataName) :
    isCloudMetadataHost host.hostStr = true :=
  isCloudMetadataHost_iff.mpr (Or.inl (h.normalize metadataName_plain).1)

theorem isCloudMetadataHost_of_denotes {host : Host} {ip : IpAddr} (hip : ip ∈ metadataAddresses)
    (h : host.Denotes ip) : isCloudMetadataHost host.hostStr = true :=
  isCloudMetadataHost_iff.mpr (Or.inr ⟨ip, hip, (h.normalize hip).1⟩)

/-! ### Addresses that are not public -/

/-- The metadata addresses in the private and internal ranges. -/
def internalAddresses : List IpAddr := [.v4 awsMetadata, .v4 alibabaMetadata, .v6 awsMetadataIpv6]

theorem internal_subset : ∀ ip ∈ internalAddresses, ip ∈ metadataAddresses := by decide

theorem internal_or_azure :
    ∀ ip ∈ metadataAddresses, ip ∈ internalAddresses ∨ ip = .v4 azureMetadata := by decide

def mapped (ip : Ipv4Addr) : Ipv6Addr := ⟨List.replicate 10 0 ++ [255, 255] ++ ip.octets, rfl⟩

theorem eq_mapped {v6 : Ipv6Addr} {v4 : Ipv4Addr} (h : v6.toIpv4Mapped = some v4) :
    v6 = mapped v4 := by
  unfold Ipv6Addr.toIpv4Mapped at h
  split at h
  · rename_i hfront
    split at h
    · rename_i a b c d hback
      cases h
      have hoctets : v6.octets = (mapped ⟨a, b, c, d⟩).octets := by
        rw [← List.take_append_drop 12 v6.octets, hfront, hback]
        rfl
      cases v6
      simp only at hoctets
      subst hoctets
      rfl
    · cases h
  · cases h

/-- Both spellings are read back as an internal address. -/
theorem internalAddresses_read :
    (∀ ip ∈ internalAddresses, parseIp ip.text = some ip ∧ isPrivateOrInternalIp ip = true) ∧
    ∀ v4 ∈ [awsMetadata, alibabaMetadata],
      parseIp (normalizeHost (Host.ipv6 (mapped v4)).hostStr) = some (.v6 (mapped v4)) ∧
        isPrivateOrInternalIp (.v6 (mapped v4)) = true := by
  decide

theorem parseIp_internal {ip : IpAddr} (hip : ip ∈ internalAddresses) :
    parseIp ip.text = some ip ∧ isPrivateOrInternalIp ip = true :=
  internalAddresses_read.1 ip hip

theorem parseIp_mapped {v4 : Ipv4Addr} (hv4 : IpAddr.v4 v4 ∈ internalAddresses) :
    parseIp (normalizeHost (Host.ipv6 (mapped v4)).hostStr) = some (.v6 (mapped v4)) ∧
      isPrivateOrInternalIp (.v6 (mapped v4)) = true :=
  internalAddresses_read.2 v4 (by simpa [internalAddresses] using hv4)

/-- An address whose bare text is the Azure endpoint's is that endpoint. -/
theorem eq_azure_of_bare {ip : IpAddr}
    (h : bare ip.host.hostStr = (IpAddr.v4 azureMetadata).text) : ip = .v4 azureMetadata := by
  cases ip with
  | v4 ip =>
    have htext : ip.text = azureMetadata.text := ip.bare_text.symm.trans h
    rw [Ipv4Addr.text_injective htext]
  | v6 ip =>
    have hcolon := colon_mem_bare ip
    rw [show (Host.ipv6 ip).hostStr = (IpAddr.v6 ip).host.hostStr from rfl, h] at hcolon
    exact absurd (Ipv4Addr.mem_text hcolon) (by decide)

/-! ### What acceptance says -/

section

variable {parse : String → Option Url}
variable {lookupHost : List Char → ℕ → Except String (List IpAddr)} {url fieldName : String}
variable {maxLen : ℕ}

def StartsWithHttp (url : String) : Prop :=
  "https://".toList.isPrefixOf url.toList = true ∨ "http://".toList.isPrefixOf url.toList = true

/-- The host of a URL, where the parser accepts it and finds one. -/
def HostOf (parse : String → Option Url) (url : String) (host : Host) : Prop :=
  ∃ parsed, parse url = some parsed ∧ parsed.host = some host

theorem validateBaseUrl_eq_ok : validateBaseUrl parse url = .ok () ↔
    StartsWithHttp url ∧ ∃ host, HostOf parse url host ∧
      isCloudMetadataHost host.hostStr = false := by
  unfold validateBaseUrl StartsWithHttp HostOf
  constructor
  · intro h
    split at h
    · cases h
    · rename_i hstart
      obtain ⟨parsed, hparsed, h⟩ := bind_eq_ok.mp h
      obtain ⟨host, hhost, h⟩ := bind_eq_ok.mp h
      split at h
      · cases h
      · rename_i hmetadata
        refine ⟨?_, host, ⟨parsed, okOr_eq_ok.mp hparsed, okOr_eq_ok.mp hhost⟩, by simpa using hmetadata⟩
        simp only [Bool.and_eq_true, Bool.not_eq_true'] at hstart
        by_contra hneither
        simp only [not_or, Bool.not_eq_true] at hneither
        exact hstart hneither
  · intro ⟨hstart, host, ⟨parsed, hparsed, hhost⟩, hmetadata⟩
    rw [if_neg]
    · rw [okOr_eq_ok.mpr hparsed]
      change (okOr parsed.host _ >>= _) = _
      rw [okOr_eq_ok.mpr hhost]
      change (if isCloudMetadataHost host.hostStr = true then _ else _) = _
      rw [if_neg (by simp [hmetadata])]
      rfl
    · simp only [Bool.and_eq_true, Bool.not_eq_true', not_and_or, Bool.not_eq_false]
      exact hstart

theorem host_of_advisory (h : validateAdvisoryHttpUrl parse url fieldName maxLen = .ok ()) :
    ∃ host, HostOf parse url host ∧ isCloudMetadataHost host.hostStr = false := by
  unfold validateAdvisoryHttpUrl at h
  split at h
  · cases h
  obtain ⟨parsed, hparsed, h⟩ := bind_eq_ok.mp h
  split at h
  · cases h
  obtain ⟨host, hhost, h⟩ := bind_eq_ok.mp h
  split at h
  · cases h
  rename_i hmetadata
  exact ⟨host, ⟨parsed, okOr_eq_ok.mp hparsed, okOr_eq_ok.mp hhost⟩, by simpa using hmetadata⟩

/-- A public host is no endpoint's name, and where it is an address it is a public one. -/
theorem host_of_public
    (h : validatePublicHttpUrlWithLimit parse lookupHost url fieldName maxLen = .ok ()) :
    ∃ host, HostOf parse url host ∧ normalizeHost host.hostStr ≠ metadataName ∧
      ∀ ip, parseIp (normalizeHost host.hostStr) = some ip → isPrivateOrInternalIp ip = false := by
  unfold validatePublicHttpUrlWithLimit at h
  split at h
  · cases h
  obtain ⟨parsed, hparsed, h⟩ := bind_eq_ok.mp h
  split at h
  · cases h
  obtain ⟨_, -, h⟩ := bind_eq_ok.mp h
  obtain ⟨host, hhost, h⟩ := bind_eq_ok.mp h
  simp only at h
  split at h
  · cases h
  rename_i hname
  obtain ⟨port, -, h⟩ := bind_eq_ok.mp h
  obtain ⟨addrs, haddrs, h⟩ := bind_eq_ok.mp h
  split at h
  · cases h
  split at h
  · cases h
  rename_i hprivate
  refine ⟨host, ⟨parsed, okOr_eq_ok.mp hparsed, okOr_eq_ok.mp hhost⟩, fun hmetadata => hname (Or.inr hmetadata), ?_⟩
  intro ip hip
  rw [resolvedAddrs, hip] at haddrs
  cases haddrs
  simpa using hprivate

theorem HostOf.unique {host host' : Host} (h : HostOf parse url host) (h' : HostOf parse url host') :
    host = host' := by
  obtain ⟨parsed, hparsed, hhost⟩ := h
  obtain ⟨parsed', hparsed', hhost'⟩ := h'
  cases hparsed.symm.trans hparsed'
  exact Option.some.inj (hhost.symm.trans hhost')

theorem spells_no_endpoint {host : Host} (h : isCloudMetadataHost host.hostStr = false) :
    ¬ host.Spells metadataName ∧ ∀ ip ∈ metadataAddresses, ¬ host.Denotes ip := by
  constructor
  · intro hspells
    rw [isCloudMetadataHost_of_spells hspells] at h
    cases h
  · intro ip hip hdenotes
    rw [isCloudMetadataHost_of_denotes hip hdenotes] at h
    cases h

theorem public_spells_no_endpoint {host : Host}
    (hname : normalizeHost host.hostStr ≠ metadataName)
    (hpublic : ∀ ip, parseIp (normalizeHost host.hostStr) = some ip →
      isPrivateOrInternalIp ip = false) :
    ¬ host.Spells metadataName ∧
      ∀ ip ∈ internalAddresses, ¬ host.Denotes ip ∧ ¬ host.Maps ip := by
  refine ⟨fun hspells => hname (hspells.normalize metadataName_plain).2, ?_⟩
  intro ip hip
  constructor
  · intro hdenotes
    obtain ⟨hparse, hprivate⟩ := parseIp_internal hip
    have hmetadata : ip ∈ metadataAddresses := internal_subset ip hip
    rw [← (hdenotes.normalize hmetadata).2] at hparse
    rw [hpublic ip hparse] at hprivate
    cases hprivate
  · intro ⟨v6, v4, hhost, hv4, hmapped⟩
    subst hhost hv4
    rw [eq_mapped hmapped] at hpublic
    obtain ⟨hparse, hprivate⟩ := parseIp_mapped hip
    rw [hpublic _ hparse] at hprivate
    cases hprivate

/-- What is public is an endpoint by its bare text only when it is the Azure endpoint. -/
theorem base_accepts_public {ip : IpAddr} (hstart : StartsWithHttp url)
    (hhost : HostOf parse url ip.host) (hazure : ip ≠ .v4 azureMetadata)
    (hname : normalizeHost ip.host.hostStr ≠ metadataName)
    (hpublic : ∀ found, parseIp (normalizeHost ip.host.hostStr) = some found →
      isPrivateOrInternalIp found = false) : validateBaseUrl parse url = .ok () := by
  refine validateBaseUrl_eq_ok.mpr ⟨hstart, ip.host, hhost, ?_⟩
  rw [← Bool.not_eq_true, isCloudMetadataHost_iff]
  rw [normalizeHost, trim_literal] at hname hpublic
  intro hmetadata
  rcases hmetadata with hbare | ⟨endpoint, hendpoint, hbare⟩
  · exact hname hbare
  · rcases internal_or_azure endpoint hendpoint with hinternal | rfl
    · obtain ⟨hparse, hprivate⟩ := parseIp_internal hinternal
      rw [← hbare] at hparse
      rw [hpublic endpoint hparse] at hprivate
      cases hprivate
    · exact hazure (eq_azure_of_bare hbare)

/-- No accepted URL spells a metadata endpoint. A base or an advisory URL has no host that is
the name or one of the addresses in any notation; a public URL has none that is the name or one
of the addresses in private ranges, mapped into IPv6 or not; and where the host is an address,
a public URL with a plain prefix is a base URL too, unless it is the Azure endpoint. -/
theorem metadata_spellings_refused (parse : String → Option Url)
    (lookupHost : List Char → ℕ → Except String (List IpAddr)) (url fieldName : String)
    (maxLen : ℕ) :
    (validateBaseUrl parse url = .ok () → ∃ host, HostOf parse url host ∧
      ¬ host.Spells metadataName ∧ ∀ ip ∈ metadataAddresses, ¬ host.Denotes ip) ∧
    (validateAdvisoryHttpUrl parse url fieldName maxLen = .ok () → ∃ host, HostOf parse url host ∧
      ¬ host.Spells metadataName ∧ ∀ ip ∈ metadataAddresses, ¬ host.Denotes ip) ∧
    (validatePublicHttpUrlWithLimit parse lookupHost url fieldName maxLen = .ok () →
      (∃ host, HostOf parse url host ∧ ¬ host.Spells metadataName ∧
        ∀ ip ∈ internalAddresses, ¬ host.Denotes ip ∧ ¬ host.Maps ip) ∧
      ∀ ip : IpAddr, HostOf parse url ip.host → ip ≠ .v4 azureMetadata → StartsWithHttp url →
        validateBaseUrl parse url = .ok ()) := by
  refine ⟨?_, ?_, ?_⟩
  · intro h
    obtain ⟨-, host, hhost, hmetadata⟩ := validateBaseUrl_eq_ok.mp h
    exact ⟨host, hhost, spells_no_endpoint hmetadata⟩
  · intro h
    obtain ⟨host, hhost, hmetadata⟩ := host_of_advisory h
    exact ⟨host, hhost, spells_no_endpoint hmetadata⟩
  · intro h
    obtain ⟨host, hhost, hname, hpublic⟩ := host_of_public h
    refine ⟨⟨host, hhost, public_spells_no_endpoint hname hpublic⟩, ?_⟩
    intro ip hip hazure hstart
    cases hhost.unique hip
    exact base_accepts_public hstart hip hazure hname hpublic

end

/-- The parser on some URLs. -/
def sampleParse (url : String) : Option Url :=
  if url = "http://[::ffff:169.254.169.254]/" then
    some ⟨"http", "", none, some (.ipv6 (mapped awsMetadata)), none⟩
  else if url = "http://168.63.129.16/" then
    some ⟨"http", "", none, some (.ipv4 azureMetadata), none⟩
  else if url = "http://8.8.8.8/" ∨ url = "HTTP://8.8.8.8/" then
    some ⟨"http", "", none, some (.ipv4 ⟨8, 8, 8, 8⟩), none⟩
  else none

def noLookup (_ : List Char) (_ : ℕ) : Except String (List IpAddr) := .error "no such host"

theorem public_literal_is_base : validateBaseUrl sampleParse "http://8.8.8.8/" = .ok () :=
  ((metadata_spellings_refused sampleParse noLookup "http://8.8.8.8/" "url" 2048).2.2
    (by decide)).2 (.v4 ⟨8, 8, 8, 8⟩) ⟨_, rfl, rfl⟩ (by decide) (Or.inr (by decide))

/-- A public literal in capitals is no base URL; the mapped address of one endpoint and the plain
address of another are accepted. -/
theorem endpoints_accepted :
    validatePublicHttpUrl sampleParse noLookup "HTTP://8.8.8.8/" "url" = .ok () ∧
    HostOf sampleParse "HTTP://8.8.8.8/" (IpAddr.v4 ⟨8, 8, 8, 8⟩).host ∧
    validateBaseUrl sampleParse "HTTP://8.8.8.8/" ≠ .ok () ∧
    validateBaseUrl sampleParse "http://[::ffff:169.254.169.254]/" = .ok () ∧
    validateAdvisoryHttpUrl sampleParse "http://[::ffff:169.254.169.254]/" "url" 2048 = .ok () ∧
    (∃ host, HostOf sampleParse "http://[::ffff:169.254.169.254]/" host ∧
      host.Maps (.v4 awsMetadata)) ∧
    validatePublicHttpUrl sampleParse noLookup "http://168.63.129.16/" "url" = .ok () ∧
    ∃ host, HostOf sampleParse "http://168.63.129.16/" host ∧ host.Denotes (.v4 azureMetadata) := by
  refine ⟨by decide, ⟨_, rfl, rfl⟩, by decide, by decide,
    by decide, ?_, by decide, ?_⟩
  · exact ⟨.ipv6 (mapped awsMetadata), ⟨_, rfl, rfl⟩, _, awsMetadata, rfl, rfl, by decide⟩
  · exact ⟨.ipv4 azureMetadata, ⟨_, rfl, rfl⟩, Or.inr rfl⟩

end NyxId.UrlValidation
