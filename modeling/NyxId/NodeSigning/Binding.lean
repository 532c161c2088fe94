import NyxId.NodeSigning.Messages
import NyxId.Encoding.Records

/-!
What a signed message says about its verifier and its fields.
-/

namespace NyxId.NodeSigning

open Encoding

theorem digitChar_inj {a b : ℕ} (ha : a < 16) (hb : b < 16) (h : Nat.digitChar a = Nat.digitChar b) :
    a = b := by
  have hall : ∀ i j : Fin 16, Nat.digitChar i = Nat.digitChar j → i = j := by decide
  exact Fin.mk.inj (hall ⟨a, ha⟩ ⟨b, hb⟩ h)

theorem digitChar_ne_newline {a : ℕ} (ha : a < 16) : Nat.digitChar a ≠ '\n' := by
  have hall : ∀ i : Fin 16, Nat.digitChar i ≠ '\n' := by decide
  exact hall ⟨a, ha⟩

theorem nibbles (b : UInt8) : b.toNat / 16 < 16 ∧ b.toNat % 16 < 16 := by
  have hb := b.toNat_lt
  omega

theorem length_hexEncode (bytes : List UInt8) : (hexEncode bytes).toList.length = 2 * bytes.length := by
  unfold hexEncode
  rw [String.toList_ofList, List.length_flatMap]
  induction bytes with
  | nil => rfl
  | cons b bytes ih =>
    simp only [List.map_cons, List.sum_cons, List.length_cons] at ih ⊢
    rw [ih]
    simp
    omega

theorem newline_notMem_hexEncode (bytes : List UInt8) : '\n' ∉ (hexEncode bytes).toList := by
  unfold hexEncode
  rw [String.toList_ofList, List.mem_flatMap]
  rintro ⟨b, -, hmem⟩
  obtain ⟨hhigh, hlow⟩ := nibbles b
  simp only [List.mem_cons, List.not_mem_nil, or_false] at hmem
  rcases hmem with h | h
  · exact digitChar_ne_newline hhigh h.symm
  · exact digitChar_ne_newline hlow h.symm

theorem hexEncode_injective {bytes bytes' : List UInt8} (h : hexEncode bytes = hexEncode bytes') :
    bytes = bytes' := by
  have hchars := String.ofList_injective h
  clear h
  induction bytes generalizing bytes' with
  | nil =>
    cases bytes' with
    | nil => rfl
    | cons b' bytes' => cases hchars
  | cons b bytes ih =>
    cases bytes' with
    | nil => cases hchars
    | cons b' bytes' =>
      simp only [List.flatMap_cons, List.cons_append, List.nil_append, List.cons.injEq] at hchars
      obtain ⟨hhigh, hlow, hrest⟩ := hchars
      have hdiv := digitChar_inj (nibbles b).1 (nibbles b').1 hhigh
      have hmod := digitChar_inj (nibbles b).2 (nibbles b').2 hlow
      have hbyte : b = b' := UInt8.toNat_inj.mp (by omega)
      rw [hbyte, ih hrest]

theorem portText_short (request : Json) :
    (portText request).toList.length ≤ 5 ∧ '\n' ∉ (portText request).toList := by
  unfold portText
  split
  · split
    · rename_i port _ hport
      rw [String.toList_ofList]
      refine ⟨Nat.toDigits_length 10 port 5 (by omega) (by omega), fun hmem => ?_⟩
      exact absurd (isDigit_of_mem_toDigits hmem) (by decide)
    · exact ⟨by decide, by decide⟩
  · exact ⟨by decide, by decide⟩

section

variable {sha256 : List UInt8 → Vector UInt8 32} {origin : String → Bool} {v v' : Verifier}
  {r r' : Json} {m : List Char}

/-- No field that is signed as it is contains a newline. -/
def NewlineFree (verifier : Verifier) (request : Json) : Prop :=
  ∀ text, Part.clear text ∈ parts request verifier → '\n' ∉ text.toList

/-- The texts whose digests a message is made of. -/
def digested (verifier : Verifier) (request : Json) : Set (List UInt8) :=
  {bytes | ∃ text, Part.digest text ∈ parts request verifier ∧ bytes = utf8 text}

def lineCount : Verifier → ℕ
  | .requestV1 => 6
  | .requestV2 => 10
  | .sshTunnel => 6
  | .sshExec => 9
  | .sshNodeExec => 7
  | .webTerminal => 9
  | .wsProxy => 7

theorem length_parts (r : Json) (v : Verifier) : (parts r v).length = lineCount v := by
  cases v <;> rfl

/-- Where digests stand is a matter of the verifier alone. -/
theorem isDigest_parts (r r' : Json) (v : Verifier) :
    (parts r v).map Part.isDigest = (parts r' v).map Part.isDigest := by
  cases v <;> rfl

theorem newline_notMem_line {part : Part} (h : ∀ text, part = .clear text → '\n' ∉ text.toList) :
    '\n' ∉ (part.line sha256).toList := by
  cases part with
  | clear text => exact h text rfl
  | digest text => exact newline_notMem_hexEncode _

variable (sha256) in
theorem part_inj {part part' : Part} (hkind : part.isDigest = part'.isDigest)
    (hfree : ∀ text text', part = .digest text → part' = .digest text' →
      sha256 (utf8 text) = sha256 (utf8 text') → utf8 text = utf8 text')
    (h : part.line sha256 = part'.line sha256) : part = part' := by
  cases part with
  | clear text =>
    cases part' with
    | clear text' => exact congrArg Part.clear h
    | digest text' => cases hkind
  | digest text =>
    cases part' with
    | clear text' => cases hkind
    | digest text' =>
      have hdigest := Vector.toList_inj.mp (hexEncode_injective h)
      exact congrArg Part.digest (utf8_injective (hfree text text' rfl rfl hdigest))

theorem parts_inj {ps ps' : List Part} (hkinds : ps.map Part.isDigest = ps'.map Part.isDigest)
    (hfree : ∀ text text', Part.digest text ∈ ps → Part.digest text' ∈ ps' →
      sha256 (utf8 text) = sha256 (utf8 text') → utf8 text = utf8 text')
    (h : ps.map (fun part => (part.line sha256).toList) =
      ps'.map fun part => (part.line sha256).toList) : ps = ps' := by
  induction ps generalizing ps' with
  | nil =>
    cases ps' with
    | nil => rfl
    | cons part' ps' => cases h
  | cons part ps ih =>
    cases ps' with
    | nil => cases h
    | cons part' ps' =>
      obtain ⟨hkind, hkinds⟩ := List.cons.inj hkinds
      obtain ⟨hline, hlines⟩ := List.cons.inj h
      have hpart : part = part' := by
        refine part_inj sha256 hkind (fun text text' heq heq' => ?_) (String.toList_inj.mp hline)
        subst heq heq'
        exact hfree text text' List.mem_cons_self List.mem_cons_self
      have hrest := ih hkinds (fun text text' hmem hmem' =>
        hfree text text' (List.mem_cons_of_mem _ hmem) (List.mem_cons_of_mem _ hmem')) hlines
      rw [hpart, hrest]

/-- Every message but a tagged one is made of lines. -/
theorem message_lines (hv : v ≠ .requestV2) (h : message sha256 origin v r = some m) :
    m = lines sha256 (parts r v) := by
  cases v with
  | requestV1 =>
    unfold message at h
    dsimp only at h
    split at h
    · exact (Option.some.inj h).symm
    · cases h
  | requestV2 => exact absurd rfl hv
  | sshTunnel => exact (Option.some.inj h).symm
  | sshExec => exact (Option.some.inj h).symm
  | sshNodeExec => exact (Option.some.inj h).symm
  | webTerminal => exact (Option.some.inj h).symm
  | wsProxy => exact (Option.some.inj h).symm

theorem message_tagged (h : message sha256 origin .requestV2 r = some m) :
    m = writeJson (requestV2Json r) := by
  unfold message at h
  dsimp only at h
  split at h
  · split at h
    · cases h
    split at h
    · cases h
    · exact (Option.some.inj h).symm
  · cases h

theorem newline_mem_lines (r : Json) (v : Verifier) : '\n' ∈ lines sha256 (parts r v) := by
  have hlength := length_parts r v
  unfold lines
  cases hparts : parts r v with
  | nil =>
    rw [hparts] at hlength
    cases v <;> cases hlength
  | cons first rest =>
    cases rest with
    | nil =>
      rw [hparts] at hlength
      cases v <;> cases hlength
    | cons second rest =>
      rw [List.map_cons, List.map_cons, List.intercalate_cons_cons]
      simp

theorem newline_notMem_tagged (r : Json) : '\n' ∉ writeJson (requestV2Json r) := by
  intro hmem
  have hprintable := printable_writeJson (requestV2Json r) '\n' hmem
  exact absurd hprintable (by decide)

/-- A tagged message is told from every other one and determines its fields. -/
theorem tagged_binds (h : message sha256 origin .requestV2 r = some m)
    (h' : message sha256 origin v' r' = some m) :
    v' = .requestV2 ∧ signedFields .requestV2 r = signedFields .requestV2 r' := by
  have htagged := message_tagged h
  have hv : v' = .requestV2 := by
    by_contra hv
    apply newline_notMem_tagged r
    rw [← htagged, message_lines hv h']
    exact newline_mem_lines r' v'
  subst hv
  refine ⟨rfl, ?_⟩
  have htexts := writeJson_injective (htagged.symm.trans (message_tagged h'))
  unfold requestV2Json at htexts
  simp only [Json.array.injEq, List.cons.injEq, true_and] at htexts
  have hfields : requestV2Fields r = requestV2Fields r' :=
    List.map_injective_iff.mpr (fun a b hab => Json.string.inj hab) htexts
  unfold signedFields parts
  rw [hfields]

/-- Lines without newlines inside are determined by a message of as many lines. -/
theorem lines_inj (hcount : lineCount v = lineCount v') (hclean : NewlineFree v r)
    (h : lines sha256 (parts r v) = lines sha256 (parts r' v')) :
    (parts r v).map (fun part => (part.line sha256).toList) =
      (parts r' v').map fun part => (part.line sha256).toList := by
  apply intercalate_inj _ _ h
  · rw [List.length_map, List.length_map, length_parts, length_parts, hcount]
  · intro line hline
    obtain ⟨part, hpart, rfl⟩ := List.mem_map.mp hline
    exact newline_notMem_line fun text heq => hclean text (heq ▸ hpart)

variable (sha256) in
theorem count_lines (hclean : NewlineFree v r) :
    (lines sha256 (parts r v)).count '\n' + 1 = lineCount v := by
  have hne : (parts r v).map (fun part => (part.line sha256).toList) ≠ [] := by
    intro hnil
    have hlength := congrArg List.length hnil
    rw [List.length_map, length_parts] at hlength
    cases v <;> cases hlength
  have hcount := count_intercalate '\n' hne
  have hzero : (((parts r v).map fun part => (part.line sha256).toList).map
      (List.count '\n')).sum = 0 := by
    apply List.sum_eq_zero
    intro n hn
    obtain ⟨line, hline, rfl⟩ := List.mem_map.mp hn
    obtain ⟨part, hpart, rfl⟩ := List.mem_map.mp hline
    exact List.count_eq_zero.mpr (newline_notMem_line fun text heq => hclean text (heq ▸ hpart))
  rw [hzero, List.length_map, length_parts, Nat.add_zero] at hcount
  exact hcount

variable (sha256) in
/-- The last line of a message of several lines. -/
theorem last_line {ps : List Part} (last : Part) (hne : ps ≠ []) :
    ∃ front, lines sha256 (ps ++ [last]) = front ++ '\n' :: (last.line sha256).toList := by
  induction ps with
  | nil => exact absurd rfl hne
  | cons part ps ih =>
    unfold lines at ih ⊢
    rw [List.cons_append, List.map_cons]
    cases ps with
    | nil => exact ⟨(part.line sha256).toList, by simp [List.intercalate]⟩
    | cons next ps =>
      obtain ⟨front, hfront⟩ := ih (List.cons_ne_nil _ _)
      rw [List.cons_append, List.map_cons] at hfront ⊢
      rw [List.intercalate_cons_cons, hfront]
      exact ⟨(part.line sha256).toList ++ ['\n'] ++ front, by simp⟩

theorem last_line_inj {front front' last last' : List Char} (hlast : '\n' ∉ last)
    (hlast' : '\n' ∉ last') (h : front ++ '\n' :: last = front' ++ '\n' :: last') : last = last' := by
  have hreverse := congrArg List.reverse h
  simp only [List.reverse_append, List.reverse_cons, List.append_assoc, List.singleton_append]
    at hreverse
  have hlines := (append_mark_inj (by simpa using hlast) (by simpa using hlast') hreverse).1
  exact List.reverse_injective hlines

/-- A tunnel message ends in a port, others end in a digest. -/
theorem tunnel_apart (hm : lines sha256 (parts r .sshTunnel) = lines sha256 (parts r' v'))
    (hdigest : ∃ ps text, ps ≠ [] ∧ parts r' v' = ps ++ [.digest text]) : False := by
  obtain ⟨ps, text, hne, hparts⟩ := hdigest
  obtain ⟨front', hfront'⟩ := last_line sha256 (.digest text) hne
  have htunnel : parts r .sshTunnel = (sshTunnelParts r).dropLast ++ [.clear (portText r)] := rfl
  have hseveral : (sshTunnelParts r).dropLast ≠ [] := List.cons_ne_nil _ _
  obtain ⟨front, hfront⟩ := last_line sha256 (.clear (portText r)) hseveral
  obtain ⟨hshort, hclean⟩ := portText_short r
  rw [htunnel, hparts, hfront, hfront'] at hm
  have hlast := last_line_inj hclean (newline_notMem_hexEncode _) hm
  have hlength := length_hexEncode (sha256 (utf8 text)).toList
  rw [show (hexEncode (sha256 (utf8 text)).toList).toList = (portText r).toList from hlast.symm,
    Vector.length_toList] at hlength
  omega

/-- Two kinds of request whose messages have as many lines. -/
def SameLines (v v' : Verifier) : Prop :=
  (v, v') ∈ [(Verifier.requestV1, Verifier.sshTunnel), (.sshTunnel, .requestV1),
    (.sshNodeExec, .wsProxy), (.wsProxy, .sshNodeExec), (.sshExec, .webTerminal),
    (.webTerminal, .sshExec)]

/-- Equal messages bind where one is tagged; a tunnel is told from requests that end in a digest;
without newlines in the fields, a message binds the fields of its verifier and tells apart
verifiers that sign different numbers of lines. -/
theorem signed_messages_bind (h : message sha256 origin v r = some m)
    (h' : message sha256 origin v' r' = some m)
    (hfree : Set.InjOn sha256 (digested v r ∪ digested v' r')) :
    (v = .requestV2 ∨ v' = .requestV2 → v = v' ∧ signedFields v r = signedFields v' r') ∧
      (v = .sshTunnel → v' ≠ .sshExec ∧ v' ≠ .sshNodeExec ∧ v' ≠ .webTerminal) ∧
      (v = v' → NewlineFree v r → signedFields v r = signedFields v' r') ∧
      (NewlineFree v r → NewlineFree v' r' → v = v' ∨ SameLines v v') := by
  have htagged : v = .requestV2 ∨ v' = .requestV2 →
      v = v' ∧ signedFields v r = signedFields v' r' := by
    rintro (rfl | rfl)
    · obtain ⟨rfl, hfields⟩ := tagged_binds h h'
      exact ⟨rfl, hfields⟩
    · obtain ⟨rfl, hfields⟩ := tagged_binds h' h
      exact ⟨rfl, hfields.symm⟩
  refine ⟨htagged, ?_, ?_, ?_⟩
  · rintro rfl
    have hm := message_lines (by decide) h
    refine ⟨?_, ?_, ?_⟩ <;> rintro rfl <;> have hm' := message_lines (by decide) h'
    · exact tunnel_apart (hm.symm.trans hm') ⟨(sshExecParts r').dropLast, _, List.cons_ne_nil _ _, rfl⟩
    · exact tunnel_apart (hm.symm.trans hm')
        ⟨(sshNodeExecParts r').dropLast, _, List.cons_ne_nil _ _, rfl⟩
    · exact tunnel_apart (hm.symm.trans hm')
        ⟨(webTerminalParts r').dropLast, _, List.cons_ne_nil _ _, rfl⟩
  · rintro rfl hclean
    by_cases hv : v = .requestV2
    · exact (htagged (Or.inl hv)).2
    have hlines := lines_inj rfl hclean
      ((message_lines hv h).symm.trans (message_lines hv h'))
    have hparts := parts_inj (isDigest_parts r r' v) (fun text text' hmem hmem' hsame =>
      hfree (Or.inl ⟨text, hmem, rfl⟩) (Or.inr ⟨text', hmem', rfl⟩) hsame) hlines
    unfold signedFields
    rw [hparts]
  · intro hclean hclean'
    by_cases hv : v = .requestV2
    · exact Or.inl (htagged (Or.inl hv)).1
    by_cases hv' : v' = .requestV2
    · exact Or.inl (htagged (Or.inr hv')).1
    have hcount := count_lines sha256 hclean
    rw [← message_lines hv h, message_lines hv' h', count_lines sha256 hclean'] at hcount
    revert hcount hv hv'
    unfold SameLines
    cases v <;> cases v' <;> simp [lineCount]

end

/-- The digest of the one command that occurs. -/
def uptimeSha256 (bytes : List UInt8) : Vector UInt8 32 :=
  if bytes = utf8 "uptime" then
    ⟨#[221, 41, 28, 214, 41, 75, 175, 239, 42, 126, 156, 55, 142, 179, 32, 232, 113, 152, 214, 218, 226, 20, 39, 42, 221, 181, 105, 119, 87, 80, 200, 2], rfl⟩
  else Vector.replicate 32 0

def uptimeRequest (more : List (String × Json)) : Json :=
  .object ([("timestamp", .string "2026-03-12T10:30:00Z"), ("nonce", .string "n-1"),
    ("request_id", .string "r-1"), ("service_slug", .string "box"), ("principal", .string "ops"),
    ("auth_mode", .string "node_key"), ("command", .string "uptime")] ++ more)

/-- What is not signed may differ. -/
theorem uptime_binds :
    signedFields .sshNodeExec (uptimeRequest []) =
      signedFields .sshNodeExec (uptimeRequest [("timeout_secs", .null)]) := by
  have hdigested (more : List (String × Json)) :
      digested .sshNodeExec (uptimeRequest more) ⊆ {utf8 "uptime"} := by
    rintro bytes ⟨text, hmem, rfl⟩
    simp only [parts, sshNodeExecParts, List.mem_cons, reduceCtorEq, false_or, List.not_mem_nil,
      or_false, Part.digest.injEq] at hmem
    rw [hmem]
    rfl
  have hfree : Set.InjOn uptimeSha256 (digested .sshNodeExec (uptimeRequest []) ∪
      digested .sshNodeExec (uptimeRequest [("timeout_secs", .null)])) :=
    Set.InjOn.mono (Set.union_subset (hdigested _) (hdigested _)) (Set.injOn_singleton _ _)
  have hclean : NewlineFree .sshNodeExec (uptimeRequest []) := by
    intro text hmem
    simp only [parts, sshNodeExecParts, List.mem_cons, reduceCtorEq, List.not_mem_nil, or_false,
      Part.clear.injEq] at hmem
    rcases hmem with rfl | rfl | rfl | rfl | rfl | rfl <;> decide
  have hmessage (more : List (String × Json)) :
      message uptimeSha256 (fun _ => true) .sshNodeExec (uptimeRequest more) =
        some (lines uptimeSha256 (parts (uptimeRequest more) .sshNodeExec)) := rfl
  exact (signed_messages_bind (hmessage []) (hmessage [("timeout_secs", .null)]) hfree).2.2.1
    rfl hclean

def tunnelRequest : Json :=
  .object [("timestamp", .string "2026-03-12T10:30:00Z"), ("nonce", .string "n-1"),
    ("session_id", .string "GET"), ("service_id", .string "/status"), ("host", .string "db"),
    ("port", .number ⟨['2', '2'], by decide, by simp [isNumberChar]⟩)]

def statusRequest : Json :=
  .object [("timestamp", .string "2026-03-12T10:30:00Z"), ("nonce", .string "n-1"),
    ("method", .string "GET"), ("path", .string "/status"), ("query", .string "db"),
    ("body", .string "22")]

/-- The message of an HTTP request is also the message of a tunnel. -/
theorem status_signed_as_tunnel : ∃ m,
    message uptimeSha256 (fun _ => true) .requestV1 statusRequest = some m ∧
      message uptimeSha256 (fun _ => true) .sshTunnel tunnelRequest = some m :=
  ⟨_, rfl, by decide⟩

end NyxId.NodeSigning
