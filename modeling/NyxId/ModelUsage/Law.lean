import NyxId.ModelUsage.Counters

/-!
A normalized vector divides the provider's counters among the selectors of the contract, and a charge
vector prices each share once.
-/

namespace NyxId.ModelUsage

variable {c : UsageContract} {e : NativeUsageEvidence} {v : Usage}

/-! ### The provider's aggregates -/

/-- Claude's caches are added to its input. -/
def aggregateInput (c : UsageContract) (e : NativeUsageEvidence) : ℤ :=
  if c.family = .claude then e.input.getD 0 + e.cacheRead.getD 0 + e.cacheWrite.getD 0
  else e.input.getD 0

/-- Gemini's thoughts are added to its output. -/
def aggregateOutput (c : UsageContract) (e : NativeUsageEvidence) : ℤ :=
  if c.family = .gemini then e.output.getD 0 + e.reasoning.getD 0 else e.output.getD 0

def billedTool (c : UsageContract) (e : NativeUsageEvidence) : ℤ :=
  if c.billToolInput then e.toolInput.getD 0 else 0

/-- A counter that a contract requires is there, and one that it does not have counts nothing. -/
def Applies (n : Option ℤ) (enabled : Prop) : Prop :=
  (enabled → n.isSome = true) ∧ (¬enabled → n.getD 0 = 0)

/-- The counters that a contract requires are there and agree with each other. -/
structure CountersAgree (c : UsageContract) (e : NativeUsageEvidence) : Prop where
  input : e.input.isSome = true
  output : e.output.isSome = true
  read : Applies e.cacheRead (c.cacheRead = true)
  write : Applies e.cacheWrite (c.cacheWriteTtls ≠ [])
  writes : ∀ ttl, (e.writes ttl).isSome = true ↔ ttl ∈ c.cacheWriteTtls
  sum_writes : (c.cacheWriteTtls.map fun ttl => (e.writes ttl).getD 0).sum = e.cacheWrite.getD 0
  reasoning : c.family = .gemini ∨ c.splitReasoning = true → e.reasoning.isSome = true
  reasoning_le : c.family ≠ .gemini → e.reasoning.getD 0 ≤ e.output.getD 0
  tool : Applies e.toolInput (c.family = .gemini)
  fits_writes : c.cacheWriteTtls ≠ [] → Fits (e.cacheWrite.getD 0)
  fits_input : c.family = .claude → Fits (aggregateInput c e)
  fits_output : c.family = .gemini → Fits (aggregateOutput c e)

theorem Applies.of_applicable {n : Option ℤ} {enabled : Bool} {m : ℤ} {p : Prop}
    (hp : p ↔ enabled = true) (h : applicable n enabled = some m) : Applies n p := by
  obtain ⟨hdefault, -, hpresent, habsent⟩ := applicable_eq_some h
  refine ⟨fun henabled => ?_, fun hnot => ?_⟩
  · rw [hpresent (hp.mp henabled)]
    rfl
  · rw [← hdefault]
    exact habsent (Bool.eq_false_of_not_eq_true fun henabled => hnot (hp.mpr henabled))

/-- What the counted tokens have of the evidence. -/
structure Counted (c : UsageContract) (e : NativeUsageEvidence) (t : TokenCounts) : Prop where
  agree : CountersAgree c e
  input : t.input = e.input.getD 0
  output : t.output = e.output.getD 0
  read : t.read = e.cacheRead.getD 0
  write : t.write = e.cacheWrite.getD 0
  reasoning : t.reasoning = e.reasoning.getD 0
  tool : t.tool = e.toolInput.getD 0
  totalInput : t.totalInput = aggregateInput c e
  totalOutput : t.totalOutput = aggregateOutput c e
  input_nonneg : 0 ≤ t.input
  output_nonneg : 0 ≤ t.totalOutput
  read_nonneg : 0 ≤ t.read
  reasoning_nonneg : c.splitReasoning = true → 0 ≤ t.reasoning
  tool_nonneg : 0 ≤ t.tool
  shares : SummedWrites e c.cacheWriteTtls 0 .empty t.write t.writes

theorem inputTotal_eq_some {family : UsageFamily} {input read write n : ℤ}
    (h : inputTotal family input read write = some n) :
    (n = if family = .claude then input + read + write else input) ∧ (family = .claude → Fits n) := by
  unfold inputTotal at h
  split at h
  · rename_i hfamily
    obtain ⟨sum, hsum, h⟩ := Option.bind_eq_some_iff.mp h
    rw [if_pos hfamily, add_eq_some h, add_eq_some hsum]
    exact ⟨rfl, fun _ => add_eq_some hsum ▸ add_fits h⟩
  · rename_i hfamily
    rw [if_neg hfamily]
    exact ⟨(Option.some.inj h).symm, fun h => absurd h hfamily⟩

theorem outputTotal_eq_some {family : UsageFamily} {output reasoning n : ℤ}
    (h : outputTotal family output reasoning = some n) :
    (n = if family = .gemini then output + reasoning else output) ∧ (family = .gemini → Fits n) := by
  unfold outputTotal at h
  split at h
  · rename_i hfamily
    rw [if_pos hfamily, add_eq_some h]
    exact ⟨rfl, fun _ => add_fits h⟩
  · rename_i hfamily
    rw [if_neg hfamily]
    exact ⟨(Option.some.inj h).symm, fun h => absurd h hfamily⟩

theorem reasoningCount_eq_some {n : ℤ} (h : reasoningCount c e = some n) :
    n = e.reasoning.getD 0 ∧
      (c.family = .gemini ∨ c.splitReasoning = true → e.reasoning.isSome = true ∧ 0 ≤ n) := by
  unfold reasoningCount at h
  split at h
  · obtain ⟨hn, hnonneg⟩ := count_eq_some h
    rw [hn]
    exact ⟨rfl, fun _ => ⟨rfl, hnonneg⟩⟩
  · rename_i hnot
    exact ⟨(Option.some.inj h).symm, fun hfamily => absurd hfamily hnot⟩

theorem countTokens_spec (hnodup : c.cacheWriteTtls.Nodup) {t : TokenCounts}
    (h : countTokens c e = some t) : Counted c e t := by
  unfold countTokens at h
  obtain ⟨input, hinput, h⟩ := Option.bind_eq_some_iff.mp h
  obtain ⟨output, houtput, h⟩ := Option.bind_eq_some_iff.mp h
  obtain ⟨read, hread, h⟩ := Option.bind_eq_some_iff.mp h
  obtain ⟨write, hwrite, h⟩ := Option.bind_eq_some_iff.mp h
  split at h
  · cases h
  rename_i hwrites
  obtain ⟨writes, hsum, h⟩ := Option.bind_eq_some_iff.mp h
  split at h
  · cases h
  rename_i hsame
  obtain ⟨reasoning, hreasoning, h⟩ := Option.bind_eq_some_iff.mp h
  split at h
  · cases h
  rename_i hle
  obtain ⟨tool, htool, h⟩ := Option.bind_eq_some_iff.mp h
  obtain ⟨totalInput, htotalInput, h⟩ := Option.bind_eq_some_iff.mp h
  obtain ⟨totalOutput, htotalOutput, h⟩ := Option.bind_eq_some_iff.mp h
  obtain rfl := Option.some.inj h
  have hshares := sumWrites_spec hnodup hsum
  rw [not_not.mp hsame] at hshares
  obtain ⟨hinput, hinputnn⟩ := count_eq_some hinput
  obtain ⟨houtput, houtputnn⟩ := count_eq_some houtput
  obtain ⟨hreadD, hreadnn, -, -⟩ := applicable_eq_some hread
  obtain ⟨hwriteD, -, -, -⟩ := applicable_eq_some hwrite
  obtain ⟨htoolD, htoolnn, -, -⟩ := applicable_eq_some htool
  obtain ⟨hreasoning, hrequired⟩ := reasoningCount_eq_some hreasoning
  obtain ⟨htotalInput, hfitsInput⟩ := inputTotal_eq_some htotalInput
  obtain ⟨htotalOutput, hfitsOutput⟩ := outputTotal_eq_some htotalOutput
  have hinputD : input = e.input.getD 0 := by rw [hinput]; rfl
  have houtputD : output = e.output.getD 0 := by rw [houtput]; rfl
  have haggregateInput : totalInput = aggregateInput c e := by
    rw [htotalInput, hinputD, hreadD, hwriteD]
    rfl
  have haggregateOutput : totalOutput = aggregateOutput c e := by
    rw [htotalOutput, houtputD, hreasoning]
    rfl
  have hpresent (ttl : CacheTtl) : (e.writes ttl).isSome = true ↔ ttl ∈ c.cacheWriteTtls := by
    refine ⟨fun hsome => ?_, fun hmem => ?_⟩
    · by_contra hnot
      refine hwrites (List.any_eq_true.mpr ⟨ttl, ?_, ?_⟩)
      · cases ttl <;> decide
      · rw [hsome, decide_eq_true hnot]
        rfl
    · obtain ⟨m, hm, -⟩ := hshares.own ttl hmem
      rw [hm]
      rfl
  refine ⟨⟨?_, ?_, .of_applicable Iff.rfl hread, .of_applicable ?_ hwrite, hpresent, ?_,
    fun hfamily => (hrequired hfamily).1, fun hfamily => ?_,
    .of_applicable decide_eq_true_iff.symm htool, fun hne => hwriteD ▸ hshares.fits hne,
    fun hfamily => haggregateInput ▸ hfitsInput hfamily,
    fun hfamily => haggregateOutput ▸ hfitsOutput hfamily⟩, hinputD, houtputD, hreadD, hwriteD, hreasoning,
    htoolD, haggregateInput, haggregateOutput, hinputnn, ?_, hreadnn,
    fun hsplit => (hrequired (.inr hsplit)).2, htoolnn, hshares⟩
  · rw [hinput]
    rfl
  · rw [houtput]
    rfl
  · cases c.cacheWriteTtls with
    | nil => exact ⟨fun hne => absurd rfl hne, nofun⟩
    | cons ttl rest => exact ⟨fun _ => rfl, fun _ => List.cons_ne_nil ttl rest⟩
  · have hsum := hshares.sum
    rw [zero_add] at hsum
    rw [← hsum, hwriteD]
  · rw [← hreasoning, ← houtputD]
    exact not_lt.mp fun hlt => hle ⟨hfamily, hlt⟩
  · change 0 ≤ totalOutput
    rw [htotalOutput]
    split
    · rename_i hfamily
      exact add_nonneg houtputnn (hrequired (.inl hfamily)).2
    · exact houtputnn

/-- The counters agree with the total, where there is one, and with those of the modalities. -/
structure CrossChecked (c : UsageContract) (e : NativeUsageEvidence) : Prop where
  total : ∀ total, e.total = some total →
    total = aggregateInput c e + aggregateOutput c e + e.toolInput.getD 0 ∧ Fits total
  inputs : e.inputImage.getD 0 + e.inputAudio.getD 0 ≤ e.input.getD 0
  outputs : e.outputImage.getD 0 + e.outputAudio.getD 0 ≤ aggregateOutput c e
  cached : e.cachedImage.getD 0 + e.cachedAudio.getD 0 ≤ e.cacheRead.getD 0
  intersections : ∀ modality a b, e.cachedOf modality = some a → e.inputOf modality = some b → a ≤ b

theorem checkTokens_spec {t : TokenCounts} (ht : Counted c e t) (h : checkTokens e t = some ()) :
    CrossChecked c e := by
  unfold checkTokens at h
  obtain ⟨⟨⟩, htotal, h⟩ := Option.bind_eq_some_iff.mp h
  obtain ⟨inputs, hinputs, h⟩ := Option.bind_eq_some_iff.mp h
  split at h
  · cases h
  rename_i hinput
  obtain ⟨outputs, houtputs, h⟩ := Option.bind_eq_some_iff.mp h
  split at h
  · cases h
  rename_i houtput
  obtain ⟨cached, hcached, h⟩ := Option.bind_eq_some_iff.mp h
  split at h
  · cases h
  rename_i hread
  split at h
  · cases h
  rename_i hintersections
  refine ⟨fun total hsome => ?_, ?_, ?_, ?_, fun modality a b ha hb => ?_⟩
  · unfold checkTotal at htotal
    rw [hsome] at htotal
    obtain ⟨sum, hsum, htotal⟩ := Option.bind_eq_some_iff.mp htotal
    obtain ⟨sum', hsum', htotal⟩ := Option.bind_eq_some_iff.mp htotal
    split at htotal
    · cases htotal
    rename_i hsame
    rw [not_not.mp hsame, ← ht.totalInput, ← ht.totalOutput, ← ht.tool, ← add_eq_some hsum]
    exact ⟨add_eq_some hsum', add_eq_some hsum' ▸ add_fits hsum'⟩
  · rw [← ht.input, ← add_eq_some hinputs]
    exact not_lt.mp hinput
  · rw [← ht.totalOutput, ← add_eq_some houtputs]
    exact not_lt.mp houtput
  · rw [← ht.read, ← add_eq_some hcached]
    exact not_lt.mp hread
  · refine not_lt.mp fun hlt => hintersections (List.any_eq_true.mpr ⟨(some a, some b), ?_, ?_⟩)
    · rw [← ha, ← hb]
      cases modality
      · exact List.mem_cons_self
      · exact List.mem_cons_of_mem _ List.mem_cons_self
    · exact decide_eq_true hlt

/-! ### Partitions -/

/-- The groups have the provider's aggregates, and a counter of its own has its own selectors. -/
structure Partitioned (c : UsageContract) (e : NativeUsageEvidence) (v : Usage) : Prop where
  input : v.amount inputSide =
    (if c.family = .claude then e.input.getD 0
      else e.input.getD 0 - e.cacheRead.getD 0 - e.cacheWrite.getD 0) + billedTool c e
  cacheRead : v.amount cacheReads = e.cacheRead.getD 0
  cacheWrite : v.amount cacheWrites = e.cacheWrite.getD 0
  output : v.amount outputSide = aggregateOutput c e
  writes : ∀ ttl, v (.cacheWrite ttl) = e.writes ttl
  reasoning : c.splitReasoning = true → v .reasoning = e.reasoning
  inputModality : ∀ modality ∈ c.inputModalities,
    (v modality.inputSelector).getD 0 + (v (.cachedModality modality)).getD 0 =
        (e.inputOf modality).getD 0 ∧
      (v (.cachedModality modality)).getD 0 = (e.cachedOf modality).getD 0
  outputModality : ∀ modality ∈ c.outputModalities, v modality.outputSelector = e.outputOf modality

/-- What the selectors of a contract require of the counters of their modalities. -/
structure ModalitiesPresent (c : UsageContract) (e : NativeUsageEvidence) : Prop where
  input : ∀ modality ∈ c.inputModalities, (e.inputOf modality).isSome = true ∧
    (c.cacheRead = true → (e.cachedOf modality).isSome = true)
  output : ∀ modality ∈ c.outputModalities, (e.outputOf modality).isSome = true ∧ e.reasoning.getD 0 = 0
  caches : c.family ≠ .claude → e.cacheRead.getD 0 + e.cacheWrite.getD 0 ≤ e.input.getD 0

theorem ordinaryInput_eq_some {t : TokenCounts} {n : ℤ} (h : ordinaryInput c t = some n) :
    n = (if c.family = .claude then t.input else t.input - t.read - t.write) +
        (if c.billToolInput = true then t.tool else 0) ∧
      (c.family ≠ .claude → t.read + t.write ≤ t.input) := by
  unfold ordinaryInput at h
  obtain ⟨ordinary, hordinary, h⟩ := Option.bind_eq_some_iff.mp h
  have hn : n = ordinary + if c.billToolInput = true then t.tool else 0 := by
    split at h
    · rename_i hbill
      rw [if_pos hbill]
      exact add_eq_some h
    · rename_i hbill
      rw [if_neg hbill, add_zero]
      exact (Option.some.inj h).symm
  rw [hn]
  split at hordinary
  · rename_i hfamily
    rw [if_pos hfamily, Option.some.inj hordinary]
    exact ⟨rfl, fun hne => absurd hfamily hne⟩
  · rename_i hfamily
    obtain ⟨rest, hrest, hordinary⟩ := Option.bind_eq_some_iff.mp hordinary
    obtain ⟨hrest, -⟩ := sub_eq_some hrest
    obtain ⟨hordinary, hnonneg⟩ := sub_eq_some hordinary
    rw [if_neg hfamily, hordinary, hrest]
    exact ⟨rfl, fun _ => by omega⟩

theorem ordinaryOutput_eq_some {t : TokenCounts} {n : ℤ} (h : ordinaryOutput c t = some n)
    (houtput : 0 ≤ t.totalOutput) :
    n = t.totalOutput - (if c.splitReasoning = true then t.reasoning else 0) ∧ 0 ≤ n := by
  unfold ordinaryOutput at h
  split at h
  · rename_i hsplit
    rw [if_pos hsplit]
    exact sub_eq_some h
  · rename_i hsplit
    rw [if_neg hsplit, ← Option.some.inj h, sub_zero]
    exact ⟨rfl, houtput⟩

theorem amount_inputSide (v : Usage) : v.amount inputSide =
    (v .input).getD 0 + (v .imageInput).getD 0 + (v .audioInput).getD 0 := by
  simp only [Usage.amount, inputSide, List.map_cons, List.map_nil, List.sum_cons, List.sum_nil]
  omega

theorem amount_cacheReads (v : Usage) : v.amount cacheReads =
    (v .cacheRead).getD 0 + (v (.cachedModality .image)).getD 0 +
      (v (.cachedModality .audio)).getD 0 := by
  simp only [Usage.amount, cacheReads, List.map_cons, List.map_nil, List.sum_cons, List.sum_nil]
  omega

theorem amount_outputSide (v : Usage) : v.amount outputSide =
    (v .output).getD 0 + (v .reasoning).getD 0 + (v .imageOutput).getD 0 + (v .audioOutput).getD 0 := by
  simp only [Usage.amount, outputSide, List.map_cons, List.map_nil, List.sum_cons, List.sum_nil]
  omega

/-- The lifetimes that a contract does not list have nothing. -/
theorem amount_cacheWrites (hnodup : c.cacheWriteTtls.Nodup)
    (hwrites : ∀ ttl, (e.writes ttl).isSome = true ↔ ttl ∈ c.cacheWriteTtls)
    (hv : ∀ ttl, v (.cacheWrite ttl) = e.writes ttl) :
    v.amount cacheWrites = (c.cacheWriteTtls.map fun ttl => (e.writes ttl).getD 0).sum := by
  have hall : v.amount cacheWrites = (CacheTtl.all.map fun ttl => (e.writes ttl).getD 0).sum := by
    unfold Usage.amount cacheWrites
    rw [List.map_map]
    congr 1
    exact List.map_congr_left fun ttl _ => congrArg (·.getD 0) (hv ttl)
  rw [hall, ← List.sum_toFinset _ (by decide : CacheTtl.all.Nodup), ← List.sum_toFinset _ hnodup]
  refine (Finset.sum_subset (fun ttl _ => ?_) fun ttl _ hnot => ?_).symm
  · rw [List.mem_toFinset]
    cases ttl <;> decide
  · rw [List.mem_toFinset, ← hwrites] at hnot
    rw [Option.not_isSome_iff_eq_none.mp hnot]
    rfl

/-- The vector after the input side. -/
structure InputPartitioned (c : UsageContract) (e : NativeUsageEvidence) (v : Usage) : Prop where
  input : v.amount inputSide =
    (if c.family = .claude then e.input.getD 0
      else e.input.getD 0 - e.cacheRead.getD 0 - e.cacheWrite.getD 0) + billedTool c e
  cacheRead : v.amount cacheReads = e.cacheRead.getD 0
  writes : ∀ ttl, v (.cacheWrite ttl) = e.writes ttl
  modality : ∀ modality ∈ c.inputModalities,
    ((e.inputOf modality).isSome = true ∧ (c.cacheRead = true → (e.cachedOf modality).isSome = true)) ∧
      (v modality.inputSelector).getD 0 + (v (.cachedModality modality)).getD 0 =
        (e.inputOf modality).getD 0 ∧
      (v (.cachedModality modality)).getD 0 = (e.cachedOf modality).getD 0
  caches : c.family ≠ .claude → e.cacheRead.getD 0 + e.cacheWrite.getD 0 ≤ e.input.getD 0
  fresh : ∀ selector ∈ outputSide, v selector = none
  nonneg : v.Nonneg

theorem Usage.Nonneg.getD {v : Usage} (hv : v.Nonneg) (selector : Selector) : 0 ≤ (v selector).getD 0 := by
  cases h : v selector with
  | none => exact le_rfl
  | some n => exact hv selector n h

theorem writes_eq {t : TokenCounts} (ht : Counted c e t) (ttl : CacheTtl) :
    t.writes (.cacheWrite ttl) = e.writes ttl := by
  by_cases hmem : ttl ∈ c.cacheWriteTtls
  · obtain ⟨m, hm, -, hshare⟩ := ht.shares.own ttl hmem
    rw [hshare, hm]
  · have hnone := (ht.agree.writes ttl).not.mpr hmem
    rw [ht.shares.kept (.cacheWrite ttl) fun h => ?_, Option.not_isSome_iff_eq_none.mp hnone]
    · rfl
    · obtain ⟨other, hother, hsame⟩ := List.mem_map.mp h
      exact hmem (Selector.cacheWrite.inj hsame ▸ hother)

theorem writes_eq_none {t : TokenCounts} (ht : Counted c e t) {selector : Selector}
    (h : selector ∉ CacheTtl.all.map .cacheWrite) : t.writes selector = none := by
  refine ht.shares.kept selector fun hmem => h ?_
  obtain ⟨ttl, -, rfl⟩ := List.mem_map.mp hmem
  exact List.mem_map_of_mem (by cases ttl <;> decide)

theorem writes_nonneg {t : TokenCounts} (ht : Counted c e t) : t.writes.Nonneg := by
  intro selector n hn
  by_cases hmem : selector ∈ c.cacheWriteTtls.map .cacheWrite
  · obtain ⟨ttl, httl, rfl⟩ := List.mem_map.mp hmem
    obtain ⟨m, -, hnonneg, hshare⟩ := ht.shares.own ttl httl
    rw [hshare] at hn
    exact Option.some.inj hn ▸ hnonneg
  · rw [ht.shares.kept selector hmem] at hn
    cases hn

theorem partitionInput_spec {t : TokenCounts} (ht : Counted c e t)
    (h : partitionInput c e t = some v) : InputPartitioned c e v := by
  unfold partitionInput at h
  obtain ⟨ordinary, hordinary, h⟩ := Option.bind_eq_some_iff.mp h
  obtain ⟨image, himage, h⟩ := Option.bind_eq_some_iff.mp h
  obtain ⟨audio, haudio, h⟩ := Option.bind_eq_some_iff.mp h
  split at h
  · cases h
  obtain rfl := Option.some.inj h
  have hsi := shareInput_spec (writes_eq_none ht (by decide)) (writes_eq_none ht (by decide)) himage
  have hsa := shareInput_spec
    ((hsi.kept .audioInput (by decide)).trans (writes_eq_none ht (by decide)))
    ((hsi.kept (.cachedModality .audio) (by decide)).trans (writes_eq_none ht (by decide))) haudio
  obtain ⟨hordinary, hcaches⟩ := ordinaryInput_eq_some hordinary
  have hordinarynn : 0 ≤ ordinary := by
    have htool := ht.tool_nonneg
    have hinput := ht.input_nonneg
    rw [hordinary]
    refine add_nonneg ?_ ?_
    · split
      · exact hinput
      · rename_i hfamily
        have hle := hcaches hfamily
        omega
    · split
      · exact htool
      · exact le_rfl
  have haudionn : audio.v.Nonneg := hsa.nonneg (hsi.nonneg (writes_nonneg ht))
  have hcachenn : 0 ≤ audio.cache := hsa.cache_nonneg (hsi.cache_nonneg ht.read_nonneg)
  have hinsertIf (selector : Selector) (h : selector ≠ .cacheRead) (h' : selector ≠ .input) :
      ((audio.v.insert .input audio.ordinary).insertIf c.cacheRead .cacheRead audio.cache) selector =
        audio.v selector := (insertIf_ne h).trans (insert_ne h')
  have hkept {selector : Selector} (h : selector ∉ [Selector.imageInput, .cachedModality .image])
      (h' : selector ∉ [Selector.audioInput, .cachedModality .audio]) :
      audio.v selector = t.writes selector := (hsa.kept selector h').trans (hsi.kept selector h)
  have himageInput := hsa.kept .imageInput (by decide)
  have himageCached := hsa.kept (.cachedModality .image) (by decide)
  refine ⟨?_, ?_, fun ttl => ?_, fun modality hmem => ?_, fun hfamily => ?_, fun selector hmem => ?_, ?_⟩
  · rw [amount_inputSide, hinsertIf .imageInput (by decide) (by decide),
      hinsertIf .audioInput (by decide) (by decide), insertIf_ne (by decide), insert_self, himageInput]
    have hi := hsi.ordinary
    have ha := hsa.ordinary
    change image.ordinary + (image.v .imageInput).getD 0 = ordinary at hi
    change audio.ordinary + (audio.v .audioInput).getD 0 = image.ordinary at ha
    have htotal : ordinary = _ := hordinary
    rw [ht.input, ht.read, ht.write, ht.tool] at htotal
    change audio.ordinary + _ + _ = _ + billedTool c e
    unfold billedTool
    omega
  · have hi := hsi.cache
    have ha := hsa.cache
    change image.cache + (image.v (.cachedModality .image)).getD 0 = t.read at hi
    rw [amount_cacheReads, hinsertIf (.cachedModality .image) (by decide) (by decide),
      hinsertIf (.cachedModality .audio) (by decide) (by decide), insertIf_self, insert_ne (by decide), hkept (by decide) (by decide), writes_eq_none ht (by decide),
      himageCached, ← ht.read]
    split
    · change audio.cache + _ + _ = _
      omega
    · rename_i hread
      have hzero := ht.agree.read.2 hread
      have hread := ht.read
      have himagenn := haudionn.getD (.cachedModality .image)
      have haudnn := haudionn.getD (.cachedModality .audio)
      rw [himageCached] at himagenn
      change 0 + _ + _ = _
      omega
  · rw [hinsertIf (.cacheWrite ttl) (nomatch ·) (nomatch ·), hkept (by cases ttl <;> decide) (by cases ttl <;> decide)]
    exact writes_eq ht ttl
  · rw [hinsertIf modality.inputSelector (by cases modality <;> decide) (by cases modality <;> decide),
      hinsertIf (.cachedModality modality) (nomatch ·) (nomatch ·)]
    cases modality with
    | image =>
      obtain ⟨n, hn, -, -, hpresent, hshare, hcached⟩ := hsi.own hmem
      rw [hn]
      refine ⟨⟨rfl, hpresent⟩, ?_, ?_⟩
      · change (audio.v .imageInput).getD 0 + _ = n
        rw [himageInput, himageCached]
        change (image.v .imageInput).getD 0 = _ at hshare
        omega
      · rw [himageCached]
        exact hcached
    | audio =>
      obtain ⟨n, hn, -, -, hpresent, hshare, hcached⟩ := hsa.own hmem
      rw [hn]
      refine ⟨⟨rfl, hpresent⟩, ?_, hcached⟩
      change _ + _ = n
      omega
  · have hle := hcaches hfamily
    rw [ht.input, ht.read, ht.write] at hle
    exact hle
  · rw [hinsertIf selector (by decide +revert) (by decide +revert), hkept (by decide +revert) (by decide +revert)]
    exact writes_eq_none ht (by decide +revert)
  · exact nonneg_insertIf (nonneg_insert haudionn
      (hsa.ordinary_nonneg (hsi.ordinary_nonneg hordinarynn))) fun _ => hcachenn

/-- What the output side adds to a vector that has nothing there. -/
structure OutputPartitioned (c : UsageContract) (e : NativeUsageEvidence) (v w : Usage) : Prop where
  output : w.amount outputSide = aggregateOutput c e
  reasoning : c.splitReasoning = true → w .reasoning = e.reasoning
  modality : ∀ modality ∈ c.outputModalities,
    (e.outputOf modality).isSome = true ∧ e.reasoning.getD 0 = 0 ∧
      w modality.outputSelector = e.outputOf modality
  kept : v.Extends w outputSide
  nonneg : v.Nonneg → w.Nonneg

theorem partitionOutput_spec {t : TokenCounts} {w : Usage} (ht : Counted c e t)
    (hfresh : ∀ selector ∈ outputSide, v selector = none) (h : partitionOutput c e t v = some w) :
    OutputPartitioned c e v w := by
  unfold partitionOutput at h
  obtain ⟨ordinary, hordinary, h⟩ := Option.bind_eq_some_iff.mp h
  obtain ⟨image, himage, h⟩ := Option.bind_eq_some_iff.mp h
  obtain ⟨audio, haudio, h⟩ := Option.bind_eq_some_iff.mp h
  obtain rfl := Option.some.inj h
  have hsplit {selector : Selector} (h : selector ≠ .reasoning) :
      (v.insertIf c.splitReasoning .reasoning t.reasoning) selector = v selector := insertIf_ne h
  have hsi := shareOutput_spec ((hsplit (by decide)).trans (hfresh _ (by decide))) himage
  have hsa := shareOutput_spec ((hsi.kept .audioOutput (by decide)).trans ((hsplit (by decide)).trans
    (hfresh _ (by decide)))) haudio
  obtain ⟨hordinary, hordinarynn⟩ := ordinaryOutput_eq_some hordinary ht.output_nonneg
  have hreasoningShare : (audio.2.insert .output audio.1) .reasoning =
      if c.splitReasoning = true then some t.reasoning else none := by
    rw [insert_ne (by decide), hsa.kept .reasoning (by decide), hsi.kept .reasoning (by decide)]
    exact (insertIf_self _ _ _ _).trans (by rw [hfresh .reasoning (by decide)])
  have himageOutput : (audio.2.insert .output audio.1) .imageOutput = image.2 .imageOutput := by
    rw [insert_ne (by decide), hsa.kept .imageOutput (by decide)]
  have haudioOutput : (audio.2.insert .output audio.1) .audioOutput = audio.2 .audioOutput :=
    insert_ne (by decide)
  refine ⟨?_, fun hreasoning => ?_, fun modality hmem => ?_, fun selector hselector => ?_, fun hv => ?_⟩
  · have hi := hsi.ordinary
    have ha := hsa.ordinary
    change image.1 + (image.2 .imageOutput).getD 0 = ordinary at hi
    change audio.1 + (audio.2 .audioOutput).getD 0 = image.1 at ha
    rw [amount_outputSide, hreasoningShare, himageOutput, haudioOutput, insert_self, ← ht.totalOutput]
    split at hordinary
    · rename_i hreasoning
      rw [if_pos hreasoning]
      change audio.1 + t.reasoning + _ + _ = _
      omega
    · rename_i hreasoning
      rw [if_neg hreasoning]
      change audio.1 + 0 + _ + _ = _
      omega
  · obtain ⟨n, hn⟩ := Option.isSome_iff_exists.mp (ht.agree.reasoning (.inr hreasoning))
    rw [hreasoningShare, if_pos hreasoning, ht.reasoning, hn]
    rfl
  · cases modality with
    | image =>
      obtain ⟨hzero, n, hn, -, hshare⟩ := hsi.own hmem
      rw [hn, ← ht.reasoning]
      exact ⟨rfl, hzero, himageOutput.trans hshare⟩
    | audio =>
      obtain ⟨hzero, n, hn, -, hshare⟩ := hsa.own hmem
      rw [hn, ← ht.reasoning]
      exact ⟨rfl, hzero, haudioOutput.trans hshare⟩
  · simp only [outputSide, List.mem_cons, List.not_mem_nil, or_false, not_or] at hselector
    rw [insert_ne hselector.1, hsa.kept selector (List.not_mem_cons_of_ne_of_not_mem hselector.2.2.2
      List.not_mem_nil), hsi.kept selector (List.not_mem_cons_of_ne_of_not_mem hselector.2.2.1
      List.not_mem_nil)]
    exact hsplit hselector.2.1
  · exact nonneg_insert (hsa.nonneg (hsi.nonneg (nonneg_insertIf hv ht.reasoning_nonneg)))
      (hsa.ordinary_nonneg (hsi.ordinary_nonneg hordinarynn))

/-- A token contract's counters, as a vector that was made of them shows them. -/
structure TokensNormalized (c : UsageContract) (e : NativeUsageEvidence) (v : Usage) : Prop where
  agree : CountersAgree c e
  checked : CrossChecked c e
  present : ModalitiesPresent c e
  partitioned : Partitioned c e v

theorem normalizeTokens_spec (hnodup : c.cacheWriteTtls.Nodup) (h : normalizeTokens c e = some v) :
    TokensNormalized c e v ∧ v.Nonneg := by
  unfold normalizeTokens at h
  obtain ⟨t, hcount, h⟩ := Option.bind_eq_some_iff.mp h
  obtain ⟨⟨⟩, hcheck, h⟩ := Option.bind_eq_some_iff.mp h
  obtain ⟨u, hinput, houtput⟩ := Option.bind_eq_some_iff.mp h
  have ht := countTokens_spec hnodup hcount
  have hi := partitionInput_spec ht hinput
  have ho := partitionOutput_spec ht hi.fresh houtput
  have hsame {group : List Selector} (h : ∀ selector ∈ group, selector ∉ outputSide) :
      v.amount group = u.amount group := ho.kept.amount h
  have hwrites (ttl : CacheTtl) : v (.cacheWrite ttl) = e.writes ttl :=
    (ho.kept (.cacheWrite ttl) (by cases ttl <;> decide)).trans (hi.writes ttl)
  refine ⟨⟨ht.agree, checkTokens_spec ht hcheck,
    ⟨fun modality hmem => (hi.modality modality hmem).1, fun modality hmem => ?_, hi.caches⟩, ?_⟩,
    ho.nonneg hi.nonneg⟩
  · obtain ⟨hpresent, hzero, -⟩ := ho.modality modality hmem
    exact ⟨hpresent, hzero⟩
  · refine ⟨(hsame (by decide)).trans hi.input, (hsame (by decide)).trans hi.cacheRead, ?_, ho.output,
      hwrites, ho.reasoning, fun modality hmem => ?_, fun modality hmem => (ho.modality modality hmem).2.2⟩
    · rw [amount_cacheWrites hnodup ht.agree.writes hwrites]
      exact ht.agree.sum_writes
    · rw [ho.kept modality.inputSelector (by cases modality <;> decide),
        ho.kept (.cachedModality modality) (by cases modality <;> decide)]
      exact (hi.modality modality hmem).2

/-- The images and the requests are in no group of the tokens. -/
theorem Partitioned.congr {u : Usage} (hu : Partitioned c e u) (h : u.Extends v [.images, .requests]) :
    Partitioned c e v := by
  refine ⟨(h.amount (by decide)).trans hu.input, (h.amount (by decide)).trans hu.cacheRead,
    (h.amount (by decide)).trans hu.cacheWrite, (h.amount (by decide)).trans hu.output, fun ttl => ?_,
    fun hsplit => (h .reasoning (by decide)).trans (hu.reasoning hsplit), fun modality hmem => ?_,
    fun modality hmem => ?_⟩
  · exact (h (.cacheWrite ttl) (by cases ttl <;> decide)).trans (hu.writes ttl)
  · rw [h modality.inputSelector (by cases modality <;> decide),
      h (.cachedModality modality) (by cases modality <;> decide)]
    exact hu.inputModality modality hmem
  · exact (h modality.outputSelector (by cases modality <;> decide)).trans (hu.outputModality modality hmem)

/-- Every selector of the tokens is in one of the groups. -/
def tokenSelectors : List Selector := inputSide ++ cacheReads ++ cacheWrites ++ outputSide

theorem amount_append (v : Usage) (group group' : List Selector) :
    v.amount (group ++ group') = v.amount group + v.amount group' := by
  unfold Usage.amount
  rw [List.map_append, List.sum_append]

theorem Partitioned.total (hv : Partitioned c e v) :
    v.amount tokenSelectors = aggregateInput c e + aggregateOutput c e + billedTool c e := by
  have hinput := hv.input
  unfold tokenSelectors aggregateInput
  rw [amount_append, amount_append, amount_append, hv.cacheRead, hv.cacheWrite, hv.output, hinput]
  split <;> omega

/-- What a vector says of the contract and the evidence that it was made of. That its shares are
charged once is said where the tariff has a component for each selector. -/
structure NormalizedUsage (c : UsageContract) (e : NativeUsageEvidence) (v : Usage) : Prop where
  keys : ∃ expected, selectors c = some expected ∧
    ∀ selector, (v selector).isSome = true ↔ selector ∈ expected
  nonneg : v.Nonneg
  counters : ∀ counter ∈ e.counters, ∀ n, counter = some n → 0 ≤ n
  tokens : c.tokens = true → TokensNormalized c e v ∧
    v.amount tokenSelectors = aggregateInput c e + aggregateOutput c e + billedTool c e
  withoutTokens : c.tokens = false →
    (∀ counter ∈ e.tokenCounters, counter.getD 0 = 0) ∧ ∀ ttl, e.writes ttl = none
  images : Applies e.images (c.images = true) ∧ (c.images = true → v .images = e.images)
  requests : (∀ n, e.requests = some n → n = 1) ∧
    (c.requests = true → e.requests = some 1 ∧ v .requests = some 1)

theorem selectors_eq_some {expected : List Selector} (h : selectors c = some expected) :
    ¬c.Refused ∧ ∀ selector, selector ∈ expected ↔ c.has selector = true := by
  unfold selectors at h
  split at h
  · cases h
  rename_i hrefused
  split at h
  · cases h
  obtain rfl := Option.some.inj h
  refine ⟨hrefused, fun selector => ?_⟩
  rw [List.mem_filter]
  refine ⟨fun h => h.2, fun h => ⟨?_, h⟩⟩
  cases selector with
  | cacheWrite ttl => cases ttl <;> decide
  | cachedModality modality => cases modality <;> decide
  | _ => decide

theorem withoutTokens_spec (h : withoutTokens e = some v) : v = Usage.empty ∧
    (∀ counter ∈ e.tokenCounters, counter.getD 0 = 0) ∧ ∀ ttl, e.writes ttl = none := by
  unfold withoutTokens at h
  split at h
  · cases h
  rename_i hnone
  rw [not_or] at hnone
  refine ⟨(Option.some.inj h).symm, fun counter hmem => ?_, fun ttl => ?_⟩
  · by_contra hne
    refine hnone.1 (List.any_eq_true.mpr ⟨counter, hmem, ?_⟩)
    cases counter with
    | none => exact absurd rfl hne
    | some n => exact decide_eq_true hne
  · by_contra hne
    refine hnone.2 (List.any_eq_true.mpr ⟨ttl, by cases ttl <;> decide, ?_⟩)
    exact Option.isSome_iff_ne_none.mpr hne

theorem countRequests_spec {w : Usage} (h : countRequests c e v = some w) :
    (c.requests = true → e.requests = some 1 ∧ w .requests = some 1) ∧ v.Extends w [.requests] ∧
      (v.Nonneg → w.Nonneg) := by
  unfold countRequests at h
  split at h
  · obtain ⟨n, hcount, h⟩ := Option.bind_eq_some_iff.mp h
    split at h
    · cases h
    rename_i hone
    obtain rfl := Option.some.inj h
    obtain ⟨hn, hnonneg⟩ := count_eq_some hcount
    obtain rfl := not_not.mp hone
    exact ⟨fun _ => ⟨hn, insert_self v _ _⟩, extends_insert List.mem_cons_self,
      fun hv => nonneg_insert hv hnonneg⟩
  · rename_i hnot
    obtain rfl := Option.some.inj h
    exact ⟨fun hrequests => absurd hrequests hnot, fun _ _ => rfl, id⟩

theorem normalize_spec (h : normalize c e = some v) : NormalizedUsage c e v := by
  unfold normalize at h
  obtain ⟨expected, hexpected, h⟩ := Option.bind_eq_some_iff.mp h
  split at h
  · cases h
  rename_i hcounters
  obtain ⟨u, hu, h⟩ := Option.bind_eq_some_iff.mp h
  obtain ⟨images, himages, h⟩ := Option.bind_eq_some_iff.mp h
  split at h
  · cases h
  rename_i hrequests
  obtain ⟨w, hw, h⟩ := Option.bind_eq_some_iff.mp h
  split at h
  swap
  · cases h
  rename_i hkeys
  obtain rfl := Option.some.inj h
  obtain ⟨hrefused, hhas⟩ := selectors_eq_some hexpected
  obtain ⟨hrequired, hkept, hnonneg⟩ := countRequests_spec hw
  obtain ⟨-, himagesnn, hpresent, -⟩ := applicable_eq_some himages
  have hnodup : c.cacheWriteTtls.Nodup := by
    by_contra hnot
    unfold UsageContract.Refused at hrefused
    tauto
  have hext : u.Extends w [.images, .requests] := fun selector hselector => by
    simp only [List.mem_cons, List.not_mem_nil, or_false, not_or] at hselector
    rw [hkept selector (List.not_mem_cons_of_ne_of_not_mem hselector.2 List.not_mem_nil)]
    exact insertIf_ne hselector.1
  have hunonneg : u.Nonneg := by
    split at hu
    · exact (normalizeTokens_spec hnodup hu).2
    · rw [(withoutTokens_spec hu).1]
      exact fun _ _ h => nomatch h
  refine ⟨⟨expected, hexpected, fun selector => ?_⟩, hnonneg (nonneg_insertIf hunonneg fun _ => himagesnn),
    fun counter hmem n hn => ?_, fun htokens => ?_, fun htokens => ?_,
    ⟨.of_applicable Iff.rfl himages, fun hc => ?_⟩, fun n hn => ?_, hrequired⟩
  · have hall := List.all_eq_true.mp hkeys selector (by
      cases selector with
      | cacheWrite ttl => cases ttl <;> decide
      | cachedModality modality => cases modality <;> decide
      | _ => decide)
    rw [hhas, eq_of_beq hall]
  · refine not_lt.mp fun hlt => hcounters (List.any_eq_true.mpr ⟨counter, hmem, ?_⟩)
    rw [hn]
    exact decide_eq_true hlt
  · rw [if_pos htokens] at hu
    obtain ⟨hagree, hchecked, hmodalities, hparts⟩ := (normalizeTokens_spec hnodup hu).1
    have hparts := hparts.congr hext
    exact ⟨⟨hagree, hchecked, hmodalities, hparts⟩, hparts.total⟩
  · rw [if_neg (by rw [htokens]; decide)] at hu
    exact (withoutTokens_spec hu).2
  · rw [hkept .images (by decide), insertIf_self, if_pos hc, hpresent hc]
  · by_contra hne
    refine hrequests ?_
    rw [hn]
    exact decide_eq_true hne

/-! ### Charges -/

/-- The quantities of the components are their selectors' shares, each under a code of its own. -/
structure ChargedComponents (v : Usage) (components : List TariffComponent)
    (quantities : List (String × ℤ)) : Prop where
  shares : quantities = components.map fun k => (k.lagoMetricCode, (v k.selector).getD 0)
  present : ∀ k ∈ components, ∃ n, v k.selector = some n ∧ n ≤ k.maxQuantity
  codes : (components.map TariffComponent.lagoMetricCode).Nodup

theorem chargeComponents_append {components : List TariffComponent} {before quantities : List (String × ℤ)}
    (h : chargeComponents v components before = some quantities) :
    (quantities = before ++ components.map fun k => (k.lagoMetricCode, (v k.selector).getD 0)) ∧
      (∀ k ∈ components, ∃ n, v k.selector = some n ∧ n ≤ k.maxQuantity) ∧
      ((before.map Prod.fst).Nodup → (quantities.map Prod.fst).Nodup) := by
  induction components generalizing before with
  | nil =>
    obtain rfl := Option.some.inj h
    exact ⟨(List.append_nil _).symm, nofun, id⟩
  | cons k rest ih =>
    unfold chargeComponents at h
    obtain ⟨n, hn, h⟩ := Option.bind_eq_some_iff.mp h
    split at h
    · cases h
    rename_i hguard
    rw [not_or, not_lt] at hguard
    obtain ⟨hshares, hpresent, hcodes⟩ := ih h
    refine ⟨?_, fun other hother => ?_, fun hbefore => hcodes ?_⟩
    · rw [hshares, List.append_assoc, List.map_cons, hn]
      rfl
    · rcases List.mem_cons.mp hother with rfl | hother
      · exact ⟨n, hn, hguard.1⟩
      · exact hpresent other hother
    · rw [List.map_append, List.nodup_append]
      refine ⟨hbefore, List.nodup_singleton _, fun code hcode other hother hsame => hguard.2 ?_⟩
      obtain rfl := List.mem_singleton.mp hother
      rw [hsame] at hcode
      exact List.elem_eq_true_of_mem hcode

theorem chargeComponents_spec {components : List TariffComponent} {quantities : List (String × ℤ)}
    (h : chargeComponents v components [] = some quantities) :
    ChargedComponents v components quantities := by
  obtain ⟨hshares, hpresent, hcodes⟩ := chargeComponents_append h
  rw [List.nil_append] at hshares
  refine ⟨hshares, hpresent, ?_⟩
  have hnodup := hcodes List.nodup_nil
  rw [hshares, List.map_map] at hnodup
  exact hnodup

/-- The components of a complete tariff are the selectors of its contract, in some order. -/
theorem ModelTariff.Complete.perm {t : ModelTariff} {expected : List Selector} (ht : t.Complete)
    (h : selectors t.contract = some expected) :
    (t.components.map TariffComponent.selector).Perm expected := by
  obtain ⟨expected', hexpected, hlength, hnodup, hmem⟩ := ht
  obtain rfl := Option.some.inj (hexpected.symm.trans h)
  refine (hnodup.subperm fun selector hselector => ?_).perm_of_length_le ?_
  · obtain ⟨k, hk, rfl⟩ := List.mem_map.mp hselector
    exact hmem k hk
  · rw [List.length_map, hlength]

/-- What a charge vector has of a normalized one. -/
structure ChargedOnce (t : ModelTariff) (e : NativeUsageEvidence) (v : Usage) (u : PlatformUsage) :
    Prop where
  components : ChargedComponents v t.components u.quantities
  tokens : u.tokens = aggregateInput t.contract e + aggregateOutput t.contract e + e.toolInput.getD 0
  fits : Fits u.tokens
  covers : t.Complete → ∃ expected, selectors t.contract = some expected ∧
    (t.components.map TariffComponent.selector).Perm expected ∧
      (u.quantities.map Prod.snd).sum = v.amount expected

theorem chargeVector_spec {t : ModelTariff} {u : PlatformUsage} (h : chargeVector t e = some u) :
    ∃ v, normalize t.contract e = some v ∧ ChargedOnce t e v u := by
  unfold chargeVector at h
  obtain ⟨v, hnormalize, h⟩ := Option.bind_eq_some_iff.mp h
  obtain ⟨quantities, hquantities, h⟩ := Option.bind_eq_some_iff.mp h
  split at h
  · cases h
  obtain ⟨totalInput, htotalInput, h⟩ := Option.bind_eq_some_iff.mp h
  obtain ⟨totalOutput, htotalOutput, h⟩ := Option.bind_eq_some_iff.mp h
  obtain ⟨inputBound, -, h⟩ := Option.bind_eq_some_iff.mp h
  obtain ⟨outputBound, -, h⟩ := Option.bind_eq_some_iff.mp h
  obtain ⟨used, -, h⟩ := Option.bind_eq_some_iff.mp h
  split at h
  · cases h
  obtain ⟨sum, hsum, h⟩ := Option.bind_eq_some_iff.mp h
  obtain ⟨tokens, htokens, h⟩ := Option.bind_eq_some_iff.mp h
  obtain rfl := Option.some.inj h
  have hcharged := chargeComponents_spec hquantities
  refine ⟨v, hnormalize, hcharged, ?_, ?_, fun ht => ?_⟩
  · change tokens = _
    rw [add_eq_some htokens, add_eq_some hsum, (inputTotal_eq_some htotalInput).1,
      (outputTotal_eq_some htotalOutput).1]
    rfl
  · change Fits tokens
    exact add_eq_some htokens ▸ add_fits htokens
  · obtain ⟨expected, hexpected, -⟩ := (normalize_spec hnormalize).keys
    have hperm := ht.perm hexpected
    refine ⟨expected, hexpected, hperm, ?_⟩
    have hsums := (hperm.map fun selector => (v selector).getD 0).sum_eq
    rw [List.map_map] at hsums
    unfold Usage.amount
    rw [← hsums]
    change (quantities.map Prod.snd).sum = _
    rw [hcharged.shares, List.map_map]
    rfl

/-- A vector that `normalize` returns divides the provider's counters among the selectors, and a charge
vector prices every share once; only the charge needs the sum of all tokens to fit. -/
theorem usage_partitioned (e : NativeUsageEvidence) :
    (∀ c v, normalize c e = some v → NormalizedUsage c e v) ∧
    ∀ t u, chargeVector t e = some u →
      ∃ v, normalize t.contract e = some v ∧ NormalizedUsage t.contract e v ∧ ChargedOnce t e v u := by
  refine ⟨fun c v h => normalize_spec h, fun t u h => ?_⟩
  obtain ⟨v, hnormalize, hcharged⟩ := chargeVector_spec h
  exact ⟨v, hnormalize, normalize_spec hnormalize, hcharged⟩

def plainContract : UsageContract where
  version := "openai.responses.v1"
  fixtureSha256 := "0000000000000000000000000000000000000000000000000000000000000000"
  family := .openai
  tokens := true
  cacheRead := false
  cacheWriteTtls := []
  splitReasoning := false
  inputModalities := []
  outputModalities := []
  billToolInput := false
  images := false
  requests := false

/-- A response without a total whose input and output are not held by 64 bits together. -/
def untotaledEvidence : NativeUsageEvidence where
  input := some (2 ^ 62)
  output := some (2 ^ 62)
  total := none
  cacheRead := none
  cacheWrite := none
  writes := fun _ => none
  reasoning := none
  toolInput := none
  inputImage := none
  inputAudio := none
  outputImage := none
  outputAudio := none
  cachedImage := none
  cachedAudio := none
  images := none
  requests := none

def plainTariff : ModelTariff where
  id := "tariff"
  publicModel := "model"
  contract := plainContract
  bounds := ⟨10, 10, 1, 1, 0⟩
  components := [⟨"input", .input, 10, "input"⟩, ⟨"output", .output, 10, "output"⟩]

def totaledEvidence : NativeUsageEvidence :=
  { untotaledEvidence with input := some 3, output := some 4, total := some 7 }

theorem seven_tokens_charged : ∃ u v, normalize plainContract totaledEvidence = some v ∧
    NormalizedUsage plainContract totaledEvidence v ∧ ChargedOnce plainTariff totaledEvidence v u := by
  obtain ⟨u, hu⟩ := Option.isSome_iff_exists.mp
    (show (chargeVector plainTariff totaledEvidence).isSome = true by decide)
  exact ⟨u, (usage_partitioned totaledEvidence).2 plainTariff u hu⟩

theorem untotaled_overflow : (normalize plainContract untotaledEvidence).isSome = true ∧
    ¬Fits (aggregateInput plainContract untotaledEvidence +
      aggregateOutput plainContract untotaledEvidence) := by
  refine ⟨by decide, ?_⟩
  unfold Fits
  decide

end NyxId.ModelUsage
