import NyxId.Credits
import NyxId.Encoding.Text
import Mathlib.Algebra.BigOperators.Group.Finset.Basic

/-!
Model usage: a contract names the selectors that a provider's counters are divided into, and every
count of the evidence goes to one of them. All errors are the same validation error.
-/

namespace NyxId.ModelUsage

inductive CacheTtl where
  | fiveMinutes
  | oneHour
  | thirtyMinutes
  | twelveHours
  deriving DecidableEq

inductive Modality where
  | image
  | audio
  deriving DecidableEq

inductive Selector where
  | input
  | output
  | reasoning
  | cacheRead
  | cacheWrite (ttl : CacheTtl)
  | imageInput
  | imageOutput
  | audioInput
  | audioOutput
  | cachedModality (modality : Modality)
  | images
  | requests
  deriving DecidableEq

def CacheTtl.all : List CacheTtl := [.fiveMinutes, .oneHour, .thirtyMinutes, .twelveHours]

def Selector.all : List Selector :=
  [.input, .output, .reasoning, .cacheRead, .imageInput, .imageOutput, .audioInput, .audioOutput,
    .cachedModality .image, .cachedModality .audio, .images, .requests] ++
      CacheTtl.all.map .cacheWrite

inductive UsageFamily where
  | openai
  | claude
  | gemini
  | openMaas
  deriving DecidableEq

structure UsageContract where
  version : String
  fixtureSha256 : String
  family : UsageFamily
  tokens : Bool
  cacheRead : Bool
  cacheWriteTtls : List CacheTtl
  splitReasoning : Bool
  inputModalities : List Modality
  outputModalities : List Modality
  billToolInput : Bool
  images : Bool
  requests : Bool

/-- Counters that are missing, zero or positive; those of the cache writes are under their lifetimes. -/
structure NativeUsageEvidence where
  input : Option ℤ
  output : Option ℤ
  total : Option ℤ
  cacheRead : Option ℤ
  cacheWrite : Option ℤ
  writes : CacheTtl → Option ℤ
  reasoning : Option ℤ
  toolInput : Option ℤ
  inputImage : Option ℤ
  inputAudio : Option ℤ
  outputImage : Option ℤ
  outputAudio : Option ℤ
  cachedImage : Option ℤ
  cachedAudio : Option ℤ
  images : Option ℤ
  requests : Option ℤ

def add (a b : ℤ) : Option ℤ := checkedI64 (a + b)

def sub (a b : ℤ) : Option ℤ := (checkedI64 (a - b)).filter fun v => 0 ≤ v

def count (n : Option ℤ) : Option ℤ := n.filter fun n => 0 ≤ n

def applicable (n : Option ℤ) (enabled : Bool) : Option ℤ :=
  if enabled then count n else if n.all (· = 0) then some 0 else none

/-- What a vector gives to the selectors that it has. -/
def Usage := Selector → Option ℤ

def Usage.empty : Usage := fun _ => none

def Usage.insert (v : Usage) (selector : Selector) (n : ℤ) : Usage :=
  fun other => if other = selector then some n else v other

def Usage.insertIf (v : Usage) (present : Bool) (selector : Selector) (n : ℤ) : Usage :=
  if present then v.insert selector n else v

def UsageFamily.version : UsageFamily → String
  | .openai => "openai.responses.v1"
  | .claude => "anthropic.messages.v1"
  | .gemini => "gemini.generate.v1"
  | .openMaas => "open_maas.certified.v1"

def isAsciiHexDigit (b : UInt8) : Bool :=
  (48 ≤ b && b ≤ 57) || (65 ≤ b && b ≤ 70) || (97 ≤ b && b ≤ 102)

def UsageFamily.allows (family : UsageFamily) (ttl : CacheTtl) : Bool :=
  match family, ttl with
  | .claude, .fiveMinutes => true
  | .claude, .oneHour => true
  | .openai, .thirtyMinutes => true
  | .openai, .twelveHours => true
  | .openMaas, _ => true
  | _, _ => false

/-- What `selectors` refuses. -/
def UsageContract.Refused (c : UsageContract) : Prop :=
  c.version ≠ c.family.version ∨ 80 < (Encoding.utf8 c.version).length ∨
    (Encoding.utf8 c.fixtureSha256).length ≠ 64 ∨
    (Encoding.utf8 c.fixtureSha256).all isAsciiHexDigit = false ∨
    2 < c.cacheWriteTtls.length ∨ ¬c.cacheWriteTtls.Nodup ∨ ¬c.inputModalities.Nodup ∨
    ¬c.outputModalities.Nodup ∨
    c.tokens = false ∧ (c.cacheRead = true ∨ c.cacheWriteTtls ≠ [] ∨ c.splitReasoning = true ∨
      c.billToolInput = true ∨ c.inputModalities ≠ [] ∨ c.outputModalities ≠ []) ∨
    c.images = true ∧ c.tokens = true ∨
    c.cacheWriteTtls ≠ [] ∧ c.inputModalities ≠ [] ∨
    c.splitReasoning = true ∧ c.outputModalities ≠ [] ∨
    c.billToolInput = true ∧ (c.family ≠ .gemini ∨ c.inputModalities ≠ []) ∨
    c.family = .claude ∧ (c.splitReasoning = true ∨ c.inputModalities ≠ [] ∨ c.outputModalities ≠ []) ∨
    c.cacheWriteTtls.any (fun ttl => !c.family.allows ttl) = true

instance (c : UsageContract) : Decidable c.Refused := by
  unfold UsageContract.Refused
  infer_instance

def Modality.inputSelector : Modality → Selector
  | .image => .imageInput
  | .audio => .audioInput

def Modality.outputSelector : Modality → Selector
  | .image => .imageOutput
  | .audio => .audioOutput

/-- Whether a contract that is not refused has a selector. -/
def UsageContract.has (c : UsageContract) : Selector → Bool
  | .input => c.tokens
  | .output => c.tokens
  | .cacheRead => c.cacheRead
  | .cacheWrite ttl => ttl ∈ c.cacheWriteTtls
  | .reasoning => c.splitReasoning
  | .imageInput => .image ∈ c.inputModalities
  | .audioInput => .audio ∈ c.inputModalities
  | .cachedModality modality => modality ∈ c.inputModalities && c.cacheRead
  | .imageOutput => .image ∈ c.outputModalities
  | .audioOutput => .audio ∈ c.outputModalities
  | .images => c.images
  | .requests => c.requests

/-- `selectors` -/
def selectors (c : UsageContract) : Option (List Selector) :=
  if c.Refused then none
  else if (Selector.all.filter c.has) = [] then none
  else some (Selector.all.filter c.has)

/-! ### Normalizing -/

def NativeUsageEvidence.tokenCounters (e : NativeUsageEvidence) : List (Option ℤ) :=
  [e.input, e.output, e.total, e.cacheRead, e.cacheWrite, e.reasoning, e.toolInput, e.inputImage,
    e.inputAudio, e.outputImage, e.outputAudio, e.cachedImage, e.cachedAudio]

def NativeUsageEvidence.counters (e : NativeUsageEvidence) : List (Option ℤ) :=
  e.tokenCounters ++ [e.images, e.requests] ++ CacheTtl.all.map e.writes

/-- The loop over the lifetimes of the cache writes. -/
def sumWrites (e : NativeUsageEvidence) : List CacheTtl → ℤ → Usage → Option (ℤ × Usage)
  | [], writes, v => some (writes, v)
  | ttl :: rest, writes, v => do
    let n ← count (e.writes ttl)
    let writes ← add writes n
    sumWrites e rest writes (v.insert (.cacheWrite ttl) n)

def NativeUsageEvidence.inputOf (e : NativeUsageEvidence) : Modality → Option ℤ
  | .image => e.inputImage
  | .audio => e.inputAudio

def NativeUsageEvidence.cachedOf (e : NativeUsageEvidence) : Modality → Option ℤ
  | .image => e.cachedImage
  | .audio => e.cachedAudio

def NativeUsageEvidence.outputOf (e : NativeUsageEvidence) : Modality → Option ℤ
  | .image => e.outputImage
  | .audio => e.outputAudio

/-- What is left of the input and of the cache, and what the modalities have. -/
structure InputShares where
  ordinary : ℤ
  cache : ℤ
  inputModalities : ℤ
  cacheModalities : ℤ
  v : Usage

def insertShares (c : UsageContract) (v : Usage) (modality : Modality) (uncached cached : ℤ) : Usage :=
  (v.insert modality.inputSelector uncached).insertIf c.cacheRead (.cachedModality modality) cached

/-- A round of the loop over the input modalities. -/
def shareInput (c : UsageContract) (e : NativeUsageEvidence) (input read : ℤ) (s : InputShares)
    (modality : Modality) : Option InputShares :=
  if (e.inputOf modality).any (input < ·) ∨ (e.cachedOf modality).any (read < ·) then none
  else if modality ∈ c.inputModalities then do
    let n ← count (e.inputOf modality)
    let cached ← applicable (e.cachedOf modality) c.cacheRead
    let uncached ← sub n cached
    let ordinary ← sub s.ordinary uncached
    let cache ← sub s.cache cached
    let inputModalities ← add s.inputModalities n
    let cacheModalities ← add s.cacheModalities cached
    some ⟨ordinary, cache, inputModalities, cacheModalities,
      insertShares c s.v modality uncached cached⟩
  else some s

/-- A round of the loop over the output modalities. -/
def shareOutput (c : UsageContract) (e : NativeUsageEvidence) (totalOutput reasoning : ℤ)
    (s : ℤ × Usage) (modality : Modality) : Option (ℤ × Usage) :=
  if (e.outputOf modality).any (totalOutput < ·) then none
  else if modality ∈ c.outputModalities then
    -- these contracts do not say what reasoning and a modality have in common
    if reasoning ≠ 0 then none
    else do
      let n ← count (e.outputOf modality)
      let ordinary ← sub s.1 n
      some (ordinary, s.2.insert modality.outputSelector n)
  else some s

/-- The counters of the tokens as they are checked against each other. -/
structure TokenCounts where
  input : ℤ
  output : ℤ
  read : ℤ
  write : ℤ
  reasoning : ℤ
  tool : ℤ
  totalInput : ℤ
  totalOutput : ℤ
  writes : Usage

/-- Claude counts the caches outside the input. -/
def inputTotal (family : UsageFamily) (input read write : ℤ) : Option ℤ :=
  if family = .claude then (add input read).bind (add · write) else some input

/-- Gemini counts the thoughts outside the output. -/
def outputTotal (family : UsageFamily) (output reasoning : ℤ) : Option ℤ :=
  if family = .gemini then add output reasoning else some output

def reasoningCount (c : UsageContract) (e : NativeUsageEvidence) : Option ℤ :=
  if c.family = .gemini ∨ c.splitReasoning = true then count e.reasoning else some (e.reasoning.getD 0)

def countTokens (c : UsageContract) (e : NativeUsageEvidence) : Option TokenCounts := do
  let input ← count e.input
  let output ← count e.output
  let read ← applicable e.cacheRead c.cacheRead
  let write ← applicable e.cacheWrite (!c.cacheWriteTtls.isEmpty)
  if CacheTtl.all.any fun ttl => (e.writes ttl).isSome && ttl ∉ c.cacheWriteTtls then none
  else do
    let writes ← sumWrites e c.cacheWriteTtls 0 .empty
    if writes.1 ≠ write then none
    else do
      let reasoning ← reasoningCount c e
      if c.family ≠ .gemini ∧ output < reasoning then none
      else do
        let tool ← applicable e.toolInput (c.family = .gemini)
        let totalInput ← inputTotal c.family input read write
        let totalOutput ← outputTotal c.family output reasoning
        some ⟨input, output, read, write, reasoning, tool, totalInput, totalOutput, writes.2⟩

/-- The check of the total, which not every response has. -/
def checkTotal (e : NativeUsageEvidence) (t : TokenCounts) : Option Unit :=
  match e.total with
  | none => some ()
  | some total => do
    let sum ← add t.totalInput t.totalOutput
    let sum ← add sum t.tool
    if total ≠ sum then none else some ()

/-- Whether the counters agree with the total and with those of the modalities. -/
def checkTokens (e : NativeUsageEvidence) (t : TokenCounts) : Option Unit := do
  let _ ← checkTotal e t
  let inputs ← add (e.inputImage.getD 0) (e.inputAudio.getD 0)
  if t.input < inputs then none
  else do
    let outputs ← add (e.outputImage.getD 0) (e.outputAudio.getD 0)
    if t.totalOutput < outputs then none
    else do
      let cached ← add (e.cachedImage.getD 0) (e.cachedAudio.getD 0)
      if t.read < cached then none
      else if [(e.cachedImage, e.inputImage), (e.cachedAudio, e.inputAudio)].any
          (fun pair => pair.1.any fun cached => pair.2.any (· < cached)) then none
      else some ()

/-- The input that no cache has, with the tool input of a contract that bills it. -/
def ordinaryInput (c : UsageContract) (t : TokenCounts) : Option ℤ := do
  let ordinary ← (if c.family = .claude then some t.input
    else (sub t.input t.read).bind (sub · t.write) : Option ℤ)
  if c.billToolInput then add ordinary t.tool else some ordinary

def ordinaryOutput (c : UsageContract) (t : TokenCounts) : Option ℤ :=
  if c.splitReasoning then sub t.totalOutput t.reasoning else some t.totalOutput

/-- The selectors of the input side and of the cache. -/
def partitionInput (c : UsageContract) (e : NativeUsageEvidence) (t : TokenCounts) : Option Usage := do
  let ordinary ← ordinaryInput c t
  let s ← shareInput c e t.input t.read ⟨ordinary, t.read, 0, 0, t.writes⟩ .image
  let s ← shareInput c e t.input t.read s .audio
  if t.input < s.inputModalities ∨ t.read < s.cacheModalities then none
  else some ((s.v.insert .input s.ordinary).insertIf c.cacheRead .cacheRead s.cache)

/-- The selectors of the output side. -/
def partitionOutput (c : UsageContract) (e : NativeUsageEvidence) (t : TokenCounts) (v : Usage) :
    Option Usage := do
  let ordinary ← ordinaryOutput c t
  let v := v.insertIf c.splitReasoning .reasoning t.reasoning
  let s ← shareOutput c e t.totalOutput t.reasoning (ordinary, v) .image
  let s ← shareOutput c e t.totalOutput t.reasoning s .audio
  some (s.2.insert .output s.1)

def normalizeTokens (c : UsageContract) (e : NativeUsageEvidence) : Option Usage := do
  let t ← countTokens c e
  let _ ← checkTokens e t
  let v ← partitionInput c e t
  partitionOutput c e t v

/-- A contract of no tokens has no counter of them. -/
def withoutTokens (e : NativeUsageEvidence) : Option Usage :=
  if e.tokenCounters.any (fun n => n.any (· ≠ 0)) ∨ CacheTtl.all.any (fun ttl => (e.writes ttl).isSome) then
    none
  else some .empty

def countRequests (c : UsageContract) (e : NativeUsageEvidence) (v : Usage) : Option Usage :=
  if c.requests then do
    let requests ← count e.requests
    if requests ≠ 1 then none else some (v.insert .requests requests)
  else some v

/-- `normalize` -/
def normalize (c : UsageContract) (e : NativeUsageEvidence) : Option Usage := do
  let _ ← selectors c
  -- every counter that is there, also one that no selector uses
  if e.counters.any fun n => n.any (· < 0) then none
  else do
    let v ← (if c.tokens then normalizeTokens c e else withoutTokens e : Option Usage)
    let images ← applicable e.images c.images
    let v := v.insertIf c.images .images images
    if e.requests.any (· ≠ 1) then none
    else do
      let v ← countRequests c e v
      if Selector.all.all fun selector => (v selector).isSome == c.has selector then some v else none

/-! ### Charging -/

structure TariffComponent where
  key : String
  selector : Selector
  maxQuantity : ℤ
  lagoMetricCode : String

structure RequestBounds where
  maxInputTokens : ℤ
  maxOutputTokens : ℤ
  maxCandidates : ℤ
  maxToolIterations : ℤ
  maxImages : ℤ

structure ModelTariff where
  id : String
  publicModel : String
  contract : UsageContract
  bounds : RequestBounds
  components : List TariffComponent

/-- The checks of `validate` that a tariff has one component for each selector. -/
def ModelTariff.Complete (t : ModelTariff) : Prop :=
  ∃ expected, selectors t.contract = some expected ∧ t.components.length = expected.length ∧
    (t.components.map TariffComponent.selector).Nodup ∧
    ∀ component ∈ t.components, component.selector ∈ expected

/-- The quantities under their Lago codes. -/
def chargeComponents (v : Usage) : List TariffComponent → List (String × ℤ) → Option (List (String × ℤ))
  | [], quantities => some quantities
  | component :: rest, quantities => do
    let n ← v component.selector
    if component.maxQuantity < n ∨ (quantities.map Prod.fst).contains component.lagoMetricCode = true then
      none
    else chargeComponents v rest (quantities ++ [(component.lagoMetricCode, n)])

structure TokenBreakdown where
  promptTokens : ℤ
  completionTokens : ℤ
  cachedTokens : ℤ
  cacheCreationTokens : ℤ
  deriving DecidableEq

/-- A usage with its charge vector; the request itself is counted once. -/
structure PlatformUsage where
  tokens : ℤ
  tokenBreakdown : Option TokenBreakdown
  audioTokens : Option (ℤ × ℤ)
  imageTokens : Option (ℤ × ℤ)
  nativeUsage : NativeUsageEvidence
  tariffId : String
  publicModel : String
  quantities : List (String × ℤ)

def modalityTokens (input output : Option ℤ) : Option (ℤ × ℤ) :=
  if input.isSome || output.isSome then some (input.getD 0, output.getD 0) else none

/-- `charge_vector` -/
def chargeVector (t : ModelTariff) (e : NativeUsageEvidence) : Option PlatformUsage := do
  let normalized ← normalize t.contract e
  let quantities ← chargeComponents normalized t.components []
  if quantities.length ≠ (Selector.all.filter fun selector => (normalized selector).isSome).length then
    none
  else do
    let totalInput ← inputTotal t.contract.family (e.input.getD 0) (e.cacheRead.getD 0)
      (e.cacheWrite.getD 0)
    let totalOutput ← outputTotal t.contract.family (e.output.getD 0) (e.reasoning.getD 0)
    let inputBound ← checkedI64 (t.bounds.maxInputTokens * t.bounds.maxToolIterations)
    let outputBound ← (checkedI64 (t.bounds.maxOutputTokens * t.bounds.maxCandidates)).bind
      fun n => checkedI64 (n * t.bounds.maxToolIterations)
    let used ← add totalInput (e.toolInput.getD 0)
    if inputBound < used ∨ outputBound < totalOutput ∨ t.bounds.maxImages < e.images.getD 0 then none
    else do
      let tokens ← add totalInput totalOutput
      let tokens ← add tokens (e.toolInput.getD 0)
      some {
        tokens := tokens
        tokenBreakdown := if t.contract.tokens then
            some ⟨e.input.getD 0, e.output.getD 0, e.cacheRead.getD 0, e.cacheWrite.getD 0⟩
          else none
        audioTokens := modalityTokens e.inputAudio e.outputAudio
        imageTokens := modalityTokens e.inputImage e.outputImage
        nativeUsage := e
        tariffId := t.id
        publicModel := t.publicModel
        quantities := quantities }

end NyxId.ModelUsage
