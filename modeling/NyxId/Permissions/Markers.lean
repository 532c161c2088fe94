import NyxId.Paging
import NyxId.Permissions.Drive
import Mathlib.Data.List.Infix

/-!
The `response_markers` hook. It looks for literal markers in a sanitized response chunk by chunk,
and lets others run after each chunk.
-/

namespace NyxId.Permissions

open Interleave Encoding Paging

structure MarkersConfig where
  markers : List String

/-- `Vec<String>`. -/
def markerStrings : Json → Option (List String)
  | .array items => items.mapM Json.asStr
  | _ => none

/-- `serde_json::from_value`: the one field by its name, or by its place. -/
def MarkersConfig.fromValue : Json → Option MarkersConfig
  | .object [(name, value)] =>
    if name = "markers" then (markerStrings value).map .mk else none
  | .array [value] => (markerStrings value).map .mk
  | _ => none

namespace ResponseMarkers

def validate (stage : HookStage) (config : Json) : Except Error Unit :=
  match MarkersConfig.fromValue config with
  | none => .error (.policy "invalid response_markers config")
  | some config =>
    if stage ≠ .afterResponse || config.markers.isEmpty || config.markers.length > 16 ||
        config.markers.any fun marker => marker.isEmpty || marker.utf8ByteSize > 128 then
      .error (.policy "response_markers requires after_response and 1–16 markers of 1–128 bytes")
    else .ok ()

def chunkSize : ℕ := 64 * 1024

variable (find : List UInt8 → List UInt8 → Option ℕ)

/-- Whether one of the chunks that begin at these places holds the marker. -/
def checkChunks (body marker : List UInt8) : List ℕ → Work Bool
  | [] => .done false
  | start :: rest =>
    let stop := min body.length (start + chunkSize + marker.length - 1)
    if (find (slice body start stop) marker).isSome then .done true
    else .suspend (checkChunks body marker rest)

def checkMarkers (body : List UInt8) : List String → Work HookDecision
  | [] => .done .allow
  | marker :: rest =>
    (checkChunks find body (utf8 marker) (stepBy body.length chunkSize)).bind fun found =>
      if found then .done .deny else checkMarkers body rest

/-- The check of a handler that is bound with a configuration; `find` is the substring search. -/
def check (config : Json) (_ : Policy) (_ : Plan) (response : Option Response) : Work HookEnd :=
  match MarkersConfig.fromValue config, response with
  | some config, some response =>
    (checkMarkers find response.body config.markers).bind fun decision => .done (.decision decision)
  | _, _ => .done .failure

theorem nonempty_of_validate {stage : HookStage} {config : Json} {parsed : MarkersConfig}
    (hparsed : MarkersConfig.fromValue config = some parsed)
    (h : validate stage config = .ok ()) : ∀ marker ∈ parsed.markers, marker ≠ "" := by
  rintro marker hmem rfl
  simp only [validate, hparsed] at h
  split at h
  · cases h
  · rename_i hvalid
    refine hvalid (Bool.or_eq_true_iff.mpr (Or.inr ?_))
    exact List.any_eq_true.mpr ⟨"", hmem, rfl⟩

section

variable {find} (hfind : ∀ items run, (find items run).isSome = true ↔ run <:+: items)

include hfind

theorem checkChunks_result (body marker : List UInt8) (starts : List ℕ) :
    ∃ found, (checkChunks find body marker starts).result = some found ∧
      (found = true ↔ ∃ start ∈ starts,
        marker <:+: slice body start (min body.length (start + chunkSize + marker.length - 1))) := by
  induction starts with
  | nil => exact ⟨false, rfl, by simp⟩
  | cons start rest ih =>
    obtain ⟨found, hresult, hfound⟩ := ih
    rw [checkChunks]
    by_cases hhere : (find (slice body start
        (min body.length (start + chunkSize + marker.length - 1))) marker).isSome = true
    · refine ⟨true, by rw [if_pos hhere, Task.result], ?_⟩
      exact iff_of_true rfl ⟨start, List.mem_cons_self, (hfind _ _).mp hhere⟩
    · refine ⟨found, by rw [if_neg hhere, Task.result, hresult], ?_⟩
      rw [hfound, List.exists_mem_cons_iff, ← hfind _ marker, or_iff_right hhere]

/-- The chunks of a marker overlap enough. -/
theorem checkMarkers_result (body : List UInt8) {markers : List String}
    (hmarkers : ∀ marker ∈ markers, marker ≠ "") :
    ∃ decision, (checkMarkers find body markers).result = some decision ∧
      (decision = .deny ↔ ∃ marker ∈ markers, utf8 marker <:+: body) := by
  induction markers with
  | nil => exact ⟨.allow, rfl, by simp⟩
  | cons marker rest ih =>
    obtain ⟨decision, hresult, hdecision⟩ :=
      ih fun other hother => hmarkers other (List.mem_cons_of_mem _ hother)
    obtain ⟨found, hchunks, hfound⟩ :=
      checkChunks_result hfind body (utf8 marker) (stepBy body.length chunkSize)
    have hne : utf8 marker ≠ [] := fun hempty =>
      hmarkers marker List.mem_cons_self (utf8_injective hempty)
    rw [← infix_iff_window (by decide) hne] at hfound
    rw [checkMarkers, Task.result_bind, hchunks, Option.bind_some, List.exists_mem_cons_iff, ← hfound]
    cases found with
    | true => exact ⟨.deny, rfl, by simp⟩
    | false => exact ⟨decision, hresult, by simpa using hdecision⟩

end

/-- The hook answers as a search of the whole body does. -/
theorem denies_iff_marker_occurs
    (hfind : ∀ items run, (find items run).isSome = true ↔ run <:+: items)
    (config : Json) (parsed : MarkersConfig) (hparsed : MarkersConfig.fromValue config = some parsed)
    (hmarkers : ∀ marker ∈ parsed.markers, marker ≠ "") (policy : Policy) (plan : Plan)
    (response : Response) :
    ((check find config policy plan (some response)).result = some (.decision .deny) ↔
      ∃ marker ∈ parsed.markers, utf8 marker <:+: response.body) ∧
    ((check find config policy plan (some response)).result = some (.decision .allow) ↔
      ¬ ∃ marker ∈ parsed.markers, utf8 marker <:+: response.body) := by
  obtain ⟨decision, hresult, hdecision⟩ := checkMarkers_result hfind response.body hmarkers
  have hcheck : (check find config policy plan (some response)).result =
      some (.decision decision) := by
    simp only [check, hparsed]
    rw [Task.result_bind, hresult]
    rfl
  rw [hcheck, ← hdecision]
  cases decision <;> simp

/-- The place of the first occurrence. -/
def firstOccurrence (items run : List UInt8) : Option ℕ := items.tails.findIdx? run.isPrefixOf

theorem firstOccurrence_isSome (items run : List UInt8) :
    (firstOccurrence items run).isSome = true ↔ run <:+: items := by
  rw [firstOccurrence, List.findIdx?_isSome, List.any_eq_true, List.infix_iff_prefix_suffix]
  simp only [List.mem_tails, List.isPrefixOf_iff_prefix, and_comm]

/-- The border of two chunks is inside a marker. -/
def markedResponse : Response :=
  ⟨200, "text/plain", List.replicate (chunkSize - 4) 0x20 ++ utf8 "internal"⟩

def twoMarkers : Json := .object [("markers", .array [.string "secret", .string "internal"])]

theorem internal_denied :
    (check firstOccurrence twoMarkers ⟨"google", .googleApi, [], .empty⟩
      ⟨"files.get", none, ⟨"GET", "/", .empty, [], none⟩, []⟩ (some markedResponse)).result =
        some (.decision .deny) :=
  (denies_iff_marker_occurs firstOccurrence firstOccurrence_isSome _ ⟨["secret", "internal"]⟩ rfl
    (@nonempty_of_validate .afterResponse twoMarkers _ rfl rfl) _ _ _).1.mpr
      ⟨"internal", by simp, (List.suffix_append _ _).isInfix⟩

end ResponseMarkers

end NyxId.Permissions
