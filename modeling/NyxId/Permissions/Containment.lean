import NyxId.Outcomes
import NyxId.Permissions.Drive
import NyxId.Permissions.Outcomes

/-!
Containment in the folder of a Drive policy. What the adapter lets through is exactly what has
a chain of parents to that folder, and the ids that were checked are those of the request.
-/

namespace NyxId.Permissions

open Interleave Encoding

section

variable (meta_ : String → Option FileMetadata) (root : String)

/-- An untrashed folder, which is not a shortcut. -/
def FileMetadata.IsFolder (file : FileMetadata) : Prop :=
  file.trashed = false ∧ file.mimeType = folderType

/-- A number of steps, each to the only parent, which is a folder, from a file up to the root. -/
def Reaches : ℕ → String → Prop
  | 0, id => id = root
  | n + 1, id => id ≠ root ∧ ∃ file parent, meta_ id = some file ∧ file.parents = [parent] ∧
      (∃ above, meta_ parent = some above ∧ above.IsFolder) ∧ Reaches n parent

/-- Operations on the contents of a folder. -/
def folderOperation (operation : String) : Bool :=
  operation = "drive.files.list" || operation = "drive.folders.create"

/-- Operations that are never about the root. -/
def excludesRoot (operation : String) : Bool :=
  operation = "drive.files.rename" || operation = "drive.files.export"

/-- What an operation demands of the file itself. -/
structure FileMetadata.Suits (file : FileMetadata) (operation id : String) : Prop where
  untrashed : file.trashed = false
  noShortcut : file.mimeType ≠ shortcutType
  folder : folderOperation operation = true ∨ id = root → file.mimeType = folderType
  content : contentOperation operation = true → file.mimeType ≠ folderType

/-- A file or folder in the boundary of the policy for an operation. -/
structure Contained (includeDescendants : Bool) (operation id : String) : Prop where
  chain : ∃ n, Reaches meta_ root n id ∧ n ≤ 31 ∧ (includeDescendants = false → n ≤ 1) ∧
    (includeDescendants = false → folderOperation operation = true → n = 0)
  file : ∃ file, meta_ id = some file ∧ file.Suits root operation id
  root : excludesRoot operation = true → id ≠ root

end

section

variable {meta_ : String → Option FileMetadata} {root : String}

theorem reaches_unique {n m : ℕ} {id : String} (hn : Reaches meta_ root n id)
    (hm : Reaches meta_ root m id) : n = m := by
  induction n generalizing m id with
  | zero =>
    cases m with
    | zero => rfl
    | succ m => exact absurd hn hm.1
  | succ n ih =>
    cases m with
    | zero => exact absurd hm hn.1
    | succ m =>
      obtain ⟨-, file, parent, hfile, hparents, -, hrest⟩ := hn
      obtain ⟨-, file', parent', hfile', hparents', -, hrest'⟩ := hm
      obtain rfl := Option.some.inj (hfile.symm.trans hfile')
      obtain ⟨rfl, -⟩ := List.cons.inj (hparents.symm.trans hparents')
      exact congrArg (· + 1) (ih hrest hrest')

theorem rejectFile_eq_none {operation current : String} {mustBeFolder : Bool} {depth : ℕ}
    {file : FileMetadata} :
    rejectFile root operation mustBeFolder depth current file = none ↔
      file.trashed = false ∧ file.mimeType ≠ shortcutType ∧
        (0 < depth ∨ mustBeFolder = true ∨ current = root → file.mimeType = folderType) ∧
        (depth = 0 → contentOperation operation = true → file.mimeType ≠ folderType) := by
  unfold rejectFile
  split
  · next h =>
    simp only [reduceCtorEq, false_iff]
    rintro ⟨htrashed, hshortcut, -⟩
    simp [htrashed, hshortcut] at h
  · next hpresent =>
    have hpresent : file.trashed = false ∧ file.mimeType ≠ shortcutType := by simpa using hpresent
    split
    · next h =>
      simp only [reduceCtorEq, false_iff]
      rintro ⟨-, -, hfolder, -⟩
      simp only [Bool.and_eq_true, Bool.or_eq_true, decide_eq_true_eq, or_assoc] at h
      exact h.2 (hfolder h.1)
    · next hfolder =>
      split
      · next h =>
        simp only [reduceCtorEq, false_iff]
        rintro ⟨-, -, -, hcontent⟩
        simp only [Bool.and_eq_true, decide_eq_true_eq] at h
        exact hcontent h.1.1 h.1.2 h.2
      · next hcontent =>
        simp only [Bool.and_eq_true, Bool.or_eq_true, decide_eq_true_eq, or_assoc, not_and,
          not_not] at hfolder
        simp only [Bool.and_eq_true, decide_eq_true_eq, not_and] at hcontent
        exact iff_of_true rfl ⟨hpresent.1, hpresent.2, hfolder, fun hdepth hop =>
          hcontent ⟨hdepth, hop⟩⟩

end

section

variable (read : JsonReader) (transport : Transport)

/-- The metadata that the provider answers with, when the adapter accepts it. -/
def metadata (id : String) : Option FileMetadata :=
  match (transport.send (metadataRequest id)).result with
  | some (.ok response) => (checkMetadata read id response).toOption
  | _ => none

/-- The cache holds what the provider answers. -/
def Consistent (cache : FileCache) : Prop :=
  ∀ id file, cache.lookup id = some file → metadata read transport id = some file

variable {read transport}

theorem Consistent.cons {cache : FileCache} (hcache : Consistent read transport cache) {id : String}
    {file : FileMetadata} (hfile : metadata read transport id = some file) :
    Consistent read transport ((id, file) :: cache) := by
  intro other found hfound
  rw [List.lookup_cons] at hfound
  split at hfound
  · next hsame =>
    obtain rfl := Option.some.inj hfound
    rw [beq_iff_eq.mp hsame]
    exact hfile
  · exact hcache other found hfound

theorem checkMetadata_ok {id : String} {response : Response} {file : FileMetadata}
    (h : checkMetadata read id response = .ok file) : file.parents.length ≤ 1 := by
  unfold checkMetadata at h
  split at h
  · cases h
  split at h
  · cases h
  split at h
  · cases h
  split at h
  · cases h
  · next hvalid =>
    obtain rfl := Except.ok.inj h
    simp only [Bool.or_eq_true, decide_eq_true_eq, not_or] at hvalid
    omega

theorem length_parents_of_metadata {id : String} {file : FileMetadata}
    (h : metadata read transport id = some file) : file.parents.length ≤ 1 := by
  unfold metadata at h
  split at h
  · next response hresponse =>
    cases hcheck : checkMetadata read id response with
    | error e =>
      rw [hcheck] at h
      cases h
    | ok found =>
      rw [hcheck] at h
      obtain rfl := Option.some.inj h
      exact checkMetadata_ok hcheck
  · cases h

/-- Fetching answers with the metadata of the provider, from the cache or not. -/
theorem fetchFile_ok {cache cache' : FileCache} {id : String} {file : FileMetadata}
    (hcache : Consistent read transport cache)
    (h : (fetchFile read transport cache id).result = some (.ok (file, cache'))) :
    metadata read transport id = some file ∧ Consistent read transport cache' := by
  unfold fetchFile at h
  split at h
  · next cached hcached =>
    obtain ⟨rfl, rfl⟩ := Prod.mk.inj (Except.ok.inj (Option.some.inj h))
    exact ⟨hcache id _ hcached, hcache⟩
  · rw [Task.result_bind] at h
    obtain ⟨answer, hanswer, h⟩ := Option.bind_eq_some_iff.mp h
    split at h
    · cases h
    · split at h
      · cases h
      · next found hcheck =>
        obtain ⟨rfl, rfl⟩ := Prod.mk.inj (Except.ok.inj (Option.some.inj h))
        have hfile : metadata read transport id = some found := by
          unfold metadata
          rw [hanswer]
          simp only [hcheck, Except.toOption]
        exact ⟨hfile, hcache.cons hfile⟩

theorem fetchFile_of_metadata {cache : FileCache} {id : String} {file : FileMetadata}
    (hcache : Consistent read transport cache) (hfile : metadata read transport id = some file) :
    ∃ cache', (fetchFile read transport cache id).result = some (.ok (file, cache')) ∧
      Consistent read transport cache' := by
  unfold fetchFile
  cases hcached : cache.lookup id with
  | some cached =>
    obtain rfl := Option.some.inj ((hcache id cached hcached).symm.trans hfile)
    exact ⟨cache, rfl, hcache⟩
  | none =>
    refine ⟨(id, file) :: cache, ?_, hcache.cons hfile⟩
    dsimp only
    rw [Task.result_bind]
    unfold metadata at hfile
    split at hfile
    · next response hresponse =>
      rw [hresponse]
      cases hcheck : checkMetadata read id response with
      | error e =>
        rw [hcheck] at hfile
        cases hfile
      | ok found =>
        rw [hcheck] at hfile
        obtain rfl := Option.some.inj hfile
        simp only [Option.bind_some, hcheck, Task.result]
    · cases hfile

variable {root operation : String} {includeDescendants mustBeFolder : Bool}

/-- A walk that ends at the root took the steps of a chain. -/
theorem walk_ok {fuel depth : ℕ} {current : String} {visited : List String}
    {cache cache' : FileCache} (hcache : Consistent read transport cache)
    (h : (walk read transport root operation includeDescendants mustBeFolder fuel depth current
      visited cache).result = some (.ok cache')) :
    Consistent read transport cache' ∧ ∃ n file, n < fuel ∧
      Reaches (metadata read transport) root n current ∧
      metadata read transport current = some file ∧
      rejectFile root operation mustBeFolder depth current file = none ∧
      (includeDescendants = false → n ≤ 1 - depth) := by
  induction fuel generalizing depth current visited cache with
  | zero => cases h
  | succ fuel ih =>
    unfold walk at h
    split at h
    · cases h
    rw [Task.result_bind] at h
    obtain ⟨answer, hanswer, h⟩ := Option.bind_eq_some_iff.mp h
    split at h
    · cases h
    next file fetched =>
    obtain ⟨hfile, hfetched⟩ := fetchFile_ok hcache hanswer
    split at h
    · cases h
    next hreject =>
    split at h
    · next hroot =>
      obtain rfl := Except.ok.inj (Option.some.inj h)
      exact ⟨hfetched, 0, file, Nat.succ_pos _, hroot, hfile, hreject, fun _ => Nat.zero_le _⟩
    next hroot =>
    split at h
    · cases h
    next hdeeper =>
    split at h
    · cases h
    next parent others hparents =>
    obtain ⟨hcache', n, above, hn, hreaches, habove, haccepted, hbound⟩ := ih hfetched h
    have hfolder := rejectFile_eq_none.mp haccepted
    have hsingle : file.parents = [parent] := by
      have hlength := length_parents_of_metadata hfile
      rw [hparents] at hlength ⊢
      rw [List.eq_nil_of_length_eq_zero (l := others)
        (by rw [List.length_cons] at hlength; omega)]
    refine ⟨hcache', n + 1, file, by omega, ⟨hroot, file, parent, hfile, hsingle,
      ⟨above, habove, hfolder.1, hfolder.2.2.1 (Or.inl (Nat.succ_pos _))⟩, hreaches⟩, hfile,
      hreject, fun hinclude => ?_⟩
    have hzero := hbound hinclude
    simp only [hinclude, Bool.not_false, Bool.true_and, decide_eq_true_eq] at hdeeper
    omega

/-- A walk along a chain that is not too long ends at the root. -/
theorem walk_of_reaches {fuel depth n : ℕ} {current : String} {visited : List String}
    {cache : FileCache} {file : FileMetadata} (hcache : Consistent read transport cache)
    (hreaches : Reaches (metadata read transport) root n current) (hn : n < fuel)
    (hfile : metadata read transport current = some file)
    (haccepted : rejectFile root operation mustBeFolder depth current file = none)
    (hbound : includeDescendants = false → n ≤ 1 - depth)
    (hvisited : ∀ id ∈ visited, ∃ m, n < m ∧ Reaches (metadata read transport) root m id) :
    ∃ cache', (walk read transport root operation includeDescendants mustBeFolder fuel depth
      current visited cache).result = some (.ok cache') ∧ Consistent read transport cache' := by
  induction fuel generalizing depth n current visited cache file with
  | zero => omega
  | succ fuel ih =>
    have hnew : visited.contains current = false := by
      apply Bool.eq_false_iff.mpr
      intro hmem
      obtain ⟨m, hm, hlevel⟩ := hvisited current (List.contains_iff_mem.mp hmem)
      have hsame := reaches_unique hlevel hreaches
      omega
    obtain ⟨fetched, hfetch, hfetched⟩ := fetchFile_of_metadata hcache hfile
    unfold walk
    simp only [hnew, Bool.false_eq_true, if_false, Task.result_bind, hfetch, Option.bind_some,
      haccepted]
    cases n with
    | zero =>
      rw [if_pos (show current = root from hreaches)]
      exact ⟨fetched, rfl, hfetched⟩
    | succ n =>
      obtain ⟨hroot, other, parent, hother, hparents, ⟨above, habove, hfolder⟩, hrest⟩ := hreaches
      obtain rfl := Option.some.inj (hfile.symm.trans hother)
      have hdeeper : (!includeDescendants && decide (1 ≤ depth)) = false := by
        cases hinclude : includeDescendants with
        | true => rfl
        | false =>
          have hsteps := hbound hinclude
          simp only [Bool.not_false, Bool.true_and, decide_eq_false_iff_not]
          omega
      rw [if_neg hroot]
      simp only [hdeeper, Bool.false_eq_true, if_false, hparents]
      apply ih hfetched hrest (by omega) habove
      · apply rejectFile_eq_none.mpr
        refine ⟨hfolder.1, ?_, fun _ => hfolder.2, fun hdepth => absurd hdepth (Nat.succ_ne_zero _)⟩
        rw [hfolder.2]
        decide
      · intro hinclude
        have hsteps := hbound hinclude
        omega
      · intro id hid
        rcases List.mem_cons.mp hid with rfl | hid
        · exact ⟨n + 1, Nat.lt_succ_self n, hroot, file, parent, hfile, hparents,
            ⟨above, habove, hfolder⟩, hrest⟩
        · obtain ⟨m, hm, hlevel⟩ := hvisited id hid
          exact ⟨m, by omega, hlevel⟩

/-- A resource as the adapter checks it for an operation. -/
def resourceOf (operation id : String) : ResourceCheck :=
  ⟨id, folderOperation operation, !excludesRoot operation⟩

theorem rejectFile_iff_suits {id : String} {file : FileMetadata} :
    rejectFile root operation (folderOperation operation) 0 id file = none ↔
      file.Suits root operation id := by
  rw [rejectFile_eq_none]
  constructor
  · rintro ⟨htrashed, hshortcut, hfolder, hcontent⟩
    exact ⟨htrashed, hshortcut, fun h => hfolder (Or.inr h), hcontent rfl⟩
  · rintro ⟨htrashed, hshortcut, hfolder, hcontent⟩
    refine ⟨htrashed, hshortcut, ?_, fun _ => hcontent⟩
    rintro (hpos | h)
    · exact absurd hpos (Nat.lt_irrefl 0)
    · exact hfolder h

/-- The adapter verifies a resource exactly when it is contained. -/
theorem verifyResource_iff {id : String} :
    (∃ cache, (verifyResource read transport root operation includeDescendants
        (resourceOf operation id) []).result = some (.ok cache)) ↔
      Contained (metadata read transport) root includeDescendants operation id := by
  have hempty : Consistent read transport [] := fun id file hfound => nomatch hfound
  constructor
  · rintro ⟨cache, h⟩
    unfold verifyResource resourceOf at h
    split at h
    · cases h
    next hsubfolder =>
    split at h
    · cases h
    next hexcluded =>
    obtain ⟨-, n, file, hn, hreaches, hfile, haccepted, hbound⟩ := walk_ok hempty h
    unfold maxDepth at hn
    refine ⟨⟨n, hreaches, by omega, fun hinclude => hbound hinclude, fun hinclude hfolder => ?_⟩,
      ⟨file, hfile, rejectFile_iff_suits.mp haccepted⟩, fun hexcludes hroot => ?_⟩
    · have hroot : id = root := by simpa [hinclude, hfolder] using hsubfolder
      exact reaches_unique hreaches (show Reaches _ root 0 id from hroot)
    · simp [hexcludes, hroot] at hexcluded
  · rintro ⟨⟨n, hreaches, hn, hbound, hzero⟩, ⟨file, hfile, hsuits⟩, hexcludes⟩
    unfold verifyResource resourceOf
    have hsubfolder : (folderOperation operation && !includeDescendants && decide (id ≠ root)) =
        false := by
      cases hfolder : folderOperation operation with
      | false => rfl
      | true =>
        cases hinclude : includeDescendants with
        | true => rfl
        | false =>
          have hsame := hzero hinclude hfolder
          subst hsame
          simp [show id = root from hreaches]
    have hexcluded : (decide (id = root) && !!excludesRoot operation) = false := by
      rw [Bool.not_not, Bool.and_eq_false_iff, decide_eq_false_iff_not]
      by_cases hroot : id = root
      · exact Or.inr (Bool.eq_false_iff.mpr fun h => hexcludes h hroot)
      · exact Or.inl hroot
    simp only [hsubfolder, hexcluded, Bool.false_eq_true, if_false]
    have hwalk : ∃ cache, (walk read transport root operation includeDescendants
        (folderOperation operation) maxDepth 0 id [] []).result = some (.ok cache) ∧
        Consistent read transport cache :=
      walk_of_reaches hempty hreaches (by unfold maxDepth; omega) hfile
        (rejectFile_iff_suits.mpr hsuits) hbound fun id hid => nomatch hid
    obtain ⟨cache, hwalk, -⟩ := hwalk
    exact ⟨cache, hwalk⟩

end

/-- The texts between quotes. -/
def quotedTexts : List (List Char) → List String
  | _ :: text :: rest => String.ofList text :: quotedTexts rest
  | _ => []

def bodyMembers (read : JsonReader) (body : List UInt8) : List (String × Json) :=
  match parseJson read body with
  | .ok (.object members) => members
  | _ => []

/-- The ids that a request to the provider names: in its path, in its list query, and as the
parents of what it creates. -/
def namedIds (read : JsonReader) (request : Request) : List String :=
  ((pathSegments request.path).drop 4).take 1 ++
    (match request.query.get "q" with
      | some q => quotedTexts (q.toList.splitOn '\'')
      | none => []) ++
    match (bodyMembers read request.body).lookup "parents" with
      | some (.array items) => items.filterMap Json.asStr
      | _ => []

/-- Entries of a query that name no file, and the list query. -/
def plainEntry (entry : String × String) : Prop :=
  (entry.1 = "q" ∧ ∃ parent, entry.2 = listQuery parent) ∨
    (entry.1 = "pageSize" ∧ ∃ n, 1 ≤ n ∧ n ≤ 100 ∧ entry.2 = Nat.repr n) ∨
    entry.1 = "pageToken" ∨ (entry.1 = "mimeType" ∧ entry.2 ∈ exportTypes) ∨
    entry ∈ [("fields", verifyFields), ("fields", listFields), ("supportsAllDrives", "true"),
      ("includeItemsFromAllDrives", "true"), ("alt", "media")]

/-- Where else a request could name a file there is nothing but fixed texts. -/
structure Plain (read : JsonReader) (request : Request) : Prop where
  path : ∃ rest, pathSegments request.path = ["", "drive", "v3", "files"] ++ rest ∧
    (rest = [] ∨ ∃ id, rest = [id] ∨ rest = [id, "export"])
  query : ∀ entry ∈ request.query.entries, plainEntry entry
  body : ∀ entry ∈ bodyMembers read request.body, entry.1 ∈ ["name", "mimeType", "parents"]

theorem onlyQuery_ok {request : Request} {allowed : List String}
    (h : onlyQuery request allowed = .ok ()) :
    (∀ entry ∈ request.query.entries, entry.1 ∈ allowed) ∧
      ∀ entry ∈ request.query.entries, entry.1 = "supportsAllDrives" → entry.2 = "true" := by
  unfold onlyQuery at h
  split at h
  · cases h
  next hallowed =>
  split at h
  · cases h
  next hdrives =>
  constructor
  · intro entry hentry
    by_contra hne
    exact hallowed (List.any_eq_true.mpr ⟨entry, hentry, by simpa using hne⟩)
  · rintro ⟨key, value⟩ hentry rfl
    by_contra hne
    apply hdrives
    rw [SortedMap.get_eq_some_iff.mpr hentry]
    simpa using hne

theorem checkedId_ok {id : String} {folder allowRoot : Bool} {resource : ResourceCheck}
    (h : checkedId id folder allowRoot = .ok resource) :
    validId id = true ∧ resource = ⟨id, folder, allowRoot⟩ := by
  unfold checkedId at h
  split at h
  · next hvalid => exact ⟨hvalid, (Except.ok.inj h).symm⟩
  · cases h

theorem notMem_of_validId {id : String} (h : validId id = true) : '\'' ∉ id.toList := by
  intro hmem
  unfold validId at h
  have hchar := List.all_eq_true.mp (Bool.and_eq_true_iff.mp h).2 _ hmem
  revert hchar
  decide

theorem quotedTexts_listQuery {parent : String} (h : validId parent = true) :
    quotedTexts ((listQuery parent).toList.splitOn '\'') = [parent] := by
  have htail : '\'' ∉ " in parents and trashed = false".toList := by decide
  have hsplit : (listQuery parent).toList.splitOn '\'' =
      [[], parent.toList, " in parents and trashed = false".toList] := by
    have htext : (listQuery parent).toList = List.intercalate ['\'']
        [[], parent.toList, " in parents and trashed = false".toList] := by
      unfold listQuery
      rw [String.toList_append, String.toList_append]
      simp [List.intercalate]
    rw [htext]
    apply List.splitOn_intercalate
    · intro part hpart
      simp only [List.mem_cons, List.not_mem_nil, or_false] at hpart
      rcases hpart with rfl | rfl | rfl
      · exact List.not_mem_nil
      · exact notMem_of_validId h
      · exact htail
    · exact List.cons_ne_nil _ _
  rw [hsplit]
  simp only [quotedTexts, String.ofList_toList]

theorem jsonBody_ok {read : JsonReader} {request : Request} {allowed : List String}
    {members : List (String × Json)} (h : jsonBody read request allowed = .ok members) :
    parseJson read request.body = .ok (.object members) ∧ ∀ entry ∈ members, entry.1 ∈ allowed := by
  unfold jsonBody at h
  split at h
  · cases h
  split at h
  · cases h
  · next parsed hparsed =>
    split at h
    · cases h
    next hallowed =>
    split at h
    · cases h
    split at h
    · obtain rfl := Except.ok.inj h
      refine ⟨hparsed, fun entry hentry => ?_⟩
      by_contra hne
      exact hallowed (List.any_eq_true.mpr ⟨entry, hentry, by simpa using hne⟩)
    · cases h
  · cases h

theorem bodyMembers_nil (read : JsonReader) : bodyMembers read [] = [] := by
  unfold bodyMembers parseJson
  rw [read.parse_nil]

def driveOperations : List String :=
  ["drive.files.list", "drive.files.get", "drive.files.download", "drive.files.export",
    "drive.folders.create", "drive.files.rename"]

/-- A plan about one id, which is the only one that its request names. -/
def Plan.About (read : JsonReader) (plan : Plan) (id : String) : Prop :=
  plan.resources = [resourceOf plan.operation id] ∧ namedIds read plan.request = [id] ∧
    plan.operation ∈ driveOperations ∧ Plain read plan.request

section

variable {read : JsonReader} {request : Request} {plan : Plan}

theorem planList_about {rootFolderId : String} (h : planList rootFolderId request = .ok plan)
    (hpath : pathSegments request.path = ["", "drive", "v3", "files"]) (hbody : request.body = []) :
    ∃ id, plan.About read id := by
  simp only [planList, bind, Except.bind] at h
  split at h
  · cases h
  next hquery =>
  split at h
  · cases h
  next parent hparent =>
  split at h
  · cases h
  next resource hresource =>
  split at h
  · cases h
  next size hsize =>
  split at h
  · cases h
  obtain rfl := Except.ok.inj h
  obtain ⟨hvalid, rfl⟩ := checkedId_ok hresource
  have hsizes : 1 ≤ size ∧ size ≤ 100 := by
    unfold pageSize at hsize
    split at hsize
    · obtain rfl := Except.ok.inj hsize
      exact ⟨by decide, by decide⟩
    split at hsize
    · cases hsize
    split at hsize
    · next hrange =>
      obtain rfl := Except.ok.inj hsize
      simpa using hrange
    · cases hsize
  refine ⟨parent, rfl, ?_, List.mem_cons_self, ⟨[], hpath, Or.inl rfl⟩, ?_, ?_⟩
  · have hq : (((((request.query.insert "q" (listQuery parent)).insert "pageSize"
        (Nat.repr size)).insert "fields" listFields).insert "includeItemsFromAllDrives"
          "true").insert "supportsAllDrives" "true").get "q" = some (listQuery parent) := by
      rw [SortedMap.get_insert_ne (by decide), SortedMap.get_insert_ne (by decide),
        SortedMap.get_insert_ne (by decide), SortedMap.get_insert_ne (by decide),
        SortedMap.get_insert_self]
    simp only [namedIds, hpath, hbody, bodyMembers_nil, hq, quotedTexts_listQuery hvalid]
    rfl
  · intro entry hentry
    simp only [SortedMap.mem_insert_iff] at hentry
    rcases hentry with rfl | ⟨hdrives, rfl | ⟨hitems, rfl | ⟨hfields, rfl | ⟨hpage, rfl | ⟨hq, hold⟩⟩⟩⟩⟩
    · simp [plainEntry]
    · simp [plainEntry]
    · simp [plainEntry]
    · exact Or.inr (Or.inl ⟨rfl, size, hsizes.1, hsizes.2, rfl⟩)
    · exact Or.inl ⟨rfl, parent, rfl⟩
    · have hallowed := (onlyQuery_ok hquery).1 entry hold
      simp only [List.mem_cons, List.not_mem_nil, or_false] at hallowed
      rcases hallowed with hkey | hkey | hkey | hkey | hkey
      · exact absurd hkey hq
      · exact absurd hkey hpage
      · exact Or.inr (Or.inr (Or.inl hkey))
      · exact absurd hkey hfields
      · exact absurd hkey hdrives
  · rw [show bodyMembers read _ = [] from hbody ▸ bodyMembers_nil read]
    exact fun entry hentry => nomatch hentry

/-- A request without a list query names the id of its path and the parents of its body. -/
theorem namedIds_of_noQuery (hq : ∀ entry ∈ request.query.entries, entry.1 ≠ "q") :
    namedIds read request = ((pathSegments request.path).drop 4).take 1 ++
      match (bodyMembers read request.body).lookup "parents" with
        | some (.array items) => items.filterMap Json.asStr
        | _ => [] := by
  have hnone : request.query.get "q" = none := by
    cases hget : request.query.get "q" with
    | none => rfl
    | some q => exact absurd rfl (hq _ (SortedMap.get_eq_some_iff.mp hget))
  simp only [namedIds, hnone, List.append_nil]

/-- A plan whose query is plain and lists nothing is about the id that its path and its body name. -/
theorem about_of_noQuery {id : String} (hresources : plan.resources = [resourceOf plan.operation id])
    (hoperation : plan.operation ∈ driveOperations)
    (hquery : ∀ entry ∈ plan.request.query.entries, entry.1 ≠ "q" ∧ plainEntry entry)
    (hpath : ∃ rest, pathSegments plan.request.path = ["", "drive", "v3", "files"] ++ rest ∧
      (rest = [] ∨ ∃ id, rest = [id] ∨ rest = [id, "export"]))
    (hbody : ∀ entry ∈ bodyMembers read plan.request.body,
      entry.1 ∈ ["name", "mimeType", "parents"])
    (hid : (((pathSegments plan.request.path).drop 4).take 1 ++
      match (bodyMembers read plan.request.body).lookup "parents" with
        | some (.array items) => items.filterMap Json.asStr
        | _ => []) = [id]) : ∃ id, plan.About read id :=
  ⟨id, hresources, (namedIds_of_noQuery fun entry hentry => (hquery entry hentry).1).trans hid,
    hoperation, hpath, fun entry hentry => (hquery entry hentry).2, hbody⟩

/-- The entries of a query that was closed over fields and the drives it may include. -/
theorem plain_of_fields {query : SortedMap String String}
    (hallowed : ∀ entry ∈ query.entries, entry.1 ∈ ["fields", "supportsAllDrives"]) :
    ∀ entry ∈ ((query.insert "fields" verifyFields).insert "supportsAllDrives" "true").entries,
      entry.1 ≠ "q" ∧ plainEntry entry := by
  rintro ⟨key, value⟩ hentry
  simp only [SortedMap.mem_insert_iff] at hentry
  rcases hentry with hentry | ⟨hdrives, hentry | ⟨hfields, hold⟩⟩
  · cases hentry
    simp [plainEntry]
  · cases hentry
    simp [plainEntry]
  · have hkey := hallowed _ hold
    simp only [List.mem_cons, List.not_mem_nil, or_false] at hkey
    rcases hkey with hkey | hkey
    · exact absurd hkey hfields
    · exact absurd hkey hdrives

theorem planGet_about {id : String} (h : planGet id request = .ok plan)
    (hpath : pathSegments request.path = ["", "drive", "v3", "files", id])
    (hbody : request.body = []) : ∃ id, plan.About read id := by
  simp only [planGet, bind, Except.bind] at h
  split at h
  · cases h
  next hquery =>
  split at h
  · cases h
  next resource hresource =>
  obtain ⟨hvalid, rfl⟩ := checkedId_ok hresource
  obtain ⟨hallowed, hdrives⟩ := onlyQuery_ok hquery
  have hnone : bodyMembers read request.body = [] := hbody ▸ bodyMembers_nil read
  split at h
  · next halt =>
    obtain rfl := Except.ok.inj h
    refine about_of_noQuery rfl (by simp [driveOperations]) ?_ ⟨[id], hpath, Or.inr ⟨id, Or.inl rfl⟩⟩
      (by simp [hnone]) (by simp [hpath, hnone])
    rintro ⟨key, value⟩ hentry
    rcases SortedMap.mem_insert_iff.mp hentry with hentry | ⟨hne, hentry⟩
    · cases hentry
      simp [plainEntry]
    · obtain ⟨hold, hfields⟩ := SortedMap.mem_remove_iff.mp hentry
      have hkey := hallowed _ hold
      simp only [List.mem_cons, List.not_mem_nil, or_false] at hkey
      rcases hkey with hkey | rfl | hkey
      · exact absurd hkey hfields
      · rw [SortedMap.get_eq_some_iff.mpr hold] at halt
        cases halt
        simp [plainEntry]
      · exact absurd hkey hne
  split at h
  · next halt =>
    obtain rfl := Except.ok.inj h
    refine about_of_noQuery rfl (by simp [driveOperations]) (plain_of_fields ?_)
      ⟨[id], hpath, Or.inr ⟨id, Or.inl rfl⟩⟩ (by simp [hnone]) (by simp [hpath, hnone])
    intro entry hentry
    obtain ⟨hold, hne⟩ := SortedMap.mem_remove_iff.mp hentry
    have hkey := hallowed _ hold
    simp only [List.mem_cons, List.not_mem_nil, or_false] at hkey ⊢
    rcases hkey with hkey | hkey | hkey
    · exact Or.inl hkey
    · exact absurd hkey hne
    · exact Or.inr hkey
  · cases h

theorem planExport_about {id : String} (h : planExport id request = .ok plan)
    (hpath : pathSegments request.path = ["", "drive", "v3", "files", id, "export"])
    (hbody : request.body = []) : ∃ id, plan.About read id := by
  simp only [planExport, bind, Except.bind] at h
  split at h
  · cases h
  next hquery =>
  split at h
  · cases h
  next htype =>
  split at h
  · cases h
  next resource hresource =>
  obtain ⟨hvalid, rfl⟩ := checkedId_ok hresource
  obtain rfl := Except.ok.inj h
  have hnone : bodyMembers read request.body = [] := hbody ▸ bodyMembers_nil read
  refine about_of_noQuery rfl (by simp [driveOperations]) ?_
    ⟨[id, "export"], hpath, Or.inr ⟨id, Or.inr rfl⟩⟩ (by simp [hnone]) (by simp [hpath, hnone])
  rintro ⟨key, value⟩ hentry
  obtain rfl : key = "mimeType" := List.mem_singleton.mp ((onlyQuery_ok hquery).1 _ hentry)
  rw [SortedMap.get_eq_some_iff.mpr hentry] at htype
  exact ⟨by simp, Or.inr (Or.inr (Or.inr (Or.inl ⟨rfl, by simpa using htype⟩)))⟩

theorem bodyMembers_of_jsonBody {allowed : List String} {members : List (String × Json)}
    (h : jsonBody read request allowed = .ok members) : bodyMembers read request.body = members := by
  unfold bodyMembers
  rw [(jsonBody_ok h).1]

theorem planCreate_about (h : planCreate read request = .ok plan)
    (hpath : pathSegments request.path = ["", "drive", "v3", "files"]) :
    ∃ id, plan.About read id := by
  simp only [planCreate, bind, Except.bind] at h
  split at h
  · cases h
  next hquery =>
  split at h
  · cases h
  next members hmembers =>
  split at h
  · cases h
  split at h
  · next parent hparents =>
    split at h
    · cases h
    next resource hresource =>
    obtain ⟨hvalid, rfl⟩ := checkedId_ok hresource
    obtain rfl := Except.ok.inj h
    have hbody := bodyMembers_of_jsonBody hmembers
    refine about_of_noQuery rfl (by simp [driveOperations]) (plain_of_fields (onlyQuery_ok hquery).1)
      ⟨[], hpath, Or.inl rfl⟩ ?_ ?_
    · rw [hbody]
      exact (jsonBody_ok hmembers).2
    · simp only [hpath, hbody, hparents]
      rfl
  · cases h
  · cases h

theorem planRename_about {id : String} (h : planRename read id request = .ok plan)
    (hpath : pathSegments request.path = ["", "drive", "v3", "files", id]) :
    ∃ id, plan.About read id := by
  simp only [planRename, bind, Except.bind] at h
  split at h
  · cases h
  next hquery =>
  split at h
  · cases h
  next members hmembers =>
  split at h
  · cases h
  next resource hresource =>
  obtain ⟨hvalid, rfl⟩ := checkedId_ok hresource
  obtain rfl := Except.ok.inj h
  have hbody := bodyMembers_of_jsonBody hmembers
  have hnames : ∀ entry ∈ members, entry.1 = "name" := fun entry hentry =>
    List.mem_singleton.mp ((jsonBody_ok hmembers).2 entry hentry)
  have hparents : members.lookup "parents" = none := by
    apply List.lookup_eq_none_iff.mpr
    intro entry hentry
    rw [hnames entry hentry]
    decide
  refine about_of_noQuery rfl (by simp [driveOperations]) (plain_of_fields (onlyQuery_ok hquery).1)
    ⟨[id], hpath, Or.inr ⟨id, Or.inl rfl⟩⟩ ?_ ?_
  · rw [hbody]
    intro entry hentry
    rw [hnames entry hentry]
    exact List.mem_cons_self
  · simp only [hpath, hbody, hparents]
    rfl

/-- Every plan of the adapter is about one id. -/
theorem drivePlan_about {policy : Policy} (h : drivePlan read policy request = .ok plan) :
    ∃ id, plan.About read id := by
  unfold drivePlan at h
  split at h
  · split at h
    · cases h
    split at h
    · cases h
    next hget =>
    have hbody : request.method = "GET" → request.body = [] := by
      intro hmethod
      simpa [hmethod] using hget
    unfold planOperation at h
    split at h
    · next hmethod hpath => exact planList_about h hpath (hbody hmethod)
    · next hmethod hpath => exact planGet_about h hpath (hbody hmethod)
    · next hmethod hpath => exact planExport_about h hpath (hbody hmethod)
    · next hpath => exact planCreate_about h hpath
    · next hpath => exact planRename_about h hpath
    · cases h
  · cases h

end

def driveAdapter (read : JsonReader) (sanitize : Plan → Response → Except Error Response) :
    ProviderAdapter where
  plan := drivePlan read
  verify := driveVerify read
  sanitizeResponse := sanitize

def driveEngine (read : JsonReader) (sanitize : Plan → Response → Except Error Response)
    (policy : Policy) (transport : Transport) (hooks : List BoundHook) : Engine :=
  ⟨policy, driveAdapter read sanitize, transport, hooks, read⟩

/-- The engine hands a plan to the transport before the timer fires. -/
def Engine.Dispatches (engine : Engine) (permit : Bool) (patience : ℕ) (request : Request)
    (plan : Plan) : Prop :=
  permit = true ∧ ∃ marks left, (engine.authorize request).cut patience = (marks, some (.ok plan, left))

theorem authorize_ok_iff {engine : Engine} {request : Request} {plan : Plan} :
    (engine.authorize request).result = some (.ok plan) ↔
      engine.check request = .ok plan ∧
        (runHooks .beforeExecute engine.policy plan none engine.hooks).result = some (.ok ()) ∧
        (engine.adapter.verify engine.policy plan engine.transport).result = some (.ok ()) := by
  unfold Engine.authorize
  constructor
  · intro h
    split at h
    · cases h
    next other hcheck =>
    rw [Task.result_bind] at h
    obtain ⟨before, hbefore, h⟩ := Option.bind_eq_some_iff.mp h
    split at h
    · cases h
    rw [Task.result_bind] at h
    obtain ⟨verified, hverified, h⟩ := Option.bind_eq_some_iff.mp h
    split at h
    · cases h
    obtain rfl := Except.ok.inj (Option.some.inj h)
    exact ⟨hcheck, hbefore, hverified⟩
  · rintro ⟨hcheck, hbefore, hverified⟩
    rw [hcheck]
    dsimp only
    rw [Task.result_bind, hbefore, Option.bind_some]
    dsimp only
    rw [Task.result_bind, hverified]
    rfl

theorem driveVerify_iff {read : JsonReader} {policy : Policy} {transport : Transport} {plan : Plan}
    {root id : String} {includeDescendants : Bool}
    (hresource : policy.resource = .googleDriveFolder root includeDescendants)
    (hplan : plan.resources = [resourceOf plan.operation id]) :
    (driveVerify read policy plan transport).result = some (.ok ()) ↔
      Contained (metadata read transport) root includeDescendants plan.operation id := by
  rw [← verifyResource_iff]
  unfold driveVerify
  rw [hresource, hplan]
  simp only [verifyResources]
  rw [Task.result_bind]
  constructor
  · intro h
    obtain ⟨answer, hanswer, h⟩ := Option.bind_eq_some_iff.mp h
    split at h
    · cases h
    · next cache => exact ⟨cache, hanswer⟩
  · rintro ⟨cache, hcache⟩
    rw [hcache]
    rfl

theorem check_ok {engine : Engine} {request : Request} {plan : Plan}
    (h : engine.check request = .ok plan) :
    plan.operation ∈ engine.policy.allowedOperations := by
  unfold Engine.check at h
  split at h
  · cases h
  split at h
  · cases h
  split at h
  · cases h
  split at h
  · cases h
  next hallowed =>
  split at h
  · cases h
  obtain rfl := Except.ok.inj h
  simpa using hallowed

/-- What the engine dispatches to Drive, and what it surely dispatches. -/
structure DriveContainment (read : JsonReader) (engine : Engine) (request : Request) : Prop where
  contained : ∀ permit patience plan, engine.Dispatches permit patience request plan →
    plan.operation ∈ engine.policy.allowedOperations ∧ plan.operation ∈ driveOperations ∧
      Plain read plan.request ∧ ∃ root includeDescendants,
        engine.policy.resource = .googleDriveFolder root includeDescendants ∧
        ∃ id, namedIds read plan.request = [id] ∧
          Contained (metadata read engine.transport) root includeDescendants plan.operation id
  dispatched : ∀ plan root includeDescendants, engine.check request = .ok plan →
    engine.policy.resource = .googleDriveFolder root includeDescendants →
    (∀ id ∈ namedIds read plan.request,
      Contained (metadata read engine.transport) root includeDescendants plan.operation id) →
    (runHooks .beforeExecute engine.policy plan none engine.hooks).result = some (.ok ()) →
      ∃ enough, ∀ patience, enough ≤ patience → engine.Dispatches true patience request plan

/-- A request goes to Drive exactly when its one id is contained in the folder of the policy. -/
theorem drive_containment (read : JsonReader) (sanitize : Plan → Response → Except Error Response)
    (policy : Policy) (transport : Transport) (hooks : List BoundHook) (request : Request) :
    DriveContainment read (driveEngine read sanitize policy transport hooks) request where
  contained permit patience plan h := by
    obtain ⟨-, marks, left, hcut⟩ := h
    obtain ⟨hcheck, -, hverified⟩ := authorize_ok_iff.mp (Task.result_of_cut hcut)
    have hplan := plan_of_check hcheck
    obtain ⟨id, hresources, hnamed, hoperation, hplain⟩ := drivePlan_about hplan
    refine ⟨check_ok hcheck, hoperation, hplain, ?_⟩
    cases hresource : policy.resource with
    | googleApi =>
      change drivePlan read policy request = .ok plan at hplan
      unfold drivePlan at hplan
      rw [hresource] at hplan
      cases hplan
    | googleDriveFolder root includeDescendants =>
      exact ⟨root, includeDescendants, hresource, id, hnamed,
        (driveVerify_iff hresource hresources).mp hverified⟩
  dispatched plan root includeDescendants hcheck hresource hcontained hhooks := by
    obtain ⟨id, hresources, hnamed, -⟩ := drivePlan_about (plan_of_check hcheck)
    have hid := hcontained id (hnamed ▸ List.mem_singleton_self id)
    have hverified := (driveVerify_iff hresource hresources).mpr hid
    obtain ⟨enough, hcut⟩ := Task.cut_of_result (authorize_ok_iff.mpr ⟨hcheck, hhooks, hverified⟩)
    exact ⟨enough, fun patience hpatience => ⟨rfl, hcut patience hpatience⟩⟩

/-- Containment without what an operation demands of contents. -/
structure InBoundary (meta_ : String → Option FileMetadata) (root : String)
    (includeDescendants : Bool) (operation id : String) : Prop where
  chain : ∃ n, Reaches meta_ root n id ∧ n ≤ 31 ∧ (includeDescendants = false → n ≤ 1) ∧
    (includeDescendants = false → folderOperation operation = true → n = 0)
  file : ∃ file, meta_ id = some file ∧ file.trashed = false ∧ file.mimeType ≠ shortcutType ∧
    (folderOperation operation = true ∨ id = root → file.mimeType = folderType)
  root : excludesRoot operation = true → id ≠ root

def sampleFile (id : String) (parents : List Json) : Json :=
  .object [("id", .string id), ("name", .string id), ("mimeType", .string folderType),
    ("parents", .array parents), ("trashed", .bool false)]

/-- Answers about a folder and the folder in it. -/
def sampleReader : JsonReader where
  parse bytes :=
    if bytes = [1] then some (sampleFile "sub" [.string "top"])
    else if bytes = [2] then some (sampleFile "top" [])
    else none
  parse_nil := rfl

def sampleTransport : Transport where
  send request := .done (.ok ⟨200, "application/json",
    if request.path = "/drive/v3/files/sub" then [1] else [2]⟩)
  sendVerified _ := .hang

def samplePolicy : Policy :=
  ⟨"google_drive", .googleDriveFolder "top" true, ["drive.files.download"], .empty⟩

def sampleDownload : Request :=
  ⟨"GET", "/drive/v3/files/sub", SortedMap.empty.insert "alt" "media", [], none⟩

def sampleEngine : Engine :=
  driveEngine sampleReader (fun _ response => .ok response) samplePolicy sampleTransport []

theorem reaches_sub : Reaches (metadata sampleReader sampleTransport) "top" 1 "sub" :=
  ⟨by decide, ⟨"sub", "sub", folderType, ["top"], false⟩, "top", by rfl, rfl,
    ⟨⟨"top", "top", folderType, [], false⟩, by rfl, rfl, rfl⟩, rfl⟩

theorem inBoundary_sub :
    InBoundary (metadata sampleReader sampleTransport) "top" true "drive.files.download" "sub" where
  chain := ⟨1, reaches_sub, by decide, by decide, by decide⟩
  file := ⟨⟨"sub", "sub", folderType, ["top"], false⟩, by rfl, rfl, by decide, fun _ => rfl⟩
  root := by decide

/-- The contents of a folder are not downloaded, though it is in the boundary. -/
theorem folder_not_downloaded : ¬ ∀ (read : JsonReader)
    (sanitize : Plan → Response → Except Error Response) (policy : Policy) (transport : Transport)
    (request : Request) (plan : Plan) (root : String) (includeDescendants : Bool),
    (driveEngine read sanitize policy transport []).check request = .ok plan →
      policy.resource = .googleDriveFolder root includeDescendants →
      (∀ id ∈ namedIds read plan.request,
        InBoundary (metadata read transport) root includeDescendants plan.operation id) →
      ∃ patience, (driveEngine read sanitize policy transport []).Dispatches true patience request
        plan := by
  intro h
  have hcheck : (sampleEngine.check sampleDownload).toOption.map (fun plan =>
      (plan.operation, namedIds sampleReader plan.request)) =
        some ("drive.files.download", ["sub"]) := by decide
  have hrefused : (sampleEngine.authorize sampleDownload).result.any (·.toOption.isNone) = true := by
    decide
  obtain ⟨plan, hplan, hsample⟩ := Option.map_eq_some_iff.mp hcheck
  rw [Outcomes.toOption_eq_some] at hplan
  obtain ⟨hoperation, hnamed⟩ := Prod.mk.inj hsample
  have hids : ∀ id ∈ namedIds sampleReader plan.request,
      InBoundary (metadata sampleReader sampleTransport) "top" true plan.operation id := by
    intro id hid
    rw [hnamed] at hid
    rw [List.mem_singleton.mp hid, hoperation]
    exact inBoundary_sub
  obtain ⟨patience, -, marks, left, hcut⟩ := h sampleReader _ samplePolicy sampleTransport
    sampleDownload plan "top" true hplan rfl hids
  have hresult := Task.result_of_cut hcut
  rw [show (sampleEngine.authorize sampleDownload).result = some (.ok plan) from hresult] at hrefused
  cases hrefused

def readingPolicy : Policy := { samplePolicy with allowedOperations := ["drive.files.get"] }

def sampleGet : Request := ⟨"GET", "/drive/v3/files/sub", .empty, [], none⟩

/-- What the provider knows of a contained folder is read. -/
theorem metadata_dispatched : ∃ plan enough, ∀ patience, enough ≤ patience →
    (driveEngine sampleReader (fun _ response => .ok response) readingPolicy sampleTransport
      []).Dispatches true patience sampleGet plan := by
  have hlaw := drive_containment sampleReader (fun _ response => .ok response) readingPolicy
    sampleTransport [] sampleGet
  have hcheck : ((driveEngine sampleReader (fun _ response => .ok response) readingPolicy sampleTransport
      []).check sampleGet).toOption.map (fun plan =>
        (plan.operation, namedIds sampleReader plan.request)) = some ("drive.files.get", ["sub"]) := by
    decide
  obtain ⟨plan, hplan, hsample⟩ := Option.map_eq_some_iff.mp hcheck
  obtain ⟨hoperation, hnamed⟩ := Prod.mk.inj hsample
  refine ⟨plan, hlaw.dispatched plan "top" true (Outcomes.toOption_eq_some.mp hplan) rfl
    (fun id hid => ?_) rfl⟩
  obtain rfl := List.mem_singleton.mp (hnamed ▸ hid)
  rw [hoperation]
  exact ⟨⟨1, reaches_sub, by decide, by decide, by decide⟩,
    ⟨⟨"sub", "sub", folderType, ["top"], false⟩, by rfl, by decide, by decide, by decide, by decide⟩,
    by decide⟩

end NyxId.Permissions
