import NyxId.Permissions.Model

/-!
The Drive adapter: six operations on files and folders, each about one resource, and the walk
from that resource up to the folder of the policy.
-/

namespace NyxId.Permissions

open Interleave Encoding

def folderType : String := "application/vnd.google-apps.folder"

def shortcutType : String := "application/vnd.google-apps.shortcut"

def verifyFields : String := "id,name,mimeType,parents,trashed"

structure FileMetadata where
  id : String
  name : String
  mimeType : String
  parents : List String
  trashed : Bool

def isAsciiAlphanumeric (c : Char) : Bool := c.toNat < 128 && c.isAlphanum

def validId (id : String) : Bool :=
  !id.isEmpty && id.utf8ByteSize ≤ 256 &&
    id.toList.all fun c => isAsciiAlphanumeric c || c = '_' || c = '-'

def onlyQuery (request : Request) (allowed : List String) : Except Error Unit :=
  if request.query.entries.any (fun e => !allowed.contains e.1) then
    .error (.denied "query parameter is not supported")
  else if (request.query.get "supportsAllDrives").any (· ≠ "true") then
    .error (.denied "supportsAllDrives must be true")
  else .ok ()

def isControl (c : Char) : Bool := c.toNat < 32 || (127 ≤ c.toNat && c.toNat < 160)

def Json.field (value : Json) (name : String) : Option Json :=
  match value with
  | .object members => members.lookup name
  | _ => none

def validName (name : String) : Bool :=
  !(trim name.toList).isEmpty && name.utf8ByteSize ≤ 1024 && !name.toList.any isControl

/-- The members of a body that is an object with a valid name and no other fields. -/
def jsonBody (read : JsonReader) (request : Request) (allowed : List String) :
    Except Error (List (String × Json)) :=
  if request.contentType.map (fun text => trim (text.toList.takeWhile (· ≠ ';'))) ≠
      some "application/json".toList then
    .error (.denied "this operation requires application/json")
  else match parseJson read request.body with
    | .error e => .error e
    | .ok (.object members) =>
      if members.any (fun m => !allowed.contains m.1) then
        .error (.denied "body field is not supported")
      else match (members.lookup "name").bind Json.asStr with
        | none => .error (.denied "name is required")
        | some name =>
          if validName name then .ok members else .error (.denied "invalid file name")
    | .ok _ => .error (.denied "expected a JSON object")

def checkedId (id : String) (folder allowRoot : Bool) : Except Error ResourceCheck :=
  if validId id then .ok ⟨id, folder, allowRoot⟩ else .error (.denied "invalid resource ID")

/-- The folder that a list query names, in the one form that is accepted. -/
def queryParent (q : String) : Option String :=
  match q.toList with
  | '\'' :: rest =>
    if "' in parents".toList.isSuffixOf rest then
      let id := String.ofList (rest.take (rest.length - "' in parents".toList.length))
      if validId id then some id else none
    else none
  | _ => none

def listQuery (parent : String) : String := "'" ++ parent ++ "' in parents and trashed = false"

def parseU16 (text : String) : Option ℕ :=
  (parseU64 (if text.toList.head? = some '+' then text.toList.tail else text.toList)).filter
    (· < 2 ^ 16)

def listFields : String := "nextPageToken,incompleteSearch,files(" ++ verifyFields ++ ")"

def listParent (rootFolderId : String) (request : Request) : Except Error String :=
  match request.query.get "q" with
  | none => .ok rootFolderId
  | some q =>
    match queryParent q with
    | some id => .ok id
    | none => .error (.denied "list q must be exactly 'FOLDER_ID' in parents")

def pageSize (request : Request) : Except Error ℕ :=
  match request.query.get "pageSize" with
  | none => .ok 100
  | some text =>
    match parseU16 text with
    | none => .error (.denied "invalid pageSize")
    | some size =>
      if 1 ≤ size && size ≤ 100 then .ok size
      else .error (.denied "pageSize must be between 1 and 100")

def planList (rootFolderId : String) (request : Request) : Except Error Plan := do
  onlyQuery request ["q", "pageSize", "pageToken", "fields", "supportsAllDrives"]
  let parent ← listParent rootFolderId request
  let resource ← checkedId parent true true
  let size ← pageSize request
  if (request.query.get "pageToken").any fun s => s.isEmpty || 4096 < s.utf8ByteSize then
    .error (.denied "invalid page token")
  else .ok {
    operation := "drive.files.list"
    origin := none
    request := { request with
      query := ((((request.query.insert "q" (listQuery parent)).insert "pageSize"
        (Nat.repr size)).insert "fields" listFields).insert "includeItemsFromAllDrives"
          "true").insert "supportsAllDrives" "true" }
    resources := [resource] }

def planGet (id : String) (request : Request) : Except Error Plan := do
  onlyQuery request ["fields", "alt", "supportsAllDrives"]
  let resource ← checkedId id false true
  if request.query.get "alt" = some "media" then
    .ok ⟨"drive.files.download", none, { request with
      query := (request.query.remove "fields").insert "supportsAllDrives" "true" }, [resource]⟩
  else if (request.query.get "alt").all (· = "json") then
    .ok ⟨"drive.files.get", none, { request with
      query := ((request.query.remove "alt").insert "fields" verifyFields).insert
        "supportsAllDrives" "true" }, [resource]⟩
  else .error (.denied "unsupported alt value")

def exportTypes : List String := ["application/pdf", "text/plain", "text/csv"]

def planExport (id : String) (request : Request) : Except Error Plan := do
  onlyQuery request ["mimeType"]
  if !(request.query.get "mimeType").any exportTypes.contains then
    .error (.denied "unsupported export MIME type")
  else
    let resource ← checkedId id false false
    .ok ⟨"drive.files.export", none, request, [resource]⟩

def planCreate (read : JsonReader) (request : Request) : Except Error Plan := do
  onlyQuery request ["fields", "supportsAllDrives"]
  let members ← jsonBody read request ["name", "mimeType", "parents"]
  if (members.lookup "mimeType").bind Json.asStr ≠ some folderType then
    .error (.denied "only folder creation is supported")
  else match members.lookup "parents" with
    | some (.array [.string parent]) => do
      let resource ← checkedId parent true true
      .ok ⟨"drive.folders.create", none, { request with
        query := (request.query.insert "fields" verifyFields).insert "supportsAllDrives"
          "true" }, [resource]⟩
    | some (.array [_]) => .error (.denied "invalid parent")
    | _ => .error (.denied "exactly one explicit parent is required")

def planRename (read : JsonReader) (id : String) (request : Request) : Except Error Plan := do
  onlyQuery request ["fields", "supportsAllDrives"]
  let _ ← jsonBody read request ["name"]
  let resource ← checkedId id false false
  .ok ⟨"drive.files.rename", none, { request with
    query := (request.query.insert "fields" verifyFields).insert "supportsAllDrives" "true" },
    [resource]⟩

def pathSegments (path : String) : List String := (path.toList.splitOn '/').map String.ofList

def planOperation (read : JsonReader) (rootFolderId : String) (request : Request) :
    Except Error Plan :=
  match request.method, pathSegments request.path with
  | "GET", ["", "drive", "v3", "files"] => planList rootFolderId request
  | "GET", ["", "drive", "v3", "files", id] => planGet id request
  | "GET", ["", "drive", "v3", "files", id, "export"] => planExport id request
  | "POST", ["", "drive", "v3", "files"] => planCreate read request
  | "PATCH", ["", "drive", "v3", "files", id] => planRename read id request
  | _, _ => .error (.denied "operation is not supported by the Drive adapter")

/-- `DriveAdapter::plan`. -/
def drivePlan (read : JsonReader) (policy : Policy) (request : Request) : Except Error Plan :=
  match policy.resource with
  | .googleDriveFolder rootFolderId _ =>
    if 2048 < request.path.utf8ByteSize || request.path.toList.head? ≠ some '/' ||
        request.path.toList.any (fun c => c = '%' || c = '\\' || c = '?' || c = '#') then
      .error (.denied "noncanonical path")
    else if request.method = "GET" && !request.body.isEmpty then
      .error (.denied "GET bodies are not supported")
    else planOperation read rootFolderId request
  | _ => .error (.policy "expected a Drive folder boundary")

def metadataRequest (id : String) : Request where
  method := "GET"
  path := "/drive/v3/files/" ++ id
  query := (SortedMap.empty.insert "fields" verifyFields).insert "supportsAllDrives" "true"
  body := []
  contentType := none

def Json.asBool : Json → Option Bool
  | .bool b => some b
  | _ => none

def stringsOf (items : List Json) : Option (List String) := items.mapM Json.asStr

/-- Metadata from an object, or from an array of its fields in their order. -/
def fileOf : Json → Option FileMetadata
  | .object members => do
    let id ← (members.lookup "id").bind Json.asStr
    let name ← (members.lookup "name").bind Json.asStr
    let mimeType ← (members.lookup "mimeType").bind Json.asStr
    let parents ← match members.lookup "parents" with
      | none => some []
      | some (.array items) => stringsOf items
      | some _ => none
    let trashed ← (members.lookup "trashed").bind Json.asBool
    return ⟨id, name, mimeType, parents, trashed⟩
  | .array [.string id, .string name, .string mimeType, .array items, .bool trashed] => do
    let parents ← stringsOf items
    return ⟨id, name, mimeType, parents, trashed⟩
  | _ => none

def checkMetadata (read : JsonReader) (current : String) (response : Response) :
    Except Error FileMetadata :=
  if response.status ≠ 200 || 64 * 1024 < response.body.length then .error .verification
  else match parseJson read response.body with
    | .error _ => .error .verification
    | .ok value =>
      match fileOf value with
      | none => .error .verification
      | some file =>
        if file.id ≠ current || file.parents.any (fun id => !validId id) ||
            1 < file.parents.length then .error .verification
        else .ok file

abbrev FileCache := List (String × FileMetadata)

/-- Metadata from the cache, or read from the provider and kept. -/
def fetchFile (read : JsonReader) (transport : Transport) (cache : FileCache) (current : String) :
    Work (Except Error (FileMetadata × FileCache)) :=
  match cache.lookup current with
  | some file => .done (.ok (file, cache))
  | none =>
    (transport.send (metadataRequest current)).bind fun
      | .error _ => .done (.error .verification)
      | .ok response =>
        match checkMetadata read current response with
        | .error e => .done (.error e)
        | .ok file => .done (.ok (file, (current, file) :: cache))

def contentOperation (operation : String) : Bool :=
  operation = "drive.files.download" || operation = "drive.files.export"

/-- What the walk checks of the file it has come to; nothing on success. -/
def rejectFile (root operation : String) (mustBeFolder : Bool) (depth : ℕ) (current : String)
    (file : FileMetadata) : Option Error :=
  if file.trashed || file.mimeType = shortcutType then
    some (.denied "trashed files and shortcuts are denied")
  else if (0 < depth || mustBeFolder || current = root) && file.mimeType ≠ folderType then
    some (.denied "expected a folder in resource ancestry")
  else if depth = 0 && contentOperation operation && file.mimeType = folderType then
    some (.denied "folder content downloads are unsupported")
  else none

def outsideBoundary : Error :=
  .denied "resource is outside the permitted folder boundary or depth limit"

/-- The loop from a resource upwards, with the steps it may still take. -/
def walk (read : JsonReader) (transport : Transport) (root operation : String)
    (includeDescendants mustBeFolder : Bool) :
    ℕ → ℕ → String → List String → FileCache → Work (Except Error FileCache)
  | 0, _, _, _, _ => .done (.error outsideBoundary)
  | fuel + 1, depth, current, visited, cache =>
    if visited.contains current then .done (.error (.denied "cyclic folder ancestry"))
    else (fetchFile read transport cache current).bind fun
      | .error e => .done (.error e)
      | .ok (file, cache) =>
        match rejectFile root operation mustBeFolder depth current file with
        | some e => .done (.error e)
        | none =>
          if current = root then .done (.ok cache)
          else if !includeDescendants && 1 ≤ depth then .done (.error outsideBoundary)
          else match file.parents with
            | [] => .done (.error outsideBoundary)
            | parent :: _ =>
              walk read transport root operation includeDescendants mustBeFolder fuel (depth + 1)
                parent (current :: visited) cache

def maxDepth : ℕ := 32

def verifyResource (read : JsonReader) (transport : Transport) (root operation : String)
    (includeDescendants : Bool) (resource : ResourceCheck) (cache : FileCache) :
    Work (Except Error FileCache) :=
  if resource.mustBeFolder && !includeDescendants && resource.id ≠ root then
    .done (.error (.denied "listing or creating inside subfolders is denied"))
  else if resource.id = root && !resource.allowRoot then
    .done (.error (.denied "changing the boundary folder itself is denied"))
  else walk read transport root operation includeDescendants resource.mustBeFolder maxDepth 0
    resource.id [] cache

def verifyResources (read : JsonReader) (transport : Transport) (root operation : String)
    (includeDescendants : Bool) : List ResourceCheck → FileCache → Work (Except Error Unit)
  | [], _ => .done (.ok ())
  | resource :: rest, cache =>
    (verifyResource read transport root operation includeDescendants resource cache).bind fun
      | .error e => .done (.error e)
      | .ok cache => verifyResources read transport root operation includeDescendants rest cache

/-- `DriveAdapter::verify`. -/
def driveVerify (read : JsonReader) (policy : Policy) (plan : Plan) (transport : Transport) :
    Work (Except Error Unit) :=
  match policy.resource with
  | .googleDriveFolder root includeDescendants =>
    verifyResources read transport root plan.operation includeDescendants plan.resources []
  | _ => .done (.error (.policy "expected a Drive folder boundary"))

end NyxId.Permissions
