import NyxId.Encoding.Json
import NyxId.MachineFiles.Roots

/-!
Listing of a directory in pages. The walk is depth first with a stack of directories, and
starts again at every page; entries before the offset are only counted.
-/

namespace NyxId.MachineFiles

open FileTree Encoding

/-- A tree whose directories can be opened, without following links, and read, in any order of
their entries. -/
structure DirectoryTree (Name : Type) extends FileSystem Name where
  readDir : List Name → Except ErrorKind (List (Name × Node Name))
  readDir_nodup : ∀ place found, readDir place = .ok found → (found.map Prod.fst).Nodup
  mem_readDir : ∀ place found, readDir place = .ok found → ∀ name entry,
    (name, entry) ∈ found ↔ node (place ++ [name]) = .ok entry

/-- What the listing takes from elsewhere: the compiled globs and the text of a path. -/
structure Texts (Name : Type) where
  compile : String → Except MachineError (PathBuf Name → Bool)
  toStringLossy : PathBuf Name → String

structure Page where
  entries : List Json
  offset : ℕ
  hasMore : Bool

/-- The state of the loops over pending directories and their children. The directory that
is taken next stands first. -/
structure Walk (Name : Type) where
  pending : List (List Name × ℕ)
  entries : List Json
  seen : ℕ
  visited : ℕ
  outputBytes : ℕ
  more : Bool

variable {Name : Type}

def textBytes (value : Json) : ℕ := (String.ofList (writeJson value)).utf8ByteSize

/-- A selected entry is counted, and put on the page from the offset on. -/
def Walk.record (offset : ℕ) (value : Json) (walk : Walk Name) : Except MachineError (Walk Name) :=
  let bytes := textBytes value
  if walk.seen ≥ offset &&
      (walk.entries.length ≥ 50 ||
        (!walk.entries.isEmpty && walk.outputBytes + bytes > 6000)) then
    .ok { walk with more := true }
  else
    let walk :=
      if walk.seen ≥ offset then
        { walk with
          outputBytes := walk.outputBytes + bytes
          entries := walk.entries ++ [value] }
      else walk
    let walk := { walk with seen := walk.seen + 1 }
    if walk.seen > 10000 then .error (.message "listing offset limit exceeded")
    else .ok walk

theorem Walk.record_pending {offset : ℕ} {value : Json} {walk walk' : Walk Name}
    (h : walk.record offset value = .ok walk') :
    walk'.pending = walk.pending ∧ walk'.visited = walk.visited := by
  unfold Walk.record at h
  simp only at h
  split at h
  · cases h
    exact ⟨rfl, rfl⟩
  · split at h
    · split at h
      · cases h
      · cases h
        exact ⟨rfl, rfl⟩
    · split at h
      · cases h
      · cases h
        exact ⟨rfl, rfl⟩

variable [LinearOrder Name] {tree : DirectoryTree Name}

def stripPrefix (path base : PathBuf Name) : Option (PathBuf Name) :=
  if path.startsWith base then
    some ⟨path.absolute && !base.absolute, path.components.drop base.components.length⟩
  else none

def kindText : Node Name → String
  | .directory => "directory"
  | .symlink _ => "symlink"
  | .file => "file"

def directoryEntries (tree : DirectoryTree Name) (place : List Name) :
    Except MachineError (List (Name × Node Name)) :=
  match tree.readDir place with
  | .error kind => .error (.io kind)
  | .ok found =>
    if found.length > 10000 then .error (.message "directory listing limit exceeded")
    else .ok (found.mergeSort fun a b => a.1 ≤ b.1)

namespace Roots

variable (texts : Texts Name) (self : Roots tree.toFileSystem)

def excludes (child : List Name) : Bool :=
  self.excluded.any ((PathBuf.ofNames child).startsWith ·)

/-- The entry of a child, named below the first root where it lies there. -/
def value (child : List Name) (entry : Node Name) : Json :=
  let path := PathBuf.ofNames child
  let name := (self.roots.head?.bind (stripPrefix path)).getD path
  .object [("kind", .string (kindText entry)), ("name", .string (texts.toStringLossy name))]

def selects (matcher : Option (PathBuf Name → Bool)) (resolved child : List Name) : Bool :=
  let path := PathBuf.ofNames child
  matcher.all fun isMatch => isMatch ((stripPrefix path (.ofNames resolved)).getD path)

section

variable (matcher : Option (PathBuf Name → Bool)) (resolved : List Name) (depth offset : ℕ)

/-- A directory above the last level is walked later. -/
def enter (child : List Name) (level : ℕ) (entry : Node Name) (walk : Walk Name) : Walk Name :=
  if entry = .directory && level < depth
  then { walk with pending := (child, level + 1) :: walk.pending } else walk

/-- One child of the directory at a level. -/
def look (path : List Name) (level : ℕ) (name : Name) (entry : Node Name) (walk : Walk Name) :
    Except MachineError (Walk Name) :=
  let walk := { walk with visited := walk.visited + 1 }
  if walk.visited > 10000 then
    .error (.message "directory listing limit exceeded; narrow the path")
  else
    let child := path ++ [name]
    if self.excludes child then .ok walk
    else
      let walk := enter depth child level entry walk
      if !selects matcher resolved child then .ok walk
      else walk.record offset (self.value texts child entry)

/-- The inner loop, over the sorted children, until the page is full. -/
def visit (path : List Name) (level : ℕ) :
    List (Name × Node Name) → Walk Name → Except MachineError (Walk Name)
  | [], walk => .ok walk
  | (name, entry) :: children, walk => do
    let walk ← self.look texts matcher resolved depth offset path level name entry walk
    if walk.more then .ok walk else visit path level children walk

variable {texts self matcher resolved depth offset} {path : List Name} {level : ℕ}

/-- What a look at a child does to the pending directories. -/
theorem look_pending {walk walk' : Walk Name} {name : Name} {entry : Node Name}
    (h : self.look texts matcher resolved depth offset path level name entry walk = .ok walk') :
    walk'.visited = walk.visited + 1 ∧ walk'.visited ≤ 10000 ∧
      walk'.pending =
        if self.excludes (path ++ [name]) then walk.pending
        else (enter depth (path ++ [name]) level entry walk).pending := by
  unfold look at h
  simp only at h
  have henter (start : Walk Name) :
      (enter depth (path ++ [name]) level entry start).visited = start.visited ∧
        (enter depth (path ++ [name]) level entry { start with visited := start.visited + 1 }).pending =
          (enter depth (path ++ [name]) level entry start).pending := by
    unfold enter
    split
    · exact ⟨rfl, rfl⟩
    · exact ⟨rfl, rfl⟩
  split at h
  · cases h
  · rename_i hvisited
    have hvisited : walk.visited + 1 ≤ 10000 := by omega
    split at h
    · cases h
      rw [if_pos (by assumption)]
      exact ⟨rfl, hvisited, rfl⟩
    · rw [if_neg (by assumption)]
      split at h
      · cases h
        rw [(henter _).1]
        exact ⟨rfl, hvisited, (henter walk).2⟩
      · obtain ⟨hpending, hvisited'⟩ := Walk.record_pending h
        rw [hvisited', hpending, (henter _).1]
        exact ⟨rfl, hvisited, (henter walk).2⟩

theorem enter_length (child : List Name) (level : ℕ) (entry : Node Name) (walk : Walk Name) :
    (enter depth child level entry walk).pending.length ≤ walk.pending.length + 1 := by
  unfold enter
  split
  · exact Nat.le_refl _
  · exact Nat.le_succ _

/-- Each visited child adds one directory to the pending ones at most. -/
theorem visit_measure {children : List (Name × Node Name)} {walk walk' : Walk Name}
    (h : self.visit texts matcher resolved depth offset path level children walk = .ok walk') :
    walk'.pending.length + (10000 - walk'.visited) ≤
      walk.pending.length + (10000 - walk.visited) := by
  induction children generalizing walk with
  | nil =>
    cases h
    exact Nat.le_refl _
  | cons child children ih =>
    obtain ⟨looked, hlook, h⟩ := bind_eq_ok.mp h
    obtain ⟨hvisited, hbound, hpending⟩ := look_pending hlook
    have hlength : looked.pending.length ≤ walk.pending.length + 1 := by
      rw [hpending]
      split
      · exact Nat.le_succ _
      · exact enter_length _ _ _ _
    have hstep : looked.pending.length + (10000 - looked.visited) ≤
        walk.pending.length + (10000 - walk.visited) := by
      omega
    split at h
    · cases h
      exact hstep
    · exact Nat.le_trans (ih h) hstep

variable (texts self matcher resolved depth offset)

/-- The outer loop, while a directory is pending and the page is not full. -/
def walkTree (walk : Walk Name) : Except MachineError (Walk Name) :=
  match _hpending : walk.pending with
  | [] => .ok walk
  | (path, level) :: pending =>
    match directoryEntries tree path with
    | .error e => .error e
    | .ok children =>
      match _hvisit : self.visit texts matcher resolved depth offset path level children
          { walk with pending := pending } with
      | .error e => .error e
      | .ok walk' => if walk'.more then .ok walk' else walkTree walk'
termination_by walk.pending.length + (10000 - walk.visited)
decreasing_by
  have hle := visit_measure _hvisit
  simp only [_hpending, List.length_cons] at hle ⊢
  omega

end

def list (path : PathBuf Name) (depth offset : ℕ) (glob : Option String) :
    Except MachineError Page := do
  if depth > 8 || offset > 10000 || glob.any (·.utf8ByteSize > 256) then
    throw (.message "directory listing limit exceeded")
  let matcher ← glob.mapM texts.compile
  let resolved ← self.resolve path false
  let resolved := resolved.names
  let walk ← self.walkTree texts matcher resolved depth offset
    { pending := [(resolved, 0)], entries := [], seen := 0, visited := 0, outputBytes := 0
      more := false }
  pure { entries := walk.entries, offset := walk.seen, hasMore := walk.more }

end Roots

end NyxId.MachineFiles
