import NyxId.FileTree.Canonical
import NyxId.Outcomes

/-!
The roots a machine may read and write under, and what is excluded below them. A grant
narrows the roots to their intersection with the granted directories.
-/

namespace NyxId.MachineFiles

open FileTree Outcomes

variable {Name : Type}

inductive MachineError
  | pathOutsideRoots
  | io (kind : ErrorKind)
  | message (text : String)
  deriving DecidableEq

/-- `std::fs::canonicalize` where it can, the path as it stands elsewhere. -/
def settle (fs : FileSystem Name) (path : PathBuf Name) : PathBuf Name :=
  match fs.canonicalize path with
  | .ok found => found
  | .error _ => path

def canonical (fs : FileSystem Name) (path : PathBuf Name) :
    Except MachineError (PathBuf Name) :=
  (fs.canonicalize path).mapError .io

/-- The roots are canonical directories, the exclusions as canonical as they can be. -/
structure Roots (fs : FileSystem Name) where
  roots : List (PathBuf Name)
  excluded : List (PathBuf Name)
  roots_canonical : ∀ root ∈ roots, fs.canonicalize root = .ok root
  roots_directories : ∀ root ∈ roots, fs.isDir root
  excluded_settled : ∀ denied ∈ excluded, settle fs denied = denied

theorem canonical_eq_ok {fs : FileSystem Name} {path r : PathBuf Name} :
    canonical fs path = .ok r ↔ fs.canonicalize path = .ok r := by
  unfold canonical
  cases fs.canonicalize path with
  | error kind => exact ⟨nofun, nofun⟩
  | ok found =>
    change Except.ok found = Except.ok r ↔ _
    rw [Except.ok.injEq, Except.ok.injEq]

theorem canonical_of_mapM {fs : FileSystem Name} {paths found : List (PathBuf Name)}
    (h : paths.mapM (canonical fs) = .ok found) : ∀ p ∈ found, fs.canonicalize p = .ok p := by
  intro p hp
  obtain ⟨path, -, hpath⟩ := exists_of_mem_mapM h hp
  exact FileSystem.canonicalize_idem (canonical_eq_ok.mp hpath)

theorem settle_settle (fs : FileSystem Name) (path : PathBuf Name) :
    settle fs (settle fs path) = settle fs path := by
  unfold settle
  cases hpath : fs.canonicalize path with
  | error kind => simp only [hpath]
  | ok found => simp only [FileSystem.canonicalize_idem hpath]

namespace Roots

variable [DecidableEq Name] {fs : FileSystem Name}

def new (fs : FileSystem Name) (roots excluded : List (PathBuf Name)) :
    Except MachineError (Roots fs) :=
  match hfound : roots.mapM (canonical fs) with
  | .error e => .error e
  | .ok found =>
    if hdir : ∀ root ∈ found, fs.isDir root then
      .ok {
        roots := found
        excluded := excluded.map (settle fs)
        roots_canonical := canonical_of_mapM hfound
        roots_directories := hdir
        excluded_settled := by
          intro denied hdenied
          obtain ⟨path, -, rfl⟩ := List.mem_map.mp hdenied
          exact settle_settle fs path }
    else .error (.message "workspace root is not a directory")

variable (self : Roots fs)

/-- One granted directory against one local root: the longer of the two where one is under
the other, unless it is excluded or has been found before. -/
def consider (granted : PathBuf Name) (roots : List (PathBuf Name)) (root : PathBuf Name) :
    List (PathBuf Name) :=
  let keep (candidate : PathBuf Name) :=
    if !self.excluded.any (candidate.startsWith ·) && !roots.contains candidate
    then roots ++ [candidate] else roots
  if granted.startsWith root then keep granted
  else if root.startsWith granted then keep root
  else roots

def restricted (granted : List (PathBuf Name)) : Except MachineError (Roots fs) := do
  let roots ← granted.foldlM (fun roots value => do
    let granted ← canonical fs value
    pure (self.roots.foldl (self.consider granted) roots)) []
  if roots.isEmpty then .error .pathOutsideRoots
  else new fs roots self.excluded

def located (path : PathBuf Name) : Except MachineError (PathBuf Name) :=
  if path.absolute then .ok path
  else
    match self.roots.head? with
    | some root => .ok (root.join path)
    | none => .error (.message "no workspace root")

/-- The canonical form of a path. One whose last name is missing has the canonical form of
its parent before that name, if it may be created. -/
def canonicalForm (path : PathBuf Name) (create : Bool) : Except MachineError (PathBuf Name) := do
  let path ← self.located path
  match fs.canonicalize path with
  | .ok path => .ok path
  | .error .notFound =>
    if create then
      match path.parent with
      | none => .error (.message "invalid path")
      | some parent =>
        let parent ← canonical fs parent
        match path.fileName with
        | none => .error (.message "invalid path")
        | some name => .ok (parent.join ⟨false, [.normal name]⟩)
    else .error (.io .notFound)
  | .error kind => .error (.io kind)

def admits (resolved : PathBuf Name) : Bool :=
  self.roots.any (resolved.startsWith ·) && !self.excluded.any (resolved.startsWith ·)

def resolve (path : PathBuf Name) (create : Bool) : Except MachineError (PathBuf Name) := do
  let resolved ← self.canonicalForm path create
  if self.admits resolved then .ok resolved else .error .pathOutsideRoots

end Roots

end NyxId.MachineFiles
