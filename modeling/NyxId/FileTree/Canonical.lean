import NyxId.FileTree.Paths
import Mathlib.Tactic.Common

/-!
A tree of files with symbolic links, and the canonical form of a path in it. A place in
the tree is the list of names that leads to it from the root; at each place there is a
node, or the error that looking at it gives.
-/

namespace NyxId.FileTree

open Component

inductive ErrorKind
  | notFound
  | notADirectory
  | filesystemLoop
  | permissionDenied
  | other
  deriving DecidableEq

inductive Node (Name : Type)
  | file
  | directory
  | symlink (target : PathBuf Name)
  deriving DecidableEq

variable {Name : Type}

/-- A place that is reached through directories alone and is no link itself. -/
inductive Reached (node : List Name → Except ErrorKind (Node Name)) : List Name → Prop
  | root : Reached node []
  | child {place : List Name} {name : Name} {found : Node Name} (hplace : Reached node place)
      (hdirectory : node place = .ok .directory) (hfound : node (place ++ [name]) = .ok found)
      (hreal : ∀ target, found ≠ .symlink target) : Reached node (place ++ [name])

structure FileSystem (Name : Type) where
  node : List Name → Except ErrorKind (Node Name)
  cwd : List Name
  root_directory : node [] = .ok .directory
  cwd_reached : Reached node cwd

/-- Where one component leads: to a place, or over a link to what is written there. -/
inductive Move (Name : Type)
  | place (place : List Name)
  | link (place : List Name) (segments : List (Component Name))

namespace FileSystem

variable (fs : FileSystem Name)

/-- Only a directory can be left, also by a dot. -/
def move (place : List Name) (component : Component Name) : Except ErrorKind (Move Name) :=
  match fs.node place with
  | .ok .directory =>
    match component with
    | curDir => .ok (.place place)
    | parentDir => .ok (.place place.dropLast)
    | normal name =>
      match fs.node (place ++ [name]) with
      | .error kind => .error kind
      | .ok (.symlink target) =>
        .ok (.link (if target.absolute then [] else place) target.segments)
      | .ok _ => .ok (.place (place ++ [name]))
  | .ok _ => .error .notADirectory
  | .error kind => .error kind

def walkWith (links : ℕ)
    (follow : List Name → List (Component Name) → Except ErrorKind (List Name × ℕ)) :
    List Name → List (Component Name) → Except ErrorKind (List Name × ℕ)
  | place, [] => .ok (place, links)
  | place, component :: rest =>
    match fs.move place component with
    | .error kind => .error kind
    | .ok (.place next) => walkWith links follow next rest
    | .ok (.link next segments) => follow next (segments ++ rest)

/-- The place that components lead to when at most `links` links are followed, and how
many more could be followed. -/
def walk : ℕ → List Name → List (Component Name) → Except ErrorKind (List Name × ℕ)
  | 0 => fs.walkWith 0 fun _ _ => .error .filesystemLoop
  | links + 1 => fs.walkWith (links + 1) (walk links)

def maxLinks : ℕ := 40

/-- The place a path leads to. -/
def locate (path : PathBuf Name) : Except ErrorKind (List Name) :=
  if !path.absolute && path.segments.isEmpty then .error .notFound
  else (fs.walk maxLinks (if path.absolute then [] else fs.cwd) path.segments).map Prod.fst

def canonicalize (path : PathBuf Name) : Except ErrorKind (PathBuf Name) :=
  (fs.locate path).map PathBuf.ofNames

def isDir (path : PathBuf Name) : Bool :=
  match fs.locate path with
  | .ok place =>
    match fs.node place with
    | .ok .directory => true
    | _ => false
  | .error _ => false

variable {fs}

theorem move_curDir {place : List Name} (h : fs.node place = .ok .directory) :
    fs.move place curDir = .ok (.place place) := by
  simp only [move, h]

theorem move_parentDir {place : List Name} (h : fs.node place = .ok .directory) :
    fs.move place parentDir = .ok (.place place.dropLast) := by
  simp only [move, h]

theorem move_normal {place : List Name} (h : fs.node place = .ok .directory) (name : Name) :
    fs.move place (normal name) =
      match fs.node (place ++ [name]) with
      | .error kind => .error kind
      | .ok (.symlink target) =>
        .ok (.link (if target.absolute then [] else place) target.segments)
      | .ok _ => .ok (.place (place ++ [name])) := by
  simp only [move, h]

theorem directory_of_move {place : List Name} {component : Component Name} {moved : Move Name}
    (h : fs.move place component = .ok moved) : fs.node place = .ok .directory := by
  unfold move at h
  split at h
  · assumption
  · cases h
  · cases h

/-! ### Walks -/

@[simp] theorem walk_nil (links : ℕ) (place : List Name) :
    fs.walk links place [] = .ok (place, links) := by
  cases links <;> rfl

/-- Follow a link when one more may be followed. -/
def follow (fs : FileSystem Name) (links : ℕ) (place : List Name)
    (segments : List (Component Name)) : Except ErrorKind (List Name × ℕ) :=
  match links with
  | 0 => .error .filesystemLoop
  | links + 1 => fs.walk links place segments

theorem walk_cons (links : ℕ) (place : List Name) (component : Component Name)
    (rest : List (Component Name)) :
    fs.walk links place (component :: rest) =
      match fs.move place component with
      | .error kind => .error kind
      | .ok (.place next) => fs.walk links next rest
      | .ok (.link next segments) => fs.follow links next (segments ++ rest) := by
  cases links <;> rfl

variable (fs) in
/-- A walk ends, fails, goes on from another place, or goes on along a link with one link
less to follow. -/
theorem walk_induction {motive : ℕ → List Name → List (Component Name) → Prop}
    (nil : ∀ links place, motive links place [])
    (error : ∀ links place component rest kind, fs.move place component = .error kind →
      motive links place (component :: rest))
    (go : ∀ links place component rest next, fs.move place component = .ok (.place next) →
      motive links next rest → motive links place (component :: rest))
    (loop : ∀ place component rest next segments,
      fs.move place component = .ok (.link next segments) → motive 0 place (component :: rest))
    (link : ∀ links place component rest next segments,
      fs.move place component = .ok (.link next segments) →
      motive links next (segments ++ rest) → motive (links + 1) place (component :: rest))
    (links : ℕ) (place : List Name) (components : List (Component Name)) :
    motive links place components := by
  induction links generalizing place components with
  | zero =>
    induction components generalizing place with
    | nil => exact nil 0 place
    | cons component rest ih =>
      cases hmove : fs.move place component with
      | error kind => exact error 0 place component rest kind hmove
      | ok moved =>
        cases moved with
        | place next => exact go 0 place component rest next hmove (ih next)
        | link next segments => exact loop place component rest next segments hmove
  | succ links ihlinks =>
    induction components generalizing place with
    | nil => exact nil (links + 1) place
    | cons component rest ih =>
      cases hmove : fs.move place component with
      | error kind => exact error (links + 1) place component rest kind hmove
      | ok moved =>
        cases moved with
        | place next => exact go (links + 1) place component rest next hmove (ih next)
        | link next segments =>
          exact link links place component rest next segments hmove
            (ihlinks next (segments ++ rest))

theorem walk_append (links : ℕ) (place : List Name) (front back : List (Component Name)) :
    fs.walk links place (front ++ back) =
      (fs.walk links place front).bind fun reached => fs.walk reached.2 reached.1 back := by
  induction links, place, front using walk_induction fs with
  | nil links place => rw [walk_nil]; rfl
  | error links place component rest kind hmove =>
    rw [List.cons_append, walk_cons, walk_cons, hmove]
    rfl
  | go links place component rest next hmove ih =>
    rw [List.cons_append, walk_cons, walk_cons, hmove]
    exact ih
  | loop place component rest next segments hmove =>
    rw [List.cons_append, walk_cons, walk_cons, hmove]
    rfl
  | link links place component rest next segments hmove ih =>
    rw [List.cons_append, walk_cons, walk_cons, hmove]
    simp only [follow, ← List.append_assoc]
    exact ih

/-- With more links to follow a walk ends the same, unless it failed for their number. -/
theorem walk_more (more : ℕ) {links : ℕ} {place : List Name} {components : List (Component Name)}
    (h : fs.walk links place components ≠ .error .filesystemLoop) :
    fs.walk (links + more) place components =
      (fs.walk links place components).map fun reached => (reached.1, reached.2 + more) := by
  induction links, place, components using walk_induction fs with
  | nil links place => rw [walk_nil, walk_nil]; rfl
  | error links place component rest kind hmove =>
    rw [walk_cons, walk_cons, hmove]
    rfl
  | go links place component rest next hmove ih =>
    rw [walk_cons, hmove] at h
    rw [walk_cons, walk_cons, hmove]
    exact ih h
  | loop place component rest next segments hmove =>
    rw [walk_cons, hmove] at h
    exact absurd rfl h
  | link links place component rest next segments hmove ih =>
    rw [walk_cons, hmove] at h
    rw [walk_cons, walk_cons, hmove, Nat.add_right_comm]
    exact ih h

/-! ### Where a walk ends -/

theorem Reached.dropLast {place : List Name} (h : Reached fs.node place) :
    Reached fs.node place.dropLast := by
  cases h with
  | root => exact .root
  | child hplace =>
    rw [List.dropLast_concat]
    exact hplace

/-- A move along a link starts again at a place that was reached before. -/
theorem reached_move {place : List Name} {component : Component Name} {moved : Move Name}
    (hplace : Reached fs.node place) (h : fs.move place component = .ok moved) :
    match moved with
    | .place next => Reached fs.node next
    | .link next _ => Reached fs.node next := by
  have hdirectory := directory_of_move h
  cases component with
  | curDir =>
    rw [move_curDir hdirectory] at h
    cases h
    exact hplace
  | parentDir =>
    rw [move_parentDir hdirectory] at h
    cases h
    exact Reached.dropLast hplace
  | normal name =>
    rw [move_normal hdirectory] at h
    cases hnode : fs.node (place ++ [name]) with
    | error kind => simp [hnode] at h
    | ok found =>
      rw [hnode] at h
      cases found with
      | symlink target =>
        cases h
        simp only
        split
        · exact .root
        · exact hplace
      | file =>
        cases h
        exact .child hplace hdirectory hnode nofun
      | directory =>
        cases h
        exact .child hplace hdirectory hnode nofun

theorem reached_walk {links left : ℕ} {place last : List Name}
    {components : List (Component Name)} (hplace : Reached fs.node place)
    (h : fs.walk links place components = .ok (last, left)) :
    Reached fs.node last ∧ left ≤ links := by
  induction links, place, components using walk_induction fs with
  | nil links place =>
    rw [walk_nil] at h
    cases h
    exact ⟨hplace, le_rfl⟩
  | error links place component rest kind hmove => simp [walk_cons, hmove] at h
  | go links place component rest next hmove ih =>
    rw [walk_cons, hmove] at h
    exact ih (reached_move hplace hmove) h
  | loop place component rest next segments hmove => simp [walk_cons, hmove, follow] at h
  | link links place component rest next segments hmove ih =>
    rw [walk_cons, hmove] at h
    obtain ⟨hlast, hle⟩ := ih (reached_move hplace hmove) h
    exact ⟨hlast, by omega⟩

/-- A reached place is walked to by its own names, without a link. -/
theorem walk_names {place : List Name} (h : Reached fs.node place) (links : ℕ) :
    fs.walk links [] (place.map normal) = .ok (place, links) := by
  induction h with
  | root => exact walk_nil links []
  | @child place name found hplace hdirectory hfound hreal ih =>
    rw [List.map_append, walk_append, ih]
    change fs.walk links place [normal name] = _
    rw [walk_cons]
    cases found with
    | symlink target => exact absurd rfl (hreal target)
    | file => simp [move_normal hdirectory, hfound]
    | directory => simp [move_normal hdirectory, hfound]

/-! ### Canonical forms -/

theorem locate_absolute {path : PathBuf Name} (h : path.absolute = true) :
    fs.locate path = (fs.walk maxLinks [] path.segments).map Prod.fst := by
  simp [locate, h]

theorem locate_eq_error {path : PathBuf Name} {kind : ErrorKind} (h : path.absolute = true) :
    fs.locate path = .error kind ↔ fs.walk maxLinks [] path.segments = .error kind := by
  rw [locate_absolute h]
  cases fs.walk maxLinks [] path.segments with
  | error kind' => simp [Except.map]
  | ok reached => simp [Except.map]

theorem exists_walk_of_locate {path : PathBuf Name} {place : List Name}
    (h : path.absolute = true) (hplace : fs.locate path = .ok place) :
    ∃ links, fs.walk maxLinks [] path.segments = .ok (place, links) := by
  rw [locate_absolute h] at hplace
  cases hwalk : fs.walk maxLinks [] path.segments with
  | error kind => simp [hwalk, Except.map] at hplace
  | ok reached =>
    rw [hwalk] at hplace
    cases Except.ok.inj hplace
    exact ⟨reached.2, rfl⟩

theorem locate_ofNames {place : List Name} (h : Reached fs.node place) :
    fs.locate (.ofNames place) = .ok place := by
  rw [locate_absolute rfl, PathBuf.ofNames_segments, walk_names h]
  rfl

theorem reached_locate {path : PathBuf Name} {place : List Name}
    (h : fs.locate path = .ok place) : Reached fs.node place := by
  unfold locate at h
  split at h
  · cases h
  · obtain ⟨⟨last, left⟩, hwalk, hlast⟩ : ∃ reached,
        fs.walk maxLinks (if path.absolute then [] else fs.cwd) path.segments = .ok reached ∧
          reached.1 = place := by
      cases hwalk : fs.walk maxLinks (if path.absolute then [] else fs.cwd) path.segments with
      | error kind => simp [hwalk, Except.map] at h
      | ok reached =>
        rw [hwalk] at h
        exact ⟨reached, rfl, Except.ok.inj h⟩
    cases hlast
    refine (reached_walk ?_ hwalk).1
    split
    · exact .root
    · exact fs.cwd_reached

theorem canonicalize_eq_ok {path r : PathBuf Name} :
    fs.canonicalize path = .ok r ↔ ∃ place, fs.locate path = .ok place ∧ r = .ofNames place := by
  unfold canonicalize
  cases fs.locate path with
  | error kind => exact ⟨nofun, nofun⟩
  | ok place =>
    constructor
    · intro h
      exact ⟨place, rfl, (Except.ok.inj h).symm⟩
    · intro ⟨place', hplace, hr⟩
      cases hplace
      rw [hr]
      rfl

theorem canonicalize_eq_error {path : PathBuf Name} {kind : ErrorKind} :
    fs.canonicalize path = .error kind ↔ fs.locate path = .error kind := by
  unfold canonicalize
  cases fs.locate path with
  | error kind' =>
    constructor
    · intro h
      cases h
      rfl
    · intro h
      cases h
      rfl
  | ok place => exact ⟨nofun, nofun⟩

/-- A canonical form is its own canonical form. -/
theorem canonicalize_idem {path r : PathBuf Name} (h : fs.canonicalize path = .ok r) :
    fs.canonicalize r = .ok r := by
  obtain ⟨place, hplace, rfl⟩ := canonicalize_eq_ok.mp h
  exact canonicalize_eq_ok.mpr ⟨place, locate_ofNames (reached_locate hplace), rfl⟩

/-! ### A last name that is missing -/

theorem node_of_reached {place : List Name} (h : Reached fs.node place) :
    fs.node place = .ok .file ∨ fs.node place = .ok .directory := by
  cases h with
  | root => exact Or.inr fs.root_directory
  | @child place name found hplace hdirectory hfound hreal =>
    cases found with
    | file => exact Or.inl hfound
    | directory => exact Or.inr hfound
    | symlink target => exact absurd rfl (hreal target)

/-- A file that a walk should leave is an error of its own. -/
theorem directory_of_missing {links : ℕ} {place : List Name} {components : List (Component Name)}
    (hplace : Reached fs.node place) (h : fs.walk links place components = .error .notFound) :
    fs.node place = .ok .directory := by
  rcases node_of_reached hplace with hfile | hdirectory
  · cases components with
    | nil => simp at h
    | cons component rest =>
      rw [walk_cons] at h
      simp [move, hfile] at h
  · exact hdirectory

theorem walk_dots {links : ℕ} {place : List Name} {dots : List (Component Name)}
    (hdots : ∀ c ∈ dots, c = curDir) (hdirectory : fs.node place = .ok .directory)
    (rest : List (Component Name)) :
    fs.walk links place (dots ++ rest) = fs.walk links place rest := by
  induction dots with
  | nil => rfl
  | cons component dots ih =>
    rw [hdots component List.mem_cons_self, List.cons_append, walk_cons, move_curDir hdirectory]
    exact ih fun c hc => hdots c (List.mem_cons_of_mem _ hc)

/-- Dots do not miss anything. -/
theorem walk_dots_found {links : ℕ} {place : List Name} {dots : List (Component Name)}
    (hdots : ∀ c ∈ dots, c = curDir) (hplace : Reached fs.node place) :
    fs.walk links place dots ≠ .error .notFound := by
  intro h
  have hdirectory := directory_of_missing hplace h
  have hstay := @walk_dots _ fs links _ _ hdots hdirectory []
  rw [List.append_nil, walk_nil, h] at hstay
  cases hstay

/-- When a name is missing after places that are there, it is missing with any dots around
it left out, and with as many links to follow as at the start. -/
theorem walk_missing {front dots dots' : List (Component Name)} {name : Name}
    {place : List Name} {links : ℕ} (hdots : ∀ c ∈ dots, c = curDir)
    (hdots' : ∀ c ∈ dots', c = curDir) (hfront : fs.walk maxLinks [] front = .ok (place, links))
    (h : fs.walk maxLinks [] (front ++ dots ++ [normal name] ++ dots') = .error .notFound) :
    fs.walk maxLinks [] ((place ++ [name]).map normal) = .error .notFound := by
  obtain ⟨hplace, hle⟩ := reached_walk .root hfront
  simp only [List.append_assoc] at h
  rw [walk_append, hfront] at h
  change fs.walk links place (dots ++ ([normal name] ++ dots')) = _ at h
  have hdirectory := directory_of_missing hplace h
  rw [walk_dots hdots hdirectory, walk_append] at h
  have hname : fs.walk links place [normal name] = .error .notFound := by
    cases hwalk : fs.walk links place [normal name] with
    | error kind =>
      rw [hwalk] at h
      exact h
    | ok reached =>
      rw [hwalk] at h
      exact absurd h (walk_dots_found hdots' (reached_walk hplace hwalk).1)
  have hmore := walk_more (maxLinks - links) (by rw [hname]; nofun)
  have hlinks : links + (maxLinks - links) = maxLinks := by
    omega
  rw [hlinks, hname] at hmore
  rw [List.map_append, walk_append, walk_names hplace]
  exact hmore

theorem canonicalize_missing [DecidableEq Name] {path directory : PathBuf Name} {name : Name}
    {place : List Name} (habsolute : path.absolute = true)
    (hpath : fs.canonicalize path = .error .notFound) (hparent : path.parent = some directory)
    (hname : path.fileName = some name) (hdirectory : fs.canonicalize directory = .ok (.ofNames place)) :
    fs.canonicalize (.ofNames (place ++ [name])) = .error .notFound := by
  obtain ⟨habsolute', dots, dots', hdots, hdots', hsegments⟩ :=
    PathBuf.segments_eq_parent habsolute hparent hname
  obtain ⟨place', hplace', heq⟩ := canonicalize_eq_ok.mp hdirectory
  cases PathBuf.ofNames_inj.mp heq
  obtain ⟨links, hfront⟩ := exists_walk_of_locate habsolute' hplace'
  rw [canonicalize_eq_error, locate_eq_error habsolute, hsegments] at hpath
  rw [canonicalize_eq_error, locate_eq_error rfl]
  exact walk_missing hdots hdots' hfront hpath

end FileSystem

end NyxId.FileTree
