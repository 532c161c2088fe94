import NyxId.MachineFiles.Roots

/-!
The intersection of the local roots with granted directories. Both sides of each comparison
are canonical, so that being under a directory is being a prefix of its names.
-/

namespace NyxId.MachineFiles

open FileTree Outcomes

variable {Name : Type} {fs : FileSystem Name}

theorem exists_ofNames {path r : PathBuf Name} (h : fs.canonicalize path = .ok r) :
    ∃ place, FileTree.Reached fs.node place ∧ r = .ofNames place := by
  obtain ⟨place, hplace, hr⟩ := FileSystem.canonicalize_eq_ok.mp h
  exact ⟨place, FileSystem.reached_locate hplace, hr⟩

/-- Of two directories above one path, one is under the other. -/
theorem startsWith_total [DecidableEq Name] {path path' left right : PathBuf Name} {names : List Name}
    (hpath : fs.canonicalize path = .ok left) (hpath' : fs.canonicalize path' = .ok right)
    (hleft : (PathBuf.ofNames names).startsWith left)
    (hright : (PathBuf.ofNames names).startsWith right) :
    left.startsWith right ∨ right.startsWith left := by
  obtain ⟨a, -, rfl⟩ := exists_ofNames hpath
  obtain ⟨b, -, rfl⟩ := exists_ofNames hpath'
  rw [PathBuf.startsWith_ofNames] at hleft hright
  rw [PathBuf.startsWith_ofNames, PathBuf.startsWith_ofNames]
  exact (List.prefix_or_prefix_of_prefix hleft hright).symm

namespace Roots

variable {self : Roots fs}

/-! ### The canonical form of a path -/

theorem located_absolute {path found : PathBuf Name} (h : self.located path = .ok found) :
    found.absolute = true := by
  unfold located at h
  split at h
  · cases h
    assumption
  · rename_i hrelative
    cases hroot : self.roots.head? with
    | none => simp [hroot] at h
    | some root =>
      rw [hroot] at h
      cases h
      obtain ⟨place, -, rfl⟩ :=
        exists_ofNames (self.roots_canonical root (List.mem_of_mem_head? hroot))
      unfold PathBuf.join
      rw [if_neg hrelative]
      split
      · rfl
      · rfl

/-- What a canonical form can be: the form of a path that is found, or a missing name in a
directory that is found. -/
inductive Form (fs : FileSystem Name) : Bool → PathBuf Name → Prop
  | found {create : Bool} {r : PathBuf Name} (h : fs.canonicalize r = .ok r) : Form fs create r
  | missing {place : List Name} {name : Name}
      (hplace : fs.canonicalize (.ofNames place) = .ok (.ofNames place))
      (h : fs.canonicalize (.ofNames (place ++ [name])) = .error .notFound) :
      Form fs true (.ofNames (place ++ [name]))

theorem Form.names {create : Bool} {r : PathBuf Name} (h : Form fs create r) :
    ∃ names, r = .ofNames names := by
  cases h with
  | found h =>
    obtain ⟨place, -, hr⟩ := exists_ofNames h
    exact ⟨place, hr⟩
  | @missing place name => exact ⟨place ++ [name], rfl⟩

theorem canonical_ne_outside (path : PathBuf Name) :
    canonical fs path ≠ .error .pathOutsideRoots := by
  unfold canonical
  cases fs.canonicalize path with
  | error kind => nofun
  | ok found => nofun

theorem new_eq_ok {roots excluded : List (PathBuf Name)} {built : Roots fs}
    (hroots : ∀ root ∈ roots, fs.canonicalize root = .ok root)
    (hexcluded : ∀ denied ∈ excluded, settle fs denied = denied)
    (h : new fs roots excluded = .ok built) : built.roots = roots ∧ built.excluded = excluded := by
  have hself : roots.mapM (canonical fs) = .ok roots :=
    mapM_eq_self fun root hroot => canonical_eq_ok.mpr (hroots root hroot)
  unfold new at h
  split at h
  · cases h
  · rename_i found hfound
    rw [hself] at hfound
    cases hfound
    split at h
    · cases h
      refine ⟨rfl, ?_⟩
      change excluded.map (settle fs) = excluded
      rw [List.map_congr_left hexcluded, List.map_id']
    · cases h

theorem new_ne_outside {roots excluded : List (PathBuf Name)} :
    new fs roots excluded ≠ .error .pathOutsideRoots := by
  intro h
  unfold new at h
  split at h
  · rename_i e hfound
    cases h
    obtain ⟨path, -, hpath⟩ := mapM_eq_error hfound
    exact canonical_ne_outside path hpath
  · split at h
    · cases h
    · cases h

variable [DecidableEq Name]

theorem canonicalForm_form {path r : PathBuf Name} {create : Bool}
    (h : self.canonicalForm path create = .ok r) : Form fs create r := by
  obtain ⟨path, hlocated, h⟩ := bind_eq_ok.mp h
  have habsolute := located_absolute hlocated
  cases hpath : fs.canonicalize path with
  | ok found =>
    rw [hpath] at h
    cases h
    exact .found (FileSystem.canonicalize_idem hpath)
  | error kind =>
    rw [hpath] at h
    cases kind with
    | notFound =>
      cases create with
      | false => cases h
      | true =>
        cases hparent : path.parent with
        | none => simp [hparent] at h
        | some parent =>
          simp only [hparent, if_true] at h
          obtain ⟨directory, hdirectory, h⟩ := bind_eq_ok.mp h
          have hdirectory := canonical_eq_ok.mp hdirectory
          obtain ⟨place, -, rfl⟩ := exists_ofNames hdirectory
          cases hname : path.fileName with
          | none => simp [hname] at h
          | some name =>
            simp only [hname, Except.ok.injEq, PathBuf.join_ofNames] at h
            subst h
            refine .missing (FileSystem.canonicalize_idem hdirectory) ?_
            exact FileSystem.canonicalize_missing habsolute hpath hparent hname hdirectory
    | notADirectory => cases h
    | filesystemLoop => cases h
    | permissionDenied => cases h
    | other => cases h

/-- The canonical form of a canonical form is that form, whatever the roots are. -/
theorem canonicalForm_of_form {r : PathBuf Name} {create : Bool} (h : Form fs create r) :
    self.canonicalForm r create = .ok r := by
  cases h with
  | found h =>
    obtain ⟨place, -, rfl⟩ := exists_ofNames h
    simp [canonicalForm, located, h, bind, Except.bind]
  | @missing place name hplace h =>
    simp [canonicalForm, located, h, bind, Except.bind, PathBuf.parent_ofNames,
      PathBuf.fileName_ofNames, canonical_eq_ok.mpr hplace]

theorem resolve_eq_ok {path r : PathBuf Name} {create : Bool} :
    self.resolve path create = .ok r ↔
      self.canonicalForm path create = .ok r ∧ self.admits r = true := by
  unfold resolve
  rw [bind_eq_ok]
  constructor
  · intro ⟨found, hform, h⟩
    split at h
    · cases h
      exact ⟨hform, by assumption⟩
    · cases h
  · intro ⟨hform, hadmits⟩
    refine ⟨r, hform, ?_⟩
    rw [if_pos hadmits]

theorem resolve_of_form {r : PathBuf Name} {create : Bool} (h : Form fs create r) :
    self.resolve r create = .ok r ↔ self.admits r = true := by
  rw [resolve_eq_ok, canonicalForm_of_form h]
  exact ⟨fun h => h.2, fun h => ⟨rfl, h⟩⟩

/-! ### The roots of a grant -/

/-- The longer of two directories, outside the exclusions. -/
def Candidate (self : Roots fs) (granted root candidate : PathBuf Name) : Prop :=
  (granted.startsWith root ∧ candidate = granted ∨
    ¬ granted.startsWith root ∧ root.startsWith granted ∧ candidate = root) ∧
    self.excluded.any (candidate.startsWith ·) = false

theorem mem_consider {granted root candidate : PathBuf Name} {roots : List (PathBuf Name)} :
    candidate ∈ self.consider granted roots root ↔
      candidate ∈ roots ∨ self.Candidate granted root candidate := by
  unfold consider Candidate
  by_cases hunder : granted.startsWith root
  · grind
  · grind

/-- A loop that finds some values at each item finds those of all the items. -/
theorem mem_foldl {α β : Type} {find : List β → α → List β} {Found : α → β → Prop}
    (hfind : ∀ found x y, y ∈ find found x ↔ y ∈ found ∨ Found x y) (xs : List α)
    (found : List β) (y : β) : y ∈ xs.foldl find found ↔ y ∈ found ∨ ∃ x ∈ xs, Found x y := by
  induction xs generalizing found with
  | nil => simp
  | cons x xs ih =>
    rw [List.foldl_cons, ih, hfind]
    simp only [List.mem_cons, exists_eq_or_imp, or_assoc]

/-- The candidates of all the granted directories and all the roots. -/
def candidates (self : Roots fs) (granted : List (PathBuf Name)) : List (PathBuf Name) :=
  granted.foldl (fun roots directory => self.roots.foldl (self.consider directory) roots) []

theorem mem_candidates {granted : List (PathBuf Name)} {candidate : PathBuf Name} :
    candidate ∈ self.candidates granted ↔
      ∃ directory ∈ granted, ∃ root ∈ self.roots, self.Candidate directory root candidate := by
  have hroots (directory : PathBuf Name) (roots : List (PathBuf Name)) (c : PathBuf Name) :
      c ∈ self.roots.foldl (self.consider directory) roots ↔
        c ∈ roots ∨ ∃ root ∈ self.roots, self.Candidate directory root c :=
    mem_foldl (fun _ root _ => @mem_consider _ _ self _ _ root _ _) self.roots roots c
  unfold candidates
  rw [mem_foldl fun found directory c => hroots directory found c]
  simp

/-- Every candidate is a directory above which a root and a granted directory stand. -/
theorem canonical_of_candidate {granted root candidate : PathBuf Name}
    (hgranted : fs.canonicalize granted = .ok granted) (hroot : root ∈ self.roots)
    (h : self.Candidate granted root candidate) :
    fs.canonicalize candidate = .ok candidate ∧ candidate.startsWith root ∧
      candidate.startsWith granted := by
  have hcanonical := self.roots_canonical root hroot
  obtain ⟨place, -, rfl⟩ := exists_ofNames hgranted
  obtain ⟨place', -, rfl⟩ := exists_ofNames hcanonical
  rcases h.1 with ⟨hunder, rfl⟩ | ⟨-, hunder, rfl⟩
  · exact ⟨hgranted, hunder, PathBuf.startsWith_ofNames.mpr List.prefix_rfl⟩
  · exact ⟨hcanonical, PathBuf.startsWith_ofNames.mpr List.prefix_rfl, hunder⟩

/-- A path lies under a candidate and outside the exclusions just when the roots admit it
and it lies under a granted directory. -/
theorem under_candidate_iff {granted : List (PathBuf Name)} {names : List Name}
    (hgranted : ∀ directory ∈ granted, fs.canonicalize directory = .ok directory) :
    (∃ candidate ∈ self.candidates granted, (PathBuf.ofNames names).startsWith candidate) ∧
        self.excluded.any ((PathBuf.ofNames names).startsWith ·) = false ↔
      self.admits (.ofNames names) = true ∧
        ∃ directory ∈ granted, (PathBuf.ofNames names).startsWith directory := by
  unfold admits
  rw [Bool.and_eq_true, Bool.not_eq_true', List.any_eq_true]
  constructor
  · intro ⟨⟨candidate, hcandidate, hnames⟩, hexcluded⟩
    obtain ⟨directory, hdirectory, root, hroot, hcandidate⟩ := mem_candidates.mp hcandidate
    obtain ⟨-, hroot', hdirectory'⟩ :=
      canonical_of_candidate (hgranted directory hdirectory) hroot hcandidate
    exact ⟨⟨⟨root, hroot, PathBuf.startsWith_trans hnames hroot'⟩, hexcluded⟩,
      directory, hdirectory, PathBuf.startsWith_trans hnames hdirectory'⟩
  · intro ⟨⟨⟨root, hroot, hnames⟩, hexcluded⟩, directory, hdirectory, hnames'⟩
    refine ⟨?_, hexcluded⟩
    -- An exclusion above the candidate would stand above the path as well.
    have hkept {candidate : PathBuf Name}
        (hcandidate : (PathBuf.ofNames names).startsWith candidate) :
        self.excluded.any (candidate.startsWith ·) = false := by
      rw [List.any_eq_false] at hexcluded ⊢
      intro denied hdenied hunder
      exact hexcluded denied hdenied (PathBuf.startsWith_trans hcandidate hunder)
    by_cases hunder : directory.startsWith root
    · exact ⟨directory, mem_candidates.mpr ⟨directory, hdirectory, root, hroot,
        Or.inl ⟨hunder, rfl⟩, hkept hnames'⟩, hnames'⟩
    · have hunder' : root.startsWith directory :=
        (startsWith_total (self.roots_canonical root hroot) (hgranted directory hdirectory)
          hnames hnames').resolve_right hunder
      exact ⟨root, mem_candidates.mpr ⟨directory, hdirectory, root, hroot,
        Or.inr ⟨hunder, hunder', rfl⟩, hkept hnames⟩, hnames⟩

/-! ### What a grant leaves -/

/-- Under the canonical form of a granted directory. -/
def Under (fs : FileSystem Name) (granted : List (PathBuf Name)) (resolved : PathBuf Name) :
    Prop :=
  ∃ value ∈ granted, ∃ directory, fs.canonicalize value = .ok directory ∧
    resolved.startsWith directory = true

theorem under_iff {granted directories : List (PathBuf Name)} {resolved : PathBuf Name}
    (h : granted.mapM (canonical fs) = .ok directories) :
    Under fs granted resolved ↔ ∃ directory ∈ directories, resolved.startsWith directory := by
  constructor
  · intro ⟨value, hvalue, directory, hdirectory, hunder⟩
    obtain ⟨found, hmem, hfound⟩ := exists_mem_of_mapM h hvalue
    rw [canonical_eq_ok, hdirectory] at hfound
    cases hfound
    exact ⟨directory, hmem, hunder⟩
  · intro ⟨directory, hmem, hunder⟩
    obtain ⟨value, hvalue, hdirectory⟩ := exists_of_mem_mapM h hmem
    exact ⟨value, hvalue, directory, canonical_eq_ok.mp hdirectory, hunder⟩

theorem restricted_eq_ok {granted : List (PathBuf Name)} {restricted : Roots fs}
    (h : self.restricted granted = .ok restricted) :
    ∃ directories, granted.mapM (canonical fs) = .ok directories ∧
      restricted.roots = self.candidates directories ∧ restricted.excluded = self.excluded := by
  obtain ⟨roots, hroots, h⟩ := bind_eq_ok.mp h
  obtain ⟨directories, hdirectories, hcandidates⟩ := foldlM_eq_ok.mp hroots
  split at h
  · cases h
  · have hcanonical : ∀ root ∈ roots, fs.canonicalize root = .ok root := by
      intro candidate hcandidate
      rw [hcandidates] at hcandidate
      obtain ⟨directory, hdirectory, root, hroot, hcandidate⟩ := mem_candidates.mp hcandidate
      exact (canonical_of_candidate (canonical_of_mapM hdirectories directory hdirectory) hroot
        hcandidate).1
    obtain ⟨hbuilt, hexcluded⟩ := new_eq_ok hcanonical self.excluded_settled h
    exact ⟨directories, hdirectories, hbuilt.trans hcandidates, hexcluded⟩

theorem restricted_eq_outside {granted : List (PathBuf Name)}
    (h : self.restricted granted = .error .pathOutsideRoots) :
    ∃ directories, granted.mapM (canonical fs) = .ok directories ∧
      self.candidates directories = [] := by
  rcases bind_eq_error.mp h with hroots | ⟨roots, hroots, h⟩
  · obtain ⟨path, -, hpath⟩ := foldlM_eq_error hroots
    exact absurd hpath (canonical_ne_outside path)
  · obtain ⟨directories, hdirectories, hcandidates⟩ := foldlM_eq_ok.mp hroots
    split at h
    · rename_i hempty
      exact ⟨directories, hdirectories, hcandidates.symm.trans (List.isEmpty_iff.mp hempty)⟩
    · exact absurd h new_ne_outside

theorem restricted_admits {granted : List (PathBuf Name)} {restricted : Roots fs}
    (h : self.restricted granted = .ok restricted) (names : List Name) :
    restricted.admits (.ofNames names) = true ↔
      self.admits (.ofNames names) = true ∧ Under fs granted (.ofNames names) := by
  obtain ⟨directories, hdirectories, hroots, hexcluded⟩ := restricted_eq_ok h
  rw [under_iff hdirectories, ← under_candidate_iff (canonical_of_mapM hdirectories)]
  unfold admits
  rw [hroots, hexcluded, Bool.and_eq_true, Bool.not_eq_true', List.any_eq_true]

/-- What a narrowed set of roots accepts, by the canonical form of the path. -/
theorem restricted_resolve {granted : List (PathBuf Name)} {restricted : Roots fs}
    (h : self.restricted granted = .ok restricted) {path r : PathBuf Name} {create : Bool} :
    restricted.resolve path create = .ok r ↔
      restricted.canonicalForm path create = .ok r ∧ self.resolve r create = .ok r ∧
        Under fs granted r := by
  rw [resolve_eq_ok]
  constructor
  · intro ⟨hform, hadmits⟩
    have hr := canonicalForm_form hform
    obtain ⟨names, rfl⟩ := hr.names
    obtain ⟨hself, hunder⟩ := (restricted_admits h names).mp hadmits
    exact ⟨hform, (resolve_of_form hr).mpr hself, hunder⟩
  · intro ⟨hform, hself, hunder⟩
    have hr := canonicalForm_form hform
    obtain ⟨names, rfl⟩ := hr.names
    exact ⟨hform, (restricted_admits h names).mpr ⟨(resolve_of_form hr).mp hself, hunder⟩⟩

theorem outside_disjoint {granted : List (PathBuf Name)}
    (h : self.restricted granted = .error .pathOutsideRoots) {path r : PathBuf Name}
    {create : Bool} (hr : self.resolve path create = .ok r) : ¬ Under fs granted r := by
  intro hunder
  obtain ⟨hform, hadmits⟩ := resolve_eq_ok.mp hr
  obtain ⟨names, rfl⟩ := (canonicalForm_form hform).names
  obtain ⟨directories, hdirectories, hempty⟩ := restricted_eq_outside h
  rw [under_iff hdirectories] at hunder
  obtain ⟨⟨candidate, hcandidate, -⟩, -⟩ :=
    (under_candidate_iff (canonical_of_mapM hdirectories)).mpr ⟨hadmits, hunder⟩
  rw [hempty] at hcandidate
  cases hcandidate

/-- A grant intersects the roots with its directories exactly. The narrowed roots accept a path
just when the roots accept its canonical form and a granted directory is above that form;
nothing is refused as outside unless nothing is in both; and a second grant leaves what both
grants allow. -/
theorem grants_intersect (fs : FileSystem Name) (self : Roots fs)
    (granted again : List (PathBuf Name)) :
    (∀ restricted, self.restricted granted = .ok restricted → ∀ path create r,
      restricted.resolve path create = .ok r ↔
        restricted.canonicalForm path create = .ok r ∧ self.resolve r create = .ok r ∧
          Under fs granted r) ∧
    (self.restricted granted = .error .pathOutsideRoots → ∀ path create r,
      self.resolve path create = .ok r → ¬ Under fs granted r) ∧
    ∀ restricted twice, self.restricted granted = .ok restricted →
      restricted.restricted again = .ok twice → ∀ path create r,
        twice.resolve path create = .ok r ↔
          twice.canonicalForm path create = .ok r ∧ self.resolve r create = .ok r ∧
            Under fs granted r ∧ Under fs again r := by
  refine ⟨?_, ?_, ?_⟩
  · intro restricted h path create r
    exact restricted_resolve h
  · intro h path create r hr
    exact outside_disjoint h hr
  · intro restricted twice h hagain path create r
    rw [restricted_resolve hagain]
    constructor
    · intro ⟨hform, hr, hunder⟩
      obtain ⟨-, hself, hunder'⟩ := (restricted_resolve h).mp hr
      exact ⟨hform, hself, hunder', hunder⟩
    · intro ⟨hform, hself, hunder, hunder'⟩
      have hr : restricted.canonicalForm r create = .ok r :=
        canonicalForm_of_form (canonicalForm_form hform)
      exact ⟨hform, (restricted_resolve h).mpr ⟨hr, hself, hunder⟩, hunder'⟩

/-- A project in /1 with a file in /1/2, and a link to its directory at /9. -/
def project : FileSystem ℕ where
  node
    | [] | [1] | [1, 2] => .ok .directory
    | [1, 2, 3] => .ok .file
    | [9] => .ok (.symlink (.ofNames [1, 2]))
    | _ => .error .notFound
  cwd := []
  root_directory := rfl
  cwd_reached := .root

def projectRoots : Roots project where
  roots := [.ofNames [1]]
  excluded := []
  roots_canonical := by decide
  roots_directories := by decide
  excluded_settled := by simp

def linkedRoots : Roots project where
  roots := [.ofNames [1, 2]]
  excluded := []
  roots_canonical := by decide
  roots_directories := by decide
  excluded_settled := by simp

/-- A grant of the link leaves the files of the directory it leads to. -/
theorem linked_files_allowed :
    linkedRoots.resolve (.ofNames [9, 3]) false = .ok (.ofNames [1, 2, 3]) :=
  ((grants_intersect project projectRoots [.ofNames [9]] []).1 linkedRoots rfl
    (.ofNames [9, 3]) false (.ofNames [1, 2, 3])).mpr
      ⟨rfl, rfl, .ofNames [9], List.mem_cons_self, .ofNames [1, 2], rfl, by decide⟩

end Roots

end NyxId.MachineFiles
