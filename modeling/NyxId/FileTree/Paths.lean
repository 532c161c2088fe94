import Mathlib.Data.List.DropRight
import Mathlib.Data.List.Infix
import Mathlib.Data.List.Induction

/-!
Paths as they are written. A path is absolute or relative and has segments; what stands
between two adjacent slashes is no segment, and a slash at the end is read as a last dot.
-/

namespace NyxId.FileTree

inductive Component (Name : Type)
  | curDir
  | parentDir
  | normal (name : Name)
  deriving DecidableEq

open Component

structure PathBuf (Name : Type) where
  absolute : Bool
  segments : List (Component Name)
  deriving DecidableEq

namespace PathBuf

variable {Name : Type}

/-- The absolute path through these names. -/
def ofNames (names : List Name) : PathBuf Name := ⟨true, names.map normal⟩

def join (base path : PathBuf Name) : PathBuf Name :=
  if path.absolute then path
  else if path.segments.isEmpty then ⟨base.absolute, base.segments ++ [curDir]⟩
  else ⟨base.absolute, base.segments ++ path.segments⟩

/-- The names a path goes through. -/
def names (path : PathBuf Name) : List Name :=
  path.segments.filterMap fun
    | normal name => some name
    | _ => none

@[simp] theorem names_ofNames (names : List Name) : (ofNames names).names = names := by
  simp [ofNames, PathBuf.names, List.filterMap_map]

@[simp] theorem ofNames_absolute (names : List Name) : (ofNames names).absolute = true := rfl

@[simp] theorem ofNames_segments (names : List Name) :
    (ofNames names).segments = names.map normal := rfl

theorem ofNames_injective : Function.Injective (ofNames : List Name → PathBuf Name) := by
  intro p q h
  have hmap : p.map normal = q.map normal := congrArg segments h
  exact List.map_injective_iff.mpr (fun _ _ => normal.inj) hmap

@[simp] theorem ofNames_inj {p q : List Name} : ofNames p = ofNames q ↔ p = q :=
  ofNames_injective.eq_iff

@[simp] theorem join_ofNames (names : List Name) (name : Name) :
    (ofNames names).join ⟨false, [normal name]⟩ = ofNames (names ++ [name]) := by
  simp [join, ofNames]

variable [DecidableEq Name]

/-- What two spellings of a path share: the dots are left out, except the first of a
relative path. The root component is kept in `absolute`. -/
def components (path : PathBuf Name) : List (Component Name) :=
  match path.absolute, path.segments with
  | false, curDir :: rest => curDir :: rest.filter (· ≠ curDir)
  | _, segments => segments.filter (· ≠ curDir)

/-- The empty path is a prefix of every path. -/
def startsWith (path base : PathBuf Name) : Bool :=
  (base.absolute == path.absolute || (!base.absolute && base.components.isEmpty)) &&
    base.components.isPrefixOf path.components

/-- The path without the dots at its end. -/
def trim (path : PathBuf Name) : PathBuf Name :=
  match path.absolute, path.segments with
  | false, curDir :: rest => ⟨false, curDir :: rest.rdropWhile (· = curDir)⟩
  | absolute, segments => ⟨absolute, segments.rdropWhile (· = curDir)⟩

def parent (path : PathBuf Name) : Option (PathBuf Name) :=
  if path.trim.segments.isEmpty then none
  else some (trim ⟨path.absolute, path.trim.segments.dropLast⟩)

def fileName (path : PathBuf Name) : Option Name :=
  match path.trim.segments.getLast? with
  | some (normal name) => some name
  | _ => none

@[simp] theorem components_ofNames (names : List Name) :
    (ofNames names).components = names.map normal := by
  simp [components, ofNames]

/-- For paths through names alone the prefix is one of names. -/
theorem startsWith_ofNames {p q : List Name} : (ofNames p).startsWith (ofNames q) ↔ q <+: p := by
  have hmap : q.map normal <+: p.map normal ↔ q <+: p := by
    rw [List.prefix_map_iff]
    constructor
    · intro ⟨names, hprefix, hq⟩
      rwa [List.map_injective_iff.mpr (fun _ _ => normal.inj) hq]
    · intro hprefix
      exact ⟨q, hprefix, rfl⟩
  simp [startsWith, hmap]

/-- Where one path is under another, it is under all that the other is under. -/
theorem startsWith_trans {path middle base : PathBuf Name} (hpath : path.startsWith middle)
    (hmiddle : middle.startsWith base) : path.startsWith base := by
  simp only [startsWith, Bool.and_eq_true, Bool.or_eq_true, beq_iff_eq, Bool.not_eq_true',
    List.isEmpty_iff, List.isPrefixOf_iff_prefix] at hpath hmiddle ⊢
  refine ⟨?_, hmiddle.2.trans hpath.2⟩
  rcases hmiddle.1 with habs | hempty
  · rcases hpath.1 with habs' | ⟨hrel, hempty⟩
    · exact Or.inl (habs.trans habs')
    · right
      refine ⟨habs.trans hrel, ?_⟩
      have hnil := hmiddle.2
      rw [hempty] at hnil
      exact List.prefix_nil.mp hnil
  · exact Or.inr hempty

theorem trim_absolute (segments : List (Component Name)) :
    trim ⟨true, segments⟩ = ⟨true, segments.rdropWhile (· = curDir)⟩ := rfl

theorem segments_eq_trim (segments : List (Component Name)) :
    ∃ dots, (∀ c ∈ dots, c = curDir) ∧ segments = segments.rdropWhile (· = curDir) ++ dots := by
  refine ⟨segments.rtakeWhile (· = curDir), ?_, List.rdropWhile_append_rtakeWhile.symm⟩
  intro c hc
  simpa using List.mem_rtakeWhile_imp hc

/-- An absolute path is its parent, its file name and dots after both of them. -/
theorem segments_eq_parent {path directory : PathBuf Name} {name : Name}
    (habsolute : path.absolute = true) (hparent : path.parent = some directory)
    (hname : path.fileName = some name) :
    directory.absolute = true ∧ ∃ dots dots', (∀ c ∈ dots, c = curDir) ∧
      (∀ c ∈ dots', c = curDir) ∧
      path.segments = directory.segments ++ dots ++ [normal name] ++ dots' := by
  obtain ⟨absolute, segments⟩ := path
  cases habsolute
  unfold parent at hparent
  unfold fileName at hname
  rw [trim_absolute] at hparent hname
  obtain ⟨dots', hdots', hsegments⟩ := segments_eq_trim segments
  rcases List.eq_nil_or_concat (segments.rdropWhile (· = curDir)) with hnil | ⟨front, last, hlast⟩
  · simp [hnil] at hparent
  · rw [List.concat_eq_append] at hlast
    simp only [hlast, List.getLast?_concat] at hname
    simp only [hlast, List.isEmpty_iff, List.append_eq_nil_iff, List.cons_ne_self, and_false,
      if_false, List.dropLast_concat, trim_absolute, Option.some.injEq] at hparent
    cases last with
    | curDir => cases hname
    | parentDir => cases hname
    | normal found =>
      cases hname
      obtain ⟨dots, hdots, hfront⟩ := segments_eq_trim front
      subst hparent
      refine ⟨rfl, dots, dots', hdots, hdots', ?_⟩
      simp only
      rw [← hfront, ← hlast]
      exact hsegments

theorem rdropWhile_names (names : List Name) :
    (names.map normal).rdropWhile (· = curDir) = names.map normal := by
  rw [List.rdropWhile_eq_self_iff]
  intro hne hlast
  have hmem := List.getLast_mem hne
  rw [of_decide_eq_true hlast] at hmem
  simp at hmem

theorem parent_ofNames (names : List Name) (name : Name) :
    (ofNames (names ++ [name])).parent = some (ofNames names) := by
  have htrim : trim (ofNames (names ++ [name])) = ofNames (names ++ [name]) := by
    rw [ofNames, trim_absolute, rdropWhile_names]
  have htrim' : trim (ofNames names) = ofNames names := by
    rw [ofNames, trim_absolute, rdropWhile_names]
  rw [parent, htrim]
  simpa [ofNames] using htrim'

theorem fileName_ofNames (names : List Name) (name : Name) :
    (ofNames (names ++ [name])).fileName = some name := by
  have htrim : trim (ofNames (names ++ [name])) = ofNames (names ++ [name]) := by
    rw [ofNames, trim_absolute, rdropWhile_names]
  rw [fileName, htrim]
  simp

end PathBuf

end NyxId.FileTree
