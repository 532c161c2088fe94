import NyxId.MachineFiles.Listing
import NyxId.MachineFiles.Grants
import NyxId.Paging

/-!
What the pages of a listing hold. The walk with its stack fills a page from one list, the
entries below the directory in the order of the walk; that list does not depend on the page.
-/

namespace NyxId.MachineFiles

open FileTree Encoding Outcomes Paging

variable {Name : Type}

def Page.reply (page : Page) : Reply Json := (page.entries, page.offset, page.hasMore)

def Walk.filling (walk : Walk Name) : Filling Json :=
  ⟨walk.entries, walk.seen, walk.outputBytes, walk.more⟩

/-- Recording an entry adds it to the page. -/
theorem Walk.record_eq (offset : ℕ) (value : Json) {walk : Walk Name}
    (hmore : walk.more = false) (hseen : walk.seen < 10000) :
    ∃ walk', walk.record offset value = .ok walk' ∧
      walk'.filling = add textBytes 50 6000 offset walk.filling value ∧
      walk'.seen ≤ walk.seen + 1 := by
  have hbound : ¬ walk.seen + 1 > 10000 := by omega
  unfold Walk.record
  simp only
  by_cases hoffset : walk.seen ≥ offset
  · by_cases hfull : full textBytes 50 6000 walk.filling value = true
    · refine ⟨{ walk with more := true }, ?_, (add_full hmore hoffset hfull).symm, Nat.le_succ _⟩
      rw [if_pos]
      rw [Bool.and_eq_true]
      exact ⟨decide_eq_true hoffset, hfull⟩
    · refine ⟨{ walk with
        outputBytes := walk.outputBytes + textBytes value
        entries := walk.entries ++ [value]
        seen := walk.seen + 1 }, ?_, ?_, Nat.le_refl _⟩
      · rw [if_neg, if_pos hoffset]
        · exact if_neg hbound
        · rw [Bool.and_eq_true]
          exact fun h => hfull h.2
      · rw [add_item hmore hoffset hfull]
        simp [filling, hmore]
  · refine ⟨{ walk with seen := walk.seen + 1 }, ?_, ?_, Nat.le_refl _⟩
    · rw [if_neg, if_neg hoffset]
      · exact if_neg hbound
      · rw [Bool.and_eq_true]
        exact fun h => hoffset (of_decide_eq_true h.1)
    · have hskipped : ¬ offset ≤ walk.filling.seen := hoffset
      rw [add_skipped hmore hskipped]
      rfl

variable [LinearOrder Name] {tree : DirectoryTree Name}

namespace Roots

variable (texts : Texts Name) (self : Roots tree.toFileSystem)

/-! ### The entries below a directory -/

/-- What is shown of the entries that were read from a directory. -/
def shown (place : List Name) (found : List (Name × Node Name)) : List (List Name × Node Name) :=
  (found.map fun c => (place ++ [c.1], c.2)).filter fun c => !self.excludes c.1

/-- The children of a directory that are not excluded, in the order of the walk. -/
def children (place : List Name) : List (List Name × Node Name) :=
  match directoryEntries tree place with
  | .error _ => []
  | .ok found => self.shown place found

/-- The directories among the children. The one that was pushed last is walked first. -/
def directories (place : List Name) : List (List Name) :=
  (((self.children place).filter fun c => c.2 = .directory).map Prod.fst).reverse

/-- All entries below a directory down to some levels more. -/
def below : ℕ → List Name → List (List Name × Node Name)
  | 0, place => self.children place
  | levels + 1, place =>
    self.children place ++ (self.directories place).flatMap (below levels)

/-- How many entries a walk looks at, if it can read every directory it comes to. -/
def visits : ℕ → List Name → Except MachineError ℕ
  | 0, place => do
    let found ← directoryEntries tree place
    pure found.length
  | levels + 1, place => do
    let found ← directoryEntries tree place
    let counts ← (self.directories place).mapM (visits levels)
    pure (found.length + counts.sum)

variable {self}

theorem visits_found {levels : ℕ} {place : List Name} {count : ℕ}
    (h : self.visits levels place = .ok count) :
    ∃ found, directoryEntries tree place = .ok found ∧ found.length ≤ count := by
  cases levels with
  | zero =>
    obtain ⟨found, hfound, h⟩ := bind_eq_ok.mp h
    cases h
    exact ⟨found, hfound, Nat.le_refl _⟩
  | succ levels =>
    obtain ⟨found, hfound, h⟩ := bind_eq_ok.mp h
    obtain ⟨counts, -, h⟩ := bind_eq_ok.mp h
    cases h
    exact ⟨found, hfound, Nat.le_add_right _ _⟩

theorem children_eq {place : List Name} {found : List (Name × Node Name)}
    (h : directoryEntries tree place = .ok found) :
    self.children place = self.shown place found := by
  rw [children, h]

theorem mem_directoryEntries {place : List Name} {found : List (Name × Node Name)}
    (h : directoryEntries tree place = .ok found) :
    (found.map Prod.fst).Nodup ∧
      ∀ name entry, (name, entry) ∈ found ↔ tree.node (place ++ [name]) = .ok entry := by
  unfold directoryEntries at h
  cases hread : tree.readDir place with
  | error kind => simp [hread] at h
  | ok read =>
    rw [hread] at h
    simp only at h
    split at h
    · cases h
    · cases h
      have hperm := List.mergeSort_perm read fun a b => decide (a.1 ≤ b.1)
      refine ⟨(hperm.map Prod.fst).nodup_iff.mpr (tree.readDir_nodup place read hread), ?_⟩
      intro name entry
      rw [hperm.mem_iff]
      exact tree.mem_readDir place read hread name entry

theorem mem_children {place child : List Name} {entry : Node Name}
    {found : List (Name × Node Name)} (h : directoryEntries tree place = .ok found) :
    (child, entry) ∈ self.children place ↔
      ∃ name, child = place ++ [name] ∧ tree.node child = .ok entry ∧
        self.excludes child = false := by
  rw [children_eq h, shown]
  simp only [List.mem_filter, List.mem_map, Prod.mk.injEq, Prod.exists, Bool.not_eq_true']
  constructor
  · intro ⟨⟨name, entry', hmem, hchild, hentry⟩, hexcluded⟩
    subst hchild hentry
    exact ⟨name, rfl, ((mem_directoryEntries h).2 name entry').mp hmem, hexcluded⟩
  · intro ⟨name, hchild, hnode, hexcluded⟩
    subst hchild
    exact ⟨⟨name, entry, ((mem_directoryEntries h).2 name entry).mpr hnode, rfl, rfl⟩, hexcluded⟩

theorem mem_directories {place child : List Name} :
    child ∈ self.directories place ↔ (child, Node.directory) ∈ self.children place := by
  simp only [directories, List.mem_reverse, List.mem_map, List.mem_filter, decide_eq_true_eq]
  constructor
  · intro ⟨c, ⟨hmem, hdirectory⟩, hchild⟩
    rw [← hchild, ← hdirectory]
    exact hmem
  · intro hmem
    exact ⟨_, ⟨hmem, rfl⟩, rfl⟩

/-- An entry under an excluded one is excluded. -/
theorem excludes_append {place rest : List Name} (h : self.excludes (place ++ rest) = false) :
    self.excludes place = false := by
  unfold excludes at h ⊢
  rw [List.any_eq_false] at h ⊢
  intro denied hdenied hunder
  exact h denied hdenied (PathBuf.startsWith_trans
    (PathBuf.startsWith_ofNames.mpr (List.prefix_append place rest)) hunder)

/-- Where an entry below a directory stands. -/
structure Below (roots : Roots tree.toFileSystem) (levels : ℕ) (place : List Name)
    (child : List Name) (entry : Node Name) (suffix : List Name) : Prop where
  path : child = place ++ suffix
  nonempty : suffix ≠ []
  depth : suffix.length ≤ levels + 1
  found : tree.node child = .ok entry
  allowed : roots.excludes child = false
  through : ∀ front, front ≠ [] → front <+: suffix → front ≠ suffix →
    tree.node (place ++ front) = .ok .directory

section

variable {levels : ℕ} {place child suffix : List Name} {name : Name} {entry : Node Name}

theorem Below.direct (hnode : tree.node (place ++ [name]) = .ok entry)
    (hallowed : self.excludes (place ++ [name]) = false) :
    self.Below levels place (place ++ [name]) entry [name] where
  path := rfl
  nonempty := by simp
  depth := by simp
  found := hnode
  allowed := hallowed
  through := by
    intro front hne hfront hproper
    have hlength := hfront.length_le
    have hpositive := List.length_pos_iff.mpr hne
    rw [List.length_singleton] at hlength
    have heq : front.length = [name].length := by
      rw [List.length_singleton]
      omega
    exact absurd (hfront.eq_of_length heq) hproper

theorem Below.under (hnode : tree.node (place ++ [name]) = .ok .directory)
    (h : self.Below levels (place ++ [name]) child entry suffix) :
    self.Below (levels + 1) place child entry (name :: suffix) where
  path := by
    rw [h.path, List.append_assoc]
    rfl
  nonempty := by simp
  depth := by
    have hdepth := h.depth
    rw [List.length_cons]
    omega
  found := h.found
  allowed := h.allowed
  through := by
    intro front hne hin hproper
    cases front with
    | nil => exact absurd rfl hne
    | cons first front =>
      obtain ⟨rfl, hfront⟩ := List.cons_prefix_cons.mp hin
      by_cases hempty : front = []
      · rw [hempty]
        exact hnode
      · have hthrough := h.through front hempty hfront fun heq => hproper (congrArg _ heq)
        rw [List.append_assoc] at hthrough
        exact hthrough

/-- An entry that is no child stands below a directory that is one. -/
theorem Below.rest {rest : List Name} (h : self.Below levels place child entry (name :: rest))
    (hrest : rest ≠ []) :
    tree.node (place ++ [name]) = .ok .directory ∧ self.excludes (place ++ [name]) = false ∧
      ∃ below, levels = below + 1 ∧ self.Below below (place ++ [name]) child entry rest := by
  have hpath : child = (place ++ [name]) ++ rest := by
    rw [h.path, List.append_assoc]
    rfl
  have hallowed := h.allowed
  have hdepth := h.depth
  have hpositive := List.length_pos_iff.mpr hrest
  rw [hpath] at hallowed
  rw [List.length_cons] at hdepth
  obtain ⟨below, rfl⟩ : ∃ below, levels = below + 1 := ⟨levels - 1, by omega⟩
  refine ⟨?_, excludes_append hallowed, below, rfl, hpath, hrest, by omega, h.found, h.allowed, ?_⟩
  · apply h.through [name] (by simp)
    · exact List.cons_prefix_cons.mpr ⟨rfl, List.nil_prefix⟩
    · intro heq
      exact hrest (List.cons.inj heq).2.symm
  · intro front hne hfront hproper
    rw [List.append_assoc]
    apply h.through (name :: front) (by simp)
    · exact List.cons_prefix_cons.mpr ⟨rfl, hfront⟩
    · intro heq
      exact hproper (List.cons.inj heq).2

theorem mem_below {count : ℕ} (h : self.visits levels place = .ok count) :
    (child, entry) ∈ self.below levels place ↔
      ∃ suffix, self.Below levels place child entry suffix := by
  induction levels generalizing place count with
  | zero =>
    obtain ⟨found, hfound, -⟩ := visits_found h
    rw [below, mem_children hfound]
    constructor
    · intro ⟨name, hchild, hnode, hallowed⟩
      subst hchild
      exact ⟨[name], .direct hnode hallowed⟩
    · intro ⟨suffix, hbelow⟩
      cases suffix with
      | nil => exact absurd rfl hbelow.nonempty
      | cons name rest =>
        by_cases hrest : rest = []
        · subst hrest
          exact ⟨name, hbelow.path, hbelow.found, hbelow.allowed⟩
        · obtain ⟨-, -, below, hlevels, -⟩ := hbelow.rest hrest
          omega
  | succ levels ih =>
    obtain ⟨found, hfound, h⟩ := bind_eq_ok.mp h
    obtain ⟨counts, hcounts, -⟩ := bind_eq_ok.mp h
    rw [below, List.mem_append, List.mem_flatMap, mem_children hfound]
    constructor
    · rintro (⟨name, hchild, hnode, hallowed⟩ | ⟨directory, hdirectory, hchild⟩)
      · subst hchild
        exact ⟨[name], .direct hnode hallowed⟩
      · obtain ⟨count', -, hcount'⟩ := exists_mem_of_mapM hcounts hdirectory
        obtain ⟨suffix, hbelow⟩ := (ih hcount').mp hchild
        obtain ⟨name, rfl, hnode, -⟩ := (mem_children hfound).mp (mem_directories.mp hdirectory)
        exact ⟨name :: suffix, .under hnode hbelow⟩
    · intro ⟨suffix, hbelow⟩
      cases suffix with
      | nil => exact absurd rfl hbelow.nonempty
      | cons name rest =>
        by_cases hrest : rest = []
        · subst hrest
          exact Or.inl ⟨name, hbelow.path, hbelow.found, hbelow.allowed⟩
        · obtain ⟨hnode, hallowed, below, hlevels, hbelow⟩ := hbelow.rest hrest
          cases hlevels
          have hdirectory : place ++ [name] ∈ self.directories place := by
            rw [mem_directories, mem_children hfound]
            exact ⟨name, rfl, hnode, hallowed⟩
          obtain ⟨count', -, hcount'⟩ := exists_mem_of_mapM hcounts hdirectory
          exact Or.inr ⟨place ++ [name], hdirectory, (ih hcount').mpr ⟨rest, hbelow⟩⟩

end

theorem path_of_mem_children {place : List Name} {c : List Name × Node Name}
    (h : c ∈ self.children place) : ∃ name, c.1 = place ++ [name] := by
  unfold children at h
  split at h
  · cases h
  · obtain ⟨hmem, -⟩ := List.mem_filter.mp h
    obtain ⟨c', -, hc⟩ := List.mem_map.mp hmem
    exact ⟨c'.1, by rw [← hc]⟩

theorem path_of_mem_directories {place child : List Name} (h : child ∈ self.directories place) :
    ∃ name, child = place ++ [name] :=
  path_of_mem_children (mem_directories.mp h)

/-- An entry stands strictly below the directory it is found in. -/
theorem path_of_mem_below {levels : ℕ} {place : List Name} {c : List Name × Node Name}
    (h : c ∈ self.below levels place) : ∃ name rest, c.1 = place ++ name :: rest := by
  induction levels generalizing place with
  | zero =>
    obtain ⟨name, hpath⟩ := path_of_mem_children h
    exact ⟨name, [], hpath⟩
  | succ levels ih =>
    rcases List.mem_append.mp h with h | h
    · obtain ⟨name, hpath⟩ := path_of_mem_children h
      exact ⟨name, [], hpath⟩
    · obtain ⟨directory, hdirectory, h⟩ := List.mem_flatMap.mp h
      obtain ⟨name, rfl⟩ := path_of_mem_directories hdirectory
      obtain ⟨name', rest, hrest⟩ := ih h
      refine ⟨name, name' :: rest, ?_⟩
      rw [hrest, List.append_assoc]
      rfl

theorem children_nodup (place : List Name) : ((self.children place).map Prod.fst).Nodup := by
  unfold children
  split
  · exact List.nodup_nil
  · rename_i found hfound
    have hnames : ((found.map fun c => (place ++ [c.1], c.2)).map Prod.fst).Nodup := by
      have hmap : (found.map fun c => (place ++ [c.1], c.2)).map Prod.fst =
          (found.map Prod.fst).map fun name => place ++ [name] := by
        rw [List.map_map, List.map_map]
        rfl
      rw [hmap]
      apply List.Nodup.map _ (mem_directoryEntries hfound).1
      intro a b hab
      simpa using hab
    exact List.Nodup.sublist (List.Sublist.map _ List.filter_sublist) hnames

theorem below_nodup (levels : ℕ) (place : List Name) :
    ((self.below levels place).map Prod.fst).Nodup := by
  induction levels generalizing place with
  | zero => exact children_nodup place
  | succ levels ih =>
    rw [below, List.map_append, List.map_flatMap]
    have hdirectories : (self.directories place).Nodup := by
      unfold directories
      rw [List.nodup_reverse]
      exact List.Nodup.sublist (List.Sublist.map _ List.filter_sublist) (children_nodup place)
    apply List.Nodup.append (children_nodup place)
    · rw [List.nodup_flatMap]
      refine ⟨fun directory _ => ih directory, ?_⟩
      apply hdirectories.imp_of_mem
      intro a b ha hb hne c hca hcb
      obtain ⟨left, hleft, rfl⟩ := List.mem_map.mp hca
      obtain ⟨right, hright, heq⟩ := List.mem_map.mp hcb
      obtain ⟨name, rest, hpath⟩ := path_of_mem_below hleft
      obtain ⟨name', rest', hpath'⟩ := path_of_mem_below hright
      obtain ⟨first, rfl⟩ := path_of_mem_directories ha
      obtain ⟨second, rfl⟩ := path_of_mem_directories hb
      rw [hpath, hpath'] at heq
      exact hne (List.append_inj_left heq (by simp)).symm
    · intro c hc hc'
      obtain ⟨child, hchild, rfl⟩ := List.mem_map.mp hc
      obtain ⟨directory, hdirectory, hbelow⟩ := List.mem_flatMap.mp hc'
      obtain ⟨entry, hentry, heq⟩ := List.mem_map.mp hbelow
      obtain ⟨name, hname⟩ := path_of_mem_children hchild
      obtain ⟨name', rest, hpath⟩ := path_of_mem_below hentry
      obtain ⟨first, rfl⟩ := path_of_mem_directories hdirectory
      have hlength := congrArg List.length heq
      rw [hpath, hname] at hlength
      simp only [List.length_append, List.length_cons, List.length_nil] at hlength
      omega

theorem children_length {place : List Name} {found : List (Name × Node Name)}
    (h : directoryEntries tree place = .ok found) :
    (self.children place).length ≤ found.length := by
  rw [children_eq h, shown]
  exact Nat.le_trans (List.length_filter_le _ _) (Nat.le_of_eq (List.length_map _))

theorem flatMap_length {α β ε : Type} {list : α → List β} {bound : α → Except ε ℕ}
    (hbound : ∀ x n, bound x = .ok n → (list x).length ≤ n) {xs : List α} {counts : List ℕ}
    (h : xs.mapM bound = .ok counts) : (xs.flatMap list).length ≤ counts.sum := by
  have hall := mapM_eq_ok.mp h
  clear h
  induction hall with
  | nil => exact Nat.le_refl 0
  | @cons x n xs counts hfirst hrest ih =>
    rw [List.flatMap_cons, List.length_append, List.sum_cons]
    exact Nat.add_le_add (hbound x n hfirst) ih

/-- A walk lists no more entries than it looks at. -/
theorem below_length {levels : ℕ} {place : List Name} {count : ℕ}
    (h : self.visits levels place = .ok count) : (self.below levels place).length ≤ count := by
  induction levels generalizing place count with
  | zero =>
    obtain ⟨found, hfound, h⟩ := bind_eq_ok.mp h
    cases h
    exact children_length hfound
  | succ levels ih =>
    obtain ⟨found, hfound, h⟩ := bind_eq_ok.mp h
    obtain ⟨counts, hcounts, h⟩ := bind_eq_ok.mp h
    cases h
    have hbelow : ((self.directories place).flatMap (self.below levels)).length ≤ counts.sum :=
      flatMap_length (fun _ _ hcount => ih hcount) hcounts
    have hle := @children_length _ _ _ self _ _ hfound
    rw [below, List.length_append]
    omega

/-! ### The walk fills the page -/

section

variable {texts} {matcher : Option (PathBuf Name → Bool)} {resolved : List Name} {depth offset : ℕ}

/-- The values of the selected entries of a list. -/
def values (texts : Texts Name) (self : Roots tree.toFileSystem)
    (matcher : Option (PathBuf Name → Bool)) (resolved : List Name)
    (entries : List (List Name × Node Name)) : List Json :=
  (entries.filter fun c => selects matcher resolved c.1).map fun c => self.value texts c.1 c.2

theorem values_append (front back : List (List Name × Node Name)) :
    self.values texts matcher resolved (front ++ back) =
      self.values texts matcher resolved front ++ self.values texts matcher resolved back := by
  simp [values]

theorem enter_filling (depth : ℕ) (child : List Name) (level : ℕ) (entry : Node Name) (walk : Walk Name) :
    (enter depth child level entry walk).filling = walk.filling ∧
      (enter depth child level entry walk).visited = walk.visited := by
  unfold enter
  split
  · exact ⟨rfl, rfl⟩
  · exact ⟨rfl, rfl⟩

/-- A look at a child puts it on the page when it is shown and selected. -/
theorem look_eq {path : List Name} {level : ℕ} {name : Name} {entry : Node Name}
    {walk : Walk Name} (hmore : walk.more = false) (hvisited : walk.visited < 10000)
    (hseen : walk.seen ≤ walk.visited) :
    ∃ walk', self.look texts matcher resolved depth offset path level name entry walk = .ok walk' ∧
      walk'.seen ≤ walk'.visited ∧
      walk'.filling = fill textBytes 50 6000 offset
        (self.values texts matcher resolved
          (self.shown path [(name, entry)])) walk.filling := by
  have hbound : ¬ walk.visited + 1 > 10000 := by omega
  unfold look
  simp only
  rw [if_neg hbound]
  by_cases hexcluded : self.excludes (path ++ [name]) = true
  · rw [if_pos hexcluded]
    refine ⟨_, rfl, by simp only; omega, ?_⟩
    simp [shown, hexcluded, values, fill, Walk.filling]
  · rw [if_neg hexcluded]
    obtain ⟨hfilling, hvisited'⟩ := enter_filling depth (path ++ [name]) level entry
      { walk with visited := walk.visited + 1 }
    have hmore' := (congrArg Filling.more hfilling).trans hmore
    have hseen' := congrArg Filling.seen hfilling
    change (enter depth (path ++ [name]) level entry
      { walk with visited := walk.visited + 1 }).seen = walk.seen at hseen'
    by_cases hselected : selects matcher resolved (path ++ [name]) = true
    · rw [if_neg (by simp [hselected])]
      obtain ⟨walk', hrecord, hfilling', hle⟩ := Walk.record_eq offset
        (self.value texts (path ++ [name]) entry) hmore' (by omega)
      refine ⟨walk', hrecord, ?_, ?_⟩
      · rw [(Walk.record_pending hrecord).2, hvisited']
        simp only
        omega
      · rw [hfilling', hfilling]
        simp [shown, hexcluded, hselected, values, fill, Walk.filling]
    · rw [if_pos (by simpa using hselected)]
      refine ⟨_, rfl, ?_, ?_⟩
      · rw [hseen', hvisited']
        simp only
        omega
      · rw [hfilling]
        simp [shown, hexcluded, hselected, values, fill, Walk.filling]

/-- What the loop over the children of a level pushes for them. -/
def pushed (depth level : ℕ) (entries : List (List Name × Node Name)) : List (List Name × ℕ) :=
  if level < depth then
    (((entries.filter fun c => c.2 = .directory).map Prod.fst).reverse).map fun c => (c, level + 1)
  else []

theorem pushed_append (depth level : ℕ) (front back : List (List Name × Node Name)) :
    pushed depth level (front ++ back) = pushed depth level back ++ pushed depth level front := by
  unfold pushed
  split
  · simp
  · rfl

theorem pushed_length (depth level : ℕ) (entries : List (List Name × Node Name)) :
    (pushed depth level entries).length ≤ entries.length := by
  unfold pushed
  split
  · simp only [List.length_map, List.length_reverse]
    exact List.length_filter_le _ _
  · exact Nat.zero_le _

theorem look_pushed {path : List Name} {level : ℕ} {name : Name} {entry : Node Name}
    {walk walk' : Walk Name}
    (h : self.look texts matcher resolved depth offset path level name entry walk = .ok walk') :
    walk'.visited = walk.visited + 1 ∧
      walk'.pending = pushed depth level (self.shown path [(name, entry)]) ++ walk.pending := by
  obtain ⟨hvisited, -, hpending⟩ := look_pending h
  refine ⟨hvisited, ?_⟩
  rw [hpending]
  unfold shown pushed enter
  by_cases hexcluded : self.excludes (path ++ [name]) = true
  · simp [hexcluded]
  · by_cases hdirectory : entry = .directory
    · by_cases hlevel : level < depth
      · simp [hexcluded, hdirectory, hlevel]
      · simp [hexcluded, hlevel]
    · simp [hexcluded, hdirectory]

/-- The inner loop fills the page with the children that are shown and selected, and unless
the page is full it has pushed the directories among them. -/
theorem visit_eq {path : List Name} {level : ℕ} {found : List (Name × Node Name)}
    {walk : Walk Name} (hmore : walk.more = false) (hseen : walk.seen ≤ walk.visited)
    (hvisited : walk.visited + found.length ≤ 10000) :
    ∃ walk', self.visit texts matcher resolved depth offset path level found walk = .ok walk' ∧
      walk'.seen ≤ walk'.visited ∧
      walk'.filling = fill textBytes 50 6000 offset
        (self.values texts matcher resolved (self.shown path found)) walk.filling ∧
      (walk'.more = false → walk'.visited = walk.visited + found.length ∧
        walk'.pending = pushed depth level (self.shown path found) ++ walk.pending) := by
  induction found generalizing walk with
  | nil => exact ⟨walk, rfl, hseen, rfl, fun _ => ⟨rfl, by simp [pushed, shown]⟩⟩
  | cons c found ih =>
    obtain ⟨name, entry⟩ := c
    rw [List.length_cons] at hvisited
    have hshown : self.shown path ((name, entry) :: found) =
        self.shown path [(name, entry)] ++ self.shown path found :=
      List.filter_append [(path ++ [name], entry)] _
    obtain ⟨looked, hlook, hseen', hfilling⟩ := @look_eq _ _ _ texts self matcher resolved depth
      offset path level name entry walk hmore (by omega) hseen
    obtain ⟨hvisited', hpending⟩ := look_pushed hlook
    rw [hshown, values_append, fill_append, ← hfilling]
    cases hfull : looked.more with
    | true =>
      refine ⟨looked, ?_, hseen', (fill_more _ _ hfull).symm, ?_⟩
      · rw [visit, hlook]
        exact if_pos hfull
      · intro hnone
        rw [hfull] at hnone
        cases hnone
    | false =>
      obtain ⟨walk', hvisit, hseen'', hfilling', hrest⟩ := ih hfull hseen' (by omega)
      refine ⟨walk', ?_, hseen'', hfilling', ?_⟩
      · rw [visit, hlook]
        change (if looked.more = true then _ else _) = _
        rw [if_neg (by simp [hfull])]
        exact hvisit
      · intro hnone
        obtain ⟨hcount, hpushed⟩ := hrest hnone
        refine ⟨by rw [hcount, List.length_cons]; omega, ?_⟩
        rw [hpushed, hpending, pushed_append, List.append_assoc]

/-- All entries below a pending directory. -/
def ahead (self : Roots tree.toFileSystem) (depth : ℕ) (p : List Name × ℕ) :
    List (List Name × Node Name) := self.below (depth - p.2) p.1

def visitsAhead (self : Roots tree.toFileSystem) (depth : ℕ) (p : List Name × ℕ) :
    Except MachineError ℕ := self.visits (depth - p.2) p.1

theorem pushed_of_lt {level : ℕ} (h : level < depth) (path : List Name) :
    pushed depth level (self.children path) =
      (self.directories path).map fun c => (c, level + 1) := if_pos h

theorem ahead_eq (path : List Name) (level : ℕ) :
    self.ahead depth (path, level) = self.children path ++
      (pushed depth level (self.children path)).flatMap (self.ahead depth) := by
  unfold ahead
  by_cases hlevel : level < depth
  · have hdepth : depth - level = (depth - (level + 1)) + 1 := by omega
    rw [pushed_of_lt hlevel, List.flatMap_map]
    simp only [hdepth]
    rfl
  · have hdepth : depth - level = 0 := by omega
    simp only [hdepth]
    rw [pushed, if_neg hlevel, List.flatMap_nil, List.append_nil]
    rfl

theorem visitsAhead_eq_ok {path : List Name} {level count : ℕ}
    (h : self.visitsAhead depth (path, level) = .ok count) :
    ∃ found counts, directoryEntries tree path = .ok found ∧
      (pushed depth level (self.children path)).mapM (self.visitsAhead depth) = .ok counts ∧
      count = found.length + counts.sum := by
  unfold visitsAhead at h ⊢
  by_cases hlevel : level < depth
  · have hdepth : depth - level = (depth - (level + 1)) + 1 := by omega
    simp only [hdepth] at h
    obtain ⟨found, hfound, h⟩ := bind_eq_ok.mp h
    obtain ⟨counts, hcounts, h⟩ := bind_eq_ok.mp h
    cases h
    refine ⟨found, counts, hfound, ?_, rfl⟩
    rw [pushed_of_lt hlevel, List.mapM_map]
    exact hcounts
  · have hdepth : depth - level = 0 := by omega
    simp only [hdepth] at h
    obtain ⟨found, hfound, h⟩ := bind_eq_ok.mp h
    cases h
    refine ⟨found, [], hfound, ?_, rfl⟩
    rw [pushed, if_neg hlevel]
    rfl

theorem walkTree_nil {walk : Walk Name} (h : walk.pending = []) :
    self.walkTree texts matcher resolved depth offset walk = .ok walk := by
  rw [walkTree]
  split
  · rfl
  · rename_i hpending
    rw [h] at hpending
    cases hpending

theorem walkTree_cons {walk walk' : Walk Name} {path : List Name} {level : ℕ}
    {pending : List (List Name × ℕ)} {found : List (Name × Node Name)}
    (h : walk.pending = (path, level) :: pending) (hfound : directoryEntries tree path = .ok found)
    (hvisit : self.visit texts matcher resolved depth offset path level found
      { walk with pending := pending } = .ok walk') :
    self.walkTree texts matcher resolved depth offset walk =
      if walk'.more then .ok walk'
      else self.walkTree texts matcher resolved depth offset walk' := by
  conv_lhs => rw [walkTree]
  split
  · rename_i hpending
    rw [h] at hpending
    cases hpending
  · rename_i hpending
    rw [h] at hpending
    cases hpending
    rw [hfound]
    simp only
    split
    · rename_i hvisit'
      rw [hvisit] at hvisit'
      cases hvisit'
    · rename_i hvisit'
      rw [hvisit] at hvisit'
      cases hvisit'
      rfl

/-- The loops fill the page with all that lies ahead of the pending directories. -/
theorem walkTree_eq {walk : Walk Name} {counts : List ℕ} (hmore : walk.more = false)
    (hseen : walk.seen ≤ walk.visited)
    (hcounts : walk.pending.mapM (self.visitsAhead depth) = .ok counts)
    (hbound : walk.visited + counts.sum ≤ 10000) :
    ∃ walk', self.walkTree texts matcher resolved depth offset walk = .ok walk' ∧
      walk'.filling = fill textBytes 50 6000 offset
        (self.values texts matcher resolved (walk.pending.flatMap (self.ahead depth)))
        walk.filling := by
  obtain ⟨size, hsize⟩ : ∃ size, size = counts.sum + walk.pending.length := ⟨_, rfl⟩
  induction size using Nat.strongRecOn generalizing walk counts with
  | ind size ih =>
    cases hpending : walk.pending with
    | nil => exact ⟨walk, walkTree_nil hpending, by simp [values, fill]⟩
    | cons p pending =>
      obtain ⟨path, level⟩ := p
      rw [hpending, List.mapM_cons] at hcounts
      obtain ⟨count, hcount, hcounts⟩ := bind_eq_ok.mp hcounts
      obtain ⟨rest, hrest, hcounts⟩ := bind_eq_ok.mp hcounts
      cases hcounts
      obtain ⟨found, below, hfound, hbelow, rfl⟩ := visitsAhead_eq_ok hcount
      rw [List.sum_cons] at hbound hsize
      rw [hpending, List.length_cons] at hsize
      obtain ⟨walk', hvisit, hseen', hfilling, hpushed⟩ := @visit_eq _ _ _ texts self matcher
        resolved depth offset path level found { walk with pending := pending } hmore hseen
        (by simp only; omega)
      rw [← children_eq hfound] at hfilling hpushed
      rw [walkTree_cons hpending hfound hvisit, List.flatMap_cons, ahead_eq, List.append_assoc,
        values_append, fill_append]
      change walk'.filling = fill textBytes 50 6000 offset
        (self.values texts matcher resolved (self.children path)) walk.filling at hfilling
      rw [← hfilling]
      cases hfull : walk'.more with
      | true =>
        rw [if_pos rfl]
        exact ⟨walk', rfl, (fill_more _ _ hfull).symm⟩
      | false =>
        obtain ⟨hvisited, hpending'⟩ := hpushed hfull
        simp only at hvisited hpending'
        have hcounts' : walk'.pending.mapM (self.visitsAhead depth) = .ok (below ++ rest) := by
          rw [hpending', List.mapM_append, hbelow, hrest]
          rfl
        have hlength := Nat.le_trans (pushed_length depth level (self.children path))
          (children_length hfound)
        rw [if_neg Bool.false_ne_true, ← List.flatMap_append, ← hpending']
        refine ih ((below ++ rest).sum + walk'.pending.length) ?_ hfull hseen' hcounts' ?_ rfl
        · rw [hpending', List.length_append, List.sum_append]
          omega
        · rw [hvisited, List.sum_append]
          omega

/-- The entries that a listing selects below a directory. -/
def listed (self : Roots tree.toFileSystem) (matcher : Option (PathBuf Name → Bool)) (depth : ℕ)
    (resolved : List Name) : List (List Name × Node Name) :=
  (self.below depth resolved).filter fun c => selects matcher resolved c.1

/-- One call for a page, at an offset inside the listing. -/
theorem list_eq {path r : PathBuf Name} {glob : Option String} {count : ℕ} (hdepth : depth ≤ 8)
    (hglob : ∀ pattern ∈ glob, pattern.utf8ByteSize ≤ 256)
    (hmatcher : glob.mapM texts.compile = .ok matcher) (hr : self.resolve path false = .ok r)
    (hcount : self.visits depth r.names = .ok count) (hbound : count ≤ 10000)
    (hoffset : offset ≤ (self.listed matcher depth r.names).length) :
    ∃ page, self.list texts path depth offset glob = .ok page ∧
      page.reply =
        let values := (self.listed matcher depth r.names).map fun c => self.value texts c.1 c.2
        let filled := fill textBytes 50 6000 offset values .empty
        (filled.items, filled.seen, filled.more) := by
  have hlength : (self.listed matcher depth r.names).length ≤ count :=
    Nat.le_trans (List.length_filter_le _ _) (below_length hcount)
  have hguard : ¬ ((decide (depth > 8) || decide (offset > 10000) ||
      glob.any fun pattern => decide (pattern.utf8ByteSize > 256)) = true) := by
    have hno : (glob.any fun pattern => decide (pattern.utf8ByteSize > 256)) = false := by
      cases glob with
      | none => rfl
      | some pattern =>
        have hle := hglob pattern rfl
        simp only [Option.any_some, decide_eq_false_iff_not]
        omega
    rw [hno, Bool.or_false, Bool.or_eq_true, decide_eq_true_eq, decide_eq_true_eq]
    omega
  let start : Walk Name := ⟨[(r.names, 0)], [], 0, 0, 0, false⟩
  have hcounts : start.pending.mapM (self.visitsAhead depth) = .ok [count] := by
    rw [List.mapM_cons, visitsAhead, Nat.sub_zero, hcount]
    rfl
  obtain ⟨walk', hwalk, hfilling⟩ := @walkTree_eq _ _ _ texts self matcher r.names depth offset
    start [count] rfl (Nat.le_refl 0) hcounts (by simpa [start] using hbound)
  refine ⟨⟨walk'.entries, walk'.seen, walk'.more⟩, ?_, ?_⟩
  · unfold list
    rw [if_neg hguard]
    simp only [hmatcher, hr]
    change (self.walkTree texts matcher r.names depth offset start >>= _) = _
    rw [hwalk]
    rfl
  · have hall : start.pending.flatMap (self.ahead depth) = self.below depth r.names := by
      simp [start, ahead]
    rw [hall] at hfilling
    change (walk'.filling.items, walk'.filling.seen, walk'.filling.more) = _
    rw [hfilling]
    rfl

end

/-- Listing pages cover a tree exactly. Calls from offset 0 on, each at the offset that the one
before returned, end, and in one way. The pages put together are the values of one list of
entries, which does not depend on the breaks; no page is empty unless that list is; and the list
has each selected entry of the tree within the depth once, and no excluded one. -/
theorem pages_cover (texts : Texts Name) (self : Roots tree.toFileSystem) {path r : PathBuf Name}
    {depth count : ℕ} {glob : Option String} {matcher : Option (PathBuf Name → Bool)}
    (hdepth : depth ≤ 8) (hglob : ∀ pattern ∈ glob, pattern.utf8ByteSize ≤ 256)
    (hmatcher : glob.mapM texts.compile = .ok matcher) (hr : self.resolve path false = .ok r)
    (hcount : self.visits depth r.names = .ok count) (hbound : count ≤ 10000) :
    (∃ replies : List (Reply Json),
      Calls (fun offset => (self.list texts path depth offset glob).toOption.map Page.reply) 0
        replies ∧
      (∀ other, Calls (fun offset =>
        (self.list texts path depth offset glob).toOption.map Page.reply) 0 other →
          other = replies) ∧
      replies.flatMap Prod.fst =
        (self.listed matcher depth r.names).map (fun c => self.value texts c.1 c.2) ∧
      (self.listed matcher depth r.names ≠ [] → ∀ reply ∈ replies, reply.1 ≠ [])) ∧
    ((self.listed matcher depth r.names).map Prod.fst).Nodup ∧
    ∀ child entry, (child, entry) ∈ self.listed matcher depth r.names ↔
      (∃ suffix, self.Below depth r.names child entry suffix) ∧
        selects matcher r.names child = true := by
  have hcall (offset : ℕ)
      (hoffset : offset ≤ ((self.listed matcher depth r.names).map
        fun c => self.value texts c.1 c.2).length) :
      (self.list texts path depth offset glob).toOption.map Page.reply =
        let filled := fill textBytes 50 6000 offset
          ((self.listed matcher depth r.names).map fun c => self.value texts c.1 c.2) .empty
        some (filled.items, filled.seen, filled.more) := by
    rw [List.length_map] at hoffset
    obtain ⟨page, hpage, hreply⟩ := list_eq hdepth hglob hmatcher hr hcount hbound hoffset
    rw [hpage]
    exact congrArg some hreply
  obtain ⟨replies, hcalls, hitems, hnonempty⟩ := calls_cover (by omega) hcall (Nat.zero_le _)
  rw [List.drop_zero] at hitems hnonempty
  refine ⟨⟨replies, hcalls, fun other hother => hother.unique hcalls, hitems, ?_⟩, ?_, ?_⟩
  · intro hne
    exact hnonempty (by simpa using hne)
  · exact List.Nodup.sublist (List.Sublist.map _ List.filter_sublist) (below_nodup depth r.names)
  · intro child entry
    rw [listed, List.mem_filter, mem_below hcount]

/-- A directory at /1 with the files 0 to 59, more than a page has room for. -/
def sixtyFiles : DirectoryTree ℕ where
  node
    | [] | [1] => .ok .directory
    | [1, name] => if name < 60 then .ok .file else .error .notFound
    | _ => .error .notFound
  cwd := []
  root_directory := rfl
  cwd_reached := .root
  readDir
    | [] => .ok [(1, .directory)]
    | [1] => .ok ((List.range 60).map (·, .file))
    | _ => .error .notADirectory
  readDir_nodup := by
    intro place found hfound
    split at hfound
    · cases hfound
      simp
    · cases hfound
      decide
    · cases hfound
  mem_readDir := by
    intro place found hfound name entry
    split at hfound
    · cases hfound
      grind
    · cases hfound
      grind
    · cases hfound

def sixtyRoots : Roots sixtyFiles.toFileSystem where
  roots := [.ofNames [1]]
  excluded := []
  roots_canonical := by decide
  roots_directories := by decide
  excluded_settled := by simp

/-- Names in decimal, and the glob of one component. -/
def plainTexts : Texts ℕ where
  compile pattern :=
    if pattern = "*" then .ok fun path => path.names.length = 1
    else .error (.message "unsupported glob")
  toStringLossy path := "/".intercalate (path.names.map toString)

theorem sixty_files_listed : ∃ replies : List (Reply Json),
    Calls (fun offset => (sixtyRoots.list plainTexts (.ofNames [1]) 8 offset
      (some "*")).toOption.map Page.reply) 0 replies ∧
    ∀ reply ∈ replies, reply.1 ≠ [] := by
  have hfound : directoryEntries sixtyFiles [1] = .ok ((List.range 60).map (·, .file)) :=
    congrArg Except.ok (List.mergeSort_of_pairwise (by decide))
  have hnone : sixtyRoots.directories [1] = [] := by
    rw [directories, children_eq hfound]
    rfl
  have hcount : sixtyRoots.visits 8 (PathBuf.ofNames [1]).names = .ok 60 := by
    rw [PathBuf.names_ofNames, visits, hfound, hnone]
    rfl
  have hglob : ∀ pattern ∈ some "*", pattern.utf8ByteSize ≤ 256 := by
    intro pattern hpattern
    cases hpattern
    decide
  have hr : sixtyRoots.resolve (.ofNames [1]) false = .ok (.ofNames [1]) := rfl
  obtain ⟨⟨replies, hcalls, -, -, hnonempty⟩, -, hmem⟩ :=
    pages_cover plainTexts sixtyRoots (by omega) hglob rfl hr hcount (by omega)
  refine ⟨replies, hcalls, hnonempty ?_⟩
  apply List.ne_nil_of_mem
  exact (hmem [1, 2] .file).mpr ⟨⟨[2], .direct rfl rfl⟩, rfl⟩

end Roots

end NyxId.MachineFiles
