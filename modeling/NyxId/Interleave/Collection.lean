import Mathlib.Data.List.AList
import Mathlib.Data.List.Induction
import Mathlib.Algebra.BigOperators.Group.List.Basic
import Mathlib.Algebra.Order.BigOperators.Group.List
import Mathlib.Algebra.Order.Ring.Int

/-!
Collections of documents under unique keys, and sums over them. A write to one
document changes a sum by the difference of that document's terms.
-/

namespace Interleave

abbrev Collection (K V : Type) := AList fun _ : K => V

namespace Collection

variable {K V : Type} [DecidableEq K]

/-- After a write a document is the written one, or an earlier one under another key. -/
theorem lookup_insert_cases {docs : Collection K V} {key other : K} {value found : V}
    (h : (docs.insert key value).lookup other = some found) :
    other = key ∧ found = value ∨ other ≠ key ∧ docs.lookup other = some found := by
  by_cases hother : other = key
  · subst hother
    rw [AList.lookup_insert] at h
    exact Or.inl ⟨rfl, (Option.some.inj h).symm⟩
  · rw [AList.lookup_insert_ne hother] at h
    exact Or.inr ⟨hother, h⟩

/-- The sum of a quantity over all documents. -/
def sumOf (f : K → V → ℤ) (m : Collection K V) : ℤ :=
  (m.entries.map fun e => f e.1 e.2).sum

/-- The term of one key; an absent document counts nothing. -/
def term (f : K → V → ℤ) (m : Collection K V) (k : K) : ℤ :=
  (m.lookup k).elim 0 (f k)

private theorem sum_kerase (f : K → V → ℤ) (k : K) (l : List (Sigma fun _ : K => V)) :
    ((l.kerase k).map fun e => f e.1 e.2).sum =
      (l.map fun e => f e.1 e.2).sum - (l.dlookup k).elim 0 (f k) := by
  induction l with
  | nil => simp
  | cons e rest ih =>
    obtain ⟨key, value⟩ := e
    by_cases hkey : k = key
    · subst hkey
      simp
    · rw [List.kerase_cons_ne hkey, List.dlookup_cons_ne _ _ hkey, List.map_cons,
        List.map_cons, List.sum_cons, List.sum_cons, ih]
      omega

/-- Writing a document replaces its term in the sum. -/
theorem sumOf_insert (f : K → V → ℤ) (m : Collection K V) (k : K) (v : V) :
    sumOf f (m.insert k v) = sumOf f m - term f m k + f k v := by
  have h := sum_kerase f k m.entries
  simp only [sumOf, term, AList.lookup, AList.entries_insert, List.map_cons, List.sum_cons, h]
  omega

omit [DecidableEq K] in
theorem sumOf_add (f g : K → V → ℤ) (m : Collection K V) :
    sumOf (fun k v => f k v + g k v) m = sumOf f m + sumOf g m := List.sum_map_add

theorem sumOf_congr (f g : K → V → ℤ) (m : Collection K V)
    (h : ∀ k v, m.lookup k = some v → f k v = g k v) : sumOf f m = sumOf g m := by
  simp only [sumOf]
  congr 1
  apply List.map_congr_left
  intro e he
  exact h e.1 e.2 (AList.mem_lookup_iff.mpr he)

theorem sumOf_eq_zero (f : K → V → ℤ) (m : Collection K V)
    (h : ∀ k v, m.lookup k = some v → f k v = 0) : sumOf f m = 0 := by
  apply List.sum_eq_zero
  intro x hx
  obtain ⟨e, he, rfl⟩ := List.mem_map.mp hx
  exact h e.1 e.2 (AList.mem_lookup_iff.mpr he)

theorem sumOf_nonneg (f : K → V → ℤ) (m : Collection K V)
    (h : ∀ k v, m.lookup k = some v → 0 ≤ f k v) : 0 ≤ sumOf f m := by
  apply List.sum_nonneg
  intro x hx
  obtain ⟨e, he, rfl⟩ := List.mem_map.mp hx
  exact h e.1 e.2 (AList.mem_lookup_iff.mpr he)

end Collection

section

variable {V : Type} (number : V → ℤ)

/-- The first document with the largest number: a sorted query for one document. -/
def newest (docs : List V) : Option V :=
  docs.foldl (fun best doc => match best with
    | none => some doc
    | some other => if number other < number doc then some doc else some other) none

def oldest (docs : List V) : Option V := newest (fun doc => -number doc) docs

variable {number}

theorem newest_concat (docs : List V) (doc : V) :
    newest number (docs ++ [doc]) = match newest number docs with
      | none => some doc
      | some other => if number other < number doc then some doc else some other := by
  unfold newest
  rw [List.foldl_append, List.foldl_cons, List.foldl_nil]

theorem newest_mem {docs : List V} {doc : V} (h : newest number docs = some doc) : doc ∈ docs := by
  induction docs using List.reverseRecOn generalizing doc with
  | nil => cases h
  | append_singleton docs last ih =>
    rw [newest_concat] at h
    rw [List.mem_append, List.mem_singleton]
    cases hbest : newest number docs with
    | none =>
      rw [hbest] at h
      exact .inr (Option.some.inj h).symm
    | some other =>
      rw [hbest] at h
      dsimp only at h
      split at h
      · exact .inr (Option.some.inj h).symm
      · obtain rfl := Option.some.inj h
        exact .inl (ih hbest)

theorem newest_eq_none {docs : List V} (h : newest number docs = none) : docs = [] := by
  induction docs using List.reverseRecOn with
  | nil => rfl
  | append_singleton docs last =>
    rw [newest_concat] at h
    split at h
    · cases h
    · split at h <;> cases h

/-- No document has a larger number than the newest one. -/
theorem le_newest {docs : List V} {doc other : V} (h : newest number docs = some doc)
    (hmem : other ∈ docs) : number other ≤ number doc := by
  induction docs using List.reverseRecOn generalizing doc with
  | nil => cases hmem
  | append_singleton docs last ih =>
    rw [newest_concat] at h
    rw [List.mem_append, List.mem_singleton] at hmem
    cases hbest : newest number docs with
    | none =>
      rw [hbest] at h
      rw [newest_eq_none hbest] at hmem
      obtain rfl := Option.some.inj h
      rcases hmem with hmem | rfl
      · cases hmem
      · exact le_refl _
    | some best =>
      rw [hbest] at h
      dsimp only at h
      split at h
      · rename_i hlt
        obtain rfl := Option.some.inj h
        rcases hmem with hmem | rfl
        · have hle := ih hbest hmem
          omega
        · exact le_refl _
      · rename_i hge
        obtain rfl := Option.some.inj h
        rcases hmem with hmem | rfl
        · exact ih hbest hmem
        · omega

theorem oldest_mem {docs : List V} {doc : V} (h : oldest number docs = some doc) : doc ∈ docs :=
  newest_mem h

end

/-!
State that a process keeps in memory and in a file, and tables whose entries change in place.
-/

/-- How a replacement of the file ends; it can take effect and still fail. -/
inductive Write where
  | done
  | failed
  | unsynced
  deriving DecidableEq

structure Storage (D : Type) where
  memory : D
  disk : D

namespace Storage

variable {D : Type} {s : Storage D} {write : Write} {next : D} {P : D → Prop} {le : D → D → Prop}

/-- The file first: memory follows when the file has been replaced. -/
def put (s : Storage D) (write : Write) (next : D) : Storage D :=
  match write with
  | .done => ⟨next, next⟩
  | .failed => s
  | .unsynced => ⟨s.memory, next⟩

/-- Memory first, whatever becomes of the file. -/
def assign (s : Storage D) (write : Write) (next : D) : Storage D :=
  ⟨next, if write = .failed then s.disk else next⟩

/-- What a restart finds. -/
def reopen (s : Storage D) : Storage D := ⟨s.disk, s.disk⟩

/-- Of both copies. -/
def Both (P : D → Prop) (s : Storage D) : Prop := P s.memory ∧ P s.disk

theorem Both.put (h : s.Both P) (hnext : P next) : (s.put write next).Both P := by
  cases write with
  | done => exact ⟨hnext, hnext⟩
  | failed => exact h
  | unsynced => exact ⟨h.1, hnext⟩

theorem Both.assign (h : s.Both P) (hnext : P next) : (s.assign write next).Both P := by
  refine ⟨hnext, ?_⟩
  unfold Storage.assign
  dsimp only
  split
  · exact h.2
  · exact hnext

theorem Both.reopen (h : s.Both P) : s.reopen.Both P := ⟨h.2, h.2⟩

/-- The file has everything that memory has. -/
def Ahead (le : D → D → Prop) (s : Storage D) : Prop := le s.memory s.disk

/-- Memory only goes on, and the file stays ahead of it. -/
structure Goes (le : D → D → Prop) (s s' : Storage D) : Prop where
  memory : le s.memory s'.memory
  ahead : s'.Ahead le

theorem Goes.put (hrefl : ∀ d, le d d) (h : s.Ahead le) (hnext : le s.memory next) :
    Goes le s (s.put write next) := by
  cases write with
  | done => exact ⟨hnext, hrefl next⟩
  | failed => exact ⟨hrefl _, h⟩
  | unsynced => exact ⟨hrefl _, hnext⟩

theorem Goes.assign (htrans : ∀ a b c, le a b → le b c → le a c) (h : s.Ahead le)
    (hnext : le s.memory next) (hback : le next s.memory) : Goes le s (s.assign write next) := by
  refine ⟨hnext, ?_⟩
  unfold Ahead Storage.assign
  dsimp only
  split
  · exact htrans _ _ _ hback h
  · exact htrans _ _ _ hback hnext

theorem Goes.reopen (hrefl : ∀ d, le d d) (h : s.Ahead le) : Goes le s s.reopen :=
  ⟨h, hrefl s.disk⟩

end Storage

namespace Collection

variable {K V J : Type} [DecidableEq K]

def mapValues (f : K → V → V) (m : Collection K V) : Collection K V :=
  ⟨m.entries.map (Sigma.map id f), List.NodupKeys.map₂ f m.entries m.nodupKeys⟩

@[simp]
theorem lookup_mapValues (f : K → V → V) (m : Collection K V) (k : K) :
    (m.mapValues f).lookup k = (m.lookup k).map (f k) :=
  List.dlookup_map₂ k

def retain (p : K → V → Bool) (m : Collection K V) : Collection K V :=
  ⟨m.entries.filter fun e => p e.1 e.2, m.nodupKeys.sublist List.filter_sublist⟩

@[simp]
theorem lookup_retain (p : K → V → Bool) (m : Collection K V) (k : K) :
    (m.retain p).lookup k = (m.lookup k).filter (p k) := by
  ext v
  change v ∈ (m.retain p).lookup k ↔ v ∈ (m.lookup k).filter (p k)
  rw [Option.mem_filter_iff, AList.mem_lookup_iff, AList.mem_lookup_iff]
  exact List.mem_filter

/-- What the entries contribute, in the order of the table. -/
def listed (g : K → V → Option J) (m : Collection K V) : List J :=
  m.entries.filterMap fun e => g e.1 e.2

theorem listed_insert {g : K → V → Option J} {m : Collection K V} {k : K} (v : V)
    (hnew : m.lookup k = none) : listed g (m.insert k v) = (g k v).toList ++ listed g m := by
  unfold listed
  rw [AList.entries_insert_of_notMem (AList.lookup_eq_none.mp hnew), List.filterMap_cons]
  cases g k v <;> rfl

omit [DecidableEq K] in
theorem listed_mapValues {g : K → V → Option J} {f : K → V → V} (m : Collection K V)
    (hsame : ∀ k v, g k (f k v) = g k v) : listed g (m.mapValues f) = listed g m := by
  unfold listed mapValues
  rw [List.filterMap_map]
  exact List.filterMap_congr fun e _ => hsame e.1 e.2

private theorem filterMap_kerase (g : K → V → Option J) (k : K) (l : List (Sigma fun _ : K => V))
    (hnone : ∀ v, l.dlookup k = some v → g k v = none) :
    (l.kerase k).filterMap (fun e => g e.1 e.2) = l.filterMap fun e => g e.1 e.2 := by
  induction l with
  | nil => rfl
  | cons e rest ih =>
    obtain ⟨key, value⟩ := e
    by_cases hkey : k = key
    · subst hkey
      have hvalue : g k value = none := hnone value (List.dlookup_cons_eq _ _ _)
      simp [hvalue]
    · rw [List.dlookup_cons_ne _ _ hkey] at hnone
      rw [List.kerase_cons_ne hkey, List.filterMap_cons, List.filterMap_cons, ih hnone]

theorem listed_erase {g : K → V → Option J} (m : Collection K V) {k : K}
    (hnone : ∀ v, m.lookup k = some v → g k v = none) : listed g (m.erase k) = listed g m :=
  filterMap_kerase g k m.entries hnone

omit [DecidableEq K] in
/-- What is retained and what is not make up the table. -/
theorem listed_retain (g : K → V → Option J) (p : K → V → Bool) (m : Collection K V) :
    (listed g (m.retain p) ++ listed g (m.retain fun k v => !p k v)).Perm (listed g m) := by
  unfold listed retain
  rw [← List.filterMap_append]
  exact (List.filter_append_perm _ _).filterMap _

end Collection

end Interleave
