import Mathlib.Order.Lattice
import Mathlib.Data.List.Basic
import Mathlib.Tactic.Common

/-!
Maps whose entries are in the order of their keys.
-/

namespace Interleave

variable {K V : Type} [LinearOrder K]

def insertEntry (key : K) (value : V) : List (K × V) → List (K × V)
  | [] => [(key, value)]
  | (other, old) :: rest =>
    if key < other then (key, value) :: (other, old) :: rest
    else if key = other then (key, value) :: rest
    else (other, old) :: insertEntry key value rest

theorem mem_insertEntry {key : K} {value : V} {entries : List (K × V)} {entry : K × V}
    (h : entry ∈ insertEntry key value entries) : entry = (key, value) ∨ entry ∈ entries := by
  induction entries with
  | nil => exact Or.inl (List.mem_singleton.mp h)
  | cons head rest ih =>
    obtain ⟨other, old⟩ := head
    unfold insertEntry at h
    split at h
    · exact List.mem_cons.mp h
    split at h
    · exact (List.mem_cons.mp h).imp_right (List.mem_cons_of_mem _)
    · rcases List.mem_cons.mp h with rfl | hrest
      · exact Or.inr List.mem_cons_self
      · exact (ih hrest).imp_right (List.mem_cons_of_mem _)

theorem pairwise_insertEntry {key : K} {value : V} {entries : List (K × V)}
    (h : entries.Pairwise fun a b => a.1 < b.1) :
    (insertEntry key value entries).Pairwise fun a b => a.1 < b.1 := by
  induction entries with
  | nil => exact List.pairwise_singleton _ _
  | cons head rest ih =>
    obtain ⟨other, old⟩ := head
    obtain ⟨hhead, hrest⟩ := List.pairwise_cons.mp h
    unfold insertEntry
    split
    · rename_i hlt
      refine List.pairwise_cons.mpr ⟨fun entry hentry => ?_, h⟩
      rcases List.mem_cons.mp hentry with rfl | hentry
      · exact hlt
      · exact lt_trans hlt (hhead entry hentry)
    split
    · rename_i heq
      subst heq
      exact List.pairwise_cons.mpr ⟨hhead, hrest⟩
    · rename_i hge hne
      refine List.pairwise_cons.mpr ⟨fun entry hentry => ?_, ih hrest⟩
      rcases mem_insertEntry hentry with rfl | hentry
      · exact lt_of_le_of_ne (not_lt.mp hge) (Ne.symm hne)
      · exact hhead entry hentry

structure SortedMap (K V : Type) [LinearOrder K] where
  entries : List (K × V)
  sorted : entries.Pairwise fun a b => a.1 < b.1

namespace SortedMap

def empty : SortedMap K V := ⟨[], List.Pairwise.nil⟩

def size (m : SortedMap K V) : ℕ := m.entries.length

def get (m : SortedMap K V) (key : K) : Option V := m.entries.lookup key

def insert (m : SortedMap K V) (key : K) (value : V) : SortedMap K V :=
  ⟨insertEntry key value m.entries, pairwise_insertEntry m.sorted⟩

def remove (m : SortedMap K V) (key : K) : SortedMap K V :=
  ⟨m.entries.filter fun entry => entry.1 ≠ key, m.sorted.filter _⟩

def values (m : SortedMap K V) : List V := m.entries.map Prod.snd

def lastKey (m : SortedMap K V) : Option K := m.entries.getLast?.map Prod.fst

def mapValues {W : Type} (m : SortedMap K V) (f : V → W) : SortedMap K W :=
  ⟨m.entries.map fun entry => (entry.1, f entry.2), by
    rw [List.pairwise_map]
    exact m.sorted⟩

theorem lookup_eq_some_iff {entries : List (K × V)} {key : K} {value : V}
    (h : entries.Pairwise fun a b => a.1 < b.1) :
    entries.lookup key = some value ↔ (key, value) ∈ entries := by
  induction entries with
  | nil => simp
  | cons head rest ih =>
    obtain ⟨other, old⟩ := head
    obtain ⟨hhead, hrest⟩ := List.pairwise_cons.mp h
    rw [List.lookup_cons, List.mem_cons]
    by_cases hkey : key = other
    · subst hkey
      rw [beq_self_eq_true]
      constructor
      · intro heq
        rw [Option.some.inj heq]
        exact Or.inl rfl
      · rintro (heq | hmem)
        · rw [(Prod.mk.inj heq).2]
        · exact absurd (hhead _ hmem) (lt_irrefl _)
    · rw [beq_eq_false_iff_ne.mpr hkey]
      show rest.lookup key = some value ↔ _
      rw [ih hrest]
      constructor
      · exact Or.inr
      · rintro (heq | hmem)
        · exact absurd (Prod.mk.inj heq).1 hkey
        · exact hmem

theorem get_eq_some_iff {m : SortedMap K V} {key : K} {value : V} :
    m.get key = some value ↔ (key, value) ∈ m.entries := lookup_eq_some_iff m.sorted

theorem mem_insertEntry_self (key : K) (value : V) (entries : List (K × V)) :
    (key, value) ∈ insertEntry key value entries := by
  induction entries with
  | nil => exact List.mem_singleton_self _
  | cons head rest ih =>
    obtain ⟨other, old⟩ := head
    unfold insertEntry
    split
    · exact List.mem_cons_self
    split
    · exact List.mem_cons_self
    · exact List.mem_cons_of_mem _ ih

@[simp] theorem get_insert_self (m : SortedMap K V) (key : K) (value : V) :
    (m.insert key value).get key = some value :=
  get_eq_some_iff.mpr (mem_insertEntry_self key value m.entries)

theorem get_insert_ne {m : SortedMap K V} {key other : K} {value : V} (hne : other ≠ key) :
    (m.insert key value).get other = m.get other := by
  unfold get insert
  dsimp only
  induction m.entries with
  | nil =>
    unfold insertEntry
    rw [List.lookup_cons, beq_eq_false_iff_ne.mpr hne]
  | cons head rest ih =>
    obtain ⟨first, old⟩ := head
    unfold insertEntry
    split
    · rw [List.lookup_cons, beq_eq_false_iff_ne.mpr hne]
    split
    · rename_i heq
      subst heq
      rw [List.lookup_cons, List.lookup_cons, beq_eq_false_iff_ne.mpr hne]
    · rw [List.lookup_cons, List.lookup_cons, ih]

/-- A key above all others is inserted last. -/
theorem insertEntry_last {key : K} {value : V} {entries : List (K × V)}
    (h : ∀ entry ∈ entries, entry.1 < key) : insertEntry key value entries = entries ++ [(key, value)] := by
  induction entries with
  | nil => rfl
  | cons head rest ih =>
    obtain ⟨other, old⟩ := head
    have hlt : other < key := h _ List.mem_cons_self
    unfold insertEntry
    rw [if_neg (not_lt.mpr hlt.le), if_neg hlt.ne', ih fun entry hentry =>
      h entry (List.mem_cons_of_mem _ hentry)]
    rfl

/-- A new key adds an entry; a written one stays in its place. -/
theorem length_insertEntry_le (key : K) (value : V) (entries : List (K × V)) :
    (insertEntry key value entries).length ≤ entries.length + 1 := by
  induction entries with
  | nil => exact Nat.le_refl _
  | cons head rest ih =>
    obtain ⟨other, old⟩ := head
    unfold insertEntry
    split
    · exact Nat.le_refl _
    split
    · exact Nat.le_succ _
    · exact Nat.succ_le_succ ih

theorem insertEntry_of_mem {key : K} (value : V) {old : V} {entries : List (K × V)}
    (hsorted : entries.Pairwise fun a b => a.1 < b.1) (hmem : (key, old) ∈ entries) :
    ∃ front back, entries = front ++ (key, old) :: back ∧
      insertEntry key value entries = front ++ (key, value) :: back := by
  induction entries with
  | nil => cases hmem
  | cons head rest ih =>
    obtain ⟨other, first⟩ := head
    obtain ⟨hhead, hrest⟩ := List.pairwise_cons.mp hsorted
    unfold insertEntry
    rcases List.mem_cons.mp hmem with heq | hmem
    · obtain ⟨rfl, rfl⟩ := Prod.mk.inj heq
      rw [if_neg (lt_irrefl _), if_pos rfl]
      exact ⟨[], rest, rfl, rfl⟩
    · have hlt : other < key := hhead _ hmem
      obtain ⟨front, back, hsplit, hinsert⟩ := ih hrest hmem
      rw [if_neg (not_lt.mpr hlt.le), if_neg hlt.ne', hinsert, hsplit]
      exact ⟨(other, first) :: front, back, rfl, rfl⟩

theorem mem_insert_iff {m : SortedMap K V} {key : K} {value : V} {entry : K × V} :
    entry ∈ (m.insert key value).entries ↔
      entry = (key, value) ∨ (entry.1 ≠ key ∧ entry ∈ m.entries) := by
  obtain ⟨other, found⟩ := entry
  rw [← get_eq_some_iff]
  by_cases hkey : other = key
  · subst hkey
    rw [get_insert_self]
    constructor
    · intro heq
      rw [Option.some.inj heq]
      exact Or.inl rfl
    · rintro (heq | ⟨hne, -⟩)
      · rw [(Prod.mk.inj heq).2]
      · exact absurd rfl hne
  · rw [get_insert_ne hkey, get_eq_some_iff]
    constructor
    · exact fun hmem => Or.inr ⟨hkey, hmem⟩
    · rintro (heq | ⟨-, hmem⟩)
      · exact absurd (Prod.mk.inj heq).1 hkey
      · exact hmem

theorem mem_remove_iff {m : SortedMap K V} {key : K} {entry : K × V} :
    entry ∈ (m.remove key).entries ↔ entry ∈ m.entries ∧ entry.1 ≠ key := by
  unfold remove
  rw [List.mem_filter, decide_eq_true_iff]

/-- No key is above the last one. -/
theorem le_of_lastKey {m : SortedMap K V} {last : K} (h : m.lastKey = some last)
    {entry : K × V} (hentry : entry ∈ m.entries) : entry.1 ≤ last := by
  obtain ⟨final, hfinal, rfl⟩ := Option.map_eq_some_iff.mp h
  obtain ⟨front, hfront⟩ := List.getLast?_eq_some_iff.mp hfinal
  have hsorted := m.sorted
  rw [hfront] at hentry hsorted
  rcases List.mem_append.mp hentry with hmem | hmem
  · exact ((List.pairwise_append.mp hsorted).2.2 _ hmem _ List.mem_cons_self).le
  · rw [List.mem_singleton.mp hmem]

/-- A key above all others becomes the last one, after the earlier entries. -/
theorem insert_last {m : SortedMap K V} {key : K} (value : V)
    (h : ∀ entry ∈ m.entries, entry.1 < key) :
    (m.insert key value).entries = m.entries ++ [(key, value)] ∧
      (m.insert key value).lastKey = some key := by
  have hentries : (m.insert key value).entries = m.entries ++ [(key, value)] := insertEntry_last h
  refine ⟨hentries, ?_⟩
  unfold lastKey
  rw [hentries, List.getLast?_concat]
  rfl

end SortedMap

end Interleave
