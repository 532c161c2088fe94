import Mathlib.Data.List.Forall2

/-!
Computations that may fail, when they succeed: one after another, and over a list.
-/

namespace NyxId

theorem bind_eq_ok {ε α β : Type} {first : Except ε α} {next : α → Except ε β} {b : β} :
    (first >>= next) = .ok b ↔ ∃ a, first = .ok a ∧ next a = .ok b := by
  cases first with
  | error e => exact ⟨nofun, nofun⟩
  | ok a =>
    constructor
    · intro h
      exact ⟨a, rfl, h⟩
    · intro ⟨a', ha, h⟩
      cases ha
      exact h

namespace Outcomes

variable {ε α β : Type}

theorem toOption_eq_some {result : Except ε α} {value : α} :
    result.toOption = some value ↔ result = .ok value := by
  cases result with
  | error e => exact ⟨nofun, nofun⟩
  | ok found => exact ⟨fun h => congrArg _ (Option.some.inj h), fun h => congrArg _ (Except.ok.inj h)⟩

/-- What a list of pairs says of each element of the second list. -/
theorem exists_of_forall₂ {R : α → β → Prop} {xs : List α} {ys : List β} (h : List.Forall₂ R xs ys)
    {y : β} (hy : y ∈ ys) : ∃ x ∈ xs, R x y := by
  induction h with
  | nil => cases hy
  | @cons x y' xs ys hxy _ ih =>
    rcases List.mem_cons.mp hy with rfl | hy
    · exact ⟨x, List.mem_cons_self, hxy⟩
    · obtain ⟨x', hx', hrel⟩ := ih hy
      exact ⟨x', List.mem_cons_of_mem x hx', hrel⟩

theorem mapM_eq_ok {f : α → Except ε β} {xs : List α} {ys : List β} :
    xs.mapM f = .ok ys ↔ List.Forall₂ (fun x y => f x = .ok y) xs ys := by
  induction xs generalizing ys with
  | nil =>
    rw [List.mapM_nil, List.forall₂_nil_left_iff]
    exact ⟨fun h => (Except.ok.inj h).symm, fun h => h ▸ rfl⟩
  | cons x xs ih =>
    rw [List.mapM_cons]
    constructor
    · intro h
      obtain ⟨y, hy, h⟩ := bind_eq_ok.mp h
      obtain ⟨rest, hrest, h⟩ := bind_eq_ok.mp h
      cases h
      exact .cons hy (ih.mp hrest)
    · rintro (_ | ⟨hy, hrest⟩)
      rw [hy, ih.mpr hrest]
      rfl

theorem exists_of_mem_mapM {f : α → Except ε β} {xs : List α} {ys : List β}
    (h : xs.mapM f = .ok ys) {y : β} (hy : y ∈ ys) : ∃ x ∈ xs, f x = .ok y :=
  exists_of_forall₂ (mapM_eq_ok.mp h) hy

theorem exists_mem_of_mapM {f : α → Except ε β} {xs : List α} {ys : List β}
    (h : xs.mapM f = .ok ys) {x : α} (hx : x ∈ xs) : ∃ y ∈ ys, f x = .ok y :=
  exists_of_forall₂ (mapM_eq_ok.mp h).flip hx

theorem mapM_eq_self {f : α → Except ε α} {xs : List α} (h : ∀ x ∈ xs, f x = .ok x) :
    xs.mapM f = .ok xs := by
  rw [mapM_eq_ok, List.forall₂_same]
  exact h

theorem bind_eq_error {first : Except ε α} {next : α → Except ε β} {e : ε} :
    (first >>= next) = .error e ↔ first = .error e ∨ ∃ a, first = .ok a ∧ next a = .error e := by
  cases first with
  | error e' =>
    constructor
    · intro h
      cases h
      exact Or.inl rfl
    · rintro (h | ⟨a, ha, -⟩)
      · cases h
        rfl
      · cases ha
  | ok a =>
    constructor
    · intro h
      exact Or.inr ⟨a, rfl, h⟩
    · rintro (h | ⟨a', ha, h⟩)
      · cases h
      · cases ha
        exact h

theorem mapM_eq_error {f : α → Except ε β} {xs : List α} {e : ε}
    (h : xs.mapM f = .error e) : ∃ x ∈ xs, f x = .error e := by
  induction xs with
  | nil => cases h
  | cons x xs ih =>
    rw [List.mapM_cons] at h
    rcases bind_eq_error.mp h with hx | ⟨y, -, h⟩
    · exact ⟨x, List.mem_cons_self, hx⟩
    · rcases bind_eq_error.mp h with hrest | ⟨ys, -, hys⟩
      · obtain ⟨x', hx', hy'⟩ := ih hrest
        exact ⟨x', List.mem_cons_of_mem x hx', hy'⟩
      · cases hys

section

variable {γ : Type} {f : α → Except ε β} {add : γ → β → γ}

/-- A loop that computes something of each item first and then only adds it up. -/
theorem foldlM_eq_ok {xs : List α} {start last : γ} :
    xs.foldlM (fun sum x => do
      let y ← f x
      pure (add sum y)) start = .ok last ↔
      ∃ ys, xs.mapM f = .ok ys ∧ last = ys.foldl add start := by
  induction xs generalizing start with
  | nil =>
    rw [List.foldlM_nil, List.mapM_nil]
    constructor
    · intro h
      exact ⟨[], rfl, (Except.ok.inj h).symm⟩
    · intro ⟨ys, hys, hlast⟩
      cases hys
      rw [hlast]
      rfl
  | cons x xs ih =>
    rw [List.foldlM_cons, List.mapM_cons]
    constructor
    · intro h
      obtain ⟨sum, hsum, h⟩ := bind_eq_ok.mp h
      obtain ⟨y, hy, hsum⟩ := bind_eq_ok.mp hsum
      cases hsum
      obtain ⟨ys, hys, hlast⟩ := ih.mp h
      refine ⟨y :: ys, ?_, hlast⟩
      rw [hy, hys]
      rfl
    · intro ⟨ys, hys, hlast⟩
      obtain ⟨y, hy, hys⟩ := bind_eq_ok.mp hys
      obtain ⟨rest, hrest, hys⟩ := bind_eq_ok.mp hys
      cases hys
      rw [hy]
      exact ih.mpr ⟨rest, hrest, hlast⟩

theorem foldlM_eq_error {xs : List α} {start : γ} {e : ε}
    (h : xs.foldlM (fun sum x => do
      let y ← f x
      pure (add sum y)) start = .error e) : ∃ x ∈ xs, f x = .error e := by
  induction xs generalizing start with
  | nil => cases h
  | cons x xs ih =>
    rw [List.foldlM_cons] at h
    rcases bind_eq_error.mp h with hx | ⟨sum, -, h⟩
    · rcases bind_eq_error.mp hx with hx | ⟨y, -, hy⟩
      · exact ⟨x, List.mem_cons_self, hx⟩
      · cases hy
    · obtain ⟨x', hx', hy'⟩ := ih h
      exact ⟨x', List.mem_cons_of_mem x hx', hy'⟩

end

end Outcomes

end NyxId
