import Mathlib.Algebra.Order.BigOperators.Group.List
import Mathlib.Algebra.Order.Group.MinMax
import Mathlib.Algebra.Order.Group.Abs
import Mathlib.Data.List.Forall2
import Mathlib.Tactic.Abel

/-!
A debt paid from a list of amounts, the first of them first. What is left sums to what is
owned above the debt, and nothing is taken from an amount before all earlier ones are used up.
-/

namespace Waterfall

variable {A : Type*} [AddCommGroup A] [LinearOrder A]

/-- What a debt leaves of the amounts. -/
def settle (debt : A) : List A → List A
  | [] => []
  | amount :: rest => (amount - min debt amount) :: settle (debt - min debt amount) rest

variable {debt : A} {amounts : List A}

@[simp] theorem settle_nil : settle debt ([] : List A) = [] := rfl

@[simp] theorem settle_cons (debt amount : A) (rest : List A) : settle debt (amount :: rest) =
    (amount - min debt amount) :: settle (debt - min debt amount) rest := rfl

@[simp] theorem length_settle (debt : A) (amounts : List A) :
    (settle debt amounts).length = amounts.length := by
  induction amounts generalizing debt with
  | nil => rfl
  | cons amount rest ih => simp [ih]

theorem settle_zero (hamounts : ∀ a ∈ amounts, 0 ≤ a) : settle 0 amounts = amounts := by
  induction amounts with
  | nil => rfl
  | cons amount rest ih =>
    have hamount : 0 ≤ amount := hamounts amount List.mem_cons_self
    have hrest := ih fun a ha => hamounts a (List.mem_cons_of_mem _ ha)
    rw [settle_cons, min_eq_left hamount, sub_zero, sub_zero, hrest]

variable [IsOrderedAddMonoid A]

theorem settle_bounds (hdebt : 0 ≤ debt) (hamounts : ∀ a ∈ amounts, 0 ≤ a) :
    List.Forall₂ (fun left amount => 0 ≤ left ∧ left ≤ amount) (settle debt amounts) amounts := by
  induction amounts generalizing debt with
  | nil => exact .nil
  | cons amount rest ih =>
    have hamount : 0 ≤ amount := hamounts amount List.mem_cons_self
    refine .cons ⟨sub_nonneg.mpr (min_le_right _ _), ?_⟩ (ih ?_ ?_)
    · exact sub_le_self _ (le_min hdebt hamount)
    · exact sub_nonneg.mpr (min_le_left _ _)
    · exact fun a ha => hamounts a (List.mem_cons_of_mem _ ha)

theorem settle_nonneg (hdebt : 0 ≤ debt) (hamounts : ∀ a ∈ amounts, 0 ≤ a) :
    ∀ left ∈ settle debt amounts, 0 ≤ left := by
  have hbounds := settle_bounds hdebt hamounts
  intro left hleft
  obtain ⟨i, hi, rfl⟩ := List.getElem_of_mem hleft
  exact (hbounds.get hi (by simpa using hi)).1

theorem sum_settle (hdebt : 0 ≤ debt) (hamounts : ∀ a ∈ amounts, 0 ≤ a) :
    (settle debt amounts).sum = max 0 (amounts.sum - debt) := by
  induction amounts generalizing debt with
  | nil => simp [hdebt]
  | cons amount rest ih =>
    have hamount : 0 ≤ amount := hamounts amount List.mem_cons_self
    have hrest : ∀ a ∈ rest, 0 ≤ a := fun a ha => hamounts a (List.mem_cons_of_mem _ ha)
    have hsum : 0 ≤ rest.sum := List.sum_nonneg hrest
    rw [settle_cons, List.sum_cons, List.sum_cons, ih (sub_nonneg.mpr (min_le_left _ _)) hrest]
    by_cases hle : debt ≤ amount
    · -- the first amount pays the whole debt
      rw [min_eq_left hle, sub_self, sub_zero, max_eq_right hsum, max_eq_right]
      · abel
      · rw [sub_nonneg]
        exact hle.trans (le_add_of_nonneg_right hsum)
    · rw [min_eq_right (le_of_not_ge hle), sub_self, zero_add]
      congr 1
      abel

/-- A later amount is touched only when the earlier ones are used up. -/
theorem settle_in_order (hdebt : 0 ≤ debt) (hamounts : ∀ a ∈ amounts, 0 ≤ a) :
    (List.zip (settle debt amounts) amounts).Pairwise fun earlier later =>
      later.1 < later.2 → earlier.1 = 0 := by
  induction amounts generalizing debt with
  | nil => simp
  | cons amount rest ih =>
    have hrest : ∀ a ∈ rest, 0 ≤ a := fun a ha => hamounts a (List.mem_cons_of_mem _ ha)
    rw [settle_cons, List.zip_cons_cons, List.pairwise_cons]
    refine ⟨?_, ih (sub_nonneg.mpr (min_le_left _ _)) hrest⟩
    intro later hlater htouched
    by_cases hle : debt ≤ amount
    · -- no debt is left for the later ones
      rw [min_eq_left hle, sub_self, settle_zero hrest] at hlater
      obtain ⟨i, hi, rfl⟩ := List.getElem_of_mem hlater
      simp at htouched
    · exact sub_eq_zero.mpr (min_eq_right (le_of_not_ge hle)).symm

end Waterfall
