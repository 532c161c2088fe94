import Mathlib.Algebra.Order.Ring.Int
import Mathlib.Tactic.Linarith
import Mathlib.Tactic.Ring

/-!
Search for the turn of a predicate on distances: double the distance until the predicate holds,
then halve the interval. The doubling may pass over a later turn, so the predicate must hold for as
long after its turn as it failed before.
-/

namespace Galloping

variable (valid : ℤ → Bool)

/-- Doubles a distance until it is valid, or beyond the limit. -/
def double (limit : ℤ) : ℕ → ℤ → Option ℤ
  | 0, _ => none
  | fuel + 1, high =>
    if valid high then some high
    else if limit < high * 2 then none
    else double limit fuel (high * 2)

/-- Halves the interval between an invalid and a valid distance. -/
def bisect : ℕ → ℤ → ℤ → ℤ
  | 0, _, high => high
  | fuel + 1, low, high =>
    if 1 < high - low then
      if valid ((low + high) / 2) then bisect fuel low ((low + high) / 2)
      else bisect fuel ((low + high) / 2) high
    else high

variable {valid} {turn : ℤ}

theorem double_eq_some (limit : ℤ) (n fuel : ℕ) (high : ℤ)
    (hbelow : ∀ x, 0 < x → x < turn → valid x = false)
    (habove : ∀ x, turn ≤ x → x < 2 * turn → valid x = true) (hturn : turn ≤ 2 ^ n)
    (hlimit : 2 ^ n ≤ limit) (hpos : 0 < high) (hhigh : high < 2 * turn)
    (hfuel : high * 2 ^ fuel = 2 ^ (n + 1)) :
    ∃ far, double valid limit fuel high = some far ∧ turn ≤ far ∧ far < 2 * turn := by
  induction fuel generalizing high with
  | zero =>
    rw [pow_zero, mul_one, pow_succ] at hfuel
    omega
  | succ fuel ih =>
    by_cases hvalid : valid high = true
    · refine ⟨high, by rw [double, if_pos hvalid], ?_, hhigh⟩
      by_contra hlt
      rw [hbelow high hpos (not_le.mp hlt)] at hvalid
      cases hvalid
    · have hlt : high < turn := by
        by_contra hle
        exact hvalid (habove high (not_lt.mp hle) hhigh)
      have hdouble : high * 2 * 2 ^ fuel = 2 ^ (n + 1) := by
        rw [← hfuel, pow_succ]
        ring
      have hwithin : ¬ limit < high * 2 := by
        have hroom : high * 2 ≤ high * 2 * 2 ^ fuel :=
          le_mul_of_one_le_right (by omega) (one_le_pow₀ (by omega))
        cases fuel with
        | zero =>
          rw [pow_zero, mul_one, pow_succ] at hdouble
          omega
        | succ fuel =>
          have hone : (1 : ℤ) ≤ 2 ^ fuel := one_le_pow₀ (by omega)
          have hmore : high * 2 ≤ high * 2 * 2 ^ fuel := le_mul_of_one_le_right (by omega) hone
          have hhalf : high * 2 * 2 ^ fuel * 2 = 2 ^ n * 2 := by
            rw [mul_assoc, ← pow_succ, hdouble, pow_succ]
          omega
      rw [double, if_neg hvalid, if_neg hwithin]
      exact ih (high * 2) (by omega) (by omega) hdouble

theorem bisect_eq (low high : ℤ) (fuel : ℕ)
    (hbelow : ∀ x, low < x → x < turn → valid x = false)
    (habove : ∀ x, turn ≤ x → x < high → valid x = true) (hlow : low < turn)
    (hhigh : turn ≤ high) (hfuel : high - low ≤ 2 ^ fuel) : bisect valid fuel low high = turn := by
  induction fuel generalizing low high with
  | zero =>
    rw [pow_zero] at hfuel
    rw [bisect]
    omega
  | succ fuel ih =>
    by_cases hwide : 1 < high - low
    · rw [bisect, if_pos hwide]
      rw [pow_succ] at hfuel
      by_cases hmid : turn ≤ (low + high) / 2
      · rw [if_pos (habove _ hmid (by omega))]
        exact ih _ _ hbelow (fun x hle hlt => habove x hle (by omega)) hlow hmid (by omega)
      · rw [if_neg (by rw [hbelow _ (by omega) (by omega)]; exact Bool.false_ne_true)]
        exact ih _ _ (fun x hlt hturn => hbelow x (by omega) hturn) habove (by omega) hhigh (by omega)
    · rw [bisect, if_neg hwide]
      omega

end Galloping
