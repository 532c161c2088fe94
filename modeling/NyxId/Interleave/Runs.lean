import Mathlib.Data.List.Basic

/-!
Runs of a system whose steps are labelled by events.
-/

namespace Interleave

inductive Runs {S E : Type} (Step : S → E → S → Prop) (s : S) : List E → S → Prop
  | stay : Runs Step s [] s
  | next {events : List E} {s₁ s₂ : S} {e : E} (hrun : Runs Step s events s₁)
      (hstep : Step s₁ e s₂) : Runs Step s (events ++ [e]) s₂

namespace Runs

variable {S E : Type} {Step : S → E → S → Prop} {s s₁ s₂ : S} {events events' : List E} {P : S → Prop}

theorem append (h : Runs Step s events s₁) (h' : Runs Step s₁ events' s₂) :
    Runs Step s (events ++ events') s₂ := by
  induction h' with
  | stay =>
    rw [List.append_nil]
    exact h
  | next _ hstep ih =>
    rw [← List.append_assoc]
    exact ih.next hstep

/-- What every step preserves holds at the end of a run. -/
theorem preserves (hstep : ∀ s e s', P s → Step s e s' → P s') (hs : P s)
    (h : Runs Step s events s₁) : P s₁ := by
  induction h with
  | stay => exact hs
  | next _ hlast ih => exact hstep _ _ _ ih hlast

theorem mono {Step' : S → E → S → Prop} (hstep : ∀ s e s', Step s e s' → Step' s e s')
    (h : Runs Step s events s₁) : Runs Step' s events s₁ := by
  induction h with
  | stay => exact .stay
  | next _ hlast ih => exact ih.next (hstep _ _ _ hlast)

end Runs

end Interleave
