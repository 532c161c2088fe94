import Mathlib.Data.Nat.Notation

/-!
Computations that suspend, leave notes for whoever waits for them, and may never end. A timer
can cut one wherever it suspends.
-/

namespace Interleave

inductive Task (N α : Type)
  | done (a : α)
  | note (n : N) (rest : Task N α)
  | suspend (rest : Task N α)
  | hang

namespace Task

variable {N M α β : Type}

def bind : Task N α → (α → Task N β) → Task N β
  | done a, f => f a
  | note n rest, f => note n (rest.bind f)
  | suspend rest, f => suspend (rest.bind f)
  | hang, _ => hang

instance : Monad (Task N) where
  pure := done
  bind := bind

/-- A computation under notes of another kind. -/
def lift (f : N → M) : Task N α → Task M α
  | done a => done a
  | note n rest => note (f n) (rest.lift f)
  | suspend rest => suspend (rest.lift f)
  | hang => hang

/-- The value a computation ends with when nothing cuts it. -/
def result : Task N α → Option α
  | done a => some a
  | note _ rest => rest.result
  | suspend rest => rest.result
  | hang => none

/-- What a computation does before a timer fires that lets it suspend a number of times: its
notes, and its value with the number that is left. -/
def cut : ℕ → Task N α → List N × Option (α × ℕ)
  | patience, done a => ([], some (a, patience))
  | patience, note n rest => (n :: (cut patience rest).1, (cut patience rest).2)
  | 0, suspend _ => ([], none)
  | patience + 1, suspend rest => cut patience rest
  | _, hang => ([], none)

/-- The computation under a timer of its own, which ends one that does not. -/
def within : ℕ → Task N α → Task N (Option α)
  | _, done a => done (some a)
  | patience, note n rest => note n (within patience rest)
  | 0, suspend _ => suspend (done none)
  | patience + 1, suspend rest => suspend (within patience rest)
  | _, hang => suspend (done none)

theorem cut_bind (patience : ℕ) (t : Task N α) (f : α → Task N β) :
    cut patience (t.bind f) = match cut patience t with
      | (notes, none) => (notes, none)
      | (notes, some (a, left)) => (notes ++ (cut left (f a)).1, (cut left (f a)).2) := by
  induction t generalizing patience with
  | done a => simp only [bind, cut, List.nil_append]
  | note n rest ih =>
    simp only [bind, cut, ih]
    rcases cut patience rest with ⟨notes, _ | ⟨a, left⟩⟩ <;> rfl
  | suspend rest ih =>
    cases patience with
    | zero => rfl
    | succ patience => exact ih patience
  | hang => simp only [bind, cut]

theorem cut_lift (f : N → M) (patience : ℕ) (t : Task N α) :
    cut patience (t.lift f) = ((cut patience t).1.map f, (cut patience t).2) := by
  induction t generalizing patience with
  | done a => simp only [lift, cut, List.map_nil]
  | note n rest ih => simp only [lift, cut, ih, List.map_cons]
  | suspend rest ih =>
    cases patience with
    | zero => rfl
    | succ patience => exact ih patience
  | hang => simp only [lift, cut, List.map_nil]

/-- A value that came in time is the value of the computation. -/
theorem result_of_cut {patience left : ℕ} {t : Task N α} {a : α} {notes : List N}
    (h : cut patience t = (notes, some (a, left))) : t.result = some a := by
  induction t generalizing patience notes with
  | done b =>
    simp only [cut, Prod.mk.injEq, Option.some.injEq] at h
    exact congrArg some h.2.1
  | note n rest ih =>
    have hvalue : (cut patience rest).2 = some (a, left) := congrArg Prod.snd h
    exact ih (show cut patience rest = ((cut patience rest).1, _) from Prod.ext rfl hvalue)
  | suspend rest ih =>
    cases patience with
    | zero => cases congrArg Prod.snd h
    | succ patience => exact ih h
  | hang =>
    simp only [cut] at h
    cases congrArg Prod.snd h

/-- A computation that ends does so before every timer that is patient enough. -/
theorem cut_of_result {t : Task N α} {a : α} (h : t.result = some a) :
    ∃ enough, ∀ patience, enough ≤ patience →
      ∃ notes left, cut patience t = (notes, some (a, left)) := by
  induction t with
  | done b =>
    obtain rfl := Option.some.inj h
    exact ⟨0, fun patience _ => ⟨[], patience, by simp only [cut]⟩⟩
  | note n rest ih =>
    obtain ⟨enough, hcut⟩ := ih h
    refine ⟨enough, fun patience hpatience => ?_⟩
    obtain ⟨notes, left, hrest⟩ := hcut patience hpatience
    exact ⟨n :: notes, left, by simp only [cut, hrest]⟩
  | suspend rest ih =>
    obtain ⟨enough, hcut⟩ := ih h
    refine ⟨enough + 1, fun patience hpatience => ?_⟩
    obtain ⟨patience, rfl⟩ := Nat.exists_eq_add_of_le' (Nat.le_of_add_left_le hpatience)
    exact hcut patience (Nat.le_of_add_le_add_right hpatience)
  | hang => cases h

theorem result_bind (t : Task N α) (f : α → Task N β) :
    (t.bind f).result = t.result.bind fun a => (f a).result := by
  induction t with
  | done a => rfl
  | note n rest ih => exact ih
  | suspend rest ih => exact ih
  | hang => rfl

end Task

end Interleave
