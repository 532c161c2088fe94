import Mathlib.Logic.Basic

/-!
Systems that change only through transactions: an operation either commits a
new state or is aborted with an error and changes nothing.
-/

namespace Interleave

structure Transactions where
  State : Type
  Op : Type
  Err : Type
  Initial : State → Prop
  apply : Op → State → Except Err State

namespace Transactions

variable (T : Transactions)

/-- States reached by committed operations that meet a condition. -/
inductive Reaches (C : T.Op → T.State → Prop) : T.State → Prop where
  | start {s : T.State} (h : T.Initial s) : Reaches C s
  | commit {s t : T.State} (op : T.Op) (h : Reaches C s) (hop : C op s)
      (happly : T.apply op s = .ok t) : Reaches C t

variable {T}

/-- An invariant that holds initially and that every admitted commit keeps. -/
theorem Reaches.invariant {C : T.Op → T.State → Prop} {P : T.State → Prop}
    (hstart : ∀ s, T.Initial s → P s)
    (hcommit : ∀ op s t, P s → C op s → T.apply op s = .ok t → P t)
    {s : T.State} (h : T.Reaches C s) : P s := by
  induction h with
  | start h => exact hstart _ h
  | commit op _ hop happly ih => exact hcommit op _ _ ih hop happly

/-- The operations in order, up to the first one that is aborted. -/
def run (ops : List T.Op) (s : T.State) : Except T.Err T.State :=
  ops.foldlM (fun t op => T.apply op t) s

/-- A schedule of operations that meet the condition in every state. -/
theorem Reaches.run {C : T.Op → T.State → Prop} {s t : T.State} (ops : List T.Op)
    (hops : ∀ op ∈ ops, ∀ u, C op u) (h : T.Reaches C s)
    (hrun : Transactions.run ops s = .ok t) : T.Reaches C t := by
  induction ops generalizing s with
  | nil =>
    cases hrun
    exact h
  | cons op rest ih =>
    simp only [Transactions.run, List.foldlM_cons] at hrun
    cases happly : T.apply op s with
    | error e =>
      rw [happly] at hrun
      cases hrun
    | ok u =>
      rw [happly] at hrun
      have hop := hops op List.mem_cons_self s
      exact ih (fun o ho => hops o (List.mem_cons_of_mem op ho)) (h.commit op hop happly) hrun

/-- An aborted operation changes nothing. -/
def attempt (op : T.Op) (s : T.State) : T.State :=
  match T.apply op s with
  | .ok t => t
  | .error _ => s

/-- The operations in order, whether each of them commits or is aborted. -/
def attempts (ops : List T.Op) (s : T.State) : T.State :=
  ops.foldl (fun t op => T.attempt op t) s

/-- What every commit keeps, every sequence of attempts keeps. -/
theorem attempts_keeps {P : T.State → Prop}
    (hcommit : ∀ op s t, P s → T.apply op s = .ok t → P t) (ops : List T.Op) {s : T.State}
    (h : P s) : P (T.attempts ops s) := by
  induction ops generalizing s with
  | nil => exact h
  | cons op rest ih =>
    refine ih ?_
    show P (T.attempt op s)
    unfold attempt
    split
    · rename_i t happly
      exact hcommit op s t h happly
    · exact h

theorem Reaches.attempts {s : T.State} (h : T.Reaches (fun _ _ => True) s) (ops : List T.Op) :
    T.Reaches (fun _ _ => True) (T.attempts ops s) :=
  attempts_keeps (fun op _ _ hs happly => hs.commit op trivial happly) ops h

end Transactions

end Interleave
