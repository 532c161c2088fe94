import Mathlib.Logic.Basic
import Mathlib.Data.Nat.Notation

/-!
Worker code over a shared store: a tree of atomic operations. Every operation
may answer with an error instead of a value, and an error ends the code that
does not catch it.
-/

namespace Interleave

section

/-- Code of one worker. Between two calls any other worker may run. -/
inductive Prog (Op : Type → Type) (Err α : Type) : Type 1 where
  | ret (r : Except Err α)
  | call {β : Type} (o : Op β) (k : Except Err β → Prog Op Err α)

namespace Prog

variable {Op : Type → Type} {Err α β γ : Type}

def bind : Prog Op Err α → (α → Prog Op Err β) → Prog Op Err β
  | ret (.ok a), f => f a
  | ret (.error e), _ => ret (.error e)
  | call o k, f => call o fun r => (k r).bind f

/-- Runs the code and hands its error over as a value. -/
def attempt : Prog Op Err α → Prog Op Err (Except Err α)
  | ret r => ret (.ok r)
  | call o k => call o fun r => (k r).attempt

/-- The same code over another set of operations. -/
def mapOp {Op' : Type → Type} (f : {β : Type} → Op β → Op' β) : Prog Op Err α → Prog Op' Err α
  | ret r => ret r
  | call o k => call (f o) fun r => (k r).mapOp f

def perform (o : Op β) : Prog Op Err β := call o ret

def fail (e : Err) : Prog Op Err α := ret (.error e)

instance : Monad (Prog Op Err) where
  pure a := ret (.ok a)
  bind := bind

/-- Every operation that the code can come to perform satisfies a predicate. -/
def All (P : {β : Type} → Op β → Prop) : Prog Op Err α → Prop
  | ret _ => True
  | call o k => P o ∧ ∀ r, (k r).All P

variable {P : {β : Type} → Op β → Prop}

@[simp] theorem all_ret (r : Except Err α) : (ret r : Prog Op Err α).All P := trivial

theorem All.perform {o : Op β} (h : P o) : (perform o : Prog Op Err β).All P :=
  ⟨h, fun _ => trivial⟩

theorem All.bind {p : Prog Op Err α} {f : α → Prog Op Err β} (hp : p.All P)
    (hf : ∀ a, (f a).All P) : (p.bind f).All P := by
  induction p with
  | ret r =>
    cases r with
    | ok a => exact hf a
    | error e => trivial
  | call o k ih => exact ⟨hp.1, fun r => ih r (hp.2 r)⟩

theorem All.attempt {p : Prog Op Err α} (hp : p.All P) : p.attempt.All P := by
  induction p with
  | ret r => trivial
  | call o k ih => exact ⟨hp.1, fun r => ih r (hp.2 r)⟩

end Prog

/-!
Any number of workers over one store. A schedule spawns workers and lets them
take their operations in any order; an operation may answer, lose its answer
after it took effect, fail without effect, or be the point where its worker
stops for good.
-/

/-- What becomes of the next operation of a worker. -/
inductive Outcome where
  | done
  | lost
  | failed
  | crash
  deriving DecidableEq

/-- The store, its atomic operations and the code that workers run. Worker
numbers are never reused, so they also serve as fresh identifiers. -/
structure Machine where
  Op : Type → Type
  Err : Type
  Store : Type
  /-- What the surroundings supply at an operation, such as the clock. -/
  Env : Type
  Entry : Type
  exec : {β : Type} → ℕ → Env → Op β → Store → β × Store
  /-- The error a worker sees when the answer does not arrive. -/
  dropped : Err
  code : ℕ → Entry → Prog Op Err Unit

namespace Machine

variable (M : Machine)

abbrev Code := Prog M.Op M.Err Unit

/-- A condition on an operation about to end in a given way. -/
abbrev Cond := (β : Type) → ℕ → M.Env → Outcome → M.Op β → M.Store → Prop

structure Config where
  store : M.Store
  tasks : List (Option M.Code)

inductive Choice where
  | spawn (e : M.Entry)
  | step (w : ℕ) (env : M.Env) (out : Outcome)

variable {M}

def advance (w : ℕ) (env : M.Env) (out : Outcome) (s : M.Store) :
    M.Code → M.Store × Option M.Code
  | .ret _ => (s, none)
  | .call o k =>
    match out with
    | .done => ((M.exec w env o s).2, some (k (.ok (M.exec w env o s).1)))
    | .lost => ((M.exec w env o s).2, some (k (.error M.dropped)))
    | .failed => (s, some (k (.error M.dropped)))
    | .crash => (s, none)

def Config.next (c : M.Config) : M.Choice → M.Config
  | .spawn e => { c with tasks := c.tasks ++ [some (M.code c.tasks.length e)] }
  | .step w env out =>
    match c.tasks[w]? with
    | some (some p) =>
      { store := (advance w env out c.store p).1,
        tasks := c.tasks.set w (advance w env out c.store p).2 }
    | _ => c

def run (s : M.Store) (schedule : List M.Choice) : M.Config :=
  schedule.foldl Config.next { store := s, tasks := [] }

/-- The condition holds of the operation that the choice lets happen. -/
def Config.Admits (C : M.Cond) (c : M.Config) : M.Choice → Prop
  | .spawn _ => True
  | .step w env out =>
    match c.tasks[w]? with
    | some (some (.call o _)) => C _ w env out o c.store
    | _ => True

/-- Configurations reached from a store by runs whose steps meet the condition. -/
inductive Reaches (C : M.Cond) (s : M.Store) : M.Config → Prop where
  | start : Reaches C s { store := s, tasks := [] }
  | next {c : M.Config} (ch : M.Choice) (hc : Reaches C s c) (hok : c.Admits C ch) :
      Reaches C s (c.next ch)

def anyStep : M.Cond := fun _ _ _ _ _ _ => True

theorem Config.admits_anyStep (c : M.Config) (ch : M.Choice) : c.Admits anyStep ch := by
  cases ch with
  | spawn e => trivial
  | step w env out =>
    simp only [Config.Admits]
    split <;> trivial

/-- The condition holds at every choice of a schedule. -/
def Config.AdmitsAll (C : M.Cond) : M.Config → List M.Choice → Prop
  | _, [] => True
  | c, ch :: rest => c.Admits C ch ∧ (c.next ch).AdmitsAll C rest

/-- Running a schedule only visits reachable configurations. -/
theorem Reaches.schedule {C : M.Cond} {s : M.Store} {c : M.Config} (hc : Reaches C s c)
    {schedule : List M.Choice} (hok : c.AdmitsAll C schedule) :
    Reaches C s (schedule.foldl Config.next c) := by
  induction schedule generalizing c with
  | nil => exact hc
  | cons ch rest ih => exact ih (hc.next ch hok.1) hok.2

theorem reaches_run (s : M.Store) (schedule : List M.Choice) :
    Reaches anyStep s (run s schedule) := by
  have hall (c : M.Config) : c.AdmitsAll anyStep schedule := by
    induction schedule generalizing c with
    | nil => trivial
    | cons ch rest ih => exact ⟨c.admits_anyStep ch, ih _⟩
  exact Reaches.start.schedule (hall _)

/-! ### Notes that are kept beside a run -/

/-- The machine with notes that are taken where an operation takes effect, from the store before it. -/
def noted (M : Machine) {G : Type} (note : {β : Type} → ℕ → M.Env → M.Op β → M.Store → G → G) :
    Machine where
  Op := M.Op
  Err := M.Err
  Store := M.Store × G
  Env := M.Env
  Entry := M.Entry
  exec w env o s := ((M.exec w env o s.1).1, (M.exec w env o s.1).2, note w env o s.1 s.2)
  dropped := M.dropped
  code := M.code

section

variable {G : Type} {note : {β : Type} → ℕ → M.Env → M.Op β → M.Store → G → G}

def Choice.forget : (M.noted note).Choice → M.Choice
  | .spawn e => .spawn e
  | .step w env out => .step w env out

def Config.forget (c : (M.noted note).Config) : M.Config where
  store := c.store.1
  tasks := c.tasks

/-- Taking notes changes nothing of a run. -/
theorem Config.forget_next (c : (M.noted note).Config) (ch : (M.noted note).Choice) :
    (c.next ch).forget = c.forget.next ch.forget := by
  cases ch with
  | spawn e => rfl
  | step w env out =>
    cases htask : c.tasks[w]? with
    | none =>
      have hforget : c.forget.tasks[w]? = none := htask
      simp only [Config.next, Choice.forget, htask, hforget]
    | some task =>
      have hforget : c.forget.tasks[w]? = some task := htask
      cases task with
      | none => simp only [Config.next, Choice.forget, htask, hforget]
      | some p =>
        simp only [Config.next, Choice.forget, htask, hforget]
        cases p with
        | ret r => rfl
        | call o k => cases out <;> rfl

theorem Reaches.forget {C : (M.noted note).Cond} {s : M.Store} {g : G} {c : (M.noted note).Config}
    (h : Reaches C (s, g) c) : Reaches anyStep s c.forget := by
  induction h with
  | start => exact .start
  | next ch _ _ ih =>
    rw [Config.forget_next]
    exact ih.next _ (Config.admits_anyStep _ _)

end

end Machine

end

/-!
Code of one worker while nobody else writes: what it returns once its operations have ended as given,
and rules for what then holds.
-/

namespace Machine

variable {M : Machine} {α β : Type}

/-- Runs the code to its end; a crash, and answers that run out, leave none. -/
def alone (M : Machine) : Prog M.Op M.Err α → List (M.Env × Outcome) → M.Store →
    Option (Except M.Err α × M.Store)
  | .ret r, _, s => some (r, s)
  | .call _ _, [], _ => none
  | .call o k, (env, out) :: rest, s =>
    match out with
    | .done => alone M (k (.ok (M.exec 0 env o s).1)) rest (M.exec 0 env o s).2
    | .lost => alone M (k (.error M.dropped)) rest (M.exec 0 env o s).2
    | .failed => alone M (k (.error M.dropped)) rest s
    | .crash => none

/-- Runs the code to the operation at which its process crashes, and leaves the store found there. -/
def crashed (M : Machine) : Prog M.Op M.Err α → List (M.Env × Outcome) → M.Store → Option M.Store
  | .ret _, _, _ => none
  | .call _ _, [], _ => none
  | .call o k, (env, out) :: rest, s =>
    match out with
    | .done => crashed M (k (.ok (M.exec 0 env o s).1)) rest (M.exec 0 env o s).2
    | .lost => crashed M (k (.error M.dropped)) rest (M.exec 0 env o s).2
    | .failed => crashed M (k (.error M.dropped)) rest s
    | .crash => some s

/-- Whatever the code ends with from a store, a value or an error, the given assertion holds of it and
of the store that is left. -/
def Yields : Prog M.Op M.Err α → (α → M.Store → Prop) → (M.Err → M.Store → Prop) → M.Store → Prop
  | .ret (.ok a), Q, _, s => Q a s
  | .ret (.error e), _, E, s => E e s
  | .call o k, Q, E, s => ∀ env, Yields (k (.ok (M.exec 0 env o s).1)) Q E (M.exec 0 env o s).2 ∧
      Yields (k (.error M.dropped)) Q E (M.exec 0 env o s).2 ∧ Yields (k (.error M.dropped)) Q E s

/-- The same of values only. -/
abbrev Gives (p : Prog M.Op M.Err α) (Q : α → M.Store → Prop) (s : M.Store) : Prop :=
  Yields p Q (fun _ _ => True) s

variable {Q Q' : α → M.Store → Prop} {E E' : M.Err → M.Store → Prop} {s t : M.Store}

theorem Yields.alone {p : Prog M.Op M.Err α} {answers : List (M.Env × Outcome)} {r : Except M.Err α}
    (h : Yields p Q E s) (hrun : M.alone p answers s = some (r, t)) :
    (∀ a, r = .ok a → Q a t) ∧ ∀ e, r = .error e → E e t := by
  induction p generalizing answers s with
  | ret x =>
    obtain ⟨rfl, rfl⟩ := Prod.mk.inj (Option.some.inj hrun)
    cases x with
    | ok a => exact ⟨fun b hb => Except.ok.inj hb ▸ h, nofun⟩
    | error e => exact ⟨nofun, fun e' he => Except.error.inj he ▸ h⟩
  | call o k ih =>
    cases answers with
    | nil => cases hrun
    | cons answer rest =>
      obtain ⟨env, out⟩ := answer
      obtain ⟨hdone, hlost, hfailed⟩ := h env
      cases out with
      | done => exact ih _ hdone hrun
      | lost => exact ih _ hlost hrun
      | failed => exact ih _ hfailed hrun
      | crash => cases hrun

/-- Code whose operations all fail from some point on ends with the store of that point. -/
theorem Yields.here {R : M.Store → Prop} {p : Prog M.Op M.Err α} (henv : Nonempty M.Env)
    (h : Yields p Q E s) (hQ : ∀ a t, Q a t → R t) (hE : ∀ e t, E e t → R t) : R s := by
  induction p with
  | ret r =>
    cases r with
    | ok a => exact hQ a s h
    | error e => exact hE e s h
  | call o k ih =>
    obtain ⟨env⟩ := henv
    exact ih _ (h env).2.2

theorem Yields.crashed {R : M.Store → Prop} {p : Prog M.Op M.Err α}
    {answers : List (M.Env × Outcome)} (h : Yields p Q E s) (hQ : ∀ a t, Q a t → R t)
    (hE : ∀ e t, E e t → R t) (hrun : M.crashed p answers s = some t) : R t := by
  induction p generalizing answers s with
  | ret x => cases hrun
  | call o k ih =>
    cases answers with
    | nil => cases hrun
    | cons answer rest =>
      obtain ⟨env, out⟩ := answer
      obtain ⟨hdone, hlost, hfailed⟩ := h env
      cases out with
      | done => exact ih _ hdone hrun
      | lost => exact ih _ hlost hrun
      | failed => exact ih _ hfailed hrun
      | crash =>
        rw [← Option.some.inj hrun]
        exact Yields.here ⟨env⟩ h hQ hE

theorem Gives.alone {p : Prog M.Op M.Err α} {answers : List (M.Env × Outcome)} {a : α}
    (h : Gives p Q s) (hrun : M.alone p answers s = some (.ok a, t)) : Q a t :=
  (Yields.alone h hrun).1 a rfl

theorem Yields.mono {p : Prog M.Op M.Err α} (hQ : ∀ a t, Q a t → Q' a t)
    (hE : ∀ e t, E e t → E' e t) (h : Yields p Q E s) : Yields p Q' E' s := by
  induction p generalizing s with
  | ret r =>
    cases r with
    | ok a => exact hQ a s h
    | error e => exact hE e s h
  | call o k ih =>
    intro env
    obtain ⟨hdone, hlost, hfailed⟩ := h env
    exact ⟨ih _ hdone, ih _ hlost, ih _ hfailed⟩

theorem Gives.mono {p : Prog M.Op M.Err α} (hQ : ∀ a t, Q a t → Q' a t) (h : Gives p Q s) :
    Gives p Q' s :=
  Yields.mono hQ (fun _ _ _ => trivial) h

theorem Yields.bind {p : Prog M.Op M.Err β} {f : β → Prog M.Op M.Err α}
    (h : Yields p (fun b => Yields (f b) Q E) E s) : Yields (p.bind f) Q E s := by
  induction p generalizing s with
  | ret r =>
    cases r with
    | ok b => exact h
    | error e => exact h
  | call o k ih =>
    intro env
    obtain ⟨hdone, hlost, hfailed⟩ := h env
    exact ⟨ih _ hdone, ih _ hlost, ih _ hfailed⟩

theorem Gives.bind {p : Prog M.Op M.Err β} {f : β → Prog M.Op M.Err α}
    (h : Gives p (fun b => Gives (f b) Q) s) : Gives (p.bind f) Q s :=
  Yields.bind h

/-- An operation whose error ends the code. -/
theorem Yields.seq {p : Prog M.Op M.Err β} {f : β → Prog M.Op M.Err α} {R : β → M.Store → Prop}
    (h : Yields p R E s) (hf : ∀ b t, R b t → Yields (f b) Q E t) : Yields (p.bind f) Q E s :=
  Yields.bind (Yields.mono hf (fun _ _ ht => ht) h)

theorem Yields.perform {o : M.Op β} {f : β → Prog M.Op M.Err α} (hE : E M.dropped s)
    (h : ∀ env, E M.dropped (M.exec 0 env o s).2 ∧
      Yields (f (M.exec 0 env o s).1) Q E (M.exec 0 env o s).2) :
    Yields ((Prog.perform o).bind f) Q E s := fun env => ⟨(h env).2, (h env).1, hE⟩

theorem Gives.perform {o : M.Op β} {f : β → Prog M.Op M.Err α}
    (h : ∀ env, Gives (f (M.exec 0 env o s).1) Q (M.exec 0 env o s).2) :
    Gives ((Prog.perform o).bind f) Q s :=
  Yields.perform trivial fun env => ⟨trivial, h env⟩

/-- Whatever the code ends with. -/
theorem Gives.any (p : Prog M.Op M.Err α) (h : ∀ a t, Q a t) : Gives p Q s := by
  induction p generalizing s with
  | ret r =>
    cases r with
    | ok a => exact h a s
    | error e => trivial
  | call o k ih => exact fun env => ⟨ih _, ih _, ih _⟩

/-- Code that performs only operations of one kind and ends only with errors of another, as long as
its own operations drop no other. -/
def Only (P : {β : Type} → M.Op β → Prop) (F : M.Err → Prop) : Prog M.Op M.Err α → Prop
  | .ret (.ok _) => True
  | .ret (.error e) => F e
  | .call o k => P o ∧ (∀ b, Only P F (k (.ok b))) ∧ Only P F (k (.error M.dropped))

section Only

variable {P : {β : Type} → M.Op β → Prop} {F : M.Err → Prop}

theorem Only.perform {o : M.Op β} (ho : P o) (hF : F M.dropped) :
    Only P F (Prog.perform o : Prog M.Op M.Err β) := ⟨ho, fun _ => trivial, hF⟩

theorem Only.bind {p : Prog M.Op M.Err β} {f : β → Prog M.Op M.Err α} (hp : Only P F p)
    (hf : ∀ b, Only P F (f b)) : Only P F (p.bind f) := by
  induction p with
  | ret r =>
    cases r with
    | ok b => exact hf b
    | error e => exact hp
  | call o k ih => exact ⟨hp.1, fun b => ih _ (hp.2.1 b), ih _ hp.2.2⟩

theorem Only.attempt {p : Prog M.Op M.Err α} (hp : p.All P) : Only P F p.attempt := by
  induction p with
  | ret r => trivial
  | call o k ih => exact ⟨hp.1, fun b => ih _ (hp.2 _), ih _ (hp.2 _)⟩

theorem Only.mono {P' : {β : Type} → M.Op β → Prop} {p : Prog M.Op M.Err α}
    (h : ∀ {β : Type} (o : M.Op β), P o → P' o) (hp : Only P F p) : Only P' F p := by
  induction p with
  | ret r =>
    cases r with
    | ok a => trivial
    | error e => exact hp
  | call o k ih => exact ⟨h o hp.1, fun b => ih _ (hp.2.1 b), ih _ hp.2.2⟩

theorem Only.yields {R : M.Store → Prop}
    (hP : ∀ {β : Type} (o : M.Op β) (env : M.Env) (s : M.Store), P o → R s → R (M.exec 0 env o s).2)
    {p : Prog M.Op M.Err α} (hp : Only P F p) (hs : R s) :
    Yields p (fun _ => R) (fun e t => F e ∧ R t) s := by
  induction p generalizing s with
  | ret r =>
    cases r with
    | ok a => exact hs
    | error e => exact ⟨hp, hs⟩
  | call o k ih =>
    intro env
    have hs' := hP o env s hp.1 hs
    exact ⟨ih _ (hp.2.1 _) hs', ih _ hp.2.2 hs', ih _ hp.2.2 hs⟩

theorem Only.of_all {p : Prog M.Op M.Err α} (hp : p.All P) : Only P (fun _ => True) p := by
  induction p with
  | ret r => cases r <;> trivial
  | call o k ih => exact ⟨hp.1, fun b => ih _ (hp.2 _), ih _ (hp.2 _)⟩

end Only

/-- Operations of a kind that keeps an assertion. -/
theorem Gives.keeps {P : {β : Type} → M.Op β → Prop} {R : M.Store → Prop}
    (hP : ∀ {β : Type} (o : M.Op β) (env : M.Env) (s : M.Store), P o → R s → R (M.exec 0 env o s).2)
    {p : Prog M.Op M.Err α} (hp : p.All P) (hs : R s) : Gives p (fun _ => R) s :=
  Yields.mono (fun _ _ h => h) (fun _ _ _ => trivial) (Only.yields hP (Only.of_all hp) hs)

end Machine

end Interleave
