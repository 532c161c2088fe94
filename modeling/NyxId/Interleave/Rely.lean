import NyxId.Interleave.Machine
import Mathlib.Logic.Function.Basic

/-!
Reasoning about one worker at a time. A discipline states an invariant of the
store and what each worker may count on while the others run. Code that keeps
to it from every invariant state keeps it in any number of copies, under every
schedule.
-/

namespace Interleave

open Machine

/-- What stands at a place after one place was written. -/
theorem update_cases {α β : Type} [DecidableEq α] {f : α → Option β} {a x : α} {b c : β}
    (h : Function.update f a (some b) x = some c) : x = a ∧ b = c ∨ x ≠ a ∧ f x = some c := by
  rw [Function.update_apply] at h
  split at h
  · exact .inl ⟨‹_›, Option.some.inj h⟩
  · exact .inr ⟨‹_›, h⟩

structure Discipline (M : Machine) where
  /-- The condition on steps under which runs are judged. -/
  Cond : M.Cond
  Inv : M.Store → Prop
  /-- What the other workers may do to the store while a worker runs. -/
  Rely : ℕ → M.Store → M.Store → Prop
  /-- What holds of a worker that has finished or stopped. -/
  Idle : ℕ → M.Store → Prop
  /-- What holds of a worker that has not been spawned. -/
  Fresh : ℕ → M.Store → Prop
  rely_refl : ∀ w s, Rely w s s
  rely_trans : ∀ w s t u, Rely w s t → Rely w t u → Rely w s u
  idle_stable : ∀ w s t, Rely w s t → Idle w s → Idle w t
  fresh_stable : ∀ w s t, Rely w s t → Fresh w s → Fresh w t

namespace Discipline

variable {M : Machine} (D : Discipline M) {α β : Type}

/-- A step of worker `w` that every other worker can bear. -/
def Guar (w : ℕ) (s t : M.Store) : Prop := D.Inv t ∧ ∀ v, v ≠ w → D.Rely v s t

theorem guar_refl {w : ℕ} {s : M.Store} (hs : D.Inv s) : D.Guar w s s :=
  ⟨hs, fun v _ => D.rely_refl v s⟩

/-- What one operation must do in a state, and what it then establishes. -/
structure Step (w : ℕ) (o : M.Op β) (Q : β → M.Store → Prop) (E : M.Store → Prop)
    (s : M.Store) (env : M.Env) : Prop where
  done : D.Cond β w env .done o s →
    D.Guar w s (M.exec w env o s).2 ∧ Q (M.exec w env o s).1 (M.exec w env o s).2
  lost : D.Cond β w env .lost o s →
    D.Guar w s (M.exec w env o s).2 ∧ E (M.exec w env o s).2
  failed : D.Cond β w env .failed o s → E s
  crash : D.Cond β w env .crash o s → D.Idle w s

/-- Worker `w` may run the code from `s`, whatever the others do meanwhile: it
ends with a value in `Q` or with an error in `E`. -/
def wp (w : ℕ) : Prog M.Op M.Err α → (α → M.Store → Prop) → (M.Err → M.Store → Prop) →
    M.Store → Prop
  | .ret (.ok a), Q, _, s => Q a s
  | .ret (.error e), _, E, s => E e s
  | .call o k, Q, E, s => ∀ t env, D.Rely w s t → D.Inv t →
      D.Step w o (fun r u => wp w (k (.ok r)) Q E u)
        (fun u => wp w (k (.error M.dropped)) Q E u) t env

variable {D}

theorem Step.mono {w : ℕ} {o : M.Op β} {Q Q' : β → M.Store → Prop} {E E' : M.Store → Prop}
    {s : M.Store} {env : M.Env} (h : D.Step w o Q E s env) (hs : D.Inv s)
    (hQ : ∀ r u, D.Guar w s u → Q r u → Q' r u) (hE : ∀ u, D.Guar w s u → E u → E' u) :
    D.Step w o Q' E' s env where
  done hc := ⟨(h.done hc).1, hQ _ _ (h.done hc).1 (h.done hc).2⟩
  lost hc := ⟨(h.lost hc).1, hE _ (h.lost hc).1 (h.lost hc).2⟩
  failed hc := hE _ (D.guar_refl hs) (h.failed hc)
  crash := h.crash

theorem wp_mono {w : ℕ} {Q Q' : α → M.Store → Prop} {E E' : M.Err → M.Store → Prop}
    (hQ : ∀ a u, D.Inv u → Q a u → Q' a u) (hE : ∀ e u, D.Inv u → E e u → E' e u)
    (p : Prog M.Op M.Err α) (s : M.Store) (hs : D.Inv s) (h : D.wp w p Q E s) :
    D.wp w p Q' E' s := by
  induction p generalizing s with
  | ret r =>
    cases r with
    | ok a => exact hQ a s hs h
    | error e => exact hE e s hs h
  | call o k ih =>
    intro t env hrely ht
    exact (h t env hrely ht).mono ht
      (fun r u hu => ih _ u hu.1) (fun u hu => ih _ u hu.1)

theorem wp_bind {w : ℕ} {Q : β → M.Store → Prop} {E : M.Err → M.Store → Prop}
    {p : Prog M.Op M.Err α} {f : α → Prog M.Op M.Err β} {s : M.Store} (hs : D.Inv s)
    (h : D.wp w p (fun a => D.wp w (f a) Q E) E s) : D.wp w (p.bind f) Q E s := by
  induction p generalizing s with
  | ret r =>
    cases r with
    | ok a => exact h
    | error e => exact h
  | call o k ih =>
    intro t env hrely ht
    exact (h t env hrely ht).mono ht
      (fun r u hu => ih _ hu.1) (fun u hu => ih _ hu.1)

theorem wp_attempt {w : ℕ} {Q : Except M.Err α → M.Store → Prop}
    {E : M.Err → M.Store → Prop} {p : Prog M.Op M.Err α} {s : M.Store} (hs : D.Inv s)
    (h : D.wp w p (fun a => Q (.ok a)) (fun e => Q (.error e)) s) :
    D.wp w p.attempt Q E s := by
  induction p generalizing s with
  | ret r =>
    cases r with
    | ok a => exact h
    | error e => exact h
  | call o k ih =>
    intro t env hrely ht
    exact (h t env hrely ht).mono ht
      (fun r u hu => ih _ hu.1) (fun u hu => ih _ hu.1)

/-- What is proved of the first part is what the rest begins with. -/
theorem wp_seq {w : ℕ} {P : β → M.Store → Prop} {Q : α → M.Store → Prop} {E : M.Err → M.Store → Prop}
    {p : Prog M.Op M.Err β} {f : β → Prog M.Op M.Err α} {s : M.Store} (hs : D.Inv s)
    (hp : D.wp w p P E s) (hf : ∀ b t, D.Inv t → P b t → D.wp w (f b) Q E t) :
    D.wp w (p.bind f) Q E s :=
  wp_bind hs (wp_mono hf (fun _ _ _ h => h) p s hs hp)

/-- The same where the error of the first part is handled. -/
theorem wp_try {w : ℕ} {P : β → M.Store → Prop} {F : M.Err → M.Store → Prop} {Q : α → M.Store → Prop}
    {E : M.Err → M.Store → Prop} {p : Prog M.Op M.Err β} {f : Except M.Err β → Prog M.Op M.Err α}
    {s : M.Store} (hs : D.Inv s) (hp : D.wp w p P F s)
    (hok : ∀ b t, D.Inv t → P b t → D.wp w (f (.ok b)) Q E t)
    (herror : ∀ e t, D.Inv t → F e t → D.wp w (f (.error e)) Q E t) :
    D.wp w (p.attempt.bind f) Q E s :=
  wp_bind hs (wp_attempt hs (wp_mono hok herror p s hs hp))

/-- A call followed by more code, in any state the others may leave. -/
theorem wp_perform {w : ℕ} {Q : α → M.Store → Prop} {E : M.Err → M.Store → Prop}
    {o : M.Op β} {f : β → Prog M.Op M.Err α} {s : M.Store}
    (h : ∀ t env, D.Rely w s t → D.Inv t →
      D.Step w o (fun r => D.wp w (f r) Q E) (E M.dropped) t env) :
    D.wp w ((Prog.perform o).bind f) Q E s := h

/-- An assertion kept by the worker's own steps and by the others' can be
carried past any code. -/
theorem wp_frame {w : ℕ} {Q : α → M.Store → Prop} {E : M.Err → M.Store → Prop}
    {R : M.Store → Prop} (hrely : ∀ s t, D.Rely w s t → R s → R t)
    (hguar : ∀ s t, D.Guar w s t → R s → R t) {p : Prog M.Op M.Err α} {s : M.Store}
    (hR : R s) (h : D.wp w p Q E s) :
    D.wp w p (fun a t => Q a t ∧ R t) (fun e t => E e t ∧ R t) s := by
  induction p generalizing s with
  | ret r =>
    cases r with
    | ok a => exact ⟨h, hR⟩
    | error e => exact ⟨h, hR⟩
  | call o k ih =>
    intro t env hst ht
    have hRt := hrely s t hst hR
    exact (h t env hst ht).mono ht
      (fun r u hu => ih _ (hguar t u hu hRt)) (fun u hu => ih _ (hguar t u hu hRt))

theorem wp_rely {w : ℕ} {Q : α → M.Store → Prop} {E : M.Err → M.Store → Prop}
    (hQ : ∀ a s t, D.Rely w s t → Q a s → Q a t)
    (hE : ∀ e s t, D.Rely w s t → E e s → E e t)
    {p : Prog M.Op M.Err α} {s t : M.Store} (hst : D.Rely w s t) (h : D.wp w p Q E s) :
    D.wp w p Q E t := by
  cases p with
  | ret r =>
    cases r with
    | ok a => exact hQ a s t hst h
    | error e => exact hE e s t hst h
  | call o k => exact fun u env hu hinv => h u env (D.rely_trans w s t u hst hu) hinv

variable (D)

/-- What every reachable configuration satisfies. -/
structure Sound (c : M.Config) : Prop where
  inv : D.Inv c.store
  live : ∀ w p, c.tasks[w]? = some (some p) →
    D.wp w p (fun _ => D.Idle w) (fun _ => D.Idle w) c.store
  idle : ∀ w, c.tasks[w]? = some none → D.Idle w c.store
  fresh : ∀ w, c.tasks.length ≤ w → D.Fresh w c.store

/-- The code of every task, spawned in any invariant state. -/
def Sequential : Prop := ∀ w e s, D.Inv s → D.Fresh w s →
  D.wp w (M.code w e) (fun _ => D.Idle w) (fun _ => D.Idle w) s

variable {D}

theorem Sound.spawn {c : M.Config} (hcode : D.Sequential) (h : D.Sound c) (e : M.Entry) :
    D.Sound (c.next (.spawn e)) where
  inv := h.inv
  live w p hp := by
    simp only [Config.next, List.getElem?_append, List.getElem?_singleton] at hp
    split at hp
    · exact h.live w p hp
    · split at hp
      · cases hp
        have hw : w = c.tasks.length := by omega
        subst hw
        exact hcode _ e _ h.inv (h.fresh _ (Nat.le_refl _))
      · cases hp
  idle w hw := by
    simp only [Config.next, List.getElem?_append, List.getElem?_singleton] at hw
    split at hw
    · exact h.idle w hw
    · split at hw <;> cases hw
  fresh w hw := by
    simp only [Config.next, List.length_append, List.length_singleton] at hw
    exact h.fresh w (by omega)

/-- A step of one task that the others can bear and that leaves its own task
in order keeps the configuration sound. -/
theorem Sound.update {c : M.Config} (h : D.Sound c) {w : ℕ} (hw : w < c.tasks.length)
    {t : M.Store} {next : Option M.Code} (hguar : D.Guar w c.store t)
    (hlive : ∀ p, next = some p → D.wp w p (fun _ => D.Idle w) (fun _ => D.Idle w) t)
    (hidle : next = none → D.Idle w t) :
    D.Sound { store := t, tasks := c.tasks.set w next } where
  inv := hguar.1
  live v p hp := by
    by_cases hv : v = w
    · subst hv
      rw [List.getElem?_set_self hw, Option.some.injEq] at hp
      exact hlive p hp
    · rw [List.getElem?_set_ne (Ne.symm hv)] at hp
      exact wp_rely (fun _ => D.idle_stable v) (fun _ => D.idle_stable v)
        (hguar.2 v hv) (h.live v p hp)
  idle v hv := by
    by_cases hvw : v = w
    · subst hvw
      rw [List.getElem?_set_self hw, Option.some.injEq] at hv
      exact hidle hv
    · rw [List.getElem?_set_ne (Ne.symm hvw)] at hv
      exact D.idle_stable v _ _ (hguar.2 v hvw) (h.idle v hv)
  fresh v hv := by
    rw [List.length_set] at hv
    exact D.fresh_stable v _ _ (hguar.2 v (by omega)) (h.fresh v hv)

theorem Sound.step {c : M.Config} (h : D.Sound c) (w : ℕ) (env : M.Env) (out : Outcome)
    (hok : c.Admits D.Cond (.step w env out)) : D.Sound (c.next (.step w env out)) := by
  cases htask : c.tasks[w]? with
  | none => simpa only [Config.next, htask] using h
  | some task =>
    have hw : w < c.tasks.length := (List.getElem?_eq_some_iff.mp htask).1
    cases task with
    | none => simpa only [Config.next, htask] using h
    | some p =>
      have hp := h.live w p htask
      simp only [Config.next, htask]
      cases p with
      | ret r =>
        refine h.update hw (D.guar_refl h.inv) (fun p hp => by cases hp) (fun _ => ?_)
        cases r with
        | ok a => exact hp
        | error e => exact hp
      | call o k =>
        simp only [Config.Admits, htask] at hok
        have hstep := hp c.store env (D.rely_refl w c.store) h.inv
        cases out with
        | done =>
          exact h.update hw (hstep.done hok).1
            (fun p hp => by cases hp; exact (hstep.done hok).2) (fun hn => by cases hn)
        | lost =>
          exact h.update hw (hstep.lost hok).1
            (fun p hp => by cases hp; exact (hstep.lost hok).2) (fun hn => by cases hn)
        | failed =>
          exact h.update hw (D.guar_refl h.inv)
            (fun p hp => by cases hp; exact hstep.failed hok) (fun hn => by cases hn)
        | crash =>
          exact h.update hw (D.guar_refl h.inv) (fun p hp => by cases hp)
            (fun _ => hstep.crash hok)

/-- Code that keeps the discipline on its own keeps it under every schedule. -/
theorem Sequential.sound (hcode : D.Sequential) {s : M.Store} (hs : D.Inv s)
    (hfresh : ∀ w, D.Fresh w s) {c : M.Config} (hc : Reaches D.Cond s c) : D.Sound c := by
  induction hc with
  | start => exact ⟨hs, fun w p hp => by simp at hp, fun w hw => by simp at hw,
      fun w _ => hfresh w⟩
  | next ch _ hok ih =>
    cases ch with
    | spawn e => exact ih.spawn hcode e
    | step w env out => exact ih.step w env out hok

end Discipline

end Interleave
