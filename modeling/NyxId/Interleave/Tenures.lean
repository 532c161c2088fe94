import NyxId.Interleave.Collection
import Mathlib.Logic.Function.Basic
import Mathlib.Logic.Relation
import Mathlib.Data.Nat.Notation

/-!
Keys that are held for limited times under one clock. A key is claimed by a holder that
never held before, when nobody holds it or the time of its holder is over.
-/

namespace Interleave

/-- Who holds each key and until when, and the last time each holder was given. -/
structure Tenures (K H : Type) where
  now : ℕ
  held : K → Option (H × ℕ)
  granted : H → Option (K × ℕ)

namespace Tenures

variable {K H : Type} [DecidableEq K] [DecidableEq H] {t t' : Tenures K H} {k : K} {h h' : H}

def start : Tenures K H := ⟨0, fun _ => none, fun _ => none⟩

def give (t : Tenures K H) (k : K) (h : H) (left : Option (H × ℕ)) (until_ : ℕ) : Tenures K H :=
  ⟨t.now, Function.update t.held k left, Function.update t.granted h (some (k, until_))⟩

def Free (t : Tenures K H) (k : K) : Prop := ∀ h until_, t.held k = some (h, until_) → until_ ≤ t.now

inductive Step (t : Tenures K H) : Tenures K H → Prop
  | wait (later : ℕ) (hlater : t.now ≤ later) : Step t { t with now := later }
  | claim (k : K) (h : H) (until_ : ℕ) (hfresh : t.granted h = none) (hfree : t.Free k) :
      Step t (t.give k h (some (h, until_)) until_)
  | extend (k : K) (h : H) (old until_ : ℕ) (hheld : t.held k = some (h, old))
      (hlive : t.now < old) : Step t (t.give k h (some (h, until_)) until_)
  | finish (k : K) (h : H) (old : ℕ) (left : Option (H × ℕ)) (hheld : t.held k = some (h, old))
      (hleft : left = none ∨ left = some (h, 0)) : Step t (t.give k h left 0)
  | lapse (k : K) (h : H) (old : ℕ) (hheld : t.held k = some (h, old)) (hended : old ≤ t.now) :
      Step t { t with held := Function.update t.held k none }

abbrev Steps : Tenures K H → Tenures K H → Prop := Relation.ReflTransGen Step

/-- A holder has its key as long as its time lasts, and whoever has a key knows its time. -/
structure Exact (t : Tenures K H) : Prop where
  known : ∀ k h until_, t.held k = some (h, until_) → t.granted h = some (k, until_)
  kept : ∀ k h until_, t.granted h = some (k, until_) → t.now < until_ →
    t.held k = some (h, until_)

/-- The time of a holder lasts. -/
def Live (t : Tenures K H) (k : K) (h : H) : Prop :=
  ∃ until_, t.granted h = some (k, until_) ∧ t.now < until_

/-- The time of a holder was given and is over. -/
def Over (t : Tenures K H) (h : H) : Prop := ∃ k until_, t.granted h = some (k, until_) ∧ until_ ≤ t.now

omit [DecidableEq K] [DecidableEq H] in
theorem exact_start : Exact (start : Tenures K H) :=
  ⟨fun _ _ _ hheld => (nomatch hheld), fun _ _ _ hgranted => (nomatch hgranted)⟩

/-- Giving a key to a holder that is the only one with a claim to it. -/
theorem Exact.give (ht : t.Exact) {left : Option (H × ℕ)} {until_ : ℕ}
    (hleft : left = some (h, until_) ∨ left = none ∧ until_ = 0)
    (hothers : ∀ h' old, t.held k = some (h', old) → h' = h ∨ old ≤ t.now)
    (hone : ∀ k' old, t.held k' = some (h, old) → k' = k) :
    (t.give k h left until_).Exact where
  known k' h' old hheld := by
    change Function.update t.held k left k' = _ at hheld
    change Function.update t.granted h (some (k, until_)) h' = _
    by_cases hkey : k' = k
    · subst hkey
      rw [Function.update_self] at hheld
      rcases hleft with rfl | ⟨rfl, rfl⟩
      · obtain ⟨rfl, rfl⟩ := Prod.mk.inj (Option.some.inj hheld)
        rw [Function.update_self]
      · cases hheld
    · rw [Function.update_of_ne hkey] at hheld
      have hne : h' ≠ h := fun heq => hkey (hone k' old (heq ▸ hheld))
      rw [Function.update_of_ne hne]
      exact ht.known k' h' old hheld
  kept k' h' old hgranted hlive := by
    change Function.update t.granted h (some (k, until_)) h' = _ at hgranted
    change Function.update t.held k left k' = _
    change t.now < old at hlive
    by_cases hholder : h' = h
    · subst hholder
      rw [Function.update_self] at hgranted
      obtain ⟨rfl, rfl⟩ := Prod.mk.inj (Option.some.inj hgranted)
      rcases hleft with rfl | ⟨rfl, rfl⟩
      · rw [Function.update_self]
      · omega
    · rw [Function.update_of_ne hholder] at hgranted
      have hheld := ht.kept k' h' old hgranted hlive
      have hkey : k' ≠ k := by
        rintro rfl
        rcases hothers h' old hheld with hsame | hended
        · exact hholder hsame
        · omega
      rw [Function.update_of_ne hkey]
      exact hheld

theorem Step.exact (hstep : Step t t') (ht : t.Exact) : t'.Exact := by
  cases hstep with
  | wait later hlater =>
    exact ⟨ht.known, fun k h until_ hgranted hlive =>
      ht.kept k h until_ hgranted (Nat.lt_of_le_of_lt hlater hlive)⟩
  | claim k h until_ hfresh hfree =>
    apply ht.give (Or.inl rfl)
    · exact fun h' old hheld => Or.inr (hfree h' old hheld)
    · intro k' old hheld
      have hgranted := ht.known k' h old hheld
      rw [hfresh] at hgranted
      cases hgranted
  | extend k h old until_ hheld hlive =>
    apply ht.give (Or.inl rfl)
    · intro h' old' hheld'
      rw [hheld] at hheld'
      exact Or.inl (Prod.mk.inj (Option.some.inj hheld')).1.symm
    · intro k' old' hheld'
      have hgranted := (ht.known k' h old' hheld').symm.trans (ht.known k h old hheld)
      exact (Prod.mk.inj (Option.some.inj hgranted)).1
  | finish k h old left hheld hleft =>
    apply ht.give
    · rcases hleft with rfl | rfl
      · exact Or.inr ⟨rfl, rfl⟩
      · exact Or.inl rfl
    · intro h' old' hheld'
      rw [hheld] at hheld'
      exact Or.inl (Prod.mk.inj (Option.some.inj hheld')).1.symm
    · intro k' old' hheld'
      have hgranted := (ht.known k' h old' hheld').symm.trans (ht.known k h old hheld)
      exact (Prod.mk.inj (Option.some.inj hgranted)).1
  | lapse k h old hheld hended =>
    refine ⟨fun k' h' until_ hheld' => ?_, fun k' h' until_ hgranted hlive => ?_⟩
    · change Function.update t.held k none k' = _ at hheld'
      by_cases hkey : k' = k
      · subst hkey
        rw [Function.update_self] at hheld'
        cases hheld'
      · rw [Function.update_of_ne hkey] at hheld'
        exact ht.known k' h' until_ hheld'
    · change Function.update t.held k none k' = _
      change t.now < until_ at hlive
      have hheld' := ht.kept k' h' until_ hgranted hlive
      have hkey : k' ≠ k := by
        rintro rfl
        rw [hheld] at hheld'
        have hend := (Prod.mk.inj (Option.some.inj hheld')).2
        omega
      rw [Function.update_of_ne hkey]
      exact hheld'

theorem Steps.exact (hsteps : Steps t t') (ht : t.Exact) : t'.Exact := by
  induction hsteps with
  | refl => exact ht
  | tail _ hstep ih => exact hstep.exact ih

omit [DecidableEq K] [DecidableEq H] in
/-- Two holders whose time lasts never have one key. -/
theorem Exact.exclusive (ht : t.Exact) (h₁ : t.Live k h) (h₂ : t.Live k h') : h = h' := by
  obtain ⟨until₁, hgranted₁, hlive₁⟩ := h₁
  obtain ⟨until₂, hgranted₂, hlive₂⟩ := h₂
  have hheld := (ht.kept k h until₁ hgranted₁ hlive₁).symm.trans
    (ht.kept k h' until₂ hgranted₂ hlive₂)
  exact (Prod.mk.inj (Option.some.inj hheld)).1

omit [DecidableEq K] [DecidableEq H] in
/-- A key can be claimed only after the time of everyone who had it. -/
theorem Exact.ended_of_free (ht : t.Exact) (hfree : t.Free k) {until_ : ℕ}
    (hgranted : t.granted h = some (k, until_)) : until_ ≤ t.now := by
  by_contra hlive
  exact hlive (hfree h until_ (ht.kept k h until_ hgranted (by omega)))

omit [DecidableEq K] [DecidableEq H] in
/-- A holder whose time is over is shown at most as the one whose time is over. -/
theorem Exact.ended_of_over (ht : t.Exact) (hover : t.Over h) {until_ : ℕ}
    (hheld : t.held k = some (h, until_)) : until_ ≤ t.now := by
  obtain ⟨k', old, hgranted, hended⟩ := hover
  have hsame := (ht.known k h until_ hheld).symm.trans hgranted
  have hend := (Prod.mk.inj (Option.some.inj hsame)).2
  omega

/-- Who was once given a key is never given another. -/
theorem Step.granted (hstep : Step t t') (ht : t.Exact) {until_ : ℕ}
    (hgranted : t.granted h = some (k, until_)) : ∃ later, t'.granted h = some (k, later) := by
  have hgive : ∀ k' h' left until', (h' = h → k' = k) →
      ∃ later, (t.give k' h' left until').granted h = some (k, later) := by
    intro k' h' left until' hsame
    by_cases hholder : h = h'
    · subst hholder
      obtain rfl := hsame rfl
      exact ⟨until', Function.update_self ..⟩
    · exact ⟨until_, (Function.update_of_ne hholder ..).trans hgranted⟩
  have hkey : ∀ k' old, t.held k' = some (h, old) → k' = k := fun k' old hheld =>
    (Prod.mk.inj (Option.some.inj ((ht.known k' h old hheld).symm.trans hgranted))).1
  cases hstep with
  | wait later hlater => exact ⟨until_, hgranted⟩
  | claim k' h' until' hfresh hfree =>
    apply hgive
    rintro rfl
    rw [hfresh] at hgranted
    cases hgranted
  | extend k' h' old until' hheld hlive =>
    apply hgive
    rintro rfl
    exact hkey k' old hheld
  | finish k' h' old left hheld hleft =>
    apply hgive
    rintro rfl
    exact hkey k' old hheld
  | lapse k' h' old hheld hended => exact ⟨until_, hgranted⟩

theorem Steps.granted (hsteps : Steps t t') (ht : t.Exact) {until_ : ℕ}
    (hgranted : t.granted h = some (k, until_)) : ∃ later, t'.granted h = some (k, later) := by
  induction hsteps with
  | refl => exact ⟨until_, hgranted⟩
  | tail hsteps hstep ih =>
    obtain ⟨later, hlater⟩ := ih
    exact hstep.granted (Steps.exact hsteps ht) hlater

/-- A time that is over is not given again. -/
theorem Step.over (hstep : Step t t') (ht : t.Exact) (hover : t.Over h) : t'.Over h := by
  obtain ⟨k, until_, hgranted, hended⟩ := hover
  have hgive : ∀ k' h' left until', (h' = h → until' ≤ t.now) → (t.give k' h' left until').Over h := by
    intro k' h' left until' hsame
    by_cases hholder : h = h'
    · subst hholder
      exact ⟨k', until', Function.update_self .., hsame rfl⟩
    · exact ⟨k, until_, (Function.update_of_ne hholder ..).trans hgranted, hended⟩
  cases hstep with
  | wait later hlater => exact ⟨k, until_, hgranted, Nat.le_trans hended hlater⟩
  | claim k' h' until' hfresh hfree =>
    apply hgive
    rintro rfl
    rw [hfresh] at hgranted
    cases hgranted
  | extend k' h' old until' hheld hlive =>
    apply hgive
    rintro rfl
    have hpast := ht.ended_of_over ⟨k, until_, hgranted, hended⟩ hheld
    omega
  | finish k' h' old left hheld hleft => exact hgive _ _ _ _ fun _ => Nat.zero_le _
  | lapse k' h' old hheld hended' => exact ⟨k, until_, hgranted, hended⟩

theorem Steps.over (hsteps : Steps t t') (ht : t.Exact) (hover : t.Over h) : t'.Over h := by
  induction hsteps with
  | refl => exact hover
  | tail hsteps hstep ih => exact hstep.over (Steps.exact hsteps ht) ih

/-- A grant that takes place only with a positive answer. -/
def grantIf (answer : Bool) (granted : H → Option (K × ℕ)) (h : H) (k : K) (until_ : ℕ) :
    H → Option (K × ℕ) :=
  if answer then Function.update granted h (some (k, until_)) else granted

section

variable {V : Type} (view : V → H × ℕ) (docs : Collection K V)

/-- The holders that documents show. -/
def heldBy (k : K) : Option (H × ℕ) := (docs.lookup k).map view

omit [DecidableEq H] in
theorem heldBy_insert (k : K) (v : V) :
    heldBy view (docs.insert k v) = Function.update (heldBy view docs) k (some (view v)) := by
  funext k'
  by_cases hkey : k' = k
  · subst hkey
    rw [Function.update_self, heldBy, AList.lookup_insert, Option.map_some]
  · rw [Function.update_of_ne hkey, heldBy, heldBy, AList.lookup_insert_ne hkey]

omit [DecidableEq H] in
theorem heldBy_erase (k : K) :
    heldBy view (docs.erase k) = Function.update (heldBy view docs) k none := by
  funext k'
  by_cases hkey : k' = k
  · subst hkey
    rw [Function.update_self, heldBy, AList.lookup_erase, Option.map_none]
  · rw [Function.update_of_ne hkey, heldBy, heldBy, AList.lookup_erase_ne hkey]

omit [DecidableEq H] in
theorem heldBy_of_lookup {docs : Collection K V} {k : K} {v : V} (h : docs.lookup k = some v) :
    heldBy view docs k = some (view v) := by rw [heldBy, h, Option.map_some]

end

end Tenures

end Interleave
