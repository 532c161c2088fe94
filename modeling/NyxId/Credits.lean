import Mathlib.Data.List.DropRight
import Mathlib.Data.Nat.Digits.Defs
import Mathlib.Tactic.NormNum
import Mathlib.Tactic.Ring

/-!
Exact credits at 10^-12 resolution. A value carries its range, so every sum or
product is checked before it exists. Unit rates and costs follow from the same
checked arithmetic, and the decimal text of a value determines it.
-/

namespace NyxId

/-- The answer of a checked 128-bit operation. -/
def checkedI128 (x : ℤ) : Option ℤ :=
  if -2 ^ 127 ≤ x ∧ x < 2 ^ 127 then some x else none

def checkedI64 (x : ℤ) : Option ℤ :=
  if -2 ^ 63 ≤ x ∧ x < 2 ^ 63 then some x else none

theorem checkedI128_eq_some {x y : ℤ} :
    checkedI128 x = some y ↔ x = y ∧ -2 ^ 127 ≤ x ∧ x < 2 ^ 127 := by
  unfold checkedI128
  split
  · simp_all
  · rename_i h
    constructor
    · intro hx
      cases hx
    · rintro ⟨-, hb⟩
      exact absurd hb h

theorem checkedI64_eq_some {x y : ℤ} :
    checkedI64 x = some y ↔ x = y ∧ -2 ^ 63 ≤ x ∧ x < 2 ^ 63 := by
  unfold checkedI64
  split
  · simp_all
  · rename_i h
    constructor
    · intro hx
      cases hx
    · rintro ⟨-, hb⟩
      exact absurd hb h

def maxPico : ℤ := 9999999999999999999999999999999999

/-- A credit amount in picocredits. -/
@[ext] structure Credits where
  pico : ℤ
  inRange : -maxPico ≤ pico ∧ pico ≤ maxPico
  deriving DecidableEq

namespace Credits

def scale : ℕ := 1000000000000

def zero : Credits := ⟨0, by decide⟩

theorem one_inRange : -maxPico ≤ 1 ∧ 1 ≤ maxPico := by decide

theorem neg_inRange (c : Credits) : -maxPico ≤ -c.pico ∧ -c.pico ≤ maxPico := by
  have h := c.inRange
  omega

def fromPico (value : ℤ) : Option Credits :=
  if h : -maxPico ≤ value ∧ value ≤ maxPico then some ⟨value, h⟩ else none

def checkedAdd (a b : Credits) : Option Credits :=
  (checkedI128 (a.pico + b.pico)).bind fromPico

def checkedSub (a b : Credits) : Option Credits :=
  (checkedI128 (a.pico - b.pico)).bind fromPico

def checkedMul (a : Credits) (quantity : ℤ) : Option Credits :=
  (checkedI128 (a.pico * quantity)).bind fromPico

def checkedSum (values : List Credits) : Option Credits :=
  values.foldlM checkedAdd zero

def max (a b : Credits) : Credits := if a.pico ≤ b.pico then b else a

def min (a b : Credits) : Credits := if a.pico ≤ b.pico then a else b

@[simp] theorem pico_zero : zero.pico = 0 := rfl

@[simp] theorem pico_max (a b : Credits) : (a.max b).pico = Max.max a.pico b.pico := by
  unfold max
  split <;> omega

@[simp] theorem pico_min (a b : Credits) : (a.min b).pico = Min.min a.pico b.pico := by
  unfold min
  split <;> omega

theorem fromPico_eq_some {x : ℤ} {c : Credits} : fromPico x = some c ↔ x = c.pico := by
  unfold fromPico
  split
  · rw [Option.some.injEq, Credits.ext_iff]
  · rename_i h
    constructor
    · intro hx
      cases hx
    · intro hx
      exact absurd (hx ▸ c.inRange) h

/-- The sum of two amounts fits 128 bits, so only the credit range can fail. -/
theorem checkedAdd_eq_some {a b c : Credits} :
    a.checkedAdd b = some c ↔ a.pico + b.pico = c.pico := by
  have ha := a.inRange
  have hb := b.inRange
  simp only [maxPico] at ha hb
  have h128 : checkedI128 (a.pico + b.pico) = some (a.pico + b.pico) :=
    checkedI128_eq_some.mpr ⟨rfl, by omega, by omega⟩
  rw [checkedAdd, h128, Option.bind_some, fromPico_eq_some]

theorem checkedSub_eq_some {a b c : Credits} :
    a.checkedSub b = some c ↔ a.pico - b.pico = c.pico := by
  have ha := a.inRange
  have hb := b.inRange
  simp only [maxPico] at ha hb
  have h128 : checkedI128 (a.pico - b.pico) = some (a.pico - b.pico) :=
    checkedI128_eq_some.mpr ⟨rfl, by omega, by omega⟩
  rw [checkedSub, h128, Option.bind_some, fromPico_eq_some]

/-- A product in the credit range also fits 128 bits. -/
theorem checkedMul_eq_some {a c : Credits} {q : ℤ} :
    a.checkedMul q = some c ↔ a.pico * q = c.pico := by
  constructor
  · intro h
    obtain ⟨x, hx, hc⟩ := Option.bind_eq_some_iff.mp h
    exact (checkedI128_eq_some.mp hx).1.trans (fromPico_eq_some.mp hc)
  · intro h
    have hc := c.inRange
    simp only [maxPico] at hc
    have h128 : checkedI128 (a.pico * q) = some (a.pico * q) :=
      checkedI128_eq_some.mpr ⟨rfl, by omega, by omega⟩
    rw [checkedMul, h128, Option.bind_some, fromPico_eq_some, h]

private theorem foldlM_checkedAdd (values : List Credits) (a c : Credits)
    (h : values.foldlM checkedAdd a = some c) :
    c.pico = a.pico + (values.map Credits.pico).sum := by
  induction values generalizing a with
  | nil =>
    cases h
    simp
  | cons v rest ih =>
    rw [List.foldlM_cons] at h
    obtain ⟨b, hb, hrest⟩ := Option.bind_eq_some_iff.mp h
    have hsum := ih b hrest
    have hadd := checkedAdd_eq_some.mp hb
    simp only [List.map_cons, List.sum_cons]
    omega

theorem checkedSum_eq_some {values : List Credits} {c : Credits}
    (h : checkedSum values = some c) : c.pico = (values.map Credits.pico).sum := by
  have hsum := foldlM_checkedAdd values zero c h
  rw [pico_zero] at hsum
  omega

/-- The twelve fractional digits of an amount. -/
def fractionDigits (fraction : ℕ) : List Char :=
  (Nat.toDigits 10 fraction).leftpad 12 '0'

def displayChars (c : Credits) : List Char :=
  let magnitude := c.pico.natAbs
  let fraction := magnitude % scale
  (if c.pico < 0 then ['-'] else []) ++ Nat.toDigits 10 (magnitude / scale) ++
    (if fraction ≠ 0 then '.' :: (fractionDigits fraction).rdropWhile (· == '0') else [])

def display (c : Credits) : String := String.ofList c.displayChars

/-- Trailing zeroes are recovered from the fixed width, so trimming loses nothing. -/
private theorem trim_injective {l m : List Char} (hlen : l.length = m.length)
    (h : l.rdropWhile (· == '0') = m.rdropWhile (· == '0')) : l = m := by
  have hzeros : ∀ k : List Char, k.rtakeWhile (· == '0') =
      List.replicate (k.rtakeWhile (· == '0')).length '0' := by
    intro k
    apply List.eq_replicate_iff.mpr
    exact ⟨rfl, fun c hc => by simpa using List.mem_rtakeWhile_imp hc⟩
  have hl := List.rdropWhile_append_rtakeWhile (p := (· == '0')) (l := l)
  have hm := List.rdropWhile_append_rtakeWhile (p := (· == '0')) (l := m)
  have htail : (l.rtakeWhile (· == '0')).length = (m.rtakeWhile (· == '0')).length := by
    have hlenl := congrArg List.length hl
    have hlenm := congrArg List.length hm
    simp only [List.length_append, h] at hlenl hlenm
    omega
  rw [← hl, ← hm, h, hzeros l, hzeros m, htail]

theorem fractionDigits_length {f : ℕ} (hf : f < scale) :
    (fractionDigits f).length = 12 := by
  have hlen : (Nat.toDigits 10 f).length ≤ 12 :=
    (Nat.length_toDigits_le_iff (by omega) (by omega)).mpr hf
  simp only [fractionDigits, List.length_leftpad]
  omega

theorem fractionDigits_value (f : ℕ) :
    Nat.ofDigitChars 10 (fractionDigits f) 0 = f := by
  simp [fractionDigits, List.leftpad, Nat.ofDigitChars_append]

/-- The whole part ends where the digits end. -/
private theorem split_whole {n m : ℕ} {rest rest' : List Char}
    (hrest : ∀ c ∈ rest.head?, ¬ c.isDigit) (hrest' : ∀ c ∈ rest'.head?, ¬ c.isDigit)
    (h : Nat.toDigits 10 n ++ rest = Nat.toDigits 10 m ++ rest') : n = m ∧ rest = rest' := by
  have htake : ∀ (k : ℕ) (r : List Char), (∀ c ∈ r.head?, ¬ c.isDigit) →
      (Nat.toDigits 10 k ++ r).takeWhile Char.isDigit = Nat.toDigits 10 k := by
    intro k r hr
    rw [List.takeWhile_append_of_pos (fun c hc => Nat.isDigit_of_mem_toDigits (by omega) le_rfl hc)]
    cases r with
    | nil => simp
    | cons c r =>
      have hc : ¬ c.isDigit := hr c rfl
      simp [hc]
  have hdigits : Nat.toDigits 10 n = Nat.toDigits 10 m := by
    rw [← htake n rest hrest, ← htake m rest' hrest', h]
  have hn : n = m := by
    have hval := congrArg (fun l => Nat.ofDigitChars 10 l 0) hdigits
    simpa only [Nat.ofDigitChars_ten_toDigits] using hval
  exact ⟨hn, List.append_cancel_left (hdigits ▸ h)⟩

private def fractionText (f : ℕ) : List Char :=
  if f ≠ 0 then '.' :: (fractionDigits f).rdropWhile (· == '0') else []

private theorem fractionText_head (f : ℕ) : ∀ c ∈ (fractionText f).head?, ¬ c.isDigit := by
  intro c hc
  unfold fractionText at hc
  split at hc
  · simp only [List.head?_cons, Option.mem_def, Option.some.injEq] at hc
    subst hc
    decide
  · simp at hc

private theorem fractionText_injective {f g : ℕ} (hf : f < scale) (hg : g < scale)
    (h : fractionText f = fractionText g) : f = g := by
  unfold fractionText at h
  split at h <;> split at h
  · have htrim := trim_injective
      ((fractionDigits_length hf).trans (fractionDigits_length hg).symm)
      (List.cons_injective h)
    rw [← fractionDigits_value f, ← fractionDigits_value g, htrim]
  · cases h
  · cases h
  · omega

/-- The decimal text determines the amount. -/
theorem display_injective {a b : Credits} (h : a.display = b.display) : a = b := by
  have hchars : a.displayChars = b.displayChars := String.ofList_injective h
  have hhead : ∀ c : Credits, ¬ c.pico < 0 → c.displayChars.head? ≠ some '-' := by
    intro c hc hminus
    have hmem : '-' ∈ Nat.toDigits 10 (c.pico.natAbs / scale) := by
      have hne : Nat.toDigits 10 (c.pico.natAbs / scale) ≠ [] := Nat.toDigits_ne_nil
      simp only [displayChars, if_neg hc, List.nil_append] at hminus
      rw [List.head?_append_of_ne_nil _ hne] at hminus
      exact List.mem_of_mem_head? hminus
    exact absurd (Nat.isDigit_of_mem_toDigits (by omega) le_rfl hmem) (by decide)
  have hsign : a.pico < 0 ↔ b.pico < 0 := by
    constructor
    · intro ha
      by_contra hb
      exact hhead b hb (hchars ▸ by simp [displayChars, ha])
    · intro hb
      by_contra ha
      exact hhead a ha (hchars ▸ by simp [displayChars, hb])
  have hbody : Nat.toDigits 10 (a.pico.natAbs / scale) ++ fractionText (a.pico.natAbs % scale) =
      Nat.toDigits 10 (b.pico.natAbs / scale) ++ fractionText (b.pico.natAbs % scale) := by
    have hsame : ∀ c : Credits, c.displayChars = (if c.pico < 0 then ['-'] else []) ++
        (Nat.toDigits 10 (c.pico.natAbs / scale) ++ fractionText (c.pico.natAbs % scale)) := by
      intro c
      simp only [displayChars, fractionText, List.append_assoc]
    rw [hsame a, hsame b, if_congr hsign rfl rfl] at hchars
    exact List.append_cancel_left hchars
  obtain ⟨hwhole, hfraction⟩ :=
    split_whole (fractionText_head _) (fractionText_head _) hbody
  have hscale : 0 < scale := by decide
  have hmod := fractionText_injective (Nat.mod_lt _ hscale) (Nat.mod_lt _ hscale) hfraction
  have habs : a.pico.natAbs = b.pico.natAbs := by
    rw [← Nat.div_add_mod a.pico.natAbs scale, ← Nat.div_add_mod b.pico.natAbs scale,
      hwhole, hmod]
  apply Credits.ext
  omega

end Credits

/-- The exact unit rate, else the legacy rate in microcredits. -/
def ratePico (precise : Option ℤ) (legacyMicros : ℤ) : ℤ :=
  match precise with
  | some value => max value 0
  | none => max legacyMicros 0 * 1000000

/-- Checked exact cost of a quantity at a rate in picocredits. -/
def cost (rate quantity : ℤ) : Option Credits :=
  (Credits.fromPico rate).bind fun unit => unit.checkedMul (max quantity 0)

theorem cost_eq_some {rate quantity : ℤ} {c : Credits} (h : cost rate quantity = some c) :
    c.pico = rate * max quantity 0 := by
  obtain ⟨unit, hunit, hmul⟩ := Option.bind_eq_some_iff.mp h
  rw [Credits.fromPico_eq_some.mp hunit, Credits.checkedMul_eq_some.mp hmul]

end NyxId
