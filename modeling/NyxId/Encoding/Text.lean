import Mathlib.Data.Nat.Digits.Defs
import Mathlib.Tactic.Common
import Mathlib.Data.List.TakeWhile
import Mathlib.Data.List.Induction

/-!
Texts and their bytes: UTF-8 is injective and turns concatenation into
concatenation, and the decimal text of an integer determines the integer.
-/

namespace Encoding

def utf8 (s : String) : List UInt8 := s.toByteArray.data.toList

theorem utf8_append (s t : String) : utf8 (s ++ t) = utf8 s ++ utf8 t := by
  simp [utf8]

theorem utf8_injective {s t : String} (h : utf8 s = utf8 t) : s = t := by
  apply String.toByteArray_inj.mp
  apply ByteArray.ext
  exact Array.toList_inj.mp h

@[simp] theorem length_utf8 (s : String) : (utf8 s).length = s.utf8ByteSize := rfl

def hexEncode (bytes : List UInt8) : String :=
  String.ofList (bytes.flatMap fun b =>
    [Nat.digitChar (b.toNat / 16), Nat.digitChar (b.toNat % 16)])

/-- The blanks of Unicode. -/
def isWhitespace (c : Char) : Bool :=
  (9 ≤ c.toNat && c.toNat ≤ 13) || c.toNat = 0x20 || c.toNat = 0x85 || c.toNat = 0xa0 ||
    c.toNat = 0x1680 || (0x2000 ≤ c.toNat && c.toNat ≤ 0x200a) || c.toNat = 0x2028 ||
    c.toNat = 0x2029 || c.toNat = 0x202f || c.toNat = 0x205f || c.toNat = 0x3000

def trim (text : List Char) : List Char :=
  ((text.dropWhile isWhitespace).reverse.dropWhile isWhitespace).reverse

theorem isDigit_of_mem_toDigits {n : ℕ} {c : Char} (hc : c ∈ Nat.toDigits 10 n) : c.isDigit :=
  Nat.isDigit_of_mem_toDigits (by omega) (by omega) hc

theorem toDigits_injective {n m : ℕ} (h : Nat.toDigits 10 n = Nat.toDigits 10 m) : n = m := by
  have hval := congrArg (fun l => Nat.ofDigitChars 10 l 0) h
  simpa only [Nat.ofDigitChars_ten_toDigits] using hval

def decimalChars (n : ℤ) : List Char :=
  (if n < 0 then ['-'] else []) ++ Nat.toDigits 10 n.natAbs

def decimal (n : ℤ) : String := String.ofList (decimalChars n)

theorem mem_decimalChars {n : ℤ} {c : Char} (h : c ∈ decimalChars n) :
    c = '-' ∨ c.isDigit := by
  rcases List.mem_append.mp h with h | h
  · split at h
    · exact .inl (List.mem_singleton.mp h)
    · cases h
  · exact .inr (isDigit_of_mem_toDigits h)

theorem decimalChars_ne_nil (n : ℤ) : decimalChars n ≠ [] := by
  simp [decimalChars, Nat.toDigits_ne_nil]

theorem decimal_ne_empty (n : ℤ) : decimal n ≠ "" := by
  intro h
  exact decimalChars_ne_nil n (String.ofList_injective h)

theorem decimal_injective {n m : ℤ} (h : decimal n = decimal m) : n = m := by
  have hchars : decimalChars n = decimalChars m := String.ofList_injective h
  have hhead : ∀ k : ℤ, ¬ k < 0 → (decimalChars k).head? ≠ some '-' := by
    intro k hk hminus
    simp only [decimalChars, if_neg hk, List.nil_append] at hminus
    exact absurd (isDigit_of_mem_toDigits (List.mem_of_mem_head? hminus)) (by decide)
  by_cases hn : n < 0 <;> by_cases hm : m < 0
  · simp only [decimalChars, if_pos hn, if_pos hm, List.singleton_append, List.cons.injEq,
      true_and] at hchars
    have habs := toDigits_injective hchars
    omega
  · exact absurd (hchars ▸ by simp [decimalChars, hn]) (hhead m hm)
  · exact absurd (hchars.symm ▸ by simp [decimalChars, hm]) (hhead n hn)
  · simp only [decimalChars, if_neg hn, if_neg hm, List.nil_append] at hchars
    have habs := toDigits_injective hchars
    omega

/-- The low bytes of a number, the highest first. -/
def beBytes : ℕ → ℕ → List UInt8
  | 0, _ => []
  | k + 1, n => beBytes k (n / 256) ++ [UInt8.ofNat (n % 256)]

@[simp] theorem length_beBytes (k n : ℕ) : (beBytes k n).length = k := by
  induction k generalizing n with
  | zero => rfl
  | succ k ih => simp [beBytes, ih]

theorem beBytes_injective {k n m : ℕ} (hn : n < 256 ^ k) (hm : m < 256 ^ k)
    (h : beBytes k n = beBytes k m) : n = m := by
  induction k generalizing n m with
  | zero =>
    rw [pow_zero] at hn hm
    omega
  | succ k ih =>
    obtain ⟨hhigh, hlow⟩ := List.append_inj' h rfl
    have hdiv := ih (Nat.div_lt_of_lt_mul (by rw [pow_succ'] at hn; exact hn))
      (Nat.div_lt_of_lt_mul (by rw [pow_succ'] at hm; exact hm)) hhigh
    have hmod := congrArg UInt8.toNat (List.cons.inj hlow).1
    simp only [UInt8.toNat_ofNat'] at hmod
    omega

/-!
Lists cut at a separator, one item after the other: a separator begins a new piece, and any other
item continues the last one.
-/

section

variable {α : Type*} [BEq α] {x y : α} {l last : List α} {init : List (List α)}

theorem exists_splitOn (x : α) (l : List α) : ∃ init last, l.splitOn x = init ++ [last] :=
  ⟨_, _, (List.dropLast_concat_getLast (List.splitOn_ne_nil x l)).symm⟩

variable [LawfulBEq α]

theorem splitOn_concat_self (h : l.splitOn x = init ++ [last]) :
    (l ++ [x]).splitOn x = init ++ [last] ++ [[]] := by
  rw [List.splitOn_append_cons_self, h, List.splitOn_nil]

theorem splitOn_concat_of_ne (hne : y ≠ x) (h : l.splitOn x = init ++ [last]) :
    (l ++ [y]).splitOn x = init ++ [last ++ [y]] := by
  induction l generalizing init last with
  | nil =>
    rw [List.splitOn_nil] at h
    obtain ⟨rfl, hlast⟩ := @List.append_inj' _ [] _ _ _ h rfl
    obtain rfl := List.singleton_inj.mp hlast
    rw [List.nil_append, List.splitOn_eq_singleton (by simpa using hne.symm), List.nil_append]
  | cons a l ih =>
    rw [List.splitOn_cons_eq_if_modifyHead] at h
    rw [List.cons_append, List.splitOn_cons_eq_if_modifyHead]
    obtain ⟨init', last', hsplit⟩ := exists_splitOn x l
    rw [hsplit] at h
    rw [ih hsplit]
    split_ifs at h ⊢
    · rw [← List.cons_append] at h
      obtain ⟨rfl, hlast⟩ := List.append_inj' h rfl
      obtain rfl := List.singleton_inj.mp hlast
      rfl
    · cases init' with
      | nil =>
        obtain ⟨rfl, hlast⟩ := @List.append_inj' _ [] _ _ _ h rfl
        obtain rfl := List.singleton_inj.mp hlast
        rfl
      | cons first rest =>
        obtain ⟨rfl, hlast⟩ := @List.append_inj' _ ((a :: first) :: rest) _ _ _ h rfl
        obtain rfl := List.singleton_inj.mp hlast
        rfl

/-- No piece holds the separator. -/
theorem notMem_of_mem_splitOn {piece : List α} (h : piece ∈ l.splitOn x) : x ∉ piece := by
  induction l using List.reverseRecOn generalizing piece with
  | nil =>
    rw [List.splitOn_nil, List.mem_singleton] at h
    rw [h]
    exact List.not_mem_nil
  | append_singleton l y ih =>
    obtain ⟨init, last, hsplit⟩ := exists_splitOn x l
    rw [hsplit] at ih
    by_cases hy : y = x
    · rw [hy, splitOn_concat_self hsplit, List.mem_append, List.mem_singleton] at h
      rcases h with h | rfl
      · exact ih h
      · exact List.not_mem_nil
    · rw [splitOn_concat_of_ne hy hsplit, List.mem_append, List.mem_singleton] at h
      rcases h with h | rfl
      · exact ih (List.mem_append_left _ h)
      · rw [List.mem_append, List.mem_singleton, not_or]
        exact ⟨ih (List.mem_append_right _ (List.mem_singleton_self last)), Ne.symm hy⟩

/-- A piece holds items of the list only. -/
theorem mem_of_mem_splitOn {piece : List α} (h : piece ∈ l.splitOn x) (hy : y ∈ piece) : y ∈ l := by
  induction l using List.reverseRecOn generalizing piece with
  | nil =>
    rw [List.splitOn_nil, List.mem_singleton] at h
    rwa [h] at hy
  | append_singleton l z ih =>
    obtain ⟨init, last, hsplit⟩ := exists_splitOn x l
    rw [hsplit] at ih
    rw [List.mem_append, List.mem_singleton]
    by_cases hz : z = x
    · rw [hz, splitOn_concat_self hsplit, List.mem_append, List.mem_singleton] at h
      rcases h with h | rfl
      · exact .inl (ih h hy)
      · cases hy
    · rw [splitOn_concat_of_ne hz hsplit, List.mem_append, List.mem_singleton] at h
      rcases h with h | rfl
      · exact .inl (ih (List.mem_append_left _ h) hy)
      · rw [List.mem_append, List.mem_singleton] at hy
        exact hy.imp_left (ih (List.mem_append_right _ (List.mem_singleton_self last)))

end

end Encoding
