import NyxId.Encoding.Text
import Mathlib.Data.List.Sort
import Mathlib.Tactic.IntervalCases

/-!
JSON values and their compact text. The text determines the value, and contains no
control character.
-/

namespace Encoding

def isNumberChar (c : Char) : Bool := c.isDigit || c == '-' || c == '+' || c == '.' || c == 'e' || c == 'E'

/-- A number, carried by the text that stands for it. -/
structure JsonNumber where
  text : List Char
  nonempty : text ≠ []
  numeric : ∀ c ∈ text, isNumberChar c = true
  deriving DecidableEq

/-- Members of an object are in the order of the map that holds them. -/
inductive Json where
  | null
  | bool (value : Bool)
  | number (value : JsonNumber)
  | string (value : String)
  | array (items : List Json)
  | object (members : List (String × Json))

def hexDigit (n : ℕ) : Char := Char.ofNat (if n < 10 then 48 + n else 87 + n)

/-- Quotes, backslashes and control characters are escaped. -/
def escapeChar (c : Char) : List Char :=
  if c = '"' then ['\\', '"']
  else if c = '\\' then ['\\', '\\']
  else if c = '\u0008' then ['\\', 'b']
  else if c = '\t' then ['\\', 't']
  else if c = '\n' then ['\\', 'n']
  else if c = '\u000c' then ['\\', 'f']
  else if c = '\r' then ['\\', 'r']
  else if c.toNat < 32 then ['\\', 'u', '0', '0', hexDigit (c.toNat / 16), hexDigit (c.toNat % 16)]
  else [c]

def writeString (s : String) : List Char := '"' :: s.toList.flatMap escapeChar ++ ['"']

mutual

def writeJson : Json → List Char
  | .null => "null".toList
  | .bool true => "true".toList
  | .bool false => "false".toList
  | .number n => n.text
  | .string s => writeString s
  | .array [] => ['[', ']']
  | .array (item :: items) => '[' :: (writeJson item ++ writeItems items)
  | .object [] => ['{', '}']
  | .object ((key, value) :: members) =>
    '{' :: (writeString key ++ ':' :: (writeJson value ++ writeMembers members))

def writeItems : List Json → List Char
  | [] => [']']
  | item :: items => ',' :: (writeJson item ++ writeItems items)

def writeMembers : List (String × Json) → List Char
  | [] => ['}']
  | (key, value) :: members =>
    ',' :: (writeString key ++ ':' :: (writeJson value ++ writeMembers members))

end

/-- The character that an escape stands for, and what follows it. -/
def unescape : List Char → Option (Char × List Char)
  | '\\' :: 'b' :: rest => some ('\u0008', rest)
  | '\\' :: 't' :: rest => some ('\t', rest)
  | '\\' :: 'n' :: rest => some ('\n', rest)
  | '\\' :: 'f' :: rest => some ('\u000c', rest)
  | '\\' :: 'r' :: rest => some ('\r', rest)
  | '\\' :: 'u' :: '0' :: '0' :: high :: low :: rest =>
    some (Char.ofNat ((if high.isDigit then high.toNat - 48 else high.toNat - 87) * 16 +
      (if low.isDigit then low.toNat - 48 else low.toNat - 87)), rest)
  | '\\' :: c :: rest => some (c, rest)
  | '"' :: _ => none
  | c :: rest => some (c, rest)
  | [] => none

private theorem unescape_hex {k : ℕ} (hk : k < 32) (rest : List Char) :
    unescape ('\\' :: 'u' :: '0' :: '0' :: hexDigit (k / 16) :: hexDigit (k % 16) :: rest) =
      some (Char.ofNat k, rest) := by
  interval_cases k <;> rfl

private theorem unescape_plain {c : Char} (hquote : c ≠ '"') (hescape : c ≠ '\\')
    (rest : List Char) : unescape (c :: rest) = some (c, rest) := by
  unfold unescape
  split <;> simp_all

theorem unescape_escapeChar (c : Char) (rest : List Char) :
    unescape (escapeChar c ++ rest) = some (c, rest) := by
  unfold escapeChar
  split_ifs with hquote hescape hb ht hn hf hr hcontrol
  · subst hquote
    rfl
  · subst hescape
    rfl
  · subst hb
    rfl
  · subst ht
    rfl
  · subst hn
    rfl
  · subst hf
    rfl
  · subst hr
    rfl
  · have hhex := unescape_hex hcontrol rest
    rwa [Char.ofNat_toNat] at hhex
  · exact unescape_plain hquote hescape rest

/-- An escaped text ends at the first quote that no escape accounts for. -/
theorem escaped_append_inj {a b r s : List Char}
    (h : a.flatMap escapeChar ++ '"' :: r = b.flatMap escapeChar ++ '"' :: s) :
    a = b ∧ r = s := by
  induction a generalizing b with
  | nil =>
    cases b with
    | nil => simpa using h
    | cons d b =>
      have hread := congrArg unescape h
      rw [List.flatMap_cons, List.append_assoc, unescape_escapeChar] at hread
      cases hread
  | cons c a ih =>
    cases b with
    | nil =>
      have hread := congrArg unescape h
      rw [List.flatMap_cons, List.append_assoc, unescape_escapeChar] at hread
      cases hread
    | cons d b =>
      have hread := congrArg unescape h
      rw [List.flatMap_cons, List.flatMap_cons, List.append_assoc, List.append_assoc,
        unescape_escapeChar, unescape_escapeChar] at hread
      obtain ⟨rfl, hrest⟩ := Prod.mk.inj (Option.some.inj hread)
      obtain ⟨rfl, hend⟩ := ih hrest
      exact ⟨rfl, hend⟩

theorem writeString_append_inj {a b : String} {r s : List Char}
    (h : writeString a ++ r = writeString b ++ s) : a = b ∧ r = s := by
  simp only [writeString, List.cons_append, List.append_assoc, List.cons.injEq, true_and] at h
  obtain ⟨hchars, hrest⟩ := escaped_append_inj h
  exact ⟨String.toList_injective hchars, hrest⟩

/-- What tells the values apart by their first character. -/
def Json.kind : Json → ℕ
  | .null => 1
  | .bool _ => 2
  | .number _ => 4
  | .string _ => 5
  | .array _ => 6
  | .object _ => 7

def kindOfChar (c : Char) : ℕ :=
  if c = 'n' then 1 else if c = 't' then 2 else if c = 'f' then 2
  else if isNumberChar c then 4 else if c = '"' then 5 else if c = '[' then 6
  else if c = '{' then 7 else 0

theorem kind_head (v : Json) : ∃ c rest, writeJson v = c :: rest ∧ kindOfChar c = v.kind ∧
    v.kind ≠ 0 := by
  cases v with
  | null => exact ⟨_, _, by rw [writeJson]; rfl, by decide, by decide⟩
  | bool value =>
    cases value with
    | false => exact ⟨_, _, by rw [writeJson]; rfl, by decide, by decide⟩
    | true => exact ⟨_, _, by rw [writeJson]; rfl, by decide, by decide⟩
  | number n =>
    obtain ⟨c, rest, htext⟩ := List.exists_cons_of_ne_nil n.nonempty
    have hnumeric := n.numeric c (by rw [htext]; exact List.mem_cons_self)
    refine ⟨c, rest, by rw [writeJson, htext], ?_, by simp [Json.kind]⟩
    have hletters : c ≠ 'n' ∧ c ≠ 't' ∧ c ≠ 'f' := by
      refine ⟨?_, ?_, ?_⟩ <;> (rintro rfl; revert hnumeric; decide)
    simp [kindOfChar, hletters, hnumeric, Json.kind]
  | string s => exact ⟨_, _, by rw [writeJson]; rfl, rfl, by simp [Json.kind]⟩
  | array items =>
    cases items with
    | nil => exact ⟨_, _, by rw [writeJson], by decide, by simp [Json.kind]⟩
    | cons item items => exact ⟨_, _, by rw [writeJson], rfl, by simp [Json.kind]⟩
  | object members =>
    cases members with
    | nil => exact ⟨_, _, by rw [writeJson], by decide, by simp [Json.kind]⟩
    | cons member members => exact ⟨_, _, by rw [writeJson], rfl, by simp [Json.kind]⟩

theorem kind_eq {v w : Json} {r s : List Char} (h : writeJson v ++ r = writeJson w ++ s) :
    v.kind = w.kind := by
  obtain ⟨c, rest, hv, hkind, -⟩ := kind_head v
  obtain ⟨d, rest', hw, hkind', -⟩ := kind_head w
  rw [hv, hw, List.cons_append, List.cons_append] at h
  obtain ⟨rfl, -⟩ := List.cons.inj h
  exact hkind.symm.trans hkind'

example : writeJson (.array [.null, .bool true, .string "\n"]) =
    "[null,true,\"\\n\"]".toList := by decide

/-- What follows a value does not continue a number. -/
def Ends (rest : List Char) : Prop := ∀ c ∈ rest.head?, isNumberChar c = false

theorem ends_cons {c : Char} {rest : List Char} (h : isNumberChar c = false) : Ends (c :: rest) := by
  intro d hd
  obtain rfl : c = d := by simpa using hd
  exact h

theorem ends_writeItems (items : List Json) (rest : List Char) :
    Ends (writeItems items ++ rest) := by
  cases items <;> exact ends_cons (by decide)

theorem ends_writeMembers (members : List (String × Json)) (rest : List Char) :
    Ends (writeMembers members ++ rest) := by
  cases members <;> exact ends_cons (by decide)

theorem JsonNumber.append_inj {n m : JsonNumber} {r s : List Char} (hr : Ends r) (hs : Ends s)
    (h : n.text ++ r = m.text ++ s) : n = m ∧ r = s := by
  have htake : ∀ (k : JsonNumber) (t : List Char), Ends t →
      (k.text ++ t).takeWhile isNumberChar = k.text := by
    intro k t ht
    rw [List.takeWhile_append_of_pos k.numeric]
    cases t with
    | nil => simp
    | cons c t =>
      have hc := ht c rfl
      simp [hc]
  have htext : n.text = m.text := by rw [← htake n r hr, ← htake m s hs, h]
  refine ⟨?_, List.append_cancel_left (htext ▸ h)⟩
  cases n
  cases m
  cases htext
  rfl

private theorem item_ne_close (v : Json) {c : Char} (hc : kindOfChar c = 0) (r s : List Char) :
    c :: r ≠ writeJson v ++ s := by
  obtain ⟨d, rest, hv, hkind, hne⟩ := kind_head v
  rw [hv, List.cons_append]
  intro h
  obtain ⟨rfl, -⟩ := List.cons.inj h
  exact hne (hkind.symm.trans hc)

mutual

/-- The text of a value determines the value and where it ends. -/
theorem writeJson_append_inj (v w : Json) (r s : List Char) (hr : Ends r) (hs : Ends s)
    (h : writeJson v ++ r = writeJson w ++ s) : v = w ∧ r = s := by
  have hkind := kind_eq h
  cases v <;> cases w <;> simp only [Json.kind, Nat.reduceEqDiff] at hkind
  · exact ⟨rfl, List.append_cancel_left h⟩
  · rename_i a b
    cases a <;> cases b <;> simp [writeJson] at h ⊢
    · exact h
    · exact h
  · rename_i n m
    simp only [writeJson] at h
    obtain ⟨rfl, hrest⟩ := JsonNumber.append_inj hr hs h
    exact ⟨rfl, hrest⟩
  · rename_i a b
    simp only [writeJson] at h
    obtain ⟨rfl, hrest⟩ := writeString_append_inj h
    exact ⟨rfl, hrest⟩
  · rename_i vs ws
    match vs, ws with
    | [], [] => exact ⟨rfl, List.append_cancel_left h⟩
    | [], item :: items =>
      simp only [writeJson, List.cons_append, List.nil_append, List.cons.injEq, true_and,
        List.append_assoc] at h
      exact absurd h (item_ne_close item (by decide) _ _)
    | item :: items, [] =>
      simp only [writeJson, List.cons_append, List.nil_append, List.cons.injEq, true_and,
        List.append_assoc] at h
      exact absurd h.symm (item_ne_close item (by decide) _ _)
    | item :: items, item' :: items' =>
      simp only [writeJson, List.cons_append, List.cons.injEq, true_and, List.append_assoc] at h
      obtain ⟨rfl, hrest⟩ := writeJson_append_inj item item' _ _ (ends_writeItems items r)
        (ends_writeItems items' s) h
      obtain ⟨rfl, hend⟩ := writeItems_append_inj items items' r s hrest
      exact ⟨rfl, hend⟩
  · rename_i vs ws
    match vs, ws with
    | [], [] => exact ⟨rfl, List.append_cancel_left h⟩
    | [], (key, value) :: members => simp [writeJson, writeString] at h
    | (key, value) :: members, [] => simp [writeJson, writeString] at h
    | (key, value) :: members, (key', value') :: members' =>
      simp only [writeJson, List.cons_append, List.cons.injEq, true_and, List.append_assoc] at h
      obtain ⟨rfl, hvalue⟩ := writeString_append_inj h
      obtain ⟨rfl, hrest⟩ := writeJson_append_inj value value' _ _ (ends_writeMembers members r)
        (ends_writeMembers members' s) (List.cons.inj hvalue).2
      obtain ⟨rfl, hend⟩ := writeMembers_append_inj members members' r s hrest
      exact ⟨rfl, hend⟩

theorem writeItems_append_inj (vs ws : List Json) (r s : List Char)
    (h : writeItems vs ++ r = writeItems ws ++ s) : vs = ws ∧ r = s := by
  match vs, ws with
  | [], [] => exact ⟨rfl, List.append_cancel_left h⟩
  | [], w :: ws => simp [writeItems] at h
  | v :: vs, [] => simp [writeItems] at h
  | v :: vs, w :: ws =>
    simp only [writeItems, List.cons_append, List.cons.injEq, true_and, List.append_assoc] at h
    obtain ⟨rfl, hrest⟩ := writeJson_append_inj v w _ _ (ends_writeItems vs r)
      (ends_writeItems ws s) h
    obtain ⟨rfl, hend⟩ := writeItems_append_inj vs ws r s hrest
    exact ⟨rfl, hend⟩

theorem writeMembers_append_inj (vs ws : List (String × Json)) (r s : List Char)
    (h : writeMembers vs ++ r = writeMembers ws ++ s) : vs = ws ∧ r = s := by
  match vs, ws with
  | [], [] => exact ⟨rfl, List.append_cancel_left h⟩
  | [], (key, value) :: ws => simp [writeMembers] at h
  | (key, value) :: vs, [] => simp [writeMembers] at h
  | (key, value) :: vs, (key', value') :: ws =>
    simp only [writeMembers, List.cons_append, List.cons.injEq, true_and, List.append_assoc] at h
    obtain ⟨rfl, hvalue⟩ := writeString_append_inj h
    obtain ⟨rfl, hrest⟩ := writeJson_append_inj value value' _ _ (ends_writeMembers vs r)
      (ends_writeMembers ws s) (List.cons.inj hvalue).2
    obtain ⟨rfl, hend⟩ := writeMembers_append_inj vs ws r s hrest
    exact ⟨rfl, hend⟩

end

theorem writeJson_injective {v w : Json} (h : writeJson v = writeJson w) : v = w := by
  have hends : Ends [] := by simp [Ends]
  exact (writeJson_append_inj v w [] [] hends hends (by rw [h])).1

def Printable (text : List Char) : Prop := ∀ c ∈ text, 32 ≤ c.toNat

instance (text : List Char) : Decidable (Printable text) :=
  decidable_of_iff ((text.all fun c => decide (32 ≤ c.toNat)) = true) (by simp [Printable])

theorem Printable.append {a b : List Char} (ha : Printable a) (hb : Printable b) :
    Printable (a ++ b) := by
  intro c hc
  rcases List.mem_append.mp hc with hc | hc
  · exact ha c hc
  · exact hb c hc

theorem Printable.cons {c : Char} {b : List Char} (hc : 32 ≤ c.toNat) (hb : Printable b) :
    Printable (c :: b) := by
  intro d hd
  rcases List.mem_cons.mp hd with rfl | hd
  · exact hc
  · exact hb d hd

private theorem printable_hex {n : ℕ} (h : n < 16) : 32 ≤ (hexDigit n).toNat := by
  interval_cases n <;> decide

private theorem printable_escapeChar (c : Char) : Printable (escapeChar c) := by
  unfold escapeChar
  split_ifs with hquote hescape hb ht hn hf hr hcontrol
  on_goal 8 =>
    have hhigh := printable_hex (by omega : c.toNat / 16 < 16)
    have hlow := printable_hex (by omega : c.toNat % 16 < 16)
    simp [Printable, hhigh, hlow]
  on_goal 8 =>
    intro d hd
    obtain rfl := List.mem_singleton.mp hd
    omega
  all_goals decide

private theorem printable_writeString (s : String) : Printable (writeString s) := by
  refine .cons (by decide) (.append ?_ (.cons (by decide) (by simp [Printable])))
  intro c hc
  obtain ⟨d, -, hc⟩ := List.mem_flatMap.mp hc
  exact printable_escapeChar d c hc

private theorem printable_number (n : JsonNumber) : Printable n.text := by
  intro c hc
  have hnumeric := n.numeric c hc
  simp only [isNumberChar, Bool.or_eq_true, beq_iff_eq] at hnumeric
  rcases hnumeric with ((((hdigit | rfl) | rfl) | rfl) | rfl) | rfl
  · have hlo : 48 ≤ c.toNat := (Char.isDigit_iff_toNat.mp hdigit).1
    omega
  all_goals decide

mutual

/-- The text of a value contains no control character. -/
theorem printable_writeJson (v : Json) : Printable (writeJson v) := by
  match v with
  | .null | .bool true | .bool false | .array [] | .object [] =>
    simp only [writeJson]
    decide
  | .number n => exact printable_number n
  | .string s => exact printable_writeString s
  | .array (item :: items) =>
    exact .cons (by decide) (.append (printable_writeJson item) (printable_writeItems items))
  | .object ((key, value) :: members) =>
    exact .cons (by decide) (.append (printable_writeString key) (.cons (by decide)
      (.append (printable_writeJson value) (printable_writeMembers members))))

theorem printable_writeItems (vs : List Json) : Printable (writeItems vs) := by
  match vs with
  | [] =>
    simp only [writeItems]
    decide
  | v :: vs =>
    exact .cons (by decide) (.append (printable_writeJson v) (printable_writeItems vs))

theorem printable_writeMembers (vs : List (String × Json)) : Printable (writeMembers vs) := by
  match vs with
  | [] =>
    simp only [writeMembers]
    decide
  | (key, value) :: vs =>
    exact .cons (by decide) (.append (printable_writeString key) (.cons (by decide)
      (.append (printable_writeJson value) (printable_writeMembers vs))))

end

theorem writeJson_ne_nil (v : Json) : writeJson v ≠ [] := by
  obtain ⟨c, rest, hv, -, -⟩ := kind_head v
  simp [hv]

end Encoding
