import NyxId.Encoding.Json
import Mathlib.Data.List.Perm.Basic
import Mathlib.Data.List.Forall2
import Mathlib.Data.String.Basic

/-!
JSON values up to the order of object members. Sorting the members of every object by key
gives values of one text exactly when they are the same up to that order.
-/

namespace Encoding

mutual

/-- The same value, members of objects in any order. -/
inductive Json.Same : Json → Json → Prop where
  | refl (v : Json) : Json.Same v v
  | array {vs ws : List Json} (h : SameItems vs ws) : Json.Same (.array vs) (.array ws)
  | object {members middle members' : List (String × Json)} (hvalues : SameMembers members middle)
      (horder : middle.Perm members') : Json.Same (.object members) (.object members')

inductive SameItems : List Json → List Json → Prop where
  | nil : SameItems [] []
  | cons {v w : Json} {vs ws : List Json} (hhead : Json.Same v w) (hrest : SameItems vs ws) :
      SameItems (v :: vs) (w :: ws)

inductive SameMembers : List (String × Json) → List (String × Json) → Prop where
  | nil : SameMembers [] []
  | cons {key : String} {v w : Json} {ms ns : List (String × Json)} (hhead : Json.Same v w)
      (hrest : SameMembers ms ns) : SameMembers ((key, v) :: ms) ((key, w) :: ns)

end

def sortMembers (members : List (String × Json)) : List (String × Json) :=
  members.insertionSort fun m n => m.1 ≤ n.1

mutual

/-- Every object with its members in the order of their keys. -/
def sortKeys : Json → Json
  | .array items => .array (sortItems items)
  | .object members => .object (sortMembers (sortValues members))
  | .null => .null
  | .bool value => .bool value
  | .number value => .number value
  | .string value => .string value

def sortItems : List Json → List Json
  | [] => []
  | item :: items => sortKeys item :: sortItems items

def sortValues : List (String × Json) → List (String × Json)
  | [] => []
  | (key, value) :: members => (key, sortKeys value) :: sortValues members

end

theorem sortValues_eq_map (members : List (String × Json)) :
    sortValues members = members.map fun m => (m.1, sortKeys m.2) := by
  induction members with
  | nil => rw [sortValues, List.map_nil]
  | cons m members ih => rw [sortValues, ih, List.map_cons]

theorem perm_sortMembers (members : List (String × Json)) : (sortMembers members).Perm members :=
  List.perm_insertionSort _ members

mutual

/-- Values that sort to the same value are the same up to the order of members. -/
theorem same_of_sortKeys (v w : Json) (h : sortKeys v = sortKeys w) : Json.Same v w := by
  match v, w with
  | .array vs, .array ws =>
    rw [sortKeys, sortKeys] at h
    exact .array (same_of_sortItems vs ws (Json.array.inj h))
  | .object ms, .object ns =>
    rw [sortKeys, sortKeys] at h
    have hperm : (sortValues ms).Perm (sortValues ns) :=
      (perm_sortMembers _).symm.trans ((Json.object.inj h) ▸ perm_sortMembers _)
    have hvalues : List.Forall₂ (fun x m => x = (m.1, sortKeys m.2)) (sortValues ns) ns := by
      rw [sortValues_eq_map, List.forall₂_map_left_iff]
      exact List.forall₂_same.mpr fun _ _ => rfl
    obtain ⟨middle, hmiddle, horder⟩ := List.perm_comp_forall₂ hperm hvalues
    exact .object (same_of_sortValues ms middle hmiddle) horder
  | .null, .null => exact .refl _
  | .bool a, .bool b =>
    rw [sortKeys, sortKeys] at h
    rw [h]
    exact .refl _
  | .number a, .number b =>
    rw [sortKeys, sortKeys] at h
    rw [h]
    exact .refl _
  | .string a, .string b =>
    rw [sortKeys, sortKeys] at h
    rw [h]
    exact .refl _
  | .null, .bool _ | .null, .number _ | .null, .string _ | .null, .array _ | .null, .object _
  | .bool _, .null | .bool _, .number _ | .bool _, .string _ | .bool _, .array _
  | .bool _, .object _ | .number _, .null | .number _, .bool _ | .number _, .string _
  | .number _, .array _ | .number _, .object _ | .string _, .null | .string _, .bool _
  | .string _, .number _ | .string _, .array _ | .string _, .object _ | .array _, .null
  | .array _, .bool _ | .array _, .number _ | .array _, .string _ | .array _, .object _
  | .object _, .null | .object _, .bool _ | .object _, .number _ | .object _, .string _
  | .object _, .array _ =>
    rw [sortKeys, sortKeys] at h
    cases h

theorem same_of_sortItems (vs ws : List Json) (h : sortItems vs = sortItems ws) :
    SameItems vs ws := by
  match vs, ws with
  | [], [] => exact .nil
  | [], _ :: _ =>
    rw [sortItems, sortItems] at h
    cases h
  | _ :: _, [] =>
    rw [sortItems, sortItems] at h
    cases h
  | v :: vs, w :: ws =>
    rw [sortItems, sortItems] at h
    obtain ⟨hhead, hrest⟩ := List.cons.inj h
    exact .cons (same_of_sortKeys v w hhead) (same_of_sortItems vs ws hrest)

theorem same_of_sortValues (ms ns : List (String × Json))
    (h : List.Forall₂ (fun x m => x = (m.1, sortKeys m.2)) (sortValues ms) ns) :
    SameMembers ms ns := by
  match ms, ns with
  | [], ns =>
    rw [sortValues] at h
    cases h
    exact .nil
  | (key, value) :: ms, [] =>
    rw [sortValues] at h
    cases h
  | (key, value) :: ms, (key', value') :: ns =>
    rw [sortValues] at h
    obtain ⟨hhead, hrest⟩ := List.forall₂_cons.mp h
    obtain ⟨rfl, hvalue⟩ := Prod.mk.inj hhead
    exact .cons (same_of_sortKeys value value' hvalue) (same_of_sortValues ms ns hrest)

end

/-- Keys of its own for every member. -/
def Keyed (keys : List String) (members : List (String × Json)) : Prop :=
  members.map Prod.fst = keys ∧ keys.Nodup

/-- Members under the same keys in the same places are determined in any order. -/
theorem eq_of_perm_of_keyed {keys : List String} {ms ns : List (String × Json)}
    (hms : Keyed keys ms) (hns : Keyed keys ns) (hperm : ms.Perm ns) : ms = ns := by
  induction ms generalizing ns keys with
  | nil => exact hperm.nil_eq
  | cons m ms ih =>
    cases ns with
    | nil => exact absurd hperm.length_eq (by simp)
    | cons n ns =>
      obtain ⟨rfl, hnodup⟩ := hms
      have hkeys : n.1 = m.1 ∧ ns.map Prod.fst = ms.map Prod.fst := List.cons.inj hns.1
      obtain ⟨hfresh, hrest⟩ := List.nodup_cons.mp hnodup
      have hhead : m = n := by
        rcases List.mem_cons.mp (hperm.subset List.mem_cons_self) with heq | hmem
        · exact heq
        · have hkey := List.mem_map_of_mem (f := Prod.fst) hmem
          rw [hkeys.2] at hkey
          exact absurd hkey hfresh
      subst hhead
      rw [ih ⟨rfl, hrest⟩ ⟨hkeys.2, hrest⟩ hperm.cons_inv]

/-- A record with fixed field names is determined by its sorted text, as far as its
fields are. -/
theorem sortKeys_object_inj (keys : List String) {ms ns : List (String × Json)}
    (hms : Keyed keys ms) (hns : Keyed keys ns)
    (h : sortKeys (.object ms) = sortKeys (.object ns)) :
    ms.map (fun m => sortKeys m.2) = ns.map fun n => sortKeys n.2 := by
  rw [sortKeys, sortKeys, sortValues_eq_map, sortValues_eq_map] at h
  have hperm : (ms.map fun m => (m.1, sortKeys m.2)).Perm (ns.map fun n => (n.1, sortKeys n.2)) :=
    (perm_sortMembers _).symm.trans ((Json.object.inj h) ▸ perm_sortMembers _)
  have hkeyed (members : List (String × Json)) (hmembers : Keyed keys members) :
      Keyed keys (members.map fun m => (m.1, sortKeys m.2)) := by
    refine ⟨?_, hmembers.2⟩
    rw [List.map_map]
    exact hmembers.1
  have heq := congrArg (List.map Prod.snd) (eq_of_perm_of_keyed (hkeyed ms hms) (hkeyed ns hns) hperm)
  rw [List.map_map, List.map_map] at heq
  exact heq

/-- An encoder whose values are told apart by their sorted text. -/
def Tells {α : Type} (encode : α → Json) : Prop :=
  ∀ a b, sortKeys (encode a) = sortKeys (encode b) → a = b

def optionJson {α : Type} (encode : α → Json) : Option α → Json
  | none => .null
  | some a => encode a

theorem tells_option {α : Type} {encode : α → Json} (h : Tells encode)
    (hnull : ∀ a, sortKeys (encode a) ≠ .null) : Tells (optionJson encode) := by
  intro a b heq
  cases a with
  | none =>
    cases b with
    | none => rfl
    | some b => exact absurd heq.symm (by rw [optionJson, optionJson, sortKeys]; exact hnull b)
  | some a =>
    cases b with
    | none => exact absurd heq (by rw [optionJson, optionJson, sortKeys]; exact hnull a)
    | some b => rw [h a b heq]

theorem tells_string : Tells Json.string := by
  intro a b h
  rw [sortKeys, sortKeys] at h
  exact Json.string.inj h

theorem tells_bool : Tells Json.bool := by
  intro a b h
  rw [sortKeys, sortKeys] at h
  exact Json.bool.inj h

theorem isNumberChar_of_mem_decimalChars {n : ℤ} {c : Char} (h : c ∈ decimalChars n) :
    isNumberChar c = true := by
  unfold isNumberChar
  rcases mem_decimalChars h with rfl | hdigit
  · decide
  · rw [hdigit]
    rfl

def integerJson (n : ℤ) : Json :=
  .number ⟨decimalChars n, decimalChars_ne_nil n, fun _ hc => isNumberChar_of_mem_decimalChars hc⟩

theorem tells_integer : Tells integerJson := by
  intro a b h
  unfold integerJson at h
  rw [sortKeys, sortKeys] at h
  have htext : decimalChars a = decimalChars b := congrArg JsonNumber.text (Json.number.inj h)
  exact decimal_injective (congrArg String.ofList htext)

theorem tells_list {α : Type} {encode : α → Json} (h : Tells encode) :
    Tells fun items : List α => .array (items.map encode) := by
  have hitems (items : List α) : sortItems (items.map encode) =
      items.map fun item => sortKeys (encode item) := by
    induction items with
    | nil => rw [List.map_nil, sortItems, List.map_nil]
    | cons item items ih => rw [List.map_cons, sortItems, ih, List.map_cons]
  intro a b heq
  dsimp only at heq
  rw [sortKeys, sortKeys, hitems, hitems] at heq
  exact (List.map_injective_iff.mpr fun x y hxy => h x y hxy) (Json.array.inj heq)

end Encoding
