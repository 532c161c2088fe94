import Mathlib.Data.List.Induction
import Mathlib.Data.List.Sort
import Mathlib.Data.List.TakeDrop
import Mathlib.Tactic.Common

/-!
Pages of a list. A page starts at an offset and is closed before the first item that would
make it too long or too large; the next page starts there. Windows start at a fixed distance and
overlap, so that a run of items that crosses a border is whole in one of them. Pieces follow one
another, each as long as a rule says that sees what is left. The least items of a stream are kept
in order while it passes by.
-/

namespace Paging

variable {α : Type} (size : α → ℕ) (maxItems maxSize : ℕ)

/-- A page while the items pass by. -/
structure Filling (α : Type) where
  items : List α
  seen : ℕ
  size : ℕ
  more : Bool

def Filling.empty : Filling α := ⟨[], 0, 0, false⟩

/-- A page takes at least one item. -/
def full (page : Filling α) (item : α) : Bool :=
  page.items.length ≥ maxItems || (!page.items.isEmpty && page.size + size item > maxSize)

def add (offset : ℕ) (page : Filling α) (item : α) : Filling α :=
  if page.more then page
  else if page.seen ≥ offset then
    if full size maxItems maxSize page item then { page with more := true }
    else ⟨page.items ++ [item], page.seen + 1, page.size + size item, false⟩
  else { page with seen := page.seen + 1 }

def fill (offset : ℕ) (items : List α) (page : Filling α) : Filling α :=
  items.foldl (add size maxItems maxSize offset) page

variable {size maxItems maxSize}

theorem add_full {offset : ℕ} {page : Filling α} {item : α} (hmore : page.more = false)
    (h : offset ≤ page.seen) (hfull : full size maxItems maxSize page item = true) :
    add size maxItems maxSize offset page item = { page with more := true } := by
  rw [add, hmore, if_neg Bool.false_ne_true, if_pos h, if_pos hfull]

theorem add_item {offset : ℕ} {page : Filling α} {item : α} (hmore : page.more = false)
    (h : offset ≤ page.seen) (hfull : ¬ full size maxItems maxSize page item = true) :
    add size maxItems maxSize offset page item =
      ⟨page.items ++ [item], page.seen + 1, page.size + size item, false⟩ := by
  rw [add, hmore, if_neg Bool.false_ne_true, if_pos h, if_neg hfull]

theorem add_skipped {offset : ℕ} {page : Filling α} {item : α} (hmore : page.more = false)
    (h : ¬ offset ≤ page.seen) :
    add size maxItems maxSize offset page item = { page with seen := page.seen + 1 } := by
  rw [add, hmore, if_neg Bool.false_ne_true, if_neg h]

theorem fill_append (offset : ℕ) (front back : List α) (page : Filling α) :
    fill size maxItems maxSize offset (front ++ back) page =
      fill size maxItems maxSize offset back (fill size maxItems maxSize offset front page) :=
  List.foldl_append

theorem fill_more (offset : ℕ) (items : List α) {page : Filling α} (h : page.more = true) :
    fill size maxItems maxSize offset items page = page := by
  induction items with
  | nil => rfl
  | cons item items ih =>
    have hadd : add size maxItems maxSize offset page item = page := by
      rw [add, if_pos h]
    rw [fill, List.foldl_cons, hadd]
    exact ih

/-- Items before the offset are counted only. -/
theorem fill_skip {offset : ℕ} {items : List α} {page : Filling α} (hmore : page.more = false)
    (h : page.seen + items.length ≤ offset) :
    fill size maxItems maxSize offset items page =
      { page with seen := page.seen + items.length } := by
  induction items generalizing page with
  | nil => rfl
  | cons item items ih =>
    rw [List.length_cons] at h
    have hadd : add size maxItems maxSize offset page item =
        { page with seen := page.seen + 1 } := add_skipped hmore (by omega)
    rw [fill, List.foldl_cons, hadd]
    have hrest := @ih { page with seen := page.seen + 1 } hmore (by simp only; omega)
    rw [fill] at hrest
    rw [hrest, List.length_cons]
    simp only [Filling.mk.injEq, true_and, and_true]
    omega

/-- From the offset on a page takes some of the items, and says whether any are left. -/
theorem fill_take {offset : ℕ} {items : List α} {page : Filling α} (hmore : page.more = false)
    (h : offset ≤ page.seen) : ∃ taken ≤ items.length,
      (fill size maxItems maxSize offset items page).items = page.items ++ items.take taken ∧
      (fill size maxItems maxSize offset items page).seen = page.seen + taken ∧
      (fill size maxItems maxSize offset items page).more = decide (taken < items.length) ∧
      (0 < maxItems → page.items = [] → items ≠ [] → 0 < taken) := by
  induction items generalizing page with
  | nil => exact ⟨0, Nat.le_refl 0, by simp [fill], by simp [fill], by simp [fill, hmore], by simp⟩
  | cons item items ih =>
    rw [fill, List.foldl_cons]
    change ∃ taken ≤ (item :: items).length, (fill size maxItems maxSize offset items _).items = _ ∧
      (fill size maxItems maxSize offset items _).seen = _ ∧
      (fill size maxItems maxSize offset items _).more = _ ∧ _
    by_cases hfull : full size maxItems maxSize page item = true
    · rw [add_full hmore h hfull, fill_more offset items rfl]
      refine ⟨0, Nat.zero_le _, by simp, by simp, by simp, ?_⟩
      intro hitems hempty
      simp [full, hempty] at hfull
      omega
    · rw [add_item hmore h hfull]
      obtain ⟨taken, hle, hitems, hseen, hrest, -⟩ :=
        @ih ⟨page.items ++ [item], page.seen + 1, page.size + size item, false⟩ rfl
          (by simp only; omega)
      refine ⟨taken + 1, by simpa using hle, ?_, ?_, ?_, fun _ _ _ => Nat.succ_pos taken⟩
      · rw [hitems]
        simp
      · rw [hseen]
        simp only
        omega
      · rw [hrest]
        simp

/-- One page of a list, from an offset inside it. -/
theorem fill_page (hitems : 0 < maxItems) {offset : ℕ} {items : List α}
    (h : offset ≤ items.length) : ∃ taken ≤ (items.drop offset).length,
      (fill size maxItems maxSize offset items .empty).items = (items.drop offset).take taken ∧
      (fill size maxItems maxSize offset items .empty).seen = offset + taken ∧
      (fill size maxItems maxSize offset items .empty).more =
        decide (taken < (items.drop offset).length) ∧
      (items.drop offset ≠ [] → 0 < taken) := by
  have hsplit : fill size maxItems maxSize offset items .empty =
      fill size maxItems maxSize offset (items.drop offset) ⟨[], offset, 0, false⟩ := by
    have hlength : (items.take offset).length = offset := List.length_take_of_le h
    have hskip : fill size maxItems maxSize offset (items.take offset) .empty =
        ⟨[], offset, 0, false⟩ := by
      rw [fill_skip rfl (by rw [hlength]; exact Nat.le_of_eq (Nat.zero_add offset)), hlength]
      simp [Filling.empty]
    conv_lhs => rw [← List.take_append_drop offset items, fill_append, hskip]
  have hfrom : offset ≤ (⟨[], offset, 0, false⟩ : Filling α).seen := Nat.le_refl offset
  obtain ⟨taken, hle, htaken, hseen, hmore, hpos⟩ :=
    @fill_take α size maxItems maxSize offset (items.drop offset) _ rfl hfrom
  rw [hsplit]
  exact ⟨taken, hle, htaken, hseen, hmore, hpos hitems rfl⟩

/-! ### Calls for one page after another -/

/-- What a call for a page returns: items, the next offset and whether there is more. -/
abbrev Reply (α : Type) := List α × ℕ × Bool

/-- The replies to calls at an offset and then at each returned offset, until there is no
more. -/
inductive Calls (call : ℕ → Option (Reply α)) : ℕ → List (Reply α) → Prop
  | last {offset : ℕ} {reply : Reply α} (h : call offset = some reply)
      (hmore : reply.2.2 = false) : Calls call offset [reply]
  | next {offset : ℕ} {reply : Reply α} {replies : List (Reply α)}
      (h : call offset = some reply) (hmore : reply.2.2 = true)
      (hrest : Calls call reply.2.1 replies) : Calls call offset (reply :: replies)

theorem Calls.unique {call : ℕ → Option (Reply α)} {offset : ℕ} {replies other : List (Reply α)}
    (h : Calls call offset replies) (hother : Calls call offset other) : replies = other := by
  induction h generalizing other with
  | last h hmore =>
    cases hother with
    | last h' hmore' =>
      cases h.symm.trans h'
      rfl
    | next h' hmore' hrest' =>
      cases h.symm.trans h'
      cases hmore.symm.trans hmore'
  | next h hmore hrest ih =>
    cases hother with
    | last h' hmore' =>
      cases h.symm.trans h'
      cases hmore.symm.trans hmore'
    | next h' hmore' hrest' =>
      cases h.symm.trans h'
      rw [ih hrest']

/-- Calls from an offset end, with the items from there on and no page without an item. -/
theorem calls_cover (hitems : 0 < maxItems) {call : ℕ → Option (Reply α)} {items : List α}
    (hcall : ∀ offset ≤ items.length, call offset =
      let page := fill size maxItems maxSize offset items .empty
      some (page.items, page.seen, page.more))
    {offset : ℕ} (hoffset : offset ≤ items.length) :
    ∃ replies, Calls call offset replies ∧
      replies.flatMap Prod.fst = items.drop offset ∧
      (items.drop offset ≠ [] → ∀ reply ∈ replies, reply.1 ≠ []) := by
  obtain ⟨left, hleft⟩ : ∃ left, left = items.length - offset := ⟨_, rfl⟩
  induction left using Nat.strongRecOn generalizing offset with
  | ind left ih =>
    have hreply := hcall offset hoffset
    obtain ⟨taken, hle, htaken, hseen, hmore, hpos⟩ :=
      @fill_page α size maxItems maxSize hitems offset items hoffset
    simp only [htaken, hseen, hmore] at hreply
    rw [List.length_drop] at hle
    by_cases hlast : taken < (items.drop offset).length
    · have hpositive : 0 < taken := hpos (List.ne_nil_of_length_pos (by omega))
      rw [List.length_drop] at hlast
      obtain ⟨replies, hcalls, hrest, hnonempty⟩ :=
        @ih (items.length - (offset + taken)) (by omega) (offset + taken) (by omega) rfl
      have hleft : items.drop (offset + taken) ≠ [] := by
        apply List.ne_nil_of_length_pos
        rw [List.length_drop]
        omega
      refine ⟨_ :: replies, .next hreply (by simpa using hlast) hcalls, ?_, ?_⟩
      · rw [List.flatMap_cons, hrest, ← List.drop_drop]
        exact List.take_append_drop taken _
      · intro hne reply hreply
        rcases List.mem_cons.mp hreply with rfl | hreply
        · simp only [ne_eq, List.take_eq_nil_iff]
          rintro (hzero | hnil)
          · omega
          · exact hne hnil
        · exact hnonempty hleft reply hreply
    · have hall : taken = (items.drop offset).length := by
        rw [List.length_drop] at hlast ⊢
        omega
      refine ⟨[_], .last hreply (by simpa using hlast), ?_, ?_⟩
      · simp [hall]
      · intro hne reply hreply
        rw [List.mem_singleton] at hreply
        rw [hreply, hall]
        simp only [List.take_length]
        exact hne

/-! ### Windows -/

/-- `0, step, 2 * step, ..` below a bound. -/
def stepBy (stop step : ℕ) : List ℕ := (List.range ((stop + step - 1) / step)).map (step * ·)

theorem mem_stepBy {stop step start : ℕ} (hstep : 0 < step) :
    start ∈ stepBy stop step ↔ step ∣ start ∧ start < stop := by
  simp only [stepBy, List.mem_map, List.mem_range]
  constructor
  · rintro ⟨k, hk, rfl⟩
    have hle := (Nat.le_div_iff_mul_le hstep).mp hk
    rw [Nat.succ_mul, Nat.mul_comm] at hle
    exact ⟨Nat.dvd_mul_right step k, by omega⟩
  · rintro ⟨⟨k, rfl⟩, hlt⟩
    refine ⟨k, (Nat.le_div_iff_mul_le hstep).mpr ?_, rfl⟩
    rw [Nat.succ_mul, Nat.mul_comm]
    omega

/-- `items[start..stop]`. -/
def slice (items : List α) (start stop : ℕ) : List α := (items.drop start).take (stop - start)

theorem slice_inside (items : List α) (start stop : ℕ) : slice items start stop <:+: items :=
  (List.take_prefix _ _).isInfix.trans (List.drop_suffix _ _).isInfix

/-- The run begins in the window that starts at or before it, and the overlap holds its end. -/
theorem infix_iff_window {items run : List α} {width : ℕ} (hwidth : 0 < width) (hrun : run ≠ []) :
    run <:+: items ↔ ∃ start ∈ stepBy items.length width,
      run <:+: slice items start (min items.length (start + width + run.length - 1)) := by
  constructor
  · rintro ⟨front, back, rfl⟩
    have hpositive := List.length_pos_iff.mpr hrun
    have hmod := Nat.mod_lt front.length hwidth
    have hdiv := Nat.div_add_mod front.length width
    refine ⟨width * (front.length / width), ?_, ?_⟩
    · refine (mem_stepBy hwidth).mpr ⟨Nat.dvd_mul_right _ _, ?_⟩
      rw [List.length_append, List.length_append]
      omega
    · generalize width * (front.length / width) = start at *
      unfold slice
      rw [List.append_assoc, List.drop_append_of_le_length (by omega), List.take_append,
        List.take_append, List.take_of_length_le, List.take_of_length_le]
      · exact List.infix_append' _ _ _
      all_goals
        simp only [List.length_append, List.length_drop]
        omega
  · rintro ⟨start, -, hinfix⟩
    exact hinfix.trans (slice_inside _ _ _)

/-! ### Pieces -/

/-- A rule for the length of the next piece. -/
structure Cutter (α : Type) where
  cut : List α → ℕ
  positive : ∀ items, items ≠ [] → 0 < cut items

namespace Cutter

variable (cutter : Cutter α)

theorem drop_shorter {items : List α} (h : items ≠ []) :
    (items.drop (cutter.cut items)).length < items.length := by
  have hpositive := cutter.positive items h
  have hlength := List.length_pos_iff.mpr h
  rw [List.length_drop]
  omega

def pieces (items : List α) : List (List α) :=
  if _ : items = [] then []
  else items.take (cutter.cut items) :: pieces (items.drop (cutter.cut items))
termination_by items.length
decreasing_by exact cutter.drop_shorter ‹_›

theorem pieces_nil : cutter.pieces [] = [] := by rw [pieces, dif_pos rfl]

theorem pieces_of_ne_nil {items : List α} (h : items ≠ []) :
    cutter.pieces items =
      items.take (cutter.cut items) :: cutter.pieces (items.drop (cutter.cut items)) := by
  rw [pieces, dif_neg h]

theorem flatten_pieces (items : List α) : (cutter.pieces items).flatten = items := by
  induction items using pieces.induct cutter with
  | case1 => rw [pieces_nil, List.flatten_nil]
  | case2 items h ih =>
    rw [pieces_of_ne_nil cutter h, List.flatten_cons, ih, List.take_append_drop]

theorem pieces_eq_nil {items : List α} : cutter.pieces items = [] ↔ items = [] := by
  constructor
  · intro h
    rw [← cutter.flatten_pieces items, h, List.flatten_nil]
  · rintro rfl
    exact cutter.pieces_nil

/-- A piece begins what is left, and the later pieces are those of the rest. -/
theorem of_pieces_eq {items piece : List α} {front back : List (List α)}
    (h : cutter.pieces items = front ++ piece :: back) :
    ∃ rest, items = front.flatten ++ rest ∧ rest ≠ [] ∧ piece = rest.take (cutter.cut rest) ∧
      back = cutter.pieces (rest.drop (cutter.cut rest)) := by
  induction items using pieces.induct cutter generalizing front with
  | case1 =>
    rw [pieces_nil] at h
    exact absurd h.symm (by simp)
  | case2 items hne ih =>
    rw [pieces_of_ne_nil cutter hne] at h
    cases front with
    | nil =>
      obtain ⟨rfl, rfl⟩ := List.cons.inj h
      exact ⟨items, rfl, hne, rfl, rfl⟩
    | cons first front =>
      obtain ⟨hfirst, hrest⟩ := List.cons.inj h
      obtain ⟨rest, hitems, hfacts⟩ := ih hrest
      refine ⟨rest, ?_, hfacts⟩
      rw [List.flatten_cons, ← hfirst, List.append_assoc, ← hitems, List.take_append_drop]

theorem exists_rest {items piece : List α} (h : piece ∈ cutter.pieces items) :
    ∃ front rest, items = front ++ rest ∧ rest ≠ [] ∧ piece = rest.take (cutter.cut rest) := by
  obtain ⟨front, back, heq⟩ := List.append_of_mem h
  obtain ⟨rest, hitems, hne, hpiece, -⟩ := cutter.of_pieces_eq heq
  exact ⟨front.flatten, rest, hitems, hne, hpiece⟩

theorem ne_nil_of_mem {items piece : List α} (h : piece ∈ cutter.pieces items) : piece ≠ [] := by
  obtain ⟨front, rest, -, hne, rfl⟩ := cutter.exists_rest h
  have hpositive := cutter.positive rest hne
  simp only [ne_eq, List.take_eq_nil_iff, not_or]
  exact ⟨by omega, hne⟩

/-- What the rule takes whole is one piece. -/
theorem pieces_eq_singleton {items : List α} (h : items ≠ [])
    (hwhole : cutter.cut items = items.length) : cutter.pieces items = [items] := by
  rw [pieces_of_ne_nil cutter h, hwhole, List.take_length, List.drop_length, pieces_nil]

end Cutter

/-! ### Items up to the first that fails -/

section

variable (p : α → Bool)

/-- The items that a loop comes to which ends at the first one that fails. -/
def through : List α → List α
  | [] => []
  | item :: items => item :: if p item then through items else []

variable {p}

theorem through_prefix (items : List α) : through p items <+: items := by
  induction items with
  | nil => exact List.prefix_rfl
  | cons item items ih =>
    rw [through]
    split
    · exact (List.prefix_cons_inj item).mpr ih
    · exact (List.prefix_cons_inj item).mpr (List.nil_prefix)

/-- Such a loop comes to all items when none before the last fails. -/
theorem through_eq_self {items : List α} :
    through p items = items ↔ ∀ i, (h : i + 1 < items.length) → p items[i] = true := by
  induction items with
  | nil => exact ⟨fun _ i h => absurd h (Nat.not_lt_zero _), fun _ => rfl⟩
  | cons item items ih =>
    rw [through, List.cons.injEq, eq_self, true_and]
    constructor
    · intro h i hi
      rw [List.length_cons] at hi
      have hne : items ≠ [] := List.ne_nil_of_length_pos (by omega)
      have hitem : p item = true := by
        by_contra hfails
        rw [if_neg hfails] at h
        exact hne h.symm
      rw [if_pos hitem] at h
      cases i with
      | zero => exact hitem
      | succ i => exact ih.mp h i (by omega)
    · intro h
      rcases List.eq_nil_or_concat items with rfl | ⟨front, last, rfl⟩
      · split <;> rfl
      · rw [List.concat_eq_append] at h ih ⊢
        have hitem : p item = true := h 0 (by simp)
        rw [if_pos hitem]
        refine ih.mpr fun i hi => ?_
        exact h (i + 1) (by rw [List.length_cons]; omega)

end

/-! ### The least items -/

section

variable {β : Type} [LinearOrder β] {limit : ℕ}

/-- A sorted set that drops its last item when it grows over the limit. -/
def keepLeast (limit : ℕ) (kept : List β) (item : β) : List β :=
  let grown := if item ∈ kept then kept else kept.orderedInsert (· ≤ ·) item
  if grown.length > limit then grown.dropLast else grown

theorem take_orderedInsert_take (items : List β) (item : β) (limit : ℕ) :
    ((items.take limit).orderedInsert (· ≤ ·) item).take limit =
      (items.orderedInsert (· ≤ ·) item).take limit := by
  induction items generalizing limit with
  | nil => rw [List.take_nil]
  | cons first items ih =>
    cases limit with
    | zero => rfl
    | succ limit =>
      rw [List.take_succ_cons, List.orderedInsert_cons, List.orderedInsert_cons]
      split
      · have hfirst : first :: items.take limit = (first :: items).take (limit + 1) := rfl
        rw [List.take_succ_cons, List.take_succ_cons, hfirst, List.take_take,
          min_eq_left (Nat.le_succ limit)]
      · rw [List.take_succ_cons, List.take_succ_cons, ih]

theorem keepLeast_take {items : List β} {item : β} (h : item ∉ items) :
    keepLeast limit (items.take limit) item = (items.orderedInsert (· ≤ ·) item).take limit := by
  have hkept : item ∉ items.take limit := fun hmem => h (List.mem_of_mem_take hmem)
  have hlength := List.orderedInsert_length (r := (· ≤ ·)) (items.take limit) item
  have htake := List.length_take_le limit items
  rw [← take_orderedInsert_take, keepLeast, if_neg hkept]
  split
  · rw [List.dropLast_eq_take]
    congr 1
    omega
  · exact (List.take_of_length_le (by omega)).symm

theorem insertionSort_eq_of_perm {items sorted : List β} (hperm : sorted.Perm items)
    (hsorted : sorted.Pairwise (· ≤ ·)) : items.insertionSort (· ≤ ·) = sorted :=
  ((List.perm_insertionSort _ items).trans hperm.symm).eq_of_pairwise'
    (List.pairwise_insertionSort _ items) hsorted

theorem foldl_keepLeast {items : List β} (h : items.Nodup) :
    items.foldl (keepLeast limit) [] = (items.insertionSort (· ≤ ·)).take limit := by
  induction items using List.reverseRecOn with
  | nil => rw [List.insertionSort_nil, List.take_nil]; rfl
  | append_singleton items item ih =>
    obtain ⟨hitems, -, hnew⟩ := List.nodup_append.mp h
    have hmem : item ∉ items.insertionSort (· ≤ ·) := fun hmem =>
      hnew item (List.mem_insertionSort _ |>.mp hmem) item (List.mem_singleton_self _) rfl
    have hsorted : (items ++ [item]).insertionSort (· ≤ ·) =
        (items.insertionSort (· ≤ ·)).orderedInsert (· ≤ ·) item := by
      refine insertionSort_eq_of_perm ?_ ((List.pairwise_insertionSort _ items).orderedInsert _ _)
      have hinsert := List.perm_orderedInsert (· ≤ ·) item (items.insertionSort (· ≤ ·))
      refine hinsert.trans (((List.perm_insertionSort _ items).cons item).trans ?_)
      exact (List.perm_append_singleton item items).symm
    rw [List.foldl_append, List.foldl_cons, List.foldl_nil, ih hitems, keepLeast_take hmem, hsorted]

end

end Paging
