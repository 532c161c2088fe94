import NyxId.Channel.Replies

/-!
Replies are planned without loss. The chunks of the parts tile the body; on Telegram the entities
of a part are those of the body clipped to its chunk; and a message is over its budget, or blank,
only where the markup of one character is larger than a message may be.
-/

namespace NyxId.Channel

open Encoding (isWhitespace trim)

/-! ### Units and borders -/

theorem utf16Len_append (front back : List Char) :
    utf16Len (front ++ back) = utf16Len front + utf16Len back := by
  rw [utf16Len, List.map_append, List.sum_append, ← utf16Len, ← utf16Len]

theorem utf16Len_take_le (text : List Char) (k : ℕ) : utf16Len (text.take k) ≤ utf16Len text := by
  conv_rhs => rw [← List.take_append_drop k text, utf16Len_append]
  exact Nat.le_add_right _ _

/-- A place in UTF-16 units that splits no character. -/
def Border (text : List Char) (units : ℕ) : Prop := ∃ k, utf16Len (text.take k) = units

theorem Border.le {text : List Char} {units : ℕ} (h : Border text units) :
    units ≤ utf16Len text := by
  obtain ⟨k, rfl⟩ := h
  exact utf16Len_take_le text k

theorem Border.shift {text : List Char} {units : ℕ} (front : List Char) (h : Border text units) :
    Border (front ++ text) (units + utf16Len front) := by
  obtain ⟨k, rfl⟩ := h
  refine ⟨front.length + k, ?_⟩
  rw [List.take_length_add_append, utf16Len_append, Nat.add_comm]

theorem border_zero (text : List Char) : Border text 0 := ⟨0, by rw [List.take_zero]; rfl⟩

theorem border_whole (text : List Char) : Border text (utf16Len text) :=
  ⟨text.length, by rw [List.take_length]⟩

/-- A border of a text that lies in a stretch of it is one of the stretch. -/
theorem Border.within {front chunk back : List Char} {units : ℕ}
    (h : Border (front ++ chunk ++ back) units) (hfrom : utf16Len front ≤ units)
    (hto : units ≤ utf16Len front + utf16Len chunk) : Border chunk (units - utf16Len front) := by
  obtain ⟨k, hk⟩ := h
  rw [List.append_assoc, List.take_append, List.take_append, utf16Len_append,
    utf16Len_append] at hk
  have hfront := utf16Len_take_le front k
  rcases Nat.lt_or_ge k front.length with hlt | hge
  · rw [Nat.sub_eq_zero_of_le (Nat.le_of_lt hlt), Nat.zero_sub, List.take_zero,
      List.take_zero] at hk
    have hnil : utf16Len [] = 0 := rfl
    rw [show units - utf16Len front = 0 by omega]
    exact border_zero chunk
  · rw [List.take_of_length_le hge] at hk
    rcases Nat.lt_or_ge (k - front.length) chunk.length with hlt | hall
    · rw [Nat.sub_eq_zero_of_le (Nat.le_of_lt hlt), List.take_zero] at hk
      have hnil : utf16Len [] = 0 := rfl
      exact ⟨k - front.length, by omega⟩
    · rw [List.take_of_length_le hall] at hk
      rw [show units - utf16Len front = utf16Len chunk by omega]
      exact border_whole chunk

/-! ### Entities that are clipped -/

theorem clip_eq_some {offset length : ℕ} {e shown : Entity}
    (h : clip offset length e = some shown) :
    offset + shown.offset = max e.offset offset ∧
      offset + shown.offset + shown.length = min (e.offset + e.length) (offset + length) ∧
      0 < shown.length ∧ shown.kind = e.kind ∧ shown.url = e.url := by
  unfold clip at h
  dsimp only at h
  split at h
  · cases h
  · rename_i hlt
    obtain rfl := Option.some.inj h
    dsimp only
    exact ⟨by omega, by omega, by omega, rfl, rfl⟩

theorem clip_isSome {offset length : ℕ} {e : Entity} {unit : ℕ} (hfrom : e.offset ≤ unit)
    (hto : unit < e.offset + e.length) (hin : offset ≤ unit) (hout : unit < offset + length) :
    ∃ shown, clip offset length e = some shown := by
  unfold clip
  rw [if_neg (by omega)]
  exact ⟨_, rfl⟩

theorem clip_borders {front chunk back : List Char} {e shown : Entity}
    (h : clip (utf16Len front) (utf16Len chunk) e = some shown)
    (hstart : Border (front ++ chunk ++ back) e.offset)
    (hstop : Border (front ++ chunk ++ back) (e.offset + e.length)) :
    Border chunk shown.offset ∧ Border chunk (shown.offset + shown.length) := by
  obtain ⟨hfrom, hto, hpositive, -⟩ := clip_eq_some h
  constructor
  · rcases Nat.le_total e.offset (utf16Len front) with hle | hge
    · rw [show shown.offset = 0 by omega]
      exact border_zero chunk
    · have hborder := hstart.within hge (by omega)
      rwa [show e.offset - utf16Len front = shown.offset by omega] at hborder
  · rcases Nat.le_total (e.offset + e.length) (utf16Len front + utf16Len chunk) with hle | hge
    · have hborder := hstop.within (by omega) hle
      rwa [show e.offset + e.length - utf16Len front = shown.offset + shown.length by omega]
        at hborder
    · rw [show shown.offset + shown.length = utf16Len chunk by omega]
      exact border_whole chunk

/-! ### One part -/

theorem isBlank_iff (text : List Char) : isBlank text = true ↔ ∀ c ∈ text, isWhitespace c := by
  unfold isBlank trim
  rw [List.isEmpty_iff, List.reverse_eq_nil_iff, List.dropWhile_eq_nil_iff]
  constructor
  · intro h c hc
    by_contra hspace
    have hmem : c ∈ (text.dropWhile isWhitespace).reverse := by
      rw [List.mem_reverse]
      obtain ⟨front, back, rfl⟩ := List.append_of_mem hc
      rw [List.dropWhile_append]
      split
      · rw [List.dropWhile_cons_of_neg hspace]
        exact List.mem_cons_self
      · exact List.mem_append_right _ List.mem_cons_self
    exact hspace (h c hmem)
  · intro h c hc
    rw [List.mem_reverse] at hc
    exact h c ((List.dropWhile_sublist _).subset hc)

theorem not_isBlank {text : List Char} {c : Char} (hc : c ∈ text)
    (hspace : isWhitespace c = false) : isBlank text = false := by
  rw [Bool.eq_false_iff]
  intro hblank
  rw [(isBlank_iff text).mp hblank c hc] at hspace
  cases hspace

section

variable {platform : String} {plain : Bool} {entities : List Entity} {offset : ℕ}

theorem nextChunk_ne_nil {budget : ℕ} {rest : List Char} (h : rest ≠ []) :
    nextChunk platform budget rest ≠ [] := by
  have hpositive := TextLimit.chunkEnd_pos ((TextLimit.forPlatform platform).withBudget budget)
    false rest h
  unfold nextChunk
  simp only [ne_eq, List.take_eq_nil_iff, not_or]
  exact ⟨by omega, h⟩

theorem measure_nextChunk_le {budget : ℕ} (rest : List Char) (hpositive : 0 < budget)
    (hle : budget ≤ (TextLimit.forPlatform platform).budget) :
    (TextLimit.forPlatform platform).measure (nextChunk platform budget rest) ≤ max budget 6 := by
  have hmeasure :=
    TextLimit.measure_display_le ((TextLimit.forPlatform platform).withBudget budget) rest
  have hbudget : ((TextLimit.forPlatform platform).withBudget budget).budget = budget := by
    rw [TextLimit.withBudget, max_eq_left (by omega), min_eq_left hle]
  rw [hbudget] at hmeasure
  exact hmeasure

/-- What is found of the entities in a chunk. -/
def Planned.found (entities : List Entity) (planned : Planned) : List Entity :=
  localEntities entities planned.offset (utf16Len planned.chunk)

/-- The message that shows a chunk with all its markup. -/
def Planned.full (platform : String) (plain : Bool) (entities : List Entity) (planned : Planned) :
    Planned :=
  message platform plain planned.offset planned.chunk (planned.found entities)

/-- A single character whose markup is larger than a message may be; its message shows no
markup but the links. -/
def Planned.Overstyled (platform : String) (plain : Bool) (entities : List Entity)
    (planned : Planned) : Prop :=
  isMarkdown platform = true ∧ plain = false ∧ planned.chunk.length = 1 ∧
    (TextLimit.forPlatform platform).budget <
      (TextLimit.forPlatform platform).measure (planned.full platform plain entities).text

/-- How the loop for one part ends: with a budget at which the message fits, or with the least
one. -/
structure PartEnd (platform : String) (plain : Bool) (entities : List Entity) (rest : List Char)
    (budget : ℕ) (planned : Planned) : Prop where
  chunk : planned.chunk = nextChunk platform budget rest
  crowded : isTelegram platform = true → (planned.found entities).length ≤ 100 ∨ budget ≤ 8
  room : isBlank (rendered platform plain planned.chunk (planned.found entities)) = true →
    budget ≤ available (TextLimit.forPlatform platform)
  ends : planned = planned.full platform plain entities ∧
      (TextLimit.forPlatform platform).measure planned.text ≤
        (TextLimit.forPlatform platform).budget ∨
    budget = 1 ∧ (TextLimit.forPlatform platform).budget <
      (TextLimit.forPlatform platform).measure (planned.full platform plain entities).text

theorem message_chunk (chunk : List Char) (found : List Entity) :
    (message platform plain offset chunk found).offset = offset ∧
      (message platform plain offset chunk found).chunk = chunk := by
  unfold message
  split <;> exact ⟨rfl, rfl⟩

theorem found_message (chunk : List Char) :
    (message platform plain offset chunk
      (localEntities entities offset (utf16Len chunk))).found entities =
        localEntities entities offset (utf16Len chunk) := by
  obtain ⟨hoffset, hchunk⟩ := @message_chunk platform plain offset chunk
    (localEntities entities offset (utf16Len chunk))
  rw [Planned.found, hoffset, hchunk]

/-- The loop stops at a message that fits. -/
theorem PartEnd.fits {rest : List Char} {budget : ℕ} {planned : Planned}
    (hplanned : planned = message platform plain offset (nextChunk platform budget rest)
      (localEntities entities offset (utf16Len (nextChunk platform budget rest))))
    (hcrowded : isTelegram platform = true → (localEntities entities offset
      (utf16Len (nextChunk platform budget rest))).length ≤ 100 ∨ budget ≤ 8)
    (hroom : isBlank (rendered platform plain (nextChunk platform budget rest)
        (localEntities entities offset (utf16Len (nextChunk platform budget rest)))) = true →
      budget ≤ available (TextLimit.forPlatform platform))
    (hfits : (TextLimit.forPlatform platform).measure planned.text ≤
      (TextLimit.forPlatform platform).budget) :
    PartEnd platform plain entities rest budget planned := by
  obtain ⟨hoffset, hchunk⟩ := @message_chunk platform plain offset (nextChunk platform budget rest)
    (localEntities entities offset (utf16Len (nextChunk platform budget rest)))
  subst hplanned
  refine ⟨hchunk, ?_, ?_, Or.inl ⟨?_, hfits⟩⟩
  · rwa [found_message]
  · rwa [found_message, hchunk]
  · rw [Planned.full, found_message, hchunk, hoffset]

theorem planPart_ends (rest : List Char) (budget : ℕ) (hpositive : 0 < budget)
    (hle : budget ≤ (TextLimit.forPlatform platform).budget) :
    (planPart platform plain entities offset rest budget).offset = offset ∧
    ∃ least, 0 < least ∧ least ≤ (TextLimit.forPlatform platform).budget ∧
      PartEnd platform plain entities rest least
        (planPart platform plain entities offset rest budget) := by
  induction budget using planPart.induct platform plain entities offset rest with
  | case1 budget chunk found hcrowded ih =>
    rw [planPart, if_pos hcrowded]
    simp only [Bool.and_eq_true, decide_eq_true_eq] at hcrowded
    exact ih (by omega) (by omega)
  | case2 budget limit chunk found hcrowded hblank ih =>
    rw [planPart, if_neg hcrowded, if_pos hblank]
    exact ih (available_pos platform) (Nat.sub_le _ _)
  | case3 budget limit chunk found hcrowded hblank planned hfits =>
    rw [planPart, if_neg hcrowded, if_neg hblank, if_pos hfits]
    simp only [Bool.and_eq_true, decide_eq_true_eq, not_and] at hcrowded hblank
    refine ⟨message_chunk _ _ |>.1, budget, hpositive, hle, PartEnd.fits rfl ?_ ?_ hfits⟩
    · intro htelegram
      rcases Nat.lt_or_ge 100 found.length with hmany | hfew
      · exact Or.inr (Nat.not_lt.mp (hcrowded ⟨htelegram, hmany⟩))
      · exact Or.inl hfew
    · exact fun hspace => Nat.not_lt.mp (hblank hspace)
  | case4 budget limit chunk found hcrowded hblank planned hover hleast =>
    rw [planPart, if_neg hcrowded, if_neg hblank, if_neg hover, if_pos hleast]
    simp only [Bool.and_eq_true, decide_eq_true_eq, not_and] at hcrowded hblank
    refine ⟨rfl, budget, hpositive, hle, rfl, ?_, ?_, Or.inr ⟨by omega, Nat.not_le.mp hover⟩⟩
    · intro htelegram
      rcases Nat.lt_or_ge 100 found.length with hmany | hfew
      · exact Or.inr (Nat.not_lt.mp (hcrowded ⟨htelegram, hmany⟩))
      · exact Or.inl hfew
    · exact fun hspace => Nat.not_lt.mp (hblank hspace)
  | case5 budget limit chunk found hcrowded hblank planned hover hleast ih =>
    rw [planPart, if_neg hcrowded, if_neg hblank, if_neg hover, if_neg hleast]
    exact ih (by omega) (by omega)

theorem full_eq (planned : Planned) :
    (planned.full platform plain entities).text =
        (if isBlank (rendered platform plain planned.chunk (planned.found entities)) then continuation
          else []) ++ rendered platform plain planned.chunk (planned.found entities) ∧
      (planned.full platform plain entities).entities = (planned.found entities).map fun e =>
        { e with offset := e.offset +
          if isBlank (rendered platform plain planned.chunk (planned.found entities)) then
            utf16Len continuation else 0 } := by
  unfold Planned.full message
  split
  · exact ⟨rfl, rfl⟩
  · exact ⟨rfl, (List.map_id _).symm⟩

theorem full_not_blank (planned : Planned) :
    isBlank (planned.full platform plain entities).text = false := by
  rw [(full_eq planned).1]
  split
  · have hmem : 'W' ∈ continuation := by decide
    exact not_isBlank (List.mem_append_left _ hmem) (by decide)
  · rename_i hblank
    rw [List.nil_append]
    exact Bool.eq_false_iff.mpr hblank

theorem rendered_eq (h : ¬ (isMarkdown platform = true ∧ plain = false)) (chunk : List Char)
    (found : List Entity) : rendered platform plain chunk found = chunk := by
  unfold rendered
  rw [if_neg]
  cases plain <;> simp_all

/-- Every part shows all its markup, but for a character that cannot. -/
theorem PartEnd.eq_full {rest : List Char} {budget : ℕ} {planned : Planned}
    (h : PartEnd platform plain entities rest budget planned) (hrest : rest ≠ [])
    (hpositive : 0 < budget) (hle : budget ≤ (TextLimit.forPlatform platform).budget)
    (hstyle : ¬ planned.Overstyled platform plain entities) :
    planned = planned.full platform plain entities ∧
      (TextLimit.forPlatform platform).measure planned.text ≤
        (TextLimit.forPlatform platform).budget := by
  obtain hfits | ⟨hone, hover⟩ := h.ends
  · exact hfits
  by_cases hmarkup : isMarkdown platform = true ∧ plain = false
  · have hlength : planned.chunk.length = 1 := by
      have hend := TextLimit.chunkEnd_display_le
        ((TextLimit.forPlatform platform).withBudget budget) rest
      have hleft := TextLimit.chunkEnd_pos
        ((TextLimit.forPlatform platform).withBudget budget) false rest hrest
      have hbudget : ((TextLimit.forPlatform platform).withBudget budget).budget = 1 := by
        rw [TextLimit.withBudget, hone]
        exact min_eq_left (by omega)
      have hrestLength := List.length_pos_iff.mpr hrest
      rw [h.chunk, nextChunk, List.length_take]
      omega
    exact absurd ⟨hmarkup.1, hmarkup.2, hlength, hover⟩ hstyle
  · -- without markup the message is the chunk, after its announcement
    have hmeasure := @measure_nextChunk_le platform budget rest hpositive hle
    have hroom := h.room
    have hlarge := budget_ge platform
    have hprefix := measure_continuation platform
    rw [(full_eq planned).1, rendered_eq hmarkup, TextLimit.measure_append] at hover
    rw [rendered_eq hmarkup] at hroom
    rw [← h.chunk] at hmeasure
    have hnil : (TextLimit.forPlatform platform).measure [] = 0 := rfl
    split at hover
    · rename_i hblank
      have hbudget := hroom hblank
      unfold available at hbudget
      omega
    · omega

/-! ### All parts -/

/-- Where the parts lie that were planned for the rest of a body. -/
theorem planFrom_spec (rest : List Char) (left : ℕ) :
    (planFrom platform plain entities offset rest left).1.length ≤ left ∧
    ((planFrom platform plain entities offset rest left).2 ≠ [] →
      (planFrom platform plain entities offset rest left).1.length = left) ∧
    (planFrom platform plain entities offset rest left).1.flatMap (·.chunk) ++
      (planFrom platform plain entities offset rest left).2 = rest ∧
    ∀ front planned back,
      (planFrom platform plain entities offset rest left).1 = front ++ planned :: back →
        planned.offset = offset + utf16Len (front.flatMap (·.chunk)) ∧
        ∃ rest' budget, rest' ≠ [] ∧ 0 < budget ∧
          budget ≤ (TextLimit.forPlatform platform).budget ∧
          PartEnd platform plain entities rest' budget planned := by
  induction left generalizing offset rest with
  | zero =>
    refine ⟨le_rfl, fun _ => rfl, rfl, fun front planned back h => ?_⟩
    exact absurd h.symm (by simp [planFrom])
  | succ left ih =>
    rw [planFrom]
    by_cases hempty : rest.isEmpty = true
    · rw [if_pos hempty]
      refine ⟨Nat.zero_le _, fun hne => absurd (List.isEmpty_iff.mp hempty) hne, rfl,
        fun front planned back h => ?_⟩
      exact absurd h.symm (by simp)
    rw [if_neg hempty]
    have hrest : rest ≠ [] := fun hnil => hempty (List.isEmpty_iff.mpr hnil)
    have hlarge := budget_ge platform
    obtain ⟨hoffset, budget, hpositive, hle, hends⟩ := @planPart_ends platform plain entities offset
      rest (TextLimit.forPlatform platform).budget (by omega) le_rfl
    generalize planPart platform plain entities offset rest
      (TextLimit.forPlatform platform).budget = planned at *
    obtain ⟨hlength, hcut, hwhole, hparts⟩ :=
      @ih (offset + utf16Len planned.chunk) (rest.drop planned.chunk.length)
    have hchunk : planned.chunk <+: rest := by
      rw [hends.chunk, nextChunk]
      exact List.take_prefix _ _
    refine ⟨Nat.succ_le_succ hlength, fun hne => congrArg (· + 1) (hcut hne), ?_, ?_⟩
    · rw [List.flatMap_cons, List.append_assoc, hwhole]
      exact (List.prefix_iff_eq_append.mp hchunk)
    · intro front later back h
      cases front with
      | nil =>
        obtain ⟨rfl, -⟩ := List.cons.inj h
        exact ⟨hoffset, rest, budget, hrest, hpositive, hle, hends⟩
      | cons first front =>
        obtain ⟨rfl, htail⟩ := List.cons.inj h
        obtain ⟨hplace, hfacts⟩ := hparts front later back htail
        refine ⟨?_, hfacts⟩
        rw [hplace, List.flatMap_cons, utf16Len_append, Nat.add_assoc]

/-! ### Telegram -/

theorem forPlatform_telegram (h : isTelegram platform = true) :
    TextLimit.forPlatform platform = ⟨.utf16, 4096⟩ ∧ isMarkdown platform = false := by
  simp only [isTelegram, Bool.or_eq_true, decide_eq_true_eq] at h
  rcases h with rfl | rfl <;> exact ⟨rfl, rfl⟩

/-- The part of a Telegram reply is its chunk, with the entities of the chunk. -/
structure Planned.Native (entities : List Entity) (planned : Planned) : Prop where
  text : planned.text = (if isBlank planned.chunk then continuation else []) ++ planned.chunk
  entities : planned.entities = (planned.found entities).map fun e =>
    { e with offset := e.offset + if isBlank planned.chunk then utf16Len continuation else 0 }
  few : planned.entities.length ≤ 100 ∨ utf16Len planned.chunk ≤ 8
  borders : ∀ e ∈ planned.entities,
    Border planned.text e.offset ∧ Border planned.text (e.offset + e.length)

theorem PartEnd.native {rest : List Char} {budget : ℕ} {planned : Planned}
    {front back : List Char} (h : PartEnd platform plain entities rest budget planned)
    (htelegram : isTelegram platform = true) (hrest : rest ≠ []) (hpositive : 0 < budget)
    (hle : budget ≤ (TextLimit.forPlatform platform).budget)
    (hoffset : planned.offset = utf16Len front)
    (hborders : ∀ e ∈ entities, Border (front ++ planned.chunk ++ back) e.offset ∧
      Border (front ++ planned.chunk ++ back) (e.offset + e.length)) :
    planned.Native entities := by
  obtain ⟨hlimit, hmarkdown⟩ := forPlatform_telegram htelegram
  have hmarkup : ¬ (isMarkdown platform = true ∧ plain = false) := by
    rw [hmarkdown]
    exact fun h => absurd h.1 Bool.false_ne_true
  have hfull := (h.eq_full hrest hpositive hle fun hstyle => hmarkup ⟨hstyle.1, hstyle.2.1⟩).1
  have hmessage := @full_eq platform plain entities planned
  rw [← hfull, rendered_eq hmarkup] at hmessage
  obtain ⟨htext, hentities⟩ := hmessage
  refine ⟨htext, hentities, ?_, fun e he => ?_⟩
  · rw [hentities, List.length_map]
    refine (h.crowded htelegram).imp_right fun hsmall => ?_
    have hmeasure := @measure_nextChunk_le platform budget rest hpositive hle
    rw [← h.chunk, hlimit] at hmeasure
    have hunits : TextLimit.measure ⟨.utf16, 4096⟩ planned.chunk = utf16Len planned.chunk := rfl
    omega
  · rw [hentities] at he
    obtain ⟨shown, hshown, rfl⟩ := List.mem_map.mp he
    obtain ⟨source, hsource, hclip⟩ := List.mem_filterMap.mp hshown
    rw [hoffset] at hclip
    obtain ⟨hstart, hstop⟩ :=
      clip_borders hclip (hborders source hsource).1 (hborders source hsource).2
    rw [htext]
    split
    · refine ⟨hstart.shift continuation, ?_⟩
      rw [Nat.add_right_comm]
      exact hstop.shift continuation
    · exact ⟨hstart, hstop⟩

/-- Whether a unit of an entity occurs in a part. -/
def Planned.shows (e : Entity) (unit : ℕ) (planned : Planned) : Bool :=
  (clip planned.offset (utf16Len planned.chunk) e).any fun shown =>
    planned.offset + shown.offset ≤ unit && unit < planned.offset + shown.offset + shown.length

theorem shows_iff {e : Entity} {unit : ℕ} {planned : Planned} (hfrom : e.offset ≤ unit)
    (hto : unit < e.offset + e.length) : planned.shows e unit = true ↔
      planned.offset ≤ unit ∧ unit < planned.offset + utf16Len planned.chunk := by
  unfold Planned.shows
  rw [Option.any_eq_true]
  simp only [Bool.and_eq_true, decide_eq_true_eq]
  constructor
  · intro ⟨shown, hclip, hin⟩
    obtain ⟨hstart, hstop, -⟩ := clip_eq_some hclip
    omega
  · intro ⟨hin, hout⟩
    obtain ⟨shown, hclip⟩ := clip_isSome hfrom hto hin hout
    obtain ⟨hstart, hstop, -⟩ := clip_eq_some hclip
    exact ⟨shown, hclip, by omega⟩

/-- Parts that lie one after another hold each unit once. -/
theorem countP_covers (parts : List Planned) (offset unit : ℕ)
    (hplaces : ∀ front planned back, parts = front ++ planned :: back →
      planned.offset = offset + utf16Len (front.flatMap (·.chunk))) :
    parts.countP (fun p => p.offset ≤ unit && unit < p.offset + utf16Len p.chunk) =
      if offset ≤ unit ∧ unit < offset + utf16Len (parts.flatMap (·.chunk)) then 1 else 0 := by
  induction parts generalizing offset with
  | nil =>
    have hnil : utf16Len [] = 0 := rfl
    rw [List.countP_nil, List.flatMap_nil, hnil, if_neg (by omega)]
  | cons p parts ih =>
    have hfirst : p.offset = offset := hplaces [] p parts rfl
    have hlater := ih (offset + utf16Len p.chunk) fun front planned back h => by
      have hplace := hplaces (p :: front) planned back (by rw [h, List.cons_append])
      rwa [List.flatMap_cons, utf16Len_append, ← Nat.add_assoc] at hplace
    rw [List.countP_cons, hlater, hfirst, List.flatMap_cons, utf16Len_append]
    simp only [Bool.and_eq_true, decide_eq_true_eq]
    split <;> split <;> split <;> omega

end

/-! ### The notice -/

theorem notice_eq (overflowUrl : String) : ∃ rest, notice overflowUrl = 'T' :: rest := by
  unfold notice
  rw [String.toList_append]
  exact ⟨_, rfl⟩

theorem noticeReply_fits (platform overflowUrl : String) :
    isBlank (noticeReply platform overflowUrl).text = false ∧
      (TextLimit.forPlatform platform).measure (noticeReply platform overflowUrl).text ≤
        (TextLimit.forPlatform platform).budget := by
  obtain ⟨rest, hnotice⟩ := notice_eq overflowUrl
  have hne : notice overflowUrl ≠ [] := by
    rw [hnotice]
    exact List.cons_ne_nil _ _
  have hlarge := budget_ge platform
  have hpositive := (TextLimit.forPlatform platform).chunkEnd_pos true _ hne
  have htext : (noticeReply platform overflowUrl).text = (notice overflowUrl).take
      ((TextLimit.forPlatform platform).chunkEnd true (notice overflowUrl)) := by
    rw [noticeReply, TextLimit.chunks, TextLimit.chunksInner, Paging.Cutter.pieces_of_ne_nil _ hne]
    rfl
  rw [htext]
  refine ⟨?_, TextLimit.measure_chunk_le _ true (by omega)⟩
  obtain ⟨k, hk⟩ := Nat.exists_eq_add_of_le' hpositive
  rw [hk, hnotice, List.take_succ_cons]
  exact not_isBlank List.mem_cons_self (by decide)

/-- A notice that fits is sent whole. -/
theorem noticeReply_whole {platform overflowUrl : String}
    (h : (TextLimit.forPlatform platform).measure (notice overflowUrl) ≤
      (TextLimit.forPlatform platform).budget) :
    (noticeReply platform overflowUrl).text = notice overflowUrl := by
  obtain ⟨rest, hnotice⟩ := notice_eq overflowUrl
  have hne : notice overflowUrl ≠ [] := by
    rw [hnotice]
    exact List.cons_ne_nil _ _
  have halone := TextLimit.Lossless.alone (TextLimit.lossless _ true (notice overflowUrl)) hne h
  rw [noticeReply, TextLimit.chunks, halone]
  rfl

/-! ### The whole reply -/

/-- What the plan of a reply promises. -/
structure PlannedWithoutLoss (platform : String) (plain : Bool) (body : List Char)
    (entities : List Entity) (overflowUrl : String) : Prop where
  count : (assistantParts platform plain body entities overflowUrl).length ≤ maxReplyParts
  fits : ∀ reply ∈ assistantParts platform plain body entities overflowUrl,
    isBlank reply.text = false ∧
        (TextLimit.forPlatform platform).measure reply.text ≤
          (TextLimit.forPlatform platform).budget ∨
      ∃ p ∈ (planned platform plain body entities).1,
        p.Overstyled platform plain entities ∧ reply = p.reply platform plain
  whole : (planned platform plain body entities).1.length ≤ maxReplyParts →
    assistantParts platform plain body entities overflowUrl =
        (planned platform plain body entities).1.map (Planned.reply platform plain) ∧
      (planned platform plain body entities).1.flatMap (·.chunk) = body
  native : isTelegram platform = true →
    (planned platform plain body entities).1.length ≤ maxReplyParts →
      (∀ p ∈ (planned platform plain body entities).1, p.Native entities) ∧
      ∀ e ∈ entities, ∀ unit, e.offset ≤ unit → unit < e.offset + e.length →
        (planned platform plain body entities).1.countP (Planned.shows e unit) = 1
  cut : maxReplyParts < (planned platform plain body entities).1.length →
    assistantParts platform plain body entities overflowUrl =
      ((planned platform plain body entities).1.take (maxReplyParts - 1)).map
        (Planned.reply platform plain) ++ [noticeReply platform overflowUrl]
  notice : (TextLimit.forPlatform platform).measure (notice overflowUrl) ≤
      (TextLimit.forPlatform platform).budget →
    (noticeReply platform overflowUrl).text = Channel.notice overflowUrl

theorem replies_planned_without_loss (platform : String) (plain : Bool) (body : List Char)
    (entities : List Entity) (overflowUrl : String)
    (hborders : ∀ e ∈ entities, Border body e.offset ∧ Border body (e.offset + e.length)) :
    PlannedWithoutLoss platform plain body entities overflowUrl := by
  obtain ⟨hlength, hleft, hwhole, hparts⟩ :=
    @planFrom_spec platform plain entities 0 body (maxReplyParts + 1)
  rw [← planned] at hlength hleft hwhole hparts
  have hcut : maxReplyParts < (planned platform plain body entities).1.length →
      assistantParts platform plain body entities overflowUrl =
        ((planned platform plain body entities).1.take (maxReplyParts - 1)).map
          (Planned.reply platform plain) ++ [noticeReply platform overflowUrl] := fun hover => by
    have hguard : ((planned platform plain body entities).1.map
        (Planned.reply platform plain)).length > maxReplyParts := by rwa [List.length_map]
    simp only [assistantParts, decide_eq_true hguard, Bool.true_or, if_true, List.map_take]
  have hall : (planned platform plain body entities).1.length ≤ maxReplyParts →
      (planned platform plain body entities).2 = [] := fun hfew => by
    by_contra hne
    have heq := hleft hne
    omega
  have huncut : (planned platform plain body entities).1.length ≤ maxReplyParts →
      assistantParts platform plain body entities overflowUrl =
        (planned platform plain body entities).1.map (Planned.reply platform plain) :=
      fun hfew => by
    have hguard : ¬ ((planned platform plain body entities).1.map
        (Planned.reply platform plain)).length > maxReplyParts := by
      rw [List.length_map]
      omega
    simp only [assistantParts, hall hfew, decide_eq_false hguard, List.isEmpty_nil, Bool.not_true,
      Bool.or_false, Bool.false_eq_true, if_false]
  have hfits : ∀ p ∈ (planned platform plain body entities).1,
      isBlank (p.reply platform plain).text = false ∧
          (TextLimit.forPlatform platform).measure (p.reply platform plain).text ≤
            (TextLimit.forPlatform platform).budget ∨ p.Overstyled platform plain entities := by
    intro p hp
    obtain ⟨front, back, hsplit⟩ := List.append_of_mem hp
    obtain ⟨-, rest, budget, hrest, hpositive, hle, hends⟩ := hparts front p back hsplit
    by_cases hstyle : p.Overstyled platform plain entities
    · exact Or.inr hstyle
    · obtain ⟨hfull, hmeasure⟩ := hends.eq_full hrest hpositive hle hstyle
      refine Or.inl ⟨?_, hmeasure⟩
      have hblank := @full_not_blank platform plain entities p
      rwa [← hfull] at hblank
  refine ⟨?_, ?_, fun hfew => ⟨huncut hfew, ?_⟩, fun htelegram hfew => ⟨fun p hp => ?_, ?_⟩, hcut,
    noticeReply_whole⟩
  · rcases Nat.lt_or_ge maxReplyParts (planned platform plain body entities).1.length with hover | hfew
    · rw [hcut hover, List.length_append, List.length_map, List.length_take, List.length_singleton]
      unfold maxReplyParts
      omega
    · rw [huncut hfew, List.length_map]
      exact hfew
  · intro reply hreply
    have hplanned : reply = noticeReply platform overflowUrl ∨
        ∃ p ∈ (planned platform plain body entities).1, p.reply platform plain = reply := by
      rcases Nat.lt_or_ge maxReplyParts (planned platform plain body entities).1.length with
        hover | hfew
      · rw [hcut hover, List.mem_append, List.mem_singleton] at hreply
        refine hreply.symm.imp_right fun hfirst => ?_
        obtain ⟨p, hp, heq⟩ := List.mem_map.mp hfirst
        exact ⟨p, List.mem_of_mem_take hp, heq⟩
      · rw [huncut hfew] at hreply
        exact Or.inr (List.mem_map.mp hreply)
    obtain rfl | ⟨p, hp, rfl⟩ := hplanned
    · exact Or.inl (noticeReply_fits platform overflowUrl)
    · exact (hfits p hp).imp_right fun hstyle => ⟨p, hp, hstyle, rfl⟩
  · rwa [hall hfew, List.append_nil] at hwhole
  · obtain ⟨front, back, hsplit⟩ := List.append_of_mem hp
    obtain ⟨hoffset, rest, budget, hrest, hpositive, hle, hends⟩ := hparts front p back hsplit
    rw [Nat.zero_add] at hoffset
    have hbody : front.flatMap (·.chunk) ++ p.chunk ++ back.flatMap (·.chunk) = body := by
      rw [hall hfew, List.append_nil, hsplit, List.flatMap_append, List.flatMap_cons] at hwhole
      rw [List.append_assoc]
      exact hwhole
    rw [← hbody] at hborders
    exact hends.native htelegram hrest hpositive hle hoffset hborders
  · intro e he unit hfrom hto
    rw [hall hfew, List.append_nil] at hwhole
    have hin := (hborders e he).2.le
    have hcount := countP_covers _ 0 unit fun front p back h => (hparts front p back h).1
    rw [hwhole, if_pos (by omega)] at hcount
    rw [← hcount]
    refine List.countP_congr fun p _ => ?_
    rw [shows_iff hfrom hto, Bool.and_eq_true, decide_eq_true_eq, decide_eq_true_eq]

/-- A link across the break of a text that is too long for one message. -/
theorem link_planned_without_loss : PlannedWithoutLoss "telegram" false
    (List.replicate 5000 'a') [⟨.textLink, 4000, 900, some "https://nyxid.test".toList⟩]
      "https://nyxid.test" :=
  replies_planned_without_loss _ _ _ _ _ fun e he => by
    obtain rfl := List.mem_singleton.mp he
    have hborder {n : ℕ} (h : n ≤ 5000) : Border (List.replicate 5000 'a') n := by
      refine ⟨n, ?_⟩
      rw [List.take_replicate, min_eq_left h, utf16Len, List.map_replicate, List.sum_replicate]
      exact Nat.mul_one n
    exact ⟨hborder (by decide), hborder (by decide)⟩

/-! ### Replies of one character -/

section

variable {platform : String} {plain : Bool} {entities : List Entity} {offset : ℕ}

theorem nextChunk_singleton (platform : String) (budget : ℕ) (c : Char) :
    nextChunk platform budget [c] = [c] := by
  have hne := @nextChunk_ne_nil platform budget [c] (List.cons_ne_nil _ _)
  unfold nextChunk at hne ⊢
  cases hend : ((TextLimit.forPlatform platform).withBudget budget).chunkEnd false [c] with
  | zero => exact absurd (by rw [hend, List.take_zero]) hne
  | succ k => rw [List.take_succ_cons, List.take_nil]

theorem planPart_ends_singleton (c : Char) :
    (planPart platform plain entities offset [c] (TextLimit.forPlatform platform).budget).chunk =
        [c] ∧
      ∃ least, 0 < least ∧ least ≤ (TextLimit.forPlatform platform).budget ∧
        PartEnd platform plain entities [c] least
          (planPart platform plain entities offset [c] (TextLimit.forPlatform platform).budget) := by
  have hlarge := budget_ge platform
  obtain ⟨-, least, hpositive, hle, hends⟩ := @planPart_ends platform plain entities offset [c]
    (TextLimit.forPlatform platform).budget (by omega) le_rfl
  exact ⟨hends.chunk.trans (nextChunk_singleton platform least c), least, hpositive, hle, hends⟩

theorem assistantParts_singleton (c : Char) (overflowUrl : String) :
    assistantParts platform plain [c] entities overflowUrl =
      [(planPart platform plain entities 0 [c] (TextLimit.forPlatform platform).budget).reply
        platform plain] := by
  have hplanned : planned platform plain [c] entities =
      ([planPart platform plain entities 0 [c] (TextLimit.forPlatform platform).budget], []) := by
    rw [planned, maxReplyParts, planFrom, if_neg (by simp)]
    dsimp only
    rw [(planPart_ends_singleton c).1, List.length_singleton, List.drop_one, List.tail_cons,
      planFrom]
    rfl
  unfold assistantParts
  rw [hplanned]
  rfl

/-- Where the markup of one character is too large, only its links are kept. -/
theorem planPart_overstyled {c : Char} (htelegram : isTelegram platform = false)
    (hblank : isBlank (rendered platform plain [c] (localEntities entities offset (lenUtf16 c))) =
      false)
    (hover : (TextLimit.forPlatform platform).budget < (TextLimit.forPlatform platform).measure
      (message platform plain offset [c] (localEntities entities offset (lenUtf16 c))).text)
    (budget : ℕ) :
    ∃ links, links = (message platform plain offset [c]
        (localEntities entities offset (lenUtf16 c))).entities.filter (·.kind = .textLink) ∧
      planPart platform plain entities offset [c] budget =
        ⟨offset, [c], renderMarkdown [c] links platform, links⟩ := by
  have hunits : utf16Len [c] = lenUtf16 c := by
    rw [utf16Len, List.map_singleton, List.sum_singleton]
  refine ⟨_, rfl, ?_⟩
  induction budget using planPart.induct platform plain entities offset [c] with
  | case1 budget chunk found hcrowded ih =>
    rw [htelegram] at hcrowded
    exact absurd hcrowded (by simp)
  | case2 budget limit chunk found hcrowded hspace ih =>
    simp only [found, chunk, nextChunk_singleton, hunits, hblank, Bool.false_and,
      Bool.false_eq_true] at hspace
  | case3 budget limit chunk found hcrowded hspace planned hfits =>
    simp only [planned, found, chunk, nextChunk_singleton, hunits] at hfits
    exact absurd hover (Nat.not_lt.mpr hfits)
  | case4 budget limit chunk found hcrowded hspace planned hnot hleast =>
    rw [planPart, if_neg hcrowded, if_neg hspace, if_neg hnot, if_pos hleast, nextChunk_singleton,
      hunits]
  | case5 budget limit chunk found hcrowded hspace planned hnot hleast ih =>
    rw [planPart, if_neg hcrowded, if_neg hspace, if_neg hnot, if_neg hleast]
    exact ih

end

/-- Spans that all cover the first character of a body. -/
def nested (count : ℕ) : List Entity := List.replicate count ⟨.bold, 0, 1, none⟩

theorem nested_borders (count : ℕ) (c : Char) (hunits : lenUtf16 c = 1) :
    ∀ e ∈ nested count, Border [c] e.offset ∧ Border [c] (e.offset + e.length) := by
  intro e he
  obtain rfl := List.eq_of_mem_replicate he
  refine ⟨⟨0, rfl⟩, ⟨1, ?_⟩⟩
  rw [List.take_succ_cons, List.take_nil, utf16Len, List.map_singleton, hunits]
  rfl

theorem local_nested (count : ℕ) : localEntities (nested count) 0 1 = nested count := by
  unfold nested localEntities
  rw [List.filterMap_replicate]
  rfl

/-- The markup of the spans alone. -/
theorem length_render_nested (count : ℕ) :
    2 * count ≤ (renderMarkdown [' '] (nested count) "discord").length ∧
      (0 < count → '*' ∈ renderMarkdown [' '] (nested count) "discord") := by
  have hsorted : (nested count).mergeSort (fun a b =>
      a.offset < b.offset || (a.offset = b.offset && b.length ≤ a.length)) = nested count :=
    List.perm_replicate.mp (List.mergeSort_perm _ _)
  have hopened : ((nested count).filter (·.offset = 0)).flatMap (markers [' '] "discord" · |>.1) =
      List.flatten (List.replicate count ['*', '*']) := by
    rw [nested, List.filter_replicate_of_pos (by rfl), List.flatMap_replicate]
    rfl
  rw [renderMarkdown, hsorted, renderFrom, hopened]
  constructor
  · have hmarks : (List.replicate count ['*', '*']).flatten.length = count * 2 := by
      rw [List.length_flatten, List.map_replicate, List.sum_replicate_nat]
      rfl
    simp only [List.length_append, hmarks]
    omega
  · intro hpositive
    refine List.mem_append_left _ (List.mem_append_left _ (List.mem_append_right _ ?_))
    exact List.mem_flatten.mpr ⟨['*', '*'], List.mem_replicate.mpr ⟨by omega, rfl⟩,
      List.mem_cons_self⟩

/-- Over a hundred entities on one character stay in one part; a blank with too much markup is sent
without it; and a notice with a long address is not sent whole. -/
theorem crowded_blank_and_shortened :
    ((∀ e ∈ nested 101, Border ['a'] e.offset ∧ Border ['a'] (e.offset + e.length)) ∧
      ∃ reply ∈ assistantParts "telegram" false ['a'] (nested 101) "https://nyxid.test",
        ∃ found, reply.metadata = some (.entities found) ∧ 100 < found.length) ∧
    ((∀ e ∈ nested 1001, Border [' '] e.offset ∧ Border [' '] (e.offset + e.length)) ∧
      ∃ reply ∈ assistantParts "discord" false [' '] (nested 1001) "https://nyxid.test",
        isBlank reply.text = true) ∧
    (noticeReply "discord" (String.ofList (List.replicate 2000 'x'))).text ≠
      notice (String.ofList (List.replicate 2000 'x')) := by
  refine ⟨⟨nested_borders 101 'a' rfl, ?_⟩, ⟨nested_borders 1001 ' ' rfl, ?_⟩, ?_⟩
  · rw [assistantParts_singleton]
    refine ⟨_, List.mem_singleton_self _, _, rfl, ?_⟩
    obtain ⟨hchunk, least, hpositive, hle, hends⟩ :=
      @planPart_ends_singleton "telegram" false (nested 101) 0 'a'
    have hfull := (hends.eq_full (List.cons_ne_nil _ _) hpositive hle
      fun hstyle => absurd hstyle.1 (by decide)).1
    obtain ⟨hoffset, -⟩ := @planPart_ends "telegram" false (nested 101) 0 ['a']
      (TextLimit.forPlatform "telegram").budget (by decide) le_rfl
    have hfound := local_nested 101
    rw [hfull, (full_eq _).2, List.length_map, Planned.found, hchunk, hoffset]
    rw [show utf16Len ['a'] = 1 from rfl, hfound, nested, List.length_replicate]
    omega
  · rw [assistantParts_singleton]
    refine ⟨_, List.mem_singleton_self _, ?_⟩
    obtain ⟨hlength, hstar⟩ := length_render_nested 1001
    have hrendered : rendered "discord" false [' '] (nested 1001) =
        renderMarkdown [' '] (nested 1001) "discord" := rfl
    have hblank : isBlank (rendered "discord" false [' '] (nested 1001)) = false := by
      rw [hrendered]
      exact not_isBlank (hstar (by omega)) (by decide)
    have hmessage : message "discord" false 0 [' '] (nested 1001) =
        ⟨0, [' '], renderMarkdown [' '] (nested 1001) "discord", nested 1001⟩ := by
      rw [message, if_neg (by rw [hblank]; exact Bool.false_ne_true), hrendered]
    obtain ⟨links, hlinks, hpart⟩ := @planPart_overstyled "discord" false (nested 1001) 0 ' ' rfl
      (by rw [show lenUtf16 ' ' = 1 from rfl, local_nested, hblank])
      (by
        rw [show lenUtf16 ' ' = 1 from rfl, local_nested, hmessage]
        have hmeasure := TextLimit.length_le_measure (TextLimit.forPlatform "discord")
          (renderMarkdown [' '] (nested 1001) "discord")
        have hbudget : (TextLimit.forPlatform "discord").budget = 2000 := rfl
        dsimp only
        omega) (TextLimit.forPlatform "discord").budget
    rw [show lenUtf16 ' ' = 1 from rfl, local_nested, hmessage] at hlinks
    have hnone : links = [] := by
      rw [hlinks, nested, List.filter_replicate_of_neg (by decide)]
    have hspace : renderMarkdown [' '] [] "discord" = [' '] := by
      rw [renderMarkdown, List.mergeSort_nil]
      rfl
    rw [hpart, hnone, hspace]
    rfl
  · intro hwhole
    have hmeasure := (noticeReply_fits "discord" (String.ofList (List.replicate 2000 'x'))).2
    have hlength := TextLimit.length_le_measure (TextLimit.forPlatform "discord")
      (notice (String.ofList (List.replicate 2000 'x')))
    have hbudget : (TextLimit.forPlatform "discord").budget = 2000 := rfl
    have hlong : 2000 < (notice (String.ofList (List.replicate 2000 'x'))).length := by
      unfold notice
      rw [String.toList_append, List.length_append,
        @String.toList_ofList (List.replicate 2000 'x'), List.length_replicate]
      exact Nat.lt_add_of_pos_left (by decide)
    rw [hwhole] at hmeasure
    omega

end NyxId.Channel
