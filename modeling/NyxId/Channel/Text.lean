import NyxId.Encoding.Records
import NyxId.Encoding.Json
import NyxId.Paging
import NyxId.Permissions.Drive

/-!
Boundaries of the native messages of a chat platform. Limits count the units of the platform; a
text is a list of its scalar values, and a place in it counts them.
-/

namespace NyxId.Channel

open Encoding

inductive Units
  | utf16
  | scalars
  | jsonBytes
deriving DecidableEq

structure TextLimit where
  units : Units
  budget : ℕ

def lenUtf16 (c : Char) : ℕ := if c.toNat < 0x10000 then 1 else 2

/-- The last place at which the text before it passes a test. -/
def lastEnd (test : List Char → Bool) (text : List Char) : Option ℕ :=
  (List.range (text.length + 1)).reverse.find? fun stop => test (text.take stop)

/-- Paragraphs, then lines and whitespace. -/
def softEnd (text : List Char) : Option ℕ :=
  ((lastEnd (['\n', '\n'].isSuffixOf ·) text).or (lastEnd (['\n'].isSuffixOf ·) text)).or
    (lastEnd (·.getLast?.any isWhitespace) text)

/-- The number of backslashes at the end. -/
def escapeRun (text : List Char) : ℕ := (text.reverse.takeWhile (· = '\\')).length

namespace TextLimit

def forPlatform (platform : String) : TextLimit :=
  if platform = "lark" ∨ platform = "feishu" then ⟨.jsonBytes, 30 * 1024 - 11⟩
  else if platform = "telegram" ∨ platform = "telegram-new" then ⟨.utf16, 4096⟩
  else if platform = "discord" then ⟨.utf16, 2000⟩
  else if platform = "slack" then ⟨.scalars, 40000⟩
  else if platform = "whatsapp" then ⟨.scalars, 4096⟩
  else if platform = "x" then ⟨.scalars, 10000⟩
  else ⟨.utf16, 2000⟩

variable (self : TextLimit)

def withBudget (budget : ℕ) : TextLimit := { self with budget := min (max budget 1) self.budget }

def cost (c : Char) : ℕ :=
  match self.units with
  | .utf16 => lenUtf16 c
  | .scalars => 1
  | .jsonBytes =>
    if c = '"' ∨ c = '\\' ∨ c = '\n' ∨ c = '\r' ∨ c = '\t' ∨ c = '\u0008' ∨ c = '\u000c' then 2
    else if c.toNat < 32 then 6
    else c.utf8Size

def measure (text : List Char) : ℕ := (text.map self.cost).sum

/-- The loop over the scalars; a scalar that is too large for the budget is taken alone. -/
def hardEnd (used taken : ℕ) : List Char → ℕ
  | [] => taken
  | c :: rest =>
    if used + self.cost c > self.budget then (if taken = 0 then 1 else taken)
    else hardEnd (used + self.cost c) (taken + 1) rest

/-- The end of the next chunk of a text that has a rest. -/
def chunkEnd (keepEscapes : Bool) (rest : List Char) : ℕ :=
  let hard := self.hardEnd 0 0 rest
  if hard < rest.length then
    let stop := (softEnd (rest.take hard)).getD hard
    if keepEscapes ∧ escapeRun (rest.take stop) % 2 = 1 then
      -- one backslash is one byte, and the first of a chunk only where it is all of it
      if stop = 1 then stop + (rest.drop stop).head?.elim 0 fun _ => 1 else stop - 1
    else stop
  else hard

theorem measure_append (front back : List Char) :
    self.measure (front ++ back) = self.measure front + self.measure back := by
  rw [measure, List.map_append, List.sum_append, ← measure, ← measure]

theorem measure_take_le {text : List Char} {n m : ℕ} (h : n ≤ m) :
    self.measure (text.take n) ≤ self.measure (text.take m) := by
  have hsplit : text.take m = text.take n ++ (text.drop n).take (m - n) := by
    conv_lhs => rw [show m = n + (m - n) by omega, List.take_add]
  rw [hsplit, measure_append]
  exact Nat.le_add_right _ _

/-- The longest front within the budget, but at least one scalar. -/
theorem hardEnd_eq (used taken : ℕ) (rest : List Char) (hused : used ≤ self.budget) :
    ∃ k ≤ rest.length, used + self.measure (rest.take k) ≤ self.budget ∧
      (k < rest.length → self.budget < used + self.measure (rest.take (k + 1))) ∧
      self.hardEnd used taken rest = if taken + k = 0 ∧ rest ≠ [] then 1 else taken + k := by
  induction rest generalizing used taken with
  | nil => exact ⟨0, le_rfl, by simpa [measure] using hused, by simp, by simp [hardEnd]⟩
  | cons c rest ih =>
    rw [hardEnd]
    by_cases hover : used + self.cost c > self.budget
    · refine ⟨0, Nat.zero_le _, by simpa [measure] using hused, fun _ => by simpa [measure], ?_⟩
      simp [hover]
    · rw [if_neg hover]
      obtain ⟨k, hk, hwithin, hmaximal, hend⟩ := ih (used + self.cost c) (taken + 1) (by omega)
      refine ⟨k + 1, by simpa using hk, ?_, fun hlt => ?_, ?_⟩
      · simpa [measure, Nat.add_assoc] using hwithin
      · simpa [measure, Nat.add_assoc] using hmaximal (by simpa using hlt)
      · rw [hend, if_neg (by omega), if_neg (by omega)]
        omega

theorem hardEnd_bounds {rest : List Char} (h : rest ≠ []) :
    0 < self.hardEnd 0 0 rest ∧ self.hardEnd 0 0 rest ≤ rest.length := by
  obtain ⟨k, hk, -, -, hend⟩ := self.hardEnd_eq 0 0 rest (Nat.zero_le _)
  have hpositive := List.length_pos_iff.mpr h
  rw [hend]
  split
  · omega
  · rename_i hsome
    have hk : 0 + k ≠ 0 := fun hzero => hsome ⟨hzero, h⟩
    omega

end TextLimit

theorem lastEnd_eq_some {test : List Char → Bool} {text : List Char} {stop : ℕ}
    (h : lastEnd test text = some stop) : stop ≤ text.length ∧ test (text.take stop) = true := by
  unfold lastEnd at h
  have hmem := List.mem_of_find?_eq_some h
  have htest := List.find?_some h
  rw [List.mem_reverse, List.mem_range] at hmem
  exact ⟨by omega, htest⟩

/-- A soft break comes after white space. -/
theorem softEnd_eq_some {text : List Char} {stop : ℕ} (h : softEnd text = some stop) :
    stop ≤ text.length ∧ ∃ front c, text.take stop = front ++ [c] ∧ c ≠ '\\' := by
  have hsuffix {pattern front : List Char} (h : (pattern ++ ['\n']).isSuffixOf front = true) :
      ∃ init c, front = init ++ [c] ∧ c ≠ '\\' := by
    obtain ⟨init, rfl⟩ := List.isSuffixOf_iff_suffix.mp h
    exact ⟨init ++ pattern, '\n', by rw [List.append_assoc], by decide⟩
  unfold softEnd at h
  obtain h | ⟨-, h⟩ := Option.or_eq_some_iff.mp h
  · obtain h | ⟨-, h⟩ := Option.or_eq_some_iff.mp h
    · obtain ⟨hle, htest⟩ := lastEnd_eq_some h
      exact ⟨hle, @hsuffix ['\n'] _ htest⟩
    · obtain ⟨hle, htest⟩ := lastEnd_eq_some h
      exact ⟨hle, @hsuffix [] _ htest⟩
  · obtain ⟨hle, htest⟩ := lastEnd_eq_some h
    refine ⟨hle, ?_⟩
    obtain ⟨c, hlast, hspace⟩ := (Option.any_eq_true _ _).mp htest
    obtain ⟨init, hinit⟩ := List.getLast?_eq_some_iff.mp hlast
    refine ⟨init, c, hinit, ?_⟩
    rintro rfl
    exact absurd hspace (by decide)

theorem softEnd_pos {text : List Char} {stop : ℕ} (h : softEnd text = some stop) : 0 < stop := by
  obtain ⟨-, front, c, htake, -⟩ := softEnd_eq_some h
  rcases Nat.eq_zero_or_pos stop with rfl | hpositive
  · exact absurd htake (by simp)
  · exact hpositive

/-! ### Runs of backslashes -/

theorem escapeRun_concat (text : List Char) (c : Char) :
    escapeRun (text ++ [c]) = if c = '\\' then escapeRun text + 1 else 0 := by
  unfold escapeRun
  rw [List.reverse_append, List.reverse_singleton, List.singleton_append, List.takeWhile_cons]
  by_cases hc : c = '\\' <;> simp [hc]

theorem exists_concat {text : List Char} (h : escapeRun text % 2 = 1) :
    ∃ front, text = front ++ ['\\'] ∧ escapeRun front % 2 = 0 := by
  rcases List.eq_nil_or_concat' text with rfl | ⟨front, c, rfl⟩
  · exact absurd h (by decide)
  · rw [escapeRun_concat] at h
    split at h
    · rename_i hc
      exact ⟨front, by rw [hc], by omega⟩
    · exact absurd h (by decide)

/-- Runs that end in pairs go on in pairs. -/
theorem escapeRun_append {front back : List Char} (hfront : escapeRun front % 2 = 0)
    (hback : escapeRun back % 2 = 0) : escapeRun (front ++ back) % 2 = 0 := by
  have hcases : escapeRun (front ++ back) = escapeRun back ∨
      escapeRun (front ++ back) = escapeRun front + escapeRun back := by
    unfold escapeRun
    rw [List.reverse_append, List.takeWhile_append]
    split
    · rw [List.length_append]
      rename_i hall
      exact Or.inr (by rw [hall]; exact Nat.add_comm _ _)
    · exact Or.inl rfl
  omega

namespace TextLimit

variable (self : TextLimit)

/-- Where the chunk ends, with what is known of the hard end. -/
theorem chunkEnd_cases (keepEscapes : Bool) (rest : List Char) :
    self.chunkEnd keepEscapes rest = self.hardEnd 0 0 rest ∧
      (self.hardEnd 0 0 rest < rest.length → keepEscapes = true →
        escapeRun (rest.take (self.hardEnd 0 0 rest)) % 2 = 0) ∨
    softEnd (rest.take (self.hardEnd 0 0 rest)) = some (self.chunkEnd keepEscapes rest) ∨
    keepEscapes = true ∧ self.hardEnd 0 0 rest < rest.length ∧
      escapeRun (rest.take (self.hardEnd 0 0 rest)) % 2 = 1 ∧
      (self.hardEnd 0 0 rest = 1 ∧ self.chunkEnd keepEscapes rest = 2 ∨
        1 < self.hardEnd 0 0 rest ∧
          self.chunkEnd keepEscapes rest = self.hardEnd 0 0 rest - 1) := by
  unfold chunkEnd
  generalize hhard : self.hardEnd 0 0 rest = hard
  by_cases hlt : hard < rest.length
  · simp only [if_pos hlt]
    cases hsoft : softEnd (rest.take hard) with
    | some stop =>
      refine Or.inr (Or.inl ?_)
      obtain ⟨hle, front, c, htake, hc⟩ := softEnd_eq_some hsoft
      rw [List.length_take] at hle
      rw [List.take_take, Nat.min_eq_left (by omega)] at htake
      simp only [Option.getD_some]
      rw [if_neg]
      rw [htake, escapeRun_concat, if_neg hc]
      simp
    | none =>
      simp only [Option.getD_none]
      by_cases hodd : escapeRun (rest.take hard) % 2 = 1
      · cases keepEscapes with
        | false => exact Or.inl ⟨by simp, by simp⟩
        | true =>
          refine Or.inr (Or.inr ⟨rfl, hlt, hodd, ?_⟩)
          simp only [hodd, and_self, if_true]
          by_cases hone : hard = 1
          · refine Or.inl ⟨hone, ?_⟩
            rw [if_pos hone, hone]
            cases hnext : rest.drop 1 with
            | nil => exact absurd (List.drop_eq_nil_iff.mp hnext) (by omega)
            | cons c rest => rfl
          · have hpositive : 0 < hard := by
              rcases Nat.eq_zero_or_pos hard with rfl | hpositive
              · rw [List.take_zero] at hodd
                exact absurd hodd (by decide)
              · exact hpositive
            exact Or.inr ⟨by omega, if_neg hone⟩
      · exact Or.inl ⟨by simp [hodd], fun _ _ => by omega⟩
  · exact Or.inl ⟨if_neg hlt, fun h => absurd h hlt⟩

theorem chunkEnd_pos (keepEscapes : Bool) (rest : List Char) (h : rest ≠ []) :
    0 < self.chunkEnd keepEscapes rest := by
  have hbounds := self.hardEnd_bounds h
  obtain ⟨heq, -⟩ | hsoft | ⟨-, -, -, ⟨-, heq⟩ | ⟨hlt, heq⟩⟩ :=
    self.chunkEnd_cases keepEscapes rest
  · omega
  · exact softEnd_pos hsoft
  · omega
  · omega

/-- A chunk that is cut before the end of the text does not end in the first half of a pair. -/
theorem escapeRun_chunk {rest : List Char} (h : self.chunkEnd true rest < rest.length) :
    escapeRun (rest.take (self.chunkEnd true rest)) % 2 = 0 := by
  obtain ⟨heq, heven⟩ | hsoft | ⟨-, hlt, hodd, hcases⟩ := self.chunkEnd_cases true rest
  · rw [heq] at h ⊢
    exact heven h rfl
  · obtain ⟨hle, front, c, htake, hc⟩ := softEnd_eq_some hsoft
    rw [List.length_take] at hle
    rw [List.take_take, Nat.min_eq_left (by omega)] at htake
    rw [htake, escapeRun_concat, if_neg hc]
  · obtain ⟨front, hfront, heven⟩ := exists_concat hodd
    obtain ⟨hone, htwo⟩ | ⟨-, hless⟩ := hcases
    · -- the pair is the whole chunk
      rw [hone] at hfront
      have hlonger : 1 < rest.length := by omega
      obtain ⟨a, c, tail, rfl⟩ : ∃ a c tail, rest = a :: c :: tail := by
        match rest, hlonger with
        | a :: c :: tail, _ => exact ⟨a, c, tail, rfl⟩
      have ha : [a] = front ++ ['\\'] := hfront
      obtain rfl : a = '\\' := by
        have hlast := congrArg List.getLast? ha
        rw [List.getLast?_concat] at hlast
        exact Option.some.inj hlast
      have hc : ('\\' :: c :: tail).take 2 = ['\\', c] := rfl
      rw [htwo, hc, show ['\\', c] = ['\\'] ++ [c] from rfl, escapeRun_concat]
      split
      · decide
      · rfl
    · have hle : self.hardEnd 0 0 rest ≤ rest.length := by omega
      have hlength := congrArg List.length hfront
      rw [List.length_take, List.length_append, List.length_singleton] at hlength
      have htake : rest.take (self.hardEnd 0 0 rest - 1) = front := by
        rw [show self.hardEnd 0 0 rest - 1 = min (self.hardEnd 0 0 rest - 1)
          (self.hardEnd 0 0 rest) by omega, ← List.take_take, hfront, List.take_left' (by omega)]
      rw [hless, htake]
      exact heven

def cutter (keepEscapes : Bool) : Paging.Cutter Char :=
  ⟨self.chunkEnd keepEscapes, self.chunkEnd_pos keepEscapes⟩

def chunksInner (text : List Char) (keepEscapes : Bool) : List (List Char) :=
  (self.cutter keepEscapes).pieces text

def chunks (text : List Char) : List (List Char) := self.chunksInner text true

def displayChunks (text : List Char) : List (List Char) := self.chunksInner text false

/-- Every border comes after pairs that are whole. -/
theorem escapeRun_front {text : List Char} {front back : List (List Char)}
    (h : self.chunks text = front ++ back) (hback : back ≠ []) :
    escapeRun front.flatten % 2 = 0 := by
  induction front using List.reverseRecOn generalizing back with
  | nil => rfl
  | append_singleton front piece ih =>
    rw [List.append_assoc, List.singleton_append] at h
    obtain ⟨rest, -, -, hpiece, hlater⟩ := (self.cutter true).of_pieces_eq h
    rw [List.flatten_append, List.flatten_singleton]
    refine escapeRun_append (ih h (List.cons_ne_nil _ _)) ?_
    rw [hpiece]
    apply self.escapeRun_chunk
    by_contra hwhole
    refine hback (hlater.trans ((self.cutter true).pieces_eq_nil.mpr ?_))
    exact List.drop_eq_nil_iff.mpr (Nat.not_lt.mp hwhole)

theorem chunkEnd_of_fits (keepEscapes : Bool) {text : List Char} (h : text ≠ [])
    (hfits : self.measure text ≤ self.budget) : self.chunkEnd keepEscapes text = text.length := by
  obtain ⟨k, hk, -, hmaximal, hend⟩ := self.hardEnd_eq 0 0 text (Nat.zero_le _)
  have hall : k = text.length := by
    by_contra hne
    have hover := hmaximal (by omega)
    have hle := @measure_take_le self text _ _ (show k + 1 ≤ text.length by omega)
    rw [List.take_length] at hle
    omega
  have hpositive := List.length_pos_iff.mpr h
  rw [if_neg (by omega), Nat.zero_add, hall] at hend
  rw [chunkEnd, hend, if_neg (Nat.lt_irrefl _)]

theorem cost_le (c : Char) : self.cost c ≤ 6 := by
  have hsize := Char.utf8Size_le_four c
  unfold cost lenUtf16
  split <;> (try split) <;> (try split) <;> omega

theorem length_le_measure (text : List Char) : text.length ≤ self.measure text := by
  have hcost (c : Char) : 1 ≤ self.cost c := by
    have hsize := Char.utf8Size_pos c
    unfold cost lenUtf16
    split <;> (try split) <;> (try split) <;> omega
  induction text with
  | nil => exact Nat.zero_le _
  | cons c rest ih =>
    have hc := hcost c
    rw [measure, List.map_cons, List.sum_cons, ← measure, List.length_cons]
    omega

theorem chunkEnd_display_le (rest : List Char) :
    self.chunkEnd false rest ≤ max self.budget 1 := by
  have hhard : self.hardEnd 0 0 rest ≤ max self.budget 1 := by
    obtain ⟨k, hk, hwithin, -, hend⟩ := self.hardEnd_eq 0 0 rest (Nat.zero_le _)
    have hlength := self.length_le_measure (rest.take k)
    rw [List.length_take, Nat.min_eq_left hk] at hlength
    rw [hend]
    split <;> omega
  obtain ⟨heq, -⟩ | hsoft | ⟨hkeep, -⟩ := self.chunkEnd_cases false rest
  · omega
  · obtain ⟨hle, -⟩ := softEnd_eq_some hsoft
    rw [List.length_take] at hle
    omega
  · cases hkeep

theorem measure_hardEnd_le (rest : List Char) :
    self.measure (rest.take (self.hardEnd 0 0 rest)) ≤ max self.budget 6 := by
  obtain ⟨k, hk, hwithin, -, hend⟩ := self.hardEnd_eq 0 0 rest (Nat.zero_le _)
  rw [hend]
  split
  · refine le_max_of_le_right ?_
    cases rest with
    | nil => exact Nat.zero_le _
    | cons c rest =>
      have hcost := self.cost_le c
      simpa [measure] using hcost
  · rw [Nat.zero_add] at hwithin ⊢
    exact le_max_of_le_left hwithin

/-- A chunk of display text is over its budget only where it is one scalar. -/
theorem measure_display_le (rest : List Char) :
    self.measure (rest.take (self.chunkEnd false rest)) ≤ max self.budget 6 := by
  have hhard := self.measure_hardEnd_le rest
  obtain ⟨heq, -⟩ | hsoft | ⟨hkeep, -⟩ := self.chunkEnd_cases false rest
  · rw [heq]
    exact hhard
  · obtain ⟨hle, -⟩ := softEnd_eq_some hsoft
    rw [List.length_take] at hle
    exact (self.measure_take_le (by omega)).trans hhard
  · cases hkeep

/-- No chunk is over a budget that has room for two scalars of any kind. -/
theorem measure_chunk_le (keepEscapes : Bool) {rest : List Char} (hbudget : 12 ≤ self.budget) :
    self.measure (rest.take (self.chunkEnd keepEscapes rest)) ≤ self.budget := by
  have htwo : self.measure (rest.take 2) ≤ self.budget := by
    match rest with
    | [] => exact Nat.zero_le _
    | [a] =>
      have ha := self.cost_le a
      simp only [measure, List.take, List.map_cons, List.map_nil, List.sum_cons, List.sum_nil]
      omega
    | a :: b :: tail =>
      have ha := self.cost_le a
      have hb := self.cost_le b
      simp only [measure, List.take, List.map_cons, List.map_nil, List.sum_cons, List.sum_nil]
      omega
  have hhard := self.measure_hardEnd_le rest
  rw [max_eq_left (by omega)] at hhard
  obtain ⟨heq, -⟩ | hsoft | ⟨-, -, -, ⟨-, heq⟩ | ⟨-, heq⟩⟩ :=
    self.chunkEnd_cases keepEscapes rest
  · rw [heq]
    exact hhard
  · obtain ⟨hle, -⟩ := softEnd_eq_some hsoft
    rw [List.length_take] at hle
    exact (self.measure_take_le (by omega)).trans hhard
  · rw [heq]
    exact htwo
  · rw [heq]
    exact (self.measure_take_le (by omega)).trans hhard

theorem budget_forPlatform (platform : String) : 12 ≤ (forPlatform platform).budget := by
  unfold forPlatform
  repeat' split
  all_goals decide

theorem utf8Size_hexDigit : ∀ n < 16, (hexDigit n).utf8Size = 1 := by decide

theorem length_escapeChar (hunits : self.units = .jsonBytes) (c : Char) :
    ((escapeChar c).flatMap String.utf8EncodeChar).length = self.cost c := by
  simp only [cost, hunits]
  by_cases hshort :
      c = '"' ∨ c = '\\' ∨ c = '\n' ∨ c = '\r' ∨ c = '\t' ∨ c = '\u0008' ∨ c = '\u000c'
  · rw [if_pos hshort]
    rcases hshort with rfl | rfl | rfl | rfl | rfl | rfl | rfl <;> decide
  · rw [if_neg hshort]
    simp only [not_or] at hshort
    obtain ⟨hquote, hslash, hfeed, hreturn, htab, hback, hform⟩ := hshort
    unfold escapeChar
    rw [if_neg hquote, if_neg hslash, if_neg hback, if_neg htab, if_neg hfeed, if_neg hform,
      if_neg hreturn]
    split
    · have hhigh := utf8Size_hexDigit (c.toNat / 16) (by omega)
      have hlow := utf8Size_hexDigit (c.toNat % 16) (by omega)
      simp only [List.flatMap_cons, List.flatMap_nil, List.append_nil, List.length_append,
        String.length_utf8EncodeChar, hhigh, hlow]
      decide
    · rw [List.flatMap_singleton, String.length_utf8EncodeChar]

/-- JSON costs are the bytes of a text between the quotes of a serialized string. -/
theorem measure_json (hunits : self.units = .jsonBytes) (text : List Char) :
    (utf8 (String.ofList (writeString (String.ofList text)))).length = self.measure text + 2 := by
  have htext : ((text.flatMap escapeChar).flatMap String.utf8EncodeChar).length =
      self.measure text := by
    induction text with
    | nil => rfl
    | cons c rest ih =>
      rw [List.flatMap_cons, List.flatMap_append, List.length_append, ih,
        self.length_escapeChar hunits]
      rfl
  have hquote : (String.utf8EncodeChar '"').length = 1 := by
    rw [String.length_utf8EncodeChar]
    decide
  rw [utf8_ofList, writeString, String.toList_ofList]
  simp only [List.flatMap_append, List.flatMap_cons, List.flatMap_nil, List.length_append,
    List.length_nil, htext, hquote]
  omega

/-- What a chunking of a text promises under any budget. -/
structure Lossless (text : List Char) (parts : List (List Char)) : Prop where
  whole : parts.flatten = text
  nonempty : ∀ part ∈ parts, part ≠ []
  alone : text ≠ [] → self.measure text ≤ self.budget → parts = [text]

theorem lossless (keepEscapes : Bool) (text : List Char) :
    self.Lossless text (self.chunksInner text keepEscapes) where
  whole := (self.cutter keepEscapes).flatten_pieces text
  nonempty _ hpart := (self.cutter keepEscapes).ne_nil_of_mem hpart
  alone hne hfits :=
    (self.cutter keepEscapes).pieces_eq_singleton hne (self.chunkEnd_of_fits keepEscapes hne hfits)

theorem within (keepEscapes : Bool) (hbudget : 12 ≤ self.budget) {text part : List Char}
    (h : part ∈ self.chunksInner text keepEscapes) : self.measure part ≤ self.budget := by
  obtain ⟨-, rest, -, -, rfl⟩ := (self.cutter keepEscapes).exists_rest h
  exact self.measure_chunk_le keepEscapes hbudget

end TextLimit

/-- For every platform, every reduced budget and every text. -/
theorem chunking_lossless (platform : String) (budget : ℕ) (text : List Char) :
    (((TextLimit.forPlatform platform).withBudget budget).Lossless text
        (((TextLimit.forPlatform platform).withBudget budget).chunks text) ∧
      ((TextLimit.forPlatform platform).withBudget budget).Lossless text
        (((TextLimit.forPlatform platform).withBudget budget).displayChunks text)) ∧
    (∀ part ∈ (TextLimit.forPlatform platform).chunks text ++
        (TextLimit.forPlatform platform).displayChunks text,
      (TextLimit.forPlatform platform).measure part ≤ (TextLimit.forPlatform platform).budget ∧
        ((TextLimit.forPlatform platform).units = .jsonBytes →
          (utf8 (String.ofList (writeString (String.ofList part)))).length =
            (TextLimit.forPlatform platform).measure part + 2)) ∧
    (∀ front back, ((TextLimit.forPlatform platform).withBudget budget).chunks text = front ++ back →
      back ≠ [] → escapeRun front.flatten % 2 = 0) := by
  have hbudget := TextLimit.budget_forPlatform platform
  refine ⟨⟨TextLimit.lossless _ true text, TextLimit.lossless _ false text⟩, fun part hpart => ?_,
    fun front back => TextLimit.escapeRun_front _⟩
  refine ⟨?_, fun hunits => TextLimit.measure_json _ hunits part⟩
  rcases List.mem_append.mp hpart with hpart | hpart
  · exact TextLimit.within _ true hbudget hpart
  · exact TextLimit.within _ false hbudget hpart

/-- An escaped star that the budget would halve. -/
theorem star_moved_whole :
    ((TextLimit.forPlatform "discord").withBudget 2).chunks ['a', '\\', '*', 'b'] =
        [['a']] ++ [['\\', '*'], ['b']] ∧
      escapeRun [['a']].flatten % 2 = 0 := by
  have hparts : ((TextLimit.forPlatform "discord").withBudget 2).chunks ['a', '\\', '*', 'b'] =
      [['a']] ++ [['\\', '*'], ['b']] := by
    rw [TextLimit.chunks, TextLimit.chunksInner, Paging.Cutter.pieces_of_ne_nil _ (by decide),
      Paging.Cutter.pieces_of_ne_nil _ (by decide),
      Paging.Cutter.pieces_eq_singleton _ (by decide) (by decide)]
    decide
  exact ⟨hparts, (chunking_lossless "discord" 2 _).2.2 _ _ hparts (by decide)⟩

/-- The empty text fits every budget and has no parts. -/
theorem empty_text_has_no_part :
    (TextLimit.forPlatform "discord").measure [] ≤ (TextLimit.forPlatform "discord").budget ∧
    (TextLimit.forPlatform "discord").chunks [] ≠ [[]] := by
  refine ⟨Nat.zero_le _, ?_⟩
  rw [TextLimit.chunks, TextLimit.chunksInner, Paging.Cutter.pieces_nil]
  exact fun h => absurd h (List.cons_ne_nil _ _).symm

end NyxId.Channel
