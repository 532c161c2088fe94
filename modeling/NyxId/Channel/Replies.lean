import NyxId.Channel.Text

/-!
Plans of assistant replies. A body is cut into parts, each with its formatting: on Telegram as
entities that count UTF-16 units, elsewhere as markup that is written around the text.
-/

namespace NyxId.Channel

open Encoding (trim)

inductive EntityKind
  | bold
  | italic
  | strikethrough
  | code
  | pre
  | textLink
  | other
deriving DecidableEq

structure Entity where
  kind : EntityKind
  offset : ℕ
  length : ℕ
  url : Option (List Char)
deriving DecidableEq

def utf16Len (text : List Char) : ℕ := (text.map lenUtf16).sum

def maxReplyParts : ℕ := 64

/-- The part of an entity that lies in a stretch of units. -/
def clip (offset length : ℕ) (entity : Entity) : Option Entity :=
  let start := max entity.offset offset
  let stop := min (entity.offset + entity.length) (offset + length)
  if start ≥ stop then none
  else some { entity with offset := start - offset, length := stop - start }

def localEntities (entities : List Entity) (offset length : ℕ) : List Entity :=
  entities.filterMap (clip offset length)

def isTelegram (platform : String) : Bool := platform = "telegram" || platform = "telegram-new"

def isMarkdown (platform : String) : Bool :=
  platform = "discord" || platform = "slack" || platform = "whatsapp"

def markdownLinkUrl (url : List Char) : List Char :=
  url.flatMap fun c =>
    if c = '(' then "%28".toList
    else if c = ')' then "%29".toList
    else if c = '>' then "%3E".toList
    else if c = '|' then "%7C".toList
    else if c = ' ' then "%20".toList
    else [c]

/-- The longest run of backticks. -/
def longestFence (text : List Char) : ℕ :=
  ((text.splitOnP (· ≠ '`')).map List.length).foldl max 0

def markers (text : List Char) (platform : String) (entity : Entity) : List Char × List Char :=
  match entity.kind with
  | .bold => if platform = "discord" then (['*', '*'], ['*', '*']) else (['*'], ['*'])
  | .italic => (['_'], ['_'])
  | .strikethrough => if platform = "discord" then (['~', '~'], ['~', '~']) else (['~'], ['~'])
  | .code =>
    let fence := List.replicate (longestFence text + 1) '`'
    (fence ++ [' '], ' ' :: fence)
  | .pre =>
    let fence := List.replicate (max (longestFence text) 2 + 1) '`'
    (fence ++ ['\n'], '\n' :: fence)
  | .textLink =>
    let url := markdownLinkUrl (entity.url.getD [])
    if platform = "slack" then ('<' :: url ++ ['|'], ['>']) else (['['], "](".toList ++ url ++ [')'])
  | .other => ([], [])

def escaped (platform : String) (inCode : Bool) (c : Char) : List Char :=
  if platform = "slack" then
    if c = '&' then "&amp;".toList
    else if c = '<' then "&lt;".toList
    else if c = '>' then "&gt;".toList
    else [c]
  else if !inCode && "\\`*_\x7b\x7d[]()#+-.!|>~".toList.contains c then ['\\', c]
  else [c]

/-- Spans in their order: those that begin first, the longer ones before those they hold. -/
def renderFrom (text : List Char) (spans : List Entity) (platform : String) (position : ℕ) :
    List Char → List Char
  | [] => closing
  | c :: rest =>
    let inCode := spans.any fun e =>
      (e.kind = .code || e.kind = .pre) && e.offset ≤ position && position < e.offset + e.length
    closing ++ (spans.filter (·.offset = position)).flatMap (markers text platform · |>.1) ++
      escaped platform inCode c ++ renderFrom text spans platform (position + lenUtf16 c) rest
where
  closing : List Char :=
    (spans.reverse.filter fun e => e.offset + e.length = position).flatMap
      (markers text platform · |>.2)

def renderMarkdown (text : List Char) (entities : List Entity) (platform : String) : List Char :=
  renderFrom text (entities.mergeSort fun a b =>
    a.offset < b.offset || (a.offset = b.offset && b.length ≤ a.length)) platform 0 text

def continuation : List Char := "Whitespace continuation:\n".toList

/-- A chunk of the body with the message that shows it. -/
structure Planned where
  offset : ℕ
  chunk : List Char
  text : List Char
  entities : List Entity
deriving DecidableEq

/-- What is left of a platform's budget beside the prefix. -/
def available (limit : TextLimit) : ℕ := limit.budget - limit.measure continuation

section

variable (platform : String) (plain : Bool) (entities : List Entity) (offset : ℕ)

def rendered (chunk : List Char) (found : List Entity) : List Char :=
  if isMarkdown platform && !plain then renderMarkdown chunk found platform else chunk

def isBlank (text : List Char) : Bool := (trim text).isEmpty

/-- The message for a chunk; one that would be blank is announced. -/
def message (chunk : List Char) (found : List Entity) : Planned :=
  if isBlank (rendered platform plain chunk found) then
    ⟨offset, chunk, continuation ++ rendered platform plain chunk found,
      found.map fun e => { e with offset := e.offset + utf16Len continuation }⟩
  else ⟨offset, chunk, rendered platform plain chunk found, found⟩

def nextChunk (budget : ℕ) (rest : List Char) : List Char :=
  rest.take (((TextLimit.forPlatform platform).withBudget budget).chunkEnd false rest)

theorem budget_ge : 2000 ≤ (TextLimit.forPlatform platform).budget := by
  unfold TextLimit.forPlatform
  repeat' split
  all_goals decide

theorem measure_continuation : (TextLimit.forPlatform platform).measure continuation ≤ 26 := by
  unfold TextLimit.forPlatform
  repeat' split
  all_goals decide

theorem available_pos : 0 < available (TextLimit.forPlatform platform) := by
  have hbudget := budget_ge platform
  have hmeasure := measure_continuation platform
  unfold available
  omega

/-- The loop for one part: the budget shrinks until the message fits. `plain` is set where Slack
shall not parse the text. -/
def planPart (rest : List Char) (budget : ℕ) : Planned :=
  let limit := TextLimit.forPlatform platform
  let chunk := nextChunk platform budget rest
  let found := localEntities entities offset (utf16Len chunk)
  if isTelegram platform && found.length > 100 && budget > 8 then
    planPart rest (max (budget / 2) 8)
  else if isBlank (rendered platform plain chunk found) && budget > available limit then
    planPart rest (available limit)
  else
    let planned := message platform plain offset chunk found
    if limit.measure planned.text ≤ limit.budget then planned
    else if max (budget / 2) 1 = budget then
      -- the styling of one scalar is too large; its link is kept
      let links := planned.entities.filter (·.kind = .textLink)
      ⟨offset, chunk, renderMarkdown chunk links platform, links⟩
    else planPart rest (max (budget / 2) 1)
termination_by if budget = 0 then 2 else budget
decreasing_by
  · rename_i h
    simp only [Bool.and_eq_true, decide_eq_true_eq] at h
    split <;> split <;> omega
  · rename_i h
    simp only [Bool.and_eq_true, decide_eq_true_eq] at h
    have hpositive := available_pos platform
    simp only [limit] at h ⊢
    split <;> split <;> omega
  · split <;> split <;> omega

/-- The loop over the parts, with the number it may still make; what is left of the body. -/
def planFrom (offset : ℕ) (rest : List Char) : ℕ → List Planned × List Char
  | 0 => ([], rest)
  | left + 1 =>
    if rest.isEmpty then ([], rest)
    else
      let planned := planPart platform plain entities offset rest
        (TextLimit.forPlatform platform).budget
      let later := planFrom (offset + utf16Len planned.chunk) (rest.drop planned.chunk.length) left
      (planned :: later.1, later.2)

end

inductive Metadata
  | entities (found : List Entity)
  | mrkdwnOff
deriving DecidableEq

/-- A reply of its own, without attachments. -/
structure OutboundReply where
  text : List Char
  metadata : Option Metadata
deriving DecidableEq

def Planned.reply (platform : String) (plain : Bool) (planned : Planned) : OutboundReply where
  text := planned.text
  metadata :=
    if isTelegram platform then some (.entities planned.entities)
    else if platform = "slack" && plain then some .mrkdwnOff
    else none

def notice (overflowUrl : String) : List Char :=
  ("The reply exceeds the 64-message delivery limit. The remaining text is in NyxID: " ++
    overflowUrl).toList

/-- The chunk of the notice that is sent. -/
def noticeReply (platform overflowUrl : String) : OutboundReply where
  text := ((TextLimit.forPlatform platform).chunks (notice overflowUrl)).head?.getD []
  metadata := if isTelegram platform then some (.entities []) else none

/-- The planning loop of `assistant_parts`, from a body with its entities. -/
def planned (platform : String) (plain : Bool) (body : List Char) (entities : List Entity) :
    List Planned × List Char :=
  planFrom platform plain entities 0 body (maxReplyParts + 1)

def assistantParts (platform : String) (plain : Bool) (body : List Char) (entities : List Entity)
    (overflowUrl : String) : List OutboundReply :=
  let plan := planned platform plain body entities
  let parts := plan.1.map (Planned.reply platform plain)
  if parts.length > maxReplyParts || !plan.2.isEmpty then
    parts.take (maxReplyParts - 1) ++ [noticeReply platform overflowUrl]
  else parts

end NyxId.Channel
