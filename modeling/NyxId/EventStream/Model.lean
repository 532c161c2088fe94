import NyxId.Encoding.Text
import NyxId.Encoding.Records
import NyxId.Permissions.Drive

/-!
Server-sent events. A parser takes the next event out of a text, and a decoder takes frames of
bounded size out of bytes that come one by one.
-/

namespace NyxId.EventStream

open Encoding
open NyxId.Permissions (Json.field Json.asStr)

abbrev Bytes := List UInt8

structure SseEvent where
  eventType : Option String
  data : String
  deriving DecidableEq

inductive EventDecodeError where
  | tooLarge
  | invalidUtf8
  deriving DecidableEq

/-! ### Events of a text -/

/-- The text before the first blank line and the text after it. -/
def findBlank : List Char → Option (List Char × List Char)
  | '\n' :: '\n' :: rest => some ([], rest)
  | c :: rest => (findBlank rest).map fun found => (c :: found.1, found.2)
  | [] => none

theorem findBlank_length {buffer text rest : List Char}
    (h : findBlank buffer = some (text, rest)) : rest.length < buffer.length := by
  fun_induction findBlank buffer generalizing text with
  | case1 after =>
    cases h
    simp only [List.length_cons]
    omega
  | case2 c after _ ih =>
    obtain ⟨found, hfound, heq⟩ := Option.map_eq_some_iff.mp h
    cases heq
    have hlt := ih hfound
    rw [List.length_cons]
    omega
  | case3 => cases h

def stripCr (line : List Char) : List Char :=
  if line.getLast? = some '\r' then line.dropLast else line

/-- `str::lines`: a line feed ends a line, with a carriage return before it. -/
def lines (text : List Char) : List (List Char) :=
  let pieces := text.splitOn '\n'
  pieces.dropLast.map stripCr ++ (pieces.getLast?.filter (· ≠ [])).toList

def stripPrefix (start line : List Char) : Option (List Char) :=
  if start.isPrefixOf line then some (line.drop start.length) else none

def trimStart (text : List Char) : List Char := text.dropWhile isWhitespace

section

-- the reader of JSON values
variable (fromStr : String → Option Json)

/-- The fields of an event that were read so far. -/
structure Fields where
  eventType : Option String
  dataParts : List (List Char)

def Fields.read (fields : Fields) (line : List Char) : Fields :=
  match stripPrefix "event:".toList line with
  | some rest => { fields with eventType := some (String.ofList (trimStart rest)) }
  | none =>
    match stripPrefix "data:".toList line with
    | some rest => { fields with dataParts := fields.dataParts ++ [trimStart rest] }
    | none => fields

/-- The event of some lines, if one of them has its type or its data. -/
def readEvent (eventLines : List (List Char)) : Option SseEvent :=
  let fields := eventLines.foldl Fields.read ⟨none, []⟩
  if fields.dataParts = [] ∧ fields.eventType = none then none
  else
    let data := String.ofList (List.intercalate ['\n'] fields.dataParts)
    let eventType := fields.eventType.or
      ((fromStr data).bind fun parsed => (Json.field parsed "type").bind Json.asStr)
    some ⟨eventType, data⟩

/-- The next event of a buffer and the buffer without what was taken. -/
def parseNextEvent (buffer : List Char) : Option SseEvent × List Char :=
  match _h : findBlank buffer with
  | none => (none, buffer)
  | some (text, rest) =>
    match readEvent fromStr (lines text) with
    | none => parseNextEvent rest
    | some event => (some event, rest)
termination_by buffer.length
decreasing_by exact findBlank_length _h

end

/-! ### The decoder -/

structure BoundedEventDecoder where
  buffer : Bytes := []
  previousCr : Bool := false
  lineHasContent : Bool := false
  discarding : Bool := false
  maxBytes : Option ℕ := none

def isAsciiWhitespace (byte : UInt8) : Bool :=
  byte = 9 || byte = 10 || byte = 12 || byte = 13 || byte = 32

namespace BoundedEventDecoder

def limit (decoder : BoundedEventDecoder) : ℕ := decoder.maxBytes.getD (512 * 1024)

def hasIncompleteEvent (decoder : BoundedEventDecoder) : Bool :=
  decoder.discarding || decoder.buffer.any fun byte => !isAsciiWhitespace byte

/-- A decoder whose buffer is full drops it and the rest of the frame. -/
def checkSize (decoder : BoundedEventDecoder) :
    BoundedEventDecoder × Option (Except EventDecodeError SseEvent) :=
  if decoder.limit ≤ decoder.buffer.length then
    ({ decoder with buffer := [], discarding := true }, some (.error .tooLarge))
  else (decoder, none)

def pushByte (fromStr : String → Option Json) (decoder : BoundedEventDecoder) (byte : UInt8) :
    BoundedEventDecoder × Option (Except EventDecodeError SseEvent) :=
  if decoder.previousCr ∧ byte = 10 then ({ decoder with previousCr := false }, none)
  else
    let decoder := { decoder with previousCr := byte = 13 }
    if byte = 13 ∨ byte = 10 then
      let boundary := !decoder.lineHasContent
      let decoder := { decoder with lineHasContent := false }
      if boundary then
        if decoder.discarding then ({ decoder with discarding := false }, none)
        else
          ({ decoder with buffer := [] }, match fromUtf8 (decoder.buffer ++ [10]) with
            | some frame => (parseNextEvent fromStr frame).1.map .ok
            | none => some (.error .invalidUtf8))
      else if decoder.discarding then decoder.checkSize
      else { decoder with buffer := decoder.buffer ++ [10] }.checkSize
    else
      let decoder := { decoder with lineHasContent := true }
      if decoder.discarding then decoder.checkSize
      else { decoder with buffer := decoder.buffer ++ [byte] }.checkSize

/-- The decoder after some bytes, and what it gave for them. -/
def pushBytes (fromStr : String → Option Json) (decoder : BoundedEventDecoder) :
    Bytes → BoundedEventDecoder × List (Except EventDecodeError SseEvent)
  | [] => (decoder, [])
  | byte :: rest =>
    let pushed := decoder.pushByte fromStr byte
    let after := pushBytes fromStr pushed.1 rest
    (after.1, pushed.2.toList ++ after.2)

end BoundedEventDecoder

end NyxId.EventStream
