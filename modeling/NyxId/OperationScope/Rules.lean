import NyxId.UsageMeter
import NyxId.Encoding.Text

/-!
Operation rules of the proxy: path templates with variables, value grammars and
custom-method suffixes, how they match a canonical path and in what form a matched call
is forwarded. The classes of characters beyond ASCII are a parameter.
-/

namespace NyxId.OperationScope

open Encoding

/-- The Unicode classes that the value grammars use. -/
structure CharClass where
  isAlphabetic : Char → Bool
  isAlphanumeric : Char → Bool
  isWhitespace : Char → Bool
  isControl : Char → Bool

/-- The classes restricted to ASCII. -/
def asciiClass : CharClass :=
  ⟨Char.isAlpha, Char.isAlphanum, Char.isWhitespace, fun c => c.toNat < 32 ∨ c.toNat = 127⟩

inductive ProxyPathConstraint where
  | sheetsA1Range
  | multiSegment
  deriving DecidableEq

structure ProxyOperationRule where
  method : String
  pathTemplate : String
  targetId : Option String
  pathParameterConstraints : List (String × ProxyPathConstraint)
  deriving DecidableEq

def splitAt (separator : Char) (text : String) : List String :=
  (text.toList.splitOn separator).map String.ofList

/-- Segments with a slash between them. -/
def joinSlash (segments : List String) : String :=
  String.ofList (List.intercalate ['/'] (segments.map String.toList))

theorem notMem_splitAt (separator : Char) (text : String) :
    ∀ piece ∈ splitAt separator text, separator ∉ piece.toList := by
  intro piece hpiece
  obtain ⟨chars, hchars, rfl⟩ := List.mem_map.mp hpiece
  rw [String.toList_ofList]
  exact notMem_of_mem_splitOn hchars

/-- A normalized downstream path; a slash only stands between segments. -/
structure CanonicalPath where
  segments : List String
  clean : ∀ segment ∈ segments, '/' ∉ segment.toList
  deriving DecidableEq

def containsAny (text : String) (chars : List Char) : Bool := text.toList.any (· ∈ chars)

def stripPrefix (start : String) (text : String) : Option String :=
  if start.toList.isPrefixOf text.toList then
    some (String.ofList (text.toList.drop start.toList.length))
  else none

def stripSuffix (ending : String) (text : String) : Option String :=
  if ending.toList.isSuffixOf text.toList then
    some (String.ofList (text.toList.take (text.toList.length - ending.toList.length)))
  else none

/-- Before and after the first separator. -/
def splitOnce (separator : Char) (text : String) : Option (String × String) :=
  if text.toList.contains separator then
    some (String.ofList (text.toList.takeWhile (· ≠ separator)),
      String.ofList ((text.toList.dropWhile (· ≠ separator)).drop 1))
  else none

/-- Before and after the last separator. -/
def rsplitOnce (separator : Char) (text : String) : Option (String × String) :=
  if text.toList.contains separator then
    some (String.ofList ((text.toList.reverse.dropWhile (· ≠ separator)).drop 1).reverse,
      String.ofList (text.toList.reverse.takeWhile (· ≠ separator)).reverse)
  else none

def rejectCommonAmbiguity (path : String) (rejectPercent : Bool) : Except AppError Unit :=
  if containsAny path ['?', '#', '\\'] ∨ (rejectPercent ∧ containsAny path ['%']) ∨
      path.toList.any (fun c => c.toNat < 32 ∨ c.toNat = 127) ∨
      path.toList.tails.any (['/', '/'].isPrefixOf ·) ∨
      (1 < path.utf8ByteSize ∧ path.toList.getLast? = some '/') then
    .error (.badRequest "Invalid proxy path")
  else if (splitAt '/' ((stripPrefix "/" path).getD path)).any fun segment =>
      segment = "." ∨ segment = ".." then
    .error (.badRequest "Invalid proxy path")
  else .ok ()

def CanonicalPath.fromDecoded (path : String) : Except AppError CanonicalPath := do
  rejectCommonAmbiguity path true
  let trimmed := (stripPrefix "/" path).getD path
  if trimmed.isEmpty then
    return ⟨[], fun _ h => (nomatch h)⟩
  else
    return ⟨splitAt '/' trimmed, notMem_splitAt '/' trimmed⟩

/-- A path as a caller supplies it. -/
def CanonicalPath.fromMcpLiteral (path : String) : Except AppError CanonicalPath :=
  CanonicalPath.fromDecoded path

def invalidTemplate : AppError := .validationError "Invalid proxy operation path template"

/-- The resource part of a template segment and its custom-method verb. -/
def splitTemplateSegment (segment : String) : String × Option String :=
  match splitOnce ':' segment with
  | some (resource, verb) => (resource, some verb)
  | none => (segment, none)

/-- The resource part of an actual segment before a custom-method verb. -/
def stripCustomMethod (actual verb : String) : Option String :=
  ((stripSuffix verb actual).bind (stripSuffix ":")).filter fun resource => !resource.isEmpty

def isAsciiAlphanumeric (c : Char) : Bool := c.isAlphanum

/-- A variable's braces, or a literal without template punctuation. -/
def validResource (resource : String) : Bool :=
  if resource.toList.head? = some '{' ∨ resource.toList.getLast? = some '}' then
    resource.toList.head? = some '{' && resource.toList.getLast? = some '}' &&
      decide (2 < resource.toList.length) &&
      (resource.toList.drop 1).dropLast.all fun c => isAsciiAlphanumeric c || c = '_'
  else !containsAny resource ['*', '[', ']', '(', ')', '|', '{', '}']

def validateTemplateSegment (segment : String) : Except AppError Unit :=
  let (resource, verb) := splitTemplateSegment segment
  if verb.any (fun verb => verb.isEmpty || !verb.toList.all isAsciiAlphanumeric) then
    .error invalidTemplate
  else if verb.isSome ∧ resource.isEmpty then .error invalidTemplate
  else if validResource resource then .ok () else .error invalidTemplate

def validateTemplate (template : String) : Except AppError Unit :=
  if 2048 < template.utf8ByteSize then
    .error (.validationError "proxy operation path template exceeds 2048 bytes")
  else if containsAny template [' '] ∨ template.toList.head? ≠ some '/' then
    .error (.validationError "proxy operation paths must be root-anchored")
  else
    match rejectCommonAmbiguity template true with
    | .error _ => .error (.validationError "Invalid proxy operation path template")
    | .ok () =>
      if template = "/" then .ok ()
      else (splitAt '/' (String.ofList (template.toList.dropWhile (· = '/')))).forM
        validateTemplateSegment

/-- The name between the braces of a variable. -/
def parameterName (resource : String) : Option String :=
  (stripPrefix "\x7b" resource).bind (stripSuffix "\x7d")

def validateRule (rule : ProxyOperationRule) : Except AppError Unit := do
  validateTemplate rule.pathTemplate
  if rule.pathParameterConstraints.all fun constraint =>
      (splitAt '/' rule.pathTemplate).any fun segment =>
        parameterName (splitTemplateSegment segment).1 = some constraint.1 then
    .ok ()
  else .error invalidTemplate

section

variable (U : CharClass)

/-- A1 coordinates, named ranges and sheet names. -/
def a1Identifier (value : String) : Bool :=
  match value.toList with
  | [] => false
  | c :: rest => (U.isAlphabetic c || c = '_') &&
      rest.all fun c => U.isAlphanumeric c || c = '_' || c = '.'

/-- Pairs of apostrophes are dropped, from the left. -/
def dropDoubled : List Char → List Char
  | '\'' :: '\'' :: rest => dropDoubled rest
  | c :: rest => c :: dropDoubled rest
  | [] => []

def a1Sheet (value : String) : Bool :=
  match (stripPrefix "'" value).bind (stripSuffix "'") with
  | some quoted => !quoted.isEmpty &&
      !containsAny quoted [':', '/', '\\', '?', '*', '[', ']'] &&
      !(dropDoubled quoted.toList).contains '\''
  | none => a1Identifier U value

def a1Coordinate (value : String) : Bool :=
  let value := (stripPrefix "$" value).getD value
  let letters := (value.toList.takeWhile Char.isAlpha).length
  -- Sheets has at most 18,278 columns (ZZZ).
  if letters > 3 then false
  else
    let rest := String.ofList (value.toList.drop letters)
    let row := (stripPrefix "$" rest).getD rest
    if row.isEmpty then decide (0 < letters) && rest.isEmpty
    else row.toList.all Char.isDigit && row.toList.head? ≠ some '0'

def sheetsA1Range (value : String) : Bool :=
  if value.toList.head? = some '\'' ∧ value.toList.getLast? = some '\'' then a1Sheet U value
  else
    match rsplitOnce '!' value with
    | some (title, range) => a1Sheet U title && a1Range range
    | none => a1Range value
where
  a1Range (range : String) : Bool :=
    match splitOnce ':' range with
    | some (start, stop) => a1Coordinate start && a1Coordinate stop
    | none => a1Coordinate range || a1Identifier U range

def parameterMatches (constraint : Option ProxyPathConstraint) (value : String) : Bool :=
  if value = "" ∨ value = "." ∨ value = ".." ∨
      containsAny value ['%', '/', '\\', '?', '#'] ∨ value.toList.any U.isControl then
    false
  else
    match constraint with
    | some .sheetsA1Range => sheetsA1Range U value
    | some .multiSegment => true
    | none => !containsAny value [':'] && !value.toList.any U.isWhitespace

/-- A captured segment that spans several must not be ambiguous. -/
def ambiguousSegment (value : String) : Bool :=
  value = "" || value = "." || value = ".." || containsAny value ['%', '\\', '?', '#'] ||
    value.toList.any U.isControl

def templateSegments (rule : ProxyOperationRule) : List String :=
  (splitAt '/' (String.ofList (rule.pathTemplate.toList.dropWhile (· = '/')))).filter fun segment =>
    !segment.isEmpty

def ProxyOperationRule.constraint (rule : ProxyOperationRule) (name : String) :
    Option ProxyPathConstraint :=
  rule.pathParameterConstraints.lookup name

def ProxyOperationRule.isMultiSegment (rule : ProxyOperationRule) (name : String) : Bool :=
  rule.constraint name = some .multiSegment

/-- The segments that a variable captures, and those after it. -/
def capture (multiSegment : Bool) (remaining : ℕ) (actual : List String) :
    Option (String × List String) :=
  if multiSegment then
    if actual.length < remaining then none
    else
      let take := actual.length - remaining
      if take = 0 then some ("", actual)
      else if (actual.take take).any (ambiguousSegment U) then none
      else some (joinSlash (actual.take take), actual.drop take)
  else
    match actual with
    | [] => none
    | segment :: rest => some (segment, rest)

/-- A variable used again has to capture the same value. -/
def bindArgument (arguments : List (String × String)) (name value : String) :
    Option (List (String × String)) :=
  match arguments.lookup name with
  | some previous => if previous ≠ value then none else some arguments
  | none => some ((name, value) :: arguments)

def captureValue (rule : ProxyOperationRule) (name : String) (verb : Option String)
    (captured : String) : Option String := do
  let value ← match verb with
    | some verb => stripCustomMethod captured verb
    | none => some captured
  if !rule.isMultiSegment name && !parameterMatches U (rule.constraint name) value then none
  else some value

def matchSegments (rule : ProxyOperationRule) :
    List String → List String → List (String × String) → Option (List (String × String))
  | [], [], arguments => some arguments
  | [], _ :: _, _ => none
  | template :: templates, actual, arguments =>
    match parameterName (splitTemplateSegment template).1 with
    | none =>
      match actual with
      | [] => none
      | segment :: rest =>
        if segment ≠ template then none else matchSegments rule templates rest arguments
    | some name => do
      let (captured, rest) ← capture U (rule.isMultiSegment name) templates.length actual
      let value ← captureValue U rule name (splitTemplateSegment template).2 captured
      let arguments ← bindArgument arguments name value
      matchSegments rule templates rest arguments

/-- Captures after the template and its value grammars have matched. -/
def matchPathArguments (rule : ProxyOperationRule) (path : CanonicalPath) :
    Option (List (String × String)) :=
  match validateRule rule with
  | .error _ => none
  | .ok () => matchSegments U rule (templateSegments rule) path.segments []

def ruleMatches (rule : ProxyOperationRule) (method : String) (path : CanonicalPath) : Bool :=
  rule.method = method && (matchPathArguments U rule path).isSome

/-- Percent-encoding of everything but unreserved characters. -/
def urlEncode (value : String) : String :=
  String.ofList ((utf8 value).flatMap fun byte =>
    let c := Char.ofNat byte.toNat
    if c.isAlphanum || c = '-' || c = '_' || c = '.' || c = '~' then [c]
    else ['%', hexUpper (byte.toNat / 16), hexUpper (byte.toNat % 16)])
where
  hexUpper (n : ℕ) : Char := if n < 10 then Char.ofNat (48 + n) else Char.ofNat (55 + n)

/-- One template segment in its forwarded form. -/
def forwardSegment (rule : ProxyOperationRule) (arguments : List (String × String))
    (template : String) : String :=
  let (resource, verb) := splitTemplateSegment template
  let name := parameterName resource
  let value := (name.bind fun name => arguments.lookup name).getD resource
  let encoded := if name.any rule.isMultiSegment then
      joinSlash ((splitAt '/' value).map urlEncode)
    else urlEncode value
  match verb with
  | some verb => encoded ++ ":" ++ verb
  | none => encoded

/-- Only the suffix that the matched rule declares stays a custom method. -/
def ruleForwardingPath (rule : ProxyOperationRule) (method : String) (path : CanonicalPath) :
    Option String :=
  if !ruleMatches U rule method path then none
  else do
    let arguments ← matchPathArguments U rule path
    return joinSlash ((templateSegments rule).map (forwardSegment rule arguments))

end

end NyxId.OperationScope
