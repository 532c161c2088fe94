import NyxId.Encoding.Json
import NyxId.Interleave.SortedMap
import NyxId.Interleave.Tasks
import Mathlib.Data.String.Basic

/-!
The permission engine. It plans a request, checks the policy and the hooks, verifies the
resources, and only then lets the transport send; after that, failures of a write are told
apart by what is known of its outcome.
-/

namespace NyxId.Permissions

open Interleave Encoding

def maxBodyBytes : ℕ := 64 * 1024

def maxResponseBytes : ℕ := 8 * 1024 * 1024

inductive HookStage
  | beforeExecute
  | afterResponse
deriving DecidableEq

inductive Error
  | approvalPending (requestId : String)
  | policy (message : String)
  | denied (message : String)
  | verification
  | upstream
  | timeout
  | responseTooLarge
  | outcomeUncertain
  | busy
  | hookDenied (hook : String) (stage : HookStage)
  | hookUnavailable (hook : String) (stage : HookStage)
  | writeAcceptedResponseWithheld
deriving DecidableEq

inductive ParameterLocation
  | query
  | body
deriving DecidableEq

inductive ValueRule
  | exact (value : Json)
  | oneOf (values : List Json)
  | maxInteger (value : ℕ)
  | maxLength (value : ℕ)

structure ParameterConstraint where
  location : ParameterLocation
  name : String
  required : Bool
  rule : ValueRule

inductive ResourceBoundary
  | googleDriveFolder (rootFolderId : String) (includeDescendants : Bool)
  | googleApi

structure HookDefinition where
  name : String
  stage : HookStage
  operations : List String

structure Policy where
  provider : String
  resource : ResourceBoundary
  allowedOperations : List String
  constraints : SortedMap String (List ParameterConstraint)

structure Request where
  method : String
  path : String
  query : SortedMap String String
  body : List UInt8
  contentType : Option String

structure Response where
  status : ℕ
  contentType : String
  body : List UInt8

structure ResourceCheck where
  id : String
  mustBeFolder : Bool
  allowRoot : Bool

structure Plan where
  operation : String
  origin : Option String
  request : Request
  resources : List ResourceCheck

/-- A reader of JSON that keeps all members of an object. It gives equal values one spelling: a
zero has no sign, and members stand in the order of their names. No value has an empty text. -/
structure JsonReader where
  parse : List UInt8 → Option Json
  parse_nil : parse [] = none

mutual

/-- No object has two members of one name. -/
def uniqueKeys : Json → Bool
  | .array items => uniqueItems items
  | .object members => uniqueMembers [] members
  | _ => true

def uniqueItems : List Json → Bool
  | [] => true
  | item :: rest => uniqueKeys item && uniqueItems rest

def uniqueMembers : List String → List (String × Json) → Bool
  | _, [] => true
  | seen, (key, value) :: rest =>
    !seen.contains key && uniqueKeys value && uniqueMembers (key :: seen) rest

end

def parseJson (read : JsonReader) (bytes : List UInt8) : Except Error Json :=
  match read.parse bytes with
  | some value =>
    if uniqueKeys value then .ok value else .error (.denied "invalid or ambiguous JSON")
  | none => .error (.denied "invalid or ambiguous JSON")

/-- The value of a text of digits, when it fits 64 bits. -/
def parseU64 (text : List Char) : Option ℕ :=
  if text.isEmpty || !text.all Char.isDigit then none
  else
    let value := text.foldl (fun n c => n * 10 + (c.toNat - '0'.toNat)) 0
    if value < 2 ^ 64 then some value else none

def Json.asU64 : Json → Option ℕ
  | .number n => parseU64 n.text
  | _ => none

def Json.asStr : Json → Option String
  | .string s => some s
  | _ => none

/-- Equal values, as they are read, have one text. -/
def Json.same (v w : Json) : Bool := writeJson v = writeJson w

def matchesValue (rule : ValueRule) (value : Json) : Bool :=
  match rule with
  | .exact expected => Json.same value expected
  | .oneOf values => values.any (Json.same value)
  | .maxInteger maximum =>
    ((Json.asU64 value).or ((Json.asStr value).bind fun s =>
      parseU64 (if s.toList.head? = some '+' then s.toList.tail else s.toList))).any (· ≤ maximum)
  | .maxLength maximum => (Json.asStr value).any (·.length ≤ maximum)

def unescapePointer : List Char → List Char
  | '~' :: '1' :: rest => '/' :: unescapePointer rest
  | '~' :: '0' :: rest => '~' :: unescapePointer rest
  | c :: rest => c :: unescapePointer rest
  | [] => []

/-- An index of an array: no sign and no leading zero. -/
def parseIndex (token : List Char) : Option ℕ :=
  if token.head? = some '+' || (token.head? = some '0' && token.length ≠ 1) then none
  else parseU64 token

def Json.step (value : Json) (token : List Char) : Option Json :=
  match value with
  | .object members => members.lookup (String.ofList token)
  | .array items => (parseIndex token).bind fun i => items[i]?
  | _ => none

def Json.pointer (value : Json) (path : String) : Option Json :=
  match path.toList with
  | [] => some value
  | '/' :: rest => ((rest.splitOn '/').map unescapePointer).foldlM Json.step value
  | _ => none

def parameter (request : Request) (body : Json) (constraint : ParameterConstraint) : Option Json :=
  match constraint.location with
  | .query => (request.query.get constraint.name).map .string
  | .body => Json.pointer body constraint.name

def enforceConstraint (request : Request) (body : Json) (constraint : ParameterConstraint) :
    Except Error Unit :=
  match parameter request body constraint with
  | none =>
    if constraint.required then .error (.denied "required parameter is missing") else .ok ()
  | some value =>
    if matchesValue constraint.rule value then .ok ()
    else .error (.denied "parameter violates its constraint")

def enforceEach (request : Request) (body : Json) : List ParameterConstraint → Except Error Unit
  | [] => .ok ()
  | constraint :: rest =>
    match enforceConstraint request body constraint with
    | .error e => .error e
    | .ok () => enforceEach request body rest

def bodyValue (read : JsonReader) (request : Request) : Except Error Json :=
  if request.body.isEmpty then .ok .null else parseJson read request.body

def enforceConstraints (read : JsonReader) (constraints : List ParameterConstraint)
    (request : Request) : Except Error Unit :=
  match bodyValue read request with
  | .error e => .error e
  | .ok body => enforceEach request body constraints

inductive HookDecision
  | allow
  | deny
deriving DecidableEq

/-- How a check ends. -/
inductive HookEnd
  | decision (d : HookDecision)
  | failure
  | panic
deriving DecidableEq

/-- A transport may set its mark while it sends, and also later while others wait. -/
abbrev Work (α : Type) := Task Unit α

/-- A handler with its definition; its own timer lets it suspend a number of times. -/
structure BoundHook where
  definition : HookDefinition
  check : Policy → Plan → Option Response → Work HookEnd
  patience : ℕ

def BoundHook.applies (hook : BoundHook) (stage : HookStage) (plan : Plan) : Bool :=
  hook.definition.stage = stage &&
    (hook.definition.operations.isEmpty || hook.definition.operations.contains plan.operation)

/-- `hooks::run`. -/
def runHooks (stage : HookStage) (policy : Policy) (plan : Plan) (response : Option Response) :
    List BoundHook → Work (Except Error Unit)
  | [] => .done (.ok ())
  | hook :: rest =>
    if hook.applies stage plan then
      ((hook.check policy plan response).within hook.patience).bind fun
        | some (.decision .allow) => runHooks stage policy plan response rest
        | some (.decision .deny) => .done (.error (.hookDenied hook.definition.name stage))
        | _ => .done (.error (.hookUnavailable hook.definition.name stage))
    else runHooks stage policy plan response rest

structure Transport where
  send : Request → Work (Except Error Response)
  sendVerified : Plan → Work (Except Error Response)

structure ProviderAdapter where
  plan : Policy → Request → Except Error Plan
  verify : Policy → Plan → Transport → Work (Except Error Unit)
  sanitizeResponse : Plan → Response → Except Error Response

structure Engine where
  policy : Policy
  adapter : ProviderAdapter
  transport : Transport
  hooks : List BoundHook
  read : JsonReader

/-- The constraints of the operation of a plan. -/
def Engine.constrain (engine : Engine) (plan : Plan) : Except Error Unit :=
  match engine.policy.constraints.get plan.operation with
  | some constraints => enforceConstraints engine.read constraints plan.request
  | none => .ok ()

/-- The part of `authorize` before its first await. -/
def Engine.check (engine : Engine) (request : Request) : Except Error Plan :=
  if maxBodyBytes < request.body.length then
    .error (.denied "request body exceeds the policy byte limit")
  else if 8192 < (request.query.entries.map fun e => e.1.utf8ByteSize + e.2.utf8ByteSize).sum then
    .error (.denied "query is too long")
  else match engine.adapter.plan engine.policy request with
    | .error e => .error e
    | .ok plan =>
      if !engine.policy.allowedOperations.contains plan.operation then
        .error (.denied "operation is not allowed")
      else match engine.constrain plan with
        | .error e => .error e
        | .ok () => .ok plan

def Engine.authorize (engine : Engine) (request : Request) : Work (Except Error Plan) :=
  match engine.check request with
  | .error e => .done (.error e)
  | .ok plan =>
    (runHooks .beforeExecute engine.policy plan none engine.hooks).bind fun
      | .error e => .done (.error e)
      | .ok () =>
        (engine.adapter.verify engine.policy plan engine.transport).bind fun
          | .error e => .done (.error e)
          | .ok () => .done (.ok plan)

inductive Flag
  | dispatched
  | writeAccepted
deriving DecidableEq

def mutating (request : Request) : Bool := request.method ≠ "GET" && request.method ≠ "HEAD"

/-- The pipeline up to the answer of the transport. -/
def Engine.sent (engine : Engine) (permit : Bool) (request : Request) :
    Work (Except Error (Plan × Response)) :=
  if !permit then .done (.error .busy)
  else (engine.authorize request).bind fun
    | .error e => .done (.error e)
    | .ok plan => (engine.transport.sendVerified plan).bind fun
      | .error e => .done (.error e)
      | .ok response => .done (.ok (plan, response))

def Engine.deliver (engine : Engine) (plan : Plan) (response : Response) :
    Work (Except Error Response) :=
  match engine.adapter.sanitizeResponse plan response with
  | .error e => .done (.error e)
  | .ok response =>
    (runHooks .afterResponse engine.policy plan (some response) engine.hooks).bind fun
      | .error e => .done (.error e)
      | .ok () => .done (.ok response)

def accepted (response : Response) : Bool :=
  response.body.length ≤ maxResponseBytes && 200 ≤ response.status && response.status < 300

/-- The pipeline under the timer, with the flags it sets. -/
def Engine.pipeline (engine : Engine) (permit : Bool) (request : Request) :
    Task Flag (Except Error Response) :=
  ((engine.sent permit request).lift fun _ => Flag.dispatched).bind fun
    | .error e => .done (.error e)
    | .ok (plan, response) =>
      if maxResponseBytes < response.body.length then .done (.error .responseTooLarge)
      else if !(200 ≤ response.status && response.status < 300) then .done (.error .upstream)
      else
        let rest := (engine.deliver plan response).lift fun _ => Flag.dispatched
        if mutating request then .note .writeAccepted rest else rest

/-- What the caller is told, by the flags and by the result of the pipeline. -/
def report (request : Request) (flags : List Flag) (result : Except Error Response) :
    Except Error Response :=
  match result with
  | .ok response => .ok response
  | .error e =>
    if flags.contains .writeAccepted then .error .writeAcceptedResponseWithheld
    else if flags.contains .dispatched && mutating request then .error .outcomeUncertain
    else .error e

/-- `Engine::execute`, when the timer lets it suspend a number of times. -/
def Engine.execute (engine : Engine) (permit : Bool) (patience : ℕ) (request : Request) :
    Except Error Response :=
  match (engine.pipeline permit request).cut patience with
  | (flags, some (result, _)) => report request flags result
  | (flags, none) => report request flags (.error .timeout)

end NyxId.Permissions
