import NyxId.Encoding.Json

/-!
The texts that the signatures of requests to a node are computed over. Most kinds join
their fields by newlines; the second version of HTTP requests is a tagged JSON array.
-/

namespace NyxId.NodeSigning

open Encoding

/-- `request.get(key)`. -/
def member (request : Json) (key : String) : Option Json :=
  match request with
  | .object members => members.lookup key
  | _ => none

def asStr : Json → Option String
  | .string text => some text
  | _ => none

def asU64 : Json → Option ℕ
  | .number n =>
    if n.text.all Char.isDigit then
      let value := Nat.ofDigitChars 10 n.text 0
      if value < 2 ^ 64 then some value else none
    else none
  | _ => none

/-- `request[key].as_str().unwrap_or("")`. -/
def str (request : Json) (key : String) : String := ((member request key).bind asStr).getD ""

/-- The text of a port number, empty where there is none. -/
def portText (request : Json) : String :=
  match (member request "port").bind asU64 with
  | some port => if port < 2 ^ 16 then String.ofList (Nat.toDigits 10 port) else ""
  | none => ""

/-- A line of a message: a field as it is, or its digest. -/
inductive Part where
  | clear (text : String)
  | digest (text : String)
  deriving DecidableEq

def Part.text : Part → String
  | .clear text => text
  | .digest text => text

def Part.isDigest : Part → Bool
  | .clear _ => false
  | .digest _ => true

section

variable (sha256 : List UInt8 → Vector UInt8 32)

def Part.line : Part → String
  | .clear text => text
  | .digest text => hexEncode (sha256 (utf8 text)).toList

def lines (parts : List Part) : List Char :=
  List.intercalate ['\n'] (parts.map fun part => (part.line sha256).toList)

end

/-- A request of the first version names no target. -/
def targetless (request : Json) : Bool :=
  match member request "target_id" with
  | none => true
  | some .null => true
  | some _ => false

def legacyRequestParts (request : Json) : List Part :=
  [.clear (str request "timestamp"), .clear (str request "nonce"), .clear (str request "method"),
    .clear (str request "path"), .clear (str request "query"), .clear (str request "body")]

def requiredFields : List String :=
  ["service_id", "service_slug", "target_id", "base_url", "method", "path", "timestamp", "nonce"]

def requestV2Fields (request : Json) : List String :=
  [str request "timestamp", str request "nonce", str request "service_id",
    str request "service_slug", str request "target_id", str request "base_url",
    str request "method", str request "path", str request "query", str request "body"]

def requestV2Json (request : Json) : Json :=
  .array (.string "nyxid-node-http.v2" :: (requestV2Fields request).map .string)

def sshTunnelParts (request : Json) : List Part :=
  [.clear (str request "timestamp"), .clear (str request "nonce"),
    .clear (str request "session_id"), .clear (str request "service_id"),
    .clear (str request "host"), .clear (portText request)]

def sshExecParts (request : Json) : List Part :=
  [.clear (str request "timestamp"), .clear (str request "nonce"),
    .clear (str request "request_id"), .clear (str request "host"), .clear (portText request),
    .clear (str request "principal"), .clear (str request "auth_mode"),
    .digest (str request "command"), .digest (str request "certificate_openssh")]

def sshNodeExecParts (request : Json) : List Part :=
  [.clear (str request "timestamp"), .clear (str request "nonce"),
    .clear (str request "request_id"), .clear (str request "service_slug"),
    .clear (str request "principal"), .clear (str request "auth_mode"),
    .digest (str request "command")]

/-- A terminal without a certificate signs the empty text in its place. -/
def authMaterial (request : Json) : String :=
  if str request "auth_mode" = "cert" then str request "certificate_openssh" else ""

def webTerminalParts (request : Json) : List Part :=
  [.clear (str request "timestamp"), .clear (str request "nonce"),
    .clear (str request "session_id"), .clear (str request "host"), .clear (portText request),
    .clear (str request "principal"), .clear (str request "auth_mode"),
    .clear (str request "service_slug"), .digest (authMaterial request)]

def wsProxyParts (request : Json) : List Part :=
  [.clear (str request "timestamp"), .clear (str request "nonce"),
    .clear (str request "session_id"), .clear (str request "service_slug"),
    .clear (str request "base_url"), .clear (str request "path"), .clear (str request "query")]

/-- The verifiers of a node; the one for HTTP requests has two versions. -/
inductive Verifier where
  | requestV1
  | requestV2
  | sshTunnel
  | sshExec
  | sshNodeExec
  | webTerminal
  | wsProxy
  deriving DecidableEq

def parts (request : Json) : Verifier → List Part
  | .requestV1 => legacyRequestParts request
  | .requestV2 => (requestV2Fields request).map .clear
  | .sshTunnel => sshTunnelParts request
  | .sshExec => sshExecParts request
  | .sshNodeExec => sshNodeExecParts request
  | .webTerminal => webTerminalParts request
  | .wsProxy => wsProxyParts request

/-- The fields that a verifier signs, a missing text taken for the empty one. -/
def signedFields (verifier : Verifier) (request : Json) : List String :=
  (parts request verifier).map Part.text

section

variable (sha256 : List UInt8 → Vector UInt8 32) (normalizedHttpsOrigin : String → Bool)

/-- The message that is fed to the HMAC, where the verifier gets that far. -/
def message (verifier : Verifier) (request : Json) : Option (List Char) :=
  match verifier with
  | .requestV1 =>
    if (member request "signature_version").isNone && targetless request then
      some (lines sha256 (parts request .requestV1))
    else none
  | .requestV2 =>
    if (member request "signature_version").bind asU64 = some 2 then
      if requiredFields.any fun field => str request field = "" then none
      else if !normalizedHttpsOrigin (str request "base_url") then none
      else some (writeJson (requestV2Json request))
    else none
  | verifier => some (lines sha256 (parts request verifier))

end

end NyxId.NodeSigning
