import NyxId.Encoding.Text
import NyxId.Permissions.Drive
import NyxId.UsageMeter
import Mathlib.Data.List.DropRight

/-!
Validation of URLs that users supply. A base URL and an advisory URL may point to private
hosts but to no metadata endpoint of a cloud; a public URL must resolve to public addresses.
What the URL parser and the resolver answer is given.
-/

namespace NyxId.UrlValidation

open Encoding (isWhitespace trim)

/-! ### Addresses and their texts -/

structure Ipv4Addr where
  a : UInt8
  b : UInt8
  c : UInt8
  d : UInt8
  deriving DecidableEq

structure Ipv6Addr where
  octets : List UInt8
  length_octets : octets.length = 16
  deriving DecidableEq

inductive IpAddr
  | v4 (ip : Ipv4Addr)
  | v6 (ip : Ipv6Addr)
  deriving DecidableEq

namespace Ipv4Addr

def octets (ip : Ipv4Addr) : List UInt8 := [ip.a, ip.b, ip.c, ip.d]

def text (ip : Ipv4Addr) : List Char :=
  List.intercalate ['.'] (ip.octets.map fun octet => Nat.toDigits 10 octet.toNat)

def isLoopback (ip : Ipv4Addr) : Bool := ip.a = 127

def isPrivate (ip : Ipv4Addr) : Bool :=
  ip.a = 10 || (ip.a = 172 && 16 ≤ ip.b && ip.b ≤ 31) || (ip.a = 192 && ip.b = 168)

def isLinkLocal (ip : Ipv4Addr) : Bool := ip.a = 169 && ip.b = 254

def isUnspecified (ip : Ipv4Addr) : Bool := ip = ⟨0, 0, 0, 0⟩

def isBroadcast (ip : Ipv4Addr) : Bool := ip = ⟨255, 255, 255, 255⟩

end Ipv4Addr

namespace Ipv6Addr

def pairs : List UInt8 → List ℕ
  | high :: low :: rest => (high.toNat * 256 + low.toNat) :: pairs rest
  | _ => []

def segments (ip : Ipv6Addr) : List ℕ := pairs ip.octets

/-- The first of the longest runs of zeros, and its length. -/
def longestZeroSequence (segments : List ℕ) : ℕ × ℕ :=
  (List.range 8).foldl (fun longest start =>
    let length := ((segments.drop start).takeWhile (· = 0)).length
    if length > longest.2 then (start, length) else longest) (0, 0)

def hexGroups (segments : List ℕ) : List Char :=
  List.intercalate [':'] (segments.map (Nat.toDigits 16))

/-- The text of an address in a URL, where two zeros or more are left out once. -/
def text (ip : Ipv6Addr) : List Char :=
  let (start, length) := longestZeroSequence ip.segments
  if length < 2 then hexGroups ip.segments
  else hexGroups (ip.segments.take start) ++ ':' :: ':' ::
    hexGroups (ip.segments.drop (start + length))

def isLoopback (ip : Ipv6Addr) : Bool := ip.octets = List.replicate 15 0 ++ [1]

def isUnspecified (ip : Ipv6Addr) : Bool := ip.octets = List.replicate 16 0

def toIpv4Mapped (ip : Ipv6Addr) : Option Ipv4Addr :=
  if ip.octets.take 12 = List.replicate 10 0 ++ [255, 255] then
    match ip.octets.drop 12 with
    | [a, b, c, d] => some ⟨a, b, c, d⟩
    | _ => none
  else none

end Ipv6Addr

/-! ### Reading of an address, as the standard library does -/

def readNumber (radix maxDigits : ℕ) (text : List Char) : Option ℕ :=
  if text.isEmpty || text.length > maxDigits then none
  else text.foldlM (fun value c =>
    let digit :=
      if '0' ≤ c ∧ c ≤ '9' then c.toNat - 48
      else if 'a' ≤ c ∧ c ≤ 'f' then c.toNat - 87
      else if 'A' ≤ c ∧ c ≤ 'F' then c.toNat - 55
      else radix
    if digit < radix then some (value * radix + digit) else none) 0

def readOctet (text : List Char) : Option UInt8 :=
  if text.head? = some '0' && text.length > 1 then none
  else (readNumber 10 3 text).bind fun n => if n < 256 then some (UInt8.ofNat n) else none

def parseIpv4 (text : List Char) : Option Ipv4Addr :=
  match (text.splitOn '.').map readOctet with
  | [some a, some b, some c, some d] => some ⟨a, b, c, d⟩
  | _ => none

def groupOctets (text : List Char) : Option (List UInt8) :=
  (readNumber 16 4 text).map fun n => [UInt8.ofNat (n / 256), UInt8.ofNat (n % 256)]

/-- Groups between colons; the last may be an IPv4 address where that is allowed. -/
def readGroups (allowIpv4 : Bool) (text : List Char) : Option (List UInt8) :=
  if text.isEmpty then some []
  else
    let groups := text.splitOn ':'
    match allowIpv4, parseIpv4 (groups.getLastD []) with
    | true, some ip => do
      let front ← groups.dropLast.mapM groupOctets
      some (front.flatten ++ ip.octets)
    | _, _ => do
      let all ← groups.mapM groupOctets
      some all.flatten

/-- What stands before and after the first double colon. -/
def splitDouble : List Char → Option (List Char × List Char)
  | ':' :: ':' :: rest => some ([], rest)
  | c :: rest => (splitDouble rest).map fun (front, back) => (c :: front, back)
  | [] => none

/-- A double colon stands for one group of zeros or more. -/
def parseIpv6 (text : List Char) : Option Ipv6Addr := do
  let octets ← match splitDouble text with
    | none => readGroups true text
    | some (front, back) => do
      let front ← readGroups false front
      let back ← readGroups true back
      if front.length + back.length ≤ 14 then
        some (front ++ List.replicate (16 - (front.length + back.length)) 0 ++ back)
      else none
  if h : octets.length = 16 then some ⟨octets, h⟩ else none

def parseIp (text : List Char) : Option IpAddr :=
  match parseIpv4 text with
  | some ip => some (.v4 ip)
  | none => (parseIpv6 text).map .v6

/-! ### Parsed URLs -/

inductive Host
  | domain (text : List Char)
  | ipv4 (ip : Ipv4Addr)
  | ipv6 (ip : Ipv6Addr)

/-- What is read of a parsed URL. -/
structure Url where
  scheme : String
  username : String
  password : Option String
  host : Option Host
  port : Option ℕ

def Host.hostStr : Host → List Char
  | .domain text => text
  | .ipv4 ip => ip.text
  | .ipv6 ip => '[' :: ip.text ++ [']']

def Url.portOrKnownDefault (url : Url) : Option ℕ :=
  url.port.or (if url.scheme = "http" then some 80 else if url.scheme = "https" then some 443 else none)

/-- The brackets around and the dots after a host are not compared. -/
def bare (host : List Char) : List Char :=
  (((host.dropWhile (· = '[')).rdropWhile (· = ']')).rdropWhile (· = '.')).map Char.toLower

def isCloudMetadataHost (host : List Char) : Bool :=
  let normalized := bare host
  normalized = "metadata.google.internal".toList || normalized = "169.254.169.254".toList ||
    normalized = "fd00:ec2::254".toList || normalized = "100.100.100.200".toList ||
    normalized = "168.63.129.16".toList

def normalizeHost (host : List Char) : List Char := bare (trim host)

def isRfc6598Cgnat (ip : Ipv4Addr) : Bool := ip.a = 100 && 64 ≤ ip.b && ip.b ≤ 127

def isPrivateOrInternalIpv4 (ip : Ipv4Addr) : Bool :=
  ip.isLoopback || ip.isPrivate || ip.isLinkLocal || ip.isUnspecified || ip.isBroadcast ||
    isRfc6598Cgnat ip

def isPrivateOrInternalIp : IpAddr → Bool
  | .v4 ip => isPrivateOrInternalIpv4 ip
  | .v6 ip =>
    ip.isLoopback || ip.isUnspecified || ip.segments.headD 0 &&& 0xfe00 = 0xfc00 ||
      ip.segments.headD 0 &&& 0xffc0 = 0xfe80 || ip.toIpv4Mapped.any isPrivateOrInternalIpv4

def rejectUrlUserinfo (parsed : Url) : Except AppError Unit :=
  if parsed.username ≠ "" ∨ parsed.password.isSome then
    .error (.validationError "URL must not contain userinfo (user:pass@)")
  else .ok ()

section

variable (parse : String → Option Url) (lookupHost : List Char → ℕ → Except String (List IpAddr))

def validateBaseUrl (url : String) : Except AppError Unit := do
  if !"https://".toList.isPrefixOf url.toList && !"http://".toList.isPrefixOf url.toList then
    throw (.validationError "base_url must start with https:// or http://")
  let parsed ← okOr (parse url) (.validationError "Invalid base_url format")
  let host ← okOr parsed.host (.validationError "base_url must contain a hostname")
  if isCloudMetadataHost host.hostStr then
    throw (.validationError "URL must not point to a cloud metadata endpoint")

def validateAdvisoryHttpUrl (url fieldName : String) (maxLen : ℕ) : Except AppError Unit := do
  if url.utf8ByteSize > maxLen then
    throw (.validationError s!"{fieldName} must not exceed {maxLen} characters")
  let parsed ← okOr (parse url) (.validationError s!"{fieldName} must be a valid URL")
  if parsed.scheme ≠ "http" ∧ parsed.scheme ≠ "https" then
    throw (.validationError s!"{fieldName} must use http or https")
  let host ← okOr parsed.host (.validationError s!"{fieldName} must include a hostname")
  if isCloudMetadataHost host.hostStr then
    throw (.validationError s!"{fieldName} must not point to a cloud metadata endpoint")
  rejectUrlUserinfo parsed

/-- The addresses of a host: its own where it is an address, those of a lookup elsewhere. -/
def resolvedAddrs (fieldName : String) (normalizedHost : List Char) (port : ℕ) :
    Except AppError (List IpAddr) :=
  match parseIp normalizedHost with
  | some ip => .ok [ip]
  | none =>
    (lookupHost normalizedHost port).mapError fun e =>
      .validationError s!"Failed to resolve {fieldName} host: {e}"

def validatePublicHttpUrlWithLimit (url fieldName : String) (maxLen : ℕ) : Except AppError Unit := do
  if url.utf8ByteSize > maxLen then
    throw (.validationError s!"{fieldName} must not exceed {maxLen} characters")
  let parsed ← okOr (parse url) (.validationError s!"{fieldName} must be a valid URL")
  if parsed.scheme ≠ "http" ∧ parsed.scheme ≠ "https" then
    throw (.validationError s!"{fieldName} must use http or https")
  rejectUrlUserinfo parsed
  let host ← okOr parsed.host (.validationError s!"{fieldName} must include a hostname")
  let normalizedHost := normalizeHost host.hostStr
  if normalizedHost = "localhost".toList ∨ normalizedHost = "metadata.google.internal".toList then
    throw (.validationError s!"{fieldName} must not target a private or internal hostname")
  let port ← okOr parsed.portOrKnownDefault
    (.validationError s!"{fieldName} must include a valid port")
  let addrs ← resolvedAddrs lookupHost fieldName normalizedHost port
  if addrs.isEmpty then
    throw (.validationError s!"{fieldName} host did not resolve to any IP addresses")
  if addrs.any isPrivateOrInternalIp then
    throw (.validationError
      s!"{fieldName} must not resolve to private or internal IP addresses")

def maxUrlLen : ℕ := 2048

def validatePublicHttpUrl (url fieldName : String) : Except AppError Unit :=
  validatePublicHttpUrlWithLimit parse lookupHost url fieldName maxUrlLen

end

end NyxId.UrlValidation
