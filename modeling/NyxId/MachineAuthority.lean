import Mathlib.Data.Int.Notation

/-!
What the authorities of agents and of external leases are made of.
-/

namespace NyxId.MachineAuthority

/-- `context::MODE` -/
def separatedMode : String := "separated"

/-- Offline grace of an authority. -/
def leaseMs : ℤ := 45000

structure Capabilities where
  shell : Bool
  files : Bool
  browser : Bool
  computer : Bool
  developerBrowser : Bool
  deriving DecidableEq

def Capabilities.valid (c : Capabilities) : Bool := (!c.computer && !c.developerBrowser) || c.browser

inductive ExternalPrincipal where
  | oauth (userId oauthClientId : String)
  | apiKey (userId apiKeyId : String) (apiKeyCredentialId : Option String)
  deriving DecidableEq

def ExternalPrincipal.userId : ExternalPrincipal → String
  | .oauth userId _ => userId
  | .apiKey userId _ _ => userId

def ExternalPrincipal.valid (isUuid : String → Bool) : ExternalPrincipal → Bool
  | .oauth userId oauthClientId => isUuid userId && isUuid oauthClientId
  | .apiKey userId apiKeyId apiKeyCredentialId =>
    isUuid userId && isUuid apiKeyId && apiKeyCredentialId.all isUuid

/-- The principal without the credential that it used. -/
def ExternalPrincipal.identity : ExternalPrincipal → ExternalPrincipal
  | .oauth userId oauthClientId => .oauth userId oauthClientId
  | .apiKey userId apiKeyId _ => .apiKey userId apiKeyId none

structure OAuthConsent where
  consentId : String
  consentRevision : String
  deriving DecidableEq

structure DeclaredService where
  id : String
  slug : String
  deriving DecidableEq

/-- A simple check of identifiers. -/
def hasUuidLength (id : String) : Bool := id.toList.length = 36

end NyxId.MachineAuthority
