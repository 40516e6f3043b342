/- digest: The network proxy of the sandbox: the domain allowlist and the default policy. -/

import Gyre.Tools.Wasm.Capabilities

set_option autoImplicit false
set_option relaxedAutoImplicit false

namespace Gyre.Sandbox

open Gyre.Lib

/-- Pattern for matching allowed domains. -/
structure DomainPattern where
  pattern : List Char
  isWildcard : Bool
  baseDomain : List Char
  deriving DecidableEq, Repr

section Domains

variable (u : Text.Unicode)

/-- `DomainPattern::new`. -/
def DomainPattern.new (pattern : List Char) : DomainPattern :=
  let isWildcard := "*.".toList.isPrefixOf pattern
  ⟨pattern, isWildcard, u.lowercase (if isWildcard then pattern.drop 2 else pattern)⟩

/-- `matches`; the base domain of a wildcard matches as well. -/
def DomainPattern.isMatch (p : DomainPattern) (host : List Char) : Bool :=
  let hostLower := u.lowercase host
  if p.isWildcard then
    hostLower == p.baseDomain || ('.' :: p.baseDomain).isSuffixOf hostLower
  else hostLower == p.baseDomain

/-- Result of domain validation. -/
inductive DomainValidationResult where
  | allowed
  | denied (reason : List Char)
  deriving DecidableEq, Repr

/-- The patterns of a `DomainAllowlist`. -/
abbrev DomainAllowlist := List DomainPattern

/-- `DomainAllowlist::is_allowed`. -/
def DomainAllowlist.isAllowed (l : DomainAllowlist) (host : List Char) : DomainValidationResult :=
  if l.isEmpty then .denied "empty allowlist".toList
  else if l.any fun p => p.isMatch u host then .allowed
  else .denied ("host '".toList ++ host ++ "' not in allowlist: [".toList ++
    List.intercalate ", ".toList (l.map (·.pattern)) ++ "]".toList)

/-- `host_matches_pattern` of the policy: that of the credential injector on a lower-cased pattern. -/
def hostMatchesPattern (host pattern : List Char) : Bool :=
  Tools.Wasm.hostMatchesPattern host (u.lowercase pattern)

end Domains

/-- Where a credential goes in a request. -/
inductive CredentialLocation where
  | authorizationBearer
  | authorizationBasic (username : String)
  | header (name : String) (valuePrefix : Option String)
  | queryParam (name : String)
  | urlPath (placeholder : String)
  deriving DecidableEq, Repr

structure CredentialMapping where
  secretName : String
  location : CredentialLocation
  hostPatterns : List (List Char)
  deriving DecidableEq, Repr

/-- Decision for a network request. -/
inductive NetworkDecision where
  | allow
  | allowWithCredentials (secretName : String) (location : CredentialLocation)
  | deny (reason : List Char)
  deriving DecidableEq, Repr

/-- Default policy decider that uses allowlist and credential mappings. -/
structure DefaultPolicyDecider where
  allowlist : DomainAllowlist
  credentialMappings : List CredentialMapping

namespace DefaultPolicyDecider

variable (u : Text.Unicode)

/-- What `find_credential` asks of a pattern: the host is lower-cased first. -/
def wantsCredential (host pattern : List Char) : Bool :=
  hostMatchesPattern u (u.lowercase host) pattern

/-- `find_credential`. -/
def findCredential (d : DefaultPolicyDecider) (host : List Char) : Option CredentialMapping :=
  d.credentialMappings.find? fun m => m.hostPatterns.any (wantsCredential u host)

/-- `decide`. -/
def decide (d : DefaultPolicyDecider) (host : List Char) : NetworkDecision :=
  match d.allowlist.isAllowed u host with
  | .denied reason => .deny reason
  | .allowed =>
    match d.findCredential u host with
    | some mapping => .allowWithCredentials mapping.secretName mapping.location
    | none => .allow

end DefaultPolicyDecider

end Gyre.Sandbox
