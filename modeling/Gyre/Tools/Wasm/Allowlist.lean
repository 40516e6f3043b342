/- digest: The allowlist of HTTP endpoints: URLs taken apart, normalized and matched. -/

import Gyre.Lib.Bytes
import Gyre.Tools.Wasm.Capabilities

set_option autoImplicit false
set_option relaxedAutoImplicit false

namespace Gyre.Tools.Wasm

open Gyre.Lib

/-- A URL as the URL library takes it apart. -/
structure Url where
  scheme : List Char
  username : List Char
  password : Option (List Char)
  host : Option (List Char)
  path : List Char
  deriving DecidableEq

/-- The parser of the URL library, with the text of its error. -/
abbrev UrlParser := List Char → Except (List Char) Url

/-- A host without the brackets of an IPv6 address. -/
def stripBrackets (host : List Char) : List Char :=
  match host with
  | '[' :: rest => if rest.getLast? = some ']' then rest.dropLast else host
  | _ => host

def Url.hasUserinfo (u : Url) : Bool := !u.username.isEmpty || u.password.isSome

inductive DenyReason where
  | invalidUrl (error : List Char)
  | hostNotAllowed (host : List Char)
  | pathNotAllowed (host path : List Char)
  | methodNotAllowed (method host : List Char)
  | emptyAllowlist
  | insecureScheme (scheme : List Char)
  deriving DecidableEq, Repr

inductive AllowlistResult where
  | allowed
  | denied (reason : DenyReason)
  deriving DecidableEq, Repr

/-- The derived `Debug` of a reason. -/
def DenyReason.debug (u : Text.Unicode) : DenyReason → List Char
  | .invalidUrl error => "InvalidUrl(".toList ++ Text.debug u error ++ ")".toList
  | .hostNotAllowed host => "HostNotAllowed(".toList ++ Text.debug u host ++ ")".toList
  | .pathNotAllowed host path =>
    "PathNotAllowed \x7b host: ".toList ++ Text.debug u host ++ ", path: ".toList ++
      Text.debug u path ++ " \x7d".toList
  | .methodNotAllowed method host =>
    "MethodNotAllowed \x7b method: ".toList ++ Text.debug u method ++ ", host: ".toList ++
      Text.debug u host ++ " \x7d".toList
  | .emptyAllowlist => "EmptyAllowlist".toList
  | .insecureScheme scheme => "InsecureScheme(".toList ++ Text.debug u scheme ++ ")".toList

def AllowlistResult.debug (u : Text.Unicode) : AllowlistResult → List Char
  | .allowed => "Allowed".toList
  | .denied reason => "Denied(".toList ++ reason.debug u ++ ")".toList

/-- The segments of a normalized path, from those already read. -/
def normalizeSegments : (segments raw : List (List Char)) →
    Except (List Char) (List (List Char))
  | segments, [] => .ok segments
  | segments, rawSegment :: rest =>
    let invalid := "Invalid percent-encoding in path segment: ".toList ++ rawSegment
    if !Bytes.validPercentEncoding rawSegment then .error invalid
    else match Bytes.percentDecode rawSegment with
      | none => .error invalid
      | some segment =>
        if segment.contains '/' || segment.contains '\\' then
          .error "Path segment contains encoded path separator".toList
        else if segment = [] || segment = ['.'] then normalizeSegments segments rest
        else if segment = ['.', '.'] then normalizeSegments segments.dropLast rest
        else normalizeSegments (segments ++ [segment]) rest

/-- `normalize_path`. -/
def normalizePath (path : List Char) : Except (List Char) (List Char) :=
  match normalizeSegments [] (path.splitOn '/') with
  | .error e => .error e
  | .ok segments =>
    let result := '/' :: List.intercalate ['/'] segments
    .ok (if 1 < path.length && ['/'].isSuffixOf path && !(['/'].isSuffixOf result) then
      result ++ ['/'] else result)

structure ParsedUrl where
  scheme : List Char
  host : List Char
  path : List Char
  deriving DecidableEq

/-- `parse_url`. -/
def parseUrl (u : Text.Unicode) (parse : UrlParser) (url : List Char) :
    Except (List Char) ParsedUrl :=
  match parse url with
  | .error e => .error ("URL parse failed: ".toList ++ e)
  | .ok parsed =>
    let scheme := u.lowercase parsed.scheme
    if scheme ≠ "http".toList && scheme ≠ "https".toList then
      .error ("Unsupported scheme: ".toList ++ scheme)
    else if parsed.hasUserinfo then
      .error "URL contains userinfo (@) which is not allowed".toList
    else match parsed.host with
      | none => .error "Empty host".toList
      | some host =>
        match normalizePath parsed.path with
        | .error e => .error e
        | .ok path => .ok ⟨scheme, u.lowercase (stripBrackets host), path⟩

structure AllowlistValidator where
  patterns : List EndpointPattern
  requireHttps : Bool

/-- `AllowlistValidator::new`. -/
def AllowlistValidator.new (patterns : List EndpointPattern) : AllowlistValidator := ⟨patterns, true⟩

/-- `validate`. -/
def AllowlistValidator.validate (u : Text.Unicode) (parse : UrlParser) (v : AllowlistValidator)
    (url method : List Char) : AllowlistResult :=
  if v.patterns.isEmpty then .denied .emptyAllowlist
  else match parseUrl u parse url with
    | .error e => .denied (.invalidUrl e)
    | .ok parsed =>
      if v.requireHttps && parsed.scheme ≠ "https".toList then
        .denied (.insecureScheme parsed.scheme)
      else if v.patterns.any fun p => p.isMatch u parsed.host parsed.path method then .allowed
      else
        let hostMatches := v.patterns.filter fun p => p.hostMatches parsed.host
        if hostMatches.isEmpty then .denied (.hostNotAllowed parsed.host)
        else if (hostMatches.filter fun p => p.pathMatches parsed.path).isEmpty then
          .denied (.pathNotAllowed parsed.host parsed.path)
        else .denied (.methodNotAllowed method parsed.host)

end Gyre.Tools.Wasm
