/- digest: The URL guard of the built-in HTTP tool: scheme, user info, host and addresses. -/

import Gyre.Lib.IpAddr
import Gyre.Tools.Wasm.Allowlist

set_option autoImplicit false
set_option relaxedAutoImplicit false

namespace Gyre.Tools.Builtin

open Gyre.Lib Gyre.Tools.Wasm

section Addresses

variable (o : Vector UInt8 4) (s : Vector UInt16 8)

/-- `Ipv4Addr::is_private`. -/
def isPrivateV4 : Bool :=
  o.get 0 == 10 || (o.get 0 == 172 && 16 ≤ (o.get 1).toNat && (o.get 1).toNat ≤ 31) ||
    (o.get 0 == 192 && o.get 1 == 168)

/-- `Ipv4Addr::is_loopback`. -/
def isLoopbackV4 : Bool := o.get 0 == 127

/-- `Ipv4Addr::is_link_local`. -/
def isLinkLocalV4 : Bool := o.get 0 == 169 && o.get 1 == 254

/-- `Ipv4Addr::is_multicast`. -/
def isMulticastV4 : Bool := 224 ≤ (o.get 0).toNat && (o.get 0).toNat ≤ 239

/-- `Ipv4Addr::is_unspecified`. -/
def isUnspecifiedV4 : Bool := o == IpAddr.unspecifiedV4

/-- `Ipv6Addr::is_loopback`. -/
def isLoopbackV6 : Bool := s == IpAddr.localhostV6

/-- `Ipv6Addr::is_unique_local`. -/
def isUniqueLocalV6 : Bool := (s.get 0 &&& 0xFE00) == 0xFC00

/-- `Ipv6Addr::is_unicast_link_local`. -/
def isLinkLocalV6 : Bool := (s.get 0 &&& 0xFFC0) == 0xFE80

/-- `Ipv6Addr::is_multicast`. -/
def isMulticastV6 : Bool := (s.get 0 &&& 0xFF00) == 0xFF00

/-- `Ipv6Addr::is_unspecified`. -/
def isUnspecifiedV6 : Bool := s == IpAddr.unspecifiedV6

end Addresses

/-- `is_disallowed_ip`. -/
def isDisallowedIp : IpAddr → Bool
  | .v4 o =>
    isPrivateV4 o || isLoopbackV4 o || isLinkLocalV4 o || isMulticastV4 o || isUnspecifiedV4 o ||
      o == #v[169, 254, 169, 254]
  | .v6 s =>
    isLoopbackV6 s || isUniqueLocalV6 s || isLinkLocalV6 s || isMulticastV6 s || isUnspecifiedV6 s

/-- The address of a socket address that is written as one: an IPv4 address, or an IPv6 address in
brackets. -/
def socketLiteral (host : List Char) : Option IpAddr :=
  match host with
  | '[' :: _ =>
    match IpAddr.readIpv6 (stripBrackets host) with
    | some (segments, []) => some (.v6 segments)
    | _ => none
  | _ =>
    match IpAddr.readIpv4 host with
    | some (octets, []) => some (.v4 octets)
    | _ => none

/-- `to_socket_addrs` of a host and a port: an address stands for itself, a name is resolved. -/
def toSocketAddrs (resolve : List Char → Except (List Char) (List IpAddr)) (host : List Char) :
    Except (List Char) (List IpAddr) :=
  match socketLiteral host with
  | some ip => .ok [ip]
  | none => resolve host

/-- `ToolError`, with the variants `validate_url` builds. -/
inductive UrlError where
  | invalidParameters (reason : List Char)
  | notAuthorized (reason : List Char)
  deriving DecidableEq, Repr

/-- The name of the machine itself, or a name under it. -/
def isLocalhost (u : Text.Unicode) (host : List Char) : Bool :=
  let lower := u.lowercase host
  lower = "localhost".toList || ".localhost".toList.isSuffixOf lower

/-- `validate_url`. -/
def validateUrl (u : Text.Unicode) (parse : UrlParser)
    (resolve : List Char → Except (List Char) (List IpAddr)) (url : List Char) : Except UrlError Url :=
  match parse url with
  | .error e => .error (.invalidParameters ("invalid URL: ".toList ++ e))
  | .ok parsed =>
    if parsed.scheme ≠ "https".toList then
      .error (.notAuthorized "only https URLs are allowed".toList)
    else if parsed.hasUserinfo then
      .error (.notAuthorized
        "URLs with embedded credentials (userinfo) are not allowed".toList)
    else match parsed.host with
      | none => .error (.invalidParameters "URL missing host".toList)
      | some host =>
        if isLocalhost u host then .error (.notAuthorized "localhost is not allowed".toList)
        else if (IpAddr.parse host).any isDisallowedIp then
          .error (.notAuthorized "private or local IPs are not allowed".toList)
        else match toSocketAddrs resolve host with
          | .error _ => .ok parsed
          | .ok addrs =>
            match addrs.find? isDisallowedIp with
            | some ip =>
              .error (.notAuthorized ("hostname '".toList ++ host ++
                "' resolves to disallowed IP ".toList ++ ip.display))
            | none => .ok parsed

end Gyre.Tools.Builtin
