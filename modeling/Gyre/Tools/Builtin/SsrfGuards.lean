/- digest: When the address guards of the built-in and the WASM HTTP tools agree and keep internal addresses out. -/

import Gyre.Tools.Builtin.Http
import Gyre.Tools.Wasm.Secrecy

/-!
One guard lets shared addresses and names that cannot be resolved through, the other one multicast
addresses, and neither reads an IPv4 address inside of an IPv6 address.
-/

set_option autoImplicit false
set_option relaxedAutoImplicit false

namespace Gyre.Tools.Builtin

open Gyre.Lib Gyre.Tools.Wasm

/-- An address in 100.64.0.0/10. -/
def isSharedV4 (o : Vector UInt8 4) : Bool := o.get 0 == 100 && (o.get 1 &&& 0xC0) == 64

/-- An address of the machine itself or of a network that is not public. -/
def isInternalV4 (o : Vector UInt8 4) : Bool :=
  isLoopbackV4 o || isPrivateV4 o || isLinkLocalV4 o || isSharedV4 o || isUnspecifiedV4 o

/-- The IPv4 address in an IPv4-mapped IPv6 address. -/
def mappedV4 (s : Vector UInt16 8) : Option (Vector UInt8 4) :=
  if s.get 0 == 0 && s.get 1 == 0 && s.get 2 == 0 && s.get 3 == 0 && s.get 4 == 0 && s.get 5 == 0xFFFF then
    some #v[.ofNat ((s.get 6).toNat / 256), .ofNat ((s.get 6).toNat % 256),
      .ofNat ((s.get 7).toNat / 256), .ofNat ((s.get 7).toNat % 256)]
  else none

/-- An IPv6 address that stands for an internal IPv4 address. -/
def isMappedInternal : IpAddr → Bool
  | .v4 _ => false
  | .v6 s => (mappedV4 s).any isInternalV4

/-- An address that reaches an internal destination. -/
def isInternal : IpAddr → Bool
  | .v4 o => isInternalV4 o
  | .v6 s =>
    isLoopbackV6 s || isUnspecifiedV6 s || isUniqueLocalV6 s || isLinkLocalV6 s ||
      (mappedV4 s).any isInternalV4

def isMulticast : IpAddr → Bool
  | .v4 o => isMulticastV4 o
  | .v6 s => isMulticastV6 s

def isShared : IpAddr → Bool
  | .v4 o => isSharedV4 o
  | .v6 _ => false

/-- The address that a host is written as. -/
def literal (host : List Char) : Option IpAddr := IpAddr.parse (stripBrackets host)

/-- The hosts of URLs: a name, an IPv4 address, or an IPv6 address in brackets. -/
inductive HostForm : List Char → Prop
  | name (host : List Char) (hname : IpAddr.parse host = none) (hopen : host.head? ≠ some '[') : HostForm host
  | ipv4 (host : List Char) (o : Vector UInt8 4) (haddr : IpAddr.parse host = some (.v4 o)) : HostForm host
  | ipv6 (text : List Char) (s : Vector UInt16 8) (haddr : IpAddr.parse text = some (.v6 s)) :
      HostForm ('[' :: text ++ [']'])

/-- The addresses that a host is, or resolves to. -/
def lookup (resolve : List Char → Except (List Char) (List IpAddr)) (host : List Char) :
    Except (List Char) (List IpAddr) :=
  match literal host with
  | some ip => .ok [ip]
  | none => resolve host

/-- Both guards give the same verdict, and if it is to accept, no address of the host is internal. -/
structure GuardsAgree (lib : Libraries) (resolve : List Char → Except (List Char) (List IpAddr))
    (url : List Char) (parsed : Url) : Prop where
  same : (∃ accepted, validateUrl lib.unicode lib.parseUrl resolve url = .ok accepted) ↔
    rejectPrivateIp lib resolve url = .ok ()
  keptOut : (∃ accepted, validateUrl lib.unicode lib.parseUrl resolve url = .ok accepted) ∨
    rejectPrivateIp lib resolve url = .ok () → ∀ host, parsed.host = some host →
      ∀ addrs, lookup resolve host = .ok addrs → ∀ ip ∈ addrs, isInternal ip = false

/-- Both guards refuse one of the addresses, or each one of another, or there is none that only one of
them refuses and none that neither reads. -/
def Covered (addrs : List IpAddr) : Prop :=
  (∃ ip ∈ addrs, isDisallowedIp ip = true ∧ isPrivateIp ip = true) ∨
    ((∃ ip ∈ addrs, isMulticast ip = true) ∧ ∃ ip ∈ addrs, isShared ip = true) ∨
    ∀ ip ∈ addrs, isMulticast ip = false ∧ isShared ip = false ∧ isMappedInternal ip = false

/-- When the guards agree on a host. A name of the machine itself must not resolve to public addresses
only, and another host must have an address. -/
def HostCovered (u : Text.Unicode) (resolve : List Char → Except (List Char) (List IpAddr))
    (host : List Char) : Prop :=
  if isLocalhost u host then
    ∀ addrs, lookup resolve host = .ok addrs → addrs = [] ∨ ∃ ip ∈ addrs, isPrivateIp ip = true
  else ∃ addrs, lookup resolve host = .ok addrs ∧ addrs ≠ [] ∧ Covered addrs

section Ranges

/-- What the first byte is in each of the ranges. -/
structure FirstOctet (o : Vector UInt8 4) : Prop where
  loopback : isLoopbackV4 o = true → (o.get 0).toNat = 127
  isPrivate : isPrivateV4 o = true → (o.get 0).toNat = 10 ∨ (o.get 0).toNat = 172 ∨ (o.get 0).toNat = 192
  linkLocal : isLinkLocalV4 o = true → (o.get 0).toNat = 169
  multicast : isMulticastV4 o = true → 224 ≤ (o.get 0).toNat
  unspecified : isUnspecifiedV4 o = true → (o.get 0).toNat = 0
  shared : isSharedV4 o = true → (o.get 0).toNat = 100

private theorem firstOctet (o : Vector UInt8 4) : FirstOctet o where
  loopback h := by
    have hfirst : o.get 0 = 127 := by simpa [isLoopbackV4] using h
    rw [hfirst]
    rfl
  isPrivate h := by
    simp only [isPrivateV4, Bool.or_eq_true, Bool.and_eq_true, beq_iff_eq] at h
    rcases h with (h | ⟨⟨h, -⟩, -⟩) | ⟨h, -⟩
    · exact .inl (h ▸ rfl)
    · exact .inr (.inl (h ▸ rfl))
    · exact .inr (.inr (h ▸ rfl))
  linkLocal h := by
    have hfirst : o.get 0 = 169 := by
      simp only [isLinkLocalV4, Bool.and_eq_true, beq_iff_eq] at h
      exact h.1
    rw [hfirst]
    rfl
  multicast h := by
    simp only [isMulticastV4, Bool.and_eq_true, decide_eq_true_eq] at h
    exact h.1
  unspecified h := by
    rw [eq_of_beq h]
    rfl
  shared h := by
    have hfirst : o.get 0 = 100 := by
      simp only [isSharedV4, Bool.and_eq_true, beq_iff_eq] at h
      exact h.1
    rw [hfirst]
    rfl

private theorem metadata_linkLocal {o : Vector UInt8 4} (h : (o == #v[169, 254, 169, 254]) = true) :
    isLinkLocalV4 o = true := by
  rw [eq_of_beq h]
  rfl

private theorem isPrivateIp_v4 (o : Vector UInt8 4) : isPrivateIp (.v4 o) =
    (isLoopbackV4 o || isPrivateV4 o || isLinkLocalV4 o || isUnspecifiedV4 o || isSharedV4 o) := rfl

private theorem isPrivateIp_v6 (s : Vector UInt16 8) : isPrivateIp (.v6 s) =
    (isLoopbackV6 s || isUnspecifiedV6 s || isUniqueLocalV6 s || isLinkLocalV6 s) := rfl

/-- What the first group is outside of the multicast range. -/
structure FirstSegment (s : Vector UInt16 8) : Prop where
  loopback : isLoopbackV6 s = true → s.get 0 = 0
  unspecified : isUnspecifiedV6 s = true → s.get 0 = 0
  uniqueLocal : isUniqueLocalV6 s = true → isMulticastV6 s = false
  linkLocal : isLinkLocalV6 s = true → isMulticastV6 s = false

private theorem firstSegment (s : Vector UInt16 8) : FirstSegment s where
  loopback h := by
    rw [eq_of_beq h]
    rfl
  unspecified h := by
    rw [eq_of_beq h]
    rfl
  uniqueLocal h := by
    have hmask : s.get 0 &&& 0xFE00 = 0xFC00 := eq_of_beq h
    refine beq_eq_false_iff_ne.mpr fun hmulticast => ?_
    -- the mask of the multicast range is within the one of the unique local range
    have hboth : (s.get 0 &&& 0xFF00) &&& 0xFE00 = s.get 0 &&& 0xFE00 := by
      rw [UInt16.and_assoc]
      rfl
    rw [hmulticast, hmask] at hboth
    exact absurd hboth (by decide)
  linkLocal h := by
    have hmask : s.get 0 &&& 0xFFC0 = 0xFE80 := eq_of_beq h
    refine beq_eq_false_iff_ne.mpr fun hmulticast => ?_
    have hboth : (s.get 0 &&& 0xFFC0) &&& 0xFF00 = s.get 0 &&& 0xFF00 := by
      rw [UInt16.and_assoc]
      rfl
    rw [hmulticast, hmask] at hboth
    exact absurd hboth (by decide)

private theorem multicast_iff (ip : IpAddr) :
    isMulticast ip = true ↔ isDisallowedIp ip = true ∧ isPrivateIp ip = false := by
  cases ip with
  | v4 o =>
    obtain ⟨hloop, hpriv, hlink, hmulti, hzero, hshared⟩ := firstOctet o
    have hmeta := @metadata_linkLocal o
    rw [isPrivateIp_v4]
    simp only [isMulticast, isDisallowedIp]
    grind
  | v6 s =>
    obtain ⟨hloop, hzero, hunique, hlink⟩ := firstSegment s
    have hfirst (h : s.get 0 = 0) : isMulticastV6 s = false := by
      unfold isMulticastV6
      rw [h]
      rfl
    rw [isPrivateIp_v6]
    simp only [isMulticast, isDisallowedIp]
    grind

private theorem shared_iff (ip : IpAddr) :
    isShared ip = true ↔ isPrivateIp ip = true ∧ isDisallowedIp ip = false := by
  cases ip with
  | v4 o =>
    obtain ⟨hloop, hpriv, hlink, hmulti, hzero, hshared⟩ := firstOctet o
    have hmeta := @metadata_linkLocal o
    rw [isPrivateIp_v4]
    simp only [isShared, isDisallowedIp]
    grind
  | v6 s =>
    rw [isPrivateIp_v6]
    simp only [isShared, isDisallowedIp]
    grind

private theorem internal_iff (ip : IpAddr) :
    isInternal ip = true ↔ isPrivateIp ip = true ∨ isMappedInternal ip = true := by
  cases ip with
  | v4 o =>
    rw [isPrivateIp_v4]
    simp only [isInternal, isInternalV4, isMappedInternal]
    grind
  | v6 s =>
    rw [isPrivateIp_v6]
    simp only [isInternal, isMappedInternal]
    grind

/-- Neither guard refuses an address for the IPv4 address in it. -/
private theorem mapped_unread {ip : IpAddr} (h : isMappedInternal ip = true) :
    isDisallowedIp ip = false ∧ isPrivateIp ip = false := by
  cases ip with
  | v4 o => cases h
  | v6 s =>
    have hgroups : s.get 0 = 0 ∧ s.get 5 = 0xFFFF := by
      have hsome : mappedV4 s ≠ none := by
        intro hnone
        simp only [isMappedInternal, hnone, Option.any_none, Bool.false_eq_true] at h
      unfold mappedV4 at hsome
      split at hsome
      · next hmapped =>
        simp only [Bool.and_eq_true, beq_iff_eq] at hmapped
        obtain ⟨⟨⟨⟨⟨hfirst, -⟩, -⟩, -⟩, -⟩, hsixth⟩ := hmapped
        exact ⟨hfirst, hsixth⟩
      · exact absurd rfl hsome
    obtain ⟨hfirst, hsixth⟩ := hgroups
    have hloopback : isLoopbackV6 s = false := by
      refine beq_eq_false_iff_ne.mpr fun heq => ?_
      rw [heq] at hsixth
      exact absurd hsixth (by decide)
    have hunspecified : isUnspecifiedV6 s = false := by
      refine beq_eq_false_iff_ne.mpr fun heq => ?_
      rw [heq] at hsixth
      exact absurd hsixth (by decide)
    have hunique : isUniqueLocalV6 s = false := by
      unfold isUniqueLocalV6
      rw [hfirst]
      rfl
    have hlink : isLinkLocalV6 s = false := by
      unfold isLinkLocalV6
      rw [hfirst]
      rfl
    have hmulticast : isMulticastV6 s = false := by
      unfold isMulticastV6
      rw [hfirst]
      rfl
    rw [isPrivateIp_v6]
    simp [isDisallowedIp, hloopback, hunspecified, hunique, hlink, hmulticast]

/-- Guards that look at all of some addresses agree, and keep internal ones out, exactly if the addresses
are covered. -/
private theorem covered_iff (addrs : List IpAddr) :
    Covered addrs ↔
      ((∀ ip ∈ addrs, isDisallowedIp ip = false) ↔ ∀ ip ∈ addrs, isPrivateIp ip = false) ∧
      ((∀ ip ∈ addrs, isDisallowedIp ip = false) ∨ (∀ ip ∈ addrs, isPrivateIp ip = false) →
        ∀ ip ∈ addrs, isInternal ip = false) := by
  constructor
  · rintro (⟨ip, hip, hdisallowed, hprivate⟩ | ⟨⟨ip, hip, hmulticast⟩, other, hother, hshared⟩ | hnone)
    · have hfirst : ¬ ∀ ip ∈ addrs, isDisallowedIp ip = false :=
        fun h => absurd (hdisallowed.symm.trans (h ip hip)) (by decide)
      have hsecond : ¬ ∀ ip ∈ addrs, isPrivateIp ip = false :=
        fun h => absurd (hprivate.symm.trans (h ip hip)) (by decide)
      exact ⟨iff_of_false hfirst hsecond, fun h => (h.elim hfirst hsecond).elim⟩
    · have hfirst : ¬ ∀ ip ∈ addrs, isDisallowedIp ip = false :=
        fun h => absurd (((multicast_iff ip).mp hmulticast).1.symm.trans (h ip hip)) (by decide)
      have hsecond : ¬ ∀ ip ∈ addrs, isPrivateIp ip = false :=
        fun h => absurd (((shared_iff other).mp hshared).1.symm.trans (h other hother)) (by decide)
      exact ⟨iff_of_false hfirst hsecond, fun h => (h.elim hfirst hsecond).elim⟩
    · have hsame (ip : IpAddr) (hip : ip ∈ addrs) : isDisallowedIp ip = isPrivateIp ip := by
        obtain ⟨hmulticast, hshared, -⟩ := hnone ip hip
        have hm := mt (multicast_iff ip).mpr (by simp [hmulticast])
        have hs := mt (shared_iff ip).mpr (by simp [hshared])
        cases hd : isDisallowedIp ip with
        | false =>
          cases hp : isPrivateIp ip with
          | false => rfl
          | true => exact absurd ⟨hp, hd⟩ hs
        | true =>
          cases hp : isPrivateIp ip with
          | false => exact absurd ⟨hd, hp⟩ hm
          | true => rfl
      have hiff : (∀ ip ∈ addrs, isDisallowedIp ip = false) ↔ ∀ ip ∈ addrs, isPrivateIp ip = false := by
        constructor
        · intro h ip hip
          exact (hsame ip hip).symm.trans (h ip hip)
        · intro h ip hip
          exact (hsame ip hip).trans (h ip hip)
      refine ⟨hiff, fun h ip hip => ?_⟩
      have hprivate := h.elim (fun h => hiff.mp h ip hip) fun h => h ip hip
      have hmapped := (hnone ip hip).2.2
      exact Bool.eq_false_iff.mpr fun hinternal =>
        ((internal_iff ip).mp hinternal).elim (fun h => absurd (h.symm.trans hprivate) (by decide))
          fun h => absurd (h.symm.trans hmapped) (by decide)
  · rintro ⟨hiff, hkept⟩
    by_cases hpass : ∀ ip ∈ addrs, isDisallowedIp ip = false
    · refine .inr (.inr fun ip hip => ⟨?_, ?_, ?_⟩)
      · exact Bool.eq_false_iff.mpr fun h =>
          absurd (((multicast_iff ip).mp h).1.symm.trans (hpass ip hip)) (by decide)
      · exact Bool.eq_false_iff.mpr fun h =>
          absurd (((shared_iff ip).mp h).1.symm.trans (hiff.mp hpass ip hip)) (by decide)
      · exact Bool.eq_false_iff.mpr fun h =>
          absurd (((internal_iff ip).mpr (.inr h)).symm.trans (hkept (.inl hpass) ip hip)) (by decide)
    · have hstop := mt hiff.mpr hpass
      push Not at hpass hstop
      obtain ⟨ip, hip, hdisallowed⟩ := hpass
      obtain ⟨other, hother, hprivate⟩ := hstop
      rw [ne_eq, Bool.not_eq_false] at hdisallowed hprivate
      cases hboth : isPrivateIp ip with
      | true => exact .inl ⟨ip, hip, hdisallowed, hboth⟩
      | false =>
        cases hother' : isDisallowedIp other with
        | true => exact .inl ⟨other, hother, hother', hprivate⟩
        | false =>
          exact .inr (.inl ⟨⟨ip, hip, (multicast_iff ip).mpr ⟨hdisallowed, hboth⟩⟩,
            other, hother, (shared_iff other).mpr ⟨hprivate, hother'⟩⟩)

end Ranges

section Verdicts

variable {u : Text.Unicode} {lib : Libraries} {resolve : List Char → Except (List Char) (List IpAddr)}
  {url host : List Char} {parsed : Url}

/-- A text that opens a bracket is no address. -/
private theorem parse_bracket (text : List Char) : IpAddr.parse ('[' :: text) = none := by
  have hdigits (base n : Nat) : IpAddr.leadingDigits base n ('[' :: text) = [] := by
    cases n with
    | zero => rfl
    | succ n => rfl
  have hnumber (base digits bound : Nat) (zeros : Bool) :
      IpAddr.readNumber base digits bound zeros ('[' :: text) = none := by
    simp [IpAddr.readNumber, hdigits]
  have hipv4 : IpAddr.readIpv4 ('[' :: text) = none := by
    simp [IpAddr.readIpv4, IpAddr.readSeparator, hnumber]
  have hgroups : IpAddr.readGroups 8 8 0 ('[' :: text) = ([], false, '[' :: text) := by
    simp [IpAddr.readGroups, IpAddr.readSeparator, hipv4, hnumber]
  have hipv6 : IpAddr.readIpv6 ('[' :: text) = none := by
    simp [IpAddr.readIpv6, hgroups, IpAddr.readChar]
  simp [IpAddr.parse, hipv4, hipv6]

private theorem readIpv4_of_parse {o : Vector UInt8 4} (h : IpAddr.parse host = some (.v4 o)) :
    IpAddr.readIpv4 host = some (o, []) := by
  unfold IpAddr.parse at h
  split at h
  · next heq =>
    cases h
    exact heq
  · cases h
  · split at h <;> cases h

private theorem readIpv6_of_parse {s : Vector UInt16 8} (h : IpAddr.parse host = some (.v6 s)) :
    IpAddr.readIpv6 host = some (s, []) := by
  unfold IpAddr.parse at h
  split at h
  · cases h
  · cases h
  · split at h
    · next heq =>
      cases h
      exact heq
    · cases h

private theorem stripBrackets_open {text : List Char} : stripBrackets ('[' :: text ++ [']']) = text := by
  simp [stripBrackets]

private theorem stripBrackets_plain (h : host.head? ≠ some '[') : stripBrackets host = host := by
  unfold stripBrackets
  split
  · exact absurd rfl h
  · rfl

private theorem head_ne_of_parse {ip : IpAddr} (h : IpAddr.parse host = some ip) :
    host.head? ≠ some '[' := by
  intro hhead
  obtain ⟨text, rfl⟩ : ∃ text, host = '[' :: text := List.head?_eq_some_iff.mp hhead
  rw [parse_bracket] at h
  cases h

private theorem socketLiteral_plain (h : host.head? ≠ some '[') : socketLiteral host =
    match IpAddr.readIpv4 host with
    | some (octets, []) => some (.v4 octets)
    | _ => none := by
  unfold socketLiteral
  split
  · exact absurd rfl h
  · rfl

/-- As part of a socket address a host is the address that it is written as. -/
private theorem socketLiteral_of_form (h : HostForm host) : socketLiteral host = literal host := by
  cases h with
  | name _ hname hopen =>
    rw [socketLiteral_plain hopen, literal, stripBrackets_plain hopen, hname]
    split
    · next octets heq => simp [IpAddr.parse, heq] at hname
    · rfl
  | ipv4 _ o haddr =>
    have hopen := head_ne_of_parse haddr
    rw [socketLiteral_plain hopen, literal, stripBrackets_plain hopen, readIpv4_of_parse haddr, haddr]
  | ipv6 text s haddr =>
    rw [literal, stripBrackets_open, haddr]
    simp only [socketLiteral, List.cons_append]
    rw [← List.cons_append, stripBrackets_open, readIpv6_of_parse haddr]

/-- On its own a host is the address that it is written as, or none if that is in brackets. -/
private theorem parse_of_form (h : HostForm host) :
    IpAddr.parse host = none ∨ IpAddr.parse host = literal host := by
  cases h with
  | name _ hname hopen => exact .inl hname
  | ipv4 _ o haddr =>
    rw [literal, stripBrackets_plain (head_ne_of_parse haddr)]
    exact .inr rfl
  | ipv6 text s haddr => exact .inl (parse_bracket _)

private theorem toSocketAddrs_of_form (h : HostForm host) : toSocketAddrs resolve host = lookup resolve host := by
  have hform := socketLiteral_of_form h
  unfold toSocketAddrs lookup
  cases hliteral : literal host with
  | none => simp only [hform, hliteral]
  | some addr => simp only [hform, hliteral]

/-- The built-in tool accepts a host that does not name the machine itself, unless one of its addresses is
disallowed. -/
private theorem validateUrl_ok_iff (hparse : lib.parseUrl url = .ok parsed)
    (hscheme : parsed.scheme = "https".toList) (huser : parsed.hasUserinfo = false)
    (hhost : parsed.host = some host) (hform : HostForm host) :
    (∃ accepted, validateUrl lib.unicode lib.parseUrl resolve url = .ok accepted) ↔
      isLocalhost lib.unicode host = false ∧
        ∀ addrs, lookup resolve host = .ok addrs → ∀ ip ∈ addrs, isDisallowedIp ip = false := by
  unfold validateUrl
  simp only [hparse, hscheme, huser, hhost, ne_eq, not_true_eq_false, if_false, Bool.false_eq_true]
  rw [toSocketAddrs_of_form hform]
  cases hlocal : isLocalhost lib.unicode host with
  | true => simp
  | false =>
    have hliteral : (IpAddr.parse host).any isDisallowedIp = true →
        ∃ addrs, lookup resolve host = .ok addrs ∧ ∃ ip ∈ addrs, isDisallowedIp ip = true := by
      intro hany
      rcases parse_of_form hform with hnone | hsame
      · rw [hnone] at hany
        cases hany
      · rw [hsame] at hany
        cases hlit : literal host with
        | none =>
          rw [hlit] at hany
          cases hany
        | some ip =>
          rw [hlit] at hany
          exact ⟨[ip], by simp [lookup, hlit], ip, List.mem_singleton.mpr rfl, hany⟩
    by_cases hany : (IpAddr.parse host).any isDisallowedIp = true
    · obtain ⟨addrs, hlookup, ip, hip, hdisallowed⟩ := hliteral hany
      refine iff_of_false ?_ fun h => ?_
      · simp [hany]
      · exact absurd (hdisallowed.symm.trans (h.2 addrs hlookup ip hip)) (by decide)
    · simp only [hany, if_false, Bool.false_eq_true]
      cases hlookup : lookup resolve host with
      | error e => simp
      | ok addrs =>
        cases hfind : addrs.find? isDisallowedIp with
        | none =>
          simp only [hfind]
          refine iff_of_true ⟨parsed, rfl⟩ ⟨trivial, fun other hother ip hip => ?_⟩
          cases hother
          exact Bool.eq_false_iff.mpr (List.find?_eq_none.mp hfind ip hip)
        | some ip =>
          simp only [hfind]
          refine iff_of_false (fun ⟨_, haccepted⟩ => by cases haccepted) fun h => ?_
          have hdisallowed := List.find?_some hfind
          exact absurd (hdisallowed.symm.trans (h.2 addrs rfl ip (List.mem_of_find?_eq_some hfind)))
            (by decide)

/-- A host that is no address is resolved as it is written. -/
private theorem stripBrackets_of_name (h : HostForm host) (hnone : literal host = none) :
    stripBrackets host = host := by
  cases h with
  | name _ hname hopen => exact stripBrackets_plain hopen
  | ipv4 _ o haddr => exact stripBrackets_plain (head_ne_of_parse haddr)
  | ipv6 text s haddr =>
    rw [literal, stripBrackets_open, haddr] at hnone
    cases hnone

/-- The WASM tool accepts a host that has addresses, none of them private. -/
private theorem rejectPrivateIp_ok_iff (hparse : lib.parseUrl url = .ok parsed)
    (hscheme : parsed.scheme = "https".toList) (huser : parsed.hasUserinfo = false)
    (hhost : parsed.host = some host) (hform : HostForm host) :
    rejectPrivateIp lib resolve url = .ok () ↔
      ∃ addrs, lookup resolve host = .ok addrs ∧ addrs ≠ [] ∧ ∀ ip ∈ addrs, isPrivateIp ip = false := by
  have hsupported : (parsed.scheme ≠ "http".toList && parsed.scheme ≠ "https".toList) = false := by
    simp [hscheme]
  have hname := stripBrackets_of_name hform
  unfold rejectPrivateIp
  simp only [hparse, hsupported, huser, hhost, Bool.false_eq_true, if_false]
  unfold lookup
  unfold literal at hname ⊢
  cases hlit : IpAddr.parse (stripBrackets host) with
  | some ip =>
    cases hprivate : isPrivateIp ip with
    | true => simp [hprivate]
    | false => simp [hprivate]
  | none =>
    dsimp only
    rw [hname hlit]
    unfold rejectResolved
    cases resolve host with
    | error e => simp
    | ok addrs =>
      cases addrs with
      | nil => simp
      | cons first rest =>
        cases hfind : (first :: rest).find? isPrivateIp with
        | none =>
          have hpublic := List.find?_eq_none.mp hfind
          simp only [List.isEmpty_cons, Bool.false_eq_true, if_false, hfind, true_iff]
          exact ⟨_, rfl, List.cons_ne_nil _ _, fun ip hip => Bool.eq_false_iff.mpr (hpublic ip hip)⟩
        | some ip =>
          have hprivate := List.find?_some hfind
          simp only [List.isEmpty_cons, Bool.false_eq_true, if_false, hfind, reduceCtorEq, false_iff]
          rintro ⟨addrs, hsame, -, hpublic⟩
          cases hsame
          exact absurd (hprivate.symm.trans (hpublic ip (List.mem_of_find?_eq_some hfind))) (by decide)

/-- On a host the guards agree exactly if it is covered. -/
private theorem agree_iff_covered (hparse : lib.parseUrl url = .ok parsed)
    (hscheme : parsed.scheme = "https".toList) (huser : parsed.hasUserinfo = false)
    (hhost : parsed.host = some host) (hform : HostForm host) :
    GuardsAgree lib resolve url parsed ↔ HostCovered lib.unicode resolve host := by
  have hvalidate : (∃ accepted, validateUrl lib.unicode lib.parseUrl resolve url = .ok accepted) ↔ _ :=
    validateUrl_ok_iff hparse hscheme huser hhost hform
  have hreject : rejectPrivateIp lib resolve url = .ok () ↔ _ :=
    rejectPrivateIp_ok_iff hparse hscheme huser hhost hform
  have hsplit : GuardsAgree lib resolve url parsed ↔ _ ∧ _ := ⟨fun h => ⟨h.same, h.keptOut⟩, fun h => ⟨h.1, h.2⟩⟩
  rw [hsplit, hvalidate, hreject, hhost]
  unfold HostCovered
  cases hlocal : isLocalhost lib.unicode host with
  | true =>
    rw [if_pos rfl]
    constructor
    · rintro ⟨hsame, -⟩ addrs haddrs
      by_contra hpublic
      push Not at hpublic
      have haccepts := hsame.mpr ⟨addrs, haddrs, hpublic.1, fun ip hip =>
        Bool.eq_false_iff.mpr (hpublic.2 ip hip)⟩
      cases haccepts.1
    · intro hcovered
      have hrefuses : ¬ ∃ addrs, lookup resolve host = .ok addrs ∧ addrs ≠ [] ∧
          ∀ ip ∈ addrs, isPrivateIp ip = false := by
        rintro ⟨addrs, haddrs, hne, hpublic⟩
        rcases hcovered addrs haddrs with hempty | ⟨ip, hip, hprivate⟩
        · exact hne hempty
        · exact absurd (hprivate.symm.trans (hpublic ip hip)) (by decide)
      exact ⟨iff_of_false (fun h => by cases h.1) hrefuses, fun h => (h.elim (fun h => by cases h.1) hrefuses).elim⟩
  | false =>
    rw [if_neg Bool.false_ne_true]
    cases hlookup : lookup resolve host with
    | error e =>
      refine iff_of_false (fun h => ?_) (fun ⟨addrs, haddrs, _⟩ => by cases haddrs)
      obtain ⟨addrs, haddrs, -⟩ := h.1.mp ⟨rfl, fun addrs haddrs => by cases haddrs⟩
      cases haddrs
    | ok addrs =>
      simp only [hlookup, Except.ok.injEq, true_and, forall_eq', exists_eq_left', Option.some.injEq]
      by_cases hempty : addrs = []
      · subst hempty
        refine iff_of_false (fun h => ?_) (fun h => h.1 rfl)
        exact (h.1.mp fun ip hip => absurd hip List.not_mem_nil).1 rfl
      · simp only [ne_eq, hempty, not_false_eq_true, true_and]
        exact (covered_iff addrs).symm

/-- On a URL of the `https` scheme the guards agree exactly if it has user info or no host, or its host is
covered. -/
theorem guards_agree_iff (hparse : lib.parseUrl url = .ok parsed) (hscheme : parsed.scheme = "https".toList)
    (hform : ∀ host, parsed.host = some host → HostForm host) :
    GuardsAgree lib resolve url parsed ↔ parsed.hasUserinfo = true ∨
      ∀ host, parsed.host = some host → HostCovered lib.unicode resolve host := by
  have hsupported : (parsed.scheme ≠ "http".toList && parsed.scheme ≠ "https".toList) = false := by
    simp [hscheme]
  have hboth (hvalidate : ∀ accepted, validateUrl lib.unicode lib.parseUrl resolve url ≠ .ok accepted)
      (hreject : rejectPrivateIp lib resolve url ≠ .ok ()) : GuardsAgree lib resolve url parsed :=
    ⟨iff_of_false (fun ⟨accepted, h⟩ => hvalidate accepted h) hreject,
      fun h => (h.elim (fun ⟨accepted, h⟩ => hvalidate accepted h) hreject).elim⟩
  cases huser : parsed.hasUserinfo with
  | true =>
    refine iff_of_true (hboth (fun accepted h => ?_) fun h => ?_) (.inl rfl)
    · simp [validateUrl, hparse, hscheme, huser] at h
    · simp [rejectPrivateIp, hparse, hscheme, huser] at h
  | false =>
    simp only [Bool.false_eq_true, false_or]
    cases hhost : parsed.host with
    | none =>
      refine iff_of_true (hboth (fun accepted h => ?_) fun h => ?_) (fun host h => by cases h)
      · simp [validateUrl, hparse, hscheme, huser, hhost] at h
      · simp [rejectPrivateIp, hparse, hscheme, huser, hhost] at h
    | some host =>
      simp only [Option.some.injEq, forall_eq']
      exact agree_iff_covered hparse hscheme huser hhost (hform host hhost)

end Verdicts

section Examples

private def pageOf (host : String) : List Char := "https://".toList ++ host.toList ++ "/".toList

private def pageAt (host : String) : Url := ⟨"https".toList, [], none, some host.toList, "/".toList⟩

private def publicAddress : List Char → Except (List Char) (List IpAddr) := respondingServer.resolve

theorem guards_agree_example_com :
    GuardsAgree plainLibraries publicAddress (pageOf "example.com") (pageAt "example.com") ↔
      (pageAt "example.com").hasUserinfo = true ∨ ∀ host, (pageAt "example.com").host = some host →
        HostCovered plainLibraries.unicode publicAddress host := by
  refine guards_agree_iff (by decide +kernel) rfl fun host hhost => ?_
  cases hhost
  exact .name _ (by decide +kernel) (by decide)

/-- A shared address is let through by the built-in tool alone. -/
theorem shared_address_accepted :
    ¬ GuardsAgree plainLibraries publicAddress (pageOf "100.64.0.1") (pageAt "100.64.0.1") := by
  intro h
  have haccepted : validateUrl plainLibraries.unicode plainLibraries.parseUrl publicAddress
      (pageOf "100.64.0.1") = .ok (pageAt "100.64.0.1") := by decide +kernel
  have hrejected : rejectPrivateIp plainLibraries publicAddress (pageOf "100.64.0.1") ≠ .ok () := by
    decide +kernel
  exact hrejected (h.same.mp ⟨_, haccepted⟩)

end Examples

end Gyre.Tools.Builtin
