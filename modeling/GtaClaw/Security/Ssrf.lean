import GtaClaw.Channel.Text
import GtaClaw.Lib.Strings

/-!
# Targets of outgoing requests

`validateTarget` parses a URL, refuses what could disguise the host, and keeps the
canonical text, host and port. `validateResolution` looks at every address that
the name resolves to, `validateRedirect` resolves a location and puts the result
through `validateTarget` from the start.

The URL parser and the text form of addresses are those of libraries, so they are
parameters. One thing about them is assumed: setting the canonical name of a
domain as the host makes it the host.
-/

namespace GtaClaw.Security

open Lib
open Channel (Text utf8Len isWhitespace)

/-- `char::is_control`. -/
def isControl (c : Char) : Bool := c.toNat < 0x20 || (0x7f ≤ c.toNat && c.toNat ≤ 0x9f)

def isAsciiDigit (c : Char) : Bool := '0' ≤ c && c ≤ '9'

def isAsciiHexdigit (c : Char) : Bool :=
  isAsciiDigit c || ('a' ≤ c && c ≤ 'f') || ('A' ≤ c && c ≤ 'F')

/-- `str::to_ascii_lowercase`. -/
def toAsciiLowercase (text : Text) : Text := text.map Char.toLower

theorem toLower_toLower (c : Char) : c.toLower.toLower = c.toLower := by
  unfold Char.toLower
  split
  · rename_i hupper
    rw [dif_neg]
    intro hagain
    have hlow : 65 ≤ c.val.toNat := UInt32.le_iff_toNat_le.mp hupper.1
    have hhigh : c.val.toNat ≤ 90 := UInt32.le_iff_toNat_le.mp hupper.2
    have hmoved : (c.val.toNat + 32) % 2 ^ 32 ≤ 90 := UInt32.le_iff_toNat_le.mp hagain.2
    omega
  · rfl

theorem toAsciiLowercase_idem (text : Text) :
    toAsciiLowercase (toAsciiLowercase text) = toAsciiLowercase text := by
  rw [toAsciiLowercase, toAsciiLowercase, List.map_map]
  exact List.map_congr_left (fun c _ => toLower_toLower c)

/-- `str::strip_suffix`, or the text as it is. -/
def stripDot (text : Text) : Text := if text.getLast? = some '.' then text.dropLast else text

inductive TargetError where
  | invalidUrl
  | unsupportedScheme
  | missingHost
  | userInfoForbidden
  | fragmentForbidden
  | invalidPort
  | invalidHost
  | blockedHost
  | blockedAddress
  | ambiguousIpLiteral
  | hostNotAllowlisted
  deriving DecidableEq, Repr

def TargetError.message : TargetError → String
  | .invalidUrl => "invalid target URL"
  | .unsupportedScheme => "unsupported target scheme"
  | .missingHost => "target host is required"
  | .userInfoForbidden => "target userinfo is forbidden"
  | .fragmentForbidden => "target fragment is forbidden"
  | .invalidPort => "invalid target port"
  | .invalidHost => "invalid target host"
  | .blockedHost => "target host is blocked"
  | .blockedAddress => "target address is blocked"
  | .ambiguousIpLiteral => "ambiguous IP literal is forbidden"
  | .hostNotAllowlisted => "target host is not allowlisted"

inductive ResolutionError where
  | noAddresses
  | blockedAddress
  | literalAddressMismatch
  deriving DecidableEq, Repr

def ResolutionError.message : ResolutionError → String
  | .noAddresses => "DNS resolution returned no addresses"
  | .blockedAddress => "DNS resolution returned a blocked address"
  | .literalAddressMismatch => "resolved address does not match target literal"

/-! ## Addresses -/

structure Ipv4Addr where
  (a b c d : UInt8)
  deriving DecidableEq, Repr

/-- The eight segments of an address. -/
structure Ipv6Addr where
  (s0 s1 s2 s3 s4 s5 s6 s7 : UInt16)
  deriving DecidableEq, Repr

inductive IpAddr where
  | v4 (address : Ipv4Addr)
  | v6 (address : Ipv6Addr)
  deriving DecidableEq, Repr

def blockedIpv4 (address : Ipv4Addr) : Bool :=
  let a := address.a
  let b := address.b
  let c := address.c
  a == 0 || a == 10 || a == 127
    || (a == 100 && 64 ≤ b && b ≤ 127)
    || (a == 169 && b == 254)
    || (a == 172 && 16 ≤ b && b ≤ 31)
    || (a == 192 && b == 0 && c == 0)
    || (a == 192 && b == 0 && c == 2)
    || (a == 192 && b == 88 && c == 99)
    || (a == 192 && b == 168)
    || (a == 198 && (b == 18 || b == 19))
    || (a == 198 && b == 51 && c == 100)
    || (a == 203 && b == 0 && c == 113)
    || 224 ≤ a

namespace Ipv6Addr

def isUnspecified (x : Ipv6Addr) : Bool := x == ⟨0, 0, 0, 0, 0, 0, 0, 0⟩

def isLoopback (x : Ipv6Addr) : Bool := x == ⟨0, 0, 0, 0, 0, 0, 0, 1⟩

def isMulticast (x : Ipv6Addr) : Bool := x.s0 &&& 0xff00 == 0xff00

/-- `to_ipv4_mapped` finds an address. -/
def isIpv4Mapped (x : Ipv6Addr) : Bool :=
  x.s0 == 0 && x.s1 == 0 && x.s2 == 0 && x.s3 == 0 && x.s4 == 0 && x.s5 == 0xffff

end Ipv6Addr

def blockedIpv6 (x : Ipv6Addr) : Bool :=
  x.isUnspecified || x.isLoopback || x.isMulticast || x.isIpv4Mapped
    || x.s0 &&& 0xfe00 == 0xfc00
    || x.s0 &&& 0xffc0 == 0xfe80
    || x.s0 &&& 0xffc0 == 0xfec0
    || (x.s0 == 0x0064 && x.s1 == 0xff9b && x.s2 == 0 && x.s3 == 0 && x.s4 == 0 && x.s5 == 0)
    || (x.s0 == 0x0064 && x.s1 == 0xff9b && x.s2 == 1)
    || (x.s0 == 0x0100 && x.s1 == 0 && x.s2 == 0 && x.s3 == 0)
    || (x.s0 == 0x2001 && x.s1 ≤ 0x01ff)
    || (x.s0 == 0x2001 && x.s1 == 0x0db8)
    || x.s0 == 0x2002
    || (x.s0 == 0x3fff && x.s1 &&& 0xf000 == 0)
    || x.s0 == 0x5f00
    || (x.s0 == 0 && x.s1 == 0 && x.s2 == 0 && x.s3 == 0 && x.s4 == 0 && x.s5 == 0)

def validatePublicAddress : IpAddr → Except TargetError Unit
  | .v4 address => if blockedIpv4 address then .error .blockedAddress else .ok ()
  | .v6 address => if blockedIpv6 address then .error .blockedAddress else .ok ()

/-! ## Hosts -/

def validLabel (label : Text) : Bool :=
  !(label.isEmpty || utf8Len label > 63 || label.head? == some '-' || label.getLast? == some '-'
    || !label.all fun c => c.isAlphanum || c == '-')

def canonicalizeDnsName (value : Text) : Except TargetError Text :=
  let canonical := toAsciiLowercase (stripDot value)
  if canonical.isEmpty || utf8Len canonical > 253 || !canonical.contains '.' then
    .error .invalidHost
  else if canonical == "localhost".toList || ".localhost".toList.isSuffixOf canonical then
    .error .blockedHost
  else if (canonical.splitOn '.').all validLabel then .ok canonical
  else .error .invalidHost

/-- A host as the parser sees it. -/
inductive ParsedHost where
  | domain (name : Text)
  | ip (address : IpAddr)
  deriving DecidableEq, Repr

/-- What the libraries provide. -/
structure NetLibrary where
  Url : Type
  parse : Text → Option Url
  join : Url → Text → Option Url
  text : Url → Text
  scheme : Url → Text
  username : Url → Text
  password : Url → Option Text
  fragment : Url → Option Text
  host : Url → Option ParsedHost
  setHost : Url → Text → Option Url
  portOrKnownDefault : Url → Option UInt16
  /-- `Ipv4Addr::from_str` accepts the text. -/
  isIpv4Text : Text → Bool
  ipText : IpAddr → Text
  /-- A domain that is replaced by its canonical name is that name. -/
  host_setHost : ∀ url url' domain name, host url = some (.domain domain) →
    canonicalizeDnsName domain = .ok name → setHost url name = some url' →
    host url' = some (.domain name)

def looksLikeNoncanonicalIpv4 (host : Text) : Bool :=
  let host := stripDot host
  if host.all isAsciiDigit then true
  else
    (host.splitOn '.').all fun label =>
      let numeric := label.all isAsciiDigit
      let hexadecimal :=
        (("0x".toList.isPrefixOf? label).or ("0X".toList.isPrefixOf? label)).any fun digits =>
          !digits.isEmpty && digits.all isAsciiHexdigit
      numeric || hexadecimal

/-- The host of an authority without brackets, empty if the port is malformed. -/
def rawHost (authority : Text) : Text :=
  match rsplitOnce ':' authority with
  | none => authority
  | some (host, port) => if port.isEmpty || !port.all isAsciiDigit then [] else host

variable (lib : NetLibrary)

def authorityHost : Text → Except TargetError Text
  | '[' :: bracketed => do
    let (host, suffix) ← okOr .invalidHost (splitOnce [']'] bracketed)
    let wellFormed := suffix.isEmpty || (suffix.head? == some ':' && suffix.length != 1
      && suffix.tail.all isAsciiDigit)
    require wellFormed .invalidPort
    return host
  | authority => do
    require (authority.count ':' ≤ 1) .invalidHost
    return rawHost authority

def validateRawAuthority (input : Text) : Except TargetError Unit := do
  let (scheme, remainder) ← okOr .invalidUrl (splitOnce "://".toList input)
  require (toAsciiLowercase scheme == "http".toList || toAsciiLowercase scheme == "https".toList)
    .unsupportedScheme
  let authority := remainder.takeWhile fun c => !(c == '/' || c == '?' || c == '#')
  require (!authority.isEmpty) .missingHost
  require (!authority.contains '@') .userInfoForbidden
  require (!authority.contains '%') .ambiguousIpLiteral
  let host ← authorityHost authority
  require (!host.isEmpty) .invalidPort
  require (!looksLikeNoncanonicalIpv4 host || lib.isIpv4Text host) .ambiguousIpLiteral

/-! ## Targets -/

inductive TargetPolicy where
  | publicInternet
  | exactHosts (hosts : List Text)

def TargetPolicy.allows : TargetPolicy → Text → Bool
  | .publicInternet, _ => true
  | .exactHosts hosts, host => hosts.contains host

inductive TargetHost where
  | dns (name : Text)
  | ip (address : IpAddr)
  deriving DecidableEq, Repr

def TargetHost.asStr : TargetHost → Text
  | .dns name => name
  | .ip address => lib.ipText address

structure ValidatedTarget where
  canonicalUrl : Text
  host : TargetHost
  port : UInt16
  deriving DecidableEq, Repr

/-- The host, and the URL with its canonical name. -/
def canonicalHost (url : lib.Url) : Except TargetError (lib.Url × TargetHost) :=
  match lib.host url with
  | none => .error .missingHost
  | some (.domain domain) =>
    match canonicalizeDnsName domain with
    | .error error => .error error
    | .ok name =>
      match lib.setHost url name with
      | none => .error .invalidHost
      | some url' => .ok (url', .dns name)
  | some (.ip address) =>
    match validatePublicAddress address with
    | .error error => .error error
    | .ok () => .ok (url, .ip address)

def validateTarget (input : Text) (policy : TargetPolicy) : Except TargetError ValidatedTarget := do
  validateRawAuthority lib input
  require (!(input.any isWhitespace || input.any isControl)) .invalidUrl
  let url ← okOr .invalidUrl (lib.parse input)
  require (lib.scheme url == "http".toList || lib.scheme url == "https".toList) .unsupportedScheme
  require ((lib.username url).isEmpty && (lib.password url).isNone) .userInfoForbidden
  require (lib.fragment url).isNone .fragmentForbidden
  let (url', host) ← canonicalHost lib url
  require (policy.allows (host.asStr lib)) .hostNotAllowlisted
  let port ← okOr .invalidPort (lib.portOrKnownDefault url')
  require (port != 0) .invalidPort
  return ⟨lib.text url', host, port⟩

def ValidatedTarget.validateResolution (target : ValidatedTarget) (addresses : List IpAddr) :
    Except ResolutionError Unit :=
  if addresses.isEmpty then .error .noAddresses
  else
    addresses.forM fun address =>
      match validatePublicAddress address with
      | .error _ => .error .blockedAddress
      | .ok () =>
        match target.host with
        | .ip expected => if address ≠ expected then .error .literalAddressMismatch else .ok ()
        | .dns _ => .ok ()

def validateRedirect (current : ValidatedTarget) (location : Text) (policy : TargetPolicy) :
    Except TargetError ValidatedTarget := do
  let base ← okOr .invalidUrl (lib.parse current.canonicalUrl)
  let destination ← okOr .invalidUrl (lib.join base location)
  validateTarget lib (lib.text destination) policy

/-! ## What a validated target is -/

variable {lib} {target : ValidatedTarget}

/-- The canonical text is that of a URL with the validated host. -/
theorem host_of_canonicalHost {url url' : lib.Url} {host : TargetHost}
    (h : canonicalHost lib url = .ok (url', host)) :
    (∃ name, host = .dns name ∧ lib.host url' = some (.domain name)) ∨
      ∃ address, host = .ip address ∧ lib.host url' = some (.ip address) ∧
        validatePublicAddress address = .ok () := by
  unfold canonicalHost at h
  split at h
  · cases h
  · rename_i domain hdomain
    split at h
    · cases h
    rename_i name hname
    split at h
    · cases h
    rename_i url'' hset
    cases h
    exact .inl ⟨name, rfl, lib.host_setHost _ _ _ _ hdomain hname hset⟩
  · rename_i address haddress
    split at h
    · cases h
    rename_i hpublic
    cases h
    exact .inr ⟨address, rfl, haddress, hpublic⟩

/-- The text of a host, as the parser sees it. -/
def ParsedHost.text (lib : NetLibrary) : ParsedHost → Text
  | .domain name => name
  | .ip address => lib.ipText address

theorem validateTarget_url {input : Text} {policy : TargetPolicy}
    (h : validateTarget lib input policy = .ok target) :
    ∃ url url', lib.parse input = some url ∧ canonicalHost lib url = .ok (url', target.host) ∧
      target.canonicalUrl = lib.text url' := by
  obtain ⟨_, -, h⟩ := bind_ok h
  obtain ⟨_, -, h⟩ := bind_ok h
  obtain ⟨url, hurl, h⟩ := bind_ok h
  obtain ⟨_, -, h⟩ := bind_ok h
  obtain ⟨_, -, h⟩ := bind_ok h
  obtain ⟨_, -, h⟩ := bind_ok h
  obtain ⟨⟨url', host⟩, hhost, h⟩ := bind_ok h
  obtain ⟨_, -, h⟩ := bind_ok h
  obtain ⟨port, -, h⟩ := bind_ok h
  obtain ⟨_, -, h⟩ := bind_ok h
  cases h
  exact ⟨url, url', okOr_ok hurl, hhost, rfl⟩

theorem validateTarget_ok {input : Text} {policy : TargetPolicy}
    (h : validateTarget lib input policy = .ok target) :
    ∃ url, target.canonicalUrl = lib.text url ∧
      (lib.host url).map (ParsedHost.text lib) = some (target.host.asStr lib) := by
  obtain ⟨_, url', -, hhost, htext⟩ := validateTarget_url h
  refine ⟨url', htext, ?_⟩
  rcases host_of_canonicalHost hhost with ⟨name, heq, hname⟩ | ⟨address, heq, haddress, -⟩
  · rw [hname, heq]
    rfl
  · rw [haddress, heq]
    rfl

theorem validateResolution_ok {addresses : List IpAddr}
    (h : target.validateResolution addresses = .ok ()) :
    addresses ≠ [] ∧ ∀ address ∈ addresses, validatePublicAddress address = .ok () := by
  unfold ValidatedTarget.validateResolution at h
  split at h
  · cases h
  rename_i hne
  refine ⟨by simpa using hne, fun address hmem => ?_⟩
  have hone := forM_ok_iff.mp h address hmem
  split at hone
  · cases hone
  · assumption

end GtaClaw.Security
