import GtaClaw.Security.Ssrf

/-!
# Outbound destinations

`EgressGuard.resolveUrl` takes a URL apart, checks the host against the policy, turns it
into addresses and refuses those that are not public. What it asks the DNS port is part of
the result. The URL parser is that of a library, and so is the parser of IPv6 addresses;
the library writes an IPv6 host in brackets.
-/

namespace GtaClaw.Application

open Lib Security
open Channel (Text)

/-- The schemes of outbound requests. -/
inductive Scheme where
  | https
  | http
  deriving DecidableEq

def Scheme.defaultPort : Scheme → UInt16
  | .https => 443
  | .http => 80

/-! ## What the libraries do -/

/-- `Ipv4Addr::to_string`. -/
def ipv4Text (address : Ipv4Addr) : Text :=
  ['.'].intercalate ([address.a, address.b, address.c, address.d].map fun octet =>
    Nat.toDigits 10 octet.toNat)

/-- A decimal number below 256 without leading zeros. -/
def parseOctet (text : Text) : Option UInt8 :=
  if text.all Char.isDigit ∧ 1 ≤ text.length ∧ text.length ≤ 3 ∧
      (text.length = 1 ∨ text.head? ≠ some '0') ∧ Nat.ofDigitChars 10 text 0 < 256 then
    some (UInt8.ofNat (Nat.ofDigitChars 10 text 0))
  else none

/-- `Ipv4Addr::from_str`. -/
def parseIpv4 (text : Text) : Option Ipv4Addr :=
  match (text.splitOn '.').map parseOctet with
  | [some a, some b, some c, some d] => some ⟨a, b, c, d⟩
  | _ => none

/-- What is used of the URL parser and of the standard library. -/
structure UrlLibrary where
  Url : Type
  parse : Text → Except Text Url
  scheme : Url → Text
  username : Url → Text
  password : Url → Option Text
  host : Url → Option ParsedHost
  port : Url → Option UInt16
  ipv6Text : Ipv6Addr → Text
  parseIpv6 : Text → Option Ipv6Addr

/-- `Ipv6Addr::from_str` takes no brackets. -/
def UrlLibrary.Lawful (lib : UrlLibrary) : Prop := ∀ text, lib.parseIpv6 ('[' :: text) = none

variable (lib : UrlLibrary)

/-- `Url::host_str`. -/
def UrlLibrary.hostStr (url : lib.Url) : Option Text :=
  (lib.host url).map fun
    | .domain name => name
    | .ip (.v4 address) => ipv4Text address
    | .ip (.v6 address) => '[' :: (lib.ipv6Text address ++ [']'])

/-- `IpAddr::from_str`. -/
def UrlLibrary.parseIp (text : Text) : Option IpAddr :=
  ((parseIpv4 text).map .v4).or ((lib.parseIpv6 text).map .v6)

/-! ## Requests -/

/-- `RedactedUrl::new`. -/
def redactedUrl (raw : Text) : Text :=
  match lib.parse raw with
  | .error _ => "<unparseable>".toList
  | .ok url =>
    lib.scheme url ++ "://".toList ++
      match lib.hostStr url with
      | none => "<no host>".toList
      | some host =>
        match lib.port url with
        | none => host
        | some port => host ++ ':' :: Nat.toDigits 10 port.toNat

/-- Why a destination is refused. -/
inductive EgressDenial where
  | invalidUrl (url reason : Text)
  | unsupportedScheme (scheme : Text)
  | credentialsInUrl (url : Text)
  | missingHost (url : Text)
  | plainHttpRefused (host : Text)
  | hostNotAllowed (host : Text)
  | lookupFailed (host detail : Text)
  | noAddresses (host : Text)
  | blockedAddress (host : Text) (address : IpAddr) (classification : String)
  deriving DecidableEq

def Scheme.parse (scheme : Text) : Except EgressDenial Scheme :=
  if scheme = "https".toList then .ok .https
  else if scheme = "http".toList then .ok .http
  else .error (.unsupportedScheme scheme)

/-- A destination as it is asked for. -/
structure EndpointRequest where
  scheme : Scheme
  host : Text
  port : UInt16

/-- The destination of a URL, without credentials and with a host. -/
def EndpointRequest.parse (url : Text) : Except EgressDenial EndpointRequest := do
  let parsed ← (lib.parse url).mapError (.invalidUrl (redactedUrl lib url))
  let scheme ← Scheme.parse (lib.scheme parsed)
  require ((lib.username parsed).isEmpty && (lib.password parsed).isNone)
    (.credentialsInUrl (redactedUrl lib url))
  let host ← okOr (.missingHost (redactedUrl lib url)) (lib.hostStr parsed)
  require (!host.isEmpty) (.missingHost (redactedUrl lib url))
  return ⟨scheme, toAsciiLowercase host, (lib.port parsed).getD scheme.defaultPort⟩

/-! ## Addresses -/

/-- What an address is that is not public, if it is not. -/
def classifyV4 (address : Ipv4Addr) : Option String :=
  let a := address.a
  let b := address.b
  if address = ⟨0, 0, 0, 0⟩ then some "unspecified"
  else if a = 127 then some "loopback"
  else if a = 10 ∨ a = 172 ∧ 16 ≤ b ∧ b ≤ 31 ∨ a = 192 ∧ b = 168 then some "private"
  else if a = 169 ∧ b = 254 then some "link-local"
  else if address = ⟨255, 255, 255, 255⟩ then some "broadcast"
  else if 224 ≤ a ∧ a ≤ 239 then some "multicast"
  else if a = 100 ∧ 64 ≤ b ∧ b < 128 then some "carrier-grade NAT"
  else if a = 192 ∧ b = 0 ∧ address.c = 0 then some "IETF protocol assignment"
  else if 240 ≤ a then some "reserved"
  else none

/-- The address that two segments hold. -/
def ofSegments (high low : UInt16) : Ipv4Addr :=
  ⟨(high >>> 8).toUInt8, high.toUInt8, (low >>> 8).toUInt8, low.toUInt8⟩

/-- `Ipv6Addr::to_ipv4`: an address that is mapped or compatible. -/
def toIpv4 (x : Ipv6Addr) : Option Ipv4Addr :=
  if x.s0 = 0 ∧ x.s1 = 0 ∧ x.s2 = 0 ∧ x.s3 = 0 ∧ x.s4 = 0 ∧ (x.s5 = 0 ∨ x.s5 = 0xffff) then
    some (ofSegments x.s6 x.s7)
  else none

/-- An embedded IPv4 address is classified as such. -/
def classifyV6 (x : Ipv6Addr) : Option String :=
  if x.isUnspecified then some "unspecified"
  else if x.isLoopback then some "loopback"
  else if x.isMulticast then some "multicast"
  else
    match toIpv4 x with
    | some embedded => (classifyV4 embedded).or (some "IPv4-in-IPv6")
    | none =>
      if x.s0 &&& 0xfe00 = 0xfc00 then some "unique-local"
      else if x.s0 &&& 0xffc0 = 0xfe80 then some "link-local"
      else none

/-- An address of either kind. -/
def classify : IpAddr → Option String
  | .v4 address => classifyV4 address
  | .v6 address => classifyV6 address

/-! ## The guard -/

/-- A host, or all hosts below a domain. -/
inductive HostPattern where
  | exact (host : Text)
  | suffix (domain : Text)

def HostPattern.matches : HostPattern → Text → Bool
  | .exact expected, host => expected == host
  | .suffix domain, host => ('.' :: domain).isSuffixOf host

/-- Where requests may go. -/
structure EgressPolicy where
  allowed : List HostPattern := []
  allowPlainHttp : Bool := false
  allowPrivateAddresses : Bool := false

def EgressPolicy.permitsHost (policy : EgressPolicy) (host : Text) : Bool :=
  policy.allowed.any (·.matches host)

/-- A destination with the addresses it was checked with. -/
structure ResolvedEndpoint where
  scheme : Scheme
  host : Text
  port : UInt16
  addresses : List IpAddr
  resolvedAt : Nat
  deriving DecidableEq

/-- The policy, the DNS port and the clock. -/
structure EgressGuard where
  policy : EgressPolicy
  dns : Text → Except Text (List IpAddr)
  now : Nat

namespace EgressGuard

variable (guard : EgressGuard) (request : EndpointRequest)

/-- The addresses of a host, and the hosts that were looked up for them. -/
def lookup (host : Text) : Except EgressDenial (List IpAddr) × List Text :=
  match lib.parseIp host with
  | some literal => (.ok [literal], [])
  | none => ((guard.dns host).mapError (.lookupFailed host), [host])

/-- The end of `resolve`, behind the lookup. -/
def check (addresses : List IpAddr) : Except EgressDenial ResolvedEndpoint := do
  require (!addresses.isEmpty) (.noAddresses request.host)
  addresses.forM fun address =>
    match if guard.policy.allowPrivateAddresses then none else classify address with
    | some text => .error (.blockedAddress request.host address text)
    | none => .ok ()
  return ⟨request.scheme, request.host, request.port, addresses, guard.now⟩

/-- The result, and the hosts that were looked up. -/
def resolve : Except EgressDenial ResolvedEndpoint × List Text :=
  if request.scheme = .http ∧ ¬guard.policy.allowPlainHttp then
    (.error (.plainHttpRefused request.host), [])
  else if ¬guard.policy.permitsHost request.host then (.error (.hostNotAllowed request.host), [])
  else
    let (addresses, lookups) := guard.lookup lib request.host
    (addresses >>= guard.check request, lookups)

/-- The destination of a URL, and the hosts that were looked up. -/
def resolveUrl (url : Text) : Except EgressDenial ResolvedEndpoint × List Text :=
  match EndpointRequest.parse lib url with
  | .error denial => (.error denial, [])
  | .ok request => guard.resolve lib request

end EgressGuard

/-! ## Literals -/

variable {lib} {guard : EgressGuard} {request : EndpointRequest} {endpoint : ResolvedEndpoint}

/-- What the text of an octet is made of, and that it is read back. -/
theorem octet_text (octet : UInt8) :
    parseOctet (Nat.toDigits 10 octet.toNat) = some octet ∧ '.' ∉ Nat.toDigits 10 octet.toNat ∧
      (Nat.toDigits 10 octet.toNat).map Char.toLower = Nat.toDigits 10 octet.toNat := by
  have hall : ∀ n < 256, parseOctet (Nat.toDigits 10 n) = some (UInt8.ofNat n) ∧
      '.' ∉ Nat.toDigits 10 n ∧ (Nat.toDigits 10 n).map Char.toLower = Nat.toDigits 10 n := by
    decide +kernel
  have h := hall octet.toNat octet.toNat_lt
  rwa [UInt8.ofNat_toNat] at h

theorem parseIpv4_ipv4Text (address : Ipv4Addr) : parseIpv4 (ipv4Text address) = some address := by
  rw [parseIpv4, ipv4Text, List.splitOn_intercalate _ (by simp [octet_text]) (by simp)]
  simp [octet_text]

theorem toAsciiLowercase_ipv4Text (address : Ipv4Addr) :
    toAsciiLowercase (ipv4Text address) = ipv4Text address := by
  simp [toAsciiLowercase, ipv4Text, List.intercalate, octet_text]

theorem parseIpv4_bracket (text : Text) : parseIpv4 ('[' :: text) = none := by
  obtain ⟨first, rest, htext⟩ := List.exists_cons_of_ne_nil (List.splitOnP_ne_nil (· == '.') text)
  have hsplit : ('[' :: text).splitOn '.' = ('[' :: first) :: rest := by
    rw [List.splitOn_eq_splitOnP, List.splitOnP_cons_eq_if_modifyHead, htext]
    rfl
  have hnone : parseOctet ('[' :: first) = none := if_neg (by simp)
  simp [parseIpv4, hsplit, hnone]

/-- `resolve_url` refuses before it asks for an address: the URL is no request, or the policy
does not let its scheme or its host through. -/
def EgressGuard.RefusesUnresolved (guard : EgressGuard) (lib : UrlLibrary) (url : Text) : Prop :=
  ∀ request, EndpointRequest.parse lib url = .ok request →
    request.scheme = .http ∧ ¬guard.policy.allowPlainHttp ∨ ¬guard.policy.permitsHost request.host

theorem parse_host {url : Text} {parsed : lib.Url} (hparse : lib.parse url = .ok parsed)
    (h : EndpointRequest.parse lib url = .ok request) :
    (lib.hostStr parsed).map toAsciiLowercase = some request.host := by
  obtain ⟨_, hurl, h⟩ := bind_ok h
  rw [hparse] at hurl
  cases hurl
  obtain ⟨_, -, h⟩ := bind_ok h
  obtain ⟨_, -, h⟩ := bind_ok h
  obtain ⟨host, htext, h⟩ := bind_ok h
  obtain ⟨_, -, h⟩ := bind_ok h
  cases h
  rw [okOr_ok htext]
  rfl

/-- What is not refused is looked up. -/
theorem resolve_permitted (h : ¬(request.scheme = .http ∧ ¬guard.policy.allowPlainHttp ∨
      ¬guard.policy.permitsHost request.host)) :
    guard.resolve lib request = ((guard.lookup lib request.host).1 >>= guard.check request,
      (guard.lookup lib request.host).2) := by
  rw [not_or] at h
  rw [EgressGuard.resolve, if_neg h.1, if_neg h.2]

theorem resolve_refused (h : request.scheme = .http ∧ ¬guard.policy.allowPlainHttp ∨
      ¬guard.policy.permitsHost request.host) :
    ∃ denial, guard.resolve lib request = (.error denial, []) := by
  unfold EgressGuard.resolve
  split_ifs with hscheme hhost
  · exact ⟨_, rfl⟩
  · exact absurd h (not_or.mpr ⟨hscheme, not_not.mpr hhost⟩)
  · exact ⟨_, rfl⟩

/-- Every address of the lookup is looked at. -/
theorem check_ok {addresses : List IpAddr} (h : guard.check request addresses = .ok endpoint) :
    endpoint.addresses = addresses ∧ (guard.policy.allowPrivateAddresses = false →
      ∀ address ∈ addresses, classify address = none) := by
  obtain ⟨_, -, h⟩ := bind_ok h
  obtain ⟨_, hall, h⟩ := bind_ok h
  cases h
  refine ⟨rfl, fun hpublic address hmem => ?_⟩
  have hone := forM_ok_iff.mp hall address hmem
  rw [hpublic] at hone
  cases hclass : classify address with
  | none => rfl
  | some text => simp [hclass] at hone

theorem resolve_ok (h : (guard.resolve lib request).1 = .ok endpoint) :
    (guard.lookup lib request.host).1 = .ok endpoint.addresses ∧
      (guard.policy.allowPrivateAddresses = false →
        ∀ address ∈ endpoint.addresses, classify address = none) := by
  by_cases hrefused : request.scheme = .http ∧ ¬guard.policy.allowPlainHttp ∨
      ¬guard.policy.permitsHost request.host
  · obtain ⟨denial, hresolve⟩ := @resolve_refused lib _ _ hrefused
    rw [hresolve] at h
    cases h
  · rw [resolve_permitted hrefused] at h
    obtain ⟨addresses, hfound, hcheck⟩ := bind_ok h
    obtain ⟨rfl, hpublic⟩ := check_ok hcheck
    exact ⟨hfound, hpublic⟩

/-- A host in brackets is taken for a name. -/
theorem lookup_bracket (hlaw : lib.Lawful) {text : Text} :
    (guard.lookup lib ('[' :: text)).2 = ['[' :: text] := by
  simp [EgressGuard.lookup, UrlLibrary.parseIp, parseIpv4_bracket, hlaw text]

/-- **When a URL with an address for its host is decided without a lookup**: exactly if the
address is one of IPv4, or the URL is refused before it comes to that. -/
theorem literal_not_looked_up_iff (hlaw : lib.Lawful) {url : Text} {parsed : lib.Url}
    {address : IpAddr} (hparse : lib.parse url = .ok parsed)
    (hhost : lib.host parsed = some (.ip address)) :
    ((guard.resolveUrl lib url).2 = [] ∧ ∀ endpoint,
        (guard.resolveUrl lib url).1 = .ok endpoint → endpoint.addresses = [address]) ↔
      (∃ v4, address = .v4 v4) ∨ guard.RefusesUnresolved lib url := by
  unfold EgressGuard.resolveUrl EgressGuard.RefusesUnresolved
  cases hrequest : EndpointRequest.parse lib url with
  | error denial => exact ⟨fun _ => .inr nofun, fun _ => ⟨rfl, nofun⟩⟩
  | ok request =>
    dsimp only
    by_cases hrefused : request.scheme = .http ∧ ¬guard.policy.allowPlainHttp ∨
        ¬guard.policy.permitsHost request.host
    · obtain ⟨denial, hresolve⟩ := @resolve_refused lib _ _ hrefused
      rw [hresolve]
      refine ⟨fun _ => .inr fun other hother => ?_, fun _ => ⟨rfl, nofun⟩⟩
      cases hother
      exact hrefused
    rw [resolve_permitted hrefused]
    have hname := parse_host hparse hrequest
    rw [UrlLibrary.hostStr, hhost] at hname
    cases address with
    | v4 address =>
      have htext : request.host = ipv4Text address := by
        rw [← toAsciiLowercase_ipv4Text]
        exact (Option.some.inj hname).symm
      have hlookup : guard.lookup lib request.host = (.ok [.v4 address], []) := by
        rw [htext, EgressGuard.lookup, UrlLibrary.parseIp, parseIpv4_ipv4Text]
        rfl
      rw [hlookup]
      refine ⟨fun _ => .inl ⟨address, rfl⟩, fun _ => ⟨rfl, fun endpoint h => ?_⟩⟩
      have hcheck : guard.check request [.v4 address] = .ok endpoint := h
      exact (check_ok hcheck).1
    | v6 address =>
      obtain ⟨text, htext⟩ : ∃ text, request.host = '[' :: text := ⟨_, (Option.some.inj hname).symm⟩
      rw [htext, lookup_bracket hlaw]
      refine ⟨fun hnever => absurd hnever.1 (List.cons_ne_nil _ _), fun h => ?_⟩
      obtain ⟨v4, h⟩ | h := h
      · cases h
      · exact absurd (h request rfl) hrefused

/-- `2606:4700::1111`. -/
def publicV6 : Ipv6Addr := ⟨0x2606, 0x4700, 0, 0, 0, 0, 0, 0x1111⟩

/-- A library that knows one URL, with the host it is given. -/
def oneUrl (host : ParsedHost) : UrlLibrary where
  Url := Unit
  parse _ := .ok ()
  scheme _ := "https".toList
  username _ := []
  password _ := none
  host _ := some host
  port _ := none
  ipv6Text _ := "2606:4700::1111".toList
  parseIpv6 text := if text = "2606:4700::1111".toList then some publicV6 else none

def publicV4 : Ipv4Addr := ⟨1, 1, 1, 1⟩

/-- The policy allows one host, and the resolver answers with one address. -/
def oneHost (host : String) (answer : IpAddr) : EgressGuard :=
  ⟨{ allowed := [.exact host.toList] }, fun _ => .ok [answer], 0⟩

theorem oneUrl_lawful (host : ParsedHost) : (oneUrl host).Lawful := by
  intro text
  have hne : '[' :: text ≠ "2606:4700::1111".toList := by
    intro heq
    have hhead : some '[' = "2606:4700::1111".toList.head? := congrArg List.head? heq
    exact absurd hhead (by decide)
  change (if '[' :: text = "2606:4700::1111".toList then some publicV6 else none) = none
  rw [if_neg hne]

theorem literal_not_looked_up_iff_public :
    ((oneHost "1.1.1.1" (.v4 publicV4)).resolveUrl (oneUrl (.ip (.v4 publicV4))) []).2 = [] :=
  ((literal_not_looked_up_iff (oneUrl_lawful _) rfl rfl).mpr (.inl ⟨publicV4, rfl⟩)).1

/-- The brackets of an IPv6 host are not taken off, and the resolver decides where it is. -/
theorem ipv6_literal_looked_up :
    (oneHost "[2606:4700::1111]" (.v4 publicV4)).resolveUrl
        (oneUrl (.ip (.v6 publicV6))) "https://[2606:4700::1111]/".toList =
      (.ok ⟨.https, "[2606:4700::1111]".toList, 443, [.v4 publicV4], 0⟩,
        ["[2606:4700::1111]".toList]) := by
  decide +kernel

/-! ## Embedded addresses -/

/-- `64:ff9b::/96`. -/
def Nat64 (x : Ipv6Addr) : Prop :=
  x.s0 = 0x64 ∧ x.s1 = 0xff9b ∧ x.s2 = 0 ∧ x.s3 = 0 ∧ x.s4 = 0 ∧ x.s5 = 0

/-- The IPv4 address of an IPv6 address: mapped or compatible, behind NAT64, or of 6to4. -/
inductive Embeds (x : Ipv6Addr) : Ipv4Addr → Prop where
  | plain {address : Ipv4Addr} (h : toIpv4 x = some address) : Embeds x address
  | nat64 (h : Nat64 x) : Embeds x (ofSegments x.s6 x.s7)
  | sixToFour (h : x.s0 = 0x2002) : Embeds x (ofSegments x.s1 x.s2)

theorem toIpv4_of_classifyV6 {x : Ipv6Addr} (h : classifyV6 x = none) : toIpv4 x = none := by
  cases hembedded : toIpv4 x with
  | none => rfl
  | some embedded =>
    simp only [classifyV6, hembedded] at h
    split_ifs at h
    cases hclass : classifyV4 embedded <;> simp [hclass] at h

/-- No address of NAT64 or 6to4 in the answer embeds an IPv4 address that is refused. -/
def SafeAnswer (addresses : List IpAddr) : Prop :=
  ∀ x, .v6 x ∈ addresses → (Nat64 x → classifyV4 (ofSegments x.s6 x.s7) = none) ∧
    (x.s0 = 0x2002 → classifyV4 (ofSegments x.s1 x.s2) = none)

/-- **When no refused IPv4 address is reached**, as it is or inside an IPv6 address, with public
addresses only: exactly if no address of NAT64 or 6to4 that the host or the resolver gives
embeds one. -/
theorem no_embedded_ipv4_iff (hpublic : guard.policy.allowPrivateAddresses = false)
    (h : (guard.resolve lib request).1 = .ok endpoint) :
    ((∀ address, .v4 address ∈ endpoint.addresses → classifyV4 address = none) ∧
      ∀ x, .v6 x ∈ endpoint.addresses → ∀ address, Embeds x address → classifyV4 address = none) ↔
      ∀ addresses, (guard.lookup lib request.host).1 = .ok addresses → SafeAnswer addresses := by
  obtain ⟨hlookup, hclassified⟩ := resolve_ok h
  have hnone := hclassified hpublic
  constructor
  · rintro ⟨-, hembeds⟩ addresses hanswer x hx
    cases hlookup.symm.trans hanswer
    exact ⟨fun hnat => hembeds x hx _ (.nat64 hnat), fun hsix => hembeds x hx _ (.sixToFour hsix)⟩
  · intro hsafe
    refine ⟨fun address hmem => hnone _ hmem, fun x hx address hembeds => ?_⟩
    obtain ⟨hnat, hsix⟩ := hsafe _ hlookup x hx
    cases hembeds with
    | plain hplain => cases (toIpv4_of_classifyV6 (hnone _ hx)).symm.trans hplain
    | nat64 h => exact hnat h
    | sixToFour h => exact hsix h

def exampleRequest : EndpointRequest := ⟨.https, "api.example.com".toList, 443⟩

/-- `64:ff9b::808:808`, which embeds 8.8.8.8. -/
def nat64Public : Ipv6Addr := ⟨0x64, 0xff9b, 0, 0, 0, 0, 0x808, 0x808⟩

theorem no_embedded_ipv4_iff_answer :
    ((oneHost "api.example.com" (.v6 nat64Public)).resolve (oneUrl (.domain [])) exampleRequest).1 =
        .ok ⟨.https, "api.example.com".toList, 443, [.v6 nat64Public], 0⟩ ∧
      ∀ address, Embeds nat64Public address → classifyV4 address = none := by
  have hok : ((oneHost "api.example.com" (.v6 nat64Public)).resolve (oneUrl (.domain []))
      exampleRequest).1 = .ok ⟨.https, "api.example.com".toList, 443, [.v6 nat64Public], 0⟩ := by
    decide +kernel
  refine ⟨hok, ((no_embedded_ipv4_iff rfl hok).mpr fun addresses h x hx => ?_).2 nat64Public (by simp)⟩
  have hlookup := (resolve_ok hok).1
  cases hlookup.symm.trans h
  obtain rfl : x = nat64Public := by simpa using hx
  exact ⟨fun _ => by decide, fun h => absurd h (by decide)⟩

def nat64Loopback : Ipv6Addr := ⟨0x64, 0xff9b, 0, 0, 0, 0, 0x7f00, 1⟩

/-- The loopback address behind NAT64 is reached. -/
theorem nat64_loopback_reached :
    ((oneHost "api.example.com" (.v6 nat64Loopback)).resolve (oneUrl (.domain [])) exampleRequest).1 =
        .ok ⟨.https, "api.example.com".toList, 443, [.v6 nat64Loopback], 0⟩ ∧
      Embeds nat64Loopback ⟨127, 0, 0, 1⟩ ∧ classifyV4 ⟨127, 0, 0, 1⟩ = some "loopback" :=
  ⟨by decide +kernel, .nat64 ⟨rfl, rfl, rfl, rfl, rfl, rfl⟩, by decide⟩

end GtaClaw.Application
