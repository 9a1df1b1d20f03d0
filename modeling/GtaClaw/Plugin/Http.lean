import GtaClaw.Plugin.WriteFile
import GtaClaw.Security.Ssrf

/-!
# HTTP requests of a plugin

A plugin asks for a request, and the host sends it, follows the redirects and gives
back the last response. The servers decide where a redirect leads and the resolvers
which addresses a name has: `Hop` is what they answer on one hop, and a run is given
by an arbitrary sequence of hops.

`Contained` says of one request that it stays within the grant. Every hop checks
the target again from the start, so one step lemma carries over all redirects.
-/

namespace GtaClaw.Plugin

open Lib Security
open Channel (Text)

def forbiddenHeaders : List Text :=
  ["authorization".toList, "connection".toList, "cookie".toList, "host".toList,
    "proxy-authorization".toList, "te".toList, "transfer-encoding".toList, "upgrade".toList]

def maxHttpRedirects : Nat := 3

inductive HttpMethod where
  | get
  | head
  | post
  | put
  | patch
  | delete
  deriving DecidableEq, Repr

def HttpMethod.asStr : HttpMethod → Text
  | .get => "GET".toList
  | .head => "HEAD".toList
  | .post => "POST".toList
  | .put => "PUT".toList
  | .patch => "PATCH".toList
  | .delete => "DELETE".toList

structure HttpGrant where
  hosts : List Text
  methods : List HttpMethod
  allowPlaintext : Bool
  maxResponseBytes : Nat

def HttpGrant.allowsMethod (grant : HttpGrant) (method : Text) : Bool :=
  grant.methods.any fun candidate => candidate.asStr == method

/-- A literal host name, or `*.` and a name for exactly one label more. -/
def hostMatches (pattern host : Text) : Bool :=
  let host := toAsciiLowercase (host.rdropWhile (· == '.'))
  let pattern := toAsciiLowercase (pattern.rdropWhile (· == '.'))
  match "*.".toList.isPrefixOf? pattern with
  | some suffix =>
    match suffix.isSuffixOf? host with
    | none => false
    | some label =>
      label.getLast? == some '.' && !label.dropLast.isEmpty && !label.dropLast.contains '.'
  | none => pattern == host

structure Request where
  method : Text
  url : Text
  headers : List (Text × Text)
  body : Option (List UInt8)

structure OutboundRequest where
  method : Text
  url : Text
  host : Text
  port : UInt16
  addresses : List IpAddr
  headers : List (Text × Text)
  body : Option (List UInt8)
  deriving DecidableEq

structure InboundResponse where
  status : UInt16
  headers : List (Text × Text)
  body : List UInt8
  deriving DecidableEq

/-- What the world answers on one hop. -/
structure Hop where
  /-- The deadline of the call is available before the name is resolved. -/
  control : Bool
  dns : Except String (List IpAddr)
  /-- It is still available before the request is sent. -/
  sendControl : Bool
  http : Except String InboundResponse

structure HttpAttempt where
  target : ValidatedTarget
  response : InboundResponse

/-- What a call reads of the state of the plugin. -/
structure HttpState where
  /-- What `enter` says for this call. -/
  entry : Except String Unit
  http : Option HttpGrant
  maxPayloadBytes : Nat

/-! ## One hop -/

def isAsciiGraphic (c : Char) : Bool := '!' ≤ c && c ≤ '~'

/-- A header with its name in lower case. -/
def checkHeader (header : Text × Text) : Except DenialReason (Text × Text) := do
  let lowered := toAsciiLowercase header.1
  require (!forbiddenHeaders.contains lowered)
    (.outOfScope ("header `" ++ String.ofList lowered ++ "` is owned by the host"))
  require (!(lowered.isEmpty || !(lowered.all fun c => isAsciiGraphic c && c != ':')
      || header.2.any fun c => c == '\r' || c == '\n' || c == Char.ofNat 0))
    (.invalidArgument "header name or value is not a valid HTTP field")
  return (lowered, header.2)

variable (lib : NetLibrary)

/-- `attempt_http` up to the sending: the target and the request. -/
def prepare (grant : HttpGrant) (hop : Hop) (method url : Text) (headers : List (Text × Text))
    (body : Option (List UInt8)) : Except DenialReason (ValidatedTarget × OutboundRequest) :=
  match validateTarget lib url .publicInternet with
  | .error error => .error (.outOfScope ("target refused: " ++ error.message))
  | .ok target => do
    require (grant.allowPlaintext || "https://".toList.isPrefixOf target.canonicalUrl)
      (.outOfScope "plaintext HTTP is not enabled for this plugin")
    let host := target.host.asStr lib
    let name := String.ofList host
    require (grant.hosts.any fun pattern => hostMatches pattern host)
      (.outOfScope ("host `" ++ name ++ "` is not in the granted host list"))
    require hop.control (.quotaExceeded "the host-call deadline is unavailable")
    match hop.dns with
    | .error error => .error (.outOfScope ("`" ++ name ++ "` could not be resolved: " ++ error))
    | .ok addresses =>
      match target.validateResolution addresses with
      | .error error => .error (.outOfScope ("`" ++ name ++
          "` resolved to an address that is not reachable: " ++ error.message))
      | .ok () =>
        .ok (target, ⟨method, target.canonicalUrl, host, target.port, addresses, headers, body⟩)

/-- `attempt_http`: what was sent, and what came of it. -/
def attemptHttp (grant : HttpGrant) (maxPayloadBytes : Nat) (hop : Hop) (method url : Text)
    (headers : List (Text × Text)) (body : Option (List UInt8)) :
    Option OutboundRequest × Except DenialReason (Except String HttpAttempt) :=
  match prepare lib grant hop method url headers body with
  | .error denial => (none, .error denial)
  | .ok (target, outbound) =>
    if hop.sendControl then
      (some outbound,
        match hop.http with
        | .error message => .ok (.error message)
        | .ok response =>
          if response.body.length > grant.maxResponseBytes ∨
              response.body.length > maxPayloadBytes then
            .error (.quotaExceeded ("response body is " ++ toString response.body.length ++
              " bytes, the grant allows " ++ toString grant.maxResponseBytes))
          else .ok (.ok ⟨target, response⟩))
    else (none, .ok (.error "HTTP request call control is unavailable"))

def redirectLocation (response : InboundResponse) : Option Text :=
  if response.status ∈ [301, 302, 303, 307, 308] then
    (response.headers.find? fun header => toAsciiLowercase header.1 == "location".toList).map (·.2)
  else none

/-! ## The redirects -/

inductive SendOutcome where
  | denied (reason : DenialReason)
  | failed (message : String)
  | response (response : InboundResponse)

/-- The loop, with so many redirects left: what was sent, and what the plugin gets. -/
def follow (grant : HttpGrant) (maxPayloadBytes : Nat) (headers : List (Text × Text))
    (hops : Nat → Hop) (left index : Nat) (method url : Text) (body : Option (List UInt8)) :
    List OutboundRequest × SendOutcome :=
  let (sent, result) := attemptHttp lib grant maxPayloadBytes (hops index) method url headers body
  match result with
  | .error denial => (sent.toList, .denied denial)
  | .ok (.error message) => (sent.toList, .failed message)
  | .ok (.ok attempt) =>
    match redirectLocation attempt.response with
    | none => (sent.toList, .response attempt.response)
    | some location =>
      match left with
      | 0 => (sent.toList, .denied (.quotaExceeded
          ("more than " ++ toString maxHttpRedirects ++ " redirects")))
      | left + 1 =>
        match validateRedirect lib attempt.target location .publicInternet with
        | .error error => (sent.toList, .denied (.outOfScope
            ("redirect to `" ++ String.ofList location ++ "` refused: " ++ error.message)))
        | .ok next =>
          if attempt.response.status = 303 then
            if grant.allowsMethod "GET".toList then
              let rest := follow grant maxPayloadBytes headers hops left (index + 1)
                "GET".toList next.canonicalUrl none
              (sent.toList ++ rest.1, rest.2)
            else (sent.toList, .denied (.outOfScope
              "a 303 redirect requires `GET`, which is not in the granted method list"))
          else
            let rest := follow grant maxPayloadBytes headers hops left (index + 1) method
              next.canonicalUrl body
            (sent.toList ++ rest.1, rest.2)

def send (state : HttpState) (hops : Nat → Hop) (request : Request) :
    List OutboundRequest × SendOutcome :=
  match state.entry with
  | .error reason => ([], .denied (.entry reason))
  | .ok () =>
    match state.http with
    | none => ([], .denied .notGranted)
    | some grant =>
      let method := request.method.map Char.toUpper
      if !grant.allowsMethod method then
        ([], .denied (.outOfScope ("method `" ++ String.ofList method ++
          "` is not in the granted method list")))
      else
        match request.headers.mapM checkHeader with
        | .error denial => ([], .denied denial)
        | .ok headers =>
          let bodyLength := (request.body.map List.length).getD 0
          if bodyLength > state.maxPayloadBytes then
            ([], .denied (.quotaExceeded ("request body is " ++ toString bodyLength ++
              " bytes, the host payload limit is " ++ toString state.maxPayloadBytes)))
          else
            follow lib grant state.maxPayloadBytes headers hops maxHttpRedirects 0 method
              request.url request.body

/-! ## Containment -/

variable {lib}

/-- A request that stays within the grant, with the addresses that the hop resolved. -/
structure Contained (lib : NetLibrary) (grant : HttpGrant) (hop : Hop) (out : OutboundRequest) :
    Prop where
  method : ∃ granted ∈ grant.methods, granted.asStr = out.method
  host : ∃ pattern ∈ grant.hosts, hostMatches pattern out.host = true
  url_host : ∃ url, out.url = lib.text url ∧
    (lib.host url).map (ParsedHost.text lib) = some out.host
  https : grant.allowPlaintext = true ∨ "https://".toList <+: out.url
  resolved : hop.dns = .ok out.addresses
  addressed : out.addresses ≠ []
  routable : ∀ address ∈ out.addresses, validatePublicAddress address = .ok ()
  headers : ∀ header ∈ out.headers, toAsciiLowercase header.1 ∉ forbiddenHeaders

variable {grant : HttpGrant} {maxPayloadBytes : Nat} {headers : List (Text × Text)}

section

variable {hop : Hop} {method url : Text} {body : Option (List UInt8)}
  (hmethod : grant.allowsMethod method = true)
  (hheaders : ∀ header ∈ headers, toAsciiLowercase header.1 ∉ forbiddenHeaders)
include hmethod hheaders

theorem contained_prepare {target : ValidatedTarget} {out : OutboundRequest}
    (h : prepare lib grant hop method url headers body = .ok (target, out)) :
    Contained lib grant hop out := by
  unfold prepare at h
  split at h
  · cases h
  rename_i target' htarget
  obtain ⟨_, hscheme, h⟩ := bind_ok h
  obtain ⟨_, hhost, h⟩ := bind_ok h
  obtain ⟨_, -, h⟩ := bind_ok h
  split at h
  · cases h
  rename_i addresses hdns
  split at h
  · cases h
  rename_i hresolution
  cases h
  obtain ⟨hne, hpublic⟩ := validateResolution_ok hresolution
  have hscheme := require_ok hscheme
  have hhost := require_ok hhost
  rw [Bool.or_eq_true, List.isPrefixOf_iff_prefix] at hscheme
  exact ⟨by simpa [HttpGrant.allowsMethod] using hmethod, List.any_eq_true.mp hhost, validateTarget_ok htarget,
    hscheme, hdns, hne, hpublic, hheaders⟩

/-- One hop: what it sends is contained, and it goes on only if it has sent something. -/
theorem attemptHttp_spec {sent : Option OutboundRequest}
    {result : Except DenialReason (Except String HttpAttempt)}
    (h : attemptHttp lib grant maxPayloadBytes hop method url headers body = (sent, result)) :
    (∀ out, sent = some out → Contained lib grant hop out) ∧
    (∀ attempt, result = .ok (.ok attempt) → sent.isSome = true) := by
  unfold attemptHttp at h
  split at h
  · cases h
    exact ⟨nofun, nofun⟩
  rename_i target outbound hprepare
  split at h
  · cases h
    refine ⟨fun out hout => ?_, fun _ _ => rfl⟩
    cases hout
    exact contained_prepare hmethod hheaders hprepare
  · cases h
    exact ⟨nofun, nofun⟩

end

/-- The requests of a run: one for each hop, and no more than the redirects allow. -/
def Chain (lib : NetLibrary) (grant : HttpGrant) (hops : Nat → Hop) (left index : Nat)
    (sent : List OutboundRequest) : Prop :=
  sent.length ≤ left + 1 ∧
    ∀ i out, sent[i]? = some out → Contained lib grant (hops (index + i)) out

theorem chain_toList {hops : Nat → Hop} {left index : Nat} {sent : Option OutboundRequest}
    (h : ∀ out, sent = some out → Contained lib grant (hops index) out) :
    Chain lib grant hops left index sent.toList := by
  cases sent with
  | none => exact ⟨Nat.zero_le _, nofun⟩
  | some out =>
    refine ⟨Nat.le_add_left _ _, fun i out' hout => ?_⟩
    cases i with
    | zero =>
      cases hout
      exact h out rfl
    | succ i => cases hout

theorem Chain.cons {hops : Nat → Hop} {left index : Nat} {out : OutboundRequest}
    {rest : List OutboundRequest} (hout : Contained lib grant (hops index) out)
    (hrest : Chain lib grant hops left (index + 1) rest) :
    Chain lib grant hops (left + 1) index (out :: rest) := by
  refine ⟨Nat.succ_le_succ hrest.1, fun i out' hmem => ?_⟩
  cases i with
  | zero =>
    cases hmem
    exact hout
  | succ i =>
    rw [Nat.add_comm i 1, ← Nat.add_assoc]
    exact hrest.2 i out' hmem

theorem follow_chain (hheaders : ∀ header ∈ headers, toAsciiLowercase header.1 ∉ forbiddenHeaders)
    (hops : Nat → Hop) (left index : Nat) (method url : Text) (body : Option (List UInt8))
    (hmethod : grant.allowsMethod method = true) :
    Chain lib grant hops left index
      (follow lib grant maxPayloadBytes headers hops left index method url body).1 := by
  fun_induction follow lib grant maxPayloadBytes headers hops left index method url body with
  | case6 _ _ _ _ _ _ _ _ _ _ _ _ hget _ h ih =>
    obtain ⟨hsent, hsome⟩ := attemptHttp_spec hmethod hheaders h
    obtain ⟨out, rfl⟩ := Option.isSome_iff_exists.mp (hsome _ rfl)
    exact .cons (hsent out rfl) (ih hget)
  | case8 _ _ _ _ _ _ _ _ _ _ _ _ _ h ih =>
    obtain ⟨hsent, hsome⟩ := attemptHttp_spec hmethod hheaders h
    obtain ⟨out, rfl⟩ := Option.isSome_iff_exists.mp (hsome _ rfl)
    exact .cons (hsent out rfl) (ih hmethod)
  | case1 _ _ _ _ _ _ _ h | case2 _ _ _ _ _ _ _ h | case3 _ _ _ _ _ _ _ _ h
    | case4 _ _ _ _ _ _ _ _ h | case5 _ _ _ _ _ _ _ _ _ _ _ h
    | case7 _ _ _ _ _ _ _ _ _ _ _ _ _ h =>
    exact chain_toList (attemptHttp_spec hmethod hheaders h).1

/-- Whatever the plugin asks for and whatever the servers and resolvers answer, every request
that is sent is within the grant, and there are at most four. -/
theorem send_contained (lib : NetLibrary) (state : HttpState) (hops : Nat → Hop)
    (request : Request) :
    (send lib state hops request).1.length ≤ maxHttpRedirects + 1 ∧
    ∀ i out, (send lib state hops request).1[i]? = some out →
      ∃ grant, state.http = some grant ∧ Contained lib grant (hops i) out := by
  fun_cases send lib state hops request with
  | case6 _ grant hgrant method hmethod headers hheaders =>
    have hclean : ∀ header ∈ headers, toAsciiLowercase header.1 ∉ forbiddenHeaders := by
      intro header hmem
      obtain ⟨_, -, hchecked⟩ := exists_of_mem_mapM hheaders hmem
      obtain ⟨_, hforbidden, h⟩ := bind_ok hchecked
      obtain ⟨_, -, h⟩ := bind_ok h
      cases h
      rw [toAsciiLowercase_idem]
      simpa using require_ok hforbidden
    have hchain := @follow_chain lib grant state.maxPayloadBytes headers hclean hops
      maxHttpRedirects 0 method request.url request.body (by simpa using hmethod)
    refine ⟨hchain.1, fun i out hout => ⟨grant, hgrant, ?_⟩⟩
    have hcontained := hchain.2 i out hout
    rwa [Nat.zero_add] at hcontained
  | _ => exact ⟨Nat.zero_le _, nofun⟩

/-- URLs of a scheme, a domain and the rest. -/
structure PlainUrl where
  scheme : Text
  domain : Text
  rest : Text

def PlainUrl.parse (text : Text) : Option PlainUrl :=
  (splitOnce "://".toList text).map fun (scheme, behind) =>
    ⟨scheme, behind.takeWhile (· != '/'), behind.dropWhile (· != '/')⟩

def plainLibrary : NetLibrary where
  Url := PlainUrl
  parse := PlainUrl.parse
  join base location := (PlainUrl.parse location).or (some { base with rest := location })
  text url := url.scheme ++ "://".toList ++ url.domain ++ url.rest
  scheme := PlainUrl.scheme
  username _ := []
  password _ := none
  fragment _ := none
  host url := some (.domain url.domain)
  setHost url name := some { url with domain := name }
  portOrKnownDefault url := if url.scheme == "https".toList then some 443 else some 80
  isIpv4Text _ := false
  ipText _ := []
  host_setHost url url' domain name _ _ hset := by
    cases hset
    rfl

def sampleGrant : HttpGrant := ⟨["*.example.com".toList], [.get], false, 100⟩

/-- The first server sends the plugin on to another host of the grant. -/
def sampleHops : Nat → Hop
  | 0 => ⟨true, .ok [.v4 ⟨93, 184, 216, 34⟩], true,
      .ok ⟨302, [("Location".toList, "https://b.example.com/y".toList)], []⟩⟩
  | _ => ⟨true, .ok [.v4 ⟨8, 8, 8, 8⟩], true, .ok ⟨200, [], []⟩⟩

def sampleRequest : Request := ⟨"get".toList, "https://a.example.com/x".toList, [], none⟩

theorem send_contained_redirect :
    (send plainLibrary ⟨.ok (), some sampleGrant, 100⟩ sampleHops sampleRequest).1.map (·.url) =
      ["https://a.example.com/x".toList, "https://b.example.com/y".toList] ∧
    ∀ i out, (send plainLibrary ⟨.ok (), some sampleGrant, 100⟩ sampleHops sampleRequest).1[i]? =
      some out → ∃ grant, some sampleGrant = some grant ∧
        Contained plainLibrary grant (sampleHops i) out :=
  ⟨by decide +kernel, (send_contained plainLibrary ⟨.ok (), some sampleGrant, 100⟩ sampleHops
    sampleRequest).2⟩

end GtaClaw.Plugin
