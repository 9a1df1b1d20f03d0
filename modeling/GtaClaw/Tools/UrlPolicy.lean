import GtaClaw.Security.Ssrf

/-!
# Destinations of network tools

`UrlPolicy.validate` lets a URL through if it lies below an excepted private origin, and
otherwise validates it as a public target and looks at its port and its host.
`UrlPolicy.validateHop` does the second part for the location of a redirect.
`requestTarget` is what the plain transport puts in its request line.
-/

namespace GtaClaw.Tools

open Lib Security
open Channel (Text utf8Len isWhitespace)

def maxUrlBytes : Nat := 2048

def deniedHostSuffixes : List Text :=
  [".internal", ".local", ".localdomain", ".svc", ".arpa", ".onion"].map String.toList

def deniedHosts : List Text :=
  ["metadata.goog", "metadata.google.internal", "instance-data.ec2.internal",
    "kubernetes.default.svc"].map String.toList

inductive NetworkError where
  | urlTooLong
  | target (error : TargetError)
  | portNotAllowed
  | hostDenied
  | invalidExceptionOrigin
  | transportRefused
  deriving DecidableEq, Repr

/-! ## Excepted origins -/

/-- What `allow_origin` asks of an origin. -/
def checkOrigin (origin : Text) : Except NetworkError Unit := do
  let rest ← okOr .invalidExceptionOrigin
    (("http://".toList.isPrefixOf? origin).or ("https://".toList.isPrefixOf? origin))
  require (!(rest.isEmpty || rest.any (['/', '?', '#', '@', '\\'].contains ·)
    || rest != toAsciiLowercase rest)) .invalidExceptionOrigin
  let (_, port) ← okOr .invalidExceptionOrigin (rsplitOnce ':' rest)
  require (!(port.isEmpty || !port.all isAsciiDigit)) .invalidExceptionOrigin
  let value := Nat.ofDigitChars 10 port 0
  require (value < 2 ^ 16 && value != 0) .invalidExceptionOrigin

/-- The origins, in their stable order. -/
structure PrivateOriginExceptions where
  origins : List Text
  checked : ∀ origin ∈ origins, checkOrigin origin = .ok ()

def PrivateOriginExceptions.none : PrivateOriginExceptions := ⟨[], by simp⟩

/-- The rest of a URL behind an origin, if it is empty or begins a path or a query. -/
def behindOrigin (url origin : Text) : Option Text :=
  (origin.isPrefixOf? url).filter fun rest =>
    rest.isEmpty || rest.head? == some '/' || rest.head? == some '?'

def PrivateOriginExceptions.permits (exceptions : PrivateOriginExceptions) (url : Text) :
    Option Text :=
  if url.any (['@', '#', '\\'].contains ·) || url.any fun c =>
      Security.isControl c || isWhitespace c then
    Option.none
  else exceptions.origins.find? fun origin => (behindOrigin url origin).isSome

/-! ## The policy -/

structure UrlPolicy where
  target : TargetPolicy := .publicInternet
  deniedHosts : List Text := Tools.deniedHosts
  deniedSuffixes : List Text := deniedHostSuffixes
  allowedPorts : List UInt16 := [80, 443]
  exceptions : PrivateOriginExceptions := .none

inductive Destination where
  | publicTarget (target : ValidatedTarget)
  | privateException (url origin : Text)
  deriving DecidableEq, Repr

def Destination.url : Destination → Text
  | .publicTarget target => target.canonicalUrl
  | .privateException url _ => url

variable (lib : NetLibrary)

namespace UrlPolicy

variable (policy : UrlPolicy)

def denyHost (host : Text) : UrlPolicy :=
  { policy with deniedHosts := toAsciiLowercase host :: policy.deniedHosts }

def checkHostAndPort (target : ValidatedTarget) : Except NetworkError Unit :=
  if !policy.allowedPorts.contains target.port then .error .portNotAllowed
  else
    match target.host with
    | .dns host =>
      if policy.deniedHosts.contains host then .error .hostDenied
      else if policy.deniedSuffixes.any (·.isSuffixOf host) then .error .hostDenied
      else .ok ()
    | .ip _ => .ok ()

/-- What `validate` and `validate_hop` do with a target. -/
def admitted (target : Except TargetError ValidatedTarget) :
    Except NetworkError ValidatedTarget := do
  let target ← target.mapError NetworkError.target
  policy.checkHostAndPort target
  return target

def validate (url : Text) : Except NetworkError Destination :=
  if maxUrlBytes < utf8Len url then .error .urlTooLong
  else
    match policy.exceptions.permits url with
    | some origin => .ok (.privateException url origin)
    | none => (policy.admitted (validateTarget lib url policy.target)).map .publicTarget

def validateHop (current : ValidatedTarget) (location : Text) :
    Except NetworkError ValidatedTarget :=
  if maxUrlBytes < utf8Len location then .error .urlTooLong
  else policy.admitted (validateRedirect lib current location policy.target)

/-- The targets of a chain of redirects, each accepted from the one before. -/
def validateHops : ValidatedTarget → List Text → Except NetworkError (List ValidatedTarget)
  | _, [] => .ok []
  | current, location :: locations => do
    let next ← policy.validateHop lib current location
    let targets ← validateHops next locations
    return next :: targets

end UrlPolicy

/-- `PinnedHttpTransport::request_target`. -/
def requestTarget (url : Text) : Except NetworkError Text := do
  let rest ← okOr .transportRefused ("http://".toList.isPrefixOf? url)
  match rest.dropWhile (· != '/') with
  | [] => return ['/']
  | target => return target

/-- What the URL library keeps to: a URL is the URL of its text, a new host leaves the
scheme alone, and in the text of an `http` URL the path begins with a slash. -/
structure Lawful : Prop where
  parse_text : ∀ url, lib.parse (lib.text url) = some url
  scheme_setHost : ∀ url url' name, lib.setHost url name = some url' →
    lib.scheme url' = lib.scheme url
  path_text : ∀ url rest, lib.text url = "http://".toList ++ rest →
    (rest.dropWhile fun c => c != '/' && c != '?').head? = some '/'

/-- A library that knows these URLs, whose hosts it writes in lower case. -/
inductive SampleUrl where
  | secure
  | plain
  /-- The host of `plain`, with a dot at its end. -/
  | dotted
  deriving DecidableEq

def SampleUrl.text : SampleUrl → Text
  | secure => "https://a.example/".toList
  | plain => "http://a.example/".toList
  | dotted => "http://a.example./".toList

def sampleParse (input : Text) : Option SampleUrl :=
  [SampleUrl.secure, .plain, .dotted].find? (·.text == toAsciiLowercase input)

def sampleLibrary : NetLibrary where
  Url := SampleUrl
  parse := sampleParse
  join _ := sampleParse
  text := SampleUrl.text
  scheme url := url.text.takeWhile (· != ':')
  username _ := []
  password _ := none
  fragment _ := none
  host url := some (.domain (if url = .dotted then "a.example." else "a.example").toList)
  setHost url name :=
    if name = "a.example".toList then some (if url = .dotted then .plain else url) else none
  portOrKnownDefault url := some (if url = .secure then 443 else 80)
  isIpv4Text _ := false
  ipText _ := []
  host_setHost url url' domain name _ _ hset := by
    split at hset <;> cases hset
    cases url <;> simp [*]

theorem sampleLibrary_lawful : Lawful sampleLibrary where
  parse_text url := by cases url <;> rfl
  scheme_setHost url url' name hset := by
    change (if name = _ then some _ else none) = some url' at hset
    split at hset <;> cases hset
    cases url <;> rfl
  path_text url rest htext := by
    rw [show rest = ("http://".toList ++ rest).drop 7 from rfl, ← htext]
    cases url with
    | secure => cases congrArg (·.getD 4 ' ') htext
    | plain | dotted => decide +kernel

section Redirects

/-! ## Redirects keep no scheme -/

variable {lib} {policy : UrlPolicy} {current next : ValidatedTarget}

variable (lib) in
def schemeOf (target : ValidatedTarget) : Option Text :=
  (lib.parse target.canonicalUrl).map lib.scheme

variable (lib) in
/-- The scheme of the URL that a location stands for. -/
def schemeOfLocation (current : ValidatedTarget) (location : Text) : Option Text :=
  ((lib.parse current.canonicalUrl).bind (lib.join · location)).map lib.scheme

theorem admitted_ok {found : Except TargetError ValidatedTarget} :
    policy.admitted found = .ok next ↔
      found = .ok next ∧ policy.checkHostAndPort next = .ok () := by
  cases found with
  | error e => simp [UrlPolicy.admitted, Except.mapError, bind, Except.bind]
  | ok target =>
    simp only [UrlPolicy.admitted, Except.mapError, bind, Except.bind, Except.ok.injEq]
    constructor
    · intro h
      split at h
      · cases h
      · rename_i hcheck
        cases h
        exact ⟨rfl, hcheck⟩
    · rintro ⟨rfl, hcheck⟩
      rw [hcheck]
      rfl

/-- A hop leads to the scheme that its location names, whatever the current one is. -/
theorem schemeOf_validateHop (hlib : Lawful lib) {location : Text}
    (h : policy.validateHop lib current location = .ok next) :
    schemeOf lib next = schemeOfLocation lib current location := by
  unfold UrlPolicy.validateHop at h
  split at h
  · cases h
  obtain ⟨base, hbase, h⟩ := bind_ok (admitted_ok.mp h).1
  obtain ⟨destination, hjoin, h⟩ := bind_ok h
  obtain ⟨url, url', hurl, hhost, htext⟩ := validateTarget_url h
  rw [hlib.parse_text] at hurl
  cases hurl
  have hscheme : lib.scheme url' = lib.scheme destination := by
    generalize next.2 = host at hhost
    unfold canonicalHost at hhost
    repeat' split at hhost
    all_goals cases hhost
    · exact hlib.scheme_setHost _ _ _ (by assumption)
    · rfl
  simp [schemeOf, schemeOfLocation, htext, hlib.parse_text, okOr_ok hbase, okOr_ok hjoin, hscheme]

theorem schemeOf_validateHops (hlib : Lawful lib) {locations : List Text}
    {targets : List ValidatedTarget} (h : policy.validateHops lib current locations = .ok targets) :
    targets.map (schemeOf lib) =
      List.zipWith (schemeOfLocation lib) (current :: targets) locations := by
  induction locations generalizing current targets with
  | nil =>
    cases h
    rfl
  | cons location locations ih =>
    obtain ⟨next, hnext, h⟩ := bind_ok h
    obtain ⟨rest, hrest, h⟩ := bind_ok h
    cases h
    rw [List.map_cons, List.zipWith_cons_cons, schemeOf_validateHop hlib hnext, ih hrest]

/-- A chain stays on `https` exactly if every location of it stands for an `https` URL; that
the chain began there plays no part. -/
theorem validateHops_https (hlib : Lawful lib) {locations : List Text}
    {targets : List ValidatedTarget} (h : policy.validateHops lib current locations = .ok targets) :
    (∀ target ∈ current :: targets, schemeOf lib target = some "https".toList) ↔
      schemeOf lib current = some "https".toList ∧
        ∀ scheme ∈ List.zipWith (schemeOfLocation lib) (current :: targets) locations,
          scheme = some "https".toList := by
  rw [List.forall_mem_cons, ← schemeOf_validateHops hlib h, List.forall_mem_map]

def secureTarget : ValidatedTarget := ⟨"https://a.example/".toList, .dns "a.example".toList, 443⟩

def plainTarget : ValidatedTarget := ⟨"http://a.example/".toList, .dns "a.example".toList, 80⟩

theorem validateHops_https_kept :
    UrlPolicy.validateHops sampleLibrary { } secureTarget ["https://a.example/".toList] =
        .ok [secureTarget] ∧
      schemeOf sampleLibrary secureTarget = some "https".toList := by
  refine ⟨?h, (validateHops_https sampleLibrary_lawful ?h).mpr ?_ secureTarget ?_⟩
  all_goals decide +kernel

/-- A location may lead from `https` to `http`. -/
theorem validateHops_downgrade :
    UrlPolicy.validate sampleLibrary { } "https://a.example/".toList =
        .ok (.publicTarget secureTarget) ∧
      schemeOf sampleLibrary secureTarget = some "https".toList ∧
      UrlPolicy.validateHops sampleLibrary { } secureTarget ["http://a.example/".toList] =
        .ok [plainTarget] ∧
      schemeOf sampleLibrary plainTarget = some "http".toList := by
  decide +kernel

end Redirects

section Denied

/-! ## Denied hosts -/

/-- The canonical form of a host text: what `validate_target` makes of the host of a URL with
that text, where an IPv6 literal stands in brackets. -/
def hostOfText (value : Text) : Except TargetError TargetHost :=
  match (lib.parse ("http://".toList ++ value ++ ['/'])).or
      (lib.parse ("http://[".toList ++ value ++ [']', '/'])) with
  | none => .error .invalidUrl
  | some url => (canonicalHost lib url).map Prod.snd

variable {lib} {policy : UrlPolicy} {host : Text} {target : ValidatedTarget}

theorem admitted_denyHost {found : Except TargetError ValidatedTarget} :
    (policy.denyHost host).admitted found = .ok target ↔
      policy.admitted found = .ok target ∧ target.host ≠ .dns (toAsciiLowercase host) := by
  rw [admitted_ok, admitted_ok, and_assoc]
  refine and_congr_right fun _ => ?_
  unfold UrlPolicy.checkHostAndPort UrlPolicy.denyHost
  cases target.host with
  | ip address => simp
  | dns name =>
    by_cases heq : name = toAsciiLowercase host
    · simp [heq]
      split <;> nofun
    · simp [heq]

theorem map_publicTarget_ok {found : Except NetworkError ValidatedTarget} :
    found.map Destination.publicTarget = .ok (.publicTarget target) ↔ found = .ok target := by
  cases found with
  | error e | ok t => simp [Except.map]

/-- **What a denial keeps out.** The canonical form of the denied text is kept out exactly if it
is the text in lower case; the denial of an address, of a name with a dot at its end or of one
that the library rewrites changes nothing for it. -/
theorem denyHost_iff (h : hostOfText lib host = .ok target.host) :
    (∀ url, (policy.denyHost host).validate lib url = .ok (.publicTarget target) ↔
      policy.validate lib url = .ok (.publicTarget target) ∧
        hostOfText lib host ≠ .ok (.dns (toAsciiLowercase host))) ∧
    ∀ current location, (policy.denyHost host).validateHop lib current location = .ok target ↔
      policy.validateHop lib current location = .ok target ∧
        hostOfText lib host ≠ .ok (.dns (toAsciiLowercase host)) := by
  rw [h, Ne, Except.ok.injEq]
  constructor
  · intro url
    unfold UrlPolicy.validate
    split
    · simp
    rw [show (policy.denyHost host).exceptions = policy.exceptions from rfl]
    split
    · simp
    rw [map_publicTarget_ok, map_publicTarget_ok]
    exact admitted_denyHost
  · intro current location
    unfold UrlPolicy.validateHop
    split
    · simp
    · exact admitted_denyHost

theorem denyHost_iff_kept_out :
    UrlPolicy.validate sampleLibrary (({ } : UrlPolicy).denyHost "A.example".toList)
      "http://a.example/".toList ≠ .ok (.publicTarget plainTarget) := by
  have hhost : hostOfText sampleLibrary "A.example".toList = .ok plainTarget.host := by
    decide +kernel
  exact fun h => (((denyHost_iff hhost).1 _).mp h).2 (by decide +kernel)

/-- A name with a dot at its end is denied, and reached. -/
theorem denyHost_reached :
    hostOfText sampleLibrary "a.example.".toList = .ok plainTarget.host ∧
      UrlPolicy.validate sampleLibrary (({ } : UrlPolicy).denyHost "a.example.".toList)
        "http://a.example/".toList = .ok (.publicTarget plainTarget) := by
  decide +kernel

end Denied

section RequestLine

/-! ## The request line -/

variable {lib} {policy : UrlPolicy} {rest : Text}

/-- The path and the query of an `http` URL without a fragment. -/
def pathAndQuery (url : Text) : Text × Text :=
  ((url.drop 7).dropWhile fun c => c != '/' && c != '?').span (· != '?')

/-- The target that was approved: the path, or a slash for none, and the query. -/
def approvedTarget (url : Text) : Text :=
  let (path, query) := pathAndQuery url
  (if path.isEmpty then ['/'] else path) ++ query

theorem requestTarget_http :
    requestTarget ("http://".toList ++ rest) = .ok (match rest.dropWhile (· != '/') with
      | [] => ['/']
      | target => target) := by
  rw [requestTarget, isPrefixOf?_append]
  simp only [okOr, bind, Except.bind]
  split <;> rfl

/-- The transport looks for the first slash, also behind a question mark. -/
theorem requestTarget_eq_iff :
    requestTarget ("http://".toList ++ rest) = .ok (approvedTarget ("http://".toList ++ rest)) ↔
      (rest.dropWhile fun c => c != '/' && c != '?').head? ≠ some '?' := by
  have hdrop : ("http://".toList ++ rest).drop 7 = rest := rfl
  rw [requestTarget_http, approvedTarget, pathAndQuery, hdrop, List.span_eq_takeWhile_dropWhile,
    Except.ok.injEq]
  induction rest with
  | nil => decide
  | cons c rest ih =>
    by_cases hslash : c = '/'
    · subst hslash
      simp [List.takeWhile_append_dropWhile]
    by_cases hmark : c = '?'
    · subst hmark
      have hshort : (rest.dropWhile (· != '/')).length ≤ rest.length :=
        (List.dropWhile_sublist _).length_le
      simp
      intro heq
      split at heq
      · cases heq
      · rw [heq] at hshort
        simp at hshort
    · simpa [hslash, hmark] using ih

/-- An origin that a URL of the plain scheme begins with has no slash and no question mark
behind the scheme. -/
theorem checkOrigin_http {origin behind : Text} (h : checkOrigin origin = .ok ())
    (hhttp : "http://".toList <+: origin ++ behind) :
    ∃ authority, origin = "http://".toList ++ authority ∧
      ∀ c ∈ authority, (c != '/' && c != '?') = true := by
  obtain ⟨authority, hscheme, h⟩ := bind_ok h
  obtain ⟨_, hplain, -⟩ := bind_ok h
  refine ⟨authority, ?_, fun c hc => ?_⟩
  · rcases Option.or_eq_some_iff.mp (okOr_ok hscheme) with hpre | ⟨-, hpre⟩
    · exact eq_append_of_isPrefixOf? hpre
    · rw [eq_append_of_isPrefixOf? hpre] at hhttp
      obtain ⟨_, heq⟩ := hhttp
      cases congrArg (·.getD 4 ' ') heq
  · have hplain := require_ok hplain
    rw [Bool.not_eq_true', Bool.or_eq_false_iff, Bool.or_eq_false_iff, List.any_eq_false] at hplain
    have hc := hplain.1.2 c hc
    by_cases hslash : c = '/'
    · exact absurd (by rw [hslash]; rfl) hc
    by_cases hmark : c = '?'
    · exact absurd (by rw [hmark]; rfl) hc
    · simp [hslash, hmark]

/-- The request line asks for what was approved, except for a query right behind an excepted
origin. -/
theorem requestTarget_approved (hlib : Lawful lib) {url : Text} {destination : Destination}
    (h : policy.validate lib url = .ok destination) (hhttp : "http://".toList <+: destination.url) :
    requestTarget destination.url = .ok (approvedTarget destination.url) ↔
      ∀ origin, destination = .privateException url origin → ¬origin ++ ['?'] <+: url := by
  unfold UrlPolicy.validate at h
  split at h
  · cases h
  split at h
  · rename_i origin hpermits
    cases h
    unfold PrivateOriginExceptions.permits at hpermits
    split at hpermits
    · cases hpermits
    have hsome := List.find?_some hpermits
    obtain ⟨behind, hbehind⟩ := Option.isSome_iff_exists.mp hsome
    obtain ⟨hpre, hstart⟩ := Option.filter_eq_some_iff.mp hbehind
    have hmem := List.mem_of_find?_eq_some hpermits
    obtain rfl := eq_append_of_isPrefixOf? hpre
    obtain ⟨authority, rfl, hplain⟩ := checkOrigin_http (policy.exceptions.checked _ hmem) hhttp
    have hdrop : behind.dropWhile (fun c => c != '/' && c != '?') = behind := by
      cases behind with
      | nil => rfl
      | cons c behind =>
        simp at hstart
        rcases hstart with rfl | rfl <;> rfl
    have hquery : "http://".toList ++ authority ++ ['?'] <+:
        "http://".toList ++ authority ++ behind ↔ behind.head? = some '?' := by
      rw [List.prefix_append_right_inj]
      cases behind with
      | nil => decide
      | cons c behind => simp [eq_comm]
    simp only [Destination.privateException.injEq, true_and, forall_eq', hquery]
    rw [Destination.url, List.append_assoc, requestTarget_eq_iff,
      List.dropWhile_append_of_pos hplain, hdrop]
  · obtain ⟨target, htarget, rfl⟩ := map_ok h
    obtain ⟨_, url', -, -, htext⟩ := validateTarget_url (admitted_ok.mp htarget).1
    obtain ⟨rest, hrest⟩ := hhttp
    rw [← hrest, requestTarget_eq_iff, hlib.path_text url' rest (htext.symm.trans hrest.symm)]
    simp

def loopback : PrivateOriginExceptions where
  origins := ["http://127.0.0.1:8080".toList]
  checked := by decide +kernel

def queryUrl : Text := "http://127.0.0.1:8080?next=/admin".toList

theorem requestTarget_approved_public :
    requestTarget "http://a.example/".toList = .ok (approvedTarget "http://a.example/".toList) :=
  (requestTarget_approved sampleLibrary_lawful
    (show UrlPolicy.validate sampleLibrary { } "http://a.example/".toList =
      .ok (.publicTarget plainTarget) by decide +kernel) (by decide +kernel)).mpr nofun

/-- What stands in a query behind a slash is asked for as a path. -/
theorem requestTarget_of_query :
    UrlPolicy.validate sampleLibrary { exceptions := loopback } queryUrl =
        .ok (.privateException queryUrl "http://127.0.0.1:8080".toList) ∧
      approvedTarget queryUrl = "/?next=/admin".toList ∧
      requestTarget queryUrl = .ok "/admin".toList := by
  decide +kernel

end RequestLine

end GtaClaw.Tools
