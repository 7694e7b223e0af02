import Zeptoclaw.Lib.Run
import Zeptoclaw.Spec.Error

/-!
# Outgoing HTTP requests

The `http_request` tool (`tools/http_request.rs`) and the `web_fetch` tool
(`tools/web.rs`) with their host checks, over a network whose DNS may answer every
lookup differently and whose servers may answer anything. The HTTP client follows a
redirect exactly when the custom policy says so; it connects to an IP literal directly,
to a pinned host at the pinned address, and otherwise looks the host up itself.
-/

namespace Zeptoclaw

open Text

/-! ## Addresses -/

structure Ipv4Addr where
  a : BitVec 8
  b : BitVec 8
  c : BitVec 8
  d : BitVec 8
  deriving DecidableEq, Repr

structure Ipv6Addr where
  s0 : BitVec 16
  s1 : BitVec 16
  s2 : BitVec 16
  s3 : BitVec 16
  s4 : BitVec 16
  s5 : BitVec 16
  s6 : BitVec 16
  s7 : BitVec 16
  deriving DecidableEq, Repr

inductive IpAddr where
  | v4 (addr : Ipv4Addr)
  | v6 (addr : Ipv6Addr)
  deriving DecidableEq, Repr

namespace Ipv4Addr

variable (ip : Ipv4Addr)

def isPrivate : Bool :=
  ip.a = 10 || (ip.a = 172 && 16 ≤ ip.b && ip.b ≤ 31) || (ip.a = 192 && ip.b = 168)

def isLoopback : Bool := ip.a = 127

def isLinkLocal : Bool := ip.a = 169 && ip.b = 254

def isBroadcast : Bool := ip.a = 255 && ip.b = 255 && ip.c = 255 && ip.d = 255

def isDocumentation : Bool :=
  (ip.a = 192 && ip.b = 0 && ip.c = 2) || (ip.a = 198 && ip.b = 51 && ip.c = 100) ||
    (ip.a = 203 && ip.b = 0 && ip.c = 113)

def isUnspecified : Bool := ip.a = 0 && ip.b = 0 && ip.c = 0 && ip.d = 0

end Ipv4Addr

/-- `is_private_or_local_ipv4`. -/
def isPrivateOrLocalIpv4 (ip : Ipv4Addr) : Bool :=
  ip.isPrivate || ip.isLoopback || ip.isLinkLocal || ip.isBroadcast || ip.isDocumentation ||
    ip.isUnspecified || ip.a = 0

/-- The IPv4 address two segments hold. -/
def embeddedIpv4 (hi lo : BitVec 16) : Ipv4Addr :=
  ⟨(hi >>> 8).setWidth 8, hi.setWidth 8, (lo >>> 8).setWidth 8, lo.setWidth 8⟩

/-- `is_private_or_local_ipv6`: the reserved ranges, then the transition formats in the
order of the source. -/
def isPrivateOrLocalIpv6 (ip : Ipv6Addr) : Bool :=
  if ip = ⟨0, 0, 0, 0, 0, 0, 0, 1⟩ || ip = ⟨0, 0, 0, 0, 0, 0, 0, 0⟩ || ip.s0 &&& 0xfe00 = 0xfc00 ||
      ip.s0 &&& 0xffc0 = 0xfe80 || ip.s0 &&& 0xff00 = 0xff00 then true
  -- IPv4-mapped and IPv4-compatible
  else if ip.s0 = 0 && ip.s1 = 0 && ip.s2 = 0 && ip.s3 = 0 && ip.s4 = 0 && (ip.s5 = 0xffff || ip.s5 = 0) then
    isPrivateOrLocalIpv4 (embeddedIpv4 ip.s6 ip.s7)
  -- NAT64
  else if ip.s0 = 0x0064 && ip.s1 = 0xff9b && ip.s2 = 0 && ip.s3 = 0 && ip.s4 = 0 && ip.s5 = 0 then
    isPrivateOrLocalIpv4 (embeddedIpv4 ip.s6 ip.s7)
  -- 6to4
  else if ip.s0 = 0x2002 then isPrivateOrLocalIpv4 (embeddedIpv4 ip.s1 ip.s2)
  -- Teredo, inverted
  else if ip.s0 = 0x2001 && ip.s1 = 0 then isPrivateOrLocalIpv4 (embeddedIpv4 (~~~ip.s6) (~~~ip.s7))
  -- ISATAP
  else if (ip.s4 = 0 || ip.s4 = 0x0200) && ip.s5 = 0x5efe then
    isPrivateOrLocalIpv4 (embeddedIpv4 ip.s6 ip.s7)
  else false

/-- `is_private_or_local_ip`. -/
def isPrivateOrLocalIp : IpAddr → Bool
  | .v4 ip => isPrivateOrLocalIpv4 ip
  | .v6 ip => isPrivateOrLocalIpv6 ip

/-! ## URLs and the libraries -/

def isHttpScheme (scheme : Str) : Bool := scheme = "http".toList || scheme = "https".toList

/-- A parsed URL. The parser writes the host of an http(s) URL in lower case. -/
structure Url where
  scheme : Str
  hostStr : Option Str
  text : Str
  host_lower : isHttpScheme scheme = true → ∀ host, hostStr = some host → host.map Char.toLower = host
  deriving DecidableEq

inductive ClientError where
  | badScheme
  | noHost
  | dns (msg : Str)
  | connect
  | noResponse
  | tooManyRedirects (msg : Str)
  | redirectRefused (err : ZeptoError)
  deriving DecidableEq, Repr

/-- What the tools take from the `url`, `http` and `reqwest` crates and from the standard
library's text functions. -/
structure NetLib where
  parseUrl : Str → Except Str Url
  parseIp : Str → Option IpAddr
  showIp : IpAddr → Str
  toLowercase : Str → Str
  toUppercase : Str → Str
  validMethod : Str → Bool
  showClientError : ClientError → Str

/-- The network: the answer to the `k`-th lookup, whether there is an HTTP proxy, and
whether an HTTP client can be built. -/
structure Network where
  dns : ℕ → Str → Except Str (List IpAddr)
  proxy : Bool
  clientBuild : Except Str Unit

variable (lib : NetLib) (net : Network)

/-! ## Host checks -/

/-- The brackets of an IPv6 literal removed. -/
def stripBrackets : Str → Str
  | '[' :: rest => if rest.getLast? = some ']' then rest.dropLast else '[' :: rest
  | host => host

/-- The address a host names by itself. -/
def literalIp (host : Str) : Option IpAddr := lib.parseIp (stripBrackets host)

/-- `is_blocked_host`. -/
def isBlockedHost (url : Url) : Bool :=
  match url.hostStr with
  | none => true
  | some hostStr =>
    let host := hostStr.map Char.toLower
    if host = "localhost".toList || ".local".toList <:+ host then true
    else
      match literalIp lib host with
      | some ip => isPrivateOrLocalIp ip
      | none => false

/-- `lookup_host`: a bracketed address is no name to look up. -/
def lookupHost (clock : ℕ) (host : Str) : Except Str (List IpAddr) × ℕ :=
  match literalIp lib host with
  | some ip => (.ok [ip], clock)
  | none => (net.dns clock host, clock + 1)

def privateAnswer (host : Str) (ip : IpAddr) : ZeptoError :=
  .securityViolation ("DNS for '".toList ++ host ++ "' resolved to private/local IP ".toList ++ lib.showIp ip)

/-- `resolve_and_check_host`, with the number of the next lookup. -/
def resolveAndCheckHost (clock : ℕ) (url : Url) : Except ZeptoError (Option (Str × IpAddr)) × ℕ :=
  match url.hostStr with
  | none => (.error (.securityViolation "URL has no host".toList), clock)
  | some host =>
    if (lib.parseIp host).isSome then (.ok none, clock)
    else
      match lookupHost lib net clock host with
      | (.error e, clock) =>
        if net.proxy then (.ok none, clock)
        else (.error (.tool ("DNS lookup failed for '".toList ++ host ++ "': ".toList ++ e)), clock)
      | (.ok addrs, clock) =>
        match addrs.find? isPrivateOrLocalIp with
        | some ip => (.error (privateAnswer lib host ip), clock)
        | none => (.ok (addrs.head?.map fun ip => (host, ip)), clock)

/-- `validate_redirect_target_basic`. -/
def validateRedirectTargetBasic (url : Url) : Except ZeptoError Unit :=
  if !isHttpScheme url.scheme then
    .error (.securityViolation ("Redirect destination scheme is blocked: ".toList ++ url.scheme))
  else if isBlockedHost lib url then
    .error (.securityViolation
      ("Redirect destination is blocked (local or private network): ".toList ++ url.text))
  else .ok ()

/-- `validate_redirect_target`, and `validate_redirect_target_for_policy`, which runs it
in a thread of its own. -/
def validateRedirectTarget (clock : ℕ) (url : Url) : Except ZeptoError Unit × ℕ :=
  match validateRedirectTargetBasic lib url with
  | .error e => (.error e, clock)
  | .ok () =>
    match resolveAndCheckHost lib net clock url with
    | (.error e, clock) => (.error e, clock)
    | (.ok _, clock) => (.ok (), clock)

/-- `MAX_HTTP_REQUEST_REDIRECTS` and `MAX_WEB_FETCH_REDIRECTS`. -/
def maxRedirects : ℕ := 5

/-- `http_request_redirect_policy` and `web_fetch_redirect_policy`; `previous` holds the
first URL too. -/
def redirectPolicy (clock : ℕ) (previous : List Url) (target : Url) : Except ClientError Unit × ℕ :=
  if maxRedirects ≤ previous.length then
    (.error (.tooManyRedirects "Too many redirects (max 5)".toList), clock)
  else
    match validateRedirectTarget lib net clock target with
    | (.error e, clock) => (.error (.redirectRefused e), clock)
    | (.ok (), clock) => (.ok (), clock)

/-! ## The HTTP client -/

inductive NetEvent where
  | connect (host : Str) (ip : IpAddr)
  | request (url : Url)
  deriving DecidableEq

/-- What becomes of one request. -/
inductive Reply where
  | refused
  | lost
  | response (status : ℕ) (location : Option Url)

/-- The URL a reply redirects to. -/
def Reply.redirectTarget : Reply → Option Url
  | .response status location => if status ∈ [301, 302, 303, 307, 308] then location else none
  | _ => none

inductive Phase where
  | contacting (url : Url)
  | done (result : Except ClientError (Url × ℕ))

/-- The client between two requests. -/
structure ClientState where
  phase : Phase
  previous : List Url
  clock : ℕ
  events : List NetEvent

/-- The addresses the client connects to for a host. -/
def clientAddrs (pin : Option (Str × IpAddr)) (clock : ℕ) (host : Str) : Except Str (List IpAddr) × ℕ :=
  match literalIp lib host with
  | some ip => (.ok [ip], clock)
  | none =>
    match pin.filter fun p => p.1 = host with
    | some p => (.ok [p.2], clock)
    | none => (net.dns clock host, clock + 1)

/-- The connections opened for a URL; behind a proxy none goes to the host itself. -/
def openConnection (pin : Option (Str × IpAddr)) (clock : ℕ) (url : Url) :
    Except ClientError (List NetEvent) × ℕ :=
  if !isHttpScheme url.scheme then (.error .badScheme, clock)
  else
    match url.hostStr with
    | none => (.error .noHost, clock)
    | some host =>
      if net.proxy then (.ok [], clock)
      else
        match clientAddrs lib net pin clock host with
        | (.error e, clock) => (.error (.dns e), clock)
        | (.ok [], clock) => (.error .connect, clock)
        | (.ok addrs, clock) => (.ok (addrs.map (.connect host)), clock)

/-- The reply to a request that is under way. -/
def receiveReply (st : ClientState) (url : Url) (reply : Reply) : ClientState :=
  match reply with
  | .refused => { st with phase := .done (.error .connect) }
  | .lost => { st with phase := .done (.error .noResponse), events := st.events ++ [.request url] }
  | .response status _ =>
    let st : ClientState := { st with previous := st.previous ++ [url], events := st.events ++ [.request url] }
    match reply.redirectTarget with
    | none => { st with phase := .done (.ok (url, status)) }
    | some target =>
      match redirectPolicy lib net st.clock st.previous target with
      | (.error e, clock) => { st with phase := .done (.error e), clock := clock }
      | (.ok (), clock) => { st with phase := .contacting target, clock := clock }

/-- One hop: connect, send the request, and act on the reply. -/
def clientStep (pin : Option (Str × IpAddr)) (st : ClientState) (reply : Reply) : ClientState :=
  match st.phase with
  | .done _ => st
  | .contacting url =>
    match openConnection lib net pin st.clock url with
    | (.error e, clock) => { st with phase := .done (.error e), clock := clock }
    | (.ok connects, clock) =>
      receiveReply lib net { st with clock := clock, events := st.events ++ connects } url reply

/-- A client with its pinned host, about to send its first request. -/
structure Sending where
  pin : Option (Str × IpAddr)
  state : ClientState

def Sending.run (s : Sending) (replies : List Reply) : ClientState :=
  runSteps (clientStep lib net s.pin) s.state replies

/-- A first request to `url`, after `clock` lookups. -/
def Sending.first (pin : Option (Str × IpAddr)) (clock : ℕ) (url : Url) : Sending :=
  ⟨pin, ⟨.contacting url, [], clock, []⟩⟩

/-- What both tools make of the end of the run: the final destination is checked again. -/
def finishRequest (failed : Str) (st : ClientState) : Option (Except ZeptoError (Url × ℕ)) :=
  match st.phase with
  | .contacting _ => none
  | .done (.error e) => some (.error (.tool (failed ++ lib.showClientError e)))
  | .done (.ok (url, status)) =>
    match validateRedirectTarget lib net st.clock url with
    | (.error e, _) => some (.error e)
    | (.ok (), _) => some (.ok (url, status))

/-! ## The tools -/

/-- `host_matches`. -/
def hostMatches (pattern host : Str) : Bool :=
  match pattern with
  | '*' :: '.' :: suffix => host = suffix || '.' :: suffix <:+ host
  | _ => host = pattern

namespace HttpRequestTool

/-- The host of the URL is on the list. -/
def hostAllowed (allowedDomains : List Str) (url : Url) : Bool :=
  allowedDomains.any fun d => hostMatches d (lib.toLowercase (url.hostStr.getD []))

/-- `HttpRequestTool::validate_url`. -/
def validateUrl (allowedDomains : List Str) (rawUrl : Str) : Except ZeptoError Url :=
  let url := trim rawUrl
  if url = [] then .error (.tool "URL cannot be empty".toList)
  else if url.any isWhitespace then .error (.tool "URL cannot contain whitespace".toList)
  else if !("http://".toList <+: url) && !("https://".toList <+: url) then
    .error (.tool "Only http:// and https:// URLs are allowed".toList)
  else if allowedDomains = [] then .error (.tool "http_request tool: no allowed_domains configured".toList)
  else
    match lib.parseUrl url with
    | .error e => .error (.tool ("Invalid URL: ".toList ++ e))
    | .ok parsed =>
      if isBlockedHost lib parsed then .error (.tool ("Blocked private/local host: ".toList ++ url))
      else if !hostAllowed lib allowedDomains parsed then
        .error (.tool ("Host '".toList ++ lib.toLowercase (parsed.hostStr.getD []) ++
          "' not in allowed_domains".toList))
      else .ok parsed

/-- The arguments that decide where the request goes. -/
structure Args where
  url : Option Str
  method : Option Str

/-- `HttpRequestTool::execute` up to `send`. -/
def start (allowedDomains : List Str) (args : Args) : Except ZeptoError Sending :=
  match args.method with
  | none => .error (.tool "Missing required parameter: method".toList)
  | some methodStr =>
    match validateUrl lib allowedDomains (args.url.getD []) with
    | .error e => .error e
    | .ok parsed =>
      match resolveAndCheckHost lib net 0 parsed with
      | (.error e, _) => .error e
      | (.ok pinned, clock) =>
        let method := lib.toUppercase methodStr
        if !lib.validMethod method then .error (.tool ("Unknown HTTP method: ".toList ++ method))
        else
          match net.clientBuild with
          | .error e => .error (.tool ("HTTP client error: ".toList ++ e))
          | .ok () => .ok (.first pinned clock parsed)

/-- `HttpRequestTool::execute`: what it does on the network, and its result once the run
has ended. -/
def execute (allowedDomains : List Str) (args : Args) (replies : List Reply) :
    List NetEvent × Option (Except ZeptoError (Url × ℕ)) :=
  match start lib net allowedDomains args with
  | .error e => ([], some (.error e))
  | .ok s =>
    ((s.run lib net replies).events,
      finishRequest lib net "Request failed: ".toList (s.run lib net replies))

end HttpRequestTool

namespace WebFetchTool

/-- `WebFetchTool::execute` up to `send`: a client that cannot be built is replaced by the
tool's own, which pins nothing. -/
def start (url : Option Str) : Except ZeptoError Sending :=
  match (url.map trim).filter (· ≠ []) with
  | none => .error (.tool "Missing 'url' parameter".toList)
  | some url =>
    match lib.parseUrl url with
    | .error e => .error (.tool ("Invalid URL '".toList ++ url ++ "': ".toList ++ e))
    | .ok parsed =>
      if !isHttpScheme parsed.scheme then .error (.tool "Only http/https URLs are allowed".toList)
      else if isBlockedHost lib parsed then
        .error (.securityViolation "Blocked URL host (local or private network)".toList)
      else
        match resolveAndCheckHost lib net 0 parsed with
        | (.error e, _) => .error e
        | (.ok pinned, clock) =>
          match net.clientBuild with
          | .error _ => .ok (.first none clock parsed)
          | .ok () => .ok (.first pinned clock parsed)

/-- `WebFetchTool::execute`, likewise. -/
def execute (url : Option Str) (replies : List Reply) :
    List NetEvent × Option (Except ZeptoError (Url × ℕ)) :=
  match start lib net url with
  | .error e => ([], some (.error e))
  | .ok s =>
    ((s.run lib net replies).events,
      finishRequest lib net "Web fetch failed: ".toList (s.run lib net replies))

end WebFetchTool

end Zeptoclaw
