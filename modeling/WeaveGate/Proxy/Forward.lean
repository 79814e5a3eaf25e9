import WeaveGate.Proxy.Rules

/-!
# Forwarding a request to an upstream

`proxy.rs` from the matched rule to the relayed response: the upstream URI, the header fields of the upstream
request, the plain path, the upgrade path and `pre_process`.

The counter of the rule's balancer is shared by all connections, so a request takes whatever value
`fetch_add` returns to it: that value is the argument `ticket`.
-/

namespace WeaveGate.Proxy

open Http Settings

/-! ## The upstream URI -/

variable (parseUri : Str → Option Uri)

def strippedPathAndQuery (stripPrefix : Option Str) (pathAndQuery : Str) : Str :=
  match stripPrefix with
  | some pre => (Text.stripPrefix pathAndQuery pre).getD pathAndQuery
  | none => pathAndQuery

def requireSlash (pathAndQuery : Str) : Except Error Str :=
  if pathAndQuery = [] then .ok ['/']
  else if Text.startsWith pathAndQuery '/' = true then .ok pathAndQuery
  else .error ("invalid path after strip-prefix: ".toList ++ pathAndQuery)

def mergedPath (template : UpstreamUriTemplate) (pathAndQuery : Str) : Str :=
  if template.basePath = [] ∨ template.basePath = ['/'] then pathAndQuery
  else Text.trimEndMatches '/' template.basePath ++ pathAndQuery

def buildUpstreamUriFromTemplate (template : UpstreamUriTemplate) (reqUri : Uri) : Except Error Uri := do
  let pathAndQuery ← requireSlash
    (strippedPathAndQuery template.stripPrefix (reqUri.pathAndQuery.elim ['/'] PathAndQuery.asStr))
  let full := template.origin ++ mergedPath template pathAndQuery
  (parseUri full).elim (.error ("invalid upstream URI: ".toList ++ full)) .ok

/-- The balancer's counter is a `usize`. -/
def upstreamUriForRule (rule : ProxyRule) (ticket : Nat) (reqUri : Uri) : Except Error Uri :=
  match rule.uriTemplates[(rule.balancer.nextIndex 64 ticket).1]? with
  | none => .error "proxy URI template index out of range".toList
  | some template => buildUpstreamUriFromTemplate parseUri template reqUri

/-! ## Header fields -/

def isHopByHopHeader (name : HeaderName) : Bool :=
  name ∈ [HeaderName.connection, .keepAlive, .proxyAuthenticate, .proxyAuthorization, .te, .trailers,
    .transferEncoding, .upgrade, .proxyConnection]

def copyForwardableHeaders (src dst : HeaderMap) : HeaderMap :=
  Multimap.insertAll (fun name => !(isHopByHopHeader name || name = .host)) src dst

def copyUpgradeRequestHeaders (src dst : HeaderMap) : HeaderMap :=
  Multimap.insertAll (fun name => name ≠ .host) src dst

def setUpstreamHost (headers : HeaderMap) (upstreamUri : Uri) : Except Error HeaderMap :=
  match upstreamUri.authority with
  | none => .error "upstream URI has no authority".toList
  | some authority =>
      match HeaderValue.fromStr authority with
      | none => .error ("invalid upstream Host header value: ".toList ++ authority)
      | some host => .ok (headers.insert .host host)

/-- `remoteIp` is the text of the peer's address. -/
def appendForwardedHeaders {β : Type} (headers : HeaderMap) (req : Request β) (remoteIp : Option Str) :
    HeaderMap :=
  let headers := match remoteIp with
    | some ip => (HeaderValue.fromStr ip).elim headers fun value => headers.insert .xForwardedFor value
    | none => (req.headers.get? .xForwardedFor).elim headers fun existing =>
        headers.insert .xForwardedFor existing
  let proto := ((req.headers.get? .xForwardedProto).orElse fun _ =>
    req.uri.scheme.bind HeaderValue.fromStr).getD (HeaderValue.fromStatic "http")
  let headers := headers.insert .xForwardedProto proto
  (req.headers.get? .host).elim headers fun host => headers.insert .xForwardedHost host

def removeHopByHopRequestHeaders (headers : HeaderMap) : HeaderMap :=
  headers |> Multimap.removeAll [HeaderName.connection, .proxyAuthorization, .te, .trailer, .transferEncoding,
    .upgrade, .keepAlive, .proxyAuthenticate, .proxyConnection]

def removeHopByHopResponseHeaders (headers : HeaderMap) : HeaderMap := removeHopByHopRequestHeaders headers

def preserveStreamingResponseHeaders (headers : HeaderMap) : HeaderMap :=
  headers |> Multimap.removeAll [HeaderName.proxyAuthorization, .proxyAuthenticate, .proxyConnection]

def preserveUpgradeResponseHeaders (headers : HeaderMap) : HeaderMap := headers

/-- Whether the first `Connection` field lists the token. -/
def connectionHeaderHasToken (headers : HeaderMap) (token : Str) : Bool :=
  ((headers.get? .connection).bind HeaderValue.toStr).any fun value =>
    (value.splitOn ',').any fun part => Text.eqIgnoreAsciiCase (Text.trim part) token

variable {β : Type}

def isProtocolUpgrade (req : Request β) : Bool :=
  req.headers.contains .upgrade && connectionHeaderHasToken req.headers "upgrade".toList

def isStreamingRequest (req : Request β) : Bool :=
  ((req.headers.get? .accept).bind HeaderValue.toStr).any fun accept =>
    Text.contains (Text.toAsciiLowercase accept) "text/event-stream".toList

/-! ## The two paths -/

/-- What one request made the proxy do: the requests it handed to the client, and its answer. -/
structure Exchange (β : Type) where
  sent : List (Request β)
  result : Except Error (Response β)

/-- An upstream client, one answer for each request. -/
abbrev HttpClient (β : Type) := Request β → Except Error (Response β)

/-- The request that `forward_http` hands to the client. -/
def upstreamHttpRequest (rule : ProxyRule) (ticket : Nat) (req : Request β) (remoteIp : Option Str) :
    Except Error (Request β) := do
  let upstreamUri ← upstreamUriForRule parseUri rule ticket req.uri
  let headers ← setUpstreamHost (copyForwardableHeaders req.headers []) upstreamUri
  let headers := removeHopByHopRequestHeaders (appendForwardedHeaders headers req remoteIp)
  return { method := req.method, uri := upstreamUri, headers, body := req.body }

def forwardHttp (client : HttpClient β) (rule : ProxyRule) (ticket : Nat) (req : Request β)
    (remoteIp : Option Str) : Exchange β :=
  match upstreamHttpRequest parseUri rule ticket req remoteIp with
  | .error e => ⟨[], .error e⟩
  | .ok upstreamReq =>
      match client upstreamReq with
      | .error e => ⟨[upstreamReq], .error
          ("proxy request failed for upstream ".toList ++ upstreamReq.uri.toStr ++ ": ".toList ++ e)⟩
      | .ok resp =>
          ⟨[upstreamReq], .ok { resp with
            headers := if isStreamingRequest req then preserveStreamingResponseHeaders resp.headers
              else removeHopByHopResponseHeaders resp.headers }⟩

def upstreamUpgradeRequest (rule : ProxyRule) (ticket : Nat) (req : Request β) (remoteIp : Option Str) :
    Except Error (Request β) := do
  let upstreamUri ← upstreamUriForRule parseUri rule ticket req.uri
  let headers ← setUpstreamHost (copyUpgradeRequestHeaders req.headers []) upstreamUri
  let headers := appendForwardedHeaders headers req remoteIp
  return { method := req.method, uri := upstreamUri, headers, body := req.body }

def forwardUpgradeInner (empty : β) (client : HttpClient β) (rule : ProxyRule) (ticket : Nat)
    (req : Request β) (remoteIp : Option Str) : Exchange β :=
  match upstreamUpgradeRequest parseUri rule ticket req remoteIp with
  | .error e => ⟨[], .error e⟩
  | .ok upstreamReq =>
      match client upstreamReq with
      | .error e => ⟨[upstreamReq], .error
          ("proxy upgrade request failed for upstream ".toList ++ upstreamReq.uri.toStr ++ ": ".toList ++ e)⟩
      | .ok resp =>
          if resp.status ≠ .switchingProtocols then ⟨[upstreamReq], .ok resp⟩
          else ⟨[upstreamReq], .ok
            { resp with body := empty, headers := preserveUpgradeResponseHeaders resp.headers }⟩

/-- `permits` is the number of tunnels that may still be opened, none when they are not limited. -/
def forwardUpgrade (empty : β) (permits : Option Nat) (client : HttpClient β) (rule : ProxyRule)
    (ticket : Nat) (req : Request β) (remoteIp : Option Str) : Exchange β :=
  if permits = some 0 then ⟨[], .ok ((Response.new empty).withStatus .serviceUnavailable)⟩
  else forwardUpgradeInner parseUri empty client rule ticket req remoteIp

def preProcess (globs : GlobSet) (empty : β) (proxies : Option (List ProxyRule))
    (proxyClient : Option (HttpClient β)) (permits : Option Nat) (ticket : Nat) (req : Request β)
    (remoteIp : Option Str) : Option (Exchange β) := do
  let rule ← findRule globs proxies req
  let client ← proxyClient
  if isProtocolUpgrade req then
    return forwardUpgrade parseUri empty permits client rule ticket req remoteIp
  else
    return forwardHttp parseUri client rule ticket req remoteIp

end WeaveGate.Proxy
