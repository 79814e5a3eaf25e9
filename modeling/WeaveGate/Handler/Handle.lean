import WeaveGate.Handler.PostProcess

/-!
# The request handler

`RequestHandler::handle`: the stages in their order, `try_reverse_proxy` at one of two places among them, and the
static files at their end. The log lines and the recording of metrics are left out.
-/

namespace WeaveGate.Handler

open Http Settings
open Static (Body)

/-- What handling one request did: the requests handed to the upstream client, the call of the static handler, and
the answer. Only the static handler may panic. -/
structure Outcome where
  sent : List (Request Body)
  staticCall : Option Static.HandleOpts
  result : Except Static.Failure (Response Body)

def Outcome.answer (resp : Response Body) : Outcome := ⟨[], none, .ok resp⟩

variable (crates : Crates) (w : World) (opts : RequestHandlerOpts) (remoteIp : Option Str)

/-! ## Early stages -/

/-- The answers of the stages before the proxy and the redirects. The first that is there counts. -/
def earlyStages (req : Request Body) : List (Option (Response Body)) :=
  [ healthPreProcess opts req, metricsPreProcess w opts req, corsPreProcess w opts req,
    basicAuthPreProcess crates w opts req, maintenancePreProcess w opts req ]

/-! ## Reverse proxy -/

def errorPage (req : Request Body) (status : StatusCode) : Response Body :=
  errorResponse w.tree req.method status opts.page404 opts.page50x

def proxyAnswer (req : Request Body) : Except Error (Response Body) → Response Body
  | .error _ => errorPage w opts req .badGateway
  | .ok resp => if resp.status = .switchingProtocols then resp else corsPostProcess opts req resp

def tryReverseProxy (req : Request Body) : Option Outcome := do
  let exchange ← Proxy.preProcess crates.parseUri crates.globs .empty (opts.advancedOpts.bind (·.proxies))
    opts.proxyClient w.permits w.ticket req remoteIp
  return ⟨exchange.sent, none, .ok (proxyAnswer w opts req exchange.result)⟩

/-! ## Static files -/

/-- `request_host_str` of `get_real_root`. -/
def requestHostStr (req : Request Body) : Option Str :=
  match req.uri.authority with
  | some authority => some (Authority.host authority)
  | none => do
      let hostHeader ← (req.headers.get? .host).bind HeaderValue.toStr
      let withoutPort := (Text.rsplitOnce ':' hostHeader).bind fun (potentialHost, potentialPort) =>
        if (Text.parseUnsigned 65535 potentialPort).isSome then some potentialHost else none
      return withoutPort.getD hostHeader

def getRealRoot (req : Request Body) (vhostsOpts : Option (List VirtualHosts)) : Option Posix.Path := do
  let vhosts ← vhostsOpts
  if vhosts.isEmpty then none
  else
    let host ← requestHostStr req
    let vhost ← vhosts.find? fun vhost => vhost.host = host
    return vhost.root

/-- The call of the static handler for a request whose path may have been replaced by that of a markdown file. -/
def staticCall (req : Request Body) (basePath : Posix.Path) (uriPath : Str) : Static.HandleOpts :=
  { method := req.method, memoryCache := opts.memoryCache, headers := req.headers, basePath, uriPath
    indexFiles := opts.indexFiles, uriQuery := req.uri.query, dirListing := opts.dirListing
    dirListingOrder := opts.dirListingOrder, dirListingFormat := opts.dirListingFormat
    dirListingDownload := opts.dirListingDownload, redirectTrailingSlash := opts.redirectTrailingSlash
    compressionStatic := opts.compressionStatic, ignoreHiddenFiles := opts.ignoreHiddenFiles
    disableSymlinks := opts.disableSymlinks }

def postProcess (req : Request Body) (isMarkdown : Bool) (filePath : Option Posix.Path) (resp : Response Body) :
    Response Body :=
  let resp := fallbackPostProcess opts req resp
  let resp := corsPostProcess opts req resp
  let resp := markdownPostProcess isMarkdown opts resp
  let resp := textCharsetPostProcess crates opts resp
  let resp := compressionStaticPostProcess opts resp
  let resp := compressionPostProcess crates opts req resp
  let resp := controlHeadersPostProcess opts req resp
  let resp := securityHeadersPostProcess opts resp
  customHeadersPostProcess crates opts req resp filePath

def serveStatic (req : Request Body) : Outcome :=
  let basePath := (opts.advancedOpts.bind fun adv => getRealRoot req adv.virtualHosts).getD opts.rootDir
  let uriPathMd :=
    if opts.acceptMarkdown then markdownPreProcess crates w.tree req.headers basePath req.uri.path else none
  let call := staticCall opts req basePath (uriPathMd.getD req.uri.path)
  let finish := postProcess crates opts req uriPathMd.isSome
  ⟨[], some call, match Static.handle crates.static w.tree w.store call with
    | .ok r => .ok (finish (some r.filePath) r.resp)
    | .error (.status status) => .ok (finish none (errorPage w opts req status))
    | .error .panic => .error .panic⟩

/-! ## The stages in their order -/

def handleRouted (req : Request Body) : Outcome :=
  match redirectsPreProcess crates w opts req with
  | some resp => .answer resp
  | none =>
      match rewritesPreProcess crates w opts req with
      | (some resp, _) => .answer resp
      | (none, req) =>
          let proxied := if opts.proxyFirst then none else tryReverseProxy crates w opts remoteIp req
          proxied.getD (serveStatic crates w opts req)

def handle (req : Request Body) : Outcome :=
  if !Static.isAllowed req.method then .answer (errorPage w opts req .methodNotAllowed)
  else
    match (earlyStages crates w opts req).findSome? id with
    | some resp => .answer resp
    | none =>
        let proxied := if opts.proxyFirst then tryReverseProxy crates w opts remoteIp req else none
        proxied.getD (handleRouted crates w opts remoteIp req)

end WeaveGate.Handler
