import WeaveGate.Handler.ErrorPage

/-!
# Stages before the files

The `pre_process` functions of `health.rs`, `metrics.rs`, `cors.rs`, `basic_auth.rs`, `maintenance_mode.rs`,
`redirects.rs` and `rewrites.rs`. A stage that answers ends the handling of the request. No stage fails.
-/

namespace WeaveGate.Handler

open Http Settings
open Posix (Octets Path FileTree)
open Static (Body)

variable {β : Type}

/-! ## Health and metrics -/

def healthPreProcess (opts : RequestHandlerOpts) (req : Request β) : Option (Response Body) :=
  if !opts.health then none
  else if req.uri.path ≠ "/health".toList then none
  else
    let reply (body : Body) := (Response.new body).insertHeader .contentType (HeaderValue.fromStatic "text/html")
    match req.method with
    | .head => some (reply .empty)
    | .get => some (reply (.full (Posix.utf8 "OK".toList)))
    | _ => none

def metricsPreProcess (w : World) (opts : RequestHandlerOpts) (req : Request β) : Option (Response Body) :=
  if !opts.metricsEnabled then none
  else if req.uri.path ≠ "/metrics".toList then none
  else if req.method ≠ .get ∧ req.method ≠ .head then none
  else
    let body := if req.method = .get then Body.full w.metrics else .empty
    some ((Response.new body).insertHeader .contentType (HeaderValue.fromStatic "text/plain; charset=utf-8"))

/-! ## CORS -/

inductive Validated where
  | preflight (origin : HeaderValue)
  | simple (origin : HeaderValue)
  | notCors

inductive Forbidden where
  | origin
  | method
  | header

namespace Configured

variable (self : Configured)

def isMethodAllowed (header : HeaderValue) : Bool :=
  ((HeaderValue.toStr header).bind Method.fromStr).any (· ∈ self.cors.allowedMethods)

def isHeaderAllowed (header : Str) : Bool :=
  header ≠ [] && (HeaderName.fromStr header).any (· ∈ self.cors.allowedHeaders)

def isOriginAllowed (origin : HeaderValue) : Bool := origin ≠ [] && self.cors.origins.all (origin ∈ ·)

def appendPreflightHeaders (headers : HeaderMap) : HeaderMap :=
  let headers := headers.insert HeaderName.accessControlAllowHeaders self.allowedHeaders
  let headers := headers.insert HeaderName.accessControlExposeHeaders self.exposedHeaders
  let headers := headers.insert HeaderName.accessControlAllowMethods self.methodsHeader
  self.cors.maxAge.elim headers fun age => headers.insert HeaderName.accessControlMaxAge (Static.decimal age)

def corsHeaders (origin : HeaderValue) : HeaderMap :=
  (self.appendPreflightHeaders []).insert HeaderName.accessControlAllowOrigin origin

def requestHeadersAllowed (headers : HeaderMap) : Bool :=
  (headers.get? .accessControlRequestHeaders).all fun value =>
    (HeaderValue.toStr value).any fun names => (names.splitOn ',').all fun name => self.isHeaderAllowed (Text.trim name)

def checkRequest (method : Method) (headers : HeaderMap) : Except Forbidden (HeaderMap × Validated) :=
  match headers.get? .origin with
  | none => .ok ([], .notCors)
  | some origin =>
      if !self.isOriginAllowed origin then .error .origin
      else if method = .options then
        match headers.get? .accessControlRequestMethod with
        | none => .error .method
        | some reqMethod =>
            if !self.isMethodAllowed reqMethod then .error .method
            else if !self.requestHeadersAllowed headers then .error .header
            else .ok (self.corsHeaders origin, .preflight origin)
      else .ok (self.corsHeaders origin, .simple origin)

end Configured

def corsPreProcess (w : World) (opts : RequestHandlerOpts) (req : Request β) : Option (Response Body) :=
  opts.cors.bind fun cors => match cors.checkRequest req.method req.headers with
    | .ok _ => none
    | .error _ => some (errorResponse w.tree req.method .forbidden opts.page404 opts.page50x)

/-- Adds the CORS fields to a response. An `Allow` field is dropped. -/
def corsPostProcess (opts : RequestHandlerOpts) (req : Request β) (resp : Response Body) : Response Body :=
  match opts.cors with
  | none => resp
  | some cors => match cors.checkRequest req.method req.headers with
      | .error _ => resp
      | .ok (headers, _) =>
          if headers = [] then resp
          else
            let resp := headers.foldl (fun resp (k, v) => resp.insertHeader k v) resp
            (resp.insertHeader .vary (Posix.utf8 HeaderName.origin)).removeHeader .allow

/-! ## Basic authentication -/

def checkRequest (crates : Crates) (headers : HeaderMap) (userid password : Str) : Except StatusCode Unit :=
  match Static.typedGet headers .authorization crates.basicCredentials with
  | none => .error .unauthorized
  | some (user, pass) =>
      if user = userid && (crates.bcryptVerify pass password).getD false then .ok () else .error .unauthorized

def basicAuthPreProcess (crates : Crates) (w : World) (opts : RequestHandlerOpts) (req : Request β) :
    Option (Response Body) :=
  if opts.basicAuth = [] then none
  else if req.method = .options then none
  else match Text.splitOnce ':' opts.basicAuth with
    | none => some (errorResponse w.tree req.method .internalServerError opts.page404 opts.page50x)
    | some (userid, password) =>
        match checkRequest crates req.headers userid password with
        | .ok () => none
        | .error _ => some ((errorResponse w.tree req.method .unauthorized opts.page404 opts.page50x).insertHeader
            .wwwAuthenticate (HeaderValue.fromStatic "Basic realm=\"WeaveGate\", charset=\"UTF-8\""))

/-! ## Maintenance mode -/

/-- `Display` of a status code. -/
def statusText (status : StatusCode) : Str :=
  Nat.toDigits 10 status.code ++ ' ' :: ((canonicalReason status).getD "<unknown status code>").toList

def maintenanceResponse (t : FileTree) (method : Method) (status : StatusCode) (filePath : Path) : Response Body :=
  htmlResponse method status <| if t.isFile filePath then pageContent t filePath
    else "<html><head><title>".toList ++ statusText status ++ ("</title></head><body><center><h1>" ++
      "The server is in maintenance mode.</h1></center></body></html>").toList

def maintenancePreProcess (w : World) (opts : RequestHandlerOpts) (req : Request β) : Option (Response Body) :=
  if opts.maintenanceMode then
    some (maintenanceResponse w.tree req.method opts.maintenanceModeStatus opts.maintenanceModeFile)
  else none

/-! ## Redirects -/

/-- Replaces `$0` to `$9` as far as there are captures. Two-digit indices are never reached, the shorter pattern
matches first. -/
def replacePatterns (caps : List Str) : Str → Str
  | '$' :: d :: dest =>
      match if d.isDigit then caps[d.toNat - '0'.toNat]? else none with
      | some cap => cap ++ replacePatterns caps dest
      | none => '$' :: replacePatterns caps (d :: dest)
  | c :: dest => c :: replacePatterns caps dest
  | [] => []

def replacePlaceholders (crates : Crates) (origUri : Str) (regex : Regex) (destUri : Str) : Except Error Str :=
  match crates.regex.captures regex origUri with
  | none => .error "regex didn't match, extracting captures failed".toList
  | some caps => .ok (replacePatterns (caps.map fun cap => cap.getD []) destUri)

def handleError (w : World) (opts : RequestHandlerOpts) (req : Request β) : Option (Response Body) :=
  some (errorResponse w.tree req.method .internalServerError opts.page404 opts.page50x)

def getRedirection (crates : Crates) (uriHost uriPath : Str) (redirects : List Redirects) : Option Redirects :=
  redirects.find? fun entry => entry.host.all (· = uriHost) && crates.regex.isMatch entry.source uriPath

def redirectHost (req : Request β) : Str :=
  let host := ((req.headers.get? .host).bind HeaderValue.toStr).getD []
  let uriHost := (req.uri.authority.map Authority.host).getD host
  (req.uri.authority.bind Authority.portU16).elim uriHost fun port => uriHost ++ ':' :: Nat.toDigits 10 port

def redirectResponse (w : World) (opts : RequestHandlerOpts) (req : Request β) (dest : Str) (status : StatusCode) :
    Option (Response Body) :=
  match HeaderValue.fromStr dest with
  | none => handleError w opts req
  | some loc => some (((Response.new Body.empty).insertHeader .location loc).withStatus status)

def redirectsPreProcess (crates : Crates) (w : World) (opts : RequestHandlerOpts) (req : Request β) :
    Option (Response Body) := do
  let redirects ← opts.advancedOpts.bind (·.redirects)
  let matched ← getRedirection crates (redirectHost req) req.uri.path redirects
  match replacePlaceholders crates req.uri.path matched.source matched.destination with
  | .error _ => handleError w opts req
  | .ok dest => redirectResponse w opts req dest matched.kind

/-! ## Rewrites -/

def uriFromParts (u : Uri) : Option Uri :=
  if u.scheme.isSome then if u.authority.isSome && u.pathAndQuery.isSome then some u else none
  else if u.authority.isSome && u.pathAndQuery.isSome then none
  else some u

/-- The parts that the new URI lacks are those of the original, and so is the query. -/
def mergeUris (crates : Crates) (origUri : Uri) (newUri : Str) : Option Uri := do
  let parts ← crates.parseUri newUri
  let parts : Uri := { scheme := parts.scheme.or origUri.scheme, authority := parts.authority.or origUri.authority
                       pathAndQuery := parts.pathAndQuery.or origUri.pathAndQuery }
  match parts.pathAndQuery, origUri.query with
  | some pq, some query =>
      if pq.query.isSome then uriFromParts parts
      else
        let merged ← PathAndQuery.parse (pq.asStr ++ '?' :: query)
        uriFromParts { parts with pathAndQuery := some merged }
  | _, _ => uriFromParts parts

def rewriteUriPath (crates : Crates) (uriPath : Str) (rewrites : List Rewrites) : Option Rewrites :=
  rewrites.find? fun entry => crates.regex.isMatch entry.source uriPath

def adjustHost (req : Request β) : Request β :=
  match req.uri.authority with
  | none => req
  | some authority =>
      let host := (Authority.portU16 authority).elim (Authority.host authority) fun port =>
        Authority.host authority ++ ':' :: Nat.toDigits 10 port
      (HeaderValue.fromStr host).elim req fun value => { req with headers := req.headers.insert HeaderName.host value }

def RedirectsKind.status : RedirectsKind → StatusCode
  | .permanent => .movedPermanently
  | .temporary => .found

/-- The answer, if the stage gives one, and the request as later stages see it. -/
def rewritesPreProcess (crates : Crates) (w : World) (opts : RequestHandlerOpts) (req : Request β) :
    Option (Response Body) × Request β :=
  match opts.advancedOpts.bind (·.rewrites) with
  | none => (none, req)
  | some rewrites =>
      match rewriteUriPath crates req.uri.path rewrites with
      | none => (none, req)
      | some matched =>
          match replacePlaceholders crates req.uri.path matched.source matched.destination with
          | .error _ => (handleError w opts req, req)
          | .ok dest =>
              match matched.redirect with
              | some kind => (redirectResponse w opts req dest (RedirectsKind.status kind), req)
              | none =>
                  match mergeUris crates req.uri dest with
                  | none => (handleError w opts req, req)
                  | some uri => (none, adjustHost { req with uri })

end WeaveGate.Handler
