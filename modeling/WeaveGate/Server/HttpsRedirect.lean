import WeaveGate.Handler.ErrorPage

/-!
# From HTTP to HTTPS

`https_redirect.rs`, and the service of the redirect server in `server.rs`.
-/

namespace WeaveGate.Server

open Http
open Posix (Path FileTree)
open Static (Body Failure)

structure RedirectOpts where
  httpsHostname : Str
  httpsPort : UInt16
  allowedHosts : List Str

variable {β : Type}

/-- `req.uri()` is printed as a whole. -/
def redirectUrl (opts : RedirectOpts) (uri : Uri) : Str :=
  "https://".toList ++ opts.httpsHostname ++ ':' :: Nat.toDigits 10 opts.httpsPort.toNat ++ uri.toStr

/-- The first `Host` field, when it is an authority. -/
def typedHost (parseAuthority : HeaderValue → Option Authority) (req : Request β) : Option Authority :=
  Static.typedGet req.headers .host fun values => values.head?.bind parseAuthority

/-- A text that is no header value makes `unwrap` panic. -/
def redirectToHttps (parseAuthority : HeaderValue → Option Authority) (req : Request β) (opts : RedirectOpts) :
    Except Failure (Response Body) :=
  match typedHost parseAuthority req with
  | some host =>
      if !opts.allowedHosts.any (· = Authority.host host) then .error (.status .badRequest)
      else match HeaderValue.fromStr (redirectUrl opts req.uri) with
        | some url => .ok (((Response.new Body.empty).withStatus .movedPermanently).insertHeader .location url)
        | none => .error .panic
  | none => .error (.status .badRequest)

def redirectService (t : FileTree) (page404 page50x : Path) (parseAuthority : HeaderValue → Option Authority)
    (opts : RedirectOpts) (req : Request β) : Except Failure (Response Body) :=
  match redirectToHttps parseAuthority req opts with
  | .ok resp => .ok resp
  | .error (.status status) => .ok (Handler.errorResponse t req.method status page404 page50x)
  | .error .panic => .error .panic

end WeaveGate.Server
