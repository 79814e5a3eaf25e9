import WeaveGate.Handler.PreProcess

/-!
# CORS from its options

`cors.rs` at startup: the texts of three options become the configuration that requests are checked against. A text that
does not stand for origins or header names panics, and the server does not start. The sets are hash sets, which are
listed in an order of their own.
-/

namespace WeaveGate.Handler

open Http Settings
open Posix (Octets)

/-! ## Origins -/

/-- `splitn(2, "://")`, none where the text has only one part. -/
def splitScheme : Str → Option (Str × Str)
  | [] => none
  | c :: s =>
      match Text.stripPrefix (c :: s) "://".toList with
      | some rest => some ([], rest)
      | none => (splitScheme s).map fun parts => (c :: parts.1, parts.2)

variable (parseUri : Str → Option Uri)

/-- `Origin::try_from_parts` without a port, and the text of what it gives. -/
def tryFromParts (scheme rest : Str) : Option Str := do
  let text := scheme ++ "://".toList ++ rest
  let _ ← HeaderValue.fromStr text
  let uri ← parseUri text
  let scheme ← uri.scheme
  let authority ← uri.authority
  if uri.pathAndQuery.all fun pq => pq.asStr = ['/'] then some (scheme ++ "://".toList ++ authority) else none

def intoOrigin (host : Str) : Except Error Str :=
  match splitScheme host with
  | none => .error "cors::into_origin: missing url scheme".toList
  | some (scheme, rest) => (tryFromParts parseUri scheme rest).elim (.error "cors::into_origin: invalid Origin".toList) .ok

def originValue (host : Str) : Except Error HeaderValue := do
  let origin ← intoOrigin parseUri host
  (HeaderValue.fromStr origin).elim (.error "cors: Origin is always a valid HeaderValue".toList) .ok

/-! ## The builder -/

def extend {α : Type} [DecidableEq α] (set xs : List α) : List α := xs.foldl (fun set x => set.insert x) set

def headerName (h : Str) : Except Error HeaderName :=
  (HeaderName.fromStr h).elim (.error "cors: illegal Header".toList) .ok

namespace Cors

def new : Cors := { allowedHeaders := [], exposedHeaders := [], maxAge := none, allowedMethods := [], origins := none }

def allowMethods (self : Cors) (methods : List Str) : Except Error Cors := do
  let methods ← methods.mapM fun m => (Method.fromStr m).elim (.error "cors: illegal method".toList) .ok
  return { self with allowedMethods := extend self.allowedMethods methods }

def allowAnyOrigin (self : Cors) : Cors := { self with origins := none }

def allowOrigins (self : Cors) (hosts : List Str) : Except Error Cors := do
  let origins ← hosts.mapM (originValue parseUri)
  return { self with origins := some (extend (self.origins.getD []) origins) }

def allowHeaders (self : Cors) (headers : List Str) : Except Error Cors := do
  let headers ← headers.mapM headerName
  return { self with allowedHeaders := extend self.allowedHeaders headers }

def exposeHeaders (self : Cors) (headers : List Str) : Except Error Cors := do
  let headers ← headers.mapM headerName
  return { self with exposedHeaders := extend self.exposedHeaders headers }

/-- `FlatCsv` from the values of a set in the order in which it lists them. -/
def flatCsv (values : List Str) : HeaderValue := Posix.utf8 (", ".toList.intercalate values)

def build (order : List Str → List Str) (cors : Cors) : Configured :=
  { cors
    allowedHeaders := flatCsv (order cors.allowedHeaders)
    exposedHeaders := flatCsv (order cors.exposedHeaders)
    methodsHeader := flatCsv (order (cors.allowedMethods.map Method.asStr)) }

end Cors

/-! ## `new` and `init` -/

variable (order : List Str → List Str)

def corsHeaderList (s : Str) : List Str :=
  if s = [] then ["origin".toList, "content-type".toList] else (s.splitOn ',').map Text.trim

def corsMethods : List Str := ["GET".toList, "HEAD".toList, "OPTIONS".toList]

/-- The list of hosts is never empty. -/
def corsOrigins (origins : Str) : Except Error Cors :=
  if origins = ['*'] then .ok Cors.new.allowAnyOrigin
  else Cors.new.allowOrigins parseUri ((origins.splitOn ',').map Text.trim)

def corsNew (origins allowHeaders exposeHeaders : Str) : Except Error (Option Configured) :=
  if origins = [] then .ok none
  else do
    let cors ← corsOrigins parseUri origins
    let cors ← cors.allowHeaders (corsHeaderList allowHeaders)
    let cors ← cors.exposeHeaders (corsHeaderList exposeHeaders)
    let cors ← cors.allowMethods corsMethods
    return some (cors.build order)

def corsInit (origins allowHeaders exposeHeaders : Str) : Except Error (Option Configured) :=
  corsNew parseUri order (Text.trim origins) (Text.trim allowHeaders) (Text.trim exposeHeaders)

end WeaveGate.Handler
