import WeaveGate.Proxy.Forward
import WeaveGate.Static.Handle

/-!
# Options of the request handler

`RequestHandlerOpts`, the CORS configuration, and the functions of other crates that the stages of the handler
call.
-/

namespace WeaveGate.Handler

open Http Settings
open Posix (Octets Path FileTree)
open Static (Body)

/-! ## CORS -/

/-- `origins` is none when any origin is allowed. -/
structure Cors where
  allowedHeaders : List HeaderName
  exposedHeaders : List HeaderName
  maxAge : Option Nat
  allowedMethods : List Method
  origins : Option (List HeaderValue)

/-- The configuration with the header values it was built into. They list the sets above, in any order. -/
structure Configured where
  cors : Cors
  allowedHeaders : HeaderValue
  exposedHeaders : HeaderValue
  methodsHeader : HeaderValue

/-! ## Options -/

inductive CompressionLevel where
  | fastest
  | best
  | default

structure RequestHandlerOpts where
  rootDir : Path
  memoryCache : Option Static.MemCacheOpts
  compression : Bool
  compressionLevel : CompressionLevel
  compressionStatic : Bool
  dirListing : Bool
  dirListingOrder : Nat
  dirListingFormat : Static.DirListFmt
  dirListingDownload : List Static.DirDownloadFmt
  cors : Option Configured
  securityHeaders : Bool
  cacheControlHeaders : Bool
  page404 : Path
  page50x : Path
  pageFallback : Octets
  basicAuth : Str
  indexFiles : List Path
  redirectTrailingSlash : Bool
  ignoreHiddenFiles : Bool
  disableSymlinks : Bool
  acceptMarkdown : Bool
  textCharset : Bool
  health : Bool
  metricsEnabled : Bool
  maintenanceMode : Bool
  maintenanceModeStatus : StatusCode
  maintenanceModeFile : Path
  advancedOpts : Option Advanced
  proxyClient : Option (Proxy.HttpClient Body)
  proxyFirst : Bool

/-! ## Functions of other crates -/

inductive Level where
  | fastest
  | best
  | precise (n : Nat)

/-- A media type. The essence is in lower case and has no parameters. -/
structure Mime where
  type : Str
  essence : Str
  suffix : Option Str
  charset : Option Str

structure Crates where
  globs : GlobSet
  regex : RegexLite
  parseUri : Str → Option Uri
  static : Static.Crates
  parseMime : Str → Option Mime
  /-- User and password of the `Authorization` fields, when they are of the `Basic` schema. -/
  basicCredentials : List HeaderValue → Option (Str × Str)
  /-- Whether a password has a hash, none when the hash is no hash. -/
  bcryptVerify : Str → Str → Option Bool
  encode : Static.ContentCoding → Level → Body → Body

/-! ## What a request meets -/

structure World where
  tree : FileTree
  store : Static.Store
  /-- What the balancer's counter returns to this request. -/
  ticket : Nat
  /-- How many tunnels may still be opened, none when they are not limited. -/
  permits : Option Nat
  metrics : Octets

end WeaveGate.Handler
