import WeaveGate.Handler.Types
import WeaveGate.Lib.IpAddr
import WeaveGate.Settings.Patterns

/-!
# The configuration file

`settings/file.rs`: the options as they are written, and how the file is read. What is no TOML, and what has a value of
another type, is decided by the crates that read it. Unknown keys are warned about and left out.
-/

namespace WeaveGate.Settings

open Http
open Posix (FileTree Octets Path)

/-- An error has the text of its last context. -/
def withContext {α : Type} (text : String) : Option α → Except Error α
  | some a => .ok a
  | none => .error text.toList

namespace File

inductive LogLevel where
  | error
  | warn
  | info
  | debug
  | trace
deriving DecidableEq

def LogLevel.name : LogLevel → Str
  | error => "error".toList
  | warn => "warn".toList
  | info => "info".toList
  | debug => "debug".toList
  | trace => "trace".toList

/-! ## Advanced options -/

structure Headers where
  source : Str
  headers : HeaderMap

structure ProxyTls where
  caFile : Option Str
  caFiles : Option (List Str)
  disableWebpkiRoots : Option Bool

structure VirtualHosts where
  host : Str
  root : Option Path

structure Advanced where
  headers : Option (List Headers)
  rewrites : Option (List RewritesEntry)
  redirects : Option (List RedirectsEntry)
  virtualHosts : Option (List VirtualHosts)
  proxies : Option (List Proxy)
  routesBootstrap : Option RoutesBootstrap
  proxyTls : Option ProxyTls
  proxyPoolMaxIdlePerHost : Option Nat
  proxyPoolIdleTimeoutSecs : Option Nat
  proxyFirst : Option Bool
  maxUpgradeTunnels : Option Nat
  memoryCache : Option MemoryCache

/-! ## General options -/

structure General where
  host : Option Str
  port : Option UInt16
  root : Option Path
  logLevel : Option LogLevel
  logWithAnsi : Option Bool
  cacheControlHeaders : Option Bool
  compression : Option Bool
  compressionLevel : Option Handler.CompressionLevel
  compressionStatic : Option Bool
  page404 : Option Path
  page50x : Option Path
  http2 : Option Bool
  http2TlsCert : Option Path
  http2TlsKey : Option Path
  httpsRedirect : Option Bool
  httpsRedirectHost : Option Str
  httpsRedirectFromPort : Option UInt16
  httpsRedirectFromHosts : Option Str
  securityHeaders : Option Bool
  corsAllowOrigins : Option Str
  corsAllowHeaders : Option Str
  corsExposeHeaders : Option Str
  indexFiles : Option Str
  directoryListing : Option Bool
  directoryListingOrder : Option Nat
  directoryListingFormat : Option Static.DirListFmt
  directoryListingDownload : Option (List Static.DirDownloadFmt)
  basicAuth : Option Str
  fd : Option Nat
  threadsMultiplier : Option Nat
  maxBlockingThreads : Option Nat
  gracePeriod : Option Nat
  pageFallback : Option Path
  logRemoteAddress : Option Bool
  logXRealIp : Option Bool
  logForwardedFor : Option Bool
  trustedProxies : Option (List IpAddr)
  redirectTrailingSlash : Option Bool
  ignoreHiddenFiles : Option Bool
  disableSymlinks : Option Bool
  health : Option Bool
  acceptMarkdown : Option Bool
  textCharset : Option Bool
  metrics : Option Bool
  maintenanceMode : Option Bool
  maintenanceModeStatus : Option Nat
  maintenanceModeFile : Option Path

end File

structure FileSettings where
  general : Option File.General
  advanced : Option File.Advanced

/-! ## Reading -/

/-- `toml::from_str` and `serde_ignored::deserialize`. -/
structure TomlCrates where
  Value : Type
  fromStr : Str → Option Value
  deserialize : Value → Option FileSettings

namespace FileSettings

variable (toml : TomlCrates) (t : FileTree)

def readFile (path : Path) : Option Str :=
  (t.open path).toOption.bind fun file => (FileTree.OpenFile.content file).bind Utf8.decode

def readTomlFile (path : Path) : Option toml.Value := (readFile t path).bind toml.fromStr

/-- What follows the last dot of a file name, unless that dot is its first character. -/
def extension (path : Path) : Option Octets :=
  (Posix.Path.fileName path).bind fun name =>
    let stem := (name.reverse.dropWhile (· ≠ Posix.dot)).tail.reverse
    if stem = [] then none else some (name.reverse.takeWhile (· ≠ Posix.dot)).reverse

def read (configFile : Path) : Except Error FileSettings :=
  if extension configFile ≠ some (Posix.utf8 "toml".toList) then
    .error "configuration file should be in toml format. E.g \x60weavegate.toml\x60".toList
  else do
    let value ← withContext "error reading toml configuration file" (readTomlFile toml t configFile)
    withContext "error during toml configuration file deserialization" (toml.deserialize value)

end FileSettings

end WeaveGate.Settings
