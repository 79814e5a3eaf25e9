import WeaveGate.Proxy.Tunnels
import WeaveGate.Settings.File

/-!
# The settings of a server

`settings/cli.rs` and `settings/mod.rs`: the options of the command line, and what the configuration file puts in their
place. The patterns, the trust settings and the virtual hosts of the file are checked on the way.
-/

namespace WeaveGate.Settings

open Http
open Posix (FileTree Octets Path)

/-! ## Options of the command line -/

inductive Commands where
  | generate (completions manPages : Bool) (outDir : Path)

/-- Every option has a value, its own or its default. -/
structure General where
  host : Str
  port : UInt16
  fd : Option Nat
  threadsMultiplier : Nat
  maxBlockingThreads : Nat
  root : Path
  page50x : Path
  page404 : Path
  pageFallback : Path
  logLevel : Str
  logWithAnsi : Bool
  corsAllowOrigins : Str
  corsAllowHeaders : Str
  corsExposeHeaders : Str
  http2 : Bool
  http2TlsCert : Option Path
  http2TlsKey : Option Path
  httpsRedirect : Bool
  httpsRedirectHost : Str
  httpsRedirectFromPort : UInt16
  httpsRedirectFromHosts : Str
  indexFiles : Str
  compression : Bool
  compressionLevel : Handler.CompressionLevel
  compressionStatic : Bool
  directoryListing : Bool
  directoryListingOrder : Nat
  directoryListingFormat : Static.DirListFmt
  directoryListingDownload : List Static.DirDownloadFmt
  securityHeaders : Bool
  cacheControlHeaders : Bool
  basicAuth : Str
  gracePeriod : Nat
  configFile : Path
  logRemoteAddress : Bool
  logXRealIp : Bool
  logForwardedFor : Bool
  trustedProxies : List IpAddr
  redirectTrailingSlash : Bool
  ignoreHiddenFiles : Bool
  disableSymlinks : Bool
  acceptMarkdown : Bool
  textCharset : Bool
  health : Bool
  metrics : Bool
  maintenanceMode : Bool
  maintenanceModeStatus : StatusCode
  maintenanceModeFile : Path
  commands : Option Commands
  version : Bool

def pathOf (text : String) : Path := Posix.Path.parse (Posix.utf8 text.toList)

/-- The default values of `cli.rs`. -/
def General.default : General :=
  { host := "::".toList, port := 80, fd := none, threadsMultiplier := 1, maxBlockingThreads := 512
    root := pathOf "./public", page50x := pathOf "./50x.html", page404 := pathOf "./404.html", pageFallback := pathOf ""
    logLevel := "error".toList, logWithAnsi := false, corsAllowOrigins := []
    corsAllowHeaders := "origin, content-type, authorization".toList
    corsExposeHeaders := "origin, content-type".toList, http2 := false, http2TlsCert := none, http2TlsKey := none
    httpsRedirect := false, httpsRedirectHost := "localhost".toList, httpsRedirectFromPort := 80
    httpsRedirectFromHosts := "localhost".toList, indexFiles := "index.html".toList, compression := true
    compressionLevel := .default, compressionStatic := false, directoryListing := false, directoryListingOrder := 6
    directoryListingFormat := .html, directoryListingDownload := [], securityHeaders := false
    cacheControlHeaders := true, basicAuth := [], gracePeriod := 0, configFile := pathOf "./weavegate.toml"
    logRemoteAddress := false, logXRealIp := false, logForwardedFor := false, trustedProxies := []
    redirectTrailingSlash := true, ignoreHiddenFiles := true, disableSymlinks := true, acceptMarkdown := false
    textCharset := true, health := false, metrics := false, maintenanceMode := false
    maintenanceModeStatus := .serviceUnavailable, maintenanceModeFile := pathOf "", commands := none, version := false }

/-- The general options of the file in the place of those of the command line. -/
def General.withFile (opts : General) (file : File.General) (status : StatusCode) : General :=
  let http2 := file.http2.getD opts.http2
  { host := file.host.getD opts.host
    port := file.port.getD opts.port
    fd := file.fd.or opts.fd
    threadsMultiplier := file.threadsMultiplier.getD opts.threadsMultiplier
    maxBlockingThreads := file.maxBlockingThreads.getD opts.maxBlockingThreads
    root := file.root.getD opts.root
    page50x := file.page50x.getD opts.page50x
    page404 := file.page404.getD opts.page404
    pageFallback := file.pageFallback.getD opts.pageFallback
    logLevel := (file.logLevel.map File.LogLevel.name).getD opts.logLevel
    logWithAnsi := file.logWithAnsi.getD opts.logWithAnsi
    corsAllowOrigins := file.corsAllowOrigins.getD opts.corsAllowOrigins
    corsAllowHeaders := file.corsAllowHeaders.getD opts.corsAllowHeaders
    corsExposeHeaders := file.corsExposeHeaders.getD opts.corsExposeHeaders
    http2
    http2TlsCert := file.http2TlsCert.or opts.http2TlsCert
    http2TlsKey := file.http2TlsKey.or opts.http2TlsKey
    httpsRedirect := file.httpsRedirect.getD opts.httpsRedirect
    httpsRedirectHost := file.httpsRedirectHost.getD opts.httpsRedirectHost
    httpsRedirectFromPort := file.httpsRedirectFromPort.getD opts.httpsRedirectFromPort
    httpsRedirectFromHosts := file.httpsRedirectFromHosts.getD opts.httpsRedirectFromHosts
    indexFiles := file.indexFiles.getD opts.indexFiles
    compression := file.compression.getD opts.compression
    compressionLevel := file.compressionLevel.getD opts.compressionLevel
    compressionStatic := file.compressionStatic.getD opts.compressionStatic
    directoryListing := file.directoryListing.getD opts.directoryListing
    directoryListingOrder := file.directoryListingOrder.getD opts.directoryListingOrder
    directoryListingFormat := file.directoryListingFormat.getD opts.directoryListingFormat
    directoryListingDownload := file.directoryListingDownload.getD opts.directoryListingDownload
    -- HTTP/2 switches them on when the file says nothing about them
    securityHeaders := file.securityHeaders.getD (if http2 then true else opts.securityHeaders)
    cacheControlHeaders := file.cacheControlHeaders.getD opts.cacheControlHeaders
    basicAuth := file.basicAuth.getD opts.basicAuth
    gracePeriod := file.gracePeriod.getD opts.gracePeriod
    configFile := opts.configFile
    logRemoteAddress := file.logRemoteAddress.getD opts.logRemoteAddress
    logXRealIp := file.logXRealIp.getD opts.logXRealIp
    logForwardedFor := file.logForwardedFor.getD opts.logForwardedFor
    trustedProxies := file.trustedProxies.getD opts.trustedProxies
    redirectTrailingSlash := file.redirectTrailingSlash.getD opts.redirectTrailingSlash
    ignoreHiddenFiles := file.ignoreHiddenFiles.getD opts.ignoreHiddenFiles
    disableSymlinks := file.disableSymlinks.getD opts.disableSymlinks
    acceptMarkdown := file.acceptMarkdown.getD opts.acceptMarkdown
    textCharset := file.textCharset.getD opts.textCharset
    health := file.health.getD opts.health
    metrics := file.metrics.getD opts.metrics
    maintenanceMode := file.maintenanceMode.getD opts.maintenanceMode
    maintenanceModeStatus := status
    maintenanceModeFile := file.maintenanceModeFile.getD opts.maintenanceModeFile
    commands := opts.commands
    version := opts.version }

def maintenanceStatus (opts : General) (file : File.General) : Except Error StatusCode :=
  match file.maintenanceModeStatus with
  | some v => withContext "invalid HTTP status code" (statusFromU16 v)
  | none => .ok opts.maintenanceModeStatus

def generalOptions (opts : General) : Option File.General → Except Error General
  | none => .ok opts
  | some file => do return opts.withFile file (← maintenanceStatus opts file)

/-! ## Trust settings -/

structure ProxyTlsSettings where
  caFiles : List Path
  useWebpkiRoots : Bool

def ProxyTlsSettings.default : ProxyTlsSettings := { caFiles := [], useWebpkiRoots := false }

/-- `home` is the variable `HOME`. What follows `~/` may be a path of its own. -/
def expandTlsPath (home : Option Octets) (path : Str) : Except Error Path :=
  match Text.stripPrefix path "~/".toList with
  | some rest => do
      let home ← withContext "proxy-tls: cannot expand '~/' (HOME not set)" home
      return (Posix.Path.parse home).push (Posix.Path.parse (Posix.utf8 rest))
  | none =>
      if path = ['~'] then do
        let home ← withContext "proxy-tls: cannot expand '~' (HOME not set)" home
        return Posix.Path.parse home
      else .ok (Posix.Path.parse (Posix.utf8 path))

def caPaths (file : File.ProxyTls) : List Str := file.caFile.toList ++ file.caFiles.getD []

def ProxyTlsSettings.fromFile (t : FileTree) (home : Option Octets) (file : File.ProxyTls) :
    Except Error ProxyTlsSettings := do
  let caFiles ← (caPaths file).mapM (expandTlsPath home)
  let useWebpkiRoots := !file.disableWebpkiRoots.getD false
  if !useWebpkiRoots && caFiles = [] then
    .error "proxy-tls: disable-webpki-roots requires ca-file or ca-files (e.g. mkcert rootCA.pem)".toList
  else if caFiles.any fun path => !t.isFile path then
    .error "proxy-tls: CA file not found or not a regular file: ".toList
  else return { caFiles, useWebpkiRoots }

def proxyTls (t : FileTree) (home : Option Octets) : Option File.ProxyTls → Except Error ProxyTlsSettings
  | some file => ProxyTlsSettings.fromFile t home file
  | none => .ok .default

/-! ## Advanced options -/

/-- What the client of the reverse proxy is built from. -/
structure ClientSettings where
  poolMaxIdlePerHost : Nat
  poolIdleTimeoutSecs : Nat
  tls : ProxyTlsSettings

/-- `str::to_lowercase`, the levels of `tracing`, and whether a subscriber with a level is set for the first time. -/
structure LoggerCrates where
  Level : Type
  lowercase : Str → Str
  parse : Str → Option Level
  tryInit : Level → (enableAnsi : Bool) → Bool

/-- `Glob::new` and the crates behind the patterns. -/
structure ParseCrates where
  toml : TomlCrates
  patterns : PatternCrates
  globAccepts : Str → Bool
  logger : LoggerCrates

variable (crates : ParseCrates) (t : FileTree) (home : Option Octets)

def compileHeaders (entry : File.Headers) : Except Error Headers :=
  if crates.globAccepts entry.source then .ok { source := ⟨entry.source⟩, headers := entry.headers }
  else .error ("can not compile glob pattern for header source: ".toList ++ entry.source)

def headersEntries : Option (List File.Headers) → Except Error (Option (List Headers))
  | some entries => do return some (← entries.mapM (compileHeaders crates))
  | none => .ok none

def getValidDirpath (path : Path) : Option Path := if t.exists path && t.isDir path then some path else none

/-- An entry without a root is left out. -/
def virtualHost (entry : File.VirtualHosts) : Except Error (Option VirtualHosts) :=
  match entry.root with
  | none => .ok none
  | some root => do
      let root ← withContext "root directory for virtual host was not found or inaccessible" (getValidDirpath t root)
      return some { host := entry.host, root }

def vhostsEntries : Option (List File.VirtualHosts) → Except Error (Option (List VirtualHosts))
  | some entries => do return some (← entries.mapM (virtualHost t)).reduceOption
  | none => .ok none

def advancedOptions (file : File.Advanced) : Except Error (Advanced × ClientSettings) := do
  let headers ← headersEntries crates file.headers
  let rewrites ← rewritesEntries crates.patterns file.rewrites
  let redirects ← redirectsEntries crates.patterns file.redirects
  let tls ← proxyTls t home file.proxyTls
  let virtualHosts ← vhostsEntries t file.virtualHosts
  return (
    { headers, rewrites, redirects, virtualHosts, proxies := none, proxyDefs := file.proxies
      routesBootstrap := file.routesBootstrap
      proxySettings :=
        { proxyFirst := file.proxyFirst.getD false, maxUpgradeTunnels := Proxy.maxUpgradeTunnels file.maxUpgradeTunnels }
      memoryCache := file.memoryCache },
    { poolMaxIdlePerHost := file.proxyPoolMaxIdlePerHost.getD 32
      poolIdleTimeoutSecs := file.proxyPoolIdleTimeoutSecs.getD 90, tls })

def advancedSettings : Option File.Advanced → Except Error (Option (Advanced × ClientSettings))
  | some file => do return some (← advancedOptions crates t home file)
  | none => .ok none

/-! ## Both together -/

/-- The first of these that is a file of the working directory goes before the option. -/
def configFileNames : List Path := ["./weavegate.toml", "./sws.toml", "./edgegate.toml", "./config.toml"].map pathOf

def configFileToUse (opts : General) : Path := (configFileNames.find? t.isFile).getD opts.configFile

def readFileSettings (configFile : Path) : Except Error (Option (FileSettings × Path)) :=
  if t.isFile configFile then do
    let resolved ← withContext "unable to resolve toml config file path" (t.canonicalize configFile).toOption
    let settings ← withContext
      "unable to read toml config file because has invalid format or unsupported options"
      (FileSettings.read crates.toml t (Posix.canonPath resolved)).toOption
    return some (settings, Posix.canonPath resolved)
  else .ok none

/-! ## The logger -/

def configure (logger : LoggerCrates) (level : Str) (enableAnsi : Bool) : Except Error Unit := do
  let level ← withContext "failed to parse log level" (logger.parse level)
  if logger.tryInit level enableAnsi then return ()
  else .error "a global default trace dispatcher has already been set".toList

/-- `logger::init` -/
def loggerInit (logInit : Bool) (opts : General) : Except Error Unit :=
  if logInit then
    withContext "failed to initialize logging"
      (configure crates.logger (crates.logger.lowercase opts.logLevel) opts.logWithAnsi).toOption
  else .ok ()

end WeaveGate.Settings

namespace WeaveGate

open Settings
open Posix (FileTree Octets)

structure Settings where
  general : General
  advanced : Option (Advanced × ClientSettings)

namespace Settings

variable (crates : ParseCrates) (t : FileTree) (home : Option Octets)

def withFileSettings (logInit : Bool) (opts : General) :
    Option (FileSettings × Posix.Path) → Except Error WeaveGate.Settings
  | none => do
      loggerInit crates logInit opts
      return { general := opts, advanced := none }
  | some (file, resolved) => do
      let general ← generalOptions { opts with configFile := resolved } file.general
      loggerInit crates logInit general
      let advanced ← advancedSettings crates t home file.advanced
      return { general, advanced }

def parseFrom (logInit : Bool) (opts : General) : Except Error WeaveGate.Settings := do
  let file ← readFileSettings crates t (configFileToUse t opts)
  withFileSettings crates t home logInit opts file

end Settings

end WeaveGate
