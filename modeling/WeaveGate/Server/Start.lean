import WeaveGate.Handler.CorsConfig
import WeaveGate.Handler.LogAddr
import WeaveGate.Proxy.Client
import WeaveGate.Server.HttpsRedirect

/-!
# Starting a server

`server.rs` from the settings up to the servers that listen, with the `init` functions of the modules. The system binds
sockets, and the crates build what their functions need. A panic ends the start as an error does.
-/

namespace WeaveGate.Server

open Http Settings Handler
open Posix (FileTree Octets Path)
open Static (Body)

/-- What is outside of the server when it starts. `bound` lists the addresses that it has bound before. -/
structure System where
  /-- `available_parallelism` -/
  cpus : Option Nat
  /-- The size of `usize` in bits. -/
  bits : Nat
  inherited : Nat → Bool
  bind : (bound : List SocketAddr) → SocketAddr → Bool
  signals : Bool

/-- `rustls_pki_types` and `ServerConfig::with_single_cert`. -/
structure ServerTlsCrates where
  certificates : Octets → Option (List Octets)
  privateKey : Octets → Option Octets
  singleCert : List Octets → Octets → Bool

structure StartCrates where
  globs : GlobSet
  parseUri : Str → Option Uri
  pem : Proxy.PemCrates
  serverTls : ServerTlsCrates
  /-- The order in which hash sets are listed. -/
  order : List Str → List Str
  client : Proxy.ClientConfig → Proxy.HttpClient Body
  /-- `fetch_routes_defs` -/
  fetch : RoutesBootstrap → Except Error (Option (List Settings.Proxy))
  /-- `clap_allgen`, which writes below a directory. -/
  renderShellCompletions : Path → Except Error Unit
  renderManpages : Path → Except Error Unit

variable (crates : StartCrates) (sys : System) (t : FileTree)

/-! ## The runtime -/

/-- The product wraps around. -/
def workerThreads (cpus multiplier : Nat) : Nat :=
  if multiplier ≤ 1 then cpus else cpus * multiplier % 2 ^ sys.bits

/-- The builder of the runtime panics without threads. -/
def runtime (general : General) : Except Error Unit := do
  let cpus ← withContext
    "unable to get current platform cpus or lack of permissions to query available parallelism" sys.cpus
  if workerThreads sys cpus general.threadsMultiplier = 0 then .error "Worker threads cannot be set to 0".toList
  else if general.maxBlockingThreads = 0 then .error "Max blocking threads cannot be set to 0".toList
  else return ()

/-! ## Listeners -/

def socketAddr (ip : IpAddr) (port : UInt16) : SocketAddr :=
  match ip with
  | .v4 ip => .v4 ip port
  | .v6 ip => .v6 ip port 0

def parseHost (host : Str) : Except Error IpAddr :=
  match IpAddr.parse host with
  | some ip => .ok ip
  | none => .error ("failed to parse ".toList ++ host ++ " address".toList)

def bindAddr (bound : List SocketAddr) (host : Str) (port : UInt16) : Except Error SocketAddr := do
  let ip ← parseHost host
  let addr := socketAddr ip port
  if sys.bind bound addr then return addr
  else .error ("failed to bind to ".toList ++ addr.display ++ " address".toList)

/-- The address of the socket, none for an inherited one. -/
def tcpListener (general : General) : Except Error (Option SocketAddr) :=
  match general.fd with
  | some fd =>
      if sys.inherited fd then .ok none
      else .error "failed to convert inherited 'fd' into a 'tcp' listener".toList
  | none => do return some (← bindAddr sys [] general.host general.port)

/-! ## Options of the handler -/

def errorPagePath (rootDir page : Path) : Path :=
  if page.head? ≠ some .rootDir ∧ ¬ rootDir <+: page then rootDir.push page else page

def splitTrimmed (s : Str) : List Str := (s.splitOn ',').map Text.trim

/-- The list is never empty. -/
def indexFiles (files : Str) : Except Error (List Path) :=
  let files := splitTrimmed files
  if files = [] then .error "index files list is empty, provide at least one index file".toList
  else .ok (files.map fun file => Posix.Path.parse (Posix.utf8 file))

def dirListingDownload (formats : List Static.DirDownloadFmt) : List Static.DirDownloadFmt :=
  formats.foldl (fun enabled fmt => if fmt ∈ enabled then enabled else enabled ++ [fmt]) []

def pageFallback (path : Path) : Octets :=
  if t.isFile path then
    Posix.utf8 (Text.trim (Utf8.decodeLossy
      (((t.open path).toOption.bind FileTree.OpenFile.content).getD [])))
  else []

/-- The options that can be filled in without a failure, for a root directory that was found. -/
def handlerOpts (general : General) (rootDir : Path) (indexFiles : List Path) : RequestHandlerOpts :=
  { rootDir, memoryCache := none, compression := general.compression, compressionLevel := general.compressionLevel
    compressionStatic := general.compressionStatic, dirListing := general.directoryListing
    dirListingOrder := general.directoryListingOrder, dirListingFormat := general.directoryListingFormat
    dirListingDownload := dirListingDownload general.directoryListingDownload, cors := none
    securityHeaders := general.securityHeaders, cacheControlHeaders := general.cacheControlHeaders
    page404 := errorPagePath rootDir general.page404, page50x := errorPagePath rootDir general.page50x
    pageFallback := pageFallback t general.pageFallback, basicAuth := Text.trim general.basicAuth, indexFiles
    redirectTrailingSlash := general.redirectTrailingSlash, ignoreHiddenFiles := general.ignoreHiddenFiles
    disableSymlinks := general.disableSymlinks, acceptMarkdown := general.acceptMarkdown
    textCharset := general.textCharset, health := general.health, metricsEnabled := general.metrics
    maintenanceMode := general.maintenanceMode, maintenanceModeStatus := general.maintenanceModeStatus
    maintenanceModeFile := general.maintenanceModeFile, advancedOpts := none, proxyClient := none, proxyFirst := false }

def logAddrOpts (general : General) : LogAddrOpts :=
  { logRemoteAddress := general.logRemoteAddress, logXRealIp := general.logXRealIp
    logForwardedFor := general.logForwardedFor, trustedProxies := general.trustedProxies, health := general.health }

/-! ## Reverse proxy -/

structure ProxyRuntime where
  client : Proxy.ClientConfig
  proxyFirst : Bool
  upgradeTunnelSemaphore : Option Semaphore

/-- `proxy::init`. There is a client only where there are rules. -/
def proxyInit (advanced : Option Advanced) (client : Option ClientSettings) : Except Error (Option ProxyRuntime) :=
  match advanced, client with
  | some adv, some settings =>
      if adv.proxies.getD [] = [] then .ok none
      else do
        let client ← Proxy.buildProxyClient crates.pem t settings
        let semaphore ← Proxy.upgradeTunnelSemaphore sys.bits adv.proxySettings.maxUpgradeTunnels
        return some { client, proxyFirst := adv.proxySettings.proxyFirst, upgradeTunnelSemaphore := semaphore }
  | _, _ => .ok none

/-! ## Memory cache -/

structure CacheStore where
  maxCapacity : Nat
  timeToLive : Nat
  timeToIdle : Nat
deriving DecidableEq

/-- A thousand years. The builder of the cache panics above it. -/
def maxCacheSeconds : Nat := 1000 * (365 * 24 * 3600)

/-- The product is a `u64`. -/
def memCacheInit (memoryCache : Option MemoryCache) : Except Error (Option (Static.MemCacheOpts × CacheStore)) :=
  match memoryCache with
  | none => .ok none
  | some opts =>
      let store : CacheStore :=
        { maxCapacity := opts.capacity.getD 256, timeToLive := opts.ttl.getD 3600, timeToIdle := opts.tti.getD 300 }
      if maxCacheSeconds < store.timeToLive ∨ maxCacheSeconds < store.timeToIdle then
        .error "a time of the cache is longer than 1000 years".toList
      else .ok (some (⟨1024 * 1024 * opts.maxFileSize.getD 8192 % 2 ^ 64⟩, store))

/-! ## TLS -/

/-- `TlsConfigBuilder::build` -/
def serverConfig (cert key : Path) : Option (List Octets × Octets) := do
  let chain ← ((t.open cert).toOption.bind FileTree.OpenFile.content).bind crates.serverTls.certificates
  let key ← (((t.open key).toOption.bind FileTree.OpenFile.content).filter (· ≠ [])).bind crates.serverTls.privateKey
  if crates.serverTls.singleCert chain key then some (chain, key) else none

def http2Config (general : General) : Except Error (List Octets × Octets) :=
  match general.http2TlsCert, general.http2TlsKey with
  | none, _ => .error "failed to initialize TLS because cert file missing".toList
  | some _, none => .error "failed to initialize TLS because key file missing".toList
  | some cert, some key =>
      withContext "failed to initialize TLS probably because invalid cert or key file" (serverConfig crates t cert key)

def createSignals : Except Error Unit :=
  if sys.signals then .ok () else .error "failed to register termination signals".toList

/-- The redirect server listens beside the other one. -/
def redirectServer (bound : List SocketAddr) (general : General) : Except Error (SocketAddr × RedirectOpts) := do
  let addr ← bindAddr sys bound general.host general.httpsRedirectFromPort
  createSignals sys
  let allowedHosts := splitTrimmed general.httpsRedirectFromHosts
  if allowedHosts = [] then .error "https redirect allowed hosts is empty, provide at least one host or IP".toList
  else return (addr, { httpsHostname := general.httpsRedirectHost, httpsPort := general.port, allowedHosts })

def redirectServer? (bound : List SocketAddr) (general : General) : Except Error (Option (SocketAddr × RedirectOpts)) :=
  if general.httpsRedirect then (redirectServer sys bound general).map some else .ok none

/-- The servers that listen: one without TLS, or one with TLS and perhaps the one that redirects to it. -/
inductive Servers where
  | http1
  | http2 (tls : List Octets × Octets) (redirect : Option (SocketAddr × RedirectOpts))

def servers (listener : Option SocketAddr) (general : General) : Except Error Servers :=
  if general.http2 then do
    let tls ← http2Config crates t general
    createSignals sys
    return .http2 tls (← redirectServer? sys listener.toList general)
  else do
    createSignals sys
    return .http1

/-! ## The start -/

structure Started where
  opts : RequestHandlerOpts
  logOpts : LogAddrOpts
  listener : Option SocketAddr
  proxy : Option ProxyRuntime
  store : Option CacheStore
  servers : Servers
  gracePeriod : Nat

/-- `Server::new`, `run_server_on_rt` and `start_server` up to where the servers listen. -/
def startServer (settings : WeaveGate.Settings) : Except Error Started := do
  let general := settings.general
  runtime sys general
  let listener ← tcpListener sys general
  let rootDir ← withContext "root directory was not found or inaccessible" (getValidDirpath t general.root)
  let files ← indexFiles general.indexFiles
  let cors ← corsInit crates.parseUri crates.order general.corsAllowOrigins general.corsAllowHeaders
    general.corsExposeHeaders
  let advanced ← Proxy.resolveRules crates.globs crates.parseUri crates.fetch (settings.advanced.map Prod.fst)
  let proxy ← proxyInit crates sys t advanced (settings.advanced.map Prod.snd)
  let cache ← memCacheInit (advanced.bind (·.memoryCache))
  let servers ← servers crates sys t listener general
  return {
    opts := { handlerOpts t general rootDir files with
      cors, advancedOpts := advanced, memoryCache := cache.map Prod.fst
      proxyClient := proxy.map fun runtime => crates.client runtime.client
      proxyFirst := proxy.any (·.proxyFirst) }
    logOpts := logAddrOpts general, listener, proxy, store := cache.map Prod.snd, servers
    gracePeriod := general.gracePeriod }

/-! ## The program -/

/-- How `main` goes on when nothing fails. A server then runs until it is shut down. -/
inductive Outcome where
  | version
  | generated
  | started (server : Started)

/-- Without a flag both kinds of files are written. -/
def generate (completions manPages : Bool) (outDir : Path) : Except Error Unit := do
  if completions || !manPages then crates.renderShellCompletions (outDir.push (pathOf "completions"))
  if manPages || !completions then crates.renderManpages (outDir.push (pathOf "man"))

def main (parse : ParseCrates) (home : Option Octets) (opts : General) : Except Error Outcome := do
  let settings ← parseFrom parse t home true opts
  if settings.general.version then return .version
  else match settings.general.commands with
    | some (.generate completions manPages outDir) => do
        generate crates completions manPages outDir
        return .generated
    | none => do return .started (← startServer crates sys t settings)

end WeaveGate.Server
