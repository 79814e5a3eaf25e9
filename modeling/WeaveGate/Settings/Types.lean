import WeaveGate.Http.Types

/-!
# Settings

The options of the configuration file as the server holds them (`settings/mod.rs`), and the proxy definitions
as they are read from it (`settings/file.rs`). Compiled globs and regular expressions keep the text they were
compiled from. What they match is decided by the crates that compile them.
-/

namespace WeaveGate.Settings

open Http

abbrev Error := Str

structure GlobMatcher where
  glob : Str
deriving DecidableEq

structure Regex where
  pattern : Str
deriving DecidableEq

structure GlobSet where
  accepts : Str → Bool
  isMatch : GlobMatcher → Str → Bool

/-- The functions of `regex_lite` on which the gateway relies. A capture is none when its group took no part. -/
structure RegexLite where
  isMatch : Regex → Str → Bool
  captures : Regex → Str → Option (List (Option Str))

/-! ## Headers, rewrites, redirects and virtual hosts -/

structure Headers where
  source : GlobMatcher
  headers : HeaderMap

inductive RedirectsKind where
  | permanent
  | temporary
deriving DecidableEq

structure Rewrites where
  source : Regex
  destination : Str
  redirect : Option RedirectsKind

structure Redirects where
  host : Option Str
  source : Regex
  destination : Str
  kind : StatusCode

structure VirtualHosts where
  host : Str
  root : Posix.Path

/-! ## Reverse proxy -/

/-- A proxy definition before it is compiled. -/
structure Proxy where
  name : Option Str
  host : Option Str
  source : Str
  target : Option Str
  targets : Option (List Str)
  stripPrefix : Option Str
deriving DecidableEq

/-- A round-robin balancer over at least one upstream. Its counter is part of the server's state. -/
structure ProxyBalancer where
  name : Option Str
  targets : List Uri
  nonempty : targets ≠ []

namespace ProxyBalancer

def new (name : Option Str) (targets : List Uri) : Except Error ProxyBalancer :=
  if h : targets = [] then .error "proxy service must have at least one upstream target".toList
  else .ok ⟨name, targets, h⟩

/-- The next index and the counter afterwards, for a counter of `bits` bits. -/
def nextIndex (bits : Nat) (b : ProxyBalancer) (next : Nat) : Nat × Nat :=
  (next % b.targets.length, (next + 1) % 2 ^ bits)

end ProxyBalancer

structure UpstreamUriTemplate where
  /-- `scheme://authority` -/
  origin : Str
  basePath : Str
  stripPrefix : Option Str
deriving DecidableEq

structure ProxyRule where
  host : Option Str
  source : GlobMatcher
  balancer : ProxyBalancer
  stripPrefix : Option Str
  uriTemplates : List UpstreamUriTemplate

structure ProxySettings where
  proxyFirst : Bool
  /-- none for unlimited -/
  maxUpgradeTunnels : Option Nat

inductive RoutesBootstrapOnFailure where
  | cacheThenFile
  | fail
  | fileOnly
deriving DecidableEq

structure RoutesBootstrap where
  url : Str
  timeoutSecs : Option Nat
  cachePath : Option Posix.Path
  onFailure : Option RoutesBootstrapOnFailure

/-- `unwrap_or_default` on the failure policy. -/
def RoutesBootstrap.policy (c : RoutesBootstrap) : RoutesBootstrapOnFailure :=
  c.onFailure.getD .cacheThenFile

/-- Sizes in MiB, times in seconds. -/
structure MemoryCache where
  capacity : Option Nat
  ttl : Option Nat
  tti : Option Nat
  maxFileSize : Option Nat

structure Advanced where
  headers : Option (List Headers)
  rewrites : Option (List Rewrites)
  redirects : Option (List Redirects)
  virtualHosts : Option (List VirtualHosts)
  proxies : Option (List ProxyRule)
  proxyDefs : Option (List Proxy)
  routesBootstrap : Option RoutesBootstrap
  proxySettings : ProxySettings
  memoryCache : Option MemoryCache

end WeaveGate.Settings
