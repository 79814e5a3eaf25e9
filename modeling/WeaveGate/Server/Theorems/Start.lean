import Mathlib.Data.List.ReduceOption
import WeaveGate.Handler.Theorems.CorsConfig
import WeaveGate.Proxy.Theorems.Client
import WeaveGate.Proxy.Theorems.Compiled
import WeaveGate.Server.Start

/-!
# Which servers start

What a server needs to start, from the command line to the sockets, and what holds of every server that has started.
-/

namespace WeaveGate.Server

open Http Settings Handler
open Posix (FileTree Octets Path)
open Static (Body)

variable {crates : StartCrates} {sys : System} {t : FileTree}

/-! ## Sockets -/

/-- Threads for the requests, and for what blocks. -/
def HasThreads (sys : System) (general : General) : Prop :=
  (∃ cpus, sys.cpus = some cpus ∧ workerThreads sys cpus general.threadsMultiplier ≠ 0) ∧ general.maxBlockingThreads ≠ 0

theorem runtime_eq_ok {general : General} {u : Unit} : runtime sys general = .ok u ↔ HasThreads sys general := by
  unfold runtime HasThreads
  simp only [Checked.bind_eq_ok, withContext_eq_ok, ← exists_and_right]
  refine exists_congr fun cpus => ?_
  rw [and_assoc]
  refine and_congr_right fun _ => ?_
  by_cases hworkers : workerThreads sys cpus general.threadsMultiplier = 0
  · simp [hworkers]
  · by_cases hblocking : general.maxBlockingThreads = 0 <;> simp [hworkers, hblocking]

/-- The host is an address, and the system lets the server have its socket. -/
def Binds (sys : System) (bound : List SocketAddr) (host : Str) (port : UInt16) (addr : SocketAddr) : Prop :=
  ∃ ip, IpAddr.parse host = some ip ∧ addr = socketAddr ip port ∧ sys.bind bound addr = true

theorem bindAddr_eq_ok {bound : List SocketAddr} {host : Str} {port : UInt16} {addr : SocketAddr} :
    bindAddr sys bound host port = .ok addr ↔ Binds sys bound host port addr := by
  unfold bindAddr Binds parseHost
  rw [Checked.bind_eq_ok]
  cases IpAddr.parse host with
  | none => exact iff_of_false (fun ⟨_, h, _⟩ => by cases h) fun ⟨_, h, _⟩ => by cases h
  | some ip =>
      by_cases hbind : sys.bind bound (socketAddr ip port) = true
      · constructor
        · rintro ⟨_, ⟨⟩, h⟩
          rw [if_pos hbind] at h
          cases h
          exact ⟨ip, rfl, rfl, hbind⟩
        · rintro ⟨_, ⟨⟩, rfl, _⟩
          exact ⟨ip, rfl, if_pos hbind⟩
      · refine iff_of_false ?_ ?_
        · rintro ⟨_, ⟨⟩, h⟩
          rw [if_neg hbind] at h
          cases h
        · rintro ⟨_, ⟨⟩, rfl, h⟩
          exact hbind h

/-- An inherited socket goes before the address. -/
def Listens (sys : System) (general : General) (listener : Option SocketAddr) : Prop :=
  match general.fd with
  | some fd => sys.inherited fd = true ∧ listener = none
  | none => ∃ addr, Binds sys [] general.host general.port addr ∧ listener = some addr

theorem tcpListener_eq_ok {general : General} {listener : Option SocketAddr} :
    tcpListener sys general = .ok listener ↔ Listens sys general listener := by
  unfold tcpListener Listens
  cases general.fd with
  | none =>
      simp only [Checked.bind_eq_ok, bindAddr_eq_ok, Checked.pure_eq_ok]
      exact exists_congr fun addr => and_congr_right fun _ => eq_comm
  | some fd =>
      by_cases hinherited : sys.inherited fd = true
      · simp [hinherited, eq_comm]
      · simp [hinherited]

theorem splitTrimmed_ne_nil (s : Str) : splitTrimmed s ≠ [] := fun h =>
  List.splitOn_ne_nil _ _ (List.map_eq_nil_iff.mp h)

theorem indexFiles_eq_ok {files : Str} {paths : List Path} : indexFiles files = .ok paths ↔
    paths = (splitTrimmed files).map fun file => Posix.Path.parse (Posix.utf8 file) := by
  unfold indexFiles
  dsimp only
  rw [if_neg (splitTrimmed_ne_nil files)]
  simp [eq_comm]

/-! ## Rules -/

/-- The definitions of the file, and behind them those of the control plane. -/
def Gathers (fetch : RoutesBootstrap → Except Error (Option (List Settings.Proxy))) (adv : Advanced)
    (defs : List Settings.Proxy) : Prop :=
  match adv.routesBootstrap with
  | none => defs = adv.proxyDefs.getD []
  | some bootstrap => ∃ remote, fetch bootstrap = .ok remote ∧ defs = adv.proxyDefs.getD [] ++ remote.getD []

theorem mergeProxyDefs_eq_ok {fetch : RoutesBootstrap → Except Error (Option (List Settings.Proxy))} {adv : Advanced}
    {defs : List Settings.Proxy} : Proxy.mergeProxyDefs fetch adv = .ok defs ↔ Gathers fetch adv defs := by
  unfold Proxy.mergeProxyDefs Gathers
  cases adv.routesBootstrap with
  | none => simp [eq_comm]
  | some bootstrap =>
      dsimp only
      rw [Checked.bind_eq_ok]
      refine exists_congr fun remote => and_congr_right fun _ => ?_
      cases remote with
      | none =>
          rw [Option.getD_none, List.append_nil]
          exact Checked.pure_eq_ok.trans eq_comm
      | some remote => exact Checked.pure_eq_ok.trans eq_comm

/-- The rules of some definitions, the most specific first. -/
def Compiles (crates : StartCrates) (defs : List Settings.Proxy) (rules : List ProxyRule) : Prop :=
  ∃ sorted, sorted.Perm defs ∧ sorted.Pairwise (fun a b => Proxy.specificityLe a b = true) ∧
    List.Forall₂ (fun d rule => Proxy.compileProxyRule crates.globs crates.parseUri d = .ok rule) sorted rules

theorem compiles_of_compileProxyRules {defs : List Settings.Proxy} {rules : List ProxyRule}
    (h : Proxy.compileProxyRules crates.globs crates.parseUri (Proxy.sortProxyDefsBySpecificity defs) = .ok rules) :
    Compiles crates defs rules :=
  ⟨_, List.mergeSort_perm _ _, List.pairwise_mergeSort Proxy.specificityLe_trans Proxy.specificityLe_total defs,
    Checked.mapM_eq_ok.mp h⟩

theorem Compiles.exists_def {defs : List Settings.Proxy} {rules : List ProxyRule} (h : Compiles crates defs rules)
    {rule : ProxyRule} (hrule : rule ∈ rules) :
    ∃ d ∈ defs, Proxy.compileProxyRule crates.globs crates.parseUri d = .ok rule := by
  obtain ⟨sorted, hperm, _, hrules⟩ := h
  obtain ⟨d, hd, hcompiled⟩ := Checked.exists_left hrules hrule
  exact ⟨d, hperm.mem_iff.mp hd, hcompiled⟩

theorem Compiles.exists_rule {defs : List Settings.Proxy} {rules : List ProxyRule} (h : Compiles crates defs rules)
    {d : Settings.Proxy} (hd : d ∈ defs) : ∃ rule ∈ rules,
      Proxy.compileProxyRule crates.globs crates.parseUri d = .ok rule := by
  obtain ⟨sorted, hperm, _, hrules⟩ := h
  exact Checked.exists_right hrules (hperm.mem_iff.mpr hd)

theorem Compiles.ne_nil {defs : List Settings.Proxy} {rules : List ProxyRule} (h : Compiles crates defs rules)
    (hne : defs ≠ []) : rules ≠ [] := by
  obtain ⟨d, hd⟩ := List.exists_mem_of_ne_nil defs hne
  obtain ⟨rule, hrule, _⟩ := h.exists_rule hd
  exact List.ne_nil_of_mem hrule

/-- Without a definition the options stay as they are. -/
def Resolves (crates : StartCrates) (adv resolved : Advanced) : Prop :=
  ∃ defs, Gathers crates.fetch adv defs ∧ (defs = [] ∧ resolved = adv ∨
    defs ≠ [] ∧ ∃ rules, resolved = { adv with proxies := some rules } ∧ Compiles crates defs rules)

/-- The rules that are not compiled yet. -/
theorem resolveRules_raw {adv : Advanced} (hproxies : adv.proxies = none) :
    Proxy.resolveRules crates.globs crates.parseUri crates.fetch (some adv) =
      (Proxy.mergeProxyDefs crates.fetch adv >>= fun defs => if defs = [] then .ok (some adv) else do
        let rules ← Proxy.compileProxyRules crates.globs crates.parseUri (Proxy.sortProxyDefsBySpecificity defs)
        return some { adv with proxies := some rules }) := by
  unfold Proxy.resolveRules
  simp only [hproxies, Option.isSome_none, Bool.false_eq_true, if_false]

theorem resolves_of_resolveRules {adv : Advanced} {out : Option Advanced} (hproxies : adv.proxies = none)
    (h : Proxy.resolveRules crates.globs crates.parseUri crates.fetch (some adv) = .ok out) :
    ∃ resolved, out = some resolved ∧ Resolves crates adv resolved := by
  rw [resolveRules_raw hproxies] at h
  obtain ⟨defs, hdefs, h⟩ := Checked.bind_eq_ok.mp h
  have hgathers := mergeProxyDefs_eq_ok.mp hdefs
  split at h
  · rename_i hnil
    cases h
    exact ⟨adv, rfl, defs, hgathers, .inl ⟨hnil, rfl⟩⟩
  · rename_i hne
    obtain ⟨rules, hrules, h⟩ := Checked.bind_eq_ok.mp h
    cases h
    exact ⟨_, rfl, defs, hgathers, .inr ⟨hne, rules, rfl, compiles_of_compileProxyRules hrules⟩⟩

/-- Where there are rules there is a client, and a semaphore of as many permits as tunnels are allowed. -/
structure RunsProxy (crates : StartCrates) (sys : System) (t : FileTree) (adv : Advanced) (client : ClientSettings)
    (runtime : ProxyRuntime) : Prop where
  client : Proxy.buildProxyClient crates.pem t client = .ok runtime.client
  proxyFirst : runtime.proxyFirst = adv.proxySettings.proxyFirst
  semaphore : runtime.upgradeTunnelSemaphore = adv.proxySettings.maxUpgradeTunnels.map Semaphore.new
  permits : ∀ n, adv.proxySettings.maxUpgradeTunnels = some n → n ≤ Proxy.maxPermits sys.bits

def StartsProxy (crates : StartCrates) (sys : System) (t : FileTree) (adv : Advanced) (client : ClientSettings)
    (proxy : Option ProxyRuntime) : Prop :=
  if adv.proxies.getD [] = [] then proxy = none
  else ∃ runtime, proxy = some runtime ∧ RunsProxy crates sys t adv client runtime

theorem upgradeTunnelSemaphore_eq_ok {limit : Option Nat} {semaphore : Option Semaphore} :
    Proxy.upgradeTunnelSemaphore sys.bits limit = .ok semaphore ↔
      semaphore = limit.map Semaphore.new ∧ ∀ n, limit = some n → n ≤ Proxy.maxPermits sys.bits := by
  unfold Proxy.upgradeTunnelSemaphore
  cases limit with
  | none => simp [eq_comm]
  | some n =>
      dsimp only
      split
      · rename_i hle
        simp [hle, eq_comm]
      · rename_i hnle
        refine iff_of_false (fun h => by cases h) fun h => hnle (h.2 n rfl)

theorem proxyInit_eq_ok {adv : Advanced} {client : ClientSettings} {proxy : Option ProxyRuntime} :
    proxyInit crates sys t (some adv) (some client) = .ok proxy ↔ StartsProxy crates sys t adv client proxy := by
  unfold proxyInit StartsProxy
  dsimp only
  split
  · rw [Except.ok.injEq, eq_comm]
  · constructor
    · intro h
      obtain ⟨config, hconfig, h⟩ := Checked.bind_eq_ok.mp h
      obtain ⟨semaphore, hsemaphore, h⟩ := Checked.bind_eq_ok.mp h
      cases h
      obtain ⟨hsemaphore, hpermits⟩ := upgradeTunnelSemaphore_eq_ok.mp hsemaphore
      exact ⟨_, rfl, hconfig, rfl, hsemaphore, hpermits⟩
    · rintro ⟨runtime, rfl, hruns⟩
      refine Checked.bind_eq_ok.mpr ⟨_, hruns.client, Checked.bind_eq_ok.mpr
        ⟨_, upgradeTunnelSemaphore_eq_ok.mpr ⟨hruns.semaphore, hruns.permits⟩, ?_⟩⟩
      rw [← hruns.proxyFirst]
      rfl

/-- Times of at most a thousand years, and a size in bytes that is given in MiB. -/
structure Caches (options : MemoryCache) (opts : Static.MemCacheOpts) (store : CacheStore) : Prop where
  size : opts.maxFileSize = 1024 * 1024 * options.maxFileSize.getD 8192 % 2 ^ 64
  limits : store = ⟨options.capacity.getD 256, options.ttl.getD 3600, options.tti.getD 300⟩
  times : store.timeToLive ≤ maxCacheSeconds ∧ store.timeToIdle ≤ maxCacheSeconds

def StartsCache (memoryCache : Option MemoryCache) (cache : Option (Static.MemCacheOpts × CacheStore)) : Prop :=
  match memoryCache, cache with
  | none, none => True
  | some options, some (opts, store) => Caches options opts store
  | _, _ => False

theorem memCacheInit_eq_ok {memoryCache : Option MemoryCache} {cache : Option (Static.MemCacheOpts × CacheStore)} :
    memCacheInit memoryCache = .ok cache ↔ StartsCache memoryCache cache := by
  unfold memCacheInit StartsCache
  cases memoryCache with
  | none => cases cache <;> simp
  | some options =>
      dsimp only
      split
      · rename_i hlong
        rcases cache with _ | ⟨opts, store⟩
        · exact iff_of_false (fun h => by cases h) id
        · refine iff_of_false (fun h => by cases h) fun h => ?_
          have htimes := h.times
          rw [h.limits] at htimes
          exact hlong.elim (not_lt.mpr htimes.1) (not_lt.mpr htimes.2)
      · rename_i hshort
        rcases cache with _ | ⟨opts, store⟩
        · exact iff_of_false (fun h => by cases h) id
        · constructor
          · intro h
            cases h
            obtain ⟨httl, htti⟩ := not_or.mp hshort
            exact ⟨rfl, rfl, not_lt.mp httl, not_lt.mp htti⟩
          · intro h
            rcases opts with ⟨maxFileSize⟩
            have hsize : maxFileSize = _ := h.size
            rw [hsize, h.limits]

/-- A chain of certificates and a key that goes with it. -/
structure LoadsTls (crates : StartCrates) (t : FileTree) (general : General) (tls : List Octets × Octets) : Prop where
  cert : ∃ path content, general.http2TlsCert = some path ∧
    (t.open path).toOption.bind FileTree.OpenFile.content = some content ∧
    crates.serverTls.certificates content = some tls.1
  key : ∃ path content, general.http2TlsKey = some path ∧
    (t.open path).toOption.bind FileTree.OpenFile.content = some content ∧ content ≠ [] ∧
    crates.serverTls.privateKey content = some tls.2
  fits : crates.serverTls.singleCert tls.1 tls.2 = true

theorem serverConfig_eq_some {cert key : Path} {tls : List Octets × Octets} :
    serverConfig crates t cert key = some tls ↔
      (∃ content, (t.open cert).toOption.bind FileTree.OpenFile.content = some content ∧
        crates.serverTls.certificates content = some tls.1) ∧
      (∃ content, (t.open key).toOption.bind FileTree.OpenFile.content = some content ∧ content ≠ [] ∧
        crates.serverTls.privateKey content = some tls.2) ∧ crates.serverTls.singleCert tls.1 tls.2 = true := by
  unfold serverConfig
  simp only [Option.bind_eq_bind]
  constructor
  · intro h
    obtain ⟨chain, hchain, h⟩ := Option.bind_eq_some_iff.mp h
    obtain ⟨der, hder, h⟩ := Option.bind_eq_some_iff.mp h
    split at h
    · rename_i hfits
      cases h
      obtain ⟨certContent, hcert, hchain⟩ := Option.bind_eq_some_iff.mp hchain
      obtain ⟨keyContent, hkey, hder⟩ := Option.bind_eq_some_iff.mp hder
      obtain ⟨hkey, hne⟩ := Option.filter_eq_some_iff.mp hkey
      exact ⟨⟨certContent, hcert, hchain⟩, ⟨keyContent, hkey, of_decide_eq_true hne, hder⟩, hfits⟩
    · cases h
  · rintro ⟨⟨certContent, hcert, hchain⟩, ⟨keyContent, hkey, hne, hder⟩, hfits⟩
    rw [hcert, hkey, Option.bind_some, hchain, Option.bind_some, Option.filter_some, if_pos (decide_eq_true hne),
      Option.bind_some, hder, Option.bind_some, if_pos hfits]

theorem http2Config_eq_ok {general : General} {tls : List Octets × Octets} :
    http2Config crates t general = .ok tls ↔ LoadsTls crates t general tls := by
  unfold http2Config
  constructor
  · intro h
    split at h
    · cases h
    · cases h
    · rename_i cert key hcert hkey
      obtain ⟨⟨_, hcertContent⟩, ⟨_, hkeyContent⟩, hfits⟩ := serverConfig_eq_some.mp (withContext_eq_ok.mp h)
      exact ⟨⟨cert, _, hcert, hcertContent⟩, ⟨key, _, hkey, hkeyContent⟩, hfits⟩
  · rintro ⟨⟨cert, _, hcert, hcertContent⟩, ⟨key, _, hkey, hkeyContent⟩, hfits⟩
    rw [hcert, hkey]
    exact withContext_eq_ok.mpr (serverConfig_eq_some.mpr ⟨⟨_, hcertContent⟩, ⟨_, hkeyContent⟩, hfits⟩)

theorem createSignals_eq_ok {u : Unit} : createSignals sys = .ok u ↔ sys.signals = true := by
  unfold createSignals
  split
  · rename_i hsignals
    exact iff_of_true rfl hsignals
  · rename_i hno
    exact iff_of_false (fun h => by cases h) hno

/-- A redirect server has a socket of its own, and names the port of the other one. -/
structure Redirects (sys : System) (bound : List SocketAddr) (general : General) (addr : SocketAddr)
    (opts : RedirectOpts) : Prop where
  binds : Binds sys bound general.host general.httpsRedirectFromPort addr
  opts_eq : opts = ⟨general.httpsRedirectHost, general.port, splitTrimmed general.httpsRedirectFromHosts⟩

theorem redirectServer_eq_ok {bound : List SocketAddr} {general : General} {addr : SocketAddr} {opts : RedirectOpts}
    (hsignals : sys.signals = true) :
    redirectServer sys bound general = .ok (addr, opts) ↔ Redirects sys bound general addr opts := by
  constructor
  · intro h
    obtain ⟨_, hbinds, h⟩ := Checked.bind_eq_ok.mp h
    obtain ⟨_, _, h⟩ := Checked.bind_eq_ok.mp h
    dsimp only at h
    rw [if_neg (splitTrimmed_ne_nil _)] at h
    cases h
    exact ⟨bindAddr_eq_ok.mp hbinds, rfl⟩
  · rintro ⟨hbinds, rfl⟩
    refine Checked.bind_eq_ok.mpr ⟨addr, bindAddr_eq_ok.mpr hbinds, ?_⟩
    refine Checked.bind_eq_ok.mpr ⟨(), createSignals_eq_ok.mpr hsignals, ?_⟩
    exact if_neg (splitTrimmed_ne_nil _)

/-- TLS is for the server with HTTP/2. Only such a server may have one beside it that redirects to it. -/
def Serves (crates : StartCrates) (sys : System) (t : FileTree) (listener : Option SocketAddr) (general : General)
    (running : Servers) : Prop :=
  match running with
  | .http1 => general.http2 = false
  | .http2 tls none => general.http2 = true ∧ LoadsTls crates t general tls ∧ general.httpsRedirect = false
  | .http2 tls (some (addr, opts)) => general.http2 = true ∧ LoadsTls crates t general tls ∧
      general.httpsRedirect = true ∧ Redirects sys listener.toList general addr opts

theorem map_some_eq_ok {α : Type} {x : Except Error α} {out : Option α} :
    x.map some = .ok out ↔ ∃ a, x = .ok a ∧ out = some a := by
  cases x <;> simp [Except.map, eq_comm]

theorem redirectServer?_eq_ok {bound : List SocketAddr} {general : General} {redirect : Option (SocketAddr × RedirectOpts)}
    (hsignals : sys.signals = true) :
    redirectServer? sys bound general = .ok redirect ↔ match redirect with
      | none => general.httpsRedirect = false
      | some (addr, opts) => general.httpsRedirect = true ∧ Redirects sys bound general addr opts := by
  unfold redirectServer?
  by_cases hredirect : general.httpsRedirect = true
  · rw [if_pos hredirect, map_some_eq_ok]
    rcases redirect with _ | ⟨addr, opts⟩
    · exact iff_of_false (fun ⟨_, _, h⟩ => by cases h) (by simp [hredirect])
    · constructor
      · rintro ⟨_, hserver, ⟨⟩⟩
        exact ⟨hredirect, (redirectServer_eq_ok hsignals).mp hserver⟩
      · rintro ⟨_, hserver⟩
        exact ⟨_, (redirectServer_eq_ok hsignals).mpr hserver, rfl⟩
  · rw [if_neg hredirect]
    rcases redirect with _ | ⟨addr, opts⟩
    · simp [hredirect]
    · exact iff_of_false (fun h => by cases h) fun h => hredirect h.1

theorem servers_eq_ok {listener : Option SocketAddr} {general : General} {running : Servers} :
    servers crates sys t listener general = .ok running ↔
      sys.signals = true ∧ Serves crates sys t listener general running := by
  unfold servers
  by_cases hhttp2 : general.http2 = true
  · rw [if_pos hhttp2]
    constructor
    · intro h
      obtain ⟨tls, htls, h⟩ := Checked.bind_eq_ok.mp h
      obtain ⟨_, hsignals, h⟩ := Checked.bind_eq_ok.mp h
      obtain ⟨redirect, hredirect, h⟩ := Checked.bind_eq_ok.mp h
      cases h
      have hsignals := createSignals_eq_ok.mp hsignals
      have hredirect := (redirectServer?_eq_ok hsignals).mp hredirect
      refine ⟨hsignals, ?_⟩
      rcases redirect with _ | ⟨addr, opts⟩
      · exact ⟨hhttp2, http2Config_eq_ok.mp htls, hredirect⟩
      · exact ⟨hhttp2, http2Config_eq_ok.mp htls, hredirect⟩
    · rintro ⟨hsignals, hserves⟩
      cases running with
      | http1 => cases hhttp2.symm.trans hserves
      | http2 tls redirect =>
          have hparts : LoadsTls crates t general tls ∧ redirectServer? sys listener.toList general = .ok redirect := by
            rw [redirectServer?_eq_ok hsignals]
            rcases redirect with _ | ⟨addr, opts⟩
            · exact hserves.2
            · exact hserves.2
          refine Checked.bind_eq_ok.mpr ⟨tls, http2Config_eq_ok.mpr hparts.1, ?_⟩
          refine Checked.bind_eq_ok.mpr ⟨(), createSignals_eq_ok.mpr hsignals, ?_⟩
          exact Checked.bind_eq_ok.mpr ⟨redirect, hparts.2, rfl⟩
  · rw [if_neg hhttp2]
    constructor
    · intro h
      obtain ⟨_, hsignals, h⟩ := Checked.bind_eq_ok.mp h
      cases h
      exact ⟨createSignals_eq_ok.mp hsignals, by simpa [Serves] using hhttp2⟩
    · rintro ⟨hsignals, hserves⟩
      cases running with
      | http1 => exact Checked.bind_eq_ok.mpr ⟨(), createSignals_eq_ok.mpr hsignals, rfl⟩
      | http2 tls redirect =>
          rcases redirect with _ | ⟨addr, opts⟩
          · exact absurd hserves.1 hhttp2
          · exact absurd hserves.1 hhttp2

/-! ## The start -/

/-- What the advanced options become: rules that are compiled, a client for them, and a cache. -/
def StartsAdvanced (crates : StartCrates) (sys : System) (t : FileTree)
    (advanced : Option (Advanced × ClientSettings)) (started : Started) : Prop :=
  match advanced with
  | none => started.opts.advancedOpts = none ∧ started.proxy = none ∧ started.opts.memoryCache = none ∧
      started.store = none
  | some (adv, client) => ∃ resolved cache, started.opts.advancedOpts = some resolved ∧ Resolves crates adv resolved ∧
      StartsProxy crates sys t resolved client started.proxy ∧ StartsCache adv.memoryCache cache ∧
      started.opts.memoryCache = cache.map Prod.fst ∧ started.store = cache.map Prod.snd

/-- The CORS check, for which every listed text has to be one that it takes. -/
def StartsCors (crates : StartCrates) (general : General) : Option Configured → Prop
  | none => Text.trim general.corsAllowOrigins = []
  | some configured => Text.trim general.corsAllowOrigins ≠ [] ∧
      AcceptsTexts crates.parseUri (Text.trim general.corsAllowOrigins) (Text.trim general.corsAllowHeaders)
        (Text.trim general.corsExposeHeaders) ∧
      Configures crates.parseUri crates.order (Text.trim general.corsAllowOrigins) (Text.trim general.corsAllowHeaders)
        (Text.trim general.corsExposeHeaders) configured

theorem startsCors_of_corsInit {general : General} {cors : Option Configured}
    (h : corsInit crates.parseUri crates.order general.corsAllowOrigins general.corsAllowHeaders
      general.corsExposeHeaders = .ok cors) : StartsCors crates general cors := by
  by_cases hne : Text.trim general.corsAllowOrigins = []
  · unfold corsInit corsNew at h
    rw [if_pos hne] at h
    cases h
    exact hne
  · obtain ⟨configured, rfl, hconfigures, haccepts⟩ := corsNew_eq_ok hne h
    exact ⟨hne, haccepts, hconfigures⟩

structure Starts (crates : StartCrates) (sys : System) (t : FileTree) (settings : WeaveGate.Settings)
    (started : Started) : Prop where
  threads : HasThreads sys settings.general
  listens : Listens sys settings.general started.listener
  root : t.isDir settings.general.root = true
  cors : StartsCors crates settings.general started.opts.cors
  advanced : StartsAdvanced crates sys t settings.advanced started
  signals : sys.signals = true
  serves : Serves crates sys t started.listener settings.general started.servers
  opts : started.opts =
    { handlerOpts t settings.general settings.general.root
        ((splitTrimmed settings.general.indexFiles).map fun file => Posix.Path.parse (Posix.utf8 file)) with
      cors := started.opts.cors, advancedOpts := started.opts.advancedOpts, memoryCache := started.opts.memoryCache
      proxyClient := started.proxy.map fun runtime => crates.client runtime.client
      proxyFirst := started.proxy.any (·.proxyFirst) }
  logOpts : started.logOpts = logAddrOpts settings.general
  gracePeriod : started.gracePeriod = settings.general.gracePeriod

/-- The settings that are parsed have no rules yet. -/
def Unresolved (settings : WeaveGate.Settings) : Prop :=
  ∀ adv client, settings.advanced = some (adv, client) → adv.proxies = none

theorem Resolves.memoryCache {adv resolved : Advanced} (h : Resolves crates adv resolved) :
    resolved.memoryCache = adv.memoryCache := by
  obtain ⟨_, _, ⟨_, rfl⟩ | ⟨_, _, rfl, _⟩⟩ := h
  · rfl
  · rfl

theorem starts_of_startServer {settings : WeaveGate.Settings} {started : Started} (hraw : Unresolved settings)
    (h : startServer crates sys t settings = .ok started) : Starts crates sys t settings started := by
  obtain ⟨_, hruntime, h⟩ := Checked.bind_eq_ok.mp h
  obtain ⟨listener, hlistener, h⟩ := Checked.bind_eq_ok.mp h
  obtain ⟨rootDir, hroot, h⟩ := Checked.bind_eq_ok.mp h
  obtain ⟨files, hfiles, h⟩ := Checked.bind_eq_ok.mp h
  obtain ⟨cors, hcors, h⟩ := Checked.bind_eq_ok.mp h
  obtain ⟨advanced, hadvanced, h⟩ := Checked.bind_eq_ok.mp h
  obtain ⟨proxy, hproxy, h⟩ := Checked.bind_eq_ok.mp h
  obtain ⟨cache, hcache, h⟩ := Checked.bind_eq_ok.mp h
  obtain ⟨running, hservers, h⟩ := Checked.bind_eq_ok.mp h
  cases h
  obtain ⟨hdir, rfl⟩ := getValidDirpath_eq_some.mp (withContext_eq_ok.mp hroot)
  obtain ⟨hsignals, hserves⟩ := servers_eq_ok.mp hservers
  rw [indexFiles_eq_ok] at hfiles
  subst hfiles
  refine ⟨runtime_eq_ok.mp hruntime, tcpListener_eq_ok.mp hlistener, hdir, startsCors_of_corsInit hcors, ?_, hsignals,
    hserves, rfl, rfl, rfl⟩
  unfold StartsAdvanced
  rcases hsettings : settings.advanced with _ | ⟨adv, client⟩
  · rw [hsettings] at hadvanced hproxy
    cases hadvanced
    cases hproxy
    cases hcache
    exact ⟨rfl, rfl, rfl, rfl⟩
  · rw [hsettings] at hadvanced hproxy
    obtain ⟨resolved, rfl, hresolves⟩ := resolves_of_resolveRules (hraw adv client hsettings) hadvanced
    have hcache' := memCacheInit_eq_ok.mp hcache
    rw [Option.bind_some, hresolves.memoryCache] at hcache'
    exact ⟨resolved, cache, rfl, hresolves, proxyInit_eq_ok.mp hproxy, hcache', rfl, rfl⟩

/-! ## When a server starts -/

theorem unresolved_of_reads {parse : ParseCrates} {home : Option Octets} {logInit : Bool} {opts : General}
    {settings : WeaveGate.Settings} (h : ReadsSettings parse t home logInit opts settings) : Unresolved settings := by
  intro adv client hadvanced
  obtain ⟨_, _, _, _, _, _, _, hread⟩ := h.exists_file hadvanced
  exact hread.rules.1

/-- The program becomes a server when it is asked for nothing else. -/
theorem main_eq_started {parse : ParseCrates} {home : Option Octets} {opts : General} {started : Started} :
    main crates sys t parse home opts = .ok (.started started) ↔ opts.version = false ∧ opts.commands = none ∧
      ∃ settings, ReadsSettings parse t home true opts settings ∧ startServer crates sys t settings = .ok started := by
  unfold main
  rw [Checked.bind_eq_ok]
  constructor
  · rintro ⟨settings, hparse, h⟩
    have hreads := reads_of_parseFrom hparse
    obtain ⟨hversion, hcommands⟩ := hreads.keeps
    cases hv : settings.general.version with
    | true =>
        rw [hv, if_pos rfl] at h
        cases h
    | false =>
        rw [hv, if_neg Bool.false_ne_true] at h
        cases hc : settings.general.commands with
        | some command =>
            rw [hc] at h
            cases command with
            | generate completions manPages outDir =>
                obtain ⟨_, _, h⟩ := Checked.bind_eq_ok.mp h
                cases h
        | none =>
            rw [hc] at h
            obtain ⟨_, hstart, h⟩ := Checked.bind_eq_ok.mp h
            cases h
            exact ⟨hversion ▸ hv, hcommands ▸ hc, settings, hreads, hstart⟩
  · rintro ⟨hversion, hcommands, settings, hreads, hstart⟩
    obtain ⟨hv, hc⟩ := hreads.keeps
    refine ⟨settings, parseFrom_of_reads hreads, ?_⟩
    rw [hv, hversion, if_neg Bool.false_ne_true, hc, hcommands]
    exact Checked.bind_eq_ok.mpr ⟨started, hstart, rfl⟩

theorem errorPagePath_below {rootDir : Path} (hroot : rootDir ≠ []) (page : Path) :
    (errorPagePath rootDir page).head? = some .rootDir ∨ rootDir <+: errorPagePath rootDir page := by
  unfold errorPagePath
  split
  · rename_i hpage
    refine .inr ?_
    unfold Posix.Path.push
    rw [if_neg hpage.1, if_neg hroot]
    exact List.prefix_append _ _
  · rename_i hpage
    by_cases habsolute : page.head? = some .rootDir
    · exact .inl habsolute
    · exact .inr (not_not.mp fun h => hpage ⟨habsolute, h⟩)

/-- The limit of the settings is not zero. -/
theorem pos_of_maxUpgradeTunnels {option : Option Nat} {n : Nat} (h : Proxy.maxUpgradeTunnels option = some n) : 0 < n := by
  obtain ⟨m, _, hm⟩ := Option.bind_eq_some_iff.mp h
  split at hm
  · cases hm
  · cases hm
    omega

/-- What the settings of the file hold is still there when the rules are resolved. -/
theorem Resolves.keeps {adv resolved : Advanced} (h : Resolves crates adv resolved) :
    resolved.virtualHosts = adv.virtualHosts ∧ resolved.proxySettings = adv.proxySettings := by
  obtain ⟨_, _, ⟨_, rfl⟩ | ⟨_, _, rfl, _⟩⟩ := h
  · exact ⟨rfl, rfl⟩
  · exact ⟨rfl, rfl⟩

theorem Resolves.compiled {adv resolved : Advanced} (hempty : crates.parseUri [] = none) (hraw : adv.proxies = none)
    (h : Resolves crates adv resolved) {rules : List ProxyRule} (hrules : resolved.proxies = some rules) :
    rules ≠ [] ∧ ∀ rule ∈ rules, ∃ d, Proxy.CompiledFrom crates.parseUri d rule := by
  obtain ⟨defs, _, ⟨_, rfl⟩ | ⟨hne, rules', rfl, hcompiled⟩⟩ := h
  · rw [hraw] at hrules
    cases hrules
  · cases hrules
    refine ⟨hcompiled.ne_nil hne, fun rule hrule => ?_⟩
    obtain ⟨d, _, hd⟩ := hcompiled.exists_def hrule
    exact ⟨d, Proxy.compileProxyRule_compiledFrom hempty hd⟩

theorem ne_nil_of_isDir {path : Path} (h : t.isDir path = true) : path ≠ [] := by
  rintro rfl
  cases h

/-- The limit of the tunnels is that of the file, which is not zero. -/
theorem RunsProxy.tunnels {parse : ParseCrates} {home : Option Octets} {file : File.Advanced} {adv resolved : Advanced}
    {client : ClientSettings} {runtime : ProxyRuntime} {semaphore : Semaphore}
    (h : RunsProxy crates sys t resolved client runtime) (hread : ReadsAdvanced parse t home file adv client)
    (hresolves : Resolves crates adv resolved) (hsemaphore : runtime.upgradeTunnelSemaphore = some semaphore) :
    ∃ n, 0 < n ∧ n ≤ Proxy.maxPermits sys.bits ∧ semaphore = Semaphore.new n := by
  obtain ⟨n, hn, hnew⟩ := Option.map_eq_some_iff.mp (h.semaphore.symm.trans hsemaphore)
  have hpermits := h.permits n hn
  rw [hresolves.keeps.2, hread.proxySettings] at hn
  exact ⟨n, pos_of_maxUpgradeTunnels hn, hpermits, hnew.symm⟩

/-- The redirect server sends the client to the port of the other one. -/
theorem Serves.redirect {listener : Option SocketAddr} {general : General} {tls : List Octets × Octets}
    {addr : SocketAddr} {opts : RedirectOpts} (hlistens : Listens sys general listener)
    (h : Serves crates sys t listener general (.http2 tls (some (addr, opts)))) : opts.allowedHosts ≠ [] ∧
      ∀ bound, listener = some bound → ∃ ip, bound = socketAddr ip opts.httpsPort := by
  obtain ⟨_, _, _, hredirects⟩ := h
  rw [hredirects.opts_eq]
  refine ⟨splitTrimmed_ne_nil _, fun bound hbound => ?_⟩
  unfold Listens at hlistens
  split at hlistens
  · rw [hlistens.2] at hbound
    cases hbound
  · obtain ⟨addr', ⟨ip, _, haddr, _⟩, hlistener⟩ := hlistens
    rw [hlistener] at hbound
    cases hbound
    exact ⟨ip, haddr⟩

namespace Starts

variable {settings : WeaveGate.Settings} {started : Started}

theorem rootDir (h : Starts crates sys t settings started) : started.opts.rootDir = settings.general.root :=
  congrArg RequestHandlerOpts.rootDir h.opts

theorem pages (h : Starts crates sys t settings started) : ∀ page ∈ [started.opts.page404, started.opts.page50x],
    page.head? = some .rootDir ∨ started.opts.rootDir <+: page := by
  have h404 : started.opts.page404 = errorPagePath settings.general.root settings.general.page404 :=
    congrArg RequestHandlerOpts.page404 h.opts
  have h50x : started.opts.page50x = errorPagePath settings.general.root settings.general.page50x :=
    congrArg RequestHandlerOpts.page50x h.opts
  have hbelow := errorPagePath_below (ne_nil_of_isDir h.root)
  simp only [List.forall_mem_cons, h404, h50x, h.rootDir]
  exact ⟨hbelow _, hbelow _, fun _ h => by cases h⟩

theorem proxyClient_isSome (h : Starts crates sys t settings started) :
    started.opts.proxyClient.isSome = started.proxy.isSome := by
  have hclient : started.opts.proxyClient = started.proxy.map fun runtime => crates.client runtime.client :=
    congrArg RequestHandlerOpts.proxyClient h.opts
  rw [hclient, Option.isSome_map]

theorem proxyFirst (h : Starts crates sys t settings started) (hfirst : started.opts.proxyFirst = true) :
    started.opts.proxyClient.isSome = true := by
  have heq : started.opts.proxyFirst = started.proxy.any (·.proxyFirst) := congrArg RequestHandlerOpts.proxyFirst h.opts
  rw [heq] at hfirst
  obtain ⟨runtime, hruntime, _⟩ := (Option.any_eq_true _ _).mp hfirst
  rw [h.proxyClient_isSome, hruntime]
  rfl

end Starts

/-- A reverse proxy of one rule that trusts the certificate of the file only. -/
def ownCaServer : FileTree :=
  { nodes :=
      [ ([], Static.sampleDir [Static.named "weavegate.toml", Static.named "ca.pem", Static.named "public"]),
        ([Static.named "weavegate.toml"], Static.sampleFile (Static.named "own")),
        ([Static.named "ca.pem"], Static.sampleFile (Static.named "root")), ([Static.named "public"], Static.sampleDir []) ]
    cwd := [], symloopMax := 40, wf := by decide }

def ownCaParse : ParseCrates :=
  { Proxy.ownCaCrates with
    toml := { Value := FileSettings, fromStr := fun _ => some ⟨none, some { Proxy.ownCaOptions with
                proxies := some [Proxy.sampleDef "/*".toList], maxUpgradeTunnels := some 4 }⟩
              deserialize := some } }

def sampleStart : StartCrates :=
  { globs := Proxy.starGlobs, parseUri := parseHttpUri, pem := Proxy.ownCaPem
    serverTls := ⟨fun content => some [content], some, fun _ _ => true⟩, order := id, client := fun _ => echoClient
    fetch := Proxy.noFetch, renderShellCompletions := fun _ => .ok (), renderManpages := fun _ => .ok () }

def sampleSystem : System :=
  { cpus := some 4, bits := 64, inherited := fun _ => false, bind := fun bound addr => addr ∉ bound, signals := true }

def Outcome.server? : Outcome → Option Started
  | .started server => some server
  | _ => none

theorem exists_started {o : Except Error Outcome} {p : Started → Bool}
    (h : ((o.toOption.bind Outcome.server?).any p) = true) : ∃ server, o = .ok (.started server) ∧ p server = true := by
  rcases o with _ | _ | _ | server
  · cases h
  · cases h
  · cases h
  · exact ⟨server, rfl, h⟩

end WeaveGate.Server
