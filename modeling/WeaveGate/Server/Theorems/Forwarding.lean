import WeaveGate.Handler.Theorems.Balance
import WeaveGate.Server.Theorems.Start

/-!
# Where a server forwards to

From the rules of the file and of the control plane to the requests that are sent to the upstreams.
-/

namespace WeaveGate.Proxy

open Http Settings

variable {globs : GlobSet} {parseUri : Str → Option Uri}

/-! ## Rules and their targets -/

/-- A request that is sent to a target of a definition. -/
def SentToTarget {β : Type} (parseUri : Str → Option Uri) (d : Proxy) (u : Request β) : Prop :=
  ∃ url ∈ givenUrls d, ∃ target, parseUri url = some target ∧ IsAt target u

variable {β : Type} {rule : ProxyRule} {ticket : Nat} {req u : Request β} {remoteIp : Option Str}

theorem Makes.sentToTarget (hparse : AbsoluteUris parseUri) (hempty : parseUri [] = none) {d : Proxy}
    (hrule : compileProxyRule globs parseUri d = .ok rule) (h : Makes parseUri rule ticket req remoteIp u) :
    SentToTarget parseUri d u := by
  obtain ⟨target, htarget, hat⟩ := h.isAt hparse hempty hrule
  have hgiven : some target ∈ (givenUrls d).map parseUri := by
    rw [← (compileProxyRule_compiledFrom hempty hrule).targets]
    exact List.mem_map_of_mem (List.mem_of_getElem? htarget)
  obtain ⟨url, hurl, hparsed⟩ := List.mem_map.mp hgiven
  exact ⟨url, hurl, target, hparsed, hat⟩

theorem makes_of_sent {empty : β} {proxies : Option (List ProxyRule)} {proxyClient : Option (HttpClient β)}
    {permits : Option Nat} {exchange : Exchange β}
    (h : preProcess parseUri globs empty proxies proxyClient permits ticket req remoteIp = some exchange)
    (hu : u ∈ exchange.sent) :
    ∃ rule, findRule globs proxies req = some rule ∧ Makes parseUri rule ticket req remoteIp u := by
  obtain ⟨rule, hrule, h⟩ := Option.bind_eq_some_iff.mp h
  obtain ⟨client, _, h⟩ := Option.bind_eq_some_iff.mp h
  refine ⟨rule, hrule, ?_⟩
  split at h
  · cases h
    unfold forwardUpgrade at hu
    split at hu
    · cases hu
    · exact .inr (mem_sent_forwardUpgradeInner hu)
  · cases h
    exact .inl (mem_sent_forwardHttp hu)

end WeaveGate.Proxy

namespace WeaveGate.Server

open Http Settings Handler
open Posix (FileTree Octets Path)
open Static (Body)

variable {crates : StartCrates} {sys : System} {t : FileTree}

/-! ## The rules of a server -/

/-- The definitions of a file, and those that the control plane has for it. -/
def Lists (fetch : RoutesBootstrap → Except Error (Option (List Settings.Proxy))) (options : File.Advanced)
    (d : Settings.Proxy) : Prop :=
  d ∈ options.proxies.getD [] ∨ ∃ bootstrap remote, options.routesBootstrap = some bootstrap ∧
    fetch bootstrap = .ok (some remote) ∧ d ∈ remote

theorem Gathers.lists {fetch : RoutesBootstrap → Except Error (Option (List Settings.Proxy))} {options : File.Advanced}
    {adv : Advanced} {defs : List Settings.Proxy} (h : Gathers fetch adv defs) (hdefs : adv.proxyDefs = options.proxies)
    (hbootstrap : adv.routesBootstrap = options.routesBootstrap) {d : Settings.Proxy} (hd : d ∈ defs) :
    Lists fetch options d := by
  unfold Gathers at h
  rw [hdefs, hbootstrap] at h
  split at h
  · rw [h] at hd
    exact .inl hd
  · rename_i bootstrap hsome
    obtain ⟨remote, hremote, rfl⟩ := h
    rcases List.mem_append.mp hd with hd | hd
    · exact .inl hd
    · cases remote with
      | none => cases hd
      | some remote => exact .inr ⟨bootstrap, remote, hsome, hremote, hd⟩

/-- A rule of a started server was compiled from a definition that its file lists. -/
theorem compiled_of_main {parse : ParseCrates} {home : Option Octets} {opts : General} {started : Started}
    (h : main crates sys t parse home opts = .ok (.started started)) {rules : List ProxyRule}
    (hrules : started.opts.advancedOpts.bind (·.proxies) = some rules) {rule : ProxyRule} (hrule : rule ∈ rules) :
    ∃ path resolved file options d, UsesFile t opts path ∧ HoldsSettings parse.toml t path file resolved ∧
      file.advanced = some options ∧ Lists crates.fetch options d ∧
      Proxy.compileProxyRule crates.globs crates.parseUri d = .ok rule := by
  obtain ⟨_, _, settings, hreads, hstart⟩ := main_eq_started.mp h
  have hadvanced := (starts_of_startServer (unresolved_of_reads hreads) hstart).advanced
  unfold StartsAdvanced at hadvanced
  cases hsettings : settings.advanced with
  | none =>
      rw [hsettings] at hadvanced
      rw [hadvanced.1] at hrules
      cases hrules
  | some settings' =>
      obtain ⟨adv, client⟩ := settings'
      obtain ⟨path, resolved, file, options, uses, holds, hfile, hread⟩ := hreads.exists_file hsettings
      rw [hsettings] at hadvanced
      obtain ⟨adv', _, hopts, ⟨defs, hdefs, hresolved⟩, _⟩ := hadvanced
      rw [hopts, Option.bind_some] at hrules
      rcases hresolved with ⟨_, rfl⟩ | ⟨_, rules', rfl, hcompiled⟩
      · rw [hread.rules.1] at hrules
        cases hrules
      · cases hrules
        obtain ⟨d, hd, hrule⟩ := hcompiled.exists_def hrule
        exact ⟨path, resolved, file, options, d, uses, holds, hfile,
          hdefs.lists hread.rules.2.1 hread.rules.2.2 hd, hrule⟩

/-! ## The requests that it sends -/

/-- A request that is sent comes from the proxy rules, for the request that reaches them. -/
theorem makes_of_handle {crates : Handler.Crates} {w : World} {opts : RequestHandlerOpts} {remoteIp : Option Str}
    {req u : Request Body} (h : u ∈ (handle crates w opts remoteIp req).sent) :
    ∃ r rule, atProxy crates w opts req = some r ∧
      Proxy.findRule crates.globs (opts.advancedOpts.bind (·.proxies)) r = some rule ∧
      Proxy.Makes crates.parseUri rule w.ticket r remoteIp u := by
  obtain ⟨own, hsent, howns⟩ := handle_ticket crates w opts remoteIp req
  have hown := howns w.ticket
  rw [show { w with ticket := w.ticket } = w from rfl] at hown
  rw [hown] at h
  split at h
  · rw [Option.bind_none, Option.getD_none, hsent] at h
    cases h
  · cases hproxied : atProxy crates w opts req with
    | none =>
        rw [hproxied, Option.bind_none, Option.getD_none, hsent] at h
        cases h
    | some r =>
        rw [hproxied, Option.bind_some] at h
        unfold tryReverseProxy at h
        cases hexchange : Proxy.preProcess crates.parseUri crates.globs .empty (opts.advancedOpts.bind (·.proxies))
            opts.proxyClient w.permits w.ticket r remoteIp with
        | none =>
            rw [hexchange, Option.bind_eq_bind, Option.bind_none, Option.getD_none, hsent] at h
            cases h
        | some exchange =>
            rw [hexchange, Option.bind_eq_bind, Option.bind_some, Option.pure_def, Option.getD_some] at h
            obtain ⟨rule, hrule, hmakes⟩ := Proxy.makes_of_sent hexchange h
            exact ⟨r, rule, rfl, hrule, hmakes⟩

/-- The definition is for the host and the path of the request. -/
def IsFor (globs : GlobSet) (d : Settings.Proxy) (req : Request Body) : Prop :=
  ∃ host, Proxy.requestHost req = some host ∧ (∀ only, d.host = some only → only = host) ∧
    globs.isMatch ⟨d.source⟩ req.uri.path = true

theorem mem_of_findRule {globs : GlobSet} {rules : List ProxyRule} {req : Request Body} {rule : ProxyRule}
    (h : Proxy.findRule globs (some rules) req = some rule) : rule ∈ rules := by
  obtain ⟨_, _, h⟩ := Option.bind_eq_some_iff.mp h
  exact List.mem_of_find?_eq_some h

theorem isFor_of_findRule {globs : GlobSet} {parseUri : Str → Option Uri} {rules : Option (List ProxyRule)}
    {req : Request Body} {rule : ProxyRule} (h : Proxy.findRule globs rules req = some rule) {d : Settings.Proxy}
    (hcompiled : Proxy.compileProxyRule globs parseUri d = .ok rule) : IsFor globs d req := by
  obtain ⟨_, _, h⟩ := Option.bind_eq_some_iff.mp h
  obtain ⟨host, hhost, h⟩ := Option.bind_eq_some_iff.mp h
  obtain ⟨hrulehost, hsource, _⟩ := Proxy.compileProxyRule_ok hcompiled
  have hmatches := List.find?_some h
  unfold Proxy.ruleMatches at hmatches
  rw [hrulehost, hsource, Bool.and_eq_true] at hmatches
  refine ⟨host, hhost, fun only honly => ?_, hmatches.2⟩
  have hall := hmatches.1
  rw [honly] at hall
  exact of_decide_eq_true hall

/-- Where a request goes that a started server sends. -/
structure ForwardsAsConfigured (crates : StartCrates) (t : FileTree) (parse : ParseCrates) (opts : General)
    (proxied u : Request Body) : Prop where
  exists_rule : ∃ path resolved file options d, UsesFile t opts path ∧ HoldsSettings parse.toml t path file resolved ∧
    file.advanced = some options ∧ Lists crates.fetch options d ∧ IsFor crates.globs d proxied ∧
    Proxy.SentToTarget crates.parseUri d u

/-- Whatever a client asks, a server that has started sends requests to targets of its configuration only, and only
for the hosts and the paths that these are for. -/
theorem main_forwards (hparse : AbsoluteUris crates.parseUri) (hempty : crates.parseUri [] = none) {parse : ParseCrates}
    {home : Option Octets} {opts : General} {started : Started} (h : main crates sys t parse home opts = .ok (.started started))
    {handler : Handler.Crates} (hglobs : handler.globs = crates.globs) (huri : handler.parseUri = crates.parseUri)
    {w : World} {remoteIp : Option Str} {req u : Request Body}
    (hu : u ∈ (handle handler w started.opts remoteIp req).sent) :
    ∃ proxied, atProxy handler w started.opts req = some proxied ∧
      ForwardsAsConfigured crates t parse opts proxied u := by
  obtain ⟨r, rule, hproxied, hrule, hmakes⟩ := makes_of_handle hu
  rw [hglobs] at hrule
  rw [huri] at hmakes
  obtain ⟨rules, hrules, _⟩ := Option.bind_eq_some_iff.mp hrule
  have hmem : rule ∈ rules := mem_of_findRule (hrules ▸ hrule)
  obtain ⟨path, resolved, file, options, d, uses, holds, hfile, hlists, hcompiled⟩ := compiled_of_main h hrules hmem
  exact ⟨r, hproxied, path, resolved, file, options, d, uses, holds, hfile, hlists, isFor_of_findRule hrule hcompiled,
    hmakes.sentToTarget hparse hempty hcompiled⟩

def forwardingCrates : Handler.Crates :=
  { Handler.sampleCrates with globs := sampleStart.globs, parseUri := sampleStart.parseUri }

theorem main_forwards_ownCa : ∃ started u proxied, main sampleStart sampleSystem ownCaServer ownCaParse none .default =
      .ok (.started started) ∧
    u ∈ (handle forwardingCrates sampleWorld started.opts none (Handler.sampleRequest .get)).sent ∧
    atProxy forwardingCrates sampleWorld started.opts (Handler.sampleRequest .get) = some proxied ∧
    ForwardsAsConfigured sampleStart ownCaServer ownCaParse .default proxied u := by
  obtain ⟨started, hstarted, hsent⟩ := exists_started
    (o := main sampleStart sampleSystem ownCaServer ownCaParse none .default)
    (p := fun started =>
      !(handle forwardingCrates sampleWorld started.opts none (Handler.sampleRequest .get)).sent.isEmpty)
    (by decide +kernel)
  have hne : (handle forwardingCrates sampleWorld started.opts none (Handler.sampleRequest .get)).sent ≠ [] := fun hnil => by
    rw [hnil] at hsent
    cases hsent
  obtain ⟨u, hu⟩ := List.exists_mem_of_ne_nil _ hne
  obtain ⟨proxied, hproxied, hforwards⟩ := main_forwards absoluteUris_parseHttpUri (by decide) hstarted rfl rfl hu
  exact ⟨started, u, proxied, hstarted, hu, hproxied, hforwards⟩

end WeaveGate.Server
