import WeaveGate.Handler.Lemmas.Stages
import WeaveGate.Proxy.Theorems
import WeaveGate.Static.Theorems.Access

/-!
# Requests for which the proxy has a rule

What the handler as a whole does with a request that no stage before the proxy concerns and that a rule matches.
-/

namespace WeaveGate.Handler

open Http Settings
open Static (Body)

variable {crates : Crates} {w : World} {opts : RequestHandlerOpts} {remoteIp : Option Str} {req : Request Body}
  {rule : ProxyRule} {client : Proxy.HttpClient Body}

/-- One request went to the upstream, and its answer, or a page that says that there is none, to the client. -/
structure Forwards (crates : Crates) (w : World) (opts : RequestHandlerOpts) (rule : ProxyRule)
    (client : Proxy.HttpClient Body) (req u : Request Body) (o : Outcome) : Prop where
  sent : o.sent = [u]
  same : Proxy.SameRequest crates.parseUri rule w.ticket req u
  answered : ∀ resp, client u = .ok resp → ∃ relayed, o.result = .ok relayed ∧ relayed.status = resp.status ∧
    relayed.body = Proxy.relayedBody .empty req resp
  failed : ∀ e, client u = .error e → o.result = .ok (errorPage w opts req .badGateway)

/-- The ends of a request that reaches the proxy: it is refused for its method, for want of a tunnel or for want of
an upstream URI, or it is forwarded. -/
structure EndsAtProxy (crates : Crates) (w : World) (opts : RequestHandlerOpts) (remoteIp : Option Str)
    (rule : ProxyRule) (client : Proxy.HttpClient Body) (req : Request Body) (o : Outcome) : Prop where
  noStatic : o.staticCall = none
  method : Static.isAllowed req.method = false → o = .answer (errorPage w opts req .methodNotAllowed)
  tunnel : Static.isAllowed req.method = true → ¬ Proxy.TunnelFree w.permits req →
    o.sent = [] ∧ ∃ resp, o.result = .ok resp ∧ resp.status = .serviceUnavailable ∧ resp.body = .empty
  upstream : Static.isAllowed req.method = true → Proxy.TunnelFree w.permits req →
    ∀ e, Proxy.upstreamRequest crates.parseUri rule w.ticket req remoteIp = .error e →
      o = .answer (errorPage w opts req .badGateway)
  forwards : Static.isAllowed req.method = true → Proxy.TunnelFree w.permits req →
    ∀ u, Proxy.upstreamRequest crates.parseUri rule w.ticket req remoteIp = .ok u →
      Forwards crates w opts rule client req u o

theorem forwards_of_relays {u : Request Body} {x : Proxy.Exchange Body}
    (hu : Proxy.upstreamRequest crates.parseUri rule w.ticket req remoteIp = .ok u)
    (hx : Proxy.Relays .empty client req u x) :
    Forwards crates w opts rule client req u ⟨x.sent, none, .ok (proxyAnswer w opts req x.result)⟩ where
  sent := hx.sent
  same := Proxy.upstreamRequest_same hu
  answered resp hresp := by
    obtain ⟨relayed, hresult, hstatus, hbody⟩ := hx.answered resp hresp
    obtain ⟨headers, hanswer⟩ := proxyAnswer_eq w opts req relayed
    exact ⟨{ relayed with headers }, by rw [hresult, hanswer], hstatus, hbody⟩
  failed e he := by
    obtain ⟨e', hresult⟩ := hx.failed e he
    rw [hresult]
    rfl

theorem handle_endsAtProxy (hpass : PassesStages crates w opts req)
    (hrule : Proxy.findRule crates.globs (opts.advancedOpts.bind (·.proxies)) req = some rule)
    (hclient : opts.proxyClient = some client) :
    EndsAtProxy crates w opts remoteIp rule client req (handle crates w opts remoteIp req) where
  noStatic := by
    by_cases hallowed : Static.isAllowed req.method = true
    · rw [handle_of_tryReverseProxy hallowed hpass (tryReverseProxy_eq (Proxy.preProcess_matched hrule hclient))]
    · rw [handle_of_not_allowed (by simpa using hallowed)]
      rfl
  method hallowed := handle_of_not_allowed hallowed
  tunnel hallowed hfree := by
    rw [handle_of_tryReverseProxy hallowed hpass
      (tryReverseProxy_eq (Proxy.preProcess_of_no_tunnel hrule hclient hfree))]
    obtain ⟨headers, hanswer⟩ := proxyAnswer_eq w opts req ((Response.new Body.empty).withStatus .serviceUnavailable)
    exact ⟨rfl, _, congrArg Except.ok hanswer, rfl, rfl⟩
  upstream hallowed hfree e he := by
    rw [handle_of_tryReverseProxy hallowed hpass
      (tryReverseProxy_eq (Proxy.preProcess_of_error hrule hclient hfree he))]
    rfl
  forwards hallowed hfree u hu := by
    obtain ⟨x, hx, hrelays⟩ : ∃ x, Proxy.preProcess crates.parseUri crates.globs Body.empty
        (opts.advancedOpts.bind (·.proxies)) opts.proxyClient w.permits w.ticket req remoteIp = some x ∧
        Proxy.Relays .empty client req u x :=
      Proxy.preProcess_relays hrule hclient hfree hu
    rw [handle_of_tryReverseProxy hallowed hpass (tryReverseProxy_eq hx)]
    exact forwards_of_relays hu hrelays

def sampleCrates : Crates :=
  { globs := Proxy.starGlobs, regex := ⟨fun _ _ => false, fun _ _ => none⟩, parseUri := parseHttpUri
    static := Static.sampleCrates, parseMime := fun _ => none, basicCredentials := fun _ => none
    bcryptVerify := fun _ _ => none, encode := fun _ _ body => body }

def sampleWorld : World :=
  { tree := Static.linkedIndex, store := [], ticket := 0, permits := none, metrics := [] }

def echoClient : Proxy.HttpClient Body := fun req => .ok (Response.new req.body)

def sampleOpts : RequestHandlerOpts :=
  { rootDir := Posix.canonPath [Static.named "srv"], memoryCache := none, compression := true
    compressionLevel := .default, compressionStatic := false, dirListing := false, dirListingOrder := 6
    dirListingFormat := .html, dirListingDownload := [], cors := none, securityHeaders := false
    cacheControlHeaders := true, page404 := [], page50x := [], pageFallback := [], basicAuth := []
    indexFiles := [], redirectTrailingSlash := true, ignoreHiddenFiles := false, disableSymlinks := false
    acceptMarkdown := false, textCharset := true, health := false, metricsEnabled := false
    maintenanceMode := false, maintenanceModeStatus := .serviceUnavailable, maintenanceModeFile := []
    advancedOpts := some { Proxy.sampleAdvanced [] with proxies := some [Proxy.sampleRule] }
    proxyClient := some echoClient, proxyFirst := false }

def sampleRequest (method : Method) : Request Body :=
  { method, uri := (Proxy.getRequest [] "/v1/orders".toList none (by decide) PathAndQuery.legal_none).uri, headers := []
    body := .full (Static.named "order") }

theorem sampleRequest_passes (method : Method) :
    PassesStages sampleCrates sampleWorld sampleOpts (sampleRequest method) where
  early := by simp [earlyStages, healthPreProcess, metricsPreProcess, corsPreProcess, basicAuthPreProcess,
    maintenancePreProcess, sampleOpts]
  redirects := rfl
  rewrites := rfl

theorem sampleRequest_findRule (method : Method) :
    Proxy.findRule sampleCrates.globs (sampleOpts.advancedOpts.bind (·.proxies)) (sampleRequest method) =
      some Proxy.sampleRule := rfl

/-- A POST for which there is a rule does not reach the upstream. -/
theorem post_not_forwarded :
    PassesStages sampleCrates sampleWorld sampleOpts (sampleRequest .post) ∧
    Proxy.findRule sampleCrates.globs (sampleOpts.advancedOpts.bind (·.proxies)) (sampleRequest .post) =
      some Proxy.sampleRule ∧
    sampleOpts.proxyClient = some echoClient ∧
    ¬ ∃ u, Forwards sampleCrates sampleWorld sampleOpts Proxy.sampleRule echoClient (sampleRequest .post) u
      (handle sampleCrates sampleWorld sampleOpts none (sampleRequest .post)) := by
  refine ⟨sampleRequest_passes .post, sampleRequest_findRule .post, rfl, ?_⟩
  rintro ⟨u, hforwards⟩
  have hsent := hforwards.sent
  rw [handle_of_not_allowed (by decide)] at hsent
  exact List.cons_ne_nil u [] hsent.symm

theorem handle_endsAtProxy_get :
    EndsAtProxy sampleCrates sampleWorld sampleOpts none Proxy.sampleRule echoClient (sampleRequest .get)
      (handle sampleCrates sampleWorld sampleOpts none (sampleRequest .get)) ∧
    (handle sampleCrates sampleWorld sampleOpts none (sampleRequest .get)).sent.map (·.method) = [.get] :=
  ⟨handle_endsAtProxy (sampleRequest_passes .get) (sampleRequest_findRule .get) rfl, by decide⟩

end WeaveGate.Handler
