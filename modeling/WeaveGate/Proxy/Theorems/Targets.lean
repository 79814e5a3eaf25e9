import WeaveGate.Proxy.Lemmas.Exchange
import WeaveGate.Proxy.Lemmas.Headers
import WeaveGate.Proxy.Lemmas.Uri
import WeaveGate.Proxy.Theorems.Compiled

/-!
# The targets of a compiled rule

What a rule sends is at the target that its balancer picks, whatever the request.
-/

namespace WeaveGate.Proxy

open Http Settings

variable {globs : GlobSet} {parseUri : Str → Option Uri}

/-! ## The URIs of a rule -/

theorem accepted_of_compileProxyTargets {d : Proxy} {targets : List Uri} (h : compileProxyTargets parseUri d = .ok targets) :
    ∀ target ∈ targets, ∃ url context, parseProxyTargetUrl parseUri url context = .ok target := by
  unfold compileProxyTargets at h
  dsimp only at h
  split at h
  · cases h
  · cases h
  · obtain ⟨target, htarget, h⟩ := Checked.bind_eq_ok.mp h
    cases h
    simpa using ⟨_, _, htarget⟩
  · intro target hmem
    obtain ⟨_, _, htarget⟩ := Checked.exists_left (Checked.mapM_eq_ok.mp h) hmem
    exact ⟨_, _, htarget⟩

theorem accepted_of_compileProxyRule {d : Proxy} {rule : ProxyRule} (h : compileProxyRule globs parseUri d = .ok rule) :
    ∀ target ∈ rule.balancer.targets, ∃ url context, parseProxyTargetUrl parseUri url context = .ok target := by
  unfold compileProxyRule at h
  split at h
  · cases h
  · split at h
    · cases h
    · obtain ⟨targets, htargets, h⟩ := Checked.bind_eq_ok.mp h
      obtain ⟨templates, _, h⟩ := Checked.bind_eq_ok.mp h
      obtain ⟨balancer, hbalancer, h⟩ := Checked.bind_eq_ok.mp h
      unfold ProxyBalancer.new at hbalancer
      split at hbalancer
      · cases hbalancer
      · cases hbalancer
        cases h
        exact accepted_of_compileProxyTargets htargets

/-- The URI that a rule makes is at the target that is picked, below its base path. -/
theorem upstreamUri_at (hparse : AbsoluteUris parseUri) (hempty : parseUri [] = none) {d : Proxy} {rule : ProxyRule}
    (h : compileProxyRule globs parseUri d = .ok rule) {ticket : Nat} {uri u : Uri}
    (hu : upstreamUriForRule parseUri rule ticket uri = .ok u) :
    ∃ target scheme authority, rule.balancer.targets[(rule.balancer.nextIndex 64 ticket).1]? = some target ∧
      target.scheme = some scheme ∧ target.authority = some authority ∧ u.scheme = some scheme ∧
      u.authority = some authority ∧ Text.trimEndMatches '/' target.path <+: u.path := by
  have hcompiled := compileProxyRule_compiledFrom hempty h
  obtain ⟨target, template, htarget, htemplate, hbuilt⟩ := (hcompiled.picks ticket uri).built
  obtain ⟨_, _, haccepted⟩ := accepted_of_compileProxyRule h target (List.mem_of_getElem? htarget)
  obtain ⟨⟨scheme, authority, hscheme, hauthority, hat⟩, hbase, _⟩ := TemplateAt.of_accepted hparse haccepted htemplate
  obtain ⟨_, _, huscheme, huauthority, hupath, _⟩ := hat.build_parts (hbuilt.symm.trans hu)
  exact ⟨target, scheme, authority, htarget, hscheme, hauthority, huscheme, huauthority, hbase ▸ hupath⟩

/-! ## The requests of a rule -/

variable {β : Type} {rule : ProxyRule} {ticket : Nat} {req u : Request β} {remoteIp : Option Str}

/-- A request that one of the two paths makes for an upstream. -/
def Makes (parseUri : Str → Option Uri) (rule : ProxyRule) (ticket : Nat) (req : Request β) (remoteIp : Option Str)
    (u : Request β) : Prop :=
  upstreamHttpRequest parseUri rule ticket req remoteIp = .ok u ∨
    upstreamUpgradeRequest parseUri rule ticket req remoteIp = .ok u

/-- Nothing that is done to the fields after the `Host` field changes it. -/
theorem Makes.host (h : Makes parseUri rule ticket req remoteIp u) :
    upstreamUriForRule parseUri rule ticket req.uri = .ok u.uri ∧
      ∃ authority, u.uri.authority = some authority ∧ u.headers.getAll .host = [Posix.utf8 authority] := by
  have hvalue : ∀ {uri : Uri} {host : HeaderValue}, uri.authority.bind HeaderValue.fromStr = some host →
      ∃ authority, uri.authority = some authority ∧ host = Posix.utf8 authority := by
    intro uri host hhost
    obtain ⟨authority, hauthority, hhost⟩ := Option.bind_eq_some_iff.mp hhost
    refine ⟨authority, hauthority, ?_⟩
    unfold HeaderValue.fromStr HeaderValue.fromOctets at hhost
    split at hhost
    · cases hhost
      rfl
    · cases hhost
  have hforwarded : HeaderName.host ∉ forwardedNames := by decide
  rcases h with h | h
  · obtain ⟨uri, host, huri, hhost, rfl⟩ := upstreamHttpRequest_eq_ok.mp h
    obtain ⟨authority, hauthority, rfl⟩ := hvalue hhost
    refine ⟨huri, authority, hauthority, ?_⟩
    dsimp only
    rw [removeHopByHopRequestHeaders, Multimap.getAll_removeAll, if_neg (by decide),
      getAll_appendForwardedHeaders hforwarded, Multimap.getAll_insert_self]
  · obtain ⟨uri, host, huri, hhost, rfl⟩ := upstreamUpgradeRequest_eq_ok.mp h
    obtain ⟨authority, hauthority, rfl⟩ := hvalue hhost
    refine ⟨huri, authority, hauthority, ?_⟩
    dsimp only
    rw [getAll_appendForwardedHeaders hforwarded, Multimap.getAll_insert_self]

/-- A request to a target: there, below its base path, and with its name. -/
def IsAt (target : Uri) (u : Request β) : Prop :=
  ∃ scheme authority, target.scheme = some scheme ∧ target.authority = some authority ∧ u.uri.scheme = some scheme ∧
    u.uri.authority = some authority ∧ Text.trimEndMatches '/' target.path <+: u.uri.path ∧
    u.headers.getAll .host = [Posix.utf8 authority]

theorem Makes.isAt (hparse : AbsoluteUris parseUri) (hempty : parseUri [] = none) {d : Proxy}
    (hrule : compileProxyRule globs parseUri d = .ok rule) (h : Makes parseUri rule ticket req remoteIp u) :
    ∃ target, rule.balancer.targets[(rule.balancer.nextIndex 64 ticket).1]? = some target ∧ IsAt target u := by
  obtain ⟨huri, name, hname, hhost⟩ := h.host
  obtain ⟨target, scheme, authority, htarget, hscheme, hauthority, huscheme, huauthority, hpath⟩ :=
    upstreamUri_at hparse hempty hrule huri
  cases huauthority.symm.trans hname
  exact ⟨target, htarget, scheme, _, hscheme, hauthority, huscheme, huauthority, hpath, hhost⟩

/-- What comes of a request in its turn: it goes to the upstream that the balancer chose, or it is an error. -/
structure GoesTo (rule : ProxyRule) (upstream : Nat) (x : Exchange β) : Prop where
  once : x.sent.length ≤ 1
  target : ∀ u ∈ x.sent, ∃ target, rule.balancer.targets[upstream]? = some target ∧ IsAt target u
  refused : x.sent = [] → ∃ e, x.result = .error e

theorem preProcess_goesTo (hparse : AbsoluteUris parseUri) (hempty : parseUri [] = none) {d : Proxy}
    (hcompiled : compileProxyRule globs parseUri d = .ok rule) {proxies : Option (List ProxyRule)}
    (hrule : findRule globs proxies req = some rule) (empty : β) {client : HttpClient β} {permits : Option Nat}
    (hfree : TunnelFree permits req) {exchange : Exchange β}
    (h : preProcess parseUri globs empty proxies (some client) permits ticket req remoteIp = some exchange) :
    GoesTo rule (rule.balancer.nextIndex 64 ticket).1 exchange := by
  cases hu : upstreamRequest parseUri rule ticket req remoteIp with
  | error e =>
      cases (preProcess_of_error hrule rfl hfree hu).symm.trans h
      exact ⟨Nat.zero_le 1, fun _ h => (nomatch h), fun _ => ⟨e, rfl⟩⟩
  | ok u =>
      obtain ⟨x, hx, hrelays⟩ := preProcess_relays hrule rfl hfree hu
      cases hx.symm.trans h
      have hmakes : Makes parseUri rule ticket req remoteIp u := by
        unfold upstreamRequest at hu
        split at hu
        · exact .inr hu
        · exact .inl hu
      refine ⟨by rw [hrelays.sent]; exact Nat.le_refl 1, fun v hv => ?_, fun hnil => ?_⟩
      · rw [hrelays.sent] at hv
        rw [List.mem_singleton.mp hv]
        exact hmakes.isAt hparse hempty hcompiled
      · rw [hrelays.sent] at hnil
        cases hnil

end WeaveGate.Proxy
