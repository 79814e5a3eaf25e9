import WeaveGate.Proxy.Forward
import WeaveGate.Lib.Checked

/-!
# What the proxy does with a matched request

The plain path and the upgrade path together: what goes to the upstream and what comes back.
-/

namespace WeaveGate.Proxy

open Http Settings

variable {β : Type} {globs : GlobSet} {parseUri : Str → Option Uri} {empty : β} {proxies : Option (List ProxyRule)}
  {proxyClient : Option (HttpClient β)} {client : HttpClient β} {rule : ProxyRule} {permits : Option Nat}
  {ticket : Nat} {req u : Request β} {remoteIp : Option Str}

/-! ## The request to the upstream -/

/-- The request for the upstream, on the path that the client's request takes. -/
def upstreamRequest (parseUri : Str → Option Uri) (rule : ProxyRule) (ticket : Nat) (req : Request β)
    (remoteIp : Option Str) : Except Error (Request β) :=
  if isProtocolUpgrade req then upstreamUpgradeRequest parseUri rule ticket req remoteIp
  else upstreamHttpRequest parseUri rule ticket req remoteIp

/-- `u` is the client's request but for its header fields and its URI, which is one of the rule's upstreams. -/
structure SameRequest (parseUri : Str → Option Uri) (rule : ProxyRule) (ticket : Nat) (req u : Request β) :
    Prop where
  method : u.method = req.method
  body : u.body = req.body
  uri : upstreamUriForRule parseUri rule ticket req.uri = .ok u.uri

theorem upstreamRequest_same (h : upstreamRequest parseUri rule ticket req remoteIp = .ok u) :
    SameRequest parseUri rule ticket req u := by
  unfold upstreamRequest at h
  split at h
  · obtain ⟨uri, huri, h⟩ := Checked.bind_eq_ok.mp h
    obtain ⟨headers, _, h⟩ := Checked.bind_eq_ok.mp h
    cases h
    exact ⟨rfl, rfl, huri⟩
  · obtain ⟨uri, huri, h⟩ := Checked.bind_eq_ok.mp h
    obtain ⟨headers, _, h⟩ := Checked.bind_eq_ok.mp h
    cases h
    exact ⟨rfl, rfl, huri⟩

/-! ## The exchange -/

def TunnelFree (permits : Option Nat) (req : Request β) : Prop := isProtocolUpgrade req = true → permits ≠ some 0

instance : Decidable (TunnelFree permits req) := inferInstanceAs (Decidable (_ → _))

/-- The body that the client gets. Behind an accepted upgrade the tunnel takes its place. -/
def relayedBody (empty : β) (req : Request β) (resp : Response β) : β :=
  if isProtocolUpgrade req = true ∧ resp.status = .switchingProtocols then empty else resp.body

structure Relays (empty : β) (client : HttpClient β) (req u : Request β) (x : Exchange β) : Prop where
  sent : x.sent = [u]
  answered : ∀ resp, client u = .ok resp → ∃ relayed, x.result = .ok relayed ∧ relayed.status = resp.status ∧
    relayed.body = relayedBody empty req resp
  failed : ∀ e, client u = .error e → ∃ e', x.result = .error e'

theorem forwardHttp_relays (hplain : isProtocolUpgrade req = false)
    (hu : upstreamHttpRequest parseUri rule ticket req remoteIp = .ok u) :
    Relays empty client req u (forwardHttp parseUri client rule ticket req remoteIp) := by
  simp only [forwardHttp, hu]
  cases hc : client u with
  | error e => exact ⟨rfl, fun _ h => (nomatch hc.symm.trans h), fun _ _ => ⟨_, rfl⟩⟩
  | ok resp =>
      refine ⟨rfl, fun resp' h => ?_, fun _ h => (nomatch hc.symm.trans h)⟩
      cases hc.symm.trans h
      exact ⟨_, rfl, rfl, by simp [relayedBody, hplain]⟩

theorem forwardUpgradeInner_relays (hupgrade : isProtocolUpgrade req = true)
    (hu : upstreamUpgradeRequest parseUri rule ticket req remoteIp = .ok u) :
    Relays empty client req u (forwardUpgradeInner parseUri empty client rule ticket req remoteIp) := by
  simp only [forwardUpgradeInner, hu]
  cases hc : client u with
  | error e => exact ⟨rfl, fun _ h => (nomatch hc.symm.trans h), fun _ _ => ⟨_, rfl⟩⟩
  | ok resp =>
      dsimp only
      split
      · refine ⟨rfl, fun resp' h => ?_, fun _ h => (nomatch hc.symm.trans h)⟩
        cases hc.symm.trans h
        exact ⟨_, rfl, rfl, by rw [relayedBody, if_neg (fun hsw => ‹_ ≠ _› hsw.2)]⟩
      · refine ⟨rfl, fun resp' h => ?_, fun _ h => (nomatch hc.symm.trans h)⟩
        cases hc.symm.trans h
        exact ⟨_, rfl, rfl, by rw [relayedBody, if_pos ⟨hupgrade, by simp_all⟩]⟩

/-! ## The three ends of a matched request -/

variable (hrule : findRule globs proxies req = some rule) (hclient : proxyClient = some client)

include hrule hclient

theorem preProcess_matched :
    preProcess parseUri globs empty proxies proxyClient permits ticket req remoteIp =
      some (if isProtocolUpgrade req then forwardUpgrade parseUri empty permits client rule ticket req remoteIp
        else forwardHttp parseUri client rule ticket req remoteIp) := by
  simp only [preProcess, hrule, hclient, bind, Option.bind, pure]
  split <;> rfl

theorem preProcess_relays (hfree : TunnelFree permits req)
    (hu : upstreamRequest parseUri rule ticket req remoteIp = .ok u) :
    ∃ x, preProcess parseUri globs empty proxies proxyClient permits ticket req remoteIp = some x ∧
      Relays empty client req u x := by
  rw [preProcess_matched hrule hclient]
  refine ⟨_, rfl, ?_⟩
  by_cases h : isProtocolUpgrade req = true
  · rw [if_pos h, forwardUpgrade, if_neg (hfree h)]
    rw [upstreamRequest, if_pos h] at hu
    exact forwardUpgradeInner_relays h hu
  · rw [if_neg h]
    rw [upstreamRequest, if_neg h] at hu
    exact forwardHttp_relays (by simpa using h) hu

theorem preProcess_of_error {e : Error} (hfree : TunnelFree permits req)
    (he : upstreamRequest parseUri rule ticket req remoteIp = .error e) :
    preProcess parseUri globs empty proxies proxyClient permits ticket req remoteIp = some ⟨[], .error e⟩ := by
  rw [preProcess_matched hrule hclient]
  by_cases h : isProtocolUpgrade req = true
  · rw [upstreamRequest, if_pos h] at he
    simp only [if_pos h, forwardUpgrade, if_neg (hfree h), forwardUpgradeInner, he]
  · rw [upstreamRequest, if_neg h] at he
    simp only [if_neg h, forwardHttp, he]

theorem preProcess_of_no_tunnel (hfree : ¬ TunnelFree permits req) :
    preProcess parseUri globs empty proxies proxyClient permits ticket req remoteIp =
      some ⟨[], .ok ((Response.new empty).withStatus .serviceUnavailable)⟩ := by
  rw [TunnelFree, not_forall] at hfree
  obtain ⟨hupgrade, hpermits⟩ := hfree
  rw [preProcess_matched hrule hclient, if_pos hupgrade, forwardUpgrade, if_pos (by simpa using hpermits)]

end WeaveGate.Proxy
