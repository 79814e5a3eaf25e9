import WeaveGate.Lib.Checked
import WeaveGate.Proxy.Forward

/-!
# The header fields of the upstream request

Each step of building the upstream headers leaves the values of a field alone unless it is about that field.
Only the copying itself can lose a value.
-/

namespace WeaveGate.Proxy

open Http Settings

/-! ## Names -/

def forwardedNames : List HeaderName := [.xForwardedFor, .xForwardedProto, .xForwardedHost]

/-- The hop-by-hop fields by the names the two lists of the proxy use. -/
def hopByHopNames : List HeaderName :=
  [.connection, .keepAlive, .proxyConnection, .proxyAuthenticate, .proxyAuthorization, .te, .trailer, .trailers,
    .transferEncoding, .upgrade]

def EndToEnd (name : HeaderName) : Prop := name ≠ .host ∧ name ∉ hopByHopNames ∧ name ∉ forwardedNames

instance (name : HeaderName) : Decidable (EndToEnd name) := inferInstanceAs (Decidable (_ ∧ _))

theorem EndToEnd.not_isHopByHopHeader {name : HeaderName} (h : EndToEnd name) : isHopByHopHeader name = false := by
  refine decide_eq_false fun hmem => h.2.1 ?_
  refine (?_ : ∀ n ∈ _, n ∈ hopByHopNames) name hmem
  decide

/-! ## What each step leaves alone -/

theorem getAll_copyForwardableHeaders {name : HeaderName} (h : EndToEnd name) (src dst : HeaderMap) :
    (copyForwardableHeaders src dst).getAll name =
      ((src.getAll name).getLast?.map ([·])).getD (dst.getAll name) := by
  rw [copyForwardableHeaders, Multimap.getAll_insertAll]
  simp [h.not_isHopByHopHeader, h.1]

theorem getAll_copyUpgradeRequestHeaders {name : HeaderName} (h : EndToEnd name) (src dst : HeaderMap) :
    (copyUpgradeRequestHeaders src dst).getAll name =
      ((src.getAll name).getLast?.map ([·])).getD (dst.getAll name) := by
  rw [copyUpgradeRequestHeaders, Multimap.getAll_insertAll]
  simp [h.1]

theorem setUpstreamHost_eq_ok {headers headers' : HeaderMap} {uri : Uri} :
    setUpstreamHost headers uri = .ok headers' ↔
      ∃ host, uri.authority.bind HeaderValue.fromStr = some host ∧ headers' = headers.insert .host host := by
  unfold setUpstreamHost
  split
  · rename_i ha
    simp [ha]
  · rename_i authority ha
    rw [ha, Option.bind_some]
    split <;> rename_i hhost <;> simp [hhost, eq_comm]

theorem getAll_appendForwardedHeaders {β : Type} {headers : HeaderMap} {req : Request β} {remoteIp : Option Str}
    {name : HeaderName} (h : name ∉ forwardedNames) :
    (appendForwardedHeaders headers req remoteIp).getAll name = headers.getAll name := by
  simp only [forwardedNames, List.mem_cons, List.not_mem_nil, or_false, not_or] at h
  obtain ⟨hfor, hproto, hhost⟩ := h
  have hstep : ∀ (m : HeaderMap) (o : Option HeaderValue) (k : HeaderName), name ≠ k →
      (o.elim m fun v => m.insert k v).getAll name = m.getAll name := by
    intro m o k hk
    cases o with
    | none => rfl
    | some v => exact Multimap.getAll_insert_of_ne (Ne.symm hk)
  unfold appendForwardedHeaders
  dsimp only
  rw [hstep _ _ _ hhost, Multimap.getAll_insert_of_ne (Ne.symm hproto)]
  cases remoteIp with
  | none => exact hstep _ _ _ hfor
  | some ip => exact hstep _ _ _ hfor

theorem getAll_removeHopByHopRequestHeaders {name : HeaderName} (h : EndToEnd name) (headers : HeaderMap) :
    (removeHopByHopRequestHeaders headers).getAll name = headers.getAll name := by
  rw [removeHopByHopRequestHeaders, Multimap.getAll_removeAll, if_neg]
  intro hmem
  refine h.2.1 ((?_ : ∀ n ∈ _, n ∈ hopByHopNames) name hmem)
  decide

/-! ## The upstream request -/

variable {β : Type} {parseUri : Str → Option Uri}

theorem upstreamHttpRequest_eq_ok {rule : ProxyRule} {ticket : Nat} {req u : Request β} {remoteIp : Option Str} :
    upstreamHttpRequest parseUri rule ticket req remoteIp = .ok u ↔
      ∃ uri host, upstreamUriForRule parseUri rule ticket req.uri = .ok uri ∧
        uri.authority.bind HeaderValue.fromStr = some host ∧
        u = ⟨req.method, uri, removeHopByHopRequestHeaders (appendForwardedHeaders
          ((copyForwardableHeaders req.headers []).insert .host host) req remoteIp), req.body⟩ := by
  unfold upstreamHttpRequest
  simp only [Checked.bind_eq_ok, Checked.pure_eq_ok, setUpstreamHost_eq_ok]
  constructor
  · rintro ⟨uri, huri, headers, ⟨host, hhost, rfl⟩, rfl⟩
    exact ⟨uri, host, huri, hhost, rfl⟩
  · rintro ⟨uri, host, huri, hhost, rfl⟩
    exact ⟨uri, huri, _, ⟨host, hhost, rfl⟩, rfl⟩

theorem upstreamUpgradeRequest_eq_ok {rule : ProxyRule} {ticket : Nat} {req u : Request β} {remoteIp : Option Str} :
    upstreamUpgradeRequest parseUri rule ticket req remoteIp = .ok u ↔
      ∃ uri host, upstreamUriForRule parseUri rule ticket req.uri = .ok uri ∧
        uri.authority.bind HeaderValue.fromStr = some host ∧
        u = ⟨req.method, uri, appendForwardedHeaders
          ((copyUpgradeRequestHeaders req.headers []).insert .host host) req remoteIp, req.body⟩ := by
  unfold upstreamUpgradeRequest
  simp only [Checked.bind_eq_ok, Checked.pure_eq_ok, setUpstreamHost_eq_ok]
  constructor
  · rintro ⟨uri, huri, headers, ⟨host, hhost, rfl⟩, rfl⟩
    exact ⟨uri, host, huri, hhost, rfl⟩
  · rintro ⟨uri, host, huri, hhost, rfl⟩
    exact ⟨uri, huri, _, ⟨host, hhost, rfl⟩, rfl⟩

/-- A field reaches the upstream with the last of its values only. -/
theorem getAll_upstreamHttpRequest {rule : ProxyRule} {ticket : Nat} {req u : Request β} {remoteIp : Option Str}
    (h : upstreamHttpRequest parseUri rule ticket req remoteIp = .ok u) {name : HeaderName} (hname : EndToEnd name) :
    u.headers.getAll name = (req.headers.getAll name).getLast?.toList := by
  obtain ⟨uri, host, _, _, rfl⟩ := upstreamHttpRequest_eq_ok.mp h
  dsimp only
  rw [getAll_removeHopByHopRequestHeaders hname, getAll_appendForwardedHeaders hname.2.2,
    Multimap.getAll_insert_of_ne (Ne.symm hname.1), getAll_copyForwardableHeaders hname]
  cases (req.headers.getAll name).getLast? <;> rfl

theorem getAll_upstreamUpgradeRequest {rule : ProxyRule} {ticket : Nat} {req u : Request β}
    {remoteIp : Option Str} (h : upstreamUpgradeRequest parseUri rule ticket req remoteIp = .ok u)
    {name : HeaderName} (hname : EndToEnd name) :
    u.headers.getAll name = (req.headers.getAll name).getLast?.toList := by
  obtain ⟨uri, host, _, _, rfl⟩ := upstreamUpgradeRequest_eq_ok.mp h
  dsimp only
  rw [getAll_appendForwardedHeaders hname.2.2, Multimap.getAll_insert_of_ne (Ne.symm hname.1),
    getAll_copyUpgradeRequestHeaders hname]
  cases (req.headers.getAll name).getLast? <;> rfl

/-- At most one request is sent, whatever the client answers. -/
theorem sent_forwardHttp (client : HttpClient β) (rule : ProxyRule) (ticket : Nat) (req : Request β)
    (remoteIp : Option Str) : (forwardHttp parseUri client rule ticket req remoteIp).sent =
      (upstreamHttpRequest parseUri rule ticket req remoteIp).toOption.toList := by
  unfold forwardHttp
  cases upstreamHttpRequest parseUri rule ticket req remoteIp with
  | error e => rfl
  | ok u =>
      dsimp only
      split <;> rfl

theorem sent_forwardUpgradeInner (empty : β) (client : HttpClient β) (rule : ProxyRule) (ticket : Nat)
    (req : Request β) (remoteIp : Option Str) :
    (forwardUpgradeInner parseUri empty client rule ticket req remoteIp).sent =
      (upstreamUpgradeRequest parseUri rule ticket req remoteIp).toOption.toList := by
  unfold forwardUpgradeInner
  cases upstreamUpgradeRequest parseUri rule ticket req remoteIp with
  | error e => rfl
  | ok u =>
      dsimp only
      split
      · rfl
      · split <;> rfl

theorem mem_sent_forwardHttp {client : HttpClient β} {rule : ProxyRule} {ticket : Nat} {req u : Request β}
    {remoteIp : Option Str} (h : u ∈ (forwardHttp parseUri client rule ticket req remoteIp).sent) :
    upstreamHttpRequest parseUri rule ticket req remoteIp = .ok u := by
  rw [sent_forwardHttp, Option.mem_toList] at h
  exact Checked.toOption_eq_some.mp h

theorem mem_sent_forwardUpgradeInner {empty : β} {client : HttpClient β} {rule : ProxyRule} {ticket : Nat}
    {req u : Request β} {remoteIp : Option Str}
    (h : u ∈ (forwardUpgradeInner parseUri empty client rule ticket req remoteIp).sent) :
    upstreamUpgradeRequest parseUri rule ticket req remoteIp = .ok u := by
  rw [sent_forwardUpgradeInner, Option.mem_toList] at h
  exact Checked.toOption_eq_some.mp h

theorem getLast?_toList_eq_iff {α : Type} {l : List α} : l.getLast?.toList = l ↔ l.length ≤ 1 := by
  match l with
  | [] => simp
  | [a] => simp
  | a :: b :: l =>
      simp only [List.length_cons]
      refine iff_of_false (fun h => ?_) (by omega)
      have := congrArg List.length h
      cases hl : (a :: b :: l).getLast? <;> simp [hl] at this

end WeaveGate.Proxy
