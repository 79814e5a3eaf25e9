import WeaveGate.Proxy.Theorems

/-!
# Who asks, and for which host

The `X-Forwarded-For` and `X-Forwarded-Host` fields of the upstream request.
-/

namespace WeaveGate.Proxy

open Http Settings

variable {parseUri : Str → Option Uri} {β : Type}

/-- The host that the client asks for. -/
def effectiveHost (req : Request β) : Option HeaderValue :=
  match req.uri.authority with
  | some authority => some (Posix.utf8 authority)
  | none => req.headers.get? .host

/-- Requests that differ in the two fields only. -/
structure DifferInForwarded (req req' : Request β) : Prop where
  method : req'.method = req.method
  uri : req'.uri = req.uri
  body : req'.body = req.body
  fields : ∀ name, name ≠ .xForwardedFor → name ≠ .xForwardedHost →
    req'.headers.getAll name = req.headers.getAll name

structure SameMessage (u u' : Request β) : Prop where
  method : u'.method = u.method
  uri : u'.uri = u.uri
  body : u'.body = u.body
  fields : ∀ name, u'.headers.getAll name = u.headers.getAll name

/-- The upstream learns the address of the client and the host it asked for, each once and not from the client's
own copies of the two fields. `send` gives the requests that are sent for a request. -/
structure TellsClient (send : Request β → List (Request β)) (ip : Str) (req u : Request β) : Prop where
  forwardedFor : u.headers.getAll .xForwardedFor = [Posix.utf8 ip]
  forwardedHost : ∃ host, effectiveHost req = some host ∧ u.headers.getAll .xForwardedHost = [host]
  independent : ∀ req', DifferInForwarded req req' → ∃ u', send req' = [u'] ∧ SameMessage u u'

/-- The `Host` field is there and names the host that the client asks for. -/
def HostFieldAgrees (req : Request β) : Prop :=
  ∃ host, effectiveHost req = some host ∧ req.headers.get? .host = some host

/-- The characters that addresses are written with. -/
def isIpChar (c : Char) : Bool := c ∈ "0123456789abcdef.:".toList

theorem fromStr_of_isIpChar {ip : Str} (h : ip.all isIpChar = true) :
    HeaderValue.fromStr ip = some (Posix.utf8 ip) := by
  have hlegal : ("0123456789abcdef.:".toList.all fun c => (String.utf8EncodeChar c).all fun b =>
      (32 ≤ b && b ≠ 127) || b = 9) = true := by decide
  unfold HeaderValue.fromStr HeaderValue.fromOctets
  rw [if_pos]
  refine List.all_eq_true.mpr fun b hb => ?_
  obtain ⟨c, hc, hb⟩ := List.mem_flatMap.mp hb
  exact List.all_eq_true.mp (List.all_eq_true.mp hlegal c (of_decide_eq_true (List.all_eq_true.mp h c hc))) b hb

/-! ## The fields of the upstream request -/

theorem getAll_appendForwardedHeaders_xForwardedFor {headers : HeaderMap} {req : Request β} {ip : Str}
    (hip : ip.all isIpChar = true) :
    (appendForwardedHeaders headers req (some ip)).getAll .xForwardedFor = [Posix.utf8 ip] := by
  unfold appendForwardedHeaders
  dsimp only
  rw [fromStr_of_isIpChar hip, Option.elim_some]
  cases req.headers.get? .host with
  | none => rw [Option.elim_none, Multimap.getAll_insert_of_ne (by decide), Multimap.getAll_insert_self]
  | some host =>
      rw [Option.elim_some, Multimap.getAll_insert_of_ne (by decide), Multimap.getAll_insert_of_ne (by decide),
        Multimap.getAll_insert_self]

theorem getAll_appendForwardedHeaders_xForwardedHost {headers : HeaderMap} {req : Request β} {ip : Str}
    (hip : ip.all isIpChar = true) :
    (appendForwardedHeaders headers req (some ip)).getAll .xForwardedHost =
      (req.headers.get? .host).elim (headers.getAll .xForwardedHost) ([·]) := by
  unfold appendForwardedHeaders
  dsimp only
  rw [fromStr_of_isIpChar hip, Option.elim_some]
  cases req.headers.get? .host with
  | none =>
      rw [Option.elim_none, Multimap.getAll_insert_of_ne (by decide), Multimap.getAll_insert_of_ne (by decide)]
      rfl
  | some host => exact Multimap.getAll_insert_self _ _ _

theorem getAll_insert_congr {m m' : HeaderMap} {k name : HeaderName} (v : HeaderValue)
    (h : name ≠ k → m'.getAll name = m.getAll name) : (m'.insert k v).getAll name = (m.insert k v).getAll name := by
  rw [Multimap.getAll_insert, Multimap.getAll_insert]
  split
  · rfl
  · exact h (Ne.symm ‹_›)

theorem DifferInForwarded.get?_eq {req req' : Request β} (h : DifferInForwarded req req') {name : HeaderName}
    (hfor : name ≠ .xForwardedFor) (hhost : name ≠ .xForwardedHost) :
    req'.headers.get? name = req.headers.get? name := by
  rw [Multimap.get?, Multimap.get?, h.fields name hfor hhost]

/-- Without the client's own copies of the two fields, nothing else of the header differs. -/
theorem DifferInForwarded.append {req req' : Request β} (h : DifferInForwarded req req') {host : HeaderValue}
    (hhost : req.headers.get? .host = some host) {headers headers' : HeaderMap} {ip : Str}
    (hip : ip.all isIpChar = true)
    (hheaders : ∀ name, name ≠ .xForwardedFor → name ≠ .xForwardedHost → headers'.getAll name = headers.getAll name)
    (name : HeaderName) :
    (appendForwardedHeaders headers' req' (some ip)).getAll name =
      (appendForwardedHeaders headers req (some ip)).getAll name := by
  unfold appendForwardedHeaders
  dsimp only
  rw [fromStr_of_isIpChar hip, Option.elim_some, Option.elim_some, h.get?_eq (by decide) (by decide),
    h.get?_eq (by decide) (by decide), h.uri, hhost, Option.elim_some, Option.elim_some]
  refine getAll_insert_congr _ fun hxhost => getAll_insert_congr _ fun _ => getAll_insert_congr _ fun hxfor => ?_
  exact hheaders name hxfor hxhost

theorem DifferInForwarded.insertAll {req req' : Request β} (h : DifferInForwarded req req') (p : HeaderName → Bool)
    (host : HeaderValue) (name : HeaderName) (hfor : name ≠ .xForwardedFor) (hhost : name ≠ .xForwardedHost) :
    ((Multimap.insertAll p req'.headers []).insert .host host).getAll name =
      ((Multimap.insertAll p req.headers []).insert .host host).getAll name := by
  refine getAll_insert_congr _ fun _ => ?_
  rw [Multimap.getAll_insertAll, Multimap.getAll_insertAll, h.fields name hfor hhost]

/-! ## Both paths -/

/-- A path copies the fields that `keep` lets through, adds those of the proxy, and takes some off at the end. -/
structure BuildsRequest (send : Request β → List (Request β)) (ip : Str) (route : Uri → Except Error Uri)
    (keep : HeaderName → Bool) (finish : HeaderMap → HeaderMap) : Prop where
  sent : ∀ req u, send req = [u] ↔ ∃ uri host, route req.uri = .ok uri ∧
    uri.authority.bind HeaderValue.fromStr = some host ∧
    u = ⟨req.method, uri, finish (appendForwardedHeaders
      ((Multimap.insertAll keep req.headers []).insert .host host) req (some ip)), req.body⟩
  finish_xForwardedFor : ∀ m : HeaderMap, (finish m).getAll .xForwardedFor = m.getAll .xForwardedFor
  finish_xForwardedHost : ∀ m : HeaderMap, (finish m).getAll .xForwardedHost = m.getAll .xForwardedHost
  finish_congr : ∀ m m' : HeaderMap, (∀ name, m'.getAll name = m.getAll name) →
    ∀ name, (finish m').getAll name = (finish m).getAll name

theorem BuildsRequest.tellsClient {send : Request β → List (Request β)} {ip : Str} {route : Uri → Except Error Uri}
    {keep : HeaderName → Bool} {finish : HeaderMap → HeaderMap} (hb : BuildsRequest send ip route keep finish)
    (hip : ip.all isIpChar = true) {req u : Request β} (hu : send req = [u]) (hhost : HostFieldAgrees req) :
    TellsClient send ip req u := by
  obtain ⟨host, heffective, hfield⟩ := hhost
  obtain ⟨uri, upstream, huri, hupstream, rfl⟩ := (hb.sent req u).mp hu
  refine ⟨?_, ⟨host, heffective, ?_⟩, fun req' hdiff => ?_⟩
  · rw [hb.finish_xForwardedFor, getAll_appendForwardedHeaders_xForwardedFor hip]
  · rw [hb.finish_xForwardedHost, getAll_appendForwardedHeaders_xForwardedHost hip, hfield]
    rfl
  · refine ⟨_, (hb.sent req' _).mpr ⟨uri, upstream, hdiff.uri ▸ huri, hupstream, rfl⟩, hdiff.method, rfl,
      hdiff.body, hb.finish_congr _ _ fun name => ?_⟩
    exact hdiff.append hfield hip (hdiff.insertAll keep upstream) name

theorem differInForwarded_remove (req : Request β) :
    DifferInForwarded req { req with headers := req.headers.remove .xForwardedHost } := by
  refine ⟨rfl, rfl, rfl, fun name _ hname => ?_⟩
  rw [Multimap.getAll_remove, if_neg (Ne.symm hname)]

/-- Without a `Host` field the client's own copy of the other field decides what the upstream is told. -/
theorem BuildsRequest.hostFieldAgrees {send : Request β → List (Request β)} {ip : Str}
    {route : Uri → Except Error Uri} {keep : HeaderName → Bool} {finish : HeaderMap → HeaderMap}
    (hb : BuildsRequest send ip route keep finish) (hip : ip.all isIpChar = true) {req u : Request β}
    (hu : send req = [u]) (htells : TellsClient send ip req u) : HostFieldAgrees req := by
  obtain ⟨host, heffective, htold⟩ := htells.forwardedHost
  refine ⟨host, heffective, ?_⟩
  have hfield : ∀ req u, send req = [u] → req.headers.get? .host = none → u.headers.getAll .xForwardedHost =
      (if keep .xForwardedHost then ((req.headers.getAll .xForwardedHost).getLast?.map ([·])).getD [] else []) := by
    intro req u hu hnone
    obtain ⟨uri, upstream, _, _, rfl⟩ := (hb.sent req u).mp hu
    rw [hb.finish_xForwardedHost, getAll_appendForwardedHeaders_xForwardedHost hip, hnone, Option.elim_none,
      Multimap.getAll_insert_of_ne (by decide), Multimap.getAll_insertAll]
    rfl
  cases hget : req.headers.get? .host with
  | none =>
      obtain ⟨u', hu', hsame⟩ := htells.independent _ (differInForwarded_remove req)
      have hnone : (Multimap.remove req.headers .xForwardedHost).get? .host = none := by
        rw [Multimap.get?_remove, if_neg (by decide), hget]
      have hlines := hfield _ u' hu' hnone
      rw [hsame.fields, htold, Multimap.getAll_remove, if_pos rfl] at hlines
      simp at hlines
  | some v =>
      obtain ⟨uri, upstream, _, _, rfl⟩ := (hb.sent req u).mp hu
      rw [hb.finish_xForwardedHost, getAll_appendForwardedHeaders_xForwardedHost hip, hget] at htold
      simpa using htold

theorem getAll_removeHopByHop_forwarded (m : HeaderMap) {name : HeaderName}
    (h : name = .xForwardedFor ∨ name = .xForwardedHost) :
    (removeHopByHopRequestHeaders m).getAll name = m.getAll name := by
  rw [removeHopByHopRequestHeaders, Multimap.getAll_removeAll, if_neg]
  rcases h with rfl | rfl <;> decide

theorem toList_toOption_eq_singleton {ε α : Type} {x : Except ε α} {a : α} : x.toOption.toList = [a] ↔ x = .ok a := by
  cases x <;> simp [Except.toOption]

theorem buildsRequest_forwardHttp (parseUri : Str → Option Uri) (client : HttpClient β) (rule : ProxyRule) (ticket : Nat) (ip : Str) :
    BuildsRequest (fun req => (forwardHttp parseUri client rule ticket req (some ip)).sent) ip
      (upstreamUriForRule parseUri rule ticket) (fun name => !(isHopByHopHeader name || name = .host))
      removeHopByHopRequestHeaders where
  sent := fun req u => by
    rw [sent_forwardHttp, toList_toOption_eq_singleton]
    exact upstreamHttpRequest_eq_ok
  finish_xForwardedFor := fun m => getAll_removeHopByHop_forwarded m (.inl rfl)
  finish_xForwardedHost := fun m => getAll_removeHopByHop_forwarded m (.inr rfl)
  finish_congr := fun m m' hsame name => by
    rw [removeHopByHopRequestHeaders, removeHopByHopRequestHeaders, Multimap.getAll_removeAll,
      Multimap.getAll_removeAll, hsame]

theorem buildsRequest_forwardUpgradeInner (parseUri : Str → Option Uri) (empty : β) (client : HttpClient β)
    (rule : ProxyRule) (ticket : Nat) (ip : Str) :
    BuildsRequest (fun req => (forwardUpgradeInner parseUri empty client rule ticket req (some ip)).sent) ip
      (upstreamUriForRule parseUri rule ticket) (fun name => name ≠ .host) id where
  sent := fun req u => by
    rw [sent_forwardUpgradeInner, toList_toOption_eq_singleton]
    exact upstreamUpgradeRequest_eq_ok
  finish_xForwardedFor := fun _ => rfl
  finish_xForwardedHost := fun _ => rfl
  finish_congr := fun _ _ hsame => hsame

theorem tellsClient_iff (empty : β) (client : HttpClient β) (rule : ProxyRule) (ticket : Nat) {ip : Str}
    (hip : ip.all isIpChar = true) (req u : Request β) :
    ((forwardHttp parseUri client rule ticket req (some ip)).sent = [u] →
      (TellsClient (fun req => (forwardHttp parseUri client rule ticket req (some ip)).sent) ip req u ↔
        HostFieldAgrees req)) ∧
    ((forwardUpgradeInner parseUri empty client rule ticket req (some ip)).sent = [u] →
      (TellsClient (fun req => (forwardUpgradeInner parseUri empty client rule ticket req (some ip)).sent) ip req u ↔
        HostFieldAgrees req)) := by
  have hplain := buildsRequest_forwardHttp parseUri client rule ticket ip
  have hupgrade := buildsRequest_forwardUpgradeInner parseUri empty client rule ticket ip
  exact ⟨fun hu => ⟨hplain.hostFieldAgrees hip hu, hplain.tellsClient hip hu⟩,
    fun hu => ⟨hupgrade.hostFieldAgrees hip hu, hupgrade.tellsClient hip hu⟩⟩

/-- A request over HTTP/2 without a `Host` field. -/
def spoofing : Request Posix.Octets :=
  getRequest [(.xForwardedHost, HeaderValue.fromStatic "admin")] "/".toList none PathAndQuery.legal_root
    PathAndQuery.legal_none

def peer : Str := "10.0.0.1".toList

def plainSends (req : Request Posix.Octets) : List (Request Posix.Octets) :=
  (forwardHttp parseHttpUri okClient sampleRule 0 req (some peer)).sent

def upgradeSends (req : Request Posix.Octets) : List (Request Posix.Octets) :=
  (forwardUpgradeInner parseHttpUri [] okClient sampleRule 0 req (some peer)).sent

theorem not_tellsClient_of_admin {send : Request Posix.Octets → List (Request Posix.Octets)} {ip : Str}
    {u : Request Posix.Octets} (hu : send spoofing = [u])
    (hadmin : (send spoofing).all (fun u => u.headers.getAll .xForwardedHost = [HeaderValue.fromStatic "admin"]) =
      true) : ¬ TellsClient send ip spoofing u := by
  rw [hu, List.all_cons, List.all_nil, Bool.and_true, decide_eq_true_eq] at hadmin
  intro h
  obtain ⟨host, heffective, hhost⟩ := h.forwardedHost
  cases heffective
  rw [hadmin] at hhost
  exact absurd hhost (by decide)

/-- The upstream is told the host that the client made up. -/
theorem hands_on_spoofed_host :
    (∃ u, plainSends spoofing = [u] ∧ ¬ TellsClient plainSends peer spoofing u) ∧
    ∃ u, upgradeSends spoofing = [u] ∧ ¬ TellsClient upgradeSends peer spoofing u := by
  have hplain : (plainSends spoofing).length = 1 := by decide
  have hupgrade : (upgradeSends spoofing).length = 1 := by decide
  obtain ⟨u, hu⟩ := List.length_eq_one_iff.mp hplain
  obtain ⟨v, hv⟩ := List.length_eq_one_iff.mp hupgrade
  exact ⟨⟨u, hu, not_tellsClient_of_admin hu (by decide)⟩, v, hv, not_tellsClient_of_admin hv (by decide)⟩

def withHost : Request Posix.Octets :=
  getRequest [(.host, HeaderValue.fromStatic "gate"), (.xForwardedHost, HeaderValue.fromStatic "admin")] "/".toList
    none PathAndQuery.legal_root PathAndQuery.legal_none

theorem tellsClient_iff_withHost :
    ∃ u, plainSends withHost = [u] ∧ (TellsClient plainSends peer withHost u ↔ HostFieldAgrees withHost) := by
  have hlen : (plainSends withHost).length = 1 := by decide
  obtain ⟨u, hu⟩ := List.length_eq_one_iff.mp hlen
  exact ⟨u, hu, (tellsClient_iff [] okClient sampleRule 0 (by decide) withHost u).1 hu⟩

end WeaveGate.Proxy
