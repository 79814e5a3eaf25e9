import WeaveGate.Handler.Lemmas.Auth
import WeaveGate.Handler.Theorems.Vary

/-!
# CORS

Which requests get through the check, what an answer says about the origin, and that the check at the end agrees with
the one at the beginning.
-/

namespace WeaveGate.Handler

open Http Settings
open Static (Body)

variable {crates : Crates} {w : World} {opts : RequestHandlerOpts} {remoteIp : Option Str} {req : Request Body}
  {cors : Configured} {origin : HeaderValue}

/-! ## Allowed requests -/

/-- An empty origin is in no set. -/
def OriginAllowed (cors : Cors) (origin : HeaderValue) : Prop :=
  origin ≠ [] ∧ ∀ set, cors.origins = some set → origin ∈ set

/-- Names in any case. -/
def NameAllowed (cors : Cors) (name : Str) : Prop := ∃ allowed ∈ cors.allowedHeaders, HeaderName.fromStr name = some allowed

structure PreflightAllowed (cors : Cors) (origin : HeaderValue) (headers : HeaderMap) : Prop where
  origin : OriginAllowed cors origin
  method : ∃ line method, headers.get? .accessControlRequestMethod = some line ∧
    (HeaderValue.toStr line).bind Method.fromStr = some method ∧ method ∈ cors.allowedMethods
  names : ∀ line ∈ headers.getAll .accessControlRequestHeaders, ∃ text, HeaderValue.toStr line = some text ∧
    ∀ element ∈ text.splitOn ',', NameAllowed cors (Text.trim element)

def allowOrigin (resp : Response Body) : List HeaderValue := resp.headers.getAll .accessControlAllowOrigin

/-- The options without custom header fields. -/
def withoutCustom (opts : RequestHandlerOpts) : RequestHandlerOpts :=
  { opts with advancedOpts := opts.advancedOpts.map fun adv => { adv with headers := none } }

/-- The stages before the check let the request through. -/
structure ReachesCheck (w : World) (opts : RequestHandlerOpts) (req : Request Body) : Prop where
  allowed : Static.isAllowed req.method = true
  health : healthPreProcess opts req = none
  metrics : metricsPreProcess w opts req = none

/-- No answer, except a switch of protocols that an upstream has sent, allows another origin than that of the request. -/
def AllowsOnly (origin : HeaderValue) (outcome : Outcome) : Prop :=
  ∀ resp, outcome.result = .ok resp → allowOrigin resp = [] ∨ allowOrigin resp = [origin] ∨
    (outcome.sent ≠ [] ∧ resp.status = .switchingProtocols)

structure GuardsOrigin (crates : Crates) (w : World) (opts : RequestHandlerOpts) (remoteIp : Option Str)
    (cors : Cors) (origin : HeaderValue) (req : Request Body) : Prop where
  refused : ReachesCheck w opts req → ¬ OriginAllowed cors origin →
    (∃ resp, handle crates w opts remoteIp req = .answer resp ∧ resp.status = .forbidden ∧ allowOrigin resp = []) ∧
    ∀ w', World.SamePages opts w w' → handle crates w' opts remoteIp req = handle crates w opts remoteIp req
  single : AllowsOnly origin (handle crates w (withoutCustom opts) remoteIp req)
  preflight : req.method = .options → ReachesCheck w opts req ∧
    ((req.headers.getAll .accessControlRequestHeaders).length ≤ 1 →
      (corsPreProcess w opts req = none ↔ PreflightAllowed cors origin req.headers))
  agrees : ∀ req', req' = req ∨ req' = (rewritesPreProcess crates w opts req).2 →
    (corsAdds opts req' = true ↔ corsPreProcess w opts req = none)

/-! ## The check -/

def Configured.Passes (self : Configured) (method : Method) (headers : HeaderMap) (origin : HeaderValue) : Prop :=
  self.isOriginAllowed origin = true ∧ (method = .options →
    (headers.get? .accessControlRequestMethod).any self.isMethodAllowed = true ∧ self.requestHeadersAllowed headers = true)

theorem Configured.checkRequest_cases (cors : Configured) {headers : HeaderMap} (method : Method)
    (h : headers.get? .origin = some origin) :
    (cors.Passes method headers origin ∧
      ∃ validated, cors.checkRequest method headers = .ok (cors.corsHeaders origin, validated)) ∨
    (¬ cors.Passes method headers origin ∧ ∃ e, cors.checkRequest method headers = .error e) := by
  unfold checkRequest Passes
  rw [h]
  cases hallowed : cors.isOriginAllowed origin with
  | false => exact .inr ⟨by simp, .origin, by simp [hallowed]⟩
  | true =>
      by_cases hmethod : method = .options
      · cases hrequested : headers.get? .accessControlRequestMethod with
        | none => exact .inr ⟨by simp [hmethod], .method, by simp [hallowed, hmethod]⟩
        | some line =>
            cases hline : cors.isMethodAllowed line with
            | false => exact .inr ⟨by simp [hmethod, hline], .method, by simp [hallowed, hmethod, hline]⟩
            | true =>
                cases hnames : cors.requestHeadersAllowed headers with
                | false => exact .inr ⟨by simp [hmethod], .header, by simp [hallowed, hmethod, hline]⟩
                | true => exact .inl ⟨by simp [hline], .preflight origin, by simp [hallowed, hmethod, hline]⟩
      · exact .inl ⟨⟨rfl, fun h => absurd h hmethod⟩, .simple origin, by simp [hallowed, hmethod]⟩

theorem corsPreProcess_eq_none_iff (hcors : opts.cors = some cors) (horigin : req.headers.get? .origin = some origin) :
    corsPreProcess w opts req = none ↔ cors.Passes req.method req.headers origin := by
  unfold corsPreProcess
  rw [hcors, Option.bind_some]
  rcases cors.checkRequest_cases req.method horigin with ⟨hpasses, validated, hcheck⟩ | ⟨hfails, e, hcheck⟩
  · simp [hcheck, hpasses]
  · simp [hcheck, hfails]

theorem Configured.corsHeaders_allowOrigin (self : Configured) (origin : HeaderValue) :
    (self.corsHeaders origin).getAll .accessControlAllowOrigin = [origin] := Multimap.getAll_insert_self _ _ _

theorem corsAdds_iff (hcors : opts.cors = some cors) (horigin : req.headers.get? .origin = some origin) :
    corsAdds opts req = true ↔ cors.Passes req.method req.headers origin := by
  have hfields : cors.corsHeaders origin ≠ [] := fun h => by
    have hlines := cors.corsHeaders_allowOrigin origin
    rw [h] at hlines
    cases hlines
  unfold corsAdds
  rw [hcors, Option.any_some]
  rcases cors.checkRequest_cases req.method horigin with ⟨hpasses, validated, hcheck⟩ | ⟨hfails, e, hcheck⟩
  · simp [hcheck, hpasses, hfields]
  · simp [hcheck, hfails]

theorem isOriginAllowed_iff : cors.isOriginAllowed origin = true ↔ OriginAllowed cors.cors origin := by
  unfold Configured.isOriginAllowed OriginAllowed
  cases cors.cors.origins with
  | none => simp
  | some set => simp

theorem isHeaderAllowed_iff (name : Str) : cors.isHeaderAllowed name = true ↔ NameAllowed cors.cors name := by
  unfold Configured.isHeaderAllowed NameAllowed
  cases hname : HeaderName.fromStr name with
  | none => simp
  | some allowed =>
      have hne : name ≠ [] := by
        rintro rfl
        cases hname
      simp [hne]

/-- The check of one line of names is the one that is asked for. -/
theorem passes_iff_preflightAllowed {headers : HeaderMap}
    (hone : (headers.getAll .accessControlRequestHeaders).length ≤ 1) :
    cors.Passes .options headers origin ↔ PreflightAllowed cors.cors origin headers := by
  have hnames : cors.requestHeadersAllowed headers = true ↔ ∀ line ∈ headers.getAll .accessControlRequestHeaders,
      ∃ text, HeaderValue.toStr line = some text ∧ ∀ element ∈ text.splitOn ',', NameAllowed cors.cors (Text.trim element) := by
    unfold Configured.requestHeadersAllowed Multimap.get?
    match hlines : headers.getAll .accessControlRequestHeaders, hone with
    | [], _ => simp
    | [line], _ => simp [Option.any_eq_true, isHeaderAllowed_iff]
  have hmethod : (headers.get? .accessControlRequestMethod).any cors.isMethodAllowed = true ↔ ∃ line method,
      headers.get? .accessControlRequestMethod = some line ∧ (HeaderValue.toStr line).bind Method.fromStr = some method ∧
        method ∈ cors.cors.allowedMethods := by
    simp only [Configured.isMethodAllowed, Option.any_eq_true, decide_eq_true_eq]
    constructor
    · rintro ⟨line, hline, method, hmethod⟩
      exact ⟨line, method, hline, hmethod⟩
    · rintro ⟨line, method, hline, hmethod⟩
      exact ⟨line, hline, method, hmethod⟩
  unfold Configured.Passes
  rw [isOriginAllowed_iff, hnames, hmethod]
  constructor
  · rintro ⟨horigin, hrest⟩
    exact ⟨horigin, (hrest rfl).1, (hrest rfl).2⟩
  · rintro ⟨horigin, hmethod, hnames⟩
    exact ⟨horigin, fun _ => ⟨hmethod, hnames⟩⟩

/-! ## Requests that a rewrite changes -/

/-- The check reads the method and three header fields, none of them `Host`. -/
theorem checkRequest_congr {headers headers' : HeaderMap} (method : Method)
    (h : ∀ name, name ≠ HeaderName.host → headers'.getAll name = headers.getAll name) :
    cors.checkRequest method headers' = cors.checkRequest method headers := by
  have hget : ∀ name, name ≠ HeaderName.host → headers'.get? name = headers.get? name := fun name hname =>
    congrArg List.head? (h name hname)
  unfold Configured.checkRequest Configured.requestHeadersAllowed
  rw [hget _ (by decide), hget _ (by decide), hget _ (by decide)]

theorem corsAdds_rewritten : corsAdds opts (rewritesPreProcess crates w opts req).2 = corsAdds opts req := by
  unfold corsAdds
  rw [rewritesPreProcess_method]
  congr 1
  funext cors
  rw [checkRequest_congr _ fun name hname => rewritesPreProcess_headers hname]

/-! ## Answers without the field -/

def Unmarked (resp : Response Body) : Prop := allowOrigin resp = []

theorem unmarked_insertHeader {resp : Response Body} {name : HeaderName} (value : HeaderValue)
    (h : name ≠ HeaderName.accessControlAllowOrigin) (hresp : Unmarked resp) : Unmarked (resp.insertHeader name value) :=
  (Multimap.getAll_insert_of_ne h).trans hresp

theorem htmlResponse_unmarked (method : Method) (status : StatusCode) (content : Str) :
    Unmarked (htmlResponse method status content) :=
  unmarked_insertHeader _ (by decide) (unmarked_insertHeader _ (by decide) (unmarked_insertHeader _ (by decide) rfl))

theorem errorPage_unmarked (w : World) (opts : RequestHandlerOpts) (req : Request Body) (status : StatusCode) :
    Unmarked (errorPage w opts req status) := htmlResponse_unmarked _ _ _

theorem redirectResponse_unmarked {dest : Str} {status : StatusCode} {resp : Response Body}
    (h : redirectResponse w opts req dest status = some resp) : Unmarked resp := by
  unfold redirectResponse at h
  split at h
  · cases h
    exact errorPage_unmarked w opts req _
  · cases h
    exact unmarked_insertHeader _ (by decide) rfl

theorem redirectsPreProcess_unmarked {resp : Response Body} (h : redirectsPreProcess crates w opts req = some resp) :
    Unmarked resp := by
  obtain ⟨redirects, _, h⟩ := Option.bind_eq_some_iff.mp h
  obtain ⟨matched, _, h⟩ := Option.bind_eq_some_iff.mp h
  split at h
  · cases h
    exact errorPage_unmarked w opts req _
  · exact redirectResponse_unmarked h

theorem rewritesPreProcess_unmarked {resp : Response Body} (h : (rewritesPreProcess crates w opts req).1 = some resp) :
    Unmarked resp := by
  unfold rewritesPreProcess at h
  split at h
  · cases h
  · split at h
    · cases h
    · split at h
      · cases h
        exact errorPage_unmarked w opts req _
      · split at h
        · exact redirectResponse_unmarked h
        · split at h
          · cases h
            exact errorPage_unmarked w opts req _
          · cases h

theorem healthPreProcess_unmarked {resp : Response Body} (h : healthPreProcess opts req = some resp) : Unmarked resp := by
  unfold healthPreProcess at h
  split at h
  · cases h
  · split at h
    · cases h
    · dsimp only at h
      split at h
      · cases h
        exact unmarked_insertHeader _ (by decide) rfl
      · cases h
        exact unmarked_insertHeader _ (by decide) rfl
      · cases h

theorem metricsPreProcess_unmarked {resp : Response Body} (h : metricsPreProcess w opts req = some resp) :
    Unmarked resp := by
  unfold metricsPreProcess at h
  split at h
  · cases h
  · split at h
    · cases h
    · split at h
      · cases h
      · cases h
        exact unmarked_insertHeader _ (by decide) rfl

theorem corsPreProcess_unmarked {resp : Response Body} (h : corsPreProcess w opts req = some resp) : Unmarked resp := by
  obtain ⟨cors, _, h⟩ := Option.bind_eq_some_iff.mp h
  split at h
  · cases h
  · cases h
    exact errorPage_unmarked w opts req _

theorem basicAuthPreProcess_unmarked {resp : Response Body} (h : basicAuthPreProcess crates w opts req = some resp) :
    Unmarked resp := by
  unfold basicAuthPreProcess at h
  split at h
  · cases h
  · split at h
    · cases h
    · split at h
      · cases h
        exact errorPage_unmarked w opts req _
      · split at h
        · cases h
        · cases h
          exact unmarked_insertHeader _ (by decide) (errorPage_unmarked w opts req _)

theorem maintenancePreProcess_unmarked {resp : Response Body} (h : maintenancePreProcess w opts req = some resp) :
    Unmarked resp := by
  unfold maintenancePreProcess at h
  split at h
  · cases h
    exact htmlResponse_unmarked _ _ _
  · cases h

theorem earlyStages_unmarked {resp : Response Body} (h : (earlyStages crates w opts req).findSome? id = some resp) :
    Unmarked resp := by
  obtain ⟨answer, hmem, h⟩ := List.exists_of_findSome?_eq_some h
  simp only [id] at h
  subst h
  simp only [earlyStages, List.mem_cons, List.not_mem_nil, or_false] at hmem
  rcases hmem with h | h | h | h | h
  · exact healthPreProcess_unmarked h.symm
  · exact metricsPreProcess_unmarked h.symm
  · exact corsPreProcess_unmarked h.symm
  · exact basicAuthPreProcess_unmarked h.symm
  · exact maintenancePreProcess_unmarked h.symm

/-! ## Marked answers -/

theorem corsPostProcess_allowOrigin (hcors : opts.cors = some cors) (horigin : req.headers.get? .origin = some origin)
    (hpasses : cors.Passes req.method req.headers origin) (resp : Response Body) :
    allowOrigin (corsPostProcess opts req resp) = [origin] := by
  rcases cors.checkRequest_cases req.method horigin with ⟨_, validated, hcheck⟩ | ⟨hfails, _⟩
  · have hlines := cors.corsHeaders_allowOrigin origin
    have hne : cors.corsHeaders origin ≠ [] := fun h => by
      rw [h] at hlines
      cases hlines
    have hvary : HeaderName.vary ≠ HeaderName.accessControlAllowOrigin := by decide
    have hallow : HeaderName.allow ≠ HeaderName.accessControlAllowOrigin := by decide
    simp only [corsPostProcess, hcors, hcheck, hne, if_false, allowOrigin, Response.removeHeader,
      Multimap.getAll_remove, hallow, Response.insertHeader_getAll, hvary, foldl_insertHeader_getAll, hlines]
    rfl
  · exact absurd hpasses hfails

theorem compressionPostProcess_field (req : Request Body) (resp : Response Body) {name : HeaderName}
    (h : name ∉ [HeaderName.vary, .contentEncoding, .contentLength]) :
    SameField name resp (compressionPostProcess crates opts req resp) := by
  simp only [List.mem_cons, List.not_mem_nil, or_false, not_or] at h
  unfold compressionPostProcess
  split
  · rfl
  · split
    · rfl
    · exact (auto_field h.2.1 h.2.2 _ _ _ _).trans (sameField_insertHeader resp _ (Ne.symm h.1))

theorem postProcess_allowOrigin (hcors : opts.cors = some cors) (horigin : req.headers.get? .origin = some origin)
    (hpasses : cors.Passes req.method req.headers origin) (hcustom : opts.advancedOpts.bind (·.headers) = none)
    (isMarkdown : Bool) (filePath : Option Posix.Path) (resp : Response Body) :
    allowOrigin (postProcess crates opts req isMarkdown filePath resp) = [origin] := by
  have hlast : ∀ resp, customHeadersPostProcess crates opts req resp filePath = resp := by
    intro resp
    unfold customHeadersPostProcess
    rw [hcustom]
  rw [← corsPostProcess_allowOrigin hcors horigin hpasses (fallbackPostProcess opts req resp), postProcess_eq,
    afterCompression, hlast]
  exact ((securityHeadersPostProcess_changes opts _).kept _ (by decide)).trans <|
    ((controlHeadersPostProcess_changes opts req _).kept _ (by decide)).trans <|
    (compressionPostProcess_field req _ (by decide)).trans <|
    ((compressionStaticPostProcess_changes opts _).kept _ (by decide)).trans <|
    ((textCharsetPostProcess_changes crates opts _).kept _ (by decide)).trans <|
    (markdownPostProcess_changes isMarkdown opts _).kept _ (by decide)

/-- An upstream was asked for what is relayed. -/
theorem preProcess_sent {parseUri : Str → Option Uri} {globs : GlobSet} {proxies : Option (List ProxyRule)}
    {client : Option (Proxy.HttpClient Body)} {permits : Option Nat} {ticket : Nat} {exchange : Proxy.Exchange Body}
    {resp : Response Body}
    (h : Proxy.preProcess parseUri globs .empty proxies client permits ticket req remoteIp = some exchange)
    (hresp : exchange.result = .ok resp) (hstatus : resp.status = .switchingProtocols) : exchange.sent ≠ [] := by
  obtain ⟨rule, hrule, h⟩ := Option.bind_eq_some_iff.mp h
  obtain ⟨client, _, h⟩ := Option.bind_eq_some_iff.mp h
  split at h
  · cases h
    unfold Proxy.forwardUpgrade Proxy.forwardUpgradeInner at hresp ⊢
    by_cases hfree : permits = some 0
    · rw [if_pos hfree] at hresp
      cases hresp
      cases hstatus
    · rw [if_neg hfree] at hresp ⊢
      cases hu : Proxy.upstreamUpgradeRequest parseUri rule ticket req remoteIp with
      | error e => simp [hu] at hresp
      | ok u =>
          cases hc : client u with
          | error e => simp [hu, hc] at hresp
          | ok relayed =>
              simp only [hc]
              split <;> exact List.cons_ne_nil _ _
  · cases h
    unfold Proxy.forwardHttp at hresp ⊢
    cases hu : Proxy.upstreamHttpRequest parseUri rule ticket req remoteIp with
    | error e => simp [hu] at hresp
    | ok u =>
        cases hc : client u with
        | error e => simp [hu, hc] at hresp
        | ok relayed => simp [hc]

theorem allowsOnly_answer {resp : Response Body} (h : Unmarked resp) : AllowsOnly origin (.answer resp) := by
  intro resp' hresp
  cases hresp
  exact .inl h

theorem tryReverseProxy_allowsOnly (hcors : opts.cors = some cors) (horigin : req.headers.get? .origin = some origin)
    (hpasses : cors.Passes req.method req.headers origin) {outcome : Outcome}
    (h : tryReverseProxy crates w opts remoteIp req = some outcome) : AllowsOnly origin outcome := by
  obtain ⟨exchange, hexchange, houtcome⟩ := Option.bind_eq_some_iff.mp h
  cases houtcome
  intro resp hresp
  cases hresp
  unfold proxyAnswer
  cases hresult : exchange.result with
  | error e => exact .inl (errorPage_unmarked w opts req _)
  | ok relayed =>
      by_cases hstatus : relayed.status = .switchingProtocols
      · refine .inr (.inr ⟨preProcess_sent hexchange hresult hstatus, ?_⟩)
        simp only [hstatus, if_true]
      · refine .inr (.inl ?_)
        simp only [hstatus, if_false]
        exact corsPostProcess_allowOrigin hcors horigin hpasses relayed

theorem proxied_allowsOnly (hcors : opts.cors = some cors) (horigin : req.headers.get? .origin = some origin)
    (hpasses : cors.Passes req.method req.headers origin) (proxied : Prop) [Decidable proxied] {outcome : Outcome}
    (h : AllowsOnly origin outcome) :
    AllowsOnly origin ((if proxied then tryReverseProxy crates w opts remoteIp req else none).getD outcome) := by
  split
  · cases hproxy : tryReverseProxy crates w opts remoteIp req with
    | none => exact h
    | some answer => exact tryReverseProxy_allowsOnly hcors horigin hpasses hproxy
  · exact h

/-! ## The handler -/

theorem serveStatic_allowsOnly (hcors : opts.cors = some cors) (horigin : req.headers.get? .origin = some origin)
    (hpasses : cors.Passes req.method req.headers origin) (hcustom : opts.advancedOpts.bind (·.headers) = none) :
    AllowsOnly origin (serveStatic crates w opts req) := by
  intro resp h
  unfold serveStatic at h
  dsimp only at h
  split at h
  · cases h
    exact .inr (.inl (postProcess_allowOrigin hcors horigin hpasses hcustom _ _ _))
  · cases h
    exact .inr (.inl (postProcess_allowOrigin hcors horigin hpasses hcustom _ _ _))
  · cases h

theorem handleRouted_allowsOnly (hcors : opts.cors = some cors) (horigin : req.headers.get? .origin = some origin)
    (hpasses : cors.Passes req.method req.headers origin) (hcustom : opts.advancedOpts.bind (·.headers) = none) :
    AllowsOnly origin (handleRouted crates w opts remoteIp req) := by
  have horigin' : (rewritesPreProcess crates w opts req).2.headers.get? .origin = some origin := by
    rw [Multimap.get?, rewritesPreProcess_headers (by decide)]
    exact horigin
  have hpasses' : cors.Passes (rewritesPreProcess crates w opts req).2.method
      (rewritesPreProcess crates w opts req).2.headers origin := by
    rw [← corsAdds_iff hcors horigin', corsAdds_rewritten]
    exact (corsAdds_iff hcors horigin).mpr hpasses
  have hstatic : AllowsOnly origin (serveStatic crates w opts (rewritesPreProcess crates w opts req).2) :=
    serveStatic_allowsOnly hcors horigin' hpasses' hcustom
  unfold handleRouted
  cases hredirects : redirectsPreProcess crates w opts req with
  | some resp => exact allowsOnly_answer (redirectsPreProcess_unmarked hredirects)
  | none =>
      rcases hrewrites : rewritesPreProcess crates w opts req with ⟨_ | resp, req'⟩
      · rw [hrewrites] at horigin' hpasses' hstatic
        have hproxied : AllowsOnly origin ((if ¬ opts.proxyFirst = true then
            tryReverseProxy crates w opts remoteIp req' else none).getD (serveStatic crates w opts req')) :=
          proxied_allowsOnly hcors horigin' hpasses' _ hstatic
        simpa only [ite_not] using hproxied
      · exact allowsOnly_answer (rewritesPreProcess_unmarked (congrArg Prod.fst hrewrites))

theorem handle_allowsOnly (hcors : opts.cors = some cors) (horigin : req.headers.get? .origin = some origin)
    (hcustom : opts.advancedOpts.bind (·.headers) = none) : AllowsOnly origin (handle crates w opts remoteIp req) := by
  unfold handle
  split
  · exact allowsOnly_answer (errorPage_unmarked w opts req _)
  · cases hearly : (earlyStages crates w opts req).findSome? id with
    | some answer => exact allowsOnly_answer (earlyStages_unmarked hearly)
    | none =>
        have hpasses : cors.Passes req.method req.headers origin := by
          have hcheck := List.findSome?_eq_none_iff.mp hearly (corsPreProcess w opts req) (by simp [earlyStages])
          exact (corsPreProcess_eq_none_iff hcors horigin).mp hcheck
        exact proxied_allowsOnly hcors horigin hpasses _ (handleRouted_allowsOnly hcors horigin hpasses hcustom)

theorem handle_refused (hcors : opts.cors = some cors) (horigin : req.headers.get? .origin = some origin)
    (hreaches : ReachesCheck w opts req) (hfails : ¬ cors.Passes req.method req.headers origin) :
    handle crates w opts remoteIp req = .answer (errorPage w opts req .forbidden) := by
  have hcheck : corsPreProcess w opts req = some (errorPage w opts req .forbidden) := by
    unfold corsPreProcess
    rw [hcors, Option.bind_some]
    rcases cors.checkRequest_cases req.method horigin with ⟨hpasses, _⟩ | ⟨_, e, herror⟩
    · exact absurd hpasses hfails
    · rw [herror]
      rfl
  unfold handle earlyStages
  rw [if_neg (by simp [hreaches.allowed]), hreaches.health, hreaches.metrics, hcheck]
  rfl

theorem ReachesCheck.other (h : ReachesCheck w opts req) (w' : World) : ReachesCheck w' opts req := by
  refine ⟨h.allowed, h.health, ?_⟩
  have hmetrics := h.metrics
  unfold metricsPreProcess at hmetrics ⊢
  split_ifs at hmetrics ⊢ <;> rfl

theorem ReachesCheck.of_options (h : req.method = .options) : ReachesCheck w opts req := by
  refine ⟨by rw [h]; decide, ?_, ?_⟩
  · unfold healthPreProcess
    split_ifs
    · rfl
    · rfl
    · rw [h]
  · unfold metricsPreProcess
    rw [h]
    split_ifs <;> simp_all

/-- The check guards every request that gets to it. -/
theorem guardsOrigin (hcors : opts.cors = some cors) (horigin : req.headers.get? .origin = some origin) :
    GuardsOrigin crates w opts remoteIp cors.cors origin req where
  refused hreaches hno := by
    have hfails : ¬ cors.Passes req.method req.headers origin := fun h => hno (isOriginAllowed_iff.mp h.1)
    rw [handle_refused hcors horigin hreaches hfails]
    refine ⟨⟨_, rfl, rfl, errorPage_unmarked w opts req _⟩, fun w' hsame => ?_⟩
    rw [handle_refused hcors horigin (hreaches.other w') hfails, hsame.errorPage_eq]
  single := by
    have hcors' : (withoutCustom opts).cors = some cors := hcors
    refine handle_allowsOnly hcors' horigin ?_
    unfold withoutCustom
    cases opts.advancedOpts <;> rfl
  preflight hmethod := by
    refine ⟨.of_options hmethod, fun hone => ?_⟩
    rw [corsPreProcess_eq_none_iff hcors horigin, hmethod]
    exact passes_iff_preflightAllowed hone
  agrees req' hreq := by
    rw [corsPreProcess_eq_none_iff hcors horigin, ← corsAdds_iff hcors horigin]
    rcases hreq with rfl | rfl
    · rfl
    · rw [corsAdds_rewritten]

def oneOrigin : Configured :=
  { anyOrigin with
    cors := { anyOrigin.cors with allowedHeaders := ["x-a".toList], origins := some [Static.named "https://example.org"] } }

def switchingResponse : Response Body :=
  { status := .switchingProtocols, headers := [(.accessControlAllowOrigin, Static.named "*")], body := .empty }

def oneOriginOpts : RequestHandlerOpts :=
  { sampleOpts with cors := some oneOrigin, health := true, proxyClient := some fun _ => .ok switchingResponse }

def requestFrom (origin : String) (method : Method) : Request Body :=
  { sampleRequest method with headers := [(.origin, Static.named origin)] }

def healthRequest : Request Body :=
  { requestFrom "https://example.com" .get with
    uri := (Proxy.getRequest [] "/health".toList none (by decide) PathAndQuery.legal_none).uri }

/-- A preflight request with a name on its second line that is not allowed. -/
def preflightRequest : Request Body :=
  { sampleRequest .options with
    headers := [(.origin, Static.named "https://example.org"), (.accessControlRequestMethod, Static.named "GET"),
      (.accessControlRequestHeaders, Static.named "x-a"), (.accessControlRequestHeaders, Static.named "x-b")] }

theorem oneOrigin_refuses : ¬ OriginAllowed oneOrigin.cors (Static.named "https://example.com") := fun h => by
  have hmem := h.2 _ rfl
  revert hmem
  decide

/-- Two answers come before the check, a switch of protocols is relayed without it, and it reads one line of names. -/
theorem answers_unchecked :
    ¬ OriginAllowed oneOrigin.cors (Static.named "https://example.com") ∧
    (handle sampleCrates sampleWorld oneOriginOpts none (requestFrom "https://example.com" .post)).result.toOption.map
      (·.status) = some .methodNotAllowed ∧
    (handle sampleCrates sampleWorld oneOriginOpts none healthRequest).result.toOption.map (·.status) = some .ok ∧
    (handle sampleCrates sampleWorld oneOriginOpts none (requestFrom "https://example.org" .get)).result.toOption.map
      allowOrigin = some [Static.named "*"] ∧
    corsPreProcess sampleWorld oneOriginOpts preflightRequest = none ∧
    ¬ PreflightAllowed oneOrigin.cors (Static.named "https://example.org") preflightRequest.headers := by
  refine ⟨oneOrigin_refuses, by decide +kernel, by decide +kernel, by decide +kernel, by decide +kernel, fun h => ?_⟩
  · obtain ⟨text, htext, hnames⟩ := h.names (Static.named "x-b") (by decide)
    have hline : HeaderValue.toStr (Static.named "x-b") = some "x-b".toList := by decide
    cases hline.symm.trans htext
    obtain ⟨allowed, hallowed, hname⟩ := hnames "x-b".toList (by decide)
    have hname' : HeaderName.fromStr (Text.trim "x-b".toList) = some "x-b".toList := by decide
    cases hname'.symm.trans hname
    revert hallowed
    decide

/-- A preflight request that the check refuses. -/
def refusedPreflight : Request Body :=
  { sampleRequest .options with
    headers := [(.origin, Static.named "https://example.com"), (.accessControlRequestMethod, Static.named "GET"),
      (.accessControlRequestHeaders, Static.named "x-a")] }

theorem guardsOrigin_preflight :
    GuardsOrigin sampleCrates sampleWorld oneOriginOpts none oneOrigin.cors (Static.named "https://example.com")
      refusedPreflight ∧
    ReachesCheck sampleWorld oneOriginOpts refusedPreflight ∧
    ¬ OriginAllowed oneOrigin.cors (Static.named "https://example.com") ∧
    (refusedPreflight.headers.getAll .accessControlRequestHeaders).length = 1 :=
  ⟨guardsOrigin rfl rfl, .of_options rfl, oneOrigin_refuses, by decide⟩

end WeaveGate.Handler
