import WeaveGate.Handler.Lemmas.PostProcess
import WeaveGate.Static.Lemmas.Masked

/-!
# Stages in a world with other bytes

What the stages before the files and after them make of a request when the files and the cache entries keep their
names and lengths, but not their bytes.
-/

namespace WeaveGate.Handler

open Http Settings
open Posix (Path FileTree)
open Static (Body)

variable {crates : Crates} {w w' : World} {opts : RequestHandlerOpts} {remoteIp : Option Str} {req : Request Body}

/-! ## Worlds -/

structure World.SamePages (opts : RequestHandlerOpts) (w w' : World) : Prop where
  page404 : pageContent w'.tree opts.page404 = pageContent w.tree opts.page404
  page50x : pageContent w'.tree opts.page50x = pageContent w.tree opts.page50x

/-- The files and the entries of the cache may have other bytes, except the pages of the configuration. -/
structure World.OtherBytes (opts : RequestHandlerOpts) (w w' : World) : Prop extends World.SamePages opts w w' where
  tree : w'.tree.masked = w.tree.masked
  store : w'.store.masked = w.store.masked
  ticket : w'.ticket = w.ticket
  permits : w'.permits = w.permits
  metrics : w'.metrics = w.metrics
  maintenance : pageContent w'.tree opts.maintenanceModeFile = pageContent w.tree opts.maintenanceModeFile

/-- What the stages before the files see is the same. -/
structure World.SameStages (opts : RequestHandlerOpts) (w w' : World) : Prop extends World.SamePages opts w w' where
  ticket : w'.ticket = w.ticket
  permits : w'.permits = w.permits
  metrics : w'.metrics = w.metrics
  maintenance : pageContent w'.tree opts.maintenanceModeFile = pageContent w.tree opts.maintenanceModeFile
  maintenanceFile : w'.tree.isFile opts.maintenanceModeFile = w.tree.isFile opts.maintenanceModeFile

theorem World.OtherBytes.sameStages (h : World.OtherBytes opts w w') : World.SameStages opts w w' where
  toSamePages := h.toSamePages
  ticket := h.ticket
  permits := h.permits
  metrics := h.metrics
  maintenance := h.maintenance
  maintenanceFile := by rw [← FileTree.isFile_masked, h.tree, FileTree.isFile_masked]

/-! ## Stages before the files -/

theorem World.SamePages.errorResponse_eq (h : World.SamePages opts w w') (method : Method) (status : StatusCode) :
    errorResponse w'.tree method status opts.page404 opts.page50x =
      errorResponse w.tree method status opts.page404 opts.page50x := by
  unfold errorResponse
  rw [h.page404, h.page50x]

theorem World.SamePages.errorPage_eq (h : World.SamePages opts w w') :
    errorPage w' opts req = errorPage w opts req :=
  funext (h.errorResponse_eq req.method)

theorem World.SamePages.corsPreProcess_eq (h : World.SamePages opts w w') :
    corsPreProcess w' opts req = corsPreProcess w opts req := by
  unfold corsPreProcess
  rw [h.errorResponse_eq]

theorem World.SamePages.basicAuthPreProcess_eq (h : World.SamePages opts w w') :
    basicAuthPreProcess crates w' opts req = basicAuthPreProcess crates w opts req := by
  unfold basicAuthPreProcess
  simp only [h.errorResponse_eq]

theorem World.SamePages.handleError_eq (h : World.SamePages opts w w') :
    handleError w' opts req = handleError w opts req :=
  congrArg some (h.errorResponse_eq req.method .internalServerError)

theorem World.SamePages.redirectResponse_eq (h : World.SamePages opts w w') (dest : Str) (status : StatusCode) :
    redirectResponse w' opts req dest status = redirectResponse w opts req dest status := by
  unfold redirectResponse
  rw [h.handleError_eq]

theorem World.SamePages.redirectsPreProcess_eq (h : World.SamePages opts w w') :
    redirectsPreProcess crates w' opts req = redirectsPreProcess crates w opts req := by
  unfold redirectsPreProcess
  simp only [h.handleError_eq, h.redirectResponse_eq]

theorem World.SamePages.rewritesPreProcess_eq (h : World.SamePages opts w w') :
    rewritesPreProcess crates w' opts req = rewritesPreProcess crates w opts req := by
  unfold rewritesPreProcess
  simp only [h.handleError_eq, h.redirectResponse_eq]

theorem World.SameStages.earlyStages_eq (h : World.SameStages opts w w') :
    earlyStages crates w' opts req = earlyStages crates w opts req := by
  unfold earlyStages metricsPreProcess maintenancePreProcess maintenanceResponse
  rw [h.metrics, h.corsPreProcess_eq, h.basicAuthPreProcess_eq, h.maintenanceFile, h.maintenance]

theorem World.SameStages.tryReverseProxy_eq (h : World.SameStages opts w w') :
    tryReverseProxy crates w' opts remoteIp req = tryReverseProxy crates w opts remoteIp req := by
  unfold tryReverseProxy proxyAnswer
  rw [h.permits, h.ticket, h.errorPage_eq]

/-! ## Static files -/

theorem tryPath_masked (t : FileTree) (path : Path) : tryPath t.masked path = tryPath t path := by
  unfold tryPath
  rw [Static.tryMetadata_masked]
  rcases Static.tryMetadata t path with s | ⟨metadata, _ | _⟩ <;> rfl

theorem markdownPreProcess_masked (t : FileTree) (headers : HeaderMap) (basePath : Path) (uriPath : Str) :
    markdownPreProcess crates t.masked headers basePath uriPath = markdownPreProcess crates t headers basePath uriPath := by
  unfold markdownPreProcess tryMarkdownVariant
  simp only [tryPath_masked]

/-- The path of the markdown file that is served in place of the one that the request names. -/
def markdownPath (crates : Crates) (w : World) (opts : RequestHandlerOpts) (req : Request Body) : Option Str :=
  if opts.acceptMarkdown then markdownPreProcess crates w.tree req.headers
    ((opts.advancedOpts.bind fun adv => getRealRoot req adv.virtualHosts).getD opts.rootDir) req.uri.path
  else none

/-- What the static handler is called with for the request. -/
def fileCall (crates : Crates) (w : World) (opts : RequestHandlerOpts) (req : Request Body) : Static.HandleOpts :=
  staticCall opts req ((opts.advancedOpts.bind fun adv => getRealRoot req adv.virtualHosts).getD opts.rootDir)
    ((markdownPath crates w opts req).getD req.uri.path)

theorem serveStatic_eq (crates : Crates) (w : World) (opts : RequestHandlerOpts) (req : Request Body) :
    serveStatic crates w opts req = ⟨[], some (fileCall crates w opts req),
      match Static.handle crates.static w.tree w.store (fileCall crates w opts req) with
      | .ok r => .ok (postProcess crates opts req (markdownPath crates w opts req).isSome (some r.filePath) r.resp)
      | .error (.status status) =>
          .ok (postProcess crates opts req (markdownPath crates w opts req).isSome none (errorPage w opts req status))
      | .error .panic => .error .panic⟩ := rfl

theorem World.OtherBytes.fileCall_eq (h : World.OtherBytes opts w w') :
    fileCall crates w' opts req = fileCall crates w opts req := by
  unfold fileCall markdownPath
  rw [← markdownPreProcess_masked, h.tree, markdownPreProcess_masked]

/-- Neither the fallback page nor the compression concerns OPTIONS. -/
theorem postProcess_body_of_options (hmethod : req.method = .options) (isMarkdown : Bool) (filePath : Option Path)
    (resp : Response Body) : (postProcess crates opts req isMarkdown filePath resp).body = resp.body := by
  have hfallback : fallbackPostProcess opts req resp = resp := by
    unfold fallbackPostProcess
    rw [if_neg]
    rintro ⟨hget, -⟩
    rw [hmethod] at hget
    cases hget
  have hcompression : ∀ resp, (compressionPostProcess crates opts req resp).body = resp.body := by
    intro resp
    have hauto : ∀ resp, auto crates req.method req.headers opts.compressionLevel resp = resp :=
      fun resp => if_pos (.inr hmethod)
    unfold compressionPostProcess
    rw [hauto]
    split
    · rfl
    · split <;> rfl
  simp only [postProcess, (customHeadersPostProcess_changes _ _).body, (securityHeadersPostProcess_changes opts _).body,
    (controlHeadersPostProcess_changes opts req _).body, hcompression, (compressionStaticPostProcess_changes opts _).body,
    (textCharsetPostProcess_changes crates opts _).body, (markdownPostProcess_changes isMarkdown opts _).body,
    (corsPostProcess_changes opts req _).body, hfallback]

/-- The body that the static handler gives an OPTIONS request, or that of an error page. -/
def servedBody (crates : Crates) (w : World) (opts : RequestHandlerOpts) (req : Request Body) :
    Except Static.Failure Body :=
  match Static.handle crates.static w.tree w.store (fileCall crates w opts req) with
  | .ok r => .ok r.resp.body
  | .error (.status status) => .ok (errorPage w opts req status).body
  | .error .panic => .error .panic

theorem serveStatic_body (hmethod : req.method = .options) :
    (serveStatic crates w opts req).result.map (·.body) = servedBody crates w opts req := by
  rw [serveStatic_eq]
  unfold servedBody
  cases Static.handle crates.static w.tree w.store (fileCall crates w opts req) with
  | ok r => exact congrArg Except.ok (postProcess_body_of_options hmethod _ _ _)
  | error failure =>
      cases failure with
      | status status => exact congrArg Except.ok (postProcess_body_of_options hmethod _ _ _)
      | panic => rfl

/-! ## The handler -/

/-- No stage before the files answers the request, which they see as `req'`. -/
structure ReachesFiles (crates : Crates) (w : World) (opts : RequestHandlerOpts) (remoteIp : Option Str)
    (req req' : Request Body) : Prop where
  allowed : Static.isAllowed req.method = true
  early : ∀ answer ∈ earlyStages crates w opts req, answer = none
  redirects : redirectsPreProcess crates w opts req = none
  rewrites : rewritesPreProcess crates w opts req = (none, req')
  proxy : tryReverseProxy crates w opts remoteIp (if opts.proxyFirst then req else req') = none

/-- The answer of the stages before the files, or the request that they leave to them. -/
def beforeFiles (crates : Crates) (w : World) (opts : RequestHandlerOpts) (remoteIp : Option Str)
    (req : Request Body) : Outcome ⊕ Request Body :=
  if !Static.isAllowed req.method then .inl (.answer (errorPage w opts req .methodNotAllowed))
  else match (earlyStages crates w opts req).findSome? id with
    | some resp => .inl (.answer resp)
    | none => match if opts.proxyFirst then tryReverseProxy crates w opts remoteIp req else none with
        | some outcome => .inl outcome
        | none => match redirectsPreProcess crates w opts req with
            | some resp => .inl (.answer resp)
            | none => match rewritesPreProcess crates w opts req with
                | (some resp, _) => .inl (.answer resp)
                | (none, req') =>
                    match if opts.proxyFirst then none else tryReverseProxy crates w opts remoteIp req' with
                    | some outcome => .inl outcome
                    | none => .inr req'

theorem handle_eq_beforeFiles :
    handle crates w opts remoteIp req = (beforeFiles crates w opts remoteIp req).elim id (serveStatic crates w opts) := by
  unfold handle handleRouted beforeFiles
  by_cases hallowed : Static.isAllowed req.method = true
  · simp only [hallowed, Bool.not_true, Bool.false_eq_true, if_false]
    cases (earlyStages crates w opts req).findSome? id with
    | some resp => rfl
    | none =>
        simp only
        generalize (if opts.proxyFirst = true then tryReverseProxy crates w opts remoteIp req else none) = proxied
        cases proxied with
        | some outcome => rfl
        | none =>
            cases redirectsPreProcess crates w opts req with
            | some resp => rfl
            | none =>
                rcases rewritesPreProcess crates w opts req with ⟨_ | resp, req'⟩
                · simp only [Option.getD_none]
                  generalize (if opts.proxyFirst = true then none
                    else tryReverseProxy crates w opts remoteIp req') = proxied
                  cases proxied <;> rfl
                · rfl
  · simp only [hallowed, Bool.not_false, if_true]
    rfl

theorem beforeFiles_of_reachesFiles {req' : Request Body} (h : ReachesFiles crates w opts remoteIp req req') :
    beforeFiles crates w opts remoteIp req = .inr req' := by
  have hearly : (earlyStages crates w opts req).findSome? id = none := List.findSome?_eq_none_iff.mpr h.early
  have hproxy := h.proxy
  unfold beforeFiles
  rw [if_neg (by simp [h.allowed]), hearly, h.redirects, h.rewrites]
  by_cases hfirst : opts.proxyFirst = true
  · simp only [hfirst, if_true] at hproxy
    simp [hfirst, hproxy]
  · simp only [hfirst, Bool.false_eq_true, if_false] at hproxy
    simp [hfirst, hproxy]

theorem tryReverseProxy_staticCall {outcome : Outcome}
    (h : tryReverseProxy crates w opts remoteIp req = some outcome) : outcome.staticCall = none := by
  obtain ⟨exchange, -, houtcome⟩ := Option.bind_eq_some_iff.mp h
  cases houtcome
  rfl

theorem beforeFiles_cases (crates : Crates) (w : World) (opts : RequestHandlerOpts) (remoteIp : Option Str)
    (req : Request Body) :
    (∃ outcome, beforeFiles crates w opts remoteIp req = .inl outcome ∧ outcome.staticCall = none) ∨
      ∃ req', ReachesFiles crates w opts remoteIp req req' := by
  unfold beforeFiles
  by_cases hallowed : Static.isAllowed req.method = true
  · rw [if_neg (by simp [hallowed])]
    cases hearly : (earlyStages crates w opts req).findSome? id with
    | some resp => exact .inl ⟨_, rfl, rfl⟩
    | none =>
        have hstages := List.findSome?_eq_none_iff.mp hearly
        simp only
        cases hfirst : if opts.proxyFirst then tryReverseProxy crates w opts remoteIp req else none with
        | some outcome =>
            refine .inl ⟨outcome, rfl, ?_⟩
            split_ifs at hfirst
            exact tryReverseProxy_staticCall hfirst
        | none =>
            cases hredirects : redirectsPreProcess crates w opts req with
            | some resp => exact .inl ⟨_, rfl, rfl⟩
            | none =>
                rcases hrewrites : rewritesPreProcess crates w opts req with ⟨_ | resp, req'⟩
                · simp only
                  cases hlast : if opts.proxyFirst then none else tryReverseProxy crates w opts remoteIp req' with
                  | some outcome =>
                      refine .inl ⟨outcome, rfl, ?_⟩
                      split_ifs at hlast
                      exact tryReverseProxy_staticCall hlast
                  | none =>
                      refine .inr ⟨req', hallowed, hstages, hredirects, hrewrites, ?_⟩
                      by_cases hproxy : opts.proxyFirst = true
                      · simpa [hproxy] using hfirst
                      · simpa [hproxy] using hlast
                · exact .inl ⟨_, rfl, rfl⟩
  · exact .inl ⟨.answer (errorPage w opts req .methodNotAllowed), by simp [hallowed], rfl⟩

theorem World.SameStages.beforeFiles_eq (h : World.SameStages opts w w') :
    beforeFiles crates w' opts remoteIp req = beforeFiles crates w opts remoteIp req := by
  unfold beforeFiles
  simp only [h.errorPage_eq, h.earlyStages_eq, h.tryReverseProxy_eq, h.redirectsPreProcess_eq, h.rewritesPreProcess_eq]

end WeaveGate.Handler
