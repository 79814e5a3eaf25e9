import WeaveGate.Handler.Theorems.Auth
import WeaveGate.Handler.Theorems.Compression
import WeaveGate.Static.Lemmas.Head

/-!
# HEAD requests

HEAD against GET through all stages of the handler, and the lengths that the answers announce.
-/

namespace WeaveGate.Handler

open Http Settings
open Posix (Path FileTree)
open Static (Body parts LengthAgrees)

variable {crates : Crates} {w : World} {opts : RequestHandlerOpts} {remoteIp : Option Str} {req : Request Body}

/-- The same request with HEAD. -/
def asHead (req : Request Body) : Request Body := { req with method := .head }

/-! ## Stages before the files -/

theorem errorPage_head (w : World) (opts : RequestHandlerOpts) (req : Request Body) (status : StatusCode) :
    parts (errorPage w opts (asHead req) status) = parts (errorPage w opts req status) := rfl

theorem checkRequest_head (cors : Configured) (hget : req.method = .get) :
    cors.checkRequest (asHead req).method (asHead req).headers = cors.checkRequest req.method req.headers := by
  have hheaders : (asHead req).headers = req.headers := rfl
  unfold Configured.checkRequest
  rw [hheaders, hget]
  rfl

theorem corsPreProcess_head (hget : req.method = .get) :
    (corsPreProcess w opts (asHead req)).map parts = (corsPreProcess w opts req).map parts := by
  unfold corsPreProcess
  cases opts.cors with
  | none => rfl
  | some cors =>
      simp only [Option.bind_some, checkRequest_head cors hget]
      cases cors.checkRequest req.method req.headers <;> rfl

theorem basicAuthPreProcess_head (hget : req.method = .get) :
    (basicAuthPreProcess crates w opts (asHead req)).map parts = (basicAuthPreProcess crates w opts req).map parts := by
  have hoptions : ¬ req.method = .options := by rw [hget]; decide
  have hhead : ¬ (asHead req).method = .options := fun h => nomatch (show Method.head = .options from h)
  have hheaders : (asHead req).headers = req.headers := rfl
  unfold basicAuthPreProcess
  rw [if_neg hoptions, if_neg hhead, hheaders]
  split
  · rfl
  · split
    · rfl
    · cases checkRequest crates req.headers _ _ <;> rfl

theorem maintenancePreProcess_head :
    (maintenancePreProcess w opts (asHead req)).map parts = (maintenancePreProcess w opts req).map parts := by
  unfold maintenancePreProcess
  split <;> rfl

theorem healthPreProcess_head (hget : req.method = .get) (h : healthPreProcess opts req = none) :
    healthPreProcess opts (asHead req) = none := by
  have huri : (asHead req).uri = req.uri := rfl
  unfold healthPreProcess at h ⊢
  rw [huri]
  by_cases hoff : (!opts.health) = true
  · rw [if_pos hoff]
  · by_cases hpath : req.uri.path ≠ "/health".toList
    · rw [if_neg hoff, if_pos hpath]
    · rw [if_neg hoff, if_neg hpath, hget] at h
      cases h

theorem metricsPreProcess_head (hget : req.method = .get) (h : metricsPreProcess w opts req = none) :
    metricsPreProcess w opts (asHead req) = none := by
  have huri : (asHead req).uri = req.uri := rfl
  unfold metricsPreProcess at h ⊢
  rw [huri]
  by_cases hoff : (!opts.metricsEnabled) = true
  · rw [if_pos hoff]
  · by_cases hpath : req.uri.path ≠ "/metrics".toList
    · rw [if_neg hoff, if_pos hpath]
    · rw [if_neg hoff, if_neg hpath, if_neg fun hno => hno.1 hget] at h
      cases h

theorem earlyStages_head (crates : Crates) (hget : req.method = .get) (hhealth : healthPreProcess opts req = none)
    (hmetrics : metricsPreProcess w opts req = none) :
    ((earlyStages crates w opts (asHead req)).findSome? id).map parts =
      ((earlyStages crates w opts req).findSome? id).map parts := by
  have hstages : (earlyStages crates w opts (asHead req)).map (Option.map parts) =
      (earlyStages crates w opts req).map (Option.map parts) := by
    simp only [earlyStages, List.map_cons, List.map_nil, healthPreProcess_head hget hhealth, hhealth,
      metricsPreProcess_head hget hmetrics, hmetrics, corsPreProcess_head hget, basicAuthPreProcess_head hget,
      maintenancePreProcess_head]
  have hfirst : ∀ stages : List (Option (Response Body)), (stages.findSome? id).map parts =
      (stages.map (Option.map parts)).findSome? id := fun stages => by
    rw [List.map_findSome?, List.findSome?_map]
    rfl
  rw [hfirst, hfirst, hstages]

theorem redirectsPreProcess_head (crates : Crates) (w : World) (opts : RequestHandlerOpts) (req : Request Body) :
    (redirectsPreProcess crates w opts (asHead req)).map parts = (redirectsPreProcess crates w opts req).map parts := by
  have hhost : redirectHost (asHead req) = redirectHost req := rfl
  have huri : (asHead req).uri = req.uri := rfl
  unfold redirectsPreProcess
  rw [hhost, huri]
  cases opts.advancedOpts.bind (·.redirects) with
  | none => rfl
  | some redirects =>
      simp only [bind, Option.bind_some]
      cases getRedirection crates (redirectHost req) req.uri.path redirects with
      | none => rfl
      | some matched =>
          simp only [Option.bind_some]
          cases replacePlaceholders crates req.uri.path matched.source matched.destination with
          | error e => rfl
          | ok dest =>
              simp only [redirectResponse]
              cases HeaderValue.fromStr dest <;> rfl

theorem adjustHost_head (req : Request Body) : adjustHost (asHead req) = asHead (adjustHost req) := by
  have huri : (asHead req).uri = req.uri := rfl
  unfold adjustHost
  rw [huri]
  cases req.uri.authority with
  | none => rfl
  | some authority =>
      dsimp only
      cases HeaderValue.fromStr _ <;> rfl

theorem rewritesPreProcess_head (crates : Crates) (w : World) (opts : RequestHandlerOpts) (req : Request Body) :
    (rewritesPreProcess crates w opts (asHead req)).1.map parts = (rewritesPreProcess crates w opts req).1.map parts ∧
      (rewritesPreProcess crates w opts (asHead req)).2 = asHead (rewritesPreProcess crates w opts req).2 := by
  have huri : (asHead req).uri = req.uri := rfl
  unfold rewritesPreProcess
  rw [huri]
  cases opts.advancedOpts.bind (·.rewrites) with
  | none => exact ⟨rfl, rfl⟩
  | some rewrites =>
      simp only
      cases rewriteUriPath crates req.uri.path rewrites with
      | none => exact ⟨rfl, rfl⟩
      | some matched =>
          simp only
          cases replacePlaceholders crates req.uri.path matched.source matched.destination with
          | error e => exact ⟨rfl, rfl⟩
          | ok dest =>
              simp only
              cases matched.redirect with
              | some kind =>
                  refine ⟨?_, rfl⟩
                  simp only [redirectResponse]
                  cases HeaderValue.fromStr dest <;> rfl
              | none =>
                  simp only
                  cases mergeUris crates req.uri dest with
                  | none => exact ⟨rfl, rfl⟩
                  | some uri => exact ⟨rfl, adjustHost_head { req with uri }⟩

/-! ## Stages after the files -/

/-- No stage is configured that replaces or rewrites what the files gave. -/
structure PlainStages (opts : RequestHandlerOpts) : Prop where
  noFallback : opts.pageFallback = []
  noCompression : opts.compression = false
  noCustom : (opts.advancedOpts.bind fun adv => adv.headers).getD [] = []

theorem PlainStages.postProcess_eq (h : PlainStages opts) (req : Request Body) (isMarkdown : Bool)
    (filePath : Option Path) (resp : Response Body) : postProcess crates opts req isMarkdown filePath resp =
      securityHeadersPostProcess opts (controlHeadersPostProcess opts req (compressionStaticPostProcess opts
        (textCharsetPostProcess crates opts
          (markdownPostProcess isMarkdown opts (corsPostProcess opts req resp))))) := by
  have hfallback : fallbackPostProcess opts req resp = resp := if_neg fun hno => hno.2.2 h.noFallback
  have hcompression : ∀ resp, compressionPostProcess crates opts req resp = resp := fun resp => by
    rw [compressionPostProcess, h.noCompression]
    rfl
  have hcustom : ∀ resp, customHeadersPostProcess crates opts req resp filePath = resp := fun resp => by
    have hnone := h.noCustom
    unfold customHeadersPostProcess
    cases hentries : opts.advancedOpts.bind (·.headers) with
    | none => rfl
    | some entries =>
        rw [hentries, Option.getD_some] at hnone
        rw [hnone]
        rfl
  rw [postProcess, hfallback, hcompression, hcustom]

/-- A stage that neither looks at the body nor changes it. -/
def BodyBlind (stage : Response Body → Response Body) : Prop :=
  ∀ (resp : Response Body) (body : Body), stage { resp with body } = { stage resp with body }

theorem BodyBlind.comp {stage stage' : Response Body → Response Body} (h : BodyBlind stage) (h' : BodyBlind stage') :
    BodyBlind fun resp => stage' (stage resp) := fun resp body =>
  (congrArg stage' (h resp body)).trans (h' (stage resp) body)

theorem BodyBlind.parts_congr {stage : Response Body → Response Body} (h : BodyBlind stage) {resp resp' : Response Body}
    (hparts : parts resp' = parts resp) : parts (stage resp') = parts (stage resp) := by
  obtain ⟨status, headers, body⟩ := resp'
  obtain ⟨status', headers', body'⟩ := resp
  cases hparts
  exact (congrArg parts (h ⟨status, headers, body'⟩ body) : _)

theorem bodyBlind_foldl (fields : HeaderMap) :
    BodyBlind fun resp => fields.foldl (fun resp (k, v) => resp.insertHeader k v) resp := fun _ body =>
  List.foldl_hom (fun resp : Response Body => { resp with body }) fun _ _ => rfl

theorem corsPostProcess_bodyBlind : BodyBlind (corsPostProcess opts req) := by
  intro resp body
  unfold corsPostProcess
  cases opts.cors with
  | none => rfl
  | some cors =>
      simp only
      cases cors.checkRequest req.method req.headers with
      | error e => rfl
      | ok result =>
          simp only
          split
          · rfl
          · exact congrArg (fun resp => (resp.insertHeader .vary (Posix.utf8 HeaderName.origin)).removeHeader .allow)
              (bodyBlind_foldl result.1 resp body)

theorem markdownPostProcess_bodyBlind (isMarkdown : Bool) : BodyBlind (markdownPostProcess isMarkdown opts) := by
  intro resp body
  unfold markdownPostProcess
  split <;> rfl

theorem textCharsetPostProcess_bodyBlind : BodyBlind (textCharsetPostProcess crates opts) := by
  intro resp body
  unfold textCharsetPostProcess
  split
  · rfl
  · simp only
    generalize (resp.headers.get? .contentType >>= _) = newHeader
    cases newHeader <;> rfl

theorem compressionStaticPostProcess_bodyBlind : BodyBlind (compressionStaticPostProcess opts) := by
  intro resp body
  unfold compressionStaticPostProcess
  split <;> rfl

theorem controlHeadersPostProcess_bodyBlind : BodyBlind (controlHeadersPostProcess opts req) := by
  intro resp body
  unfold controlHeadersPostProcess
  split <;> rfl

theorem securityHeadersPostProcess_bodyBlind : BodyBlind (securityHeadersPostProcess opts) := by
  intro resp body
  unfold securityHeadersPostProcess
  split <;> rfl

theorem postProcess_head (hget : req.method = .get) (hplain : PlainStages opts) (isMarkdown : Bool)
    (filePath : Option Path) {resp resp' : Response Body} (h : parts resp' = parts resp) :
    parts (postProcess crates opts (asHead req) isMarkdown filePath resp') =
      parts (postProcess crates opts req isMarkdown filePath resp) := by
  have hcors : corsPostProcess opts (asHead req) = corsPostProcess opts req := by
    funext resp
    unfold corsPostProcess
    cases opts.cors with
    | none => rfl
    | some cors => simp only [checkRequest_head cors hget]
  have hcontrol : controlHeadersPostProcess opts (asHead req) = controlHeadersPostProcess opts req := rfl
  rw [hplain.postProcess_eq, hplain.postProcess_eq, hcors, hcontrol]
  exact (((((corsPostProcess_bodyBlind.comp (markdownPostProcess_bodyBlind isMarkdown)).comp
    textCharsetPostProcess_bodyBlind).comp compressionStaticPostProcess_bodyBlind).comp
    controlHeadersPostProcess_bodyBlind).comp securityHeadersPostProcess_bodyBlind).parts_congr h

/-! ## The handler -/

theorem serveStatic_head (hget : req.method = .get) (hplain : PlainStages opts) :
    (serveStatic crates w opts (asHead req)).result.map parts = (serveStatic crates w opts req).result.map parts := by
  have hcall : fileCall crates w opts (asHead req) = (fileCall crates w opts req).head := rfl
  have hmarkdown : markdownPath crates w opts (asHead req) = markdownPath crates w opts req := rfl
  have hmethod : (fileCall crates w opts req).method = .get := hget
  have hfiles := Static.handle_head crates.static w.tree w.store hmethod
  rw [serveStatic_eq, serveStatic_eq, hcall, hmarkdown]
  obtain ⟨failure, hhead, hget'⟩ | ⟨r, r', hhead, hget', hparts⟩ := Checked.map_eq_map hfiles
  · rw [hhead, hget']
    cases failure with
    | status status => exact congrArg Except.ok (postProcess_head hget hplain _ _ (errorPage_head w opts req status))
    | panic => rfl
  · rw [hhead, hget']
    obtain ⟨hparts, hpath⟩ := Prod.mk.inj hparts
    simp only [hpath]
    exact congrArg Except.ok (postProcess_head hget hplain _ _ hparts)

/-- The answer of a stage of the handler's own, or the request as it comes to the files. -/
def ownStages (crates : Crates) (w : World) (opts : RequestHandlerOpts) (req : Request Body) :
    Response Body ⊕ Request Body :=
  match (earlyStages crates w opts req).findSome? id with
  | some resp => .inl resp
  | none => match redirectsPreProcess crates w opts req with
      | some resp => .inl resp
      | none => match rewritesPreProcess crates w opts req with
          | (some resp, _) => .inl resp
          | (none, req') => .inr req'

/-- The request that the proxy rules are tried on, none when a stage before them answers. -/
def atProxy (crates : Crates) (w : World) (opts : RequestHandlerOpts) (req : Request Body) : Option (Request Body) :=
  if opts.proxyFirst then
    if ((earlyStages crates w opts req).findSome? id).isSome then none else some req
  else (ownStages crates w opts req).getRight?

def MatchesNoRule (crates : Crates) (w : World) (opts : RequestHandlerOpts) (req : Request Body) : Prop :=
  ∀ r, atProxy crates w opts req = some r →
    Proxy.findRule crates.globs (opts.advancedOpts.bind (·.proxies)) r = none

theorem tryReverseProxy_eq_none (h : Proxy.findRule crates.globs (opts.advancedOpts.bind (·.proxies)) req = none) :
    tryReverseProxy crates w opts remoteIp req = none := by
  simp only [tryReverseProxy, Proxy.preProcess, h, bind, Option.bind_none]

theorem beforeFiles_of_matchesNoRule (hallowed : Static.isAllowed req.method = true)
    (h : MatchesNoRule crates w opts req) : beforeFiles crates w opts remoteIp req =
      (ownStages crates w opts req).map Outcome.answer id := by
  unfold MatchesNoRule atProxy at h
  unfold beforeFiles ownStages
  unfold ownStages at h
  rw [if_neg (by simp [hallowed])]
  cases hearly : (earlyStages crates w opts req).findSome? id with
  | some resp => rfl
  | none =>
      rw [hearly] at h
      by_cases hfirst : opts.proxyFirst = true
      · have hnone : tryReverseProxy crates w opts remoteIp req = none :=
          tryReverseProxy_eq_none (h req (by simp [hfirst]))
        simp only [hfirst, if_true, hnone]
        cases redirectsPreProcess crates w opts req with
        | some resp => rfl
        | none => rcases rewritesPreProcess crates w opts req with ⟨_ | resp, req'⟩ <;> rfl
      · rw [Bool.not_eq_true] at hfirst
        simp only [hfirst, Bool.false_eq_true, if_false] at h ⊢
        cases hredirects : redirectsPreProcess crates w opts req with
        | some resp => rfl
        | none =>
            rw [hredirects] at h
            rcases hrewrites : rewritesPreProcess crates w opts req with ⟨_ | resp, req'⟩
            · rw [hrewrites] at h
              have hnone : tryReverseProxy crates w opts remoteIp req' = none := tryReverseProxy_eq_none (h req' rfl)
              simp only [hnone]
              rfl
            · rfl

theorem answers_alike {x x' : Option (Response Body)} (h : x'.map parts = x.map parts) :
    (x' = none ∧ x = none) ∨ ∃ resp' resp, x' = some resp' ∧ x = some resp ∧ parts resp' = parts resp := by
  cases x' with
  | none => exact .inl ⟨rfl, Option.map_eq_none_iff.mp h.symm⟩
  | some resp' =>
      obtain ⟨resp, hresp, hparts⟩ := Option.map_eq_some_iff.mp h.symm
      exact .inr ⟨resp', resp, rfl, hresp, hparts.symm⟩

theorem ownStages_head (crates : Crates) (hget : req.method = .get) (hhealth : healthPreProcess opts req = none)
    (hmetrics : metricsPreProcess w opts req = none) :
    (ownStages crates w opts (asHead req)).map parts id = (ownStages crates w opts req).map parts asHead := by
  unfold ownStages
  obtain ⟨hhead, hown⟩ | ⟨resp', resp, hhead, hown, hparts⟩ :=
    answers_alike (earlyStages_head crates hget hhealth hmetrics)
  · obtain ⟨hhead', hown'⟩ | ⟨resp', resp, hhead', hown', hparts⟩ :=
      answers_alike (redirectsPreProcess_head crates w opts req)
    · obtain ⟨hanswer, hreq⟩ := rewritesPreProcess_head crates w opts req
      rw [hhead, hown, hhead', hown']
      rcases hrewrites : rewritesPreProcess crates w opts req with ⟨answer, req'⟩
      rcases hrewrites' : rewritesPreProcess crates w opts (asHead req) with ⟨answer', req''⟩
      rw [hrewrites, hrewrites'] at hanswer hreq
      obtain ⟨rfl, rfl⟩ | ⟨resp', resp, rfl, rfl, hparts⟩ := answers_alike hanswer
      · exact congrArg Sum.inr hreq
      · exact congrArg Sum.inl hparts
    · rw [hhead, hown, hhead', hown']
      exact congrArg Sum.inl hparts
  · rw [hhead, hown]
    exact congrArg Sum.inl hparts

/-- The handler answers the request itself, in all stages as they are. -/
structure AnswersItself (crates : Crates) (w : World) (opts : RequestHandlerOpts) (req : Request Body) : Prop where
  get : req.method = .get
  noRange : req.headers.getAll .range = []
  noHealth : healthPreProcess opts req = none
  noMetrics : metricsPreProcess w opts req = none
  noRule : MatchesNoRule crates w opts req
  plain : PlainStages opts

theorem sum_alike {x' : Response Body ⊕ Request Body} {x : Response Body ⊕ Request Body}
    (h : x'.map parts id = x.map parts asHead) :
    (∃ resp' resp, x' = .inl resp' ∧ x = .inl resp ∧ parts resp' = parts resp) ∨
      ∃ req, x' = .inr (asHead req) ∧ x = .inr req := by
  cases x with
  | inl resp =>
      cases x' with
      | inl resp' => exact .inl ⟨resp', resp, rfl, rfl, Sum.inl.inj h⟩
      | inr req' => cases h
  | inr req =>
      cases x' with
      | inl resp' => cases h
      | inr req' => exact .inr ⟨req, congrArg Sum.inr (Sum.inr.inj h), rfl⟩

theorem MatchesNoRule.head (hget : req.method = .get) (hhealth : healthPreProcess opts req = none)
    (hmetrics : metricsPreProcess w opts req = none) (h : MatchesNoRule crates w opts req) :
    MatchesNoRule crates w opts (asHead req) := by
  have hstages := ownStages_head crates hget hhealth hmetrics
  have hearly := congrArg Option.isSome (earlyStages_head crates hget hhealth hmetrics)
  rw [Option.isSome_map, Option.isSome_map] at hearly
  unfold MatchesNoRule atProxy at h ⊢
  rw [hearly]
  by_cases hfirst : opts.proxyFirst = true
  · simp only [hfirst, if_true] at h ⊢
    by_cases hsome : ((earlyStages crates w opts req).findSome? id).isSome = true
    · rw [if_pos hsome]
      exact fun _ hr => nomatch hr
    · rw [if_neg hsome] at h ⊢
      rintro _ ⟨⟩
      exact h req rfl
  · rw [if_neg hfirst] at h ⊢
    obtain ⟨resp', resp, hhead, hown, _⟩ | ⟨req', hhead, hown⟩ := sum_alike hstages
    · rw [hhead]
      exact fun _ hr => nomatch hr
    · rw [hhead]
      rw [hown] at h
      rintro _ ⟨⟩
      exact h req' rfl

theorem ownStages_of_reachesFiles {req' : Request Body} (h : ReachesFiles crates w opts remoteIp req req') :
    ownStages crates w opts req = .inr req' := by
  have hearly : (earlyStages crates w opts req).findSome? id = none := List.findSome?_eq_none_iff.mpr h.early
  unfold ownStages
  rw [hearly, h.redirects, h.rewrites]

theorem AnswersItself.beforeFiles_eq (h : AnswersItself crates w opts req) (remoteIp : Option Str) :
    beforeFiles crates w opts remoteIp req = (ownStages crates w opts req).map Outcome.answer id :=
  beforeFiles_of_matchesNoRule (by rw [h.get]; rfl) h.noRule

theorem AnswersItself.reachesFiles (h : AnswersItself crates w opts req) (remoteIp : Option Str) {req' : Request Body}
    (hown : ownStages crates w opts req = .inr req') : ReachesFiles crates w opts remoteIp req req' := by
  obtain ⟨outcome, hanswered, _⟩ | ⟨req'', hreach⟩ := beforeFiles_cases crates w opts remoteIp req
  · rw [h.beforeFiles_eq, hown] at hanswered
    cases hanswered
  · cases hown.symm.trans (ownStages_of_reachesFiles hreach)
    exact hreach

/-- HEAD is answered as GET is, apart from the body. -/
theorem handle_head (h : AnswersItself crates w opts req) (remoteIp : Option Str) :
    (handle crates w opts remoteIp (asHead req)).result.map parts =
      (handle crates w opts remoteIp req).result.map parts := by
  have hhead : Static.isAllowed (asHead req).method = true := rfl
  rw [handle_eq_beforeFiles, handle_eq_beforeFiles, h.beforeFiles_eq,
    beforeFiles_of_matchesNoRule hhead (h.noRule.head h.get h.noHealth h.noMetrics)]
  obtain ⟨resp', resp, hhead, hown, hparts⟩ | ⟨req', hhead, hown⟩ :=
    sum_alike (ownStages_head crates h.get h.noHealth h.noMetrics)
  · rw [hhead, hown]
    exact congrArg Except.ok hparts
  · rw [hhead, hown]
    exact serveStatic_head ((h.reachesFiles remoteIp hown).method.trans h.get) h.plain

/-! ## Lengths -/

theorem utf8_length (s : Str) : (Posix.utf8 s).length = Text.len s := by
  simp [Posix.utf8, Text.len, List.length_flatMap]

theorem htmlResponse_lengthAgrees (hget : req.method = .get) (status : StatusCode) (content : Str) :
    LengthAgrees (htmlResponse req.method status content) := by
  have hhead : ¬ req.method = .head := by rw [hget]; decide
  unfold htmlResponse
  rw [if_neg hhead]
  exact Static.lengthAgrees_full (by simp +decide [Response.insertHeader_getAll, utf8_length]) rfl

theorem errorResponse_lengthAgrees (hget : req.method = .get) (t : FileTree) (status : StatusCode)
    (page404 page50x : Path) : LengthAgrees (errorResponse t req.method status page404 page50x) :=
  htmlResponse_lengthAgrees hget status _

theorem lengthAgrees_iff_of_changes {names : List HeaderName} {resp resp' : Response Body}
    (h : ChangesOnly names resp resp') (hlength : HeaderName.contentLength ∉ names) :
    LengthAgrees resp' ↔ LengthAgrees resp := by
  unfold LengthAgrees
  rw [h.kept _ hlength, h.body]

theorem postProcess_lengthAgrees_iff (hplain : PlainStages opts) (isMarkdown : Bool) (filePath : Option Path)
    (resp : Response Body) :
    LengthAgrees (postProcess crates opts req isMarkdown filePath resp) ↔ LengthAgrees resp := by
  rw [hplain.postProcess_eq]
  exact lengthAgrees_iff_of_changes ((((((corsPostProcess_changes opts req resp).trans
    (markdownPostProcess_changes isMarkdown opts _)).trans (textCharsetPostProcess_changes crates opts _)).trans
    (compressionStaticPostProcess_changes opts _)).trans (controlHeadersPostProcess_changes opts req _)).trans
    (securityHeadersPostProcess_changes opts _)) (by decide)

theorem earlyStages_lengthAgrees (h : AnswersItself crates w opts req) {resp : Response Body}
    (hresp : some resp ∈ earlyStages crates w opts req) : LengthAgrees resp := by
  simp only [earlyStages, h.noHealth, h.noMetrics, List.mem_cons, List.not_mem_nil, or_false, reduceCtorEq,
    false_or] at hresp
  rcases hresp with hcors | hauth | hmaintenance
  · obtain ⟨cors, _, hcors⟩ := Option.bind_eq_some_iff.mp hcors.symm
    split at hcors
    · cases hcors
    · cases hcors
      exact errorResponse_lengthAgrees h.get _ _ _ _
  · unfold basicAuthPreProcess at hauth
    split at hauth
    · cases hauth
    · split at hauth
      · cases hauth
      · split at hauth
        · cases hauth
          exact errorResponse_lengthAgrees h.get _ _ _ _
        · split at hauth
          · cases hauth
          · cases hauth
            have hasked := ChangesOnly.insertHeader
              (errorResponse w.tree req.method .unauthorized opts.page404 opts.page50x)
              (List.mem_singleton_self HeaderName.wwwAuthenticate)
            exact (lengthAgrees_iff_of_changes (hasked _) (by decide)).mpr (errorResponse_lengthAgrees h.get _ _ _ _)
  · unfold maintenancePreProcess at hmaintenance
    split at hmaintenance
    · cases hmaintenance
      exact htmlResponse_lengthAgrees h.get _ _
    · cases hmaintenance

theorem redirectResponse_lengthAgrees (hget : req.method = .get) {dest : Str} {status : StatusCode}
    {resp : Response Body} (h : redirectResponse w opts req dest status = some resp) : LengthAgrees resp := by
  unfold redirectResponse at h
  split at h
  · cases h
    exact errorResponse_lengthAgrees hget _ _ _ _
  · cases h
    exact Static.lengthAgrees_of_none rfl

theorem redirectsPreProcess_lengthAgrees (hget : req.method = .get) {resp : Response Body}
    (h : redirectsPreProcess crates w opts req = some resp) : LengthAgrees resp := by
  obtain ⟨redirects, _, h⟩ := Option.bind_eq_some_iff.mp h
  obtain ⟨matched, _, h⟩ := Option.bind_eq_some_iff.mp h
  split at h
  · cases h
    exact errorResponse_lengthAgrees hget _ _ _ _
  · exact redirectResponse_lengthAgrees hget h

theorem rewritesPreProcess_lengthAgrees (hget : req.method = .get) {resp : Response Body}
    (h : (rewritesPreProcess crates w opts req).1 = some resp) : LengthAgrees resp := by
  unfold rewritesPreProcess at h
  split at h
  · cases h
  · split at h
    · cases h
    · split at h
      · cases h
        exact errorResponse_lengthAgrees hget _ _ _ _
      · split at h
        · exact redirectResponse_lengthAgrees hget h
        · split at h
          · cases h
            exact errorResponse_lengthAgrees hget _ _ _ _
          · cases h

theorem ownStages_lengthAgrees (h : AnswersItself crates w opts req) {resp : Response Body}
    (hresp : ownStages crates w opts req = .inl resp) : LengthAgrees resp := by
  unfold ownStages at hresp
  cases hearly : (earlyStages crates w opts req).findSome? id with
  | some answer =>
      rw [hearly] at hresp
      cases hresp
      obtain ⟨stage, hmem, hstage⟩ := List.exists_of_findSome?_eq_some hearly
      exact earlyStages_lengthAgrees h (show some resp ∈ _ from hstage ▸ hmem)
  | none =>
      cases hredirects : redirectsPreProcess crates w opts req with
      | some answer =>
          rw [hearly, hredirects] at hresp
          cases hresp
          exact redirectsPreProcess_lengthAgrees h.get hredirects
      | none =>
          rcases hrewrites : rewritesPreProcess crates w opts req with ⟨_ | answer, req'⟩
          · rw [hearly, hredirects, hrewrites] at hresp
            cases hresp
          · rw [hearly, hredirects, hrewrites] at hresp
            cases hresp
            exact rewritesPreProcess_lengthAgrees h.get (congrArg Prod.fst hrewrites)

theorem serveStatic_lengthAgrees_iff (crates : Crates) (w : World) (hget : req.method = .get)
    (hrange : req.headers.getAll .range = []) (hplain : PlainStages opts) :
    (∀ resp, (serveStatic crates w opts req).result = .ok resp → LengthAgrees resp) ↔
      ∀ m file, Static.SendsFile crates.static w.tree w.store (fileCall crates w opts req) m file →
        m.metadata.size ≤ (file.content.getD []).length := by
  have hfiles := Static.handle_lengthAgrees_iff crates.static w.tree w.store
    (show (fileCall crates w opts req).method = .get from hget) hrange
  rw [← hfiles, serveStatic_eq]
  cases Static.handle crates.static w.tree w.store (fileCall crates w opts req) with
  | ok r =>
      simp only [Except.ok.injEq, forall_eq']
      exact postProcess_lengthAgrees_iff hplain _ _ _
  | error failure =>
      refine iff_of_true (fun resp hresp => ?_) fun r hr => nomatch hr
      cases failure with
      | status status =>
          cases hresp
          exact (postProcess_lengthAgrees_iff hplain _ _ _).mpr (errorResponse_lengthAgrees hget _ _ _ _)
      | panic => cases hresp

/-! ## GET and HEAD -/

/-- HEAD is answered with the status and the header fields that GET is answered with, and any length among them is
that of the body that GET gets. -/
structure HeadAlike (crates : Crates) (w : World) (opts : RequestHandlerOpts) (remoteIp : Option Str)
    (req : Request Body) : Prop where
  alike : (handle crates w opts remoteIp (asHead req)).result.map (fun resp => (resp.status, resp.headers)) =
    (handle crates w opts remoteIp req).result.map fun resp => (resp.status, resp.headers)
  length : ∀ resp, (handle crates w opts remoteIp req).result = .ok resp →
    ∀ v ∈ resp.headers.getAll .contentLength, ∃ data, resp.body.bytes = some data ∧ v = Static.decimal data.length

/-- A request that the handler answers itself is answered alike for HEAD, unless a file is sent that gives fewer
bytes than its metadata says, as a directory does. -/
theorem headAlike_iff (h : AnswersItself crates w opts req) (remoteIp : Option Str) :
    HeadAlike crates w opts remoteIp req ↔
      ∀ req' m file, ReachesFiles crates w opts remoteIp req req' →
        Static.SendsFile crates.static w.tree w.store (fileCall crates w opts req') m file →
        m.metadata.size ≤ (file.content.getD []).length := by
  have hlengths : HeadAlike crates w opts remoteIp req ↔
      ∀ resp, (handle crates w opts remoteIp req).result = .ok resp → LengthAgrees resp :=
    ⟨fun halike => halike.length, fun hlength => ⟨handle_head h remoteIp, hlength⟩⟩
  rw [hlengths, handle_eq_beforeFiles, h.beforeFiles_eq]
  cases hown : ownStages crates w opts req with
  | inl answer =>
      refine iff_of_true (fun resp hresp => ?_) fun req' m file hreach => ?_
      · cases hresp
        exact ownStages_lengthAgrees h hown
      · cases hown.symm.trans (ownStages_of_reachesFiles hreach)
  | inr req' =>
      have hreach := h.reachesFiles remoteIp hown
      have hserve := serveStatic_lengthAgrees_iff crates w (hreach.method.trans h.get)
        ((hreach.headers (by decide)).trans h.noRange) h.plain
      refine Iff.trans hserve ⟨fun hfiles req'' m file hreach' => ?_, fun hfiles m file => hfiles req' m file hreach⟩
      cases hown.symm.trans (ownStages_of_reachesFiles hreach')
      exact hfiles m file

def plainOpts : RequestHandlerOpts := { sampleOpts with compression := false, advancedOpts := none }

/-- `/srv/docs.html` is a directory, `/srv/page.html` is a file. -/
def docsWorld : World :=
  { sampleWorld with tree :=
      { nodes :=
          [ ([], Static.sampleDir [Static.named "srv"]),
            ([Static.named "srv"], Static.sampleDir [Static.named "docs.html", Static.named "page.html"]),
            ([Static.named "srv", Static.named "docs.html"], Static.sampleDir []),
            ([Static.named "srv", Static.named "page.html"], Static.sampleFile (Static.named "hello")) ]
        cwd := [], symloopMax := 40, wf := by decide } }

def docsRequest (path : Str) (h : path.all isPathChar = true) : Request Body :=
  { method := .get, uri := ⟨none, none, some ⟨path, none, h, PathAndQuery.legal_none⟩⟩, headers := []
    body := .empty }

theorem docsRequest_answersItself (path : Str) (h : path.all isPathChar = true) :
    AnswersItself sampleCrates docsWorld plainOpts (docsRequest path h) where
  get := rfl
  noRange := rfl
  noHealth := rfl
  noMetrics := rfl
  noRule := fun _ _ => rfl
  plain := ⟨rfl, rfl, rfl⟩

/-- The directory is opened as if it were the page, and its own size is announced for a body that cannot be read. -/
theorem directory_announces_length :
    AnswersItself sampleCrates docsWorld plainOpts (docsRequest "/docs".toList (by decide)) ∧
      ¬ HeadAlike sampleCrates docsWorld plainOpts none (docsRequest "/docs".toList (by decide)) := by
  refine ⟨docsRequest_answersItself _ _, fun h => ?_⟩
  have hreply : (handle sampleCrates docsWorld plainOpts none
      (docsRequest "/docs".toList (by decide))).result.toOption.any
      (fun resp => resp.headers.getAll .contentLength ≠ [] ∧ resp.body.bytes = none) = true := by decide +kernel
  obtain ⟨resp, hresp, hfields⟩ := (Option.any_eq_true _ _).mp hreply
  rw [Checked.toOption_eq_some] at hresp
  rw [decide_eq_true_eq] at hfields
  obtain ⟨v, hv⟩ := List.exists_mem_of_ne_nil _ hfields.1
  obtain ⟨data, hdata, _⟩ := h.length resp hresp v hv
  cases hfields.2.symm.trans hdata

theorem headAlike_iff_page :
    HeadAlike sampleCrates docsWorld plainOpts none (docsRequest "/page".toList (by decide)) ↔
      ∀ req' m file, ReachesFiles sampleCrates docsWorld plainOpts none (docsRequest "/page".toList (by decide)) req' →
        Static.SendsFile sampleCrates.static docsWorld.tree docsWorld.store
          (fileCall sampleCrates docsWorld plainOpts req') m file →
        m.metadata.size ≤ (file.content.getD []).length :=
  headAlike_iff (docsRequest_answersItself _ _) none

end WeaveGate.Handler
