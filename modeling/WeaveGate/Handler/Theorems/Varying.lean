import WeaveGate.Handler.Theorems.Head
import WeaveGate.Handler.Theorems.Vary
import WeaveGate.Static.Lemmas.Fields

/-!
# What an answer depends on

Requests that differ in one header field, and the answers that the handler gives them itself. A field matters if a stage
reads it. `Accept-Encoding` is one of these, and an answer that depends on it names it in `Vary`.
-/

namespace WeaveGate.Handler

open Http Settings
open Static (Body)

variable {crates : Crates} {w : World} {opts : RequestHandlerOpts} {remoteIp : Option Str} {req req' : Request Body}
  {name : HeaderName}

/-! ## Requests that differ in one field -/

/-- The requests are the same, except for the lines of the field and perhaps their bodies. -/
structure SameBut (name : HeaderName) (req req' : Request Body) : Prop where
  method : req'.method = req.method
  uri : req'.uri = req.uri
  headers : ∀ other, other ≠ name → req'.headers.getAll other = req.headers.getAll other

/-- The fields that the stages read, besides `Accept-Encoding`. -/
def readFields : List HeaderName :=
  [.host, .origin, .accessControlRequestMethod, .accessControlRequestHeaders, .authorization, .accept] ++
    Static.conditionFields

theorem SameBut.getAll (h : SameBut name req req') (hname : name ∉ readFields) {other : HeaderName}
    (hother : other ∈ readFields) : req'.headers.getAll other = req.headers.getAll other :=
  h.headers other fun heq => hname (heq ▸ hother)

theorem SameBut.get? (h : SameBut name req req') (hname : name ∉ readFields) {other : HeaderName}
    (hother : other ∈ readFields) : req'.headers.get? other = req.headers.get? other :=
  congrArg List.head? (h.getAll hname hother)

/-! ## Stages before the files -/

theorem corsCheck_congr (h : SameBut name req req') (hname : name ∉ readFields) (cors : Configured) :
    cors.checkRequest req.method req'.headers = cors.checkRequest req.method req.headers := by
  unfold Configured.checkRequest Configured.requestHeadersAllowed
  rw [h.get? hname (by decide), h.get? hname (by decide), h.get? hname (by decide)]

theorem earlyStages_congr (h : SameBut name req req') (hname : name ∉ readFields) :
    earlyStages crates w opts req' = earlyStages crates w opts req := by
  have hcors : corsPreProcess w opts req' = corsPreProcess w opts req := by
    unfold corsPreProcess
    simp only [h.method, corsCheck_congr h hname]
  have hauth : basicAuthPreProcess crates w opts req' = basicAuthPreProcess crates w opts req := by
    unfold basicAuthPreProcess checkRequest
    rw [h.method, Static.typedGet_congr crates.basicCredentials (h.getAll hname (by decide))]
  unfold earlyStages healthPreProcess metricsPreProcess maintenancePreProcess
  rw [hcors, hauth, h.method, h.uri]

theorem redirectsPreProcess_congr (h : SameBut name req req') (hname : name ∉ readFields) :
    redirectsPreProcess crates w opts req' = redirectsPreProcess crates w opts req := by
  unfold redirectsPreProcess redirectHost redirectResponse handleError
  rw [h.method, h.uri, h.get? hname (by decide)]

theorem SameBut.adjustHost (h : SameBut name req req') : SameBut name (adjustHost req) (adjustHost req') := by
  unfold Handler.adjustHost
  rw [h.uri]
  cases req.uri.authority with
  | none => exact h
  | some authority =>
      dsimp only
      cases HeaderValue.fromStr _ with
      | none => exact h
      | some value =>
          refine ⟨h.method, rfl, fun other hother => ?_⟩
          change (req'.headers.insert HeaderName.host value).getAll other = (req.headers.insert HeaderName.host value).getAll other
          by_cases hhost : HeaderName.host = other
          · rw [← hhost, Multimap.getAll_insert_self, Multimap.getAll_insert_self]
          · rw [Multimap.getAll_insert_of_ne hhost, Multimap.getAll_insert_of_ne hhost, h.headers other hother]

/-- A rewrite gives both the same answer, or goes on with requests that differ in the one field. -/
theorem rewritesPreProcess_congr (crates : Crates) (w : World) (opts : RequestHandlerOpts) (h : SameBut name req req') :
    (rewritesPreProcess crates w opts req').1 = (rewritesPreProcess crates w opts req).1 ∧
      SameBut name (rewritesPreProcess crates w opts req).2 (rewritesPreProcess crates w opts req').2 := by
  unfold rewritesPreProcess redirectResponse handleError
  rw [h.method, h.uri]
  split
  · exact ⟨rfl, h⟩
  · split
    · exact ⟨rfl, h⟩
    · split
      · exact ⟨rfl, h⟩
      · split
        · exact ⟨rfl, h⟩
        · split
          · exact ⟨rfl, h⟩
          · rename_i uri _
            have hmoved : SameBut name { req with uri } ⟨req.method, uri, req'.headers, req'.body⟩ := ⟨rfl, rfl, h.headers⟩
            exact ⟨rfl, hmoved.adjustHost⟩

/-- The stages give both the same answer, or both come to the files. -/
inductive SameStages (name : HeaderName) : Response Body ⊕ Request Body → Response Body ⊕ Request Body → Prop where
  | answer (resp : Response Body) : SameStages name (.inl resp) (.inl resp)
  | files {r r' : Request Body} (same : SameBut name r r') : SameStages name (.inr r) (.inr r')

theorem ownStages_congr (crates : Crates) (w : World) (opts : RequestHandlerOpts) (h : SameBut name req req') (hname : name ∉ readFields) :
    SameStages name (ownStages crates w opts req) (ownStages crates w opts req') := by
  unfold ownStages
  rw [earlyStages_congr h hname, redirectsPreProcess_congr h hname]
  obtain ⟨hanswer, hrest⟩ := rewritesPreProcess_congr crates w opts h
  cases (earlyStages crates w opts req).findSome? id with
  | some resp => exact .answer resp
  | none =>
      cases redirectsPreProcess crates w opts req with
      | some resp => exact .answer resp
      | none =>
          rcases hreq : rewritesPreProcess crates w opts req with ⟨answer, r⟩
          rcases hreq' : rewritesPreProcess crates w opts req' with ⟨answer', r'⟩
          rw [hreq, hreq'] at hanswer hrest
          cases (hanswer : answer' = answer)
          cases answer with
          | some resp => exact .answer resp
          | none => exact .files hrest

theorem handle_eq_ownStages (hrule : MatchesNoRule crates w opts req) : handle crates w opts remoteIp req =
    if Static.isAllowed req.method then (ownStages crates w opts req).elim .answer (serveStatic crates w opts)
    else .answer (errorPage w opts req .methodNotAllowed) := by
  by_cases hallowed : Static.isAllowed req.method = true
  · rw [handle_eq_beforeFiles, beforeFiles_of_matchesNoRule hallowed hrule, if_pos hallowed]
    cases ownStages crates w opts req <;> rfl
  · unfold handle
    rw [if_neg hallowed, if_pos (by simpa using hallowed)]

/-! ## Stages behind the files -/

/-- No custom field of the configuration takes the place of `Vary`. -/
theorem customVary_eq_none (h : HeaderName.vary ∉ customNames opts) (filePath : Option Posix.Path) :
    customVary crates opts req filePath = none := by
  have hnone : (customFields crates opts req filePath).getAll HeaderName.vary = [] := by
    rw [Multimap.getAll, List.map_eq_nil_iff, List.filter_eq_nil_iff]
    intro field hfield heq
    obtain ⟨entry, hentry, hfield⟩ := List.mem_flatMap.mp hfield
    refine h (List.mem_flatMap.mpr ⟨entry, List.mem_of_mem_filter hentry, ?_⟩)
    exact of_decide_eq_true heq ▸ List.mem_map_of_mem hfield
  rw [customVary, hnone]
  rfl

theorem varyText_of_none {resp : Response Body} (h : resp.headers.getAll .vary = []) : varyText resp = [] := by
  rw [varyText, Multimap.get?, h]
  rfl

/-- A response without `Vary` that a compression works on names `accept-encoding` in the end. -/
theorem encodingName_mem (hcustom : HeaderName.vary ∉ customNames opts) {resp : Response Body}
    (hvary : resp.headers.getAll .vary = []) (hcodes : codes opts (fallbackPostProcess opts req resp) = true)
    (isMarkdown : Bool) (filePath : Option Posix.Path) :
    encodingName ∈ varyNames (postProcess crates opts req isMarkdown filePath resp) := by
  rw [postProcess_names, customVary_eq_none hcustom]
  dsimp only
  rw [coded_names, hcodes]
  unfold passedNames
  have hfallback : (fallbackPostProcess opts req resp).headers.getAll .vary = [] := by
    unfold fallbackPostProcess
    split
    · simp +decide [fallbackResponse, Response.insertHeader_getAll, Response.new]
    · exact hvary
  cases corsAdds opts req with
  | true => simp
  | false =>
      have hnew : encodingName ∈ appended (!opts.compressionStatic) [] := by
        cases opts.compressionStatic <;> decide
      simp only [Bool.false_eq_true, if_false, if_true, codedNames, varyText_of_none hfallback]
      exact List.mem_append_right _ hnew

theorem fallbackPostProcess_congr (opts : RequestHandlerOpts) (h : SameBut name req req') (resp : Response Body) :
    fallbackPostProcess opts req' resp = fallbackPostProcess opts req resp := by
  unfold fallbackPostProcess
  rw [h.method]

/-- The stages behind the files give both the same answer, unless a compression looks at `Accept-Encoding`. -/
theorem postProcess_congr (h : SameBut name req req') (hname : name ∉ readFields) {isMarkdown : Bool}
    {filePath : Option Posix.Path} {resp : Response Body}
    (hcodes : name = .acceptEncoding → codes opts (fallbackPostProcess opts req resp) = false) :
    postProcess crates opts req' isMarkdown filePath resp = postProcess crates opts req isMarkdown filePath resp := by
  have hfallback := fallbackPostProcess_congr opts h resp
  have hcors : ∀ resp, corsPostProcess opts req' resp = corsPostProcess opts req resp := by
    intro resp
    unfold corsPostProcess
    simp only [h.method, corsCheck_congr h hname]
  have hbefore : beforeCompression crates opts req' isMarkdown resp = beforeCompression crates opts req isMarkdown resp := by
    unfold beforeCompression
    rw [hfallback, hcors]
  have hcompression : compressionPostProcess crates opts req' (beforeCompression crates opts req isMarkdown resp) =
      compressionPostProcess crates opts req (beforeCompression crates opts req isMarkdown resp) := by
    by_cases hcoding : name = .acceptEncoding
    · have hoff := hcodes hcoding
      unfold codes at hoff
      rw [Bool.or_eq_false_iff] at hoff
      unfold compressionPostProcess
      split
      · rfl
      · rename_i hon
        have hencoded : (fallbackPostProcess opts req resp).headers.getAll .contentEncoding ≠ [] := by
          rw [Bool.not_eq_true, Bool.not_eq_false'] at hon
          simpa [hon] using hoff.2
        rw [← beforeCompression_contentEncoding isMarkdown resp] at hencoded
        rw [if_pos ((get?_isSome_iff _ _).mpr hencoded), if_pos ((get?_isSome_iff _ _).mpr hencoded)]
    · unfold compressionPostProcess auto getPreferredEncoding Static.sortedEncodings
      rw [h.method, h.headers .acceptEncoding (Ne.symm hcoding)]
  rw [postProcess_eq, postProcess_eq, hbefore, hcompression]
  unfold afterCompression customHeadersPostProcess controlHeadersPostProcess
  rw [h.uri]

/-- Answers that are different were made by a compression that looked at `Accept-Encoding`, and say so. -/
def Declared (name : HeaderName) (resp resp' : Response Body) : Prop :=
  resp' ≠ resp → name = .acceptEncoding ∧ encodingName ∈ varyNames resp ∧ encodingName ∈ varyNames resp'

theorem postProcess_declared (h : SameBut name req req') (hname : name ∉ readFields)
    (hcustom : HeaderName.vary ∉ customNames opts) {resp : Response Body} (hvary : resp.headers.getAll .vary = [])
    (isMarkdown : Bool) (filePath : Option Posix.Path) : Declared name (postProcess crates opts req isMarkdown filePath resp)
      (postProcess crates opts req' isMarkdown filePath resp) := by
  intro hne
  by_cases hcoding : name = .acceptEncoding
  · cases hcodes : codes opts (fallbackPostProcess opts req resp) with
    | false => exact absurd (postProcess_congr h hname fun _ => hcodes) hne
    | true =>
        refine ⟨hcoding, encodingName_mem hcustom hvary hcodes isMarkdown filePath, ?_⟩
        rw [← fallbackPostProcess_congr opts h] at hcodes
        exact encodingName_mem hcustom hvary hcodes isMarkdown filePath
  · exact absurd (postProcess_congr h hname fun heq => absurd heq hcoding) hne

/-! ## The files -/

theorem errorPage_vary (w : World) (opts : RequestHandlerOpts) (req : Request Body) (status : StatusCode) :
    (errorPage w opts req status).headers.getAll .vary = [] := by
  unfold errorPage errorResponse htmlResponse
  simp +decide [Response.insertHeader_getAll, Response.new]

/-- With static compression, every answer from the files lists `Accept-Encoding`. -/
theorem serveStatic_names (hcustom : HeaderName.vary ∉ customNames opts) (hstatic : opts.compressionStatic = true)
    {resp : Response Body} (hresp : (serveStatic crates w opts req).result = .ok resp) :
    encodingName ∈ varyNames resp := by
  have hcodes : ∀ resp : Response Body, codes opts resp = true := fun resp => by simp [codes, hstatic]
  unfold serveStatic at hresp
  dsimp only at hresp
  split at hresp
  · rename_i hr
    cases hresp
    exact encodingName_mem hcustom ((Static.handle_fields hr).getAll (by decide)) (hcodes _) _ _
  · cases hresp
    exact encodingName_mem hcustom (errorPage_vary w opts req _) (hcodes _) _ _
  · cases hresp

theorem realRoot_congr (h : SameBut name req req') (hname : name ∉ readFields) :
    getRealRoot req' = getRealRoot req := by
  funext vhosts
  unfold getRealRoot requestHostStr
  rw [h.uri, h.get? hname (by decide)]

theorem markdownPreProcess_congr (h : SameBut name req req') (hname : name ∉ readFields) (basePath : Posix.Path) :
    markdownPreProcess crates w.tree req'.headers basePath req.uri.path =
      markdownPreProcess crates w.tree req.headers basePath req.uri.path := by
  unfold markdownPreProcess accepts
  rw [h.getAll hname (by decide)]

theorem errorPage_congr (h : SameBut name req req') (status : StatusCode) :
    errorPage w opts req' status = errorPage w opts req status := by
  unfold errorPage
  rw [h.method]

theorem staticCall_congr (h : SameBut name req req') (basePath : Posix.Path) (uriPath : Str) :
    staticCall opts req' basePath uriPath = { staticCall opts req basePath uriPath with headers := req'.headers } := by
  unfold staticCall
  rw [h.method, h.uri]

theorem serveStatic_declared (h : SameBut name req req') (hname : name ∉ readFields)
    (hcustom : HeaderName.vary ∉ customNames opts) {resp resp' : Response Body}
    (hresp : (serveStatic crates w opts req).result = .ok resp)
    (hresp' : (serveStatic crates w opts req').result = .ok resp') : Declared name resp resp' := by
  by_cases hstatic : name = .acceptEncoding ∧ opts.compressionStatic = true
  · exact fun _ => ⟨hstatic.1, serveStatic_names hcustom hstatic.2 hresp, serveStatic_names hcustom hstatic.2 hresp'⟩
  · unfold serveStatic at hresp hresp'
    rw [realRoot_congr h hname] at hresp'
    simp only [markdownPreProcess_congr h hname, h.uri] at hresp hresp'
    generalize (opts.advancedOpts.bind fun adv => getRealRoot req adv.virtualHosts).getD opts.rootDir = basePath
      at hresp hresp'
    generalize (if opts.acceptMarkdown then markdownPreProcess crates w.tree req.headers basePath req.uri.path else none) =
      md at hresp hresp'
    have hsame : Static.handle crates.static w.tree w.store
        { staticCall opts req basePath (md.getD req.uri.path) with headers := req'.headers } =
        Static.handle crates.static w.tree w.store (staticCall opts req basePath (md.getD req.uri.path)) := by
      refine Static.handle_congr w.store (fun other hother => ?_) fun hon => ?_
      · exact h.getAll hname (List.mem_append_right _ hother)
      · exact h.headers _ fun heq => hstatic ⟨heq.symm, hon⟩
    rw [staticCall_congr h, hsame] at hresp'
    split at hresp
    · rename_i hr
      rw [hr] at hresp'
      cases hresp
      cases hresp'
      exact postProcess_declared h hname hcustom ((Static.handle_fields hr).getAll (by decide)) _ _
    · rename_i hr
      rw [hr] at hresp'
      cases hresp
      cases hresp'
      rw [errorPage_congr h]
      exact postProcess_declared h hname hcustom (errorPage_vary w opts req _) _ _
    · cases hresp

/-- A field that no stage is known to read changes nothing. Only `Accept-Encoding` may, and then both answers list it in
`Vary`, so that no cache gives one of them for the other. -/
theorem answers_declare (h : SameBut name req req') (hname : name ∉ readFields)
    (hcustom : HeaderName.vary ∉ customNames opts) (hrule : MatchesNoRule crates w opts req)
    (hrule' : MatchesNoRule crates w opts req') {resp resp' : Response Body}
    (hresp : (handle crates w opts remoteIp req).result = .ok resp)
    (hresp' : (handle crates w opts remoteIp req').result = .ok resp') : Declared name resp resp' := by
  rw [handle_eq_ownStages hrule] at hresp
  rw [handle_eq_ownStages hrule', h.method] at hresp'
  split at hresp
  · rename_i hallowed
    rw [if_pos hallowed] at hresp'
    have hstages := ownStages_congr crates w opts h hname
    generalize ownStages crates w opts req = stages at hstages hresp
    generalize ownStages crates w opts req' = stages' at hstages hresp'
    cases hstages with
    | answer answer =>
        cases hresp
        cases hresp'
        exact fun hne => absurd rfl hne
    | files same => exact serveStatic_declared same hname hcustom hresp hresp'
  · rename_i hallowed
    rw [if_neg hallowed] at hresp'
    cases hresp
    cases hresp'
    unfold errorPage
    rw [h.method]
    exact fun hne => absurd rfl hne

def compressingOpts : RequestHandlerOpts := { plainOpts with compression := true }

def gzipRequest (path : Str) (h : path.all isPathChar = true) : Request Body :=
  { docsRequest path h with headers := [(.acceptEncoding, Static.named "gzip")] }

theorem gzipRequest_sameBut (path : Str) (h : path.all isPathChar = true) :
    SameBut .acceptEncoding (docsRequest path h) (gzipRequest path h) :=
  ⟨rfl, rfl, fun other hother => by simp [gzipRequest, docsRequest, Multimap.getAll, Ne.symm hother]⟩

/-- Only one of the two answers is compressed, and both have the name. -/
theorem answers_declare_gzip : ∃ resp resp',
    (handle sampleCrates docsWorld compressingOpts none (docsRequest "/page".toList (by decide))).result = .ok resp ∧
    (handle sampleCrates docsWorld compressingOpts none (gzipRequest "/page".toList (by decide))).result = .ok resp' ∧
    resp' ≠ resp ∧ encodingName ∈ varyNames resp ∧ encodingName ∈ varyNames resp' := by
  have hplain : (handle sampleCrates docsWorld compressingOpts none
      (docsRequest "/page".toList (by decide))).result.toOption.any
      (fun resp => resp.headers.getAll .contentEncoding = []) = true := by decide +kernel
  have hgzip : (handle sampleCrates docsWorld compressingOpts none
      (gzipRequest "/page".toList (by decide))).result.toOption.any
      (fun resp => resp.headers.getAll .contentEncoding ≠ []) = true := by decide +kernel
  obtain ⟨resp, hresp, hnone⟩ := (Option.any_eq_true _ _).mp hplain
  obtain ⟨resp', hresp', hsome⟩ := (Option.any_eq_true _ _).mp hgzip
  rw [Checked.toOption_eq_some] at hresp hresp'
  rw [decide_eq_true_eq] at hnone hsome
  have hne : resp' ≠ resp := fun heq => hsome (heq ▸ hnone)
  have hnoRule : ∀ req, MatchesNoRule sampleCrates docsWorld compressingOpts req := fun _ _ _ => rfl
  have hdeclared : Declared .acceptEncoding resp resp' :=
    answers_declare (gzipRequest_sameBut _ _) (by decide) (by decide) (hnoRule _) (hnoRule _) hresp hresp'
  exact ⟨resp, resp', hresp, hresp', hne, (hdeclared hne).2⟩

end WeaveGate.Handler
