import WeaveGate.Handler.Handle
import WeaveGate.Proxy.Lemmas.Exchange

/-!
# What the stages leave alone

When a stage lets a request through, which fields of a response a later stage keeps, and what is left of the
handler when no stage before the proxy answers.
-/

namespace WeaveGate.Handler

open Http Settings
open Static (Body)

variable {crates : Crates} {w : World} {opts : RequestHandlerOpts} {remoteIp : Option Str} {req : Request Body}

/-! ## CORS fields -/

theorem foldl_insertHeader (fields : HeaderMap) (resp : Response Body) :
    ∃ headers, fields.foldl (fun resp (k, v) => resp.insertHeader k v) resp = { resp with headers } := by
  refine List.foldlRecOn (motive := fun resp' : Response Body => ∃ headers, resp' = { resp with headers })
    fields _ ⟨resp.headers, rfl⟩ ?_
  rintro _ ⟨headers, rfl⟩ field _
  exact ⟨_, rfl⟩

/-- Only the header fields of a response change. -/
theorem corsPostProcess_eq (opts : RequestHandlerOpts) (req : Request Body) (resp : Response Body) :
    ∃ headers, corsPostProcess opts req resp = { resp with headers } := by
  unfold corsPostProcess
  split
  · exact ⟨resp.headers, rfl⟩
  · split
    · exact ⟨resp.headers, rfl⟩
    · split
      · exact ⟨resp.headers, rfl⟩
      · obtain ⟨headers, h⟩ := foldl_insertHeader _ resp
        rw [h]
        exact ⟨_, rfl⟩

theorem proxyAnswer_eq (w : World) (opts : RequestHandlerOpts) (req : Request Body) (resp : Response Body) :
    ∃ headers, proxyAnswer w opts req (.ok resp) = { resp with headers } := by
  simp only [proxyAnswer]
  split
  · exact ⟨resp.headers, rfl⟩
  · exact corsPostProcess_eq opts req resp

/-! ## Requests that a rewrite changes -/

/-- Only the `Host` of a request changes. -/
theorem adjustHost_eq (req : Request Body) : ∃ headers : HeaderMap, adjustHost req = { req with headers } ∧
    ∀ name, name ≠ HeaderName.host → headers.getAll name = req.headers.getAll name := by
  unfold adjustHost
  cases req.uri.authority with
  | none => exact ⟨req.headers, rfl, fun _ _ => rfl⟩
  | some authority =>
      dsimp only
      cases HeaderValue.fromStr _ with
      | none => exact ⟨req.headers, rfl, fun _ _ => rfl⟩
      | some value => exact ⟨_, rfl, fun _ hname => Multimap.getAll_insert_of_ne hname.symm⟩

theorem rewritesPreProcess_kept (crates : Crates) (w : World) (opts : RequestHandlerOpts) (req : Request Body) :
    (rewritesPreProcess crates w opts req).2.method = req.method ∧
      ∀ name, name ≠ HeaderName.host →
        (rewritesPreProcess crates w opts req).2.headers.getAll name = req.headers.getAll name := by
  unfold rewritesPreProcess
  split
  · exact ⟨rfl, fun _ _ => rfl⟩
  · split
    · exact ⟨rfl, fun _ _ => rfl⟩
    · split
      · exact ⟨rfl, fun _ _ => rfl⟩
      · split
        · exact ⟨rfl, fun _ _ => rfl⟩
        · split
          · exact ⟨rfl, fun _ _ => rfl⟩
          · rename_i uri _
            obtain ⟨headers, heq, hkept⟩ := adjustHost_eq { req with uri }
            rw [heq]
            exact ⟨rfl, hkept⟩

theorem rewritesPreProcess_method : (rewritesPreProcess crates w opts req).2.method = req.method :=
  (rewritesPreProcess_kept crates w opts req).1

theorem rewritesPreProcess_headers {name : HeaderName} (h : name ≠ HeaderName.host) :
    (rewritesPreProcess crates w opts req).2.headers.getAll name = req.headers.getAll name :=
  (rewritesPreProcess_kept crates w opts req).2 name h

/-! ## Stages that let a request through -/

/-- Neither an early stage nor a redirect nor a rewrite concerns the request. -/
structure PassesStages (crates : Crates) (w : World) (opts : RequestHandlerOpts) (req : Request Body) : Prop where
  early : ∀ answer ∈ earlyStages crates w opts req, answer = none
  redirects : getRedirection crates (redirectHost req) req.uri.path
    ((opts.advancedOpts.bind (·.redirects)).getD []) = none
  rewrites : rewriteUriPath crates req.uri.path ((opts.advancedOpts.bind (·.rewrites)).getD []) = none

theorem redirectsPreProcess_eq_none (h : PassesStages crates w opts req) :
    redirectsPreProcess crates w opts req = none := by
  have hno := h.redirects
  unfold redirectsPreProcess
  cases hr : opts.advancedOpts.bind (·.redirects) with
  | none => rfl
  | some redirects =>
      rw [hr] at hno
      simp only [Option.getD_some] at hno
      simp [bind, hno]

theorem rewritesPreProcess_eq (h : PassesStages crates w opts req) :
    rewritesPreProcess crates w opts req = (none, req) := by
  have hno := h.rewrites
  unfold rewritesPreProcess
  cases hr : opts.advancedOpts.bind (·.rewrites) with
  | none => rfl
  | some rewrites =>
      rw [hr] at hno
      simp only [Option.getD_some] at hno
      simp [hno]

/-! ## The handler without its early stages -/

theorem handle_of_not_allowed (h : Static.isAllowed req.method = false) :
    handle crates w opts remoteIp req = .answer (errorPage w opts req .methodNotAllowed) := by
  simp [handle, h]

theorem handle_of_tryReverseProxy {o : Outcome} (hallowed : Static.isAllowed req.method = true)
    (hpass : PassesStages crates w opts req) (ho : tryReverseProxy crates w opts remoteIp req = some o) :
    handle crates w opts remoteIp req = o := by
  have hearly : (earlyStages crates w opts req).findSome? id = none :=
    List.findSome?_eq_none_iff.mpr hpass.early
  unfold handle
  rw [if_neg (by simp [hallowed]), hearly]
  by_cases hfirst : opts.proxyFirst = true
  · simp [hfirst, ho]
  · simp [hfirst, handleRouted, redirectsPreProcess_eq_none hpass, rewritesPreProcess_eq hpass, ho]

theorem tryReverseProxy_eq {x : Proxy.Exchange Body}
    (h : Proxy.preProcess crates.parseUri crates.globs .empty (opts.advancedOpts.bind (·.proxies)) opts.proxyClient
      w.permits w.ticket req remoteIp = some x) :
    tryReverseProxy crates w opts remoteIp req = some ⟨x.sent, none, .ok (proxyAnswer w opts req x.result)⟩ := by
  simp [tryReverseProxy, h]

end WeaveGate.Handler
