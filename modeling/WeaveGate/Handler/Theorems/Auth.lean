import WeaveGate.Handler.Lemmas.Auth
import WeaveGate.Handler.Theorems
import WeaveGate.Static.Theorems.MemCache

/-!
# Requests without the right password

What a client learns that fails basic authentication. OPTIONS requests are not asked for a password.
-/

namespace WeaveGate.Handler

open Http Settings
open Posix (Path FileTree)
open Static (Body)

variable {crates : Crates} {w : World} {opts : RequestHandlerOpts} {remoteIp : Option Str} {req : Request Body}
  {userid password : Str} {status : StatusCode}

/-! ## Keeping out -/

/-- The answer does not depend on any file but the error pages, and nothing else was asked. -/
structure RefusesUnread (crates : Crates) (w : World) (opts : RequestHandlerOpts) (remoteIp : Option Str)
    (req : Request Body) : Prop where
  sent : (handle crates w opts remoteIp req).sent = []
  noStatic : (handle crates w opts remoteIp req).staticCall = none
  answers : ∃ resp, (handle crates w opts remoteIp req).result = .ok resp
  unread : ∀ w', World.SamePages opts w w' → handle crates w' opts remoteIp req = handle crates w opts remoteIp req

/-- With other bytes in the files and in the cache, the body of the answer is the same. -/
structure DisclosesNothing (crates : Crates) (w : World) (opts : RequestHandlerOpts) (remoteIp : Option Str)
    (req : Request Body) : Prop where
  sameBody : ∀ w', World.OtherBytes opts w w' → (handle crates w' opts remoteIp req).result.map (·.body) =
    (handle crates w opts remoteIp req).result.map (·.body)
  noArchive : ∀ call resp job, (handle crates w opts remoteIp req).staticCall = some call →
    (handle crates w opts remoteIp req).result = .ok resp → resp.body ≠ .archive job

structure KeepsOut (crates : Crates) (w : World) (opts : RequestHandlerOpts) (remoteIp : Option Str)
    (req : Request Body) : Prop where
  refused : req.method ≠ .options → RefusesUnread crates w opts remoteIp req
  options : req.method = .options → DisclosesNothing crates w opts remoteIp req

/-! ## Refused requests -/

theorem basicAuthPreProcess_of_failed (hmethod : req.method ≠ .options)
    (hpair : Text.splitOnce ':' opts.basicAuth = some (userid, password))
    (hfail : checkRequest crates req.headers userid password = .error status) :
    (basicAuthPreProcess crates w opts req).isSome = true := by
  have hon : opts.basicAuth ≠ [] := by
    intro hempty
    rw [hempty] at hpair
    cases hpair
  unfold basicAuthPreProcess
  rw [if_neg hon, if_neg hmethod, hpair]
  simp only [hfail, Option.isSome_some]

/-- The stages before the password let no request through that it refuses. -/
theorem handle_of_failed (remoteIp : Option Str) (hmethod : req.method ≠ .options)
    (hpair : Text.splitOnce ':' opts.basicAuth = some (userid, password))
    (hfail : checkRequest crates req.headers userid password = .error status)
    (hhealth : healthPreProcess opts req = none) (hmetrics : metricsPreProcess w opts req = none) :
    handle crates w opts remoteIp req = .answer (
      if Static.isAllowed req.method then
        (corsPreProcess w opts req).getD ((basicAuthPreProcess crates w opts req).getD (errorPage w opts req status))
      else errorPage w opts req .methodNotAllowed) := by
  by_cases hallowed : Static.isAllowed req.method = true
  · obtain ⟨resp, hauth⟩ := Option.isSome_iff_exists.mp
      (basicAuthPreProcess_of_failed (w := w) hmethod hpair hfail)
    unfold handle earlyStages
    rw [hhealth, hmetrics, hauth, hallowed]
    cases corsPreProcess w opts req <;> rfl
  · rw [if_neg hallowed]
    exact handle_of_not_allowed (by simpa using hallowed)

theorem metricsPreProcess_none (w' : World) (h : metricsPreProcess w opts req = none) :
    metricsPreProcess w' opts req = none := by
  unfold metricsPreProcess at h ⊢
  split_ifs at h ⊢ <;> rfl

theorem refusesUnread (hmethod : req.method ≠ .options)
    (hpair : Text.splitOnce ':' opts.basicAuth = some (userid, password))
    (hfail : checkRequest crates req.headers userid password = .error status)
    (hhealth : healthPreProcess opts req = none) (hmetrics : metricsPreProcess w opts req = none) :
    RefusesUnread crates w opts remoteIp req := by
  have hrefused := handle_of_failed remoteIp hmethod hpair hfail hhealth hmetrics
  refine ⟨by rw [hrefused]; rfl, by rw [hrefused]; rfl, ⟨_, by rw [hrefused]; rfl⟩, fun w' hpages => ?_⟩
  rw [hrefused, handle_of_failed remoteIp hmethod hpair hfail hhealth (metricsPreProcess_none w' hmetrics),
    hpages.corsPreProcess_eq, hpages.basicAuthPreProcess_eq, hpages.errorPage_eq]

/-! ## OPTIONS -/

theorem handle_of_reachesFiles {req' : Request Body} (h : ReachesFiles crates w opts remoteIp req req') :
    handle crates w opts remoteIp req = serveStatic crates w opts req' := by
  rw [handle_eq_beforeFiles, beforeFiles_of_reachesFiles h]
  rfl

theorem ReachesFiles.method {req' : Request Body} (h : ReachesFiles crates w opts remoteIp req req') :
    req'.method = req.method := by
  have hkept : (rewritesPreProcess crates w opts req).2.method = req.method := rewritesPreProcess_method
  rw [h.rewrites] at hkept
  exact hkept

theorem ReachesFiles.headers {req' : Request Body} (h : ReachesFiles crates w opts remoteIp req req')
    {name : HeaderName} (hname : name ≠ HeaderName.host) : req'.headers.getAll name = req.headers.getAll name := by
  have hkept : (rewritesPreProcess crates w opts req).2.headers.getAll name = req.headers.getAll name :=
    rewritesPreProcess_headers hname
  rw [h.rewrites] at hkept
  exact hkept

theorem World.OtherBytes.reachesFiles {w' : World} {req' : Request Body} (h : World.OtherBytes opts w w')
    (hreach : ReachesFiles crates w opts remoteIp req req') : ReachesFiles crates w' opts remoteIp req req' where
  allowed := hreach.allowed
  early := by rw [h.sameStages.earlyStages_eq]; exact hreach.early
  redirects := by rw [h.redirectsPreProcess_eq]; exact hreach.redirects
  rewrites := by rw [h.rewritesPreProcess_eq]; exact hreach.rewrites
  proxy := by rw [h.sameStages.tryReverseProxy_eq]; exact hreach.proxy

theorem handle_body_of_reachesFiles {req' : Request Body} (h : ReachesFiles crates w opts remoteIp req req')
    (hmethod : req.method = .options) :
    (handle crates w opts remoteIp req).result.map (·.body) = servedBody crates w opts req' := by
  rw [handle_of_reachesFiles h, serveStatic_body (h.method.trans hmethod)]

theorem servedBody_eq {w' : World} {req' : Request Body} (h : World.OtherBytes opts w w')
    (hmethod : req'.method = .options)
    (hsends : ¬ Static.CacheSends crates.static w.store (fileCall crates w opts req')) :
    servedBody crates w' opts req' = servedBody crates w opts req' := by
  unfold servedBody
  rw [h.fileCall_eq, h.errorPage_eq, Static.handle_of_masked_eq h.tree h.store hmethod hsends]

theorem options_body {store : Static.Store} {t : FileTree} {call : Static.HandleOpts}
    {r : Static.StaticFileResponse} (hmethod : call.method = .options)
    (h : Static.handle crates.static t store call = .ok r) : r.resp.body = .empty ∨ ∃ s, r.resp.body = .stream s := by
  rcases Static.handle_ok h with ⟨entry, -, hresp⟩ | ⟨-, hfile⟩
  · rw [hresp]
    exact (entry.responseBody_body call.headers).imp_right fun ⟨s, hs, _⟩ => ⟨s, hs⟩
  · obtain ⟨m, -, -, hrespond, -⟩ := Static.handleFile_ok hfile
    rw [Static.respond_options hmethod] at hrespond
    split at hrespond
    · exact .inl (Static.redirectReply_body hrespond)
    · exact .inl (congrArg Response.body (Except.ok.inj hrespond).symm)

theorem servedBody_ne_archive {req' : Request Body} (hmethod : req'.method = .options) (job : Static.ArchiveJob) :
    servedBody crates w opts req' ≠ .ok (.archive job) := by
  unfold servedBody
  cases hserved : Static.handle crates.static w.tree w.store (fileCall crates w opts req') with
  | ok r =>
      intro harchive
      have hbody : r.resp.body = .archive job := Except.ok.inj harchive
      rcases options_body hmethod hserved with hempty | ⟨s, hstream⟩
      · exact Body.noConfusion (hempty.symm.trans hbody)
      · exact Body.noConfusion (hstream.symm.trans hbody)
  | error failure =>
      cases failure with
      | status status =>
          simp only [errorPage, errorResponse, htmlResponse, hmethod, Response.insertHeader_body,
            Response.withStatus_body]
          exact fun harchive => Body.noConfusion (Except.ok.inj harchive)
      | panic =>
          intro harchive
          cases harchive

/-- The same entry with other bytes. -/
def bumped (entry : Static.MemFile) : Static.MemFile := { entry with data := entry.data.map (· + 1) }

def bumpedStore (store : Static.Store) : Static.Store := store.map fun e => (e.1, bumped e.2)

theorem bumped_masked (entry : Static.MemFile) : (bumped entry).masked = entry.masked := by
  simp [bumped, Static.MemFile.masked]

theorem bumpedStore_masked (store : Static.Store) : (bumpedStore store).masked = store.masked := by
  simp only [Static.Store.masked, bumpedStore, List.map_map]
  refine List.map_congr_left fun e _ => ?_
  simp only [Function.comp_apply, bumped_masked]

theorem otherBytes_bumped : World.OtherBytes opts w { w with store := bumpedStore w.store } :=
  { page404 := rfl, page50x := rfl, tree := rfl, store := bumpedStore_masked w.store, ticket := rfl, permits := rfl
    metrics := rfl, maintenance := rfl }

theorem map_add_one_ne {data : Posix.Octets} (h : data ≠ []) : data.map (· + 1) ≠ data := by
  cases data with
  | nil => exact absurd rfl h
  | cons b data =>
      intro heq
      have hhead : b + 1 = b := (List.cons.inj heq).1
      simp at hhead

/-- The bytes of the entry that answers are in the body. -/
theorem servedBody_of_cached {req' : Request Body} {entry : Static.MemFile} (hmethod : req'.method = .options)
    (hcached : Static.cachedFile w.store (fileCall crates w opts req') = some entry)
    (hsends : entry.Sends crates.static (fileCall crates w opts req').headers) :
    ∃ s : Static.FileStream, servedBody crates w opts req' = .ok (.stream s) ∧ s.source = .cursor entry.data := by
  have hallowed : Static.isAllowed (fileCall crates w opts req').method = true := by
    have hcall : (fileCall crates w opts req').method = .options := hmethod
    rw [hcall]
    decide
  obtain ⟨start, subLen, hbody⟩ := Static.MemFile.responseBody_of_sends hsends
  refine ⟨{ source := .cursor entry.data, start, subLen, bufSize := entry.bufSize, mem := none }, ?_, rfl⟩
  unfold servedBody
  rw [Static.handle_eq hallowed, hcached]
  exact congrArg Except.ok hbody

theorem discloses_of_cacheSends {req' : Request Body} (h : ReachesFiles crates w opts remoteIp req req')
    (hmethod : req.method = .options) (hsends : Static.CacheSends crates.static w.store (fileCall crates w opts req')) :
    ∃ w', World.OtherBytes opts w w' ∧ (handle crates w' opts remoteIp req).result.map (·.body) ≠
      (handle crates w opts remoteIp req).result.map (·.body) := by
  have hother : World.OtherBytes opts w { w with store := bumpedStore w.store } := otherBytes_bumped
  refine ⟨_, hother, ?_⟩
  obtain ⟨entry, hcached, hentry⟩ := hsends
  have hmethod' := h.method.trans hmethod
  have hcall : fileCall crates { w with store := bumpedStore w.store } opts req' = fileCall crates w opts req' :=
    hother.fileCall_eq
  have hcached' : Static.cachedFile (bumpedStore w.store)
      (fileCall crates { w with store := bumpedStore w.store } opts req') = some (bumped entry) := by
    rw [hcall, bumpedStore, Static.cachedFile_map, hcached]
    rfl
  have hbumped : (bumped entry).Sends crates.static
      (fileCall crates { w with store := bumpedStore w.store } opts req').headers := by
    rw [hcall, ← Static.MemFile.sends_masked, bumped_masked, Static.MemFile.sends_masked]
    exact hentry
  obtain ⟨s, hbody, hsource⟩ := servedBody_of_cached hmethod' hcached hentry
  obtain ⟨s', hbody', hsource'⟩ := servedBody_of_cached hmethod' hcached' hbumped
  rw [handle_body_of_reachesFiles h hmethod, handle_body_of_reachesFiles (hother.reachesFiles h) hmethod, hbody, hbody']
  intro hsame
  cases hsame
  exact map_add_one_ne hentry.1 (Static.Source.cursor.inj (hsource'.symm.trans hsource))

theorem keepsOut_iff (hpair : Text.splitOnce ':' opts.basicAuth = some (userid, password))
    (hfail : checkRequest crates req.headers userid password = .error status)
    (hhealth : healthPreProcess opts req = none) (hmetrics : metricsPreProcess w opts req = none) :
    KeepsOut crates w opts remoteIp req ↔ (req.method = .options → ∀ req',
      ReachesFiles crates w opts remoteIp req req' →
        ¬ Static.CacheSends crates.static w.store (fileCall crates w opts req')) := by
  constructor
  · intro h hmethod req' hreach hsends
    obtain ⟨w', hother, hbody⟩ := discloses_of_cacheSends hreach hmethod hsends
    exact hbody ((h.options hmethod).sameBody w' hother)
  · intro h
    refine ⟨fun hmethod => refusesUnread hmethod hpair hfail hhealth hmetrics, fun hmethod => ⟨?_, ?_⟩⟩
    · intro w' hother
      rcases beforeFiles_cases crates w opts remoteIp req with ⟨outcome, houtcome, -⟩ | ⟨req', hreach⟩
      · rw [handle_eq_beforeFiles, handle_eq_beforeFiles, hother.sameStages.beforeFiles_eq, houtcome]
        rfl
      · rw [handle_body_of_reachesFiles hreach hmethod, handle_body_of_reachesFiles (hother.reachesFiles hreach) hmethod]
        exact servedBody_eq hother (hreach.method.trans hmethod) (h hmethod req' hreach)
    · intro call resp job hcall hresp hbody
      rcases beforeFiles_cases crates w opts remoteIp req with ⟨outcome, houtcome, hnone⟩ | ⟨req', hreach⟩
      · rw [handle_eq_beforeFiles, houtcome] at hcall
        exact absurd (hnone.symm.trans hcall) (Option.some_ne_none call).symm
      · have hserved := handle_body_of_reachesFiles hreach hmethod
        rw [hresp] at hserved
        exact servedBody_ne_archive (hreach.method.trans hmethod) job (hserved.symm.trans (congrArg Except.ok hbody))

/-! ## A cached file -/

def guardedOpts : RequestHandlerOpts :=
  { sampleOpts with
    basicAuth := "user:hash".toList, memoryCache := some { maxFileSize := 1024 }, advancedOpts := none }

def cachedPage : Static.MemFile :=
  { data := Static.named "page", bufSize := 4, contentType := Static.named "text/html", lastModified := none }

/-- The cache holds `/page.html`. -/
def cachedWorld : World :=
  { sampleWorld with
    store := [(Posix.canonPath [Static.named "srv", Static.named "page.html"], cachedPage)] }

def pageRequest (method : Method) : Request Body :=
  { sampleRequest method with
    uri := (Proxy.getRequest [] "/page.html".toList none (by decide) PathAndQuery.legal_none).uri }

theorem pageRequest_reachesFiles :
    ReachesFiles sampleCrates cachedWorld guardedOpts none (pageRequest .options) (pageRequest .options) where
  allowed := by decide
  early := by decide
  redirects := rfl
  rewrites := rfl
  proxy := rfl

theorem options_discloses_cached :
    Text.splitOnce ':' guardedOpts.basicAuth = some ("user".toList, "hash".toList) ∧
    checkRequest sampleCrates (pageRequest .options).headers "user".toList "hash".toList = .error .unauthorized ∧
    healthPreProcess guardedOpts (pageRequest .options) = none ∧
    metricsPreProcess cachedWorld guardedOpts (pageRequest .options) = none ∧
    ¬ KeepsOut sampleCrates cachedWorld guardedOpts none (pageRequest .options) := by
  refine ⟨by decide, rfl, rfl, rfl, fun h => ?_⟩
  have hsends : Static.CacheSends sampleCrates.static cachedWorld.store
      (fileCall sampleCrates cachedWorld guardedOpts (pageRequest .options)) :=
    ⟨cachedPage, by decide, by decide, none, rfl, rfl⟩
  obtain ⟨w', hother, hbody⟩ := discloses_of_cacheSends pageRequest_reachesFiles rfl hsends
  exact hbody ((h.options rfl).sameBody w' hother)

theorem keepsOut_iff_uncached :
    KeepsOut sampleCrates sampleWorld guardedOpts none (pageRequest .options) := by
  have hpair : Text.splitOnce ':' guardedOpts.basicAuth = some ("user".toList, "hash".toList) := by decide
  have hfail : checkRequest sampleCrates (pageRequest .options).headers "user".toList "hash".toList =
    .error .unauthorized := rfl
  refine (keepsOut_iff hpair hfail rfl rfl).mpr fun _ req' _ ⟨entry, hcached, _⟩ => ?_
  exact Option.some_ne_none entry (hcached.symm.trans (ite_self none))

end WeaveGate.Handler
