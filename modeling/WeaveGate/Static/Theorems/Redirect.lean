import WeaveGate.Http.UriParser
import WeaveGate.Lib.UriReference
import WeaveGate.Static.Theorems.Access

/-!
# Redirects to a trailing slash

Where a client is sent that asks for a directory without a slash at the end.
-/

namespace WeaveGate.Static

open Http
open Posix (Octets Path Name FileTree Inode Errno Canon)

variable {crates : Crates} {t : FileTree} {store : Store} {opts : HandleOpts}

/-! ## The only replies with status 308 -/

theorem fileReply_status {path : Path} {metadata : Inode} {variantPath : Option Path} {mc : Option MemCacheOpts}
    {resp : Response Body} (h : fileReply crates t opts.headers path metadata variantPath mc = .ok resp) :
    resp.status ∈ [StatusCode.ok, .partialContent, .rangeNotSatisfiable, .notModified, .preconditionFailed] := by
  obtain ⟨file, _, h⟩ := fileReply_ok h
  cases hdate : lastModifiedOf metadata with
  | error e => simp [responseBody, hdate, bind, Except.bind] at h
  | ok modified =>
      rw [responseBody_eq crates file path mc hdate, Except.ok.injEq] at h
      subst h
      exact afterCheck_status crates _ _ _ _ _

theorem listingReply_status {p : Path} {resp : Response Body} (h : listingReply crates t opts p = .ok resp) :
    resp.status = .ok := by
  unfold listingReply at h
  split at h
  · split at h
    · cases h
      unfold archiveReply
      dsimp only
      split <;> cases HeaderValue.fromOctets _ <;> rfl
    · cases h
  · obtain ⟨entries, rfl⟩ := autoIndex_reply h
    unfold entriesReply
    dsimp only
    split <;> rfl

theorem respond_redirect {m : FileMetadata} {resp : Response Body} (h : respond crates t opts m = .ok resp)
    (hstatus : resp.status = .permanentRedirect) :
    m.isDir = true ∧ redirectReply opts = .ok resp ∧ Text.endsWith opts.uriPath '/' = false := by
  unfold respond at h
  split at h
  · rename_i hdue
    simp only [Bool.and_eq_true, Bool.not_eq_true'] at hdue
    exact ⟨hdue.1.1, h, hdue.2⟩
  · split at h
    · cases h
      exact absurd hstatus (by decide)
    · split at h
      · rw [listingReply_status h] at hstatus
        exact absurd hstatus (by decide)
      · split at h
        · obtain ⟨r, hr, hsame, _⟩ := variantReply_ok h
          have hmem := fileReply_status hr
          rw [hsame, hstatus] at hmem
          exact absurd hmem (by decide)
        · have hmem := fileReply_status h
          rw [hstatus] at hmem
          exact absurd hmem (by decide)

/-- What a redirected request has passed. -/
structure Redirected (crates : Crates) (t : FileTree) (store : Store) (opts : HandleOpts) (resp : Response Body)
    (m : FileMetadata) : Prop where
  uncached : cachedFile store opts = none
  composed : getComposedFileMetadata crates t opts.headers opts.compressionStatic (requestedPath opts)
    opts.indexFiles = .ok m
  granted : checkAccess t opts m.checkedPath = .ok ()
  dir : m.isDir = true
  reply : redirectReply opts = .ok resp
  slash : Text.endsWith opts.uriPath '/' = false

theorem handle_redirect {r : StaticFileResponse} (h : handle crates t store opts = .ok r)
    (hstatus : r.resp.status = .permanentRedirect) : ∃ m, Redirected crates t store opts r.resp m := by
  rcases handle_ok h with ⟨entry, _, hresp⟩ | ⟨huncached, hfile⟩
  · have hmem := afterCheck_status crates (ConditionalHeaders.new crates opts.headers) entry.lastModified
      entry.data.length entry.contentType fun start subLen => .stream
        { source := .cursor entry.data, start, subLen, bufSize := entry.bufSize, mem := none }
    rw [← MemFile.responseBody_eq, ← hresp, hstatus] at hmem
    exact absurd hmem (by decide)
  · obtain ⟨m, hm, hgranted, hresp, _⟩ := handleFile_ok hfile
    obtain ⟨hdir, hreply, hslash⟩ := respond_redirect hresp hstatus
    exact ⟨m, huncached, hm, hgranted, hdir, hreply, hslash⟩

/-- A directory that the request may see is answered with a redirect, unless the path ends in a slash. -/
theorem handle_directory {m : FileMetadata} (hmethod : isAllowed opts.method = true)
    (hcache : cachedFile store opts = none)
    (hm : getComposedFileMetadata crates t opts.headers opts.compressionStatic (requestedPath opts) opts.indexFiles =
      .ok m)
    (haccess : checkAccess t opts m.checkedPath = .ok ()) (hdir : m.isDir = true)
    (hredirect : opts.redirectTrailingSlash = true) (hslash : Text.endsWith opts.uriPath '/' = false) :
    handle crates t store opts = (redirectReply opts).map fun resp => { resp, filePath := m.filePath } := by
  rw [handle_eq hmethod, hcache]
  simp [handleFile, hm, haccess, respond, hdir, hredirect, hslash]

/-! ## The location -/

/-- The text of the location: the path as it was sent, a slash, and the query. -/
def locationText (opts : HandleOpts) : Str := opts.uriPath ++ '/' :: opts.uriQuery.elim [] ('?' :: ·)

/-- The path and the query of the request are those of a URI in origin form. -/
structure OriginForm (opts : HandleOpts) (pq : PathAndQuery) : Prop where
  path : opts.uriPath = pq.path
  query : opts.uriQuery = pq.query
  absolute : Text.startsWith pq.path '/' = true

theorem OriginForm.path_legal {pq : PathAndQuery} (h : OriginForm opts pq) :
    ∀ c ∈ opts.uriPath, isPathChar c = true := by
  rw [h.path]
  exact PathAndQuery.isPathChar_of_mem_path

theorem OriginForm.query_legal {pq : PathAndQuery} (h : OriginForm opts pq) :
    ∀ q, opts.uriQuery = some q → ∀ c ∈ q, isQueryChar c = true := by
  rw [h.query]
  exact fun q hq => PathAndQuery.isQueryChar_of_mem_query hq

theorem OriginForm.eq_cons {pq : PathAndQuery} (h : OriginForm opts pq) : ∃ rest, opts.uriPath = '/' :: rest := by
  have habs := h.absolute
  rw [← h.path] at habs
  cases hpath : opts.uriPath with
  | nil => rw [hpath] at habs; cases habs
  | cons c rest =>
      rw [hpath] at habs
      exact ⟨rest, by rw [show c = '/' by simpa [Text.startsWith] using habs]⟩

theorem OriginForm.locationText_printable {pq : PathAndQuery} (h : OriginForm opts pq) :
    (locationText opts).all HeaderValue.isPrintable = true := by
  have hpath : opts.uriPath.all HeaderValue.isPrintable = true :=
    List.all_eq_true.mpr fun c hc => PathAndQuery.isPathChar_printable (h.path_legal c hc)
  have hquery := pq.queryText_printable
  rw [← h.query] at hquery
  rw [locationText, List.all_append, hpath, List.all_cons]
  exact hquery

theorem redirectReply_eq {pq : PathAndQuery} (h : OriginForm opts pq) : redirectReply opts =
    .ok (((Response.new Body.empty).insertHeader .location (Posix.utf8 (locationText opts))).withStatus
      .permanentRedirect) := by
  have hloc := (HeaderValue.fromStr_printable h.locationText_printable).1
  unfold locationText at hloc
  unfold redirectReply
  dsimp only
  rw [hloc]
  rfl

/-! ## Where the client is sent -/

/-- The URI that the request names at a host. -/
def requestUri (scheme host : Str) (opts : HandleOpts) : UriReference :=
  { scheme := some scheme, authority := some host, path := opts.uriPath, query := opts.uriQuery, fragment := none }

/-- The URI that the location of a response leads to. -/
def redirectTarget (scheme host : Str) (opts : HandleOpts) (resp : Response Body) : Option UriReference :=
  match resp.headers.getAll .location with
  | [value] => value.toStr.map fun location => (requestUri scheme host opts).resolve (.parse location)
  | _ => none

theorem redirectTarget_eq {pq : PathAndQuery} (h : OriginForm opts pq) {resp : Response Body}
    (hresp : redirectReply opts = .ok resp) (scheme host : Str) : redirectTarget scheme host opts resp =
      some ((requestUri scheme host opts).resolve (.parse (locationText opts))) := by
  rw [redirectReply_eq h, Except.ok.injEq] at hresp
  subst hresp
  unfold redirectTarget
  rw [Response.withStatus_headers, Response.insertHeader_getAll, if_pos rfl]
  dsimp only
  rw [(HeaderValue.fromStr_printable h.locationText_printable).2]
  rfl

theorem OriginForm.path_delimiters {pq : PathAndQuery} (h : OriginForm opts pq) :
    ∀ c ∈ opts.uriPath ++ ['/'], c ≠ '?' ∧ c ≠ '#' := by
  intro c hc
  rcases List.mem_append.mp hc with hc | hc
  · exact ⟨PathAndQuery.isPathChar_ne_question (h.path_legal c hc), PathAndQuery.isPathChar_ne_hash (h.path_legal c hc)⟩
  · rw [List.mem_singleton.mp hc]
    decide

theorem OriginForm.query_delimiters {pq : PathAndQuery} (h : OriginForm opts pq) :
    ∀ q, opts.uriQuery = some q → ∀ c ∈ q, c ≠ '#' :=
  fun q hq c hc => PathAndQuery.isQueryChar_ne_hash (h.query_legal q hq c hc)

theorem startsWith_concat_iff {rest : Str} (h : rest ≠ []) :
    Text.startsWith (rest ++ ['/']) '/' = true ↔ ['/', '/'] <+: '/' :: rest := by
  obtain ⟨c, rest, rfl⟩ := List.exists_cons_of_ne_nil h
  simp [Text.startsWith, eq_comm]

theorem takeWhile_concat (s : Str) : (s ++ ['/']).takeWhile (· ≠ '/') = s.takeWhile (· ≠ '/') := by
  rw [List.takeWhile_append]
  split
  · rename_i hall
    rw [(List.takeWhile_prefix _).eq_of_length hall]
    simp
  · rfl

/-- The redirect leads to the path with a slash behind it, on the same host and with the same query, when the path
does not start with two slashes and has no dot segment. It stays on the host when what follows two slashes at the
start is that host. -/
theorem redirects_in_place_iff {pq : PathAndQuery} (h : OriginForm opts pq) {r : StaticFileResponse}
    (hr : handle crates t store opts = .ok r) (hstatus : r.resp.status = .permanentRedirect) (scheme host : Str) :
    (redirectTarget scheme host opts r.resp =
        some { requestUri scheme host opts with path := opts.uriPath ++ ['/'] } ↔
      ¬ ['/', '/'] <+: opts.uriPath ∧ ∀ segment ∈ opts.uriPath.splitOn '/', segment ≠ ['.'] ∧ segment ≠ ['.', '.']) ∧
    ((∃ target, redirectTarget scheme host opts r.resp = some target ∧ target.authority = some host) ↔
      ∀ rest, opts.uriPath = '/' :: '/' :: rest → rest.takeWhile (· ≠ '/') = host) := by
  obtain ⟨_, hredirected⟩ := handle_redirect hr hstatus
  have hreply := hredirected.reply
  have hslash := hredirected.slash
  obtain ⟨rest, hrest⟩ := h.eq_cons
  have hpath := h.path_delimiters
  rw [hrest] at hslash hpath
  have htext : locationText opts = '/' :: (rest ++ ['/']) ++ opts.uriQuery.elim [] ('?' :: ·) := by
    simp [locationText, hrest]
  have hne : rest ≠ [] := fun hnil => by
    rw [hnil] at hslash
    exact absurd hslash (by decide)
  have htail : ∀ c ∈ rest ++ ['/'], c ≠ '?' ∧ c ≠ '#' := fun c hc => hpath c (List.mem_cons_of_mem _ hc)
  rw [redirectTarget_eq h hreply, hrest, htext]
  constructor
  · have hsplit : ('/' :: (rest ++ ['/'])).splitOn '/' = ('/' :: rest).splitOn '/' ++ [[]] :=
      List.splitOn_append_cons_self ('/' :: rest) []
    rw [Option.some.injEq]
    refine (UriReference.resolve_slash_eq_iff htail h.query_delimiters).trans ?_
    rw [startsWith_concat_iff hne, hsplit, List.forall_mem_append, List.forall_mem_singleton]
    simp [UriReference.IsDot, not_or]
  · simp only [Option.some.injEq, exists_eq_left']
    by_cases htwo : ∃ host', rest = '/' :: host'
    · obtain ⟨rest, rfl⟩ := htwo
      have hresolve := @UriReference.resolve_authority (requestUri scheme host opts) (rest ++ ['/']) opts.uriQuery
        (fun c hc => htail c (List.mem_cons_of_mem _ hc)) h.query_delimiters
      simp only [List.cons_append] at hresolve ⊢
      rw [hresolve, takeWhile_concat]
      simp
    · have hone : ¬ Text.startsWith (rest ++ ['/']) '/' = true := by
        rw [startsWith_concat_iff hne]
        rintro ⟨host', hhost⟩
        exact htwo ⟨host', (List.cons.inj hhost).2.symm⟩
      rw [UriReference.resolve_path htail h.query_delimiters hone]
      refine iff_of_true rfl fun host' hhost => ?_
      exact absurd ⟨host', (List.cons.inj hhost).2⟩ htwo

def slashRequest (uriPath : String) (query : Option String) : HandleOpts :=
  { sampleOpts uriPath with uriQuery := query.map String.toList }

def replyTo (opts : HandleOpts) : Option (Response Body) :=
  (handle sampleCrates linkedIndex [] opts).toOption.map (·.resp)

/-- `//d` leads to the host `d`, and `/./d` leads to `/d/`. -/
theorem redirects_elsewhere :
    (replyTo (slashRequest "//d" none)).map (·.status) = some .permanentRedirect ∧
      ((replyTo (slashRequest "//d" none)).bind
          (redirectTarget "https".toList "example.org".toList (slashRequest "//d" none))).map (·.authority) =
        some (some "d".toList) ∧
      (replyTo (slashRequest "/./d" none)).map (·.status) = some .permanentRedirect ∧
      ((replyTo (slashRequest "/./d" none)).bind
          (redirectTarget "https".toList "example.org".toList (slashRequest "/./d" none))).map (·.path) =
        some "/d/".toList := by
  decide +kernel

theorem redirects_in_place_iff_query : ∃ r,
    handle sampleCrates linkedIndex [] (slashRequest "/d" (some "a=/../b")) = .ok r ∧
      redirectTarget "https".toList "example.org".toList (slashRequest "/d" (some "a=/../b")) r.resp =
        some { scheme := some "https".toList, authority := some "example.org".toList, path := "/d/".toList
               query := some "a=/../b".toList, fragment := none } := by
  have hreply : (handle sampleCrates linkedIndex [] (slashRequest "/d" (some "a=/../b"))).toOption.any
      (·.resp.status = .permanentRedirect) = true := by decide +kernel
  obtain ⟨r, hr, hstatus⟩ := (Option.any_eq_true _ _).mp hreply
  refine ⟨r, Checked.toOption_eq_some.mp hr, ?_⟩
  exact (@redirects_in_place_iff sampleCrates linkedIndex [] _ ⟨"/d".toList, some "a=/../b".toList, by decide, by decide⟩
    ⟨rfl, rfl, rfl⟩ _ (Checked.toOption_eq_some.mp hr) (of_decide_eq_true hstatus) "https".toList
    "example.org".toList).1.mpr (by decide)

end WeaveGate.Static
