import WeaveGate.Lib.Checked
import WeaveGate.Lib.Posix.Lemmas.Walk
import WeaveGate.Static.Handle
import WeaveGate.Static.Lemmas.Listing

/-!
# Streamed replies

Which file a reply streams, and which part of it.
-/

namespace WeaveGate.Static

open Http
open Posix (Octets Path Name FileTree Inode Errno Canon)

variable {crates : Crates} {t : FileTree} {opts : HandleOpts}

/-! ## Byte ranges -/

theorem bytesRange_bounds {range : Option (List RangeSpec)} {len first last : Nat}
    (h : bytesRange range len = some (first, last)) : first ≤ last ∧ last ≤ len := by
  cases range with
  | none =>
      cases h
      exact ⟨Nat.zero_le _, Nat.le_refl _⟩
  | some specs =>
      simp only [bytesRange] at h
      split at h
      · cases h
      · split at h
        · rename_i hin
          cases h
          exact ⟨hin.1.le, hin.2⟩
        · split at h
          · rename_i hin
            cases h
            exact ⟨hin.2, Nat.le_refl _⟩
          · cases h

/-! ## The streaming branch -/

theorem rangedResponse_body (range : Option (List RangeSpec)) (len : Nat) (contentType : HeaderValue)
    (modified : Option Nat) (body : Nat → Nat → Body) :
    (rangedResponse crates range len contentType modified body).body =
      (bytesRange range len).elim .empty fun r => body r.1 (r.2 - r.1) := by
  unfold rangedResponse
  split
  · rename_i hrange
    rw [hrange]
    rfl
  · rename_i first last hrange
    rw [hrange]
    cases modified <;> (dsimp only [Option.elim]; split <;> rfl)

/-- The status and the header fields do not depend on what is streamed. -/
theorem rangedResponse_congr (range : Option (List RangeSpec)) (len : Nat) (contentType : HeaderValue)
    (modified : Option Nat) (body body' : Nat → Nat → Body) :
    (rangedResponse crates range len contentType modified body).status =
        (rangedResponse crates range len contentType modified body').status ∧
      (rangedResponse crates range len contentType modified body).headers =
        (rangedResponse crates range len contentType modified body').headers := by
  unfold rangedResponse
  split
  · exact ⟨rfl, rfl⟩
  · cases modified <;> (dsimp only [Option.elim]; split <;> exact ⟨rfl, rfl⟩)

theorem check_noBody {c : ConditionalHeaders} {modified : Option Nat} {resp : Response Body}
    (h : c.check modified = .noBody resp) : resp.body = .empty := by
  unfold ConditionalHeaders.check at h
  split at h
  · cases h
    rfl
  · split at h
    · cases h
      rfl
    · split at h <;> cases h

theorem check_noBody_headers {c : ConditionalHeaders} {modified : Option Nat} {resp : Response Body}
    (h : c.check modified = .noBody resp) : resp.headers = [] := by
  unfold ConditionalHeaders.check at h
  split at h
  · cases h
    rfl
  · split at h
    · cases h
      rfl
    · split at h <;> cases h

theorem rangedResponse_refused {range : Option (List RangeSpec)} {len : Nat} (h : bytesRange range len = none)
    (contentType : HeaderValue) (modified : Option Nat) (body : Nat → Nat → Body) :
    (rangedResponse crates range len contentType modified body).status = .rangeNotSatisfiable := by
  unfold rangedResponse
  rw [h]
  rfl

/-- The status and the two fields that tell the part. -/
theorem rangedResponse_part (crates : Crates) {range : Option (List RangeSpec)} {len first last : Nat}
    (h : bytesRange range len = some (first, last)) (contentType : HeaderValue) (modified : Option Nat)
    (body : Nat → Nat → Body) :
    (rangedResponse crates range len contentType modified body).status =
        (if last - first = len then .ok else .partialContent) ∧
      (rangedResponse crates range len contentType modified body).headers.getAll .contentLength =
        [decimal (last - first)] ∧
      (rangedResponse crates range len contentType modified body).headers.getAll .contentRange =
        if last - first = len then [] else [contentRangeBytes first last len] := by
  unfold rangedResponse
  rw [h]
  by_cases hwhole : last - first = len
  · cases modified <;> simp +decide [hwhole, Response.insertHeader_getAll, Response.new]
  · cases modified <;> simp +decide [hwhole, Response.insertHeader_getAll]

theorem rangedResponse_status (crates : Crates) (range : Option (List RangeSpec)) (len : Nat)
    (contentType : HeaderValue) (modified : Option Nat) (body : Nat → Nat → Body) :
    (rangedResponse crates range len contentType modified body).status ∈
      [StatusCode.ok, .partialContent, .rangeNotSatisfiable] := by
  cases hwindow : bytesRange range len with
  | none =>
      rw [rangedResponse_refused hwindow]
      decide
  | some window =>
      rw [(rangedResponse_part crates hwindow contentType modified body).1]
      split <;> decide

/-! ## After the check of the conditional fields -/

/-- What a request gets whose conditions were checked. -/
def afterCheck (checked : ConditionalBody) (withBody : Option (List RangeSpec) → Response Body) : Response Body :=
  match checked with
  | .noBody resp => resp
  | .withBody range => withBody range

theorem responseBody_eq (crates : Crates) (file : FileTree.OpenFile) (path : Path) {metadata : Inode}
    (memoryCache : Option MemCacheOpts) {modified : Option Nat} (hdate : lastModifiedOf metadata = .ok modified)
    (conditionals : ConditionalHeaders) : responseBody crates file path metadata conditionals memoryCache =
      .ok (afterCheck (conditionals.check modified) fun range =>
        rangedResponse crates range metadata.size (crates.mime path) modified fun start subLen => .stream
          { source := .file file, start, subLen, bufSize := optimalBufSize metadata
            mem := if memoryCache.any (metadata.size ≤ ·.maxFileSize) && isUtf8 path then
                some ({ filePath := path, contentType := crates.mime path, lastModified := modified }, metadata.size)
              else none }) := by
  unfold responseBody
  rw [hdate]
  simp only [bind, Except.bind]
  cases conditionals.check modified <;> rfl

theorem MemFile.responseBody_eq (crates : Crates) (self : MemFile) (headers : HeaderMap) :
    self.responseBody crates headers =
      afterCheck ((ConditionalHeaders.new crates headers).check self.lastModified) fun range =>
        rangedResponse crates range self.data.length self.contentType self.lastModified fun start subLen => .stream
          { source := .cursor self.data, start, subLen, bufSize := self.bufSize, mem := none } := by
  unfold MemFile.responseBody
  cases (ConditionalHeaders.new crates headers).check self.lastModified <;> rfl

theorem afterCheck_status (crates : Crates) (c : ConditionalHeaders) (modified : Option Nat) (len : Nat)
    (contentType : HeaderValue) (body : Nat → Nat → Body) :
    (afterCheck (c.check modified) fun range => rangedResponse crates range len contentType modified body).status ∈
      [StatusCode.ok, .partialContent, .rangeNotSatisfiable, .notModified, .preconditionFailed] := by
  have hranged : ∀ range, (rangedResponse crates range len contentType modified body).status ∈
      [StatusCode.ok, .partialContent, .rangeNotSatisfiable, .notModified, .preconditionFailed] := fun range =>
    List.mem_append_left [StatusCode.notModified, .preconditionFailed]
      (rangedResponse_status crates range len contentType modified body)
  unfold ConditionalHeaders.check
  split
  · simp [afterCheck]
  · split
    · simp [afterCheck]
    · split
      · exact hranged none
      · exact hranged c.range

theorem fileReply_ok {path : Path} {metadata : Inode} {variantPath : Option Path} {mc : Option MemCacheOpts}
    {resp : Response Body} (h : fileReply crates t opts.headers path metadata variantPath mc = .ok resp) :
    ∃ file, t.open (variantPath.getD path) = .ok file ∧
      responseBody crates file path metadata (ConditionalHeaders.new crates opts.headers) mc = .ok resp := by
  unfold fileReply at h
  split at h
  · exact ⟨_, ‹_›, h⟩
  · cases h
  · cases h
  · cases h

def fileStream (crates : Crates) (mc : Option MemCacheOpts) (file : FileTree.OpenFile) (path : Path)
    (metadata : Inode) (modified : Option Nat) (first last : Nat) : FileStream :=
  { source := .file file, start := first, subLen := last - first, bufSize := optimalBufSize metadata
    mem := if mc.any (metadata.size ≤ ·.maxFileSize) && isUtf8 path then
        some ({ filePath := path, contentType := crates.mime path, lastModified := modified }, metadata.size)
      else none }

/-- What a reply that streams went through. -/
structure Streamed (crates : Crates) (opts : HandleOpts) (metadata : Inode) (modified : Option Nat)
    (range : Option (List RangeSpec)) (first last : Nat) : Prop where
  date : lastModifiedOf metadata = .ok modified
  passed : (ConditionalHeaders.new crates opts.headers).check modified = .withBody range
  window : bytesRange range metadata.size = some (first, last)

theorem responseBody_window {file : FileTree.OpenFile} {path : Path} {metadata : Inode}
    {conditionals : ConditionalHeaders} {mc : Option MemCacheOpts} {resp : Response Body} {s : FileStream}
    (h : responseBody crates file path metadata conditionals mc = .ok resp) (hbody : resp.body = .stream s) :
    ∃ modified range first last, lastModifiedOf metadata = .ok modified ∧
      conditionals.check modified = .withBody range ∧ bytesRange range metadata.size = some (first, last) ∧
      s = fileStream crates mc file path metadata modified first last := by
  obtain ⟨modified, hdate, h⟩ := Checked.bind_eq_ok.mp h
  split at h
  · rename_i r hcheck
    rw [Checked.pure_eq_ok] at h
    subst h
    rw [check_noBody hcheck] at hbody
    cases hbody
  · rename_i range hcheck
    rw [Checked.pure_eq_ok] at h
    subst h
    rw [rangedResponse_body] at hbody
    cases hwindow : bytesRange range metadata.size with
    | none =>
        rw [hwindow] at hbody
        cases hbody
    | some r =>
        rw [hwindow] at hbody
        cases hbody
        exact ⟨modified, range, r.1, r.2, hdate, hcheck, hwindow, rfl⟩

theorem responseBody_stream {file : FileTree.OpenFile} {path : Path} {metadata : Inode} {mc : Option MemCacheOpts}
    {resp : Response Body} {s : FileStream}
    (h : responseBody crates file path metadata (ConditionalHeaders.new crates opts.headers) mc = .ok resp)
    (hbody : resp.body = .stream s) : ∃ modified range first last,
      Streamed crates opts metadata modified range first last ∧
      s = fileStream crates mc file path metadata modified first last := by
  obtain ⟨modified, range, first, last, hdate, hcheck, hwindow, hs⟩ := responseBody_window h hbody
  exact ⟨modified, range, first, last, ⟨hdate, hcheck, hwindow⟩, hs⟩

theorem autoIndex_body {p : Path} {resp : Response Body} (h : autoIndex crates t opts p = .ok resp) :
    resp.body = .empty ∨ ∃ content, resp.body = .full content := by
  obtain ⟨entries, rfl⟩ := autoIndex_reply h
  unfold entriesReply
  dsimp only
  split
  · exact .inl rfl
  · exact .inr ⟨_, rfl⟩

theorem archiveReply_body (opts : HandleOpts) (name : Name) (p : Path) : (archiveReply name p opts).body = .empty ∨
    ∃ job, (archiveReply name p opts).body = .archive job ∧ job.srcPath = p ∧
      job.ignoreHidden = opts.ignoreHiddenFiles := by
  unfold archiveReply
  dsimp only
  split
  · cases HeaderValue.fromOctets _ <;> exact .inl rfl
  · exact .inr ⟨_, rfl, rfl, rfl⟩

theorem fileReply_body {path : Path} {metadata : Inode} {variantPath : Option Path} {mc : Option MemCacheOpts}
    {resp : Response Body} (h : fileReply crates t opts.headers path metadata variantPath mc = .ok resp) :
    resp.body = .empty ∨ ∃ s, resp.body = .stream s := by
  obtain ⟨file, _, h⟩ := fileReply_ok h
  obtain ⟨modified, _, h⟩ := Checked.bind_eq_ok.mp h
  split at h
  · rename_i r hcheck
    rw [Checked.pure_eq_ok] at h
    subst h
    exact .inl (check_noBody hcheck)
  · rw [Checked.pure_eq_ok] at h
    subst h
    rw [rangedResponse_body]
    cases bytesRange _ _ with
    | none => exact .inl rfl
    | some r => exact .inr ⟨_, rfl⟩

theorem MemFile.responseBody_window {self : MemFile} {headers : HeaderMap} {s : FileStream}
    (hbody : (self.responseBody crates headers).body = .stream s) : ∃ range first last,
      bytesRange range self.data.length = some (first, last) ∧
      s = { source := .cursor self.data, start := first, subLen := last - first, bufSize := self.bufSize, mem := none } := by
  unfold MemFile.responseBody at hbody
  split at hbody
  · rw [check_noBody ‹_›] at hbody
    cases hbody
  · rename_i range _
    rw [rangedResponse_body] at hbody
    cases hwindow : bytesRange range self.data.length with
    | none =>
        rw [hwindow] at hbody
        cases hbody
    | some r =>
        rw [hwindow] at hbody
        cases hbody
        exact ⟨range, r.1, r.2, hwindow, rfl⟩

theorem MemFile.responseBody_body (self : MemFile) (headers : HeaderMap) :
    (self.responseBody crates headers).body = .empty ∨
      ∃ s, (self.responseBody crates headers).body = .stream s ∧ s.source = .cursor self.data ∧ s.mem = none := by
  unfold MemFile.responseBody
  split
  · exact .inl (check_noBody ‹_›)
  · rw [rangedResponse_body]
    cases bytesRange _ _ with
    | none => exact .inl rfl
    | some r => exact .inr ⟨_, rfl, rfl, rfl⟩

theorem listingReply_body {p : Path} {resp : Response Body} (h : listingReply crates t opts p = .ok resp) :
    resp.body = .empty ∨ (∃ content, resp.body = .full content) ∨
      ∃ job, resp.body = .archive job ∧ job.srcPath = p.pop ∧ job.ignoreHidden = opts.ignoreHiddenFiles := by
  unfold listingReply at h
  split at h
  · split at h
    · cases h
      rcases archiveReply_body opts _ p.pop with hbody | hbody
      · exact .inl hbody
      · exact .inr (.inr hbody)
    · cases h
  · rcases autoIndex_body h with hbody | hbody
    · exact .inl hbody
    · exact .inr (.inl hbody)

/-! ## The branches of the handler -/

theorem variantReply_ok {m : FileMetadata} {variantPath : Path} {encoding : ContentCoding} {resp : Response Body}
    (h : variantReply crates t opts m variantPath encoding = .ok resp) : ∃ r,
    fileReply crates t opts.headers m.filePath m.metadata (some variantPath) opts.memoryCache = .ok r ∧
    r.status = resp.status ∧ r.body = resp.body := by
  obtain ⟨r, hr, h⟩ := Checked.bind_eq_ok.mp h
  split at h
  · cases h
  · cases h
    exact ⟨r, hr, rfl, rfl⟩

theorem redirectReply_body {resp : Response Body} (h : redirectReply opts = .ok resp) : resp.body = .empty := by
  unfold redirectReply at h
  dsimp only at h
  split at h
  · cases h
    rfl
  · cases h

/-- What was found is a directory without the index file, and such directories are listed. -/
def listsDirectory (t : FileTree) (opts : HandleOpts) (m : FileMetadata) : Bool :=
  m.isDir && opts.dirListing && !t.exists m.filePath

/-- A reply with a body is a listing, or the file at the path to be opened. -/
theorem respond_ok {m : FileMetadata} {resp : Response Body} (h : respond crates t opts m = .ok resp) :
    resp.body = .empty ∨
      (listsDirectory t opts m = true ∧ listingReply crates t opts m.filePath = .ok resp) ∨
      (listsDirectory t opts m = false ∧
        ∃ r, fileReply crates t opts.headers m.filePath m.metadata (m.precompressedVariant.map Prod.fst)
          opts.memoryCache = .ok r ∧ r.body = resp.body) := by
  unfold respond at h
  split at h
  · exact .inl (redirectReply_body h)
  · split at h
    · cases h
      exact .inl rfl
    · split at h
      · exact .inr (.inl ⟨‹_›, h⟩)
      · rename_i hlist
        refine .inr (.inr ⟨Bool.eq_false_iff.mpr hlist, ?_⟩)
        split at h
        · rename_i hvariant
          obtain ⟨r, hr, _, hbody⟩ := variantReply_ok h
          rw [hvariant]
          exact ⟨r, hr, hbody⟩
        · rename_i hvariant
          rw [hvariant]
          exact ⟨resp, h, rfl⟩

theorem isDir_of_listsDirectory {m : FileMetadata} (h : listsDirectory t opts m = true) : m.isDir = true := by
  rw [listsDirectory, Bool.and_eq_true, Bool.and_eq_true] at h
  exact h.1.1

theorem respond_stream {m : FileMetadata} {resp : Response Body} {s : FileStream}
    (h : respond crates t opts m = .ok resp) (hbody : resp.body = .stream s) :
    ∃ file modified range first last, t.open m.openedPath = .ok file ∧
      Streamed crates opts m.metadata modified range first last ∧
      s = fileStream crates opts.memoryCache file m.filePath m.metadata modified first last := by
  rcases respond_ok h with hempty | ⟨_, hlist⟩ | ⟨_, r, hr, hr'⟩
  · cases hempty.symm.trans hbody
  · rcases listingReply_body hlist with hempty | ⟨content, hfull⟩ | ⟨job, hjob, _⟩
    · cases hempty.symm.trans hbody
    · cases hfull.symm.trans hbody
    · cases hjob.symm.trans hbody
  · obtain ⟨file, hopen, hr⟩ := fileReply_ok hr
    obtain ⟨modified, range, first, last, hs, rfl⟩ := responseBody_stream hr (hr'.trans hbody)
    exact ⟨file, modified, range, first, last, hopen, hs, rfl⟩

theorem respond_stream_file {m : FileMetadata} {resp : Response Body} {s : FileStream}
    (h : respond crates t opts m = .ok resp) (hbody : resp.body = .stream s) : listsDirectory t opts m = false := by
  rcases respond_ok h with hempty | ⟨_, hlist⟩ | ⟨hfile, _⟩
  · cases hempty.symm.trans hbody
  · rcases listingReply_body hlist with hempty | ⟨content, hfull⟩ | ⟨job, hjob, _⟩
    · cases hempty.symm.trans hbody
    · cases hfull.symm.trans hbody
    · cases hjob.symm.trans hbody
  · exact hfile

theorem respond_archive {m : FileMetadata} {resp : Response Body} {job : ArchiveJob}
    (h : respond crates t opts m = .ok resp) (hbody : resp.body = .archive job) :
    listsDirectory t opts m = true ∧ job.srcPath = m.checkedPath ∧ job.ignoreHidden = opts.ignoreHiddenFiles := by
  rcases respond_ok h with hempty | ⟨hdir, hlist⟩ | ⟨_, r, hr, hr'⟩
  · cases hempty.symm.trans hbody
  · rcases listingReply_body hlist with hempty | ⟨content, hfull⟩ | ⟨job', hjob, hsrc, hhidden⟩
    · cases hempty.symm.trans hbody
    · cases hfull.symm.trans hbody
    · cases hjob.symm.trans hbody
      rw [hsrc, FileMetadata.checkedPath, if_pos (isDir_of_listsDirectory hdir)]
      exact ⟨hdir, rfl, hhidden⟩
  · rcases fileReply_body hr with hempty | ⟨s, hs⟩
    · cases hempty.symm.trans (hr'.trans hbody)
    · cases hs.symm.trans (hr'.trans hbody)

theorem respond_full {m : FileMetadata} {resp : Response Body} {content : Octets}
    (h : respond crates t opts m = .ok resp) (hbody : resp.body = .full content) : listsDirectory t opts m = true := by
  rcases respond_ok h with hempty | ⟨hdir, _⟩ | ⟨_, r, hr, hr'⟩
  · cases hempty.symm.trans hbody
  · exact hdir
  · rcases fileReply_body hr with hempty | ⟨s, hs⟩
    · cases hempty.symm.trans (hr'.trans hbody)
    · cases hs.symm.trans (hr'.trans hbody)

/-! ## The handler -/

/-- The cache entry that answers the request. -/
def cachedFile (store : Store) (opts : HandleOpts) : Option MemFile :=
  if opts.memoryCache.isSome && isUtf8 (requestedPath opts) then store.get? (requestedPath opts) else none

theorem handle_eq {store : Store} (h : isAllowed opts.method = true) : handle crates t store opts =
    match cachedFile store opts with
    | some entry => .ok { resp := entry.responseBody crates opts.headers, filePath := requestedPath opts }
    | none => handleFile crates t opts := by
  unfold handle cachedFile getOrAcquire
  rw [h]
  by_cases hmem : opts.memoryCache.isSome = true
  · by_cases hutf : isUtf8 (requestedPath opts) = true
    · cases store.get? (requestedPath opts) <;> simp [hmem, hutf]
    · simp [hmem, hutf]
  · simp [hmem]

theorem handleFile_ok {r : StaticFileResponse} (h : handleFile crates t opts = .ok r) : ∃ m,
    getComposedFileMetadata crates t opts.headers opts.compressionStatic (requestedPath opts) opts.indexFiles = .ok m ∧
    checkAccess t opts m.checkedPath = .ok () ∧ respond crates t opts m = .ok r.resp ∧ r.filePath = m.filePath := by
  unfold handleFile at h
  split at h
  · cases h
  · rename_i m hm
    split at h
    · cases h
    · rename_i hcheck
      cases hresp : respond crates t opts m with
      | error e =>
          rw [hresp] at h
          cases h
      | ok resp =>
          rw [hresp] at h
          cases h
          exact ⟨m, hm, hcheck, hresp, rfl⟩

theorem handle_isAllowed {store : Store} {r : StaticFileResponse} (h : handle crates t store opts = .ok r) :
    isAllowed opts.method = true := by
  by_contra hno
  rw [handle, if_pos (by simpa using hno)] at h
  cases h

theorem handle_ok {store : Store} {r : StaticFileResponse} (h : handle crates t store opts = .ok r) :
    (∃ entry, cachedFile store opts = some entry ∧ r.resp = entry.responseBody crates opts.headers) ∨
      cachedFile store opts = none ∧ handleFile crates t opts = .ok r := by
  rw [handle_eq (handle_isAllowed h)] at h
  split at h
  · rename_i entry hentry
    cases h
    exact .inl ⟨entry, hentry, rfl⟩
  · exact .inr ⟨‹_›, h⟩

/-! ## Requests for the whole file -/

/-- A request without a range and without conditions. -/
def Unconditional (headers : HeaderMap) : Prop :=
  ∀ name ∈ [HeaderName.ifModifiedSince, .ifUnmodifiedSince, .ifRange, .range], headers.getAll name = []

instance (headers : HeaderMap) : Decidable (Unconditional headers) :=
  inferInstanceAs (Decidable (∀ _ ∈ _, _))

theorem check_of_unconditional {headers : HeaderMap} (h : Unconditional headers) (modified : Option Nat) :
    (ConditionalHeaders.new crates headers).check modified = .withBody none := by
  have h1 := h .ifModifiedSince (by decide)
  have h2 := h .ifUnmodifiedSince (by decide)
  have h3 := h .ifRange (by decide)
  have h4 := h .range (by decide)
  simp [ConditionalHeaders.check, ConditionalHeaders.new, typedGet, h1, h2, h3, h4]

theorem rangedResponse_none (len : Nat) (contentType : HeaderValue) (modified : Option Nat)
    (body : Nat → Nat → Body) : (rangedResponse crates none len contentType modified body).status = .ok ∧
      (rangedResponse crates none len contentType modified body).body = body 0 len := by
  cases modified <;> simp [rangedResponse, bytesRange, Response.new]

/-- The first bytes of an open file. Reading none succeeds even for a directory. -/
def readUpTo (file : FileTree.OpenFile) (n : Nat) : Option Octets :=
  if n = 0 then some [] else file.content.map (·.take n)

/-- The reply to a request for the whole file is as long as the metadata says. -/
theorem fileReply_whole_iff (h : Unconditional opts.headers) {path : Path} {metadata : Inode}
    {variantPath : Option Path} {mc : Option MemCacheOpts} {data : Octets} :
    (∃ resp, fileReply crates t opts.headers path metadata variantPath mc = .ok resp ∧ resp.status = .ok ∧
        resp.body.bytes = some data) ↔
      (∃ modified, lastModifiedOf metadata = .ok modified) ∧
        ∃ file, t.open (variantPath.getD path) = .ok file ∧ readUpTo file metadata.size = some data := by
  constructor
  · rintro ⟨resp, hresp, _, hbytes⟩
    obtain ⟨file, hopen, hresp⟩ := fileReply_ok hresp
    obtain ⟨modified, hdate, hresp⟩ := Checked.bind_eq_ok.mp hresp
    refine ⟨⟨modified, hdate⟩, file, hopen, ?_⟩
    rw [check_of_unconditional h] at hresp
    dsimp only at hresp
    rw [Checked.pure_eq_ok] at hresp
    subst hresp
    rw [(rangedResponse_none _ _ _ _).2] at hbytes
    simpa [Body.bytes, FileStream.bytes, Source.content, readUpTo] using hbytes
  · rintro ⟨⟨modified, hdate⟩, file, hopen, hread⟩
    have hbody : ∃ resp, responseBody crates file path metadata (ConditionalHeaders.new crates opts.headers) mc =
        .ok resp ∧ resp.status = .ok ∧ resp.body.bytes = some data := by
      unfold responseBody
      rw [hdate]
      simp only [bind, Except.bind, check_of_unconditional h, pure, Except.pure, Except.ok.injEq, exists_eq_left']
      refine ⟨(rangedResponse_none _ _ _ _).1, ?_⟩
      rw [(rangedResponse_none _ _ _ _).2]
      simpa [Body.bytes, FileStream.bytes, Source.content, readUpTo] using hread
    obtain ⟨resp, hresp, hrest⟩ := hbody
    exact ⟨resp, by simp only [fileReply, hopen, hresp], hrest⟩

theorem responseBody_whole (crates : Crates) {headers : HeaderMap} (h : Unconditional headers) (entry : MemFile) :
    (entry.responseBody crates headers).status = .ok ∧
      (entry.responseBody crates headers).body.bytes = some entry.data := by
  unfold MemFile.responseBody
  rw [check_of_unconditional h]
  dsimp only
  refine ⟨(rangedResponse_none _ _ _ _).1, ?_⟩
  rw [(rangedResponse_none _ _ _ _).2]
  by_cases hlen : entry.data = []
  · simp [Body.bytes, FileStream.bytes, hlen]
  · simp [Body.bytes, FileStream.bytes, Source.content, hlen]

theorem readUpTo_eq_some_iff {file : FileTree.OpenFile} {content : Octets} (h : file.content = some content) (n : Nat) :
    readUpTo file n = some content ↔ content.length ≤ n := by
  unfold readUpTo
  by_cases hn : n = 0
  · subst hn
    simp [eq_comm]
  · simp [hn, h]

/-- A file that is read up to its own size. -/
theorem open_sized_iff {p : Path} {i : Inode} (hfound : t.metadata p = .ok i) {data : Octets} :
    (∃ file, t.open p = .ok file ∧ readUpTo file i.size = some data) ↔
      i.kind = .file data ∨ i.size = 0 ∧ data = [] := by
  obtain ⟨c, hc, hnode⟩ := Posix.FileTree.stat_eq_ok.mp hfound
  have hopen : t.open p = .ok ⟨p, c, i⟩ := Posix.FileTree.open_eq_ok.mpr ⟨rfl, hc, hnode⟩
  rw [hopen]
  simp only [Except.ok.injEq, exists_eq_left']
  unfold readUpTo FileTree.OpenFile.content Posix.Inode.size
  dsimp only
  cases i.kind with
  | file content =>
      by_cases hempty : content = []
      · subst hempty
        simp [eq_comm]
      · simp [hempty]
  | dir entries size =>
      by_cases hsize : size = 0 <;> simp [hsize, eq_comm]
  | symlink target =>
      by_cases hsize : target.length = 0 <;> simp [hsize, eq_comm]
  | special => simp [eq_comm]

theorem variantReply_whole_iff {m : FileMetadata} {variantPath : Path} {encoding : ContentCoding} {data : Octets} :
    (∃ resp, variantReply crates t opts m variantPath encoding = .ok resp ∧ resp.status = .ok ∧
        resp.body.bytes = some data) ↔
      ∃ resp, fileReply crates t opts.headers m.filePath m.metadata (some variantPath) opts.memoryCache = .ok resp ∧
        resp.status = .ok ∧ resp.body.bytes = some data := by
  constructor
  · rintro ⟨resp, hresp, hstatus, hbytes⟩
    obtain ⟨r, hr, hr', hbody⟩ := variantReply_ok hresp
    exact ⟨r, hr, hr'.trans hstatus, hbody ▸ hbytes⟩
  · rintro ⟨r, hr, hrest⟩
    obtain ⟨value, hvalue⟩ : ∃ value, HeaderValue.fromStr encoding.asStr = some value := by
      cases encoding <;> exact ⟨_, rfl⟩
    refine ⟨(r.removeHeader .contentLength).insertHeader .contentEncoding value, ?_, hrest⟩
    exact Checked.bind_eq_ok.mpr ⟨r, hr, by rw [hvalue]⟩

end WeaveGate.Static
