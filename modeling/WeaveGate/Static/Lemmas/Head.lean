import WeaveGate.Static.Lemmas.Reply

/-!
# Requests for the head of a reply

HEAD against GET: the same status and the same header fields, and what a `Content-Length` among them says.
-/

namespace WeaveGate.Static

open Http
open Posix (Octets Path Name FileTree Inode Errno)

variable {crates : Crates} {t : FileTree} {store : Store} {opts : HandleOpts}

/-- What a reply has apart from its body. -/
def parts (resp : Response Body) : StatusCode × HeaderMap := (resp.status, resp.headers)

/-- The same request with HEAD. -/
def HandleOpts.head (opts : HandleOpts) : HandleOpts := { opts with method := .head }

/-! ## Each reply -/

theorem archiveReply_head (opts : HandleOpts) (name : Name) (p : Path) :
    parts (archiveReply name p opts.head) = parts (archiveReply name p opts) := by
  unfold archiveReply
  dsimp only
  by_cases h : methodIsHead opts.method = true
  · rw [if_pos h]
    rfl
  · rw [if_neg h]
    rfl

theorem entriesReply_head (crates : Crates) (opts : HandleOpts) (entries : List FileEntry) :
    parts (entriesReply crates opts.head entries) = parts (entriesReply crates opts entries) := by
  unfold entriesReply
  dsimp only
  by_cases h : methodIsHead opts.method = true
  · rw [if_pos h]
    rfl
  · rw [if_neg h]
    rfl

theorem readDirEntries_head (crates : Crates) (t : FileTree) (opts : HandleOpts) (parent : Path) (names : List Name) :
    (readDirEntries crates t opts.head parent names).map parts =
      (readDirEntries crates t opts parent names).map parts := by
  cases hroot : t.canonicalize opts.basePath with
  | error e =>
      have hroot' : t.canonicalize opts.head.basePath = .error e := hroot
      unfold readDirEntries
      rw [hroot, hroot']
      rfl
  | ok rootPathAbs =>
      have hroot' : t.canonicalize opts.head.basePath = .ok rootPathAbs := hroot
      have hentries : fileEntry t opts.head rootPathAbs parent = fileEntry t opts rootPathAbs parent := rfl
      rw [readDirEntries_eq hroot, readDirEntries_eq hroot', hentries]
      dsimp only
      split
      · exact congrArg Except.ok (entriesReply_head _ _ _)
      · rfl

theorem autoIndex_head (crates : Crates) (t : FileTree) (opts : HandleOpts) (p : Path) :
    (autoIndex crates t opts.head p).map parts = (autoIndex crates t opts p).map parts := by
  unfold autoIndex
  dsimp only
  cases t.readDir ((Posix.Path.parent p).getD p) with
  | error e => cases e <;> rfl
  | ok names => exact readDirEntries_head crates t opts ((Posix.Path.parent p).getD p) names

theorem listingReply_head (crates : Crates) (t : FileTree) (opts : HandleOpts) (p : Path) :
    (listingReply crates t opts.head p).map parts = (listingReply crates t opts p).map parts := by
  have hquery : opts.head.uriQuery = opts.uriQuery := rfl
  have hdownload : opts.head.dirListingDownload = opts.dirListingDownload := rfl
  unfold listingReply
  rw [hquery, hdownload]
  split
  · cases Posix.Path.fileName p.pop with
    | none => rfl
    | some name => exact congrArg Except.ok (archiveReply_head opts name p.pop)
  · exact autoIndex_head crates t opts p

theorem respond_head (crates : Crates) (t : FileTree) (hmethod : opts.method = .get) (m : FileMetadata) :
    (respond crates t opts.head m).map parts = (respond crates t opts m).map parts := by
  have hget : ¬ opts.method = .options := by rw [hmethod]; decide
  have hhead : ¬ opts.head.method = .options := fun h => nomatch (show Method.head = .options from h)
  have hslash : (m.isDir && opts.head.redirectTrailingSlash && !Text.endsWith opts.head.uriPath '/') =
      (m.isDir && opts.redirectTrailingSlash && !Text.endsWith opts.uriPath '/') := rfl
  have hlist : (m.isDir && opts.head.dirListing && !t.exists m.filePath) =
      (m.isDir && opts.dirListing && !t.exists m.filePath) := rfl
  unfold respond
  rw [if_neg hget, if_neg hhead, hslash, hlist]
  split
  · rfl
  · split
    · exact listingReply_head crates t opts m.filePath
    · cases m.precompressedVariant <;> rfl

/-- HEAD is answered as GET is, apart from the body. -/
theorem handle_head (crates : Crates) (t : FileTree) (store : Store) (hmethod : opts.method = .get) :
    (handle crates t store opts.head).map (fun r => (parts r.resp, r.filePath)) =
      (handle crates t store opts).map fun r => (parts r.resp, r.filePath) := by
  have hcached : cachedFile store opts.head = cachedFile store opts := rfl
  have hget : isAllowed opts.method = true := by rw [hmethod]; rfl
  have hhead : isAllowed opts.head.method = true := rfl
  rw [handle_eq hget, handle_eq hhead, hcached]
  cases cachedFile store opts with
  | some entry => rfl
  | none =>
      have hcomposed : getComposedFileMetadata crates t opts.head.headers opts.head.compressionStatic
          (requestedPath opts.head) opts.head.indexFiles =
          getComposedFileMetadata crates t opts.headers opts.compressionStatic (requestedPath opts) opts.indexFiles := rfl
      simp only
      unfold handleFile
      rw [hcomposed]
      cases getComposedFileMetadata crates t opts.headers opts.compressionStatic (requestedPath opts) opts.indexFiles with
      | error s => rfl
      | ok m =>
          have haccess : checkAccess t opts.head m.checkedPath = checkAccess t opts m.checkedPath := rfl
          simp only [haccess]
          cases checkAccess t opts m.checkedPath with
          | error s => rfl
          | ok _ =>
              obtain ⟨e, hhead, hget⟩ | ⟨resp, resp', hhead, hget, hparts⟩ :=
                Checked.map_eq_map (respond_head crates t hmethod m)
              · simp only [hhead, hget]
              · simp only [hhead, hget, Except.map, hparts]

/-! ## The length of a reply -/

theorem decimal_injective {n k : Nat} (h : decimal n = decimal k) : n = k := by
  have hread : ∀ n, HeaderValue.toStr (decimal n) = some (Nat.toDigits 10 n) := fun n =>
    (HeaderValue.fromStr_printable (HeaderValue.toDigits_printable n)).2
  have htext := congrArg HeaderValue.toStr h
  rw [hread, hread] at htext
  rw [← @Nat.ofDigitChars_ten_toDigits n, Option.some.inj htext, Nat.ofDigitChars_ten_toDigits]

/-- What a length among the header fields says of the body. -/
def LengthAgrees (resp : Response Body) : Prop :=
  ∀ v ∈ resp.headers.getAll .contentLength, ∃ data, resp.body.bytes = some data ∧ v = decimal data.length

theorem lengthAgrees_of_none {resp : Response Body} (h : resp.headers.getAll .contentLength = []) :
    LengthAgrees resp := by
  intro v hv
  rw [h] at hv
  cases hv

theorem lengthAgrees_full {resp : Response Body} {content : Octets}
    (hlength : resp.headers.getAll .contentLength = [decimal content.length]) (hbody : resp.body = .full content) :
    LengthAgrees resp := by
  intro v hv
  rw [hlength] at hv
  exact ⟨content, by rw [hbody]; rfl, List.mem_singleton.mp hv⟩

theorem check_withBody_none {headers : HeaderMap} (hrange : headers.getAll .range = []) {modified : Option Nat}
    {range : Option (List RangeSpec)}
    (h : (ConditionalHeaders.new crates headers).check modified = .withBody range) : range = none := by
  have hnone : (ConditionalHeaders.new crates headers).range = none := by
    simp [ConditionalHeaders.new, typedGet, hrange]
  unfold ConditionalHeaders.check at h
  split at h
  · cases h
  · split at h
    · cases h
    · split at h
      · cases h
        rfl
      · cases h
        exact hnone

theorem lengthAgrees_whole (crates : Crates) (len : Nat) (contentType : HeaderValue) (modified : Option Nat)
    (body : Nat → Nat → Body) : LengthAgrees (rangedResponse crates none len contentType modified body) ↔
      ∃ data, (body 0 len).bytes = some data ∧ data.length = len := by
  have hwhole : bytesRange none len = some (0, len) := rfl
  have hlength := (rangedResponse_part crates hwhole contentType modified body).2.1
  unfold LengthAgrees
  rw [hlength, (rangedResponse_none len contentType modified body).2]
  constructor
  · intro h
    obtain ⟨data, hdata, hlen⟩ := h _ List.mem_cons_self
    exact ⟨data, hdata, (decimal_injective hlen).symm⟩
  · rintro ⟨data, hdata, hlen⟩ v hv
    exact ⟨data, hdata, by rw [List.mem_singleton.mp hv, hlen]; rfl⟩

theorem readUpTo_whole_iff {file : FileTree.OpenFile} {n : Nat} :
    (∃ data, readUpTo file n = some data ∧ data.length = n) ↔ n ≤ (file.content.getD []).length := by
  unfold readUpTo
  by_cases hn : n = 0
  · simp [hn]
  · rw [if_neg hn]
    cases file.content with
    | none => simp [hn]
    | some content => simp

theorem listingReply_lengthAgrees {p : Path} {resp : Response Body} (hmethod : opts.method = .get)
    (h : listingReply crates t opts p = .ok resp) : LengthAgrees resp := by
  have hhead : ¬ methodIsHead opts.method = true := by rw [hmethod]; decide
  unfold listingReply at h
  split at h
  · cases hname : Posix.Path.fileName p.pop with
    | none =>
        rw [hname] at h
        cases h
    | some name =>
        rw [hname] at h
        cases h
        refine lengthAgrees_of_none ?_
        unfold archiveReply
        rw [if_neg hhead]
        dsimp only
        cases HeaderValue.fromOctets _ with
        | none => rfl
        | some hval => rfl
  · obtain ⟨entries, rfl⟩ := autoIndex_reply h
    unfold entriesReply
    dsimp only
    rw [if_neg hhead]
    exact lengthAgrees_full (by simp [Response.insertHeader_getAll, decimal]) rfl

theorem variantReply_lengthAgrees {m : FileMetadata} {variantPath : Path} {encoding : ContentCoding}
    {resp : Response Body} (h : variantReply crates t opts m variantPath encoding = .ok resp) : LengthAgrees resp := by
  obtain ⟨r, _, h⟩ := Checked.bind_eq_ok.mp h
  split at h
  · cases h
  · cases h
    refine lengthAgrees_of_none ?_
    rw [Response.insertHeader_getAll, if_neg (by decide), Response.removeHeader, Multimap.getAll_remove, if_pos rfl]

theorem redirectReply_lengthAgrees {resp : Response Body} (h : redirectReply opts = .ok resp) : LengthAgrees resp := by
  unfold redirectReply at h
  dsimp only at h
  split at h
  · cases h
    exact lengthAgrees_of_none rfl
  · cases h

theorem afterCheck_lengthAgrees_iff {headers : HeaderMap} (hrange : headers.getAll .range = []) (len : Nat)
    (contentType : HeaderValue) (modified : Option Nat) (body : Nat → Nat → Body) :
    LengthAgrees (afterCheck ((ConditionalHeaders.new crates headers).check modified) fun range =>
      rangedResponse crates range len contentType modified body) ↔
    ((ConditionalHeaders.new crates headers).check modified = .withBody none →
      ∃ data, (body 0 len).bytes = some data ∧ data.length = len) := by
  cases hcheck : (ConditionalHeaders.new crates headers).check modified with
  | noBody resp =>
      refine iff_of_true (lengthAgrees_of_none ?_) (fun h => nomatch h)
      rw [afterCheck, check_noBody_headers hcheck]
      rfl
  | withBody range =>
      rw [check_withBody_none hrange hcheck, afterCheck, lengthAgrees_whole]
      exact ⟨fun h _ => h, fun h => h rfl⟩

/-- The request is answered with the file itself, from the disk and whole, in no other coding. -/
structure SendsFile (crates : Crates) (t : FileTree) (store : Store) (opts : HandleOpts) (m : FileMetadata)
    (file : FileTree.OpenFile) : Prop where
  uncached : cachedFile store opts = none
  composed : getComposedFileMetadata crates t opts.headers opts.compressionStatic (requestedPath opts)
    opts.indexFiles = .ok m
  granted : checkAccess t opts m.checkedPath = .ok ()
  slash : (m.isDir && opts.redirectTrailingSlash && !Text.endsWith opts.uriPath '/') = false
  unlisted : (m.isDir && opts.dirListing && !t.exists m.filePath) = false
  uncoded : m.precompressedVariant = none
  opened : t.open m.filePath = .ok file
  asked : ∃ modified, lastModifiedOf m.metadata = .ok modified ∧
    (ConditionalHeaders.new crates opts.headers).check modified = .withBody none

/-- The bytes of the stream of a file. -/
theorem fileStream_bytes (mc : Option MemCacheOpts) (file : FileTree.OpenFile) (path : Path) (metadata : Inode)
    (modified : Option Nat) (len : Nat) :
    (fileStream crates mc file path metadata modified 0 len).bytes = readUpTo file len := by
  simp [fileStream, FileStream.bytes, Source.content, readUpTo]

theorem responseBody_lengthAgrees_iff (hrange : opts.headers.getAll .range = []) {file : FileTree.OpenFile} {path : Path}
    {metadata : Inode} {mc : Option MemCacheOpts} {modified : Option Nat}
    (hdate : lastModifiedOf metadata = .ok modified) {resp : Response Body}
    (h : responseBody crates file path metadata (ConditionalHeaders.new crates opts.headers) mc = .ok resp) :
    LengthAgrees resp ↔ ((ConditionalHeaders.new crates opts.headers).check modified = .withBody none →
      metadata.size ≤ (file.content.getD []).length) := by
  rw [responseBody_eq crates file path mc hdate] at h
  cases h
  rw [afterCheck_lengthAgrees_iff hrange, ← readUpTo_whole_iff, ← fileStream_bytes mc file path metadata modified]
  rfl

theorem handle_of_sendsFile (hmethod : opts.method = .get) {m : FileMetadata} {file : FileTree.OpenFile}
    (h : SendsFile crates t store opts m file) : ∃ resp, handle crates t store opts = .ok ⟨resp, m.filePath⟩ ∧
    responseBody crates file m.filePath m.metadata (ConditionalHeaders.new crates opts.headers) opts.memoryCache =
      .ok resp := by
  have hallowed : isAllowed opts.method = true := by rw [hmethod]; rfl
  have hoptions : ¬ opts.method = .options := by rw [hmethod]; decide
  obtain ⟨modified, hdate, _⟩ := h.asked
  have hbody := responseBody_eq crates file m.filePath opts.memoryCache hdate
    (ConditionalHeaders.new crates opts.headers)
  refine ⟨_, ?_, hbody⟩
  rw [handle_eq hallowed, h.uncached]
  simp only [handleFile, h.composed, h.granted, respond, h.slash, Bool.false_eq_true, if_false, hoptions, h.unlisted,
    h.uncoded, fileReply, Option.getD_none, h.opened, hbody, Except.map]

theorem entry_lengthAgrees (hrange : opts.headers.getAll .range = []) (entry : MemFile) :
    LengthAgrees (entry.responseBody crates opts.headers) := by
  rw [MemFile.responseBody_eq, afterCheck_lengthAgrees_iff hrange]
  intro _
  refine ⟨entry.data, ?_, rfl⟩
  by_cases hempty : entry.data = []
  · simp [Body.bytes, FileStream.bytes, hempty]
  · simp [Body.bytes, FileStream.bytes, Source.content, hempty]

/-- A length among the header fields is that of the body, unless a file is sent that gives fewer bytes than its
metadata says. -/
theorem handle_lengthAgrees_iff (crates : Crates) (t : FileTree) (store : Store) (hmethod : opts.method = .get)
    (hrange : opts.headers.getAll .range = []) :
    (∀ r, handle crates t store opts = .ok r → LengthAgrees r.resp) ↔
      ∀ m file, SendsFile crates t store opts m file → m.metadata.size ≤ (file.content.getD []).length := by
  have hoptions : ¬ opts.method = .options := by rw [hmethod]; decide
  constructor
  · intro h m file hsends
    obtain ⟨resp, hreply, hbody⟩ := handle_of_sendsFile hmethod hsends
    obtain ⟨modified, hdate, hcheck⟩ := hsends.asked
    exact (responseBody_lengthAgrees_iff hrange hdate hbody).mp (h _ hreply) hcheck
  · intro h r hr
    rcases handle_ok hr with ⟨entry, _, hresp⟩ | ⟨huncached, hfile⟩
    · rw [hresp]
      exact entry_lengthAgrees hrange entry
    · obtain ⟨m, hcomposed, hgranted, hrespond, _⟩ := handleFile_ok hfile
      unfold respond at hrespond
      rw [if_neg hoptions] at hrespond
      split at hrespond
      · exact redirectReply_lengthAgrees hrespond
      · rename_i hslash
        split at hrespond
        · exact listingReply_lengthAgrees hmethod hrespond
        · rename_i hunlisted
          split at hrespond
          · exact variantReply_lengthAgrees hrespond
          · rename_i huncoded
            obtain ⟨file, hopened, hreply⟩ := fileReply_ok hrespond
            obtain ⟨modified, hdate, _⟩ := Checked.bind_eq_ok.mp hreply
            refine (responseBody_lengthAgrees_iff hrange hdate hreply).mpr fun hcheck => ?_
            exact h m file ⟨huncached, hcomposed, hgranted, by simpa using hslash, by simpa using hunlisted, huncoded,
              hopened, modified, hdate, hcheck⟩

end WeaveGate.Static
