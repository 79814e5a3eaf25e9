import WeaveGate.Static.Lemmas.Reply

/-!
# Header fields of the static handler

Which fields of a request it reads, and which fields its answers have.
-/

namespace WeaveGate.Static

open Http
open Posix (Octets Path FileTree Inode Name)

variable {crates : Crates} {t : FileTree} {opts : HandleOpts}

/-! ## Fields of a request -/

def conditionFields : List HeaderName := [.ifModifiedSince, .ifUnmodifiedSince, .ifRange, .range]

theorem typedGet_congr {α : Type} {headers headers' : HeaderMap} {name : HeaderName} (decode : List HeaderValue → Option α)
    (h : headers'.getAll name = headers.getAll name) : typedGet headers' name decode = typedGet headers name decode := by
  unfold typedGet
  rw [h]

theorem conditionals_congr {headers headers' : HeaderMap}
    (h : ∀ name ∈ conditionFields, headers'.getAll name = headers.getAll name) :
    ConditionalHeaders.new crates headers' = ConditionalHeaders.new crates headers := by
  unfold ConditionalHeaders.new
  rw [typedGet_congr _ (h .ifModifiedSince (by decide)), typedGet_congr _ (h .ifUnmodifiedSince (by decide)),
    typedGet_congr _ (h .ifRange (by decide)), typedGet_congr _ (h .range (by decide))]

theorem fileReply_congr {headers headers' : HeaderMap}
    (h : ∀ name ∈ conditionFields, headers'.getAll name = headers.getAll name) (path : Path) (metadata : Inode)
    (variantPath : Option Path) (mc : Option MemCacheOpts) :
    fileReply crates t headers' path metadata variantPath mc = fileReply crates t headers path metadata variantPath mc := by
  unfold fileReply
  rw [conditionals_congr h]

/-- Codings matter where pre-compressed variants are looked for. -/
theorem variantOf_congr {headers headers' : HeaderMap} {compressionStatic : Bool} (h : compressionStatic = true →
    headers'.getAll .acceptEncoding = headers.getAll .acceptEncoding) :
    variantOf crates t headers' compressionStatic = variantOf crates t headers compressionStatic := by
  funext path
  unfold variantOf
  split
  · rename_i hstatic
    unfold precompressedVariant sortedEncodings
    rw [h hstatic]
  · rfl

theorem findIndex_congr {headers headers' : HeaderMap} {compressionStatic : Bool}
    (h : variantOf crates t headers' compressionStatic = variantOf crates t headers compressionStatic) (path : Path)
    (indexFiles : List Path) : findIndex crates t headers' compressionStatic path indexFiles =
      findIndex crates t headers compressionStatic path indexFiles := by
  induction indexFiles generalizing path with
  | nil => rfl
  | cons index rest ih =>
      unfold findIndex
      simp only [h, ih]

theorem getComposedFileMetadata_congr {headers headers' : HeaderMap} {compressionStatic : Bool}
    (h : variantOf crates t headers' compressionStatic = variantOf crates t headers compressionStatic) (path : Path)
    (indexFiles : List Path) : getComposedFileMetadata crates t headers' compressionStatic path indexFiles =
      getComposedFileMetadata crates t headers compressionStatic path indexFiles := by
  unfold getComposedFileMetadata FileMetadata.ofFound
  simp only [h, findIndex_congr h]

theorem respond_congr {headers : HeaderMap} (h : ∀ name ∈ conditionFields, headers.getAll name = opts.headers.getAll name)
    (m : FileMetadata) : respond crates t { opts with headers := headers } m = respond crates t opts m := by
  unfold respond variantReply
  simp only [fileReply_congr h]
  rfl

/-- Fields other than these do not matter. -/
theorem handle_congr {headers : HeaderMap} (store : Store)
    (hconditions : ∀ name ∈ conditionFields, headers.getAll name = opts.headers.getAll name)
    (hcodings : opts.compressionStatic = true → headers.getAll .acceptEncoding = opts.headers.getAll .acceptEncoding) :
    handle crates t store { opts with headers := headers } = handle crates t store opts := by
  have hfile : handleFile crates t { opts with headers := headers } = handleFile crates t opts := by
    unfold handleFile
    simp only [getComposedFileMetadata_congr (variantOf_congr hcodings), respond_congr hconditions]
    rfl
  by_cases hallowed : isAllowed opts.method = true
  · have hcached : cachedFile store { opts with headers := headers } = cachedFile store opts := rfl
    have hhandle : handle crates t store { opts with headers := headers } = _ := handle_eq hallowed
    rw [handle_eq hallowed, hhandle, hcached, hfile]
    cases cachedFile store opts with
    | none => rfl
    | some entry =>
        unfold MemFile.responseBody
        rw [conditionals_congr hconditions]
        rfl
  · unfold handle
    rw [if_pos (by simpa using hallowed), if_pos (by simpa using hallowed)]

/-! ## Fields of an answer -/

def OnlyFields (names : List HeaderName) (resp : Response Body) : Prop := ∀ field ∈ resp.headers, field.1 ∈ names

def staticFields : List HeaderName :=
  [.contentType, .contentLength, .contentRange, .contentEncoding, .acceptRanges, .lastModified, .location, .allow,
    .contentDisposition]

theorem OnlyFields.insertHeader {names : List HeaderName} {resp : Response Body} (h : OnlyFields names resp)
    (name : HeaderName) (hname : name ∈ names) (value : HeaderValue) : OnlyFields names (resp.insertHeader name value) :=
  Multimap.forall_key_insert value hname h

theorem OnlyFields.removeHeader {names : List HeaderName} {resp : Response Body} (h : OnlyFields names resp)
    (name : HeaderName) : OnlyFields names (resp.removeHeader name) := fun field hfield => h field (List.mem_of_mem_filter hfield)

theorem OnlyFields.getAll {names : List HeaderName} {resp : Response Body} (h : OnlyFields names resp) {name : HeaderName}
    (hname : name ∉ names) : resp.headers.getAll name = [] := by
  rw [Multimap.getAll, List.map_eq_nil_iff, List.filter_eq_nil_iff]
  intro field hfield heq
  exact hname (of_decide_eq_true heq ▸ h field hfield)

theorem onlyFields_new (names : List HeaderName) (body : Body) : OnlyFields names (Response.new body) := fun _ h => nomatch h

theorem rangedResponse_fields (range : Option (List RangeSpec)) (len : Nat) (contentType : HeaderValue)
    (modified : Option Nat) (body : Nat → Nat → Body) :
    OnlyFields staticFields (rangedResponse crates range len contentType modified body) := by
  unfold rangedResponse
  split
  · exact (onlyFields_new staticFields Body.empty).insertHeader .contentRange (by decide) _
  · rename_i first last _
    dsimp only
    have hpart : OnlyFields staticFields (if last - first ≠ len then ((Response.new (body first (last - first))).withStatus
        .partialContent).insertHeader .contentRange (contentRangeBytes first last len)
        else Response.new (body first (last - first))) := by
      split
      · exact (onlyFields_new staticFields (body first (last - first))).insertHeader .contentRange (by decide) _
      · exact onlyFields_new _ _
    have hrest := ((hpart.insertHeader .contentLength (by decide) (decimal (last - first))).insertHeader .contentType
      (by decide) contentType).insertHeader .acceptRanges (by decide) (HeaderValue.fromStatic "bytes")
    cases modified with
    | none => exact hrest
    | some secs => exact hrest.insertHeader .lastModified (by decide) _

theorem check_fields {c : ConditionalHeaders} {modified : Option Nat} {resp : Response Body}
    (h : c.check modified = .noBody resp) : OnlyFields staticFields resp := by
  intro field hfield
  rw [check_noBody_headers h] at hfield
  cases hfield

theorem responseBody_fields {file : FileTree.OpenFile} {path : Path} {metadata : Inode} {c : ConditionalHeaders}
    {mc : Option MemCacheOpts} {resp : Response Body} (h : responseBody crates file path metadata c mc = .ok resp) :
    OnlyFields staticFields resp := by
  obtain ⟨modified, _, h⟩ := Checked.bind_eq_ok.mp h
  split at h
  · rename_i hnone
    cases h
    exact check_fields hnone
  · cases h
    exact rangedResponse_fields _ _ _ _ _

theorem MemFile.responseBody_fields (self : MemFile) (headers : HeaderMap) :
    OnlyFields staticFields (self.responseBody crates headers) := by
  unfold MemFile.responseBody
  split
  · exact check_fields ‹_›
  · exact rangedResponse_fields _ _ _ _ _

theorem autoIndex_fields {p : Path} {resp : Response Body} (h : autoIndex crates t opts p = .ok resp) :
    OnlyFields staticFields resp := by
  obtain ⟨entries, rfl⟩ := autoIndex_reply h
  have hfields := fun contentType length => ((onlyFields_new staticFields Body.empty).insertHeader .contentType
    (by decide) contentType).insertHeader .contentLength (by decide) length
  unfold entriesReply
  dsimp only
  split
  · exact hfields _ _
  · exact hfields _ _

theorem archiveReply_fields (name : Name) (p : Path) : OnlyFields staticFields (archiveReply name p opts) := by
  have hfields : OnlyFields staticFields ((Response.new Body.empty).insertHeader .contentType
      (HeaderValue.fromStatic "application/gzip")) := (onlyFields_new _ _).insertHeader .contentType (by decide) _
  unfold archiveReply
  dsimp only
  cases HeaderValue.fromOctets _ with
  | none => split <;> exact hfields
  | some hval => split <;> exact hfields.insertHeader .contentDisposition (by decide) hval

theorem respond_fields {m : FileMetadata} {resp : Response Body} (h : respond crates t opts m = .ok resp) :
    OnlyFields staticFields resp := by
  unfold respond at h
  split at h
  · unfold redirectReply at h
    dsimp only at h
    split at h
    · cases h
      exact (onlyFields_new staticFields Body.empty).insertHeader .location (by decide) _
    · cases h
  · split at h
    · cases h
      exact ((onlyFields_new staticFields Body.empty).insertHeader .allow (by decide) _).insertHeader .acceptRanges
        (by decide) _
    · split at h
      · unfold listingReply at h
        split at h
        · split at h
          · cases h
            exact archiveReply_fields _ _
          · cases h
        · exact autoIndex_fields h
      · split at h
        · obtain ⟨r, hr, h⟩ := Checked.bind_eq_ok.mp h
          obtain ⟨_, _, hr⟩ := fileReply_ok hr
          split at h
          · cases h
          · cases h
            exact ((responseBody_fields hr).removeHeader .contentLength).insertHeader .contentEncoding (by decide) _
        · obtain ⟨_, _, hr⟩ := fileReply_ok h
          exact responseBody_fields hr

theorem handle_fields {store : Store} {r : StaticFileResponse} (h : handle crates t store opts = .ok r) :
    OnlyFields staticFields r.resp := by
  rcases handle_ok h with ⟨entry, _, hresp⟩ | ⟨_, hfile⟩
  · rw [hresp]
    exact entry.responseBody_fields opts.headers
  · obtain ⟨_, _, _, hresp, _⟩ := handleFile_ok hfile
    exact respond_fields hresp

end WeaveGate.Static
