import WeaveGate.Lib.Posix.Lemmas.Masked
import WeaveGate.Static.Lemmas.Reply

/-!
# What the answer to OPTIONS does not depend on

The handler finds the same file, whatever the bytes of the files are, and an answer to OPTIONS needs no more. Only
an entry of the cache is answered with before the method is looked at.
-/

namespace WeaveGate.Static

open Http
open Posix (Octets Path Name FileTree Inode Errno Canon)

variable {crates : Crates} {headers : HeaderMap} {compressionStatic : Bool} {opts : HandleOpts}

/-! ## The file a request resolves to -/

theorem tryMetadata_masked (t : FileTree) (p : Path) :
    tryMetadata t.masked p = (tryMetadata t p).map (Prod.map Inode.masked id) := by
  unfold tryMetadata
  rw [FileTree.metadata_masked]
  cases t.metadata p with
  | error e => rfl
  | ok i => simp [Except.map]

theorem tryMetadataWithHtmlSuffix_masked (t : FileTree) (p : Path) :
    tryMetadataWithHtmlSuffix t.masked p = Prod.map id (Option.map Inode.masked) (tryMetadataWithHtmlSuffix t p) := by
  unfold tryMetadataWithHtmlSuffix
  cases Posix.Path.fileName p with
  | none => rfl
  | some name =>
      simp only [tryMetadata_masked]
      cases tryMetadata t (Posix.Path.setFileName p (name ++ htmlSuffix)) <;> rfl

def CompressedFileVariant.masked (v : CompressedFileVariant) : CompressedFileVariant :=
  { v with metadata := v.metadata.masked }

theorem variantFor_masked (t : FileTree) (p : Path) (encoding : ContentCoding) :
    variantFor t.masked p encoding = (variantFor t p encoding).map CompressedFileVariant.masked := by
  unfold variantFor
  cases compExt encoding with
  | none => rfl
  | some ext =>
      cases (Posix.Path.fileName p).filter Utf8.valid with
      | none => rfl
      | some name =>
          simp only [Option.bind_eq_bind, Option.bind_some, tryMetadata_masked]
          cases tryMetadata t (Posix.Path.setFileName p (name ++ Posix.dot :: ext)) with
          | error s => rfl
          | ok r =>
              obtain ⟨metadata, isDir⟩ := r
              cases isDir <;> rfl

theorem variantOf_masked (t : FileTree) (p : Path) :
    variantOf crates t.masked headers compressionStatic p =
      (variantOf crates t headers compressionStatic p).map CompressedFileVariant.masked := by
  unfold variantOf precompressedVariant
  split
  · cases sortedEncodings crates headers with
    | none => rfl
    | some encodings =>
        simp only [Option.bind_some]
        rw [funext (variantFor_masked t p), List.map_findSome?]
        rfl
  · rfl

def FileMetadata.masked (m : FileMetadata) : FileMetadata := { m with metadata := m.metadata.masked }

theorem FileMetadata.ofFound_masked (t : FileTree) (p : Path) (metadata : Inode) (isDir : Bool) :
    FileMetadata.ofFound crates t.masked headers compressionStatic p metadata.masked isDir =
      (FileMetadata.ofFound crates t headers compressionStatic p metadata isDir).masked := by
  unfold FileMetadata.ofFound FileMetadata.masked
  rw [variantOf_masked, Option.map_map]
  rfl

def IndexSearch.masked : IndexSearch → IndexSearch
  | .variant result => .variant result.masked
  | .found filePath metadata => .found filePath metadata.masked
  | .notFound filePath => .notFound filePath

theorem findIndex_masked (t : FileTree) (filePath : Path) (indexFiles : List Path) :
    findIndex crates t.masked headers compressionStatic filePath indexFiles =
      (findIndex crates t headers compressionStatic filePath indexFiles).masked := by
  induction indexFiles generalizing filePath with
  | nil => rfl
  | cons index rest ih =>
      simp only [findIndex, variantOf_masked, tryMetadata_masked, tryMetadataWithHtmlSuffix_masked]
      cases variantOf crates t headers compressionStatic (filePath.push index) with
      | some v => rfl
      | none =>
          simp only [Option.map_none]
          cases tryMetadata t (filePath.push index) with
          | ok r => rfl
          | error s =>
              rcases tryMetadataWithHtmlSuffix t (filePath.push index).pop with ⟨p, _ | metadata⟩
              · exact ih p
              · rfl

theorem getComposedFileMetadata_masked (t : FileTree) (p : Path) (indexFiles : List Path) :
    getComposedFileMetadata crates t.masked headers compressionStatic p indexFiles =
      (getComposedFileMetadata crates t headers compressionStatic p indexFiles).map FileMetadata.masked := by
  unfold getComposedFileMetadata
  simp only [tryMetadata_masked, findIndex_masked, variantOf_masked, tryMetadataWithHtmlSuffix_masked]
  cases tryMetadata t p with
  | ok r =>
      obtain ⟨metadata, isDir⟩ := r
      cases isDir with
      | false => exact congrArg Except.ok (FileMetadata.ofFound_masked t p metadata false)
      | true =>
          simp only [Except.map, Prod.map, id]
          cases findIndex crates t headers compressionStatic p
              (if indexFiles = [] then defaultIndexFiles else indexFiles) with
          | variant result => rfl
          | found p metadata => exact congrArg Except.ok (FileMetadata.ofFound_masked t p metadata true)
          | notFound p => exact congrArg Except.ok (FileMetadata.ofFound_masked t _ metadata true)
  | error s =>
      simp only [Except.map]
      cases variantOf crates t headers compressionStatic p with
      | some v => rfl
      | none =>
          rcases tryMetadataWithHtmlSuffix t p with ⟨q, _ | metadata⟩
          · simp only [Option.map_none, Prod.map, id]
            cases variantOf crates t headers compressionStatic q <;> rfl
          · rfl

/-! ## Access -/

theorem containsSymlink_masked (t : FileTree) (current rel : Path) :
    containsSymlink t.masked current rel = containsSymlink t current rel := by
  induction rel generalizing current with
  | nil => rfl
  | cons c rel ih =>
      cases c with
      | normal name =>
          simp only [containsSymlink, FileTree.symlinkMetadata_masked, ih]
          cases t.symlinkMetadata (current.push [.normal name]) with
          | error e => rfl
          | ok metadata => simp [Except.map]
      | rootDir => exact ih current
      | curDir => exact ih current
      | parentDir => exact ih current

theorem checkAccess_masked (t : FileTree) (checked : Path) :
    checkAccess t.masked opts checked = checkAccess t opts checked := by
  unfold checkAccess
  simp only [FileTree.canonicalize_masked, containsSymlink_masked]

/-! ## Answers to OPTIONS -/

theorem respond_options (h : opts.method = .options) (t : FileTree) (m : FileMetadata) :
    respond crates t opts m = if m.isDir && opts.redirectTrailingSlash && !Text.endsWith opts.uriPath '/'
      then redirectReply opts else .ok optionsReply := by
  unfold respond
  rw [if_pos h]

theorem handleFile_masked (h : opts.method = .options) (t : FileTree) :
    handleFile crates t.masked opts = handleFile crates t opts := by
  unfold handleFile
  rw [getComposedFileMetadata_masked]
  cases getComposedFileMetadata crates t opts.headers opts.compressionStatic (requestedPath opts) opts.indexFiles with
  | error s => rfl
  | ok m =>
      simp only [Except.map, checkAccess_masked, respond_options h]
      rfl

/-! ## Entries of the cache -/

def MemFile.masked (self : MemFile) : MemFile := { self with data := List.replicate self.data.length 0 }

def Store.masked (store : Store) : Store := store.map fun e => (e.1, e.2.masked)

/-- Some bytes of the entry are sent. -/
def MemFile.Sends (crates : Crates) (headers : HeaderMap) (self : MemFile) : Prop :=
  self.data ≠ [] ∧ ∃ range, (ConditionalHeaders.new crates headers).check self.lastModified = .withBody range ∧
    (bytesRange range self.data.length).isSome

/-- The cache has an entry for the request, and bytes of it are sent. -/
def CacheSends (crates : Crates) (store : Store) (opts : HandleOpts) : Prop :=
  ∃ entry, cachedFile store opts = some entry ∧ entry.Sends crates opts.headers

theorem cachedFile_map (f : MemFile → MemFile) (store : Store) :
    cachedFile (store.map fun e => (e.1, f e.2)) opts = (cachedFile store opts).map f := by
  unfold cachedFile
  rw [Multimap.get?_map_snd]
  split <;> rfl

theorem MemFile.responseBody_masked {self : MemFile} (h : ¬ self.Sends crates headers) :
    self.masked.responseBody crates headers = self.responseBody crates headers := by
  by_cases hdata : self.data = []
  · have hsame : self.masked = self := by
      unfold MemFile.masked
      rw [hdata]
      cases self
      cases hdata
      rfl
    rw [hsame]
  · unfold MemFile.responseBody MemFile.masked
    cases hcheck : (ConditionalHeaders.new crates headers).check self.lastModified with
    | noBody resp => rfl
    | withBody range =>
        have hrange : bytesRange range self.data.length = none := by
          rw [← Option.not_isSome_iff_eq_none]
          exact fun hsome => h ⟨hdata, range, hcheck, hsome⟩
        simp only [rangedResponse, List.length_replicate, hrange]

theorem MemFile.sends_masked {self : MemFile} : self.masked.Sends crates headers ↔ self.Sends crates headers := by
  simp [MemFile.Sends, MemFile.masked]

theorem MemFile.responseBody_of_sends {self : MemFile} (h : self.Sends crates headers) :
    ∃ start subLen, (self.responseBody crates headers).body = .stream
      { source := .cursor self.data, start, subLen, bufSize := self.bufSize, mem := none } := by
  obtain ⟨-, range, hcheck, hrange⟩ := h
  obtain ⟨r, hrange⟩ := Option.isSome_iff_exists.mp hrange
  unfold MemFile.responseBody
  rw [hcheck]
  simp only [rangedResponse_body, hrange, Option.elim_some]
  exact ⟨_, _, rfl⟩

theorem cacheSends_masked (store : Store) : CacheSends crates store.masked opts ↔ CacheSends crates store opts := by
  unfold CacheSends
  rw [Store.masked, cachedFile_map]
  constructor
  · rintro ⟨entry, hentry, hsends⟩
    obtain ⟨entry, hcached, rfl⟩ := Option.map_eq_some_iff.mp hentry
    exact ⟨entry, hcached, MemFile.sends_masked.mp hsends⟩
  · rintro ⟨entry, hentry, hsends⟩
    exact ⟨entry.masked, by rw [hentry]; rfl, MemFile.sends_masked.mpr hsends⟩

theorem handle_masked {t : FileTree} {store : Store} (hmethod : opts.method = .options)
    (hsends : ¬ CacheSends crates store opts) :
    handle crates t.masked store.masked opts = handle crates t store opts := by
  have hallowed : isAllowed opts.method = true := by rw [hmethod]; decide
  rw [handle_eq hallowed, handle_eq hallowed, Store.masked, cachedFile_map, handleFile_masked hmethod]
  cases hcached : cachedFile store opts with
  | none => rfl
  | some entry =>
      have hentry : ¬ entry.Sends crates opts.headers := fun h => hsends ⟨entry, hcached, h⟩
      simp only [Option.map_some, MemFile.responseBody_masked hentry]

/-- Two servers whose files and cache entries have other bytes give the same answer. -/
theorem handle_of_masked_eq {t t' : FileTree} {store store' : Store} (htree : t'.masked = t.masked)
    (hstore : store'.masked = store.masked) (hmethod : opts.method = .options)
    (hsends : ¬ CacheSends crates store opts) : handle crates t' store' opts = handle crates t store opts := by
  have hsends' : ¬ CacheSends crates store' opts := by
    rw [← cacheSends_masked, hstore, cacheSends_masked]
    exact hsends
  calc handle crates t' store' opts = handle crates t'.masked store'.masked opts :=
        (handle_masked hmethod hsends').symm
    _ = handle crates t.masked store.masked opts := by rw [htree, hstore]
    _ = handle crates t store opts := handle_masked hmethod hsends

end WeaveGate.Static
