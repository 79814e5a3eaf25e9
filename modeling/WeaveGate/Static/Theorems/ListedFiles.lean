import WeaveGate.Static.Lemmas.IndexSearch
import WeaveGate.Static.Theorems.Dates
import WeaveGate.Static.Theorems.Hidden
import WeaveGate.Static.Theorems.IndexPage
import WeaveGate.Static.Theorems.Links

/-!
# Files behind a listing

The files that a listing shows can be fetched by its links, with the sizes that it shows.
-/

namespace WeaveGate.Static

open Http
open Posix (Octets Path Name FileTree Inode Canon)

variable {crates : Crates} {t : FileTree} {store : Store} {opts : HandleOpts}

/-! ## The directory of a listing -/

theorem composed_listing {headers : HeaderMap} {compressionStatic : Bool} {filePath : Path} {indexFiles : List Path}
    {m : FileMetadata} (hindex : ∀ index ∈ indexFiles, ∃ n, index = [.normal n])
    (h : getComposedFileMetadata crates t headers compressionStatic filePath indexFiles = .ok m)
    (hdir : m.isDir = true) (hmissing : t.exists m.filePath = false) : ∃ n, m.filePath = filePath ++ [.normal n] := by
  unfold getComposedFileMetadata at h
  dsimp only at h
  split at h
  · cases h
    cases hdir
  · obtain ⟨files, hfiles⟩ : ∃ files, files = if indexFiles = [] then defaultIndexFiles else indexFiles := ⟨_, rfl⟩
    have hnames : ∀ index ∈ files, ∃ n, index = [.normal n] := by
      rw [hfiles]
      split_ifs
      · exact List.forall_mem_singleton.mpr ⟨_, rfl⟩
      · exact hindex
    have hne : files ≠ [] := by
      rw [hfiles]
      split_ifs with hempty
      · exact List.cons_ne_nil _ _
      · exact hempty
    rw [← hfiles] at h
    split at h
    · cases h
      obtain ⟨_, _, _, rfl⟩ := findIndex_variant ‹_›
      cases hdir
    · rename_i p i hfound
      cases h
      rw [FileMetadata.ofFound, FileTree.exists, findIndex_found hfound] at hmissing
      cases hmissing
    · rename_i p hnone
      cases h
      obtain ⟨n, hn⟩ := hnames _ (List.getLast_mem hne)
      refine ⟨n, ?_⟩
      rw [FileMetadata.ofFound, findIndex_notFound hnone hnames, List.getLast?_eq_some_getLast hne, Option.getD_some, hn,
        Posix.Path.push_normal]
  · split at h
    · cases h
      cases hdir
    · split at h
      · cases h
        cases hdir
      · split at h
        · cases h
          cases hdir
        · cases h

theorem respond_listing {m : FileMetadata} {resp : Response Body} {page : Octets} (h : respond crates t opts m = .ok resp)
    (hbody : resp.body = .full page) : opts.method ≠ .options ∧ m.isDir = true ∧ t.exists m.filePath = false ∧
      autoIndex crates t opts m.filePath = .ok resp := by
  have hdir := isDir_of_listsDirectory (respond_full h hbody)
  unfold respond at h
  split at h
  · cases (redirectReply_body h).symm.trans hbody
  · split at h
    · cases h
      cases hbody
    · rename_i hoptions
      split at h
      · rename_i hlisted
        simp only [Bool.and_eq_true, Bool.not_eq_true'] at hlisted
        unfold listingReply at h
        split at h
        · split at h
          · cases h
            rcases archiveReply_body opts _ m.filePath.pop with hempty | ⟨job, hjob, _⟩
            · cases hempty.symm.trans hbody
            · cases hjob.symm.trans hbody
          · cases h
        · exact ⟨hoptions, hdir, hlisted.2, h⟩
      · split at h
        · obtain ⟨r, hr, _, hbody'⟩ := variantReply_ok h
          rcases fileReply_body hr with hempty | ⟨s, hs⟩
          · cases hempty.symm.trans (hbody'.trans hbody)
          · cases hs.symm.trans (hbody'.trans hbody)
        · rcases fileReply_body h with hempty | ⟨s, hs⟩
          · cases hempty.symm.trans hbody
          · cases hs.symm.trans hbody

/-- What a listing was made from: the requested directory, which has no index file. -/
structure Lists (crates : Crates) (t : FileTree) (opts : HandleOpts) (resp : Response Body) (names : List Name) :
    Prop where
  read : t.readDir (requestedPath opts) = .ok names
  page : readDirEntries crates t opts (requestedPath opts) names = .ok resp
  granted : checkAccess t opts (requestedPath opts) = .ok ()
  method : opts.method ≠ .options

theorem handle_full {r : StaticFileResponse} (hindex : ∀ index ∈ opts.indexFiles, ∃ n, index = [.normal n])
    (h : handle crates t store opts = .ok r) {page : Octets} (hpage : r.resp.body = .full page) :
    ∃ names, Lists crates t opts r.resp names := by
  rcases handle_ok h with ⟨entry, _, hresp⟩ | ⟨_, hfile⟩
  · rw [hresp] at hpage
    rcases entry.responseBody_body opts.headers with hempty | ⟨s, hs, _⟩
    · cases hempty.symm.trans hpage
    · cases hs.symm.trans hpage
  · obtain ⟨m, hcomposed, hgranted, hrespond, _⟩ := handleFile_ok hfile
    obtain ⟨hoptions, hdir, hmissing, hindexed⟩ := respond_listing hrespond hpage
    obtain ⟨n, hpath⟩ := composed_listing hindex hcomposed hdir hmissing
    obtain ⟨names, hnames, hread⟩ := autoIndex_ok hindexed
    have hparent : (Posix.Path.parent m.filePath).getD m.filePath = requestedPath opts := by
      rw [hpath]
      exact Posix.Path.pop_append_normal _ n
    rw [hparent] at hnames hread
    refine ⟨names, hnames, hread, ?_, hoptions⟩
    rwa [FileMetadata.checkedPath, if_pos hdir, hpath, Posix.Path.pop_append_normal] at hgranted

/-! ## An entry that is shown as a file -/

theorem containsSymlink_entry {current rel : Path} {n : Name} {i : Inode} (hrel : ∀ c ∈ rel, ∃ n, c = .normal n)
    (h : containsSymlink t current rel = .ok false) (hi : t.symlinkMetadata (current ++ rel ++ [.normal n]) = .ok i)
    (hlink : i.isSymlink = false) : containsSymlink t current (rel ++ [.normal n]) = .ok false := by
  induction rel generalizing current with
  | nil =>
      rw [List.append_nil] at hi
      simp [containsSymlink, Posix.Path.push_normal, hi, hlink]
  | cons c rel ih =>
      obtain ⟨⟨m, rfl⟩, hrest⟩ := List.forall_mem_cons.mp hrel
      rw [List.cons_append, containsSymlink]
      rw [containsSymlink] at h
      cases hmeta : t.symlinkMetadata (current.push [.normal m]) with
      | error e => simp [hmeta] at h
      | ok metadata =>
          rw [hmeta] at h
          by_cases hordinary : metadata.isSymlink = true
          · simp [hordinary] at h
          · simp only [hordinary, if_false, Bool.false_eq_true] at h ⊢
            refine ih hrest h ?_
            rwa [Posix.Path.push_normal, List.append_assoc current, List.singleton_append]

/-- What is known of such an entry of a directory to which access is granted. -/
structure ShownFile (t : FileTree) (opts : HandleOpts) (dir : Path) (name : Name) (entry : FileEntry) (i : Inode) :
    Prop where
  leads : t.metadata (dir ++ [.normal name]) = .ok i
  notDir : i.isDir = false
  size : entry.size = some i.size
  inside : ∃ c, t.canonicalize (dir ++ [.normal name]) = .ok c ∧ Inside t opts.basePath c
  ordinary : opts.disableSymlinks = true →
    ∃ j, t.symlinkMetadata (dir ++ [.normal name]) = .ok j ∧ j.isSymlink = false
  visible : opts.ignoreHiddenFiles = true → isDotfile name = false

theorem isSymlink_of_isFile {i : Inode} (h : i.isFile = true) : i.isSymlink = false := by
  unfold Inode.isFile at h
  unfold Inode.isSymlink
  split at h
  · rename_i hkind
    rw [hkind]
  · cases h

/-- An entry that is taken for a file is one, or a link that may be followed and leads to one below the root. -/
theorem entryType_file {root : Canon} {disableSymlinks : Bool} {path : Path} {metadata : Inode} {size : Option Nat}
    (h : entryType t root disableSymlinks path metadata = some (.file, size)) :
    (metadata.isDir = false ∧ metadata.isSymlink = false ∧ size = some metadata.size) ∨
      disableSymlinks = false ∧ ∃ c target, t.canonicalize path = .ok c ∧ root <+: c ∧ t.node c = some target ∧
        target.isDir = false ∧ size = some target.size := by
  unfold entryType at h
  split at h
  · cases h
  · split at h
    · rename_i hnotDir hisFile
      cases h
      exact .inl ⟨by simpa using hnotDir, isSymlink_of_isFile hisFile, rfl⟩
    · split at h
      · rename_i hlinks
        simp only [Bool.and_eq_true, Bool.not_eq_true'] at hlinks
        split at h
        · cases h
        · rename_i c hcanon
          split at h
          · cases h
          · rename_i hbelow
            obtain ⟨target, htarget⟩ := Posix.FileTree.node_of_canonicalize hcanon
            rw [Posix.FileTree.symlinkMetadata_canonPath htarget] at h
            dsimp only at h
            split at h
            · cases h
            · rename_i hnotDir
              cases h
              exact .inr ⟨hlinks.1, c, target, hcanon, not_not.mp hbelow, htarget, by simpa using hnotDir, rfl⟩
      · cases h

theorem readDirEntry_shownFile {root : Canon} {dir : Path} {name : Name} {entry : FileEntry}
    (hroot : t.canonicalize opts.basePath = .ok root) {d : Canon} (hdir : t.canonicalize dir = .ok d)
    (hinside : Inside t opts.basePath d) (h : readDirEntry t opts root dir name = .ok (some entry))
    (hfile : entry.type = .file) : ∃ i, ShownFile t opts dir name entry i := by
  have hne : dir ≠ [] := (Posix.FileTree.resolve_eq_ok.mp hdir).1
  replace h := readDirEntry_eq_ok h
  unfold fileEntry at h
  dsimp only at h
  rw [Posix.Path.push_normal] at h
  split at h
  · cases h
  · rename_i metadata hmeta
    split at h
    · cases h
    · rename_i hhidden
      have hvisible : opts.ignoreHiddenFiles = true → isDotfile name = false := fun hon => by
        simpa [hon] using hhidden
      obtain ⟨⟨type, size⟩, htype, rfl⟩ := Option.map_eq_some_iff.mp h
      dsimp only at hfile
      subst hfile
      rcases entryType_file htype with ⟨hnotDir, hlink, rfl⟩ | ⟨hfollowed, c, target, hcanon, hbelow, htarget, hnotDir, rfl⟩
      · obtain ⟨d', j, hd', hj, hjdir, hnode⟩ := Posix.FileTree.symlinkMetadata_entry hne hmeta
        cases hdir.symm.trans hd'
        have hcanon := Posix.FileTree.canonicalize_entry hdir hmeta hlink
        exact ⟨metadata, Posix.FileTree.stat_eq_ok.mpr ⟨_, hcanon, hnode⟩, hnotDir, rfl,
          ⟨_, hcanon, hinside.append [name]⟩, fun _ => ⟨metadata, hmeta, hlink⟩, hvisible⟩
      · exact ⟨target, Posix.FileTree.stat_eq_ok.mpr ⟨_, hcanon, htarget⟩, hnotDir, rfl,
          ⟨_, hcanon, root, hroot, hbelow⟩, fun hon => (by rw [hfollowed] at hon; cases hon), hvisible⟩

/-- The entry passes the checks that the directory has passed. -/
theorem ShownFile.granted {dir : Path} {name : Name} {entry : FileEntry} {i : Inode}
    (h : ShownFile t opts dir name entry i) (hgranted : checkAccess t opts dir = .ok ())
    (hordinary : ∃ names : List Name, dir = opts.basePath ++ names.map .normal) :
    checkAccess t opts (dir ++ [.normal name]) = .ok () := by
  obtain ⟨rel, c, rfl, _, _, hlinks, hhidden⟩ := checkAccess_ok hgranted
  obtain ⟨names, hnames⟩ := hordinary
  have hrel := ordinary_of_map hnames.symm
  obtain ⟨c', hcanon, b, hbase, hbelow⟩ := h.inside
  have hstrip : Posix.Path.stripPrefix (opts.basePath ++ rel ++ [.normal name]) opts.basePath =
      some (rel ++ [.normal name]) := Posix.Path.stripPrefix_eq_some.mpr (List.append_assoc ..)
  have hsymlink : (if opts.disableSymlinks then containsSymlink t opts.basePath (rel ++ [.normal name]) else .ok false) =
      .ok false := by
    split_ifs with hon
    · obtain ⟨j, hj, hlink⟩ := h.ordinary hon
      exact containsSymlink_entry hrel (hlinks hon) hj hlink
    · rfl
  have hvisible : (opts.ignoreHiddenFiles && isHidden (rel ++ [.normal name])) = false := by
    by_cases hon : opts.ignoreHiddenFiles = true
    · rw [hon, Bool.true_and, isHidden_entry (hhidden hon), h.visible hon, Bool.and_false]
    · rw [Bool.not_eq_true] at hon
      rw [hon, Bool.false_and]
  unfold checkAccess
  simp only [hstrip, hcanon, hbase, hbelow, not_true, if_false, hsymlink, hvisible, Bool.false_eq_true]

/-! ## Following a link -/

/-- The request of a client that follows a link. -/
def followed (scheme host : Str) (opts : HandleOpts) (link : Str) : HandleOpts :=
  { opts with uriPath := ((requestUri scheme host opts).resolve (.parse link)).path, uriQuery := none }

theorem requestedPath_uncached (h : opts.memoryCache = none) :
    requestedPath opts = sanitizePath opts.basePath opts.uriPath := by
  simp [requestedPath, h]

/-- What reading a file to its end gives. A pipe or a device counts as empty. -/
def contentOf (i : Inode) : Octets := match i.kind with
  | .file content => content
  | _ => []

theorem size_eq {p : Path} {i : Inode} (hfound : t.metadata p = .ok i) (hdir : i.isDir = false) :
    i.size = (contentOf i).length := by
  have hlink := Posix.FileTree.metadata_isSymlink hfound
  obtain ⟨kind, mtime, blksize⟩ := i
  cases kind with
  | file content => rfl
  | dir entries size => cases hdir
  | symlink target => cases hlink
  | special => rfl

theorem open_whole {p : Path} {i : Inode} (hfound : t.metadata p = .ok i) (hdir : i.isDir = false) {data : Octets} :
    (∃ file, t.open p = .ok file ∧ readUpTo file i.size = some data) ↔ data = contentOf i := by
  rw [open_sized_iff hfound, size_eq hfound hdir]
  have hlink := Posix.FileTree.metadata_isSymlink hfound
  obtain ⟨kind, mtime, blksize⟩ := i
  cases kind with
  | file content =>
      rw [Posix.Kind.file.injEq, eq_comm]
      refine or_iff_left_of_imp ?_
      rintro ⟨hempty, rfl⟩
      exact (List.eq_nil_of_length_eq_zero hempty).symm
  | dir entries size => cases hdir
  | symlink target => cases hlink
  | special => simp [contentOf]

theorem lastModifiedOf_ok_iff {i : Inode} : (∃ modified, lastModifiedOf i = .ok modified) ↔ HasHttpDate i := by
  have hpanic := lastModifiedOf_panic_iff i
  cases hmodified : lastModifiedOf i with
  | ok modified => simpa [hmodified] using hpanic
  | error e =>
      have he : e = .panic := by
        unfold lastModifiedOf at hmodified
        dsimp only at hmodified
        split_ifs at hmodified <;> cases hmodified <;> rfl
      simpa [hmodified, he] using hpanic

/-- A file that access is granted to is sent as it is, when it is asked for without conditions. -/
theorem handleFile_whole {i : Inode} (hstatic : opts.compressionStatic = false) (hplain : Unconditional opts.headers)
    (hmethod : opts.method ≠ .options) (hfound : t.metadata (requestedPath opts) = .ok i) (hdir : i.isDir = false)
    (hgranted : checkAccess t opts (requestedPath opts) = .ok ()) {data : Octets} :
    (∃ r, handleFile crates t opts = .ok r ∧ r.resp.status = .ok ∧ r.resp.body.bytes = some data) ↔
      HasHttpDate i ∧ data = contentOf i := by
  obtain ⟨m, hm⟩ : ∃ m : FileMetadata, m = ⟨requestedPath opts, i, false, none⟩ := ⟨_, rfl⟩
  have hcomposed : getComposedFileMetadata crates t opts.headers opts.compressionStatic (requestedPath opts)
      opts.indexFiles = .ok m := by
    unfold getComposedFileMetadata
    rw [tryMetadata_eq_ok.mpr ⟨hfound, hdir⟩, hstatic, hm]
    rfl
  have hrespond : respond crates t opts m =
      fileReply crates t opts.headers (requestedPath opts) i none opts.memoryCache := by
    rw [respond, hm]
    simp [hmethod]
  have hwhole : (∃ resp, fileReply crates t opts.headers (requestedPath opts) i none opts.memoryCache = .ok resp ∧
      resp.status = .ok ∧ resp.body.bytes = some data) ↔ _ := fileReply_whole_iff hplain
  rw [Option.getD_none, open_whole hfound hdir, lastModifiedOf_ok_iff] at hwhole
  rw [← hwhole, ← hrespond]
  unfold handleFile
  rw [hcomposed]
  dsimp only
  rw [show m.checkedPath = requestedPath opts by rw [hm]; rfl, hgranted]
  dsimp only
  cases respond crates t opts m with
  | error e => simp [Except.map]
  | ok resp => simp [Except.map]

theorem requestedPath_followed {pq : PathAndQuery} (hform : OriginForm opts pq)
    (hdots : ∀ segment ∈ opts.uriPath.splitOn '/', ¬ UriReference.IsDot segment)
    (hscheme : ¬ ReadsAsScheme opts.uriPath) (hcache : opts.memoryCache = none) {name : Name}
    (hname : Posix.IsEntryName name) {root : Canon} {dir : Path} {entry : FileEntry}
    (h : readDirEntry t opts root dir name = .ok (some entry)) (scheme host : Str) :
    requestedPath (followed scheme host opts entry.uri) = requestedPath opts ++ [.normal name] := by
  have hstart : Text.startsWith opts.uriPath '/' = true := by
    rw [hform.path]
    exact hform.absolute
  have hclean : ∀ c ∈ opts.uriPath, c ≠ '?' ∧ c ≠ '#' := fun c hc =>
    hform.path_delimiters c (List.mem_append_left _ hc)
  obtain ⟨path, hresolve, hnames⟩ :=
    resolve_entryUri (requestUri scheme host opts) hstart hclean hdots hname hscheme entry.type
  have hpath : (followed scheme host opts entry.uri).uriPath = path := by
    rw [followed, readDirEntry_uri h]
    exact congrArg UriReference.path hresolve
  have hcache' : (followed scheme host opts entry.uri).memoryCache = none := hcache
  rw [requestedPath_uncached hcache, requestedPath_uncached hcache', hpath, sanitizePath_eq, sanitizePath_eq, hnames]
  simp [followed, requestUri]

/-- A client that asks for the file behind an entry of a listing, by its link, gets the whole file, as long as the
listing says, exactly when the date of the file is one that HTTP can tell. -/
theorem listed_files_served {pq : PathAndQuery} (hform : OriginForm opts pq)
    (hdots : ∀ segment ∈ opts.uriPath.splitOn '/', ¬ UriReference.IsDot segment)
    (hscheme : ¬ ReadsAsScheme opts.uriPath) (hcache : opts.memoryCache = none)
    (hstatic : opts.compressionStatic = false) (hplain : Unconditional opts.headers)
    (hindex : ∀ index ∈ opts.indexFiles, ∃ n, index = [.normal n]) {r : StaticFileResponse}
    (h : handle crates t store opts = .ok r) {page : Octets} (hpage : r.resp.body = .full page) (scheme host : Str) :
    ∃ names root, Lists crates t opts r.resp names ∧ t.canonicalize opts.basePath = .ok root ∧
      ∀ name ∈ names, Posix.IsEntryName name → ∀ entry,
        readDirEntry t opts root (requestedPath opts) name = .ok (some entry) → entry.type = .file →
        ∃ i, t.metadata (requestedPath opts ++ [.normal name]) = .ok i ∧ i.isDir = false ∧
          entry.size = some (contentOf i).length ∧
          ∀ data, (∃ r', handle crates t store (followed scheme host opts entry.uri) = .ok r' ∧
            r'.resp.status = .ok ∧ r'.resp.body.bytes = some data) ↔ HasHttpDate i ∧ data = contentOf i := by
  obtain ⟨names, hlists⟩ := handle_full hindex h hpage
  obtain ⟨root, hroot, _, _⟩ := readDirEntries_eq_ok hlists.page
  refine ⟨names, root, hlists, hroot, fun name _ hname entry hentry hfile => ?_⟩
  obtain ⟨_, d, _, hd, hinside, _⟩ := checkAccess_ok hlists.granted
  obtain ⟨i, hshown⟩ := readDirEntry_shownFile hroot hd hinside hentry hfile
  have hsize : i.size = (contentOf i).length := size_eq hshown.leads hshown.notDir
  have hpath := requestedPath_followed hform hdots hscheme hcache hname hentry scheme host
  have hfound : t.metadata (requestedPath (followed scheme host opts entry.uri)) = .ok i := by rw [hpath, hshown.leads]
  have hgranted : checkAccess t (followed scheme host opts entry.uri)
      (requestedPath (followed scheme host opts entry.uri)) = .ok () := by
    rw [hpath]
    exact hshown.granted hlists.granted (requestedPath_eq opts)
  refine ⟨i, hshown.leads, hshown.notDir, hshown.size.trans (congrArg some hsize), fun data => ?_⟩
  have hcached : cachedFile store (followed scheme host opts entry.uri) = none := by simp [cachedFile, followed, hcache]
  have hhandle : handle crates t store (followed scheme host opts entry.uri) =
      handleFile crates t (followed scheme host opts entry.uri) := by
    have hallowed := handle_isAllowed h
    have hallowed' : isAllowed (followed scheme host opts entry.uri).method = true := hallowed
    rw [handle_eq hallowed', hcached]
  rw [hhandle]
  have hstatic' : (followed scheme host opts entry.uri).compressionStatic = false := hstatic
  exact handleFile_whole hstatic' hplain hlists.method hfound hshown.notDir hgranted

def listedOpts : HandleOpts := { sampleOpts "/" with dirListing := true, disableSymlinks := false }

/-- The link `in` is listed as a file, and its entry leads to what the file behind it holds. -/
theorem listed_files_served_link :
    ∃ r, handle sampleCrates mixedDir [] (followed "http".toList "h".toList listedOpts "in".toList) = .ok r ∧
      r.resp.status = .ok ∧ r.resp.body.bytes = some (named "hello") := by
  have hform : OriginForm listedOpts ⟨"/".toList, none, by decide, by decide⟩ := ⟨rfl, rfl, rfl⟩
  have hscheme : ¬ ReadsAsScheme listedOpts.uriPath := by
    rintro ⟨dir, scheme, rest, hpath, _⟩
    have hmem : ':' ∈ listedOpts.uriPath := by rw [hpath]; simp
    exact absurd hmem (by decide)
  have hsent : (handle sampleCrates mixedDir [] listedOpts).toOption.isSome = true := by decide +kernel
  obtain ⟨r, hr⟩ := Option.isSome_iff_exists.mp hsent
  have hpage : (handle sampleCrates mixedDir [] listedOpts).toOption.map (·.resp.body) = some (.full []) := by
    decide +kernel
  rw [hr, Option.map_some, Option.some.injEq] at hpage
  have hr := Checked.toOption_eq_some.mp hr
  obtain ⟨names, root, hlists, hroot, hserved⟩ := listed_files_served hform (by decide) hscheme rfl rfl (by decide)
    (by simp [listedOpts, sampleOpts]) hr hpage "http".toList "h".toList
  have hnames : mixedDir.readDir (requestedPath listedOpts) = .ok (["b", "out", "C", ".h", "p", "in"].map named) := by
    decide +kernel
  cases hlists.read.symm.trans hnames
  have hroot' : mixedDir.canonicalize listedOpts.basePath = .ok [named "srv"] := by decide +kernel
  cases hroot.symm.trans hroot'
  have hentry : readDirEntry mixedDir listedOpts [named "srv"] (requestedPath listedOpts) (named "in") =
      .ok (some ⟨named "in", 0, some 5, .file, "in".toList⟩) := by decide +kernel
  have hfound : mixedDir.metadata (requestedPath listedOpts ++ [.normal (named "in")]) =
      .ok (sampleFile (named "hello")) := by decide +kernel
  obtain ⟨i, hi, _, _, hwhole⟩ := hserved (named "in") (by decide) (by decide) _ hentry rfl
  cases hi.symm.trans hfound
  exact (hwhole (named "hello")).mpr ⟨by decide, rfl⟩

end WeaveGate.Static
