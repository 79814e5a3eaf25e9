import WeaveGate.Lib.Worklist
import WeaveGate.Static.Lemmas.Below

/-!
# Handlers that are served from the same files

In two trees that share what lies below the base of a handler, the handler answers alike, and writes the same archives.
-/

namespace WeaveGate.Static

open Http
open Posix (Octets Path Name FileTree Inode Errno Canon Below Entry)
open Posix.FileTree (AgreeBelow)

variable {crates : Crates} {t t' : FileTree} {headers : HeaderMap} {compressionStatic : Bool} {base p : Path}
variable {opts : HandleOpts} {m : FileMetadata}

/-! ## The checks -/

theorem containsSymlink_agree (h : AgreeBelow t t' base) {current : Path} (hcurrent : Below base current) (rel : Path) :
    containsSymlink t' current rel = containsSymlink t current rel := by
  induction rel generalizing current with
  | nil => rfl
  | cons c rel ih =>
      cases c with
      | normal n =>
          rw [containsSymlink, containsSymlink, Posix.Path.push_normal, h.symlinkMetadata _ n hcurrent,
            ih (hcurrent.entry n)]
      | rootDir => exact ih hcurrent
      | curDir => exact ih hcurrent
      | parentDir => exact ih hcurrent

theorem checkAccess_agree (h : AgreeBelow t t' opts.basePath) (hp : Below opts.basePath p) :
    checkAccess t' opts p = checkAccess t opts p := by
  simp only [checkAccess, h.canonicalize p hp, h.canonicalize _ (Below.refl _), containsSymlink_agree h (Below.refl _)]

/-! ## The answers -/

theorem fileReply_agree (h : AgreeBelow t t' base) (hp : Entry base p) (metadata : Inode) {variantPath : Option Path}
    (hvariant : ∀ q, variantPath = some q → Entry base q) (memoryCache : Option MemCacheOpts) :
    fileReply crates t' headers p metadata variantPath memoryCache =
      fileReply crates t headers p metadata variantPath memoryCache := by
  have hopened : Below base (variantPath.getD p) := by
    cases variantPath with
    | none => exact hp.below
    | some q => exact (hvariant q rfl).below
  rw [fileReply, fileReply, h.open_eq hopened]

/-- Where a link leads, the trees have the same file. -/
theorem entryType_agree (h : AgreeBelow t t' base) (hp : Below base p) (root : Canon) (disableSymlinks : Bool)
    (metadata : Inode) : entryType t' root disableSymlinks p metadata = entryType t root disableSymlinks p metadata := by
  unfold entryType
  rw [h.canonicalize p hp]
  cases hc : t.canonicalize p with
  | error e => rfl
  | ok c =>
      obtain ⟨i, hi⟩ := Posix.FileTree.node_of_canonicalize hc
      have hi' := (h.node_eq hp hc).trans hi
      simp only [Posix.FileTree.symlinkMetadata_canonPath hi, Posix.FileTree.symlinkMetadata_canonPath hi']

theorem fileEntry_agree (h : AgreeBelow t t' base) {parent : Path} (hp : Below base parent) (root : Canon) (name : Name) :
    fileEntry t' opts root parent name = fileEntry t opts root parent name := by
  simp only [fileEntry, Posix.Path.push_normal, h.symlinkMetadata parent name hp,
    entryType_agree h (hp.entry name)]

theorem autoIndex_agree (h : AgreeBelow t t' opts.basePath) (hp : Entry opts.basePath p) :
    autoIndex crates t' opts p = autoIndex crates t opts p := by
  obtain ⟨q, n, hq, rfl⟩ := hp
  have hparent : (Posix.Path.parent (q ++ [.normal n])).getD (q ++ [.normal n]) = q := Posix.Path.pop_append_normal q n
  have hentries : ∀ names, readDirEntries crates t' opts q names = readDirEntries crates t opts q names := by
    intro names
    have hrow : ∀ root, readDirEntry t' opts root q = readDirEntry t opts root q := fun root =>
      funext fun name => by rw [readDirEntry, readDirEntry, fileEntry_agree h hq root name]
    simp only [readDirEntries, h.canonicalize _ (Below.refl _), hrow]
  simp only [autoIndex, hparent, h.readDir_eq hq, hentries]

theorem respond_agree (h : AgreeBelow t t' opts.basePath) (hm : ComposedBelow opts.basePath m) :
    respond crates t' opts m = respond crates t opts m := by
  have hlisting : listingReply crates t' opts m.filePath = listingReply crates t opts m.filePath := by
    rw [listingReply, listingReply, autoIndex_agree h hm.filePath]
  have hfile : fileReply crates t' opts.headers m.filePath m.metadata none opts.memoryCache =
      fileReply crates t opts.headers m.filePath m.metadata none opts.memoryCache :=
    fileReply_agree h hm.filePath _ (fun q hq => by cases hq) _
  unfold respond
  rw [h.exists_eq hm.filePath.below, hlisting, hfile]
  cases hv : m.precompressedVariant with
  | none => rfl
  | some x =>
      have hvariant : variantReply crates t' opts m x.1 x.2 = variantReply crates t opts m x.1 x.2 := by
        rw [variantReply, variantReply, fileReply_agree h hm.filePath _ (by
          intro q hq
          cases hq
          exact hm.variant x hv) _]
      simp only [hvariant]

/-! ## The handler -/

/-- What two trees share for a handler with this base: what is below it, and whether a file has its name with `.html`. -/
structure SameServed (t t' : FileTree) (base : Path) : Prop where
  below : AgreeBelow t t' base
  isDir : t.isDir base = true
  beside : (htmlSibling base).any t'.exists = (htmlSibling base).any t.exists

/-- The trees agree on the file that is found, which lies below the base, or the search ends beside it in both. -/
theorem SameServed.composed (h : SameServed t t' opts.basePath)
    (hindex : ∀ index ∈ opts.indexFiles, ∃ n, index = [.normal n]) {found found' : Except StatusCode FileMetadata}
    (hfound : getComposedFileMetadata crates t headers compressionStatic (requestedPath opts) opts.indexFiles = found)
    (hfound' : getComposedFileMetadata crates t' headers compressionStatic (requestedPath opts) opts.indexFiles = found') :
    (found' = found ∧ ∀ m, found = .ok m → ComposedBelow opts.basePath m) ∨
      ∃ m m', found = .ok m ∧ found' = .ok m' ∧ Beside opts.basePath m ∧ Beside opts.basePath m' := by
  subst hfound hfound'
  by_cases hsettled : Settled t t' opts.basePath (requestedPath opts)
  · exact .inl ⟨getComposedFileMetadata_agree h.below hsettled hindex, fun m hm => composedBelow h.below hsettled hindex hm⟩
  · obtain ⟨names, hnames⟩ := requestedPath_eq opts
    rcases Below.cases ⟨names, hnames⟩ with hbase | hentry
    · have hbeside : (htmlSibling opts.basePath).any t.exists = true := by
        by_contra hmissing
        rw [Bool.not_eq_true] at hmissing
        exact hsettled (.inr ⟨hbase, h.isDir, hmissing, h.beside.trans hmissing⟩)
      rw [hbase]
      obtain ⟨m, m', hm, hm', hcase⟩ := composed_beside h.below h.isDir hbeside (h.beside.trans hbeside) hindex
      rw [hm, hm']
      rcases hcase with ⟨rfl, hcomposed⟩ | ⟨hbesides, hbesides'⟩
      · exact .inl ⟨rfl, fun _ heq => Except.ok.inj heq ▸ hcomposed⟩
      · exact .inr ⟨m, m', rfl, rfl, hbesides, hbesides'⟩
    · exact absurd (.inl hentry) hsettled

theorem handleFile_agree (h : SameServed t t' opts.basePath)
    (hindex : ∀ index ∈ opts.indexFiles, ∃ n, index = [.normal n]) :
    handleFile crates t' opts = handleFile crates t opts := by
  unfold handleFile
  rcases h.composed hindex rfl rfl with ⟨hsame, hbelow⟩ | ⟨m, m', hm, hm', hbeside, hbeside'⟩
  · rw [hsame]
    cases hm : getComposedFileMetadata crates t opts.headers opts.compressionStatic (requestedPath opts) opts.indexFiles with
    | error s => rfl
    | ok m =>
        dsimp only
        rw [checkAccess_agree h.below (hbelow m hm).checkedPath, respond_agree h.below (hbelow m hm)]
  · rw [hm, hm']
    simp only [hbeside.denied, hbeside'.denied]

/-- Of the cache only the entries below the base count. -/
theorem handle_agree (h : SameServed t t' opts.basePath) (hindex : ∀ index ∈ opts.indexFiles, ∃ n, index = [.normal n])
    {store store' : Store} (hstore : ∀ p, Below opts.basePath p → store'.get? p = store.get? p) :
    handle crates t' store' opts = handle crates t store opts := by
  obtain ⟨names, hnames⟩ := requestedPath_eq opts
  rw [handle, handle, handleFile_agree h hindex, getOrAcquire, getOrAcquire, hstore _ ⟨names, hnames⟩]

/-! ## Archives -/

/-- An item of the stack that lies below the base. Only the root of an archive may be the base itself. -/
def Pending.IsBelow (base : Path) (p : Pending) : Prop := Below base p.src ∧ (p.isDir = true ∨ Entry base p.src)

theorem archiveVisit_agree (h : AgreeBelow t t' base) (job : ArchiveJob) {p : Pending} (hp : p.IsBelow base) :
    archiveVisit t' job p = archiveVisit t job p := by
  obtain ⟨hbelow, hentry⟩ := hp
  have hpending : pendingEntries t' job p.src = pendingEntries t job p.src := by
    simp only [pendingEntries, h.readDir_eq hbelow, Posix.Path.push_normal, h.symlinkMetadata _ _ hbelow]
  unfold archiveVisit
  rw [h.isDir_eq hbelow, hpending]
  rcases hentry with hdir | ⟨q, n, hq, hsrc⟩
  · simp only [hdir, Bool.true_or, if_true]
  · have happend : ∀ dest, appendPathWithName t' job.followSymlinks p.src dest =
        appendPathWithName t job.followSymlinks p.src dest := by
      intro dest
      unfold appendPathWithName storeFile
      rw [h.open_eq hbelow, hsrc, h.symlinkMetadata q n hq]
    simp only [happend]

theorem archiveVisit_below {job : ArchiveJob} {p : Pending} (hp : p.IsBelow base) {pushed : List Pending}
    {written : List TarEntry} (h : archiveVisit t job p = .ok (pushed, written)) : ∀ q ∈ pushed, q.IsBelow base := by
  unfold archiveVisit at h
  obtain ⟨rel, _, h⟩ := Checked.bind_eq_ok.mp h
  dsimp only at h
  split at h
  · obtain ⟨pending, hpending, h⟩ := Checked.bind_eq_ok.mp h
    cases h
    obtain ⟨names, _, hmap⟩ := Checked.bind_eq_ok.mp hpending
    intro q hq
    obtain ⟨name, _, hq⟩ := Checked.mapM_mem hmap (List.mem_reverse.mp hq)
    obtain ⟨metadata, _, hq⟩ := Checked.bind_eq_ok.mp hq
    cases hq
    have hentry : Entry base (p.src.push [.normal name]) := ⟨p.src, name, hp.1, Posix.Path.push_normal p.src name⟩
    exact ⟨hentry.below, .inr hentry⟩
  · obtain ⟨entry, _, h⟩ := Checked.bind_eq_ok.mp h
    cases h
    intro q hq
    cases hq

theorem archive_agree (h : AgreeBelow t t' base) {job : ArchiveJob} (hjob : Below base job.srcPath) (n : Nat) :
    archive t' job n = archive t job n := by
  have hroot : ∀ p ∈ (Worklist.start job.root : Worklist.State Pending TarEntry).stack, p.IsBelow base :=
    List.forall_mem_singleton.mpr ⟨hjob, .inl rfl⟩
  exact Worklist.run_congr (fun p hp => archiveVisit_agree h job hp) (fun p _ _ hvisit hp => archiveVisit_below hp hvisit)
    hroot n

/-- The archive of a directory of the host lies below its root. -/
theorem handle_archive_below (h : SameServed t t' opts.basePath)
    (hindex : ∀ index ∈ opts.indexFiles, ∃ n, index = [.normal n]) {store : Store} {r : StaticFileResponse}
    (hr : handle crates t store opts = .ok r) {job : ArchiveJob} (hjob : r.resp.body = .archive job) :
    Below opts.basePath job.srcPath := by
  rcases handle_ok hr with ⟨entry, _, hresp⟩ | ⟨_, hfile⟩
  · rw [hresp] at hjob
    rcases entry.responseBody_body opts.headers with hempty | ⟨s, hs, _⟩
    · cases hempty.symm.trans hjob
    · cases hs.symm.trans hjob
  · obtain ⟨m, hm, hcheck, hresp, _⟩ := handleFile_ok hfile
    rw [(respond_archive hresp hjob).2.1]
    rcases h.composed hindex hm rfl with ⟨_, hbelow⟩ | ⟨_, _, heq, _, hbeside, _⟩
    · exact (hbelow m rfl).checkedPath
    · cases heq
      rw [hbeside.denied] at hcheck
      cases hcheck

end WeaveGate.Static
