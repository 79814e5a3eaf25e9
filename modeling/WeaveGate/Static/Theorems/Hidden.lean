import WeaveGate.Static.Lemmas.Hidden
import WeaveGate.Static.Theorems.Access

/-!
# Hidden files

What a response shows of a tree when dotfiles are to be ignored, and whether the listing, the archive and the
handler mean the same files.
-/

namespace WeaveGate.Static

open Http
open Posix (Octets Path Name FileTree Inode Errno Canon Component)

variable {crates : Crates} {t : FileTree} {store : Store} {opts : HandleOpts}

/-! ## What a response shows -/

/-- A component of the path below the base is this dotfile. -/
def DotBelow (base p : Path) (name : Name) : Prop :=
  ∃ rel, p = base ++ rel ∧ Component.normal name ∈ rel ∧ isDotfile name = true

/-- The paths of the files and directories that the response streams, lists or archives. -/
inductive Shows (crates : Crates) (t : FileTree) (store : Store) (opts : HandleOpts) : Path → Prop where
  | streamed {r : StaticFileResponse} {s : FileStream} {f : FileTree.OpenFile}
      (h : handle crates t store opts = .ok r) (hbody : r.resp.body = .stream s) (hf : s.source = .file f) :
      Shows crates t store opts f.path
  | cached {r : StaticFileResponse} {s : FileStream} {data : Octets}
      (h : handle crates t store opts = .ok r) (hbody : r.resp.body = .stream s) (hdata : s.source = .cursor data) :
      Shows crates t store opts r.filePath
  | listed {r : StaticFileResponse} {content : Octets} {root : Canon} {names : List Name} {name : Name}
      {entry : FileEntry} (h : handle crates t store opts = .ok r) (hbody : r.resp.body = .full content)
      (hroot : t.canonicalize opts.basePath = .ok root) (hnames : t.readDir r.filePath.pop = .ok names)
      (hname : name ∈ names) (hentry : readDirEntry t opts root r.filePath.pop name = .ok (some entry)) :
      Shows crates t store opts (r.filePath.pop ++ [.normal name])
  | archived {r : StaticFileResponse} {job : ArchiveJob} {n : Nat} {p : Pending} {out : List Pending × List TarEntry}
      (h : handle crates t store opts = .ok r) (hbody : r.resp.body = .archive job)
      (htop : (archive t job n).stack.head? = some p) (hvisit : archiveVisit t job p = .ok out) :
      Shows crates t store opts p.src

/-- What the request resolves to. -/
def Finds (crates : Crates) (t : FileTree) (opts : HandleOpts) (m : FileMetadata) : Prop :=
  getComposedFileMetadata crates t opts.headers opts.compressionStatic (requestedPath opts) opts.indexFiles = .ok m

/-- The access checks look at every dotfile in the way. A cache entry, for which there are none, has no dotfile in its
path. The names in the path that is checked are UTF-8 if they are dotfiles. A file that is opened although another
path was checked, as an index file, a sibling or a variant, is no dotfile. -/
structure DotsChecked (crates : Crates) (t : FileTree) (store : Store) (opts : HandleOpts) : Prop where
  cached : cachedFile store opts ≠ none → ∀ name, ¬ DotBelow opts.basePath (requestedPath opts) name
  checked : cachedFile store opts = none → ∀ m, Finds crates t opts m →
    ∀ name, DotBelow opts.basePath m.checkedPath name → Utf8.valid name = true
  opened : cachedFile store opts = none → ∀ m, Finds crates t opts m → listsDirectory t opts m = false →
    m.openedPath ≠ m.checkedPath → ∀ name, Posix.Path.fileName m.openedPath = some name →
      ¬ DotBelow opts.basePath m.openedPath name

theorem dropLast_isPrefix_pop (p : Path) : p.dropLast <+: p.pop := by
  unfold Posix.Path.pop Posix.Path.parent
  split
  · exact List.dropLast_prefix p
  · exact List.dropLast_prefix p
  · exact List.prefix_refl _

theorem DotBelow.of_isPrefix {base p q : Path} {name : Name} (h : DotBelow base p name) (hpq : p <+: q) :
    DotBelow base q name := by
  obtain ⟨rel, rfl, hmem, hdot⟩ := h
  obtain ⟨rest, rfl⟩ := hpq
  exact ⟨rel ++ rest, List.append_assoc _ _ _, List.mem_append_left rest hmem, hdot⟩

/-- A dotfile in the path that is checked is one in the path that is opened: a variant has it with an extension. -/
theorem dotBelow_openedPath {m : FileMetadata} (hm : Finds crates t opts m) {base : Path} {name : Name}
    (h : DotBelow base m.checkedPath name) : ∃ name', DotBelow base m.openedPath name' := by
  have hcomposed := getComposedFileMetadata_ok hm
  cases hdir : m.isDir with
  | true =>
      have hchecked : m.checkedPath = m.openedPath.pop := by
        rw [openedPath_pop hcomposed, FileMetadata.checkedPath, if_pos hdir]
      exact ⟨name, h.of_isPrefix (hchecked ▸ Posix.Path.pop_isPrefix _)⟩
  | false =>
      cases hvariant : m.precompressedVariant with
      | none => exact ⟨name, openedPath_eq_checkedPath hdir hvariant ▸ h⟩
      | some x =>
          obtain ⟨last, ext, hpath, hopened⟩ := openedPath_variant hcomposed hdir hvariant
          have hchecked : m.checkedPath = m.filePath.pop ++ [.normal last] := by
            rw [FileMetadata.checkedPath, hdir]
            exact hpath
          obtain ⟨rel, hrel, hmem, hdot⟩ := h
          rcases List.eq_nil_or_concat rel with rfl | ⟨init, c, rfl⟩
          · cases hmem
          · rw [List.concat_eq_append] at hrel hmem
            have hsplit := List.append_inj' (hchecked.symm.trans (hrel.trans (List.append_assoc _ _ _).symm)) rfl
            rw [hopened, hsplit.1, List.append_assoc]
            rcases List.mem_append.mp hmem with hin | hlast
            · exact ⟨name, _, rfl, List.mem_append_left _ hin, hdot⟩
            · have hsame : Component.normal last = .normal name :=
                (List.singleton_inj.mp hsplit.2).trans (List.mem_singleton.mp hlast).symm
              cases hsame
              refine ⟨_, _, rfl, List.mem_append_right _ List.mem_cons_self, ?_⟩
              cases name with
              | nil => cases hdot
              | cons b name => exact hdot

/-- What is shown without the cache is the path that is opened, or lies below the path that was checked and goes on
from it without dotfiles. -/
theorem Shows.cases_uncached (hon : opts.ignoreHiddenFiles = true) {p : Path} (h : Shows crates t store opts p)
    (hcache : cachedFile store opts = none) : ∃ m rel, Finds crates t opts m ∧
      m.checkedPath = opts.basePath ++ rel ∧ isHidden rel = false ∧
      (listsDirectory t opts m = false ∧ p = m.openedPath ∨
        listsDirectory t opts m = true ∧ ∃ names : List Name, p = m.checkedPath ++ names.map .normal ∧
          ∀ n ∈ names, isDotfile n = false) := by
  have hfile : ∀ r, handle crates t store opts = .ok r → handleFile crates t opts = .ok r := by
    intro r hr
    rcases handle_ok hr with ⟨entry, hentry, -⟩ | ⟨-, hfile⟩
    · exact absurd (hcache.symm.trans hentry) (Option.some_ne_none entry).symm
    · exact hfile
  cases h with
  | streamed h hbody hf =>
      obtain ⟨m, hm, hcheck, hresp, -⟩ := handleFile_ok (hfile _ h)
      obtain ⟨rel, -, hrel, -, -, -, hhidden⟩ := checkAccess_ok hcheck
      have hopens := respond_stream_file hresp hbody
      obtain ⟨file, modified, range, first, last, hopen, -, rfl⟩ := respond_stream hresp hbody
      cases hf
      exact ⟨m, rel, hm, hrel, hhidden hon, .inl ⟨hopens, (Posix.FileTree.open_eq_ok.mp hopen).1⟩⟩
  | cached h hbody hdata =>
      obtain ⟨m, hm, hcheck, hresp, -⟩ := handleFile_ok (hfile _ h)
      obtain ⟨file, modified, range, first, last, hopen, -, rfl⟩ := respond_stream hresp hbody
      cases hdata
  | listed h hbody hroot hnames hname hentry =>
      obtain ⟨m, hm, hcheck, hresp, hpath⟩ := handleFile_ok (hfile _ h)
      obtain ⟨rel, -, hrel, -, -, -, hhidden⟩ := checkAccess_ok hcheck
      have hlists := respond_full hresp hbody
      have hdir : m.checkedPath = m.filePath.pop := if_pos (isDir_of_listsDirectory hlists)
      refine ⟨m, rel, hm, hrel, hhidden hon, .inr ⟨hlists, [_], by rw [hdir, hpath]; rfl, fun n hn => ?_⟩⟩
      rw [List.mem_singleton.mp hn]
      exact fileEntry_some hon (readDirEntry_eq_ok hentry)
  | archived h hbody htop hvisit =>
      obtain ⟨m, hm, hcheck, hresp, -⟩ := handleFile_ok (hfile _ h)
      obtain ⟨rel, -, hrel, -, -, -, hhidden⟩ := checkAccess_ok hcheck
      obtain ⟨hlists, hsrc, hignore⟩ := respond_archive hresp hbody
      obtain ⟨names, hp, hnames⟩ := archive_shown (hignore.trans hon) _ _ (List.mem_of_mem_head? htop)
      exact ⟨m, rel, hm, hrel, hhidden hon, .inr ⟨hlists, names, hsrc ▸ hp, hnames⟩⟩

/-- What is shown of a cache entry is the path that was requested. -/
theorem Shows.cases_cached {p : Path} (h : Shows crates t store opts p) (hcache : cachedFile store opts ≠ none) :
    p = requestedPath opts := by
  obtain ⟨entry, hentry⟩ := Option.ne_none_iff_exists'.mp hcache
  have hhit : ∀ r, handle crates t store opts = .ok r →
      r = ⟨entry.responseBody crates opts.headers, requestedPath opts⟩ := by
    intro r hr
    rw [handle_eq (handle_isAllowed hr), hentry] at hr
    exact (Except.ok.inj hr).symm
  have hbytes : ∀ r s, handle crates t store opts = .ok r → r.resp.body = .stream s → s.source = .cursor entry.data := by
    intro r s hr hs
    rw [hhit r hr] at hs
    rcases entry.responseBody_body opts.headers with hempty | ⟨s', hs', hsource, _⟩
    · cases hempty.symm.trans hs
    · cases hs'.symm.trans hs
      exact hsource
  have hstream : ∀ r, handle crates t store opts = .ok r → r.resp.body = .empty ∨ ∃ s, r.resp.body = .stream s := by
    intro r hr
    rw [hhit r hr]
    exact (entry.responseBody_body opts.headers).imp_right fun ⟨s, hs, _⟩ => ⟨s, hs⟩
  cases h with
  | streamed h hbody hf => cases hf.symm.trans (hbytes _ _ h hbody)
  | cached h hbody hdata =>
      rw [hhit _ h]
  | listed h hbody hroot hnames hname hentry =>
      rcases hstream _ h with hempty | ⟨s, hs⟩
      · cases hempty.symm.trans hbody
      · cases hs.symm.trans hbody
  | archived h hbody htop hvisit =>
      rcases hstream _ h with hempty | ⟨s, hs⟩
      · cases hempty.symm.trans hbody
      · cases hs.symm.trans hbody

theorem DotsChecked.not_dotBelow (hon : opts.ignoreHiddenFiles = true) {p : Path}
    (hshows : Shows crates t store opts p) (h : DotsChecked crates t store opts) (name : Name) :
    ¬ DotBelow opts.basePath p name := by
  by_cases hcache : cachedFile store opts = none
  · intro hbelow
    obtain ⟨m, rel, hm, hrel, hhidden, hshown⟩ := hshows.cases_uncached hon hcache
    -- a dotfile in the path that was checked would have been refused
    have hunseen : ∀ name, ¬ DotBelow opts.basePath m.checkedPath name := by
      intro name hdots
      have hvalid := h.checked hcache m hm name hdots
      obtain ⟨rel', hrel', hin, hdot⟩ := hdots
      cases List.append_cancel_left (hrel.symm.trans hrel')
      exact absurd (isHidden_eq_true.mpr ⟨name, hin, hvalid, hdot⟩) (by simp [hhidden])
    obtain ⟨prel, hp, hmem, hdot⟩ := id hbelow
    rcases hshown with ⟨hfile, hopened⟩ | ⟨_, names, hbelow', hnames⟩
    · -- all but the last component of the path that is opened is in the path that was checked
      have hprefix : p.dropLast <+: m.checkedPath :=
        (dropLast_isPrefix_pop p).trans (hopened ▸ openedPath_pop_isPrefix (getComposedFileMetadata_ok hm))
      rcases List.eq_nil_or_concat prel with rfl | ⟨init, c, rfl⟩
      · exact List.not_mem_nil hmem
      · rw [List.concat_eq_append] at hp hmem
        rcases List.mem_append.mp hmem with hin | hlast
        · rw [hp, ← List.append_assoc, List.dropLast_concat] at hprefix
          have hinit : DotBelow opts.basePath (opts.basePath ++ init) name := ⟨init, rfl, hin, hdot⟩
          exact hunseen name (hinit.of_isPrefix hprefix)
        · rw [← List.mem_singleton.mp hlast, ← List.append_assoc] at hp
          by_cases hsame : m.openedPath = m.checkedPath
          · exact hunseen name (hsame ▸ hopened ▸ hbelow)
          · refine h.opened hcache m hm hfile hsame name ?_ (hopened ▸ hbelow)
            rw [← hopened, hp, Posix.Path.fileName_append_normal]
    · rw [hbelow', hrel, List.append_assoc, List.append_cancel_left_eq] at hp
      rcases List.mem_append.mp (hp ▸ hmem) with hin | hin
      · exact hunseen name ⟨rel, hrel, hin, hdot⟩
      · obtain ⟨n, hn, hname⟩ := List.mem_map.mp hin
        cases hname
        exact absurd hdot (by simp [hnames name hn])
  · rw [hshows.cases_cached hcache]
    exact h.cached hcache name

theorem DotsChecked.of_shows (hon : opts.ignoreHiddenFiles = true) {p : Path} (hshows : Shows crates t store opts p)
    (h : ∀ name, ¬ DotBelow opts.basePath p name) : DotsChecked crates t store opts := by
  have hfound : cachedFile store opts = none → ∀ m, Finds crates t opts m →
      (∀ name, ¬ DotBelow opts.basePath m.checkedPath name) ∧
        (listsDirectory t opts m = false → p = m.openedPath) := by
    intro hcache m hm
    obtain ⟨m', rel, hm', hrel, -, hshown⟩ := hshows.cases_uncached hon hcache
    cases hm.symm.trans hm'
    rcases hshown with ⟨_, hopened⟩ | ⟨hlists, names, hbelow, _⟩
    · refine ⟨fun name hdots => ?_, fun _ => hopened⟩
      obtain ⟨name', hdots'⟩ := dotBelow_openedPath hm hdots
      exact h name' (hopened ▸ hdots')
    · refine ⟨fun name hdots => h name (hdots.of_isPrefix ?_), fun hfile => ?_⟩
      · rw [hbelow]
        exact List.prefix_append _ _
      · rw [hlists] at hfile
        cases hfile
  exact
    { cached := fun hcache => hshows.cases_cached hcache ▸ h
      checked := fun hcache m hm name hdots => absurd hdots ((hfound hcache m hm).1 name)
      opened := fun hcache m hm hfile _ name _ => (hfound hcache m hm).2 hfile ▸ h name }

/-! ## Entries and requests for them -/

/-- Only the test for dotfiles may refuse what was found. -/
structure ReachesHiddenCheck (crates : Crates) (t : FileTree) (opts : HandleOpts) (m : FileMetadata) : Prop where
  found : Finds crates t opts m
  granted : checkAccess t opts.showingHidden m.checkedPath = .ok ()

/-- The request names an entry of a directory that is shown. A cache entry answers it, or it gets as far as the test
for dotfiles. -/
structure RequestsEntry (crates : Crates) (t : FileTree) (store : Store) (opts : HandleOpts) (rel : Path)
    (name : Name) : Prop where
  allowed : isAllowed opts.method = true
  named : sanitizePath opts.basePath opts.uriPath = opts.basePath ++ rel ++ [.normal name]
  dirShown : isHidden rel = false
  reaches : cachedFile store opts ≠ none ∨ ∃ m, ReachesHiddenCheck crates t opts m

structure RefusedAsHidden (crates : Crates) (t : FileTree) (store : Store) (opts : HandleOpts) : Prop where
  answer : handle crates t store opts = .error (.status .notFound)
  uncached : cachedFile store opts = none
  hidden : ∃ m, ReachesHiddenCheck crates t opts m ∧ checkAccess t opts m.checkedPath = .error .notFound

/-- The listing of the directory has the entry when dotfiles are shown. -/
def Listed (t : FileTree) (opts : HandleOpts) (root : Canon) (dir : Path) (name : Name) : Prop :=
  t.canonicalize opts.basePath = .ok root ∧ ∃ entry, readDirEntry t opts.showingHidden root dir name = .ok (some entry)

/-- The archive task, ignoring dotfiles, can read the directory, and the entry is there. -/
structure Packed (t : FileTree) (dir : Path) (name : Name) (job : ArchiveJob) (pending : List Pending) : Prop where
  ignores : job.ignoreHidden = true
  entry : ∃ names, t.readDir dir = .ok names ∧ name ∈ names
  read : pendingEntries t job dir = .ok pending

/-- The test for dotfiles refuses the request exactly when the name of the entry is a dotfile. -/
structure NameDecides (crates : Crates) (t : FileTree) (store : Store) (opts : HandleOpts) (rel : Path)
    (name : Name) : Prop where
  cached : cachedFile store opts ≠ none → isDotfile name = false
  checked : cachedFile store opts = none → ∀ m, ReachesHiddenCheck crates t opts m →
    m.checkedPath = opts.basePath ++ rel ++ [.normal name] → isDotfile name = true → Utf8.valid name = true
  elsewhere : cachedFile store opts = none → ∀ m crel, ReachesHiddenCheck crates t opts m →
    m.checkedPath = opts.basePath ++ crel → crel ≠ rel ++ [.normal name] → isHidden crel = isDotfile name

theorem refusedAsHidden_iff (hon : opts.ignoreHiddenFiles = true) (hallowed : isAllowed opts.method = true)
    {m : FileMetadata} {crel : Path} (hcache : cachedFile store opts = none) (h : ReachesHiddenCheck crates t opts m)
    (hcrel : m.checkedPath = opts.basePath ++ crel) :
    RefusedAsHidden crates t store opts ↔ isHidden crel = true := by
  have hcheck := checkAccess_showingHidden hon hcrel h.granted
  constructor
  · intro hrefused
    obtain ⟨m', hreach, hdenied⟩ := hrefused.hidden
    cases hreach.found.symm.trans h.found
    by_contra hshown
    rw [hcheck, if_neg hshown] at hdenied
    cases hdenied
  · intro hhidden
    rw [if_pos hhidden] at hcheck
    refine ⟨?_, hcache, m, h, hcheck⟩
    have hfound : getComposedFileMetadata crates t opts.headers opts.compressionStatic (requestedPath opts)
      opts.indexFiles = .ok m := h.found
    rw [handle_eq hallowed, hcache]
    simp only [handleFile, hfound, hcheck]

/-- The test looks at the name of the entry in the path of the entry, if its directory is shown. -/
theorem isHidden_entry {rel : Path} (hdir : isHidden rel = false) (name : Name) :
    isHidden (rel ++ [.normal name]) = (Utf8.valid name && isDotfile name) := by
  rw [isHidden_append, hdir, Bool.false_or, isHidden_normal]

theorem nameDecides_iff (hon : opts.ignoreHiddenFiles = true) {rel : Path} {name : Name}
    (h : RequestsEntry crates t store opts rel name) :
    NameDecides crates t store opts rel name ↔ (isDotfile name = true ↔ RefusedAsHidden crates t store opts) := by
  by_cases hcache : cachedFile store opts = none
  · obtain ⟨m, hreach⟩ : ∃ m, ReachesHiddenCheck crates t opts m := h.reaches.resolve_left (not_not.mpr hcache)
    obtain ⟨crel, -, hcrel, -⟩ := checkAccess_ok hreach.granted
    have hcrel : m.checkedPath = opts.basePath ++ crel := hcrel
    rw [refusedAsHidden_iff hon h.allowed hcache hreach hcrel]
    have honly : ∀ m' crel', ReachesHiddenCheck crates t opts m' → m'.checkedPath = opts.basePath ++ crel' →
        crel' = crel := by
      intro m' crel' hreach' hcrel'
      cases hreach'.found.symm.trans hreach.found
      exact List.append_cancel_left (hcrel'.symm.trans hcrel)
    by_cases hentry : crel = rel ++ [.normal name]
    · rw [hentry, isHidden_entry h.dirShown, Bool.and_eq_true]
      constructor
      · intro hdecides
        have hpath : m.checkedPath = opts.basePath ++ rel ++ [.normal name] := by
          rw [hcrel, hentry, List.append_assoc]
        exact ⟨fun hdot => ⟨hdecides.checked hcache m hreach hpath hdot, hdot⟩, And.right⟩
      · intro hagree
        exact
          { cached := fun hhit => absurd hcache hhit
            checked := fun _ _ _ _ hdot => (hagree.mp hdot).1
            elsewhere := fun _ m' crel' hreach' hcrel' hne =>
              absurd ((honly m' crel' hreach' hcrel').trans hentry) hne }
    · constructor
      · intro hdecides
        rw [hdecides.elsewhere hcache m crel hreach hcrel hentry]
      · intro hagree
        exact
          { cached := fun hhit => absurd hcache hhit
            checked := fun _ m' hreach' hpath _ =>
              absurd (honly m' _ hreach' (hpath.trans (List.append_assoc _ _ _))).symm hentry
            elsewhere := fun _ m' crel' hreach' hcrel' _ => by
              rw [honly m' crel' hreach' hcrel']
              exact Bool.eq_iff_iff.mpr hagree.symm }
  · constructor
    · intro hdecides
      have hplain := hdecides.cached hcache
      exact ⟨fun hdot => absurd hdot (by simp [hplain]), fun hrefused => absurd hrefused.uncached hcache⟩
    · intro hagree
      exact
        { cached := fun _ => Bool.eq_false_iff.mpr fun hdot => hcache (hagree.mp hdot).uncached
          checked := fun hmiss => absurd hmiss hcache
          elsewhere := fun hmiss => absurd hmiss hcache }

/-! ## Hiding -/

/-- No response shows a dotfile, and an entry is left out of the listing and of the archive exactly when a request
for it is refused by the test for dotfiles. -/
structure HidesDotfiles (crates : Crates) (t : FileTree) (store : Store) (opts : HandleOpts) : Prop where
  shown : ∀ p, Shows crates t store opts p → ∀ name, ¬ DotBelow opts.basePath p name
  listing : ∀ rel name root, RequestsEntry crates t store opts rel name →
    Listed t opts root (opts.basePath ++ rel) name →
      (readDirEntry t opts root (opts.basePath ++ rel) name = .ok none ↔ RefusedAsHidden crates t store opts)
  archive : ∀ rel name job pending, RequestsEntry crates t store opts rel name →
    Packed t (opts.basePath ++ rel) name job pending →
      ((¬ ∃ q ∈ pending, q.src = opts.basePath ++ rel ++ [.normal name]) ↔ RefusedAsHidden crates t store opts)

theorem Listed.omitted_iff (hon : opts.ignoreHiddenFiles = true) {root : Canon} {dir : Path} {name : Name}
    (h : Listed t opts root dir name) : readDirEntry t opts root dir name = .ok none ↔ isDotfile name = true := by
  obtain ⟨_, entry, hentry⟩ := h
  rw [readDirEntry_eq_none]
  exact fileEntry_eq_none_iff hon (by rw [readDirEntry_eq_ok hentry]; rfl)

theorem Packed.omitted_iff {dir : Path} {name : Name} {job : ArchiveJob} {pending : List Pending}
    (h : Packed t dir name job pending) :
    (¬ ∃ q ∈ pending, q.src = dir ++ [.normal name]) ↔ isDotfile name = true := by
  obtain ⟨names, hnames, hname⟩ := h.entry
  rw [pendingEntries_mem_iff h.ignores hnames h.read hname, Bool.not_eq_false]

/-- A path that is shown has no dotfile in it exactly when the access checks have looked at all there could be. The
listing and the archive agree with the handler on an entry exactly when its name decides what the handler does. -/
theorem hidesDotfiles_iff (hon : opts.ignoreHiddenFiles = true) :
    (∀ p, Shows crates t store opts p →
      ((∀ name, ¬ DotBelow opts.basePath p name) ↔ DotsChecked crates t store opts)) ∧
    ∀ rel name, RequestsEntry crates t store opts rel name →
      (∀ root, Listed t opts root (opts.basePath ++ rel) name →
        ((readDirEntry t opts root (opts.basePath ++ rel) name = .ok none ↔ RefusedAsHidden crates t store opts) ↔
          NameDecides crates t store opts rel name)) ∧
      ∀ job pending, Packed t (opts.basePath ++ rel) name job pending →
        (((¬ ∃ q ∈ pending, q.src = opts.basePath ++ rel ++ [.normal name]) ↔ RefusedAsHidden crates t store opts) ↔
          NameDecides crates t store opts rel name) := by
  refine ⟨fun p hp => ⟨.of_shows hon hp, fun h => h.not_dotBelow hon hp⟩, fun rel name hrequest => ⟨?_, ?_⟩⟩
  · intro root hlisted
    rw [hlisted.omitted_iff hon, nameDecides_iff hon hrequest]
  · intro job pending hpacked
    rw [hpacked.omitted_iff, nameDecides_iff hon hrequest]

/-- `/srv` holds an empty directory `.hid`, a file `.hid.html` and one whose name is a dot and a byte that is no
UTF-8. -/
def hiddenFiles : FileTree :=
  { nodes :=
      [ ([], sampleDir [named "srv"]),
        ([named "srv"], sampleDir [named ".hid", named ".hid.html", [Posix.dot, 0xFF]]),
        ([named "srv", named ".hid"], sampleDir []),
        ([named "srv", named ".hid.html"], sampleFile (named "hello")),
        ([named "srv", [Posix.dot, 0xFF]], sampleFile (named "hello")) ]
    cwd := [], symloopMax := 40, wf := by decide }

theorem shows_of_streamedFile {f : FileTree.OpenFile}
    (h : streamedFile (handle crates t store opts) = some f) : Shows crates t store opts f.path := by
  obtain ⟨r, s, hr, hs, hf⟩ := streamedFile_eq_some h
  exact .streamed hr hs hf

/-- The page beside a directory and a name that is no UTF-8 are shown. -/
theorem shows_dotfiles :
    (Shows sampleCrates hiddenFiles [] (sampleOpts "/.hid/") (Posix.canonPath [named "srv", named ".hid.html"]) ∧
      ¬ HidesDotfiles sampleCrates hiddenFiles [] (sampleOpts "/.hid/")) ∧
    (Shows sampleCrates hiddenFiles [] (sampleOpts "/.%FF") (Posix.canonPath [named "srv", [Posix.dot, 0xFF]]) ∧
      ¬ HidesDotfiles sampleCrates hiddenFiles [] (sampleOpts "/.%FF")) := by
  have hshown : ∀ (uriPath : String) (name : Name), isDotfile name = true →
      (streamedFile (handle sampleCrates hiddenFiles [] (sampleOpts uriPath))).any
        (fun f => f.path = Posix.canonPath [named "srv", name]) = true →
      Shows sampleCrates hiddenFiles [] (sampleOpts uriPath) (Posix.canonPath [named "srv", name]) ∧
        ¬ HidesDotfiles sampleCrates hiddenFiles [] (sampleOpts uriPath) := by
    intro uriPath name hdot hserved
    obtain ⟨f, hf, hpath⟩ := (Option.any_eq_true _ _).mp hserved
    have hshows := shows_of_streamedFile hf
    rw [of_decide_eq_true hpath] at hshows
    exact ⟨hshows, fun h => h.shown _ hshows name ⟨[.normal name], rfl, List.mem_cons_self, hdot⟩⟩
  exact ⟨hshown "/.hid/" _ (by decide) (by decide), hshown "/.%FF" _ (by decide) (by decide)⟩

theorem hidesDotfiles_iff_hid :
    (∃ p, Shows sampleCrates hiddenFiles [] (sampleOpts "/.hid/") p ∧
      ((∀ name, ¬ DotBelow (sampleOpts "/.hid/").basePath p name) ↔
        DotsChecked sampleCrates hiddenFiles [] (sampleOpts "/.hid/"))) ∧
    ((readDirEntry hiddenFiles (sampleOpts "/.hid/") [named "srv"] ((sampleOpts "/.hid/").basePath ++ []) (named ".hid") =
        .ok none ↔ RefusedAsHidden sampleCrates hiddenFiles [] (sampleOpts "/.hid/")) ↔
      NameDecides sampleCrates hiddenFiles [] (sampleOpts "/.hid/") [] (named ".hid")) := by
  have hstreamed : (streamedFile (handle sampleCrates hiddenFiles [] (sampleOpts "/.hid/"))).isSome = true := by decide
  obtain ⟨f, hf⟩ := Option.isSome_iff_exists.mp hstreamed
  have hreaches : (getComposedFileMetadata sampleCrates hiddenFiles [] false (requestedPath (sampleOpts "/.hid/")) []).toOption.any
      (fun m => decide (checkAccess hiddenFiles (sampleOpts "/.hid/").showingHidden m.checkedPath = .ok ())) = true := by
    decide
  obtain ⟨m, hm, hgranted⟩ := (Option.any_eq_true _ _).mp hreaches
  have hrequest : RequestsEntry sampleCrates hiddenFiles [] (sampleOpts "/.hid/") [] (named ".hid") :=
    { allowed := by decide, named := by decide, dirShown := rfl
      reaches := .inr ⟨m, Checked.toOption_eq_some.mp hm, of_decide_eq_true hgranted⟩ }
  have hlisted : Listed hiddenFiles (sampleOpts "/.hid/") [named "srv"] ((sampleOpts "/.hid/").basePath ++ [])
      (named ".hid") := ⟨by decide, ⟨named ".hid", 0, none, .directory, ".hid/".toList⟩, by decide +kernel⟩
  exact ⟨⟨_, shows_of_streamedFile hf, (hidesDotfiles_iff rfl).1 _ (shows_of_streamedFile hf)⟩,
    ((hidesDotfiles_iff rfl).2 [] _ hrequest).1 _ hlisted⟩

end WeaveGate.Static
