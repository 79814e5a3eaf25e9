import WeaveGate.Lib.Posix.Lemmas.Canonical
import WeaveGate.Static.AutoIndex
import WeaveGate.Static.Theorems.Access

/-!
# What a listing shows

Each entry of the directory that may be shown stands in one row, the rows are sorted by the order code, and both
formats have the same rows.
-/

namespace WeaveGate.Static

open Http
open Posix (Octets Path Name FileTree Inode Errno Canon)

variable {t : FileTree} {opts : HandleOpts} {rootPathAbs : Canon} {parent : Path}

/-! ## The counters of the loop -/

def DirCounts.push (s : DirCounts) (e : FileEntry) : DirCounts :=
  { dirsCount := s.dirsCount + if e.type = .directory then 1 else 0
    filesCount := s.filesCount + if e.type = .file then 1 else 0
    fileEntries := s.fileEntries ++ [e] }

/-- A turn converts the time of the entry before it goes into the list. -/
theorem readDirTurn_eq (s : DirCounts) (name : Name) : readDirTurn t opts rootPathAbs parent s name =
    (readDirEntry t opts rootPathAbs parent name).map fun entry => entry.elim s s.push := by
  unfold readDirTurn readDirEntry fileEntry entryType
  dsimp only
  cases t.symlinkMetadata (parent.push [.normal name]) with
  | error e => rfl
  | ok metadata =>
      dsimp only
      by_cases hhidden : (opts.ignoreHiddenFiles && isDotfile name) = true
      · rw [if_pos hhidden, if_pos hhidden]
        rfl
      · rw [if_neg hhidden, if_neg hhidden]
        by_cases hdir : metadata.isDir = true
        · rw [if_pos hdir, if_pos hdir]
          dsimp only [Option.map_some]
          cases dateTimeFrom metadata.mtime <;> rfl
        · rw [if_neg hdir, if_neg hdir]
          by_cases hfile : metadata.isFile = true
          · rw [if_pos hfile, if_pos hfile]
            dsimp only [Option.map_some]
            cases dateTimeFrom metadata.mtime <;> rfl
          · rw [if_neg hfile, if_neg hfile]
            by_cases hlink : (!opts.disableSymlinks && metadata.isSymlink) = true
            · rw [if_pos hlink, if_pos hlink]
              cases t.canonicalize (parent.push [.normal name]) with
              | error e => rfl
              | ok symlinkPath =>
                  dsimp only
                  by_cases hroot : rootPathAbs <+: symlinkPath
                  · rw [if_neg (not_not.mpr hroot), if_neg (not_not.mpr hroot)]
                    cases t.symlinkMetadata (Posix.canonPath symlinkPath) with
                    | error e => rfl
                    | ok symlinkMeta =>
                        dsimp only
                        split
                        all_goals
                          dsimp only [Option.map_some]
                          cases dateTimeFrom metadata.mtime <;> rfl
                  · rw [if_pos hroot, if_pos hroot]
                    rfl
            · rw [if_neg hlink, if_neg hlink]
              rfl

theorem readDirLoop_eq (names : List Name) (s : DirCounts) :
    names.foldlM (readDirTurn t opts rootPathAbs parent) s =
      let entries := names.filterMap (fileEntry t opts rootPathAbs parent)
      if ∀ e ∈ entries, HasDateTime e.mtime then
        .ok ⟨s.dirsCount + entries.countP (·.type = .directory), s.filesCount + entries.countP (·.type = .file),
          s.fileEntries ++ entries⟩
      else .error .panic := by
  induction names generalizing s with
  | nil => simp [pure, Except.pure]
  | cons name names ih =>
      rw [List.foldlM_cons, readDirTurn_eq, readDirEntry_eq]
      cases hentry : fileEntry t opts rootPathAbs parent name with
      | none =>
          rw [List.filterMap_cons_none hentry, if_pos (by simp)]
          exact ih s
      | some e =>
          have hcons : (∀ x ∈ e :: names.filterMap (fileEntry t opts rootPathAbs parent), HasDateTime x.mtime) ↔
              HasDateTime e.mtime ∧ ∀ x ∈ names.filterMap (fileEntry t opts rootPathAbs parent), HasDateTime x.mtime :=
            List.forall_mem_cons
          rw [List.filterMap_cons_some hentry]
          dsimp only
          by_cases hdate : HasDateTime e.mtime
          · rw [if_pos (by simpa using hdate)]
            show names.foldlM _ (s.push e) = _
            rw [ih]
            dsimp only
            by_cases hdated : ∀ e ∈ names.filterMap (fileEntry t opts rootPathAbs parent), HasDateTime e.mtime
            · rw [if_pos hdated, if_pos (hcons.mpr ⟨hdate, hdated⟩)]
              simp [DirCounts.push, List.countP_cons, Nat.add_assoc, Nat.add_comm]
            · rw [if_neg hdated, if_neg fun h => hdated (hcons.mp h).2]
          · rw [if_neg (by simpa using hdate), if_neg fun h => hdate (hcons.mp h).1]
            rfl

/-! ## Sorting -/

section

variable (lowercase : Str → Str)

theorem sortByKey_perm {κ : Type} [LinearOrder κ] (key : FileEntry → κ) (files : List FileEntry) :
    (sortByKey key files).Perm files :=
  List.mergeSort_perm _ _

theorem sortByKey_sorted {κ : Type} [LinearOrder κ] (key : FileEntry → κ) (files : List FileEntry) :
    (sortByKey key files).Pairwise fun a b => key a ≤ key b := by
  have hsorted := @List.pairwise_mergeSort _ (fun a b => decide (key a ≤ key b))
    (fun a b c hab hbc => decide_eq_true ((of_decide_eq_true hab).trans (of_decide_eq_true hbc)))
    (fun a b => by simpa using le_total (key a) (key b)) files
  exact hsorted.imp fun h => of_decide_eq_true h

theorem sortFileEntries_perm (files : List FileEntry) (orderCode : Nat) :
    (sortFileEntries lowercase files orderCode).1.Perm files := by
  unfold sortFileEntries
  dsimp only
  split
  any_goals
    split
    · exact (List.reverse_perm _).trans (sortByKey_perm _ _)
    · exact sortByKey_perm _ _
  exact List.Perm.refl _

end

/-- The rows of the pages for each order code, against the entries in the order they are read. -/
structure OrderedBy (lowercase : Str → Str) (rows : Nat → List FileEntry) (entries : List FileEntry) : Prop where
  byName : (rows 0).Pairwise fun a b => nameKey lowercase a ≤ nameKey lowercase b
  byTime : (rows 2).Pairwise fun a b => a.mtime ≤ b.mtime
  bySize : (rows 4).Pairwise fun a b => sizeKey a ≤ sizeKey b
  reversed : rows 1 = (rows 0).reverse ∧ rows 3 = (rows 2).reverse ∧ rows 5 = (rows 4).reverse
  unsorted : ∀ code, 5 < code → rows code = entries

theorem sortFileEntries_ordered (lowercase : Str → Str) (files : List FileEntry) :
    OrderedBy lowercase (fun code => (sortFileEntries lowercase files code).1) files where
  byName := sortByKey_sorted _ _
  byTime := sortByKey_sorted _ _
  bySize := sortByKey_sorted _ _
  reversed := ⟨rfl, rfl, rfl⟩
  unsorted := by
    intro code hcode
    obtain ⟨n, rfl⟩ := Nat.exists_eq_add_of_lt hcode
    rw [show 5 + n + 1 = n + 6 by omega]
    rfl

/-! ## The entries that are shown -/

/-- Directories, regular files and, unless links are disabled, links to what exists below the root, without dotfiles
when they are ignored. -/
def Shown (t : FileTree) (opts : HandleOpts) (rootPathAbs : Canon) (parent : Path) (name : Name) : Prop :=
  ¬ (opts.ignoreHiddenFiles = true ∧ isDotfile name = true) ∧
  ∃ metadata, t.symlinkMetadata (parent.push [.normal name]) = .ok metadata ∧
    (metadata.isDir = true ∨ metadata.isFile = true ∨
      (opts.disableSymlinks = false ∧ metadata.isSymlink = true ∧
        ∃ target, t.canonicalize (parent.push [.normal name]) = .ok target ∧ (t.node target).isSome = true ∧
          rootPathAbs <+: target))

theorem fileEntry_name {name : Name} {e : FileEntry} (h : fileEntry t opts rootPathAbs parent name = some e) :
    e.name = name ∧ ∃ metadata, t.symlinkMetadata (parent.push [.normal name]) = .ok metadata ∧
      e.mtime = metadata.mtime := by
  unfold fileEntry at h
  dsimp only at h
  split at h
  · cases h
  · rename_i metadata hmetadata
    split at h
    · cases h
    · obtain ⟨_, _, rfl⟩ := Option.map_eq_some_iff.mp h
      exact ⟨rfl, metadata, hmetadata, rfl⟩

theorem entryType_isSome_iff {disableSymlinks : Bool} {entryPath : Path} {metadata : Inode} :
    (entryType t rootPathAbs disableSymlinks entryPath metadata).isSome = true ↔
      (metadata.isDir = true ∨ metadata.isFile = true ∨
        (disableSymlinks = false ∧ metadata.isSymlink = true ∧
          ∃ target, t.canonicalize entryPath = .ok target ∧ (t.node target).isSome = true ∧
            rootPathAbs <+: target)) := by
  unfold entryType
  by_cases hdir : metadata.isDir = true
  · simp [hdir]
  · by_cases hfile : metadata.isFile = true
    · simp [hdir, hfile]
    · by_cases hlink : (!disableSymlinks && metadata.isSymlink) = true
      · obtain ⟨hfollowed, hsymlink⟩ : disableSymlinks = false ∧ metadata.isSymlink = true := by simpa using hlink
        rw [if_neg hdir, if_neg hfile, if_pos hlink]
        cases htarget : t.canonicalize entryPath with
        | error e => simp [hdir, hfile]
        | ok target =>
            obtain ⟨i, hi⟩ := FileTree.node_of_canonicalize htarget
            dsimp only
            by_cases hroot : rootPathAbs <+: target
            · rw [if_neg (not_not.mpr hroot), FileTree.symlinkMetadata_canonPath hi]
              dsimp only
              refine iff_of_true ?_ (.inr (.inr ⟨hfollowed, hsymlink, target, rfl, by rw [hi]; rfl, hroot⟩))
              split <;> rfl
            · simp [hdir, hfile, hroot]
      · rw [if_neg hdir, if_neg hfile, if_neg hlink]
        refine iff_of_false (by simp) ?_
        rintro (h | h | ⟨hfollowed, hsymlink, _⟩)
        · exact hdir h
        · exact hfile h
        · exact hlink (by rw [hfollowed, hsymlink]; rfl)

theorem fileEntry_isSome_iff {name : Name} :
    (fileEntry t opts rootPathAbs parent name).isSome = true ↔ Shown t opts rootPathAbs parent name := by
  unfold fileEntry Shown
  dsimp only
  cases t.symlinkMetadata (parent.push [.normal name]) with
  | error e => simp
  | ok metadata =>
      dsimp only
      by_cases hhidden : (opts.ignoreHiddenFiles && isDotfile name) = true
      · rw [if_pos hhidden]
        exact iff_of_false (by simp) fun h => h.1 (by simpa using hhidden)
      · rw [if_neg hhidden, Option.isSome_map, entryType_isSome_iff]
        have hshown : ¬ (opts.ignoreHiddenFiles = true ∧ isDotfile name = true) := by simpa using hhidden
        simp [hshown]

theorem map_name_filterMap (names : List Name) :
    (names.filterMap (fileEntry t opts rootPathAbs parent)).map (·.name) =
      names.filter fun name => (fileEntry t opts rootPathAbs parent name).isSome := by
  induction names with
  | nil => rfl
  | cons name names ih =>
      cases hentry : fileEntry t opts rootPathAbs parent name with
      | none => rw [List.filterMap_cons_none hentry, ih, List.filter_cons_of_neg (by simp [hentry])]
      | some e =>
          rw [List.filterMap_cons_some hentry, List.map_cons, ih, List.filter_cons_of_pos (by simp [hentry]),
            (fileEntry_name hentry).1]

/-- `chrono` has a date for the time of every entry that may be shown. That of a link is its own. -/
def DatedEntries (t : FileTree) (opts : HandleOpts) (rootPathAbs : Canon) (parent : Path) (names : List Name) : Prop :=
  ∀ name ∈ names, Shown t opts rootPathAbs parent name →
    ∀ metadata, t.symlinkMetadata (parent.push [.normal name]) = .ok metadata → HasDateTime metadata.mtime

theorem datedEntries_iff (names : List Name) : DatedEntries t opts rootPathAbs parent names ↔
    ∀ e ∈ names.filterMap (fileEntry t opts rootPathAbs parent), HasDateTime e.mtime := by
  constructor
  · intro h e he
    obtain ⟨name, hname, hentry⟩ := List.mem_filterMap.mp he
    obtain ⟨_, metadata, hmetadata, htime⟩ := fileEntry_name hentry
    rw [htime]
    exact h name hname (fileEntry_isSome_iff.mp (by rw [hentry]; rfl)) metadata hmetadata
  · intro h name hname hshown metadata hmetadata
    obtain ⟨e, hentry⟩ := Option.isSome_iff_exists.mp (fileEntry_isSome_iff.mpr hshown)
    obtain ⟨_, metadata', hmetadata', htime⟩ := fileEntry_name hentry
    cases hmetadata.symm.trans hmetadata'
    rw [← htime]
    exact h e (List.mem_filterMap.mpr ⟨name, hname, hentry⟩)

theorem readDir_nodup {names : List Name} (h : t.readDir parent = .ok names) : names.Nodup := by
  unfold FileTree.readDir at h
  cases hmeta : t.metadata parent with
  | error e => rw [hmeta] at h; cases h
  | ok i =>
      rw [hmeta] at h
      dsimp only at h
      obtain ⟨c, _, hnode⟩ := FileTree.stat_eq_ok.mp hmeta
      cases hentries : i.entries? with
      | none => rw [hentries] at h; cases h
      | some names' =>
          rw [hentries] at h
          cases h
          exact FileTree.nodup_entries hnode hentries

/-! ## The pages -/

variable (lowercase : Str → Str)

/-- The entries of a page under an order code. -/
def listingRows (t : FileTree) (opts : HandleOpts) (rootPathAbs : Canon) (parent : Path) (names : List Name)
    (orderCode : Nat) : List FileEntry :=
  (sortFileEntries lowercase (names.filterMap (fileEntry t opts rootPathAbs parent)) orderCode).1

theorem listingRows_perm (t : FileTree) (opts : HandleOpts) (rootPathAbs : Canon) (parent : Path) (names : List Name)
    (orderCode : Nat) : (listingRows lowercase t opts rootPathAbs parent names orderCode).Perm
      (names.filterMap (fileEntry t opts rootPathAbs parent)) :=
  sortFileEntries_perm _ _ _

theorem entriesReply_body (crates : Crates) (opts : HandleOpts) (entries : List FileEntry) :
    (entriesReply crates opts entries).body =
      if methodIsHead opts.method then Body.empty
      else .full (match opts.dirListingFormat with
        | .json => crates.jsonAutoIndex entries (orderCode crates opts)
        | .html => crates.htmlAutoIndex opts.uriPath (entries.countP (·.type = .directory))
            (entries.countP (·.type = .file)) entries (orderCode crates opts) opts.dirListingDownload) := by
  unfold entriesReply
  cases opts.dirListingFormat <;> cases methodIsHead opts.method <;> rfl

/-- Each entry that may be shown has one row, in the order the code denotes. The counters are the numbers of
directory and file rows. Both formats show these rows. -/
structure ListsEntries (crates : Crates) (html : HtmlIndex → Octets) (json : List JsonEntry → Octets) (t : FileTree)
    (opts : HandleOpts) (rootPathAbs : Canon) (parent : Path) (names : List Name) : Prop where
  once : ∀ code, ((listingRows lowercase t opts rootPathAbs parent names code).map (·.name)).Nodup
  shown : ∀ code name, name ∈ (listingRows lowercase t opts rootPathAbs parent names code).map (·.name) ↔
    name ∈ names ∧ Shown t opts rootPathAbs parent name
  ordered : OrderedBy lowercase (listingRows lowercase t opts rootPathAbs parent names)
    (names.filterMap (fileEntry t opts rootPathAbs parent))
  counted : ∀ code, let rows := listingRows lowercase t opts rootPathAbs parent names
    names.foldlM (readDirTurn t opts rootPathAbs parent) .empty =
        .ok ⟨(rows code).countP (·.type = .directory), (rows code).countP (·.type = .file), rows 6⟩ ∧
      (rows code).countP (·.type = .directory) + (rows code).countP (·.type = .file) = (rows code).length
  pages : let rows := listingRows lowercase t opts rootPathAbs parent names (orderCode crates opts)
    ∃ page : HtmlIndex, page.rows = rows.map FileEntry.htmlRow ∧
      page.dirsCount = rows.countP (·.type = .directory) ∧ page.filesCount = rows.countP (·.type = .file) ∧
      ∀ format,
        (readDirEntries (withPages lowercase crates html json) t { opts with dirListingFormat := format } parent
          names).map (·.body) =
        .ok (if methodIsHead opts.method then Body.empty
          else .full (match format with
            | .json => json (rows.map FileEntry.jsonEntry)
            | .html => html page))

theorem countP_types (rows : List FileEntry) :
    rows.countP (·.type = .directory) + rows.countP (·.type = .file) = rows.length := by
  induction rows with
  | nil => rfl
  | cons e rows ih =>
      rw [List.countP_cons, List.countP_cons, List.length_cons, ← ih]
      cases e.type <;> simp <;> omega

/-- A directory is listed, and not with a panic, exactly when the times of the entries that it shows have dates. -/
theorem listing_shows_iff (crates : Crates) (html : HtmlIndex → Octets) (json : List JsonEntry → Octets)
    {names : List Name} (hnames : t.readDir parent = .ok names)
    (hroot : t.canonicalize opts.basePath = .ok rootPathAbs) :
    ListsEntries lowercase crates html json t opts rootPathAbs parent names ↔
      DatedEntries t opts rootPathAbs parent names := by
  have hperm := listingRows_perm lowercase t opts rootPathAbs parent names
  rw [datedEntries_iff]
  constructor
  · intro h
    have hloop := (h.counted 0).1
    rw [readDirLoop_eq] at hloop
    dsimp only at hloop
    split at hloop
    · assumption
    · cases hloop
  · intro hdated
    refine ⟨fun code => ?_, fun code name => ?_, sortFileEntries_ordered _ _, fun code => ⟨?_, countP_types _⟩, ?_⟩
    · rw [((hperm code).map _).nodup_iff, map_name_filterMap]
      exact (readDir_nodup hnames).filter _
    · rw [((hperm code).map _).mem_iff, map_name_filterMap, List.mem_filter, fileEntry_isSome_iff]
    · rw [readDirLoop_eq]
      dsimp only
      rw [if_pos hdated]
      simp only [DirCounts.empty, Nat.zero_add, List.nil_append]
      rw [(hperm code).countP_eq, (hperm code).countP_eq]
      rfl
    · refine ⟨htmlAutoIndex lowercase opts.uriPath
        ((listingRows lowercase t opts rootPathAbs parent names (orderCode crates opts)).countP (·.type = .directory))
        ((listingRows lowercase t opts rootPathAbs parent names (orderCode crates opts)).countP (·.type = .file))
        (names.filterMap (fileEntry t opts rootPathAbs parent)) (orderCode crates opts) opts.dirListingDownload,
        rfl, rfl, rfl, fun format => ?_⟩
      have hroot' : t.canonicalize { opts with dirListingFormat := format }.basePath = .ok rootPathAbs := hroot
      rw [(hperm _).countP_eq, (hperm _).countP_eq, readDirEntries_eq hroot']
      dsimp only
      have hpages := entriesReply_body (withPages lowercase crates html json) { opts with dirListingFormat := format }
        (names.filterMap (fileEntry t opts rootPathAbs parent))
      rw [if_pos (show ∀ e ∈ names.filterMap (fileEntry t { opts with dirListingFormat := format } rootPathAbs parent),
        HasDateTime e.mtime from hdated)]
      exact (congrArg Except.ok hpages).trans (by cases format <;> rfl)

/-- `/srv` holds a directory, a file, a dotfile, a pipe, a link to the file and a link out of it. -/
def mixedDir : FileTree :=
  { nodes :=
      [ ([], sampleDir [named "srv", named "etc"]),
        ([named "srv"], sampleDir (["b", "out", "C", ".h", "p", "in"].map named)),
        ([named "srv", named "C"], sampleDir []),
        ([named "srv", named "b"], sampleFile (named "hello")),
        ([named "srv", named ".h"], sampleFile []),
        ([named "srv", named "p"], ⟨.special, 0, 4096⟩),
        ([named "srv", named "in"], sampleLink [.normal (named "b")]),
        ([named "srv", named "out"], sampleLink (Posix.canonPath [named "etc"])),
        ([named "etc"], sampleDir []) ]
    cwd := [], symloopMax := 40, wf := by decide }

theorem listing_shows_iff_mixed :
    let rows := listingRows Text.toAsciiLowercase mixedDir { sampleOpts "/" with disableSymlinks := false } [named "srv"]
      (Posix.canonPath [named "srv"]) (["b", "out", "C", ".h", "p", "in"].map named)
    (rows 6).map (·.name) = [named "b", named "C", named "in"] ∧ ((rows 0).map (·.name)).Nodup ∧
      rows 1 = (rows 0).reverse := by
  have hdated : DatedEntries mixedDir { sampleOpts "/" with disableSymlinks := false } [named "srv"]
      (Posix.canonPath [named "srv"]) (["b", "out", "C", ".h", "p", "in"].map named) :=
    (datedEntries_iff _).mpr (by decide +kernel)
  have hshows := (listing_shows_iff Text.toAsciiLowercase sampleCrates (fun _ => []) (fun _ => [])
    (show mixedDir.readDir (Posix.canonPath [named "srv"]) = .ok _ by rfl)
    (show mixedDir.canonicalize { sampleOpts "/" with disableSymlinks := false }.basePath = .ok [named "srv"] by rfl)).mpr
      hdated
  exact ⟨by decide +kernel, hshows.once 0, hshows.ordered.reversed.1⟩

/-- `/srv` holds a file of the first second of the year 262143. -/
def lateDir : FileTree :=
  { nodes :=
      [ ([], sampleDir [named "srv"]),
        ([named "srv"], sampleDir [named "late"]),
        ([named "srv", named "late"], ⟨.file (named "hello"), 8210266876800 * 1000000000, 5⟩) ]
    cwd := [], symloopMax := 40, wf := by decide }

/-- The request for the listing panics. -/
theorem late_file_not_listed :
    handle sampleCrates lateDir [] { sampleOpts "/" with dirListing := true } = .error .panic ∧
      ¬ ListsEntries Text.toAsciiLowercase sampleCrates (fun _ => []) (fun _ => []) lateDir
        { sampleOpts "/" with dirListing := true } [named "srv"] (Posix.canonPath [named "srv"]) [named "late"] := by
  refine ⟨by decide +kernel, fun h => ?_⟩
  have hloop : ([named "late"].foldlM (readDirTurn lateDir { sampleOpts "/" with dirListing := true } [named "srv"]
      (Posix.canonPath [named "srv"])) .empty).toOption.isSome = false := by decide +kernel
  rw [(h.counted 0).1] at hloop
  cases hloop

end WeaveGate.Static
