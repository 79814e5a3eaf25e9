import WeaveGate.Static.Lemmas.Access
import WeaveGate.Static.Lemmas.Reply

/-!
# Files outside the base

Which files the handler opens, and which of them it has checked.
-/

namespace WeaveGate.Static

open Http
open Posix (Octets Path Name FileTree Inode Errno Canon)

variable {crates : Crates} {t : FileTree} {store : Store} {opts : HandleOpts}

/-- The path leads inside the base and, when links are disabled, has none below the base. -/
def Granted (t : FileTree) (opts : HandleOpts) (p : Path) : Prop :=
  (∃ c, t.canonicalize p = .ok c ∧ Inside t opts.basePath c) ∧
  (opts.disableSymlinks = true → NoLinkBelow t opts.basePath p)

/-- The path that is opened although the checks were made on another one: that of an index file, of a sibling
of a directory, or of a variant. -/
def uncheckedPath (crates : Crates) (t : FileTree) (opts : HandleOpts) : Option Path :=
  match getComposedFileMetadata crates t opts.headers opts.compressionStatic (requestedPath opts) opts.indexFiles with
  | .error _ => none
  | .ok m => if m.isDir || m.precompressedVariant.isSome then some m.openedPath else none

/-- The path goes on from the base with ordinary names only, and ends in this one. -/
def EntryBelow (base p : Path) (name : Name) : Prop :=
  ∃ dirs : List Name, p = base ++ dirs.map .normal ++ [.normal name]

/-- What makes up for the missing check of an entry, by what the entry is. -/
inductive MadeUpFor (t : FileTree) (opts : HandleOpts) (p : Path) : Prop where
  /-- It is no link, and its directory is where it has to be. -/
  | noLink {name : Name} {i : Inode} {d : Canon} (hentry : EntryBelow opts.basePath p name)
      (hi : t.symlinkMetadata p = .ok i) (hlink : i.isSymlink = false) (hd : t.canonicalize p.pop = .ok d)
      (hinside : Inside t opts.basePath (d ++ [name]))
  /-- It is a link, links are not disabled, and this one leads inside the base. -/
  | link {name : Name} {i : Inode} {c : Canon} (hentry : EntryBelow opts.basePath p name)
      (hi : t.symlinkMetadata p = .ok i) (hlink : i.isSymlink = true) (hallowed : opts.disableSymlinks = false)
      (hc : t.canonicalize p = .ok c) (hinside : Inside t opts.basePath c)
  /-- It is not reached over ordinary names, as an index file that is configured with `..`. -/
  | elsewhere (hentry : ∀ name, ¬ EntryBelow opts.basePath p name) (hgranted : Granted t opts p)

theorem noLinkBelow_dir {checked : Path} {dirs : List Name} (hpre : opts.basePath ++ dirs.map .normal <+: checked)
    (hcheck : checkAccess t opts checked = .ok ()) (hdis : opts.disableSymlinks = true) :
    NoLinkBelow t opts.basePath (opts.basePath ++ dirs.map .normal) := by
  obtain ⟨rel, _, hrel, _, _, hlinks, _⟩ := checkAccess_ok hcheck
  obtain ⟨post, hpost⟩ := hpre
  rw [← hpost, List.append_assoc, List.append_cancel_left_eq] at hrel
  refine containsSymlink_false (fun c hc => ?_) (containsSymlink_append (hrel ▸ hlinks hdis))
  obtain ⟨n, _, rfl⟩ := List.mem_map.mp hc
  exact ⟨n, rfl⟩

theorem MadeUpFor.granted {checked p : Path} (hp : MadeUpFor t opts p) (hpre : p.pop <+: checked)
    (hcheck : checkAccess t opts checked = .ok ()) : Granted t opts p := by
  cases hp with
  | noLink hentry hi hlink hd hinside =>
      obtain ⟨dirs, rfl⟩ := hentry
      rw [Posix.Path.pop_append_normal] at hpre hd
      exact ⟨⟨_, Posix.FileTree.canonicalize_entry hd hi hlink, hinside⟩,
        fun hdis => (noLinkBelow_dir hpre hcheck hdis).entry ((isSymlink_eq_false hi).mpr hlink)⟩
  | link hentry hi hlink hallowed hc hinside =>
      refine ⟨⟨_, hc, hinside⟩, fun hdis => ?_⟩
      rw [hallowed] at hdis
      cases hdis
  | elsewhere hentry hgranted => exact hgranted

theorem Granted.madeUpFor {p : Path} (h : Granted t opts p) : MadeUpFor t opts p := by
  by_cases hentry : ∃ name, EntryBelow opts.basePath p name
  · obtain ⟨name, dirs, rfl⟩ := hentry
    obtain ⟨⟨c, hc, hinside⟩, hnolink⟩ := h
    obtain ⟨i, hi⟩ := Posix.FileTree.symlinkMetadata_of_canonicalize hc
    cases hlink : i.isSymlink with
    | true =>
        refine .link ⟨dirs, rfl⟩ hi hlink ?_ hc hinside
        by_contra hdis
        have := hnolink (by simpa using hdis) _ _ [] rfl
        rw [isSymlink_eq_false hi, hlink] at this
        cases this
    | false =>
        obtain ⟨b, hb, _⟩ := id hinside
        have hdir : opts.basePath ++ dirs.map .normal ≠ [] :=
          List.append_ne_nil_of_left_ne_nil (Posix.FileTree.resolve_eq_ok.mp hb).1 _
        obtain ⟨d, _, hd, _⟩ := Posix.FileTree.symlinkMetadata_entry hdir hi
        rw [Posix.FileTree.canonicalize_entry hd hi hlink] at hc
        cases hc
        exact .noLink ⟨dirs, rfl⟩ hi hlink (by rwa [Posix.Path.pop_append_normal]) hinside
  · exact .elsewhere (not_exists.mp hentry) h

theorem streams_granted_iff {r : StaticFileResponse} {s : FileStream} {f : FileTree.OpenFile}
    (hmem : opts.memoryCache = none) (h : handle crates t store opts = .ok r) (hs : r.resp.body = .stream s)
    (hf : s.source = .file f) :
    Inside t opts.basePath f.canon ∧ (opts.disableSymlinks = true → NoLinkBelow t opts.basePath f.path) ↔
      ∀ p ∈ uncheckedPath crates t opts, MadeUpFor t opts p := by
  have hfile : handleFile crates t opts = .ok r := by
    rcases handle_ok h with ⟨entry, hentry, _⟩ | ⟨_, hfile⟩
    · simp [cachedFile, hmem] at hentry
    · exact hfile
  obtain ⟨m, hm, hcheck, hresp, _⟩ := handleFile_ok hfile
  obtain ⟨file, modified, range, first, last, hopen, _, rfl⟩ := respond_stream hresp hs
  cases hf
  obtain ⟨hpath, hcanon, _⟩ := Posix.FileTree.open_eq_ok.mp hopen
  have hcomposed := getComposedFileMetadata_ok hm
  have hiff : Granted t opts m.openedPath ↔
      Inside t opts.basePath f.canon ∧ (opts.disableSymlinks = true → NoLinkBelow t opts.basePath f.path) := by
    simp [Granted, hpath, hcanon]
  rw [← hiff]
  simp only [uncheckedPath, hm]
  constructor
  · intro hgranted p hp
    split at hp
    · cases hp
      exact hgranted.madeUpFor
    · cases hp
  · intro hcond
    split at hcond
    · exact (hcond _ rfl).granted (openedPath_pop_isPrefix hcomposed) hcheck
    · rename_i hno
      simp only [Bool.or_eq_true, not_or, Bool.not_eq_true, Option.isSome_eq_false_iff, Option.isNone_iff_eq_none]
        at hno
      obtain ⟨rel, c, hrel, hc, hinside, hlinks, _⟩ := checkAccess_ok hcheck
      rw [openedPath_eq_checkedPath hno.1 hno.2]
      refine ⟨⟨c, hc, hinside⟩, fun hdis => ?_⟩
      have hfile : m.filePath = m.checkedPath := by simp [FileMetadata.checkedPath, hno.1]
      rw [hrel]
      exact containsSymlink_false (checkedPath_ordinary hcomposed hno.1 hno.2 (hfile.trans hrel)) (hlinks hdis)

def named (s : String) : Name := Posix.utf8 s.toList

/-- Decoders for requests without conditional fields and quality values, for HTML pages without a date. -/
def sampleCrates : Crates :=
  { httpDate := fun _ => none, fmtHttpDate := fun _ => [], ifRange := fun _ => none, range := fun _ => none
    parseF32 := fun _ => none, mime := fun _ => HeaderValue.fromStatic "text/html"
    formPairs := fun query => (query.splitOn '&').map fun pair => (Text.splitOnce '=' pair).getD (pair, [])
    htmlAutoIndex := fun _ _ _ _ _ _ => [], jsonAutoIndex := fun _ _ => [] }

def sampleDir (names : List Name) : Inode := ⟨.dir names 4096, 0, 4096⟩
def sampleFile (content : Octets) : Inode := ⟨.file content, 0, 4096⟩
def sampleLink (target : Path) : Inode := ⟨.symlink target, 0, 4096⟩

def sampleOpts (uriPath : String) : HandleOpts :=
  { method := .get, memoryCache := none, headers := [], basePath := Posix.canonPath [named "srv"]
    uriPath := uriPath.toList, indexFiles := [], uriQuery := none, dirListing := false, dirListingOrder := 6
    dirListingFormat := .html, dirListingDownload := [], redirectTrailingSlash := true, compressionStatic := false
    ignoreHiddenFiles := true, disableSymlinks := true }

/-- `/srv/d/index.html` is a link to `/etc/passwd`, `/srv/e/index.html` is a file. -/
def linkedIndex : FileTree :=
  { nodes :=
      [ ([], sampleDir [named "srv", named "etc"]),
        ([named "srv"], sampleDir [named "d", named "e"]),
        ([named "srv", named "e"], sampleDir [named "index.html"]),
        ([named "srv", named "e", named "index.html"], sampleFile (named "hello")),
        ([named "srv", named "d"], sampleDir [named "index.html"]),
        ([named "srv", named "d", named "index.html"],
          sampleLink (Posix.canonPath [named "etc", named "passwd"])),
        ([named "etc"], sampleDir [named "passwd"]),
        ([named "etc", named "passwd"], sampleFile (named "root")) ]
    cwd := [], symloopMax := 40, wf := by decide }

def streamedFile (r : Except Failure StaticFileResponse) : Option FileTree.OpenFile :=
  match r with
  | .error _ => none
  | .ok r => match r.resp.body with
      | .stream s => match s.source with
          | .file f => some f
          | .cursor _ => none
      | _ => none

theorem streamedFile_eq_some {x : Except Failure StaticFileResponse} {f : FileTree.OpenFile}
    (h : streamedFile x = some f) : ∃ r s, x = .ok r ∧ r.resp.body = .stream s ∧ s.source = .file f := by
  unfold streamedFile at h
  split at h
  · cases h
  · rename_i r
    split at h
    · rename_i s hs
      split at h
      · rename_i hf
        cases h
        exact ⟨r, s, rfl, hs, hf⟩
      · cases h
    · cases h

/-- With links disabled, the index file of a directory is served through a link out of the base. -/
theorem serves_linked_index : ∃ r s f,
    handle sampleCrates linkedIndex [] (sampleOpts "/d/") = .ok r ∧ r.resp.body = .stream s ∧ s.source = .file f ∧
    ¬ Inside linkedIndex (sampleOpts "/d/").basePath f.canon ∧
    ¬ NoLinkBelow linkedIndex (sampleOpts "/d/").basePath f.path := by
  have hserved : (streamedFile (handle sampleCrates linkedIndex [] (sampleOpts "/d/"))).any (fun f =>
      f.canon = [named "etc", named "passwd"] ∧
      f.path = Posix.canonPath [named "srv", named "d", named "index.html"]) = true := by decide
  obtain ⟨f, hf, hserved⟩ := (Option.any_eq_true _ _).mp hserved
  obtain ⟨hcanon, hpath⟩ := of_decide_eq_true hserved
  obtain ⟨r, s, hr, hs, hfile⟩ := streamedFile_eq_some hf
  refine ⟨r, s, f, hr, hs, hfile, ?_, fun h => ?_⟩
  · rintro ⟨b, hb, hpre⟩
    have hbase : linkedIndex.canonicalize (sampleOpts "/d/").basePath = .ok [named "srv"] := rfl
    rw [hbase] at hb
    cases hb
    rw [hcanon] at hpre
    exact absurd hpre (by decide)
  · have := h [.normal (named "d")] (.normal (named "index.html")) [] hpath
    exact absurd this (by decide)

theorem streams_granted_iff_index : ∃ r s f,
    handle sampleCrates linkedIndex [] (sampleOpts "/e/") = .ok r ∧ r.resp.body = .stream s ∧ s.source = .file f ∧
    (Inside linkedIndex (sampleOpts "/e/").basePath f.canon ∧
        ((sampleOpts "/e/").disableSymlinks = true → NoLinkBelow linkedIndex (sampleOpts "/e/").basePath f.path) ↔
      ∀ p ∈ uncheckedPath sampleCrates linkedIndex (sampleOpts "/e/"),
        MadeUpFor linkedIndex (sampleOpts "/e/") p) := by
  have hserved : (streamedFile (handle sampleCrates linkedIndex [] (sampleOpts "/e/"))).isSome = true := by decide
  obtain ⟨f, hf⟩ := Option.isSome_iff_exists.mp hserved
  obtain ⟨r, s, hr, hs, hfile⟩ := streamedFile_eq_some hf
  exact ⟨r, s, f, hr, hs, hfile, streams_granted_iff rfl hr hs hfile⟩

end WeaveGate.Static
