import WeaveGate.Static.Lemmas.IndexSearch
import WeaveGate.Static.Theorems.Redirect
import WeaveGate.Static.Theorems.Variants

/-!
# Index files

Which index file a directory gets, and when a content coding decides whether a directory is redirected.
-/

namespace WeaveGate.Static

open Http
open Posix (Octets Path Name FileTree Inode Errno Canon)

variable {crates : Crates} {t : FileTree} {store : Store} {opts : HandleOpts}

/-! ## The result for a directory -/

/-- The result names the path as the file of a directory request, and no variant. -/
def Reports (result : Except StatusCode FileMetadata) (p : Path) : Prop :=
  ∃ metadata, result = .ok { filePath := p, metadata, isDir := true, precompressedVariant := none }

theorem reports_iff {d : Path} {i : Inode} (hd : t.metadata d = .ok i) (hdir : i.isDir = true) (headers : HeaderMap)
    (indexFiles : List Path) (p : Path) : Reports (getComposedFileMetadata crates t headers false d indexFiles) p ↔
      searchedPath t d (effectiveIndexFiles indexFiles) = p := by
  obtain ⟨metadata, _, hresult⟩ := getComposedFileMetadata_dir hd hdir indexFiles fun p _ =>
    (rfl : variantOf crates t headers false p = none)
  unfold Reports
  rw [hresult]
  constructor
  · rintro ⟨_, h⟩
    cases h
    rfl
  · rintro rfl
    exact ⟨metadata, rfl⟩

/-! ## The index files in their order -/

/-- The first of the index files that is a regular file. -/
def firstRegular (t : FileTree) (d : Path) (indexFiles : List Path) : Option Path :=
  (indexFiles.map d.push).find? t.isFile

/-- The first regular file among the index files, else the sibling, else the last index file. -/
structure SelectsIndex (t : FileTree) (d : Path) (indexFiles : List Path)
    (result : Except StatusCode FileMetadata) : Prop where
  first : ∀ p, firstRegular t d indexFiles = some p → Reports result p
  sibling : firstRegular t d indexFiles = none → ∀ p, htmlSibling d = some p → t.exists p = true → Reports result p
  last : firstRegular t d indexFiles = none → (htmlSibling d).any t.exists = false →
    ∃ c, d.push (indexFiles.getLast?.getD []) = d ++ [c] ∧ Reports result (d ++ [c])

/-- The path that is due. -/
def duePath (t : FileTree) (d : Path) (indexFiles : List Path) : Path :=
  (firstRegular t d indexFiles).getD
    (((htmlSibling d).filter t.exists).getD (d.push (indexFiles.getLast?.getD [])))

/-- Where the last index file is due, it is one name below the directory. -/
def LastIsOneName (t : FileTree) (d : Path) (indexFiles : List Path) : Prop :=
  firstRegular t d indexFiles = none → (htmlSibling d).any t.exists = false →
    ∃ c, d.push (indexFiles.getLast?.getD []) = d ++ [c]

theorem filter_sibling_eq_none {d : Path} (h : (htmlSibling d).any t.exists = false) :
    (htmlSibling d).filter t.exists = none := by
  cases hsibling : htmlSibling d with
  | none => rfl
  | some p => simpa [hsibling] using h

theorem selectsIndex_iff_duePath {d : Path} {i : Inode} (hd : t.metadata d = .ok i) (hdir : i.isDir = true)
    (headers : HeaderMap) (indexFiles : List Path) :
    SelectsIndex t d (effectiveIndexFiles indexFiles)
        (getComposedFileMetadata crates t headers false d indexFiles) ↔
      searchedPath t d (effectiveIndexFiles indexFiles) = duePath t d (effectiveIndexFiles indexFiles) ∧
        LastIsOneName t d (effectiveIndexFiles indexFiles) := by
  have hreports := @reports_iff crates t d i hd hdir headers indexFiles
  generalize effectiveIndexFiles indexFiles = is at hreports ⊢
  generalize getComposedFileMetadata crates t headers false d indexFiles = result at hreports ⊢
  unfold duePath LastIsOneName
  constructor
  · intro h
    cases hfirst : firstRegular t d is with
    | some p => exact ⟨(hreports p).mp (h.first p hfirst), fun hnone => by cases hnone⟩
    | none =>
        cases hsibling : htmlSibling d with
        | none =>
            obtain ⟨c, hc, hrep⟩ := h.last hfirst (by rw [hsibling]; rfl)
            exact ⟨((hreports _).mp hrep).trans hc.symm, fun _ _ => ⟨c, hc⟩⟩
        | some p =>
            by_cases hp : t.exists p = true
            · refine ⟨?_, fun _ hno => ?_⟩
              · rw [Option.filter_some, if_pos hp]
                exact (hreports p).mp (h.sibling hfirst p hsibling hp)
              · rw [Option.any_some, hp] at hno
                cases hno
            · obtain ⟨c, hc, hrep⟩ := h.last hfirst (by simpa [hsibling] using hp)
              rw [Option.filter_some, if_neg hp]
              exact ⟨((hreports _).mp hrep).trans hc.symm, fun _ _ => ⟨c, hc⟩⟩
  · rintro ⟨hdue, hlast⟩
    refine ⟨fun p hp => ?_, fun hfirst p hp hexists => ?_, fun hfirst hno => ?_⟩
    · rw [hp] at hdue
      exact (hreports p).mpr hdue
    · rw [hfirst, hp, Option.filter_some, if_pos hexists] at hdue
      exact (hreports p).mpr hdue
    · obtain ⟨c, hc⟩ := hlast hfirst hno
      rw [hfirst, filter_sibling_eq_none hno, Option.getD_none, Option.getD_none, hc] at hdue
      exact ⟨c, hc, (hreports _).mpr hdue⟩

/-! ## Lists of names -/

def entryPath (d : Path) (name : Name) : Path := d ++ [.normal name]

theorem push_name (d : Path) (name : Name) : d.push [.normal name] = entryPath d name := Posix.Path.push_normal d name

theorem entryPath_injective {d : Path} {a b : Name} (h : entryPath d a = entryPath d b) : a = b := by
  simpa [entryPath] using h

/-- The sibling is as long as the directory, an entry is longer. -/
theorem htmlSibling_ne_entryPath {d p : Path} (h : htmlSibling d = some p) (name : Name) : p ≠ entryPath d name := by
  obtain ⟨own, hown, rfl⟩ := Option.map_eq_some_iff.mp h
  rw [Posix.Path.eq_pop_append_of_fileName hown, Posix.Path.setFileName_append_normal]
  intro heq
  have hlen := congrArg List.length heq
  simp [entryPath] at hlen

theorem triedPaths_names (d : Path) (names : List Name) :
    triedPaths d (names.map fun name => [.normal name]) =
      names.flatMap fun name => entryPath d name :: (htmlSibling d).toList := by
  induction names with
  | nil => rfl
  | cons name names ih =>
      rw [List.map_cons, triedPaths, push_name, entryPath, Posix.Path.pop_append_normal, ih, List.flatMap_cons]
      rfl

theorem leftoverPath_names (d : Path) (names : List Name) :
    leftoverPath d (names.map fun name => [.normal name]) = d := by
  induction names with
  | nil => rfl
  | cons name names ih =>
      unfold leftoverPath at ih ⊢
      rw [List.map_cons, List.foldl_cons, push_name, entryPath, Posix.Path.pop_append_normal]
      exact ih

theorem push_last_name (d : Path) {names : List Name} {last : Name} (h : names.getLast? = some last) :
    d.push ((names.map fun name => [Posix.Component.normal name]).getLast?.getD []) = entryPath d last := by
  rw [List.getLast?_map, h, Option.map_some, Option.getD_some, push_name]

/-- With a sibling in the tree, only the first name is tried before it. -/
theorem searchedPath_sibling {d p : Path} (hsibling : htmlSibling d = some p) (hp : t.exists p = true)
    (first : Name) (names : List Name) :
    searchedPath t d ((first :: names).map fun name => [.normal name]) =
      if t.exists (entryPath d first) then entryPath d first else p := by
  unfold searchedPath
  rw [triedPaths_names, List.flatMap_cons, hsibling, Option.toList_some, List.cons_append, List.singleton_append]
  by_cases hfirst : t.exists (entryPath d first) = true
  · rw [List.find?_cons_of_pos hfirst, if_pos hfirst, Option.getD_some]
  · rw [List.find?_cons_of_neg hfirst, List.find?_cons_of_pos hp, if_neg hfirst, Option.getD_some]

/-- Without one, the names are tried in their order. -/
theorem searchedPath_no_sibling {d : Path} (hno : (htmlSibling d).any t.exists = false) {names : List Name}
    {last : Name} (hlast : names.getLast? = some last) :
    searchedPath t d (names.map fun name => [.normal name]) =
      entryPath d ((names.find? fun name => t.exists (entryPath d name)).getD last) := by
  have hskip : ∀ names : List Name,
      (names.flatMap fun name => entryPath d name :: (htmlSibling d).toList).find? t.exists =
      (names.find? fun name => t.exists (entryPath d name)).map (entryPath d) := by
    intro names
    induction names with
    | nil => rfl
    | cons name names ih =>
        rw [List.flatMap_cons, List.cons_append]
        by_cases hname : t.exists (entryPath d name) = true
        · rw [List.find?_cons_of_pos hname, List.find?_cons_of_pos (by simpa using hname), Option.map_some]
        · rw [List.find?_cons_of_neg hname, List.find?_cons_of_neg (by simpa using hname), List.find?_append, ih]
          have hnone : (htmlSibling d).toList.find? t.exists = none := by
            refine List.find?_eq_none.mpr fun p hp => ?_
            rw [Option.mem_toList] at hp
            rw [hp, Option.any_some] at hno
            simp [hno]
          rw [hnone, Option.none_or]
  unfold searchedPath
  rw [triedPaths_names, leftoverPath_names, hskip, push_last_name d hlast]
  cases names.find? fun name => t.exists (entryPath d name) <;> rfl

theorem firstRegular_names (d : Path) (names : List Name) :
    firstRegular t d (names.map fun name => [.normal name]) =
      (names.find? fun name => t.isFile (entryPath d name)).map (entryPath d) := by
  have hmap : (names.map fun name => [Posix.Component.normal name]).map d.push = names.map (entryPath d) := by
    rw [List.map_map]
    exact List.map_congr_left fun name _ => push_name d name
  rw [firstRegular, hmap, List.find?_map]
  rfl

theorem exists_of_isFile {p : Path} (h : t.isFile p = true) : t.exists p = true := by
  unfold FileTree.isFile at h
  obtain ⟨i, hi, _⟩ := (Option.any_eq_true _ _).mp h
  unfold FileTree.exists
  rw [hi]
  rfl

theorem isFile_of_find?_eq_none {d : Path} {names : List Name}
    (h : names.find? (fun name => t.isFile (entryPath d name)) = none) :
    ∀ name ∈ names, t.isFile (entryPath d name) = false := fun name hname => by
  simpa using List.find?_eq_none.mp h name hname

/-- No entry that is tried first hides the one that is due: with the sibling in the tree, the first name alone counts,
without it the first name that exists. -/
def NamesInOrder (t : FileTree) (d : Path) (names : List Name) : Prop :=
  if (htmlSibling d).any t.exists then
    ∀ first, names.head? = some first →
      if t.exists (entryPath d first) then t.isFile (entryPath d first) = true
      else ∀ name ∈ names, t.isFile (entryPath d name) = false
  else
    ∀ first, names.find? (fun name => t.exists (entryPath d name)) = some first →
      t.isFile (entryPath d first) = true ∨
        (∀ name ∈ names, t.isFile (entryPath d name) = false) ∧ names.getLast? = some first

theorem lastIsOneName_names (d : Path) {names : List Name} (hne : names ≠ []) :
    LastIsOneName t d (names.map fun name => [.normal name]) :=
  fun _ _ => ⟨.normal (names.getLast hne), push_last_name d (List.getLast?_eq_some_getLast hne)⟩

theorem duePath_names (d : Path) {names : List Name} {last : Name} (hlast : names.getLast? = some last) :
    duePath t d (names.map fun name => [.normal name]) =
      ((names.find? fun name => t.isFile (entryPath d name)).map (entryPath d)).getD
        (((htmlSibling d).filter t.exists).getD (entryPath d last)) := by
  rw [duePath, firstRegular_names, push_last_name d hlast]

theorem searchedPath_eq_duePath_sibling {d p : Path} (hsibling : htmlSibling d = some p) (hp : t.exists p = true)
    (first : Name) (names : List Name) :
    searchedPath t d ((first :: names).map fun name => [.normal name]) =
        duePath t d ((first :: names).map fun name => [.normal name]) ↔
      if t.exists (entryPath d first) then t.isFile (entryPath d first) = true
      else ∀ name ∈ first :: names, t.isFile (entryPath d name) = false := by
  rw [searchedPath_sibling hsibling hp, duePath_names d (List.getLast?_eq_some_getLast (List.cons_ne_nil _ _)),
    hsibling, Option.filter_some, if_pos hp, Option.getD_some]
  by_cases hfirst : t.exists (entryPath d first) = true
  · rw [if_pos hfirst, if_pos hfirst]
    cases hregular : (first :: names).find? fun name => t.isFile (entryPath d name) with
    | none =>
        refine iff_of_false (fun h => htmlSibling_ne_entryPath hsibling first h.symm) fun hfile => ?_
        exact List.find?_eq_none.mp hregular first List.mem_cons_self hfile
    | some r =>
        rw [Option.map_some, Option.getD_some]
        constructor
        · intro h
          rw [h]
          exact List.find?_some (p := fun name => t.isFile (entryPath d name)) hregular
        · intro hfile
          rw [List.find?_cons_of_pos (by simpa using hfile), Option.some.injEq] at hregular
          rw [hregular]
  · rw [if_neg hfirst, if_neg hfirst]
    cases hregular : (first :: names).find? fun name => t.isFile (entryPath d name) with
    | none => exact iff_of_true rfl (isFile_of_find?_eq_none hregular)
    | some r =>
        refine iff_of_false (htmlSibling_ne_entryPath hsibling r) fun h => ?_
        have hfile : t.isFile (entryPath d r) = true :=
          List.find?_some (p := fun name => t.isFile (entryPath d name)) hregular
        rw [h r (List.mem_of_find?_eq_some hregular)] at hfile
        cases hfile

/-- The first entry that exists is the first regular one, if it is regular at all. -/
theorem find?_isFile_of_first {d : Path} {names : List Name} {first : Name}
    (h : names.find? (fun name => t.exists (entryPath d name)) = some first)
    (hfile : t.isFile (entryPath d first) = true) :
    names.find? (fun name => t.isFile (entryPath d name)) = some first := by
  obtain ⟨_, before, after, rfl, hbefore⟩ := List.find?_eq_some_iff_append.mp h
  refine List.find?_eq_some_iff_append.mpr ⟨hfile, before, after, rfl, fun name hname => ?_⟩
  have hmiss := hbefore name hname
  rw [Bool.not_eq_true'] at hmiss ⊢
  refine Bool.eq_false_iff.mpr fun hn => ?_
  rw [exists_of_isFile hn] at hmiss
  cases hmiss

theorem searchedPath_eq_duePath_no_sibling {d : Path} (hno : (htmlSibling d).any t.exists = false)
    {names : List Name} {last : Name} (hlast : names.getLast? = some last) :
    searchedPath t d (names.map fun name => [.normal name]) = duePath t d (names.map fun name => [.normal name]) ↔
      ∀ first, names.find? (fun name => t.exists (entryPath d name)) = some first →
        t.isFile (entryPath d first) = true ∨
          (∀ name ∈ names, t.isFile (entryPath d name) = false) ∧ names.getLast? = some first := by
  rw [searchedPath_no_sibling hno hlast, duePath_names d hlast, filter_sibling_eq_none hno, Option.getD_none, hlast]
  cases hfirst : names.find? fun name => t.exists (entryPath d name) with
  | none =>
      have hnone : names.find? (fun name => t.isFile (entryPath d name)) = none :=
        List.find?_eq_none.mpr fun name hname hfile =>
          List.find?_eq_none.mp hfirst name hname (exists_of_isFile hfile)
      rw [hnone]
      exact iff_of_true rfl fun first h => by cases h
  | some e =>
      simp only [Option.getD_some, Option.some.injEq, forall_eq']
      cases hregular : names.find? fun name => t.isFile (entryPath d name) with
      | none =>
          have hall := isFile_of_find?_eq_none hregular
          rw [Option.map_none, Option.getD_none]
          constructor
          · exact fun h => .inr ⟨hall, (entryPath_injective h).symm⟩
          · rintro (hfile | ⟨_, rfl⟩)
            · rw [hall e (List.mem_of_find?_eq_some hfirst)] at hfile
              cases hfile
            · rfl
      | some r =>
          have hfile : t.isFile (entryPath d r) = true :=
            List.find?_some (p := fun name => t.isFile (entryPath d name)) hregular
          rw [Option.map_some, Option.getD_some]
          constructor
          · intro h
            rw [h]
            exact .inl hfile
          · rintro (he | ⟨hall, _⟩)
            · rw [find?_isFile_of_first hfirst he, Option.some.injEq] at hregular
              rw [hregular]
            · rw [hall r (List.mem_of_find?_eq_some hregular)] at hfile
              cases hfile

theorem searchedPath_eq_duePath_iff {d : Path} {names : List Name} (hne : names ≠ []) :
    searchedPath t d (names.map fun name => [.normal name]) = duePath t d (names.map fun name => [.normal name]) ↔
      NamesInOrder t d names := by
  unfold NamesInOrder
  obtain ⟨first, rest, rfl⟩ := List.exists_cons_of_ne_nil hne
  by_cases hsibling : (htmlSibling d).any t.exists = true
  · obtain ⟨p, hp, hexists⟩ := (Option.any_eq_true _ _).mp hsibling
    rw [if_pos hsibling, searchedPath_eq_duePath_sibling hp hexists]
    simp only [List.head?_cons, Option.some.injEq, forall_eq']
  · rw [if_neg hsibling]
    exact searchedPath_eq_duePath_no_sibling (Bool.eq_false_iff.mpr hsibling)
      (List.getLast?_eq_some_getLast (List.cons_ne_nil _ _))

theorem selectsIndex_iff {d : Path} {i : Inode} (hd : t.metadata d = .ok i) (hdir : i.isDir = true)
    (headers : HeaderMap) (indexFiles : List Path) :
    (SelectsIndex t d (effectiveIndexFiles indexFiles)
        (getComposedFileMetadata crates t headers false d indexFiles) ↔
      searchedPath t d (effectiveIndexFiles indexFiles) = duePath t d (effectiveIndexFiles indexFiles) ∧
        LastIsOneName t d (effectiveIndexFiles indexFiles)) ∧
    ∀ names : List Name, effectiveIndexFiles indexFiles = names.map (fun name => [.normal name]) →
      (SelectsIndex t d (effectiveIndexFiles indexFiles)
          (getComposedFileMetadata crates t headers false d indexFiles) ↔ NamesInOrder t d names) := by
  have hdue := @selectsIndex_iff_duePath crates t d i hd hdir headers indexFiles
  refine ⟨hdue, fun names hnames => ?_⟩
  have hne : names ≠ [] := by
    rintro rfl
    exact effectiveIndexFiles_ne_nil indexFiles hnames
  rw [hdue, hnames, searchedPath_eq_duePath_iff hne]
  exact and_iff_left (lastIsOneName_names d hne)

/-- `/srv/d` and `/srv/e` have only the second of their index files, and `/srv/d` stands beside `/srv/d.html`. -/
def siblingTree : FileTree :=
  { nodes :=
      [ ([], sampleDir [named "srv"]),
        ([named "srv"], sampleDir [named "d", named "d.html", named "e"]),
        ([named "srv", named "d"], sampleDir [named "index.htm"]),
        ([named "srv", named "d", named "index.htm"], sampleFile (named "hello")),
        ([named "srv", named "d.html"], sampleFile (named "sibling")),
        ([named "srv", named "e"], sampleDir [named "index.htm"]),
        ([named "srv", named "e", named "index.htm"], sampleFile (named "hello")) ]
    cwd := [], symloopMax := 40, wf := by decide }

def htmlThenHtm : List Path := [[.normal (named "index.html")], [.normal (named "index.htm")]]

def siblingResult : Except StatusCode FileMetadata :=
  getComposedFileMetadata sampleCrates siblingTree [] false (Posix.canonPath [named "srv", named "d"]) htmlThenHtm

/-- The sibling is taken before the second index file is tried. -/
theorem sibling_hides_index :
    ¬ SelectsIndex siblingTree (Posix.canonPath [named "srv", named "d"]) htmlThenHtm siblingResult := by
  intro h
  have hindex : firstRegular siblingTree (Posix.canonPath [named "srv", named "d"]) htmlThenHtm =
      some (Posix.canonPath [named "srv", named "d", named "index.htm"]) := by decide +kernel
  obtain ⟨metadata, hreport⟩ := h.first _ hindex
  have hpath : siblingResult.toOption.map FileMetadata.filePath =
      some (Posix.canonPath [named "srv", named "d", named "index.htm"]) :=
    congrArg (fun r => r.toOption.map FileMetadata.filePath) hreport
  exact absurd hpath (by decide +kernel)

theorem selectsIndex_iff_second :
    (SelectsIndex siblingTree (Posix.canonPath [named "srv", named "e"]) htmlThenHtm
        (getComposedFileMetadata sampleCrates siblingTree [] false (Posix.canonPath [named "srv", named "e"]) htmlThenHtm) ↔
      NamesInOrder siblingTree (Posix.canonPath [named "srv", named "e"]) [named "index.html", named "index.htm"]) ∧
    firstRegular siblingTree (Posix.canonPath [named "srv", named "e"]) htmlThenHtm =
      some (Posix.canonPath [named "srv", named "e", named "index.htm"]) := by
  obtain ⟨i, hi, hdir⟩ : ∃ i, siblingTree.metadata (Posix.canonPath [named "srv", named "e"]) = .ok i ∧ i.isDir = true :=
    ⟨_, rfl, rfl⟩
  exact ⟨(@selectsIndex_iff sampleCrates siblingTree _ i hi hdir [] htmlThenHtm).2 _ rfl, by decide +kernel⟩

/-! ## Redirects and content codings -/

def Redirects (result : Except Failure StaticFileResponse) : Prop :=
  ∃ r, result = .ok r ∧ r.resp.status = .permanentRedirect

/-- The same request with other header fields, under a configuration with other static compression. -/
def HandleOpts.recoded (opts : HandleOpts) (headers : HeaderMap) (compressionStatic : Bool) : HandleOpts :=
  { opts with headers, compressionStatic }

/-- Some index file that the search comes to has a variant that the request accepts. -/
def HitsVariant (crates : Crates) (t : FileTree) (opts : HandleOpts) : Prop :=
  ∃ p ∈ reachedIndexes t (requestedPath opts) (effectiveIndexFiles opts.indexFiles),
    (variantOf crates t opts.headers opts.compressionStatic p).isSome = true

/-- A request for a directory without a slash at the end, which the checks let through. -/
structure LacksSlash (t : FileTree) (store : Store) (opts : HandleOpts) : Prop where
  slash : Text.endsWith opts.uriPath '/' = false
  uncached : cachedFile store opts = none
  dir : t.isDir (requestedPath opts) = true
  granted : checkAccess t opts (searchedPath t (requestedPath opts) (effectiveIndexFiles opts.indexFiles)).pop = .ok ()
  location : (HeaderValue.fromStr (locationText opts)).isSome = true

theorem redirectReply_isOk_iff : (∃ resp, redirectReply opts = .ok resp) ↔
    (HeaderValue.fromStr (locationText opts)).isSome = true := by
  unfold redirectReply locationText
  dsimp only
  cases HeaderValue.fromStr (opts.uriPath ++ '/' :: opts.uriQuery.elim [] ('?' :: ·)) <;> simp

theorem redirectReply_status {resp : Response Body} (h : redirectReply opts = .ok resp) :
    resp.status = .permanentRedirect := by
  unfold redirectReply at h
  dsimp only at h
  split at h
  · cases h
    rfl
  · cases h

theorem reached_variant_eq_none (hno : ¬ HitsVariant crates t opts) :
    ∀ p ∈ reachedIndexes t (requestedPath opts) (effectiveIndexFiles opts.indexFiles),
      variantOf crates t opts.headers opts.compressionStatic p = none :=
  fun p hp => Option.not_isSome_iff_eq_none.mp fun hsome => hno ⟨p, hp, hsome⟩

theorem redirects_iff (hget : opts.method = .get) (hredirect : opts.redirectTrailingSlash = true) :
    Redirects (handle crates t store opts) ↔ LacksSlash t store opts ∧ ¬ HitsVariant crates t opts := by
  constructor
  · rintro ⟨r, hr, hstatus⟩
    obtain ⟨m, h⟩ := handle_redirect hr hstatus
    have hdir := isDir_of_composed h.composed h.dir
    obtain ⟨i, hi, hidir⟩ := isDir_iff.mp hdir
    have hno : ¬ HitsVariant crates t opts := fun hhits => by
      obtain ⟨m', hm', hfile⟩ := getComposedFileMetadata_variant hi hidir hhits
      rw [h.composed, Except.ok.injEq] at hm'
      rw [← hm', h.dir] at hfile
      cases hfile
    obtain ⟨metadata, _, hm⟩ := getComposedFileMetadata_dir hi hidir opts.indexFiles (reached_variant_eq_none hno)
    have hgranted := h.granted
    rw [h.composed, Except.ok.injEq] at hm
    rw [hm] at hgranted
    exact ⟨⟨h.slash, h.uncached, hdir, hgranted, redirectReply_isOk_iff.mp ⟨_, h.reply⟩⟩, hno⟩
  · rintro ⟨hlacks, hno⟩
    obtain ⟨i, hi, hdir⟩ := isDir_iff.mp hlacks.dir
    obtain ⟨metadata, _, hm⟩ := getComposedFileMetadata_dir hi hdir opts.indexFiles (reached_variant_eq_none hno)
    obtain ⟨resp, hresp⟩ := redirectReply_isOk_iff.mpr hlacks.location
    have hhandle := handle_directory (by rw [hget]; rfl) hlacks.uncached hm hlacks.granted rfl hredirect hlacks.slash
    rw [hresp] at hhandle
    exact ⟨_, hhandle, redirectReply_status hresp⟩

/-- Neither the header fields nor static compression decide which path a request names and who may see it. -/
theorem lacksSlash_recoded (headers : HeaderMap) (compressionStatic : Bool) :
    LacksSlash t store (opts.recoded headers compressionStatic) ↔ LacksSlash t store opts :=
  ⟨fun h => ⟨h.slash, h.uncached, h.dir, h.granted, h.location⟩,
    fun h => ⟨h.slash, h.uncached, h.dir, h.granted, h.location⟩⟩

/-- Two requests for a directory without a slash at the end are redirected alike when both or neither of them accept a
variant of an index file that the search comes to. -/
theorem redirects_alike_iff (hget : opts.method = .get) (hredirect : opts.redirectTrailingSlash = true)
    (headers : HeaderMap) (compressionStatic : Bool) :
    (Redirects (handle crates t store opts) ↔
        Redirects (handle crates t store (opts.recoded headers compressionStatic))) ↔
      (LacksSlash t store opts →
        (HitsVariant crates t opts ↔ HitsVariant crates t (opts.recoded headers compressionStatic))) := by
  have hother : Redirects (handle crates t store (opts.recoded headers compressionStatic)) ↔
      LacksSlash t store (opts.recoded headers compressionStatic) ∧
        ¬ HitsVariant crates t (opts.recoded headers compressionStatic) := redirects_iff hget hredirect
  rw [redirects_iff hget hredirect, hother, lacksSlash_recoded]
  tauto

/-- The index file of `/srv/d` has a variant. -/
def indexVariantTree : FileTree :=
  { nodes :=
      [ ([], sampleDir [named "srv"]),
        ([named "srv"], sampleDir [named "d"]),
        ([named "srv", named "d"], sampleDir [named "index.html", named "index.html.gz"]),
        ([named "srv", named "d", named "index.html"], sampleFile (named "hello")),
        ([named "srv", named "d", named "index.html.gz"], sampleFile (named "gzip of hello")) ]
    cwd := [], symloopMax := 40, wf := by decide }

def statusOf (result : Except Failure StaticFileResponse) : Option StatusCode := result.toOption.map (·.resp.status)

theorem redirects_iff_status {result : Except Failure StaticFileResponse} :
    Redirects result ↔ statusOf result = some .permanentRedirect := by
  unfold Redirects statusOf
  cases result <;> simp [Except.toOption]

/-- A client that accepts gzip gets the index file, any other is redirected, and so is this one without static
compression. -/
theorem variant_is_not_redirected :
    ¬ Redirects (handle sampleCrates indexVariantTree [] (gzipOpts "/d")) ∧
      Redirects (handle sampleCrates indexVariantTree [] ((gzipOpts "/d").recoded [] true)) ∧
      Redirects (handle sampleCrates indexVariantTree [] ((gzipOpts "/d").recoded (gzipOpts "/d").headers false)) := by
  simp only [redirects_iff_status]
  decide +kernel

theorem redirects_alike_iff_gzip :
    (Redirects (handle sampleCrates indexVariantTree [] (gzipOpts "/d")) ↔
        Redirects (handle sampleCrates indexVariantTree [] ((gzipOpts "/d").recoded [] true))) ↔
      (LacksSlash indexVariantTree [] (gzipOpts "/d") → (HitsVariant sampleCrates indexVariantTree (gzipOpts "/d") ↔
        HitsVariant sampleCrates indexVariantTree ((gzipOpts "/d").recoded [] true))) :=
  redirects_alike_iff rfl rfl [] true

end WeaveGate.Static
