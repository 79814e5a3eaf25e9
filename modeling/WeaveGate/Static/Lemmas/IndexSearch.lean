import WeaveGate.Static.Lemmas.Composed

/-!
# The search for an index file

Which paths the loop of `get_composed_file_metadata` tries, in which order, and what it returns when it stops at
one of them. The path buffer after a turn is not the directory when an index file has several components.
-/

namespace WeaveGate.Static

open Http
open Posix (Octets Path Name FileTree Inode Errno Canon)

variable {crates : Crates} {t : FileTree} {headers : HeaderMap} {compressionStatic : Bool}

/-! ## The paths of the search -/

/-- The sibling of a directory that has its name with `.html` behind it. -/
def htmlSibling (p : Path) : Option Path :=
  (Posix.Path.fileName p).map fun name => Posix.Path.setFileName p (name ++ htmlSuffix)

/-- What the search tries: for each index file the file itself, then the sibling of what the buffer holds. -/
def triedPaths (filePath : Path) : List Path → List Path
  | [] => []
  | index :: rest =>
      filePath.push index :: ((htmlSibling (filePath.push index).pop).toList ++
        triedPaths (filePath.push index).pop rest)

/-- The path buffer after a search that has found nothing. -/
def leftoverPath (filePath : Path) (indexFiles : List Path) : Path :=
  indexFiles.foldl (fun filePath index => (filePath.push index).pop) filePath

/-- The path that the search ends with. -/
def searchedPath (t : FileTree) (filePath : Path) (indexFiles : List Path) : Path :=
  ((triedPaths filePath indexFiles).find? t.exists).getD
    ((leftoverPath filePath indexFiles).push (indexFiles.getLast?.getD []))

/-- The path whose metadata the search returns: without an index file those of the directory. -/
def recordedPath (t : FileTree) (filePath : Path) (indexFiles : List Path) : Path :=
  ((triedPaths filePath indexFiles).find? t.exists).getD filePath

/-- The index files that the search comes to. -/
def reachedIndexes (t : FileTree) (filePath : Path) : List Path → List Path
  | [] => []
  | index :: rest =>
      filePath.push index ::
        if t.exists (filePath.push index) || (htmlSibling (filePath.push index).pop).any t.exists then []
        else reachedIndexes t (filePath.push index).pop rest

/-! ## One turn -/

theorem tryMetadata_of_exists {p : Path} (h : t.exists p = true) : ∃ i, t.metadata p = .ok i ∧
    tryMetadata t p = .ok (i, i.isDir) := by
  obtain ⟨i, hi⟩ := exists_iff.mp h
  exact ⟨i, hi, tryMetadata_eq_ok.mpr ⟨hi, rfl⟩⟩

theorem tryMetadata_of_not_exists {p : Path} (h : t.exists p = false) : tryMetadata t p = .error .notFound := by
  unfold FileTree.exists at h
  unfold tryMetadata
  cases hp : t.metadata p with
  | ok i => simp [hp, Except.toOption] at h
  | error e => rfl

theorem tryMetadataWithHtmlSuffix_sibling {p sibling : Path} {i : Inode} (hsibling : htmlSibling p = some sibling)
    (hi : t.metadata sibling = .ok i) : tryMetadataWithHtmlSuffix t p = (sibling, some i) := by
  obtain ⟨name, hname, rfl⟩ := Option.map_eq_some_iff.mp hsibling
  unfold tryMetadataWithHtmlSuffix
  simp only [hname, tryMetadata_eq_ok.mpr ⟨hi, rfl⟩]

theorem tryMetadataWithHtmlSuffix_missing {p : Path} (h : (htmlSibling p).any t.exists = false) :
    tryMetadataWithHtmlSuffix t p = (p, none) := by
  have hnone : (tryMetadataWithHtmlSuffix t p).2 = none := by
    unfold htmlSibling at h
    unfold tryMetadataWithHtmlSuffix
    cases hname : Posix.Path.fileName p with
    | none => rfl
    | some name =>
        rw [hname, Option.map_some, Option.any_some] at h
        simp only [tryMetadata_of_not_exists h]
  have hpair : tryMetadataWithHtmlSuffix t p = ((tryMetadataWithHtmlSuffix t p).1, none) := Prod.ext rfl hnone
  rw [hpair, tryMetadataWithHtmlSuffix_none hpair]

/-! ## The whole search -/

/-- Without variants, the search stops at the first path that exists. -/
theorem findIndex_eq (filePath : Path) (indexFiles : List Path) :
    match (triedPaths filePath indexFiles).find? t.exists with
    | some p => ∃ i, t.metadata p = .ok i ∧ findIndex crates t headers false filePath indexFiles = .found p i
    | none => findIndex crates t headers false filePath indexFiles = .notFound (leftoverPath filePath indexFiles) := by
  induction indexFiles generalizing filePath with
  | nil => rfl
  | cons index rest ih =>
      have hvariant : variantOf crates t headers false (filePath.push index) = none := rfl
      unfold findIndex triedPaths
      simp only [hvariant]
      by_cases hindex : t.exists (filePath.push index) = true
      · obtain ⟨i, hi, htry⟩ := tryMetadata_of_exists hindex
        rw [List.find?_cons_of_pos hindex]
        simp only [htry]
        exact ⟨i, hi, rfl⟩
      · rw [List.find?_cons_of_neg hindex, tryMetadata_of_not_exists (Bool.eq_false_iff.mpr hindex)]
        dsimp only
        cases hsibling : htmlSibling (filePath.push index).pop with
        | none =>
            rw [tryMetadataWithHtmlSuffix_missing (by rw [hsibling]; rfl)]
            exact ih _
        | some sibling =>
            rw [Option.toList_some, List.singleton_append]
            by_cases hexists : t.exists sibling = true
            · obtain ⟨i, hi⟩ := exists_iff.mp hexists
              rw [List.find?_cons_of_pos hexists, tryMetadataWithHtmlSuffix_sibling hsibling hi]
              exact ⟨i, hi, rfl⟩
            · rw [List.find?_cons_of_neg hexists,
                tryMetadataWithHtmlSuffix_missing (by simpa [hsibling] using hexists)]
              exact ih _

/-- The search ends with a variant when some index file that it comes to has one. -/
theorem findIndex_variant_iff (filePath : Path) (indexFiles : List Path) :
    (∃ m, findIndex crates t headers compressionStatic filePath indexFiles = .variant m) ↔
      ∃ p ∈ reachedIndexes t filePath indexFiles, (variantOf crates t headers compressionStatic p).isSome = true := by
  induction indexFiles generalizing filePath with
  | nil => simp [findIndex, reachedIndexes]
  | cons index rest ih =>
      unfold findIndex reachedIndexes
      rw [List.exists_mem_cons_iff]
      cases hvariant : variantOf crates t headers compressionStatic (filePath.push index) with
      | some v =>
          simp only [hvariant]
          exact iff_of_true ⟨_, rfl⟩ (.inl rfl)
      | none =>
          simp only [hvariant, Option.isSome_none, Bool.false_eq_true, false_or]
          by_cases hindex : t.exists (filePath.push index) = true
          · obtain ⟨i, _, htry⟩ := tryMetadata_of_exists hindex
            simp [htry, hindex]
          · rw [tryMetadata_of_not_exists (Bool.eq_false_iff.mpr hindex)]
            dsimp only
            by_cases hexists : (htmlSibling (filePath.push index).pop).any t.exists = true
            · obtain ⟨sibling, hsibling, hs⟩ := (Option.any_eq_true _ _).mp hexists
              obtain ⟨i, hi⟩ := exists_iff.mp hs
              rw [tryMetadataWithHtmlSuffix_sibling hsibling hi, if_pos (by rw [hexists, Bool.or_true])]
              simp
            · rw [tryMetadataWithHtmlSuffix_missing (Bool.eq_false_iff.mpr hexists),
                if_neg (by rw [Bool.or_eq_true, not_or]; exact ⟨hindex, hexists⟩)]
              exact ih _

/-- Variants change nothing else. -/
theorem findIndex_of_no_variant (filePath : Path) {indexFiles : List Path}
    (h : ∀ p ∈ reachedIndexes t filePath indexFiles, variantOf crates t headers compressionStatic p = none) :
    findIndex crates t headers compressionStatic filePath indexFiles =
      findIndex crates t headers false filePath indexFiles := by
  induction indexFiles generalizing filePath with
  | nil => rfl
  | cons index rest ih =>
      unfold reachedIndexes at h
      obtain ⟨hfirst, hrest⟩ := List.forall_mem_cons.mp h
      have hoff : variantOf crates t headers false (filePath.push index) = none := rfl
      unfold findIndex
      simp only [hfirst, hoff]
      by_cases hindex : t.exists (filePath.push index) = true
      · obtain ⟨i, _, htry⟩ := tryMetadata_of_exists hindex
        simp only [htry]
      · rw [tryMetadata_of_not_exists (Bool.eq_false_iff.mpr hindex)]
        dsimp only
        by_cases hexists : (htmlSibling (filePath.push index).pop).any t.exists = true
        · obtain ⟨sibling, hsibling, hs⟩ := (Option.any_eq_true _ _).mp hexists
          obtain ⟨i, hi⟩ := exists_iff.mp hs
          rw [tryMetadataWithHtmlSuffix_sibling hsibling hi]
        · rw [tryMetadataWithHtmlSuffix_missing (Bool.eq_false_iff.mpr hexists)]
          rw [if_neg (by rw [Bool.or_eq_true, not_or]; exact ⟨hindex, hexists⟩)] at hrest
          exact ih _ hrest

/-! ## The result for a directory -/

/-- An empty list counts as the default one. -/
def effectiveIndexFiles (indexFiles : List Path) : List Path :=
  if indexFiles = [] then defaultIndexFiles else indexFiles

theorem effectiveIndexFiles_ne_nil (indexFiles : List Path) : effectiveIndexFiles indexFiles ≠ [] := by
  unfold effectiveIndexFiles
  split
  · exact List.cons_ne_nil _ _
  · assumption

/-- Without variants in its way, the search ends with a directory request. -/
theorem getComposedFileMetadata_dir {d : Path} {i : Inode} (hd : t.metadata d = .ok i) (hdir : i.isDir = true)
    (indexFiles : List Path) (hno : ∀ p ∈ reachedIndexes t d (effectiveIndexFiles indexFiles),
      variantOf crates t headers compressionStatic p = none) :
    ∃ metadata, t.metadata (recordedPath t d (effectiveIndexFiles indexFiles)) = .ok metadata ∧
      getComposedFileMetadata crates t headers compressionStatic d indexFiles =
        .ok (FileMetadata.ofFound crates t headers compressionStatic
          (searchedPath t d (effectiveIndexFiles indexFiles)) metadata true) := by
  have hfind := findIndex_of_no_variant d hno
  have hsearch := @findIndex_eq crates t headers d (effectiveIndexFiles indexFiles)
  unfold recordedPath
  unfold effectiveIndexFiles at hfind hsearch ⊢
  unfold getComposedFileMetadata searchedPath
  simp only [tryMetadata_eq_ok.mpr ⟨hd, hdir⟩]
  rw [hfind]
  cases hfirst : (triedPaths d (if indexFiles = [] then defaultIndexFiles else indexFiles)).find? t.exists with
  | some p =>
      rw [hfirst] at hsearch
      obtain ⟨j, hmeta, hj⟩ := hsearch
      rw [hj]
      exact ⟨j, hmeta, rfl⟩
  | none =>
      rw [hfirst] at hsearch
      rw [hsearch]
      exact ⟨i, hd, rfl⟩

/-- A search that meets a variant does not end with a directory request. -/
theorem getComposedFileMetadata_variant {d : Path} {i : Inode} {indexFiles : List Path} (hd : t.metadata d = .ok i)
    (hdir : i.isDir = true) (h : ∃ p ∈ reachedIndexes t d (effectiveIndexFiles indexFiles),
      (variantOf crates t headers compressionStatic p).isSome = true) :
    ∃ m, getComposedFileMetadata crates t headers compressionStatic d indexFiles = .ok m ∧ m.isDir = false := by
  obtain ⟨m, hm⟩ := (findIndex_variant_iff _ _).mpr h
  obtain ⟨p, v, _, rfl⟩ := findIndex_variant hm
  refine ⟨FileMetadata.ofVariant p v, ?_, rfl⟩
  unfold effectiveIndexFiles at hm
  unfold getComposedFileMetadata
  simp only [tryMetadata_eq_ok.mpr ⟨hd, hdir⟩, hm]

theorem isDir_of_composed {p : Path} {indexFiles : List Path} {m : FileMetadata}
    (h : getComposedFileMetadata crates t headers compressionStatic p indexFiles = .ok m) (hdir : m.isDir = true) :
    t.isDir p = true := by
  unfold getComposedFileMetadata at h
  dsimp only at h
  split at h
  · cases h
    cases hdir
  · rename_i i hmeta
    exact isDir_iff.mpr ⟨i, tryMetadata_eq_ok.mp hmeta⟩
  · split at h
    · cases h
      cases hdir
    · split at h
      · cases h
        cases hdir
      · split at h
        · cases h
          cases hdir
        · cases h

/-- What a directory request records, by the tree. -/
theorem metadata_recordedPath {d : Path} {indexFiles : List Path} {m : FileMetadata}
    (h : getComposedFileMetadata crates t headers compressionStatic d indexFiles = .ok m) (hdir : m.isDir = true) :
    t.metadata (recordedPath t d (effectiveIndexFiles indexFiles)) = .ok m.metadata := by
  obtain ⟨i, hi, hidir⟩ := isDir_iff.mp (isDir_of_composed h hdir)
  by_cases hvariant : ∃ p ∈ reachedIndexes t d (effectiveIndexFiles indexFiles),
      (variantOf crates t headers compressionStatic p).isSome = true
  · obtain ⟨m', hm', hfile⟩ := getComposedFileMetadata_variant hi hidir hvariant
    rw [h, Except.ok.injEq] at hm'
    rw [← hm', hdir] at hfile
    cases hfile
  · obtain ⟨metadata, hmeta, hm⟩ := getComposedFileMetadata_dir hi hidir indexFiles fun p hp =>
      Option.not_isSome_iff_eq_none.mp fun hsome => hvariant ⟨p, hp, hsome⟩
    rw [h, Except.ok.injEq] at hm
    rw [hm]
    exact hmeta

/-! ## Names as index files -/

/-- The buffer holds the directory again after every turn. -/
theorem findIndex_notFound {filePath p : Path} {indexFiles : List Path}
    (h : findIndex crates t headers compressionStatic filePath indexFiles = .notFound p)
    (hindex : ∀ index ∈ indexFiles, ∃ n, index = [.normal n]) : p = filePath := by
  induction indexFiles generalizing filePath with
  | nil =>
      cases h
      rfl
  | cons index rest ih =>
      obtain ⟨⟨n, rfl⟩, hrest⟩ := List.forall_mem_cons.mp hindex
      unfold findIndex at h
      dsimp only at h
      split at h
      · cases h
      · split at h
        · cases h
        · split at h
          · cases h
          · rename_i q hsuffix
            rw [ih h hrest, tryMetadataWithHtmlSuffix_none hsuffix, Posix.Path.push_normal,
              Posix.Path.pop_append_normal]

end WeaveGate.Static
