import WeaveGate.Static.Handle

/-!
# The file a request resolves to

What `get_composed_file_metadata` returns, return by return.
-/

namespace WeaveGate.Static

open Http
open Posix (Octets Path Name FileTree Inode Errno Canon)

variable {crates : Crates} {t : FileTree} {headers : HeaderMap} {compressionStatic : Bool}

/-! ## Names -/

theorem tryMetadata_eq_ok {p : Path} {i : Inode} {isDir : Bool} :
    tryMetadata t p = .ok (i, isDir) ↔ t.metadata p = .ok i ∧ i.isDir = isDir := by
  unfold tryMetadata
  cases t.metadata p with
  | error e => simp
  | ok j =>
      simp only [Except.ok.injEq, Prod.mk.injEq]
      constructor
      · rintro ⟨rfl, rfl⟩
        exact ⟨rfl, rfl⟩
      · rintro ⟨rfl, rfl⟩
        exact ⟨rfl, rfl⟩

theorem exists_iff {p : Path} : t.exists p = true ↔ ∃ i, t.metadata p = .ok i := by
  unfold FileTree.exists
  cases t.metadata p <;> simp [Except.toOption]

theorem isDir_iff {p : Path} : t.isDir p = true ↔ ∃ i, t.metadata p = .ok i ∧ i.isDir = true := by
  unfold FileTree.isDir
  cases t.metadata p <;> simp [Except.toOption]

theorem tryMetadataWithHtmlSuffix_none {p q : Path} (h : tryMetadataWithHtmlSuffix t p = (q, none)) : q = p := by
  unfold tryMetadataWithHtmlSuffix at h
  split at h
  · cases h
    rfl
  · rename_i name hname
    dsimp only at h
    split at h
    · cases h
    · cases h
      rw [Posix.Path.eq_pop_append_of_fileName hname, Posix.Path.setFileName_append_normal,
        Posix.Path.setFileName_append_normal]

theorem tryMetadataWithHtmlSuffix_some {p q : Path} {i : Inode} (h : tryMetadataWithHtmlSuffix t p = (q, some i)) :
    ∃ name, Posix.Path.fileName p = some name ∧ q = p.pop ++ [.normal (name ++ htmlSuffix)] ∧
      t.metadata q = .ok i := by
  unfold tryMetadataWithHtmlSuffix at h
  split at h
  · cases h
  · rename_i name hname
    dsimp only at h
    split at h
    · rename_i j isDir hj
      cases h
      refine ⟨name, hname, ?_, (tryMetadata_eq_ok.mp hj).1⟩
      rw [Posix.Path.eq_pop_append_of_fileName hname, Posix.Path.setFileName_append_normal,
        Posix.Path.pop_append_normal]
    · cases h

/-! ## Variants -/

theorem variantFor_eq_some {p : Path} {encoding : ContentCoding} {v : CompressedFileVariant}
    (h : variantFor t p encoding = some v) :
    v.encoding = encoding ∧ ∃ name ext, compExt encoding = some ext ∧ Posix.Path.fileName p = some name ∧
      v.filePath = p.pop ++ [.normal (name ++ Posix.dot :: ext)] ∧ t.metadata v.filePath = .ok v.metadata ∧
        v.metadata.isDir = false := by
  simp only [variantFor, Option.bind_eq_bind, Option.bind_eq_some_iff, Option.filter_eq_some_iff] at h
  obtain ⟨ext, hext, name, ⟨hname, _⟩, h⟩ := h
  split at h
  · cases h
  · rename_i metadata isDir hmeta
    split at h
    · cases h
    · rename_i hdir
      cases h
      obtain ⟨hm, hd⟩ := tryMetadata_eq_ok.mp hmeta
      refine ⟨rfl, name, ext, hext, hname, ?_, hm, by simpa [hd] using hdir⟩
      rw [Posix.Path.eq_pop_append_of_fileName hname, Posix.Path.setFileName_append_normal,
        Posix.Path.pop_append_normal]

theorem precompressedVariant_eq_some {p : Path} {v : CompressedFileVariant}
    (h : precompressedVariant crates t p headers = some v) :
    ∃ name ext, Posix.Path.fileName p = some name ∧ v.filePath = p.pop ++ [.normal (name ++ Posix.dot :: ext)] ∧
      t.metadata v.filePath = .ok v.metadata ∧ v.metadata.isDir = false := by
  obtain ⟨encodings, _, h⟩ := Option.bind_eq_some_iff.mp h
  obtain ⟨encoding, _, h⟩ := List.exists_of_findSome?_eq_some h
  obtain ⟨_, name, ext, _, hv⟩ := variantFor_eq_some h
  exact ⟨name, ext, hv⟩

theorem variantOf_eq_some {p : Path} {v : CompressedFileVariant}
    (h : variantOf crates t headers compressionStatic p = some v) :
    compressionStatic = true ∧ precompressedVariant crates t p headers = some v := by
  unfold variantOf at h
  split at h
  · exact ⟨‹_›, h⟩
  · cases h

theorem variantOf_pop {p : Path} {v : CompressedFileVariant}
    (h : variantOf crates t headers compressionStatic p = some v) : v.filePath.pop = p.pop := by
  obtain ⟨name, ext, _, hv, _⟩ := precompressedVariant_eq_some (variantOf_eq_some h).2
  rw [hv, Posix.Path.pop_append_normal]

/-! ## The search for an index file -/

theorem findIndex_variant {filePath : Path} {indexFiles : List Path} {m : FileMetadata}
    (h : findIndex crates t headers compressionStatic filePath indexFiles = .variant m) :
    ∃ p v, variantOf crates t headers compressionStatic p = some v ∧ m = FileMetadata.ofVariant p v := by
  induction indexFiles generalizing filePath with
  | nil => cases h
  | cons index rest ih =>
      simp only [findIndex] at h
      split at h
      · rename_i v hv
        cases h
        exact ⟨_, v, hv, rfl⟩
      · split at h
        · cases h
        · split at h
          · cases h
          · exact ih h

theorem findIndex_found {filePath p : Path} {indexFiles : List Path} {i : Inode}
    (h : findIndex crates t headers compressionStatic filePath indexFiles = .found p i) : t.metadata p = .ok i := by
  induction indexFiles generalizing filePath with
  | nil => cases h
  | cons index rest ih =>
      simp only [findIndex] at h
      split at h
      · cases h
      · split at h
        · rename_i metadata isDir hmeta
          cases h
          exact (tryMetadata_eq_ok.mp hmeta).1
        · split at h
          · rename_i suffixed metadata hsuffix
            cases h
            exact (tryMetadataWithHtmlSuffix_some hsuffix).choose_spec.2.2
          · exact ih h

/-! ## The returns -/

inductive Composed (crates : Crates) (t : FileTree) (headers : HeaderMap) (compressionStatic : Bool)
    (filePath : Path) : FileMetadata → Prop
  | file {i : Inode} (hmeta : t.metadata filePath = .ok i) (hfile : i.isDir = false) :
      Composed crates t headers compressionStatic filePath
        (FileMetadata.ofFound crates t headers compressionStatic filePath i false)
  /-- An index file of the directory has a variant. -/
  | indexVariant {p : Path} {v : CompressedFileVariant} (hdir : t.isDir filePath = true)
      (hv : variantOf crates t headers compressionStatic p = some v) :
      Composed crates t headers compressionStatic filePath (FileMetadata.ofVariant p v)
  /-- The directory has an index file, or a sibling that ends in `.html`. -/
  | index {p : Path} {i : Inode} (hmeta : t.metadata p = .ok i) :
      Composed crates t headers compressionStatic filePath
        (FileMetadata.ofFound crates t headers compressionStatic p i true)
  /-- The directory has neither. -/
  | noIndex {p : Path} {i : Inode} (hdir : i.isDir = true) :
      Composed crates t headers compressionStatic filePath
        (FileMetadata.ofFound crates t headers compressionStatic p i true)
  | missingVariant {v : CompressedFileVariant} (hmiss : ∀ i, t.metadata filePath ≠ .ok i)
      (hv : variantOf crates t headers compressionStatic filePath = some v) :
      Composed crates t headers compressionStatic filePath (FileMetadata.ofVariant filePath v)
  | htmlSuffix {p : Path} {i : Inode} (hmiss : ∀ i, t.metadata filePath ≠ .ok i)
      (hv : variantOf crates t headers compressionStatic filePath = none)
      (hsuffix : tryMetadataWithHtmlSuffix t filePath = (p, some i)) :
      Composed crates t headers compressionStatic filePath ⟨p, i, false, none⟩

theorem getComposedFileMetadata_ok {filePath : Path} {indexFiles : List Path} {m : FileMetadata}
    (h : getComposedFileMetadata crates t headers compressionStatic filePath indexFiles = .ok m) :
    Composed crates t headers compressionStatic filePath m := by
  unfold getComposedFileMetadata at h
  dsimp only at h
  split at h
  · rename_i i hmeta
    obtain ⟨hm, hd⟩ := tryMetadata_eq_ok.mp hmeta
    cases h
    exact .file hm hd
  · rename_i i hmeta
    split at h
    · rename_i result hfind
      cases h
      obtain ⟨p, v, hv, rfl⟩ := findIndex_variant hfind
      exact .indexVariant (isDir_iff.mpr ⟨i, tryMetadata_eq_ok.mp hmeta⟩) hv
    · rename_i p j hfind
      cases h
      exact .index (findIndex_found hfind)
    · cases h
      exact .noIndex (tryMetadata_eq_ok.mp hmeta).2
  · rename_i err hmeta
    have hmiss : ∀ i, t.metadata filePath ≠ .ok i := by
      intro i hi
      have : tryMetadata t filePath = .ok (i, i.isDir) := tryMetadata_eq_ok.mpr ⟨hi, rfl⟩
      rw [hmeta] at this
      cases this
    split at h
    · rename_i v hv
      cases h
      exact .missingVariant hmiss hv
    · rename_i hv
      split at h
      · rename_i p i hsuffix
        cases h
        exact .htmlSuffix hmiss hv hsuffix
      · rename_i p hsuffix
        rw [tryMetadataWithHtmlSuffix_none hsuffix, hv] at h
        cases h

theorem served_variant_eq {filePath : Path} {m : FileMetadata} {x : Path × ContentCoding}
    {v : CompressedFileVariant} (h : Composed crates t headers compressionStatic filePath m)
    (hv : variantOf crates t headers compressionStatic m.filePath = some v) (hx : m.precompressedVariant = some x) :
    x = (v.filePath, v.encoding) := by
  have hfound : ∀ p i isDir, variantOf crates t headers compressionStatic p = some v →
      (FileMetadata.ofFound crates t headers compressionStatic p i isDir).precompressedVariant = some x →
      x = (v.filePath, v.encoding) := by
    intro p i isDir hp hx
    rw [FileMetadata.ofFound, hp] at hx
    cases hx
    rfl
  cases h with
  | file _ _ => exact hfound _ _ _ hv hx
  | indexVariant _ hv' =>
      cases hv'.symm.trans hv
      cases hx
      rfl
  | index _ => exact hfound _ _ _ hv hx
  | noIndex _ => exact hfound _ _ _ hv hx
  | missingVariant _ hv' =>
      cases hv'.symm.trans hv
      cases hx
      rfl
  | htmlSuffix _ _ _ => cases hx

/-- A variant has the name of the file with an extension. -/
theorem openedPath_variant {filePath : Path} {m : FileMetadata}
    (h : Composed crates t headers compressionStatic filePath m) (hdir : m.isDir = false) {x : Path × ContentCoding}
    (hx : m.precompressedVariant = some x) : ∃ name ext, m.filePath = m.filePath.pop ++ [.normal name] ∧
      m.openedPath = m.filePath.pop ++ [.normal (name ++ Posix.dot :: ext)] := by
  obtain ⟨p, v, hv, hpath, hopened⟩ : ∃ p v, variantOf crates t headers compressionStatic p = some v ∧
      m.filePath = p ∧ m.openedPath = v.filePath := by
    cases h with
    | file _ _ =>
        obtain ⟨v, hv, _⟩ := Option.map_eq_some_iff.mp hx
        exact ⟨filePath, v, hv, rfl, by simp [FileMetadata.openedPath, FileMetadata.ofFound, hv]⟩
    | indexVariant _ hv => exact ⟨_, _, hv, rfl, rfl⟩
    | index _ => cases hdir
    | noIndex _ => cases hdir
    | missingVariant _ hv => exact ⟨_, _, hv, rfl, rfl⟩
    | htmlSuffix _ _ _ => cases hx
  obtain ⟨name, ext, hname, hvpath, _⟩ := precompressedVariant_eq_some (variantOf_eq_some hv).2
  rw [hpath, hopened]
  exact ⟨name, ext, Posix.Path.eq_pop_append_of_fileName hname, hvpath⟩

theorem openedPath_pop {filePath : Path} {m : FileMetadata}
    (h : Composed crates t headers compressionStatic filePath m) : m.openedPath.pop = m.filePath.pop := by
  have hfound : ∀ p i isDir, (FileMetadata.ofFound crates t headers compressionStatic p i isDir).openedPath.pop =
      p.pop := by
    intro p i isDir
    cases hv : variantOf crates t headers compressionStatic p with
    | none => simp [FileMetadata.openedPath, FileMetadata.ofFound, hv]
    | some v => simp [FileMetadata.openedPath, FileMetadata.ofFound, hv, variantOf_pop hv]
  cases h with
  | file _ _ => exact hfound _ _ _
  | indexVariant _ hv => exact variantOf_pop hv
  | index _ => exact hfound _ _ _
  | noIndex _ => exact hfound _ _ _
  | missingVariant _ hv => exact variantOf_pop hv
  | htmlSuffix _ _ _ => rfl

end WeaveGate.Static
