import WeaveGate.Lib.Posix.Lemmas.Below
import WeaveGate.Static.Lemmas.Access
import WeaveGate.Static.Lemmas.IndexSearch
import WeaveGate.Static.Lemmas.Reply

/-!
# What an answer depends on

Trees that agree below the base give the same answer. One file beside the base counts too: where the base has no index
file, the search for one goes on with the name of the base and the suffix `.html`.
-/

namespace WeaveGate.Static

open Http
open Posix (Octets Path Name FileTree Inode Errno Canon Below Entry)
open Posix.FileTree (AgreeBelow)

variable {crates : Crates} {t t' : FileTree} {headers : HeaderMap} {compressionStatic : Bool} {base p : Path}
variable {opts : HandleOpts} {m : FileMetadata}

/-! ## Metadata -/

theorem tryMetadata_agree (h : AgreeBelow t t' base) (hp : Below base p) : tryMetadata t' p = tryMetadata t p := by
  rw [tryMetadata, tryMetadata, h.metadata p hp]

theorem tryMetadata_of_isDir (h : t.isDir p = true) : ∃ d, tryMetadata t p = .ok (d, true) := by
  unfold FileTree.isDir at h
  cases hfound : t.metadata p with
  | error e => simp [hfound, Except.toOption] at h
  | ok d => exact ⟨d, tryMetadata_eq_ok.mpr ⟨hfound, by simpa [hfound, Except.toOption] using h⟩⟩

theorem tryMetadataWithHtmlSuffix_agree (h : AgreeBelow t t' base) (hp : Entry base p) :
    tryMetadataWithHtmlSuffix t' p = tryMetadataWithHtmlSuffix t p := by
  obtain ⟨q, n, hq, rfl⟩ := hp
  simp only [tryMetadataWithHtmlSuffix, Posix.Path.fileName_append_normal, Posix.Path.setFileName_append_normal,
    tryMetadata_agree h (hq.entry _)]

theorem variantOf_agree (h : AgreeBelow t t' base) (hp : Entry base p) :
    variantOf crates t' headers compressionStatic p = variantOf crates t headers compressionStatic p := by
  obtain ⟨q, n, hq, rfl⟩ := hp
  have hvariant : variantFor t' (q ++ [.normal n]) = variantFor t (q ++ [.normal n]) := by
    funext encoding
    unfold variantFor
    simp only [Posix.Path.fileName_append_normal, Posix.Path.setFileName_append_normal, tryMetadata_agree h (hq.entry _)]
  simp only [variantOf, precompressedVariant, hvariant]

theorem FileMetadata.ofFound_agree (h : AgreeBelow t t' base) (hp : Entry base p) (metadata : Inode) (isDir : Bool) :
    FileMetadata.ofFound crates t' headers compressionStatic p metadata isDir =
      FileMetadata.ofFound crates t headers compressionStatic p metadata isDir := by
  rw [FileMetadata.ofFound, FileMetadata.ofFound, variantOf_agree h hp]

/-! ## The file that is found -/

theorem findIndex_agree (h : AgreeBelow t t' base) (hp : Below base p)
    (hsuffix : tryMetadataWithHtmlSuffix t' p = tryMetadataWithHtmlSuffix t p) {indexFiles : List Path}
    (hindex : ∀ index ∈ indexFiles, ∃ n, index = [.normal n]) :
    findIndex crates t' headers compressionStatic p indexFiles =
      findIndex crates t headers compressionStatic p indexFiles := by
  induction indexFiles with
  | nil => rfl
  | cons index rest ih =>
      obtain ⟨⟨n, rfl⟩, hrest⟩ := List.forall_mem_cons.mp hindex
      have hentry : Entry base (p.push [.normal n]) := ⟨p, n, hp, Posix.Path.push_normal p n⟩
      have hpop : (p.push [.normal n]).pop = p := by rw [Posix.Path.push_normal, Posix.Path.pop_append_normal]
      rw [findIndex, findIndex, variantOf_agree h hentry, tryMetadata_agree h hentry.below, hpop, hsuffix]
      cases hfound : tryMetadataWithHtmlSuffix t p with
      | mk q found =>
          cases found with
          | some metadata => rfl
          | none =>
              rw [tryMetadataWithHtmlSuffix_none hfound]
              dsimp only
              rw [ih hrest]

theorem findIndex_entry (hp : Below base p)
    (hsuffix : ∀ q i, tryMetadataWithHtmlSuffix t p = (q, some i) → Entry base q) {indexFiles : List Path}
    (hindex : ∀ index ∈ indexFiles, ∃ n, index = [.normal n]) {q : Path} {i : Inode}
    (h : findIndex crates t headers compressionStatic p indexFiles = .found q i) : Entry base q := by
  induction indexFiles with
  | nil => cases h
  | cons index rest ih =>
      obtain ⟨⟨n, rfl⟩, hrest⟩ := List.forall_mem_cons.mp hindex
      unfold findIndex at h
      dsimp only at h
      rw [show (p.push [.normal n]).pop = p by rw [Posix.Path.push_normal, Posix.Path.pop_append_normal]] at h
      split at h
      · cases h
      · split at h
        · cases h
          exact ⟨p, n, hp, Posix.Path.push_normal p n⟩
        · split at h
          · cases h
            exact hsuffix _ _ ‹_›
          · rename_i q hsuffixed
            rw [tryMetadataWithHtmlSuffix_none hsuffixed] at h
            exact ih hrest h

/-- The search for the requested file stays below the base. -/
def Settled (t t' : FileTree) (base p : Path) : Prop :=
  Entry base p ∨ p = base ∧ t.isDir base = true ∧ (htmlSibling base).any t.exists = false ∧
    (htmlSibling base).any t'.exists = false

theorem Settled.below (h : Settled t t' base p) : Below base p := by
  rcases h with h | ⟨rfl, _⟩
  · exact h.below
  · exact Below.refl p

theorem Settled.suffix (hagree : AgreeBelow t t' base) (h : Settled t t' base p) :
    tryMetadataWithHtmlSuffix t' p = tryMetadataWithHtmlSuffix t p ∧
      ∀ q i, tryMetadataWithHtmlSuffix t p = (q, some i) → Entry base q := by
  rcases h with h | ⟨rfl, _, hmissing, hmissing'⟩
  · refine ⟨tryMetadataWithHtmlSuffix_agree hagree h, fun q i hq => ?_⟩
    obtain ⟨_, _, rfl, _⟩ := tryMetadataWithHtmlSuffix_some hq
    obtain ⟨d, n, hd, rfl⟩ := h
    exact ⟨d, _, hd, by rw [Posix.Path.pop_append_normal]⟩
  · rw [tryMetadataWithHtmlSuffix_missing hmissing, tryMetadataWithHtmlSuffix_missing hmissing']
    exact ⟨rfl, fun q i hq => by cases hq⟩

theorem Settled.entry_of_not_dir (h : Settled t t' base p) (hdir : ∀ i, tryMetadata t p ≠ .ok (i, true)) :
    Entry base p := by
  rcases h with h | ⟨rfl, hbase, _⟩
  · exact h
  · obtain ⟨i, hi⟩ := tryMetadata_of_isDir hbase
    exact absurd hi (hdir i)

/-- The index files that the search goes through, and the last of them. -/
theorem indexFiles_names {indexFiles : List Path} (hindex : ∀ index ∈ indexFiles, ∃ n, index = [.normal n]) :
    ∃ files, (if indexFiles = [] then defaultIndexFiles else indexFiles) = files ∧
      (∀ index ∈ files, ∃ n, index = [.normal n]) ∧ ∃ n, files.getLast? = some [.normal n] := by
  obtain ⟨files, hfiles⟩ : ∃ files, (if indexFiles = [] then defaultIndexFiles else indexFiles) = files := ⟨_, rfl⟩
  have hnames : ∀ index ∈ files, ∃ n, index = [.normal n] := by
    rw [← hfiles]
    split_ifs
    · exact List.forall_mem_singleton.mpr ⟨_, rfl⟩
    · exact hindex
  have hne : files ≠ [] := by
    rw [← hfiles]
    split_ifs with hempty
    · exact List.cons_ne_nil _ _
    · exact hempty
  obtain ⟨n, hn⟩ := hnames _ (List.getLast_mem hne)
  exact ⟨files, hfiles, hnames, n, by rw [List.getLast?_eq_some_getLast hne, hn]⟩

theorem getComposedFileMetadata_agree (h : AgreeBelow t t' base) (hp : Settled t t' base p) {indexFiles : List Path}
    (hindex : ∀ index ∈ indexFiles, ∃ n, index = [.normal n]) :
    getComposedFileMetadata crates t' headers compressionStatic p indexFiles =
      getComposedFileMetadata crates t headers compressionStatic p indexFiles := by
  obtain ⟨hsuffix, hentry⟩ := hp.suffix h
  obtain ⟨files, hfiles, hnames, n, hlast⟩ := indexFiles_names hindex
  unfold getComposedFileMetadata
  dsimp only
  rw [tryMetadata_agree h hp.below, hsuffix, hfiles]
  cases hfound : tryMetadata t p with
  | ok r =>
      obtain ⟨metadata, isDir⟩ := r
      cases isDir with
      | false => exact congrArg Except.ok (FileMetadata.ofFound_agree h (hp.entry_of_not_dir (by simp [hfound])) _ _)
      | true =>
          dsimp only
          rw [findIndex_agree h hp.below hsuffix hnames]
          cases hsearch : findIndex crates t headers compressionStatic p files with
          | variant result => rfl
          | found q i => exact congrArg Except.ok (FileMetadata.ofFound_agree h (findIndex_entry hp.below hentry hnames hsearch) _ _)
          | notFound q =>
              have hlisted : Entry base (q.push (files.getLast?.getD [])) := by
                rw [findIndex_notFound hsearch hnames, hlast]
                exact ⟨p, n, hp.below, Posix.Path.push_normal p n⟩
              exact congrArg Except.ok (FileMetadata.ofFound_agree h hlisted _ _)
  | error e =>
      have hentry := hp.entry_of_not_dir (by simp [hfound])
      dsimp only
      rw [variantOf_agree h hentry]
      cases hsuffixed : tryMetadataWithHtmlSuffix t p with
      | mk q found =>
          cases found with
          | some metadata => rfl
          | none =>
              dsimp only
              rw [tryMetadataWithHtmlSuffix_none hsuffixed, variantOf_agree h hentry]

/-- What is served lies below the base, and so does the variant that is sent for it. -/
structure ComposedBelow (base : Path) (m : FileMetadata) : Prop where
  filePath : Entry base m.filePath
  variant : ∀ x, m.precompressedVariant = some x → Entry base x.1

theorem variantOf_entry (hp : Entry base p) {v : CompressedFileVariant}
    (hv : variantOf crates t headers compressionStatic p = some v) : Entry base v.filePath := by
  obtain ⟨q, n, hq, rfl⟩ := hp
  obtain ⟨name, ext, _, hpath, _⟩ := precompressedVariant_eq_some (variantOf_eq_some hv).2
  rw [Posix.Path.pop_append_normal] at hpath
  exact ⟨q, _, hq, hpath⟩

theorem ComposedBelow.ofVariant (hp : Entry base p) {v : CompressedFileVariant}
    (hv : variantOf crates t headers compressionStatic p = some v) : ComposedBelow base (FileMetadata.ofVariant p v) where
  filePath := hp
  variant x hx := by
    cases hx
    exact variantOf_entry hp hv

theorem ComposedBelow.ofFound (hp : Entry base p) (metadata : Inode) (isDir : Bool) :
    ComposedBelow base (FileMetadata.ofFound crates t headers compressionStatic p metadata isDir) where
  filePath := hp
  variant x hx := by
    obtain ⟨v, hv, rfl⟩ := Option.map_eq_some_iff.mp hx
    exact variantOf_entry hp hv

theorem ComposedBelow.checkedPath (h : ComposedBelow base m) : Below base m.checkedPath := by
  obtain ⟨q, n, hq, hpath⟩ := h.filePath
  unfold FileMetadata.checkedPath
  split
  · rwa [hpath, Posix.Path.pop_append_normal]
  · exact h.filePath.below

theorem findIndex_variantBelow (hp : Below base p) {indexFiles : List Path}
    (hindex : ∀ index ∈ indexFiles, ∃ n, index = [.normal n])
    (h : findIndex crates t headers compressionStatic p indexFiles = .variant m) : ComposedBelow base m := by
  induction indexFiles with
  | nil => cases h
  | cons index rest ih =>
      obtain ⟨⟨n, rfl⟩, hrest⟩ := List.forall_mem_cons.mp hindex
      unfold findIndex at h
      dsimp only at h
      rw [show (p.push [.normal n]).pop = p by rw [Posix.Path.push_normal, Posix.Path.pop_append_normal]] at h
      split at h
      · rename_i v hv
        cases h
        exact .ofVariant ⟨p, n, hp, Posix.Path.push_normal p n⟩ hv
      · split at h
        · cases h
        · split at h
          · cases h
          · rename_i q hsuffixed
            rw [tryMetadataWithHtmlSuffix_none hsuffixed] at h
            exact ih hrest h

theorem composedBelow (hagree : AgreeBelow t t' base) (hp : Settled t t' base p) {indexFiles : List Path}
    (hindex : ∀ index ∈ indexFiles, ∃ n, index = [.normal n])
    (h : getComposedFileMetadata crates t headers compressionStatic p indexFiles = .ok m) : ComposedBelow base m := by
  obtain ⟨_, hentry⟩ := hp.suffix hagree
  obtain ⟨files, hfiles, hnames, n, hlast⟩ := indexFiles_names hindex
  unfold getComposedFileMetadata at h
  dsimp only at h
  rw [hfiles] at h
  split at h
  · rename_i metadata hfound
    cases h
    exact .ofFound (hp.entry_of_not_dir (by simp [hfound])) _ _
  · split at h
    · rename_i result hsearch
      cases h
      exact findIndex_variantBelow hp.below hnames hsearch
    · rename_i q metadata hsearch
      cases h
      exact .ofFound (findIndex_entry hp.below hentry hnames hsearch) _ _
    · rename_i q hsearch
      cases h
      refine .ofFound ?_ _ _
      rw [findIndex_notFound hsearch hnames, hlast]
      exact ⟨p, n, hp.below, Posix.Path.push_normal p n⟩
  · rename_i e hfound
    have hentry' := hp.entry_of_not_dir (by simp [hfound])
    split at h
    · rename_i v hv
      cases h
      exact .ofVariant hentry' hv
    · split at h
      · rename_i q metadata hsuffixed
        cases h
        exact ⟨hentry _ _ hsuffixed, fun x hx => by cases hx⟩
      · rename_i q hsuffixed
        rw [tryMetadataWithHtmlSuffix_none hsuffixed] at h
        split at h
        · rename_i v hv
          cases h
          exact .ofVariant hentry' hv
        · cases h

/-! ## The file beside the base -/

/-- The search ends beside the base, and the checks are made on what the base lies in. -/
structure Beside (base : Path) (m : FileMetadata) : Prop where
  filePath : some m.filePath = htmlSibling base
  isDir : m.isDir = true

theorem Beside.denied (h : Beside opts.basePath m) : checkAccess t opts m.checkedPath = .error .notFound := by
  obtain ⟨name, hname, hpath⟩ := Option.map_eq_some_iff.mp h.filePath.symm
  have hbase := Posix.Path.eq_pop_append_of_fileName hname
  have hchecked : m.checkedPath = opts.basePath.pop := by
    rw [FileMetadata.checkedPath, if_pos h.isDir, ← hpath, hbase, Posix.Path.setFileName_append_normal,
      Posix.Path.pop_append_normal, Posix.Path.pop_append_normal]
  have hstrip : Posix.Path.stripPrefix m.checkedPath opts.basePath = none := by
    rw [hchecked, Option.eq_none_iff_forall_ne_some]
    intro rel hrel
    have hlen := congrArg List.length (Posix.Path.stripPrefix_eq_some.mp hrel)
    have hlen' := congrArg List.length hbase
    simp only [List.length_append, List.length_singleton] at hlen hlen'
    omega
  rw [checkAccess, hstrip]

section

variable {d : Inode} {indexFiles files : List Path} (hdir : tryMetadata t p = .ok (d, true))
  (hfiles : (if indexFiles = [] then defaultIndexFiles else indexFiles) = files)

include hdir hfiles

theorem getComposedFileMetadata_of_variant
    (h : findIndex crates t headers compressionStatic p files = .variant m) :
    getComposedFileMetadata crates t headers compressionStatic p indexFiles = .ok m := by
  unfold getComposedFileMetadata
  simp only [hdir, hfiles, h]

theorem getComposedFileMetadata_of_found {q : Path} {i : Inode}
    (h : findIndex crates t headers compressionStatic p files = .found q i) :
    getComposedFileMetadata crates t headers compressionStatic p indexFiles =
      .ok (FileMetadata.ofFound crates t headers compressionStatic q i true) := by
  unfold getComposedFileMetadata
  simp only [hdir, hfiles, h]

end

/-- Where both trees have a file beside the base, a file of the base is found before it in both, or it is found. -/
theorem composed_beside (h : AgreeBelow t t' base) (hdir : t.isDir base = true)
    (hbeside : (htmlSibling base).any t.exists = true) (hbeside' : (htmlSibling base).any t'.exists = true)
    {indexFiles : List Path} (hindex : ∀ index ∈ indexFiles, ∃ n, index = [.normal n]) :
    ∃ m m', getComposedFileMetadata crates t headers compressionStatic base indexFiles = .ok m ∧
      getComposedFileMetadata crates t' headers compressionStatic base indexFiles = .ok m' ∧
      (m' = m ∧ ComposedBelow base m ∨ Beside base m ∧ Beside base m') := by
  have hbase := Below.refl base
  obtain ⟨files, hfiles, hnames, n, hlast⟩ := indexFiles_names hindex
  obtain ⟨d, hd⟩ := tryMetadata_of_isDir hdir
  have hd' : tryMetadata t' base = .ok (d, true) := (tryMetadata_agree h hbase).trans hd
  obtain ⟨sibling, hsibling, hs⟩ := (Option.any_eq_true _ _).mp hbeside
  obtain ⟨i, hi⟩ := exists_iff.mp hs
  obtain ⟨i', hi'⟩ : ∃ i, t'.metadata sibling = .ok i := exists_iff.mp (by simpa [hsibling] using hbeside')
  cases files with
  | nil => cases hlast
  | cons index rest =>
      obtain ⟨⟨k, rfl⟩, _⟩ := List.forall_mem_cons.mp hnames
      have hentry : Entry base (base.push [.normal k]) := ⟨base, k, hbase, Posix.Path.push_normal base k⟩
      have hpop : (base.push [.normal k]).pop = base := by rw [Posix.Path.push_normal, Posix.Path.pop_append_normal]
      have htry := tryMetadata_agree h hentry.below
      cases hv : variantOf crates t headers compressionStatic (base.push [.normal k]) with
      | some v =>
          have hv' := (variantOf_agree h hentry).trans hv
          have hsearch : findIndex crates t headers compressionStatic base ([.normal k] :: rest) =
              .variant (FileMetadata.ofVariant (base.push [.normal k]) v) := by simp only [findIndex, hv]
          have hsearch' : findIndex crates t' headers compressionStatic base ([.normal k] :: rest) =
              .variant (FileMetadata.ofVariant (base.push [.normal k]) v) := by simp only [findIndex, hv']
          exact ⟨_, _, getComposedFileMetadata_of_variant hd hfiles hsearch,
            getComposedFileMetadata_of_variant hd' hfiles hsearch', .inl ⟨rfl, .ofVariant hentry hv⟩⟩
      | none =>
          have hv' := (variantOf_agree h hentry).trans hv
          cases hfound : tryMetadata t (base.push [.normal k]) with
          | ok r =>
              obtain ⟨metadata, isDir⟩ := r
              have hsearch : findIndex crates t headers compressionStatic base ([.normal k] :: rest) =
                  .found (base.push [.normal k]) metadata := by simp only [findIndex, hv, hfound]
              have hsearch' : findIndex crates t' headers compressionStatic base ([.normal k] :: rest) =
                  .found (base.push [.normal k]) metadata := by simp only [findIndex, hv', htry.trans hfound]
              exact ⟨_, _, getComposedFileMetadata_of_found hd hfiles hsearch,
                getComposedFileMetadata_of_found hd' hfiles hsearch',
                .inl ⟨FileMetadata.ofFound_agree h hentry _ _, .ofFound hentry _ _⟩⟩
          | error e =>
              have hsearch : findIndex crates t headers compressionStatic base ([.normal k] :: rest) =
                  .found sibling i := by
                simp only [findIndex, hv, hfound, hpop, tryMetadataWithHtmlSuffix_sibling hsibling hi]
              have hsearch' : findIndex crates t' headers compressionStatic base ([.normal k] :: rest) =
                  .found sibling i' := by
                simp only [findIndex, hv', htry.trans hfound, hpop, tryMetadataWithHtmlSuffix_sibling hsibling hi']
              exact ⟨_, _, getComposedFileMetadata_of_found hd hfiles hsearch,
                getComposedFileMetadata_of_found hd' hfiles hsearch',
                .inr ⟨⟨hsibling.symm, rfl⟩, ⟨hsibling.symm, rfl⟩⟩⟩

end WeaveGate.Static
