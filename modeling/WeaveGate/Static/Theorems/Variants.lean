import WeaveGate.Lib.Posix.Lemmas.Canonical
import WeaveGate.Static.Lemmas.IndexSearch
import WeaveGate.Static.Theorems.Access

/-!
# Pre-compressed variants

When a variant that is found arrives as a whole.
-/

namespace WeaveGate.Static

open Http
open Posix (Octets Path Name FileTree Inode Errno Canon)

variable {crates : Crates} {t : FileTree} {store : Store} {opts : HandleOpts}

def ServesWhole (crates : Crates) (t : FileTree) (store : Store) (opts : HandleOpts) (data : Octets) : Prop :=
  ∃ r, handle crates t store opts = .ok r ∧ r.resp.status = .ok ∧ r.resp.body.bytes = some data

instance (data : Octets) : Decidable (ServesWhole crates t store opts data) :=
  decidable_of_iff ((handle crates t store opts).toOption.any (fun r =>
      r.resp.status = .ok ∧ r.resp.body.bytes = some data) = true) <| by
    unfold ServesWhole
    cases handle crates t store opts <;> simp [Except.toOption]

/-- The directory page that is shown for an index file that does not exist. -/
def showsListing (t : FileTree) (opts : HandleOpts) (m : FileMetadata) : Bool :=
  m.isDir && opts.dirListing && !t.exists m.filePath

/-- What the tree holds of the file whose metadata goes with the variant: for a directory request that of the index
file, or of the directory where there is none. A variant of an index file goes with its own. -/
def recordedWith (t : FileTree) (opts : HandleOpts) (m : FileMetadata) (v : CompressedFileVariant) :
    Except Errno Inode :=
  if m.isDir then t.metadata (recordedPath t (requestedPath opts) (effectiveIndexFiles opts.indexFiles))
  else if t.isDir (requestedPath opts) then .ok v.metadata
  else t.metadata m.filePath

/-- The original passes the access checks and is not redirected, and the size that goes with the variant is not
below its own. A path that was found with `.html` appended is served without the variant. What is sent instead of the
variant reads the same by chance. -/
def VariantArrives (crates : Crates) (t : FileTree) (store : Store) (opts : HandleOpts) (m : FileMetadata)
    (v : CompressedFileVariant) (data : Octets) : Prop :=
  match cachedFile store opts with
  | some entry => entry.data = data
  | none =>
      checkAccess t opts m.checkedPath = .ok () ∧
      (m.isDir && opts.redirectTrailingSlash && !Text.endsWith opts.uriPath '/') = false ∧
      if showsListing t opts m then
        ∃ page, listingReply crates t opts m.filePath = .ok page ∧ page.status = .ok ∧ page.body.bytes = some data
      else
        ∃ original, recordedWith t opts m v = .ok original ∧
          (∃ modified, lastModifiedOf original = .ok modified) ∧
          if t.exists (requestedPath opts) then data.length ≤ original.size
          else original.kind = .file data ∨ original.size = 0 ∧ data = []

theorem recordedWith_eq {m : FileMetadata} {v : CompressedFileVariant}
    (hm : getComposedFileMetadata crates t opts.headers opts.compressionStatic (requestedPath opts) opts.indexFiles =
      .ok m)
    (hv : variantOf crates t opts.headers opts.compressionStatic m.filePath = some v)
    (hexists : m.isDir = false → t.exists m.filePath = true) :
    recordedWith t opts m v = .ok m.metadata ∧ m.precompressedVariant.isSome = t.exists (requestedPath opts) := by
  have hdirectory (h : m.isDir = true) : recordedWith t opts m v = .ok m.metadata ∧
      t.exists (requestedPath opts) = true := by
    obtain ⟨i, hi, _⟩ := isDir_iff.mp (isDir_of_composed hm h)
    exact ⟨by rw [recordedWith, if_pos h, metadata_recordedPath hm h], exists_iff.mpr ⟨i, hi⟩⟩
  cases getComposedFileMetadata_ok hm with
  | file hmeta hfile =>
      have hnotDir : t.isDir (requestedPath opts) = false := by
        rw [FileTree.isDir, hmeta]
        exact hfile
      rw [FileMetadata.ofFound] at hv ⊢
      rw [recordedWith, if_neg Bool.false_ne_true, hnotDir, if_neg Bool.false_ne_true, hv, exists_iff.mpr ⟨_, hmeta⟩]
      exact ⟨hmeta, rfl⟩
  | indexVariant hdir hv' =>
      obtain ⟨i, hi, _⟩ := isDir_iff.mp hdir
      cases hv'.symm.trans hv
      rw [recordedWith, FileMetadata.ofVariant, if_neg Bool.false_ne_true, if_pos hdir, exists_iff.mpr ⟨i, hi⟩]
      exact ⟨rfl, rfl⟩
  | index _ =>
      obtain ⟨hrecorded, hfound⟩ := hdirectory rfl
      rw [FileMetadata.ofFound] at hv
      exact ⟨hrecorded, by rw [hfound, FileMetadata.ofFound, hv]; rfl⟩
  | noIndex _ =>
      obtain ⟨hrecorded, hfound⟩ := hdirectory rfl
      rw [FileMetadata.ofFound] at hv
      exact ⟨hrecorded, by rw [hfound, FileMetadata.ofFound, hv]; rfl⟩
  | missingVariant hmiss _ =>
      obtain ⟨i, hi⟩ := exists_iff.mp (hexists rfl)
      exact absurd hi (hmiss i)
  | htmlSuffix hmiss _ hsuffix =>
      obtain ⟨_, _, _, hmeta⟩ := tryMetadataWithHtmlSuffix_some hsuffix
      have hmissing : t.exists (requestedPath opts) = false :=
        Bool.eq_false_iff.mpr fun h => (exists_iff.mp h).elim hmiss
      have hnotDir : t.isDir (requestedPath opts) = false :=
        Bool.eq_false_iff.mpr fun h => (isDir_iff.mp h).elim fun i hi => hmiss i hi.1
      rw [recordedWith, if_neg Bool.false_ne_true, hnotDir, if_neg Bool.false_ne_true, hmissing]
      exact ⟨hmeta, rfl⟩

/-- Only a path that was found with `.html` appended is served without the variant that it has. -/
theorem metadata_of_unserved {m : FileMetadata} {v : CompressedFileVariant}
    (h : Composed crates t opts.headers opts.compressionStatic (requestedPath opts) m)
    (hv : variantOf crates t opts.headers opts.compressionStatic m.filePath = some v)
    (hno : m.precompressedVariant = none) : t.metadata m.filePath = .ok m.metadata := by
  have hfound : ∀ p i isDir, variantOf crates t opts.headers opts.compressionStatic p = some v →
      (FileMetadata.ofFound crates t opts.headers opts.compressionStatic p i isDir).precompressedVariant ≠ none := by
    intro p i isDir hp
    rw [FileMetadata.ofFound, hp]
    exact Option.some_ne_none _
  cases h with
  | file _ _ => exact absurd hno (hfound _ _ _ hv)
  | indexVariant _ _ => cases hno
  | index _ => exact absurd hno (hfound _ _ _ hv)
  | noIndex _ => exact absurd hno (hfound _ _ _ hv)
  | missingVariant _ _ => cases hno
  | htmlSuffix _ _ hsuffix => exact (tryMetadataWithHtmlSuffix_some hsuffix).choose_spec.2.2

theorem respond_whole_iff {m : FileMetadata} {v : CompressedFileVariant} {data : Octets} (hget : opts.method = .get)
    (hplain : Unconditional opts.headers)
    (hm : Composed crates t opts.headers opts.compressionStatic (requestedPath opts) m)
    (hv : variantOf crates t opts.headers opts.compressionStatic m.filePath = some v)
    (hdata : v.metadata.kind = .file data) (hrecorded : recordedWith t opts m v = .ok m.metadata)
    (hserved : m.precompressedVariant.isSome = t.exists (requestedPath opts)) :
    (∃ resp, respond crates t opts m = .ok resp ∧ resp.status = .ok ∧ resp.body.bytes = some data) ↔
      (m.isDir && opts.redirectTrailingSlash && !Text.endsWith opts.uriPath '/') = false ∧
      if showsListing t opts m then
        ∃ page, listingReply crates t opts m.filePath = .ok page ∧ page.status = .ok ∧ page.body.bytes = some data
      else
        ∃ original, recordedWith t opts m v = .ok original ∧
          (∃ modified, lastModifiedOf original = .ok modified) ∧
          if t.exists (requestedPath opts) then data.length ≤ original.size
          else original.kind = .file data ∨ original.size = 0 ∧ data = [] := by
  have hno : ¬ opts.method = .options := by
    rw [hget]
    decide
  unfold respond
  by_cases hred : (m.isDir && opts.redirectTrailingSlash && !Text.endsWith opts.uriPath '/') = true
  · rw [if_pos hred]
    refine iff_of_false ?_ fun h => by simp [hred] at h
    rintro ⟨resp, hresp, hstatus, _⟩
    unfold redirectReply at hresp
    dsimp only at hresp
    split at hresp
    · cases hresp
      cases hstatus
    · cases hresp
  · rw [if_neg hred, if_neg hno]
    simp only [Bool.not_eq_true] at hred
    rw [hred, eq_self, true_and]
    by_cases hlist : showsListing t opts m = true
    · rw [if_pos hlist, if_pos (by simpa [showsListing] using hlist)]
    · rw [if_neg hlist, if_neg (by simpa [showsListing] using hlist)]
      rw [hrecorded, ← hserved]
      simp only [Except.ok.injEq, exists_eq_left']
      cases hvariant : m.precompressedVariant with
      | none =>
          simp only [fileReply_whole_iff hplain, Option.getD_none, open_sized_iff (metadata_of_unserved hm hv hvariant),
            Option.isSome_none, Bool.false_eq_true, if_false]
      | some x =>
          obtain ⟨_, _, _, _, hmeta, _⟩ := precompressedVariant_eq_some (variantOf_eq_some hv).2
          obtain ⟨c, hc, hi⟩ := Posix.FileTree.stat_eq_ok.mp hmeta
          have hopen : t.open v.filePath = .ok ⟨v.filePath, c, v.metadata⟩ :=
            Posix.FileTree.open_eq_ok.mpr ⟨rfl, hc, hi⟩
          have hcontent : (⟨v.filePath, c, v.metadata⟩ : FileTree.OpenFile).content = some data := by
            simp [FileTree.OpenFile.content, hdata]
          obtain ⟨variantPath, encoding⟩ := x
          have hpath : variantPath = v.filePath := congrArg Prod.fst (served_variant_eq hm hv hvariant)
          simp only [variantReply_whole_iff, fileReply_whole_iff hplain, Option.getD_some, hpath, hopen,
            Except.ok.injEq, exists_eq_left', readUpTo_eq_some_iff hcontent, Option.isSome_some, if_true]

/-- What access is granted to exists. -/
theorem exists_of_checkAccess {p : Path} (h : checkAccess t opts p = .ok ()) : t.exists p = true := by
  obtain ⟨_, c, _, hc, _⟩ := checkAccess_ok h
  obtain ⟨i, hi⟩ := Posix.FileTree.node_of_canonicalize hc
  exact exists_iff.mpr ⟨i, Posix.FileTree.stat_eq_ok.mpr ⟨c, hc, hi⟩⟩

theorem variant_served_whole_iff {m : FileMetadata} {v : CompressedFileVariant} {data : Octets}
    (hget : opts.method = .get) (hstatic : opts.compressionStatic = true) (hplain : Unconditional opts.headers)
    (hm : getComposedFileMetadata crates t opts.headers opts.compressionStatic (requestedPath opts) opts.indexFiles =
      .ok m)
    (hv : precompressedVariant crates t m.filePath opts.headers = some v) (hdata : v.metadata.kind = .file data) :
    ServesWhole crates t store opts data ↔ VariantArrives crates t store opts m v data := by
  have hallowed : isAllowed opts.method = true := by
    rw [hget]
    decide
  unfold ServesWhole VariantArrives
  rw [handle_eq hallowed]
  cases hcached : cachedFile store opts with
  | some entry =>
      have hwhole := responseBody_whole crates hplain entry
      simp [hwhole]
  | none =>
      have hvariant : variantOf crates t opts.headers opts.compressionStatic m.filePath = some v := by
        rw [variantOf, if_pos hstatic, hv]
      have hcomposed := getComposedFileMetadata_ok hm
      have hresponds (hcheck : checkAccess t opts m.checkedPath = .ok ()) := by
        obtain ⟨hrecorded, hserved⟩ := recordedWith_eq hm hvariant fun hfile => by
          have hexists := exists_of_checkAccess hcheck
          rwa [FileMetadata.checkedPath, hfile, if_neg Bool.false_ne_true] at hexists
        exact respond_whole_iff hget hplain hcomposed hvariant hdata hrecorded hserved
      dsimp only
      constructor
      · rintro ⟨r, hr, hrest⟩
        obtain ⟨m', hm', hcheck, hresp, _⟩ := handleFile_ok hr
        cases hm.symm.trans hm'
        exact ⟨hcheck, (hresponds hcheck).mp ⟨r.resp, hresp, hrest⟩⟩
      · rintro ⟨hcheck, harrives⟩
        obtain ⟨resp, hresp, hrest⟩ := (hresponds hcheck).mpr harrives
        refine ⟨⟨resp, m.filePath⟩, ?_, hrest⟩
        unfold handleFile
        rw [hm]
        dsimp only
        rw [hcheck]
        dsimp only
        rw [hresp]
        rfl

/-- `a.html` is shorter than its variant, `b.html` is there only as a variant, `c.html` is longer than its
variant. -/
def variantTree : FileTree :=
  { nodes :=
      [ ([], sampleDir [named "srv"]),
        ([named "srv"], sampleDir [named "a.html", named "a.html.gz", named "b.html.gz", named "c.html",
          named "c.html.gz"]),
        ([named "srv", named "a.html"], sampleFile (named "a")),
        ([named "srv", named "a.html.gz"], sampleFile (named "gzip of a")),
        ([named "srv", named "b.html.gz"], sampleFile (named "gzip of b")),
        ([named "srv", named "c.html"], sampleFile (named "hello, hello, hello")),
        ([named "srv", named "c.html.gz"], sampleFile (named "gzip of c")) ]
    cwd := [], symloopMax := 40, wf := by decide }

def gzipOpts (uriPath : String) : HandleOpts :=
  { sampleOpts uriPath with headers := [(.acceptEncoding, HeaderValue.fromStatic "gzip")], compressionStatic := true }

def VariantAt (opts : HandleOpts) (variantPath : Path) (data : Octets) : Prop :=
  ∃ m v, getComposedFileMetadata sampleCrates variantTree opts.headers opts.compressionStatic (requestedPath opts)
      opts.indexFiles = .ok m ∧ precompressedVariant sampleCrates variantTree m.filePath opts.headers = some v ∧
    v.filePath = variantPath ∧ v.metadata.kind = .file data

instance (opts : HandleOpts) (variantPath : Path) (data : Octets) : Decidable (VariantAt opts variantPath data) :=
  decidable_of_iff ((getComposedFileMetadata sampleCrates variantTree opts.headers opts.compressionStatic
      (requestedPath opts) opts.indexFiles).toOption.any (fun m =>
        (precompressedVariant sampleCrates variantTree m.filePath opts.headers).any fun v =>
          v.filePath = variantPath ∧ v.metadata.kind = .file data) = true) <| by
    unfold VariantAt
    cases getComposedFileMetadata sampleCrates variantTree opts.headers opts.compressionStatic
      (requestedPath opts) opts.indexFiles <;> simp [Except.toOption, Option.any_eq_true]

/-- One variant is cut off at the length of the original, the other is not found without an original. -/
theorem variants_cut_or_missing :
    (VariantAt (gzipOpts "/a.html") (Posix.canonPath [named "srv", named "a.html.gz"]) (named "gzip of a") ∧
      ¬ ServesWhole sampleCrates variantTree [] (gzipOpts "/a.html") (named "gzip of a")) ∧
    VariantAt (gzipOpts "/b.html") (Posix.canonPath [named "srv", named "b.html.gz"]) (named "gzip of b") ∧
      ¬ ServesWhole sampleCrates variantTree [] (gzipOpts "/b.html") (named "gzip of b") :=
  ⟨⟨by decide +kernel, by decide +kernel⟩, by decide +kernel, by decide +kernel⟩

theorem variant_served_whole_iff_long : ∃ m v,
    getComposedFileMetadata sampleCrates variantTree (gzipOpts "/c.html").headers true
      (requestedPath (gzipOpts "/c.html")) [] = .ok m ∧
    precompressedVariant sampleCrates variantTree m.filePath (gzipOpts "/c.html").headers = some v ∧
    (ServesWhole sampleCrates variantTree [] (gzipOpts "/c.html") (named "gzip of c") ↔
      VariantArrives sampleCrates variantTree [] (gzipOpts "/c.html") m v (named "gzip of c")) := by
  obtain ⟨m, v, hm, hv, _, hdata⟩ : VariantAt (gzipOpts "/c.html")
      (Posix.canonPath [named "srv", named "c.html.gz"]) (named "gzip of c") := by decide +kernel
  exact ⟨m, v, hm, hv, variant_served_whole_iff rfl rfl (by decide) hm hv hdata⟩

end WeaveGate.Static
