import WeaveGate.Lib.Checked
import WeaveGate.Lib.Posix.Lemmas.Walk
import WeaveGate.Lib.Posix.Names
import WeaveGate.Static.Lemmas.Composed

/-!
# What the access checks say, and about which path

The checks look at `checkedPath`, the reply opens `openedPath`. They are the same path unless the file is found
through a directory or is a pre-compressed variant.
-/

namespace WeaveGate.Static

open Http
open Posix (Octets Path Name FileTree Inode Errno Canon)

variable {crates : Crates} {t : FileTree} {opts : HandleOpts}

/-! ## Inside the base -/

def Inside (t : FileTree) (base : Path) (c : Canon) : Prop := ∃ b, t.canonicalize base = .ok b ∧ b <+: c

def NoLinkBelow (t : FileTree) (base p : Path) : Prop :=
  ∀ pre c post, p = base ++ pre ++ c :: post → t.isSymlink (base ++ pre ++ [c]) = false

theorem Inside.append {base : Path} {c : Canon} (h : Inside t base c) (names : List Name) :
    Inside t base (c ++ names) := by
  obtain ⟨b, hb, hpre⟩ := h
  exact ⟨b, hb, hpre.trans (List.prefix_append _ _)⟩

theorem isSymlink_eq_false {p : Path} {i : Inode} (h : t.symlinkMetadata p = .ok i) :
    t.isSymlink p = false ↔ i.isSymlink = false := by
  simp [FileTree.isSymlink, h, Except.toOption]

/-! ## Links below the base -/

/-- On ordinary names, the loop looks at every component. -/
theorem containsSymlink_false {current rel : Path} (hrel : ∀ c ∈ rel, ∃ n, c = .normal n)
    (h : containsSymlink t current rel = .ok false) : NoLinkBelow t current (current ++ rel) := by
  induction rel generalizing current with
  | nil =>
      intro pre c post hp
      have hlen := congrArg List.length hp
      simp only [List.length_append, List.length_cons, List.length_nil] at hlen
      omega
  | cons d rel ih =>
      obtain ⟨n, rfl⟩ := hrel d List.mem_cons_self
      simp only [containsSymlink, Posix.Path.push_normal] at h
      split at h
      · cases h
      · rename_i i hi
        split at h
        · cases h
        · rename_i hlink
          intro pre c post hp
          rw [List.append_assoc, List.append_cancel_left_eq] at hp
          cases pre with
          | nil =>
              cases hp
              rw [List.append_nil]
              exact (isSymlink_eq_false hi).mpr (by simpa using hlink)
          | cons e pre =>
              cases hp
              have := ih (fun c hc => hrel c (List.mem_cons_of_mem _ hc)) h pre c post (by simp)
              simpa using this

theorem containsSymlink_append {current rel rest : Path} (h : containsSymlink t current (rel ++ rest) = .ok false) :
    containsSymlink t current rel = .ok false := by
  induction rel generalizing current with
  | nil => rfl
  | cons c rel ih =>
      cases c with
      | normal n =>
          simp only [List.cons_append, containsSymlink] at h ⊢
          split at h
          · cases h
          · split at h
            · cases h
            · rw [if_neg ‹_›]
              exact ih h
      | rootDir => exact ih h
      | curDir => exact ih h
      | parentDir => exact ih h

theorem NoLinkBelow.entry {base p : Path} {c : Posix.Component} (h : NoLinkBelow t base p)
    (hc : t.isSymlink (p ++ [c]) = false) : NoLinkBelow t base (p ++ [c]) := by
  intro pre d post hp
  rcases List.eq_nil_or_concat post with rfl | ⟨post, e, rfl⟩
  · obtain ⟨rfl, hd⟩ := List.append_inj' hp rfl
    cases hd
    exact hc
  · rw [List.concat_eq_append, ← List.cons_append, ← List.append_assoc] at hp
    exact h pre d post (List.append_inj' hp rfl).1

/-! ## The checks -/

theorem checkAccess_ok {checked : Path} (h : checkAccess t opts checked = .ok ()) :
    ∃ rel c, checked = opts.basePath ++ rel ∧ t.canonicalize checked = .ok c ∧ Inside t opts.basePath c ∧
      (opts.disableSymlinks = true → containsSymlink t opts.basePath rel = .ok false) ∧
      (opts.ignoreHiddenFiles = true → isHidden rel = false) := by
  unfold checkAccess at h
  split at h
  · cases h
  · rename_i rel hrel
    split at h
    · cases h
    · cases h
    · rename_i resolved base hres hbase
      split at h
      · cases h
      · rename_i hpre
        rw [not_not] at hpre
        split at h
        · cases h
        · cases h
        · rename_i hlink
          split at h
          · cases h
          · rename_i hhidden
            refine ⟨rel, resolved, Posix.Path.stripPrefix_eq_some.mp hrel, hres, ⟨base, hbase, hpre⟩, ?_, ?_⟩
            · intro hdis
              rwa [if_pos hdis] at hlink
            · intro hign
              simpa [hign] using hhidden

/-! ## The requested path -/

def decodedNames (tail : Str) : List Name := Posix.Path.names (Percent.decode (Posix.utf8 tail))

theorem decodedNames_append_slash (x y : Str) : decodedNames (x ++ '/' :: y) = decodedNames x ++ decodedNames y := by
  have hbytes : Posix.utf8 (x ++ '/' :: y) = Posix.utf8 x ++ Posix.slash :: Posix.utf8 y := by
    rw [Utf8.utf8_append]
    rfl
  rw [decodedNames, hbytes, Percent.decode_append_cons (by decide), Posix.Path.names_append_slash]
  rfl

theorem decodedNames_trimStartMatches (tail : Str) :
    decodedNames (Text.trimStartMatches '/' tail) = decodedNames tail := by
  induction tail with
  | nil => rfl
  | cons c tail ih =>
      unfold Text.trimStartMatches at ih ⊢
      by_cases hc : c = '/'
      · rw [List.dropWhile_cons_of_pos (by simpa using hc), ih, hc]
        exact (decodedNames_append_slash [] tail).symm
      · rw [List.dropWhile_cons_of_neg (by simpa using hc)]

/-- A loop that pushes the ordinary components and leaves the path as it is at the others. -/
theorem foldl_push {step : Path → Posix.Component → Path}
    (hnormal : ∀ path name, step path (.normal name) = path.push [.normal name])
    (hother : ∀ path c, Posix.Path.name? c = none → step path c = path) (comps base : Path) :
    comps.foldl step base = base ++ (comps.filterMap Posix.Path.name?).map .normal := by
  induction comps generalizing base with
  | nil => simp
  | cons c comps ih =>
      rw [List.foldl_cons, ih]
      cases hname : Posix.Path.name? c with
      | none => rw [hother base c hname, List.filterMap_cons_none hname]
      | some name =>
          cases c with
          | normal n =>
              cases hname
              rw [hnormal, Posix.Path.push_normal]
              simp [Posix.Path.name?]
          | rootDir => cases hname
          | curDir => cases hname
          | parentDir => cases hname

theorem sanitizePath_eq (base : Path) (tail : Str) :
    sanitizePath base tail = base ++ (decodedNames tail).map .normal := by
  rw [← decodedNames_trimStartMatches, decodedNames, ← Posix.Path.names_parse]
  refine foldl_push (fun _ _ => rfl) (fun path c hc => ?_) _ base
  cases c with
  | normal name => cases hc
  | rootDir => rfl
  | curDir => rfl
  | parentDir => rfl

theorem requestedPath_eq (opts : HandleOpts) :
    ∃ names : List Name, requestedPath opts = opts.basePath ++ names.map .normal := by
  have hnames := sanitizePath_eq opts.basePath opts.uriPath
  unfold requestedPath
  dsimp only
  split
  · refine ⟨decodedNames opts.uriPath ++ [Posix.utf8 "index.html".toList], ?_⟩
    rw [Posix.Path.push_normal, hnames, List.map_append, List.append_assoc]
    rfl
  · exact ⟨_, hnames⟩

theorem ordinary_of_map {base rel : Path} {names : List Name} (h : base ++ names.map .normal = base ++ rel) :
    ∀ c ∈ rel, ∃ n, c = Posix.Component.normal n := by
  rw [List.append_cancel_left_eq] at h
  intro c hc
  rw [← h] at hc
  obtain ⟨n, _, rfl⟩ := List.mem_map.mp hc
  exact ⟨n, rfl⟩

/-- A path that is served as it was checked, and lies below the base, goes on from it with ordinary names. -/
theorem checkedPath_ordinary {m : FileMetadata} {rel : Path}
    (h : Composed crates t opts.headers opts.compressionStatic (requestedPath opts) m) (hdir : m.isDir = false)
    (hvariant : m.precompressedVariant = none) (hrel : m.filePath = opts.basePath ++ rel) :
    ∀ c ∈ rel, ∃ n, c = Posix.Component.normal n := by
  obtain ⟨names, hnames⟩ := requestedPath_eq opts
  cases h with
  | file _ _ =>
      rw [FileMetadata.ofFound, hnames] at hrel
      exact ordinary_of_map hrel
  | indexVariant _ _ => cases hvariant
  | index _ => cases hdir
  | noIndex _ => cases hdir
  | missingVariant _ _ => cases hvariant
  | htmlSuffix _ _ hsuffix =>
      obtain ⟨name, hname, hp, _⟩ := tryMetadataWithHtmlSuffix_some hsuffix
      rw [hnames] at hp hname
      dsimp only at hrel
      rcases List.eq_nil_or_concat names with rfl | ⟨names, last, rfl⟩
      · -- the base itself with `.html` does not lie below the base
        rw [List.map_nil, List.append_nil] at hp hname
        have hlen := congrArg List.length (hp.symm.trans hrel)
        rw [Posix.Path.eq_pop_append_of_fileName hname] at hlen hrel hp
        simp only [Posix.Path.pop_append_normal, List.length_append, List.length_cons, List.length_nil] at hlen
        have hnil : rel = [] := List.length_eq_zero_iff.mp (by omega)
        rw [hnil]
        simp
      · rw [List.concat_eq_append, List.map_append, ← List.append_assoc, List.map_singleton,
          Posix.Path.pop_append_normal] at hp
        rw [hrel, List.append_assoc, List.append_cancel_left_eq] at hp
        rw [hp]
        intro c hc
        rcases List.mem_append.mp hc with hc | hc
        · obtain ⟨n, _, rfl⟩ := List.mem_map.mp hc
          exact ⟨n, rfl⟩
        · exact ⟨_, List.mem_singleton.mp hc⟩

/-! ## The path that is opened -/

theorem openedPath_pop_isPrefix {compressionStatic : Bool} {headers : HeaderMap} {p : Path} {m : FileMetadata}
    (h : Composed crates t headers compressionStatic p m) : m.openedPath.pop <+: m.checkedPath := by
  rw [openedPath_pop h]
  unfold FileMetadata.checkedPath
  split
  · exact List.prefix_refl _
  · exact Posix.Path.pop_isPrefix _

theorem openedPath_eq_checkedPath {m : FileMetadata} (hdir : m.isDir = false)
    (hvariant : m.precompressedVariant = none) : m.openedPath = m.checkedPath := by
  simp [FileMetadata.openedPath, FileMetadata.checkedPath, hdir, hvariant]

end WeaveGate.Static
