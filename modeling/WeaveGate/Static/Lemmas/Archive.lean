import WeaveGate.Static.Lemmas.Access

/-!
# The walk of the archive task

Paths on the stack that are no links lie inside the base. Links leave it when they are followed.
-/

namespace WeaveGate.Static

open Http
open Posix (Octets Path Name FileTree Inode Errno Canon)

variable {crates : Crates} {t : FileTree} {opts : HandleOpts} {base : Path} {job : ArchiveJob}

def LeadsInside (t : FileTree) (base p : Path) : Prop := ∀ c, t.canonicalize p = .ok c → Inside t base c

/-- The types of a path on the stack are those of its entry, and only links may leave the base. -/
structure Pending.Sound (t : FileTree) (base : Path) (p : Pending) : Prop where
  inside : p.isSymlink = false → LeadsInside t base p.src
  link : p.isSymlink = true → p.isDir = false ∧ t.isSymlink p.src = true

def TarEntry.FromInside (t : FileTree) (base : Path) : TarEntry → Prop
  | .file _ source _ => Inside t base source
  | _ => True

/-- A link on the stack that is going to be followed leads inside the base. -/
def Pending.FollowsInside (t : FileTree) (base : Path) (job : ArchiveJob) (p : Pending) : Prop :=
  p.isSymlink = true → job.followSymlinks = true → LeadsInside t base p.src

/-! ## One turn -/

theorem Inside.of_entry {p : Path} {d : Canon} {n : Name} {i : Inode} (hd : t.canonicalize p = .ok d)
    (hinside : Inside t base d) (hi : t.symlinkMetadata (p ++ [.normal n]) = .ok i) (hlink : i.isSymlink = false) :
    LeadsInside t base (p ++ [.normal n]) := by
  intro c hc
  rw [Posix.FileTree.canonicalize_entry hd hi hlink] at hc
  cases hc
  exact hinside.append [n]

theorem isDir_eq_false_of_isSymlink {i : Inode} (h : i.isSymlink = true) : i.isDir = false := by
  unfold Inode.isSymlink at h
  unfold Inode.isDir
  split at h
  · rename_i hkind
    rw [hkind]
  · cases h

theorem pendingEntries_sound {src : Path} {pending : List Pending} (h : pendingEntries t job src = .ok pending)
    (hsrc : LeadsInside t base src) : ∀ q ∈ pending, q.Sound t base := by
  obtain ⟨names, hnames, h⟩ := Checked.bind_eq_ok.mp h
  obtain ⟨d, hd, hinside⟩ : ∃ d, t.canonicalize src = .ok d ∧ Inside t base d := by
    unfold FileTree.readDir at hnames
    split at hnames
    · cases hnames
    · rename_i hmeta
      obtain ⟨d, hd, _⟩ := Posix.FileTree.stat_eq_ok.mp hmeta
      exact ⟨d, hd, hsrc d hd⟩
  intro q hq
  obtain ⟨name, _, hq⟩ := Checked.mapM_mem h hq
  obtain ⟨metadata, hmeta, hq⟩ := Checked.bind_eq_ok.mp hq
  rw [Checked.pure_eq_ok] at hq
  subst hq
  rw [Posix.Path.push_normal] at hmeta ⊢
  refine ⟨fun hlink => Inside.of_entry hd hinside hmeta hlink, fun hlink => ?_⟩
  exact ⟨isDir_eq_false_of_isSymlink hlink, by simpa [FileTree.isSymlink, hmeta, Except.toOption] using hlink⟩

theorem storeFile_fromInside {src dest : Path} {entry : TarEntry} (h : storeFile t src dest = .ok entry)
    (hsrc : LeadsInside t base src) : entry.FromInside t base := by
  obtain ⟨file, hfile, h⟩ := Checked.bind_eq_ok.mp h
  split at h
  · cases h
    exact hsrc _ (Posix.FileTree.open_eq_ok.mp hfile).2.1
  · cases h
  · cases h
    trivial

/-- Without following, a link is stored as a link. Everything else that is stored is where the path leads. -/
theorem appendPathWithName_fromInside {p : Pending} {dest : Path} {entry : TarEntry}
    (h : appendPathWithName t job.followSymlinks p.src dest = .ok entry) (hp : p.Sound t base)
    (hfollow : p.FollowsInside t base job) : entry.FromInside t base := by
  unfold appendPathWithName at h
  split at h
  · rename_i hf
    cases hlinked : p.isSymlink with
    | false => exact storeFile_fromInside h (hp.inside hlinked)
    | true => exact storeFile_fromInside h (hfollow hlinked hf)
  · split at h
    · cases h
    · cases h
      trivial
    · rename_i i hno hi
      have hlinked : p.isSymlink = false := by
        by_contra hlinked
        obtain ⟨kind, mtime, blksize⟩ := i
        have := (hp.link (by simpa using hlinked)).2
        simp only [FileTree.isSymlink, hi, Except.toOption, Option.any_some] at this
        cases kind with
        | symlink target => exact hno target mtime blksize rfl
        | file content => cases this
        | dir entries size => cases this
        | special => cases this
      exact storeFile_fromInside h (hp.inside hlinked)

theorem archiveVisit_sound {p : Pending} {pushed : List Pending} {written : List TarEntry}
    (h : archiveVisit t job p = .ok (pushed, written)) (hp : p.Sound t base)
    (hfollow : p.FollowsInside t base job) :
    (∀ q ∈ pushed, q.Sound t base) ∧ ∀ e ∈ written, e.FromInside t base := by
  obtain ⟨rel, _, h⟩ := Checked.bind_eq_ok.mp h
  dsimp only at h
  split at h
  · rename_i hdir
    obtain ⟨pending, hpending, h⟩ := Checked.bind_eq_ok.mp h
    cases h
    have hsrc : LeadsInside t base p.src := by
      cases hlinked : p.isSymlink with
      | false => exact hp.inside hlinked
      | true =>
          rw [(hp.link hlinked).1, hlinked, Bool.false_or, Bool.true_and, Bool.and_eq_true] at hdir
          exact hfollow hlinked hdir.1
    refine ⟨fun q hq => pendingEntries_sound hpending hsrc q (List.mem_reverse.mp hq), ?_⟩
    split
    · simp [TarEntry.FromInside]
    · simp
  · obtain ⟨entry, hentry, h⟩ := Checked.bind_eq_ok.mp h
    cases h
    refine ⟨by simp, ?_⟩
    simpa using appendPathWithName_fromInside hentry hp hfollow

end WeaveGate.Static
