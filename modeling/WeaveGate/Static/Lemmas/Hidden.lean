import WeaveGate.Static.Lemmas.Access
import WeaveGate.Static.Lemmas.Reply

/-!
# Dotfiles

What the listing, the archive and the access checks make of a name that starts with a dot, and which components of
the path that is opened the checks have looked at.
-/

namespace WeaveGate.Static

open Http
open Posix (Octets Path Name FileTree Inode Errno Canon Component)

variable {crates : Crates} {t : FileTree} {store : Store} {opts : HandleOpts} {job : ArchiveJob}

/-! ## The three tests -/

theorem isHidden_eq_true {p : Path} :
    isHidden p = true ↔ ∃ name, Component.normal name ∈ p ∧ Utf8.valid name = true ∧ isDotfile name = true := by
  unfold isHidden
  rw [List.any_eq_true]
  constructor
  · rintro ⟨c, hc, htest⟩
    cases c with
    | normal name =>
        rw [Bool.and_eq_true] at htest
        exact ⟨name, hc, htest⟩
    | rootDir => cases htest
    | curDir => cases htest
    | parentDir => cases htest
  · rintro ⟨name, hc, hvalid, hdot⟩
    exact ⟨.normal name, hc, Bool.and_eq_true_iff.mpr ⟨hvalid, hdot⟩⟩

theorem isHidden_append (p q : Path) : isHidden (p ++ q) = (isHidden p || isHidden q) := List.any_append

theorem isHidden_normal (name : Name) : isHidden [.normal name] = (Utf8.valid name && isDotfile name) :=
  Bool.or_false _

/-- The same request with dotfiles shown. -/
def HandleOpts.showingHidden (opts : HandleOpts) : HandleOpts := { opts with ignoreHiddenFiles := false }

theorem checkAccess_showingHidden (hon : opts.ignoreHiddenFiles = true) {checked rel : Path}
    (hrel : checked = opts.basePath ++ rel) (h : checkAccess t opts.showingHidden checked = .ok ()) :
    checkAccess t opts checked = if isHidden rel = true then .error .notFound else .ok () := by
  have hstrip := Posix.Path.stripPrefix_eq_some.mpr hrel
  unfold checkAccess HandleOpts.showingHidden at h
  unfold checkAccess
  rw [hstrip] at h ⊢
  dsimp only at h ⊢
  cases hchecked : t.canonicalize checked with
  | error e => simp [hchecked] at h
  | ok resolved =>
      cases hbase : t.canonicalize opts.basePath with
      | error e => simp [hchecked, hbase] at h
      | ok base =>
          simp only [hchecked, hbase] at h ⊢
          split at h
          · cases h
          · rw [if_neg ‹_›]
            split at h
            · cases h
            · cases h
            · rename_i hlinks
              rw [hlinks, hon, Bool.true_and]

/-- The listing of an entry that would be listed. -/
theorem fileEntry_eq_none_iff (hon : opts.ignoreHiddenFiles = true) {root : Canon} {dir : Path} {name : Name}
    (h : (fileEntry t opts.showingHidden root dir name).isSome = true) :
    fileEntry t opts root dir name = none ↔ isDotfile name = true := by
  unfold fileEntry HandleOpts.showingHidden at h
  unfold fileEntry
  dsimp only at h ⊢
  cases hmeta : t.symlinkMetadata (dir.push [.normal name]) with
  | error e =>
      rw [hmeta] at h
      cases h
  | ok metadata =>
      rw [hmeta] at h
      simp only [Bool.false_and, Bool.false_eq_true, if_false, Option.isSome_map] at h
      simp only [hon, Bool.true_and]
      cases isDotfile name with
      | true => simp
      | false =>
          rw [Option.isSome_iff_ne_none] at h
          simpa using h

theorem fileEntry_some (hon : opts.ignoreHiddenFiles = true) {root : Canon} {dir : Path} {name : Name}
    {entry : FileEntry} (h : fileEntry t opts root dir name = some entry) : isDotfile name = false := by
  unfold fileEntry at h
  dsimp only at h
  split at h
  · cases h
  · rw [hon, Bool.true_and] at h
    split at h
    · cases h
    · exact Bool.eq_false_iff.mpr ‹_›

/-- The entries that go onto the stack of the archive. -/
theorem pendingEntries_mem_iff (hon : job.ignoreHidden = true) {src : Path} {names : List Name}
    {pending : List Pending} (hnames : t.readDir src = .ok names) (h : pendingEntries t job src = .ok pending)
    {name : Name} (hname : name ∈ names) :
    (∃ q ∈ pending, q.src = src ++ [.normal name]) ↔ isDotfile name = false := by
  obtain ⟨names', hnames', h⟩ := Checked.bind_eq_ok.mp h
  cases hnames.symm.trans hnames'
  have hvisible : ∀ n, n ∈ names.filter (fun n => !(job.ignoreHidden && isDotfile n)) ↔
      n ∈ names ∧ isDotfile n = false := by
    intro n
    rw [List.mem_filter, hon]
    simp
  constructor
  · rintro ⟨q, hq, hsrc⟩
    obtain ⟨n, hn, hq⟩ := Checked.mapM_mem h hq
    obtain ⟨metadata, -, hq⟩ := Checked.bind_eq_ok.mp hq
    rw [Checked.pure_eq_ok] at hq
    rw [← hq, Posix.Path.push_normal] at hsrc
    have hsame : n = name := by simpa using hsrc
    exact hsame ▸ ((hvisible n).mp hn).2
  · intro hdot
    obtain ⟨q, hq, hentry⟩ := Checked.exists_of_mapM_mem h ((hvisible name).mpr ⟨hname, hdot⟩)
    obtain ⟨metadata, -, hentry⟩ := Checked.bind_eq_ok.mp hentry
    rw [Checked.pure_eq_ok] at hentry
    refine ⟨q, hq, ?_⟩
    rw [← hentry, Posix.Path.push_normal]

/-! ## The walk of the archive -/

/-- Every path on the stack goes on from the source with names that are no dotfiles. -/
def Pending.Shown (job : ArchiveJob) (p : Pending) : Prop :=
  ∃ names : List Name, p.src = job.srcPath ++ names.map .normal ∧ ∀ n ∈ names, isDotfile n = false

theorem archiveVisit_shown (hon : job.ignoreHidden = true) {p : Pending} {pushed : List Pending}
    {written : List TarEntry} (h : archiveVisit t job p = .ok (pushed, written)) (hp : p.Shown job) :
    ∀ q ∈ pushed, q.Shown job := by
  obtain ⟨rel, -, h⟩ := Checked.bind_eq_ok.mp h
  dsimp only at h
  split at h
  · obtain ⟨pending, hpending, h⟩ := Checked.bind_eq_ok.mp h
    cases h
    intro q hq
    obtain ⟨dirs, hsrc, hdirs⟩ := hp
    obtain ⟨names, hnames, hmap⟩ := Checked.bind_eq_ok.mp hpending
    obtain ⟨name, hname, hentry⟩ := Checked.mapM_mem hmap (List.mem_reverse.mp hq)
    obtain ⟨metadata, -, hentry⟩ := Checked.bind_eq_ok.mp hentry
    rw [Checked.pure_eq_ok] at hentry
    rw [List.mem_filter, hon] at hname
    refine ⟨dirs ++ [name], ?_, ?_⟩
    · rw [← hentry, Posix.Path.push_normal, hsrc, List.append_assoc, List.map_append]
      rfl
    · intro n hn
      rcases List.mem_append.mp hn with hn | hn
      · exact hdirs n hn
      · rw [List.mem_singleton.mp hn]
        simpa using hname.2
  · obtain ⟨entry, -, h⟩ := Checked.bind_eq_ok.mp h
    cases h
    simp

theorem archive_shown (hon : job.ignoreHidden = true) (n : Nat) : ∀ p ∈ (archive t job n).stack, p.Shown job := by
  have hroot : job.root.Shown job := ⟨[], by simp [ArchiveJob.root], by simp⟩
  have hall : Worklist.All (Pending.Shown job) (fun _ : TarEntry => True) (archive t job n) :=
    (Worklist.All.start hroot).run (C := fun _ => True)
      (fun p pushed written hvisit hp _ => ⟨archiveVisit_shown hon hvisit hp, fun _ _ => trivial⟩) n
      fun _ _ _ _ => trivial
  exact hall.1

end WeaveGate.Static
