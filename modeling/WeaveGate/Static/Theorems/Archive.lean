import WeaveGate.Static.Lemmas.Archive
import WeaveGate.Static.Theorems.Access

/-!
# Archives

Whose content goes into the archive of a directory.
-/

namespace WeaveGate.Static

open Http
open Posix (Octets Path Name FileTree Inode Errno Canon)

variable {crates : Crates} {t : FileTree} {store : Store} {opts : HandleOpts}

theorem handle_archive {r : StaticFileResponse} {job : ArchiveJob} (h : handle crates t store opts = .ok r)
    (hjob : r.resp.body = .archive job) : LeadsInside t opts.basePath job.srcPath := by
  rcases handle_ok h with ⟨entry, _, hresp⟩ | ⟨_, hfile⟩
  · rw [hresp] at hjob
    rcases entry.responseBody_body opts.headers with hempty | ⟨s, hs, _⟩
    · cases hempty.symm.trans hjob
    · cases hs.symm.trans hjob
  · obtain ⟨m, _, hcheck, hresp, _⟩ := handleFile_ok hfile
    obtain ⟨_, c, _, hc, hinside, _⟩ := checkAccess_ok hcheck
    rw [(respond_archive hresp hjob).2.1]
    intro c' hc'
    cases hc.symm.trans hc'
    exact hinside

/-- Before every turn of the task, a link on top of the stack that will be followed leads inside the base. -/
def LinksStayInside (t : FileTree) (base : Path) (job : ArchiveJob) (n : Nat) : Prop :=
  ∀ k < n, ∀ p, (archive t job k).stack.head? = some p → p.FollowsInside t base job

theorem archive_fromInside {r : StaticFileResponse} {job : ArchiveJob} (h : handle crates t store opts = .ok r)
    (hjob : r.resp.body = .archive job) (n : Nat) (hlinks : LinksStayInside t opts.basePath job n) :
    ∀ e ∈ (archive t job n).written, e.FromInside t opts.basePath := by
  have hroot : job.root.Sound t opts.basePath :=
    ⟨fun _ => handle_archive h hjob, fun hlink => by cases hlink⟩
  exact ((Worklist.All.start hroot).run (fun p pushed written => archiveVisit_sound) n hlinks).2

/-- `/srv/d` holds a link to `/etc/passwd` and a file. -/
def linkedDownload : FileTree :=
  { nodes :=
      [ ([], sampleDir [named "srv", named "etc"]),
        ([named "srv"], sampleDir [named "d"]),
        ([named "srv", named "d"], sampleDir [named "a", named "p"]),
        ([named "srv", named "d", named "a"], sampleFile (named "hello")),
        ([named "srv", named "d", named "p"], sampleLink (Posix.canonPath [named "etc", named "passwd"])),
        ([named "etc"], sampleDir [named "passwd"]),
        ([named "etc", named "passwd"], sampleFile (named "root")) ]
    cwd := [], symloopMax := 40, wf := by decide }

def downloadOpts (disableSymlinks : Bool) : HandleOpts :=
  { sampleOpts "/d/" with uriQuery := some "download".toList, dirListing := true
                          dirListingDownload := [.targz], disableSymlinks }

def archiveJob (r : Except Failure StaticFileResponse) : Option ArchiveJob :=
  match r with
  | .error _ => none
  | .ok r => match r.resp.body with
      | .archive job => some job
      | _ => none

theorem archiveJob_eq_some {x : Except Failure StaticFileResponse} {job : ArchiveJob} (h : archiveJob x = some job) :
    ∃ r, x = .ok r ∧ r.resp.body = .archive job := by
  unfold archiveJob at h
  split at h
  · cases h
  · split at h
    · cases h
      exact ⟨_, rfl, ‹_›⟩
    · cases h

/-- With links allowed, the archive holds the content of a file outside the base. -/
theorem archives_outside_file : ∃ r job,
    handle sampleCrates linkedDownload [] (downloadOpts false) = .ok r ∧ r.resp.body = .archive job ∧
    ∃ n, ∃ e ∈ (archive linkedDownload job n).written,
      ¬ e.FromInside linkedDownload (downloadOpts false).basePath := by
  have hjob : (archiveJob (handle sampleCrates linkedDownload [] (downloadOpts false))).any (fun job =>
      (archive linkedDownload job 2).written.any
        (· = .file [.normal (named "d"), .normal (named "p")] [named "etc", named "passwd"] (named "root"))) =
      true := by decide +kernel
  obtain ⟨job, hjob, hwritten⟩ := (Option.any_eq_true _ _).mp hjob
  obtain ⟨r, hr, hbody⟩ := archiveJob_eq_some hjob
  obtain ⟨e, he, hentry⟩ := List.any_eq_true.mp hwritten
  refine ⟨r, job, hr, hbody, 2, e, he, ?_⟩
  rw [of_decide_eq_true hentry]
  rintro ⟨b, hb, hpre⟩
  have hbase : linkedDownload.canonicalize (downloadOpts false).basePath = .ok [named "srv"] := rfl
  rw [hbase] at hb
  cases hb
  exact absurd hpre (by decide)

theorem archive_fromInside_noLinks : ∃ r job,
    handle sampleCrates linkedDownload [] (downloadOpts true) = .ok r ∧ r.resp.body = .archive job ∧
    ∀ e ∈ (archive linkedDownload job 3).written,
      e.FromInside linkedDownload (downloadOpts true).basePath := by
  have hjob : (archiveJob (handle sampleCrates linkedDownload [] (downloadOpts true))).any
      (fun job => job.followSymlinks = false) = true := by decide +kernel
  obtain ⟨job, hjob, hfollow⟩ := (Option.any_eq_true _ _).mp hjob
  obtain ⟨r, hr, hbody⟩ := archiveJob_eq_some hjob
  refine ⟨r, job, hr, hbody, archive_fromInside hr hbody 3 fun k _ p _ _ hf => ?_⟩
  rw [of_decide_eq_true hfollow] at hf
  cases hf

end WeaveGate.Static
