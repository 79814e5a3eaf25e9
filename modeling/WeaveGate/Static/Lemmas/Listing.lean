import WeaveGate.Lib.Checked
import WeaveGate.Static.Listing

/-!
# The entries of a listing

A listing is made of the entries that the loop takes, if the time of each of them can be converted.
-/

namespace WeaveGate.Static

open Http
open Posix (Path Name FileTree Inode Canon)

variable {crates : Crates} {t : FileTree} {opts : HandleOpts} {rootPathAbs : Canon} {parent : Path} {name : Name}

/-- `chrono` has a date for the time. -/
def HasDateTime (time : Int) : Prop := -8334601228800 * 1000000000 ≤ time ∧ time < 8210266876800 * 1000000000

instance (time : Int) : Decidable (HasDateTime time) := inferInstanceAs (Decidable (_ ∧ _))

theorem dateTimeFrom_eq (time : Int) :
    dateTimeFrom time = if HasDateTime time then .ok time else .error .panic := rfl

/-! ## Turns of the loop -/

theorem readDirEntry_eq : readDirEntry t opts rootPathAbs parent name =
    if ∀ e ∈ fileEntry t opts rootPathAbs parent name, HasDateTime e.mtime then
      .ok (fileEntry t opts rootPathAbs parent name)
    else .error .panic := by
  unfold readDirEntry
  cases fileEntry t opts rootPathAbs parent name with
  | none => rfl
  | some e =>
      dsimp only
      rw [dateTimeFrom_eq]
      by_cases hdate : HasDateTime e.mtime
      · simp [hdate, Except.map]
      · simp [hdate, Except.map]

theorem readDirEntry_eq_ok {entry : Option FileEntry} (h : readDirEntry t opts rootPathAbs parent name = .ok entry) :
    fileEntry t opts rootPathAbs parent name = entry := by
  rw [readDirEntry_eq] at h
  split at h
  · exact Except.ok.inj h
  · cases h

theorem readDirEntry_eq_none :
    readDirEntry t opts rootPathAbs parent name = .ok none ↔ fileEntry t opts rootPathAbs parent name = none := by
  refine ⟨readDirEntry_eq_ok, fun h => ?_⟩
  rw [readDirEntry, h]

/-- The whole loop. -/
theorem mapM_readDirEntry (names : List Name) : names.mapM (readDirEntry t opts rootPathAbs parent) =
    if ∀ e ∈ names.filterMap (fileEntry t opts rootPathAbs parent), HasDateTime e.mtime then
      .ok (names.map (fileEntry t opts rootPathAbs parent))
    else .error .panic := by
  have hdated : (∀ name ∈ names, ∀ e ∈ fileEntry t opts rootPathAbs parent name, HasDateTime e.mtime) ↔
      ∀ e ∈ names.filterMap (fileEntry t opts rootPathAbs parent), HasDateTime e.mtime := by
    simp only [List.mem_filterMap, Option.mem_def]
    exact ⟨fun h e ⟨name, hname, he⟩ => h name hname e he, fun h name hname e he => h e ⟨name, hname, he⟩⟩
  rw [Checked.mapM_eq_ite fun _ => readDirEntry_eq]
  exact if_congr hdated rfl rfl

/-! ## The reply -/

theorem readDirEntries_eq (hroot : t.canonicalize opts.basePath = .ok rootPathAbs) (names : List Name) :
    readDirEntries crates t opts parent names =
      let entries := names.filterMap (fileEntry t opts rootPathAbs parent)
      if ∀ e ∈ entries, HasDateTime e.mtime then .ok (entriesReply crates opts entries) else .error .panic := by
  unfold readDirEntries
  rw [hroot, Except.mapError]
  simp only [bind, Except.bind]
  rw [mapM_readDirEntry]
  by_cases hdated : ∀ e ∈ names.filterMap (fileEntry t opts rootPathAbs parent), HasDateTime e.mtime
  · rw [if_pos hdated, if_pos hdated]
    show Except.ok (entriesReply crates opts ((names.map _).filterMap id)) = _
    rw [List.filterMap_map]
    rfl
  · rw [if_neg hdated, if_neg hdated]

theorem readDirEntries_eq_ok {names : List Name} {resp : Response Body}
    (h : readDirEntries crates t opts parent names = .ok resp) :
    ∃ rootPathAbs, t.canonicalize opts.basePath = .ok rootPathAbs ∧
      (∀ e ∈ names.filterMap (fileEntry t opts rootPathAbs parent), HasDateTime e.mtime) ∧
      resp = entriesReply crates opts (names.filterMap (fileEntry t opts rootPathAbs parent)) := by
  obtain ⟨rootPathAbs, hroot, _⟩ := Checked.bind_eq_ok.mp h
  have hroot : t.canonicalize opts.basePath = .ok rootPathAbs := by
    cases hc : t.canonicalize opts.basePath with
    | error e => simp [hc, Except.mapError] at hroot
    | ok c => simpa [hc, Except.mapError] using hroot
  rw [readDirEntries_eq hroot] at h
  dsimp only at h
  split at h
  · exact ⟨rootPathAbs, hroot, ‹_›, (Except.ok.inj h).symm⟩
  · cases h

theorem autoIndex_ok {filepath : Path} {resp : Response Body} (h : autoIndex crates t opts filepath = .ok resp) :
    ∃ names, t.readDir ((Posix.Path.parent filepath).getD filepath) = .ok names ∧
      readDirEntries crates t opts ((Posix.Path.parent filepath).getD filepath) names = .ok resp := by
  unfold autoIndex at h
  dsimp only at h
  split at h
  · exact ⟨_, ‹_›, h⟩
  · cases h
  · cases h
  · cases h

theorem autoIndex_reply {filepath : Path} {resp : Response Body} (h : autoIndex crates t opts filepath = .ok resp) :
    ∃ entries, resp = entriesReply crates opts entries := by
  obtain ⟨names, _, hread⟩ := autoIndex_ok h
  obtain ⟨_, _, _, hresp⟩ := readDirEntries_eq_ok hread
  exact ⟨_, hresp⟩

end WeaveGate.Static
