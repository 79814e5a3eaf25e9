import WeaveGate.Lib.Steps
import WeaveGate.Routes.Snapshot
import WeaveGate.Routes.Theorems

/-!
# Snapshots are replaced as a whole

What a reader finds at the cache path when writing the snapshot is cut short at any point.
-/

namespace WeaveGate.Routes

open Posix (Path Octets Name)

/-! ## Temporary paths -/

theorem nameWithExtension_eq_self_iff {name ext : Octets} (hext : Posix.dot ∉ ext) :
    Posix.Path.nameWithExtension name ext = name ↔ ∃ stem, stem ≠ [] ∧ name = stem ++ Posix.dot :: ext := by
  unfold Posix.Path.nameWithExtension
  dsimp only
  constructor
  · intro h
    split at h
    · have hlen := congrArg List.length h
      simp at hlen
    · exact ⟨_, ‹_›, h.symm⟩
  · rintro ⟨stem, hne, rfl⟩
    have hrev : (stem ++ Posix.dot :: ext).reverse = ext.reverse ++ Posix.dot :: stem.reverse := by simp
    have hdrop : (ext.reverse ++ Posix.dot :: stem.reverse).dropWhile (· ≠ Posix.dot) = Posix.dot :: stem.reverse := by
      rw [List.dropWhile_append_of_pos (by simpa using fun b hb => ne_of_mem_of_not_mem hb hext),
        List.dropWhile_cons_of_neg (by simp)]
    rw [hrev, hdrop, List.tail_cons, List.reverse_reverse, if_neg hne]

def tmpExtension : Octets := Posix.utf8 "tmp".toList

/-- A file name that ends in `.tmp` and has something before it. -/
def HasTmpExtension (path : Path) : Prop :=
  ∃ stem, stem ≠ [] ∧ Posix.Path.fileName path = some (stem ++ Posix.dot :: tmpExtension)

theorem tmpPath_eq_iff {path : Path} (hname : (Posix.Path.fileName path).isSome = true) :
    tmpPath path = path ↔ HasTmpExtension path := by
  obtain ⟨name, hname⟩ := Option.isSome_iff_exists.mp hname
  have hpath := Posix.Path.eq_pop_append_of_fileName hname
  have htmp : tmpPath path = path.pop ++ [.normal (Posix.Path.nameWithExtension name tmpExtension)] := by
    unfold tmpPath Posix.Path.withExtension
    rw [hname, Option.elim_some]
    conv_lhs => rw [hpath]
    exact Posix.Path.setFileName_append_normal _ _ _
  have hsame : tmpPath path = path ↔ Posix.Path.nameWithExtension name tmpExtension = name := by
    rw [htmp]
    conv_lhs => rhs; rw [hpath]
    simp
  unfold HasTmpExtension
  rw [hsame, nameWithExtension_eq_self_iff (by decide), hname]
  simp

/-! ## What is left of a write -/

/-- The old content, a part of the new one in the temporary file, or the new one in its place. -/
inductive LeftOver (path : Path) (json : Octets) (files : Files Octets) : Writing → Prop
  | before {progress : Progress} (h : progress = .createDirAll ∨ progress = .openTmp ∨ progress = .returned false) :
      LeftOver path json files ⟨progress, files⟩
  | writing (name : (Posix.Path.fileName path).isSome = true) {progress : Progress} (n : Nat)
      (h : progress = .writeTmp n ∨ (progress = .rename ∧ n = json.length) ∨ progress = .returned false) :
      LeftOver path json files ⟨progress, files.write (tmpPath path) (some (json.take n))⟩
  | replaced (name : (Posix.Path.fileName path).isSome = true) :
      LeftOver path json files ⟨.returned true, (files.write (tmpPath path) (some json)).rename (tmpPath path) path⟩

variable {path : Path} {json : Octets} {files : Files Octets}

@[simp] theorem Files.write_write (files : Files Octets) (path : Path) (a b : Option Octets) :
    (files.write path a).write path b = files.write path b := by
  funext p
  by_cases h : p = path <;> simp [Files.write, h]

theorem leftOver_step {s s' : Writing} (hstep : WriteStep path json s s') (h : LeftOver path json files s) :
    LeftOver path json files s' := by
  cases hstep with
  | createDirAll files' =>
      cases h with
      | before _ => exact .before (.inr (.inl rfl))
      | writing _ _ hp => simp at hp
  | openTmp files' name =>
      cases h with
      | before _ => exact .writing name 0 (.inl rfl)
      | writing _ _ hp => simp at hp
  | writeTmp files' hn hm =>
      cases h with
      | before hp => simp at hp
      | writing name _ _ =>
          rw [Files.write_write]
          exact .writing name _ (.inl rfl)
  | closeTmp files' =>
      cases h with
      | before hp => simp at hp
      | writing name n hp =>
          obtain rfl : json.length = n := by simpa using hp
          exact .writing name _ (.inr (.inl ⟨rfl, rfl⟩))
  | rename files' =>
      cases h with
      | before hp => simp at hp
      | writing name n hp =>
          obtain rfl : n = json.length := by simpa using hp
          rw [List.take_length]
          exact .replaced name
  | fail files' hne =>
      cases h with
      | before _ => exact .before (.inr (.inr rfl))
      | writing name n _ => exact .writing name n (.inr (.inr rfl))
      | replaced _ => exact absurd rfl hne

theorem leftOver_of_reaches {s : Writing} (h : Steps.Reaches (WriteStep path json) (.start files) s) :
    LeftOver path json files s := by
  have hstart : LeftOver path json files (.start files) := .before (.inl rfl)
  exact Steps.invariant (I := LeftOver path json files) (fun _ _ => leftOver_step) h hstart

theorem reaches_writeTmp (name : (Posix.Path.fileName path).isSome = true) {n : Nat} (hn : n ≤ json.length) :
    Steps.Reaches (WriteStep path json) (.start files)
      ⟨.writeTmp n, files.write (tmpPath path) (some (json.take n))⟩ := by
  have hopen : Steps.Reaches (WriteStep path json) (.start files)
      ⟨.writeTmp 0, files.write (tmpPath path) (some [])⟩ :=
    (Relation.ReflTransGen.single (.createDirAll files)).tail (.openTmp files name)
  rcases Nat.eq_zero_or_pos n with rfl | hpos
  · exact hopen
  · have hwrite := hopen.tail (.writeTmp _ hpos hn)
    rwa [Files.write_write] at hwrite

/-! ## The outcomes of `writeCache` -/

/-! ## Interrupted writes -/

/-- The whole of the old or the new content, or none as before. -/
def Whole (path : Path) (json : Octets) (files files' : Files Octets) : Prop :=
  files' path = files path ∨ files' path = some json

theorem whole_of_leftOver (htmp : ¬ HasTmpExtension path) {s : Writing} (h : LeftOver path json files s) :
    Whole path json files s.files := by
  cases h with
  | before _ => exact .inl rfl
  | writing name n _ => exact .inl (Files.write_of_ne fun h => htmp ((tmpPath_eq_iff name).mp h.symm))
  | replaced name =>
      right
      show (files.write (tmpPath path) (some json)).rename (tmpPath path) path path = _
      rw [Files.rename, Files.write_self, Files.write_self]

/-- Written in place, a text of at least two bytes is seen cut short at some point, whatever was there before. -/
theorem exists_cut (htmp : HasTmpExtension path) (hjson : 2 ≤ json.length) (files : Files Octets) :
    ∃ s, Steps.Reaches (WriteStep path json) (.start files) s ∧ ¬ Whole path json files s.files := by
  have hname : (Posix.Path.fileName path).isSome = true := by
    obtain ⟨stem, _, hstem⟩ := htmp
    rw [hstem]
    rfl
  have hself := (tmpPath_eq_iff hname).mpr htmp
  have hcut : ∀ n < 2, files path ≠ some (json.take n) →
      ∃ s, Steps.Reaches (WriteStep path json) (.start files) s ∧ ¬ Whole path json files s.files := by
    intro n hn hold
    refine ⟨_, reaches_writeTmp hname (show n ≤ json.length by omega), ?_⟩
    unfold Whole
    dsimp only
    rw [hself, Files.write_self, not_or]
    refine ⟨Ne.symm hold, fun h => ?_⟩
    have hlen := congrArg List.length (Option.some.inj h)
    rw [List.length_take] at hlen
    omega
  by_cases hempty : files path = some (json.take 0)
  · refine hcut 1 (by decide) ?_
    rw [hempty]
    intro h
    have hlen := congrArg List.length (Option.some.inj h)
    rw [List.length_take, List.length_take] at hlen
    omega
  · exact hcut 0 (by decide) hempty

/-- At every point the snapshot is whole exactly when the temporary file is another file. A reader then finds what it
would have found before, or the new document. -/
theorem snapshot_whole_iff {toJson : RoutesDocument → Octets} {fromJson : Octets → Option RoutesDocument}
    {doc : RoutesDocument} (hjson : fromJson (toJson doc) = some doc) (hbraces : 2 ≤ (toJson doc).length) (path : Path)
    (files : Files Octets) :
    ((∀ s, Steps.Reaches (WriteStep path (toJson doc)) (.start files) s → Whole path (toJson doc) files s.files) ↔
      ¬ HasTmpExtension path) ∧
    (¬ HasTmpExtension path → ∀ s, Steps.Reaches (WriteStep path (toJson doc)) (.start files) s →
      readCache fromJson path s.files = readCache fromJson path files ∨
        readCache fromJson path s.files = .ok doc) := by
  have hwhole : ¬ HasTmpExtension path → ∀ s, Steps.Reaches (WriteStep path (toJson doc)) (.start files) s →
      Whole path (toJson doc) files s.files := fun htmp s hs => whole_of_leftOver htmp (leftOver_of_reaches hs)
  refine ⟨⟨fun h htmp => ?_, hwhole⟩, fun htmp s hs => ?_⟩
  · obtain ⟨s, hs, hcut⟩ := exists_cut htmp hbraces files
    exact hcut (h s hs)
  · rcases hwhole htmp s hs with hold | hnew
    · exact .inl (readCache_congr hold)
    · exact .inr (readCache_eq_ok.mpr ⟨_, hnew, hjson⟩)

def noRoutes : RoutesDocument := ⟨1, []⟩

/-- The pretty text of the document without routes. -/
def noRoutesText : Octets := Posix.utf8 "\x7b\n  \"version\": 1,\n  \"apps\": []\n\x7d".toList

def noRoutesFromJson (text : Octets) : Option RoutesDocument := if text = noRoutesText then some noRoutes else none

def noSnapshot : Files Octets := fun _ => none

theorem snapshot_whole_routesJson : ¬ HasTmpExtension snapshotPath ∧
    ∀ s, Steps.Reaches (WriteStep snapshotPath noRoutesText) (.start noSnapshot) s →
      Whole snapshotPath noRoutesText noSnapshot s.files := by
  have hext : ¬ HasTmpExtension snapshotPath := by
    rw [← tmpPath_eq_iff (by decide)]
    decide
  have hiff := @snapshot_whole_iff (fun _ => noRoutesText) noRoutesFromJson noRoutes (if_pos rfl) (by decide) snapshotPath
    noSnapshot
  exact ⟨hext, hiff.1.mpr hext⟩

def tmpSnapshot : Path := [.rootDir, .normal (Posix.utf8 "routes.tmp".toList)]

/-- `/routes.tmp` is its own temporary file. Killed after one byte, the process leaves an opening brace. -/
theorem tmp_snapshot_is_cut : ∃ s, Steps.Reaches (WriteStep tmpSnapshot noRoutesText) (.start noSnapshot) s ∧
    s.files tmpSnapshot = some (Posix.utf8 ['\x7b']) ∧ ¬ Whole tmpSnapshot noRoutesText noSnapshot s.files ∧
    readCache noRoutesFromJson tmpSnapshot s.files =
      .error "routes bootstrap: invalid cache JSON".toList := by
  have hself : tmpPath tmpSnapshot = tmpSnapshot := by decide
  have hone : noRoutesText.take 1 = Posix.utf8 ['\x7b'] := by decide
  have hcut : Steps.Reaches (WriteStep tmpSnapshot noRoutesText) (.start noSnapshot)
      ⟨.writeTmp 1, noSnapshot.write (tmpPath tmpSnapshot) (some (noRoutesText.take 1))⟩ :=
    reaches_writeTmp (by decide) (by decide)
  rw [hself, hone] at hcut
  have hfile : noSnapshot.write tmpSnapshot (some (Posix.utf8 ['\x7b'])) tmpSnapshot = some (Posix.utf8 ['\x7b']) :=
    Files.write_self _ _ _
  refine ⟨_, hcut, hfile, ?_, ?_⟩
  · rintro (hold | hnew)
    · cases hold.symm.trans hfile
    · exact absurd (Option.some.inj (hfile.symm.trans hnew)) (by decide)
  · unfold readCache
    dsimp only
    rw [hfile]
    rfl

end WeaveGate.Routes
