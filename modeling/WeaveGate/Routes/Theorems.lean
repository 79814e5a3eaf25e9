import WeaveGate.Lib.Checked
import WeaveGate.Routes.Bootstrap

/-!
# Startups keep a usable snapshot and do not fail

Under `cache-then-file` with a cache path, a startup keeps a usable snapshot and comes up exactly when every
document it meets is one that it accepts.
-/

namespace WeaveGate.Routes

open Settings
open Posix (Path Octets)

variable {Json : Type} {toJson : RoutesDocument → Json} {fromJson : Json → Option RoutesDocument}

/-! ## Usable snapshots -/

def RoutesDocument.Accepted (doc : RoutesDocument) : Prop := ∃ defs, doc.intoProxyDefs = .ok defs

def CacheUsable (fromJson : Json → Option RoutesDocument) (path : Path) (files : Files Json) : Prop :=
  ∃ doc, readCache fromJson path files = .ok doc ∧ doc.Accepted

@[simp] theorem Files.write_self (files : Files Json) (path : Path) (content : Option Json) :
    files.write path content path = content := by
  simp [Files.write]

theorem Files.write_of_ne {files : Files Json} {path p : Path} {content : Option Json} (h : p ≠ path) :
    files.write path content p = files p := by
  simp [Files.write, h]

theorem readCache_eq_ok {path : Path} {files : Files Json} {doc : RoutesDocument} :
    readCache fromJson path files = .ok doc ↔ ∃ content, files path = some content ∧ fromJson content = some doc := by
  unfold readCache
  cases hfile : files path with
  | none => simp
  | some content => cases hdoc : fromJson content <;> simp [hdoc]

theorem readCache_congr {path : Path} {files files' : Files Json} (h : files' path = files path) :
    readCache fromJson path files' = readCache fromJson path files := by
  simp [readCache, h]

/-- What an attempt to write the snapshot leaves behind at the cache path. -/
theorem writeCache_at (toJson : RoutesDocument → Json) (path : Path) (doc : RoutesDocument)
    (outcome : WriteOutcome Json) (files : Files Json) :
    writeCache toJson path doc outcome files path = files path ∨
      writeCache toJson path doc outcome files path = some (toJson doc) ∨
      ∃ content, outcome = .partialWrite content ∧ tmpPath path = path ∧
        writeCache toJson path doc outcome files path = some content := by
  cases outcome with
  | noDirectory => exact .inl rfl
  | partialWrite content =>
      by_cases h : tmpPath path = path
      · exact .inr (.inr ⟨content, rfl, h, by simp [writeCache, h]⟩)
      · exact .inl (Files.write_of_ne (Ne.symm h))
  | noRename =>
      by_cases h : tmpPath path = path
      · exact .inr (.inl (by simp [writeCache, h]))
      · exact .inl (Files.write_of_ne (Ne.symm h))
  | done => exact .inr (.inl (by simp [writeCache]))

/-! ## One startup -/

def Starts (toJson : RoutesDocument → Json) (fromJson : Json → Option RoutesDocument) (config : RoutesBootstrap)
    (files : Files Json) (s : Startup Json) : Prop :=
  ∃ defs, (fetchRoutesDefs toJson fromJson config s.fetch s.outcome files).1 = .ok defs

def KeepsCache (toJson : RoutesDocument → Json) (fromJson : Json → Option RoutesDocument) (config : RoutesBootstrap)
    (path : Path) (files : Files Json) (s : Startup Json) : Prop :=
  CacheUsable fromJson path files → CacheUsable fromJson path (startup toJson fromJson config files s)

/-- Every document the startup relies on is accepted: the fetched one, the snapshot after a failed fetch, and
what is left of a snapshot that was its own temporary file. -/
def MeetsAccepted (fromJson : Json → Option RoutesDocument) (path : Path) (files : Files Json) (s : Startup Json) :
    Prop :=
  match httpFetchDocument fromJson s.fetch with
  | .ok doc => doc.Accepted ∧ ∀ content, s.outcome = .partialWrite content → tmpPath path = path →
      CacheUsable fromJson path files → ∃ d, fromJson content = some d ∧ d.Accepted
  | .error _ => ∀ doc, readCache fromJson path files = .ok doc → doc.Accepted

section

variable {config : RoutesBootstrap} {path : Path} {files : Files Json} {s : Startup Json}

theorem map_some_eq_ok {x : Except Error (List Proxy)} :
    (∃ defs, x.map some = .ok defs) ↔ ∃ defs, x = .ok defs := by
  cases x <;> simp [Except.map]

theorem fetchRoutesDefs_of_ok (hpolicy : config.policy = .cacheThenFile) (hcache : config.cachePath = some path)
    {doc : RoutesDocument} (h : httpFetchDocument fromJson s.fetch = .ok doc) :
    fetchRoutesDefs toJson fromJson config s.fetch s.outcome files =
      (doc.intoProxyDefs.map some, writeCache toJson path doc s.outcome files) := by
  simp [fetchRoutesDefs, hpolicy, h, hcache]

theorem fetchRoutesDefs_of_error (hpolicy : config.policy = .cacheThenFile) (hcache : config.cachePath = some path)
    {err : Error} (h : httpFetchDocument fromJson s.fetch = .error err) :
    fetchRoutesDefs toJson fromJson config s.fetch s.outcome files =
      ((readCache fromJson path files).toOption.elim (.ok none) fun doc => doc.intoProxyDefs.map some, files) := by
  simp only [fetchRoutesDefs, hpolicy, h, handleFetchFailure, hcache]
  cases readCache fromJson path files <;> rfl

theorem startup_iff (hjson : ∀ doc, fromJson (toJson doc) = some doc) (hpolicy : config.policy = .cacheThenFile)
    (hcache : config.cachePath = some path) :
    KeepsCache toJson fromJson config path files s ∧ Starts toJson fromJson config files s ↔
      MeetsAccepted fromJson path files s := by
  unfold KeepsCache Starts MeetsAccepted startup
  cases h : httpFetchDocument fromJson s.fetch with
  | error err =>
      rw [fetchRoutesDefs_of_error hpolicy hcache h]
      cases hread : readCache fromJson path files with
      | error e => simp [Except.toOption]
      | ok doc => simp [Except.toOption, map_some_eq_ok, RoutesDocument.Accepted]
  | ok doc =>
      rw [fetchRoutesDefs_of_ok hpolicy hcache h]
      dsimp only
      rw [map_some_eq_ok, and_comm]
      refine and_congr_right fun hdoc => ?_
      constructor
      · intro hkeep content hwrite htmp husable
        obtain ⟨d, hread, hd⟩ := hkeep husable
        obtain ⟨content', hfile, hjson'⟩ := readCache_eq_ok.mp hread
        have hwritten : writeCache toJson path doc s.outcome files path = some content := by
          simp [hwrite, writeCache, htmp]
        rw [hwritten] at hfile
        cases hfile
        exact ⟨d, hjson', hd⟩
      · intro hwrite husable
        rcases writeCache_at toJson path doc s.outcome files with hsame | hnew | ⟨content, hout, htmp, hcut⟩
        · obtain ⟨d, hread, hd⟩ := husable
          exact ⟨d, by rw [readCache_congr hsame, hread], hd⟩
        · exact ⟨doc, readCache_eq_ok.mpr ⟨_, hnew, hjson doc⟩, hdoc⟩
        · obtain ⟨d, hd, hacc⟩ := hwrite content hout htmp husable
          exact ⟨d, readCache_eq_ok.mpr ⟨_, hcut, hd⟩, hacc⟩

/-! ## All startups -/

theorem startups_iff (hjson : ∀ doc, fromJson (toJson doc) = some doc) (hpolicy : config.policy = .cacheThenFile)
    (hcache : config.cachePath = some path) (startups : List (Startup Json)) :
    (∀ e ∈ Run.trace (startup toJson fromJson config) files startups,
        KeepsCache toJson fromJson config path e.1 e.2 ∧ Starts toJson fromJson config e.1 e.2) ↔
      ∀ e ∈ Run.trace (startup toJson fromJson config) files startups, MeetsAccepted fromJson path e.1 e.2 :=
  forall₂_congr fun _ _ => startup_iff hjson hpolicy hcache

end

/-- Texts that are either those of a document or no JSON at all. -/
abbrev SampleJson := Option RoutesDocument

def sampleToJson (doc : RoutesDocument) : SampleJson := some doc
def sampleFromJson (text : SampleJson) : Option RoutesDocument := text

def snapshotPath : Path := [.rootDir, .normal (Posix.utf8 "routes.json".toList)]

def sampleConfig : RoutesBootstrap :=
  { url := "http://control/routes".toList, timeoutSecs := none, cachePath := some snapshotPath, onFailure := none }

def sampleFiles : Files SampleJson := Files.write (fun _ => none) snapshotPath (some (some ⟨1, []⟩))

def versionTwo : Startup SampleJson := ⟨.body (some ⟨2, []⟩), .done⟩
def unreachable : Startup SampleJson := ⟨.timedOut, .done⟩

/-- The document of version 2 replaces the usable snapshot. This startup and the next one fail. -/
theorem version_two_poisons_cache :
    ¬ KeepsCache sampleToJson sampleFromJson sampleConfig snapshotPath sampleFiles versionTwo ∧
    ¬ Starts sampleToJson sampleFromJson sampleConfig sampleFiles versionTwo ∧
    ¬ Starts sampleToJson sampleFromJson sampleConfig (startup sampleToJson sampleFromJson sampleConfig sampleFiles versionTwo) unreachable := by
  have hcache : readCache sampleFromJson snapshotPath
      (startup sampleToJson sampleFromJson sampleConfig sampleFiles versionTwo) = .ok ⟨2, []⟩ := by
    rfl
  refine ⟨fun h => ?_, ?_, ?_⟩
  · obtain ⟨doc, hread, defs, hdefs⟩ := h ⟨⟨1, []⟩, rfl, [], rfl⟩
    rw [hcache] at hread
    cases hread
    cases hdefs
  · rintro ⟨defs, h⟩
    cases h
  · rintro ⟨defs, h⟩
    rw [fetchRoutesDefs_of_error rfl rfl rfl, hcache] at h
    cases h

def versionOne : Startup SampleJson := ⟨.body (some ⟨1, []⟩), .done⟩

theorem startups_iff_versionOne :
    (∀ e ∈ Run.trace (startup sampleToJson sampleFromJson sampleConfig) sampleFiles [versionOne, unreachable],
        KeepsCache sampleToJson sampleFromJson sampleConfig snapshotPath e.1 e.2 ∧
          Starts sampleToJson sampleFromJson sampleConfig e.1 e.2) ↔
      ∀ e ∈ Run.trace (startup sampleToJson sampleFromJson sampleConfig) sampleFiles [versionOne, unreachable],
        MeetsAccepted sampleFromJson snapshotPath e.1 e.2 := by
  have hjson : ∀ doc, sampleFromJson (sampleToJson doc) = some doc := fun _ => rfl
  exact startups_iff hjson rfl rfl _

end WeaveGate.Routes
