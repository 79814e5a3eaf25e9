import WeaveGate.Handler.Lemmas.Markdown
import WeaveGate.Handler.Theorems

/-!
# Markdown files

Which markdown file is served in place of the one that the request names.
-/

namespace WeaveGate.Handler

open Http
open Posix (Octets Path FileTree Name)
open Static (sanitizePath HandleOpts)

variable {crates : Crates} {t : FileTree} {headers : HeaderMap} {basePath : Path} {uriPath : Str}

/-- The first regular file among those that may stand for a path. -/
def markdownFile (t : FileTree) (p : Path) : Option Path := (MarkdownSuffix.first t.isFile p).bind (·.at? p)

structure ServesMarkdown (crates : Crates) (t : FileTree) (headers : HeaderMap) (basePath : Path) (uriPath : Str) :
    Prop where
  answer : (markdownPreProcess crates t headers basePath uriPath).map (sanitizePath basePath) =
    markdownFile t (sanitizePath basePath uriPath)
  /-- The static handler takes that file. -/
  served : ∀ uri, markdownPreProcess crates t headers basePath uriPath = some uri →
    ∀ call : HandleOpts, call.basePath = basePath → call.uriPath = uri →
      ∃ m, Static.getComposedFileMetadata crates.static t call.headers call.compressionStatic
          (Static.requestedPath call) call.indexFiles = .ok m ∧ m.isDir = false ∧
        some m.filePath = markdownFile t (sanitizePath basePath uriPath)
  below : ∀ q ∈ probedPaths t (writtenPath basePath uriPath), IsBelow basePath q

/-- The path as it is written and the path as it is decoded lead to the same of the three places. -/
structure WrittenAsDecoded (t : FileTree) (basePath : Path) (uriPath : Str) : Prop where
  below : ∃ rel, writtenPath basePath uriPath = basePath ++ rel ∧ staysBelow 0 rel = true ∧
    (rel = [] → Posix.Path.fileName basePath = none)
  same : MarkdownSuffix.first (notDir t) (writtenPath basePath uriPath) =
    MarkdownSuffix.first t.isFile (sanitizePath basePath uriPath)
  named : ∀ s, MarkdownSuffix.first (notDir t) (writtenPath basePath uriPath) = some s → s ≠ .index →
    ∀ name, Posix.Path.fileName (writtenPath basePath uriPath) = some name →
      (Posix.Path.lastName? (Percent.decode name)).isSome = true

/-! ## The answer -/

theorem markdownFile_eq_none {p : Path} (h : markdownFile t p = none) : MarkdownSuffix.first t.isFile p = none := by
  cases hfirst : MarkdownSuffix.first t.isFile p with
  | none => rfl
  | some s =>
      obtain ⟨q, hq, _⟩ := MarkdownSuffix.at?_first hfirst
      rw [markdownFile, hfirst, Option.bind_some, hq] at h
      cases h

/-- What `pre_process` answers, when it looks below the base only. -/
theorem markdownPreProcess_below (haccept : accepts crates headers "text/markdown".toList = true) {rel : Path}
    (hwritten : writtenPath basePath uriPath = basePath ++ rel)
    (hname : rel = [] → Posix.Path.fileName basePath = none) :
    match MarkdownSuffix.first (notDir t) (writtenPath basePath uriPath) with
    | none => markdownPreProcess crates t headers basePath uriPath = none
    | some s => ∃ text, markdownPreProcess crates t headers basePath uriPath = some ('/' :: text) ∧
        Text.endsWith ('/' :: text) '/' = false ∧
        ∀ s' : MarkdownSuffix, s'.at? (sanitizePath basePath uriPath) = some (sanitizePath basePath ('/' :: text)) ↔
          s' = s ∧ (s ≠ .index → ∀ name, Posix.Path.fileName (writtenPath basePath uriPath) = some name →
            (Posix.Path.lastName? (Percent.decode name)).isSome = true) := by
  rw [markdownPreProcess_eq haccept]
  cases hfirst : MarkdownSuffix.first (notDir t) (writtenPath basePath uriPath) with
  | none => rfl
  | some s =>
      obtain ⟨q, hq, _⟩ := MarkdownSuffix.at?_first hfirst
      obtain ⟨rel', hrel', htext, hnames⟩ := writtenPath_spec basePath uriPath
      cases List.append_cancel_left (hwritten.symm.trans hrel')
      have hindex : rel ≠ [] ∨ s = .index := by
        by_cases hrel : rel = []
        · right
          subst hrel
          rw [hwritten, List.append_nil] at hq
          rcases MarkdownSuffix.at?_cases hq with ⟨_, before, name, _, hp, _⟩ | ⟨rfl, _⟩
          · have hnone := hname rfl
            rw [hp, Posix.Path.fileName_append_normal] at hnone
            cases hnone
          · rfl
        · exact .inl hrel
      rw [hwritten] at hq ⊢
      obtain ⟨relq, text, hstrip, hanswer, hend, hiff⟩ := at?_sanitized_iff htext hnames hq hindex
      refine ⟨text, ?_, hend, hiff⟩
      rw [Option.bind_some, hq, Option.bind_some, hstrip, Option.bind_some, hanswer]
      rfl

theorem answer_iff (haccept : accepts crates headers "text/markdown".toList = true) {rel : Path}
    (hwritten : writtenPath basePath uriPath = basePath ++ rel)
    (hname : rel = [] → Posix.Path.fileName basePath = none) :
    (markdownPreProcess crates t headers basePath uriPath).map (sanitizePath basePath) =
        markdownFile t (sanitizePath basePath uriPath) ↔
      MarkdownSuffix.first (notDir t) (writtenPath basePath uriPath) =
        MarkdownSuffix.first t.isFile (sanitizePath basePath uriPath) ∧
      ∀ s, MarkdownSuffix.first (notDir t) (writtenPath basePath uriPath) = some s → s ≠ .index →
        ∀ name, Posix.Path.fileName (writtenPath basePath uriPath) = some name →
          (Posix.Path.lastName? (Percent.decode name)).isSome = true := by
  have hpre := markdownPreProcess_below (t := t) haccept hwritten hname
  cases hfirst : MarkdownSuffix.first (notDir t) (writtenPath basePath uriPath) with
  | none =>
      rw [hfirst] at hpre
      rw [hpre, Option.map_none]
      refine ⟨fun h => ⟨(markdownFile_eq_none h.symm).symm, nofun⟩, fun h => ?_⟩
      rw [markdownFile, ← h.1, Option.bind_none]
  | some s =>
      rw [hfirst] at hpre
      obtain ⟨text, hanswer, _, hplace⟩ := hpre
      rw [hanswer, Option.map_some]
      refine ⟨fun h => ?_, fun h => ?_⟩
      · obtain ⟨s', hfile, hat⟩ := Option.bind_eq_some_iff.mp h.symm
        obtain ⟨rfl, hnamed⟩ := (hplace s').mp hat
        refine ⟨hfile.symm, fun s hs hindex => ?_⟩
        cases hs
        exact hnamed hindex
      · rw [markdownFile, ← h.1, Option.bind_some]
        exact ((hplace s).mpr ⟨rfl, h.2 s rfl⟩).symm

theorem getComposedFileMetadata_of_isFile (static : Static.Crates) (headers : HeaderMap) (compressionStatic : Bool)
    (indexFiles : List Path) {f : Path} (h : t.isFile f = true) :
    ∃ m, Static.getComposedFileMetadata static t headers compressionStatic f indexFiles = .ok m ∧ m.isDir = false ∧
      m.filePath = f := by
  obtain ⟨i, hi, hfile⟩ := (Option.any_eq_true _ _).mp h
  have hmeta : t.metadata f = .ok i := Checked.toOption_eq_some.mp hi
  have hdir : i.isDir = false := by
    rcases i with ⟨_ | _ | _, _, _⟩ <;> first | rfl | cases hfile
  refine ⟨Static.FileMetadata.ofFound static t headers compressionStatic f i false, ?_, rfl, rfl⟩
  have htry : Static.tryMetadata t f = .ok (i, false) := Static.tryMetadata_eq_ok.mpr ⟨hmeta, hdir⟩
  unfold Static.getComposedFileMetadata
  dsimp only
  rw [htry]

theorem requestedPath_of_not_endsWith {call : HandleOpts} (h : Text.endsWith call.uriPath '/' = false) :
    Static.requestedPath call = sanitizePath call.basePath call.uriPath := by
  unfold Static.requestedPath
  rw [h, Bool.and_false]
  rfl

/-- For a client that accepts markdown, the answer is the first of the three files, and nothing outside the base is
looked at, exactly when the path as it is written leads to the same place as the decoded one. -/
theorem serves_markdown_iff (haccept : accepts crates headers "text/markdown".toList = true) :
    ServesMarkdown crates t headers basePath uriPath ↔ WrittenAsDecoded t basePath uriPath := by
  obtain ⟨rel, hwritten, _, _⟩ := writtenPath_spec basePath uriPath
  have hbelow := probedPaths_isBelow_iff t basePath rel
  rw [← hwritten] at hbelow
  refine ⟨fun h => ?_, fun h => ?_⟩
  · obtain ⟨hstays, hname⟩ := hbelow.mp h.below
    obtain ⟨hsame, hnamed⟩ := (answer_iff haccept hwritten hname).mp h.answer
    exact ⟨⟨rel, hwritten, hstays, hname⟩, hsame, hnamed⟩
  · obtain ⟨rel', hrel', hstays, hname⟩ := h.below
    cases List.append_cancel_left (hwritten.symm.trans hrel')
    have hanswer := (answer_iff haccept hwritten hname).mpr ⟨h.same, h.named⟩
    refine ⟨hanswer, fun uri huri call hbase hpath => ?_, hbelow.mpr ⟨hstays, hname⟩⟩
    have hend : Text.endsWith uri '/' = false := by
      have hpre := markdownPreProcess_below (t := t) haccept hwritten hname
      split at hpre
      · rw [huri] at hpre
        cases hpre
      · obtain ⟨text, htext, hend, _⟩ := hpre
        cases htext.symm.trans huri
        exact hend
    rw [huri, Option.map_some] at hanswer
    obtain ⟨s, hs, hat⟩ := Option.bind_eq_some_iff.mp hanswer.symm
    obtain ⟨f, hf, hfile⟩ := MarkdownSuffix.at?_first hs
    cases hf.symm.trans hat
    rw [requestedPath_of_not_endsWith (by rwa [hpath]), hbase, hpath]
    obtain ⟨m, hm, hdir, hfound⟩ := getComposedFileMetadata_of_isFile crates.static call.headers
      call.compressionStatic call.indexFiles hfile
    exact ⟨m, hm, hdir, by rw [hfound, hanswer]⟩

/-- `/srv/guide.md` and a file whose name has a space. -/
def articles : FileTree :=
  { nodes :=
      [ ([], Static.sampleDir [Static.named "srv"]),
        ([Static.named "srv"], Static.sampleDir [Static.named "guide.md", Static.named "a b.md"]),
        ([Static.named "srv", Static.named "guide.md"], Static.sampleFile (Static.named "# Guide")),
        ([Static.named "srv", Static.named "a b.md"], Static.sampleFile (Static.named "# A b")) ]
    cwd := [], symloopMax := 40, wf := by decide }

def acceptMarkdownHeaders : HeaderMap := [(.accept, HeaderValue.fromStatic "text/markdown")]

theorem serves_markdown_guide : accepts sampleCrates acceptMarkdownHeaders "text/markdown".toList = true ∧
    ServesMarkdown sampleCrates articles acceptMarkdownHeaders (Posix.canonPath [Static.named "srv"])
      "/guide".toList := by
  have hbelow : staysBelow 0 [.normal (Static.named "guide")] = true := rfl
  refine ⟨by decide, (serves_markdown_iff (by decide)).mpr ⟨⟨_, rfl, hbelow, nofun⟩, rfl, ?_⟩⟩
  intro _ _ _ name hname
  rw [← Option.some.inj (show some (Static.named "guide") = some name from hname)]
  rfl

/-- The file is there, but not under the name that the path has before it is decoded. -/
theorem markdown_missed_behind_percent : accepts sampleCrates acceptMarkdownHeaders "text/markdown".toList = true ∧
    ¬ ServesMarkdown sampleCrates articles acceptMarkdownHeaders (Posix.canonPath [Static.named "srv"])
      "/a%20b".toList :=
  ⟨by decide, fun h => absurd h.answer (by decide +kernel)⟩

end WeaveGate.Handler
