import WeaveGate.Handler.Lemmas.WrittenPath

/-!
# The places of a markdown file

Beside a path, under two suffixes, and in it. A file that is found at one of them goes back to a URI path.
-/

namespace WeaveGate.Handler

open Http
open Posix (Octets Path FileTree Name)
open Static (decodedNames sanitizePath HandleOpts)

variable {crates : Crates} {t : FileTree} {headers : HeaderMap} {basePath : Path} {uriPath : Str}

/-! ## The three places -/

inductive MarkdownSuffix where
  | md
  | htmlMd
  | index
deriving DecidableEq

namespace MarkdownSuffix

def text? : MarkdownSuffix → Option Octets
  | md => some (Posix.utf8 ".md".toList)
  | htmlMd => some (Posix.utf8 ".html.md".toList)
  | index => none

def indexName : Name := Posix.utf8 "index.html.md".toList

/-- The file beside a path, or in it. -/
def at? (p : Path) (s : MarkdownSuffix) : Option Path :=
  match s.text? with
  | some suffix => (Posix.Path.fileName p).map fun name => Posix.Path.setFileName p (name ++ suffix)
  | none => some (p.push [.normal indexName])

def all : List MarkdownSuffix := [md, htmlMd, index]

/-- The first place where `test` holds. -/
def first (test : Path → Bool) (p : Path) : Option MarkdownSuffix := all.find? fun s => (s.at? p).any test

theorem at?_of_text {s : MarkdownSuffix} {suffix : Octets} (hs : s.text? = some suffix) (p : Path) (name : Name) :
    s.at? (p ++ [.normal name]) = some (p ++ [.normal (name ++ suffix)]) := by
  rw [at?, hs]
  dsimp only
  rw [Posix.Path.fileName_append_normal, Option.map_some, Posix.Path.setFileName_append_normal]

theorem at?_index (p : Path) : index.at? p = some (p ++ [.normal indexName]) :=
  congrArg some (Posix.Path.push_normal p indexName)

theorem at?_cases {s : MarkdownSuffix} {p q : Path} (h : s.at? p = some q) :
    (∃ suffix before name, s.text? = some suffix ∧ p = before ++ [.normal name] ∧
      q = before ++ [.normal (name ++ suffix)]) ∨
      s = index ∧ q = p ++ [.normal indexName] := by
  cases hs : s.text? with
  | some suffix =>
      left
      cases hname : Posix.Path.fileName p with
      | none => simp [at?, hs, hname] at h
      | some name =>
          have hp := Posix.Path.eq_pop_append_of_fileName hname
          rw [hp, at?_of_text hs] at h
          exact ⟨suffix, _, name, rfl, hp, (Option.some.inj h).symm⟩
  | none =>
      right
      cases s with
      | md => cases hs
      | htmlMd => cases hs
      | index => exact ⟨rfl, (Option.some.inj ((at?_index p).symm.trans h)).symm⟩

theorem text?_injective {s s' : MarkdownSuffix} {suffix : Octets} (h : s.text? = some suffix)
    (h' : s'.text? = some suffix) : s = s' := by
  have hsame : s.text? = s'.text? := h.trans h'.symm
  cases s <;> cases s' <;> first | rfl | exact absurd hsame (by decide)

structure SuffixText (suffix : Octets) : Prop where
  text : ∃ s : Str, suffix = Posix.utf8 s
  slash : Posix.slash ∉ suffix
  length : 3 ≤ suffix.length
  decode : ∀ x, Percent.decode (x ++ suffix) = Percent.decode x ++ suffix
  /-- After dots it makes another name than that of the index. -/
  index : ∀ dots ∈ [[], [Posix.dot], [Posix.dot, Posix.dot]], dots ++ suffix ≠ indexName

theorem text?_spec {s : MarkdownSuffix} {suffix : Octets} (h : s.text? = some suffix) : SuffixText suffix := by
  have hdecode : ∀ y, Percent.decode y = y →
      ∀ x, Percent.decode (x ++ Posix.dot :: y) = Percent.decode x ++ Posix.dot :: y := by
    intro y hy x
    rw [Percent.decode_append_cons (by decide), hy]
  cases s with
  | md => cases h; exact ⟨⟨_, rfl⟩, by decide, by decide, hdecode _ (by decide), by decide⟩
  | htmlMd => cases h; exact ⟨⟨_, rfl⟩, by decide, by decide, hdecode _ (by decide), by decide⟩
  | index => cases h

theorem SuffixText.ne_nil {suffix : Octets} (h : SuffixText suffix) : suffix ≠ [] := by
  rintro rfl
  exact absurd h.length (by decide)

theorem at?_injective {s s' : MarkdownSuffix} {p q : Path} (h : s.at? p = some q) (h' : s'.at? p = some q) :
    s = s' := by
  rcases at?_cases h with ⟨suffix, before, name, hs, rfl, rfl⟩ | ⟨rfl, rfl⟩
  · rcases at?_cases h' with ⟨suffix', before', name', hs', hp, hq⟩ | ⟨_, hq⟩
    · obtain ⟨rfl, hname⟩ := List.append_inj' hp rfl
      simp only [List.cons.injEq, Posix.Component.normal.injEq, and_true] at hname
      subst hname
      simp only [List.append_cancel_left_eq, List.cons.injEq, Posix.Component.normal.injEq, and_true] at hq
      exact text?_injective hs (hq ▸ hs')
    · have := congrArg List.length hq
      simp at this
  · rcases at?_cases h' with ⟨_, _, _, _, rfl, hq⟩ | ⟨rfl, _⟩
    · have := congrArg List.length hq
      simp at this
    · rfl

theorem at?_first {test : Path → Bool} {p : Path} {s : MarkdownSuffix} (h : first test p = some s) :
    ∃ q, s.at? p = some q ∧ test q = true := by
  have hany := List.find?_some h
  exact (Option.any_eq_true _ _).mp hany

end MarkdownSuffix

/-! ## The code -/

def notDir (t : FileTree) (p : Path) : Bool := (tryPath t p).isSome

theorem tryPath_eq (t : FileTree) (p : Path) : tryPath t p = if notDir t p then some p else none := by
  unfold notDir tryPath
  split <;> rfl

theorem tryMarkdownVariant_eq (t : FileTree) (p : Path) :
    tryMarkdownVariant t p = (MarkdownSuffix.first (notDir t) p).bind (·.at? p) := by
  have htry : ∀ o : Option Path, o.bind (tryPath t) = if o.any (notDir t) then o else none := by
    intro o
    cases o with
    | none => rfl
    | some q => exact tryPath_eq t q
  have horder : tryMarkdownVariant t p = ((MarkdownSuffix.md.at? p).bind (tryPath t)).orElse fun _ =>
      ((MarkdownSuffix.htmlMd.at? p).bind (tryPath t)).orElse fun _ =>
        (MarkdownSuffix.index.at? p).bind (tryPath t) := by
    unfold tryMarkdownVariant MarkdownSuffix.at?
    cases Posix.Path.fileName p <;> rfl
  rw [horder, htry, htry, htry]
  unfold MarkdownSuffix.first MarkdownSuffix.all
  rw [List.find?_cons, List.find?_cons, List.find?_cons, List.find?_nil]
  cases hmd : (MarkdownSuffix.md.at? p).any (notDir t) with
  | true =>
      obtain ⟨q, hq, _⟩ := (Option.any_eq_true _ _).mp hmd
      rw [if_pos rfl, hq]
      exact hq.symm
  | false =>
      cases hhtml : (MarkdownSuffix.htmlMd.at? p).any (notDir t) with
      | true =>
          obtain ⟨q, hq, _⟩ := (Option.any_eq_true _ _).mp hhtml
          rw [if_neg (by decide), if_pos rfl, hq]
          exact hq.symm
      | false =>
          rw [if_neg (by decide), if_neg (by decide)]
          cases hindex : (MarkdownSuffix.index.at? p).any (notDir t) <;> rfl

/-- The paths that are looked at, up to the one that is found. -/
def probedPaths (t : FileTree) (p : Path) : List Path :=
  let paths := MarkdownSuffix.all.filterMap (·.at? p)
  paths.take (paths.findIdx (notDir t) + 1)

theorem markdownPreProcess_eq (haccept : accepts crates headers "text/markdown".toList = true) :
    markdownPreProcess crates t headers basePath uriPath =
      ((MarkdownSuffix.first (notDir t) (writtenPath basePath uriPath)).bind
        (·.at? (writtenPath basePath uriPath))).bind fun mdPath =>
          (Posix.Path.stripPrefix mdPath basePath).bind fun rel =>
            (relativeText rel).bind fun text => some ('/' :: text) := by
  unfold markdownPreProcess
  rw [haccept, if_neg (by decide), ← tryMarkdownVariant_eq]
  rfl

/-! ## Below the base -/

/-- How deep a path goes, as long as it does not climb out. -/
def staysBelow : Nat → Path → Bool
  | _, [] => true
  | depth, .normal _ :: rest => staysBelow (depth + 1) rest
  | depth, .curDir :: rest => staysBelow depth rest
  | depth + 1, .parentDir :: rest => staysBelow depth rest
  | 0, .parentDir :: _ => false
  | _, .rootDir :: _ => false

def IsBelow (basePath q : Path) : Prop := ∃ rel, q = basePath ++ rel ∧ staysBelow 0 rel = true

theorem staysBelow_append_normal (depth : Nat) (p : Path) (name : Name) :
    staysBelow depth (p ++ [.normal name]) = staysBelow depth p := by
  induction depth, p using staysBelow.induct with
  | case1 depth => rfl
  | case2 depth n rest ih => exact ih
  | case3 depth rest ih => exact ih
  | case4 depth rest ih => exact ih
  | case5 rest => rfl
  | case6 depth rest => cases depth <;> rfl

theorem isBelow_append {basePath rel : Path} : IsBelow basePath (basePath ++ rel) ↔ staysBelow 0 rel = true := by
  refine ⟨?_, fun h => ⟨rel, rfl, h⟩⟩
  rintro ⟨rel', hrel, h⟩
  rwa [List.append_cancel_left hrel]

/-- What is looked at lies below the base if the path does, and if there is a name to add to. -/
theorem isBelow_at?_iff {rel q : Path} {s : MarkdownSuffix} (h : s.at? (basePath ++ rel) = some q)
    (hrel : rel ≠ [] ∨ s = .index) : IsBelow basePath q ↔ staysBelow 0 rel = true := by
  rcases MarkdownSuffix.at?_cases h with ⟨suffix, before, name, hs, hp, rfl⟩ | ⟨rfl, rfl⟩
  · have hne : rel ≠ [] := by
      refine hrel.resolve_right ?_
      rintro rfl
      cases hs
    obtain ⟨init, c, rfl⟩ := (List.eq_nil_or_concat rel).resolve_left hne
    rw [List.concat_eq_append, ← List.append_assoc] at hp
    obtain ⟨rfl, hc⟩ := List.append_inj' hp rfl
    cases hc
    rw [List.concat_eq_append, List.append_assoc, isBelow_append, staysBelow_append_normal, staysBelow_append_normal]
  · rw [List.append_assoc, isBelow_append, staysBelow_append_normal]

/-- The base itself has its name changed. -/
theorem not_isBelow_at? {q : Path} {s : MarkdownSuffix} (h : s.at? basePath = some q) (hs : s ≠ .index) :
    ¬ ∃ rel, q = basePath ++ rel := by
  rcases MarkdownSuffix.at?_cases h with ⟨suffix, before, name, htext, rfl, rfl⟩ | ⟨rfl, _⟩
  · rintro ⟨rel, hrel⟩
    rw [List.append_assoc] at hrel
    have hname := List.append_cancel_left hrel
    rw [List.cons_append, List.nil_append, List.cons.injEq, Posix.Component.normal.injEq] at hname
    have hlength := (MarkdownSuffix.text?_spec htext).length
    rw [List.append_right_eq_self.mp hname.1] at hlength
    cases hlength
  · exact absurd rfl hs

theorem mem_probedPaths {p q : Path} (h : q ∈ probedPaths t p) : ∃ s : MarkdownSuffix, s.at? p = some q := by
  obtain ⟨s, _, hs⟩ := List.mem_filterMap.mp (List.mem_of_mem_take h)
  exact ⟨s, hs⟩

/-- Some path is always looked at: where the path has a name, it is one with another name. -/
theorem exists_probedPath (t : FileTree) (p : Path) : ∃ (s : MarkdownSuffix) (q : Path), q ∈ probedPaths t p ∧
    s.at? p = some q ∧ (s = .index → Posix.Path.fileName p = none) := by
  have hhead : ∀ (q : Path) (rest : List Path), MarkdownSuffix.all.filterMap (·.at? p) = q :: rest →
      q ∈ probedPaths t p := by
    intro q rest h
    unfold probedPaths
    dsimp only
    rw [h, List.take_succ_cons]
    exact List.mem_cons_self
  cases hname : Posix.Path.fileName p with
  | some name =>
      have hmd : MarkdownSuffix.md.at? p = some (Posix.Path.setFileName p (name ++ Posix.utf8 ".md".toList)) := by
        unfold MarkdownSuffix.at?
        rw [hname]
        rfl
      exact ⟨.md, _, hhead _ _ (List.filterMap_cons_some hmd), hmd, nofun⟩
  | none =>
      have hnone : ∀ s : MarkdownSuffix, s ≠ .index → s.at? p = none := by
        intro s hs
        cases s with
        | md => unfold MarkdownSuffix.at?; rw [hname]; rfl
        | htmlMd => unfold MarkdownSuffix.at?; rw [hname]; rfl
        | index => exact absurd rfl hs
      refine ⟨.index, _, hhead _ [] ?_, MarkdownSuffix.at?_index p, fun _ => rfl⟩
      unfold MarkdownSuffix.all
      rw [List.filterMap_cons_none (hnone .md (by decide)), List.filterMap_cons_none (hnone .htmlMd (by decide)),
        List.filterMap_cons_some (MarkdownSuffix.at?_index p)]
      rfl

/-- Nothing outside the base is looked at exactly when the written path stays below it and has a name there. -/
theorem probedPaths_isBelow_iff (t : FileTree) (basePath rel : Path) :
    (∀ q ∈ probedPaths t (basePath ++ rel), IsBelow basePath q) ↔
      staysBelow 0 rel = true ∧ (rel = [] → Posix.Path.fileName basePath = none) := by
  obtain ⟨s, q, hq, hs, hindex⟩ := exists_probedPath t (basePath ++ rel)
  refine ⟨fun h => ?_, ?_⟩
  · have hname : rel = [] → Posix.Path.fileName basePath = none := by
      rintro rfl
      rw [List.append_nil] at hs hindex
      refine hindex (not_not.mp fun hne => not_isBelow_at? hs hne ?_)
      exact (h q hq).imp fun _ hrel => hrel.1
    refine ⟨(isBelow_at?_iff hs ?_).mp (h q hq), hname⟩
    by_cases hrel : rel = []
    · right
      subst hrel
      rw [List.append_nil] at hs
      exact not_not.mp fun hne => not_isBelow_at? hs hne ((h q hq).imp fun _ hrel => hrel.1)
    · exact .inl hrel
  · rintro ⟨hbelow, hname⟩ q hq
    obtain ⟨s, hs⟩ := mem_probedPaths hq
    refine (isBelow_at?_iff hs ?_).mpr hbelow
    by_cases hrel : rel = []
    · right
      subst hrel
      rw [List.append_nil] at hs
      rcases MarkdownSuffix.at?_cases hs with ⟨_, before, name, _, hp, _⟩ | ⟨rfl, _⟩
      · have hnone := hname rfl
        rw [hp, Posix.Path.fileName_append_normal] at hnone
        cases hnone
      · rfl
    · exact .inl hrel

/-! ## Back to a URI path -/

theorem sanitize_relativeText (basePath : Path) {init : Path} {name : Name} (htext : IsText (init ++ [.normal name]))
    (hne : name ≠ []) (hlast : name.getLast? ≠ some Posix.slash) :
    ∃ text, relativeText (init ++ [.normal name]) = some text ∧
      Text.endsWith ('/' :: text) '/' = false ∧ sanitizePath basePath ('/' :: text) =
        basePath ++ (decodedComponents init ++ Posix.Path.names (Percent.decode name)).map .normal := by
  obtain ⟨text, htext, hnames, hbytes⟩ := relativeText_spec htext
  refine ⟨text, htext, endsWith_relativeText hne hlast hbytes, ?_⟩
  have hdecoded : decodedNames ('/' :: text) = decodedNames text := Static.decodedNames_append_slash [] text
  rw [Static.sanitizePath_eq, hdecoded, hnames, decodedComponents_append]
  exact congrArg (fun names => basePath ++ (decodedComponents init ++ names).map Posix.Component.normal)
    (List.append_nil _)

/-- An answered index file is looked for behind the sanitized path. -/
theorem at?_sanitized_index {rel : Path} (htext : IsText rel) (hnames : decodedComponents rel = decodedNames uriPath) :
    ∃ text, relativeText (rel ++ [.normal MarkdownSuffix.indexName]) = some text ∧
      Text.endsWith ('/' :: text) '/' = false ∧
      ∀ s : MarkdownSuffix, s.at? (sanitizePath basePath uriPath) = some (sanitizePath basePath ('/' :: text)) ↔
        s = .index := by
  have hindexed : IsText (rel ++ [.normal MarkdownSuffix.indexName]) := by
    intro name hname
    rcases List.mem_append.mp hname with hname | hname
    · exact htext name hname
    · cases List.mem_singleton.mp hname
      exact ⟨_, rfl⟩
  obtain ⟨text, hanswer, hend, hsanitized⟩ := sanitize_relativeText basePath hindexed (by decide) (by decide)
  have hat : MarkdownSuffix.index.at? (sanitizePath basePath uriPath) = some (sanitizePath basePath ('/' :: text)) := by
    have hindex : Posix.Path.names (Percent.decode MarkdownSuffix.indexName) = [MarkdownSuffix.indexName] := by decide
    rw [hsanitized, hindex, hnames, MarkdownSuffix.at?_index, Static.sanitizePath_eq, List.map_append,
      List.append_assoc]
    rfl
  refine ⟨text, hanswer, hend, fun s => ⟨fun h => MarkdownSuffix.at?_injective h hat, ?_⟩⟩
  rintro rfl
  exact hat

/-- A file with a longer name is looked for with the last name that the decoding leaves, if it leaves one. -/
theorem at?_sanitized_suffix {init : Path} {name suffix : Name} {s : MarkdownSuffix} (hsuffix : s.text? = some suffix)
    (htext : IsText (init ++ [.normal name]))
    (hnames : decodedComponents (init ++ [.normal name]) = decodedNames uriPath) :
    ∃ text, relativeText (init ++ [.normal (name ++ suffix)]) = some text ∧ Text.endsWith ('/' :: text) '/' = false ∧
      ∀ s' : MarkdownSuffix, s'.at? (sanitizePath basePath uriPath) = some (sanitizePath basePath ('/' :: text)) ↔
        s' = s ∧ (Posix.Path.lastName? (Percent.decode name)).isSome = true := by
  have hspec := MarkdownSuffix.text?_spec hsuffix
  have hsuffixed : IsText (init ++ [.normal (name ++ suffix)]) := htext.append_suffix hspec.text
  have hlast : (name ++ suffix).getLast? ≠ some Posix.slash := by
    rw [List.getLast?_append_of_ne_nil _ hspec.ne_nil]
    exact fun h => hspec.slash (List.mem_of_getLast? h)
  obtain ⟨text, hanswer, hend, hsanitized⟩ := sanitize_relativeText basePath hsuffixed
    (fun h => hspec.ne_nil (List.append_eq_nil_iff.mp h).2) hlast
  refine ⟨text, hanswer, hend, fun s' => ?_⟩
  have hlasts := Posix.Path.names_append_suffix hspec.slash hspec.length (Percent.decode name)
  have hlone : decodedComponents [.normal name] = Posix.Path.names (Percent.decode name) := List.append_nil _
  rw [hsanitized, Static.sanitizePath_eq, ← hnames, hspec.decode, decodedComponents_append, hlone]
  cases hname : Posix.Path.lastName? (Percent.decode name) with
  | some z =>
      rw [hname] at hlasts
      obtain ⟨before, hplain, hlong⟩ := hlasts
      have hat : s.at? (basePath ++ (decodedComponents init ++ (before ++ [z])).map .normal) =
          some (basePath ++ (decodedComponents init ++ (before ++ [z ++ suffix])).map .normal) := by
        simp only [List.map_append, List.map_cons, List.map_nil, ← List.append_assoc]
        exact MarkdownSuffix.at?_of_text hsuffix _ _
      rw [hplain, hlong]
      refine ⟨fun h => ⟨MarkdownSuffix.at?_injective h hat, rfl⟩, ?_⟩
      rintro ⟨rfl, _⟩
      exact hat
  | none =>
      rw [hname] at hlasts
      obtain ⟨dots, hdots, hlong⟩ := hlasts
      rw [hlong]
      simp only [List.map_append, List.map_cons, List.map_nil, ← List.append_assoc]
      refine ⟨fun h => ?_, fun h => by cases h.2⟩
      rcases MarkdownSuffix.at?_cases h with ⟨_, _, _, _, hp, hq⟩ | ⟨_, hq⟩
      · have hlen := congrArg List.length hq
        rw [hp] at hlen
        simp at hlen
      · simp only [List.append_cancel_left_eq, List.cons.injEq, Posix.Component.normal.injEq, and_true] at hq
        exact absurd hq (hspec.index dots hdots)

/-- Beside the sanitized path, the file that is answered stands where it was found, when the name that was lengthened
is the last name of the decoded path too. Otherwise it stands in none of the three places. -/
theorem at?_sanitized_iff {rel q : Path} {s : MarkdownSuffix} (htext : IsText rel)
    (hnames : decodedComponents rel = decodedNames uriPath) (hs : s.at? (basePath ++ rel) = some q)
    (hrel : rel ≠ [] ∨ s = .index) : ∃ relq text, Posix.Path.stripPrefix q basePath = some relq ∧
      relativeText relq = some text ∧ Text.endsWith ('/' :: text) '/' = false ∧
      ∀ s' : MarkdownSuffix, s'.at? (sanitizePath basePath uriPath) = some (sanitizePath basePath ('/' :: text)) ↔
        s' = s ∧ (s ≠ .index → ∀ name, Posix.Path.fileName (basePath ++ rel) = some name →
          (Posix.Path.lastName? (Percent.decode name)).isSome = true) := by
  rcases MarkdownSuffix.at?_cases hs with ⟨suffix, before, name, hsuffix, hp, rfl⟩ | ⟨rfl, rfl⟩
  · have hindex : s ≠ .index := by
      rintro rfl
      cases hsuffix
    obtain ⟨init, c, rfl⟩ := (List.eq_nil_or_concat rel).resolve_left (hrel.resolve_right hindex)
    rw [List.concat_eq_append] at htext hnames hp ⊢
    rw [← List.append_assoc] at hp ⊢
    obtain ⟨rfl, hc⟩ := List.append_inj' hp rfl
    cases hc
    obtain ⟨text, hanswer, hend, hiff⟩ := at?_sanitized_suffix hsuffix htext hnames
    refine ⟨_, text, Posix.Path.stripPrefix_eq_some.mpr (List.append_assoc _ _ _), hanswer, hend, fun s' => ?_⟩
    rw [hiff, Posix.Path.fileName_append_normal]
    refine and_congr_right fun _ => ⟨fun h _ name' hname => ?_, fun h => h hindex name rfl⟩
    rwa [← Option.some.inj hname]
  · obtain ⟨text, hanswer, hend, hiff⟩ := at?_sanitized_index htext hnames
    refine ⟨_, text, Posix.Path.stripPrefix_eq_some.mpr (List.append_assoc _ _ _), hanswer, hend, fun s' => ?_⟩
    rw [hiff]
    exact ⟨fun h => ⟨h, fun hne => absurd rfl hne⟩, fun h => h.1⟩

end WeaveGate.Handler
