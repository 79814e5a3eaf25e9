import WeaveGate.Lib.Checked
import WeaveGate.Settings.Lemmas.Patterns

/-!
# The expression of a source matches what its glob matches
-/

namespace WeaveGate.Settings

open Http Glob

/-! ## What the crates promise -/

def IsAscii (s : Str) : Prop := ∀ c ∈ s, c.toNat < 0x80

def codes (s : Str) : List Nat := s.map Char.toNat

theorem codes_inj {s t : Str} : codes s = codes t ↔ s = t :=
  (List.map_injective_iff.mpr fun _ _ h => Char.toNat_inj.mp h).eq_iff

/-- `globset` compiles a glob to the expression of its tokens and matches it against bytes, with `.` for any. -/
structure TranslatesGlobs (C : PatternCrates) (tokens : Str → List Token) : Prop where
  regex_eq {glob : Str} (h : C.globs.accepts glob = true) : C.globRegex ⟨glob⟩ = regexText (tokens glob)
  isMatch_iff {glob path : Str} (h : C.globs.accepts glob = true) (hpath : IsAscii path) :
    C.globs.isMatch ⟨glob⟩ path = true ↔ codes path ∈ (regexp (tokens glob)).lang fun _ => True

/-- `regex_lite` compiles the expressions within its limits on size and nesting and matches them against characters,
with `.` for any but a line feed. -/
structure CompilesRegexps (C : PatternCrates) (fits : Regexp → Prop) : Prop where
  accepts {r : Regexp} (halt : r.isAlt = false) (hr : r.WellFormed) (hfits : fits r) :
    C.regexAccepts r.anchored = true
  isMatch_iff {r : Regexp} {path : Str} (halt : r.isAlt = false) (hr : r.WellFormed) (hfits : fits r)
    (hpath : IsAscii path) : C.regex.isMatch ⟨r.anchored⟩ path = true ↔ codes path ∈ r.lang (· ≠ 0x0A)

/-! ## The same matches -/

/-- On every path that a URI can have. -/
def SameMatches (C : PatternCrates) (glob : Str) (regex : Regex) : Prop :=
  ∀ path : Str, path.all isPathChar = true → C.regex.isMatch regex path = C.globs.isMatch ⟨glob⟩ path

/-- Rewrites and redirects with the glob as their source compile, to expressions that match what it matches. -/
structure DerivesEquivalent (C : PatternCrates) (glob : Str) : Prop where
  rewrite (entry : RewritesEntry) (h : entry.source = glob) :
    ∃ r, compileRewrite C entry = .ok r ∧ SameMatches C glob r.source
  redirect (entry : RedirectsEntry) (h : entry.source = glob) :
    ∃ r, compileRedirect C entry = .ok r ∧ SameMatches C glob r.source

theorem isPathChar_ascii {c : Char} (h : isPathChar c = true) : c.toNat < 0x80 ∧ c.toNat ≠ 0x0A := by
  simp only [isPathChar, Bool.or_eq_true, Bool.and_eq_true, decide_eq_true_eq] at h
  omega

theorem isAscii_of_path {path : Str} (h : path.all isPathChar = true) : IsAscii path := fun c hc =>
  (isPathChar_ascii (List.all_eq_true.mp h c hc)).1

theorem statusFromU16_asU16 (kind : RedirectsKind) : ∃ status, statusFromU16 kind.asU16 = some status := by
  cases kind <;> exact ⟨_, rfl⟩

variable {C : PatternCrates} {tokens : Str → List Token} {fits : Regexp → Prop}

theorem compileRewrite_of_compileSource {entry : RewritesEntry} {regex : Regex}
    (h : compileSource C "rewrite".toList entry.source = .ok regex) :
    ∃ r, compileRewrite C entry = .ok r ∧ r.source = regex := by
  refine ⟨⟨regex, entry.destination, entry.redirect⟩, ?_, rfl⟩
  rw [compileRewrite, h]
  rfl

theorem compileRedirect_of_compileSource {entry : RedirectsEntry} {regex : Regex}
    (h : compileSource C "redirect".toList entry.source = .ok regex) :
    ∃ r, compileRedirect C entry = .ok r ∧ r.source = regex := by
  obtain ⟨status, hstatus⟩ := statusFromU16_asU16 entry.kind
  refine ⟨⟨entry.host, regex, entry.destination, status⟩, ?_, rfl⟩
  rw [compileRedirect, h]
  simp only [bind, Except.bind, hstatus]
  rfl

/-- The replacements number the groups when there is no other mark to replace, and the result compiles. -/
theorem compileSource_of_noMark (hglobs : TranslatesGlobs C tokens) (hregex : CompilesRegexps C fits) {glob : Str}
    (haccepts : C.globs.accepts glob = true) (hmark : Text.contains (C.globRegex ⟨glob⟩) escapedMark = false)
    (hfits : fits (regexp (tokens glob)).capture) (option : Str) :
    compileSource C option glob = .ok ⟨(regexp (tokens glob)).capture.anchored⟩ := by
  obtain ⟨halt, hwf⟩ := regexp_wellFormed (tokens glob)
  have hpattern : regexEquivalent (C.globRegex ⟨glob⟩) = (regexp (tokens glob)).capture.anchored := by
    rw [hglobs.regex_eq haccepts] at hmark ⊢
    exact regexEquivalent_regexText (of_decide_eq_false hmark)
  have hcompiles := hregex.accepts ((Regexp.isAlt_capture _).trans halt) hwf.capture hfits
  unfold compileSource
  dsimp only
  rw [if_pos haccepts, hpattern, if_pos hcompiles]

/-- Both expressions are matched alike, since numbering a group does not change its language and no path has a line
feed in it. -/
theorem sameMatches_capture (hglobs : TranslatesGlobs C tokens) (hregex : CompilesRegexps C fits) {glob : Str}
    (haccepts : C.globs.accepts glob = true) (hfits : fits (regexp (tokens glob)).capture) :
    SameMatches C glob ⟨(regexp (tokens glob)).capture.anchored⟩ := by
  intro path hpath
  have hascii := isAscii_of_path hpath
  have hline : ∀ x ∈ codes path, x ≠ 0x0A ↔ True := by
    intro x hx
    obtain ⟨c, hc, rfl⟩ := List.mem_map.mp hx
    exact iff_true_intro (isPathChar_ascii (List.all_eq_true.mp hpath c hc)).2
  obtain ⟨halt, hwf⟩ := regexp_wellFormed (tokens glob)
  rw [Bool.eq_iff_iff, hregex.isMatch_iff ((Regexp.isAlt_capture _).trans halt) hwf.capture hfits hascii,
    Regexp.lang_capture, Regexp.mem_lang_congr _ hline, hglobs.isMatch_iff haccepts hascii]

/-! ## Whole sections of the configuration file -/

/-! ## The crates on two globs -/

/-- No class is left open. Inside and outside of one, what follows a backslash counts as text. -/
def closesClasses : Bool → Str → Bool
  | inside, '\\' :: _ :: s => closesClasses inside s
  | _, '[' :: s => closesClasses true s
  | _, ']' :: s => closesClasses false s
  | inside, _ :: s => closesClasses inside s
  | inside, [] => !inside

def markGlob : Str := "/[?:]".toList

def choiceGlob : Str := "/\x7ba,b\x7d".toList

def sampleTokens (glob : Str) : List Token :=
  if glob = markGlob then
    [.literal '/', .cls false [⟨'?', '?', Nat.le_refl _⟩, ⟨':', ':', Nat.le_refl _⟩] (List.cons_ne_nil _ _)]
  else [.literal '/', .alternates [[.literal 'a'], [.literal 'b']]]

def sampleCrates : PatternCrates where
  globs := {
    accepts glob := glob = markGlob || glob = choiceGlob
    isMatch m path :=
      if m.glob = markGlob then ["/?".toList, "/:".toList].contains path
      else ["/a".toList, "/b".toList].contains path }
  globRegex m := regexText (sampleTokens m.glob)
  regexAccepts := closesClasses false
  regex := {
    isMatch regex path := regex.pattern = "^/(a|b)$".toList && ["/a".toList, "/b".toList].contains path
    captures _ _ := none }

example : regexText (sampleTokens markGlob) = "(?-u)^/[\\?:]$".toList := by decide
example : regexText (sampleTokens choiceGlob) = "(?-u)^/(?:a|b)$".toList := by decide
example : regexEquivalent "(?-u)^/[\\?:]$".toList = "^/[\\]$".toList := by decide

theorem mem_lang_mark {any : Nat → Prop} {w : List Nat} :
    w ∈ (regexp (sampleTokens markGlob)).lang any ↔ w = codes "/?".toList ∨ w = codes "/:".toList := by
  have hregexp : regexp (sampleTokens markGlob) =
      .seq (.seq slash .empty) (.seq (.cls false [.single 0x3F, .single 0x3A]) .empty) := rfl
  have hcls : ∀ x, (∃ m ∈ [Regexp.Member.single 0x3F, .single 0x3A], m.Has x) ↔ x = 0x3F ∨ x = 0x3A := by
    simp [Regexp.Member.Has]
  rw [hregexp]
  simp only [Regexp.lang, slash, mul_one, Language.mem_mul, hcls]
  constructor
  · rintro ⟨_, rfl, _, ⟨_, ⟨x, rfl, hx⟩, _, rfl, rfl⟩, rfl⟩
    rcases hx.mpr trivial with rfl | rfl
    · exact .inl rfl
    · exact .inr rfl
  · rintro (rfl | rfl)
    · exact ⟨_, rfl, _, ⟨_, ⟨0x3F, rfl, iff_of_true (.inl rfl) trivial⟩, _, rfl, rfl⟩, rfl⟩
    · exact ⟨_, rfl, _, ⟨_, ⟨0x3A, rfl, iff_of_true (.inr rfl) trivial⟩, _, rfl, rfl⟩, rfl⟩

theorem mem_lang_choice {any : Nat → Prop} {w : List Nat} :
    w ∈ (regexp (sampleTokens choiceGlob)).lang any ↔ w = codes "/a".toList ∨ w = codes "/b".toList := by
  have hregexp : regexp (sampleTokens choiceGlob) =
      .seq (.seq slash .empty) (.seq (.group false (.alt (.seq (.seq (.unit 0x61) .empty) .empty)
        (.seq (.seq (.unit 0x62) .empty) .empty))) .empty) := rfl
  rw [hregexp]
  simp only [Regexp.lang, slash, mul_one, Language.mem_mul, Language.mem_add]
  constructor
  · rintro ⟨_, rfl, _, rfl | rfl, rfl⟩
    · exact .inl rfl
    · exact .inr rfl
  · rintro (rfl | rfl)
    · exact ⟨_, rfl, _, .inl rfl, rfl⟩
    · exact ⟨_, rfl, _, .inr rfl, rfl⟩

theorem sampleCrates_translatesGlobs : TranslatesGlobs sampleCrates sampleTokens where
  regex_eq _ := rfl
  isMatch_iff := by
    intro glob path h _
    have hglob : glob = markGlob ∨ glob = choiceGlob := by simpa [sampleCrates] using h
    have hne : choiceGlob ≠ markGlob := by decide
    rcases hglob with rfl | rfl
    · rw [mem_lang_mark, codes_inj, codes_inj]
      simp [sampleCrates]
    · rw [mem_lang_choice, codes_inj, codes_inj]
      simp [sampleCrates, hne]

def sampleFits (r : Regexp) : Prop := r = (regexp (sampleTokens choiceGlob)).capture

theorem sampleCrates_compilesRegexps : CompilesRegexps sampleCrates sampleFits where
  accepts := by
    rintro r - - rfl
    decide
  isMatch_iff := by
    rintro r path - - rfl -
    rw [Regexp.lang_capture, mem_lang_choice, codes_inj, codes_inj]
    have hpattern : (regexp (sampleTokens choiceGlob)).capture.anchored = "^/(a|b)$".toList := by decide
    simp [sampleCrates, hpattern]

/-! ## Which globs -/

/-- Every glob in whose expression no escaped question mark stands before a colon. -/
theorem derivesEquivalent_of_noMark (hglobs : TranslatesGlobs C tokens) (hregex : CompilesRegexps C fits) {glob : Str}
    (haccepts : C.globs.accepts glob = true) (hmark : Text.contains (C.globRegex ⟨glob⟩) escapedMark = false)
    (hfits : fits (regexp (tokens glob)).capture) : DerivesEquivalent C glob := by
  have hcompile := compileSource_of_noMark hglobs hregex haccepts hmark hfits
  have hsame := sameMatches_capture hglobs hregex haccepts hfits
  constructor
  · rintro entry rfl
    obtain ⟨r, hr, hsource⟩ := compileRewrite_of_compileSource (hcompile _)
    exact ⟨r, hr, hsource ▸ hsame⟩
  · rintro entry rfl
    obtain ⟨r, hr, hsource⟩ := compileRedirect_of_compileSource (hcompile _)
    exact ⟨r, hr, hsource ▸ hsame⟩

theorem derivesEquivalent_of_noMark_choice :
    sampleCrates.globs.accepts choiceGlob = true ∧ DerivesEquivalent sampleCrates choiceGlob :=
  ⟨by decide, derivesEquivalent_of_noMark sampleCrates_translatesGlobs sampleCrates_compilesRegexps (by decide)
    (by decide) rfl⟩

/-- The class `[\\?:]` loses its end to the backslash that is left over. -/
theorem mark_not_compiled :
    TranslatesGlobs sampleCrates sampleTokens ∧ sampleCrates.globs.accepts markGlob = true ∧
      sampleCrates.globs.isMatch ⟨markGlob⟩ "/:".toList = true ∧
      compileSource sampleCrates "rewrite".toList markGlob =
        .error ("can not compile regex pattern equivalent for ".toList ++ "rewrite".toList ++ " source: ".toList ++
          "^/[\\]$".toList) ∧
      ¬ DerivesEquivalent sampleCrates markGlob := by
  have hpattern : regexEquivalent (sampleCrates.globRegex ⟨markGlob⟩) = "^/[\\]$".toList := by decide
  have hopen : ¬ sampleCrates.regexAccepts "^/[\\]$".toList = true := by decide
  have hcompile : compileSource sampleCrates "rewrite".toList markGlob =
      .error ("can not compile regex pattern equivalent for ".toList ++ "rewrite".toList ++ " source: ".toList ++
        "^/[\\]$".toList) := by
    unfold compileSource
    dsimp only
    rw [if_pos (by decide), hpattern, if_neg hopen]
  refine ⟨sampleCrates_translatesGlobs, by decide, by decide, hcompile, fun h => ?_⟩
  obtain ⟨r, hr, _⟩ := h.rewrite ⟨markGlob, [], none⟩ rfl
  rw [compileRewrite, hcompile] at hr
  cases hr

end WeaveGate.Settings
