import WeaveGate.Handler.Theorems.Placeholders
import WeaveGate.Lib.GlobGroups
import WeaveGate.Settings.Theorems.Patterns

/-!
# What the captures of a source stand for
-/

namespace WeaveGate.Handler

open Http Settings
open Glob (Token Splits constructs numbersAll regexp)

/-! ## What the crates promise -/

/-- What a match captures: the whole path, and for each numbered group what it took. -/
structure Captured (C : PatternCrates) (r : Regexp) (path : Str) (caps : List (Option Str))
    (taken : Regexp.Taken) : Prop where
  captures : C.regex.captures ⟨r.anchored⟩ path = some caps
  takes : Regexp.Takes (· ≠ 0x0A) r (Settings.codes path) taken
  texts : caps.map (Option.map Settings.codes) = some (Settings.codes path) :: taken

/-- `regex_lite` also says of a match what the groups took in it. -/
structure CapturesRegexps (C : PatternCrates) (fits : Regexp → Prop) : Prop extends CompilesRegexps C fits where
  captures {r : Regexp} {path : Str} (halt : r.isAlt = false) (hr : r.WellFormed) (hfits : fits r)
    (hpath : Settings.IsAscii path) (hmatch : C.regex.isMatch ⟨r.anchored⟩ path = true) :
    ∃ caps taken, Captured C r path caps taken

/-! ## The groups are the constructs -/

/-- There is one group for each construct of the glob. The path can be split among the tokens so that each group has
what its construct takes, and these texts are put in for the placeholders. -/
structure Numbers (C : PatternCrates) (tokens : List Token) (regex : Regex) (path : Str)
    (caps : List (Option Str)) : Prop where
  captures : C.regex.captures regex path = some caps
  length : caps.length = 1 + constructs tokens
  splits : ∃ taken, Splits tokens (Settings.codes path) taken ∧
    caps.map (Option.map Settings.codes) = some (Settings.codes path) :: taken
  destinations (crates : Crates) (hcrates : crates.regex = C.regex) (dest : Str)
    (hdest : SingleDigits (constructs tokens) dest) :
    replacePlaceholders crates path regex dest = .ok (substitute (caps.map fun cap => cap.getD []) dest)

/-- Rewrites and redirects with the glob as their source compile, and number its constructs. -/
structure CapturesConstructs (C : PatternCrates) (tokens : List Token) (glob path : Str) : Prop where
  rewrite (entry : RewritesEntry) (h : entry.source = glob) :
    ∃ r caps, compileRewrite C entry = .ok r ∧ Numbers C tokens r.source path caps
  redirect (entry : RedirectsEntry) (h : entry.source = glob) :
    ∃ r caps, compileRedirect C entry = .ok r ∧ Numbers C tokens r.source path caps

variable {C : PatternCrates} {tokens : Str → List Token} {fits : Regexp → Prop}

/-- What is captured of a path that the glob matches, for any glob whose source compiles to its numbered expression. -/
theorem exists_captures (hglobs : TranslatesGlobs C tokens) (hregex : CapturesRegexps C fits) {glob path : Str}
    (haccepts : C.globs.accepts glob = true) (hfits : fits (regexp (tokens glob)).capture)
    (hpath : path.all isPathChar = true) (hmatch : C.globs.isMatch ⟨glob⟩ path = true) :
    ∃ caps taken, Captured C (regexp (tokens glob)).capture path caps taken := by
  obtain ⟨halt, hwf⟩ := Glob.regexp_wellFormed (tokens glob)
  have hsame := sameMatches_capture hglobs hregex.toCompilesRegexps haccepts hfits path hpath
  exact hregex.captures ((Regexp.isAlt_capture _).trans halt) hwf.capture hfits (isAscii_of_path hpath)
    (hsame.trans hmatch)

theorem numbers_of_captured {r : Regexp} {ts : List Token} {path : Str} {caps : List (Option Str)}
    {taken : Regexp.Taken} (h : Captured C r path caps taken) (hsplits : Splits ts (Settings.codes path) taken) :
    Numbers C ts ⟨r.anchored⟩ path caps := by
  have hlength : caps.length = 1 + constructs ts := by
    have hlen := congrArg List.length h.texts
    rw [List.length_map, List.length_cons, hsplits.length] at hlen
    omega
  refine ⟨h.captures, hlength, ⟨taken, hsplits, h.texts⟩, fun crates hcrates dest hdest => ?_⟩
  rw [replacePlaceholders, hcrates, h.captures]
  exact congrArg Except.ok (replacePatterns_eq_substitute (by rw [List.length_map, hlength, Nat.add_comm]) hdest)

/-- The number of captures tells the globs with a group for each construct from the others. -/
theorem exists_numbers_iff {ts : List Token} {path : Str} (hpath : path.all isPathChar = true)
    (h : ∃ caps taken, Captured C (regexp ts).capture path caps taken) :
    (∃ caps, Numbers C ts ⟨(regexp ts).capture.anchored⟩ path caps) ↔ numbersAll ts = true := by
  obtain ⟨caps, taken, hcaptured⟩ := h
  constructor
  · rintro ⟨caps', hnumbers⟩
    obtain rfl := Option.some.inj (hcaptured.captures.symm.trans hnumbers.captures)
    have hlen := congrArg List.length hcaptured.texts
    rw [List.length_map, List.length_cons, hcaptured.takes.length, hnumbers.length] at hlen
    exact (Glob.groups_eq_constructs_iff ts).mp (by omega)
  · intro hall
    have hascii : Glob.IsAscii (Settings.codes path) := by
      intro x hx
      obtain ⟨c, hc, rfl⟩ := List.mem_map.mp hx
      exact isAscii_of_path hpath c hc
    exact ⟨caps, numbers_of_captured hcaptured (Glob.splits_of_takes hall hascii hcaptured.takes)⟩

/-! ## The crates on two globs -/

/-- As the sample crates, with the letter behind the slash captured. -/
def capturingCrates : PatternCrates :=
  { Settings.sampleCrates with
    regex := {
      isMatch := Settings.sampleCrates.regex.isMatch
      captures := fun regex path =>
        if Settings.sampleCrates.regex.isMatch regex path then some [some path, some (path.drop 1)] else none } }

theorem capturingCrates_translatesGlobs : TranslatesGlobs capturingCrates sampleTokens :=
  ⟨sampleCrates_translatesGlobs.regex_eq, sampleCrates_translatesGlobs.isMatch_iff⟩

theorem takes_choice {any : Nat → Prop} {path : Str} (h : path = "/a".toList ∨ path = "/b".toList) :
    Regexp.Takes any (regexp (sampleTokens choiceGlob)).capture (Settings.codes path)
      [some (Settings.codes (path.drop 1))] := by
  have hslash : Regexp.Takes any (.seq (.unit 0x2F) .empty) [0x2F] [] := .seq (.unit _) .empty
  have hletter : ∀ u, Regexp.Takes any (.seq (.seq (.unit u) .empty) .empty) [u] [] := fun u =>
    .seq (.seq (.unit u) .empty) .empty
  rcases h with rfl | rfl
  · exact .seq hslash (.seq (.numbered (.altLeft _ (hletter 0x61))) .empty)
  · exact .seq hslash (.seq (.numbered (.altRight _ (hletter 0x62))) .empty)

theorem capturingCrates_capturesRegexps : CapturesRegexps capturingCrates sampleFits where
  accepts := sampleCrates_compilesRegexps.accepts
  isMatch_iff := sampleCrates_compilesRegexps.isMatch_iff
  captures := by
    rintro r path halt hr rfl hpath hmatch
    have hlang := (sampleCrates_compilesRegexps.isMatch_iff halt hr rfl hpath).mp hmatch
    rw [Regexp.lang_capture, mem_lang_choice, codes_inj, codes_inj] at hlang
    exact ⟨_, _, ⟨if_pos hmatch, takes_choice hlang, rfl⟩⟩

/-! ## Which globs -/

/-- Every glob in whose expression no escaped question mark stands before a colon: its groups are its constructs when
no choice is without a text and it is not `**` alone. -/
theorem capturesConstructs_iff (hglobs : TranslatesGlobs C tokens) (hregex : CapturesRegexps C fits) {glob path : Str}
    (haccepts : C.globs.accepts glob = true) (hmark : Text.contains (C.globRegex ⟨glob⟩) escapedMark = false)
    (hfits : fits (regexp (tokens glob)).capture) (hpath : path.all isPathChar = true)
    (hmatch : C.globs.isMatch ⟨glob⟩ path = true) :
    CapturesConstructs C (tokens glob) glob path ↔ numbersAll (tokens glob) = true := by
  have hcompile := compileSource_of_noMark hglobs hregex.toCompilesRegexps haccepts hmark hfits
  have hiff := exists_numbers_iff hpath (exists_captures hglobs hregex haccepts hfits hpath hmatch)
  constructor
  · intro h
    obtain ⟨r, caps, hr, hnumbers⟩ := h.rewrite ⟨glob, [], none⟩ rfl
    obtain ⟨r', hr', hsource⟩ : ∃ r, compileRewrite C ⟨glob, [], none⟩ = .ok r ∧ r.source = _ :=
      compileRewrite_of_compileSource (hcompile _)
    obtain rfl := Except.ok.inj (hr.symm.trans hr')
    rw [hsource] at hnumbers
    exact hiff.mp ⟨caps, hnumbers⟩
  · intro hall
    obtain ⟨caps, hnumbers⟩ := hiff.mpr hall
    constructor
    · rintro entry rfl
      obtain ⟨r, hr, hsource⟩ := compileRewrite_of_compileSource (hcompile _)
      exact ⟨r, caps, hr, hsource ▸ hnumbers⟩
    · rintro entry rfl
      obtain ⟨r, hr, hsource⟩ := compileRedirect_of_compileSource (hcompile _)
      exact ⟨r, caps, hr, hsource ▸ hnumbers⟩

theorem capturesConstructs_iff_choice :
    CapturesConstructs capturingCrates (sampleTokens choiceGlob) choiceGlob "/a".toList ↔
      numbersAll (sampleTokens choiceGlob) = true :=
  capturesConstructs_iff capturingCrates_translatesGlobs capturingCrates_capturesRegexps (by decide) (by decide) rfl
    (by decide) (by decide)

/-- The class `[\\?:]` loses its end, so that no expression is left to capture anything. -/
theorem mark_not_captured :
    TranslatesGlobs capturingCrates sampleTokens ∧ CapturesRegexps capturingCrates sampleFits ∧
      capturingCrates.globs.accepts markGlob = true ∧ "/:".toList.all isPathChar = true ∧
      capturingCrates.globs.isMatch ⟨markGlob⟩ "/:".toList = true ∧
      ¬ CapturesConstructs capturingCrates (sampleTokens markGlob) markGlob "/:".toList := by
  refine ⟨capturingCrates_translatesGlobs, capturingCrates_capturesRegexps, by decide, by decide, by decide,
    fun h => ?_⟩
  have hpattern : regexEquivalent (capturingCrates.globRegex ⟨markGlob⟩) = "^/[\\]$".toList := by decide
  have hopen : ¬ capturingCrates.regexAccepts "^/[\\]$".toList = true := by decide
  obtain ⟨r, _, hr, _⟩ := h.rewrite ⟨markGlob, [], none⟩ rfl
  unfold compileRewrite compileSource at hr
  dsimp only at hr
  rw [if_pos (by decide), hpattern, if_neg hopen] at hr
  cases hr

end WeaveGate.Handler
