import WeaveGate.Lib.Glob
import WeaveGate.Settings.Types

/-!
# Sources of rewrites and redirects

The sources are globs. `settings/mod.rs` turns each into a regular expression, so that what its parts match can be
put into the destination, by replacing texts in the expression that `globset` compiles the glob to.
-/

namespace WeaveGate.Settings

open Http

/-! ## Entries of the configuration file (`settings/file.rs`) -/

structure RewritesEntry where
  source : Str
  destination : Str
  redirect : Option RedirectsKind

structure RedirectsEntry where
  host : Option Str
  source : Str
  destination : Str
  kind : RedirectsKind

def RedirectsKind.asU16 : RedirectsKind → Nat
  | permanent => 301
  | temporary => 302

def statusFromU16 (n : Nat) : Option StatusCode :=
  if h : 100 ≤ n ∧ n < 1000 then some ⟨n, h⟩ else none

/-! ## Compiling -/

/-- What the crates decide: which globs are accepted with `literal_separator(true)` and what they match, the text
of a glob's own regular expression, and which texts `regex_lite` compiles. -/
structure PatternCrates where
  globs : GlobSet
  globRegex : GlobMatcher → Str
  regexAccepts : Str → Bool
  regex : RegexLite

def regexEquivalent (globRegex : Str) : Str :=
  let trimmed := Text.trimStartStr "(?-u)".toList globRegex
  let unmarkedAny := Text.replace "?:.*".toList ".*".toList trimmed
  let unmarked := Text.replace "?:".toList [] unmarkedAny
  Text.replace ".*.*".toList ".*".toList unmarked

variable (C : PatternCrates)

def compileSource (option source : Str) : Except Error Regex :=
  if C.globs.accepts source then
    let pattern := regexEquivalent (C.globRegex ⟨source⟩)
    if C.regexAccepts pattern then .ok ⟨pattern⟩
    else .error ("can not compile regex pattern equivalent for ".toList ++ option ++ " source: ".toList ++ pattern)
  else .error ("can not compile glob pattern for ".toList ++ option ++ " source: ".toList ++ source)

def compileRewrite (entry : RewritesEntry) : Except Error Rewrites := do
  let source ← compileSource C "rewrite".toList entry.source
  return ⟨source, entry.destination, entry.redirect⟩

def compileRedirect (entry : RedirectsEntry) : Except Error Redirects := do
  let source ← compileSource C "redirect".toList entry.source
  let statusCode := entry.kind.asU16
  match statusFromU16 statusCode with
  | none => .error ("invalid redirect status code: ".toList ++ Nat.toDigits 10 statusCode)
  | some kind => return ⟨entry.host, source, entry.destination, kind⟩

def rewritesEntries : Option (List RewritesEntry) → Except Error (Option (List Rewrites))
  | some entries => do return some (← entries.mapM (compileRewrite C))
  | none => .ok none

def redirectsEntries : Option (List RedirectsEntry) → Except Error (Option (List Redirects))
  | some entries => do return some (← entries.mapM (compileRedirect C))
  | none => .ok none

end WeaveGate.Settings
