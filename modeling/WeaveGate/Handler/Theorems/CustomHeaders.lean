import WeaveGate.Handler.Lemmas.Vary
import WeaveGate.Handler.Theorems

/-!
# Custom headers

Which entries apply to a response, and the path that their patterns are matched against.
-/

namespace WeaveGate.Handler

open Http Settings
open Posix (Octets Path FileTree Name)
open Static (Body sanitizePath)

variable {crates : Crates} {t : FileTree} {opts : RequestHandlerOpts} {req : Request Body} {resp : Response Body}
  {basePath : Path} {filePath : Option Path} {path : Str}

/-! ## What an entry should apply to -/

/-- The fields of all entries that match a path, in order. -/
def matchingFields (globs : GlobSet) (entries : Option (List Headers)) (path : Str) : HeaderMap :=
  ((entries.getD []).filter fun entry => globs.isMatch entry.source path).flatMap fun entry => entry.headers

/-- Whatever the entries are, those that match `path` apply, the last one of a name wins, and nothing else changes. -/
def AppliesTo (crates : Crates) (opts : RequestHandlerOpts) (req : Request Body) (resp : Response Body)
    (filePath : Option Path) (path : Str) : Prop :=
  ∀ adv : Advanced,
    let resp' := customHeadersPostProcess crates { opts with advancedOpts := some adv } req resp filePath
    resp'.status = resp.status ∧ resp'.body = resp.body ∧
      ∀ name, resp'.headers.getAll name =
        (((matchingFields crates.globs adv.headers path).getAll name).getLast?.map ([·])).getD
          (resp.headers.getAll name)

/-- The path of a response: that of the request when it names a file, or when no file is known, and for a directory
that is served through an index file the path of that file. -/
inductive ResponsePath (crates : Crates) (t : FileTree) (opts : RequestHandlerOpts) (basePath : Path)
    (req : Request Body) (resp : Response Body) : Option Path → Str → Prop
  | unknown : ResponsePath crates t opts basePath req resp none req.uri.path
  | file {p : Path} (hfile : t.isDir (sanitizePath basePath req.uri.path) = false)
      (hname : Posix.Path.fileName p ≠ some []) :
      ResponsePath crates t opts basePath req resp (some p) req.uri.path
  /-- The index file is there, or a variant of it, and the response is no redirect. -/
  | index {name : Name} {text : Str} (hdir : t.isDir (sanitizePath basePath req.uri.path) = true)
      (hindex : t.isFile (sanitizePath basePath req.uri.path ++ [.normal name]) = true ∨
        (Static.variantOf crates.static t req.headers opts.compressionStatic
          (sanitizePath basePath req.uri.path ++ [.normal name])).isSome = true)
      (hserved : resp.status ≠ .permanentRedirect) (htext : Utf8.decode name = some text) :
      ResponsePath crates t opts basePath req resp (some (sanitizePath basePath req.uri.path ++ [.normal name]))
        (Text.trimEndMatches '/' req.uri.path ++ '/' :: text)

/-! ## The path that the code matches against -/

theorem customFields_eq (adv : Advanced) :
    customFields crates { opts with advancedOpts := some adv } req filePath =
      matchingFields crates.globs adv.headers (effectiveUriPath req.uri.path filePath opts.redirectTrailingSlash) := rfl

theorem appliesTo_effectiveUriPath (crates : Crates) (opts : RequestHandlerOpts) (req : Request Body)
    (resp : Response Body) (filePath : Option Path) :
    AppliesTo crates opts req resp filePath (effectiveUriPath req.uri.path filePath opts.redirectTrailingSlash) := by
  intro adv
  have hchanges : ChangesOnly _ resp
      (customHeadersPostProcess crates { opts with advancedOpts := some adv } req resp filePath) :=
    customHeadersPostProcess_changes filePath resp
  refine ⟨hchanges.status, hchanges.body, fun name => ?_⟩
  rw [customHeadersPostProcess_getAll, customFields_eq]

/-- One entry with one field. -/
def oneEntry (source : GlobMatcher) (name : HeaderName) (value : HeaderValue) : Advanced :=
  { headers := some [⟨source, [(name, value)]⟩], rewrites := none, redirects := none, virtualHosts := none
    proxies := none, proxyDefs := none, routesBootstrap := none
    proxySettings := { proxyFirst := false, maxUpgradeTunnels := none }, memoryCache := none }

theorem matchingFields_oneEntry (globs : GlobSet) (source : GlobMatcher) (name : HeaderName) (value : HeaderValue)
    (path : Str) : matchingFields globs (oneEntry source name value).headers path =
      if globs.isMatch source path then [(name, value)] else [] := by
  show ([Headers.mk source [(name, value)]].filter fun entry => globs.isMatch entry.source path).flatMap _ = _
  cases h : globs.isMatch source path <;> simp [h]

/-- The entries tell two paths apart when there is a pattern that does. -/
theorem appliesTo_iff (hglobs : ∀ a b, a ≠ b → ∃ source, crates.globs.isMatch source a ≠ crates.globs.isMatch source b)
    (path : Str) : AppliesTo crates opts req resp filePath path ↔
      effectiveUriPath req.uri.path filePath opts.redirectTrailingSlash = path := by
  refine ⟨fun h => ?_, fun h => h ▸ appliesTo_effectiveUriPath crates opts req resp filePath⟩
  by_contra hne
  obtain ⟨source, hsource⟩ := hglobs _ _ hne
  let name : HeaderName := HeaderName.location
  let value : HeaderValue := (resp.headers.getAll name).flatten ++ [0x61]
  have hvalue : resp.headers.getAll name ≠ [value] := by
    intro hsame
    have hlength := congrArg (List.length ∘ List.flatten) hsame
    simp [value] at hlength
  have hpath := (h (oneEntry source name value)).2.2 name
  have heffective := (appliesTo_effectiveUriPath crates opts req resp filePath (oneEntry source name value)).2.2 name
  rw [hpath, matchingFields_oneEntry, matchingFields_oneEntry] at heffective
  cases hleft : crates.globs.isMatch source (effectiveUriPath req.uri.path filePath opts.redirectTrailingSlash) with
  | true =>
      have hright : crates.globs.isMatch source path = false := by
        rw [hleft] at hsource
        simpa using Ne.symm hsource
      rw [hleft, hright] at heffective
      exact hvalue (by simpa using heffective)
  | false =>
      have hright : crates.globs.isMatch source path = true := by
        rw [hleft] at hsource
        simpa using Ne.symm hsource
      rw [hleft, hright] at heffective
      exact hvalue (by simpa using heffective.symm)

/-! ## When it is the path of the response -/

theorem trimEndMatches_eq_self (s : Str) : Text.trimEndMatches '/' s = s ↔ Text.endsWith s '/' = false := by
  unfold Text.trimEndMatches Text.endsWith
  rw [List.rdropWhile_eq_self_iff, decide_eq_false_iff_not]
  cases s with
  | nil => simp
  | cons c s => simp [List.getLast?_eq_some_getLast]

def JoinsOnce (t : FileTree) (basePath : Path) (uriPath : Str) (redirectTrailingSlash : Bool) :
    Option Path → Prop
  | none => True
  | some p =>
      if t.isDir (sanitizePath basePath uriPath) then
        uriPath = ['/'] ∨ Text.endsWith uriPath '/' = false ∧ redirectTrailingSlash = false
      else (Text.endsWith uriPath '/' = false ∧ redirectTrailingSlash = true) ∨
        (Posix.Path.fileName p).bind Utf8.decode = none

theorem effectiveUriPath_some {uriPath : Str} {p : Path} {redirectTrailingSlash : Bool} {text : Str}
    (h : (Posix.Path.fileName p).bind Utf8.decode = some text) :
    effectiveUriPath uriPath (some p) redirectTrailingSlash =
      if Text.endsWith uriPath '/' || !redirectTrailingSlash then
        if uriPath = ['/'] then '/' :: text else uriPath ++ '/' :: text
      else uriPath := by
  unfold effectiveUriPath
  cases Text.endsWith uriPath '/' || !redirectTrailingSlash <;> simp [Option.filter, h]

theorem effectiveUriPath_none {uriPath : Str} {p : Path} {redirectTrailingSlash : Bool}
    (h : (Posix.Path.fileName p).bind Utf8.decode = none) :
    effectiveUriPath uriPath (some p) redirectTrailingSlash = uriPath := by
  unfold effectiveUriPath
  cases Text.endsWith uriPath '/' || !redirectTrailingSlash <;> simp [Option.filter, h]

theorem ne_append_slash (s text : Str) : s ++ '/' :: text ≠ s := by
  intro h
  have hlength := congrArg List.length h
  simp at hlength

theorem effectiveUriPath_file_iff {uriPath : Str} {p : Path} {redirectTrailingSlash : Bool}
    (hname : Posix.Path.fileName p ≠ some []) : effectiveUriPath uriPath (some p) redirectTrailingSlash = uriPath ↔
      (Text.endsWith uriPath '/' = false ∧ redirectTrailingSlash = true) ∨
        (Posix.Path.fileName p).bind Utf8.decode = none := by
  cases htext : (Posix.Path.fileName p).bind Utf8.decode with
  | none => exact ⟨fun _ => .inr rfl, fun _ => effectiveUriPath_none htext⟩
  | some text =>
      have hne : text ≠ [] := by
        rintro rfl
        obtain ⟨name, hp, hdecode⟩ := Option.bind_eq_some_iff.mp htext
        rw [hp, Utf8.decode_eq_nil hdecode] at hname
        exact hname rfl
      rw [effectiveUriPath_some htext]
      cases hjoined : Text.endsWith uriPath '/' || !redirectTrailingSlash with
      | true =>
          rw [if_pos rfl]
          refine ⟨fun h => ?_, fun h => ?_⟩
          · by_cases hroot : uriPath = ['/']
            · rw [if_pos hroot, hroot, List.cons.injEq] at h
              exact absurd h.2 hne
            · rw [if_neg hroot] at h
              exact absurd h (ne_append_slash _ _)
          · rcases h with ⟨hend, hredirect⟩ | h
            · rw [hend, hredirect] at hjoined
              cases hjoined
            · cases h
      | false =>
          rw [if_neg (by decide)]
          rw [Bool.or_eq_false_iff, Bool.not_eq_false'] at hjoined
          exact ⟨fun _ => .inl hjoined, fun _ => rfl⟩

theorem effectiveUriPath_index_iff {uriPath text : Str} {p : Path} {redirectTrailingSlash : Bool}
    (hname : (Posix.Path.fileName p).bind Utf8.decode = some text) :
    effectiveUriPath uriPath (some p) redirectTrailingSlash = Text.trimEndMatches '/' uriPath ++ '/' :: text ↔
      uriPath = ['/'] ∨ Text.endsWith uriPath '/' = false ∧ redirectTrailingSlash = false := by
  rw [effectiveUriPath_some hname]
  by_cases hroot : uriPath = ['/']
  · rw [hroot]
    exact ⟨fun _ => .inl rfl, fun _ => rfl⟩
  · rw [if_neg hroot]
    have htrim := trimEndMatches_eq_self uriPath
    cases hend : Text.endsWith uriPath '/' with
    | true =>
        rw [Bool.true_or, if_pos rfl, List.append_left_inj]
        refine ⟨fun h => ?_, fun h => ?_⟩
        · rw [htrim.mp h.symm] at hend
          cases hend
        · rcases h with h | h
          · exact absurd h hroot
          · cases h.1
    | false =>
        rw [htrim.mpr hend]
        cases redirectTrailingSlash with
        | true =>
            refine ⟨fun h => absurd h.symm (ne_append_slash _ _), fun h => ?_⟩
            rcases h with h | h
            · exact absurd h hroot
            · cases h.2
        | false => exact ⟨fun _ => .inr ⟨rfl, rfl⟩, fun _ => rfl⟩

theorem effectiveUriPath_eq_iff (h : ResponsePath crates t opts basePath req resp filePath path) :
    effectiveUriPath req.uri.path filePath opts.redirectTrailingSlash = path ↔
      JoinsOnce t basePath req.uri.path opts.redirectTrailingSlash filePath := by
  cases h with
  | unknown => exact ⟨fun _ => trivial, fun _ => rfl⟩
  | @file p hfile hname =>
      rw [effectiveUriPath_file_iff hname, JoinsOnce, hfile, if_neg (by decide)]
  | @index name text hdir _ _ htext =>
      have hname : (Posix.Path.fileName (sanitizePath basePath req.uri.path ++ [.normal name])).bind Utf8.decode =
          some text := by rw [Posix.Path.fileName_append_normal, Option.bind_some, htext]
      rw [effectiveUriPath_index_iff hname, JoinsOnce, hdir, if_pos rfl]

/-- The entries that match the path of a response apply to it, and nothing else changes, exactly when the code puts
the path together as it is. -/
theorem custom_headers_iff
    (hglobs : ∀ a b, a ≠ b → ∃ source, crates.globs.isMatch source a ≠ crates.globs.isMatch source b)
    (h : ResponsePath crates t opts basePath req resp filePath path) :
    AppliesTo crates opts req resp filePath path ↔
      JoinsOnce t basePath req.uri.path opts.redirectTrailingSlash filePath :=
  (appliesTo_iff hglobs path).trans (effectiveUriPath_eq_iff h)

/-- Patterns of plain characters. -/
def literalCrates : Crates := { sampleCrates with globs := ⟨fun _ => true, fun source path => source.glob = path⟩ }

def directoryRequest (path : Str) (hp : path.all isPathChar = true) : Request Body :=
  { method := .get, uri := (Proxy.getRequest [] path none hp PathAndQuery.legal_none).uri, headers := []
    body := .full [] }

def indexPath : Path := Posix.canonPath [Static.named "srv", Static.named "e", Static.named "index.html"]

/-- `/e` has an index file, and there is no redirect. -/
theorem custom_headers_without_slash :
    AppliesTo literalCrates { sampleOpts with redirectTrailingSlash := false } (directoryRequest "/e".toList rfl)
      (Response.new Body.empty) (some indexPath) "/e/index.html".toList := by
  have hglobs : ∀ a b, a ≠ b →
      ∃ source, literalCrates.globs.isMatch source a ≠ literalCrates.globs.isMatch source b := by
    intro a b hab
    refine ⟨⟨a⟩, fun h => hab ?_⟩
    have hsame : decide (a = a) = decide (a = b) := h
    simpa using hsame.symm
  have hpath : ResponsePath literalCrates Static.linkedIndex { sampleOpts with redirectTrailingSlash := false }
      (Posix.canonPath [Static.named "srv"]) (directoryRequest "/e".toList rfl) (Response.new Body.empty)
      (some (Posix.canonPath [Static.named "srv", Static.named "e"] ++ [.normal (Static.named "index.html")]))
      "/e/index.html".toList :=
    .index (by decide +kernel) (.inl (by decide +kernel)) (by decide) (by decide)
  exact (custom_headers_iff hglobs hpath).mpr (.inr ⟨rfl, rfl⟩)

/-- With a slash, an entry for the path of the index file misses it. -/
theorem custom_headers_double_slash :
    ResponsePath literalCrates Static.linkedIndex sampleOpts (Posix.canonPath [Static.named "srv"])
      (directoryRequest "/e/".toList rfl) (Response.new Body.empty) (some indexPath) "/e/index.html".toList ∧
    ¬ AppliesTo literalCrates sampleOpts (directoryRequest "/e/".toList rfl) (Response.new Body.empty)
      (some indexPath) "/e/index.html".toList := by
  refine ⟨?_, fun h => ?_⟩
  · show ResponsePath _ _ _ _ _ _
      (some (Posix.canonPath [Static.named "srv", Static.named "e"] ++ [.normal (Static.named "index.html")])) _
    exact .index (by decide +kernel) (.inl (by decide +kernel)) (by decide) (by decide)
  · have hvalue := (h (oneEntry ⟨"/e/index.html".toList⟩ .location (Static.named "x"))).2.2 .location
    exact absurd hvalue (by decide +kernel)

end WeaveGate.Handler
