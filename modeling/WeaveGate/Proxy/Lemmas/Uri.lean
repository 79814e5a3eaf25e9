import WeaveGate.Http.UriParser
import WeaveGate.Proxy.Forward
import WeaveGate.Proxy.Lemmas.Rules

/-!
# The upstream URI

What is left of the path and query after the strip-prefix, and the text of the URI that is built from it.
-/

namespace WeaveGate.Proxy

open Http Settings

/-! ## Removing a prefix at a segment boundary -/

def AtOrBelow (pre path : Str) : Prop := path = pre ∨ pre ++ ['/'] <+: path

instance (pre path : Str) : Decidable (AtOrBelow pre path) := inferInstanceAs (Decidable (_ ∨ _))

/-- The path without a prefix at or above it, the whole path otherwise. Slashes at the end of the prefix do
not count. -/
def pathAfterPrefix (pre : Option Str) (path : Str) : Str :=
  match pre with
  | none => path
  | some s =>
      let s' := Text.trimEndMatches '/' s
      if AtOrBelow s' path then
        let rest := path.drop s'.length
        if rest = [] then ['/'] else rest
      else path

/-- The cases in which stripping the text of the path and query strips whole segments of the path. -/
def StripsSegments (s path : Str) (query : Option Str) : Prop :=
  let s' := Text.trimEndMatches '/' s
  (¬ s <+: path ++ PathAndQuery.queryText query ∧ (s' = [] ∨ ¬ AtOrBelow s' path)) ∨
  (s = s' ∧ (path = s ∧ query = none ∨ s ++ ['/'] <+: path)) ∨
  (s = s' ++ ['/'] ∧ path = s ∧ query = none)

theorem startsWith_iff {s : Str} {c : Char} : Text.startsWith s c = true ↔ ∃ rest, s = c :: rest := by
  cases s with
  | nil => simp [Text.startsWith]
  | cons d rest => simp [Text.startsWith, eq_comm]

theorem queryText_head {query : Option Str} {c : Char} {rest : Str}
    (h : PathAndQuery.queryText query = c :: rest) : c = '?' := by
  cases query with
  | none => cases h
  | some q =>
      cases h
      rfl

theorem pathAfterPrefix_legal {pre : Option Str} {path : Str} (hp : path.all isPathChar = true) :
    (pathAfterPrefix pre path).all isPathChar = true := by
  unfold pathAfterPrefix
  cases pre with
  | none => exact hp
  | some s =>
      dsimp only
      split
      · split
        · decide
        · exact List.all_eq_true.mpr fun c hc => List.all_eq_true.mp hp c (List.mem_of_mem_drop hc)
      · exact hp

theorem pathAfterPrefix_eq_self_iff {s path : Str} (hp : Text.startsWith path '/' = true) :
    pathAfterPrefix (some s) path = path ↔
      Text.trimEndMatches '/' s = [] ∨ ¬ AtOrBelow (Text.trimEndMatches '/' s) path := by
  simp only [pathAfterPrefix]
  have hend := Text.trimEndMatches_getLast? '/' s
  generalize Text.trimEndMatches '/' s = s' at hend ⊢
  by_cases h : AtOrBelow s' path
  · simp only [h, if_true, not_true_eq_false, or_false]
    constructor
    · intro heq
      split at heq
      · rename_i hr
        rcases h with rfl | ⟨rest, rfl⟩
        · rw [← heq] at hend
          exact absurd rfl hend
        · simp at hr
      · by_contra hne
        have hlen := congrArg List.length heq
        have hpos := List.length_pos_iff.mpr hne
        rcases h with rfl | ⟨rest, rfl⟩
        · simp only [List.drop_length, List.length_nil] at hlen
          omega
        · rw [List.append_assoc, List.drop_left] at hlen
          simp only [List.length_append] at hlen
          omega
    · rintro rfl
      obtain ⟨rest, rfl⟩ := startsWith_iff.mp hp
      simp
  · simp [h]

/-! ## Stripping the text -/

theorem requireSlash_eq_ok {x y : Str} :
    requireSlash x = .ok y ↔ x = [] ∧ y = ['/'] ∨ Text.startsWith x '/' = true ∧ y = x := by
  unfold requireSlash
  by_cases hx : x = []
  · simp [hx, Text.startsWith, eq_comm]
  · by_cases hs : Text.startsWith x '/' = true
    · simp only [hx, hs, if_false, if_true, Except.ok.injEq, false_and, true_and, false_or, eq_comm]
    · simp only [hx, hs, if_false, false_and, or_false, reduceCtorEq]

theorem strippedPathAndQuery_append (s rest : Str) : strippedPathAndQuery (some s) (s ++ rest) = rest := by
  simp [strippedPathAndQuery, Text.stripPrefix_append]

theorem strippedPathAndQuery_of_not_starts {s text : Str} (hs : ¬ s <+: text) :
    strippedPathAndQuery (some s) text = text := by
  have hnone : Text.stripPrefix text s = none := by
    cases h : Text.stripPrefix text s with
    | none => rfl
    | some rest => exact absurd ⟨rest, (Text.stripPrefix_eq_some.mp h).symm⟩ hs
  simp [strippedPathAndQuery, hnone]

theorem atOrBelow_iff {pre path : Str} :
    AtOrBelow pre path ↔ ∃ r, path = pre ++ r ∧ (r = [] ∨ Text.startsWith r '/' = true) := by
  constructor
  · rintro (rfl | ⟨rest, rfl⟩)
    · exact ⟨[], by simp, .inl rfl⟩
    · exact ⟨'/' :: rest, by simp, .inr rfl⟩
  · rintro ⟨r, rfl, rfl | hr⟩
    · exact .inl (by simp)
    · obtain ⟨rest, rfl⟩ := startsWith_iff.mp hr
      exact .inr ⟨rest, by simp⟩

theorem pathAfterPrefix_append {s r : Str} (hr : r = [] ∨ Text.startsWith r '/' = true) :
    pathAfterPrefix (some s) (Text.trimEndMatches '/' s ++ r) = if r = [] then ['/'] else r := by
  have h : AtOrBelow (Text.trimEndMatches '/' s) (Text.trimEndMatches '/' s ++ r) := atOrBelow_iff.mpr ⟨r, rfl, hr⟩
  simp only [pathAfterPrefix, h, if_true, List.drop_left]

/-- Below a prefix, the text and the path lose the same characters when at most one slash goes with the
prefix, and that only at the very end. -/
theorem requireSlash_below_iff {r rest : Str} {n : Nat} {query : Option Str}
    (hr : r = [] ∨ Text.startsWith r '/' = true)
    (heq : r ++ PathAndQuery.queryText query = List.replicate n '/' ++ rest) :
    requireSlash rest = .ok ((if r = [] then ['/'] else r) ++ PathAndQuery.queryText query) ↔
      n = 0 ∧ (r = [] ∧ query = none ∨ Text.startsWith r '/' = true) ∨ n = 1 ∧ r = ['/'] ∧ query = none := by
  have hlen := congrArg List.length heq
  simp only [List.length_append, List.length_replicate] at hlen
  rw [requireSlash_eq_ok]
  constructor
  · rintro (⟨rfl, hy⟩ | ⟨_, hy⟩)
    · have hy' := congrArg List.length hy
      by_cases hnil : r = []
      · simp only [hnil, if_true, List.length_append, List.length_cons, List.length_nil] at hy' hlen
        refine .inl ⟨by omega, .inl ⟨hnil, ?_⟩⟩
        cases query with
        | none => rfl
        | some q => simp [PathAndQuery.queryText] at hy'
      · have hpos := List.length_pos_iff.mpr hnil
        simp only [hnil, if_false, List.length_append, List.length_cons, List.length_nil] at hy' hlen
        cases query with
        | none => exact .inr ⟨by omega, by simpa [hnil, PathAndQuery.queryText] using hy, rfl⟩
        | some q =>
            simp [PathAndQuery.queryText] at hy'
            omega
    · have hy' := congrArg List.length hy
      by_cases hnil : r = []
      · simp only [hnil, if_true, List.length_append, List.length_cons, List.length_nil] at hy' hlen
        omega
      · simp only [hnil, if_false, List.length_append] at hy' hlen
        exact .inl ⟨by omega, .inr (hr.resolve_left hnil)⟩
  · rintro (⟨rfl, ⟨rfl, rfl⟩ | hstart⟩ | ⟨rfl, rfl, rfl⟩)
    · exact .inl ⟨heq.symm, rfl⟩
    · obtain ⟨t, rfl⟩ := startsWith_iff.mp hstart
      refine .inr ⟨?_, by simpa using heq⟩
      rw [← show '/' :: t ++ PathAndQuery.queryText query = rest from heq]
      rfl
    · refine .inl ⟨?_, by simp [PathAndQuery.queryText]⟩
      simpa [PathAndQuery.queryText] using heq

theorem stripsSegments_of_below {s r : Str} {n : Nat} {query : Option Str}
    (hn : s = Text.trimEndMatches '/' s ++ List.replicate n '/')
    (hpre : s <+: (Text.trimEndMatches '/' s ++ r) ++ PathAndQuery.queryText query) :
    StripsSegments s (Text.trimEndMatches '/' s ++ r) query ↔
      n = 0 ∧ (r = [] ∧ query = none ∨ Text.startsWith r '/' = true) ∨ n = 1 ∧ r = ['/'] ∧ query = none := by
  have hlen := congrArg List.length hn
  simp only [List.length_append, List.length_replicate] at hlen
  constructor
  · rintro (⟨hnot, _⟩ | ⟨hs, h⟩ | ⟨hs, hp, hq⟩)
    · exact absurd hpre hnot
    · have hn0 : n = 0 := by
        have := congrArg List.length hs
        omega
      refine .inl ⟨hn0, ?_⟩
      rcases h with ⟨hp, hq⟩ | ⟨t, ht⟩
      · refine .inl ⟨?_, hq⟩
        rw [← hs] at hp
        simpa using hp
      · rw [← hs, List.append_assoc, List.append_cancel_left_eq] at ht
        exact .inr (startsWith_iff.mpr ⟨t, ht.symm⟩)
    · have hn1 : n = 1 := by
        have := congrArg List.length hs
        simp only [List.length_append, List.length_cons, List.length_nil] at this
        omega
      exact .inr ⟨hn1, List.append_cancel_left (hp.trans hs), hq⟩
  · rintro (⟨rfl, h⟩ | ⟨rfl, rfl, rfl⟩)
    · have hs : s = Text.trimEndMatches '/' s := by simpa using hn
      refine .inr (.inl ⟨hs, ?_⟩)
      rcases h with ⟨rfl, rfl⟩ | hstart
      · exact .inl ⟨by simpa using hs.symm, rfl⟩
      · obtain ⟨t, rfl⟩ := startsWith_iff.mp hstart
        exact .inr ⟨t, by rw [← hs]; simp⟩
    · exact .inr (.inr ⟨hn, hn.symm, rfl⟩)

theorem stripsSegments_strips {s path : Str} {query : Option Str}
    (h : s = Text.trimEndMatches '/' s ∧ (path = s ∧ query = none ∨ s ++ ['/'] <+: path) ∨
      s = Text.trimEndMatches '/' s ++ ['/'] ∧ path = s ∧ query = none) :
    s <+: path ++ PathAndQuery.queryText query ∧ AtOrBelow (Text.trimEndMatches '/' s) path := by
  rcases h with ⟨hs, ⟨rfl, _⟩ | ⟨t, rfl⟩⟩ | ⟨hs, rfl, _⟩
  · exact ⟨List.prefix_append _ _, .inl hs⟩
  · exact ⟨⟨'/' :: t ++ PathAndQuery.queryText query, by simp⟩, .inr ⟨t, by rw [← hs]⟩⟩
  · exact ⟨List.prefix_append _ _, .inr ⟨[], by rw [← hs, List.append_nil]⟩⟩

/-- The text and the path lose the same characters exactly when whole segments are stripped. -/
theorem requireSlash_stripped_iff {s path : Str} {query : Option Str} (hs : Text.startsWith s '/' = true)
    (hp : Text.startsWith path '/' = true) :
    requireSlash (strippedPathAndQuery (some s) (path ++ PathAndQuery.queryText query)) =
        .ok (pathAfterPrefix (some s) path ++ PathAndQuery.queryText query) ↔ StripsSegments s path query := by
  obtain ⟨n, hn⟩ := Text.trimEndMatches_append_replicate '/' s
  by_cases hpre : s <+: path ++ PathAndQuery.queryText query
  · by_cases hbelow : AtOrBelow (Text.trimEndMatches '/' s) path
    · obtain ⟨r, rfl, hr⟩ := atOrBelow_iff.mp hbelow
      rw [stripsSegments_of_below hn hpre, pathAfterPrefix_append hr]
      obtain ⟨rest, hrest⟩ := hpre
      rw [← hrest, strippedPathAndQuery_append]
      refine requireSlash_below_iff hr ?_
      rw [hn, List.append_assoc, ← hn, List.append_assoc, List.append_cancel_left_eq] at hrest
      exact hrest.symm
    · have hself := (pathAfterPrefix_eq_self_iff hp).mpr (.inr hbelow)
      rw [hself]
      refine iff_of_false ?_ fun h => hbelow (stripsSegments_strips (h.resolve_left fun h => h.1 hpre)).2
      obtain ⟨rest, hrest⟩ := hpre
      rw [← hrest, strippedPathAndQuery_append, requireSlash_eq_ok]
      obtain ⟨t, rfl⟩ := startsWith_iff.mp hs
      rintro (⟨rfl, hroot⟩ | ⟨_, hroot⟩)
      · rw [List.append_nil] at hroot
        refine hbelow (atOrBelow_iff.mpr ⟨path, ?_, .inr hp⟩)
        rw [hroot]
        rfl
      · have := congrArg List.length hroot
        simp at this
        omega
  · rw [strippedPathAndQuery_of_not_starts hpre, requireSlash_eq_ok]
    obtain ⟨t, rfl⟩ := startsWith_iff.mp hp
    simp only [List.cons_append, reduceCtorEq, false_and, false_or]
    rw [← List.cons_append, List.append_cancel_right_eq, pathAfterPrefix_eq_self_iff hp]
    constructor
    · rintro ⟨_, h⟩
      exact .inl ⟨hpre, h⟩
    · intro h
      exact ⟨rfl, (h.resolve_right fun h => hpre (stripsSegments_strips h).1).2⟩

/-! ## Building the URI -/

theorem upstreamUriTemplate_accepted {parseUri : Str → Option Uri} {url context : Str} {target : Uri}
    {pre : Option Str} {template : UpstreamUriTemplate} (h : parseProxyTargetUrl parseUri url context = .ok target)
    (ht : upstreamUriTemplate target pre = .ok template) :
    ∃ scheme authority, parseUri (Text.trim url) = some target ∧ target.scheme = some scheme ∧
      target.authority = some authority ∧ template.origin = scheme ++ "://".toList ++ authority ∧
      template.basePath = (if target.path = [] then ['/'] else target.path) ∧ template.stripPrefix = pre := by
  have hparse := (parseProxyTargetUrl_eq_ok.mp h).1
  unfold upstreamUriTemplate at ht
  split at ht
  · cases ht
  · cases ht
  · rename_i authority scheme ha hs
    cases ht
    exact ⟨scheme, authority, hparse, hs, ha, rfl, rfl, rfl⟩

theorem mergedPath_eq (template : UpstreamUriTemplate) (x : Str) :
    mergedPath template x = Text.trimEndMatches '/' template.basePath ++ x := by
  unfold mergedPath
  split
  · rename_i h
    rcases h with h | h <;> simp [h, Text.trimEndMatches]
  · rfl

theorem startsWith_append {s x : Str} (hs : s = [] ∨ Text.startsWith s '/' = true)
    (hx : Text.startsWith x '/' = true) : Text.startsWith (s ++ x) '/' = true := by
  rcases hs with rfl | hs
  · exact hx
  · obtain ⟨t, rfl⟩ := startsWith_iff.mp hs
    rfl

theorem startsWith_trimEndMatches {s : Str} (hs : Text.startsWith s '/' = true) :
    Text.trimEndMatches '/' s = [] ∨ Text.startsWith (Text.trimEndMatches '/' s) '/' = true := by
  obtain ⟨n, hn⟩ := Text.trimEndMatches_append_replicate '/' s
  cases ht : Text.trimEndMatches '/' s with
  | nil => exact .inl rfl
  | cons c t =>
      rw [hn, ht] at hs
      exact .inr hs

theorem mem_of_mem_trimEndMatches {s : Str} {c d : Char} (h : d ∈ Text.trimEndMatches c s) : d ∈ s := by
  obtain ⟨n, hn⟩ := Text.trimEndMatches_append_replicate c s
  rw [hn]
  exact List.mem_append_left _ h

theorem mem_of_mem_strippedPathAndQuery {pre : Option Str} {s : Str} {c : Char}
    (h : c ∈ strippedPathAndQuery pre s) : c ∈ s := by
  unfold strippedPathAndQuery at h
  split at h
  · rename_i p
    cases hs : Text.stripPrefix s p with
    | none => simpa [hs] using h
    | some rest =>
        rw [hs] at h
        rw [Text.stripPrefix_eq_some.mp hs]
        exact List.mem_append_right _ h
  · exact h

theorem asStr_eq {uri : Uri} {pq : PathAndQuery} (h : uri.pathAndQuery = some pq)
    (hraw : pq.rawPath = [] → uri.query = none) :
    pq.asStr = uri.path ++ PathAndQuery.queryText uri.query := by
  have hq : uri.query = pq.query := by simp [Uri.query, h]
  rw [hq] at hraw ⊢
  simp only [PathAndQuery.asStr, Uri.path, h, Option.elim_some, PathAndQuery.path]
  by_cases hp : pq.rawPath = []
  · simp [hp, hraw hp, PathAndQuery.queryText]
  · simp [hp]

theorem path_legal (uri : Uri) : uri.path.all isPathChar = true := by
  cases h : uri.pathAndQuery with
  | none => simp [Uri.path, h]
  | some pq =>
      simp only [Uri.path, h, Option.elim_some, PathAndQuery.path]
      split
      · decide
      · exact pq.path_legal

/-- What a template keeps of the target it was made from. -/
structure TemplateAt (parseUri : Str → Option Uri) (scheme authority : Str) (template : UpstreamUriTemplate) :
    Prop where
  origin_eq : template.origin = scheme ++ "://".toList ++ authority
  base_absolute : Text.startsWith template.basePath '/' = true
  base_legal : template.basePath.all isPathChar = true
  parse_eq : ∀ x, Text.startsWith x '/' = true → '#' ∉ x → parseUri (template.origin ++ x) =
    if Text.len (template.origin ++ x) ≤ maxLen then
      (PathAndQuery.parse x).map fun pq => ⟨some scheme, some authority, some pq⟩
    else none

variable {parseUri : Str → Option Uri}

theorem TemplateAt.of_accepted (hparse : AbsoluteUris parseUri) {url context : Str} {target : Uri}
    {pre : Option Str} {template : UpstreamUriTemplate} (h : parseProxyTargetUrl parseUri url context = .ok target)
    (ht : upstreamUriTemplate target pre = .ok template) :
    (∃ scheme authority, target.scheme = some scheme ∧ target.authority = some authority ∧
      TemplateAt parseUri scheme authority template) ∧ template.basePath = target.path ∧
      template.stripPrefix = pre := by
  obtain ⟨scheme, authority, htext, hs, ha, ho, hb, hpre⟩ := upstreamUriTemplate_accepted h ht
  have habs := hparse.path_absolute htext (by rw [hs]; rfl) (by rw [ha]; rfl)
  have hbase : template.basePath = target.path := by
    rw [hb, if_neg]
    rintro hnil
    rw [hnil] at habs
    cases habs
  refine ⟨⟨scheme, authority, hs, ha, ho, hbase ▸ habs, hbase ▸ path_legal target, fun x hx hfrag => ?_⟩, hbase, hpre⟩
  rw [ho]
  split
  case isTrue hlen => exact hparse.origin htext hs ha hx hfrag hlen
  case isFalse hlen => exact hparse.too_long (Nat.lt_of_not_le hlen)

theorem TemplateAt.build_eq {scheme authority : Str} {template : UpstreamUriTemplate}
    (ht : TemplateAt parseUri scheme authority template) {uri : Uri} {x : Str}
    (hx : requireSlash (strippedPathAndQuery template.stripPrefix (uri.pathAndQuery.elim ['/'] PathAndQuery.asStr)) =
      .ok x) :
    buildUpstreamUriFromTemplate parseUri template uri =
      (if Text.len (template.origin ++ (Text.trimEndMatches '/' template.basePath ++ x)) ≤ maxLen then
        (PathAndQuery.parse (Text.trimEndMatches '/' template.basePath ++ x)).map fun pq =>
          Uri.mk (some scheme) (some authority) (some pq)
      else none).elim
        (.error ("invalid upstream URI: ".toList ++ (template.origin ++ mergedPath template x))) .ok := by
  have hslash : Text.startsWith x '/' = true := by
    rcases requireSlash_eq_ok.mp hx with ⟨_, rfl⟩ | ⟨hs, rfl⟩
    · rfl
    · exact hs
  have hfrag : '#' ∉ Text.trimEndMatches '/' template.basePath ++ x := by
    intro hmem
    rcases List.mem_append.mp hmem with hmem | hmem
    · exact PathAndQuery.isPathChar_ne_hash
        (List.all_eq_true.mp ht.base_legal _ (mem_of_mem_trimEndMatches hmem)) rfl
    · rcases requireSlash_eq_ok.mp hx with ⟨_, rfl⟩ | ⟨_, rfl⟩
      · simp at hmem
      · have hmem := mem_of_mem_strippedPathAndQuery hmem
        cases hpq : uri.pathAndQuery with
        | none => simp [hpq] at hmem
        | some pq =>
            simp only [hpq, Option.elim_some, PathAndQuery.asStr] at hmem
            split at hmem
            · simp at hmem
            · exact PathAndQuery.hash_not_mem pq hmem
  have hstart := startsWith_append (startsWith_trimEndMatches ht.base_absolute) hslash
  unfold buildUpstreamUriFromTemplate
  rw [hx]
  simp only [bind, Except.bind]
  rw [mergedPath_eq, ht.parse_eq _ hstart hfrag]

/-- A URI that is built is read from the origin, the base path and what is left of the request's text. -/
theorem TemplateAt.built {scheme authority : Str} {template : UpstreamUriTemplate}
    (ht : TemplateAt parseUri scheme authority template) {uri u : Uri}
    (h : buildUpstreamUriFromTemplate parseUri template uri = .ok u) :
    ∃ x pq, requireSlash (strippedPathAndQuery template.stripPrefix
        (uri.pathAndQuery.elim ['/'] PathAndQuery.asStr)) = .ok x ∧
      Text.len (template.origin ++ (Text.trimEndMatches '/' template.basePath ++ x)) ≤ maxLen ∧
      PathAndQuery.parse (Text.trimEndMatches '/' template.basePath ++ x) = some pq ∧
      u = ⟨some scheme, some authority, some pq⟩ := by
  obtain ⟨x, hx, _⟩ := Checked.bind_eq_ok.mp h
  rw [ht.build_eq hx] at h
  split at h
  case isTrue hlen =>
      cases hpq : PathAndQuery.parse (Text.trimEndMatches '/' template.basePath ++ x) with
      | none => simp [hpq] at h
      | some pq =>
          rw [hpq] at h
          cases h
          exact ⟨x, pq, hx, hlen, hpq, rfl⟩
  case isFalse => cases h

theorem prefix_of_no_question {base x path : Str} {query : Option Str} (hbase : ∀ c ∈ base, c ≠ '?')
    (h : base ++ x = path ++ PathAndQuery.queryText query) : base <+: path := by
  rcases List.prefix_or_prefix_of_prefix ⟨x, h⟩ (List.prefix_append path _) with hpre | ⟨t, rfl⟩
  · exact hpre
  · cases t with
    | nil => exact ⟨[], by simp⟩
    | cons c t =>
        rw [List.append_assoc, List.append_cancel_left_eq] at h
        exact absurd (queryText_head h.symm) (hbase c (by simp))

/-- The path of the URI goes on below the base path, and nothing of the request gets in front of it. -/
theorem TemplateAt.build_parts {scheme authority : Str} {template : UpstreamUriTemplate}
    (ht : TemplateAt parseUri scheme authority template) {uri u : Uri}
    (h : buildUpstreamUriFromTemplate parseUri template uri = .ok u) :
    ∃ x, requireSlash (strippedPathAndQuery template.stripPrefix
        (uri.pathAndQuery.elim ['/'] PathAndQuery.asStr)) = .ok x ∧
      u.scheme = some scheme ∧ u.authority = some authority ∧
      Text.trimEndMatches '/' template.basePath <+: u.path ∧ u.query = Text.after? '?' x := by
  obtain ⟨x, pq, hx, _, hpq, rfl⟩ := ht.built h
  have hbase : ∀ c ∈ Text.trimEndMatches '/' template.basePath, c ≠ '?' := fun c hc =>
    PathAndQuery.isPathChar_ne_question (List.all_eq_true.mp ht.base_legal c (mem_of_mem_trimEndMatches hc))
  refine ⟨x, hx, rfl, rfl, ?_, ?_⟩
  · have hpath := prefix_of_no_question hbase (PathAndQuery.parse_eq_some hpq)
    simp only [Uri.path, Option.elim_some, PathAndQuery.path]
    split
    · rename_i hnil
      rw [hnil, List.prefix_nil] at hpath
      rw [hpath]
      exact List.nil_prefix
    · exact hpath
  · exact (PathAndQuery.parse_query hpq).trans (Text.after?_append hbase x)

theorem TemplateAt.toStr_build {scheme authority : Str} {template : UpstreamUriTemplate}
    (ht : TemplateAt parseUri scheme authority template) {uri u : Uri}
    (h : buildUpstreamUriFromTemplate parseUri template uri = .ok u) :
    ∃ x, requireSlash (strippedPathAndQuery template.stripPrefix
        (uri.pathAndQuery.elim ['/'] PathAndQuery.asStr)) = .ok x ∧
      u.toStr = template.origin ++ Text.trimEndMatches '/' template.basePath ++ x ∧ Text.len u.toStr ≤ maxLen := by
  obtain ⟨x, pq, hx, hlen, hpq, rfl⟩ := ht.built h
  have htext := PathAndQuery.parse_eq_some hpq
  have hraw : pq.rawPath ≠ [] := by
    intro hnil
    have hslash : Text.startsWith x '/' = true := by
      rcases requireSlash_eq_ok.mp hx with ⟨_, rfl⟩ | ⟨hs, rfl⟩
      · rfl
      · exact hs
    have hstart := startsWith_append (startsWith_trimEndMatches ht.base_absolute) hslash
    obtain ⟨t, hcons⟩ := startsWith_iff.mp hstart
    rw [htext, hnil, List.nil_append] at hcons
    cases queryText_head hcons
  have hwhole : (Uri.mk (some scheme) (some authority) (some pq)).toStr =
      template.origin ++ (Text.trimEndMatches '/' template.basePath ++ x) := by
    simp only [Uri.toStr, Uri.path, Uri.query, Option.elim_some, Option.getD_some, Option.bind_some,
      PathAndQuery.path, if_neg hraw, List.append_assoc, ht.origin_eq]
    rw [htext]
  exact ⟨x, hx, by rw [hwhole, List.append_assoc], hwhole ▸ hlen⟩

theorem TemplateAt.build_ok {scheme authority : Str} {template : UpstreamUriTemplate}
    (ht : TemplateAt parseUri scheme authority template) {uri : Uri} {path : Str} (hp : path.all isPathChar = true)
    (hx : requireSlash (strippedPathAndQuery template.stripPrefix (uri.pathAndQuery.elim ['/'] PathAndQuery.asStr)) =
      .ok (path ++ PathAndQuery.queryText uri.query))
    (hlen : Text.len (template.origin ++ Text.trimEndMatches '/' template.basePath ++
      (path ++ PathAndQuery.queryText uri.query)) ≤ maxLen) :
    ∃ u, buildUpstreamUriFromTemplate parseUri template uri = .ok u := by
  have hq : uri.query.all (·.all isQueryChar) = true := by
    cases h : uri.pathAndQuery with
    | none => simp [Uri.query, h]
    | some pq => simpa [Uri.query, h] using pq.query_legal
  have hb : (Text.trimEndMatches '/' template.basePath ++ path).all isPathChar = true := by
    rw [List.all_append, hp, Bool.and_true]
    exact List.all_eq_true.mpr fun c hc => List.all_eq_true.mp ht.base_legal c (mem_of_mem_trimEndMatches hc)
  rw [ht.build_eq hx, if_pos (by rwa [← List.append_assoc]), ← List.append_assoc, PathAndQuery.parse_append hb hq]
  exact ⟨_, rfl⟩

end WeaveGate.Proxy
