import Mathlib.Data.List.Find
import WeaveGate.Proxy.Lemmas.Headers
import WeaveGate.Proxy.Lemmas.Rules
import WeaveGate.Proxy.Lemmas.Uri

/-!
# The reverse proxy

Which rule a request takes, what its upstream URI reads, and which header fields cross the proxy.
-/

namespace WeaveGate.Proxy

open Http Settings

variable {globs : GlobSet} {parseUri : Str → Option Uri} {β : Type}

/-! ## The most specific rule -/

/-- A matching definition with the longest source, and with the fewest wildcards among those. -/
def IsMostSpecific (globs : GlobSet) (req : Request β) (defs : List Proxy) (d : Proxy) : Prop :=
  defMatches globs req d = true ∧ ∀ e ∈ defs, defMatches globs req e = true →
    Text.len e.source < Text.len d.source ∨
      Text.len e.source = Text.len d.source ∧ d.source.count '*' ≤ e.source.count '*'

instance (req : Request β) (defs : List Proxy) (d : Proxy) : Decidable (IsMostSpecific globs req defs d) :=
  inferInstanceAs (Decidable (_ ∧ _))

/-- The rule a request takes is compiled from the first of the most specific definitions. -/
def SelectsMostSpecific (globs : GlobSet) (parseUri : Str → Option Uri) (defs : List Proxy)
    (proxies : Option (List ProxyRule)) (req : Request β) : Prop :=
  ∀ rule, findRule globs proxies req = some rule →
    ∃ d, defs.find? (fun d => decide (IsMostSpecific globs req defs d)) = some d ∧
      compileProxyRule globs parseUri d = .ok rule

/-- The longest matching sources all have the same number of wildcards. -/
def LongestAgree (globs : GlobSet) (req : Request β) (defs : List Proxy) : Prop :=
  ∀ d ∈ defs, ∀ e ∈ defs, defMatches globs req d = true → defMatches globs req e = true →
    (∀ f ∈ defs, defMatches globs req f = true → Text.len f.source ≤ Text.len d.source) →
    Text.len e.source = Text.len d.source → e.source.count '*' = d.source.count '*'

theorem isBest_iff_isMostSpecific {req : Request β} {defs : List Proxy} (h : LongestAgree globs req defs)
    {d : Proxy} (hd : d ∈ defs) :
    StableSort.IsBest specificityLe (defMatches globs req) defs d ↔ IsMostSpecific globs req defs d := by
  constructor
  · rintro ⟨hm, hbest⟩
    refine ⟨hm, fun e he hme => ?_⟩
    have hmax : ∀ f ∈ defs, defMatches globs req f = true → Text.len f.source ≤ Text.len d.source := by
      intro f hf hmf
      have := specificityLe_iff.mp (hbest f hf hmf)
      omega
    have := h d hd e he hm hme hmax
    have := specificityLe_iff.mp (hbest e he hme)
    omega
  · rintro ⟨hm, hbest⟩
    refine ⟨hm, fun e he hme => ?_⟩
    have hmax : ∀ f ∈ defs, defMatches globs req f = true → Text.len f.source ≤ Text.len d.source := by
      intro f hf hmf
      have := hbest f hf hmf
      omega
    have := h d hd e he hm hme hmax
    have := hbest e he hme
    rw [specificityLe_iff]
    omega

/-- The definition with the most wildcards and one with the fewest cannot both be selected unless the longest
sources agree. -/
theorem longestAgree_of_selected {req : Request β} {defs : List Proxy} {d₀ d₁ : Proxy} (h₀ : d₀ ∈ defs)
    (hbest : StableSort.IsBest specificityLe (defMatches globs req) defs d₀)
    (hmost : IsMostSpecific globs req defs d₁) (hs : d₀.source = d₁.source) : LongestAgree globs req defs := by
  intro d hd e he hmd hme hmax hlen
  have h1 := hmax d₀ h₀ hbest.1
  have h2 := specificityLe_iff.mp (hbest.2 d hd hmd)
  have h3 := specificityLe_iff.mp (hbest.2 e he hme)
  have h4 := hmost.2 d hd hmd
  have h5 := hmost.2 e he hme
  rw [← hs] at h4 h5
  omega

theorem selectsMostSpecific_iff {fetch : RoutesBootstrap → Except Error (Option (List Proxy))}
    {adv adv' : Advanced} {defs : List Proxy} (hp : adv.proxies = none) (hm : mergeProxyDefs fetch adv = .ok defs)
    (hr : resolveRules globs parseUri fetch (some adv) = .ok (some adv')) (req : Request β) :
    SelectsMostSpecific globs parseUri defs adv'.proxies req ↔ LongestAgree globs req defs := by
  rcases resolveRules_ok hp hm hr with ⟨rfl, rfl⟩ | ⟨rules, hrules, rfl⟩
  · refine iff_of_true (fun rule h => ?_) (fun d hd => absurd hd (by simp))
    simp [findRule, hp] at h
  · constructor
    · intro hsel d hd e he hmd
      have hsome : (selectedDef globs defs req).isSome = true := by
        rw [selectedDef_eq_find?_sorted, List.find?_isSome]
        exact ⟨d, List.mem_mergeSort.mpr hd, hmd⟩
      rw [← findRule_compiled_isSome hrules] at hsome
      obtain ⟨rule, hrule⟩ := Option.isSome_iff_exists.mp hsome
      obtain ⟨d₀, h₀, hc₀⟩ := findRule_compiled hrules hrule
      obtain ⟨d₁, h₁, hc₁⟩ := hsel rule hrule
      have hs : d₀.source = d₁.source := by
        have := (compileProxyRule_ok hc₀).2.1.symm.trans (compileProxyRule_ok hc₁).2.1
        exact congrArg GlobMatcher.glob this
      exact longestAgree_of_selected (selectedDef_eq_some h₀).1 (selectedDef_eq_some h₀).2
        (by simpa using List.find?_some h₁) hs d hd e he hmd
    · intro hagree rule hrule
      obtain ⟨d, hd, hc⟩ := findRule_compiled hrules hrule
      refine ⟨d, ?_, hc⟩
      rw [← hd, selectedDef]
      refine List.find?_congr fun e he => ?_
      simp only [isBest_iff_isMostSpecific hagree he]

/-- Globs of literals and stars, where a star also matches slashes. -/
def starMatch : Str → Str → Bool
  | [], path => path.isEmpty
  | '*' :: glob, path => path.tails.any (starMatch glob)
  | c :: glob, path => match path with
      | [] => false
      | d :: path => c = d && starMatch glob path

def starGlobs : GlobSet := ⟨fun _ => true, fun m path => starMatch m.glob path⟩

def noFetch (_ : RoutesBootstrap) : Except Error (Option (List Proxy)) := .ok none

def sampleDef (source : Str) : Proxy :=
  { name := none, host := none, source, target := some "http://h".toList, targets := none, stripPrefix := none }

def sampleAdvanced (defs : List Proxy) : Advanced :=
  { headers := none, rewrites := none, redirects := none, virtualHosts := none, proxies := none
    proxyDefs := some defs, routesBootstrap := none
    proxySettings := { proxyFirst := false, maxUpgradeTunnels := none }, memoryCache := none }

def getRequest (headers : HeaderMap) (path : Str) (query : Option Str) (hp : path.all isPathChar = true)
    (hq : query.all (·.all isQueryChar) = true) : Request Posix.Octets :=
  { method := .get, uri := ⟨none, some "gate".toList, some ⟨path, query, hp, hq⟩⟩, headers, body := [] }

def tiedDefs : List Proxy := [sampleDef "/a/**".toList, sampleDef "/a/b*".toList]

theorem sortProxyDefsBySpecificity_tiedDefs : sortProxyDefsBySpecificity tiedDefs = tiedDefs :=
  List.mergeSort_of_pairwise (by decide)

/-- Both sources match `/a/bc` and are five bytes long. The one with two wildcards is taken. -/
theorem selects_more_wildcards : ∃ adv',
    resolveRules starGlobs parseHttpUri noFetch (some (sampleAdvanced tiedDefs)) = .ok (some adv') ∧
    ¬ SelectsMostSpecific starGlobs parseHttpUri tiedDefs adv'.proxies
      (getRequest [] "/a/bc".toList none (by decide) rfl) := by
  obtain ⟨rules, hrules, hfind⟩ : ∃ rules, compileProxyRules starGlobs parseHttpUri tiedDefs = .ok rules ∧
      ∃ rule, findRule starGlobs (some rules) (getRequest [] "/a/bc".toList none (by decide) rfl) = some rule ∧
        rule.source = ⟨"/a/**".toList⟩ := ⟨_, rfl, _, rfl, rfl⟩
  refine ⟨{ sampleAdvanced tiedDefs with proxies := some rules }, ?_, fun h => ?_⟩
  · rw [← sortProxyDefsBySpecificity_tiedDefs] at hrules
    exact resolveRules_of_compiled rfl rfl (List.cons_ne_nil _ _) hrules
  · obtain ⟨rule, hrule, hsource⟩ := hfind
    obtain ⟨d, hd, hc⟩ := h rule hrule
    have hb : d = sampleDef "/a/b*".toList := by
      have : tiedDefs.find? (fun d => decide (IsMostSpecific starGlobs
          (getRequest [] "/a/bc".toList none (by decide) rfl) tiedDefs d)) = some (sampleDef "/a/b*".toList) := by
        rfl
      exact Option.some.inj (hd.symm.trans this)
    rw [hb] at hc
    rw [(compileProxyRule_ok hc).2.1] at hsource
    exact absurd hsource (by decide)

/-- Both sources match `/a/bc`, and the longer one comes last. -/
def nestedDefs : List Proxy := [sampleDef "/a/*".toList, sampleDef "/a/b*".toList]

theorem sortProxyDefsBySpecificity_nestedDefs : sortProxyDefsBySpecificity nestedDefs = nestedDefs.reverse := by
  have hmerge : [sampleDef "/a/*".toList].merge [sampleDef "/a/b*".toList] specificityLe = nestedDefs.reverse := by
    rw [List.cons_merge_cons, if_neg (by decide)]
    simp [nestedDefs]
  unfold sortProxyDefsBySpecificity nestedDefs
  rw [List.mergeSort]
  simpa [List.MergeSort.Internal.splitInTwo, nestedDefs] using hmerge

theorem selectsMostSpecific_iff_two : ∃ adv',
    resolveRules starGlobs parseHttpUri noFetch (some (sampleAdvanced nestedDefs)) = .ok (some adv') ∧
    (SelectsMostSpecific starGlobs parseHttpUri nestedDefs adv'.proxies
        (getRequest [] "/a/bc".toList none (by decide) rfl) ↔
      LongestAgree starGlobs (getRequest [] "/a/bc".toList none (by decide) rfl) nestedDefs) ∧
    LongestAgree starGlobs (getRequest [] "/a/bc".toList none (by decide) rfl) nestedDefs := by
  obtain ⟨rules, hrules⟩ : ∃ rules, compileProxyRules starGlobs parseHttpUri nestedDefs.reverse = .ok rules := ⟨_, rfl⟩
  rw [← sortProxyDefsBySpecificity_nestedDefs] at hrules
  have hr : resolveRules starGlobs parseHttpUri noFetch (some (sampleAdvanced nestedDefs)) =
      .ok (some { sampleAdvanced nestedDefs with proxies := some rules }) :=
    resolveRules_of_compiled rfl rfl (List.cons_ne_nil _ _) hrules
  refine ⟨_, hr, selectsMostSpecific_iff rfl rfl hr _, ?_⟩
  unfold LongestAgree
  decide

/-! ## The upstream URI -/

/-- Origin, base path without trailing slashes, path without the prefix, query. -/
def expectedUpstreamText (template : UpstreamUriTemplate) (path : Str) (query : Option Str) : Str :=
  template.origin ++ Text.trimEndMatches '/' template.basePath ++
    (pathAfterPrefix template.stripPrefix path ++ PathAndQuery.queryText query)

def BuildsExpectedUri (parseUri : Str → Option Uri) (template : UpstreamUriTemplate) (uri : Uri) : Prop :=
  ∃ u, buildUpstreamUriFromTemplate parseUri template uri = .ok u ∧
    u.toStr = expectedUpstreamText template uri.path uri.query

/-- The request names a path or has no query, and a strip-prefix takes whole segments off it. -/
def StripsWholeSegments (stripPrefix : Option Str) (uri : Uri) : Prop :=
  (∀ pq, uri.pathAndQuery = some pq → pq.rawPath = [] → uri.query = none) ∧
  ∀ s, stripPrefix = some s → StripsSegments s uri.path uri.query

theorem requireSlash_of_no_path {stripPrefix : Option Str} (hpre : stripPrefix.all (Text.startsWith · '/') = true)
    {pq : PathAndQuery} {q : Str} (hraw : pq.rawPath = []) (hq : pq.query = some q) (x : Str) :
    requireSlash (strippedPathAndQuery stripPrefix pq.asStr) ≠ .ok x := by
  have htext : pq.asStr = '?' :: q := by simp [PathAndQuery.asStr, hraw, hq, PathAndQuery.queryText]
  have hsame : strippedPathAndQuery stripPrefix pq.asStr = '?' :: q := by
    cases stripPrefix with
    | none => exact htext
    | some s =>
        rw [htext]
        refine strippedPathAndQuery_of_not_starts ?_
        obtain ⟨t, rfl⟩ := startsWith_iff.mp (by simpa using hpre)
        rintro ⟨rest, hrest⟩
        cases hrest
  rw [hsame, Ne, requireSlash_eq_ok]
  simp [Text.startsWith]

theorem requireSlash_eq_expected_iff {stripPrefix : Option Str} {uri : Uri}
    (hpre : stripPrefix.all (Text.startsWith · '/') = true) (hp : Text.startsWith uri.path '/' = true) :
    requireSlash (strippedPathAndQuery stripPrefix (uri.pathAndQuery.elim ['/'] PathAndQuery.asStr)) =
        .ok (pathAfterPrefix stripPrefix uri.path ++ PathAndQuery.queryText uri.query) ↔
      StripsWholeSegments stripPrefix uri := by
  cases hpq : uri.pathAndQuery with
  | none => simp [Uri.path, hpq, Text.startsWith] at hp
  | some pq =>
      have hquery : uri.query = pq.query := by simp [Uri.query, hpq]
      by_cases hraw : pq.rawPath = [] → uri.query = none
      · rw [Option.elim_some, asStr_eq hpq hraw]
        have hok : ∀ pq', uri.pathAndQuery = some pq' → pq'.rawPath = [] → uri.query = none := by
          intro pq' h
          rw [hpq] at h
          cases h
          exact hraw
        cases stripPrefix with
        | none =>
            obtain ⟨t, ht⟩ := startsWith_iff.mp hp
            refine iff_of_true ?_ ⟨hok, fun s hs => by cases hs⟩
            rw [requireSlash_eq_ok]
            exact .inr ⟨by rw [strippedPathAndQuery, ht]; rfl, rfl⟩
        | some s =>
            rw [requireSlash_stripped_iff (by simpa using hpre) hp]
            refine ⟨fun h => ⟨hok, fun s' hs => ?_⟩, fun h => h.2 s rfl⟩
            cases hs
            exact h
      · refine iff_of_false ?_ fun h => hraw (h.1 pq hpq)
        rw [Classical.not_imp] at hraw
        obtain ⟨q, hq⟩ := Option.ne_none_iff_exists'.mp hraw.2
        exact requireSlash_of_no_path hpre hraw.1 (hquery ▸ hq) _

theorem buildsExpectedUri_iff (hparse : AbsoluteUris parseUri) {url context : Str} {target : Uri}
    {stripPrefix : Option Str} {template : UpstreamUriTemplate}
    (ht : parseProxyTargetUrl parseUri url context = .ok target)
    (htempl : upstreamUriTemplate target stripPrefix = .ok template)
    (hpre : stripPrefix.all (Text.startsWith · '/') = true) {uri : Uri}
    (hp : Text.startsWith uri.path '/' = true) :
    BuildsExpectedUri parseUri template uri ↔
      StripsWholeSegments stripPrefix uri ∧ Text.len (expectedUpstreamText template uri.path uri.query) ≤ maxLen := by
  obtain ⟨⟨scheme, authority, _, _, hat⟩, _, rfl⟩ := TemplateAt.of_accepted hparse ht htempl
  rw [← requireSlash_eq_expected_iff hpre hp]
  constructor
  · rintro ⟨u, hu, htext⟩
    obtain ⟨x, hx, hu, hlen⟩ := hat.toStr_build hu
    rw [htext] at hlen
    rw [hu, expectedUpstreamText, List.append_cancel_left_eq] at htext
    exact ⟨by rw [hx, htext], hlen⟩
  · rintro ⟨hx, hlen⟩
    have hlegal : (pathAfterPrefix template.stripPrefix uri.path).all isPathChar = true :=
      pathAfterPrefix_legal (path_legal uri)
    obtain ⟨u, hu⟩ := hat.build_ok hlegal hx hlen
    obtain ⟨x, hx', hu', _⟩ := hat.toStr_build hu
    rw [hx] at hx'
    cases hx'
    exact ⟨u, hu, hu'⟩

def sampleTemplate (stripPrefix : Option Str) : UpstreamUriTemplate :=
  { origin := "http://h".toList, basePath := "/v1".toList, stripPrefix }

/-- `/apix` shares the characters of the prefix `/api` without being at or below it. -/
theorem strips_inside_segment : (∃ target,
    parseProxyTargetUrl parseHttpUri "http://h/v1".toList [] = .ok target ∧
    upstreamUriTemplate target (some "/api".toList) = .ok (sampleTemplate (some "/api".toList))) ∧
    ¬ BuildsExpectedUri parseHttpUri (sampleTemplate (some "/api".toList))
      (getRequest [] "/apix".toList none (by decide) rfl).uri := by
  refine ⟨⟨_, rfl, rfl⟩, ?_⟩
  rintro ⟨u, hu, _⟩
  have hok : (buildUpstreamUriFromTemplate parseHttpUri (sampleTemplate (some "/api".toList))
      (getRequest [] "/apix".toList none (by decide) rfl).uri).isOk = true := by
    rw [hu]
    rfl
  exact absurd hok (by decide)

theorem buildsExpectedUri_iff_users :
    BuildsExpectedUri parseHttpUri (sampleTemplate (some "/api".toList))
        (getRequest [] "/api/users".toList (some "q=1".toList) (by decide) (by decide)).uri ↔
      StripsWholeSegments (some "/api".toList)
        (getRequest [] "/api/users".toList (some "q=1".toList) (by decide) (by decide)).uri ∧
      Text.len (expectedUpstreamText (sampleTemplate (some "/api".toList)) "/api/users".toList (some "q=1".toList)) ≤
        maxLen := by
  obtain ⟨target, ht, htempl⟩ : ∃ target, parseProxyTargetUrl parseHttpUri "http://h/v1".toList [] = .ok target ∧
      upstreamUriTemplate target (some "/api".toList) = .ok (sampleTemplate (some "/api".toList)) :=
    ⟨_, rfl, rfl⟩
  exact buildsExpectedUri_iff absoluteUris_parseHttpUri ht htempl (by decide) (by decide)

/-! ## Header fields of the upstream request -/

def HandsOnFields (req u : Request β) : Prop :=
  ∀ name, EndToEnd name → u.headers.getAll name = req.headers.getAll name

def SingleLines (headers : HeaderMap) : Prop := ∀ name, EndToEnd name → (headers.getAll name).length ≤ 1

theorem handsOnFields_iff {empty : β} {client : HttpClient β} {rule : ProxyRule} {ticket : Nat} {req u : Request β}
    {remoteIp : Option Str}
    (h : u ∈ (forwardHttp parseUri client rule ticket req remoteIp).sent ∨
      u ∈ (forwardUpgradeInner parseUri empty client rule ticket req remoteIp).sent) :
    HandsOnFields req u ↔ SingleLines req.headers := by
  have hlast : ∀ name, EndToEnd name → u.headers.getAll name = (req.headers.getAll name).getLast?.toList := by
    intro name hname
    rcases h with h | h
    · exact getAll_upstreamHttpRequest (mem_sent_forwardHttp h) hname
    · exact getAll_upstreamUpgradeRequest (mem_sent_forwardUpgradeInner h) hname
  refine forall₂_congr fun name hname => ?_
  rw [hlast name hname, getLast?_toList_eq_iff]

def sampleRule : ProxyRule :=
  { host := none, source := ⟨"/**".toList⟩
    balancer := ⟨none, [⟨some "http".toList, some "h".toList, none⟩], List.cons_ne_nil _ _⟩
    stripPrefix := none, uriTemplates := [sampleTemplate none] }

def okClient : HttpClient Posix.Octets := fun _ => .ok (Response.new [])

def cookie : HeaderName := "cookie".toList

def twoCookies : Request Posix.Octets :=
  getRequest [(cookie, HeaderValue.fromStatic "a=1"), (cookie, HeaderValue.fromStatic "b=2")] "/".toList none
    PathAndQuery.legal_root PathAndQuery.legal_none

def cookiesDiffer (req u : Request Posix.Octets) : Bool :=
  u.headers.getAll cookie ≠ req.headers.getAll cookie

theorem not_handsOnFields_of_cookiesDiffer {req u : Request Posix.Octets} (h : cookiesDiffer req u = true) :
    ¬ HandsOnFields req u :=
  fun hall => of_decide_eq_true h (hall cookie (by decide))

/-- Of two cookie lines only the second arrives, on the plain path and on the upgrade path. -/
theorem drops_first_cookie :
    (∃ u ∈ (forwardHttp parseHttpUri okClient sampleRule 0 twoCookies none).sent, ¬ HandsOnFields twoCookies u) ∧
    ∃ u ∈ (forwardUpgradeInner parseHttpUri [] okClient sampleRule 0 twoCookies none).sent,
      ¬ HandsOnFields twoCookies u := by
  have hplain : (forwardHttp parseHttpUri okClient sampleRule 0 twoCookies none).sent.any
      (cookiesDiffer twoCookies) = true := by decide
  have hupgrade : (forwardUpgradeInner parseHttpUri [] okClient sampleRule 0 twoCookies none).sent.any
      (cookiesDiffer twoCookies) = true := by decide
  obtain ⟨u, hu, hdiff⟩ := List.any_eq_true.mp hplain
  obtain ⟨v, hv, hdiff'⟩ := List.any_eq_true.mp hupgrade
  exact ⟨⟨u, hu, not_handsOnFields_of_cookiesDiffer hdiff⟩, ⟨v, hv, not_handsOnFields_of_cookiesDiffer hdiff'⟩⟩

def oneCookie : Request Posix.Octets :=
  getRequest [(cookie, HeaderValue.fromStatic "a=1")] "/".toList none PathAndQuery.legal_root PathAndQuery.legal_none

theorem handsOnFields_iff_oneCookie :
    ∃ u ∈ (forwardHttp parseHttpUri okClient sampleRule 0 oneCookie none).sent,
      (HandsOnFields oneCookie u ↔ SingleLines oneCookie.headers) := by
  have hlen : (forwardHttp parseHttpUri okClient sampleRule 0 oneCookie none).sent.length = 1 := by decide
  obtain ⟨u, hu⟩ := List.length_eq_one_iff.mp hlen
  have hmem : u ∈ (forwardHttp parseHttpUri okClient sampleRule 0 oneCookie none).sent ∨
      u ∈ (forwardUpgradeInner parseHttpUri [] okClient sampleRule 0 oneCookie none).sent := by simp [hu]
  exact ⟨u, by simp [hu], handsOnFields_iff hmem⟩

/-! ## Hop-by-hop fields -/

/-- The hop-by-hop fields by their names on the wire. -/
def strippedNames : List HeaderName :=
  [.connection, .keepAlive, .proxyConnection, .proxyAuthenticate, .proxyAuthorization, .te, .trailer,
    .transferEncoding, .upgrade]

def streamStrippedNames : List HeaderName := [.proxyAuthenticate, .proxyAuthorization, .proxyConnection]

/-- The names listed by the `Connection` fields of a message. -/
def nominatedNames (headers : HeaderMap) : List HeaderName :=
  (headers.getAll .connection).flatMap fun value =>
    (HeaderValue.toStr value).elim [] fun text =>
      (text.splitOn ',').map fun part => Text.toAsciiLowercase (Text.trim part)

/-- The relayed message has no hop-by-hop field and no field that the received one nominates. -/
def NoHopByHop (received relayed : HeaderMap) : Prop :=
  ∀ name ∈ strippedNames ++ nominatedNames received, relayed.getAll name = []

instance (received relayed : HeaderMap) : Decidable (NoHopByHop received relayed) :=
  inferInstanceAs (Decidable (∀ _ ∈ _, _))

theorem getAll_removeHopByHop (headers : HeaderMap) (name : HeaderName) :
    (removeHopByHopRequestHeaders headers).getAll name = if name ∈ strippedNames then [] else headers.getAll name := by
  have hperm : List.Perm [HeaderName.connection, .proxyAuthorization, .te, .trailer, .transferEncoding, .upgrade,
      .keepAlive, .proxyAuthenticate, .proxyConnection] strippedNames := by decide
  rw [removeHopByHopRequestHeaders, Multimap.getAll_removeAll]
  simp only [hperm.mem_iff]

theorem getAll_preserveStreaming (headers : HeaderMap) (name : HeaderName) :
    (preserveStreamingResponseHeaders headers).getAll name =
      if name ∈ streamStrippedNames then [] else headers.getAll name := by
  have hperm : List.Perm [HeaderName.proxyAuthorization, .proxyAuthenticate, .proxyConnection] streamStrippedNames := by
    decide
  rw [preserveStreamingResponseHeaders, Multimap.getAll_removeAll]
  simp only [hperm.mem_iff]

/-- The names that a relayed response loses. -/
def responseStrippedNames (streaming : Bool) : List HeaderName :=
  if streaming then streamStrippedNames else strippedNames

/-- The named fields are gone, and no other field is, be it nominated or not. -/
theorem forwardHttp_strips (client : HttpClient β) (rule : ProxyRule) (ticket : Nat) (req : Request β)
    (remoteIp : Option Str) :
    (∀ u ∈ (forwardHttp parseUri client rule ticket req remoteIp).sent,
      (∀ name ∈ strippedNames, u.headers.getAll name = []) ∧
      ∀ name, EndToEnd name → (u.headers.getAll name = [] ↔ req.headers.getAll name = [])) ∧
    ∀ resp, (forwardHttp parseUri client rule ticket req remoteIp).result = .ok resp →
      ∃ u ∈ (forwardHttp parseUri client rule ticket req remoteIp).sent, ∃ received, client u = .ok received ∧
        ∀ name, resp.headers.getAll name =
          if name ∈ responseStrippedNames (isStreamingRequest req) then [] else received.headers.getAll name := by
  constructor
  · intro u hu
    have hmade := mem_sent_forwardHttp hu
    refine ⟨fun name hname => ?_, fun name hname => ?_⟩
    · obtain ⟨uri, host, _, _, rfl⟩ := upstreamHttpRequest_eq_ok.mp hmade
      exact (getAll_removeHopByHop _ name).trans (if_pos hname)
    · rw [getAll_upstreamHttpRequest hmade hname]
      cases req.headers.getAll name with
      | nil => simp
      | cons value values => simp
  · intro resp hresp
    unfold forwardHttp at hresp ⊢
    split at hresp
    · cases hresp
    · rename_i u hmade
      split at hresp
      · cases hresp
      · rename_i received hreceived
        cases hresp
        refine ⟨u, List.mem_singleton_self u, received, hreceived, fun name => ?_⟩
        cases isStreamingRequest req with
        | true => exact getAll_preserveStreaming received.headers name
        | false => exact getAll_removeHopByHop received.headers name

def nominating : Request Posix.Octets :=
  getRequest [(.connection, HeaderValue.fromStatic "close, X-Hop"), ("x-hop".toList, HeaderValue.fromStatic "1")]
    "/".toList none PathAndQuery.legal_root PathAndQuery.legal_none

def eventStream : Request Posix.Octets :=
  getRequest [(.accept, HeaderValue.fromStatic "text/event-stream")] "/".toList none PathAndQuery.legal_root
    PathAndQuery.legal_none

def keepAliveClient : HttpClient Posix.Octets := fun _ =>
  .ok ((Response.new []).insertHeader .connection (HeaderValue.fromStatic "keep-alive"))

/-- A nominated field reaches the upstream, and a stream of events reaches the client with `Connection`. -/
theorem relays_hop_by_hop :
    (∃ u ∈ (forwardHttp parseHttpUri okClient sampleRule 0 nominating none).sent,
      ¬ NoHopByHop nominating.headers u.headers) ∧
    ∃ received relayed, keepAliveClient eventStream = .ok received ∧
      (forwardHttp parseHttpUri keepAliveClient sampleRule 0 eventStream none).result = .ok relayed ∧
      ¬ NoHopByHop received.headers relayed.headers := by
  have hrequest : (forwardHttp parseHttpUri okClient sampleRule 0 nominating none).sent.any
      (fun u => ¬ NoHopByHop nominating.headers u.headers) = true := by decide
  obtain ⟨u, hu, hnot⟩ := List.any_eq_true.mp hrequest
  exact ⟨⟨u, hu, of_decide_eq_true hnot⟩, ⟨_, _, rfl, rfl, by decide⟩⟩

theorem forwardHttp_strips_nominating : ∃ u resp, u ∈ (forwardHttp parseHttpUri keepAliveClient sampleRule 0 nominating
      none).sent ∧ (forwardHttp parseHttpUri keepAliveClient sampleRule 0 nominating none).result = .ok resp ∧
    ((∀ name ∈ strippedNames, u.headers.getAll name = []) ∧
      ∀ name, EndToEnd name → (u.headers.getAll name = [] ↔ nominating.headers.getAll name = [])) ∧
    ∃ u' ∈ (forwardHttp parseHttpUri keepAliveClient sampleRule 0 nominating none).sent, ∃ received,
      keepAliveClient u' = .ok received ∧ ∀ name, resp.headers.getAll name =
        if name ∈ responseStrippedNames (isStreamingRequest nominating) then [] else received.headers.getAll name := by
  have hlen : (forwardHttp parseHttpUri keepAliveClient sampleRule 0 nominating none).sent.length = 1 := by decide
  obtain ⟨u, hu⟩ := List.length_eq_one_iff.mp hlen
  have hmem : u ∈ (forwardHttp parseHttpUri keepAliveClient sampleRule 0 nominating none).sent := by simp [hu]
  have hok : (forwardHttp parseHttpUri keepAliveClient sampleRule 0 nominating none).result.toOption.isSome = true := by
    decide
  obtain ⟨resp, hresp⟩ := Option.isSome_iff_exists.mp hok
  have hresp := Checked.toOption_eq_some.mp hresp
  exact ⟨u, resp, hmem, hresp, (forwardHttp_strips keepAliveClient sampleRule 0 nominating none).1 u hmem,
    (forwardHttp_strips keepAliveClient sampleRule 0 nominating none).2 resp hresp⟩

end WeaveGate.Proxy
