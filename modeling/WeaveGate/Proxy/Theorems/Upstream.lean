import WeaveGate.Proxy.Theorems

/-!
# Requests stay at their target

Which parts of the upstream URI a request can reach.
-/

namespace WeaveGate.Proxy

open Http Settings

variable {parseUri : Str → Option Uri}

/-- The text that the strip-prefix is cut off. -/
def requestText (uri : Uri) : Str := uri.pathAndQuery.elim ['/'] PathAndQuery.asStr

theorem after?_requestText (uri : Uri) : Text.after? '?' (requestText uri) = uri.query := by
  unfold requestText Uri.query
  cases uri.pathAndQuery with
  | none => rfl
  | some pq => exact pq.after?_asStr

/-- What is left of the text asks the same query, unless the prefix takes the start of the query along. -/
theorem after?_requireSlash_iff {stripPrefix : Option Str} {text x : Str}
    (hx : requireSlash (strippedPathAndQuery stripPrefix text) = .ok x) :
    Text.after? '?' x = Text.after? '?' text ↔ ∀ s, stripPrefix = some s → '?' ∈ s → ¬ s <+: text := by
  have hsame : Text.after? '?' x = Text.after? '?' (strippedPathAndQuery stripPrefix text) := by
    rcases requireSlash_eq_ok.mp hx with ⟨hnil, rfl⟩ | ⟨_, rfl⟩
    · rw [hnil]
      rfl
    · rfl
  rw [hsame]
  cases stripPrefix with
  | none => exact iff_of_true rfl fun s hs => by cases hs
  | some s =>
      by_cases hs : s <+: text
      · obtain ⟨rest, rfl⟩ := hs
        rw [strippedPathAndQuery_append]
        by_cases hmark : '?' ∈ s
        · refine iff_of_false (Ne.symm (Text.after?_append_of_mem hmark rest)) fun h => ?_
          exact h s rfl hmark (List.prefix_append s rest)
        · refine iff_of_true (Text.after?_append (List.forall_mem_ne'.mpr hmark) rest).symm fun s' hs' hmark' => ?_
          cases hs'
          exact absurd hmark' hmark
      · rw [strippedPathAndQuery_of_not_starts hs]
        refine iff_of_true rfl fun s' hs' _ => ?_
        cases hs'
        exact hs

/-- The upstream URI is at the target and below its base path, and asks the query of the request. The `Host` field
that is made from it names the target. -/
structure KeepsTarget (target uri u : Uri) : Prop where
  scheme : u.scheme = target.scheme
  authority : u.authority = target.authority
  basePath : Text.trimEndMatches '/' target.path <+: u.path
  query : u.query = uri.query
  host : ∀ headers headers', setUpstreamHost headers u = .ok headers' →
    ∃ authority, target.authority = some authority ∧ headers'.getAll .host = [Posix.utf8 authority]

theorem setUpstreamHost_host {headers headers' : HeaderMap} {uri : Uri} (h : setUpstreamHost headers uri = .ok headers') :
    ∃ authority, uri.authority = some authority ∧ headers'.getAll .host = [Posix.utf8 authority] := by
  obtain ⟨host, hhost, rfl⟩ := setUpstreamHost_eq_ok.mp h
  obtain ⟨authority, ha, hhost⟩ := Option.bind_eq_some_iff.mp hhost
  refine ⟨authority, ha, ?_⟩
  rw [Multimap.getAll_insert_self]
  unfold HeaderValue.fromStr HeaderValue.fromOctets at hhost
  split at hhost
  · cases hhost
    rfl
  · cases hhost

theorem keepsTarget_iff (hparse : AbsoluteUris parseUri) {url context : Str} {target : Uri}
    {stripPrefix : Option Str} {template : UpstreamUriTemplate}
    (ht : parseProxyTargetUrl parseUri url context = .ok target)
    (htempl : upstreamUriTemplate target stripPrefix = .ok template) {uri u : Uri}
    (hu : buildUpstreamUriFromTemplate parseUri template uri = .ok u) :
    KeepsTarget target uri u ↔ ∀ s, stripPrefix = some s → '?' ∈ s → ¬ s <+: requestText uri := by
  obtain ⟨⟨scheme, authority, hscheme, hauthority, hat⟩, hbase, rfl⟩ := TemplateAt.of_accepted hparse ht htempl
  obtain ⟨x, hx, huscheme, huauthority, hupath, huquery⟩ := hat.build_parts hu
  have hquery := after?_requireSlash_iff hx
  rw [← huquery, ← requestText, after?_requestText] at hquery
  rw [← hquery]
  constructor
  · exact KeepsTarget.query
  · intro hsame
    refine ⟨huscheme.trans hscheme.symm, huauthority.trans hauthority.symm, hbase ▸ hupath, hsame, ?_⟩
    intro headers headers' hhost
    rw [hauthority, ← huauthority]
    exact setUpstreamHost_host hhost

/-- The prefix takes the query `x=1` of the request along. -/
theorem strips_query : ∃ target u,
    parseProxyTargetUrl parseHttpUri "http://h/v1".toList [] = .ok target ∧
    upstreamUriTemplate target (some "/api?x=1".toList) = .ok (sampleTemplate (some "/api?x=1".toList)) ∧
    buildUpstreamUriFromTemplate parseHttpUri (sampleTemplate (some "/api?x=1".toList))
      (getRequest [] "/api".toList (some "x=1".toList) (by decide) (by decide)).uri = .ok u ∧
    ¬ KeepsTarget target (getRequest [] "/api".toList (some "x=1".toList) (by decide) (by decide)).uri u := by
  refine ⟨_, _, rfl, rfl, rfl, fun h => ?_⟩
  exact absurd h.query (by decide)

theorem keepsTarget_iff_users : ∃ target u,
    parseProxyTargetUrl parseHttpUri "http://h/v1".toList [] = .ok target ∧
    buildUpstreamUriFromTemplate parseHttpUri (sampleTemplate (some "/api".toList))
      (getRequest [] "/api//users".toList (some "q=1".toList) (by decide) (by decide)).uri = .ok u ∧
    (KeepsTarget target (getRequest [] "/api//users".toList (some "q=1".toList) (by decide) (by decide)).uri u ↔
      ∀ s, some "/api".toList = some s → '?' ∈ s → ¬ s <+: requestText
        (getRequest [] "/api//users".toList (some "q=1".toList) (by decide) (by decide)).uri) := by
  obtain ⟨target, ht, htempl⟩ : ∃ target, parseProxyTargetUrl parseHttpUri "http://h/v1".toList [] = .ok target ∧
      upstreamUriTemplate target (some "/api".toList) = .ok (sampleTemplate (some "/api".toList)) :=
    ⟨_, rfl, rfl⟩
  have hbuilt : (buildUpstreamUriFromTemplate parseHttpUri (sampleTemplate (some "/api".toList))
      (getRequest [] "/api//users".toList (some "q=1".toList) (by decide) (by decide)).uri).toOption.isSome = true := by
    decide +kernel
  obtain ⟨u, hu⟩ := Option.isSome_iff_exists.mp hbuilt
  have hu := Checked.toOption_eq_some.mp hu
  exact ⟨target, u, ht, hu, keepsTarget_iff absoluteUris_parseHttpUri ht htempl hu⟩

end WeaveGate.Proxy
