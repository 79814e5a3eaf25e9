import WeaveGate.Handler.Lemmas.Stages
import WeaveGate.Handler.Theorems
import WeaveGate.Handler.Theorems.Hosts
import WeaveGate.Http.UriParser

/-!
# Internal rewrites

What a rewrite makes of the request: which parts of the URI come from the destination, and which host the later
stages see.
-/

namespace WeaveGate.Handler

open Http Settings
open Static (Body)

variable {crates : Crates} {w : World} {opts : RequestHandlerOpts} {req : Request Body}

/-! ## Merging URIs -/

/-- The parts of the destination, completed by those of the original. -/
def completedParts (orig dest : Uri) : Uri where
  scheme := dest.scheme.or orig.scheme
  authority := dest.authority.or orig.authority
  pathAndQuery := dest.pathAndQuery.or orig.pathAndQuery

/-- A URI with a scheme has an authority and a path, one without a scheme has only one of them. -/
def areUriParts (u : Uri) : Bool :=
  if u.scheme.isSome then u.authority.isSome && u.pathAndQuery.isSome else !(u.authority.isSome && u.pathAndQuery.isSome)

/-- The parts of a URI that has been merged from the destination's and the original's. -/
structure MergedUri (orig dest uri : Uri) : Prop where
  scheme : uri.scheme = dest.scheme.or orig.scheme
  authority : uri.authority = dest.authority.or orig.authority
  path : uri.path = if dest.pathAndQuery.isSome then dest.path else orig.path
  query : uri.query = dest.query.or orig.query

theorem uriFromParts_eq (u : Uri) : uriFromParts u = if areUriParts u then some u else none := by
  unfold uriFromParts areUriParts
  cases u.scheme with
  | none => cases u.authority <;> cases u.pathAndQuery <;> rfl
  | some scheme => cases u.authority <;> cases u.pathAndQuery <;> rfl

/-- A query behind a path without one is read back as the query of that path. -/
theorem parse_path_with_query {pq : PathAndQuery} (h : pq.query = none) {query : Str}
    (hlegal : query.all isQueryChar = true) :
    ∃ merged, PathAndQuery.parse (pq.asStr ++ '?' :: query) = some merged ∧ merged.path = pq.path ∧
      merged.query = some query := by
  have hstr : pq.asStr = pq.path := by simp [PathAndQuery.asStr, PathAndQuery.path, h, PathAndQuery.queryText]
  have hpath : pq.path.all isPathChar = true := by
    unfold PathAndQuery.path
    split
    · rfl
    · exact pq.path_legal
  have hquery : (some query).all (·.all isQueryChar) = true := by simpa using hlegal
  refine ⟨⟨pq.path, some query, hpath, hquery⟩, ?_, ?_, rfl⟩
  · rw [hstr]
    exact PathAndQuery.parse_append hpath hquery
  · have hne : pq.path ≠ [] := by
      unfold PathAndQuery.path
      split
      · decide
      · assumption
    rw [PathAndQuery.path, if_neg hne]

theorem query_legal {u : Uri} {query : Str} (h : u.query = some query) : query.all isQueryChar = true := by
  obtain ⟨pq, _, hquery⟩ := Option.bind_eq_some_iff.mp h
  have hlegal := pq.query_legal
  rwa [hquery, Option.all_some] at hlegal

/-- What is handed to `from_parts`. -/
theorem mergeUris_eq {orig dest : Uri} {text : Str} (hparse : crates.parseUri text = some dest) :
    ∃ uri, mergeUris crates orig text = uriFromParts uri ∧
      areUriParts uri = areUriParts (completedParts orig dest) ∧ MergedUri orig dest uri := by
  unfold mergeUris
  simp only [hparse, Option.bind_eq_bind, Option.bind_some]
  cases hdest : dest.pathAndQuery with
  | none =>
      have hmerged : MergedUri orig dest (completedParts orig dest) := by
        refine ⟨rfl, rfl, ?_, ?_⟩ <;> simp [completedParts, Uri.path, Uri.query, hdest]
      rw [Option.none_or]
      split
      · rename_i pq query hpq hquery
        have hsome : pq.query.isSome = true := by
          rw [Uri.query, hpq, Option.bind_some] at hquery
          rw [hquery]
          rfl
        rw [if_pos hsome]
        exact ⟨completedParts orig dest, by simp [completedParts, hdest, hpq], rfl, hmerged⟩
      · exact ⟨completedParts orig dest, by simp [completedParts, hdest], rfl, hmerged⟩
  | some pq =>
      have hparts : completedParts orig dest =
          ⟨dest.scheme.or orig.scheme, dest.authority.or orig.authority, some pq⟩ := by
        rw [completedParts, hdest, Option.some_or]
      have hpath : dest.path = pq.path := by rw [Uri.path, hdest, Option.elim_some]
      have hquery : dest.query = pq.query := by rw [Uri.query, hdest, Option.bind_some]
      rw [hparts, Option.some_or]
      cases horig : orig.query with
      | none =>
          refine ⟨_, rfl, rfl, rfl, rfl, ?_, ?_⟩
          · rw [hpath, hdest]
            rfl
          · rw [hquery, horig, Option.or_none]
            rfl
      | some query =>
          dsimp only
          cases hpq : pq.query with
          | some own =>
              refine ⟨_, if_pos rfl, rfl, rfl, rfl, ?_, ?_⟩
              · rw [hpath, hdest]
                rfl
              · rw [hquery, hpq, Option.some_or]
                exact hpq
          | none =>
              obtain ⟨merged, hmerged, hsame, hown⟩ := parse_path_with_query hpq (query_legal horig)
              refine ⟨⟨dest.scheme.or orig.scheme, dest.authority.or orig.authority, some merged⟩, ?_, rfl, rfl, rfl,
                ?_, ?_⟩
              · rw [if_neg (by simp), hmerged, Option.bind_some]
              · rw [hpath, hdest]
                exact hsame
              · rw [hquery, hpq, horig, Option.none_or]
                exact hown

theorem mergeUris_unparsed {orig : Uri} {text : Str} (h : crates.parseUri text = none) :
    mergeUris crates orig text = none := by
  unfold mergeUris
  rw [h]
  rfl

/-! ## The rewritten request -/

/-- The URI of the destination, when a rule matches and is no redirect. The first that matches counts. -/
def internalDestination (crates : Crates) (opts : RequestHandlerOpts) (req : Request Body) : Option Uri := do
  let rewrites ← opts.advancedOpts.bind (·.rewrites)
  let matched ← rewrites.find? fun rule => crates.regex.isMatch rule.source req.uri.path
  let dest ← (replacePlaceholders crates req.uri.path matched.source matched.destination).toOption
  if matched.redirect.isSome then none else crates.parseUri dest

/-- The request after an internal rewrite to a destination. -/
structure RewrittenTo (req : Request Body) (dest : Uri) (req' : Request Body) : Prop where
  uri : MergedUri req.uri dest req'.uri
  proxyHost : Proxy.requestHost req' = (dest.authority.map Authority.host).or (Proxy.requestHost req)
  vhostHost : requestHostStr req' = (dest.authority.map Authority.host).or (requestHostStr req)
  method : req'.method = req.method
  body : req'.body = req.body
  fields : ∀ name, name ≠ HeaderName.host → req'.headers.getAll name = req.headers.getAll name

@[simp] theorem adjustHost_uri (req : Request Body) : (adjustHost req).uri = req.uri := by
  obtain ⟨_, heq, _⟩ := adjustHost_eq req
  rw [heq]

theorem adjustHost_of_no_authority {req : Request Body} (h : req.uri.authority = none) : adjustHost req = req := by
  unfold adjustHost
  rw [h]

/-- The URI's authority decides. Where it has none, the fields are those of the request. -/
theorem requestHost_adjustHost {uri : Uri} {authority : Option Authority}
    (h : uri.authority = authority.or req.uri.authority) :
    Proxy.requestHost (adjustHost { req with uri }) =
      (authority.map Authority.host).or (Proxy.requestHost req) := by
  cases authority with
  | some a =>
      rw [Option.some_or] at h
      unfold Proxy.requestHost
      simp [h]
  | none =>
      rw [Option.none_or] at h
      rw [Option.map_none, Option.none_or]
      cases horig : req.uri.authority with
      | some a =>
          unfold Proxy.requestHost
          simp [h, horig]
      | none =>
          rw [horig] at h
          rw [adjustHost_of_no_authority h]
          unfold Proxy.requestHost
          simp only [h, horig]

theorem rewrittenTo_adjustHost {dest uri : Uri} (h : MergedUri req.uri dest uri) :
    RewrittenTo req dest (adjustHost { req with uri }) := by
  have hhost := requestHost_adjustHost h.authority
  have hvhost : requestHostStr (adjustHost { req with uri }) =
      (dest.authority.map Authority.host).or (requestHostStr req) := by
    rw [requestHostStr_eq, requestHostStr_eq, hhost]
  obtain ⟨headers, heq, hkept⟩ := adjustHost_eq { req with uri }
  rw [heq] at hhost hvhost ⊢
  exact ⟨h, hhost, hvhost, rfl, rfl, hkept⟩

theorem rewritesPreProcess_cases :
    match internalDestination crates opts req with
    | none => (rewritesPreProcess crates w opts req).2 = req
    | some dest =>
        if areUriParts (completedParts req.uri dest) then
          (rewritesPreProcess crates w opts req).1 = none ∧
            RewrittenTo req dest (rewritesPreProcess crates w opts req).2
        else (rewritesPreProcess crates w opts req).2 = req := by
  unfold internalDestination rewritesPreProcess rewriteUriPath
  cases opts.advancedOpts.bind (·.rewrites) with
  | none => rfl
  | some rewrites =>
      simp only [Option.bind_eq_bind, Option.bind_some]
      cases rewrites.find? fun rule => crates.regex.isMatch rule.source req.uri.path with
      | none => rfl
      | some matched =>
          simp only [Option.bind_some]
          cases replacePlaceholders crates req.uri.path matched.source matched.destination with
          | error e => rfl
          | ok text =>
              simp only [Except.toOption, Option.bind_some]
              cases matched.redirect with
              | some kind => rfl
              | none =>
                  simp only [Option.isSome_none, Bool.false_eq_true, if_false]
                  cases hparse : crates.parseUri text with
                  | none => simp only [mergeUris_unparsed hparse]
                  | some dest =>
                      obtain ⟨uri, hmerge, hparts, hmerged⟩ : ∃ uri, mergeUris crates req.uri text = uriFromParts uri ∧
                          areUriParts uri = areUriParts (completedParts req.uri dest) ∧
                          MergedUri req.uri dest uri := mergeUris_eq hparse
                      rw [uriFromParts_eq, hparts] at hmerge
                      by_cases hok : areUriParts (completedParts req.uri dest) = true
                      · rw [if_pos hok] at hmerge
                        simp only [hmerge, if_pos hok]
                        exact ⟨trivial, rewrittenTo_adjustHost hmerged⟩
                      · rw [if_neg hok] at hmerge
                        simp only [hmerge, if_neg hok]

/-- The pattern `^/old/(.*)$`. -/
def oldPages : RegexLite where
  isMatch _ path := (Text.stripPrefix path "/old/".toList).isSome
  captures _ path := (Text.stripPrefix path "/old/".toList).map fun rest => [some path, some rest]

def rewritingCrates : Crates := { sampleCrates with regex := oldPages }

def rewritingOpts : RequestHandlerOpts :=
  { sampleOpts with
    advancedOpts := some { Proxy.sampleAdvanced [] with
      rewrites := some [⟨⟨"^/old/(.*)$".toList⟩, "http://new.example/$1".toList, none⟩] } }

theorem legal_old : "/old/a".toList.all isPathChar = true := by decide

theorem legal_x : (some "x=1".toList).all (·.all isQueryChar) = true := by decide

def oldRequest : Request Body :=
  { sampleRequest .get with uri := ⟨some "http".toList, some "gate".toList, some ⟨"/old/a".toList, some "x=1".toList, legal_old, legal_x⟩⟩ }

theorem rewritesPreProcess_cases_internal : ∃ dest, internalDestination rewritingCrates rewritingOpts oldRequest = some dest ∧
    (rewritesPreProcess rewritingCrates sampleWorld rewritingOpts oldRequest).1 = none ∧
    RewrittenTo oldRequest dest (rewritesPreProcess rewritingCrates sampleWorld rewritingOpts oldRequest).2 := by
  obtain ⟨dest, hdest, hparts⟩ : ∃ dest, internalDestination rewritingCrates rewritingOpts oldRequest = some dest ∧
      areUriParts (completedParts oldRequest.uri dest) = true := ⟨_, rfl, rfl⟩
  have hcases := @rewritesPreProcess_cases rewritingCrates sampleWorld rewritingOpts oldRequest
  rw [hdest] at hcases
  simp only [if_pos hparts] at hcases
  exact ⟨dest, hdest, hcases⟩

end WeaveGate.Handler
