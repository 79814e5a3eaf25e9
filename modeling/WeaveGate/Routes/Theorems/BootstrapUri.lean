import WeaveGate.Http.UriParser
import WeaveGate.Routes.Bootstrap

/-!
# The request for the routes

What the control plane reads from the URI of the request: the query of the configured URL, then the version and the
client.
-/

namespace WeaveGate.Routes

open Http

/-! ## Queries -/

/-- The pairs of a query as a server decodes them. -/
def queryPairs (uri : Uri) : List (Str × Str) := FormUrlencoded.parse (uri.query.getD [])

def bootstrapPairs (clientId : Option Str) (weavegateVersion : Str) : List (Str × Str) :=
  ("weavegate".toList, weavegateVersion) ::
    ((clientId.filter (· ≠ [])).map fun client => ("client".toList, client)).toList

/-- What is appended to the URL after the separator. -/
def bootstrapQuery (clientId : Option Str) (weavegateVersion : Str) : Str :=
  "weavegate=".toList ++ urlEncodeComponent weavegateVersion ++
    (clientId.filter (· ≠ [])).elim [] fun client => '&' :: "client=".toList ++ urlEncodeComponent client

theorem serialized_ne {s : Str} {c : Char} (hc : FormUrlencoded.isSerialized c = false) : c ∉ urlEncodeComponent s := by
  intro hmem
  rw [FormUrlencoded.isSerialized_byteSerialize hmem] at hc
  cases hc

theorem hash_not_mem_bootstrapQuery (clientId : Option Str) (weavegateVersion : Str) :
    '#' ∉ bootstrapQuery clientId weavegateVersion := by
  have hone : ∀ {s}, '#' ∉ urlEncodeComponent s := serialized_ne (by decide)
  unfold bootstrapQuery
  cases clientId.filter (· ≠ []) <;> simp [hone]

theorem parse_component (name value : Str) (hname : '&' ∉ name ∧ '=' ∉ name)
    (hdecode : FormUrlencoded.decode name = name) :
    FormUrlencoded.parse (name ++ '=' :: urlEncodeComponent value) = [(name, value)] := by
  have hclean : ∀ c ∈ name, c ≠ '&' ∧ c ≠ '=' := fun c hc =>
    ⟨ne_of_mem_of_not_mem hc hname.1, ne_of_mem_of_not_mem hc hname.2⟩
  rw [FormUrlencoded.parse_pair hclean (serialized_ne (by decide)), hdecode, urlEncodeComponent,
    FormUrlencoded.decode_byteSerialize]

theorem parse_bootstrapQuery (clientId : Option Str) (weavegateVersion : Str) :
    FormUrlencoded.parse (bootstrapQuery clientId weavegateVersion) = bootstrapPairs clientId weavegateVersion := by
  have hversion : FormUrlencoded.parse ("weavegate=".toList ++ urlEncodeComponent weavegateVersion) =
      [("weavegate".toList, weavegateVersion)] :=
    parse_component "weavegate".toList weavegateVersion (by decide) (by decide)
  unfold bootstrapQuery bootstrapPairs
  cases clientId.filter (· ≠ []) with
  | none => rw [Option.elim_none, List.append_nil, hversion]; rfl
  | some client =>
      have hclient : FormUrlencoded.parse ("client=".toList ++ urlEncodeComponent client) =
          [("client".toList, client)] :=
        parse_component "client".toList client (by decide) (by decide)
      rw [Option.elim_some, List.cons_append, FormUrlencoded.parse_append, hversion, hclient]
      rfl

theorem buildBootstrapUri_eq_ok {parseUri : Str → Option Uri} {base : Str} {clientId : Option Str}
    {weavegateVersion : Str} {uri : Uri} (h : buildBootstrapUri parseUri base clientId weavegateVersion = .ok uri) :
    parseUri (base ++ (if '?' ∈ base then '&' else '?') :: bootstrapQuery clientId weavegateVersion) = some uri := by
  unfold buildBootstrapUri at h
  dsimp only at h
  split at h
  · rename_i hsome
    cases h
    rw [← hsome]
    congr 1
    unfold bootstrapQuery
    cases clientId.filter (· ≠ []) <;> simp
  · cases h

/-! ## What the control plane reads -/

/-- The request carries the query of the configured URL and the pairs exactly when the URL has no fragment: they are
appended to its text, and a fragment is not sent. -/
theorem bootstrapUri_pairs_iff {parseUri : Str → Option Uri} (hparse : AbsoluteTexts parseUri) {base : Str} {u : Uri}
    (hbase : parseUri base = some u) (hscheme : u.scheme.isSome = true) (hauthority : u.authority.isSome = true)
    {clientId : Option Str} {weavegateVersion : Str} {uri : Uri}
    (h : buildBootstrapUri parseUri base clientId weavegateVersion = .ok uri) :
    (uri.scheme = u.scheme ∧ uri.authority = u.authority ∧ uri.path = u.path ∧
      queryPairs uri = queryPairs u ++ bootstrapPairs clientId weavegateVersion) ↔ '#' ∉ base := by
  have huri := buildBootstrapUri_eq_ok h
  obtain ⟨start, tail, rfl, hquestion, hhash, htail, hread⟩ := hparse.divide hbase hscheme hauthority
  have hmem : ∀ {c}, c ∉ start → (c ∈ start ++ tail ↔ c ∈ tail) := fun hc => by simp [hc]
  have hif : (if '?' ∈ start ++ tail then '&' else '?') = if '?' ∈ tail then '&' else '?' :=
    if_congr (hmem hquestion) rfl rfl
  rw [List.append_assoc, hif] at huri
  have hextended : IsTail (tail ++ (if '?' ∈ tail then '&' else '?') :: bootstrapQuery clientId weavegateVersion) := by
    cases tail with
    | nil => exact .inr (.inr (.inl rfl))
    | cons c tail => exact .inr (htail.resolve_left (List.cons_ne_nil _ _))
  obtain ⟨pq, hpq, hu⟩ := hread tail u htail hbase
  obtain ⟨pq', hpq', hu'⟩ := hread _ uri hextended huri
  rw [hmem hhash, hu']
  constructor
  · rintro ⟨_, _, _, hpairs⟩ hfragment
    rw [beforeHash_append_of_mem hfragment, hpq] at hpq'
    cases hpq'
    rw [← hu] at hpairs
    simp [bootstrapPairs] at hpairs
  · intro hfragment
    have hnot : '#' ∉ tail ++ (if '?' ∈ tail then '&' else '?') :: bootstrapQuery clientId weavegateVersion := by
      have hq := hash_not_mem_bootstrapQuery clientId weavegateVersion
      split <;> simp [hfragment, hq]
    rw [beforeHash_of_not_mem hfragment] at hpq
    rw [beforeHash_of_not_mem hnot] at hpq'
    obtain ⟨hpath, hquery⟩ := PathAndQuery.parse_extend hpq hpq'
    have hupath : u.path = pq.path := by rw [hu]; rfl
    have huquery : u.query = pq.query := by rw [hu]; rfl
    refine ⟨rfl, rfl, ?_, ?_⟩
    · rw [hupath]
      show pq'.path = _
      rw [PathAndQuery.path, PathAndQuery.path, hpath]
    · unfold queryPairs
      rw [huquery]
      show FormUrlencoded.parse (pq'.query.getD []) = _
      rw [hquery, Option.getD_some]
      cases pq.query with
      | none => rw [Option.elim_none, Option.getD_none, parse_bootstrapQuery, FormUrlencoded.parse_nil, List.nil_append]
      | some q => rw [Option.elim_some, Option.getD_some, FormUrlencoded.parse_append, parse_bootstrapQuery]

def sampleUri (rawPath query : Str) (hp : rawPath.all isPathChar = true) (hq : query.all isQueryChar = true) : Uri :=
  ⟨some "http".toList, some "cp".toList, some ⟨rawPath, some query, hp, hq⟩⟩

theorem bootstrapUri_pairs_sample :
    buildBootstrapUri parseHttpText "http://cp/r?a=%2B".toList (some "é&".toList) "1+2".toList = .ok
      (sampleUri "/r".toList "a=%2B&weavegate=1%2B2&client=%C3%A9%26".toList (by decide) (by decide)) ∧
    queryPairs (sampleUri "/r".toList "a=%2B&weavegate=1%2B2&client=%C3%A9%26".toList (by decide) (by decide)) =
      queryPairs (sampleUri "/r".toList "a=%2B".toList (by decide) (by decide)) ++
        [("weavegate".toList, "1+2".toList), ("client".toList, "é&".toList)] := by
  have hbuilt : buildBootstrapUri parseHttpText "http://cp/r?a=%2B".toList (some "é&".toList) "1+2".toList = .ok
      (sampleUri "/r".toList "a=%2B&weavegate=1%2B2&client=%C3%A9%26".toList (by decide) (by decide)) := by rfl
  have hbase : parseHttpText "http://cp/r?a=%2B".toList =
      some (sampleUri "/r".toList "a=%2B".toList (by decide) (by decide)) := by rfl
  exact ⟨hbuilt, ((bootstrapUri_pairs_iff absoluteTexts_parseHttpText hbase rfl rfl hbuilt).mpr (by decide)).2.2.2⟩

/-- The version and the client are appended to the fragment `#top`, which is not sent. -/
theorem bootstrapUri_fragment_loses_pairs : ∃ uri,
    buildBootstrapUri parseHttpText "http://cp/r?a=b#top".toList (some "c".toList) "1".toList = .ok uri ∧
      parseHttpText "http://cp/r?a=b#top".toList = some uri ∧ queryPairs uri = [("a".toList, "b".toList)] ∧
      queryPairs uri ≠ queryPairs uri ++ bootstrapPairs (some "c".toList) "1".toList := by
  refine ⟨sampleUri "/r".toList "a=b".toList (by decide) (by decide), by rfl, by rfl, by decide +kernel, ?_⟩
  simp [bootstrapPairs]

end WeaveGate.Routes
