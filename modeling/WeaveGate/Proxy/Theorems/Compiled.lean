import WeaveGate.Proxy.Lemmas.Rules
import WeaveGate.Proxy.Forward
import WeaveGate.Http.UriParser

/-!
# What compiled rules hold

The targets, the balancer and the templates of a compiled rule stand in step with the URLs of its definition, so
the index that a request takes from the balancer's counter always names a template.
-/

namespace WeaveGate.Proxy

open Http Settings

variable {globs : GlobSet} {parseUri : Str → Option Uri}

/-! ## Targets -/

/-- The URLs that a definition gives, trimmed and without the blank ones. -/
def givenUrls (d : Proxy) : List Str :=
  ((d.target.toList ++ d.targets.getD []).map Text.trim).filter (· ≠ [])

theorem parses_of_accepted {url context : Str} {target : Uri}
    (h : parseProxyTargetUrl parseUri url context = .ok target) : parseUri (Text.trim url) = some target :=
  (parseProxyTargetUrl_eq_ok.mp h).1

/-- The empty text is no URI, so an accepted URL is not blank. -/
theorem trim_ne_nil_of_accepted (hempty : parseUri [] = none) {url context : Str} {target : Uri}
    (h : parseProxyTargetUrl parseUri url context = .ok target) : Text.trim url ≠ [] := by
  intro hnil
  have hparse := parses_of_accepted h
  rw [hnil, hempty] at hparse
  cases hparse

theorem map_some_eq_of_accepted {urls : List (Str × Nat)} {context : Str × Nat → Str} {targets : List Uri}
    (h : List.Forall₂ (fun p target => parseProxyTargetUrl parseUri p.1 (context p) = .ok target) urls targets) :
    targets.map some = (urls.map Prod.fst).map fun url => parseUri (Text.trim url) := by
  induction h with
  | nil => rfl
  | cons hurl _ ih => rw [List.map_cons, List.map_cons, List.map_cons, ih, parses_of_accepted hurl]

theorem trim_ne_nil_of_all_accepted (hempty : parseUri [] = none) {urls : List (Str × Nat)}
    {context : Str × Nat → Str} {targets : List Uri}
    (h : List.Forall₂ (fun p target => parseProxyTargetUrl parseUri p.1 (context p) = .ok target) urls targets) :
    ∀ url ∈ urls.map Prod.fst, Text.trim url ≠ [] := by
  induction h with
  | nil => simp
  | cons hurl _ ih =>
      rw [List.map_cons, List.forall_mem_cons]
      exact ⟨trim_ne_nil_of_accepted hempty hurl, ih⟩

theorem filter_trimmed_eq_self {urls : List Str} (h : ∀ url ∈ urls, Text.trim url ≠ []) :
    (urls.map Text.trim).filter (· ≠ []) = urls.map Text.trim := by
  refine List.filter_eq_self.mpr fun s hs => ?_
  obtain ⟨url, hurl, rfl⟩ := List.mem_map.mp hs
  exact decide_eq_true (h url hurl)

theorem trimmed_target_eq_nil {target : Option Str} (h : target.any (fun t => Text.trim t ≠ []) = false) :
    (target.toList.map Text.trim).filter (· ≠ []) = [] := by
  cases target with
  | none => rfl
  | some t =>
      rw [Option.any_some, decide_eq_false_iff_not, not_not] at h
      simp [h]

/-- The targets of a definition are the given URLs, parsed one by one. -/
theorem compileProxyTargets_given (hempty : parseUri [] = none) {d : Proxy} {targets : List Uri}
    (h : compileProxyTargets parseUri d = .ok targets) : targets.map some = (givenUrls d).map parseUri := by
  unfold compileProxyTargets at h
  dsimp only at h
  split at h
  · cases h
  · cases h
  · rename_i htarget htargets
    obtain ⟨target, hurl, h⟩ := Checked.bind_eq_ok.mp h
    rw [Checked.pure_eq_ok] at h
    subst h
    obtain ⟨url, hsome, hne⟩ := (Option.any_eq_true _ _).mp htarget
    have hnone : d.targets.getD [] = [] := by
      cases hd : d.targets with
      | none => rfl
      | some urls => simpa [hd] using htargets
    rw [hsome, Option.getD_some] at hurl
    have hgiven : givenUrls d = [Text.trim url] := by
      rw [givenUrls, hsome, hnone, Option.toList_some, List.append_nil, List.map_singleton,
        List.filter_singleton, hne, cond_true]
    rw [hgiven, List.map_singleton, List.map_singleton, parses_of_accepted hurl]
  · rename_i htarget _
    have hall := Checked.mapM_eq_ok.mp h
    have hne := trim_ne_nil_of_all_accepted hempty hall
    have hmap := map_some_eq_of_accepted hall
    rw [List.zipIdx_map_fst] at hne hmap
    rw [hmap, givenUrls, List.map_append, List.filter_append, trimmed_target_eq_nil htarget, List.nil_append,
      filter_trimmed_eq_self hne, List.map_map]
    rfl

/-! ## Rules -/

theorem buildUpstreamUri_ne_out_of_range (template : UpstreamUriTemplate) (reqUri : Uri) :
    buildUpstreamUriFromTemplate parseUri template reqUri ≠
      .error "proxy URI template index out of range".toList := by
  intro h
  unfold buildUpstreamUriFromTemplate requireSlash at h
  split at h
  · cases hparse : parseUri (template.origin ++ mergedPath template ['/']) with
    | none => simp [bind, Except.bind, hparse] at h
    | some u => simp [bind, Except.bind, hparse] at h
  · split at h
    · simp only [bind, Except.bind] at h
      cases hparse : parseUri (template.origin ++ mergedPath template
          (strippedPathAndQuery template.stripPrefix (reqUri.pathAndQuery.elim ['/'] PathAndQuery.asStr))) with
      | none => simp [hparse] at h
      | some u => simp [hparse] at h
    · simp [bind, Except.bind] at h

/-- The counter of the balancer picks a target, and the template of that target builds the upstream URI. -/
structure PicksTemplate (parseUri : Str → Option Uri) (rule : ProxyRule) (stripPrefix : Option Str) (ticket : Nat)
    (reqUri : Uri) : Prop where
  divisor : rule.balancer.targets.length ≠ 0
  built : ∃ target template,
    rule.balancer.targets[ticket % rule.balancer.targets.length]? = some target ∧
    upstreamUriTemplate target stripPrefix = .ok template ∧
    upstreamUriForRule parseUri rule ticket reqUri = buildUpstreamUriFromTemplate parseUri template reqUri
  in_range : upstreamUriForRule parseUri rule ticket reqUri ≠ .error "proxy URI template index out of range".toList

/-- A rule as it was compiled from its definition. -/
structure CompiledFrom (parseUri : Str → Option Uri) (d : Proxy) (rule : ProxyRule) : Prop where
  host : rule.host = d.host
  source : rule.source = ⟨d.source⟩
  targets : rule.balancer.targets.map some = (givenUrls d).map parseUri
  nonempty : rule.balancer.targets ≠ []
  length : rule.uriTemplates.length = rule.balancer.targets.length
  templates : List.Forall₂ (fun target template => upstreamUriTemplate target d.stripPrefix = .ok template)
    rule.balancer.targets rule.uriTemplates
  picks : ∀ ticket reqUri, PicksTemplate parseUri rule d.stripPrefix ticket reqUri

theorem picksTemplate_of_templates {rule : ProxyRule} {stripPrefix : Option Str}
    (h : List.Forall₂ (fun target template => upstreamUriTemplate target stripPrefix = .ok template)
      rule.balancer.targets rule.uriTemplates) (ticket : Nat) (reqUri : Uri) :
    PicksTemplate parseUri rule stripPrefix ticket reqUri := by
  have hlen : rule.balancer.targets.length ≠ 0 := fun h0 => rule.balancer.nonempty (List.eq_nil_of_length_eq_zero h0)
  have hi : ticket % rule.balancer.targets.length < rule.balancer.targets.length :=
    Nat.mod_lt _ (Nat.pos_of_ne_zero hlen)
  have hi' : ticket % rule.balancer.targets.length < rule.uriTemplates.length := h.length_eq ▸ hi
  have hbuilt : upstreamUriForRule parseUri rule ticket reqUri =
      buildUpstreamUriFromTemplate parseUri rule.uriTemplates[ticket % rule.balancer.targets.length] reqUri := by
    simp only [upstreamUriForRule, ProxyBalancer.nextIndex, List.getElem?_eq_getElem hi']
  refine ⟨hlen, ⟨_, _, List.getElem?_eq_getElem hi, h.get hi hi', hbuilt⟩, ?_⟩
  rw [hbuilt]
  exact buildUpstreamUri_ne_out_of_range _ reqUri

theorem compileProxyRule_compiledFrom (hempty : parseUri [] = none) {d : Proxy} {rule : ProxyRule}
    (h : compileProxyRule globs parseUri d = .ok rule) : CompiledFrom parseUri d rule := by
  obtain ⟨hhost, hsource, _⟩ := compileProxyRule_ok h
  unfold compileProxyRule at h
  split at h
  · cases h
  · split at h
    · cases h
    · obtain ⟨targets, htargets, h⟩ := Checked.bind_eq_ok.mp h
      obtain ⟨templates, htemplates, h⟩ := Checked.bind_eq_ok.mp h
      obtain ⟨balancer, hbalancer, h⟩ := Checked.bind_eq_ok.mp h
      unfold ProxyBalancer.new at hbalancer
      split at hbalancer
      · cases hbalancer
      · rename_i hne
        cases hbalancer
        cases h
        have hstep := Checked.mapM_eq_ok.mp htemplates
        exact ⟨hhost, hsource, compileProxyTargets_given hempty htargets, hne, hstep.length_eq.symm, hstep,
          picksTemplate_of_templates hstep⟩

theorem compileProxyRules_compiledFrom (hempty : parseUri [] = none) {entries : List Proxy}
    {rules : List ProxyRule} (h : compileProxyRules globs parseUri entries = .ok rules) :
    List.Forall₂ (CompiledFrom parseUri) entries rules :=
  (Checked.mapM_eq_ok.mp h).imp fun _ _ => compileProxyRule_compiledFrom hempty

def twoTargets : Proxy where
  name := none
  host := none
  source := "/api/**".toList
  target := some " ".toList
  targets := some ["http://a:3001".toList, " http://b:3002/v1 ".toList]
  stripPrefix := some "/api".toList

theorem compiledFrom_twoTargets : ∃ rules,
    compileProxyRules ⟨fun _ => true, fun _ _ => true⟩ parseHttpUri [twoTargets] = .ok rules ∧
      List.Forall₂ (CompiledFrom parseHttpUri) [twoTargets] rules := by
  obtain ⟨rules, h⟩ : ∃ rules,
      compileProxyRules ⟨fun _ => true, fun _ _ => true⟩ parseHttpUri [twoTargets] = .ok rules := ⟨_, rfl⟩
  exact ⟨rules, h, compileProxyRules_compiledFrom rfl h⟩

end WeaveGate.Proxy
