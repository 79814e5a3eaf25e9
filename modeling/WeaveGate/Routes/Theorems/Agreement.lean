import WeaveGate.Proxy.Theorems
import WeaveGate.Routes.Bootstrap

/-!
# Definitions from the file and from the control plane

The same proxy definitions reach the compiler from the configuration file and from a routes document. The two
ways agree when the sources pass the checks that only the document makes.
-/

namespace WeaveGate.Routes

open Http Settings WeaveGate.Proxy

variable {globs : GlobSet} {parseUri : Str → Option Uri}

/-! ## The two ways -/

def RouteEntry.ofDef (d : Proxy) : RouteEntry :=
  { name := d.name, host := d.host, source := d.source, target := d.target, targets := d.targets
    stripPrefix := d.stripPrefix }

/-- A document with the definitions as its routes, grouped by any applications. -/
structure RoutesDocument.Lists (doc : RoutesDocument) (defs : List Proxy) : Prop where
  version : doc.version = 1
  routes : doc.apps.flatMap (·.routes) = defs.map RouteEntry.ofDef

/-- The rules that are active after `resolve_rules`. -/
def activeRules (globs : GlobSet) (parseUri : Str → Option Uri)
    (fetch : RoutesBootstrap → Except Error (Option (List Proxy))) (adv : Advanced) :
    Except Error (List ProxyRule) :=
  (resolveRules globs parseUri fetch (some adv)).map fun adv => (adv.bind (·.proxies)).getD []

/-- The rules from the configuration file alone. -/
def tomlRules (globs : GlobSet) (parseUri : Str → Option Uri) (adv : Advanced) (defs : List Proxy) :
    Except Error (List ProxyRule) :=
  activeRules globs parseUri (fun _ => .ok none)
    { adv with proxies := none, proxyDefs := some defs, routesBootstrap := none }

/-- The rules from a fetched document alone. -/
def bootstrapRules (globs : GlobSet) (parseUri : Str → Option Uri) (adv : Advanced) (bootstrap : RoutesBootstrap)
    (doc : RoutesDocument) : Except Error (List ProxyRule) :=
  activeRules globs parseUri (fun _ => doc.intoProxyDefs.map some)
    { adv with proxies := none, proxyDefs := none, routesBootstrap := some bootstrap }

/-! ## Agreement -/

def ValidSource (source : Str) : Prop := Text.startsWith source '/' = true ∧ Text.contains source "..".toList = false

structure ValidRule (rule : ProxyRule) : Prop where
  source : ValidSource rule.source.glob
  stripPrefix : rule.stripPrefix.all (Text.startsWith · '/') = true

structure WaysAgree (toml bootstrap : Except Error (List ProxyRule)) : Prop where
  accepted : (∃ rules, toml = .ok rules) ↔ ∃ rules, bootstrap = .ok rules
  same : ∀ rules rules', toml = .ok rules → bootstrap = .ok rules' → rules = rules'
  valid : ∀ rules, toml = .ok rules ∨ bootstrap = .ok rules → ∀ rule ∈ rules, ValidRule rule

theorem activeRules_eq {fetch : RoutesBootstrap → Except Error (Option (List Proxy))} {adv : Advanced}
    (hp : adv.proxies = none) : activeRules globs parseUri fetch adv =
      mergeProxyDefs fetch adv >>= fun defs => compileProxyRules globs parseUri (sortProxyDefsBySpecificity defs) := by
  simp only [activeRules, resolveRules, hp, Option.isSome_none, Bool.false_eq_true, ↓reduceIte]
  cases mergeProxyDefs fetch adv with
  | error e => rfl
  | ok defs =>
      dsimp only [bind, Except.bind]
      split
      · rename_i hnil
        simp [hnil, hp, sortProxyDefsBySpecificity, compileProxyRules, Except.map, pure, Except.pure]
      · cases compileProxyRules globs parseUri (sortProxyDefsBySpecificity defs) <;> rfl

theorem tomlRules_eq (adv : Advanced) (defs : List Proxy) : tomlRules globs parseUri adv defs =
    compileProxyRules globs parseUri (sortProxyDefsBySpecificity defs) :=
  activeRules_eq rfl

theorem bootstrapRules_eq (adv : Advanced) (bootstrap : RoutesBootstrap) (doc : RoutesDocument) :
    bootstrapRules globs parseUri adv bootstrap doc = doc.intoProxyDefs >>= fun defs =>
      compileProxyRules globs parseUri (sortProxyDefsBySpecificity defs) := by
  rw [bootstrapRules, activeRules_eq rfl, mergeProxyDefs]
  cases doc.intoProxyDefs <;> rfl

theorem validateRouteSource_eq_ok {source appId : Str} : validateRouteSource source appId = .ok () ↔ ValidSource source := by
  unfold validateRouteSource ValidSource
  cases Text.startsWith source '/' <;> cases Text.contains source "..".toList <;> simp

/-- The checks of `into_proxy_defs` on one route. -/
def ValidRoute (route : RouteEntry) : Prop :=
  ValidSource route.source ∧ route.stripPrefix.all (Text.startsWith · '/') = true

theorem intoProxyDef_eq_ok {appId : Str} {route : RouteEntry} {d : Proxy} :
    intoProxyDef appId route = .ok d ↔ ValidRoute route ∧ RouteEntry.ofDef d = route := by
  have hslash : (route.stripPrefix.any fun p => !Text.startsWith p '/') =
      !route.stripPrefix.all (Text.startsWith · '/') := by
    cases route.stripPrefix <;> simp
  unfold intoProxyDef
  rw [Checked.bind_eq_ok, hslash]
  constructor
  · rintro ⟨⟨⟩, hsource, h⟩
    split at h
    · cases h
    · rename_i hpre
      cases h
      exact ⟨⟨validateRouteSource_eq_ok.mp hsource, by simpa using hpre⟩, rfl⟩
  · rintro ⟨⟨hsource, hpre⟩, rfl⟩
    refine ⟨(), validateRouteSource_eq_ok.mpr hsource, ?_⟩
    rw [if_neg (by simp [hpre])]
    rfl

theorem ofDef_injective : Function.Injective RouteEntry.ofDef := by
  rintro ⟨⟩ ⟨⟩ h
  cases h
  rfl

section

variable {doc : RoutesDocument} {defs defs' : List Proxy}

theorem RoutesDocument.Lists.pairs (h : doc.Lists defs) :
    (doc.apps.flatMap fun app => app.routes.map (app.id, ·)).map Prod.snd = defs.map RouteEntry.ofDef := by
  rw [← h.routes, List.map_flatMap]
  simp [Function.comp_def]

theorem RoutesDocument.Lists.isOk_iff (h : doc.Lists defs) :
    (∃ defs', doc.intoProxyDefs = .ok defs') ↔ ∀ d ∈ defs, ValidRoute (.ofDef d) := by
  unfold RoutesDocument.intoProxyDefs
  rw [if_neg (by simp [h.version]), Checked.mapM_isOk_iff]
  simp only [intoProxyDef_eq_ok]
  have hpairs : ∀ route, (∃ appId, (appId, route) ∈ doc.apps.flatMap fun app => app.routes.map (app.id, ·)) ↔
      ∃ d ∈ defs, RouteEntry.ofDef d = route := fun route => by
    rw [← List.mem_map, ← h.pairs, List.mem_map]
    exact ⟨fun ⟨appId, hmem⟩ => ⟨_, hmem, rfl⟩, fun ⟨r, hmem, hr⟩ => ⟨r.1, hr ▸ hmem⟩⟩
  constructor
  · intro hall d hd
    obtain ⟨appId, hmem⟩ := (hpairs (.ofDef d)).mpr ⟨d, hd, rfl⟩
    exact (hall _ hmem).choose_spec.1
  · rintro hall ⟨appId, route⟩ hmem
    obtain ⟨d, hd, rfl⟩ := (hpairs route).mp ⟨appId, hmem⟩
    exact ⟨d, hall d hd, rfl⟩

theorem RoutesDocument.Lists.eq_of_ok (h : doc.Lists defs) (hok : doc.intoProxyDefs = .ok defs') : defs' = defs := by
  unfold RoutesDocument.intoProxyDefs at hok
  rw [if_neg (by simp [h.version]), Checked.mapM_eq_ok] at hok
  refine List.map_injective_iff.mpr ofDef_injective ?_
  rw [← h.pairs]
  generalize (doc.apps.flatMap fun app => app.routes.map (app.id, ·)) = pairs at hok
  induction hok with
  | nil => rfl
  | cons hroute _ ih => rw [List.map_cons, List.map_cons, ih, (intoProxyDef_eq_ok.mp hroute).2]

/-! ## When the ways agree -/

theorem compileProxyRules_isOk_iff :
    (∃ rules, compileProxyRules globs parseUri (sortProxyDefsBySpecificity defs) = .ok rules) ↔
      ∀ d ∈ defs, Compilable globs parseUri d := by
  simp only [compileProxyRules, Checked.mapM_isOk_iff, compileProxyRule_isOk_iff, sortProxyDefsBySpecificity,
    List.mem_mergeSort]

theorem bootstrapRules_isOk_iff (h : doc.Lists defs) {adv : Advanced} {bootstrap : RoutesBootstrap} :
    (∃ rules, bootstrapRules globs parseUri adv bootstrap doc = .ok rules) ↔
      (∀ d ∈ defs, Compilable globs parseUri d) ∧ ∀ d ∈ defs, ValidSource d.source := by
  rw [bootstrapRules_eq]
  simp only [Checked.bind_eq_ok]
  constructor
  · rintro ⟨rules, defs', hdefs, hrules⟩
    have hvalid := h.isOk_iff.mp ⟨defs', hdefs⟩
    cases h.eq_of_ok hdefs
    exact ⟨compileProxyRules_isOk_iff.mp ⟨rules, hrules⟩, fun d hd => (hvalid d hd).1⟩
  · rintro ⟨hcompilable, hsources⟩
    obtain ⟨defs', hdefs⟩ := h.isOk_iff.mpr fun d hd => ⟨hsources d hd, (hcompilable d hd).stripPrefix⟩
    cases h.eq_of_ok hdefs
    obtain ⟨rules, hrules⟩ := compileProxyRules_isOk_iff.mpr hcompilable
    exact ⟨rules, defs, hdefs, hrules⟩

theorem bootstrapRules_eq_tomlRules (h : doc.Lists defs) {adv : Advanced} {bootstrap : RoutesBootstrap}
    {rules : List ProxyRule} (hrules : bootstrapRules globs parseUri adv bootstrap doc = .ok rules) :
    tomlRules globs parseUri adv defs = .ok rules := by
  rw [bootstrapRules_eq] at hrules
  obtain ⟨defs', hdefs, hrules⟩ := Checked.bind_eq_ok.mp hrules
  cases h.eq_of_ok hdefs
  rw [tomlRules_eq]
  exact hrules

theorem waysAgree_iff (globs : GlobSet) (parseUri : Str → Option Uri) (adv : Advanced) (bootstrap : RoutesBootstrap)
    (h : doc.Lists defs) :
    WaysAgree (tomlRules globs parseUri adv defs) (bootstrapRules globs parseUri adv bootstrap doc) ↔
      ((∀ d ∈ defs, Compilable globs parseUri d) → ∀ d ∈ defs, ValidSource d.source) := by
  have htoml : (∃ rules, tomlRules globs parseUri adv defs = .ok rules) ↔
      ∀ d ∈ defs, Compilable globs parseUri d := by
    rw [tomlRules_eq]
    exact compileProxyRules_isOk_iff
  constructor
  · intro hagree hcompilable
    exact ((bootstrapRules_isOk_iff h).mp (hagree.accepted.mp (htoml.mpr hcompilable))).2
  · intro hcond
    refine ⟨?_, ?_, ?_⟩
    · rw [htoml, bootstrapRules_isOk_iff h]
      exact ⟨fun hc => ⟨hc, hcond hc⟩, And.left⟩
    · intro rules rules' hrules hrules'
      exact Except.ok.inj (hrules.symm.trans (bootstrapRules_eq_tomlRules h hrules'))
    · intro rules hrules rule hmem
      have hrules := hrules.elim id (bootstrapRules_eq_tomlRules h)
      have hcompilable := htoml.mp ⟨rules, hrules⟩
      rw [tomlRules_eq] at hrules
      obtain ⟨d, hd, hrule⟩ := Checked.mapM_mem hrules hmem
      have hd : d ∈ defs := List.mem_mergeSort.mp hd
      obtain ⟨_, hsource, hslash⟩ := compileProxyRule_ok hrule
      exact ⟨hsource ▸ hcond hcompilable d hd, hslash ▸ (hcompilable d hd).stripPrefix⟩

end

def sampleBootstrap : RoutesBootstrap :=
  { url := "http://control/routes".toList, timeoutSecs := none, cachePath := none, onFailure := none }

/-- A source without the slash at its start. -/
def bareDef : Proxy := sampleDef "api/**".toList

def documentOf (defs : List Proxy) : RoutesDocument := ⟨1, [⟨"app".toList, defs.map .ofDef⟩]⟩

theorem documentOf_lists (defs : List Proxy) : (documentOf defs).Lists defs := ⟨rfl, by simp [documentOf]⟩

/-- The file may hold the definition, the document may not. -/
theorem file_accepts_bare_source :
    ¬ WaysAgree (tomlRules starGlobs parseHttpUri (sampleAdvanced []) [bareDef])
      (bootstrapRules starGlobs parseHttpUri (sampleAdvanced []) sampleBootstrap (documentOf [bareDef])) := by
  intro h
  have hcompilable : Compilable starGlobs parseHttpUri bareDef :=
    ⟨rfl, rfl, ["http://h".toList], rfl, fun url hurl => by
      cases List.mem_singleton.mp hurl
      exact ⟨_, rfl, rfl, rfl⟩⟩
  have htoml : ∃ rules, tomlRules starGlobs parseHttpUri (sampleAdvanced []) [bareDef] = .ok rules := by
    rw [tomlRules_eq, compileProxyRules_isOk_iff]
    exact List.forall_mem_singleton.mpr hcompilable
  have hsources := ((bootstrapRules_isOk_iff (documentOf_lists [bareDef])).mp (h.accepted.mp htoml)).2
  exact absurd (hsources bareDef (List.mem_singleton_self _)).1 (by decide)

theorem waysAgree_iff_slash :
    WaysAgree (tomlRules starGlobs parseHttpUri (sampleAdvanced []) [sampleDef "/api/**".toList])
        (bootstrapRules starGlobs parseHttpUri (sampleAdvanced []) sampleBootstrap
          (documentOf [sampleDef "/api/**".toList])) ↔
      ((∀ d ∈ [sampleDef "/api/**".toList], Compilable starGlobs parseHttpUri d) →
        ∀ d ∈ [sampleDef "/api/**".toList], ValidSource d.source) :=
  waysAgree_iff starGlobs parseHttpUri (sampleAdvanced []) sampleBootstrap (documentOf_lists _)

end WeaveGate.Routes
