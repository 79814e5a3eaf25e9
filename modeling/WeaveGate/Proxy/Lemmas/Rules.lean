import WeaveGate.Lib.Checked
import WeaveGate.Lib.StableSort
import WeaveGate.Proxy.Rules

/-!
# What sorting, compiling and scanning do to the definitions

Sorting is stable and compiling keeps the order, so the rule that a request takes is the compiled form of the
first definition, in merge order, that no other matching definition precedes.
-/

namespace WeaveGate.Proxy

open Http Settings

variable {globs : GlobSet} {parseUri : Str → Option Uri}

/-! ## The order on definitions -/

theorem specificityLe_iff {a b : Proxy} : specificityLe a b = true ↔
    Text.len b.source < Text.len a.source ∨
      Text.len b.source = Text.len a.source ∧ b.source.count '*' ≤ a.source.count '*' :=
  decide_eq_true_iff

theorem specificityLe_trans (a b c : Proxy) (hab : specificityLe a b = true) (hbc : specificityLe b c = true) :
    specificityLe a c = true := by
  rw [specificityLe_iff] at hab hbc ⊢
  omega

theorem specificityLe_total (a b : Proxy) : (specificityLe a b || specificityLe b a) = true := by
  rw [Bool.or_eq_true, specificityLe_iff, specificityLe_iff]
  omega

/-! ## Compiling one definition -/

theorem compileProxyRule_ok {entry : Proxy} {rule : ProxyRule}
    (h : compileProxyRule globs parseUri entry = .ok rule) :
    rule.host = entry.host ∧ rule.source = ⟨entry.source⟩ ∧ rule.stripPrefix = entry.stripPrefix := by
  unfold compileProxyRule at h
  split at h
  · cases h
  · split at h
    · cases h
    · obtain ⟨_, _, h⟩ := Checked.bind_eq_ok.mp h
      obtain ⟨_, _, h⟩ := Checked.bind_eq_ok.mp h
      obtain ⟨_, _, h⟩ := Checked.bind_eq_ok.mp h
      cases h
      exact ⟨rfl, rfl, rfl⟩

theorem parseProxyTargetUrl_eq_ok {url context : Str} {target : Uri} :
    parseProxyTargetUrl parseUri url context = .ok target ↔
      parseUri (Text.trim url) = some target ∧ target.scheme.isSome = true ∧ target.authority.isSome = true := by
  unfold parseProxyTargetUrl
  split
  · rename_i hparse
    simp [hparse]
  · rename_i u hparse
    simp only [hparse, Option.some.injEq]
    split
    · rename_i hscheme
      simp only [reduceCtorEq, false_iff]
      rintro ⟨rfl, hs, _⟩
      simp [Option.isNone_iff_eq_none.mp hscheme] at hs
    · split
      · rename_i hauthority
        simp only [reduceCtorEq, false_iff]
        rintro ⟨rfl, _, ha⟩
        simp [Option.isNone_iff_eq_none.mp hauthority] at ha
      · rename_i hscheme hauthority
        simp only [Except.ok.injEq]
        refine ⟨fun h => ⟨h, ?_⟩, And.left⟩
        subst h
        simpa [Option.isNone_iff_eq_none, Option.isSome_iff_ne_none] using And.intro hscheme hauthority

theorem upstreamUriTemplate_isOk {base : Uri} (hscheme : base.scheme.isSome = true)
    (hauthority : base.authority.isSome = true) (stripPrefix : Option Str) :
    ∃ template, upstreamUriTemplate base stripPrefix = .ok template := by
  obtain ⟨scheme, hs⟩ := Option.isSome_iff_exists.mp hscheme
  obtain ⟨authority, ha⟩ := Option.isSome_iff_exists.mp hauthority
  unfold upstreamUriTemplate
  rw [hs, ha]
  exact ⟨_, rfl⟩

/-- The upstream texts of a definition, none for one with both kinds of targets or neither. -/
def upstreamUrls (d : Proxy) : Option (List Str) :=
  match d.target.any (fun t => Text.trim t ≠ []), d.targets.any (fun ts => ts ≠ []) with
  | true, false => some [d.target.getD []]
  | false, true => some (d.targets.getD [])
  | _, _ => none

/-- A URL with a scheme and a host. -/
def IsTarget (parseUri : Str → Option Uri) (url : Str) : Prop :=
  ∃ target, parseUri (Text.trim url) = some target ∧ target.scheme.isSome = true ∧ target.authority.isSome = true

structure Compilable (globs : GlobSet) (parseUri : Str → Option Uri) (d : Proxy) : Prop where
  source : globs.accepts d.source = true
  stripPrefix : d.stripPrefix.all (Text.startsWith · '/') = true
  upstreams : ∃ urls, upstreamUrls d = some urls ∧ ∀ url ∈ urls, IsTarget parseUri url

theorem compileProxyTargets_isOk_iff {d : Proxy} :
    (∃ targets, compileProxyTargets parseUri d = .ok targets) ↔
      ∃ urls, upstreamUrls d = some urls ∧ ∀ url ∈ urls, IsTarget parseUri url := by
  unfold compileProxyTargets upstreamUrls IsTarget
  cases d.target.any (fun t => Text.trim t ≠ []) with
  | true =>
      cases d.targets.any (fun ts => ts ≠ []) with
      | true => simp
      | false =>
          simp only [Checked.bind_eq_ok, Checked.pure_eq_ok, parseProxyTargetUrl_eq_ok, Option.some.injEq,
            exists_eq_left', List.forall_mem_singleton]
          constructor
          · rintro ⟨_, target, htarget, _⟩
            exact ⟨target, htarget⟩
          · rintro ⟨target, htarget⟩
            exact ⟨_, target, htarget, rfl⟩
  | false =>
      cases d.targets.any (fun ts => ts ≠ []) with
      | true =>
          simp only [Checked.mapM_isOk_iff, parseProxyTargetUrl_eq_ok, Option.some.injEq, exists_eq_left']
          constructor
          · intro h url hurl
            obtain ⟨i, hi⟩ := List.getElem?_of_mem hurl
            exact h (url, i) (List.mk_mem_zipIdx_iff_getElem?.mpr hi)
          · rintro h ⟨url, i⟩ hi
            exact h url (List.fst_mem_of_mem_zipIdx hi)
      | false => simp

/-- The targets of a compiled definition. There is at least one, and each has a scheme and a host. -/
theorem compileProxyTargets_ok {d : Proxy} {targets : List Uri} (h : compileProxyTargets parseUri d = .ok targets) :
    targets ≠ [] ∧ ∀ target ∈ targets, target.scheme.isSome = true ∧ target.authority.isSome = true := by
  unfold compileProxyTargets at h
  dsimp only at h
  split at h
  · cases h
  · cases h
  · obtain ⟨target, htarget, h⟩ := Checked.bind_eq_ok.mp h
    rw [Checked.pure_eq_ok] at h
    subst h
    exact ⟨List.cons_ne_nil _ _, by simpa using (parseProxyTargetUrl_eq_ok.mp htarget).2⟩
  · rename_i _ hsome
    refine ⟨?_, fun target htarget => ?_⟩
    · rintro rfl
      obtain ⟨ts, hts, hne⟩ := (Option.any_eq_true _ _).mp hsome
      have hlen := (Checked.mapM_eq_ok.mp h).length_eq
      simp only [hts, Option.getD_some, List.length_zipIdx, List.length_nil] at hlen
      exact of_decide_eq_true hne (List.eq_nil_of_length_eq_zero hlen)
    · obtain ⟨⟨url, i⟩, _, hurl⟩ := Checked.mapM_mem h htarget
      exact (parseProxyTargetUrl_eq_ok.mp hurl).2

theorem compileProxyRule_isOk_iff {d : Proxy} :
    (∃ rule, compileProxyRule globs parseUri d = .ok rule) ↔ Compilable globs parseUri d := by
  have hslash : (d.stripPrefix.any fun p => !Text.startsWith p '/') = !d.stripPrefix.all (Text.startsWith · '/') := by
    cases d.stripPrefix <;> simp
  unfold compileProxyRule
  rw [hslash]
  constructor
  · rintro ⟨rule, h⟩
    split at h
    · cases h
    · rename_i hsource
      split at h
      · cases h
      · rename_i hpre
        obtain ⟨targets, htargets, _⟩ := Checked.bind_eq_ok.mp h
        exact ⟨by simpa using hsource, by simpa using hpre, compileProxyTargets_isOk_iff.mp ⟨targets, htargets⟩⟩
  · rintro ⟨hsource, hpre, hupstreams⟩
    obtain ⟨targets, htargets⟩ := compileProxyTargets_isOk_iff.mpr hupstreams
    obtain ⟨hne, hall⟩ := compileProxyTargets_ok htargets
    obtain ⟨templates, htemplates⟩ : ∃ templates,
        targets.mapM (fun u => upstreamUriTemplate u d.stripPrefix) = .ok templates :=
      Checked.mapM_isOk_iff.mpr fun u hu => upstreamUriTemplate_isOk (hall u hu).1 (hall u hu).2 _
    rw [if_neg (by simp [hsource]), if_neg (by simp [hpre])]
    refine ⟨_, Checked.bind_eq_ok.mpr ⟨targets, htargets, Checked.bind_eq_ok.mpr ⟨templates, htemplates,
      Checked.bind_eq_ok.mpr ⟨⟨d.name, targets, hne⟩, ?_, rfl⟩⟩⟩⟩
    exact dif_neg hne

/-! ## The definition a request selects -/

def defMatches (globs : GlobSet) {β : Type} (req : Request β) (d : Proxy) : Bool :=
  (requestHost req).any fun host => d.host.all (· = host) && globs.isMatch ⟨d.source⟩ req.uri.path

theorem ruleMatches_eq_defMatches {β : Type} {req : Request β} {host : Str} (hhost : requestHost req = some host)
    {d : Proxy} {rule : ProxyRule} (h : compileProxyRule globs parseUri d = .ok rule) :
    ruleMatches globs host req.uri.path rule = defMatches globs req d := by
  obtain ⟨hh, hs, _⟩ := compileProxyRule_ok h
  simp [ruleMatches, defMatches, hhost, hh, hs]

theorem defMatches_of_no_host {β : Type} {req : Request β} (hhost : requestHost req = none) (d : Proxy) :
    defMatches globs req d = false := by
  simp [defMatches, hhost]

/-- The first definition, in merge order, that sorts before every other matching one. -/
def selectedDef (globs : GlobSet) {β : Type} (defs : List Proxy) (req : Request β) : Option Proxy :=
  defs.find? fun d => decide (StableSort.IsBest specificityLe (defMatches globs req) defs d)

theorem selectedDef_eq_find?_sorted {β : Type} (defs : List Proxy) (req : Request β) :
    selectedDef globs defs req = (sortProxyDefsBySpecificity defs).find? (defMatches globs req) :=
  (StableSort.find?_mergeSort specificityLe_trans specificityLe_total _ _).symm

/-- Scanning the compiled rules finds the compiled form of the selected definition. -/
theorem findRule_compiled {β : Type} {defs : List Proxy} {rules : List ProxyRule} {req : Request β}
    (h : compileProxyRules globs parseUri (sortProxyDefsBySpecificity defs) = .ok rules) {rule : ProxyRule}
    (hr : findRule globs (some rules) req = some rule) :
    ∃ d, selectedDef globs defs req = some d ∧ compileProxyRule globs parseUri d = .ok rule := by
  simp only [findRule, Option.bind_eq_bind, Option.bind_some, Option.bind_eq_some_iff] at hr
  obtain ⟨host, hhost, hr⟩ := hr
  rw [selectedDef_eq_find?_sorted]
  exact Checked.find?_forall₂ (Checked.mapM_eq_ok.mp h)
    (fun _ _ hd => ruleMatches_eq_defMatches hhost hd) rule hr

theorem findRule_compiled_isSome {β : Type} {defs : List Proxy} {rules : List ProxyRule} {req : Request β}
    (h : compileProxyRules globs parseUri (sortProxyDefsBySpecificity defs) = .ok rules) :
    (findRule globs (some rules) req).isSome = (selectedDef globs defs req).isSome := by
  rw [selectedDef_eq_find?_sorted]
  cases hhost : requestHost req with
  | none =>
      have : (sortProxyDefsBySpecificity defs).find? (defMatches globs req) = none :=
        List.find?_eq_none.mpr fun d _ => by simp [defMatches_of_no_host hhost]
      simp [findRule, hhost, this]
  | some host =>
      simp only [findRule, hhost, Option.bind_eq_bind, Option.bind_some]
      exact Checked.find?_forall₂_isSome (Checked.mapM_eq_ok.mp h)
        (fun _ _ hd => ruleMatches_eq_defMatches hhost hd)

theorem selectedDef_eq_some {β : Type} {defs : List Proxy} {req : Request β} {d : Proxy}
    (h : selectedDef globs defs req = some d) :
    d ∈ defs ∧ StableSort.IsBest specificityLe (defMatches globs req) defs d :=
  ⟨List.mem_of_find?_eq_some h, by simpa using List.find?_some h⟩

/-! ## Resolving -/

theorem resolveRules_ok {fetch : RoutesBootstrap → Except Error (Option (List Proxy))} {adv adv' : Advanced}
    {defs : List Proxy} (hp : adv.proxies = none) (hm : mergeProxyDefs fetch adv = .ok defs)
    (h : resolveRules globs parseUri fetch (some adv) = .ok (some adv')) :
    defs = [] ∧ adv' = adv ∨
      ∃ rules, compileProxyRules globs parseUri (sortProxyDefsBySpecificity defs) = .ok rules ∧
        adv' = { adv with proxies := some rules } := by
  simp only [resolveRules, hp, Option.isSome_none, Bool.false_eq_true, ↓reduceIte] at h
  obtain ⟨defs', hd, h⟩ := Checked.bind_eq_ok.mp h
  rw [hm] at hd
  cases hd
  split at h
  · rename_i hnil
    exact .inl ⟨hnil, by simpa [eq_comm] using h⟩
  · obtain ⟨rules, hr, h⟩ := Checked.bind_eq_ok.mp h
    rw [Checked.pure_eq_ok, Option.some.injEq] at h
    exact .inr ⟨rules, hr, h.symm⟩

theorem resolveRules_of_compiled {fetch : RoutesBootstrap → Except Error (Option (List Proxy))} {adv : Advanced}
    {defs : List Proxy} {rules : List ProxyRule} (hp : adv.proxies = none)
    (hm : mergeProxyDefs fetch adv = .ok defs) (hne : defs ≠ [])
    (h : compileProxyRules globs parseUri (sortProxyDefsBySpecificity defs) = .ok rules) :
    resolveRules globs parseUri fetch (some adv) = .ok (some { adv with proxies := some rules }) := by
  simp only [resolveRules, hp, Option.isSome_none, Bool.false_eq_true, ↓reduceIte]
  refine Checked.bind_eq_ok.mpr ⟨defs, hm, ?_⟩
  rw [if_neg hne]
  exact Checked.bind_eq_ok.mpr ⟨rules, h, rfl⟩

end WeaveGate.Proxy
