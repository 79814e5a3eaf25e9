import WeaveGate.Settings.Types

/-!
# From proxy definitions to rules

`proxy_sort.rs`, `proxy_compile.rs`, `resolve_rules` and `find_rule`: definitions from the configuration file
and from the control plane are merged, sorted by specificity and compiled, and a request takes the first rule
that matches it.
-/

namespace WeaveGate.Proxy

open Http Settings

/-! ## Sorting -/

/-- The length of a source in bytes and the number of its wildcards. -/
def specificityKey (source : Str) : Nat × Nat := (Text.len source, source.count '*')

/-- `key_b.cmp(&key_a)` is not greater: `a` may stand before `b`. Keys compare lexicographically. -/
def specificityLe (a b : Proxy) : Bool :=
  let keyA := specificityKey a.source
  let keyB := specificityKey b.source
  decide (keyB.1 < keyA.1 ∨ keyB.1 = keyA.1 ∧ keyB.2 ≤ keyA.2)

def sortProxyDefsBySpecificity (defs : List Proxy) : List Proxy := defs.mergeSort specificityLe

/-! ## Compiling -/

variable (globs : GlobSet) (parseUri : Str → Option Uri)

def parseProxyTargetUrl (url context : Str) : Except Error Uri :=
  match parseUri (Text.trim url) with
  | none => .error ("invalid proxy target URL (".toList ++ context ++ "): ".toList ++ url)
  | some target =>
      if target.scheme.isNone then
        .error ("proxy target must include a scheme (http:// or https://) (".toList ++ context ++ "): ".toList ++
          url)
      else if target.authority.isNone then
        .error ("proxy target must include a host (".toList ++ context ++ "): ".toList ++ url)
      else .ok target

def compileProxyTargets (entry : Proxy) : Except Error (List Uri) :=
  let hasTarget := entry.target.any fun t => Text.trim t ≠ []
  let hasTargets := entry.targets.any fun ts => ts ≠ []
  match hasTarget, hasTargets with
  | true, true =>
      .error ("proxy rule '".toList ++ entry.source ++ "' must use either `target` or `targets`, not both".toList)
  | false, false =>
      .error ("proxy rule '".toList ++ entry.source ++ "' must define `target` or `targets`".toList)
  | true, false => do
      let u ← parseProxyTargetUrl parseUri (entry.target.getD []) entry.source
      return [u]
  | false, true =>
      ((entry.targets.getD []).zipIdx).mapM fun (url, i) =>
        parseProxyTargetUrl parseUri url (entry.source ++ '#' :: Nat.toDigits 10 i)

def upstreamUriTemplate (base : Uri) (stripPrefix : Option Str) : Except Error UpstreamUriTemplate :=
  match base.authority, base.scheme with
  | none, _ => .error "upstream URI has no authority".toList
  | some _, none => .error "upstream URI has no scheme".toList
  | some authority, some scheme =>
      .ok { origin := scheme ++ "://".toList ++ authority
            basePath := if base.path = [] then ['/'] else base.path
            stripPrefix := stripPrefix }

/-- One turn of the loop of `compile_proxy_rules`. -/
def compileProxyRule (entry : Proxy) : Except Error ProxyRule :=
  if globs.accepts entry.source = false then
    .error ("can not compile glob pattern for proxy source: ".toList ++ entry.source)
  else if entry.stripPrefix.any fun p => !Text.startsWith p '/' then
    .error ("proxy strip-prefix must start with '/': ".toList ++ entry.stripPrefix.getD [])
  else do
    let upstreams ← compileProxyTargets parseUri entry
    let uriTemplates ← upstreams.mapM fun u => upstreamUriTemplate u entry.stripPrefix
    let balancer ← ProxyBalancer.new entry.name upstreams
    return { host := entry.host, source := ⟨entry.source⟩, balancer, stripPrefix := entry.stripPrefix, uriTemplates }

def compileProxyRules (entries : List Proxy) : Except Error (List ProxyRule) :=
  entries.mapM (compileProxyRule globs parseUri)

/-! ## Resolving the rules at startup -/

/-- The definitions of the configuration file followed by those of the control plane. `fetch` is
`fetch_routes_defs`. -/
def mergeProxyDefs (fetch : RoutesBootstrap → Except Error (Option (List Proxy))) (adv : Advanced) :
    Except Error (List Proxy) :=
  let defs := adv.proxyDefs.getD []
  match adv.routesBootstrap with
  | none => .ok defs
  | some bootstrap => do
      match ← fetch bootstrap with
      | none => return defs
      | some remote => return defs ++ remote

def resolveRules (fetch : RoutesBootstrap → Except Error (Option (List Proxy))) (advanced : Option Advanced) :
    Except Error (Option Advanced) :=
  match advanced with
  | none => .ok none
  | some adv =>
      if adv.proxies.isSome then .ok (some adv)
      else do
        let defs ← mergeProxyDefs fetch adv
        if defs = [] then .ok (some adv)
        else do
          let rules ← compileProxyRules globs parseUri (sortProxyDefsBySpecificity defs)
          return some { adv with proxies := some rules }

/-! ## Choosing a rule -/

def requestHost {β : Type} (req : Request β) : Option Str :=
  match req.uri.authority with
  | some authority => some (Authority.host authority)
  | none => do
      let value ← req.headers.get? .host
      let header ← HeaderValue.toStr value
      match Text.rsplitOnce ':' header with
      | some (potentialHost, potentialPort) =>
          if (Text.parseUnsigned 65535 potentialPort).isSome then return potentialHost else return header
      | none => return header

def ruleMatches (host path : Str) (rule : ProxyRule) : Bool :=
  rule.host.all (· = host) && globs.isMatch rule.source path

def findRule {β : Type} (proxies : Option (List ProxyRule)) (req : Request β) : Option ProxyRule := do
  let rules ← proxies
  let host ← requestHost req
  rules.find? (ruleMatches globs host req.uri.path)

end WeaveGate.Proxy
