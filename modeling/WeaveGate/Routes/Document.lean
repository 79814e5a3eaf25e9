import WeaveGate.Settings.Types

/-!
# The routes document of the control plane

`routes/document.rs`: the schema and its conversion into proxy definitions.
-/

namespace WeaveGate.Routes

open Settings

structure RouteEntry where
  name : Option Str
  host : Option Str
  source : Str
  target : Option Str
  targets : Option (List Str)
  stripPrefix : Option Str
deriving DecidableEq

structure AppRoutes where
  id : Str
  routes : List RouteEntry
deriving DecidableEq

structure RoutesDocument where
  version : UInt32
  apps : List AppRoutes
deriving DecidableEq

def validateRouteSource (source appId : Str) : Except Error Unit :=
  if Text.startsWith source '/' = false then
    .error ("routes bootstrap: source must start with '/' (app=".toList ++ appId ++ "): ".toList ++ source)
  else if Text.contains source "..".toList = true then
    .error ("routes bootstrap: source must not contain '..' (app=".toList ++ appId ++ "): ".toList ++ source)
  else .ok ()

/-- The body of the inner loop of `into_proxy_defs`. -/
def intoProxyDef (appId : Str) (route : RouteEntry) : Except Error Proxy := do
  validateRouteSource route.source appId
  if route.stripPrefix.any fun p => !Text.startsWith p '/' then
    .error ("routes bootstrap: strip-prefix must start with '/' (app=".toList ++ appId ++ ", source=".toList ++
      route.source ++ [')'])
  else
    .ok { name := route.name, host := route.host, source := route.source, target := route.target
          targets := route.targets, stripPrefix := route.stripPrefix }

def RoutesDocument.intoProxyDefs (doc : RoutesDocument) : Except Error (List Proxy) :=
  if doc.version ≠ 1 then
    .error ("routes bootstrap: unsupported document version ".toList ++ Nat.toDigits 10 doc.version.toNat ++
      " (expected 1)".toList)
  else (doc.apps.flatMap fun app => app.routes.map (app.id, ·)).mapM fun r => intoProxyDef r.1 r.2

end WeaveGate.Routes
