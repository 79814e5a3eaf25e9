import WeaveGate.Http.Types
import WeaveGate.Lib.FormUrlencoded
import WeaveGate.Lib.Run
import WeaveGate.Routes.Document

/-!
# Fetching the routes at startup

`routes/bootstrap.rs`: the fetch from the control plane, the snapshot on disk and the fallbacks. The texts of
JSON documents are left open, as are `toJson` and `fromJson`, which stand for `serde_json`.
-/

namespace WeaveGate.Routes

open Settings
open Posix (Path Octets)

variable {Json : Type} (toJson : RoutesDocument → Json) (fromJson : Json → Option RoutesDocument)

/-! ## The snapshot -/

abbrev Files (Json : Type) := Path → Option Json

def Files.write (files : Files Json) (path : Path) (content : Option Json) : Files Json :=
  fun p => if p = path then content else files p

def tmpPath (path : Path) : Path := Posix.Path.withExtension path (Posix.utf8 "tmp".toList)

/-- How writing the snapshot goes: no directory, a temporary file cut short, no rename, or success. -/
inductive WriteOutcome (Json : Type) where
  | noDirectory
  | partialWrite (content : Json)
  | noRename
  | done

def writeCache (path : Path) (doc : RoutesDocument) (outcome : WriteOutcome Json) (files : Files Json) :
    Files Json :=
  match outcome with
  | .noDirectory => files
  | .partialWrite content => files.write (tmpPath path) (some content)
  | .noRename => files.write (tmpPath path) (some (toJson doc))
  | .done => (files.write (tmpPath path) none).write path (some (toJson doc))

def readCache (path : Path) (files : Files Json) : Except Error RoutesDocument :=
  match files path with
  | none => .error "routes bootstrap: cannot read cache".toList
  | some content => (fromJson content).elim (.error "routes bootstrap: invalid cache JSON".toList) .ok

/-! ## The request -/

def urlEncodeComponent (s : Str) : Str := FormUrlencoded.byteSerialize (Posix.utf8 s)

def buildBootstrapUri (parseUri : Str → Option Http.Uri) (base : Str) (clientId : Option Str) (weavegateVersion : Str) :
    Except Error Http.Uri :=
  let sep := if '?' ∈ base then '&' else '?'
  let url := base ++ [sep] ++ "weavegate=".toList ++ urlEncodeComponent weavegateVersion
  let url := match clientId.filter (· ≠ []) with
    | some client => url ++ '&' :: "client=".toList ++ urlEncodeComponent client
    | none => url
  match parseUri url with
  | some uri => .ok uri
  | none => .error ("routes bootstrap: invalid URL: ".toList ++ url)

/-! ## Fetching -/

/-- What comes back from the control plane: an error before there is a body, or a body. -/
inductive FetchOutcome (Json : Type) where
  | failed (err : Error)
  | timedOut
  | body (content : Json)

def httpFetchDocument (fetch : FetchOutcome Json) : Except Error RoutesDocument :=
  match fetch with
  | .failed err => .error err
  | .timedOut => .error "routes bootstrap request timed out".toList
  | .body content => (fromJson content).elim (.error "routes bootstrap: invalid JSON response".toList) .ok

def handleFetchFailure (config : RoutesBootstrap) (err : Error) (files : Files Json) :
    Except Error (Option (List Proxy)) :=
  let fallback := match config.policy with
    | .fail => .error ("routes bootstrap: fetch failed and no cache available: ".toList ++ err)
    | .cacheThenFile | .fileOnly => .ok none
  match config.cachePath with
  | none => fallback
  | some cachePath =>
      match readCache fromJson cachePath files with
      | .ok doc => doc.intoProxyDefs.map some
      | .error _ => fallback

/-- The definitions and the files afterwards. -/
def fetchRoutesDefs (config : RoutesBootstrap) (fetch : FetchOutcome Json) (outcome : WriteOutcome Json)
    (files : Files Json) : Except Error (Option (List Proxy)) × Files Json :=
  match config.policy with
  | .fileOnly => (.ok none, files)
  | _ =>
      match httpFetchDocument fromJson fetch with
      | .ok doc =>
          let files := config.cachePath.elim files fun cachePath => writeCache toJson cachePath doc outcome files
          (doc.intoProxyDefs.map some, files)
      | .error err => (handleFetchFailure fromJson config err files, files)

/-! ## Startups one after the other -/

structure Startup (Json : Type) where
  fetch : FetchOutcome Json
  outcome : WriteOutcome Json

def startup (config : RoutesBootstrap) (files : Files Json) (s : Startup Json) : Files Json :=
  (fetchRoutesDefs toJson fromJson config s.fetch s.outcome files).2

end WeaveGate.Routes
