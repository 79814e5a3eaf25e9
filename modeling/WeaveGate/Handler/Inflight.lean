import WeaveGate.Handler.Handle
import WeaveGate.Lib.Run

/-!
# Requests in flight

`handler.rs` and `service.rs` as they run: `handle` is a future that is polled, suspended at its await points and
dropped at any of them, and it moves a gauge of `metrics.rs`, as the service of a connection moves another.
-/

namespace WeaveGate.Handler

open Http
open Static (Body)

/-! ## The block inside of `handle` -/

inductive AwaitPoint where
  | tryReverseProxy
  | staticFiles
deriving DecidableEq

/-- The inner async block. A suspended block goes on in the world that it meets then. -/
inductive HandleBlock where
  | returned (outcome : Outcome)
  | awaiting (point : AwaitPoint) (resume : World → HandleBlock)

section

variable (crates : Crates) (opts : RequestHandlerOpts) (remoteIp : Option Str)

/-- Without a rule or a client there is nothing to wait for. -/
def awaitReverseProxy (w : World) (req : Request Body) (next : World → HandleBlock) : HandleBlock :=
  if (tryReverseProxy crates w opts remoteIp req).isNone then next w
  else .awaiting .tryReverseProxy fun w =>
    ((tryReverseProxy crates w opts remoteIp req).map .returned).getD (next w)

def awaitStaticFiles (req : Request Body) : HandleBlock :=
  .awaiting .staticFiles fun w => .returned (serveStatic crates w opts req)

def handleRoutedBlock (w : World) (req : Request Body) : HandleBlock :=
  match redirectsPreProcess crates w opts req with
  | some resp => .returned (.answer resp)
  | none =>
      match rewritesPreProcess crates w opts req with
      | (some resp, _) => .returned (.answer resp)
      | (none, req) =>
          if opts.proxyFirst then awaitStaticFiles crates opts req
          else awaitReverseProxy crates opts remoteIp w req fun _ => awaitStaticFiles crates opts req

def handleBlock (w : World) (req : Request Body) : HandleBlock :=
  if !Static.isAllowed req.method then .returned (.answer (errorPage w opts req .methodNotAllowed))
  else
    match (earlyStages crates w opts req).findSome? id with
    | some resp => .returned (.answer resp)
    | none =>
        if opts.proxyFirst then
          awaitReverseProxy crates opts remoteIp w req fun w => handleRoutedBlock crates opts remoteIp w req
        else handleRoutedBlock crates opts remoteIp w req

/-- The block passes as many await points as there are worlds, and is suspended at the next. -/
def HandleBlock.run : HandleBlock → List World → HandleBlock
  | .awaiting _ resume, w :: worlds => (resume w).run worlds
  | block, _ => block

/-- The block to its end in a world that stays as it is. -/
def HandleBlock.outcome (w : World) : HandleBlock → Outcome
  | .returned outcome => outcome
  | .awaiting _ resume => (resume w).outcome w

/-! ## The gauges -/

structure Gauges where
  requestsInflight : Int
  connectionsActive : Int
deriving DecidableEq

namespace Gauges

def incRequestsInflight (g : Gauges) : Gauges := { g with requestsInflight := g.requestsInflight + 1 }
def decRequestsInflight (g : Gauges) : Gauges := { g with requestsInflight := g.requestsInflight - 1 }
def incConnections (g : Gauges) : Gauges := { g with connectionsActive := g.connectionsActive + 1 }
def decConnections (g : Gauges) : Gauges := { g with connectionsActive := g.connectionsActive - 1 }

end Gauges

/-! ## The future that `handle` returns -/

inductive HandleFuture where
  /-- It has not been polled. -/
  | created (req : Request Body) (remoteIp : Option Str)
  | suspended (point : AwaitPoint) (resume : World → HandleBlock)
  | completed (outcome : Outcome)
  /-- A panic of the static handler has unwound it. -/
  | panicked
  | dropped

/-- Polled at least once, and neither completed nor dropped. -/
def HandleFuture.inProgress : HandleFuture → Bool
  | .suspended _ _ => true
  | _ => false

/-- What comes behind the inner block. A panic in it does not come there. -/
def finishHandle (g : Gauges) : HandleBlock → HandleFuture × Gauges
  | .awaiting point resume => (.suspended point resume, g)
  | .returned outcome =>
      match outcome.result with
      | .error .panic => (.panicked, g)
      | _ => (.completed outcome, if opts.metricsEnabled then g.decRequestsInflight else g)

def startHandle (g : Gauges) (block : HandleBlock) : HandleFuture × Gauges :=
  finishHandle opts (if opts.metricsEnabled then g.incRequestsInflight else g) block

/-! ## Connections and requests -/

structure RequestService where
  remoteAddr : Option Str
  isOpen : Bool
deriving DecidableEq

structure ServiceState where
  gauges : Gauges
  services : List RequestService
  futures : List HandleFuture

def ServiceState.new : ServiceState := ⟨⟨0, 0⟩, [], []⟩

/-- A future is polled with a world for each await point that it passes, and first of all with the one in which it
starts. -/
inductive ServiceEvent where
  | connect (remoteAddr : Option Str)
  | disconnect (conn : Nat)
  | call (conn : Nat) (req : Request Body)
  | start (k : Nat) (w : World) (worlds : List World)
  | poll (k : Nat) (worlds : List World)
  | drop (k : Nat)

def ServiceState.setFuture (s : ServiceState) (k : Nat) (next : HandleFuture × Gauges) : ServiceState :=
  { s with futures := s.futures.set k next.1, gauges := next.2 }

def serviceStep (s : ServiceState) : ServiceEvent → ServiceState
  | .connect remoteAddr => { s with services := s.services ++ [⟨remoteAddr, true⟩], gauges := s.gauges.incConnections }
  | .disconnect conn =>
      match s.services[conn]? with
      | some ⟨remoteAddr, true⟩ =>
          { s with services := s.services.set conn ⟨remoteAddr, false⟩, gauges := s.gauges.decConnections }
      | _ => s
  | .call conn req =>
      match s.services[conn]? with
      | some ⟨remoteAddr, true⟩ => { s with futures := s.futures ++ [.created req remoteAddr] }
      | _ => s
  | .start k w worlds =>
      match s.futures[k]? with
      | some (.created req remoteIp) =>
          s.setFuture k (startHandle opts s.gauges ((handleBlock crates opts remoteIp w req).run worlds))
      | _ => s
  | .poll k worlds =>
      match s.futures[k]? with
      | some (.suspended point resume) =>
          s.setFuture k (finishHandle opts s.gauges ((HandleBlock.awaiting point resume).run worlds))
      | _ => s
  | .drop k =>
      match s.futures[k]? with
      | some (.created _ _) | some (.suspended _ _) => s.setFuture k (.dropped, s.gauges)
      | _ => s

end

end WeaveGate.Handler
