import WeaveGate.Handler.Theorems.Head
import WeaveGate.Lib.Run

/-!
# Requests and the balancers

The counters of `ProxyBalancer`, one for each rule, and the requests that the handler serves beside them. A request
increments the counter of the rule that it is forwarded by. Any other request, whoever answers it, leaves the counters
as they are.
-/

namespace WeaveGate.Proxy

open Http Settings

/-- The place of the rule whose balancer `upstream_uri_for_rule` asks. An upgrade without a permit does not get there. -/
def balancerAsked {β : Type} (globs : GlobSet) (proxies : Option (List ProxyRule)) (proxyClient : Option (HttpClient β))
    (permits : Option Nat) (req : Request β) : Option Nat := do
  let rules ← proxies
  let host ← requestHost req
  let k ← rules.findIdx? (ruleMatches globs host req.uri.path)
  let _ ← proxyClient
  if isProtocolUpgrade req ∧ permits = some 0 then none else some k

end WeaveGate.Proxy

namespace WeaveGate.Handler

open Http Settings
open Static (Body)

variable (crates : Crates) (opts : RequestHandlerOpts)

def balancerAsked (w : World) (req : Request Body) : Option Nat :=
  if !Static.isAllowed req.method then none
  else (atProxy crates w opts req).bind
    (Proxy.balancerAsked crates.globs (opts.advancedOpts.bind (·.proxies)) opts.proxyClient w.permits)

/-- A request that a rule forwarded: the rule, the upstream that its balancer chose, and what came of the request. -/
structure Turn where
  rule : Nat
  upstream : Nat
  outcome : Outcome

structure BalancedState where
  /-- The counter of each rule's balancer. -/
  counters : List Nat
  turns : List Turn

def BalancedState.new (rules : List ProxyRule) : BalancedState := ⟨rules.map fun _ => 0, []⟩

/-- A request and what it meets, besides the ticket of the balancer. -/
structure Arrival where
  req : Request Body
  remoteIp : Option Str
  world : World

def Arrival.outcome (a : Arrival) (ticket : Nat) : Outcome :=
  handle crates { a.world with ticket := ticket } opts a.remoteIp a.req

def balancedStep (rules : List ProxyRule) (s : BalancedState) (a : Arrival) : BalancedState :=
  match balancerAsked crates opts a.world a.req with
  | none => s
  | some k =>
      match rules[k]?, s.counters[k]? with
      | some rule, some next =>
          { counters := s.counters.set k (rule.balancer.nextIndex 64 next).2
            turns := s.turns ++ [⟨k, (rule.balancer.nextIndex 64 next).1, a.outcome crates opts next⟩] }
      | _, _ => s

end WeaveGate.Handler
