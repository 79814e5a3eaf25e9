import WeaveGate.Lib.Run
import WeaveGate.Lib.Semaphore
import WeaveGate.Proxy.Forward

/-!
# Upgrade tunnels

`proxy.rs` where upgrade requests run side by side: `init` makes the semaphore, `forward_upgrade` takes a permit
from it, and the permit goes back when the request ends without a tunnel or when the tunnel ends.

A request runs up to its only point of suspension, the answer of the client, where its future may be dropped. The
serial number of a permit stands for the `OwnedSemaphorePermit`, whose destructor gives it back.
-/

namespace WeaveGate.Proxy

open Http Settings

/-! ## The limit -/

/-- The option in the configuration file. Zero stands for no limit. -/
def maxUpgradeTunnels (option : Option Nat) : Option Nat := option.bind fun n => if n = 0 then none else some n

/-- `Semaphore::MAX_PERMITS` for integers of the given size. -/
def maxPermits (bits : Nat) : Nat := (2 ^ bits - 1) >>> 3

/-- The semaphore that `init` makes. `Semaphore::new` panics above `MAX_PERMITS`. -/
def upgradeTunnelSemaphore (bits : Nat) (limit : Option Nat) : Except Error (Option Semaphore) :=
  match limit with
  | none => .ok none
  | some n =>
      if n ≤ maxPermits bits then .ok (some (Semaphore.new n))
      else .error "a semaphore may not have more than MAX_PERMITS permits".toList

/-! ## Requests and tunnels -/

variable {ι β : Type}

structure UpgradeCall (β : Type) where
  rule : ProxyRule
  ticket : Nat
  req : Request β
  remoteIp : Option Str

/-- A future of `forward_upgrade_inner`. `waiting` tells that it is suspended until the client answers. -/
structure Upgrade (ι β : Type) where
  id : ι
  call : UpgradeCall β
  permit : Option Nat
  waiting : Bool

/-- A task of `tunnel_upgrades`. -/
structure Tunnel (ι : Type) where
  id : ι
  permit : Option Nat

/-- What a request that came to its end made the proxy do. -/
structure Answer (ι β : Type) where
  id : ι
  call : UpgradeCall β
  exchange : Exchange β

structure TunnelState (ι β : Type) where
  semaphore : Option Semaphore
  upgrades : List (Upgrade ι β)
  tunnels : List (Tunnel ι)
  answers : List (Answer ι β)

def TunnelState.new (semaphore : Option Semaphore) : TunnelState ι β := ⟨semaphore, [], [], []⟩

inductive TunnelEnd where
  | handshakeFailed
  | closed
  | ioError

inductive TunnelEvent (ι β : Type) where
  /-- A request enters `forward_upgrade` and asks for a permit. -/
  | request (id : ι) (call : UpgradeCall β)
  /-- It runs on until it waits for the client. -/
  | prepared (id : ι)
  /-- The client answers. -/
  | upstream (id : ι) (outcome : Except Error (Response β))
  /-- The future is dropped where it waits. -/
  | dropped (id : ι)
  | tunnelEnded (id : ι) (how : TunnelEnd)

/-- The destructor of a permit, if there is one. -/
def dropPermit (semaphore : Option Semaphore) (permit : Option Nat) : Option Semaphore :=
  match permit with
  | none => semaphore
  | some serial => semaphore.map (·.release serial)

section

variable [DecidableEq ι] (parseUri : Str → Option Uri) (empty : β)

/-- The permits left, none when tunnels are not limited. -/
def TunnelState.permits (s : TunnelState ι β) : Option Nat := s.semaphore.map (·.available)

/-- `forward_upgrade` up to the call of `forward_upgrade_inner`. -/
def TunnelState.request (s : TunnelState ι β) (id : ι) (call : UpgradeCall β) : TunnelState ι β :=
  match s.semaphore with
  | none => { s with upgrades := s.upgrades ++ [⟨id, call, none, false⟩] }
  | some semaphore =>
      match semaphore.tryAcquire with
      | none => { s with answers := s.answers ++
          [⟨id, call, ⟨[], .ok ((Response.new empty).withStatus .serviceUnavailable)⟩⟩] }
      | some (permit, semaphore) =>
          { s with
            semaphore := some semaphore
            upgrades := s.upgrades ++ [⟨id, call, some permit, false⟩] }

/-- The future of a request ends, with an answer or dropped, and with the permit still in it. -/
def TunnelState.finish (s : TunnelState ι β) (u : Upgrade ι β) (isIt : Upgrade ι β → Bool)
    (exchange : Option (Exchange β)) : TunnelState ι β :=
  { s with
    semaphore := dropPermit s.semaphore u.permit
    upgrades := s.upgrades.eraseP isIt
    answers := s.answers ++ (exchange.map fun exchange => ⟨u.id, u.call, exchange⟩).toList }

def isPreparing (id : ι) (u : Upgrade ι β) : Bool := u.id = id && !u.waiting
def isWaiting (id : ι) (u : Upgrade ι β) : Bool := u.id = id && u.waiting

def TunnelState.prepared (s : TunnelState ι β) (id : ι) : TunnelState ι β :=
  match s.upgrades.find? (isPreparing id) with
  | none => s
  | some u =>
      match upstreamUpgradeRequest parseUri u.call.rule u.call.ticket u.call.req u.call.remoteIp with
      | .error e => s.finish u (isPreparing id) (some ⟨[], .error e⟩)
      | .ok _ => { s with upgrades := s.upgrades.eraseP (isPreparing id) ++ [{ u with waiting := true }] }

/-- After a 101 the permit moves into the task of the tunnel. -/
def TunnelState.upstream (s : TunnelState ι β) (id : ι) (outcome : Except Error (Response β)) : TunnelState ι β :=
  match s.upgrades.find? (isWaiting id) with
  | none => s
  | some u =>
      let exchange := forwardUpgradeInner parseUri empty (fun _ => outcome) u.call.rule u.call.ticket u.call.req
        u.call.remoteIp
      if outcome.toOption.any (·.status = .switchingProtocols) then
        { s with
          upgrades := s.upgrades.eraseP (isWaiting id)
          tunnels := s.tunnels ++ [⟨u.id, u.permit⟩]
          answers := s.answers ++ [⟨u.id, u.call, exchange⟩] }
      else s.finish u (isWaiting id) (some exchange)

def TunnelState.dropped (s : TunnelState ι β) (id : ι) : TunnelState ι β :=
  match s.upgrades.find? (isWaiting id) with
  | none => s
  | some u => s.finish u (isWaiting id) none

def TunnelState.tunnelEnded (s : TunnelState ι β) (id : ι) : TunnelState ι β :=
  match s.tunnels.find? (·.id = id) with
  | none => s
  | some tunnel =>
      { s with
        semaphore := dropPermit s.semaphore tunnel.permit
        tunnels := s.tunnels.eraseP (·.id = id) }

def tunnelStep (s : TunnelState ι β) : TunnelEvent ι β → TunnelState ι β
  | .request id call => s.request empty id call
  | .prepared id => s.prepared parseUri id
  | .upstream id outcome => s.upstream parseUri empty id outcome
  | .dropped id => s.dropped id
  | .tunnelEnded id _ => s.tunnelEnded id

end

end WeaveGate.Proxy
