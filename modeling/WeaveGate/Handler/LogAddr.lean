import WeaveGate.Http.Types
import WeaveGate.Lib.IpAddr

/-!
# Logging remote addresses

`log_addr.rs`: the line that is logged for each request, with the address of the peer and those that a trusted peer
passes on.
-/

namespace WeaveGate.Handler

open Http

variable {β : Type}

inductive SocketAddr where
  | v4 (ip : Ipv4Addr) (port : UInt16)
  | v6 (ip : Ipv6Addr) (port : UInt16) (scopeId : UInt32)
deriving DecidableEq

namespace SocketAddr

def ip : SocketAddr → IpAddr
  | v4 ip _ => .v4 ip
  | v6 ip _ _ => .v6 ip

def display : SocketAddr → Str
  | v4 ip port => IpAddr.fmtIpv4 ip ++ ':' :: Nat.toDigits 10 port.toNat
  | v6 ip port scopeId =>
      let scope := if scopeId = 0 then [] else '%' :: Nat.toDigits 10 scopeId.toNat
      '[' :: IpAddr.fmtIpv6 ip ++ scope ++ "]:".toList ++ Nat.toDigits 10 port.toNat

end SocketAddr

structure LogAddrOpts where
  logRemoteAddress : Bool
  logXRealIp : Bool
  logForwardedFor : Bool
  trustedProxies : List IpAddr
  health : Bool

inductive TracingLevel where
  | debug
  | info
deriving DecidableEq

structure LogLine where
  level : TracingLevel
  text : Str

def isHealthEndpoint (req : Request β) : Bool := req.uri.path = "/health".toList

def trustsPeer (opts : LogAddrOpts) (remoteAddr : Option SocketAddr) : Bool :=
  opts.trustedProxies = [] || remoteAddr.any fun addr => addr.ip ∈ opts.trustedProxies

def xRealIp : HeaderName := "x-real-ip".toList

def realIp (req : Request β) : Option IpAddr :=
  ((req.headers.get? xRealIp).bind HeaderValue.toStr).bind fun s => IpAddr.parse (Text.trim s)

def forwardedFor (req : Request β) : Option IpAddr :=
  (((req.headers.get? .xForwardedFor).bind HeaderValue.toStr).bind fun s => (s.splitOn ',').head?).bind fun s =>
    IpAddr.parse (Text.trim s)

def logAddrPreProcess (opts : LogAddrOpts) (req : Request β) (remoteAddr : Option SocketAddr) : LogLine :=
  let remoteAddrs := if opts.logRemoteAddress then
      remoteAddr.elim [] fun addr => " remote_addr=".toList ++ addr.display
    else []
  let remoteAddrs := remoteAddrs ++ if opts.logXRealIp && trustsPeer opts remoteAddr then
      (realIp req).elim [] fun ip => " x_real_ip=".toList ++ ip.display
    else []
  let remoteAddrs := remoteAddrs ++ if opts.logForwardedFor && trustsPeer opts remoteAddr then
      (forwardedFor req).elim [] fun ip => " real_remote_ip=".toList ++ ip.display
    else []
  { level := if opts.health && isHealthEndpoint req then .debug else .info
    text := "incoming request: method=".toList ++ req.method.asStr ++ " uri=".toList ++ req.uri.toStr ++ remoteAddrs }

end WeaveGate.Handler
