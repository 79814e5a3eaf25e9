import WeaveGate.Settings.Parse

/-!
# Trust of the clients

`proxy_client.rs`: the certificates that the client of the reverse proxy and that of the routes bootstrap trust. The
files are read where the crates say what certificates they hold.
-/

namespace WeaveGate.Proxy

open Http Settings
open Posix (FileTree Octets Path)

/-- `rustls_pemfile::certs`, and which certificates are trust anchors. -/
structure PemCrates where
  certs : Octets → Option (List Octets)
  accepts : Octets → Bool

/-- The public roots and the certificates that were added. There are public roots. -/
structure RootCertStore where
  webpkiRoots : Bool
  added : List Octets
deriving DecidableEq

def RootCertStore.isEmpty (roots : RootCertStore) : Bool := !roots.webpkiRoots && roots.added = []

variable (crates : PemCrates) (t : FileTree)

def addCertificate (roots : RootCertStore) (der : Octets) : Except Error RootCertStore :=
  if crates.accepts der then .ok { roots with added := roots.added ++ [der] }
  else .error "invalid certificate".toList

/-- The path of a file that fails is left out of the texts. -/
def loadPemCaFile (roots : RootCertStore) (path : Path) : Except Error RootCertStore :=
  match (t.open path).toOption.bind FileTree.OpenFile.content with
  | none => .error "proxy-tls: cannot open CA file ".toList
  | some content => match crates.certs content with
      | none => .error "proxy-tls: cannot read PEM from CA file ".toList
      | some [] => .error "proxy-tls: no certificates found in CA file ".toList
      | some (der :: ders) => (der :: ders).foldlM (addCertificate crates) roots

def loadRootCertStore (tls : ProxyTlsSettings) : Except Error RootCertStore := do
  let roots ← tls.caFiles.foldlM (loadPemCaFile crates t) { webpkiRoots := tls.useWebpkiRoots, added := [] }
  if roots.isEmpty then .error "proxy-tls: no trust anchors loaded".toList else return roots

/-- Without files of its own a client trusts the public roots. -/
def buildHttpsConnector (tls : ProxyTlsSettings) : Except Error RootCertStore :=
  if tls.caFiles = [] then .ok { webpkiRoots := true, added := [] } else loadRootCertStore crates t tls

structure ClientConfig where
  roots : RootCertStore
  poolMaxIdlePerHost : Option Nat
  poolIdleTimeoutSecs : Option Nat
deriving DecidableEq

def buildProxyClient (settings : ClientSettings) : Except Error ClientConfig := do
  let roots ← buildHttpsConnector crates t settings.tls
  return { roots, poolMaxIdlePerHost := some settings.poolMaxIdlePerHost
           poolIdleTimeoutSecs := some settings.poolIdleTimeoutSecs }

/-- The pool has the sizes of the library. -/
def buildBootstrapClient (tls : ProxyTlsSettings) : Except Error ClientConfig := do
  let roots ← buildHttpsConnector crates t tls
  return { roots, poolMaxIdlePerHost := none, poolIdleTimeoutSecs := none }

end WeaveGate.Proxy
