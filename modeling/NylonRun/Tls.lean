import NylonRun.Os

/-!
# The certificate store

`src/tls.rs`: certificates by host name, with one default for the names without their own.
-/

open FileTree

structure TlsCertificate where
  cert : X509
  key : PKey
  chain : List X509
  deriving DecidableEq, Repr

/-- `DynamicCertStore` (src/tls.rs:21-24). -/
structure CertStore where
  certs : Dict String TlsCertificate
  defaultCert : Option TlsCertificate

namespace CertStore

def empty : CertStore := ⟨∅, none⟩

/-- The certificate kept for a host name, `default` being the fallback. -/
def get (s : CertStore) (hostname : String) : Option TlsCertificate :=
  if hostname = "default" then s.defaultCert else s.certs.lookup hostname

def put (s : CertStore) (hostname : String) (cert : TlsCertificate) : CertStore :=
  if hostname = "default" then { s with defaultCert := some cert }
  else { s with certs := s.certs.insert hostname cert }

@[simp] theorem get_put (s : CertStore) (hostname : String) (cert : TlsCertificate) (h : String) :
    (s.put hostname cert).get h = if h = hostname then some cert else s.get h := by
  unfold get put
  by_cases hhost : hostname = "default" <;> by_cases hh : h = "default"
  · simp [hhost, hh]
  · simp [hhost, hh]
  · have hne : ¬"default" = hostname := fun he => hhost he.symm
    simp [hhost, hh, hne]
  · simp only [if_neg hhost, if_neg hh]
    exact Dict.lookup_insert_eq h

/-- Reading and parsing a certificate and its key (src/tls.rs:41-54). -/
def loadCert (os : Os) (t : FileTree) (certPath keyPath : String) :
    Except String TlsCertificate := do
  let certPem ← (t.read certPath).mapError fun e => s!"failed to read cert {certPath}: {e}"
  let keyPem ← (t.read keyPath).mapError fun e => s!"failed to read key {keyPath}: {e}"
  let cert ← (os.parseCert certPem).mapError fun e => s!"failed to parse cert: {e}"
  let key ← (os.parseKey keyPem).mapError fun e => s!"failed to parse key: {e}"
  return { cert := cert, key := key, chain := [] }

/-- `add_cert` (src/tls.rs:35-66). -/
def addCert (os : Os) (t : FileTree) (s : CertStore) (hostname certPath keyPath : String) :
    Except String CertStore := do
  return s.put hostname (← loadCert os t certPath keyPath)

/-- The certificate a handshake is given (src/tls.rs:128-141). -/
def select (s : CertStore) (serverName : Option String) : Option TlsCertificate :=
  (s.certs.lookup (serverName.getD "localhost")).or s.defaultCert

end CertStore
