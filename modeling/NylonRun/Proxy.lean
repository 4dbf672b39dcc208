import NylonRun.Tls
import Mathlib.Data.Finset.Basic

/-!
# Routes, ports and certificates of the proxy

`RouteTable` and `ProxyManager` of `src/proxy.rs`. A started Pingora server is never stopped,
so the manager keeps, as history, what each one was started with.
-/

inductive Backend where
  /-- A socket address of the loopback interface, by its port. -/
  | proxy (port : UInt16)
  | spa (dir : String)
  deriving DecidableEq, Repr

structure RouteEntry where
  name : String
  port : UInt16
  host : Option String
  backend : Backend
  deriving DecidableEq, Repr

/-- `RouteTable`, as its entries in order. -/
abbrev RouteTable : Type := List RouteEntry

namespace RouteTable

/-- `RouteTable::find` (src/proxy.rs:46-57). -/
def find (table : RouteTable) (port : UInt16) (host : Option String) : Option RouteEntry :=
  let portRoutes := table.filter (·.port = port)
  (host.bind fun h => portRoutes.find? (·.host = some h)).or
    (portRoutes.find? (·.host = none))

/-- `entries.retain(|r| r.name != name)`. -/
def without (table : RouteTable) (name : String) : RouteTable := table.filter (·.name ≠ name)

/-- The routes of one app. -/
def of (table : RouteTable) (name : String) : List RouteEntry := table.filter (·.name = name)

/-- The entry of an app replaced (src/proxy.rs:560-567). -/
def replace (table : RouteTable) (entry : RouteEntry) : RouteTable :=
  table.without entry.name ++ [entry]

theorem find_mem {table : RouteTable} {port : UInt16} {host : Option String} {r : RouteEntry}
    (h : table.find port host = some r) : r ∈ table ∧ r.port = port := by
  have hfilter : ∀ {p : RouteEntry → Bool}, (table.filter (·.port = port)).find? p = some r →
      r ∈ table ∧ r.port = port := by
    intro p hp
    simpa using List.mem_filter.1 (List.mem_of_find?_eq_some hp)
  rcases Option.or_eq_some_iff.1 h with h | ⟨-, h⟩
  · obtain ⟨_, -, h⟩ := Option.bind_eq_some_iff.1 h
    exact hfilter h
  · exact hfilter h

@[simp] theorem mem_without {table : RouteTable} {name : String} {r : RouteEntry} :
    r ∈ table.without name ↔ r ∈ table ∧ r.name ≠ name := by
  simp [without, List.mem_filter]

@[simp] theorem mem_replace {table : RouteTable} {entry r : RouteEntry} :
    r ∈ table.replace entry ↔ (r ∈ table ∧ r.name ≠ entry.name) ∨ r = entry := by
  simp [replace]

theorem of_without (table : RouteTable) (name n : String) :
    of (table.without name) n = if n = name then [] else of table n := by
  unfold of without
  rw [List.filter_filter]
  split
  · rename_i h; subst h
    rw [List.filter_eq_nil_iff]
    intro r _; simp
  · rename_i h
    refine List.filter_congr fun r _ => ?_
    by_cases hr : r.name = n
    · simp [hr, h]
    · simp [hr]

theorem of_replace (table : RouteTable) (entry : RouteEntry) (n : String) :
    of (table.replace entry) n = if n = entry.name then [entry] else of table n := by
  have happ : of (table.replace entry) n = of (table.without entry.name) n ++ of [entry] n :=
    List.filter_append ..
  rw [happ, of_without]
  by_cases h : n = entry.name
  · subst h; simp [of]
  · simp [of, h, Ne.symm h]

end RouteTable

/-- A response cache, by its number, and the time its entries live. -/
structure CacheHandle where
  id : Nat
  ttlSecs : Nat
  deriving DecidableEq, Repr

/-- What a Pingora server was started with (src/proxy.rs:589-613). -/
structure Server where
  ports : List UInt16
  tlsPorts : Finset UInt16
  cache : CacheHandle

/-- `ProxyManager` (src/proxy.rs:491-501); the challenge store is that of the ACME client. -/
structure ProxyManager where
  routes : RouteTable
  cache : CacheHandle
  ports : List UInt16
  tlsPorts : Finset UInt16
  certStore : CertStore
  deadPorts : Finset UInt16
  servers : List Server

namespace ProxyManager

def defaultCacheTtlSecs : Nat := 3

/-- `new` (src/proxy.rs:504-521). -/
def new : ProxyManager where
  routes := []
  cache := ⟨0, defaultCacheTtlSecs⟩
  ports := []
  tlsPorts := ∅
  certStore := .empty
  deadPorts := ∅
  servers := []

/-- The longest time to live with which moka builds a cache: 1000 years of 365 days. -/
def maxCacheTtlSecs : Nat := 1000 * 365 * 24 * 3600

/-- `set_cache_ttl` (src/proxy.rs:523-529): a new cache takes the place of the old one. To build
one with a longer time to live panics, and the old one stays; that is `none`. -/
def setCacheTtl (m : ProxyManager) (secs : Nat) : Option ProxyManager :=
  if secs ≤ maxCacheTtlSecs then some { m with cache := ⟨m.cache.id + 1, secs⟩ } else none

/-- The route of an app replaced (src/proxy.rs:558-567). -/
def pushRoute (m : ProxyManager) (entry : RouteEntry) : ProxyManager :=
  { m with routes := m.routes.replace entry }

/-- The certificate of a route loaded and its port made a TLS port (src/proxy.rs:569-576). -/
def loadTls (os : Os) (t : FileTree) (m : ProxyManager) (entry : RouteEntry) :
    Option SslConfig → Except String ProxyManager
  | none => .ok m
  | some ssl => do
    let certStore ←
      m.certStore.addCert os t (entry.host.getD "default") ssl.certPath ssl.keyPath
    return { m with certStore := certStore, tlsPorts := insert entry.port m.tlsPorts }

/-- The port revived, and a new server started when it has no listener
(src/proxy.rs:578-613). -/
def listen (m : ProxyManager) (port : UInt16) : ProxyManager :=
  let m := { m with deadPorts := m.deadPorts.erase port }
  if port ∈ m.ports then m
  else
    let ports := m.ports ++ [port]
    { m with
      ports := ports
      servers := m.servers ++ [⟨ports, m.tlsPorts, m.cache⟩] }

/-- `add_route_with_tls` (src/proxy.rs:550-624): a certificate that does not load leaves the
new route in the table. -/
def addRouteWithTls (os : Os) (t : FileTree) (m : ProxyManager) (entry : RouteEntry)
    (ssl : Option SslConfig) : ProxyManager × Except String Unit :=
  match (m.pushRoute entry).loadTls os t entry ssl with
  | .ok m' => (m'.listen entry.port, .ok ())
  | .error e => (m.pushRoute entry, .error e)

/-- `add_route` (src/proxy.rs:539-548). -/
def addRoute (os : Os) (t : FileTree) (m : ProxyManager) (entry : RouteEntry) :
    ProxyManager × Except String Unit :=
  m.addRouteWithTls os t entry none

/-- The ports that lose their last route with an app. -/
def orphaned (routes : RouteTable) (name : String) : List UInt16 :=
  ((routes.of name).map (·.port)).filter fun port => !(routes.without name).any (·.port = port)

/-- `remove_routes` (src/proxy.rs:626-650). -/
def removeRoutes (m : ProxyManager) (name : String) : ProxyManager :=
  let gone := orphaned m.routes name
  { m with
    routes := m.routes.without name
    ports := m.ports.filter (· ∉ gone)
    deadPorts := m.deadPorts ∪ gone.toFinset }

/-! ## What the operations change -/

@[simp] theorem pushRoute_routes (m : ProxyManager) (entry : RouteEntry) :
    (m.pushRoute entry).routes = m.routes.replace entry := rfl

@[simp] theorem removeRoutes_routes (m : ProxyManager) (name : String) :
    (m.removeRoutes name).routes = m.routes.without name := rfl

@[simp] theorem setCacheTtl_routes (m : ProxyManager) (secs : Nat) :
    ((m.setCacheTtl secs).getD m).routes = m.routes := by
  unfold setCacheTtl
  split <;> rfl

@[simp] theorem listen_routes (m : ProxyManager) (port : UInt16) :
    (m.listen port).routes = m.routes := by
  unfold listen
  dsimp only
  split <;> rfl

@[simp] theorem listen_tlsPorts (m : ProxyManager) (port : UInt16) :
    (m.listen port).tlsPorts = m.tlsPorts := by
  unfold listen
  dsimp only
  split <;> rfl

@[simp] theorem listen_certStore (m : ProxyManager) (port : UInt16) :
    (m.listen port).certStore = m.certStore := by
  unfold listen
  dsimp only
  split <;> rfl

@[simp] theorem listen_deadPorts (m : ProxyManager) (port : UInt16) :
    (m.listen port).deadPorts = m.deadPorts.erase port := by
  unfold listen
  dsimp only
  split <;> rfl

theorem listen_ports (m : ProxyManager) (port : UInt16) :
    (m.listen port).ports = if port ∈ m.ports then m.ports else m.ports ++ [port] := by
  unfold listen
  dsimp only
  split <;> rfl

/-- A route without a certificate is left to itself; with one, it fails just as the certificate
does, and otherwise its port is one of TLS. -/
theorem loadTls_cases (os : Os) (t : FileTree) (m : ProxyManager) (entry : RouteEntry)
    (ssl : Option SslConfig) :
    (ssl = none ∧ m.loadTls os t entry ssl = .ok m) ∨
    (∃ c e, ssl = some c ∧ CertStore.loadCert os t c.certPath c.keyPath = .error e ∧
      m.loadTls os t entry ssl = .error e) ∨
    ∃ c cert, ssl = some c ∧ CertStore.loadCert os t c.certPath c.keyPath = .ok cert ∧
      m.loadTls os t entry ssl = .ok { m with
        certStore := m.certStore.put (entry.host.getD "default") cert
        tlsPorts := insert entry.port m.tlsPorts } := by
  cases ssl with
  | none => exact .inl ⟨rfl, rfl⟩
  | some c =>
    cases hload : CertStore.loadCert os t c.certPath c.keyPath with
    | error e =>
      refine .inr (.inl ⟨c, e, rfl, hload, ?_⟩)
      rw [loadTls, CertStore.addCert, hload]
      rfl
    | ok cert =>
      refine .inr (.inr ⟨c, cert, rfl, hload, ?_⟩)
      rw [loadTls, CertStore.addCert, hload]
      rfl

theorem loadTls_eq_ok {os : Os} {t : FileTree} {m m' : ProxyManager} {entry : RouteEntry}
    {ssl : Option SslConfig} (h : m.loadTls os t entry ssl = .ok m') :
    (ssl = none ∧ m' = m) ∨
    ∃ c cert, ssl = some c ∧ CertStore.loadCert os t c.certPath c.keyPath = .ok cert ∧
      m' = { m with
        certStore := m.certStore.put (entry.host.getD "default") cert
        tlsPorts := insert entry.port m.tlsPorts } := by
  rcases loadTls_cases os t m entry ssl with
    ⟨hnone, hm⟩ | ⟨c, e, -, -, hm⟩ | ⟨c, cert, hsome, hcert, hm⟩
  · rw [hm] at h
    cases h
    exact .inl ⟨hnone, rfl⟩
  · rw [hm] at h
    cases h
  · rw [hm] at h
    cases h
    exact .inr ⟨c, cert, hsome, hcert, rfl⟩

/-- What loading the certificate of a route changes. -/
theorem loadTls_ok {os : Os} {t : FileTree} {m m' : ProxyManager} {entry : RouteEntry}
    {ssl : Option SslConfig} (h : m.loadTls os t entry ssl = .ok m') :
    m'.routes = m.routes ∧ m'.ports = m.ports ∧ m'.deadPorts = m.deadPorts ∧
      m'.tlsPorts = if ssl.isSome then insert entry.port m.tlsPorts else m.tlsPorts := by
  rcases loadTls_eq_ok h with ⟨rfl, rfl⟩ | ⟨c, cert, rfl, -, rfl⟩ <;> exact ⟨rfl, rfl, rfl, rfl⟩

theorem addRouteWithTls_error {os : Os} {t : FileTree} {m : ProxyManager} {entry : RouteEntry}
    {ssl : Option SslConfig} {e : String} (h : (m.pushRoute entry).loadTls os t entry ssl = .error e) :
    m.addRouteWithTls os t entry ssl = (m.pushRoute entry, .error e) := by
  rw [addRouteWithTls, h]

theorem addRouteWithTls_ok {os : Os} {t : FileTree} {m m' : ProxyManager} {entry : RouteEntry}
    {ssl : Option SslConfig} (h : (m.pushRoute entry).loadTls os t entry ssl = .ok m') :
    m.addRouteWithTls os t entry ssl = (m'.listen entry.port, .ok ()) := by
  rw [addRouteWithTls, h]

/-- The route is in the table whether or not its certificate loads. -/
theorem addRouteWithTls_routes (os : Os) (t : FileTree) (m : ProxyManager) (entry : RouteEntry)
    (ssl : Option SslConfig) :
    (m.addRouteWithTls os t entry ssl).1.routes = m.routes.replace entry := by
  unfold addRouteWithTls
  split
  · rename_i hload
    rw [listen_routes, (loadTls_ok hload).1, pushRoute_routes]
  · rfl

theorem addRoute_eq (os : Os) (t : FileTree) (m : ProxyManager) (entry : RouteEntry) :
    m.addRoute os t entry = ((m.pushRoute entry).listen entry.port, .ok ()) := rfl

end ProxyManager
