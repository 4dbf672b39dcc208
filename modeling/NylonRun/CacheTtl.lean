import NylonRun.Ports

/-!
# The cache that the servers consult

`set_cache_ttl` (src/proxy.rs:523-529) gives the manager a new cache, or panics where no cache may
live so long. A server has the cache that the manager had when it was started
(src/proxy.rs:589-613), and it is never stopped.
-/

namespace ProxyManager

/-- A call of the manager, the setting of the time to live included. -/
inductive TtlCall where
  | route (call : Call)
  | setCacheTtl (secs : Nat)

/-- The manager, and as history the value of the last `set_cache_ttl`. -/
structure Configured where
  manager : ProxyManager
  ttlSet : Nat

namespace Configured

/-- A new manager: nothing is set but the default. -/
def new : Configured := ⟨.new, defaultCacheTtlSecs⟩

def step (s : Configured) : TtlCall → Configured × Except String Unit
  | .route c => ({ s with manager := (s.manager.call c).1 }, (s.manager.call c).2)
  | .setCacheTtl secs =>
    match s.manager.setCacheTtl secs with
    | some m => (⟨m, secs⟩, .ok ())
    | none => ({ s with ttlSet := secs }, .error "time_to_live is longer than 1000 years")

def machine : Machine Configured TtlCall (Except String Unit) := ⟨step⟩

/-- The started servers consult one cache, and its entries live as long as was set last. -/
def OneCache (s : Configured) : Prop :=
  ∃ cache, (∀ server ∈ s.manager.servers, server.cache = cache) ∧ cache.ttlSecs = s.ttlSet

/-- The call starts a server: it adds a route to a port that is not served, and the certificate
of the route, if it has one, loads. -/
def StartsServer (m : ProxyManager) : Call → Prop
  | .addRoute _ _ entry => entry.port ∉ m.ports
  | .addRouteWithTls os disk entry ssl => ¬CertFails os disk ssl ∧ entry.port ∉ m.ports
  | .removeRoutes _ => False

/-- The condition on a call: the time to live is set to another value only while no server is
started, and a server is started only if the others have the cache of the manager and there is a
cache with the time to live that was set last. -/
def KeepsCache (s : Configured) : TtlCall → Prop
  | .route c => StartsServer s.manager c → s.ttlSet ≤ maxCacheTtlSecs ∧
      ∀ server ∈ s.manager.servers, server.cache = s.manager.cache
  | .setCacheTtl secs => s.manager.servers = [] ∨ secs = s.ttlSet

variable {m : ProxyManager} {s : Configured}

theorem listen_cache (m : ProxyManager) (port : UInt16) : (m.listen port).cache = m.cache := by
  unfold listen
  dsimp only
  split <;> rfl

theorem loadTls_cache {os : Os} {t : FileTree} {m' : ProxyManager} {entry : RouteEntry}
    {ssl : Option SslConfig} (h : m.loadTls os t entry ssl = .ok m') : m'.cache = m.cache := by
  rcases loadTls_eq_ok h with ⟨-, rfl⟩ | ⟨_, cert, -, -, rfl⟩
  · rfl
  · rfl

/-- A port opened starts one server just where it is not served: on all the ports, with the cache
that the manager has. -/
theorem listen_started (m : ProxyManager) (port : UInt16) :
    (port ∈ m.ports ∧ (m.listen port).servers = m.servers) ∨
    (port ∉ m.ports ∧ ∃ server : Server, server.ports = m.ports ++ [port] ∧
      server.cache = m.cache ∧ (m.listen port).servers = m.servers ++ [server]) := by
  unfold listen
  dsimp only
  by_cases hport : port ∈ m.ports
  · exact .inl ⟨hport, by rw [if_pos hport]⟩
  · exact .inr ⟨hport, _, rfl, rfl, by rw [if_neg hport]⟩

theorem listen_servers (m : ProxyManager) (port : UInt16) :
    ∃ started : List Server, (m.listen port).servers = m.servers ++ started ∧
      (∀ server ∈ started, server.cache = m.cache) ∧ (started ≠ [] ↔ port ∉ m.ports) := by
  rcases listen_started m port with ⟨hport, hsame⟩ | ⟨hport, server, -, hcache, hnew⟩
  · refine ⟨[], hsame.trans (List.append_nil _).symm, fun server hserver => ?_, ?_⟩
    · cases hserver
    · exact iff_of_false (fun h => h rfl) fun h => h hport
  · refine ⟨[server], hnew, fun srv hsrv => ?_, iff_of_true (by simp) hport⟩
    rw [List.mem_singleton.1 hsrv, hcache]

/-- What a call does to the servers: those it starts have the cache of the manager, which stays
the same. -/
theorem call_servers (m : ProxyManager) (c : Call) :
    (m.call c).1.cache = m.cache ∧
    ∃ started : List Server, (m.call c).1.servers = m.servers ++ started ∧
      (∀ server ∈ started, server.cache = m.cache) ∧ (started ≠ [] ↔ StartsServer m c) := by
  have hnone : ∃ started : List Server, m.servers = m.servers ++ started ∧
      (∀ server ∈ started, server.cache = m.cache) ∧ (started ≠ [] ↔ False) :=
    ⟨[], (List.append_nil _).symm, fun server hserver => absurd hserver List.not_mem_nil,
      iff_of_false (fun h => h rfl) id⟩
  cases c with
  | addRoute os disk entry =>
    exact ⟨listen_cache _ _, listen_servers (m.pushRoute entry) entry.port⟩
  | removeRoutes name => exact ⟨rfl, hnone⟩
  | addRouteWithTls os disk entry ssl =>
    change (m.addRouteWithTls os disk entry ssl).1.cache = m.cache ∧
      ∃ started : List Server,
        (m.addRouteWithTls os disk entry ssl).1.servers = m.servers ++ started ∧ _ ∧ _
    rcases loadTls_certFails os disk (m.pushRoute entry) entry ssl with
      ⟨hfails, e, hload⟩ | ⟨hloads, m', hload, -, hports, -, hservers⟩
    · -- the certificate fails before a server is started
      rw [addRouteWithTls_error hload]
      obtain ⟨started, heq, hcache, hstarted⟩ := hnone
      refine ⟨rfl, started, heq, hcache, hstarted.trans ?_⟩
      exact iff_of_false id fun h => h.1 hfails
    · rw [addRouteWithTls_ok hload]
      have hcache' : m'.cache = (m.pushRoute entry).cache := loadTls_cache hload
      obtain ⟨started, heq, hcache, hstarted⟩ := listen_servers m' entry.port
      refine ⟨(listen_cache _ _).trans hcache', started, ?_, fun server hserver => ?_, ?_⟩
      · rw [heq, hservers]
        rfl
      · rw [hcache server hserver, hcache']
        rfl
      · rw [hstarted, hports]
        exact (and_iff_right hloads).symm

/-- The manager's own cache has a time to live that a cache can have, and that is the one that
was set last, if that can be had. -/
structure HasTtl (s : Configured) : Prop where
  bounded : s.manager.cache.ttlSecs ≤ maxCacheTtlSecs
  last : s.ttlSet ≤ maxCacheTtlSecs → s.manager.cache.ttlSecs = s.ttlSet

theorem HasTtl.eq_iff (h : s.HasTtl) :
    s.manager.cache.ttlSecs = s.ttlSet ↔ s.ttlSet ≤ maxCacheTtlSecs :=
  ⟨fun heq => heq ▸ h.bounded, h.last⟩

/-- The servers are on one cache after a server of the manager's cache was started exactly if
they all had that cache before, and it has the time to live that is asked for. -/
theorem oneCache_append {servers started : List Server} {cache : CacheHandle} {ttl : Nat}
    (hcache : ∀ server ∈ started, server.cache = cache) (hne : started ≠ []) :
    (∃ c : CacheHandle, (∀ server ∈ servers ++ started, server.cache = c) ∧ c.ttlSecs = ttl) ↔
      cache.ttlSecs = ttl ∧ ∀ server ∈ servers, server.cache = cache := by
  constructor
  · rintro ⟨c, hall, httl⟩
    obtain ⟨new, hnew⟩ := List.exists_mem_of_ne_nil started hne
    have hc : c = cache := by
      rw [← hall new (List.mem_append_right _ hnew), hcache new hnew]
    refine ⟨hc ▸ httl, fun server hserver => ?_⟩
    rw [hall server (List.mem_append_left _ hserver), hc]
  · rintro ⟨httl, hall⟩
    refine ⟨cache, fun server hserver => ?_, httl⟩
    rcases List.mem_append.1 hserver with h | h
    · exact hall server h
    · exact hcache server h

/-- A time to live that is set starts and stops no server, and is the last one then, whether a
cache was built or not. -/
theorem next_setCacheTtl (s : Configured) (secs : Nat) :
    (machine.next s (.setCacheTtl secs)).manager.servers = s.manager.servers ∧
      (machine.next s (.setCacheTtl secs)).ttlSet = secs := by
  change (s.step (.setCacheTtl secs)).1.manager.servers = _ ∧
    (s.step (.setCacheTtl secs)).1.ttlSet = secs
  unfold step setCacheTtl
  by_cases hbound : secs ≤ maxCacheTtlSecs
  · simp [hbound]
  · simp [hbound]

theorem oneCache_next_iff (hmanager : s.HasTtl) (h : s.OneCache) (c : TtlCall) :
    (machine.next s c).OneCache ↔ KeepsCache s c := by
  cases c with
  | route c =>
    obtain ⟨-, started, heq, hcache, hstarted⟩ := call_servers s.manager c
    change (∃ cache : CacheHandle, (∀ server ∈ (s.manager.call c).1.servers,
      server.cache = cache) ∧ cache.ttlSecs = s.ttlSet) ↔ (StartsServer s.manager c → _)
    rw [heq]
    by_cases hne : started = []
    · subst hne
      rw [List.append_nil]
      exact iff_of_true h fun hstarts => absurd rfl (hstarted.2 hstarts)
    · rw [forall_prop_of_true (hstarted.1 hne), ← hmanager.eq_iff]
      exact oneCache_append hcache hne
  | setCacheTtl secs =>
    obtain ⟨cache, hall, httl⟩ := h
    obtain ⟨hservers, hset⟩ := next_setCacheTtl s secs
    unfold OneCache KeepsCache
    rw [hservers, hset]
    constructor
    · rintro ⟨cache', hall', httl'⟩
      by_cases hnone : s.manager.servers = []
      · exact .inl hnone
      · obtain ⟨server, hserver⟩ := List.exists_mem_of_ne_nil _ hnone
        rw [← httl', ← hall' server hserver, hall server hserver]
        exact .inr httl
    · rintro (hnone | rfl)
      · refine ⟨⟨0, secs⟩, fun server hserver => ?_, rfl⟩
        rw [hnone] at hserver
        cases hserver
      · exact ⟨cache, hall, httl⟩

theorem hasTtl_next (h : s.HasTtl) (c : TtlCall) : (machine.next s c).HasTtl := by
  cases c with
  | route c =>
    have hcache : (machine.next s (.route c)).manager.cache = s.manager.cache :=
      (call_servers s.manager c).1
    refine ⟨?_, fun hbound => ?_⟩
    · rw [hcache]
      exact h.bounded
    · rw [hcache]
      exact h.last hbound
  | setCacheTtl secs =>
    by_cases hbound : secs ≤ maxCacheTtlSecs
    · have hnext : machine.next s (.setCacheTtl secs) =
          ⟨{ s.manager with cache := ⟨s.manager.cache.id + 1, secs⟩ }, secs⟩ := by
        change (s.step (.setCacheTtl secs)).1 = _
        simp [step, setCacheTtl, hbound]
      rw [hnext]
      exact ⟨hbound, fun _ => rfl⟩
    · have hnext : machine.next s (.setCacheTtl secs) = { s with ttlSet := secs } := by
        change (s.step (.setCacheTtl secs)).1 = _
        simp [step, setCacheTtl, hbound]
      rw [hnext]
      exact ⟨h.bounded, fun hle => absurd hle hbound⟩

theorem hasTtl_new : new.HasTtl := ⟨by decide, fun _ => rfl⟩

/-- Through any run of calls on a new manager all servers consult one cache with the time to live
that was set last exactly if no call sets another one while a server is started, and none starts a
server after the time to live was set for the ones before, or set too long for a cache. -/
theorem oneCache_throughout_iff (calls : List TtlCall) :
    machine.Throughout OneCache new calls ↔ machine.Along KeepsCache new calls :=
  Machine.throughout_iff_along (I := HasTtl) (H := fun _ _ => True)
    (fun _ c hmanager _ _ _ => hasTtl_next hmanager c)
    (fun _ c hmanager _ h => oneCache_next_iff hmanager h c) hasTtl_new
    ⟨ProxyManager.new.cache, fun _ hserver => absurd hserver List.not_mem_nil, rfl⟩
    Machine.along_true

/-- An app on port 80, and then a time to live of a minute. -/
def setAfterRoute : List TtlCall :=
  [.route (.addRoute (.serving 7 4000) .empty ⟨"web", 80, none, .proxy 9000⟩), .setCacheTtl 60]

/-- The server on port 80 goes on with its own cache, of three seconds. -/
theorem running_server_keeps_ttl :
    ((machine.run new setAfterRoute).manager.servers.map fun server => server.cache.ttlSecs) = [3] ∧
      (machine.run new setAfterRoute).ttlSet = 60 ∧
      ¬machine.Throughout OneCache new setAfterRoute := by
  have hservers : ((machine.run new setAfterRoute).manager.servers.map
      fun server => server.cache.ttlSecs) = [3] := by decide +kernel
  refine ⟨hservers, rfl, fun h => ?_⟩
  obtain ⟨cache, hall, httl⟩ := h.end
  have hthree : 3 ∈ (machine.run new setAfterRoute).manager.servers.map
      fun server => server.cache.ttlSecs := by rw [hservers]; exact List.mem_singleton_self 3
  obtain ⟨server, hserver, hthree⟩ := List.mem_map.1 hthree
  rw [hall server hserver, httl] at hthree
  cases hthree

end Configured

end ProxyManager
