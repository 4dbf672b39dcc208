import NylonRun.CacheHits
import NylonRun.Ports

/-!
# The cache while the routes change

Routes are added and removed under running traffic. The table is read twice for a request, by
`request_filter` and by `upstream_peer`, and the cache is never told of a change. A response of
a backend that has lost its route is served until its entry goes. Once nothing of that backend
is left for a key, in the cache, waiting for it or in flight, nothing of it comes back.
-/

open NyrunProxy

/-- A transaction, and the backend that `upstream_peer` has chosen for it. -/
structure RoutedFlight extends Flight where
  peer : Option UInt16

/-- The traffic with the manager whose routes it is sent by. With a response in the cache, or on
its way there, goes as history the app port that it came from. -/
structure LiveTraffic where
  mgr : ProxyManager
  challenges : Dict String String
  cache : Dict String (CachedResponse × UInt16)
  flights : List RoutedFlight
  inserts : List (String × CachedResponse × UInt16)

inductive LiveEvent where
  /-- `add_route`, `add_route_with_tls` or `remove_routes`, as runs, updates and deletions do. -/
  | call (c : ProxyManager.Call)
  | arrive (request : HttpRequest)
  /-- `upstream_peer` of a transaction by its number. -/
  | connect (flight : Nat)
  | header (flight : Nat) (resp : ResponseHeader)
  | body (flight : Nat) (body : Option Bytes) (endOfStream : Bool)
  /-- A transaction ends before its response does. -/
  | close (flight : Nat)
  | insert (task : Nat)
  | evict (key : String)

namespace LiveTraffic

def initial : LiveTraffic := ⟨.new, ∅, ∅, [], []⟩

def proxy (s : LiveTraffic) : NyrunProxy := s.mgr.proxy s.challenges

/-- The answer of `request_filter`, on the responses of the cache. -/
def filter (s : LiveTraffic) (r : HttpRequest) : ProxyCtx × FilterOutcome :=
  s.proxy.requestFilter (s.cache.mapValues fun _ => Prod.fst) r .new

def setFlight (s : LiveTraffic) (i : Nat) (f : RoutedFlight) : LiveTraffic :=
  { s with flights := s.flights.set i f }

/-- A transaction has ended. -/
def close (s : LiveTraffic) (i : Nat) : LiveTraffic := { s with flights := s.flights.eraseIdx i }

def step (s : LiveTraffic) : LiveEvent → LiveTraffic × Option FilterOutcome
  | .call c => ({ s with mgr := (s.mgr.call c).1 }, none)
  | .arrive r =>
    let (ctx, outcome) := s.filter r
    let flights := match outcome with
      | .forward => s.flights ++ [{ request := r, ctx := ctx, peer := none }]
      | _ => s.flights
    ({ s with flights := flights }, some outcome)
  | .connect i =>
    match s.flights[i]? with
    | none => (s, none)
    | some f =>
      match f.peer with
      | none => (s.setFlight i { f with peer := s.proxy.upstreamPeer f.request }, none)
      | some _ => (s, none)
  | .header i resp =>
    match s.flights[i]? with
    | none => (s, none)
    | some f =>
      match f.peer with
      | none => (s, none)
      | some _ => (s.setFlight i { f with ctx := f.ctx.responseFilter resp }, none)
  | .body i body endOfStream =>
    match s.flights[i]? with
    | none => (s, none)
    | some f =>
      match f.peer with
      | none => (s, none)
      | some port =>
        let (ctx, insert) := f.ctx.responseBodyFilter f.request body endOfStream
        let s := if endOfStream then s.close i else s.setFlight i { f with ctx := ctx }
        ({ s with
          inserts := s.inserts ++ (insert.map fun (key, cached) => (key, cached, port)).toList },
          none)
  | .close i => (s.close i, none)
  | .insert i =>
    match s.inserts[i]? with
    | none => (s, none)
    | some (key, entry) =>
      ({ s with cache := s.cache.insert key entry, inserts := s.inserts.eraseIdx i }, none)
  | .evict key => ({ s with cache := s.cache.erase key }, none)

def machine : Machine LiveTraffic LiveEvent (Option FilterOutcome) := ⟨step⟩

/-- The request is answered from the cache, with a response of the given backend. -/
def ServedBy (s : LiveTraffic) (r : HttpRequest) (port : UInt16) : Prop :=
  ∃ header cached, (s.filter r).2 = .hit header cached ∧
    s.cache.lookup (cacheKey r) = some (cached, port)

/-- No route leads to the backend. -/
def NoRoute (port : UInt16) (s : LiveTraffic) : Prop :=
  ∀ r ∈ s.mgr.routes, r.backend ≠ .proxy port

/-- Nothing of the backend is left for the key: in the cache, waiting for it or in flight. -/
structure Drained (key : String) (port : UInt16) (s : LiveTraffic) : Prop where
  cache : ∀ cached, s.cache.lookup key ≠ some (cached, port)
  inserts : ∀ i ∈ s.inserts, i.1 = key → i.2.2 ≠ port
  flights : ∀ f ∈ s.flights, f.ctx.cacheKey = key → f.peer ≠ some port

/-! ## What is answered from the cache -/

/-- A request is answered from the cache only while its target is routed to a proxied app, by
what stands under its key. -/
theorem consults_of_hit {s : LiveTraffic} {r : HttpRequest} {header : ResponseHeader}
    {cached : CachedResponse} (h : (s.filter r).2 = .hit header cached) :
    Traffic.Consults s.proxy r ∧ ∃ port, s.ServedBy r port := by
  rcases Traffic.requestFilter_cases (p := s.proxy) (s.cache.mapValues fun _ => Prod.fst) r with
    ⟨-, hno⟩ | ⟨hconsults, -, hlookup⟩
  · exact absurd h (hno header cached)
  · have hcached := hlookup header cached h
    rw [Dict.lookup_mapValues] at hcached
    obtain ⟨⟨cached', port⟩, hentry, rfl⟩ := Option.map_eq_some_iff.1 hcached
    exact ⟨hconsults, port, header, cached', h, hentry⟩

/-- A request answered from the cache has a proxied app as its target. -/
def OnlyProxied (s : LiveTraffic) : LiveEvent → Prop
  | .arrive r => ∀ header cached, (s.filter r).2 = .hit header cached →
      r.listenPort ∉ s.mgr.deadPorts ∧ ∃ port, s.proxy.backendOf r = some (.proxy port)
  | _ => True

/-- No request with the key is answered from the cache with a response of the backend. -/
def NotServed (key : String) (port : UInt16) (s : LiveTraffic) : LiveEvent → Prop
  | .arrive r => cacheKey r = key → ¬s.ServedBy r port
  | _ => True

theorem onlyProxied (s : LiveTraffic) (e : LiveEvent) : OnlyProxied s e := by
  cases e with
  | arrive r =>
    intro header cached h
    obtain ⟨hconsults, -⟩ := consults_of_hit h
    exact ⟨hconsults.live, hconsults.proxied⟩
  | _ => trivial

theorem notServed_of_drained {key : String} {port : UInt16} {s : LiveTraffic}
    (h : Drained key port s) (e : LiveEvent) : NotServed key port s e := by
  cases e with
  | arrive r =>
    rintro rfl ⟨header, cached, -, hentry⟩
    exact h.cache cached hentry
  | _ => trivial

/-! ## A backend without a route -/

section

variable {key : String} {port : UInt16} {s : LiveTraffic}

/-- No transaction is sent to a backend that no route leads to. -/
theorem upstreamPeer_ne (h : NoRoute port s) (r : HttpRequest) :
    s.proxy.upstreamPeer r ≠ some port := by
  unfold upstreamPeer backendOf
  cases hfind : s.proxy.routes.find r.listenPort (extractHost r) with
  | none => exact fun heq => by cases heq
  | some entry =>
    have hbackend := h entry (RouteTable.find_mem hfind).1
    rw [Option.map_some]
    cases hentry : entry.backend with
    | spa dir => exact fun heq => by cases heq
    | proxy port' =>
      rw [hentry] at hbackend
      intro heq
      cases heq
      exact hbackend rfl

/-- One transaction replaced by one that has no peer, or is for another key or backend. -/
theorem drained_setFlight (h : Drained key port s) (i : Nat) {f : RoutedFlight}
    (hf : f.ctx.cacheKey = key → f.peer ≠ some port) : Drained key port (s.setFlight i f) := by
  refine ⟨h.cache, h.inserts, fun g hg => ?_⟩
  rcases List.mem_or_eq_of_mem_set hg with hg | rfl
  · exact h.flights g hg
  · exact hf

theorem drained_close (h : Drained key port s) (i : Nat) : Drained key port (s.close i) :=
  ⟨h.cache, h.inserts, fun f hf => h.flights f (List.mem_of_mem_eraseIdx hf)⟩

/-- What is drained of a backend stays so as long as no route leads to it. -/
theorem drained_step (h : Drained key port s) (hroute : NoRoute port s) (e : LiveEvent) :
    Drained key port (machine.next s e) := by
  change Drained key port (s.step e).1
  cases e with
  | call c => exact ⟨h.cache, h.inserts, h.flights⟩
  | arrive r =>
    refine ⟨h.cache, h.inserts, fun f hf => ?_⟩
    have hold : f ∈ s.flights ∨ f.peer = none := by
      unfold step at hf
      dsimp only at hf
      split at hf
      · rcases List.mem_append.1 hf with hf | hf
        · exact .inl hf
        · rw [List.mem_singleton.1 hf]
          exact .inr rfl
      · exact .inl hf
    rcases hold with hf | hf
    · exact h.flights f hf
    · intro _ hpeer
      rw [hf] at hpeer
      cases hpeer
  | connect i =>
    unfold step
    dsimp only
    cases hi : s.flights[i]? with
    | none => exact h
    | some f =>
      cases hpeer : f.peer with
      | some port' => simp only [hpeer]; exact h
      | none =>
        simp only [hpeer]
        exact drained_setFlight h i fun _ => upstreamPeer_ne hroute f.request
  | header i resp =>
    unfold step
    dsimp only
    cases hi : s.flights[i]? with
    | none => exact h
    | some f =>
      cases hpeer : f.peer with
      | none => simp only [hpeer]; exact h
      | some port' =>
        simp only [hpeer]
        refine drained_setFlight h i fun hkey => ?_
        rw [Traffic.responseFilter_key] at hkey
        exact hpeer ▸ h.flights f (List.mem_of_getElem? hi) hkey
  | body i body eos =>
    unfold step
    dsimp only
    cases hi : s.flights[i]? with
    | none => exact h
    | some f =>
      have hf := h.flights f (List.mem_of_getElem? hi)
      obtain ⟨hsame, -, hinsert⟩ := Traffic.responseBodyFilter_spec f.request body eos f.ctx
      cases hpeer : f.peer with
      | none => simp only [hpeer]; exact h
      | some port' =>
        simp only [hpeer]
        rw [hpeer] at hf
        have hset : Drained key port (if eos then s.close i else s.setFlight i
            { f with ctx := (f.ctx.responseBodyFilter f.request body eos).1, peer := some port' }) := by
          split
          · exact drained_close h i
          · exact drained_setFlight h i fun hkey => hf (hsame ▸ hkey)
        refine ⟨hset.cache, fun x hx => ?_, hset.flights⟩
        rcases List.mem_append.1 hx with hx | hx
        · exact hset.inserts x hx
        · -- the new task is for the key of its transaction, with the response of its peer
          obtain ⟨⟨k, cached⟩, hout, rfl⟩ := Option.map_eq_some_iff.1 (Option.mem_toList.1 hx)
          obtain ⟨-, hkey, -⟩ := hinsert (k, cached) hout
          intro hk hport
          exact hf (hkey ▸ hk) (congrArg some hport)
  | close i => exact drained_close h i
  | insert i =>
    unfold step
    dsimp only
    cases hi : s.inserts[i]? with
    | none => exact h
    | some x =>
      obtain ⟨k, cached, port'⟩ := x
      refine ⟨fun c hc => ?_, fun x hx => h.inserts x (List.mem_of_mem_eraseIdx hx), h.flights⟩
      rw [Dict.lookup_insert_eq] at hc
      split at hc
      · rename_i heq
        cases hc
        exact h.inserts _ (List.mem_of_getElem? hi) heq.symm rfl
      · exact h.cache c hc
  | evict k =>
    refine ⟨fun c hc => ?_, h.inserts, h.flights⟩
    change (s.cache.erase k).lookup key = some (c, port) at hc
    rw [Dict.lookup_erase_eq] at hc
    split at hc
    · cases hc
    · exact h.cache c hc

end

/-- In every run a request is answered from the cache only while its target is routed to a
proxied app; and once a backend has lost its routes and nothing of it is left for a key, no
request with that key is answered with a response of it, as long as no route leads to it again. -/
theorem hits_after_reroute (s : LiveTraffic) (events : List LiveEvent) :
    machine.Along OnlyProxied s events ∧
      ∀ key port, Drained key port s → machine.Along (fun s _ => NoRoute port s) s events →
        machine.Along (NotServed key port) s events := by
  constructor
  · exact Machine.along_of_invariant (P := fun _ => True) (fun _ _ _ _ => trivial)
      (fun s e _ _ => onlyProxied s e) trivial Machine.along_true
  · intro key port hdrained hroute
    exact Machine.along_of_invariant (P := Drained key port)
      (fun _ e h hr => drained_step h hr e) (fun _ e h _ => notServed_of_drained h e) hdrained hroute

/-- The app `web` on port 80, on an app port. -/
def webOn (port : UInt16) : LiveEvent :=
  .call (.addRoute (.serving 7 4000) .empty ⟨"web", 80, none, .proxy port⟩)

/-- A page of `web` is asked for and cached, and `web` moves to another app port. -/
def moveEvents : List LiveEvent :=
  [webOn 9001, .arrive (Traffic.indexOn 80), .connect 0, .header 0 ⟨200, []⟩,
    .body 0 (some [1]) true, .insert 0, webOn 9002]

/-- The state when the entry of the page has expired as well. -/
def expired : LiveTraffic := machine.run initial (moveEvents ++ [.evict "example.com/"])

/-- The page cached. -/
def cachedPage : CachedResponse := ⟨⟨200, [("content-length", "1")]⟩, [1], Traffic.indexOn 80⟩

theorem noRoute_9001 {s : LiveTraffic}
    (h : s.mgr.routes = [⟨"web", 80, none, .proxy 9002⟩]) : NoRoute 9001 s := by
  intro r hr
  rw [h, List.mem_singleton] at hr
  rw [hr]
  decide

/-- The page of the former port is not given again once its entry has expired. -/
theorem hits_after_reroute_expired :
    machine.Along (NotServed "example.com/" 9001) expired [.arrive (Traffic.indexOn 80)] := by
  have hcache : expired.cache.lookup "example.com/" = none := by decide +kernel
  have hinserts : expired.inserts.isEmpty = true := by decide +kernel
  have hflights : expired.flights.isEmpty = true := by decide +kernel
  have hroutes : expired.mgr.routes = [⟨"web", 80, none, .proxy 9002⟩] := by decide +kernel
  refine (hits_after_reroute expired [.arrive (Traffic.indexOn 80)]).2 _ _
    ⟨fun cached hcached => ?_, fun i hi => ?_, fun f hf => ?_⟩ ⟨noRoute_9001 hroutes, trivial⟩
  · rw [hcache] at hcached
    cases hcached
  · rw [List.isEmpty_iff.1 hinserts] at hi
    cases hi
  · rw [List.isEmpty_iff.1 hflights] at hf
    cases hf

/-- A page that `web` served from its former port is given again from the cache, after the route
to that port is gone. -/
theorem stale_after_reroute :
    NoRoute 9001 (machine.run initial moveEvents) ∧
      (machine.run initial moveEvents).proxy.upstreamPeer (Traffic.indexOn 80) = some 9002 ∧
      ServedBy (machine.run initial moveEvents) (Traffic.indexOn 80) 9001 := by
  have hroutes : (machine.run initial moveEvents).mgr.routes =
      [⟨"web", 80, none, .proxy 9002⟩] := by decide +kernel
  exact ⟨noRoute_9001 hroutes, by decide +kernel,
    ⟨200, [("content-length", "1"), ("x-cache", "HIT")]⟩, cachedPage, by decide +kernel,
    by decide +kernel⟩

end LiveTraffic
