import NylonRun.Traffic

/-!
# Whose response a hit gives

The cache is asked with the text of host, path and query, and filled under the same text. So a
hit is right as far as that text tells the requests apart: it does not contain the port, and a
request without a host has the text of one for `localhost`.
-/

open NyrunProxy

namespace Traffic

variable {p : NyrunProxy}

/-- The two requests have the same port, host, path and query. -/
structure SameTarget (r r' : HttpRequest) : Prop where
  port : r'.listenPort = r.listenPort
  host : extractHost r' = extractHost r
  path : r'.path = r.path
  query : r'.query = r.query

/-- The request is one that the cache is asked for, and filled for: a GET to a proxied app. -/
structure Consults (p : NyrunProxy) (r : HttpRequest) : Prop where
  live : r.listenPort ∉ p.deadPorts
  challenge : p.challenge r = none
  proxied : ∃ port, p.backendOf r = some (.proxy port)
  method : r.method = "GET"

theorem SameTarget.backendOf {r r' : HttpRequest} (h : SameTarget r r') :
    p.backendOf r' = p.backendOf r := by
  unfold NyrunProxy.backendOf
  rw [h.port, h.host]

/-! ## The key -/

/-- A request whose host has no slash and whose path is one: it starts with a slash and leaves
the query out. -/
structure Plain (r : HttpRequest) : Prop where
  host : '/' ∉ ((extractHost r).getD "localhost").toList
  path : r.path.toList.head? = some '/'
  noQuery : '?' ∉ r.path.toList

theorem querySuffix_head (query : Option String) :
    ∀ d ∈ (querySuffix query).toList.head?, d = '?' := by
  intro d hd
  cases query with
  | none => cases hd
  | some q =>
    rw [querySuffix, String.toList_append] at hd
    exact (Option.some.inj hd).symm

theorem querySuffix_inj {query query' : Option String}
    (h : querySuffix query = querySuffix query') : query = query' := by
  have hlist := congrArg String.toList h
  cases query with
  | none =>
    cases query' with
    | none => rfl
    | some q' => rw [querySuffix, querySuffix, String.toList_append] at hlist; cases hlist
  | some q =>
    cases query' with
    | none => rw [querySuffix, querySuffix, String.toList_append] at hlist; cases hlist
    | some q' =>
      rw [querySuffix, querySuffix, String.toList_append, String.toList_append] at hlist
      rw [String.toList_inj.1 (List.append_cancel_left hlist)]

/-- Of plain requests the key tells host, path and query, a missing host being `localhost`; the
port is not in it. -/
theorem cacheKey_inj {r r' : HttpRequest} (h : Plain r) (h' : Plain r') :
    cacheKey r' = cacheKey r ↔
      (extractHost r').getD "localhost" = (extractHost r).getD "localhost" ∧
        r'.path = r.path ∧ r'.query = r.query := by
  have hkey : ∀ r : HttpRequest, (cacheKey r).toList =
      ((extractHost r).getD "localhost").toList ++
        (r.path.toList ++ (querySuffix r.query).toList) := by
    intro r
    unfold cacheKey
    rw [String.toList_append, String.toList_append, List.append_assoc]
  constructor
  · intro heq
    have heq := congrArg String.toList heq
    rw [hkey, hkey] at heq
    have hslash : ∀ {r : HttpRequest}, Plain r →
        ∀ d ∈ (r.path.toList ++ (querySuffix r.query).toList).head?, d = '/' := by
      intro r hr d hd
      rw [List.head?_append, hr.path] at hd
      exact (Option.some.inj hd).symm
    obtain ⟨hhost, hrest⟩ := Text.append_inj_of_head h'.host h.host (hslash h') (hslash h) heq
    obtain ⟨hpath, hquery⟩ := Text.append_inj_of_head h'.noQuery h.noQuery
      (querySuffix_head _) (querySuffix_head _) hrest
    exact ⟨String.toList_inj.1 hhost, String.toList_inj.1 hpath,
      querySuffix_inj (String.toList_inj.1 hquery)⟩
  · rintro ⟨hhost, hpath, hquery⟩
    unfold cacheKey
    rw [hhost, hpath, hquery]

/-- Plain requests of one key have one target exactly if their port is the same, and if they
both have a host or both have none. -/
theorem sameTarget_iff {r r' : HttpRequest} (h : Plain r) (h' : Plain r')
    (hkey : cacheKey r' = cacheKey r) :
    SameTarget r r' ↔ r'.listenPort = r.listenPort ∧
      ((extractHost r').isSome ↔ (extractHost r).isSome) := by
  obtain ⟨hhost, hpath, hquery⟩ := (cacheKey_inj h h').1 hkey
  constructor
  · intro hsame
    exact ⟨hsame.port, by rw [hsame.host]⟩
  · rintro ⟨hport, hsome⟩
    refine ⟨hport, ?_, hpath, hquery⟩
    cases hr : extractHost r with
    | none => simpa [hr] using hsome
    | some host =>
      cases hr' : extractHost r' with
      | none => simp [hr, hr'] at hsome
      | some host' => rw [hr, hr'] at hhost; exact congrArg some hhost

/-! ## The callbacks -/

/-- What `request_filter` leaves in the context: nothing, or the key of a request that asks the
cache; and a hit is what stands under that key. -/
theorem requestFilter_cases (cache : Dict String CachedResponse) (r : HttpRequest) :
    ((p.requestFilter cache r .new).1 = .new ∧
      ∀ header cached, (p.requestFilter cache r .new).2 ≠ .hit header cached) ∨
    (Consults p r ∧ (p.requestFilter cache r .new).1 = { ProxyCtx.new with cacheKey := cacheKey r } ∧
      ∀ header cached, (p.requestFilter cache r .new).2 = .hit header cached →
        cache.lookup (cacheKey r) = some cached) := by
  unfold requestFilter
  split
  · exact .inl ⟨rfl, fun _ _ h => by cases h⟩
  · rename_i hlive
    split
    · exact .inl ⟨rfl, fun _ _ h => by cases h⟩
    · rename_i hchallenge
      split
      · exact .inl ⟨rfl, fun _ _ h => by cases h⟩
      · rename_i port hbackend
        unfold consultCache
        split
        · exact .inl ⟨rfl, fun _ _ h => by cases h⟩
        · rename_i hmethod
          have hconsults : Consults p r :=
            ⟨hlive, hchallenge, ⟨port, hbackend⟩, by simpa using hmethod⟩
          dsimp only
          cases hlookup : cache.lookup (cacheKey r) with
          | none => exact .inr ⟨hconsults, rfl, fun _ _ h => by cases h⟩
          | some c => exact .inr ⟨hconsults, rfl, fun _ _ h => by cases h; rfl⟩
      · exact .inl ⟨rfl, fun _ _ h => by cases h⟩

theorem responseFilter_key (resp : ResponseHeader) (ctx : ProxyCtx) :
    (ctx.responseFilter resp).cacheKey = ctx.cacheKey := by
  unfold ProxyCtx.responseFilter
  split
  · rfl
  · split <;> rfl

/-- A response is to be cached only if its status is 200. -/
theorem responseFilter_shouldCache {resp : ResponseHeader} {ctx : ProxyCtx}
    (h : (ctx.responseFilter resp).shouldCache = true) :
    ctx.shouldCache = true ∨ (ctx.cacheKey ≠ "" ∧ resp.status = 200) := by
  unfold ProxyCtx.responseFilter at h
  split at h
  · exact .inl h
  · rename_i hkey
    split at h
    · rename_i hstatus
      exact .inr ⟨hkey, hstatus⟩
    · exact .inl h

/-- The body filter keeps the key, and hands on to the cache only what was to be cached. -/
theorem responseBodyFilter_spec (r : HttpRequest) (body : Option Bytes) (eos : Bool)
    (ctx : ProxyCtx) :
    (ctx.responseBodyFilter r body eos).1.cacheKey = ctx.cacheKey ∧
    ((ctx.responseBodyFilter r body eos).1.shouldCache = true → ctx.shouldCache = true) ∧
    ∀ kc, (ctx.responseBodyFilter r body eos).2 = some kc →
      ctx.shouldCache = true ∧ kc.1 = ctx.cacheKey ∧ kc.2.storedFor = r := by
  unfold ProxyCtx.responseBodyFilter
  split
  · rename_i hshould
    exact ⟨rfl, fun h => h, fun kc h => by cases h⟩
  · rename_i hshould
    have hshould' : ctx.shouldCache = true := by simpa using hshould
    cases hkeep : ctx.keepBody body with
    | none => exact ⟨rfl, fun _ => hshould', fun kc h => by cases h⟩
    | some ctx' =>
      have hkey : ctx'.cacheKey = ctx.cacheKey := by
        unfold ProxyCtx.keepBody at hkeep
        split at hkeep
        · cases hkeep; rfl
        · split at hkeep
          · cases hkeep
          · cases hkeep; rfl
      dsimp only
      cases hheader : ctx'.responseHeader with
      | none => exact ⟨hkey, fun _ => hshould', fun kc h => by cases h⟩
      | some header =>
        cases eos with
        | false => exact ⟨hkey, fun _ => hshould', fun kc h => by cases h⟩
        | true =>
          refine ⟨hkey, fun _ => hshould', fun kc h => ?_⟩
          cases h
          exact ⟨hshould', hkey, rfl⟩

/-! ## What the cache holds -/

/-- A response under a key of the cache was fetched for an earlier request with that key. -/
structure Filed (p : NyrunProxy) (requests : List HttpRequest) (key : String)
    (cached : CachedResponse) : Prop where
  request : cached.storedFor ∈ requests
  consults : Consults p cached.storedFor
  key : cacheKey cached.storedFor = key

/-- A waiting transaction has no key, or that of its own request. -/
structure Waits (p : NyrunProxy) (requests : List HttpRequest) (f : Flight) : Prop where
  request : f.request ∈ requests
  key : f.ctx.cacheKey ≠ "" → Consults p f.request ∧ f.ctx.cacheKey = cacheKey f.request
  caches : f.ctx.shouldCache = true → f.ctx.cacheKey ≠ ""

/-- Everything the cache holds, or is to hold, is filed under the key of its own request. -/
structure Sound (p : NyrunProxy) (s : Traffic) : Prop where
  cache : ∀ key cached, s.cache.lookup key = some cached → Filed p s.requests key cached
  inserts : ∀ i ∈ s.inserts, Filed p s.requests i.1 i.2
  flights : ∀ f ∈ s.flights, Waits p s.requests f

theorem sound_empty : Sound p empty := by
  refine ⟨fun key cached h => ?_, fun i h => ?_, fun f h => ?_⟩
  · cases h
  · cases h
  · cases h

theorem sound_arrive {s : Traffic} (hs : Sound p s) (r : HttpRequest) :
    Sound p (s.arrive p r).1 := by
  have hmem : ∀ r' ∈ s.requests, r' ∈ s.requests ++ [r] := fun _ h => List.mem_append_left _ h
  refine ⟨fun key cached h => ?_, fun i hi => ?_, fun f hf => ?_⟩
  · obtain ⟨hreq, hcons, hkey⟩ := hs.cache key cached h
    exact ⟨hmem _ hreq, hcons, hkey⟩
  · obtain ⟨hreq, hcons, hkey⟩ := hs.inserts i hi
    exact ⟨hmem _ hreq, hcons, hkey⟩
  · have hold : f ∈ s.flights ∨ f = ⟨r, (p.requestFilter s.cache r .new).1⟩ := by
      unfold arrive at hf
      dsimp only at hf
      split at hf
      · simpa using hf
      · exact .inl hf
    rcases hold with hf | rfl
    · obtain ⟨hreq, hkey, hcaches⟩ := hs.flights f hf
      exact ⟨hmem _ hreq, hkey, hcaches⟩
    · have hnew : r ∈ s.requests ++ [r] := by simp
      rcases requestFilter_cases (p := p) s.cache r with ⟨hctx, -⟩ | ⟨hcons, hctx, -⟩
      · exact ⟨hnew, fun h => by rw [hctx] at h; exact absurd rfl h,
          fun h => by rw [hctx] at h; cases h⟩
      · refine ⟨hnew, fun _ => ⟨hcons, by rw [hctx]⟩, fun h => ?_⟩
        rw [hctx] at h
        cases h

/-- One transaction of the traffic replaced. -/
theorem sound_setFlight {s : Traffic} (hs : Sound p s) (i : Nat) {f : Flight}
    (hf : Waits p s.requests f) : Sound p { s with flights := s.flights.set i f } := by
  refine ⟨hs.cache, hs.inserts, fun g hg => ?_⟩
  rcases List.mem_or_eq_of_mem_set hg with hg | rfl
  · exact hs.flights g hg
  · exact hf

theorem sound_step {s : Traffic} (hs : Sound p s) (e : TrafficEvent) :
    Sound p ((machine p).next s e) := by
  change Sound p (s.step p e).1
  cases e with
  | arrive r => exact sound_arrive hs r
  | header i resp =>
    unfold step
    dsimp only
    cases hi : s.flights[i]? with
    | none => exact hs
    | some f =>
      obtain ⟨hreq, hkey, hcaches⟩ := hs.flights f (List.mem_of_getElem? hi)
      refine sound_setFlight hs i ⟨hreq, fun h => ?_, fun h => ?_⟩
      · rw [responseFilter_key] at h ⊢
        exact hkey h
      · rw [responseFilter_key]
        exact (responseFilter_shouldCache h).elim hcaches And.left
  | body i body eos =>
    unfold step
    dsimp only
    cases hi : s.flights[i]? with
    | none => exact hs
    | some f =>
      have hf := hs.flights f (List.mem_of_getElem? hi)
      obtain ⟨hreq, hkey, hcaches⟩ := hf
      obtain ⟨hsame, hshould, hinsert⟩ := responseBodyFilter_spec f.request body eos f.ctx
      have hset := sound_setFlight hs i
        (f := { f with ctx := (f.ctx.responseBodyFilter f.request body eos).1 })
        ⟨hreq, fun h => by rw [hsame] at h ⊢; exact hkey h,
          fun h => by rw [hsame]; exact hcaches (hshould h)⟩
      refine ⟨hset.cache, fun kc hkc => ?_, hset.flights⟩
      rcases List.mem_append.1 hkc with hkc | hkc
      · exact hs.inserts kc hkc
      · obtain ⟨hcache, hkc, hfor⟩ := hinsert kc (by simpa using hkc)
        obtain ⟨hcons, heq⟩ := hkey (hcaches hcache)
        refine ⟨by rw [hfor]; exact hreq, by rw [hfor]; exact hcons, by rw [hfor, hkc, heq]⟩
  | insert i =>
    unfold step
    dsimp only
    cases hi : s.inserts[i]? with
    | none => exact hs
    | some kc =>
      obtain ⟨key, cached⟩ := kc
      refine ⟨fun k c h => ?_, fun j hj => ?_, hs.flights⟩
      · rw [Dict.lookup_insert_eq] at h
        split at h
        · rename_i heq
          cases h
          rw [heq]
          exact hs.inserts _ (List.mem_of_getElem? hi)
        · exact hs.cache k c h
      · exact hs.inserts j (List.mem_of_mem_eraseIdx hj)
  | evict key =>
    refine ⟨fun k c h => ?_, hs.inserts, hs.flights⟩
    change (s.cache.erase key).lookup k = some c at h
    rw [Dict.lookup_erase_eq] at h
    split at h
    · cases h
    · exact hs.cache k c h

/-! ## Hits -/

/-- A request that asks the cache has its key for itself: every earlier request with that key
had the same port, host, path and query. -/
def KeyApart (p : NyrunProxy) (s : Traffic) : TrafficEvent → Prop
  | .arrive r => Consults p r → ∀ r' ∈ s.requests, Consults p r' → cacheKey r' = cacheKey r →
      SameTarget r r'
  | _ => True

/-- A request answered from the cache is given a response that was stored for an earlier
request with the same port, host, path and query, and by the backend it is routed to. -/
def HitIsOwn (p : NyrunProxy) (s : Traffic) : TrafficEvent → Prop
  | .arrive r => ∀ header cached, (p.requestFilter s.cache r .new).2 = .hit header cached →
      cached.storedFor ∈ s.requests ∧ SameTarget r cached.storedFor ∧
        p.upstreamPeer cached.storedFor = p.upstreamPeer r
  | _ => True

theorem hitIsOwn_of_sound {s : Traffic} {e : TrafficEvent} (hs : Sound p s)
    (he : KeyApart p s e) : HitIsOwn p s e := by
  cases e with
  | arrive r =>
    intro header cached hhit
    rcases requestFilter_cases (p := p) s.cache r with ⟨-, hno⟩ | ⟨hcons, -, hlookup⟩
    · exact absurd hhit (hno header cached)
    · obtain ⟨hreq, hcons', hkey⟩ := hs.cache _ _ (hlookup header cached hhit)
      have hsame := he hcons _ hreq hcons' hkey
      refine ⟨hreq, hsame, ?_⟩
      unfold upstreamPeer
      rw [hsame.backendOf]
  | _ => trivial

/-- In every run of the proxies of one cache, in which the key of a request tells it apart from
the earlier ones, every request answered from the cache is given its own response. -/
theorem hits_are_own (p : NyrunProxy) (events : List TrafficEvent)
    (h : (machine p).Along (KeyApart p) empty events) :
    (machine p).Along (HitIsOwn p) empty events :=
  Machine.along_of_invariant (P := Sound p) (fun _ e hs _ => sound_step hs e)
    (fun _ _ hs he => hitIsOwn_of_sound hs he) sound_empty h

/-- An app on port 80 and another on port 81, both without a host. -/
def twoApps : NyrunProxy where
  routes := [⟨"web", 80, none, .proxy 9001⟩, ⟨"admin", 81, none, .proxy 9002⟩]
  challenges := ∅
  deadPorts := ∅

def indexOn (port : UInt16) : HttpRequest where
  listenPort := port
  method := "GET"
  hostHeader := some (some "example.com")
  path := "/"
  query := none

/-- A request on port 80 is answered by its backend, and the response is stored. -/
def firstVisit : List TrafficEvent :=
  [.arrive (indexOn 80), .header 0 ⟨200, []⟩, .body 0 (some [1]) true, .insert 0]

/-- And the page is asked for again, on a port. -/
def visitAgain (port : UInt16) : List TrafficEvent := firstVisit ++ [.arrive (indexOn port)]

/-- A second request on the same port is a hit. -/
theorem hits_are_own_twice :
    (machine twoApps).Along (HitIsOwn twoApps) empty (visitAgain 80) ∧
      ∃ header cached, (machine twoApps).answer ((machine twoApps).run empty firstVisit)
        (.arrive (indexOn 80)) = some (.hit header cached) := by
  have hlast : KeyApart twoApps ((machine twoApps).run empty firstVisit) (.arrive (indexOn 80)) := by
    intro _ r' h _ _
    obtain rfl : r' = indexOn 80 := List.mem_singleton.1 h
    exact ⟨rfl, rfl, rfl, rfl⟩
  have hfirst : KeyApart twoApps empty (.arrive (indexOn 80)) := fun _ _ h => nomatch h
  refine ⟨hits_are_own twoApps (visitAgain 80)
    ⟨hfirst, trivial, trivial, trivial, hlast, trivial⟩, _, _, rfl⟩

/-- The same request on port 81 is a hit too: it is given the response of the other app. -/
theorem hit_from_other_port :
    ((machine twoApps).answer ((machine twoApps).run empty firstVisit) (.arrive (indexOn 81)) =
        some (.hit ⟨200, [("content-length", "1"), ("x-cache", "HIT")]⟩
          ⟨⟨200, [("content-length", "1")]⟩, [1], indexOn 80⟩)) ∧
      twoApps.upstreamPeer (indexOn 80) = some 9001 ∧
      twoApps.upstreamPeer (indexOn 81) = some 9002 ∧
      ¬(machine twoApps).Along (HitIsOwn twoApps) empty (visitAgain 81) := by
  refine ⟨by decide +kernel, by decide, by decide, fun h => ?_⟩
  have hown : HitIsOwn twoApps ((machine twoApps).run empty firstVisit) (.arrive (indexOn 81)) :=
    h.2.2.2.2.1
  have hpeer := (hown _ _ rfl).2.2
  exact absurd hpeer (by decide)

end Traffic
