import NylonRun.Lib.Machine
import NylonRun.Lib.Text
import NylonRun.Proxy

/-!
# Requests through the proxy

The callbacks of `NyrunProxy` (src/proxy.rs:62-392) on one request, and the machine of all the
requests that the proxies of one cache answer. Transactions interleave, an insertion into the
cache runs on its own, and an entry of the cache may be gone at any time. Metrics, the headers
added for the upstream and the files of an SPA are left out.
-/

/-- What the callbacks read of a request. -/
structure HttpRequest where
  listenPort : UInt16
  method : String
  /-- The first `Host` header, and its text where it is visible ASCII. -/
  hostHeader : Option (Option String)
  path : String
  query : Option String
  deriving DecidableEq, Repr

/-- A response header; the names of the fields are in lower case. -/
structure ResponseHeader where
  status : Nat
  headers : List (String × String)
  deriving DecidableEq, Repr

namespace ResponseHeader

def insertHeader (h : ResponseHeader) (name value : String) : ResponseHeader :=
  { h with headers := h.headers.filter (·.1 ≠ name) ++ [(name, value)] }

def removeHeader (h : ResponseHeader) (name : String) : ResponseHeader :=
  { h with headers := h.headers.filter (·.1 ≠ name) }

end ResponseHeader

/-- An entry of the response cache. `storedFor` is history: the request that the response was
fetched for. -/
structure CachedResponse where
  header : ResponseHeader
  body : Bytes
  storedFor : HttpRequest
  deriving DecidableEq, Repr

/-- `ProxyCtx` (src/proxy.rs:70-78) without the counters. -/
structure ProxyCtx where
  cacheKey : String
  shouldCache : Bool
  responseHeader : Option ResponseHeader
  responseBody : Bytes

/-- What the proxies of one cache share besides it (src/proxy.rs:62-68). -/
structure NyrunProxy where
  routes : RouteTable
  challenges : Dict String String
  deadPorts : Finset UInt16

/-- What `request_filter` does with a request. -/
inductive FilterOutcome where
  /-- `Err(..)`: the port is closed. -/
  | closed
  /-- The proxy answers by itself. -/
  | respond (header : ResponseHeader) (body : String)
  | serveSpa (dir path : String)
  /-- A cached response, with the header that is sent. -/
  | hit (header : ResponseHeader) (cached : CachedResponse)
  /-- `Ok(false)`: on to the upstream. -/
  | forward
  deriving DecidableEq, Repr

namespace ProxyCtx

/-- `new_ctx`. -/
def new : ProxyCtx := ⟨"", false, none, []⟩

/-- `response_filter` (src/proxy.rs:278-295). -/
def responseFilter (resp : ResponseHeader) (ctx : ProxyCtx) : ProxyCtx :=
  if ctx.cacheKey = "" then ctx
  else if resp.status = 200 then { ctx with shouldCache := true, responseHeader := some resp }
  else ctx

/-- The cap of a cached body. -/
def bodyCap : Nat := 5 * 1024 * 1024

/-- A part of the body kept; nothing where it grows over the cap (src/proxy.rs:313-321). -/
def keepBody (ctx : ProxyCtx) : Option Bytes → Option ProxyCtx
  | none => some ctx
  | some b =>
    if ctx.responseBody.length + b.length > bodyCap then none
    else some { ctx with responseBody := ctx.responseBody ++ b }

/-- `response_body_filter` (src/proxy.rs:297-336): the context and, at the end of the body, what
is to be inserted into the cache. -/
def responseBodyFilter (request : HttpRequest) (body : Option Bytes) (endOfStream : Bool)
    (ctx : ProxyCtx) : ProxyCtx × Option (String × CachedResponse) :=
  if ¬ctx.shouldCache then (ctx, none)
  else
    match ctx.keepBody body with
    | none => ({ ctx with shouldCache := false, responseBody := [] }, none)
    | some ctx =>
      match ctx.responseHeader with
      | some header =>
        if endOfStream then
          ({ ctx with responseHeader := none, responseBody := [] },
            some (ctx.cacheKey, {
              header := (header.removeHeader "transfer-encoding").insertHeader "content-length"
                (toString ctx.responseBody.length)
              body := ctx.responseBody
              storedFor := request }))
        else (ctx, none)
      | none => (ctx, none)

end ProxyCtx

namespace NyrunProxy

/-- `extract_host` (src/proxy.rs:385-392). -/
def extractHost (r : HttpRequest) : Option String :=
  r.hostHeader.join.map fun h => (Text.split ':' h).head?.getD h

/-- The query as the key has it (src/proxy.rs:173-177). -/
def querySuffix : Option String → String
  | some q => "?" ++ q
  | none => ""

/-- The key of the cache (src/proxy.rs:171-179). -/
def cacheKey (r : HttpRequest) : String :=
  (extractHost r).getD "localhost" ++ r.path ++ querySuffix r.query

/-- A text as the proxy answers it by itself. -/
def plainText (status : Nat) (body : String) : ResponseHeader where
  status := status
  headers := [("content-type", "text/plain"), ("content-length", toString body.utf8ByteSize)]

/-- The answer to a certificate challenge (src/proxy.rs:127-140). -/
def challenge (p : NyrunProxy) (r : HttpRequest) : Option String :=
  (Text.stripPrefix r.path "/.well-known/acme-challenge/").bind p.challenges.lookup

/-- The backend that the route table selects for a request. -/
def backendOf (p : NyrunProxy) (r : HttpRequest) : Option Backend :=
  (p.routes.find r.listenPort (extractHost r)).map RouteEntry.backend

/-- The answer to a request that is routed to an upstream (src/proxy.rs:161-206). -/
def consultCache (cache : Dict String CachedResponse) (r : HttpRequest) (ctx : ProxyCtx) :
    ProxyCtx × FilterOutcome :=
  if r.method ≠ "GET" then (ctx, .forward)
  else
    let ctx := { ctx with cacheKey := cacheKey r }
    match cache.lookup (cacheKey r) with
    | some cached => (ctx, .hit (cached.header.insertHeader "x-cache" "HIT") cached)
    | none => (ctx, .forward)

/-- `request_filter` (src/proxy.rs:111-220). -/
def requestFilter (p : NyrunProxy) (cache : Dict String CachedResponse) (r : HttpRequest)
    (ctx : ProxyCtx) : ProxyCtx × FilterOutcome :=
  if r.listenPort ∈ p.deadPorts then (ctx, .closed)
  else
    match p.challenge r with
    | some keyAuth => (ctx, .respond (plainText 200 keyAuth) keyAuth)
    | none =>
      match p.backendOf r with
      | some (.spa dir) => (ctx, .serveSpa dir r.path)
      | some (.proxy _) => consultCache cache r ctx
      | none => (ctx, .respond (plainText 404 "no route found\n") "no route found\n")

/-- `upstream_peer` (src/proxy.rs:222-245). -/
def upstreamPeer (p : NyrunProxy) (r : HttpRequest) : Option UInt16 :=
  match p.backendOf r with
  | some (.proxy port) => some port
  | _ => none

end NyrunProxy

/-- A transaction that waits for its upstream. -/
structure Flight where
  request : HttpRequest
  ctx : ProxyCtx

/-- The state of the traffic; `requests` is history. -/
structure Traffic where
  cache : Dict String CachedResponse
  flights : List Flight
  inserts : List (String × CachedResponse)
  requests : List HttpRequest

inductive TrafficEvent where
  | arrive (request : HttpRequest)
  /-- The upstream's header, of a transaction by its number. -/
  | header (flight : Nat) (resp : ResponseHeader)
  | body (flight : Nat) (body : Option Bytes) (endOfStream : Bool)
  /-- A spawned insertion runs. -/
  | insert (task : Nat)
  /-- An entry has expired, or makes room. -/
  | evict (key : String)

namespace Traffic

def empty : Traffic := ⟨∅, [], [], []⟩

def arrive (p : NyrunProxy) (s : Traffic) (r : HttpRequest) : Traffic × Option FilterOutcome :=
  let (ctx, outcome) := p.requestFilter s.cache r .new
  let flights := match outcome with
    | .forward => s.flights ++ [⟨r, ctx⟩]
    | _ => s.flights
  ({ s with flights := flights, requests := s.requests ++ [r] }, some outcome)

def step (p : NyrunProxy) (s : Traffic) : TrafficEvent → Traffic × Option FilterOutcome
  | .arrive r => s.arrive p r
  | .header i resp =>
    match s.flights[i]? with
    | none => (s, none)
    | some f =>
      ({ s with flights := s.flights.set i { f with ctx := f.ctx.responseFilter resp } }, none)
  | .body i body endOfStream =>
    match s.flights[i]? with
    | none => (s, none)
    | some f =>
      let (ctx, insert) := f.ctx.responseBodyFilter f.request body endOfStream
      ({ s with
        flights := s.flights.set i { f with ctx := ctx }
        inserts := s.inserts ++ insert.toList }, none)
  | .insert i =>
    match s.inserts[i]? with
    | none => (s, none)
    | some (key, cached) =>
      ({ s with cache := s.cache.insert key cached, inserts := s.inserts.eraseIdx i }, none)
  | .evict key => ({ s with cache := s.cache.erase key }, none)

/-- The proxies of one cache, on the routes that stand. -/
def machine (p : NyrunProxy) : Machine Traffic TrafficEvent (Option FilterOutcome) := ⟨step p⟩

end Traffic
