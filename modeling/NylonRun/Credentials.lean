import NylonRun.CacheHits
import NylonRun.Lib.Unwinding

/-!
# Requests with credentials

No callback of the proxy reads a `Cookie` or `Authorization` header, nor the `Set-Cookie` and
`Cache-Control` of a response: what is stored under a key is given to every request that has
it. So whoever shares a key with a request is seen by it, and nobody else is.

The transactions have numbers of their own here, which two runs can have in common.
-/

open NyrunProxy

/-- A request, with the credentials that it carries. -/
structure ClientRequest extends HttpRequest where
  cookie : Option String
  authorization : Option String
  deriving DecidableEq

/-- A transaction that waits for its upstream, and its spawned insertions. -/
structure Transaction where
  request : ClientRequest
  ctx : ProxyCtx
  tasks : List (String × CachedResponse)

/-- The cache has with each response, as history, the request that it was fetched for;
`requests` is history. -/
structure ClientTraffic where
  cache : Dict String (CachedResponse × ClientRequest)
  transactions : Dict Nat Transaction
  requests : List ClientRequest

/-- What happens to a transaction once it waits. -/
inductive TransactionEvent where
  | header (resp : ResponseHeader)
  | body (body : Option Bytes) (endOfStream : Bool)
  /-- One of its insertions runs. -/
  | insert (task : Nat)

inductive ClientEvent where
  | arrive (id : Nat) (request : ClientRequest)
  | on (id : Nat) (event : TransactionEvent)
  | evict (key : String)

/-- The transaction after an event, and what it puts into the cache. -/
def Transaction.step (t : Transaction) :
    TransactionEvent → Transaction × Option (String × CachedResponse)
  | .header resp => ({ t with ctx := t.ctx.responseFilter resp }, none)
  | .body body endOfStream =>
    let (ctx, insert) := t.ctx.responseBodyFilter t.request.toHttpRequest body endOfStream
    ({ t with ctx := ctx, tasks := t.tasks ++ insert.toList }, none)
  | .insert i => ({ t with tasks := t.tasks.eraseIdx i }, t.tasks[i]?)

namespace ClientTraffic

def empty : ClientTraffic := ⟨∅, ∅, []⟩

/-- The answer of `request_filter`, on the responses of the cache. -/
def filter (p : NyrunProxy) (s : ClientTraffic) (r : ClientRequest) : ProxyCtx × FilterOutcome :=
  p.requestFilter (s.cache.mapValues fun _ => Prod.fst) r.toHttpRequest .new

def arrive (p : NyrunProxy) (s : ClientTraffic) (id : Nat) (r : ClientRequest) :
    ClientTraffic × Option FilterOutcome :=
  let (ctx, outcome) := s.filter p r
  let transactions := match outcome with
    | .forward => s.transactions.insert id ⟨r, ctx, []⟩
    | _ => s.transactions
  ({ s with transactions := transactions, requests := s.requests ++ [r] }, some outcome)

/-- A response put into the cache, for the request that it answered. -/
def store (s : ClientTraffic) (r : ClientRequest) :
    Option (String × CachedResponse) → ClientTraffic
  | some (key, cached) => { s with cache := s.cache.insert key (cached, r) }
  | none => s

def on (s : ClientTraffic) (id : Nat) (e : TransactionEvent) : ClientTraffic :=
  match s.transactions.lookup id with
  | none => s
  | some t =>
    { s with transactions := s.transactions.insert id (t.step e).1 }.store t.request (t.step e).2

def step (p : NyrunProxy) (s : ClientTraffic) :
    ClientEvent → ClientTraffic × Option FilterOutcome
  | .arrive id r =>
    match s.transactions.lookup id with
    | some _ => (s, none)
    | none => s.arrive p id r
  | .on id e => (s.on id e, none)
  | .evict key => ({ s with cache := s.cache.erase key }, none)

/-- The proxies of one cache, with the credentials of their clients. -/
def machine (p : NyrunProxy) : Machine ClientTraffic ClientEvent (Option FilterOutcome) := ⟨step p⟩

/-! ## One event -/

/-- What one event does to a transaction: request and key stay, a response is to be cached only
from its status 200 on, and what is handed to the cache is filed under the key. -/
theorem step_spec (t : Transaction) (e : TransactionEvent) :
    (t.step e).1.request = t.request ∧ (t.step e).1.ctx.cacheKey = t.ctx.cacheKey ∧
    ((t.step e).1.ctx.shouldCache = true → t.ctx.shouldCache = true ∨
      (t.ctx.cacheKey ≠ "" ∧ ∃ resp, e = .header resp ∧ resp.status = 200)) ∧
    (∀ kc ∈ (t.step e).1.tasks,
      kc ∈ t.tasks ∨ (t.ctx.shouldCache = true ∧ kc.1 = t.ctx.cacheKey)) ∧
    ∀ kc, (t.step e).2 = some kc → kc ∈ t.tasks := by
  cases e with
  | header resp =>
    refine ⟨rfl, Traffic.responseFilter_key resp t.ctx, fun h => ?_, fun kc h => .inl h,
      fun kc h => nomatch h⟩
    rcases Traffic.responseFilter_shouldCache h with h | ⟨hkey, hstatus⟩
    · exact .inl h
    · exact .inr ⟨hkey, resp, rfl, hstatus⟩
  | body body eos =>
    obtain ⟨hkey, hshould, hinsert⟩ :=
      Traffic.responseBodyFilter_spec t.request.toHttpRequest body eos t.ctx
    refine ⟨rfl, hkey, fun h => .inl (hshould h), fun kc h => ?_, fun kc h => nomatch h⟩
    rcases List.mem_append.1 h with h | h
    · exact .inl h
    · obtain ⟨hcache, hkc, -⟩ := hinsert kc (Option.mem_toList.1 h)
      exact .inr ⟨hcache, hkc⟩
  | insert i =>
    exact ⟨rfl, rfl, fun h => .inl h, fun kc h => .inl (List.mem_of_mem_eraseIdx h),
      fun kc h => List.mem_of_getElem? h⟩

/-- The answer to a request depends on what stands under its key only. -/
theorem filter_congr {p : NyrunProxy} {s t : ClientTraffic} {r : ClientRequest}
    (h : s.cache.lookup (cacheKey r.toHttpRequest) = t.cache.lookup (cacheKey r.toHttpRequest)) :
    s.filter p r = t.filter p r := by
  unfold filter requestFilter consultCache
  rw [Dict.lookup_mapValues, Dict.lookup_mapValues, h]

theorem lookup_transactions_arrive {p : NyrunProxy} {s : ClientTraffic} {id : Nat}
    {r : ClientRequest} (i : Nat) :
    (s.arrive p id r).1.transactions.lookup i =
      if i = id ∧ (s.filter p r).2 = .forward then some ⟨r, (s.filter p r).1, []⟩
      else s.transactions.lookup i := by
  unfold arrive
  cases hf : s.filter p r with
  | mk ctx outcome =>
    cases outcome with
    | forward =>
      simp only [and_true]
      exact Dict.lookup_insert_eq i
    | _ => simp

@[simp] theorem store_transactions (s : ClientTraffic) (r : ClientRequest)
    (put : Option (String × CachedResponse)) :
    (s.store r put).transactions = s.transactions := by
  cases put <;> rfl

@[simp] theorem store_requests (s : ClientTraffic) (r : ClientRequest)
    (put : Option (String × CachedResponse)) : (s.store r put).requests = s.requests := by
  cases put <;> rfl

theorem lookup_transactions_on {s : ClientTraffic} {id : Nat} {e : TransactionEvent} (i : Nat) :
    (s.on id e).transactions.lookup i =
      if i = id then (s.transactions.lookup id).map fun t => (t.step e).1
      else s.transactions.lookup i := by
  unfold on
  cases hid : s.transactions.lookup id with
  | none =>
    by_cases hi : i = id
    · subst hi
      simp [hid]
    · simp [hi]
  | some t =>
    dsimp only
    rw [store_transactions]
    exact Dict.lookup_insert_eq i

/-- What stands under a key after an event of a transaction: as before, or a response that the
transaction had for the key. -/
theorem lookup_cache_on (s : ClientTraffic) (id : Nat) (e : TransactionEvent) (key : String) :
    (s.on id e).cache.lookup key = s.cache.lookup key ∨
      ∃ t, s.transactions.lookup id = some t ∧ ∃ cached, (key, cached) ∈ t.tasks ∧
        (s.on id e).cache.lookup key = some (cached, t.request) := by
  unfold on
  cases hid : s.transactions.lookup id with
  | none => exact .inl rfl
  | some t =>
    obtain ⟨-, -, -, -, hput⟩ := step_spec t e
    dsimp only
    cases hstep : (t.step e).2 with
    | none => exact .inl rfl
    | some kc =>
      obtain ⟨k, cached⟩ := kc
      change (s.cache.insert k (cached, t.request)).lookup key = _ ∨ _
      by_cases hkey : key = k
      · subst hkey
        refine .inr ⟨t, rfl, cached, hput _ hstep, ?_⟩
        exact AList.lookup_insert _
      · exact .inl (by rw [Dict.lookup_insert_eq, if_neg hkey])

/-! ## Whose response a hit gives -/

/-- A response under a key was fetched for an earlier GET with that key. -/
structure Filed (s : ClientTraffic) (key : String) (r : ClientRequest) : Prop where
  request : r ∈ s.requests
  key : cacheKey r.toHttpRequest = key
  method : r.method = "GET"

/-- A waiting transaction has no key or that of its own request, and so have its insertions. -/
structure Waits (s : ClientTraffic) (t : Transaction) : Prop where
  request : t.request ∈ s.requests
  key : t.ctx.cacheKey ≠ "" → Filed s t.ctx.cacheKey t.request
  caches : t.ctx.shouldCache = true → t.ctx.cacheKey ≠ ""
  tasks : ∀ kc ∈ t.tasks, Filed s kc.1 t.request

structure Sound (s : ClientTraffic) : Prop where
  cache : ∀ key cached r, s.cache.lookup key = some (cached, r) → Filed s key r
  transactions : ∀ id t, s.transactions.lookup id = some t → Waits s t

theorem Filed.mono {s s' : ClientTraffic} {key : String} {r : ClientRequest}
    (hsub : s.requests ⊆ s'.requests) (h : Filed s key r) : Filed s' key r :=
  ⟨hsub h.request, h.key, h.method⟩

theorem Waits.mono {s s' : ClientTraffic} {t : Transaction} (hsub : s.requests ⊆ s'.requests)
    (h : Waits s t) : Waits s' t :=
  ⟨hsub h.request, fun hk => (h.key hk).mono hsub, h.caches, fun kc hkc => (h.tasks kc hkc).mono hsub⟩

theorem waits_step {s : ClientTraffic} {t : Transaction} (h : Waits s t) (e : TransactionEvent) :
    Waits s (t.step e).1 := by
  obtain ⟨hrequest, hkey, hshould, htasks, -⟩ := step_spec t e
  refine ⟨?_, fun hne => ?_, fun hcache => ?_, fun kc hkc => ?_⟩
  · rw [hrequest]
    exact h.request
  · rw [hkey] at hne ⊢
    rw [hrequest]
    exact h.key hne
  · rw [hkey]
    rcases hshould hcache with hcache | ⟨hne, -⟩
    · exact h.caches hcache
    · exact hne
  · rw [hrequest]
    rcases htasks kc hkc with hkc | ⟨hcache, hkc⟩
    · exact h.tasks kc hkc
    · rw [hkc]
      exact h.key (h.caches hcache)

theorem sound_empty : Sound empty := by
  constructor
  · intro key cached r h
    cases h
  · intro id t h
    cases h

theorem sound_arrive {p : NyrunProxy} {s : ClientTraffic} (h : Sound s) (id : Nat)
    (r : ClientRequest) : Sound (s.arrive p id r).1 := by
  have hsub : s.requests ⊆ (s.arrive p id r).1.requests := List.subset_append_left _ _
  refine ⟨fun key cached r' hr' => (h.cache key cached r' hr').mono hsub, fun i t ht => ?_⟩
  rw [lookup_transactions_arrive] at ht
  split at ht
  · cases ht
    have hmem : r ∈ (s.arrive p id r).1.requests := List.mem_append_right _ List.mem_cons_self
    rcases Traffic.requestFilter_cases (p := p) (s.cache.mapValues fun _ => Prod.fst)
      r.toHttpRequest with ⟨hctx, -⟩ | ⟨hconsults, hctx, -⟩
    · change (s.filter p r).1 = _ at hctx
      rw [hctx]
      exact ⟨hmem, fun hne => absurd rfl hne, fun hcache => (nomatch hcache),
        fun kc hkc => nomatch hkc⟩
    · change (s.filter p r).1 = _ at hctx
      rw [hctx]
      exact ⟨hmem, fun _ => ⟨hmem, rfl, hconsults.method⟩, fun hcache => (nomatch hcache),
        fun kc hkc => nomatch hkc⟩
  · exact (h.transactions i t ht).mono hsub

theorem sound_on {s : ClientTraffic} (h : Sound s) (id : Nat) (e : TransactionEvent) :
    Sound (s.on id e) := by
  have hreq : (s.on id e).requests = s.requests := by
    unfold on
    split
    · rfl
    · exact store_requests ..
  have hsub : s.requests ⊆ (s.on id e).requests := by
    rw [hreq]
    exact List.Subset.refl _
  constructor
  · intro key cached r hr
    rcases lookup_cache_on s id e key with hsame | ⟨t, ht, c, hc, hput⟩
    · rw [hsame] at hr
      exact (h.cache key cached r hr).mono hsub
    · rw [hput] at hr
      cases hr
      exact ((h.transactions id t ht).tasks _ hc).mono hsub
  · intro i t ht
    rw [lookup_transactions_on] at ht
    split at ht
    · obtain ⟨t', ht', rfl⟩ := Option.map_eq_some_iff.1 ht
      exact (waits_step (h.transactions id t' ht') e).mono hsub
    · exact (h.transactions i t ht).mono hsub

theorem sound_step {p : NyrunProxy} {s : ClientTraffic} (h : Sound s) (e : ClientEvent) :
    Sound ((machine p).next s e) := by
  change Sound (s.step p e).1
  cases e with
  | arrive id r =>
    unfold step
    dsimp only
    cases hid : s.transactions.lookup id with
    | none => exact sound_arrive h id r
    | some t => exact h
  | on id e => exact sound_on h id e
  | evict key =>
    have hsub : s.requests ⊆ (s.step p (.evict key)).1.requests := List.Subset.refl _
    refine ⟨fun k cached r hr => ?_, fun id t ht => (h.transactions id t ht).mono hsub⟩
    change (s.cache.erase key).lookup k = _ at hr
    rw [Dict.lookup_erase_eq] at hr
    split at hr
    · cases hr
    · exact (h.cache k cached r hr).mono hsub

/-- A request answered from the cache is given a response that was stored for an earlier GET
with the same host, path and query, whatever the credentials of the two. -/
def HitIsFiled (p : NyrunProxy) (s : ClientTraffic) : ClientEvent → Prop
  | .arrive _ r => ∀ header cached, (s.filter p r).2 = .hit header cached →
      ∃ r' ∈ s.requests, s.cache.lookup (cacheKey r.toHttpRequest) = some (cached, r') ∧
        cacheKey r'.toHttpRequest = cacheKey r.toHttpRequest ∧ r'.method = "GET"
  | _ => True

theorem hitIsFiled_of_sound {p : NyrunProxy} {s : ClientTraffic} (h : Sound s) (e : ClientEvent) :
    HitIsFiled p s e := by
  cases e with
  | arrive id r =>
    intro header cached hhit
    rcases Traffic.requestFilter_cases (p := p) (s.cache.mapValues fun _ => Prod.fst)
      r.toHttpRequest with ⟨-, hno⟩ | ⟨-, -, hlookup⟩
    · exact absurd hhit (hno header cached)
    · have hcached := hlookup header cached hhit
      rw [Dict.lookup_mapValues] at hcached
      obtain ⟨⟨cached', r'⟩, hentry, rfl⟩ := Option.map_eq_some_iff.1 hcached
      obtain ⟨hreq, hkey, hmethod⟩ := h.cache _ _ _ hentry
      exact ⟨r', hreq, hentry, hkey, hmethod⟩
  | _ => trivial

/-! ## Two histories -/

/-- Where a transaction stands to an observer. -/
inductive Side where
  | seen
  /-- Not seen: its key is one that no seen request has. -/
  | apart
  /-- Not seen: its upstream never answers with status 200. -/
  | unstored
  deriving DecidableEq

section

-- the side of each transaction, and the keys that no seen request has
variable (side : Nat → Side) (keys : String → Prop)

def Seen : ClientEvent → Prop
  | .arrive id _ => side id = .seen
  | .on id _ => side id = .seen
  | .evict key => ¬keys key

/-- The event is as the side of its transaction says. -/
def Confined : ClientEvent → Prop
  | .arrive id r =>
    (side id = .seen → ¬keys (cacheKey r.toHttpRequest)) ∧
      (side id = .apart → keys (cacheKey r.toHttpRequest))
  | .on id (.header resp) => side id = .unstored → resp.status ≠ 200
  | _ => True

instance [DecidablePred keys] : DecidablePred (Seen side keys)
  | .arrive id _ => inferInstanceAs (Decidable (side id = .seen))
  | .on id _ => inferInstanceAs (Decidable (side id = .seen))
  | .evict key => inferInstanceAs (Decidable (¬keys key))

/-- A transaction that is not seen has nothing for a key of the observer. -/
structure Harmless (of : Side) (t : Transaction) : Prop where
  key : of = .apart → t.ctx.cacheKey ≠ "" → keys t.ctx.cacheKey
  caches : t.ctx.shouldCache = true → keys t.ctx.cacheKey
  tasks : ∀ kc ∈ t.tasks, keys kc.1

/-- The two states agree on what the observer can be given. -/
structure Alike (s t : ClientTraffic) : Prop where
  cache : ∀ key, ¬keys key → s.cache.lookup key = t.cache.lookup key
  transactions : ∀ id, side id = .seen → s.transactions.lookup id = t.transactions.lookup id
  hidden : ∀ id x, side id ≠ .seen → s.transactions.lookup id = some x → Harmless keys (side id) x

variable {side keys} {p : NyrunProxy} {s t : ClientTraffic}

theorem harmless_step {of : Side} {x : Transaction} (hof : of ≠ .seen) (h : Harmless keys of x)
    {e : TransactionEvent} (he : of = .unstored → ∀ resp, e = .header resp → resp.status ≠ 200) :
    Harmless keys of (x.step e).1 := by
  obtain ⟨-, hkey, hshould, htasks, -⟩ := step_spec x e
  refine ⟨fun hapart hne => ?_, fun hcache => ?_, fun kc hkc => ?_⟩
  · rw [hkey] at hne ⊢
    exact h.key hapart hne
  · rw [hkey]
    rcases hshould hcache with hcache | ⟨hne, resp, hresp, hstatus⟩
    · exact h.caches hcache
    · cases of with
      | seen => exact absurd rfl hof
      | apart => exact h.key rfl hne
      | unstored => exact absurd hstatus (he rfl resp hresp)
  · rcases htasks kc hkc with hkc | ⟨hcache, hkc⟩
    · exact h.tasks kc hkc
    · rw [hkc]
      exact h.caches hcache

/-- A new transaction has no response yet, and the key of its request. -/
theorem harmless_new {of : Side} {r : ClientRequest}
    (h : of = .apart → keys (cacheKey r.toHttpRequest)) :
    Harmless keys of ⟨r, (s.filter p r).1, []⟩ := by
  rcases Traffic.requestFilter_cases (p := p) (s.cache.mapValues fun _ => Prod.fst)
    r.toHttpRequest with ⟨hctx, -⟩ | ⟨-, hctx, -⟩
  all_goals
    change (s.filter p r).1 = _ at hctx
    rw [hctx]
  · exact ⟨fun _ hne => absurd rfl hne, fun hcache => (nomatch hcache), fun kc hkc => nomatch hkc⟩
  · exact ⟨fun hapart _ => h hapart, fun hcache => (nomatch hcache), fun kc hkc => nomatch hkc⟩

theorem lookup_cache_on_congr {id : Nat} {key : String} {e : TransactionEvent}
    (ht : s.transactions.lookup id = t.transactions.lookup id)
    (hkey : s.cache.lookup key = t.cache.lookup key) :
    (s.on id e).cache.lookup key = (t.on id e).cache.lookup key := by
  unfold on
  rw [ht]
  cases t.transactions.lookup id with
  | none => exact hkey
  | some x =>
    dsimp only
    generalize (x.step e).2 = put
    cases put with
    | none => exact hkey
    | some kc =>
      dsimp only [store]
      rw [Dict.lookup_insert_eq, Dict.lookup_insert_eq, hkey]

theorem alike_on (h : Alike side keys s t) {id : Nat} (hid : side id = .seen)
    (e : TransactionEvent) : Alike side keys (s.on id e) (t.on id e) := by
  refine ⟨fun key hkey => ?_, fun i hi => ?_, fun i x hi hx => ?_⟩
  · exact lookup_cache_on_congr (h.transactions id hid) (h.cache key hkey)
  · rw [lookup_transactions_on, lookup_transactions_on, h.transactions i hi, h.transactions id hid]
  · have hne : i ≠ id := fun heq => hi (heq ▸ hid)
    rw [lookup_transactions_on, if_neg hne] at hx
    exact h.hidden i x hi hx

theorem alike_on_left (h : Alike side keys s t) {id : Nat} (hid : side id ≠ .seen)
    {e : TransactionEvent} (he : Confined side keys (.on id e)) :
    Alike side keys (s.on id e) t := by
  refine ⟨fun key hkey => ?_, fun i hi => ?_, fun i x hi hx => ?_⟩
  · rcases lookup_cache_on s id e key with hsame | ⟨x, hx, c, hc, -⟩
    · rw [hsame]
      exact h.cache key hkey
    · exact absurd ((h.hidden id x hid hx).tasks _ hc) hkey
  · have hne : i ≠ id := fun heq => hid (heq ▸ hi)
    rw [lookup_transactions_on, if_neg hne]
    exact h.transactions i hi
  · rw [lookup_transactions_on] at hx
    split at hx
    · rename_i heq
      subst heq
      obtain ⟨x', hx', rfl⟩ := Option.map_eq_some_iff.1 hx
      refine harmless_step hi (h.hidden i x' hi hx') fun hof resp hresp => ?_
      subst hresp
      exact he hof
    · exact h.hidden i x hi hx

theorem alike_arrive (h : Alike side keys s t) {id : Nat} (hid : side id = .seen)
    {r : ClientRequest} (hr : s.filter p r = t.filter p r) :
    Alike side keys (s.arrive p id r).1 (t.arrive p id r).1 := by
  refine ⟨h.cache, fun i hi => ?_, fun i x hi hx => ?_⟩
  · rw [lookup_transactions_arrive, lookup_transactions_arrive, hr, h.transactions i hi]
  · have hne : i ≠ id := fun heq => hi (heq ▸ hid)
    rw [lookup_transactions_arrive, if_neg (not_and_of_not_left _ hne)] at hx
    exact h.hidden i x hi hx

theorem alike_arrive_left (h : Alike side keys s t) {id : Nat} (hid : side id ≠ .seen)
    {r : ClientRequest} (hr : side id = .apart → keys (cacheKey r.toHttpRequest)) :
    Alike side keys (s.arrive p id r).1 t := by
  refine ⟨h.cache, fun i hi => ?_, fun i x hi hx => ?_⟩
  · have hne : i ≠ id := fun heq => hid (heq ▸ hi)
    rw [lookup_transactions_arrive, if_neg (not_and_of_not_left _ hne)]
    exact h.transactions i hi
  · rw [lookup_transactions_arrive] at hx
    split at hx
    · rename_i heq
      cases hx
      exact harmless_new (heq.1 ▸ hr)
    · exact h.hidden i x hi hx

theorem lookup_evict (h : Alike side keys s t) (key : String) {k : String} (hk : ¬keys k) :
    (s.cache.erase key).lookup k = (t.cache.erase key).lookup k := by
  rw [Dict.lookup_erase_eq, Dict.lookup_erase_eq, h.cache k hk]

/-- Agreement is an unwinding: an observer is given the same answers whether or not there are
the transactions that he does not see. -/
theorem unwinding [DecidablePred keys] :
    Machine.Unwinding (machine p) (Seen side keys) (Confined side keys) (Alike side keys) where
  answer s t e h hseen he := by
    change (s.step p e).2 = (t.step p e).2
    cases e with
    | arrive id r =>
      unfold step
      dsimp only
      rw [h.transactions id hseen]
      cases t.transactions.lookup id with
      | some x => rfl
      | none => exact congrArg (fun f => some f.2) (filter_congr (h.cache _ (he.1 hseen)))
    | _ => rfl
  both s t e h hseen he := by
    change Alike side keys (s.step p e).1 (t.step p e).1
    cases e with
    | arrive id r =>
      unfold step
      dsimp only
      rw [h.transactions id hseen]
      cases t.transactions.lookup id with
      | some x => exact h
      | none => exact alike_arrive h hseen (filter_congr (h.cache _ (he.1 hseen)))
    | on id e => exact alike_on h hseen e
    | evict key => exact ⟨fun k hk => lookup_evict h key hk, h.transactions, h.hidden⟩
  left s t e h hseen he := by
    change Alike side keys (s.step p e).1 t
    cases e with
    | arrive id r =>
      unfold step
      dsimp only
      cases s.transactions.lookup id with
      | some x => exact h
      | none => exact alike_arrive_left h hseen he.2
    | on id e => exact alike_on_left h hseen he
    | evict key =>
      have hkeys : keys key := not_not.1 hseen
      refine ⟨fun k hk => ?_, h.transactions, h.hidden⟩
      have hne : k ≠ key := fun heq => hk (heq ▸ hkeys)
      change (s.cache.erase key).lookup k = _
      rw [Dict.lookup_erase_eq, if_neg hne, h.cache k hk]

theorem alike_empty : Alike side keys empty empty :=
  ⟨fun _ _ => rfl, fun _ _ => rfl, fun _ _ _ h => nomatch h⟩

end

/-- In every history a request answered from the cache is given a response to an earlier GET
with its key; and two histories that differ only in transactions whose key no seen request has,
or whose upstream never answers with status 200, give the seen requests the same answers. -/
theorem other_keys_unseen (p : NyrunProxy) :
    (∀ events, (machine p).Along (HitIsFiled p) empty events) ∧
    ∀ (side : Nat → Side) (keys : String → Prop) [DecidablePred keys]
      (events events' : List ClientEvent),
      (∀ e ∈ events, Confined side keys e) → (∀ e ∈ events', Confined side keys e) →
      events.filter (Seen side keys) = events'.filter (Seen side keys) →
      (machine p).observed (Seen side keys) empty events =
        (machine p).observed (Seen side keys) empty events' := by
  constructor
  · intro events
    exact Machine.along_of_invariant (P := Sound) (fun _ e h _ => sound_step h e)
      (fun _ e h _ => hitIsFiled_of_sound h e) sound_empty Machine.along_true
  · intro side keys _ events events' h h' hsame
    exact unwinding.observed_eq alike_empty h h' hsame

/-! ## A shared key -/

/-- A GET for the account page of `web`, with a session. -/
def account (session : String) : ClientRequest :=
  { Traffic.indexOn 80 with path := "/account", cookie := some session, authorization := none }

/-- The account page as it is answered to its owner only. -/
def privatePage : ResponseHeader where
  status := 200
  headers := [("set-cookie", "session=alice"), ("cache-control", "private, no-store")]

/-- Alice asks for her account page, and its response is stored. -/
def aliceVisits : List ClientEvent :=
  [.arrive 0 (account "alice"), .on 0 (.header privatePage), .on 0 (.body (some [65]) true),
    .on 0 (.insert 0)]

/-- Bob asks for a page of his own session. -/
def bobAsks (path : String) : List ClientEvent :=
  [.arrive 1 { account "bob" with path := path }]

/-- Alice's page, as the cache has it. -/
def alicePage : CachedResponse where
  header := { status := 200, headers := privatePage.headers ++ [("content-length", "1")] }
  body := [65]
  storedFor := (account "alice").toHttpRequest

/-- Bob's transaction is the seen one. -/
def bobSide (id : Nat) : Side := if id = 1 then .seen else .apart

/-- Bob's own page is not touched by Alice's visit of hers. -/
theorem other_keys_unseen_bob :
    (machine Traffic.twoApps).observed (Seen bobSide (· = "example.com/account")) empty
        (aliceVisits ++ bobAsks "/bob") =
      (machine Traffic.twoApps).observed (Seen bobSide (· = "example.com/account")) empty
        (bobAsks "/bob") := by
  have halice : ∀ e ∈ aliceVisits, Confined bobSide (· = "example.com/account") e := by
    intro e he
    simp only [aliceVisits, List.mem_cons, List.not_mem_nil, or_false] at he
    rcases he with rfl | rfl | rfl | rfl
    · exact ⟨by decide, fun _ => by decide +kernel⟩
    · exact fun h => absurd h (by decide)
    · trivial
    · trivial
  have hbob : ∀ e ∈ bobAsks "/bob", Confined bobSide (· = "example.com/account") e := by
    intro e he
    obtain rfl := List.mem_singleton.1 he
    exact ⟨fun _ => by decide +kernel, by decide⟩
  refine (other_keys_unseen Traffic.twoApps).2 bobSide _ _ _ (fun e he => ?_) hbob rfl
  rcases List.mem_append.1 he with he | he
  · exact halice e he
  · exact hbob e he

/-- Bob, whose credentials are others, is given Alice's page from the cache; in the history
without her visit his request goes to the upstream. -/
theorem private_page_shared :
    (aliceVisits ++ bobAsks "/account").filter (Seen bobSide fun _ => False) =
      (bobAsks "/account").filter (Seen bobSide fun _ => False) ∧
    (account "bob").cookie ≠ (account "alice").cookie ∧
    (machine Traffic.twoApps).observed (Seen bobSide fun _ => False) empty
        (aliceVisits ++ bobAsks "/account") =
      [some (.hit (alicePage.header.insertHeader "x-cache" "HIT") alicePage)] ∧
    (machine Traffic.twoApps).observed (Seen bobSide fun _ => False) empty
        (bobAsks "/account") = [some .forward] := by
  refine ⟨rfl, by decide, by decide +kernel, by decide +kernel⟩

end ClientTraffic
