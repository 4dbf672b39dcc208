import NylonRun.Lib.FileTree

/-!
# What the upstream is told of the client

`upstream_request_filter` (src/proxy.rs:247-276) writes four headers into the request for the
upstream, which is pingora's copy of the client's. Two of them it always writes; the other two
stand as the client sent them where a condition says so.
-/

namespace Forwarded

/-- The headers of a request; the names are in lower case. -/
abbrev HeaderMap : Type := Multimap String Bytes

/-- A text that is plain ASCII, as bytes. -/
def ofAscii (text : String) : Bytes := text.toList.map fun c => c.toNat.toUInt8

/-- `HeaderValue::to_str`: visible ASCII and tabs only. -/
def toStr (value : Bytes) : Option String :=
  if value.all fun b => (32 ≤ b && b < 127) || b == 9 then
    some (String.ofList (value.map fun b => Char.ofNat b.toNat))
  else none

/-- The socket address of a client. -/
inductive SocketAddr where
  | v4 (a b c d : UInt8) (port : UInt16)
  /-- An address of IPv6, by its text. -/
  | v6 (ip : String) (port : UInt16)
  | unix (path : String)
  deriving DecidableEq, Repr

namespace SocketAddr

/-- The text of an IPv4 address. -/
def ipv4 (a b c d : UInt8) : String :=
  toString a.toNat ++ "." ++ toString b.toNat ++ "." ++ toString c.toNat ++ "." ++
    toString d.toNat

/-- `to_string`. -/
def text : SocketAddr → String
  | v4 a b c d port => ipv4 a b c d ++ ":" ++ toString port.toNat
  | v6 ip port => "[" ++ ip ++ "]" ++ ":" ++ toString port.toNat
  | unix path => path

/-- The address without its port (src/proxy.rs:255-256). -/
def ip (addr : SocketAddr) : String := (Text.split ':' addr.text).head?.getD addr.text

end SocketAddr

/-- What the filter reads of a session. -/
structure Session where
  clientAddr : Option SocketAddr
  /-- The connection has an `ssl_digest`. -/
  tls : Bool
  headers : HeaderMap

/-- The headers that tell of the client's address (src/proxy.rs:254-261). -/
def addressHeaders (clientAddr : Option SocketAddr) (upstream : HeaderMap) : HeaderMap :=
  match clientAddr with
  | some addr =>
    let upstream := upstream.replace "x-forwarded-for" (ofAscii addr.ip)
    if upstream.values "x-real-ip" = [] then upstream.replace "x-real-ip" (ofAscii addr.ip)
    else upstream
  | none => upstream

/-- `upstream_request_filter` (src/proxy.rs:247-276). -/
def upstreamRequestFilter (s : Session) (upstream : HeaderMap) : HeaderMap :=
  let upstream := addressHeaders s.clientAddr upstream
  let upstream :=
    upstream.replace "x-forwarded-proto" (ofAscii (if s.tls then "https" else "http"))
  match (s.headers.values "host").head?.bind toStr with
  | some host => upstream.replace "x-forwarded-host" (ofAscii host)
  | none => upstream

/-- The four headers. -/
def names : List String :=
  ["x-real-ip", "x-forwarded-for", "x-forwarded-proto", "x-forwarded-host"]

/-- The second request comes from the same client over the same kind of connection, and differs
from the first in the four headers only. -/
structure SameClient (s s' : Session) : Prop where
  clientAddr : s'.clientAddr = s.clientAddr
  tls : s'.tls = s.tls
  others : ∀ name, name ∉ names → s'.headers.values name = s.headers.values name

/-- Pingora's copy of a request has the four headers that the request has. -/
def Copies (copy : HeaderMap → HeaderMap) : Prop :=
  ∀ headers, ∀ name ∈ names, Multimap.values (copy headers) name = headers.values name

/-! ## The address -/

theorem colon_notMem_toString (n : Nat) : ':' ∉ (toString n).toList := by
  intro h
  rw [Nat.toString_eq_repr, Nat.toList_repr] at h
  exact absurd (Nat.isDigit_of_mem_toDigits (by omega) (by omega) h) (by decide)

/-- The port is cut off at the first colon, which an IPv4 address does not have. -/
theorem ip_v4 (a b c d : UInt8) (port : UInt16) :
    (SocketAddr.v4 a b c d port).ip = SocketAddr.ipv4 a b c d := by
  have hcolon : ':' ∉ (SocketAddr.ipv4 a b c d).toList := by
    unfold SocketAddr.ipv4
    simp only [String.toList_append, List.mem_append, not_or]
    have hdot : ':' ∉ (".": String).toList := by decide
    exact ⟨⟨⟨⟨⟨⟨colon_notMem_toString _, hdot⟩, colon_notMem_toString _⟩, hdot⟩,
      colon_notMem_toString _⟩, hdot⟩, colon_notMem_toString _⟩
  have hone : Text.split ':' (SocketAddr.ipv4 a b c d) = [SocketAddr.ipv4 a b c d] := by
    rw [Text.split, List.splitOn_eq_singleton hcolon, List.map_singleton, String.ofList_toList]
  have hhead := Text.head?_split_append ':' (SocketAddr.ipv4 a b c d) (toString port.toNat)
  rw [hone] at hhead
  unfold SocketAddr.ip SocketAddr.text
  rw [show (":" : String) = String.singleton ':' from rfl, hhead]
  rfl

/-! ## The four headers -/

variable (s : Session) (upstream : HeaderMap)

/-- Whatever is written last, the other names keep their values. -/
theorem values_filter {name : String} (hproto : name ≠ "x-forwarded-proto")
    (hhost : name ≠ "x-forwarded-host") :
    (upstreamRequestFilter s upstream).values name =
      (addressHeaders s.clientAddr upstream).values name := by
  unfold upstreamRequestFilter
  dsimp only
  split
  · rw [Multimap.values_replace, if_neg hhost, Multimap.values_replace, if_neg hproto]
  · rw [Multimap.values_replace, if_neg hproto]

theorem values_proto : (upstreamRequestFilter s upstream).values "x-forwarded-proto" =
    [ofAscii (if s.tls then "https" else "http")] := by
  unfold upstreamRequestFilter
  dsimp only
  split
  · rw [Multimap.values_replace, if_neg (by decide), Multimap.values_replace, if_pos rfl]
  · rw [Multimap.values_replace, if_pos rfl]

theorem values_host {host : String}
    (h : (s.headers.values "host").head?.bind toStr = some host) :
    (upstreamRequestFilter s upstream).values "x-forwarded-host" = [ofAscii host] := by
  unfold upstreamRequestFilter
  rw [h]
  exact (Multimap.values_replace ..).trans (if_pos rfl)

theorem values_for {addr : SocketAddr} (h : s.clientAddr = some addr) :
    (upstreamRequestFilter s upstream).values "x-forwarded-for" = [ofAscii addr.ip] := by
  rw [values_filter s upstream (by decide) (by decide), h]
  unfold addressHeaders
  dsimp only
  split
  · rw [Multimap.values_replace, if_neg (by decide), Multimap.values_replace, if_pos rfl]
  · rw [Multimap.values_replace, if_pos rfl]

/-- The one header of the address that a client may set. -/
theorem values_realIp {addr : SocketAddr} (h : s.clientAddr = some addr) :
    (upstreamRequestFilter s upstream).values "x-real-ip" =
      if upstream.values "x-real-ip" = [] then [ofAscii addr.ip]
      else upstream.values "x-real-ip" := by
  have hkept : (upstream.replace "x-forwarded-for" (ofAscii addr.ip)).values "x-real-ip" =
      upstream.values "x-real-ip" := (Multimap.values_replace ..).trans (if_neg (by decide))
  rw [values_filter s upstream (by decide) (by decide), h]
  unfold addressHeaders
  dsimp only
  rw [hkept]
  split
  · rw [Multimap.values_replace, if_pos rfl]
  · exact hkept

/-- What the upstream is told: of two requests of one client that differ in the four headers only
the protocol is the same, and so are the address under X-Forwarded-For and, where the requests have
a Host that is a text, the host. X-Real-IP is the address unless the client sent another. -/
theorem forwarded_same {copy : HeaderMap → HeaderMap} (hcopy : Copies copy) {s s' : Session}
    (h : SameClient s s') {addr : SocketAddr} (haddr : s.clientAddr = some addr) :
    (∀ r ∈ [s, s'],
      (upstreamRequestFilter r (copy r.headers)).values "x-forwarded-for" = [ofAscii addr.ip] ∧
      (upstreamRequestFilter r (copy r.headers)).values "x-forwarded-proto" =
        [ofAscii (if s.tls then "https" else "http")] ∧
      (upstreamRequestFilter r (copy r.headers)).values "x-real-ip" =
        if r.headers.values "x-real-ip" = [] then [ofAscii addr.ip]
        else r.headers.values "x-real-ip") ∧
    (((s.headers.values "host").head?.bind toStr).isSome = true →
      (upstreamRequestFilter s' (copy s'.headers)).values "x-forwarded-host" =
        (upstreamRequestFilter s (copy s.headers)).values "x-forwarded-host") ∧
    ∀ a b c d port, addr = .v4 a b c d port → addr.ip = SocketAddr.ipv4 a b c d := by
  refine ⟨fun r hr => ?_, fun hsome => ?_, ?_⟩
  · have hsame : r.clientAddr = some addr ∧ r.tls = s.tls := by
      rcases List.mem_pair.1 hr with rfl | rfl
      · exact ⟨haddr, rfl⟩
      · exact ⟨h.clientAddr.trans haddr, h.tls⟩
    refine ⟨values_for r _ hsame.1, ?_, ?_⟩
    · rw [values_proto, hsame.2]
    · rw [values_realIp r _ hsame.1, hcopy r.headers "x-real-ip" (by decide)]
  · obtain ⟨host, hhost⟩ := Option.isSome_iff_exists.1 hsome
    have hhost' : (s'.headers.values "host").head?.bind toStr = some host := by
      rw [h.others "host" (by decide)]
      exact hhost
    rw [values_host s' _ hhost', values_host s _ hhost]
  · rintro a b c d port rfl
    exact ip_v4 a b c d port

/-- A request from 203.0.113.5 with some headers. -/
def request (headers : HeaderMap) : Session := ⟨some (.v4 203 0 113 5 40000), false, headers⟩

def host : String × Bytes := ("host", ofAscii "app.local")

theorem sameClient_request {headers headers' : HeaderMap}
    (h : ∀ name, name ∉ names → headers'.values name = headers.values name) :
    SameClient (request headers) (request headers') := ⟨rfl, rfl, h⟩

/-- A header of the four, added to a request. -/
theorem values_append_four {headers : HeaderMap} {name : String} (hname : name ∈ names)
    (value : Bytes) (n : String) (hn : n ∉ names) :
    Multimap.values (headers ++ [(name, value)]) n = headers.values n := by
  have hne : name ≠ n := fun h => hn (h ▸ hname)
  unfold Multimap.values
  rw [List.filter_append, List.map_append]
  simp [hne]

/-- The same request, with an address that the client sent under X-Forwarded-For. -/
def forgedRequest : Session := request ([host] ++ [("x-forwarded-for", ofAscii "10.0.0.1")])

/-- That address does not reach the upstream. -/
theorem forwarded_same_request :
    (upstreamRequestFilter (request [host]) (request [host]).headers).values "x-forwarded-for" =
        [ofAscii (SocketAddr.ipv4 203 0 113 5)] ∧
      (upstreamRequestFilter forgedRequest forgedRequest.headers).values "x-forwarded-for" =
        [ofAscii (SocketAddr.ipv4 203 0 113 5)] := by
  have hsame : SameClient (request [host]) forgedRequest :=
    sameClient_request (values_append_four (show "x-forwarded-for" ∈ names by decide) _)
  obtain ⟨hall, -, hip⟩ := forwarded_same (show Copies id from fun _ _ _ => rfl) hsame rfl
  rw [← hip 203 0 113 5 40000 rfl]
  exact ⟨(hall _ (List.mem_cons_self ..)).1, (hall _ (by simp)).1⟩

/-- The upstream is told any address that the client puts under X-Real-IP, and any host under
X-Forwarded-Host if the request has no Host. -/
theorem headers_spoofed :
    (SameClient (request [host]) (request ([host] ++ [("x-real-ip", ofAscii "10.0.0.1")])) ∧
      (upstreamRequestFilter (request [host]) [host]).values "x-real-ip" =
        [ofAscii "203.0.113.5"] ∧
      (upstreamRequestFilter (request ([host] ++ [("x-real-ip", ofAscii "10.0.0.1")]))
        ([host] ++ [("x-real-ip", ofAscii "10.0.0.1")])).values "x-real-ip" =
          [ofAscii "10.0.0.1"]) ∧
    SameClient (request []) (request ([] ++ [("x-forwarded-host", ofAscii "evil")])) ∧
      (upstreamRequestFilter (request []) []).values "x-forwarded-host" = [] ∧
      (upstreamRequestFilter (request ([] ++ [("x-forwarded-host", ofAscii "evil")]))
        ([] ++ [("x-forwarded-host", ofAscii "evil")])).values "x-forwarded-host" =
          [ofAscii "evil"] := by
  refine ⟨⟨sameClient_request (values_append_four (by decide) _), ?_, ?_⟩,
    sameClient_request (values_append_four (by decide) _), ?_, ?_⟩
  · decide +kernel
  · decide +kernel
  · decide +kernel
  · decide +kernel

end Forwarded
