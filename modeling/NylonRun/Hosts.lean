import NylonRun.Manifest
import NylonRun.Traffic

/-!
# Spellings of a host

A route keeps the host as `parse_port_mapping` reads it (src/main.rs:94-107), `extract_host` cuts
the port off the `Host` header (src/proxy.rs:385-392), and `RouteTable::find` compares the two as
they are (src/proxy.rs:46-57): letters of either case are told apart, and a host that no route has
falls back to the route without one.
-/

namespace NyrunProxy

/-- Two texts that differ in nothing but the case of their letters. -/
def SameLetters (s s' : String) : Prop := s'.toList.map Char.toLower = s.toList.map Char.toLower

instance (s s' : String) : Decidable (SameLetters s s') := inferInstanceAs (Decidable (_ = _))

/-- A `Host` header: the host, and a port behind it if there is one. -/
def hostText (host : String) : Option String → String
  | none => host
  | some port => host ++ String.singleton ':' ++ port

def withHost (r : HttpRequest) (text : String) : HttpRequest :=
  { r with hostHeader := some (some text) }

/-- No route on the port has the host. -/
def Unrouted (table : RouteTable) (port : UInt16) (host : String) : Prop :=
  ∀ r ∈ table, r.port = port → r.host ≠ some host

theorem toLower_eq_colon {c : Char} (h : c.toLower = ':') : c = ':' := by
  unfold Char.toLower at h
  split at h
  · rename_i hupper
    have hfirst : 65 ≤ c.val.toNat := UInt32.le_iff_toNat_le.1 hupper.1
    have hlast : c.val.toNat ≤ 90 := UInt32.le_iff_toNat_le.1 hupper.2
    have hcode : (c.val.toNat + 32) % 2 ^ 32 = 58 := congrArg (fun d : Char => d.val.toNat) h
    omega
  · exact h

/-- Letters of another case make no colon. -/
theorem SameLetters.colon {s s' : String} (h : SameLetters s s') (hs : ':' ∉ s.toList) :
    ':' ∉ s'.toList := by
  intro hmem
  have hlower : Char.toLower ':' ∈ s.toList.map Char.toLower := by
    rw [← h]
    exact List.mem_map_of_mem hmem
  obtain ⟨c, hc, heq⟩ := List.mem_map.1 hlower
  rw [toLower_eq_colon heq] at hc
  exact hs hc

/-- The port of the header is cut off. -/
theorem extractHost_withHost (r : HttpRequest) {host : String} (h : ':' ∉ host.toList)
    (port : Option String) : extractHost (withHost r (hostText host port)) = some host := by
  have hhead : (Text.split ':' (hostText host port)).head? = some host := by
    cases port with
    | none => rw [hostText, Text.split_of_notMem h, List.head?_cons]
    | some port => rw [hostText, Text.head?_split_append, Text.split_of_notMem h, List.head?_cons]
  change some ((Text.split ':' (hostText host port)).head?.getD (hostText host port)) = _
  rw [hhead, Option.getD_some]

section

variable {table : RouteTable} {port : UInt16} {host host' : String}

/-- A host that no route has falls back to the routes without one. -/
theorem find_of_unrouted (h : Unrouted table port host) :
    table.find port (some host) = table.find port none := by
  have hnone : (table.filter (·.port = port)).find? (·.host = some host) = none := by
    rw [List.find?_eq_none]
    intro r hr
    obtain ⟨hr, hport⟩ := List.mem_filter.1 hr
    simpa using h r hr (by simpa using hport)
  unfold RouteTable.find
  dsimp only
  rw [Option.bind_some, hnone, Option.none_or, Option.bind_none, Option.none_or]

/-- An entry with a host is selected just for that host, written as the entry has it. -/
theorem find_host_iff : (∃ entry, table.find port (some host) = some entry ∧
    entry.host = some host') ↔ host' = host ∧ ¬Unrouted table port host := by
  constructor
  · rintro ⟨entry, hfind, hhost⟩
    obtain ⟨hmem, hport⟩ := RouteTable.find_mem hfind
    rcases Option.or_eq_some_iff.1 hfind with hown | ⟨-, hany⟩
    · have heq := List.find?_some hown
      rw [decide_eq_true_eq, hhost] at heq
      obtain rfl := Option.some.inj heq
      exact ⟨rfl, fun h => h entry hmem hport hhost⟩
    · have hnone := List.find?_some hany
      rw [decide_eq_true_eq, hhost] at hnone
      cases hnone
  · rintro ⟨rfl, hrouted⟩
    cases hfind : (table.filter (·.port = port)).find? (·.host = some host') with
    | none =>
      refine absurd (fun r hr hport hhost => ?_) hrouted
      rw [List.find?_eq_none] at hfind
      have hmem : r ∈ table.filter (·.port = port) := List.mem_filter.2 ⟨hr, by simpa using hport⟩
      exact hfind r hmem (by simpa using hhost)
    | some entry =>
      refine ⟨entry, ?_, by simpa using List.find?_some hfind⟩
      unfold RouteTable.find
      dsimp only
      rw [Option.bind_some, hfind, Option.some_or]

/-- Two hosts lead to one entry exactly if they are written alike or no route has either. -/
theorem find_eq_iff : table.find port (some host') = table.find port (some host) ↔
    host' = host ∨ (Unrouted table port host' ∧ Unrouted table port host) := by
  constructor
  · intro heq
    by_contra hnot
    rw [not_or, not_and_or] at hnot
    obtain ⟨hne, hrouted | hrouted⟩ := hnot
    · obtain ⟨entry, hfind, hhost⟩ := find_host_iff.2 ⟨rfl, hrouted⟩
      rw [heq] at hfind
      exact hne (find_host_iff.1 ⟨entry, hfind, hhost⟩).1
    · obtain ⟨entry, hfind, hhost⟩ := find_host_iff.2 ⟨rfl, hrouted⟩
      rw [← heq] at hfind
      exact hne (find_host_iff.1 ⟨entry, hfind, hhost⟩).1.symm
  · rintro (rfl | ⟨h', h⟩)
    · rfl
    · rw [find_of_unrouted h', find_of_unrouted h]

end

/-- The host of a mapping is the first part of its text as it stands. -/
theorem parsePortMapping_host {text host : String} {pm : PortMapping}
    (h : Manifest.parsePortMapping text = .ok pm) (hhost : pm.host = some host) :
    (Text.split ':' text).head? = some host := by
  unfold Manifest.parsePortMapping Server.parsePortMappingStr at h
  split at h
  · rename_i part hsplit
    cases hport : Server.parsePort part with
    | error e => rw [hport] at h; cases h
    | ok port => rw [hport] at h; cases h; cases hhost
  · rename_i part part' hsplit
    cases hport : Server.parsePort part with
    | error e => rw [hport] at h; cases h
    | ok port =>
      cases happ : Server.parsePort part' with
      | error e => rw [hport, happ] at h; cases h
      | ok app => rw [hport, happ] at h; cases h; cases hhost
  · rename_i first part part' hsplit
    cases hport : Server.parsePort part with
    | error e => rw [hport] at h; cases h
    | ok port =>
      cases happ : Server.parsePort part' with
      | error e => rw [hport, happ] at h; cases h
      | ok app =>
        rw [hport, happ] at h
        cases h
        rw [hsplit, ← hhost]
        rfl
  · cases h

/-- A port behind the host in the header changes nothing. Another spelling of the host leads to
another entry as soon as a route on that port has one of the two, and a route that a port mapping
was given for serves just the requests for its host as the mapping spells it. -/
theorem host_as_spelled (table : RouteTable) (r : HttpRequest) {host host' : String}
    (hcolon : ':' ∉ host.toList) (hsame : SameLetters host host') :
    (∀ port, table.find r.listenPort (extractHost (withHost r (hostText host port))) =
      table.find r.listenPort (extractHost (withHost r host))) ∧
    (∀ port, table.find r.listenPort (extractHost (withHost r (hostText host' port))) =
        table.find r.listenPort (extractHost (withHost r host)) ↔
      host' = host ∨ (Unrouted table r.listenPort host' ∧ Unrouted table r.listenPort host)) ∧
    ∀ text pm name backend, Manifest.parsePortMapping text = .ok pm → pm.host = some host' →
      pm.publicPort = r.listenPort → Server.routeOf name pm backend ∈ table →
      (Text.split ':' text).head? = some host' ∧
      ((∃ entry, table.find r.listenPort (extractHost (withHost r host)) = some entry ∧
        entry.host = some host') ↔ host' = host) := by
  have hplain : extractHost (withHost r host) = some host := extractHost_withHost r hcolon none
  refine ⟨fun port => ?_, fun port => ?_, ?_⟩
  · rw [extractHost_withHost r hcolon, hplain]
  · rw [extractHost_withHost r (hsame.colon hcolon), hplain]
    exact find_eq_iff
  · intro text pm name backend hparse hhost hport hmem
    rw [hplain, find_host_iff]
    refine ⟨parsePortMapping_host hparse hhost, And.left, ?_⟩
    rintro rfl
    exact ⟨rfl, fun h => h _ hmem hport hhost⟩

/-- A port shared by an app with a host and one without. -/
def sharedTable : RouteTable :=
  [Server.routeOf "web" ⟨some "example.com", 80, some 3000⟩ (.proxy 3000),
    Server.routeOf "other" ⟨none, 80, some 4000⟩ (.proxy 4000)]

def anyRequest : HttpRequest where
  listenPort := 80
  method := "GET"
  hostHeader := none
  path := "/"
  query := none

/-- The app is served with a port in the header, and not under another spelling. -/
theorem host_as_spelled_shared :
    sharedTable.find 80 (extractHost (withHost anyRequest "example.com:80")) =
        sharedTable.find 80 (extractHost (withHost anyRequest "example.com")) ∧
      sharedTable.find 80 (extractHost (withHost anyRequest "Example.com:80")) ≠
        sharedTable.find 80 (extractHost (withHost anyRequest "example.com")) := by
  obtain ⟨hport, hspelled, -⟩ := @host_as_spelled sharedTable anyRequest "example.com" "Example.com"
    (by decide) (by decide)
  refine ⟨hport (some "80"), fun heq => ?_⟩
  rcases (hspelled (some "80")).1 heq with hsame | ⟨-, hunrouted⟩
  · exact absurd hsame (by decide)
  · exact hunrouted _ List.mem_cons_self rfl rfl

/-- A request that spells the host of `web` with a capital goes to the other app. -/
theorem capital_goes_elsewhere :
    SameLetters "example.com" "Example.com" ∧
      (sharedTable.find 80 (extractHost (withHost anyRequest "example.com"))).map (·.name) =
        some "web" ∧
      (sharedTable.find 80 (extractHost (withHost anyRequest "Example.com"))).map (·.name) =
        some "other" := by
  refine ⟨?_, ?_, ?_⟩
  · decide
  · decide +kernel
  · decide +kernel

end NyrunProxy
