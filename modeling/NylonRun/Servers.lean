import NylonRun.CacheTtl
import Mathlib.Data.Finset.Option

/-!
# How many servers are started

A server listens on all ports that are served when it is started (src/proxy.rs:589-613), and is
never stopped. `remove_routes` takes a port that has lost its last route out of the list of the
served ones (src/proxy.rs:639-647), though its listeners go on; `add_route_with_tls` looks only
at that list.
-/

namespace ProxyManager

/-- The ports of all the listeners. -/
def listeners (m : ProxyManager) : Finset UInt16 := (m.servers.flatMap (·.ports)).toFinset

/-- The manager, and as history the ports that a route was ever set up on. -/
structure Opened where
  manager : ProxyManager
  routed : Finset UInt16

namespace Opened

def new : Opened := ⟨.new, ∅⟩

/-- The port of the route that a call adds. -/
def portOf : Call → Option UInt16
  | .addRoute _ _ entry => some entry.port
  | .addRouteWithTls _ _ entry _ => some entry.port
  | .removeRoutes _ => none

def step (s : Opened) (c : Call) : Opened × Except String Unit :=
  (⟨(s.manager.call c).1, s.routed ∪ (portOf c).toFinset⟩, (s.manager.call c).2)

def machine : Machine Opened Call (Except String Unit) := ⟨step⟩

/-- There are no more servers than ports that were ever routed. -/
def Bounded (s : Opened) : Prop := s.manager.servers.length ≤ s.routed.card

/-- A route on a port that has a listener starts no server. -/
def StartsNoSecond (s : Opened) (c : Call) : Prop :=
  ∀ port ∈ portOf c, s.manager.Listened port →
    (machine.next s c).manager.servers = s.manager.servers

/-- The condition on a call: no route whose certificate loads is added on a port that has a
listener, but is marked dead since it has lost its last route. -/
def AvoidsDead (s : Opened) : Call → Prop
  | .addRoute _ _ entry => s.manager.Listened entry.port → entry.port ∉ s.manager.deadPorts
  | .addRouteWithTls os disk entry ssl => ¬CertFails os disk ssl →
      s.manager.Listened entry.port → entry.port ∉ s.manager.deadPorts
  | .removeRoutes _ => True

variable {m : ProxyManager} {s : Opened} {c : Call}

theorem mem_listeners {port : UInt16} : port ∈ m.listeners ↔ m.Listened port := by
  rw [listeners, List.mem_toFinset, List.mem_flatMap]
  rfl

open Configured in
/-- What a call does to the servers: it starts at most one, on the port that it routes. -/
theorem call_started (m : ProxyManager) (c : Call) :
    (¬StartsServer m c ∧ (m.call c).1.servers = m.servers) ∨
    (StartsServer m c ∧ ∃ port ∈ portOf c, port ∉ m.ports ∧ ∃ server : Server,
      server.ports = m.ports ++ [port] ∧ (m.call c).1.servers = m.servers ++ [server]) := by
  cases c with
  | addRoute os disk entry =>
    rcases listen_started (m.pushRoute entry) entry.port with
      ⟨hport, hsame⟩ | ⟨hport, server, hports, -, hnew⟩
    · exact .inl ⟨fun h => h hport, hsame⟩
    · exact .inr ⟨hport, entry.port, rfl, hport, server, hports, hnew⟩
  | removeRoutes name => exact .inl ⟨id, rfl⟩
  | addRouteWithTls os disk entry ssl =>
    change (_ ∧ (m.addRouteWithTls os disk entry ssl).1.servers = m.servers) ∨
      (_ ∧ ∃ port ∈ _, _ ∧ ∃ server : Server, _ ∧
        (m.addRouteWithTls os disk entry ssl).1.servers = m.servers ++ [server])
    rcases loadTls_certFails os disk (m.pushRoute entry) entry ssl with
      ⟨hfails, e, hload⟩ | ⟨hloads, m', hload, -, hports, -, hservers⟩
    · rw [addRouteWithTls_error hload]
      exact .inl ⟨fun h => h.1 hfails, rfl⟩
    · have hports : m'.ports = m.ports := hports
      have hservers : m'.servers = m.servers := hservers
      rw [addRouteWithTls_ok hload, ← hports, ← hservers]
      rcases listen_started m' entry.port with ⟨hport, hsame⟩ | ⟨hport, server, hall, -, hnew⟩
      · exact .inl ⟨fun h => h.2 (hports ▸ hport), hsame⟩
      · exact .inr ⟨⟨hloads, hports ▸ hport⟩, entry.port, rfl, hport, server, hall, hnew⟩

open Configured in
/-- A call that avoids the dead ports is one that starts a server only where none listens. -/
theorem avoidsDead_iff (h : s.manager.Accounted) : AvoidsDead s c ↔
    (StartsServer s.manager c → ∀ port ∈ portOf c, ¬s.manager.Listened port) := by
  have hopen : ∀ port : UInt16, (s.manager.Listened port → port ∉ s.manager.deadPorts) ↔
      (port ∉ s.manager.ports → ¬s.manager.Listened port) := by
    intro port
    constructor
    · intro hlive hport hlistened
      exact (h.cover hlistened).elim hport (hlive hlistened)
    · intro hnew hlistened hdead
      exact hnew (fun hport => h.disjoint port hport hdead) hlistened
  cases c with
  | addRoute os disk entry =>
    change (_ → _) ↔ (entry.port ∉ s.manager.ports → ∀ port ∈ some entry.port, _)
    rw [hopen]
    simp
  | addRouteWithTls os disk entry ssl =>
    change (_ → _ → _) ↔ (¬_ ∧ entry.port ∉ s.manager.ports → ∀ port ∈ some entry.port, _)
    rw [hopen]
    simp
  | removeRoutes name => exact iff_of_true trivial fun h => nomatch h

theorem startsNoSecond_iff (h : s.manager.Accounted) : StartsNoSecond s c ↔ AvoidsDead s c := by
  rw [avoidsDead_iff h]
  change (∀ port ∈ portOf c, _ → (s.manager.call c).1.servers = s.manager.servers) ↔ _
  rcases call_started s.manager c with ⟨hnot, hsame⟩ | ⟨hstarts, port, hport, -, server, -, hnew⟩
  · exact iff_of_true (fun _ _ _ => hsame) fun hstarts => absurd hstarts hnot
  · have hne : s.manager.servers ++ [server] ≠ s.manager.servers := by simp
    rw [hnew, forall_prop_of_true hstarts]
    refine forall₂_congr fun port _ => ?_
    exact ⟨fun h hlistened => hne (h hlistened), fun h hlistened => absurd hlistened h⟩

/-- Every server has a port that no server before it listens on, and that was routed. -/
structure Counted (s : Opened) : Prop where
  accounted : s.manager.Accounted
  distinct : s.manager.servers.length ≤ s.manager.listeners.card
  known : s.manager.listeners ⊆ s.routed

theorem Counted.bounded (h : s.Counted) : s.Bounded :=
  Nat.le_trans h.distinct (Finset.card_le_card h.known)

theorem counted_next (h : s.Counted) (hc : AvoidsDead s c) : (machine.next s c).Counted := by
  have hfree := (avoidsDead_iff h.accounted).1 hc
  have hrouted : s.routed ⊆ (machine.next s c).routed := Finset.subset_union_left
  rcases call_started s.manager c with ⟨-, hsame⟩ | ⟨hstarts, port, hport, -, server, hserver, hnew⟩
  · have hlisteners : (machine.next s c).manager.listeners = s.manager.listeners := by
      change (s.manager.call c).1.listeners = _
      rw [listeners, hsame, listeners]
    refine ⟨accounted_call h.accounted c, ?_, ?_⟩
    · rw [hlisteners]
      exact hsame ▸ h.distinct
    · rw [hlisteners]
      exact h.known.trans hrouted
  · have hlisteners : (machine.next s c).manager.listeners = insert port s.manager.listeners := by
      ext p
      change p ∈ (s.manager.call c).1.listeners ↔ _
      rw [Finset.mem_insert, mem_listeners, mem_listeners, Listened, hnew]
      constructor
      · rintro ⟨srv, hsrv, hp⟩
        rcases List.mem_append.1 hsrv with hold | hlast
        · exact .inr ⟨srv, hold, hp⟩
        · rw [List.mem_singleton.1 hlast, hserver] at hp
          rcases List.mem_append.1 hp with hp | hp
          · exact .inr (h.accounted.started p hp)
          · exact .inl (List.mem_singleton.1 hp)
      · rintro (rfl | ⟨srv, hsrv, hp⟩)
        · refine ⟨server, List.mem_append_right _ (List.mem_singleton_self _), ?_⟩
          rw [hserver]
          exact List.mem_append_right _ (List.mem_singleton_self _)
        · exact ⟨srv, List.mem_append_left _ hsrv, hp⟩
    refine ⟨accounted_call h.accounted c, ?_, ?_⟩
    · change (s.manager.call c).1.servers.length ≤ _
      have hnotin : port ∉ s.manager.listeners := by
        rw [mem_listeners]
        exact hfree hstarts port hport
      rw [hlisteners, Finset.card_insert_of_notMem hnotin, hnew, List.length_append]
      exact Nat.succ_le_succ h.distinct
    · rw [hlisteners]
      refine Finset.insert_subset ?_ (h.known.trans hrouted)
      exact Finset.mem_union_right _ (Option.mem_toFinset.2 hport)

theorem counted_new : new.Counted := by
  refine ⟨(accounted_throughout []).end, ?_, ?_⟩
  · exact Nat.le_refl 0
  · exact Finset.empty_subset _

/-- Through any run of calls on a new manager there are never more servers than ports that were
ever routed, and no route on a port with a listener starts another one, exactly if no route is
added on a dead port that has a listener. -/
theorem bounded_throughout_iff (calls : List Call) :
    (machine.Throughout Bounded new calls ∧ machine.Along StartsNoSecond new calls) ↔
      machine.Along AvoidsDead new calls := by
  have hiff : machine.Along StartsNoSecond new calls ↔ machine.Along AvoidsDead new calls :=
    Machine.along_congr_of_invariant (P := fun s => s.manager.Accounted) (H := fun _ _ => True)
      (fun _ _ h _ => startsNoSecond_iff h) (fun _ c h _ _ => accounted_call h c)
      counted_new.accounted Machine.along_true
  rw [hiff]
  refine ⟨And.right, fun havoids => ⟨?_, havoids⟩⟩
  have hcounted : machine.Throughout Counted new calls :=
    Machine.throughout_of_invariant (fun _ _ h hc => counted_next h hc) counted_new havoids
  exact hcounted.mono fun _ => Counted.bounded

/-- An app on port 80 that is run, deleted and run again. -/
def runDelRun : List Call :=
  [.addRoute (.serving 7 4000) .empty ⟨"web", 80, none, .proxy 9000⟩, .removeRoutes "web",
    .addRoute (.serving 7 4000) .empty ⟨"web", 80, none, .proxy 9000⟩]

/-- Its port has two servers then. -/
theorem second_server_started :
    (machine.run new runDelRun).manager.servers.map (·.ports) = [[80], [80]] ∧
      (machine.run new runDelRun).routed = {80} ∧
      ¬(machine.Throughout Bounded new runDelRun ∧ machine.Along StartsNoSecond new runDelRun) := by
  have hservers : (machine.run new runDelRun).manager.servers.map (·.ports) = [[80], [80]] := by
    decide +kernel
  have hrouted : (machine.run new runDelRun).routed = {80} := by decide +kernel
  refine ⟨hservers, hrouted, fun h => ?_⟩
  have hbounded := h.1.end
  rw [Bounded, hrouted, Finset.card_singleton] at hbounded
  have hlength := congrArg List.length hservers
  rw [List.length_map] at hlength
  simp only [List.length_cons, List.length_nil] at hlength
  omega

end Opened

end ProxyManager
