import NylonRun.Traffic

/-!
# Ports of the proxy

Which ports are routed is kept three times: in the routes, in the list of the ports that are
served, and in the set of the ports whose connections are refused. An operation keeps the
three in step unless it takes a port from an app without noting it, or notes a route whose
certificate it could not load.
-/

open FileTree

namespace ProxyManager

/-- Some route uses the port. -/
def Routed (m : ProxyManager) (port : UInt16) : Prop := ∃ r ∈ m.routes, r.port = port

/-- A started server listens on the port. -/
def Listened (m : ProxyManager) (port : UInt16) : Prop := ∃ s ∈ m.servers, port ∈ s.ports

/-- A server's view of the manager. -/
def proxy (m : ProxyManager) (challenges : Dict String String) : NyrunProxy where
  routes := m.routes
  challenges := challenges
  deadPorts := m.deadPorts

/-- The three records of the ports agree, and a request is refused just where no route is left. -/
structure PortsAgree (m : ProxyManager) : Prop where
  ports : ∀ port, port ∈ m.ports ↔ m.Routed port
  live : ∀ r ∈ m.routes, r.port ∉ m.deadPorts
  accepts : ∀ challenges cache r ctx, m.Routed r.listenPort →
    ((m.proxy challenges).requestFilter cache r ctx).2 ≠ .closed
  rejects : ∀ challenges cache r ctx, m.Listened r.listenPort → ¬m.Routed r.listenPort →
    ((m.proxy challenges).requestFilter cache r ctx).2 = .closed

/-- The same of the records alone. -/
structure PortsKept (m : ProxyManager) : Prop where
  ports : ∀ port, port ∈ m.ports ↔ m.Routed port
  live : ∀ port, m.Routed port → port ∉ m.deadPorts
  dead : ∀ port, m.Listened port → ¬m.Routed port → port ∈ m.deadPorts

/-- `request_filter` refuses a request exactly on the dead ports (src/proxy.rs:116-123). -/
theorem requestFilter_closed_iff (p : NyrunProxy) (cache : Dict String CachedResponse)
    (r : HttpRequest) (ctx : ProxyCtx) :
    (p.requestFilter cache r ctx).2 = .closed ↔ r.listenPort ∈ p.deadPorts := by
  unfold NyrunProxy.requestFilter
  by_cases hdead : r.listenPort ∈ p.deadPorts
  · rw [if_pos hdead]
    exact iff_of_true rfl hdead
  · rw [if_neg hdead]
    refine iff_of_false ?_ hdead
    split
    · intro h; cases h
    · split
      · intro h; cases h
      · unfold NyrunProxy.consultCache
        split
        · intro h; cases h
        · dsimp only
          split <;> (intro h; cases h)
      · intro h; cases h

/-- A request for a port, whatever else it asks for. -/
def requestOn (port : UInt16) : HttpRequest where
  listenPort := port
  method := "GET"
  hostHeader := none
  path := "/"
  query := none

theorem portsAgree_iff {m : ProxyManager} : m.PortsAgree ↔ m.PortsKept := by
  constructor
  · intro h
    refine ⟨h.ports, ?_, fun port hlistened hnot => ?_⟩
    · rintro port ⟨r, hr, rfl⟩
      exact h.live r hr
    · exact (requestFilter_closed_iff _ ∅ _ .new).1
        (h.rejects ∅ ∅ (requestOn port) .new hlistened hnot)
  · intro h
    refine ⟨h.ports, fun r hr => h.live _ ⟨r, hr, rfl⟩, fun challenges cache r ctx hrouted => ?_,
      fun challenges cache r ctx hlistened hnot => ?_⟩
    · rw [Ne, requestFilter_closed_iff]
      exact h.live _ hrouted
    · rw [requestFilter_closed_iff]
      exact h.dead _ hlistened hnot

/-! ## The operations -/

variable {m : ProxyManager}

/-- The port is used by an app other than the named one. -/
def RoutedByOther (m : ProxyManager) (name : String) (port : UInt16) : Prop :=
  ∃ r ∈ m.routes, r.name ≠ name ∧ r.port = port

theorem RoutedByOther.routed {name : String} {port : UInt16} (h : m.RoutedByOther name port) :
    m.Routed port := by
  obtain ⟨r, hr, -, hport⟩ := h
  exact ⟨r, hr, hport⟩

theorem mem_orphaned {name : String} {port : UInt16} :
    port ∈ orphaned m.routes name ↔ m.Routed port ∧ ¬m.RoutedByOther name port := by
  unfold orphaned RoutedByOther Routed
  rw [List.mem_filter, List.mem_map]
  constructor
  · rintro ⟨⟨r, hr, hport⟩, hnone⟩
    refine ⟨⟨r, (List.mem_filter.1 hr).1, hport⟩, ?_⟩
    rintro ⟨r', hr', hname, hport'⟩
    have hany : (m.routes.without name).any (·.port = port) = true :=
      List.any_eq_true.2 ⟨r', RouteTable.mem_without.2 ⟨hr', hname⟩, by simpa using hport'⟩
    rw [hany] at hnone
    cases hnone
  · rintro ⟨⟨r, hr, hport⟩, hnone⟩
    have hname : r.name = name := by
      by_contra hne
      exact hnone ⟨r, hr, hne, hport⟩
    refine ⟨⟨r, List.mem_filter.2 ⟨hr, by simpa using hname⟩, hport⟩, ?_⟩
    rw [Bool.not_eq_true', List.any_eq_false]
    intro r' hr' hport'
    obtain ⟨hr', hne⟩ := RouteTable.mem_without.1 hr'
    exact hnone ⟨r', hr', hne, by simpa using hport'⟩

theorem routed_removeRoutes (name : String) (port : UInt16) :
    (m.removeRoutes name).Routed port ↔ m.RoutedByOther name port := by
  simp [Routed, RoutedByOther, and_assoc]

theorem routed_replace (entry : RouteEntry) (port : UInt16) :
    (∃ r ∈ m.routes.replace entry, r.port = port) ↔
      m.RoutedByOther entry.name port ∨ port = entry.port := by
  simp only [RouteTable.mem_replace, RoutedByOther]
  constructor
  · rintro ⟨r, ⟨hr, hname⟩ | rfl, hport⟩
    · exact .inl ⟨r, hr, hname, hport⟩
    · exact .inr hport.symm
  · rintro (⟨r, hr, hname, hport⟩ | rfl)
    · exact ⟨r, .inl ⟨hr, hname⟩, hport⟩
    · exact ⟨entry, .inr rfl, rfl⟩

/-- Taking an app's routes out keeps the records in step (src/proxy.rs:626-650). -/
theorem portsKept_removeRoutes (name : String) (h : m.PortsKept) :
    (m.removeRoutes name).PortsKept := by
  have hports : ∀ port, port ∈ (m.removeRoutes name).ports ↔
      port ∈ m.ports ∧ port ∉ orphaned m.routes name := by
    intro port
    simp [removeRoutes]
  have hdead : ∀ port, port ∈ (m.removeRoutes name).deadPorts ↔
      port ∈ m.deadPorts ∨ port ∈ orphaned m.routes name := by
    intro port
    simp [removeRoutes]
  refine ⟨fun port => ?_, fun port hrouted => ?_, fun port hlistened hnot => ?_⟩
  · rw [hports, h.ports, mem_orphaned, routed_removeRoutes]
    constructor
    · rintro ⟨hrouted, horphan⟩
      by_contra hother
      exact horphan ⟨hrouted, hother⟩
    · intro hother
      exact ⟨hother.routed, fun horphan => horphan.2 hother⟩
  · rw [routed_removeRoutes] at hrouted
    rw [hdead, mem_orphaned, not_or]
    exact ⟨h.live port hrouted.routed, fun horphan => horphan.2 hrouted⟩
  · rw [routed_removeRoutes] at hnot
    rw [hdead, mem_orphaned]
    by_cases hrouted : m.Routed port
    · exact .inr ⟨hrouted, hnot⟩
    · exact .inl (h.dead port hlistened hrouted)

/-- The route of an app leaves no port behind: each port it used is that of the new route, or is
used by another app. -/
def LeavesNoPort (m : ProxyManager) (entry : RouteEntry) : Prop :=
  ∀ r ∈ m.routes, r.name = entry.name → r.port = entry.port ∨ m.RoutedByOther entry.name r.port

theorem leavesNoPort_iff {entry : RouteEntry} : m.LeavesNoPort entry ↔
    ∀ port, m.Routed port → m.RoutedByOther entry.name port ∨ port = entry.port := by
  constructor
  · rintro h port ⟨r, hr, rfl⟩
    by_cases hname : r.name = entry.name
    · exact (h r hr hname).symm
    · exact .inl ⟨r, hr, hname, rfl⟩
  · intro h r hr _
    exact (h r.port ⟨r, hr, rfl⟩).symm

theorem listened_listen (port p : UInt16) :
    (m.listen port).Listened p ↔
      m.Listened p ∨ (port ∉ m.ports ∧ (p ∈ m.ports ∨ p = port)) := by
  unfold listen Listened
  dsimp only
  by_cases hport : port ∈ m.ports
  · rw [if_pos hport]
    simp [hport]
  · rw [if_neg hport]
    simp [hport, or_and_right, exists_or]

/-- A route set up together with its listener keeps the records in step exactly if it leaves no
port of its app behind. -/
theorem portsKept_listen_iff (m' : ProxyManager) {entry : RouteEntry} (h : m.PortsKept)
    (hroutes : m'.routes = m.routes.replace entry) (hports : m'.ports = m.ports)
    (hdead : m'.deadPorts = m.deadPorts) (hservers : m'.servers = m.servers) :
    (m'.listen entry.port).PortsKept ↔ m.LeavesNoPort entry := by
  have hlistened : ∀ port, (m'.listen entry.port).Listened port ↔
      m.Listened port ∨ (entry.port ∉ m.ports ∧ (port ∈ m.ports ∨ port = entry.port)) := by
    intro port
    rw [listened_listen, Listened, hservers, hports, ← Listened]
  have hmem : ∀ port, port ∈ (m'.listen entry.port).ports ↔
      m.Routed port ∨ port = entry.port := by
    intro port
    rw [listen_ports, hports, ← h.ports]
    split
    · rename_i hin
      exact ⟨.inl, fun hp => hp.elim id fun heq => heq ▸ hin⟩
    · simp
  have hrouted : ∀ port, (m'.listen entry.port).Routed port ↔
      m.RoutedByOther entry.name port ∨ port = entry.port := by
    intro port
    rw [Routed, listen_routes, hroutes, routed_replace]
  rw [leavesNoPort_iff]
  constructor
  · intro h' port hport
    rw [← hrouted, ← h'.ports, hmem]
    exact .inl hport
  · intro hkeeps
    refine ⟨fun port => ?_, fun port hport => ?_, fun port hlisten hnot => ?_⟩
    · rw [hmem, hrouted]
      constructor
      · exact fun hp => hp.elim (hkeeps port) .inr
      · exact fun hp => hp.imp_left RoutedByOther.routed
    · rw [listen_deadPorts, hdead, Finset.mem_erase]
      rintro ⟨hne, hin⟩
      rw [hrouted] at hport
      exact hport.elim (fun hother => h.live port hother.routed hin) hne
    · rw [listen_deadPorts, hdead, Finset.mem_erase]
      rw [hrouted, not_or] at hnot
      have hunrouted : ¬m.Routed port := fun hp => (hkeeps port hp).elim hnot.1 hnot.2
      refine ⟨hnot.2, h.dead port ?_ hunrouted⟩
      rcases (hlistened port).1 hlisten with hold | ⟨-, hin | heq⟩
      · exact hold
      · exact absurd ((h.ports port).1 hin) hunrouted
      · exact absurd heq hnot.2

/-- A route left without a listener keeps the records in step exactly if it leaves no port of its
app behind and its own port is in use. -/
theorem portsKept_pushRoute_iff {entry : RouteEntry} (h : m.PortsKept) :
    (m.pushRoute entry).PortsKept ↔ m.LeavesNoPort entry ∧ m.Routed entry.port := by
  have hrouted : ∀ port, (m.pushRoute entry).Routed port ↔
      m.RoutedByOther entry.name port ∨ port = entry.port := by
    intro port
    rw [Routed, pushRoute_routes, routed_replace]
  rw [leavesNoPort_iff]
  constructor
  · intro h'
    refine ⟨fun port hport => ?_, ?_⟩
    · rw [← hrouted, ← h'.ports]
      exact (h.ports port).2 hport
    · rw [← h.ports]
      exact (h'.ports entry.port).2 ((hrouted entry.port).2 (.inr rfl))
  · rintro ⟨hkeeps, hown⟩
    have hsame : ∀ port, (m.pushRoute entry).Routed port ↔ m.Routed port := by
      intro port
      rw [hrouted]
      constructor
      · rintro (hother | rfl)
        · exact hother.routed
        · exact hown
      · exact hkeeps port
    refine ⟨fun port => ?_, fun port hport => ?_, fun port hlistened hnot => ?_⟩
    · rw [hsame]
      exact h.ports port
    · exact h.live port ((hsame port).1 hport)
    · exact h.dead port hlistened fun hport => hnot ((hsame port).2 hport)

/-- The certificate asked for with a route does not load. -/
def CertFails (os : Os) (t : FileTree) (ssl : Option SslConfig) : Prop :=
  ∃ c e, ssl = some c ∧ CertStore.loadCert os t c.certPath c.keyPath = .error e

/-- The route fails to load exactly with its certificate, and otherwise keeps the ports. -/
theorem loadTls_certFails (os : Os) (t : FileTree) (m : ProxyManager) (entry : RouteEntry)
    (ssl : Option SslConfig) :
    (CertFails os t ssl ∧ ∃ e, m.loadTls os t entry ssl = .error e) ∨
    (¬CertFails os t ssl ∧ ∃ m', m.loadTls os t entry ssl = .ok m' ∧ m'.routes = m.routes ∧
      m'.ports = m.ports ∧ m'.deadPorts = m.deadPorts ∧ m'.servers = m.servers) := by
  rcases loadTls_cases os t m entry ssl with
    ⟨rfl, hm⟩ | ⟨c, e, rfl, hcert, hm⟩ | ⟨c, cert, rfl, hcert, hm⟩
  · refine .inr ⟨?_, m, hm, rfl, rfl, rfl, rfl⟩
    rintro ⟨c, e, hsome, -⟩
    cases hsome
  · exact .inl ⟨⟨c, e, rfl, hcert⟩, e, hm⟩
  · refine .inr ⟨?_, _, hm, rfl, rfl, rfl, rfl⟩
    rintro ⟨c', e, hsome, hfail⟩
    cases hsome
    rw [hcert] at hfail
    cases hfail

/-! ## Runs of operations -/

/-- A call of one of the operations. -/
inductive Call where
  | addRoute (os : Os) (disk : FileTree) (entry : RouteEntry)
  | addRouteWithTls (os : Os) (disk : FileTree) (entry : RouteEntry) (ssl : Option SslConfig)
  | removeRoutes (name : String)

def call (m : ProxyManager) : Call → ProxyManager × Except String Unit
  | .addRoute os disk entry => m.addRoute os disk entry
  | .addRouteWithTls os disk entry ssl => m.addRouteWithTls os disk entry ssl
  | .removeRoutes name => (m.removeRoutes name, .ok ())

def machine : Machine ProxyManager Call (Except String Unit) := ⟨call⟩

/-- The condition on a call: a new route leaves no port of its app behind, and where its
certificate does not load, its port is in use already. -/
def KeepsPorts (m : ProxyManager) : Call → Prop
  | .addRoute _ _ entry => m.LeavesNoPort entry
  | .addRouteWithTls os disk entry ssl =>
    m.LeavesNoPort entry ∧ (CertFails os disk ssl → m.Routed entry.port)
  | .removeRoutes _ => True

theorem portsKept_call_iff (h : m.PortsKept) (c : Call) :
    (machine.next m c).PortsKept ↔ KeepsPorts m c := by
  cases c with
  | addRoute os disk entry =>
    exact portsKept_listen_iff (m.pushRoute entry) h rfl rfl rfl rfl
  | removeRoutes name => exact iff_of_true (portsKept_removeRoutes name h) trivial
  | addRouteWithTls os disk entry ssl =>
    change (m.addRouteWithTls os disk entry ssl).1.PortsKept ↔ _
    rcases loadTls_certFails os disk (m.pushRoute entry) entry ssl with
      ⟨hfails, e, hload⟩ | ⟨hloads, m', hload, hroutes, hports, hdead, hservers⟩
    · rw [addRouteWithTls_error hload, portsKept_pushRoute_iff h]
      exact and_congr_right fun _ => ⟨fun hport _ => hport, fun hport => hport hfails⟩
    · rw [addRouteWithTls_ok hload]
      rw [portsKept_listen_iff m' h hroutes hports hdead hservers]
      exact ⟨fun hleaves => ⟨hleaves, fun hfails => absurd hfails hloads⟩, And.left⟩

theorem portsKept_new : new.PortsKept := by
  refine ⟨fun port => ?_, ?_, ?_⟩
  · simp [new, Routed]
  · rintro port ⟨r, hr, -⟩
    cases hr
  · rintro port ⟨s, hs, -⟩
    cases hs

/-- Through any run of calls on a new manager the records of the ports agree exactly if every
call keeps them: no route leaves a port of its app behind, and no route whose certificate fails
is on a port of its own. -/
theorem portsAgree_throughout_iff (calls : List Call) :
    machine.Throughout PortsAgree new calls ↔ machine.Along KeepsPorts new calls := by
  have hiff : machine.Throughout PortsKept new calls ↔ machine.Along KeepsPorts new calls :=
    Machine.throughout_iff_along (I := fun _ => True) (fun _ _ _ _ _ _ => trivial)
      (fun _ c _ _ hkept => portsKept_call_iff hkept c) trivial portsKept_new Machine.along_true
  rw [← hiff]
  constructor
  · intro h
    exact h.mono fun _ => portsAgree_iff.1
  · intro h
    exact h.mono fun _ => portsAgree_iff.2

/-- An app moved from port 80 to port 81 by a second route. -/
def moveCalls : List Call :=
  [.addRoute (.serving 7 4000) .empty ⟨"web", 80, none, .proxy 9000⟩,
    .addRoute (.serving 7 4000) .empty ⟨"web", 81, none, .proxy 9000⟩]

/-- Port 80 has no route any more, but is still among the ports, and is not refused. -/
theorem moved_port_stays :
    80 ∈ (machine.run new moveCalls).ports ∧ ¬(machine.run new moveCalls).Routed 80 ∧
      (machine.run new moveCalls).Listened 80 ∧ 80 ∉ (machine.run new moveCalls).deadPorts ∧
      ¬machine.Throughout PortsAgree new moveCalls := by
  have hports : 80 ∈ (machine.run new moveCalls).ports := by decide +kernel
  have hrouted : ¬(machine.run new moveCalls).Routed 80 := by
    unfold Routed
    decide +kernel
  refine ⟨hports, hrouted, ?_, by decide +kernel, fun h => ?_⟩
  · unfold Listened
    decide +kernel
  · exact hrouted ((h.end.ports 80).1 hports)

/-! ## Listener accounting -/

/-- No listening port is forgotten: the ports served have a listener and are told apart from the
dead ones, and every port that was given a listener is one or the other. -/
structure Accounted (m : ProxyManager) : Prop where
  nodup : m.ports.Nodup
  disjoint : ∀ port ∈ m.ports, port ∉ m.deadPorts
  started : ∀ port ∈ m.ports, m.Listened port
  kept : ∀ port, m.Listened port → Xor (port ∈ m.ports) (port ∈ m.deadPorts)

theorem accounted_of_cover (hnodup : m.ports.Nodup) (hdisjoint : ∀ port ∈ m.ports, port ∉ m.deadPorts)
    (hstarted : ∀ port ∈ m.ports, m.Listened port)
    (hcover : ∀ port, m.Listened port → port ∈ m.ports ∨ port ∈ m.deadPorts) : m.Accounted := by
  refine ⟨hnodup, hdisjoint, hstarted, fun port hlistened => ?_⟩
  rcases hcover port hlistened with hserved | hdead
  · exact .inl ⟨hserved, hdisjoint port hserved⟩
  · exact .inr ⟨hdead, fun hserved => hdisjoint port hserved hdead⟩

theorem Accounted.cover (h : m.Accounted) {port : UInt16} (hlistened : m.Listened port) :
    port ∈ m.ports ∨ port ∈ m.deadPorts := by
  rcases h.kept port hlistened with ⟨hserved, -⟩ | ⟨hdead, -⟩
  · exact .inl hserved
  · exact .inr hdead

/-- A port opened, on a manager whose ports and servers are those of an accounted one. -/
theorem accounted_listen {m' : ProxyManager} (h : m.Accounted) (hports : m'.ports = m.ports)
    (hdead : m'.deadPorts = m.deadPorts) (hservers : m'.servers = m.servers) (port : UInt16) :
    (m'.listen port).Accounted := by
  have hserved : ∀ p, p ∈ (m'.listen port).ports ↔ p ∈ m.ports ∨ p = port := by
    intro p
    rw [listen_ports, hports]
    by_cases hin : port ∈ m.ports
    · rw [if_pos hin]
      exact ⟨.inl, fun hp => hp.elim id fun heq => heq ▸ hin⟩
    · rw [if_neg hin, List.mem_append, List.mem_singleton]
  have hgone : ∀ p, p ∈ (m'.listen port).deadPorts ↔ p ≠ port ∧ p ∈ m.deadPorts := by
    intro p
    rw [listen_deadPorts, hdead, Finset.mem_erase]
  have hlistened : ∀ p, (m'.listen port).Listened p ↔
      m.Listened p ∨ (port ∉ m.ports ∧ (p ∈ m.ports ∨ p = port)) := by
    intro p
    rw [listened_listen, Listened, hservers, hports, ← Listened]
  refine accounted_of_cover ?_ (fun p hp => ?_) (fun p hp => ?_) fun p hp => ?_
  · rw [listen_ports, hports]
    by_cases hin : port ∈ m.ports
    · rw [if_pos hin]
      exact h.nodup
    · rw [if_neg hin, List.nodup_append_comm]
      exact List.nodup_cons.2 ⟨hin, h.nodup⟩
  · rw [hgone]
    rintro ⟨hne, hp'⟩
    exact h.disjoint p (((hserved p).1 hp).resolve_right hne) hp'
  · rw [hlistened]
    by_cases hin : port ∈ m.ports
    · rcases (hserved p).1 hp with hp | rfl
      · exact .inl (h.started p hp)
      · exact .inl (h.started p hin)
    · exact .inr ⟨hin, (hserved p).1 hp⟩
  · rw [hserved, hgone]
    by_cases hne : p = port
    · exact .inl (.inr hne)
    · rcases (hlistened p).1 hp with hold | ⟨-, hin | heq⟩
      · rcases h.cover hold with hin | hdead
        · exact .inl (.inl hin)
        · exact .inr ⟨hne, hdead⟩
      · exact .inl (.inl hin)
      · exact absurd heq hne

theorem accounted_removeRoutes (h : m.Accounted) (name : String) :
    (m.removeRoutes name).Accounted := by
  have hserved : ∀ port, port ∈ (m.removeRoutes name).ports ↔
      port ∈ m.ports ∧ port ∉ orphaned m.routes name := by
    intro port
    simp [removeRoutes]
  have hgone : ∀ port, port ∈ (m.removeRoutes name).deadPorts ↔
      port ∈ m.deadPorts ∨ port ∈ orphaned m.routes name := by
    intro port
    simp [removeRoutes]
  refine accounted_of_cover (h.nodup.filter _) (fun port hp => ?_) (fun port hp => ?_)
    fun port hp => ?_
  · obtain ⟨hin, hused⟩ := (hserved port).1 hp
    rw [hgone, not_or]
    exact ⟨h.disjoint port hin, hused⟩
  · exact h.started port ((hserved port).1 hp).1
  · rw [hserved, hgone]
    rcases h.cover hp with hin | hdead
    · by_cases hused : port ∈ orphaned m.routes name
      · exact .inr (.inr hused)
      · exact .inl ⟨hin, hused⟩
    · exact .inr (.inl hdead)

theorem accounted_call (h : m.Accounted) (c : Call) : (machine.next m c).Accounted := by
  cases c with
  | addRoute os disk entry =>
    exact @accounted_listen m (m.pushRoute entry) h rfl rfl rfl entry.port
  | removeRoutes name => exact accounted_removeRoutes h name
  | addRouteWithTls os disk entry ssl =>
    change (m.addRouteWithTls os disk entry ssl).1.Accounted
    rcases loadTls_certFails os disk (m.pushRoute entry) entry ssl with
      ⟨-, e, hload⟩ | ⟨-, m', hload, -, hports, hdead, hservers⟩
    · -- the certificate fails before a port is touched
      rw [addRouteWithTls_error hload]
      exact ⟨h.nodup, h.disjoint, h.started, h.kept⟩
    · rw [addRouteWithTls_ok hload]
      exact accounted_listen h hports hdead hservers entry.port

/-- Through any run of calls on a new manager the listeners are accounted for. -/
theorem accounted_throughout (calls : List Call) : machine.Throughout Accounted new calls := by
  refine Machine.throughout_of_invariant (Q := fun _ _ => True)
    (fun m c h _ => accounted_call h c) ?_ Machine.along_true
  refine accounted_of_cover List.nodup_nil (fun port hp => ?_) (fun port hp => ?_) fun port hp => ?_
  · cases hp
  · cases hp
  · obtain ⟨s, hs, -⟩ := hp
    cases hs

end ProxyManager
