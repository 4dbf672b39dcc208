import NylonRun.Agreement
import NylonRun.Ports

/-!
# The kinds of the listeners

A server is started with the ports and the TLS ports of that moment, and is never stopped. What
it listens on is TLS or plain for good, while the apps on a port come and go. The listeners of
a port stay in step with its apps as long as no run needs the other kind on a port that is
already listened on, and no deletion takes the last TLS app from a port that stays in use.
-/

open UnixPath FileTree Effect

namespace ProxyManager

theorem listen_servers (m : ProxyManager) (port : UInt16) :
    (m.listen port).servers =
      if port ∈ m.ports then m.servers
      else m.servers ++ [⟨m.ports ++ [port], m.tlsPorts, m.cache⟩] := by
  unfold listen
  dsimp only
  split <;> rfl

/-- Every port has a listener, and every listener is of the kind its port is noted with. -/
structure Tracked (m : ProxyManager) : Prop where
  bound : ∀ port ∈ m.ports, m.Listened port
  kinds : ∀ s ∈ m.servers, ∀ port ∈ s.ports, (port ∈ s.tlsPorts ↔ port ∈ m.tlsPorts)

theorem tracked_removeRoutes {m : ProxyManager} (name : String) (h : m.Tracked) :
    (m.removeRoutes name).Tracked :=
  ⟨fun port hport => h.bound port (List.mem_filter.1 hport).1, h.kinds⟩

/-- A port that is listened on stays of one kind as it gets another app, and a new server is
started with the kinds that are noted. -/
theorem tracked_listen {m m' : ProxyManager} {port : UInt16} (h : m.Tracked)
    (hports : m'.ports = m.ports) (hservers : m'.servers = m.servers)
    (htls : ∀ p, m.Listened p → (p ∈ m.tlsPorts ↔ p ∈ m'.tlsPorts)) :
    (m'.listen port).Tracked := by
  refine ⟨fun p hp => ?_, fun s hs p hp => ?_⟩
  · rw [listened_listen, Listened, hservers, hports, ← Listened]
    rw [listen_ports, hports] at hp
    split at hp
    · exact .inl (h.bound p hp)
    · rename_i hnew
      exact .inr ⟨hnew, by simpa using hp⟩
  · rw [listen_tlsPorts]
    rw [listen_servers, hservers, hports] at hs
    have hold : s ∈ m.servers → (p ∈ s.tlsPorts ↔ p ∈ m'.tlsPorts) := fun hs => by
      rw [h.kinds s hs p hp]
      exact htls p ⟨s, hs, hp⟩
    split at hs
    · exact hold hs
    · rcases List.mem_append.1 hs with hs | hs
      · exact hold hs
      · cases List.mem_singleton.1 hs
        exact Iff.rfl

end ProxyManager

namespace Daemon

/-- The app was set up with a certificate, or with the promise of one. -/
def SetUpTls (m : ProcessManager) (name : String) : Prop :=
  ∃ p, m.lookup name = some p ∧ (p.config.ssl.isSome = true ∨ p.config.acme.isSome = true)

/-- Some live route on the port was set up with `ssl` or `acme`. -/
def TlsRouted (st : DaemonState) (port : UInt16) : Prop :=
  ∃ r ∈ st.proxyMgr.routes, r.port = port ∧ SetUpTls st.processMgr r.name

/-- Every listener on a port with a live route is of the kind that the routes of the port ask
for. -/
def ListenersAgree (st : DaemonState) : Prop :=
  ∀ port, st.proxyMgr.Routed port → ∀ s ∈ st.proxyMgr.servers, port ∈ s.ports →
    (port ∈ s.tlsPorts ↔ TlsRouted st port)

/-- Where the listeners are tracked, the kind of a port is the one that is noted. -/
theorem listenersAgree_iff {st : DaemonState} (hports : st.proxyMgr.PortsKept)
    (htracked : st.proxyMgr.Tracked) :
    ListenersAgree st ↔
      ∀ port, st.proxyMgr.Routed port → (port ∈ st.proxyMgr.tlsPorts ↔ TlsRouted st port) := by
  constructor
  · intro h port hrouted
    obtain ⟨s, hs, hport⟩ := htracked.bound port ((hports.ports port).2 hrouted)
    rw [← htracked.kinds s hs port hport]
    exact h port hrouted s hs hport
  · intro h port hrouted s hs hport
    rw [htracked.kinds s hs port hport]
    exact h port hrouted

/-! ## A run -/

/-- The port of a run fits the kind that the app needs: a certificate goes to a port without
listeners or to a TLS port, a certificate yet to be issued to a TLS port, and an app without
either to a port that is in use or plain. -/
def FitsPort (st : DaemonState) (config : ProcessConfig) (port : UInt16) : Prop :=
  if config.ssl.isSome then st.proxyMgr.Listened port → port ∈ st.proxyMgr.tlsPorts
  else if config.acme.isSome then port ∈ st.proxyMgr.tlsPorts
  else port ∈ st.proxyMgr.tlsPorts → st.proxyMgr.Routed port

/-- What is invariant as long as the listeners agree. -/
structure ListenersKept (st : DaemonState) : Prop where
  agrees : Agrees st.processMgr st.proxyMgr.routes
  ports : st.proxyMgr.PortsKept
  tracked : st.proxyMgr.Tracked

section

variable {os : Os} {st : DaemonState} {config c : ProcessConfig} {pm : PortMapping}
  {p : ManagedProcess} {disk : FileTree} {m : ProxyManager}

theorem routed_ran (hran : Server.RanOk os st config c pm p disk m)
    (ha : Agrees st.processMgr st.proxyMgr.routes) (port : UInt16) :
    (Server.handleRun os st config).1.proxyMgr.Routed port ↔
      st.proxyMgr.Routed port ∨ port = pm.publicPort := by
  rw [ProxyManager.Routed, hran.routes, ProxyManager.routed_replace, Server.runRoute_name,
    Server.runRoute_port]
  refine or_congr_left ⟨ProxyManager.RoutedByOther.routed, ?_⟩
  rintro ⟨r, hr, hport⟩
  exact ⟨r, hr, ha.name_ne hran.free r hr, hport⟩

theorem tlsRouted_ran (hran : Server.RanOk os st config c pm p disk m)
    (ha : Agrees st.processMgr st.proxyMgr.routes) (port : UInt16) :
    TlsRouted (Server.handleRun os st config).1 port ↔
      TlsRouted st port ∨
        (port = pm.publicPort ∧ (config.ssl.isSome = true ∨ config.acme.isSome = true)) := by
  obtain ⟨hssl, hacme, -⟩ := Server.prepareRun_asked hran.prepared
  have hsetup : ∀ name, SetUpTls (st.processMgr.insert c.name p) name ↔
      if name = c.name then config.ssl.isSome = true ∨ config.acme.isSome = true
      else SetUpTls st.processMgr name := by
    intro name
    unfold SetUpTls
    rw [ProcessManager.lookup_insert]
    split
    · rw [← hssl, ← hacme, ← hran.same.ssl, ← hran.same.acme]
      simp
    · rfl
  unfold TlsRouted
  rw [hran.routes, hran.processMgr]
  constructor
  · rintro ⟨r, hr, hport, htls⟩
    rw [hsetup] at htls
    rcases RouteTable.mem_replace.1 hr with ⟨hr, hname⟩ | rfl
    · rw [Server.runRoute_name] at hname
      rw [if_neg hname] at htls
      exact .inl ⟨r, hr, hport, htls⟩
    · rw [Server.runRoute_name, if_pos rfl] at htls
      rw [Server.runRoute_port] at hport
      exact .inr ⟨hport.symm, htls⟩
  · rintro (⟨r, hr, hport, htls⟩ | ⟨rfl, htls⟩)
    · have hname := ha.name_ne hran.free r hr
      refine ⟨r, RouteTable.mem_replace.2 (.inl ⟨hr, ?_⟩), hport, ?_⟩
      · rw [Server.runRoute_name]
        exact hname
      · rw [hsetup, if_neg hname]
        exact htls
    · refine ⟨Server.runRoute st c pm, RouteTable.mem_replace.2 (.inr rfl), by simp, ?_⟩
      rw [hsetup, Server.runRoute_name, if_pos rfl]
      exact htls

theorem tlsPorts_ran (hran : Server.RanOk os st config c pm p disk m) :
    (Server.handleRun os st config).1.proxyMgr.tlsPorts =
      if config.ssl.isSome then insert pm.publicPort st.proxyMgr.tlsPorts
      else st.proxyMgr.tlsPorts := by
  obtain ⟨-, -, -, htls⟩ := ProxyManager.loadTls_ok hran.loaded
  rw [hran.proxyMgr, ProxyManager.listen_tlsPorts, htls, (Server.prepareRun_asked hran.prepared).1,
    Server.runRoute_port]
  rfl

theorem servers_ran (hran : Server.RanOk os st config c pm p disk m) :
    m.servers = st.proxyMgr.servers ∧ m.ports = st.proxyMgr.ports ∧
      m.deadPorts = st.proxyMgr.deadPorts := by
  rcases ProxyManager.loadTls_eq_ok hran.loaded with ⟨-, rfl⟩ | ⟨_, cert, -, -, rfl⟩
  · exact ⟨rfl, rfl, rfl⟩
  · exact ⟨rfl, rfl, rfl⟩

theorem portsKept_ran (hran : Server.RanOk os st config c pm p disk m)
    (ha : Agrees st.processMgr st.proxyMgr.routes) (hports : st.proxyMgr.PortsKept) :
    (Server.handleRun os st config).1.proxyMgr.PortsKept := by
  obtain ⟨hservers, hsame, hdead⟩ := servers_ran hran
  rw [hran.proxyMgr, ← Server.runRoute_port st c pm]
  refine (ProxyManager.portsKept_listen_iff _ hports ?_ hsame hdead hservers).2 fun r hr hname => ?_
  · rw [(ProxyManager.loadTls_ok hran.loaded).1, ProxyManager.pushRoute_routes]
  · rw [Server.runRoute_name] at hname
    exact absurd hname (ha.name_ne hran.free r hr)

theorem tracked_ran (hran : Server.RanOk os st config c pm p disk m)
    (htracked : st.proxyMgr.Tracked)
    (hfits : config.ssl.isSome = true → st.proxyMgr.Listened pm.publicPort →
      pm.publicPort ∈ st.proxyMgr.tlsPorts) :
    (Server.handleRun os st config).1.proxyMgr.Tracked := by
  obtain ⟨hservers, hsame, -⟩ := servers_ran hran
  have htls : m.tlsPorts = (Server.handleRun os st config).1.proxyMgr.tlsPorts := by
    rw [hran.proxyMgr, ProxyManager.listen_tlsPorts]
  rw [hran.proxyMgr]
  refine ProxyManager.tracked_listen htracked hsame hservers fun port hlistened => ?_
  rw [htls, tlsPorts_ran hran]
  by_cases hssl : config.ssl.isSome = true
  · rw [if_pos hssl, Finset.mem_insert]
    constructor
    · exact .inr
    · rintro (rfl | hport)
      · exact hfits hssl hlistened
      · exact hport
  · rw [if_neg hssl]

/-- After a run the listeners agree exactly if its port fits what the app needs. -/
theorem listenersAgree_ran_iff (hran : Server.RanOk os st config c pm p disk m)
    (hkept : ListenersKept st) (hold : ListenersAgree st) :
    ListenersAgree (Server.handleRun os st config).1 ↔ FitsPort st config pm.publicPort := by
  have hports := portsKept_ran hran hkept.agrees hkept.ports
  have hrouted := routed_ran hran hkept.agrees
  have htls := tlsRouted_ran hran hkept.agrees
  have hnoted := (listenersAgree_iff hkept.ports hkept.tracked).1 hold
  have hown : (Server.handleRun os st config).1.proxyMgr.Routed pm.publicPort :=
    (hrouted _).2 (.inr rfl)
  unfold FitsPort
  by_cases hssl : config.ssl.isSome = true
  · rw [if_pos hssl]
    constructor
    · -- an old listener keeps its kind, so the new app finds it TLS only if it was
      rintro h ⟨s, hs, hport⟩
      rw [← hkept.tracked.kinds s hs _ hport]
      refine (h _ hown s ?_ hport).2 ((htls _).2 (.inr ⟨rfl, .inl hssl⟩))
      obtain ⟨hservers, -⟩ := servers_ran hran
      rw [hran.proxyMgr, ProxyManager.listen_servers, hservers]
      split
      · exact hs
      · exact List.mem_append_left _ hs
    · intro hfits
      rw [listenersAgree_iff hports (tracked_ran hran hkept.tracked fun _ => hfits)]
      intro port hport
      rw [tlsPorts_ran hran, if_pos hssl, Finset.mem_insert, htls]
      by_cases heq : port = pm.publicPort
      · exact iff_of_true (.inl heq) (.inr ⟨heq, .inl hssl⟩)
      · have hport := ((hrouted port).1 hport).resolve_right heq
        simpa [heq] using hnoted port hport
  · rw [if_neg hssl, listenersAgree_iff hports
      (tracked_ran hran hkept.tracked fun h => absurd h hssl), tlsPorts_ran hran, if_neg hssl]
    have hothers : ∀ port, port ≠ pm.publicPort → st.proxyMgr.Routed port →
        (port ∈ st.proxyMgr.tlsPorts ↔ TlsRouted (Server.handleRun os st config).1 port) := by
      intro port hne hport
      rw [hnoted port hport, htls]
      simp [hne]
    by_cases hacme : config.acme.isSome = true
    · rw [if_pos hacme]
      constructor
      · intro h
        exact (h _ hown).2 ((htls _).2 (.inr ⟨rfl, .inr hacme⟩))
      · intro hfits port hport
        by_cases heq : port = pm.publicPort
        · rw [heq]
          exact iff_of_true hfits ((htls _).2 (.inr ⟨rfl, .inr hacme⟩))
        · exact hothers port heq (((hrouted port).1 hport).resolve_right heq)
    · rw [if_neg hacme]
      have hplain : TlsRouted (Server.handleRun os st config).1 pm.publicPort ↔
          TlsRouted st pm.publicPort := by
        rw [htls]
        simp [hssl, hacme]
      constructor
      · intro h hport
        obtain ⟨r, hr, hrport, -⟩ := hplain.1 ((h _ hown).1 hport)
        exact ⟨r, hr, hrport⟩
      · intro hfits port hport
        by_cases heq : port = pm.publicPort
        · rw [heq, hplain]
          by_cases hbefore : st.proxyMgr.Routed pm.publicPort
          · exact hnoted _ hbefore
          · refine iff_of_false (fun h => hbefore (hfits h)) ?_
            rintro ⟨r, hr, hrport, -⟩
            exact hbefore ⟨r, hr, hrport⟩
        · exact hothers port heq (((hrouted port).1 hport).resolve_right heq)

end

/-! ## A deletion -/

/-- A live route on the port, of an app other than the named one, was set up with `ssl` or
`acme`. -/
def TlsRoutedByOther (st : DaemonState) (name : String) (port : UInt16) : Prop :=
  ∃ r ∈ st.proxyMgr.routes, r.name ≠ name ∧ r.port = port ∧ SetUpTls st.processMgr r.name

/-- A port that stays in use without the app keeps a TLS app if it had one. -/
def KeepsKind (st : DaemonState) (name : String) : Prop :=
  ∀ port, st.proxyMgr.RoutedByOther name port → TlsRouted st port → TlsRoutedByOther st name port

theorem tlsRouted_del (st : DaemonState) (name : String) (port : UInt16) :
    TlsRouted (Server.handleDel st name).1 port ↔ TlsRoutedByOther st name port := by
  obtain ⟨htable, hproxy⟩ := Server.handleDel_tables st name
  have hsetup : ∀ k, k ≠ name → (SetUpTls (st.processMgr.erase name) k ↔
      SetUpTls st.processMgr k) := by
    intro k hk
    unfold SetUpTls
    rw [ProcessManager.lookup_erase, if_neg hk]
  unfold TlsRouted TlsRoutedByOther
  rw [htable, hproxy, ProxyManager.removeRoutes_routes]
  constructor
  · rintro ⟨r, hr, hport, htls⟩
    obtain ⟨hr, hname⟩ := RouteTable.mem_without.1 hr
    exact ⟨r, hr, hname, hport, (hsetup _ hname).1 htls⟩
  · rintro ⟨r, hr, hname, hport, htls⟩
    exact ⟨r, RouteTable.mem_without.2 ⟨hr, hname⟩, hport, (hsetup _ hname).2 htls⟩

theorem listenersKept_del {st : DaemonState} (name : String) (h : ListenersKept st) :
    ListenersKept (Server.handleDel st name).1 := by
  refine ⟨agrees_del name h.agrees, ?_, ?_⟩ <;> rw [(Server.handleDel_tables st name).2]
  · exact ProxyManager.portsKept_removeRoutes name h.ports
  · exact ProxyManager.tracked_removeRoutes name h.tracked

/-- After a deletion the listeners agree exactly if the ports that stay in use keep their kind. -/
theorem listenersAgree_del_iff {st : DaemonState} (name : String) (hkept : ListenersKept st)
    (hold : ListenersAgree st) :
    ListenersAgree (Server.handleDel st name).1 ↔ KeepsKind st name := by
  have hkept' := listenersKept_del name hkept
  have hnoted := (listenersAgree_iff hkept.ports hkept.tracked).1 hold
  have hrouted : ∀ port, (Server.handleDel st name).1.proxyMgr.Routed port ↔
      st.proxyMgr.RoutedByOther name port := by
    intro port
    rw [(Server.handleDel_tables st name).2, ProxyManager.routed_removeRoutes]
  have htls : (Server.handleDel st name).1.proxyMgr.tlsPorts = st.proxyMgr.tlsPorts := by
    rw [(Server.handleDel_tables st name).2]
    rfl
  rw [listenersAgree_iff hkept'.ports hkept'.tracked]
  constructor
  · intro h port hother hport
    rw [← tlsRouted_del, ← h port ((hrouted port).2 hother), htls]
    exact (hnoted port hother.routed).2 hport
  · intro hkeeps port hport
    have hother := (hrouted port).1 hport
    rw [htls, tlsRouted_del, hnoted port hother.routed]
    constructor
    · exact hkeeps port hother
    · rintro ⟨r, hr, -, hrport, hr'⟩
      exact ⟨r, hr, hrport, hr'⟩

/-! ## Runs -/

/-- The events of a run: runs of apps answered Ok and deletions, while certificates arrive and
the disk changes. -/
def RunsAndDels (st : DaemonState) : Event → Prop
  | .request os (.run config) => (Server.handleRun os st config).2.isOk = true
  | .request _ (.del _) | .issued .. | .disk _ => True
  | _ => False

instance (st : DaemonState) : (e : Event) → Decidable (RunsAndDels st e)
  | .request os (.run config) => instDecidableEqBool (Server.handleRun os st config).2.isOk true
  | .request _ (.del _) | .issued .. | .disk _ => .isTrue trivial
  | .request _ (.bin _) | .request _ .ls | .request _ (.restart _) | .request _ (.reload _)
  | .request _ (.update ..) | .request _ (.logs ..) | .request _ (.set ..) | .request _ .export
  | .request _ .save | .request _ .kill | .request _ (.link _) | .request _ .unlink
  | .request _ (.metricsEnable _) | .request _ .metricsDisable | .tick _ => .isFalse id

/-- The condition on an event: a run fits its port, and a deletion keeps the kind of the ports
that stay in use. -/
def Fits (st : DaemonState) : Event → Prop
  | .request _ (.run config) =>
    ∀ pm, config.portMapping = some pm → FitsPort st config pm.publicPort
  | .request _ (.del name) => KeepsKind st name
  | _ => True

theorem listenersAgree_step_iff {st : DaemonState} {e : Event} (hkept : ListenersKept st)
    (he : RunsAndDels st e) (hold : ListenersAgree st) :
    ListenersAgree (machine.next st e) ↔ Fits st e := by
  cases e with
  | tick os => cases he
  | issued hostname cert => exact iff_of_true hold trivial
  | disk t => exact iff_of_true hold trivial
  | request os r =>
    cases r with
    | run config =>
      obtain ⟨c, pm, p, disk, m, hran⟩ := Server.handleRun_isOk he
      obtain ⟨-, -, pm₀, hpm, hport, -⟩ := Server.prepareRun_asked hran.prepared
      change ListenersAgree (Server.handleRun os st config).1 ↔ _
      rw [listenersAgree_ran_iff hran hkept hold, hport]
      constructor
      · intro hfits pm' hpm'
        rw [hpm] at hpm'
        cases hpm'
        exact hfits
      · intro hfits
        exact hfits pm₀ hpm
    | del name => exact listenersAgree_del_iff name hkept hold
    | _ => cases he

theorem listenersKept_step {st : DaemonState} {e : Event} (hkept : ListenersKept st)
    (he : RunsAndDels st e) (hold : ListenersAgree st) (hnew : ListenersAgree (machine.next st e)) :
    ListenersKept (machine.next st e) := by
  cases e with
  | tick os => cases he
  | issued hostname cert =>
    exact ⟨hkept.agrees, ⟨hkept.ports.ports, hkept.ports.live, hkept.ports.dead⟩,
      ⟨hkept.tracked.bound, hkept.tracked.kinds⟩⟩
  | disk t => exact ⟨hkept.agrees, hkept.ports, hkept.tracked⟩
  | request os r =>
    cases r with
    | run config =>
      obtain ⟨c, pm, p, disk, m, hran⟩ := Server.handleRun_isOk he
      have hfits := (listenersAgree_ran_iff hran hkept hold).1 hnew
      refine ⟨agrees_run hkept.agrees he, portsKept_ran hran hkept.agrees hkept.ports,
        tracked_ran hran hkept.tracked fun hssl => ?_⟩
      rw [FitsPort, if_pos hssl] at hfits
      exact hfits
    | del name => exact listenersKept_del name hkept
    | _ => cases he

theorem listenersKept_initial (store : StateStore) (disk : FileTree) :
    ListenersKept (.initial store disk) := by
  refine ⟨⟨fun n _ => rfl, fun n p hp => ?_, fun n p hp => ?_⟩, ProxyManager.portsKept_new,
    ⟨fun port hport => ?_, fun s hs => ?_⟩⟩
  · cases hp
  · cases hp
  · cases hport
  · cases hs

theorem listenersAgree_initial (store : StateStore) (disk : FileTree) :
    ListenersAgree (.initial store disk) := by
  rintro port ⟨r, hr, -⟩
  cases hr

/-- Through any run of runs and deletions the listeners of every port in use agree with the apps
on it exactly if every run fits its port and every deletion keeps the kind of the ports that stay
in use. -/
theorem listenersAgree_throughout_iff (store : StateStore) (disk : FileTree)
    (events : List Event) (h : machine.Along RunsAndDels (.initial store disk) events) :
    machine.Throughout ListenersAgree (.initial store disk) events ↔
      machine.Along Fits (.initial store disk) events := by
  exact Machine.throughout_iff_along (I := ListenersKept) (fun _ _ => listenersKept_step)
    (fun _ _ => listenersAgree_step_iff) (listenersKept_initial store disk)
    (listenersAgree_initial store disk) h

/-- An app on port 443 of a host, with the certificate asked for. -/
def siteOn443 (ssl : Option SslConfig) (acme : Option String) : ProcessConfig :=
  { ProcessConfig.plain "site" "server" with
    mode := .run
    portMapping := some { host := some "example.com", publicPort := 443, appPort := some 8000 }
    ssl := ssl
    acme := acme }

/-- An app with a certificate on a port of its own, until it is deleted. -/
def certEvents : List Event :=
  [.disk (final (write "cert.pem" [1]) .empty),
    .request (.serving 7 4000) (.run (siteOn443 (some ⟨"cert.pem", "cert.pem"⟩) none)),
    .request (.serving 8 4000) (.del "site")]

theorem keepsKind_of_alone {st : DaemonState} {name : String}
    (h : ∀ r ∈ st.proxyMgr.routes, r.name = name) : KeepsKind st name := by
  rintro port ⟨r, hr, hname, -⟩
  exact absurd (h r hr) hname

/-- Its listeners agree. -/
theorem listenersAgree_throughout_cert :
    machine.Throughout ListenersAgree (.initial .empty .empty) certEvents := by
  refine (listenersAgree_throughout_iff .empty .empty certEvents (by decide +kernel)).2 ?_
  simp only [certEvents, Machine.along_cons]
  refine ⟨trivial, ?_, keepsKind_of_alone (by decide +kernel), trivial⟩
  rintro pm - ⟨s, hs, -⟩
  cases hs

/-- An app that asks for a certificate by ACME. -/
def acmeEvent : Event :=
  .request (.serving 7 4000) (.run (siteOn443 none (some "me@example.com")))

/-- It gets a plain listener. -/
theorem acme_listens_plain :
    RunsAndDels (.initial .empty .empty) acmeEvent ∧
      (machine.next (.initial .empty .empty) acmeEvent).proxyMgr.servers.map
        (fun s => (s.ports, s.tlsPorts)) = [([443], ∅)] ∧
      ¬machine.Throughout ListenersAgree (.initial .empty .empty) [acmeEvent] := by
  have hok : RunsAndDels (.initial .empty .empty) acmeEvent := by decide +kernel
  refine ⟨hok, by decide +kernel, fun h => ?_⟩
  have hfits := (listenersAgree_step_iff (listenersKept_initial .empty .empty) hok
    (listenersAgree_initial .empty .empty)).1 h.2
  have hport : (443 : UInt16) ∈ (∅ : Finset UInt16) := hfits _ rfl
  exact absurd hport (Finset.notMem_empty _)

end Daemon
