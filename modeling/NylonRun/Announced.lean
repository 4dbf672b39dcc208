import NylonRun.Isolation

/-!
# The address that a run announces

A run that is answered Ok announces a port and perhaps a host. The route table is searched from
the front, and a new route goes to its end: the address leads to the new app exactly if no other
app has it already. Once it does, no request for another app takes it away.
-/

open UnixPath FileTree Effect

namespace RouteTable

/-- Where some route has the port and the host asked for, the first such route is found. -/
theorem find_of_exact {table : RouteTable} {port : UInt16} {host : Option String} {r : RouteEntry}
    (hr : r ∈ table) (hport : r.port = port) (hhost : r.host = host) :
    table.find port host = (table.filter (·.port = port)).find? (·.host = host) := by
  unfold find
  dsimp only
  cases host with
  | none => rw [Option.bind_none, Option.none_or]
  | some name =>
    rw [Option.bind_some]
    cases hfind : (table.filter (·.port = port)).find? (·.host = some name) with
    | some r' => rfl
    | none =>
      have hmem : r ∈ table.filter (·.port = port) := List.mem_filter.2 ⟨hr, by simpa using hport⟩
      exact absurd (decide_eq_true hhost) (List.find?_eq_none.1 hfind r hmem)

/-- The address of a new route leads to another app that has it, and else to the new route. -/
theorem find_replace (table : RouteTable) (entry : RouteEntry) :
    (table.replace entry).find entry.port entry.host =
      some ((((table.without entry.name).filter (·.port = entry.port)).find?
        (·.host = entry.host)).getD entry) := by
  have hmem : entry ∈ table.replace entry := mem_replace.2 (.inr rfl)
  rw [find_of_exact hmem rfl rfl]
  unfold replace
  rw [List.filter_append, List.find?_append]
  cases ((table.without entry.name).filter (·.port = entry.port)).find? (·.host = entry.host) with
  | some r => rfl
  | none => simp

end RouteTable

namespace Daemon

/-- A lookup of the address leads to a route of the app for exactly that address. -/
def Announced (n : String) (port : UInt16) (host : Option String) (st : DaemonState) : Prop :=
  ∃ r, st.proxyMgr.routes.find port host = some r ∧ r.name = n ∧ r.host = host

/-- The event is a request that names the app. -/
def Names (n : String) : Event → Prop
  | .request _ r => app r = some n
  | _ => False

/-- A request that names no app changes no route. -/
theorem routes_of_unnamed {r : Request} (os : Os) (st : DaemonState) (hr : app r = none) :
    (Server.handleRequest os st r).1.proxyMgr.routes = st.proxyMgr.routes := by
  cases r with
  | set key value => exact (apart_set os st key value).2
  | save => exact (apart_save os st).2
  | link key => exact (apart_link os st key).2
  | unlink => exact (apart_unlink os st).2
  | kill =>
    change (Server.handleKill os st).1.proxyMgr.routes = st.proxyMgr.routes
    unfold Server.handleKill
    simp only [DaemonState.stored_fst, DaemonState.managed_fst]
  | ls | «export» | metricsEnable | metricsDisable => rfl
  | _ => cases hr

/-- An address that leads to its own app goes on doing so, whatever happens to the others. -/
theorem announced_step {n : String} {port : UInt16} {host : Option String} {st : DaemonState}
    {e : Event} (h : Announced n port host st) (he : ¬Names n e) :
    Announced n port host (machine.next st e) := by
  obtain ⟨r, hfind, hname, hhost⟩ := h
  cases e with
  | request os request =>
    change Announced n port host (Server.handleRequest os st request).1
    cases happ : app request with
    | none => exact ⟨r, by rw [routes_of_unnamed os st happ, hfind], hname, hhost⟩
    | some k =>
      have hne : r.name ≠ k := by
        rw [hname]
        rintro rfl
        exact he happ
      rcases (request_isolated os st happ).lookups port host r hfind hne with
        hsame | ⟨hany, name, -, hasked, -⟩
      · exact ⟨r, hsame, hname, hhost⟩
      · rw [hany, hasked] at hhost
        cases hhost
  | tick os =>
    refine ⟨r, ?_, hname, hhost⟩
    change (st.managed _).1.proxyMgr.routes.find port host = some r
    rw [DaemonState.managed_fst]
    exact hfind
  | issued hostname cert => exact ⟨r, hfind, hname, hhost⟩
  | disk t => exact ⟨r, hfind, hname, hhost⟩

/-- Right after a run that is answered Ok its address leads to its own route exactly if no other
app has that address. -/
theorem announced_run_iff {os : Os} {st : DaemonState} {config : ProcessConfig} {pm : PortMapping}
    (hok : (Server.handleRun os st config).2.isOk = true) (hpm : config.portMapping = some pm) :
    Announced config.name pm.publicPort pm.host (Server.handleRun os st config).1 ↔
      ∀ r ∈ st.proxyMgr.routes, r.port = pm.publicPort → r.host = pm.host →
        r.name = config.name := by
  obtain ⟨c, pm', p, disk, m, hran⟩ := Server.handleRun_isOk hok
  obtain ⟨-, -, pm₀, hpm₀, haddress⟩ := Server.prepareRun_asked hran.prepared
  rw [hpm] at hpm₀
  cases hpm₀
  have hport : (Server.runRoute st c pm').port = pm.publicPort := by simp [haddress.1]
  have hhost : (Server.runRoute st c pm').host = pm.host := by simp [haddress.2]
  have hname : (Server.runRoute st c pm').name = config.name := by simp [hran.name]
  unfold Announced
  rw [hran.routes]
  generalize Server.runRoute st c pm' = entry at hport hhost hname
  rw [← hport, ← hhost, ← hname, RouteTable.find_replace]
  constructor
  · rintro ⟨r, hfind, hr, -⟩ r' hr' hport' hhost'
    by_contra hother
    have hmem : r' ∈ (st.proxyMgr.routes.without entry.name).filter (·.port = entry.port) :=
      List.mem_filter.2 ⟨RouteTable.mem_without.2 ⟨hr', hother⟩, by simpa using hport'⟩
    cases hfirst : ((st.proxyMgr.routes.without entry.name).filter
        (·.port = entry.port)).find? (·.host = entry.host) with
    | none => exact absurd (decide_eq_true hhost') (List.find?_eq_none.1 hfirst r' hmem)
    | some first =>
      rw [hfirst] at hfind
      cases hfind
      have hfirst := List.mem_filter.1 (List.mem_of_find?_eq_some hfirst)
      exact (RouteTable.mem_without.1 hfirst.1).2 hr
  · intro hown
    have hnone : ((st.proxyMgr.routes.without entry.name).filter
        (·.port = entry.port)).find? (·.host = entry.host) = none := by
      rw [List.find?_eq_none]
      intro r hr hhost'
      obtain ⟨hr, hport'⟩ := List.mem_filter.1 hr
      obtain ⟨hr, hother⟩ := RouteTable.mem_without.1 hr
      exact hother (hown r hr (by simpa using hport') (by simpa using hhost'))
    exact ⟨entry, by rw [hnone, Option.getD_none], rfl, rfl⟩

/-- The address of a run that is answered Ok leads to its own route, right away and as long as no
request names the app, exactly if no other app has that address. -/
theorem run_announced_iff {os : Os} {st : DaemonState} {config : ProcessConfig} {pm : PortMapping}
    (hok : (Server.handleRun os st config).2.isOk = true) (hpm : config.portMapping = some pm) :
    (∀ events, machine.Along (fun _ e => ¬Names config.name e)
        (Server.handleRun os st config).1 events →
      machine.Throughout (Announced config.name pm.publicPort pm.host)
        (Server.handleRun os st config).1 events) ↔
      ∀ r ∈ st.proxyMgr.routes, r.port = pm.publicPort → r.host = pm.host →
        r.name = config.name := by
  rw [← announced_run_iff hok hpm]
  constructor
  · intro h
    exact (h [] trivial).start
  · intro hstart events hothers
    exact Machine.throughout_of_invariant (fun _ _ => announced_step) hstart hothers

/-- An app that asks for port 80, with no host. -/
def onPort80 (name : String) : ProcessConfig :=
  { ProcessConfig.plain name "server" with
    mode := .run, portMapping := some { host := none, publicPort := 80, appPort := some 3001 } }

/-- A daemon that runs the app `web` on port 80, and nothing else. -/
def webRun : DaemonState × Response :=
  Server.handleRun (.serving 7 4000) (.initial .empty .empty) (onPort80 "web")

/-- The same daemon, asked to run another app on the port. -/
def adminRun : DaemonState × Response :=
  Server.handleRun (.serving 8 4000) webRun.1 (onPort80 "admin")

/-- The first app on a port keeps it when another app is run there. -/
theorem run_announced_first :
    machine.Throughout (Announced "web" 80 none) webRun.1
      [.request (.serving 8 4000) (.run (onPort80 "admin"))] := by
  have hok : webRun.2.isOk = true := by decide +kernel
  have hfree : (DaemonState.initial .empty .empty).proxyMgr.routes = [] := rfl
  have hpm : (onPort80 "web").portMapping =
      some { host := none, publicPort := 80, appPort := some 3001 } := rfl
  have hother : ¬Names "web" (.request (.serving 8 4000) (.run (onPort80 "admin"))) := by
    intro h
    exact absurd (Option.some.inj h) (by decide)
  refine (run_announced_iff hok hpm).2 (fun r hr => ?_) _ ⟨hother, trivial⟩
  rw [hfree] at hr
  cases hr

/-- A second app is told that it serves the port, and the port leads to the first one. -/
theorem second_run_unreachable :
    adminRun.2.isOk = true ∧
      adminRun.1.proxyMgr.routes.find 80 none = some ⟨"web", 80, none, .proxy 3001⟩ ∧
      ¬Announced "admin" 80 none adminRun.1 := by
  have hok : adminRun.2.isOk = true := by decide +kernel
  have hfind : adminRun.1.proxyMgr.routes.find 80 none = some ⟨"web", 80, none, .proxy 3001⟩ := by
    decide +kernel
  refine ⟨hok, hfind, ?_⟩
  rintro ⟨r, hr, hname, -⟩
  rw [hfind] at hr
  cases hr
  exact absurd hname (by decide)

end Daemon
