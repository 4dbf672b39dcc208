import NylonRun.Agreement
import NylonRun.Ports

/-!
# What a request leaves alone

A request that names an app changes that app's entry and that app's routes. Both tables are
shared: the route list is filtered and appended to, and a lookup in it depends on its order. So
the other apps keep their entries, their routes, their ports and, but for one case, the
lookups that lead to them.
-/

open UnixPath FileTree Effect

namespace RouteTable

theorem find?_filter_of_find? {α : Type} {l : List α} {p f : α → Bool} {a : α}
    (h : l.find? p = some a) (hf : f a = true) : (l.filter f).find? p = some a := by
  induction l with
  | nil => cases h
  | cons b l ih =>
    rw [List.find?_cons] at h
    rw [List.filter_cons]
    cases hp : p b with
    | true =>
      rw [hp] at h
      cases h
      rw [if_pos hf, List.find?_cons, hp]
    | false =>
      rw [hp] at h
      split
      · rw [List.find?_cons, hp]
        exact ih h
      · exact ih h

variable {table own : RouteTable} {n : String} {port : UInt16} {p : RouteEntry → Bool}

/-- What was found first of the other apps is found first without the named one. -/
theorem find?_without {r : RouteEntry}
    (h : (table.filter (·.port = port)).find? p = some r) (hr : r.name ≠ n) :
    ((table.without n ++ own).filter (·.port = port)).find? p = some r := by
  have hcomm : (table.without n).filter (·.port = port) =
      (table.filter (·.port = port)).filter (·.name ≠ n) := by
    unfold without
    rw [List.filter_filter, List.filter_filter]
    exact List.filter_congr fun a _ => Bool.and_comm ..
  rw [List.filter_append, List.find?_append, hcomm, find?_filter_of_find? h (by simpa using hr)]
  rfl

theorem find?_without_of_none (h : (table.filter (·.port = port)).find? p = none) :
    ((table.without n ++ own).filter (·.port = port)).find? p =
      (own.filter (·.port = port)).find? p := by
  have hnone : ((table.without n).filter (·.port = port)).find? p = none := by
    rw [List.find?_eq_none] at h ⊢
    intro r hr
    obtain ⟨hmem, hport⟩ := List.mem_filter.1 hr
    exact h r (List.mem_filter.2 ⟨(mem_without.1 hmem).1, hport⟩)
  rw [List.filter_append, List.find?_append, hnone, Option.none_or]

/-- A lookup that led to another app still leads to it, unless it asked for a host, led to a
catch-all, and the named app now has a route for exactly that host. -/
theorem find_spared {host : Option String} {r : RouteEntry} (h : table.find port host = some r)
    (hr : r.name ≠ n) :
    (table.without n ++ own).find port host = some r ∨
      (r.host = none ∧ ∃ name r', host = some name ∧ r' ∈ own ∧ r'.port = port ∧
        r'.host = some name) := by
  unfold find at h ⊢
  dsimp only at h ⊢
  rcases Option.or_eq_some_iff.1 h with hexact | ⟨hnone, hany⟩
  · obtain ⟨name, rfl, hexact⟩ := Option.bind_eq_some_iff.1 hexact
    left
    rw [Option.bind_some, find?_without hexact hr]
    rfl
  · rw [find?_without hany hr]
    cases host with
    | none => exact .inl rfl
    | some name =>
      rw [Option.bind_some] at hnone ⊢
      rw [find?_without_of_none hnone]
      cases hown : (own.filter (·.port = port)).find? (·.host = some name) with
      | none => exact .inl rfl
      | some r' =>
        obtain ⟨hmem, hport⟩ := List.mem_filter.1 (List.mem_of_find?_eq_some hown)
        refine .inr ⟨by simpa using List.find?_some hany, name, r', rfl, hmem, ?_, ?_⟩
        · simpa using hport
        · simpa using List.find?_some hown

end RouteTable

namespace ProxyManager

/-- Of the routes only those of the named app have changed, and no port of another app is newly
refused. -/
structure Spares (n : String) (m m' : ProxyManager) : Prop where
  routes : m'.routes = m.routes ∨
    ∃ own, (∀ r ∈ own, r.name = n) ∧ m'.routes = m.routes.without n ++ own
  dead : ∀ port ∈ m'.deadPorts, m.RoutedByOther n port → port ∈ m.deadPorts

variable {n : String} {m m' m'' : ProxyManager}

theorem Spares.refl (n : String) (m : ProxyManager) : Spares n m m := ⟨.inl rfl, fun _ h _ => h⟩

theorem Spares.other (h : Spares n m m') {port : UInt16} (hother : m.RoutedByOther n port) :
    m'.RoutedByOther n port := by
  obtain ⟨r, hr, hname, hport⟩ := hother
  refine ⟨r, ?_, hname, hport⟩
  rcases h.routes with heq | ⟨own, -, heq⟩ <;> rw [heq]
  · exact hr
  · exact List.mem_append_left _ (RouteTable.mem_without.2 ⟨hr, hname⟩)

theorem without_append_own {table own : RouteTable} (hown : ∀ r ∈ own, r.name = n) :
    RouteTable.without (table.without n ++ own) n = table.without n := by
  unfold RouteTable.without
  rw [List.filter_append, List.filter_filter]
  have hnil : own.filter (·.name ≠ n) = [] := by
    rw [List.filter_eq_nil_iff]
    intro r hr
    simp [hown r hr]
  rw [hnil, List.append_nil]
  simp

theorem Spares.trans (h : Spares n m m') (h' : Spares n m' m'') : Spares n m m'' := by
  refine ⟨?_, fun port hdead hother => h.dead port (h'.dead port hdead (h.other hother)) hother⟩
  rcases h'.routes with heq' | ⟨own', hown', heq'⟩
  · rw [heq']
    exact h.routes
  · refine .inr ⟨own', hown', ?_⟩
    rw [heq']
    rcases h.routes with heq | ⟨own, hown, heq⟩ <;> rw [heq]
    rw [without_append_own hown]

theorem spares_addRouteWithTls (os : Os) (t : FileTree) (m : ProxyManager) (entry : RouteEntry)
    (ssl : Option SslConfig) : Spares entry.name m (m.addRouteWithTls os t entry ssl).1 := by
  refine ⟨.inr ⟨[entry], by simp, addRouteWithTls_routes os t m entry ssl⟩,
    fun port hdead _ => ?_⟩
  cases hload : (m.pushRoute entry).loadTls os t entry ssl with
  | error e =>
    rw [addRouteWithTls_error hload] at hdead
    exact hdead
  | ok m' =>
    rw [addRouteWithTls_ok hload, listen_deadPorts, (loadTls_ok hload).2.2.1] at hdead
    exact (Finset.mem_erase.1 hdead).2

theorem spares_removeRoutes (m : ProxyManager) (name : String) :
    Spares name m (m.removeRoutes name) := by
  refine ⟨.inr ⟨[], by simp, by simp⟩, fun port hdead hother => ?_⟩
  have hmem : port ∈ m.deadPorts ∨ port ∈ orphaned m.routes name := by
    simpa [removeRoutes] using hdead
  exact hmem.elim id fun horphan => absurd hother (mem_orphaned.1 horphan).2

end ProxyManager

namespace Daemon

/-- What a request naming `n` leaves alone. -/
structure Isolated (n : String) (st st' : DaemonState) : Prop where
  process : ∀ k, k ≠ n → st'.processMgr.lookup k = st.processMgr.lookup k
  routes : ∀ k, k ≠ n → st'.proxyMgr.routes.of k = st.proxyMgr.routes.of k
  ports : ∀ k, k ≠ n → ∀ r ∈ st.proxyMgr.routes.of k,
    r.port ∈ st'.proxyMgr.deadPorts → r.port ∈ st.proxyMgr.deadPorts
  /-- A lookup keeps its result, unless `n` now has a route on that port with exactly the host
  asked for and the other app's route was the catch-all. -/
  lookups : ∀ port host r, st.proxyMgr.routes.find port host = some r → r.name ≠ n →
    st'.proxyMgr.routes.find port host = some r ∨
      (r.host = none ∧ ∃ name r', host = some name ∧ r' ∈ st'.proxyMgr.routes ∧ r'.name = n ∧
        r'.port = port ∧ r'.host = some name)

/-- The same of the two managers. -/
structure OnlyTouches (n : String) (st st' : DaemonState) : Prop where
  process : ∀ k, k ≠ n → st'.processMgr.lookup k = st.processMgr.lookup k
  proxy : st.proxyMgr.Spares n st'.proxyMgr

theorem OnlyTouches.refl (n : String) (st : DaemonState) : OnlyTouches n st st :=
  ⟨fun _ _ => rfl, .refl n _⟩

theorem OnlyTouches.trans {n : String} {st st' st'' : DaemonState} (h : OnlyTouches n st st')
    (h' : OnlyTouches n st' st'') : OnlyTouches n st st'' :=
  ⟨fun k hk => (h'.process k hk).trans (h.process k hk), h.proxy.trans h'.proxy⟩

theorem OnlyTouches.isolated {n : String} {st st' : DaemonState} (h : OnlyTouches n st st') :
    Isolated n st st' := by
  refine ⟨h.process, fun k hk => ?_, fun k hk r hr hdead => ?_, fun port host r hfind hr => ?_⟩
  · rcases h.proxy.routes with heq | ⟨own, hown, heq⟩ <;> rw [heq]
    have hnil : own.filter (·.name = k) = [] := by
      rw [List.filter_eq_nil_iff]
      intro r hr
      simp [hown r hr, Ne.symm hk]
    have happ : RouteTable.of (st.proxyMgr.routes.without n ++ own) k =
        RouteTable.of (st.proxyMgr.routes.without n) k ++ own.filter (·.name = k) :=
      List.filter_append ..
    rw [happ, hnil, List.append_nil, RouteTable.of_without, if_neg hk]
  · obtain ⟨hmem, hname⟩ := List.mem_filter.1 hr
    refine h.proxy.dead r.port hdead ⟨r, hmem, ?_, rfl⟩
    rw [of_decide_eq_true hname]
    exact hk
  · rcases h.proxy.routes with heq | ⟨own, hown, heq⟩
    · rw [heq]
      exact .inl hfind
    · rw [heq]
      rcases @RouteTable.find_spared _ own n _ _ _ hfind hr with
        hsame | ⟨hany, name, r', hhost, hmem, hport, hname⟩
      · exact .inl hsame
      · exact .inr ⟨hany, name, r', hhost, List.mem_append_right _ hmem, hown r' hmem, hport, hname⟩

/-! ## The handlers -/

theorem onlyTouches_disk (n : String) (st : DaemonState) (disk : FileTree) :
    OnlyTouches n st { st with disk := disk } := ⟨fun _ _ => rfl, .refl n _⟩

theorem onlyTouches_proxy {n : String} {st : DaemonState} {m : ProxyManager}
    (h : st.proxyMgr.Spares n m) : OnlyTouches n st { st with proxyMgr := m } :=
  ⟨fun _ _ => rfl, h⟩

theorem onlyTouches_insert (name : String) (st : DaemonState) (p : ManagedProcess) :
    OnlyTouches name st { st with processMgr := st.processMgr.insert name p } := by
  refine ⟨fun k hk => ?_, .refl name _⟩
  rw [ProcessManager.lookup_insert, if_neg hk]

theorem onlyTouches_registerAcme (n : String) (st : DaemonState) (acme : Option String)
    (pm : PortMapping) : OnlyTouches n st (Server.registerAcme st acme pm) := by
  refine ⟨fun k _ => ?_, ?_⟩
  · rw [Server.registerAcme_toHost]
  · rw [Server.registerAcme_proxyMgr]
    exact .refl n _

theorem onlyTouches_spawn (os : LaunchOs) (config : ProcessConfig) (st : DaemonState) :
    OnlyTouches config.name st (st.managed (Process.spawnProcess os config)).1 := by
  rw [DaemonState.managed_fst]
  rcases Process.spawnProcess_cases os config st.toHost with
    ⟨e, t, hrun⟩ | ⟨-, t, t', m, -, -, hrun⟩
  · rw [final_of_error hrun]
    exact onlyTouches_disk _ st t
  · rw [final_of_ok hrun]
    exact (onlyTouches_insert config.name st m).trans (onlyTouches_disk ..)

theorem onlyTouches_restart (os : LaunchOs) (name : String) (st : DaemonState) :
    OnlyTouches name st (st.managed (Process.restart os name)).1 := by
  rw [DaemonState.managed_fst]
  cases hp : st.processMgr.lookup name with
  | none =>
    rw [final_of_error (Process.restart_of_none os hp)]
    exact .refl name st
  | some p =>
    rcases Process.restart_cases os (h := st.toHost) hp with
      ⟨e, t, -, hrun⟩ | ⟨m, q, t, -, -, hrun⟩
    · rw [final_of_error hrun]
      exact (onlyTouches_insert name st _).trans (onlyTouches_disk ..)
    · rw [final_of_ok hrun]
      exact (onlyTouches_insert name st _).trans (onlyTouches_disk ..)

theorem onlyTouches_del (st : DaemonState) (name : String) :
    OnlyTouches name st (Server.handleDel st name).1 := by
  obtain ⟨htable, hproxy⟩ := Server.handleDel_tables st name
  refine ⟨fun k hk => ?_, ?_⟩
  · rw [htable, ProcessManager.lookup_erase, if_neg hk]
  · rw [hproxy]
    exact ProxyManager.spares_removeRoutes ..

theorem onlyTouches_addRoute (os : Os) (t : FileTree) (st : DaemonState) (entry : RouteEntry)
    (ssl : Option SslConfig) : OnlyTouches entry.name st
      { st with proxyMgr := (st.proxyMgr.addRouteWithTls os t entry ssl).1 } :=
  onlyTouches_proxy (ProxyManager.spares_addRouteWithTls ..)

theorem onlyTouches_runSpa (os : Os) (st : DaemonState) (config : ProcessConfig)
    (pm : PortMapping) : OnlyTouches config.name st (Server.runSpa os st config pm).1 := by
  unfold Server.runSpa
  split
  · exact .refl _ st
  · have hadd := onlyTouches_addRoute os st.disk st
      (Server.routeOf config.name pm (Server.spaBackend st.disk config.path)) config.ssl
    dsimp only
    split
    · rename_i m e heq
      rw [heq] at hadd
      exact hadd
    · rename_i m heq
      rw [heq] at hadd
      refine hadd.trans ?_
      generalize { st with proxyMgr := m } = st'
      cases hp : st'.processMgr.lookup config.name with
      | some p =>
        have hrun : st'.managed (Process.registerSpa config) = (st', .error _) :=
          DaemonState.managed_error (Process.registerSpa_of_some (by rw [hp]; rfl))
        rw [hrun]
        exact .refl _ st'
      | none =>
        have hrun : st'.managed (Process.registerSpa config) = ({ st' with
            processMgr := st'.processMgr.insert config.name (Process.spaProcess config) }, .ok _) :=
          DaemonState.managed_ok (Process.registerSpa_of_none hp)
        rw [hrun]
        exact (onlyTouches_insert config.name st' _).trans (onlyTouches_registerAcme ..)

theorem onlyTouches_delete (name : String) (st : DaemonState) :
    OnlyTouches name st (st.managed (Process.delete name)).1 := by
  rw [DaemonState.managed_fst]
  cases hp : st.processMgr.lookup name with
  | none =>
    rw [final_of_error (Process.delete_of_none hp)]
    exact .refl name st
  | some p =>
    obtain ⟨t, hrun⟩ := Process.delete_of_some (h := st.toHost) hp
    rw [final_of_ok hrun]
    refine ⟨fun k hk => ?_, .refl name _⟩
    exact (ProcessManager.lookup_erase ..).trans (if_neg hk)

theorem onlyTouches_runProcess (os : Os) (st : DaemonState) (config : ProcessConfig)
    (pm : PortMapping) : OnlyTouches config.name st (Server.runProcess os st config pm).1 := by
  have hspawn := onlyTouches_spawn (os.launch config.name) config st
  unfold Server.runProcess
  split
  · rename_i st' e heq
    rw [heq] at hspawn
    exact hspawn
  · rename_i st' msg heq
    rw [heq] at hspawn
    refine hspawn.trans ?_
    have hadd := onlyTouches_addRoute os st'.disk st'
      (Server.routeOf config.name pm (Server.proxyBackend pm)) config.ssl
    split
    · rename_i m e heq
      rw [heq] at hadd
      exact hadd.trans (onlyTouches_delete config.name _)
    · rename_i m heq
      rw [heq] at hadd
      exact hadd.trans (onlyTouches_registerAcme ..)

theorem onlyTouches_run (os : Os) (st : DaemonState) (config : ProcessConfig) :
    OnlyTouches config.name st (Server.handleRun os st config).1 := by
  unfold Server.handleRun
  split
  · exact .refl _ st
  · rename_i c pm hprep
    rw [← (Server.prepareRun_same hprep).1]
    split
    · exact onlyTouches_runSpa os st c pm
    · exact onlyTouches_runProcess os st c pm

theorem onlyTouches_restartUpdated (os : Os) (st : DaemonState) (name : String) :
    OnlyTouches name st (Server.restartUpdated os st name).1 := by
  have hrestart := onlyTouches_restart (os.launch name) name st
  unfold Server.restartUpdated
  split
  · exact .refl name st
  · split
    · rename_i heq
      rw [heq] at hrestart
      exact hrestart
    · rename_i heq
      rw [heq] at hrestart
      exact hrestart

theorem onlyTouches_reroute (os : Os) (st : DaemonState) (name : String) (old : ProcessConfig) :
    OnlyTouches name st (Server.reroute os st name old).1 := by
  have hremove := onlyTouches_proxy (ProxyManager.spares_removeRoutes st.proxyMgr name)
  unfold Server.reroute
  dsimp only
  cases Server.configOf st.processMgr name with
  | none => exact hremove
  | some config =>
    cases hpm : config.portMapping with
    | none => simp only [hpm]; exact hremove
    | some pm =>
      simp only [hpm]
      exact hremove.trans (onlyTouches_addRoute os st.disk _
        (Server.routeOf name pm (Server.updatedBackend st.disk config pm)) none)

theorem onlyTouches_updateLocked (os : Os) (st : DaemonState) (name : String) (reroutes : Bool)
    (change : Process.ConfigChange) (image : Option (String × String)) :
    OnlyTouches name st (Server.updateLocked os st name reroutes change image).1 := by
  cases hp : st.processMgr.lookup name with
  | none =>
    rw [Server.updateLocked_of_none _ change _ hp]
    exact .refl name st
  | some p =>
    rw [Server.updateLocked_of_some reroutes change image hp]
    refine (onlyTouches_insert name st
      { p with config := Server.updatedConfig change image p.config }).trans ?_
    generalize ({ st with processMgr := _ } : DaemonState) = st'
    cases reroutes with
    | false => exact onlyTouches_restartUpdated os st' name
    | true =>
      rw [if_pos rfl]
      have hreroute := onlyTouches_reroute os st' name p.config
      split
      · rename_i heq
        rw [heq] at hreroute
        exact hreroute
      · rename_i heq
        rw [heq] at hreroute
        exact hreroute.trans (onlyTouches_restartUpdated ..)

theorem onlyTouches_update (os : Os) (st : DaemonState) (name : String)
    (u : Server.UpdateRequest) : OnlyTouches name st (Server.handleUpdate os st name u).1 := by
  unfold Server.handleUpdate
  rw [DaemonState.managed_onDisk]
  refine (onlyTouches_disk name st
    (final (Server.pullUpdate os name u.image) st.disk)).trans ?_
  generalize { st with disk := final (Server.pullUpdate os name u.image) st.disk } = st'
  cases result (Server.pullUpdate os name u.image) st.disk with
  | error e => exact .refl name st'
  | ok image =>
    dsimp only
    split
    · exact .refl name st'
    · exact onlyTouches_updateLocked ..

/-- The app that a request names. -/
def app : Request → Option String
  | .bin config | .run config => some config.name
  | .del name | .restart name | .reload name | .update name .. | .logs name _ => some name
  | _ => none

theorem onlyTouches_request {r : Request} {n : String} (os : Os) (st : DaemonState)
    (hr : app r = some n) : OnlyTouches n st (Server.handleRequest os st r).1 := by
  cases r with
  | bin config => cases hr; exact onlyTouches_spawn ..
  | run config => cases hr; exact onlyTouches_run ..
  | del name => cases hr; exact onlyTouches_del ..
  | restart name => cases hr; exact onlyTouches_restart ..
  | reload name => cases hr; exact onlyTouches_restart ..
  | update name => cases hr; exact onlyTouches_update ..
  | logs name lines =>
    unfold Server.handleRequest
    dsimp only
    split <;> exact .refl n st
  | _ => cases hr

/-- Whatever a request naming an app does, and however it ends, every other app keeps its entry,
its routes and its ports, and the lookups that led to it. -/
theorem request_isolated {r : Request} {n : String} (os : Os) (st : DaemonState)
    (hr : app r = some n) : Isolated n st (Server.handleRequest os st r).1 :=
  (onlyTouches_request os st hr).isolated

/-- A deletion next to another app. -/
theorem request_isolated_del :
    let st := machine.run (.initial .empty .empty) webEvents
    Isolated "job" st (Server.handleRequest (.serving 10 4000) st (.del "job")).1 :=
  request_isolated (.serving 10 4000) _ rfl

end Daemon
