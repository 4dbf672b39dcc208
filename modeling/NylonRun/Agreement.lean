import NylonRun.Process.Health
import NylonRun.Requests

/-!
# The route table and the process table

The two tables live in two managers, and every handler changes them one after the other. Each
step keeps them in agreement, app by app: it changes one app's entry and that app's routes, or
it changes what does not matter to routing.
-/

open UnixPath FileTree Effect

/-- The route that an app with a port mapping has. -/
structure Serves (r : RouteEntry) (config : ProcessConfig) (pm : PortMapping) : Prop where
  port : r.port = pm.publicPort
  host : r.host = pm.host
  backend : if config.spa then ∃ dir, r.backend = .spa dir else r.backend = Server.proxyBackend pm

/-- The routes of an app are the one that its config asks for. -/
def RoutedAs (routes : List RouteEntry) (config : ProcessConfig) : Prop :=
  match config.portMapping with
  | none => routes = []
  | some pm => ∃ r, routes = [r] ∧ Serves r config pm

/-- The tables agree on the apps: what is not registered has no route, and what is stands under
its name and has the routes of its config. -/
structure Agrees (m : ProcessManager) (table : RouteTable) : Prop where
  free : ∀ n, m.lookup n = none → table.of n = []
  keyed : Server.Keyed m
  routed : ∀ n p, m.lookup n = some p → RoutedAs (table.of n) p.config

/-- Two configs of one app that ask for the same route. -/
structure SameRoute (c c' : ProcessConfig) : Prop where
  name : c'.name = c.name
  portMapping : c'.portMapping = c.portMapping
  spa : c'.spa = c.spa

theorem SameRoute.refl (c : ProcessConfig) : SameRoute c c := ⟨rfl, rfl, rfl⟩

theorem SameRoute.trans {c c' c'' : ProcessConfig} (h : SameRoute c c') (h' : SameRoute c' c'') :
    SameRoute c c'' :=
  ⟨h'.name.trans h.name, h'.portMapping.trans h.portMapping, h'.spa.trans h.spa⟩

theorem Process.SameApp.sameRoute {c c' : ProcessConfig} (h : Process.SameApp c c') :
    SameRoute c c' := ⟨h.name, h.portMapping, h.spa⟩

theorem SameRoute.routedAs {c c' : ProcessConfig} (h : SameRoute c c') {routes : List RouteEntry}
    (hr : RoutedAs routes c) : RoutedAs routes c' := by
  unfold RoutedAs at hr ⊢
  rw [h.portMapping]
  cases hpm : c.portMapping with
  | none => rw [hpm] at hr; exact hr
  | some pm =>
    rw [hpm] at hr
    obtain ⟨r, hroutes, hport, hhost, hbackend⟩ := hr
    exact ⟨r, hroutes, hport, hhost, h.spa ▸ hbackend⟩

/-- The same apps are registered, and ask for the same routes. -/
structure SameApps (m m' : ProcessManager) : Prop where
  free : ∀ n, m.lookup n = none → m'.lookup n = none
  kept : ∀ n p, m.lookup n = some p → ∃ p', m'.lookup n = some p' ∧ SameRoute p.config p'.config

theorem SameApps.refl (m : ProcessManager) : SameApps m m :=
  ⟨fun _ h => h, fun _ p h => ⟨p, h, .refl _⟩⟩

theorem SameApps.trans {m m' m'' : ProcessManager} (h : SameApps m m') (h' : SameApps m' m'') :
    SameApps m m'' := by
  refine ⟨fun n hn => h'.free n (h.free n hn), fun n p hp => ?_⟩
  obtain ⟨p', hp', hsame⟩ := h.kept n p hp
  obtain ⟨p'', hp'', hsame'⟩ := h'.kept n p' hp'
  exact ⟨p'', hp'', hsame.trans hsame'⟩

/-- The entry of one app replaced by one that asks for the same route. -/
theorem sameApps_insert {m : ProcessManager} {name : String} {p p' : ManagedProcess}
    (hp : m.lookup name = some p) (h : SameRoute p.config p'.config) :
    SameApps m (m.insert name p') := by
  refine ⟨fun n hn => ?_, fun n q hq => ?_⟩
  · rw [ProcessManager.lookup_insert, if_neg (by rintro rfl; rw [hp] at hn; cases hn), hn]
  · rw [ProcessManager.lookup_insert]
    by_cases hn : n = name
    · subst hn
      rw [hp] at hq
      cases hq
      exact ⟨p', if_pos rfl, h⟩
    · exact ⟨q, by rw [if_neg hn, hq], .refl _⟩

/-- What is registered later was registered before. -/
theorem SameApps.back {m m' : ProcessManager} (h : SameApps m m') {n : String} {p' : ManagedProcess}
    (hp' : m'.lookup n = some p') : ∃ p, m.lookup n = some p ∧ SameRoute p.config p'.config := by
  cases hp : m.lookup n with
  | none =>
    rw [h.free n hp] at hp'
    cases hp'
  | some p =>
    obtain ⟨q, hq, hsame⟩ := h.kept n p hp
    rw [hp'] at hq
    cases hq
    exact ⟨p, rfl, hsame⟩

theorem SameApps.keyed {m m' : ProcessManager} (h : SameApps m m') (hk : Server.Keyed m) :
    Server.Keyed m' := by
  intro n p' hp'
  obtain ⟨p, hp, hsame⟩ := h.back hp'
  exact hsame.name.trans (hk n p hp)

theorem Agrees.sameApps {m m' : ProcessManager} {table : RouteTable} (ha : Agrees m table)
    (h : SameApps m m') : Agrees m' table := by
  refine ⟨fun n hn => ?_, h.keyed ha.keyed, fun n p' hp' => ?_⟩
  · cases hp : m.lookup n with
    | none => exact ha.free n hp
    | some p =>
      obtain ⟨q, hq, -⟩ := h.kept n p hp
      rw [hn] at hq
      cases hq
  · obtain ⟨p, hp, hsame⟩ := h.back hp'
    exact hsame.routedAs (ha.routed n p hp)

/-- No route belongs to an app that is not registered. -/
theorem Agrees.name_ne {m : ProcessManager} {table : RouteTable} {n : String} (ha : Agrees m table)
    (hn : m.lookup n = none) : ∀ r ∈ table, r.name ≠ n := by
  intro r hr hname
  have hmem : r ∈ table.of n := by simp [RouteTable.of, hr, hname]
  rw [ha.free n hn] at hmem
  cases hmem

/-- An app entered or replaced together with its routes. -/
theorem Agrees.insert {m : ProcessManager} {table table' : RouteTable} {name : String}
    {p : ManagedProcess} (ha : Agrees m table) (hname : p.config.name = name)
    (hother : ∀ n, n ≠ name → table'.of n = table.of n)
    (hroutes : RoutedAs (table'.of name) p.config) : Agrees (m.insert name p) table' := by
  refine ⟨fun n hn => ?_, ha.keyed.insert hname, fun n q hq => ?_⟩
  · rw [ProcessManager.lookup_insert] at hn
    split at hn
    · cases hn
    · rename_i hne
      rw [hother n hne, ha.free n hn]
  · rw [ProcessManager.lookup_insert] at hq
    split at hq
    · rename_i heq
      cases hq
      rw [heq]
      exact hroutes
    · rename_i hne
      rw [hother n hne]
      exact ha.routed n q hq

/-- An app entered or replaced together with its one route. -/
theorem Agrees.insert_replace {m : ProcessManager} {table : RouteTable} {entry : RouteEntry}
    {p : ManagedProcess} {pm : PortMapping} (ha : Agrees m table) (hname : p.config.name = entry.name)
    (hpm : p.config.portMapping = some pm) (hserves : Serves entry p.config pm) :
    Agrees (m.insert entry.name p) (table.replace entry) := by
  refine ha.insert hname (fun n hn => ?_) ?_
  · rw [RouteTable.of_replace, if_neg hn]
  · rw [RouteTable.of_replace, if_pos rfl]
    unfold RoutedAs
    rw [hpm]
    exact ⟨entry, rfl, hserves⟩

/-- An app taken out together with its routes. -/
theorem Agrees.erase {m : ProcessManager} {table : RouteTable} (ha : Agrees m table)
    (name : String) : Agrees (m.erase name) (table.without name) := by
  refine ⟨fun n hn => ?_, ha.keyed.erase name, fun n q hq => ?_⟩
  · rw [ProcessManager.lookup_erase] at hn
    rw [RouteTable.of_without]
    split
    · rfl
    · rename_i hne
      rw [if_neg hne] at hn
      exact ha.free n hn
  · rw [ProcessManager.lookup_erase] at hq
    split at hq
    · cases hq
    · rename_i hne
      rw [RouteTable.of_without, if_neg hne]
      exact ha.routed n q hq

/-! ## Starting an app again -/

namespace Process

theorem sameApps_restart (os : LaunchOs) (name : String) (h : Host) :
    SameApps h.processMgr (final (restart os name) h).processMgr := by
  cases hp : h.processMgr.lookup name with
  | none =>
    rw [final_of_error (restart_of_none os hp)]
    exact .refl _
  | some p =>
    rcases restart_cases os hp with ⟨e, t, -, hrun⟩ | ⟨m, q, t, hstart, rfl, hrun⟩
    · rw [final_of_error hrun]
      exact sameApps_insert hp (.refl _)
    · rw [final_of_ok hrun]
      exact sameApps_insert hp (startProcess_ok hstart).same.sameRoute

theorem sameApps_tick (h : Host) (t : Tick) : SameApps h.processMgr (tick h t).processMgr := by
  have hchecked : SameApps h.processMgr (checked h t).processMgr := by
    refine ⟨fun n hn => ?_, fun n p hp => ?_⟩
    · rw [lookup_checked, hn]; rfl
    · refine ⟨checkEntry (t.tryWait n) p, by rw [lookup_checked, hp]; rfl, ?_⟩
      have hconfig : (checkEntry (t.tryWait n) p).config = p.config := by
        unfold checkEntry
        split
        · rfl
        · split <;> rfl
      rw [hconfig]
      exact .refl _
  have hrestarts : ∀ names g, SameApps g.processMgr
      (final (restartAll t.launch names) g).processMgr := by
    intro names
    induction names with
    | nil => exact fun g => .refl _
    | cons name names ih =>
      intro g
      rw [run_restartAll_cons]
      exact (sameApps_restart _ name g).trans (ih _)
  rw [tick_eq]
  exact hchecked.trans (hrestarts _ _)

end Process

/-! ## The requests -/

namespace Daemon

theorem agrees_spawn (os : LaunchOs) {config : ProcessConfig} {h : Host} {table : RouteTable}
    (ha : Agrees h.processMgr table) (hpm : config.portMapping = none) :
    Agrees (final (Process.spawnProcess os config) h).processMgr table := by
  rcases Process.spawnProcess_cases os config h with
    ⟨e, t, hrun⟩ | ⟨hfree, t, t', m, -, hstart, hrun⟩
  · rw [final_of_error hrun]
    exact ha
  · rw [final_of_ok hrun]
    have hsame := (Process.startProcess_ok hstart).same
    refine ha.insert hsame.name (fun _ _ => rfl) ?_
    unfold RoutedAs
    rw [hsame.portMapping, hpm]
    exact ha.free _ hfree

/-- A run that is answered Ok enters the app and its route. -/
theorem agrees_run {os : Os} {st : DaemonState} {config : ProcessConfig}
    (ha : Agrees st.processMgr st.proxyMgr.routes)
    (hok : (Server.handleRun os st config).2.isOk = true) :
    Agrees (Server.handleRun os st config).1.processMgr
      (Server.handleRun os st config).1.proxyMgr.routes := by
  obtain ⟨c, pm, p, disk, m, hran⟩ := Server.handleRun_isOk hok
  rw [hran.processMgr, hran.routes, ← Server.runRoute_name st c pm]
  have hname : p.config.name = (Server.runRoute st c pm).name := by
    rw [hran.same.name, Server.runRoute_name]
  have hpm : p.config.portMapping = some pm := by rw [hran.same.portMapping, hran.portMapping]
  refine ha.insert_replace hname hpm ⟨Server.runRoute_port .., Server.runRoute_host .., ?_⟩
  rw [hran.same.spa]
  unfold Server.runRoute
  by_cases hspa : c.spa = true
  · rw [if_pos hspa, if_pos hspa]
    exact ⟨_, rfl⟩
  · rw [if_neg hspa, if_neg hspa]
    rfl

theorem agrees_del {st : DaemonState} (name : String)
    (ha : Agrees st.processMgr st.proxyMgr.routes) :
    Agrees (Server.handleDel st name).1.processMgr (Server.handleDel st name).1.proxyMgr.routes := by
  obtain ⟨htable, hproxy⟩ := Server.handleDel_tables st name
  rw [htable, hproxy]
  exact ha.erase name

theorem agrees_restart (os : LaunchOs) (name : String) {st : DaemonState}
    (ha : Agrees st.processMgr st.proxyMgr.routes) :
    Agrees (st.managed (Process.restart os name)).1.processMgr
      (st.managed (Process.restart os name)).1.proxyMgr.routes := by
  rw [DaemonState.managed_fst]
  exact ha.sameApps (Process.sameApps_restart os name st.toHost)

theorem agrees_restartUpdated (os : Os) (name : String) {st : DaemonState}
    (ha : Agrees st.processMgr st.proxyMgr.routes) :
    Agrees (Server.restartUpdated os st name).1.processMgr
      (Server.restartUpdated os st name).1.proxyMgr.routes := by
  have hrestart := agrees_restart (os.launch name) name ha
  unfold Server.restartUpdated
  split
  · exact ha
  · split <;> rename_i heq <;> rw [heq] at hrestart <;> exact hrestart

theorem updatedConfig_sameRoute {change : Process.ConfigChange} (image : Option (String × String))
    (h : change.portMapping = none) (c : ProcessConfig) :
    SameRoute c (Server.updatedConfig change image c) := by
  cases image <;> exact ⟨rfl, by simp [Server.updatedConfig, Process.ConfigChange.apply, h], rfl⟩

/-- The locked part of an update: with a new port mapping the route is replaced along with the
config, and without one the config asks for the same route. -/
theorem agrees_updateLocked {os : Os} {st : DaemonState} {name : String} {reroutes : Bool}
    {change : Process.ConfigChange} (image : Option (String × String))
    (hreroutes : change.portMapping.isSome = reroutes)
    (ha : Agrees st.processMgr st.proxyMgr.routes) :
    Agrees (Server.updateLocked os st name reroutes change image).1.processMgr
      (Server.updateLocked os st name reroutes change image).1.proxyMgr.routes := by
  cases hp : st.processMgr.lookup name with
  | none =>
    rw [Server.updateLocked_of_none _ change _ hp]
    exact ha
  | some p =>
    rw [Server.updateLocked_of_some reroutes change image hp]
    have hname : (Server.updatedConfig change image p.config).name = name := by
      rw [← ha.keyed name p hp]
      cases image <;> rfl
    cases hpm : change.portMapping with
    | none =>
      obtain rfl : reroutes = false := by rw [← hreroutes, hpm]; rfl
      rw [if_neg (by simp)]
      apply agrees_restartUpdated
      exact ha.sameApps (sameApps_insert hp (updatedConfig_sameRoute image hpm p.config))
    | some pm =>
      obtain rfl : reroutes = true := by rw [← hreroutes, hpm]; rfl
      rw [if_pos rfl]
      have hpm' : (Server.updatedConfig change image p.config).portMapping = some pm := by
        cases image <;> simp [Server.updatedConfig, Process.ConfigChange.apply, hpm]
      generalize Server.updatedConfig change image p.config = c at hname hpm'
      have hkeyed := ha.keyed.insert (p := { p with config := c }) hname
      have hconfig : Server.configOf (st.processMgr.insert name { p with config := c }) name =
          some c := by
        rw [Server.configOf_eq hkeyed, ProcessManager.lookup_insert, if_pos rfl]
        rfl
      rw [Server.reroute_of_some hconfig hpm']
      apply agrees_restartUpdated
      simp only [ProxyManager.listen_routes, ProxyManager.pushRoute_routes,
        ProxyManager.removeRoutes_routes]
      generalize hentry : Server.routeOf name pm (Server.updatedBackend _ c pm) = entry
      obtain rfl : entry.name = name := by rw [← hentry]; rfl
      refine ha.insert hname (fun n hn => ?_) ?_
      · rw [RouteTable.of_replace, if_neg hn, RouteTable.of_without, if_neg hn]
      · rw [RouteTable.of_replace, if_pos rfl]
        unfold RoutedAs
        rw [hpm', ← hentry]
        refine ⟨_, rfl, rfl, rfl, ?_⟩
        unfold Server.updatedBackend
        cases hspa : c.spa with
        | true => exact ⟨_, by rw [if_pos rfl]; rfl⟩
        | false => rfl

theorem agrees_update (os : Os) (name : String) (u : Server.UpdateRequest) {st : DaemonState}
    (ha : Agrees st.processMgr st.proxyMgr.routes) :
    Agrees (Server.handleUpdate os st name u).1.processMgr
      (Server.handleUpdate os st name u).1.proxyMgr.routes := by
  unfold Server.handleUpdate
  rw [DaemonState.managed_onDisk]
  cases result (Server.pullUpdate os name u.image) st.disk with
  | error e => exact ha
  | ok image =>
    dsimp only
    split
    · exact ha
    · rename_i change hchange
      obtain ⟨hport, -⟩ := Server.configChange_ok hchange
      exact agrees_updateLocked image (Server.isSome_of_mapM hport) ha

/-! ## Runs -/

/-- The events of a run: every run of an app is answered Ok, a binary has no port mapping (as
the command line guarantees), and the daemon is not killed. -/
def Allowed (st : DaemonState) : Event → Prop
  | .request os (.run config) => (Server.handleRun os st config).2.isOk = true
  | .request _ (.bin config) => config.portMapping = none
  | .request _ .kill => False
  | .request .. | .tick _ | .issued .. | .disk _ => True

instance (st : DaemonState) (e : Event) : Decidable (Allowed st e) := by
  unfold Allowed
  split <;> infer_instance

/-- The requests that touch neither of the tables. -/
def Apart (st st' : DaemonState) : Prop :=
  st'.processMgr = st.processMgr ∧ st'.proxyMgr.routes = st.proxyMgr.routes

theorem apart_save (os : Os) (st : DaemonState) : Apart st (Server.handleSave os st).1 := by
  unfold Server.handleSave DaemonState.stored
  dsimp only
  cases StateStore.save (Process.getConfigs st.processMgr)
    { st.stateStore with faults := os.storeFaults } <;> exact ⟨rfl, rfl⟩

theorem apart_link (os : Os) (st : DaemonState) (key : String) :
    Apart st (Server.handleLink os st key).1 := by
  unfold Server.handleLink DaemonState.stored
  dsimp only
  cases Cloud.saveCloudConfig key { st.stateStore with faults := os.storeFaults } <;>
    exact ⟨rfl, rfl⟩

theorem apart_unlink (os : Os) (st : DaemonState) : Apart st (Server.handleUnlink os st).1 := by
  unfold Server.handleUnlink DaemonState.stored
  dsimp only
  cases Cloud.removeCloudConfig { st.stateStore with faults := os.storeFaults } <;>
    exact ⟨rfl, rfl⟩

theorem apart_set (os : Os) (st : DaemonState) (key value : String) :
    Apart st (Server.handleSet os st key value).1 := by
  obtain ⟨cache, disk, hset⟩ := Server.handleSet_fst os st key value
  rw [hset]
  exact ⟨rfl, rfl⟩

theorem Apart.agrees {st st' : DaemonState} (h : Apart st st')
    (ha : Agrees st.processMgr st.proxyMgr.routes) : Agrees st'.processMgr st'.proxyMgr.routes := by
  rw [h.1, h.2]
  exact ha

/-- The route table and the process table agree. -/
structure TablesAgree (st : DaemonState) : Prop where
  registered : ∀ r ∈ st.proxyMgr.routes, ∃ p, st.processMgr.lookup r.name = some p
  routed : ∀ n p pm, st.processMgr.lookup n = some p → p.config.portMapping = some pm →
    ∃ r, st.proxyMgr.routes.of n = [r] ∧ Serves r p.config pm
  unrouted : ∀ n p, st.processMgr.lookup n = some p → p.config.portMapping = none →
    st.proxyMgr.routes.of n = []

theorem tablesAgree_of_agrees {st : DaemonState} (ha : Agrees st.processMgr st.proxyMgr.routes) :
    TablesAgree st := by
  refine ⟨fun r hr => ?_, fun n p pm hp hpm => ?_, fun n p hp hpm => ?_⟩
  · cases hp : st.processMgr.lookup r.name with
    | some p => exact ⟨p, rfl⟩
    | none =>
      have hmem : r ∈ st.proxyMgr.routes.of r.name := by simp [RouteTable.of, hr]
      rw [ha.free _ hp] at hmem
      cases hmem
  · have hr := ha.routed n p hp
    unfold RoutedAs at hr
    rw [hpm] at hr
    exact hr
  · have hr := ha.routed n p hp
    unfold RoutedAs at hr
    rw [hpm] at hr
    exact hr

theorem agrees_step {st : DaemonState} {e : Event} (ha : Agrees st.processMgr st.proxyMgr.routes)
    (he : Allowed st e) :
    Agrees (machine.next st e).processMgr (machine.next st e).proxyMgr.routes := by
  cases e with
  | tick os =>
    change Agrees (st.managed _).1.processMgr (st.managed _).1.proxyMgr.routes
    rw [DaemonState.managed_fst]
    exact ha.sameApps (Process.sameApps_tick st.toHost ⟨os.launch, os.tryWait⟩)
  | issued hostname cert => exact ha
  | disk t => exact ha
  | request os r =>
    cases r with
    | bin config =>
      change Agrees (st.managed _).1.processMgr (st.managed _).1.proxyMgr.routes
      rw [DaemonState.managed_fst]
      exact agrees_spawn (os.launch config.name) (h := st.toHost) ha he
    | run config => exact agrees_run ha he
    | ls => exact ha
    | del name => exact agrees_del name ha
    | restart name => exact agrees_restart (os.launch name) name ha
    | reload name => exact agrees_restart (os.launch name) name ha
    | update name port ssl acme envFile args image => exact agrees_update os name _ ha
    | logs name lines =>
      have hstep : (machine.next st (.request os (.logs name lines))) = st := by
        change (Server.handleRequest os st (.logs name lines)).1 = st
        unfold Server.handleRequest
        dsimp only
        split <;> rfl
      rw [hstep]
      exact ha
    | set key value => exact (apart_set os st key value).agrees ha
    | «export» => exact ha
    | save => exact (apart_save os st).agrees ha
    | kill => cases he
    | link apiKey => exact (apart_link os st apiKey).agrees ha
    | unlink => exact (apart_unlink os st).agrees ha
    | metricsEnable port => exact ha
    | metricsDisable => exact ha

/-- In every state that a run reaches from an empty daemon, the route table and the process
table agree. -/
theorem reachable_tablesAgree (store : StateStore) (disk : FileTree) (events : List Event)
    (h : machine.Along Allowed (.initial store disk) events) :
    TablesAgree (machine.run (.initial store disk) events) := by
  refine tablesAgree_of_agrees (Machine.run_invariant
    (P := fun st => Agrees st.processMgr st.proxyMgr.routes) (fun st e => agrees_step) ?_ h)
  refine ⟨fun n _ => rfl, fun n p hp => ?_, fun n p hp => ?_⟩ <;> cases hp

/-- An app that is run, moved to another port and restarted by the health checker. -/
def webEvents : List Event :=
  let config := { ProcessConfig.plain "web" "server" with
    mode := .run, portMapping := some { host := none, publicPort := 80, appPort := some 3000 } }
  [.request (.serving 7 4000) (.run config),
    .request (.serving 8 4000) (.update "web" (some "81:3001") none none none none none),
    .tick { Os.serving 9 4000 with tryWait := fun _ => .exited false }]

theorem reachable_tablesAgree_web :
    TablesAgree (machine.run (.initial .empty .empty) webEvents) :=
  reachable_tablesAgree .empty .empty webEvents (by decide +kernel)

end Daemon
