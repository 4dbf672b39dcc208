import NylonRun.Lib.Arrivals
import NylonRun.Lib.Simulation
import NylonRun.Isolation
import NylonRun.Reroutes

/-!
# Whom the route table chooses

The requests of clients reach the proxy manager only through its own operations, so that every run
of the daemon is one of these. Its route table is a line in which an app waits for the requests of
a port and a host: whoever runs or gets a new port goes to the end. For a request the table chooses
the app that waits for its host, or one that waits for any host if there is none, and among several
the one that has been there longest. Not every request gets to the chosen backend: a port may be
dead, and a challenge or an answer in the cache needs none (src/proxy.rs:111-206).
-/

open UnixPath FileTree Effect

/-- What happens to a proxy manager. -/
inductive ManagerInput where
  | call (c : ProxyManager.Call)
  | setCacheTtl (secs : Nat)
  /-- A certificate that was ordered comes to the store. -/
  | issued (hostname : String) (cert : TlsCertificate)

namespace ProxyManager

def input (m : ProxyManager) : ManagerInput → ProxyManager
  | .call c => (m.call c).1
  | .setCacheTtl secs => (m.setCacheTtl secs).getD m
  | .issued hostname cert => { m with certStore := m.certStore.put hostname cert }

/-- A proxy manager on its own. -/
def inputs : Machine ProxyManager ManagerInput Unit := ⟨fun m i => (m.input i, ())⟩

end ProxyManager

namespace Daemon

variable {os : Os} {st : DaemonState} {name : String}

/-- A run adds the route of its app when the directory is there, or when the child has started
(src/server.rs:515-582). -/
def runInputs (os : Os) (st : DaemonState) (config : ProcessConfig) : List ManagerInput :=
  match Server.prepareRun os config with
  | .error _ => []
  | .ok (c, pm) =>
    if c.spa then
      if st.disk.isDir c.path then
        [.call (.addRouteWithTls os st.disk (Server.spaRoute st c pm) c.ssl)]
      else []
    else
      match Process.spawnProcess (os.launch c.name) c st.toHost with
      | .ok _ h => [.call (.addRouteWithTls os h.disk (Server.processRoute c pm) c.ssl)]
      | .error _ _ => []

/-- The new route of an updated app, if it has a port mapping (src/server.rs:357-378). -/
def rerouteInputs (os : Os) (t : FileTree) (name : String) :
    Option ProcessConfig → List ManagerInput
  | none => []
  | some config =>
    (config.portMapping.map fun pm =>
      ManagerInput.call (.addRoute os t
        (Server.routeOf name pm (Server.updatedBackend t config pm)))).toList

/-- The locked part of an update takes the routes of its app away and adds the new one, if it has
a port (src/server.rs:352-378). -/
def lockedInputs (os : Os) (st : DaemonState) (name : String) (reroutes : Bool)
    (change : Process.ConfigChange) (image : Option (String × String)) : List ManagerInput :=
  match st.processMgr.lookup name with
  | none => []
  | some p =>
    if reroutes then
      .call (.removeRoutes name) :: rerouteInputs os st.disk name (Server.configOf
        (st.processMgr.insert name
          { p with config := Server.updatedConfig change image p.config }) name)
    else []

def updateInputs (os : Os) (st : DaemonState) (name : String) (u : Server.UpdateRequest) :
    List ManagerInput :=
  match result (Server.pullUpdate os name u.image) st.disk with
  | .error _ => []
  | .ok image =>
    let t := final (Server.pullUpdate os name u.image) st.disk
    match Server.configChange os t u with
    | .error _ => []
    | .ok change => lockedInputs os { st with disk := t } name u.port.isSome change image

/-- What an event does to the proxy manager. -/
def inputsOf (st : DaemonState) : Event → List ManagerInput
  | .request os (.run config) => runInputs os st config
  | .request _ (.del name) => [.call (.removeRoutes name)]
  | .request os (.update name port ssl acme envFile args image) =>
    updateInputs os st name ⟨port, ssl, acme, envFile, args, image⟩
  | .request _ (.set key value) =>
    if key = "cache-ttl" then ((Text.parseUnsigned 64 value).map .setCacheTtl).toList else []
  | .issued hostname cert => [.issued hostname cert]
  | .request .. | .tick _ | .disk _ => []

theorem proxyMgr_managed {α : Type} (st : DaemonState) (x : Managed α) :
    (st.managed x).1.proxyMgr = st.proxyMgr := by
  rw [DaemonState.managed_fst]

theorem proxyMgr_runSpa (config : ProcessConfig) (pm : PortMapping) :
    (Server.runSpa os st config pm).1.proxyMgr = if st.disk.isDir config.path then
      (st.proxyMgr.addRouteWithTls os st.disk (Server.spaRoute st config pm) config.ssl).1
      else st.proxyMgr := by
  unfold Server.runSpa Server.spaRoute
  by_cases hdir : st.disk.isDir config.path = true
  · rw [if_neg (by simpa using hdir), if_pos hdir]
    dsimp only
    split
    · rename_i m e heq
      rw [heq]
    · rename_i m heq
      rw [heq]
      dsimp only
      have hmanaged := proxyMgr_managed { st with proxyMgr := m } (Process.registerSpa config)
      split <;> rename_i heq' <;> rw [heq'] at hmanaged
      · exact hmanaged
      · rw [Server.registerAcme_proxyMgr]
        exact hmanaged
  · rw [if_pos (by simpa using hdir), if_neg hdir]

theorem proxyMgr_runProcess (config : ProcessConfig) (pm : PortMapping) :
    (Server.runProcess os st config pm).1.proxyMgr =
      match Process.spawnProcess (os.launch config.name) config st.toHost with
      | .ok _ h =>
        (st.proxyMgr.addRouteWithTls os h.disk (Server.processRoute config pm) config.ssl).1
      | .error _ _ => st.proxyMgr := by
  cases hspawn : Process.spawnProcess (os.launch config.name) config st.toHost with
  | error e h => rw [Server.runProcess, DaemonState.managed_error hspawn]
  | ok msg h =>
    rw [Server.runProcess, DaemonState.managed_ok hspawn]
    unfold Server.processRoute
    dsimp only
    split
    · rename_i m e heq
      rw [heq]
      exact proxyMgr_managed _ _
    · rename_i m heq
      rw [heq, Server.registerAcme_proxyMgr]

theorem proxyMgr_run (config : ProcessConfig) : (Server.handleRun os st config).1.proxyMgr =
    ProxyManager.inputs.run st.proxyMgr (runInputs os st config) := by
  unfold Server.handleRun runInputs
  cases Server.prepareRun os config with
  | error e => rfl
  | ok cpm =>
    obtain ⟨c, pm⟩ := cpm
    dsimp only
    split
    · rw [proxyMgr_runSpa]
      split <;> rfl
    · rw [proxyMgr_runProcess]
      split <;> rfl

theorem proxyMgr_restartUpdated (name : String) :
    (Server.restartUpdated os st name).1.proxyMgr = st.proxyMgr := by
  have hrestart := proxyMgr_managed st (Process.restart (os.launch name) name)
  unfold Server.restartUpdated
  split
  · rfl
  · split <;> rename_i heq <;> rw [heq] at hrestart <;> exact hrestart

theorem reroute_inputs (name : String) (old : ProcessConfig) :
    Server.reroute os st name old = ({ st with
      proxyMgr := ProxyManager.inputs.run (st.proxyMgr.removeRoutes name)
        (rerouteInputs os st.disk name (Server.configOf st.processMgr name)) }, .ok ()) := by
  unfold Server.reroute
  dsimp only
  cases Server.configOf st.processMgr name with
  | none => rfl
  | some config =>
    unfold rerouteInputs
    cases hpm : config.portMapping with
    | none => simp only [hpm]; rfl
    | some pm => simp only [hpm, ProxyManager.addRoute_eq]; rfl

theorem proxyMgr_updateLocked (name : String) (reroutes : Bool) (change : Process.ConfigChange)
    (image : Option (String × String)) :
    (Server.updateLocked os st name reroutes change image).1.proxyMgr =
      ProxyManager.inputs.run st.proxyMgr (lockedInputs os st name reroutes change image) := by
  unfold lockedInputs
  cases hp : st.processMgr.lookup name with
  | none =>
    rw [Server.updateLocked_of_none _ change _ hp]
    rfl
  | some p =>
    rw [Server.updateLocked_of_some reroutes change image hp]
    dsimp only
    cases reroutes with
    | false =>
      rw [if_neg Bool.false_ne_true, if_neg Bool.false_ne_true, proxyMgr_restartUpdated]
      rfl
    | true =>
      rw [if_pos rfl, if_pos rfl, reroute_inputs]
      dsimp only
      rw [proxyMgr_restartUpdated]
      rfl

theorem proxyMgr_update (name : String) (u : Server.UpdateRequest) :
    (Server.handleUpdate os st name u).1.proxyMgr =
      ProxyManager.inputs.run st.proxyMgr (updateInputs os st name u) := by
  unfold Server.handleUpdate updateInputs
  rw [DaemonState.managed_onDisk]
  cases result (Server.pullUpdate os name u.image) st.disk with
  | error e => rfl
  | ok image =>
    dsimp only
    cases Server.configChange os (final (Server.pullUpdate os name u.image) st.disk) u with
    | error e => rfl
    | ok change =>
      generalize hpulled : ({ st with disk := _ } : DaemonState) = st'
      have hsame : st.proxyMgr = st'.proxyMgr := hpulled ▸ rfl
      rw [hsame]
      exact proxyMgr_updateLocked name u.port.isSome change image

theorem proxyMgr_set (key value : String) : (Server.handleSet os st key value).1.proxyMgr =
    ProxyManager.inputs.run st.proxyMgr
      (if key = "cache-ttl" then ((Text.parseUnsigned 64 value).map ManagerInput.setCacheTtl).toList
        else []) := by
  unfold Server.handleSet
  split
  · cases Text.parseUnsigned 64 value with
    | none => rfl
    | some secs =>
      change _ = (st.proxyMgr.setCacheTtl secs).getD st.proxyMgr
      dsimp only
      cases st.proxyMgr.setCacheTtl secs <;> rfl
  · split
    · have hmanaged := proxyMgr_managed st (Process.onDisk
        (Oci.saveDefaultRegistry os.prePull.parseJson os.prettyJson value))
      split <;> rename_i heq <;> rw [heq] at hmanaged <;> exact hmanaged
    · rfl

/-- The proxy manager of a daemon, seen from outside, is a proxy manager on its own. -/
theorem simulates_manager :
    machine.Simulates ProxyManager.inputs DaemonState.proxyMgr inputsOf := by
  intro st e
  cases e with
  | tick os => exact proxyMgr_managed st _
  | issued hostname cert => rfl
  | disk t => rfl
  | request os r =>
    cases r with
    | bin config => exact proxyMgr_managed st _
    | run config => exact proxyMgr_run config
    | ls => rfl
    | del name => exact (Server.handleDel_tables st name).2
    | restart name | reload name => exact proxyMgr_managed st _
    | update name port ssl acme envFile args image => exact proxyMgr_update name _
    | logs name lines =>
      change (Server.handleRequest os st (.logs name lines)).1.proxyMgr = _
      unfold Server.handleRequest
      dsimp only
      split <;> rfl
    | set key value => exact proxyMgr_set key value
    | «export» => rfl
    | save =>
      change (Server.handleSave os st).1.proxyMgr = _
      rw [Server.handleSave_fst]
      rfl
    | kill =>
      change (Server.handleKill os st).1.proxyMgr = _
      unfold Server.handleKill
      dsimp only
      rw [DaemonState.stored_fst, DaemonState.managed_fst]
      rfl
    | link apiKey =>
      change (Server.handleLink os st apiKey).1.proxyMgr = _
      obtain ⟨shutdown, hlink⟩ := Server.handleLink_fst os st apiKey
      rw [hlink]
      rfl
    | unlink =>
      change (Server.handleUnlink os st).1.proxyMgr = _
      rw [Server.handleUnlink_fst]
      rfl
    | metricsEnable port => rfl
    | metricsDisable => rfl

end Daemon

/-! ## The line of the route table -/

namespace ProxyManager

/-- Who waits in the route table since when: a route that is added puts its app at the end, also
when the certificate does not load. -/
def registered (reg : Register String RouteEntry) : ManagerInput → Register String RouteEntry
  | .call (.addRoute _ _ entry) | .call (.addRouteWithTls _ _ entry _) =>
    reg.enter entry.name entry
  | .call (.removeRoutes name) => reg.leave name
  | .setCacheTtl _ | .issued _ _ => reg

/-- The routes that can be chosen for a request: those of its port with its host, and then those of
its port with none. -/
def wishes (r : HttpRequest) : List (RouteEntry → Bool) :=
  ((NyrunProxy.extractHost r).toList.map fun h entry =>
    decide (entry.port = r.listenPort) && decide (entry.host = some h)) ++
  [fun entry => decide (entry.port = r.listenPort) && decide (entry.host = none)]

variable {m : ProxyManager} {reg : Register String RouteEntry}

theorem lines_input (h : reg.Lines RouteEntry.name m.routes) (i : ManagerInput) :
    (registered reg i).Lines RouteEntry.name (m.input i).routes := by
  cases i with
  | setCacheTtl secs => rwa [ProxyManager.input, setCacheTtl_routes]
  | issued hostname cert => exact h
  | call c =>
    cases c with
    | removeRoutes name => exact h.leave name
    | addRoute os disk entry =>
      change Register.Lines _ _ (m.addRoute os disk entry).1.routes
      rw [addRoute_eq, listen_routes]
      exact h.enter entry
    | addRouteWithTls os disk entry ssl =>
      change Register.Lines _ _ (m.addRouteWithTls os disk entry ssl).1.routes
      rw [addRouteWithTls_routes]
      exact h.enter entry

theorem lines_inputs (h : reg.Lines RouteEntry.name m.routes) (is : List ManagerInput) :
    (is.foldl registered reg).Lines RouteEntry.name (inputs.run m is).routes := by
  induction is generalizing reg m with
  | nil => exact h
  | cons i is ih => exact ih (lines_input h i)

theorem find_eq_firstOf (table : RouteTable) (r : HttpRequest) :
    table.find r.listenPort (NyrunProxy.extractHost r) = Register.firstOf (wishes r) table := by
  have hfilter : ∀ p q : RouteEntry → Bool,
      (table.filter p).find? q = table.find? fun entry => p entry && q entry := by
    intro p q
    simp [List.find?_filter]
  unfold RouteTable.find Register.firstOf wishes
  dsimp only
  rw [List.findSome?_append, List.findSome?_singleton, hfilter]
  cases NyrunProxy.extractHost r with
  | none => rfl
  | some h =>
    rw [Option.bind_some, Option.toList_some, List.map_singleton, List.findSome?_singleton, hfilter]

end ProxyManager

namespace Daemon

/-- In every run of the daemon, the route table chooses for a request the backend of the app that,
by the routes added and taken away until then, is registered for its port and its host, or for its
port and no host if there is none, and of several that of the one registered longest. -/
theorem routed_to_first_registered (store : StateStore) (disk : FileTree) (events : List Event)
    (challenges : Dict String String) (r : HttpRequest) (backend : Backend) :
    ((machine.run (.initial store disk) events).proxyMgr.proxy challenges).backendOf r =
        some backend ↔
      ∃ name entry, ((machine.traces inputsOf (.initial store disk) events).foldl
          ProxyManager.registered .empty).Best (Register.rankOf (ProxyManager.wishes r)) name entry ∧
        entry.backend = backend := by
  have hlines := ProxyManager.lines_inputs (m := .new) (Register.lines_empty)
    (machine.traces inputsOf (.initial store disk) events)
  have hrun : (machine.run (.initial store disk) events).proxyMgr =
      ProxyManager.inputs.run .new (machine.traces inputsOf (.initial store disk) events) :=
    simulates_manager.run
  rw [← hrun] at hlines
  generalize machine.run (.initial store disk) events = st at hlines
  generalize (machine.traces inputsOf (.initial store disk) events).foldl
    ProxyManager.registered .empty = reg at hlines
  change (st.proxyMgr.routes.find r.listenPort (NyrunProxy.extractHost r)).map RouteEntry.backend =
    some backend ↔ _
  rw [ProxyManager.find_eq_firstOf, Option.map_eq_some_iff]
  constructor
  · rintro ⟨entry, hfirst, hbackend⟩
    exact ⟨entry.name, entry, hlines.firstOf_eq_some_iff.1 hfirst, hbackend⟩
  · rintro ⟨name, entry, hbest, hbackend⟩
    have hentered : ∃ t, _ := hbest.imp fun t h => h.elim fun _ h => h.1
    obtain ⟨t, hentry⟩ := hentered
    obtain rfl := hlines.own name t entry hentry
    exact ⟨entry, hlines.firstOf_eq_some_iff.2 hbest, hbackend⟩

end Daemon
