import NylonRun.Daemon
import NylonRun.Process.Launch

/-!
# What the handlers do

One statement for each part of a handler: the outcomes it can have, and the state each of them
leaves. What is proved of the daemon follows from these.
-/

open UnixPath FileTree Effect

namespace DaemonState

variable {α : Type} {st : DaemonState} {x : Managed α} {h : Host}

theorem managed_ok {a : α} (hx : x st.toHost = .ok a h) :
    st.managed x = ({ st with toHost := h }, .ok a) := by
  rw [managed, hx]

theorem managed_error {e : String} (hx : x st.toHost = .error e h) :
    st.managed x = ({ st with toHost := h }, .error e) := by
  rw [managed, hx]

/-- A program of the disk leaves everything else in the daemon alone. -/
theorem managed_onDisk (st : DaemonState) (x : Fs α) :
    st.managed (Process.onDisk x) = ({ st with disk := final x st.disk }, result x st.disk) := by
  unfold managed Process.onDisk final result
  cases x st.toHost.disk <;> rfl

theorem managed_fst (st : DaemonState) (x : Managed α) :
    (st.managed x).1 = { st with toHost := final x st.toHost } := by
  unfold managed final
  cases x st.toHost <;> rfl

theorem stored_fst (st : DaemonState) (x : Storage α) :
    (st.stored x).1 = { st with stateStore := final x st.stateStore } := by
  unfold stored final
  cases x st.stateStore <;> rfl

end DaemonState

namespace Server

/-! ### The requests that go to the store -/

theorem handleSave_fst (os : Os) (st : DaemonState) : (handleSave os st).1 = { st with
    stateStore := final (StateStore.save (Process.getConfigs st.processMgr))
      { st.stateStore with faults := os.storeFaults } } := by
  have hstored := DaemonState.stored_fst { st with stateStore.faults := os.storeFaults }
    (StateStore.save (Process.getConfigs st.processMgr))
  unfold handleSave
  dsimp only
  split <;> rename_i heq <;> rw [heq] at hstored <;> exact hstored

theorem handleLink_fst (os : Os) (st : DaemonState) (key : String) :
    ∃ shutdown, (handleLink os st key).1 = { st with
      stateStore := final (Cloud.saveCloudConfig key)
        { st.stateStore with faults := os.storeFaults }
      cloudShutdown := shutdown } := by
  have hstored := DaemonState.stored_fst { st with stateStore.faults := os.storeFaults }
    (Cloud.saveCloudConfig key)
  unfold handleLink
  dsimp only
  split <;> rename_i heq <;> rw [heq] at hstored <;> subst hstored
  · exact ⟨st.cloudShutdown, rfl⟩
  · exact ⟨some key, rfl⟩

theorem handleUnlink_fst (os : Os) (st : DaemonState) : (handleUnlink os st).1 = { st with
    stateStore := final Cloud.removeCloudConfig { st.stateStore with faults := os.storeFaults }
    cloudShutdown := none } := by
  have hstored := DaemonState.stored_fst
    { st with cloudShutdown := none, stateStore.faults := os.storeFaults } Cloud.removeCloudConfig
  unfold handleUnlink
  dsimp only
  split <;> rename_i heq <;> rw [heq] at hstored <;> exact hstored

/-- A setting changes the cache of the proxy manager, or the disk, and nothing else. -/
theorem handleSet_fst (os : Os) (st : DaemonState) (key value : String) :
    ∃ cache disk, (handleSet os st key value).1 = { st with
      disk := disk
      proxyMgr := { st.proxyMgr with cache := cache } } := by
  unfold handleSet
  split
  · cases Text.parseUnsigned 64 value with
    | none => exact ⟨_, _, rfl⟩
    | some secs =>
      dsimp only
      unfold ProxyManager.setCacheTtl
      split
      · rename_i m hset
        split at hset
        · cases hset
          exact ⟨_, _, rfl⟩
        · cases hset
      · exact ⟨_, _, rfl⟩
  · split
    · rw [DaemonState.managed_onDisk]
      rcases result (Oci.saveDefaultRegistry os.prePull.parseJson os.prettyJson value) st.disk with
        e | _ | _ <;> exact ⟨_, _, rfl⟩
    · exact ⟨_, _, rfl⟩

/-- The check that ends the preparation of a run (src/server.rs:508-513). -/
theorem acme_check {c c' : ProcessConfig} {pm pm' : PortMapping}
    (h : (if c.acme.isSome ∧ pm.host.isNone then do
        throw "ACME requires host-based port mapping (e.g. --p domain.com:443:8000)"
        return (c, pm)
      else return (c, pm) : Except String (ProcessConfig × PortMapping)) = .ok (c', pm')) :
    c' = c ∧ pm' = pm ∧ (c.acme.isSome = true → pm.host.isSome = true) := by
  split at h
  · cases h
  · rename_i hacme
    cases h
    refine ⟨rfl, rfl, fun hsome => ?_⟩
    rcases hhost : pm.host with _ | host
    · exact absurd ⟨hsome, by rw [hhost]; rfl⟩ hacme
    · rfl

/-- The config that a run sets up is the one asked for, with the port remapped if needed. -/
theorem prepareRun_ok {os : Os} {config c : ProcessConfig} {pm : PortMapping}
    (h : prepareRun os config = .ok (c, pm)) :
    ∃ pm₀, config.portMapping = some pm₀ ∧ (config.acme.isSome = true → pm₀.host.isSome = true) ∧
      ((needsRemap pm₀ = true ∧ ∃ autoPort, os.freePort = .ok autoPort ∧
          c = remap autoPort pm₀ config ∧ pm = { pm₀ with appPort := some autoPort }) ∨
        (needsRemap pm₀ = false ∧ c = config ∧ pm = pm₀)) := by
  unfold prepareRun at h
  cases hpm : config.portMapping with
  | none => rw [hpm] at h; cases h
  | some pm₀ =>
    refine ⟨pm₀, rfl, ?_⟩
    rw [hpm] at h
    cases hremap : needsRemap pm₀ with
    | false =>
      simp only [hremap, Bool.false_eq_true, if_false] at h
      obtain ⟨rfl, rfl, hacme⟩ := acme_check h
      exact ⟨hacme, .inr ⟨rfl, rfl, rfl⟩⟩
    | true =>
      simp only [hremap, if_true] at h
      cases hport : os.freePort with
      | error e => rw [hport] at h; cases h
      | ok autoPort =>
        rw [hport] at h
        obtain ⟨rfl, rfl, hacme⟩ := acme_check h
        exact ⟨hacme, .inl ⟨rfl, autoPort, rfl, rfl, rfl⟩⟩

/-- What every run sets up, remapped or not. -/
theorem prepareRun_same {os : Os} {config c : ProcessConfig} {pm : PortMapping}
    (h : prepareRun os config = .ok (c, pm)) :
    c.name = config.name ∧ c.portMapping = some pm ∧ c.spa = config.spa := by
  obtain ⟨pm₀, hpm, -, ⟨-, autoPort, -, rfl, rfl⟩ | ⟨-, rfl, rfl⟩⟩ := prepareRun_ok h
  · exact ⟨rfl, rfl, rfl⟩
  · exact ⟨rfl, hpm, rfl⟩

/-- What of the request a run sets up as asked. -/
theorem prepareRun_asked {os : Os} {config c : ProcessConfig} {pm : PortMapping}
    (h : prepareRun os config = .ok (c, pm)) :
    c.ssl = config.ssl ∧ c.acme = config.acme ∧
      ∃ pm₀, config.portMapping = some pm₀ ∧ pm.publicPort = pm₀.publicPort ∧
        pm.host = pm₀.host := by
  obtain ⟨pm₀, hpm, -, ⟨-, autoPort, -, rfl, rfl⟩ | ⟨-, rfl, rfl⟩⟩ := prepareRun_ok h
  · exact ⟨rfl, rfl, pm₀, hpm, rfl, rfl⟩
  · exact ⟨rfl, rfl, pm, hpm, rfl, rfl⟩

@[simp] theorem registerAcme_toHost (st : DaemonState) (acme : Option String) (pm : PortMapping) :
    (registerAcme st acme pm).toHost = st.toHost := by
  unfold registerAcme spawnAcmeIssue
  split
  · split <;> rfl
  · rfl

@[simp] theorem registerAcme_proxyMgr (st : DaemonState) (acme : Option String) (pm : PortMapping) :
    (registerAcme st acme pm).proxyMgr = st.proxyMgr := by
  unfold registerAcme spawnAcmeIssue
  split
  · split <;> rfl
  · rfl

/-! ### A run in SPA mode -/

section

variable {os : Os} {st : DaemonState} {config : ProcessConfig} {pm : PortMapping}

/-- The route of an SPA. -/
def spaRoute (st : DaemonState) (config : ProcessConfig) (pm : PortMapping) : RouteEntry :=
  routeOf config.name pm (spaBackend st.disk config.path)

theorem runSpa_of_not_dir (hdir : st.disk.isDir config.path = false) :
    runSpa os st config pm = (st, .error s!"'{config.path}' is not a directory") := by
  rw [runSpa, if_pos (by simp [hdir])]

theorem runSpa_of_tls {e : String} (hdir : st.disk.isDir config.path = true)
    (hload : (st.proxyMgr.pushRoute (spaRoute st config pm)).loadTls os st.disk
      (spaRoute st config pm) config.ssl = .error e) :
    runSpa os st config pm =
      ({ st with proxyMgr := st.proxyMgr.pushRoute (spaRoute st config pm) }, .error e) := by
  have hadd := ProxyManager.addRouteWithTls_error hload
  rw [spaRoute] at hadd
  rw [runSpa, if_neg (by simp [hdir])]
  simp only [hadd, spaRoute]

variable {m : ProxyManager}

theorem runSpa_of_registered (hdir : st.disk.isDir config.path = true)
    (hload : (st.proxyMgr.pushRoute (spaRoute st config pm)).loadTls os st.disk
      (spaRoute st config pm) config.ssl = .ok m)
    (hold : (st.processMgr.lookup config.name).isSome = true) :
    runSpa os st config pm = ({ st with proxyMgr := m.listen pm.publicPort },
      .error s!"process '{config.name}' already exists") := by
  have hadd := ProxyManager.addRouteWithTls_ok hload
  rw [spaRoute] at hadd
  rw [runSpa, if_neg (by simp [hdir])]
  simp only [hadd]
  have hreg : ({ st with proxyMgr := m.listen pm.publicPort } : DaemonState).managed
      (Process.registerSpa config) = ({ st with proxyMgr := m.listen pm.publicPort }, .error _) :=
    DaemonState.managed_error (Process.registerSpa_of_some hold)
  simp only [routeOf, hreg]

theorem runSpa_ok (hdir : st.disk.isDir config.path = true)
    (hload : (st.proxyMgr.pushRoute (spaRoute st config pm)).loadTls os st.disk
      (spaRoute st config pm) config.ssl = .ok m)
    (hold : st.processMgr.lookup config.name = none) :
    runSpa os st config pm = (registerAcme { st with
        processMgr := st.processMgr.insert config.name (Process.spaProcess config)
        proxyMgr := m.listen pm.publicPort } config.acme pm,
      .ok s!"SPA '{config.name}' serving on port {pm.publicPort}") := by
  have hadd := ProxyManager.addRouteWithTls_ok hload
  rw [spaRoute] at hadd
  rw [runSpa, if_neg (by simp [hdir])]
  simp only [hadd]
  have hreg : ({ st with proxyMgr := m.listen pm.publicPort } : DaemonState).managed
      (Process.registerSpa config) = ({ st with
        processMgr := st.processMgr.insert config.name (Process.spaProcess config)
        proxyMgr := m.listen pm.publicPort }, .ok _) :=
    DaemonState.managed_ok (Process.registerSpa_of_none hold)
  simp only [routeOf, hreg]

/-- A run in SPA mode that succeeds has found a directory, loaded the certificate asked for and
a free name. -/
theorem runSpa_isOk (hok : (runSpa os st config pm).2.isOk = true) :
    st.disk.isDir config.path = true ∧ st.processMgr.lookup config.name = none ∧
      ∃ m, (st.proxyMgr.pushRoute (spaRoute st config pm)).loadTls os st.disk
        (spaRoute st config pm) config.ssl = .ok m := by
  cases hdir : st.disk.isDir config.path with
  | false => rw [runSpa_of_not_dir hdir] at hok; cases hok
  | true =>
    cases hload : (st.proxyMgr.pushRoute (spaRoute st config pm)).loadTls os st.disk
        (spaRoute st config pm) config.ssl with
    | error e => rw [runSpa_of_tls hdir hload] at hok; cases hok
    | ok m =>
      cases hold : st.processMgr.lookup config.name with
      | some p => rw [runSpa_of_registered hdir hload (by rw [hold]; rfl)] at hok; cases hok
      | none => exact ⟨rfl, rfl, m, rfl⟩

end

/-! ### A run of a process -/

section

variable {os : Os} {st : DaemonState} {config : ProcessConfig} {pm : PortMapping} {h : Host}

/-- The route of a proxied app. -/
def processRoute (config : ProcessConfig) (pm : PortMapping) : RouteEntry :=
  routeOf config.name pm (proxyBackend pm)

theorem runProcess_of_spawn {e : String}
    (hspawn : Process.spawnProcess (os.launch config.name) config st.toHost = .error e h) :
    runProcess os st config pm = ({ st with toHost := h }, .error e) := by
  rw [runProcess, DaemonState.managed_error hspawn]

theorem runProcess_of_tls {msg e : String} {p : ManagedProcess}
    (hspawn : Process.spawnProcess (os.launch config.name) config st.toHost = .ok msg h)
    (hload : (st.proxyMgr.pushRoute (processRoute config pm)).loadTls os h.disk
      (processRoute config pm) config.ssl = .error e)
    (hp : h.processMgr.lookup config.name = some p) :
    ∃ t, runProcess os st config pm = ({ st with
      processMgr := h.processMgr.erase config.name
      disk := t
      proxyMgr := st.proxyMgr.pushRoute (processRoute config pm) },
        .error s!"proxy setup failed: {e}") := by
  have hadd := ProxyManager.addRouteWithTls_error hload
  rw [processRoute] at hadd
  obtain ⟨t, hdelete⟩ := Process.delete_of_some hp
  refine ⟨t, ?_⟩
  rw [runProcess, DaemonState.managed_ok hspawn]
  simp only [hadd, DaemonState.managed_fst, final_of_ok hdelete, processRoute]

theorem runProcess_ok {msg : String} {m : ProxyManager}
    (hspawn : Process.spawnProcess (os.launch config.name) config st.toHost = .ok msg h)
    (hload : (st.proxyMgr.pushRoute (processRoute config pm)).loadTls os h.disk
      (processRoute config pm) config.ssl = .ok m) :
    runProcess os st config pm = (registerAcme { st with
        toHost := h
        proxyMgr := m.listen pm.publicPort } config.acme pm,
      .ok s!"{msg} (proxy {portInfo pm})") := by
  have hadd := ProxyManager.addRouteWithTls_ok hload
  rw [processRoute] at hadd
  rw [runProcess, DaemonState.managed_ok hspawn]
  simp only [hadd]
  rfl

end

/-- A successful launch enters the app in the table. -/
theorem lookup_spawned {os : LaunchOs} {config : ProcessConfig} {h h' : Host} {msg : String}
    (hspawn : Process.spawnProcess os config h = .ok msg h') :
    h.processMgr.lookup config.name = none ∧ ∃ p, Process.SameApp config p.config ∧
      h'.processMgr = h.processMgr.insert config.name p := by
  rcases Process.spawnProcess_cases os config h with
    ⟨e, t, hrun⟩ | ⟨hfree, t, t', m, -, hstart, hrun⟩
  · rw [hrun] at hspawn
    cases hspawn
  · rw [hrun] at hspawn
    cases hspawn
    exact ⟨hfree, m, (Process.startProcess_ok hstart).same, rfl⟩

/-- A run of a process that succeeds has launched it and loaded the certificate asked for. -/
theorem runProcess_isOk {os : Os} {st : DaemonState} {config : ProcessConfig} {pm : PortMapping}
    (hok : (runProcess os st config pm).2.isOk = true) :
    ∃ msg h m, Process.spawnProcess (os.launch config.name) config st.toHost = .ok msg h ∧
      (st.proxyMgr.pushRoute (processRoute config pm)).loadTls os h.disk
        (processRoute config pm) config.ssl = .ok m := by
  cases hspawn : Process.spawnProcess (os.launch config.name) config st.toHost with
  | error e h => rw [runProcess_of_spawn hspawn] at hok; cases hok
  | ok msg h =>
    cases hload : (st.proxyMgr.pushRoute (processRoute config pm)).loadTls os h.disk
        (processRoute config pm) config.ssl with
    | error e =>
      obtain ⟨-, p, -, htable⟩ := lookup_spawned hspawn
      obtain ⟨t, hrun⟩ := runProcess_of_tls (p := p) hspawn hload (by rw [htable]; simp)
      rw [hrun] at hok
      cases hok
    | ok m => exact ⟨msg, h, m, rfl, hload⟩

/-- The route that a run sets up. -/
def runRoute (st : DaemonState) (config : ProcessConfig) (pm : PortMapping) : RouteEntry :=
  if config.spa then spaRoute st config pm else processRoute config pm

@[simp] theorem runRoute_name (st : DaemonState) (config : ProcessConfig) (pm : PortMapping) :
    (runRoute st config pm).name = config.name := by
  unfold runRoute
  split <;> rfl

@[simp] theorem runRoute_port (st : DaemonState) (config : ProcessConfig) (pm : PortMapping) :
    (runRoute st config pm).port = pm.publicPort := by
  unfold runRoute
  split <;> rfl

@[simp] theorem runRoute_host (st : DaemonState) (config : ProcessConfig) (pm : PortMapping) :
    (runRoute st config pm).host = pm.host := by
  unfold runRoute
  split <;> rfl

/-- What a run that is answered Ok has done: it set up `c` with the mapping `pm`, found the
name free, loaded the certificate asked for, and entered the app together with its route. -/
structure RanOk (os : Os) (st : DaemonState) (config c : ProcessConfig) (pm : PortMapping)
    (p : ManagedProcess) (disk : FileTree) (m : ProxyManager) : Prop where
  prepared : prepareRun os config = .ok (c, pm)
  free : st.processMgr.lookup c.name = none
  loaded : (st.proxyMgr.pushRoute (runRoute st c pm)).loadTls os disk (runRoute st c pm) c.ssl =
    .ok m
  same : Process.SameApp c p.config
  state : (handleRun os st config).1 = registerAcme { st with
    processMgr := st.processMgr.insert c.name p
    disk := disk
    proxyMgr := m.listen pm.publicPort } c.acme pm

theorem handleRun_isOk {os : Os} {st : DaemonState} {config : ProcessConfig}
    (hok : (handleRun os st config).2.isOk = true) :
    ∃ c pm p disk m, RanOk os st config c pm p disk m := by
  cases hprep : prepareRun os config with
  | error e =>
    have hrun : handleRun os st config = (st, .error e) := by rw [handleRun, hprep]
    rw [hrun] at hok
    cases hok
  | ok cpm =>
    obtain ⟨c, pm⟩ := cpm
    have hrun : handleRun os st config =
        if c.spa then runSpa os st c pm else runProcess os st c pm := by rw [handleRun, hprep]
    rw [hrun] at hok
    by_cases hspa : c.spa = true
    · rw [if_pos hspa] at hok hrun
      obtain ⟨hdir, hfree, m, hload⟩ := runSpa_isOk hok
      rw [runSpa_ok hdir hload hfree] at hrun
      have hroute : runRoute st c pm = spaRoute st c pm := if_pos hspa
      exact ⟨c, pm, Process.spaProcess c, st.disk, m, hprep, hfree, by rw [hroute, hload],
        .refl c, by rw [hrun]⟩
    · rw [if_neg hspa] at hok hrun
      obtain ⟨msg, h, m, hspawn, hload⟩ := runProcess_isOk hok
      obtain ⟨hfree, p, hsame, htable⟩ := lookup_spawned hspawn
      rw [runProcess_ok hspawn hload] at hrun
      have hroute : runRoute st c pm = processRoute c pm := if_neg hspa
      refine ⟨c, pm, p, h.disk, m, hprep, hfree, by rw [hroute, hload], hsame, ?_⟩
      rw [hrun, ← htable]

namespace RanOk

variable {os : Os} {st : DaemonState} {config c : ProcessConfig} {pm : PortMapping}
  {p : ManagedProcess} {disk : FileTree} {m : ProxyManager}

theorem name (h : RanOk os st config c pm p disk m) : c.name = config.name :=
  (prepareRun_same h.prepared).1

theorem portMapping (h : RanOk os st config c pm p disk m) : c.portMapping = some pm :=
  (prepareRun_same h.prepared).2.1

theorem processMgr (h : RanOk os st config c pm p disk m) :
    (handleRun os st config).1.processMgr = st.processMgr.insert c.name p := by
  rw [h.state, registerAcme_toHost]

theorem proxyMgr (h : RanOk os st config c pm p disk m) :
    (handleRun os st config).1.proxyMgr = m.listen pm.publicPort := by
  rw [h.state, registerAcme_proxyMgr]

theorem routes (h : RanOk os st config c pm p disk m) :
    (handleRun os st config).1.proxyMgr.routes = st.proxyMgr.routes.replace (runRoute st c pm) := by
  rw [h.proxyMgr, ProxyManager.listen_routes, (ProxyManager.loadTls_ok h.loaded).1,
    ProxyManager.pushRoute_routes]

end RanOk

/-- The deletion of a registered app: both tables lose it, and no directory is removed. -/
theorem handleDel_of_some {st : DaemonState} {name : String} {p : ManagedProcess}
    (hp : st.processMgr.lookup name = some p) :
    ∃ t, (handleDel st name).1 = { st with
        processMgr := st.processMgr.erase name
        disk := t
        proxyMgr := st.proxyMgr.removeRoutes name } ∧
      ∀ path q, t.find path = some (q, .dir) ↔ st.disk.find path = some (q, .dir) := by
  obtain ⟨t, hdelete⟩ := Process.delete_of_some (h := st.toHost) hp
  have hrun : ({ st with proxyMgr := st.proxyMgr.removeRoutes name } : DaemonState).managed
      (Process.delete name) = ({ st with
        processMgr := st.processMgr.erase name
        disk := t
        proxyMgr := st.proxyMgr.removeRoutes name }, .ok _) :=
    DaemonState.managed_ok hdelete
  refine ⟨t, ?_, fun path q => Process.find_delete hdelete⟩
  unfold handleDel
  dsimp only
  rw [hrun]

/-- A deletion takes the app out of both tables, whether or not it was there. -/
theorem handleDel_tables (st : DaemonState) (name : String) :
    (handleDel st name).1.processMgr = st.processMgr.erase name ∧
      (handleDel st name).1.proxyMgr = st.proxyMgr.removeRoutes name := by
  cases hp : st.processMgr.lookup name with
  | none =>
    have hrun : ({ st with proxyMgr := st.proxyMgr.removeRoutes name } : DaemonState).managed
        (Process.delete name) = ({ st with proxyMgr := st.proxyMgr.removeRoutes name }, .error _) :=
      DaemonState.managed_error (Process.delete_of_none hp)
    unfold handleDel
    dsimp only
    rw [hrun, ProcessManager.erase_of_none hp]
    dsimp only
    split <;> exact ⟨rfl, rfl⟩
  | some p =>
    obtain ⟨t, hdel, -⟩ := handleDel_of_some hp
    rw [hdel]
    exact ⟨rfl, rfl⟩

/-! ### An update -/

section

variable {os : Os} {st : DaemonState} {name : String}

theorem managed_updateConfig_of_none (change : Process.ConfigChange)
    (hp : st.processMgr.lookup name = none) :
    st.managed (Process.updateConfig name change) = (st, .error s!"process '{name}' not found") :=
  DaemonState.managed_error (Process.updateConfig_of_none change hp)

theorem managed_updateConfig {p : ManagedProcess} (change : Process.ConfigChange)
    (hp : st.processMgr.lookup name = some p) :
    st.managed (Process.updateConfig name change) =
      ({ st with
        processMgr := st.processMgr.insert name { p with config := change.apply p.config } },
        .ok p.config) :=
  DaemonState.managed_ok (Process.updateConfig_of_some change hp)

/-- An app that is not there is not updated. -/
theorem updateLocked_of_none (reroutes : Bool) (change : Process.ConfigChange)
    (image : Option (String × String)) (hp : st.processMgr.lookup name = none) :
    updateLocked os st name reroutes change image =
      (st, .error s!"process '{name}' not found") := by
  unfold updateLocked
  rw [managed_updateConfig_of_none change hp]

/-- What an update makes of a config: the change and, with a new image, the reference and the
program of it. -/
def updatedConfig (change : Process.ConfigChange) (image : Option (String × String))
    (config : ProcessConfig) : ProcessConfig :=
  match image with
  | some (imgRef, entrypoint) =>
    { change.apply config with ociReference := some imgRef, path := entrypoint, isOci := true }
  | none => change.apply config

/-- The locked part of an update of a registered app. -/
theorem updateLocked_of_some {p : ManagedProcess} (reroutes : Bool) (change : Process.ConfigChange)
    (image : Option (String × String)) (hp : st.processMgr.lookup name = some p) :
    let st' := { st with
      processMgr := st.processMgr.insert name { p with config := updatedConfig change image p.config } }
    updateLocked os st name reroutes change image =
      if reroutes then
        match reroute os st' name p.config with
        | (st, .error e) => (st, .error e)
        | (st, .ok ()) => restartUpdated os st name
      else restartUpdated os st' name := by
  unfold updateLocked
  rw [managed_updateConfig change hp]
  cases image with
  | none => rfl
  | some image =>
    obtain ⟨imgRef, entrypoint⟩ := image
    simp only [DaemonState.managed_fst, Process.updateOciConfig,
      final_of_ok (Process.run_modifyTable _ _), Process.modifyConfig_insert]
    rfl

/-- Every app stands under its own name. -/
def Keyed (m : ProcessManager) : Prop := ∀ n p, m.lookup n = some p → p.config.name = n

theorem Keyed.insert {m : ProcessManager} {p : ManagedProcess} (h : Keyed m)
    (hname : p.config.name = name) : Keyed (m.insert name p) := by
  intro n q hq
  rw [ProcessManager.lookup_insert] at hq
  split at hq
  · rename_i heq
    cases hq
    rw [heq, hname]
  · exact h n q hq

theorem Keyed.erase {m : ProcessManager} (h : Keyed m) (name : String) : Keyed (m.erase name) := by
  intro n q hq
  rw [ProcessManager.lookup_erase] at hq
  split at hq
  · cases hq
  · exact h n q hq

/-- Where the apps stand under their own names, the config found by name is that of the entry. -/
theorem configOf_eq {m : ProcessManager} (hkeyed : Keyed m) (name : String) :
    configOf m name = (m.lookup name).map (·.config) := by
  unfold configOf
  cases hfind : (Process.getConfigs m).find? (·.name = name) with
  | none =>
    cases hp : m.lookup name with
    | none => rfl
    | some p =>
      have hnot := List.find?_eq_none.1 hfind p.config (Process.mem_getConfigs.2 ⟨name, p, hp, rfl⟩)
      exact absurd (decide_eq_true (hkeyed name p hp)) hnot
  | some c =>
    obtain ⟨n, p, hp, rfl⟩ := Process.mem_getConfigs.1 (List.mem_of_find?_eq_some hfind)
    have hname : p.config.name = name := by simpa using List.find?_some hfind
    rw [hkeyed n p hp] at hname
    rw [← hname, hp]
    rfl

/-- A new route is not refused: the update gives no certificate with it. -/
theorem reroute_isOk (os : Os) (st : DaemonState) (name : String) (old : ProcessConfig) :
    ∃ m, reroute os st name old = ({ st with proxyMgr := m }, .ok ()) := by
  unfold reroute
  dsimp only
  cases configOf st.processMgr name with
  | none => exact ⟨_, rfl⟩
  | some config =>
    cases hpm : config.portMapping with
    | none => simp only [hpm]; exact ⟨_, rfl⟩
    | some pm => simp only [hpm, ProxyManager.addRoute_eq]; exact ⟨_, rfl⟩

/-- The new route of an app with a port mapping. -/
theorem reroute_of_some {config old : ProcessConfig} {pm : PortMapping}
    (hconfig : configOf st.processMgr name = some config) (hpm : config.portMapping = some pm) :
    reroute os st name old = ({ st with
      proxyMgr := ((st.proxyMgr.removeRoutes name).pushRoute
        (routeOf name pm (updatedBackend st.disk config pm))).listen pm.publicPort }, .ok ()) := by
  unfold reroute
  simp only [hconfig, hpm, ProxyManager.addRoute_eq]
  rfl

/-- The routes and ports once an update has set up the mapping it asks for, if any. -/
def reroutedTo (t : FileTree) (m : ProxyManager) (name : String) (config : ProcessConfig) :
    Option PortMapping → ProxyManager
  | none => m
  | some pm =>
    ((m.removeRoutes name).pushRoute (routeOf name pm (updatedBackend t config pm))).listen
      pm.publicPort

/-- The entry of an app and the disk after the restart that ends an update: an SPA keeps its
entry. -/
def Relaunched (os : Os) (name : String) (p : ManagedProcess) (config : ProcessConfig)
    (t : FileTree) (p' : ManagedProcess) (disk : FileTree) : Prop :=
  if config.spa then p' = { p with config := config } ∧ disk = t
  else ∃ m t', Process.startProcess (os.launch name) config t = .ok m t' ∧
    p' = { m with restartCount := p.restartCount + 1 } ∧
    disk = final (Process.writePidFile p') t'

theorem Relaunched.same {p p' : ManagedProcess} {config : ProcessConfig} {t disk : FileTree}
    (h : Relaunched os name p config t p' disk) : Process.SameApp config p'.config := by
  unfold Relaunched at h
  split at h
  · rw [h.1]
    exact .refl config
  · obtain ⟨m, t', hstart, hp', -⟩ := h
    rw [hp']
    exact (Process.startProcess_ok hstart).same

/-- The config found by name once the entry of an app has been replaced. -/
theorem configOf_insert {m : ProcessManager} {p : ManagedProcess} (hkeyed : Keyed m)
    (hname : p.config.name = name) : configOf (m.insert name p) name = some p.config := by
  rw [configOf_eq (hkeyed.insert hname), ProcessManager.lookup_insert, if_pos rfl]
  rfl

/-- A restart that is answered Ok, after the config of the app has been replaced. -/
theorem restartUpdated_isOk {p : ManagedProcess} {config : ProcessConfig}
    (hkeyed : Keyed st.processMgr) (hname : config.name = name)
    (hok : (restartUpdated os { st with
      processMgr := st.processMgr.insert name { p with config := config } } name).2.isOk = true) :
    ∃ p' disk, Relaunched os name p config st.disk p' disk ∧
      (restartUpdated os { st with
        processMgr := st.processMgr.insert name { p with config := config } } name).1 =
        { st with processMgr := st.processMgr.insert name p', disk := disk } := by
  have hconfig := configOf_insert (p := { p with config := config }) hkeyed hname
  unfold restartUpdated at hok ⊢
  simp only [hconfig, Option.any_some] at hok ⊢
  unfold Relaunched
  by_cases hspa : config.spa = true
  · simp only [if_pos hspa]
    exact ⟨_, _, ⟨rfl, rfl⟩, rfl⟩
  · simp only [if_neg hspa] at hok ⊢
    have hlookup : (st.processMgr.insert name { p with config := config }).lookup name =
        some { p with config := config } := by
      rw [ProcessManager.lookup_insert, if_pos rfl]
    set st' := { st with
      processMgr := st.processMgr.insert name { p with config := config } } with hst'
    rcases Process.restart_cases (os.launch name) (h := st'.toHost) hlookup with
      ⟨e, t, -, hrun⟩ | ⟨m, q, t, hstart, hq, hrun⟩
    · rw [DaemonState.managed_error hrun] at hok
      cases hok
    · rw [DaemonState.managed_ok hrun]
      refine ⟨q, final (Process.writePidFile q) t, ⟨m, t, hstart, hq, rfl⟩, ?_⟩
      simp only [hst', ProcessManager.insert, AList.insert_insert]

/-- What an update that is answered Ok has done. -/
structure UpdatedOk (os : Os) (st : DaemonState) (name : String) (u : UpdateRequest)
    (change : Process.ConfigChange) (image : Option (String × String)) (p p' : ManagedProcess)
    (t disk : FileTree) : Prop where
  pulled : pullUpdate os name u.image st.disk = .ok image t
  changed : configChange os t u = .ok change
  found : st.processMgr.lookup name = some p
  relaunched : Relaunched os name p (updatedConfig change image p.config) t p' disk
  state : (handleUpdate os st name u).1 = { st with
    processMgr := st.processMgr.insert name p'
    disk := disk
    proxyMgr := reroutedTo t st.proxyMgr name (updatedConfig change image p.config)
      change.portMapping }

/-- The parts of the change that a request asks for. -/
theorem configChange_ok {t : FileTree} {u : UpdateRequest} {change : Process.ConfigChange}
    (h : configChange os t u = .ok change) :
    u.port.mapM parsePortMappingStr = .ok change.portMapping ∧
      u.envFile.mapM (parseEnvFileStr t) = .ok change.envVars ∧
      change.ssl = u.ssl.map (fun s =>
        { certPath := (s[0]?).getD "", keyPath := (s[1]?).getD "" }) ∧
      change.acme = u.acme ∧ change.envFile = u.envFile ∧
      change.args = u.args.map fun a => (os.shlexSplit a).getD [] := by
  unfold configChange at h
  cases hport : u.port.mapM parsePortMappingStr with
  | error e => rw [hport] at h; cases h
  | ok pm =>
    cases henv : u.envFile.mapM (parseEnvFileStr t) with
    | error e => rw [hport, henv] at h; cases h
    | ok env =>
      rw [hport, henv] at h
      cases h
      exact ⟨rfl, rfl, rfl, rfl, rfl, rfl⟩

theorem isSome_of_mapM {α β : Type} {f : α → Except String β} {o : Option α} {o' : Option β}
    (h : o.mapM f = .ok o') : o'.isSome = o.isSome := by
  cases o with
  | none => cases h; rfl
  | some a =>
    cases hf : f a with
    | error e => simp only [Option.mapM_some, hf] at h; cases h
    | ok b => simp only [Option.mapM_some, hf] at h; cases h; rfl

theorem updateLocked_isOk {reroutes : Bool} {change : Process.ConfigChange}
    {image : Option (String × String)} (hkeyed : Keyed st.processMgr)
    (hreroutes : change.portMapping.isSome = reroutes)
    (hok : (updateLocked os st name reroutes change image).2.isOk = true) :
    ∃ p p' disk, st.processMgr.lookup name = some p ∧
      Relaunched os name p (updatedConfig change image p.config) st.disk p' disk ∧
      (updateLocked os st name reroutes change image).1 = { st with
        processMgr := st.processMgr.insert name p'
        disk := disk
        proxyMgr := reroutedTo st.disk st.proxyMgr name (updatedConfig change image p.config)
          change.portMapping } := by
  cases hp : st.processMgr.lookup name with
  | none =>
    rw [updateLocked_of_none _ change _ hp] at hok
    cases hok
  | some p =>
    rw [updateLocked_of_some reroutes change image hp] at hok ⊢
    have hname : (updatedConfig change image p.config).name = name := by
      rw [← hkeyed name p hp]
      cases image <;> rfl
    have hpm : ∀ pm, change.portMapping = some pm →
        (updatedConfig change image p.config).portMapping = some pm := by
      intro pm hpm
      cases image <;> simp [updatedConfig, Process.ConfigChange.apply, hpm]
    refine ⟨p, ?_⟩
    generalize updatedConfig change image p.config = c at hname hpm hok ⊢
    cases hchange : change.portMapping with
    | none =>
      obtain rfl : reroutes = false := by rw [← hreroutes, hchange]; rfl
      rw [if_neg (by simp)] at hok ⊢
      obtain ⟨p', disk, hrelaunched, hstate⟩ := restartUpdated_isOk hkeyed hname hok
      exact ⟨p', disk, rfl, hrelaunched, hstate⟩
    | some pm =>
      obtain rfl : reroutes = true := by rw [← hreroutes, hchange]; rfl
      rw [if_pos rfl] at hok ⊢
      have hreroute := @reroute_of_some os
        { st with processMgr := st.processMgr.insert name { p with config := c } } name c p.config
        pm (configOf_insert hkeyed hname) (hpm pm hchange)
      rw [hreroute] at hok ⊢
      obtain ⟨p', disk, hrelaunched, hstate⟩ := @restartUpdated_isOk os
        { st with proxyMgr := reroutedTo st.disk st.proxyMgr name c (some pm) } name p c
        hkeyed hname hok
      exact ⟨p', disk, rfl, hrelaunched, hstate⟩

theorem handleUpdate_isOk {u : UpdateRequest} (hkeyed : Keyed st.processMgr)
    (hok : (handleUpdate os st name u).2.isOk = true) :
    ∃ change image p p' t disk, UpdatedOk os st name u change image p p' t disk := by
  cases hpull : pullUpdate os name u.image st.disk with
  | error e t =>
    have hrun : handleUpdate os st name u = ({ st with disk := t }, .error e) := by
      unfold handleUpdate
      rw [DaemonState.managed_onDisk, final_of_error hpull, result, hpull]
    rw [hrun] at hok
    cases hok
  | ok image t =>
    have hpulled : st.managed (Process.onDisk (pullUpdate os name u.image)) =
        ({ st with disk := t }, .ok image) := by
      rw [DaemonState.managed_onDisk, final_of_ok hpull, result_of_ok hpull]
    cases hchange : configChange os t u with
    | error e =>
      have hrun : handleUpdate os st name u = ({ st with disk := t }, .error e) := by
        unfold handleUpdate
        rw [hpulled]
        dsimp only
        rw [hchange]
      rw [hrun] at hok
      cases hok
    | ok change =>
      have hrun : handleUpdate os st name u =
          updateLocked os { st with disk := t } name u.port.isSome change image := by
        unfold handleUpdate
        rw [hpulled]
        dsimp only
        rw [hchange]
      rw [hrun] at hok
      have hreroutes := isSome_of_mapM (configChange_ok hchange).1
      obtain ⟨p, p', disk, hp, hrelaunched, hstate⟩ :=
        @updateLocked_isOk os { st with disk := t } name _ change image hkeyed hreroutes hok
      exact ⟨change, image, p, p', t, disk, hpull, hchange, hp, hrelaunched, hrun ▸ hstate⟩

end

end Server
