import NylonRun.Backends
import NylonRun.Certificates
import NylonRun.Rollback

/-!
# An update and the run it stands for

`handle_update` does by itself what a deletion and a run of the changed config would do, with
its own parsing and routing: it never remaps a port, loads no certificate, makes no port a TLS
port, registers no host for renewal, and routes only where a port is asked for. What it leaves
is what the run would leave exactly if none of these was to be done.
-/

open UnixPath FileTree Effect

namespace Daemon

open Server

/-- The environment that an app was last launched with; an SPA is not launched. -/
def launchedEnv (st : DaemonState) (name : String) : Option (Dict String String) :=
  (st.processMgr.lookup name).bind fun p =>
    if p.config.spa then none else p.child.map (·.command.envs)

/-- An update that is answered Ok, and what it makes of the config of its app and of the port
mapping in it. -/
structure Answered (os : Os) (st : DaemonState) (name : String) (u : UpdateRequest)
    (config : ProcessConfig) (pm : PortMapping) : Prop where
  ok : (handleUpdate os st name u).2.isOk = true
  changed : ∃ change p, configChange os st.disk u = .ok change ∧
    st.processMgr.lookup name = some p ∧ change.apply p.config = config
  mapped : config.portMapping = some pm

/-- The outside of a run: a port is free if one is needed, and the launch, if there is one,
succeeds and leaves the given disk. -/
structure Launches (os : Os) (st : DaemonState) (config : ProcessConfig) (disk : FileTree) :
    Prop where
  freePort : ∀ pm, config.portMapping = some pm → needsRemap pm = true →
    ∃ port, os.freePort = .ok port
  spa : config.spa = true → disk = st.disk
  process : config.spa = false → ∀ c pm, prepareRun os config = .ok (c, pm) →
    ∃ msg h, Process.spawnProcess (os.launch c.name) c st.toHost = .ok msg h ∧ h.disk = disk

/-- The app deleted and run again. -/
def rerun (os : Os) (st : DaemonState) (name : String) (config : ProcessConfig) :
    DaemonState × Response :=
  handleRun os (handleDel st name).1 config

/-- An update has left the setup of its app as the run of the changed config, which is answered
Ok, and no route of the app leads to its own public port. -/
structure AsRerun (updated : DaemonState) (again : DaemonState × Response) (name : String)
    (pm : PortMapping) : Prop where
  ok : again.2.isOk = true
  routes : updated.proxyMgr.routes.of name = again.1.proxyMgr.routes.of name
  tlsPorts : updated.proxyMgr.tlsPorts = again.1.proxyMgr.tlsPorts
  cert : updated.proxyMgr.certStore.get (pm.host.getD "default") =
    again.1.proxyMgr.certStore.get (pm.host.getD "default")
  acme : updated.acmeConfigs = again.1.acmeConfigs
  env : launchedEnv updated name = launchedEnv again.1 name
  backend : ∀ r ∈ updated.proxyMgr.routes.of name, r.backend ≠ .proxy r.port

/-- A host that is registered for renewal. -/
def Registered (st : DaemonState) (host : String) : Prop :=
  st.acmeConfigs.any (·.1 = host) = true

/-- What an update leaves out was not to be done: the port needs no remap, the route is the one
asked for or is asked for now, the certificate is the one loaded and its port is a TLS port, the
host is registered, and an SPA has a directory. -/
structure FitsRerun (os : Os) (st : DaemonState) (name : String) (u : UpdateRequest)
    (config : ProcessConfig) (pm : PortMapping) (disk : FileTree) : Prop where
  port : config.spa = false → needsRemap pm = false
  route : u.port = none →
    st.proxyMgr.routes.of name = [routeOf name pm (updatedBackend st.disk config pm)]
  ssl : ∀ c ∈ config.ssl, pm.publicPort ∈ st.proxyMgr.tlsPorts ∧
    ∃ cert, CertStore.loadCert os disk c.certPath c.keyPath = .ok cert ∧
      st.proxyMgr.certStore.get (pm.host.getD "default") = some cert
  acme : config.acme.isSome = true → ∃ host ∈ pm.host, Registered st host
  dir : config.spa = true → st.disk.isDir config.path = true

/-! ## What an update leaves -/

section

variable {os : Os} {st : DaemonState} {name : String} {u : UpdateRequest}
  {config : ProcessConfig} {pm : PortMapping}

/-- What an update without an image leaves of the setup. -/
structure Updated (st : DaemonState) (name : String) (u : UpdateRequest) (config : ProcessConfig)
    (pm : PortMapping) (updated : DaemonState) : Prop where
  routes : updated.proxyMgr.routes.of name = if u.port = none then st.proxyMgr.routes.of name
    else [routeOf name pm (updatedBackend st.disk config pm)]
  tlsPorts : updated.proxyMgr.tlsPorts = st.proxyMgr.tlsPorts
  certStore : updated.proxyMgr.certStore = st.proxyMgr.certStore
  acme : updated.acmeConfigs = st.acmeConfigs
  env : launchedEnv updated name = if config.spa then none else some config.envVars

theorem apply_portMapping {change : Process.ConfigChange} {c : ProcessConfig} {pm : PortMapping}
    (h : change.portMapping = some pm) : (change.apply c).portMapping = some pm := by
  rw [Process.ConfigChange.apply, h]
  rfl

theorem reroutedTo_tlsPorts (t : FileTree) (m : ProxyManager) (name : String)
    (config : ProcessConfig) (pm : Option PortMapping) :
    (reroutedTo t m name config pm).tlsPorts = m.tlsPorts := by
  cases pm with
  | none => rfl
  | some pm => exact ProxyManager.listen_tlsPorts ..

theorem routes_reroutedTo (t : FileTree) (m : ProxyManager) (name : String)
    (config : ProcessConfig) (pm : PortMapping) :
    (reroutedTo t m name config (some pm)).routes.of name =
      [routeOf name pm (updatedBackend t config pm)] := by
  unfold reroutedTo
  rw [ProxyManager.listen_routes, ProxyManager.pushRoute_routes, RouteTable.of_replace]
  exact if_pos rfl

/-- What a launch has put into the environment of its child. -/
theorem env_started {launch : LaunchOs} {c : ProcessConfig} {t : FileTree} {m : ManagedProcess}
    (h : Process.Started launch c t m) : m.child.map (·.command.envs) = some c.envVars := by
  obtain ⟨child, hchild, hcommand⟩ := h.child
  rw [hchild, Option.map_some, hcommand, ← h.same.envVars]
  rfl

theorem updated_of_answered (hkeyed : Keyed st.processMgr) (himage : u.image = none)
    (h : Answered os st name u config pm) :
    Updated st name u config pm (handleUpdate os st name u).1 := by
  obtain ⟨change, p, hchange, hp, rfl⟩ := h.changed
  obtain ⟨change', image, q, q', t, disk, hupdated⟩ := handleUpdate_isOk hkeyed h.ok
  have hpull := hupdated.pulled
  rw [himage] at hpull
  obtain ⟨rfl, rfl⟩ : none = image ∧ st.disk = t := by
    cases hpull
    exact ⟨rfl, rfl⟩
  have hchange' := hupdated.changed
  rw [hchange] at hchange'
  obtain rfl := Except.ok.inj hchange'
  have hq := hupdated.found
  rw [hp] at hq
  obtain rfl := Option.some.inj hq
  have hrelaunched := hupdated.relaunched
  change Relaunched os name p (change.apply p.config) st.disk q' disk at hrelaunched
  have hport : change.portMapping.isSome = u.port.isSome :=
    isSome_of_mapM (configChange_ok hchange).1
  rw [hupdated.state]
  refine ⟨?_, reroutedTo_tlsPorts .., ?_, rfl, ?_⟩
  · cases hpm : change.portMapping with
    | none =>
      rw [hpm] at hport
      rw [if_pos (by simpa using hport.symm)]
      rfl
    | some pm' =>
      have hmapped := h.mapped
      rw [apply_portMapping hpm] at hmapped
      obtain rfl := Option.some.inj hmapped
      rw [hpm] at hport
      have hsome : u.port ≠ none := by
        intro hnone
        rw [hnone] at hport
        cases hport
      rw [if_neg hsome]
      exact routes_reroutedTo ..
  · exact Ledger.reroutedTo_certStore ..
  · unfold launchedEnv
    rw [ProcessManager.lookup_insert, if_pos rfl, Option.bind_some, hrelaunched.same.spa]
    split
    · rfl
    · rename_i hspa
      unfold Relaunched at hrelaunched
      rw [if_neg hspa] at hrelaunched
      obtain ⟨m, t', hstart, rfl, -⟩ := hrelaunched
      have henv := env_started (Process.startProcess_ok hstart)
      exact henv

end

/-! ## What the run leaves -/

section

variable {os : Os} {st : DaemonState} {config : ProcessConfig} {disk : FileTree}

theorem handleRun_of_prepared {c : ProcessConfig} {pm : PortMapping}
    (hprep : prepareRun os config = .ok (c, pm)) :
    handleRun os st config = if c.spa then runSpa os st c pm else runProcess os st c pm := by
  rw [handleRun, hprep]

/-- The child of a successful launch has the environment of the config. -/
theorem env_spawned {launch : LaunchOs} {c : ProcessConfig} {h h' : Host} {msg : String}
    (hspawn : Process.spawnProcess launch c h = .ok msg h') :
    ∃ p, h'.processMgr.lookup c.name = some p ∧ p.config.spa = c.spa ∧
      p.child.map (·.command.envs) = some c.envVars := by
  rcases Process.spawnProcess_cases launch c h with
    ⟨e, t, hrun⟩ | ⟨-, t, t', m, -, hstart, hrun⟩
  · rw [hrun] at hspawn
    cases hspawn
  · rw [hrun] at hspawn
    cases hspawn
    have hstarted := Process.startProcess_ok hstart
    refine ⟨m, ?_, hstarted.same.spa, env_started hstarted⟩
    rw [ProcessManager.lookup_insert, if_pos rfl]

/-- A run answered Ok, with the disk that its launch leaves and the environment of its child. -/
theorem ran_launched (hlaunches : Launches os st config disk)
    (hok : (handleRun os st config).2.isOk = true) :
    ∃ c pm p m, RanOk os st config c pm p disk m ∧
      launchedEnv (handleRun os st config).1 config.name =
        if config.spa then none else some c.envVars := by
  obtain ⟨c, pm, p, disk', m, hran⟩ := handleRun_isOk hok
  have hdisk : (handleRun os st config).1.disk = disk' := by
    rw [hran.state, registerAcme_toHost]
  have hrun : handleRun os st config = _ := handleRun_of_prepared hran.prepared
  obtain ⟨hname, -, hspa⟩ := prepareRun_same hran.prepared
  by_cases hc : config.spa = true
  · rw [hspa, if_pos hc] at hrun
    rw [hrun] at hok
    obtain ⟨hdir, hfree, m', hload⟩ := runSpa_isOk hok
    have hsame : disk' = disk := by
      rw [← hdisk, hrun, runSpa_ok hdir hload hfree, registerAcme_toHost]
      exact (hlaunches.spa hc).symm
    subst hsame
    refine ⟨c, pm, p, m, hran, ?_⟩
    unfold launchedEnv
    rw [hran.processMgr, ← hname, ProcessManager.lookup_insert, if_pos rfl, Option.bind_some,
      hran.same.spa, hspa, if_pos hc, if_pos hc]
  · rw [hspa, if_neg hc] at hrun
    rw [hrun] at hok
    obtain ⟨msg, h, m', hspawn, hload⟩ := runProcess_isOk hok
    obtain ⟨msg', h', hspawn', hleft⟩ := hlaunches.process (by simpa using hc) c pm hran.prepared
    rw [hspawn] at hspawn'
    obtain ⟨rfl, rfl⟩ : msg = msg' ∧ h = h' := by
      cases hspawn'
      exact ⟨rfl, rfl⟩
    rw [runProcess_ok hspawn hload] at hrun
    have hsame : disk' = disk := by
      rw [← hdisk, hrun, registerAcme_toHost]
      exact hleft
    subst hsame
    refine ⟨c, pm, p, m, hran, ?_⟩
    obtain ⟨q, hq, hqspa, henv⟩ := env_spawned hspawn
    unfold launchedEnv
    rw [hrun, registerAcme_toHost, ← hname]
    change ((h.processMgr.lookup c.name).bind _) = _
    rw [hq, Option.bind_some, hqspa, hspa, if_neg hc, if_neg hc, henv]

theorem acmeConfigs_registerAcme (st : DaemonState) (acme : Option String) (pm : PortMapping) :
    (registerAcme st acme pm).acmeConfigs = st.acmeConfigs ↔
      (acme.isSome = true → ∀ host ∈ pm.host, Registered st host) := by
  unfold registerAcme
  cases acme with
  | none => simp
  | some email =>
    cases hhost : pm.host with
    | none => simp
    | some host =>
      unfold spawnAcmeIssue
      dsimp only
      by_cases hany : st.acmeConfigs.any (·.1 = host) = true
      · rw [if_pos hany]
        refine iff_of_true rfl ?_
        rintro - _ ⟨⟩
        exact hany
      · rw [if_neg hany]
        exact iff_of_false (by simp) fun h => hany (h rfl host rfl)

theorem prepareRun_isOk {pm : PortMapping} (hmapped : config.portMapping = some pm)
    (hport : needsRemap pm = true → ∃ port, os.freePort = .ok port)
    (hacme : config.acme.isSome = true → pm.host.isSome = true) :
    ∃ c pm', prepareRun os config = .ok (c, pm') := by
  have hcheck : ¬(config.acme.isSome = true ∧ pm.host.isNone = true) := by
    rintro ⟨hsome, hnone⟩
    have hhost := hacme hsome
    rw [Option.isNone_iff_eq_none.1 hnone] at hhost
    cases hhost
  unfold prepareRun
  rw [hmapped]
  by_cases hremap : needsRemap pm = true
  · obtain ⟨port, hport⟩ := hport hremap
    refine ⟨remap port pm config, { pm with appPort := some port }, ?_⟩
    simp only [hremap, if_true, hport]
    change (if config.acme.isSome = true ∧ pm.host.isNone = true then _ else _) = _
    rw [if_neg hcheck]
    rfl
  · refine ⟨config, pm, ?_⟩
    simp only [hremap]
    change (if config.acme.isSome = true ∧ pm.host.isNone = true then _ else _) = _
    rw [if_neg hcheck]
    rfl

/-- A run sets up the program of its config. -/
theorem prepareRun_path {c : ProcessConfig} {pm : PortMapping}
    (h : prepareRun os config = .ok (c, pm)) : c.path = config.path := by
  obtain ⟨-, -, -, ⟨-, port, -, rfl, -⟩ | ⟨-, rfl, -⟩⟩ := prepareRun_ok h <;> rfl

/-- A run whose port is free and whose launch succeeds is answered Ok exactly if it has a host
to register, a certificate that loads, and a directory. -/
theorem run_isOk_iff {pm : PortMapping} (hlaunches : Launches os st config disk)
    (hmapped : config.portMapping = some pm) (hfree : st.processMgr.lookup config.name = none) :
    (handleRun os st config).2.isOk = true ↔
      (config.acme.isSome = true → pm.host.isSome = true) ∧
      certLoads os disk config.ssl = true ∧
      (config.spa = true → st.disk.isDir config.path = true) := by
  constructor
  · intro hok
    obtain ⟨c, pm', p, m, hran, -⟩ := ran_launched hlaunches hok
    obtain ⟨pm₀, hpm₀, hacme, -⟩ := prepareRun_ok hran.prepared
    rw [hmapped] at hpm₀
    obtain rfl := Option.some.inj hpm₀
    refine ⟨hacme, ?_, fun hspa => ?_⟩
    · rw [← (prepareRun_asked hran.prepared).1]
      rcases loadTls_certLoads os disk (st.proxyMgr.pushRoute (runRoute st c pm')) (runRoute st c pm')
        c.ssl with ⟨hloads, -⟩ | ⟨-, e, herror⟩
      · exact hloads
      · rw [hran.loaded] at herror
        cases herror
    · have hrun : handleRun os st config = _ := handleRun_of_prepared hran.prepared
      rw [(prepareRun_same hran.prepared).2.2, if_pos hspa] at hrun
      rw [hrun] at hok
      rw [← prepareRun_path hran.prepared]
      exact (runSpa_isOk hok).1
  · rintro ⟨hacme, hloads, hdir⟩
    obtain ⟨c, pm', hprep⟩ := prepareRun_isOk hmapped (hlaunches.freePort pm hmapped) hacme
    obtain ⟨hname, -, hspa⟩ := prepareRun_same hprep
    rw [← (prepareRun_asked hprep).1] at hloads
    rw [← hname] at hfree
    have hload : ∀ entry, ∃ m, (st.proxyMgr.pushRoute entry).loadTls os disk entry c.ssl =
        .ok m := by
      intro entry
      rcases loadTls_certLoads os disk (st.proxyMgr.pushRoute entry) entry c.ssl with
        ⟨-, hm⟩ | ⟨hfails, -⟩
      · exact hm
      · rw [hloads] at hfails
        cases hfails
    rw [handleRun_of_prepared hprep, hspa]
    by_cases hc : config.spa = true
    · obtain ⟨m, hm⟩ := hload (spaRoute st c pm')
      rw [hlaunches.spa hc] at hm
      rw [if_pos hc, runSpa_ok (by rw [prepareRun_path hprep, hdir hc]) hm hfree]
      rfl
    · obtain ⟨msg, h, hspawn, hleft⟩ := hlaunches.process (by simpa using hc) c pm' hprep
      obtain ⟨m, hm⟩ := hload (processRoute c pm')
      rw [← hleft] at hm
      rw [if_neg hc, runProcess_ok hspawn hm]
      rfl

end

section

variable {os : Os} {st : DaemonState} {name : String} {config : ProcessConfig} {pm : PortMapping}
  {disk : FileTree}

/-- What deleting an app and running it again leaves of the setup, if the run is answered Ok. Only
a process whose port is remapped is run otherwise than asked. -/
structure Reran (os : Os) (st : DaemonState) (name : String) (config : ProcessConfig)
    (pm : PortMapping) (disk : FileTree) (again : DaemonState) : Prop where
  asked : config.spa = true ∨ needsRemap pm = false →
    again.proxyMgr.routes.of name = [routeOf name pm (updatedBackend st.disk config pm)] ∧
      launchedEnv again name = if config.spa then none else some config.envVars
  remapped : config.spa = false → needsRemap pm = true →
    ∃ port, again.proxyMgr.routes.of name = [routeOf name pm (.proxy port)]
  tlsPorts : again.proxyMgr.tlsPorts =
    if config.ssl.isSome then insert pm.publicPort st.proxyMgr.tlsPorts else st.proxyMgr.tlsPorts
  cert : (config.ssl = none ∧ again.proxyMgr.certStore = st.proxyMgr.certStore) ∨
    ∃ c cert, config.ssl = some c ∧ CertStore.loadCert os disk c.certPath c.keyPath = .ok cert ∧
      again.proxyMgr.certStore = st.proxyMgr.certStore.put (pm.host.getD "default") cert
  acme : again.acmeConfigs = st.acmeConfigs ↔
    (config.acme.isSome = true → ∀ host ∈ pm.host, Registered st host)

/-- A directory has the same canonical path on two disks that have the same directories. -/
theorem spaBackend_congr {t t' : FileTree} {path : String}
    (h : ∀ path q, t'.find path = some (q, .dir) ↔ t.find path = some (q, .dir))
    (hdir : t.isDir path = true) : spaBackend t' path = spaBackend t path := by
  obtain ⟨q, hq⟩ := isDir_iff.1 hdir
  unfold spaBackend canonicalize
  rw [hq, (h path q).2 hq]

theorem isDir_congr {t t' : FileTree}
    (h : ∀ path q, t'.find path = some (q, .dir) ↔ t.find path = some (q, .dir)) (path : String) :
    t'.isDir path = t.isDir path := by
  rw [Bool.eq_iff_iff, isDir_iff, isDir_iff]
  exact exists_congr fun q => h path q

theorem reran_of_isOk {p : ManagedProcess} (hp : st.processMgr.lookup name = some p)
    (hname : config.name = name) (hmapped : config.portMapping = some pm)
    (hlaunches : Launches os (handleDel st name).1 config disk)
    (hok : (rerun os st name config).2.isOk = true) :
    Reran os st name config pm disk (rerun os st name config).1 := by
  obtain ⟨t, hdel, hdirs⟩ := handleDel_of_some hp
  obtain ⟨c, pm', p', m, hran, henv⟩ := ran_launched hlaunches hok
  obtain ⟨hssl, hacme, pm₀, hpm₀, hport, hhost⟩ := prepareRun_asked hran.prepared
  rw [hmapped] at hpm₀
  obtain rfl := Option.some.inj hpm₀
  obtain ⟨hcname, -, hcspa⟩ := prepareRun_same hran.prepared
  have hroutes : (rerun os st name config).1.proxyMgr.routes.of name =
      [runRoute (handleDel st name).1 c pm'] := by
    unfold rerun
    rw [hran.routes, RouteTable.of_replace, runRoute_name, hcname, hname, if_pos rfl]
  have hrouteOf : ∀ backend, routeOf c.name pm' backend = routeOf name pm backend := by
    intro backend
    unfold routeOf
    rw [hcname, hname, hport, hhost]
  refine ⟨fun hasked => ?_, fun hspa hremap => ?_, ?_, ?_, ?_⟩
  · rw [hroutes]
    by_cases hspa : config.spa = true
    · have hfree : (handleDel st name).1.processMgr.lookup config.name = none := by
        rw [hdel, hname, ProcessManager.lookup_erase, if_pos rfl]
      have hdir := ((run_isOk_iff hlaunches hmapped hfree).1 hok).2.2 hspa
      have hdisk : (handleDel st name).1.disk = t := by rw [hdel]
      rw [hdisk, isDir_congr hdirs] at hdir
      refine ⟨?_, ?_⟩
      · rw [runRoute, if_pos (hcspa.trans hspa), spaRoute, hrouteOf, hdisk,
          prepareRun_path hran.prepared, spaBackend_congr hdirs hdir, updatedBackend, if_pos hspa]
      · rw [← hname, if_pos hspa] at henv ⊢
        exact henv
    · have hremap : needsRemap pm = false := hasked.resolve_left hspa
      obtain ⟨pm₁, hpm₁, -, ⟨htrue, -⟩ | ⟨-, rfl, rfl⟩⟩ := prepareRun_ok hran.prepared
      · rw [hmapped] at hpm₁
        obtain rfl := Option.some.inj hpm₁
        rw [hremap] at htrue
        cases htrue
      · rw [hmapped] at hpm₁
        obtain rfl := Option.some.inj hpm₁
        refine ⟨?_, ?_⟩
        · rw [runRoute, if_neg hspa, processRoute, hrouteOf, updatedBackend, if_neg hspa]
        · rw [← hname, if_neg hspa] at henv ⊢
          exact henv
  · rw [hroutes, runRoute, if_neg (by rw [hcspa, hspa]; simp), processRoute, hrouteOf]
    exact ⟨_, rfl⟩
  · have hports := (ProxyManager.loadTls_ok hran.loaded).2.2.2
    unfold rerun
    rw [hran.proxyMgr, ProxyManager.listen_tlsPorts, hports, hssl, runRoute_port, hport, hdel]
    rfl
  · unfold rerun
    rw [hran.proxyMgr, ProxyManager.listen_certStore, ← hssl, ← hhost]
    have hstore : (((handleDel st name).1.proxyMgr.pushRoute
        (runRoute (handleDel st name).1 c pm'))).certStore = st.proxyMgr.certStore := by
      rw [hdel]
      rfl
    rcases Ledger.loadTls_certStore hran.loaded with
      ⟨hnone, hsame⟩ | ⟨ssl, cert, hsome, hload, hput⟩
    · exact .inl ⟨hnone, hsame.trans hstore⟩
    · refine .inr ⟨ssl, cert, hsome, hload, ?_⟩
      rw [hput, hstore, runRoute_host]
  · unfold rerun
    rw [hran.state, ← hacme, ← hhost, hdel]
    exact acmeConfigs_registerAcme ..

end

/-! ## The update compared with the run -/

section

variable {os os' : Os} {st : DaemonState} {name : String} {u : UpdateRequest}
  {config : ProcessConfig} {pm : PortMapping} {disk : FileTree}

/-- The app of an answered update: it keeps its name and its kind, and without a new port its
mapping. -/
theorem Answered.found (hk : Keyed st.processMgr) (h : Answered os st name u config pm) :
    ∃ p, st.processMgr.lookup name = some p ∧ config.name = name ∧ config.spa = p.config.spa ∧
      (u.port = none → p.config.portMapping = some pm) := by
  obtain ⟨change, p, hchange, hp, rfl⟩ := h.changed
  refine ⟨p, hp, hk name p hp, rfl, fun hnone => ?_⟩
  have hport := isSome_of_mapM (configChange_ok hchange).1
  rw [hnone, Option.isSome_none, Option.isSome_eq_false_iff, Option.isNone_iff_eq_none] at hport
  have hmapped := h.mapped
  rw [Process.ConfigChange.apply, hport] at hmapped
  exact hmapped

/-- An update that leaves what the run would leave has no port to remap: the route it leaves would
lead to the public port of the app. -/
theorem AsRerun.not_needsRemap (hk : Keyed st.processMgr) (hb : TablesBacked st)
    (hupdated : Updated st name u config pm (handleUpdate os st name u).1)
    (hanswered : Answered os st name u config pm)
    (hreran : Reran os' st name config pm disk (rerun os' st name config).1)
    (h : AsRerun (handleUpdate os st name u).1 (rerun os' st name config) name pm)
    (hspa : config.spa = false) : needsRemap pm = false := by
  obtain ⟨p, hp, -, hkind, hkept⟩ := hanswered.found hk
  rw [Bool.eq_false_iff]
  intro hremap
  obtain ⟨port, hroutes⟩ := hreran.remapped hspa hremap
  have hmem : routeOf name pm (.proxy port) ∈
      (handleUpdate os st name u).1.proxyMgr.routes.of name := by
    rw [h.routes, hroutes]
    exact List.mem_singleton_self _
  have hport : port = pm.publicPort := by
    have hroute := hmem
    rw [hupdated.routes] at hroute
    by_cases hu : u.port = none
    · rw [if_pos hu] at hroute
      exact hb name p hp pm (hkept hu) (hkind ▸ hspa) hremap _ hroute port rfl
    · rw [if_neg hu] at hroute
      exact backedBy_updated hanswered.mapped st.disk name pm hanswered.mapped hspa hremap _
        hroute port rfl
  refine h.backend _ hmem ?_
  rw [hport]
  rfl

/-- A route that a config is given leads to its own public port only if the port needs a remap. -/
theorem updatedBackend_ne (hport : config.spa = false → needsRemap pm = false) (t : FileTree) :
    updatedBackend t config pm ≠ .proxy pm.publicPort := by
  unfold updatedBackend
  by_cases hspa : config.spa = true
  · rw [if_pos hspa]
    intro h
    cases h
  · rw [if_neg hspa]
    intro h
    have hremap := hport (by simpa using hspa)
    rw [proxyBackend_eq_iff.1 h] at hremap
    cases hremap

/-- What an update answered Ok leaves of the setup is what deleting the app and running its
changed config would leave, exactly if the update fits. -/
theorem asRerun_iff (hk : Keyed st.processMgr) (hb : TablesBacked st) (himage : u.image = none)
    (hanswered : Answered os st name u config pm)
    (hlaunches : Launches os' (handleDel st name).1 config disk) :
    AsRerun (handleUpdate os st name u).1 (rerun os' st name config) name pm ↔
      FitsRerun os' st name u config pm disk := by
  obtain ⟨p, hp, hname, -, -⟩ := hanswered.found hk
  obtain ⟨t, hdel, hdirs⟩ := handleDel_of_some hp
  have hupdated := updated_of_answered hk himage hanswered
  have hfree : (handleDel st name).1.processMgr.lookup config.name = none := by
    rw [hdel, hname, ProcessManager.lookup_erase, if_pos rfl]
  have hdir : (handleDel st name).1.disk.isDir config.path = st.disk.isDir config.path := by
    rw [hdel]
    exact isDir_congr hdirs config.path
  have hisOk : (rerun os' st name config).2.isOk = true ↔ _ :=
    run_isOk_iff hlaunches hanswered.mapped hfree
  rw [hdir] at hisOk
  have hrerun := fun hok => reran_of_isOk hp hname hanswered.mapped hlaunches hok
  have hasked (h : config.spa = false → needsRemap pm = false) :
      config.spa = true ∨ needsRemap pm = false := by
    cases hspa : config.spa with
    | true => exact .inl rfl
    | false => exact .inr (h hspa)
  constructor
  · intro h
    have hreran := hrerun h.ok
    obtain ⟨hhost, -, hisDir⟩ := hisOk.1 h.ok
    have hport := h.not_needsRemap hk hb hupdated hanswered hreran
    refine ⟨hport, fun hu => ?_, fun c hc => ?_, fun hacme => ?_, hisDir⟩
    · have hroutes := h.routes
      rw [hupdated.routes, if_pos hu, (hreran.asked (hasked hport)).1] at hroutes
      exact hroutes
    · obtain hc : config.ssl = some c := hc
      have hports := h.tlsPorts
      rw [hupdated.tlsPorts, hreran.tlsPorts, hc, Option.isSome_some, if_pos rfl] at hports
      have hcert := h.cert
      rw [hupdated.certStore] at hcert
      rcases hreran.cert with ⟨hnone, -⟩ | ⟨c', cert, hc', hload, hput⟩
      · rw [hc] at hnone
        cases hnone
      · rw [hc] at hc'
        obtain rfl := Option.some.inj hc'
        rw [hput, CertStore.get_put, if_pos rfl] at hcert
        exact ⟨Finset.insert_eq_self.1 hports.symm, cert, hload, hcert⟩
    · have hconfigs := h.acme
      rw [hupdated.acme] at hconfigs
      obtain ⟨host, hhost⟩ := Option.isSome_iff_exists.1 (hhost hacme)
      exact ⟨host, hhost, hreran.acme.1 hconfigs.symm hacme host hhost⟩
  · intro f
    have hloads : certLoads os' disk config.ssl = true := by
      unfold certLoads
      cases hssl : config.ssl with
      | none => rfl
      | some c =>
        obtain ⟨-, cert, hload, -⟩ := f.ssl c hssl
        rw [Option.all_some, hload]
        rfl
    have hok : (rerun os' st name config).2.isOk = true := by
      refine hisOk.2 ⟨fun hacme => ?_, hloads, f.dir⟩
      obtain ⟨host, hhost, -⟩ := f.acme hacme
      rw [hhost]
      rfl
    have hreran := hrerun hok
    have hroutes : (handleUpdate os st name u).1.proxyMgr.routes.of name =
        [routeOf name pm (updatedBackend st.disk config pm)] := by
      rw [hupdated.routes]
      by_cases hu : u.port = none
      · rw [if_pos hu, f.route hu]
      · rw [if_neg hu]
    refine ⟨hok, ?_, ?_, ?_, ?_, ?_, fun r hr => ?_⟩
    · rw [hroutes, (hreran.asked (hasked f.port)).1]
    · rw [hupdated.tlsPorts, hreran.tlsPorts]
      cases hssl : config.ssl with
      | none => rfl
      | some c => exact (Finset.insert_eq_self.2 (f.ssl c hssl).1).symm
    · rw [hupdated.certStore]
      rcases hreran.cert with ⟨-, hsame⟩ | ⟨c, cert, hc, hload, hput⟩
      · rw [hsame]
      · obtain ⟨-, cert', hload', hget⟩ := f.ssl c hc
        rw [hload] at hload'
        obtain rfl := Except.ok.inj hload'
        rw [hput, CertStore.get_put, if_pos rfl, hget]
    · rw [hupdated.acme]
      refine (hreran.acme.2 fun hacme host hhost => ?_).symm
      obtain ⟨host', hhost', hregistered⟩ := f.acme hacme
      rw [hhost] at hhost'
      obtain rfl := Option.some.inj hhost'
      exact hregistered
    · rw [hupdated.env, (hreran.asked (hasked f.port)).2]
    · rw [hroutes] at hr
      rw [List.mem_singleton.1 hr]
      exact updatedBackend_ne f.port st.disk

end

/-! ## Runs -/

/-- Every update that is answered Ok leaves of the setup of its app what deleting the app and
running its changed config, once it is launched, would leave. -/
def UpdatesAsRerun (st : DaemonState) : Event → Prop
  | .request os (.update name port ssl acme envFile args none) =>
    let u : UpdateRequest := ⟨port, ssl, acme, envFile, args, none⟩
    ∀ os' config pm disk, Answered os st name u config pm →
      Launches os' (handleDel st name).1 config disk →
      AsRerun (handleUpdate os st name u).1 (rerun os' st name config) name pm
  | _ => True

/-- Every update that is answered Ok leaves nothing out that was to be done. -/
def UpdatesFit (st : DaemonState) : Event → Prop
  | .request os (.update name port ssl acme envFile args none) =>
    let u : UpdateRequest := ⟨port, ssl, acme, envFile, args, none⟩
    ∀ os' config pm disk, Answered os st name u config pm →
      Launches os' (handleDel st name).1 config disk → FitsRerun os' st name u config pm disk
  | _ => True

theorem updatesAsRerun_iff {st : DaemonState} (hk : Keyed st.processMgr) (hb : TablesBacked st)
    (e : Event) : UpdatesAsRerun st e ↔ UpdatesFit st e := by
  unfold UpdatesAsRerun UpdatesFit
  split
  · refine forall_congr' fun os' => forall_congr' fun config => forall_congr' fun pm => ?_
    refine forall_congr' fun disk => forall_congr' fun hanswered => ?_
    refine forall_congr' fun hlaunches => ?_
    exact asRerun_iff hk hb rfl hanswered hlaunches
  · exact Iff.rfl

/-- A daemon on an empty disk. -/
def freshDaemon : DaemonState := runDaemon (.serving 6 4000) .empty .empty

/-- An app with a port of its own. -/
def webConfig : ProcessConfig :=
  { ProcessConfig.plain "web" "server" with
    mode := .run, portMapping := some { host := none, publicPort := 80, appPort := some 3000 } }

def runWeb : Event := .request (.serving 7 4000) (.run webConfig)

/-- The app moved to other ports. -/
def moveWeb (port : String) : Event :=
  .request (.serving 8 4000) (.update "web" (some port) none none none none none)

/-- The daemon while the app runs. -/
def webRunning : DaemonState := machine.next freshDaemon runWeb

theorem moveWeb_fits {st : DaemonState} {p : ManagedProcess}
    (hp : st.processMgr.lookup "web" = some p) (hssl : p.config.ssl = none)
    (hacme : p.config.acme = none) (hspa : p.config.spa = false) :
    UpdatesFit st (moveWeb "81:3001") := by
  intro os' config pm disk hanswered hlaunches
  obtain ⟨change, q, hchange, hq, rfl⟩ := hanswered.changed
  rw [hp] at hq
  obtain rfl := Option.some.inj hq
  obtain ⟨hport, -, hnossl, hnoacme, -⟩ := configChange_ok hchange
  have hparsed : parsePortMappingStr "81:3001" = .ok ⟨none, 81, some 3001⟩ := by decide +kernel
  simp only [Option.mapM_some, hparsed] at hport
  have hmapped := hanswered.mapped
  rw [apply_portMapping (Except.ok.inj hport).symm] at hmapped
  obtain rfl := Option.some.inj hmapped
  refine ⟨fun _ => by decide, fun hu => ?_, fun c hc => ?_, fun hc => ?_, fun hc => ?_⟩
  · cases hu
  · rw [Process.ConfigChange.apply, hnossl, hssl] at hc
    cases hc
  · rw [Process.ConfigChange.apply, hnoacme, hacme] at hc
    cases hc
  · rw [Process.ConfigChange.apply, hspa] at hc
    cases hc

theorem webRunning_web : ∃ p, webRunning.processMgr.lookup "web" = some p ∧
    p.config.ssl = none ∧ p.config.acme = none ∧ p.config.spa = false := by
  have hkept : (webRunning.processMgr.lookup "web").any (fun p =>
      p.config.ssl.isNone && p.config.acme.isNone && !p.config.spa) = true := by
    decide +kernel
  obtain ⟨p, hp, hkept⟩ := (Option.any_eq_true _ _).1 hkept
  simp only [Bool.and_eq_true, Option.isNone_iff_eq_none, Bool.not_eq_true'] at hkept
  exact ⟨p, hp, hkept.1.1, hkept.1.2, hkept.2⟩

theorem binsUnmapped_moves (st : DaemonState) (port : String) :
    machine.Along BinsUnmapped st [runWeb, moveWeb port] := ⟨trivial, trivial, trivial⟩

theorem updatesFit_moves {st : DaemonState} {port : String}
    (h : UpdatesFit (machine.next st runWeb) (moveWeb port)) :
    machine.Along UpdatesFit st [runWeb, moveWeb port] := ⟨trivial, h, trivial⟩

/-- The daemon after a move to a port without one for the app. -/
def webMoved : DaemonState := machine.next webRunning (moveWeb "8080")

/-- The app deleted and run with that port instead. -/
def webRerun : DaemonState × Response :=
  rerun (.serving 9 4001) webRunning "web"
    { webConfig with portMapping := some { host := none, publicPort := 8080, appPort := none } }

end Daemon
