import NylonRun.Deletions

/-!
# What a request leaves as it was

The handlers of most requests work on the apps: the process table, the disk, the routes and their
ports. The store, the handles of the background tasks, the hosts to renew and the certificates
are each written by the handlers of a few requests only.
-/

open FileTree Effect

namespace Server

/-- The store and the background tasks are the same in two states. -/
structure Settled (st st' : DaemonState) : Prop where
  store : st'.stateStore = st.stateStore
  cloud : st'.cloudShutdown = st.cloudShutdown
  metrics : st'.metricsShutdown = st.metricsShutdown
  exiting : st'.exiting = st.exiting

/-- So are the hosts to renew and the certificates. -/
structure Steady (st st' : DaemonState) : Prop extends Settled st st' where
  acme : st'.acmeConfigs = st.acmeConfigs
  certs : st'.proxyMgr.certStore = st.proxyMgr.certStore

section

variable {os : Os} {st st' st'' : DaemonState}

theorem Settled.refl (st : DaemonState) : Settled st st := ⟨rfl, rfl, rfl, rfl⟩

theorem Steady.refl (st : DaemonState) : Steady st st := ⟨.refl st, rfl, rfl⟩

theorem Steady.trans (h : Steady st st') (h' : Steady st' st'') : Steady st st'' where
  store := h'.store.trans h.store
  cloud := h'.cloud.trans h.cloud
  metrics := h'.metrics.trans h.metrics
  exiting := h'.exiting.trans h.exiting
  acme := h'.acme.trans h.acme
  certs := h'.certs.trans h.certs

theorem steady_managed {α : Type} (st : DaemonState) (x : Managed α) :
    Steady st (st.managed x).1 := by
  rw [DaemonState.managed_fst]
  exact ⟨⟨rfl, rfl, rfl, rfl⟩, rfl, rfl⟩

/-! ### An update and a deletion -/

theorem steady_reroute (name : String) (old : ProcessConfig) :
    Steady st (reroute os st name old).1 := by
  cases hconfig : configOf st.processMgr name with
  | none =>
    unfold reroute
    simp only [hconfig]
    exact ⟨⟨rfl, rfl, rfl, rfl⟩, rfl, rfl⟩
  | some config =>
    cases hpm : config.portMapping with
    | none =>
      unfold reroute
      simp only [hconfig, hpm]
      exact ⟨⟨rfl, rfl, rfl, rfl⟩, rfl, rfl⟩
    | some pm =>
      rw [reroute_of_some hconfig hpm]
      exact ⟨⟨rfl, rfl, rfl, rfl⟩, rfl, ProxyManager.listen_certStore ..⟩

theorem steady_restartUpdated (name : String) : Steady st (restartUpdated os st name).1 := by
  have hrestart := steady_managed st (Process.restart (os.launch name) name)
  unfold restartUpdated
  split
  · exact .refl st
  · split <;> rename_i heq <;> rw [heq] at hrestart <;> exact hrestart

theorem steady_updateLocked (name : String) (reroutes : Bool) (change : Process.ConfigChange)
    (image : Option (String × String)) :
    Steady st (updateLocked os st name reroutes change image).1 := by
  cases hp : st.processMgr.lookup name with
  | none =>
    rw [updateLocked_of_none _ change _ hp]
    exact .refl st
  | some p =>
    rw [updateLocked_of_some reroutes change image hp]
    generalize hst : ({ st with processMgr := _ } : DaemonState) = st'
    have hinsert : Steady st st' := by
      rw [← hst]
      exact ⟨⟨rfl, rfl, rfl, rfl⟩, rfl, rfl⟩
    split
    · have hreroute : Steady st' (reroute os st' name p.config).1 := steady_reroute name p.config
      split <;> rename_i heq <;> rw [heq] at hreroute
      · exact hinsert.trans hreroute
      · exact (hinsert.trans hreroute).trans (steady_restartUpdated name)
    · exact hinsert.trans (steady_restartUpdated name)

theorem steady_update (name : String) (u : UpdateRequest) :
    Steady st (handleUpdate os st name u).1 := by
  unfold handleUpdate
  rw [DaemonState.managed_onDisk]
  have hpulled : Steady st { st with disk := final (pullUpdate os name u.image) st.disk } :=
    ⟨⟨rfl, rfl, rfl, rfl⟩, rfl, rfl⟩
  cases result (pullUpdate os name u.image) st.disk with
  | error e => exact hpulled
  | ok image =>
    dsimp only
    split
    · exact hpulled
    · exact hpulled.trans (steady_updateLocked name _ _ image)

theorem steady_del (name : String) : Steady st (handleDel st name).1 := by
  have hremoved : Steady st { st with proxyMgr := st.proxyMgr.removeRoutes name } :=
    ⟨⟨rfl, rfl, rfl, rfl⟩, rfl, rfl⟩
  have hdelete := steady_managed { st with proxyMgr := st.proxyMgr.removeRoutes name }
    (Process.delete name)
  unfold handleDel
  dsimp only
  split
  · rename_i heq
    rw [heq] at hdelete
    exact hremoved.trans hdelete
  · rename_i heq
    rw [heq] at hdelete
    split <;> exact hremoved.trans hdelete

/-! ### A run -/

/-- A registration changes nothing but the hosts to renew. -/
theorem registerAcme_eq (st : DaemonState) (acme : Option String) (pm : PortMapping) :
    ∃ configs, registerAcme st acme pm = { st with acmeConfigs := configs } := by
  unfold registerAcme spawnAcmeIssue
  split
  · split
    · exact ⟨_, rfl⟩
    · exact ⟨_, rfl⟩
  · exact ⟨_, rfl⟩

/-- What a run leaves, and what it does to the hosts to renew and the certificates. -/
structure RunFrame (st : DaemonState) (config : ProcessConfig) (next : DaemonState × Response) :
    Prop extends Settled st next.1 where
  acme : next.2.isOk = true ∨ next.1.acmeConfigs = st.acmeConfigs
  certs : next.1.proxyMgr.certStore = st.proxyMgr.certStore ∨
    config.ssl.isSome = true ∧ ∃ pm cert, config.portMapping = some pm ∧
      next.1.proxyMgr.certStore = st.proxyMgr.certStore.put (Daemon.certName pm.host) cert

/-- The certificates once the app has its route. -/
theorem certs_listen {config : ProcessConfig} {entry : RouteEntry} {t : FileTree}
    {m : ProxyManager} {pm : PortMapping} (hpm : config.portMapping = some pm)
    (hhost : entry.host = pm.host)
    (hload : (st.proxyMgr.pushRoute entry).loadTls os t entry config.ssl = .ok m) :
    (m.listen entry.port).certStore = st.proxyMgr.certStore ∨
      config.ssl.isSome = true ∧ ∃ pm cert, config.portMapping = some pm ∧
        (m.listen entry.port).certStore =
          st.proxyMgr.certStore.put (Daemon.certName pm.host) cert := by
  rw [ProxyManager.listen_certStore]
  rcases Daemon.Ledger.loadTls_certStore hload with ⟨-, hstore⟩ | ⟨_, cert, hssl, -, hstore⟩
  · exact .inl hstore
  · refine .inr ⟨by rw [hssl]; rfl, pm, cert, hpm, ?_⟩
    rw [hstore, Daemon.certName, ← hhost]
    rfl

/-- The state with the app in its tables, and its host registered. -/
theorem runFrame_registered {config : ProcessConfig} {entry : RouteEntry} {t disk : FileTree}
    {m : ProxyManager} {p pm : PortMapping} (hpm : config.portMapping = some pm)
    (hhost : entry.host = pm.host)
    (hload : (st.proxyMgr.pushRoute entry).loadTls os t entry config.ssl = .ok m)
    (table : ProcessManager) (acme : Option String) (msg : String) :
    RunFrame st config (registerAcme { st with
      processMgr := table, disk := disk, proxyMgr := m.listen entry.port } acme p, .ok msg) := by
  obtain ⟨configs, heq⟩ := registerAcme_eq { st with
    processMgr := table, disk := disk, proxyMgr := m.listen entry.port } acme p
  rw [heq]
  exact ⟨⟨rfl, rfl, rfl, rfl⟩, .inl rfl, certs_listen hpm hhost hload⟩

theorem Steady.runFrame {config : ProcessConfig} (h : Steady st st') (answer : Response) :
    RunFrame st config (st', answer) :=
  ⟨h.toSettled, .inr h.acme, .inl h.certs⟩

theorem runFrame_runSpa {config c : ProcessConfig} {pm pm' : PortMapping}
    (hpm : config.portMapping = some pm') (hhost : pm.host = pm'.host) (hssl : c.ssl = config.ssl) :
    RunFrame st config (runSpa os st c pm) := by
  cases hdir : st.disk.isDir c.path with
  | false =>
    rw [runSpa_of_not_dir hdir]
    exact (Steady.refl st).runFrame _
  | true =>
    cases hload : (st.proxyMgr.pushRoute (spaRoute st c pm)).loadTls os st.disk
        (spaRoute st c pm) c.ssl with
    | error e =>
      rw [runSpa_of_tls hdir hload]
      exact ⟨⟨rfl, rfl, rfl, rfl⟩, .inr rfl, .inl rfl⟩
    | ok m =>
      have hload' := hload
      rw [hssl] at hload'
      cases hold : st.processMgr.lookup c.name with
      | some p =>
        rw [runSpa_of_registered hdir hload (by rw [hold]; rfl)]
        exact ⟨⟨rfl, rfl, rfl, rfl⟩, .inr rfl, certs_listen hpm hhost hload'⟩
      | none =>
        rw [runSpa_ok hdir hload hold]
        exact runFrame_registered hpm hhost hload' _ _ _

theorem runFrame_runProcess {config c : ProcessConfig} {pm pm' : PortMapping}
    (hpm : config.portMapping = some pm') (hhost : pm.host = pm'.host) (hssl : c.ssl = config.ssl) :
    RunFrame st config (runProcess os st c pm) := by
  cases hspawn : Process.spawnProcess (os.launch c.name) c st.toHost with
  | error e h =>
    rw [runProcess_of_spawn hspawn]
    exact ⟨⟨rfl, rfl, rfl, rfl⟩, .inr rfl, .inl rfl⟩
  | ok msg h =>
    cases hload : (st.proxyMgr.pushRoute (processRoute c pm)).loadTls os h.disk
        (processRoute c pm) c.ssl with
    | error e =>
      obtain ⟨-, p, -, htable⟩ := lookup_spawned hspawn
      obtain ⟨t, hrun⟩ := runProcess_of_tls (p := p) hspawn hload (by rw [htable]; simp)
      rw [hrun]
      exact ⟨⟨rfl, rfl, rfl, rfl⟩, .inr rfl, .inl rfl⟩
    | ok m =>
      have hload' := hload
      rw [hssl] at hload'
      rw [runProcess_ok hspawn hload]
      exact runFrame_registered hpm hhost hload' _ _ _

theorem runFrame_run (os : Os) (st : DaemonState) (config : ProcessConfig) :
    RunFrame st config (handleRun os st config) := by
  unfold handleRun
  cases hprep : prepareRun os config with
  | error e => exact (Steady.refl st).runFrame _
  | ok cpm =>
    obtain ⟨c, pm⟩ := cpm
    obtain ⟨hssl, -, pm₀, hpm₀, -, hhost⟩ := prepareRun_asked hprep
    dsimp only
    split
    · exact runFrame_runSpa hpm₀ hhost hssl
    · exact runFrame_runProcess hpm₀ hhost hssl

/-- A run registers the host it asks a certificate for, if it is answered Ok. -/
theorem toRenew_run (os : Os) (st : DaemonState) {config : ProcessConfig} {hostname : String} :
    Daemon.ToRenew (handleRun os st config).1 hostname ↔ Daemon.ToRenew st hostname ∨
      (handleRun os st config).2.isOk = true ∧ config.acme.isSome = true ∧
        config.portMapping.bind (·.host) = some hostname := by
  cases hok : (handleRun os st config).2.isOk with
  | false =>
    have hsame : (handleRun os st config).1.acmeConfigs = st.acmeConfigs :=
      (runFrame_run os st config).acme.resolve_left (by simp [hok])
    unfold Daemon.ToRenew
    simp [hsame]
  | true =>
    obtain ⟨c, pm, p, disk, m, hran⟩ := handleRun_isOk hok
    obtain ⟨-, hacme, pm₀, hpm₀, -, hhost⟩ := prepareRun_asked hran.prepared
    rw [hran.state, Daemon.toRenew_registerAcme, hacme, hhost, hpm₀]
    simp only [true_and, Option.bind_some]
    exact or_comm

/-! ### Every request -/

theorem steady_set (name value : String) : Steady st (handleSet os st name value).1 := by
  obtain ⟨cache, disk, hset⟩ := handleSet_fst os st name value
  rw [hset]
  exact ⟨⟨rfl, rfl, rfl, rfl⟩, rfl, rfl⟩

/-- The requests whose handlers write the store or start and stop background tasks. -/
def Housekeeping : Request → Prop
  | .save | .kill | .link _ | .unlink | .metricsEnable _ | .metricsDisable => True
  | _ => False

/-- What a request about apps, settings or information does to the rest of the daemon. -/
theorem runFrame_request (os : Os) (st : DaemonState) {r : Request} (h : ¬Housekeeping r) :
    Steady st (handleRequest os st r).1 ∨
      ∃ config, r = .run config ∧ RunFrame st config (handleRun os st config) := by
  cases r with
  | bin config => exact .inl (steady_managed st _)
  | run config => exact .inr ⟨config, rfl, runFrame_run os st config⟩
  | del name => exact .inl (steady_del name)
  | restart name | reload name => exact .inl (steady_managed st _)
  | update name port ssl acme envFile args image => exact .inl (steady_update name _)
  | logs name lines =>
    refine .inl ?_
    unfold handleRequest
    dsimp only
    split <;> exact .refl st
  | set name value => exact .inl (steady_set name value)
  | ls | «export» => exact .inl (.refl st)
  | save | kill | link apiKey | unlink | metricsEnable port | metricsDisable =>
    exact absurd trivial h

/-- The other requests leave the hosts to renew and the certificates. -/
theorem housekeeping_request (os : Os) (st : DaemonState) {r : Request} (h : Housekeeping r) :
    (handleRequest os st r).1.acmeConfigs = st.acmeConfigs ∧
      (handleRequest os st r).1.proxyMgr = st.proxyMgr := by
  cases r with
  | save =>
    change (handleSave os st).1.acmeConfigs = _ ∧ (handleSave os st).1.proxyMgr = _
    rw [handleSave_fst]
    exact ⟨rfl, rfl⟩
  | kill =>
    change (handleKill os st).1.acmeConfigs = _ ∧ (handleKill os st).1.proxyMgr = _
    unfold handleKill
    simp only [DaemonState.managed_fst, DaemonState.stored_fst, and_self]
  | link apiKey =>
    obtain ⟨shutdown, hlink⟩ := handleLink_fst os st apiKey
    change (handleLink os st apiKey).1.acmeConfigs = _ ∧ (handleLink os st apiKey).1.proxyMgr = _
    rw [hlink]
    exact ⟨rfl, rfl⟩
  | unlink =>
    change (handleUnlink os st).1.acmeConfigs = _ ∧ (handleUnlink os st).1.proxyMgr = _
    rw [handleUnlink_fst]
    exact ⟨rfl, rfl⟩
  | metricsEnable port | metricsDisable => exact ⟨rfl, rfl⟩
  | bin config | run config | del name | restart name | reload name
  | update name port ssl acme envFile args image | logs name lines | set name value | ls
  | «export» => exact h.elim

/-- The hosts to renew after a request: those before, and that of a run that asks for a certificate
and is answered Ok. -/
theorem toRenew_request (os : Os) (st : DaemonState) (r : Request) (hostname : String) :
    Daemon.ToRenew (handleRequest os st r).1 hostname ↔ Daemon.ToRenew st hostname ∨
      ∃ config, r = .run config ∧ (handleRun os st config).2.isOk = true ∧
        config.acme.isSome = true ∧ config.portMapping.bind (·.host) = some hostname := by
  by_cases hrun : ∃ config, r = .run config
  · obtain ⟨config, rfl⟩ := hrun
    refine (toRenew_run os st).trans (or_congr_right ?_)
    simp
  · have hsame : (handleRequest os st r).1.acmeConfigs = st.acmeConfigs := by
      by_cases h : Housekeeping r
      · exact (housekeeping_request os st h).1
      · rcases runFrame_request os st h with hsteady | ⟨config, heq, -⟩
        · exact hsteady.acme
        · exact absurd ⟨config, heq⟩ hrun
    unfold Daemon.ToRenew
    rw [hsame, or_iff_left]
    rintro ⟨config, heq, -⟩
    exact hrun ⟨config, heq⟩

/-- The certificates after a request: only a run with a certificate of its own puts one. -/
theorem certStore_request (os : Os) (st : DaemonState) (r : Request) :
    (handleRequest os st r).1.proxyMgr.certStore = st.proxyMgr.certStore ∨
      ∃ config pm cert, r = .run config ∧ config.ssl.isSome = true ∧
        config.portMapping = some pm ∧ (handleRequest os st r).1.proxyMgr.certStore =
          st.proxyMgr.certStore.put (Daemon.certName pm.host) cert := by
  by_cases h : Housekeeping r
  · exact .inl (by rw [(housekeeping_request os st h).2])
  · rcases runFrame_request os st h with hsteady | ⟨config, rfl, hrun⟩
    · exact .inl hsteady.certs
    · rcases hrun.certs with hsame | ⟨hssl, pm, cert, hpm, hput⟩
      · exact .inl hsame
      · exact .inr ⟨config, pm, cert, rfl, hssl, hpm, hput⟩

end

end Server
