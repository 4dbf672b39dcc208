import NylonRun.Requests

/-!
# What a failed run or update leaves behind

An SPA is routed before it is registered, and a process is launched before it is routed; a
route is in the table before its certificate is loaded. A failure is undone only in the process
table. An update checks everything before it changes anything, but it pulls a new image first.
-/

open UnixPath FileTree Effect

namespace Server

/-- The tables and the ports of the daemon are as before. -/
structure Unchanged (st st' : DaemonState) : Prop where
  processMgr : st'.processMgr = st.processMgr
  routes : st'.proxyMgr.routes = st.proxyMgr.routes
  ports : st'.proxyMgr.ports = st.proxyMgr.ports
  deadPorts : st'.proxyMgr.deadPorts = st.proxyMgr.deadPorts
  tlsPorts : st'.proxyMgr.tlsPorts = st.proxyMgr.tlsPorts

theorem Unchanged.refl (st : DaemonState) : Unchanged st st := ⟨rfl, rfl, rfl, rfl, rfl⟩

/-- The certificate asked for, if any, can be read from the disk. -/
def certLoads (os : Os) (t : FileTree) (ssl : Option SslConfig) : Bool :=
  ssl.all fun s => (CertStore.loadCert os t s.certPath s.keyPath).isOk

/-- Pushing the route again changes nothing: the table ends with it already, and with no other
of that app. -/
def AlreadyRouted (st : DaemonState) (entry : RouteEntry) : Prop :=
  st.proxyMgr.routes.replace entry = st.proxyMgr.routes

/-- An SPA whose run can only fail before its route is pushed, or whose route and port are set up
already. -/
def SpaLeavesNoTrace (os : Os) (st : DaemonState) (config : ProcessConfig) (pm : PortMapping) :
    Prop :=
  st.disk.isDir config.path = true →
    (certLoads os st.disk config.ssl = false → AlreadyRouted st (spaRoute st config pm)) ∧
    (certLoads os st.disk config.ssl = true → (st.processMgr.lookup config.name).isSome = true →
      AlreadyRouted st (spaRoute st config pm) ∧ pm.publicPort ∈ st.proxyMgr.ports ∧
      pm.publicPort ∉ st.proxyMgr.deadPorts ∧
      (config.ssl.isSome = true → pm.publicPort ∈ st.proxyMgr.tlsPorts))

/-- A process that, once launched, has its certificate loaded, or whose route is there
already. -/
def ProcessLeavesNoTrace (os : Os) (st : DaemonState) (config : ProcessConfig) (pm : PortMapping) :
    Prop :=
  ∀ msg h, Process.spawnProcess (os.launch config.name) config st.toHost = .ok msg h →
    certLoads os h.disk config.ssl = false → AlreadyRouted st (processRoute config pm)

/-- No step of the run that fails comes after one that changes the routes or the ports. -/
def LeavesNoTrace (os : Os) (st : DaemonState) (config : ProcessConfig) : Prop :=
  ∀ c pm, prepareRun os config = .ok (c, pm) →
    if c.spa then SpaLeavesNoTrace os st c pm else ProcessLeavesNoTrace os st c pm

theorem loadTls_certLoads (os : Os) (t : FileTree) (m : ProxyManager) (entry : RouteEntry)
    (ssl : Option SslConfig) :
    (certLoads os t ssl = true ∧ ∃ m', m.loadTls os t entry ssl = .ok m') ∨
      (certLoads os t ssl = false ∧ ∃ e, m.loadTls os t entry ssl = .error e) := by
  rcases ProxyManager.loadTls_cases os t m entry ssl with
    ⟨rfl, hm⟩ | ⟨c, e, rfl, hcert, hm⟩ | ⟨c, cert, rfl, hcert, hm⟩
  · exact .inl ⟨rfl, m, hm⟩
  · refine .inr ⟨?_, e, hm⟩
    rw [certLoads, Option.all_some, hcert]
    rfl
  · refine .inl ⟨?_, _, hm⟩
    rw [certLoads, Option.all_some, hcert]
    rfl

/-- A route pushed, its certificate loaded and its port opened change nothing exactly if all of
it was there. -/
theorem unchanged_listen_iff {os : Os} {st : DaemonState} {m : ProxyManager} {entry : RouteEntry}
    {ssl : Option SslConfig}
    (hload : (st.proxyMgr.pushRoute entry).loadTls os st.disk entry ssl = .ok m) :
    Unchanged st { st with proxyMgr := m.listen entry.port } ↔
      AlreadyRouted st entry ∧ entry.port ∈ st.proxyMgr.ports ∧
      entry.port ∉ st.proxyMgr.deadPorts ∧ (ssl.isSome = true → entry.port ∈ st.proxyMgr.tlsPorts) := by
  obtain ⟨hroutes, hports, hdead, htls⟩ := ProxyManager.loadTls_ok hload
  have hroutes' : (m.listen entry.port).routes = st.proxyMgr.routes.replace entry := by
    rw [ProxyManager.listen_routes, hroutes, ProxyManager.pushRoute_routes]
  have hports' : (m.listen entry.port).ports = st.proxyMgr.ports ↔
      entry.port ∈ st.proxyMgr.ports := by
    rw [ProxyManager.listen_ports, hports]
    change (if entry.port ∈ st.proxyMgr.ports then st.proxyMgr.ports
      else st.proxyMgr.ports ++ [entry.port]) = _ ↔ _
    split <;> simp_all
  have hdead' : (m.listen entry.port).deadPorts = st.proxyMgr.deadPorts ↔
      entry.port ∉ st.proxyMgr.deadPorts := by
    rw [ProxyManager.listen_deadPorts, hdead]
    exact Finset.erase_eq_self
  have htls' : (m.listen entry.port).tlsPorts = st.proxyMgr.tlsPorts ↔
      (ssl.isSome = true → entry.port ∈ st.proxyMgr.tlsPorts) := by
    rw [ProxyManager.listen_tlsPorts, htls]
    split
    · rename_i hssl
      rw [forall_prop_of_true hssl]
      exact Finset.insert_eq_self
    · rename_i hssl
      exact iff_of_true rfl fun h => absurd h hssl
  constructor
  · intro h
    exact ⟨hroutes'.symm.trans h.routes, hports'.1 h.ports, hdead'.1 h.deadPorts, htls'.1 h.tlsPorts⟩
  · rintro ⟨hrouted, hport, hlive, hssl⟩
    exact ⟨rfl, hroutes'.trans hrouted, hports'.2 hport, hdead'.2 hlive, htls'.2 hssl⟩

theorem runSpa_unchanged_iff (os : Os) (st : DaemonState) (config : ProcessConfig)
    (pm : PortMapping) :
    ((runSpa os st config pm).2.isError = true → Unchanged st (runSpa os st config pm).1) ↔
      SpaLeavesNoTrace os st config pm := by
  unfold SpaLeavesNoTrace
  cases hdir : st.disk.isDir config.path with
  | false =>
    rw [runSpa_of_not_dir hdir]
    simp [Unchanged.refl]
  | true =>
    rw [forall_prop_of_true rfl]
    rcases loadTls_certLoads os st.disk (st.proxyMgr.pushRoute (spaRoute st config pm))
      (spaRoute st config pm) config.ssl with ⟨hcert, m, hload⟩ | ⟨hcert, e, hload⟩
    · cases hold : st.processMgr.lookup config.name with
      | none =>
        rw [runSpa_ok hdir hload hold]
        simp [hcert, Response.isError]
      | some p =>
        rw [runSpa_of_registered hdir hload (by rw [hold]; rfl)]
        have hiff : Unchanged st { st with proxyMgr := m.listen pm.publicPort } ↔
            AlreadyRouted st (spaRoute st config pm) ∧ pm.publicPort ∈ st.proxyMgr.ports ∧
              pm.publicPort ∉ st.proxyMgr.deadPorts ∧
              (config.ssl.isSome = true → pm.publicPort ∈ st.proxyMgr.tlsPorts) :=
          unchanged_listen_iff hload
        simpa [hcert, Response.isError] using hiff
    · rw [runSpa_of_tls hdir hload]
      simp only [Response.isError, hcert, true_implies, Bool.false_eq_true, false_implies, and_true]
      exact ⟨fun h => h.routes, fun h => ⟨rfl, h, rfl, rfl, rfl⟩⟩

theorem runProcess_unchanged_iff (os : Os) (st : DaemonState) (config : ProcessConfig)
    (pm : PortMapping) :
    ((runProcess os st config pm).2.isError = true → Unchanged st (runProcess os st config pm).1) ↔
      ProcessLeavesNoTrace os st config pm := by
  unfold ProcessLeavesNoTrace
  rcases Process.spawnProcess_cases (os.launch config.name) config st.toHost with
    ⟨e, t, hspawn⟩ | ⟨hfree, t, t', p, -, -, hspawn⟩
  · rw [runProcess_of_spawn hspawn, hspawn]
    exact iff_of_true (fun _ => ⟨rfl, rfl, rfl, rfl, rfl⟩) fun msg h hok => by cases hok
  · generalize hh : (⟨st.processMgr.insert config.name p, final (Process.writePidFile p) t'⟩ : Host)
      = h at hspawn
    rcases loadTls_certLoads os h.disk (st.proxyMgr.pushRoute (processRoute config pm))
      (processRoute config pm) config.ssl with ⟨hcert, m, hload⟩ | ⟨hcert, e, hload⟩
    · rw [runProcess_ok hspawn hload, hspawn]
      refine iff_of_true (fun herr => by cases herr) fun msg h' hok hfail => ?_
      cases hok
      rw [hcert] at hfail
      cases hfail
    · have hp : h.processMgr.lookup config.name = some p := by rw [← hh]; simp
      obtain ⟨t'', hrun⟩ := runProcess_of_tls hspawn hload hp
      rw [hrun, hspawn]
      constructor
      · intro hunchanged msg h' hok hfail
        exact (hunchanged rfl).routes
      · intro hrouted _
        -- the app launched is taken out again
        have htable : h.processMgr.erase config.name = st.processMgr := by
          rw [← hh]
          exact ProcessManager.erase_insert_of_none p hfree
        exact ⟨htable, hrouted _ _ rfl hcert, rfl, rfl, rfl⟩

/-- A run that fails leaves the process table, the routes and the ports as they were exactly if
no step of it that fails comes after one that changes them. -/
theorem failed_run_unchanged_iff (os : Os) (st : DaemonState) (config : ProcessConfig) :
    ((handleRun os st config).2.isError = true → Unchanged st (handleRun os st config).1) ↔
      LeavesNoTrace os st config := by
  unfold handleRun
  cases hprep : prepareRun os config with
  | error e =>
    refine iff_of_true (fun _ => .refl st) fun c pm h => ?_
    rw [hprep] at h
    cases h
  | ok cpm =>
    obtain ⟨c, pm⟩ := cpm
    have hcond : LeavesNoTrace os st config ↔
        if c.spa then SpaLeavesNoTrace os st c pm else ProcessLeavesNoTrace os st c pm := by
      refine ⟨fun h => h c pm hprep, fun h c' pm' heq => ?_⟩
      rw [hprep] at heq
      cases heq
      exact h
    rw [hcond]
    dsimp only
    split
    · exact runSpa_unchanged_iff os st c pm
    · exact runProcess_unchanged_iff os st c pm

/-- The daemon on a disk with a directory `/site`, once an app `web` runs on port 80. -/
def webDaemon : DaemonState :=
  (handleRun (.serving 7 4000)
    (.initial .empty (final (createDirAll (components "/site")) .empty))
    { ProcessConfig.plain "web" "server" with
      mode := .run, portMapping := some { host := none, publicPort := 80, appPort := some 3000 } }).1

/-- The same name asked for again, for a directory. -/
def siteConfig : ProcessConfig :=
  { ProcessConfig.plain "web" "/site" with
    mode := .run, spa := true
    portMapping := some { host := none, publicPort := 80, appPort := some 3000 } }

/-- An SPA under a name that is taken is refused, and yet takes the route of the app that runs
under it. -/
theorem refused_spa_takes_route :
    (handleRun (.serving 8 4000) webDaemon siteConfig).2.isError = true ∧
      webDaemon.proxyMgr.routes = [⟨"web", 80, none, .proxy 3000⟩] ∧
      (handleRun (.serving 8 4000) webDaemon siteConfig).1.proxyMgr.routes =
        [⟨"web", 80, none, .spa "/site"⟩] := by
  decide +kernel

/-! ## An update that is refused -/

/-- The disk once an update has pulled the image that it names, if any. -/
def pulledDisk (os : Os) (st : DaemonState) (name : String) (u : UpdateRequest) : FileTree :=
  final (pullUpdate os name u.image) st.disk

/-- An update names an image to pull. -/
def Pulls (os : Os) (u : UpdateRequest) : Prop :=
  ∃ imgRef, u.image = some imgRef ∧ Oci.isOciReference os.isAlphanumeric imgRef = true

/-- What is wrong with an update: the name, the image, the ports or the env file. -/
def Invalid (os : Os) (st : DaemonState) (name : String) (u : UpdateRequest) : Prop :=
  st.processMgr.lookup name = none ∨
    (∃ imgRef, u.image = some imgRef ∧ Oci.isOciReference os.isAlphanumeric imgRef = false) ∨
    (∃ port, u.port = some port ∧ (parsePortMappingStr port).isOk = false) ∨
    ∃ path, u.envFile = some path ∧ ((pulledDisk os st name u).readToString path).isOk = false

theorem pullUpdate_of_not_reference {os : Os} {imgRef : String}
    (h : Oci.isOciReference os.isAlphanumeric imgRef = false) (name : String) (t : FileTree) :
    pullUpdate os name (some imgRef) t =
      .error s!"'{imgRef}' is not a valid OCI image reference" t := by
  have hrefused : ¬Oci.isOciReference os.isAlphanumeric imgRef = true := by simp [h]
  unfold pullUpdate
  dsimp only
  rw [if_pos hrefused]
  rfl

theorem pulledDisk_of_not_pulls {os : Os} {u : UpdateRequest} (h : ¬Pulls os u) (st : DaemonState)
    (name : String) : pulledDisk os st name u = st.disk := by
  unfold pulledDisk
  cases himage : u.image with
  | none => rfl
  | some imgRef =>
    have hrefused : Oci.isOciReference os.isAlphanumeric imgRef = false :=
      Bool.eq_false_iff.2 fun href => h ⟨imgRef, himage, href⟩
    rw [final_of_error (pullUpdate_of_not_reference hrefused name st.disk)]

/-- A change is not made of ports or of a file that cannot be read. -/
theorem configChange_error {os : Os} {t : FileTree} {u : UpdateRequest}
    (h : (∃ port, u.port = some port ∧ (parsePortMappingStr port).isOk = false) ∨
      ∃ path, u.envFile = some path ∧ (t.readToString path).isOk = false) :
    ∃ e, configChange os t u = .error e := by
  cases hchange : configChange os t u with
  | error e => exact ⟨e, rfl⟩
  | ok change =>
    obtain ⟨hport, henv, -⟩ := configChange_ok hchange
    rcases h with ⟨port, hasked, hparse⟩ | ⟨path, hasked, hread⟩
    · rw [hasked, Option.mapM_some] at hport
      cases hresult : parsePortMappingStr port with
      | error e => rw [hresult] at hport; cases hport
      | ok pm => rw [hresult] at hparse; cases hparse
    · rw [hasked, Option.mapM_some] at henv
      unfold parseEnvFileStr at henv
      cases hresult : t.readToString path with
      | error e => rw [hresult] at henv; cases henv
      | ok content => rw [hresult] at hread; cases hread

theorem handleUpdate_of_invalid {os : Os} {st : DaemonState} {name : String} {u : UpdateRequest}
    (h : Invalid os st name u) :
    ∃ e, handleUpdate os st name u = ({ st with disk := pulledDisk os st name u }, .error e) := by
  unfold handleUpdate
  rw [DaemonState.managed_onDisk]
  cases hpull : result (pullUpdate os name u.image) st.disk with
  | error e => exact ⟨e, rfl⟩
  | ok image =>
    dsimp only
    cases hchange : configChange os (final (pullUpdate os name u.image) st.disk) u with
    | error e => exact ⟨e, rfl⟩
    | ok change =>
      dsimp only
      rcases h with hunknown | ⟨imgRef, himage, href⟩ | hparts
      · exact ⟨_, updateLocked_of_none _ change image hunknown⟩
      · rw [himage, result, pullUpdate_of_not_reference href] at hpull
        cases hpull
      · obtain ⟨e, herror⟩ := configChange_error hparts
        rw [pulledDisk, hchange] at herror
        cases herror

/-- An update with something wrong in it is refused, and leaves everything but the disk as it
was. The disk is as the pull of the image leaves it, so that it too is as it was where there is
none to pull. Arguments that do not split are not wrong: they are taken as none. -/
theorem invalid_update_changes_nothing (os : Os) (st : DaemonState) (name : String)
    (u : UpdateRequest) :
    (Invalid os st name u → ∃ e, handleUpdate os st name u =
      ({ st with disk := pulledDisk os st name u }, .error e)) ∧
    (¬Pulls os u → pulledDisk os st name u = st.disk) ∧
    ∀ args empty, os.shlexSplit args = none → os.shlexSplit empty = some [] →
      handleUpdate os st name { u with args := some args } =
        handleUpdate os st name { u with args := some empty } := by
  refine ⟨handleUpdate_of_invalid, fun h => pulledDisk_of_not_pulls h st name, ?_⟩
  intro args empty hargs hempty
  have hchange : ∀ t, configChange os t { u with args := some args } =
      configChange os t { u with args := some empty } := by
    intro t
    unfold configChange
    simp only [Option.map_some, hargs, hempty]
    rfl
  unfold handleUpdate
  simp only [hchange]

/-- An update whose ports cannot be read is refused and changes nothing. -/
theorem invalid_ports_change_nothing :
    ∃ e, handleUpdate (.serving 8 4000) webDaemon "web" { port := some "http" } =
      (webDaemon, .error e) := by
  generalize webDaemon = st
  obtain ⟨hrefused, hdisk, -⟩ :=
    invalid_update_changes_nothing (.serving 8 4000) st "web" { port := some "http" }
  have hinvalid : Invalid (.serving 8 4000) st "web" { port := some "http" } :=
    .inr (.inr (.inl ⟨"http", rfl, by decide +kernel⟩))
  have hnone : ¬Pulls (.serving 8 4000) { port := some "http" } := by
    rintro ⟨imgRef, himage, -⟩
    cases himage
  obtain ⟨e, hupdate⟩ := hrefused hinvalid
  rw [hdisk hnone] at hupdate
  exact ⟨e, hupdate⟩

/-- An outside in which an unclosed quote does not split. -/
def quotingOs : Os :=
  { Os.serving 8 4000 with shlexSplit := fun text => if text = "\"" then none else some [text] }

/-- An outside with an image that names its entrypoint. -/
def imageOs : Os :=
  { Os.serving 8 4000 with
    prePull := Oci.publishing "ghcr.io/web:2" "Entrypoint" ["server"] 8 }

/-- Arguments that do not split restart the app, and a new image is on the disk although the ports
beside it are refused. -/
theorem invalid_update_changes_state :
    quotingOs.shlexSplit "\"" = none ∧
      (handleUpdate quotingOs webDaemon "web" { args := some "\"" }).2.isError = false ∧
      (result (pullUpdate imageOs "web" (some "ghcr.io/web:2")) webDaemon.disk).isOk = true ∧
      (handleUpdate imageOs webDaemon "web"
        { image := some "ghcr.io/web:2", port := some "http" }).2.isError = true ∧
      webDaemon.disk.pathExists "/var/run/nyrun/oci/web/.oci-config.json" = false ∧
      (handleUpdate imageOs webDaemon "web"
        { image := some "ghcr.io/web:2", port := some "http" }).1.disk.pathExists
          "/var/run/nyrun/oci/web/.oci-config.json" = true := by
  decide +kernel

end Server
