import NylonRun.Certificates
import NylonRun.Listeners

/-!
# What a deletion leaves of an app

A run can write to six places: the process table, the routes, the ports, the TLS ports, the
certificates and the hosts to renew. A deletion clears the first three; a port once made a TLS
port stays one, and a certificate and a registration stay where they are.
-/

open UnixPath FileTree Effect

namespace Daemon

open Server

/-- The host is in the list of those whose certificates are renewed. -/
def ToRenew (st : DaemonState) (hostname : String) : Prop :=
  st.acmeConfigs.any (·.1 = hostname) = true

instance (st : DaemonState) (hostname : String) : Decidable (ToRenew st hostname) :=
  inferInstanceAs (Decidable (_ = true))

/-- The name that the certificate of a route is kept under. -/
def certName (host : Option String) : String := host.getD "default"

/-- The daemon keeps something for a port or a host beside processes and routes. -/
def Marked (st : DaemonState) (port : UInt16) (host : Option String) : Prop :=
  port ∈ st.proxyMgr.tlsPorts ∨ (st.proxyMgr.certStore.get (certName host)).isSome = true ∨
    ∃ hostname, host = some hostname ∧ ToRenew st hostname

/-- Nothing of an app is left in the state of the daemon. -/
structure NoTrace (st : DaemonState) (name : String) (port : UInt16) (host : Option String) :
    Prop where
  process : st.processMgr.lookup name = none
  routes : st.proxyMgr.routes.of name = []
  tlsPort : port ∉ st.proxyMgr.tlsPorts
  cert : st.proxyMgr.certStore.get (certName host) = none
  renewal : ∀ hostname, host = some hostname → ¬ToRenew st hostname

/-- What happens is about other apps: their runs use another port and another host, and a
certificate is issued for the host of this one only where it is registered. -/
def Elsewhere (port : UInt16) (host : Option String) (st : DaemonState) : Event → Prop
  | .request _ (.run config) => ∀ pm, config.portMapping = some pm →
      pm.publicPort ≠ port ∧ certName pm.host ≠ certName host
  | .issued hostname _ => hostname = certName host → host = some hostname ∧ ToRenew st hostname
  | _ => True

/-! ## What each event leaves alone -/

/-- What is kept for a port and under a name is the same in two states. -/
structure Spared (port : UInt16) (key : String) (st st' : DaemonState) : Prop where
  tlsPort : port ∈ st'.proxyMgr.tlsPorts ↔ port ∈ st.proxyMgr.tlsPorts
  cert : st'.proxyMgr.certStore.get key = st.proxyMgr.certStore.get key
  renewal : ToRenew st' key ↔ ToRenew st key

section

variable {port : UInt16} {key : String} {host : Option String} {os : Os}
  {st st' st'' : DaemonState}

theorem Spared.refl (st : DaemonState) : Spared port key st st := ⟨Iff.rfl, rfl, Iff.rfl⟩

theorem Spared.trans (h : Spared port key st st') (h' : Spared port key st' st'') :
    Spared port key st st'' :=
  ⟨h'.tlsPort.trans h.tlsPort, h'.cert.trans h.cert, h'.renewal.trans h.renewal⟩

theorem Spared.marked_iff (h : Spared port (certName host) st st') :
    Marked st' port host ↔ Marked st port host := by
  unfold Marked
  rw [h.tlsPort, h.cert]
  refine or_congr_right (or_congr_right ⟨?_, ?_⟩)
  · rintro ⟨hostname, rfl, hreg⟩
    exact ⟨hostname, rfl, h.renewal.1 hreg⟩
  · rintro ⟨hostname, rfl, hreg⟩
    exact ⟨hostname, rfl, h.renewal.2 hreg⟩

/-- A program of the process manager touches nothing of this. -/
theorem spared_managed {α : Type} (st : DaemonState) (x : Managed α) :
    Spared port key st (st.managed x).1 := by
  rw [DaemonState.managed_fst]
  exact ⟨Iff.rfl, rfl, Iff.rfl⟩

theorem toRenew_registerAcme (st : DaemonState) (acme : Option String) (pm : PortMapping) :
    ToRenew (registerAcme st acme pm) key ↔
      (acme.isSome = true ∧ pm.host = some key) ∨ ToRenew st key := by
  cases acme with
  | none => simp [registerAcme]
  | some email =>
    cases hhost : pm.host with
    | none => simp [registerAcme, hhost]
    | some hostname =>
      have hrun : registerAcme st (some email) pm = spawnAcmeIssue st hostname email := by
        simp [registerAcme, hhost]
      rw [hrun, Option.some.injEq]
      unfold spawnAcmeIssue
      by_cases hany : st.acmeConfigs.any (·.1 = hostname) = true
      · rw [if_pos hany]
        refine ⟨.inr, ?_⟩
        rintro (⟨-, rfl⟩ | hreg)
        · exact hany
        · exact hreg
      · rw [if_neg hany]
        unfold ToRenew
        simp [List.any_append, or_comm]

/-- The certificate of a route that is loaded goes to the route's port and host. -/
theorem spared_loadTls {t : FileTree} {m : ProxyManager} {entry : RouteEntry}
    {ssl : Option SslConfig}
    (hload : (st.proxyMgr.pushRoute entry).loadTls os t entry ssl = .ok m)
    (hport : entry.port ≠ port) (hkey : certName entry.host ≠ key) (disk : FileTree)
    (table : ProcessManager) : Spared port key st { st with
      processMgr := table, disk := disk, proxyMgr := m.listen entry.port } := by
  obtain ⟨-, -, -, htls⟩ := ProxyManager.loadTls_ok hload
  refine ⟨?_, ?_, Iff.rfl⟩
  · rw [ProxyManager.listen_tlsPorts, htls]
    split
    · rw [Finset.mem_insert]
      exact or_iff_right (Ne.symm hport)
    · rfl
  · rw [ProxyManager.listen_certStore]
    rcases Ledger.loadTls_certStore hload with ⟨-, hstore⟩ | ⟨_, cert, -, -, hstore⟩
    · rw [hstore]
      rfl
    · have hne : key ≠ entry.host.getD "default" := Ne.symm hkey
      rw [hstore, CertStore.get_put, if_neg hne]
      rfl

theorem spared_registerAcme {acme : Option String} {pm : PortMapping}
    (hkey : certName pm.host ≠ key) : Spared port key st (registerAcme st acme pm) := by
  refine ⟨by rw [registerAcme_proxyMgr], by rw [registerAcme_proxyMgr], ?_⟩
  rw [toRenew_registerAcme]
  refine or_iff_right ?_
  rintro ⟨-, hhost⟩
  exact hkey (by rw [hhost]; rfl)

/-! ### A run of another app -/

theorem spared_runSpa {config : ProcessConfig} {pm : PortMapping} (hport : pm.publicPort ≠ port)
    (hkey : certName pm.host ≠ key) : Spared port key st (runSpa os st config pm).1 := by
  cases hdir : st.disk.isDir config.path with
  | false =>
    rw [runSpa_of_not_dir hdir]
    exact .refl st
  | true =>
    cases hload : (st.proxyMgr.pushRoute (spaRoute st config pm)).loadTls os st.disk
        (spaRoute st config pm) config.ssl with
    | error e =>
      rw [runSpa_of_tls hdir hload]
      exact ⟨Iff.rfl, rfl, Iff.rfl⟩
    | ok m =>
      cases hold : st.processMgr.lookup config.name with
      | some p =>
        rw [runSpa_of_registered hdir hload (by rw [hold]; rfl)]
        exact spared_loadTls hload hport hkey st.disk st.processMgr
      | none =>
        rw [runSpa_ok hdir hload hold]
        exact (spared_loadTls hload hport hkey st.disk _).trans (spared_registerAcme hkey)

theorem spared_runProcess {config : ProcessConfig} {pm : PortMapping} (hport : pm.publicPort ≠ port)
    (hkey : certName pm.host ≠ key) : Spared port key st (runProcess os st config pm).1 := by
  cases hspawn : Process.spawnProcess (os.launch config.name) config st.toHost with
  | error e h =>
    rw [runProcess_of_spawn hspawn]
    exact ⟨Iff.rfl, rfl, Iff.rfl⟩
  | ok msg h =>
    cases hload : (st.proxyMgr.pushRoute (processRoute config pm)).loadTls os h.disk
        (processRoute config pm) config.ssl with
    | error e =>
      obtain ⟨-, p, -, htable⟩ := lookup_spawned hspawn
      obtain ⟨t, hrun⟩ := runProcess_of_tls (p := p) hspawn hload (by rw [htable]; simp)
      rw [hrun]
      exact ⟨Iff.rfl, rfl, Iff.rfl⟩
    | ok m =>
      rw [runProcess_ok hspawn hload]
      exact (spared_loadTls hload hport hkey h.disk h.processMgr).trans (spared_registerAcme hkey)

theorem spared_run {config : ProcessConfig} (h : ∀ pm, config.portMapping = some pm →
    pm.publicPort ≠ port ∧ certName pm.host ≠ key) :
    Spared port key st (handleRun os st config).1 := by
  unfold handleRun
  cases hprep : prepareRun os config with
  | error e => exact .refl st
  | ok cpm =>
    obtain ⟨c, pm⟩ := cpm
    obtain ⟨-, -, pm₀, hpm₀, hpublic, hhost⟩ := prepareRun_asked hprep
    obtain ⟨hport, hkey⟩ := h pm₀ hpm₀
    rw [← hpublic] at hport
    rw [← hhost] at hkey
    dsimp only
    by_cases hspa : c.spa = true
    · rw [if_pos hspa]
      exact spared_runSpa hport hkey
    · rw [if_neg hspa]
      exact spared_runProcess hport hkey

/-! ### The other requests -/

theorem spared_listen {entry : RouteEntry} (name : String) : Spared port key st { st with
    proxyMgr := ((st.proxyMgr.removeRoutes name).pushRoute entry).listen entry.port } := by
  refine ⟨?_, ?_, Iff.rfl⟩
  · rw [ProxyManager.listen_tlsPorts]
    rfl
  · rw [ProxyManager.listen_certStore]
    rfl

/-- The new route of an update comes without a certificate. -/
theorem spared_reroute (name : String) (old : ProcessConfig) :
    Spared port key st (reroute os st name old).1 := by
  cases hconfig : configOf st.processMgr name with
  | none =>
    unfold reroute
    simp only [hconfig]
    exact ⟨Iff.rfl, rfl, Iff.rfl⟩
  | some config =>
    cases hpm : config.portMapping with
    | none =>
      unfold reroute
      simp only [hconfig, hpm]
      exact ⟨Iff.rfl, rfl, Iff.rfl⟩
    | some pm =>
      rw [reroute_of_some hconfig hpm]
      exact spared_listen name

theorem spared_restartUpdated (name : String) :
    Spared port key st (restartUpdated os st name).1 := by
  have hrestart : Spared port key st (st.managed (Process.restart (os.launch name) name)).1 :=
    spared_managed st _
  unfold restartUpdated
  split
  · exact .refl st
  · split <;> rename_i heq <;> rw [heq] at hrestart <;> exact hrestart

theorem spared_updateLocked (name : String) (reroutes : Bool) (change : Process.ConfigChange)
    (image : Option (String × String)) :
    Spared port key st (updateLocked os st name reroutes change image).1 := by
  cases hp : st.processMgr.lookup name with
  | none =>
    rw [updateLocked_of_none _ change _ hp]
    exact .refl st
  | some p =>
    rw [updateLocked_of_some reroutes change image hp]
    generalize hst : ({ st with processMgr := _ } : DaemonState) = st'
    have hinsert : Spared port key st st' := by
      rw [← hst]
      exact ⟨Iff.rfl, rfl, Iff.rfl⟩
    split
    · have hreroute : Spared port key st' (reroute os st' name p.config).1 :=
        spared_reroute name p.config
      split <;> rename_i heq <;> rw [heq] at hreroute
      · exact hinsert.trans hreroute
      · exact (hinsert.trans hreroute).trans (spared_restartUpdated name)
    · exact hinsert.trans (spared_restartUpdated name)

theorem spared_update (name : String) (u : UpdateRequest) :
    Spared port key st (handleUpdate os st name u).1 := by
  unfold handleUpdate
  rw [DaemonState.managed_onDisk]
  cases result (pullUpdate os name u.image) st.disk with
  | error e => exact ⟨Iff.rfl, rfl, Iff.rfl⟩
  | ok image =>
    dsimp only
    split
    · exact ⟨Iff.rfl, rfl, Iff.rfl⟩
    · have hpulled : Spared port key st
          { st with disk := final (pullUpdate os name u.image) st.disk } := ⟨Iff.rfl, rfl, Iff.rfl⟩
      exact hpulled.trans (spared_updateLocked name _ _ image)

theorem spared_del (name : String) : Spared port key st (handleDel st name).1 := by
  have hacme : (handleDel st name).1.acmeConfigs = st.acmeConfigs := by
    unfold handleDel
    have hdelete := DaemonState.managed_fst
      { st with proxyMgr := st.proxyMgr.removeRoutes name } (Process.delete name)
    dsimp only
    split
    · rename_i heq
      rw [heq] at hdelete
      rw [hdelete]
    · rename_i heq
      rw [heq] at hdelete
      split <;> rw [hdelete]
  obtain ⟨-, hproxy⟩ := handleDel_tables st name
  refine ⟨by rw [hproxy]; rfl, by rw [hproxy]; rfl, ?_⟩
  unfold ToRenew
  rw [hacme]

theorem spared_save : Spared port key st (handleSave os st).1 := by
  rw [handleSave_fst]
  exact ⟨Iff.rfl, rfl, Iff.rfl⟩

theorem spared_link (apiKey : String) : Spared port key st (handleLink os st apiKey).1 := by
  obtain ⟨shutdown, hlink⟩ := handleLink_fst os st apiKey
  rw [hlink]
  exact ⟨Iff.rfl, rfl, Iff.rfl⟩

theorem spared_unlink : Spared port key st (handleUnlink os st).1 := by
  rw [handleUnlink_fst]
  exact ⟨Iff.rfl, rfl, Iff.rfl⟩

theorem spared_set (name value : String) : Spared port key st (handleSet os st name value).1 := by
  obtain ⟨cache, disk, hset⟩ := handleSet_fst os st name value
  rw [hset]
  exact ⟨Iff.rfl, rfl, Iff.rfl⟩

theorem spared_kill : Spared port key st (handleKill os st).1 := by
  unfold handleKill
  simp only [DaemonState.managed_fst, DaemonState.stored_fst]
  exact ⟨Iff.rfl, rfl, Iff.rfl⟩

/-- Nothing but a run or an issued certificate marks a port or a host. -/
theorem spared_request (r : Request) (h : ∀ config, r = .run config → ∀ pm,
    config.portMapping = some pm → pm.publicPort ≠ port ∧ certName pm.host ≠ key) :
    Spared port key st (handleRequest os st r).1 := by
  cases r with
  | bin config => exact spared_managed st _
  | run config => exact spared_run (h config rfl)
  | del name => exact spared_del name
  | restart name | reload name => exact spared_managed st _
  | update name port ssl acme envFile args image => exact spared_update name _
  | logs name lines =>
    unfold handleRequest
    dsimp only
    split <;> exact .refl st
  | set name value => exact spared_set name value
  | save => exact spared_save
  | kill => exact spared_kill
  | link apiKey => exact spared_link apiKey
  | unlink => exact spared_unlink
  | ls | «export» => exact .refl st
  | metricsEnable port | metricsDisable => exact ⟨Iff.rfl, rfl, Iff.rfl⟩

theorem marked_step {e : Event} (he : Elsewhere port host st e) :
    Marked (machine.next st e) port host ↔ Marked st port host := by
  cases e with
  | request os r =>
    have hspared : Spared port (certName host) st (handleRequest os st r).1 :=
      spared_request r fun config hr => by
        subst hr
        exact he
    exact hspared.marked_iff
  | tick os =>
    have hspared : Spared port (certName host) st
        (st.managed (Process.checkAndRestart os.launch os.tryWait)).1 := spared_managed st _
    exact hspared.marked_iff
  | disk t => exact Iff.rfl
  | issued hostname cert =>
    by_cases hown : hostname = certName host
    · obtain ⟨rfl, hreg⟩ := he hown
      exact iff_of_true (.inr (.inr ⟨hostname, rfl, hreg⟩)) (.inr (.inr ⟨hostname, rfl, hreg⟩))
    · have hspared : Spared port (certName host) st (machine.next st (.issued hostname cert)) := by
        refine ⟨Iff.rfl, ?_, Iff.rfl⟩
        change (st.proxyMgr.certStore.put hostname cert).get (certName host) = _
        rw [CertStore.get_put, if_neg (Ne.symm hown)]
      exact hspared.marked_iff

theorem marked_run {events : List Event} (h : machine.Along (Elsewhere port host) st events) :
    Marked (machine.run st events) port host ↔ Marked st port host := by
  induction events generalizing st with
  | nil => exact Iff.rfl
  | cons e events ih => exact (ih h.2).trans (marked_step h.1)

/-! ## The run and the deletion -/

/-- A run answered Ok marks its port and host where it asks for a certificate. -/
theorem marked_ranOk {config c : ProcessConfig} {pm : PortMapping} {p : ManagedProcess}
    {disk : FileTree} {m : ProxyManager} (hran : RanOk os st config c pm p disk m) :
    Marked (handleRun os st config).1 pm.publicPort pm.host ↔
      config.ssl.isSome = true ∨ config.acme.isSome = true ∨ Marked st pm.publicPort pm.host := by
  obtain ⟨hssl, hacme, pm₀, hpm₀, hpublic, hhost⟩ := prepareRun_asked hran.prepared
  have htls : (handleRun os st config).1.proxyMgr.tlsPorts =
      if config.ssl.isSome then insert pm.publicPort st.proxyMgr.tlsPorts
      else st.proxyMgr.tlsPorts := by
    obtain ⟨-, -, -, hloaded⟩ := ProxyManager.loadTls_ok hran.loaded
    rw [hran.proxyMgr, ProxyManager.listen_tlsPorts, hloaded, runRoute_port, hssl]
    rfl
  cases hasked : config.ssl with
  | some ssl =>
    rw [hasked] at htls
    refine iff_of_true (.inl ?_) (.inl rfl)
    rw [htls]
    exact Finset.mem_insert_self _ _
  | none =>
    rw [hasked] at htls hssl
    have hcert : (handleRun os st config).1.proxyMgr.certStore = st.proxyMgr.certStore := by
      rcases Ledger.loadTls_certStore hran.loaded with ⟨-, hstore⟩ | ⟨ssl, -, hsome, -⟩
      · rw [hran.proxyMgr, ProxyManager.listen_certStore, hstore]
        rfl
      · rw [hssl] at hsome
        cases hsome
    have hreg : ∀ hostname, ToRenew (handleRun os st config).1 hostname ↔
        (c.acme.isSome = true ∧ pm.host = some hostname) ∨ ToRenew st hostname := by
      intro hostname
      rw [hran.state, toRenew_registerAcme]
      rfl
    unfold Marked
    rw [htls, hcert]
    simp only [hreg, hacme]
    constructor
    · rintro (hmarked | hmarked | ⟨hostname, hhost, ⟨hsome, -⟩ | hmarked⟩)
      · exact .inr (.inr (.inl hmarked))
      · exact .inr (.inr (.inr (.inl hmarked)))
      · exact .inr (.inl hsome)
      · exact .inr (.inr (.inr (.inr ⟨hostname, hhost, hmarked⟩)))
    · rintro (hnone | hsome | hmarked | hmarked | ⟨hostname, hhost, hmarked⟩)
      · cases hnone
      · -- a run that asks for a registration has a host
        obtain ⟨pm₁, hpm₁, hneeds, -⟩ := prepareRun_ok hran.prepared
        rw [hpm₀] at hpm₁
        cases hpm₁
        obtain ⟨hostname, hhost₀⟩ := Option.isSome_iff_exists.1 (hneeds hsome)
        rw [hhost₀] at hhost
        exact .inr (.inr ⟨hostname, hhost, .inl ⟨hsome, hhost⟩⟩)
      · exact .inl hmarked
      · exact .inr (.inl hmarked)
      · exact .inr (.inr ⟨hostname, hhost, .inr hmarked⟩)

/-- What is left after a deletion is what was marked. -/
theorem noTrace_del_iff (name : String) :
    NoTrace (handleDel st name).1 name port host ↔ ¬Marked st port host := by
  have hspared : Spared port (certName host) st (handleDel st name).1 := spared_del name
  rw [← hspared.marked_iff]
  obtain ⟨htable, hproxy⟩ := handleDel_tables st name
  constructor
  · rintro ⟨-, -, htls, hcert, hrenewal⟩ (hmarked | hmarked | ⟨hostname, hhost, hmarked⟩)
    · exact htls hmarked
    · rw [hcert] at hmarked
      cases hmarked
    · exact hrenewal hostname hhost hmarked
  · intro hunmarked
    refine ⟨?_, ?_, fun h => hunmarked (.inl h), ?_, fun hostname hhost h =>
      hunmarked (.inr (.inr ⟨hostname, hhost, h⟩))⟩
    · rw [htable, ProcessManager.lookup_erase, if_pos rfl]
    · rw [hproxy, ProxyManager.removeRoutes_routes, RouteTable.of_without, if_pos rfl]
    · exact Option.not_isSome_iff_eq_none.1 fun h => hunmarked (.inr (.inl h))

/-- A run answered Ok, whatever happens to other apps, and a deletion leave no trace of the app
exactly if it asked for no certificate and its port and host were not marked before. -/
theorem del_undoes_run_iff {config : ProcessConfig} {pm : PortMapping} {between : List Event}
    (hpm : config.portMapping = some pm) (hok : (handleRun os st config).2.isOk = true)
    (hbetween : machine.Along (Elsewhere pm.publicPort pm.host)
      (machine.next st (.request os (.run config))) between) (os' : Os) :
    NoTrace (machine.run st (.request os (.run config) :: (between ++
        [.request os' (.del config.name)]))) config.name pm.publicPort pm.host ↔
      config.ssl = none ∧ config.acme = none ∧ ¬Marked st pm.publicPort pm.host := by
  obtain ⟨c, pm', p, disk, m, hran⟩ := handleRun_isOk hok
  obtain ⟨-, -, pm₀, hpm₀, hpublic, hhost⟩ := prepareRun_asked hran.prepared
  rw [hpm] at hpm₀
  cases hpm₀
  have hmarked := marked_ranOk hran
  rw [hpublic, hhost] at hmarked
  rw [Machine.run_cons, Machine.run_append]
  generalize hst : machine.run (machine.next st (.request os (.run config))) between = st'
  have hafter : Marked st' pm.publicPort pm.host ↔
      config.ssl.isSome = true ∨ config.acme.isSome = true ∨ Marked st pm.publicPort pm.host := by
    rw [← hst, marked_run hbetween]
    exact hmarked
  change NoTrace (handleDel st' config.name).1 config.name pm.publicPort pm.host ↔ _
  rw [noTrace_del_iff, hafter, not_or, not_or, Option.not_isSome_iff_eq_none,
    Option.not_isSome_iff_eq_none]

end

/-- A daemon that manages nothing yet, on a disk with a certificate. -/
def started : DaemonState := .initial .empty (final (write "cert.pem" [1]) .empty)

theorem not_marked_started (port : UInt16) (host : Option String) : ¬Marked started port host := by
  have hempty : (∅ : Dict String TlsCertificate).lookup (certName host) = none := rfl
  unfold Marked
  rintro (hmarked | hmarked | ⟨hostname, -, hmarked⟩)
  · exact Finset.notMem_empty _ hmarked
  · unfold started DaemonState.initial ProxyManager.new CertStore.empty CertStore.get at hmarked
    dsimp only at hmarked
    rw [hempty] at hmarked
    split at hmarked <;> cases hmarked
  · cases hmarked

/-- The run of another app, on a port and a host of its own. -/
def blogRun : Event :=
  .request (.serving 8 4001) (.run { ProcessConfig.plain "blog" "server" with
    mode := .run
    portMapping := some { host := some "blog.example.com", publicPort := 80, appPort := some 8001 } })

theorem elsewhere_blogRun (st : DaemonState) : Elsewhere 443 (some "example.com") st blogRun := by
  intro pm hpm
  cases hpm
  exact ⟨by decide, by decide⟩

/-- An app without a certificate is gone once it is deleted. -/
theorem del_undoes_run_plain :
    NoTrace (machine.run started (.request (.serving 7 4000) (.run (siteOn443 none none)) ::
        ([blogRun] ++ [.request (.serving 9 4002) (.del "site")]))) "site" 443
      (some "example.com") := by
  have hok : (handleRun (.serving 7 4000) started (siteOn443 none none)).2.isOk = true := by
    decide +kernel
  have hpm : (siteOn443 none none).portMapping = some ⟨some "example.com", 443, some 8000⟩ := rfl
  have hbetween : machine.Along (Elsewhere 443 (some "example.com"))
      (machine.next started (.request (.serving 7 4000) (.run (siteOn443 none none)))) [blogRun] :=
    ⟨elsewhere_blogRun _, trivial⟩
  exact (del_undoes_run_iff hpm hok hbetween (.serving 9 4002)).2
    ⟨rfl, rfl, not_marked_started 443 (some "example.com")⟩

/-- The run of a site with a certificate. -/
def certRun : Event :=
  .request (.serving 7 4000) (.run (siteOn443 (some ⟨"cert.pem", "cert.pem"⟩) none))

/-- An app that is deleted leaves its certificate. -/
theorem del_leaves_certificate :
    (machine.answer started certRun).any (·.isOk) = true ∧
      ((machine.run started [certRun, .request (.serving 8 4000) (.del "site")]).proxyMgr.certStore.get
        "example.com").isSome = true ∧
      ¬NoTrace (machine.run started [certRun, .request (.serving 8 4000) (.del "site")]) "site" 443
        (some "example.com") := by
  have hrun : (machine.answer started certRun).any (·.isOk) = true ∧
      ((machine.run started [certRun, .request (.serving 8 4000) (.del "site")]).proxyMgr.certStore.get
        "example.com").isSome = true := by
    decide +kernel
  refine ⟨hrun.1, hrun.2, fun h => ?_⟩
  have hcert := h.cert
  have hget := hrun.2
  generalize machine.run started [certRun, .request (.serving 8 4000) (.del "site")] = st
    at hcert hget
  change st.proxyMgr.certStore.get "example.com" = none at hcert
  rw [hcert] at hget
  cases hget

end Daemon
