import NylonRun.Agreement
import NylonRun.RoundTrip

/-!
# Saving, and starting the daemon again

A restart of the daemon goes through the store: `run_daemon` loads the saved configs and hands
each of them to `spawn_process`. That brings the processes back; the routes are set up by the
handler of a run, which is not called.
-/

open UnixPath FileTree Effect

namespace Server

variable {os : Os} {st : DaemonState}

/-! ## Every app stands under its own name -/

theorem keyed_spawn (launch : LaunchOs) (config : ProcessConfig) {h : Host} (hk : Keyed h.processMgr) :
    Keyed (final (Process.spawnProcess launch config) h).processMgr := by
  rcases Process.spawnProcess_cases launch config h with
    ⟨e, t, hrun⟩ | ⟨-, t, t', m, -, hstart, hrun⟩
  · rw [final_of_error hrun]
    exact hk
  · rw [final_of_ok hrun]
    exact hk.insert (Process.startProcess_ok hstart).same.name

theorem keyed_runSpa (config : ProcessConfig) (pm : PortMapping) (hk : Keyed st.processMgr) :
    Keyed (runSpa os st config pm).1.processMgr := by
  cases hdir : st.disk.isDir config.path with
  | false =>
    rw [runSpa_of_not_dir hdir]
    exact hk
  | true =>
    cases hload : (st.proxyMgr.pushRoute (spaRoute st config pm)).loadTls os st.disk
        (spaRoute st config pm) config.ssl with
    | error e =>
      rw [runSpa_of_tls hdir hload]
      exact hk
    | ok m =>
      cases hp : st.processMgr.lookup config.name with
      | some p =>
        rw [runSpa_of_registered hdir hload (by rw [hp]; rfl)]
        exact hk
      | none =>
        rw [runSpa_ok hdir hload hp, registerAcme_toHost]
        exact hk.insert rfl

theorem keyed_runProcess (config : ProcessConfig) (pm : PortMapping) (hk : Keyed st.processMgr) :
    Keyed (runProcess os st config pm).1.processMgr := by
  have hspawned := keyed_spawn (os.launch config.name) config hk
  cases hspawn : Process.spawnProcess (os.launch config.name) config st.toHost with
  | error e h =>
    rw [final_of_error hspawn] at hspawned
    rw [runProcess_of_spawn hspawn]
    exact hspawned
  | ok msg h =>
    rw [final_of_ok hspawn] at hspawned
    cases hload : (st.proxyMgr.pushRoute (processRoute config pm)).loadTls os h.disk
        (processRoute config pm) config.ssl with
    | error e =>
      obtain ⟨-, p, -, htable⟩ := lookup_spawned hspawn
      obtain ⟨t, hrun⟩ := runProcess_of_tls (p := p) hspawn hload (by rw [htable]; simp)
      rw [hrun]
      exact hspawned.erase config.name
    | ok m =>
      rw [runProcess_ok hspawn hload, registerAcme_toHost]
      exact hspawned

theorem keyed_run (config : ProcessConfig) (hk : Keyed st.processMgr) :
    Keyed (handleRun os st config).1.processMgr := by
  unfold handleRun
  split
  · exact hk
  · split
    · exact keyed_runSpa _ _ hk
    · exact keyed_runProcess _ _ hk

theorem keyed_restartUpdated (name : String) (hk : Keyed st.processMgr) :
    Keyed (restartUpdated os st name).1.processMgr := by
  have hrestart : Keyed (st.managed (Process.restart (os.launch name) name)).1.processMgr := by
    rw [DaemonState.managed_fst]
    exact (Process.sameApps_restart _ name st.toHost).keyed hk
  unfold restartUpdated
  split
  · exact hk
  · split <;> rename_i heq <;> rw [heq] at hrestart <;> exact hrestart

theorem keyed_update (name : String) (u : UpdateRequest) (hk : Keyed st.processMgr) :
    Keyed (handleUpdate os st name u).1.processMgr := by
  unfold handleUpdate
  rw [DaemonState.managed_onDisk]
  cases result (pullUpdate os name u.image) st.disk with
  | error e => exact hk
  | ok image =>
    dsimp only
    split
    · exact hk
    · rename_i change _
      generalize hst : ({ st with disk := _ } : DaemonState) = st'
      have hk' : Keyed st'.processMgr := by rw [← hst]; exact hk
      cases hp : st'.processMgr.lookup name with
      | none =>
        rw [updateLocked_of_none _ change _ hp]
        exact hk'
      | some p =>
        rw [updateLocked_of_some _ change image hp]
        have hname : (updatedConfig change image p.config).name = name := by
          rw [← hk' name p hp]
          cases image <;> rfl
        have hinsert := hk'.insert (p := { p with config := updatedConfig change image p.config }) hname
        split
        · obtain ⟨m, hreroute⟩ := reroute_isOk os { st' with
            processMgr := st'.processMgr.insert name
              { p with config := updatedConfig change image p.config } } name p.config
          rw [hreroute]
          exact keyed_restartUpdated name hinsert
        · exact keyed_restartUpdated name hinsert

end Server

namespace Daemon

open Server

theorem Apart.keyed {st st' : DaemonState} (h : Apart st st') (hk : Keyed st.processMgr) :
    Keyed st'.processMgr := by
  rw [h.1]
  exact hk

theorem keyed_step {st : DaemonState} (hk : Keyed st.processMgr) (e : Event) :
    Keyed (machine.next st e).processMgr := by
  cases e with
  | tick os =>
    change Keyed (st.managed _).1.processMgr
    rw [DaemonState.managed_fst]
    exact (Process.sameApps_tick st.toHost ⟨os.launch, os.tryWait⟩).keyed hk
  | issued hostname cert => exact hk
  | disk t => exact hk
  | request os r =>
    cases r with
    | bin config =>
      change Keyed (st.managed _).1.processMgr
      rw [DaemonState.managed_fst]
      exact keyed_spawn _ _ hk
    | run config => exact keyed_run config hk
    | ls => exact hk
    | del name =>
      change Keyed (handleDel st name).1.processMgr
      rw [(handleDel_tables st name).1]
      exact hk.erase name
    | restart name | reload name =>
      change Keyed (st.managed _).1.processMgr
      rw [DaemonState.managed_fst]
      exact (Process.sameApps_restart (os.launch name) name st.toHost).keyed hk
    | update name port ssl acme envFile args image => exact keyed_update name _ hk
    | logs name lines =>
      change Keyed (handleRequest os st (.logs name lines)).1.processMgr
      unfold handleRequest
      dsimp only
      split <;> exact hk
    | set key value => exact (apart_set os st key value).keyed hk
    | «export» => exact hk
    | save => exact (apart_save os st).keyed hk
    | kill =>
      have htable : (handleKill os st).1.processMgr = .empty := by
        unfold handleKill
        simp only [DaemonState.stored_fst]
        rfl
      change Keyed (handleKill os st).1.processMgr
      rw [htable]
      exact fun n p hp => nomatch hp
    | link apiKey => exact (apart_link os st apiKey).keyed hk
    | unlink => exact (apart_unlink os st).keyed hk
    | metricsEnable port => exact hk
    | metricsDisable => exact hk

end Daemon

/-! ## The restore -/

namespace Process

/-- The launch of an app succeeds on a disk. -/
def Starts (os : LaunchOs) (config : ProcessConfig) (t : FileTree) : Prop :=
  (result (do ensureDirs config.name; startProcess os config) t).isOk = true

instance (os : LaunchOs) (config : ProcessConfig) (t : FileTree) : Decidable (Starts os config t) :=
  inferInstanceAs (Decidable (_ = true))

/-- Every launch of a restore succeeds, on the disk that the ones before it leave. -/
def AllStart (launch : String → LaunchOs) (configs : List ProcessConfig) (h : Host) : Prop :=
  ∀ front c back, configs = front ++ c :: back →
    Starts (launch c.name) c (final (restoreProcesses launch front) h).disk

theorem allStart_nil (launch : String → LaunchOs) (h : Host) : AllStart launch [] h := by
  intro front c back heq
  cases front <;> cases heq

theorem allStart_cons {launch : String → LaunchOs} {c : ProcessConfig} {cs : List ProcessConfig}
    {h : Host} : AllStart launch (c :: cs) h ↔ Starts (launch c.name) c h.disk ∧
      AllStart launch cs (final (spawnProcess (launch c.name) c) h) := by
  constructor
  · intro hall
    refine ⟨hall [] c cs rfl, fun front c' back heq => ?_⟩
    exact hall (c :: front) c' back (by rw [heq]; rfl)
  · rintro ⟨hstart, hrest⟩ front c' back heq
    cases front with
    | nil => cases heq; exact hstart
    | cons d front => cases heq; exact hrest front c' back rfl

instance decidableAllStart (launch : String → LaunchOs) :
    ∀ configs h, Decidable (AllStart launch configs h)
  | [], h => isTrue (allStart_nil launch h)
  | c :: cs, h =>
    have := decidableAllStart launch cs (final (spawnProcess (launch c.name) c) h)
    decidable_of_iff _ allStart_cons.symm

/-- A successful launch under a free name enters the app. -/
theorem spawnProcess_of_starts {os : LaunchOs} {config : ProcessConfig} {h : Host}
    (hfree : h.processMgr.lookup config.name = none) (hstart : Starts os config h.disk) :
    ∃ p, SameApp config p.config ∧
      (final (spawnProcess os config) h).processMgr = h.processMgr.insert config.name p := by
  rcases spawnProcess_cases os config h with ⟨e, t, hrun⟩ | ⟨-, t, t', m, -, hstart, hrun⟩
  · exfalso
    obtain ⟨m, t', hok⟩ : ∃ m t', (do ensureDirs config.name; startProcess os config : Fs _) h.disk =
        .ok m t' := by
      unfold Starts result at hstart
      cases hok : (do ensureDirs config.name; startProcess os config : Fs _) h.disk with
      | ok m t' => exact ⟨m, t', rfl⟩
      | error e t' => rw [hok] at hstart; cases hstart
    obtain ⟨_, t₁, hdirs, hlaunch⟩ := bind_ok hok
    unfold spawnProcess at hrun
    rw [run_get_bind, if_neg (by simp [hfree])] at hrun
    simp only [run_bind, run_onDisk, run_mapError, hdirs, hlaunch, writePidFile_ok, run_modifyTable,
      run_pure] at hrun
    cases hrun
  · exact ⟨m, (startProcess_ok hstart).same, by rw [final_of_ok hrun]⟩

theorem final_restore_cons (launch : String → LaunchOs) (c : ProcessConfig) (cs : List ProcessConfig)
    (h : Host) : final (restoreProcesses launch (c :: cs)) h =
      final (restoreProcesses launch cs) (final (spawnProcess (launch c.name) c) h) := rfl

/-- A restore in which every launch succeeds registers all the apps, and leaves what is under
other names alone. -/
theorem restore_registers {launch : String → LaunchOs} {configs : List ProcessConfig} {h : Host}
    (hnames : (configs.map (·.name)).Nodup)
    (hfree : ∀ c ∈ configs, h.processMgr.lookup c.name = none)
    (hstart : AllStart launch configs h) :
    (∀ c ∈ configs, ∃ p, (final (restoreProcesses launch configs) h).processMgr.lookup c.name =
        some p ∧ SameApp c p.config) ∧
      ∀ n, n ∉ configs.map (·.name) →
        (final (restoreProcesses launch configs) h).processMgr.lookup n = h.processMgr.lookup n := by
  induction configs generalizing h with
  | nil => exact ⟨fun _ hc => absurd hc List.not_mem_nil, fun _ _ => rfl⟩
  | cons c cs ih =>
    rw [List.map_cons, List.nodup_cons] at hnames
    obtain ⟨hfirst, hrest⟩ := allStart_cons.1 hstart
    obtain ⟨p, hsame, htable⟩ := spawnProcess_of_starts (hfree c List.mem_cons_self) hfirst
    have hlookup : ∀ n, (final (spawnProcess (launch c.name) c) h).processMgr.lookup n =
        if n = c.name then some p else h.processMgr.lookup n := by
      intro n
      rw [htable, ProcessManager.lookup_insert]
    have hne : ∀ c' ∈ cs, c'.name ≠ c.name := fun c' hc' heq =>
      hnames.1 (heq ▸ List.mem_map_of_mem hc')
    obtain ⟨hin, hout⟩ := ih hnames.2 (fun c' hc' => by
      rw [hlookup, if_neg (hne c' hc')]
      exact hfree c' (List.mem_cons_of_mem _ hc')) hrest
    rw [final_restore_cons]
    refine ⟨fun c' hc' => ?_, fun n hn => ?_⟩
    · rcases List.mem_cons.1 hc' with rfl | hc'
      · exact ⟨p, by rw [hout _ hnames.1, hlookup, if_pos rfl], hsame⟩
      · exact hin c' hc'
    · rw [List.map_cons, List.mem_cons, not_or] at hn
      rw [hout n hn.2, hlookup, if_neg hn.1]

/-- The saved names differ, where every app stands under its own. -/
theorem nodup_getConfigs {m : ProcessManager} (hk : Server.Keyed m) :
    ((getConfigs m).map (·.name)).Nodup := by
  have hnames : (getConfigs m).map (·.name) = m.processes.keys := by
    unfold getConfigs Dict.values AList.keys List.keys
    rw [List.map_map, List.map_map]
    refine List.map_congr_left fun e he => ?_
    exact hk e.1 e.2 (Dict.lookup_eq_some_iff.2 he)
  rw [hnames]
  exact m.processes.keys_nodup

end Process

/-! ## The start of a daemon -/

namespace Daemon

open Server

theorem migrateJson_tables (os : Os) (st : DaemonState) :
    (migrateJson os st).processMgr = st.processMgr ∧ (migrateJson os st).proxyMgr = st.proxyMgr := by
  unfold migrateJson
  split
  · exact ⟨rfl, rfl⟩
  · split
    · exact ⟨rfl, rfl⟩
    · rw [DaemonState.managed_onDisk]
      exact ⟨rfl, rfl⟩
    · rename_i configs _ _
      have hsaved := DaemonState.stored_fst st (StateStore.save configs)
      split <;> rename_i heq <;> rw [heq] at hsaved <;> subst hsaved
      · rw [DaemonState.managed_onDisk]
        exact ⟨rfl, rfl⟩
      · exact ⟨rfl, rfl⟩

theorem loadConfigs_fst (st : DaemonState) :
    (loadConfigs st).1 = { st with stateStore := final StateStore.load st.stateStore } := by
  have hloaded := DaemonState.stored_fst st StateStore.load
  unfold loadConfigs
  split <;> rename_i heq <;> rw [heq] at hloaded <;> exact hloaded

theorem loadConfigs_tables (os : Os) (st : DaemonState) :
    (loadConfigs (migrateJson os st)).1.processMgr = st.processMgr ∧
      (loadConfigs (migrateJson os st)).1.proxyMgr = st.proxyMgr := by
  rw [loadConfigs_fst]
  exact migrateJson_tables os st

/-- The disk as the start of a daemon has prepared it. -/
def preparedDisk (os : Os) (disk : FileTree) : FileTree :=
  final (do ensureDirs; writePid os.pid) disk

theorem startUp_eq (os : Os) (store : StateStore) (disk : FileTree) :
    startUp os store disk = loadConfigs (migrateJson os
      (.initial { store with faults := os.storeFaults, closed := false } (preparedDisk os disk))) := by
  unfold startUp
  dsimp only
  rw [DaemonState.managed_onDisk]
  rfl

/-- A daemon starts with empty tables. -/
theorem startUp_tables (os : Os) (store : StateStore) (disk : FileTree) :
    (startUp os store disk).1.processMgr = .empty ∧ (startUp os store disk).1.proxyMgr = .new := by
  rw [startUp_eq, (loadConfigs_tables os _).1, (loadConfigs_tables os _).2]
  exact ⟨rfl, rfl⟩

/-- A start on a store that can be read finds what the store holds, unless an old state file
takes its place. -/
theorem startUp_holds {os : Os} {store : StateStore} {disk : FileTree}
    {configs : List ProcessConfig} (hfaults : ∀ f ∈ os.storeFaults, f = none)
    (hjson : (preparedDisk os disk).pathExists jsonPath = false)
    (hnames : (configs.map (·.name)).Nodup) (hholds : StateStore.Holds store.db configs) :
    (startUp os store disk).2.Perm configs := by
  have hloaded : ∃ loaded s, StateStore.load
      { store with faults := os.storeFaults, closed := false } = .ok loaded s ∧
      loaded.Perm configs := StateStore.load_holds hfaults hnames hholds
  obtain ⟨loaded, s, hload, hperm⟩ := hloaded
  rw [startUp_eq, migrateJson, if_pos (by rw [DaemonState.initial, hjson]; simp), loadConfigs,
    DaemonState.stored, DaemonState.initial, hload]
  exact hperm

theorem runDaemon_tables (os : Os) (store : StateStore) (disk : FileTree) :
    (runDaemon os store disk).processMgr = (final (Process.restoreProcesses os.launch
        (startUp os store disk).2) (startUp os store disk).1.toHost).processMgr ∧
      (runDaemon os store disk).proxyMgr = .new := by
  have hproxy := (startUp_tables os store disk).2
  unfold runDaemon
  generalize startUp os store disk = started at hproxy ⊢
  obtain ⟨st, saved⟩ := started
  dsimp only at hproxy ⊢
  rw [DaemonState.managed_fst]
  have hcloud := DaemonState.stored_fst
    { st with toHost := final (Process.restoreProcesses os.launch saved) st.toHost }
    Cloud.loadCloudConfig
  split <;> rename_i heq <;> rw [heq] at hcloud <;> subst hcloud <;> exact ⟨rfl, hproxy⟩

theorem keyed_restore (launch : String → LaunchOs) (configs : List ProcessConfig) {h : Host}
    (hk : Keyed h.processMgr) :
    Keyed (final (Process.restoreProcesses launch configs) h).processMgr := by
  induction configs generalizing h with
  | nil => exact hk
  | cons c cs ih =>
    rw [Process.final_restore_cons]
    exact ih (keyed_spawn (launch c.name) c hk)

theorem keyed_reaches {st st' : DaemonState} (h : machine.Reaches st st')
    (hk : Keyed st.processMgr) : Keyed st'.processMgr := by
  obtain ⟨events, rfl⟩ := h
  exact Machine.run_invariant (P := fun st : DaemonState => Keyed st.processMgr) (Q := fun _ _ => True)
    (fun st e hk _ => keyed_step hk e) hk (Machine.along_const True |>.2 (.inr trivial))

/-- When a daemon starts, every app stands under its own name. -/
theorem keyed_runDaemon (os : Os) (store : StateStore) (disk : FileTree) :
    Keyed (runDaemon os store disk).processMgr := by
  rw [(runDaemon_tables os store disk).1]
  refine keyed_restore _ _ ?_
  rw [(startUp_tables os store disk).1]
  exact fun n p hp => nomatch hp

/-- What a save that is answered Ok leaves in the store. -/
theorem handleSave_holds {os : Os} {st : DaemonState} (hk : Keyed st.processMgr)
    (hsave : (handleSave os st).2.isOk = true) :
    StateStore.Holds (handleSave os st).1.stateStore.db (Process.getConfigs st.processMgr) := by
  unfold handleSave DaemonState.stored at hsave ⊢
  dsimp only at hsave ⊢
  cases hrun : StateStore.save (Process.getConfigs st.processMgr)
      { st.stateStore with faults := os.storeFaults } with
  | error e s => rw [hrun] at hsave; cases hsave
  | ok _ s => exact StateStore.save_ok (Process.nodup_getConfigs hk) hrun

/-! ## A restart of the daemon -/

/-- A request to a port and a host is routed to the app. -/
def LeadsTo (table : RouteTable) (port : UInt16) (host : Option String) (name : String) : Prop :=
  ∃ r, table.find port host = some r ∧ r.name = name

theorem not_leadsTo_nil (port : UInt16) (host : Option String) (name : String) :
    ¬LeadsTo [] port host name := by
  rintro ⟨r, hfind, -⟩
  exact absurd (RouteTable.find_mem hfind).1 List.not_mem_nil

/-- Every app is registered again, and every app with a port mapping is routed as before. -/
structure RestoredAsBefore (st st' : DaemonState) : Prop where
  registered : ∀ n p, st.processMgr.lookup n = some p →
    ∃ p', st'.processMgr.lookup n = some p' ∧ Process.SameApp p.config p'.config
  routed : ∀ n p, st.processMgr.lookup n = some p → p.config.portMapping.isSome →
    ∀ port host, LeadsTo st'.proxyMgr.routes port host n ↔ LeadsTo st.proxyMgr.routes port host n

/-- No request is routed to an app with a port mapping. -/
def NoneRouted (st : DaemonState) : Prop :=
  ∀ n p, st.processMgr.lookup n = some p → p.config.portMapping.isSome →
    ∀ port host, ¬LeadsTo st.proxyMgr.routes port host n

/-- A start with every launch succeeding, on a store that holds the apps, registers them all
again and routes to none of them. -/
theorem runDaemon_restores_iff {st : DaemonState} {store : StateStore} (os : Os) (disk : FileTree)
    (hk : Keyed st.processMgr) (hholds : StateStore.Holds store.db (Process.getConfigs st.processMgr))
    (hfaults : ∀ f ∈ os.storeFaults, f = none)
    (hjson : (preparedDisk os disk).pathExists jsonPath = false)
    (hstart : Process.AllStart os.launch (startUp os store disk).2 (startUp os store disk).1.toHost) :
    RestoredAsBefore st (runDaemon os store disk) ↔ NoneRouted st := by
  have hnames := Process.nodup_getConfigs hk
  have hperm := startUp_holds hfaults hjson hnames hholds
  obtain ⟨htable, hproxy⟩ := runDaemon_tables os store disk
  have hempty := (startUp_tables os store disk).1
  -- from here on the started daemon is any that the facts above are about
  generalize startUp os store disk = started at hperm htable hstart hempty
  have hfree : ∀ c ∈ started.2, started.1.processMgr.lookup c.name = none := by
    intro c _
    rw [hempty]
    rfl
  obtain ⟨hregistered, -⟩ := Process.restore_registers
    ((hperm.map (·.name)).nodup_iff.2 hnames) hfree hstart
  rw [← htable] at hregistered
  generalize runDaemon os store disk = st' at hregistered hproxy ⊢
  have hnoroute : ∀ port host n, ¬LeadsTo st'.proxyMgr.routes port host n := by
    rw [hproxy]
    exact not_leadsTo_nil
  constructor
  · intro h n p hp hpm port host hleads
    exact hnoroute port host n ((h.routed n p hp hpm port host).2 hleads)
  · intro h
    refine ⟨fun n p hp => ?_, fun n p hp hpm port host => ?_⟩
    · obtain ⟨p', hp', hsame⟩ := hregistered p.config
        (hperm.mem_iff.2 (Process.mem_getConfigs.2 ⟨n, p, hp, rfl⟩))
      rw [hk n p hp] at hp'
      exact ⟨p', hp', hsame⟩
    · exact iff_of_false (hnoroute port host n) (h n p hp hpm port host)

/-- After a save and a start of the daemon on the same store, with every launch succeeding, the
apps are as before exactly if none of them was routed to: all are registered again, and none
has a route. -/
theorem restart_restores_iff {os₀ : Os} {store : StateStore} {disk₀ : FileTree} {st : DaemonState}
    (hreach : machine.Reaches (runDaemon os₀ store disk₀) st) (os os' : Os) (disk : FileTree)
    (hsave : (handleSave os st).2.isOk = true)
    (hfaults : ∀ f ∈ os'.storeFaults, f = none)
    (hjson : (preparedDisk os' disk).pathExists jsonPath = false)
    (hstart : Process.AllStart os'.launch (startUp os' (handleSave os st).1.stateStore disk).2
      (startUp os' (handleSave os st).1.stateStore disk).1.toHost) :
    RestoredAsBefore st (runDaemon os' (handleSave os st).1.stateStore disk) ↔ NoneRouted st := by
  have hk := keyed_reaches hreach (keyed_runDaemon os₀ store disk₀)
  exact runDaemon_restores_iff os' disk hk (handleSave_holds hk hsave) hfaults hjson hstart

/-- A daemon that has started on nothing and answered a request. -/
def daemonAfter (r : Request) : DaemonState :=
  machine.run (runDaemon (.serving 1 4000) .empty .empty) [.request (.serving 7 4000) r]

theorem reaches_daemonAfter (r : Request) :
    machine.Reaches (runDaemon (.serving 1 4000) .empty .empty) (daemonAfter r) := ⟨_, rfl⟩

def jobRequest : Request := .bin (.plain "job" "sleep")

/-- A binary without a port comes back. -/
theorem restart_restores_job :
    RestoredAsBefore (daemonAfter jobRequest) (runDaemon (.serving 2 4000)
      (handleSave (.serving 1 4000) (daemonAfter jobRequest)).1.stateStore .empty) := by
  -- one evaluation of the runs gives all that is asked of them
  obtain ⟨hroutes, hsave, hjson, hstart⟩ : (daemonAfter jobRequest).proxyMgr.routes = [] ∧
      (handleSave (.serving 1 4000) (daemonAfter jobRequest)).2.isOk = true ∧
      (preparedDisk (.serving 2 4000) .empty).pathExists jsonPath = false ∧
      Process.AllStart (Os.serving 2 4000).launch
        (startUp (.serving 2 4000)
          (handleSave (.serving 1 4000) (daemonAfter jobRequest)).1.stateStore .empty).2
        (startUp (.serving 2 4000)
          (handleSave (.serving 1 4000) (daemonAfter jobRequest)).1.stateStore .empty).1.toHost := by
    decide +kernel
  have hnone : NoneRouted (daemonAfter jobRequest) := by
    intro n p _ _ port host
    rw [hroutes]
    exact not_leadsTo_nil port host n
  exact (restart_restores_iff (reaches_daemonAfter jobRequest) (.serving 1 4000) (.serving 2 4000)
    .empty hsave (fun f hf => absurd hf List.not_mem_nil) hjson hstart).2 hnone

def webRequest : Request := .run { ProcessConfig.plain "web" "server" with
  mode := .run, portMapping := some { host := none, publicPort := 80, appPort := some 3000 } }

/-- The daemon started again after a save of it. -/
def restartedAfter (r : Request) : DaemonState :=
  runDaemon (.serving 2 4000) (handleSave (.serving 1 4000) (daemonAfter r)).1.stateStore .empty

/-- An app with a port comes back without its route. -/
theorem restart_loses_route :
    (daemonAfter webRequest).proxyMgr.routes.find 80 none = some ⟨"web", 80, none, .proxy 3000⟩ ∧
      (handleSave (.serving 1 4000) (daemonAfter webRequest)).2.isOk = true ∧
      ((restartedAfter webRequest).processMgr.lookup "web").isSome = true ∧
      (restartedAfter webRequest).proxyMgr.routes = [] ∧
      ¬RestoredAsBefore (daemonAfter webRequest) (restartedAfter webRequest) := by
  obtain ⟨hfind, hsaved, hback, hroutes, hmapped⟩ :
      (daemonAfter webRequest).proxyMgr.routes.find 80 none =
          some ⟨"web", 80, none, .proxy 3000⟩ ∧
        (handleSave (.serving 1 4000) (daemonAfter webRequest)).2.isOk = true ∧
        ((restartedAfter webRequest).processMgr.lookup "web").isSome = true ∧
        (restartedAfter webRequest).proxyMgr.routes = [] ∧
        (((daemonAfter webRequest).processMgr.lookup "web").any
          (·.config.portMapping.isSome)) = true := by
    decide +kernel
  refine ⟨hfind, hsaved, hback, hroutes, fun h => ?_⟩
  obtain ⟨p, hp, hpm⟩ := (Option.any_eq_true _ _).1 hmapped
  have hleads := (h.routed "web" p hp hpm 80 none).2 ⟨_, hfind, rfl⟩
  rw [hroutes] at hleads
  exact not_leadsTo_nil 80 none "web" hleads

end Daemon
