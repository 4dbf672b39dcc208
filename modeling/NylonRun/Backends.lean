import NylonRun.Restore

/-!
# Where the routes of a process lead

A run gives a process a port of its own where its mapping names none, or names the public port.
An update changes the mapping and gives none, so that a process can stand under a mapping that
still needs a remap. Its routes then lead to its public port itself, and nowhere else.
-/

open UnixPath FileTree Effect

namespace Daemon

open Server

/-- The routes of a process whose mapping needs a remap lead to no port but its public one. -/
def BackedBy (routes : List RouteEntry) (config : ProcessConfig) : Prop :=
  ∀ pm, config.portMapping = some pm → config.spa = false → needsRemap pm = true →
    ∀ r ∈ routes, ∀ port, r.backend = .proxy port → port = pm.publicPort

/-- The routes of every registered app are backed by its config. -/
def Backed (m : ProcessManager) (table : RouteTable) : Prop :=
  ∀ n p, m.lookup n = some p → BackedBy (table.of n) p.config

/-- A binary is asked for without a port mapping, as the command line does. -/
def BinsUnmapped (_ : DaemonState) : Event → Prop
  | .request _ (.bin config) => config.portMapping = none
  | _ => True

instance (st : DaemonState) : (e : Event) → Decidable (BinsUnmapped st e)
  | .request _ (.bin config) => Option.instDecidableEq config.portMapping none
  | .request _ (.run _) | .request _ .ls | .request _ (.del _) | .request _ (.restart _)
  | .request _ (.reload _) | .request _ (.update ..) | .request _ (.logs ..)
  | .request _ (.set ..) | .request _ .export | .request _ .save | .request _ .kill
  | .request _ (.link _) | .request _ .unlink | .request _ (.metricsEnable _)
  | .request _ .metricsDisable | .tick _ | .issued .. | .disk _ => .isTrue trivial

/-! ## Single routes -/

/-- A mapping needs a remap exactly if it leads to the public port. -/
theorem proxyBackend_eq_iff {pm : PortMapping} :
    proxyBackend pm = .proxy pm.publicPort ↔ needsRemap pm = true := by
  unfold needsRemap proxyBackend
  cases happ : pm.appPort with
  | none => simp
  | some port => simp

theorem backedBy_of_spa {r : RouteEntry} {dir : String} (h : r.backend = .spa dir)
    (config : ProcessConfig) : BackedBy [r] config := by
  intro pm _ _ _ r' hr' port hport
  rw [List.mem_singleton.1 hr', h] at hport
  cases hport

theorem backedBy_of_unmapped {config : ProcessConfig} (h : config.portMapping = none)
    (routes : List RouteEntry) : BackedBy routes config := by
  intro pm hpm
  rw [h] at hpm
  cases hpm

/-- The route that a run or an update sets up for a config. -/
theorem backedBy_updated {config : ProcessConfig} {pm : PortMapping}
    (hpm : config.portMapping = some pm) (t : FileTree) (name : String) :
    BackedBy [routeOf name pm (updatedBackend t config pm)] config := by
  intro pm' hpm' hspa hremap r hr port hport
  rw [hpm] at hpm'
  obtain rfl := Option.some.inj hpm'
  rw [List.mem_singleton.1 hr, routeOf, updatedBackend, hspa, if_neg Bool.false_ne_true,
    proxyBackend_eq_iff.2 hremap] at hport
  exact (Backend.proxy.inj hport).symm

theorem runRoute_eq {st : DaemonState} (config : ProcessConfig) (pm : PortMapping) :
    runRoute st config pm = routeOf config.name pm (updatedBackend st.disk config pm) := by
  unfold runRoute updatedBackend
  split <;> rfl

theorem SameRoute.backedBy {c c' : ProcessConfig} (h : SameRoute c c') {routes : List RouteEntry}
    (hb : BackedBy routes c) : BackedBy routes c' := by
  intro pm hpm hspa
  rw [h.portMapping] at hpm
  rw [h.spa] at hspa
  exact hb pm hpm hspa

/-! ## The tables -/

section

variable {m m' : ProcessManager} {table table' : RouteTable} {name : String}

theorem Backed.sameApps (hb : Backed m table) (h : SameApps m m') : Backed m' table := by
  intro n p' hp'
  obtain ⟨p, hp, hsame⟩ := h.back hp'
  exact SameRoute.backedBy hsame (hb n p hp)

/-- An app entered or replaced, and its routes with it. -/
theorem Backed.insert {p : ManagedProcess} (hb : Backed m table)
    (hother : ∀ n, n ≠ name → table'.of n = table.of n)
    (hroutes : BackedBy (table'.of name) p.config) : Backed (m.insert name p) table' := by
  intro n q hq
  rw [ProcessManager.lookup_insert] at hq
  by_cases hn : n = name
  · rw [if_pos hn] at hq
    cases hq
    rw [hn]
    exact hroutes
  · rw [if_neg hn] at hq
    rw [hother n hn]
    exact hb n q hq

/-- An app taken out, whatever becomes of its routes. -/
theorem Backed.erase (hb : Backed m table) (hother : ∀ n, n ≠ name → table'.of n = table.of n) :
    Backed (m.erase name) table' := by
  intro n q hq
  rw [ProcessManager.lookup_erase] at hq
  by_cases hn : n = name
  · rw [if_pos hn] at hq
    cases hq
  · rw [if_neg hn] at hq
    rw [hother n hn]
    exact hb n q hq

/-- The routes of one app replaced by one that leads to a directory. -/
theorem Backed.replace_spa {entry : RouteEntry} {dir : String} (hb : Backed m table)
    (h : entry.backend = .spa dir) : Backed m (table.replace entry) := by
  intro n p hp
  rw [RouteTable.of_replace]
  by_cases hn : n = entry.name
  · rw [if_pos hn]
    exact backedBy_of_spa h p.config
  · rw [if_neg hn]
    exact hb n p hp

theorem replace_other (table : RouteTable) (entry : RouteEntry) (n : String)
    (hn : n ≠ entry.name) : RouteTable.of (table.replace entry) n = table.of n := by
  rw [RouteTable.of_replace, if_neg hn]

end

/-! ## The requests -/

/-- The tables of the daemon are backed. -/
def TablesBacked (st : DaemonState) : Prop := Backed st.processMgr st.proxyMgr.routes

section

variable {os : Os} {st : DaemonState}

theorem backed_spawn (launch : LaunchOs) {config : ProcessConfig} (hb : TablesBacked st)
    (hpm : config.portMapping = none) :
    Backed (final (Process.spawnProcess launch config) st.toHost).processMgr
      st.proxyMgr.routes := by
  rcases Process.spawnProcess_cases launch config st.toHost with
    ⟨e, t, hrun⟩ | ⟨-, t, t', m, -, hstart, hrun⟩
  · rw [final_of_error hrun]
    exact hb
  · rw [final_of_ok hrun]
    refine hb.insert (fun _ _ => rfl) (backedBy_of_unmapped ?_ _)
    rw [(Process.startProcess_ok hstart).same.portMapping, hpm]

/-- A run answered Ok enters the app together with its route. -/
theorem backed_ranOk {config : ProcessConfig} (hb : TablesBacked st)
    (hok : (handleRun os st config).2.isOk = true) : TablesBacked (handleRun os st config).1 := by
  obtain ⟨c, pm, p, disk, m, hran⟩ := handleRun_isOk hok
  unfold TablesBacked
  rw [hran.processMgr, hran.routes]
  refine hb.insert (fun n hn => replace_other _ _ n (by rwa [runRoute_name])) ?_
  rw [RouteTable.of_replace, runRoute_name, if_pos rfl, runRoute_eq]
  exact SameRoute.backedBy hran.same.sameRoute (backedBy_updated hran.portMapping st.disk c.name)

/-- An SPA that is refused has taken the route of its name to a directory, if it has touched it. -/
theorem backed_runSpa {config : ProcessConfig} {pm : PortMapping} (hb : TablesBacked st)
    (herr : (runSpa os st config pm).2.isOk = false) : TablesBacked (runSpa os st config pm).1 := by
  have hpushed : Backed st.processMgr (st.proxyMgr.routes.replace (spaRoute st config pm)) :=
    Backed.replace_spa hb rfl
  cases hdir : st.disk.isDir config.path with
  | false =>
    rw [runSpa_of_not_dir hdir]
    exact hb
  | true =>
    cases hload : (st.proxyMgr.pushRoute (spaRoute st config pm)).loadTls os st.disk
        (spaRoute st config pm) config.ssl with
    | error e =>
      rw [runSpa_of_tls hdir hload]
      exact hpushed
    | ok m =>
      cases hold : st.processMgr.lookup config.name with
      | none =>
        rw [runSpa_ok hdir hload hold] at herr
        cases herr
      | some p =>
        rw [runSpa_of_registered hdir hload (by rw [hold]; rfl)]
        unfold TablesBacked
        rw [ProxyManager.listen_routes, (ProxyManager.loadTls_ok hload).1]
        exact hpushed

/-- A process that is not run is not in the table. -/
theorem backed_runProcess {config : ProcessConfig} {pm : PortMapping} (hb : TablesBacked st)
    (herr : (runProcess os st config pm).2.isOk = false) :
    TablesBacked (runProcess os st config pm).1 := by
  rcases Process.spawnProcess_cases (os.launch config.name) config st.toHost with
    ⟨e, t, hspawn⟩ | ⟨hfree, t, t', p, -, -, hspawn⟩
  · rw [runProcess_of_spawn hspawn]
    exact hb
  · generalize hh : (⟨st.processMgr.insert config.name p, final (Process.writePidFile p) t'⟩ : Host)
      = h at hspawn
    cases hload : (st.proxyMgr.pushRoute (processRoute config pm)).loadTls os h.disk
        (processRoute config pm) config.ssl with
    | ok m =>
      rw [runProcess_ok hspawn hload] at herr
      cases herr
    | error e =>
      have hp : h.processMgr.lookup config.name = some p := by rw [← hh]; simp
      obtain ⟨t'', hrun⟩ := runProcess_of_tls hspawn hload hp
      have htable : h.processMgr.erase config.name = st.processMgr.erase config.name := by
        rw [← hh, ProcessManager.erase_of_none hfree]
        exact ProcessManager.erase_insert_of_none p hfree
      rw [hrun]
      unfold TablesBacked
      rw [htable]
      exact hb.erase fun n hn => replace_other _ _ n hn

theorem backed_run (config : ProcessConfig) (hb : TablesBacked st) :
    TablesBacked (handleRun os st config).1 := by
  cases hok : (handleRun os st config).2.isOk with
  | true => exact backed_ranOk hb hok
  | false =>
    unfold handleRun at hok ⊢
    cases hprep : prepareRun os config with
    | error e => exact hb
    | ok cpm =>
      obtain ⟨c, pm⟩ := cpm
      rw [hprep] at hok
      dsimp only at hok ⊢
      by_cases hspa : c.spa = true
      · rw [if_pos hspa] at hok ⊢
        exact backed_runSpa hb hok
      · rw [if_neg hspa] at hok ⊢
        exact backed_runProcess hb hok

theorem backed_restartUpdated (name : String) (hb : TablesBacked st) :
    TablesBacked (restartUpdated os st name).1 := by
  have hrestart : TablesBacked (st.managed (Process.restart (os.launch name) name)).1 := by
    rw [DaemonState.managed_fst]
    exact hb.sameApps (Process.sameApps_restart _ name st.toHost)
  unfold restartUpdated
  split
  · exact hb
  · split <;> rename_i heq <;> rw [heq] at hrestart <;> exact hrestart

theorem backed_updateLocked {name : String} {reroutes : Bool} {change : Process.ConfigChange}
    (image : Option (String × String)) (hreroutes : change.portMapping.isSome = reroutes)
    (hk : Keyed st.processMgr) (hb : TablesBacked st) :
    TablesBacked (updateLocked os st name reroutes change image).1 := by
  cases hp : st.processMgr.lookup name with
  | none =>
    rw [updateLocked_of_none _ change _ hp]
    exact hb
  | some p =>
    rw [updateLocked_of_some reroutes change image hp]
    have hname : (updatedConfig change image p.config).name = name := by
      rw [← hk name p hp]
      cases image <;> rfl
    cases hpm : change.portMapping with
    | none =>
      obtain rfl : reroutes = false := by rw [← hreroutes, hpm]; rfl
      rw [if_neg (by simp)]
      apply backed_restartUpdated
      exact hb.sameApps (sameApps_insert hp (updatedConfig_sameRoute image hpm p.config))
    | some pm =>
      obtain rfl : reroutes = true := by rw [← hreroutes, hpm]; rfl
      rw [if_pos rfl]
      have hpm' : (updatedConfig change image p.config).portMapping = some pm := by
        cases image <;> simp [updatedConfig, Process.ConfigChange.apply, hpm]
      generalize updatedConfig change image p.config = c at hname hpm'
      rw [reroute_of_some (configOf_insert (p := { p with config := c }) hk hname) hpm']
      apply backed_restartUpdated
      unfold TablesBacked
      simp only [ProxyManager.listen_routes, ProxyManager.pushRoute_routes,
        ProxyManager.removeRoutes_routes]
      refine hb.insert (fun n hn => ?_) ?_
      · rw [replace_other _ _ n hn, RouteTable.of_without, if_neg hn]
      · rw [RouteTable.of_replace, routeOf, if_pos rfl]
        exact backedBy_updated hpm' st.disk name

theorem backed_update (name : String) (u : UpdateRequest) (hk : Keyed st.processMgr)
    (hb : TablesBacked st) : TablesBacked (handleUpdate os st name u).1 := by
  unfold handleUpdate
  rw [DaemonState.managed_onDisk]
  cases result (pullUpdate os name u.image) st.disk with
  | error e => exact hb
  | ok image =>
    dsimp only
    split
    · exact hb
    · rename_i change hchange
      obtain ⟨hport, -⟩ := configChange_ok hchange
      exact backed_updateLocked image (isSome_of_mapM hport) hk hb

end

/-! ## Runs -/

theorem Apart.backed {st st' : DaemonState} (h : Apart st st') (hb : TablesBacked st) :
    TablesBacked st' := by
  unfold TablesBacked
  rw [h.1, h.2]
  exact hb

theorem backed_step {st : DaemonState} {e : Event} (hk : Keyed st.processMgr)
    (hb : TablesBacked st) (he : BinsUnmapped st e) : TablesBacked (machine.next st e) := by
  cases e with
  | tick os =>
    change TablesBacked (st.managed _).1
    rw [DaemonState.managed_fst]
    exact hb.sameApps (Process.sameApps_tick st.toHost ⟨os.launch, os.tryWait⟩)
  | issued hostname cert => exact hb
  | disk t => exact hb
  | request os r =>
    cases r with
    | bin config =>
      change TablesBacked (st.managed _).1
      rw [DaemonState.managed_fst]
      exact backed_spawn (os.launch config.name) hb he
    | run config => exact backed_run config hb
    | ls => exact hb
    | del name =>
      change TablesBacked (handleDel st name).1
      obtain ⟨htable, hproxy⟩ := handleDel_tables st name
      unfold TablesBacked
      rw [htable, hproxy]
      refine hb.erase fun n hn => ?_
      rw [ProxyManager.removeRoutes_routes, RouteTable.of_without, if_neg hn]
    | restart name | reload name =>
      change TablesBacked (st.managed _).1
      rw [DaemonState.managed_fst]
      exact hb.sameApps (Process.sameApps_restart (os.launch name) name st.toHost)
    | update name port ssl acme envFile args image => exact backed_update name _ hk hb
    | logs name lines =>
      change TablesBacked (handleRequest os st (.logs name lines)).1
      unfold handleRequest
      dsimp only
      split <;> exact hb
    | set key value => exact (apart_set os st key value).backed hb
    | «export» => exact hb
    | save => exact (apart_save os st).backed hb
    | kill =>
      have htable : (handleKill os st).1.processMgr = .empty := by
        unfold handleKill
        simp only [DaemonState.stored_fst]
        rfl
      change TablesBacked (handleKill os st).1
      unfold TablesBacked
      rw [htable]
      exact fun n p hp => nomatch hp
    | link apiKey => exact (apart_link os st apiKey).backed hb
    | unlink => exact (apart_unlink os st).backed hb
    | metricsEnable port => exact hb
    | metricsDisable => exact hb

/-- A daemon that has just started has no routes. -/
theorem backed_runDaemon (os : Os) (store : StateStore) (disk : FileTree) :
    TablesBacked (runDaemon os store disk) := by
  intro n p _ pm _ _ _ r hr
  rw [(runDaemon_tables os store disk).2] at hr
  cases hr

end Daemon
