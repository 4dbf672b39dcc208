import NylonRun.Agreement
import NylonRun.Documents

/-!
# What is exported at any moment

An app that a manifest describes is changed by the daemon in many ways: it is copied, given a port
of its own, updated and started again. As long as it is a local one, a manifest still describes
what it has become, so that the file of `nyrun export`, taken whenever, starts the same apps.
-/

open UnixPath FileTree Effect

namespace Manifest

variable {os : ClientOs} {c : ProcessConfig} {t : FileTree}

/-- A local app that can be exported. -/
structure Portable (os : ClientOs) (c : ProcessConfig) : Prop extends Exportable os c where
  isLocal : c.isOci = false

/-- A config as a client makes it of the manifest of a local app. -/
def Described (os : ClientOs) (c : ProcessConfig) : Prop :=
  c.isOci = false ∧ ∃ t m, manifestToConfig os t m = .ok c ∧ ∀ s ∈ m.spec.args, '\x00' ∉ s.toList

theorem port_again {port : Option String} {pm : Option PortMapping}
    (h : port.mapM parsePortMapping = .ok pm) :
    ∀ pm' ∈ pm, parsePortMapping (portText pm') = .ok pm' := by
  intro pm' hpm'
  obtain rfl := Option.mem_def.1 hpm'
  have hagain := mapM_parsePortMapping_again h
  rw [Option.map_some, Option.mapM_some] at hagain
  cases hparse : parsePortMapping (portText pm') with
  | error e => rw [hparse] at hagain; cases hagain
  | ok parsed =>
    rw [hparse] at hagain
    cases hagain
    rfl

/-- What a manifest says of a local app can be said again. -/
theorem expressible_local {m : ProcessManifest} (hshlex : ShlexInverts os)
    (hnul : ∀ s ∈ m.spec.args, '\x00' ∉ s.toList)
    (hlocal : Oci.isOciReference os.isAlphanumeric m.spec.path = false)
    (vars : Dict String String) (pm : Option PortMapping) :
    Expressible os (configOf os t m vars pm) := by
  have hnot : ¬Oci.isOciReference os.isAlphanumeric m.spec.path = true := by
    rw [hlocal]
    exact Bool.false_ne_true
  refine ⟨?_, fun hoci => absurd hoci hnot, ?_, parseArgsString_again hshlex hnul, rfl,
    parseItems_again m.spec.deny, parseItems_again m.spec.allow,
    resolveConfigmapVolumes_again m.spec.volumes⟩
  · unfold configOf
    dsimp only
    rw [if_neg hnot]
  · unfold configOf
    dsimp only
    rw [if_neg hnot, if_neg hnot]

theorem Described.portable (hshlex : ShlexInverts os) (h : Described os c) : Portable os c := by
  obtain ⟨hlocal, t, m, hconfig, hnul⟩ := h
  obtain ⟨vars, pm, -, hport, rfl⟩ := manifestToConfig_ok.1 hconfig
  have hexpressible := expressible_local (t := t) hshlex hnul hlocal vars pm
  have hagain := port_again hport
  exact ⟨⟨hexpressible, hagain⟩, hlocal⟩

namespace Portable

/-- A local app is somewhere else. -/
theorem withPath {path : String} (h : Portable os c)
    (hpath : Oci.isOciReference os.isAlphanumeric path = false) :
    Portable os { c with path := path } := by
  refine ⟨⟨⟨hpath.trans h.isLocal.symm, ?_, ?_, h.args, h.mode, h.deny, h.allow, h.volumes⟩,
    h.port⟩, h.isLocal⟩
  · intro hoci
    exact absurd (h.isLocal.symm.trans hoci) Bool.false_ne_true
  · change c.ociReference = if c.isOci then _ else none
    rw [h.ociReference, h.isLocal]
    rfl

theorem isOciReference_of_absolute {path : String} (h : isAbsolute path = true) :
    Oci.isOciReference os.isAlphanumeric path = false := by
  have hstart : Text.startsWith path "/" = true := by
    unfold isAbsolute at h
    unfold Text.startsWith
    cases hlist : path.toList with
    | nil => rw [hlist] at h; cases h
    | cons a l =>
      rw [hlist] at h
      have ha : a = '/' := by simpa using h
      rw [ha]
      rfl
  rw [Oci.isOciReference, if_pos (.inl hstart)]

/-- The copy of an app has an absolute path. -/
theorem isAbsolute_appDir (name : String) : isAbsolute (Process.appDir name) = true :=
  isAbsolute_append _ (by decide)

theorem started {los : LaunchOs} {m : ManagedProcess} (h : Portable os c)
    (hstart : Process.Started los c t m) : Portable os m.config := by
  rw [hstart.onLocal h.isLocal]
  refine h.withPath ?_
  unfold Process.launchPath
  split
  · exact h.reference.trans h.isLocal
  · split
    · exact isOciReference_of_absolute (isAbsolute_appDir _)
    · exact isOciReference_of_absolute (isAbsolute_join _ (isAbsolute_appDir _))

theorem remap {pm : PortMapping} (h : Portable os c) (hpm : c.portMapping = some pm)
    (autoPort : UInt16) : Portable os (Server.remap autoPort pm c) := by
  refine ⟨⟨⟨h.reference, h.path, h.ociReference, h.args, ?_, h.deny, h.allow, h.volumes⟩, ?_⟩,
    h.isLocal⟩
  · have hmode := h.mode
    rw [hpm] at hmode
    exact hmode
  · intro pm' hpm'
    obtain rfl : { pm with appPort := some autoPort } = pm' := Option.some.inj hpm'
    obtain ⟨hhost, -⟩ := parsePortMapping_ok (h.port pm hpm)
    exact parsePortMapping_portText hhost fun _ => rfl

/-- The config that a run sets up. -/
theorem prepared {sos : Os} {config : ProcessConfig} {pm : PortMapping} (h : Portable os config)
    (hprep : Server.prepareRun sos config = .ok (c, pm)) : Portable os c := by
  obtain ⟨pm₀, hpm, -, ⟨-, autoPort, -, rfl, -⟩ | ⟨-, rfl, -⟩⟩ := Server.prepareRun_ok hprep
  · exact h.remap hpm autoPort
  · exact h

/-- An update that sets no port, or one of an app that has a port. -/
theorem updated {sos : Os} {u : Server.UpdateRequest} {change : Process.ConfigChange}
    (hshlex : ShlexInverts os) (hsplit : sos.shlexSplit = os.shlexSplit)
    (hnul : ∀ a ∈ u.args, '\x00' ∉ a.toList) (hport : u.port.isSome → c.portMapping.isSome)
    (hchange : Server.configChange sos t u = .ok change) (h : Portable os c) :
    Portable os (change.apply c) := by
  obtain ⟨hmapping, -, -, -, -, hargs⟩ := Server.configChange_ok hchange
  have hsome : (change.portMapping.or c.portMapping).isSome = c.portMapping.isSome := by
    cases hu : u.port with
    | none =>
      rw [hu] at hmapping
      have hnone : change.portMapping = none := (Except.ok.inj hmapping).symm
      rw [hnone]
      rfl
    | some p =>
      rw [hport (by rw [hu]; rfl)]
      cases change.portMapping with
      | none => exact hport (by rw [hu]; rfl)
      | some pm => rfl
  refine ⟨⟨⟨h.reference, h.path, h.ociReference, ?_, ?_, h.deny, h.allow, h.volumes⟩, ?_⟩,
    h.isLocal⟩
  · change parseArgsString os (argsText os (change.args.getD c.args)) = change.args.getD c.args
    rw [hargs]
    cases ha : u.args with
    | none => exact h.args
    | some a =>
      have hagain := parseArgsString_again hshlex fun s (hs : s ∈ some a) => hnul s (ha ▸ hs)
      rw [hsplit]
      exact hagain
  · change c.mode = if (change.portMapping.or c.portMapping).isSome then .run else .bin
    rw [hsome]
    exact h.mode
  · intro pm hpm
    change change.portMapping.or c.portMapping = some pm at hpm
    cases hp : change.portMapping with
    | none =>
      rw [hp] at hpm
      exact h.port pm hpm
    | some pm' =>
      rw [hp] at hpm hmapping
      obtain rfl : pm' = pm := Option.some.inj hpm
      exact port_again hmapping pm' rfl

end Portable

end Manifest

/-! ## The apps of a daemon -/

namespace Daemon

variable {P : ProcessConfig → Prop} {m : ProcessManager} {name : String} {st : DaemonState}

/-- What holds of the config of every app. -/
def EveryConfig (P : ProcessConfig → Prop) (m : ProcessManager) : Prop :=
  ∀ n p, m.lookup n = some p → P p.config

theorem EveryConfig.insert {p : ManagedProcess} (h : EveryConfig P m) (hp : P p.config) :
    EveryConfig P (m.insert name p) := by
  intro n q hq
  rw [ProcessManager.lookup_insert] at hq
  split at hq
  · cases hq
    exact hp
  · exact h n q hq

theorem EveryConfig.erase (h : EveryConfig P m) (name : String) :
    EveryConfig P (m.erase name) := by
  intro n q hq
  rw [ProcessManager.lookup_erase] at hq
  split at hq
  · exact nomatch hq
  · exact h n q hq

theorem everyConfig_runSpa (os : Os) {config : ProcessConfig} (pm : PortMapping) (hc : P config)
    (hall : EveryConfig P st.processMgr) :
    EveryConfig P (Server.runSpa os st config pm).1.processMgr := by
  unfold Server.runSpa
  split
  · exact hall
  · dsimp only
    split
    · exact hall
    · rename_i m _
      generalize hst' : ({ st with proxyMgr := m } : DaemonState) = st'
      have hall' : EveryConfig P st'.processMgr := by
        rw [← hst']
        exact hall
      cases hp : st'.processMgr.lookup config.name with
      | some p =>
        have hrun : st'.managed (Process.registerSpa config) = (st', .error _) :=
          DaemonState.managed_error (Process.registerSpa_of_some (by rw [hp]; rfl))
        rw [hrun]
        exact hall'
      | none =>
        have hrun : st'.managed (Process.registerSpa config) = ({ st' with
            processMgr := st'.processMgr.insert config.name (Process.spaProcess config) }, .ok _) :=
          DaemonState.managed_ok (Process.registerSpa_of_none hp)
        rw [hrun]
        dsimp only
        rw [Server.registerAcme_toHost]
        exact hall'.insert hc

theorem everyConfig_delete (name : String) (hall : EveryConfig P st.processMgr) :
    EveryConfig P (st.managed (Process.delete name)).1.processMgr := by
  rw [DaemonState.managed_fst]
  cases hp : st.processMgr.lookup name with
  | none =>
    rw [final_of_error (Process.delete_of_none hp)]
    exact hall
  | some p =>
    obtain ⟨t, hrun⟩ := Process.delete_of_some (h := st.toHost) hp
    rw [final_of_ok hrun]
    exact hall.erase name

/-- What a launch keeps of a config. -/
def KeptByLaunch (P : ProcessConfig → Prop) : Prop :=
  ∀ los c t p, P c → Process.Started los c t p → P p.config

section

variable (hlaunch : KeptByLaunch P)

include hlaunch

theorem everyConfig_restart (os : LaunchOs) (name : String) {h : Host}
    (hall : EveryConfig P h.processMgr) :
    EveryConfig P (final (Process.restart os name) h).processMgr := by
  cases hp : h.processMgr.lookup name with
  | none =>
    rw [final_of_error (Process.restart_of_none os hp)]
    exact hall
  | some p =>
    rcases Process.restart_cases os hp with ⟨e, t, -, hrun⟩ | ⟨m, q, t, hstart, rfl, hrun⟩
    · rw [final_of_error hrun]
      exact hall.insert (hall name p hp)
    · rw [final_of_ok hrun]
      exact hall.insert (hlaunch _ _ _ _ (hall name p hp) ((Process.startProcess_ok hstart).withCount _))

theorem everyConfig_tick {h : Host} (t : Tick) (hall : EveryConfig P h.processMgr) :
    EveryConfig P (Process.tick h t).processMgr := by
  have hchecked : EveryConfig P (Process.checked h t).processMgr := by
    intro n q hq
    rw [Process.lookup_checked] at hq
    obtain ⟨p, hp, rfl⟩ := Option.map_eq_some_iff.1 hq
    have hconfig : (Process.checkEntry (t.tryWait n) p).config = p.config := by
      unfold Process.checkEntry
      split
      · rfl
      · split <;> rfl
    rw [hconfig]
    exact hall n p hp
  have hrestarts : ∀ names g, EveryConfig P g.processMgr →
      EveryConfig P (final (Process.restartAll t.launch names) g).processMgr := by
    intro names
    induction names with
    | nil => exact fun g hg => hg
    | cons name names ih =>
      intro g hg
      rw [Process.run_restartAll_cons]
      exact ih _ (everyConfig_restart hlaunch _ name hg)
  rw [Process.tick_eq]
  exact hrestarts _ _ hchecked

theorem everyConfig_spawn (os : LaunchOs) {config : ProcessConfig} (hc : P config)
    (hall : EveryConfig P st.processMgr) :
    EveryConfig P (st.managed (Process.spawnProcess os config)).1.processMgr := by
  rw [DaemonState.managed_fst]
  rcases Process.spawnProcess_cases os config st.toHost with
    ⟨e, t, hrun⟩ | ⟨-, t, t', m, -, hstart, hrun⟩
  · rw [final_of_error hrun]
    exact hall
  · rw [final_of_ok hrun]
    exact hall.insert (hlaunch _ _ _ _ hc (Process.startProcess_ok hstart))

theorem everyConfig_runProcess (os : Os) {config : ProcessConfig} (pm : PortMapping)
    (hc : P config) (hall : EveryConfig P st.processMgr) :
    EveryConfig P (Server.runProcess os st config pm).1.processMgr := by
  have hspawn := everyConfig_spawn hlaunch (os.launch config.name) hc hall
  unfold Server.runProcess
  split
  · rename_i st' e heq
    rw [heq] at hspawn
    exact hspawn
  · rename_i st' msg heq
    rw [heq] at hspawn
    split
    · exact everyConfig_delete config.name hspawn
    · dsimp only
      rw [Server.registerAcme_toHost]
      exact hspawn

theorem everyConfig_restartUpdated (os : Os) (name : String)
    (hall : EveryConfig P st.processMgr) :
    EveryConfig P (Server.restartUpdated os st name).1.processMgr := by
  have hrestart := everyConfig_restart hlaunch (os.launch name) name (h := st.toHost) hall
  have hst := DaemonState.managed_fst st (Process.restart (os.launch name) name)
  unfold Server.restartUpdated
  split
  · exact hall
  · split <;> rename_i heq <;> rw [heq] at hst <;> subst hst <;> exact hrestart

theorem everyConfig_updateLocked (os : Os) (name : String) (reroutes : Bool)
    (change : Process.ConfigChange) (image : Option (String × String))
    (hc : ∀ p, st.processMgr.lookup name = some p →
      P (Server.updatedConfig change image p.config))
    (hall : EveryConfig P st.processMgr) :
    EveryConfig P (Server.updateLocked os st name reroutes change image).1.processMgr := by
  cases hp : st.processMgr.lookup name with
  | none =>
    rw [Server.updateLocked_of_none _ change _ hp]
    exact hall
  | some p =>
    rw [Server.updateLocked_of_some reroutes change image hp]
    generalize hst : ({ st with processMgr := _ } : DaemonState) = st'
    have hinsert : EveryConfig P st'.processMgr := by
      rw [← hst]
      exact hall.insert (hc p hp)
    split
    · obtain ⟨m, hreroute⟩ := Server.reroute_isOk os st' name p.config
      rw [hreroute]
      have hrerouted : EveryConfig P { st' with proxyMgr := m }.processMgr := hinsert
      exact everyConfig_restartUpdated hlaunch os name hrerouted
    · exact everyConfig_restartUpdated hlaunch os name hinsert

end

variable {client : ClientOs}

theorem keptByLaunch_portable : KeptByLaunch (Manifest.Portable client) :=
  fun _ _ _ _ h hstart => h.started hstart

/-- What the clients ask for: apps that manifests of local apps describe, and updates of these
that give them no image, no NUL among the arguments, and a port only where there is one. -/
def Asked (client : ClientOs) (st : DaemonState) : Event → Prop
  | .request _ (.run config) | .request _ (.bin config) => Manifest.Described client config
  | .request os (.update name port _ _ _ args image) =>
    image = none ∧ os.shlexSplit = client.shlexSplit ∧ (∀ a ∈ args, '\x00' ∉ a.toList) ∧
      ∀ p, st.processMgr.lookup name = some p → port.isSome → p.config.portMapping.isSome
  | .request .. | .tick _ | .issued .. | .disk _ => True

theorem portable_run (os : Os) {config : ProcessConfig} (hc : Manifest.Portable client config)
    (hall : EveryConfig (Manifest.Portable client) st.processMgr) :
    EveryConfig (Manifest.Portable client) (Server.handleRun os st config).1.processMgr := by
  unfold Server.handleRun
  split
  · exact hall
  · rename_i c pm hprep
    split
    · exact everyConfig_runSpa os pm (hc.prepared hprep) hall
    · exact everyConfig_runProcess keptByLaunch_portable os pm (hc.prepared hprep) hall

theorem portable_update (hshlex : Manifest.ShlexInverts client) (os : Os) (name : String)
    (u : Server.UpdateRequest) (himage : u.image = none)
    (hsplit : os.shlexSplit = client.shlexSplit) (hnul : ∀ a ∈ u.args, '\x00' ∉ a.toList)
    (hport : ∀ p, st.processMgr.lookup name = some p → u.port.isSome →
      p.config.portMapping.isSome)
    (hall : EveryConfig (Manifest.Portable client) st.processMgr) :
    EveryConfig (Manifest.Portable client) (Server.handleUpdate os st name u).1.processMgr := by
  unfold Server.handleUpdate
  rw [DaemonState.managed_onDisk, himage]
  have hpulled : result (Server.pullUpdate os name none) st.disk = .ok none := rfl
  have hdisk : final (Server.pullUpdate os name none) st.disk = st.disk := rfl
  rw [hpulled, hdisk]
  dsimp only
  cases hchange : Server.configChange os st.disk u with
  | error e => exact hall
  | ok change =>
    refine everyConfig_updateLocked keptByLaunch_portable os name _ change none ?_ hall
    intro p hp
    exact .updated hshlex hsplit hnul (hport p hp) hchange (hall name p hp)

theorem portable_next (hshlex : Manifest.ShlexInverts client) {e : Event}
    (hall : EveryConfig (Manifest.Portable client) st.processMgr) (he : Asked client st e) :
    EveryConfig (Manifest.Portable client) (machine.next st e).processMgr := by
  cases e with
  | tick os =>
    change EveryConfig _ (st.managed _).1.processMgr
    rw [DaemonState.managed_fst]
    exact everyConfig_tick keptByLaunch_portable (h := st.toHost) ⟨os.launch, os.tryWait⟩ hall
  | issued hostname cert => exact hall
  | disk t => exact hall
  | request os r =>
    have hrestart (name : String) : EveryConfig (Manifest.Portable client)
        (st.managed (Process.restart (os.launch name) name)).1.processMgr := by
      rw [DaemonState.managed_fst]
      exact everyConfig_restart keptByLaunch_portable _ name (h := st.toHost) hall
    have hapart {st' : DaemonState} (h : Apart st st') :
        EveryConfig (Manifest.Portable client) st'.processMgr := by
      rw [h.1]
      exact hall
    cases r with
    | bin config =>
      exact everyConfig_spawn keptByLaunch_portable (os.launch config.name)
        (Manifest.Described.portable hshlex he) hall
    | run config => exact portable_run os (Manifest.Described.portable hshlex he) hall
    | ls => exact hall
    | del name =>
      change EveryConfig _ (Server.handleDel st name).1.processMgr
      rw [(Server.handleDel_tables st name).1]
      exact hall.erase name
    | restart name | reload name => exact hrestart name
    | update name port ssl acme envFile args image =>
      obtain ⟨himage, hsplit, hnul, hport⟩ := he
      exact portable_update hshlex os name ⟨port, ssl, acme, envFile, args, image⟩ himage hsplit
        hnul hport hall
    | logs name lines =>
      have hstep : machine.next st (.request os (.logs name lines)) = st := by
        change (Server.handleRequest os st (.logs name lines)).1 = st
        unfold Server.handleRequest
        dsimp only
        split <;> rfl
      rw [hstep]
      exact hall
    | set key value => exact hapart (apart_set os st key value)
    | «export» => exact hall
    | save => exact hapart (apart_save os st)
    | kill =>
      change EveryConfig _ (Server.handleKill os st).1.processMgr
      unfold Server.handleKill
      dsimp only
      rw [DaemonState.stored_fst, DaemonState.managed_fst]
      exact fun n p hp => nomatch hp
    | link apiKey => exact hapart (apart_link os st apiKey)
    | unlink => exact hapart (apart_unlink os st)
    | metricsEnable port => exact hall
    | metricsDisable => exact hall

/-- Where the clients ask only for local apps that manifests describe, and for updates of these that
leave what a manifest can say, the file that `nyrun export` writes at any moment starts all of them
again, or the one asked for, in the order of the export: the requests that `nyrun start` sends are
of configs that are equal to those of the running apps. The env files must be readable then, and
set nothing that the apps do not have. -/
theorem exports_start_same {yaml : Yaml} {requests : Request → FileTree → FileTree}
    {file : String} {only : Option String} {t : FileTree} (store : StateStore) (disk : FileTree)
    (events : List Event) (hshlex : Manifest.ShlexInverts client)
    (hasked : machine.Along (Asked client) (.initial store disk) events)
    {configs : List ProcessConfig}
    (hconfigs : Process.getConfigs (machine.run (.initial store disk) events).processMgr = configs)
    (hyaml : ∀ c ∈ configs, Manifest.Reads yaml (Manifest.configToManifest client c))
    (hrequests : ∀ r t, ∀ c ∈ configs, Manifest.Covered t c → Manifest.Covered (requests r t) c)
    (hcovered : ∀ c ∈ configs, Manifest.Covered t c)
    (hfile : t.readToString file = .ok (Manifest.exportText yaml client configs))
    (hne : Manifest.chosen only configs ≠ []) :
    ∃ sent t', Manifest.start yaml client requests file only t = .ok ⟨sent, []⟩ t' ∧
      List.Forall₂ Manifest.Resends (Manifest.chosen only configs) sent := by
  have hall : EveryConfig (Manifest.Portable client)
      (machine.run (.initial store disk) events).processMgr :=
    Machine.run_invariant (P := fun st => EveryConfig (Manifest.Portable client) st.processMgr)
      (fun st e => portable_next hshlex) (by intro n p hp; cases hp) hasked
  refine Manifest.start_exported (fun c hc => ?_) hyaml hrequests hcovered hfile hne
  rw [← hconfigs] at hc
  obtain ⟨n, p, hp, rfl⟩ := Process.mem_getConfigs.1 hc
  exact (hall n p hp).toExportable

/-- A manifest with nothing but a path. -/
def plainManifest (name path : String) : ProcessManifest where
  kind := "Process"
  metadata := { name := name }
  spec := {
    path := path
    port := none
    args := none
    envFile := none
    env := none
    spa := false
    ssl := none
    acme := none
    deny := none
    allow := none
    pidFile := none
    volumes := [] }

/-- The document of such a manifest. -/
def plainDocument (m : ProcessManifest) : String :=
  Text.join '\n' ["kind: Process", "metadata:", "  name: " ++ m.metadata.name, "spec:",
    "  path: " ++ m.spec.path, "  port: null", "  args: null", "  env_file: null", "  env: null",
    "  spa: false", "  ssl: null", "  acme: null", "  deny: null", "  allow: null",
    "  pid_file: null", "  volumes: []", ""]

/-- The one of some manifests that a document is of. -/
def writtenIn (known : List ProcessManifest) (doc : String) : Except String ProcessManifest :=
  match known.find? (fun m => Text.trimBoth Text.isWhitespace (plainDocument m) = doc) with
  | some m => .ok m
  | none => .error "missing field"

/-- YAML for some such manifests. -/
def plainYaml (known : List ProcessManifest) : Yaml where
  kindOf doc := (writtenIn known doc).map (·.kind)
  configMap _ := .error "missing field"
  process := writtenIn known
  write := plainDocument

theorem reads_plain {known : List ProcessManifest} {m : ProcessManifest}
    (hends : (plainDocument m).toList.getLast? = some '\n') (hdash : '-' ∉ (plainDocument m).toList)
    (hsome : Text.trimBoth Text.isWhitespace (plainDocument m) ≠ "")
    (hfind : writtenIn known (Text.trimBoth Text.isWhitespace (plainDocument m)) = .ok m)
    (henv : m.spec.env = none) : Manifest.Reads (plainYaml known) m := by
  have hapart : ¬"\n---".toList <:+: '\n' :: (plainDocument m).toList := by
    intro hin
    have hmem : '-' ∈ '\n' :: (plainDocument m).toList := hin.subset (by decide)
    exact hdash (by simpa using hmem)
  refine ⟨⟨List.getLast?_eq_some_iff.1 hends, hapart, hsome⟩, ?_, m, hfind, rfl, ?_⟩
  · change (writtenIn known (Text.trimBoth Text.isWhitespace (plainDocument m))).map _ = _
    rw [hfind]
    rfl
  · rw [henv]
    exact .none

/-- Two apps are started. -/
def twoApps : List Event :=
  [.request (.serving 7 4000) (.bin (.plain "job" "sleep")),
    .request (.serving 8 4000) (.bin (.plain "cron" "crond"))]

def twoConfigs : List ProcessConfig := [.plain "cron" "crond", .plain "job" "sleep"]

def twoYaml : Yaml := plainYaml [plainManifest "cron" "crond", plainManifest "job" "sleep"]

/-- The disk with their exported file. -/
def exportedDisk : FileTree :=
  final (FileTree.write "/apps.yaml"
    (Manifest.exportText twoYaml Manifest.spacedOs twoConfigs).toUTF8.data.toList) .empty

theorem read_written (content : Bytes) :
    (final (FileTree.write "/apps.yaml" content) .empty).read "/apps.yaml" = .ok content := rfl

theorem decode_toUTF8 (text : String) :
    String.fromUTF8? ⟨text.toUTF8.data.toList.toArray⟩ = some text := by
  rw [Array.toArray_toList]
  exact dif_pos text.isValidUTF8

theorem readToString_of_read {t : FileTree} {path text : String}
    (h : t.read path = .ok text.toUTF8.data.toList) : t.readToString path = .ok text := by
  unfold readToString
  rw [h]
  simp only [bind, Except.bind, decode_toUTF8]

/-- A launch of a local app changes nothing but its path. -/
theorem keptByLaunch_plain : KeptByLaunch fun c => c = .plain c.name c.path := by
  intro los c t p hc hstart
  rw [hstart.onLocal (by rw [hc]; rfl)]
  generalize Process.launchPath t c = path
  conv_lhs => rw [hc]
  rfl

theorem plain_bins {events : List Event}
    (h : ∀ e ∈ events, ∃ os name path, e = .request os (.bin (.plain name path)))
    (hevery : EveryConfig (fun c => c = .plain c.name c.path) st.processMgr) :
    EveryConfig (fun c => c = .plain c.name c.path) (machine.run st events).processMgr := by
  induction events generalizing st with
  | nil => exact hevery
  | cons e events ih =>
    obtain ⟨os, name, path, rfl⟩ := h e List.mem_cons_self
    refine ih (fun e he => h e (List.mem_cons_of_mem _ he)) ?_
    exact everyConfig_spawn keptByLaunch_plain (os.launch name) rfl hevery

theorem getConfigs_twoApps :
    Process.getConfigs (machine.run (.initial .empty .empty) twoApps).processMgr = twoConfigs := by
  have hevery : EveryConfig (fun c => c = .plain c.name c.path)
      (machine.run (.initial .empty .empty) twoApps).processMgr := by
    refine plain_bins ?_ ?_
    · intro e he
      simp only [twoApps, List.mem_cons, List.not_mem_nil, or_false] at he
      rcases he with rfl | rfl <;> exact ⟨_, _, _, rfl⟩
    · intro n p hp
      cases hp
  have hpaths : (Process.getConfigs (machine.run (.initial .empty .empty) twoApps).processMgr).map
      (fun c => (c.name, c.path)) = [("cron", "crond"), ("job", "sleep")] := by decide +kernel
  generalize machine.run (.initial .empty .empty) twoApps = st at hevery hpaths
  have hplain : Process.getConfigs st.processMgr = ((Process.getConfigs st.processMgr).map
      fun c => (c.name, c.path)).map fun np => .plain np.1 np.2 := by
    rw [List.map_map]
    conv_lhs => rw [← List.map_id (Process.getConfigs st.processMgr)]
    refine List.map_congr_left fun c hc => ?_
    obtain ⟨n, p, hp, rfl⟩ := Process.mem_getConfigs.1 hc
    exact hevery n p hp
  rw [hplain, hpaths]
  rfl

theorem reads_two : ∀ c ∈ twoConfigs,
    Manifest.Reads twoYaml (Manifest.configToManifest Manifest.spacedOs c) := by
  -- the two documents begin to differ with the name
  have hcron : (Text.trimBoth Text.isWhitespace
      (plainDocument (plainManifest "cron" "crond"))).toList[32]? = some 'c' := by
    rw [plainDocument, Text.join, Text.toList_trimBoth, String.toList_ofList]
    decide +kernel
  have hjob : (Text.trimBoth Text.isWhitespace
      (plainDocument (plainManifest "job" "sleep"))).toList[32]? = some 'j' := by
    rw [plainDocument, Text.join, Text.toList_trimBoth, String.toList_ofList]
    decide +kernel
  have hne : Text.trimBoth Text.isWhitespace (plainDocument (plainManifest "cron" "crond")) ≠
      Text.trimBoth Text.isWhitespace (plainDocument (plainManifest "job" "sleep")) := by
    intro heq
    rw [heq, hjob] at hcron
    exact absurd hcron (by decide)
  intro c hc
  simp only [twoConfigs, List.mem_cons, List.not_mem_nil, or_false] at hc
  rcases hc with rfl | rfl
  · change Manifest.Reads twoYaml (plainManifest "cron" "crond")
    refine reads_plain ?_ ?_ ?_ ?_ rfl
    · rw [plainDocument, Text.join, String.toList_ofList]
      decide +kernel
    · rw [plainDocument, Text.join, String.toList_ofList]
      decide +kernel
    · intro hnil
      rw [hnil] at hcron
      simp at hcron
    · rw [writtenIn, List.find?_cons_of_pos (by simp)]
  · change Manifest.Reads twoYaml (plainManifest "job" "sleep")
    refine reads_plain ?_ ?_ ?_ ?_ rfl
    · rw [plainDocument, Text.join, String.toList_ofList]
      decide +kernel
    · rw [plainDocument, Text.join, String.toList_ofList]
      decide +kernel
    · intro hnil
      rw [hnil] at hjob
      simp at hjob
    · rw [writtenIn, List.find?_cons_of_neg (by simpa using hne), List.find?_cons_of_pos (by simp)]

/-- The file of both starts both. -/
theorem exports_start_same_two : ∃ sent t',
    Manifest.start twoYaml Manifest.spacedOs (fun _ t => t) "/apps.yaml" none exportedDisk =
      .ok ⟨sent, []⟩ t' ∧ List.Forall₂ Manifest.Resends twoConfigs sent := by
  have hasked : machine.Along (Asked Manifest.spacedOs) (.initial .empty .empty) twoApps := by
    refine ⟨⟨rfl, .empty, plainManifest "job" "sleep", rfl, ?_⟩,
      ⟨rfl, .empty, plainManifest "cron" "crond", rfl, ?_⟩, trivial⟩ <;>
    exact fun s hs => nomatch hs
  have hcovered : ∀ t, ∀ c ∈ twoConfigs, Manifest.Covered t c := by
    intro t c hc ef hef
    simp only [twoConfigs, List.mem_cons, List.not_mem_nil, or_false] at hc
    rcases hc with rfl | rfl <;> exact nomatch hef
  have hfile : exportedDisk.readToString "/apps.yaml" =
      .ok (Manifest.exportText twoYaml Manifest.spacedOs twoConfigs) :=
    readToString_of_read (read_written _)
  exact exports_start_same .empty .empty twoApps Manifest.spacedOs_inverts hasked
    getConfigs_twoApps reads_two (fun _ t c hc _ => hcovered t c hc) (hcovered exportedDisk) hfile
    (List.cons_ne_nil _ _)

end Daemon
