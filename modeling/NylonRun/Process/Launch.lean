import NylonRun.Process.Manager

/-!
# What a launch makes of a config

One statement for each part of `start_process`: which fields it rewrites, from what, and what
the child is started with. Everything about a second launch follows from these.
-/

open UnixPath FileTree Effect

namespace Process

/-- The later config is that of the same app: a launch rewrites the path, the arguments and
what the sandbox denies and allows, and nothing else. -/
structure SameApp (c c' : ProcessConfig) : Prop where
  name : c'.name = c.name
  envVars : c'.envVars = c.envVars
  envFile : c'.envFile = c.envFile
  mode : c'.mode = c.mode
  portMapping : c'.portMapping = c.portMapping
  spa : c'.spa = c.spa
  ssl : c'.ssl = c.ssl
  acme : c'.acme = c.acme
  isOci : c'.isOci = c.isOci
  ociReference : c'.ociReference = c.ociReference
  pidFile : c'.pidFile = c.pidFile
  volumes : c'.volumes = c.volumes

theorem SameApp.refl (c : ProcessConfig) : SameApp c c := by constructor <;> rfl

theorem sameApp_withPath (c : ProcessConfig) (path : String) : SameApp c { c with path := path } := by
  constructor <;> rfl

theorem sameApp_withImage (extractDir entrypoint : String) (extraArgs : List String)
    (c : ProcessConfig) : SameApp c (withImage extractDir entrypoint extraArgs c) := by
  unfold withImage
  constructor <;> (dsimp only; split <;> split <;> rfl)

@[simp] theorem withImage_path (extractDir entrypoint : String) (extraArgs : List String)
    (c : ProcessConfig) : (withImage extractDir entrypoint extraArgs c).path = entrypoint := by
  unfold withImage
  dsimp only
  split <;> split <;> rfl

@[simp] theorem withImage_args (extractDir entrypoint : String) (extraArgs : List String)
    (c : ProcessConfig) :
    (withImage extractDir entrypoint extraArgs c).args = extraArgs ++ c.args := by
  unfold withImage
  dsimp only
  split <;> split <;> rfl

/-- The directory of an image is not called `all`. -/
theorem extractDir_ne_all (name : String) : join Oci.ociDir name ≠ "all" := by
  intro h
  have habs : isAbsolute (join Oci.ociDir name) = true := isAbsolute_join name (by decide)
  rw [h] at habs
  exact absurd habs (by decide)

theorem withImage_deny (d e : String) (x : List String) (c : ProcessConfig) (hd : d ≠ "all") :
    (withImage d e x c).deny =
      if "all" ∈ c.allow then c.deny.filter (· ≠ "io")
      else if "io" ∈ c.deny then c.deny else c.deny ++ ["io"] := by
  unfold withImage
  by_cases hall : "all" ∈ c.allow <;> by_cases hio : "io" ∈ c.deny <;>
    simp [hall, hio, Ne.symm hd]

theorem withImage_allow (d e : String) (x : List String) (c : ProcessConfig) (hd : d ≠ "all") :
    (withImage d e x c).allow =
      if "all" ∈ c.allow then c.allow.filter (· ≠ "all")
      else if "io" ∈ c.deny then c.allow else c.allow ++ [d] := by
  unfold withImage
  by_cases hall : "all" ∈ c.allow <;> by_cases hio : "io" ∈ c.deny <;>
    simp [hall, hio, Ne.symm hd]

/-- The path that the copy of a local app leaves in its config (src/process.rs:83-121). -/
def launchPath (t : FileTree) (config : ProcessConfig) : String :=
  if config.isOci ∨ config.spa ∨ t.pathExists config.path = false then config.path
  else if t.isDir config.path then appDir config.name
  else join (appDir config.name) ((fileName config.path).getD config.name)

theorem copyToAppDir_ok {config c : ProcessConfig} {t t' : FileTree}
    (h : copyToAppDir config t = .ok c t') : c = { config with path := launchPath t config } := by
  unfold copyToAppDir at h
  by_cases hskip : config.isOci = true ∨ config.spa = true
  · rw [if_pos hskip] at h
    cases h
    rw [launchPath, if_pos (hskip.imp_right .inl)]
  rw [if_neg hskip, run_get_bind] at h
  cases he : t.pathExists config.path with
  | false =>
    rw [if_pos (by simp [he])] at h
    cases h
    rw [launchPath, if_pos (.inr (.inr he))]
  | true =>
    rw [if_neg (by simp [he])] at h
    obtain ⟨place, t₁, hmk, h⟩ := bind_ok h
    -- the directories made for the copy do not change what the path leads to
    have hkind : t₁.isDir config.path = t.isDir config.path :=
      ((respects_createDirAll kept_grows _).of_ok (mapError_ok.1 hmk)).isDir he
    have hgo : ¬(config.isOci = true ∨ config.spa = true ∨ t.pathExists config.path = false) := by
      simpa [he] using hskip
    unfold copyApp at h
    rw [run_get_bind, hkind] at h
    rw [launchPath, if_neg hgo]
    split at h
    · rename_i hdir
      obtain ⟨_, t₂, -, h⟩ := bind_ok h
      cases h
      rw [if_pos hdir]
    · rename_i hdir
      obtain ⟨_, t₂, -, h⟩ := bind_ok h
      cases h
      rw [if_neg hdir]

theorem copyToAppDir_of_isOci {config : ProcessConfig} (t : FileTree) (h : config.isOci = true) :
    copyToAppDir config t = .ok config t := by
  unfold copyToAppDir
  rw [if_pos (.inl h)]
  rfl

theorem pullImage_ok {os : LaunchOs} {config : ProcessConfig} {t t' : FileTree} {d e : String}
    {x : List String} (h : pullImage os config t = .ok (d, e, x) t') :
    d = join Oci.ociDir config.name := by
  obtain ⟨d', t₁, hpull, h⟩ := bind_ok h
  rw [run_get_bind] at h
  obtain ⟨⟨e', x'⟩, t₂, -, h⟩ := bind_ok h
  cases h
  unfold Oci.pullAndExtract at hpull
  obtain ⟨_, _, -, h⟩ := bind_ok hpull
  obtain ⟨_, _, -, h⟩ := bind_ok h
  obtain ⟨_, _, -, h⟩ := bind_ok h
  obtain ⟨_, _, -, h⟩ := bind_ok h
  obtain ⟨_, _, -, h⟩ := bind_ok h
  obtain ⟨_, _, -, h⟩ := bind_ok h
  cases h
  rfl

theorem spawnChild_ok {os : LaunchOs} {config : ProcessConfig} {m : ManagedProcess}
    (h : spawnChild os config = .ok m) :
    ∃ pid restrictions, m = {
      config := config
      child := some { pid := pid, command := command config, restrictions := restrictions }
      pid := pid
      status := .running
      restartCount := 0 } := by
  unfold spawnChild at h
  cases hr : restrict os.kernel (command config) with
  | error e => rw [hr] at h; cases h
  | ok restrictions =>
    cases hs : os.spawn (command config) with
    | error e => rw [hr, hs] at h; cases h
    | ok pid => rw [hr, hs] at h; cases h; exact ⟨pid, restrictions, rfl⟩

/-- What a successful launch gives: the child runs the command of the config that is kept, and
that config differs from the one given as the copy or the image says. -/
structure Started (os : LaunchOs) (config : ProcessConfig) (t : FileTree) (m : ManagedProcess) :
    Prop where
  onLocal : config.isOci = false → m.config = { config with path := launchPath t config }
  onImage : config.isOci = true → ∃ e x t₁,
    pullImage os config t = .ok (join Oci.ociDir config.name, e, x) t₁ ∧
      m.config = withImage (join Oci.ociDir config.name) e x config
  child : ∃ c, m.child = some c ∧ c.command = command m.config
  running : m.status = .running

/-- The count of restarts plays no part in what was started. -/
theorem Started.withCount {os : LaunchOs} {config : ProcessConfig} {t : FileTree}
    {m : ManagedProcess} (h : Started os config t m) (count : UInt32) :
    Started os config t { m with restartCount := count } :=
  ⟨h.onLocal, h.onImage, h.child, h.running⟩

theorem startProcess_ok {os : LaunchOs} {config : ProcessConfig} {t t' : FileTree}
    {m : ManagedProcess} (h : startProcess os config t = .ok m t') : Started os config t m := by
  unfold startProcess at h
  obtain ⟨c₁, t₁, hcopy, h⟩ := bind_ok h
  obtain ⟨c₂, t₂, himage, h⟩ := bind_ok h
  obtain ⟨_, t₃, -, h⟩ := bind_ok h
  have hspawn : spawnChild os c₂ = .ok m := by
    cases hs : spawnChild os c₂ with
    | error e => rw [hs] at h; cases h
    | ok m' => rw [hs] at h; cases h; rfl
  obtain ⟨pid, restrictions, hm⟩ := spawnChild_ok hspawn
  have hconfig : m.config = c₂ := by rw [hm]
  unfold prepareImage at himage
  refine ⟨fun hoci => ?_, fun hoci => ?_, by rw [hm]; exact ⟨_, rfl, rfl⟩, by rw [hm]⟩
  · have hc := copyToAppDir_ok hcopy
    rw [if_pos (by rw [hc]; simpa using hoci)] at himage
    cases himage
    rw [hconfig, hc]
  · rw [copyToAppDir_of_isOci t hoci] at hcopy
    cases hcopy
    rw [if_neg (by simpa using hoci)] at himage
    obtain ⟨⟨d, e, x⟩, t₁, hpull, himage⟩ := bind_ok himage
    cases himage
    have hd := pullImage_ok hpull
    subst hd
    exact ⟨e, x, _, hpull, hconfig⟩

theorem Started.same {os : LaunchOs} {config : ProcessConfig} {t : FileTree} {m : ManagedProcess}
    (h : Started os config t m) : SameApp config m.config := by
  cases hoci : config.isOci with
  | false => rw [h.onLocal hoci]; exact sameApp_withPath config _
  | true =>
    obtain ⟨e, x, t₁, -, hm⟩ := h.onImage hoci
    rw [hm]
    exact sameApp_withImage _ e x config

/-! ## The operations of the table -/

theorem run_onDisk {α : Type} (x : Fs α) (h : Host) :
    onDisk x h = match x h.disk with
      | .ok a t => .ok a { h with disk := t }
      | .error e t => .error e { h with disk := t } := rfl

theorem run_modifyTable (f : ProcessManager → ProcessManager) (h : Host) :
    modifyTable f h = .ok () { h with processMgr := f h.processMgr } := rfl

theorem writePidFile_ok (m : ManagedProcess) (t : FileTree) :
    writePidFile m t = .ok () (final (writePidFile m) t) := by
  unfold writePidFile
  cases m.config.pidFile <;> cases m.pid <;> rfl

/-- With a free name and its directories, `spawn_process` stops at the launch or enters the started
process. -/
theorem spawnProcess_free (os : LaunchOs) {config : ProcessConfig} {h : Host} {t : FileTree}
    (hfree : h.processMgr.lookup config.name = none) (hdirs : ensureDirs config.name h.disk = .ok () t) :
    (∃ e t', startProcess os config t = .error e t' ∧
      spawnProcess os config h = .error e { h with disk := t' }) ∨
    ∃ m t', startProcess os config t = .ok m t' ∧
      spawnProcess os config h =
        .ok s!"process '{config.name}' started (pid: {m.pid.getD 0})"
          ⟨h.processMgr.insert config.name m, final (writePidFile m) t'⟩ := by
  unfold spawnProcess
  rw [run_get_bind, hfree, if_neg (by simp)]
  simp only [run_bind, run_onDisk, run_modifyTable, run_pure, writePidFile_ok, mapError, hdirs]
  cases hstart : startProcess os config t with
  | error e t' => exact .inl ⟨e, t', rfl, rfl⟩
  | ok m t' => exact .inr ⟨m, t', rfl, rfl⟩

/-- `spawn_process` stops at a name that is taken, at the directories or at the launch; or it
enters the started process. -/
theorem spawnProcess_steps (os : LaunchOs) (config : ProcessConfig) (h : Host) :
    (∃ e, spawnProcess os config h = .error e h) ∨
    (∃ e e' t, ensureDirs config.name h.disk = .error e t ∧
      spawnProcess os config h = .error e' { h with disk := t }) ∨
    ∃ t, ensureDirs config.name h.disk = .ok () t ∧
      ((∃ e t', startProcess os config t = .error e t' ∧
        spawnProcess os config h = .error e { h with disk := t' }) ∨
      (h.processMgr.lookup config.name = none ∧ ∃ m t', startProcess os config t = .ok m t' ∧
        spawnProcess os config h =
          .ok s!"process '{config.name}' started (pid: {m.pid.getD 0})"
            ⟨h.processMgr.insert config.name m, final (writePidFile m) t'⟩)) := by
  cases hold : h.processMgr.lookup config.name with
  | some p =>
    unfold spawnProcess
    rw [run_get_bind, hold]
    exact .inl ⟨_, rfl⟩
  | none =>
    cases hdirs : ensureDirs config.name h.disk with
    | error e t =>
      unfold spawnProcess
      rw [run_get_bind, hold, if_neg (by simp)]
      simp only [run_bind, run_onDisk, mapError, hdirs]
      exact .inr (.inl ⟨e, _, t, rfl, rfl⟩)
    | ok _ t =>
      refine .inr (.inr ⟨t, rfl, ?_⟩)
      rcases spawnProcess_free os hold hdirs with hfails | hstarts
      · exact .inl hfails
      · exact .inr ⟨rfl, hstarts⟩

/-- `spawn_process` either fails, and the table is as before, or enters a started process
under a name that was free. -/
theorem spawnProcess_cases (os : LaunchOs) (config : ProcessConfig) (h : Host) :
    (∃ e t, spawnProcess os config h = .error e { h with disk := t }) ∨
    (h.processMgr.lookup config.name = none ∧ ∃ t t' m,
      ensureDirs config.name h.disk = .ok () t ∧ startProcess os config t = .ok m t' ∧
      spawnProcess os config h =
        .ok s!"process '{config.name}' started (pid: {m.pid.getD 0})"
          ⟨h.processMgr.insert config.name m, final (writePidFile m) t'⟩) := by
  rcases spawnProcess_steps os config h with
    ⟨e, hrun⟩ | ⟨e, e', t, -, hrun⟩ | ⟨t, hdirs, ⟨e, t', -, hrun⟩ | ⟨hfree, m, t', hstart, hrun⟩⟩
  · exact .inl ⟨e, h.disk, hrun⟩
  · exact .inl ⟨e', t, hrun⟩
  · exact .inl ⟨e, t', hrun⟩
  · exact .inr ⟨hfree, t, t', m, hdirs, hstart, hrun⟩

theorem restart_of_none (os : LaunchOs) {name : String} {h : Host}
    (hp : h.processMgr.lookup name = none) :
    restart os name h = .error s!"process '{name}' not found" h := by
  unfold restart getProcess
  rw [run_bind, run_get_bind, hp]
  rfl

/-- `restart` of a registered app kills its child; then the launch fails, or the started
process takes the entry with one more restart on its count. -/
theorem restart_cases (os : LaunchOs) {name : String} {h : Host} {p : ManagedProcess}
    (hp : h.processMgr.lookup name = some p) :
    (∃ e t, startProcess os p.config h.disk = .error e t ∧
      restart os name h = .error e ⟨h.processMgr.insert name p.killChild, t⟩) ∨
    (∃ m q t, startProcess os p.config h.disk = .ok m t ∧
      q = { m with restartCount := p.restartCount + 1 } ∧
      restart os name h =
        .ok s!"process '{name}' restarted (pid: {q.pid.getD 0}, restarts: {q.restartCount})"
          ⟨h.processMgr.insert name q, final (writePidFile q) t⟩) := by
  unfold restart getProcess
  rw [run_bind, run_get_bind, hp]
  simp only [run_pure, run_bind, run_onDisk, run_modifyTable, writePidFile_ok]
  cases hstart : startProcess os p.config h.disk with
  | error e t => exact .inl ⟨e, t, rfl, rfl⟩
  | ok m t =>
    refine .inr ⟨m, _, t, rfl, rfl, ?_⟩
    simp only [ProcessManager.insert, AList.insert_insert]

theorem delete_of_none {name : String} {h : Host} (hp : h.processMgr.lookup name = none) :
    delete name h = .error s!"process '{name}' not found" h := by
  unfold delete getProcess
  rw [run_bind, run_get_bind, hp]
  rfl

/-- `delete` takes the entry out of the table. -/
theorem delete_of_some {name : String} {h : Host} {p : ManagedProcess}
    (hp : h.processMgr.lookup name = some p) :
    ∃ t, delete name h = .ok s!"process '{name}' deleted" ⟨h.processMgr.erase name, t⟩ := by
  unfold delete getProcess
  rw [run_bind, run_get_bind, hp]
  simp only [run_pure]
  cases p.config.pidFile with
  | none => exact ⟨h.disk, rfl⟩
  | some path => exact ⟨final (removeFile path) h.disk, rfl⟩

/-- `delete` removes no directory: at most the pid file is gone from the disk. -/
theorem find_delete {name path : String} {h h' : Host} {msg : String} {q : Place}
    (hrun : delete name h = .ok msg h') :
    h'.disk.find path = some (q, .dir) ↔ h.disk.find path = some (q, .dir) := by
  cases hp : h.processMgr.lookup name with
  | none =>
    rw [delete_of_none hp] at hrun
    cases hrun
  | some p =>
    unfold delete getProcess at hrun
    rw [run_bind, run_get_bind, hp] at hrun
    simp only [run_pure] at hrun
    cases hpid : p.config.pidFile with
    | none =>
      rw [hpid] at hrun
      cases hrun
      exact Iff.rfl
    | some pidFile =>
      rw [hpid] at hrun
      obtain rfl : (⟨h.processMgr.erase name, final (removeFile pidFile) h.disk⟩ : Host) = h' := by
        cases hrun
        rfl
      exact find_removeFile pidFile path

theorem modifyConfig_of_some {m : ProcessManager} {name : String} {p : ManagedProcess}
    (f : ProcessConfig → ProcessConfig) (hp : m.lookup name = some p) :
    modifyConfig name f m = m.insert name { p with config := f p.config } := by
  rw [modifyConfig, hp]

theorem modifyConfig_insert (m : ProcessManager) (name : String) (p : ManagedProcess)
    (f : ProcessConfig → ProcessConfig) :
    modifyConfig name f (m.insert name p) = m.insert name { p with config := f p.config } := by
  have hp : (m.insert name p).lookup name = some p := by
    rw [ProcessManager.lookup_insert, if_pos rfl]
  rw [modifyConfig_of_some f hp]
  simp only [ProcessManager.insert, AList.insert_insert]

theorem updateConfig_of_none (change : ConfigChange) {name : String} {h : Host}
    (hp : h.processMgr.lookup name = none) :
    updateConfig name change h = .error s!"process '{name}' not found" h := by
  unfold updateConfig getProcess
  rw [run_bind, run_get_bind, hp]
  rfl

/-- `update_config` of a registered app gives its old config and stores the changed one. -/
theorem updateConfig_of_some (change : ConfigChange) {name : String} {h : Host}
    {p : ManagedProcess} (hp : h.processMgr.lookup name = some p) :
    updateConfig name change h = .ok p.config
      { h with processMgr := h.processMgr.insert name { p with config := change.apply p.config } } := by
  unfold updateConfig getProcess
  rw [run_bind, run_get_bind, hp, ← modifyConfig_of_some change.apply hp]
  rfl

theorem registerSpa_of_some {config : ProcessConfig} {h : Host}
    (hp : (h.processMgr.lookup config.name).isSome) :
    registerSpa config h = .error s!"process '{config.name}' already exists" h := by
  unfold registerSpa
  rw [run_get_bind, if_pos hp]
  rfl

/-- The entry of an SPA: it has no child. -/
def spaProcess (config : ProcessConfig) : ManagedProcess where
  config := config
  child := none
  pid := none
  status := .running
  restartCount := 0

theorem registerSpa_of_none {config : ProcessConfig} {h : Host}
    (hp : h.processMgr.lookup config.name = none) :
    registerSpa config h = .ok s!"SPA '{config.name}' registered"
      ⟨h.processMgr.insert config.name (spaProcess config), h.disk⟩ := by
  unfold registerSpa
  rw [run_get_bind, if_neg (by simp [hp])]
  rfl

theorem mem_getConfigs {m : ProcessManager} {c : ProcessConfig} :
    c ∈ getConfigs m ↔ ∃ n p, m.lookup n = some p ∧ p.config = c := by
  unfold getConfigs
  rw [List.mem_map]
  constructor
  · rintro ⟨p, hp, hc⟩
    obtain ⟨n, hn⟩ := Dict.mem_values.1 hp
    exact ⟨n, p, hn, hc⟩
  · rintro ⟨n, p, hn, hc⟩
    exact ⟨p, Dict.mem_values.2 ⟨n, hn⟩, hc⟩

end Process
