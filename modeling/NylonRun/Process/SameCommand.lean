import NylonRun.Process.Relaunch

/-!
# The command of every launch

When the launches of one app all run the same program with the same arguments: the arguments
of an image are put before those of the config at every launch, also when the config already
has them from the launch before, and the path of a local app becomes that of its copy.
-/

open UnixPath FileTree Effect

namespace Process

/-- The relaunch runs the program and the arguments of `first`. -/
def SameCommand (name : String) (first : Child) (h : Host) (r : Relaunch) : Prop :=
  ∃ ch ∈ childOf name (relaunch name h r),
    ch.command.program = first.command.program ∧ ch.command.args = first.command.args

/-- The image pulled for an OCI app names the program `entrypoint` and, before the user's
arguments, `extraArgs`. -/
def ImageIs (name entrypoint : String) (extraArgs : List String) (h : Host) (r : Relaunch) : Prop :=
  ∀ p ∈ h.processMgr.lookup name, p.config.isOci = true →
    result (pullImage r.os p.config) (launchDisk name h r) =
      .ok (join Oci.ociDir name, entrypoint, extraArgs)

/-- Nothing stands at the path of a config, or the path is that of the app's own copy. -/
def PathIsCopy (t : FileTree) (config : ProcessConfig) : Prop :=
  t.pathExists config.path = false ∨
    config.path = if t.isDir config.path then appDir config.name
      else join (appDir config.name) ((fileName config.path).getD config.name)

instance (t : FileTree) (config : ProcessConfig) : Decidable (PathIsCopy t config) :=
  inferInstanceAs (Decidable (_ ∨ _))

/-- Before the relaunch of a local app, its stored path is its copy's or leads to nothing. -/
def CopyStays (name : String) (h : Host) (r : Relaunch) : Prop :=
  ∀ p ∈ h.processMgr.lookup name, p.config.isOci = false → p.config.spa = false →
    PathIsCopy (launchDisk name h r) p.config

instance (name e : String) (x : List String) (h : Host) (r : Relaunch) :
    Decidable (ImageIs name e x h r) :=
  inferInstanceAs (Decidable (∀ p ∈ h.processMgr.lookup name, _ → _))

instance (name : String) (h : Host) (r : Relaunch) : Decidable (CopyStays name h r) :=
  inferInstanceAs (Decidable (∀ p ∈ h.processMgr.lookup name, _ → _))

theorem launchPath_eq_path {t : FileTree} {config : ProcessConfig} (hoci : config.isOci = false) :
    launchPath t config = config.path ↔ (config.spa = false → PathIsCopy t config) := by
  unfold launchPath PathIsCopy
  rw [eq_comm]
  cases config.spa <;> cases t.pathExists config.path <;> simp [hoci]

/-- A relaunch from a config with the path and the arguments of `c` runs them again exactly if
the image adds none and the path is not copied elsewhere. -/
theorem sameCommand_iff {name : String} {h : Host} {p : ManagedProcess} {r : Relaunch}
    {first : Child} {e : String} {x : List String} (ha : Alone name h p)
    (hfirst : first.command.program = p.config.path ∧ first.command.args = p.config.args)
    (hentry : p.config.isOci = true → p.config.path = e)
    (hl : Launches name h r) (himage : ImageIs name e x h r) :
    SameCommand name first h r ↔ (p.config.isOci = true → x = []) ∧ CopyStays name h r := by
  obtain ⟨q, hq, hs⟩ := relaunch_alone ha hl
  obtain ⟨ch, hch, hcmd⟩ := hs.child
  have hsame : SameCommand name first h r ↔
      q.config.path = p.config.path ∧ q.config.args = p.config.args := by
    unfold SameCommand
    rw [hq.childOf, hch, hfirst.1, hfirst.2]
    simp [hcmd, command]
  have hstays : CopyStays name h r ↔ (p.config.isOci = false → p.config.spa = false →
      PathIsCopy (launchDisk name h r) p.config) := by
    unfold CopyStays
    simp [ha.lookup]
  rw [hsame, hstays]
  cases hoci : p.config.isOci with
  | false => simp [hs.onLocal hoci, launchPath_eq_path hoci]
  | true =>
    obtain ⟨e', x', t, hpull, hconfig⟩ := hs.onImage hoci
    have hpull' := himage p ha.lookup hoci
    rw [result_of_ok hpull, Except.ok.injEq, Prod.mk.injEq, Prod.mk.injEq] at hpull'
    obtain ⟨-, rfl, rfl⟩ := hpull'
    simp [hconfig, hentry hoci]

/-- The launches of one app run the same program with the same arguments every time, for an
OCI app those of the image once and then the user's, exactly if the image adds no arguments
(or the app is never launched again) and no relaunch finds the path leading elsewhere. -/
theorem relaunches_same_command {os : LaunchOs} {config : ProcessConfig} {t : FileTree} {h : Host}
    {e : String} {x : List String} {rs : List Relaunch}
    (hh : h = final (spawnProcess os config) ⟨.empty, t⟩)
    (hspawn : (childOf config.name h).isSome)
    (himage : config.isOci = true → result (pullImage os config) (final (ensureDirs config.name) t) =
      .ok (join Oci.ociDir config.name, e, x))
    (hlaunch : (relaunches config.name).Along (Launches config.name) h rs)
    (hsame : (relaunches config.name).Along (ImageIs config.name e x) h rs) :
    (∃ first ∈ childOf config.name h,
      (config.isOci = true → first.command.args = x ++ config.args) ∧
      (relaunches config.name).Along (SameCommand config.name first) h rs) ↔
    (config.isOci = true → rs = [] ∨ x = []) ∧
      (relaunches config.name).Along (CopyStays config.name) h rs := by
  obtain ⟨p, ha, hs⟩ := spawn_alone hh hspawn
  obtain ⟨first, hfirst, hcmd⟩ := hs.child
  have hargs : config.isOci = true → first.command.args = x ++ config.args ∧ p.config.path = e := by
    intro hoci
    obtain ⟨e', x', t₁, hpull, hconfig⟩ := hs.onImage hoci
    have hpull' := himage hoci
    rw [result_of_ok hpull, Except.ok.injEq, Prod.mk.injEq, Prod.mk.injEq] at hpull'
    obtain ⟨-, rfl, rfl⟩ := hpull'
    simp [hcmd, command, hconfig]
  -- the stored config keeps the path and the arguments of the first launch
  let Runs (h : Host) : Prop := ∃ q, Alone config.name h q ∧ q.config.path = p.config.path ∧
    q.config.args = p.config.args ∧ q.config.isOci = config.isOci
  have hcongr : (relaunches config.name).Along (SameCommand config.name first) h rs ↔
      (relaunches config.name).Along (fun h r => (config.isOci = true → x = []) ∧
        CopyStays config.name h r) h rs := by
    refine Machine.along_congr_of_invariant (P := Runs) (fun s r hrun hyp => ?_)
      (fun s r hrun hyp hq => ?_) ⟨p, ha, rfl, rfl, hs.same.isOci⟩ (hlaunch.and hsame)
    · obtain ⟨q, hq, hpath, hqargs, hoci⟩ := hrun
      rw [← hoci]
      refine sameCommand_iff hq ⟨?_, ?_⟩ (fun h => ?_) hyp.1 hyp.2
      · rw [hpath, hcmd]; rfl
      · rw [hqargs, hcmd]; rfl
      · rw [hpath]; exact (hargs (hoci ▸ h)).2
    · obtain ⟨q, hq', hpath, hqargs, hoci⟩ := hrun
      obtain ⟨q', hq'', hs'⟩ := relaunch_alone hq' hyp.1
      obtain ⟨ch, hch, hcmd'⟩ := hs'.child
      obtain ⟨ch', hch', hprogram, hargs'⟩ := hq
      rw [hq''.childOf, hch] at hch'
      cases hch'
      rw [hcmd', hcmd] at hprogram hargs'
      exact ⟨q', hq'', hprogram, hargs', hs'.same.isOci.trans hoci⟩
  constructor
  · rintro ⟨first', hfirst', -, halong⟩
    rw [ha.childOf, hfirst] at hfirst'
    cases hfirst'
    obtain ⟨hextra, hstays⟩ := Machine.along_and.1 (hcongr.1 halong)
    exact ⟨fun hoci => ((Machine.along_const _).1 hextra).imp_right (· hoci), hstays⟩
  · rintro ⟨hextra, hstays⟩
    refine ⟨first, ha.childOf.trans hfirst, fun hoci => (hargs hoci).1, hcongr.2 ?_⟩
    refine Machine.along_and.2 ⟨(Machine.along_const _).2 ?_, hstays⟩
    cases hoci : config.isOci with
    | false => exact .inr (by simp)
    | true => exact (hextra hoci).imp_right fun h _ => h

/-- A command found in the search path, restarted, and restored after a restart of the
daemon. -/
theorem relaunches_same_command_sleep :
    let os := LaunchOs.serving .null 7
    let config := { ProcessConfig.plain "job" "sleep" with args := ["60"] }
    let h := final (spawnProcess os config) ⟨.empty, .empty⟩
    ∃ first ∈ childOf "job" h, (config.isOci = true → first.command.args = [] ++ config.args) ∧
      (relaunches "job").Along (SameCommand "job" first) h
        [⟨.restart, os, none⟩, ⟨.saveRestore, os, none⟩] :=
  (relaunches_same_command (e := "") rfl (by decide +kernel) (by decide) (by decide +kernel)
    (by decide +kernel)).2 ⟨by decide, by decide +kernel⟩

/-- Docker Hub has an image whose entrypoint is a program with one argument. -/
def serverOs (pid : UInt32) : LaunchOs :=
  Oci.publishing "docker.io/library/web:1" "Entrypoint" ["server", "--serve"] pid

/-- What the command line sends for `web:1`. -/
def serverConfig : ProcessConfig :=
  { ProcessConfig.plain "web" "web:1" with
    args := ["--port"]
    isOci := true
    ociReference := some "docker.io/library/web:1" }

/-- The daemon's host once the app runs. -/
def serverHost : Host := final (spawnProcess (serverOs 7) serverConfig) ⟨.empty, .empty⟩

/-- The restart of an app whose image is unchanged runs the image's argument twice. -/
theorem restart_repeats_image_args :
    let r : Relaunch := ⟨.restart, serverOs 8, none⟩
    (childOf "web" serverHost).map (·.command.args) = some ["--serve", "--port"] ∧
      ImageIs "web" "server" ["--serve"] serverHost r ∧
      (childOf "web" (relaunch "web" serverHost r)).map (·.command.args) =
        some ["--serve", "--serve", "--port"] := by
  decide +kernel

end Process
