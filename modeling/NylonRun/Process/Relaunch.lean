import NylonRun.Lib.Machine
import NylonRun.Process.Launch

/-!
# Launching the same app again

Restart, reload, the restart of a crashed child, and saving and restoring the stored config
all run `start_process` on the config that the last launch left behind. The machine below is
one app under any sequence of these; the other programs of the host may change the disk
between two launches.
-/

open UnixPath FileTree Effect

inductive RelaunchKind where
  | restart
  | reload
  /-- The child exits with a failure and the health checker finds it. -/
  | autoRestart
  /-- The daemon is stopped, and started again on the saved config. -/
  | saveRestore
  deriving DecidableEq, Repr

structure Relaunch where
  kind : RelaunchKind
  os : LaunchOs
  /-- The disk, where something else has changed it since the last launch. -/
  disk : Option FileTree

namespace Process

def relaunch (name : String) (h : Host) (r : Relaunch) : Host :=
  let h := { h with disk := r.disk.getD h.disk }
  match r.kind with
  | .restart => final (restart r.os name) h
  | .reload => final (reload r.os name) h
  | .autoRestart => final (checkAndRestart (fun _ => r.os) fun _ => .exited false) h
  | .saveRestore =>
    final (restoreProcesses (fun _ => r.os) (getConfigs h.processMgr)) { h with processMgr := .empty }

/-- The child an app has. -/
def childOf (name : String) (h : Host) : Option Child :=
  (h.processMgr.lookup name).bind (·.child)

/-- The answer is the child that the app has afterwards. -/
def relaunches (name : String) : Machine Host Relaunch (Option Child) :=
  ⟨fun h r => (relaunch name h r, childOf name (relaunch name h r))⟩

/-- The disk on which the launch finds the app. -/
def launchDisk (name : String) (h : Host) (r : Relaunch) : FileTree :=
  let t := r.disk.getD h.disk
  match r.kind with
  | .saveRestore => final (ensureDirs name) t
  | .restart | .reload | .autoRestart => t

/-- The app is launched: it has a child again. -/
def Launches (name : String) (h : Host) (r : Relaunch) : Prop :=
  (childOf name (relaunch name h r)).isSome

instance (name : String) (h : Host) (r : Relaunch) : Decidable (Launches name h r) :=
  inferInstanceAs (Decidable (_ = true))

/-- The process table holds one running app. -/
structure Alone (name : String) (h : Host) (p : ManagedProcess) : Prop where
  table : h.processMgr = ProcessManager.empty.insert name p
  named : p.config.name = name
  running : p.status = .running
  child : p.child.isSome

theorem Alone.lookup {name : String} {h : Host} {p : ManagedProcess} (ha : Alone name h p) :
    h.processMgr.lookup name = some p := by
  rw [ha.table, ProcessManager.lookup_insert, if_pos rfl]

theorem insert_alone (name : String) (p q : ManagedProcess) :
    (ProcessManager.empty.insert name p).insert name q = ProcessManager.empty.insert name q := by
  simp only [ProcessManager.insert, AList.insert_insert]

theorem childOf_killed (name : String) (m : ProcessManager) (p : ManagedProcess) (t : FileTree) :
    childOf name ⟨m.insert name p.killChild, t⟩ = none := by
  unfold childOf
  rw [ProcessManager.lookup_insert, if_pos rfl]
  rfl

/-- A restart of the only app: it is left without a child, or what is started takes its entry. -/
theorem restart_only (os : LaunchOs) {name : String} {h : Host} {p : ManagedProcess}
    (htable : h.processMgr = ProcessManager.empty.insert name p) :
    (∃ e t, startProcess os p.config h.disk = .error e t ∧
      final (restart os name) h = ⟨ProcessManager.empty.insert name p.killChild, t⟩) ∨
    (∃ m m' t, startProcess os p.config h.disk = .ok m t ∧
      (∃ count, m' = { m with restartCount := count }) ∧
      final (restart os name) h =
        ⟨ProcessManager.empty.insert name m', final (writePidFile m') t⟩) := by
  have hlookup : h.processMgr.lookup name = some p := by
    rw [htable, ProcessManager.lookup_insert, if_pos rfl]
  rcases restart_cases os hlookup with ⟨e, t, hstart, hrun⟩ | ⟨m, m', t, hstart, hm, hrun⟩
  · refine .inl ⟨e, t, hstart, ?_⟩
    rw [final_of_error hrun, htable, insert_alone]
  · refine .inr ⟨m, m', t, hstart, ⟨_, hm⟩, ?_⟩
    rw [final_of_ok hrun, htable, insert_alone]

/-- What a restart of the app does when it brings the app back. -/
theorem restart_launches {os : LaunchOs} {name : String} {h : Host} {p : ManagedProcess}
    (htable : h.processMgr = ProcessManager.empty.insert name p)
    (hchild : (childOf name (final (restart os name) h)).isSome) :
    ∃ m m' t, startProcess os p.config h.disk = .ok m t ∧
      (∃ count, m' = { m with restartCount := count }) ∧
      final (restart os name) h =
        ⟨ProcessManager.empty.insert name m', final (writePidFile m') t⟩ := by
  rcases restart_only os htable with ⟨e, t, -, hrun⟩ | hbrings
  · rw [hrun, childOf_killed] at hchild
    cases hchild
  · exact hbrings

/-- The pass over a table with one running app whose child has failed. -/
theorem checkAndRestart_alone (os : LaunchOs) {name : String} {h : Host} {p : ManagedProcess}
    (ha : Alone name h p) :
    final (checkAndRestart (fun _ => os) fun _ => .exited false) h =
      final (restart os name)
        ⟨ProcessManager.empty.insert name { p with status := .errored }, h.disk⟩ := by
  obtain ⟨mgr, disk⟩ := h
  obtain ⟨rfl, -, hrunning, hchild⟩ := ha
  have hcrashed : crashed (.exited false) p = true := by simp [crashed, hrunning, hchild]
  have hentry : checkEntry (.exited false) p = { p with status := .errored } := by
    simp [checkEntry, hrunning, Option.isSome_iff_ne_none.1 hchild]
  have hrestart : (ProcessManager.empty.insert name p).processes.keys.filter (fun n =>
      ((ProcessManager.empty.insert name p).processes.lookup n).any (crashed (.exited false))) =
        [name] := by
    have hkeys : (ProcessManager.empty.insert name p).processes.keys = [name] := rfl
    rw [hkeys]
    simp [ProcessManager.insert, hcrashed]
  have hmap : (⟨(ProcessManager.empty.insert name p).processes.mapValues fun _ =>
      checkEntry (.exited false)⟩ : ProcessManager) =
        ProcessManager.empty.insert name { p with status := .errored } := by
    rw [← hentry]; rfl
  unfold checkAndRestart
  rw [final, run_get_bind]
  simp only [hrestart, hmap, run_bind, run_modifyTable]
  rfl

/-- The pass over a table with one app that has no failed child. -/
theorem checkAndRestart_idle (os : LaunchOs) {name : String} {h : Host} {p : ManagedProcess}
    (htable : h.processMgr = ProcessManager.empty.insert name p)
    (hidle : crashed (.exited false) p = false) :
    final (checkAndRestart (fun _ => os) fun _ => .exited false) h = h := by
  obtain ⟨mgr, disk⟩ := h
  obtain rfl := htable
  have hentry : checkEntry (.exited false) p = p := by
    unfold checkEntry
    rw [if_pos]
    by_contra hgo
    rw [not_or, not_not, Bool.not_eq_true, Option.isNone_eq_false_iff] at hgo
    simp [crashed, hgo.1, hgo.2] at hidle
  have hrestart : (ProcessManager.empty.insert name p).processes.keys.filter (fun n =>
      ((ProcessManager.empty.insert name p).processes.lookup n).any (crashed (.exited false))) =
        [] := by
    have hkeys : (ProcessManager.empty.insert name p).processes.keys = [name] := rfl
    rw [hkeys]
    simp [ProcessManager.insert, hidle]
  have hmap : (⟨(ProcessManager.empty.insert name p).processes.mapValues fun _ =>
      checkEntry (.exited false)⟩ : ProcessManager) =
        ProcessManager.empty.insert name (checkEntry (.exited false) p) := rfl
  rw [hentry] at hmap
  unfold checkAndRestart
  rw [final, run_get_bind]
  simp only [hrestart, hmap, run_bind, run_modifyTable]
  rfl

/-- The restore of one saved config. -/
theorem restore_only (os : LaunchOs) {name : String} {h : Host} {p : ManagedProcess}
    (htable : h.processMgr = ProcessManager.empty.insert name p) :
    final (restoreProcesses (fun _ => os) (getConfigs h.processMgr)) { h with processMgr := .empty } =
      final (spawnProcess os p.config) ⟨.empty, h.disk⟩ := by
  obtain ⟨mgr, disk⟩ := h
  obtain rfl := htable
  rfl

/-- Every successful relaunch is one of the stored config, and what it starts takes the
entry. -/
theorem relaunch_launches {name : String} {h : Host} {p : ManagedProcess} {r : Relaunch}
    (ha : Alone name h p) (hl : Launches name h r) :
    ∃ m m' t, startProcess r.os p.config (launchDisk name h r) = .ok m t ∧
      (∃ count, m' = { m with restartCount := count }) ∧
      relaunch name h r = ⟨ProcessManager.empty.insert name m', final (writePidFile m') t⟩ := by
  have ha' : Alone name { h with disk := r.disk.getD h.disk } p := ⟨ha.1, ha.2, ha.3, ha.4⟩
  unfold Launches at hl
  obtain ⟨kind, os, disk⟩ := r
  cases kind with
  | restart => exact restart_launches ha'.table hl
  | reload => exact restart_launches ha'.table hl
  | autoRestart =>
    simp only [relaunch, checkAndRestart_alone os ha'] at hl ⊢
    exact restart_launches (p := { p with status := .errored }) rfl hl
  | saveRestore =>
    simp only [relaunch, restore_only os ha'.table] at hl ⊢
    rcases spawnProcess_cases os p.config ⟨.empty, disk.getD h.disk⟩ with
      ⟨e, t, hrun⟩ | ⟨-, t, t', m, hdirs, hstart, hrun⟩
    · rw [final_of_error hrun] at hl
      cases hl
    · rw [final_of_ok hrun, ha.named]
      rw [ha.named] at hdirs
      refine ⟨m, m, t', ?_, ⟨m.restartCount, rfl⟩, rfl⟩
      rw [launchDisk, final_of_ok hdirs]
      exact hstart

/-- The app is alone again after a relaunch, and runs the command of its stored config. -/
theorem relaunch_alone {name : String} {h : Host} {p : ManagedProcess} {r : Relaunch}
    (ha : Alone name h p) (hl : Launches name h r) :
    ∃ q, Alone name (relaunch name h r) q ∧ Started r.os p.config (launchDisk name h r) q := by
  obtain ⟨m, m', t, hstart, ⟨count, rfl⟩, hrun⟩ := relaunch_launches ha hl
  have hs := startProcess_ok hstart
  refine ⟨{ m with restartCount := count }, ⟨by rw [hrun], ?_, hs.running, ?_⟩, hs.withCount count⟩
  · exact hs.same.name.trans ha.named
  · obtain ⟨c, hc, -⟩ := hs.child
    rw [hc]; rfl

/-- The first launch leaves the app alone in the table. -/
theorem spawn_alone {os : LaunchOs} {config : ProcessConfig} {t : FileTree} {h : Host}
    (hh : h = final (spawnProcess os config) ⟨.empty, t⟩)
    (hl : (childOf config.name h).isSome) :
    ∃ p, Alone config.name h p ∧ Started os config (final (ensureDirs config.name) t) p := by
  subst hh
  rcases spawnProcess_cases os config ⟨.empty, t⟩ with
    ⟨e, t₁, hrun⟩ | ⟨-, t₁, t₂, m, hdirs, hstart, hrun⟩
  · rw [final_of_error hrun] at hl
    cases hl
  · have hs := startProcess_ok hstart
    rw [final_of_ok hrun, final_of_ok hdirs]
    refine ⟨m, ⟨rfl, hs.same.name, hs.running, ?_⟩, hs⟩
    obtain ⟨c, hc, -⟩ := hs.child
    rw [hc]; rfl

/-! ## A relaunch that may fail -/

/-- The config that a relaunch starts, if it starts the app at all: a pass of the health checker
starts only one whose child it finds failed. -/
def launched (name : String) (h : Host) (r : Relaunch) : Option ProcessConfig :=
  (h.processMgr.lookup name).bind fun p =>
    if r.kind = .autoRestart ∧ crashed (.exited false) p = false then none else some p.config

theorem launched_empty {name : String} {h : Host} (r : Relaunch) (hempty : h.processMgr = .empty) :
    launched name h r = none := by
  rw [launched, hempty]
  rfl

/-- An app that is not there is not brought back. -/
theorem relaunch_empty {name : String} {h : Host} {r : Relaunch} (hempty : h.processMgr = .empty)
    (hdisk : r.disk = none) : relaunch name h r = h := by
  obtain ⟨mgr, disk⟩ := h
  obtain ⟨kind, os, disk'⟩ := r
  obtain rfl := hempty
  obtain rfl := hdisk
  have hnone : (⟨.empty, disk⟩ : Host).processMgr.lookup name = none := rfl
  cases kind with
  | restart => exact final_of_error (restart_of_none os hnone)
  | reload => exact final_of_error (restart_of_none os hnone)
  | autoRestart => rfl
  | saveRestore => rfl

/-- A relaunch of the only app, whatever comes of it. -/
theorem relaunch_cases {name : String} {h : Host} {p : ManagedProcess} {r : Relaunch}
    (htable : h.processMgr = ProcessManager.empty.insert name p) (hname : p.config.name = name)
    (hdisk : r.disk = none) (hlogs : ensureDirs name h.disk = .ok () h.disk) :
    (launched name h r = none ∧ relaunch name h r = h) ∨
    (launched name h r = some p.config ∧
      ((∃ e t m, startProcess r.os p.config h.disk = .error e t ∧
        (m = .empty ∨ m = ProcessManager.empty.insert name p.killChild) ∧
          relaunch name h r = ⟨m, t⟩) ∨
      ∃ m m' t, startProcess r.os p.config h.disk = .ok m t ∧
        (∃ count, m' = { m with restartCount := count }) ∧
          relaunch name h r =
            ⟨ProcessManager.empty.insert name m', final (writePidFile m') t⟩)) := by
  obtain ⟨kind, os, disk⟩ := r
  obtain rfl := hdisk
  have hlookup : h.processMgr.lookup name = some p := by
    rw [htable, ProcessManager.lookup_insert, if_pos rfl]
  have hlaunched (hgo : ¬(kind = .autoRestart ∧ crashed (.exited false) p = false)) :
      launched name h ⟨kind, os, none⟩ = some p.config := by
    rw [launched, hlookup, Option.bind_some, if_neg hgo]
  have hrestart {h' : Host} {q : ManagedProcess} (hdisk : h'.disk = h.disk)
      (htable' : h'.processMgr = ProcessManager.empty.insert name q) (hconfig : q.config = p.config)
      (hkill : q.killChild = p.killChild) :
      (∃ e t m, startProcess os p.config h.disk = .error e t ∧
        (m = .empty ∨ m = ProcessManager.empty.insert name p.killChild) ∧
          final (restart os name) h' = ⟨m, t⟩) ∨
      ∃ m m' t, startProcess os p.config h.disk = .ok m t ∧
        (∃ count, m' = { m with restartCount := count }) ∧
          final (restart os name) h' =
            ⟨ProcessManager.empty.insert name m', final (writePidFile m') t⟩ := by
    have honly := restart_only os htable'
    rw [hdisk, hconfig, hkill] at honly
    rcases honly with ⟨e, t, hstart, hrun⟩ | hbrings
    · exact .inl ⟨e, t, _, hstart, .inr rfl, hrun⟩
    · exact .inr hbrings
  cases kind with
  | restart => exact .inr ⟨hlaunched (by simp), hrestart rfl htable rfl rfl⟩
  | reload => exact .inr ⟨hlaunched (by simp), hrestart rfl htable rfl rfl⟩
  | autoRestart =>
    cases hcrashed : crashed (.exited false) p with
    | false =>
      refine .inl ⟨?_, checkAndRestart_idle os htable hcrashed⟩
      rw [launched, hlookup, Option.bind_some, if_pos ⟨rfl, hcrashed⟩]
    | true =>
      have ha : Alone name h p := by
        simp only [crashed, Bool.and_eq_true, decide_eq_true_eq] at hcrashed
        exact ⟨htable, hname, hcrashed.1.1, hcrashed.1.2⟩
      refine .inr ⟨hlaunched (by simp [hcrashed]), ?_⟩
      rw [relaunch]
      dsimp only [Option.getD_none]
      rw [checkAndRestart_alone os ha]
      exact hrestart rfl rfl rfl rfl
  | saveRestore =>
    refine .inr ⟨hlaunched (by simp), ?_⟩
    rw [relaunch]
    dsimp only [Option.getD_none]
    rw [restore_only os htable]
    have hdirs : ensureDirs p.config.name (⟨.empty, h.disk⟩ : Host).disk = .ok () h.disk := by
      rw [hname]
      exact hlogs
    rcases spawnProcess_free os rfl hdirs with ⟨e, t, hstart, hrun⟩ | ⟨m, t, hstart, hrun⟩
    · exact .inl ⟨e, t, .empty, hstart, .inl rfl, final_of_error hrun⟩
    · refine .inr ⟨m, m, t, hstart, ⟨m.restartCount, rfl⟩, ?_⟩
      rw [final_of_ok hrun, hname]

theorem Alone.childOf {name : String} {h : Host} {p : ManagedProcess} (ha : Alone name h p) :
    childOf name h = p.child := by
  rw [Process.childOf, ha.lookup]; rfl

end Process
