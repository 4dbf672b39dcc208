import NylonRun.Process.Start

/-!
# The process table

`ProcessManager` (src/process.rs:26-603) without the metrics, and the programs that change it
together with the disk.
-/

open UnixPath FileTree Effect

structure ProcessManager where
  processes : Dict String ManagedProcess

/-- What a process manager works on. -/
structure Host where
  processMgr : ProcessManager
  disk : FileTree

/-- Programs on a host; an error is the text that goes back to the client. -/
abbrev Managed : Type → Type := EStateM String Host

/-- `kill_child` (src/process.rs:627-636). -/
def ManagedProcess.killChild (p : ManagedProcess) : ManagedProcess :=
  { p with child := none, pid := none, status := .stopped }

namespace ProcessManager

def empty : ProcessManager := ⟨∅⟩

def lookup (m : ProcessManager) (name : String) : Option ManagedProcess := m.processes.lookup name

def insert (m : ProcessManager) (name : String) (p : ManagedProcess) : ProcessManager :=
  ⟨m.processes.insert name p⟩

def erase (m : ProcessManager) (name : String) : ProcessManager := ⟨m.processes.erase name⟩

@[simp] theorem lookup_empty (name : String) : empty.lookup name = none := rfl

@[simp] theorem lookup_insert (m : ProcessManager) (name : String) (p : ManagedProcess)
    (n : String) : (m.insert name p).lookup n = if n = name then some p else m.lookup n :=
  Dict.lookup_insert_eq n

@[simp] theorem lookup_erase (m : ProcessManager) (name n : String) :
    (m.erase name).lookup n = if n = name then none else m.lookup n :=
  Dict.lookup_erase_eq n

theorem erase_of_none {m : ProcessManager} {name : String} (h : m.lookup name = none) :
    m.erase name = m := by
  rw [erase, Dict.erase_of_notMem (AList.lookup_eq_none.1 h)]

theorem erase_insert_of_none {m : ProcessManager} {name : String} (p : ManagedProcess)
    (h : m.lookup name = none) : (m.insert name p).erase name = m := by
  unfold erase insert
  rw [Dict.erase_insert_of_notMem (AList.lookup_eq_none.1 h)]

end ProcessManager

namespace Process

/-- A program of the disk alone. -/
def onDisk {α : Type} (x : Fs α) : Managed α := fun h =>
  match x h.disk with
  | .ok a t => .ok a { h with disk := t }
  | .error e t => .error e { h with disk := t }

def modifyTable (f : ProcessManager → ProcessManager) : Managed Unit :=
  modify fun h => { h with processMgr := f h.processMgr }

/-- `processes.get_mut(name).ok_or_else(..)`. -/
def getProcess (name : String) : Managed ManagedProcess := do
  match (← get).processMgr.lookup name with
  | some p => return p
  | none => throw s!"process '{name}' not found"

/-- A pid file that cannot be written is not an error (src/process.rs:63-69, 356-361). -/
def writePidFile (managed : ManagedProcess) : Fs Unit :=
  match managed.config.pidFile, managed.pid with
  | some path, some pid => attempt (write path (toString pid).toUTF8.toList)
  | _, _ => pure ()

/-- `spawn_process` (src/process.rs:50-78). -/
def spawnProcess (os : LaunchOs) (config : ProcessConfig) : Managed String := do
  if ((← get).processMgr.lookup config.name).isSome then
    throw s!"process '{config.name}' already exists"
  onDisk (mapError (fun e => s!"failed to create dirs: {e}") (ensureDirs config.name))
  let managed ← onDisk (startProcess os config)
  onDisk (writePidFile managed)
  modifyTable (·.insert config.name managed)
  return s!"process '{config.name}' started (pid: {managed.pid.getD 0})"

/-- `register_spa` (src/process.rs:276-297). -/
def registerSpa (config : ProcessConfig) : Managed String := do
  if ((← get).processMgr.lookup config.name).isSome then
    throw s!"process '{config.name}' already exists"
  modifyTable (·.insert config.name
    { config := config, child := none, pid := none, status := .running, restartCount := 0 })
  return s!"SPA '{config.name}' registered"

/-- `list` (src/process.rs:299-319). -/
def list (m : ProcessManager) : List ProcessInfo :=
  m.processes.values.map fun p =>
    { name := p.config.name, pid := p.pid, status := p.status, mode := p.config.mode,
      path := p.config.path, portMapping := p.config.portMapping, restartCount := p.restartCount }

/-- `delete` (src/process.rs:321-339). -/
def delete (name : String) : Managed String := do
  let p ← getProcess name
  match p.config.pidFile with
  | some path => onDisk (attempt (removeFile path))
  | none => pure ()
  modifyTable (·.erase name)
  return s!"process '{name}' deleted"

/-- `restart` (src/process.rs:341-378). -/
def restart (os : LaunchOs) (name : String) : Managed String := do
  let p ← getProcess name
  modifyTable (·.insert name p.killChild)
  let started ← onDisk (startProcess os p.config)
  let managed := { started with restartCount := p.restartCount + 1 }
  onDisk (writePidFile managed)
  modifyTable (·.insert name managed)
  return s!"process '{name}' restarted (pid: {managed.pid.getD 0}, restarts: {managed.restartCount})"

/-- `reload` (src/process.rs:380-383). -/
def reload (os : LaunchOs) (name : String) : Managed String := restart os name

/-- `kill_all` (src/process.rs:385-398). -/
def killAll : Managed String := do
  modifyTable fun _ => .empty
  return "all processes stopped"

/-- The last `count` lines of a text, each with its end. -/
def tailLines (count : Nat) (content : String) : List String :=
  let all := Text.lines content
  (all.drop (all.length - count)).map (· ++ "\n")

/-- `get_logs` (src/process.rs:400-436). -/
def getLogs (h : Host) (name : String) (count : Nat) : Except String String :=
  let shown (file : String) : List String :=
    match h.disk.readToString (join (logsDir name) file) with
    | .ok content => tailLines count content
    | .error _ => []
  let stderr := shown "stderr.log"
  let output := String.join
    (shown "stdout.log" ++ if stderr = [] then [] else "--- stderr ---\n" :: stderr)
  if (h.processMgr.lookup name).isNone then .error s!"process '{name}' not found"
  else if output = "" then .ok "(no logs yet)\n"
  else .ok output

/-- `get_configs` (src/process.rs:438-440). -/
def getConfigs (m : ProcessManager) : List ProcessConfig := m.processes.values.map (·.config)

/-- `restore_processes` (src/process.rs:442-450): an app that does not start is passed over. -/
def restoreProcesses (launch : String → LaunchOs) (configs : List ProcessConfig) : Managed Unit :=
  forEach configs fun config => attempt (spawnProcess (launch config.name) config)

/-- The fields `update_config` may replace. -/
structure ConfigChange where
  portMapping : Option PortMapping := none
  ssl : Option SslConfig := none
  acme : Option String := none
  envFile : Option String := none
  envVars : Option (Dict String String) := none
  args : Option (List String) := none

/-- The field assignments of `update_config` (src/process.rs:471-488). -/
def ConfigChange.apply (change : ConfigChange) (config : ProcessConfig) : ProcessConfig :=
  { config with
    portMapping := change.portMapping.or config.portMapping
    ssl := change.ssl.or config.ssl
    acme := change.acme.or config.acme
    envFile := change.envFile.or config.envFile
    envVars := change.envVars.getD config.envVars
    args := change.args.getD config.args }

/-- The config of one entry replaced. -/
def modifyConfig (name : String) (f : ProcessConfig → ProcessConfig) (m : ProcessManager) :
    ProcessManager :=
  match m.lookup name with
  | some p => m.insert name { p with config := f p.config }
  | none => m

/-- `update_config` (src/process.rs:454-491); the old config comes back. -/
def updateConfig (name : String) (change : ConfigChange) : Managed ProcessConfig := do
  let p ← getProcess name
  modifyTable (modifyConfig name change.apply)
  return p.config

/-- `update_oci_config` (src/process.rs:498-504). -/
def updateOciConfig (name ociReference entrypoint : String) : Managed Unit :=
  modifyTable (modifyConfig name fun config =>
    { config with ociReference := some ociReference, path := entrypoint, isOci := true })

/-- What one pass of `check_and_restart` makes of an entry (src/process.rs:563-594). -/
def checkEntry (answer : WaitResult) (p : ManagedProcess) : ManagedProcess :=
  if p.status ≠ .running ∨ p.child.isNone then p
  else
    match answer with
    | .exited true => { p with status := .stopped, child := none, pid := none }
    | .exited false => { p with status := .errored }
    | .running | .failed _ => p

/-- The entry has to be restarted. -/
def crashed (answer : WaitResult) (p : ManagedProcess) : Bool :=
  p.status = .running && p.child.isSome && answer = .exited false

/-- `check_and_restart` (src/process.rs:560-602). -/
def checkAndRestart (launch : String → LaunchOs) (tryWait : String → WaitResult) :
    Managed Unit := do
  let table := (← get).processMgr.processes
  let toRestart := table.keys.filter fun name =>
    (table.lookup name).any (crashed (tryWait name))
  modifyTable fun _ => ⟨table.mapValues fun name => checkEntry (tryWait name)⟩
  forEach toRestart fun name => attempt (restart (launch name) name)

end Process
