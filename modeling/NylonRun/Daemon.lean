import NylonRun.Lib.Machine
import NylonRun.Server

/-!
# Runs of the daemon

A run is a list of events: requests, ticks of the health checker, the end of a certificate
order, and whatever other programs do to the disk in between. `runDaemon` is the start of a
daemon on what the previous one left behind (`src/daemon.rs`).
-/

open UnixPath FileTree Effect

inductive Event where
  | request (os : Os) (request : Request)
  /-- A tick of the health checker (src/server.rs:43-56). -/
  | tick (os : Os)
  /-- The end of a certificate order: the certificate goes to the store. -/
  | issued (hostname : String) (cert : TlsCertificate)
  | disk (t : FileTree)

namespace Daemon

/-- What an event does to the daemon, and the answer to a request. -/
def step (st : DaemonState) : Event → DaemonState × Option Response
  | .request os r => Server.handleRequest os st r
  | .tick os => ((st.managed (Process.checkAndRestart os.launch os.tryWait)).1, none)
  | .issued hostname cert =>
    ({ st with proxyMgr.certStore := st.proxyMgr.certStore.put hostname cert }, none)
  | .disk t => ({ st with disk := t }, none)

def machine : Machine DaemonState Event (Option Response) := ⟨step⟩

/-- `ensure_dirs` (src/daemon.rs:17-27). -/
def ensureDirs : Fs Unit :=
  forEach ["/var/run/nyrun", "/var/run/nyrun/logs", "/var/run/nyrun/certs", "/var/run/nyrun/oci",
    "/var/run/nyrun/state"] fun path => attempt (createDirAll (components path))

/-- `write_pid` (src/daemon.rs:29-32). -/
def writePid (pid : UInt32) : Fs Unit :=
  attempt (write "/var/run/nyrun/nyrun.pid" (toString pid).toUTF8.toList)

def jsonPath : String := "/var/run/nyrun/state.json"

/-- `migrate_json_to_slatedb` (src/state.rs:134-175). -/
def migrateJson (os : Os) (st : DaemonState) : DaemonState :=
  if ¬ st.disk.pathExists jsonPath then st
  else
    match (st.disk.readToString jsonPath).toOption.bind os.parseConfigs with
    | none => st
    | some [] => (st.managed (Process.onDisk (attempt (removeFile jsonPath)))).1
    | some configs =>
      match st.stored (StateStore.save configs) with
      | (st, .ok ()) => (st.managed (Process.onDisk (attempt (removeFile jsonPath)))).1
      | (st, .error _) => st

/-- The configs in the store. -/
def loadConfigs (st : DaemonState) : DaemonState × List ProcessConfig :=
  match st.stored StateStore.load with
  | (st, .ok configs) => (st, configs)
  | (st, .error _) => (st, [])

/-- `run_daemon` (src/daemon.rs:69-107) up to the restore, on a store that opens: the state, and
the saved configs. -/
def startUp (os : Os) (store : StateStore) (disk : FileTree) : DaemonState × List ProcessConfig :=
  let st := DaemonState.initial { store with faults := os.storeFaults, closed := false } disk
  let st := (st.managed (Process.onDisk (do ensureDirs; writePid os.pid))).1
  loadConfigs (migrateJson os st)

/-- `run_daemon` (src/daemon.rs:69-148) up to serving requests. -/
def runDaemon (os : Os) (store : StateStore) (disk : FileTree) : DaemonState :=
  let (st, saved) := startUp os store disk
  let st := (st.managed (Process.restoreProcesses os.launch saved)).1
  match st.stored Cloud.loadCloudConfig with
  | (st, .ok (some (key, _))) => { st with cloudShutdown := some key }
  | (st, _) => st

end Daemon
