import NylonRun.Process.Manager
import NylonRun.Proxy
import NylonRun.State

/-!
# The daemon's requests

`src/server.rs`: one function for each handler. A handler takes the state and what the
outside answers during it to the new state and its response; the lock of the daemon makes
the part of a handler that reads or writes the state one step.
-/

open UnixPath FileTree Effect

/-- `DaemonState` (src/server.rs:15-23) with the disk. The shutdown handles are kept as what
they shut down: the key the cloud agent runs with and the port of the metrics server. -/
structure DaemonState extends Host where
  proxyMgr : ProxyManager
  acmeConfigs : List (String × String)
  stateStore : StateStore
  cloudShutdown : Option String
  metricsShutdown : Option UInt16
  exiting : Bool

namespace DaemonState

/-- A daemon that manages nothing yet. -/
def initial (store : StateStore) (disk : FileTree) : DaemonState where
  processMgr := .empty
  disk := disk
  proxyMgr := .new
  acmeConfigs := []
  stateStore := store
  cloudShutdown := none
  metricsShutdown := none
  exiting := false

/-- A program of the process manager, run in the daemon. -/
def managed {α : Type} (st : DaemonState) (x : Managed α) : DaemonState × Except String α :=
  match x st.toHost with
  | .ok a h => ({ st with toHost := h }, .ok a)
  | .error e h => ({ st with toHost := h }, .error e)

/-- A program of the store, run in the daemon. -/
def stored {α : Type} (st : DaemonState) (x : Storage α) : DaemonState × Except String α :=
  match x st.stateStore with
  | .ok a s => ({ st with stateStore := s }, .ok a)
  | .error e s => ({ st with stateStore := s }, .error e)

end DaemonState

def Response.ofExcept : Except String String → Response
  | .ok message => .ok message
  | .error e => .error e

namespace Server

/-- The configured ports of one part of a `--p` value. -/
def parsePort (part : String) : Except String UInt16 :=
  match Text.parseUnsigned 16 part with
  | some n => .ok n.toUInt16
  | none => .error s!"invalid port: {part}"

/-- `parse_port_mapping_str` (src/server.rs:409-451). -/
def parsePortMappingStr (port : String) : Except String PortMapping :=
  match Text.split ':' port with
  | [p] => do return { host := none, publicPort := ← parsePort p, appPort := none }
  | [p, a] => do
    return { host := none, publicPort := ← parsePort p, appPort := some (← parsePort a) }
  | [h, p, a] => do
    return { host := some h, publicPort := ← parsePort p, appPort := some (← parsePort a) }
  | _ => .error s!"invalid port mapping: {port}"

/-- The binding a line of an env file makes. -/
def envBinding (line : String) : Option (String × String) :=
  let line := Text.trimBoth Text.isWhitespace line
  if line = "" ∨ Text.startsWith line "#" then none
  else (Text.splitOnce '=' line).map fun (key, value) =>
    let value := Text.trimBoth Text.isWhitespace value
    (Text.trimBoth Text.isWhitespace key,
      Text.trimBoth (· == '\'') (Text.trimBoth (· == '"') value))

/-- `parse_env_file_str` (src/server.rs:453-473). -/
def parseEnvFileStr (t : FileTree) (path : String) : Except String (Dict String String) := do
  let content ← (t.readToString path).mapError
    fun e => s!"failed to read env file '{path}': {e}"
  return ((Text.lines content).filterMap envBinding).foldl (fun vars b => vars.insert b.1 b.2) ∅

/-- A host is to be renewed from now on. The task that is spawned for it puts it on the list of the
renewal loop, and goes on with the order of a certificate (src/server.rs:585-603). -/
def spawnAcmeIssue (st : DaemonState) (hostname email : String) : DaemonState :=
  if st.acmeConfigs.any (·.1 = hostname) then st
  else { st with acmeConfigs := st.acmeConfigs ++ [(hostname, email)] }

/-- The registration of a config that asks for one (src/server.rs:532-535, 568-571). -/
def registerAcme (st : DaemonState) (acme : Option String) (pm : PortMapping) : DaemonState :=
  match acme, pm.host with
  | some email, some hostname => spawnAcmeIssue st hostname email
  | _, _ => st

/-- The port mapping needs an internal port of its own. -/
def needsRemap (pm : PortMapping) : Bool := pm.appPort = some pm.publicPort || pm.appPort.isNone

/-- The automatic remap of the app's port (src/server.rs:489-506). -/
def remap (autoPort : UInt16) (pm : PortMapping) (config : ProcessConfig) : ProcessConfig :=
  { config with
    portMapping := some { pm with appPort := some autoPort }
    envVars := config.envVars.insert "PORT" (toString autoPort) }

/-- The config that `handle_run` sets up and its port mapping (src/server.rs:476-513). -/
def prepareRun (os : Os) (config : ProcessConfig) :
    Except String (ProcessConfig × PortMapping) := do
  match config.portMapping with
  | none => throw "run requires --p port mapping"
  | some pm =>
    let (config, pm) ←
      if needsRemap pm then do
        let autoPort ← os.freePort.mapError fun e => s!"failed to find free port: {e}"
        pure (remap autoPort pm config, { pm with appPort := some autoPort })
      else pure (config, pm)
    if config.acme.isSome ∧ pm.host.isNone then
      throw "ACME requires host-based port mapping (e.g. --p domain.com:443:8000)"
    return (config, pm)

/-- The backend of a proxied app (src/server.rs:545-547). -/
def proxyBackend (pm : PortMapping) : Backend := .proxy (pm.appPort.getD pm.publicPort)

/-- `dir.canonicalize().unwrap_or(dir)`. -/
def spaBackend (t : FileTree) (path : String) : Backend := .spa ((t.canonicalize path).getD path)

def routeOf (name : String) (pm : PortMapping) (backend : Backend) : RouteEntry :=
  { name := name, port := pm.publicPort, host := pm.host, backend := backend }

/-- SPA mode of `handle_run` (src/server.rs:515-543): the route first, then the process
table. -/
def runSpa (os : Os) (st : DaemonState) (config : ProcessConfig) (pm : PortMapping) :
    DaemonState × Response :=
  if ¬ st.disk.isDir config.path then (st, .error s!"'{config.path}' is not a directory")
  else
    let entry := routeOf config.name pm (spaBackend st.disk config.path)
    match st.proxyMgr.addRouteWithTls os st.disk entry config.ssl with
    | (proxyMgr, .error e) => ({ st with proxyMgr := proxyMgr }, .error e)
    | (proxyMgr, .ok ()) =>
      match { st with proxyMgr := proxyMgr }.managed (Process.registerSpa config) with
      | (st, .error e) => (st, .error e)
      | (st, .ok _) =>
        (registerAcme st config.acme pm,
          .ok s!"SPA '{config.name}' serving on port {pm.publicPort}")

/-- The ports as the answer to a run shows them (src/server.rs:573-577). -/
def portInfo (pm : PortMapping) : String :=
  let app := pm.appPort.getD pm.publicPort
  match pm.host with
  | some host => s!"{host}:{pm.publicPort} -> {app}"
  | none => s!":{pm.publicPort} -> {app}"

/-- Process mode of `handle_run` (src/server.rs:544-582): the child first, then the route. -/
def runProcess (os : Os) (st : DaemonState) (config : ProcessConfig) (pm : PortMapping) :
    DaemonState × Response :=
  match st.managed (Process.spawnProcess (os.launch config.name) config) with
  | (st, .error e) => (st, .error e)
  | (st, .ok msg) =>
    match st.proxyMgr.addRouteWithTls os st.disk (routeOf config.name pm (proxyBackend pm))
        config.ssl with
    | (proxyMgr, .error e) =>
      (({ st with proxyMgr := proxyMgr }.managed (Process.delete config.name)).1,
        .error s!"proxy setup failed: {e}")
    | (proxyMgr, .ok ()) =>
      (registerAcme { st with proxyMgr := proxyMgr } config.acme pm,
        .ok s!"{msg} (proxy {portInfo pm})")

/-- `handle_run` (src/server.rs:475-583). -/
def handleRun (os : Os) (st : DaemonState) (config : ProcessConfig) : DaemonState × Response :=
  match prepareRun os config with
  | .error e => (st, .error e)
  | .ok (config, pm) => if config.spa then runSpa os st config pm else runProcess os st config pm

/-- An update request, without the name. -/
structure UpdateRequest where
  port : Option String := none
  ssl : Option (List String) := none
  acme : Option String := none
  envFile : Option String := none
  args : Option String := none
  image : Option String := none

/-- The pull before the lock (src/server.rs:274-303): the new reference and its program. -/
def pullUpdate (os : Os) (name : String) : Option String → Fs (Option (String × String))
  | none => pure none
  | some imgRef => do
    if ¬ Oci.isOciReference os.isAlphanumeric imgRef then
      throw s!"'{imgRef}' is not a valid OCI image reference"
    let extractDir ← mapError (fun e => s!"OCI pull failed: {e}")
      (Oci.pullAndExtract os.prePull imgRef name)
    let (entrypoint, _) ← demand (fun e => s!"OCI entrypoint error: {e}")
      (Oci.findEntrypoint os.prePull.parseJson (← get) extractDir)
    return some (imgRef, entrypoint)

/-- The change of the config that an update asks for (src/server.rs:305-330). -/
def configChange (os : Os) (t : FileTree) (u : UpdateRequest) :
    Except String Process.ConfigChange := do
  let portMapping ← u.port.mapM parsePortMappingStr
  let envVars ← u.envFile.mapM (parseEnvFileStr t)
  return {
    portMapping := portMapping
    ssl := u.ssl.map fun s => { certPath := (s[0]?).getD "", keyPath := (s[1]?).getD "" }
    acme := u.acme
    envFile := u.envFile
    envVars := envVars
    args := u.args.map fun a => (os.shlexSplit a).getD [] }

/-- The fields of a config as a change that sets them, where they are set
(src/server.rs:378-386). -/
def revertTo (config : ProcessConfig) : Process.ConfigChange where
  portMapping := config.portMapping
  ssl := config.ssl
  acme := config.acme
  envFile := config.envFile
  envVars := some config.envVars
  args := some config.args

/-- The config that `configs.iter().find(|c| c.name == name)` gives. -/
def configOf (m : ProcessManager) (name : String) : Option ProcessConfig :=
  (Process.getConfigs m).find? (·.name = name)

/-- The backend an update routes an app to (src/server.rs:362-369). -/
def updatedBackend (t : FileTree) (config : ProcessConfig) (pm : PortMapping) : Backend :=
  if config.spa then spaBackend t config.path else proxyBackend pm

/-- The new route of an updated app (src/server.rs:352-391). -/
def reroute (os : Os) (st : DaemonState) (name : String) (old : ProcessConfig) :
    DaemonState × Except String Unit :=
  let st := { st with proxyMgr := st.proxyMgr.removeRoutes name }
  match configOf st.processMgr name with
  | none => (st, .ok ())
  | some config =>
    match config.portMapping with
    | none => (st, .ok ())
    | some pm =>
      let entry := routeOf name pm (updatedBackend st.disk config pm)
      match st.proxyMgr.addRoute os st.disk entry with
      | (proxyMgr, .ok ()) => ({ st with proxyMgr := proxyMgr }, .ok ())
      | (proxyMgr, .error e) =>
        (({ st with proxyMgr := proxyMgr }.managed (Process.updateConfig name (revertTo old))).1,
          .error s!"proxy route update failed: {e}")

/-- The restart at the end of an update (src/server.rs:393-406). -/
def restartUpdated (os : Os) (st : DaemonState) (name : String) : DaemonState × Response :=
  if (configOf st.processMgr name).any (·.spa) then (st, .ok s!"'{name}' config updated")
  else
    match st.managed (Process.restart (os.launch name) name) with
    | (st, .ok msg) => (st, .ok s!"updated and restarted: {msg}")
    | (st, .error e) => (st, .error s!"config updated but restart failed: {e}")

/-- The part of `handle_update` under the lock (src/server.rs:332-407). -/
def updateLocked (os : Os) (st : DaemonState) (name : String) (reroutes : Bool)
    (change : Process.ConfigChange) (image : Option (String × String)) :
    DaemonState × Response :=
  match st.managed (Process.updateConfig name change) with
  | (st, .error e) => (st, .error e)
  | (st, .ok old) =>
    let st := match image with
      | some (imgRef, entrypoint) =>
        (st.managed (Process.updateOciConfig name imgRef entrypoint)).1
      | none => st
    if reroutes then
      match reroute os st name old with
      | (st, .error e) => (st, .error e)
      | (st, .ok ()) => restartUpdated os st name
    else restartUpdated os st name

/-- `handle_update` (src/server.rs:264-407). -/
def handleUpdate (os : Os) (st : DaemonState) (name : String) (u : UpdateRequest) :
    DaemonState × Response :=
  match st.managed (Process.onDisk (pullUpdate os name u.image)) with
  | (st, .error e) => (st, .error e)
  | (st, .ok image) =>
    match configChange os st.disk u with
    | .error e => (st, .error e)
    | .ok change => updateLocked os st name u.port.isSome change image

/-- `Request::Del` (src/server.rs:99-113). -/
def handleDel (st : DaemonState) (name : String) : DaemonState × Response :=
  let st := { st with proxyMgr := st.proxyMgr.removeRoutes name }
  match st.managed (Process.delete name) with
  | (st, .ok msg) => (st, .ok msg)
  | (st, .error e) =>
    if Text.contains e "not found" then (st, .ok s!"'{name}' removed") else (st, .error e)

/-- `Request::Save` (src/server.rs:166-173). -/
def handleSave (os : Os) (st : DaemonState) : DaemonState × Response :=
  let configs := Process.getConfigs st.processMgr
  let st := { st with stateStore.faults := os.storeFaults }
  match st.stored (StateStore.save configs) with
  | (st, .ok ()) => (st, .ok s!"saved {configs.length} processes")
  | (st, .error e) => (st, .error e)

/-- `Request::Set` (src/server.rs:144-161); no answer where indexing the settings panics. -/
def handleSet (os : Os) (st : DaemonState) (key value : String) :
    DaemonState × Option Response :=
  if key = "cache-ttl" then
    match Text.parseUnsigned 64 value with
    | some secs =>
      match st.proxyMgr.setCacheTtl secs with
      | some m => ({ st with proxyMgr := m }, some (.ok s!"cache-ttl set to {secs}s"))
      | none => (st, none)
    | none => (st, some (.error s!"invalid value '{value}': expected seconds"))
  else if key = "default-registry" then
    match st.managed (Process.onDisk
        (Oci.saveDefaultRegistry os.prePull.parseJson os.prettyJson value)) with
    | (st, .ok (some ())) => (st, some (.ok s!"default-registry set to '{value}'"))
    | (st, .ok none) => (st, none)
    | (st, .error e) => (st, some (.error s!"failed to save default-registry: {e}"))
  else
    (st, some (.error s!"unknown config key '{key}'. available: cache-ttl, default-registry"))

/-- `Request::Link` (src/server.rs:174-197). -/
def handleLink (os : Os) (st : DaemonState) (key : String) : DaemonState × Response :=
  let st := { st with stateStore.faults := os.storeFaults }
  match st.stored (Cloud.saveCloudConfig key) with
  | (st, .error e) => (st, .error s!"failed to save cloud config: {e}")
  | (st, .ok ()) => ({ st with cloudShutdown := some key }, .ok "linked to cloud")

/-- `Request::Unlink` (src/server.rs:198-212). -/
def handleUnlink (os : Os) (st : DaemonState) : DaemonState × Response :=
  let st := { st with cloudShutdown := none, stateStore.faults := os.storeFaults }
  match st.stored Cloud.removeCloudConfig with
  | (st, .error e) => (st, .error s!"failed to remove cloud config: {e}")
  | (st, .ok ()) => (st, .ok "unlinked from cloud")

/-- `Request::Kill` (src/server.rs:213-232). -/
def handleKill (os : Os) (st : DaemonState) : DaemonState × Response :=
  let st := { st with
    cloudShutdown := none, metricsShutdown := none, stateStore.faults := os.storeFaults }
  let (st, msg) := st.managed Process.killAll
  let st := (st.stored (StateStore.save [])).1
  ({ st with stateStore.closed := true, exiting := true }, Response.ofExcept msg)

/-- `handle_request` (src/server.rs:85-261). -/
def handleRequest (os : Os) (st : DaemonState) : Request → DaemonState × Option Response
  | .bin config =>
    let (st, msg) := st.managed (Process.spawnProcess (os.launch config.name) config)
    (st, some (.ofExcept msg))
  | .run config => (handleRun os st config).map id some
  | .ls => (st, some (.processList (Process.list st.processMgr)))
  | .del name => (handleDel st name).map id some
  | .restart name =>
    let (st, msg) := st.managed (Process.restart (os.launch name) name)
    (st, some (.ofExcept msg))
  | .reload name =>
    let (st, msg) := st.managed (Process.reload (os.launch name) name)
    (st, some (.ofExcept msg))
  | .update name port ssl acme envFile args image =>
    (handleUpdate os st name ⟨port, ssl, acme, envFile, args, image⟩).map id some
  | .logs name lines =>
    match Process.getLogs st.toHost name lines with
    | .ok text => (st, some (.logs text))
    | .error e => (st, some (.error e))
  | .set key value => handleSet os st key value
  | .export => (st, some (.configList (Process.getConfigs st.processMgr)))
  | .save => (handleSave os st).map id some
  | .kill => (handleKill os st).map id some
  | .link key => (handleLink os st key).map id some
  | .unlink => (handleUnlink os st).map id some
  | .metricsEnable port =>
    ({ st with metricsShutdown := some port }, some (.ok s!"metrics server started on :{port}"))
  | .metricsDisable =>
    ({ st with metricsShutdown := none },
      some (.ok (if st.metricsShutdown.isSome then "metrics server stopped"
        else "metrics server is not running")))

end Server
