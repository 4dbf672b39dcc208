import NylonRun.Oci

/-!
# Starting a process

`ProcessManager::start_process` (src/process.rs:80-273), cut at its own comments into the
copy of a local app, the preparation of an image, the volume mounts and the launch. All of
it works on the disk; the process table is not touched.
-/

open UnixPath FileTree Effect

/-- A running child: what it was started with and the restrictions in force on it. -/
structure Child where
  pid : Option UInt32
  command : Command
  restrictions : List Restriction

/-- `ManagedProcess` (src/process.rs:16-24). -/
structure ManagedProcess where
  config : ProcessConfig
  child : Option Child
  pid : Option UInt32
  status : ProcessStatus
  restartCount : UInt32

namespace Process

def logsDir (name : String) : String := join "/var/run/nyrun/logs" name

/-- The directory a local app is copied to. -/
def appDir (name : String) : String := "/var/run/nyrun/apps/" ++ name

/-- The working directory, also of the sandbox and the volume mounts. -/
def workDir (config : ProcessConfig) : String :=
  if config.isOci then "/var/run/nyrun/oci/" ++ config.name else appDir config.name

def ensureDirs (name : String) : Fs Unit := do
  let _ ← createDirAll (components (logsDir name))

/-- A path as it is written, and the place it leads to. -/
structure Spot where
  path : String
  place : Place

def Spot.entry (s : Spot) (n : String) : Spot := ⟨join s.path n, s.place ++ [n]⟩

/-- `PATH_MAX`, with the terminating zero. -/
def pathMax : Nat := 4096

/-- `std::fs::create_dir_all` of a path whose parent exists. -/
def ensureDir (s : Spot) : Fs Unit := do
  if pathMax ≤ s.path.utf8ByteSize then throw "File name too long (os error 36)"
  match (← get).stat s.place with
  | some .dir => pure ()
  | some (.file _ _) => throw "File exists (os error 17)"
  | none => create s.place .dir

/-- `copy_dir_recursive` (src/process.rs:664-681) from one place to another. Every level makes
the paths longer, so the fuel is the number of levels the system can name. -/
def copyTree : Nat → Spot → Spot → Fs Unit
  | 0, _, dst => throw s!"failed to create dir '{dst.path}': File name too long (os error 36)"
  | fuel + 1, src, dst => do
    mapError (fun e => s!"failed to create dir '{dst.path}': {e}") (ensureDir dst)
    forEach ((← get).children src.place) fun n => do
      if (← get).stat (src.place ++ [n]) = some .dir then
        copyTree fuel (src.entry n) (dst.entry n)
      else
        mapError (fun e => s!"failed to copy '{(src.entry n).path}': {e}")
          (copyFile (src.place ++ [n]) (dst.place ++ [n]))

/-- The copy of one entry of a directory. -/
def copyEntry (fuel : Nat) (src dst : Spot) (n : String) : Fs Unit := do
  if (← get).stat (src.place ++ [n]) = some .dir then
    copyTree fuel (src.entry n) (dst.entry n)
  else
    mapError (fun e => s!"failed to copy '{(src.entry n).path}': {e}")
      (copyFile (src.place ++ [n]) (dst.place ++ [n]))

theorem copyTree_succ (fuel : Nat) (src dst : Spot) : copyTree (fuel + 1) src dst = (do
    mapError (fun e => s!"failed to create dir '{dst.path}': {e}") (ensureDir dst)
    forEach ((← get).children src.place) (copyEntry fuel src dst)) := rfl

/-- `copy_dir_recursive` (src/process.rs:664-681). -/
def copyDirRecursive (src dst : String) : Fs Unit := do
  let place ← mapError (fun e => s!"failed to create dir '{dst}': {e}")
    (createDirAll (components dst))
  match (← get).find src with
  | some (p, .dir) => copyTree pathMax ⟨src, p⟩ ⟨dst, place⟩
  | some (_, .file _ _) => throw s!"failed to read dir '{src}': Not a directory (os error 20)"
  | none => throw s!"failed to read dir '{src}': No such file or directory (os error 2)"

/-- The copy itself (src/process.rs:91-119). The path becomes that of the copy. -/
def copyApp (config : ProcessConfig) : Fs ProcessConfig := do
  if (← get).isDir config.path then
    copyDirRecursive config.path (appDir config.name)
    return { config with path := appDir config.name }
  else
    let dest := join (appDir config.name) ((fileName config.path).getD config.name)
    mapError (fun e => s!"failed to copy binary: {e}") (copy config.path dest)
    attempt (setExecutable dest)
    return { config with path := dest }

/-- The copy of a local app to its directory (src/process.rs:83-121). -/
def copyToAppDir (config : ProcessConfig) : Fs ProcessConfig := do
  if config.isOci ∨ config.spa then return config
  if ¬ (← get).pathExists config.path then return config
  let _ ← mapError (fun e => s!"failed to create app dir: {e}")
    (createDirAll (components (appDir config.name)))
  copyApp config

/-- Pulling the image: the extraction directory and the command found in it
(src/process.rs:124-142). -/
def pullImage (os : LaunchOs) (config : ProcessConfig) : Fs (String × String × List String) := do
  let extractDir ← Oci.pullAndExtract os (config.ociReference.getD config.path) config.name
  let (entrypoint, extraArgs) ←
    demand id (Oci.findEntrypoint os.parseJson (← get) extractDir)
  return (extractDir, entrypoint, extraArgs)

/-- What the image makes of the config: the program, the arguments, and what the sandbox denies
and allows (src/process.rs:143-163). -/
def withImage (extractDir entrypoint : String) (extraArgs : List String)
    (config : ProcessConfig) : ProcessConfig :=
  let config := { config with path := entrypoint, args := extraArgs ++ config.args }
  let config :=
    if "all" ∉ config.allow ∧ "io" ∉ config.deny then
      { config with deny := config.deny ++ ["io"], allow := config.allow ++ [extractDir] }
    else config
  if "all" ∈ config.allow then
    { config with
      deny := config.deny.filter (· ≠ "io")
      allow := config.allow.filter (· ≠ "all") }
  else config

/-- src/process.rs:123-170. -/
def prepareImage (os : LaunchOs) (config : ProcessConfig) : Fs ProcessConfig := do
  if ¬ config.isOci then return config
  let (extractDir, entrypoint, extraArgs) ← pullImage os config
  return withImage extractDir entrypoint extraArgs config

/-- One volume mount (src/process.rs:180-213). -/
def mountVolume (workDir vol : String) : Fs Unit := do
  match Text.splitOnce ':' vol with
  | none => throw s!"invalid volume mount '{vol}': expected host_path:container_path"
  | some (hostPath, inside) =>
    let containerPath := join workDir (Text.trimStart (· == '/') inside)
    if ¬ (← get).pathExists hostPath then throw s!"volume source '{hostPath}' does not exist"
    let _ ← mapError (fun e => s!"failed to create dir for volume mount: {e}")
      (createDirAll ((parent containerPath).getD []))
    if (← get).isDir hostPath then copyDirRecursive hostPath containerPath
    else mapError (fun e => s!"failed to copy volume '{vol}': {e}") (copy hostPath containerPath)

def mountVolumes (config : ProcessConfig) : Fs Unit :=
  forEach config.volumes (mountVolume (workDir config))

/-- The command of a prepared config (src/process.rs:216-248). -/
def command (config : ProcessConfig) : Command where
  program := config.path
  args := config.args
  envs := config.envVars
  sandbox :=
    if config.deny = [] then none
    else some { deny := config.deny, allow := config.allow, workingDir := workDir config }

/-- The restrictions the child puts on itself before it executes the command. -/
def restrict (kernel : Nat → Kernel) (command : Command) : Except String (List Restriction) :=
  match command.sandbox with
  | none => .ok []
  | some policy => Sandbox.applySandbox kernel policy

/-- Spawning the child (src/process.rs:245-272). The text of a failing `pre_exec` is lost on
the way to the parent, which sees `EINVAL`. -/
def spawnChild (os : LaunchOs) (config : ProcessConfig) : Except String ManagedProcess := do
  let restrictions ← (restrict os.kernel (command config)).mapError
    fun _ => s!"failed to spawn '{config.path}': Invalid argument (os error 22)"
  let pid ← (os.spawn (command config)).mapError
    fun e => s!"failed to spawn '{config.path}': {e}"
  return {
    config := config
    child := some { pid := pid, command := command config, restrictions := restrictions }
    pid := pid
    status := .running
    restartCount := 0 }

/-- `ProcessManager::start_process` (src/process.rs:80-273). -/
def startProcess (os : LaunchOs) (config : ProcessConfig) : Fs ManagedProcess := do
  let config ← copyToAppDir config
  let config ← prepareImage os config
  mountVolumes config
  demand id (spawnChild os config)

end Process
