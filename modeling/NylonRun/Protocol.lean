import NylonRun.Lib.Dict

/-!
# The types shared by client and daemon

`src/protocol.rs`. The times in `ProcessInfo` are left out: nothing the daemon decides
depends on the clock.
-/

inductive ProcessMode where
  | bin
  | run
  deriving DecidableEq, Repr

structure PortMapping where
  host : Option String
  publicPort : UInt16
  appPort : Option UInt16
  deriving DecidableEq, Repr

structure SslConfig where
  certPath : String
  keyPath : String
  deriving DecidableEq, Repr

/-- `ProcessConfig` (src/protocol.rs:28-51). -/
structure ProcessConfig where
  name : String
  path : String
  args : List String
  envVars : Dict String String
  envFile : Option String
  mode : ProcessMode
  portMapping : Option PortMapping
  spa : Bool
  ssl : Option SslConfig
  acme : Option String
  deny : List String
  allow : List String
  isOci : Bool
  ociReference : Option String
  pidFile : Option String
  /-- Volume mounts, each `host_path:container_path`. -/
  volumes : List String
  deriving DecidableEq

/-- The config of a command without any option. -/
def ProcessConfig.plain (name path : String) : ProcessConfig where
  name := name
  path := path
  args := []
  envVars := ∅
  envFile := none
  mode := .bin
  portMapping := none
  spa := false
  ssl := none
  acme := none
  deny := []
  allow := []
  isOci := false
  ociReference := none
  pidFile := none
  volumes := []

inductive ProcessStatus where
  | running
  | stopped
  | errored
  | starting
  deriving DecidableEq, Repr

structure ProcessInfo where
  name : String
  pid : Option UInt32
  status : ProcessStatus
  mode : ProcessMode
  path : String
  portMapping : Option PortMapping
  restartCount : UInt32
  deriving DecidableEq, Repr

/-- `Request` (src/protocol.rs:77-122). -/
inductive Request where
  | bin (config : ProcessConfig)
  | run (config : ProcessConfig)
  | ls
  | del (name : String)
  | restart (name : String)
  | reload (name : String)
  | update (name : String) (port : Option String) (ssl : Option (List String))
      (acme envFile args image : Option String)
  | logs (name : String) (lines : Nat)
  | set (key value : String)
  | «export»
  | save
  | kill
  | link (apiKey : String)
  | unlink
  | metricsEnable (port : UInt16)
  | metricsDisable

/-- `Response` (src/protocol.rs:125-131). -/
inductive Response where
  | ok (message : String)
  | processList (processes : List ProcessInfo)
  | configList (configs : List ProcessConfig)
  | logs (text : String)
  | error (message : String)

namespace Response

def isOk : Response → Bool
  | .ok _ => true
  | _ => false

def isError : Response → Bool
  | .error _ => true
  | _ => false

end Response
