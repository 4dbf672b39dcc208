import NylonRun.Lib.FileTree
import NylonRun.Protocol
import NylonRun.Sandbox

/-!
# What the program does not decide

The answers of the operating system, the image registry and the libraries during one
operation of the daemon. An operation is given one `Os`; a run is given one for each of its
operations, so that a statement about every run covers every behaviour of the outside.
-/

/-- `serde_json::Value`. -/
inductive Json where
  | null
  | bool (b : Bool)
  | number (text : String)
  | string (text : String)
  | array (items : List Json)
  | object (fields : List (String × Json))

namespace Json

/-- `Value::get` with a key. -/
def get : Json → String → Option Json
  | .object fields, key => fields.lookup key
  | _, _ => none

def asArray : Json → Option (List Json)
  | .array items => some items
  | _ => none

def asStr : Json → Option String
  | .string text => some text
  | _ => none

end Json

/-- An image reference that parsed, in full. -/
abbrev Reference : Type := String

structure Descriptor where
  digest : String
  mediaType : String
  deriving DecidableEq, Repr

structure ImageManifest where
  config : Descriptor
  layers : List Descriptor
  deriving DecidableEq, Repr

/-- An entry of a tar archive: the path stored for it, and what unpacking it into a directory
does to the disk. -/
structure TarEntry where
  path : Except String String
  unpackIn : String → FileTree → FileTree

/-- The command line, environment and restrictions a child is started with. -/
structure Command where
  program : String
  args : List String
  envs : Dict String String
  sandbox : Option SandboxPolicy

/-- Answers to one launch of one app. -/
structure LaunchOs where
  parseReference : String → Except String Reference
  pullManifest : Reference → Except String ImageManifest
  pullBlob : Reference → Descriptor → Except String Bytes
  /-- The entries of an archive, of a compressed one when asked so. -/
  tarEntries : Bool → Bytes → Except String (List (Except String TarEntry))
  parseJson : String → Option Json
  /-- The kernel, for each of the capabilities that the child is denied. -/
  kernel : Nat → Kernel
  /-- Forking and executing the command: the pid of the child. -/
  spawn : Command → Except String (Option UInt32)

/-- An outside on which everything works: the registry serves an image without layers whose
config is `image`, and children start with the given pid. -/
def LaunchOs.serving (image : Json) (pid : UInt32) : LaunchOs where
  parseReference := .ok
  pullManifest _ := .ok { config := ⟨"config", "json"⟩, layers := [] }
  pullBlob _ _ := .ok []
  tarEntries _ _ := .ok []
  parseJson _ := some image
  kernel _ := {
    applyFilter := .ok ()
    createRuleset := .ok ()
    openPath _ := true
    addRule _ _ := .ok ()
    restrictSelf := .ok .fullyEnforced }
  spawn _ := .ok (some pid)

/-- What `try_wait` says of a child. -/
inductive WaitResult where
  | running
  | exited (success : Bool)
  | failed (error : String)
  deriving DecidableEq, Repr

/-- A certificate and a private key as openssl parsed them, by their encodings. -/
abbrev X509 : Type := Bytes

abbrev PKey : Type := Bytes

structure Os where
  /-- The launches of this operation, by the name of the app. -/
  launch : String → LaunchOs
  /-- The pull that an update makes before it takes the lock. -/
  prePull : LaunchOs
  tryWait : String → WaitResult
  /-- A bind to port 0 of the loopback interface. -/
  freePort : Except String UInt16
  parseCert : Bytes → Except String X509
  parseKey : Bytes → Except String PKey
  shlexSplit : String → Option (List String)
  isAlphanumeric : Char → Bool
  parseConfigs : String → Option (List ProcessConfig)
  prettyJson : Json → String
  pid : UInt32
  /-- The faults of the key-value store, one place for each of its operations. -/
  storeFaults : List (Option String)

/-- An outside on which everything works: apps start with the given pid, and the port given is
free. -/
def Os.serving (pid : UInt32) (port : UInt16) : Os where
  launch _ := .serving .null pid
  prePull := .serving .null pid
  tryWait _ := .running
  freePort := .ok port
  parseCert := .ok
  parseKey := .ok
  shlexSplit text := some [text]
  isAlphanumeric := Char.isAlphanum
  parseConfigs _ := none
  prettyJson _ := "null"
  pid := pid
  storeFaults := []
