import NylonRun.Lib.Text
import NylonRun.Os
import Mathlib.Data.List.Sort

/-!
# The persistent store

`src/state.rs` over an ordered key-value store. A stored value is the document `serde_json`
writes for a config, or a plain text. Every operation of the store may fail, as a list of
faults says, one place for each operation.
-/

open Effect

inductive Stored where
  | config (config : ProcessConfig)
  | text (text : String)

/-- `StateStore`, and the faults its next operations meet. -/
structure StateStore where
  db : Dict String Stored
  faults : List (Option String)
  closed : Bool

abbrev Storage : Type → Type := EStateM String StateStore

namespace StateStore

def empty : StateStore := ⟨∅, [], false⟩

/-- One operation of the store: it fails as the list of faults says, or has its effect. -/
def operation (what : String) (effect : Dict String Stored → Dict String Stored) : Storage Unit :=
  fun s =>
    match s.faults with
    | some e :: rest => .error s!"{what} error: {e}" { s with faults := rest }
    | none :: rest => .ok () { s with db := effect s.db, faults := rest }
    | [] => .ok () { s with db := effect s.db }

def configKey (name : String) : String := "config:" ++ name

/-- The keys with a prefix, in the order of the store. -/
def keysWithPrefix (db : Dict String Stored) (pre : String) : List String :=
  (db.keys.filter (Text.startsWith · pre)).insertionSort (· ≤ ·)

/-- `save` (src/state.rs:26-61). -/
def save (configs : List ProcessConfig) : Storage Unit := do
  operation "scan" id
  let oldKeys := keysWithPrefix (← get).db "config:"
  forEach oldKeys fun _ => operation "iter" id
  operation "iter" id
  forEach oldKeys fun key => operation "delete" (·.erase key)
  forEach configs fun config =>
    operation "put" (·.insert (configKey config.name) (.config config))
  operation "flush" id

/-- The configs under the given keys, up to the first failure of the iteration; what is not a
config is passed over. -/
def loadKeys : List String → Storage (List ProcessConfig)
  | [] => do
    attempt (operation "iter" id)
    return []
  | key :: keys => fun s =>
    match operation "iter" id s with
    | .error _ s' => .ok [] s'
    | .ok _ s' =>
      match s.db.lookup key with
      | some (.config config) => (do return config :: (← loadKeys keys)) s'
      | _ => loadKeys keys s'

/-- `load` (src/state.rs:63-97). -/
def load : Storage (List ProcessConfig) := fun s =>
  match operation "scan" id s with
  | .error _ s' => .ok [] s'
  | .ok _ s' => loadKeys (keysWithPrefix s.db "config:") s'

/-- `put` (src/state.rs:99-109). -/
def put (key value : String) : Storage Unit := do
  operation "put" (·.insert key (.text value))
  operation "flush" id

/-- `get` (src/state.rs:111-116). -/
def lookup (key : String) : Storage (Option String) := fun s =>
  match operation "get" id s with
  | .error _ s' => .ok none s'
  | .ok _ s' =>
    match s.db.lookup key with
    | some (.text value) => .ok (some value) s'
    | _ => .ok none s'

/-- `delete` (src/state.rs:118-124). -/
def delete (key : String) : Storage Unit := operation "delete" (·.erase key)

end StateStore

namespace Cloud

def apiKey : String := "cloud:api_key"

def serverUrl : String := "cloud:server_url"

def defaultCloudUrl : String := "wss://cloud.nyrun.dev/agent/ws"

/-- `save_cloud_config` (src/cloud.rs:278-285). -/
def saveCloudConfig (key : String) : Storage Unit := do
  StateStore.put apiKey key
  StateStore.put serverUrl defaultCloudUrl

/-- `remove_cloud_config` (src/cloud.rs:287-291). -/
def removeCloudConfig : Storage Unit := do
  StateStore.delete apiKey
  StateStore.delete serverUrl

/-- `load_cloud_config` (src/cloud.rs:293-300). -/
def loadCloudConfig : Storage (Option (String × String)) := do
  match ← StateStore.lookup apiKey with
  | none => return none
  | some key => return some (key, (← StateStore.lookup serverUrl).getD defaultCloudUrl)

end Cloud
