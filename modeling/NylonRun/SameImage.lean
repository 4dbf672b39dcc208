import NylonRun.Names
import NylonRun.Requests

/-!
# The image of an update

`nyrun run` makes a reference normal before it sends it to the daemon (src/main.rs:400-406), and
so does `nyrun start`. `nyrun update` sends the image as it was typed (src/main.rs:567-587), and
the daemon pulls and stores it as it comes (src/server.rs:274-303, 348-350).
-/

open UnixPath FileTree Effect

namespace Cli

/-- The arguments of `Command::Run` (src/cli.rs:13-46). -/
structure RunArgs where
  path : String
  name : Option String := none
  port : Option String := none
  args : Option String := none
  envFile : Option String := none
  spa : Bool := false
  ssl : Option (String × String) := none
  acme : Option String := none
  deny : Option String := none
  allow : Option String := none

/-- The config of a run, from its variables and its port mapping (src/main.rs:395-432). -/
def configOf (os : ClientOs) (t : FileTree) (a : RunArgs) (envVars : Dict String String)
    (portMapping : Option PortMapping) : ProcessConfig :=
  let isOci := Oci.isOciReference os.isAlphanumeric a.path
  let normalized := Oci.normalizeReference os.parseJson t a.path
  let path := if isOci then normalized else a.path
  { name := deriveName os.isAlphanumeric path a.name
    path := path
    args := Manifest.parseArgsString os a.args
    envVars := envVars
    envFile := a.envFile
    mode := if portMapping.isSome then .run else .bin
    portMapping := portMapping
    spa := a.spa
    ssl := a.ssl.map fun s => { certPath := s.1, keyPath := s.2 }
    acme := a.acme
    deny := Manifest.parseDeny a.deny
    allow := Manifest.parseAllow a.allow
    isOci := isOci
    ociReference := if isOci then some normalized else none
    pidFile := none
    volumes := [] }

/-- The variables of a run (src/main.rs:384-393). -/
def runEnv (t : FileTree) : Option String → Except String (Dict String String)
  | some ef => Manifest.parseEnvFile t ef
  | none => .ok ∅

/-- The config that `Command::Run` sends (src/main.rs:361-432). -/
def runConfig (os : ClientOs) (t : FileTree) (a : RunArgs) : Except String ProcessConfig := do
  let portMapping ← a.port.mapM Manifest.parsePortMapping
  let envVars ← runEnv t a.envFile
  return configOf os t a envVars portMapping

/-- The reference that a launch of the app pulls (src/process.rs:125). -/
def imageOf (config : ProcessConfig) : String := config.ociReference.getD config.path

/-- An update to an image and a run of it, with the configs that are stored after each of them and
the one the run was sent with: the same image is pulled, the same reference is stored, and a
restart and an exported manifest go by the same one. -/
structure SameImage (os : ClientOs) (launch : LaunchOs) (name image : String)
    (sent ran updated : ProcessConfig) : Prop where
  pulled : Oci.pullAndExtract launch image name = Oci.pullAndExtract launch (imageOf sent) name
  stored : updated.ociReference = ran.ociReference
  restarted : imageOf updated = imageOf ran
  exported : (Manifest.configToManifest os updated).spec.path =
    (Manifest.configToManifest os ran).spec.path

variable {client : ClientOs} {os : Os} {t : FileTree} {a : RunArgs} {config : ProcessConfig}

theorem runConfig_ok (h : runConfig client t a = .ok config) :
    ∃ envVars portMapping, config = configOf client t a envVars portMapping := by
  unfold runConfig at h
  cases hport : a.port.mapM Manifest.parsePortMapping with
  | error e =>
    rw [hport] at h
    cases h
  | ok portMapping =>
    cases henv : runEnv t a.envFile with
    | error e =>
      rw [hport, henv] at h
      cases h
    | ok envVars =>
      rw [hport, henv] at h
      cases h
      exact ⟨envVars, portMapping, rfl⟩

/-- A run sends the normal reference. -/
theorem runConfig_ociReference (href : Oci.isOciReference client.isAlphanumeric a.path = true)
    (h : runConfig client t a = .ok config) :
    config.ociReference = some (Oci.normalizeReference client.parseJson t a.path) := by
  obtain ⟨envVars, portMapping, rfl⟩ := runConfig_ok h
  exact if_pos href

/-- What an update stores is the image as it was asked for. -/
theorem update_ociReference {st : DaemonState} {name image : String} {u : Server.UpdateRequest}
    (hkeyed : Server.Keyed st.processMgr) (himage : u.image = some image)
    (hok : (Server.handleUpdate os st name u).2.isOk = true) :
    ∃ p', (Server.handleUpdate os st name u).1.processMgr.lookup name = some p' ∧
      p'.config.ociReference = some image := by
  obtain ⟨change, pulled, p, p', disk, disk', hdone⟩ := Server.handleUpdate_isOk hkeyed hok
  have hpulled : ∃ entrypoint, pulled = some (image, entrypoint) := by
    have hpull := hdone.pulled
    rw [himage] at hpull
    unfold Server.pullUpdate at hpull
    dsimp only at hpull
    split at hpull
    · cases hpull
    · obtain ⟨extractDir, t₁, -, hpull⟩ := bind_ok hpull
      obtain ⟨t₂, t₃, -, hpull⟩ := bind_ok hpull
      obtain ⟨⟨entrypoint, extra⟩, t₄, -, hpull⟩ := bind_ok hpull
      cases hpull
      exact ⟨entrypoint, rfl⟩
  obtain ⟨entrypoint, rfl⟩ := hpulled
  refine ⟨p', ?_, ?_⟩
  · rw [hdone.state, ProcessManager.lookup_insert, if_pos rfl]
  · rw [hdone.relaunched.same.ociReference]
    rfl

/-- What a run stores is what it was sent with. -/
theorem run_ociReference {launch : LaunchOs} {h h' : Host} {msg : String}
    (hrun : Process.spawnProcess launch config h = .ok msg h') :
    ∃ p, h'.processMgr.lookup config.name = some p ∧
      p.config.ociReference = config.ociReference := by
  obtain ⟨-, p, hsame, htable⟩ := Server.lookup_spawned hrun
  refine ⟨p, ?_, hsame.ociReference⟩
  rw [htable, ProcessManager.lookup_insert, if_pos rfl]

/-- An update to an image goes by the same one as a run of it, in a table whose apps stand under
their own names, exactly if the reference is full. -/
theorem update_as_run_iff {launch : LaunchOs} {h h' : Host} {msg name : String} {st : DaemonState}
    {u : Server.UpdateRequest}
    (href : Oci.isOciReference client.isAlphanumeric a.path = true)
    (hconfig : runConfig client t a = .ok config)
    (hrun : Process.spawnProcess launch config h = .ok msg h')
    (hkeyed : Server.Keyed st.processMgr) (himage : u.image = some a.path)
    (hok : (Server.handleUpdate os st name u).2.isOk = true) :
    ∃ ran updated, h'.processMgr.lookup config.name = some ran ∧
      (Server.handleUpdate os st name u).1.processMgr.lookup name = some updated ∧
      (SameImage client os.prePull name a.path config ran.config updated.config ↔
        Oci.Full a.path) := by
  have hsent := runConfig_ociReference href hconfig
  obtain ⟨ran, hran, hranRef⟩ := run_ociReference hrun
  obtain ⟨updated, hupdated, hupdatedRef⟩ := update_ociReference hkeyed himage hok
  refine ⟨ran, updated, hran, hupdated, ?_⟩
  have hstored : updated.config.ociReference = ran.config.ociReference ↔ Oci.Full a.path := by
    rw [hupdatedRef, hranRef, hsent, Option.some_inj, eq_comm]
    exact Oci.normalizeReference_eq_self_iff
  constructor
  · intro hsame
    exact hstored.1 hsame.stored
  · intro hfull
    have heq := hstored.2 hfull
    have himageOf : imageOf updated.config = imageOf ran.config := by
      rw [imageOf, imageOf, heq, hranRef, hsent]
      rfl
    refine ⟨?_, heq, himageOf, himageOf⟩
    rw [imageOf, hsent, Oci.normalizeReference_of_full hfull]
    rfl

/-- The client on an outside with these settings. -/
def clientOf (os : Os) : ClientOs where
  parseJson := os.prePull.parseJson
  isAlphanumeric := os.isAlphanumeric
  shlexSplit := os.shlexSplit
  shlexTryJoin words := some (" ".intercalate words)

/-- An image whose command is `/bin/app`. -/
def appImage : Json :=
  .object [("config", .object [("Entrypoint", .array [.string "/bin/app"])])]

/-- An outside that serves the image. -/
def appLaunch : LaunchOs := { LaunchOs.serving appImage 7 with parseReference := Oci.dockerParse }

def appOs : Os :=
  { Os.serving 7 4000 with launch := fun _ => appLaunch, prePull := appLaunch }

/-- What the client sends for a run of the image. -/
def sentFor (t : FileTree) (image : String) : ProcessConfig :=
  configOf (clientOf (Oci.settingsOs "ghcr.io")) t { path := image } ∅ none

/-- A daemon with an app that was run from the image. -/
def ranFrom (st : DaemonState) (image : String) : DaemonState :=
  { st with toHost := final (Process.spawnProcess appLaunch (sentFor st.disk image)) st.toHost }

/-- The image that is stored for an app. -/
def storedImage (st : DaemonState) (name : String) : Option String :=
  (st.processMgr.lookup name).map fun p => imageOf p.config

theorem keyed_ranFrom {st : DaemonState} (h : Server.Keyed st.processMgr) (image : String) :
    Server.Keyed (ranFrom st image).processMgr := by
  unfold ranFrom
  rcases Process.spawnProcess_cases appLaunch (sentFor st.disk image) st.toHost with
    ⟨e, t, hrun⟩ | ⟨-, t, t', m, -, hstart, hrun⟩
  · rw [final_of_error hrun]
    exact h
  · rw [final_of_ok hrun]
    exact h.insert (Process.startProcess_ok hstart).same.name

theorem keyed_initial (store : StateStore) (disk : FileTree) :
    Server.Keyed (DaemonState.initial store disk).processMgr := by
  intro n p hp
  exact nomatch hp

/-- An app that is there after the run, and was not before, has been started by it. -/
theorem spawned_of_ranFrom {st : DaemonState} {image : String}
    (hfree : st.processMgr.lookup (sentFor st.disk image).name = none)
    (hran : ((ranFrom st image).processMgr.lookup (sentFor st.disk image).name).isSome = true) :
    ∃ msg, Process.spawnProcess appLaunch (sentFor st.disk image) st.toHost =
      .ok msg (ranFrom st image).toHost := by
  have hhost : (ranFrom st image).toHost =
      final (Process.spawnProcess appLaunch (sentFor st.disk image)) st.toHost := rfl
  rcases Process.spawnProcess_cases appLaunch (sentFor st.disk image) st.toHost with
    ⟨e, t, hrun⟩ | ⟨-, t, t', m, -, -, hrun⟩
  · rw [hhost, final_of_error hrun, hfree] at hran
    cases hran
  · rw [hhost, final_of_ok hrun]
    exact ⟨_, hrun⟩

/-- A daemon on an empty disk, which has Docker Hub for its default registry. -/
def newDaemon : DaemonState := .initial .empty .empty

/-- An update to the next tag of an image in full. -/
theorem update_as_run_full :
    ∃ ran updated, (ranFrom newDaemon "ghcr.io/org/web:2").processMgr.lookup "web" = some ran ∧
      (Server.handleUpdate appOs (ranFrom newDaemon "ghcr.io/org/web:1") "web"
        { image := some "ghcr.io/org/web:2" }).1.processMgr.lookup "web" = some updated ∧
      SameImage (clientOf (Oci.settingsOs "ghcr.io")) appOs.prePull "web" "ghcr.io/org/web:2"
        (sentFor newDaemon.disk "ghcr.io/org/web:2") ran.config updated.config := by
  have href : Oci.isOciReference Char.isAlphanum "ghcr.io/org/web:2" = true := by decide
  have hok : (Server.handleUpdate appOs (ranFrom newDaemon "ghcr.io/org/web:1") "web"
      { image := some "ghcr.io/org/web:2" }).2.isOk = true := by decide +kernel
  have hran : ((ranFrom newDaemon "ghcr.io/org/web:2").processMgr.lookup
      (sentFor newDaemon.disk "ghcr.io/org/web:2").name).isSome = true := by decide +kernel
  have hname : (sentFor newDaemon.disk "ghcr.io/org/web:2").name = "web" := by decide +kernel
  obtain ⟨msg, hrun⟩ := spawned_of_ranFrom rfl hran
  obtain ⟨ran, updated, hlookup, hupdated, hiff⟩ := @update_as_run_iff
    (clientOf (Oci.settingsOs "ghcr.io")) appOs newDaemon.disk { path := "ghcr.io/org/web:2" }
    (sentFor newDaemon.disk "ghcr.io/org/web:2") appLaunch newDaemon.toHost
    (ranFrom newDaemon "ghcr.io/org/web:2").toHost msg "web"
    (ranFrom newDaemon "ghcr.io/org/web:1") { image := some "ghcr.io/org/web:2" } href rfl hrun
    (keyed_ranFrom (keyed_initial .empty .empty) _) rfl hok
  refine ⟨ran, updated, ?_, hupdated, hiff.2 ⟨by decide, by decide⟩⟩
  rw [← hname]
  exact hlookup

/-- A short name is run from the default registry, but an update takes it from Docker Hub. -/
theorem update_short_name :
    (Oci.registrySet "ghcr.io").2.any (·.isOk) = true ∧
      Oci.isOciReference Char.isAlphanum "nginx:1" = true ∧
      storedImage (ranFrom (Oci.registrySet "ghcr.io").1 "nginx:1") "nginx" =
        some "ghcr.io/nginx:1" ∧
      Oci.dockerParse "ghcr.io/nginx:1" = .ok "ghcr.io/nginx:1" ∧
      (Server.handleUpdate appOs (ranFrom (Oci.registrySet "ghcr.io").1 "nginx:1") "nginx"
        { image := some "nginx:1" }).2.isOk = true ∧
      storedImage (Server.handleUpdate appOs (ranFrom (Oci.registrySet "ghcr.io").1 "nginx:1")
        "nginx" { image := some "nginx:1" }).1 "nginx" = some "nginx:1" ∧
      Oci.dockerParse "nginx:1" = .ok "docker.io/library/nginx:1" := by
  decide +kernel

end Cli
