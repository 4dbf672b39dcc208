import NylonRun.Oci
import NylonRun.Server

/-!
# Process manifests

The manifests that `nyrun start` reads and `nyrun export` writes (src/main.rs). Starting an app
takes a manifest to a config, exporting it takes the config to a manifest again. The two texts
need not be the same: a manifest can say one thing in several ways. But the exported one starts
the same config.
-/

structure ManifestMetadata where
  name : String

/-- `ManifestSpec` (src/main.rs:150-174). -/
structure ManifestSpec where
  path : String
  port : Option String
  args : Option String
  envFile : Option String
  env : Option (Dict String String)
  spa : Bool
  ssl : Option (List String)
  acme : Option String
  deny : Option String
  allow : Option String
  pidFile : Option String
  volumes : List String

structure ProcessManifest where
  kind : String
  metadata : ManifestMetadata
  spec : ManifestSpec

/-- The libraries that the client uses. -/
structure ClientOs where
  parseJson : String → Option Json
  isAlphanumeric : Char → Bool
  shlexSplit : String → Option (List String)
  /-- Nothing for a word that no shell can be given. -/
  shlexTryJoin : List String → Option String

namespace Manifest

def configmapDir : String := "/var/run/nyrun/configmaps"

/-- `parse_env_file` (src/main.rs:25-45): the body is that of the daemon. -/
def parseEnvFile : FileTree → String → Except String (Dict String String) := Server.parseEnvFileStr

/-- `parse_port_mapping` (src/main.rs:68-110): the body is that of the daemon. -/
def parsePortMapping : String → Except String PortMapping := Server.parsePortMappingStr

/-- `parse_args_string` (src/main.rs:47-52). -/
def parseArgsString (os : ClientOs) : Option String → List String
  | some s => (os.shlexSplit s).getD []
  | none => []

/-- A list with commas between its items. -/
def parseItems : Option String → List String
  | some s => (Text.split ',' s).map (Text.trimBoth Text.isWhitespace)
  | none => []

/-- `parse_deny` (src/main.rs:54-59). -/
def parseDeny : Option String → List String := parseItems

/-- `parse_allow` (src/main.rs:61-66). -/
def parseAllow : Option String → List String := parseItems

/-- A volume whose source is a configmap gets the directory of its files. -/
def resolveVolume (volume : String) : String :=
  match Text.stripPrefix volume "configmap:" with
  | some rest =>
    match Text.splitOnce ':' rest with
    | some (cmName, dest) => s!"{configmapDir}/{cmName}:{dest}"
    | none => volume
  | none => volume

/-- `resolve_configmap_volumes` (src/main.rs:191-209). -/
def resolveConfigmapVolumes (volumes : List String) : List String := volumes.map resolveVolume

/-- The variables of a manifest (src/main.rs:213-222): those it lists win over the file's. -/
def manifestEnv (t : FileTree) : Option String → Option (Dict String String) →
    Except String (Dict String String)
  | some ef, some extra => do return extra ∪ (← parseEnvFile t ef)
  | some ef, none => parseEnvFile t ef
  | none, some extra => .ok extra
  | none, none => .ok ∅

/-- The certificate of a manifest, where it lists two paths (src/main.rs:235-244). -/
def manifestSsl : Option (List String) → Option SslConfig
  | some [certPath, keyPath] => some { certPath := certPath, keyPath := keyPath }
  | _ => none

/-- The config of a manifest, from its variables and its port mapping (src/main.rs:230-271). -/
def configOf (os : ClientOs) (t : FileTree) (m : ProcessManifest) (envVars : Dict String String)
    (portMapping : Option PortMapping) : ProcessConfig :=
  let isOci := Oci.isOciReference os.isAlphanumeric m.spec.path
  let normalized := Oci.normalizeReference os.parseJson t m.spec.path
  { name := m.metadata.name
    path := if isOci then normalized else m.spec.path
    args := parseArgsString os m.spec.args
    envVars := envVars
    envFile := m.spec.envFile
    mode := if portMapping.isSome then .run else .bin
    portMapping := portMapping
    spa := m.spec.spa
    ssl := manifestSsl m.spec.ssl
    acme := m.spec.acme
    deny := parseDeny m.spec.deny
    allow := parseAllow m.spec.allow
    isOci := isOci
    ociReference := if isOci then some normalized else none
    pidFile := m.spec.pidFile
    volumes := resolveConfigmapVolumes m.spec.volumes }

/-- `manifest_to_config` (src/main.rs:211-272). -/
def manifestToConfig (os : ClientOs) (t : FileTree) (m : ProcessManifest) :
    Except String ProcessConfig := do
  let envVars ← manifestEnv t m.spec.envFile m.spec.env
  let portMapping ← m.spec.port.mapM parsePortMapping
  return configOf os t m envVars portMapping

/-- A port mapping as a manifest has it (src/main.rs:275-288). -/
def portText (pm : PortMapping) : String :=
  match pm.host, pm.appPort with
  | some host, app => s!"{host}:{pm.publicPort}:{app.getD pm.publicPort}"
  | none, some app => s!"{pm.publicPort}:{app}"
  | none, none => toString pm.publicPort

/-- The arguments as a manifest has them (src/main.rs:292-296). -/
def argsText (os : ClientOs) (words : List String) : Option String :=
  if words = [] then none else some ((os.shlexTryJoin words).getD "")

/-- The variables as a manifest has them (src/main.rs:298-302). -/
def envText (vars : Dict String String) : Option (Dict String String) :=
  if vars.size = 0 then none else some vars

/-- A list as a manifest has it (src/main.rs:309-319). -/
def itemsText (items : List String) : Option String :=
  if items = [] then none else some (Text.join ',' items)

/-- `config_to_manifest` (src/main.rs:274-341). -/
def configToManifest (os : ClientOs) (c : ProcessConfig) : ProcessManifest where
  kind := "Process"
  metadata := { name := c.name }
  spec := {
    path := c.ociReference.getD c.path
    port := c.portMapping.map portText
    args := argsText os c.args
    envFile := c.envFile
    env := envText c.envVars
    spa := c.spa
    ssl := c.ssl.map fun s => [s.certPath, s.keyPath]
    acme := c.acme
    deny := itemsText c.deny
    allow := itemsText c.allow
    pidFile := c.pidFile
    volumes := c.volumes }

/-! ## Ports -/

theorem parsePort_toString (port : UInt16) : Server.parsePort (toString port) = .ok port := by
  have hparse : Text.parseUnsigned 16 (toString port) = some port.toNat :=
    Text.parseUnsigned_toString port.toNat_lt
  rw [Server.parsePort, hparse]
  exact congrArg Except.ok UInt16.ofNat_toNat

theorem colon_notMem_toString (port : UInt16) : ':' ∉ (toString port).toList := by
  intro h
  have hmem : ':' ∈ Nat.toDigits 10 port.toNat := by
    rw [← Nat.toList_repr]
    exact h
  exact absurd (Nat.isDigit_of_mem_toDigits (by omega) (by omega) hmem) (by decide)

/-- The parts that a mapping is written with. -/
def portParts (pm : PortMapping) : List String :=
  match pm.host, pm.appPort with
  | some host, app => [host, toString pm.publicPort, toString (app.getD pm.publicPort)]
  | none, some app => [toString pm.publicPort, toString app]
  | none, none => [toString pm.publicPort]

theorem portText_eq (pm : PortMapping) : portText pm = Text.join ':' (portParts pm) := by
  obtain ⟨host, publicPort, appPort⟩ := pm
  have htext : ∀ s : String, toString s = s := fun _ => rfl
  rw [← String.toList_inj]
  cases host <;> cases appPort <;>
    simp [portText, portParts, Text.join, List.intercalate, List.intersperse, htext]

/-- A mapping is read as it is written, if its host has no colon, and if it has no host or has
an app port. -/
theorem parsePortMapping_portText {pm : PortMapping} (hhost : ∀ h ∈ pm.host, ':' ∉ h.toList)
    (happ : pm.host.isSome → pm.appPort.isSome) :
    parsePortMapping (portText pm) = .ok pm := by
  have hparts : ∀ part ∈ portParts pm, ':' ∉ part.toList := by
    intro part hpart
    unfold portParts at hpart
    split at hpart
    · rename_i h happ hpm
      simp only [List.mem_cons, List.not_mem_nil, or_false] at hpart
      rcases hpart with rfl | rfl | rfl
      · exact hhost _ hpm
      · exact colon_notMem_toString _
      · exact colon_notMem_toString _
    · simp only [List.mem_cons, List.not_mem_nil, or_false] at hpart
      rcases hpart with rfl | rfl
      · exact colon_notMem_toString _
      · exact colon_notMem_toString _
    · obtain rfl := List.mem_singleton.1 hpart
      exact colon_notMem_toString _
  have hne : portParts pm ≠ [] := by
    unfold portParts
    split <;> simp
  unfold parsePortMapping Server.parsePortMappingStr
  rw [portText_eq, Text.split_join hne hparts]
  obtain ⟨host, publicPort, appPort⟩ := pm
  cases host with
  | none =>
    cases appPort with
    | none => simp [portParts, parsePort_toString]
    | some app => simp [portParts, parsePort_toString]; rfl
  | some host =>
    cases appPort with
    | none => simp at happ
    | some app => simp [portParts, parsePort_toString]; rfl

/-- What a parsed mapping is: its host has no colon, and with a host there is an app port. -/
theorem parsePortMapping_ok {p : String} {pm : PortMapping} (h : parsePortMapping p = .ok pm) :
    (∀ host ∈ pm.host, ':' ∉ host.toList) ∧ (pm.host.isSome → pm.appPort.isSome) := by
  unfold parsePortMapping Server.parsePortMappingStr at h
  split at h
  · rename_i part hsplit
    cases hport : Server.parsePort part with
    | error e => simp [hport] at h
    | ok port =>
      simp only [hport] at h
      cases h
      simp
  · rename_i part part' hsplit
    cases hport : Server.parsePort part with
    | error e => simp only [hport] at h; cases h
    | ok port =>
      cases happ : Server.parsePort part' with
      | error e => simp only [hport, happ] at h; cases h
      | ok app =>
        simp only [hport, happ] at h
        cases h
        simp
  · rename_i host part part' hsplit
    cases hport : Server.parsePort part with
    | error e => simp only [hport] at h; cases h
    | ok port =>
      cases happ : Server.parsePort part' with
      | error e => simp only [hport, happ] at h; cases h
      | ok app =>
        simp only [hport, happ] at h
        cases h
        have hhost : host ∈ Text.split ':' p := by
          rw [hsplit]
          exact List.mem_cons_self
        simpa using Text.notMem_of_mem_split hhost
  · cases h

/-- A mapping that was read is read again as it is written. -/
theorem parsePortMapping_again {p : String} {pm : PortMapping} (h : parsePortMapping p = .ok pm) :
    parsePortMapping (portText pm) = .ok pm := by
  obtain ⟨hhost, happ⟩ := parsePortMapping_ok h
  exact parsePortMapping_portText hhost happ

/-! ## Lists -/

theorem parseItems_again (items : Option String) :
    parseItems (itemsText (parseItems items)) = parseItems items := by
  cases items with
  | none => rfl
  | some s =>
    have hne : parseItems (some s) ≠ [] := by
      simp [parseItems, Text.split_ne_nil]
    have hcomma : ∀ item ∈ parseItems (some s), ',' ∉ item.toList := by
      intro item hitem
      obtain ⟨part, hpart, rfl⟩ := List.mem_map.1 hitem
      exact fun hmem => Text.notMem_of_mem_split hpart (Text.mem_of_mem_trimBoth hmem)
    rw [itemsText, if_neg hne]
    change (Text.split ',' (Text.join ',' _)).map _ = _
    rw [Text.split_join hne hcomma]
    change (List.map _ (List.map _ _)) = List.map _ _
    rw [List.map_map]
    exact List.map_congr_left fun part _ => Text.trimBoth_trimBoth _ part

/-! ## Volumes -/

/-- A resolved volume has nothing left to resolve. -/
theorem resolveVolume_cases (volume : String) :
    resolveVolume volume = volume ∨
      Text.stripPrefix (resolveVolume volume) "configmap:" = none := by
  unfold resolveVolume
  split
  · split
    · rename_i cmName dest _
      refine .inr ?_
      have hstarts : Text.startsWith s!"{configmapDir}/{cmName}:{dest}" "configmap:" = false := by
        simp only [Text.startsWith, String.toList_append, List.append_assoc]
        rfl
      rw [Text.stripPrefix, hstarts]
      rfl
    · exact .inl rfl
  · exact .inl rfl

theorem resolveVolume_again (volume : String) :
    resolveVolume (resolveVolume volume) = resolveVolume volume := by
  rcases resolveVolume_cases volume with hsame | hnone
  · rw [hsame, hsame]
  · conv_lhs => rw [resolveVolume, hnone]

/-! ## Variables -/

theorem parseEnvFile_congr {t t' : FileTree} {path : String}
    (h : t'.readToString path = t.readToString path) :
    parseEnvFile t' path = parseEnvFile t path := by
  unfold parseEnvFile Server.parseEnvFileStr
  rw [h]

/-- Variables that were read are read again as they are written, from an env file that has not
changed. -/
theorem manifestEnv_again {t t' : FileTree} {envFile : Option String}
    {env : Option (Dict String String)} {vars : Dict String String}
    (hfile : ∀ ef ∈ envFile, t'.readToString ef = t.readToString ef)
    (h : manifestEnv t envFile env = .ok vars) :
    ∃ vars', manifestEnv t' envFile (envText vars) = .ok vars' ∧
      ∀ k, vars'.lookup k = vars.lookup k := by
  cases envFile with
  | none =>
    by_cases hsize : vars.size = 0
    · refine ⟨∅, by simp [envText, hsize, manifestEnv], fun k => ?_⟩
      rw [Dict.lookup_of_size_eq_zero hsize k]
      rfl
    · exact ⟨vars, by simp [envText, hsize, manifestEnv], fun k => rfl⟩
  | some ef =>
    have hparse := parseEnvFile_congr (hfile ef rfl)
    obtain ⟨file, hread, hcovers⟩ : ∃ file, parseEnvFile t ef = .ok file ∧
        ∀ k, vars.lookup k = none → file.lookup k = none := by
      cases hread : parseEnvFile t ef with
      | error e => cases env <;> simp only [manifestEnv, hread] at h <;> cases h
      | ok file =>
        refine ⟨file, rfl, fun k hk => ?_⟩
        cases env with
        | none =>
          simp only [manifestEnv, hread] at h
          cases h
          exact hk
        | some extra =>
          simp only [manifestEnv, hread] at h
          cases h
          rw [Dict.lookup_union, Option.or_eq_none_iff] at hk
          exact hk.2
    by_cases hsize : vars.size = 0
    · refine ⟨file, by simp [envText, hsize, manifestEnv, hparse, hread], fun k => ?_⟩
      have hnone := Dict.lookup_of_size_eq_zero hsize k
      rw [hnone, hcovers k hnone]
    · refine ⟨vars ∪ file, by simp [envText, hsize, manifestEnv, hparse, hread], fun k => ?_⟩
      rw [Dict.lookup_union]
      cases hk : vars.lookup k with
      | none => rw [hcovers k hk]; rfl
      | some v => rfl

/-! ## Arguments -/

/-- `shlex::split` and `shlex::try_join` on words that have no NUL: joined they can be split
again, and splitting makes no NUL. -/
structure ShlexInverts (os : ClientOs) : Prop where
  invert : ∀ words, words ≠ [] → (∀ word ∈ words, '\x00' ∉ word.toList) →
    ∃ joined, os.shlexTryJoin words = some joined ∧ os.shlexSplit joined = some words
  noNul : ∀ s words, '\x00' ∉ s.toList → os.shlexSplit s = some words →
    ∀ word ∈ words, '\x00' ∉ word.toList

theorem parseArgsString_again {os : ClientOs} {args : Option String} (hshlex : ShlexInverts os)
    (hnul : ∀ s ∈ args, '\x00' ∉ s.toList) :
    parseArgsString os (argsText os (parseArgsString os args)) = parseArgsString os args := by
  unfold argsText
  split
  · rename_i hnil
    rw [hnil]
    rfl
  · rename_i hne
    have hwords : ∀ word ∈ parseArgsString os args, '\x00' ∉ word.toList := by
      cases args with
      | none => exact absurd rfl hne
      | some s =>
        cases hsplit : os.shlexSplit s with
        | none => simp [parseArgsString, hsplit] at hne
        | some words =>
          simpa [parseArgsString, hsplit] using hshlex.noNul s words (hnul s rfl) hsplit
    obtain ⟨joined, hjoin, hsplit⟩ := hshlex.invert _ hne hwords
    rw [hjoin]
    simp [parseArgsString, hsplit]

/-! ## The whole manifest -/

theorem manifestToConfig_ok {os : ClientOs} {t : FileTree} {m : ProcessManifest}
    {c : ProcessConfig} :
    manifestToConfig os t m = .ok c ↔ ∃ vars pm,
      manifestEnv t m.spec.envFile m.spec.env = .ok vars ∧
      m.spec.port.mapM parsePortMapping = .ok pm ∧ configOf os t m vars pm = c := by
  unfold manifestToConfig
  constructor
  · intro h
    cases henv : manifestEnv t m.spec.envFile m.spec.env with
    | error e => rw [henv] at h; cases h
    | ok vars =>
      cases hport : m.spec.port.mapM parsePortMapping with
      | error e => rw [henv, hport] at h; cases h
      | ok pm =>
        rw [henv, hport] at h
        exact ⟨vars, pm, rfl, rfl, Except.ok.inj h⟩
  · rintro ⟨vars, pm, henv, hport, rfl⟩
    rw [henv, hport]
    rfl

theorem mapM_parsePortMapping_again {port : Option String} {pm : Option PortMapping}
    (h : port.mapM parsePortMapping = .ok pm) :
    (pm.map portText).mapM parsePortMapping = .ok pm := by
  cases port with
  | none =>
    cases h
    rfl
  | some p =>
    obtain ⟨parsed, hparsed, rfl⟩ : ∃ parsed, parsePortMapping p = .ok parsed ∧ pm = some parsed := by
      cases hp : parsePortMapping p with
      | error e => simp only [Option.mapM_some, hp] at h; cases h
      | ok parsed => simp only [Option.mapM_some, hp] at h; cases h; exact ⟨parsed, rfl, rfl⟩
    rw [Option.map_some, Option.mapM_some, parsePortMapping_again hparsed]
    rfl

theorem manifestSsl_map (ssl : Option SslConfig) :
    manifestSsl (ssl.map fun s => [s.certPath, s.keyPath]) = ssl := by
  cases ssl <;> rfl

theorem resolveConfigmapVolumes_again (volumes : List String) :
    resolveConfigmapVolumes (resolveConfigmapVolumes volumes) =
      resolveConfigmapVolumes volumes := by
  unfold resolveConfigmapVolumes
  rw [List.map_map]
  exact List.map_congr_left fun volume _ => resolveVolume_again volume

/-- A config that a manifest can say: each field is read as the text that it is exported as. -/
structure Expressible (os : ClientOs) (c : ProcessConfig) : Prop where
  reference : Oci.isOciReference os.isAlphanumeric c.path = c.isOci
  path : c.isOci = true → ∀ t, Oci.normalizeReference os.parseJson t c.path = c.path
  ociReference : c.ociReference = if c.isOci then some c.path else none
  args : parseArgsString os (argsText os c.args) = c.args
  mode : c.mode = if c.portMapping.isSome then .run else .bin
  deny : parseItems (itemsText c.deny) = c.deny
  allow : parseItems (itemsText c.allow) = c.allow
  volumes : resolveConfigmapVolumes c.volumes = c.volumes

/-- Such a config is given back by its manifest, up to the variables and the ports that are
read. -/
theorem Expressible.configOf_eq {os : ClientOs} {c : ProcessConfig} (h : Expressible os c)
    (t : FileTree) (vars : Dict String String) :
    configOf os t (configToManifest os c) vars c.portMapping = { c with envVars := vars } := by
  have hpath : (configToManifest os c).spec.path = c.path := by
    change c.ociReference.getD c.path = c.path
    rw [h.ociReference]
    split <;> rfl
  have hnormal : (if c.isOci then Oci.normalizeReference os.parseJson t c.path else c.path) =
      c.path := by
    split
    · rename_i hoci
      exact h.path hoci t
    · rfl
  have hreference : (if c.isOci then some (Oci.normalizeReference os.parseJson t c.path)
      else none) = c.ociReference := by
    rw [h.ociReference]
    split
    · rename_i hoci
      rw [h.path hoci t]
    · rfl
  unfold configOf
  dsimp only
  rw [hpath, h.reference, hnormal, hreference, ← h.mode]
  dsimp only [configToManifest]
  rw [h.args, manifestSsl_map, parseDeny, h.deny, parseAllow, h.allow, h.volumes]

/-- A manifest starts a config that a manifest can say. -/
theorem expressible_configOf {os : ClientOs} {t : FileTree} {m : ProcessManifest}
    (hshlex : ShlexInverts os) (hnul : ∀ s ∈ m.spec.args, '\x00' ∉ s.toList)
    (hregistry : Oci.Qualified (Oci.loadDefaultRegistry os.parseJson t))
    (vars : Dict String String) (pm : Option PortMapping) :
    Expressible os (configOf os t m vars pm) := by
  have hagain (href : Oci.isOciReference os.isAlphanumeric m.spec.path = true) :=
    Oci.normalizeReference_again href hregistry
  refine ⟨?_, fun hoci t' => ?_, ?_, parseArgsString_again hshlex hnul, rfl,
    parseItems_again m.spec.deny, parseItems_again m.spec.allow,
    resolveConfigmapVolumes_again m.spec.volumes⟩
  · unfold configOf
    dsimp only
    split
    · rename_i href
      rw [href]
      exact (hagain href t).1
    · rfl
  · change Oci.isOciReference os.isAlphanumeric m.spec.path = true at hoci
    unfold configOf
    dsimp only
    rw [if_pos hoci]
    exact (hagain hoci t').2
  · unfold configOf
    dsimp only
    split <;> rfl

/-- Export undoes start: the exported manifest of a started config starts a config that is equal
to it in every field, as long as its env file stays as it was. -/
theorem export_undoes_start {os : ClientOs} {t t' : FileTree} {m : ProcessManifest}
    {c : ProcessConfig} (hshlex : ShlexInverts os) (hnul : ∀ s ∈ m.spec.args, '\x00' ∉ s.toList)
    (hregistry : Oci.Qualified (Oci.loadDefaultRegistry os.parseJson t))
    (hfile : ∀ ef ∈ m.spec.envFile, t'.readToString ef = t.readToString ef)
    (hstart : manifestToConfig os t m = .ok c) :
    ∃ vars, (∀ k, vars.lookup k = c.envVars.lookup k) ∧
      manifestToConfig os t' (configToManifest os c) = .ok { c with envVars := vars } := by
  obtain ⟨vars, pm, henv, hport, rfl⟩ := manifestToConfig_ok.1 hstart
  obtain ⟨vars', henv', hvars⟩ := manifestEnv_again hfile henv
  refine ⟨vars', hvars, manifestToConfig_ok.2 ⟨vars', pm, henv', ?_, ?_⟩⟩
  · exact mapM_parsePortMapping_again hport
  · exact (expressible_configOf hshlex hnul hregistry vars pm).configOf_eq t' vars'

/-- One character in the place of another. -/
def substitute (old new : Char) (s : String) : String :=
  String.ofList (s.toList.map fun c => if c = old then new else c)

/-- A shell that separates words by single spaces, and has NUL for a space in a word. -/
def spacedOs : ClientOs where
  parseJson _ := none
  isAlphanumeric := Char.isAlphanum
  shlexSplit s := some ((Text.split ' ' s).map (substitute '\x00' ' '))
  shlexTryJoin words := some (Text.join ' ' (words.map (substitute ' ' '\x00')))

theorem notMem_substitute {old new : Char} (h : new ≠ old) (s : String) :
    old ∉ (substitute old new s).toList := by
  rw [substitute, String.toList_ofList, List.mem_map]
  rintro ⟨c, -, hc⟩
  split at hc
  · exact h hc
  · rename_i hne
    exact hne hc

theorem substitute_back {old new : Char} {s : String} (h : new ∉ s.toList) :
    substitute new old (substitute old new s) = s := by
  rw [← String.toList_inj, substitute, substitute, String.toList_ofList, String.toList_ofList,
    List.map_map]
  conv_rhs => rw [← List.map_id s.toList]
  refine List.map_congr_left fun c hc => ?_
  have hne : c ≠ new := fun heq => h (heq ▸ hc)
  by_cases hold : c = old
  · simp [hold]
  · simp [hold, hne]

theorem spacedOs_inverts : ShlexInverts spacedOs := by
  constructor
  · intro words hne hnul
    refine ⟨_, rfl, congrArg some ?_⟩
    have hspace : ∀ word ∈ words.map (substitute ' ' '\x00'), ' ' ∉ word.toList := by
      intro word hword
      obtain ⟨w, -, rfl⟩ := List.mem_map.1 hword
      exact notMem_substitute (by decide) w
    rw [Text.split_join (by simpa using hne) hspace, List.map_map]
    conv_rhs => rw [← List.map_id words]
    exact List.map_congr_left fun w hw => substitute_back (hnul w hw)
  · intro s words _ hsplit word hword
    cases hsplit
    obtain ⟨w, -, rfl⟩ := List.mem_map.1 hword
    exact notMem_substitute (by decide) w

/-- A manifest with something in every field. -/
def webManifest : ProcessManifest where
  kind := "Process"
  metadata := { name := "web" }
  spec := {
    path := "nginx:1.27"
    port := some "example.com:+80:3000"
    args := some "--port 3000"
    envFile := some "/web.env"
    env := some (AList.singleton "MODE" "live")
    spa := false
    ssl := some ["/cert.pem", "/key.pem"]
    acme := some "ops@example.com"
    deny := some " net, io "
    allow := some ""
    pidFile := none
    volumes := ["configmap:web:/etc/web", "/data:/data"] }

/-- The disk with its env file. -/
def webDisk : FileTree :=
  Effect.final (FileTree.write "/web.env" "# web\nMODE = 'test'\n".toUTF8.toList) .empty

/-- The exported manifest of `web` starts it as before, with the reference, the port and the
volumes that the first manifest stands for. -/
theorem export_undoes_start_web : ∃ c, manifestToConfig spacedOs webDisk webManifest = .ok c ∧
    c.path = "docker.io/library/nginx:1.27" ∧ ∃ vars, (∀ k, vars.lookup k = c.envVars.lookup k) ∧
      manifestToConfig spacedOs webDisk (configToManifest spacedOs c) =
        .ok { c with envVars := vars } := by
  have hpath : (manifestToConfig spacedOs webDisk webManifest).toOption.map (·.path) =
      some "docker.io/library/nginx:1.27" := by decide +kernel
  have hregistry : Oci.Qualified (Oci.loadDefaultRegistry spacedOs.parseJson webDisk) := by
    have hdefault : Oci.loadDefaultRegistry spacedOs.parseJson webDisk = "docker.io" := by
      decide +kernel
    rw [hdefault]
    exact ⟨by decide, by decide, by decide⟩
  obtain ⟨c, hc⟩ : ∃ c, manifestToConfig spacedOs webDisk webManifest = .ok c := by
    revert hpath
    cases manifestToConfig spacedOs webDisk webManifest with
    | error e => exact fun h => nomatch h
    | ok c => exact fun _ => ⟨c, rfl⟩
  rw [hc] at hpath
  refine ⟨c, hc, Option.some.inj hpath, export_undoes_start spacedOs_inverts ?_ hregistry
    (fun _ _ => rfl) hc⟩
  rintro s ⟨⟩
  decide

end Manifest
