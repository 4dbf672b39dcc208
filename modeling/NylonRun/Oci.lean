import NylonRun.Lib.Text
import NylonRun.Os

/-!
# Pulling and reading OCI images

`src/oci.rs`. The registry client, the tar crate and the JSON parser are in `LaunchOs`; what
the program does with their answers, on the disk, is here.
-/

open UnixPath FileTree Effect

namespace Oci

def ociDir : String := "/var/run/nyrun/oci"

def settingsFile : String := "/var/run/nyrun/settings.json"

/-- `is_oci_reference` (src/oci.rs:15-46). -/
def isOciReference (isAlphanumeric : Char → Bool) (path : String) : Bool :=
  if Text.startsWith path "/" ∨ Text.startsWith path "./" ∨ Text.startsWith path "../" then false
  else
    let first := (Text.split '/' path).head?.getD ""
    if Text.contains path "/" then Text.contains first "." || Text.contains first ":"
    else
      match Text.splitOnce ':' path with
      | some (name, _) =>
        name ≠ "" && name.toList.all fun c => isAlphanumeric c || c == '-' || c == '_'
      | none => false

def defaultRegistry : String := "docker.io"

/-- `load_default_registry` (src/oci.rs:70-78). -/
def loadDefaultRegistry (parseJson : String → Option Json) (t : FileTree) : String :=
  let configured : Option String := do
    let data ← (t.readToString settingsFile).toOption
    ((← parseJson data).get "default-registry").bind Json.asStr
  configured.getD defaultRegistry

/-- The first segment of a reference names a registry. -/
def namesRegistry (reference : String) : Bool :=
  let first := (Text.split '/' reference).head?.getD ""
  Text.contains first "." || Text.contains first ":"

/-- `normalize_reference` (src/oci.rs:51-68). -/
def normalizeReference (parseJson : String → Option Json) (t : FileTree) (reference : String) :
    String :=
  if Text.contains reference "/" && namesRegistry reference then reference
  else
    let registry := loadDefaultRegistry parseJson t
    if registry = "docker.io" then s!"{registry}/library/{reference}"
    else s!"{registry}/{reference}"

/-- `save_default_registry` (src/oci.rs:80-95). Indexing a JSON value that is neither an
object nor null panics; that is `none`. -/
def saveDefaultRegistry (parseJson : String → Option Json) (prettyJson : Json → String)
    (registry : String) : Fs (Option Unit) := do
  let settings := match (← get).readToString settingsFile with
    | .ok data => (parseJson data).getD (.object [])
    | .error _ => .object []
  let entry := ("default-registry", Json.string registry)
  let save (fields : List (String × Json)) : Fs (Option Unit) := do
    let _ ← mapError (fun e => s!"failed to create dir: {e}")
      (createDirAll (components "/var/run/nyrun"))
    mapError (fun e => s!"failed to write settings: {e}")
      (write settingsFile (prettyJson (.object fields)).toUTF8.toList)
    return some ()
  match settings with
  | .null => save [entry]
  | .object fields => save (fields.filter (·.1 ≠ "default-registry") ++ [entry])
  | _ => return none

/-- A whiteout entry's target (src/oci.rs:229-238): the name after the mark, in the entry's own
directory; and that name, the last segment of the target's path. -/
def whiteoutTarget (destDir path : String) : Option (List Component × String) := do
  let name ← fileName path
  let targetName ← Text.stripPrefix name ".wh."
  return (joinComponents (joinComponents (components destDir) ((parent path).getD []))
    (components targetName), targetName)

/-- The removal of a whiteout's target (src/oci.rs:239-240). -/
def removeTarget (target : List Component) (last : String) : Fs Unit := do
  attempt (do unlink ((← get).locate target last))
  attempt (do unlinkTree last ((← get).locate target last))

/-- One entry of a layer (src/oci.rs:223-250). -/
def extractEntry (destDir : String) (entry : Except String TarEntry) : Fs Unit := do
  let entry ← demand (fun e => s!"tar entry error: {e}") entry
  let path ← demand (fun e => s!"tar path error: {e}") entry.path
  match whiteoutTarget destDir path with
  | some (target, last) => removeTarget target last
  | none =>
    if startsWith (join destDir path) destDir then modify (entry.unpackIn destDir)

/-- `extract_tar_entries` (src/oci.rs:215-254). -/
def extractTarEntries (entries : List (Except String TarEntry)) (destDir : String) : Fs Unit :=
  forEach entries (extractEntry destDir)

/-- `extract_layer` (src/oci.rs:197-213). -/
def extractLayer (os : LaunchOs) (data : Bytes) (mediaType destDir : String) : Fs Unit := do
  if Text.contains mediaType "gzip" ∨ Text.contains mediaType "tar" then
    let entries ← demand (fun e => s!"tar entries error: {e}")
      (os.tarEntries (Text.contains mediaType "gzip") data)
    extractTarEntries entries destDir

/-- `pull_and_extract` (src/oci.rs:114-183). -/
def pullAndExtract (os : LaunchOs) (reference name : String) : Fs String := do
  let destDir := join ociDir name
  let imgRef ← demand (fun e => s!"invalid OCI reference '{reference}': {e}")
    (os.parseReference reference)
  let manifest ← demand (fun e => s!"failed to pull manifest: {e}")
    (os.pullManifest imgRef)
  let _ ← mapError (fun e => s!"failed to create dir {destDir}: {e}")
    (createDirAll (components destDir))
  let configData ← demand (fun e => s!"failed to pull config: {e}")
    (os.pullBlob imgRef manifest.config)
  mapError (fun e => s!"failed to write config: {e}")
    (write (join destDir ".oci-config.json") configData)
  forEach manifest.layers fun layer => do
    let layerData ← demand (fun e => s!"failed to pull layer {layer.digest}: {e}")
      (os.pullBlob imgRef layer)
    extractLayer os layerData layer.mediaType destDir
  return destDir

/-- `resolve_binary` (src/oci.rs:311-327). -/
def resolveBinary (t : FileTree) (extractDir bin : String) : String :=
  let inRoot := join extractDir ((Text.stripPrefix bin "/").getD bin)
  let inDir := join extractDir bin
  if Text.startsWith bin "/" ∧ t.pathExists inRoot then inRoot
  else if t.pathExists inDir then inDir
  else bin

/-- The command a field of the image's config gives, if it is a list with a string in it. -/
def configuredCommand (t : FileTree) (extractDir : String) (cfg : Json) (field : String) :
    Option (String × List String) := do
  let items ← (cfg.get field).bind Json.asArray
  match items.filterMap Json.asStr with
  | [] => none
  | bin :: args => some (resolveBinary t extractDir bin, args)

/-- The first executable file of a directory. -/
def firstExecutable (t : FileTree) (searchDir : String) : Option String :=
  match t.find searchDir with
  | some (p, .dir) => (t.children p).findSome? fun n =>
      match t.stat (p ++ [n]) with
      | some (.file _ true) => some (join searchDir n)
      | _ => none
  | _ => none

/-- `find_entrypoint` (src/oci.rs:258-308). -/
def findEntrypoint (parseJson : String → Option Json) (t : FileTree) (extractDir : String) :
    Except String (String × List String) :=
  let cfg : Option Json := do
    let data ← (t.readToString (join extractDir ".oci-config.json")).toOption
    (← parseJson data).get "config"
  let configured := cfg.bind fun cfg =>
    (configuredCommand t extractDir cfg "Entrypoint").or (configuredCommand t extractDir cfg "Cmd")
  let searched := ["usr/local/bin", "usr/bin", "bin", "app", "."].findSome? fun dir =>
    firstExecutable t (join extractDir dir)
  match configured, searched with
  | some command, _ => .ok command
  | none, some path => .ok (path, [])
  | none, none => .error s!"no entrypoint found in OCI image at {extractDir}"

/-! ## An image on a registry -/

/-- `oci_distribution::Reference`: what names no registry is taken from Docker Hub. -/
def dockerParse (reference : String) : Except String Reference :=
  if Text.contains reference "/" && namesRegistry reference then .ok reference
  else if Text.contains reference "/" then .ok ("docker.io/" ++ reference)
  else .ok ("docker.io/library/" ++ reference)

/-- The text of an image's config whose `field` is the command, and what the text says. -/
def commandText (field : String) (command : List String) : String :=
  "\x7b\"config\":\x7b\"" ++ field ++ "\":[\"" ++ "\",\"".intercalate command ++ "\"]\x7d\x7d"

def commandJson (field : String) (command : List String) : Json :=
  .object [("config", .object [(field, .array (command.map .string))])]

/-- An outside whose registries have one image, without layers, with the command in its config. -/
def publishing (reference field : String) (command : List String) (pid : UInt32) : LaunchOs :=
  { LaunchOs.serving .null pid with
    parseReference := dockerParse
    pullManifest := fun imgRef =>
      if imgRef = reference then .ok { config := ⟨"sha256:config", "json"⟩, layers := [] }
      else .error "manifest unknown"
    pullBlob := fun imgRef blob =>
      if imgRef = reference ∧ blob.digest = "sha256:config" then
        .ok (commandText field command).toUTF8.toList
      else .error "blob unknown"
    parseJson := fun text =>
      if text = commandText field command then some (commandJson field command) else none }

/-! ## References -/

/-- A registry that makes a reference of what it is put in front of. -/
structure Qualified (registry : String) : Prop where
  dot : registry.toList.head? ≠ some '.'
  slash : registry.toList.head? ≠ some '/'
  names : namesRegistry registry = true

theorem contains_slash (registry rest : String) :
    Text.contains (registry ++ String.singleton '/' ++ rest) "/" = true := by
  have hinfix : "/".toList <:+: (registry ++ String.singleton '/' ++ rest).toList := by
    rw [String.toList_append, String.toList_append, String.toList_singleton]
    exact List.infix_append _ _ _
  exact decide_eq_true hinfix

theorem namesRegistry_append (registry rest : String) :
    namesRegistry (registry ++ String.singleton '/' ++ rest) = namesRegistry registry := by
  unfold namesRegistry
  rw [Text.head?_split_append]

theorem isOciReference_qualified (isAlphanumeric : Char → Bool) {registry : String}
    (h : Qualified registry) (rest : String) :
    isOciReference isAlphanumeric (registry ++ String.singleton '/' ++ rest) = true := by
  have hnames := namesRegistry_append registry rest
  have hslash := contains_slash registry rest
  obtain ⟨d, ds, hlist⟩ : ∃ d ds, registry.toList = d :: ds := by
    cases hlist : registry.toList with
    | nil =>
      obtain rfl : registry = "" := String.toList_inj.1 hlist
      exact absurd h.names (by decide)
    | cons d ds => exact ⟨d, ds, rfl⟩
  have hd : d ≠ '.' ∧ d ≠ '/' := by
    refine ⟨fun heq => h.dot ?_, fun heq => h.slash ?_⟩ <;> rw [hlist, heq] <;> rfl
  have hlocal : ∀ pat : String, pat.toList.head? = some '/' ∨ pat.toList.head? = some '.' →
      Text.startsWith (registry ++ String.singleton '/' ++ rest) pat = false := by
    intro pat hpat
    unfold Text.startsWith
    rw [String.toList_append, String.toList_append, hlist]
    cases hp : pat.toList with
    | nil => simp [hp] at hpat
    | cons p ps =>
      rw [hp] at hpat
      have hne : p ≠ d := by
        rintro rfl
        rcases hpat with heq | heq
        · exact hd.2 (Option.some.inj heq)
        · exact hd.1 (Option.some.inj heq)
      simp [List.isPrefixOf, hne]
  unfold isOciReference
  rw [hlocal "/" (.inl rfl), hlocal "./" (.inr rfl), hlocal "../" (.inr rfl), if_neg (by simp)]
  dsimp only
  rw [if_pos hslash]
  exact hnames.trans h.names

/-- A reference that was normalized is one, and is normal on every disk. -/
theorem normalizeReference_again {isAlphanumeric : Char → Bool} {parseJson : String → Option Json}
    {t : FileTree} {reference : String} (href : isOciReference isAlphanumeric reference = true)
    (hregistry : Qualified (loadDefaultRegistry parseJson t)) (t' : FileTree) :
    isOciReference isAlphanumeric (normalizeReference parseJson t reference) = true ∧
      normalizeReference parseJson t' (normalizeReference parseJson t reference) =
        normalizeReference parseJson t reference := by
  by_cases hfull : (Text.contains reference "/" && namesRegistry reference) = true
  · have hsame : ∀ t, normalizeReference parseJson t reference = reference :=
      fun t => if_pos hfull
    rw [hsame t]
    exact ⟨href, hsame t'⟩
  · obtain ⟨rest, hrest⟩ : ∃ rest, normalizeReference parseJson t reference =
        loadDefaultRegistry parseJson t ++ String.singleton '/' ++ rest := by
      unfold normalizeReference
      rw [if_neg hfull]
      dsimp only
      split
      · refine ⟨"library/" ++ reference, ?_⟩
        rw [← String.toList_inj]
        simp [String.toList_append]
        rfl
      · refine ⟨reference, ?_⟩
        rfl
    rw [hrest]
    refine ⟨isOciReference_qualified isAlphanumeric hregistry rest, if_pos ?_⟩
    rw [contains_slash, namesRegistry_append, hregistry.names]
    rfl

end Oci
