import NylonRun.Lib.Pieces
import NylonRun.Manifest

/-!
# Files of manifests

`nyrun export` writes the manifests of all apps into one text, and `nyrun start` cuts such a text
into documents again (src/main.rs:441-549, 592-615). What a document says is for the YAML library:
all that is asked of it is that it reads each manifest as it writes it, and writes none with a line
that begins with the separator.
-/

open UnixPath FileTree Effect

/-- `ConfigMapManifest` (src/main.rs:138-142). -/
structure ConfigMapManifest where
  kind : String
  metadata : ManifestMetadata
  data : Dict String String

/-- The YAML library of the client. -/
structure Yaml where
  /-- The kind of a document, empty where it has none (src/main.rs:460-468). -/
  kindOf : String → Except String String
  configMap : String → Except String ConfigMapManifest
  process : String → Except String ProcessManifest
  /-- `serde_yaml::to_string`. -/
  write : ProcessManifest → String

namespace Manifest

/-- `write_configmap` (src/main.rs:177-187). -/
def writeConfigmap (name : String) (data : Dict String String) : Fs Unit := do
  let dir := join configmapDir name
  mapError (fun e => s!"failed to create configmap dir '{dir}': {e}") do
    let _ ← createDirAll (components dir)
  forEach data.entries fun entry =>
    mapError (fun e => s!"failed to write configmap file '{join dir entry.1}': {e}")
      (write (join dir entry.1) entry.2.toUTF8.toList)

/-- The documents of a text (src/main.rs:453-457). -/
def documents (content : String) : List String :=
  ((Text.splitOn "\n---" content).map (Text.trimBoth Text.isWhitespace)).filter (· ≠ "")

/-- A document that is of no known kind ends the start (src/main.rs:498-503). -/
def unknownKind (kind : String) : String :=
  s!"error: unknown kind '{kind}', expected 'Process' or 'ConfigMap'"

/-- The files of a ConfigMap document are written at once (src/main.rs:471-487). -/
def putConfigMap (yaml : Yaml) (doc : String) : Fs Unit := do
  let cm ← demand (fun e => s!"error: invalid ConfigMap: {e}") (yaml.configMap doc)
  mapError (fun e => s!"error: failed to write ConfigMap '{cm.metadata.name}': {e}")
    (writeConfigmap cm.metadata.name cm.data)

/-- The pass over the documents (src/main.rs:452-505). -/
def readManifests (yaml : Yaml) : List String → Fs (List ProcessManifest)
  | [] => pure []
  | doc :: docs => do
    let kind ← demand (fun e => s!"error: invalid YAML document: {e}") (yaml.kindOf doc)
    if kind = "ConfigMap" then
      putConfigMap yaml doc
      readManifests yaml docs
    else if kind = "Process" then
      let m ← demand (fun e => s!"error: invalid Process manifest: {e}") (yaml.process doc)
      return m :: (← readManifests yaml docs)
    else
      throw (unknownKind kind)

/-- The manifests to start (src/main.rs:512-522). -/
def select (only : Option String) (ms : List ProcessManifest) :
    Except String (List ProcessManifest) :=
  match only with
  | none => .ok ms
  | some name =>
    match ms.find? (·.metadata.name = name) with
    | some m => .ok [m]
    | none => .error s!"error: '{name}' not found in config"

/-- The request that starts a config (src/main.rs:535-539). -/
def requestOf (config : ProcessConfig) : Request :=
  if config.portMapping.isSome then .run config else .bin config

/-- What came of a start that got as far as its manifests: the requests sent, in order, and the
errors printed for the manifests that make no config. Where there are any, it exits with 1. -/
structure Starts where
  sent : List Request
  failed : List String

/-- The requests for the manifests (src/main.rs:524-543). The daemon does to the disk what it
likes as it serves them. -/
def sendAll (os : ClientOs) (daemon : Request → FileTree → FileTree) :
    List ProcessManifest → FileTree → Starts × FileTree
  | [], t => (⟨[], []⟩, t)
  | m :: ms, t =>
    match manifestToConfig os t m with
    | .error e =>
      let (starts, t') := sendAll os daemon ms t
      ({ starts with failed := s!"[{m.metadata.name}] error: {e}" :: starts.failed }, t')
    | .ok config =>
      let (starts, t') := sendAll os daemon ms (daemon (requestOf config) t)
      ({ starts with sent := requestOf config :: starts.sent }, t')

/-- `nyrun start` (src/main.rs:441-549). -/
def start (yaml : Yaml) (os : ClientOs) (daemon : Request → FileTree → FileTree) (file : String)
    (only : Option String) : Fs Starts := do
  let content ← demand (fun e => s!"error: failed to read '{file}': {e}")
    ((← get).readToString file)
  let ms ← readManifests yaml (documents content)
  if ms.isEmpty then throw "error: no Process manifests found in config file"
  let chosen ← demand id (select only ms)
  let (starts, t) := sendAll os daemon chosen (← get)
  set t
  return starts

/-- The text of `nyrun export` (src/main.rs:594-600). -/
def exportText (yaml : Yaml) (os : ClientOs) (configs : List ProcessConfig) : String :=
  Text.joinWith "---\n" (configs.map fun c => yaml.write (configToManifest os c))

/-! ## The documents of an exported text -/

/-- A text that ends its last line and begins none with the separator. -/
structure Separable (text : String) : Prop where
  ends : ∃ body, text.toList = body ++ ['\n']
  apart : ¬"\n---".toList <:+: '\n' :: text.toList
  nonempty : Text.trimBoth Text.isWhitespace text ≠ ""

/-- Such texts with the separator between them are cut where it was put. -/
theorem documents_joinWith {texts : List String} (h : ∀ text ∈ texts, Separable text) :
    documents (Text.joinWith "---\n" texts) = texts.map (Text.trimBoth Text.isWhitespace) := by
  unfold documents
  cases texts with
  | nil => decide
  | cons text texts =>
    let trim (l : List Char) : String := Text.trimBoth Text.isWhitespace (String.ofList l)
    have hline : Text.isWhitespace '\n' = true := by decide
    have htrim : ∀ ts : List String, (ts.map String.toList).map trim =
        ts.map (Text.trimBoth Text.isWhitespace) := by
      intro ts
      rw [List.map_map]
      exact List.map_congr_left fun t _ =>
        congrArg (Text.trimBoth Text.isWhitespace) String.ofList_toList
    have hseparable : ∀ t ∈ text.toList :: texts.map String.toList,
        (∃ body, t = body ++ ['\n']) ∧ ¬ '\n' :: "---".toList <:+: '\n' :: t := by
      intro t ht
      obtain ⟨s, hs, rfl⟩ := List.mem_map.1 (List.map_cons (f := String.toList) ▸ ht)
      exact ⟨(h s hs).ends, (h s hs).apart⟩
    have hpieces := Text.map_pieces_intercalate (f := trim) (Text.trimBoth_cons hline)
      (Text.trimBoth_append hline) (show '\n' ∉ "---".toList by decide) hseparable (.inl rfl)
    have hjoin : (Text.joinWith "---\n" (text :: texts)).toList =
        ("---".toList ++ ['\n']).intercalate (text.toList :: texts.map String.toList) := by
      rw [Text.joinWith, String.toList_intercalate]
      rfl
    have hcut : (Text.splitOn "\n---" (Text.joinWith "---\n" (text :: texts))).map
        (Text.trimBoth Text.isWhitespace) =
        (text :: texts).map (Text.trimBoth Text.isWhitespace) := by
      rw [Text.splitOn, hjoin, List.map_map, ← htrim]
      exact hpieces
    rw [hcut, List.filter_eq_self]
    intro doc hdoc
    obtain ⟨t, ht, rfl⟩ := List.mem_map.1 hdoc
    exact decide_eq_true (h t ht).nonempty

/-! ## The manifests -/

/-- Two manifests say the same: only the order of the variables may differ. -/
structure SaysSame (m m' : ProcessManifest) : Prop where
  rest : m' = { m with spec.env := m'.spec.env }
  env : Option.Rel (fun vars vars' => ∀ k, vars'.lookup k = vars.lookup k) m.spec.env m'.spec.env

/-- The library reads a manifest, trimmed, as it writes it. -/
structure Reads (yaml : Yaml) (m : ProcessManifest) : Prop extends
    Separable (yaml.write m) where
  kind : yaml.kindOf (Text.trimBoth Text.isWhitespace (yaml.write m)) = .ok m.kind
  process : ∃ m', yaml.process (Text.trimBoth Text.isWhitespace (yaml.write m)) = .ok m' ∧
    SaysSame m m'

/-- The documents of written manifests are read as these. -/
theorem readManifests_written {yaml : Yaml} {ms : List ProcessManifest}
    (h : ∀ m ∈ ms, Reads yaml m ∧ m.kind = "Process") (t : FileTree) :
    ∃ ms', readManifests yaml
      (ms.map fun m => Text.trimBoth Text.isWhitespace (yaml.write m)) t = .ok ms' t ∧
      List.Forall₂ SaysSame ms ms' := by
  induction ms with
  | nil => exact ⟨[], rfl, .nil⟩
  | cons m ms ih =>
    obtain ⟨hkeeps, hkind⟩ := h m List.mem_cons_self
    obtain ⟨m', hprocess, hsame⟩ := hkeeps.process
    obtain ⟨ms', hread, hrest⟩ := ih fun m hm => h m (List.mem_cons_of_mem _ hm)
    refine ⟨m' :: ms', ?_, .cons hsame hrest⟩
    have hdocument : yaml.kindOf (Text.trimBoth Text.isWhitespace (yaml.write m)) =
        .ok "Process" := by rw [hkeeps.kind, hkind]
    rw [List.map_cons, readManifests, hdocument, hprocess]
    simp only [demand, run_bind, run_pure]
    rw [if_neg (by decide), if_pos trivial]
    simp only [run_bind, hread, run_pure]

/-! ## The requests -/

/-- A config that is read again from its manifest, but for its variables. -/
structure Exportable (os : ClientOs) (c : ProcessConfig) : Prop extends Expressible os c where
  port : ∀ pm ∈ c.portMapping, parsePortMapping (portText pm) = .ok pm

/-- The env file of a config, if it has one, can be read and sets nothing that the config has
not. -/
def Covered (t : FileTree) (c : ProcessConfig) : Prop :=
  ∀ ef ∈ c.envFile, ∃ file, parseEnvFile t ef = .ok file ∧
    ∀ k, c.envVars.lookup k = none → file.lookup k = none

theorem manifestEnv_exported {t : FileTree} {c : ProcessConfig}
    {env : Option (Dict String String)} (hcovered : Covered t c)
    (henv : Option.Rel (fun vars vars' => ∀ k, vars'.lookup k = vars.lookup k)
      (envText c.envVars) env) :
    ∃ vars, manifestEnv t c.envFile env = .ok vars ∧
      ∀ k, vars.lookup k = c.envVars.lookup k := by
  have hcases : (c.envVars.size = 0 ∧ env = none) ∨
      ∃ vars, env = some vars ∧ ∀ k, vars.lookup k = c.envVars.lookup k := by
    unfold envText at henv
    split at henv
    · rename_i hsize
      cases henv
      exact .inl ⟨hsize, rfl⟩
    · cases henv with
      | some hvars => exact .inr ⟨_, rfl, hvars⟩
  cases hfile : c.envFile with
  | none =>
    rcases hcases with ⟨hsize, rfl⟩ | ⟨vars, rfl, hvars⟩
    · refine ⟨∅, rfl, fun k => ?_⟩
      rw [Dict.lookup_of_size_eq_zero hsize k]
      rfl
    · exact ⟨vars, rfl, hvars⟩
  | some ef =>
    obtain ⟨file, hread, hcovers⟩ := hcovered ef hfile
    rcases hcases with ⟨hsize, rfl⟩ | ⟨vars, rfl, hvars⟩
    · refine ⟨file, hread, fun k => ?_⟩
      have hnone := Dict.lookup_of_size_eq_zero hsize k
      rw [hnone, hcovers k hnone]
    · refine ⟨vars ∪ file, by simp [manifestEnv, hread], fun k => ?_⟩
      rw [Dict.lookup_union, hvars k]
      cases hk : c.envVars.lookup k with
      | none => rw [hcovers k hk]; rfl
      | some v => rfl

/-- The exported manifest of such a config, as it is read, starts the same config. -/
theorem manifestToConfig_exported {os : ClientOs} {t : FileTree} {c : ProcessConfig}
    {m : ProcessManifest} (hexport : Exportable os c) (hcovered : Covered t c)
    (hsame : SaysSame (configToManifest os c) m) :
    ∃ vars, (∀ k, vars.lookup k = c.envVars.lookup k) ∧
      manifestToConfig os t m = .ok { c with envVars := vars } := by
  obtain ⟨vars, henv, hvars⟩ := manifestEnv_exported hcovered hsame.env
  refine ⟨vars, hvars, manifestToConfig_ok.2 ⟨vars, c.portMapping, ?_, ?_, ?_⟩⟩
  · rw [hsame.rest]
    exact henv
  · rw [hsame.rest]
    change (c.portMapping.map portText).mapM parsePortMapping = .ok c.portMapping
    cases hport : c.portMapping with
    | none => rfl
    | some pm =>
      rw [Option.map_some, Option.mapM_some, hexport.port pm hport]
      rfl
  · rw [hsame.rest]
    exact hexport.toExpressible.configOf_eq t vars

/-- A request starts a config again: the same, with the same variables. -/
def Resends (c : ProcessConfig) (r : Request) : Prop :=
  ∃ vars, (∀ k, vars.lookup k = c.envVars.lookup k) ∧ r = requestOf { c with envVars := vars }

variable {os : ClientOs} {configs : List ProcessConfig}

/-- One request for each config, in order, as long as the daemon leaves the env files so. -/
theorem sendAll_exported {daemon : Request → FileTree → FileTree} {ms : List ProcessManifest}
    {t : FileTree} (hexport : ∀ c ∈ configs, Exportable os c)
    (hdaemon : ∀ r t, ∀ c ∈ configs, Covered t c → Covered (daemon r t) c)
    (hcovered : ∀ c ∈ configs, Covered t c)
    (hread : List.Forall₂ (fun c m => SaysSame (configToManifest os c) m) configs ms) :
    ∃ sent t', sendAll os daemon ms t = (⟨sent, []⟩, t') ∧
      List.Forall₂ Resends configs sent := by
  induction hread generalizing t with
  | nil => exact ⟨[], t, rfl, .nil⟩
  | @cons c m configs ms hsame _ ih =>
    obtain ⟨vars, hvars, hconfig⟩ := manifestToConfig_exported (hexport c List.mem_cons_self)
      (hcovered c List.mem_cons_self) hsame
    obtain ⟨sent, t', hsend, hsent⟩ := ih (fun c hc => hexport c (List.mem_cons_of_mem _ hc))
      (fun r t c hc => hdaemon r t c (List.mem_cons_of_mem _ hc))
      (t := daemon (requestOf { c with envVars := vars }) t)
      (fun c hc => hdaemon _ t c (List.mem_cons_of_mem _ hc)
        (hcovered c (List.mem_cons_of_mem _ hc)))
    refine ⟨requestOf { c with envVars := vars } :: sent, t', ?_, .cons ⟨vars, hvars, rfl⟩ hsent⟩
    rw [sendAll, hconfig]
    simp only [hsend]

/-- The configs that a start is asked for. -/
def chosen : Option String → List ProcessConfig → List ProcessConfig
  | none, configs => configs
  | some name, configs => (configs.find? (·.name = name)).toList

theorem mem_of_mem_chosen {only : Option String} {c : ProcessConfig}
    (h : c ∈ chosen only configs) : c ∈ configs := by
  cases only with
  | none => exact h
  | some name => exact List.mem_of_find?_eq_some (Option.mem_toList.1 h)

theorem select_exported {ms : List ProcessManifest} {only : Option String}
    (hread : List.Forall₂ (fun c m => SaysSame (configToManifest os c) m) configs ms)
    (hne : chosen only configs ≠ []) :
    ∃ ms', select only ms = .ok ms' ∧
      List.Forall₂ (fun c m => SaysSame (configToManifest os c) m) (chosen only configs) ms' := by
  cases only with
  | none => exact ⟨ms, rfl, hread⟩
  | some name =>
    have hfind : Option.Rel (fun c m => SaysSame (configToManifest os c) m)
        (configs.find? (·.name = name)) (ms.find? (·.metadata.name = name)) := by
      clear hne
      induction hread with
      | nil => exact .none
      | @cons c m configs ms hsame _ ih =>
        have hname : m.metadata.name = c.name := by
          rw [hsame.rest]
          rfl
        rw [List.find?_cons, List.find?_cons, hname]
        by_cases heq : c.name = name
        · simp only [heq, decide_true]
          exact .some hsame
        · simp only [heq, decide_false]
          exact ih
    unfold select
    dsimp only
    change (configs.find? (·.name = name)).toList ≠ [] at hne
    change ∃ ms', _ ∧ List.Forall₂ _ (configs.find? (·.name = name)).toList ms'
    cases hc : configs.find? (·.name = name) with
    | none => exact absurd (by rw [hc]; rfl) hne
    | some c =>
      rw [hc] at hfind
      cases hm : ms.find? (·.metadata.name = name) with
      | none => rw [hm] at hfind; cases hfind
      | some m =>
        rw [hm] at hfind
        cases hfind with
        | some hsame => exact ⟨[m], rfl, .cons hsame .nil⟩

/-- A file that holds what was exported starts what was exported: one request for each config
asked for, in order, with the config as it was. -/
theorem start_exported {yaml : Yaml} {daemon : Request → FileTree → FileTree} {file : String}
    {only : Option String} {t : FileTree} (hexport : ∀ c ∈ configs, Exportable os c)
    (hyaml : ∀ c ∈ configs, Reads yaml (configToManifest os c))
    (hdaemon : ∀ r t, ∀ c ∈ configs, Covered t c → Covered (daemon r t) c)
    (hcovered : ∀ c ∈ configs, Covered t c)
    (hfile : t.readToString file = .ok (exportText yaml os configs))
    (hne : chosen only configs ≠ []) :
    ∃ sent t', start yaml os daemon file only t = .ok ⟨sent, []⟩ t' ∧
      List.Forall₂ Resends (chosen only configs) sent := by
  have hdocuments : documents (exportText yaml os configs) =
      (configs.map (configToManifest os)).map
        fun m => Text.trimBoth Text.isWhitespace (yaml.write m) := by
    unfold exportText
    rw [documents_joinWith, List.map_map, List.map_map]
    · rfl
    · intro text htext
      obtain ⟨c, hc, rfl⟩ := List.mem_map.1 htext
      exact (hyaml c hc).toSeparable
  have hwritten : ∀ m ∈ configs.map (configToManifest os), Reads yaml m ∧ m.kind = "Process" := by
    intro m hm
    obtain ⟨c, hc, rfl⟩ := List.mem_map.1 hm
    exact ⟨hyaml c hc, rfl⟩
  obtain ⟨ms, hread, hsame⟩ := readManifests_written hwritten t
  rw [List.forall₂_map_left_iff] at hsame
  obtain ⟨ms', hselect, hchosen⟩ := select_exported hsame hne
  have hkept : ∀ r t, ∀ c ∈ chosen only configs, Covered t c → Covered (daemon r t) c :=
    fun r t c hc => hdaemon r t c (mem_of_mem_chosen hc)
  obtain ⟨sent, t', hsend, hsent⟩ := sendAll_exported (fun c hc => hexport c (mem_of_mem_chosen hc))
    hkept (fun c hc => hcovered c (mem_of_mem_chosen hc)) hchosen
  refine ⟨sent, t', ?_, hsent⟩
  have hsome : ms.isEmpty = false := by
    cases ms with
    | nil =>
      cases hsame
      cases only <;> exact absurd rfl hne
    | cons m ms => rfl
  unfold start
  simp only [run_bind, run_get, hfile, demand, run_pure, hdocuments, hread, hsome, hselect]
  rw [if_neg Bool.false_ne_true]
  simp only [run_bind, run_get, run_pure, hsend]
  rfl

end Manifest
