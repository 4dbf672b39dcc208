import NylonRun.Requests

/-!
# An update that is taken back

When the new route of an updated app cannot be set up, its config is put back with
`update_config` itself, given the fields of the old config (src/server.rs:377-386). There a field
that is absent leaves the stored one as it is, so that what an update has added stays; and the
fields that `update_oci_config` writes (src/process.rs:497-504) are none of its arguments.
-/

open Effect

namespace Process

/-- An update of a config, that of its image where there is a new one, and the update that takes
the old config back (src/server.rs:332-350, 378-386). -/
def updateAndRevert (name : String) (change : ConfigChange) (image : Option (String × String)) :
    Managed Unit := do
  let old ← updateConfig name change
  match image with
  | some (imgRef, entrypoint) => updateOciConfig name imgRef entrypoint
  | none => pure ()
  let _ ← updateConfig name (Server.revertTo old)

/-- The condition on an update: every field that it sets but the variables and the arguments was
set before, and a new image is the one that the app was run from. -/
structure Undoable (change : ConfigChange) (image : Option (String × String))
    (config : ProcessConfig) : Prop where
  portMapping : change.portMapping = none ∨ config.portMapping.isSome
  ssl : change.ssl = none ∨ config.ssl.isSome
  acme : change.acme = none ∨ config.acme.isSome
  envFile : change.envFile = none ∨ config.envFile.isSome
  image : ∀ imgRef entrypoint, image = some (imgRef, entrypoint) →
    config.ociReference = some imgRef ∧ config.path = entrypoint ∧ config.isOci = true

variable {name : String} {change : ConfigChange} {image : Option (String × String)} {h : Host}
  {p : ManagedProcess} {config : ProcessConfig}

/-- A value put over what another was put over is all there is if it is there, or if the other
is not. -/
theorem or_or_eq_left {α : Type} (a b : Option α) : a.or (b.or a) = a ↔ b = none ∨ a.isSome := by
  cases a with
  | none => simp
  | some x => simp

/-- Taking a config back restores it if the old value of each field that may be absent wins, and
the fields that it does not set are the old ones. -/
theorem revertTo_apply_eq_iff (config c : ProcessConfig) :
    (Server.revertTo config).apply c = config ↔
    (config.portMapping.or c.portMapping = config.portMapping ∧ config.ssl.or c.ssl = config.ssl ∧
      config.acme.or c.acme = config.acme ∧ config.envFile.or c.envFile = config.envFile) ∧
    { config with name := c.name, path := c.path, mode := c.mode, spa := c.spa, deny := c.deny,
                  allow := c.allow, isOci := c.isOci, ociReference := c.ociReference,
                  pidFile := c.pidFile, volumes := c.volumes } = config := by
  change { c with
    portMapping := config.portMapping.or c.portMapping
    ssl := config.ssl.or c.ssl
    acme := config.acme.or c.acme
    envFile := config.envFile.or c.envFile
    envVars := config.envVars
    args := config.args } = config ↔ _
  constructor
  · intro heq
    have hpm := congrArg ProcessConfig.portMapping heq
    have hssl := congrArg ProcessConfig.ssl heq
    have hacme := congrArg ProcessConfig.acme heq
    have henv := congrArg ProcessConfig.envFile heq
    refine ⟨⟨hpm, hssl, hacme, henv⟩, ?_⟩
    dsimp only at hpm hssl hacme henv
    rw [hpm, hssl, hacme, henv] at heq
    exact heq
  · rintro ⟨⟨hpm, hssl, hacme, henv⟩, hrest⟩
    rw [hpm, hssl, hacme, henv]
    exact hrest

/-- The new image leaves a config as it is if it is the one the app was run from. -/
theorem withImage_eq_iff (config : ProcessConfig) (imgRef entrypoint : String) :
    { config with ociReference := some imgRef, path := entrypoint, isOci := true } = config ↔
      config.ociReference = some imgRef ∧ config.path = entrypoint ∧ config.isOci = true := by
  constructor
  · intro heq
    have hoci := congrArg ProcessConfig.ociReference heq
    have hpath := congrArg ProcessConfig.path heq
    have his := congrArg ProcessConfig.isOci heq
    exact ⟨hoci.symm, hpath.symm, his.symm⟩
  · rintro ⟨hoci, hpath, his⟩
    rw [← hoci, ← hpath, ← his]

/-- The assignments that take an update back, after it, give the old config where it is
undoable. -/
theorem revertTo_apply_updatedConfig : (Server.revertTo config).apply
    (Server.updatedConfig change image config) = config ↔ Undoable change image config := by
  have hfields : (Server.updatedConfig change image config).portMapping =
        change.portMapping.or config.portMapping ∧
      (Server.updatedConfig change image config).ssl = change.ssl.or config.ssl ∧
      (Server.updatedConfig change image config).acme = change.acme.or config.acme ∧
      (Server.updatedConfig change image config).envFile = change.envFile.or config.envFile := by
    cases image <;> exact ⟨rfl, rfl, rfl, rfl⟩
  obtain ⟨hpm, hssl, hacme, henv⟩ := hfields
  rw [revertTo_apply_eq_iff, hpm, hssl, hacme, henv, or_or_eq_left, or_or_eq_left, or_or_eq_left,
    or_or_eq_left]
  cases image with
  | none =>
    constructor
    · rintro ⟨⟨hpm, hssl, hacme, henv⟩, -⟩
      exact ⟨hpm, hssl, hacme, henv, nofun⟩
    · intro hundo
      exact ⟨⟨hundo.portMapping, hundo.ssl, hundo.acme, hundo.envFile⟩, rfl⟩
  | some pulled =>
    obtain ⟨imgRef, entrypoint⟩ := pulled
    have himage := withImage_eq_iff config imgRef entrypoint
    constructor
    · rintro ⟨⟨hpm, hssl, hacme, henv⟩, hrest⟩
      refine ⟨hpm, hssl, hacme, henv, ?_⟩
      intro _ _ heq
      cases heq
      exact himage.1 hrest
    · intro hundo
      exact ⟨⟨hundo.portMapping, hundo.ssl, hundo.acme, hundo.envFile⟩,
        himage.2 (hundo.image imgRef entrypoint rfl)⟩

/-- A config put in the place of that of an entry. -/
def withConfig (h : Host) (name : String) (p : ManagedProcess) (config : ProcessConfig) : Host :=
  { h with processMgr := h.processMgr.insert name { p with config := config } }

theorem updateConfig_withConfig (change : ConfigChange) : updateConfig name change
    (withConfig h name p config) = .ok config (withConfig h name p (change.apply config)) := by
  have hp : (withConfig h name p config).processMgr.lookup name =
      some { p with config := config } := by
    rw [withConfig, ProcessManager.lookup_insert, if_pos rfl]
  rw [updateConfig_of_some change hp]
  simp only [withConfig, ProcessManager.insert, AList.insert_insert]

theorem updateOciConfig_withConfig (imgRef entrypoint : String) :
    updateOciConfig name imgRef entrypoint (withConfig h name p config) =
      .ok () (withConfig h name p
        { config with ociReference := some imgRef, path := entrypoint, isOci := true }) := by
  rw [updateOciConfig, run_modifyTable, withConfig, modifyConfig_insert]
  rfl

/-- An update that is taken back replaces the config by what both leave of it. -/
theorem updateAndRevert_of_some (hp : h.processMgr.lookup name = some p) :
    updateAndRevert name change image h = .ok () (withConfig h name p
      ((Server.revertTo p.config).apply (Server.updatedConfig change image p.config))) := by
  have hfirst : updateConfig name change h =
      .ok p.config (withConfig h name p (change.apply p.config)) := updateConfig_of_some change hp
  unfold updateAndRevert
  rw [run_bind, hfirst]
  cases image with
  | none =>
    dsimp only
    rw [run_bind, updateConfig_withConfig]
    rfl
  | some pulled =>
    obtain ⟨imgRef, entrypoint⟩ := pulled
    dsimp only
    rw [run_bind, updateOciConfig_withConfig]
    dsimp only
    rw [run_bind, updateConfig_withConfig]
    rfl

/-- The config that is stored for an app. -/
def configAt (h : Host) (name : String) : Option ProcessConfig :=
  (h.processMgr.lookup name).map (·.config)

theorem configAt_withConfig : configAt (withConfig h name p config) name = some config := by
  rw [configAt, withConfig, ProcessManager.lookup_insert, if_pos rfl]
  rfl

/-- An update of a registered app, of its image as well or not, that is taken back succeeds, and
leaves the config that was stored exactly if the update is undoable. -/
theorem updateAndRevert_restores_iff (hconfig : configAt h name = some config) :
    ∃ h', updateAndRevert name change image h = .ok () h' ∧
      (configAt h' name = some config ↔ Undoable change image config) := by
  obtain ⟨p, hp, rfl⟩ := Option.map_eq_some_iff.1 hconfig
  refine ⟨_, updateAndRevert_of_some hp, ?_⟩
  rw [configAt_withConfig, Option.some_inj]
  exact revertTo_apply_updatedConfig

/-- An app whose config is `config`, and nothing else. -/
def hostWith (config : ProcessConfig) : Host :=
  ⟨ProcessManager.empty.insert config.name
    { config := config, child := none, pid := none, status := .stopped, restartCount := 0 }, .empty⟩

/-- An app with a route on port 80. -/
def routedApp : ProcessConfig :=
  { ProcessConfig.plain "web" "/srv/web" with portMapping := some ⟨none, 80, none⟩ }

/-- Its route put on another port, and back. -/
theorem updateAndRevert_restores_port :
    configAt (hostWith routedApp) "web" = some routedApp ∧
    ∃ h', updateAndRevert "web" { portMapping := some ⟨none, 81, none⟩ } none
        (hostWith routedApp) = .ok () h' ∧ configAt h' "web" = some routedApp := by
  have hundo : Undoable { portMapping := some ⟨none, 81, none⟩ } none routedApp :=
    ⟨.inr rfl, .inl rfl, .inl rfl, .inl rfl, nofun⟩
  obtain ⟨h', hrun, hiff⟩ := @updateAndRevert_restores_iff "web"
    { portMapping := some ⟨none, 81, none⟩ } none (hostWith routedApp) routedApp rfl
  exact ⟨rfl, h', hrun, hiff.2 hundo⟩

/-- A certificate that an app did not have stays with it when the update is taken back. -/
theorem updateAndRevert_keeps_ssl :
    ∃ h', updateAndRevert "web" { ssl := some ⟨"cert.pem", "key.pem"⟩ } none
        (hostWith (.plain "web" "/srv/web")) = .ok () h' ∧
      (configAt h' "web").map (·.ssl) = some (some ⟨"cert.pem", "key.pem"⟩) ∧
      configAt h' "web" ≠ configAt (hostWith (.plain "web" "/srv/web")) "web" := by
  refine ⟨_, updateAndRevert_of_some rfl, ?_, ?_⟩
  · rfl
  · intro heq
    have hssl := congrArg (Option.map (·.ssl)) heq
    exact nomatch hssl

end Process
