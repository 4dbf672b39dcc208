import NylonRun.Process.Relaunch

/-!
# The sandbox of every launch

An OCI app is confined to its own directory unless the user allows `all`. The launch takes
`all` out of the stored list, so that the next launch no longer knows of it.
-/

open UnixPath FileTree Effect

namespace Process

/-- The relaunch puts on the child what `first` was given. -/
def SamePolicy (name : String) (first : Child) (h : Host) (r : Relaunch) : Prop :=
  ∃ ch ∈ childOf name (relaunch name h r), ch.command.sandbox = first.command.sandbox

/-- The isolation that the README promises an OCI app (README.md:84-88): none of io when the
user allows `all`, else io denied but for the extraction directory and the user's paths. -/
def Isolation (config : ProcessConfig) (sandbox : Option SandboxPolicy) : Prop :=
  if "all" ∈ config.allow then ∀ policy ∈ sandbox, "io" ∉ policy.deny
  else ∃ policy ∈ sandbox, "io" ∈ policy.deny ∧
    join Oci.ociDir config.name ∈ policy.workingDir :: policy.allow ∧
    ∀ path ∈ config.allow, path ∈ policy.allow

/-- The working directory of the sandbox is the extraction directory, unless the name of the
app is an absolute path. -/
theorem extractDir_mem_iff (name : String) (allow : List String) :
    join Oci.ociDir name ∈ ("/var/run/nyrun/oci/" ++ name) :: allow ↔
      isAbsolute name = false ∨ name ∈ allow := by
  cases habs : isAbsolute name with
  | false =>
    have hjoin : join Oci.ociDir name = "/var/run/nyrun/oci/" ++ name := by
      rw [join, if_neg (by simp [habs]), if_neg (by decide)]
      rfl
    simp [hjoin]
  | true =>
    have hne : name ≠ "/var/run/nyrun/oci/" ++ name := by
      intro h
      have hlen := congrArg String.length h
      rw [String.length_append] at hlen
      have hpos : ("/var/run/nyrun/oci/" : String).length = 19 := by decide
      omega
    simp [join_absolute habs, hne]

/-- The policy of a command that denies something. -/
theorem sandbox_of_mem {c : ProcessConfig} {cap : String} (h : cap ∈ c.deny) :
    (command c).sandbox =
      some { deny := c.deny, allow := c.allow, workingDir := workDir c } := by
  unfold command
  exact if_neg (List.ne_nil_of_mem h)

theorem not_mem_deny_of_sandbox {c : ProcessConfig} {cap : String} (h : cap ∉ c.deny) :
    ∀ policy ∈ (command c).sandbox, cap ∉ policy.deny := by
  intro policy hp
  unfold command at hp
  dsimp only at hp
  split at hp
  · cases hp
  · cases hp; exact h

/-- The first launch isolates the app as promised, unless the user denied io himself, allowed
only some paths, and gave the app an absolute path for a name. -/
theorem isolation_iff {config c : ProcessConfig} {e : String} {x : List String}
    (hoci : config.isOci = true) (hc : c = withImage (join Oci.ociDir config.name) e x config) :
    Isolation config (command c).sandbox ↔
      "all" ∈ config.allow ∨ "io" ∉ config.deny ∨ isAbsolute config.name = false ∨
        config.name ∈ config.allow := by
  have hdeny := withImage_deny (join Oci.ociDir config.name) e x config (extractDir_ne_all _)
  have hallow := withImage_allow (join Oci.ociDir config.name) e x config (extractDir_ne_all _)
  have hsame := sameApp_withImage (join Oci.ociDir config.name) e x config
  rw [← hc] at hdeny hallow hsame
  have hwork : workDir c = "/var/run/nyrun/oci/" ++ config.name := by
    rw [workDir, hsame.isOci, if_pos hoci, hsame.name]
  unfold Isolation
  by_cases hall : "all" ∈ config.allow
  · rw [if_pos hall]
    rw [if_pos hall] at hdeny
    exact iff_of_true (not_mem_deny_of_sandbox (by simp [hdeny])) (.inl hall)
  · rw [if_neg hall] at hdeny hallow ⊢
    have hio : "io" ∈ c.deny := by
      rw [hdeny]
      split
      · assumption
      · simp
    simp only [sandbox_of_mem hio, Option.mem_some_iff, exists_eq_left', hio, true_and, hwork,
      hall, false_or]
    by_cases hd : "io" ∈ config.deny
    · rw [if_pos hd] at hallow
      rw [hallow, extractDir_mem_iff]
      simp [hd]
    · rw [if_neg hd] at hallow
      rw [hallow]
      simp only [hd, not_false_eq_true, true_or, iff_true]
      exact ⟨by simp, fun path h => List.mem_append_left _ h⟩

/-- A relaunch of an OCI app gives the child the policy that its stored config already has,
exactly if that denies io. -/
theorem samePolicy_iff {name : String} {h : Host} {p : ManagedProcess} {r : Relaunch}
    {first : Child} (ha : Alone name h p) (hoci : p.config.isOci = true)
    (hall : "all" ∉ p.config.allow)
    (hfirst : first.command.sandbox = (command p.config).sandbox) (hl : Launches name h r) :
    SamePolicy name first h r ↔ "io" ∈ p.config.deny := by
  obtain ⟨q, hq, hs⟩ := relaunch_alone ha hl
  obtain ⟨ch, hch, hcmd⟩ := hs.child
  obtain ⟨e, x, t, -, hconfig⟩ := hs.onImage hoci
  have hdeny := withImage_deny (join Oci.ociDir p.config.name) e x p.config (extractDir_ne_all _)
  have hallow := withImage_allow (join Oci.ociDir p.config.name) e x p.config (extractDir_ne_all _)
  rw [← hconfig, if_neg hall] at hdeny hallow
  have hwork : workDir q.config = workDir p.config := by
    rw [workDir, workDir, hs.same.isOci, hs.same.name]
  have hpolicy : SamePolicy name first h r ↔
      (command q.config).sandbox = (command p.config).sandbox := by
    unfold SamePolicy
    rw [hq.childOf, hch, hfirst]
    simp [hcmd]
  rw [hpolicy]
  by_cases hio : "io" ∈ p.config.deny
  · rw [if_pos hio] at hdeny hallow
    refine iff_of_true ?_ hio
    rw [sandbox_of_mem (hdeny ▸ hio), sandbox_of_mem hio, hdeny, hallow, hwork]
  · rw [if_neg hio] at hdeny
    refine iff_of_false (fun heq => ?_) hio
    have hmem : "io" ∈ q.config.deny := by rw [hdeny]; simp
    have hnot := not_mem_deny_of_sandbox hio
    rw [← heq, sandbox_of_mem hmem] at hnot
    exact hnot _ rfl hmem

/-- Every launch of an OCI app has the policy of the first one, and that is the isolation
promised, exactly if the user does not allow `all` or the app is never launched again (and
the name is no absolute path that the user left out of a list of his own). -/
theorem relaunches_same_policy {os : LaunchOs} {config : ProcessConfig} {t : FileTree} {h : Host}
    {rs : List Relaunch} (hoci : config.isOci = true)
    (hh : h = final (spawnProcess os config) ⟨.empty, t⟩)
    (hspawn : (childOf config.name h).isSome)
    (hlaunch : (relaunches config.name).Along (Launches config.name) h rs) :
    (∃ first ∈ childOf config.name h, Isolation config first.command.sandbox ∧
      (relaunches config.name).Along (SamePolicy config.name first) h rs) ↔
    ("all" ∈ config.allow → rs = []) ∧
      ("all" ∈ config.allow ∨ "io" ∉ config.deny ∨ isAbsolute config.name = false ∨
        config.name ∈ config.allow) := by
  obtain ⟨p, ha, hs⟩ := spawn_alone hh hspawn
  obtain ⟨first, hfirst, hcmd⟩ := hs.child
  obtain ⟨e, x, t₁, -, hconfig⟩ := hs.onImage hoci
  have hdeny := withImage_deny (join Oci.ociDir config.name) e x config (extractDir_ne_all _)
  have hallow := withImage_allow (join Oci.ociDir config.name) e x config (extractDir_ne_all _)
  rw [← hconfig] at hdeny hallow
  have hisolation := isolation_iff hoci hconfig
  rw [← hcmd] at hisolation
  have hall' : "all" ∉ p.config.allow := by
    rw [hallow]
    by_cases hall : "all" ∈ config.allow <;> by_cases hio : "io" ∈ config.deny <;>
      simp [hall, hio, Ne.symm (extractDir_ne_all config.name)]
  -- the stored config keeps its lists as long as it denies io
  let Confined (h : Host) : Prop := ∃ q, Alone config.name h q ∧ q.config.isOci = true ∧
    "all" ∉ q.config.allow ∧ first.command.sandbox = (command q.config).sandbox ∧
    ("io" ∈ q.config.deny ↔ "all" ∉ config.allow)
  have hio : "io" ∈ p.config.deny ↔ "all" ∉ config.allow := by
    rw [hdeny]
    by_cases hall : "all" ∈ config.allow <;> by_cases hio : "io" ∈ config.deny <;> simp [hall, hio]
  have hstart : Confined h := ⟨p, ha, hs.same.isOci.trans hoci, hall', by rw [hcmd], hio⟩
  have hrun : (relaunches config.name).Along (SamePolicy config.name first) h rs ↔
      ("all" ∈ config.allow → rs = []) := by
    rw [Machine.along_congr_of_invariant (R := fun _ _ => "all" ∉ config.allow)
      (fun s r hrun hl => ?_) (fun s r hrun hl hq => ?_) hstart hlaunch, Machine.along_const]
    · rw [imp_iff_not_or, or_comm]
    · obtain ⟨q, hq, hqoci, hqall, hqfirst, hqio⟩ := hrun
      exact (samePolicy_iff hq hqoci hqall hqfirst hl).trans hqio
    · obtain ⟨q, hq', hqoci, hqall, hqfirst, hqio⟩ := hrun
      obtain ⟨q', hq'', hs'⟩ := relaunch_alone hq' hl
      obtain ⟨ch, hch, hcmd'⟩ := hs'.child
      obtain ⟨e', x', t', -, hconfig'⟩ := hs'.onImage hqoci
      have hd := withImage_deny (join Oci.ociDir q.config.name) e' x' q.config (extractDir_ne_all _)
      have hw := withImage_allow (join Oci.ociDir q.config.name) e' x' q.config (extractDir_ne_all _)
      have hqdeny := (samePolicy_iff hq' hqoci hqall hqfirst hl).1 hq
      obtain ⟨ch', hch', hsandbox⟩ := hq
      rw [hq''.childOf, hch] at hch'
      cases hch'
      rw [← hconfig', if_neg hqall, if_pos hqdeny] at hd hw
      exact ⟨q', hq'', hs'.same.isOci.trans hqoci, hw ▸ hqall, by rw [← hsandbox, hcmd'],
        by rw [hd, hqio]⟩
  constructor
  · rintro ⟨first', hfirst', hiso, halong⟩
    rw [ha.childOf, hfirst] at hfirst'
    cases hfirst'
    exact ⟨hrun.1 halong, hisolation.1 hiso⟩
  · rintro ⟨hall, hname⟩
    exact ⟨first, ha.childOf.trans hfirst, hisolation.2 hname, hrun.2 hall⟩

instance (name : String) (first : Child) (h : Host) (r : Relaunch) :
    Decidable (SamePolicy name first h r) :=
  inferInstanceAs (Decidable (∃ ch ∈ childOf name (relaunch name h r), _))

/-- Docker Hub has an image with one program. -/
def toolOs (pid : UInt32) : LaunchOs :=
  Oci.publishing "docker.io/library/tool:1" "Cmd" ["tool"] pid

/-- What the command line sends for `tool:1`. -/
def toolConfig (allow : List String) : ProcessConfig :=
  { ProcessConfig.plain "tool" "tool:1" with
    allow := allow
    isOci := true
    ociReference := some "docker.io/library/tool:1" }

/-- The daemon's host once the app runs. -/
def toolHost (allow : List String) : Host :=
  final (spawnProcess (toolOs 7) (toolConfig allow)) ⟨.empty, .empty⟩

/-- An app that may use one more directory, restarted and reloaded. -/
theorem relaunches_same_policy_data :
    let r (kind : RelaunchKind) : Relaunch := ⟨kind, toolOs 8, none⟩
    ∃ first ∈ childOf "tool" (toolHost ["/data"]),
      Isolation (toolConfig ["/data"]) first.command.sandbox ∧
        (relaunches "tool").Along (SamePolicy "tool" first) (toolHost ["/data"])
          [r .restart, r .reload] :=
  (relaunches_same_policy (show (toolConfig ["/data"]).isOci = true from rfl) rfl
    (by decide +kernel) (by decide +kernel)).2 ⟨by decide, by decide⟩

/-- An app that the user allows everything runs without a sandbox, and with io denied once it
has been restarted. -/
theorem restart_denies_io :
    let h := toolHost ["all"]
    (childOf "tool" h).map (·.command.sandbox) = some none ∧
      (childOf "tool" (relaunch "tool" h ⟨.restart, toolOs 8, none⟩)).map
          (·.command.sandbox) =
        some (some { deny := ["io"], allow := ["/var/run/nyrun/oci/tool"],
                     workingDir := "/var/run/nyrun/oci/tool" }) := by
  decide +kernel

end Process
