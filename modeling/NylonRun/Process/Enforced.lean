import NylonRun.Process.Launch
import NylonRun.Lib.Outcomes

/-!
# Which denials are in force

Before it is executed a child denies itself the capabilities of its list, one after the other
(src/sandbox.rs:158-172). That of `io` is in force only if Landlock enforces its ruleset in full;
`apply_deny_io` logs the status that Landlock reports and returns `Ok` whatever it is.
-/

open UnixPath FileTree Effect Outcomes

namespace Sandbox

/-- The restriction denies the capability. -/
def Enforces : Restriction → String → Prop
  | .net, cap => cap = "net"
  | .io _ status, cap => cap = "io" ∧ status = .fullyEnforced

/-- Every path that can be opened gets its rule. -/
def RulesPass (kernel : Kernel) (access : Access) (paths : List String) : Prop :=
  ∀ path ∈ paths, kernel.openPath path = true → kernel.addRule path access = .ok ()

/-- Nothing that the kernel answers stops the denial of `io`. -/
structure IoPasses (kernel : Kernel) (policy : SandboxPolicy) : Prop where
  ruleset : kernel.createRuleset = .ok ()
  system : RulesPass kernel .read systemReadDirs
  allowed : RulesPass kernel .full
    (policy.workingDir :: policy.allow ++ ["/var/run/nyrun/logs", "/tmp"])
  restrict : ∃ status, kernel.restrictSelf = .ok status

/-- Nothing stops the denials: each is a known one, and the kernel passes it. -/
def Passes (kernel : Nat → Kernel) (policy : SandboxPolicy) : Prop :=
  ∀ ci ∈ policy.deny.zipIdx, (ci.1 = "net" ∧ (kernel ci.2).applyFilter = .ok ()) ∨
    (ci.1 = "io" ∧ IoPasses (kernel ci.2) policy)

/-- Where `io` is to be denied, Landlock enforces one of its rulesets in full. -/
def IoEnforced (kernel : Nat → Kernel) (deny : List String) : Prop :=
  "io" ∈ deny → ∃ i, ("io", i) ∈ deny.zipIdx ∧ (kernel i).restrictSelf = .ok .fullyEnforced

theorem addRules_ok_iff {kernel : Kernel} {access : Access} {paths : List String} :
    (∃ rules, addRules kernel access paths = .ok rules) ↔ RulesPass kernel access paths := by
  induction paths with
  | nil => exact iff_of_true ⟨[], rfl⟩ fun path h => absurd h List.not_mem_nil
  | cons path paths ih =>
    have hcons : RulesPass kernel access (path :: paths) ↔
        (kernel.openPath path = true → kernel.addRule path access = .ok ()) ∧
          RulesPass kernel access paths := List.forall_mem_cons
    rw [hcons, ← ih, addRules]
    cases hopen : kernel.openPath path with
    | false => simp
    | true =>
      rw [if_pos rfl, forall_prop_of_true rfl]
      cases hrule : kernel.addRule path access with
      | error e => exact iff_of_false (fun ⟨_, h⟩ => by cases h) fun h => by cases h.1
      | ok u =>
        rw [and_iff_right rfl]
        cases hrest : addRules kernel access paths with
        | error e => exact iff_of_false (fun ⟨_, h⟩ => by cases h) fun ⟨_, h⟩ => by cases h
        | ok rules => exact iff_of_true ⟨_, rfl⟩ ⟨rules, rfl⟩

/-- What the denial of `io` leaves, and when it goes through. -/
theorem applyDenyIo_cases (kernel : Kernel) (policy : SandboxPolicy) :
    (IoPasses kernel policy ∧ ∃ rules status, kernel.restrictSelf = .ok status ∧
      applyDenyIo kernel policy.allow policy.workingDir = .ok (.io rules status)) ∨
    (¬IoPasses kernel policy ∧
      ∃ e, applyDenyIo kernel policy.allow policy.workingDir = .error e) := by
  unfold applyDenyIo
  cases hcreate : kernel.createRuleset with
  | error e =>
    refine .inr ⟨fun h => ?_, e, rfl⟩
    have hok := h.ruleset
    rw [hcreate] at hok
    cases hok
  | ok u =>
    cases hsystem : addRules kernel .read systemReadDirs with
    | error e =>
      refine .inr ⟨fun h => ?_, e, rfl⟩
      obtain ⟨rules, hok⟩ := addRules_ok_iff.2 h.system
      rw [hsystem] at hok
      cases hok
    | ok system =>
      cases hallowed : addRules kernel .full
          (policy.workingDir :: policy.allow ++ ["/var/run/nyrun/logs", "/tmp"]) with
      | error e =>
        refine .inr ⟨fun h => ?_, e, rfl⟩
        obtain ⟨rules, hok⟩ := addRules_ok_iff.2 h.allowed
        rw [hallowed] at hok
        cases hok
      | ok allowed =>
        cases hrestrict : kernel.restrictSelf with
        | error e =>
          refine .inr ⟨fun h => ?_, e, rfl⟩
          obtain ⟨status, hok⟩ := h.restrict
          rw [hrestrict] at hok
          cases hok
        | ok status =>
          exact .inl ⟨⟨hcreate, addRules_ok_iff.1 ⟨_, hsystem⟩, addRules_ok_iff.1 ⟨_, hallowed⟩,
            status, hrestrict⟩, _, status, rfl, rfl⟩

/-- One capability passes or fails; that of `io` is enforced if its ruleset is, in full. -/
theorem denyCapability_cases (kernel : Kernel) (policy : SandboxPolicy) (cap : String) :
    (((cap = "net" ∧ kernel.applyFilter = .ok ()) ∨ (cap = "io" ∧ IoPasses kernel policy)) ∧
      ∃ r, denyCapability kernel policy cap = .ok r ∧ ∀ other, Enforces r other ↔
        other = cap ∧ (cap = "io" → kernel.restrictSelf = .ok .fullyEnforced)) ∨
    (¬((cap = "net" ∧ kernel.applyFilter = .ok ()) ∨ (cap = "io" ∧ IoPasses kernel policy)) ∧
      ∃ e, denyCapability kernel policy cap = .error e) := by
  unfold denyCapability
  by_cases hnet : cap = "net"
  · subst hnet
    rw [if_pos rfl, applyDenyNet]
    cases hfilter : kernel.applyFilter with
    | error e => exact .inr ⟨by simp, e, rfl⟩
    | ok u => exact .inl ⟨.inl ⟨rfl, rfl⟩, .net, rfl, fun other => by simp [Enforces]⟩
  · rw [if_neg hnet]
    by_cases hio : cap = "io"
    · subst hio
      rw [if_pos rfl]
      rcases applyDenyIo_cases kernel policy with
        ⟨hpasses, rules, status, hrestrict, hok⟩ | ⟨hstops, e, herror⟩
      · refine .inl ⟨.inr ⟨rfl, hpasses⟩, _, hok, fun other => ?_⟩
        rw [hrestrict, forall_prop_of_true rfl, Except.ok.injEq]
        exact Iff.rfl
      · exact .inr ⟨by simp [hnet, hstops], e, herror⟩
    · rw [if_neg hio]
      exact .inr ⟨by simp [hnet, hio], _, rfl⟩

/-- The denials go through exactly if nothing stops one of them. -/
theorem applySandbox_ok_iff (kernel : Nat → Kernel) (policy : SandboxPolicy) :
    (∃ rs, applySandbox kernel policy = .ok rs) ↔ Passes kernel policy := by
  unfold applySandbox
  rw [mapM_isOk_iff]
  refine forall_congr' fun ci => forall_congr' fun _ => ?_
  rcases denyCapability_cases (kernel ci.2) policy ci.1 with
    ⟨hpasses, r, hok, -⟩ | ⟨hstops, e, herror⟩
  · exact iff_of_true ⟨r, hok⟩ hpasses
  · refine iff_of_false (fun ⟨r, hok⟩ => ?_) hstops
    rw [herror] at hok
    cases hok

/-- Of denials that went through every one is in force exactly if `io`, where it is among them,
is enforced in full at one of its places. -/
theorem enforced_iff {kernel : Nat → Kernel} {policy : SandboxPolicy} {rs : List Restriction}
    (h : applySandbox kernel policy = .ok rs) :
    (∀ cap ∈ policy.deny, ∃ r ∈ rs, Enforces r cap) ↔ IoEnforced kernel policy.deny := by
  have hleft := forall₂_left (mapM_eq_ok.1 h)
  have hright := forall₂_right (mapM_eq_ok.1 h)
  have hspec : ∀ (ci : String × Nat) {r : Restriction},
      denyCapability (kernel ci.2) policy ci.1 = .ok r → ∀ other, Enforces r other ↔
        other = ci.1 ∧ (ci.1 = "io" → (kernel ci.2).restrictSelf = .ok .fullyEnforced) := by
    intro ci r hok
    rcases denyCapability_cases (kernel ci.2) policy ci.1 with
      ⟨-, r', hok', hiff⟩ | ⟨-, e, herror⟩
    · rw [hok] at hok'
      cases hok'
      exact hiff
    · rw [hok] at herror
      cases herror
  constructor
  · intro hall hio
    obtain ⟨r, hr, henforces⟩ := hall "io" hio
    obtain ⟨ci, hci, hok⟩ := hright r hr
    obtain ⟨hcap, hfull⟩ := (hspec ci hok "io").1 henforces
    exact ⟨ci.2, by rw [hcap]; exact hci, hfull hcap.symm⟩
  · intro hio cap hcap
    -- the place at which the capability is denied: for `io`, one that is enforced in full
    have hplace : ∃ i, (cap, i) ∈ policy.deny.zipIdx ∧
        (cap = "io" → (kernel i).restrictSelf = .ok .fullyEnforced) := by
      by_cases hname : cap = "io"
      · subst hname
        obtain ⟨i, hi, hfull⟩ := hio hcap
        exact ⟨i, hi, fun _ => hfull⟩
      · obtain ⟨i, hi⟩ := List.mem_iff_getElem?.1 hcap
        exact ⟨i, List.mk_mem_zipIdx_iff_getElem?.2 hi, fun h => absurd h hname⟩
    obtain ⟨i, hi, hfull⟩ := hplace
    obtain ⟨r, hr, hok⟩ := hleft (cap, i) hi
    exact ⟨r, hr, (hspec (cap, i) hok cap).2 ⟨rfl, hfull⟩⟩

end Sandbox

namespace Process

/-- `start_process` up to the child (src/process.rs:80-214). -/
def setUp (os : LaunchOs) (config : ProcessConfig) : Fs ProcessConfig := do
  let config ← copyToAppDir config
  let config ← prepareImage os config
  mountVolumes config
  return config

/-- What a child is denied: `io` is added for an image, and taken out of a list that allows all
(src/process.rs:147-160). -/
def denied (config : ProcessConfig) : List String :=
  if config.isOci then
    if "all" ∈ config.allow then config.deny.filter (· ≠ "io")
    else if "io" ∈ config.deny then config.deny else config.deny ++ ["io"]
  else config.deny

/-- The policy of a config that is ready to be spawned (src/process.rs:228-240). -/
def policyOf (c : ProcessConfig) : SandboxPolicy := ⟨c.deny, c.allow, workDir c⟩

/-- The child is executed: it is set up, and neither a denial nor the spawn fails. -/
def Executes (os : LaunchOs) (config : ProcessConfig) (t : FileTree) : Prop :=
  ∃ c t', setUp os config t = .ok c t' ∧ Sandbox.Passes os.kernel (policyOf c) ∧
    ∃ pid, os.spawn (command c) = .ok pid

/-- Every capability that the child is denied is in force on it. -/
def Enforced (p : ManagedProcess) : Prop :=
  ∃ child, p.child = some child ∧
    ∀ cap ∈ p.config.deny, ∃ r ∈ child.restrictions, Sandbox.Enforces r cap

theorem startProcess_eq (os : LaunchOs) (config : ProcessConfig) (t : FileTree) :
    startProcess os config t = (setUp os config >>= fun c => demand id (spawnChild os c)) t := by
  unfold startProcess setUp
  simp only [run_bind]
  cases copyToAppDir config t with
  | error e t' => rfl
  | ok c t₁ =>
    dsimp only
    cases prepareImage os c t₁ with
    | error e t' => rfl
    | ok c' t₂ =>
      dsimp only
      cases mountVolumes c' t₂ <;> rfl

theorem setUp_deny {os : LaunchOs} {config c : ProcessConfig} {t t' : FileTree}
    (h : setUp os config t = .ok c t') : c.deny = denied config := by
  obtain ⟨c₁, t₁, hcopy, h⟩ := bind_ok h
  obtain ⟨c₂, t₂, himage, h⟩ := bind_ok h
  obtain ⟨_, t₃, -, h⟩ := bind_ok h
  cases h
  unfold prepareImage at himage
  unfold denied
  cases hoci : config.isOci with
  | false =>
    have hc := copyToAppDir_ok hcopy
    rw [if_pos (by rw [hc]; simpa using hoci)] at himage
    cases himage
    rw [if_neg Bool.false_ne_true, hc]
  | true =>
    rw [copyToAppDir_of_isOci t hoci] at hcopy
    cases hcopy
    rw [if_neg (by simpa using hoci)] at himage
    obtain ⟨⟨d, e, x⟩, t₁, hpull, himage⟩ := bind_ok himage
    cases himage
    rw [if_pos rfl, pullImage_ok hpull]
    exact withImage_deny _ e x config (extractDir_ne_all config.name)

theorem restrict_command (kernel : Nat → Kernel) (c : ProcessConfig) :
    restrict kernel (command c) = Sandbox.applySandbox kernel (policyOf c) := by
  unfold restrict command policyOf
  by_cases hdeny : c.deny = []
  · rw [if_pos hdeny, hdeny]
    rfl
  · rw [if_neg hdeny]

/-- A child that was spawned has the restrictions that it put on itself. -/
theorem spawnChild_ok_iff {os : LaunchOs} {c : ProcessConfig} {p : ManagedProcess} :
    spawnChild os c = .ok p ↔ ∃ rs pid, Sandbox.applySandbox os.kernel (policyOf c) = .ok rs ∧
      os.spawn (command c) = .ok pid ∧ p = ⟨c, some ⟨pid, command c, rs⟩, pid, .running, 0⟩ := by
  unfold spawnChild
  rw [restrict_command]
  cases Sandbox.applySandbox os.kernel (policyOf c) with
  | error e => exact iff_of_false (fun h => by cases h) fun ⟨_, _, h, _⟩ => by cases h
  | ok rs =>
    cases os.spawn (command c) with
    | error e => exact iff_of_false (fun h => by cases h) fun ⟨_, _, _, h, _⟩ => by cases h
    | ok pid =>
      constructor
      · intro h
        cases h
        exact ⟨rs, pid, rfl, rfl, rfl⟩
      · rintro ⟨rs', pid', hrs, hpid, rfl⟩
        cases hrs
        cases hpid
        rfl

/-- `start_process` fails closed exactly if, where it comes to execute a child that is denied
`io`, Landlock enforces the denial in full. -/
theorem failClosed_iff (os : LaunchOs) (config : ProcessConfig) (t : FileTree) :
    (∀ p t', startProcess os config t = .ok p t' → Enforced p) ↔
      (Executes os config t → Sandbox.IoEnforced os.kernel (denied config)) := by
  constructor
  · rintro hall ⟨c, t', hset, hpasses, pid, hspawn⟩
    obtain ⟨rs, hrs⟩ := (Sandbox.applySandbox_ok_iff os.kernel (policyOf c)).2 hpasses
    have hchild := spawnChild_ok_iff.2 ⟨rs, pid, hrs, hspawn, rfl⟩
    have hstart : startProcess os config t =
        .ok ⟨c, some ⟨pid, command c, rs⟩, pid, .running, 0⟩ t' := by
      rw [startProcess_eq, run_bind, hset]
      dsimp only
      rw [hchild]
      rfl
    obtain ⟨child, hsome, henforced⟩ := hall _ _ hstart
    cases hsome
    rw [← setUp_deny hset]
    exact (Sandbox.enforced_iff hrs).1 henforced
  · intro himp p t' hstart
    rw [startProcess_eq] at hstart
    obtain ⟨c, t₁, hset, hspawn⟩ := bind_ok hstart
    have hok : spawnChild os c = .ok p := by
      cases hs : spawnChild os c with
      | error e => rw [hs] at hspawn; cases hspawn
      | ok p' => rw [hs] at hspawn; cases hspawn; rfl
    obtain ⟨rs, pid, hrs, hpid, rfl⟩ := spawnChild_ok_iff.1 hok
    have hpasses := (Sandbox.applySandbox_ok_iff os.kernel (policyOf c)).1 ⟨rs, hrs⟩
    have hio := himp ⟨c, t₁, hset, hpasses, pid, hpid⟩
    rw [← setUp_deny hset] at hio
    exact ⟨_, rfl, (Sandbox.enforced_iff hrs).2 hio⟩

/-- A kernel without Landlock. -/
def withoutLandlock : LaunchOs :=
  let os := LaunchOs.serving .null 4000
  { os with kernel := fun i => { os.kernel i with restrictSelf := .ok .notEnforced } }

/-- An app that is denied `io`; nothing is at its path, so that it is not copied. -/
def deniedIo : ProcessConfig := { ProcessConfig.plain "web" "/bin/web" with deny := ["io"] }

/-- Without Landlock the app is executed, and nothing keeps it from the disk. -/
theorem executed_unrestricted :
    ∃ p t', startProcess withoutLandlock deniedIo .empty = .ok p t' ∧ ¬Enforced p := by
  obtain ⟨rs, hrs⟩ : ∃ rs, Sandbox.applySandbox withoutLandlock.kernel (policyOf deniedIo) =
      .ok [.io rs .notEnforced] := ⟨_, rfl⟩
  have hchild := spawnChild_ok_iff.2 ⟨_, some 4000, hrs, rfl, rfl⟩
  have hstart : startProcess withoutLandlock deniedIo .empty =
      .ok ⟨deniedIo, some ⟨some 4000, command deniedIo, [.io rs .notEnforced]⟩, some 4000,
        .running, 0⟩ .empty := by
    have hset : setUp withoutLandlock deniedIo .empty = .ok deniedIo .empty := rfl
    rw [startProcess_eq, run_bind, hset]
    dsimp only
    rw [hchild]
    rfl
  refine ⟨_, _, hstart, ?_⟩
  rintro ⟨child, hsome, henforced⟩
  cases hsome
  obtain ⟨r, hr, henforces⟩ := henforced "io" List.mem_cons_self
  obtain rfl := List.mem_singleton.1 hr
  exact absurd henforces.2 (by decide)

end Process
