import NylonRun.Lib.Effect

/-!
# Restrictions a child puts on itself before it runs

`src/sandbox.rs` on Linux. What the kernel and the seccomp and Landlock libraries answer is a
`Kernel`; what has been enforced is the list of `Restriction`s the function returns.
-/

open Effect

inductive Access where
  | read
  | full
  deriving DecidableEq, Repr

inductive RulesetStatus where
  | fullyEnforced
  | partiallyEnforced
  | notEnforced
  deriving DecidableEq, Repr

/-- The answers of the kernel and of the two libraries while one capability is denied; an error
is its whole text. -/
structure Kernel where
  /-- The seccomp filter: built, compiled and loaded. -/
  applyFilter : Except String Unit
  createRuleset : Except String Unit
  /-- `PathFd::new` succeeds. -/
  openPath : String → Bool
  addRule : String → Access → Except String Unit
  restrictSelf : Except String RulesetStatus

inductive Restriction where
  | net
  | io (rules : List (String × Access)) (status : RulesetStatus)
  deriving DecidableEq, Repr

/-- What a child is asked to put on itself. -/
structure SandboxPolicy where
  deny : List String
  allow : List String
  workingDir : String
  deriving DecidableEq, Repr

namespace Sandbox

/-- src/sandbox.rs:80-93. -/
def systemReadDirs : List String :=
  ["/lib", "/lib64", "/usr/lib", "/usr/lib64", "/usr/local/lib", "/etc/ld.so.cache",
    "/etc/ld.so.conf", "/etc/ld.so.conf.d", "/proc/self", "/dev/null", "/dev/urandom",
    "/dev/zero"]

/-- `linux::apply_deny_net` (src/sandbox.rs:23-63). -/
def applyDenyNet (kernel : Kernel) : Except String Restriction := do
  kernel.applyFilter
  return .net

/-- One rule for each path that can be opened; the others are skipped. -/
def addRules (kernel : Kernel) (access : Access) :
    List String → Except String (List (String × Access))
  | [] => .ok []
  | path :: paths =>
    if kernel.openPath path then do
      kernel.addRule path access
      return (path, access) :: (← addRules kernel access paths)
    else addRules kernel access paths

/-- `linux::apply_deny_io` (src/sandbox.rs:67-148). -/
def applyDenyIo (kernel : Kernel) (allowedPaths : List String) (workingDir : String) :
    Except String Restriction := do
  kernel.createRuleset
  let system ← addRules kernel .read systemReadDirs
  let allowed ← addRules kernel .full
    (workingDir :: allowedPaths ++ ["/var/run/nyrun/logs", "/tmp"])
  return .io (system ++ allowed) (← kernel.restrictSelf)

/-- One capability of the list. -/
def denyCapability (kernel : Kernel) (policy : SandboxPolicy) (cap : String) :
    Except String Restriction :=
  if cap = "net" then applyDenyNet kernel
  else if cap = "io" then applyDenyIo kernel policy.allow policy.workingDir
  else .error s!"unknown deny capability: '{cap}'"

/-- `apply_sandbox` (src/sandbox.rs:158-172): the capabilities in order, up to the first
failure. The kernel answers each of them anew. -/
def applySandbox (kernel : Nat → Kernel) (policy : SandboxPolicy) :
    Except String (List Restriction) :=
  policy.deny.zipIdx.mapM fun ci => denyCapability (kernel ci.2) policy ci.1

end Sandbox
