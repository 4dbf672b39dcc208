import NylonRun.Lib.Machine
import NylonRun.Process.Launch

/-!
# The health checker

What becomes of a child that exits with a failure. The pass marks its process as errored and
restarts it; the restart kills what is left of the child first, which marks it as stopped, and
a launch that then fails leaves that mark.
-/

open UnixPath FileTree Effect

/-- A tick of the health checker: what each launch meets, and what each child has come to. -/
structure Tick where
  launch : String → LaunchOs
  tryWait : String → WaitResult

namespace Process

def tick (h : Host) (t : Tick) : Host := final (checkAndRestart t.launch t.tryWait) h

/-- The names a pass restarts, in order. -/
def toRestart (h : Host) (t : Tick) : List String :=
  h.processMgr.processes.keys.filter fun name =>
    (h.processMgr.processes.lookup name).any (crashed (t.tryWait name))

/-- The host after the first half of a pass. -/
def checked (h : Host) (t : Tick) : Host :=
  { h with processMgr := ⟨h.processMgr.processes.mapValues fun name => checkEntry (t.tryWait name)⟩ }

/-- The second half of a pass. -/
def restartAll (launch : String → LaunchOs) (names : List String) : Managed Unit :=
  forEach names fun name => attempt (restart (launch name) name)

theorem tick_eq (h : Host) (t : Tick) :
    tick h t = final (restartAll t.launch (toRestart h t)) (checked h t) := rfl

theorem mem_toRestart {h : Host} {t : Tick} {name : String} :
    name ∈ toRestart h t ↔ ∃ p, h.processMgr.lookup name = some p ∧
      crashed (t.tryWait name) p = true := by
  unfold toRestart
  rw [List.mem_filter, Option.any_eq_true]
  constructor
  · rintro ⟨-, p, hp, hc⟩; exact ⟨p, hp, hc⟩
  · rintro ⟨p, hp, hc⟩
    exact ⟨AList.mem_keys.1 (Dict.mem_of_lookup hp), p, hp, hc⟩

theorem nodup_toRestart (h : Host) (t : Tick) : (toRestart h t).Nodup :=
  (AList.keys_nodup _).filter _

theorem lookup_checked (h : Host) (t : Tick) (name : String) :
    (checked h t).processMgr.lookup name =
      (h.processMgr.lookup name).map (checkEntry (t.tryWait name)) :=
  Dict.lookup_mapValues _ name

theorem checkEntry_of_crashed {answer : WaitResult} {p : ManagedProcess}
    (h : crashed answer p = true) : checkEntry answer p = { p with status := .errored } := by
  simp only [crashed, Bool.and_eq_true, decide_eq_true_eq] at h
  obtain ⟨⟨hrunning, hchild⟩, rfl⟩ := h
  simp [checkEntry, hrunning, Option.isSome_iff_ne_none.1 hchild]

theorem run_restartAll_cons (launch : String → LaunchOs) (name : String) (names : List String)
    (h : Host) : final (restartAll launch (name :: names)) h =
      final (restartAll launch names) (final (restart (launch name) name) h) := rfl

/-- A restart leaves the entries of the other apps alone. -/
theorem lookup_restart_of_ne (os : LaunchOs) {name n : String} (h : Host) (hn : n ≠ name) :
    (final (restart os name) h).processMgr.lookup n = h.processMgr.lookup n := by
  cases hp : h.processMgr.lookup name with
  | none => rw [final_of_error (restart_of_none os hp)]
  | some p =>
    rcases restart_cases os hp with ⟨e, t, -, hrun⟩ | ⟨m, q, t, -, -, hrun⟩
    · rw [final_of_error hrun, ProcessManager.lookup_insert, if_neg hn]
    · rw [final_of_ok hrun, ProcessManager.lookup_insert, if_neg hn]

theorem lookup_restartAll_of_notMem (launch : String → LaunchOs) {names : List String} {n : String}
    (h : Host) (hn : n ∉ names) :
    (final (restartAll launch names) h).processMgr.lookup n = h.processMgr.lookup n := by
  induction names generalizing h with
  | nil => rfl
  | cons name names ih =>
    rw [List.mem_cons, not_or] at hn
    rw [run_restartAll_cons, ih _ hn.2, lookup_restart_of_ne _ h hn.1]

/-- Every launch of the restarts succeeds, each on the host that those before it leave. -/
def AllLaunch (launch : String → LaunchOs) : List String → Host → Prop
  | [], _ => True
  | name :: names, h =>
    (∀ p, h.processMgr.lookup name = some p →
      ∃ m t, startProcess (launch name) p.config h.disk = .ok m t) ∧
    AllLaunch launch names (final (restart (launch name) name) h)

/-- Of a process that had the entry `p` when its child failed: it runs again and counts one
restart more, or it is still marked as failed, and a next tick that finds its child failed
restarts it. -/
def BackOrMarked (p : ManagedProcess) (h : Host) (name : String) : Prop :=
  ∃ q, h.processMgr.lookup name = some q ∧
    (q.status = .running ∧ q.restartCount = p.restartCount + 1 ∨
      q.status = .errored ∧ ∀ t : Tick, t.tryWait name = .exited false → name ∈ toRestart h t)

/-- The entry alone says whether it is back or marked. -/
theorem backOrMarked_congr {p : ManagedProcess} {h h' : Host} {name : String}
    (heq : h'.processMgr.lookup name = h.processMgr.lookup name) :
    BackOrMarked p h' name ↔ BackOrMarked p h name := by
  unfold BackOrMarked
  simp only [mem_toRestart, heq]

theorem restart_backOrMarked_iff {os : LaunchOs} {name : String} {h : Host} {p : ManagedProcess}
    (hp : h.processMgr.lookup name = some p) :
    BackOrMarked p (final (restart os name) h) name ↔
      ∃ m t, startProcess os p.config h.disk = .ok m t := by
  unfold BackOrMarked
  rcases restart_cases os hp with ⟨e, t, hstart, hrun⟩ | ⟨m, q, t, hstart, rfl, hrun⟩
  · simp [final_of_error hrun, hstart, ManagedProcess.killChild]
  · simp [final_of_ok hrun, hstart, (startProcess_ok hstart).running]

/-- The restarts of a pass bring every process back exactly if every launch succeeds: a
process whose launch fails is left as stopped. -/
theorem restartAll_backOrMarked_iff (launch : String → LaunchOs) {names : List String} {h : Host}
    (hnodup : names.Nodup) (hreg : ∀ n ∈ names, (h.processMgr.lookup n).isSome) :
    (∀ n ∈ names, ∀ p, h.processMgr.lookup n = some p →
      BackOrMarked p (final (restartAll launch names) h) n) ↔ AllLaunch launch names h := by
  induction names generalizing h with
  | nil => simp [AllLaunch]
  | cons name names ih =>
    obtain ⟨hname, hnodup⟩ := List.nodup_cons.1 hnodup
    obtain ⟨p, hp⟩ := Option.isSome_iff_exists.1 (hreg name List.mem_cons_self)
    have hother : ∀ n ∈ names,
        (final (restart (launch name) name) h).processMgr.lookup n = h.processMgr.lookup n := by
      intro n hn
      refine lookup_restart_of_ne _ h fun heq => hname (heq ▸ hn)
    have hhead : BackOrMarked p (final (restartAll launch (name :: names)) h) name ↔
        ∃ m t, startProcess (launch name) p.config h.disk = .ok m t := by
      rw [← restart_backOrMarked_iff hp, run_restartAll_cons]
      exact backOrMarked_congr (lookup_restartAll_of_notMem launch _ hname)
    have htail := ih (h := final (restart (launch name) name) h) hnodup fun n hn => by
      rw [hother n hn]; exact hreg n (List.mem_cons_of_mem _ hn)
    rw [AllLaunch, ← htail]
    simp only [List.mem_cons, forall_eq_or_imp, hp, Option.some.injEq, forall_eq', hhead]
    refine and_congr_right fun _ => forall₂_congr fun n hn => ?_
    rw [hother n hn, run_restartAll_cons]

/-! ## Runs of ticks -/

/-- A host under watch: `failed` are the processes whose last child exited with a failure and
has not been replaced. It is history; no pass reads it. -/
structure Watch where
  host : Host
  failed : List String

def watch : Machine Watch Tick Unit :=
  ⟨fun w t =>
    ({ host := tick w.host t
       failed := (w.failed ++ toRestart w.host t).filter fun name =>
        ((tick w.host t).processMgr.lookup name).any (·.child.isNone) }, ())⟩

/-- Every process whose child the tick finds failed is running again afterwards, with one
restart more, or still marked as failed for the next tick to restart. -/
def Recovers (w : Watch) (t : Tick) : Prop :=
  ∀ name p, w.host.processMgr.lookup name = some p → crashed (t.tryWait name) p = true →
    BackOrMarked p (tick w.host t) name

/-- No process whose last child exited with a failure is in the status of one that exited
well or was stopped. -/
def NotStopped (w : Watch) : Prop :=
  ∀ name ∈ w.failed, ∀ p, w.host.processMgr.lookup name = some p → p.status ≠ .stopped

/-- Every launch that the tick attempts succeeds. -/
def LaunchesAll (w : Watch) (t : Tick) : Prop :=
  AllLaunch t.launch (toRestart w.host t) (checked w.host t)

theorem recovers_iff (w : Watch) (t : Tick) : Recovers w t ↔ LaunchesAll w t := by
  have hentry : ∀ n ∈ toRestart w.host t, ∃ p, w.host.processMgr.lookup n = some p ∧
      (checked w.host t).processMgr.lookup n = some { p with status := .errored } := by
    intro n hn
    obtain ⟨p, hp, hc⟩ := mem_toRestart.1 hn
    exact ⟨p, hp, by rw [lookup_checked, hp, Option.map_some, checkEntry_of_crashed hc]⟩
  unfold LaunchesAll Recovers
  rw [← restartAll_backOrMarked_iff t.launch (nodup_toRestart w.host t) fun n hn => by
    obtain ⟨p, -, hp⟩ := hentry n hn
    rw [hp]; rfl]
  simp only [tick_eq]
  constructor
  · intro h n hn p hp
    obtain ⟨q, hq, hc⟩ := hentry n hn
    obtain ⟨q', hq', hcrashed⟩ := mem_toRestart.1 hn
    rw [hq] at hq'
    cases hq'
    rw [hc] at hp
    cases hp
    exact h n q hq hcrashed
  · intro h n p hp hcrashed
    have hn := mem_toRestart.2 ⟨p, hp, hcrashed⟩
    obtain ⟨q, hq, hc⟩ := hentry n hn
    rw [hp] at hq
    cases hq
    exact h n hn { p with status := .errored } hc

/-- A process that is not restarted and has no child is passed over. -/
theorem lookup_tick_of_childless {h : Host} {t : Tick} {name : String} {p : ManagedProcess}
    (hp : h.processMgr.lookup name = some p) (hchild : p.child = none) :
    (tick h t).processMgr.lookup name = some p := by
  have hn : name ∉ toRestart h t := by
    intro hn
    obtain ⟨q, hq, hc⟩ := mem_toRestart.1 hn
    rw [hp] at hq
    cases hq
    simp [crashed, hchild] at hc
  rw [tick_eq, lookup_restartAll_of_notMem _ _ hn, lookup_checked, hp]
  simp [checkEntry, hchild]

/-- In every run of ticks, from any process table: failed processes are brought back or stay
marked, and none is left as stopped, exactly if every launch the ticks attempt succeeds. -/
theorem ticks_recover_iff (h : Host) (ts : List Tick) :
    (watch.Along Recovers ⟨h, []⟩ ts ∧ watch.Throughout NotStopped ⟨h, []⟩ ts) ↔
      watch.Along LaunchesAll ⟨h, []⟩ ts := by
  constructor
  · rintro ⟨hrec, -⟩
    exact hrec.mono fun w t => (recovers_iff w t).1
  · intro hlaunch
    refine ⟨hlaunch.mono fun w t => (recovers_iff w t).2, ?_⟩
    -- a failed process without a child is neither restarted nor changed by later ticks
    let Idle (w : Watch) : Prop := ∀ name ∈ w.failed, ∀ p,
      w.host.processMgr.lookup name = some p → p.child = none ∧ p.status ≠ .stopped
    have hidle : watch.Throughout Idle ⟨h, []⟩ ts := by
      refine Machine.throughout_of_invariant (fun w t hw hl => ?_) (by simp [Idle]) hlaunch
      intro name hname p hp
      obtain ⟨hmem, hchild⟩ := List.mem_filter.1 hname
      have hp' : (tick w.host t).processMgr.lookup name = some p := hp
      refine ⟨by simpa [hp'] using hchild, ?_⟩
      rcases List.mem_append.1 hmem with hold | hnew
      · cases hq : w.host.processMgr.lookup name with
        | none =>
          have hn : name ∉ toRestart w.host t := by
            intro hn
            obtain ⟨q, hq', -⟩ := mem_toRestart.1 hn
            rw [hq] at hq'
            cases hq'
          rw [tick_eq, lookup_restartAll_of_notMem _ _ hn, lookup_checked, hq] at hp'
          cases hp'
        | some q =>
          obtain ⟨hchild, hstatus⟩ := hw name hold q hq
          rw [lookup_tick_of_childless hq hchild] at hp'
          cases hp'
          exact hstatus
      · obtain ⟨q, hq, hc⟩ := mem_toRestart.1 hnew
        obtain ⟨q', hq', hstatus⟩ := (recovers_iff w t).2 hl name q hq hc
        rw [hp'] at hq'
        cases hq'
        rcases hstatus with ⟨hrunning, -⟩ | ⟨herrored, -⟩
        · rw [hrunning]; decide
        · rw [herrored]; decide
    exact hidle.mono fun w hw name hname p hp => (hw name hname p hp).2

/-- The host of one running command. -/
def jobHost : Host :=
  final (spawnProcess (.serving .null 7) (ProcessConfig.plain "job" "sleep")) ⟨.empty, .empty⟩

/-- A tick that finds the child failed, on a system that cannot start another. -/
def failedTick : Tick where
  launch _ := { LaunchOs.serving .null 8 with
    spawn := fun _ => .error "Resource temporarily unavailable (os error 11)" }
  tryWait _ := .exited false

/-- A crashed process that cannot be restarted at once is left as stopped, and the next tick
does not try again. -/
theorem failed_restart_leaves_stopped :
    (jobHost.processMgr.lookup "job").map (·.status) = some .running ∧
      toRestart jobHost failedTick = ["job"] ∧
      ((tick jobHost failedTick).processMgr.lookup "job").map (·.status) = some .stopped ∧
      toRestart (tick jobHost failedTick) failedTick = [] := by
  decide +kernel

end Process
