import NylonRun.Layers
import NylonRun.Lib.Files
import NylonRun.Process.Metered

/-!
# PID files

A PID file is written where an app is started or restarted (src/process.rs:61-69, 356-361), and
removed where it is deleted (src/process.rs:327-330). A child also goes when all apps are killed,
when it has exited by itself, and when a restart has killed it and the launch then fails; its
PID file stays.
-/

open UnixPath FileTree Effect

namespace Process

/-- What is written to the PID file of a child. -/
def pidText (pid : UInt32) : Bytes := (toString pid).toUTF8.toList

end Process

/-- The place of an app's PID file. -/
def ManagedProcess.pidPlace (p : ManagedProcess) (t : FileTree) : Option Place :=
  p.config.pidFile.map (Oci.placeOf t)

/-- The operations of the process manager that start, end or find the end of children. -/
inductive PidOp where
  | spawnProcess (launch : LaunchOs) (config : ProcessConfig)
  | restart (launch : LaunchOs) (name : String)
  | checkAndRestart (tick : Tick)
  | delete (name : String)
  | killAll

/-- The host, and as history the places of all PID files that an app was ever to have. -/
structure PidHost where
  host : Host
  known : List (String × Place)

namespace PidHost

open Process

/-- The host after an operation. -/
def after (h : Host) : PidOp → Host
  | .spawnProcess launch config => final (spawnProcess launch config) h
  | .restart launch name => final (restart launch name) h
  | .checkAndRestart t => tick h t
  | .delete name => final (delete name) h
  | .killAll => final killAll h

/-- The places of the PID files that the apps of the table are to have. -/
def configured (h : Host) : List (String × Place) :=
  h.processMgr.processes.entries.filterMap fun e => (e.2.pidPlace h.disk).map (e.1, ·)

def step (s : PidHost) (op : PidOp) : PidHost × Unit :=
  (⟨after s.host op, s.known ++ configured (after s.host op)⟩, ())

def machine : Machine PidHost PidOp Unit := ⟨step⟩

/-- The app has its PID file at a place, and a child. -/
structure Live (h : Host) (name : String) (q : Place) (p : ManagedProcess) : Prop where
  entry : h.processMgr.lookup name = some p
  place : p.pidPlace h.disk = some q
  child : p.child.isSome

/-- The PID file that an app has or had at a place: it holds the pid of the app's child, and where
the app has no child or has its PID file elsewhere, it is not there. -/
structure Exact (h : Host) (name : String) (q : Place) : Prop where
  here : ∀ p, Live h name q p → ∃ pid, p.pid = some pid ∧ h.disk.fileAt q = some (pidText pid)
  gone : (∀ p, ¬Live h name q p) → h.disk.fileAt q = none

/-- Every PID file is exact. -/
def AllExact (known : List (String × Place)) (h : Host) : Prop :=
  ∀ name q, (name, q) ∈ known → Exact h name q

/-- The PID files are left. -/
structure Untouched (known : List (String × Place)) (t t' : FileTree) : Prop where
  cwd : t'.cwd = t.cwd
  files : ∀ name q, (name, q) ∈ known → t'.fileAt q = t.fileAt q

/-- The launch of an app leaves the PID files, gives the child an id, and its PID file can be
written. -/
structure LaunchStands (known : List (String × Place)) (launch : LaunchOs) (config : ProcessConfig)
    (t : FileTree) : Prop where
  hasId : Metered.HasId launch
  leaves : Untouched known t (final (startProcess launch config) t)
  writes : ∀ m t' path pid, startProcess launch config t = .ok m t' → config.pidFile = some path →
    m.pid = some pid → ∃ t'', write path (pidText pid) t' = .ok () t''

/-- The launch of a registered app stands. -/
def RestartStands (known : List (String × Place)) (launch : LaunchOs) (h : Host) (name : String) :
    Prop :=
  ∀ p, h.processMgr.lookup name = some p → LaunchStands known launch p.config h.disk

/-- The restarts of a pass of the health checker, one after the other. -/
def restarts (launch : String → LaunchOs) : Machine Host String Unit :=
  ⟨fun h name => (final (restart (launch name) name) h, ())⟩

/-- What is taken for granted of an operation: PID files are written and removed without an error,
no two apps have one at the same place, and the launches leave them. -/
def Stands (s : PidHost) : PidOp → Prop
  | .spawnProcess launch config =>
    (∀ path, config.pidFile = some path → ∀ name, (name, Oci.placeOf s.host.disk path) ∈ s.known →
      name = config.name) ∧
    ∀ t, ensureDirs config.name s.host.disk = .ok () t → LaunchStands s.known launch config t
  | .restart launch name => RestartStands s.known launch s.host name
  | .checkAndRestart t => (restarts t.launch).Along
      (fun h name => RestartStands s.known (t.launch name) h name) (checked s.host t)
      (toRestart s.host t)
  | .delete name => ∀ p path, s.host.processMgr.lookup name = some p →
      p.config.pidFile = some path → (s.host.disk.fileAt (Oci.placeOf s.host.disk path)).isSome →
      ∃ t, removeFile path s.host.disk = .ok () t
  | .killAll => True

/-- The app has a PID file, and a child. -/
def HasPidFile (p : ManagedProcess) : Prop := p.config.pidFile.isSome ∧ p.child.isSome

/-- The launch that follows the end of the child succeeds, if the app has a PID file. -/
def Relaunches (launch : LaunchOs) (h : Host) (name : String) : Prop :=
  ∀ p, h.processMgr.lookup name = some p → HasPidFile p →
    ∃ m t, startProcess launch p.config h.disk = .ok m t

/-- The condition on an operation: no app with a PID file loses its child other than by a delete or
by a restart whose launch succeeds. -/
def LosesNoChild (s : PidHost) : PidOp → Prop
  | .spawnProcess _ _ | .delete _ => True
  | .restart launch name => Relaunches launch s.host name
  | .checkAndRestart t =>
    (∀ name p, s.host.processMgr.lookup name = some p → HasPidFile p → p.status = .running →
      t.tryWait name ≠ .exited true) ∧
    (restarts t.launch).Along (fun h name => Relaunches (t.launch name) h name)
      (checked s.host t) (toRestart s.host t)
  | .killAll => ∀ name p, s.host.processMgr.lookup name = some p → ¬HasPidFile p

/-- No two apps have their PID files at one place, and the PID files of the apps in the table are
among those known. -/
structure Tracked (known : List (String × Place)) (h : Host) : Prop where
  apart : ∀ n n' q, (n, q) ∈ known → (n', q) ∈ known → n = n'
  covers : ∀ n p q, h.processMgr.lookup n = some p → p.pidPlace h.disk = some q → (n, q) ∈ known

variable {known : List (String × Place)} {h h' : Host} {name n : String} {q : Place}
  {p m : ManagedProcess} {t : FileTree}

theorem Untouched.refl (known : List (String × Place)) (t : FileTree) : Untouched known t t :=
  ⟨rfl, fun _ _ _ => rfl⟩

theorem Untouched.trans {t t' t'' : FileTree} (ht : Untouched known t t')
    (ht' : Untouched known t' t'') : Untouched known t t'' := by
  refine ⟨ht'.cwd.trans ht.cwd, fun name q hmem => ?_⟩
  rw [ht'.files name q hmem, ht.files name q hmem]

theorem pidPlace_congr {t t' : FileTree} (hcwd : t'.cwd = t.cwd) (p : ManagedProcess) :
    p.pidPlace t' = p.pidPlace t := by
  unfold ManagedProcess.pidPlace Oci.placeOf
  rw [hcwd]

theorem pidPlace_of_some {path : String} (hpath : p.config.pidFile = some path) (t : FileTree) :
    p.pidPlace t = some (Oci.placeOf t path) := by
  rw [ManagedProcess.pidPlace, hpath, Option.map_some]

theorem ite_pidPlace {α : Type} {path : String} (hpath : p.config.pidFile = some path)
    (t : FileTree) (q : Place) (a b : α) :
    (if p.pidPlace t = some q then a else b) = if q = Oci.placeOf t path then a else b := by
  simp only [pidPlace_of_some hpath, Option.some.injEq, eq_comm]

theorem mem_configured : (n, q) ∈ configured h ↔
    ∃ p, h.processMgr.lookup n = some p ∧ p.pidPlace h.disk = some q := by
  unfold configured ProcessManager.lookup
  rw [List.mem_filterMap]
  constructor
  · rintro ⟨⟨n', p⟩, hmem, hmap⟩
    obtain ⟨q', hplace, heq⟩ := Option.map_eq_some_iff.1 hmap
    cases heq
    exact ⟨p, Dict.lookup_eq_some_iff.2 hmem, hplace⟩
  · rintro ⟨p, hp, hplace⟩
    refine ⟨⟨n, p⟩, Dict.lookup_eq_some_iff.1 hp, ?_⟩
    rw [hplace]
    rfl

/-- Where an app has its PID file. -/
theorem HasPidFile.live (htracked : Tracked known h) (hp : h.processMgr.lookup n = some p)
    (hpid : HasPidFile p) : ∃ q, (n, q) ∈ known ∧ Live h n q p := by
  obtain ⟨path, hpath⟩ := Option.isSome_iff_exists.1 hpid.1
  have hplace := pidPlace_of_some hpath h.disk
  exact ⟨_, htracked.covers n p _ hp hplace, hp, hplace, hpid.2⟩

theorem Live.hasPidFile (hl : Live h n q p) : HasPidFile p := by
  have hplace := congrArg Option.isSome hl.place
  rw [ManagedProcess.pidPlace, Option.isSome_map] at hplace
  exact ⟨hplace, hl.child⟩

theorem Live.entry_eq {p' : ManagedProcess} (hl : Live h n q p')
    (hp : h.processMgr.lookup n = some p) : p = p' :=
  Option.some.inj (hp.symm.trans hl.entry)

/-! ## What the PID file of an app depends on -/

/-- The entry, the place and the file are all that counts. -/
theorem exact_congr (hentry : h'.processMgr.lookup n = h.processMgr.lookup n)
    (hcwd : h'.disk.cwd = h.disk.cwd) (hfile : h'.disk.fileAt q = h.disk.fileAt q) :
    Exact h' n q ↔ Exact h n q := by
  have hlive : ∀ p, Live h' n q p ↔ Live h n q p := by
    intro p
    constructor
    · intro hl
      exact ⟨hentry ▸ hl.entry, pidPlace_congr hcwd p ▸ hl.place, hl.child⟩
    · intro hl
      exact ⟨hentry.trans hl.entry, (pidPlace_congr hcwd p).trans hl.place, hl.child⟩
  constructor
  · intro hex
    refine ⟨fun p hl => ?_, fun hno => ?_⟩
    · rw [← hfile]
      exact hex.here p ((hlive p).2 hl)
    · rw [← hfile]
      exact hex.gone fun p hl => hno p ((hlive p).1 hl)
  · intro hex
    refine ⟨fun p hl => ?_, fun hno => ?_⟩
    · rw [hfile]
      exact hex.here p ((hlive p).1 hl)
    · rw [hfile]
      exact hex.gone fun p hl => hno p ((hlive p).2 hl)

/-- Where an app has no child with a PID file there, it must not be there. -/
theorem exact_of_not_live (hno : ∀ p, ¬Live h n q p) :
    Exact h n q ↔ h.disk.fileAt q = none :=
  ⟨fun hex => hex.gone hno, fun hfile => ⟨fun p hl => (hno p hl).elim, fun _ => hfile⟩⟩

theorem exact_of_live (hl : Live h n q p) {pid : UInt32} (hpid : p.pid = some pid)
    (hfile : h.disk.fileAt q = some (pidText pid)) : Exact h n q := by
  refine ⟨fun p' hl' => ?_, fun hno => (hno p hl).elim⟩
  obtain rfl := hl'.entry_eq hl.entry
  exact ⟨pid, hpid, hfile⟩

/-- A file that is to be there is there. -/
theorem Exact.isSome (hex : Exact h n q) (hl : Live h n q p) : h.disk.fileAt q ≠ none := by
  obtain ⟨pid, -, hfile⟩ := hex.here p hl
  rw [hfile]
  exact Option.some_ne_none _

theorem allExact_append {more : List (String × Place)} (hmore : ∀ e ∈ more, e ∈ known) :
    AllExact (known ++ more) h ↔ AllExact known h := by
  constructor
  · intro hall name q hmem
    exact hall name q (List.mem_append_left more hmem)
  · intro hall name q hmem
    exact hall name q ((List.mem_append.1 hmem).elim id (hmore _))

/-! ## A child that is started, and one that is lost -/

/-- The PID file of a started app is all that is written. -/
theorem fileAt_writePidFile {pid : UInt32} (hpid : m.pid = some pid)
    (hwrites : ∀ path, m.config.pidFile = some path → ∃ t', write path (pidText pid) t = .ok () t') :
    (final (writePidFile m) t).cwd = t.cwd ∧
      ∀ q, (final (writePidFile m) t).fileAt q =
        if m.pidPlace t = some q then some (pidText pid) else t.fileAt q := by
  unfold writePidFile
  cases hpath : m.config.pidFile with
  | none =>
    refine ⟨rfl, fun q => ?_⟩
    rw [ManagedProcess.pidPlace, hpath]
    rfl
  | some path =>
    rw [hpid]
    obtain ⟨t', hwrite⟩ := hwrites path hpath
    have hfinal : final (write path (pidText pid)) t = t' := final_of_ok hwrite
    obtain ⟨hcwd, hfiles⟩ := fileAt_write hwrite
    refine ⟨hfinal ▸ hcwd, fun q => ?_⟩
    change (final (write path (pidText pid)) t).fileAt q = _
    rw [hfinal, hfiles q, ite_pidPlace hpath]
    rfl

/-- A process has been started under a name: its PID file is written, and its entry is made. -/
structure StartsAs (known : List (String × Place)) (h : Host) (name : String) (m : ManagedProcess)
    (h' : Host) : Prop where
  entry : ∀ n, h'.processMgr.lookup n = if n = name then some m else h.processMgr.lookup n
  child : m.child.isSome
  cwd : h'.disk.cwd = h.disk.cwd
  files : ∃ pid, m.pid = some pid ∧ ∀ n q, (n, q) ∈ known ∨ m.pidPlace h.disk = some q →
    h'.disk.fileAt q = if m.pidPlace h.disk = some q then some (pidText pid) else h.disk.fileAt q

theorem startsAs_of_leaves {launch : LaunchOs} {config : ProcessConfig} {t t' : FileTree}
    {count : UInt32} (hstands : LaunchStands known launch config t)
    (hdisk : Untouched known h.disk t) (hstart : startProcess launch config t = .ok m t') :
    StartsAs known h name { m with restartCount := count }
      ⟨h.processMgr.insert name { m with restartCount := count },
        final (writePidFile { m with restartCount := count }) t'⟩ := by
  obtain ⟨hchild, hpid, -, -⟩ := Metered.startProcess_fields hstands.hasId hstart
  obtain ⟨pid, hpid⟩ := Option.isSome_iff_exists.1 hpid
  have hleaves : Untouched known h.disk t' := by
    have hl := hstands.leaves
    rw [final_of_ok hstart] at hl
    exact hdisk.trans hl
  have hsame := (startProcess_ok hstart).same
  obtain ⟨hcwd, hfiles⟩ := @fileAt_writePidFile { m with restartCount := count } t' pid hpid
    fun path hpath => hstands.writes m t' path pid hstart (hsame.pidFile ▸ hpath) hpid
  refine ⟨fun n => ProcessManager.lookup_insert _ name _ n, hchild, hcwd.trans hleaves.cwd,
    pid, hpid, fun n q hq => ?_⟩
  rw [hfiles q, pidPlace_congr hleaves.cwd]
  by_cases hplace : ({ m with restartCount := count } : ManagedProcess).pidPlace h.disk = some q
  · rw [if_pos hplace, if_pos hplace]
  · rw [if_neg hplace, if_neg hplace]
    exact hleaves.files n q (hq.resolve_right hplace)

/-- The start of one app leaves the PID files of the others. -/
theorem StartsAs.others (hs : StartsAs known h name m h') (hn : n ≠ name)
    (hmem : (n, q) ∈ known) (hapart : m.pidPlace h.disk ≠ some q) :
    Exact h' n q ↔ Exact h n q := by
  obtain ⟨pid, -, hfiles⟩ := hs.files
  refine exact_congr ?_ hs.cwd ?_
  · rw [hs.entry, if_neg hn]
  · rw [hfiles n q (.inl hmem), if_neg hapart]

/-- The PID file of the started app is exact, if the app had no child with another one. -/
theorem StartsAs.own (hs : StartsAs known h name m h')
    (hmem : (name, q) ∈ known ∨ m.pidPlace h.disk = some q)
    (hbefore : m.pidPlace h.disk ≠ some q → Exact h name q ∧ ∀ p, ¬Live h name q p) :
    Exact h' name q := by
  obtain ⟨pid, hpid, hfiles⟩ := hs.files
  have hentry : h'.processMgr.lookup name = some m := by rw [hs.entry, if_pos rfl]
  by_cases hplace : m.pidPlace h.disk = some q
  · have hl : Live h' name q m := ⟨hentry, (pidPlace_congr hs.cwd m).trans hplace, hs.child⟩
    refine exact_of_live hl hpid ?_
    rw [hfiles name q hmem, if_pos hplace]
  · obtain ⟨hex, hno⟩ := hbefore hplace
    have hno' : ∀ p, ¬Live h' name q p := by
      intro p hl
      obtain rfl := hl.entry_eq hentry
      exact hplace ((pidPlace_congr hs.cwd m).symm.trans hl.place)
    rw [exact_of_not_live hno', hfiles name q hmem, if_neg hplace]
    exact hex.gone hno

/-! ## A restart -/

/-- What a restart leaves: nothing where the app is not registered; the entry without its child
where the launch fails; or the started process. -/
theorem restart_outcome (launch : LaunchOs) (hstands : RestartStands known launch h name) :
    (h.processMgr.lookup name = none ∧ final (restart launch name) h = h) ∨
    ∃ p, h.processMgr.lookup name = some p ∧
      ((∀ m t, startProcess launch p.config h.disk ≠ .ok m t) ∧
        (∃ t, Untouched known h.disk t ∧
          final (restart launch name) h = ⟨h.processMgr.insert name p.killChild, t⟩) ∨
      ∃ m t, startProcess launch p.config h.disk = .ok m t ∧
        ∃ q, q.pidPlace h.disk = p.pidPlace h.disk ∧
          StartsAs known h name q (final (restart launch name) h)) := by
  cases hp : h.processMgr.lookup name with
  | none => exact .inl ⟨rfl, final_of_error (restart_of_none launch hp)⟩
  | some p =>
    refine .inr ⟨p, rfl, ?_⟩
    have hlaunch := hstands p hp
    rcases restart_cases launch hp with ⟨e, t, hstart, hrun⟩ | ⟨m, q, t, hstart, rfl, hrun⟩
    · refine .inl ⟨fun m t' hok => ?_, t, ?_, final_of_error hrun⟩
      · rw [hstart] at hok
        cases hok
      · have hl := hlaunch.leaves
        rwa [final_of_error hstart] at hl
    · refine .inr ⟨m, t, hstart, { m with restartCount := p.restartCount + 1 }, ?_, ?_⟩
      · have hsame := (startProcess_ok hstart).same
        change m.config.pidFile.map _ = p.config.pidFile.map _
        rw [hsame.pidFile]
      · rw [final_of_ok hrun]
        exact startsAs_of_leaves hlaunch (Untouched.refl known h.disk) hstart

/-- A restart leaves the PID files of the other apps. -/
theorem restart_others (launch : LaunchOs) (htracked : Tracked known h)
    (hstands : RestartStands known launch h name) (hn : n ≠ name) (hmem : (n, q) ∈ known) :
    Exact (final (restart launch name) h) n q ↔ Exact h n q := by
  rcases restart_outcome launch hstands with
    ⟨-, hrun⟩ | ⟨p, hp, ⟨-, t, hleaves, hrun⟩ | ⟨m, t, -, q', hplace, hstarts⟩⟩
  · rw [hrun]
  · rw [hrun]
    refine exact_congr ?_ hleaves.cwd (hleaves.files n q hmem)
    rw [ProcessManager.lookup_insert, if_neg hn]
  · refine hstarts.others hn hmem fun hq => hn ?_
    exact htracked.apart n name q hmem (htracked.covers name p q hp (hplace ▸ hq))

/-- A restart keeps the PID file of its app exact exactly if the launch succeeds, where the app has
a PID file and a child. -/
theorem restart_own_iff (launch : LaunchOs) (htracked : Tracked known h)
    (hstands : RestartStands known launch h name)
    (hex : ∀ q, (name, q) ∈ known → Exact h name q) :
    (∀ q, (name, q) ∈ known → Exact (final (restart launch name) h) name q) ↔
      Relaunches launch h name := by
  rcases restart_outcome launch hstands with
    ⟨hp, hrun⟩ | ⟨p, hp, ⟨hfails, t, hleaves, hrun⟩ | ⟨m, t, hstart, q', hplace, hstarts⟩⟩
  · refine iff_of_true ?_ fun p hp' => ?_
    · rw [hrun]
      exact hex
    · rw [hp] at hp'
      cases hp'
  · -- the child is gone, and what was in its PID file is still there
    have hentry : (final (restart launch name) h).processMgr.lookup name = some p.killChild := by
      rw [hrun, ProcessManager.lookup_insert, if_pos rfl]
    have hno : ∀ q p', ¬Live (final (restart launch name) h) name q p' := by
      intro q p' hl
      obtain rfl := hl.entry_eq hentry
      exact nomatch hl.child
    have hfile : ∀ q, (name, q) ∈ known →
        (final (restart launch name) h).disk.fileAt q = h.disk.fileAt q := by
      intro q hq
      rw [hrun]
      exact hleaves.files name q hq
    constructor
    · intro hafter p' hp' hpid
      obtain rfl : p = p' := Option.some.inj (hp.symm.trans hp')
      obtain ⟨q, hmem, hl⟩ := hpid.live htracked hp
      refine ((hex q hmem).isSome hl ?_).elim
      rw [← hfile q hmem]
      exact (exact_of_not_live (hno q)).1 (hafter q hmem)
    · intro hrelaunch q hmem
      rw [exact_of_not_live (hno q), hfile q hmem]
      refine (hex q hmem).gone fun p' hl => ?_
      obtain rfl := hl.entry_eq hp
      obtain ⟨m, t', hstart⟩ := hrelaunch p hp hl.hasPidFile
      exact hfails m t' hstart
  · refine iff_of_true (fun q hmem => hstarts.own (.inl hmem) fun hne => ⟨hex q hmem, ?_⟩) ?_
    · intro p' hl
      obtain rfl := hl.entry_eq hp
      exact hne (hplace.trans hl.place)
    · intro p' hp' _
      obtain rfl : p = p' := Option.some.inj (hp.symm.trans hp')
      exact ⟨m, t, hstart⟩

theorem tracked_restart (launch : LaunchOs) (htracked : Tracked known h)
    (hstands : RestartStands known launch h name) :
    Tracked known (final (restart launch name) h) := by
  refine ⟨htracked.apart, fun n p' q' hentry hplace' => ?_⟩
  rcases restart_outcome launch hstands with
    ⟨-, hrun⟩ | ⟨p, hp, ⟨-, t, hleaves, hrun⟩ | ⟨m, t, -, q, hplace, hstarts⟩⟩
  · rw [hrun] at hentry hplace'
    exact htracked.covers n p' q' hentry hplace'
  · rw [hrun] at hentry hplace'
    rw [ProcessManager.lookup_insert] at hentry
    rw [pidPlace_congr hleaves.cwd] at hplace'
    by_cases hn : n = name
    · rw [if_pos hn] at hentry
      cases hentry
      exact htracked.covers n p q' (hn ▸ hp) hplace'
    · rw [if_neg hn] at hentry
      exact htracked.covers n p' q' hentry hplace'
  · rw [hstarts.entry] at hentry
    rw [pidPlace_congr hstarts.cwd] at hplace'
    by_cases hn : n = name
    · rw [if_pos hn] at hentry
      cases hentry
      exact htracked.covers n p q' (hn ▸ hp) (hplace ▸ hplace')
    · rw [if_neg hn] at hentry
      exact htracked.covers n p' q' hentry hplace'

theorem restart_allExact_iff (launch : LaunchOs) (htracked : Tracked known h)
    (hstands : RestartStands known launch h name) (hall : AllExact known h) :
    AllExact known (final (restart launch name) h) ↔ Relaunches launch h name := by
  rw [← restart_own_iff launch htracked hstands fun q hmem => hall name q hmem]
  constructor
  · intro hafter q hmem
    exact hafter name q hmem
  · intro hown n q hmem
    by_cases hn : n = name
    · subst hn
      exact hown q hmem
    · exact (restart_others launch htracked hstands hn hmem).2 (hall n q hmem)

/-! ## The restarts of a pass -/

theorem final_restartAll (launch : String → LaunchOs) (names : List String) (h : Host) :
    final (restartAll launch names) h = (restarts launch).run h names := by
  induction names generalizing h with
  | nil => rfl
  | cons name names ih => exact ih _

variable {launch : String → LaunchOs} {names : List String}

/-- The restarts of other apps leave a PID file. -/
theorem restarts_others (htracked : Tracked known h)
    (hstands : (restarts launch).Along
      (fun h name => RestartStands known (launch name) h name) h names)
    (hn : n ∉ names) (hmem : (n, q) ∈ known) :
    Exact ((restarts launch).run h names) n q ↔ Exact h n q := by
  induction names generalizing h with
  | nil => rfl
  | cons name names ih =>
    obtain ⟨hfirst, hrest⟩ := hstands
    rw [List.mem_cons, not_or] at hn
    have hstep := restart_others (launch name) htracked hfirst hn.1 hmem
    exact (ih (tracked_restart (launch name) htracked hfirst) hrest hn.2).trans hstep

theorem tracked_restarts (htracked : Tracked known h)
    (hstands : (restarts launch).Along
      (fun h name => RestartStands known (launch name) h name) h names) :
    Tracked known ((restarts launch).run h names) :=
  Machine.run_invariant (fun _ name ht hs => tracked_restart (launch name) ht hs) htracked hstands

/-- After the restarts every PID file is exact exactly if every app with a PID file and a child was
launched again: a later restart does not make up for one that failed. -/
theorem restarts_allExact_iff (hnodup : names.Nodup) (htracked : Tracked known h)
    (hstands : (restarts launch).Along
      (fun h name => RestartStands known (launch name) h name) h names)
    (hall : AllExact known h) :
    AllExact known ((restarts launch).run h names) ↔
      (restarts launch).Along (fun h name => Relaunches (launch name) h name) h names := by
  induction names generalizing h with
  | nil => exact iff_of_true hall trivial
  | cons name names ih =>
    obtain ⟨hname, hnodup⟩ := List.nodup_cons.1 hnodup
    obtain ⟨hfirst, hrest⟩ := hstands
    have hiff := restart_allExact_iff (launch name) htracked hfirst hall
    have htracked' := tracked_restart (launch name) htracked hfirst
    rw [Machine.along_cons, ← hiff]
    constructor
    · intro hafter
      have hfirst' : AllExact known (final (restart (launch name) name) h) := by
        intro n q hmem
        by_cases hn : n = name
        · subst hn
          exact (restarts_others htracked' hrest hname hmem).1 (hafter n q hmem)
        · exact (restart_others (launch name) htracked hfirst hn hmem).2 (hall n q hmem)
      exact ⟨hfirst', (ih hnodup htracked' hrest hfirst').1 hafter⟩
    · rintro ⟨hfirst', hrelaunch⟩
      exact (ih hnodup htracked' hrest hfirst').2 hrelaunch

/-! ## A pass of the health checker -/

/-- The check of an entry takes its child where it exited well, and nothing else of what its PID
file depends on. -/
theorem checkEntry_cases (answer : WaitResult) (p : ManagedProcess) :
    (p.status = .running ∧ answer = .exited true ∧ (checkEntry answer p).child = none ∧
      (checkEntry answer p).config = p.config) ∨
    (¬(p.status = .running ∧ answer = .exited true ∧ p.child.isSome) ∧
      (checkEntry answer p).child = p.child ∧ (checkEntry answer p).pid = p.pid ∧
      (checkEntry answer p).config = p.config) := by
  unfold checkEntry
  by_cases hskip : p.status ≠ .running ∨ p.child.isNone
  · rw [if_pos hskip]
    refine .inr ⟨fun hgo => ?_, rfl, rfl, rfl⟩
    rcases hskip with hstatus | hchild
    · exact hstatus hgo.1
    · rw [Option.isNone_iff_eq_none.1 hchild] at hgo
      exact nomatch hgo.2.2
  · rw [if_neg hskip]
    rw [not_or, not_not] at hskip
    cases answer with
    | exited success =>
      cases success with
      | true => exact .inl ⟨hskip.1, rfl, rfl, rfl⟩
      | false => exact .inr ⟨fun hgo => (nomatch hgo.2.1), rfl, rfl, rfl⟩
    | running => exact .inr ⟨fun hgo => (nomatch hgo.2.1), rfl, rfl, rfl⟩
    | failed e => exact .inr ⟨fun hgo => (nomatch hgo.2.1), rfl, rfl, rfl⟩

/-- The child of the app, which has a PID file at the place, is found to have exited well. -/
def ExitsWell (tick : Tick) (h : Host) (name : String) (q : Place) : Prop :=
  ∃ p, Live h name q p ∧ p.status = .running ∧ tick.tryWait name = .exited true

theorem live_checked {tick : Tick} {p' : ManagedProcess} :
    Live (checked h tick) n q p' ↔ ¬ExitsWell tick h n q ∧
      ∃ p, Live h n q p ∧ p' = checkEntry (tick.tryWait n) p := by
  constructor
  · intro hl
    obtain ⟨p, hp, rfl⟩ := Option.map_eq_some_iff.1 ((lookup_checked h tick n).symm.trans hl.entry)
    have hplace := hl.place
    have hchild := hl.child
    rcases checkEntry_cases (tick.tryWait n) p with
      ⟨-, -, hnone, -⟩ | ⟨hnot, hsame, -, hconfig⟩
    · rw [hnone] at hchild
      cases hchild
    · unfold ManagedProcess.pidPlace at hplace
      rw [hconfig] at hplace
      rw [hsame] at hchild
      refine ⟨?_, p, ⟨hp, hplace, hchild⟩, rfl⟩
      rintro ⟨p', hl', hstatus, hanswer⟩
      obtain rfl := hl'.entry_eq hp
      exact hnot ⟨hstatus, hanswer, hchild⟩
  · rintro ⟨hnot, p, hl, rfl⟩
    have hentry : (checked h tick).processMgr.lookup n = some (checkEntry (tick.tryWait n) p) := by
      rw [lookup_checked, hl.entry, Option.map_some]
    rcases checkEntry_cases (tick.tryWait n) p with
      ⟨hstatus, hanswer, -, -⟩ | ⟨-, hsame, -, hconfig⟩
    · exact (hnot ⟨p, hl, hstatus, hanswer⟩).elim
    · refine ⟨hentry, ?_, hsame ▸ hl.child⟩
      have hplace := hl.place
      unfold ManagedProcess.pidPlace at hplace ⊢
      rw [hconfig]
      exact hplace

theorem exact_checked_iff (tick : Tick) (hex : Exact h n q) :
    Exact (checked h tick) n q ↔ ¬ExitsWell tick h n q := by
  constructor
  · intro hafter hexits
    have hno : ∀ p', ¬Live (checked h tick) n q p' := fun p' hl => (live_checked.1 hl).1 hexits
    obtain ⟨p, hl, -⟩ := hexits
    exact hex.isSome hl ((exact_of_not_live hno).1 hafter)
  · intro hnot
    refine ⟨fun p' hl' => ?_, fun hno => hex.gone fun p hl => ?_⟩
    · obtain ⟨-, p, hl, rfl⟩ := live_checked.1 hl'
      rcases checkEntry_cases (tick.tryWait n) p with
        ⟨hstatus, hanswer, -, -⟩ | ⟨-, -, hpid, -⟩
      · exact (hnot ⟨p, hl, hstatus, hanswer⟩).elim
      · rw [hpid]
        exact hex.here p hl
    · exact hno _ (live_checked.2 ⟨hnot, p, hl, rfl⟩)

theorem tracked_checked (tick : Tick) (htracked : Tracked known h) :
    Tracked known (checked h tick) := by
  refine ⟨htracked.apart, fun n p' q' hentry hplace => ?_⟩
  obtain ⟨p, hp, rfl⟩ := Option.map_eq_some_iff.1 ((lookup_checked h tick n).symm.trans hentry)
  refine htracked.covers n p q' hp ?_
  have hconfig : (checkEntry (tick.tryWait n) p).config = p.config := by
    rcases checkEntry_cases (tick.tryWait n) p with ⟨-, -, -, hconfig⟩ | ⟨-, -, -, hconfig⟩
    · exact hconfig
    · exact hconfig
  unfold ManagedProcess.pidPlace at hplace
  rwa [hconfig] at hplace

/-- What exited well is not restarted. -/
theorem ExitsWell.notMem {tick : Tick} (hexits : ExitsWell tick h n q) : n ∉ toRestart h tick := by
  intro hmem
  obtain ⟨p, -, -, hanswer⟩ := hexits
  obtain ⟨p', -, hcrashed⟩ := mem_toRestart.1 hmem
  simp only [crashed, Bool.and_eq_true, decide_eq_true_eq] at hcrashed
  rw [hanswer] at hcrashed
  cases hcrashed.2

theorem tick_allExact_iff (tick : Tick) (htracked : Tracked known h)
    (hstands : (restarts tick.launch).Along
      (fun h name => RestartStands known (tick.launch name) h name) (checked h tick)
      (toRestart h tick)) (hall : AllExact known h) :
    AllExact known (Process.tick h tick) ↔
      (∀ name p, h.processMgr.lookup name = some p → HasPidFile p → p.status = .running →
        tick.tryWait name ≠ .exited true) ∧
      (restarts tick.launch).Along (fun h name => Relaunches (tick.launch name) h name)
        (checked h tick) (toRestart h tick) := by
  have htracked' := tracked_checked tick htracked
  rw [tick_eq, final_restartAll]
  have hexits : (∀ name p, h.processMgr.lookup name = some p → HasPidFile p → p.status = .running →
      tick.tryWait name ≠ .exited true) ↔ ∀ n q, (n, q) ∈ known → ¬ExitsWell tick h n q := by
    constructor
    · rintro hgood n q - ⟨p, hl, hstatus, hanswer⟩
      exact hgood n p hl.entry hl.hasPidFile hstatus hanswer
    · intro hnone name p hp hpid hstatus hanswer
      obtain ⟨q, hmem, hl⟩ := hpid.live htracked hp
      exact hnone name q hmem ⟨p, hl, hstatus, hanswer⟩
  rw [hexits]
  constructor
  · intro hafter
    have hnone : ∀ n q, (n, q) ∈ known → ¬ExitsWell tick h n q := by
      intro n q hmem hexits
      have hexact := (restarts_others htracked' hstands hexits.notMem hmem).1 (hafter n q hmem)
      exact (exact_checked_iff tick (hall n q hmem)).1 hexact hexits
    have hchecked : AllExact known (checked h tick) := fun n q hmem =>
      (exact_checked_iff tick (hall n q hmem)).2 (hnone n q hmem)
    exact ⟨hnone, (restarts_allExact_iff (nodup_toRestart h tick) htracked' hstands hchecked).1
      hafter⟩
  · rintro ⟨hnone, hrelaunch⟩
    have hchecked : AllExact known (checked h tick) := fun n q hmem =>
      (exact_checked_iff tick (hall n q hmem)).2 (hnone n q hmem)
    exact (restarts_allExact_iff (nodup_toRestart h tick) htracked' hstands hchecked).2 hrelaunch

theorem tracked_tick (tick : Tick) (htracked : Tracked known h)
    (hstands : (restarts tick.launch).Along
      (fun h name => RestartStands known (tick.launch name) h name) (checked h tick)
      (toRestart h tick)) : Tracked known (Process.tick h tick) := by
  rw [tick_eq, final_restartAll]
  exact tracked_restarts (tracked_checked tick htracked) hstands

/-! ## The other operations -/

theorem untouched_ensureDirs (known : List (String × Place)) (name : String) (t : FileTree) :
    Untouched known t (final (ensureDirs name) t) := by
  have hfinal : final (ensureDirs name) t = final (mkdirs (components (logsDir name)) t.cwd) t := by
    unfold ensureDirs
    rw [final_bind, run_createDirAll, final]
    cases mkdirs (components (logsDir name)) t.cwd t <;> rfl
  rw [hfinal]
  refine ⟨?_, fun n q _ => fileAt_mkdirs _ _ t q⟩
  exact (respects_mkdirs kept_grows _ _ t).cwd

/-- `spawn_process` leaves the PID files where it fails, and starts its app where it succeeds. -/
theorem spawnProcess_outcome (launch : LaunchOs) (config : ProcessConfig)
    (hstands : ∀ t, ensureDirs config.name h.disk = .ok () t → LaunchStands known launch config t) :
    (∃ t, Untouched known h.disk t ∧
      final (spawnProcess launch config) h = { h with disk := t }) ∨
    (h.processMgr.lookup config.name = none ∧ ∃ m,
      m.pidPlace h.disk = config.pidFile.map (Oci.placeOf h.disk) ∧
      StartsAs known h config.name m (final (spawnProcess launch config) h)) := by
  have hdisk := untouched_ensureDirs known config.name h.disk
  rcases spawnProcess_steps launch config h with
    ⟨e, hrun⟩ | ⟨e, e', t, hdirs, hrun⟩ | ⟨t, hdirs, ⟨e, t', hstart, hrun⟩ | ⟨hnone, m, t', hstart,
      hrun⟩⟩
  · exact .inl ⟨h.disk, .refl known h.disk, final_of_error hrun⟩
  · rw [final_of_error hdirs] at hdisk
    exact .inl ⟨t, hdisk, final_of_error hrun⟩
  · rw [final_of_ok hdirs] at hdisk
    have hleaves := (hstands t hdirs).leaves
    rw [final_of_error hstart] at hleaves
    exact .inl ⟨t', hdisk.trans hleaves, final_of_error hrun⟩
  · rw [final_of_ok hdirs] at hdisk
    refine .inr ⟨hnone, m, ?_, ?_⟩
    · rw [ManagedProcess.pidPlace, (startProcess_ok hstart).same.pidFile]
    · rw [final_of_ok hrun]
      exact @startsAs_of_leaves known h config.name m launch config t t' m.restartCount
        (hstands t hdirs) hdisk hstart

theorem mem_known_of_configured (htracked : Tracked known h) :
    ∀ e ∈ configured h, e ∈ known := by
  rintro ⟨n, q⟩ hmem
  obtain ⟨p, hp, hplace⟩ := mem_configured.1 hmem
  exact htracked.covers n p q hp hplace

theorem Tracked.append (htracked : Tracked known h) : Tracked (known ++ configured h) h := by
  have hin : ∀ n q, (n, q) ∈ known ++ configured h → (n, q) ∈ known := by
    intro n q hmem
    exact (List.mem_append.1 hmem).elim id (mem_known_of_configured htracked _)
  refine ⟨fun n n' q hn hn' => htracked.apart n n' q (hin n q hn) (hin n' q hn'), ?_⟩
  intro n p q hp hplace
  exact List.mem_append_left _ (htracked.covers n p q hp hplace)

/-- `spawn_process` keeps every PID file exact, and adds that of its app. -/
theorem allExact_spawnProcess (launch : LaunchOs) (config : ProcessConfig)
    (htracked : Tracked known h) (hall : AllExact known h)
    (hfresh : ∀ path, config.pidFile = some path → ∀ name,
      (name, Oci.placeOf h.disk path) ∈ known → name = config.name)
    (hstands : ∀ t, ensureDirs config.name h.disk = .ok () t → LaunchStands known launch config t) :
    let h' := final (spawnProcess launch config) h
    Tracked (known ++ configured h') h' ∧ AllExact (known ++ configured h') h' := by
  intro h'
  rcases spawnProcess_outcome launch config hstands with
    ⟨t, hleaves, hrun⟩ | ⟨hnone, m, hplace, hstarts⟩
  · have htracked' : Tracked known h' := by
      refine ⟨htracked.apart, fun n p q hp hplace => htracked.covers n p q ?_ ?_⟩
      · rwa [show h' = _ from hrun] at hp
      · rw [show h' = _ from hrun] at hplace
        rwa [pidPlace_congr hleaves.cwd] at hplace
    refine ⟨htracked'.append, (allExact_append (mem_known_of_configured htracked')).2 ?_⟩
    intro n q hmem
    rw [show h' = _ from hrun, @exact_congr h { h with disk := t } n q rfl hleaves.cwd
      (hleaves.files n q hmem)]
    exact hall n q hmem
  · -- the places of the table are those known, and that of the app
    have hown : ∀ n q, (n, q) ∈ known → m.pidPlace h.disk = some q → n = config.name := by
      intro n q hmem hq
      rw [hplace] at hq
      obtain ⟨path, hpath, rfl⟩ := Option.map_eq_some_iff.1 hq
      exact hfresh path hpath n hmem
    have hconf : ∀ n q, (n, q) ∈ configured h' →
        (n, q) ∈ known ∨ n = config.name ∧ m.pidPlace h.disk = some q := by
      intro n q hmem
      obtain ⟨p, hp, hq⟩ := mem_configured.1 hmem
      rw [hstarts.entry] at hp
      rw [pidPlace_congr hstarts.cwd] at hq
      by_cases hn : n = config.name
      · rw [if_pos hn] at hp
        cases hp
        exact .inr ⟨hn, hq⟩
      · rw [if_neg hn] at hp
        exact .inl (htracked.covers n p q hp hq)
    have hin : ∀ n q, (n, q) ∈ known ++ configured h' →
        (n, q) ∈ known ∨ n = config.name ∧ m.pidPlace h.disk = some q := by
      intro n q hmem
      exact (List.mem_append.1 hmem).elim .inl (hconf n q)
    refine ⟨⟨fun n n' q hn hn' => ?_, fun n p q hp hq => ?_⟩, fun n q hmem => ?_⟩
    · rcases hin n q hn, hin n' q hn' with ⟨hk | ⟨rfl, hq⟩, hk' | ⟨rfl, hq'⟩⟩
      · exact htracked.apart n n' q hk hk'
      · exact hown n q hk hq'
      · exact (hown n' q hk' hq).symm
      · rfl
    · exact List.mem_append_right _ (mem_configured.2 ⟨p, hp, hq⟩)
    · have hno : ∀ q p, ¬Live h config.name q p := by
        intro q p hl
        exact nomatch hnone.symm.trans hl.entry
      by_cases hn : n = config.name
      · subst hn
        rcases hin _ q hmem with hk | ⟨-, hq⟩
        · exact hstarts.own (.inl hk) fun _ => ⟨hall _ q hk, hno q⟩
        · exact hstarts.own (.inr hq) fun hne => (hne hq).elim
      · have hk := (hin n q hmem).resolve_right fun hq => hn hq.1
        exact (hstarts.others hn hk fun hq => hn (hown n q hk hq)).2 (hall n q hk)

/-- What `delete` leaves: no entry, and no PID file where the app had one. -/
theorem delete_outcome (hstands : ∀ p path, h.processMgr.lookup name = some p →
      p.config.pidFile = some path → (h.disk.fileAt (Oci.placeOf h.disk path)).isSome →
      ∃ t, removeFile path h.disk = .ok () t) :
    (h.processMgr.lookup name = none ∧ final (delete name) h = h) ∨
    ∃ p t, h.processMgr.lookup name = some p ∧
      final (delete name) h = ⟨h.processMgr.erase name, t⟩ ∧ t.cwd = h.disk.cwd ∧
      ∀ q, t.fileAt q = if p.pidPlace h.disk = some q then none else h.disk.fileAt q := by
  cases hp : h.processMgr.lookup name with
  | none => exact .inl ⟨rfl, final_of_error (delete_of_none hp)⟩
  | some p =>
    refine .inr ⟨p, ?_⟩
    unfold delete getProcess
    rw [final_bind, run_get_bind, hp]
    cases hpath : p.config.pidFile with
    | none =>
      refine ⟨h.disk, rfl, ?_, rfl, fun q => ?_⟩
      · simp only [run_pure, hpath]
        rfl
      · rw [ManagedProcess.pidPlace, hpath]
        rfl
    | some path =>
      have hremoved : (final (removeFile path) h.disk).cwd = h.disk.cwd ∧
          ∀ q, (final (removeFile path) h.disk).fileAt q =
            if q = Oci.placeOf h.disk path then none else h.disk.fileAt q := by
        cases hfile : h.disk.fileAt (Oci.placeOf h.disk path) with
        | none =>
          rw [removeFile_of_absent hfile]
          refine ⟨rfl, fun q => ?_⟩
          by_cases hq : q = Oci.placeOf h.disk path
          · rw [if_pos hq, hq, hfile]
          · rw [if_neg hq]
        | some content =>
          obtain ⟨t, hrun⟩ := hstands p path hp hpath (by rw [hfile]; rfl)
          rw [final_of_ok hrun]
          exact fileAt_removeFile hrun
      refine ⟨final (removeFile path) h.disk, rfl, ?_, hremoved.1, fun q => ?_⟩
      · simp only [run_pure, hpath]
        rfl
      · rw [hremoved.2 q, ite_pidPlace hpath]

theorem tracked_delete (htracked : Tracked known h)
    (hstands : ∀ p path, h.processMgr.lookup name = some p → p.config.pidFile = some path →
      (h.disk.fileAt (Oci.placeOf h.disk path)).isSome →
      ∃ t, removeFile path h.disk = .ok () t) :
    Tracked known (final (delete name) h) := by
  rcases delete_outcome hstands with ⟨-, hrun⟩ | ⟨p, t, -, hrun, hcwd, -⟩
  · rwa [hrun]
  · rw [hrun]
    refine ⟨htracked.apart, fun n p' q hp hplace => ?_⟩
    rw [ProcessManager.lookup_erase] at hp
    rw [pidPlace_congr hcwd] at hplace
    by_cases hn : n = name
    · rw [if_pos hn] at hp
      cases hp
    · rw [if_neg hn] at hp
      exact htracked.covers n p' q hp hplace

/-- `delete` keeps every PID file exact: it takes the child and the file. -/
theorem allExact_delete (htracked : Tracked known h) (hall : AllExact known h)
    (hstands : ∀ p path, h.processMgr.lookup name = some p → p.config.pidFile = some path →
      (h.disk.fileAt (Oci.placeOf h.disk path)).isSome →
      ∃ t, removeFile path h.disk = .ok () t) :
    AllExact known (final (delete name) h) := by
  rcases delete_outcome hstands with ⟨-, hrun⟩ | ⟨p, t, hp, hrun, hcwd, hfiles⟩
  · rwa [hrun]
  · rw [hrun]
    intro n q hmem
    by_cases hn : n = name
    · subst hn
      have hno : ∀ p', ¬Live ⟨h.processMgr.erase n, t⟩ n q p' := by
        intro p' hl
        have hentry := hl.entry
        rw [ProcessManager.lookup_erase, if_pos rfl] at hentry
        cases hentry
      rw [exact_of_not_live hno]
      change t.fileAt q = none
      rw [hfiles q]
      by_cases hplace : p.pidPlace h.disk = some q
      · rw [if_pos hplace]
      · rw [if_neg hplace]
        refine (hall n q hmem).gone fun p' hl => hplace ?_
        obtain rfl := hl.entry_eq hp
        exact hl.place
    · have hplace : p.pidPlace h.disk ≠ some q := fun hq =>
        hn (htracked.apart n name q hmem (htracked.covers name p q hp hq))
      refine (exact_congr ?_ hcwd ?_).2 (hall n q hmem)
      · rw [ProcessManager.lookup_erase, if_neg hn]
      · change t.fileAt q = _
        rw [hfiles q, if_neg hplace]

/-- `kill_all` takes every child and leaves every file. -/
theorem killAll_allExact_iff (htracked : Tracked known h) (hall : AllExact known h) :
    AllExact known (final killAll h) ↔
      ∀ name p, h.processMgr.lookup name = some p → ¬HasPidFile p := by
  have hno : ∀ n q p, ¬Live (final killAll h) n q p := fun n q p hl => nomatch hl.entry
  constructor
  · intro hafter name p hp hpid
    obtain ⟨q, hmem, hl⟩ := hpid.live htracked hp
    exact (hall name q hmem).isSome hl ((exact_of_not_live (hno name q)).1 (hafter name q hmem))
  · intro hnone n q hmem
    rw [exact_of_not_live (hno n q)]
    exact (hall n q hmem).gone fun p hl => hnone n p hl.entry hl.hasPidFile

/-! ## Runs -/

theorem tracked_step (s : PidHost) (op : PidOp) (htracked : Tracked s.known s.host)
    (hstands : Stands s op) (hall : AllExact s.known s.host) :
    Tracked (machine.next s op).known (machine.next s op).host := by
  cases op with
  | spawnProcess launch config =>
    exact (allExact_spawnProcess launch config htracked hall hstands.1 hstands.2).1
  | restart launch name => exact (tracked_restart launch htracked hstands).append
  | checkAndRestart tick => exact (tracked_tick tick htracked hstands).append
  | delete name => exact (tracked_delete htracked hstands).append
  | killAll => exact Tracked.append ⟨htracked.apart, fun n p q hp _ => nomatch hp⟩

theorem allExact_step_iff (s : PidHost) (op : PidOp) (htracked : Tracked s.known s.host)
    (hstands : Stands s op) (hall : AllExact s.known s.host) :
    AllExact (machine.next s op).known (machine.next s op).host ↔ LosesNoChild s op := by
  cases op with
  | spawnProcess launch config =>
    exact iff_of_true
      (allExact_spawnProcess launch config htracked hall hstands.1 hstands.2).2 trivial
  | restart launch name =>
    have htracked' := tracked_restart launch htracked hstands
    exact (allExact_append (mem_known_of_configured htracked')).trans
      (restart_allExact_iff launch htracked hstands hall)
  | checkAndRestart tick =>
    have htracked' := tracked_tick tick htracked hstands
    exact (allExact_append (mem_known_of_configured htracked')).trans
      (tick_allExact_iff tick htracked hstands hall)
  | delete name =>
    have htracked' := tracked_delete htracked hstands
    exact iff_of_true ((allExact_append (mem_known_of_configured htracked')).2
      (allExact_delete htracked hall hstands)) trivial
  | killAll =>
    have htracked' : Tracked s.known (final killAll s.host) :=
      ⟨htracked.apart, fun n p q hp _ => nomatch hp⟩
    exact (allExact_append (mem_known_of_configured htracked')).trans
      (killAll_allExact_iff htracked hall)

/-- The manager that has just started, on a disk. -/
def initial (t : FileTree) : PidHost := ⟨⟨.empty, t⟩, []⟩

/-- In every run, the PID file of every app is there exactly while the app has a child, and then
holds its pid, exactly if no app with a PID file loses its child other than by a delete or by a
restart whose launch succeeds. -/
theorem allExact_throughout_iff (t : FileTree) (ops : List PidOp)
    (hstands : machine.Along Stands (initial t) ops) :
    machine.Throughout (fun s => AllExact s.known s.host) (initial t) ops ↔
      machine.Along LosesNoChild (initial t) ops := by
  refine Machine.throughout_iff_along (I := fun s => Tracked s.known s.host)
    (fun s op ht hs hall _ => tracked_step s op ht hs hall)
    (fun s op ht hs hall => allExact_step_iff s op ht hs hall) ?_ ?_ hstands
  · refine ⟨fun n n' q hmem => ?_, fun n p q hp => ?_⟩
    · exact nomatch hmem
    · exact nomatch hp
  · intro n q hmem
    exact nomatch hmem

/-! ## Runs of one command -/

/-- A command with a PID file. -/
def pidJob : ProcessConfig := { ProcessConfig.plain "job" "sleep" with pidFile := some "/job.pid" }

/-- A command that is not a path is started without a change of the disk. -/
theorem final_startProcess_command {launch : LaunchOs} {config : ProcessConfig} {t : FileTree}
    (hoci : config.isOci = false) (hpath : t.pathExists config.path = false)
    (hvolumes : config.volumes = []) : final (startProcess launch config) t = t := by
  have hcopy : copyToAppDir config t = .ok config t := by
    unfold copyToAppDir
    by_cases hskip : config.isOci = true ∨ config.spa = true
    · rw [if_pos hskip]
      rfl
    · rw [if_neg hskip, run_get_bind, if_pos (by simp [hpath])]
      rfl
  have himage : prepareImage launch config t = .ok config t := by
    unfold prepareImage
    rw [if_pos (by simp [hoci])]
    rfl
  have hmounts : mountVolumes config t = .ok () t := by
    rw [mountVolumes, hvolumes]
    rfl
  unfold startProcess
  rw [final_bind, hcopy]
  dsimp only
  rw [final_bind, himage]
  dsimp only
  rw [final_bind, hmounts]
  cases hspawn : spawnChild launch config with
  | error e => rfl
  | ok m => rfl

theorem launchStands_pidJob (known : List (String × Place)) {pid : UInt32} {t : FileTree}
    (hpath : t.pathExists "sleep" = false)
    (hpid : (result (startProcess (.serving .null pid) pidJob) t).toOption.bind (·.pid) = some pid)
    (hwrite : result (write "/job.pid" (pidText pid)) t = .ok ()) :
    LaunchStands known (.serving .null pid) pidJob t := by
  have hstill : final (startProcess (.serving .null pid) pidJob) t = t :=
    final_startProcess_command rfl hpath rfl
  refine ⟨fun command pid hspawn => ?_, ?_, fun m t' path pid' hrun hfile hm => ?_⟩
  · cases hspawn
    rfl
  · rw [hstill]
    exact .refl known t
  · rw [final_of_ok hrun] at hstill
    rw [result_of_ok hrun] at hpid
    cases hfile
    obtain rfl : pid' = pid := Option.some.inj (hm.symm.trans hpid)
    rw [hstill]
    exact result_eq_ok hwrite

/-- The start of the command. -/
def startJob : PidOp := .spawnProcess (.serving .null 7) pidJob

theorem stands_startJob : Stands (initial .empty) startJob := by
  refine ⟨fun path hpath name hmem => (nomatch hmem), fun t hdirs => ?_⟩
  have ht := final_of_ok hdirs
  rw [← ht]
  exact launchStands_pidJob [] (by decide +kernel) (by decide +kernel) (by decide +kernel)

/-- The pass that finds that the child has exited well. -/
def jobDone : Tick where
  launch _ := .serving .null 8
  tryWait _ := .exited true

/-- A command that has done its work leaves its PID file. -/
theorem done_leaves_pidFile :
    machine.Along Stands (initial .empty) [startJob, .checkAndRestart jobDone] ∧
    ¬machine.Throughout (fun s => AllExact s.known s.host) (initial .empty)
      [startJob, .checkAndRestart jobDone] := by
  have hrestart : toRestart (machine.next (initial .empty) startJob).host jobDone = [] := by
    decide +kernel
  refine ⟨⟨stands_startJob, ?_, trivial⟩, fun hall => ?_⟩
  · change Machine.Along _ _ _ (toRestart _ _)
    rw [hrestart]
    exact trivial
  · let s := machine.run (initial .empty) [startJob, .checkAndRestart jobDone]
    have hmem : ("job", ["job.pid"]) ∈ s.known := by decide +kernel
    have hchild : (s.host.processMgr.lookup "job").bind (·.child) = none := by decide +kernel
    have hfile : s.host.disk.fileAt ["job.pid"] ≠ none := by decide +kernel
    refine hfile ((hall.end "job" _ hmem).gone fun p hl => ?_)
    rw [hl.entry, Option.bind_some] at hchild
    have hsome := hl.child
    rw [hchild] at hsome
    cases hsome

/-- The host on which the command has been started. -/
def jobStarted : PidHost := machine.next (initial .empty) startJob

/-- The restart of the command with another child. -/
def restartJob : PidOp := .restart (.serving .null 8) "job"

/-- Its config is the one given: the command is not a path to be copied. -/
theorem lookup_jobStarted {p : ManagedProcess}
    (hp : jobStarted.host.processMgr.lookup "job" = some p) : p.config = pidJob := by
  change (final (spawnProcess (.serving .null 7) pidJob) ⟨.empty, .empty⟩).processMgr.lookup "job" =
    some p at hp
  rcases spawnProcess_steps (.serving .null 7) pidJob ⟨.empty, .empty⟩ with
    ⟨e, hrun⟩ | ⟨e, e', t, -, hrun⟩ | ⟨t, hdirs, ⟨e, t', -, hrun⟩ | ⟨-, m, t', hstart, hrun⟩⟩
  · rw [final_of_error hrun] at hp
    cases hp
  · rw [final_of_error hrun] at hp
    cases hp
  · rw [final_of_error hrun] at hp
    cases hp
  · rw [final_of_ok hrun, ProcessManager.lookup_insert] at hp
    cases hp
    have hpath : t.pathExists "sleep" = false := by
      rw [← final_of_ok hdirs]
      decide +kernel
    rw [(startProcess_ok hstart).onLocal rfl, launchPath, if_pos (.inr (.inr hpath))]

theorem stands_restartJob : Stands jobStarted restartJob := by
  intro p hp
  rw [lookup_jobStarted hp]
  exact launchStands_pidJob _ (by decide +kernel) (by decide +kernel) (by decide +kernel)

theorem relaunches_restartJob : LosesNoChild jobStarted restartJob := by
  intro p hp _
  rw [lookup_jobStarted hp]
  have hstarts : (result (startProcess (.serving .null 8) pidJob)
      jobStarted.host.disk).toOption.isSome := by decide +kernel
  cases hrun : startProcess (.serving .null 8) pidJob jobStarted.host.disk with
  | ok m t => exact ⟨m, t, rfl⟩
  | error e t =>
    rw [result, hrun] at hstarts
    cases hstarts

theorem stands_deleteJob : Stands (machine.next jobStarted restartJob) (.delete "job") := by
  intro p path hp hpath _
  have hpidFile : ((machine.next jobStarted restartJob).host.processMgr.lookup "job").map
      (·.config.pidFile) = some (some "/job.pid") := by decide +kernel
  rw [hp, Option.map_some, hpath] at hpidFile
  cases hpidFile
  exact result_eq_ok (by decide +kernel)

/-- The PID file of a command that is started, restarted and deleted is exact all the time. -/
theorem allExact_job : machine.Throughout (fun s => AllExact s.known s.host) (initial .empty)
    [startJob, restartJob, .delete "job"] :=
  (allExact_throughout_iff .empty [startJob, restartJob, .delete "job"]
    ⟨stands_startJob, stands_restartJob, stands_deleteJob, trivial⟩).2
    ⟨trivial, relaunches_restartJob, trivial, trivial⟩

end PidHost
