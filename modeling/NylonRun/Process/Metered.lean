import NylonRun.Process.Health

/-!
# The process table and its gauge

The operations of `ProcessManager` with the `managed_processes` gauge of its metrics
(src/metrics.rs:40), and with the history of every entry: how it was inserted, and how often it
has been restarted since. Taken without gauge and history they are the operations of the plain
table.
-/

open UnixPath FileTree Effect

/-- Where an entry of the table comes from. -/
structure Origin where
  bySpa : Bool
  restarts : Nat

structure Metered extends Host where
  gauge : Int
  origins : Dict String Origin

abbrev Metering : Type → Type := EStateM String Metered

namespace Metered

def initial (disk : FileTree) : Metered := ⟨⟨.empty, disk⟩, 0, ∅⟩

/-- An operation of the plain table. -/
def onHost {α : Type} (x : Managed α) : Metering α := fun s =>
  match x s.toHost with
  | .ok a h => .ok a { s with toHost := h }
  | .error e h => .error e { s with toHost := h }

/-- A change of the gauge and of the history. -/
def note (gauge : Int → Int) (origins : Dict String Origin → Dict String Origin) : Metering Unit :=
  modify fun s => { s with gauge := gauge s.gauge, origins := origins s.origins }

/-- One restart more. -/
def countRestart (name : String) (origins : Dict String Origin) : Dict String Origin :=
  match origins.lookup name with
  | some o => origins.insert name { o with restarts := o.restarts + 1 }
  | none => origins

/-- src/process.rs:50-78. -/
def spawnProcess (os : LaunchOs) (config : ProcessConfig) : Metering Unit := do
  let _ ← onHost (Process.spawnProcess os config)
  note (· + 1) (·.insert config.name ⟨false, 0⟩)

/-- src/process.rs:276-297. -/
def registerSpa (config : ProcessConfig) : Metering Unit := do
  let _ ← onHost (Process.registerSpa config)
  note (· + 1) (·.insert config.name ⟨true, 0⟩)

/-- src/process.rs:321-339. -/
def delete (name : String) : Metering Unit := do
  let _ ← onHost (Process.delete name)
  note (· - 1) (·.erase name)

/-- src/process.rs:341-378; the gauge is left alone. -/
def restart (os : LaunchOs) (name : String) : Metering Unit := do
  let _ ← onHost (Process.restart os name)
  note id (countRestart name)

/-- src/process.rs:385-398. -/
def killAll : Metering Unit := do
  let _ ← onHost Process.killAll
  note (fun _ => 0) (fun _ => ∅)

/-- src/process.rs:442-450. -/
def restoreProcesses (launch : String → LaunchOs) (configs : List ProcessConfig) : Metering Unit :=
  forEach configs fun config => attempt (spawnProcess (launch config.name) config)

def restartAll (launch : String → LaunchOs) (names : List String) : Metering Unit :=
  forEach names fun name => attempt (restart (launch name) name)

/-- src/process.rs:560-602. -/
def checkAndRestart (t : Tick) : Metering Unit := do
  let h := (← get).toHost
  onHost (Process.modifyTable fun _ => (Process.checked h t).processMgr)
  restartAll t.launch (Process.toRestart h t)

/-- A call of one of the operations, with what it meets outside. -/
inductive Call where
  | spawnProcess (os : LaunchOs) (config : ProcessConfig)
  | registerSpa (config : ProcessConfig)
  | restoreProcesses (launch : String → LaunchOs) (configs : List ProcessConfig)
  | delete (name : String)
  | restart (os : LaunchOs) (name : String)
  | updateConfig (name : String) (change : Process.ConfigChange)
  | updateOciConfig (name ociReference entrypoint : String)
  | killAll
  | checkAndRestart (tick : Tick)
  /-- The disk as other programs leave it. -/
  | disk (t : FileTree)

def perform : Call → Metering Unit
  | .spawnProcess os config => spawnProcess os config
  | .registerSpa config => registerSpa config
  | .restoreProcesses launch configs => restoreProcesses launch configs
  | .delete name => delete name
  | .restart os name => restart os name
  | .updateConfig name change => do
    let _ ← onHost (Process.updateConfig name change)
  | .updateOciConfig name ociReference entrypoint =>
    onHost (Process.updateOciConfig name ociReference entrypoint)
  | .killAll => killAll
  | .checkAndRestart t => checkAndRestart t
  | .disk t => modify fun s => { s with disk := t }

def machine : Machine Metered Call Unit := ⟨fun s c => (final (perform c) s, ())⟩

/-! ## Without gauge and history -/

/-- The same call of the plain table. -/
def plain : Call → Managed Unit
  | .spawnProcess os config => do let _ ← Process.spawnProcess os config
  | .registerSpa config => do let _ ← Process.registerSpa config
  | .restoreProcesses launch configs => Process.restoreProcesses launch configs
  | .delete name => do let _ ← Process.delete name
  | .restart os name => do let _ ← Process.restart os name
  | .updateConfig name change => do let _ ← Process.updateConfig name change
  | .updateOciConfig name ociReference entrypoint =>
    Process.updateOciConfig name ociReference entrypoint
  | .killAll => do let _ ← Process.killAll
  | .checkAndRestart t => Process.checkAndRestart t.launch t.tryWait
  | .disk t => modify fun h => { h with disk := t }

/-- The metered program has the result of the plain one, and does the same to the host. -/
def Lifts {α : Type} (x : Metering α) (y : Managed α) : Prop :=
  ∀ s, result x s = result y s.toHost ∧ (final x s).toHost = final y s.toHost

theorem run_onHost {α : Type} (x : Managed α) (s : Metered) :
    onHost x s = match x s.toHost with
      | .ok a h => .ok a { s with toHost := h }
      | .error e h => .error e { s with toHost := h } := rfl

theorem lifts_onHost {α : Type} (x : Managed α) : Lifts (onHost x) x := by
  intro s
  unfold result final
  rw [run_onHost]
  cases x s.toHost <;> exact ⟨rfl, rfl⟩

/-- What is noted after an operation does not show. -/
theorem lifts_noted {α : Type} (x : Managed α) (gauge : Int → Int)
    (origins : Dict String Origin → Dict String Origin) :
    Lifts (do let _ ← onHost x; note gauge origins) (do let _ ← x) := by
  intro s
  unfold result final
  simp only [run_bind, run_onHost, run_pure]
  cases x s.toHost <;> exact ⟨rfl, rfl⟩

theorem lifts_attempt_noted {α : Type} (x : Managed α) (gauge : Int → Int)
    (origins : Dict String Origin → Dict String Origin) :
    Lifts (attempt (do let _ ← onHost x; note gauge origins)) (attempt x) := by
  intro s
  refine ⟨rfl, ?_⟩
  unfold attempt final
  simp only [run_bind, run_onHost]
  cases x s.toHost <;> rfl

theorem Lifts.bind {α β : Type} {x : Metering α} {y : Managed α} {f : α → Metering β}
    {g : α → Managed β} (hx : Lifts x y) (hf : ∀ a, Lifts (f a) (g a)) :
    Lifts (x >>= f) (y >>= g) := by
  intro s
  obtain ⟨hresult, hfinal⟩ := hx s
  unfold result at hresult
  unfold final at hfinal
  unfold result final
  simp only [run_bind]
  cases hxs : x s with
  | ok a s' =>
    cases hys : y s.toHost with
    | ok b h =>
      rw [hxs, hys] at hresult hfinal
      cases hresult
      obtain rfl : s'.toHost = h := hfinal
      exact hf a s'
    | error e h =>
      rw [hxs, hys] at hresult
      cases hresult
  | error e s' =>
    cases hys : y s.toHost with
    | ok b h =>
      rw [hxs, hys] at hresult
      cases hresult
    | error e' h =>
      rw [hxs, hys] at hresult hfinal
      exact ⟨by cases hresult; rfl, hfinal⟩

theorem lifts_forEach {β : Type} {f : β → Metering Unit} {g : β → Managed Unit}
    (h : ∀ b, Lifts (f b) (g b)) (bs : List β) : Lifts (forEach bs f) (forEach bs g) := by
  induction bs with
  | nil => exact fun s => ⟨rfl, rfl⟩
  | cons b bs ih => exact (h b).bind fun _ => ih

/-- Every call does to the host what the operation of the plain table does. -/
theorem toHost_perform (c : Call) (s : Metered) :
    (final (perform c) s).toHost = final (plain c) s.toHost := by
  cases c with
  | spawnProcess os config => exact (lifts_noted _ _ _ s).2
  | registerSpa config => exact (lifts_noted _ _ _ s).2
  | delete name => exact (lifts_noted _ _ _ s).2
  | restart os name => exact (lifts_noted _ _ _ s).2
  | killAll => exact (lifts_noted _ _ _ s).2
  | updateConfig name change =>
    have hlifts : Lifts (perform (.updateConfig name change)) (plain (.updateConfig name change)) :=
      (lifts_onHost (Process.updateConfig name change)).bind fun _ _ => ⟨rfl, rfl⟩
    exact (hlifts s).2
  | updateOciConfig name ociReference entrypoint =>
    exact (lifts_onHost (Process.updateOciConfig name ociReference entrypoint) s).2
  | restoreProcesses launch configs =>
    exact (lifts_forEach (fun config : ProcessConfig => lifts_attempt_noted
      (Process.spawnProcess (launch config.name) config) _ _) configs s).2
  | checkAndRestart t =>
    exact (lifts_forEach (fun name => lifts_attempt_noted (Process.restart (t.launch name) name) _ _)
      (Process.toRestart s.toHost t) { s with toHost := Process.checked s.toHost t }).2
  | disk t => rfl

/-! ## The entries -/

/-- The entry stands under its own name and counts its restarts, below `2 ^ 32`. -/
structure Known (name : String) (p : ManagedProcess) (o : Origin) : Prop where
  key : p.config.name = name
  count : o.restarts < 2 ^ 32 → p.restartCount.toNat = o.restarts

/-- The fields of an entry agree: a child has a pid and is running, what is running has a child or
comes from an SPA, and what is stopped has neither child nor pid. -/
structure EntryOk (name : String) (p : ManagedProcess) (o : Origin) : Prop
    extends Known name p o where
  pid : p.pid.isSome = p.child.isSome
  running : p.child.isSome = true → p.status = .running
  child : p.status = .running → p.child.isSome = true ∨ o.bySpa = true
  stopped : p.status = .stopped → p.child.isNone = true ∧ p.pid.isNone = true

/-- Every entry is in order, and the gauge is the number of entries. -/
structure Consistent (s : Metered) : Prop where
  entries : ∀ n p, s.processMgr.lookup n = some p →
    ∃ o, s.origins.lookup n = some o ∧ EntryOk n p o
  gauge : s.gauge = s.processMgr.processes.size

/-- The same where some entries are still to be restarted. -/
structure Pending (names : List String) (s : Metered) : Prop where
  entries : ∀ n p, s.processMgr.lookup n = some p →
    ∃ o, s.origins.lookup n = some o ∧ Known n p o ∧ (n ∉ names → EntryOk n p o)
  gauge : s.gauge = s.processMgr.processes.size

theorem Pending.consistent {s : Metered} (h : Pending [] s) : Consistent s := by
  refine ⟨fun n p hp => ?_, h.gauge⟩
  obtain ⟨o, ho, -, hok⟩ := h.entries n p hp
  exact ⟨o, ho, hok List.not_mem_nil⟩

theorem Consistent.pending {s : Metered} (h : Consistent s) (names : List String) :
    Pending names s := by
  refine ⟨fun n p hp => ?_, h.gauge⟩
  obtain ⟨o, ho, hok⟩ := h.entries n p hp
  exact ⟨o, ho, hok.toKnown, fun _ => hok⟩

/-- A child that was just spawned has an id. -/
def HasId (os : LaunchOs) : Prop := ∀ command pid, os.spawn command = .ok pid → pid.isSome = true

/-- What a launch leaves in the entry. -/
theorem startProcess_fields {os : LaunchOs} {config : ProcessConfig} {t t' : FileTree}
    {m : ManagedProcess} (hid : HasId os) (h : Process.startProcess os config t = .ok m t') :
    m.child.isSome = true ∧ m.pid.isSome = true ∧ m.status = .running ∧ m.restartCount = 0 := by
  unfold Process.startProcess at h
  obtain ⟨c₁, t₁, -, h⟩ := bind_ok h
  obtain ⟨c₂, t₂, -, h⟩ := bind_ok h
  obtain ⟨_, t₃, -, h⟩ := bind_ok h
  cases hspawn : Process.spawnChild os c₂ with
  | error e =>
    rw [hspawn] at h
    cases h
  | ok m' =>
    rw [hspawn] at h
    cases h
    unfold Process.spawnChild at hspawn
    cases hrestrict : Process.restrict os.kernel (Process.command c₂) with
    | error e =>
      rw [hrestrict] at hspawn
      cases hspawn
    | ok restrictions =>
      cases hpid : os.spawn (Process.command c₂) with
      | error e =>
        rw [hrestrict, hpid] at hspawn
        cases hspawn
      | ok pid =>
        rw [hrestrict, hpid] at hspawn
        cases hspawn
        exact ⟨rfl, hid _ _ hpid, rfl, rfl⟩

/-- A started entry is in order, whatever its count. -/
theorem entryOk_started {os : LaunchOs} {config : ProcessConfig} {t t' : FileTree}
    {m : ManagedProcess} {o : Origin} (hid : HasId os)
    (h : Process.startProcess os config t = .ok m t') {count : UInt32}
    (hcount : o.restarts < 2 ^ 32 → count.toNat = o.restarts) :
    EntryOk config.name { m with restartCount := count } o := by
  obtain ⟨hchild, hpid, hrunning, -⟩ := startProcess_fields hid h
  refine ⟨⟨(Process.startProcess_ok h).same.name, hcount⟩, ?_, fun _ => hrunning,
    fun _ => .inl hchild, fun hstopped => ?_⟩
  · exact hpid.trans hchild.symm
  · have hrunning : ({ m with restartCount := count } : ManagedProcess).status = .running := hrunning
    rw [hrunning] at hstopped
    cases hstopped

theorem Known.killed {name : String} {p : ManagedProcess} {o : Origin} (h : Known name p o) :
    EntryOk name p.killChild o := by
  refine ⟨⟨h.key, h.count⟩, rfl, fun hchild => ?_, fun hrunning => ?_, fun _ => ⟨rfl, rfl⟩⟩
  · cases hchild
  · cases hrunning

/-! ## The operations -/

section

variable {s : Metered} {names : List String} {name : String}

/-- A new entry, with the gauge one up. -/
theorem Consistent.enter {p : ManagedProcess} {o : Origin} {disk : FileTree} (h : Consistent s)
    (hfree : s.processMgr.lookup name = none) (hok : EntryOk name p o) :
    Consistent ⟨⟨s.processMgr.insert name p, disk⟩, s.gauge + 1, s.origins.insert name o⟩ := by
  refine ⟨fun n q hq => ?_, ?_⟩
  · have hq : (s.processMgr.insert name p).lookup n = some q := hq
    change ∃ o', (s.origins.insert name o).lookup n = some o' ∧ _
    rw [ProcessManager.lookup_insert] at hq
    rw [Dict.lookup_insert_eq]
    by_cases hn : n = name
    · rw [if_pos hn] at hq ⊢
      cases hq
      rw [hn]
      exact ⟨o, rfl, hok⟩
    · rw [if_neg hn] at hq ⊢
      exact h.entries n q hq
  · change s.gauge + 1 = ((Dict.size (s.processMgr.processes.insert name p) : Nat) : Int)
    rw [Dict.size_insert_of_notMem p (AList.lookup_eq_none.1 hfree), h.gauge]
    rfl

/-- An entry replaced by one that is in order. -/
theorem Pending.replace {p q : ManagedProcess} {o : Origin} {disk : FileTree}
    {origins : Dict String Origin} (h : Pending (name :: names) s)
    (hp : s.processMgr.lookup name = some p)
    (horigins : ∀ n, origins.lookup n = if n = name then some o else s.origins.lookup n)
    (hok : EntryOk name q o) :
    Pending names ⟨⟨s.processMgr.insert name q, disk⟩, s.gauge, origins⟩ := by
  refine ⟨fun n r hr => ?_, ?_⟩
  · have hr : (s.processMgr.insert name q).lookup n = some r := hr
    change ∃ o', origins.lookup n = some o' ∧ _
    rw [ProcessManager.lookup_insert] at hr
    rw [horigins]
    by_cases hn : n = name
    · rw [if_pos hn] at hr ⊢
      cases hr
      rw [hn]
      exact ⟨o, rfl, hok.toKnown, fun _ => hok⟩
    · rw [if_neg hn] at hr ⊢
      obtain ⟨o', ho', hknown, hrest⟩ := h.entries n r hr
      exact ⟨o', ho', hknown, fun hnames => hrest (by simp [hn, hnames])⟩
  · change s.gauge = ((Dict.size (s.processMgr.processes.insert name q) : Nat) : Int)
    rw [Dict.size_insert_of_mem q (Dict.mem_of_lookup hp), h.gauge]

theorem consistent_spawn {os : LaunchOs} (config : ProcessConfig) (hid : HasId os)
    (h : Consistent s) : Consistent (final (spawnProcess os config) s) := by
  unfold spawnProcess
  rw [final_bind, run_onHost]
  rcases Process.spawnProcess_cases os config s.toHost with
    ⟨e, t, hrun⟩ | ⟨hfree, t, t', m, -, hstart, hrun⟩
  · rw [hrun]
    exact ⟨h.entries, h.gauge⟩
  · rw [hrun]
    refine h.enter hfree ?_
    obtain ⟨-, -, -, hcount⟩ := startProcess_fields hid hstart
    have hok : EntryOk config.name { m with restartCount := m.restartCount } ⟨false, 0⟩ :=
      entryOk_started hid hstart fun _ => by rw [hcount]; rfl
    exact hok

theorem consistent_registerSpa (config : ProcessConfig) (h : Consistent s) :
    Consistent (final (registerSpa config) s) := by
  unfold registerSpa
  rw [final_bind, run_onHost]
  cases hp : s.processMgr.lookup config.name with
  | some p =>
    rw [Process.registerSpa_of_some (h := s.toHost) (by rw [hp]; rfl)]
    exact h
  | none =>
    rw [Process.registerSpa_of_none (h := s.toHost) hp]
    refine h.enter hp ⟨⟨rfl, fun _ => rfl⟩, rfl, fun hchild => ?_, fun _ => .inr rfl,
      fun hstopped => ?_⟩
    · cases hchild
    · cases hstopped

theorem consistent_delete (name : String) (h : Consistent s) :
    Consistent (final (delete name) s) := by
  unfold delete
  rw [final_bind, run_onHost]
  cases hp : s.processMgr.lookup name with
  | none =>
    rw [Process.delete_of_none (h := s.toHost) hp]
    exact h
  | some p =>
    obtain ⟨t, hrun⟩ := Process.delete_of_some (h := s.toHost) hp
    rw [hrun]
    refine ⟨fun n q hq => ?_, ?_⟩
    · have hq : (s.processMgr.erase name).lookup n = some q := hq
      change ∃ o, (s.origins.erase name).lookup n = some o ∧ _
      rw [ProcessManager.lookup_erase] at hq
      rw [Dict.lookup_erase_eq]
      by_cases hn : n = name
      · rw [if_pos hn] at hq
        cases hq
      · rw [if_neg hn] at hq ⊢
        exact h.entries n q hq
    · change s.gauge - 1 = ((Dict.size (s.processMgr.processes.erase name) : Nat) : Int)
      have hsize := Dict.size_erase_of_mem (Dict.mem_of_lookup hp)
      rw [h.gauge]
      omega

/-- A restart puts its entry in order: it is stopped, or started and counted. -/
theorem pending_restart {os : LaunchOs} (hid : HasId os) (h : Pending (name :: names) s) :
    Pending names (final (restart os name) s) := by
  unfold restart
  rw [final_bind, run_onHost]
  cases hp : s.processMgr.lookup name with
  | none =>
    rw [Process.restart_of_none os (h := s.toHost) hp]
    refine ⟨fun n p hn => ?_, h.gauge⟩
    obtain ⟨o, ho, hknown, hrest⟩ := h.entries n p hn
    refine ⟨o, ho, hknown, fun hnames => hrest ?_⟩
    rw [List.mem_cons, not_or]
    refine ⟨?_, hnames⟩
    rintro rfl
    have hn : s.processMgr.lookup n = some p := hn
    rw [hp] at hn
    cases hn
  | some p =>
    obtain ⟨o, ho, hknown, -⟩ := h.entries name p hp
    rcases Process.restart_cases os (h := s.toHost) hp with
      ⟨e, t, -, hrun⟩ | ⟨m, q, t, hstart, rfl, hrun⟩
    · rw [hrun]
      refine h.replace hp (o := o) (fun n => ?_) hknown.killed
      by_cases hn : n = name
      · rw [if_pos hn, hn]
        exact ho
      · rw [if_neg hn]
    · rw [hrun]
      refine h.replace hp (o := { o with restarts := o.restarts + 1 }) (fun n => ?_) ?_
      · change (countRestart name s.origins).lookup n = _
        unfold countRestart
        rw [ho, Dict.lookup_insert_eq]
      · rw [← hknown.key]
        refine entryOk_started hid hstart fun hbound => ?_
        have hbound : o.restarts + 1 < 2 ^ 32 := hbound
        have hcount := hknown.count (by omega)
        rw [UInt32.toNat_add, hcount]
        exact Nat.mod_eq_of_lt hbound

theorem pending_restartAll {launch : String → LaunchOs} (hid : ∀ name, HasId (launch name))
    (h : Pending names s) : Pending [] (final (restartAll launch names) s) := by
  induction names generalizing s with
  | nil => exact h
  | cons name names ih => exact ih (pending_restart (hid name) h)

theorem consistent_restoreProcesses {launch : String → LaunchOs}
    (hid : ∀ name, HasId (launch name)) (configs : List ProcessConfig) (h : Consistent s) :
    Consistent (final (restoreProcesses launch configs) s) := by
  induction configs generalizing s with
  | nil => exact h
  | cons config configs ih => exact ih (consistent_spawn config (hid config.name) h)

/-- The config of an entry replaced, under the same name. -/
theorem consistent_modifyConfig {f : ProcessConfig → ProcessConfig}
    (hf : ∀ config, (f config).name = config.name) (h : Consistent s) :
    Consistent { s with processMgr := Process.modifyConfig name f s.processMgr } := by
  unfold Process.modifyConfig
  cases hp : s.processMgr.lookup name with
  | none => exact h
  | some p =>
    obtain ⟨o, ho, hok⟩ := h.entries name p hp
    refine ((h.pending [name]).replace hp (o := o) (fun n => ?_) ?_).consistent
    · by_cases hn : n = name
      · rw [if_pos hn, hn, ho]
      · rw [if_neg hn]
    · exact ⟨⟨(hf p.config).trans hok.key, hok.count⟩, hok.pid, hok.running, hok.child, hok.stopped⟩

/-- A pass puts every entry in order that it does not restart. -/
theorem pending_checked (t : Tick) (h : Consistent s) :
    Pending (Process.toRestart s.toHost t) { s with toHost := Process.checked s.toHost t } := by
  refine ⟨fun n q hq => ?_, ?_⟩
  · have hq : (Process.checked s.toHost t).processMgr.lookup n = some q := hq
    rw [Process.lookup_checked] at hq
    obtain ⟨p, hp, rfl⟩ := Option.map_eq_some_iff.1 hq
    obtain ⟨o, ho, hok⟩ := h.entries n p hp
    refine ⟨o, ho, ?_⟩
    unfold Process.checkEntry
    by_cases hskip : p.status ≠ .running ∨ p.child.isNone
    · rw [if_pos hskip]
      exact ⟨hok.toKnown, fun _ => hok⟩
    · rw [if_neg hskip]
      cases hwait : t.tryWait n with
      | running => exact ⟨hok.toKnown, fun _ => hok⟩
      | failed e => exact ⟨hok.toKnown, fun _ => hok⟩
      | exited success =>
        cases success with
        | true =>
          refine ⟨⟨hok.key, hok.count⟩, fun _ => ⟨⟨hok.key, hok.count⟩, rfl, fun hchild => ?_,
            fun hrunning => ?_, fun _ => ⟨rfl, rfl⟩⟩⟩
          · cases hchild
          · cases hrunning
        | false =>
          refine ⟨⟨hok.key, hok.count⟩, fun hnot => absurd ?_ hnot⟩
          rw [not_or, not_not] at hskip
          have hchild : p.child.isSome = true :=
            Option.isSome_iff_ne_none.2 (by simpa using hskip.2)
          exact Process.mem_toRestart.2 ⟨p, hp, by simp [Process.crashed, hskip.1, hchild, hwait]⟩
  · change s.gauge = ((Dict.size (Dict.mapValues _ s.processMgr.processes) : Nat) : Int)
    rw [Dict.size_mapValues, h.gauge]

end

/-! ## Runs -/

/-- The launches of a call give children with ids. -/
def HasIds : Call → Prop
  | .spawnProcess os _ | .restart os _ => HasId os
  | .restoreProcesses launch _ => ∀ name, HasId (launch name)
  | .checkAndRestart t => ∀ name, HasId (t.launch name)
  | _ => True

theorem consistent_perform {s : Metered} {c : Call} (h : Consistent s) (hid : HasIds c) :
    Consistent (final (perform c) s) := by
  cases c with
  | spawnProcess os config => exact consistent_spawn config hid h
  | registerSpa config => exact consistent_registerSpa config h
  | restoreProcesses launch configs => exact consistent_restoreProcesses hid configs h
  | delete name => exact consistent_delete name h
  | restart os name => exact (pending_restart hid (h.pending [name])).consistent
  | updateConfig name change =>
    have hrun : final (perform (.updateConfig name change)) s =
        { s with processMgr := Process.modifyConfig name change.apply s.processMgr } := by
      change final (onHost (Process.updateConfig name change) >>= fun _ => pure ()) s = _
      rw [final_bind, run_onHost]
      cases hp : s.processMgr.lookup name with
      | none => rw [Process.updateConfig_of_none change (h := s.toHost) hp, Process.modifyConfig, hp]
      | some p =>
        rw [Process.updateConfig_of_some change (h := s.toHost) hp,
          Process.modifyConfig_of_some change.apply hp]
        rfl
    rw [hrun]
    exact consistent_modifyConfig (fun _ => rfl) h
  | updateOciConfig name ociReference entrypoint =>
    exact consistent_modifyConfig (fun _ => rfl) h
  | killAll =>
    refine ⟨fun n p hp => ?_, rfl⟩
    cases hp
  | checkAndRestart t => exact (pending_restartAll hid (pending_checked t h)).consistent
  | disk t => exact ⟨h.entries, h.gauge⟩

theorem consistent_initial (disk : FileTree) : Consistent (initial disk) := by
  refine ⟨fun n p hp => ?_, rfl⟩
  cases hp

/-- In every state that a run of calls reaches from an empty table, every entry is in order and
the gauge is the number of entries. -/
theorem consistent_throughout (disk : FileTree) (calls : List Call)
    (h : machine.Along (fun _ c => HasIds c) (initial disk) calls) :
    machine.Throughout Consistent (initial disk) calls :=
  Machine.throughout_of_invariant (fun _ _ => consistent_perform) (consistent_initial disk) h

theorem hasId_serving (image : Json) (pid : UInt32) : HasId (.serving image pid) := by
  intro command pid' h
  cases h
  rfl

/-- A job whose child fails and is restarted by the health checker, next to an SPA. -/
def jobCalls : List Call :=
  [.spawnProcess (.serving .null 7) (.plain "job" "run"),
    .registerSpa (.plain "site" "/site"),
    .checkAndRestart ⟨fun _ => .serving .null 8, fun _ => .exited false⟩,
    .delete "site"]

theorem consistent_throughout_job : machine.Throughout Consistent (initial .empty) jobCalls :=
  consistent_throughout .empty jobCalls
    ⟨hasId_serving .null 7, trivial, fun _ => hasId_serving .null 8, trivial, trivial⟩

end Metered
