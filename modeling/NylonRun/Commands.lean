import NylonRun.CloudAgent
import NylonRun.Frames
import NylonRun.Isolation
import NylonRun.Restore

/-!
# What the cloud can do

The agent hands the commands of the cloud to its own daemon as requests (src/cloud.rs:238-270).
There are four of them, restart, reload, del and update: the cloud deals with the apps that are
there and starts no others. It can give an app another port, environment, image, certificate and
other arguments, but not another mode, volume or PID file; and its sandbox changes only as the
launch of an image changes it.
-/

open UnixPath FileTree Effect

/-! ## The sandbox of an app -/

/-- A later config of an app has the bounds of an earlier one. Nothing else is allowed but the
directory of its image. What was denied still is, but for `io` where everything was allowed. -/
structure KeepsBounds (c c' : ProcessConfig) : Prop where
  name : c'.name = c.name
  mode : c'.mode = c.mode
  spa : c'.spa = c.spa
  pidFile : c'.pidFile = c.pidFile
  volumes : c'.volumes = c.volumes
  allowed : ∀ a ∈ c'.allow, a ∈ c.allow ∨ a = join Oci.ociDir c.name
  denied : ∀ d ∈ c.deny, d ∈ c'.deny ∨ d = "io" ∧ "all" ∈ c.allow

namespace KeepsBounds

variable {c c' c'' : ProcessConfig}

theorem refl (c : ProcessConfig) : KeepsBounds c c :=
  ⟨rfl, rfl, rfl, rfl, rfl, fun _ => .inl, fun _ => .inl⟩

theorem trans (h : KeepsBounds c c') (h' : KeepsBounds c' c'') : KeepsBounds c c'' where
  name := h'.name.trans h.name
  mode := h'.mode.trans h.mode
  spa := h'.spa.trans h.spa
  pidFile := h'.pidFile.trans h.pidFile
  volumes := h'.volumes.trans h.volumes
  allowed a ha := by
    rcases h'.allowed a ha with hin | heq
    · exact h.allowed a hin
    · rw [h.name] at heq
      exact .inr heq
  denied d hd := by
    rcases h.denied d hd with hin | hio
    · rcases h'.denied d hin with hin' | ⟨rfl, hall⟩
      · exact .inl hin'
      · rcases h.allowed "all" hall with hall | heq
        · exact .inr ⟨rfl, hall⟩
        · exact absurd heq.symm (Process.extractDir_ne_all c.name)
    · exact .inr hio

/-- The fields that an update replaces are not those of the sandbox. -/
theorem apply (change : Process.ConfigChange) (c : ProcessConfig) :
    KeepsBounds c (change.apply c) :=
  ⟨rfl, rfl, rfl, rfl, rfl, fun _ => .inl, fun _ => .inl⟩

theorem updated (change : Process.ConfigChange) (image : Option (String × String))
    (c : ProcessConfig) : KeepsBounds c (Server.updatedConfig change image c) := by
  unfold Server.updatedConfig
  rcases image with _ | ⟨imgRef, entrypoint⟩
  · exact apply change c
  · exact ⟨rfl, rfl, rfl, rfl, rfl, fun _ => .inl, fun _ => .inl⟩

/-- The launch of an image puts its app into the sandbox, unless everything is allowed. -/
theorem withImage (entrypoint : String) (extraArgs : List String) (c : ProcessConfig) :
    KeepsBounds c (Process.withImage (join Oci.ociDir c.name) entrypoint extraArgs c) := by
  have hne := Process.extractDir_ne_all c.name
  have hsame := Process.sameApp_withImage (join Oci.ociDir c.name) entrypoint extraArgs c
  refine ⟨hsame.name, hsame.mode, hsame.spa, hsame.pidFile, hsame.volumes, ?_, ?_⟩
  · intro a ha
    rw [Process.withImage_allow _ _ _ _ hne] at ha
    split at ha
    · exact .inl (List.mem_of_mem_filter ha)
    · split at ha
      · exact .inl ha
      · exact (List.mem_append.1 ha).imp_right List.mem_singleton.1
  · intro d hd
    rw [Process.withImage_deny _ _ _ _ hne]
    split
    · rename_i hall
      by_cases hio : d = "io"
      · exact .inr ⟨hio, hall⟩
      · exact .inl (List.mem_filter.2 ⟨hd, by simpa using hio⟩)
    · refine .inl ?_
      split
      · exact hd
      · exact List.mem_append_left _ hd

/-- A launch keeps the bounds of the app. -/
theorem started {os : LaunchOs} {config : ProcessConfig} {t : FileTree} {m : ManagedProcess}
    (h : Process.Started os config t m) : KeepsBounds config m.config := by
  cases hoci : config.isOci with
  | false =>
    rw [h.onLocal hoci]
    exact ⟨rfl, rfl, rfl, rfl, rfl, fun _ => .inl, fun _ => .inl⟩
  | true =>
    obtain ⟨e, x, t₁, -, hconfig⟩ := h.onImage hoci
    rw [hconfig]
    exact withImage e x config

end KeepsBounds

/-! ## The apps -/

/-- Every app there is later was there before, and has the bounds that it had. -/
def NoneAdded (m m' : ProcessManager) : Prop :=
  ∀ n p', m'.lookup n = some p' → ∃ p, m.lookup n = some p ∧ KeepsBounds p.config p'.config

namespace NoneAdded

variable {m m' m'' : ProcessManager} {name : String}

theorem refl (m : ProcessManager) : NoneAdded m m := fun _ p hp => ⟨p, hp, .refl p.config⟩

theorem trans (h : NoneAdded m m') (h' : NoneAdded m' m'') : NoneAdded m m'' := by
  intro n p'' hp''
  obtain ⟨p', hp', hnarrow'⟩ := h' n p'' hp''
  obtain ⟨p, hp, hnarrow⟩ := h n p' hp'
  exact ⟨p, hp, hnarrow.trans hnarrow'⟩

theorem insert {p p' : ManagedProcess} (hp : m.lookup name = some p)
    (h : KeepsBounds p.config p'.config) : NoneAdded m (m.insert name p') := by
  intro n q hq
  rw [ProcessManager.lookup_insert] at hq
  by_cases hn : n = name
  · rw [if_pos hn] at hq
    cases hq
    exact ⟨p, hn ▸ hp, h⟩
  · rw [if_neg hn] at hq
    exact ⟨q, hq, .refl q.config⟩

theorem erase (m : ProcessManager) (name : String) : NoneAdded m (m.erase name) := by
  intro n q hq
  rw [ProcessManager.lookup_erase] at hq
  by_cases hn : n = name
  · rw [if_pos hn] at hq
    exact nomatch hq
  · rw [if_neg hn] at hq
    exact ⟨q, hq, .refl q.config⟩

theorem restart (os : LaunchOs) (name : String) (h : Host) :
    NoneAdded h.processMgr (final (Process.restart os name) h).processMgr := by
  cases hp : h.processMgr.lookup name with
  | none =>
    rw [final_of_error (Process.restart_of_none os hp)]
    exact .refl _
  | some p =>
    rcases Process.restart_cases os hp with ⟨e, t, -, hrun⟩ | ⟨m, q, t, hstart, rfl, hrun⟩
    · rw [final_of_error hrun]
      exact insert hp (.refl _)
    · rw [final_of_ok hrun]
      exact insert hp (.started ((Process.startProcess_ok hstart).withCount _))

theorem tick (h : Host) (t : Tick) :
    NoneAdded h.processMgr (Process.tick h t).processMgr := by
  have hchecked : NoneAdded h.processMgr (Process.checked h t).processMgr := by
    intro n q hq
    rw [Process.lookup_checked] at hq
    obtain ⟨p, hp, rfl⟩ := Option.map_eq_some_iff.1 hq
    refine ⟨p, hp, ?_⟩
    have hconfig : (Process.checkEntry (t.tryWait n) p).config = p.config := by
      unfold Process.checkEntry
      split
      · rfl
      · split <;> rfl
    rw [hconfig]
    exact .refl _
  have hrestarts : ∀ names g, NoneAdded g.processMgr
      (final (Process.restartAll t.launch names) g).processMgr := by
    intro names
    induction names with
    | nil => exact fun g => .refl _
    | cons name names ih =>
      intro g
      rw [Process.run_restartAll_cons]
      exact (restart _ name g).trans (ih _)
  rw [Process.tick_eq]
  exact hchecked.trans (hrestarts _ _)

end NoneAdded

namespace Server

variable (os : Os) (st : DaemonState) (name : String)

theorem noneAdded_restartUpdated :
    NoneAdded st.processMgr (restartUpdated os st name).1.processMgr := by
  have hrestart := NoneAdded.restart (os.launch name) name st.toHost
  have hst := DaemonState.managed_fst st (Process.restart (os.launch name) name)
  unfold restartUpdated
  split
  · exact .refl _
  · split <;> rename_i heq <;> rw [heq] at hst <;> subst hst <;> exact hrestart

theorem noneAdded_updateLocked (reroutes : Bool) (change : Process.ConfigChange)
    (image : Option (String × String)) :
    NoneAdded st.processMgr (updateLocked os st name reroutes change image).1.processMgr := by
  cases hp : st.processMgr.lookup name with
  | none =>
    rw [updateLocked_of_none _ change _ hp]
    exact .refl _
  | some p =>
    rw [updateLocked_of_some reroutes change image hp]
    generalize hst : ({ st with processMgr := _ } : DaemonState) = st'
    have hinsert : NoneAdded st.processMgr st'.processMgr := by
      rw [← hst]
      exact .insert hp (.updated change image p.config)
    split
    · obtain ⟨m, hreroute⟩ := reroute_isOk os st' name p.config
      rw [hreroute]
      exact hinsert.trans (noneAdded_restartUpdated os { st' with proxyMgr := m } name)
    · exact hinsert.trans (noneAdded_restartUpdated os st' name)

theorem noneAdded_update (u : UpdateRequest) :
    NoneAdded st.processMgr (handleUpdate os st name u).1.processMgr := by
  unfold handleUpdate
  rw [DaemonState.managed_onDisk]
  cases result (pullUpdate os name u.image) st.disk with
  | error e => exact .refl _
  | ok image =>
    dsimp only
    split
    · exact .refl _
    · exact noneAdded_updateLocked os { st with disk := final (pullUpdate os name u.image) st.disk }
        name u.port.isSome _ image

end Server

namespace CloudAgent

/-- The request that `execute_cloud_command` sends (src/cloud.rs:240-270). -/
def request : CloudAction → Request
  | .restart name => .restart name
  | .reload name => .reload name
  | .del name => .del name
  | .update name port ssl acme envFile args image => .update name port ssl acme envFile args image

/-- The command that a turn of the main loop executes (src/cloud.rs:203-206). -/
def commandOf (os : CloudOs) : SessionEvent → Option CloudAction
  | .received (some (.ok (.text text))) _ =>
    match os.fromStr text with
    | .ok (.command action) => some action
    | _ => none
  | _ => none

/-- The daemon with its agent, which is in a session with the cloud or is not. -/
structure Served where
  st : DaemonState
  connected : Bool

/-- Something that happens to one of the two. A command may fail to reach the daemon by its
socket. -/
inductive ServedEvent where
  | handshake (a : Attempt)
  | turn (e : SessionEvent) (os : Os) (delivered : Bool)
  /-- The agent is told to shut down, or its session is given up (src/cloud.rs:97-100). -/
  | dropped
  | daemon (e : Event)

/-- The request of a command is handled like that of any client. -/
def execute (os : Os) (delivered : Bool) (st : DaemonState) : Option CloudAction → DaemonState
  | some action => if delivered then (Server.handleRequest os st (request action)).1 else st
  | none => st

/-- The agent gets into a session by its key, and out of it as its main loop returns. -/
def serve (cloud : CloudOs) (s : Served) : ServedEvent → Served
  | .handshake a => if s.connected then s else { s with connected := (authenticate cloud a).isOk }
  | .turn e os delivered =>
    if s.connected then
      { st := execute os delivered s.st (commandOf cloud e), connected := (onEvent cloud e).isNone }
    else s
  | .dropped => { s with connected := false }
  | .daemon e => { s with st := Daemon.machine.next s.st e }

def servedMachine (cloud : CloudOs) : Machine Served ServedEvent Unit :=
  ⟨fun s e => (serve cloud s e, ())⟩

/-- What happens to the daemon itself. -/
def ServedEvent.onDaemon : ServedEvent → Option Event
  | .daemon e => some e
  | _ => none

/-- A request of another client of the daemon. -/
def ServedEvent.IsRequest : ServedEvent → Prop
  | .daemon (.request _ _) => True
  | _ => False

/-- What a daemon has kept: its apps are among those that it had, each with its bounds, and the
store, the agent, the metrics server and the hosts whose certificates are renewed are the same. -/
structure Confined (st st' : DaemonState) : Prop extends Server.Settled st st' where
  apps : NoneAdded st.processMgr st'.processMgr
  acme : st'.acmeConfigs = st.acmeConfigs

theorem Confined.refl (st : DaemonState) : Confined st st :=
  ⟨.refl st, .refl _, rfl⟩

theorem Confined.trans {st st' st'' : DaemonState} (h : Confined st st')
    (h' : Confined st' st'') : Confined st st'' where
  store := h'.store.trans h.store
  cloud := h'.cloud.trans h.cloud
  metrics := h'.metrics.trans h.metrics
  exiting := h'.exiting.trans h.exiting
  apps := h.apps.trans h'.apps
  acme := h'.acme.trans h.acme

theorem Confined.of_steady {st st' : DaemonState} (h : Server.Steady st st')
    (happs : NoneAdded st.processMgr st'.processMgr) : Confined st st' :=
  ⟨h.toSettled, happs, h.acme⟩

/-- A command of the cloud, whatever becomes of it. -/
theorem confined_request (os : Os) (st : DaemonState) (action : CloudAction) :
    Confined st (Server.handleRequest os st (request action)).1 := by
  have hrestart (name : String) :
      Confined st (st.managed (Process.restart (os.launch name) name)).1 := by
    refine .of_steady (Server.steady_managed st _) ?_
    rw [DaemonState.managed_fst]
    exact .restart _ name st.toHost
  cases action with
  | restart name | reload name => exact hrestart name
  | del name =>
    refine .of_steady (Server.steady_del name) ?_
    change NoneAdded _ (Server.handleDel st name).1.processMgr
    rw [(Server.handleDel_tables st name).1]
    exact .erase _ name
  | update name port ssl acme envFile args image =>
    exact .of_steady (Server.steady_update name _) (Server.noneAdded_update os st name _)

theorem confined_execute (os : Os) (delivered : Bool) (st : DaemonState)
    (action : Option CloudAction) : Confined st (execute os delivered st action) := by
  cases action with
  | none => exact .refl st
  | some action =>
    cases delivered with
    | true => exact confined_request os st action
    | false => exact .refl st

/-- What the daemon does by itself. -/
theorem confined_daemon (st : DaemonState) {e : Event} (h : ¬(ServedEvent.daemon e).IsRequest) :
    Confined st (Daemon.machine.next st e) := by
  cases e with
  | request os r => exact absurd trivial h
  | tick os =>
    refine .of_steady (Server.steady_managed st _) ?_
    change NoneAdded _ (st.managed (Process.checkAndRestart os.launch os.tryWait)).1.processMgr
    rw [DaemonState.managed_fst]
    exact .tick st.toHost ⟨os.launch, os.tryWait⟩
  | issued hostname cert => exact ⟨⟨rfl, rfl, rfl, rfl⟩, .refl _, rfl⟩
  | disk t => exact ⟨⟨rfl, rfl, rfl, rfl⟩, .refl _, rfl⟩

variable {cloud : CloudOs}

theorem confined_step (s : Served) {e : ServedEvent} (h : ¬e.IsRequest) :
    Confined s.st ((servedMachine cloud).next s e).st := by
  change Confined s.st (serve cloud s e).st
  cases e with
  | handshake a =>
    simp only [serve]
    split <;> exact .refl s.st
  | turn e os delivered =>
    simp only [serve]
    split
    · exact confined_execute os delivered s.st _
    · exact .refl s.st
  | dropped => exact .refl s.st
  | daemon e => exact confined_daemon s.st h

/-- Outside a session, and without a key that is accepted, only what happens to the daemon itself
is a step of it. -/
theorem serve_outside {s : Served} (hout : s.connected = false) {e : ServedEvent}
    (h : ∀ a, e = .handshake a → (authenticate cloud a).isOk = false) :
    (serve cloud s e).connected = false ∧
      (serve cloud s e).st = Daemon.machine.run s.st e.onDaemon.toList := by
  cases e with
  | handshake a =>
    simp only [serve, hout]
    exact ⟨h a rfl, rfl⟩
  | turn e os delivered =>
    simp only [serve, hout]
    exact ⟨hout, rfl⟩
  | dropped => exact ⟨rfl, rfl⟩
  | daemon e => exact ⟨hout, rfl⟩

theorem run_outside {s : Served} (hout : s.connected = false) {events : List ServedEvent}
    (h : ∀ a, .handshake a ∈ events → (authenticate cloud a).isOk = false) :
    ((servedMachine cloud).run s events).st =
      Daemon.machine.run s.st (events.filterMap ServedEvent.onDaemon) := by
  induction events generalizing s with
  | nil => rfl
  | cons e events ih =>
    obtain ⟨hstill, hst⟩ := serve_outside hout fun a ha => h a (ha ▸ List.mem_cons_self)
    have hrest := ih hstill fun a ha => h a (List.mem_cons_of_mem _ ha)
    rw [Machine.run_cons]
    refine hrest.trans ?_
    rw [hst, ← Machine.run_append, List.filterMap_cons]
    cases e.onDaemon <;> rfl

/-- Whatever the cloud sends in any sessions, and whatever the daemon does by itself meanwhile:
if no other client asks for anything, then the apps there are were there before and have the bounds
that they had, and the store, the agent, the metrics server and the hosts to renew are as they were.
Without a session whose key was accepted the cloud does nothing at all. -/
theorem cloud_confined (cloud : CloudOs) (s : Served) (events : List ServedEvent)
    (hlocal : ∀ e ∈ events, ¬e.IsRequest) :
    Confined s.st ((servedMachine cloud).run s events).st ∧
      (s.connected = false →
        (∀ a, .handshake a ∈ events → (authenticate cloud a).isOk = false) →
        ((servedMachine cloud).run s events).st =
          Daemon.machine.run s.st (events.filterMap ServedEvent.onDaemon)) := by
  refine ⟨?_, fun hout h => run_outside hout h⟩
  induction events generalizing s with
  | nil => exact .refl s.st
  | cons e events ih =>
    have hstep : Confined s.st ((servedMachine cloud).next s e).st :=
      confined_step s (hlocal e List.mem_cons_self)
    exact hstep.trans (ih _ fun e he => hlocal e (List.mem_cons_of_mem _ he))

/-- A cloud that asks for the restart of a job in every message but its first. -/
def commanding : CloudOs where
  fromStr text := .ok (if text = "welcome" then .authOk else .command (.restart "job"))
  debug _ := ""

/-- One that turns the key down, and asks for the same then. -/
def rejecting : CloudOs where
  fromStr text :=
    .ok (if text = "welcome" then .error "unknown key" else .command (.restart "job"))
  debug _ := ""

/-- A handshake and a command. -/
def restartsJob : List ServedEvent :=
  [.handshake ⟨.ok (), .ok (), some (.ok (.text "welcome")), []⟩,
    .turn (.received (some (.ok (.text "restart"))) (.ok ())) (.serving 11 4000) true]

/-- The job of a daemon is restarted by the one cloud and not by the other. -/
theorem cloud_confined_job :
    (Confined (Daemon.daemonAfter Daemon.jobRequest)
      ((servedMachine commanding).run ⟨Daemon.daemonAfter Daemon.jobRequest, false⟩ restartsJob).st ∧
      (((servedMachine commanding).run ⟨Daemon.daemonAfter Daemon.jobRequest, false⟩
        restartsJob).st.processMgr.lookup "job").map (·.restartCount) = some 1) ∧
    ((servedMachine rejecting).run ⟨Daemon.daemonAfter Daemon.jobRequest, false⟩ restartsJob).st =
      Daemon.daemonAfter Daemon.jobRequest := by
  have hlocal : ∀ e ∈ restartsJob, ¬e.IsRequest := by
    intro e he
    simp only [restartsJob, List.mem_cons, List.not_mem_nil, or_false] at he
    rcases he with rfl | rfl <;> exact id
  have hconfined : ∀ st : DaemonState,
      Confined st ((servedMachine commanding).run ⟨st, false⟩ restartsJob).st ∧
        ((servedMachine rejecting).run ⟨st, false⟩ restartsJob).st = st := by
    intro st
    refine ⟨(cloud_confined commanding ⟨st, false⟩ restartsJob hlocal).1, ?_⟩
    refine (cloud_confined rejecting ⟨st, false⟩ restartsJob hlocal).2 rfl fun a ha => ?_
    simp only [restartsJob, List.mem_cons, List.not_mem_nil, or_false,
      ServedEvent.handshake.injEq, reduceCtorEq] at ha
    rw [ha]
    rfl
  exact ⟨⟨(hconfined _).1, by decide +kernel⟩, (hconfined _).2⟩

end CloudAgent
