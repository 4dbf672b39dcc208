import NylonRun.Agreement

/-!
# Ports that are picked for apps

A run whose mapping needs a remap binds a socket to a port that the system chooses and drops it
again, before it takes the lock. Until the app binds that port itself, and whenever the app is
down, the system may choose it for the next run.
-/

open UnixPath FileTree Effect

namespace Server

/-- A run on its way to the lock: what it has set up, and whether its port was picked for it. -/
structure PreparedRun where
  config : ProcessConfig
  pm : PortMapping
  auto : Bool

/-- The part of `handle_run` under the lock (src/server.rs:515-582). -/
def runLocked (os : Os) (st : DaemonState) (run : PreparedRun) : DaemonState × Response :=
  if run.config.spa then runSpa os st run.config run.pm else runProcess os st run.config run.pm

/-- A run is its preparation and then the part under the lock. -/
theorem handleRun_eq (os : Os) (st : DaemonState) (config : ProcessConfig) :
    handleRun os st config = match prepareRun os config with
      | .error e => (st, .error e)
      | .ok (c, pm) => runLocked os st ⟨c, pm, config.portMapping.any needsRemap⟩ := rfl

/-- The launch of a run succeeds, so that its route is set up. -/
def Launches (os : Os) (st : DaemonState) (config : ProcessConfig) : Prop :=
  (result (Process.spawnProcess (os.launch config.name) config) st.toHost).isOk = true

instance (os : Os) (st : DaemonState) (config : ProcessConfig) :
    Decidable (Launches os st config) := inferInstanceAs (Decidable (_ = true))

section

variable {os : Os} {st : DaemonState} {config : ProcessConfig} {pm : PortMapping}

theorem runSpa_routes : (runSpa os st config pm).1.proxyMgr.routes =
    if st.disk.isDir config.path then st.proxyMgr.routes.replace (spaRoute st config pm)
    else st.proxyMgr.routes := by
  cases hdir : st.disk.isDir config.path with
  | false =>
    rw [runSpa_of_not_dir hdir]
    rfl
  | true =>
    rw [if_pos rfl]
    cases hload : (st.proxyMgr.pushRoute (spaRoute st config pm)).loadTls os st.disk
        (spaRoute st config pm) config.ssl with
    | error e =>
      rw [runSpa_of_tls hdir hload]
      rfl
    | ok m =>
      have hroutes : (m.listen pm.publicPort).routes =
          st.proxyMgr.routes.replace (spaRoute st config pm) := by
        rw [ProxyManager.listen_routes, (ProxyManager.loadTls_ok hload).1,
          ProxyManager.pushRoute_routes]
      cases hold : st.processMgr.lookup config.name with
      | some p =>
        rw [runSpa_of_registered hdir hload (by rw [hold]; rfl)]
        exact hroutes
      | none =>
        rw [runSpa_ok hdir hload hold, registerAcme_proxyMgr]
        exact hroutes

theorem runProcess_routes : (runProcess os st config pm).1.proxyMgr.routes =
    if Launches os st config then st.proxyMgr.routes.replace (processRoute config pm)
    else st.proxyMgr.routes := by
  cases hspawn : Process.spawnProcess (os.launch config.name) config st.toHost with
  | error e h =>
    have hfails : ¬Launches os st config := by
      unfold Launches result
      rw [hspawn]
      exact Bool.false_ne_true
    rw [if_neg hfails, runProcess_of_spawn hspawn]
  | ok msg h =>
    have hlaunches : Launches os st config := by
      unfold Launches result
      rw [hspawn]
      rfl
    rw [if_pos hlaunches]
    cases hload : (st.proxyMgr.pushRoute (processRoute config pm)).loadTls os h.disk
        (processRoute config pm) config.ssl with
    | error e =>
      obtain ⟨-, p, -, htable⟩ := lookup_spawned hspawn
      obtain ⟨t, hrun⟩ := runProcess_of_tls (p := p) hspawn hload (by rw [htable]; simp)
      rw [hrun]
      rfl
    | ok m =>
      rw [runProcess_ok hspawn hload, registerAcme_proxyMgr, ProxyManager.listen_routes,
        (ProxyManager.loadTls_ok hload).1, ProxyManager.pushRoute_routes]

end

end Server

/-! ## Routes with a picked port -/

namespace RouteTable

variable {table : RouteTable} {picked : List String} {entry : RouteEntry}

/-- No two routes of apps whose port was picked for them lead to one port. -/
def PickedApart (table : RouteTable) (picked : List String) : Prop :=
  ∀ r ∈ table, ∀ r' ∈ table, r.name ∈ picked → r'.name ∈ picked →
    ∀ port, r.backend = .proxy port → r'.backend = .proxy port → r = r'

/-- Another app whose port was picked for it has a route to the port of an entry. -/
def Taken (table : RouteTable) (picked : List String) (entry : RouteEntry) : Prop :=
  ∃ r ∈ table, r.name ∈ picked ∧ r.name ≠ entry.name ∧ r.backend = entry.backend

instance : Decidable (Taken table picked entry) :=
  inferInstanceAs (Decidable (∃ r ∈ table, _))

theorem PickedApart.subset {table' : RouteTable} (h : PickedApart table picked)
    (hsub : ∀ r ∈ table', r ∈ table) : PickedApart table' picked :=
  fun r hr r' hr' => h r (hsub r hr) r' (hsub r' hr')

/-- A route to a directory, or of an app whose port was not picked, is apart from the others. -/
theorem PickedApart.replace_other {picked' : List String} (h : PickedApart table picked)
    (hsame : ∀ n, n ≠ entry.name → (n ∈ picked' ↔ n ∈ picked))
    (hentry : entry.name ∈ picked' → ∀ port, entry.backend ≠ .proxy port) :
    PickedApart (table.replace entry) picked' := by
  intro r hr r' hr' hpicked hpicked' port hport hport'
  rw [mem_replace] at hr hr'
  rcases hr with ⟨hr, hne⟩ | rfl
  · rcases hr' with ⟨hr', hne'⟩ | rfl
    · exact h r hr r' hr' ((hsame _ hne).1 hpicked) ((hsame _ hne').1 hpicked') port hport hport'
    · exact absurd hport' (hentry hpicked' port)
  · exact absurd hport (hentry hpicked port)

/-- A route with a picked port is apart from the others exactly if none of them leads there. -/
theorem pickedApart_replace_iff (h : PickedApart table picked) {port : UInt16}
    (hport : entry.backend = .proxy port) :
    PickedApart (table.replace entry) (entry.name :: picked) ↔ ¬Taken table picked entry := by
  constructor
  · rintro hapart ⟨r, hr, hpicked, hne, hbackend⟩
    have heq := hapart r (mem_replace.2 (.inl ⟨hr, hne⟩)) entry (mem_replace.2 (.inr rfl))
      (List.mem_cons_of_mem _ hpicked) List.mem_cons_self port
      (hbackend.trans hport) hport
    exact hne (by rw [heq])
  · intro hfree r hr r' hr' hpicked hpicked' port' hlead hlead'
    have hother : ∀ {q : RouteEntry}, q ∈ table → q.name ≠ entry.name →
        q.name ∈ entry.name :: picked → q.name ∈ picked ∧ q.backend ≠ entry.backend := by
      intro q hq hne hpicked
      have hold := (List.mem_cons.1 hpicked).resolve_left hne
      exact ⟨hold, fun hbackend => hfree ⟨q, hq, hold, hne, hbackend⟩⟩
    rw [mem_replace] at hr hr'
    rcases hr with ⟨hr, hne⟩ | rfl
    · obtain ⟨hold, hapart⟩ := hother hr hne hpicked
      rcases hr' with ⟨hr', hne'⟩ | rfl
      · exact h r hr r' hr' hold (hother hr' hne' hpicked').1 port' hlead hlead'
      · exact absurd (hlead.trans hlead'.symm) hapart
    · rcases hr' with ⟨hr', hne'⟩ | rfl
      · exact absurd (hlead'.trans hlead.symm) (hother hr' hne' hpicked').2
      · rfl

end RouteTable

/-! ## Runs that overlap -/

namespace Server

open RouteTable

/-- The daemon with the runs that wait for its lock. The ports that programs on the host have
bound, and the apps whose route leads to a port that was picked for it, are history. -/
structure Overlap where
  daemon : DaemonState
  waiting : List PreparedRun
  bound : Finset UInt16
  picked : List String

/-- What may come next: a run arrives and picks its port, one that waits is given the lock, sockets
are bound and closed, or the daemon takes another step. -/
inductive Move where
  | arrive (os : Os) (config : ProcessConfig)
  | enter (os : Os) (index : Nat)
  | sockets (bound : Finset UInt16)
  | other (e : Event)

namespace Overlap

/-- No run has arrived yet. -/
def start (store : StateStore) (disk : FileTree) : Overlap := ⟨.initial store disk, [], ∅, []⟩

/-- A run that is given the lock. -/
def commit (os : Os) (s : Overlap) (run : PreparedRun) : Overlap × Option Response :=
  let (st, answer) := runLocked os s.daemon run
  let picked :=
    if run.config.spa = true ∨ ¬Launches os s.daemon run.config then s.picked
    else if run.auto then run.config.name :: s.picked
    else s.picked.filter (· ≠ run.config.name)
  ({ s with daemon := st, picked := picked }, some answer)

def step (s : Overlap) : Move → Overlap × Option Response
  | .arrive os config =>
    match prepareRun os config with
    | .error e => (s, some (.error e))
    | .ok (c, pm) =>
      ({ s with waiting := s.waiting ++ [⟨c, pm, config.portMapping.any needsRemap⟩] }, none)
  | .enter os index =>
    match s.waiting[index]? with
    | none => (s, none)
    | some run => { s with waiting := s.waiting.eraseIdx index }.commit os run
  | .sockets bound => ({ s with bound := bound }, none)
  | .other e =>
    let (st, answer) := Daemon.step s.daemon e
    ({ s with daemon := st }, answer)

def machine : Machine Overlap Move (Option Response) := ⟨step⟩

/-- The system picks a port that is not bound at that moment. Every run goes through the lock, and
no update takes an app to another port. -/
def Allowed (s : Overlap) : Move → Prop
  | .arrive os _ => ∀ port ∈ os.freePort.toOption, port ∉ s.bound
  | .other (.request _ (.run _)) | .other (.request _ (.update ..)) => False
  | _ => True

instance (s : Overlap) (m : Move) : Decidable (s.Allowed m) := by
  unfold Allowed
  split
  · exact Option.decidableForallMem _
  · exact .isFalse id
  · exact .isFalse id
  · exact .isTrue trivial

/-- No two live routes with a picked port lead to one backend. -/
def BackendsApart (s : Overlap) : Prop := PickedApart s.daemon.proxyMgr.routes s.picked

/-- A run with a picked port that is launched finds no other picked route to its port. -/
def PortStillFree (s : Overlap) : Move → Prop
  | .enter os index => ∀ run ∈ s.waiting[index]?, run.auto = true →
      run.config.spa = false → Launches os s.daemon run.config →
      ¬Taken s.daemon.proxyMgr.routes s.picked (processRoute run.config run.pm)
  | _ => True

instance (s : Overlap) (m : Move) : Decidable (s.PortStillFree m) := by
  unfold PortStillFree
  split <;> infer_instance

section

variable {s : Overlap} {os : Os}

theorem backendsApart_commit_iff {run : PreparedRun} (h : s.BackendsApart) :
    (commit os s run).1.BackendsApart ↔ (run.auto = true → run.config.spa = false →
      Launches os s.daemon run.config →
        ¬Taken s.daemon.proxyMgr.routes s.picked (processRoute run.config run.pm)) := by
  unfold BackendsApart commit runLocked
  dsimp only
  cases hspa : run.config.spa with
  | true =>
    rw [if_pos rfl, if_pos (.inl rfl), runSpa_routes]
    refine iff_of_true ?_ fun _ hnot => nomatch hnot
    split
    · refine h.replace_other (fun _ _ => Iff.rfl) fun _ port hport => ?_
      cases hport
    · exact h
  | false =>
    rw [if_neg Bool.false_ne_true, runProcess_routes]
    by_cases hlaunches : Launches os s.daemon run.config
    · have hpicks : ¬(false = true ∨ ¬Launches os s.daemon run.config) := by simp [hlaunches]
      rw [if_pos hlaunches, if_neg hpicks]
      cases run.auto with
      | true =>
        rw [if_pos rfl]
        have hiff : PickedApart (s.daemon.proxyMgr.routes.replace (processRoute run.config run.pm))
            (run.config.name :: s.picked) ↔
              ¬Taken s.daemon.proxyMgr.routes s.picked (processRoute run.config run.pm) :=
          pickedApart_replace_iff h rfl
        refine hiff.trans ?_
        simp [hlaunches]
      | false =>
        rw [if_neg Bool.false_ne_true]
        refine iff_of_true (h.replace_other (fun n hne => ?_) fun hmem => ?_) fun hnot => nomatch hnot
        · have hother : n ≠ run.config.name := hne
          rw [List.mem_filter]
          exact and_iff_left (by simpa using hother)
        · simp [processRoute, routeOf] at hmem
    · rw [if_neg hlaunches, if_pos (.inr hlaunches)]
      exact iff_of_true h fun _ _ hnot => absurd hnot hlaunches

/-- Nothing but a run or an update adds a route. -/
theorem routes_other {st : DaemonState} {e : Event}
    (he : ∀ os config, e ≠ .request os (.run config))
    (hu : ∀ os name port ssl acme envFile args image,
      e ≠ .request os (.update name port ssl acme envFile args image)) :
    ∀ r ∈ (Daemon.step st e).1.proxyMgr.routes, r ∈ st.proxyMgr.routes := by
  cases e with
  | tick os =>
    change ∀ r ∈ (st.managed _).1.proxyMgr.routes, _
    rw [DaemonState.managed_fst]
    exact fun _ hr => hr
  | issued hostname cert => exact fun _ hr => hr
  | disk t => exact fun _ hr => hr
  | request os r =>
    cases r with
    | run config => exact absurd rfl (he os config)
    | update name port ssl acme envFile args image =>
      exact (hu os name port ssl acme envFile args image rfl).elim
    | bin config | restart name | reload name =>
      change ∀ r ∈ (st.managed _).1.proxyMgr.routes, _
      rw [DaemonState.managed_fst]
      exact fun _ hr => hr
    | del name =>
      change ∀ r ∈ (handleDel st name).1.proxyMgr.routes, _
      rw [(handleDel_tables st name).2, ProxyManager.removeRoutes_routes]
      exact fun r hr => (RouteTable.mem_without.1 hr).1
    | logs name lines =>
      change ∀ r ∈ (handleRequest os st (.logs name lines)).1.proxyMgr.routes, _
      unfold handleRequest
      dsimp only
      split <;> exact fun _ hr => hr
    | set key value =>
      change ∀ r ∈ (handleSet os st key value).1.proxyMgr.routes, _
      rw [(Daemon.apart_set os st key value).2]
      exact fun _ hr => hr
    | save =>
      change ∀ r ∈ (handleSave os st).1.proxyMgr.routes, _
      rw [(Daemon.apart_save os st).2]
      exact fun _ hr => hr
    | link apiKey =>
      change ∀ r ∈ (handleLink os st apiKey).1.proxyMgr.routes, _
      rw [(Daemon.apart_link os st apiKey).2]
      exact fun _ hr => hr
    | unlink =>
      change ∀ r ∈ (handleUnlink os st).1.proxyMgr.routes, _
      rw [(Daemon.apart_unlink os st).2]
      exact fun _ hr => hr
    | kill =>
      change ∀ r ∈ (handleKill os st).1.proxyMgr.routes, _
      unfold handleKill
      simp only [DaemonState.managed_fst, DaemonState.stored_fst]
      exact fun _ hr => hr
    | ls | «export» | metricsEnable port | metricsDisable => exact fun _ hr => hr

theorem backendsApart_step_iff {m : Move} (hm : s.Allowed m) (h : s.BackendsApart) :
    (machine.next s m).BackendsApart ↔ s.PortStillFree m := by
  cases m with
  | arrive os config =>
    refine iff_of_true ?_ trivial
    change ((s.step (.arrive os config)).1).BackendsApart
    unfold step
    dsimp only
    split <;> exact h
  | enter os index =>
    change ((s.step (.enter os index)).1).BackendsApart ↔ _
    unfold step PortStillFree
    dsimp only
    cases hrun : s.waiting[index]? with
    | none => exact iff_of_true h fun _ hsome => nomatch hsome
    | some run =>
      have hentered : ({ s with waiting := s.waiting.eraseIdx index } : Overlap).BackendsApart := h
      refine (backendsApart_commit_iff hentered).trans ⟨fun hfree run' heq => ?_, fun hfree => ?_⟩
      · cases heq
        exact hfree
      · exact hfree run rfl
  | sockets bound => exact iff_of_true h trivial
  | other e =>
    refine iff_of_true (h.subset (routes_other ?_ ?_)) trivial
    · rintro os config rfl
      exact hm
    · rintro os name port ssl acme envFile args image rfl
      exact hm

/-- In a run of the daemon from any store and disk, however requests overlap, no two live routes
with a picked port lead to one backend exactly if every launched run still finds its port free of
other picked routes. -/
theorem backendsApart_throughout_iff (store : StateStore) (disk : FileTree) (moves : List Move)
    (h : machine.Along Allowed (start store disk) moves) :
    machine.Throughout BackendsApart (start store disk) moves ↔
      machine.Along PortStillFree (start store disk) moves :=
  Machine.throughout_iff_along (I := fun _ => True) (fun _ _ _ _ _ _ => trivial)
    (fun _ _ _ hm hapart => backendsApart_step_iff hm hapart) trivial
    (fun _ hr => nomatch hr) h

end

/-- Two apps, each asked for without a port of its own. -/
def webConfig : ProcessConfig :=
  { ProcessConfig.plain "web" "server" with
    mode := .run, portMapping := some { host := none, publicPort := 80, appPort := none } }

def blogConfig : ProcessConfig :=
  { ProcessConfig.plain "blog" "server" with
    mode := .run, portMapping := some { host := none, publicPort := 81, appPort := none } }

/-- Their runs overlap, with the ports that the system picks. -/
def twoRuns (first second : UInt16) : List Move :=
  [.arrive (.serving 7 first) webConfig, .arrive (.serving 8 second) blogConfig,
    .enter (.serving 7 first) 0, .enter (.serving 8 second) 0]

/-- The system picks two ports. -/
theorem backendsApart_throughout_two :
    machine.Throughout BackendsApart (start .empty .empty) (twoRuns 4000 4001) :=
  (backendsApart_throughout_iff .empty .empty (twoRuns 4000 4001) (by decide +kernel)).2
    (by decide +kernel)

/-- The system picks the same port twice: neither app has bound it yet. -/
theorem two_runs_share_port :
    machine.Along Allowed (start .empty .empty) (twoRuns 4000 4000) ∧
      (machine.run (start .empty .empty) (twoRuns 4000 4000)).daemon.proxyMgr.routes =
        [⟨"web", 80, none, .proxy 4000⟩, ⟨"blog", 81, none, .proxy 4000⟩] ∧
      ¬machine.Throughout BackendsApart (start .empty .empty) (twoRuns 4000 4000) := by
  have hrun : machine.Along Allowed (start .empty .empty) (twoRuns 4000 4000) ∧
      (machine.run (start .empty .empty) (twoRuns 4000 4000)).daemon.proxyMgr.routes =
        [⟨"web", 80, none, .proxy 4000⟩, ⟨"blog", 81, none, .proxy 4000⟩] ∧
      "web" ∈ (machine.run (start .empty .empty) (twoRuns 4000 4000)).picked ∧
      "blog" ∈ (machine.run (start .empty .empty) (twoRuns 4000 4000)).picked := by
    decide +kernel
  obtain ⟨hallowed, hroutes, hweb, hblog⟩ := hrun
  refine ⟨hallowed, hroutes, fun h => ?_⟩
  have hapart := h.end
  generalize machine.run (start .empty .empty) (twoRuns 4000 4000) = s
    at hroutes hweb hblog hapart
  unfold BackendsApart at hapart
  rw [hroutes] at hapart
  have heq := hapart ⟨"web", 80, none, .proxy 4000⟩ List.mem_cons_self
    ⟨"blog", 81, none, .proxy 4000⟩ (List.mem_cons_of_mem _ List.mem_cons_self) hweb hblog 4000 rfl rfl
  exact absurd (congrArg RouteEntry.name heq) (by decide)

end Overlap

end Server
