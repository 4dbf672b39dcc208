import NylonRun.Frames
import NylonRun.Persistence

/-!
# The agent and the stored key

A link writes the key to the store and then starts the agent that uses it, an unlink stops the
agent and then deletes the key, and a daemon that starts reads the key and starts an agent with it
(src/server.rs:174-212, src/daemon.rs:131-143). The two can come apart, since the store may fail
at any of its operations. What is followed here goes over many lives of the daemon: each life ends
by a kill, a crash or a shutdown, and the next one starts on the store that it leaves.
-/

open FileTree Effect

namespace StateStore

variable {s : StateStore}

/-- Operations run one after the other succeed if the first fault comes after the last of them. -/
theorem perform_ok_iff (ops : List (String × (Dict String Stored → Dict String Stored)))
    (s : StateStore) :
    result (forEach ops perform) s = .ok () ↔ ops.length ≤ faultAt s.faults ops.length := by
  induction ops generalizing s with
  | nil => exact iff_of_true rfl (Nat.zero_le _)
  | cons op ops ih =>
    obtain ⟨what, effect⟩ := op
    have hop : perform (what, effect) = operation what effect := rfl
    rw [forEach, hop]
    unfold result faultAt
    rw [run_bind]
    unfold operation
    cases hfaults : s.faults with
    | nil =>
      refine iff_of_true ?_ (Nat.le_refl _)
      exact (ih ⟨effect s.db, [], s.closed⟩).2 (Nat.le_refl _)
    | cons fault rest =>
      cases fault with
      | some e => simp [List.findIdx?_cons]
      | none =>
        refine (ih { s with db := effect s.db, faults := rest }).trans ?_
        unfold faultAt
        cases hfind : rest.findIdx? (·.isSome) with
        | none => simp [List.findIdx?_cons, hfind]
        | some i => simp [List.findIdx?_cons, hfind]

/-! ## What is kept beside the configs -/

/-- Everything in the store but the configs is as it was. -/
def SameBeside (s s' : StateStore) : Prop :=
  ∀ key, Text.startsWith key "config:" = false → s'.db.lookup key = s.db.lookup key

theorem foldl_beside (ops : List (String × (Dict String Stored → Dict String Stored)))
    (db : Dict String Stored) {key : String}
    (h : ∀ op ∈ ops, ∀ db, (op.2 db).lookup key = db.lookup key) :
    (ops.foldl (fun db op => op.2 db) db).lookup key = db.lookup key := by
  induction ops generalizing db with
  | nil => rfl
  | cons op ops ih =>
    rw [List.foldl_cons, ih _ fun op hop => h op (List.mem_cons_of_mem _ hop)]
    exact h op List.mem_cons_self db

/-- A save, wherever it stops, is about the configs alone. -/
theorem sameBeside_save (configs : List ProcessConfig) (s : StateStore) :
    SameBeside s (final (save configs) s) := by
  intro key hkey
  have hsave : final (save configs) s = final (forEach
      (("scan", id) :: saveOperations (keysWithPrefix s.db "config:") configs) perform) s := by
    rw [final, final, save_eq]
  rw [hsave, final_perform]
  refine foldl_beside _ _ fun op hop db => ?_
  rcases List.mem_cons.1 (List.mem_of_mem_take hop) with rfl | hop
  · rfl
  · simp only [saveOperations, List.mem_append, List.mem_map, List.mem_singleton] at hop
    rcases hop with ⟨_, -, rfl⟩ | rfl | ⟨old, hold, rfl⟩ | ⟨config, -, rfl⟩ | rfl
    · rfl
    · rfl
    · have hne : key ≠ old := by
        rintro rfl
        rw [(mem_keysWithPrefix.1 hold).2] at hkey
        cases hkey
      exact (Dict.lookup_erase_eq key).trans (if_neg hne)
    · have hne : key ≠ configKey config.name := by
        rintro rfl
        rw [startsWith_configKey] at hkey
        cases hkey
      exact (Dict.lookup_insert_eq key).trans (if_neg hne)
    · rfl

theorem final_operation_id (what : String) (s : StateStore) :
    (final (operation what id) s).db = s.db := by
  unfold final operation
  rcases s.faults with _ | ⟨_ | e, rest⟩ <;> rfl

theorem final_loadKeys_cons (key : String) (keys : List String) {s' : StateStore}
    (h : operation "iter" id s = .ok () s') :
    final (loadKeys (key :: keys)) s = final (loadKeys keys) s' := by
  unfold final
  rw [loadKeys]
  dsimp only
  rw [h]
  dsimp only
  rcases s.db.lookup key with _ | config | text
  · rfl
  · dsimp only
    rw [run_bind]
    cases loadKeys keys s' <;> rfl
  · rfl

theorem final_loadKeys (keys : List String) (s : StateStore) :
    (final (loadKeys keys) s).db = s.db := by
  induction keys generalizing s with
  | nil => exact final_operation_id "iter" s
  | cons key keys ih =>
    have hiter := final_operation_id "iter" s
    unfold final at hiter
    cases hrun : operation "iter" id s with
    | error e s' =>
      rw [hrun] at hiter
      unfold final
      rw [loadKeys]
      dsimp only
      rw [hrun]
      exact hiter
    | ok _ s' =>
      rw [hrun] at hiter
      rw [final_loadKeys_cons key keys hrun]
      exact (ih s').trans hiter

/-- A load reads. -/
theorem final_load (s : StateStore) : (final load s).db = s.db := by
  have hscan := final_operation_id "scan" s
  unfold final at hscan
  unfold final load
  cases hrun : operation "scan" id s with
  | error e s' =>
    rw [hrun] at hscan
    exact hscan
  | ok _ s' =>
    rw [hrun] at hscan
    exact (final_loadKeys (keysWithPrefix s.db "config:") s').trans hscan

/-- The next operation of the store does not fail. -/
def Ready (s : StateStore) : Prop := s.faults.head?.join = none

instance (s : StateStore) : Decidable s.Ready :=
  inferInstanceAs (Decidable (s.faults.head?.join = none))

theorem run_lookup (key : String) (s : StateStore) : ∃ s',
    lookup key s = .ok (if s.Ready then textAt s.db key else none) s' ∧ s'.db = s.db := by
  obtain ⟨db, faults, closed⟩ := s
  unfold lookup operation Ready textAt
  rcases faults with _ | ⟨_ | e, rest⟩
  · dsimp only
    rcases db.lookup key with _ | config | text <;> exact ⟨_, rfl, rfl⟩
  · dsimp only
    rcases db.lookup key with _ | config | text <;> exact ⟨_, rfl, rfl⟩
  · exact ⟨_, rfl, rfl⟩

/-- The key that is loaded is the one in the store, if it can be read. -/
theorem run_loadCloud (s : StateStore) : ∃ answer s', Cloud.loadCloudConfig s = .ok answer s' ∧
    s'.db = s.db ∧ answer.map (·.1) = if s.Ready then textAt s.db Cloud.apiKey else none := by
  obtain ⟨s₁, hkey, hdb⟩ := run_lookup Cloud.apiKey s
  rw [Cloud.loadCloudConfig, run_bind, hkey]
  cases hread : if s.Ready then textAt s.db Cloud.apiKey else none with
  | none => exact ⟨none, s₁, rfl, hdb, rfl⟩
  | some key =>
    obtain ⟨s₂, hurl, hdb'⟩ := run_lookup Cloud.serverUrl s₁
    dsimp only
    rw [run_bind, hurl]
    exact ⟨some (key, _), s₂, rfl, hdb'.trans hdb, rfl⟩

/-! ## A link and an unlink that fail midway -/

/-- The operations of a link. -/
def linkOperations (key : String) : List (String × (Dict String Stored → Dict String Stored)) :=
  [("put", (·.insert Cloud.apiKey (.text key))), ("flush", id),
    ("put", (·.insert Cloud.serverUrl (.text Cloud.defaultCloudUrl))), ("flush", id)]

/-- Those of an unlink. -/
def unlinkOperations : List (String × (Dict String Stored → Dict String Stored)) :=
  [("delete", (·.erase Cloud.apiKey)), ("delete", (·.erase Cloud.serverUrl))]

theorem saveCloud_eq (key : String) :
    Cloud.saveCloudConfig key = forEach (linkOperations key) perform := by
  unfold Cloud.saveCloudConfig put linkOperations
  simp only [forEach, perform, bind_assoc, bind_pure_unit]

theorem removeCloud_eq : Cloud.removeCloudConfig = forEach unlinkOperations perform := by
  unfold Cloud.removeCloudConfig delete unlinkOperations
  simp only [forEach, perform, bind_pure_unit]

theorem apiKey_ne_serverUrl : Cloud.apiKey ≠ Cloud.serverUrl := by decide

theorem faultAt_eq_zero_iff (s : StateStore) (count : Nat) :
    faultAt s.faults (count + 1) = 0 ↔ ¬s.Ready := by
  unfold faultAt Ready
  rcases s.faults with _ | ⟨_ | e, rest⟩
  · simp
  · cases hfind : rest.findIdx? (·.isSome) <;> simp [List.findIdx?_cons, hfind]
  · simp [List.findIdx?_cons]

/-- What is kept under a key that only the first of some operations is about. -/
theorem key_of_perform (op : String × (Dict String Stored → Dict String Stored))
    (ops : List (String × (Dict String Stored → Dict String Stored))) (s : StateStore) {key : String}
    (h : ∀ op ∈ ops, ∀ db, (op.2 db).lookup key = db.lookup key) :
    textAt (final (forEach (op :: ops) perform) s).db key =
      if s.Ready then textAt (op.2 s.db) key else textAt s.db key := by
  rw [final_perform, List.length_cons]
  have hzero := faultAt_eq_zero_iff s ops.length
  cases hat : faultAt s.faults (ops.length + 1) with
  | zero => rw [if_neg (hzero.1 hat)]; rfl
  | succ i =>
    have hready : s.Ready := by
      by_contra hnot
      exact nomatch hat.symm.trans (hzero.2 hnot)
    rw [if_pos hready, List.take_succ_cons, List.foldl_cons]
    exact textAt_congr (foldl_beside _ _ fun op hop => h op (List.mem_of_mem_take hop))

/-- The key in the store after a link: the new one, unless the first of its operations fails. -/
theorem key_of_link (key : String) (s : StateStore) :
    textAt (final (Cloud.saveCloudConfig key) s).db Cloud.apiKey =
      if s.Ready then some key else textAt s.db Cloud.apiKey := by
  rw [saveCloud_eq, linkOperations, key_of_perform]
  · rw [textAt, Dict.lookup_insert_eq, if_pos rfl]
  · intro op hop db
    simp only [List.mem_cons, List.not_mem_nil, or_false] at hop
    rcases hop with rfl | rfl | rfl
    · rfl
    · exact (Dict.lookup_insert_eq _).trans (if_neg apiKey_ne_serverUrl)
    · rfl

/-- The key in the store after an unlink: none, unless the first of its operations fails. -/
theorem key_of_unlink (s : StateStore) :
    textAt (final Cloud.removeCloudConfig s).db Cloud.apiKey =
      if s.Ready then none else textAt s.db Cloud.apiKey := by
  rw [removeCloud_eq, unlinkOperations, key_of_perform]
  · rw [textAt, Dict.lookup_erase_eq, if_pos rfl]
  · intro op hop db
    obtain rfl := List.mem_singleton.1 hop
    exact (Dict.lookup_erase_eq _).trans (if_neg apiKey_ne_serverUrl)

end StateStore

namespace Daemon

open StateStore

/-- What goes on with the daemon: something that happens while it runs, or its end, by whatever
cause, and the start of the next one on the store that is left and the disk as it is then. -/
inductive LifeEvent where
  | within (e : Event)
  | restart (os : Os) (disk : FileTree)

def live (st : DaemonState) : LifeEvent → DaemonState
  | .within e => machine.next st e
  | .restart os disk => runDaemon os st.stateStore disk

def lifetimes : Machine DaemonState LifeEvent Unit := ⟨fun st e => (live st e, ())⟩

/-- The key that the store holds. -/
def storedKey (st : DaemonState) : Option String := textAt st.stateStore.db Cloud.apiKey

/-- The agent that runs is that of the stored key, where one is stored. A daemon that was killed has
stopped it and keeps the key for the next one: while it goes down, nothing is asked of it. -/
def Linked (st : DaemonState) : Prop := st.exiting = false → st.cloudShutdown = storedKey st

/-- The store as the operations of a request find it. -/
def faced (os : Os) (st : DaemonState) : StateStore := { st.stateStore with faults := os.storeFaults }

/-- The condition on an event: a link that gets beyond its first operation gets through, or
brings no new key; an unlink that stops an agent can delete its key; and a daemon that starts can
read the key. -/
def InStep (st : DaemonState) : LifeEvent → Prop
  | .within (.request os (.link key)) => st.exiting = true ∨ st.cloudShutdown = some key ∨
      ((faced os st).Ready → 4 ≤ faultAt os.storeFaults 4)
  | .within (.request os .unlink) =>
      st.exiting = true ∨ st.cloudShutdown = none ∨ (faced os st).Ready
  | .restart os disk => storedKey st = none ∨ (startUp os st.stateStore disk).1.stateStore.Ready
  | _ => True

section

variable {os : Os} {st : DaemonState}

theorem Linked.of_settled {st' : DaemonState} (h : Server.Settled st st') :
    Linked st' ↔ Linked st := by
  unfold Linked storedKey
  rw [h.exiting, h.cloud, h.store]

theorem link_cloud (os : Os) (st : DaemonState) (key : String) :
    (Server.handleLink os st key).1.cloudShutdown =
      if 4 ≤ faultAt os.storeFaults 4 then some key else st.cloudShutdown := by
  have hok : result (Cloud.saveCloudConfig key) (faced os st) = .ok () ↔
      4 ≤ faultAt os.storeFaults 4 := by
    rw [saveCloud_eq]
    exact perform_ok_iff (linkOperations key) (faced os st)
  unfold Server.handleLink DaemonState.stored
  change result (Cloud.saveCloudConfig key) { st.stateStore with faults := os.storeFaults } = _ ↔ _
    at hok
  unfold result at hok
  dsimp only at hok ⊢
  cases hrun : Cloud.saveCloudConfig key { st.stateStore with faults := os.storeFaults } with
  | ok _ s =>
    rw [hrun] at hok
    rw [if_pos (hok.1 rfl)]
  | error e s =>
    rw [hrun] at hok
    rw [if_neg fun hle => nomatch hok.2 hle]

theorem linked_link (key : String) (h : Linked st) :
    Linked (Server.handleLink os st key).1 ↔ InStep st (.within (.request os (.link key))) := by
  have hexiting : (Server.handleLink os st key).1.exiting = st.exiting := by
    obtain ⟨shutdown, hlink⟩ := Server.handleLink_fst os st key
    rw [hlink]
  have hstored : storedKey (Server.handleLink os st key).1 =
      if (faced os st).Ready then some key else storedKey st := by
    obtain ⟨shutdown, hlink⟩ := Server.handleLink_fst os st key
    rw [hlink]
    exact key_of_link key (faced os st)
  have hzero := faultAt_eq_zero_iff (faced os st) 3
  change faultAt os.storeFaults 4 = 0 ↔ _ at hzero
  unfold Linked InStep
  rw [hexiting, link_cloud, hstored]
  cases hexit : st.exiting with
  | true => simp
  | false =>
    have hcloud := h hexit
    by_cases hready : (faced os st).Ready
    · rw [if_pos hready]
      by_cases hthrough : 4 ≤ faultAt os.storeFaults 4
      · simp [hthrough]
      · simp [hthrough, hready]
    · have hat := hzero.2 hready
      rw [if_neg hready, if_neg (by omega)]
      simp [hcloud, hready]

theorem linked_unlink (h : Linked st) :
    Linked (Server.handleUnlink os st).1 ↔ InStep st (.within (.request os .unlink)) := by
  have hstored : storedKey (Server.handleUnlink os st).1 =
      if (faced os st).Ready then none else storedKey st := by
    rw [Server.handleUnlink_fst]
    exact key_of_unlink (faced os st)
  unfold Linked InStep
  rw [hstored, Server.handleUnlink_fst]
  cases hexit : st.exiting with
  | true => simp
  | false =>
    have hcloud := h hexit
    by_cases hready : (faced os st).Ready
    · simp [hready]
    · simp [hready, hcloud, eq_comm]

/-- A start leaves what is kept beside the configs, and starts nothing yet. -/
theorem startUp_cloud (os : Os) (store : StateStore) (disk : FileTree) :
    SameBeside store (startUp os store disk).1.stateStore ∧
      (startUp os store disk).1.cloudShutdown = none ∧
      (startUp os store disk).1.exiting = false := by
  rw [startUp_eq, loadConfigs_fst]
  generalize hst : (DaemonState.initial { store with faults := os.storeFaults, closed := false }
    (preparedDisk os disk)) = st
  have hmigrated : SameBeside st.stateStore (migrateJson os st).stateStore ∧
      (migrateJson os st).cloudShutdown = st.cloudShutdown ∧
      (migrateJson os st).exiting = st.exiting := by
    unfold migrateJson
    split
    · exact ⟨fun _ _ => rfl, rfl, rfl⟩
    · split
      · exact ⟨fun _ _ => rfl, rfl, rfl⟩
      · rw [DaemonState.managed_onDisk]
        exact ⟨fun _ _ => rfl, rfl, rfl⟩
      · rename_i configs _ _
        have hsaved := DaemonState.stored_fst st (StateStore.save configs)
        split <;> rename_i heq <;> rw [heq] at hsaved <;> subst hsaved
        · rw [DaemonState.managed_onDisk]
          exact ⟨sameBeside_save configs st.stateStore, rfl, rfl⟩
        · exact ⟨sameBeside_save configs st.stateStore, rfl, rfl⟩
  obtain ⟨hbeside, hcloud, hexit⟩ := hmigrated
  subst hst
  refine ⟨fun key hkey => ?_, hcloud, hexit⟩
  dsimp only
  rw [final_load]
  exact hbeside key hkey

/-- A daemon starts with the agent of the stored key, if it can read the key. -/
theorem runDaemon_cloud (os : Os) (store : StateStore) (disk : FileTree) :
    (runDaemon os store disk).exiting = false ∧
      storedKey (runDaemon os store disk) = textAt store.db Cloud.apiKey ∧
      (runDaemon os store disk).cloudShutdown =
        if (startUp os store disk).1.stateStore.Ready then textAt store.db Cloud.apiKey
        else none := by
  obtain ⟨hbeside, hcloud, hexit⟩ := startUp_cloud os store disk
  have hkey := textAt_congr (hbeside Cloud.apiKey rfl)
  unfold runDaemon
  generalize startUp os store disk = started at hkey hcloud hexit ⊢
  obtain ⟨st, saved⟩ := started
  dsimp only at hkey hcloud hexit ⊢
  obtain ⟨answer, s, hrun, hdb, hanswer⟩ := run_loadCloud st.stateStore
  rw [DaemonState.managed_fst]
  unfold DaemonState.stored
  dsimp only
  rw [hrun]
  rw [hkey] at hanswer
  have hstored : textAt s.db Cloud.apiKey = textAt store.db Cloud.apiKey := by rw [hdb, hkey]
  rcases answer with _ | ⟨key, url⟩
  · exact ⟨hexit, hstored, hcloud.trans hanswer⟩
  · exact ⟨hexit, hstored, hanswer⟩

theorem linked_runDaemon (os : Os) (store : StateStore) (disk : FileTree) :
    Linked (runDaemon os store disk) ↔
      textAt store.db Cloud.apiKey = none ∨ (startUp os store disk).1.stateStore.Ready := by
  obtain ⟨hexit, hstored, hcloud⟩ := runDaemon_cloud os store disk
  unfold Linked
  rw [hexit, hstored, hcloud]
  by_cases hready : (startUp os store disk).1.stateStore.Ready
  · simp [hready]
  · simp [hready, eq_comm]

/-- One event keeps the agent and the stored key together exactly under the condition. -/
theorem linked_live (e : LifeEvent) (h : Linked st) : Linked (live st e) ↔ InStep st e := by
  cases e with
  | restart os disk => exact linked_runDaemon os st.stateStore disk
  | within e =>
    cases e with
    | tick os =>
      refine (Linked.of_settled (Server.steady_managed st _).toSettled).trans ?_
      exact iff_of_true h trivial
    | issued hostname cert => exact iff_of_true h trivial
    | disk t => exact iff_of_true h trivial
    | request os r =>
      by_cases hhouse : Server.Housekeeping r
      · cases r with
        | link key => exact linked_link key h
        | unlink => exact linked_unlink h
        | save =>
          refine iff_of_true ?_ trivial
          have hkey : storedKey (Server.handleSave os st).1 = storedKey st := by
            rw [Server.handleSave_fst]
            exact textAt_congr (sameBeside_save _ (faced os st) Cloud.apiKey rfl)
          change Linked (Server.handleSave os st).1
          unfold Linked
          rw [hkey, Server.handleSave_fst]
          exact h
        | kill =>
          have hkilled : (Server.handleKill os st).1.exiting = true := by
            unfold Server.handleKill
            dsimp only
          refine iff_of_true ?_ trivial
          change Linked (Server.handleKill os st).1
          intro hexit
          rw [hkilled] at hexit
          exact nomatch hexit
        | metricsEnable port =>
          refine iff_of_true ?_ trivial
          change Linked { st with metricsShutdown := some port }
          exact h
        | metricsDisable =>
          refine iff_of_true ?_ trivial
          change Linked { st with metricsShutdown := none }
          exact h
        | _ => exact hhouse.elim
      · have hsettled : Server.Settled st (Server.handleRequest os st r).1 := by
          rcases Server.runFrame_request os st hhouse with hsteady | ⟨config, rfl, hrun⟩
          · exact hsteady.toSettled
          · exact hrun.toSettled
        refine (Linked.of_settled hsettled).trans (iff_of_true h ?_)
        cases r with
        | link key | unlink => exact (hhouse trivial).elim
        | _ => trivial

theorem linked_next (e : LifeEvent) (h : Linked st) :
    Linked (lifetimes.next st e) ↔ InStep st e := linked_live e h

/-- Over any number of lives of the daemon, whatever the store does, the agent that runs is always
that of the stored key, and none runs where no key is stored, exactly if no link fails after its
first operation with a new key, no unlink of a running agent fails at its first operation, and
every start can read the key where one is stored. A daemon that is being killed is not judged. -/
theorem linked_throughout_iff (os : Os) (store : StateStore) (disk : FileTree)
    (events : List LifeEvent) :
    lifetimes.Throughout Linked (runDaemon os store disk) events ↔
      (textAt store.db Cloud.apiKey = none ∨ (startUp os store disk).1.stateStore.Ready) ∧
        lifetimes.Along InStep (runDaemon os store disk) events := by
  rw [← linked_runDaemon]
  generalize runDaemon os store disk = st
  have hiff : Linked st →
      (lifetimes.Throughout Linked st events ↔ lifetimes.Along InStep st events) := fun hstart =>
    Machine.throughout_iff_along (I := fun _ => True) (H := fun _ _ => True)
      (fun _ _ _ _ _ _ => trivial) (fun _ e _ _ h => linked_next e h) trivial hstart
      Machine.along_true
  constructor
  · intro hall
    exact ⟨hall.start, (hiff hall.start).1 hall⟩
  · rintro ⟨hstart, halong⟩
    exact (hiff hstart).2 halong

end

end Daemon
