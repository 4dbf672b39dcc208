import NylonRun.Links

/-!
# What a start restores

The configs in the store outlive the daemon. A save replaces them, a kill removes them, and a start
that finds the state file of an old version puts those of the file in their place before it loads
them (src/server.rs:166-232, src/state.rs:134-175). Each of these can stop halfway, at an operation
of the store that fails, and what it leaves is what the next life begins with.
-/

open FileTree Effect

namespace StateStore

variable {s : StateStore} {old new : List ProcessConfig}

theorem tornAt_faultless (hs : Faultless s) :
    tornAt s new = 2 * (keysWithPrefix s.db "config:").length + new.length + 3 := by
  have hnone : s.faults.findIdx? (·.isSome) = none := by
    rw [List.findIdx?_eq_none_iff]
    intro f hf
    rw [hs f hf]
    rfl
  rw [tornAt, faultAt, hnone]
  rfl

/-- A save none of whose operations fails leaves the new configs. -/
theorem leftOver_faultless (hold : Holds s.db old) (hs : Faultless s) :
    leftOver s old new = lastOfEach new := by
  unfold leftOver
  dsimp only
  rw [tornAt_faultless hs, left_nil hold (by omega), List.take_of_length_le (by omega),
    List.nil_append]

/-- The configs in a store after a save: of the new ones the last with each name, where nothing
fails, and otherwise those not yet deleted and those put. -/
def leaves (s : StateStore) (old new : List ProcessConfig) : List ProcessConfig :=
  if s.faults.all (·.isNone) then lastOfEach new else leftOver s old new

theorem holds_leaves (hold : Holds s.db old) (hnames : (old.map (·.name)).Nodup)
    (new : List ProcessConfig) :
    Holds (final (save new) s).db (leaves s old new) ∧
      ((leaves s old new).map (·.name)).Nodup := by
  unfold leaves
  split
  · rename_i hall
    have hs : Faultless s := fun f hf => Option.isNone_iff_eq_none.1 (List.all_eq_true.1 hall f hf)
    rw [← leftOver_faultless hold hs]
    exact ⟨holds_torn hold, nodup_leftOver new hold hnames⟩
  · exact ⟨holds_torn hold, nodup_leftOver new hold hnames⟩

/-- A store into which the configs of an old file are saved, if there are any. -/
def putImport (s : StateStore) : Option (List ProcessConfig) → StateStore
  | some configs => final (save configs) s
  | none => s

/-- The configs that it is left with. -/
def leavesImport (s : StateStore) (old : List ProcessConfig) :
    Option (List ProcessConfig) → List ProcessConfig
  | some configs => leaves s old configs
  | none => old

theorem holds_import (hold : Holds s.db old) (hnames : (old.map (·.name)).Nodup)
    (found : Option (List ProcessConfig)) :
    Holds (s.putImport found).db (s.leavesImport old found) ∧
      ((s.leavesImport old found).map (·.name)).Nodup := by
  cases found with
  | none => exact ⟨hold, hnames⟩
  | some configs => exact holds_leaves hold hnames configs

/-- What is not a config has no part in which configs a store holds. -/
theorem Holds.congr {db db' : Dict String Stored} (h : Holds db old)
    (hsame : ∀ key, Text.startsWith key "config:" = true → db'.lookup key = db.lookup key) :
    Holds db' old := by
  intro key value hpre
  rw [hsame key hpre]
  exact h key value hpre

end StateStore

namespace Daemon

open StateStore

/-! ## The start -/

/-- The configs of an old state file, where there are any that can be read
(src/state.rs:136-158). -/
def imported (os : Os) (t : FileTree) : Option (List ProcessConfig) :=
  if t.pathExists jsonPath then
    match (t.readToString jsonPath).toOption.bind os.parseConfigs with
    | some (c :: cs) => some (c :: cs)
    | _ => none
  else none

theorem migrateJson_store (os : Os) (st : DaemonState) :
    (migrateJson os st).stateStore = st.stateStore.putImport (imported os st.disk) := by
  unfold migrateJson imported
  by_cases hexists : st.disk.pathExists jsonPath = true
  · rw [if_neg (by simp [hexists]), if_pos hexists]
    rcases (st.disk.readToString jsonPath).toOption.bind os.parseConfigs with _ | _ | ⟨c, cs⟩
    · rfl
    · dsimp only
      rw [DaemonState.managed_onDisk]
      rfl
    · dsimp only
      have hsaved := DaemonState.stored_fst st (StateStore.save (c :: cs))
      split <;> rename_i heq <;> rw [heq] at hsaved <;> subst hsaved
      · rw [DaemonState.managed_onDisk]
        rfl
      · rfl
  · rw [if_pos (by simp [hexists]), if_neg hexists]
    rfl

/-- A store as a daemon opens it. -/
def opened (os : Os) (store : StateStore) : StateStore :=
  { store with faults := os.storeFaults, closed := false }

/-- A daemon that is about to load the configs, the old file imported. -/
def importing (os : Os) (store : StateStore) (disk : FileTree) : DaemonState :=
  migrateJson os (.initial (opened os store) (preparedDisk os disk))

theorem importing_store (os : Os) (store : StateStore) (disk : FileTree) :
    (importing os store disk).stateStore =
      (opened os store).putImport (imported os (preparedDisk os disk)) :=
  migrateJson_store os (.initial (opened os store) (preparedDisk os disk))

theorem startUp_importing (os : Os) (store : StateStore) (disk : FileTree) :
    startUp os store disk = loadConfigs (importing os store disk) := startUp_eq os store disk

theorem loadConfigs_snd {st : DaemonState} {configs : List ProcessConfig}
    (hs : Faultless st.stateStore) (hholds : Holds st.stateStore.db configs)
    (hnames : (configs.map (·.name)).Nodup) : (loadConfigs st).2.Perm configs := by
  obtain ⟨loaded, s', hload, hperm⟩ := load_holds hs hnames hholds
  unfold loadConfigs DaemonState.stored
  rw [hload]
  exact hperm

/-- After the import a start only reads. -/
theorem runDaemon_db (os : Os) (store : StateStore) (disk : FileTree) :
    (runDaemon os store disk).stateStore.db = (importing os store disk).stateStore.db := by
  have hloaded : (startUp os store disk).1.stateStore.db =
      (importing os store disk).stateStore.db := by
    rw [startUp_importing, loadConfigs_fst]
    exact final_load _
  unfold runDaemon
  generalize startUp os store disk = started at hloaded ⊢
  obtain ⟨st, configs⟩ := started
  dsimp only at hloaded ⊢
  obtain ⟨answer, s, hrun, hdb, -⟩ := run_loadCloud st.stateStore
  rw [DaemonState.managed_fst]
  unfold DaemonState.stored
  dsimp only
  rw [hrun]
  rcases answer with _ | ⟨key, url⟩ <;> exact hdb.trans hloaded

end Daemon

/-! ## The lives of a daemon -/

/-- A daemon, and the configs that the saves, the kills and the imports of all the lives until now
have left in the store. -/
structure SavedLedger where
  st : DaemonState
  saved : List ProcessConfig

namespace SavedLedger

open Daemon StateStore

/-- What is saved after a request. A save that is answered Ok has saved the apps that there are. -/
def savedByRequest (l : SavedLedger) (os : Os) : Request → List ProcessConfig
  | .save =>
    if (Server.handleSave os l.st).2.isOk then Process.getConfigs l.st.processMgr
    else leaves (faced os l.st) l.saved (Process.getConfigs l.st.processMgr)
  | .kill => leaves (faced os l.st) l.saved []
  | _ => l.saved

/-- What is saved when a daemon has started. -/
def savedByStart (l : SavedLedger) (os : Os) (disk : FileTree) : List ProcessConfig :=
  (opened os l.st.stateStore).leavesImport l.saved (imported os (preparedDisk os disk))

def savedAfter (l : SavedLedger) : LifeEvent → List ProcessConfig
  | .within (.request os r) => l.savedByRequest os r
  | .within _ => l.saved
  | .restart os disk => l.savedByStart os disk

def machine : Machine SavedLedger LifeEvent Unit :=
  ⟨fun l e => (⟨live l.st e, l.savedAfter e⟩, ())⟩

/-- A start whose reads do not fail restores the configs that are saved by then. -/
def LoadsSaved (l : SavedLedger) : LifeEvent → Prop
  | .restart os disk => Faultless (importing os l.st.stateStore disk).stateStore →
      (startUp os l.st.stateStore disk).2.Perm (l.savedByStart os disk)
  | _ => True

/-- The store holds what is saved, under names that differ. -/
structure Kept (l : SavedLedger) : Prop where
  keyed : Server.Keyed l.st.processMgr
  holds : Holds l.st.stateStore.db l.saved
  names : (l.saved.map (·.name)).Nodup

variable {l : SavedLedger} {os : Os}

/-- The operations of a link or an unlink leave the configs. -/
theorem holds_cloud {ops : List (String × (Dict String Stored → Dict String Stored))}
    {s : StateStore} {saved : List ProcessConfig} (h : Holds s.db saved)
    (hops : ∀ op ∈ ops, ∀ key, Text.startsWith key "config:" = true →
      ∀ db, (op.2 db).lookup key = db.lookup key) :
    Holds (final (forEach ops perform) s).db saved := by
  refine h.congr fun key hpre => ?_
  rw [final_perform]
  exact foldl_beside _ _ fun op hop => hops op (List.mem_of_mem_take hop) key hpre

theorem linkOperations_beside (apiKey : String) : ∀ op ∈ linkOperations apiKey, ∀ key,
    Text.startsWith key "config:" = true → ∀ db, (op.2 db).lookup key = db.lookup key := by
  intro op hop key hpre db
  obtain ⟨hkey, hurl⟩ := not_cloud_of_config hpre
  simp only [linkOperations, List.mem_cons, List.not_mem_nil, or_false] at hop
  rcases hop with rfl | rfl | rfl | rfl
  · exact (Dict.lookup_insert_eq key).trans (if_neg hkey)
  · rfl
  · exact (Dict.lookup_insert_eq key).trans (if_neg hurl)
  · rfl

theorem unlinkOperations_beside : ∀ op ∈ unlinkOperations, ∀ key,
    Text.startsWith key "config:" = true → ∀ db, (op.2 db).lookup key = db.lookup key := by
  intro op hop key hpre db
  obtain ⟨hkey, hurl⟩ := not_cloud_of_config hpre
  simp only [unlinkOperations, List.mem_cons, List.not_mem_nil, or_false] at hop
  rcases hop with rfl | rfl
  · exact (Dict.lookup_erase_eq key).trans (if_neg hkey)
  · exact (Dict.lookup_erase_eq key).trans (if_neg hurl)

/-- A save leaves what is saved, whether it gets through or not. -/
theorem kept_save (os : Os) (h : l.Kept) :
    Holds (Server.handleSave os l.st).1.stateStore.db (l.savedByRequest os .save) ∧
      ((l.savedByRequest os .save).map (·.name)).Nodup := by
  have hleft := holds_leaves (s := faced os l.st) h.holds h.names
    (Process.getConfigs l.st.processMgr)
  have hstore : (Server.handleSave os l.st).1.stateStore.db =
      (final (StateStore.save (Process.getConfigs l.st.processMgr)) (faced os l.st)).db := by
    rw [Server.handleSave_fst, faced]
  unfold savedByRequest
  by_cases hok : (Server.handleSave os l.st).2.isOk = true
  · rw [if_pos hok]
    exact ⟨handleSave_holds h.keyed hok, Process.nodup_getConfigs h.keyed⟩
  · rw [if_neg hok, hstore]
    exact hleft

theorem kept_kill (os : Os) (h : l.Kept) :
    Holds (Server.handleKill os l.st).1.stateStore.db (l.savedByRequest os .kill) ∧
      ((l.savedByRequest os .kill).map (·.name)).Nodup := by
  have hleft := holds_leaves (s := faced os l.st) h.holds h.names []
  have hstore : (Server.handleKill os l.st).1.stateStore.db =
      (final (StateStore.save []) (faced os l.st)).db := by
    unfold Server.handleKill
    simp only [DaemonState.managed_fst, DaemonState.stored_fst]
    rfl
  rw [hstore]
  exact hleft

/-- The store of a daemon that has started, as it is loaded. -/
theorem kept_restart (os : Os) (disk : FileTree) (h : l.Kept) :
    Holds (importing os l.st.stateStore disk).stateStore.db (l.savedByStart os disk) ∧
      ((l.savedByStart os disk).map (·.name)).Nodup := by
  rw [importing_store]
  exact holds_import (s := opened os l.st.stateStore) h.holds h.names _

theorem kept_next (h : l.Kept) (e : LifeEvent) : (machine.next l e).Kept := by
  cases e with
  | restart os disk =>
    obtain ⟨hholds, hnames⟩ := kept_restart os disk h
    rw [← runDaemon_db] at hholds
    have hkeyed := keyed_runDaemon os l.st.stateStore disk
    change Kept ⟨runDaemon os l.st.stateStore disk, l.savedByStart os disk⟩
    generalize runDaemon os l.st.stateStore disk = st at hholds hkeyed ⊢
    generalize l.savedByStart os disk = saved at hholds hnames ⊢
    exact ⟨hkeyed, hholds, hnames⟩
  | within e =>
    have hkeyed : Server.Keyed (machine.next l (.within e)).st.processMgr := keyed_step h.keyed e
    cases e with
    | tick os =>
      refine ⟨hkeyed, ?_, h.names⟩
      change Holds (l.st.managed _).1.stateStore.db l.saved
      rw [DaemonState.managed_fst]
      exact h.holds
    | issued hostname cert => exact ⟨hkeyed, h.holds, h.names⟩
    | disk t => exact ⟨hkeyed, h.holds, h.names⟩
    | request os r =>
      by_cases hhouse : Server.Housekeeping r
      · cases r with
        | save => exact ⟨hkeyed, (kept_save os h).1, (kept_save os h).2⟩
        | kill => exact ⟨hkeyed, (kept_kill os h).1, (kept_kill os h).2⟩
        | link key =>
          refine ⟨hkeyed, ?_, h.names⟩
          change Holds (Server.handleLink os l.st key).1.stateStore.db l.saved
          obtain ⟨shutdown, hlink⟩ := Server.handleLink_fst os l.st key
          rw [hlink, saveCloud_eq]
          exact holds_cloud (s := faced os l.st) h.holds (linkOperations_beside key)
        | unlink =>
          refine ⟨hkeyed, ?_, h.names⟩
          change Holds (Server.handleUnlink os l.st).1.stateStore.db l.saved
          rw [Server.handleUnlink_fst, removeCloud_eq]
          exact holds_cloud (s := faced os l.st) h.holds unlinkOperations_beside
        | metricsEnable port | metricsDisable => exact ⟨hkeyed, h.holds, h.names⟩
        | _ => exact hhouse.elim
      · have hstore : (Server.handleRequest os l.st r).1.stateStore = l.st.stateStore := by
          rcases Server.runFrame_request os l.st hhouse with hsteady | ⟨config, rfl, hrun⟩
          · exact hsteady.store
          · exact hrun.store
        have hsaved : l.savedByRequest os r = l.saved := by
          cases r with
          | save | kill => exact (hhouse trivial).elim
          | _ => rfl
        refine ⟨hkeyed, ?_, ?_⟩
        · change Holds (Server.handleRequest os l.st r).1.stateStore.db (l.savedByRequest os r)
          rw [hstore, hsaved]
          exact h.holds
        · change ((l.savedByRequest os r).map (·.name)).Nodup
          rw [hsaved]
          exact h.names

theorem loadsSaved_of_kept (h : l.Kept) (e : LifeEvent) : l.LoadsSaved e := by
  cases e with
  | within e => trivial
  | restart os disk =>
    intro hs
    obtain ⟨hholds, hnames⟩ := kept_restart os disk h
    rw [startUp_importing]
    exact loadConfigs_snd hs hholds hnames

/-- From an empty store on, over any number of lives of the daemon and whatever operations of the
store fail in them, every start whose reads succeed restores exactly the configs that the saves,
the kills and the imports until then have left: those of the last save that was answered Ok, none
after a kill, those of the old file after an import, and what is left of them where one was torn. -/
theorem starts_load_saved (disk : FileTree) (events : List LifeEvent) :
    machine.Along LoadsSaved ⟨.initial .empty disk, []⟩ events := by
  refine Machine.along_of_invariant (P := Kept) (Q := fun _ _ => True)
    (fun l e h _ => kept_next h e) (fun l e h _ => loadsSaved_of_kept h e) ?_ Machine.along_true
  refine ⟨fun n p hp => (nomatch hp), fun key value hpre => ?_, List.nodup_nil⟩
  exact iff_of_false nofun (by simp)

end SavedLedger
