import NylonRun.Restore
import Mathlib.Data.String.Basic

/-!
# What the store is left with

A save deletes every config in the store and then puts the new ones, one operation after the
other; one that fails, or a crash, leaves what had been done until then. Where nothing fails the
configs and the key of the cloud stand in the store side by side, each as it was last set.
-/

open Effect

namespace StateStore

/-! ## The operations of a save -/

/-- The operations of a save after its scan, with what each does to the store. -/
def saveOperations (oldKeys : List String) (configs : List ProcessConfig) :
    List (String × (Dict String Stored → Dict String Stored)) :=
  (oldKeys.map fun _ => ("iter", id)) ++ ([("iter", id)] ++
    ((oldKeys.map fun key => ("delete", fun db => db.erase key)) ++
      ((configs.map fun config =>
        ("put", fun db => db.insert (configKey config.name) (.config config))) ++
          [("flush", id)])))

/-- One of them run. -/
def perform (op : String × (Dict String Stored → Dict String Stored)) : Storage Unit :=
  operation op.1 op.2

theorem save_eq (configs : List ProcessConfig) (s : StateStore) :
    save configs s = forEach (("scan", id) :: saveOperations (keysWithPrefix s.db "config:") configs)
      perform s := by
  have hrest : ∀ oldKeys, forEach (saveOperations oldKeys configs) perform = (do
      forEach oldKeys fun _ => operation "iter" id
      operation "iter" id
      forEach oldKeys fun key => operation "delete" (·.erase key)
      forEach configs fun config =>
        operation "put" (·.insert (configKey config.name) (.config config))
      operation "flush" id) := by
    intro oldKeys
    unfold saveOperations
    rw [forEach_append, forEach_append, forEach_append, forEach_append, forEach_map, forEach_map,
      forEach_map, forEach_singleton, forEach_singleton]
    rfl
  have hscan : perform ("scan", id) = operation "scan" id := rfl
  rw [forEach, hrest, hscan]
  unfold save
  rw [run_bind, run_bind]
  cases hrun : operation "scan" id s with
  | error e s' => rfl
  | ok _ s' =>
    have hdb : s'.db = s.db := operation_ok hrun
    dsimp only
    rw [run_get_bind, hdb]

/-- Where the next operations meet a fault; past all of them if they meet none. -/
def faultAt (faults : List (Option String)) (count : Nat) : Nat :=
  (faults.findIdx? (·.isSome)).getD count

/-- Operations run up to the first fault have had their effects until then. -/
theorem final_perform (ops : List (String × (Dict String Stored → Dict String Stored)))
    (s : StateStore) : (final (forEach ops perform) s).db =
      (ops.take (faultAt s.faults ops.length)).foldl (fun db op => op.2 db) s.db := by
  induction ops generalizing s with
  | nil => rw [List.take_nil]; rfl
  | cons op ops ih =>
    obtain ⟨what, effect⟩ := op
    have hop : perform (what, effect) = operation what effect := rfl
    rw [forEach, final_bind, hop]
    unfold operation faultAt
    cases hfaults : s.faults with
    | nil =>
      have hrest := ih ⟨effect s.db, [], s.closed⟩
      have hnone : faultAt [] ops.length = ops.length := rfl
      rw [hnone, List.take_length] at hrest
      dsimp only
      rw [hrest]
      simp
    | cons fault rest =>
      cases fault with
      | some e => simp [List.findIdx?_cons]
      | none =>
        have hrest := ih { s with db := effect s.db, faults := rest }
        unfold faultAt at hrest
        dsimp only at hrest ⊢
        rw [hrest]
        cases hfind : rest.findIdx? (·.isSome) with
        | none => simp [List.findIdx?_cons, hfind]
        | some i => simp [List.findIdx?_cons, hfind]

/-! ## What a torn save leaves -/

/-- Of the configs with one name the last: it is put over the others. -/
def lastOfEach : List ProcessConfig → List ProcessConfig
  | [] => []
  | c :: cs => if cs.any (·.name = c.name) then lastOfEach cs else c :: lastOfEach cs

theorem mem_lastOfEach {c : ProcessConfig} {l : List ProcessConfig} (h : c ∈ lastOfEach l) :
    c ∈ l := by
  induction l with
  | nil => exact h
  | cons d l ih =>
    rw [lastOfEach] at h
    split at h
    · exact List.mem_cons_of_mem _ (ih h)
    · rcases List.mem_cons.1 h with rfl | h
      · exact List.mem_cons_self
      · exact List.mem_cons_of_mem _ (ih h)

theorem nodup_lastOfEach (l : List ProcessConfig) : ((lastOfEach l).map (·.name)).Nodup := by
  induction l with
  | nil => exact List.nodup_nil
  | cons c l ih =>
    rw [lastOfEach]
    split
    · exact ih
    · rename_i hany
      rw [List.map_cons, List.nodup_cons]
      refine ⟨fun hmem => hany ?_, ih⟩
      obtain ⟨d, hd, hname⟩ := List.mem_map.1 hmem
      exact List.any_eq_true.2 ⟨d, mem_lastOfEach hd, by simpa using hname⟩

theorem lastOfEach_of_nodup {l : List ProcessConfig} (h : (l.map (·.name)).Nodup) :
    lastOfEach l = l := by
  induction l with
  | nil => rfl
  | cons c l ih =>
    rw [List.map_cons, List.nodup_cons] at h
    have hnone : ¬l.any (·.name = c.name) = true := by
      intro hany
      obtain ⟨d, hd, hname⟩ := List.any_eq_true.1 hany
      exact h.1 (List.mem_map.2 ⟨d, hd, by simpa using hname⟩)
    rw [lastOfEach, if_neg hnone, ih h.2]

theorem length_lastOfEach_le (l : List ProcessConfig) : (lastOfEach l).length ≤ l.length := by
  induction l with
  | nil => exact Nat.le_refl _
  | cons c l ih =>
    rw [lastOfEach]
    split
    · exact Nat.le_succ_of_le ih
    · exact Nat.succ_le_succ ih

/-- The configs put, each over what was under its key before. -/
theorem lookup_puts (l : List ProcessConfig) (db : Dict String Stored) (key : String)
    (value : Stored) :
    (l.foldl (fun db c => db.insert (configKey c.name) (.config c)) db).lookup key = some value ↔
      (∃ c ∈ lastOfEach l, key = configKey c.name ∧ value = .config c) ∨
        (key ∉ l.map (fun c => configKey c.name) ∧ db.lookup key = some value) := by
  induction l generalizing db with
  | nil => simp [lastOfEach]
  | cons c l ih =>
    rw [List.foldl_cons, ih, Dict.lookup_insert_eq, lastOfEach, List.map_cons, List.mem_cons, not_or]
    by_cases hany : l.any (·.name = c.name) = true
    · rw [if_pos hany]
      obtain ⟨d, hd, hname⟩ := List.any_eq_true.1 hany
      have hlater : configKey c.name ∈ l.map fun c => configKey c.name :=
        List.mem_map.2 ⟨d, hd, by rw [show d.name = c.name by simpa using hname]⟩
      refine or_congr_right ⟨fun ⟨hkey, hvalue⟩ => ?_, fun ⟨⟨hne, hkey⟩, hvalue⟩ => ?_⟩
      · have hne : key ≠ configKey c.name := fun heq => hkey (heq ▸ hlater)
        rw [if_neg hne] at hvalue
        exact ⟨⟨hne, hkey⟩, hvalue⟩
      · rw [if_neg hne]
        exact ⟨hkey, hvalue⟩
    · rw [if_neg hany]
      have hlast : configKey c.name ∉ l.map fun c => configKey c.name := by
        intro hmem
        obtain ⟨d, hd, hname⟩ := List.mem_map.1 hmem
        exact hany (List.any_eq_true.2 ⟨d, hd, by simpa using configKey_inj hname⟩)
      by_cases hkey : key = configKey c.name
      · constructor
        · rintro (⟨d, hd, hkeyd, hvalue⟩ | ⟨-, hvalue⟩)
          · exact .inl ⟨d, List.mem_cons_of_mem _ hd, hkeyd, hvalue⟩
          · rw [if_pos hkey] at hvalue
            exact .inl ⟨c, List.mem_cons_self, hkey, (Option.some.inj hvalue).symm⟩
        · rintro (⟨d, hd, hkeyd, hvalue⟩ | ⟨⟨hne, -⟩, -⟩)
          · rcases List.mem_cons.1 hd with rfl | hd
            · exact .inr ⟨hkey ▸ hlast, by rw [if_pos hkey, hvalue]⟩
            · exact .inl ⟨d, hd, hkeyd, hvalue⟩
          · exact absurd hkey hne
      · rw [if_neg hkey]
        constructor
        · rintro (⟨d, hd, hkeyd, hvalue⟩ | ⟨hnot, hvalue⟩)
          · exact .inl ⟨d, List.mem_cons_of_mem _ hd, hkeyd, hvalue⟩
          · exact .inr ⟨⟨hkey, hnot⟩, hvalue⟩
        · rintro (⟨d, hd, hkeyd, hvalue⟩ | ⟨⟨-, hnot⟩, hvalue⟩)
          · rcases List.mem_cons.1 hd with rfl | hd
            · exact absurd hkeyd hkey
            · exact .inl ⟨d, hd, hkeyd, hvalue⟩
          · exact .inr ⟨hnot, hvalue⟩

section

variable {s : StateStore} {old new : List ProcessConfig}

/-- The operation of a save that meets a fault, by its number; the number of all if none does. -/
def tornAt (s : StateStore) (new : List ProcessConfig) : Nat :=
  faultAt s.faults (2 * (keysWithPrefix s.db "config:").length + new.length + 3)

/-- The configs that a save has not deleted when it is torn, and those that it has put. -/
def leftOver (s : StateStore) (old new : List ProcessConfig) : List ProcessConfig :=
  let keys := keysWithPrefix s.db "config:"
  (old.filter fun c => configKey c.name ∉ keys.take (tornAt s new - (keys.length + 2))) ++
    lastOfEach (new.take (tornAt s new - (2 * keys.length + 2)))

/-- What the first operations of a save do: deletions first, then what is put. -/
theorem foldl_saveOperations (keys : List String) (new : List ProcessConfig) (count : Nat)
    (db : Dict String Stored) :
    ((("scan", id) :: saveOperations keys new).take count).foldl (fun db op => op.2 db) db =
      (new.take (count - (2 * keys.length + 2))).foldl
        (fun db c => db.insert (configKey c.name) (.config c))
        ((keys.take (count - (keys.length + 2))).foldl (fun db key => db.erase key) db) := by
  have hid : ∀ (l : List String) (db : Dict String Stored), l.foldl (fun db _ => id db) db = db := by
    intro l
    induction l with
    | nil => exact fun _ => rfl
    | cons _ l ih => exact ih
  have hone : ∀ (n : Nat) (what : String) (db : Dict String Stored),
      ([(what, (id : Dict String Stored → Dict String Stored))].take n).foldl
        (fun db op => op.2 db) db = db := by
    intro n what db
    cases n <;> simp
  cases count with
  | zero => simp
  | succ k =>
    have hdeletes : k - keys.length - 1 = k + 1 - (keys.length + 2) := by omega
    have hputs : k + 1 - (keys.length + 2) - keys.length = k + 1 - (2 * keys.length + 2) := by omega
    rw [List.take_succ_cons, List.foldl_cons, saveOperations]
    simp only [List.take_append, List.foldl_append, List.length_map, List.length_singleton,
      ← List.map_take, List.foldl_map, hid, hone, hdeletes, hputs]
    rfl

theorem mem_keys_of_holds (hold : Holds s.db old) {c : ProcessConfig} (hc : c ∈ old) :
    configKey c.name ∈ keysWithPrefix s.db "config:" := by
  have hlookup := (hold (configKey c.name) (.config c) (startsWith_configKey _)).2 ⟨c, hc, rfl, rfl⟩
  exact mem_keysWithPrefix.2 ⟨by rw [hlookup]; rfl, startsWith_configKey _⟩

/-- As long as an old config is left, nothing has been put. -/
theorem puts_nil_of_left (hold : Holds s.db old) {c : ProcessConfig} (hc : c ∈ old)
    (hleft : configKey c.name ∉ (keysWithPrefix s.db "config:").take
      (tornAt s new - ((keysWithPrefix s.db "config:").length + 2))) :
    tornAt s new - (2 * (keysWithPrefix s.db "config:").length + 2) = 0 := by
  have hmem := mem_keys_of_holds hold hc
  by_contra hput
  rw [List.take_of_length_le (by omega)] at hleft
  exact hleft hmem

/-- A save that is torn leaves the store with what it has not deleted and what it has put. -/
theorem holds_torn (hold : Holds s.db old) : Holds (final (save new) s).db (leftOver s old new) := by
  have hdb := final_perform
    (("scan", id) :: saveOperations (keysWithPrefix s.db "config:") new) s
  have hrun : final (save new) s =
      final (forEach (("scan", id) :: saveOperations (keysWithPrefix s.db "config:") new) perform)
        s := by
    unfold final
    rw [save_eq]
  have hcount : (("scan", (id : Dict String Stored → Dict String Stored)) ::
      saveOperations (keysWithPrefix s.db "config:") new).length =
        2 * (keysWithPrefix s.db "config:").length + new.length + 3 := by
    simp [saveOperations]
    omega
  rw [hcount, foldl_saveOperations] at hdb
  intro key value hpre
  rw [hrun, hdb, lookup_puts, Dict.lookup_foldl_erase, ← tornAt]
  unfold leftOver
  simp only [List.mem_append, or_and_right, exists_or]
  rw [or_comm]
  refine or_congr_left ⟨fun ⟨hkey, hvalue⟩ => ?_, fun ⟨c, hc, hkey, hvalue⟩ => ?_⟩
  · split at hvalue
    · cases hvalue
    · rename_i hleft
      obtain ⟨c, hc, rfl, rfl⟩ := (hold key value hpre).1 hvalue
      exact ⟨c, List.mem_filter.2 ⟨hc, by simpa using hleft⟩, rfl, rfl⟩
  · obtain ⟨hc, hleft⟩ := List.mem_filter.1 hc
    have hleft := of_decide_eq_true hleft
    rw [puts_nil_of_left hold hc hleft, List.take_zero]
    subst hkey hvalue
    refine ⟨by simp, ?_⟩
    rw [if_neg hleft]
    exact (hold _ _ hpre).2 ⟨c, hc, rfl, rfl⟩

theorem nodup_leftOver (new : List ProcessConfig) (hold : Holds s.db old)
    (hnames : (old.map (·.name)).Nodup) :
    ((leftOver s old new).map (·.name)).Nodup := by
  unfold leftOver
  dsimp only
  rw [List.map_append]
  refine List.nodup_append.2 ⟨hnames.sublist (List.filter_sublist.map _), nodup_lastOfEach _, ?_⟩
  intro name hname name' hname' heq
  obtain ⟨c, hc, -⟩ := List.mem_map.1 hname
  obtain ⟨hc, hleft⟩ := List.mem_filter.1 hc
  rw [puts_nil_of_left hold hc (of_decide_eq_true hleft), List.take_zero] at hname'
  cases hname'

/-- The store opened again after a crash or a failure: nothing fails any more. -/
def reopened (s : StateStore) : StateStore := { s with faults := [] }

theorem load_torn (hold : Holds s.db old) (hnames : (old.map (·.name)).Nodup)
    (new : List ProcessConfig) :
    ∃ loaded, result load (reopened (final (save new) s)) = .ok loaded ∧
      loaded.Perm (leftOver s old new) := by
  have hs : Faultless (reopened (final (save new) s)) := fun f hf => nomatch hf
  obtain ⟨loaded, s', hload, hperm⟩ :=
    load_holds hs (nodup_leftOver new hold hnames) (holds_torn hold)
  refine ⟨loaded, ?_, hperm⟩
  unfold result
  rw [hload]

/-! ## When a torn save is old or new -/

theorem map_configKey_nodup (hnames : (old.map (·.name)).Nodup) :
    (old.map fun c => configKey c.name).Nodup := by
  have hmapped := hnames.map fun a b => configKey_inj (a := a) (b := b)
  rwa [List.map_map] at hmapped

/-- The keys of a store are those of the configs that it holds. -/
theorem keys_perm (hold : Holds s.db old) (hnames : (old.map (·.name)).Nodup) :
    (keysWithPrefix s.db "config:").Perm (old.map fun c => configKey c.name) := by
  refine (List.perm_ext_iff_of_nodup (nodup_keysWithPrefix _ _) (map_configKey_nodup hnames)).2 ?_
  intro key
  constructor
  · intro hkey
    obtain ⟨hsome, hpre⟩ := mem_keysWithPrefix.1 hkey
    obtain ⟨value, hvalue⟩ := Option.isSome_iff_exists.1 hsome
    obtain ⟨c, hc, rfl, -⟩ := (hold key value hpre).1 hvalue
    exact List.mem_map.2 ⟨c, hc, rfl⟩
  · intro hkey
    obtain ⟨c, hc, rfl⟩ := List.mem_map.1 hkey
    exact mem_keys_of_holds hold hc

/-- Deleting some of the keys leaves fewer configs. -/
theorem length_left_lt (hold : Holds s.db old) (hnames : (old.map (·.name)).Nodup) {count : Nat}
    (hcount : 0 < count) (hsome : 0 < (keysWithPrefix s.db "config:").length) :
    (old.filter fun c => configKey c.name ∉ (keysWithPrefix s.db "config:").take count).length <
      old.length := by
  obtain ⟨key, rest, hkeys⟩ := List.exists_cons_of_length_pos hsome
  have hkey : key ∈ old.map fun c => configKey c.name :=
    (keys_perm hold hnames).mem_iff.1 (by rw [hkeys]; exact List.mem_cons_self)
  obtain ⟨c, hc, rfl⟩ := List.mem_map.1 hkey
  have hdeleted : configKey c.name ∈ (keysWithPrefix s.db "config:").take count := by
    obtain ⟨k, rfl⟩ := Nat.exists_eq_add_of_lt hcount
    rw [hkeys, Nat.zero_add, List.take_succ_cons]
    exact List.mem_cons_self
  refine List.length_filter_lt_length_iff_exists.2 ⟨c, hc, ?_⟩
  simpa using hdeleted

theorem left_nil (hold : Holds s.db old) {count : Nat}
    (hcount : (keysWithPrefix s.db "config:").length ≤ count) :
    (old.filter fun c => configKey c.name ∉ (keysWithPrefix s.db "config:").take count) = [] := by
  refine List.filter_eq_nil_iff.2 fun c hc => ?_
  rw [List.take_of_length_le hcount]
  simpa using mem_keys_of_holds hold hc

/-- What is put is all of the new configs only when all are put and their names differ. -/
theorem lastOfEach_take_perm_iff {new : List ProcessConfig} {count : Nat} :
    (lastOfEach (new.take count)).Perm new ↔ new.length ≤ count ∧ (new.map (·.name)).Nodup := by
  constructor
  · intro hperm
    have hlength := length_lastOfEach_le (new.take count)
    rw [hperm.length_eq, List.length_take] at hlength
    exact ⟨by omega, ((hperm.map (·.name)).nodup_iff).1 (nodup_lastOfEach _)⟩
  · rintro ⟨hcount, hnames⟩
    rw [List.take_of_length_le hcount, lastOfEach_of_nodup hnames]

/-- A save that is torn nowhere that matters: before its first deletion; after its last put, of
configs with names that differ; while deleting, where what is left is what was to be saved; or
while putting, where what is put is what was saved before. -/
def Untorn (s : StateStore) (old new : List ProcessConfig) : Prop :=
  let keys := keysWithPrefix s.db "config:"
  let deletes := tornAt s new - (keys.length + 2)
  let puts := tornAt s new - (2 * keys.length + 2)
  deletes = 0 ∨
    (deletes < keys.length ∧ (old.filter fun c => configKey c.name ∉ keys.take deletes).Perm new) ∨
    (keys.length ≤ deletes ∧ new.length ≤ puts ∧ (new.map (·.name)).Nodup) ∨
    (keys.length ≤ deletes ∧ (lastOfEach (new.take puts)).Perm old)

/-- A load after a save that failed or crashed at one of its operations returns the configs saved
before or the new ones exactly if the save is torn nowhere that matters. -/
theorem load_torn_iff (hold : Holds s.db old) (hnames : (old.map (·.name)).Nodup)
    (new : List ProcessConfig) :
    (∃ loaded, result load (reopened (final (save new) s)) = .ok loaded ∧
      (loaded.Perm old ∨ loaded.Perm new)) ↔ Untorn s old new := by
  obtain ⟨loaded, hload, hperm⟩ := load_torn hold hnames new
  have hleft : (∃ loaded, result load (reopened (final (save new) s)) = .ok loaded ∧
      (loaded.Perm old ∨ loaded.Perm new)) ↔
      (leftOver s old new).Perm old ∨ (leftOver s old new).Perm new := by
    constructor
    · rintro ⟨loaded', hload', hor⟩
      rw [hload] at hload'
      cases hload'
      exact hor.imp hperm.symm.trans hperm.symm.trans
    · exact fun hor => ⟨loaded, hload, hor.imp hperm.trans hperm.trans⟩
  rw [hleft]
  unfold leftOver Untorn
  dsimp only
  generalize hdeletes : tornAt s new - ((keysWithPrefix s.db "config:").length + 2) = deletes
  generalize hputs : tornAt s new - (2 * (keysWithPrefix s.db "config:").length + 2) = puts
  rcases Nat.eq_zero_or_pos deletes with rfl | hpos
  · -- nothing is deleted yet
    have hnone : puts = 0 := by omega
    rw [hnone, List.take_zero, List.take_zero, lastOfEach, List.append_nil]
    exact iff_of_true (.inl (by simp)) (.inl rfl)
  · have hzero : deletes ≠ 0 := Nat.pos_iff_ne_zero.1 hpos
    rcases Nat.lt_or_ge deletes (keysWithPrefix s.db "config:").length with hlt | hge
    · -- something is deleted, but not everything
      have hnone : puts = 0 := by omega
      have hshort := length_left_lt hold hnames hpos (Nat.zero_lt_of_lt hlt)
      rw [hnone, List.take_zero, lastOfEach, List.append_nil]
      generalize (old.filter fun c => configKey c.name ∉
        (keysWithPrefix s.db "config:").take deletes) = left at hshort
      have hnot : ¬left.Perm old := fun h => absurd h.length_eq (Nat.ne_of_lt hshort)
      simp [hnot, hzero, hlt, Nat.not_le.2 hlt]
    · -- everything is deleted
      rw [left_nil hold hge, List.nil_append, lastOfEach_take_perm_iff]
      simp [hzero, hge, Nat.not_lt.2 hge, or_comm]

end

/-- A store that a save has filled, and of which the operation with the given number fails. -/
def failingStore (saved : List ProcessConfig) (count : Nat) : StateStore :=
  { final (save saved) empty with faults := List.replicate count none ++ [some "no space left"] }

theorem holds_failingStore {saved : List ProcessConfig} (hnames : (saved.map (·.name)).Nodup)
    (hsaved : save saved empty = .ok () (final (save saved) empty)) (count : Nat) :
    Holds (failingStore saved count).db saved := by
  have hold : Holds (final (save saved) empty).db saved := save_ok hnames hsaved
  exact hold

/-- Two apps, and a later table in which one of them is left. -/
def jobAndWeb : List ProcessConfig := [.plain "job" "sleep", .plain "web" "server"]

def webAndSite : List ProcessConfig := [.plain "web" "server", .plain "site" "files"]

/-- A save that fails while it lists the old keys leaves the old configs. -/
theorem load_torn_at_listing :
    ∃ loaded, result load (reopened (final (save webAndSite) (failingStore jobAndWeb 2))) =
        .ok loaded ∧ (loaded.Perm jobAndWeb ∨ loaded.Perm webAndSite) :=
  (load_torn_iff (holds_failingStore (by decide) rfl 2) (by decide) webAndSite).2
    (.inl (by decide +kernel))

def jobs : List ProcessConfig := [.plain "job" "sleep"]

/-- One that fails at its put, after the delete, leaves nothing. -/
theorem load_torn_at_put :
    Holds (failingStore jobs 4).db jobs ∧
      result load (reopened (final (save jobs) (failingStore jobs 4))) = .ok [] ∧
      ¬∃ loaded, result load (reopened (final (save jobs) (failingStore jobs 4))) = .ok loaded ∧
        (loaded.Perm jobs ∨ loaded.Perm jobs) := by
  have hload : result load (reopened (final (save jobs) (failingStore jobs 4))) = .ok [] := by rfl
  refine ⟨holds_failingStore (by decide) rfl 4, hload, ?_⟩
  rintro ⟨loaded, hloaded, hperm⟩
  rw [hload] at hloaded
  cases hloaded
  rcases hperm with hperm | hperm <;> exact absurd hperm.length_eq (by decide)

/-! ## Without faults -/

theorem forEach_faultless (ops : List (String × (Dict String Stored → Dict String Stored)))
    {s : StateStore} (hs : Faultless s) :
    ∃ s', forEach ops perform s = .ok () s' ∧ s'.db = ops.foldl (fun db op => op.2 db) s.db ∧
      Faultless s' := by
  induction ops generalizing s with
  | nil => exact ⟨s, rfl, rfl, hs⟩
  | cons op ops ih =>
    obtain ⟨s₁, hop, hdb, hs₁⟩ := operation_faultless op.1 op.2 hs
    obtain ⟨s', hrest, hdb', hs'⟩ := ih hs₁
    have hperform : perform op s = .ok () s₁ := hop
    refine ⟨s', ?_, ?_, hs'⟩
    · rw [forEach, run_bind, hperform]
      exact hrest
    · rw [hdb', hdb, List.foldl_cons]

/-- A save changes nothing but the configs. -/
theorem save_faultless (configs : List ProcessConfig) {s : StateStore} (hs : Faultless s) :
    ∃ s', save configs s = .ok () s' ∧ Faultless s' ∧
      ∀ key, Text.startsWith key "config:" = false → s'.db.lookup key = s.db.lookup key := by
  obtain ⟨s', hrun, hdb, hs'⟩ := forEach_faultless
    (("scan", id) :: saveOperations (keysWithPrefix s.db "config:") configs) hs
  refine ⟨s', (save_eq configs s).trans hrun, hs', fun key hpre => ?_⟩
  have hne : ∀ name, key ≠ configKey name := by
    rintro name rfl
    rw [startsWith_configKey] at hpre
    cases hpre
  have hold : key ∉ keysWithPrefix s.db "config:" := by
    intro hkey
    rw [(mem_keysWithPrefix.1 hkey).2] at hpre
    cases hpre
  have hall := foldl_saveOperations (keysWithPrefix s.db "config:") configs
    (("scan", (id : Dict String Stored → Dict String Stored)) ::
      saveOperations (keysWithPrefix s.db "config:") configs).length s.db
  rw [List.take_length] at hall
  rw [hdb, hall, Dict.lookup_foldl_insert_of_notMem, Dict.lookup_foldl_erase, if_neg]
  · exact fun hkey => hold (List.mem_of_mem_take hkey)
  · intro hkey
    obtain ⟨c, -, hname⟩ := List.mem_map.1 hkey
    exact hne c.name hname.symm

theorem put_faultless (key value : String) {s : StateStore} (hs : Faultless s) :
    ∃ s', put key value s = .ok () s' ∧ s'.db = s.db.insert key (.text value) ∧ Faultless s' := by
  obtain ⟨s₁, hput, hdb, hs₁⟩ := operation_faultless "put" (·.insert key (.text value)) hs
  obtain ⟨s', hflush, hdb', hs'⟩ := operation_faultless "flush" id hs₁
  refine ⟨s', ?_, hdb'.trans hdb, hs'⟩
  rw [put, run_bind, hput]
  exact hflush

/-- The text under a key, where there is one. -/
def textAt (db : Dict String Stored) (key : String) : Option String :=
  match db.lookup key with
  | some (.text value) => some value
  | _ => none

theorem lookup_faultless (key : String) {s : StateStore} (hs : Faultless s) :
    ∃ s', lookup key s = .ok (textAt s.db key) s' ∧ s'.db = s.db ∧ Faultless s' := by
  obtain ⟨s', hget, hdb, hs'⟩ := operation_faultless "get" id hs
  refine ⟨s', ?_, hdb, hs'⟩
  unfold lookup textAt
  rw [hget]
  dsimp only
  cases s.db.lookup key with
  | none => rfl
  | some value => cases value <;> rfl

theorem loadCloud_faultless {s : StateStore} (hs : Faultless s) :
    result Cloud.loadCloudConfig s = .ok ((textAt s.db Cloud.apiKey).map fun key =>
      (key, (textAt s.db Cloud.serverUrl).getD Cloud.defaultCloudUrl)) := by
  obtain ⟨s₁, hkey, hdb, hs₁⟩ := lookup_faultless Cloud.apiKey hs
  obtain ⟨s₂, hurl, -, -⟩ := lookup_faultless Cloud.serverUrl hs₁
  rw [hdb] at hurl
  unfold result Cloud.loadCloudConfig
  rw [run_bind, hkey]
  cases textAt s.db Cloud.apiKey with
  | none => rfl
  | some key =>
    dsimp only
    rw [run_bind, hurl]
    rfl

theorem saveCloud_faultless (key : String) {s : StateStore} (hs : Faultless s) :
    ∃ s', Cloud.saveCloudConfig key s = .ok () s' ∧ s'.db = (s.db.insert Cloud.apiKey
      (.text key)).insert Cloud.serverUrl (.text Cloud.defaultCloudUrl) ∧ Faultless s' := by
  obtain ⟨s₁, hkey, hdb, hs₁⟩ := put_faultless Cloud.apiKey key hs
  obtain ⟨s', hurl, hdb', hs'⟩ := put_faultless Cloud.serverUrl Cloud.defaultCloudUrl hs₁
  refine ⟨s', ?_, by rw [hdb', hdb], hs'⟩
  rw [Cloud.saveCloudConfig, run_bind, hkey]
  exact hurl

theorem removeCloud_faultless {s : StateStore} (hs : Faultless s) :
    ∃ s', Cloud.removeCloudConfig s = .ok () s' ∧
      s'.db = (s.db.erase Cloud.apiKey).erase Cloud.serverUrl ∧ Faultless s' := by
  obtain ⟨s₁, hkey, hdb, hs₁⟩ := operation_faultless "delete" (·.erase Cloud.apiKey) hs
  obtain ⟨s', hurl, hdb', hs'⟩ := operation_faultless "delete" (·.erase Cloud.serverUrl) hs₁
  refine ⟨s', ?_, by rw [hdb', hdb], hs'⟩
  rw [Cloud.removeCloudConfig, run_bind, delete, hkey]
  exact hurl

/-- The keys with a prefix are those that are looked up. -/
theorem keysWithPrefix_congr {db db' : Dict String Stored} {pre : String}
    (h : ∀ key, Text.startsWith key pre = true → db.lookup key = db'.lookup key) :
    keysWithPrefix db pre = keysWithPrefix db' pre := by
  have hperm : (keysWithPrefix db pre).Perm (keysWithPrefix db' pre) := by
    refine (List.perm_ext_iff_of_nodup (nodup_keysWithPrefix _ _)
      (nodup_keysWithPrefix _ _)).2 fun key => ?_
    rw [mem_keysWithPrefix, mem_keysWithPrefix]
    refine and_congr_left fun hpre => ?_
    rw [h key hpre]
  have hsorted : ∀ db, (keysWithPrefix db pre).SortedLE := fun db =>
    (List.pairwise_insertionSort (· ≤ ·) _).sortedLE
  exact hperm.eq_of_sortedLE (hsorted db) (hsorted db')

theorem load_faultless {s : StateStore} (hs : Faultless s) :
    result load s = .ok ((keysWithPrefix s.db "config:").filterMap (configAt s.db)) := by
  obtain ⟨s₁, hscan, hdb, hs₁⟩ := operation_faultless "scan" id hs
  obtain ⟨s', hkeys⟩ := loadKeys_faultless (keysWithPrefix s.db "config:") hs₁
  rw [hdb, id] at hkeys
  unfold result load
  rw [hscan]
  dsimp only
  rw [hkeys]

/-- What is loaded depends on the configs alone. -/
theorem load_congr {s s' : StateStore} (hs : Faultless s) (hs' : Faultless s')
    (h : ∀ key, Text.startsWith key "config:" = true → s.db.lookup key = s'.db.lookup key) :
    result load s = result load s' := by
  rw [load_faultless hs, load_faultless hs', keysWithPrefix_congr h]
  congr 1
  refine List.filterMap_congr fun key hkey => ?_
  rw [configAt, configAt, h key (mem_keysWithPrefix.1 hkey).2]

/-! ## Saving, linking and unlinking -/

/-- A process table of a daemon: every app stands under its own name. -/
abbrev KeyedTable : Type := { m : ProcessManager // Server.Keyed m }

/-- The requests that go to the store. -/
inductive Call where
  | save (table : KeyedTable)
  | link (apiKey : String)
  | unlink

namespace Call

/-- What the handler of a request does to the store (src/server.rs:166-212). -/
def program : Call → Storage Unit
  | save table => StateStore.save (Process.getConfigs table.1)
  | link apiKey => Cloud.saveCloudConfig apiKey
  | unlink => Cloud.removeCloudConfig

/-- The configs that a call saves. -/
def saved : Call → Option (List ProcessConfig)
  | save table => some (Process.getConfigs table.1)
  | _ => none

/-- The key that a call leaves linked, where it is about the link. -/
def linked : Call → Option (Option String)
  | link apiKey => some (some apiKey)
  | unlink => some none
  | save _ => none

end Call

/-- One store that is called again and again. -/
def machine : Machine StateStore Call (Except String Unit) :=
  ⟨fun s call => (final call.program s, result call.program s)⟩

/-- The configs of the last save. -/
def lastSaved (calls : List Call) : Option (List ProcessConfig) :=
  (calls.filterMap Call.saved).getLast?

/-- The key that is linked after the last call that is about the link. -/
def lastLinked (calls : List Call) : Option (Option String) :=
  (calls.filterMap Call.linked).getLast?

theorem lastSaved_append (front back : List Call) :
    lastSaved (front ++ back) = (lastSaved back).or (lastSaved front) := by
  rw [lastSaved, List.filterMap_append, List.getLast?_append]
  rfl

theorem lastLinked_append (front back : List Call) :
    lastLinked (front ++ back) = (lastLinked back).or (lastLinked front) := by
  rw [lastLinked, List.filterMap_append, List.getLast?_append]
  rfl

/-- The configs that were saved last, or those of before. -/
def ConfigsAfter (s s' : StateStore) : Option (List ProcessConfig) → Prop
  | some configs => Holds s'.db configs ∧ (configs.map (·.name)).Nodup
  | none => ∀ key, Text.startsWith key "config:" = true → s'.db.lookup key = s.db.lookup key

/-- The key that was linked last, none after an unlink, or what was linked before. -/
def LinkAfter (s s' : StateStore) : Option (Option String) → Prop
  | some (some key) => textAt s'.db Cloud.apiKey = some key ∧
      textAt s'.db Cloud.serverUrl = some Cloud.defaultCloudUrl
  | some none => textAt s'.db Cloud.apiKey = none
  | none => ∀ key, Text.startsWith key "config:" = false → s'.db.lookup key = s.db.lookup key

theorem ConfigsAfter.trans {s₀ s₁ s₂ : StateStore} {o o' : Option (List ProcessConfig)}
    (hfront : ConfigsAfter s₀ s₁ o) (hback : ConfigsAfter s₁ s₂ o') :
    ConfigsAfter s₀ s₂ (o'.or o) := by
  cases o' with
  | some configs => exact hback
  | none =>
    cases o with
    | none => exact fun key hpre => (hback key hpre).trans (hfront key hpre)
    | some configs =>
      refine ⟨fun key value hpre => ?_, hfront.2⟩
      rw [hback key hpre]
      exact hfront.1 key value hpre

theorem textAt_congr {db db' : Dict String Stored} {key : String}
    (h : db.lookup key = db'.lookup key) : textAt db key = textAt db' key := by
  rw [textAt, textAt, h]

theorem LinkAfter.trans {s₀ s₁ s₂ : StateStore} {o o' : Option (Option String)}
    (hfront : LinkAfter s₀ s₁ o) (hback : LinkAfter s₁ s₂ o') : LinkAfter s₀ s₂ (o'.or o) := by
  cases o' with
  | some link =>
    rw [Option.some_or]
    cases link <;> exact hback
  | none =>
    have hkey := textAt_congr (hback Cloud.apiKey rfl)
    have hurl := textAt_congr (hback Cloud.serverUrl rfl)
    rcases o with _ | _ | key
    · exact fun key hpre => (hback key hpre).trans (hfront key hpre)
    · exact hkey.trans hfront
    · exact ⟨hkey.trans hfront.1, hurl.trans hfront.2⟩

/-- What calls leave in a store: configs and link, each as it was last set. -/
structure Keeps (s s' : StateStore) (calls : List Call) : Prop where
  faultless : Faultless s'
  configs : ConfigsAfter s s' (lastSaved calls)
  link : LinkAfter s s' (lastLinked calls)

theorem Keeps.trans {s₀ s₁ s₂ : StateStore} {front back : List Call} (hfront : Keeps s₀ s₁ front)
    (hback : Keeps s₁ s₂ back) : Keeps s₀ s₂ (front ++ back) := by
  refine ⟨hback.faultless, ?_, ?_⟩
  · rw [lastSaved_append]
    exact hfront.configs.trans hback.configs
  · rw [lastLinked_append]
    exact hfront.link.trans hback.link

theorem step_of_run {s s' : StateStore} (call : Call) (h : call.program s = .ok () s') :
    machine.step s call = (s', .ok ()) := by
  change (final call.program s, result call.program s) = _
  unfold final result
  rw [h]

/-- The keys of the cloud are not those of configs. -/
theorem not_cloud_of_config {key : String} (h : Text.startsWith key "config:" = true) :
    key ≠ Cloud.apiKey ∧ key ≠ Cloud.serverUrl := by
  constructor <;> (rintro rfl; exact absurd h (by decide))

/-- One call succeeds, and keeps what it is not about. -/
theorem keeps_call {s : StateStore} (hs : Faultless s) (call : Call) :
    machine.answer s call = .ok () ∧ Keeps s (machine.next s call) [call] := by
  cases call with
  | save table =>
    obtain ⟨s', hrun, hs', hother⟩ := save_faultless (Process.getConfigs table.1) hs
    have hnames := Process.nodup_getConfigs table.2
    rw [Machine.answer, Machine.next, step_of_run (.save table) hrun]
    exact ⟨rfl, hs', ⟨save_ok hnames hrun, hnames⟩, hother⟩
  | link apiKey =>
    obtain ⟨s', hrun, hdb, hs'⟩ := saveCloud_faultless apiKey hs
    rw [Machine.answer, Machine.next, step_of_run (.link apiKey) hrun]
    refine ⟨rfl, hs', fun key hpre => ?_, ?_, ?_⟩
    · obtain ⟨hkey, hurl⟩ := not_cloud_of_config hpre
      rw [hdb, Dict.lookup_insert_eq, if_neg hurl, Dict.lookup_insert_eq, if_neg hkey]
    · have hne : Cloud.apiKey ≠ Cloud.serverUrl := by decide
      rw [textAt, hdb, Dict.lookup_insert_eq, if_neg hne, Dict.lookup_insert_eq, if_pos rfl]
    · rw [textAt, hdb, Dict.lookup_insert_eq, if_pos rfl]
  | unlink =>
    obtain ⟨s', hrun, hdb, hs'⟩ := removeCloud_faultless hs
    rw [Machine.answer, Machine.next, step_of_run .unlink hrun]
    refine ⟨rfl, hs', fun key hpre => ?_, ?_⟩
    · obtain ⟨hkey, hurl⟩ := not_cloud_of_config hpre
      rw [hdb, Dict.lookup_erase_eq, if_neg hurl, Dict.lookup_erase_eq, if_neg hkey]
    · have hne : Cloud.apiKey ≠ Cloud.serverUrl := by decide
      change textAt _ Cloud.apiKey = none
      rw [textAt, hdb, Dict.lookup_erase_eq, if_neg hne, Dict.lookup_erase_eq, if_pos rfl]

theorem keeps_run (calls : List Call) {s : StateStore} (hs : Faultless s) :
    machine.Along (fun s call => machine.answer s call = .ok ()) s calls ∧
      Keeps s (machine.run s calls) calls := by
  induction calls generalizing s with
  | nil => exact ⟨trivial, hs, fun _ _ => rfl, fun _ _ => rfl⟩
  | cons call calls ih =>
    obtain ⟨hok, hcall⟩ := keeps_call hs call
    obtain ⟨hrest, hkeeps⟩ := ih hcall.faultless
    exact ⟨⟨hok, hrest⟩, hcall.trans hkeeps⟩

/-- After any saves, links and unlinks, all of which succeed, a load returns exactly the configs
of the last save, each once, and the link is the last one made, or none after an unlink; where
there was no such call, what was there before. -/
theorem run_remembers {s : StateStore} (hs : Faultless s) (calls : List Call) :
    machine.Along (fun s call => machine.answer s call = .ok ()) s calls ∧
      (match lastSaved calls with
        | some configs => ∃ loaded, result load (machine.run s calls) = .ok loaded ∧
            loaded.Perm configs ∧ (loaded.map (·.name)).Nodup
        | none => result load (machine.run s calls) = result load s) ∧
      (match lastLinked calls with
        | some (some key) =>
          result Cloud.loadCloudConfig (machine.run s calls) = .ok (some (key, Cloud.defaultCloudUrl))
        | some none => result Cloud.loadCloudConfig (machine.run s calls) = .ok none
        | none => result Cloud.loadCloudConfig (machine.run s calls) =
            result Cloud.loadCloudConfig s) := by
  obtain ⟨hok, hs', hconfigs, hlink⟩ := keeps_run calls hs
  refine ⟨hok, ?_, ?_⟩
  · cases hsaved : lastSaved calls with
    | none =>
      rw [hsaved] at hconfigs
      exact load_congr hs' hs hconfigs
    | some configs =>
      rw [hsaved] at hconfigs
      obtain ⟨loaded, s'', hload, hperm⟩ := load_holds hs' hconfigs.2 hconfigs.1
      refine ⟨loaded, ?_, hperm, (hperm.map (·.name)).nodup_iff.2 hconfigs.2⟩
      rw [result, hload]
  · rw [loadCloud_faultless hs', loadCloud_faultless hs]
    rcases hlinked : lastLinked calls with _ | _ | key <;> rw [hlinked] at hlink
    · rw [textAt_congr (hlink Cloud.apiKey rfl), textAt_congr (hlink Cloud.serverUrl rfl)]
    · have hnone : textAt (machine.run s calls).db Cloud.apiKey = none := hlink
      dsimp only
      rw [hnone]
      rfl
    · dsimp only
      rw [hlink.1, hlink.2]
      rfl

end StateStore

/-! ## The handlers -/

namespace Server

open StateStore

variable (os : Os) (st : DaemonState)

theorem handleSave_store (hk : Keyed st.processMgr) : (handleSave os st).1.stateStore =
    StateStore.machine.next { st.stateStore with faults := os.storeFaults }
      (.save ⟨st.processMgr, hk⟩) := by
  rw [handleSave_fst]
  rfl

theorem handleLink_store (key : String) : (handleLink os st key).1.stateStore =
    StateStore.machine.next { st.stateStore with faults := os.storeFaults } (.link key) := by
  obtain ⟨shutdown, hlink⟩ := handleLink_fst os st key
  rw [hlink]
  rfl

theorem handleUnlink_store : (handleUnlink os st).1.stateStore =
    StateStore.machine.next { st.stateStore with faults := os.storeFaults } .unlink := by
  rw [handleUnlink_fst]
  rfl

end Server

namespace Daemon

open StateStore

/-- The table of a daemon that runs one job. -/
def jobTable : KeyedTable :=
  ⟨(daemonAfter jobRequest).processMgr,
    keyed_reaches (reaches_daemonAfter jobRequest) (keyed_runDaemon _ _ _)⟩

/-- A link between two saves is kept, and the second save is what is loaded. -/
theorem run_remembers_job :
    (∃ loaded, result load (StateStore.machine.run .empty
        [.save ⟨.empty, fun _ _ hp => nomatch hp⟩, .link "key", .save jobTable]) = .ok loaded ∧
      loaded.Perm (Process.getConfigs jobTable.1) ∧ (loaded.map (·.name)).Nodup) ∧
    result Cloud.loadCloudConfig (StateStore.machine.run .empty
        [.save ⟨.empty, fun _ _ hp => nomatch hp⟩, .link "key", .save jobTable]) =
      .ok (some ("key", Cloud.defaultCloudUrl)) := by
  have hempty : Faultless .empty := fun f hf => nomatch hf
  exact (run_remembers hempty [.save ⟨.empty, fun _ _ hp => nomatch hp⟩, .link "key",
    .save jobTable]).2

end Daemon
