import NylonRun.State

/-!
# Saving and loading

What `save` leaves in the store is read back by `load`, in the order of the keys: the same
configs, whatever the store held before.
-/

open Effect

namespace StateStore

/-- None of the operations to come fails. -/
def Faultless (s : StateStore) : Prop := ∀ f ∈ s.faults, f = none

theorem operation_ok {what : String} {effect : Dict String Stored → Dict String Stored}
    {s s' : StateStore} (h : operation what effect s = .ok () s') : s'.db = effect s.db := by
  unfold operation at h
  split at h <;> cases h <;> rfl

theorem operation_faultless (what : String) (effect : Dict String Stored → Dict String Stored)
    {s : StateStore} (hs : Faultless s) :
    ∃ s', operation what effect s = .ok () s' ∧ s'.db = effect s.db ∧ Faultless s' := by
  unfold operation
  cases hf : s.faults with
  | nil => exact ⟨_, rfl, rfl, fun _ h => nomatch h⟩
  | cons f rest =>
    have hrest : ∀ g ∈ rest, g = none := fun g hg => hs g (by rw [hf]; exact List.mem_cons_of_mem _ hg)
    obtain rfl : f = none := hs f (by rw [hf]; exact List.mem_cons_self)
    exact ⟨_, rfl, rfl, hrest⟩

theorem forEach_operation_ok {α : Type} {what : String}
    {effect : α → Dict String Stored → Dict String Stored} {l : List α} {s s' : StateStore}
    (h : forEach l (fun a => operation what (effect a)) s = .ok () s') :
    s'.db = l.foldl (fun db a => effect a db) s.db := by
  induction l generalizing s with
  | nil => cases h; rfl
  | cons a l ih =>
    obtain ⟨_, s₁, hop, h⟩ := bind_ok h
    rw [List.foldl_cons, ih h, operation_ok hop]

/-! ## The keys -/

theorem configKey_inj {a b : String} (h : configKey a = configKey b) : a = b := by
  have hlist := congrArg String.toList h
  rw [configKey, configKey, String.toList_append, String.toList_append] at hlist
  exact String.toList_inj.1 (List.append_cancel_left hlist)

theorem startsWith_configKey (name : String) : Text.startsWith (configKey name) "config:" = true := by
  rw [Text.startsWith, configKey, String.toList_append, List.isPrefixOf_iff_prefix]
  exact List.prefix_append _ _

theorem mem_keysWithPrefix {db : Dict String Stored} {pre key : String} :
    key ∈ keysWithPrefix db pre ↔ (db.lookup key).isSome ∧ Text.startsWith key pre = true := by
  rw [keysWithPrefix, List.mem_insertionSort, List.mem_filter, AList.lookup_isSome]
  exact Iff.rfl

theorem nodup_keysWithPrefix (db : Dict String Stored) (pre : String) :
    (keysWithPrefix db pre).Nodup :=
  (List.perm_insertionSort ..).nodup_iff.2 (db.keys_nodup.filter _)

/-- The store holds the given configs, each under the key of its name, and no others. -/
def Holds (db : Dict String Stored) (configs : List ProcessConfig) : Prop :=
  ∀ key value, Text.startsWith key "config:" = true →
    (db.lookup key = some value ↔ ∃ c ∈ configs, key = configKey c.name ∧ value = .config c)

theorem save_ok {configs : List ProcessConfig} {s s' : StateStore}
    (hnames : (configs.map (·.name)).Nodup) (h : save configs s = .ok () s') :
    Holds s'.db configs := by
  have hkeys : (configs.map fun c => configKey c.name).Nodup := by
    have := hnames.map (fun a b => configKey_inj (a := a) (b := b))
    rwa [List.map_map] at this
  obtain ⟨_, s₁, hscan, h⟩ := bind_ok h
  obtain ⟨s₀, _, hget, h⟩ := bind_ok h
  cases hget
  obtain ⟨_, s₂, hiters, h⟩ := bind_ok h
  obtain ⟨_, s₃, hiter, h⟩ := bind_ok h
  obtain ⟨_, s₄, hdelete, h⟩ := bind_ok h
  obtain ⟨_, s₅, hput, hflush⟩ := bind_ok h
  have hscanned : s₂.db = s₁.db := by simpa using forEach_operation_ok hiters
  have hold : ∀ key, Text.startsWith key "config:" = true → s₄.db.lookup key = none := by
    intro key hpre
    rw [forEach_operation_ok hdelete, operation_ok hiter, id, hscanned, Dict.lookup_foldl_erase]
    split
    · rfl
    · rename_i hkey
      rw [mem_keysWithPrefix, not_and'] at hkey
      simpa using hkey hpre
  rw [operation_ok hflush, id, forEach_operation_ok hput]
  intro key value hpre
  by_cases hmem : key ∈ configs.map fun c => configKey c.name
  · obtain ⟨c, hc, rfl⟩ := List.mem_map.1 hmem
    rw [Dict.lookup_foldl_insert_of_mem _ _ _ hkeys hc]
    constructor
    · rintro h
      cases h
      exact ⟨c, hc, rfl, rfl⟩
    · rintro ⟨c', hc', hkey, rfl⟩
      rw [List.inj_on_of_nodup_map hkeys hc hc' hkey]
  · rw [Dict.lookup_foldl_insert_of_notMem _ _ _ hmem, hold key hpre]
    constructor
    · intro h
      cases h
    · rintro ⟨c, hc, rfl, -⟩
      exact absurd (List.mem_map_of_mem hc) hmem

/-! ## Loading -/

/-- The config under a key, where there is one. -/
def configAt (db : Dict String Stored) (key : String) : Option ProcessConfig :=
  match db.lookup key with
  | some (.config config) => some config
  | _ => none

theorem map_loaded {db : Dict String Stored} {keys : List String}
    (h : ∀ key ∈ keys, ∃ c, configAt db key = some c ∧ configKey c.name = key) :
    ((keys.filterMap (configAt db)).map fun c => configKey c.name) = keys := by
  induction keys with
  | nil => rfl
  | cons key keys ih =>
    obtain ⟨c, hc, hkey⟩ := h key List.mem_cons_self
    rw [List.filterMap_cons, hc]
    dsimp only
    rw [List.map_cons, hkey, ih fun k hk => h k (List.mem_cons_of_mem _ hk)]

theorem loadKeys_faultless (keys : List String) {s : StateStore} (hs : Faultless s) :
    ∃ s', loadKeys keys s = .ok (keys.filterMap (configAt s.db)) s' := by
  induction keys generalizing s with
  | nil =>
    obtain ⟨s', hop, -⟩ := operation_faultless "iter" id hs
    refine ⟨s', ?_⟩
    rw [loadKeys, run_bind, attempt, final_of_ok hop]
    rfl
  | cons key keys ih =>
    obtain ⟨s₁, hop, hdb, hs₁⟩ := operation_faultless "iter" id hs
    obtain ⟨s', hrest⟩ := ih hs₁
    rw [hdb, id] at hrest
    refine ⟨s', ?_⟩
    unfold loadKeys
    rw [hop, List.filterMap_cons, configAt]
    dsimp only
    cases s.db.lookup key with
    | none => exact hrest
    | some value =>
      cases value with
      | text text => exact hrest
      | config config => simp only [run_bind, hrest, run_pure]

/-- What a store holds is loaded, in some order. -/
theorem load_holds {configs : List ProcessConfig} {s : StateStore} (hs : Faultless s)
    (hnames : (configs.map (·.name)).Nodup) (hholds : Holds s.db configs) :
    ∃ loaded s', load s = .ok loaded s' ∧ loaded.Perm configs := by
  obtain ⟨s₁, hop, hdb, hs₁⟩ := operation_faultless "scan" id hs
  obtain ⟨s', hload⟩ := loadKeys_faultless (keysWithPrefix s.db "config:") hs₁
  rw [hdb, id] at hload
  have hrun : load s =
      .ok ((keysWithPrefix s.db "config:").filterMap (configAt s.db)) s' := by
    rw [load, hop]
    exact hload
  refine ⟨_, s', hrun, ?_⟩
  have hat : ∀ key ∈ keysWithPrefix s.db "config:",
      ∃ c ∈ configs, configAt s.db key = some c ∧ configKey c.name = key := by
    intro key hkey
    obtain ⟨hsome, hpre⟩ := mem_keysWithPrefix.1 hkey
    obtain ⟨value, hvalue⟩ := Option.isSome_iff_exists.1 hsome
    obtain ⟨c, hc, rfl, rfl⟩ := (hholds key value hpre).1 hvalue
    exact ⟨c, hc, by rw [configAt, hvalue], rfl⟩
  have hloaded : ((keysWithPrefix s.db "config:").filterMap (configAt s.db)).Nodup := by
    refine List.Nodup.of_map (fun c => configKey c.name) ?_
    rw [map_loaded fun key hkey => (hat key hkey).imp fun c hc => hc.2]
    exact nodup_keysWithPrefix _ _
  refine (List.perm_ext_iff_of_nodup hloaded (List.Nodup.of_map _ hnames)).2 fun c => ?_
  · rw [List.mem_filterMap]
    constructor
    · rintro ⟨key, hkey, hc⟩
      obtain ⟨c', hc', heq, -⟩ := hat key hkey
      rw [hc] at heq
      cases heq
      exact hc'
    · intro hc
      have hlookup := (hholds (configKey c.name) (.config c) (startsWith_configKey _)).2
        ⟨c, hc, rfl, rfl⟩
      refine ⟨configKey c.name, mem_keysWithPrefix.2 ⟨by rw [hlookup]; rfl, startsWith_configKey _⟩, ?_⟩
      rw [configAt, hlookup]

end StateStore
