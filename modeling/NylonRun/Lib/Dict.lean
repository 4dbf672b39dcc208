import Mathlib.Data.List.AList

/-!
# Dictionaries

A hash map, as an association list without repeated keys. The order of the entries stands
for the unspecified iteration order of the map; nothing below depends on it.
-/

abbrev Dict (κ ν : Type) : Type := AList (fun _ : κ => ν)

namespace Dict

variable {κ ν μ : Type}

/-- The values, in iteration order. -/
def values (d : Dict κ ν) : List ν := d.entries.map (·.2)

/-- The number of entries. -/
def size (d : Dict κ ν) : Nat := d.keys.length

/-- Every value replaced by a function of it and its key. -/
def mapValues (f : κ → ν → μ) (d : Dict κ ν) : Dict κ μ where
  entries := d.entries.map fun e => ⟨e.1, f e.1 e.2⟩
  nodupKeys := by
    have hkeys : (d.entries.map fun e => (⟨e.1, f e.1 e.2⟩ : Sigma fun _ : κ => μ)).keys =
        d.entries.keys := by simp [List.keys]
    rw [List.NodupKeys, hkeys]
    exact d.nodupKeys

theorem size_mapValues (f : κ → ν → μ) (d : Dict κ ν) : (d.mapValues f).size = d.size := by
  simp [size, AList.keys, mapValues, List.keys]

/-- The entries whose keys pass a test. -/
def filterKeys (f : κ → Bool) (d : Dict κ ν) : Dict κ ν where
  entries := d.entries.filter fun e => f e.1
  nodupKeys := d.nodupKeys.sublist List.filter_sublist

section

variable [DecidableEq κ] {d : Dict κ ν} {k : κ} {v : ν}

theorem mem_values {w : ν} : w ∈ d.values ↔ ∃ k, d.lookup k = some w := by
  simp only [values, List.mem_map]
  constructor
  · rintro ⟨⟨k, v⟩, hmem, rfl⟩
    exact ⟨k, AList.mem_lookup_iff.2 hmem⟩
  · rintro ⟨k, hk⟩
    exact ⟨⟨k, w⟩, AList.mem_lookup_iff.1 hk, rfl⟩

theorem mem_of_lookup (h : d.lookup k = some v) : k ∈ d :=
  AList.lookup_isSome.1 (by rw [h]; rfl)

theorem exists_lookup (h : k ∈ d) : ∃ v, d.lookup k = some v :=
  Option.isSome_iff_exists.1 (AList.lookup_isSome.2 h)

theorem lookup_insert_eq (k' : κ) :
    (d.insert k v).lookup k' = if k' = k then some v else d.lookup k' := by
  by_cases h : k' = k
  · subst h; simp
  · simp [h]

theorem lookup_erase_eq (k' : κ) :
    (d.erase k).lookup k' = if k' = k then none else d.lookup k' := by
  by_cases h : k' = k
  · subst h; simp
  · simp [h]

theorem lookup_eq_some_iff : d.lookup k = some v ↔ ⟨k, v⟩ ∈ d.entries :=
  AList.mem_lookup_iff

theorem lookup_mapValues (f : κ → ν → μ) (k : κ) :
    (d.mapValues f).lookup k = (d.lookup k).map (f k) := by
  cases hk : d.lookup k with
  | none =>
    rw [Option.map_none, AList.lookup_eq_none]
    rw [AList.lookup_eq_none] at hk
    simpa [AList.mem_keys, AList.keys, mapValues, List.keys] using hk
  | some v =>
    rw [Option.map_some, lookup_eq_some_iff]
    exact List.mem_map.2 ⟨⟨k, v⟩, lookup_eq_some_iff.1 hk, rfl⟩

theorem lookup_filterKeys (f : κ → Bool) (k : κ) :
    (d.filterKeys f).lookup k = if f k then d.lookup k else none := by
  cases hk : (d.filterKeys f).lookup k with
  | none =>
    split
    · rename_i hf
      cases hd : d.lookup k with
      | none => rfl
      | some v =>
        have hmem : (⟨k, v⟩ : Sigma fun _ : κ => ν) ∈ (d.filterKeys f).entries :=
          List.mem_filter.2 ⟨lookup_eq_some_iff.1 hd, hf⟩
        rw [lookup_eq_some_iff.2 hmem] at hk
        cases hk
    · rfl
  | some v =>
    obtain ⟨hmem, hf⟩ := List.mem_filter.1 (lookup_eq_some_iff.1 hk)
    rw [if_pos hf, lookup_eq_some_iff.2 hmem]

theorem lookup_union (d e : Dict κ ν) (k : κ) :
    (d ∪ e : Dict κ ν).lookup k = (d.lookup k).or (e.lookup k) := by
  by_cases hk : k ∈ d
  · obtain ⟨v, hv⟩ := exists_lookup hk
    rw [AList.lookup_union_left hk, hv, Option.some_or]
  · rw [AList.lookup_union_right hk, AList.lookup_eq_none.2 hk, Option.none_or]

theorem lookup_of_size_eq_zero (h : d.size = 0) (k : κ) : d.lookup k = none := by
  rw [AList.lookup_eq_none, AList.mem_keys, List.eq_nil_of_length_eq_zero h]
  exact List.not_mem_nil

theorem erase_of_notMem (h : k ∉ d) : d.erase k = d :=
  AList.ext (List.kerase_of_notMem_keys h)

/-- Removing a key that was only just added gives the dictionary back. -/
theorem erase_insert_of_notMem (h : k ∉ d) : (d.insert k v).erase k = d := by
  apply AList.ext
  rw [AList.insert_of_notMem h]
  exact List.kerase_cons_eq rfl

/-! ### The number of entries -/

theorem size_insert_of_notMem (v : ν) (h : k ∉ d) : size (d.insert k v) = size d + 1 := by
  unfold size
  rw [AList.keys_insert, List.length_cons, List.erase_of_not_mem (fun hk => h (AList.mem_keys.2 hk))]

theorem size_insert_of_mem (v : ν) (h : k ∈ d) : size (d.insert k v) = size d := by
  unfold size
  have hk : k ∈ d.keys := AList.mem_keys.1 h
  rw [AList.keys_insert, List.length_cons, List.length_erase_of_mem hk]
  have hpos := List.length_pos_of_mem hk
  omega

theorem size_erase_of_mem (h : k ∈ d) : size (d.erase k) + 1 = size d := by
  unfold size
  have hk : k ∈ d.keys := AList.mem_keys.1 h
  rw [AList.keys_erase, List.length_erase_of_mem hk]
  have hpos := List.length_pos_of_mem hk
  omega

/-! ### Many keys at once -/

theorem lookup_foldl_erase (keys : List κ) (d : Dict κ ν) (k : κ) :
    (keys.foldl (fun d key => d.erase key) d).lookup k = if k ∈ keys then none else d.lookup k := by
  induction keys generalizing d with
  | nil => simp
  | cons key keys ih =>
    rw [List.foldl_cons, ih, lookup_erase_eq]
    by_cases hk : k ∈ keys
    · rw [if_pos hk, if_pos (List.mem_cons_of_mem _ hk)]
    · simp [hk]

variable {α : Type} (key : α → κ) (value : α → ν)

theorem lookup_foldl_insert_of_notMem {l : List α} (d : Dict κ ν) (h : k ∉ l.map key) :
    (l.foldl (fun d a => d.insert (key a) (value a)) d).lookup k = d.lookup k := by
  induction l generalizing d with
  | nil => rfl
  | cons a l ih =>
    rw [List.map_cons, List.mem_cons, not_or] at h
    rw [List.foldl_cons, ih _ h.2, lookup_insert_eq, if_neg h.1]

theorem lookup_foldl_insert_of_mem {l : List α} (d : Dict κ ν) (hkeys : (l.map key).Nodup) {a : α}
    (ha : a ∈ l) :
    (l.foldl (fun d a => d.insert (key a) (value a)) d).lookup (key a) = some (value a) := by
  induction l generalizing d with
  | nil => cases ha
  | cons b l ih =>
    rw [List.map_cons, List.nodup_cons] at hkeys
    rw [List.foldl_cons]
    rcases List.mem_cons.1 ha with rfl | ha
    · rw [lookup_foldl_insert_of_notMem key value _ hkeys.1, lookup_insert_eq, if_pos rfl]
    · exact ih _ hkeys.2 ha

end

end Dict

/-! ## Keys with several values -/

/-- Values under keys, in order; a key may come more than once. -/
abbrev Multimap (κ α : Type) : Type := List (κ × α)

namespace Multimap

variable {κ α : Type} [DecidableEq κ]

/-- The values under a key. -/
def values (m : Multimap κ α) (key : κ) : List α := (m.filter (·.1 = key)).map (·.2)

def remove (m : Multimap κ α) (key : κ) : Multimap κ α := m.filter (·.1 ≠ key)

/-- The one value of a key. -/
def replace (m : Multimap κ α) (key : κ) (value : α) : Multimap κ α :=
  m.remove key ++ [(key, value)]

theorem values_remove (m : Multimap κ α) (key k : κ) :
    (m.remove key).values k = if k = key then [] else m.values k := by
  unfold values remove
  rw [List.filter_filter]
  by_cases hk : k = key
  · subst hk
    rw [if_pos rfl, List.map_eq_nil_iff, List.filter_eq_nil_iff]
    intro a _
    simp
  · rw [if_neg hk]
    congr 1
    refine List.filter_congr fun a _ => ?_
    by_cases ha : a.1 = k
    · simp [ha, hk]
    · simp [ha]

theorem values_replace (m : Multimap κ α) (key : κ) (value : α) (k : κ) :
    (m.replace key value).values k = if k = key then [value] else m.values k := by
  have happ : (m.replace key value).values k =
      (m.remove key).values k ++ values [(key, value)] k := by
    unfold values replace
    rw [List.filter_append, List.map_append]
  rw [happ, values_remove]
  by_cases hk : k = key
  · subst hk
    simp [values]
  · simp [values, hk, Ne.symm hk]

end Multimap
