import Mathlib.Data.List.Perm.Basic
import NylonRun.Lib.Dict

/-!
# Entries of a shared dictionary, each in one custody

Several parties put entries into one dictionary under keys of their own, may hand a key over to
another party, and take their entries out again. `InCustody` says that the dictionary holds, of
all that was ever put in it, exactly what some party still holds. Who holds what is a list of
keys, of which only the contents matter.
-/

namespace List

/-- What the elements of a list give, with one element taken apart from the others. -/
theorem flatMap_perm_of_getElem? {α β : Type} {l : List α} {i : Nat} {a : α} (f : α → List β)
    (h : l[i]? = some a) : l.flatMap f ~ f a ++ (l.eraseIdx i).flatMap f := by
  obtain ⟨hi, ha⟩ := getElem?_eq_some_iff.1 h
  have hperm : l ~ a :: l.eraseIdx i := by
    rw [← ha]
    exact (getElem_cons_eraseIdx_perm hi).symm
  exact hperm.flatMap_right f

theorem flatMap_set_perm {α β : Type} {l : List α} {i : Nat} {a : α} (f : α → List β) (b : α)
    (h : l[i]? = some a) : (l.set i b).flatMap f ~ f b ++ (l.eraseIdx i).flatMap f := by
  obtain ⟨hi, -⟩ := getElem?_eq_some_iff.1 h
  have hset : (l.set i b)[i]? = some b := getElem?_set_self hi
  have hperm := flatMap_perm_of_getElem? f hset
  rwa [eraseIdx_set_eq] at hperm

end List

namespace Dict

variable {κ ν : Type} [DecidableEq κ]

structure InCustody (d : Dict κ ν) (posted : List (κ × ν)) (held : List κ) : Prop where
  /-- No key was put in twice. -/
  unique : (posted.map Prod.fst).Nodup
  /-- No key is held twice. -/
  once : held.Nodup
  known : ∀ k ∈ held, k ∈ posted.map Prod.fst
  lookup_iff : ∀ k v, d.lookup k = some v ↔ (k, v) ∈ posted ∧ k ∈ held

namespace InCustody

variable {d : Dict κ ν} {posted : List (κ × ν)} {held held' : List κ} {k : κ} {v : ν}

theorem empty : InCustody (∅ : Dict κ ν) [] [] where
  unique := List.nodup_nil
  once := List.nodup_nil
  known k hk := nomatch hk
  lookup_iff k v := by
    refine iff_of_false (fun h => ?_) fun h => nomatch h.1
    rw [AList.lookup_empty] at h
    cases h

/-- The custody may change hands. -/
theorem perm (h : InCustody d posted held) (hp : held.Perm held') : InCustody d posted held' where
  unique := h.unique
  once := hp.nodup_iff.1 h.once
  known k hk := h.known k (hp.mem_iff.2 hk)
  lookup_iff k v := by rw [h.lookup_iff, hp.mem_iff]

/-- A key that was never put in before. -/
theorem insert (h : InCustody d posted held) (hk : k ∉ posted.map Prod.fst) (v : ν) :
    InCustody (d.insert k v) (posted ++ [(k, v)]) (k :: held) where
  unique := by
    rw [List.map_append, List.map_singleton, List.nodup_append_comm]
    exact List.nodup_cons.2 ⟨hk, h.unique⟩
  once := List.nodup_cons.2 ⟨fun hmem => hk (h.known k hmem), h.once⟩
  known k' hk' := by
    rw [List.map_append, List.mem_append]
    rcases List.mem_cons.1 hk' with rfl | hmem
    · exact .inr (List.mem_singleton.2 rfl)
    · exact .inl (h.known k' hmem)
  lookup_iff k' v' := by
    rw [Dict.lookup_insert_eq, List.mem_append, List.mem_singleton, Prod.mk.injEq, List.mem_cons]
    by_cases heq : k' = k
    · subst heq
      have hnot : (k', v') ∉ posted := fun hmem => hk (List.mem_map_of_mem hmem)
      simp [hnot, eq_comm]
    · rw [if_neg heq, h.lookup_iff]
      simp [heq]

/-- A key that some party gives up is held by no other. -/
theorem erase (h : InCustody d posted (k :: held)) : InCustody (d.erase k) posted held where
  unique := h.unique
  once := h.once.of_cons
  known k' hk' := h.known k' (List.mem_cons_of_mem k hk')
  lookup_iff k' v' := by
    rw [Dict.lookup_erase_eq]
    by_cases heq : k' = k
    · rw [if_pos heq, heq]
      exact iff_of_false nofun fun hmem => (List.nodup_cons.1 h.once).1 hmem.2
    · rw [if_neg heq, h.lookup_iff, List.mem_cons, or_iff_right heq]

/-- What is held can be looked up. -/
theorem lookup_of_mem (h : InCustody d posted held) (hv : (k, v) ∈ posted) (hk : k ∈ held) :
    d.lookup k = some v :=
  (h.lookup_iff k v).2 ⟨hv, hk⟩

/-- The dictionary is empty once nobody holds anything, and not before. -/
theorem lookup_eq_none_iff (h : InCustody d posted held) :
    (∀ k, d.lookup k = none) ↔ held = [] := by
  constructor
  · intro hnone
    refine List.eq_nil_iff_forall_not_mem.2 fun k hk => ?_
    obtain ⟨⟨k', v⟩, hmem, rfl⟩ := List.mem_map.1 (h.known k hk)
    have hsome := h.lookup_of_mem hmem hk
    rw [hnone k'] at hsome
    cases hsome
  · rintro rfl k
    cases hlookup : d.lookup k with
    | none => rfl
    | some v => exact absurd ((h.lookup_iff k v).1 hlookup).2 List.not_mem_nil

end InCustody

end Dict
