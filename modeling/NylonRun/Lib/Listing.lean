import Mathlib.Data.List.MinMax
import NylonRun.Lib.Touched

/-!
# Names, and what lies below a place

The tree takes any text for a name; a file system does not. `AllNamed` says that a tree is one
of a file system, and the operations that take their names from paths or from the tree itself
keep it. `descendants` lists all that lies below a place.
-/

open UnixPath Effect

namespace FileTree

/-- What a file system takes for a name. -/
structure FileName (n : String) : Prop where
  nonempty : n ≠ ""
  noSlash : '/' ∉ n.toList
  notCur : n ≠ "."
  notParent : n ≠ ".."

theorem fileName_iff (n : String) :
    (n ≠ "" ∧ '/' ∉ n.toList ∧ n ≠ "." ∧ n ≠ "..") ↔ FileName n :=
  ⟨fun ⟨he, hs, hc, hp⟩ => ⟨he, hs, hc, hp⟩, fun ⟨he, hs, hc, hp⟩ => ⟨he, hs, hc, hp⟩⟩

instance (n : String) : Decidable (FileName n) := decidable_of_iff _ (fileName_iff n)

def Named (p : Place) : Prop := ∀ n ∈ p, FileName n

instance (p : Place) : Decidable (Named p) := inferInstanceAs (Decidable (∀ n ∈ p, _))

theorem Named.concat {p : Place} {n : String} (hp : Named p) (hn : FileName n) :
    Named (p ++ [n]) := by
  intro m hm
  rcases List.mem_append.1 hm with hm | hm
  · exact hp m hm
  · rw [List.mem_singleton.1 hm]
    exact hn

/-- Every name of the tree is one that a file system gives. -/
structure AllNamed (t : FileTree) : Prop where
  cwd : Named t.cwd
  places : ∀ p, (t.stat p).isSome → Named p

theorem allNamed_of_keys {t : FileTree} (hcwd : Named t.cwd)
    (h : ∀ p ∈ t.nodes.keys, Named p) : AllNamed t := by
  refine ⟨hcwd, fun p hp => ?_⟩
  by_cases hroot : p = []
  · rw [hroot]
    exact fun n hn => nomatch hn
  · rw [stat_of_ne t hroot, AList.lookup_isSome] at hp
    exact h p (AList.mem_keys.1 hp)

theorem allNamed_put {t : FileTree} {p : Place} {node : Node} (room : t.Room p node)
    (hp : Named p) (h : AllNamed t) : AllNamed (t.put p node room) := by
  refine ⟨h.cwd, fun q hq => ?_⟩
  rw [stat_put] at hq
  split at hq
  · rename_i heq
    exact heq ▸ hp
  · exact h.places q hq

/-- A relation of a state to a later one: the names are still those of a file system. -/
def StaysNamed (t t' : FileTree) : Prop := AllNamed t → AllNamed t'

theorem StaysNamed.refl (t : FileTree) : StaysNamed t t := id

theorem StaysNamed.trans (t t' t'' : FileTree) (h : StaysNamed t t') (h' : StaysNamed t' t'') :
    StaysNamed t t'' := fun ht => h' (h ht)

theorem named_create {p : Place} (hp : Named p) (node : Node) :
    Respects StaysNamed (create p node) := by
  intro t ht
  rw [final_create]
  split
  · rename_i room
    exact allNamed_put room hp ht
  · exact ht

theorem named_copyFile (src : Place) {dst : Place} (hdst : Named dst) :
    Respects StaysNamed (copyFile src dst) :=
  respects_copyFile_of StaysNamed.refl StaysNamed.trans (named_create hdst)

theorem AllNamed.child {t : FileTree} (h : AllNamed t) {p : Place} {n : String}
    (hn : n ∈ t.children p) : FileName n :=
  h.places _ (mem_children.1 hn) n (by simp)

theorem named_advance {dir : Place} {p : String} {c : Component} (hc : c ∈ components p)
    (h : Named dir) : Named (advance dir c) := by
  cases c with
  | root => exact fun n hn => by cases hn
  | cur => exact h
  | parent => exact fun n hn => h n (List.mem_of_mem_dropLast hn)
  | normal m =>
    obtain ⟨hslash, hne, hdot, hnames⟩ := normal_spec hc
    refine h.concat ⟨hne, hslash, hdot, ?_⟩
    rintro rfl
    cases hnames

theorem named_lexical {dir : Place} {p : String} {cs : List Component}
    (hcs : ∀ c ∈ cs, c ∈ components p) (h : Named dir) : Named (lexical dir cs) := by
  induction cs generalizing dir with
  | nil => exact h
  | cons c cs ih =>
    refine ih (fun d hd => hcs d (List.mem_cons_of_mem c hd)) ?_
    exact named_advance (hcs c List.mem_cons_self) h

theorem named_mkdirs {dir : Place} {p : String} {cs : List Component}
    (hcs : ∀ c ∈ cs, c ∈ components p) (h : Named dir) :
    Respects StaysNamed (mkdirs cs dir) := by
  induction cs generalizing dir with
  | nil => exact .pure StaysNamed.refl dir
  | cons c cs ih =>
    have hstep := named_advance (hcs c List.mem_cons_self) h
    have hrest := ih (fun d hd => hcs d (List.mem_cons_of_mem c hd)) hstep
    refine .bind StaysNamed.trans (.get StaysNamed.refl) fun t => ?_
    split
    · exact hrest
    · exact .throw StaysNamed.refl _
    · exact .bind StaysNamed.trans (named_create hstep .dir) fun _ => hrest

/-! ## Listing -/

theorem nodup_children (t : FileTree) (p : Place) : (t.children p).Nodup := by
  have hplace {q : Place} {n : String} (hq : n ∈ if q.dropLast = p then q.getLast? else none) :
      q = p ++ [n] := by
    split at hq
    · rename_i hp
      rw [← hp]
      exact (List.dropLast_append_getLast? n hq).symm
    · cases hq
  refine t.nodes.keys_nodup.filterMap fun q q' n hq hq' => ?_
  rw [hplace hq, hplace hq']

theorem filterMap_erase {α β : Type} [DecidableEq α] {f : α → Option β} {a : α} (h : f a = none)
    (l : List α) : (l.erase a).filterMap f = l.filterMap f := by
  induction l with
  | nil => rfl
  | cons b l ih =>
    by_cases hb : b = a
    · rw [hb, List.erase_cons_head, List.filterMap_cons_none h]
    · rw [List.erase_cons_tail (by simpa using hb), List.filterMap_cons, List.filterMap_cons, ih]

/-- What is put elsewhere does not change what a directory lists. -/
theorem children_put {t : FileTree} {p q : Place} {node : Node} (h : t.Room q node)
    (hq : q.dropLast ≠ p) : (t.put q node h).children p = t.children p := by
  have hnone : (if q.dropLast = p then q.getLast? else none) = none := if_neg hq
  unfold children put
  rw [AList.keys_insert, List.filterMap_cons, hnone]
  exact filterMap_erase (f := fun r : Place => if r.dropLast = p then r.getLast? else none) hnone _

/-- All places below `p`, at most so many levels down. -/
def descendants (t : FileTree) : Nat → Place → List Place
  | 0, _ => []
  | fuel + 1, p => (t.children p).flatMap fun n => (p ++ [n]) :: t.descendants fuel (p ++ [n])

theorem mem_descendants {t : FileTree} {fuel : Nat} {p q : Place} (h : q ∈ t.descendants fuel p) :
    (∃ n rel, q = p ++ n :: rel) ∧ (t.stat q).isSome := by
  induction fuel generalizing p with
  | zero => cases h
  | succ fuel ih =>
    obtain ⟨n, hn, hq⟩ := List.mem_flatMap.1 h
    rcases List.mem_cons.1 hq with rfl | hq
    · exact ⟨⟨n, [], rfl⟩, mem_children.1 hn⟩
    · obtain ⟨⟨m, rel, rfl⟩, hsome⟩ := ih hq
      exact ⟨⟨n, m :: rel, by simp⟩, hsome⟩

/-- What exists at most so many levels down is listed. -/
theorem descendants_complete {t : FileTree} {fuel : Nat} {p rel : Place} (hne : rel ≠ [])
    (hfuel : rel.length ≤ fuel) (h : (t.stat (p ++ rel)).isSome) :
    p ++ rel ∈ t.descendants fuel p := by
  induction fuel generalizing p rel with
  | zero => exact absurd (List.length_eq_zero_iff.1 (Nat.le_zero.1 hfuel)) hne
  | succ fuel ih =>
    obtain ⟨n, rel, rfl⟩ := List.exists_cons_of_ne_nil hne
    obtain ⟨node, hnode⟩ := Option.isSome_iff_exists.1 h
    refine List.mem_flatMap.2 ⟨n, mem_children_of_below hnode, ?_⟩
    have hsplit : p ++ n :: rel = p ++ [n] ++ rel := by simp
    rw [hsplit] at h ⊢
    by_cases hnil : rel = []
    · rw [hnil, List.append_nil]
      exact List.mem_cons_self
    · exact List.mem_cons_of_mem _ (ih hnil (Nat.le_of_succ_le_succ hfuel) h)

theorem prefix_of_mem_descendants {t : FileTree} {fuel : Nat} {p q : Place}
    (h : q ∈ t.descendants fuel p) : p <+: q ∧ p ≠ q := by
  obtain ⟨⟨n, rel, rfl⟩, -⟩ := mem_descendants h
  exact ⟨List.prefix_append _ _, by simp⟩

theorem nodup_descendants (t : FileTree) (fuel : Nat) (p : Place) :
    (t.descendants fuel p).Nodup := by
  induction fuel generalizing p with
  | zero => exact List.nodup_nil
  | succ fuel ih =>
    refine List.nodup_flatMap.2 ⟨fun n _ => ?_, ?_⟩
    · refine List.nodup_cons.2 ⟨fun h => ?_, ih _⟩
      exact (prefix_of_mem_descendants h).2 rfl
    · refine (t.nodup_children p).imp fun {n m} hnm => ?_
      -- what is listed for an entry starts with its name
      have hpre {k : String} {q : Place}
          (hq : q ∈ (p ++ [k]) :: t.descendants fuel (p ++ [k])) : p ++ [k] <+: q := by
        rcases List.mem_cons.1 hq with rfl | hq
        · exact List.prefix_rfl
        · exact (prefix_of_mem_descendants hq).1
      intro q hq hq'
      have hsame := List.prefix_of_prefix_length_le (hpre hq) (hpre hq') (by simp)
      refine hnm ?_
      simpa using hsame.eq_of_length (by simp)

/-- The number of levels of the tree. -/
def height (t : FileTree) : Nat := (t.nodes.keys.map List.length).foldr max 0

theorem length_le_height {t : FileTree} {p : Place} (h : (t.stat p).isSome) :
    p.length ≤ t.height := by
  by_cases hroot : p = []
  · rw [hroot]
    exact Nat.zero_le _
  · rw [stat_of_ne t hroot, AList.lookup_isSome] at h
    exact List.le_max_of_le' 0 (List.mem_map.2 ⟨p, AList.mem_keys.1 h, rfl⟩) le_rfl

end FileTree
