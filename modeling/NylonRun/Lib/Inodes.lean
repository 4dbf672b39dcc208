import Mathlib.Logic.Function.Basic

/-!
# Names and open files

A volume maps names to inodes and inodes to contents. A rename moves a name and leaves the inode;
an open file is its inode, so that it is written to under whatever name it has by then, or under
none. No two names have the same inode.
-/

structure Volume (κ : Type) where
  inode : κ → Option Nat
  content : Nat → List UInt8
  /-- The inode that the next new file gets. -/
  fresh : Nat
  bound : ∀ {name i}, inode name = some i → i < fresh
  distinct : ∀ {name name' i}, inode name = some i → inode name' = some i → name = name'

namespace Volume

variable {κ : Type}

/-- A volume without files. -/
def empty : Volume κ where
  inode _ := none
  content _ := []
  fresh := 0
  bound h := nomatch h
  distinct h := nomatch h

/-- What is read under a name. -/
def read (v : Volume κ) (name : κ) : Option (List UInt8) := (v.inode name).map v.content

/-- An append to an open file. -/
def append (v : Volume κ) (file : Nat) (bytes : List UInt8) : Volume κ :=
  { v with content := Function.update v.content file (v.content file ++ bytes) }

@[simp] theorem inode_append (v : Volume κ) (file : Nat) (bytes : List UInt8) :
    (v.append file bytes).inode = v.inode := rfl

/-- An append shows under the name of the file, and under no other. -/
theorem read_append (v : Volume κ) (file : Nat) (bytes : List UInt8) (n : κ) :
    (v.append file bytes).read n =
      if v.inode n = some file then some (v.content file ++ bytes) else v.read n := by
  unfold read
  rw [inode_append]
  cases hn : v.inode n with
  | none => rfl
  | some i =>
    rw [Option.map_some, Option.map_some]
    unfold append
    dsimp only
    by_cases hfile : i = file
    · rw [if_pos (by rw [hfile]), hfile, Function.update_self]
    · rw [if_neg (by simpa using hfile), Function.update_of_ne hfile]

theorem read_eq_none {v : Volume κ} {name : κ} : v.read name = none ↔ v.inode name = none := by
  unfold read
  rw [Option.map_eq_none_iff]

variable [DecidableEq κ]

def remove (v : Volume κ) (name : κ) : Volume κ where
  inode n := if n = name then none else v.inode n
  content := v.content
  fresh := v.fresh
  bound := by
    intro n i h
    split at h
    · cases h
    · exact v.bound h
  distinct := by
    intro n n' i h h'
    split at h
    · cases h
    · split at h'
      · cases h'
      · exact v.distinct h h'

/-- A rename over whatever has the new name; nothing where there is no file under the old one. -/
def rename (v : Volume κ) (old new : κ) : Volume κ where
  inode n :=
    match v.inode old with
    | none => v.inode n
    | some i => if n = new then some i else if n = old then none else v.inode n
  content := v.content
  fresh := v.fresh
  bound := by
    intro n i h
    cases hold : v.inode old with
    | none =>
      rw [hold] at h
      exact v.bound h
    | some j =>
      rw [hold] at h
      dsimp only at h
      split at h
      · cases h
        exact v.bound hold
      · split at h
        · cases h
        · exact v.bound h
  distinct := by
    intro n n' i h h'
    cases hold : v.inode old with
    | none =>
      rw [hold] at h h'
      exact v.distinct h h'
    | some j =>
      rw [hold] at h h'
      dsimp only at h h'
      -- only the new name has the inode that was moved
      have hmoved : ∀ {m}, m ≠ new → m ≠ old → v.inode m = some i → i ≠ j := by
        intro m _ hne hm heq
        exact hne (v.distinct hm (by rw [hold, heq]))
      split at h <;> split at h'
      · rename_i hn hn'
        rw [hn, hn']
      · split at h'
        · cases h'
        · rename_i hnew hold'
          cases h
          exact absurd rfl (hmoved hnew hold' h')
      · split at h
        · cases h
        · rename_i hnew _ hold'
          cases h'
          exact absurd rfl (hmoved hnew hold' h)
      · split at h
        · cases h
        · split at h'
          · cases h'
          · exact v.distinct h h'

/-- A file made or emptied under a name. -/
def create (v : Volume κ) (name : κ) : Volume κ :=
  match h : v.inode name with
  | some i => { v with content := Function.update v.content i [] }
  | none =>
    { inode := Function.update v.inode name (some v.fresh)
      content := Function.update v.content v.fresh []
      fresh := v.fresh + 1
      bound := by
        intro n i hn
        by_cases heq : n = name
        · subst heq
          rw [Function.update_self] at hn
          cases hn
          exact Nat.lt_succ_self _
        · rw [Function.update_of_ne heq] at hn
          exact Nat.lt_succ_of_lt (v.bound hn)
      distinct := by
        intro n n' i hn hn'
        by_cases heq : n = name <;> by_cases heq' : n' = name
        · rw [heq, heq']
        · subst heq
          rw [Function.update_self] at hn
          rw [Function.update_of_ne heq'] at hn'
          cases hn
          exact absurd (v.bound hn') (Nat.lt_irrefl _)
        · subst heq'
          rw [Function.update_self] at hn'
          rw [Function.update_of_ne heq] at hn
          cases hn'
          exact absurd (v.bound hn) (Nat.lt_irrefl _)
        · rw [Function.update_of_ne heq] at hn
          rw [Function.update_of_ne heq'] at hn'
          exact v.distinct hn hn' }

/-- A file opened for appends, made where there is none. -/
def openAppend (v : Volume κ) (name : κ) : Nat × Volume κ :=
  match v.inode name with
  | some i => (i, v)
  | none => (v.fresh, v.create name)

/-! ## What the operations leave -/

section

variable {v : Volume κ} {name n old new : κ} {i : Nat}

theorem inode_remove_of_ne (h : n ≠ name) : (v.remove name).inode n = v.inode n := if_neg h

theorem inode_rename_of_ne (hold : n ≠ old) (hnew : n ≠ new) :
    (v.rename old new).inode n = v.inode n := by
  unfold rename
  dsimp only
  cases v.inode old with
  | none => rfl
  | some i =>
    dsimp only
    rw [if_neg hnew, if_neg hold]

/-- The old name is free after a rename. -/
theorem inode_rename_old (h : old ≠ new) : (v.rename old new).inode old = none := by
  unfold rename
  dsimp only
  cases hold : v.inode old with
  | none => rfl
  | some i =>
    dsimp only
    rw [if_neg h, if_pos rfl]

theorem read_remove (n : κ) : (v.remove name).read n = if n = name then none else v.read n := by
  unfold read remove
  dsimp only
  split
  · rfl
  · rfl

/-- What is read after a rename: the file under its new name, and nothing under the old one. -/
theorem read_rename (h : v.read old ≠ none) (n : κ) :
    (v.rename old new).read n =
      if n = new then v.read old else if n = old then none else v.read n := by
  unfold read rename
  dsimp only
  cases hold : v.inode old with
  | none => exact absurd (read_eq_none.2 hold) h
  | some i =>
    dsimp only
    split
    · rfl
    · split
      · rfl
      · rfl

/-- A rename of what is not there does nothing. -/
theorem read_rename_of_none (h : v.read old = none) (n : κ) :
    (v.rename old new).read n = v.read n := by
  unfold read rename
  dsimp only
  rw [read_eq_none.1 h]

/-- A rename to a name that is free. -/
theorem read_rename_to_free (hfree : v.read new = none) (n : κ) :
    (v.rename old new).read n =
      if n = new then v.read old else if n = old then none else v.read n := by
  by_cases hold : v.read old = none
  · rw [read_rename_of_none hold, hold]
    split
    · rename_i heq
      rw [heq, hfree]
    · split
      · rename_i heq
        rw [heq, hold]
      · rfl
  · exact read_rename hold n

theorem create_of_none (h : v.inode name = none) :
    (v.create name).inode = Function.update v.inode name (some v.fresh) ∧
      (v.create name).content = Function.update v.content v.fresh [] ∧
        (v.create name).fresh = v.fresh + 1 := by
  unfold create
  split
  · rename_i i hsome
    rw [h] at hsome
    cases hsome
  · exact ⟨rfl, rfl, rfl⟩

theorem create_of_some (h : v.inode name = some i) :
    (v.create name).inode = v.inode ∧ (v.create name).content = Function.update v.content i [] ∧
      (v.create name).fresh = v.fresh := by
  unfold create
  split
  · rename_i j hsome
    rw [h] at hsome
    cases hsome
    exact ⟨rfl, rfl, rfl⟩
  · rename_i hnone
    rw [h] at hnone
    cases hnone

theorem inode_create_of_ne (h : n ≠ name) : (v.create name).inode n = v.inode n := by
  cases hname : v.inode name with
  | none => rw [(create_of_none hname).1, Function.update_of_ne h]
  | some i => rw [(create_of_some hname).1]

theorem read_create_self : (v.create name).read name = some [] := by
  unfold read
  cases hname : v.inode name with
  | none =>
    obtain ⟨hinode, hcontent, -⟩ := create_of_none hname
    rw [hinode, hcontent, Function.update_self, Option.map_some, Function.update_self]
  | some i =>
    obtain ⟨hinode, hcontent, -⟩ := create_of_some hname
    rw [hinode, hcontent, hname, Option.map_some, Function.update_self]

theorem read_create_of_ne (h : n ≠ name) : (v.create name).read n = v.read n := by
  unfold read
  rw [inode_create_of_ne h]
  cases hn : v.inode n with
  | none => rfl
  | some j =>
    rw [Option.map_some, Option.map_some]
    cases hname : v.inode name with
    | none =>
      have hne : j ≠ v.fresh := Nat.ne_of_lt (v.bound hn)
      rw [(create_of_none hname).2.1, Function.update_of_ne hne]
    | some i =>
      have hne : j ≠ i := by
        rintro rfl
        exact h (v.distinct hn hname)
      rw [(create_of_some hname).2.1, Function.update_of_ne hne]

/-- An open file can be read under its name. -/
theorem inode_openAppend : (v.openAppend name).2.inode name = some (v.openAppend name).1 := by
  unfold openAppend
  cases hname : v.inode name with
  | none =>
    dsimp only
    rw [(create_of_none hname).1, Function.update_self]
  | some i => exact hname

theorem inode_openAppend_of_ne (h : n ≠ name) : (v.openAppend name).2.inode n = v.inode n := by
  unfold openAppend
  cases v.inode name with
  | none => exact inode_create_of_ne h
  | some i => rfl

/-- Opening a file changes no content. -/
theorem read_openAppend {content : List UInt8} (h : v.read n = some content) :
    (v.openAppend name).2.read n = some content := by
  unfold openAppend
  cases hname : v.inode name with
  | some i => exact h
  | none =>
    have hne : n ≠ name := by
      rintro rfl
      rw [read, hname] at h
      cases h
    dsimp only
    rw [read_create_of_ne hne, h]

end

end Volume
