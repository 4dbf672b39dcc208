import NylonRun.Lib.FileTree

/-!
# Files of a tree, by their place

What writing, removing and making directories do to the contents of the files.
-/

open UnixPath Effect

namespace FileTree

/-- The content of the file at a place. -/
def fileAt (t : FileTree) (q : Place) : Option Bytes :=
  match t.stat q with
  | some (.file content _) => some content
  | _ => none

variable {t t' : FileTree} {p : String} {q f : Place} {content : Bytes} {x : Bool}

theorem fileAt_congr (h : t'.stat q = t.stat q) : t'.fileAt q = t.fileAt q := by
  rw [fileAt, h, fileAt]

theorem fileAt_of_file (h : t.stat q = some (.file content x)) : t.fileAt q = some content := by
  rw [fileAt, h]

theorem fileAt_eq_some : t.fileAt q = some content ↔ ∃ x, t.stat q = some (.file content x) := by
  constructor
  · intro h
    unfold fileAt at h
    split at h
    · rename_i c x hstat
      cases h
      exact ⟨x, hstat⟩
    · cases h
  · rintro ⟨x, hstat⟩
    exact fileAt_of_file hstat

theorem fileAt_put_file (room : t.Room f (.file content x)) (q : Place) :
    (t.put f (.file content x) room).fileAt q = if q = f then some content else t.fileAt q := by
  have hstat := stat_put t f (.file content x) room q
  by_cases hq : q = f
  · rw [if_pos hq] at hstat
    rw [if_pos hq, fileAt_of_file hstat]
  · rw [if_neg hq] at hstat
    rw [if_neg hq, fileAt_congr hstat]

theorem fileAt_put_dir (room : t.Room f .dir) (q : Place) :
    (t.put f .dir room).fileAt q = t.fileAt q := by
  refine Option.ext fun c => ?_
  rw [fileAt_eq_some, fileAt_eq_some]
  exact exists_congr fun x => file_put_dir room

/-- A file that is removed takes no other file with it. -/
theorem fileAt_prune (hf : t.stat f = some (.file content x)) (q : Place) :
    (t.prune f).fileAt q = if q = f then none else t.fileAt q := by
  have hne : f ≠ [] := by
    rintro rfl
    exact nomatch hf
  by_cases hq : q = f
  · rw [if_pos hq, fileAt, stat_prune_below t hne, if_pos (hq ▸ List.prefix_refl f)]
  · rw [if_neg hq]
    by_cases hpre : f <+: q
    · have hgone : t.stat q = none := by
        obtain ⟨rest, rfl⟩ := hpre
        cases hstat : t.stat (f ++ rest) with
        | none => rfl
        | some node =>
          have hdir := ancestor_dir hstat fun hrest => hq (by rw [hrest, List.append_nil])
          exact nomatch hf.symm.trans hdir
      rw [fileAt, stat_prune_below t hne, if_pos hpre, fileAt, hgone]
    · refine fileAt_congr ?_
      rw [stat_prune_below t hne, if_neg hpre]

/-- A path leads to its place, or to nothing. -/
theorem lexical_of_resolve (h : t.resolve p = some q) : q = lexical t.cwd (components p) :=
  walk_lexical (resolve_eq_some.1 h).2.1

/-- What is written is all that changes. -/
theorem fileAt_write (h : write p content t = .ok () t') : t'.cwd = t.cwd ∧
    ∀ q, t'.fileAt q = if q = lexical t.cwd (components p) then some content else t.fileAt q := by
  unfold write at h
  rw [run_get_bind] at h
  cases hresolve : t.resolve p with
  | none =>
    rw [hresolve] at h
    cases h
  | some place =>
    rw [hresolve] at h
    have hplace := lexical_of_resolve hresolve
    have hput : ∃ x, create place (.file content x) t = .ok () t' := by
      dsimp only at h
      unfold writeAt at h
      rw [run_get_bind] at h
      rcases hstat : t.stat place with _ | _ | ⟨c, x⟩
      · exact ⟨false, by rwa [hstat] at h⟩
      · exact ⟨false, by rwa [hstat] at h⟩
      · exact ⟨x, by rwa [hstat] at h⟩
    obtain ⟨x, hcreate⟩ := hput
    obtain ⟨room, rfl⟩ := create_ok hcreate
    rw [← hplace]
    exact ⟨rfl, fileAt_put_file room⟩

/-- What is removed is all that changes. -/
theorem fileAt_removeFile (h : removeFile p t = .ok () t') : t'.cwd = t.cwd ∧
    ∀ q, t'.fileAt q = if q = lexical t.cwd (components p) then none else t.fileAt q := by
  unfold removeFile at h
  rw [run_get_bind] at h
  cases hfind : t.find p with
  | none =>
    rw [hfind] at h
    cases h
  | some found =>
    obtain ⟨place, node⟩ := found
    rw [hfind] at h
    cases node with
    | dir => cases h
    | file content x =>
      obtain ⟨-, hwalk, -, hstat⟩ := find_eq_some.1 hfind
      have hplace : place = lexical t.cwd (components p) := walk_lexical hwalk
      cases h
      rw [← hplace]
      exact ⟨rfl, fileAt_prune hstat⟩

/-- Where there is no file, none is removed. -/
theorem removeFile_of_absent (h : t.fileAt (lexical t.cwd (components p)) = none) :
    final (removeFile p) t = t := by
  unfold removeFile
  rw [final_get_bind]
  cases hfind : t.find p with
  | none => rfl
  | some found =>
    obtain ⟨place, node⟩ := found
    cases node with
    | dir => rfl
    | file content x =>
      obtain ⟨-, hwalk, -, hstat⟩ := find_eq_some.1 hfind
      have hplace : place = lexical t.cwd (components p) := walk_lexical hwalk
      rw [← hplace, fileAt_of_file hstat] at h
      cases h

/-- Directories that are made leave the files. -/
theorem fileAt_mkdirs (cs : List Component) (dir : Place) (t : FileTree) (q : Place) :
    (final (mkdirs cs dir) t).fileAt q = t.fileAt q := by
  induction cs generalizing dir t with
  | nil => rfl
  | cons c cs ih =>
    have hrun := run_mkdirs_cons c cs dir t
    rcases hstat : t.stat (advance dir c) with _ | _ | ⟨c', x⟩
    · rw [hstat] at hrun
      by_cases room : t.Room (advance dir c) .dir
      · have hcreate : create (advance dir c) .dir t = .ok () (t.put _ .dir room) := dif_pos room
        rw [run_bind, hcreate] at hrun
        rw [final, hrun]
        exact (ih _ _).trans (fileAt_put_dir room q)
      · have hcreate : create (advance dir c) .dir t = .error (t.refusal _) t := dif_neg room
        rw [run_bind, hcreate] at hrun
        rw [final_of_error hrun]
    · rw [hstat] at hrun
      rw [final, hrun]
      exact ih _ _
    · rw [hstat] at hrun
      rw [final_of_error hrun]

end FileTree
