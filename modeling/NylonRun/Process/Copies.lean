import NylonRun.Process.Copying

/-!
# What a recursive copy does

`copy_dir_recursive` (src/process.rs:664-681) makes the destination before it lists the source,
and no caller keeps the two apart: the source may be the destination itself, hold it, or lie
below it.
-/

open UnixPath FileTree Effect

namespace Process

/-! ## Levels -/

/-- `copy_dir_recursive` with another bound on the number of its levels. -/
def copyDirLevels (fuel : Nat) (src dst : String) : Fs Unit := do
  let place ← mapError (fun e => s!"failed to create dir '{dst}': {e}")
    (createDirAll (components dst))
  match (← get).find src with
  | some (p, .dir) => copyTree fuel ⟨src, p⟩ ⟨dst, place⟩
  | some (_, .file _ _) => throw s!"failed to read dir '{src}': Not a directory (os error 20)"
  | none => throw s!"failed to read dir '{src}': No such file or directory (os error 2)"

theorem named_entry {s : Spot} {n : String} (hs : Named s.place) (hn : FileName n) :
    Named (s.entry n).place := hs.concat hn

theorem named_copyTree {fuel : Nat} {src dst : Spot} (hdst : Named dst.place) :
    Respects StaysNamed (copyTree fuel src dst) := by
  induction fuel generalizing src dst with
  | zero => exact .throw StaysNamed.refl _
  | succ fuel ih =>
    have hdir := respects_ensureDir StaysNamed.refl StaysNamed.trans (named_create hdst .dir)
    refine .bind StaysNamed.trans (.mapError hdir) fun _ u hu => ?_
    rw [final_get_bind]
    refine Respects.forEach StaysNamed.refl StaysNamed.trans _ (fun n hn => ?_) u hu
    have hentry := named_entry hdst (hu.child hn)
    exact respects_copyEntry StaysNamed.refl StaysNamed.trans (ih hentry) (named_copyFile _ hentry)

/-- The path of an entry is longer. -/
theorem entry_longer (s : Spot) {n : String} (hn : FileName n) :
    s.path.utf8ByteSize < (s.entry n).path.utf8ByteSize := by
  have hsize : 0 < n.utf8ByteSize := by
    rw [Nat.pos_iff_ne_zero, ne_eq, String.utf8ByteSize_eq_zero_iff]
    exact hn.nonempty
  unfold Spot.entry join
  rw [if_neg (by rw [isAbsolute_of_notMem hn.noSlash]; simp)]
  split
  · rw [String.utf8ByteSize_append]
    omega
  · rw [String.utf8ByteSize_append, String.utf8ByteSize_append]
    omega

/-- A level more does not matter once there are as many as a path can have. -/
theorem copyTree_level {fuel : Nat} {src dst : Spot} {t : FileTree}
    (h : pathMax ≤ fuel + dst.path.utf8ByteSize) (hdst : Named dst.place) (ht : AllNamed t) :
    copyTree (fuel + 1) src dst t = copyTree fuel src dst t := by
  induction fuel generalizing src dst t with
  | zero =>
    rw [Nat.zero_add] at h
    rw [copyTree_succ, run_bind, run_mapError, ensureDir, if_pos h]
    simp only [run_bind, run_throw, copyTree]
    rw [String.append_assoc]
    rfl
  | succ fuel ih =>
    rw [copyTree_succ, copyTree_succ, run_bind, run_bind]
    have hdir := respects_ensureDir StaysNamed.refl StaysNamed.trans (named_create hdst .dir)
    cases hrun : mapError (fun e => s!"failed to create dir '{dst.path}': {e}") (ensureDir dst) t with
    | error e u => rfl
    | ok _ u =>
      have hu : AllNamed u := (Respects.mapError hdir).of_ok hrun ht
      refine forEach_congr (I := AllNamed) hu (fun n hn v v' hv hrun => ?_) fun n hn v hv => ?_
      · have hentry := named_entry hdst (hu.child hn)
        exact (respects_copyEntry StaysNamed.refl StaysNamed.trans (named_copyTree hentry)
          (named_copyFile _ hentry)).of_ok hrun hv
      · have hlonger := entry_longer dst (hu.child hn)
        have hlevel : copyTree (fuel + 1) (src.entry n) (dst.entry n) v =
            copyTree fuel (src.entry n) (dst.entry n) v :=
          ih (by omega) (named_entry hdst (hu.child hn)) hv
        unfold copyEntry
        rw [run_get_bind, run_get_bind]
        split
        · exact hlevel
        · rfl

/-- As many levels as one likes give what the levels that a path can have give. -/
theorem copyTree_levels {fuel : Nat} {src dst : Spot} {t : FileTree} (h : pathMax ≤ fuel)
    (hdst : Named dst.place) (ht : AllNamed t) :
    copyTree fuel src dst t = copyTree pathMax src dst t := by
  induction fuel, h using Nat.le_induction with
  | base => rfl
  | succ fuel h ih => rw [copyTree_level (Nat.le_add_right_of_le h) hdst ht, ih]

/-- `copy_dir_recursive` ends within the levels that a path can have. -/
theorem copyDirLevels_eq {fuel : Nat} {src dst : String} {t : FileTree} (h : pathMax ≤ fuel)
    (ht : AllNamed t) : copyDirLevels fuel src dst t = copyDirRecursive src dst t := by
  unfold copyDirLevels copyDirRecursive
  rw [run_bind, run_bind, run_mapError, run_createDirAll]
  cases hmk : mkdirs (components dst) t.cwd t with
  | error e u => rfl
  | ok d u =>
    have hcs : ∀ c ∈ components dst, c ∈ components dst := fun _ h => h
    have hu : AllNamed u := (named_mkdirs hcs ht.cwd).of_ok hmk ht
    have hd : Named d := by
      rw [(mkdirs_ok hmk).1]
      exact named_lexical hcs ht.cwd
    simp only
    rw [run_get_bind, run_get_bind]
    rcases u.find src with _ | ⟨p, _ | _⟩
    · rfl
    · exact copyTree_levels h hd hu
    · rfl

/-! ## Contents -/

/-- A relative path so many times over. -/
def again (r : Place) : Nat → Place
  | 0 => []
  | k + 1 => again r k ++ r

/-- Every file below `s` has the content that some file of the tree `a` had, at its own place or
at one that `r` leads to from there, once or more often. -/
def Descends (a : FileTree) (s r : Place) (t : FileTree) : Prop :=
  ∀ rel c x, t.stat (s ++ rel) = some (.file c x) →
    ∃ k y, a.stat (s ++ again r k ++ rel) = some (.file c y)

/-- Files of one content, wherever a path below `s` and the same path after `r` lead to files. -/
def Agree (a : FileTree) (s r : Place) : Prop :=
  ∀ k rel c x c' x', a.stat (s ++ rel) = some (.file c x) →
    a.stat (s ++ again r k ++ rel) = some (.file c' x') → c = c'

/-- Every file below `s` in the first tree is at the same path below `d` in the second. -/
def Carried (s d : Place) (t t' : FileTree) : Prop :=
  ∀ rel c x, t.stat (s ++ rel) = some (.file c x) →
    ∃ y, t'.stat (d ++ rel) = some (.file c y)

/-- What a copy of `s` to `d` keeps: the files of the source descend from those of `a`, and a
file that has been copied from there stays. -/
structure Copying (a : FileTree) (s d r : Place) (t t' : FileTree) : Prop where
  grows : Grows t t'
  descends : Descends a s r t → Descends a s r t'
  kept : ∀ rel c x, a.stat (s ++ rel) = some (.file c x) → Descends a s r t →
    (∃ y, t.stat (d ++ rel) = some (.file c y)) → ∃ y, t'.stat (d ++ rel) = some (.file c y)

theorem again_nil (k : Nat) : again [] k = [] := by
  induction k with
  | zero => rfl
  | succ k ih => rw [again, ih]; rfl

theorem agree_nil (a : FileTree) (s : Place) : Agree a s [] := by
  intro k rel c x c' x' h h'
  rw [again_nil, List.append_nil, h] at h'
  cases h'
  rfl

theorem descends_refl (a : FileTree) (s r : Place) : Descends a s r a := by
  intro rel c x h
  exact ⟨0, x, by simpa [again] using h⟩

section

variable {a : FileTree} {s d r : Place}

theorem Copying.refl (t : FileTree) : Copying a s d r t t := ⟨.refl t, id, fun _ _ _ _ _ h => h⟩

theorem Copying.trans (t t' t'' : FileTree) (h : Copying a s d r t t')
    (h' : Copying a s d r t' t'') : Copying a s d r t t'' := by
  refine ⟨h.grows.trans _ _ _ h'.grows, fun hd => h'.descends (h.descends hd), ?_⟩
  intro rel c x hfile hd hcopy
  exact h'.kept rel c x hfile (h.descends hd) (h.kept rel c x hfile hd hcopy)

theorem copying_create (rel : Place) : Respects (Copying a s d r) (create (d ++ rel) .dir) := by
  intro t
  rw [final_create]
  split
  · rename_i room
    refine ⟨grows_put room, fun hd q c x hfile => ?_, fun q c x _ _ hcopy => ?_⟩
    · exact hd q c x ((file_put_dir room).1 hfile)
    · obtain ⟨y, hy⟩ := hcopy
      exact ⟨y, (file_put_dir room).2 hy⟩
  · exact .refl t

variable (hne : s ≠ d) (hover : ∀ rel rel', d ++ rel' = s ++ rel → rel' = r ++ rel)
  (hagree : Agree a s r)

include hne hover hagree

theorem copying_copyFile (rel : Place) :
    Respects (Copying a s d r) (copyFile (s ++ rel) (d ++ rel)) := by
  intro t
  have hplace : s ++ rel ≠ d ++ rel := fun h => hne (List.append_cancel_right h)
  rcases copyFile_cases hplace t with ⟨c, x, t', hfile, hrun, hstat⟩ | ⟨e, hrun⟩
  · have hgrows := (respects_copyFile kept_grows (s ++ rel) (d ++ rel)).of_ok hrun
    rw [final_of_ok hrun]
    refine ⟨hgrows, fun hd q c' x' h => ?_, fun q c' x' h hd hcopy => ?_⟩
    · rw [hstat] at h
      split at h
      · -- the copy lies in the source again, as what `r` leads to from there
        rename_i heq
        cases h
        have hrel := hover q rel heq.symm
        obtain ⟨k, y, hk⟩ := hd rel c x hfile
        refine ⟨k + 1, y, ?_⟩
        rw [hrel] at hk
        simpa [again] using hk
      · exact hd q c' x' h
    · rw [hstat]
      split
      · rename_i heq
        have hq : q = rel := List.append_cancel_left heq
        obtain ⟨k, y, hk⟩ := hd rel c x hfile
        rw [← hq] at hk
        obtain rfl := hagree k q c' x' c y h hk
        exact ⟨x, rfl⟩
      · exact hcopy
  · rw [final_of_error hrun]
    exact .refl t

theorem copying_copyTree {fuel : Nat} {src dst : Spot} {b : Place} (hsrc : src.place = s ++ b)
    (hdst : dst.place = d ++ b) : Respects (Copying a s d r) (copyTree fuel src dst) := by
  refine respects_copyTree Copying.refl Copying.trans (fun rel => ?_) fun rel => ?_
  · rw [hdst, List.append_assoc]
    exact copying_create _
  · rw [hsrc, hdst, List.append_assoc, List.append_assoc]
    exact copying_copyFile hne hover hagree _

/-- A copy that succeeds has copied every file that the tree `a` holds below its source. -/
theorem copyTree_copies {fuel : Nat} {src dst : Spot} {b : Place} (hsrc : src.place = s ++ b)
    (hdst : dst.place = d ++ b) {t t' : FileTree} (h : copyTree fuel src dst t = .ok () t')
    (hgrows : Grows a t) (hd : Descends a s r t) {rel : Place} (hrel : rel ≠ []) {c : Bytes}
    {x : Bool} (hfile : a.stat (s ++ b ++ rel) = some (.file c x)) :
    ∃ y, t'.stat (d ++ b ++ rel) = some (.file c y) := by
  induction fuel generalizing src dst b t t' rel with
  | zero => cases h
  | succ fuel ih =>
    rw [copyTree_succ] at h
    obtain ⟨_, t₁, hdir, h⟩ := bind_ok h
    have hcreate : Respects (Copying a s d r) (create dst.place .dir) := by
      rw [hdst]
      exact copying_create b
    have h₁ := (respects_ensureDir Copying.refl Copying.trans hcreate).of_ok (mapError_ok.1 hdir)
    rw [run_get_bind] at h
    obtain ⟨n, rel, rfl⟩ := List.exists_cons_of_ne_nil hrel
    have hentry (m : String) : (src.entry m).place = s ++ (b ++ [m]) ∧
        (dst.entry m).place = d ++ (b ++ [m]) := by
      simp [Spot.entry, hsrc, hdst]
    have hbody (m : String) : Respects (Copying a s d r) (copyEntry fuel src dst m) := by
      refine respects_copyEntry Copying.refl Copying.trans ?_ ?_
      · exact copying_copyTree hne hover hagree (hentry m).1 (hentry m).2
      · rw [hsrc, hdst, List.append_assoc, List.append_assoc]
        exact copying_copyFile hne hover hagree _
    have hfile₁ := (hgrows.trans _ _ _ h₁.grows).file _ c x hfile
    obtain ⟨c₁, x₁, hfile₁⟩ := hfile₁
    rw [← hsrc] at hfile₁
    obtain ⟨u, u', hu, hrun, hu'⟩ := forEach_ok_mem Copying.refl Copying.trans
      (fun m _ => hbody m) h (mem_children_of_below hfile₁)
    have hgrowsu : Grows a u := hgrows.trans _ _ _ (h₁.grows.trans _ _ _ hu.grows)
    have hdu : Descends a s r u := hu.descends (h₁.descends hd)
    have hdu' : Descends a s r u' := ((hbody n).of_ok hrun).descends hdu
    have hsplit (p : Place) : p ++ b ++ n :: rel = p ++ (b ++ n :: rel) := List.append_assoc ..
    rw [hsplit] at hfile ⊢
    refine hu'.kept _ c x hfile hdu' ?_
    obtain ⟨c₂, x₂, hfile₂⟩ := hgrowsu.file _ c x hfile
    rw [← hsplit, ← hsrc] at hfile₂
    rcases copyEntry_ok hrun hfile₂ with ⟨rfl, hcopy⟩ | ⟨hnil, hcopy⟩
    · -- what is read is what the file of `a` held
      rw [hsrc, hdst, List.append_assoc, List.append_assoc] at hcopy
      rw [hsrc, hsplit] at hfile₂
      obtain ⟨k, y, hk⟩ := hdu _ c₂ x₂ hfile₂
      obtain rfl := hagree k _ c x c₂ y hfile hk
      have hplace : s ++ (b ++ [n]) ≠ d ++ (b ++ [n]) :=
        fun h => hne (List.append_cancel_right h)
      rcases copyFile_cases hplace u with ⟨c₃, x₃, u'', hfile₃, hrun₃, hstat⟩ | ⟨e, herr⟩
      · rw [hrun₃] at hcopy
        cases hcopy
        rw [hfile₂] at hfile₃
        cases hfile₃
        exact ⟨x₂, by rw [hstat, if_pos rfl]⟩
      · rw [herr] at hcopy
        cases hcopy
    · have hat (p : Place) : p ++ (b ++ n :: rel) = p ++ (b ++ [n]) ++ rel := by simp
      rw [hat] at hfile ⊢
      exact ih (hentry n).1 (hentry n).2 hcopy hgrowsu hdu hnil hfile

end

/-! ## A destination inside the source -/

theorem ensureDir_ok {s : Spot} {t t' : FileTree} (h : ensureDir s t = .ok () t') :
    t'.stat s.place = some .dir := by
  by_cases hlong : pathMax ≤ s.path.utf8ByteSize
  · rw [ensureDir, if_pos hlong] at h
    cases h
  · rw [ensureDir, if_neg hlong] at h
    rcases hs : t.stat s.place with _ | _ | _ <;> simp only [run_get_bind, hs] at h
    · obtain ⟨room, rfl⟩ := create_ok h
      simp
    · cases h
      exact hs
    · cases h

theorem grows_copyEntry (fuel : Nat) (src dst : Spot) (n : String) :
    Respects Grows (copyEntry fuel src dst n) :=
  respects_copyEntry Grows.refl Grows.trans (grows_copyTree _ _ _) (respects_copyFile kept_grows _ _)

/-- A directory is not copied into itself: the copy goes on until a path is too long. -/
theorem copyTree_into_source {fuel : Nat} {src dst : Spot} {t t' : FileTree} {r : Place}
    (hr : r ≠ []) (hplace : dst.place = src.place ++ r) : copyTree fuel src dst t ≠ .ok () t' := by
  induction fuel generalizing src dst t t' r with
  | zero => exact fun h => nomatch h
  | succ fuel ih =>
    intro h
    rw [copyTree_succ] at h
    obtain ⟨_, t₁, hdir, h⟩ := bind_ok h
    have hdst := ensureDir_ok (mapError_ok.1 hdir)
    rw [run_get_bind] at h
    obtain ⟨n, r, rfl⟩ := List.exists_cons_of_ne_nil hr
    rw [hplace] at hdst
    -- the loop comes to the entry that leads to the destination
    obtain ⟨u, u', hu, hrun, -⟩ := forEach_ok_mem Grows.refl Grows.trans
      (fun m _ => grows_copyEntry fuel src dst m) h (mem_children_of_below hdst)
    have hsplit : src.place ++ n :: r = src.place ++ [n] ++ r := by simp
    have hentry : u.stat (src.place ++ [n]) = some .dir := by
      have hway := hu.dir _ hdst
      rw [hsplit] at hway
      by_cases hnil : r = []
      · rwa [hnil, List.append_nil] at hway
      · exact u.ancestor_dir hway hnil
    unfold copyEntry at hrun
    rw [run_get_bind, if_pos hentry] at hrun
    refine ih (r := r ++ [n]) (by simp) ?_ hrun
    simp [Spot.entry, hplace]

/-! ## The whole copy -/

/-- Outside `root` everything is as it was. -/
def UnchangedOutside (root : Place) (t t' : FileTree) : Prop :=
  ∀ q, ¬root <+: q → t'.stat q = t.stat q

/-- What is missing on the way to a directory lies in it. -/
def WayInside (root : Place) (t : FileTree) (cs : List Component) : Prop :=
  ∀ p ∈ trail t.cwd cs, t.stat p = none → root <+: p

/-- All files below `s` are empty. -/
def Blank (s : Place) (t : FileTree) : Prop :=
  ∀ rel c x, t.stat (s ++ rel) = some (.file c x) → c = []

theorem UnchangedOutside.refl (root : Place) (t : FileTree) : UnchangedOutside root t t :=
  fun _ _ => rfl

theorem UnchangedOutside.trans {root : Place} (t t' t'' : FileTree)
    (h : UnchangedOutside root t t') (h' : UnchangedOutside root t' t'') :
    UnchangedOutside root t t'' := fun q hq => (h' q hq).trans (h q hq)

theorem unchanged_create {root p : Place} (hp : root <+: p) (node : Node) :
    Respects (UnchangedOutside root) (create p node) := by
  intro t q hq
  rw [final_create]
  split
  · rw [stat_put, if_neg]
    rintro rfl
    exact hq hp
  · rfl

theorem unchanged_copyTree {fuel : Nat} {src dst : Spot} :
    Respects (UnchangedOutside dst.place) (copyTree fuel src dst) := by
  have hbelow (rel : Place) : dst.place <+: dst.place ++ rel := List.prefix_append _ _
  refine respects_copyTree (.refl _) .trans (fun rel => unchanged_create (hbelow rel) .dir) ?_
  intro rel
  exact respects_copyFile_of (.refl _) .trans (unchanged_create (hbelow rel))

/-- The two parts of a copy that succeeds. -/
theorem copyDirRecursive_ok {src dst : String} {s : Place} {t t' : FileTree}
    (hsrc : t.find src = some (s, .dir)) (h : copyDirRecursive src dst t = .ok () t') :
    ∃ t₁, mkdirs (components dst) t.cwd t = .ok (lexical t.cwd (components dst)) t₁ ∧
      t₁.stat s = some .dir ∧
      copyTree pathMax ⟨src, s⟩ ⟨dst, lexical t.cwd (components dst)⟩ t₁ = .ok () t' := by
  unfold copyDirRecursive at h
  obtain ⟨d, t₁, hmk, hcopy⟩ := bind_ok h
  rw [mapError_ok, run_createDirAll] at hmk
  obtain rfl := (mkdirs_ok hmk).1
  obtain ⟨node, hfound, hkind⟩ := ((respects_mkdirs kept_grows _ _).of_ok hmk).find hsrc
  rw [run_get_bind, hfound] at hcopy
  cases node with
  | file c x => cases hkind
  | dir => exact ⟨t₁, hmk, (find_eq_some.1 hfound).2.2.2, hcopy⟩

section

variable {src dst : String} {s : Place} {t t' : FileTree}
  (hsrc : t.find src = some (s, .dir)) (hrun : copyDirRecursive src dst t = .ok () t')

include hsrc hrun

/-- Outside the destination a copy that succeeds has made the directories missing on the way to
it, and nothing else. -/
theorem unchanged_iff : UnchangedOutside (lexical t.cwd (components dst)) t t' ↔
    WayInside (lexical t.cwd (components dst)) t (components dst) := by
  obtain ⟨t₁, hmk, -, hcopy⟩ := copyDirRecursive_ok hsrc hrun
  obtain ⟨-, hdirs⟩ := mkdirs_ok hmk
  constructor
  · intro h p hp hnone
    by_contra hout
    have hdir := (grows_copyTree _ _ _).of_ok hcopy |>.dir p (hdirs p hp)
    rw [h p hout, hnone] at hdir
    cases hdir
  · intro h q hq
    have hrest := unchanged_copyTree.of_ok hcopy q hq
    rw [hrest]
    by_cases hp : q ∈ trail t.cwd (components dst)
    · -- what stood on the way was a directory already
      rw [hdirs q hp]
      rcases hstat : t.stat q with _ | _ | ⟨c, x⟩
      · exact absurd (h q hp hstat) hq
      · rfl
      · have hfile := (file_mkdirs hmk).2 hstat
        rw [hdirs q hp] at hfile
        cases hfile
    · exact mkdirs_stat_eq hmk hp

theorem carried_self (hself : s = lexical t.cwd (components dst)) :
    Carried s (lexical t.cwd (components dst)) t t' ↔ Blank s t := by
  obtain ⟨t₁, hmk, hdir, hcopy⟩ := copyDirRecursive_ok hsrc hrun
  have hhollow : Hollows s t₁ t' := hollows_copyTree hself hcopy
  have hempty (rel : Place) (c : Bytes) (x : Bool) (hfile : t.stat (s ++ rel) = some (.file c x)) :
      ∃ y, t'.stat (s ++ rel) = some (.file [] y) := by
    have hfile₁ := (file_mkdirs hmk).2 hfile
    refine hhollow rel ?_ c x hfile₁
    rintro rfl
    rw [List.append_nil, hdir] at hfile₁
    cases hfile₁
  rw [← hself]
  constructor
  · intro h rel c x hfile
    obtain ⟨y, hy⟩ := h rel c x hfile
    obtain ⟨z, hz⟩ := hempty rel c x hfile
    rw [hz] at hy
    cases hy
    rfl
  · intro h rel c x hfile
    obtain rfl := h rel c x hfile
    exact hempty rel [] x hfile

/-- A copy that succeeds to another place has copied every file, unless files of the source
stand for each other. -/
theorem carried_of_agree (hne : s ≠ lexical t.cwd (components dst))
    (hagree : ∀ r, s = lexical t.cwd (components dst) ++ r → Agree t s r) :
    Carried s (lexical t.cwd (components dst)) t t' := by
  obtain ⟨t₁, hmk, hdir, hcopy⟩ := copyDirRecursive_ok hsrc hrun
  generalize lexical t.cwd (components dst) = d at *
  -- how often `r` leads from the source to itself again
  obtain ⟨r, hover, hr⟩ : ∃ r, (∀ rel rel', d ++ rel' = s ++ rel → rel' = r ++ rel) ∧
      Agree t s r := by
    by_cases hbelow : d <+: s
    · obtain ⟨r, rfl⟩ := hbelow
      refine ⟨r, fun rel rel' h => ?_, hagree r rfl⟩
      rw [List.append_assoc] at h
      exact List.append_cancel_left h
    · refine ⟨[], fun rel rel' h => ?_, agree_nil t s⟩
      have hd : d <+: s ++ rel := h ▸ List.prefix_append d rel'
      rcases List.prefix_or_prefix_of_prefix hd (List.prefix_append s rel) with h' | ⟨r, rfl⟩
      · exact absurd h' hbelow
      · have hnil : r ≠ [] := by
          rintro rfl
          exact hne (List.append_nil s).symm
        exact absurd hcopy (copyTree_into_source hnil rfl)
  intro rel c x hfile
  have hfile₁ := (file_mkdirs hmk).2 hfile
  have hrel : rel ≠ [] := by
    rintro rfl
    rw [List.append_nil, hdir] at hfile₁
    cases hfile₁
  have hr₁ : Agree t₁ s r := fun k rel c x c' x' h h' =>
    hr k rel c x c' x' ((file_mkdirs hmk).1 h) ((file_mkdirs hmk).1 h')
  have hcopied := copyTree_copies (b := []) hne hover hr₁ (List.append_nil s).symm
    (List.append_nil d).symm hcopy (.refl t₁) (descends_refl t₁ s r) hrel
    (by rw [List.append_nil]; exact hfile₁)
  rwa [List.append_nil] at hcopied

end

/-- `copy_dir_recursive` ends within the levels that a path can have. When it succeeds, it has
copied every file and changed nothing outside the destination, if the directories above the
destination are there, the source is another place or holds no content, and no file of the
source takes the place of another before it is copied; the first two are necessary. -/
theorem copyDirRecursive_carries (src dst : String) {t : FileTree} (hnamed : AllNamed t) :
    (∀ fuel, pathMax ≤ fuel → copyDirLevels fuel src dst t = copyDirRecursive src dst t) ∧
    ∀ s t', t.find src = some (s, .dir) → copyDirRecursive src dst t = .ok () t' →
      let d := lexical t.cwd (components dst)
      (Carried s d t t' ∧ UnchangedOutside d t t' →
          WayInside d t (components dst) ∧ (s = d → Blank s t)) ∧
        (WayInside d t (components dst) ∧ (s = d → Blank s t) ∧
            (∀ r, s = d ++ r → Agree t s r) →
          Carried s d t t' ∧ UnchangedOutside d t t') := by
  refine ⟨fun fuel h => copyDirLevels_eq h hnamed, fun s t' hsrc hrun => ⟨?_, ?_⟩⟩
  · rintro ⟨hcarried, hout⟩
    exact ⟨(unchanged_iff hsrc hrun).1 hout, fun hself => (carried_self hsrc hrun hself).1 hcarried⟩
  · rintro ⟨hway, hblank, hagree⟩
    refine ⟨?_, (unchanged_iff hsrc hrun).2 hway⟩
    by_cases hself : s = lexical t.cwd (components dst)
    · exact (carried_self hsrc hrun hself).2 (hblank hself)
    · exact carried_of_agree hsrc hrun hself hagree

/-- A directory `/d/r` with a file `x`, and another `x` in its own directory `r`. What was made last
is listed first. -/
def nestedDisk (fileFirst : Bool) : FileTree :=
  final (do
    let _ ← createDirAll (components (if fileFirst then "/d/r" else "/d/r/r"))
    write "/d/r/x" [1]
    let _ ← createDirAll (components "/d/r/r")
    write "/d/r/r/x" [2]) .empty

/-- Where files of the source differ, the listing decides: the copy of `/d/r` to `/d` has the
content of `x` if that comes before the directory, and that of `r/x` if not. -/
example :
    (final (copyDirRecursive "/d/r" "/d") (nestedDisk false)).stat ["d", "x"] =
        some (.file [1] false) ∧
      (final (copyDirRecursive "/d/r" "/d") (nestedDisk true)).stat ["d", "x"] =
        some (.file [2] false) := by
  decide +kernel

/-- A disk with a directory of one file. -/
def dataDisk : FileTree :=
  final (do
    let _ ← createDirAll (components "/data")
    write "/data/a" [1]) .empty

theorem allNamed_dataDisk : AllNamed dataDisk :=
  allNamed_of_keys (by decide +kernel) (by decide +kernel)

/-- Copied beside itself, the directory has its file twice. -/
theorem copyDirRecursive_carries_data :
    ∃ t', copyDirRecursive "/data" "/copy" dataDisk = .ok () t' ∧
      Carried ["data"] ["copy"] dataDisk t' ∧ UnchangedOutside ["copy"] dataDisk t' := by
  have hrun : result (copyDirRecursive "/data" "/copy") dataDisk = .ok () ∧
      dataDisk.find "/data" = some (["data"], .dir) ∧
      lexical dataDisk.cwd (components "/copy") = ["copy"] ∧
      (∀ p ∈ trail dataDisk.cwd (components "/copy"), dataDisk.stat p = none → ["copy"] <+: p) := by
    decide +kernel
  obtain ⟨hok, hfind, hplace, hway⟩ := hrun
  obtain ⟨t', ht'⟩ := result_eq_ok hok
  have hcarries := (copyDirRecursive_carries "/data" "/copy" allNamed_dataDisk).2 _ t' hfind ht'
  rw [hplace] at hcarries
  refine ⟨t', ht', hcarries.2 ⟨hway, fun h => absurd h (by decide), fun r h => ?_⟩⟩
  exact absurd (List.cons.inj h).1 (by decide)

/-- Copied onto itself, it has lost the content of its file, and the copy succeeds. -/
theorem copyDirRecursive_empties :
    dataDisk.find "/data" = some (["data"], .dir) ∧
      dataDisk.stat ["data", "a"] = some (.file [1] false) ∧
      ∃ t', copyDirRecursive "/data" "/data" dataDisk = .ok () t' ∧
        t'.stat ["data", "a"] = some (.file [] false) ∧
        ¬Carried ["data"] ["data"] dataDisk t' := by
  have hrun : result (copyDirRecursive "/data" "/data") dataDisk = .ok () ∧
      dataDisk.find "/data" = some (["data"], .dir) ∧
      dataDisk.stat ["data", "a"] = some (.file [1] false) ∧
      (final (copyDirRecursive "/data" "/data") dataDisk).stat ["data", "a"] =
        some (.file [] false) := by
    decide +kernel
  obtain ⟨hok, hfind, hfile, hempty⟩ := hrun
  obtain ⟨t', ht'⟩ := result_eq_ok hok
  rw [final_of_ok ht'] at hempty
  refine ⟨hfind, hfile, t', ht', hempty, fun h => ?_⟩
  obtain ⟨y, hy⟩ := h ["a"] [1] false hfile
  have hsame := hempty.symm.trans hy
  cases hsame

end Process
