import NylonRun.Lib.Listing
import NylonRun.Process.Launch

/-!
# What the copies of a launch do to the disk

`std::fs::copy` truncates its destination before it reads the source, and `copy_dir_recursive`
(src/process.rs:664-681) stops at the first error: a copy of a tree onto itself empties the files
that it comes to, in the order in which the system lists them, and leaves the others as they were.
-/

open UnixPath FileTree Effect

namespace FileTree

/-- What is an empty file stays one. -/
structure KeepsEmpty (t t' : FileTree) : Prop where
  empty : ∀ p x, t.stat p = some (.file [] x) → ∃ x', t'.stat p = some (.file [] x')

theorem KeepsEmpty.refl (t : FileTree) : KeepsEmpty t t := ⟨fun _ x h => ⟨x, h⟩⟩

theorem KeepsEmpty.trans (t t' t'' : FileTree) (h : KeepsEmpty t t') (h' : KeepsEmpty t' t'') :
    KeepsEmpty t t'' := by
  refine ⟨fun p x hp => ?_⟩
  obtain ⟨x', hx'⟩ := h.empty p x hp
  exact h'.empty p x' hx'

/-- Only what has content already is given content. -/
theorem keepsEmpty_create {t : FileTree} {p : Place} {node : Node}
    (hnode : ∀ c y x, node = .file c y → t.stat p = some (.file [] x) → c = []) :
    KeepsEmpty t (final (create p node) t) := by
  rw [final_create]
  split
  · rename_i room
    refine ⟨fun q x hq => ?_⟩
    rw [stat_put]
    split
    · rename_i heq
      subst heq
      cases node with
      | dir =>
        have hkind := room.2.2
        rw [hq] at hkind
        cases hkind
      | file c y =>
        obtain rfl := hnode c y x rfl hq
        exact ⟨y, rfl⟩
    · exact ⟨x, hq⟩
  · exact .refl t

theorem keepsEmpty_createDir (p : Place) : Respects KeepsEmpty (create p .dir) :=
  fun _ => keepsEmpty_create fun _ _ _ h => by cases h

theorem keepsEmpty_setExecutable (p : String) : Respects KeepsEmpty (setExecutable p) := by
  intro t
  unfold setExecutable
  rw [final_get_bind]
  rcases hf : t.find p with _ | ⟨q, _ | ⟨c, y⟩⟩
  · exact .refl t
  · exact .refl t
  · refine keepsEmpty_create fun c' y' x hnode hq => ?_
    obtain ⟨-, -, -, hstat⟩ := find_eq_some.1 hf
    rw [hq] at hstat
    cases hstat
    cases hnode
    rfl

/-- A file copied onto itself is empty afterwards. -/
theorem run_copyFile_self {t : FileTree} {p : Place} {c : Bytes} {x : Bool}
    (h : t.stat p = some (.file c x)) :
    ∃ t', copyFile p p t = .ok () t' ∧ t'.stat p = some (.file [] x) ∧
      KeepsEmpty t t' := by
  have room : t.Room p (.file [] x) := by
    refine ⟨?_, t.dropLast_dir h, by rw [h]; rfl⟩
    rintro rfl
    cases h
  have hput : (t.put p (.file [] x) room).stat p = some (.file [] x) := by simp
  have room' : (t.put p (.file [] x) room).Room p (.file [] x) :=
    ⟨room.1, FileTree.dropLast_dir _ hput, by rw [hput]; rfl⟩
  refine ⟨(t.put p (.file [] x) room).put p (.file [] x) room', ?_, by simp, ⟨fun q y hq => ?_⟩⟩
  · unfold copyFile
    rw [run_get_bind, h]
    simp only [run_bind, create, dif_pos room, run_get, stat_put, if_true, dif_pos room']
  · rw [stat_put, stat_put]
    split
    · exact ⟨x, rfl⟩
    · exact ⟨y, hq⟩

theorem keepsEmpty_copyFile_self (p : Place) : Respects KeepsEmpty (copyFile p p) := by
  intro t
  rcases h : t.stat p with _ | _ | ⟨c, x⟩
  · simpa [final, copyFile, h, run_get_bind] using KeepsEmpty.refl t
  · simpa [final, copyFile, h, run_get_bind] using KeepsEmpty.refl t
  · obtain ⟨t', hrun, -, hkeeps⟩ := run_copyFile_self h
    rw [final_of_ok hrun]
    exact hkeeps

end FileTree

namespace Process

/-! ## What a launch does to the disk -/

section

variable {R : FileTree → FileTree → Prop} (refl : ∀ t, R t t)
  (trans : ∀ t t' t'', R t t' → R t' t'' → R t t'')

include refl trans

theorem respects_ensureDir {s : Spot} (dir : Respects R (create s.place .dir)) :
    Respects R (ensureDir s) := by
  unfold ensureDir
  apply Respects.check refl trans
  refine .bind trans (.get refl) fun t => ?_
  split
  · exact .pure refl _
  · exact .throw refl _
  · exact dir

/-- Copying a tree is making directories and copying files to the same names. -/
theorem respects_copyTree {fuel : Nat} {src dst : Spot}
    (dir : ∀ rel, Respects R (create (dst.place ++ rel) .dir))
    (file : ∀ rel, Respects R (copyFile (src.place ++ rel) (dst.place ++ rel))) :
    Respects R (copyTree fuel src dst) := by
  induction fuel generalizing src dst with
  | zero => exact .throw refl _
  | succ fuel ih =>
    have hdst : Respects R (create dst.place .dir) := by simpa using dir []
    refine .bind trans (.mapError (respects_ensureDir refl trans hdst)) fun _ => ?_
    refine .bind trans (.get refl) fun t => .forEach refl trans _ fun n _ => ?_
    refine .bind trans (.get refl) fun t => .ite (ih (fun rel => ?_) fun rel => ?_) ?_
    · simpa [Spot.entry] using dir (n :: rel)
    · simpa [Spot.entry] using file (n :: rel)
    · exact .mapError (file [n])

end

section

variable {R : FileTree → FileTree → Prop} (kept : Kept R)

include kept

theorem respects_copyDirRecursive (src dst : String) : Respects R (copyDirRecursive src dst) := by
  refine .bind kept.trans (.mapError (respects_createDirAll kept _)) fun p => ?_
  refine .bind kept.trans (.get kept.refl) fun t => ?_
  split
  · exact respects_copyTree kept.refl kept.trans (fun _ => respects_create kept _ _)
      fun _ => respects_copyFile kept _ _
  · exact .throw kept.refl _
  · exact .throw kept.refl _

theorem respects_copyApp (config : ProcessConfig) : Respects R (copyApp config) := by
  refine .bind kept.trans (.get kept.refl) fun t => .ite ?_ ?_
  · exact .bind kept.trans (respects_copyDirRecursive kept _ _) fun _ => .pure kept.refl _
  · refine .bind kept.trans (.mapError (respects_copy kept _ _)) fun _ => ?_
    refine .bind kept.trans (.attempt (respects_setExecutable kept _)) fun _ => ?_
    exact .pure kept.refl _

theorem respects_copyToAppDir (config : ProcessConfig) : Respects R (copyToAppDir config) := by
  refine .ite (.pure kept.refl _) (.bind kept.trans (.get kept.refl) fun t => ?_)
  refine .ite (.pure kept.refl _) (.bind kept.trans (.mapError ?_) fun _ => ?_)
  · exact respects_createDirAll kept _
  · exact respects_copyApp kept config

theorem respects_mountVolume (workDir vol : String) : Respects R (mountVolume workDir vol) := by
  unfold mountVolume
  split
  · exact .throw kept.refl _
  · refine .bind kept.trans (.get kept.refl) fun t => ?_
    apply Respects.check kept.refl kept.trans
    refine .bind kept.trans (.mapError (respects_createDirAll kept _)) fun _ => ?_
    refine .bind kept.trans (.get kept.refl) fun t => .ite ?_ (.mapError ?_)
    · exact respects_copyDirRecursive kept _ _
    · exact respects_copy kept _ _

theorem respects_writePidFile (m : ManagedProcess) : Respects R (writePidFile m) := by
  unfold writePidFile
  split
  · exact .attempt (respects_write kept _ _)
  · exact .pure kept.refl _

end

theorem respects_mountVolumes {R : FileTree → FileTree → Prop} (kept : Kept R)
    (config : ProcessConfig) : Respects R (mountVolumes config) :=
  .forEach kept.refl kept.trans _ fun vol _ => respects_mountVolume kept _ vol

/-! ## Copying onto itself -/

/-- Below `p` what was a file is an empty one. -/
def Hollows (p : Place) (t t' : FileTree) : Prop :=
  ∀ rel, rel ≠ [] → ∀ c x, t.stat (p ++ rel) = some (.file c x) →
    ∃ x', t'.stat (p ++ rel) = some (.file [] x')

theorem keepsEmpty_copyTree_self {fuel : Nat} {src dst : Spot} (h : src.place = dst.place) :
    Respects KeepsEmpty (copyTree fuel src dst) := by
  refine respects_copyTree KeepsEmpty.refl KeepsEmpty.trans (fun _ => keepsEmpty_createDir _)
    fun rel => ?_
  rw [h]
  exact keepsEmpty_copyFile_self _

theorem grows_copyTree (fuel : Nat) (src dst : Spot) : Respects Grows (copyTree fuel src dst) :=
  respects_copyTree Grows.refl Grows.trans (fun _ => respects_create kept_grows _ _)
    fun _ => respects_copyFile kept_grows _ _

/-- What copying an entry does for the file `n :: rel` of the source. -/
theorem copyEntry_ok {fuel : Nat} {src dst : Spot} {t t' : FileTree} {n : String} {rel : Place}
    {c : Bytes} {x : Bool} (h : copyEntry fuel src dst n t = .ok () t')
    (hfile : t.stat (src.place ++ n :: rel) = some (.file c x)) :
    (rel = [] ∧ copyFile (src.place ++ [n]) (dst.place ++ [n]) t = .ok () t') ∨
      (rel ≠ [] ∧ copyTree fuel (src.entry n) (dst.entry n) t = .ok () t') := by
  unfold copyEntry at h
  rw [run_get_bind] at h
  by_cases hnil : rel = []
  · subst hnil
    rw [hfile, if_neg (by simp), mapError_ok] at h
    exact .inl ⟨rfl, h⟩
  · have hsplit : src.place ++ n :: rel = src.place ++ [n] ++ rel := by simp
    rw [if_pos (t.ancestor_dir (hsplit ▸ hfile) hnil)] at h
    exact .inr ⟨hnil, h⟩

theorem respects_copyEntry {R : FileTree → FileTree → Prop} (refl : ∀ t, R t t)
    (trans : ∀ t t' t'', R t t' → R t' t'' → R t t'') {fuel : Nat} {src dst : Spot} {n : String}
    (tree : Respects R (copyTree fuel (src.entry n) (dst.entry n)))
    (file : Respects R (copyFile (src.place ++ [n]) (dst.place ++ [n]))) :
    Respects R (copyEntry fuel src dst n) :=
  .bind trans (.get refl) fun _ => .ite tree (.mapError file)

/-- A directory copied onto itself keeps no content. -/
theorem hollows_copyTree {fuel : Nat} {src dst : Spot} {t t' : FileTree}
    (hplace : src.place = dst.place) (h : copyTree fuel src dst t = .ok () t') :
    Hollows src.place t t' := by
  induction fuel generalizing src dst t t' with
  | zero => cases h
  | succ fuel ih =>
    rw [copyTree_succ] at h
    obtain ⟨_, t₁, hdir, h⟩ := bind_ok h
    have hgrows : Grows t t₁ :=
      (respects_ensureDir Grows.refl Grows.trans (respects_create kept_grows _ _)).of_ok
        (mapError_ok.1 hdir)
    rw [run_get_bind] at h
    have hentry (n : String) : (src.entry n).place = (dst.entry n).place := by
      simp [Spot.entry, hplace]
    have hkeeps (n : String) : Respects KeepsEmpty (copyEntry fuel src dst n) := by
      refine respects_copyEntry KeepsEmpty.refl KeepsEmpty.trans ?_ ?_
      · exact keepsEmpty_copyTree_self (hentry n)
      · rw [hplace]; exact keepsEmpty_copyFile_self _
    have hgrow (n : String) : Respects Grows (copyEntry fuel src dst n) :=
      respects_copyEntry Grows.refl Grows.trans (grows_copyTree _ _ _)
        (respects_copyFile kept_grows _ _)
    intro rel hrel c x hfile
    obtain ⟨n, rel, rfl⟩ := List.exists_cons_of_ne_nil hrel
    obtain ⟨c₁, x₁, hfile₁⟩ := hgrows.file _ c x hfile
    -- the file is there when the loop comes to it, and what is empty after that stays so
    obtain ⟨u, u', ⟨-, hu⟩, hrun, ⟨hu', -⟩⟩ := forEach_ok_mem
      (R := fun u u' => KeepsEmpty u u' ∧ Grows u u') (fun u => ⟨.refl u, .refl u⟩)
      (fun _ _ _ h h' => ⟨h.1.trans _ _ _ h'.1, h.2.trans _ _ _ h'.2⟩)
      (fun m _ u => ⟨hkeeps m u, hgrow m u⟩) h (mem_children_of_below hfile₁)
    obtain ⟨c₂, x₂, hfile₂⟩ := hu.file _ c₁ x₁ hfile₁
    suffices hempty : ∃ y, u'.stat (src.place ++ n :: rel) = some (.file [] y) by
      obtain ⟨y, hy⟩ := hempty
      exact hu'.empty _ y hy
    rcases copyEntry_ok hrun hfile₂ with ⟨rfl, hcopy⟩ | ⟨hnil, hcopy⟩
    · rw [← hplace] at hcopy
      obtain ⟨u'', hself, hempty, -⟩ := run_copyFile_self hfile₂
      rw [hself] at hcopy
      cases hcopy
      exact ⟨x₂, hempty⟩
    · have hsplit : src.place ++ n :: rel = src.place ++ [n] ++ rel := by simp
      rw [hsplit] at hfile₂ ⊢
      exact ih (hentry n) hcopy rel hnil c₂ x₂ hfile₂

/-! ## How far a copy onto itself comes -/

end Process

namespace FileTree

/-- Nothing at `p` or below it has changed, nor how it is listed. -/
def SameBelow (p : Place) (t t' : FileTree) : Prop :=
  ∀ q, p <+: q → t'.stat q = t.stat q ∧ t'.children q = t.children q

theorem SameBelow.refl (p : Place) (t : FileTree) : SameBelow p t t := fun _ _ => ⟨rfl, rfl⟩

theorem SameBelow.trans (p : Place) (t t' t'' : FileTree) (h : SameBelow p t t')
    (h' : SameBelow p t' t'') : SameBelow p t t'' := by
  intro q hq
  obtain ⟨hstat, hchildren⟩ := h q hq
  obtain ⟨hstat', hchildren'⟩ := h' q hq
  exact ⟨hstat'.trans hstat, hchildren'.trans hchildren⟩

theorem SameBelow.below {p q : Place} {t t' : FileTree} (h : SameBelow p t t') (hq : p <+: q) :
    SameBelow q t t' := fun r hr => h r (hq.trans hr)

theorem sameBelow_create {p q : Place} (h : ¬p <+: q) (node : Node) :
    Respects (SameBelow p) (create q node) := by
  intro t
  rw [final_create]
  split
  · rename_i room
    intro r hr
    refine ⟨?_, children_put room fun heq => h ?_⟩
    · rw [stat_put, if_neg]
      intro heq
      exact h (heq ▸ hr)
    · exact (heq ▸ hr).trans (List.dropLast_prefix q)
  · exact .refl p t

end FileTree

namespace Process

/-- Every directory of the tree can be named, on so many levels. -/
def Nameable : Nat → Spot → FileTree → Prop
  | 0, _, _ => False
  | fuel + 1, s, t =>
    s.path.utf8ByteSize < pathMax ∧ ∀ n ∈ t.children s.place,
      t.stat (s.place ++ [n]) = some .dir → Nameable fuel (s.entry n) t

/-- A copy of the tree onto itself comes to the file at `rel` below it: the directories on the way
can be named, and so can those that are listed before them. -/
def ComesTo : Nat → Spot → Place → FileTree → Prop
  | 0, _, _, _ => False
  | _ + 1, _, [], _ => False
  | fuel + 1, s, n :: rel, t =>
    s.path.utf8ByteSize < pathMax ∧
      (∀ m ∈ (t.children s.place).takeWhile (· ≠ n),
        t.stat (s.place ++ [m]) = some .dir → Nameable fuel (s.entry m) t) ∧
      (rel = [] ∨ ComesTo fuel (s.entry n) rel t)

/-- The file at `q` is emptied if `P` holds, and as it was otherwise. -/
def EmptiedIff (P : Prop) (q : Place) (t t' : FileTree) : Prop :=
  (P ∧ ∃ x, t'.stat q = some (.file [] x)) ∨ (¬P ∧ t'.stat q = t.stat q)

section

variable {fuel : Nat} {s : Spot} {t t' : FileTree}

theorem nameable_congr (h : SameBelow s.place t t') : Nameable fuel s t' ↔ Nameable fuel s t := by
  induction fuel generalizing s with
  | zero => exact Iff.rfl
  | succ fuel ih =>
    rw [Nameable, Nameable, (h s.place List.prefix_rfl).2]
    refine and_congr_right fun _ => forall₂_congr fun n _ => ?_
    rw [(h (s.place ++ [n]) (List.prefix_append _ _)).1]
    exact imp_congr_right fun _ => ih (h.below (List.prefix_append _ _))

theorem comesTo_congr {rel : Place} (h : SameBelow s.place t t') :
    ComesTo fuel s rel t' ↔ ComesTo fuel s rel t := by
  induction fuel generalizing s rel with
  | zero => exact Iff.rfl
  | succ fuel ih =>
    cases rel with
    | nil => exact Iff.rfl
    | cons n rel =>
      rw [ComesTo, ComesTo, (h s.place List.prefix_rfl).2]
      have hbelow (m : String) : SameBelow (s.entry m).place t t' :=
        h.below (List.prefix_append _ _)
      refine and_congr_right fun _ => and_congr (forall₂_congr fun m _ => ?_) ?_
      · rw [(h (s.place ++ [m]) (List.prefix_append _ _)).1]
        exact imp_congr_right fun _ => nameable_congr (hbelow m)
      · exact or_congr_right (ih (hbelow n))

/-- The copy of an entry leaves its neighbours alone. -/
theorem sameBelow_copyEntry {n m : String} (h : m ≠ n) :
    Respects (SameBelow (s.place ++ [n])) (copyEntry fuel s s m) := by
  have hout (rel : Place) : ¬s.place ++ [n] <+: (s.entry m).place ++ rel := by
    intro hpre
    rw [Spot.entry, List.append_assoc, List.prefix_append_right_inj, List.singleton_append,
      List.cons_prefix_cons] at hpre
    exact h hpre.1.symm
  have hfile (rel : Place) : Respects (SameBelow (s.place ++ [n]))
      (copyFile ((s.entry m).place ++ rel) ((s.entry m).place ++ rel)) :=
    respects_copyFile_of (SameBelow.refl _) (SameBelow.trans _) fun node =>
      sameBelow_create (hout rel) node
  refine respects_copyEntry (SameBelow.refl _) (SameBelow.trans _) ?_ ?_
  · exact respects_copyTree (SameBelow.refl _) (SameBelow.trans _)
      (fun rel => sameBelow_create (hout rel) .dir) hfile
  · simpa [Spot.entry] using hfile []

theorem copyEntry_of_dir {src dst : Spot} {n : String}
    (h : t.stat (src.place ++ [n]) = some .dir) :
    copyEntry fuel src dst n t = copyTree fuel (src.entry n) (dst.entry n) t := by
  unfold copyEntry
  rw [run_get_bind, if_pos h]

/-- A file that is copied onto itself is empty, and nothing else has changed. -/
theorem copyEntry_of_file {n : String} {c : Bytes} {x : Bool}
    (h : t.stat (s.place ++ [n]) = some (.file c x)) :
    ∃ t', copyEntry fuel s s n t = .ok () t' ∧ t'.stat (s.place ++ [n]) = some (.file [] x) := by
  obtain ⟨t', hrun, hempty, -⟩ := run_copyFile_self h
  refine ⟨t', ?_, hempty⟩
  unfold copyEntry
  rw [run_get_bind, h, if_neg (by simp), mapError_ok]
  exact hrun

theorem ensureDir_of_dir (hdir : t.stat s.place = some .dir) :
    ensureDir s t = if pathMax ≤ s.path.utf8ByteSize
      then .error "File name too long (os error 36)" t else .ok () t := by
  unfold ensureDir
  by_cases hlong : pathMax ≤ s.path.utf8ByteSize
  · rw [if_pos hlong, if_pos hlong]
    rfl
  · rw [if_neg hlong, if_neg hlong]
    simp [hdir]

/-- A tree copied onto itself: only a path that is too long stops the copy. -/
theorem copyTree_self (hdir : t.stat s.place = some .dir) :
    (pathMax ≤ s.path.utf8ByteSize ∧ ∃ e, copyTree (fuel + 1) s s t = .error e t) ∨
      (s.path.utf8ByteSize < pathMax ∧
        copyTree (fuel + 1) s s t = forEach (t.children s.place) (copyEntry fuel s s) t) := by
  rw [copyTree_succ, run_bind, run_mapError, ensureDir_of_dir hdir]
  by_cases hlong : pathMax ≤ s.path.utf8ByteSize
  · rw [if_pos hlong]
    exact .inl ⟨hlong, _, rfl⟩
  · rw [if_neg hlong]
    exact .inr ⟨Nat.lt_of_not_le hlong, rfl⟩

/-- The copies of some entries succeed exactly if the directories among them can be named. -/
theorem copyEntries_ok_iff {ns : List String} (hnodup : ns.Nodup)
    (hsome : ∀ n ∈ ns, (t.stat (s.place ++ [n])).isSome)
    (htree : ∀ s t, t.stat s.place = some .dir →
      ((∃ t', copyTree fuel s s t = .ok () t') ↔ Nameable fuel s t)) :
    (∃ t', forEach ns (copyEntry fuel s s) t = .ok () t') ↔
      ∀ n ∈ ns, t.stat (s.place ++ [n]) = some .dir → Nameable fuel (s.entry n) t := by
  induction ns generalizing t with
  | nil => exact iff_of_true ⟨t, rfl⟩ fun n hn => nomatch hn
  | cons n ns ih =>
    obtain ⟨hn, hnodup⟩ := List.nodup_cons.1 hnodup
    have hhead : (∃ t', copyEntry fuel s s n t = .ok () t') ↔
        (t.stat (s.place ++ [n]) = some .dir → Nameable fuel (s.entry n) t) := by
      rcases hstat : t.stat (s.place ++ [n]) with _ | _ | ⟨c, x⟩
      · exact absurd (hsome n List.mem_cons_self) (by rw [hstat]; simp)
      · rw [copyEntry_of_dir hstat, htree (s.entry n) t hstat]
        simp
      · obtain ⟨t', hrun, -⟩ := copyEntry_of_file hstat
        exact iff_of_true ⟨t', hrun⟩ nofun
    -- the copy of one entry changes nothing for the others
    have htail {t₁ : FileTree} (hrun : copyEntry fuel s s n t = .ok () t₁) :
        (∃ t', forEach ns (copyEntry fuel s s) t₁ = .ok () t') ↔
          ∀ m ∈ ns, t.stat (s.place ++ [m]) = some .dir → Nameable fuel (s.entry m) t := by
      have hsame : ∀ m ∈ ns, SameBelow (s.place ++ [m]) t t₁ := fun m hm =>
        (sameBelow_copyEntry fun heq : n = m => hn (heq ▸ hm)).of_ok hrun
      have hstat : ∀ m ∈ ns, t₁.stat (s.place ++ [m]) = t.stat (s.place ++ [m]) := fun m hm =>
        (hsame m hm _ List.prefix_rfl).1
      rw [ih hnodup fun m hm => by rw [hstat m hm]; exact hsome m (List.mem_cons_of_mem _ hm)]
      refine forall₂_congr fun m hm => ?_
      rw [hstat m hm]
      exact imp_congr_right fun _ => nameable_congr (hsame m hm)
    rw [List.forall_mem_cons, ← hhead]
    constructor
    · rintro ⟨t', hrun⟩
      obtain ⟨_, t₁, hcopy, hrest⟩ := bind_ok hrun
      exact ⟨⟨t₁, hcopy⟩, (htail hcopy).1 ⟨t', hrest⟩⟩
    · rintro ⟨⟨t₁, hcopy⟩, hrest⟩
      obtain ⟨t', hrun⟩ := (htail hcopy).2 hrest
      refine ⟨t', ?_⟩
      rw [forEach, run_bind, hcopy]
      exact hrun

theorem copyTree_self_ok_iff (hdir : t.stat s.place = some .dir) :
    (∃ t', copyTree fuel s s t = .ok () t') ↔ Nameable fuel s t := by
  induction fuel generalizing s t with
  | zero => exact iff_of_false (fun ⟨_, h⟩ => nomatch h) id
  | succ fuel ih =>
    rw [Nameable, ← copyEntries_ok_iff (t.nodup_children s.place) (fun n hn => mem_children.1 hn)
      fun s t => ih]
    rcases copyTree_self hdir with ⟨hlong, e, hrun⟩ | ⟨hshort, hrun⟩
    · rw [hrun]
      exact iff_of_false (fun ⟨_, h⟩ => nomatch h) fun h => absurd h.1 (Nat.not_lt.2 hlong)
    · rw [hrun, and_iff_right hshort]

/-- A tree copied onto itself: a file of it is emptied exactly if the copy comes to it. -/
theorem copyTree_self_file {rel : Place} {c : Bytes} {x : Bool} (hrel : rel ≠ [])
    (hfile : t.stat (s.place ++ rel) = some (.file c x)) :
    EmptiedIff (ComesTo fuel s rel t) (s.place ++ rel) t (final (copyTree fuel s s) t) := by
  induction fuel generalizing s rel t with
  | zero => exact .inr ⟨id, rfl⟩
  | succ fuel ih =>
    obtain ⟨n, rel, rfl⟩ := List.exists_cons_of_ne_nil hrel
    have hsplit : s.place ++ n :: rel = s.place ++ [n] ++ rel := by simp
    have hunder : s.place ++ [n] <+: s.place ++ n :: rel := hsplit ▸ List.prefix_append _ _
    rw [ComesTo]
    rcases copyTree_self (t.ancestor_dir hfile hrel) with ⟨hlong, e, hrun⟩ | ⟨hshort, hrun⟩
    · rw [final_of_error hrun]
      exact .inr ⟨fun h => absurd h.1 (Nat.not_lt.2 hlong), rfl⟩
    rw [and_iff_right hshort, final, hrun, ← final]
    -- the entries in the order of the copy, with those before `n` and after it
    obtain ⟨front, back, hlist⟩ := List.append_of_mem (mem_children_of_below hfile)
    have hnodup := t.nodup_children s.place
    have hsome : ∀ m ∈ t.children s.place, (t.stat (s.place ++ [m])).isSome := fun m hm =>
      mem_children.1 hm
    rw [hlist] at hnodup hsome ⊢
    obtain ⟨hfront, hback, hapart⟩ := List.nodup_append.1 hnodup
    have hnot : n ∉ front := fun hn => hapart n hn n List.mem_cons_self rfl
    have hbefore : (front ++ n :: back).takeWhile (· ≠ n) = front := by
      rw [List.takeWhile_append_of_pos fun m hm => by
        simpa using fun heq : m = n => hnot (heq ▸ hm)]
      simp
    rw [hbefore, forEach_append]
    have hothers {ms : List String} (hms : n ∉ ms) :
        Respects (SameBelow (s.place ++ [n])) (forEach ms (copyEntry fuel s s)) :=
      .forEach (SameBelow.refl _) (SameBelow.trans _) _ fun m hm =>
        sameBelow_copyEntry fun heq => hms (heq ▸ hm)
    have hpass : (∃ t', forEach front (copyEntry fuel s s) t = .ok () t') ↔ ∀ m ∈ front,
        t.stat (s.place ++ [m]) = some .dir → Nameable fuel (s.entry m) t :=
      copyEntries_ok_iff hfront (fun m hm => hsome m (List.mem_append_left _ hm))
        fun s t => copyTree_self_ok_iff
    rw [← hpass, final_bind]
    cases hfirst : forEach front (copyEntry fuel s s) t with
    | error e t₁ =>
      refine .inr ⟨fun h => ?_, ((hothers hnot).of_error hfirst _ hunder).1⟩
      obtain ⟨⟨t', h⟩, -⟩ := h
      cases h
    | ok _ t₁ =>
      have hsame : SameBelow (s.place ++ [n]) t t₁ := (hothers hnot).of_ok hfirst
      have hfile₁ : t₁.stat (s.place ++ n :: rel) = some (.file c x) := by
        rw [(hsame _ hunder).1, hfile]
      have hrest (t₂ : FileTree) : SameBelow (s.place ++ [n]) t₂
          (final (forEach back (copyEntry fuel s s)) t₂) :=
        hothers (List.nodup_cons.1 hback).1 t₂
      have hafter : SameBelow (s.place ++ [n]) (final (copyEntry fuel s s n) t₁)
          (final (forEach (n :: back) (copyEntry fuel s s)) t₁) :=
        final_after (SameBelow.refl _) fun _ t₂ _ => hrest t₂
      have hpassed : ∃ t', (.ok () t₁ : EStateM.Result String FileTree Unit) = .ok () t' :=
        ⟨t₁, rfl⟩
      rw [and_iff_right hpassed, EmptiedIff, (hafter _ hunder).1]
      by_cases hnil : rel = []
      · subst hnil
        obtain ⟨t₂, hcopy, hempty⟩ : ∃ t₂, copyEntry fuel s s n t₁ = .ok () t₂ ∧
            t₂.stat (s.place ++ [n]) = some (.file [] x) := copyEntry_of_file hfile₁
        rw [final_of_ok hcopy]
        exact .inl ⟨.inl rfl, x, hempty⟩
      · have hdir : t₁.stat (s.place ++ [n]) = some .dir :=
          t₁.ancestor_dir (hsplit ▸ hfile₁) hnil
        rw [or_iff_right hnil, final, copyEntry_of_dir hdir, ← final]
        rw [hsplit] at hfile₁ ⊢
        have hentry := ih (s := s.entry n) hnil hfile₁
        rw [EmptiedIff, comesTo_congr hsame] at hentry
        rw [← (hsame _ (List.prefix_append _ _)).1]
        exact hentry

end

end Process
