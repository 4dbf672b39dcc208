import NylonRun.Lib.FileTree

/-!
# The places a program touches

What `create_dir_all` and `write` add to the history of a tree, told from the tree before:
the directories made are the missing places on the way, up to the first regular file.
-/

open UnixPath Effect

namespace FileTree

/-- The places touched between two states of a tree. -/
def since (t t' : FileTree) : List Place := t'.touched.drop t.touched.length

theorem since_of_append {t t' : FileTree} {l : List Place} (h : t'.touched = t.touched ++ l) :
    since t t' = l := by
  rw [since, h, List.drop_left]

theorem Frame.stat_eq {t t' : FileTree} (h : Frame t t') {p : Place} (hp : p ∉ since t t') :
    t'.stat p = t.stat p := by
  obtain ⟨-, l, hl, hstat⟩ := h
  rw [since_of_append hl] at hp
  exact hstat p hp

@[simp] theorem since_self (t : FileTree) : since t t = [] := List.drop_length

theorem since_trans {t t' t'' : FileTree} (h : Frame t t') (h' : Frame t' t'') :
    since t t'' = since t t' ++ since t' t'' := by
  obtain ⟨-, l, hl, -⟩ := h
  obtain ⟨-, l', hl', -⟩ := h'
  rw [since_of_append hl, since_of_append hl',
    since_of_append (by rw [hl', hl, List.append_assoc])]

/-- All that was touched lies at or below `root`. -/
def Inside (root : Place) (t t' : FileTree) : Prop := ∀ p ∈ since t t', root <+: p

@[simp] theorem inside_self (root : Place) (t : FileTree) : Inside root t t := by simp [Inside]

theorem inside_trans_iff {root : Place} {t t' t'' : FileTree} (h : Frame t t') (h' : Frame t' t'') :
    Inside root t t'' ↔ Inside root t t' ∧ Inside root t' t'' := by
  unfold Inside
  rw [since_trans h h']
  simp only [List.mem_append, or_imp, forall_and]

/-- A program stays inside `root` exactly if its first part does, and the rest after it. -/
theorem inside_bind_iff {α β : Type} {root : Place} {x : Fs α} {f : α → Fs β}
    (hx : Respects Frame x) (hf : ∀ a, Respects Frame (f a)) (t : FileTree) :
    Inside root t (final (x >>= f) t) ↔
      Inside root t (final x t) ∧ ∀ a u, x t = .ok a u → Inside root u (final (f a) u) := by
  rw [final_bind]
  cases hrun : x t with
  | error e u =>
    rw [final_of_error hrun]
    simp
  | ok a u =>
    rw [final_of_ok hrun]
    simp only [EStateM.Result.ok.injEq, and_imp]
    rw [inside_trans_iff (hx.of_ok hrun) (hf a u)]
    refine and_congr_right fun _ => ⟨?_, fun h => h a u rfl rfl⟩
    rintro h _ _ rfl rfl
    exact h

theorem inside_forEach_iff {β : Type} {root : Place} {f : β → Fs Unit}
    {P : β → FileTree → Prop} (hframe : ∀ b, Respects Frame (f b))
    (hf : ∀ b t, Inside root t (final (f b) t) ↔ P b t) (bs : List β) (t : FileTree) :
    Inside root t (final (forEach bs f) t) ↔ Each P f bs t := by
  induction bs generalizing t with
  | nil => simp [forEach, final, Each]
  | cons b bs ih =>
    have hrest (u : Unit) : Respects Frame (forEach bs f) :=
      .forEach Frame.refl Frame.trans _ fun c _ => hframe c
    rw [forEach, inside_bind_iff (hframe b) hrest, hf, Each]
    simp only [ih]
    exact and_congr_right fun _ => ⟨fun h => h (), fun h _ => h⟩

/-- No regular file stands at a place. -/
def Open (t : FileTree) (p : Place) : Bool := (t.stat p).all Node.isDir

theorem open_iff {t : FileTree} {p : Place} :
    t.Open p = true ↔ t.stat p = none ∨ t.stat p = some .dir := by
  unfold Open
  rcases t.stat p with _ | _ | _ <;> simp [Node.isDir]

/-- The places on the way along a path, up to the first regular file. -/
def reached (t : FileTree) : Place → List Component → List Place
  | _, [] => []
  | dir, c :: cs =>
    if t.Open (advance dir c) then advance dir c :: reached t (advance dir c) cs else []

theorem mem_trail_of_reached {t : FileTree} {dir p : Place} {cs : List Component}
    (h : p ∈ t.reached dir cs) : p ∈ trail dir cs := by
  induction cs generalizing dir with
  | nil => exact h
  | cons c cs ih =>
    rw [reached] at h
    split at h
    · rcases List.mem_cons.1 h with rfl | h
      · exact List.mem_cons_self
      · exact List.mem_cons_of_mem _ (ih h)
    · cases h

/-- The way of a path starts at a directory. -/
def Starts (t : FileTree) (dir : Place) (cs : List Component) : Prop :=
  t.stat dir = some .dir ∨ cs.head? = some .root

/-- From a directory only a name can lead to a place that is missing. -/
theorem advance_missing {t : FileTree} {dir : Place} {c : Component} {cs : List Component}
    (hstart : t.Starts dir (c :: cs)) (h : t.stat (advance dir c) = none) :
    ∃ n, advance dir c = dir ++ [n] ∧ t.stat dir = some .dir := by
  cases c with
  | root => cases h
  | cur =>
    rcases hstart with hdir | hroot
    · rw [advance, hdir] at h; cases h
    · cases hroot
  | parent =>
    rcases hstart with hdir | hroot
    · rw [advance, t.dropLast_dir hdir] at h; cases h
    · cases hroot
  | normal n =>
    rcases hstart with hdir | hroot
    · exact ⟨n, rfl, hdir⟩
    · cases hroot

theorem room_of_missing {t : FileTree} {dir : Place} {c : Component} {cs : List Component}
    (hstart : t.Starts dir (c :: cs)) (h : t.stat (advance dir c) = none) (node : Node) :
    t.Room (advance dir c) node := by
  obtain ⟨n, hn, hdir⟩ := advance_missing hstart h
  refine ⟨by rw [hn]; simp, by rw [hn]; simpa using hdir, by rw [h]; rfl⟩

theorem open_put_dir {t : FileTree} {p : Place} (room : t.Room p .dir) (h : t.stat p = none)
    (q : Place) : (t.put p .dir room).Open q = t.Open q := by
  unfold Open
  rw [stat_put]
  split
  · rename_i hq; rw [hq, h]; rfl
  · rfl

theorem reached_put_dir {t : FileTree} {p : Place} (room : t.Room p .dir) (h : t.stat p = none)
    (cs : List Component) (dir : Place) : (t.put p .dir room).reached dir cs = t.reached dir cs := by
  induction cs generalizing dir with
  | nil => rfl
  | cons c cs ih => rw [reached, reached, open_put_dir room h, ih]

/-- One step of `create_dir_all` to a place that is missing. -/
theorem run_mkdirs_missing {t : FileTree} {dir : Place} {c : Component} {cs : List Component}
    (hstart : t.Starts dir (c :: cs)) (h : t.stat (advance dir c) = none) :
    mkdirs (c :: cs) dir t =
      mkdirs cs (advance dir c) (t.put (advance dir c) .dir (room_of_missing hstart h .dir)) := by
  rw [run_mkdirs_cons, h]
  simp only [run_bind, create, dif_pos (room_of_missing hstart h .dir)]

/-- `create_dir_all` makes the missing places on its way, up to the first regular file. -/
theorem mem_since_mkdirs {t : FileTree} {cs : List Component} {dir : Place}
    (hstart : t.Starts dir cs) (p : Place) :
    p ∈ since t (final (mkdirs cs dir) t) ↔ p ∈ t.reached dir cs ∧ t.stat p = none := by
  induction cs generalizing dir t with
  | nil => simp [mkdirs, final, reached]
  | cons c cs ih =>
    cases hc : t.stat (advance dir c) with
    | none =>
      have hopen : t.Open (advance dir c) = true := open_iff.2 (.inl hc)
      have room := room_of_missing hstart hc .dir
      have hrun : final (mkdirs (c :: cs) dir) t =
          final (mkdirs cs (advance dir c)) (t.put (advance dir c) .dir room) := by
        unfold final; rw [run_mkdirs_missing hstart hc]
      have hput : (t.put (advance dir c) .dir room).stat (advance dir c) = some .dir := by simp
      have hsince : since t (t.put (advance dir c) .dir room) = [advance dir c] :=
        since_of_append rfl
      rw [hrun, since_trans (frame_put room) (respects_mkdirs kept_frame cs _ _), List.mem_append,
        ih (.inl hput), hsince, reached_put_dir room hc, reached, if_pos hopen, stat_put]
      simp only [List.mem_cons, List.not_mem_nil, or_false]
      by_cases hp : p = advance dir c
      · subst hp; simp [hc]
      · simp [hp]
    | some node =>
      cases node with
      | dir =>
        have hopen : t.Open (advance dir c) = true := open_iff.2 (.inr hc)
        have hrun : final (mkdirs (c :: cs) dir) t = final (mkdirs cs (advance dir c)) t := by
          unfold final; rw [run_mkdirs_cons, hc]
        rw [hrun, ih (.inl hc), reached, if_pos hopen, List.mem_cons]
        constructor
        · rintro ⟨hp, hnone⟩; exact ⟨.inr hp, hnone⟩
        · rintro ⟨rfl | hp, hnone⟩
          · rw [hc] at hnone; cases hnone
          · exact ⟨hp, hnone⟩
      | file content x =>
        have hopen : ¬t.Open (advance dir c) = true := by simp [open_iff, hc]
        have hrun : final (mkdirs (c :: cs) dir) t = t := by
          unfold final; rw [run_mkdirs_cons, hc]
        rw [hrun, reached, if_neg hopen]
        simp

/-- `create_dir_all` succeeds unless a regular file stands in the way. -/
theorem mkdirs_isOk_iff {t : FileTree} {cs : List Component} {dir : Place}
    (hstart : t.Starts dir cs) :
    (∃ t', mkdirs cs dir t = .ok (lexical dir cs) t') ↔ ∀ p ∈ trail dir cs, t.Open p = true := by
  induction cs generalizing dir t with
  | nil => simp [mkdirs, trail]
  | cons c cs ih =>
    cases hc : t.stat (advance dir c) with
    | none =>
      have room := room_of_missing hstart hc .dir
      have hput : (t.put (advance dir c) .dir room).stat (advance dir c) = some .dir := by simp
      rw [run_mkdirs_missing hstart hc, trail, List.forall_mem_cons, lexical_cons, ih (.inl hput)]
      simp only [open_put_dir room hc, open_iff.2 (.inl hc), true_and]
    | some node =>
      cases node with
      | dir =>
        rw [run_mkdirs_cons, hc, trail, List.forall_mem_cons, lexical_cons]
        simp [ih (.inl hc), open_iff, hc]
      | file content x =>
        rw [run_mkdirs_cons, hc, trail, List.forall_mem_cons]
        simp [open_iff, hc]

/-- The directories that `create_dir_all` makes lie inside `root`. -/
def DirsInside (root : Place) (t : FileTree) (dir : Place) (cs : List Component) : Prop :=
  ∀ p ∈ t.reached dir cs, t.stat p = none → root <+: p

/-- Names lead on from where the way has come to. -/
theorem prefix_of_mem_trail {dir p : Place} {cs : List Component} (h : .parent ∉ cs)
    (hroot : .root ∉ cs) (hp : p ∈ trail dir cs) : dir <+: p := by
  induction cs generalizing dir with
  | nil => cases hp
  | cons c cs ih =>
    rw [List.mem_cons, not_or] at h hroot
    have hstep : dir <+: advance dir c := by
      cases c with
      | root => exact absurd rfl hroot.1
      | cur => exact List.prefix_rfl
      | parent => exact absurd rfl h.1
      | normal n => exact List.prefix_append dir [n]
    rcases List.mem_cons.1 hp with rfl | hp
    · exact hstep
    · exact hstep.trans (ih h.2 hroot.2 hp)

theorem inside_mkdirs_iff {root : Place} {t : FileTree} {cs : List Component} {dir : Place}
    (hstart : t.Starts dir cs) :
    Inside root t (final (mkdirs cs dir) t) ↔ DirsInside root t dir cs := by
  unfold Inside DirsInside
  simp only [mem_since_mkdirs hstart, and_imp]

theorem inside_createDirAll_iff {root : Place} {t : FileTree} {cs : List Component}
    (h : cs = [] ∨ cs.head? = some .root) :
    Inside root t (final (createDirAll cs) t) ↔ DirsInside root t t.cwd cs := by
  have hrun : final (createDirAll cs) t = final (mkdirs cs t.cwd) t := rfl
  rw [hrun]
  rcases h with rfl | h
  · simp [mkdirs, final, DirsInside, reached]
  · exact inside_mkdirs_iff (.inr h)

/-- A file may be written at a place: something other than a directory, in a directory. -/
def Writable (t : FileTree) (p : Place) : Prop := t.Room p (.file [] false)

theorem final_create (p : Place) (node : Node) (t : FileTree) :
    final (create p node) t = if h : t.Room p node then t.put p node h else t := by
  by_cases h : t.Room p node <;> simp [final, create, h]

theorem inside_create_iff {root : Place} {t : FileTree} {p : Place} {content : Bytes} {x : Bool} :
    Inside root t (final (create p (.file content x)) t) ↔ (t.Writable p → root <+: p) := by
  have hroom : t.Room p (.file content x) ↔ t.Writable p := Iff.rfl
  rw [final_create, ← hroom]
  split
  · rename_i h
    have hsince : since t (t.put p (.file content x) h) = [p] := since_of_append rfl
    simp [Inside, hsince, h]
  · rename_i h
    simp [h]

theorem inside_write_iff {root : Place} {t : FileTree} {path : String} {content : Bytes} :
    Inside root t (final (write path content) t) ↔
      ∀ q, t.resolve path = some q → t.Writable q → root <+: q := by
  unfold write
  rw [final_get_bind]
  cases hr : t.resolve path with
  | none => simp [final]
  | some q =>
    simp only [Option.some.injEq, forall_eq']
    unfold writeAt
    rw [final_get_bind]
    split <;> exact inside_create_iff

/-- What `copy` does with a place it has found: a file is written, if there is one to copy. -/
def CopyFileInside (root src dst : Place) (t : FileTree) : Prop :=
  ∀ c x, t.stat src = some (.file c x) → t.Writable dst → root <+: dst

theorem inside_copyFile_iff {root src dst : Place} {t : FileTree} :
    Inside root t (final (copyFile src dst) t) ↔ CopyFileInside root src dst t := by
  unfold copyFile CopyFileInside
  rw [final_get_bind]
  rcases t.stat src with _ | _ | ⟨c, x⟩
  · simp [final]
  · simp [final]
  · refine (inside_bind_iff (respects_create kept_frame _ _) (fun u => ?_) t).trans ?_
    · refine .bind Frame.trans (.get Frame.refl) fun t => ?_
      split
      · exact respects_create kept_frame _ _
      · exact .throw Frame.refl _
    rw [inside_create_iff]
    refine ⟨fun h c' x' _ => h.1, fun h => ⟨h c x rfl, fun _ u hrun => ?_⟩⟩
    -- what is copied goes to the place that was truncated
    obtain ⟨room, -⟩ := create_ok hrun
    rw [final_get_bind]
    rcases u.stat src with _ | _ | ⟨c', x'⟩
    · exact inside_self root u
    · exact inside_self root u
    · exact inside_create_iff.2 fun _ => h c x rfl room

/-- At the end of a way of directories a file may be written, unless one stands there. -/
theorem writable_iff {t : FileTree} {dir : Place} {cs : List Component} {c : Component}
    (hdir : t.stat (lexical dir cs) = some .dir) :
    t.Writable (lexical dir (cs ++ [c])) ↔ t.stat (lexical dir (cs ++ [c])) ≠ some .dir := by
  rw [lexical_append]
  constructor
  · rintro ⟨-, -, hkind⟩ h
    rw [h] at hkind
    cases hkind
  · intro h
    have hname : ∃ n, c = .normal n := by
      cases c with
      | root => exact absurd rfl h
      | cur => exact absurd hdir h
      | parent => exact absurd (t.dropLast_dir hdir) h
      | normal n => exact ⟨n, rfl⟩
    obtain ⟨n, rfl⟩ := hname
    refine ⟨by simp [advance], by simpa [advance] using hdir, ?_⟩
    rcases hs : t.stat (lexical (lexical dir cs) [.normal n]) with _ | _ | _
    · rfl
    · exact absurd hs h
    · rfl

/-! ### Removals -/

/-- `p` lies strictly below `root`. -/
def Below (root p : Place) : Prop := root <+: p ∧ p ≠ root

instance (root p : Place) : Decidable (Below root p) := inferInstanceAs (Decidable (_ ∧ _))

theorem Below.of_prefix {root p q : Place} (h : Below root p) (hq : p <+: q) : Below root q := by
  refine ⟨h.1.trans hq, ?_⟩
  rintro rfl
  exact h.2 (hq.eq_of_length_le h.1.length_le)

/-- All that was touched lies strictly below `root`. -/
def AllBelow (root : Place) (t t' : FileTree) : Prop := ∀ p ∈ since t t', Below root p

instance (root : Place) (t t' : FileTree) : Decidable (AllBelow root t t') :=
  inferInstanceAs (Decidable (∀ p ∈ since t t', _))

@[simp] theorem allBelow_self (root : Place) (t : FileTree) : AllBelow root t t := by
  simp [AllBelow]

theorem allBelow_trans_iff {root : Place} {t t' t'' : FileTree} (h : Frame t t')
    (h' : Frame t' t'') : AllBelow root t t'' ↔ AllBelow root t t' ∧ AllBelow root t' t'' := by
  unfold AllBelow
  rw [since_trans h h']
  simp only [List.mem_append, or_imp, forall_and]

/-- What stands at `root` itself stays. -/
theorem AllBelow.stat_eq {root : Place} {t t' : FileTree} (h : AllBelow root t t')
    (hframe : Frame t t') : t'.stat root = t.stat root :=
  hframe.stat_eq fun hmem => (h root hmem).2 rfl

theorem frame_prune (t : FileTree) (p : Place) : Frame t (t.prune p) := by
  refine ⟨rfl, _, rfl, fun q hq => ?_⟩
  rw [List.mem_cons, List.mem_filter, not_or, not_and'] at hq
  by_cases hroot : q = []
  · subst hroot; rfl
  rw [stat_prune t p hroot]
  split
  · rename_i hpre
    have hkey := hq.2 (List.isPrefixOf_iff_prefix.2 hpre)
    rw [stat_of_ne t hroot]
    exact (AList.lookup_eq_none.2 fun hmem => hkey (AList.mem_keys.1 hmem)).symm
  · rfl

/-- A removal of what stands at `q`, and of nothing but it, is one below `root` exactly if `q`
lies there. -/
theorem allBelow_prune_iff {root q : Place} {t t' : FileTree} (hframe : Frame (t.prune q) t')
    (hsame : ∀ p ∈ since (t.prune q) t', p = q) : AllBelow root t t' ↔ Below root q := by
  have hsince : since t (t.prune q) = q :: t.nodes.keys.filter (q.isPrefixOf ·) :=
    since_of_append rfl
  unfold AllBelow
  rw [since_trans (frame_prune t q) hframe, hsince]
  constructor
  · intro h
    exact h q (by simp)
  · intro h p hp
    rcases List.mem_append.1 hp with hp | hp
    · rcases List.mem_cons.1 hp with rfl | hp
      · exact h
      · exact h.of_prefix (List.isPrefixOf_iff_prefix.1 (List.mem_filter.1 hp).2)
    · rw [hsame p hp]
      exact h

theorem walk_prune {t : FileTree} {p q : Place} {cs : List Component} {dir : Place}
    (h : (t.prune p).walk cs dir = some q) : t.walk cs dir = some q := by
  induction cs generalizing dir with
  | nil => exact h
  | cons c cs ih =>
    rw [walk] at h ⊢
    split at h
    · rename_i hway
      rw [if_pos, ih h]
      refine hway.imp_right fun hdir => ?_
      by_cases hroot : dir = []
      · subst hroot; rfl
      · rw [stat_prune t p hroot] at hdir
        split at hdir
        · cases hdir
        · exact hdir
    · cases h

theorem locate_eq_some {t : FileTree} {cs : List Component} {last : String} {q : Place}
    {node : Node} (h : t.locate cs last = some (q, node)) :
    t.walk cs t.cwd = some q ∧ t.stat q = some node := by
  obtain ⟨q', hwalk, h⟩ := Option.bind_eq_some_iff.1 h
  obtain ⟨node', hnode, h⟩ := Option.map_eq_some_iff.1 h
  cases h
  exact ⟨hwalk, (Option.filter_eq_some_iff.1 hnode).1⟩

/-- What has been removed is not found again. -/
theorem locate_prune_file {t : FileTree} {cs : List Component} {last : String} {q : Place}
    {content : Bytes} {x : Bool} (h : t.locate cs last = some (q, .file content x)) :
    (t.prune q).locate cs last = none := by
  obtain ⟨hwalk, hstat⟩ := locate_eq_some h
  rw [Option.eq_none_iff_forall_ne_some]
  rintro ⟨q', node⟩ h'
  obtain ⟨hwalk', hstat'⟩ := locate_eq_some h'
  have hq : q' = q := by
    have := (walk_prune hwalk').symm.trans hwalk
    exact Option.some.inj this
  subst hq
  have hroot : q' ≠ [] := by
    rintro rfl
    cases hstat
  rw [stat_prune t q' hroot, if_pos List.prefix_rfl] at hstat'
  cases hstat'

end FileTree
