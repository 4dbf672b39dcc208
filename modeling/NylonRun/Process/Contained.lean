import NylonRun.Process.Copying

/-!
# Where volumes are mounted

Volumes are copied "into the process working directory" (src/process.rs:172-213). What stands
after the first colon of an entry is joined to that directory without its leading slashes; a
`..` in it is kept, and the directories, the files and the trees that are copied follow it.
-/

open UnixPath FileTree Effect

namespace Process

/-- The place of the working directory. -/
def workPlace (config : ProcessConfig) : Place := lexical [] (components (workDir config))

/-- The directory made for `s`, if one is missing there, lies inside `root`. -/
def EnsureInside (root : Place) (s : Spot) (t : FileTree) : Prop :=
  s.path.utf8ByteSize < pathMax → t.stat s.place = none → t.Room s.place .dir → root <+: s.place

/-- Every directory made and every file written by `copyTree` lies inside `root`, each on the
disk that the copy finds when it comes to it. -/
def CopyInside (root : Place) : Nat → Spot → Spot → FileTree → Prop
  | 0, _, _, _ => True
  | fuel + 1, src, dst, t =>
    EnsureInside root dst t ∧ ∀ u, ensureDir dst t = .ok () u →
      Each (fun n v =>
          if v.stat (src.place ++ [n]) = some .dir then
            CopyInside root fuel (src.entry n) (dst.entry n) v
          else CopyFileInside root (src.place ++ [n]) (dst.place ++ [n]) v)
        (copyEntry fuel src dst) (u.children src.place) u

/-- The same of `copyDirRecursive`. -/
def CopyDirInside (root : Place) (src dst : String) (t : FileTree) : Prop :=
  DirsInside root t t.cwd (components dst) ∧
    ∀ d u, createDirAll (components dst) t = .ok d u →
      ∀ p, u.find src = some (p, .dir) → CopyInside root pathMax ⟨src, p⟩ ⟨dst, d⟩ u

/-- The same of one volume entry; a malformed one, or one without a source, writes nothing. -/
def VolumeInside (root : Place) (workDir vol : String) (t : FileTree) : Prop :=
  ∀ hostPath inside, Text.splitOnce ':' vol = some (hostPath, inside) →
    t.pathExists hostPath = true →
      let containerPath := join workDir (Text.trimStart (· == '/') inside)
      let dir := (parent containerPath).getD []
      DirsInside root t t.cwd dir ∧ ∀ d u, createDirAll dir t = .ok d u →
        if u.isDir hostPath then CopyDirInside root hostPath containerPath u
        else ∀ q, u.resolve containerPath = some q → u.Writable q → root <+: q

theorem isAbsolute_workDir (config : ProcessConfig) : isAbsolute (workDir config) = true := by
  unfold workDir appDir
  split
  · exact isAbsolute_append _ (by decide)
  · exact isAbsolute_append _ (by decide)

section

variable {root : Place} {t : FileTree}

theorem inside_ensureDir_iff {s : Spot} :
    Inside root t (final (ensureDir s) t) ↔ EnsureInside root s t := by
  unfold ensureDir EnsureInside
  by_cases hlong : pathMax ≤ s.path.utf8ByteSize
  · have hshort : ¬s.path.utf8ByteSize < pathMax := Nat.not_lt.2 hlong
    rw [if_pos hlong, final_bind, run_throw]
    simp [hshort]
  · rw [if_neg hlong, final_get_bind]
    rcases hs : t.stat s.place with _ | _ | ⟨c, x⟩
    · rw [final_create]
      split
      · rename_i room
        have hsince : since t (t.put s.place .dir room) = [s.place] := since_of_append rfl
        simp [Inside, hsince, room, Nat.lt_of_not_le hlong]
      · rename_i room
        simp [room]
    · simp [final]
    · simp [final]

theorem frame_ensureDir (s : Spot) : Respects Frame (ensureDir s) :=
  respects_ensureDir Frame.refl Frame.trans (respects_create kept_frame s.place .dir)

theorem frame_copyTree (fuel : Nat) (src dst : Spot) : Respects Frame (copyTree fuel src dst) :=
  respects_copyTree Frame.refl Frame.trans (fun _ => respects_create kept_frame _ _)
    fun _ => respects_copyFile kept_frame _ _

theorem frame_copyEntry (fuel : Nat) (src dst : Spot) (n : String) :
    Respects Frame (copyEntry fuel src dst n) :=
  respects_copyEntry Frame.refl Frame.trans (frame_copyTree _ _ _)
    (respects_copyFile kept_frame _ _)

theorem inside_copyTree_iff {fuel : Nat} {src dst : Spot} :
    Inside root t (final (copyTree fuel src dst) t) ↔ CopyInside root fuel src dst t := by
  induction fuel generalizing src dst t with
  | zero => simp [copyTree, final, CopyInside]
  | succ fuel ih =>
    have hentry (n : String) (v : FileTree) :
        Inside root v (final (copyEntry fuel src dst n) v) ↔
          if v.stat (src.place ++ [n]) = some .dir then
            CopyInside root fuel (src.entry n) (dst.entry n) v
          else CopyFileInside root (src.place ++ [n]) (dst.place ++ [n]) v := by
      unfold copyEntry
      rw [final_get_bind]
      split
      · exact ih
      · rw [final_mapError, inside_copyFile_iff]
    have hloop (u : Unit) : Respects Frame (do
        forEach ((← get).children src.place) (copyEntry fuel src dst)) :=
      .bind Frame.trans (.get Frame.refl) fun v =>
        .forEach Frame.refl Frame.trans _ fun n _ => frame_copyEntry fuel src dst n
    rw [copyTree_succ, inside_bind_iff (.mapError (frame_ensureDir dst)) hloop, final_mapError,
      inside_ensureDir_iff, CopyInside]
    simp only [final_get_bind, mapError_ok,
      inside_forEach_iff (frame_copyEntry fuel src dst) hentry]
    exact and_congr_right fun _ => ⟨fun h => h (), fun h _ => h⟩

theorem inside_copyDirRecursive_iff {src dst : String} (h : isAbsolute dst = true) :
    Inside root t (final (copyDirRecursive src dst) t) ↔ CopyDirInside root src dst t := by
  unfold copyDirRecursive
  refine (inside_bind_iff (.mapError (respects_createDirAll kept_frame _)) (fun d => ?_) t).trans ?_
  · refine .bind Frame.trans (.get Frame.refl) fun u => ?_
    split
    · exact frame_copyTree _ _ _
    · exact .throw Frame.refl _
    · exact .throw Frame.refl _
  rw [final_mapError, inside_createDirAll_iff (.inr (head?_components h))]
  refine and_congr_right fun _ => forall_congr' fun d => forall_congr' fun u => ?_
  rw [mapError_ok, final_get_bind]
  refine imp_congr_right fun _ => ?_
  rcases u.find src with _ | ⟨p, _ | ⟨c, x⟩⟩
  · simp [final]
  · simp [inside_copyTree_iff]
  · simp [final]

/-- A file that exists is copied to where its path leads, if it leads to a place for a file. -/
theorem inside_copy_iff {src dst : String} (hsrc : t.pathExists src = true)
    (hfile : ¬t.isDir src = true) :
    Inside root t (final (copy src dst) t) ↔
      ∀ q, t.resolve dst = some q → t.Writable q → root <+: q := by
  obtain ⟨⟨p, node⟩, hfind⟩ := pathExists_iff.1 hsrc
  obtain ⟨c, x, hnode⟩ : ∃ c x, node = .file c x := by
    cases node with
    | dir => exact absurd (isDir_iff.2 ⟨p, hfind⟩) hfile
    | file c x => exact ⟨c, x, rfl⟩
  have hstat : t.stat p = some (.file c x) := hnode ▸ (find_eq_some.1 hfind).2.2.2
  unfold copy
  rw [final_get_bind, hfind]
  cases hdst : t.resolve dst with
  | none => simp [final]
  | some q =>
    simp only [Option.some.injEq, forall_eq']
    rw [inside_copyFile_iff]
    exact ⟨fun h => h c x hstat, fun h _ _ _ => h⟩

/-- The copy that ends a mount (src/process.rs:202-209). -/
theorem inside_mount_iff {hostPath containerPath : String} {f : String → String}
    (hsrc : t.pathExists hostPath = true) (habs : isAbsolute containerPath = true) :
    Inside root t (final (do
        if (← get).isDir hostPath then copyDirRecursive hostPath containerPath
        else mapError f (copy hostPath containerPath)) t) ↔
      if t.isDir hostPath then CopyDirInside root hostPath containerPath t
      else ∀ q, t.resolve containerPath = some q → t.Writable q → root <+: q := by
  rw [final_get_bind]
  split
  · exact inside_copyDirRecursive_iff habs
  · rename_i hfile
    rw [final_mapError, inside_copy_iff hsrc hfile]

theorem inside_mountVolume_iff {workDir vol : String} (h : isAbsolute workDir = true) :
    Inside root t (final (mountVolume workDir vol) t) ↔ VolumeInside root workDir vol t := by
  unfold mountVolume VolumeInside
  cases hvol : Text.splitOnce ':' vol with
  | none => simp [final]
  | some parts =>
    obtain ⟨hostPath, inside⟩ := parts
    simp only [Option.some.injEq, Prod.mk.injEq, and_imp, forall_apply_eq_imp_iff, forall_eq']
    rw [final_get_bind]
    by_cases hsrc : t.pathExists hostPath = true
    · have habs := isAbsolute_join (Text.trimStart (· == '/') inside) h
      rw [if_neg (not_not_intro hsrc)]
      refine (inside_bind_iff (.mapError (respects_createDirAll kept_frame _)) ?_ t).trans ?_
      · intro _
        refine .bind Frame.trans (.get Frame.refl) fun u => .ite ?_ (.mapError ?_)
        · exact respects_copyDirRecursive kept_frame _ _
        · exact respects_copy kept_frame _ _
      · rw [final_mapError, inside_createDirAll_iff (parent_rooted habs), forall_prop_of_true hsrc]
        refine and_congr_right fun _ => forall_congr' fun d => forall_congr' fun u => ?_
        rw [mapError_ok]
        refine imp_congr_right fun hmk => inside_mount_iff ?_ habs
        -- the source is still there when its directories have been made
        obtain ⟨⟨p, node⟩, hfind⟩ := pathExists_iff.1 hsrc
        have hgrows := (respects_createDirAll kept_grows _).of_ok hmk
        obtain ⟨node', hfound, -⟩ := hgrows.find hfind
        exact pathExists_iff.2 ⟨_, hfound⟩
    · rw [if_pos hsrc]
      simp [final, hsrc]

end

/-- Mounting the volumes touches only what is inside the working directory exactly if each
entry that the loop comes to is copied inside it, on the disk that it finds. -/
theorem mountVolumes_inside_iff (config : ProcessConfig) (t : FileTree) :
    Inside (workPlace config) t (final (mountVolumes config) t) ↔
      Each (VolumeInside (workPlace config) (workDir config)) (mountVolume (workDir config))
        config.volumes t := by
  refine inside_forEach_iff (respects_mountVolume kept_frame _) (fun vol u => ?_) _ t
  exact inside_mountVolume_iff (isAbsolute_workDir config)

/-- A disk with the directory of the app `web`, and a file. -/
def volumeDisk : FileTree :=
  final (do
    let _ ← createDirAll (components "/var/run/nyrun/apps/web")
    write "/data.txt" [1]) .empty

/-- The app `web` with a volume whose container path goes up. -/
def upConfig : ProcessConfig :=
  { ProcessConfig.plain "web" "server" with volumes := ["/data.txt:/../evil"] }

/-- The volume is mounted beside the working directory. -/
theorem mountVolumes_writes_outside :
    result (mountVolumes upConfig) volumeDisk = .ok () ∧
      since volumeDisk (final (mountVolumes upConfig) volumeDisk) =
        [["var", "run", "nyrun", "apps", "evil"], ["var", "run", "nyrun", "apps", "evil"]] ∧
      ¬Inside (workPlace upConfig) volumeDisk (final (mountVolumes upConfig) volumeDisk) := by
  have hrun : result (mountVolumes upConfig) volumeDisk = .ok () ∧
      since volumeDisk (final (mountVolumes upConfig) volumeDisk) =
        [["var", "run", "nyrun", "apps", "evil"], ["var", "run", "nyrun", "apps", "evil"]] ∧
      workPlace upConfig = ["var", "run", "nyrun", "apps", "web"] := by decide +kernel
  obtain ⟨hok, htouched, hplace⟩ := hrun
  refine ⟨hok, htouched, fun h => ?_⟩
  have hinside := h ["var", "run", "nyrun", "apps", "evil"] (by rw [htouched]; simp)
  rw [hplace] at hinside
  exact absurd hinside (by decide)

/-! ## Entries without `..` -/

theorem copyInside_of_dst {root : Place} {fuel : Nat} {src dst : Spot} (h : root <+: dst.place)
    (t : FileTree) : CopyInside root fuel src dst t := by
  induction fuel generalizing src dst t with
  | zero => trivial
  | succ fuel ih =>
    have hentry (n : String) : root <+: dst.place ++ [n] := h.trans (List.prefix_append _ _)
    refine ⟨fun _ _ _ => h, fun u _ => ?_⟩
    refine each_of_forall (I := fun _ => True) trivial (fun _ _ _ _ _ _ => trivial) fun n _ v _ => ?_
    split
    · exact ih (hentry n) v
    · exact fun _ _ _ _ => hentry n

theorem isAbsolute_trimStart (s : String) :
    isAbsolute (Text.trimStart (· == '/') s) = false := by
  unfold isAbsolute Text.trimStart
  rw [String.toList_ofList]
  cases h : s.toList.dropWhile (· == '/') with
  | nil => rfl
  | cons c cs =>
    have hc := List.head_dropWhile_not (· == '/') (by rw [h]; simp)
    simpa [h] using hc

/-- All directories on the way to a path below the working directory lie inside it, once that
directory is there. -/
theorem dirsInside_of_names {t : FileTree} {base cs ds : List Component}
    (hbase : base.head? = some .root) (hdirs : ∀ p ∈ trail t.cwd base, t.stat p = some .dir)
    (hparent : .parent ∉ cs) (hroot : .root ∉ cs) (h : ds <+: base ++ cs) :
    DirsInside (lexical [] base) t t.cwd ds := by
  intro p hp hnone
  obtain ⟨rest, hrest⟩ := h
  have hmem : p ∈ trail t.cwd (base ++ cs) := by
    rw [← hrest, trail_append]
    exact List.mem_append_left _ (mem_trail_of_reached hp)
  rw [trail_append] at hmem
  rcases List.mem_append.1 hmem with hmem | hmem
  · rw [hdirs p hmem] at hnone
    cases hnone
  · rw [lexical_of_root hbase] at hmem
    exact prefix_of_mem_trail hparent hroot hmem

theorem prefix_lexical {base cs : List Component} (hbase : base.head? = some .root)
    (hparent : .parent ∉ cs) (hroot : .root ∉ cs) (dir : Place) :
    lexical [] base <+: lexical dir (base ++ cs) := by
  rw [lexical_append, lexical_of_root hbase dir]
  by_cases hcs : cs = []
  · rw [hcs]
    exact List.prefix_rfl
  · exact prefix_of_mem_trail hparent hroot (lexical_mem_trail hcs)

/-- Where the working directory exists, entries that do not go up stay inside it. -/
theorem mountVolumes_inside {config : ProcessConfig} {t : FileTree}
    (hdirs : ∀ p ∈ trail t.cwd (components (workDir config)), t.stat p = some .dir)
    (hnames : ∀ vol ∈ config.volumes, ∀ hostPath inside,
      Text.splitOnce ':' vol = some (hostPath, inside) →
        .parent ∉ names (Text.trimStart (· == '/') inside)) :
    Inside (workPlace config) t (final (mountVolumes config) t) := by
  have hwork := isAbsolute_workDir config
  have hhead := head?_components hwork
  rw [mountVolumes_inside_iff]
  refine each_of_forall (I := Grows t) (.refl t) ?_ ?_
  · intro vol _ u u' hu hrun
    exact hu.trans _ _ _ ((respects_mountVolume kept_grows _ vol).of_ok hrun)
  intro vol hvol u hu hostPath inside hsplit _ containerPath dir
  have hcs : components containerPath = _ := components_join hwork (isAbsolute_trimStart inside)
  have hprefix : dir <+: components containerPath := parent_prefix containerPath
  clear_value containerPath dir
  have hnames := hnames vol hvol hostPath inside hsplit
  have hdir (v : FileTree) (hv : Grows t v) {ds : List Component}
      (hds : ds <+: components containerPath) : DirsInside (workPlace config) v v.cwd ds := by
    rw [hcs] at hds
    refine dirsInside_of_names hhead (fun p hp => ?_) hnames (root_notMem_names _) hds
    rw [hv.cwd] at hp
    exact hv.dir p (hdirs p hp)
  have hplace (d : Place) : workPlace config <+: lexical d (components containerPath) := by
    rw [hcs]
    exact prefix_lexical hhead hnames (root_notMem_names _) d
  refine ⟨hdir u hu hprefix, fun d v hmk => ?_⟩
  have hv : Grows t v := hu.trans _ _ _ ((respects_createDirAll kept_grows _).of_ok hmk)
  split
  · refine ⟨hdir v hv List.prefix_rfl, fun d w hmk p _ => copyInside_of_dst ?_ w⟩
    rw [run_createDirAll] at hmk
    rw [(mkdirs_ok hmk).1]
    exact hplace v.cwd
  · intro q hres _
    rw [walk_lexical (resolve_eq_some.1 hres).2.1]
    exact hplace v.cwd

end Process
