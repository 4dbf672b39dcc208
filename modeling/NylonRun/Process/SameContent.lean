import NylonRun.Lib.Touched
import NylonRun.Process.Copying
import NylonRun.Process.Relaunch

/-!
# The files of a local app over its launches

A launch copies a local app to its own directory and stores the path of the copy, so that the
next launch copies the files onto themselves. `std::fs::copy` truncates its destination before
it reads the source.
-/

open UnixPath FileTree Effect

namespace Process

/-- Whatever comes of the launch of a local app, after the copy it only adds to the disk. -/
theorem startProcess_after_copy {R : FileTree → FileTree → Prop} (kept : Kept R) (os : LaunchOs)
    {config : ProcessConfig} (hoci : config.isOci = false) (t : FileTree) :
    R (final (copyToAppDir config) t) (final (startProcess os config) t) := by
  refine final_after kept.refl fun c t₁ hcopy => ?_
  have hlocal : c.isOci = false := by
    rw [copyToAppDir_ok hcopy]
    exact hoci
  have himage : prepareImage os c = pure c := by
    unfold prepareImage
    rw [if_pos (by simp [hlocal])]
  rw [himage, pure_bind]
  exact Respects.bind kept.trans (respects_mountVolumes kept c)
    (fun _ => .demand kept.refl id (spawnChild os c)) t₁

/-! ## The copy of an app onto itself -/

theorem isAbsolute_appDir (name : String) : isAbsolute (appDir name) = true :=
  isAbsolute_append name (by decide)

theorem copy_self {path : String} {t : FileTree} {q : Place} {content : Bytes} {x : Bool}
    (found : t.find path = some (q, .file content x)) :
    ∃ t', copy path path t = .ok () t' ∧ t'.stat q = some (.file [] x) := by
  obtain ⟨hne, hwalk, hnames, hstat⟩ := find_eq_some.1 found
  obtain ⟨t', hrun, hempty, -⟩ := run_copyFile_self hstat
  exact ⟨t', by rw [run_copy found (resolve_eq_some.2 ⟨hne, hwalk, hnames⟩), hrun], hempty⟩

/-- The path of a local app is that of its own copy, and the file `q` belongs to it. -/
inductive SelfCopied (config : ProcessConfig) (t : FileTree) (q : Place) : Prop where
  | tree (dir rel : Place) (path : config.path = appDir config.name)
      (found : t.find config.path = some (dir, .dir)) (below : rel ≠ []) (place : q = dir ++ rel)
  | file (name : String) (content : Bytes) (x : Bool)
      (path : config.path = join (appDir config.name) name)
      (named : fileName config.path = some name)
      (found : t.find config.path = some (q, .file content x))

theorem SelfCopied.grows {config : ProcessConfig} {t t' : FileTree} {q : Place}
    (h : SelfCopied config t q) (hgrows : Grows t t') : SelfCopied config t' q := by
  cases h with
  | tree dir rel path found below place =>
    obtain ⟨node, hfound, hkind⟩ := hgrows.find found
    cases node with
    | dir => exact .tree dir rel path hfound below place
    | file c x => cases hkind
  | file name content x path named found =>
    obtain ⟨node, hfound, hkind⟩ := hgrows.find found
    cases node with
    | dir => cases hkind
    | file c x => exact .file name c x path named hfound

theorem SelfCopied.launchPath_eq {config : ProcessConfig} {t : FileTree} {q : Place}
    (h : SelfCopied config t q) : launchPath t config = config.path := by
  unfold launchPath
  split
  · rfl
  · cases h with
    | tree dir rel path found below place =>
      rw [if_pos (isDir_iff.2 ⟨dir, found⟩), path]
    | file name content x path named found =>
      have hfile : ¬t.isDir config.path = true := by
        rw [isDir_iff, found]
        rintro ⟨q', h⟩
        cases h
      rw [if_neg hfile, named, Option.getD_some, path]

theorem SelfCopied.exists {config : ProcessConfig} {t : FileTree} {q : Place}
    (h : SelfCopied config t q) : t.pathExists config.path = true := by
  rw [pathExists_iff]
  cases h with
  | tree dir rel path found below place => exact ⟨_, found⟩
  | file name content x path named found => exact ⟨_, found⟩

/-- A copy of the app onto itself comes to its file `q`. To a single file it always comes. -/
def ComesToCopy (config : ProcessConfig) (q : Place) (t : FileTree) : Prop :=
  ∀ dir rel, t.find config.path = some (dir, .dir) → q = dir ++ rel →
    ComesTo pathMax ⟨config.path, dir⟩ rel t

/-- The copy of a local app onto itself leaves the files empty that it comes to. -/
theorem SelfCopied.emptied {config : ProcessConfig} {t : FileTree} {q : Place} {content : Bytes}
    {x : Bool} (h : SelfCopied config t q) (hoci : config.isOci = false) (hspa : config.spa = false)
    (hdirs : ∀ d ∈ trail t.cwd (components (appDir config.name)), t.stat d = some .dir)
    (hfile : t.stat q = some (.file content x)) :
    EmptiedIff (ComesToCopy config q t) q t (final (copyToAppDir config) t) := by
  have hmk : createDirAll (components (appDir config.name)) t =
      .ok (lexical t.cwd (components (appDir config.name))) t := mkdirs_of_dirs hdirs
  have hcopy : final (copyToAppDir config) t = final (copyApp config) t := by
    unfold copyToAppDir
    rw [if_neg (by simp [hoci, hspa]), final_get_bind, if_neg (by simp [h.exists]), final_bind,
      run_mapError, hmk]
  rw [hcopy]
  unfold copyApp
  rw [final_get_bind]
  cases h with
  | tree dir rel path found below place =>
    have habs := isAbsolute_appDir config.name
    have hplace : dir = lexical t.cwd (components (appDir config.name)) := by
      have hfound := (path ▸ found).symm.trans (find_of_trail habs hdirs)
      rw [Option.some.injEq, Prod.mk.injEq] at hfound
      exact hfound.1.trans (lexical_of_root (head?_components habs) t.cwd).symm
    have hcomes : ComesToCopy config q t ↔ ComesTo pathMax ⟨appDir config.name, dir⟩ rel t := by
      unfold ComesToCopy
      rw [found, path]
      constructor
      · exact fun h => h dir rel rfl place
      · intro h dir' rel' heq hq
        cases heq
        rw [place] at hq
        rwa [← List.append_cancel_left hq]
    rw [if_pos (isDir_iff.2 ⟨dir, found⟩), final_bind_pure, hcomes, path, place]
    unfold copyDirRecursive
    rw [final_bind, run_mapError, hmk]
    dsimp only
    rw [final_get_bind, ← path, found, path, ← hplace]
    exact copyTree_self_file (s := ⟨appDir config.name, dir⟩) below (place ▸ hfile)
  | file name content' x' path named found =>
    have hnot : ¬t.isDir config.path = true := by
      rw [isDir_iff, found]
      rintro ⟨q', h⟩
      cases h
    obtain ⟨t', hself, hempty⟩ := copy_self found
    have hrun : copy config.path (join (appDir config.name) ((fileName config.path).getD config.name))
        t = .ok () t' := by
      rw [named, Option.getD_some, ← path]
      exact hself
    rw [if_neg hnot, final_bind, run_mapError, hrun]
    dsimp only
    rw [final_bind_pure]
    refine .inl ⟨fun dir rel hdir => ?_, ?_⟩
    · rw [found] at hdir
      cases hdir
    · exact (keepsEmpty_setExecutable _ t').empty q _ hempty

/-! ## Relaunches -/

/-- The disk that the copy of a relaunched app leaves. -/
def afterCopy (name : String) (h : Host) (r : Relaunch) : FileTree :=
  match launched name h r with
  | some config => final (copyToAppDir config) (launchDisk name h r)
  | none => r.disk.getD h.disk

/-- Neither a volume mount nor the pid file of the relaunched app is written at `q`. -/
def Undisturbed (name : String) (q : Place) (h : Host) (r : Relaunch) : Prop :=
  q ∉ since (afterCopy name h r) (relaunch name h r).disk

instance (name : String) (q : Place) (h : Host) (r : Relaunch) :
    Decidable (Undisturbed name q h r) :=
  inferInstanceAs (Decidable (_ ∉ _))

/-- The relaunch starts the app, and the copy comes to its file `q`. -/
def Recopies (name : String) (q : Place) (h : Host) (r : Relaunch) : Prop :=
  ∃ config, launched name h r = some config ∧ ComesToCopy config q h.disk

/-- A local app that is started from its own copy, of which the file `q` is a part. -/
structure HasCopy (name : String) (q : Place) (t : FileTree) (p : ManagedProcess) : Prop where
  named : p.config.name = name
  isOci : p.config.isOci = false
  spa : p.config.spa = false
  copied : SelfCopied p.config t q
  app : ∀ d ∈ trail t.cwd (components (appDir name)), t.stat d = some .dir
  logs : ∀ d ∈ trail t.cwd (components (logsDir name)), t.stat d = some .dir

theorem HasCopy.grows {name : String} {q : Place} {t t' : FileTree} {p p' : ManagedProcess}
    (h : HasCopy name q t p) (hgrows : Grows t t') (hconfig : p'.config = p.config) :
    HasCopy name q t' p' := by
  refine ⟨?_, ?_, ?_, ?_, fun d hd => ?_, fun d hd => ?_⟩
  · rw [hconfig, h.named]
  · rw [hconfig, h.isOci]
  · rw [hconfig, h.spa]
  · rw [hconfig]
    exact h.copied.grows hgrows
  · exact hgrows.dir d (h.app d (hgrows.cwd ▸ hd))
  · exact hgrows.dir d (h.logs d (hgrows.cwd ▸ hd))

theorem HasCopy.ensureDirs {name : String} {q : Place} {t : FileTree} {p : ManagedProcess}
    (h : HasCopy name q t p) : ensureDirs name t = .ok () t := by
  have hmk : createDirAll (components (logsDir name)) t = _ := mkdirs_of_dirs h.logs
  unfold Process.ensureDirs
  rw [run_bind, hmk]
  rfl

/-- The app is in the table with its copy, or it is gone; its file `q` is there. -/
structure KeepsCopy (name : String) (q : Place) (h : Host) : Prop where
  file : ∃ c x, h.disk.stat q = some (.file c x)
  table : h.processMgr = .empty ∨
    ∃ p, h.processMgr = ProcessManager.empty.insert name p ∧ HasCopy name q h.disk p

/-- What a launched app's relaunch does after the copy, whatever comes of it. -/
theorem relaunch_after_copy {R : FileTree → FileTree → Prop} (kept : Kept R) {os : LaunchOs}
    {config : ProcessConfig} {t t' : FileTree} {m m' : ManagedProcess} (hoci : config.isOci = false)
    (hstart : startProcess os config t = .ok m t') :
    R (final (copyToAppDir config) t) (final (writePidFile m') t') := by
  have hcopy := startProcess_after_copy kept os hoci t
  rw [final_of_ok hstart] at hcopy
  exact kept.trans _ _ _ hcopy (respects_writePidFile kept m' t')

/-- A relaunch empties a file of the app exactly if it starts the app and comes to the file. -/
theorem relaunch_emptied {name : String} {q : Place} {h : Host} {r : Relaunch}
    (hk : KeepsCopy name q h) (hdisk : r.disk = none) (hquiet : Undisturbed name q h r) :
    KeepsCopy name q (relaunch name h r) ∧
      EmptiedIff (Recopies name q h r) q h.disk (relaunch name h r).disk := by
  have hidle (hnone : launched name h r = none) (hsame : relaunch name h r = h) :
      KeepsCopy name q (relaunch name h r) ∧
        EmptiedIff (Recopies name q h r) q h.disk (relaunch name h r).disk := by
    rw [hsame]
    refine ⟨hk, .inr ⟨?_, rfl⟩⟩
    rintro ⟨config, hsome, -⟩
    rw [hnone] at hsome
    cases hsome
  rcases hk.table with hempty | ⟨p, htable, hp⟩
  · exact hidle (launched_empty r hempty) (relaunch_empty hempty hdisk)
  rcases relaunch_cases htable hp.named hdisk hp.ensureDirs with ⟨hnone, hsame⟩ | ⟨hsome, hcases⟩
  · exact hidle hnone hsame
  obtain ⟨c, x, hfile⟩ := hk.file
  have hcopied := hp.copied.emptied hp.isOci hp.spa (hp.named.symm ▸ hp.app) hfile
  have hlaunch : launchDisk name h r = h.disk := by
    unfold launchDisk
    rw [hdisk]
    cases r.kind with
    | saveRestore => exact final_of_ok hp.ensureDirs
    | restart => rfl
    | reload => rfl
    | autoRestart => rfl
  have hafter : afterCopy name h r = final (copyToAppDir p.config) h.disk := by
    unfold afterCopy
    rw [hsome, hlaunch]
  have hlater {R : FileTree → FileTree → Prop} (kept : Kept R) :
      R (final (copyToAppDir p.config) h.disk) (relaunch name h r).disk := by
    rcases hcases with ⟨e, t, m, hstart, -, hrun⟩ | ⟨m, m', t, hstart, -, hrun⟩
    · rw [hrun, ← final_of_error hstart]
      exact startProcess_after_copy kept r.os hp.isOci h.disk
    · rw [hrun]
      exact relaunch_after_copy kept hp.isOci hstart
  have hgrows : Grows h.disk (relaunch name h r).disk :=
    Grows.trans _ _ _ (respects_copyToAppDir kept_grows _ h.disk) (hlater kept_grows)
  refine ⟨⟨hgrows.file q c x hfile, ?_⟩, ?_⟩
  · rcases hcases with ⟨e, t, m, -, hm, hrun⟩ | ⟨m, m', t, hstart, ⟨count, hm'⟩, hrun⟩
    · rw [hrun] at hgrows ⊢
      rcases hm with hm | hm
      · exact .inl hm
      · exact .inr ⟨p.killChild, hm, hp.grows hgrows rfl⟩
    · rw [hrun] at hgrows ⊢
      have hconfig : m'.config = p.config := by
        rw [hm', (startProcess_ok hstart).onLocal hp.isOci, hp.copied.launchPath_eq]
      exact .inr ⟨m', rfl, hp.grows hgrows hconfig⟩
  · unfold Undisturbed at hquiet
    rw [hafter] at hquiet
    have hiff : Recopies name q h r ↔ ComesToCopy p.config q h.disk := by
      unfold Recopies
      rw [hsome]
      simp
    rw [EmptiedIff, (hlater kept_frame).stat_eq hquiet, hiff]
    exact hcopied

/-! ## The first launch -/

/-- Where the copy of what lies at `rel` below an app's path goes: to the same place below the
app's directory, a single file under its own name. -/
def copyPlace (config : ProcessConfig) (rel : Place) : Place :=
  lexical [] (components (appDir config.name)) ++
    if rel = [] then (fileName config.path).toList else rel

/-- The app launched on `t` has been copied, and the file at `q` with it: it has the content
of the original. -/
structure Copied (config : ProcessConfig) (t : FileTree) (h : Host) (q : Place) (content : Bytes) :
    Prop where
  original : ∃ p node rel x, t.find config.path = some (p, node) ∧
    t.stat (p ++ rel) = some (.file content x) ∧ q = copyPlace config rel
  copy : ∃ x, h.disk.stat q = some (.file content x)

/-- A launch that copies the app leaves its directory behind. -/
theorem appDir_made {config c : ProcessConfig} {t t' : FileTree} (hoci : config.isOci = false)
    (hspa : config.spa = false) (he : t.pathExists config.path = true)
    (h : copyToAppDir config t = .ok c t') :
    ∀ p ∈ trail t'.cwd (components (appDir config.name)), t'.stat p = some .dir := by
  unfold copyToAppDir at h
  rw [if_neg (by simp [hoci, hspa]), run_get_bind, if_neg (by simp [he])] at h
  obtain ⟨place, t₁, hmk, hcopy⟩ := bind_ok h
  rw [mapError_ok, run_createDirAll] at hmk
  have hgrows : Grows t t₁ := (respects_mkdirs kept_grows _ _).of_ok hmk
  have hgrows' : Grows t₁ t' := (respects_copyApp kept_grows config).of_ok hcopy
  intro p hp
  rw [hgrows'.cwd, hgrows.cwd] at hp
  exact hgrows'.dir p ((mkdirs_ok hmk).2 p hp)

/-- The path that a launch stores for a copied app is that of its own copy. -/
theorem selfCopied_of_copied {config : ProcessConfig} {t t' : FileTree} {q p : Place} {node : Node}
    {rel : Place} {content content' : Bytes} {x x' : Bool} (hoci : config.isOci = false)
    (hspa : config.spa = false) (hfind : t.find config.path = some (p, node))
    (horiginal : t.stat (p ++ rel) = some (.file content x)) (hq : q = copyPlace config rel)
    (hdirs : ∀ p ∈ trail t'.cwd (components (appDir config.name)), t'.stat p = some .dir)
    (hcopy : t'.stat q = some (.file content' x')) :
    SelfCopied { config with path := launchPath t config } t' q := by
  have habs := isAbsolute_appDir config.name
  have hlaunch : launchPath t config = if t.isDir config.path then appDir config.name
      else join (appDir config.name) ((fileName config.path).getD config.name) := by
    unfold launchPath
    rw [if_neg (by simp [hoci, hspa, pathExists_iff.2 ⟨_, hfind⟩])]
  obtain ⟨-, -, -, hstat⟩ := find_eq_some.1 hfind
  unfold copyPlace at hq
  cases node with
  | dir =>
    have hrel : rel ≠ [] := by
      rintro rfl
      rw [List.append_nil, hstat] at horiginal
      cases horiginal
    rw [if_pos (isDir_iff.2 ⟨p, hfind⟩)] at hlaunch
    rw [if_neg hrel] at hq
    refine .tree _ rel hlaunch ?_ hrel hq
    dsimp only
    rw [hlaunch]
    exact find_of_trail habs hdirs
  | file c y =>
    have hrel : rel = [] := by
      by_contra hrel
      rw [t.ancestor_dir horiginal hrel] at hstat
      cases hstat
    obtain ⟨n, hn⟩ := fileName_of_find hfind
    obtain ⟨hslash, hempty, hdot, hnames⟩ := fileName_spec hn
    have hnot : ¬t.isDir config.path = true := by
      rw [isDir_iff, hfind]
      rintro ⟨q', h⟩
      cases h
    rw [if_neg hnot, hn, Option.getD_some] at hlaunch
    rw [if_pos hrel, hn, Option.toList_some] at hq
    subst hq
    refine .file n content' x' hlaunch ?_ ?_
    · dsimp only
      rw [hlaunch]
      exact fileName_join habs hslash hnames
    · dsimp only
      rw [hlaunch]
      exact find_join habs hn hdirs hcopy

/-- The first launch of an app leaves it with its copy. -/
theorem keepsCopy_of_copied {os : LaunchOs} {config : ProcessConfig} {t : FileTree} {h : Host}
    {q : Place} {content : Bytes} (hoci : config.isOci = false) (hspa : config.spa = false)
    (hh : h = final (spawnProcess os config) ⟨.empty, t⟩)
    (hspawn : (childOf config.name h).isSome) (hcopied : Copied config t h q content) :
    KeepsCopy config.name q h := by
  obtain ⟨p, ha, hs⟩ := spawn_alone hh hspawn
  obtain ⟨⟨place, node, rel, x, hfind, hfile, hq⟩, x', hcopy⟩ := hcopied
  subst hh
  rcases spawnProcess_cases os config ⟨.empty, t⟩ with
    ⟨e, t₁, hrun⟩ | ⟨-, t₁, t₂, m, hdirs, hstart, hrun⟩
  · rw [final_of_error hrun] at hspawn
    cases hspawn
  rw [final_of_ok hdirs] at hs
  have hlogs : ∀ d ∈ trail t.cwd (components (logsDir config.name)), t₁.stat d = some .dir := by
    obtain ⟨place', t₁', hmk, hpure⟩ := bind_ok hdirs
    cases hpure
    exact (mkdirs_ok hmk).2
  have hgrows : Grows t t₁ := by
    refine Respects.of_ok (.bind Grows.trans (respects_createDirAll kept_grows _) fun _ => ?_) hdirs
    exact .pure Grows.refl ()
  obtain ⟨node₁, hfind₁, -⟩ := hgrows.find hfind
  obtain ⟨c₁, x₁, hfile₁⟩ := hgrows.file _ content x hfile
  obtain ⟨c, t₃, happ, -⟩ := bind_ok hstart
  have hlater : Grows t₃ (final (spawnProcess os config) ⟨.empty, t⟩).disk := by
    rw [final_of_ok hrun, ← final_of_ok happ]
    exact relaunch_after_copy kept_grows hoci hstart
  have hall : Grows t₁ (final (spawnProcess os config) ⟨.empty, t⟩).disk :=
    Grows.trans _ _ _ ((respects_copyToAppDir kept_grows _).of_ok happ) hlater
  have hmade := appDir_made hoci hspa (pathExists_iff.2 ⟨_, hfind₁⟩) happ
  have happdir : ∀ d ∈ trail (final (spawnProcess os config) ⟨.empty, t⟩).disk.cwd
      (components (appDir config.name)),
      (final (spawnProcess os config) ⟨.empty, t⟩).disk.stat d = some .dir := fun d hd =>
    hlater.dir d (hmade d (hlater.cwd ▸ hd))
  refine ⟨⟨content, x', hcopy⟩, .inr ⟨p, ha.table, ?_⟩⟩
  refine ⟨ha.named, by rw [hs.same.isOci, hoci], by rw [hs.same.spa, hspa], ?_, happdir, ?_⟩
  · rw [hs.onLocal hoci]
    exact selfCopied_of_copied hoci hspa hfind₁ hfile₁ hq happdir hcopy
  · intro d hd
    rw [hall.cwd, hgrows.cwd] at hd
    exact hall.dir d (hlogs d hd)

/-- A file of the app that came from the original, and that no later launch writes otherwise. -/
def FromOriginal (config : ProcessConfig) (t : FileTree) (h : Host) (rs : List Relaunch) (q : Place)
    (content : Bytes) : Prop :=
  Copied config t h q content ∧ (relaunches config.name).Along (Undisturbed config.name q) h rs

/-- After a run of relaunches such a file has its content only if there was none to lose, or if
none of them came to it. -/
theorem content_after_iff {name : String} {h : Host} {rs : List Relaunch} {q : Place}
    {content : Bytes} (hk : KeepsCopy name q h) (hc : ∃ x, h.disk.stat q = some (.file content x))
    (hdisk : (relaunches name).Along (fun _ r => r.disk = none) h rs)
    (hquiet : (relaunches name).Along (Undisturbed name q) h rs) :
    (∃ x, ((relaunches name).run h rs).disk.stat q = some (.file content x)) ↔
      content = [] ∨ (relaunches name).Along (fun h r => ¬Recopies name q h r) h rs := by
  induction rs generalizing h content with
  | nil => exact iff_of_true hc (.inr trivial)
  | cons r rs ih =>
    obtain ⟨hk', hstep⟩ := relaunch_emptied hk hdisk.1 hquiet.1
    rcases hstep with ⟨hrecopies, hempty⟩ | ⟨hspared, hsame⟩
    · -- once empty the file stays so
      obtain ⟨x, hx⟩ := (ih hk' hempty hdisk.2 hquiet.2).2 (.inl rfl)
      rw [Machine.run_cons]
      change (∃ y, ((relaunches name).run (relaunch name h r) rs).disk.stat q = _) ↔ _
      rw [hx]
      constructor
      · rintro ⟨y, heq⟩
        cases heq
        exact .inl rfl
      · rintro (rfl | halong)
        · exact ⟨x, rfl⟩
        · exact absurd hrecopies halong.1
    · rw [← hsame] at hc
      refine (ih hk' hc hdisk.2 hquiet.2).trans (or_congr_right ?_)
      exact (and_iff_right hspared).symm

/-- Whatever comes of its relaunches, every file of a copied local app keeps the content of the
original exactly if each is empty, or no relaunch that starts the app comes to it. -/
theorem relaunches_keep_content_iff {os : LaunchOs} {config : ProcessConfig} {t : FileTree} {h : Host}
    {rs : List Relaunch} (hoci : config.isOci = false) (hspa : config.spa = false)
    (hh : h = final (spawnProcess os config) ⟨.empty, t⟩)
    (hspawn : (childOf config.name h).isSome)
    (hdisk : (relaunches config.name).Along (fun _ r => r.disk = none) h rs) :
    (∀ q content, FromOriginal config t h rs q content →
      ∃ x, ((relaunches config.name).run h rs).disk.stat q = some (.file content x)) ↔
    ∀ q content, FromOriginal config t h rs q content →
      content = [] ∨
        (relaunches config.name).Along (fun h r => ¬Recopies config.name q h r) h rs :=
  forall₂_congr fun _ _ => imp_congr_right fun hfrom =>
    content_after_iff (keepsCopy_of_copied hoci hspa hh hspawn hfrom.1) hfrom.1.copy hdisk hfrom.2

def script : Bytes := "#!/bin/sh\nexec sleep 60\n".toUTF8.toList

/-- A disk with a script on it. -/
def programDisk : FileTree := final (write "/server" script) .empty

def programConfig : ProcessConfig := ProcessConfig.plain "server" "/server"

/-- The daemon's host once the script runs. -/
def programHost : Host := final (spawnProcess (.serving .null 7) programConfig) ⟨.empty, programDisk⟩

/-- A restart, after which there is nothing to execute in the file. -/
def programRestart : Relaunch where
  kind := .restart
  os := { LaunchOs.serving .null 8 with spawn := fun _ => .error "Exec format error (os error 8)" }
  disk := none

def programPlace : Place := ["var", "run", "nyrun", "apps", "server", "server"]

theorem recopies_programPlace : Recopies "server" programPlace programHost programRestart := by
  have hlaunched : (launched "server" programHost programRestart).isSome := by decide +kernel
  obtain ⟨config, hconfig⟩ := Option.isSome_iff_exists.1 hlaunched
  have hfile : ∀ config ∈ launched "server" programHost programRestart,
      programHost.disk.isDir config.path = false := by
    decide +kernel
  refine ⟨config, hconfig, fun dir rel hfound _ => ?_⟩
  have hdir := isDir_iff.2 ⟨dir, hfound⟩
  rw [hfile config hconfig] at hdir
  cases hdir

/-- A restarted script: not every file has kept its content. -/
theorem relaunches_lose_program :
    ¬∀ q content, FromOriginal programConfig programDisk programHost [programRestart] q content →
      ∃ x, ((relaunches "server").run programHost [programRestart]).disk.stat q =
        some (.file content x) := by
  intro hkeeps
  have hfrom : FromOriginal programConfig programDisk programHost [programRestart] programPlace
      script := by
    refine ⟨⟨⟨["server"], .file script false, [], false, ?_, ?_, ?_⟩, true, ?_⟩, ?_⟩ <;>
      decide +kernel
  rcases (relaunches_keep_content_iff (show programConfig.isOci = false from rfl) rfl rfl
    (by decide +kernel) (by decide +kernel)).1 hkeeps _ _ hfrom with hempty | hspared
  · exact absurd hempty (by decide +kernel)
  · exact hspared.1 recopies_programPlace

/-- The copy of a script is what the original is, until the app is restarted: then it is empty, and
cannot be started any more. -/
theorem restart_empties_program :
    programHost.disk.stat programPlace =
        some (.file script true) ∧
      (relaunch "server" programHost programRestart).disk.stat programPlace =
        some (.file [] true) ∧
      childOf "server" (relaunch "server" programHost programRestart) = none := by
  refine ⟨?_, ?_, ?_⟩
  · decide +kernel
  · decide +kernel
  · exact Option.isNone_iff_eq_none.1 (by decide +kernel)

end Process
