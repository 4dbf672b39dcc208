import NylonRun.Lib.Touched

/-!
# Restoring a backup

`restore_backup` (src/main.rs:741-779). The zip crate is a parameter: it takes what an open
file holds to the entries of the archive, each with its stored name.
-/

open UnixPath FileTree Effect

/-- An entry of an archive as the zip crate gives it. -/
structure ZipEntry where
  name : String
  isDir : Bool
  content : Except String Bytes

namespace Backup

/-- A zip archive, or the error of `ZipArchive::new`; an entry may fail on its own. -/
abbrev OpenZip : Type := Except String Bytes → Except String (List (Except String ZipEntry))

def nyrunDir : String := "/var/run/nyrun"

def nyrunPlace : Place := ["var", "run", "nyrun"]

def makeDir (cs : List Component) : Fs Unit := do
  let _ ← mapError (fun e => s!"mkdir error: {e}") (createDirAll cs)

/-- src/main.rs:767-775. -/
def restoreFile (outPath : String) (content : Except String Bytes) : Fs Unit := do
  makeDir ((parent outPath).getD [])
  let content ← demand (fun e => s!"read zip entry error: {e}") content
  mapError (fun e => s!"write file error: {e}") (write outPath content)

/-- One entry (src/main.rs:752-776). -/
def restoreEntry (entry : Except String ZipEntry) : Fs Unit := do
  let entry ← demand (fun e => s!"zip entry error: {e}") entry
  let outPath := join nyrunDir entry.name
  if ¬ startsWith outPath nyrunDir then throw s!"path traversal detected in zip: {entry.name}"
  else if entry.isDir then makeDir (components outPath)
  else restoreFile outPath entry.content

/-- The entries of the archive (src/main.rs:744-746). -/
def readZip (openZip : OpenZip) (t : FileTree) (file : String) :
    Except String (List (Except String ZipEntry)) :=
  match t.find file with
  | none => .error s!"failed to open {file}: No such file or directory (os error 2)"
  | some _ => (openZip (t.read file)).mapError fun e => s!"invalid zip file: {e}"

/-- `restore_backup` (src/main.rs:741-779). -/
def restoreBackup (openZip : OpenZip) (file : String) : Fs Unit := do
  let entries ← demand id (readZip openZip (← get) file)
  let _ ← mapError (fun e => s!"failed to create /var/run/nyrun: {e}")
    (createDirAll (components nyrunDir))
  forEach entries restoreEntry

/-! ## Staying inside -/

/-- The file `outPath` is written only inside the directory: so are the directories made for
it, and, if nothing stops it before, the place its text leads to. -/
def FileInside (t : FileTree) (outPath : String) (content : Except String Bytes) : Prop :=
  let dir := (parent outPath).getD []
  let place := lexical [] (components outPath)
  DirsInside nyrunPlace t t.cwd dir ∧
    ((∀ p ∈ trail t.cwd dir, t.Open p = true) → content.isOk = true → namesDir outPath = false →
      t.stat place ≠ some .dir → nyrunPlace <+: place)

/-- An entry is restored only inside the directory, on the disk it is restored to. -/
def EntryInside (t : FileTree) (entry : ZipEntry) : Prop :=
  let outPath := join nyrunDir entry.name
  startsWith outPath nyrunDir = true →
    if entry.isDir then DirsInside nyrunPlace t t.cwd (components outPath)
    else FileInside t outPath entry.content

/-- Every entry that the restore comes to is restored only inside the directory. -/
def EntriesInside : List (Except String ZipEntry) → FileTree → Prop
  | [], _ => True
  | entry :: entries, t =>
    (∀ e, entry = .ok e → EntryInside t e) ∧
      ∀ t', restoreEntry entry t = .ok () t' → EntriesInside entries t'

theorem respects_makeDir {R : FileTree → FileTree → Prop} (kept : Kept R) (cs : List Component) :
    Respects R (makeDir cs) :=
  .bind kept.trans (.mapError (respects_createDirAll kept cs)) fun _ => .pure kept.refl ()

theorem respects_restoreFile {R : FileTree → FileTree → Prop} (kept : Kept R) (outPath : String)
    (content : Except String Bytes) : Respects R (restoreFile outPath content) := by
  refine .bind kept.trans (respects_makeDir kept _) fun _ => ?_
  refine .bind kept.trans (.demand kept.refl _ content) fun c => ?_
  exact .mapError (respects_write kept outPath c)

theorem respects_restoreEntry {R : FileTree → FileTree → Prop} (kept : Kept R)
    (entry : Except String ZipEntry) : Respects R (restoreEntry entry) := by
  refine .bind kept.trans (.demand kept.refl _ entry) fun e => ?_
  refine .ite (.throw kept.refl _) (.ite (respects_makeDir kept _) ?_)
  exact respects_restoreFile kept _ _

theorem final_makeDir (cs : List Component) (t : FileTree) :
    final (makeDir cs) t = final (mkdirs cs t.cwd) t := by
  unfold makeDir final
  rw [run_bind, run_mapError, run_createDirAll]
  cases mkdirs cs t.cwd t <;> rfl

theorem inside_makeDir_iff {t : FileTree} {cs : List Component}
    (h : cs = [] ∨ cs.head? = some .root) :
    Inside nyrunPlace t (final (makeDir cs) t) ↔ DirsInside nyrunPlace t t.cwd cs := by
  rw [final_makeDir]
  exact inside_createDirAll_iff h

/-- `makeDir` succeeds, and its way is one of directories, or a file stands in the way. -/
theorem makeDir_cases (t : FileTree) {cs : List Component} (h : cs = [] ∨ cs.head? = some .root) :
    (∃ t', makeDir cs t = .ok () t' ∧ (∀ p ∈ trail t.cwd cs, t'.stat p = some .dir) ∧
      ∀ p ∈ trail t.cwd cs, t.Open p = true) ∨
    (∃ e t', makeDir cs t = .error e t' ∧ ¬∀ p ∈ trail t.cwd cs, t.Open p = true) := by
  have hopen : (∃ t', mkdirs cs t.cwd t = .ok (lexical t.cwd cs) t') ↔
      ∀ p ∈ trail t.cwd cs, t.Open p = true := by
    rcases h with rfl | h
    · simp [mkdirs, trail]
    · exact mkdirs_isOk_iff (.inr h)
  cases hmk : mkdirs cs t.cwd t with
  | ok p t' =>
    obtain ⟨rfl, hdirs⟩ := mkdirs_ok hmk
    have hrun : makeDir cs t = .ok () t' := by
      unfold makeDir
      rw [run_bind, run_mapError, run_createDirAll, hmk]
      rfl
    exact .inl ⟨t', hrun, hdirs, hopen.1 ⟨t', hmk⟩⟩
  | error e t' =>
    have hrun : makeDir cs t = .error s!"mkdir error: {e}" t' := by
      unfold makeDir
      rw [run_bind, run_mapError, run_createDirAll, hmk]
    refine .inr ⟨_, t', hrun, fun h => ?_⟩
    obtain ⟨t'', hok⟩ := hopen.2 h
    rw [hmk] at hok
    cases hok

/-- Where the directory of a path is made, the path leads where its text says, and something
is written there unless the path names a directory or one is there. -/
theorem written_iff {t : FileTree} {outPath : String} (h : isAbsolute outPath = true)
    (hdirs : ∀ p ∈ trail t.cwd ((parent outPath).getD []), t.stat p = some .dir) (q : Place) :
    t.resolve outPath = some q ∧ t.Writable q ↔
      q = lexical [] (components outPath) ∧ namesDir outPath = false ∧ t.stat q ≠ some .dir := by
  have hhead := head?_components h
  have hne : outPath ≠ "" := by rintro rfl; cases h
  rw [resolve_eq_some, ← lexical_of_root hhead t.cwd]
  obtain ⟨c, hc, ⟨hroot, hp⟩ | ⟨rfl, hp⟩⟩ := parent_absolute h
  · rw [hp, Option.getD_some] at hdirs
    have hrooted := head_dropLast h hc hroot
    have hwalk : t.walk (components outPath) t.cwd = some (lexical t.cwd (components outPath)) := by
      refine walk_of_trail (.inr hhead) fun p hp => hdirs p ?_
      rw [hc, trail_append] at hp
      simpa [trail] using hp
    have hdir : t.stat (lexical t.cwd (components outPath).dropLast) = some .dir :=
      hdirs _ (lexical_mem_trail (by intro h0; rw [h0] at hrooted; cases hrooted))
    have hwritable := writable_iff (c := c) hdir
    rw [← hc] at hwritable
    rw [hwalk, Option.some.injEq]
    constructor
    · rintro ⟨⟨-, rfl, hnames⟩, hw⟩
      have hstat := hwritable.1 hw
      exact ⟨rfl, by simpa using fun hn => hstat (hnames hn), hstat⟩
    · rintro ⟨rfl, hnames, hstat⟩
      exact ⟨⟨hne, rfl, fun hn => by rw [hnames] at hn; cases hn⟩, hwritable.2 hstat⟩
  · -- the path of the root itself
    have hplace : lexical t.cwd (components outPath) = [] := by rw [hc, lexical_append]; rfl
    rw [hplace]
    constructor
    · rintro ⟨⟨-, hwalk, -⟩, hw⟩
      rw [walk_lexical hwalk, hplace] at hw
      exact absurd rfl hw.1
    · rintro ⟨rfl, -, hstat⟩
      exact absurd rfl hstat

/-- A file is restored inside the directory exactly if its directories and its place are. -/
theorem inside_restoreFile_iff {t : FileTree} {outPath : String} {content : Except String Bytes}
    (h : isAbsolute outPath = true) :
    Inside nyrunPlace t (final (restoreFile outPath content) t) ↔ FileInside t outPath content := by
  have hrooted := parent_rooted h
  have hdir := inside_makeDir_iff (t := t) hrooted
  have hframe := respects_makeDir kept_frame ((parent outPath).getD []) t
  have hgrows := respects_makeDir kept_grows ((parent outPath).getD []) t
  unfold FileInside restoreFile
  rw [final_bind]
  rcases makeDir_cases t hrooted with ⟨t', hmk, hdirs, hopen⟩ | ⟨e, t', hmk, hopen⟩
  · rw [final_of_ok hmk] at hdir hframe hgrows
    rw [hmk]
    cases content with
    | error e => simpa [demand, final, Except.isOk, Except.toBool] using hdir
    | ok c =>
      have hfinal : final (mapError (fun e => s!"write file error: {e}") (write outPath c)) t' =
          final (write outPath c) t' := final_mapError ..
      have hwrite : Inside nyrunPlace t' (final (write outPath c) t') ↔
          (namesDir outPath = false →
            t'.stat (lexical [] (components outPath)) ≠ some .dir →
              nyrunPlace <+: lexical [] (components outPath)) := by
        rw [inside_write_iff]
        rw [← hgrows.cwd] at hdirs
        constructor
        · intro hq hnames hstat
          obtain ⟨hres, hw⟩ := (written_iff h hdirs _).2 ⟨rfl, hnames, hstat⟩
          exact hq _ hres hw
        · intro hq q hres hw
          obtain ⟨rfl, hnames, hstat⟩ := (written_iff h hdirs q).1 ⟨hres, hw⟩
          exact hq hnames hstat
      change Inside nyrunPlace t (final (mapError _ (write outPath c)) t') ↔ _
      rw [hfinal, inside_trans_iff hframe (respects_write kept_frame outPath c t'), hdir, hwrite]
      refine and_congr_right fun hinside => ?_
      constructor
      · intro hw _ _ hnames hstat
        -- a directory that was only just made at the place lies inside already
        by_cases hmem : lexical [] (components outPath) ∈ since t t'
        · exact hdir.2 hinside _ hmem
        · exact hw hnames (hframe.stat_eq hmem ▸ hstat)
      · intro hw hnames hstat
        exact hw hopen rfl hnames fun hd => hstat (hgrows.dir _ hd)
  · rw [final_of_error hmk] at hdir
    rw [hmk]
    simp only [hopen, false_implies, and_true]
    exact hdir

theorem inside_restoreEntry_iff {t : FileTree} {entry : ZipEntry} :
    Inside nyrunPlace t (final (restoreEntry (.ok entry)) t) ↔ EntryInside t entry := by
  have habs : isAbsolute (join nyrunDir entry.name) = true := isAbsolute_join _ (by decide)
  have hrun : final (restoreEntry (.ok entry)) t =
      if startsWith (join nyrunDir entry.name) nyrunDir = true then
        if entry.isDir then final (makeDir (components (join nyrunDir entry.name))) t
        else final (restoreFile (join nyrunDir entry.name) entry.content) t
      else t := by
    unfold restoreEntry
    rw [final_bind]
    simp only [demand, run_pure, ite_not]
    split
    · split <;> rfl
    · rfl
  unfold EntryInside
  dsimp only
  rw [hrun]
  split
  · rename_i hguard
    rw [forall_prop_of_true hguard]
    split
    · exact inside_makeDir_iff (.inr (head?_components habs))
    · exact inside_restoreFile_iff habs
  · rename_i hguard
    simp [hguard]

theorem inside_entries_iff (entries : List (Except String ZipEntry)) (t : FileTree) :
    Inside nyrunPlace t (final (forEach entries restoreEntry) t) ↔ EntriesInside entries t := by
  induction entries generalizing t with
  | nil => simp [forEach, final, EntriesInside]
  | cons entry entries ih =>
    have hhead : Inside nyrunPlace t (final (restoreEntry entry) t) ↔
        ∀ e, entry = .ok e → EntryInside t e := by
      cases entry with
      | error e => simp [restoreEntry, demand, final]
      | ok e => simp [inside_restoreEntry_iff]
    rw [forEach, final_bind, EntriesInside, ← hhead]
    cases hrun : restoreEntry entry t with
    | error e t' => simp [final_of_error hrun]
    | ok u t' =>
      have hframe := (respects_restoreEntry kept_frame entry).of_ok hrun
      have hrest : Respects Frame (forEach entries restoreEntry) :=
        .forEach Frame.refl Frame.trans _ fun e _ => respects_restoreEntry kept_frame e
      simp only [final_of_ok hrun, EStateM.Result.ok.injEq, true_and, forall_eq']
      rw [inside_trans_iff hframe (hrest t'), ih]

/-- A restore touches only what is inside `/var/run/nyrun` exactly if the directory itself can
be made there, and every entry it comes to is restored inside on the disk it finds. -/
theorem restoreBackup_inside_iff (openZip : OpenZip) (file : String) (t : FileTree) :
    Inside nyrunPlace t (final (restoreBackup openZip file) t) ↔
      ∀ entries, readZip openZip t file = .ok entries →
        DirsInside nyrunPlace t t.cwd (components nyrunDir) ∧
        ∀ p t', createDirAll (components nyrunDir) t = .ok p t' → EntriesInside entries t' := by
  unfold restoreBackup
  rw [final_get_bind]
  cases hzip : readZip openZip t file with
  | error e => simp [demand, final]
  | ok entries =>
    have hdir : Inside nyrunPlace t (final (createDirAll (components nyrunDir)) t) ↔
        DirsInside nyrunPlace t t.cwd (components nyrunDir) :=
      inside_createDirAll_iff (.inr (head?_components (by decide)))
    simp only [final_bind, demand, run_pure, run_mapError, Except.ok.injEq, forall_eq', ← hdir]
    cases hmk : createDirAll (components nyrunDir) t with
    | error e t' => simp [final_of_error hmk]
    | ok p t' =>
      have hframe := (respects_createDirAll kept_frame (components nyrunDir)).of_ok hmk
      have hrest : Respects Frame (forEach entries restoreEntry) :=
        .forEach Frame.refl Frame.trans _ fun e _ => respects_restoreEntry kept_frame e
      simp only [final_of_ok hmk, EStateM.Result.ok.injEq, and_imp, forall_eq',
        forall_apply_eq_imp_iff]
      rw [inside_trans_iff hframe (hrest t'), inside_entries_iff]

/-- A disk with the directory and a backup beside it. -/
def backupDisk : FileTree :=
  final (do
    let _ ← createDirAll (components nyrunDir)
    write "/backup.zip" []) .empty

/-- An archive of one file whose name leads out of the directory. -/
def evilZip : OpenZip := fun _ =>
  .ok [.ok { name := "../evil", isDir := false, content := .ok [1] }]

/-- The check of a name lets `..` pass: the restore writes beside the directory. -/
theorem restoreBackup_writes_outside :
    since backupDisk (final (restoreBackup evilZip "/backup.zip") backupDisk) =
        [["var", "run", "evil"]] ∧
      ¬Inside nyrunPlace backupDisk (final (restoreBackup evilZip "/backup.zip") backupDisk) := by
  have htouched : since backupDisk (final (restoreBackup evilZip "/backup.zip") backupDisk) =
      [["var", "run", "evil"]] := by decide +kernel
  refine ⟨htouched, fun h => ?_⟩
  have hinside := h ["var", "run", "evil"] (by rw [htouched]; exact List.mem_singleton_self _)
  exact absurd hinside (by decide)

end Backup
