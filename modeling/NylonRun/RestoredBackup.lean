import Mathlib.Logic.Equiv.List
import NylonRun.Archive

/-!
# A backup restored

`create_backup` and `restore_backup` (src/main.rs:677-779) one after the other. The restore
takes the entries one by one, in any order: what it has made so far is always a part of the
tree that was backed up, so that nothing stands in the way of the next entry.
-/

open UnixPath FileTree Effect

namespace Backup

/-- Below the directory the second tree is the first, without the skipped files. -/
structure Restored (t t' : FileTree) : Prop where
  dirs : ∀ rel, t'.stat (nyrunPlace ++ rel) = some .dir ↔ t.stat (nyrunPlace ++ rel) = some .dir
  files : ∀ rel content, (∃ x, t'.stat (nyrunPlace ++ rel) = some (.file content x)) ↔
    skipped (nyrunPlace ++ rel) = false ∧ ∃ x, t.stat (nyrunPlace ++ rel) = some (.file content x)

/-- What has been restored so far is a part of the tree that was backed up. -/
structure Partly (t u : FileTree) : Prop where
  root : u.stat nyrunPlace = some .dir
  dirs : ∀ rel, u.stat (nyrunPlace ++ rel) = some .dir → t.stat (nyrunPlace ++ rel) = some .dir
  files : ∀ rel content x, u.stat (nyrunPlace ++ rel) = some (.file content x) →
    skipped (nyrunPlace ++ rel) = false ∧ ∃ y, t.stat (nyrunPlace ++ rel) = some (.file content y)

/-- What stood at a place of the tree that was backed up is there again. -/
structure Has (t u : FileTree) (rel : Place) : Prop where
  dir : t.stat (nyrunPlace ++ rel) = some .dir → u.stat (nyrunPlace ++ rel) = some .dir
  file : ∀ content x, t.stat (nyrunPlace ++ rel) = some (.file content x) →
    ∃ y, u.stat (nyrunPlace ++ rel) = some (.file content y)

theorem Has.grows {t u u' : FileTree} {rel : Place} (h : Has t u rel) (hgrows : Grows u u')
    (hpart : Partly t u') : Has t u' rel := by
  refine ⟨fun hdir => hgrows.dir _ (h.dir hdir), fun c x hfile => ?_⟩
  obtain ⟨y, hy⟩ := h.file c x hfile
  obtain ⟨c', y', hy'⟩ := hgrows.file _ c y hy
  obtain ⟨-, z, hz⟩ := hpart.files rel c' y' hy'
  rw [hfile] at hz
  cases hz
  exact ⟨y', hy'⟩

/-! ## Paths of entries -/

theorem components_nyrunDir :
    components nyrunDir = .root :: nyrunPlace.map .normal := by decide +kernel

/-- The way to a place below the directory. -/
def way (rel : Place) : List Component := components nyrunDir ++ rel.map .normal

theorem head_way (rel : Place) : (way rel).head? = some .root := by
  rw [way, components_nyrunDir]
  rfl

theorem lexical_way (dir rel : Place) : lexical dir (way rel) = nyrunPlace ++ rel := by
  rw [way, components_nyrunDir, lexical_append, lexical_names, lexical_cons, lexical_names]
  rfl

theorem mem_trail_names {dir p : Place} {ns : List String}
    (h : p ∈ trail dir (ns.map .normal)) : ∃ front back, ns = front ++ back ∧ p = dir ++ front := by
  induction ns generalizing dir with
  | nil => cases h
  | cons n ns ih =>
    rcases List.mem_cons.1 h with rfl | h
    · exact ⟨[n], ns, rfl, rfl⟩
    · obtain ⟨front, back, rfl, rfl⟩ := ih h
      exact ⟨n :: front, back, rfl, by simp [advance]⟩

/-- On the way there are the places above the directory, and those below it. -/
theorem mem_trail_way {dir p : Place} {rel : Place} (h : p ∈ trail dir (way rel)) :
    p <+: nyrunPlace ∨ ∃ front back, rel = front ++ back ∧ p = nyrunPlace ++ front := by
  rw [trail_of_root (head_way rel), way, trail_append] at h
  rcases List.mem_append.1 h with h | h
  · rw [components_nyrunDir] at h
    rcases List.mem_cons.1 h with rfl | h
    · exact .inl List.nil_prefix
    · obtain ⟨front, back, hsplit, rfl⟩ := mem_trail_names h
      exact .inl ⟨back, hsplit.symm⟩
  · have hplace : lexical [] (components nyrunDir) = nyrunPlace := by
      have h := lexical_way [] []
      rwa [way, List.map_nil, List.append_nil, List.append_nil] at h
    rw [hplace] at h
    exact .inr (mem_trail_names h)

section

variable {t : FileTree} {rel : Place} {w : Written}

/-- The segments of an entry's name are those of its place, or one empty one more. -/
theorem segments_entry (hne : rel ≠ []) (hnamed : Named rel)
    (h : entryOf t (nyrunPlace ++ rel) = some w) :
    segments w.name = rel ∨ segments w.name = rel ++ [""] := by
  rcases entryOf_some h with ⟨-, rfl⟩ | ⟨c, x, -, -, rfl⟩
  · right
    have hslash := segments_join_slash ("/".intercalate rel) ""
    rw [String.append_empty] at hslash
    rw [hslash, segments_names hne hnamed]
    rfl
  · exact .inl (segments_names hne hnamed)

theorem isAbsolute_entry (hne : rel ≠ []) (hnamed : Named rel)
    (h : entryOf t (nyrunPlace ++ rel) = some w) : isAbsolute w.name = false := by
  obtain ⟨n, rel, rfl⟩ := List.exists_cons_of_ne_nil hne
  have hn := (hnamed n List.mem_cons_self).nonempty
  rcases segments_entry hne hnamed h with hseg | hseg
  · exact isAbsolute_of_segments hseg hn
  · exact isAbsolute_of_segments hseg hn

theorem components_entry (hne : rel ≠ []) (hnamed : Named rel)
    (h : entryOf t (nyrunPlace ++ rel) = some w) :
    components (join nyrunDir w.name) = way rel := by
  rw [components_join (by decide) (isAbsolute_entry hne hnamed h), names_entry hnamed h, way]

/-- The check of the names passes. -/
theorem startsWith_entry (hne : rel ≠ []) (hnamed : Named rel)
    (h : entryOf t (nyrunPlace ++ rel) = some w) :
    startsWith (join nyrunDir w.name) nyrunDir = true := by
  rw [UnixPath.startsWith, components_entry hne hnamed h, List.isPrefixOf_iff_prefix]
  exact List.prefix_append _ _

theorem isDir_entry (hne : rel ≠ []) (hnamed : Named rel)
    (h : entryOf t (nyrunPlace ++ rel) = some w) :
    w.entry.isDir = true ↔ t.stat (nyrunPlace ++ rel) = some .dir := by
  change Text.endsWith w.name "/" = true ↔ _
  rw [Text.endsWith, List.isSuffixOf_iff_suffix]
  rcases entryOf_some h with ⟨hdir, rfl⟩ | ⟨c, x, hfile, -, rfl⟩
  · refine iff_of_true ?_ hdir
    rw [String.toList_append]
    exact List.suffix_append _ _
  · refine iff_of_false (fun hend => ?_) (by rw [hfile]; simp)
    obtain ⟨front, hfront⟩ := hend
    have hname : "/".intercalate rel = String.ofList front ++ "/" ++ "" := by
      rw [String.append_empty, ← String.toList_inj, String.toList_append, String.toList_ofList]
      exact hfront.symm
    have hseg := segments_names hne hnamed
    rw [hname, segments_join_slash] at hseg
    have hmem : "" ∈ rel := by
      rw [← hseg]
      exact List.mem_append_right _ List.mem_cons_self
    exact (hnamed "" hmem).nonempty rfl

/-- The path of a file does not end like that of a directory. -/
theorem namesDir_entry {c : Bytes} {x : Bool} (hne : rel ≠ []) (hnamed : Named rel)
    (h : entryOf t (nyrunPlace ++ rel) = some w)
    (hfile : t.stat (nyrunPlace ++ rel) = some (.file c x)) :
    namesDir (join nyrunDir w.name) = false := by
  have hseg : segments w.name = rel := by
    rcases entryOf_some h with ⟨hdir, -⟩ | ⟨c, x, -, -, rfl⟩
    · rw [hfile] at hdir
      cases hdir
    · exact segments_names hne hnamed
  unfold namesDir
  rw [getLast?_segments_join (isAbsolute_entry hne hnamed h), hseg]
  cases hlast : rel.getLast? with
  | none => rfl
  | some n =>
    have hn := hnamed n (List.mem_of_getLast? hlast)
    simp [hn.nonempty, hn.notCur]

end

/-! ## One entry -/

section

variable {t u : FileTree} {rel : Place} {w : Written}

theorem makeDir_ok {cs : List Component} {u' : FileTree} (h : makeDir cs u = .ok () u') :
    ∃ d, mkdirs cs u.cwd u = .ok d u' := by
  obtain ⟨d, v, hmk, hpure⟩ := bind_ok h
  cases hpure
  exact ⟨d, by rwa [mapError_ok, run_createDirAll] at hmk⟩

/-- The directories on the way to one that was backed up can be made again. -/
theorem makeDir_way (hpart : Partly t u) (hdir : t.stat (nyrunPlace ++ rel) = some .dir) :
    ∃ u', makeDir (way rel) u = .ok () u' ∧ Partly t u' ∧
      ∀ p ∈ trail u.cwd (way rel), u'.stat p = some .dir := by
  have hold {p : Place} (hp : p ∈ trail u.cwd (way rel)) : t.stat p = some .dir := by
    rcases mem_trail_way hp with hpre | ⟨front, back, rfl, rfl⟩
    · exact dir_above hdir (hpre.trans (List.prefix_append _ _))
    · refine dir_above hdir ⟨back, ?_⟩
      rw [List.append_assoc]
  have hopen : ∀ p ∈ trail u.cwd (way rel), u.Open p = true := by
    intro p hp
    rw [open_iff]
    rcases mem_trail_way hp with hpre | ⟨front, back, -, rfl⟩
    · exact .inr (dir_above hpart.root hpre)
    · rcases hu : u.stat (nyrunPlace ++ front) with _ | _ | ⟨c, x⟩
      · exact .inl rfl
      · exact .inr rfl
      · obtain ⟨-, y, hy⟩ := hpart.files front c x hu
        rw [hold hp] at hy
        cases hy
  rcases makeDir_cases u (.inr (head_way rel)) with ⟨u', hrun, hdirs, -⟩ | ⟨e, u', -, hno⟩
  · obtain ⟨d, hmk⟩ := makeDir_ok hrun
    have hgrows : Grows u u' := (respects_makeDir kept_grows _).of_ok hrun
    refine ⟨u', hrun, ⟨hgrows.dir _ hpart.root, fun q hq => ?_, fun q c x hq => ?_⟩, hdirs⟩
    · by_cases hmem : nyrunPlace ++ q ∈ trail u.cwd (way rel)
      · exact hold hmem
      · rw [mkdirs_stat_eq hmk hmem] at hq
        exact hpart.dirs q hq
    · exact hpart.files q c x ((file_mkdirs hmk).1 hq)
  · exact absurd hopen hno

/-- A file that was backed up can be written again. -/
theorem write_entry {path : String} {c : Bytes} {x : Bool} (hpart : Partly t u)
    (hpath : components path = way rel) (habs : isAbsolute path = true)
    (hdirs : ∀ p ∈ trail u.cwd ((parent path).getD []), u.stat p = some .dir)
    (hnames : namesDir path = false) (hskip : skipped (nyrunPlace ++ rel) = false)
    (hfile : t.stat (nyrunPlace ++ rel) = some (.file c x)) :
    ∃ u', write path c u = .ok () u' ∧ Partly t u' ∧
      ∃ y, u'.stat (nyrunPlace ++ rel) = some (.file c y) := by
  have hnotdir : u.stat (nyrunPlace ++ rel) ≠ some .dir := by
    intro hdir
    have hold := hpart.dirs rel hdir
    rw [hfile] at hold
    cases hold
  obtain ⟨hres, hw⟩ := (written_iff habs hdirs (nyrunPlace ++ rel)).2
    ⟨by rw [hpath, lexical_way], hnames, hnotdir⟩
  have hput (y : Bool) (room : u.Room (nyrunPlace ++ rel) (.file c y)) :
      Partly t (u.put (nyrunPlace ++ rel) (.file c y) room) ∧
        ∃ z, (u.put (nyrunPlace ++ rel) (.file c y) room).stat (nyrunPlace ++ rel) =
          some (.file c z) := by
    refine ⟨⟨(grows_put room).dir _ hpart.root, fun q hq => ?_, fun q c' z hq => ?_⟩, y, by simp⟩
    · rw [stat_put] at hq
      split at hq
      · cases hq
      · exact hpart.dirs q hq
    · rw [stat_put] at hq
      split at hq
      · rename_i heq
        cases hq
        rw [heq]
        exact ⟨hskip, x, hfile⟩
      · exact hpart.files q c' z hq
  unfold write writeAt
  rw [run_get_bind, hres]
  simp only [run_get_bind]
  rcases u.stat (nyrunPlace ++ rel) with _ | _ | ⟨c', y⟩
  · exact ⟨_, dif_pos hw, hput false hw⟩
  · exact ⟨_, dif_pos hw, hput false hw⟩
  · exact ⟨_, dif_pos hw, hput y hw⟩

theorem restoreFile_ok {path : String} {c : Bytes} {x : Bool} (hne : rel ≠ [])
    (hpart : Partly t u) (hpath : components path = way rel) (habs : isAbsolute path = true)
    (hnames : namesDir path = false) (hskip : skipped (nyrunPlace ++ rel) = false)
    (hfile : t.stat (nyrunPlace ++ rel) = some (.file c x)) :
    ∃ u', restoreFile path (.ok c) u = .ok () u' ∧ Partly t u' ∧
      ∃ y, u'.stat (nyrunPlace ++ rel) = some (.file c y) := by
  obtain ⟨above, n, rfl⟩ := (List.eq_nil_or_concat rel).resolve_left hne
  rw [List.concat_eq_append] at hpath hfile
  have hparent : (parent path).getD [] = way above := by
    unfold parent
    rw [hpath, way, List.map_append, ← List.append_assoc, List.map_singleton,
      List.getLast?_concat, List.dropLast_concat]
    rfl
  have hdir : t.stat (nyrunPlace ++ above) = some .dir := by
    rw [← List.append_assoc] at hfile
    exact t.parent_dir hfile
  obtain ⟨u₁, hmk, hpart₁, hdirs⟩ := makeDir_way hpart hdir
  have hcwd : u₁.cwd = u.cwd := ((respects_makeDir kept_grows _).of_ok hmk).cwd
  rw [List.concat_eq_append] at hskip ⊢
  obtain ⟨u₂, hwrite, hu₂⟩ := write_entry hpart₁ hpath habs
    (by rw [hparent, hcwd]; exact hdirs) hnames hskip hfile
  refine ⟨u₂, ?_, hu₂⟩
  unfold restoreFile
  simp only [hparent, run_bind, hmk, demand, run_pure, run_mapError, hwrite]

/-- Whatever part of the tree has been restored, the next entry can be restored too. -/
theorem restoreEntry_ok (hnamed : NamedBelow t) (hne : rel ≠ []) (hpart : Partly t u)
    (h : entryOf t (nyrunPlace ++ rel) = some w) :
    ∃ u', restoreEntry (.ok w.entry) u = .ok () u' ∧ Partly t u' ∧ Has t u' rel := by
  have hrel := hnamed rel (isSome_of_entryOf h)
  have hpath := components_entry hne hrel h
  have habs : isAbsolute (join nyrunDir w.name) = true := isAbsolute_join _ (by decide)
  have hrun : restoreEntry (.ok w.entry) u =
      if w.entry.isDir then makeDir (way rel) u
      else restoreFile (join nyrunDir w.name) (.ok w.content) u := by
    have hguard : startsWith (join nyrunDir w.entry.name) nyrunDir = true :=
      startsWith_entry hne hrel h
    have hway : components (join nyrunDir w.entry.name) = way rel := hpath
    unfold restoreEntry
    simp only [demand, run_bind, run_pure]
    rw [if_neg (not_not_intro hguard), hway]
    split <;> rfl
  rw [hrun]
  rcases entryOf_some h with ⟨hdir, hw⟩ | ⟨c, x, hfile, hskip, hw⟩
  · rw [if_pos ((isDir_entry hne hrel h).2 hdir)]
    obtain ⟨u', hmk, hpart', hdirs⟩ := makeDir_way hpart hdir
    have hmem : nyrunPlace ++ rel ∈ trail u.cwd (way rel) := by
      rw [← lexical_way u.cwd rel]
      refine lexical_mem_trail fun hnil => ?_
      have hhead := head_way rel
      rw [hnil] at hhead
      cases hhead
    exact ⟨u', hmk, hpart', fun _ => hdirs _ hmem, fun c x hfile => by rw [hdir] at hfile; cases hfile⟩
  · have hnot : ¬w.entry.isDir = true := by
      rw [isDir_entry hne hrel h, hfile]
      simp
    rw [if_neg hnot]
    have hcontent : w.content = c := by rw [hw]
    obtain ⟨u', hrestore, hpart', y, hy⟩ := restoreFile_ok hne hpart hpath habs
      (namesDir_entry hne hrel h hfile) hskip hfile
    refine ⟨u', by rw [hcontent, hrestore], hpart', fun hdir => ?_, fun c' x' hfile' => ?_⟩
    · rw [hfile] at hdir
      cases hdir
    · rw [hfile] at hfile'
      cases hfile'
      exact ⟨y, hy⟩

/-- The loop over the entries. -/
theorem restoreEntries_ok (hnamed : NamedBelow t) {ws : List Written}
    (hws : ∀ w ∈ ws, ∃ rel, rel ≠ [] ∧ entryOf t (nyrunPlace ++ rel) = some w)
    (hpart : Partly t u) :
    ∃ u', forEach (ws.map fun w => .ok w.entry) restoreEntry u = .ok () u' ∧ Partly t u' ∧
      ∀ w ∈ ws, ∀ rel, entryOf t (nyrunPlace ++ rel) = some w → rel ≠ [] → Has t u' rel := by
  induction ws generalizing u with
  | nil => exact ⟨u, rfl, hpart, fun w hw => nomatch hw⟩
  | cons w ws ih =>
    obtain ⟨rel, hne, hw⟩ := hws w List.mem_cons_self
    obtain ⟨u₁, hrun, hpart₁, hhas⟩ := restoreEntry_ok hnamed hne hpart hw
    obtain ⟨u₂, hrest, hpart₂, hall⟩ :=
      ih (fun v hv => hws v (List.mem_cons_of_mem w hv)) hpart₁
    have hgrows : Grows u₁ u₂ :=
      (Respects.forEach Grows.refl Grows.trans _ fun e _ =>
        respects_restoreEntry kept_grows e).of_ok hrest
    refine ⟨u₂, ?_, hpart₂, fun v hv rel' hv' hne' => ?_⟩
    · rw [List.map_cons, forEach, run_bind, hrun]
      exact hrest
    · rcases List.mem_cons.1 hv with rfl | hv
      · rw [entryOf_inj hnamed hv' hw rfl]
        exact hhas.grows hgrows hpart₂
      · exact hall v hv rel' hv' hne'

end

/-! ## There and back -/

/-- The directory is empty, or missing with nothing in the way. -/
structure Fresh (t : FileTree) : Prop where
  way : ∀ p ∈ trail t.cwd (components nyrunDir), t.Open p = true
  empty : ∀ n, t.stat (nyrunPlace ++ [n]) = none

/-- Before the first entry nothing has been restored. -/
theorem partly_fresh {t u : FileTree} (hdir : t.stat nyrunPlace = some .dir) (h : Fresh u) :
    ∃ u', createDirAll (components nyrunDir) u = .ok nyrunPlace u' ∧ Partly t u' := by
  have hhead := head?_components (p := nyrunDir) (by decide)
  have hplace : lexical u.cwd (components nyrunDir) = nyrunPlace := by
    have h := lexical_way u.cwd []
    rwa [way, List.map_nil, List.append_nil, List.append_nil] at h
  obtain ⟨u', hmk⟩ := (mkdirs_isOk_iff (.inr hhead)).2 h.way
  rw [hplace] at hmk
  obtain ⟨-, hdirs⟩ := mkdirs_ok hmk
  have hroot : u'.stat nyrunPlace = some .dir := by
    refine hdirs _ ?_
    rw [← hplace]
    exact lexical_mem_trail (by rw [components_nyrunDir]; simp)
  have hnone (n : String) (rel : Place) : u'.stat (nyrunPlace ++ n :: rel) = none := by
    rw [Option.eq_none_iff_forall_ne_some]
    intro node hnode
    have hsome := mem_children.1 (mem_children_of_below hnode)
    rw [mkdirs_stat_eq hmk, h.empty] at hsome
    · cases hsome
    · intro hmem
      have hway : nyrunPlace ++ [n] ∈ trail u.cwd (way []) := by
        rwa [way, List.map_nil, List.append_nil]
      rcases mem_trail_way hway with hpre | ⟨front, back, hsplit, hplace'⟩
      · exact absurd hpre.length_le (by simp)
      · obtain ⟨rfl, -⟩ := List.append_eq_nil_iff.1 hsplit.symm
        simp at hplace'
  refine ⟨u', hmk, hroot, fun rel hrel => ?_, fun rel c x hrel => ?_⟩
  · cases rel with
    | nil => rwa [List.append_nil]
    | cons n rel => rw [hnone] at hrel; cases hrel
  · cases rel with
    | nil => rw [List.append_nil, hroot] at hrel; cases hrel
    | cons n rel => rw [hnone] at hrel; cases hrel

/-- A part that has every entry is the whole. -/
theorem restored_of_has {t u : FileTree} (hdir : t.stat nyrunPlace = some .dir)
    (hpart : Partly t u)
    (h : ∀ rel w, rel ≠ [] → entryOf t (nyrunPlace ++ rel) = some w → Has t u rel) :
    Restored t u := by
  refine ⟨fun rel => ⟨hpart.dirs rel, fun hrel => ?_⟩, fun rel c => ⟨?_, ?_⟩⟩
  · by_cases hne : rel = []
    · rw [hne, List.append_nil]
      exact hpart.root
    · exact (h rel _ hne (entryOf_dir hrel)).dir hrel
  · rintro ⟨x, hx⟩
    exact hpart.files rel c x hx
  · rintro ⟨hskip, x, hx⟩
    have hne : rel ≠ [] := by
      rintro rfl
      rw [List.append_nil, hdir] at hx
      cases hx
    have hentry := entryOf_file hx
    rw [hskip] at hentry
    exact (h rel _ hne hentry).file c x hx

def Written.toNats (w : Written) : List Nat × List Nat :=
  (w.name.toList.map Char.toNat, w.content.map UInt8.toNat)

def Written.ofNats (e : List Nat × List Nat) : Written :=
  ⟨String.ofList (e.1.map Char.ofNat), e.2.map UInt8.ofNat⟩

theorem Written.ofNats_toNats (w : Written) : ofNats w.toNats = w := by
  simp [ofNats, toNats, Function.comp_def]

instance : Encodable Written := .ofLeftInverse Written.toNats Written.ofNats Written.ofNats_toNats

/-- An archive as one number, in as many zeros. -/
def countZip : ZipWriter where
  addDirectory _ _ := .ok ()
  startFile _ _ := .ok ()
  writeAll _ _ := .ok ()
  finish ws := .ok (List.replicate (Encodable.encode ws) 0)
  flushed _ := []

def openCount : OpenZip
  | .error e => .error e
  | .ok bytes => match Encodable.decode (α := List Written) bytes.length with
    | some ws => .ok (ws.map fun w => .ok w.entry)
    | none => .error "invalid Zip archive"

theorem verbatim_countZip : Verbatim countZip openCount := by
  refine ⟨fun _ _ _ => rfl, fun _ _ _ => rfl, fun _ _ => rfl, fun ws _ => ⟨_, rfl, ?_⟩⟩
  simp only [openCount, List.length_replicate, Encodable.encodek]

/-- A disk with an app directory, a state file and a socket. -/
def nyrunDisk : FileTree :=
  final (do
    let _ ← createDirAll (components "/var/run/nyrun/apps")
    write "/var/run/nyrun/state.json" [1]
    write "/var/run/nyrun/daemon.sock" []) .empty

theorem room_backup (bytes : Bytes) : FileTree.empty.Room ["b.zip"] (.file bytes false) :=
  ⟨by simp, rfl, rfl⟩

/-- An empty disk but for a backup. -/
def backupOnly (bytes : Bytes) : FileTree :=
  FileTree.empty.put ["b.zip"] (.file bytes false) (room_backup bytes)

theorem read_backupOnly (bytes : Bytes) : (backupOnly bytes).read "/b.zip" = .ok bytes := by
  have hfind : (backupOnly bytes).find "/b.zip" = some (["b.zip"], .file bytes false) := by
    have hcs : components "/b.zip" = [.root, .normal "b.zip"] := by decide +kernel
    refine find_eq_some.2 ⟨by decide, ?_, fun h => absurd h (by decide +kernel), ?_⟩
    · rw [hcs]
      simp [walk, advance]
    · rw [backupOnly, stat_put, if_pos rfl]
  rw [FileTree.read, hfind]

theorem fresh_backupOnly (bytes : Bytes) : Fresh (backupOnly bytes) := by
  have hstat (p : Place) (hp : p ≠ ["b.zip"]) : (backupOnly bytes).stat p = FileTree.empty.stat p := by
    rw [backupOnly, stat_put, if_neg hp]
  have hempty (p : Place) (hp : p ≠ []) : FileTree.empty.stat p = none := by
    rw [stat_of_ne _ hp]
    rfl
  refine ⟨fun p hp => ?_, fun n => ?_⟩
  · have hway : p ∈ trail (backupOnly bytes).cwd (way []) := by
      rwa [way, List.map_nil, List.append_nil]
    rw [open_iff]
    by_cases hroot : p = []
    · exact .inr (by rw [hroot]; rfl)
    · left
      rw [hstat p ?_, hempty p hroot]
      rintro rfl
      rcases mem_trail_way hway with hpre | ⟨front, back, hsplit, heq⟩
      · exact absurd hpre (by decide)
      · simp [nyrunPlace] at heq
  · rw [hstat _ (by simp [nyrunPlace]), hempty _ (by simp)]

end Backup
