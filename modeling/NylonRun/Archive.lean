import NylonRun.Backup
import NylonRun.Lib.Listing

/-!
# Backing up, and the way back

`create_backup` (src/main.rs:677-739). The writer of the zip crate is a parameter, over what it
has been given so far; `Verbatim` says what the crate promises: the archive it finishes is read
back entry by entry, and a name that ends in a separator is that of a directory.
-/

open UnixPath FileTree Effect

namespace Backup

/-- An entry as the writer is given it. -/
structure Written where
  name : String
  content : Bytes

/-- `zip::ZipWriter`. -/
structure ZipWriter where
  addDirectory : List Written → String → Except String Unit
  startFile : List Written → String → Except String Unit
  writeAll : List Written → Bytes → Except String Unit
  finish : List Written → Except String Bytes
  /-- What has reached the file before the archive is finished. -/
  flushed : List Written → Bytes

/-- An entry as it is read back. -/
def Written.entry (w : Written) : ZipEntry where
  name := w.name
  isDir := Text.endsWith w.name "/"
  content := .ok w.content

/-- The path below the directory, as `Path::display` shows it. -/
def relative (path : Place) : String := "/".intercalate (path.drop nyrunPlace.length)

/-- src/main.rs:718-721. -/
def skipped (path : Place) : Bool :=
  let name := path.getLast?.getD ""
  Text.endsWith name ".sock" || Text.endsWith name ".pid"

/-- One more entry, as far as it reaches the file. -/
def record (zip : ZipWriter) (out : Place) (ws : List Written) (w : Written)
    (f : String → String) : Fs (List Written) := do
  mapError f (writeAt out (zip.flushed (ws ++ [w])))
  return ws ++ [w]

def contentOf : Option Node → Except String Bytes
  | some (.file content _) => .ok content
  | some .dir => .error "Is a directory (os error 21)"
  | none => .error "No such file or directory (os error 2)"

/-- One entry of a directory (src/main.rs:701-730). -/
def walkEntry (zip : ZipWriter) (out : Place) (walk : Place → List Written → Fs (List Written))
    (path : Place) (ws : List Written) : Fs (List Written) := do
  let node := (← get).stat path
  if node = some .dir then
    demand (fun e => s!"zip add dir error: {e}") (zip.addDirectory ws (relative path ++ "/"))
    let ws ← record zip out ws ⟨relative path ++ "/", []⟩ fun e => s!"zip add dir error: {e}"
    walk path ws
  else if skipped path then return ws
  else
    demand (fun e => s!"zip start file error: {e}") (zip.startFile ws (relative path))
    let content ← demand (fun e => s!"read file error {render path}: {e}") (contentOf node)
    demand (fun e => s!"zip write error: {e}") (zip.writeAll ws content)
    record zip out ws ⟨relative path, content⟩ fun e => s!"zip write error: {e}"

/-- `walk_dir` (src/main.rs:698-733). The fuel is a number of levels. -/
def walkDir (zip : ZipWriter) (out : Place) : Nat → Place → List Written → Fs (List Written)
  | 0, _, _ => throw "failed to read dir: File name too long (os error 36)"
  | fuel + 1, current, ws => do
    match (← get).stat current with
    | some .dir =>
      ((← get).children current).foldlM
        (fun ws n => walkEntry zip out (walkDir zip out fuel) (current ++ [n]) ws) ws
    | some (.file _ _) => throw "failed to read dir: Not a directory (os error 20)"
    | none => throw "failed to read dir: No such file or directory (os error 2)"

/-- `std::fs::File::create`. -/
def createFile (path : String) : Fs Place := do
  match (← get).resolve path with
  | some q => do
    writeAt q []
    return q
  | none => throw "No such file or directory (os error 2)"

/-- src/main.rs:686-690. -/
def outputPath (outputName : String) : String :=
  if Text.endsWith outputName ".zip" then outputName else outputName ++ ".zip"

/-- `create_backup` (src/main.rs:677-739). -/
def createBackup (zip : ZipWriter) (outputName : String) : Fs String := do
  if ¬ (← get).pathExists nyrunDir then throw "nyrun directory /var/run/nyrun does not exist"
  let out ← mapError (fun e => s!"failed to create {outputPath outputName}: {e}")
    (createFile (outputPath outputName))
  let ws ← walkDir zip out ((← get).height + 1) nyrunPlace []
  let bytes ← demand (fun e => s!"zip finish error: {e}") (zip.finish ws)
  mapError (fun e => s!"zip finish error: {e}") (writeAt out bytes)
  return outputPath outputName

/-- What the zip crate promises for entries of different names. -/
structure Verbatim (zip : ZipWriter) (openZip : OpenZip) : Prop where
  addDirectory : ∀ ws name, name ∉ ws.map Written.name → zip.addDirectory ws name = .ok ()
  startFile : ∀ ws name, name ∉ ws.map Written.name → zip.startFile ws name = .ok ()
  writeAll : ∀ ws content, zip.writeAll ws content = .ok ()
  reads : ∀ ws, (ws.map Written.name).Nodup → ∃ bytes, zip.finish ws = .ok bytes ∧
    openZip (.ok bytes) = .ok (ws.map fun w => .ok w.entry)

/-! ## What is written -/

/-- The entry for a place. -/
def entryOf (t : FileTree) (p : Place) : Option Written :=
  match t.stat p with
  | some .dir => some ⟨relative p ++ "/", []⟩
  | some (.file content _) => if skipped p then none else some ⟨relative p, content⟩
  | none => none

theorem entryOf_dir {t : FileTree} {p : Place} (h : t.stat p = some .dir) :
    entryOf t p = some ⟨relative p ++ "/", []⟩ := by rw [entryOf, h]

theorem entryOf_file {t : FileTree} {p : Place} {c : Bytes} {x : Bool}
    (h : t.stat p = some (.file c x)) :
    entryOf t p = if skipped p then none else some ⟨relative p, c⟩ := by rw [entryOf, h]

/-- The entries for all that lies below a place. -/
def entriesBelow (t : FileTree) (fuel : Nat) (p : Place) : List Written :=
  (t.descendants fuel p).filterMap (entryOf t)

/-- Below the directory two trees are the same, and are listed in the same order. -/
def Alike (t t' : FileTree) : Prop :=
  ∀ p, nyrunPlace <+: p → t'.stat p = t.stat p ∧ t'.children p = t.children p

theorem Alike.trans {t t' t'' : FileTree} (h : Alike t t') (h' : Alike t' t'') : Alike t t'' := by
  intro p hp
  obtain ⟨hstat, hchildren⟩ := h p hp
  obtain ⟨hstat', hchildren'⟩ := h' p hp
  exact ⟨hstat'.trans hstat, hchildren'.trans hchildren⟩

/-- The backup is written outside the directory. -/
theorem writeAt_outside {t : FileTree} {out : Place} (hout : ¬nyrunPlace <+: out)
    (hw : t.Writable out) (content : Bytes) :
    ∃ t', writeAt out content t = .ok () t' ∧ Alike t t' ∧ t'.Writable out ∧
      ∃ x, t'.stat out = some (.file content x) := by
  have hput (x : Bool) (room : t.Room out (.file content x)) :
      Alike t (t.put out (.file content x) room) ∧
        (t.put out (.file content x) room).Writable out ∧
        ∃ y, (t.put out (.file content x) room).stat out = some (.file content y) := by
    have hstat : (t.put out (.file content x) room).stat out = some (.file content x) := by simp
    refine ⟨fun p hp => ⟨?_, ?_⟩, ⟨room.1, FileTree.dropLast_dir _ hstat, ?_⟩, x, hstat⟩
    · rw [stat_put, if_neg]
      rintro rfl
      exact hout hp
    · refine children_put room fun h => hout ?_
      exact (h ▸ hp).trans (List.dropLast_prefix out)
    · rw [hstat]
      rfl
  unfold writeAt
  rw [run_get_bind]
  rcases t.stat out with _ | _ | ⟨c, x⟩
  · exact ⟨_, dif_pos hw, hput false hw⟩
  · exact ⟨_, dif_pos hw, hput false hw⟩
  · exact ⟨_, dif_pos hw, hput x hw⟩

/-- A part of the walk adds its entries to those before, and touches only the backup. -/
def Adds (t : FileTree) (out : Place) (walk : List Written → Fs (List Written))
    (l : List Written) : Prop :=
  ∀ ws u, Alike t u → u.Writable out → ((ws ++ l).map Written.name).Nodup →
    ∃ u', walk ws u = .ok (ws ++ l) u' ∧ Alike t u' ∧ u'.Writable out

theorem adds_foldlM {t : FileTree} {out : Place} {f : List Written → String → Fs (List Written)}
    {g : String → List Written} {ns : List String}
    (h : ∀ n ∈ ns, Adds t out (fun ws => f ws n) (g n)) :
    Adds t out (fun ws => ns.foldlM f ws) (ns.flatMap g) := by
  induction ns with
  | nil =>
    intro ws u hu hw _
    exact ⟨u, by simp, hu, hw⟩
  | cons n ns ih =>
    intro ws u hu hw hnodup
    rw [List.flatMap_cons, ← List.append_assoc] at hnodup ⊢
    have hfirst : ((ws ++ g n).map Written.name).Nodup := by
      rw [List.map_append] at hnodup
      exact hnodup.of_append_left
    obtain ⟨u₁, hrun, hu₁, hw₁⟩ := h n List.mem_cons_self ws u hu hw hfirst
    obtain ⟨u₂, hrest, hu₂⟩ :=
      ih (fun m hm => h m (List.mem_cons_of_mem n hm)) (ws ++ g n) u₁ hu₁ hw₁ hnodup
    refine ⟨u₂, ?_, hu₂⟩
    simp only [List.foldlM_cons, run_bind, hrun]
    exact hrest

section

variable {zip : ZipWriter} {openZip : OpenZip} (hzip : Verbatim zip openZip) {t : FileTree}
  {out : Place} (hout : ¬nyrunPlace <+: out)

variable (zip) in
include hout in
theorem adds_record (w : Written) (f : String → String) :
    Adds t out (fun ws => record zip out ws w f) [w] := by
  intro ws u hu hw _
  obtain ⟨u', hrun, hu', hw', -⟩ := writeAt_outside hout hw (zip.flushed (ws ++ [w]))
  exact ⟨u', by simp [record, run_mapError, hrun], hu.trans hu', hw'⟩

/-- A name that is still to come is not there yet. -/
theorem name_notMem {ws l : List Written} {w : Written}
    (h : ((ws ++ w :: l).map Written.name).Nodup) : w.name ∉ ws.map Written.name := by
  rw [List.map_append, List.map_cons] at h
  exact fun hmem => (List.disjoint_of_nodup_append h) hmem List.mem_cons_self

include hzip hout

theorem adds_walkEntry {walk : Place → List Written → Fs (List Written)} {path : Place}
    {below : List Written} (hpath : nyrunPlace <+: path) (hsome : (t.stat path).isSome)
    (hdir : t.stat path = some .dir → Adds t out (walk path) below)
    (hfile : t.stat path ≠ some .dir → below = []) :
    Adds t out (walkEntry zip out walk path) ((entryOf t path).toList ++ below) := by
  intro ws u hu hw hnodup
  have hstat := (hu path hpath).1
  unfold walkEntry
  rw [run_get_bind, hstat]
  rcases ht : t.stat path with _ | _ | ⟨c, x⟩
  · rw [ht] at hsome
    cases hsome
  · rw [entryOf_dir ht, Option.toList_some, List.singleton_append] at hnodup ⊢
    have hsplit (w : Written) : ws ++ w :: below = ws ++ [w] ++ below := by simp
    have hfirst : ((ws ++ [(⟨relative path ++ "/", []⟩ : Written)]).map Written.name).Nodup := by
      rw [hsplit, List.map_append] at hnodup
      exact hnodup.of_append_left
    obtain ⟨u₁, hrec, hu₁, hw₁⟩ := adds_record zip (t := t) hout _
      (fun e => s!"zip add dir error: {e}") ws u hu hw hfirst
    obtain ⟨u₂, hwalk, hu₂⟩ := hdir ht _ u₁ hu₁ hw₁ (by rwa [← hsplit])
    replace hrec : record zip out ws _ _ u = _ := hrec
    refine ⟨u₂, ?_, hu₂⟩
    rw [if_pos rfl, hzip.addDirectory ws _ (name_notMem hnodup), hsplit]
    simp only [demand, run_bind, run_pure, hrec]
    exact hwalk
  · obtain rfl : below = [] := hfile (by rw [ht]; simp)
    rw [if_neg (by simp)]
    rw [entryOf_file ht] at hnodup ⊢
    by_cases hskip : skipped path = true
    · rw [if_pos hskip, if_pos hskip]
      exact ⟨u, by simp, hu, hw⟩
    · rw [if_neg hskip, if_neg hskip, Option.toList_some, List.append_nil]
      rw [if_neg hskip, Option.toList_some, List.append_nil] at hnodup
      obtain ⟨u₁, hrec, hu₁⟩ := adds_record zip (t := t) hout _
        (fun e => s!"zip write error: {e}") ws u hu hw hnodup
      refine ⟨u₁, ?_, hu₁⟩
      rw [hzip.startFile ws _ (name_notMem hnodup)]
      simp only [demand, contentOf, run_bind, run_pure, hzip.writeAll]
      exact hrec

omit hzip hout in
theorem descendants_file {p : Place} (h : t.stat p ≠ some .dir) (fuel : Nat) :
    t.descendants fuel p = [] := by
  rw [List.eq_nil_iff_forall_not_mem]
  intro q hq
  obtain ⟨⟨n, rel, rfl⟩, hsome⟩ := mem_descendants hq
  obtain ⟨node, hnode⟩ := Option.isSome_iff_exists.1 hsome
  exact h (ancestor_dir hnode (by simp))

/-- The walk writes an entry for each directory and each file, but the skipped ones. -/
theorem adds_walkDir {fuel : Nat} {p : Place} (hp : nyrunPlace <+: p)
    (hdir : t.stat p = some .dir) (hfuel : t.height < fuel + p.length) :
    Adds t out (walkDir zip out fuel p) (entriesBelow t fuel p) := by
  induction fuel generalizing p with
  | zero =>
    have hlength := length_le_height (t := t) (p := p) (by rw [hdir]; rfl)
    omega
  | succ fuel ih =>
    intro ws u hu hw hnodup
    obtain ⟨hstat, hchildren⟩ := hu p hp
    have hentries : entriesBelow t (fuel + 1) p = (t.children p).flatMap fun n =>
        (entryOf t (p ++ [n])).toList ++ entriesBelow t fuel (p ++ [n]) := by
      unfold entriesBelow
      rw [descendants, List.filterMap_flatMap]
      refine List.flatMap_congr fun n _ => ?_
      rw [List.filterMap_cons]
      cases entryOf t (p ++ [n]) <;> rfl
    rw [hentries] at hnodup ⊢
    rw [walkDir, run_get_bind, hstat, hdir]
    simp only [run_bind, run_get, hchildren]
    refine adds_foldlM (fun n hn => ?_) ws u hu hw hnodup
    have hpath : nyrunPlace <+: p ++ [n] := hp.trans (List.prefix_append p [n])
    refine adds_walkEntry hzip hout hpath (mem_children.1 hn) (fun hdir' => ?_) fun hfile => ?_
    · refine ih hpath hdir' ?_
      rw [List.length_append, List.length_singleton]
      omega
    · unfold entriesBelow
      rw [descendants_file hfile, List.filterMap_nil]

end

/-! ## The names of the entries -/

theorem ofSegment_fileName {n : String} (h : FileName n) : ofSegment n = some (.normal n) := by
  rw [ofSegment, if_neg h.nonempty, if_neg h.notCur, if_neg h.notParent]

theorem segments_names {rel : Place} (hne : rel ≠ []) (h : Named rel) :
    segments ("/".intercalate rel) = rel :=
  segments_intercalate hne fun n hn => (h n hn).noSlash

theorem names_intercalate {rel : Place} (h : Named rel) :
    names ("/".intercalate rel) = rel.map .normal := by
  by_cases hne : rel = []
  · subst hne
    rfl
  · rw [names, segments_names hne h]
    clear hne
    induction rel with
    | nil => rfl
    | cons n rel ih =>
      rw [List.filterMap_cons_some (ofSegment_fileName (h n List.mem_cons_self)), List.map_cons,
        ih fun m hm => h m (List.mem_cons_of_mem n hm)]

@[simp] theorem relative_append (rel : Place) :
    relative (nyrunPlace ++ rel) = "/".intercalate rel := by
  rw [relative, List.drop_left]

/-- The places below the directory have names that a file system takes. -/
def NamedBelow (t : FileTree) : Prop :=
  ∀ rel, (t.stat (nyrunPlace ++ rel)).isSome → Named rel

section

variable {t : FileTree} {rel : Place} {w : Written}

theorem entryOf_some (h : entryOf t (nyrunPlace ++ rel) = some w) :
    (t.stat (nyrunPlace ++ rel) = some .dir ∧ w = ⟨"/".intercalate rel ++ "/", []⟩) ∨
      ∃ c x, t.stat (nyrunPlace ++ rel) = some (.file c x) ∧ skipped (nyrunPlace ++ rel) = false ∧
        w = ⟨"/".intercalate rel, c⟩ := by
  rcases ht : t.stat (nyrunPlace ++ rel) with _ | _ | ⟨c, x⟩
  · rw [entryOf, ht] at h
    cases h
  · rw [entryOf_dir ht, relative_append] at h
    exact .inl ⟨rfl, (Option.some.inj h).symm⟩
  · rw [entryOf_file ht, relative_append] at h
    by_cases hskip : skipped (nyrunPlace ++ rel) = true
    · rw [if_pos hskip] at h
      cases h
    · rw [if_neg hskip] at h
      exact .inr ⟨c, x, rfl, by simpa using hskip, (Option.some.inj h).symm⟩

theorem names_entry (hnamed : Named rel) (h : entryOf t (nyrunPlace ++ rel) = some w) :
    names w.name = rel.map .normal := by
  rcases entryOf_some h with ⟨-, rfl⟩ | ⟨c, x, -, -, rfl⟩
  · rw [names_slash, names_intercalate hnamed]
  · exact names_intercalate hnamed

theorem entryOf_congr {t' : FileTree} {p : Place} (h : t'.stat p = t.stat p) :
    entryOf t' p = entryOf t p := by
  unfold entryOf
  rw [h]

theorem isSome_of_entryOf {p : Place} (h : entryOf t p = some w) : (t.stat p).isSome := by
  unfold entryOf at h
  cases ht : t.stat p with
  | none => rw [ht] at h; cases h
  | some node => rfl

/-- The entries of the whole directory. -/
theorem mem_entriesBelow_iff :
    w ∈ entriesBelow t (t.height + 1) nyrunPlace ↔
      ∃ rel, rel ≠ [] ∧ entryOf t (nyrunPlace ++ rel) = some w := by
  constructor
  · intro h
    obtain ⟨p, hp, hw⟩ := List.mem_filterMap.1 h
    obtain ⟨⟨n, rel, rfl⟩, -⟩ := mem_descendants hp
    exact ⟨n :: rel, by simp, hw⟩
  · rintro ⟨rel, hne, hw⟩
    have hsome := isSome_of_entryOf hw
    have hlength := length_le_height hsome
    rw [List.length_append] at hlength
    exact List.mem_filterMap.2 ⟨_, descendants_complete hne (by omega) hsome, hw⟩

/-- Entries for different places have different names. -/
theorem entryOf_inj (hnamed : NamedBelow t) {rel' : Place} {w' : Written}
    (h : entryOf t (nyrunPlace ++ rel) = some w) (h' : entryOf t (nyrunPlace ++ rel') = some w')
    (heq : w.name = w'.name) : rel = rel' := by
  have hnames := names_entry (hnamed _ (isSome_of_entryOf h)) h
  rw [heq, names_entry (hnamed _ (isSome_of_entryOf h')) h'] at hnames
  exact (List.map_injective_iff.2 (fun _ _ h => by cases h; rfl) hnames).symm

theorem nodup_entriesBelow (hnamed : NamedBelow t) (fuel : Nat) :
    ((entriesBelow t fuel nyrunPlace).map Written.name).Nodup := by
  unfold entriesBelow
  rw [List.Nodup, List.pairwise_map, List.pairwise_filterMap]
  refine (nodup_descendants t fuel nyrunPlace).imp_of_mem fun {p q} hp hq hne w hw w' hw' heq => ?_
  obtain ⟨⟨n, rel, rfl⟩, -⟩ := mem_descendants hp
  obtain ⟨⟨n', rel', rfl⟩, -⟩ := mem_descendants hq
  exact hne (congrArg (nyrunPlace ++ ·) (entryOf_inj hnamed hw hw' heq))

end

/-- The directory is found by its path. -/
theorem pathExists_nyrunDir {t : FileTree} (h : t.stat nyrunPlace = some .dir) :
    t.pathExists nyrunDir = true := by
  have hway : ∀ q ∈ trail t.cwd (components nyrunDir), t.stat q = some .dir := by
    have htrail : trail t.cwd (components nyrunDir) =
        [[], ["var"], ["var", "run"], ["var", "run", "nyrun"]] := by
      rw [trail_of_root (head?_components (by decide))]
      decide +kernel
    have hrun : t.stat ["var", "run"] = some .dir := t.dropLast_dir h
    have hvar : t.stat ["var"] = some .dir := t.dropLast_dir hrun
    rw [htrail]
    simp only [List.forall_mem_cons, stat_root, hvar, hrun, true_and]
    exact ⟨h, fun q hq => nomatch hq⟩
  exact pathExists_iff.2 ⟨_, find_of_trail (by decide) hway⟩

theorem NamedBelow.of_alike {t t' : FileTree} (h : NamedBelow t) (halike : Alike t t') :
    NamedBelow t' := by
  intro rel hsome
  rw [(halike _ (List.prefix_append nyrunPlace rel)).1] at hsome
  exact h rel hsome

/-- A backup written outside the directory succeeds, leaves the directory alone, and is read back
as an entry for each directory and each file that is not skipped. -/
theorem createBackup_ok {zip : ZipWriter} {openZip : OpenZip} (hzip : Verbatim zip openZip)
    {t : FileTree} (hnamed : NamedBelow t) (hdir : t.stat nyrunPlace = some .dir)
    {outputName : String} {out : Place} (hpath : t.resolve (outputPath outputName) = some out)
    (hw : t.Writable out) (hout : ¬nyrunPlace <+: out) :
    ∃ (t' : FileTree) (bytes : Bytes) (ws : List Written),
      createBackup zip outputName t = .ok (outputPath outputName) t' ∧
      Alike t t' ∧ (∃ x, t'.stat out = some (.file bytes x)) ∧
      openZip (.ok bytes) = .ok (ws.map fun w => .ok w.entry) ∧
      ∀ w, w ∈ ws ↔ ∃ rel, rel ≠ [] ∧ entryOf t (nyrunPlace ++ rel) = some w := by
  obtain ⟨t₁, hcreate, halike₁, hw₁, -⟩ := writeAt_outside hout hw []
  have hnamed₁ := hnamed.of_alike halike₁
  have hdir₁ : t₁.stat nyrunPlace = some .dir := by
    rw [(halike₁ _ List.prefix_rfl).1, hdir]
  have hnodup := nodup_entriesBelow hnamed₁ (t₁.height + 1)
  have hfuel : t₁.height < t₁.height + 1 + nyrunPlace.length := by omega
  obtain ⟨t₂, hwalk, halike₂, hw₂⟩ := adds_walkDir hzip hout List.prefix_rfl hdir₁ hfuel [] t₁
    (fun _ _ => ⟨rfl, rfl⟩) hw₁ hnodup
  obtain ⟨bytes, hfinish, hread⟩ := hzip.reads _ hnodup
  obtain ⟨t₃, hwrite, halike₃, -, hfile⟩ := writeAt_outside hout hw₂ bytes
  have halike : Alike t t₃ := (halike₁.trans halike₂).trans halike₃
  refine ⟨t₃, bytes, _, ?_, halike, hfile, hread, fun w => ?_⟩
  · have hfile : createFile (outputPath outputName) t = .ok out t₁ := by
      unfold createFile
      rw [run_get_bind, hpath]
      simp only [run_bind, hcreate, run_pure]
    rw [List.nil_append] at hwalk
    unfold createBackup
    rw [run_get_bind, if_neg (not_not_intro (pathExists_nyrunDir hdir))]
    simp only [run_bind, run_mapError, hfile, run_get, hwalk, hfinish, demand, run_pure, hwrite]
  · rw [mem_entriesBelow_iff]
    exact exists_congr fun rel => by
      rw [entryOf_congr (halike₁ _ (List.prefix_append nyrunPlace rel)).1]

end Backup
