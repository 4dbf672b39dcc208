import NylonRun.Lib.Touched
import NylonRun.Oci

/-!
# What a layer removes

The entries of a layer are checked against leaving the directory they are extracted to; a
whiteout entry is acted on before that check. So an extraction stays strictly below its
directory as far as its whiteouts do.
-/

open UnixPath FileTree Effect

namespace Oci

/-- The place that a directory's path names. -/
def placeOf (t : FileTree) (destDir : String) : Place := lexical t.cwd (components destDir)

/-- `unpack_in` keeps the promise of its documentation: it writes only below the directory. -/
structure UnpacksIn (destDir : String) (entry : TarEntry) : Prop where
  frame : ∀ t, Frame t (entry.unpackIn destDir t)
  below : ∀ t, t.stat (placeOf t destDir) = some .dir →
    AllBelow (placeOf t destDir) t (entry.unpackIn destDir t)

/-- The target of a whiteout entry, if something stands there, is strictly below the directory
once `.` and `..` are resolved. -/
def WhiteoutBelow (destDir path : String) (t : FileTree) : Prop :=
  ∀ target last, whiteoutTarget destDir path = some (target, last) →
    (t.locate target last).isSome = true → Below (placeOf t destDir) (lexical t.cwd target)

/-- Every whiteout that the extraction comes to has its target strictly below. -/
def WhiteoutsBelow (destDir : String) : List (Except String TarEntry) → FileTree → Prop
  | [], _ => True
  | entry :: entries, t =>
    (∀ e path, entry = .ok e → e.path = .ok path → WhiteoutBelow destDir path t) ∧
      ∀ t', extractEntry destDir entry t = .ok () t' → WhiteoutsBelow destDir entries t'

/-! ## The removal of one target -/

theorem run_removeTarget (target : List Component) (last : String) (t : FileTree) :
    removeTarget target last t =
      let t₁ := final (unlink (t.locate target last)) t
      .ok () (final (unlinkTree last (t₁.locate target last)) t₁) := rfl

/-- Nothing but `q` has been touched. -/
structure OnlyAt (q : Place) (t t' : FileTree) : Prop where
  frame : Frame t t'
  same : ∀ p ∈ since t t', p = q

theorem OnlyAt.refl (q : Place) (t : FileTree) : OnlyAt q t t := ⟨Frame.refl t, by simp⟩

theorem OnlyAt.trans (q : Place) (t t' t'' : FileTree) (h : OnlyAt q t t') (h' : OnlyAt q t' t'') :
    OnlyAt q t t'' := by
  refine ⟨Frame.trans _ _ _ h.frame h'.frame, fun p hp => ?_⟩
  rw [since_trans h.frame h'.frame, List.mem_append] at hp
  exact hp.elim (h.same p) (h'.same p)

theorem onlyAt_create (q : Place) (node : Node) : Respects (OnlyAt q) (create q node) := by
  intro t
  rw [final_create]
  split
  · rename_i room
    have hsince : since t (t.put q node room) = [q] := since_of_append rfl
    exact ⟨frame_put room, by simp [hsince]⟩
  · exact .refl q t

theorem onlyAt_keepDir (last : String) (q : Place) : Respects (OnlyAt q) (keepDir last q) := by
  refine .ite (.throw (.refl q) _) (.ite ?_ (.pure (.refl q) _))
  exact .bind (.trans q) (onlyAt_create q .dir) fun _ => .throw (.refl q) _

/-- The removal stays strictly below `root` exactly if what is found at the target does. -/
theorem removeTarget_below_iff (root : Place) (target : List Component) (last : String)
    (t : FileTree) :
    Frame t (final (removeTarget target last) t) ∧
      (AllBelow root t (final (removeTarget target last) t) ↔
        ((t.locate target last).isSome = true → Below root (lexical t.cwd target))) := by
  rw [final_of_ok (run_removeTarget target last t)]
  cases hfound : t.locate target last with
  | none =>
    have hsame : final (unlink none) t = t := rfl
    rw [hsame, hfound]
    exact ⟨Frame.refl t, by simp [unlinkTree, final]⟩
  | some found =>
    obtain ⟨q, node⟩ := found
    have hq : q = lexical t.cwd target := walk_lexical (locate_eq_some hfound).1
    rw [← hq, Option.isSome_some, forall_prop_of_true rfl]
    cases node with
    | file content x =>
      have hunlink : final (unlink (some (q, .file content x))) t = t.prune q := rfl
      have hgone : final (unlinkTree last none) (t.prune q) = t.prune q := rfl
      rw [hunlink, locate_prune_file hfound, hgone]
      exact ⟨frame_prune t q, allBelow_prune_iff (Frame.refl _) (by simp)⟩
    | dir =>
      have hunlink : final (unlink (some (q, .dir))) t = t := rfl
      have htree : final (unlinkTree last (some (q, .dir))) t = final (keepDir last q) (t.prune q) :=
        rfl
      obtain ⟨hframe, hsame⟩ := onlyAt_keepDir last q (t.prune q)
      rw [hunlink, hfound, htree]
      exact ⟨Frame.trans _ _ _ (frame_prune t q) hframe, allBelow_prune_iff hframe hsame⟩

/-! ## The entries -/

/-- What an extraction needs of the entries that it hands to the tar crate. -/
def Unpackable (destDir : String) (entry : Except String TarEntry) : Prop :=
  ∀ e path, entry = .ok e → e.path = .ok path → whiteoutTarget destDir path = none →
    UnpacksIn destDir e

/-- An entry is a whiteout, whose target is removed; or it is passed over or unpacked. -/
theorem extractEntry_cases (destDir : String) (entry : Except String TarEntry) (t : FileTree) :
    (∃ e path target last, entry = .ok e ∧ e.path = .ok path ∧
      whiteoutTarget destDir path = some (target, last) ∧
      final (extractEntry destDir entry) t = final (removeTarget target last) t) ∨
    ((∀ e path, entry = .ok e → e.path = .ok path → whiteoutTarget destDir path = none) ∧
      (final (extractEntry destDir entry) t = t ∨ ∃ e path, entry = .ok e ∧ e.path = .ok path ∧
        final (extractEntry destDir entry) t = e.unpackIn destDir t)) := by
  cases entry with
  | error err => exact .inr ⟨fun e path h => (by cases h), .inl rfl⟩
  | ok e =>
    cases hpath : e.path with
    | error err =>
      refine .inr ⟨fun e' path h hp => ?_, .inl ?_⟩
      · cases h
        rw [hpath] at hp
        cases hp
      · unfold extractEntry
        simp only [demand, final_bind, run_pure, hpath, run_throw]
    | ok path =>
      cases htarget : whiteoutTarget destDir path with
      | some found =>
        obtain ⟨target, last⟩ := found
        refine .inl ⟨e, path, target, last, rfl, hpath, htarget, ?_⟩
        unfold extractEntry
        simp only [demand, final_bind, run_pure, hpath, htarget]
      | none =>
        refine .inr ⟨fun e' path' h hp => ?_, ?_⟩
        · cases h
          rw [hpath] at hp
          cases hp
          exact htarget
        · unfold extractEntry
          simp only [demand, final_bind, run_pure, hpath, htarget]
          split
          · exact .inr ⟨e, path, rfl, hpath, rfl⟩
          · exact .inl rfl

theorem frame_extractEntry {destDir : String} {entry : Except String TarEntry}
    (hunpack : Unpackable destDir entry) : Respects Frame (extractEntry destDir entry) := by
  intro t
  rcases extractEntry_cases destDir entry t with
    ⟨-, -, target, last, -, -, -, hrun⟩ | ⟨hnone, hrun | ⟨e, path, he, hpath, hrun⟩⟩ <;> rw [hrun]
  · exact (removeTarget_below_iff [] target last t).1
  · exact Frame.refl t
  · exact (hunpack e path he hpath (hnone e path he hpath)).frame t

theorem extractEntry_below_iff {destDir : String} {entry : Except String TarEntry} {t : FileTree}
    (hunpack : Unpackable destDir entry) (hdest : t.stat (placeOf t destDir) = some .dir) :
    AllBelow (placeOf t destDir) t (final (extractEntry destDir entry) t) ↔
      ∀ e path, entry = .ok e → e.path = .ok path → WhiteoutBelow destDir path t := by
  rcases extractEntry_cases destDir entry t with
    ⟨e, path, target, last, rfl, hpath, htarget, hrun⟩ | ⟨hnone, hrun⟩
  · rw [hrun, (removeTarget_below_iff (placeOf t destDir) target last t).2]
    constructor
    · intro h e' path' he hp target' last' ht
      cases he
      rw [hpath] at hp
      cases hp
      rw [htarget] at ht
      cases ht
      exact h
    · intro h
      exact h e path rfl hpath target last htarget
  · have hcond : ∀ e path, entry = .ok e → e.path = .ok path → WhiteoutBelow destDir path t := by
      intro e path he hpath target last ht
      rw [hnone e path he hpath] at ht
      cases ht
    refine iff_of_true ?_ hcond
    rcases hrun with hrun | ⟨e, path, he, hpath, hrun⟩ <;> rw [hrun]
    · exact allBelow_self _ t
    · exact (hunpack e path he hpath (hnone e path he hpath)).below t hdest

/-- An extraction touches only what lies strictly below its directory exactly if every whiteout
it comes to, and whose target it finds, has that target strictly below. -/
theorem extractTarEntries_below_iff {entries : List (Except String TarEntry)} {destDir : String}
    {t : FileTree} (hunpack : ∀ entry ∈ entries, Unpackable destDir entry)
    (hdest : t.stat (placeOf t destDir) = some .dir) :
    AllBelow (placeOf t destDir) t (final (extractTarEntries entries destDir) t) ↔
      WhiteoutsBelow destDir entries t := by
  induction entries generalizing t with
  | nil => exact iff_of_true (allBelow_self _ t) trivial
  | cons entry entries ih =>
    have hiff := extractEntry_below_iff (hunpack entry List.mem_cons_self) hdest
    have hframe := frame_extractEntry (hunpack entry List.mem_cons_self) t
    have hrest : ∀ e ∈ entries, Unpackable destDir e :=
      fun e he => hunpack e (List.mem_cons_of_mem _ he)
    have hrun := final_bind (extractEntry destDir entry)
      (fun _ => extractTarEntries entries destDir) t
    change final (extractTarEntries (entry :: entries) destDir) t = _ at hrun
    rw [WhiteoutsBelow, ← hiff, hrun]
    cases hstep : extractEntry destDir entry t with
    | error e t' =>
      rw [final_of_error hstep]
      simp
    | ok _ t' =>
      rw [final_of_ok hstep] at hframe ⊢
      have hplace : placeOf t' destDir = placeOf t destDir := by rw [placeOf, hframe.cwd, placeOf]
      have hframe' : Frame t' (final (extractTarEntries entries destDir) t') :=
        Respects.forEach Frame.refl Frame.trans _ (fun e he => frame_extractEntry (hrest e he)) t'
      rw [allBelow_trans_iff hframe hframe']
      refine and_congr_right fun hbelow => ?_
      have hdest' : t'.stat (placeOf t' destDir) = some .dir := by
        rw [hplace, hbelow.stat_eq hframe, hdest]
      rw [← hplace, ih hrest hdest']
      simp

/-- The disk of an image's directory, with an old file in it and the host's own files beside. -/
def imageDisk : FileTree :=
  final (do
    let _ ← createDirAll (components "/var/run/nyrun/oci/web")
    write "/var/run/nyrun/oci/web/old" [1]
    let _ ← createDirAll (components "/etc")
    write "/etc/passwd" [2]) .empty

/-- An entry for the directory itself: nothing is unpacked for it. -/
def rootEntry : TarEntry := ⟨.ok "./", fun _ t => t⟩

def whiteoutEntry (path : String) : TarEntry := ⟨.ok path, fun _ t => t⟩

/-- The entries of a layer that takes back a file of the image. -/
def oldLayer : List (Except String TarEntry) := [.ok rootEntry, .ok (whiteoutEntry ".wh.old")]

theorem whiteoutsBelow_oldLayer {t : FileTree} (hcwd : t.cwd = []) :
    WhiteoutsBelow "/var/run/nyrun/oci/web" oldLayer t := by
  have hroot : whiteoutTarget "/var/run/nyrun/oci/web" "./" = none := by decide +kernel
  have hold : whiteoutTarget "/var/run/nyrun/oci/web" ".wh.old" =
      some (components "/var/run/nyrun/oci/web/old", "old") := by decide +kernel
  have hbelow : Below (lexical [] (components "/var/run/nyrun/oci/web"))
      (lexical [] (components "/var/run/nyrun/oci/web/old")) := by decide +kernel
  refine ⟨fun e path he hpath target last htarget _ => ?_, fun t' hstep => ⟨?_, fun _ _ => trivial⟩⟩
  · cases he
    cases hpath
    rw [hroot] at htarget
    cases htarget
  · have hframe : Frame t t' := by
      rw [← final_of_ok hstep]
      refine frame_extractEntry (fun e path he hpath _ => ?_) t
      cases he
      exact ⟨Frame.refl, fun t _ => allBelow_self _ t⟩
    intro e path he hpath target last htarget _
    cases he
    cases hpath
    rw [hold] at htarget
    cases htarget
    rw [placeOf, hframe.cwd, hcwd]
    exact hbelow

/-- The layer stays strictly below the directory of the image. -/
theorem extractTarEntries_below_old :
    AllBelow (placeOf imageDisk "/var/run/nyrun/oci/web") imageDisk
      (final (extractTarEntries oldLayer "/var/run/nyrun/oci/web") imageDisk) := by
  have hunpack : ∀ entry ∈ oldLayer, Unpackable "/var/run/nyrun/oci/web" entry := by
    intro entry hentry e path he hpath hnone
    rcases List.mem_pair.1 hentry with rfl | rfl <;> cases he
    · exact ⟨Frame.refl, fun t _ => allBelow_self _ t⟩
    · cases hpath
      exact absurd hnone (by decide +kernel)
  have hdest : imageDisk.stat (placeOf imageDisk "/var/run/nyrun/oci/web") = some .dir := by
    decide +kernel
  have hcwd : imageDisk.cwd = [] := by decide +kernel
  exact (extractTarEntries_below_iff hunpack hdest).2 (whiteoutsBelow_oldLayer hcwd)

/-- The name of a whiteout is joined without the check that the other entries get: one with an
absolute name removes a file of the host. -/
theorem whiteout_removes_outside :
    let t := final (extractTarEntries [.ok (whiteoutEntry "/etc/.wh.passwd")]
      "/var/run/nyrun/oci/web") imageDisk
    imageDisk.stat ["etc", "passwd"] = some (.file [2] false) ∧ t.stat ["etc", "passwd"] = none ∧
      ¬AllBelow ["var", "run", "nyrun", "oci", "web"] imageDisk t := by
  decide +kernel

end Oci
