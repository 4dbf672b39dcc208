import NylonRun.Lib.Overlay
import NylonRun.Layers

/-!
# Pulled images

What a pull leaves in the directory of an app, told from what was there and from the layers of
the image; and which config the program reads there afterwards.
-/

open UnixPath FileTree Effect Overlay

namespace Oci

/-- The name that an entry with the mark of a whiteout takes back. -/
def whiteoutName (path : String) : Option String := do
  Text.stripPrefix (← fileName path) ".wh."

/-- A path inside the root of a layer: names, and `.`. What a whiteout takes back has a name,
too. -/
structure LayerPath (path : String) : Prop where
  inside : ∀ c ∈ components path, c ≠ .root ∧ c ≠ .parent
  named : ∀ x ∈ whiteoutName path, x ≠ "" ∧ x ≠ "." ∧ x ≠ ".."

/-- What an entry of a layer means: the file or directory stored in it, or a whiteout. -/
def changeOf (path : String) (node : Node) : Change :=
  let place := lexical [] (components path)
  match whiteoutName path with
  | some x => if x = ".wh..opq" then .opaqueAt place.dropLast else .whiteout (place.dropLast ++ [x])
  | none => .put place node

/-- What `extract_tar_entries` makes of a change: to it, an opaque whiteout is the whiteout of a
file with the name `.wh..opq`. -/
def said : Change → Patch
  | .put p node => .put p node
  | .whiteout p => .remove p
  | .opaqueAt d => .remove (d ++ [".wh..opq"])

theorem extractor_said : Extractor said := by
  refine ⟨fun _ _ => rfl, fun _ => rfl, fun d q => ?_⟩
  unfold said Patch.remove
  by_cases hpre : d ++ [".wh..opq"] <+: q
  · exact .inr ⟨if_pos hpre, Below.of_prefix (by simp [Below]) hpre⟩
  · exact .inl (if_neg hpre)

/-- `unpack_in` unpacks the entry that it is given. -/
def UnpacksAt (destDir : String) (entry : TarEntry) (p : Place) (node : Node) : Prop :=
  ∀ t, t.stat (placeOf t destDir) = some .dir →
    Patched (placeOf t destDir) [.put p node] t (entry.unpackIn destDir t)

/-- An entry of an archive, and the change it stands for. -/
inductive Means (destDir : String) : Except String TarEntry → Change → Prop where
  | entry {e : TarEntry} {path : String} (node : Node) (hpath : e.path = .ok path)
    (hlayer : LayerPath path)
    (hunpack : whiteoutName path = none →
      UnpacksAt destDir e (lexical [] (components path)) node) :
    Means destDir (.ok e) (changeOf path node)

/-- The entries that `extract_layer` finds in a layer: none, if it does not know the media
type. -/
def entriesOf (os : LaunchOs) (data : Bytes) (mediaType : String) :
    Except String (List (Except String TarEntry)) :=
  if Text.contains mediaType "gzip" ∨ Text.contains mediaType "tar" then
    os.tarEntries (Text.contains mediaType "gzip") data
  else .ok []

/-- The registry serves a layer with these changes. -/
def ServesLayer (os : LaunchOs) (img : Reference) (destDir : String) (layer : Descriptor)
    (changes : List Change) : Prop :=
  ∃ data entries, os.pullBlob img layer = .ok data ∧
    entriesOf os data layer.mediaType = .ok entries ∧
    List.Forall₂ (Means destDir) entries changes

/-- The registry serves an image: its config, and its layers. -/
def Serves (os : LaunchOs) (reference destDir : String) (config : Bytes)
    (layers : List (List Change)) : Prop :=
  ∃ img manifest, os.parseReference reference = .ok img ∧ os.pullManifest img = .ok manifest ∧
    os.pullBlob img manifest.config = .ok config ∧
    List.Forall₂ (ServesLayer os img destDir) manifest.layers layers

/-! ## One entry -/

theorem whiteoutTarget_eq (destDir path : String) :
    whiteoutTarget destDir path = (whiteoutName path).map fun x =>
      (joinComponents (joinComponents (components destDir) ((parent path).getD []))
        (components x), x) := by
  unfold whiteoutTarget whiteoutName
  cases fileName path with
  | none => rfl
  | some name =>
    rw [Option.bind_eq_bind, Option.bind_some, Option.bind_eq_bind, Option.bind_some]
    cases Text.stripPrefix name ".wh." <;> rfl

/-- The components of a path inside the root are names, and `.`. -/
theorem exists_names {cs : List Component} (h : ∀ c ∈ cs, c ≠ .root ∧ c ≠ .parent) :
    ∃ ns : List String, cs.filter (· ≠ .cur) = ns.map .normal ∧ ∀ d, lexical d cs = d ++ ns := by
  induction cs with
  | nil => exact ⟨[], rfl, by simp⟩
  | cons c cs ih =>
    obtain ⟨ns, hfilter, hlexical⟩ := ih fun c hc => h c (List.mem_cons_of_mem _ hc)
    obtain ⟨hroot, hparent⟩ := h c List.mem_cons_self
    cases c with
    | root => exact absurd rfl hroot
    | parent => exact absurd rfl hparent
    | cur => exact ⟨ns, by simpa using hfilter, fun d => hlexical d⟩
    | normal n =>
      refine ⟨n :: ns, by simpa using hfilter, fun d => ?_⟩
      rw [lexical_cons, hlexical, advance, List.append_assoc, List.singleton_append]

theorem components_named {x : String} (hslash : '/' ∉ x.toList) (hempty : x ≠ "") (hdot : x ≠ ".")
    (hdots : x ≠ "..") : components x = [.normal x] := by
  have hsegments := segments_eq_singleton hslash
  have hseg : ofSegment x = some (.normal x) := by
    unfold ofSegment
    rw [if_neg hempty, if_neg hdot, if_neg hdots]
  unfold components
  rw [if_neg (by simp [isAbsolute_of_notMem hslash]), hsegments, if_neg (by simpa using hdot),
    names, hsegments, List.filterMap_cons, hseg]
  rfl

theorem fileName_eq_some {path name : String} (h : fileName path = some name) :
    ∃ cs, components path = cs ++ [.normal name] ∧ parent path = some cs := by
  unfold fileName at h
  split at h
  · rename_i n hlast
    cases h
    obtain ⟨cs, hcs⟩ := List.getLast?_eq_some_iff.1 hlast
    refine ⟨cs, hcs, ?_⟩
    unfold parent
    rw [hcs, List.getLast?_concat, List.dropLast_concat]
  · cases h

theorem whiteoutTarget_some {destDir path x : String} (hlayer : LayerPath path)
    (hx : whiteoutName path = some x) :
    whiteoutTarget destDir path = some
      (components destDir ++ ((lexical [] (components path)).dropLast ++ [x]).map .normal, x) := by
  obtain ⟨name, hname, hstrip⟩ := Option.bind_eq_some_iff.1 hx
  obtain ⟨cs, hcs, hparent⟩ := fileName_eq_some hname
  have hslash : '/' ∉ x.toList := by
    unfold Text.stripPrefix at hstrip
    split at hstrip
    · cases hstrip
      rw [String.toList_ofList]
      exact fun hmem => (fileName_spec hname).1 (List.mem_of_mem_drop hmem)
    · cases hstrip
  obtain ⟨hempty, hdot, hdots⟩ := hlayer.named x hx
  have hinside : ∀ c ∈ cs, c ≠ .root ∧ c ≠ .parent :=
    fun c hc => hlayer.inside c (by simp [hcs, hc])
  obtain ⟨ns, hfilter, hlexical⟩ := exists_names hinside
  have hhead : cs.head? ≠ some .root := fun h => (hinside _ (List.mem_of_head? h)).1 rfl
  rw [whiteoutTarget_eq, hx, Option.map_some, hparent, Option.getD_some,
    components_named hslash hempty hdot hdots, joinComponents, joinComponents, if_neg hhead,
    hfilter, hcs, lexical_append, hlexical]
  simp [advance]

/-- The removal of a target that the tree has, or has not. -/
theorem removeTarget_at {t : FileTree} {target : List Component} {last : String} {p : Place}
    (hp : p ≠ []) (hwalk : t.stat p ≠ none → t.walk target t.cwd = some p)
    (hplace : lexical t.cwd target = p) (hlast : last ≠ "" ∧ last ≠ "." ∧ last ≠ "..") :
    removeTarget target last t = .ok () (if t.stat p = none then t else t.prune p) := by
  have hrun := run_removeTarget target last t
  cases hstat : t.stat p with
  | none =>
    have hlocate : t.locate target last = none := by
      rw [Option.eq_none_iff_forall_ne_some]
      rintro ⟨q, node⟩ hfound
      obtain ⟨hq, hnode⟩ := locate_eq_some hfound
      rw [walk_lexical hq, hplace, hstat] at hnode
      cases hnode
    have hunlink : final (unlink none) t = t := rfl
    rw [hlocate, hunlink] at hrun
    dsimp only at hrun
    rw [hlocate] at hrun
    rw [if_pos rfl]
    exact hrun
  | some node =>
    have hlocate : t.locate target last = some (p, node) := by
      unfold locate
      rw [hwalk (by simp [hstat]), Option.bind_some, hstat]
      simp [Option.filter, hlast.1, hlast.2.1]
    rw [if_neg (by simp)]
    cases node with
    | file content x =>
      have hunlink : final (unlink (some (p, .file content x))) t = t.prune p := rfl
      rw [hlocate, hunlink] at hrun
      dsimp only at hrun
      rw [locate_prune_file hlocate] at hrun
      exact hrun
    | dir =>
      have hunlink : final (unlink (some (p, .dir))) t = t := rfl
      have htree : final (unlinkTree last (some (p, .dir))) t = t.prune p := by
        have hkeep : keepDir last p = pure () := by
          unfold keepDir
          rw [if_neg hp, if_neg (by simp [hlast])]
        change final (keepDir last p) (t.prune p) = t.prune p
        rw [hkeep]
        rfl
      rw [hlocate, hunlink] at hrun
      dsimp only at hrun
      rw [hlocate, htree] at hrun
      exact hrun

/-- Every directory on the way to `destDir`, and the one it leads to, is there. -/
def Reaches (destDir : String) (t : FileTree) : Prop :=
  ∀ p ∈ trail t.cwd (components destDir), t.stat p = some .dir

/-- The way to a directory does not lead through it and back, as `a/b/..` does. -/
def Direct (destDir : String) : Prop :=
  ∀ p ∈ trail [] (components destDir), ¬Below (lexical [] (components destDir)) p

instance (destDir : String) : Decidable (Direct destDir) :=
  inferInstanceAs (Decidable (∀ p ∈ trail [] (components destDir), _))

section

variable {destDir : String} {t t' : FileTree} {ws : List Patch} (habs : isAbsolute destDir = true)

include habs

theorem placeOf_absolute (t : FileTree) : placeOf t destDir = lexical [] (components destDir) :=
  lexical_of_root (head?_components habs) t.cwd

theorem Reaches.stat_root (h : Reaches destDir t) : t.stat (placeOf t destDir) = some .dir := by
  refine h _ (lexical_mem_trail fun hnil => ?_)
  have hhead := head?_components habs
  rw [hnil] at hhead
  cases hhead

theorem Reaches.walk (h : Reaches destDir t) :
    t.walk (components destDir) t.cwd = some (placeOf t destDir) :=
  walk_of_trail (.inr (head?_components habs)) fun p hp => h p (List.mem_of_mem_dropLast hp)

theorem Reaches.patched (h : Reaches destDir t) (hdirect : Direct destDir)
    (hpatched : Patched (placeOf t destDir) ws t t') : Reaches destDir t' := by
  intro p hp
  have hhead := head?_components habs
  rw [trail_of_root hhead] at hp
  rw [hpatched.outside p, h p]
  · rw [trail_of_root hhead]
    exact hp
  · rw [placeOf_absolute habs]
    exact hdirect p hp

/-- The removal of what a whiteout takes back. -/
theorem removeTarget_patched (h : Reaches destDir t) {ns : Place} (hns : ns ≠ []) {last : String}
    (hlast : last ≠ "" ∧ last ≠ "." ∧ last ≠ "..") :
    ∃ t', removeTarget (components destDir ++ ns.map .normal) last t = .ok () t' ∧
      Patched (placeOf t destDir) [.remove ns] t t' := by
  let root := placeOf t destDir
  have hplace : lexical t.cwd (components destDir ++ ns.map .normal) = root ++ ns := by
    rw [lexical_append, lexical_names]
    rfl
  have hwalk : t.stat (root ++ ns) ≠ none →
      t.walk (components destDir ++ ns.map .normal) t.cwd = some (root ++ ns) := by
    intro hsome
    obtain ⟨node, hnode⟩ := Option.ne_none_iff_exists'.1 hsome
    rw [walk_append, h.walk habs, Option.bind_some, walk_names (h.stat_root habs) hnode]
  refine ⟨_, removeTarget_at (by simp [hns]) hwalk hplace hlast, ?_⟩
  split
  · rename_i hnone
    refine ⟨rfl, funext fun q => ?_, fun _ _ => rfl⟩
    rw [Patch.applyAll_cons, Patch.applyAll_nil, Patch.apply, Patch.remove]
    split
    · rename_i hpre
      by_cases hq : q = ns
      · rw [hq, Option.getD_some]
        exact hnone
      · refine stat_below_eq_none (p := root ++ ns) (by simp [hnone]) ?_ (by simpa [root] using hq)
        exact (List.prefix_append_right_inj root).2 hpre
    · rfl
  · refine ⟨rfl, view_prune t root hns, fun p hp => ?_⟩
    rw [stat_prune_below t (by simp [hns]), if_neg]
    exact fun hpre => hp <| Below.of_prefix (below_append_iff.2 hns) hpre

/-- What one entry does to the directory: what its change says. -/
theorem extractEntry_patched (h : Reaches destDir t) {entry : Except String TarEntry} {c : Change}
    (hmeans : Means destDir entry c) :
    ∃ t', extractEntry destDir entry t = .ok () t' ∧
      Patched (placeOf t destDir) [said c] t t' := by
  obtain ⟨node, hpath, hlayer, hunpack⟩ := hmeans
  rename_i e path
  unfold extractEntry changeOf
  simp only [demand, run_bind, run_pure, hpath]
  cases hname : whiteoutName path with
  | some x =>
    have hne : (lexical [] (components path)).dropLast ++ [x] ≠ [] := by simp
    obtain ⟨t', hrun, hpatched⟩ := removeTarget_patched habs h hne (hlayer.named x hname)
    refine ⟨t', ?_, ?_⟩
    · simp only [whiteoutTarget_some hlayer hname]
      exact hrun
    · dsimp only
      split
      · rename_i hmark
        rw [hmark] at hpatched
        exact hpatched
      · exact hpatched
  | none =>
    have htarget : whiteoutTarget destDir path = none := by
      rw [whiteoutTarget_eq, hname]
      rfl
    have hrel : isAbsolute path = false := by
      rw [← Bool.not_eq_true]
      intro hpath
      exact (hlayer.inside .root (List.mem_of_head? (head?_components hpath))).1 rfl
    have hstarts : startsWith (join destDir path) destDir = true := by
      unfold startsWith
      rw [components_join habs hrel, List.isPrefixOf_iff_prefix]
      exact List.prefix_append _ _
    refine ⟨e.unpackIn destDir t, ?_, hunpack hname t (h.stat_root habs)⟩
    simp only [htarget]
    rw [if_pos hstarts]
    rfl

theorem extractTarEntries_patched (hdirect : Direct destDir)
    {entries : List (Except String TarEntry)} {changes : List Change}
    (hmeans : List.Forall₂ (Means destDir) entries changes) {t : FileTree}
    (h : Reaches destDir t) :
    ∃ t', extractTarEntries entries destDir t = .ok () t' ∧
      Patched (placeOf t destDir) (changes.map said) t t' := by
  induction hmeans generalizing t with
  | nil => exact ⟨t, rfl, .refl _ t⟩
  | cons hentry _ ih =>
    obtain ⟨t₁, hrun, hpatched⟩ := extractEntry_patched habs h hentry
    obtain ⟨t₂, hrest, hpatched'⟩ := ih (h.patched habs hdirect hpatched)
    refine ⟨t₂, ?_, ?_⟩
    · unfold extractTarEntries forEach
      rw [run_bind, hrun]
      exact hrest
    · rw [placeOf_absolute habs] at hpatched hpatched' ⊢
      exact hpatched.trans hpatched'

theorem extractLayer_patched (hdirect : Direct destDir) (h : Reaches destDir t) {os : LaunchOs}
    {data : Bytes} {mediaType : String} {entries : List (Except String TarEntry)}
    {changes : List Change} (hentries : entriesOf os data mediaType = .ok entries)
    (hmeans : List.Forall₂ (Means destDir) entries changes) :
    ∃ t', extractLayer os data mediaType destDir t = .ok () t' ∧
      Patched (placeOf t destDir) (changes.map said) t t' := by
  unfold entriesOf at hentries
  unfold extractLayer
  split at hentries
  · rename_i harchive
    obtain ⟨t', hrun, hpatched⟩ := extractTarEntries_patched habs hdirect hmeans h
    refine ⟨t', ?_, hpatched⟩
    rw [if_pos harchive, hentries]
    exact hrun
  · rename_i hother
    cases hentries
    cases hmeans
    refine ⟨t, ?_, .refl _ t⟩
    rw [if_neg hother]
    rfl

theorem layers_patched (hdirect : Direct destDir) {os : LaunchOs} {img : Reference}
    {descriptors : List Descriptor} {layers : List (List Change)}
    (hserves : List.Forall₂ (ServesLayer os img destDir) descriptors layers) {t : FileTree}
    (h : Reaches destDir t) :
    ∃ t', forEach descriptors (fun layer => do
        let layerData ← demand (fun e => s!"failed to pull layer {layer.digest}: {e}")
          (os.pullBlob img layer)
        extractLayer os layerData layer.mediaType destDir) t = .ok () t' ∧
      Patched (placeOf t destDir) (layers.flatten.map said) t t' := by
  induction hserves generalizing t with
  | nil => exact ⟨t, rfl, .refl _ t⟩
  | cons hlayer _ ih =>
    obtain ⟨data, entries, hdata, hentries, hmeans⟩ := hlayer
    obtain ⟨t₁, hrun, hpatched⟩ := extractLayer_patched habs hdirect h hentries hmeans
    obtain ⟨t₂, hrest, hpatched'⟩ := ih (h.patched habs hdirect hpatched)
    refine ⟨t₂, ?_, ?_⟩
    · unfold forEach
      simp only [run_bind, hdata, demand, run_pure, hrun]
      exact hrest
    · rw [placeOf_absolute habs] at hpatched hpatched' ⊢
      rw [List.flatten_cons, List.map_append]
      exact hpatched.trans hpatched'

end

/-! ## One pull -/

theorem isAbsolute_destDir (name : String) : isAbsolute (join ociDir name) = true :=
  isAbsolute_join name (by decide)

theorem write_ok {path : String} {content : Bytes} {t t' : FileTree} {q : Place}
    (hq : t.resolve path = some q) (h : write path content t = .ok () t') :
    ∃ x, ∃ room : t.Room q (.file content x), t' = t.put q (.file content x) room := by
  unfold write at h
  rw [run_get_bind, hq] at h
  dsimp only at h
  unfold writeAt at h
  rw [run_get_bind] at h
  rcases hstat : t.stat q with _ | _ | _ <;> rw [hstat] at h <;> exact ⟨_, create_ok h⟩

/-- A pull that succeeds has written the config of the image, and then applied what the entries
of its layers say, in order, to what was in the directory. -/
theorem pullAndExtract_patched {os : LaunchOs} {reference name dir : String} {config : Bytes}
    {layers : List (List Change)} {t t' : FileTree} (hdirect : Direct (join ociDir name))
    (hserves : Serves os reference (join ociDir name) config layers)
    (hrun : pullAndExtract os reference name t = .ok dir t') :
    dir = join ociDir name ∧ t'.cwd = t.cwd ∧ Reaches dir t' ∧ ∃ x before,
      before [".oci-config.json"] = some (.file config x) ∧
      (∀ q, q ≠ [] → q ≠ [".oci-config.json"] → before q = view t (placeOf t dir) q) ∧
      view t' (placeOf t dir) = extracted said layers before := by
  have habs := isAbsolute_destDir name
  obtain ⟨img, manifest, href, hmanifest, hconfig, hlayers⟩ := hserves
  unfold pullAndExtract at hrun
  obtain ⟨_, _, hstep, hrun⟩ := bind_ok hrun
  rw [href] at hstep
  cases hstep
  obtain ⟨_, _, hstep, hrun⟩ := bind_ok hrun
  rw [hmanifest] at hstep
  cases hstep
  obtain ⟨_, t₁, hmake, hrun⟩ := bind_ok hrun
  rw [mapError_ok] at hmake
  obtain ⟨_, _, hstep, hrun⟩ := bind_ok hrun
  rw [hconfig] at hstep
  cases hstep
  obtain ⟨_, t₂, hwrite, hrun⟩ := bind_ok hrun
  rw [mapError_ok] at hwrite
  obtain ⟨_, t₃, hextract, hrun⟩ := bind_ok hrun
  cases hrun
  have hcwd : t₁.cwd = t.cwd := ((respects_createDirAll kept_frame _).of_ok hmake).cwd
  rw [run_createDirAll] at hmake
  have hreach : Reaches (join ociDir name) t₁ := by
    unfold Reaches
    rw [hcwd]
    exact (mkdirs_ok hmake).2
  have hplace (u : FileTree) := placeOf_absolute habs u
  have hname : fileName ".oci-config.json" = some ".oci-config.json" := by decide +kernel
  obtain ⟨x, room, rfl⟩ := write_ok (resolve_join habs hname hreach) hwrite
  -- the file is no directory on the way
  have hreach' : Reaches (join ociDir name) (t₁.put _ (.file config x) room) := by
    intro p hp
    rw [put_cwd] at hp
    rw [stat_put, if_neg, hreach p hp]
    rintro rfl
    rw [trail_of_root (head?_components habs)] at hp
    exact hdirect _ hp (below_append_iff.2 (by simp))
  obtain ⟨t₄, hextract', hpatched⟩ := layers_patched habs hdirect hlayers hreach'
  rw [hextract] at hextract'
  cases hextract'
  have hcwd' : t'.cwd = t.cwd := hpatched.cwd.trans hcwd
  have hinside := hpatched.inside
  rw [hplace] at hinside
  rw [hplace]
  refine ⟨rfl, hcwd', hreach'.patched habs hdirect hpatched, x, _, ?_, fun q hq hne => ?_, hinside⟩
  · rw [view, stat_put, if_pos rfl]
  · rw [view, stat_put, if_neg (by simpa using hne), mkdirs_stat_eq hmake]
    · rfl
    · rw [trail_of_root (head?_components habs)]
      exact fun hmem => hdirect _ hmem (below_append_iff.2 hq)

/-! ## Images of two layers -/

instance (path : String) : Decidable (LayerPath path) :=
  decidable_of_iff ((∀ c ∈ components path, c ≠ .root ∧ c ≠ .parent) ∧
      ∀ x ∈ whiteoutName path, x ≠ "" ∧ x ≠ "." ∧ x ≠ "..")
    ⟨fun h => ⟨h.1, h.2⟩, fun h => ⟨h.inside, h.named⟩⟩

/-- An entry that is unpacked to the place its path spells. -/
def fileEntry (path : String) (node : Node) : TarEntry :=
  ⟨.ok path, fun destDir t => plant (placeOf t destDir) (lexical [] (components path)) node t⟩

/-- A registry that serves an image of two layers, given by paths and what is stored for them. -/
def twoLayers (config : Bytes) (lower upper : List (String × Node)) : LaunchOs :=
  { LaunchOs.serving .null 1 with
    pullManifest := fun _ => .ok ⟨⟨"config", "json"⟩, [⟨"lower", "tar"⟩, ⟨"upper", "tar"⟩]⟩
    pullBlob := fun _ d => .ok
      (if d.mediaType = "json" then config else if d.digest = "lower" then [0] else [1])
    tarEntries := fun _ data => .ok
      ((if data = [0] then lower else upper).map fun e => .ok (fileEntry e.1 e.2)) }

def changesOf (layer : List (String × Node)) : List Change := layer.map fun e => changeOf e.1 e.2

theorem means_fileEntry (destDir : String) {layer : List (String × Node)}
    (h : ∀ e ∈ layer, LayerPath e.1) :
    List.Forall₂ (Means destDir) (layer.map fun e => .ok (fileEntry e.1 e.2))
      (changesOf layer) := by
  induction layer with
  | nil => exact .nil
  | cons e layer ih =>
    refine .cons (.entry e.2 rfl (h e List.mem_cons_self) fun _ t hdir => patched_plant _ hdir) ?_
    exact ih fun e' he' => h e' (List.mem_cons_of_mem _ he')

theorem serves_twoLayers (reference destDir : String) (config : Bytes)
    {lower upper : List (String × Node)} (hlower : ∀ e ∈ lower, LayerPath e.1)
    (hupper : ∀ e ∈ upper, LayerPath e.1) :
    Serves (twoLayers config lower upper) reference destDir config
      [changesOf lower, changesOf upper] := by
  have htar : Text.contains "tar" "gzip" = false ∧ Text.contains "tar" "tar" = true := by
    decide +kernel
  have hentries (data : Bytes) : entriesOf (twoLayers config lower upper) data "tar" =
      .ok ((if data = [0] then lower else upper).map fun e => .ok (fileEntry e.1 e.2)) := by
    unfold entriesOf
    rw [if_pos (.inr htar.2)]
    rfl
  refine ⟨reference, _, rfl, rfl, rfl, .cons ⟨[0], _, ?_, hentries [0], ?_⟩
    (.cons ⟨[1], _, ?_, hentries [1], ?_⟩ .nil)⟩
  · rfl
  · exact means_fileEntry destDir hlower
  · rfl
  · exact means_fileEntry destDir hupper

/-- After a pull the directory of an app holds the tree of the image exactly if, at every place
but that of the config, nothing was left from before, no opaque whiteout should have hidden what
was put, and no whiteout took back what its own layer had put. -/
theorem pullAndExtract_overlay_iff {os : LaunchOs} {reference name dir : String} {config : Bytes}
    {layers : List (List Change)} {t t' : FileTree} (hdirect : Direct (join ociDir name))
    (hserves : Serves os reference (join ociDir name) config layers)
    (hrun : pullAndExtract os reference name t = .ok dir t') :
    (∀ q, q ≠ [] → q ≠ [".oci-config.json"] →
      view t' (placeOf t' dir) q = overlay layers q) ↔
    ∀ q, q ≠ [] → q ≠ [".oci-config.json"] →
      AgreesAt said layers (view t (placeOf t dir)) q := by
  obtain ⟨-, hcwd, -, x, before, -, hbefore, hview⟩ := pullAndExtract_patched hdirect hserves hrun
  have hplace : placeOf t' dir = placeOf t dir := by rw [placeOf, hcwd, placeOf]
  rw [hplace, hview]
  refine forall_congr' fun q => forall_congr' fun hq => forall_congr' fun hne => ?_
  rw [extractor_said.extracted_eq_overlay_iff]
  constructor
  · intro h
    exact h.congr (hbefore q hq hne).symm
  · intro h
    exact h.congr (hbefore q hq hne)

def tidyLower : List (String × Node) :=
  [("./", .dir), ("bin/app", .file [1] true), ("old", .file [2] false)]

def tidyUpper : List (String × Node) := [(".wh.old", .file [] false), ("bin/tool", .file [3] true)]

def tidyLayers : List (List Change) :=
  [[.put [] .dir, .put ["bin", "app"] (.file [1] true), .put ["old"] (.file [2] false)],
    [.whiteout ["old"], .put ["bin", "tool"] (.file [3] true)]]

theorem serves_tidyLayers (config : Bytes) :
    Serves (twoLayers config tidyLower tidyUpper) "img" (join ociDir "web") config tidyLayers := by
  have hlayers : tidyLayers = [changesOf tidyLower, changesOf tidyUpper] := by decide +kernel
  rw [hlayers]
  exact serves_twoLayers _ _ _ (by decide +kernel) (by decide +kernel)

theorem pullAndExtract_overlay_tidy :
    ∃ t', pullAndExtract (twoLayers [7] tidyLower tidyUpper) "img" "web" .empty =
        .ok "/var/run/nyrun/oci/web" t' ∧
      ∀ q, q ≠ [] → q ≠ [".oci-config.json"] →
        view t' (placeOf t' "/var/run/nyrun/oci/web") q = overlay tidyLayers q := by
  have hok : result (pullAndExtract (twoLayers [7] tidyLower tidyUpper) "img" "web") .empty =
      .ok "/var/run/nyrun/oci/web" := by decide +kernel
  obtain ⟨t', hrun⟩ := result_eq_ok hok
  refine ⟨t', hrun, ?_⟩
  refine (pullAndExtract_overlay_iff (by decide +kernel) (serves_tidyLayers _) hrun).2
    fun q hq _ => ?_
  refine extractor_said.agreesAt_of_tidy ?_ (by simp [tidyLayers]) (by decide +kernel)
  rw [view, stat_of_ne _ (by simp [hq])]
  rfl

/-- A directory that a layer declares opaque keeps what the layer below has put in it: the mark
is taken for the whiteout of a file with the name `.wh..opq`. -/
theorem opaque_whiteout_ignored :
    ∃ os t', Serves os "img" "/var/run/nyrun/oci/web" []
        [[.put ["d", "x"] (.file [1] false)], [.opaqueAt ["d"]]] ∧
      pullAndExtract os "img" "web" .empty = .ok "/var/run/nyrun/oci/web" t' ∧
      view t' (placeOf t' "/var/run/nyrun/oci/web") ["d", "x"] = some (.file [1] false) ∧
      overlay [[.put ["d", "x"] (.file [1] false)], [.opaqueAt ["d"]]] ["d", "x"] = none := by
  have hlayers : [[.put ["d", "x"] (.file [1] false)], [.opaqueAt ["d"]]] =
      [changesOf [("d/x", .file [1] false)],
        changesOf [("d/.wh..wh..opq", .file [] false)]] := by decide +kernel
  obtain ⟨hok, hkept⟩ : let pull := pullAndExtract (twoLayers [] [("d/x", .file [1] false)]
        [("d/.wh..wh..opq", .file [] false)]) "img" "web"
      result pull .empty = .ok "/var/run/nyrun/oci/web" ∧ (final pull .empty).stat
        ["var", "run", "nyrun", "oci", "web", "d", "x"] = some (.file [1] false) := by
    decide +kernel
  have hplace (t : FileTree) : placeOf t "/var/run/nyrun/oci/web" =
      ["var", "run", "nyrun", "oci", "web"] := by
    rw [placeOf_absolute (by decide +kernel)]
    decide +kernel
  obtain ⟨t', hrun⟩ := result_eq_ok hok
  rw [final_of_ok hrun] at hkept
  refine ⟨_, t', ?_, hrun, ?_, by decide +kernel⟩
  · rw [hlayers]
    exact serves_twoLayers _ _ _ (by decide +kernel) (by decide +kernel)
  · rw [hplace]
    exact hkept

/-! ## The config that is read -/

/-- The command that the config of an image gives by its `Entrypoint` or its `Cmd`. -/
def pulledCommand (parseJson : String → Option Json) (t : FileTree) (extractDir : String)
    (config : Bytes) : Option (String × List String) := do
  let data ← String.fromUTF8? ⟨config.toArray⟩
  let cfg ← (← parseJson data).get "config"
  (configuredCommand t extractDir cfg "Entrypoint").or (configuredCommand t extractDir cfg "Cmd")

/-- `find_entrypoint` reads this config, and takes the command that it gives. -/
structure DerivesFrom (parseJson : String → Option Json) (t : FileTree) (extractDir : String)
    (config : Bytes) : Prop where
  read : t.read (join extractDir ".oci-config.json") = .ok config
  derived : ∀ command, pulledCommand parseJson t extractDir config = some command →
    findEntrypoint parseJson t extractDir = .ok command

theorem derivesFrom_iff {parseJson : String → Option Json} {t : FileTree} {extractDir : String}
    {config : Bytes} : DerivesFrom parseJson t extractDir config ↔
      t.read (join extractDir ".oci-config.json") = .ok config := by
  refine ⟨DerivesFrom.read, fun hread => ⟨hread, fun command hcommand => ?_⟩⟩
  obtain ⟨data, hdata, hcommand⟩ := Option.bind_eq_some_iff.1 hcommand
  obtain ⟨json, hjson, hcommand⟩ := Option.bind_eq_some_iff.1 hcommand
  obtain ⟨cfg, hcfg, hcommand⟩ := Option.bind_eq_some_iff.1 hcommand
  have htext : t.readToString (join extractDir ".oci-config.json") = .ok data := by
    unfold readToString
    rw [hread]
    change (match String.fromUTF8? ⟨config.toArray⟩ with
      | some text => Except.ok text
      | none => .error "stream did not contain valid UTF-8") = Except.ok data
    rw [hdata]
  unfold findEntrypoint
  simp only [htext, Except.toOption, Option.bind_eq_bind, Option.bind_some, hjson, hcfg, hcommand]

theorem read_config_iff {destDir : String} {t : FileTree} {config : Bytes}
    (habs : isAbsolute destDir = true) (h : Reaches destDir t) :
    t.read (join destDir ".oci-config.json") = .ok config ↔
      ∃ x, view t (placeOf t destDir) [".oci-config.json"] = some (.file config x) := by
  have hname : fileName ".oci-config.json" = some ".oci-config.json" := by decide +kernel
  have hfind : t.find (join destDir ".oci-config.json") =
      (view t (placeOf t destDir) [".oci-config.json"]).map
        (placeOf t destDir ++ [".oci-config.json"], ·) := by
    rw [find, resolve_join habs hname h, Option.bind_some, placeOf_absolute habs]
    rfl
  unfold FileTree.read
  rw [hfind]
  rcases view t (placeOf t destDir) [".oci-config.json"] with _ | _ | ⟨content, x⟩
  · simp
  · simp
  · simp

/-- After a pull the config that was pulled is the one that is read exactly if no entry of the
image speaks of its place, or the last that does is a file with the same content. -/
theorem findEntrypoint_pulled_iff (parseJson : String → Option Json) {os : LaunchOs}
    {reference name dir : String} {config : Bytes} {layers : List (List Change)} {t t' : FileTree}
    (hdirect : Direct (join ociDir name))
    (hserves : Serves os reference (join ociDir name) config layers)
    (hrun : pullAndExtract os reference name t = .ok dir t') :
    DerivesFrom parseJson t' dir config ↔
      ∀ front c higher, LastToSpeak said layers [".oci-config.json"] front c higher →
        ∃ x, said c [".oci-config.json"] = some (some (.file config x)) := by
  obtain ⟨rfl, hcwd, hreach, x, before, hconfig, -, hview⟩ :=
    pullAndExtract_patched hdirect hserves hrun
  have hplace : placeOf t' (join ociDir name) = placeOf t (join ociDir name) := by
    rw [placeOf, hcwd, placeOf]
  rw [derivesFrom_iff, read_config_iff (isAbsolute_destDir name) hreach, hplace, hview]
  rcases silent_or_last said layers [".oci-config.json"] with hsilent | ⟨front, c, higher, hlast⟩
  · rw [extracted_of_silent hsilent, hconfig]
    exact iff_of_true ⟨x, rfl⟩ fun _ _ _ hlast => absurd hsilent hlast.not_silent
  · constructor
    · rintro ⟨y, hy⟩ front c higher hlast
      exact ⟨y, by rw [← extracted_of_last hlast, hy]⟩
    · intro h
      obtain ⟨y, hy⟩ := h front c higher hlast
      have hleft : some (extracted said layers before _) = _ := extracted_of_last hlast
      rw [hy, Option.some.injEq] at hleft
      exact ⟨y, hleft⟩

/-- The config of an image, as the registry sends it, that runs the program. -/
def configOf (program : String) : Bytes := (commandText "Entrypoint" [program]).toUTF8.toList

/-- The parser on two configs. -/
def entrypoints (text : String) : Option Json :=
  ["/bin/app", "/bin/other"].findSome? fun program =>
    if text = commandText "Entrypoint" [program] then some (commandJson "Entrypoint" [program])
    else none

theorem findEntrypoint_pulled_tidy :
    ∃ t', pullAndExtract (twoLayers (configOf "/bin/app") tidyLower tidyUpper) "img" "web" .empty =
        .ok "/var/run/nyrun/oci/web" t' ∧
      DerivesFrom entrypoints t' "/var/run/nyrun/oci/web" (configOf "/bin/app") := by
  have hok : result (pullAndExtract (twoLayers (configOf "/bin/app") tidyLower tidyUpper) "img"
      "web") .empty = .ok "/var/run/nyrun/oci/web" := by decide +kernel
  have hsilent : Silent said tidyLayers [".oci-config.json"] := by
    unfold Silent
    decide +kernel
  obtain ⟨t', hrun⟩ := result_eq_ok hok
  refine ⟨t', hrun, ?_⟩
  exact (findEntrypoint_pulled_iff _ (by decide +kernel) (serves_tidyLayers _) hrun).2
    fun _ _ _ hlast => absurd hsilent hlast.not_silent

/-- A layer with a file `.oci-config.json` decides what the app runs. -/
theorem layer_replaces_config :
    ∃ os t', Serves os "img" "/var/run/nyrun/oci/web" (configOf "/bin/app")
        [[.put [".oci-config.json"] (.file (configOf "/bin/other") false)], []] ∧
      pullAndExtract os "img" "web" .empty = .ok "/var/run/nyrun/oci/web" t' ∧
      pulledCommand entrypoints t' "/var/run/nyrun/oci/web" (configOf "/bin/app") =
        some ("/bin/app", []) ∧
      findEntrypoint entrypoints t' "/var/run/nyrun/oci/web" = .ok ("/bin/other", []) := by
  have hlayers : [[.put [".oci-config.json"] (.file (configOf "/bin/other") false)], []] =
      [changesOf [(".oci-config.json", .file (configOf "/bin/other") false)], changesOf []] := by
    decide +kernel
  obtain ⟨hok, hcommands⟩ : let pull := pullAndExtract (twoLayers (configOf "/bin/app")
        [(".oci-config.json", .file (configOf "/bin/other") false)] []) "img" "web"
      result pull .empty = .ok "/var/run/nyrun/oci/web" ∧
        pulledCommand entrypoints (final pull .empty) "/var/run/nyrun/oci/web"
          (configOf "/bin/app") = some ("/bin/app", []) ∧
        findEntrypoint entrypoints (final pull .empty) "/var/run/nyrun/oci/web" =
          .ok ("/bin/other", []) := by
    decide +kernel
  obtain ⟨t', hrun⟩ := result_eq_ok hok
  rw [final_of_ok hrun] at hcommands
  refine ⟨_, t', ?_, hrun, hcommands⟩
  rw [hlayers]
  exact serves_twoLayers _ _ _ (by decide +kernel) (by decide +kernel)

end Oci
