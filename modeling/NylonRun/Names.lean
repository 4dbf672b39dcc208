import NylonRun.References
import NylonRun.EnvFiles
import Mathlib.Data.Bool.AllAny

/-!
# The name of an app from its image

`image_name_from_ref` cuts a reference at its first `:` and then at its first `@`, and takes the
last segment of what is left (src/oci.rs:99-110). In a reference whose registry has a port, the
first `:` is that of the port. `derive_name` takes the result for the name of an app that is
given none, for what it recognises as a reference, and else the file name (src/main.rs:112-124).
-/

open UnixPath

namespace Oci

/-- `image_name_from_ref` (src/oci.rs:99-110). -/
def imageNameFromRef (reference : String) : String :=
  let withoutTag := (Text.split ':' reference).head?.getD reference
  let withoutDigest := (Text.split '@' withoutTag).head?.getD withoutTag
  (Text.split '/' withoutDigest).getLast?.getD "unknown"

/-- The text before the first colon or at sign. -/
def stem (s : String) : String :=
  String.ofList (s.toList.takeWhile fun c => c ≠ ':' ∧ c ≠ '@')

/-- The text has no colon and no at sign. -/
def Clean (s : String) : Prop := ∀ c ∈ s.toList, c ≠ ':' ∧ c ≠ '@'

/-- The last segment of a path. -/
def lastSegment (path : String) : String := (Text.split '/' path).getLast?.getD ""

theorem imageNameFromRef_eq (reference : String) :
    imageNameFromRef reference = lastSegment (stem reference) := by
  have hstem : (Text.split '@' (String.ofList (reference.toList.takeWhile (· ≠ ':')))).head? =
      some (stem reference) := by
    rw [Text.head?_split, String.toList_ofList, List.takeWhile_takeWhile, stem]
    congr 3
    funext c
    simp [and_comm]
  unfold imageNameFromRef
  rw [Text.head?_split]
  dsimp only [Option.getD_some]
  rw [hstem, Option.getD_some, lastSegment]
  cases hlast : (Text.split '/' (stem reference)).getLast? with
  | none => exact absurd (List.getLast?_eq_none_iff.1 hlast) (Text.split_ne_nil _ _)
  | some segment => rfl

theorem lastSegment_append (front back : String) :
    lastSegment (front ++ String.singleton '/' ++ back) = lastSegment back := by
  have hsegments : Text.split '/' (front ++ String.singleton '/' ++ back) =
      Text.split '/' front ++ Text.split '/' back := segments_join_slash front back
  rw [lastSegment, hsegments, List.getLast?_append, lastSegment]
  cases hlast : (Text.split '/' back).getLast? with
  | none => exact absurd (List.getLast?_eq_none_iff.1 hlast) (Text.split_ne_nil _ _)
  | some segment => rfl

theorem lastSegment_of_notMem {s : String} (h : '/' ∉ s.toList) : lastSegment s = s := by
  rw [lastSegment, Text.split_of_notMem h]
  rfl

theorem notMem_of_not_contains {s : String} (h : ¬Text.contains s "/" = true) : '/' ∉ s.toList :=
  fun hmem => h (decide_eq_true ((List.singleton_infix_iff _ _).2 hmem))

theorem mem_of_mem_lastSegment {s : String} {c : Char} (h : c ∈ (lastSegment s).toList) :
    c ∈ s.toList := by
  induction hlen : s.length using Nat.strongRecOn generalizing s with
  | ind n ih =>
    by_cases hslash : Text.contains s "/" = true
    · obtain ⟨first, rest, rfl, -, -⟩ := exists_first hslash
      rw [lastSegment_append] at h
      have hshort : rest.length < n := by
        rw [← hlen]
        simp only [String.length_append, String.length_singleton]
        omega
      rw [String.toList_append]
      exact List.mem_append_right _ (ih _ hshort h rfl)
    · rwa [lastSegment_of_notMem (notMem_of_not_contains hslash)] at h

theorem clean_stem (s : String) : Clean (stem s) := by
  intro c hc
  rw [stem, String.toList_ofList] at hc
  have hkept := List.mem_takeWhile_imp hc
  exact of_decide_eq_true hkept

/-- The stem goes on behind a text exactly if that is clean. -/
theorem stem_append_of_clean {front : String} (h : Clean front) (back : String) :
    stem (front ++ back) = front ++ stem back := by
  rw [← String.toList_inj, String.toList_append, stem, stem, String.toList_ofList,
    String.toList_ofList, String.toList_append, List.takeWhile_append_of_pos]
  intro c hc
  exact decide_eq_true (h c hc)

theorem stem_append_of_not_clean {front : String} (h : ¬Clean front) (back : String) :
    stem (front ++ back) = stem front := by
  have hne : (front.toList.takeWhile fun c => decide (c ≠ ':' ∧ c ≠ '@')).length ≠
      front.toList.length := by
    intro hlength
    have hself := (List.takeWhile_prefix _).eq_of_length hlength
    exact h fun c hc => of_decide_eq_true (List.takeWhile_eq_self_iff.1 hself c hc)
  rw [stem, stem, String.toList_append, List.takeWhile_append, if_neg hne]

/-- A path whose last segment is a name has that for its file name. -/
theorem fileName_of_lastSegment {path : String} (hempty : lastSegment path ≠ "")
    (hdot : lastSegment path ≠ ".") (hdots : lastSegment path ≠ "..") :
    fileName path = some (lastSegment path) := by
  have hlast : (segments path).getLast? = some (lastSegment path) := by
    cases h : (segments path).getLast? with
    | none => exact absurd (List.getLast?_eq_none_iff.1 h) (Text.split_ne_nil '/' path)
    | some segment => exact congrArg some (congrArg (·.getD "") h).symm
  have hsegment : ofSegment (lastSegment path) = some (.normal (lastSegment path)) := by
    rw [ofSegment, if_neg hempty, if_neg hdot, if_neg hdots]
  have hnames : (names path).getLast? = some (.normal (lastSegment path)) := by
    rw [names, ← List.dropLast_append_getLast? _ hlast, List.filterMap_append,
      List.filterMap_cons_some hsegment, List.filterMap_nil, List.getLast?_concat]
  have hcomponents : (components path).getLast? = some (.normal (lastSegment path)) := by
    unfold components
    split
    · rw [List.getLast?_cons, hnames]
      rfl
    · split
      · rw [List.getLast?_cons, hnames]
        rfl
      · exact hnames
  rw [fileName, hcomponents]

end Oci

namespace Cli

/-- The file name of a path, as the name of an app. -/
def pathName (path : String) : String := (fileName path).getD "unknown"

/-- `derive_name` (src/main.rs:112-124). -/
def deriveName (isAlphanumeric : Char → Bool) (path : String) (name : Option String) : String :=
  match name with
  | some n => n
  | none =>
    if Oci.isOciReference isAlphanumeric path then Oci.imageNameFromRef path else pathName path

end Cli

namespace Oci

/-- A part of a reference. -/
structure Part where
  text : String
  nonempty : text ≠ ""
  plain : ∀ c ∈ text.toList, c ≠ '/' ∧ c ≠ ':' ∧ c ≠ '@'

theorem Part.clean (p : Part) : Clean p.text := fun c hc => (p.plain c hc).2

theorem Part.slash (p : Part) : '/' ∉ p.text.toList := fun hc => (p.plain '/' hc).1 rfl

/-- `[registry[:port]/]segment/.../name[:tag][@digest]`. -/
structure ImageRef where
  registry : Option (Part × Option Part)
  segments : List Part
  name : Part
  tag : Option Part
  digest : Option { digest : String // '/' ∉ digest.toList }

namespace ImageRef

/-- A registry with its port. -/
def hostText : Part × Option Part → String
  | (host, none) => host.text
  | (host, some port) => host.text ++ String.singleton ':' ++ port.text

/-- What a reference has in front of its last segment. -/
def dirs (r : ImageRef) : List String := (r.registry.map hostText).toList ++ r.segments.map (·.text)

/-- What a reference has behind its name. -/
def suffix (r : ImageRef) : String :=
  r.tag.elim "" (fun tag => String.singleton ':' ++ tag.text) ++
    r.digest.elim "" (fun digest => String.singleton '@' ++ digest)

/-- A last segment in directories. -/
def inDirs (dirs : List String) (last : String) : String :=
  dirs.foldr (fun dir path => dir ++ String.singleton '/' ++ path) last

/-- The reference as it is written. -/
def text (r : ImageRef) : String := inDirs r.dirs (r.name.text ++ r.suffix)

/-- The condition for the name: a registry with a port is called as the image is. -/
def PortNamed (r : ImageRef) : Prop :=
  ∀ host port, r.registry = some (host, some port) → host.text = r.name.text

variable {r : ImageRef} {isAlphanumeric : Char → Bool} {parseJson : String → Option Json}
  {t : FileTree}

theorem lastSegment_inDirs (dirs : List String) {last : String} (h : '/' ∉ last.toList) :
    lastSegment (inDirs dirs last) = last := by
  induction dirs with
  | nil => exact lastSegment_of_notMem h
  | cons dir dirs ih => exact (lastSegment_append dir _).trans ih

/-- The suffix of a reference is not clean, unless it is empty. -/
theorem suffix_cases (r : ImageRef) :
    r.suffix = "" ∨ ∃ c cs, r.suffix.toList = c :: cs ∧ (c = ':' ∨ c = '@') := by
  rw [suffix]
  cases r.tag with
  | none =>
    cases r.digest with
    | none => exact .inl rfl
    | some digest => exact .inr ⟨'@', digest.1.toList, by simp, .inr rfl⟩
  | some tag =>
    refine .inr ⟨':', tag.text.toList ++
      (r.digest.elim "" fun digest => String.singleton '@' ++ digest).toList, ?_, .inl rfl⟩
    simp only [Option.elim, String.toList_append, String.toList_singleton, List.cons_append,
      List.nil_append]

theorem suffix_slash (r : ImageRef) : '/' ∉ r.suffix.toList := by
  rw [suffix, String.toList_append, List.mem_append, not_or]
  constructor
  · cases r.tag with
    | none => simp
    | some tag => simpa using tag.slash
  · cases r.digest with
    | none => simp
    | some digest => simpa using digest.2

/-- Directories that are clean are part of the stem. -/
theorem stem_inDirs {dirs : List String} (h : ∀ dir ∈ dirs, Clean dir) (last : String) :
    stem (inDirs dirs last) = inDirs dirs (stem last) := by
  induction dirs with
  | nil => rfl
  | cons dir dirs ih =>
    have hdir : Clean (dir ++ String.singleton '/') := by
      intro c hc
      rw [String.toList_append, String.toList_singleton, List.mem_append, List.mem_singleton] at hc
      rcases hc with hc | rfl
      · exact h dir List.mem_cons_self c hc
      · decide
    have hrest := ih fun d hd => h d (List.mem_cons_of_mem _ hd)
    change stem (dir ++ String.singleton '/' ++ inDirs dirs last) = _
    rw [stem_append_of_clean hdir, hrest]
    rfl

theorem stem_name_suffix (r : ImageRef) : stem (r.name.text ++ r.suffix) = r.name.text := by
  rw [stem_append_of_clean r.name.clean]
  rcases r.suffix_cases with hempty | ⟨c, cs, hsuffix, hc⟩
  · rw [hempty]
    exact String.append_empty
  · have hstem : stem r.suffix = "" := by
      rw [stem, hsuffix, List.takeWhile_cons_of_neg, String.ofList_nil]
      rcases hc with rfl | rfl <;> decide
    rw [hstem, String.append_empty]

/-- Without a port, all that a reference has in front of its last segment is clean. -/
theorem clean_dirs (h : ∀ host port, r.registry ≠ some (host, some port)) :
    ∀ dir ∈ r.dirs, Clean dir := by
  intro dir hdir
  rcases List.mem_append.1 hdir with hhost | hsegment
  · rw [Option.mem_toList, Option.map_eq_some_iff] at hhost
    obtain ⟨⟨host, port⟩, hregistry, rfl⟩ := hhost
    cases port with
    | none => exact host.clean
    | some port => exact absurd hregistry (h host port)
  · obtain ⟨segment, -, rfl⟩ := List.mem_map.1 hsegment
    exact segment.clean

/-- Without a port, the name of the image is the last segment up to the suffix. -/
theorem stem_text (h : ∀ host port, r.registry ≠ some (host, some port)) :
    stem r.text = inDirs r.dirs r.name.text := by
  rw [text, stem_inDirs (clean_dirs h), stem_name_suffix]

theorem imageNameFromRef_of_no_port (h : ∀ host port, r.registry ≠ some (host, some port)) :
    imageNameFromRef r.text = r.name.text := by
  rw [imageNameFromRef_eq, stem_text h, lastSegment_inDirs _ r.name.slash]

/-- With a port, the text is cut at that. -/
theorem text_of_port {host port : Part} (h : r.registry = some (host, some port)) :
    r.text = host.text ++ String.singleton ':' ++ port.text ++ String.singleton '/' ++
      inDirs (r.segments.map (·.text)) (r.name.text ++ r.suffix) := by
  rw [text, dirs, h]
  rfl

theorem imageNameFromRef_of_port {host port : Part} (h : r.registry = some (host, some port)) :
    imageNameFromRef r.text = host.text := by
  have hstem : stem r.text = host.text := by
    rw [text_of_port h, String.append_assoc, String.append_assoc, String.append_assoc,
      stem_append_of_clean host.clean, ← String.toList_inj, String.toList_append, stem,
      String.toList_ofList, String.toList_append, String.toList_singleton, List.cons_append,
      List.takeWhile_cons_of_neg (by decide), List.append_nil]
  rw [imageNameFromRef_eq, hstem, lastSegment_of_notMem host.slash]

theorem full_of_port {host port : Part} (h : r.registry = some (host, some port)) :
    Full r.text := by
  have hnames : namesRegistry (host.text ++ String.singleton ':' ++ port.text) = true := by
    have hslash : '/' ∉ (host.text ++ String.singleton ':' ++ port.text).toList := by
      simp only [String.toList_append, String.toList_singleton, List.mem_append,
        List.mem_singleton, not_or]
      exact ⟨⟨host.slash, by decide⟩, port.slash⟩
    have hcolon : Text.contains (host.text ++ String.singleton ':' ++ port.text) ":" = true := by
      refine decide_eq_true ?_
      rw [String.toList_append, String.toList_append, String.toList_singleton]
      exact List.infix_append _ _ _
    rw [namesRegistry, Text.split_of_notMem hslash]
    exact Bool.or_eq_true_iff.2 (.inr hcolon)
  rw [text_of_port h]
  refine ⟨contains_slash _ _, ?_⟩
  rw [namesRegistry_append, hnames]

/-- The image name is the name of the reference exactly if a registry with a port is called as
the image is. -/
theorem imageNameFromRef_text_iff : imageNameFromRef r.text = r.name.text ↔ r.PortNamed := by
  by_cases hport : ∃ host port, r.registry = some (host, some port)
  · obtain ⟨host, port, hregistry⟩ := hport
    rw [imageNameFromRef_of_port hregistry, PortNamed, hregistry]
    constructor
    · rintro heq _ _ ⟨⟩
      exact heq
    · intro h
      exact h host port rfl
  · push Not at hport
    refine iff_of_true (imageNameFromRef_of_no_port hport) ?_
    intro host port hregistry
    exact absurd hregistry (hport host port)

/-! ### The name of the normal reference -/

/-- The name is no name of a file, and nothing comes behind it. -/
def Dots (r : ImageRef) : Prop := (r.name.text = "." ∨ r.name.text = "..") ∧ r.suffix = ""

/-- The registry is clean, or what it has before its first colon or at sign ends in the name. -/
def Told (registry name : String) : Prop := Clean registry ∨ lastSegment (stem registry) = name

/-- The condition on the default registry for a reference that is not full. Where the registry is a
host, its text does not get in the way, and the reference is recognised without it as well or has
no tag and no digest; where it is none, the reference is not recognised either. -/
structure Agrees (isAlphanumeric : Char → Bool) (registry : String) (r : ImageRef) : Prop where
  host : IsHost registry →
    Told registry r.name.text ∧ (isOciReference isAlphanumeric r.text = true ∨ r.suffix = "")
  local_ : ¬IsHost registry → isOciReference isAlphanumeric r.text = false

/-- The same where the name is one of the two that no file has, so that the file name of the path
is that of a directory. -/
structure DotsAgree (registry : String) (r : ImageRef) : Prop where
  host : IsHost registry → ¬Clean registry ∧ Cli.pathName r.text = lastSegment (stem registry)
  local_ : ¬IsHost registry →
    Cli.pathName r.text = Cli.pathName (registry ++ String.singleton '/' ++ r.text)

/-- The last segment of what is not full is its name and its suffix. -/
theorem lastSegment_text (r : ImageRef) : lastSegment r.text = r.name.text ++ r.suffix := by
  refine lastSegment_inDirs _ ?_
  rw [String.toList_append, List.mem_append, not_or]
  exact ⟨r.name.slash, r.suffix_slash⟩

/-- A reference that is recognised without being full has a tag or a digest. -/
theorem suffix_of_recognised (h : isOciReference isAlphanumeric r.text = true)
    (hfull : ¬Full r.text) : r.suffix ≠ "" := by
  intro hsuffix
  have hslash : ¬Text.contains r.text "/" = true := by
    intro hslash
    exact hfull ⟨hslash, ((isOciReference_slash_iff hslash).1 h).names⟩
  have hname : r.text = r.name.text := by
    have hlast := r.lastSegment_text
    rw [lastSegment_of_notMem (notMem_of_not_contains hslash), hsuffix, String.append_empty] at hlast
    exact hlast
  have hcolon : ':' ∈ r.text.toList := by
    unfold isOciReference at h
    split at h
    · exact nomatch h
    · dsimp only at h
      split at h
      · rename_i hsplit
        exact Text.mem_of_splitOnce hsplit
      · exact nomatch h
  rw [hname] at hcolon
  exact (r.name.clean ':' hcolon).1 rfl

/-- The last segment stands for itself as a file name. -/
theorem pathName_inDirs (hdots : ¬r.Dots) (dirs : List String) :
    Cli.pathName (inDirs dirs (r.name.text ++ r.suffix)) = r.name.text ++ r.suffix := by
  have hslash : '/' ∉ (r.name.text ++ r.suffix).toList := by
    rw [String.toList_append, List.mem_append, not_or]
    exact ⟨r.name.slash, r.suffix_slash⟩
  have hlast := lastSegment_inDirs dirs hslash
  have hne (dot : String) (hdot : dot = "." ∨ dot = "..") : r.name.text ++ r.suffix ≠ dot := by
    intro heq
    rcases r.suffix_cases with hempty | ⟨c, cs, hsuffix, hc⟩
    · rw [hempty, String.append_empty] at heq
      exact hdots ⟨heq.symm ▸ hdot, hempty⟩
    · have hmem : c ∈ dot.toList := by
        rw [← heq, String.toList_append, hsuffix]
        exact List.mem_append_right _ List.mem_cons_self
      rcases hdot with rfl | rfl <;> rcases hc with rfl | rfl <;> exact absurd hmem (by decide)
  have hempty : r.name.text ++ r.suffix ≠ "" := by
    intro heq
    exact r.name.nonempty (String.append_eq_empty_iff.1 heq).1
  rw [Cli.pathName, fileName_of_lastSegment]
  · rw [hlast]
    rfl
  · rwa [hlast]
  · rw [hlast]
    exact hne "." (.inl rfl)
  · rw [hlast]
    exact hne ".." (.inr rfl)

/-- No path has `.` or `..` for its file name. -/
theorem pathName_ne_dots (path : String) : ¬(Cli.pathName path = "." ∨ Cli.pathName path = "..") := by
  rw [Cli.pathName]
  cases hfile : fileName path with
  | none => decide
  | some file =>
    obtain ⟨-, -, hdot, hnames⟩ := fileName_spec hfile
    rintro (rfl | rfl)
    · exact hdot rfl
    · exact absurd hnames (by decide)

/-- What is not full is put under the registry, and in the directory `library` of the usual one. -/
theorem normal_inDirs (hfull : ¬Full r.text) : ∃ library : List String,
    (∀ dir ∈ library, Clean dir) ∧ normalizeReference parseJson t r.text =
      inDirs (loadDefaultRegistry parseJson t :: (library ++ r.dirs)) (r.name.text ++ r.suffix) := by
  obtain ⟨front, rfl | rfl, hfront⟩ := @normalizeReference_of_not_full parseJson t r.text hfull
  · refine ⟨[], nofun, ?_⟩
    rw [hfront, String.empty_append]
    rfl
  · refine ⟨["library"], ?_, ?_⟩
    · intro dir hdir
      rw [List.mem_singleton.1 hdir]
      exact List.all_iff_forall_prop.1 (by decide)
    · rw [hfront]
      rfl

/-- The image name of a reference under a registry. -/
theorem imageNameFromRef_under (registry : String) {dirs : List String}
    (h : ∀ dir ∈ dirs, Clean dir) (r : ImageRef) :
    (Clean registry ∧
      imageNameFromRef (inDirs (registry :: dirs) (r.name.text ++ r.suffix)) = r.name.text) ∨
    (¬Clean registry ∧ imageNameFromRef (inDirs (registry :: dirs) (r.name.text ++ r.suffix)) =
      lastSegment (stem registry)) := by
  by_cases hclean : Clean registry
  · refine .inl ⟨hclean, ?_⟩
    rw [imageNameFromRef_eq, stem_inDirs, stem_name_suffix, lastSegment_inDirs _ r.name.slash]
    intro dir hdir
    rcases List.mem_cons.1 hdir with rfl | hdir
    · exact hclean
    · exact h dir hdir
  · refine .inr ⟨hclean, ?_⟩
    change imageNameFromRef (registry ++ String.singleton '/' ++ _) = _
    rw [imageNameFromRef_eq, String.append_assoc, stem_append_of_not_clean hclean]

theorem clean_imageNameFromRef (reference : String) : Clean (imageNameFromRef reference) := by
  intro c hc
  rw [imageNameFromRef_eq] at hc
  exact clean_stem reference c (mem_of_mem_lastSegment hc)

/-- An image name that is not the reference's own one is not its last segment either. -/
theorem imageNameFromRef_eq_last {reference : String}
    (h : r.name.text ++ r.suffix = imageNameFromRef reference) : r.suffix = "" := by
  rcases r.suffix_cases with hempty | ⟨c, cs, hsuffix, hc⟩
  · exact hempty
  · have hmem : c ∈ (imageNameFromRef reference).toList := by
      rw [← h, String.toList_append, hsuffix]
      exact List.mem_append_right _ List.mem_cons_self
    have hclean := clean_imageNameFromRef reference c hmem
    rcases hc with rfl | rfl
    · exact absurd rfl hclean.1
    · exact absurd rfl hclean.2

theorem name_eq_imageNameFromRef_iff (registry : String) {dirs : List String}
    (h : ∀ dir ∈ dirs, Clean dir) : r.name.text =
      imageNameFromRef (inDirs (registry :: dirs) (r.name.text ++ r.suffix)) ↔
        Told registry r.name.text := by
  rcases imageNameFromRef_under registry h r with ⟨hclean, hname⟩ | ⟨hnot, hname⟩
  · rw [hname]
    exact iff_of_true rfl (.inl hclean)
  · rw [hname, Told, or_iff_right hnot]
    exact eq_comm

theorem deriveName_recognised {path : String} (h : isOciReference isAlphanumeric path = true) :
    Cli.deriveName isAlphanumeric path none = imageNameFromRef path := if_pos h

theorem deriveName_path {path : String} (h : ¬isOciReference isAlphanumeric path = true) :
    Cli.deriveName isAlphanumeric path none = Cli.pathName path := if_neg h

/-- The default name of a reference that is not full is that of its normal form exactly if they
agree. -/
theorem deriveName_iff (hport : ∀ host port, r.registry ≠ some (host, some port))
    (hfull : ¬Full r.text) : Cli.deriveName isAlphanumeric r.text none =
      Cli.deriveName isAlphanumeric (normalizeReference parseJson t r.text) none ↔
    (r.Dots → DotsAgree (loadDefaultRegistry parseJson t) r) ∧
      (¬r.Dots → Agrees isAlphanumeric (loadDefaultRegistry parseJson t) r) := by
  obtain ⟨library, hlibrary, hnormal⟩ := @normal_inDirs r parseJson t hfull
  have hunder := @normalizeReference_of_not_host parseJson t r.text hfull
  generalize loadDefaultRegistry parseJson t = registry at hnormal hunder
  have hdirs : ∀ dir ∈ library ++ r.dirs, Clean dir := by
    intro dir hdir
    rcases List.mem_append.1 hdir with hdir | hdir
    · exact hlibrary dir hdir
    · exact clean_dirs hport dir hdir
  have hhost : isOciReference isAlphanumeric (normalizeReference parseJson t r.text) = true ↔
      IsHost registry := by
    rw [hnormal]
    exact (isOciReference_slash_iff (contains_slash _ _)).trans (isHost_append _ _)
  have hname := imageNameFromRef_of_no_port hport
  by_cases hdots : r.Dots
  · have hrec : ¬isOciReference isAlphanumeric r.text = true :=
      fun hrec => suffix_of_recognised hrec hfull hdots.2
    rw [deriveName_path hrec, forall_prop_of_true hdots, and_iff_left fun hnot => absurd hdots hnot]
    by_cases hreg : IsHost registry
    · rw [deriveName_recognised (hhost.2 hreg), hnormal]
      rcases imageNameFromRef_under registry hdirs r with ⟨hclean, hsame⟩ | ⟨hnot, hother⟩
      · rw [hsame]
        refine iff_of_false (fun heq => pathName_ne_dots r.text (heq ▸ hdots.1)) fun h => ?_
        exact (h.host hreg).1 hclean
      · rw [hother]
        exact ⟨fun heq => ⟨fun _ => ⟨hnot, heq⟩, fun h => absurd hreg h⟩, fun h => (h.host hreg).2⟩
    · rw [deriveName_path (mt hhost.1 hreg), hunder hreg]
      exact ⟨fun heq => ⟨fun h => absurd h hreg, fun _ => heq⟩, fun h => h.local_ hreg⟩
  · have hpath : Cli.pathName r.text = r.name.text ++ r.suffix := pathName_inDirs hdots _
    rw [and_iff_right fun h => absurd h hdots, forall_prop_of_true hdots]
    by_cases hreg : IsHost registry
    · rw [deriveName_recognised (hhost.2 hreg), hnormal]
      by_cases hrec : isOciReference isAlphanumeric r.text = true
      · rw [deriveName_recognised hrec, hname, name_eq_imageNameFromRef_iff registry hdirs]
        exact ⟨fun htold => ⟨fun _ => ⟨htold, .inl hrec⟩, fun h => absurd hreg h⟩,
          fun h => (h.host hreg).1⟩
      · rw [deriveName_path hrec, hpath]
        constructor
        · intro heq
          have hsuffix := imageNameFromRef_eq_last heq
          have htold := (name_eq_imageNameFromRef_iff registry hdirs).1
            (by rw [← heq, hsuffix, String.append_empty])
          exact ⟨fun _ => ⟨htold, .inr hsuffix⟩, fun h => absurd hreg h⟩
        · intro h
          obtain ⟨htold, hcase⟩ := h.host hreg
          have hsuffix := hcase.resolve_left hrec
          calc r.name.text ++ r.suffix = r.name.text := by rw [hsuffix, String.append_empty]
            _ = _ := (name_eq_imageNameFromRef_iff registry hdirs).2 htold
    · rw [deriveName_path (mt hhost.1 hreg), hnormal, pathName_inDirs hdots]
      by_cases hrec : isOciReference isAlphanumeric r.text = true
      · rw [deriveName_recognised hrec, hname]
        refine iff_of_false (fun heq => ?_) fun h => ?_
        · have hsuffix : r.suffix = "" := by
            rw [← String.toList_inj, String.toList_append] at heq
            have hnil := List.self_eq_append_right.1 heq
            exact String.toList_inj.1 hnil
          exact suffix_of_recognised hrec hfull hsuffix
        · exact nomatch hrec.symm.trans (h.local_ hreg)
      · rw [deriveName_path hrec, hpath]
        exact iff_of_true rfl ⟨fun h => absurd h hreg, fun _ => Bool.eq_false_iff.2 hrec⟩

/-- Of a reference, the image name is its name, and the default name of an app is the same for its
normal form, exactly if a registry with a port is called as the image is, and the reference is full
or agrees with the default registry. -/
theorem names_iff (isAlphanumeric : Char → Bool) (parseJson : String → Option Json) (t : FileTree)
    (r : ImageRef) :
    (imageNameFromRef r.text = r.name.text ∧ Cli.deriveName isAlphanumeric r.text none =
      Cli.deriveName isAlphanumeric (normalizeReference parseJson t r.text) none) ↔
    r.PortNamed ∧ (Full r.text ∨
      (r.Dots → DotsAgree (loadDefaultRegistry parseJson t) r) ∧
      (¬r.Dots → Agrees isAlphanumeric (loadDefaultRegistry parseJson t) r)) := by
  rw [imageNameFromRef_text_iff]
  refine and_congr_right fun _ => ?_
  by_cases hfull : Full r.text
  · rw [normalizeReference_of_full hfull]
    exact iff_of_true rfl (.inl hfull)
  · have hport : ∀ host port, r.registry ≠ some (host, some port) :=
      fun host port hregistry => hfull (full_of_port hregistry)
    rw [or_iff_right hfull]
    exact deriveName_iff hport hfull

/-- `localhost:5000/app` -/
def localApp : ImageRef where
  registry := some (⟨"localhost", by decide, List.all_iff_forall_prop.1 (by decide)⟩,
    some ⟨"5000", by decide, List.all_iff_forall_prop.1 (by decide)⟩)
  segments := []
  name := ⟨"app", by decide, List.all_iff_forall_prop.1 (by decide)⟩
  tag := none
  digest := none

/-- The image is called as the host of its registry. -/
theorem localApp_named_localhost :
    localApp.text = "localhost:5000/app" ∧ localApp.name.text = "app" ∧
      isOciReference Char.isAlphanum localApp.text = true ∧
      imageNameFromRef localApp.text = "localhost" := by
  decide +kernel

end ImageRef

end Oci
