import NylonRun.Server

/-!
# Normal references

`normalize_reference` puts the default registry in front of a reference whose first segment does
not name one (src/oci.rs:51-68). Whether the result is a reference again, and normal, is decided
by its own first segment, which is that of the registry: `set default-registry` takes any text
(src/oci.rs:80-95).
-/

namespace Oci

/-- The first segment of a path. -/
def firstSegment (path : String) : String := (Text.split '/' path).head?.getD ""

/-- The reference has the name of a registry in front. -/
def Full (reference : String) : Prop :=
  Text.contains reference "/" = true ∧ namesRegistry reference = true

/-- The condition on a registry: its first segment contains a dot or a colon, and is not one of
the two that a local path starts with. -/
structure IsHost (registry : String) : Prop where
  names : namesRegistry registry = true
  dot : firstSegment registry ≠ "."
  dots : firstSegment registry ≠ ".."

variable {isAlphanumeric : Char → Bool} {parseJson : String → Option Json} {t : FileTree}
  {path reference : String}

theorem firstSegment_append (registry rest : String) :
    firstSegment (registry ++ String.singleton '/' ++ rest) = firstSegment registry := by
  rw [firstSegment, Text.head?_split_append, firstSegment]

theorem firstSegment_of_notMem {first : String} (h : '/' ∉ first.toList) :
    firstSegment first = first := by
  rw [firstSegment, Text.split_of_notMem h]
  rfl

/-- A path with a slash is its first segment, a slash and the rest. -/
theorem exists_first (h : Text.contains path "/" = true) :
    ∃ first rest, path = first ++ String.singleton '/' ++ rest ∧ '/' ∉ first.toList ∧
      firstSegment path = first := by
  have hinfix : "/".toList <:+: path.toList := of_decide_eq_true h
  have hmem : '/' ∈ path.toList := hinfix.subset (by decide)
  obtain ⟨front, back, hpath, hfront⟩ := List.eq_append_cons_of_mem hmem
  have hfirst : '/' ∉ (String.ofList front).toList := by rwa [String.toList_ofList]
  have heq : path = String.ofList front ++ String.singleton '/' ++ String.ofList back := by
    rw [← String.toList_inj, hpath]
    simp
  refine ⟨_, _, heq, hfirst, ?_⟩
  rw [heq, firstSegment_append, firstSegment_of_notMem hfirst]

/-- The path starts with a segment exactly if that is its first one. -/
theorem startsWith_segment_iff {segment : String} (hsegment : '/' ∉ segment.toList)
    (h : Text.contains path "/" = true) :
    Text.startsWith path (segment ++ String.singleton '/') = true ↔ firstSegment path = segment := by
  obtain ⟨first, rest, rfl, hfirst, hseg⟩ := exists_first h
  rw [hseg, Text.startsWith, List.isPrefixOf_iff_prefix]
  simp only [String.toList_append, String.toList_singleton, List.append_assoc,
    List.singleton_append]
  constructor
  · rintro ⟨back, heq⟩
    rw [List.append_assoc, List.singleton_append] at heq
    have hheads := Text.append_inj_of_head (c := '/') hsegment hfirst (by simp) (by simp) heq
    exact String.toList_inj.1 hheads.1.symm
  · rintro rfl
    exact ⟨rest.toList, by simp⟩

/-- A path with a slash is recognised exactly if its first segment names a registry. -/
theorem isOciReference_slash_iff (h : Text.contains path "/" = true) :
    isOciReference isAlphanumeric path = true ↔ IsHost path := by
  have hroot : Text.startsWith path "/" = true ↔ firstSegment path = "" :=
    @startsWith_segment_iff path "" (by decide) h
  have hdot : Text.startsWith path "./" = true ↔ firstSegment path = "." :=
    @startsWith_segment_iff path "." (by decide) h
  have hdots : Text.startsWith path "../" = true ↔ firstSegment path = ".." :=
    @startsWith_segment_iff path ".." (by decide) h
  have hempty : firstSegment path = "" → namesRegistry path = false := by
    intro hfirst
    have hnames : namesRegistry path =
        (Text.contains (firstSegment path) "." || Text.contains (firstSegment path) ":") := rfl
    rw [hnames, hfirst]
    decide
  unfold isOciReference
  split
  · rename_i hlocal
    rw [hroot, hdot, hdots] at hlocal
    refine iff_of_false nofun fun hhost => ?_
    rcases hlocal with hfirst | hfirst | hfirst
    · exact nomatch (hempty hfirst).symm.trans hhost.names
    · exact hhost.dot hfirst
    · exact hhost.dots hfirst
  · rename_i hlocal
    dsimp only
    rw [hroot, hdot, hdots, not_or, not_or] at hlocal
    exact ⟨fun hnames => ⟨hnames, hlocal.2.1, hlocal.2.2⟩, IsHost.names⟩

theorem isHost_append (registry rest : String) :
    IsHost (registry ++ String.singleton '/' ++ rest) ↔ IsHost registry := by
  constructor
  · rintro ⟨hnames, hdot, hdots⟩
    rw [namesRegistry_append] at hnames
    rw [firstSegment_append] at hdot hdots
    exact ⟨hnames, hdot, hdots⟩
  · rintro ⟨hnames, hdot, hdots⟩
    refine ⟨?_, ?_, ?_⟩
    · rw [namesRegistry_append, hnames]
    · rwa [firstSegment_append]
    · rwa [firstSegment_append]

theorem normalizeReference_of_full (h : Full reference) :
    normalizeReference parseJson t reference = reference := by
  rw [normalizeReference, h.1, h.2]
  rfl

/-- A reference that is not full is put behind the registry. -/
theorem normalizeReference_of_not_full (h : ¬Full reference) :
    ∃ front, (front = "" ∨ front = "library/") ∧ normalizeReference parseJson t reference =
      loadDefaultRegistry parseJson t ++ String.singleton '/' ++ (front ++ reference) := by
  have hcond : ¬(Text.contains reference "/" && namesRegistry reference) = true := by
    rwa [Bool.and_eq_true]
  rw [normalizeReference, if_neg hcond]
  dsimp only
  split
  · refine ⟨"library/", .inr rfl, ?_⟩
    rw [← String.toList_inj]
    simp [String.toList_append]
    rfl
  · refine ⟨"", .inl rfl, ?_⟩
    rw [String.empty_append]
    rfl

theorem isHost_docker : IsHost "docker.io" := ⟨by decide, by decide, by decide⟩

/-- Only a registry that is a host has a directory for what has none. -/
theorem normalizeReference_of_not_host (h : ¬Full reference)
    (hhost : ¬IsHost (loadDefaultRegistry parseJson t)) : normalizeReference parseJson t reference =
      loadDefaultRegistry parseJson t ++ String.singleton '/' ++ reference := by
  have hcond : ¬(Text.contains reference "/" && namesRegistry reference) = true := by
    rwa [Bool.and_eq_true]
  have hdocker : loadDefaultRegistry parseJson t ≠ "docker.io" :=
    fun heq => hhost (heq.symm ▸ isHost_docker)
  rw [normalizeReference, if_neg hcond]
  dsimp only
  rw [if_neg hdocker]
  rfl

/-- A reference is normal exactly if it is full. -/
theorem normalizeReference_eq_self_iff :
    normalizeReference parseJson t reference = reference ↔ Full reference := by
  refine ⟨fun h => ?_, normalizeReference_of_full⟩
  by_contra hnot
  obtain ⟨front, -, hfront⟩ := @normalizeReference_of_not_full parseJson t reference hnot
  have hlength := congrArg String.length (hfront.symm.trans h)
  simp only [String.length_append, String.length_singleton] at hlength
  omega

/-- A reference stays one when it is normalized, and is normal then, exactly if it is full as it is
or the default registry is a host. -/
theorem normalizeReference_closed_iff (href : isOciReference isAlphanumeric reference = true)
    (t' : FileTree) :
    (isOciReference isAlphanumeric (normalizeReference parseJson t reference) = true ∧
      normalizeReference parseJson t' (normalizeReference parseJson t reference) =
        normalizeReference parseJson t reference) ↔
    Full reference ∨ IsHost (loadDefaultRegistry parseJson t) := by
  rw [normalizeReference_eq_self_iff]
  by_cases hfull : Full reference
  · rw [normalizeReference_of_full hfull]
    exact iff_of_true ⟨href, hfull⟩ (.inl hfull)
  · obtain ⟨front, -, hfront⟩ := @normalizeReference_of_not_full parseJson t reference hfull
    rw [hfront, isOciReference_slash_iff (contains_slash _ _), isHost_append, or_iff_right hfull]
    refine and_iff_left_of_imp fun hhost => ⟨contains_slash _ _, ?_⟩
    rw [namesRegistry_append, hhost.names]

/-- How `serde_json` writes settings that have only a default registry. -/
def registrySettings : Json → String
  | .object [("default-registry", .string registry)] =>
    "\x7b\n  \"default-registry\": \"" ++ registry ++ "\"\n\x7d"
  | _ => "null"

/-- An outside that reads the settings with this registry as they are written. -/
def settingsOs (registry : String) : Os :=
  let settings := Json.object [("default-registry", .string registry)]
  { Os.serving 7 4000 with
    prePull := { LaunchOs.serving .null 7 with
      parseJson := fun text => if text = registrySettings settings then some settings else none }
    prettyJson := registrySettings }

/-- A daemon on an empty disk whose default registry is set. -/
def registrySet (registry : String) : DaemonState × Option Response :=
  Server.handleSet (settingsOs registry) (.initial .empty .empty) "default-registry" registry

/-- A short name under a registry that is a host. -/
theorem normalizeReference_closed_ghcr :
    isOciReference Char.isAlphanum "nginx:1" = true ∧
    isOciReference Char.isAlphanum (normalizeReference (settingsOs "ghcr.io").prePull.parseJson
      (registrySet "ghcr.io").1.disk "nginx:1") = true ∧
    normalizeReference (settingsOs "ghcr.io").prePull.parseJson (registrySet "ghcr.io").1.disk
        (normalizeReference (settingsOs "ghcr.io").prePull.parseJson
          (registrySet "ghcr.io").1.disk "nginx:1") =
      normalizeReference (settingsOs "ghcr.io").prePull.parseJson
        (registrySet "ghcr.io").1.disk "nginx:1" := by
  have href : isOciReference Char.isAlphanum "nginx:1" = true := by decide
  have hload : loadDefaultRegistry (settingsOs "ghcr.io").prePull.parseJson
      (registrySet "ghcr.io").1.disk = "ghcr.io" := by decide +kernel
  have hhost : IsHost "ghcr.io" := ⟨by decide, by decide, by decide⟩
  have hclosed := (@normalizeReference_closed_iff Char.isAlphanum
    (settingsOs "ghcr.io").prePull.parseJson (registrySet "ghcr.io").1.disk "nginx:1" href
    (registrySet "ghcr.io").1.disk).2 (.inr (hload.symm ▸ hhost))
  exact ⟨href, hclosed⟩

/-- A registry that is a plain name is accepted, and put in front once more each time. -/
theorem registry_prefixed_twice :
    (registrySet "registry").2.any (·.isOk) = true ∧
    loadDefaultRegistry (settingsOs "registry").prePull.parseJson
      (registrySet "registry").1.disk = "registry" ∧
    isOciReference Char.isAlphanum "nginx:1" = true ∧
    normalizeReference (settingsOs "registry").prePull.parseJson
      (registrySet "registry").1.disk "nginx:1" = "registry/nginx:1" ∧
    isOciReference Char.isAlphanum "registry/nginx:1" = false ∧
    normalizeReference (settingsOs "registry").prePull.parseJson
      (registrySet "registry").1.disk "registry/nginx:1" = "registry/registry/nginx:1" := by
  decide +kernel

end Oci
