import NylonRun.Lib.Text

/-!
# Unix paths as text

Paths are strings; what a path means is read off its components, as in Rust's
`std::path` on Unix: repeated separators, a trailing separator and every `.` but a leading
one carry no meaning, `..` is kept. `lexical` resolves `.` and `..` on the text alone.
-/

namespace UnixPath

inductive Component where
  | root
  | cur
  | parent
  | normal (name : String)
  deriving DecidableEq, Repr

/-- The text between the separators. -/
def segments (p : String) : List String := (p.toList.splitOn '/').map String.ofList

def isAbsolute (p : String) : Bool := p.toList.head? == some '/'

/-- A segment as a component; the empty one and `.` say nothing. -/
def ofSegment (s : String) : Option Component :=
  if s = "" then none
  else if s = "." then none
  else if s = ".." then some .parent
  else some (.normal s)

/-- The components that do not depend on where the path starts. -/
def names (p : String) : List Component := (segments p).filterMap ofSegment

/-- `Path::components`. -/
def components (p : String) : List Component :=
  if isAbsolute p then .root :: names p
  else if (segments p).head? = some "." then .cur :: names p
  else names p

/-- `PathBuf::join`: an absolute argument replaces the path. -/
def join (base p : String) : String :=
  if isAbsolute p then p
  else if base.toList.getLast? = none ∨ base.toList.getLast? = some '/' then base ++ p
  else base ++ "/" ++ p

/-- The components of a path joined to another. -/
def joinComponents (base cs : List Component) : List Component :=
  if cs.head? = some .root then cs else base ++ cs.filter (· ≠ .cur)

/-- `Path::starts_with`: whole components are compared. -/
def startsWith (p base : String) : Bool := (components base).isPrefixOf (components p)

/-- `Path::file_name`. -/
def fileName (p : String) : Option String :=
  match (components p).getLast? with
  | some (.normal n) => some n
  | _ => none

/-- `Path::parent`, as the components of the parent. -/
def parent (p : String) : Option (List Component) :=
  match (components p).getLast? with
  | none | some .root => none
  | some _ => some (components p).dropLast

/-- Where one component leads from a directory. -/
def advance (dir : List String) : Component → List String
  | .root => []
  | .cur => dir
  | .parent => dir.dropLast
  | .normal n => dir ++ [n]

/-- Where the components lead from a directory, on the text alone. -/
def lexical (dir : List String) (cs : List Component) : List String := cs.foldl advance dir

/-- An absolute place as text. -/
def render (p : List String) : String := "/" ++ "/".intercalate p

@[simp] theorem lexical_nil (dir : List String) : lexical dir [] = dir := rfl

@[simp] theorem lexical_cons (dir : List String) (c : Component) (cs : List Component) :
    lexical dir (c :: cs) = lexical (advance dir c) cs := rfl

theorem lexical_append (dir : List String) (cs ds : List Component) :
    lexical dir (cs ++ ds) = lexical (lexical dir cs) ds := List.foldl_append

theorem lexical_of_root {cs : List Component} (h : cs.head? = some .root) (dir : List String) :
    lexical dir cs = lexical [] cs := by
  rcases cs with _ | ⟨c, cs⟩
  · cases h
  · obtain rfl : c = .root := by simpa using h
    rfl

theorem ne_empty_of_isAbsolute {p : String} (h : isAbsolute p = true) : p ≠ "" := by
  rintro rfl
  cases h

theorem head?_components {p : String} (h : isAbsolute p = true) :
    (components p).head? = some .root := by
  rw [components, if_pos h]; rfl

theorem segments_join_slash (base p : String) :
    segments (base ++ "/" ++ p) = segments base ++ segments p := by
  simp only [segments, String.toList_append]
  rw [List.append_assoc, show ("/" : String).toList ++ p.toList = '/' :: p.toList from rfl,
    List.splitOn_append_cons_self, List.map_append]

theorem names_join_slash (base p : String) : names (base ++ "/" ++ p) = names base ++ names p := by
  rw [names, segments_join_slash, List.filterMap_append]; rfl

theorem isAbsolute_append {base : String} (p : String) (h : isAbsolute base = true) :
    isAbsolute (base ++ p) = true := by
  unfold isAbsolute at h ⊢
  rw [String.toList_append]
  cases hb : base.toList with
  | nil => rw [hb] at h; cases h
  | cons c cs => rw [hb] at h; exact h

theorem root_notMem_names (p : String) : .root ∉ names p := by
  intro h
  obtain ⟨s, -, hs⟩ := List.mem_filterMap.1 h
  unfold ofSegment at hs
  split at hs
  · cases hs
  · split at hs
    · cases hs
    · split at hs <;> cases hs

theorem names_slash (base : String) : names (base ++ "/") = names base := by
  have hempty : base ++ "/" = base ++ "/" ++ "" := by rw [String.append_empty]
  rw [hempty, names_join_slash, show names "" = [] from rfl, List.append_nil]

/-- A path that ends with a separator, without it. -/
theorem exists_slash {base : String} (h : base.toList.getLast? = some '/') :
    ∃ front, base = front ++ "/" := by
  refine ⟨String.ofList base.toList.dropLast, ?_⟩
  rw [← String.toList_inj, String.toList_append, String.toList_ofList]
  exact (List.dropLast_append_getLast? '/' h).symm

/-- A relative path joined to an absolute one. -/
theorem components_join {base p : String} (hbase : isAbsolute base = true)
    (hp : isAbsolute p = false) : components (join base p) = components base ++ names p := by
  have hne : base.toList.getLast? ≠ none := by
    intro h
    rw [List.getLast?_eq_none_iff] at h
    rw [isAbsolute, h] at hbase
    cases hbase
  have hnames : isAbsolute (join base p) = true ∧ names (join base p) = names base ++ names p := by
    by_cases hend : base.toList.getLast? = some '/'
    · obtain ⟨front, hfront⟩ := exists_slash hend
      rw [join, if_neg (by simp [hp]), if_pos (.inr hend)]
      refine ⟨isAbsolute_append _ hbase, ?_⟩
      rw [hfront, names_join_slash, names_slash]
    · rw [join, if_neg (by simp [hp]), if_neg (by simp [hne, hend])]
      exact ⟨isAbsolute_append _ (isAbsolute_append _ hbase), names_join_slash base p⟩
  rw [components, if_pos hnames.1, components, if_pos hbase, hnames.2, List.cons_append]

theorem isAbsolute_join {base : String} (p : String) (h : isAbsolute base = true) :
    isAbsolute (join base p) = true := by
  unfold join
  split
  · assumption
  · split
    · exact isAbsolute_append _ h
    · exact isAbsolute_append _ (isAbsolute_append _ h)

theorem join_absolute {base p : String} (hp : isAbsolute p = true) : join base p = p := by
  rw [join, if_pos hp]

/-! ## The name of a file -/

theorem notMem_of_mem_segments {p s : String} (h : s ∈ segments p) : '/' ∉ s.toList := by
  obtain ⟨l, hl, rfl⟩ := List.mem_map.1 h
  rw [String.toList_ofList]
  exact Text.notMem_of_mem_splitOn hl

theorem segments_eq_singleton {s : String} (h : '/' ∉ s.toList) : segments s = [s] := by
  rw [segments, List.splitOn_eq_singleton h, List.map_singleton, String.ofList_toList]

theorem segments_slash (p : String) : segments ("/" ++ p) = "" :: segments p := by
  have h := segments_join_slash "" p
  rwa [String.empty_append] at h

theorem segments_intercalate {p : List String} (hne : p ≠ []) (h : ∀ n ∈ p, '/' ∉ n.toList) :
    segments ("/".intercalate p) = p := by
  induction p with
  | nil => exact absurd rfl hne
  | cons n p ih =>
    cases p with
    | nil => rw [String.intercalate_singleton, segments_eq_singleton (h n List.mem_cons_self)]
    | cons m p =>
      rw [String.intercalate_cons_cons, segments_join_slash,
        segments_eq_singleton (h n List.mem_cons_self),
        ih (by simp) fun k hk => h k (List.mem_cons_of_mem _ hk)]
      rfl

/-- The text of a place, between the separators. -/
theorem segments_render {p : List String} (hne : p ≠ []) (h : ∀ n ∈ p, '/' ∉ n.toList) :
    segments (render p) = "" :: p := by
  rw [render, segments_slash, segments_intercalate hne h]

/-- A path that starts with a name is not absolute. -/
theorem isAbsolute_of_segments {p n : String} {rest : List String} (h : segments p = n :: rest)
    (hn : n ≠ "") : isAbsolute p = false := by
  rw [← Bool.not_eq_true]
  intro habs
  obtain ⟨back, rfl⟩ : ∃ back, p = "/" ++ back := by
    unfold isAbsolute at habs
    cases hp : p.toList with
    | nil => rw [hp] at habs; cases habs
    | cons c cs =>
      rw [hp] at habs
      refine ⟨String.ofList cs, ?_⟩
      have hc : c = '/' := by simpa using habs
      rw [← String.toList_inj, hp, hc]
      simp
  rw [segments_slash] at h
  exact hn (List.cons.inj h).1.symm

theorem segments_render_nil : segments (render []) = ["", ""] := by
  rw [render, segments_slash, String.intercalate_nil]
  rfl

/-- A component that is a name stands for itself as a path. -/
theorem ofSegment_normal {s n : String} (h : ofSegment s = some (.normal n)) :
    s = n ∧ n ≠ "" ∧ n ≠ "." := by
  unfold ofSegment at h
  split at h
  · cases h
  · split at h
    · cases h
    · split at h
      · cases h
      · cases h
        exact ⟨rfl, by assumption, by assumption⟩

/-- A name in a path is a path of its own. -/
theorem normal_spec {p n : String} (h : .normal n ∈ components p) :
    '/' ∉ n.toList ∧ n ≠ "" ∧ n ≠ "." ∧ names n = [.normal n] := by
  have hname : Component.normal n ∈ names p := by
    unfold components at h
    split at h
    · simpa using h
    · split at h <;> simpa using h
  obtain ⟨s, hs, hseg⟩ := List.mem_filterMap.1 hname
  obtain ⟨rfl, hempty, hdot⟩ := ofSegment_normal hseg
  refine ⟨notMem_of_mem_segments hs, hempty, hdot, ?_⟩
  rw [names, segments_eq_singleton (notMem_of_mem_segments hs), List.filterMap_cons, hseg]
  rfl

theorem fileName_spec {p n : String} (h : fileName p = some n) :
    '/' ∉ n.toList ∧ n ≠ "" ∧ n ≠ "." ∧ names n = [.normal n] := by
  unfold fileName at h
  split at h
  · rename_i heq
    cases h
    exact normal_spec (List.mem_of_getLast? heq)
  · cases h

theorem ofSegment_some {s : String} (hne : s ≠ "") (hdot : s ≠ ".") : ∃ c, ofSegment s = some c := by
  unfold ofSegment
  rw [if_neg hne, if_neg hdot]
  split
  · exact ⟨_, rfl⟩
  · exact ⟨_, rfl⟩

theorem components_ne_nil {p : String} (h : p ≠ "") : components p ≠ [] := by
  unfold components
  split
  · simp
  · rename_i habs
    rcases hp : p.toList with _ | ⟨c, cs⟩
    · exact absurd (by rwa [← String.toList_inj]) h
    · have hc : ¬(c == '/') = true := by
        intro hc
        rw [isAbsolute, hp] at habs
        exact habs (by simpa using hc)
      rcases hs : cs.splitOn '/' with _ | ⟨first, rest⟩
      · exact absurd hs (List.splitOn_ne_nil _ _)
      · -- the first segment is not empty
        have hseg : segments p = String.ofList (c :: first) :: rest.map String.ofList := by
          rw [segments, hp, List.splitOn_cons_eq_if_modifyHead, if_neg hc, hs]
          rfl
        have hne : String.ofList (c :: first) ≠ "" := by
          rw [Ne, ← String.toList_inj, String.toList_ofList]
          simp
        split
        · simp
        · rename_i hdot
          rw [hseg, List.head?_cons, Option.some.injEq] at hdot
          obtain ⟨d, hd⟩ := ofSegment_some hne hdot
          rw [names, hseg, List.filterMap_cons, hd]
          simp

theorem isAbsolute_of_notMem {s : String} (h : '/' ∉ s.toList) : isAbsolute s = false := by
  unfold isAbsolute
  cases hs : s.toList with
  | nil => rfl
  | cons c cs =>
    rw [hs, List.mem_cons, not_or] at h
    simpa using Ne.symm h.1

theorem fileName_join {base n : String} (hbase : isAbsolute base = true)
    (hn : '/' ∉ n.toList) (hnames : names n = [.normal n]) : fileName (join base n) = some n := by
  have hrel : isAbsolute n = false := isAbsolute_of_notMem hn
  unfold fileName
  rw [components_join hbase hrel, hnames, List.getLast?_concat]

/-- The directory of an absolute path and the last component. -/
theorem parent_absolute {outPath : String} (h : isAbsolute outPath = true) :
    ∃ c, components outPath = (components outPath).dropLast ++ [c] ∧
      (c ≠ .root ∧ parent outPath = some (components outPath).dropLast ∨
        c = .root ∧ parent outPath = none) := by
  have hne : components outPath ≠ [] := by rw [components, if_pos h]; simp
  have hlast := List.getLast?_eq_some_getLast hne
  refine ⟨_, (List.dropLast_append_getLast hne).symm, ?_⟩
  unfold parent
  rw [hlast]
  cases (components outPath).getLast hne <;> simp

theorem parent_prefix (p : String) : (parent p).getD [] <+: components p := by
  unfold parent
  split
  · exact List.nil_prefix
  · exact List.nil_prefix
  · exact List.dropLast_prefix _

/-- The directory of an absolute path is one too, or the path is that of the root. -/
theorem head_dropLast {outPath : String} {c : Component} (h : isAbsolute outPath = true)
    (hc : components outPath = (components outPath).dropLast ++ [c]) (hroot : c ≠ .root) :
    (components outPath).dropLast.head? = some .root := by
  have hhead := head?_components h
  rcases hd : (components outPath).dropLast with _ | ⟨d, ds⟩
  · rw [hc, hd] at hhead
    exact absurd (by simpa using hhead) hroot
  · rw [hc, hd] at hhead
    exact hhead

theorem parent_rooted {outPath : String} (h : isAbsolute outPath = true) :
    (parent outPath).getD [] = [] ∨ ((parent outPath).getD []).head? = some .root := by
  obtain ⟨c, hc, ⟨hroot, hp⟩ | ⟨-, hp⟩⟩ := parent_absolute h
  · exact .inr (by rw [hp]; exact head_dropLast h hc hroot)
  · exact .inl (by rw [hp]; rfl)

/-- The text after the last separator of a path joined to another. -/
theorem getLast?_segments_join {base p : String} (hp : isAbsolute p = false) :
    (segments (join base p)).getLast? = (segments p).getLast? := by
  have hlast (front : String) :
      (segments (front ++ "/" ++ p)).getLast? = (segments p).getLast? := by
    rw [segments_join_slash, List.getLast?_append]
    cases h : (segments p).getLast? with
    | none =>
      rw [List.getLast?_eq_none_iff, segments, List.map_eq_nil_iff] at h
      exact absurd h (List.splitOn_ne_nil _ _)
    | some s => rfl
  rw [join, if_neg (by simp [hp])]
  split
  · rename_i hbase
    rcases hbase with hbase | hbase
    · rw [List.getLast?_eq_none_iff] at hbase
      have : base = "" := by rwa [← String.toList_inj]
      rw [this, String.empty_append]
    · obtain ⟨front, rfl⟩ := exists_slash hbase
      exact hlast front
  · exact hlast base

end UnixPath
