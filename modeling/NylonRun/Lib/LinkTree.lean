import NylonRun.Lib.FileTree

/-!
# Reading a file system with symbolic links

A tree of directories, regular files and symbolic links, which is only read. A path is resolved
from left to right; a link on the way is replaced by its target, at most forty times. Names and
paths may be of any length.
-/

open UnixPath

namespace LinkTree

inductive Entry where
  | dir
  | file (content : Bytes) (readable : Bool)
  | link (target : String)
  deriving DecidableEq, Repr

/-- What stands at a place; the root is always a directory. -/
def entryAt (entries : Dict Place Entry) (p : Place) : Option Entry :=
  if p = [] then some .dir else entries.lookup p

/-- A name that an entry of a directory may have. -/
def ValidName (n : String) : Prop := '/' ∉ n.toList ∧ n ≠ "" ∧ n ≠ "." ∧ n ≠ ".."

instance (n : String) : Decidable (ValidName n) := inferInstanceAs (Decidable (_ ∧ _))

end LinkTree

structure LinkTree where
  cwd : Place
  entries : Dict Place LinkTree.Entry
  /-- What exists has a name, in a directory. -/
  closed : ∀ p ∈ entries.keys, ∃ n ∈ p.getLast?, LinkTree.ValidName n ∧
    LinkTree.entryAt entries p.dropLast = some .dir
  cwdDir : LinkTree.entryAt entries cwd = some .dir

namespace LinkTree

def lstat (t : LinkTree) (p : Place) : Option Entry := entryAt t.entries p

/-- The walk along the segments of a path, from a place. A link is handed to `follow`, with the
directory it is read from and all segments that are left. -/
def walkWith (t : LinkTree) (follow : Place → List String → Option Place) :
    Place → List String → Option Place
  | p, [] => some p
  | p, s :: rest =>
    if t.lstat p ≠ some .dir then none
    else if s = "" ∨ s = "." then walkWith t follow p rest
    else if s = ".." then walkWith t follow p.dropLast rest
    else
      match t.lstat (p ++ [s]) with
      | none => none
      | some (.link target) =>
        if target = "" then none
        else follow (if isAbsolute target then [] else p) (segments target ++ rest)
      | some _ => walkWith t follow (p ++ [s]) rest

/-- The walk, with the number of links that may still be followed. -/
def walk (t : LinkTree) : Nat → Place → List String → Option Place
  | 0 => walkWith t fun _ _ => none
  | links + 1 => walkWith t (walk t links)

/-- The links that a resolution follows at most. -/
def maxLinks : Nat := 40

/-- `canonicalize`: the place that a path leads to, through links. -/
def canonicalize (t : LinkTree) (path : String) : Option Place :=
  if path = "" then none
  else t.walk maxLinks (if isAbsolute path then [] else t.cwd) (segments path)

/-- `Path::exists`. -/
def pathExists (t : LinkTree) (path : String) : Bool := (t.canonicalize path).isSome

/-- `fs::read`: directories and files that may not be read give an error. -/
def read (t : LinkTree) (path : String) : Option Bytes :=
  match (t.canonicalize path).bind t.lstat with
  | some (.file content true) => some content
  | _ => none

/-! ## Where a walk ends -/

variable {t : LinkTree}

/-- Something other than a link stands at the place. -/
def Real (t : LinkTree) (p : Place) : Prop := ∃ e, t.lstat p = some e ∧ ∀ target, e ≠ .link target

theorem real_of_dir {p : Place} (h : t.lstat p = some .dir) : t.Real p := ⟨.dir, h, by simp⟩

theorem closed_lstat {p : Place} {n : String} {e : Entry} (h : t.lstat (p ++ [n]) = some e) :
    ValidName n ∧ t.lstat p = some .dir := by
  have hmem : p ++ [n] ∈ t.entries.keys := by
    unfold lstat entryAt at h
    rw [if_neg (by simp)] at h
    exact Dict.mem_of_lookup h
  obtain ⟨m, hm, hvalid, hdir⟩ := t.closed _ hmem
  rw [List.getLast?_concat, Option.mem_some_iff] at hm
  rw [List.dropLast_concat] at hdir
  exact ⟨hm ▸ hvalid, hdir⟩

theorem lstat_dropLast {p : Place} {e : Entry} (h : t.lstat p = some e) :
    t.lstat p.dropLast = some .dir := by
  rcases List.eq_nil_or_concat p with rfl | ⟨q, n, rfl⟩
  · rfl
  · rw [List.concat_eq_append] at h ⊢
    rw [List.dropLast_concat]
    exact (closed_lstat h).2

theorem real_walkWith {follow : Place → List String → Option Place}
    (hfollow : ∀ p segs q, t.lstat p = some .dir → follow p segs = some q → t.Real q)
    {segs : List String} {p q : Place} (hp : t.Real p) (h : t.walkWith follow p segs = some q) :
    t.Real q := by
  induction segs generalizing p with
  | nil =>
    cases h
    exact hp
  | cons s rest ih =>
    rw [walkWith] at h
    split at h
    · cases h
    · rename_i hdir
      rw [not_ne_iff] at hdir
      split at h
      · exact ih hp h
      · split at h
        · exact ih (real_of_dir (lstat_dropLast hdir)) h
        · split at h
          · cases h
          · split at h
            · cases h
            · refine hfollow _ _ _ ?_ h
              split
              · rfl
              · exact hdir
          · rename_i e hlink he
            exact ih ⟨e, he, hlink⟩ h

/-- A walk does not end at a link. -/
theorem real_walk {links : Nat} {segs : List String} {p q : Place} (hp : t.Real p)
    (h : t.walk links p segs = some q) : t.Real q := by
  induction links generalizing p segs q with
  | zero => exact real_walkWith (fun _ _ _ _ h => by cases h) hp h
  | succ links ih => exact real_walkWith (fun _ _ _ hdir h => ih (real_of_dir hdir) h) hp h

theorem real_canonicalize {path : String} {q : Place} (h : t.canonicalize path = some q) :
    t.Real q := by
  unfold canonicalize at h
  split at h
  · cases h
  · refine real_walk ?_ h
    split
    · exact real_of_dir rfl
    · exact real_of_dir t.cwdDir

/-! ## Places as paths -/

theorem validName_of_mem {p : Place} (h : t.Real p) {n : String} (hn : n ∈ p) : ValidName n := by
  induction p using List.reverseRecOn with
  | nil => cases hn
  | append_singleton q m ih =>
    obtain ⟨e, he, -⟩ := h
    obtain ⟨hvalid, hdir⟩ := closed_lstat he
    rcases List.mem_append.1 hn with hq | hm
    · exact ih (real_of_dir hdir) hq
    · exact List.mem_singleton.1 hm ▸ hvalid

/-- The names of a place lead to it: none of the directories on the way is a link. -/
theorem walkWith_place {follow : Place → List String → Option Place} {p : Place} (h : t.Real p)
    (rest : List String) : t.walkWith follow [] (p ++ rest) = t.walkWith follow p rest := by
  induction p using List.reverseRecOn generalizing rest with
  | nil => rfl
  | append_singleton q n ih =>
    obtain ⟨e, he, hreal⟩ := h
    obtain ⟨⟨-, hempty, hdot, hdots⟩, hdir⟩ := closed_lstat he
    have hstep : t.walkWith follow q (n :: rest) = t.walkWith follow (q ++ [n]) rest := by
      rw [walkWith, if_neg (not_not_intro hdir), if_neg (by simp [hempty, hdot]), if_neg hdots, he]
      cases e with
      | dir => rfl
      | file content readable => rfl
      | link target => exact absurd rfl (hreal target)
    rw [List.append_assoc, ih (real_of_dir hdir)]
    exact hstep

theorem walk_place {p : Place} (h : t.Real p) (links : Nat) (rest : List String) :
    t.walk links [] (p ++ rest) = t.walk links p rest := by
  cases links with
  | zero => exact walkWith_place h rest
  | succ links => exact walkWith_place h rest

/-- A segment that says nothing is passed in a directory. -/
theorem walk_empty {p : Place} (h : t.lstat p = some .dir) (links : Nat) (rest : List String) :
    t.walk links p ("" :: rest) = t.walk links p rest := by
  cases links <;> (simp only [walk]; rw [walkWith, if_neg (not_not_intro h), if_pos (.inl rfl)])

theorem walk_nil (links : Nat) (p : Place) : t.walk links p [] = some p := by
  cases links <;> rfl

/-- The text of a place that is no link leads to it. -/
theorem canonicalize_render {p : Place} (h : t.Real p) : t.canonicalize (render p) = some p := by
  have habs : isAbsolute (render p) = true := by
    unfold render
    exact isAbsolute_append _ rfl
  have hwalk : t.walk maxLinks [] (segments (render p)) = some p := by
    by_cases hp : p = []
    · subst hp
      rw [segments_render_nil, walk_empty rfl, walk_empty rfl, walk_nil]
    · have hplace := walk_place h maxLinks []
      rw [List.append_nil, walk_nil] at hplace
      rw [segments_render hp fun n hn => (validName_of_mem h hn).1, walk_empty rfl, hplace]
  rw [canonicalize, if_neg (ne_empty_of_isAbsolute habs), if_pos habs, hwalk]

/-- What is read from the place that a path leads to. -/
theorem read_render {path : String} {p : Place} (h : t.canonicalize path = some p) :
    t.read (render p) = t.read path := by
  unfold read
  rw [canonicalize_render (real_canonicalize h), h]

theorem read_eq_some {path : String} {content : Bytes} :
    t.read path = some content ↔
      ∃ p, t.canonicalize path = some p ∧ t.lstat p = some (.file content true) := by
  unfold read
  cases h : t.canonicalize path with
  | none => simp
  | some p =>
    rw [Option.bind_some]
    constructor
    · intro hread
      split at hread
      · rename_i hfile
        cases hread
        exact ⟨p, rfl, hfile⟩
      · cases hread
    · rintro ⟨q, hq, hfile⟩
      cases hq
      rw [hfile]

end LinkTree
