import NylonRun.Lib.Dict
import NylonRun.Lib.Effect
import NylonRun.Lib.UnixPath

/-!
# A file system of directories and regular files

A place is the list of names that lead to it from the root. The tree holds its own
well-formedness: whatever exists lies in a directory that exists. `touched` is history: the
places created, written or removed so far, in order; no operation reads it. There are no
links, so a path resolves to the place its components spell, provided every directory on the
way exists.
-/

open UnixPath

abbrev Bytes : Type := List UInt8

abbrev Place : Type := List String

inductive Node where
  | dir
  | file (content : Bytes) (executable : Bool)
  deriving DecidableEq, Repr

def Node.isDir : Node → Bool
  | .dir => true
  | .file _ _ => false

/-- What stands at a place; the root is always a directory. -/
def nodeAt (nodes : Dict Place Node) (p : Place) : Option Node :=
  if p = [] then some .dir else nodes.lookup p

theorem nodeAt_insert {nodes : Dict Place Node} {p : Place} {node : Node} (hp : p ≠ [])
    (q : Place) : nodeAt (nodes.insert p node) q = if q = p then some node else nodeAt nodes q := by
  unfold nodeAt
  by_cases hq : q = []
  · subst hq; rw [if_pos rfl, if_neg (Ne.symm hp), if_pos rfl]
  · rw [if_neg hq, if_neg hq, Dict.lookup_insert_eq]

structure FileTree where
  cwd : Place
  nodes : Dict Place Node
  touched : List Place
  /-- What exists lies in a directory. -/
  closed : ∀ p n, p ++ [n] ∈ nodes → nodeAt nodes p = some .dir

/-- File system programs; an error is the text of an `std::io::Error`. -/
abbrev Fs : Type → Type := EStateM String FileTree

namespace FileTree

def stat (t : FileTree) (p : Place) : Option Node := nodeAt t.nodes p

@[simp] theorem stat_root (t : FileTree) : t.stat [] = some .dir := rfl

theorem stat_of_ne (t : FileTree) {p : Place} (h : p ≠ []) : t.stat p = t.nodes.lookup p := if_neg h

theorem parent_dir (t : FileTree) {p : Place} {n : String} {node : Node}
    (h : t.stat (p ++ [n]) = some node) : t.stat p = some .dir := by
  rw [stat_of_ne _ (by simp)] at h
  exact t.closed p n (Dict.mem_of_lookup h)

theorem dropLast_dir (t : FileTree) {p : Place} {node : Node} (h : t.stat p = some node) :
    t.stat p.dropLast = some .dir := by
  rcases List.eq_nil_or_concat p with rfl | ⟨q, n, rfl⟩
  · rfl
  · simpa using t.parent_dir (by simpa using h)

theorem ancestor_dir {t : FileTree} {p q : Place} {node : Node} (h : t.stat (p ++ q) = some node)
    (hq : q ≠ []) : t.stat p = some .dir := by
  induction q generalizing p node with
  | nil => exact absurd rfl hq
  | cons n q ih =>
    have hstep : t.stat (p ++ [n]) = some .dir ∨ q = [] := by
      by_cases hnil : q = []
      · exact .inr hnil
      · exact .inl (ih (by simpa using h) hnil)
    rcases hstep with hdir | rfl
    · exact t.parent_dir hdir
    · exact t.parent_dir h

theorem dir_above {t : FileTree} {p q : Place} (h : t.stat q = some .dir) (hp : p <+: q) :
    t.stat p = some .dir := by
  obtain ⟨r, rfl⟩ := hp
  by_cases hr : r = []
  · rwa [hr, List.append_nil] at h
  · exact ancestor_dir h hr

/-- The tree of an empty disk. -/
def empty : FileTree where
  cwd := []
  nodes := ∅
  touched := []
  closed _ _ h := absurd h (AList.notMem_empty _)

/-- `node` may be put at `p`: its directory exists, and a directory does not take the place of
a file nor a file that of a directory. -/
def Room (t : FileTree) (p : Place) (node : Node) : Prop :=
  p ≠ [] ∧ t.stat p.dropLast = some .dir ∧ (t.stat p).all (·.isDir == node.isDir)

instance (t : FileTree) (p : Place) (node : Node) : Decidable (t.Room p node) :=
  inferInstanceAs (Decidable (_ ∧ _ ∧ _))

def put (t : FileTree) (p : Place) (node : Node) (h : t.Room p node) : FileTree where
  cwd := t.cwd
  nodes := t.nodes.insert p node
  touched := t.touched ++ [p]
  closed q n hmem := by
    obtain ⟨hp, hdir, hover⟩ := h
    have hold : nodeAt t.nodes q = some .dir := by
      rcases (AList.mem_insert _).1 hmem with heq | hmem
      · subst heq; simpa [stat] using hdir
      · exact t.closed q n hmem
    rw [nodeAt_insert hp]
    split
    · rename_i hq
      subst hq
      rw [stat, hold] at hover
      cases node with
      | dir => rfl
      | file c x => cases hover
    · exact hold

@[simp] theorem stat_put (t : FileTree) (p : Place) (node : Node) (h : t.Room p node) (q : Place) :
    (t.put p node h).stat q = if q = p then some node else t.stat q := nodeAt_insert h.1 q

/-- A directory put somewhere leaves the files. -/
theorem file_put_dir {t : FileTree} {p q : Place} (h : t.Room p .dir) {c : Bytes} {x : Bool} :
    (t.put p .dir h).stat q = some (.file c x) ↔ t.stat q = some (.file c x) := by
  rw [stat_put]
  split
  · rename_i heq
    refine iff_of_false (fun hfile => nomatch hfile) fun hfile => ?_
    have hkind := h.2.2
    rw [← heq, hfile] at hkind
    cases hkind
  · rfl

@[simp] theorem put_cwd (t : FileTree) (p : Place) (node : Node) (h : t.Room p node) :
    (t.put p node h).cwd = t.cwd := rfl

/-- The tree without `p` and all that is below it. -/
def prune (t : FileTree) (p : Place) : FileTree where
  cwd := t.cwd
  nodes := t.nodes.filterKeys fun q => !p.isPrefixOf q
  touched := t.touched ++ p :: t.nodes.keys.filter (p.isPrefixOf ·)
  closed q n hmem := by
    obtain ⟨node, hnode⟩ := Dict.exists_lookup hmem
    rw [Dict.lookup_filterKeys] at hnode
    split at hnode
    · rename_i hout
      have hdir := t.closed q n (Dict.mem_of_lookup hnode)
      unfold nodeAt at hdir ⊢
      split
      · rfl
      · rename_i hq
        rw [if_neg hq] at hdir
        rw [Dict.lookup_filterKeys, if_pos, hdir]
        rw [Bool.not_eq_true', ← Bool.not_eq_true, List.isPrefixOf_iff_prefix] at hout ⊢
        exact fun hpre => hout (hpre.trans (List.prefix_append q [n]))
    · cases hnode

theorem stat_prune (t : FileTree) (p : Place) {q : Place} (hq : q ≠ []) :
    (t.prune p).stat q = if p <+: q then none else t.stat q := by
  rw [stat_of_ne _ hq, stat_of_ne _ hq, prune, Dict.lookup_filterKeys]
  by_cases h : p <+: q
  · rw [if_pos h, if_neg (by simpa using h)]
  · rw [if_neg h, if_pos (by simpa [← Bool.not_eq_true] using h)]

theorem stat_prune_below (t : FileTree) {p : Place} (hp : p ≠ []) (q : Place) :
    (t.prune p).stat q = if p <+: q then none else t.stat q := by
  by_cases hq : q = []
  · subst hq
    rw [if_neg (by simpa using hp)]
    rfl
  · exact stat_prune t p hq

/-- The text of the error that keeps `node` from being put at `p`. -/
def refusal (t : FileTree) (p : Place) : String :=
  if t.stat p = some .dir then "Is a directory (os error 21)"
  else if (t.stat p.dropLast).isSome then "Not a directory (os error 20)"
  else "No such file or directory (os error 2)"

/-- The one operation that adds to the tree. -/
def create (p : Place) (node : Node) : Fs Unit := fun t =>
  if h : t.Room p node then .ok () (t.put p node h) else .error (t.refusal p) t

theorem create_ok {p : Place} {node : Node} {t t' : FileTree} (h : create p node t = .ok () t') :
    ∃ room : t.Room p node, t' = t.put p node room := by
  unfold create at h
  split at h
  · rename_i room
    exact ⟨room, by cases h; rfl⟩
  · cases h

/-- `std::fs::create_dir_all`, from a directory along the components of a path: what is
missing on the way is made, and the place reached is returned. -/
def mkdirs : List Component → Place → Fs Place
  | [], dir => pure dir
  | c :: cs, dir => do
    match (← get).stat (advance dir c) with
    | some .dir => mkdirs cs (advance dir c)
    | some (.file _ _) =>
      throw (if cs = [] then "File exists (os error 17)" else "Not a directory (os error 20)")
    | none =>
      create (advance dir c) .dir
      mkdirs cs (advance dir c)

theorem run_mkdirs_cons (c : Component) (cs : List Component) (dir : Place) (t : FileTree) :
    mkdirs (c :: cs) dir t = match t.stat (advance dir c) with
      | some .dir => mkdirs cs (advance dir c) t
      | some (.file _ _) =>
        .error (if cs = [] then "File exists (os error 17)" else "Not a directory (os error 20)") t
      | none => (create (advance dir c) .dir >>= fun _ => mkdirs cs (advance dir c)) t := by
  rw [mkdirs, Effect.run_get_bind]
  generalize t.stat (advance dir c) = node
  rcases node with _ | _ | _ <;> rfl

def createDirAll (cs : List Component) : Fs Place := do
  mkdirs cs (← get).cwd

theorem run_createDirAll (cs : List Component) (t : FileTree) :
    createDirAll cs t = mkdirs cs t.cwd t := rfl

/-- Path resolution: every component but the root is looked up in a directory. -/
def walk (t : FileTree) : List Component → Place → Option Place
  | [], dir => some dir
  | c :: cs, dir =>
    if c = .root ∨ t.stat dir = some .dir then walk t cs (advance dir c) else none

/-- A path that ends in a separator or in `.` names a directory or nothing. -/
def namesDir (p : String) : Bool :=
  (segments p).getLast? == some "" || (segments p).getLast? == some "."

/-- The place a path leads to; what is there may be missing, the way may not. -/
def resolve (t : FileTree) (p : String) : Option Place :=
  if p = "" then none
  else (t.walk (components p) t.cwd).bind fun q =>
    if namesDir p ∧ t.stat q ≠ some .dir then none else some q

/-- `std::fs::metadata`, as the place and what is there. -/
def find (t : FileTree) (p : String) : Option (Place × Node) :=
  (t.resolve p).bind fun q => (t.stat q).map (q, ·)

/-- `Path::is_dir`. -/
def isDir (t : FileTree) (p : String) : Bool := (t.find p).any fun f => f.2 = .dir

/-- `Path::exists`. -/
def pathExists (t : FileTree) (p : String) : Bool := (t.find p).isSome

/-- `Path::canonicalize`, when it succeeds. -/
def canonicalize (t : FileTree) (p : String) : Option String := (t.find p).map fun f => render f.1

/-- `std::fs::read`. -/
def read (t : FileTree) (p : String) : Except String Bytes :=
  match t.find p with
  | some (_, .file content _) => .ok content
  | some (_, .dir) => .error "Is a directory (os error 21)"
  | none => .error "No such file or directory (os error 2)"

/-- `std::fs::read_to_string`. -/
def readToString (t : FileTree) (p : String) : Except String String := do
  let content ← t.read p
  match String.fromUTF8? ⟨content.toArray⟩ with
  | some text => .ok text
  | none => .error "stream did not contain valid UTF-8"

/-- The names in a directory, in the order the file system lists them. -/
def children (t : FileTree) (p : Place) : List String :=
  t.nodes.keys.filterMap fun q => if q.dropLast = p then q.getLast? else none

theorem mem_children {t : FileTree} {p : Place} {n : String} :
    n ∈ t.children p ↔ (t.stat (p ++ [n])).isSome := by
  rw [stat_of_ne _ (by simp), AList.lookup_isSome, children, List.mem_filterMap]
  constructor
  · rintro ⟨q, hq, hn⟩
    split at hn
    · rename_i hp
      rcases List.eq_nil_or_concat q with rfl | ⟨r, m, rfl⟩
      · cases hn
      · simp only [List.concat_eq_append, List.dropLast_concat, List.getLast?_append,
          List.getLast?_singleton, Option.some_or, Option.some.injEq] at hp hn
        subst hp hn
        simpa [AList.mem_keys] using hq
    · cases hn
  · intro h
    exact ⟨p ++ [n], AList.mem_keys.1 h, by simp⟩

theorem mem_children_of_below {t : FileTree} {p rel : Place} {n : String} {node : Node}
    (h : t.stat (p ++ n :: rel) = some node) : n ∈ t.children p := by
  rw [mem_children]
  have hsplit : p ++ n :: rel = p ++ [n] ++ rel := by simp
  rw [hsplit] at h
  by_cases hnil : rel = []
  · rw [hnil, List.append_nil] at h
    rw [h]
    rfl
  · rw [ancestor_dir h hnil]
    rfl

/-- `std::fs::write` to a place: a file that exists keeps its permissions. -/
def writeAt (p : Place) (content : Bytes) : Fs Unit := do
  match (← get).stat p with
  | some (.file _ x) => create p (.file content x)
  | _ => create p (.file content false)

/-- `std::fs::write`. -/
def write (p : String) (content : Bytes) : Fs Unit := do
  match (← get).resolve p with
  | some q => writeAt q content
  | none => throw "No such file or directory (os error 2)"

/-- `std::fs::copy`: the source is opened, the destination truncated, and only then is what
the source still holds copied. -/
def copyFile (src dst : Place) : Fs Unit := do
  match (← get).stat src with
  | some (.file _ x) =>
    create dst (.file [] x)
    match (← get).stat src with
    | some (.file content _) => create dst (.file content x)
    | _ => throw "No such file or directory (os error 2)"
  | _ => throw "the source path is neither a regular file nor a symlink to a regular file"

/-- `std::fs::copy` along two paths. -/
def copy (src dst : String) : Fs Unit := do
  let t ← get
  match t.find src, t.resolve dst with
  | some (p, _), some q => copyFile p q
  | _, _ => throw "No such file or directory (os error 2)"

/-- A file copied to another place, or nothing. -/
theorem copyFile_cases {p q : Place} (hne : p ≠ q) (t : FileTree) :
    (∃ c x t', t.stat p = some (.file c x) ∧ copyFile p q t = .ok () t' ∧
      ∀ r, t'.stat r = if r = q then some (.file c x) else t.stat r) ∨
    ∃ e, copyFile p q t = .error e t := by
  unfold copyFile
  rw [Effect.run_get_bind]
  rcases hp : t.stat p with _ | _ | ⟨c, x⟩
  · exact .inr ⟨_, rfl⟩
  · exact .inr ⟨_, rfl⟩
  · by_cases room : t.Room q (.file [] x)
    · have hq : (t.put q (.file [] x) room).stat q = some (.file [] x) := by simp
      have room' : (t.put q (.file [] x) room).Room q (.file c x) :=
        ⟨room.1, FileTree.dropLast_dir _ hq, by rw [hq]; rfl⟩
      refine .inl ⟨c, x, (t.put q (.file [] x) room).put q (.file c x) room', rfl, ?_, fun r => ?_⟩
      · simp only [Effect.run_bind, create, dif_pos room, Effect.run_get, stat_put, if_neg hne, hp,
          dif_pos room']
      · simp only [stat_put]
        split <;> rfl
    · exact .inr ⟨t.refusal q, by simp only [Effect.run_bind, create, dif_neg room]⟩

theorem run_copy {src dst : String} {t : FileTree} {p q : Place} {node : Node}
    (hsrc : t.find src = some (p, node)) (hdst : t.resolve dst = some q) :
    copy src dst t = copyFile p q t := by
  unfold copy
  rw [Effect.run_get_bind]
  simp only [hsrc, hdst]

/-- `std::fs::set_permissions` with an executable mode; the mode of a directory is not kept. -/
def setExecutable (p : String) : Fs Unit := do
  match (← get).find p with
  | some (q, .file content _) => create q (.file content true)
  | some (_, .dir) => pure ()
  | none => throw "No such file or directory (os error 2)"

/-- What the components of a path lead to; a path whose last segment is empty or `.` leads to a
directory or to nothing. -/
def locate (t : FileTree) (cs : List Component) (last : String) : Option (Place × Node) :=
  (t.walk cs t.cwd).bind fun q =>
    ((t.stat q).filter fun node => node.isDir || (last ≠ "" && last ≠ ".")).map (q, ·)

/-- `std::fs::remove_file` of what a path leads to. -/
def unlink : Option (Place × Node) → Fs Unit
  | some (q, .file _ _) => modify (·.prune q)
  | some (_, .dir) => throw "Is a directory (os error 21)"
  | none => throw "No such file or directory (os error 2)"

/-- The `rmdir` that ends a removal refuses the root, and a path that ends in `.` or `..`: the
directory stays, without its entries. -/
def keepDir (last : String) (q : Place) : Fs Unit :=
  if q = [] then throw "Device or resource busy (os error 16)"
  else if last = "." ∨ last = ".." then do
    create q .dir
    throw "Invalid argument (os error 22)"
  else pure ()

/-- `std::fs::remove_dir_all` of what a path leads to. -/
def unlinkTree (last : String) : Option (Place × Node) → Fs Unit
  | some (q, .dir) => do
    modify (·.prune q)
    keepDir last q
  | some (_, .file _ _) => throw "Not a directory (os error 20)"
  | none => throw "No such file or directory (os error 2)"

/-- `std::fs::remove_file`. -/
def removeFile (p : String) : Fs Unit := do
  unlink ((← get).find p)

/-! ## What the operations leave alone -/

/-- The later tree differs from the earlier one only at places it has touched since. -/
structure Frame (t t' : FileTree) : Prop where
  cwd : t'.cwd = t.cwd
  log : ∃ since, t'.touched = t.touched ++ since ∧ ∀ p, p ∉ since → t'.stat p = t.stat p

theorem Frame.refl (t : FileTree) : Frame t t := ⟨rfl, [], by simp, fun _ _ => rfl⟩

theorem Frame.trans (t t' t'' : FileTree) (h : Frame t t') (h' : Frame t' t'') : Frame t t'' := by
  obtain ⟨hc, l, hl, hp⟩ := h
  obtain ⟨hc', l', hl', hp'⟩ := h'
  refine ⟨hc'.trans hc, l ++ l', by rw [hl', hl, List.append_assoc], fun p hmem => ?_⟩
  rw [List.mem_append, not_or] at hmem
  rw [hp' p hmem.2, hp p hmem.1]

/-- Directories stay directories and files stay files; more may appear. -/
structure Grows (t t' : FileTree) : Prop where
  cwd : t'.cwd = t.cwd
  dir : ∀ p, t.stat p = some .dir → t'.stat p = some .dir
  file : ∀ p c x, t.stat p = some (.file c x) → ∃ c' x', t'.stat p = some (.file c' x')

theorem Grows.refl (t : FileTree) : Grows t t := ⟨rfl, fun _ h => h, fun _ c x h => ⟨c, x, h⟩⟩

theorem Grows.trans (t t' t'' : FileTree) (h : Grows t t') (h' : Grows t' t'') : Grows t t'' := by
  refine ⟨h'.cwd.trans h.cwd, fun p hp => h'.dir p (h.dir p hp), fun p c x hp => ?_⟩
  obtain ⟨c', x', hp'⟩ := h.file p c x hp
  exact h'.file p c' x' hp'

theorem frame_put {t : FileTree} {p : Place} {node : Node} (h : t.Room p node) :
    Frame t (t.put p node h) := by
  refine ⟨rfl, [p], rfl, fun q hq => ?_⟩
  rw [stat_put, if_neg (by simpa using hq)]

theorem grows_put {t : FileTree} {p : Place} {node : Node} (h : t.Room p node) :
    Grows t (t.put p node h) := by
  have hkind := h.2.2
  refine ⟨rfl, fun q hq => ?_, fun q c x hq => ?_⟩ <;> rw [stat_put] <;> split
  · rename_i heq
    subst heq
    rw [hq] at hkind
    cases node with
    | dir => rfl
    | file c x => cases hkind
  · exact hq
  · rename_i heq
    subst heq
    rw [hq] at hkind
    cases node with
    | dir => cases hkind
    | file c' x' => exact ⟨c', x', rfl⟩
  · exact ⟨c, x, hq⟩

/-- A relation that every `create` keeps; the operations that only add are built from it. -/
structure Kept (R : FileTree → FileTree → Prop) : Prop where
  refl : ∀ t, R t t
  trans : ∀ t t' t'', R t t' → R t' t'' → R t t''
  put : ∀ {t : FileTree} {p : Place} {node : Node} (h : t.Room p node), R t (t.put p node h)

theorem kept_frame : Kept Frame := ⟨Frame.refl, Frame.trans, frame_put⟩

theorem kept_grows : Kept Grows := ⟨Grows.refl, Grows.trans, grows_put⟩

/-- Copying a file puts files at its destination. -/
theorem respects_copyFile_of {R : FileTree → FileTree → Prop} (refl : ∀ t, R t t)
    (trans : ∀ t t' t'', R t t' → R t' t'' → R t t'') {src dst : Place}
    (file : ∀ node, Effect.Respects R (create dst node)) :
    Effect.Respects R (copyFile src dst) := by
  refine .bind trans (.get refl) fun t => ?_
  split
  · refine .bind trans (file _) fun _ => .bind trans (.get refl) fun t => ?_
    split
    · exact file _
    · exact .throw refl _
  · exact .throw refl _

section

open Effect

variable {R : FileTree → FileTree → Prop} (kept : Kept R)

include kept

theorem respects_create (p : Place) (node : Node) : Respects R (create p node) := by
  intro t
  unfold final create
  by_cases h : t.Room p node
  · rw [dif_pos h]; exact kept.put h
  · rw [dif_neg h]; exact kept.refl t

theorem respects_mkdirs (cs : List Component) (dir : Place) : Respects R (mkdirs cs dir) := by
  induction cs generalizing dir with
  | nil => exact .pure kept.refl dir
  | cons c cs ih =>
    refine .bind kept.trans (.get kept.refl) fun t => ?_
    split
    · exact ih _
    · exact .throw kept.refl _
    · exact .bind kept.trans (respects_create kept _ _) fun _ => ih _

theorem respects_createDirAll (cs : List Component) : Respects R (createDirAll cs) :=
  .bind kept.trans (.get kept.refl) fun _ => respects_mkdirs kept _ _

theorem respects_writeAt (p : Place) (content : Bytes) : Respects R (writeAt p content) := by
  refine .bind kept.trans (.get kept.refl) fun t => ?_
  split <;> exact respects_create kept _ _

theorem respects_write (p : String) (content : Bytes) : Respects R (write p content) := by
  refine .bind kept.trans (.get kept.refl) fun t => ?_
  split
  · exact respects_writeAt kept _ content
  · exact .throw kept.refl _

theorem respects_copyFile (src dst : Place) : Respects R (copyFile src dst) :=
  respects_copyFile_of kept.refl kept.trans fun _ => respects_create kept dst _

theorem respects_copy (src dst : String) : Respects R (copy src dst) := by
  refine .bind kept.trans (.get kept.refl) fun t => ?_
  split
  · exact respects_copyFile kept _ _
  · exact .throw kept.refl _

theorem respects_setExecutable (p : String) : Respects R (setExecutable p) := by
  refine .bind kept.trans (.get kept.refl) fun t => ?_
  split
  · exact respects_create kept _ _
  · exact .pure kept.refl _
  · exact .throw kept.refl _

end

/-! ## What a path leads to, later -/

theorem resolve_eq_some {t : FileTree} {p : String} {q : Place} :
    t.resolve p = some q ↔ p ≠ "" ∧ t.walk (components p) t.cwd = some q ∧
      (namesDir p = true → t.stat q = some .dir) := by
  unfold resolve
  by_cases hp : p = ""
  · simp [hp]
  · simp only [hp, if_false, Option.bind_eq_some_iff, ne_eq, not_false_eq_true, true_and]
    constructor
    · rintro ⟨r, hwalk, hr⟩
      split at hr
      · cases hr
      · rename_i hdir
        cases hr
        exact ⟨hwalk, fun hn => by_contra fun hne => hdir ⟨hn, hne⟩⟩
    · rintro ⟨hwalk, hdir⟩
      exact ⟨q, hwalk, by rw [if_neg fun h => h.2 (hdir h.1)]⟩

theorem find_eq_some {t : FileTree} {p : String} {q : Place} {node : Node} :
    t.find p = some (q, node) ↔ p ≠ "" ∧ t.walk (components p) t.cwd = some q ∧
      (namesDir p = true → t.stat q = some .dir) ∧ t.stat q = some node := by
  have hfind : t.find p = some (q, node) ↔ t.resolve p = some q ∧ t.stat q = some node := by
    simp only [find, Option.bind_eq_some_iff, Option.map_eq_some_iff, Prod.mk.injEq]
    constructor
    · rintro ⟨r, hr, n, hn, rfl, rfl⟩; exact ⟨hr, hn⟩
    · rintro ⟨hr, hn⟩; exact ⟨q, hr, node, hn, rfl, rfl⟩
  rw [hfind, resolve_eq_some]
  simp only [and_assoc]

theorem isDir_iff {t : FileTree} {p : String} :
    t.isDir p = true ↔ ∃ q, t.find p = some (q, .dir) := by
  unfold isDir
  cases h : t.find p with
  | none => simp
  | some f =>
    obtain ⟨q, node⟩ := f
    cases node <;> simp

theorem pathExists_iff {t : FileTree} {p : String} :
    t.pathExists p = true ↔ ∃ f, t.find p = some f :=
  Option.isSome_iff_exists

theorem Grows.walk {t t' : FileTree} (h : Grows t t') {cs : List Component} {dir p : Place}
    (hw : t.walk cs dir = some p) : t'.walk cs dir = some p := by
  induction cs generalizing dir with
  | nil => exact hw
  | cons c cs ih =>
    rw [FileTree.walk] at hw ⊢
    split at hw
    · rename_i hgo
      rw [if_pos (hgo.imp_right (h.dir dir))]
      exact ih hw
    · cases hw

/-- What a path leads to stays where it is and of its kind while the tree grows. -/
theorem Grows.find {t t' : FileTree} (h : Grows t t') {p : String} {q : Place} {node : Node}
    (hf : t.find p = some (q, node)) :
    ∃ node', t'.find p = some (q, node') ∧ node'.isDir = node.isDir := by
  obtain ⟨hp, hwalk, hdir, hstat⟩ := find_eq_some.1 hf
  have hwalk' : t'.walk (components p) t'.cwd = some q := by rw [h.cwd]; exact h.walk hwalk
  cases node with
  | dir =>
    have hd := h.dir q hstat
    exact ⟨.dir, find_eq_some.2 ⟨hp, hwalk', fun _ => hd, hd⟩, rfl⟩
  | file c x =>
    obtain ⟨c', x', hstat'⟩ := h.file q c x hstat
    refine ⟨.file c' x', find_eq_some.2 ⟨hp, hwalk', fun hn => ?_, hstat'⟩, rfl⟩
    rw [hdir hn] at hstat
    cases hstat

theorem Grows.isDir {t t' : FileTree} (h : Grows t t') {p : String} (he : t.pathExists p = true) :
    t'.isDir p = t.isDir p := by
  obtain ⟨⟨q, node⟩, hf⟩ := pathExists_iff.1 he
  obtain ⟨node', hf', hkind⟩ := h.find hf
  unfold FileTree.isDir
  rw [hf, hf']
  cases node <;> cases node' <;> simp_all [Node.isDir]

/-! ## Making directories and finding them again -/

/-- The places passed on the way along the components of a path. -/
def trail : Place → List Component → List Place
  | _, [] => []
  | dir, c :: cs => advance dir c :: trail (advance dir c) cs

theorem trail_append (dir : Place) (cs ds : List Component) :
    trail dir (cs ++ ds) = trail dir cs ++ trail (lexical dir cs) ds := by
  induction cs generalizing dir with
  | nil => rfl
  | cons c cs ih => rw [List.cons_append, trail, ih, trail, lexical_cons, List.cons_append]

theorem trail_of_root {cs : List Component} (h : cs.head? = some .root) (dir : Place) :
    trail dir cs = trail [] cs := by
  rcases cs with _ | ⟨c, cs⟩
  · cases h
  · obtain rfl : c = .root := by simpa using h
    rfl

theorem lexical_mem_trail {dir : Place} {cs : List Component} (h : cs ≠ []) :
    lexical dir cs ∈ trail dir cs := by
  obtain ⟨ds, c, rfl⟩ := List.eq_nil_or_concat cs |>.resolve_left h
  rw [List.concat_eq_append, trail_append, lexical_append]
  exact List.mem_append_right _ List.mem_cons_self

/-- A path that resolves leads where its text says. -/
theorem walk_lexical {t : FileTree} {cs : List Component} {dir p : Place}
    (h : t.walk cs dir = some p) : p = lexical dir cs := by
  induction cs generalizing dir with
  | nil => exact (Option.some.inj h).symm
  | cons c cs ih =>
    rw [walk] at h
    split at h
    · exact ih h
    · cases h

theorem walk_append (t : FileTree) (cs ds : List Component) (dir : Place) :
    t.walk (cs ++ ds) dir = (t.walk cs dir).bind (t.walk ds) := by
  induction cs generalizing dir with
  | nil => rfl
  | cons c cs ih =>
    rw [List.cons_append, walk, walk]
    split
    · exact ih _
    · rfl

/-- Along names, a path from a directory leads to whatever exists at its place. -/
theorem walk_names {t : FileTree} {names : List String} {dir : Place} {node : Node}
    (hdir : t.stat dir = some .dir) (h : t.stat (dir ++ names) = some node) :
    t.walk (names.map .normal) dir = some (dir ++ names) := by
  induction names generalizing dir with
  | nil => simp [walk]
  | cons n names ih =>
    have hsplit : dir ++ n :: names = dir ++ [n] ++ names := by simp
    rw [List.map_cons, walk, if_pos (.inr hdir), advance, hsplit]
    rw [hsplit] at h
    by_cases hnil : names = []
    · rw [hnil]
      simp [walk]
    · exact ih (ancestor_dir h hnil) h

theorem lexical_names (dir : Place) (names : List String) :
    lexical dir (names.map .normal) = dir ++ names := by
  induction names generalizing dir with
  | nil => simp
  | cons n names ih => rw [List.map_cons, lexical_cons, ih, advance, List.append_assoc]; rfl

theorem walk_concat {t : FileTree} {cs : List Component} {c : Component} {dir q : Place}
    (h : t.walk (cs ++ [c]) dir = some q) :
    ∃ d, (c = .root ∨ t.stat d = some .dir) ∧ q = advance d c := by
  induction cs generalizing dir with
  | nil =>
    rw [List.nil_append, walk] at h
    split at h
    · rename_i hgo
      exact ⟨dir, hgo, by simpa [walk] using h.symm⟩
    · cases h
  | cons d cs ih =>
    rw [List.cons_append, walk] at h
    split at h
    · exact ih h
    · cases h

/-- A path that leads to a file ends in its name. -/
theorem fileName_of_find {t : FileTree} {p : String} {q : Place} {content : Bytes} {x : Bool}
    (h : t.find p = some (q, .file content x)) : ∃ n, fileName p = some n := by
  obtain ⟨hne, hwalk, -, hstat⟩ := find_eq_some.1 h
  obtain ⟨cs, c, hcs⟩ := (List.eq_nil_or_concat _).resolve_left (components_ne_nil hne)
  rw [hcs, List.concat_eq_append] at hwalk
  obtain ⟨d, hgo, rfl⟩ := walk_concat hwalk
  have hfile : ∀ r, t.stat r = some .dir → advance d c ≠ r := by
    intro r hr heq
    rw [heq, hr] at hstat
    cases hstat
  unfold fileName
  rw [hcs, List.concat_eq_append, List.getLast?_concat]
  cases c with
  | root => exact absurd rfl (hfile [] rfl)
  | cur => exact absurd rfl (hfile d (hgo.resolve_left (by simp)))
  | parent => exact absurd rfl (hfile _ (t.dropLast_dir (hgo.resolve_left (by simp))))
  | normal n => exact ⟨n, rfl⟩

/-- A path from the root along directories resolves. -/
theorem walk_of_trail {t : FileTree} {cs : List Component} {dir : Place}
    (hstart : t.stat dir = some .dir ∨ cs.head? = some .root)
    (h : ∀ p ∈ (trail dir cs).dropLast, t.stat p = some .dir) :
    t.walk cs dir = some (lexical dir cs) := by
  induction cs generalizing dir with
  | nil => rfl
  | cons c cs ih =>
    have hgo : c = .root ∨ t.stat dir = some .dir := by
      rcases hstart with h | h
      · exact .inr h
      · exact .inl (by simpa using h)
    rw [walk, if_pos hgo, lexical_cons]
    cases cs with
    | nil => rfl
    | cons d ds =>
      refine ih (.inl (h _ ?_)) fun p hp => h p ?_
      · simp [trail]
      · simp only [trail, List.dropLast_cons_cons] at hp ⊢
        exact List.mem_cons_of_mem _ hp

/-- An absolute path whose way consists of directories. -/
theorem find_of_trail {t : FileTree} {p : String} (habs : isAbsolute p = true)
    (hdirs : ∀ q ∈ trail t.cwd (components p), t.stat q = some .dir) :
    t.find p = some (lexical [] (components p), .dir) := by
  have hhead := head?_components habs
  have hdir : t.stat (lexical t.cwd (components p)) = some .dir :=
    hdirs _ (lexical_mem_trail (by intro h; rw [h] at hhead; cases hhead))
  rw [← lexical_of_root hhead t.cwd]
  refine find_eq_some.2 ⟨ne_empty_of_isAbsolute habs, ?_, fun _ => hdir, hdir⟩
  exact walk_of_trail (.inr hhead) fun q hq => hdirs q (List.mem_of_mem_dropLast hq)

/-- The path of a name in the directory of an absolute path. -/
theorem resolve_join {t : FileTree} {base path n : String} (habs : isAbsolute base = true)
    (hn : fileName path = some n)
    (hdirs : ∀ q ∈ trail t.cwd (components base), t.stat q = some .dir) :
    t.resolve (join base n) = some (lexical [] (components base) ++ [n]) := by
  obtain ⟨hslash, hempty, hdot, hnames⟩ := fileName_spec hn
  have hrel : isAbsolute n = false := isAbsolute_of_notMem hslash
  have hhead := head?_components habs
  have hcs : components (join base n) = components base ++ [.normal n] := by
    rw [components_join habs hrel, hnames]
  have hplace : lexical t.cwd (components (join base n)) =
      lexical [] (components base) ++ [n] := by
    rw [hcs, lexical_append, lexical_of_root hhead]
    rfl
  have hfileName : namesDir (join base n) = false := by
    unfold namesDir
    rw [getLast?_segments_join hrel, segments_eq_singleton hslash]
    simp [hempty, hdot]
  rw [← hplace]
  refine resolve_eq_some.2 ⟨ne_empty_of_isAbsolute (isAbsolute_join n habs), ?_, ?_⟩
  · refine walk_of_trail (.inr (head?_components (isAbsolute_join n habs))) fun q hq => hdirs q ?_
    rw [hcs, trail_append] at hq
    simpa [trail] using hq
  · rw [hfileName]
    intro h
    cases h

/-- A file in the directory of an absolute path, by its name. -/
theorem find_join {t : FileTree} {base path n : String} {content : Bytes} {x : Bool}
    (habs : isAbsolute base = true) (hn : fileName path = some n)
    (hdirs : ∀ q ∈ trail t.cwd (components base), t.stat q = some .dir)
    (hfile : t.stat (lexical [] (components base) ++ [n]) = some (.file content x)) :
    t.find (join base n) = some (lexical [] (components base) ++ [n], .file content x) := by
  rw [find, resolve_join habs hn hdirs, Option.bind_some, hfile, Option.map_some]

/-- A `create_dir_all` that succeeds leaves a directory at every place it passes. -/
theorem mkdirs_ok {t t' : FileTree} {cs : List Component} {dir p : Place}
    (h : mkdirs cs dir t = .ok p t') :
    p = lexical dir cs ∧ ∀ q ∈ trail dir cs, t'.stat q = some .dir := by
  induction cs generalizing dir t with
  | nil =>
    obtain ⟨rfl, rfl⟩ : dir = p ∧ t = t' := by simpa [mkdirs] using h
    exact ⟨rfl, by simp [trail]⟩
  | cons c cs ih =>
    -- the directory at hand stays one while the rest of the way is made
    have hstep : ∀ u, u.stat (advance dir c) = some .dir → mkdirs cs (advance dir c) u = .ok p t' →
        p = lexical dir (c :: cs) ∧ ∀ q ∈ trail dir (c :: cs), t'.stat q = some .dir := by
      intro u hu hrun
      obtain ⟨hp, htrail⟩ := ih hrun
      refine ⟨hp, fun q hq => ?_⟩
      rcases List.mem_cons.1 hq with rfl | hq
      · exact ((respects_mkdirs kept_grows cs _).of_ok hrun).dir _ hu
      · exact htrail q hq
    rw [run_mkdirs_cons] at h
    split at h
    · rename_i hc; exact hstep t hc h
    · cases h
    · obtain ⟨_, u, hcreate, hrun⟩ := Effect.bind_ok h
      refine hstep u ?_ hrun
      obtain ⟨room, rfl⟩ := create_ok hcreate
      simp

/-- Where all the directories are there already nothing is made. -/
theorem mkdirs_of_dirs {t : FileTree} {cs : List Component} {dir : Place}
    (h : ∀ p ∈ trail dir cs, t.stat p = some .dir) :
    mkdirs cs dir t = .ok (lexical dir cs) t := by
  induction cs generalizing dir with
  | nil => rfl
  | cons c cs ih =>
    rw [run_mkdirs_cons, h _ List.mem_cons_self]
    exact ih fun p hp => h p (List.mem_cons_of_mem _ hp)

/-- `create_dir_all` changes the tree on its way only. -/
theorem mkdirs_stat_eq {t t' : FileTree} {cs : List Component} {dir p q : Place}
    (h : mkdirs cs dir t = .ok p t') (hq : q ∉ trail dir cs) : t'.stat q = t.stat q := by
  induction cs generalizing dir t with
  | nil =>
    cases h
    rfl
  | cons c cs ih =>
    rw [trail, List.mem_cons, not_or] at hq
    rw [run_mkdirs_cons] at h
    split at h
    · exact ih h hq.2
    · cases h
    · obtain ⟨_, u, hcreate, hrun⟩ := Effect.bind_ok h
      obtain ⟨room, rfl⟩ := create_ok hcreate
      rw [ih hrun hq.2, stat_put, if_neg hq.1]

/-- `create_dir_all` leaves the files. -/
theorem file_mkdirs {t t₁ : FileTree} {cs : List Component} {dir d p : Place} {c : Bytes} {x : Bool}
    (h : mkdirs cs dir t = .ok d t₁) :
    t₁.stat p = some (.file c x) ↔ t.stat p = some (.file c x) := by
  obtain ⟨-, hdirs⟩ := mkdirs_ok h
  by_cases hp : p ∈ trail dir cs
  · have hdir := hdirs p hp
    refine iff_of_false (fun hfile => ?_) fun hfile => ?_
    · rw [hdir] at hfile
      cases hfile
    · obtain ⟨c', x', hfile'⟩ := ((respects_mkdirs kept_grows _ _).of_ok h).file p c x hfile
      rw [hdir] at hfile'
      cases hfile'
  · rw [mkdirs_stat_eq h hp]

/-! ## A file removed -/

section

variable {t : FileTree} {f q : Place} {content : Bytes} {x : Bool}

theorem stat_prune_dir (hf : t.stat f = some (.file content x)) :
    (t.prune f).stat q = some .dir ↔ t.stat q = some .dir := by
  by_cases hq : q = []
  · subst hq
    exact Iff.rfl
  · rw [stat_prune t f hq]
    split
    · rename_i hpre
      obtain ⟨rest, rfl⟩ := hpre
      refine iff_of_false (fun h => nomatch h) fun h => ?_
      by_cases hrest : rest = []
      · rw [hrest, List.append_nil, hf] at h
        cases h
      · have hdir := ancestor_dir h hrest
        rw [hf] at hdir
        cases hdir
    · exact Iff.rfl

theorem walk_prune_file (hf : t.stat f = some (.file content x)) (cs : List Component)
    (dir : Place) : (t.prune f).walk cs dir = t.walk cs dir := by
  induction cs generalizing dir with
  | nil => rfl
  | cons c cs ih =>
    rw [walk, walk, ih]
    simp only [stat_prune_dir hf]

/-- Removing a file leaves the directories that paths lead to. -/
theorem find_prune_file (hf : t.stat f = some (.file content x)) (p : String) :
    (t.prune f).find p = some (q, .dir) ↔ t.find p = some (q, .dir) := by
  have hcwd : (t.prune f).cwd = t.cwd := rfl
  rw [find_eq_some, find_eq_some, hcwd, walk_prune_file hf, stat_prune_dir hf]

theorem find_removeFile (path p : String) :
    (Effect.final (removeFile path) t).find p = some (q, .dir) ↔ t.find p = some (q, .dir) := by
  unfold removeFile
  rw [Effect.final_get_bind]
  cases hfind : t.find path with
  | none => exact Iff.rfl
  | some found =>
    obtain ⟨g, node⟩ := found
    cases node with
    | dir => exact Iff.rfl
    | file content x =>
      have hstat : t.stat g = some (.file content x) := (find_eq_some.1 hfind).2.2.2
      exact find_prune_file hstat p

end

end FileTree
