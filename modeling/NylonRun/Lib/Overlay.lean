import NylonRun.Lib.Touched

/-!
# Layered trees

A tree is seen as what stands at each of its places, and a change of it as a patch: what is
said of the places it speaks of. What a run of patches leaves at a place is said by the last
one that speaks of it.

An image is a list of layers, lowest first, and a layer a list of changes in the order of its
archive. `overlay` is the tree it stands for: what a layer takes back it takes from the layers
below, whatever the order of its changes. An extractor goes through the changes one by one, on
the tree that is there; `extracted_eq_overlay_iff` says at which places the two agree.
-/

open FileTree

namespace Overlay

/-- A tree, as what stands at each place. -/
abbrev View : Type := Place → Option Node

/-- What is said of a place, where something is: the node that stands there, or that none
does. -/
abbrev Patch : Type := Place → Option (Option Node)

namespace Patch

def silent : Patch := fun _ => none

/-- `node` is put at `p`, in directories, and a file has nothing below it. The root is not put:
it is there. -/
def put (p : Place) (node : Node) : Patch := fun q =>
  if p = [] then none
  else if q = p then some (some node)
  else if q <+: p then some (some .dir)
  else if p <+: q ∧ node ≠ .dir then some none
  else none

/-- `p` is taken away with all that is below it. -/
def remove (p : Place) : Patch := fun q => if p <+: q then some none else none

/-- All that is below `d` is taken away. -/
def clear (d : Place) : Patch := fun q => if Below d q then some none else none

def apply (v : View) (w : Patch) : View := fun q => (w q).getD (v q)

def applyAll (ws : List Patch) (v : View) : View := ws.foldl apply v

variable {ws ws' : List Patch} {v v' : View} {w : Patch} {q : Place} {x : Option Node}

theorem put_root {p : Place} (hp : p ≠ []) (node : Node) : put p node [] = some (some .dir) := by
  unfold put
  rw [if_neg hp, if_neg (Ne.symm hp), if_pos List.nil_prefix]

theorem put_cons_of_ne {k n : String} (hk : k ≠ n) (p r : Place) (node : Node) :
    put (n :: p) node (k :: r) = none := by
  simp [put, hk, Ne.symm hk]

theorem put_singleton (n : String) (r : Place) (node : Node) :
    put [n] node (n :: r) =
      if r = [] then some (some node) else if node = .dir then none else some none := by
  by_cases hr : r = [] <;> simp [put, hr, ite_not]

theorem put_cons {p : Place} (hp : p ≠ []) (n : String) (r : Place) (node : Node) :
    put (n :: p) node (n :: r) = put p node r := by
  simp [put, hp]

theorem apply_of_none (h : w q = none) : apply v w q = v q := by
  rw [apply, h, Option.getD_none]

theorem apply_of_some (h : w q = some x) : apply v w q = x := by
  rw [apply, h, Option.getD_some]

@[simp] theorem applyAll_nil : applyAll [] v = v := rfl

@[simp] theorem applyAll_cons : applyAll (w :: ws) v = applyAll ws (apply v w) := rfl

theorem applyAll_append : applyAll (ws ++ ws') v = applyAll ws' (applyAll ws v) :=
  List.foldl_append

/-- Where nothing is said, what was there stays. -/
theorem applyAll_of_silent (h : ∀ w ∈ ws, w q = none) : applyAll ws v q = v q := by
  induction ws generalizing v with
  | nil => rfl
  | cons w ws ih =>
    have hrest := ih (v := apply v w) fun u hu => h u (List.mem_cons_of_mem _ hu)
    rw [applyAll_cons, hrest, apply_of_none (h w List.mem_cons_self)]

/-- The last patch that speaks of a place has the last word on it. -/
theorem applyAll_of_last (hw : w q = some x) (hlast : ∀ u ∈ ws', u q = none) :
    applyAll (ws ++ w :: ws') v q = x := by
  rw [applyAll_append, applyAll_cons, applyAll_of_silent hlast, apply_of_some hw]

theorem applyAll_congr (h : v q = v' q) : applyAll ws v q = applyAll ws v' q := by
  induction ws generalizing v v' with
  | nil => exact h
  | cons w ws ih =>
    refine ih ?_
    unfold apply
    rw [h]

/-- Patches that only take away, and do so here. -/
theorem applyAll_of_taken (hall : ∀ w ∈ ws, w q = none ∨ w q = some none)
    (hsome : ∃ w ∈ ws, w q = some none) : applyAll ws v q = none := by
  have hkeep : ∀ {us : List Patch} {v : View}, (∀ w ∈ us, w q = none ∨ w q = some none) →
      v q = none → applyAll us v q = none := by
    intro us
    induction us with
    | nil => exact fun _ hv => hv
    | cons u us ih =>
      intro v hus hv
      refine ih (fun w hw => hus w (List.mem_cons_of_mem _ hw)) ?_
      rcases hus u List.mem_cons_self with hu | hu
      · rw [apply_of_none hu, hv]
      · exact apply_of_some hu
  obtain ⟨w, hmem, hw⟩ := hsome
  obtain ⟨us, us', rfl⟩ := List.append_of_mem hmem
  rw [applyAll_append, applyAll_cons]
  exact hkeep (fun u hu => hall u (by simp [hu])) (apply_of_some hw)

end Patch

/-- A change that an entry of a layer stands for. -/
inductive Change where
  | put (p : Place) (node : Node)
  /-- What the lower layers have at `p` is taken back. -/
  | whiteout (p : Place)
  /-- What the lower layers have below `d` is taken back. -/
  | opaqueAt (d : Place)
  deriving DecidableEq

namespace Change

/-- What a change puts on top of the layers below. -/
def above : Change → Patch
  | .put p node => .put p node
  | _ => .silent

/-- What a change takes from the layers below. -/
def beneath : Change → Patch
  | .put _ _ => .silent
  | .whiteout p => .remove p
  | .opaqueAt d => .clear d

/-- The change takes something back. -/
def takes : Change → Bool
  | .put _ _ => false
  | _ => true

end Change

/-- One layer on top of a tree. -/
def stack (lower : View) (layer : List Change) : View :=
  Patch.applyAll (layer.map Change.above) (Patch.applyAll (layer.map Change.beneath) lower)

/-- The tree of an image. -/
def overlay (layers : List (List Change)) : View := layers.foldl stack fun _ => none

/-- An extractor is right about what is put and what is taken back, and may take too little for
an opaque whiteout. -/
structure Extractor (said : Change → Patch) : Prop where
  put : ∀ p node, said (.put p node) = .put p node
  whiteout : ∀ p, said (.whiteout p) = .remove p
  opaqueAt : ∀ d q, said (.opaqueAt d) q = none ∨ said (.opaqueAt d) q = some none ∧ Below d q

/-- The tree that an extractor leaves, from the one that was there. -/
def extracted (said : Change → Patch) (layers : List (List Change)) (before : View) : View :=
  Patch.applyAll (layers.flatten.map said) before

/-- No change of the layers speaks of `q`. -/
def Silent (said : Change → Patch) (layers : List (List Change)) (q : Place) : Prop :=
  ∀ layer ∈ layers, ∀ c ∈ layer, said c q = none

/-- `c` is the last change to speak of `q`: its layer has `front` before it, and the layers
`higher` are above. -/
def LastToSpeak (said : Change → Patch) (layers : List (List Change)) (q : Place)
    (front : List Change) (c : Change) (higher : List (List Change)) : Prop :=
  ∃ lower back, layers = lower ++ (front ++ c :: back) :: higher ∧ said c q ≠ none ∧
    (∀ d ∈ back, said d q = none) ∧ Silent said higher q

/-- An opaque whiteout of one of the layers takes back what is at `q`. -/
def Hidden (layers : List (List Change)) (q : Place) : Prop :=
  ∃ layer ∈ layers, ∃ d, .opaqueAt d ∈ layer ∧ Below d q

/-- What changes put by themselves. -/
def written (layer : List Change) : View :=
  Patch.applyAll (layer.map Change.above) fun _ => none

/-- The extractor and the overlay agree at `q`. -/
structure AgreesAt (said : Change → Patch) (layers : List (List Change)) (before : View)
    (q : Place) : Prop where
  /-- A place that no change speaks of was empty. -/
  fresh : Silent said layers q → before q = none
  /-- What was put last is in no opaque directory of a higher layer. -/
  shown : ∀ front c higher, LastToSpeak said layers q front c higher →
    ∀ node, c.above q = some (some node) → ¬Hidden higher q
  /-- What was taken away last had not been put by the same layer, unless a higher layer hides
  it. -/
  taken : ∀ front c higher, LastToSpeak said layers q front c higher →
    c.above q = none → written front q ≠ none → Hidden higher q

variable {said : Change → Patch} {layers higher : List (List Change)}
  {layer front back : List Change} {before v : View} {c : Change} {q : Place}

theorem beneath_cases (c : Change) (q : Place) : c.beneath q = none ∨ c.beneath q = some none := by
  cases c with
  | put p node => exact .inl rfl
  | whiteout p => exact (ite_eq_or_eq (p <+: q) (some none) none).symm
  | opaqueAt d => exact (ite_eq_or_eq (Below d q) (some none) none).symm

theorem beneath_of_mem (layer : List Change) (q : Place) :
    ∀ w ∈ layer.map Change.beneath, w q = none ∨ w q = some none := by
  intro w hw
  obtain ⟨c, -, rfl⟩ := List.mem_map.1 hw
  exact beneath_cases c q

namespace Extractor

variable (h : Extractor said)

include h

/-- Where the extractor says nothing, nothing is put, and only an opaque whiteout takes. -/
theorem of_silent (hc : said c q = none) :
    c.above q = none ∧ (c.beneath q = none ∨ ∃ d, c = .opaqueAt d ∧ Below d q) := by
  cases c with
  | put p node =>
    rw [h.put] at hc
    exact ⟨hc, .inl rfl⟩
  | whiteout p =>
    rw [h.whiteout] at hc
    exact ⟨rfl, .inl hc⟩
  | opaqueAt d =>
    refine ⟨rfl, ?_⟩
    by_cases hd : Below d q
    · exact .inr ⟨d, rfl, hd⟩
    · exact .inl (if_neg hd)

/-- Where it speaks, it puts what the change puts, or takes what the change takes. -/
theorem of_spoken (hc : said c q ≠ none) :
    c.above q = said c q ∨
      c.above q = none ∧ said c q = some none ∧ c.beneath q = some none := by
  cases c with
  | put p node =>
    rw [h.put]
    exact .inl rfl
  | whiteout p =>
    rw [h.whiteout] at hc ⊢
    refine .inr ⟨rfl, ?_⟩
    have hbeneath := (beneath_cases (.whiteout p) q).resolve_left hc
    exact ⟨hbeneath, hbeneath⟩
  | opaqueAt d =>
    obtain ⟨hsaid, hd⟩ := (h.opaqueAt d q).resolve_left hc
    exact .inr ⟨rfl, hsaid, if_pos hd⟩

theorem above_silent (hlayer : ∀ c ∈ layer, said c q = none) :
    ∀ w ∈ layer.map Change.above, w q = none := by
  intro w hw
  obtain ⟨c, hc, rfl⟩ := List.mem_map.1 hw
  exact (h.of_silent (hlayer c hc)).1

/-- A layer that the extractor passes over in silence hides a place or leaves it. -/
theorem stack_of_silent (hlayer : ∀ c ∈ layer, said c q = none) :
    ((∃ d, .opaqueAt d ∈ layer ∧ Below d q) → stack v layer q = none) ∧
      ((¬∃ d, .opaqueAt d ∈ layer ∧ Below d q) → stack v layer q = v q) := by
  unfold stack
  rw [Patch.applyAll_of_silent (h.above_silent hlayer)]
  constructor
  · rintro ⟨d, hd, hbelow⟩
    refine Patch.applyAll_of_taken (beneath_of_mem layer q) ?_
    exact ⟨_, List.mem_map_of_mem hd, if_pos hbelow⟩
  · intro hnone
    refine Patch.applyAll_of_silent fun w hw => ?_
    obtain ⟨c, hc, rfl⟩ := List.mem_map.1 hw
    refine (h.of_silent (hlayer c hc)).2.resolve_right ?_
    rintro ⟨d, rfl, hbelow⟩
    exact hnone ⟨d, hc, hbelow⟩

theorem stacked_of_silent (hsilent : Silent said higher q) :
    (Hidden higher q → higher.foldl stack v q = none) ∧
      (¬Hidden higher q → higher.foldl stack v q = v q) := by
  induction higher generalizing v with
  | nil => exact ⟨fun ⟨_, hmem, _⟩ => (by cases hmem), fun _ => rfl⟩
  | cons layer higher ih =>
    obtain ⟨hhidden, hshown⟩ :=
      ih (v := stack v layer) fun l hl => hsilent l (List.mem_cons_of_mem _ hl)
    obtain ⟨htaken, hleft⟩ := h.stack_of_silent (v := v) (hsilent layer List.mem_cons_self)
    rw [List.foldl_cons]
    constructor
    · rintro ⟨l, hl, d, hd, hbelow⟩
      by_cases hrest : Hidden higher q
      · exact hhidden hrest
      · rw [hshown hrest]
        rcases List.mem_cons.1 hl with rfl | hl
        · exact htaken ⟨d, hd, hbelow⟩
        · exact absurd ⟨l, hl, d, hd, hbelow⟩ hrest
    · intro hnone
      rw [hshown fun ⟨l, hl, hd⟩ => hnone ⟨l, List.mem_cons_of_mem _ hl, hd⟩]
      exact hleft fun hd => hnone ⟨layer, List.mem_cons_self, hd⟩

/-- The layer of the last change to speak of a place. -/
theorem stack_of_last (hc : said c q ≠ none) (hback : ∀ d ∈ back, said d q = none) :
    stack v (front ++ c :: back) q =
      if c.above q = none then written front q else (said c q).getD none := by
  have hsilent := h.above_silent hback
  unfold stack
  rw [List.map_append, List.map_cons]
  rcases h.of_spoken hc with habove | ⟨habove, -, hbeneath⟩
  · rw [if_neg (by rw [habove]; exact hc)]
    obtain ⟨x, hx⟩ := Option.ne_none_iff_exists'.1 hc
    rw [Patch.applyAll_of_last (habove.trans hx) hsilent, hx, Option.getD_some]
  · rw [if_pos habove, Patch.applyAll_append, Patch.applyAll_cons, Patch.applyAll_of_silent hsilent,
      Patch.apply_of_none habove]
    refine Patch.applyAll_congr (Patch.applyAll_of_taken (beneath_of_mem _ q) ?_)
    exact ⟨_, List.mem_map_of_mem (by simp), hbeneath⟩

end Extractor

/-! ## The last word on a place -/

theorem silent_or_last_layer (said : Change → Patch) (layer : List Change) (q : Place) :
    (∀ c ∈ layer, said c q = none) ∨ ∃ front c back, layer = front ++ c :: back ∧
      said c q ≠ none ∧ ∀ d ∈ back, said d q = none := by
  induction layer using List.reverseRecOn with
  | nil => exact .inl fun _ hmem => by cases hmem
  | append_singleton layer c ih =>
    by_cases hc : said c q = none
    · have hconcat : ∀ {back : List Change}, (∀ d ∈ back, said d q = none) →
          ∀ d ∈ back ++ [c], said d q = none := by
        intro back hback d hd
        rcases List.mem_append.1 hd with hd | hd
        · exact hback d hd
        · rw [List.mem_singleton.1 hd, hc]
      rcases ih with hsilent | ⟨front, d, back, rfl, hd, hback⟩
      · exact .inl (hconcat hsilent)
      · exact .inr ⟨front, d, back ++ [c], by simp, hd, hconcat hback⟩
    · exact .inr ⟨layer, c, [], rfl, hc, fun _ hmem => by cases hmem⟩

/-- No change speaks of a place, or one is the last to do so. -/
theorem silent_or_last (said : Change → Patch) (layers : List (List Change)) (q : Place) :
    Silent said layers q ∨ ∃ front c higher, LastToSpeak said layers q front c higher := by
  induction layers with
  | nil => exact .inl fun _ hmem => by cases hmem
  | cons layer layers ih =>
    rcases ih with hsilent | ⟨front, c, higher, lower, back, rfl, hc, hback, hhigher⟩
    · rcases silent_or_last_layer said layer q with hlayer | ⟨front, c, back, rfl, hc, hback⟩
      · left
        intro l hl
        rcases List.mem_cons.1 hl with rfl | hl
        · exact hlayer
        · exact hsilent l hl
      · exact .inr ⟨front, c, layers, [], back, rfl, hc, hback, hsilent⟩
    · exact .inr ⟨front, c, higher, layer :: lower, back, rfl, hc, hback, hhigher⟩

theorem LastToSpeak.not_silent (h : LastToSpeak said layers q front c higher) :
    ¬Silent said layers q := by
  obtain ⟨lower, back, rfl, hc, -, -⟩ := h
  intro hsilent
  exact hc (hsilent (front ++ c :: back) (by simp) c (by simp))

/-! ## What an extractor leaves -/

theorem extracted_of_silent (h : Silent said layers q) :
    extracted said layers before q = before q := by
  refine Patch.applyAll_of_silent fun w hw => ?_
  obtain ⟨c, hc, rfl⟩ := List.mem_map.1 hw
  obtain ⟨layer, hlayer, hmem⟩ := List.mem_flatten.1 hc
  exact h layer hlayer c hmem

theorem extracted_of_last (h : LastToSpeak said layers q front c higher) :
    some (extracted said layers before q) = said c q := by
  obtain ⟨lower, back, rfl, hc, hback, hhigher⟩ := h
  obtain ⟨x, hx⟩ := Option.ne_none_iff_exists'.1 hc
  rw [hx, Option.some.injEq]
  unfold extracted
  rw [List.flatten_append, List.flatten_cons, List.append_assoc, List.cons_append,
    ← List.append_assoc, List.map_append, List.map_cons]
  refine Patch.applyAll_of_last hx fun w hw => ?_
  obtain ⟨d, hd, rfl⟩ := List.mem_map.1 hw
  rcases List.mem_append.1 hd with hd | hd
  · exact hback d hd
  · obtain ⟨layer, hlayer, hmem⟩ := List.mem_flatten.1 hd
    exact hhigher layer hlayer d hmem

theorem Extractor.overlay_of_silent (h : Extractor said) (hsilent : Silent said layers q) :
    overlay layers q = none := by
  by_cases hhidden : Hidden layers q
  · exact (h.stacked_of_silent hsilent).1 hhidden
  · exact (h.stacked_of_silent hsilent).2 hhidden

theorem Extractor.overlay_of_last (h : Extractor said)
    (hlast : LastToSpeak said layers q front c higher) :
    (Hidden higher q → overlay layers q = none) ∧ (¬Hidden higher q → overlay layers q =
      if c.above q = none then written front q else (said c q).getD none) := by
  obtain ⟨lower, back, rfl, hc, hback, hhigher⟩ := hlast
  unfold overlay
  rw [List.foldl_append, List.foldl_cons, ← h.stack_of_last (v := _) hc hback]
  exact h.stacked_of_silent hhigher

/-- The two trees at a place, told from the last change that speaks of it. -/
theorem Extractor.eq_iff_of_last (h : Extractor said)
    (hlast : LastToSpeak said layers q front c higher) :
    extracted said layers before q = overlay layers q ↔
      (∀ node, c.above q = some (some node) → ¬Hidden higher q) ∧
        (c.above q = none → written front q ≠ none → Hidden higher q) := by
  have hleft : some (extracted said layers before q) = said c q := extracted_of_last hlast
  obtain ⟨hhidden, hshown⟩ := h.overlay_of_last hlast
  obtain ⟨_, _, _, hc, _, _⟩ := hlast
  by_cases hhigher : Hidden higher q
  · rw [hhidden hhigher]
    rcases h.of_spoken hc with habove | ⟨habove, hsaid, -⟩
    · rw [habove, ← hleft]
      simp [hhigher, Option.eq_none_iff_forall_ne_some]
    · rw [hsaid, Option.some.injEq] at hleft
      simp [hleft, habove, hhigher]
  · rw [hshown hhigher]
    rcases h.of_spoken hc with habove | ⟨habove, hsaid, -⟩
    · rw [habove, ← hleft]
      simp [hhigher]
    · rw [hsaid, Option.some.injEq] at hleft
      simp [hleft, habove, hhigher, eq_comm]

/-- Where an extractor leaves the tree of the image. -/
theorem Extractor.extracted_eq_overlay_iff (h : Extractor said) :
    extracted said layers before q = overlay layers q ↔ AgreesAt said layers before q := by
  rcases silent_or_last said layers q with hsilent | ⟨front, c, higher, hlast⟩
  · rw [extracted_of_silent hsilent, h.overlay_of_silent hsilent]
    constructor
    · intro hbefore
      exact ⟨fun _ => hbefore, fun _ _ _ hlast => absurd hsilent hlast.not_silent,
        fun _ _ _ hlast => absurd hsilent hlast.not_silent⟩
    · intro hagrees
      exact hagrees.fresh hsilent
  · constructor
    · intro heq
      refine ⟨fun hsilent => absurd hsilent hlast.not_silent, fun front c higher hlast => ?_,
        fun front c higher hlast => ?_⟩
      · exact ((h.eq_iff_of_last hlast).1 heq).1
      · exact ((h.eq_iff_of_last hlast).1 heq).2
    · intro hagrees
      refine (h.eq_iff_of_last hlast).2 ⟨?_, ?_⟩
      · exact hagrees.shown front c higher hlast
      · exact hagrees.taken front c higher hlast

theorem AgreesAt.congr {before' : View} (h : AgreesAt said layers before q)
    (hbefore : before' q = before q) : AgreesAt said layers before' q :=
  ⟨fun hsilent => hbefore.trans (h.fresh hsilent), h.shown, h.taken⟩

theorem written_of_takes (h : ∀ c ∈ layer, c.takes = true) (q : Place) :
    written layer q = none := by
  refine Patch.applyAll_of_silent fun w hw => ?_
  obtain ⟨c, hc, rfl⟩ := List.mem_map.1 hw
  cases c with
  | put p node => exact absurd (h _ hc) (by simp [Change.takes])
  | whiteout p => rfl
  | opaqueAt d => rfl

/-- An image without opaque whiteouts whose layers take back before they put, where nothing was. -/
theorem Extractor.agreesAt_of_tidy (h : Extractor said) (hbefore : before q = none)
    (hnone : ∀ layer ∈ layers, ∀ d, .opaqueAt d ∉ layer)
    (hfirst : ∀ layer ∈ layers, layer.Pairwise fun c d => d.takes = true → c.takes = true) :
    AgreesAt said layers before q := by
  refine ⟨fun _ => hbefore, ?_, ?_⟩
  · rintro front c higher ⟨lower, back, rfl, -, -, -⟩ node - ⟨layer, hlayer, d, hd, -⟩
    exact hnone layer (by simp [hlayer]) d hd
  · rintro front c higher ⟨lower, back, rfl, hc, -, -⟩ habove hwritten
    have htakes : c.takes = true := by
      cases c with
      | put p node =>
        rw [h.put] at hc
        exact absurd habove hc
      | whiteout p => rfl
      | opaqueAt d => rfl
    have hlayer := hfirst (front ++ c :: back) (by simp)
    refine absurd (written_of_takes (fun d hd => ?_) q) hwritten
    exact (List.pairwise_append.1 hlayer).2.2 d hd c List.mem_cons_self htakes

/-! ## Views of a disk -/

/-- What stands in a directory of the disk. -/
def view (t : FileTree) (root : Place) : View := fun q => t.stat (root ++ q)

/-- The patches have been applied in the directory at `root`, and nothing else has changed. -/
structure Patched (root : Place) (ws : List Patch) (t t' : FileTree) : Prop where
  cwd : t'.cwd = t.cwd
  inside : view t' root = Patch.applyAll ws (view t root)
  outside : ∀ p, ¬Below root p → t'.stat p = t.stat p

theorem Patched.refl (root : Place) (t : FileTree) : Patched root [] t t :=
  ⟨rfl, rfl, fun _ _ => rfl⟩

theorem Patched.trans {root : Place} {ws ws' : List Patch} {t t' t'' : FileTree}
    (h : Patched root ws t t') (h' : Patched root ws' t' t'') : Patched root (ws ++ ws') t t'' := by
  refine ⟨h'.cwd.trans h.cwd, ?_, fun p hp => (h'.outside p hp).trans (h.outside p hp)⟩
  rw [h'.inside, h.inside, Patch.applyAll_append]

theorem below_append_iff {root p : Place} : Below root (root ++ p) ↔ p ≠ [] := by
  unfold Below
  simp

theorem view_prune (t : FileTree) (root : Place) {p : Place} (hp : p ≠ []) :
    view (t.prune (root ++ p)) root = Patch.apply (view t root) (.remove p) := by
  funext q
  have hroot : root ++ p ≠ [] := by simp [hp]
  unfold view Patch.apply Patch.remove
  rw [stat_prune_below t hroot]
  by_cases hpre : p <+: q
  · rw [if_pos hpre, if_pos ((List.prefix_append_right_inj root).2 hpre)]
    rfl
  · rw [if_neg hpre, if_neg fun h => hpre ((List.prefix_append_right_inj root).1 h)]
    rfl

/-- Nothing stands below what is not a directory. -/
theorem stat_below_eq_none {t : FileTree} {p q : Place} (hp : t.stat p ≠ some .dir)
    (hpre : p <+: q) (hne : q ≠ p) : t.stat q = none := by
  obtain ⟨rest, rfl⟩ := hpre
  rw [Option.eq_none_iff_forall_ne_some]
  intro node hnode
  exact hp (ancestor_dir hnode (by simpa using hne))

/-- `node` in a directory that exists, over whatever stands at its place. -/
def settle (p : Place) (node : Node) (t : FileTree) : FileTree :=
  Effect.final (create p node) (if (t.stat p).all (·.isDir == node.isDir) then t else t.prune p)

theorem stat_settle {t : FileTree} {p : Place} {node : Node} (hp : p ≠ [])
    (hdir : t.stat p.dropLast = some .dir) (q : Place) :
    (settle p node t).stat q =
      if q = p then some node else if p <+: q ∧ node ≠ .dir then none else t.stat q := by
  -- the tree in which the node is created has room for it, and nothing below a file
  have hcreate : ∀ base : FileTree, base.Room p node →
      (q ≠ p → base.stat q = if p <+: q ∧ node ≠ .dir then none else t.stat q) →
      (Effect.final (create p node) base).stat q =
        if q = p then some node else if p <+: q ∧ node ≠ .dir then none else t.stat q := by
    intro base room hbase
    rw [final_create, dif_pos room, stat_put]
    by_cases hq : q = p
    · rw [if_pos hq, if_pos hq]
    · rw [if_neg hq, if_neg hq, hbase hq]
  unfold settle
  by_cases hkind : (t.stat p).all (·.isDir == node.isDir) = true
  · rw [if_pos hkind]
    refine hcreate t ⟨hp, hdir, hkind⟩ fun hq => ?_
    split
    · rename_i hpre
      refine stat_below_eq_none (fun hstat => hpre.2 ?_) hpre.1 hq
      rw [hstat] at hkind
      cases node with
      | dir => rfl
      | file content x => cases hkind
    · rfl
  · rw [if_neg hkind]
    refine hcreate (t.prune p) ⟨hp, ?_, ?_⟩ fun hq => ?_
    · rw [stat_prune_below t hp, if_neg, hdir]
      intro hpre
      have hlen := hpre.length_le
      have hpos := List.length_pos_of_ne_nil hp
      rw [List.length_dropLast] at hlen
      omega
    · rw [stat_prune t p hp, if_pos List.prefix_rfl]
      rfl
    · rw [stat_prune_below t hp]
      by_cases hpre : p <+: q
      · rw [if_pos hpre]
        split
        · rfl
        · rename_i hnode
          obtain rfl : node = .dir := by_contra fun hne => hnode ⟨hpre, hne⟩
          refine (stat_below_eq_none (fun hstat => hkind ?_) hpre hq).symm
          rw [hstat]
          rfl
      · rw [if_neg hpre, if_neg fun h => hpre h.1]

theorem settle_cwd (p : Place) (node : Node) (t : FileTree) : (settle p node t).cwd = t.cwd := by
  unfold settle
  rw [final_create]
  split <;> split <;> rfl

/-- `node` at a place below a directory, in directories. -/
def plant : Place → Place → Node → FileTree → FileTree
  | _, [], _, t => t
  | dir, [n], node, t => settle (dir ++ [n]) node t
  | dir, n :: m :: rest, node, t =>
    plant (dir ++ [n]) (m :: rest) node (settle (dir ++ [n]) .dir t)

/-- Planting a node is putting it. -/
theorem view_plant {t : FileTree} {dir : Place} (p : Place) {node : Node}
    (hdir : t.stat dir = some .dir) :
    view (plant dir p node t) dir = Patch.apply (view t dir) (.put p node) ∧
      ∀ q, ¬Below dir q → (plant dir p node t).stat q = t.stat q := by
  induction p generalizing dir t with
  | nil => exact ⟨rfl, fun _ _ => rfl⟩
  | cons n p ih =>
    have hparent : t.stat (dir ++ [n]).dropLast = some .dir := by simpa using hdir
    have hname : dir ++ [n] ≠ [] := by simp
    have hout {q : Place} (x : Node) (hq : ¬Below dir q) :
        (settle (dir ++ [n]) x t).stat q = t.stat q := by
      have hpre : ¬dir ++ [n] <+: q := fun h => hq <| Below.of_prefix (by simp [Below]) h
      rw [stat_settle hname hparent, if_neg, if_neg fun h => hpre h.1]
      rintro rfl
      exact hpre List.prefix_rfl
    have hother {k : String} (x : Node) (r : Place) (hk : k ≠ n) :
        (settle (dir ++ [n]) x t).stat (dir ++ k :: r) = t.stat (dir ++ k :: r) := by
      rw [stat_settle hname hparent, if_neg (by simp [hk]), if_neg]
      rintro ⟨hpre, -⟩
      rw [List.prefix_append_right_inj, List.cons_prefix_cons] at hpre
      exact hk hpre.1.symm
    cases p with
    | nil =>
      refine ⟨funext fun q => ?_, fun q => hout node⟩
      rw [plant]
      rcases q with _ | ⟨k, r⟩
      · rw [Patch.apply_of_some (Patch.put_root (List.cons_ne_nil n []) node), view,
          List.append_nil, hout node (by simp [Below]), hdir]
      · by_cases hk : k = n
        · subst hk
          unfold view Patch.apply
          rw [stat_settle hname hparent, Patch.put_singleton]
          by_cases hr : r = []
          · simp [hr]
          · by_cases hnode : node = .dir <;> simp [hr, hnode]
        · rw [Patch.apply_of_none (Patch.put_cons_of_ne hk _ _ _)]
          exact hother node r hk
    | cons m rest =>
      rw [plant]
      have hmade : (settle (dir ++ [n]) .dir t).stat (dir ++ [n]) = some .dir := by
        rw [stat_settle hname hparent, if_pos rfl]
      obtain ⟨hview, hrest⟩ := ih hmade
      have hlow : ∀ {q : Place}, ¬Below dir q → ¬Below (dir ++ [n]) q :=
        fun hq h => hq <| Below.of_prefix (by simp [Below]) h.1
      refine ⟨funext fun q => ?_, fun q hq => ?_⟩
      · rcases q with _ | ⟨k, r⟩
        · rw [Patch.apply_of_some (Patch.put_root (List.cons_ne_nil n _) node), view,
            List.append_nil, hrest dir (hlow (by simp [Below])), hout .dir (by simp [Below]), hdir]
        · by_cases hk : k = n
          · subst hk
            have hsame := congrFun hview r
            unfold view Patch.apply at hsame ⊢
            rw [Patch.put_cons (List.cons_ne_nil m rest)]
            simp only [List.append_assoc, List.singleton_append] at hsame
            rw [hsame]
            by_cases hr : r = []
            · rw [hr, Patch.put_root (List.cons_ne_nil m rest)]
              rfl
            · rw [stat_settle hname hparent, if_neg (by simpa using hr), if_neg (by simp)]
          · rw [Patch.apply_of_none (Patch.put_cons_of_ne hk _ _ _)]
            unfold view
            rw [hrest _ fun h => hk ?_, hother .dir r hk]
            have hpre := h.1
            rw [List.prefix_append_right_inj, List.cons_prefix_cons] at hpre
            exact hpre.1.symm
      · rw [hrest q (hlow hq), hout .dir hq]

theorem plant_cwd (dir p : Place) (node : Node) (t : FileTree) :
    (plant dir p node t).cwd = t.cwd := by
  induction p generalizing dir t with
  | nil => rfl
  | cons n p ih =>
    cases p with
    | nil => exact settle_cwd _ node t
    | cons m rest => rw [plant, ih, settle_cwd]

theorem patched_plant {t : FileTree} {dir : Place} (p : Place) {node : Node}
    (hdir : t.stat dir = some .dir) : Patched dir [.put p node] t (plant dir p node t) :=
  ⟨plant_cwd dir p node t, (view_plant p hdir).1, (view_plant p hdir).2⟩

end Overlay
