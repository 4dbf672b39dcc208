import Mathlib.Data.List.Pairwise
import Mathlib.Data.Prod.Lex
import Mathlib.Logic.Function.Basic

/-!
# Who came first

A register knows of everyone who has entered what they asked for, and when. A line of such entries,
in which whoever enters goes to the end, is searched for the first entry that a list of wishes
accepts, wish by wish. What is found is the best entry of the register: that of the first wish,
and among these the one that was there first.
-/

/-- What each has entered last and not taken back, and at what time. -/
structure Register (α β : Type) where
  clock : Nat
  entry : α → Option (Nat × β)

namespace Register

variable {α β : Type}

def empty : Register α β := ⟨0, fun _ => none⟩

/-- Whoever enters something new, is there since now. -/
def enter [DecidableEq α] (reg : Register α β) (a : α) (b : β) : Register α β :=
  ⟨reg.clock + 1, Function.update reg.entry a (some (reg.clock, b))⟩

def leave [DecidableEq α] (reg : Register α β) (a : α) : Register α β :=
  { reg with entry := Function.update reg.entry a none }

/-- `a` has entered `b`, which has a rank, and every other entry that has one has a higher rank,
or the same and a later time. -/
def Best (reg : Register α β) (rank : β → Option Nat) (a : α) (b : β) : Prop :=
  ∃ t k, reg.entry a = some (t, b) ∧ rank b = some k ∧
    ∀ a' t' b' k', reg.entry a' = some (t', b') → rank b' = some k' →
      toLex (k, t) ≤ toLex (k', t')

/-- The line has the entries of the register in the order of their times. -/
structure Lines (name : β → α) (reg : Register α β) (line : List β) : Prop where
  mem : ∀ b, b ∈ line ↔ ∃ t, reg.entry (name b) = some (t, b)
  own : ∀ a t b, reg.entry a = some (t, b) → name b = a
  sorted : line.Pairwise fun b b' => ∀ t t', reg.entry (name b) = some (t, b) →
    reg.entry (name b') = some (t', b') → t < t'
  past : ∀ a t b, reg.entry a = some (t, b) → t < reg.clock

variable {name : β → α} {reg : Register α β} {line : List β}

theorem lines_empty : Lines name (empty : Register α β) [] where
  mem b := by
    constructor
    · intro h
      cases h
    · rintro ⟨t, h⟩
      cases h
  own a t b h := by cases h
  sorted := .nil
  past a t b h := by cases h

section

variable [DecidableEq α]

theorem entry_leave (a a' : α) :
    (reg.leave a).entry a' = if a' = a then none else reg.entry a' := by
  unfold leave
  exact Function.update_apply reg.entry a none a'

theorem entry_enter (a a' : α) (b : β) :
    (reg.enter a b).entry a' = if a' = a then some (reg.clock, b) else reg.entry a' := by
  unfold enter
  exact Function.update_apply reg.entry a (some (reg.clock, b)) a'

/-- Who leaves, leaves the line. -/
theorem Lines.leave (h : Lines name reg line) (a : α) :
    Lines name (reg.leave a) (line.filter fun b => name b ≠ a) where
  mem b := by
    rw [List.mem_filter, entry_leave, h.mem]
    by_cases ha : name b = a <;> simp [ha]
  own a' t b hb := by
    rw [entry_leave] at hb
    split at hb
    · exact nomatch hb
    · exact h.own a' t b hb
  sorted := by
    refine (h.sorted.filter _).imp_of_mem fun {b b'} hb hb' hlt t t' ht ht' => ?_
    have hne : name b ≠ a := by simpa using (List.mem_filter.1 hb).2
    have hne' : name b' ≠ a := by simpa using (List.mem_filter.1 hb').2
    rw [entry_leave, if_neg hne] at ht
    rw [entry_leave, if_neg hne'] at ht'
    exact hlt t t' ht ht'
  past a' t b hb := by
    rw [entry_leave] at hb
    split at hb
    · exact nomatch hb
    · exact h.past a' t b hb

/-- Who enters goes to the end of the line. -/
theorem Lines.enter (h : Lines name reg line) (b : β) :
    Lines name (reg.enter (name b) b) (line.filter (fun b' => name b' ≠ name b) ++ [b]) where
  mem b' := by
    rw [List.mem_append, List.mem_filter, List.mem_singleton, entry_enter, h.mem]
    by_cases hname : name b' = name b
    · simp only [hname, ne_eq, not_true_eq_false, decide_false, Bool.false_eq_true, and_false,
        false_or, if_true, Option.some.injEq, Prod.mk.injEq]
      exact ⟨fun hb => ⟨_, rfl, hb.symm⟩, fun ⟨_, _, hb⟩ => hb.symm⟩
    · have hne : b' ≠ b := fun hb => hname (hb ▸ rfl)
      simp [hname, hne]
  own a t b' hb' := by
    rw [entry_enter] at hb'
    split at hb'
    · rename_i ha
      cases hb'
      exact ha.symm
    · exact h.own a t b' hb'
  sorted := by
    rw [List.pairwise_append]
    refine ⟨(h.sorted.filter _).imp_of_mem fun {c c'} hc hc' hlt t t' ht ht' => ?_,
      List.pairwise_singleton _ _, fun c hc c' hc' t t' ht ht' => ?_⟩
    · have hne : name c ≠ name b := by simpa using (List.mem_filter.1 hc).2
      have hne' : name c' ≠ name b := by simpa using (List.mem_filter.1 hc').2
      rw [entry_enter, if_neg hne] at ht
      rw [entry_enter, if_neg hne'] at ht'
      exact hlt t t' ht ht'
    · obtain rfl := List.mem_singleton.1 hc'
      have hne : name c ≠ name c' := by simpa using (List.mem_filter.1 hc).2
      rw [entry_enter, if_neg hne] at ht
      rw [entry_enter, if_pos rfl] at ht'
      cases ht'
      exact h.past _ _ _ ht
  past a t b' hb' := by
    change t < reg.clock + 1
    rw [entry_enter] at hb'
    split at hb'
    · cases hb'
      exact Nat.lt_succ_self _
    · exact Nat.lt_succ_of_lt (h.past a t b' hb')

end

/-! ## What is found -/

/-- The first entry in a line that one of the wishes accepts, the first wish first. -/
def firstOf (wishes : List (β → Bool)) (line : List β) : Option β :=
  wishes.findSome? fun wish => line.find? wish

/-- The number of the first wish that accepts an entry. -/
def rankOf (wishes : List (β → Bool)) (b : β) : Option Nat := wishes.findIdx? fun wish => wish b

/-- Two entries of one line have different times. -/
theorem Lines.eq_of_time (h : Lines name reg line) {t : Nat} {b b' : β}
    (hb : reg.entry (name b) = some (t, b)) (hb' : reg.entry (name b') = some (t, b')) : b = b' := by
  let Apart (b b' : β) : Prop := ∀ t, reg.entry (name b) = some (t, b) →
    reg.entry (name b') ≠ some (t, b')
  have hsymm : Std.Symm Apart := ⟨fun b b' hapart t hb hb' => hapart t hb' hb⟩
  have hpairs : line.Pairwise Apart :=
    h.sorted.imp fun {b b'} hlt t hb hb' => Nat.lt_irrefl t (hlt t t hb hb')
  by_contra hne
  exact hpairs.forall ((h.mem b).2 ⟨t, hb⟩) ((h.mem b').2 ⟨t, hb'⟩) hne t hb hb'

theorem Best.unique {rank : β → Option Nat} {a a' : α} {b b' : β} (h : Lines name reg line)
    (hb : reg.Best rank a b) (hb' : reg.Best rank a' b') : b = b' := by
  obtain ⟨t, k, hentry, hrank, hleast⟩ := hb
  obtain ⟨t', k', hentry', hrank', hleast'⟩ := hb'
  have hsame : (k, t) = (k', t') := toLex.injective
    (le_antisymm (hleast a' t' b' k' hentry' hrank') (hleast' a t b k hentry hrank))
  obtain rfl : t = t' := congrArg Prod.snd hsame
  obtain rfl := h.own a t b hentry
  obtain rfl := h.own a' t b' hentry'
  exact h.eq_of_time hentry hentry'

/-- The first of a line that a wish accepts was there before all others that it accepts. -/
theorem Lines.find?_first (h : Lines name reg line) {wish : β → Bool} {b b' : β} {t t' : Nat}
    (hfind : line.find? wish = some b) (hb : reg.entry (name b) = some (t, b))
    (hb' : reg.entry (name b') = some (t', b')) (hwish : wish b' = true) : t ≤ t' := by
  obtain ⟨-, front, back, hline, hfront⟩ := List.find?_eq_some_iff_append.1 hfind
  have hsorted := h.sorted
  have hmem : b' ∈ line := (h.mem b').2 ⟨t', hb'⟩
  rw [hline] at hsorted hmem
  rcases List.mem_append.1 hmem with hin | hin
  · have hno := hfront b' hin
    rw [hwish] at hno
    exact nomatch hno
  · rcases List.mem_cons.1 hin with rfl | hback
    · rw [hb] at hb'
      cases hb'
      exact Nat.le_refl t
    · have hlater := (List.pairwise_cons.1 (List.pairwise_append.1 hsorted).2.1).1 b' hback
      exact Nat.le_of_lt (hlater t t' hb hb')

/-- What is found in the line is the best of the register. -/
theorem Lines.best_of_firstOf (h : Lines name reg line) {wishes : List (β → Bool)} {b : β}
    (hfirst : firstOf wishes line = some b) : reg.Best (rankOf wishes) (name b) b := by
  obtain ⟨before, wish, after, rfl, hfind, hbefore⟩ := List.findSome?_eq_some_iff.1 hfirst
  have hmem := List.mem_of_find?_eq_some hfind
  obtain ⟨t, hentry⟩ := (h.mem b).1 hmem
  -- no wish before this one accepts an entry of the line
  have hnone : ∀ b' t', reg.entry (name b') = some (t', b') → ∀ w ∈ before, w b' = false := by
    intro b' t' hb' w hw
    have hno := List.find?_eq_none.1 (hbefore w hw) b' ((h.mem b').2 ⟨t', hb'⟩)
    simpa using hno
  refine ⟨t, before.length, hentry, ?_, ?_⟩
  · rw [rankOf, List.findIdx?_append,
      List.findIdx?_eq_none_iff.2 fun w hw => hnone b t hentry w hw]
    simp [List.findIdx?_cons, List.find?_some hfind]
  · intro a' t' b' k' hb' hrank'
    obtain rfl := h.own a' t' b' hb'
    rw [rankOf, List.findIdx?_append,
      List.findIdx?_eq_none_iff.2 fun w hw => hnone b' t' hb' w hw] at hrank'
    cases hwish : wish b' with
    | true =>
      have htime := h.find?_first hfind hentry hb' hwish
      simp [List.findIdx?_cons, hwish] at hrank'
      rw [← hrank', Prod.Lex.toLex_le_toLex]
      exact .inr ⟨rfl, htime⟩
    | false =>
      simp [List.findIdx?_cons, hwish] at hrank'
      rw [Prod.Lex.toLex_le_toLex]
      refine .inl ?_
      obtain ⟨i, -, hi⟩ := hrank'
      show before.length < k'
      omega

/-- The search of a line finds exactly the best entry of the register. -/
theorem Lines.firstOf_eq_some_iff (h : Lines name reg line) {wishes : List (β → Bool)} {b : β} :
    firstOf wishes line = some b ↔ reg.Best (rankOf wishes) (name b) b := by
  refine ⟨h.best_of_firstOf, fun hbest => ?_⟩
  cases hfirst : firstOf wishes line with
  | some b' => exact congrArg some ((h.best_of_firstOf hfirst).unique h hbest)
  | none =>
    obtain ⟨t, k, hentry, hrank, -⟩ := hbest
    obtain ⟨hk, haccepts, -⟩ := List.findIdx?_eq_some_iff_getElem.1 hrank
    have hno := List.findSome?_eq_none_iff.1 hfirst _ (List.getElem_mem hk)
    exact absurd haccepts (List.find?_eq_none.1 hno b ((h.mem b).2 ⟨t, hentry⟩))

end Register
