import NylonRun.Lib.Text

/-!
# Trimming and cutting texts

What trimming leaves as it is, what it does on either side of a character that stays, and where a
text is cut in two.
-/

namespace Text

variable {α : Type} {p : α → Bool} {c : α}

/-- What stops the trimming keeps all that follows it. -/
theorem dropWhile_append_stop (h : p c = false) (l m : List α) :
    (l ++ c :: m).dropWhile p = l.dropWhile p ++ c :: m := by
  have hstop : (c :: m).dropWhile p = c :: m := List.dropWhile_cons_of_neg (by simp [h])
  rw [List.dropWhile_append, hstop]
  cases hl : l.dropWhile p with
  | nil => rfl
  | cons a as => rfl

theorem rdropWhile_append_stop (h : p c = false) (l m : List α) :
    (l ++ c :: m).rdropWhile p = l ++ c :: m.rdropWhile p := by
  have hrev : (l ++ c :: m).reverse = m.reverse ++ c :: l.reverse := by simp
  rw [List.rdropWhile, hrev, dropWhile_append_stop h, List.rdropWhile]
  simp

/-- Both ends are trimmed in either order. -/
theorem dropWhile_rdropWhile (l : List α) :
    (l.rdropWhile p).dropWhile p = (l.dropWhile p).rdropWhile p := by
  by_cases hall : ∀ x ∈ l, p x
  · have hleft : l.dropWhile p = [] := List.dropWhile_eq_nil_iff.2 hall
    have hright : l.rdropWhile p = [] := List.rdropWhile_eq_nil_iff.2 hall
    rw [hleft, hright]
    rfl
  · push Not at hall
    obtain ⟨x, hx, hstop⟩ := hall
    obtain ⟨front, back, rfl⟩ := List.append_of_mem hx
    have hstop : p x = false := by simpa using hstop
    rw [rdropWhile_append_stop hstop, dropWhile_append_stop hstop, dropWhile_append_stop hstop,
      rdropWhile_append_stop hstop]

theorem dropWhile_eq_self_iff_head (l : List α) :
    l.dropWhile p = l ↔ ∀ c ∈ l.head?, p c = false := by
  rw [List.dropWhile_eq_self_iff]
  cases l with
  | nil => simp
  | cons a as => simp

theorem rdropWhile_eq_self_iff_last (l : List α) :
    l.rdropWhile p = l ↔ ∀ c ∈ l.getLast?, p c = false := by
  rw [← List.head?_reverse, ← dropWhile_eq_self_iff_head, List.rdropWhile,
    List.reverse_eq_iff]

/-- Neither end of the text has a character that would be trimmed. -/
def Trimmed (drop : Char → Bool) (s : String) : Prop :=
  (∀ c ∈ s.toList.head?, drop c = false) ∧ ∀ c ∈ s.toList.getLast?, drop c = false

variable {drop drop' : Char → Bool} {s : String}

theorem trimBoth_eq_self_iff : trimBoth drop s = s ↔ Trimmed drop s := by
  rw [← String.toList_inj, toList_trimBoth, Trimmed, ← dropWhile_eq_self_iff_head,
    ← rdropWhile_eq_self_iff_last]
  constructor
  · intro h
    have hprefix : s.toList <+: s.toList.dropWhile drop := by
      have hrdrop := List.rdropWhile_prefix drop (s.toList.dropWhile drop)
      rwa [h] at hrdrop
    have hfront : s.toList.dropWhile drop = s.toList :=
      (List.dropWhile_sublist drop).eq_of_length_le hprefix.length_le
    rw [hfront] at h
    exact ⟨hfront, h⟩
  · rintro ⟨hfront, hback⟩
    rw [hfront, hback]

theorem trimBoth_sublist (drop : Char → Bool) (s : String) :
    (trimBoth drop s).toList.Sublist s.toList := by
  rw [toList_trimBoth]
  exact (List.rdropWhile_prefix drop _).sublist.trans (List.dropWhile_sublist drop)

/-- Two trims leave a text as it is if each of them does. -/
theorem trimBoth_trimBoth_eq_self_iff :
    trimBoth drop (trimBoth drop' s) = s ↔ Trimmed drop' s ∧ Trimmed drop s := by
  rw [← trimBoth_eq_self_iff, ← trimBoth_eq_self_iff]
  constructor
  · intro h
    have hle : s.toList.length ≤ (trimBoth drop' s).toList.length := by
      have houter := (trimBoth_sublist drop (trimBoth drop' s)).length_le
      rwa [h] at houter
    have hinner : trimBoth drop' s = s :=
      String.toList_inj.1 ((trimBoth_sublist drop' s).eq_of_length_le hle)
    rw [hinner] at h
    exact ⟨hinner, h⟩
  · rintro ⟨hinner, houter⟩
    rw [hinner, houter]

/-- A character to be trimmed at both ends is. -/
theorem trimBoth_enclosed {q : Char} (hq : drop q = true) (inner : String) :
    trimBoth drop (String.singleton q ++ inner ++ String.singleton q) = trimBoth drop inner := by
  rw [← String.toList_inj, toList_trimBoth, toList_trimBoth]
  simp only [String.toList_append, String.toList_singleton, List.cons_append, List.nil_append]
  rw [List.dropWhile_cons_of_pos hq, ← dropWhile_rdropWhile, List.rdropWhile_concat_pos _ _ _ hq,
    dropWhile_rdropWhile]

/-- Trimming a text around a character that stays trims what is before it and what is after it,
each on its own. -/
theorem trimBoth_append_stop {c : Char} (hc : drop c = false) (front back : String) :
    trimBoth drop (front ++ String.singleton c ++ back) =
      trimStart drop front ++ String.singleton c ++ String.ofList (back.toList.rdropWhile drop) := by
  rw [← String.toList_inj, toList_trimBoth]
  simp only [String.toList_append, String.toList_singleton, List.append_assoc,
    List.singleton_append, trimStart, String.toList_ofList]
  rw [dropWhile_append_stop hc, rdropWhile_append_stop hc]

theorem trimBoth_trimStart (drop : Char → Bool) (s : String) :
    trimBoth drop (trimStart drop s) = trimBoth drop s := by
  rw [← String.toList_inj, toList_trimBoth, toList_trimBoth, trimStart, String.toList_ofList,
    List.dropWhile_idempotent]

theorem trimBoth_rdropWhile (drop : Char → Bool) (s : String) :
    trimBoth drop (String.ofList (s.toList.rdropWhile drop)) = trimBoth drop s := by
  rw [← String.toList_inj, toList_trimBoth, toList_trimBoth, String.toList_ofList,
    dropWhile_rdropWhile, List.rdropWhile_idempotent]

/-- A text is cut at the first occurrence of the character. -/
theorem splitOnce_append {c : Char} {front : String} (h : c ∉ front.toList) (back : String) :
    splitOnce c (front ++ String.singleton c ++ back) = some (front, back) := by
  have hspan : (front ++ String.singleton c ++ back).toList.span (· ≠ c) =
      (front.toList, c :: back.toList) := by
    simp only [String.toList_append, String.toList_singleton, List.append_assoc,
      List.singleton_append]
    have hfront : ∀ a ∈ front.toList, decide (a ≠ c) = true := by
      intro a ha
      exact decide_eq_true fun hac => h (hac ▸ ha)
    rw [List.span_eq_takeWhile_dropWhile, List.takeWhile_append_of_pos hfront,
      List.dropWhile_append_of_pos hfront]
    simp
  rw [splitOnce, hspan]
  simp

theorem mem_of_splitOnce {c : Char} {parts : String × String} (h : splitOnce c s = some parts) :
    c ∈ s.toList := by
  by_contra hc
  have hall : ∀ a ∈ s.toList, decide (a ≠ c) = true := by
    intro a ha
    exact decide_eq_true fun hac => hc (hac ▸ ha)
  have hspan : s.toList.span (· ≠ c) = (s.toList, []) := by
    rw [List.span_eq_takeWhile_dropWhile, List.takeWhile_eq_self_iff.2 hall,
      List.dropWhile_eq_nil_iff.2 hall]
  rw [splitOnce, hspan] at h
  exact nomatch h

end Text
