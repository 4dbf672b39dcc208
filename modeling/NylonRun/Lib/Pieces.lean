import NylonRun.Lib.Trimming

/-!
# Texts cut at a separator

`str::split` with a text as the pattern: the places where it occurs are found from the left, and
none of them overlap. A separator whose first character does not come again in it is found where it
was put, and nowhere else, between texts that do not have it.
-/

namespace Text

/-- The pieces of a text between the occurrences of a pattern that is not empty; of an occurrence
that has begun, `skip` characters are left. -/
def pieces (pat : List Char) : (skip : Nat) → List Char → List (List Char)
  | _, [] => [[]]
  | skip + 1, _ :: cs => pieces pat skip cs
  | 0, c :: cs =>
    if pat.isPrefixOf (c :: cs) then [] :: pieces pat (pat.length - 1) cs
    else
      match pieces pat 0 cs with
      | [] => [[c]]
      | front :: back => (c :: front) :: back

/-- `str::split` with a text. -/
def splitOn (pat s : String) : List String := (pieces pat.toList 0 s.toList).map String.ofList

/-- `[String]::join`. -/
def joinWith (sep : String) (parts : List String) : String := sep.intercalate parts

variable {c : Char} {rest : List Char}

theorem pieces_skip (pat : List Char) (l more : List Char) :
    pieces pat l.length (l ++ more) = pieces pat 0 more := by
  induction l with
  | nil => rfl
  | cons a l ih => exact ih

/-- A text that does not have the pattern is one piece. -/
theorem pieces_of_not_infix {pat text : List Char} (h : ¬pat <:+: text) :
    pieces pat 0 text = [text] := by
  induction text with
  | nil => rfl
  | cons a text ih =>
    have hhead : pat.isPrefixOf (a :: text) = false := by
      rw [Bool.eq_false_iff, Ne, List.isPrefixOf_iff_prefix]
      exact fun hpre => h hpre.isInfix
    have hrest := ih fun hin => h (hin.trans (List.suffix_cons a text).isInfix)
    rw [pieces, if_neg (by simp [hhead]), hrest]

/-- The first occurrence of the pattern is not before it, if its first character does not come
again in it. -/
theorem not_prefix_append (hc : c ∉ rest) {a : Char} {text : List Char}
    (h : ¬(c :: rest) <:+: a :: text) (more : List Char) :
    ¬(c :: rest) <+: a :: (text ++ (c :: rest) ++ more) := by
  intro hpre
  rw [List.cons_prefix_cons, List.append_assoc, List.cons_append] at hpre
  obtain ⟨rfl, hpre⟩ := hpre
  by_cases hlength : rest.length ≤ text.length
  · -- the rest of the pattern stands in the text
    have hin : rest <+: text := List.prefix_of_prefix_length_le hpre (List.prefix_append text _)
      hlength
    exact h ((List.cons_prefix_cons.2 ⟨rfl, hin⟩).isInfix)
  · -- it reaches the next occurrence, whose first character is then in it
    have hreach : text ++ [c] <+: rest := by
      refine List.prefix_of_prefix_length_le ?_ hpre (by simp; omega)
      exact ⟨rest ++ more, by simp⟩
    exact hc (hreach.subset (by simp))

/-- The text before the first separator is the first piece. -/
theorem pieces_append (hc : c ∉ rest) {text : List Char} (h : ¬(c :: rest) <:+: text)
    (more : List Char) :
    pieces (c :: rest) 0 (text ++ (c :: rest) ++ more) = text :: pieces (c :: rest) 0 more := by
  induction text with
  | nil =>
    have hhead : (c :: rest).isPrefixOf (c :: (rest ++ more)) = true :=
      List.isPrefixOf_iff_prefix.2 ⟨more, rfl⟩
    rw [List.nil_append, List.cons_append, pieces, if_pos hhead]
    exact congrArg ([] :: ·) (pieces_skip (c :: rest) rest more)
  | cons a text ih =>
    have hhead : (c :: rest).isPrefixOf (a :: (text ++ (c :: rest) ++ more)) = false := by
      rw [Bool.eq_false_iff, Ne, List.isPrefixOf_iff_prefix]
      exact not_prefix_append hc h more
    have hrest := ih fun hin => h (hin.trans (List.suffix_cons a text).isInfix)
    have hstep := pieces.eq_3 (c :: rest) a (text ++ (c :: rest) ++ more)
    rw [if_neg (by rw [hhead]; exact Bool.false_ne_true), hrest] at hstep
    exact hstep

/-- Texts that end with a character, joined by a separator that the character completes in front,
are cut into the texts again, up to that character at their ends. -/
theorem map_pieces_intercalate {β : Type} {f : List Char → β} (hfront : ∀ l, f (c :: l) = f l)
    (hback : ∀ l, f (l ++ [c]) = f l) (hc : c ∉ rest) {text : List Char} {texts : List (List Char)}
    (h : ∀ t ∈ text :: texts, (∃ body, t = body ++ [c]) ∧ ¬(c :: rest) <:+: c :: t)
    {lead : List Char} (hlead : lead = [] ∨ lead = [c]) :
    (pieces (c :: rest) 0 (lead ++ (rest ++ [c]).intercalate (text :: texts))).map f =
      (text :: texts).map f := by
  have hf : ∀ lead, lead = [] ∨ lead = [c] → ∀ l, f (lead ++ l) = f l := by
    rintro lead (rfl | rfl) l
    · rfl
    · exact hfront l
  have happart : ∀ lead, lead = [] ∨ lead = [c] → ∀ t, ¬(c :: rest) <:+: c :: t →
      ¬(c :: rest) <:+: lead ++ t := by
    rintro lead (rfl | rfl) t ht hin
    · exact ht (hin.trans (List.suffix_cons c t).isInfix)
    · exact ht hin
  induction texts generalizing text lead with
  | nil =>
    have hone : (rest ++ [c]).intercalate [text] = text := by simp [List.intercalate]
    have hapart := happart lead hlead text (h text List.mem_cons_self).2
    rw [hone, pieces_of_not_infix hapart, List.map_singleton, List.map_singleton, hf lead hlead]
  | cons text' texts ih =>
    obtain ⟨⟨body, hbody⟩, hapart⟩ := h text List.mem_cons_self
    have hcut : lead ++ (rest ++ [c]).intercalate (text :: text' :: texts) =
        (lead ++ body) ++ (c :: rest) ++
          ([c] ++ (rest ++ [c]).intercalate (text' :: texts)) := by
      simp [List.intercalate, hbody]
    have hin : ¬(c :: rest) <:+: lead ++ body := by
      intro hfound
      refine happart lead hlead text hapart (hfound.trans ?_)
      rw [hbody, ← List.append_assoc]
      exact (List.prefix_append _ _).isInfix
    have hrest := ih (fun t ht => h t (List.mem_cons_of_mem _ ht)) (.inr rfl)
    rw [hcut, pieces_append hc hin, List.map_cons, hf lead hlead, hrest,
      List.map_cons (l := text' :: texts), hbody, hback]

/-! ## Trimming around a character that goes -/

variable {drop : Char → Bool}

theorem trimBoth_cons (hc : drop c = true) (l : List Char) :
    trimBoth drop (String.ofList (c :: l)) = trimBoth drop (String.ofList l) := by
  rw [← String.toList_inj, toList_trimBoth, toList_trimBoth, String.toList_ofList,
    String.toList_ofList, List.dropWhile_cons_of_pos hc]

theorem trimBoth_append (hc : drop c = true) (l : List Char) :
    trimBoth drop (String.ofList (l ++ [c])) = trimBoth drop (String.ofList l) := by
  rw [← String.toList_inj, toList_trimBoth, toList_trimBoth, String.toList_ofList,
    String.toList_ofList, ← dropWhile_rdropWhile, ← dropWhile_rdropWhile]
  rw [List.rdropWhile_concat_pos _ _ _ hc]

end Text
