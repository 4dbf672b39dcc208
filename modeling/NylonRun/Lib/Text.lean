import Mathlib.Algebra.Group.Nat.Defs
import Mathlib.Data.List.DropRight
import Mathlib.Data.List.Infix
import Mathlib.Data.List.TakeWhile

/-!
# Strings as the standard library of Rust handles them

Each function is the one of that name on `&str`, over the characters of the string.
-/

namespace Text

def startsWith (s pat : String) : Bool := pat.toList.isPrefixOf s.toList

def endsWith (s pat : String) : Bool := pat.toList.isSuffixOf s.toList

/-- `str::strip_prefix`. -/
def stripPrefix (s pat : String) : Option String :=
  if startsWith s pat then some (String.ofList (s.toList.drop pat.length)) else none

/-- `str::contains`. -/
def contains (s pat : String) : Bool := decide (pat.toList <:+: s.toList)

/-- `str::split` at one character. -/
def split (c : Char) (s : String) : List String := (s.toList.splitOn c).map String.ofList

/-- `[&str]::join` with one character. -/
def join (c : Char) (parts : List String) : String :=
  String.ofList ([c].intercalate (parts.map String.toList))

/-- `str::split_once` at one character; `splitn(2, c)` has two parts in the same cases. -/
def splitOnce (c : Char) (s : String) : Option (String × String) :=
  match s.toList.span (· ≠ c) with
  | (_, []) => none
  | (front, _ :: back) => some (String.ofList front, String.ofList back)

/-- `char::is_whitespace`: the Unicode property `White_Space`. -/
def isWhitespace (c : Char) : Bool :=
  let n := c.toNat
  (0x09 ≤ n && n ≤ 0x0D) || n == 0x20 || n == 0x85 || n == 0xA0 || n == 0x1680 ||
    (0x2000 ≤ n && n ≤ 0x200A) || n == 0x2028 || n == 0x2029 || n == 0x202F || n == 0x205F ||
    n == 0x3000

/-- `str::trim_start_matches` with a set of characters. -/
def trimStart (drop : Char → Bool) (s : String) : String := String.ofList (s.toList.dropWhile drop)

/-- `str::trim_matches` with a set of characters. -/
def trimBoth (drop : Char → Bool) (s : String) : String :=
  String.ofList ((s.toList.dropWhile drop).reverse.dropWhile drop).reverse

/-- `str::lines`: the end of line, `\n` or `\r\n`, is not part of a line, and an empty text
after the last one is not a line. -/
def lines (s : String) : List String :=
  let parts := s.toList.splitOn '\n'
  let last := parts.getLast?.getD []
  let ended := parts.dropLast.map fun l => if l.getLast? = some '\r' then l.dropLast else l
  (ended ++ if last = [] then [] else [last]).map String.ofList

/-- The value of decimal digits, if they are digits and there is one. -/
def digits (cs : List Char) : Option Nat :=
  if cs ≠ [] ∧ cs.all (·.isDigit) then some (cs.foldl (fun n c => 10 * n + (c.toNat - 48)) 0)
  else none

/-- `str::parse` to an unsigned integer type of `2 ^ bits` values: one leading `+` is allowed. -/
def parseUnsigned (bits : Nat) (s : String) : Option Nat :=
  let cs := s.toList
  ((digits (if cs.head? = some '+' then cs.tail else cs)).filter (· < 2 ^ bits))

/-- What is left without the prefix is what follows it. -/
theorem stripPrefix_eq_some {s pat rest : String} :
    stripPrefix s pat = some rest ↔ s = pat ++ rest := by
  unfold stripPrefix startsWith
  rw [← String.toList_inj, String.toList_append, ← String.length_toList]
  constructor
  · intro h
    split at h
    · rename_i hprefix
      obtain ⟨back, hback⟩ := List.isPrefixOf_iff_prefix.1 hprefix
      rw [← hback, List.drop_left] at h
      rw [← Option.some.inj h, String.toList_ofList, hback]
    · cases h
  · intro h
    rw [if_pos (List.isPrefixOf_iff_prefix.2 ⟨rest.toList, h.symm⟩), h, List.drop_left,
      String.ofList_toList]

/-- A text is cut from what follows it by a character that it does not contain and that what
follows, unless empty, starts with. -/
theorem append_inj_of_head {α : Type} {c : α} {l l' m m' : List α} (hl : c ∉ l) (hl' : c ∉ l')
    (hm : ∀ d ∈ m.head?, d = c) (hm' : ∀ d ∈ m'.head?, d = c) (h : l ++ m = l' ++ m') :
    l = l' ∧ m = m' := by
  induction l generalizing l' with
  | nil =>
    cases l' with
    | nil => exact ⟨rfl, h⟩
    | cons d l' =>
      have hd : m.head? = some d := by rw [List.nil_append] at h; rw [h]; rfl
      obtain rfl := hm d hd
      exact absurd List.mem_cons_self hl'
  | cons d l ih =>
    cases l' with
    | nil =>
      have hd : m'.head? = some d := by rw [List.nil_append] at h; rw [← h]; rfl
      obtain rfl := hm' d hd
      exact absurd List.mem_cons_self hl
    | cons d' l' =>
      obtain ⟨rfl, htail⟩ := List.cons.inj h
      obtain ⟨rfl, rfl⟩ := ih (fun hc => hl (List.mem_cons_of_mem _ hc))
        (fun hc => hl' (List.mem_cons_of_mem _ hc)) htail
      exact ⟨rfl, rfl⟩

/-! ## Splitting and joining -/

theorem notMem_of_mem_splitOn {a : Char} {cs l : List Char} (h : l ∈ cs.splitOn a) : a ∉ l := by
  induction cs generalizing l with
  | nil =>
    rw [List.splitOn_nil, List.mem_singleton] at h
    simp [h]
  | cons c cs ih =>
    rw [List.splitOn_cons_eq_if_modifyHead] at h
    split at h
    · rcases List.mem_cons.1 h with rfl | h
      · simp
      · exact ih h
    · rename_i hc
      rcases hs : cs.splitOn a with _ | ⟨first, rest⟩
      · exact absurd hs (List.splitOn_ne_nil a cs)
      · rw [hs] at h ih
        rcases List.mem_cons.1 h with rfl | h
        · rw [List.mem_cons, not_or]
          exact ⟨by simpa using Ne.symm (by simpa using hc), ih List.mem_cons_self⟩
        · exact ih (List.mem_cons_of_mem _ h)

theorem notMem_of_mem_split {c : Char} {s part : String} (h : part ∈ split c s) :
    c ∉ part.toList := by
  obtain ⟨l, hl, rfl⟩ := List.mem_map.1 h
  rw [String.toList_ofList]
  exact notMem_of_mem_splitOn hl

theorem split_ne_nil (c : Char) (s : String) : split c s ≠ [] := by
  simp [split, List.splitOn_ne_nil]

/-- Parts without the character are told apart again. -/
theorem split_join {c : Char} {parts : List String} (hne : parts ≠ [])
    (h : ∀ part ∈ parts, c ∉ part.toList) : split c (join c parts) = parts := by
  have hlists : ∀ l ∈ parts.map String.toList, c ∉ l := by
    intro l hl
    obtain ⟨part, hpart, rfl⟩ := List.mem_map.1 hl
    exact h part hpart
  unfold split join
  rw [String.toList_ofList, List.splitOn_intercalate c hlists (by simpa using hne), List.map_map]
  have hid : String.ofList ∘ String.toList = id := funext fun _ => String.ofList_toList
  rw [hid, List.map_id]

theorem split_of_notMem {c : Char} {s : String} (h : c ∉ s.toList) : split c s = [s] := by
  unfold split
  rw [List.splitOn_eq_singleton h, List.map_singleton, String.ofList_toList]

/-- The first part ends before the first separator, whatever follows it. -/
theorem head?_split_append (c : Char) (s rest : String) :
    (split c (s ++ String.singleton c ++ rest)).head? = (split c s).head? := by
  unfold split
  rw [String.toList_append, String.toList_append, String.toList_singleton, List.append_assoc,
    List.singleton_append, List.splitOn_append_cons_self, List.map_append, List.head?_append]
  cases hhead : (List.map String.ofList (s.toList.splitOn c)).head? with
  | none => exact absurd (List.head?_eq_none_iff.1 hhead) (by simp [List.splitOn_ne_nil])
  | some part => rfl

/-- The first part of a text is what stands before the first separator. -/
theorem head?_split (c : Char) (s : String) :
    (split c s).head? = some (String.ofList (s.toList.takeWhile (· ≠ c))) := by
  by_cases hc : c ∈ s.toList
  · obtain ⟨front, back, hs, hfront⟩ := List.eq_append_cons_of_mem hc
    have hfront' : c ∉ (String.ofList front).toList := by rwa [String.toList_ofList]
    have heq : s = String.ofList front ++ String.singleton c ++ String.ofList back := by
      rw [← String.toList_inj, hs]
      simp
    have htake : s.toList.takeWhile (· ≠ c) = front := by
      rw [hs, List.takeWhile_append_of_pos, List.takeWhile_cons_of_neg (by simp), List.append_nil]
      intro a ha
      exact decide_eq_true fun hac => hfront (hac ▸ ha)
    rw [htake, heq, head?_split_append, split_of_notMem hfront']
    rfl
  · have htake : s.toList.takeWhile (· ≠ c) = s.toList := by
      rw [List.takeWhile_eq_self_iff]
      intro a ha
      exact decide_eq_true fun hac => hc (hac ▸ ha)
    rw [split_of_notMem hc, htake, String.ofList_toList]
    rfl

/-! ## Trimming -/

theorem toList_trimBoth (drop : Char → Bool) (s : String) :
    (trimBoth drop s).toList = (s.toList.dropWhile drop).rdropWhile drop := by
  rw [trimBoth, String.toList_ofList, List.rdropWhile]

theorem mem_of_mem_trimBoth {drop : Char → Bool} {s : String} {c : Char}
    (h : c ∈ (trimBoth drop s).toList) : c ∈ s.toList := by
  rw [toList_trimBoth] at h
  exact (List.dropWhile_sublist drop).subset ((List.rdropWhile_prefix drop _).subset h)

/-- What is trimmed has nothing left to trim. -/
theorem trimBoth_trimBoth (drop : Char → Bool) (s : String) :
    trimBoth drop (trimBoth drop s) = trimBoth drop s := by
  have hstart : ((trimBoth drop s).toList).dropWhile drop = (trimBoth drop s).toList := by
    rw [toList_trimBoth, List.dropWhile_eq_self_iff]
    intro hpos
    have hfront := List.rdropWhile_prefix drop (s.toList.dropWhile drop)
    have hlen : 0 < (s.toList.dropWhile drop).length := Nat.lt_of_lt_of_le hpos hfront.length_le
    rw [hfront.getElem hpos]
    exact List.dropWhile_eq_self_iff.1 (List.dropWhile_idempotent drop _) hlen
  rw [← String.toList_inj, toList_trimBoth drop (trimBoth drop s), hstart, toList_trimBoth,
    List.rdropWhile_idempotent]

/-! ## Numbers -/

theorem digits_toString (n : Nat) : digits (toString n).toList = some n := by
  have hdigits : ∀ c ∈ Nat.toDigits 10 n, c.isDigit = true :=
    fun c hc => Nat.isDigit_of_mem_toDigits (by omega) (by omega) hc
  rw [Nat.toString_eq_repr, Nat.toList_repr, digits,
    if_pos ⟨Nat.toDigits_ne_nil, List.all_eq_true.2 hdigits⟩]
  exact congrArg some (Nat.ofDigitChars_eq_foldl.symm.trans Nat.ofDigitChars_ten_toDigits)

/-- A number is read as it is written. -/
theorem parseUnsigned_toString {bits n : Nat} (h : n < 2 ^ bits) :
    parseUnsigned bits (toString n) = some n := by
  have hsign : (toString n).toList.head? ≠ some '+' := by
    intro hhead
    have hmem : '+' ∈ Nat.toDigits 10 n := by
      rw [Nat.toString_eq_repr, Nat.toList_repr] at hhead
      exact List.mem_of_mem_head? hhead
    exact absurd (Nat.isDigit_of_mem_toDigits (by omega) (by omega) hmem) (by decide)
  unfold parseUnsigned
  dsimp only
  rw [if_neg hsign, digits_toString, Option.filter_some, if_pos (by simpa using h)]

end Text
