import NylonRun.Lib.FileTree
import NylonRun.Process.Logs

/-!
# Capturing what a child writes

`capture_output` (src/process.rs:638-661) reads the output of a child line by line and writes each
line to the log. Its loop ends with the output, and with the first line that is not UTF-8.
-/

namespace Process.Capture

def decode (bytes : Bytes) : Option String := String.fromUTF8? ⟨bytes.toArray⟩

/-- A carriage return at the end taken off. -/
def stripReturn (line : Bytes) : Bytes := if line.getLast? = some 13 then line.dropLast else line

/-- The lines of a stream: each is ended by a newline, or by the end of the stream if anything
comes before it. -/
def byteLines (s : Bytes) : List Bytes :=
  let parts := s.splitOn 10
  let last := parts.getLast?.getD []
  parts.dropLast.map stripReturn ++ if last = [] then [] else [last]

def invalidData : String := "stream did not contain valid UTF-8"

/-- A line as `next_line` returns it. -/
def asLine (bytes : Bytes) : Except String (Option String) :=
  match decode bytes with
  | some line => .ok (some line)
  | none => .error invalidData

/-- `next_line`: the answer, and what is still to be read. -/
def nextLine (s : Bytes) : Except String (Option String) × Bytes :=
  match s.span (· ≠ 10) with
  | ([], []) => (.ok none, [])
  | (front, []) => (asLine front, [])
  | (front, _ :: back) => (asLine (stripReturn front), back)

theorem asLine_ok {bytes : Bytes} {answer : Option String} (h : asLine bytes = .ok answer) :
    ∃ line, decode bytes = some line ∧ answer = some line := by
  unfold asLine at h
  split at h
  · rename_i line hline
    cases h
    exact ⟨line, hline, rfl⟩
  · cases h

theorem byteLines_cons {front : Bytes} (h : 10 ∉ front) (back : Bytes) :
    byteLines (front ++ 10 :: back) = stripReturn front :: byteLines back := by
  have hparts : (front ++ 10 :: back).splitOn 10 = front :: back.splitOn 10 := by
    rw [List.splitOn_append_cons_self, List.splitOn_eq_singleton h]
    rfl
  have hback : back.splitOn 10 ≠ [] := List.splitOn_ne_nil _ _
  have hlast : (front :: back.splitOn 10).getLast? = (back.splitOn 10).getLast? :=
    List.getLast?_cons_of_ne_nil hback
  unfold byteLines
  dsimp only
  rw [hparts, hlast, List.dropLast_cons_of_ne_nil hback, List.map_cons, List.cons_append]

theorem byteLines_last {front : Bytes} (h : 10 ∉ front) (hne : front ≠ []) :
    byteLines front = [front] := by
  unfold byteLines
  rw [List.splitOn_eq_singleton h]
  simp [hne]

theorem span_newline {front : Bytes} (h : 10 ∉ front) :
    front.span (· ≠ 10) = (front, []) ∧
      ∀ back, (front ++ 10 :: back).span (· ≠ 10) = (front, 10 :: back) := by
  have hall : ∀ b ∈ front, decide (b ≠ 10) = true := by
    intro b hb
    rw [decide_eq_true_eq]
    rintro rfl
    exact h hb
  constructor
  · rw [List.span_eq_takeWhile_dropWhile, List.takeWhile_eq_self_iff.2 hall,
      List.dropWhile_eq_nil_iff.2 hall]
  · intro back
    rw [List.span_eq_takeWhile_dropWhile, List.takeWhile_append_of_pos hall,
      List.dropWhile_append_of_pos hall]
    simp

/-- The stream is at its end, or starts with a line. -/
theorem nextLine_cases (s : Bytes) :
    (byteLines s = [] ∧ nextLine s = (.ok none, [])) ∨
      ∃ line rest, byteLines s = line :: byteLines rest ∧ nextLine s = (asLine line, rest) ∧
        rest.length < s.length := by
  by_cases hnewline : 10 ∈ s
  · obtain ⟨front, back, rfl, hfront⟩ := List.eq_append_cons_of_mem hnewline
    refine .inr ⟨stripReturn front, back, byteLines_cons hfront back, ?_, ?_⟩
    · unfold nextLine
      rw [(span_newline hfront).2]
      cases front <;> rfl
    · simp only [List.length_append, List.length_cons]
      omega
  · unfold nextLine
    rw [(span_newline hnewline).1]
    cases s with
    | nil => exact .inl ⟨rfl, rfl⟩
    | cons b s =>
      exact .inr ⟨b :: s, [], byteLines_last hnewline (by simp), rfl, by simp⟩

/-- What a capture has done: the lines written to the log, and what was never read. -/
structure Captured where
  written : List Bytes
  unread : Bytes

/-- The loop (src/process.rs:655-660), with the time that each line is stamped with. -/
def captureLines (clock : Nat → Bytes) (n : Nat) (s : Bytes) : Captured :=
  match h : nextLine s with
  | (.ok (some line), rest) =>
    let after := captureLines clock (n + 1) rest
    { after with written := timestamped (clock n) line.toUTF8.data.toList :: after.written }
  | (_, rest) => ⟨[], rest⟩
termination_by s.length
decreasing_by
  rcases nextLine_cases s with ⟨-, hend⟩ | ⟨line', rest', -, hnext, hshorter⟩
  · rw [hend] at h
    cases h
  · have hrest : rest' = rest := congrArg Prod.snd (hnext.symm.trans h)
    exact hrest ▸ hshorter

/-- `capture_output`. -/
def captureOutput (openLog : Except String Unit) (clock : Nat → Bytes) (s : Bytes) : Captured :=
  match openLog with
  | .ok () => captureLines clock 0 s
  | .error _ => ⟨[], s⟩

/-! ## Which lines are captured -/

/-- What the log is to hold of a line: an entry with a time and, if the line is a text, the
text. -/
def IsEntry (line entry : Bytes) : Prop :=
  ∃ time text, entry = timestamped time text ∧ ((decode line).isSome = true → text = line)

/-- The output is read to its end, and the log has one entry for each line, in order. -/
def Complete (openLog : Except String Unit) (clock : Nat → Bytes) (s : Bytes) : Prop :=
  (captureOutput openLog clock s).unread = [] ∧
    List.Forall₂ IsEntry (byteLines s) (captureOutput openLog clock s).written

theorem toUTF8_of_decode {bytes : Bytes} {line : String} (h : decode bytes = some line) :
    line.toUTF8.data.toList = bytes := by
  unfold decode String.fromUTF8? at h
  split at h
  · cases h
    rfl
  · cases h

/-- The lines up to the first that is not UTF-8 are written; if there is none, all is read. -/
theorem captureLines_spec (clock : Nat → Bytes) (n : Nat) (s : Bytes) :
    ∃ front back, byteLines s = front ++ back ∧ (∀ line ∈ front, (decode line).isSome = true) ∧
      List.Forall₂ IsEntry front (captureLines clock n s).written ∧
      ((back = [] ∧ (captureLines clock n s).unread = []) ∨
        ∃ line ∈ back, (decode line).isSome = false) := by
  fun_induction captureLines clock n s with
  | case1 n s text rest h after ih =>
    obtain ⟨front, back, hlines, hfront, hentries, hend⟩ := ih
    rcases nextLine_cases s with ⟨-, hnone⟩ | ⟨line, rest', hline, hnext, -⟩
    · rw [hnone] at h
      cases h
    · have hrest : rest' = rest := congrArg Prod.snd (hnext.symm.trans h)
      obtain ⟨text', hdecode, htext⟩ := asLine_ok (congrArg Prod.fst (hnext.symm.trans h))
      cases htext
      rw [hrest, hlines] at hline
      have hentry : IsEntry line (timestamped (clock n) text.toUTF8.data.toList) :=
        ⟨clock n, _, rfl, fun _ => toUTF8_of_decode hdecode⟩
      refine ⟨line :: front, back, hline, fun l hl => ?_, .cons hentry hentries, hend⟩
      rcases List.mem_cons.1 hl with rfl | hl
      · rw [hdecode]
        rfl
      · exact hfront l hl
  | case2 n s answer rest hnot h =>
    rcases nextLine_cases s with ⟨hnil, hnone⟩ | ⟨line, rest', hline, hnext, -⟩
    · have hrest : rest = [] := congrArg Prod.snd (h.symm.trans hnone)
      exact ⟨[], [], hnil, fun l hl => absurd hl List.not_mem_nil, .nil, .inl ⟨rfl, hrest⟩⟩
    · have hanswer : answer = asLine line := congrArg Prod.fst (h.symm.trans hnext)
      have hmem : line ∈ byteLines s := by
        rw [hline]
        exact List.mem_cons_self
      refine ⟨[], byteLines s, rfl, fun l hl => absurd hl List.not_mem_nil, .nil,
        .inr ⟨line, hmem, ?_⟩⟩
      cases hdecode : decode line with
      | none => rfl
      | some text =>
        rw [asLine, hdecode] at hanswer
        exact absurd hanswer (hnot text)

/-- The output is captured in full exactly if each of its lines is UTF-8. -/
theorem complete_iff (clock : Nat → Bytes) (s : Bytes) :
    Complete (.ok ()) clock s ↔ ∀ line ∈ byteLines s, (decode line).isSome = true := by
  obtain ⟨front, back, hlines, hfront, hentries, hend⟩ := captureLines_spec clock 0 s
  constructor
  · rintro ⟨-, hall⟩
    -- as many entries as lines, so that none is left out
    have hback : back = [] := by
      have hcount := hall.length_eq
      rw [hlines, List.length_append] at hcount
      have hwritten : (captureOutput (.ok ()) clock s).written.length = front.length :=
        hentries.length_eq.symm
      exact List.length_eq_zero_iff.1 (by omega)
    rw [hlines, hback, List.append_nil]
    exact hfront
  · intro hall
    rcases hend with ⟨rfl, hunread⟩ | ⟨line, hline, hbad⟩
    · refine ⟨hunread, ?_⟩
      rw [hlines, List.append_nil]
      exact hentries
    · rw [hlines] at hall
      rw [hall line (List.mem_append_right _ hline)] at hbad
      cases hbad

theorem captureLines_line {clock : Nat → Bytes} {n : Nat} {s rest : Bytes} {line : String}
    (h : nextLine s = (.ok (some line), rest)) :
    captureLines clock n s = ⟨timestamped (clock n) line.toUTF8.data.toList ::
      (captureLines clock (n + 1) rest).written, (captureLines clock (n + 1) rest).unread⟩ := by
  rw [captureLines]
  split
  · rename_i hnext
    rw [h] at hnext
    cases hnext
    rfl
  · rename_i hnot hnext
    rw [h] at hnext
    cases hnext
    exact absurd rfl (hnot line)

theorem captureLines_error {clock : Nat → Bytes} {n : Nat} {s rest : Bytes} {e : String}
    (h : nextLine s = (.error e, rest)) : captureLines clock n s = ⟨[], rest⟩ := by
  rw [captureLines]
  split
  · rename_i hnext
    rw [h] at hnext
    cases hnext
  · rename_i hnext
    rw [h] at hnext
    cases hnext
    rfl

/-- A line, then a byte that starts no character, then a line. -/
def brokenOutput : Bytes := [115, 116, 97, 114, 116, 10, 255, 10, 100, 111, 110, 101, 10]

/-- The capture stops at the byte: the line after it is never read. -/
theorem capture_stops :
    captureOutput (.ok ()) (fun _ => []) brokenOutput =
        ⟨[timestamped [] [115, 116, 97, 114, 116]], [100, 111, 110, 101, 10]⟩ ∧
      ¬Complete (.ok ()) (fun _ => []) brokenOutput := by
  have hfirst : nextLine brokenOutput =
      (.ok (some "start"), [255, 10, 100, 111, 110, 101, 10]) := by rfl
  have hsecond : nextLine [255, 10, 100, 111, 110, 101, 10] =
      (.error invalidData, [100, 111, 110, 101, 10]) := by rfl
  have hrun : captureOutput (.ok ()) (fun _ => []) brokenOutput =
      ⟨[timestamped [] [115, 116, 97, 114, 116]], [100, 111, 110, 101, 10]⟩ := by
    unfold captureOutput
    dsimp only
    rw [captureLines_line hfirst, captureLines_error hsecond]
    rfl
  refine ⟨hrun, fun h => ?_⟩
  have hunread := h.1
  rw [hrun] at hunread
  cases hunread

end Process.Capture
