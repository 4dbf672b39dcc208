import NylonRun.Lib.Inodes
import NylonRun.Lib.Machine

/-!
# Logs and their rotation

`capture_output` opens the log of a stream once and writes every line of the child to it;
`rotate_logs` renames a log that has grown too large and makes a new file under its name. The
lines that come after go where the open file is.
-/

namespace Process

inductive Stream where
  | stdout
  | stderr
  deriving DecidableEq

/-- A log of a stream: the current one has the number 0 and no suffix, the others are rotated,
`stdout.log.1` the last of them. -/
structure LogName where
  stream : Stream
  rotation : Nat
  deriving DecidableEq

/-- The name that lines are to be read under. -/
def LogName.current (stream : Stream) : LogName := ⟨stream, 0⟩

def logMaxSize : Nat := 10 * 1024 * 1024

def logMaxRotated : Nat := 5

/-- `rotate_log_file` (src/process.rs:605-625). -/
def rotateLogFile (v : Volume LogName) (stream : Stream) : Volume LogName :=
  let v := v.remove ⟨stream, logMaxRotated⟩
  let v := (List.range' 1 (logMaxRotated - 1)).reverse.foldl
    (fun v i => v.rename ⟨stream, i⟩ ⟨stream, i + 1⟩) v
  let v := v.rename ⟨stream, 0⟩ ⟨stream, 1⟩
  v.create ⟨stream, 0⟩

/-- The current log of a stream has grown too large. -/
def oversize (v : Volume LogName) (stream : Stream) : Bool :=
  (v.read (.current stream)).any fun content => logMaxSize < content.length

/-- The check of one log. -/
def rotateLog (v : Volume LogName) (stream : Stream) : Volume LogName :=
  if oversize v stream then rotateLogFile v stream else v

/-- `rotate_logs` (src/process.rs:507-519), of one app. -/
def rotateLogs (v : Volume LogName) : Volume LogName := [Stream.stdout, .stderr].foldl rotateLog v

/-- A captured line as it is written: the time in brackets, a space, the line and its end
(src/process.rs:657). -/
def timestamped (time line : List UInt8) : List UInt8 := [91] ++ time ++ [93, 32] ++ line ++ [10]

/-! ## What a rotation changes -/

section

variable {v : Volume LogName} {stream : Stream} {n : LogName}

theorem shift_same (l : List Nat) (v : Volume LogName) (stream : Stream) :
    (l.foldl (fun v i => v.rename ⟨stream, i⟩ ⟨stream, i + 1⟩) v).content = v.content ∧
      (l.foldl (fun v i => v.rename ⟨stream, i⟩ ⟨stream, i + 1⟩) v).fresh = v.fresh := by
  induction l generalizing v with
  | nil => exact ⟨rfl, rfl⟩
  | cons i l ih => exact ih (v.rename ⟨stream, i⟩ ⟨stream, i + 1⟩)

theorem shift_other (h : n.stream ≠ stream) (l : List Nat) (v : Volume LogName) :
    (l.foldl (fun v i => v.rename ⟨stream, i⟩ ⟨stream, i + 1⟩) v).inode n = v.inode n := by
  induction l generalizing v with
  | nil => rfl
  | cons i l ih =>
    have hne : ∀ i, n ≠ ⟨stream, i⟩ := by
      rintro i rfl
      exact h rfl
    rw [List.foldl_cons, ih, Volume.inode_rename_of_ne (hne i) (hne (i + 1))]

/-- The logs of the other stream stay as they are. -/
theorem rotateLogFile_other (h : n.stream ≠ stream) :
    (rotateLogFile v stream).inode n = v.inode n ∧ (rotateLogFile v stream).read n = v.read n := by
  have hne : ∀ i, n ≠ ⟨stream, i⟩ := by
    rintro i rfl
    exact h rfl
  unfold rotateLogFile
  dsimp only
  generalize hshift : (List.range' 1 (logMaxRotated - 1)).reverse.foldl
    (fun v i => v.rename ⟨stream, i⟩ ⟨stream, i + 1⟩) (v.remove ⟨stream, logMaxRotated⟩) = v'
  have hinode : (v'.rename ⟨stream, 0⟩ ⟨stream, 1⟩).inode n = v.inode n := by
    rw [Volume.inode_rename_of_ne (hne 0) (hne 1), ← hshift, shift_other h,
      Volume.inode_remove_of_ne (hne logMaxRotated)]
  have hcontent : (v'.rename ⟨stream, 0⟩ ⟨stream, 1⟩).content = v.content := by
    rw [← hshift]
    exact (shift_same _ _ stream).1
  refine ⟨by rw [Volume.inode_create_of_ne (hne 0), hinode], ?_⟩
  rw [Volume.read_create_of_ne (hne 0), Volume.read, Volume.read, hinode, hcontent]

/-- The current log is a new file, and empty. -/
theorem rotateLogFile_current :
    (rotateLogFile v stream).inode (.current stream) = some v.fresh ∧
      (rotateLogFile v stream).read (.current stream) = some [] ∧
        (rotateLogFile v stream).fresh = v.fresh + 1 := by
  unfold rotateLogFile LogName.current
  dsimp only
  generalize hshift : (List.range' 1 (logMaxRotated - 1)).reverse.foldl
    (fun v i => v.rename ⟨stream, i⟩ ⟨stream, i + 1⟩) (v.remove ⟨stream, logMaxRotated⟩) = v'
  have hfresh : (v'.rename ⟨stream, 0⟩ ⟨stream, 1⟩).fresh = v.fresh := by
    rw [← hshift]
    exact (shift_same _ _ stream).2
  have hfree : (v'.rename ⟨stream, 0⟩ ⟨stream, 1⟩).inode ⟨stream, 0⟩ = none :=
    Volume.inode_rename_old (by simp)
  obtain ⟨hinode, -, hnext⟩ := Volume.create_of_none hfree
  refine ⟨?_, Volume.read_create_self, by rw [hnext, hfresh]⟩
  rw [hinode, Function.update_self, hfresh]

theorem oversize_congr {v' : Volume LogName}
    (h : v'.read (.current stream) = v.read (.current stream)) :
    oversize v' stream = oversize v stream := by
  unfold oversize
  rw [h]

theorem rotateLog_other (h : n.stream ≠ stream) :
    (rotateLog v stream).inode n = v.inode n ∧ (rotateLog v stream).read n = v.read n := by
  unfold rotateLog
  split
  · exact rotateLogFile_other h
  · exact ⟨rfl, rfl⟩

theorem fresh_le_rotateLog (v : Volume LogName) (stream : Stream) :
    v.fresh ≤ (rotateLog v stream).fresh := by
  unfold rotateLog
  split
  · rw [rotateLogFile_current.2.2]
    exact Nat.le_succ _
  · exact Nat.le_refl _

/-- What a check leaves as the current log: a new file where it was too large. -/
structure Checked (v v' : Volume LogName) (stream : Stream) : Prop where
  rotated : oversize v stream = true → ∃ i, v.fresh ≤ i ∧ v'.inode (.current stream) = some i
  kept : oversize v stream = false → v'.inode (.current stream) = v.inode (.current stream)
  small : oversize v' stream = false

theorem checked_rotateLog (v : Volume LogName) (stream : Stream) :
    Checked v (rotateLog v stream) stream := by
  unfold rotateLog
  cases hsize : oversize v stream with
  | false => exact ⟨fun h => absurd (hsize.symm.trans h) Bool.false_ne_true, fun _ => rfl, hsize⟩
  | true =>
    rw [if_pos rfl]
    have hnew : (rotateLogFile v stream).inode (.current stream) = some v.fresh ∧
        (rotateLogFile v stream).read (.current stream) = some [] ∧ _ := rotateLogFile_current
    obtain ⟨hinode, hread, -⟩ := hnew
    refine ⟨fun _ => ⟨v.fresh, Nat.le_refl _, hinode⟩, fun h => ?_, ?_⟩
    · exact absurd (h.symm.trans hsize) Bool.false_ne_true
    unfold oversize
    rw [hread]
    rfl

/-- A check of all logs is one of each. -/
theorem checked_rotateLogs (v : Volume LogName) (stream : Stream) :
    Checked v (rotateLogs v) stream := by
  have hrun : rotateLogs v = rotateLog (rotateLog v .stdout) .stderr := rfl
  rw [hrun]
  cases stream with
  | stdout =>
    have hother : ∀ v', (rotateLog v' .stderr).inode (.current .stdout) = v'.inode (.current .stdout) ∧
        (rotateLog v' .stderr).read (.current .stdout) = v'.read (.current .stdout) :=
      fun v' => rotateLog_other (by decide)
    obtain ⟨hrotated, hkept, hsmall⟩ := checked_rotateLog v .stdout
    obtain ⟨hinode, hread⟩ := hother (rotateLog v .stdout)
    refine ⟨fun h => ?_, fun h => hinode.trans (hkept h), (oversize_congr hread).trans hsmall⟩
    rw [hinode]
    exact hrotated h
  | stderr =>
    have hother : (rotateLog v .stdout).inode (.current .stderr) = v.inode (.current .stderr) ∧
        (rotateLog v .stdout).read (.current .stderr) = v.read (.current .stderr) :=
      rotateLog_other (by decide)
    obtain ⟨hinode, hread⟩ := hother
    obtain ⟨hrotated, hkept, hsmall⟩ := checked_rotateLog (rotateLog v .stdout) .stderr
    rw [oversize_congr hread] at hrotated hkept
    refine ⟨fun h => ?_, fun h => (hkept h).trans hinode, hsmall⟩
    obtain ⟨i, hi, hnew⟩ := hrotated h
    exact ⟨i, Nat.le_trans (fresh_le_rotateLog v .stdout) hi, hnew⟩

theorem fresh_le_rotateLogs (v : Volume LogName) : v.fresh ≤ (rotateLogs v).fresh :=
  Nat.le_trans (fresh_le_rotateLog v .stdout) (fresh_le_rotateLog _ .stderr)

end

/-! ## The lines of a child -/

/-- The logs of an app, with the files that its running child's lines go to. That a check has
rotated a log is history. -/
structure Logs where
  volume : Volume LogName
  handle : Stream → Nat
  rotated : Stream → Bool

inductive LogEvent where
  | line (stream : Stream) (time text : List UInt8)
  | check

namespace Logs

/-- The logs opened for a child that has just started (src/process.rs:253-260, 642-646). -/
def opened (v : Volume LogName) : Logs :=
  let (out, v) := v.openAppend (.current .stdout)
  let (err, v) := v.openAppend (.current .stderr)
  { volume := v
    handle := fun
      | .stdout => out
      | .stderr => err
    rotated := fun _ => false }

def step (s : Logs) : LogEvent → Logs × Unit
  | .line stream time text =>
    ({ s with volume := s.volume.append (s.handle stream) (timestamped time text) }, ())
  | .check =>
    ({ s with
      volume := rotateLogs s.volume
      rotated := fun stream => s.rotated stream || oversize s.volume stream }, ())

def machine : Machine Logs LogEvent Unit := ⟨step⟩

/-- A line is added to what is read under the current name of its stream, where `get_logs` reads,
and no other log grows; a check leaves no current log too large. -/
def Lands (s : Logs) : LogEvent → Prop
  | .line stream time text => ∀ name, (machine.next s (.line stream time text)).volume.read name =
      if name = .current stream then
        some ((s.volume.read name).getD [] ++ timestamped time text)
      else s.volume.read name
  | .check => ∀ stream, oversize (machine.next s .check).volume stream = false

/-- A line comes only where no check before it has found the log of its stream too large. -/
def Fits (s : Logs) : LogEvent → Prop
  | .line stream _ _ => s.rotated stream = false
  | .check => True

/-- The open file of a stream is its current log until a check rotates it, and never after. -/
structure Kept (s : Logs) : Prop where
  known : ∀ stream, s.handle stream < s.volume.fresh
  current : ∀ stream, s.rotated stream = false →
    s.volume.inode (.current stream) = some (s.handle stream)
  moved : ∀ stream, s.rotated stream = true →
    s.volume.inode (.current stream) ≠ some (s.handle stream)

theorem kept_opened (v : Volume LogName) : (opened v).Kept := by
  have hout : (opened v).volume.inode (.current .stdout) = some ((opened v).handle .stdout) := by
    have hother : LogName.current .stdout ≠ .current .stderr := by decide
    exact (Volume.inode_openAppend_of_ne hother).trans Volume.inode_openAppend
  have herr : (opened v).volume.inode (.current .stderr) = some ((opened v).handle .stderr) :=
    Volume.inode_openAppend
  have hcurrent : ∀ stream, (opened v).volume.inode (.current stream) =
      some ((opened v).handle stream) := by
    intro stream
    cases stream with
    | stdout => exact hout
    | stderr => exact herr
  exact ⟨fun stream => (opened v).volume.bound (hcurrent stream), fun stream _ => hcurrent stream,
    fun _ h => nomatch h⟩

theorem kept_step {s : Logs} (h : s.Kept) (e : LogEvent) : (machine.next s e).Kept := by
  cases e with
  | line stream time text => exact ⟨h.known, h.current, h.moved⟩
  | check =>
    have hchecked := checked_rotateLogs s.volume
    have hnext : machine.next s .check = { s with
        volume := rotateLogs s.volume
        rotated := fun stream => s.rotated stream || oversize s.volume stream } := rfl
    rw [hnext]
    refine ⟨fun stream => Nat.lt_of_lt_of_le (h.known stream) (fresh_le_rotateLogs s.volume),
      fun stream hnot => ?_, fun stream hrotated => ?_⟩
    · obtain ⟨hrotated, hsize⟩ := Bool.or_eq_false_iff.1 hnot
      exact ((hchecked stream).kept hsize).trans (h.current stream hrotated)
    · dsimp only at hrotated ⊢
      cases hsize : oversize s.volume stream with
      | true =>
        obtain ⟨i, hi, hnew⟩ := (hchecked stream).rotated hsize
        rw [hnew]
        intro heq
        have hknown := h.known stream
        rw [← Option.some.inj heq] at hknown
        exact absurd hi (Nat.not_le.2 hknown)
      | false =>
        rw [hsize, Bool.or_false] at hrotated
        rw [(hchecked stream).kept hsize]
        exact h.moved stream hrotated

theorem lands_iff {s : Logs} (h : s.Kept) (e : LogEvent) : s.Lands e ↔ s.Fits e := by
  cases e with
  | check => exact iff_of_true (fun stream => (checked_rotateLogs s.volume stream).small) trivial
  | line stream time text =>
    have hread : ∀ name, (machine.next s (.line stream time text)).volume.read name =
        if s.volume.inode name = some (s.handle stream) then
          some (s.volume.content (s.handle stream) ++ timestamped time text)
        else s.volume.read name :=
      fun name => Volume.read_append s.volume (s.handle stream) (timestamped time text) name
    change (∀ name, _) ↔ s.rotated stream = false
    cases hrotated : s.rotated stream with
    | false =>
      have hcurrent := h.current stream hrotated
      refine iff_of_true (fun name => ?_) rfl
      rw [hread]
      by_cases hname : name = .current stream
      · subst hname
        rw [if_pos hcurrent, if_pos rfl, Volume.read, hcurrent]
        rfl
      · have hother : s.volume.inode name ≠ some (s.handle stream) := fun heq =>
          hname (s.volume.distinct heq hcurrent)
        rw [if_neg hother, if_neg hname]
    | true =>
      refine iff_of_false (fun hlands => ?_) (by decide)
      have hline := hlands (.current stream)
      rw [hread, if_neg (h.moved stream hrotated), if_pos rfl] at hline
      -- what is read is as before, and a line is not empty
      cases hold : s.volume.read (.current stream) with
      | none =>
        rw [hold] at hline
        cases hline
      | some content =>
        rw [hold] at hline
        have hlength := congrArg List.length (Option.some.inj hline)
        simp [timestamped] at hlength

/-- However lines and checks follow each other, every line lands in the current log of its stream
exactly if no check before a line has found the log of its stream too large. -/
theorem lands_along_iff (v : Volume LogName) (events : List LogEvent) :
    machine.Along Lands (opened v) events ↔ machine.Along Fits (opened v) events :=
  Machine.along_congr_of_invariant (fun _ e h _ => lands_iff h e)
    (fun _ e h _ _ => kept_step h e) (kept_opened v) Machine.along_true

/-- A volume on which an app has left a log of its standard output. -/
def left (content : List UInt8) : Volume LogName :=
  (Volume.empty.create (.current .stdout)).append 0 content

theorem read_left (content : List UInt8) :
    (left content).read (.current .stdout) = some content := by
  have hnone : Volume.empty.inode (LogName.current .stdout) = none := rfl
  obtain ⟨hinode, hcontent, -⟩ := Volume.create_of_none hnone
  have hzero : (Volume.empty : Volume LogName).fresh = 0 := rfl
  rw [left, Volume.read_append, hinode, hcontent, hzero, Function.update_self, if_pos rfl,
    Function.update_self]
  rfl

/-- The first line after a check of a log that is too large does not land. -/
theorem line_lost {content : List UInt8} (hlong : logMaxSize < content.length)
    (time text : List UInt8) :
    ¬machine.Along Lands (opened (left content)) [.check, .line .stdout time text] := by
  have hopened : (opened (left content)).volume =
      (((left content).openAppend (.current .stdout)).2.openAppend (.current .stderr)).2 := rfl
  have hread : (opened (left content)).volume.read (.current .stdout) = some content := by
    rw [hopened]
    exact Volume.read_openAppend (Volume.read_openAppend (read_left content))
  have hsize : oversize (opened (left content)).volume .stdout = true := by
    rw [oversize, hread]
    simpa using hlong
  rintro ⟨-, hline, -⟩
  have hfits := (lands_iff (kept_step (kept_opened _) .check) _).1 hline
  change (false || oversize (opened (left content)).volume .stdout) = false at hfits
  rw [hsize] at hfits
  cases hfits

theorem length_replicate_max : logMaxSize < (List.replicate (logMaxSize + 1) (0 : UInt8)).length := by
  rw [List.length_replicate]
  exact Nat.lt_succ_self _

/-- A child whose log has grown past ten megabytes: the line after the check is not in the log
that is read. -/
theorem line_lost_after_check :
    ¬machine.Along Lands (opened (left (List.replicate (logMaxSize + 1) 0)))
      [.check, .line .stdout [] [111, 107]] :=
  line_lost length_replicate_max [] [111, 107]

end Logs

end Process
