import NylonRun.Process.Logs

/-!
# The chain of rotated logs

`rotate_log_file` (src/process.rs:605-625) drops the oldest rotated log and moves every other one
up by one name, the highest number first, so that each finds its new name free.
-/

namespace Process

/-- The step of the loop: a log moved up by one name. -/
def shiftUp (stream : Stream) (v : Volume LogName) (i : Nat) : Volume LogName :=
  v.rename ⟨stream, i⟩ ⟨stream, i + 1⟩

section

variable {v : Volume LogName} {stream : Stream}

theorem read_shiftUp {i : Nat} (hfree : v.read ⟨stream, i + 1⟩ = none) (j : Nat) :
    (shiftUp stream v i).read ⟨stream, j⟩ =
      if j = i + 1 then v.read ⟨stream, i⟩ else if j = i then none else v.read ⟨stream, j⟩ := by
  unfold shiftUp
  rw [Volume.read_rename_to_free hfree]
  simp only [LogName.mk.injEq, true_and]

/-- The loop moves the first `n` logs up by one, if the name after them is free. -/
theorem read_shifts {n : Nat} (hfree : v.read ⟨stream, n + 1⟩ = none) (j : Nat) :
    ((List.range' 1 n).reverse.foldl (shiftUp stream) v).read ⟨stream, j⟩ =
      if j = 1 then none
      else if 1 < j ∧ j ≤ n + 1 then v.read ⟨stream, j - 1⟩
      else v.read ⟨stream, j⟩ := by
  induction n generalizing v with
  | zero =>
    by_cases hj : j = 1
    · rw [if_pos hj, hj]
      exact hfree
    · rw [if_neg hj, if_neg (by omega)]
      rfl
  | succ n ih =>
    have hshift := read_shiftUp hfree
    have hnext : (shiftUp stream v (n + 1)).read ⟨stream, n + 1⟩ = none := by
      rw [hshift, if_neg (by omega), if_pos rfl]
    have hrun : (List.range' 1 (n + 1)).reverse.foldl (shiftUp stream) v =
        (List.range' 1 n).reverse.foldl (shiftUp stream) (shiftUp stream v (n + 1)) := by
      rw [List.range'_1_concat, List.reverse_append, List.reverse_singleton, List.singleton_append,
        List.foldl_cons, Nat.add_comm 1 n]
    rw [hrun, ih hnext]
    by_cases hone : j = 1
    · rw [if_pos hone, if_pos hone]
    rw [if_neg hone, if_neg hone]
    by_cases hn : 1 < j ∧ j ≤ n + 1
    · rw [if_pos hn, if_pos (by omega), hshift, if_neg (by omega), if_neg (by omega)]
    rw [if_neg hn, hshift]
    by_cases hlast : j = n + 1 + 1
    · rw [if_pos hlast, if_pos (by omega), hlast, Nat.add_sub_cancel]
    · rw [if_neg hlast, if_neg (by omega), if_neg (by omega)]

/-- What a rotation leaves: an empty log, and the others under the next name. -/
theorem read_rotateLogFile (j : Nat) :
    (rotateLogFile v stream).read ⟨stream, j⟩ =
      if j = 0 then some []
      else if j ≤ logMaxRotated then v.read ⟨stream, j - 1⟩
      else v.read ⟨stream, j⟩ := by
  have hremove : ∀ i, (v.remove ⟨stream, logMaxRotated⟩).read ⟨stream, i⟩ =
      if i = logMaxRotated then none else v.read ⟨stream, i⟩ := by
    intro i
    rw [Volume.read_remove]
    simp only [LogName.mk.injEq, true_and]
  have hmax : logMaxRotated = 4 + 1 := rfl
  have hloop := @read_shifts (v.remove ⟨stream, logMaxRotated⟩) stream 4
    (by rw [hremove, if_pos hmax.symm])
  have hrun : rotateLogFile v stream = (shiftUp stream ((List.range' 1 4).reverse.foldl
      (shiftUp stream) (v.remove ⟨stream, logMaxRotated⟩)) 0).create ⟨stream, 0⟩ := rfl
  generalize (List.range' 1 4).reverse.foldl (shiftUp stream)
    (v.remove ⟨stream, logMaxRotated⟩) = v' at hrun hloop
  have hfirst := @read_shiftUp v' stream 0 (by rw [hloop, if_pos rfl])
  rw [hrun]
  by_cases hzero : j = 0
  · rw [if_pos hzero, hzero, Volume.read_create_self]
  rw [if_neg hzero, Volume.read_create_of_ne (by simpa using hzero), hfirst]
  by_cases hone : j = 1
  · rw [if_pos (by omega), if_pos (by omega), hloop, if_neg (by omega), if_neg (by omega), hremove,
      if_neg (by omega), hone]
  rw [if_neg (by omega), if_neg hzero, hloop, if_neg hone]
  by_cases hj : j ≤ logMaxRotated
  · rw [if_pos (by omega), if_pos hj, hremove, if_neg (by omega)]
  · rw [if_neg (by omega), if_neg hj, hremove, if_neg (by omega)]

end

/-- The log of a stream rotated once for each of the contents that it held then, from no rotated
log on. Whatever happens in between leaves the rotated logs as they are. -/
inductive Rotated (stream : Stream) : List (List UInt8) → Volume LogName → Prop
  | start {v : Volume LogName} : (∀ j, 0 < j → v.read ⟨stream, j⟩ = none) → Rotated stream [] v
  | rotate {contents : List (List UInt8)} {v v' : Volume LogName} {content : List UInt8} :
    Rotated stream contents v → (∀ j, 0 < j → v'.read ⟨stream, j⟩ = v.read ⟨stream, j⟩) →
    v'.read (.current stream) = some content →
    Rotated stream (contents ++ [content]) (rotateLogFile v' stream)

/-- The rotated logs hold the last contents, the newest first, as many of them as there are
names; no other log is there, and the current one is empty. -/
theorem rotated_read {stream : Stream} {contents : List (List UInt8)} {v : Volume LogName}
    (h : Rotated stream contents v) :
    (∀ j, 0 < j → v.read ⟨stream, j⟩ =
      if j ≤ min contents.length logMaxRotated then contents[contents.length - j]? else none) ∧
    (contents ≠ [] → v.read (.current stream) = some []) := by
  induction h with
  | start hnone =>
    refine ⟨fun j hj => ?_, fun hne => absurd rfl hne⟩
    rw [hnone j hj, List.length_nil, if_neg (by omega)]
  | @rotate contents v v' content hbefore hsame hcurrent ih =>
    refine ⟨fun j hj => ?_, fun _ => ?_⟩
    · rw [read_rotateLogFile, if_neg (by omega), List.length_append, List.length_singleton]
      by_cases hmax : j ≤ logMaxRotated
      · rw [if_pos hmax]
        by_cases hone : j = 1
        · have hlog : v'.read ⟨stream, 0⟩ = some content := hcurrent
          rw [hone, hlog, if_pos (by omega)]
          simp
        · rw [hsame _ (by omega), ih.1 _ (by omega)]
          by_cases hlen : j ≤ contents.length + 1
          · rw [if_pos (by omega), if_pos (by omega), List.getElem?_append_left (by omega)]
            congr 1
            omega
          · rw [if_neg (by omega), if_neg (by omega)]
      · rw [if_neg hmax, if_neg (by omega), hsame j hj, ih.1 j hj, if_neg (by omega)]
    · exact rotateLogFile_current.2.1

/-- Bytes written to the file of the current log are in no other. -/
theorem read_append_current {stream : Stream} {v : Volume LogName} {i : Nat}
    (h : v.inode (.current stream) = some i) (bytes : List UInt8) {j : Nat} (hj : 0 < j) :
    (v.append i bytes).read ⟨stream, j⟩ = v.read ⟨stream, j⟩ := by
  rw [Volume.read_append, if_neg]
  intro hother
  have hsame := v.distinct hother h
  rw [LogName.current, LogName.mk.injEq] at hsame
  omega

/-- Two rotations, the first of a log with an `a` and the second of one with a `b`. -/
theorem rotated_read_twice : ∃ v, Rotated .stdout [[97], [98]] v ∧
    v.read ⟨.stdout, 1⟩ = some [98] ∧ v.read ⟨.stdout, 2⟩ = some [97] ∧
    v.read ⟨.stdout, 3⟩ = none ∧ v.read (.current .stdout) = some [] := by
  have hnone : ∀ j, 0 < j → (Logs.left [97]).read ⟨.stdout, j⟩ = none := by
    intro j hj
    have hother : (⟨.stdout, j⟩ : LogName) ≠ .current .stdout := by
      rw [LogName.current, ne_eq, LogName.mk.injEq]
      omega
    rw [Logs.left, @read_append_current .stdout _ _ rfl [97] _ hj,
      Volume.read_create_of_ne hother]
    rfl
  have hfirst : Rotated .stdout ([] ++ [[97]]) (rotateLogFile (Logs.left [97]) .stdout) :=
    .rotate (.start hnone) (fun _ _ => rfl) (Logs.read_left [97])
  obtain ⟨hinode, hempty, -⟩ := @rotateLogFile_current (Logs.left [97]) .stdout
  generalize rotateLogFile (Logs.left [97]) .stdout = v at hfirst hinode hempty
  have hread : (v.append (Logs.left [97]).fresh [98]).read (.current .stdout) = some [98] := by
    rw [Volume.read, hinode, Option.map_some] at hempty
    rw [Volume.read_append, if_pos hinode, Option.some.inj hempty]
    rfl
  have hsecond := Rotated.rotate hfirst (fun j hj => read_append_current hinode [98] hj) hread
  refine ⟨_, hsecond, ?_, ?_, ?_, (rotated_read hsecond).2 (by simp)⟩
  · rw [(rotated_read hsecond).1 1 (by omega)]
    rfl
  · rw [(rotated_read hsecond).1 2 (by omega)]
    rfl
  · rw [(rotated_read hsecond).1 3 (by omega)]
    rfl

end Process
