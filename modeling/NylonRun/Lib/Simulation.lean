import NylonRun.Lib.Machine

/-!
# One machine that simulates another

A machine with more detail is seen as one with less: a view forgets the detail of a state, and
every input of the one has a trace of inputs of the other, which may be empty. What holds along
the runs of the simpler machine then holds of the views along those of the other.
-/

namespace Machine

variable {σ ι ο τ κ π : Type} (m : Machine σ ι ο) (n : Machine τ κ π)

/-- The traces of the inputs of a run, one after the other. -/
def traces (trace : σ → ι → List κ) : σ → List ι → List κ
  | _, [] => []
  | s, i :: is => trace s i ++ traces trace (m.next s i) is

/-- A step of `m`, seen from outside, is the run of its trace in `n`. -/
def Simulates (view : σ → τ) (trace : σ → ι → List κ) : Prop :=
  ∀ s i, view (m.next s i) = n.run (view s) (trace s i)

variable {m n} {view : σ → τ} {trace : σ → ι → List κ} {s : σ} {is : List ι}

/-- So is a run. -/
theorem Simulates.run (h : m.Simulates n view trace) :
    view (m.run s is) = n.run (view s) (m.traces trace s is) := by
  induction is generalizing s with
  | nil => rfl
  | cons i is ih =>
    rw [traces, run_append, ← h s i]
    exact ih

/-- An input of the traces is in the trace of one input of the run. -/
theorem mem_traces {k : κ} (h : k ∈ m.traces trace s is) :
    ∃ front i back, is = front ++ i :: back ∧ k ∈ trace (m.run s front) i := by
  induction is generalizing s with
  | nil => cases h
  | cons i is ih =>
    rcases List.mem_append.1 h with hhere | hlater
    · exact ⟨[], i, is, rfl, hhere⟩
    · obtain ⟨front, j, back, rfl, hmem⟩ := ih hlater
      exact ⟨i :: front, j, back, rfl, hmem⟩

end Machine
