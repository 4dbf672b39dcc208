import Mathlib.Data.List.Basic

/-!
# Deterministic machines and their runs

A `Machine` takes an input in a state to the next state and an answer. Whatever a real
system leaves open (the outcome of a call to the operating system, the order of requests)
is part of the input, so that a property "for every run" is one about every list of inputs.

`Along Q` says that every input of a run meets `Q` in the state it is given in. It states
both the condition on a run (the caller's promise) and what is proved of it, and the rules
below turn a one-step argument into a fact about whole runs.
-/

structure Machine (σ ι ο : Type) where
  step : σ → ι → σ × ο

namespace Machine

variable {σ ι ο : Type} (m : Machine σ ι ο)

/-- The state after one input. -/
def next (s : σ) (i : ι) : σ := (m.step s i).1

/-- The answer to one input. -/
def answer (s : σ) (i : ι) : ο := (m.step s i).2

/-- The state after a list of inputs. -/
def run (s : σ) : List ι → σ
  | [] => s
  | i :: is => run (m.next s i) is

/-- The answers to a list of inputs. -/
def answers (s : σ) : List ι → List ο
  | [] => []
  | i :: is => m.answer s i :: answers (m.next s i) is

/-- Every input of the list meets `Q` in the state in which the run reaches it. -/
def Along (Q : σ → ι → Prop) : σ → List ι → Prop
  | _, [] => True
  | s, i :: is => Q s i ∧ Along Q (m.next s i) is

/-- Every state visited by the run, the first one included, satisfies `P`. -/
def Throughout (P : σ → Prop) : σ → List ι → Prop
  | s, [] => P s
  | s, i :: is => P s ∧ Throughout P (m.next s i) is

instance decidableAlong (Q : σ → ι → Prop) [∀ s i, Decidable (Q s i)] :
    ∀ s is, Decidable (m.Along Q s is)
  | _, [] => inferInstanceAs (Decidable True)
  | s, i :: is =>
    have := decidableAlong Q (m.next s i) is
    inferInstanceAs (Decidable (Q s i ∧ m.Along Q (m.next s i) is))

/-- `t` is the end of some run from `s`. -/
def Reaches (s t : σ) : Prop := ∃ is, m.run s is = t

variable {m} {s : σ} {is : List ι}

@[simp] theorem run_nil : m.run s [] = s := rfl

@[simp] theorem run_cons (i : ι) : m.run s (i :: is) = m.run (m.next s i) is := rfl

theorem run_append (front back : List ι) : m.run s (front ++ back) = m.run (m.run s front) back := by
  induction front generalizing s with
  | nil => rfl
  | cons i front ih => exact ih

@[simp] theorem answers_cons (i : ι) :
    m.answers s (i :: is) = m.answer s i :: m.answers (m.next s i) is := rfl

@[simp] theorem along_cons {Q : σ → ι → Prop} (i : ι) :
    m.Along Q s (i :: is) ↔ Q s i ∧ m.Along Q (m.next s i) is := Iff.rfl

theorem Along.mono {Q R : σ → ι → Prop} (h : m.Along Q s is) (hqr : ∀ s i, Q s i → R s i) :
    m.Along R s is := by
  induction is generalizing s with
  | nil => trivial
  | cons i is ih => exact ⟨hqr _ _ h.1, ih h.2⟩

theorem Along.and {Q R : σ → ι → Prop} (hq : m.Along Q s is) (hr : m.Along R s is) :
    m.Along (fun s i => Q s i ∧ R s i) s is := by
  induction is generalizing s with
  | nil => trivial
  | cons i is ih => exact ⟨⟨hq.1, hr.1⟩, ih hq.2 hr.2⟩

theorem along_and {Q R : σ → ι → Prop} :
    m.Along (fun s i => Q s i ∧ R s i) s is ↔ m.Along Q s is ∧ m.Along R s is :=
  ⟨fun h => ⟨h.mono fun _ _ => And.left, h.mono fun _ _ => And.right⟩, fun h => h.1.and h.2⟩

theorem along_append {Q : σ → ι → Prop} (front back : List ι) :
    m.Along Q s (front ++ back) ↔ m.Along Q s front ∧ m.Along Q (m.run s front) back := by
  induction front generalizing s with
  | nil => exact (iff_of_eq (true_and _)).symm
  | cons i front ih => exact (and_congr_right fun _ => ih).trans and_assoc.symm

/-- A condition that does not depend on the step, as one on the run. -/
theorem along_const (p : Prop) : m.Along (fun _ _ => p) s is ↔ is = [] ∨ p := by
  induction is generalizing s with
  | nil => simp [Along]
  | cons i is ih =>
    rw [along_cons, ih]
    simpa using fun h : p => Or.inr h

theorem Throughout.start {P : σ → Prop} (h : m.Throughout P s is) : P s := by
  cases is with
  | nil => exact h
  | cons i is => exact h.1

theorem Throughout.mono {P P' : σ → Prop} (h : m.Throughout P s is) (hp : ∀ s, P s → P' s) :
    m.Throughout P' s is := by
  induction is generalizing s with
  | nil => exact hp _ h
  | cons i is ih => exact ⟨hp _ h.1, ih h.2⟩

theorem Throughout.end {P : σ → Prop} (h : m.Throughout P s is) : P (m.run s is) := by
  induction is generalizing s with
  | nil => exact h
  | cons i is ih => exact ih h.2

/-- A property that, once lost, is not regained, holds throughout if it holds at the end. -/
theorem throughout_of_end {P : σ → Prop} (back : ∀ s i, P (m.next s i) → P s)
    (h : P (m.run s is)) : m.Throughout P s is := by
  induction is generalizing s with
  | nil => exact h
  | cons i is ih => exact ⟨back s i (ih h).start, ih h⟩

/-- The invariant rule: what holds first and survives every input that meets `Q` holds in
every state of a run whose inputs all meet `Q`. -/
theorem throughout_of_invariant {P : σ → Prop} {Q : σ → ι → Prop}
    (step : ∀ s i, P s → Q s i → P (m.next s i)) (start : P s) (h : m.Along Q s is) :
    m.Throughout P s is := by
  induction is generalizing s with
  | nil => exact start
  | cons i is ih => exact ⟨start, ih (step s i start h.1) h.2⟩

/-- The invariant rule for the end of a run. -/
theorem run_invariant {P : σ → Prop} {Q : σ → ι → Prop}
    (step : ∀ s i, P s → Q s i → P (m.next s i)) (start : P s) (h : m.Along Q s is) :
    P (m.run s is) :=
  (throughout_of_invariant step start h).end

/-- What an invariant gives of each single step holds along the run. -/
theorem along_of_invariant {P : σ → Prop} {Q R : σ → ι → Prop}
    (step : ∀ s i, P s → Q s i → P (m.next s i)) (give : ∀ s i, P s → Q s i → R s i)
    (start : P s) (h : m.Along Q s is) : m.Along R s is := by
  induction is generalizing s with
  | nil => trivial
  | cons i is ih => exact ⟨give s i start h.1, ih (step s i start h.1) h.2⟩

/-- Along a run whose inputs all meet `H`, two step properties that agree under an invariant
agree, as long as the first of them keeps the invariant. -/
theorem along_congr_of_invariant {P : σ → Prop} {H Q R : σ → ι → Prop}
    (iff : ∀ s i, P s → H s i → (Q s i ↔ R s i))
    (step : ∀ s i, P s → H s i → Q s i → P (m.next s i))
    (start : P s) (h : m.Along H s is) : m.Along Q s is ↔ m.Along R s is := by
  induction is generalizing s with
  | nil => exact Iff.rfl
  | cons i is ih =>
    constructor
    · intro hq
      exact ⟨(iff s i start h.1).1 hq.1, (ih (step s i start h.1 hq.1) h.2).1 hq.2⟩
    · intro hr
      have hq := (iff s i start h.1).2 hr.1
      exact ⟨hq, (ih (step s i start h.1 hq) h.2).2 hr.2⟩

theorem along_true : m.Along (fun _ _ => True) s is := by
  induction is generalizing s with
  | nil => trivial
  | cons i is ih => exact ⟨trivial, ih⟩

/-- Along a run whose inputs all meet `H`, a property of the states holds throughout exactly if
every input meets the condition under which its step keeps the property. The invariant may rest
on the property holding so far. -/
theorem throughout_iff_along {I P : σ → Prop} {H Q : σ → ι → Prop}
    (keep : ∀ s i, I s → H s i → P s → P (m.next s i) → I (m.next s i))
    (step : ∀ s i, I s → H s i → P s → (P (m.next s i) ↔ Q s i))
    (inv : I s) (start : P s) (h : m.Along H s is) : m.Throughout P s is ↔ m.Along Q s is := by
  induction is generalizing s with
  | nil => exact iff_of_true start trivial
  | cons i is ih =>
    have hstep := step s i inv h.1 start
    constructor
    · rintro ⟨-, hrest⟩
      exact ⟨hstep.1 hrest.start, (ih (keep s i inv h.1 start hrest.start) hrest.start h.2).1 hrest⟩
    · rintro ⟨hi, hrest⟩
      have hnext := hstep.2 hi
      exact ⟨start, (ih (keep s i inv h.1 start hnext) hnext h.2).2 hrest⟩

end Machine
