import NylonRun.Lib.Machine

/-!
# What an observer sees of a run

An observer sees some of the inputs of a machine, and the answers to these. Two runs that
differ in nothing but the other inputs are the same to it if there is an unwinding: a relation
of states that the other inputs keep, and that a seen input keeps with the same answer.

`H` is what is known of every input of the runs.
-/

namespace Machine

variable {σ ι ο : Type} (m : Machine σ ι ο) (seen : ι → Prop) [DecidablePred seen]

/-- The answers to the seen inputs of a run, in their order. -/
def observed : σ → List ι → List ο
  | _, [] => []
  | s, i :: is =>
    if seen i then m.answer s i :: observed (m.next s i) is
    else observed (m.next s i) is

/-- A relation between the states of a run and those of the run without the inputs that are
not seen. -/
structure Unwinding (H : ι → Prop) (E : σ → σ → Prop) : Prop where
  answer : ∀ s t i, E s t → seen i → H i → m.answer s i = m.answer t i
  both : ∀ s t i, E s t → seen i → H i → E (m.next s i) (m.next t i)
  left : ∀ s t i, E s t → ¬seen i → H i → E (m.next s i) t

variable {m seen} {H : ι → Prop} {E : σ → σ → Prop}

/-- The inputs that are not seen may be left out of a run. -/
theorem Unwinding.observed_filter (h : Unwinding m seen H E) {s t : σ} (hst : E s t) {is : List ι}
    (his : ∀ i ∈ is, H i) : m.observed seen s is = m.observed seen t (is.filter seen) := by
  induction is generalizing s t with
  | nil => rfl
  | cons i is ih =>
    have hi := his i List.mem_cons_self
    have hrest : ∀ j ∈ is, H j := fun j hj => his j (List.mem_cons_of_mem i hj)
    by_cases hseen : seen i
    · have hfilter : (i :: is).filter seen = i :: is.filter seen := by simp [hseen]
      rw [hfilter]
      simp only [observed, if_pos hseen]
      rw [h.answer s t i hst hseen hi, ih (h.both s t i hst hseen hi) hrest]
    · have hfilter : (i :: is).filter seen = is.filter seen := by simp [hseen]
      rw [hfilter]
      simp only [observed, if_neg hseen]
      exact ih (h.left s t i hst hseen hi) hrest

/-- Two runs with the same seen inputs are the same to the observer. -/
theorem Unwinding.observed_eq (h : Unwinding m seen H E) {s : σ} (hs : E s s) {is js : List ι}
    (his : ∀ i ∈ is, H i) (hjs : ∀ j ∈ js, H j) (hsame : is.filter seen = js.filter seen) :
    m.observed seen s is = m.observed seen s js := by
  rw [h.observed_filter hs his, h.observed_filter hs hjs, hsame]

end Machine
