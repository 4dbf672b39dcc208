import Mathlib.Data.List.Basic

/-!
# Programs that change a state and may fail

Rules for `EStateM ε σ α`: a program that fails keeps the changes it made before. `Respects`
is the frame rule: a program built from steps that all relate their first state to their
last by a reflexive and transitive relation is itself such a step, whether it fails or not.
-/

namespace Effect

variable {ε σ α β : Type}

/-- The state a program ends in, successful or not. -/
def final (x : EStateM ε σ α) (s : σ) : σ :=
  match x s with
  | .ok _ s' => s'
  | .error _ s' => s'

/-- The result of a program, without the state. -/
def result (x : EStateM ε σ α) (s : σ) : Except ε α :=
  match x s with
  | .ok a _ => .ok a
  | .error e _ => .error e

/-- Rust `map_err`. -/
def mapError (f : ε → ε) (x : EStateM ε σ α) : EStateM ε σ α := fun s =>
  match x s with
  | .ok a s' => .ok a s'
  | .error e s' => .error (f e) s'

/-- Rust `let _ = …`: the outcome is dropped, the effects stay. -/
def attempt (x : EStateM ε σ α) : EStateM ε σ Unit := fun s => .ok () (final x s)

/-- Rust `answer.map_err(f)?`, for an answer that needs no state. -/
def demand {δ : Type} (f : δ → ε) : Except δ α → EStateM ε σ α
  | .ok a => pure a
  | .error e => throw (f e)

/-- One program for each element, up to the first failure. -/
def forEach : List β → (β → EStateM ε σ Unit) → EStateM ε σ Unit
  | [], _ => pure ()
  | b :: bs, f => do
    f b
    forEach bs f

@[simp] theorem run_pure (a : α) (s : σ) : (pure a : EStateM ε σ α) s = .ok a s := rfl

@[simp] theorem run_throw (e : ε) (s : σ) : (throw e : EStateM ε σ α) s = .error e s := rfl

@[simp] theorem run_get (s : σ) : (get : EStateM ε σ σ) s = .ok s s := rfl

@[simp] theorem run_bind (x : EStateM ε σ α) (f : α → EStateM ε σ β) (s : σ) :
    (x >>= f) s = match x s with
      | .ok a s' => f a s'
      | .error e s' => .error e s' := rfl

theorem run_get_bind (f : σ → EStateM ε σ β) (s : σ) : (get >>= f) s = f s s := rfl

theorem final_bind (x : EStateM ε σ α) (f : α → EStateM ε σ β) (s : σ) :
    final (x >>= f) s = match x s with
      | .ok a s' => final (f a) s'
      | .error _ s' => s' := by
  unfold final
  rw [run_bind]
  cases x s <;> rfl

theorem final_get_bind (f : σ → EStateM ε σ β) (s : σ) : final (get >>= f) s = final (f s) s := rfl

@[simp] theorem run_ite (c : Prop) [Decidable c] (x y : EStateM ε σ α) (s : σ) :
    (if c then x else y) s = if c then x s else y s := by split <;> rfl

theorem bind_ok {x : EStateM ε σ α} {f : α → EStateM ε σ β} {s s'' : σ} {b : β}
    (h : (x >>= f) s = .ok b s'') : ∃ a s', x s = .ok a s' ∧ f a s' = .ok b s'' := by
  rw [run_bind] at h
  cases hx : x s with
  | ok a s' => rw [hx] at h; exact ⟨a, s', rfl, h⟩
  | error e s' => rw [hx] at h; cases h

theorem run_mapError (f : ε → ε) (x : EStateM ε σ α) (s : σ) :
    mapError f x s = match x s with
      | .ok a s' => .ok a s'
      | .error e s' => .error (f e) s' := rfl

theorem mapError_ok {f : ε → ε} {x : EStateM ε σ α} {s s' : σ} {a : α} :
    mapError f x s = .ok a s' ↔ x s = .ok a s' := by
  unfold mapError
  cases x s <;> simp

@[simp] theorem final_mapError (f : ε → ε) (x : EStateM ε σ α) (s : σ) :
    final (mapError f x) s = final x s := by
  unfold final mapError
  cases x s <;> rfl

theorem result_eq_ok {x : EStateM ε σ α} {s : σ} {a : α} (h : result x s = .ok a) :
    ∃ s', x s = .ok a s' := by
  unfold result at h
  cases hx : x s with
  | ok b s' => rw [hx] at h; cases h; exact ⟨s', rfl⟩
  | error e s' => rw [hx] at h; cases h

theorem result_of_ok {x : EStateM ε σ α} {s s' : σ} {a : α} (h : x s = .ok a s') :
    result x s = .ok a := by rw [result, h]

theorem final_of_ok {x : EStateM ε σ α} {s s' : σ} {a : α} (h : x s = .ok a s') :
    final x s = s' := by rw [final, h]

theorem final_of_error {x : EStateM ε σ α} {s s' : σ} {e : ε} (h : x s = .error e s') :
    final x s = s' := by rw [final, h]

/-- `P` holds of each element, in the state in which `forEach` comes to it. -/
def Each (P : β → σ → Prop) (f : β → EStateM ε σ Unit) : List β → σ → Prop
  | [], _ => True
  | b :: bs, s => P b s ∧ ∀ s', f b s = .ok () s' → Each P f bs s'

/-- What holds of each element wherever the steps before it may have led. -/
theorem each_of_forall {P : β → σ → Prop} {f : β → EStateM ε σ Unit} {I : σ → Prop}
    {bs : List β} {s : σ} (hs : I s)
    (hstep : ∀ b ∈ bs, ∀ s s', I s → f b s = .ok () s' → I s') (h : ∀ b ∈ bs, ∀ s, I s → P b s) :
    Each P f bs s := by
  induction bs generalizing s with
  | nil => trivial
  | cons b bs ih =>
    refine ⟨h b List.mem_cons_self s hs, fun s' hrun => ?_⟩
    refine ih (hstep b List.mem_cons_self s s' hs hrun) ?_ ?_
    · exact fun c hc => hstep c (List.mem_cons_of_mem b hc)
    · exact fun c hc => h c (List.mem_cons_of_mem b hc)

/-- Wherever the program starts, its first and last states are related. -/
def Respects (R : σ → σ → Prop) (x : EStateM ε σ α) : Prop := ∀ s, R s (final x s)

namespace Respects

variable {R : σ → σ → Prop} {x : EStateM ε σ α}

theorem of_ok (h : Respects R x) {s s' : σ} {a : α} (hx : x s = .ok a s') : R s s' :=
  final_of_ok hx ▸ h s

theorem of_error (h : Respects R x) {s s' : σ} {e : ε} (hx : x s = .error e s') : R s s' :=
  final_of_error hx ▸ h s

theorem pure (hr : ∀ s, R s s) (a : α) : Respects R (pure a : EStateM ε σ α) := hr

theorem throw (hr : ∀ s, R s s) (e : ε) : Respects R (throw e : EStateM ε σ α) := hr

theorem get (hr : ∀ s, R s s) : Respects R (get : EStateM ε σ σ) := hr

theorem bind (ht : ∀ s t u, R s t → R t u → R s u) {f : α → EStateM ε σ β}
    (hx : Respects R x) (hf : ∀ a, Respects R (f a)) : Respects R (x >>= f) := by
  intro s
  rw [final, run_bind]
  cases hs : x s with
  | ok a s' => exact ht _ _ _ (hx.of_ok hs) (hf a s')
  | error e s' => exact hx.of_error hs

theorem mapError {f : ε → ε} (hx : Respects R x) : Respects R (mapError f x) := by
  intro s
  have := hx s
  unfold final Effect.mapError at *
  cases hs : x s <;> simpa [hs] using this

theorem attempt (hx : Respects R x) : Respects R (attempt x) := hx

theorem demand {δ : Type} (hr : ∀ s, R s s) (f : δ → ε) (a : Except δ α) :
    Respects R (demand f a : EStateM ε σ α) := by
  cases a with
  | ok a => exact .pure hr a
  | error e => exact .throw hr (f e)

theorem ite {c : Prop} [Decidable c] {y : EStateM ε σ α} (hx : Respects R x)
    (hy : Respects R y) : Respects R (if c then x else y) := by
  split
  · exact hx
  · exact hy

/-- A check that throws, before the rest of a program. -/
theorem check (hr : ∀ s, R s s) (ht : ∀ s t u, R s t → R t u → R s u) {c : Prop} [Decidable c]
    {e : ε} {f : Unit → EStateM ε σ α} (hf : Respects R (f ())) :
    Respects R (if c then MonadExcept.throw e >>= f else f ()) := by
  split
  · exact .bind ht (.throw hr e) fun _ => hf
  · exact hf

theorem forEach (hr : ∀ s, R s s) (ht : ∀ s t u, R s t → R t u → R s u)
    {f : β → EStateM ε σ Unit} (bs : List β) (hf : ∀ b ∈ bs, Respects R (f b)) :
    Respects R (forEach bs f) := by
  induction bs with
  | nil => exact .pure hr ()
  | cons b bs ih =>
    refine .bind ht (hf b List.mem_cons_self) fun _ => ih fun c hc => hf c ?_
    exact List.mem_cons_of_mem _ hc

end Respects

theorem forEach_map {γ : Type} (g : γ → β) (f : β → EStateM ε σ Unit) (l : List γ) :
    forEach (l.map g) f = forEach l fun c => f (g c) := by
  induction l with
  | nil => rfl
  | cons c l ih => rw [List.map_cons, forEach, forEach, ih]

theorem forEach_append (f : β → EStateM ε σ Unit) (l l' : List β) :
    forEach (l ++ l') f = (do forEach l f; forEach l' f) := by
  induction l with
  | nil => rfl
  | cons b l ih => rw [List.cons_append, forEach, forEach, ih, bind_assoc]

theorem forEach_singleton (f : β → EStateM ε σ Unit) (b : β) : forEach [b] f = f b := by
  rw [forEach, forEach, bind_pure_unit]

theorem final_bind_pure (x : EStateM ε σ α) (b : β) (s : σ) :
    final (x >>= fun _ => pure b) s = final x s := by
  rw [final_bind, final]
  cases x s <;> rfl

/-- What a program goes on with, after its first part. -/
theorem final_after {R : σ → σ → Prop} (hr : ∀ s, R s s) {x : EStateM ε σ α}
    {f : α → EStateM ε σ β} {s : σ} (h : ∀ a s', x s = .ok a s' → R s' (final (f a) s')) :
    R (final x s) (final (x >>= f) s) := by
  rw [final_bind, final]
  cases hx : x s with
  | ok a s' => exact h a s' hx
  | error e s' => exact hr s'

/-- A loop that succeeds has run its body for each element; what came before and after it
respects what each step does. -/
theorem forEach_ok_mem {R : σ → σ → Prop} (hr : ∀ s, R s s) (ht : ∀ s t u, R s t → R t u → R s u)
    {f : β → EStateM ε σ Unit} {bs : List β} (hf : ∀ b ∈ bs, Respects R (f b)) {s s' : σ}
    (h : forEach bs f s = .ok () s') {b : β} (hb : b ∈ bs) :
    ∃ u u', R s u ∧ f b u = .ok () u' ∧ R u' s' := by
  induction bs generalizing s with
  | nil => cases hb
  | cons c bs ih =>
    have hrest : ∀ b ∈ bs, Respects R (f b) := fun b hb => hf b (List.mem_cons_of_mem c hb)
    obtain ⟨_, t, hc, htail⟩ := bind_ok h
    rcases List.mem_cons.1 hb with rfl | hb
    · exact ⟨s, t, hr s, hc, (Respects.forEach hr ht bs hrest).of_ok htail⟩
    · obtain ⟨u, u', hu, hrun, hu'⟩ := ih hrest htail hb
      exact ⟨u, u', ht _ _ _ ((hf c List.mem_cons_self).of_ok hc) hu, hrun, hu'⟩

/-- Two loops whose bodies agree wherever the invariant of the first holds. -/
theorem forEach_congr {I : σ → Prop} {f g : β → EStateM ε σ Unit} {bs : List β} {s : σ} (hs : I s)
    (hstep : ∀ b ∈ bs, ∀ s s', I s → f b s = .ok () s' → I s')
    (h : ∀ b ∈ bs, ∀ s, I s → f b s = g b s) : forEach bs f s = forEach bs g s := by
  induction bs generalizing s with
  | nil => rfl
  | cons b bs ih =>
    have hhead := h b List.mem_cons_self s hs
    simp only [forEach, run_bind]
    rw [← hhead]
    cases hrun : f b s with
    | error e s' => rfl
    | ok u s' =>
      refine ih (hstep b List.mem_cons_self s s' hs hrun) ?_ ?_
      · exact fun c hc => hstep c (List.mem_cons_of_mem b hc)
      · exact fun c hc => h c (List.mem_cons_of_mem b hc)

end Effect
