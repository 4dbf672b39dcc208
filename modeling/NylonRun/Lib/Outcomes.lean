import Mathlib.Data.List.Forall2

/-!
# A list of outcomes

A list mapped by a function that can fail has the answers of its elements if all of them have
one, and the first error otherwise.
-/

namespace Outcomes

variable {α β ε : Type}

section

variable {f : α → Except ε β} {l : List α}

/-- A list of answers, each of them as its element gives it. -/
theorem mapM_eq_ok {out : List β} :
    l.mapM f = .ok out ↔ List.Forall₂ (fun a b => f a = .ok b) l out := by
  induction l generalizing out with
  | nil =>
    rw [List.mapM_nil, List.forall₂_nil_left_iff]
    exact ⟨fun h => by cases h; rfl, fun h => by rw [h]; rfl⟩
  | cons a l ih =>
    rw [List.mapM_cons, List.forall₂_cons_left_iff]
    constructor
    · intro h
      cases ha : f a with
      | error e => rw [ha] at h; cases h
      | ok b =>
        rw [ha] at h
        cases hl : l.mapM f with
        | error e => rw [hl] at h; cases h
        | ok bs => rw [hl] at h; cases h; exact ⟨b, bs, rfl, ih.1 hl, rfl⟩
    · rintro ⟨b, bs, ha, hl, rfl⟩
      rw [ha, ih.2 hl]
      rfl

theorem mapM_isOk_iff : (∃ out, l.mapM f = .ok out) ↔ ∀ a ∈ l, ∃ b, f a = .ok b := by
  simp only [mapM_eq_ok]
  induction l with
  | nil => exact iff_of_true ⟨[], .nil⟩ fun a h => absurd h List.not_mem_nil
  | cons a l ih =>
    rw [List.forall_mem_cons, ← ih]
    constructor
    · rintro ⟨out, h⟩
      obtain ⟨b, bs, ha, hl, rfl⟩ := List.forall₂_cons_left_iff.1 h
      exact ⟨⟨b, ha⟩, bs, hl⟩
    · rintro ⟨⟨b, ha⟩, bs, hl⟩
      exact ⟨b :: bs, .cons ha hl⟩

end

section

variable {R : α → β → Prop} {l : List α} {out : List β}

/-- Lists that are related element by element relate each element to one of the other. -/
theorem forall₂_left (h : List.Forall₂ R l out) : ∀ a ∈ l, ∃ b ∈ out, R a b := by
  induction h with
  | nil => exact fun a ha => absurd ha List.not_mem_nil
  | cons hab _ ih =>
    intro a ha
    rcases List.mem_cons.1 ha with rfl | ha
    · exact ⟨_, List.mem_cons_self, hab⟩
    · obtain ⟨b, hb, hr⟩ := ih a ha
      exact ⟨b, List.mem_cons_of_mem _ hb, hr⟩

theorem forall₂_right (h : List.Forall₂ R l out) : ∀ b ∈ out, ∃ a ∈ l, R a b :=
  forall₂_left (R := flip R) (List.Forall₂.flip h)

end

end Outcomes
