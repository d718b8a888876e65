import Mathlib.Tactic

set_option autoImplicit false

/-! # The places of a list

A place of a list is an element with what stands before and behind it. A property that each step of a fold
keeps under a condition holds at the end exactly if the condition holds at every place (`foldl_iff`).
-/

namespace Split

variable {α σ : Type}

/-- The places of a list: its head, or a place behind it. -/
theorem forall_cons {P : List α → α → Prop} (a : α) (l : List α) :
    (∀ pre x post, a :: l = pre ++ x :: post → P pre x) ↔
      P [] a ∧ ∀ pre x post, l = pre ++ x :: post → P (a :: pre) x := by
  constructor
  · intro h
    refine ⟨h [] a l rfl, fun pre x post hl => h (a :: pre) x post ?_⟩
    rw [hl, List.cons_append]
  · rintro ⟨hhead, hrest⟩ pre x post hl
    cases pre with
    | nil =>
        cases hl
        exact hhead
    | cons b pre =>
        cases hl
        exact hrest pre x post rfl

/-- A place with a property is the head, or stands behind it. -/
theorem exists_cons {P : List α → α → Prop} (a : α) (l : List α) :
    (∃ pre x post, a :: l = pre ++ x :: post ∧ P pre x) ↔
      P [] a ∨ ∃ pre x post, l = pre ++ x :: post ∧ P (a :: pre) x := by
  have h := not_congr (forall_cons (P := fun pre x => ¬ P pre x) a l)
  push Not at h
  rw [h]
  constructor
  · intro hn
    by_cases hp : P [] a
    · exact Or.inl hp
    · exact Or.inr (hn hp)
  · rintro (hp | hrest) hn
    · exact absurd hp hn
    · exact hrest

/-- A condition of each step is one of each place. -/
theorem foldl_iff {f : σ → α → σ} {Q : σ → Prop} {R : σ → α → Prop}
    (hstep : ∀ s x, Q (f s x) ↔ Q s ∧ R s x) (l : List α) (s : σ) :
    Q (l.foldl f s) ↔ Q s ∧ ∀ pre x post, l = pre ++ x :: post → R (pre.foldl f s) x := by
  induction l generalizing s with
  | nil => simp
  | cons a l ih =>
      rw [List.foldl_cons, ih, hstep, and_assoc, forall_cons (P := fun pre x => R (pre.foldl f s) x)]
      rfl

end Split
