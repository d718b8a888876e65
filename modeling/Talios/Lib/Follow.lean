import Mathlib.Tactic

set_option autoImplicit false

/-! # Following links up to a mark

`Chain next mark c cs`: the elements from `c` on, each the successor of the one before, up to the one
whose successor is the mark. A chain is determined by its first element and has no element twice, so that
it is not longer than there are elements.

`loop` does something for each element and then goes on to its successor, until that is the mark. It has
a result exactly if there is a chain, and then the elements of the chain have been dealt with in their
order (`loop_eq_some`).
-/

namespace Follow

section

variable {α : Type} {next : α → α} {mark c x : α} {cs ds : List α}

inductive Chain (next : α → α) (mark : α) : α → List α → Prop
  | last {c : α} : next c = mark → Chain next mark c [c]
  | step {c : α} {cs : List α} : next c ≠ mark → Chain next mark (next c) cs → Chain next mark c (c :: cs)

theorem Chain.unique (h : Chain next mark c cs) (h' : Chain next mark c ds) : cs = ds := by
  induction h generalizing ds with
  | last hm =>
      cases h' with
      | last => rfl
      | step hn => exact absurd hm hn
  | step hn _ ih =>
      cases h' with
      | last hm => exact absurd hm hn
      | step _ h' => rw [ih h']

/-- The chain of an element of a chain is its rest from there on. -/
theorem Chain.suffix (h : Chain next mark c cs) (hx : x ∈ cs) :
    ∃ pre post, cs = pre ++ post ∧ Chain next mark x post := by
  induction h with
  | last hm =>
      obtain rfl := List.mem_singleton.mp hx
      exact ⟨[], _, rfl, .last hm⟩
  | @step c cs hn h ih =>
      rcases List.mem_cons.mp hx with rfl | hx
      · exact ⟨[], _, rfl, .step hn h⟩
      · obtain ⟨pre, post, rfl, hpost⟩ := ih hx
        exact ⟨c :: pre, post, rfl, hpost⟩

/-- No element comes twice: the chain from there on would be shorter than itself. -/
theorem Chain.nodup (h : Chain next mark c cs) : cs.Nodup := by
  induction h with
  | last => exact List.nodup_singleton _
  | @step c cs hn h ih =>
      refine List.nodup_cons.mpr ⟨fun hmem => ?_, ih⟩
      obtain ⟨pre, post, hcs, hpost⟩ := h.suffix hmem
      have hlen := congrArg List.length (hpost.unique (.step hn h))
      rw [hcs, List.length_cons, List.length_append] at hlen
      omega

theorem Chain.ne_nil (h : Chain next mark c cs) : cs ≠ [] := by
  cases h <;> simp

theorem Chain.head (h : Chain next mark c cs) : c ∈ cs := by
  cases h <;> simp

end

theorem Chain.length_le {next : Nat → Nat} {mark c n : Nat} {cs : List Nat}
    (h : Chain next mark c cs) (hlt : ∀ x ∈ cs, x < n) : cs.length ≤ n := by
  have hsub : cs.toFinset ⊆ Finset.range n := by
    intro x hx
    exact Finset.mem_range.mpr (hlt x (List.mem_toFinset.mp hx))
  have hcard := Finset.card_le_card hsub
  rwa [List.toFinset_card_of_nodup h.nodup, Finset.card_range] at hcard

section

variable {α σ : Type} [DecidableEq α]

/-- From `c` on: `body` deals with an element and gives its successor. -/
def loop (body : α → σ → Option (σ × α)) (mark : α) : Nat → α → σ → Option σ
  | 0, _, _ => none
  | fuel + 1, c, s =>
      (body c s).bind (fun r => if r.2 = mark then some r.1 else loop body mark fuel r.2 r.1)

variable {body : α → σ → Option (σ × α)} {next : α → α} {mark c : α} {act : σ → α → Option σ}

/-- **The loop is a fold over the chain.** -/
theorem loop_eq_some (hbody : ∀ c s, body c s = (act s c).map (fun s' => (s', next c)))
    {fuel : Nat} {s s' : σ} : loop body mark fuel c s = some s' ↔
      ∃ cs, Chain next mark c cs ∧ cs.length ≤ fuel ∧ cs.foldlM act s = some s' := by
  induction fuel generalizing c s with
  | zero =>
      constructor
      · intro h
        simp [loop] at h
      · rintro ⟨cs, hc, hlen, -⟩
        exact absurd (List.length_eq_zero_iff.mp (by omega)) hc.ne_nil
  | succ fuel ih =>
      rw [loop, hbody]
      cases hact : act s c with
      | none =>
          refine iff_of_false (by simp) ?_
          rintro ⟨cs, hc, -, hf⟩
          cases hc <;> simp [hact] at hf
      | some t =>
          rw [Option.map_some, Option.bind_some]
          dsimp only
          by_cases hm : next c = mark
          · rw [if_pos hm]
            constructor
            · intro h
              exact ⟨[c], .last hm, by simp, by simpa [hact] using h⟩
            · rintro ⟨cs, hc, -, hf⟩
              rw [hc.unique (.last hm)] at hf
              simpa [hact] using hf
          · rw [if_neg hm, ih]
            constructor
            · rintro ⟨cs, hc, hlen, hf⟩
              exact ⟨c :: cs, .step hm hc, by simpa using hlen, by simpa [hact] using hf⟩
            · rintro ⟨cs, hc, hlen, hf⟩
              cases hc with
              | last hm' => exact absurd hm' hm
              | step _ hc => exact ⟨_, hc, by simpa using hlen, by simpa [hact] using hf⟩

end

/-- A fold that comes to its end has come through each element. -/
theorem foldlM_forall {α σ : Type} {act : σ → α → Option σ} {P : α → Prop} {cs : List α} {s r : σ}
    (hact : ∀ s c, (act s c).isSome → P c) (h : cs.foldlM act s = some r) : ∀ c ∈ cs, P c := by
  induction cs generalizing s with
  | nil => simp
  | cons c cs ih =>
      rw [List.foldlM_cons, Option.bind_eq_bind, Option.bind_eq_some_iff] at h
      obtain ⟨t, ht, h⟩ := h
      intro x hx
      rcases List.mem_cons.mp hx with rfl | hx
      · exact hact s x (by rw [ht]; rfl)
      · exact ih h x hx

end Follow
