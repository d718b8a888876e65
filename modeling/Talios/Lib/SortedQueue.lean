import Mathlib.Tactic
import Mathlib.Data.List.Basic

set_option autoImplicit false

/-! # Queues sorted by a key

A queue whose members are in the order of their keys, and the walk that puts a member in: behind
every member whose key is not larger, unless it meets the member itself on the way. The walk finds a
member that is there already because the queue is sorted.
-/

namespace SortedQueue

section

variable {α κ : Type} [DecidableEq α] [LinearOrder κ]

def Sorted (key : α → κ) (q : List α) : Prop := q.Pairwise (fun a b => key a ≤ key b)

/-- The queue with `a` put in; `none` where `a` is met on the way. -/
def place (key : α → κ) (a : α) : List α → Option (List α)
  | [] => some [a]
  | b :: rest =>
      if key b ≤ key a then if b = a then none else (place key a rest).map (b :: ·)
      else some (a :: b :: rest)

variable {key : α → κ} {a : α} {q : List α}

/-- A member is found. -/
theorem place_of_mem (hs : Sorted key q) (ha : a ∈ q) : place key a q = none := by
  induction q with
  | nil => exact absurd ha (by simp)
  | cons b rest ih =>
      obtain ⟨hb, hrest⟩ := List.pairwise_cons.mp hs
      rw [place]
      by_cases hba : b = a
      · rw [if_pos (by rw [hba]), if_pos hba]
      · have hmem : a ∈ rest := (List.mem_cons.mp ha).resolve_left (fun h => hba h.symm)
        rw [if_pos (hb a hmem), if_neg hba, ih hrest hmem]
        rfl

/-- Anything else is put in at its place. -/
theorem place_of_not_mem (hs : Sorted key q) (ha : a ∉ q) :
    ∃ q', place key a q = some q' ∧ q'.Perm (a :: q) ∧ Sorted key q' := by
  induction q with
  | nil => exact ⟨[a], rfl, List.Perm.refl _, List.pairwise_singleton _ _⟩
  | cons b rest ih =>
      obtain ⟨hb, hrest⟩ := List.pairwise_cons.mp hs
      rw [place]
      by_cases hle : key b ≤ key a
      · obtain ⟨q', he, hp, hs'⟩ := ih hrest (fun h => ha (List.mem_cons_of_mem _ h))
        rw [if_pos hle, if_neg (fun h => ha (by simp [h])), he]
        refine ⟨b :: q', rfl, ?_, ?_⟩
        · exact (hp.cons b).trans (List.Perm.swap a b rest)
        · refine List.pairwise_cons.mpr ⟨fun c hc => ?_, hs'⟩
          rcases List.mem_cons.mp (hp.mem_iff.mp hc) with rfl | hc
          · exact hle
          · exact hb c hc
      · rw [if_neg hle]
        refine ⟨a :: b :: rest, rfl, List.Perm.refl _, List.pairwise_cons.mpr ⟨fun c hc => ?_, hs⟩⟩
        have hlt := (lt_of_not_ge hle).le
        rcases List.mem_cons.mp hc with rfl | hc
        · exact hlt
        · exact hlt.trans (hb c hc)

omit [DecidableEq α] in
theorem Sorted.congr {key' : α → κ} (hs : Sorted key q) (h : ∀ b ∈ q, key' b = key b) :
    Sorted key' q :=
  List.Pairwise.imp_of_mem (fun hb hc hle => by rw [h _ hb, h _ hc]; exact hle) hs

end

end SortedQueue
