import Mathlib.Tactic

set_option autoImplicit false

/-! # What holds at every point of a program

A program is a list of steps. `Always exec I is s`: the state satisfies `I` before the first step, between
any two, and behind the last. What comes in between two steps without a change of the state, as an interrupt
does, meets a state with `I`.
-/

namespace Trace

variable {σ ι : Type} {exec : σ → ι → σ} {I J : σ → Prop} {s : σ} {is js : List ι}

def Always (exec : σ → ι → σ) (I : σ → Prop) : List ι → σ → Prop
  | [], s => I s
  | i :: is, s => I s ∧ Always exec I is (exec s i)

theorem Always.start (h : Always exec I is s) : I s := by
  cases is with
  | nil => exact h
  | cons i is => exact h.1

theorem Always.final (h : Always exec I is s) : I (is.foldl exec s) := by
  induction is generalizing s with
  | nil => exact h
  | cons i is ih => exact ih h.2

theorem Always.mono (h : Always exec I is s) (hij : ∀ t, I t → J t) : Always exec J is s := by
  induction is generalizing s with
  | nil => exact hij s h
  | cons i is ih => exact ⟨hij s h.1, ih h.2⟩

theorem Always.append (h : Always exec I is s) (h' : Always exec I js (is.foldl exec s)) :
    Always exec I (is ++ js) s := by
  induction is generalizing s with
  | nil => exact h'
  | cons i is ih => exact ⟨h.1, ih h.2 h'⟩

end Trace
