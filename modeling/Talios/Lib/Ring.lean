import Mathlib.Tactic

set_option autoImplicit false

/-! # Ring buffers

`cap` cells that are used in turn. `window cap f start n` is what stands in the `n` cells from
`start` on, where the cell behind the last one is the first one again: the contents of a queue that
is kept in the ring.
-/

namespace Ring

section

variable {α : Type} {cap start m n : Nat} {f : Nat → α}

/-- The `n` cells from `start` on, round the ring. -/
def window (cap : Nat) (f : Nat → α) (start n : Nat) : List α :=
  (List.range n).map (fun i => f ((start + i) % cap))

theorem length_window : (window cap f start n).length = n := by
  simp [window]

/-- One more cell at the end. -/
theorem window_succ : window cap f start (n + 1) = window cap f start n ++ [f ((start + n) % cap)] := by
  simp [window, List.range_succ]

/-- The cells in front, and those behind them. -/
theorem window_add : window cap f start (m + n)
    = window cap f start m ++ window cap f (start + m) n := by
  simp [window, List.range_add, Nat.add_assoc]

/-- Where the window does not reach the end of the ring, its cells are those from `start` on. -/
theorem window_eq_of_le (h : start + n ≤ cap) :
    window cap f start n = (List.range n).map (fun i => f (start + i)) := by
  refine List.map_congr_left (fun i hi => ?_)
  rw [Nat.mod_eq_of_lt (by have := List.mem_range.mp hi; omega)]

/-- The cell behind the window is not one of it. -/
theorem mod_ne (hn : n < cap) {i : Nat} (hi : i < n) : (start + i) % cap ≠ (start + n) % cap := by
  intro h
  have h1 : i % cap = n % cap := Nat.ModEq.add_left_cancel' start h
  rw [Nat.mod_eq_of_lt (by omega), Nat.mod_eq_of_lt hn] at h1
  omega

/-- Writing the cell behind the window puts the value at its end. -/
theorem window_update (hn : n < cap) (x : α) :
    window cap (Function.update f ((start + n) % cap) x) start (n + 1)
      = window cap f start n ++ [x] := by
  rw [window_succ, Function.update_self]
  refine congrArg (· ++ [x]) (List.map_congr_left (fun i hi => ?_))
  exact Function.update_of_ne (mod_ne hn (List.mem_range.mp hi)) x f

end

end Ring
