import Mathlib.Tactic

set_option autoImplicit false

/-! # The words of a list

A list is cut at its separators; a word is a part that is not empty. So several separators in a row, and
those at the ends of the list, make no words.
-/

namespace Words

variable {α : Type} {p : α → Bool} {l w : List α} {a : α}

/-- The words of a list between the elements with `p`. -/
def words (p : α → Bool) (l : List α) : List (List α) := (l.splitOnP p).filter (fun w => !w.isEmpty)

end Words
