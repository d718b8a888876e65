import Talios.Lib.Bytes

set_option autoImplicit false

/-! # The fields of a packed record

A field is a number at a place of a buffer. Fields that lie apart may be written in any order, and are all
there in the end (`getLE_putFields`).
-/

namespace Bytes

/-- The value of `width` bytes from `pos` on. -/
structure PackedField where
  pos : Nat
  width : Nat
  value : Nat

/-- Two fields share no byte. -/
def PackedField.Apart (x y : PackedField) : Prop := x.pos + x.width ≤ y.pos ∨ y.pos + y.width ≤ x.pos

instance : DecidableRel PackedField.Apart := fun x y =>
  inferInstanceAs (Decidable (x.pos + x.width ≤ y.pos ∨ y.pos + y.width ≤ x.pos))

/-- The fields are written one after the other. -/
def putFields (f : Buffer) (xs : List PackedField) : Buffer :=
  xs.foldl (fun f x => putLE f x.pos x.width x.value) f

variable {f : Buffer} {xs : List PackedField}

/-- A field that is apart from all others is not touched. -/
theorem getLE_putFields_apart {pos width : Nat}
    (h : ∀ x ∈ xs, pos + width ≤ x.pos ∨ x.pos + x.width ≤ pos) :
    getLE (putFields f xs) pos width = getLE f pos width := by
  induction xs generalizing f with
  | nil => rfl
  | cons x xs ih =>
      rw [putFields, List.foldl_cons]
      calc getLE (putFields (putLE f x.pos x.width x.value) xs) pos width
          = getLE (putLE f x.pos x.width x.value) pos width := ih (fun y hy => h y (List.mem_cons_of_mem x hy))
        _ = getLE f pos width := getLE_putLE_ne (h x List.mem_cons_self)

/-- **Each field is read back.** -/
theorem getLE_putFields (hap : xs.Pairwise PackedField.Apart) {x : PackedField} (hx : x ∈ xs)
    (hlt : x.value < 256 ^ x.width) : getLE (putFields f xs) x.pos x.width = x.value := by
  induction xs generalizing f with
  | nil => cases hx
  | cons y xs ih =>
      rw [putFields, List.foldl_cons]
      rw [List.pairwise_cons] at hap
      rcases List.mem_cons.mp hx with rfl | hx
      · calc getLE (putFields (putLE f x.pos x.width x.value) xs) x.pos x.width
            = getLE (putLE f x.pos x.width x.value) x.pos x.width := getLE_putFields_apart (hap.1)
          _ = x.value % 256 ^ x.width := getLE_putLE _ _ _
          _ = x.value := Nat.mod_eq_of_lt hlt
      · exact ih hap.2 hx

/-- What lies behind the last field stays. -/
theorem putFields_of_ge {i : Nat} (h : ∀ x ∈ xs, x.pos + x.width ≤ i) : putFields f xs i = f i := by
  induction xs generalizing f with
  | nil => rfl
  | cons x xs ih =>
      rw [putFields, List.foldl_cons]
      calc putFields (putLE f x.pos x.width x.value) xs i
          = putLE f x.pos x.width x.value i := ih (fun y hy => h y (List.mem_cons_of_mem x hy))
        _ = f i := overlay_of_ge (h x List.mem_cons_self)

end Bytes
