import Talios.Lib.Bytes
import Talios.Lib.Word

set_option autoImplicit false

/-! # `memcopy`

The two loops of `memcopy`, which the kernel and the user library have in the same words, on a memory
of 64-bit addresses. `copyForward_eq` and `copyBackward_eq` say for which overlaps each of them copies
what the source held; `IsBackcopy` takes the second exactly where the first would not.
-/

namespace Talios

open Bytes Word

/-- `while (n--) *(dst++) = *(src++)`. -/
def copyForward : Nat → Buffer → Nat → Nat → Buffer
  | 0, mem, _, _ => mem
  | n + 1, mem, src, dst =>
      copyForward n (Function.update mem dst (mem src)) (add64 src 1) (add64 dst 1)

/-- A pointer one byte lower; the one below 0 is the last address. -/
def before (ptr : Nat) : Nat := if ptr = 0 then 2 ^ 64 - 1 else ptr - 1

/-- `while (n--) *(dst--) = *(src--)`. -/
def copyBackward : Nat → Buffer → Nat → Nat → Buffer
  | 0, mem, _, _ => mem
  | n + 1, mem, src, dst =>
      copyBackward n (Function.update mem dst (mem src)) (before src) (before dst)

/-- `IsBackcopy`. -/
def isBackcopy (src dst n : Nat) : Bool := decide (src < dst ∧ dst < add64 src n)

/-- `memcopy`. -/
def memcopy (mem : Buffer) (src dst n : Nat) : Buffer :=
  if isBackcopy src dst n then
    copyBackward n mem (before (add64 src n)) (before (add64 dst n))
  else copyForward n mem src dst

/-! ## The loops -/

theorem before_add {a n : Nat} (h : a + (n + 1) ≤ 2 ^ 64) : before (add64 a (n + 1)) = a + n := by
  unfold before add64
  split <;> omega

/-- Upwards, no byte of the source is written before it is read, if the destination does not start
inside the source, behind its first byte. -/
theorem copyForward_eq : ∀ {n src dst : Nat} {mem : Buffer}, src + n ≤ 2 ^ 64 → dst + n ≤ 2 ^ 64 →
    (dst ≤ src ∨ src + n ≤ dst) →
    copyForward n mem src dst = overlay mem dst n (fun i => mem (src + i))
  | 0, src, dst, mem, _, _, _ => funext fun a => (overlay_of_not_mem (by omega)).symm
  | n + 1, src, dst, mem, hs, hd, hmeet => by
      rw [copyForward]
      cases n with
      | zero =>
          -- the last byte: the pointers are not used again, wherever they point to
          funext a
          rw [copyForward]
          by_cases ha : a = dst
          · rw [ha, Function.update_self, overlay_of_mem le_rfl (by omega), Nat.sub_self]
            rfl
          · rw [Function.update_of_ne ha, overlay_of_not_mem (by omega)]
      | succ n =>
          rw [add64_eq (by omega), add64_eq (by omega),
            copyForward_eq (by omega) (by omega) (by omega)]
          have hsource : ∀ i < n + 1, Function.update mem dst (mem src) (src + 1 + i)
              = mem (src + (i + 1)) := by
            intro i hi
            rw [Function.update_of_ne (by omega), Nat.add_assoc, Nat.add_comm 1]
          funext a
          by_cases ha : dst + 1 ≤ a ∧ a < dst + 1 + (n + 1)
          · have hplace : a - (dst + 1) + 1 = a - dst := by omega
            rw [overlay_of_mem ha.1 ha.2, overlay_of_mem (by omega) (by omega),
              hsource _ (by omega), hplace]
          · rw [overlay_of_not_mem ha]
            by_cases hfirst : a = dst
            · rw [hfirst, Function.update_self, overlay_of_mem le_rfl (by omega), Nat.sub_self]
              rfl
            · rw [Function.update_of_ne hfirst, overlay_of_not_mem (by omega)]

/-- Downwards from the last bytes, none is, if the destination does not start in front of the source. -/
theorem copyBackward_eq {n src dst : Nat} (hs : src + n < 2 ^ 64) (hd : dst + n < 2 ^ 64)
    (hle : src ≤ dst) (mem : Buffer) :
    copyBackward (n + 1) mem (src + n) (dst + n) = overlay mem dst (n + 1) (fun i => mem (src + i)) := by
  induction n generalizing mem with
  | zero =>
      funext a
      rw [copyBackward, copyBackward, Nat.add_zero, Nat.add_zero]
      by_cases ha : a = dst
      · rw [ha, Function.update_self, overlay_of_mem le_rfl (by omega), Nat.sub_self, Nat.add_zero]
      · rw [Function.update_of_ne ha, overlay_of_not_mem (by omega)]
  | succ n ih =>
      have hprev : ∀ x, x + (n + 1) < 2 ^ 64 → before (x + (n + 1)) = x + n := by
        intro x hx
        rw [← add64_eq hx, before_add hx.le]
      rw [copyBackward, hprev src hs, hprev dst hd, ih (by omega) (by omega)]
      funext a
      by_cases ha : dst ≤ a ∧ a < dst + (n + 1)
      · rw [overlay_of_mem ha.1 ha.2, overlay_of_mem ha.1 (by omega),
          Function.update_of_ne (by omega)]
      · rw [overlay_of_not_mem ha]
        by_cases hlast : a = dst + (n + 1)
        · rw [hlast, Function.update_self, overlay_of_mem (by omega) (by omega),
            Nat.add_sub_cancel_left]
        · rw [Function.update_of_ne hlast, overlay_of_not_mem (by omega)]

/-! ## The copy -/

/-- **`memcopy` copies, whatever the overlap**: the destination holds what the source held, and the
rest of the memory stays. -/
theorem memcopy_copies {src dst n : Nat} (hs : src + n ≤ 2 ^ 64) (hd : dst + n ≤ 2 ^ 64)
    (mem : Buffer) :
    (∀ i < n, memcopy mem src dst n (dst + i) = mem (src + i)) ∧
      ∀ a, ¬ (dst ≤ a ∧ a < dst + n) → memcopy mem src dst n a = mem a := by
  have heq : memcopy mem src dst n = overlay mem dst n (fun i => mem (src + i)) := by
    unfold memcopy isBackcopy
    by_cases hback : src < dst ∧ dst < add64 src n
    · -- then the end of the source is an address of its own: the destination ends behind it
      obtain ⟨k, rfl⟩ : ∃ k, n = k + 1 := by
        refine ⟨n - 1, ?_⟩
        rcases Nat.eq_zero_or_pos n with hn | hn
        · have hend : add64 src n ≤ src + n := Nat.mod_le _ _
          omega
        · omega
      rw [decide_eq_true hback, if_pos rfl, before_add hs, before_add hd]
      exact copyBackward_eq (by omega) (by omega) (by omega) mem
    · rw [decide_eq_false hback, if_neg (by simp)]
      refine copyForward_eq hs hd ?_
      unfold add64 at hback
      omega
  rw [heq]
  refine ⟨fun i hi => ?_, fun a ha => overlay_of_not_mem ha⟩
  rw [overlay_of_mem (by omega) (by omega), Nat.add_sub_cancel_left]

/-- Five bytes move up by two, over themselves, near the end of the address space. -/
theorem memcopy_copies_top :
    memcopy (fun a => UInt8.ofNat a) 0xfffffffffffffff0 0xfffffffffffffff2 5 (0xfffffffffffffff2 + 4)
      = UInt8.ofNat (0xfffffffffffffff0 + 4) :=
  (memcopy_copies (by norm_num) (by norm_num) _).1 4 (by norm_num)

end Talios
