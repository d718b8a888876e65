import Talios.Lib.Bytes

set_option autoImplicit false

/-! # Numbers of twelve bits, two in three bytes

`pack12` puts a list of numbers one behind the other, the low bits first; `entry12` takes one of them out of
a buffer. What has been packed is read back (`entry12_pack12`).
-/

namespace Bytes

/-- The number at a place: an odd one starts in the upper half of a byte. -/
def entry12 (f : Buffer) (i : Nat) : Nat :=
  if i % 2 = 1 then getLE f (i * 3 / 2) 2 / 16 else getLE f (i * 3 / 2) 2 % 4096

theorem getLE_two (f : Buffer) (i : Nat) : getLE f i 2 = (f i).toNat + 256 * (f (i + 1)).toNat := rfl

theorem entry12_zero (f : Buffer) : entry12 f 0 = ((f 0).toNat + 256 * (f 1).toNat) % 4096 := rfl

theorem entry12_one (f : Buffer) : entry12 f 1 = ((f 1).toNat + 256 * (f 2).toNat) / 16 := rfl

/-- Two numbers further on, three bytes further on. -/
theorem entry12_add_two (f : Buffer) (i : Nat) : entry12 f (i + 2) = entry12 (fun j => f (j + 3)) i := by
  have hdiv : (i + 2) * 3 / 2 = i * 3 / 2 + 3 := by omega
  have hget : getLE f (i * 3 / 2 + 3) 2 = getLE (fun j => f (j + 3)) (i * 3 / 2) 2 := by
    rw [getLE_two, getLE_two, Nat.add_right_comm]
  rw [entry12, entry12, Nat.add_mod_right, hdiv, hget]

def pack12 : List Nat → List UInt8
  | [] => []
  | [a] => [UInt8.ofNat a, UInt8.ofNat (a / 256)]
  | a :: b :: es =>
      UInt8.ofNat a :: UInt8.ofNat (a / 256 + 16 * (b % 16)) :: UInt8.ofNat (b / 16) :: pack12 es

/-- **What has been packed is read back.** -/
theorem entry12_pack12 {f : Buffer} {es : List Nat} (hes : ∀ e ∈ es, e < 4096)
    (hf : ∀ j < (pack12 es).length, f j = (pack12 es).getD j 0) {i e : Nat} (hi : es[i]? = some e) :
    entry12 f i = e := by
  induction es using pack12.induct generalizing f i with
  | case1 => simp at hi
  | case2 a =>
      have ha : a < 4096 := hes a (by simp)
      have h0 : f 0 = UInt8.ofNat a := hf 0 (by simp [pack12])
      have h1 : f 1 = UInt8.ofNat (a / 256) := hf 1 (by simp [pack12])
      obtain ⟨hlt, he⟩ := List.getElem?_eq_some_iff.mp hi
      obtain rfl : i = 0 := by simpa using hlt
      obtain rfl : a = e := he
      rw [entry12_zero, h0, h1, UInt8.toNat_ofNat', UInt8.toNat_ofNat']
      omega
  | case3 a b es ih =>
      have ha : a < 4096 := hes a (by simp)
      have hb : b < 4096 := hes b (by simp)
      have h0 : f 0 = UInt8.ofNat a := hf 0 (by simp [pack12])
      have h1 : f 1 = UInt8.ofNat (a / 256 + 16 * (b % 16)) := hf 1 (by simp [pack12])
      have h2 : f 2 = UInt8.ofNat (b / 16) := hf 2 (by simp [pack12])
      rcases i with - | - | i
      · obtain rfl : a = e := by simpa using hi
        rw [entry12_zero, h0, h1, UInt8.toNat_ofNat', UInt8.toNat_ofNat']
        omega
      · obtain rfl : b = e := by simpa using hi
        rw [entry12_one, h1, h2, UInt8.toNat_ofNat', UInt8.toNat_ofNat']
        omega
      · rw [entry12_add_two]
        refine ih (fun x hx => hes x (by simp [hx])) (fun j hj => ?_) (by simpa using hi)
        rw [hf (j + 3) (by simpa [pack12] using hj)]
        rfl

end Bytes
