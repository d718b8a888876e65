import Mathlib.Tactic
import Mathlib.Data.List.GetD

set_option autoImplicit false

/-! # Byte buffers

A buffer, a disk and a memory are functions from addresses to bytes. `overlay` replaces a range of
addresses, `getLE` and `putLE` read and write little-endian numbers.
-/

namespace Bytes

/-- The contents of an array of bytes, or of a memory. -/
abbrev Buffer := Nat → UInt8

/-- The `n` bytes from `start` on become the first `n` bytes of `g`. -/
def overlay (f : Buffer) (start n : Nat) (g : Buffer) : Buffer :=
  fun i => if start ≤ i ∧ i < start + n then g (i - start) else f i

/-- The number that the `n` bytes from `i` on stand for. -/
def getLE (f : Buffer) : Nat → Nat → Nat
  | _, 0 => 0
  | i, n + 1 => (f i).toNat + 256 * getLE f (i + 1) n

/-- The `n` bytes from `i` on become those of a number. -/
def putLE (f : Buffer) (i n v : Nat) : Buffer :=
  overlay f i n (fun j => UInt8.ofNat (v / 256 ^ j))

variable {f g h : Buffer} {start n m i : Nat}

theorem overlay_of_mem (h1 : start ≤ i) (h2 : i < start + n) :
    overlay f start n g i = g (i - start) := if_pos ⟨h1, h2⟩

theorem overlay_of_lt (h1 : i < start) : overlay f start n g i = f i :=
  if_neg (fun h => absurd h.1 (by omega))

theorem overlay_of_ge (h1 : start + n ≤ i) : overlay f start n g i = f i :=
  if_neg (fun h => absurd h.2 (by omega))

/-- What lies outside the range stays. -/
theorem overlay_of_not_mem (h1 : ¬ (start ≤ i ∧ i < start + n)) : overlay f start n g i = f i :=
  if_neg h1

theorem overlay_zero_left (hi : i < n) : overlay f 0 n g i = g i :=
  overlay_of_mem (Nat.zero_le i) (by omega)

/-- The second of two writes to one range is what stays. -/
theorem overlay_overlay : overlay (overlay f start n g) start n h = overlay f start n h := by
  funext i
  by_cases hi : start ≤ i ∧ i < start + n
  · rw [overlay_of_mem hi.1 hi.2, overlay_of_mem hi.1 hi.2]
  · rw [overlay_of_not_mem hi, overlay_of_not_mem hi, overlay_of_not_mem hi]

/-- A range is written with what it held. -/
theorem overlay_eq_self (hg : ∀ j < n, g j = f (start + j)) : overlay f start n g = f := by
  funext i
  by_cases hi : start ≤ i ∧ i < start + n
  · rw [overlay_of_mem hi.1 hi.2, hg (i - start) (by omega), Nat.add_sub_cancel' hi.1]
  · exact overlay_of_not_mem hi

theorem overlay_congr (h : Buffer) (hgh : ∀ j < n, g j = h j) :
    overlay f start n g = overlay f start n h := by
  funext i
  by_cases hi : start ≤ i ∧ i < start + n
  · rw [overlay_of_mem hi.1 hi.2, overlay_of_mem hi.1 hi.2]
    exact hgh (i - start) (by omega)
  · rw [overlay_of_not_mem hi, overlay_of_not_mem hi]

theorem getLE_congr {i' : Nat} (hfg : ∀ j < n, f (i + j) = g (i' + j)) :
    getLE f i n = getLE g i' n := by
  induction n generalizing i i' with
  | zero => rfl
  | succ n ih =>
      have h0 : f i = g i' := hfg 0 (by omega)
      have h1 : getLE f (i + 1) n = getLE g (i' + 1) n := by
        apply ih
        intro j hj
        have := hfg (j + 1) (by omega)
        rwa [← Nat.add_assoc, ← Nat.add_assoc, Nat.add_right_comm, Nat.add_right_comm i'] at this
      rw [getLE, getLE, h0, h1]

theorem getLE_lt : ∀ (i n : Nat), getLE f i n < 256 ^ n
  | _, 0 => by simp [getLE]
  | i, n + 1 => by
      have h1 := (f i).toNat_lt
      have h2 := getLE_lt (i + 1) n
      rw [getLE, Nat.pow_succ]
      omega

/-- The bytes of a number are its digits to the base 256. -/
theorem getLE_of_digits : ∀ (n i v : Nat), (∀ j < n, f (i + j) = UInt8.ofNat (v / 256 ^ j)) →
    getLE f i n = v % 256 ^ n
  | 0, _, _, _ => by simp [getLE, Nat.mod_one]
  | n + 1, i, v, h => by
      have h0 : f i = UInt8.ofNat v := by simpa using h 0 (by omega)
      have ih : getLE f (i + 1) n = v / 256 % 256 ^ n := by
        apply getLE_of_digits
        intro j hj
        rw [Nat.div_div_eq_div_mul, ← Nat.pow_succ', Nat.add_assoc, Nat.add_comm 1 j]
        exact h (j + 1) (by omega)
      have hbyte : (UInt8.ofNat v).toNat = v % 256 := UInt8.toNat_ofNat'
      rw [getLE, h0, ih, hbyte, Nat.pow_succ', Nat.mod_mul]

theorem getLE_byte : ∀ (n i : Nat) {j : Nat}, j < n →
    (f (i + j)).toNat = getLE f i n / 256 ^ j % 256
  | 0, _, _, h => absurd h (by omega)
  | n + 1, i, 0, _ => by
      have h := (f i).toNat_lt
      rw [getLE, Nat.pow_zero, Nat.div_one, Nat.add_zero, Nat.add_mul_mod_self_left,
        Nat.mod_eq_of_lt (by omega)]
  | n + 1, i, j + 1, hj => by
      have h := (f i).toNat_lt
      have ih := getLE_byte n (i + 1) (j := j) (by omega)
      have hdiv : ((f i).toNat + 256 * getLE f (i + 1) n) / 256 = getLE f (i + 1) n := by omega
      rw [getLE, Nat.pow_succ', ← Nat.div_div_eq_div_mul, hdiv, ← ih]
      congr 2
      omega

theorem putLE_of_not_mem {v : Nat} (h : ¬ (start ≤ i ∧ i < start + n)) :
    putLE f start n v i = f i := overlay_of_not_mem h

/-- What is read back is what was written, as far as the bytes hold it. -/
theorem getLE_putLE (i n v : Nat) : getLE (putLE f i n v) i n = v % 256 ^ n := by
  apply getLE_of_digits
  intro j hj
  unfold putLE
  rw [overlay_of_mem (by omega) (by omega), Nat.add_sub_cancel_left]

/-- A number that lies elsewhere stays. -/
theorem getLE_putLE_ne {v m : Nat} (h : i + n ≤ start ∨ start + m ≤ i) :
    getLE (putLE f start m v) i n = getLE f i n := by
  apply getLE_congr
  intro j hj
  exact putLE_of_not_mem (by omega)

/-- Writing changes nothing exactly if the number was there. -/
theorem putLE_eq_self_iff {v : Nat} : putLE f i n v = f ↔ v % 256 ^ n = getLE f i n := by
  constructor
  · intro h
    have := getLE_putLE (f := f) i n v
    rw [h] at this
    exact this.symm
  · intro h
    apply overlay_eq_self
    intro j hj
    apply UInt8.toNat_inj.mp
    have hpow : 256 ^ n = 256 ^ (j + 1) * 256 ^ (n - (j + 1)) := by
      rw [← Nat.pow_add]
      congr 1
      omega
    calc (UInt8.ofNat (v / 256 ^ j)).toNat = v / 256 ^ j % 256 := UInt8.toNat_ofNat'
      _ = v % 256 ^ (j + 1) / 256 ^ j := by
          rw [Nat.pow_succ, Nat.mod_mul_right_div_self]
      _ = v % 256 ^ n % 256 ^ (j + 1) / 256 ^ j := by
          rw [hpow, Nat.mod_mul_right_mod]
      _ = v % 256 ^ n / 256 ^ j % 256 := by
          rw [Nat.pow_succ, Nat.mod_mul_right_div_self]
      _ = (f (i + j)).toNat := by rw [h, getLE_byte n i hj]

/-- The string in a buffer, up to its first zero. -/
theorem takeWhile_range {s : List UInt8} (hbytes : ∀ i < s.length, f i = s.getD i 0)
    (hzero : f s.length = 0) (hn : s.length < n) :
    ((List.range n).map f).takeWhile (· ≠ 0) = s.takeWhile (· ≠ 0) := by
  have hfirst : (List.range s.length).map f = s := by
    apply List.ext_getElem (by simp)
    intro i h1 h2
    rw [List.getElem_map, List.getElem_range, hbytes i h2, List.getD_eq_getElem _ _ h2]
  have hsplit : n = s.length + ((n - s.length - 1) + 1) := by omega
  have hrest : ∀ l : List UInt8, (0 :: l).takeWhile (· ≠ 0) = [] := fun _ => rfl
  rw [hsplit, List.range_add, List.map_append, hfirst, List.range_succ_eq_map, List.map_cons,
    List.map_cons, Nat.add_zero, hzero, List.takeWhile_append, hrest, List.append_nil]
  split
  · rename_i hlen
    exact ((List.takeWhile_prefix _).eq_of_length hlen).symm
  · rfl

end Bytes
