import Talios.Memory.Slab
import Mathlib.Order.Bounds.Defs

set_option autoImplicit false

/-! # The search of `AllocSlab` in one slab

The `for` loop of `AllocSlab`, in its own words: `i` has 64 bits, and a full word moves it by 63 before
`i++` does by one. `search_plain` says that it finds what a scan bit by bit finds (`plainScan`), and that
the walk round the ring passes a slab exactly if that finds nothing.
-/

namespace Talios

open Bitmap Word

/-- The loop, from `i` on: the bit that is taken and the memory afterwards, or nothing where it goes on
to the next slab. The outer option is none where the rounds have run out. -/
def searchLoop (word : Memory) (slab : Slab) : Nat → Nat → Option (Option (Nat × Memory))
  | 0, _ => none
  | fuel + 1, i =>
      let k := slab.colorMap / 8 + i / 64
      if i < slab.colorCount then
        if word k = 0xffffffffffffffff#64 then searchLoop word slab fuel (add64 (add64 i 63) 1)
        else if word k &&& 1#64 <<< (i % 64) = 0 then
          some (some (i, Function.update word k (word k ||| 1#64 <<< (i % 64))))
        else searchLoop word slab fuel (add64 i 1)
      else some none

/-- A scan bit by bit: the least clear bit below `n`. -/
def plainScan (word : Memory) (base n : Nat) : Option Nat :=
  (List.range n).find? (fun i => !bit word base i)

/-- The bitmap has `words` words in the kernel half of the address space, and a bit for each object. -/
structure Slab.Covered (slab : Slab) (words : Nat) : Prop where
  kernel : PAGE_OFFSET ≤ slab.colorMap
  memory : slab.colorMap + 8 * words ≤ 2 ^ 64
  bits : slab.colorCount ≤ 64 * words

section

variable {word : Memory} {base n : Nat}

theorem plainScan_eq_some {i : Nat} :
    plainScan word base n = some i ↔ IsLeast {i | i < n ∧ bit word base i = false} i := by
  unfold plainScan
  rw [List.find?_range_eq_some, List.mem_range]
  constructor
  · rintro ⟨hclear, hi, hset⟩
    refine ⟨⟨hi, by simpa using hclear⟩, fun j hj => ?_⟩
    by_contra hlt
    have hj' := hset j (by omega)
    rw [hj.2] at hj'
    exact absurd hj' (by simp)
  · rintro ⟨⟨hi, hclear⟩, hleast⟩
    refine ⟨by simpa using hclear, hi, fun j hj => ?_⟩
    cases hbit : bit word base j with
    | true => rfl
    | false =>
        have hle : i ≤ j := hleast ⟨hj.trans hi, hbit⟩
        omega

theorem plainScan_eq_none : plainScan word base n = none ↔ ∀ i < n, bit word base i = true := by
  unfold plainScan
  rw [List.find?_range_eq_none]
  simp

/-- The scan that passes full words finds the same. -/
theorem scan_eq_plainScan {fuel : Nat} (hf : n ≤ fuel) :
    scan word base n fuel 0 = plainScan word base n := by
  have hspec := @scan_spec word base n fuel 0 (by omega) (Or.inl rfl)
  split at hspec
  · rename_i j hj
    obtain ⟨-, hlt, hc, hset⟩ := hspec
    rw [hj]
    symm
    refine plainScan_eq_some.mpr ⟨⟨hlt, hc⟩, fun k hk => ?_⟩
    by_contra hkj
    have hk' : bit word base k = false := hk.2
    rw [hset k (Nat.zero_le k) (by omega)] at hk'
    exact absurd hk' (by simp)
  · rename_i hnone
    rw [hnone]
    exact (plainScan_eq_none.mpr fun i hi => hspec i (Nat.zero_le i) hi).symm

end

section

variable {slab : Slab} {words : Nat}

/-- The objects of a slab are far fewer than 64 bits count. -/
theorem Slab.Covered.count_lt (h : slab.Covered words) : slab.colorCount < 2 ^ 63 := by
  have h1 := h.kernel
  have h2 := h.memory
  have h3 := h.bits
  unfold PAGE_OFFSET at h1
  omega

theorem and_shift_eq_zero_iff (v : BitVec 64) {j : Nat} (hj : j < 64) :
    v &&& 1#64 <<< j = 0 ↔ v.getLsbD j = false := by
  constructor
  · intro h
    have hbit := congrArg (·.getLsbD j) h
    simpa [BitVec.getLsbD_and, getLsbD_one_shift hj] using hbit
  · intro h
    apply BitVec.eq_of_getLsbD_eq
    intro k hk
    rw [BitVec.getLsbD_and, getLsbD_one_shift hk]
    by_cases hkj : k = j
    · rw [hkj, h]
      simp
    · simp [hkj]

/-- **The loop and the scan** go through the same indices. -/
theorem searchLoop_eq (h : slab.Covered words) (word : Memory) (fuel : Nat) : ∀ i : Nat, 0 < fuel →
    slab.colorCount < i + fuel →
    searchLoop word slab fuel i = some ((scan word (slab.colorMap / 8) slab.colorCount fuel i).map
      fun j => (j, setBit word (slab.colorMap / 8) j)) := by
  have hcount := h.count_lt
  induction fuel with
  | zero => exact fun i hpos => absurd hpos (by omega)
  | succ fuel ih =>
      intro i _ hf
      rw [searchLoop, scan]
      by_cases hi : i < slab.colorCount
      · have h63 : add64 i 63 = i + 63 := add64_eq (by omega)
        have h64 : add64 (i + 63) 1 = i + 64 := add64_eq (by omega)
        have h1 : add64 i 1 = i + 1 := add64_eq (by omega)
        have hones : (0xffffffffffffffff#64) = BitVec.allOnes 64 := by decide
        have hbit : word (slab.colorMap / 8 + i / 64) &&& 1#64 <<< (i % 64) = 0
            ↔ bit word (slab.colorMap / 8) i = false :=
          and_shift_eq_zero_iff _ (Nat.mod_lt i (by decide))
        rw [if_pos hi, if_pos hi, h63, h64, h1, hones]
        by_cases hfull : word (slab.colorMap / 8 + i / 64) = BitVec.allOnes 64
        · rw [if_pos hfull, if_pos hfull]
          exact ih (i + 64) (by omega) (by omega)
        · rw [if_neg hfull, if_neg hfull]
          by_cases hclear : bit word (slab.colorMap / 8) i = false
          · rw [if_pos (hbit.mpr hclear), if_pos hclear]
            rfl
          · rw [if_neg (mt hbit.mp hclear), if_neg hclear]
            exact ih (i + 1) (by omega) (by omega)
      · rw [if_neg hi, if_neg hi]
        rfl

/-- The walk round the ring, at a slab that counts free objects. -/
theorem allocRing_cons (word : Memory) (size : Nat) (rest : List Slab) (hfree : slab.freeCount ≠ 0) :
    allocRing word size (slab :: rest)
      = (plainScan word (slab.colorMap / 8) slab.colorCount).elim
          ((allocRing word size rest).map fun r => (slab :: r.1, r.2))
          (fun i => some (slab.take :: rest, setBit word (slab.colorMap / 8) i, slab.vaddress + i * size)) := by
  rw [allocRing, if_neg hfree, findColor, scan_eq_plainScan le_rfl]
  cases plainScan word (slab.colorMap / 8) slab.colorCount with
  | none => rfl
  | some i => rfl

/-- **The search that passes full words is the plain scan**: it comes to an end, with the least clear
bit, sets this bit and no other, and the walk goes on to the next slab exactly if all bits are set. -/
theorem search_plain (h : slab.Covered words) (word : Memory) :
    (∀ fuel, slab.colorCount < fuel → searchLoop word slab fuel 0
      = some ((plainScan word (slab.colorMap / 8) slab.colorCount).map
          fun i => (i, setBit word (slab.colorMap / 8) i))) ∧
    (∀ i, plainScan word (slab.colorMap / 8) slab.colorCount = some i ↔
      IsLeast {i | i < slab.colorCount ∧ bit word (slab.colorMap / 8) i = false} i) ∧
    (∀ i a j, j < 64 → (setBit word (slab.colorMap / 8) i a).getLsbD j
      = ((word a).getLsbD j || decide (a = slab.colorMap / 8 + i / 64 ∧ j = i % 64))) ∧
    (plainScan word (slab.colorMap / 8) slab.colorCount = none ↔
      ∀ i < slab.colorCount, bit word (slab.colorMap / 8) i = true) := by
  refine ⟨fun fuel hf => ?_, fun i => plainScan_eq_some, fun i a j hj => ?_, plainScan_eq_none⟩
  · rw [searchLoop_eq h word fuel 0 (by omega) (by omega), scan_eq_plainScan hf.le]
  · by_cases ha : a = slab.colorMap / 8 + i / 64
    · rw [ha, setBit, Function.update_self, BitVec.getLsbD_or, getLsbD_one_shift hj]
      simp
    · rw [setBit_of_ne ha]
      simp [ha]

/-- Seventy objects, the first word of the map full: bit 64 is taken. -/
theorem search_plain_partial_word :
    searchLoop (fun a => if a = PAGE_OFFSET / 8 then BitVec.allOnes 64 else 0)
        ⟨0, 0, 0, PAGE_OFFSET, 64, 6, 2, 70⟩ 71 0
      = some (some (64, setBit (fun a => if a = PAGE_OFFSET / 8 then BitVec.allOnes 64 else 0)
          (PAGE_OFFSET / 8) 64)) := by
  have hcovered : Slab.Covered ⟨0, 0, 0, PAGE_OFFSET, 64, 6, 2, 70⟩ 2 :=
    ⟨le_rfl, by norm_num [PAGE_OFFSET], by norm_num⟩
  have h := search_plain hcovered (fun a => if a = PAGE_OFFSET / 8 then BitVec.allOnes 64 else 0)
  have hfound := (h.2.1 64).mpr ⟨⟨by decide, by decide⟩, fun j hj => ?_⟩
  · rw [h.1 71 (by decide), hfound]
    rfl
  · by_contra hlt
    have hj' : bit _ (PAGE_OFFSET / 8) j = false := hj.2
    rw [bit, show j / 64 = 0 by omega, Nat.add_zero, if_pos rfl, BitVec.getLsbD_allOnes] at hj'
    exact absurd hj' (by simp [Nat.mod_lt])

end

end Talios
