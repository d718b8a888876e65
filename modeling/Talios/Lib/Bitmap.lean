import Mathlib.Tactic
import Mathlib.Data.Finset.Card

set_option autoImplicit false

/-! # Bitmaps in a memory of 64-bit words

A memory is a function from word indices to 64-bit words. Bit `i` of the bitmap at word `base`
is bit `i % 64` of word `base + i / 64`. The file has the algebra of single bits, the number of
bits set below a bound, and the search for the least clear bit that passes over full words.
-/

namespace Bitmap

/-- A memory of 64-bit words. -/
abbrev Memory := Nat → BitVec 64

variable (w : Memory) (base : Nat)

/-- Bit `i` of the bitmap at word `base`. -/
def bit (i : Nat) : Bool := (w (base + i / 64)).getLsbD (i % 64)

/-- The memory with bit `i` set. -/
def setBit (i : Nat) : Memory :=
  Function.update w (base + i / 64) (w (base + i / 64) ||| 1#64 <<< (i % 64))

/-- The memory with bit `i` changed. -/
def flipBit (i : Nat) : Memory :=
  Function.update w (base + i / 64) (w (base + i / 64) ^^^ 1#64 <<< (i % 64))

/-- The memory with `n` words from `base` on set to `v`. -/
def fill (n : Nat) (v : BitVec 64) : Memory :=
  fun a => if base ≤ a ∧ a < base + n then v else w a

/-- The search for a clear bit from `i` on, below `n`, that skips a full word. -/
def scan (n : Nat) : Nat → Nat → Option Nat
  | 0, _ => none
  | fuel + 1, i =>
      if i < n then
        if w (base + i / 64) = BitVec.allOnes 64 then scan n fuel (i + 64)
        else if bit w base i = false then some i
        else scan n fuel (i + 1)
      else none

/-- The number of bits set below `n`. -/
def used (n : Nat) : Nat := ((Finset.range n).filter (fun i => bit w base i = true)).card

variable {w base}

/-! ## Single bits -/

theorem getLsbD_one_shift {k j : Nat} (hj : j < 64) :
    (1#64 <<< k).getLsbD j = decide (j = k) := by
  rw [BitVec.getLsbD_shiftLeft]
  by_cases h : j = k
  · subst h; simp [hj]
  · by_cases hlt : j < k
    · simp [h, hlt]
    · have : j - k ≠ 0 := by omega
      simp [h, this]

theorem bit_setBit (i j : Nat) : bit (setBit w base i) base j = (bit w base j || decide (j = i)) := by
  unfold bit setBit
  have hj := Nat.mod_lt j (show 0 < 64 by omega)
  by_cases h : j / 64 = i / 64
  · rw [h, Function.update_self, BitVec.getLsbD_or, getLsbD_one_shift hj]
    congr 1
    exact decide_eq_decide.mpr ⟨fun h' => by omega, fun h' => by rw [h']⟩
  · rw [Function.update_of_ne (by omega)]
    have : j ≠ i := fun h' => h (by rw [h'])
    simp [this]

theorem bit_flipBit (i j : Nat) : bit (flipBit w base i) base j = (bit w base j ^^ decide (j = i)) := by
  unfold bit flipBit
  have hj := Nat.mod_lt j (show 0 < 64 by omega)
  by_cases h : j / 64 = i / 64
  · rw [h, Function.update_self, BitVec.getLsbD_xor, getLsbD_one_shift hj]
    congr 1
    exact decide_eq_decide.mpr ⟨fun h' => by omega, fun h' => by rw [h']⟩
  · rw [Function.update_of_ne (by omega)]
    have : j ≠ i := fun h' => h (by rw [h'])
    simp [this]

/-- Bits are read from the words of the bitmap only. -/
theorem bit_congr {w' : Memory} {n i : Nat} (hi : i < 64 * n)
    (h : ∀ a, base ≤ a → a < base + n → w' a = w a) : bit w' base i = bit w base i := by
  unfold bit
  rw [h _ (by omega) (by omega)]

theorem bit_fill_zero {n i : Nat} (hi : i < 64 * n) : bit (fill w base n 0) base i = false := by
  unfold bit fill
  rw [if_pos ⟨by omega, by omega⟩]
  simp

theorem bit_fill_ones {n i : Nat} (hi : i < 64 * n) :
    bit (fill w base n (BitVec.allOnes 64)) base i = true := by
  unfold bit fill
  rw [if_pos ⟨by omega, by omega⟩, BitVec.getLsbD_allOnes]
  simp only [decide_eq_true_eq]
  omega

theorem setBit_of_ne {i a : Nat} (h : a ≠ base + i / 64) : setBit w base i a = w a :=
  Function.update_of_ne h ..

theorem flipBit_of_ne {i a : Nat} (h : a ≠ base + i / 64) : flipBit w base i a = w a :=
  Function.update_of_ne h ..

/-- Changing the bits below `n` one after another. -/
theorem bit_foldl_flipBit (n j : Nat) :
    bit ((List.range n).foldl (fun v i => flipBit v base i) w) base j
      = (bit w base j ^^ decide (j < n)) := by
  induction n with
  | zero => simp
  | succ n ih =>
      rw [List.range_succ, List.foldl_append]
      simp only [List.foldl_cons, List.foldl_nil]
      rw [bit_flipBit, ih, Bool.xor_assoc]
      congr 1
      by_cases h : j = n
      · subst h; simp
      · have : j < n ↔ j < n + 1 := by omega
        simp [h, this]

theorem foldl_flipBit_of_ne {n a : Nat} (h : ∀ i < n, a ≠ base + i / 64) :
    (List.range n).foldl (fun v i => flipBit v base i) w a = w a := by
  induction n with
  | zero => rfl
  | succ n ih =>
      rw [List.range_succ, List.foldl_append]
      simp only [List.foldl_cons, List.foldl_nil]
      rw [flipBit_of_ne (h n (by omega))]
      exact ih (fun i hi => h i (by omega))

/-! ## Counting -/

theorem used_congr {w' : Memory} {base' n : Nat} (h : ∀ i < n, bit w' base' i = bit w base i) :
    used w' base' n = used w base n := by
  unfold used
  congr 1
  exact Finset.filter_congr (fun i hi => by rw [h i (Finset.mem_range.mp hi)])

theorem used_le (n : Nat) : used w base n ≤ n :=
  (Finset.card_filter_le _ _).trans (by simp)

theorem used_eq_zero_iff {n : Nat} : used w base n = 0 ↔ ∀ i < n, bit w base i = false := by
  unfold used
  rw [Finset.card_eq_zero, Finset.filter_eq_empty_iff]
  simp

theorem used_eq_iff {n : Nat} : used w base n = n ↔ ∀ i < n, bit w base i = true := by
  unfold used
  nth_rewrite 2 [← Finset.card_range n]
  rw [Finset.card_filter_eq_iff]
  simp

/-- Setting a clear bit below `n`. -/
theorem used_of_set {w' : Memory} {i n : Nat} (hi : i < n) (hc : bit w base i = false)
    (h : ∀ j < n, bit w' base j = (bit w base j || decide (j = i))) :
    used w' base n = used w base n + 1 := by
  unfold used
  rw [← Finset.card_insert_of_notMem (a := i) (by simp [hc])]
  congr 1
  ext j
  simp only [Finset.mem_filter, Finset.mem_range, Finset.mem_insert]
  constructor
  · rintro ⟨hj, hb⟩
    rw [h j hj] at hb
    by_cases hji : j = i
    · exact Or.inl hji
    · exact Or.inr ⟨hj, by simpa [hji] using hb⟩
  · rintro (rfl | ⟨hj, hb⟩)
    · exact ⟨hi, by rw [h j hi]; simp⟩
    · exact ⟨hj, by rw [h j hj, hb]; rfl⟩

/-- Clearing a set bit below `n`. -/
theorem used_of_clear {w' : Memory} {i n : Nat} (hi : i < n) (hs : bit w base i = true)
    (h : ∀ j < n, bit w' base j = (bit w base j ^^ decide (j = i))) :
    used w' base n + 1 = used w base n := by
  refine (used_of_set hi (by rw [h i hi, hs]; simp) (fun j hj => ?_)).symm
  rw [h j hj]
  by_cases hji : j = i
  · subst hji; rw [hs]; simp
  · simp [hji]

/-! ## The search -/

/-- **The search that skips full words finds the least clear bit.** It stands at the start of a
word or in a word that is not full. -/
theorem scan_spec (n : Nat) : ∀ (fuel i : Nat), n ≤ i + fuel →
    (i % 64 = 0 ∨ w (base + i / 64) ≠ BitVec.allOnes 64) →
    match scan w base n fuel i with
    | some j => i ≤ j ∧ j < n ∧ bit w base j = false ∧ ∀ k, i ≤ k → k < j → bit w base k = true
    | none => ∀ k, i ≤ k → k < n → bit w base k = true := by
  intro fuel
  induction fuel with
  | zero => intro i hf _ k h1 h2; omega
  | succ fuel ih =>
      intro i hf hfull
      rw [scan]
      by_cases hlt : i < n
      · rw [if_pos hlt]
        by_cases hw : w (base + i / 64) = BitVec.allOnes 64
        · -- every bit of this word is set, and the search stands at its start
          have h0 : i % 64 = 0 := hfull.resolve_right (fun h => h hw)
          have hset : ∀ k, i ≤ k → k < i + 64 → bit w base k = true := by
            intro k h1 h2
            unfold bit
            rw [show k / 64 = i / 64 by omega, hw, BitVec.getLsbD_allOnes]
            simp only [decide_eq_true_eq]
            omega
          rw [if_pos hw]
          have := ih (i + 64) (by omega) (Or.inl (by omega))
          split <;> rename_i hr <;> rw [hr] at this
          · obtain ⟨h1, h2, h3, h4⟩ := this
            refine ⟨by omega, h2, h3, fun k hk hk' => ?_⟩
            rcases Nat.lt_or_ge k (i + 64) with hki | hki
            · exact hset k hk hki
            · exact h4 k hki hk'
          · intro k hk hk'
            rcases Nat.lt_or_ge k (i + 64) with hki | hki
            · exact hset k hk hki
            · exact this k hki hk'
        · rw [if_neg hw]
          by_cases hb : bit w base i = false
          · rw [if_pos hb]
            exact ⟨le_rfl, hlt, hb, fun k h1 h2 => absurd h2 (by omega)⟩
          · rw [if_neg hb]
            have hnext : (i + 1) % 64 = 0 ∨ w (base + (i + 1) / 64) ≠ BitVec.allOnes 64 := by
              by_cases h1 : (i + 1) % 64 = 0
              · exact Or.inl h1
              · exact Or.inr (by rw [show (i + 1) / 64 = i / 64 by omega]; exact hw)
            have hi : ∀ k, i ≤ k → k < i + 1 → bit w base k = true := by
              intro k h1 h2
              obtain rfl : k = i := by omega
              simpa using hb
            have := ih (i + 1) (by omega) hnext
            split <;> rename_i hr <;> rw [hr] at this
            · obtain ⟨h1, h2, h3, h4⟩ := this
              refine ⟨by omega, h2, h3, fun k hk hk' => ?_⟩
              rcases Nat.lt_or_ge k (i + 1) with hki | hki
              · exact hi k hk hki
              · exact h4 k hki hk'
            · intro k hk hk'
              rcases Nat.lt_or_ge k (i + 1) with hki | hki
              · exact hi k hk hki
              · exact this k hki hk'
      · rw [if_neg hlt]
        intro k h1 h2
        omega

/-- The search from 0 finds a clear bit if there is one. -/
theorem scan_zero {n : Nat} (h : used w base n < n) :
    ∃ j, scan w base n n 0 = some j ∧ j < n ∧ bit w base j = false ∧
      ∀ k < j, bit w base k = true := by
  have := @scan_spec w base n n 0 (by omega) (Or.inl rfl)
  split at this
  · rename_i j hj
    exact ⟨j, hj, this.2.1, this.2.2.1, fun k hk => this.2.2.2 k (Nat.zero_le k) hk⟩
  · exact absurd (used_eq_iff.mpr (fun i hi => this i (Nat.zero_le i) hi)) (by omega)

/-- The search from 0 finds the bit below which all are set. -/
theorem scan_eq_some {n j : Nat} (hj : j < n) (hc : bit w base j = false)
    (hset : ∀ k < j, bit w base k = true) : scan w base n n 0 = some j := by
  have hlt : used w base n < n := by
    refine lt_of_le_of_ne (used_le n) (fun he => ?_)
    rw [used_eq_iff.mp he j hj] at hc
    exact absurd hc (by simp)
  obtain ⟨k, hk, -, hkc, hkset⟩ := scan_zero hlt
  rcases Nat.lt_trichotomy j k with h | rfl | h
  · rw [hkset j h] at hc
    exact absurd hc (by simp)
  · exact hk
  · rw [hset k h] at hkc
    exact absurd hkc (by simp)

end Bitmap
