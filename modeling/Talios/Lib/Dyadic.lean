import Mathlib.Algebra.BigOperators.Intervals
import Mathlib.Data.Nat.Bitwise
import Mathlib.Order.Interval.Finset.Nat
import Mathlib.Tactic

set_option autoImplicit false

/-! # Dyadic blocks and their canonical decomposition

A *block* of order `k` at `p` is the interval `[p, p + 2^k)`; it is aligned when `2^k ∣ p`.
Two aligned blocks of one order `k` that together form an aligned block of order `k + 1`
are *buddies*, and `p ^^^ 2^k` is the start of the buddy of `p`.

A `Family` gives, for each order, the list of the starts of its blocks. `cover` counts the
blocks a point lies in and `weight` the points of all blocks. The two moves of a buddy system
are moves of one *held* block: `split` halves it and puts the upper half into the family,
`merge` takes its buddy out of the family. The main result, `mem_iff_maximal`, says that
a family of disjoint aligned blocks without buddies is determined by the set it covers.
-/

namespace Dyadic

/-! ## Blocks and buddies -/

/-- The point `x` lies in the block of order `k` at `p`. -/
def Mem (p k x : Nat) : Prop := p ≤ x ∧ x < p + 2 ^ k

instance (p k x : Nat) : Decidable (Mem p k x) := inferInstanceAs (Decidable (_ ∧ _))

/-- The start of the buddy of the block of order `k` at `p`. -/
def buddy (p k : Nat) : Nat := p ^^^ 2 ^ k

theorem mem_self (p k : Nat) : Mem p k p := ⟨le_rfl, Nat.lt_add_of_pos_right (Nat.two_pow_pos k)⟩

theorem mem_succ_iff (p k x : Nat) : Mem p (k + 1) x ↔ Mem p k x ∨ Mem (p + 2 ^ k) k x := by
  have h : 2 ^ (k + 1) = 2 ^ k + 2 ^ k := by rw [pow_succ]; omega
  unfold Mem
  omega

/-- The two halves of a block share no point. -/
theorem not_mem_both_halves (p k x : Nat) : ¬ (Mem p k x ∧ Mem (p + 2 ^ k) k x) := by
  unfold Mem
  omega

@[simp] theorem buddy_buddy (p k : Nat) : buddy (buddy p k) k = p := Nat.xor_xor_cancel_right p _

theorem buddy_mul (q k : Nat) : buddy (2 ^ k * q) k = 2 ^ k * (q ^^^ 1) := by
  have h := (Nat.shiftLeft_xor_distrib (i := k) (a := q) (b := 1)).symm
  rw [Nat.shiftLeft_eq, Nat.shiftLeft_eq, Nat.shiftLeft_eq, Nat.one_mul] at h
  rw [buddy, Nat.mul_comm, h, Nat.mul_comm]

/-- An aligned block is the lower or the upper half of the block it forms with its buddy. -/
theorem buddy_cases {p k : Nat} (h : 2 ^ k ∣ p) :
    (buddy p k = p + 2 ^ k ∧ 2 ^ (k + 1) ∣ p) ∨
    (p = buddy p k + 2 ^ k ∧ 2 ^ (k + 1) ∣ buddy p k) := by
  obtain ⟨q, rfl⟩ := h
  rw [buddy_mul, pow_succ]
  rcases Nat.even_or_odd q with hq | hq
  · refine Or.inl ⟨by rw [Nat.xor_one_of_even hq]; ring, ?_⟩
    exact Nat.mul_dvd_mul_left _ hq.two_dvd
  · obtain ⟨r, rfl⟩ := hq
    have hx : (2 * r + 1) ^^^ 1 = 2 * r := by
      rw [Nat.xor_one_of_odd ⟨r, rfl⟩]; omega
    rw [hx]
    exact Or.inr ⟨by ring, Nat.mul_dvd_mul_left _ ⟨r, rfl⟩⟩

theorem buddy_ne {p k : Nat} (h : 2 ^ k ∣ p) : buddy p k ≠ p := by
  have hpos := Nat.two_pow_pos k
  rcases buddy_cases h with ⟨hb, -⟩ | ⟨hb, -⟩ <;> omega

theorem buddy_add_of_dvd {p k : Nat} (h : 2 ^ (k + 1) ∣ p) : buddy p k = p + 2 ^ k := by
  obtain ⟨q, rfl⟩ := h
  have he : 2 ^ (k + 1) * q = 2 ^ k * (2 * q) := by rw [pow_succ]; ring
  rw [he, buddy_mul, Nat.xor_one_of_even ⟨q, by ring⟩]
  ring

/-- The lower half of the block that a block and its buddy form. -/
theorem min_buddy_dvd {p k : Nat} (h : 2 ^ k ∣ p) : 2 ^ (k + 1) ∣ min p (buddy p k) := by
  rcases buddy_cases h with ⟨hb, hd⟩ | ⟨hb, hd⟩
  · rwa [hb, Nat.min_eq_left (Nat.le_add_right _ _)]
  · rwa [Nat.min_eq_right (by omega)]

theorem mem_min_buddy {p k : Nat} (h : 2 ^ k ∣ p) (x : Nat) :
    Mem (min p (buddy p k)) (k + 1) x ↔ Mem p k x ∨ Mem (buddy p k) k x := by
  rcases buddy_cases h with ⟨hb, -⟩ | ⟨hb, -⟩
  · rw [hb, Nat.min_eq_left (Nat.le_add_right _ _), mem_succ_iff]
  · rw [Nat.min_eq_right (by omega), mem_succ_iff, ← hb, or_comm]

theorem not_mem_both_buddies {p k : Nat} (h : 2 ^ k ∣ p) (x : Nat) :
    ¬ (Mem p k x ∧ Mem (buddy p k) k x) := by
  rcases buddy_cases h with ⟨hb, -⟩ | ⟨hb, -⟩
  · rw [hb]; exact not_mem_both_halves p k x
  · intro hx
    rw [hb] at hx
    rw [← hb] at hx
    exact not_mem_both_halves (buddy p k) k x ⟨hx.2, hb ▸ hx.1⟩

/-- Aligned blocks are nested or disjoint: a block that meets a block of larger order lies
inside it. -/
theorem mem_of_meet {p k q j x y : Nat} (hp : 2 ^ k ∣ p) (hq : 2 ^ j ∣ q) (hkj : k ≤ j)
    (hx : Mem p k x) (hx' : Mem q j x) (hy : Mem p k y) : Mem q j y := by
  obtain ⟨a, rfl⟩ := (pow_dvd_pow 2 hkj).trans hq
  obtain ⟨b, rfl⟩ := hp
  obtain ⟨d, rfl⟩ : ∃ d, j = k + d := ⟨j - k, by omega⟩
  unfold Mem at hx hx' hy ⊢
  rw [pow_add] at hx' ⊢
  have hb : 2 ^ k * b < 2 ^ k * (a + 2 ^ d) := by rw [Nat.mul_add]; omega
  have ha : 2 ^ k * a < 2 ^ k * (b + 1) := by rw [Nat.mul_add]; omega
  have hb' : b + 1 ≤ a + 2 ^ d := Nat.lt_of_mul_lt_mul_left hb
  have ha' : a ≤ b := Nat.le_of_lt_succ (Nat.lt_of_mul_lt_mul_left ha)
  have h1 : 2 ^ k * (b + 1) ≤ 2 ^ k * (a + 2 ^ d) := Nat.mul_le_mul_left _ hb'
  have h2 : 2 ^ k * a ≤ 2 ^ k * b := Nat.mul_le_mul_left _ ha'
  rw [Nat.mul_add, Nat.mul_add] at h1
  omega

/-- Two aligned blocks of one order that share a point are equal. -/
theorem eq_of_meet {p q k x : Nat} (hp : 2 ^ k ∣ p) (hq : 2 ^ k ∣ q)
    (hx : Mem p k x) (hx' : Mem q k x) : p = q := by
  have h1 := mem_of_meet hp hq le_rfl hx hx' (mem_self p k)
  have h2 := mem_of_meet hq hp le_rfl hx' hx (mem_self q k)
  exact Nat.le_antisymm h2.1 h1.1

/-! ## Families of blocks -/

/-- The starts of the blocks of each order. -/
abbrev Family := Nat → List Nat

/-- How often the block of order `k` at `p` covers `x`. -/
def ind (p k x : Nat) : Nat := if Mem p k x then 1 else 0

/-- The number of blocks of order below `N` that `x` lies in. -/
def cover (N : Nat) (F : Family) (x : Nat) : Nat :=
  ∑ k ∈ Finset.range N, (F k).countP (fun p => decide (Mem p k x))

/-- The number of points of all blocks of order below `N`. -/
def weight (N : Nat) (F : Family) : Nat := ∑ k ∈ Finset.range N, (F k).length * 2 ^ k

/-- The family with the block of order `k` at `p` added in front. -/
def push (F : Family) (k p : Nat) : Family := Function.update F k (p :: F k)

/-- The family with the block of order `k` at `p` removed. -/
def remove (F : Family) (k p : Nat) : Family := Function.update F k ((F k).erase p)

/-- Aligned blocks inside `[lo, hi)`, no two of which are buddies of an order that could be
merged. -/
structure WF (N lo hi : Nat) (F : Family) : Prop where
  aligned : ∀ k < N, ∀ p ∈ F k, 2 ^ k ∣ p
  inside : ∀ k < N, ∀ p ∈ F k, lo ≤ p ∧ p + 2 ^ k ≤ hi
  lonely : ∀ k, k + 1 < N → ∀ p ∈ F k, buddy p k ∉ F k

theorem ind_eq_one {p k x : Nat} (h : Mem p k x) : ind p k x = 1 := if_pos h

theorem mem_zero {p x : Nat} : Mem p 0 x ↔ x = p := by
  unfold Mem
  omega

theorem ind_zero (p x : Nat) : ind p 0 x = if x = p then 1 else 0 :=
  if_congr mem_zero rfl rfl

theorem ind_split (p k x : Nat) : ind p (k + 1) x = ind p k x + ind (p + 2 ^ k) k x := by
  have h1 := mem_succ_iff p k x
  have h2 := not_mem_both_halves p k x
  unfold ind
  split_ifs <;> first | rfl | (exfalso; tauto)

theorem ind_merge {p k : Nat} (h : 2 ^ k ∣ p) (x : Nat) :
    ind (min p (buddy p k)) (k + 1) x = ind p k x + ind (buddy p k) k x := by
  have h1 := mem_min_buddy h x
  have h2 := not_mem_both_buddies h x
  unfold ind
  split_ifs <;> first | rfl | (exfalso; tauto)

/-- Replacing one member of a family changes a sum over it in one place. -/
theorem sum_range_update {α : Type} {N k : Nat} (hk : k < N) (f : Nat → α → Nat) (F : Nat → α)
    (a : α) : ∑ j ∈ Finset.range N, f j (Function.update F k a j) + f k (F k)
      = ∑ j ∈ Finset.range N, f j (F j) + f k a := by
  have hmem : k ∈ Finset.range N := Finset.mem_range.mpr hk
  rw [← Finset.add_sum_erase _ _ hmem, ← Finset.add_sum_erase _ (fun j => f j (F j)) hmem,
    Function.update_self]
  have hrest : ∑ j ∈ (Finset.range N).erase k, f j (Function.update F k a j)
      = ∑ j ∈ (Finset.range N).erase k, f j (F j) := by
    refine Finset.sum_congr rfl (fun j hj => ?_)
    rw [Function.update_of_ne (Finset.ne_of_mem_erase hj)]
  rw [hrest]
  omega

theorem cover_update {N k : Nat} (hk : k < N) (F : Family) (l : List Nat) (x : Nat) :
    cover N (Function.update F k l) x + (F k).countP (fun p => decide (Mem p k x))
      = cover N F x + l.countP (fun p => decide (Mem p k x)) :=
  sum_range_update hk (fun j l => l.countP (fun p => decide (Mem p j x))) F l

theorem weight_update {N k : Nat} (hk : k < N) (F : Family) (l : List Nat) :
    weight N (Function.update F k l) + (F k).length * 2 ^ k
      = weight N F + l.length * 2 ^ k :=
  sum_range_update hk (fun j l => l.length * 2 ^ j) F l

theorem cover_push {N k : Nat} (hk : k < N) (F : Family) (p x : Nat) :
    cover N (push F k p) x = cover N F x + ind p k x := by
  have h := cover_update hk F (p :: F k) x
  rw [List.countP_cons] at h
  unfold push ind
  by_cases hm : Mem p k x <;> simp [hm] at h ⊢ <;> omega

theorem cover_remove {N k : Nat} (hk : k < N) {F : Family} {p : Nat} (hp : p ∈ F k) (x : Nat) :
    cover N (remove F k p) x + ind p k x = cover N F x := by
  have h := cover_update hk F ((F k).erase p) x
  have hperm := (List.perm_cons_erase hp).countP_eq (fun p => decide (Mem p k x))
  rw [List.countP_cons] at hperm
  unfold remove ind
  by_cases hm : Mem p k x <;> simp [hm] at h hperm ⊢ <;> omega

theorem weight_push {N k : Nat} (hk : k < N) (F : Family) (p : Nat) :
    weight N (push F k p) = weight N F + 2 ^ k := by
  have h := weight_update hk F (p :: F k)
  rw [List.length_cons, Nat.add_mul] at h
  unfold push
  omega

theorem weight_remove {N k : Nat} (hk : k < N) {F : Family} {p : Nat} (hp : p ∈ F k) :
    weight N (remove F k p) + 2 ^ k = weight N F := by
  have h := weight_update hk F ((F k).erase p)
  have hlen : (F k).length = ((F k).erase p).length + 1 := by
    rw [(List.perm_cons_erase hp).length_eq, List.length_cons]
  rw [hlen, Nat.add_mul] at h
  unfold remove
  omega

/-- A block of the family covers its points. -/
theorem ind_le_cover {N k : Nat} (hk : k < N) {F : Family} {p : Nat} (hp : p ∈ F k) (x : Nat) :
    ind p k x ≤ cover N F x := by
  have h := cover_remove hk hp x
  omega

theorem cover_pos_iff {N : Nat} {F : Family} {x : Nat} :
    0 < cover N F x ↔ ∃ k < N, ∃ p ∈ F k, Mem p k x := by
  unfold cover
  constructor
  · intro h
    obtain ⟨k, hk, hpos⟩ := Finset.sum_pos_iff.mp h
    obtain ⟨p, hp, hm⟩ := List.countP_pos_iff.mp hpos
    exact ⟨k, Finset.mem_range.mp hk, p, hp, by simpa using hm⟩
  · rintro ⟨k, hk, p, hp, hm⟩
    refine Finset.sum_pos_iff.mpr ⟨k, Finset.mem_range.mpr hk, ?_⟩
    exact List.countP_pos_iff.mpr ⟨p, hp, by simpa using hm⟩

/-- Two blocks of a family that covers no point twice, sharing a point, are the same block. -/
theorem eq_of_cover_le_one {N : Nat} {F : Family} {x : Nat} (hc : cover N F x ≤ 1)
    {k j p q : Nat} (hk : k < N) (hj : j < N) (hp : p ∈ F k) (hq : q ∈ F j)
    (hx : Mem p k x) (hx' : Mem q j x) : p = q ∧ k = j := by
  by_contra hne
  have h1 := cover_remove hk hp x
  rw [ind_eq_one hx] at h1
  have hq' : q ∈ remove F k p j := by
    unfold remove
    by_cases hjk : j = k
    · subst hjk
      rw [Function.update_self]
      exact (List.mem_erase_of_ne (fun h => hne ⟨h.symm, rfl⟩)).mpr hq
    · rwa [Function.update_of_ne hjk]
  have h2 := ind_le_cover hj hq' x
  rw [ind_eq_one hx'] at h2
  omega

/-- A family that covers no point twice lists no block twice. -/
theorem nodup_of_cover_le_one {N : Nat} {F : Family} (hc : ∀ x, cover N F x ≤ 1)
    {k : Nat} (hk : k < N) : (F k).Nodup := by
  rw [List.nodup_iff_count_le_one]
  intro p
  by_contra hlt
  have h1 : (F k).count p ≤ (F k).countP (fun q => decide (Mem q k p)) := by
    refine List.countP_mono_left (fun q _ hq => ?_)
    have : q = p := by simpa using hq
    simpa [this] using mem_self p k
  have h2 : (F k).countP (fun q => decide (Mem q k p)) ≤ cover N F p :=
    Finset.single_le_sum (f := fun k => (F k).countP (fun q => decide (Mem q k p)))
      (fun _ _ => Nat.zero_le _) (Finset.mem_range.mpr hk)
  have h3 := hc p
  omega

/-! ## Moves of a held block -/

section Moves

variable {N lo hi : Nat} {F : Family} {p k : Nat}

theorem WF.remove (h : WF N lo hi F) (p k : Nat) : WF N lo hi (remove F k p) := by
  have hsub : ∀ j q, q ∈ Dyadic.remove F k p j → q ∈ F j := by
    intro j q hq
    unfold Dyadic.remove at hq
    by_cases hjk : j = k
    · subst hjk
      rw [Function.update_self] at hq
      exact List.mem_of_mem_erase hq
    · rwa [Function.update_of_ne hjk] at hq
  exact ⟨fun j hj q hq => h.aligned j hj q (hsub j q hq),
    fun j hj q hq => h.inside j hj q (hsub j q hq),
    fun j hj q hq hb => h.lonely j hj q (hsub j q hq) (hsub j _ hb)⟩

/-- Adding a block whose buddy is not in the family. -/
theorem WF.push (h : WF N lo hi F) (ha : 2 ^ k ∣ p) (hlo : lo ≤ p) (hhi : p + 2 ^ k ≤ hi)
    (hb : k + 1 < N → buddy p k ∉ F k) : WF N lo hi (push F k p) := by
  have hmem : ∀ j q, q ∈ Dyadic.push F k p j → (j = k ∧ q = p) ∨ q ∈ F j := by
    intro j q hq
    unfold Dyadic.push at hq
    by_cases hjk : j = k
    · subst hjk
      rw [Function.update_self] at hq
      rcases List.mem_cons.mp hq with rfl | hq
      · exact Or.inl ⟨rfl, rfl⟩
      · exact Or.inr hq
    · rw [Function.update_of_ne hjk] at hq
      exact Or.inr hq
  refine ⟨fun j hj q hq => ?_, fun j hj q hq => ?_, fun j hj q hq hq' => ?_⟩
  · rcases hmem j q hq with ⟨rfl, rfl⟩ | hq
    · exact ha
    · exact h.aligned j hj q hq
  · rcases hmem j q hq with ⟨rfl, rfl⟩ | hq
    · exact ⟨hlo, hhi⟩
    · exact h.inside j hj q hq
  · rcases hmem j q hq with ⟨rfl, rfl⟩ | hq
    · rcases hmem j _ hq' with ⟨-, he⟩ | hq'
      · exact buddy_ne ha he
      · exact hb hj hq'
    · rcases hmem j _ hq' with ⟨rfl, he⟩ | hq'
      · refine hb hj ?_
        rwa [← he, buddy_buddy]
      · exact h.lonely j hj q hq hq'

/-- A block outside what the family covers is not in the family. -/
theorem not_mem_of_cover_zero (hk : k < N) (h : cover N F p = 0) : p ∉ F k := by
  intro hp
  have := ind_le_cover hk hp p
  rw [ind_eq_one (mem_self p k)] at this
  omega

/-- **Split.** The held block of order `k + 1` at `p` becomes the one of order `k` at `p`; its
upper half goes into the family. -/
theorem WF.split (h : WF N lo hi F) (hk : k < N) (ha : 2 ^ (k + 1) ∣ p) (hlo : lo ≤ p)
    (hhi : p + 2 ^ (k + 1) ≤ hi) (hc : ∀ x, cover N F x + ind p (k + 1) x ≤ 1) :
    WF N lo hi (Dyadic.push F k (p + 2 ^ k)) := by
  have hp : 2 ^ (k + 1) = 2 ^ k + 2 ^ k := by rw [pow_succ]; omega
  refine h.push ?_ (by omega) (by omega) (fun _ => ?_)
  · exact (Nat.dvd_add_right ((pow_dvd_pow 2 (Nat.le_succ k)).trans ha)).mpr dvd_rfl
  · rw [← buddy_add_of_dvd ha, buddy_buddy]
    refine not_mem_of_cover_zero hk ?_
    have := hc p
    rw [ind_eq_one (mem_self p (k + 1))] at this
    omega

theorem cover_split (hk : k < N) (x : Nat) :
    cover N (Dyadic.push F k (p + 2 ^ k)) x + ind p k x = cover N F x + ind p (k + 1) x := by
  rw [cover_push hk, ind_split]
  omega

/-- **Merge.** The held block of order `k` at `p` takes its buddy out of the family. -/
theorem cover_merge (hk : k < N) (ha : 2 ^ k ∣ p) (hb : buddy p k ∈ F k) (x : Nat) :
    cover N (Dyadic.remove F k (buddy p k)) x + ind (min p (buddy p k)) (k + 1) x
      = cover N F x + ind p k x := by
  have h := cover_remove hk hb x
  rw [ind_merge ha]
  omega

end Moves

/-! ## The canonical decomposition -/

/-- The block of order `k` at `p` is a maximal aligned block of order below `N` inside `S`. -/
def Maximal (N : Nat) (S : Nat → Prop) (p k : Nat) : Prop :=
  k < N ∧ 2 ^ k ∣ p ∧ (∀ x, Mem p k x → S x) ∧
  ∀ q j, j < N → 2 ^ j ∣ q → (∀ x, Mem q j x → S x) → (∀ x, Mem p k x → Mem q j x) →
    q = p ∧ j = k

section Canonical

variable {N lo hi : Nat} {F : Family}

/-- Every aligned block of covered points lies inside one block of the family. -/
theorem exists_containing (h : WF N lo hi F) :
    ∀ (k p : Nat), k < N → 2 ^ k ∣ p → (∀ x, Mem p k x → 0 < cover N F x) →
      ∃ j < N, ∃ q ∈ F j, k ≤ j ∧ ∀ x, Mem p k x → Mem q j x := by
  intro k
  induction k with
  | zero =>
      intro p _ _ hS
      obtain ⟨j, hj, q, hq, hm⟩ := cover_pos_iff.mp (hS p (mem_self p 0))
      refine ⟨j, hj, q, hq, Nat.zero_le j, fun x hx => ?_⟩
      exact mem_of_meet (one_dvd p) (h.aligned j hj q hq) (Nat.zero_le j) (mem_self p 0) hm hx
  | succ k ih =>
      intro p hk ha hS
      have hd : 2 ^ k ∣ p := (pow_dvd_pow 2 (Nat.le_succ k)).trans ha
      have hd' : 2 ^ k ∣ p + 2 ^ k := (Nat.dvd_add_right hd).mpr dvd_rfl
      have hlow : ∀ x, Mem p k x → Mem p (k + 1) x := fun x hx => (mem_succ_iff p k x).mpr (.inl hx)
      have hup : ∀ x, Mem (p + 2 ^ k) k x → Mem p (k + 1) x :=
        fun x hx => (mem_succ_iff p k x).mpr (.inr hx)
      obtain ⟨j, hj, q, hq, hkj, hsub⟩ := ih p (by omega) hd (fun x hx => hS x (hlow x hx))
      obtain ⟨i, hi', r, hr, hki, hsub'⟩ :=
        ih (p + 2 ^ k) (by omega) hd' (fun x hx => hS x (hup x hx))
      -- a half inside a block of larger order drags the other half in
      rcases Nat.lt_or_ge k j with hlt | hge
      · refine ⟨j, hj, q, hq, hlt, fun x hx => ?_⟩
        exact mem_of_meet ha (h.aligned j hj q hq) hlt (hlow p (mem_self p k))
          (hsub p (mem_self p k)) hx
      rcases Nat.lt_or_ge k i with hlt | hge'
      · refine ⟨i, hi', r, hr, hlt, fun x hx => ?_⟩
        exact mem_of_meet ha (h.aligned i hi' r hr) hlt (hup _ (mem_self _ k))
          (hsub' _ (mem_self _ k)) hx
      -- otherwise the halves themselves are in the family, and they are buddies
      obtain rfl : j = k := by omega
      obtain rfl : i = j := by omega
      have hqp : p = q := eq_of_meet hd (h.aligned i hj q hq) (mem_self p i) (hsub p (mem_self p i))
      have hrp : p + 2 ^ i = r :=
        eq_of_meet hd' (h.aligned i hj r hr) (mem_self _ i) (hsub' _ (mem_self _ i))
      refine absurd ?_ (h.lonely i hk q hq)
      rwa [← hqp, buddy_add_of_dvd ha, hrp]

/-- **The canonical decomposition.** A family of disjoint aligned blocks without buddies
consists of the maximal aligned blocks of the set it covers. -/
theorem mem_iff_maximal (h : WF N lo hi F) (hc : ∀ x, cover N F x ≤ 1) (p k : Nat) :
    (k < N ∧ p ∈ F k) ↔ Maximal N (fun x => 0 < cover N F x) p k := by
  constructor
  · rintro ⟨hk, hp⟩
    refine ⟨hk, h.aligned k hk p hp, fun x hx => cover_pos_iff.mpr ⟨k, hk, p, hp, hx⟩, ?_⟩
    intro q j hj hq hS hsub
    obtain ⟨i, hi', r, hr, -, hin⟩ := exists_containing h j q hj hq hS
    -- the block that contains the larger block meets `p`, so it is `p` itself
    have hself := hsub p (mem_self p k)
    obtain ⟨rfl, rfl⟩ := eq_of_cover_le_one (hc p) hk hi' hp hr (mem_self p k) (hin p hself)
    have hpq : p ≤ q := (hin q (mem_self q j)).1
    have hlast := hin (q + 2 ^ j - 1) ⟨by have := Nat.two_pow_pos j; omega,
      by have := Nat.two_pow_pos j; omega⟩
    have hlast' := hsub (p + 2 ^ k - 1) ⟨by have := Nat.two_pow_pos k; omega,
      by have := Nat.two_pow_pos k; omega⟩
    have hpos := Nat.two_pow_pos k
    have hpos' := Nat.two_pow_pos j
    unfold Mem at hself hlast hlast'
    have hqe : q = p := by omega
    have hpow : 2 ^ j = 2 ^ k := by omega
    exact ⟨hqe, Nat.pow_right_injective le_rfl hpow⟩
  · rintro ⟨hk, ha, hS, hmax⟩
    obtain ⟨j, hj, q, hq, -, hsub⟩ := exists_containing h k p hk ha hS
    obtain ⟨rfl, rfl⟩ := hmax q j hj (h.aligned j hj q hq)
      (fun x hx => cover_pos_iff.mpr ⟨j, hj, q, hq, hx⟩) hsub
    exact ⟨hk, hq⟩

end Canonical

/-! ## Counting the covered points -/

theorem sum_ind {lo hi p k : Nat} (hlo : lo ≤ p) (hhi : p + 2 ^ k ≤ hi) :
    ∑ x ∈ Finset.Ico lo hi, ind p k x = 2 ^ k := by
  unfold ind
  rw [Finset.sum_boole]
  have : (Finset.Ico lo hi).filter (Mem p k) = Finset.Ico p (p + 2 ^ k) := by
    ext x
    simp only [Finset.mem_filter, Finset.mem_Ico, Mem]
    omega
  rw [this, Nat.card_Ico]
  simp

/-- The points of all blocks, counted point by point. -/
theorem weight_eq_sum_cover {N lo hi : Nat} {F : Family}
    (h : ∀ k < N, ∀ p ∈ F k, lo ≤ p ∧ p + 2 ^ k ≤ hi) :
    weight N F = ∑ x ∈ Finset.Ico lo hi, cover N F x := by
  unfold weight cover
  rw [Finset.sum_comm]
  refine Finset.sum_congr rfl (fun k hk => ?_)
  have hF := h k (Finset.mem_range.mp hk)
  generalize F k = l at hF
  induction l with
  | nil => simp
  | cons p l ih =>
      have hp := hF p (by simp)
      have hcons : ∀ x, (p :: l).countP (fun q => decide (Mem q k x))
          = l.countP (fun q => decide (Mem q k x)) + ind p k x := by
        intro x
        rw [List.countP_cons]
        unfold ind
        by_cases hm : Mem p k x <;> simp [hm]
      rw [Finset.sum_congr rfl (fun x _ => hcons x), Finset.sum_add_distrib,
        ← ih (fun q hq => hF q (by simp [hq])), sum_ind hp.1 hp.2, List.length_cons, Nat.add_mul]
      omega

end Dyadic
