import Talios.Memory.Buddy

set_option autoImplicit false

/-! # Splitting and merging keep the free areas in order

The free areas of a zone are in order (`Areas`) when their blocks are aligned, inside the zone
and not mergeable, and `nr_free` counts each list. Both loops of the allocator move one block
that is on no list (`Held`): `splitBuddy` halves it, `mergeLoop` joins it with its buddies.
Either way the points covered by the lists and the held block together stay the same.
-/

namespace Talios

open Word Dyadic

/-! ## The free areas of a zone -/

@[simp] theorem family_update (fa : FreeAreas) (k : Nat) (a : FreeArea) :
    FreeAreas.family (Function.update fa k a) = Function.update fa.family k a.freeList := by
  funext j
  by_cases h : j = k
  · subst h; simp [FreeAreas.family]
  · simp [FreeAreas.family, h]

@[simp] theorem family_pushFree (fa : FreeAreas) (k p : Nat) :
    (fa.pushFree k p).family = push fa.family k p := family_update ..

@[simp] theorem family_removeFree (fa : FreeAreas) (k p : Nat) :
    (fa.removeFree k p).family = remove fa.family k p := family_update ..

/-- The free areas of a zone with page frames `[lo, hi)` are in order. -/
structure Areas (lo hi : Nat) (fa : FreeAreas) : Prop where
  wf : WF MAX_ORDER lo hi fa.family
  nrFree : ∀ k < MAX_ORDER, (fa k).nrFree = (fa k).freeList.length
  bound : weight MAX_ORDER fa.family < 2 ^ 63

/-- A block of order `k` at `p`, on no list, in a zone with page frames `[lo, hi)`. -/
structure Held (lo hi : Nat) (fa : FreeAreas) (p k : Nat) : Prop where
  order : k < MAX_ORDER
  aligned : 2 ^ k ∣ p
  lower : lo ≤ p
  upper : p + 2 ^ k ≤ hi
  cover : ∀ x, cover MAX_ORDER fa.family x + ind p k x ≤ 1
  bound : weight MAX_ORDER fa.family + 2 ^ k < 2 ^ 63

section

variable {lo hi : Nat} {fa : FreeAreas} {p k : Nat}

theorem length_le_weight (F : Family) {N k : Nat} (hk : k < N) : (F k).length ≤ weight N F :=
  calc (F k).length ≤ (F k).length * 2 ^ k := Nat.le_mul_of_pos_right _ (Nat.two_pow_pos k)
    _ ≤ weight N F := Finset.single_le_sum (f := fun k => (F k).length * 2 ^ k)
        (fun _ _ => Nat.zero_le _) (Finset.mem_range.mpr hk)

theorem Areas.nrFree_lt (h : Areas lo hi fa) (hk : k < MAX_ORDER) :
    (fa k).nrFree < 2 ^ 63 := by
  rw [h.nrFree k hk]
  exact lt_of_le_of_lt (length_le_weight fa.family hk) h.bound

theorem Areas.pushFree (h : Areas lo hi fa) (hp : Held lo hi fa p k)
    (hb : k + 1 < MAX_ORDER → buddy p k ∉ fa.family k) : Areas lo hi (fa.pushFree k p) := by
  refine ⟨?_, fun j hj => ?_, ?_⟩
  · rw [family_pushFree]
    exact h.wf.push hp.aligned hp.lower hp.upper hb
  · by_cases hjk : j = k
    · subst hjk
      have hlt := h.nrFree_lt hj
      simp only [FreeAreas.pushFree, Function.update_self, List.length_cons]
      rw [add64_eq (by omega), h.nrFree j hj]
    · simpa [FreeAreas.pushFree, hjk] using h.nrFree j hj
  · rw [family_pushFree, weight_push hp.order]
    exact hp.bound

theorem Areas.removeFree (h : Areas lo hi fa) (hk : k < MAX_ORDER) (hp : p ∈ fa.family k) :
    Areas lo hi (fa.removeFree k p) := by
  refine ⟨?_, fun j hj => ?_, ?_⟩
  · rw [family_removeFree]
    exact h.wf.remove p k
  · by_cases hjk : j = k
    · subst hjk
      have hp' : p ∈ (fa j).freeList := hp
      have hpos : 0 < (fa j).freeList.length := List.length_pos_of_mem hp'
      have hlt := h.nrFree_lt hj
      simp only [FreeAreas.removeFree, Function.update_self]
      rw [List.length_erase_of_mem hp', sub64_eq (by rw [h.nrFree j hj]; omega) (by omega),
        h.nrFree j hj]
    · simpa [FreeAreas.removeFree, hjk] using h.nrFree j hj
  · have := weight_remove hk hp
    rw [family_removeFree]
    exact lt_of_le_of_lt (Nat.le.intro this) h.bound

/-- Taking a block off its list. -/
theorem Areas.held_of_mem (h : Areas lo hi fa) (hc : ∀ x, Dyadic.cover MAX_ORDER fa.family x ≤ 1)
    (hk : k < MAX_ORDER) (hp : p ∈ fa.family k) : Held lo hi (fa.removeFree k p) p k := by
  refine ⟨hk, h.wf.aligned k hk p hp, (h.wf.inside k hk p hp).1, (h.wf.inside k hk p hp).2,
    fun x => ?_, ?_⟩
  · rw [family_removeFree, cover_remove hk hp x]
    exact hc x
  · rw [family_removeFree, weight_remove hk hp]
    exact h.bound

/-! ## Splitting -/

/-- **The split loop.** Started with the block `p` at the front of list `ob`, it leaves `p` at
the front of list `order`; without `p`, the areas are in order before and after. -/
theorem splitBuddy_spec {order : Nat} :
    ∀ (ob : Nat) (fa : FreeAreas) (p : Nat), order ≤ ob →
      (fa ob).freeList.head? = some p →
      Areas lo hi (fa.removeFree ob p) → Held lo hi (fa.removeFree ob p) p ob →
      ∃ fa', splitBuddy order ob fa = some fa' ∧
        (fa' order).freeList.head? = some p ∧
        Areas lo hi (fa'.removeFree order p) ∧ Held lo hi (fa'.removeFree order p) p order ∧
        (∀ x, cover MAX_ORDER (fa'.removeFree order p).family x + ind p order x
          = cover MAX_ORDER (fa.removeFree ob p).family x + ind p ob x) ∧
        weight MAX_ORDER (fa'.removeFree order p).family + 2 ^ order
          = weight MAX_ORDER (fa.removeFree ob p).family + 2 ^ ob := by
  intro ob
  induction ob with
  | zero =>
      intro fa p hle hhead ha hh
      obtain rfl : order = 0 := by omega
      exact ⟨fa, rfl, hhead, ha, hh, fun _ => rfl, rfl⟩
  | succ ob ih =>
      intro fa p hle hhead ha hh
      by_cases hlt : order < ob + 1
      · obtain ⟨rest, hlist⟩ : ∃ rest, (fa (ob + 1)).freeList = p :: rest := by
          cases hl : (fa (ob + 1)).freeList with
          | nil => simp [hl] at hhead
          | cons q t => simp [hl] at hhead; exact ⟨t, by rw [hhead]⟩
        set fa₁ := fa.removeFree (ob + 1) p with hfa₁
        set fa₂ : FreeAreas := Function.update fa₁ ob
          ⟨p :: (p + 2 ^ ob) :: (fa₁ ob).freeList, add64 (fa₁ ob).nrFree 2⟩ with hfa₂
        have hob : ob < MAX_ORDER := Nat.lt_of_succ_lt hh.order
        have hpow : 2 ^ (ob + 1) = 2 ^ ob + 2 ^ ob := by rw [pow_succ]; omega
        have hpos : 0 < 2 ^ ob := Nat.two_pow_pos ob
        -- popping `p` again leaves just its upper half added
        have hpop : fa₂.removeFree ob p = fa₁.pushFree ob (p + 2 ^ ob) := by
          have h64 : sub64 (add64 (fa₁ ob).nrFree 2) 1 = add64 (fa₁ ob).nrFree 1 := by
            unfold sub64 add64; omega
          simp [hfa₂, FreeAreas.removeFree, FreeAreas.pushFree, h64]
        have hhalf : Held lo hi fa₁ (p + 2 ^ ob) ob := by
          refine ⟨hob, ?_, by have := hh.lower; omega, by have := hh.upper; omega,
            fun x => ?_, by have := hh.bound; omega⟩
          · have hd : 2 ^ ob ∣ p := (pow_dvd_pow 2 (Nat.le_succ ob)).trans hh.aligned
            exact (Nat.dvd_add_right hd).mpr dvd_rfl
          · have := hh.cover x
            rw [ind_split] at this
            omega
        have ha₂ : Areas lo hi (fa₂.removeFree ob p) := by
          rw [hpop]
          refine ⟨?_, (ha.pushFree hhalf ?_).nrFree, (ha.pushFree hhalf ?_).bound⟩
          · rw [family_pushFree]
            exact ha.wf.split hob hh.aligned hh.lower hh.upper hh.cover
          all_goals
            intro _
            rw [← buddy_add_of_dvd hh.aligned, buddy_buddy]
            refine not_mem_of_cover_zero hob ?_
            have := hh.cover p
            rw [ind_eq_one (mem_self p (ob + 1))] at this
            omega
        have hcov : ∀ x, cover MAX_ORDER (fa₂.removeFree ob p).family x + ind p ob x
            = cover MAX_ORDER fa₁.family x + ind p (ob + 1) x := by
          intro x
          rw [hpop, family_pushFree]
          exact cover_split hob x
        have hwt : weight MAX_ORDER (fa₂.removeFree ob p).family + 2 ^ ob
            = weight MAX_ORDER fa₁.family + 2 ^ (ob + 1) := by
          rw [hpop, family_pushFree, weight_push hob]
          omega
        have hh₂ : Held lo hi (fa₂.removeFree ob p) p ob := by
          refine ⟨hob, (pow_dvd_pow 2 (Nat.le_succ ob)).trans hh.aligned, hh.lower,
            by have := hh.upper; omega, fun x => ?_, ?_⟩
          · rw [hcov x]; exact hh.cover x
          · rw [hwt]; exact hh.bound
        have hhead₂ : (fa₂ ob).freeList.head? = some p := by
          simp [hfa₂]
        obtain ⟨fa', he, hhd, ha', hh', hc', hw'⟩ := ih fa₂ p (by omega) hhead₂ ha₂ hh₂
        refine ⟨fa', ?_, hhd, ha', hh', fun x => ?_, ?_⟩
        · rw [splitBuddy, if_pos hlt, hlist]
          exact he
        · rw [hc' x, hcov x]
        · rw [hw', hwt]
      · obtain rfl : order = ob + 1 := by omega
        refine ⟨fa, ?_, hhead, ha, hh, fun _ => rfl, rfl⟩
        rw [splitBuddy, if_neg hlt]

/-! ## Merging -/

/-- **The merge loop.** It joins the held block with its free buddies until the buddy of the
block it holds is not free. -/
theorem mergeLoop_spec :
    ∀ (fuel : Nat) (p k : Nat) (fa : FreeAreas), k + fuel = MAX_ORDER - 1 →
      Areas lo hi fa → Held lo hi fa p k →
      ∀ fa' p' k', mergeLoop lo hi fuel p k fa = (fa', p', k') →
         Areas lo hi fa' ∧ Held lo hi fa' p' k' ∧
        (k' + 1 < MAX_ORDER → buddy p' k' ∉ fa'.family k') ∧
        (∀ x, cover MAX_ORDER fa'.family x + ind p' k' x = cover MAX_ORDER fa.family x + ind p k x) ∧
        weight MAX_ORDER fa'.family + 2 ^ k' = weight MAX_ORDER fa.family + 2 ^ k := by
  intro fuel
  induction fuel with
  | zero =>
      intro p k fa hk ha hh fa' p' k' he
      simp only [mergeLoop, Prod.mk.injEq] at he
      obtain ⟨rfl, rfl, rfl⟩ := he
      refine ⟨ha, hh, fun h => ?_, fun _ => rfl, rfl⟩
      unfold MAX_ORDER at hk h; omega
  | succ fuel ih =>
      intro p k fa hk ha hh fa' p' k' he
      have hbuddy : p ^^^ 2 ^ k = buddy p k := rfl
      simp only [mergeLoop, hbuddy] at he
      by_cases hout : buddy p k < lo ∨ hi ≤ buddy p k
      · -- a buddy outside the zone is on no list
        rw [if_pos hout] at he
        simp only [Prod.mk.injEq] at he
        obtain ⟨rfl, rfl, rfl⟩ := he
        refine ⟨ha, hh, fun _ hm => ?_, fun _ => rfl, rfl⟩
        have hin := ha.wf.inside k hh.order _ hm
        have := Nat.two_pow_pos k
        omega
      rw [if_neg hout] at he
      by_cases hm : buddy p k ∈ (fa k).freeList
      · rw [if_pos hm] at he
        have hmem : buddy p k ∈ fa.family k := hm
        have hmin : (if buddy p k < p then buddy p k else p) = min p (buddy p k) := by
          split <;> omega
        rw [hmin] at he
        have hpow : 2 ^ (k + 1) = 2 ^ k + 2 ^ k := by rw [pow_succ]; omega
        have hpos : 0 < 2 ^ k := Nat.two_pow_pos k
        have hin := ha.wf.inside k hh.order _ hmem
        have hwt := weight_remove (N := MAX_ORDER) hh.order hmem
        have hcov : ∀ x, cover MAX_ORDER (fa.removeFree k (buddy p k)).family x
            + ind (min p (buddy p k)) (k + 1) x = cover MAX_ORDER fa.family x + ind p k x := by
          intro x
          rw [family_removeFree]
          exact cover_merge hh.order hh.aligned hmem x
        have hh' : Held lo hi (fa.removeFree k (buddy p k)) (min p (buddy p k)) (k + 1) := by
          refine ⟨by unfold MAX_ORDER at hk ⊢; omega, min_buddy_dvd hh.aligned, ?_, ?_,
            fun x => ?_, ?_⟩
          · exact Nat.le_min.mpr ⟨hh.lower, hin.1⟩
          · rcases buddy_cases hh.aligned with ⟨hb, -⟩ | ⟨hb, -⟩
            · rw [Nat.min_eq_left (by omega)]; omega
            · have := hh.upper
              rw [Nat.min_eq_right (by omega)]; omega
          · rw [hcov x]; exact hh.cover x
          · have := hh.bound
            rw [family_removeFree]; omega
        obtain ⟨ha', hh'', hl, hc, hw⟩ := ih _ _ _ (by omega)
          (ha.removeFree hh.order hmem) hh' fa' p' k' he
        refine ⟨ha', hh'', hl, fun x => ?_, ?_⟩
        · rw [hc x, hcov x]
        · rw [hw, family_removeFree]; omega
      · rw [if_neg hm] at he
        simp only [Prod.mk.injEq] at he
        obtain ⟨rfl, rfl, rfl⟩ := he
        exact ⟨ha, hh, fun _ => hm, fun _ => rfl, rfl⟩

/-- Freeing a held block: merge it as far as possible and put the result on its list. -/
theorem merge_pushFree_spec (hk : k < MAX_ORDER) (ha : Areas lo hi fa) (hh : Held lo hi fa p k)
    {fa' : FreeAreas} {r : FreeAreas × Nat × Nat}
    (hr : mergeLoop lo hi (MAX_ORDER - 1 - k) p k fa = r) (hfa' : r.1.pushFree r.2.2 r.2.1 = fa') :
    Areas lo hi fa' ∧
    (∀ x, cover MAX_ORDER fa'.family x = cover MAX_ORDER fa.family x + ind p k x) ∧
    weight MAX_ORDER fa'.family = weight MAX_ORDER fa.family + 2 ^ k := by
  obtain ⟨fa₁, p₁, k₁⟩ := r
  obtain ⟨ha₁, hh₁, hl, hc, hw⟩ := mergeLoop_spec _ p k fa
    (by unfold MAX_ORDER at hk ⊢; omega) ha hh fa₁ p₁ k₁ hr
  subst hfa'
  refine ⟨ha₁.pushFree hh₁ hl, fun x => ?_, ?_⟩
  · rw [family_pushFree, cover_push hh₁.order, hc x]
  · rw [family_pushFree, weight_push hh₁.order, hw]

end

end Talios
