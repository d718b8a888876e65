import Talios.Mm.PageFault

set_option autoImplicit false

/-! # Ranges of user pages

`MapUserRange4K` on the tables: a loop that takes a frame for each page, clears and maps it, and a
second loop that takes everything back when one of the pages cannot be had. The tables a page
misses are counted over the whole range, as pages next to each other share them (`rangeMissing`).
-/

namespace Talios

open Word Bitmap Dyadic Radix

/-! ## The code -/

/-- A page of the range: whether it has been mapped. -/
def KMem.mapRangePage (s : KMem) (pgd vaddr : Nat) : Option (KMem × Bool) :=
  match allocPage4K s.mms ZONE_NORMAL_INDEX 1 PG_PTABLE_MAPPED with
  | none => none
  | some (mms, none) => some ({ s with mms := mms }, false)
  | some (mms, some page) =>
      let s₁ := { s with mms := mms }.clear (phyToVirt (mms.page page).phyAddr) PAGE_4K_SIZE
      match Talios.mapPage4K s₁ pgd vaddr (some page) PEA_USER_PAGE with
      | none => none
      | some (s₂, r) => if r ≠ 0 then (s₂.freePage4K page).map (·, false) else some (s₂, true)

/-- The loop of `MapUserRange4K` over `n` pages: the address at which it fails, if it does. -/
def KMem.mapRange (pgd : Nat) : Nat → Nat → KMem → Option (KMem × Option Nat)
  | 0, _, s => some (s, none)
  | n + 1, vaddr, s =>
      match s.mapRangePage pgd vaddr with
      | none => none
      | some (s₁, false) => some (s₁, some vaddr)
      | some (s₁, true) => KMem.mapRange pgd n (vaddr + PAGE_4K_SIZE) s₁

/-- The loop after a failure, over the `n` pages from `first` on, the last one first. -/
def KMem.unmapRange (pgd first : Nat) : Nat → KMem → Option KMem
  | 0, s => some s
  | n + 1, s =>
      match Talios.unmapPage4K s pgd (first + n * PAGE_4K_SIZE) with
      | none => none
      | some (s₁, none) => KMem.unmapRange pgd first n s₁
      | some (s₁, some page) =>
          match s₁.freePage4K page with
          | none => none
          | some s₂ => KMem.unmapRange pgd first n s₂

/-- `MapUserRange4K`. -/
def KMem.mapUserRange4K (s : KMem) (pgd start size : Nat) : Option (KMem × Int) :=
  let first := alignDown PAGE_4K_SIZE start
  let last := alignUp64 PAGE_4K_SIZE (add64 start size)
  match KMem.mapRange pgd ((last - first) / PAGE_4K_SIZE) first s with
  | none => none
  | some (s₁, none) => some (s₁, 0)
  | some (s₁, some vaddr) =>
      (KMem.unmapRange pgd first ((vaddr - first) / PAGE_4K_SIZE) s₁).map (·, -(ENOMEM : Int))

/-! ## The tables of a range -/

/-- The nodes with `d` levels below them that the walks to `n` pages from `first` on miss. -/
def missingNodes (w : Memory) (pgd first n d : Nat) : Finset Nat :=
  ((Finset.range n).image (fun i => nodeNumber (first + i * PAGE_4K_SIZE) d)).filter
    (fun k => userTables.node w (userRoot pgd) (3 - d) k = none)

/-- The number of tables that `n` pages from `first` on miss. -/
def rangeMissing (w : Memory) (pgd first n : Nat) : Nat :=
  ∑ d ∈ Finset.range 3, (missingNodes w pgd first n d).card

/-- The memory after `n` calls of `AllocPage4K`, if there are as many frames. -/
def framesTaken (mms : MMS) : Nat → Option MMS
  | 0 => some mms
  | n + 1 => (framesTaken mms n).bind (fun m =>
      match allocPage4K m ZONE_NORMAL_INDEX 1 PG_PTABLE_MAPPED with
      | some (m', some _) => some m'
      | _ => none)

variable {w w' : Memory} {pgd vaddr first n : Nat}

theorem mem_missingNodes {d k : Nat} : k ∈ missingNodes w pgd first n d ↔
    (∃ i < n, nodeNumber (first + i * PAGE_4K_SIZE) d = k) ∧
      userTables.node w (userRoot pgd) (3 - d) k = none := by
  unfold missingNodes
  rw [Finset.mem_filter, Finset.mem_image]
  simp only [Finset.mem_range]

/-- A page misses three tables at most. -/
theorem rangeMissing_le (w : Memory) (pgd first n : Nat) : rangeMissing w pgd first n ≤ 3 * n := by
  have hcard : ∀ d ∈ Finset.range 3, (missingNodes w pgd first n d).card ≤ n := by
    intro d _
    refine (Finset.card_filter_le _ _).trans (Finset.card_image_le.trans ?_)
    rw [Finset.card_range]
  have hsum := Finset.sum_le_card_nsmul _ _ n hcard
  rwa [Finset.card_range, smul_eq_mul] at hsum

/-- A walk misses a table for each node on its way that is not there. -/
theorem PageTree.tablesMissing_eq (h : PageTree w pgd) (hv : vaddr < USER_LIMIT) : ∀ d l t : Nat,
    l + d = 3 → userTables.node w (userRoot pgd) l (nodeNumber vaddr d) = some t →
    tablesMissing w vaddr (lastShifts d) (8 * t) = ∑ e ∈ Finset.range d,
      if userTables.node w (userRoot pgd) (3 - e) (nodeNumber vaddr e) = none then 1 else 0 := by
  intro d
  induction d with
  | zero => exact fun _ _ _ _ => rfl
  | succ d ih =>
      intro l t hl hn
      have hi := index_lt_width hv hl
      obtain rfl : l = 3 - (d + 1) := by omega
      have hlev : 3 - (d + 1) + 1 = 3 - d := by omega
      rw [lastShifts, tablesMissing, entry_word, Finset.sum_range_succ]
      by_cases hz : w (t + getBits vaddr (12 + 9 * (d + 1)) 9) = 0
      · -- the node is missing, and so are all below it
        have hnone : userTables.node w (userRoot pgd) (3 - d) (nodeNumber vaddr d) = none := by
          rw [← hlev, ← nodeNumber_child, ← userTables.child_zero, ← hz]
          exact Tree.node_child (T := userTables) hn hi
        have hbelow : ∀ e ∈ Finset.range d, (if userTables.node w (userRoot pgd) (3 - e)
            (nodeNumber vaddr e) = none then 1 else 0) = 1 := by
          intro e he
          have hed := Finset.mem_range.mp he
          have hne := node_none_below d (3 - d) hed.le hnone
          rw [show 3 - d + (d - e) = 3 - e by omega] at hne
          exact if_pos hne
        rw [if_pos hz, if_pos hnone, Finset.sum_congr rfl hbelow, lastShifts_length]
        simp
      · obtain ⟨q, -, he, hchild⟩ := h.child (by omega) hn hi hz
        rw [nodeNumber_child, hlev] at hchild
        rw [if_neg hz, he.table, ih (3 - d) q (by omega) hchild, hchild,
          if_neg (Option.some_ne_none q), Nat.add_zero]

theorem PageTree.missingTables_eq (h : PageTree w pgd) (hv : vaddr < USER_LIMIT) :
    missingTables w pgd vaddr = ∑ e ∈ Finset.range 3,
      if userTables.node w (userRoot pgd) (3 - e) (nodeNumber vaddr e) = none then 1 else 0 := by
  obtain ⟨hr, hn⟩ := h.root hv
  unfold missingTables
  rw [hr]
  exact h.tablesMissing_eq hv 3 0 _ rfl hn

/-- **One more page of the range**, in a memory that has tables for the pages before it: the tables it
misses are among those that the range misses, and the pages before it have not counted them. -/
theorem PageTree.rangeMissing_succ (h : PageTree w' pgd) {k : Nat}
    (hv : first + k * PAGE_4K_SIZE < USER_LIMIT)
    (hnodes : ∀ l ≤ 3, ∀ i t, userTables.node w (userRoot pgd) l i = some t →
      userTables.node w' (userRoot pgd) l i = some t)
    (hmapped : ∀ j < k, mapping w' pgd (first + j * PAGE_4K_SIZE) ≠ none) :
    missingTables w' pgd (first + k * PAGE_4K_SIZE) + rangeMissing w pgd first k
      ≤ rangeMissing w pgd first (k + 1) := by
  rw [h.missingTables_eq hv]
  unfold rangeMissing
  rw [← Finset.sum_add_distrib]
  refine Finset.sum_le_sum (fun d hd => ?_)
  have hd3 := Finset.mem_range.mp hd
  have hsub : missingNodes w pgd first k d ⊆ missingNodes w pgd first (k + 1) d := by
    intro x hx
    obtain ⟨⟨j, hj, he⟩, hnone⟩ := mem_missingNodes.mp hx
    exact mem_missingNodes.mpr ⟨⟨j, Nat.lt_succ_of_lt hj, he⟩, hnone⟩
  split
  · rename_i hnone
    -- the node of this page is new
    have hnew : nodeNumber (first + k * PAGE_4K_SIZE) d ∉ missingNodes w pgd first k d := by
      intro hmem
      obtain ⟨⟨j, hj, he⟩, -⟩ := mem_missingNodes.mp hmem
      have hvj : first + j * PAGE_4K_SIZE < USER_LIMIT := by
        refine lt_of_le_of_lt ?_ hv
        exact Nat.add_le_add_left (Nat.mul_le_mul_right _ hj.le) _
      rw [← he] at hnone
      exact hmapped j hj (h.mapping_none hvj (l := 3 - d) (d := d) (by omega) hnone)
    have hold : userTables.node w (userRoot pgd) (3 - d) (nodeNumber (first + k * PAGE_4K_SIZE) d)
        = none := by
      cases hn : userTables.node w (userRoot pgd) (3 - d)
        (nodeNumber (first + k * PAGE_4K_SIZE) d) with
      | none => rfl
      | some t =>
          rw [hnodes (3 - d) (by omega) _ t hn] at hnone
          exact absurd hnone (by simp)
    rw [Nat.add_comm 1, ← Finset.card_insert_of_notMem hnew]
    refine Finset.card_le_card (Finset.insert_subset ?_ hsub)
    exact mem_missingNodes.mpr ⟨⟨k, Nat.lt_succ_self k, rfl⟩, hold⟩
  · rw [Nat.zero_add]
    exact Finset.card_le_card hsub

end Talios
