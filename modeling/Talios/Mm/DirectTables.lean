import Talios.Mm.FreeTables
import Talios.Mm.PageTableGrow

set_option autoImplicit false

/-! # `InitPageTable`

The kernel reaches physical memory at `PAGE_OFFSET`. `InitPageTable` maps the 2 MiB blocks that
meet a zone there, below the tables the processor already uses, and takes the tables that are
missing from `kmalloc`. A table it cannot get costs the block its entry.

The direct map of the first 512 GiB hangs off one entry of the first table. Below it the tables
form a tree of two levels (`directTree`), whose leaves are the entries for the blocks. What the
processor makes of an address depends on the leaf of its block only (`DirectTables.frameAt`).
-/

namespace Talios

open Word Bitmap Radix

def PEA_SUPERVISOR_TABLE : BitVec 64 := PEA_PRESENT ||| PEA_READ_WRITE
def PEA_SUPERVISOR_ENTRY : BitVec 64 := PEA_SUPERVISOR_TABLE ||| PEA_PAGE_SIZE

/-! ## The function -/

/-- A new table for the entry at `entry` if it is zero; the result says whether there is one. -/
def makeDirectTable (s : KMem) (entry : Nat) : Option (KMem × Bool) :=
  if s.word (entry / 8) = 0 then
    match kmalloc s PAGE_4K_SIZE with
    | none => none
    | some (s₁, none) => some (s₁, false)
    | some (s₁, some page) =>
        some ((s₁.clear page PAGE_4K_SIZE).write entry
          (BitVec.ofNat 64 (virtToPhy page) ||| PEA_SUPERVISOR_TABLE), true)
  else some (s, true)

/-- The body of the inner loop. The flag says whether `kmalloc` has given every page asked for. -/
def mapDirect (pml4 physical : Nat) (s : KMem) : Option (KMem × Bool) :=
  let vaddr := add64 PAGE_OFFSET physical
  let entry := pml4 + getBits vaddr PAGE_GDT_SHIFT 9 * 8
  match makeDirectTable s entry with
  | none => none
  | some (s₁, false) => some (s₁, false)
  | some (s₁, true) =>
      if s₁.word (entry / 8) &&& PEA_PAGE_SIZE ≠ 0 then some (s₁, true)
      else
        let pdpt := tableFromEntry (s₁.word (entry / 8))
        let entry := pdpt + getBits vaddr PAGE_1G_SHIFT 9 * 8
        match makeDirectTable s₁ entry with
        | none => none
        | some (s₂, false) => some (s₂, false)
        | some (s₂, true) =>
            -- a page of 1 GiB maps the block already
            if s₂.word (entry / 8) &&& PEA_PAGE_SIZE ≠ 0 then some (s₂, true)
            else
              let pd := tableFromEntry (s₂.word (entry / 8))
              let entry := pd + getBits vaddr PAGE_2M_SHIFT 9 * 8
              some (s₂.write entry (BitVec.ofNat 64 physical ||| PEA_SUPERVISOR_ENTRY), true)

/-- A loop over `items`, with the flags of its passes put together. -/
def eachOf {α : Type} (body : α → KMem → Option (KMem × Bool)) :
    List α → KMem → Option (KMem × Bool)
  | [], s => some (s, true)
  | x :: xs, s =>
      match body x s with
      | none => none
      | some (s₁, made) => (eachOf body xs s₁).map (fun r => (r.1, made && r.2))

/-- The blocks of 2 MiB that the inner loop goes over. -/
def zoneBlocks (zone : Zone) : List Nat :=
  let start := alignDown PAGE_2M_SIZE zone.zoneStartAddr
  let stop := alignUp64 PAGE_2M_SIZE zone.zoneEndAddr
  List.range' start ((stop - start) / PAGE_2M_SIZE) PAGE_2M_SIZE

/-- `InitPageTable` with `cr3` in `CR3`. -/
def initPageTable (s : KMem) (cr3 : Nat) : Option (KMem × Bool) :=
  let pml4 := phyToVirt (alignDown PAGE_4K_SIZE cr3)
  eachOf (fun zi s => eachOf (mapDirect pml4) (zoneBlocks (s.mms.zone zi)) s)
    (List.range s.mms.zonesCount) s

/-! ## Addresses the processor makes -/

/-- The physical address of `vaddr`, if it is mapped. -/
def physAddr (word : Memory) (cr3 vaddr : Nat) : Option Nat :=
  (translate word cr3 vaddr).map (fun t => t.frame * PAGE_4K_SIZE + vaddr % PAGE_4K_SIZE)

/-- The direct map has the address `p`. -/
def DirectAt (word : Memory) (cr3 p : Nat) : Prop := physAddr word cr3 (PAGE_OFFSET + p) = some p

/-- The words the processor reads on its way from `table` on. -/
def wordsFrom (word : Memory) (vaddr : Nat) : List Nat → Nat → List Nat
  | [], table => [(table + getBits vaddr PAGE_4K_SHIFT 9 * 8) / 8]
  | shift :: shifts, table =>
      let a := (table + getBits vaddr shift 9 * 8) / 8
      if entryHas (word a) PEA_PRESENT = true ∧ entryHas (word a) PEA_PAGE_SIZE = false then
        a :: wordsFrom word vaddr shifts (tableFromEntry (word a))
      else [a]

/-- The words the processor reads to translate `vaddr`. -/
def wordsRead (word : Memory) (cr3 vaddr : Nat) : List Nat :=
  wordsFrom word vaddr [PAGE_GDT_SHIFT, PAGE_1G_SHIFT, PAGE_2M_SHIFT]
    (phyToVirt (alignDown PAGE_4K_SIZE cr3))

/-- Where the words read are the same, the way is. -/
theorem translateFrom_congr {w w' : Memory} {vaddr : Nat} :
    ∀ (shifts : List Nat) (table : Nat) (user writable : Bool),
      (∀ a ∈ wordsFrom w vaddr shifts table, w' a = w a) →
      translateFrom w' vaddr shifts table user writable
        = translateFrom w vaddr shifts table user writable
  | [], table, user, writable, h => by
      have ha := h _ List.mem_cons_self
      simp only [translateFrom, ha]
  | shift :: shifts, table, user, writable, h => by
      rw [wordsFrom] at h
      have ha : w' ((table + getBits vaddr shift 9 * 8) / 8)
          = w ((table + getBits vaddr shift 9 * 8) / 8) := by
        apply h
        split <;> exact List.mem_cons_self
      simp only [translateFrom, ha]
      cases hp : entryHas (w ((table + getBits vaddr shift 9 * 8) / 8)) PEA_PRESENT with
      | false => simp
      | true =>
          cases hs : entryHas (w ((table + getBits vaddr shift 9 * 8) / 8)) PEA_PAGE_SIZE with
          | true => simp
          | false =>
              simp only [if_true, Bool.false_eq_true, if_false]
              refine translateFrom_congr shifts _ _ _ (fun a hmem => h a ?_)
              rw [if_pos ⟨hp, hs⟩]
              exact List.mem_cons_of_mem _ hmem

theorem physAddr_congr {w w' : Memory} {cr3 vaddr : Nat}
    (h : ∀ a ∈ wordsRead w cr3 vaddr, w' a = w a) : physAddr w' cr3 vaddr = physAddr w cr3 vaddr := by
  rw [physAddr, physAddr, translate, translate, translateFrom_congr _ _ _ _ h]

/-- The frame at the end of the way from `table` on. -/
def frameFrom (word : Memory) (vaddr : Nat) : List Nat → Nat → Option Nat
  | [], table =>
      let e := word ((table + getBits vaddr PAGE_4K_SHIFT 9 * 8) / 8)
      if entryHas e PEA_PRESENT then some (page4KIndex (entryAddr e)) else none
  | shift :: shifts, table =>
      let e := word ((table + getBits vaddr shift 9 * 8) / 8)
      if entryHas e PEA_PRESENT then
        if entryHas e PEA_PAGE_SIZE then
          some (page4KIndex (alignDown (2 ^ shift) (entryAddr e) + vaddr % 2 ^ shift))
        else frameFrom word vaddr shifts (tableFromEntry e)
      else none

/-- The rights on the way have no say in where it ends. -/
theorem frame_translateFrom (word : Memory) (vaddr : Nat) :
    ∀ (shifts : List Nat) (table : Nat) (user writable : Bool),
      (translateFrom word vaddr shifts table user writable).map Translation.frame
        = frameFrom word vaddr shifts table
  | [], table, user, writable => by
      simp only [translateFrom, frameFrom]
      split <;> rfl
  | shift :: shifts, table, user, writable => by
      simp only [translateFrom, frameFrom]
      split
      · split
        · rfl
        · exact frame_translateFrom word vaddr shifts _ _ _
      · rfl

theorem physAddr_eq (word : Memory) (cr3 vaddr : Nat) :
    physAddr word cr3 vaddr = (frameFrom word vaddr [PAGE_GDT_SHIFT, PAGE_1G_SHIFT, PAGE_2M_SHIFT]
      (phyToVirt (alignDown PAGE_4K_SIZE cr3))).map
        (fun f => f * PAGE_4K_SIZE + vaddr % PAGE_4K_SIZE) := by
  rw [physAddr, translate, ← frame_translateFrom word vaddr _ _ true true, Option.map_map]
  rfl

/-! ## The tables of the direct map -/

/-- The first word of the first table. -/
def pml4Word (cr3 : Nat) : Nat := phyToVirt (alignDown PAGE_4K_SIZE cr3) / 8

theorem pml4Word_eq (cr3 : Nat) : 8 * pml4Word cr3 = phyToVirt (alignDown PAGE_4K_SIZE cr3) := by
  unfold pml4Word phyToVirt alignDown PAGE_4K_SIZE PAGE_4K_SHIFT PAGE_OFFSET
  omega

/-- The table an entry names, by its first word. -/
def namedTable (e : BitVec 64) : Option Nat :=
  if entryHas e PEA_PRESENT = true ∧ entryHas e PEA_PAGE_SIZE = false then
    some (tableFromEntry e / 8)
  else none

theorem namedTable_eq_some {e : BitVec 64} {q : Nat} : namedTable e = some q ↔
    entryHas e PEA_PRESENT = true ∧ entryHas e PEA_PAGE_SIZE = false ∧ tableFromEntry e = 8 * q := by
  have h8 : 8 * (tableFromEntry e / 8) = tableFromEntry e :=
    Nat.mul_div_cancel' (Nat.dvd_trans (by decide) (tableFromEntry_aligned e))
  unfold namedTable
  split
  · rename_i h
    simp only [Option.some.injEq, h.1, h.2, true_and]
    omega
  · rename_i h
    simp only [reduceCtorEq, false_iff]
    rintro ⟨h1, h2, -⟩
    exact h ⟨h1, h2⟩

/-- The words read from the table at `t` on. -/
theorem mem_wordsFrom {w : Memory} {vaddr shift t a : Nat} {shifts : List Nat}
    (h : a ∈ wordsFrom w vaddr (shift :: shifts) (8 * t)) : a = t + getBits vaddr shift 9 ∨
      ∃ q, namedTable (w (t + getBits vaddr shift 9)) = some q ∧ a ∈ wordsFrom w vaddr shifts (8 * q) := by
  have hentry : (8 * t + getBits vaddr shift 9 * 8) / 8 = t + getBits vaddr shift 9 := by omega
  rw [wordsFrom, hentry] at h
  split at h
  · rename_i hc
    rcases List.mem_cons.mp h with rfl | h
    · exact Or.inl rfl
    · have hq : namedTable (w (t + getBits vaddr shift 9)) = some _ := if_pos hc
      rw [(namedTable_eq_some.mp hq).2.2] at h
      exact Or.inr ⟨_, hq, h⟩
  · exact Or.inl (List.mem_singleton.mp h)

/-- The tables below the entry for the first 512 GiB. -/
def directTree : Tree where
  fanout := 512
  top := 512
  depth := 1
  child := namedTable
  fanout_pos := fanout_pos
  top_le := by decide
  depth_pos := Nat.one_pos
  child_zero := by decide

theorem width_direct (l : Nat) : directTree.width l = 512 := by
  unfold Tree.width
  split <;> rfl

/-- The entry is a page of 1 GiB that maps gigabyte `g` to itself. -/
structure GigaPage (g : Nat) (e : BitVec 64) : Prop where
  present : entryHas e PEA_PRESENT = true
  large : entryHas e PEA_PAGE_SIZE = true
  addr : alignDown (2 ^ 30) (entryAddr e) = g * 2 ^ 30

/-- **Tables of the direct map**: separate pages below entry 256 of the table at `r`. An entry for
1 GiB is zero, maps its gigabyte to itself or names a table; no table for pages of 4 KiB is one of
the tables above. -/
structure DirectTables (w : Memory) (r P : Nat) : Prop where
  slot : namedTable (w (r + 256)) = some P
  tree : directTree.Ok w P DirectPage
  root : ∀ l ≤ 1, ∀ k t, directTree.node w P l k = some t → ∀ i < 512, r + 256 ≠ t + i
  entries : ∀ g < 512, w (P + g) = 0 ∨ GigaPage g (w (P + g)) ∨ ∃ q, namedTable (w (P + g)) = some q
  small : ∀ n < 2 ^ 18, ∀ q, namedTable (directTree.leaf w P n) = some q →
    ∀ l ≤ 1, ∀ k t, directTree.node w P l k = some t → ∀ i < 512, ∀ j < 512, q + i ≠ t + j

/-- The words the direct map of the first 512 GiB depends on. -/
def TableWord (w : Memory) (r a : Nat) : Prop :=
  a = r + 256 ∨ ∃ P, namedTable (w (r + 256)) = some P ∧
    ((∃ l ≤ 1, ∃ k t, directTree.node w P l k = some t ∧ ∃ i < 512, a = t + i) ∨
      ∃ n < 2 ^ 18, ∃ q, namedTable (directTree.leaf w P n) = some q ∧ ∃ i < 512, a = q + i)

/-- The frame the direct map has at the physical address `p`. -/
def frameAt (w : Memory) (r p : Nat) : Option Nat :=
  frameFrom w (PAGE_OFFSET + p) [PAGE_GDT_SHIFT, PAGE_1G_SHIFT, PAGE_2M_SHIFT] (8 * r)

/-- The frame an entry for 2 MiB leads to. -/
def leafFrame (w : Memory) (vaddr : Nat) (e : BitVec 64) : Option Nat :=
  if entryHas e PEA_PRESENT then
    if entryHas e PEA_PAGE_SIZE then
      some (page4KIndex (alignDown (2 ^ PAGE_2M_SHIFT) (entryAddr e) + vaddr % 2 ^ PAGE_2M_SHIFT))
    else frameFrom w vaddr [] (tableFromEntry e)
  else none

theorem directAt_iff {w : Memory} {cr3 p : Nat} :
    DirectAt w cr3 p ↔ frameAt w (pml4Word cr3) p = some (p / PAGE_4K_SIZE) := by
  have hmod : (PAGE_OFFSET + p) % PAGE_4K_SIZE = p % PAGE_4K_SIZE := by
    unfold PAGE_OFFSET PAGE_4K_SIZE PAGE_4K_SHIFT
    omega
  have hp := Nat.div_add_mod p PAGE_4K_SIZE
  unfold DirectAt frameAt
  rw [physAddr_eq, pml4Word_eq, hmod]
  simp only [Option.map_eq_some_iff]
  constructor
  · rintro ⟨f, hf, he⟩
    rw [hf]
    have : f * PAGE_4K_SIZE = p / PAGE_4K_SIZE * PAGE_4K_SIZE := by rw [Nat.mul_comm (p / _)]; omega
    rw [Nat.eq_of_mul_eq_mul_right (by decide) this]
  · intro hf
    exact ⟨_, hf, by rw [Nat.mul_comm]; exact hp⟩

section

variable {w w' : Memory} {r P p : Nat}

/-- The parts of an address of the direct map. -/
theorem direct_bits (hp : p < 2 ^ 39) :
    getBits (PAGE_OFFSET + p) PAGE_GDT_SHIFT 9 = 256 ∧
      getBits (PAGE_OFFSET + p) PAGE_1G_SHIFT 9 = p / 2 ^ 30 ∧
      getBits (PAGE_OFFSET + p) PAGE_2M_SHIFT 9 = p / 2 ^ 21 % 512 ∧
      (PAGE_OFFSET + p) % 2 ^ 30 = p % 2 ^ 30 ∧ (PAGE_OFFSET + p) % 2 ^ 21 = p % 2 ^ 21 := by
  unfold getBits PAGE_OFFSET PAGE_GDT_SHIFT PAGE_1G_SHIFT PAGE_2M_SHIFT
  omega

theorem direct_node_zero (k : Nat) : directTree.node w P 0 k = if k = 0 then some P else none := rfl

/-- The table for gigabyte `g`. -/
theorem direct_node_one {g : Nat} (hg : g < 512) :
    directTree.node w P 1 g = namedTable (w (P + g)) := by
  have h : directTree.node w P (0 + 1) (0 * 512 + g) = namedTable (w (P + g)) :=
    Tree.node_child (direct_node_zero 0) (show g < directTree.width 0 from hg)
  rw [Nat.zero_mul, Nat.zero_add, Nat.zero_add] at h
  exact h

/-- Nodes of the tree are numbered below 512. -/
theorem direct_node_cases {l k t : Nat} (hl : l ≤ 1) (h : directTree.node w P l k = some t) :
    (l = 0 ∧ k = 0 ∧ t = P) ∨ (l = 1 ∧ k < 512 ∧ namedTable (w (P + k)) = some t) := by
  obtain rfl | rfl : l = 0 ∨ l = 1 := by omega
  · rw [direct_node_zero] at h
    split at h
    · rename_i hk
      exact Or.inl ⟨rfl, hk, (Option.some.inj h).symm⟩
    · exact absurd h (by simp)
  · obtain ⟨hk, u, hu, hc⟩ := Tree.node_parent h
    rw [direct_node_zero] at hu
    split at hu
    · rename_i hk0
      have hk0' : k / 512 = 0 := hk0
      have hk' : k < 512 := by omega
      rw [direct_node_one hk'] at h
      exact Or.inr ⟨rfl, hk', h⟩
    · exact absurd hu (by simp)

/-- The entry for block `n`, in the table of its gigabyte. -/
theorem direct_slot {n : Nat} (hn : n < 2 ^ 18) : directTree.slot w P n
    = (namedTable (w (P + n / 512))).map (· + n % 512) := by
  show (directTree.node w P 1 (n / 512)).map (· + n % 512) = _
  rw [direct_node_one (by omega)]

theorem direct_leaf {n q : Nat} (hn : n < 2 ^ 18)
    (hq : namedTable (w (P + n / 512)) = some q) : directTree.leaf w P n = w (q + n % 512) :=
  Tree.leaf_of_slot (by rw [direct_slot hn, hq]; rfl)

theorem direct_leaf_none {n : Nat} (hn : n < 2 ^ 18)
    (hq : namedTable (w (P + n / 512)) = none) : directTree.leaf w P n = 0 :=
  Tree.leaf_of_none (by rw [direct_slot hn, hq]; rfl)

/-- **What the processor makes of an address of the direct map.** -/
theorem DirectTables.frameAt (h : DirectTables w r P) (hp : p < 2 ^ 39) :
    frameAt w r p = if entryHas (w (P + p / 2 ^ 30)) PEA_PAGE_SIZE = true then
        some (p / PAGE_4K_SIZE)
      else leafFrame w (PAGE_OFFSET + p) (directTree.leaf w P (p / 2 ^ 21)) := by
  obtain ⟨h1, h2, h3, h4, h5⟩ := direct_bits hp
  obtain ⟨hpr, hps, htab⟩ := namedTable_eq_some.mp h.slot
  have hg : p / 2 ^ 30 < 512 := by omega
  have hn : p / 2 ^ 21 < 2 ^ 18 := by omega
  have hdiv : p / 2 ^ 21 / 512 = p / 2 ^ 30 := by omega
  unfold Talios.frameAt
  simp only [frameFrom, h1, h2, h3, entry_word]
  rw [if_pos hpr, if_neg (by rw [hps]; decide), htab, entry_word]
  rcases h.entries _ hg with h0 | hgiga | ⟨q, hq⟩
  · -- no entry for the gigabyte, so none for the block
    have hleaf : directTree.leaf w P (p / 2 ^ 21) = 0 :=
      direct_leaf_none hn (by rw [hdiv, h0]; rfl)
    rw [h0, hleaf]
    rfl
  · rw [if_pos hgiga.present, if_pos hgiga.large, if_pos hgiga.large]
    have haddr : alignDown (2 ^ PAGE_1G_SHIFT) (entryAddr (w (P + p / 2 ^ 30)))
        = p / 2 ^ 30 * 2 ^ 30 := hgiga.addr
    rw [haddr, show (PAGE_OFFSET + p) % 2 ^ PAGE_1G_SHIFT = p % 2 ^ 30 from h4]
    have hsplit : p / 2 ^ 30 * 2 ^ 30 + p % 2 ^ 30 = p := Nat.div_add_mod' _ _
    rw [hsplit]
    rfl
  · obtain ⟨hpr', hps', htab'⟩ := namedTable_eq_some.mp hq
    have hsmall : ¬ entryHas (w (P + p / 2 ^ 30)) PEA_PAGE_SIZE = true := by rw [hps']; decide
    rw [if_pos hpr', if_neg hsmall, if_neg hsmall, htab', entry_word,
      direct_leaf hn (by rw [hdiv]; exact hq)]
    rfl

/-! ## Changing the tables -/

theorem directPage_apart : directTree.Sep DirectPage := directPage_sep

/-- The frame below an entry depends on the table it names only. -/
theorem leafFrame_congr {vaddr : Nat} {e : BitVec 64}
    (h : ∀ q, namedTable e = some q → ∀ i < 512, w' (q + i) = w (q + i)) :
    leafFrame w' vaddr e = leafFrame w vaddr e := by
  unfold leafFrame
  cases hp : entryHas e PEA_PRESENT with
  | false => rfl
  | true =>
      cases hs : entryHas e PEA_PAGE_SIZE with
      | true => rfl
      | false =>
          simp only [if_true, Bool.false_eq_true, if_false, frameFrom]
          have hq : namedTable e = some (tableFromEntry e / 8) := if_pos ⟨hp, hs⟩
          have htab := (namedTable_eq_some.mp hq).2.2
          rw [htab, entry_word, h _ hq _ (getBits_lt _ _)]

/-- **The entry for block `n` is written**, and it names no table. -/
theorem DirectTables.setBlock (h : DirectTables w r P) {n a : Nat}
    (ha : directTree.slot w P n = some a) {e : BitVec 64} (he : namedTable e = none) :
    DirectTables (Function.update w a e) r P ∧
      (∀ b, TableWord (Function.update w a e) r b → TableWord w r b) ∧
      (∀ g < 512, Function.update w a e (P + g) = w (P + g)) ∧
      ∀ p < 2 ^ 39, Talios.frameAt (Function.update w a e) r p
        = if p / 2 ^ 21 = n then leafFrame w (PAGE_OFFSET + p) e else Talios.frameAt w r p := by
  obtain ⟨t, ht, hta⟩ := Tree.slot_eq_some.mp ha
  have hmod : n % directTree.fanout < 512 := Nat.mod_lt n (by decide)
  obtain ⟨htree, hnode, hleaf⟩ := h.tree.setLeaf directPage_apart ha e
  set w' := Function.update w a e with hw'
  have hslot : w' (r + 256) = w (r + 256) := by
    apply Function.update_of_ne
    rw [← hta]
    exact h.root 1 le_rfl _ t ht _ hmod
  have htop : ∀ g < 512, w' (P + g) = w (P + g) := by
    intro g hg
    refine Function.update_of_ne (fun hc => ?_) ..
    -- an entry of the upper table is none of a lower one
    have := (h.tree.word_eq directPage_apart (Nat.zero_le _) le_rfl (direct_node_zero 0) ht hg hmod
      (hc.trans hta.symm)).1
    exact absurd this (by decide)
  have hnamed : ∀ m < 2 ^ 18, ∀ q, namedTable (directTree.leaf w' P m) = some q →
      namedTable (directTree.leaf w P m) = some q := by
    intro m _ q hq
    rw [hleaf] at hq
    split at hq
    · rw [he] at hq
      exact absurd hq (by simp)
    · exact hq
  have hsmall : ∀ m < 2 ^ 18, ∀ q, namedTable (directTree.leaf w P m) = some q →
      ∀ i < 512, w' (q + i) = w (q + i) := by
    intro m hm q hq i hi
    refine Function.update_of_ne (fun hc => ?_) ..
    exact h.small m hm q hq 1 le_rfl _ t ht i hi _ hmod (hc.trans hta.symm)
  have htab : DirectTables w' r P := by
    refine ⟨?_, htree, fun l hl k u hu => ?_, fun g hg => ?_, fun m hm q hq l hl k u hu => ?_⟩
    · rw [hslot]
      exact h.slot
    · rw [hnode l hl] at hu
      exact h.root l hl k u hu
    · rw [htop g hg]
      exact h.entries g hg
    · rw [hnode l hl] at hu
      exact h.small m hm q (hnamed m hm q hq) l hl k u hu
  refine ⟨htab, ?_, htop, fun p hp => ?_⟩
  · rintro b (rfl | ⟨P', hP', hb⟩)
    · exact Or.inl rfl
    · obtain rfl : P = P' := Option.some.inj (htab.slot.symm.trans hP')
      refine Or.inr ⟨P, h.slot, ?_⟩
      rcases hb with ⟨l, hl, k, u, hu, hi⟩ | ⟨m, hm, q, hq, hi⟩
      · rw [hnode l hl] at hu
        exact Or.inl ⟨l, hl, k, u, hu, hi⟩
      · exact Or.inr ⟨m, hm, q, hnamed m hm q hq, hi⟩
  · have hm : p / 2 ^ 21 < 2 ^ 18 := by omega
    rw [htab.frameAt hp, htop _ (by omega), hleaf]
    by_cases hpn : p / 2 ^ 21 = n
    · have hg : namedTable (w (P + p / 2 ^ 30)) = some t := by
        rw [← direct_node_one (by omega), ← ht, ← hpn]
        congr 1
        show _ = p / 2 ^ 21 / 512
        omega
      rw [if_pos hpn, if_pos hpn, if_neg (by rw [(namedTable_eq_some.mp hg).2.1]; decide)]
      exact leafFrame_congr (fun q hq => absurd hq (by rw [he]; simp))
    · rw [if_neg hpn, if_neg hpn, h.frameAt hp,
        leafFrame_congr (hsmall _ hm)]

/-- **A table of zeros** for gigabyte `g` changes no address. -/
theorem DirectTables.link (h : DirectTables w r P) {g q : Nat} (hg : g < 512) (hz : w (P + g) = 0)
    (hq : DirectPage q) (hnew : ∀ j < 512, ¬ TableWord w r (q + j))
    (hat : namedTable (w' (P + g)) = some q) (hzero : ∀ j < 512, w' (q + j) = 0)
    (hold : ∀ b, TableWord w r b → b ≠ P + g → w' b = w b) :
    DirectTables w' r P ∧ (∀ b, TableWord w' r b → TableWord w r b ∨ ∃ j < 512, b = q + j) ∧
      ∀ p < 2 ^ 39, Talios.frameAt w' r p = Talios.frameAt w r p := by
  have hnodeWord : ∀ l ≤ 1, ∀ k t, directTree.node w P l k = some t → ∀ i < 512,
      TableWord w r (t + i) := fun l hl k t ht i hi =>
    Or.inr ⟨P, h.slot, Or.inl ⟨l, hl, k, t, ht, i, hi, rfl⟩⟩
  have hroot := direct_node_zero (w := w) (P := P) 0
  have hne : ∀ l ≤ 1, ∀ k t, directTree.node w P l k = some t → t ≠ q := by
    rintro l hl k t ht rfl
    exact hnew 0 (by decide) (hnodeWord l hl k t ht 0 (by decide))
  obtain ⟨htree, -, hkept, hcases, hleaf⟩ := h.tree.link directPage_apart
    (show 0 < 1 by decide) hroot (show g < directTree.width 0 from hg)
    (show namedTable (w (P + g)) = none by rw [hz]; rfl) hat hzero
    (fun l hl k t ht i hi hti => hold _ (hnodeWord l hl k t ht i
      (lt_of_lt_of_eq hi (width_direct l))) hti)
    hne hq (fun l hl k t ht => h.tree.own l hl k t ht)
  have hslot : w' (r + 256) = w (r + 256) :=
    hold _ (Or.inl rfl) (h.root 0 (by decide) 0 P hroot g hg)
  have htab : DirectTables w' r P := by
    refine ⟨by rw [hslot]; exact h.slot, htree, fun l hl k t ht i hi hc => ?_, fun g' hg' => ?_,
      fun n hn u hu l hl k t ht i hi j hj hc => ?_⟩
    · rcases hcases l hl k t ht with ht | rfl
      · exact h.root l hl k t ht i hi hc
      · exact hnew i hi (Or.inl hc.symm)
    · by_cases hgg : g' = g
      · rw [hgg]
        exact Or.inr (Or.inr ⟨q, hat⟩)
      · rw [hold _ (hnodeWord 0 (by decide) 0 P hroot g' hg') (by omega)]
        exact h.entries g' hg'
    · rw [hleaf] at hu
      rcases hcases l hl k t ht with ht | rfl
      · exact h.small n hn u hu l hl k t ht i hi j hj hc
      · exact hnew j hj (Or.inr ⟨P, h.slot, Or.inr ⟨n, hn, u, hu, i, hi, hc.symm⟩⟩)
  refine ⟨htab, ?_, fun p hp => ?_⟩
  · rintro b (rfl | ⟨P', hP', hb⟩)
    · exact Or.inl (Or.inl rfl)
    · obtain rfl : P = P' := Option.some.inj (htab.slot.symm.trans hP')
      rcases hb with ⟨l, hl, k, t, ht, i, hi, rfl⟩ | ⟨n, hn, u, hu, i, hi, rfl⟩
      · rcases hcases l hl k t ht with ht | rfl
        · exact Or.inl (hnodeWord l hl k t ht i hi)
        · exact Or.inr ⟨i, hi, rfl⟩
      · rw [hleaf] at hu
        exact Or.inl (Or.inr ⟨P, h.slot, Or.inr ⟨n, hn, u, hu, i, hi, rfl⟩⟩)
  · have hn : p / 2 ^ 21 < 2 ^ 18 := by omega
    have hsame : leafFrame w' (PAGE_OFFSET + p) (directTree.leaf w P (p / 2 ^ 21))
        = leafFrame w (PAGE_OFFSET + p) (directTree.leaf w P (p / 2 ^ 21)) := by
      refine leafFrame_congr (fun u hu i hi => hold _ ?_ ?_)
      · exact Or.inr ⟨P, h.slot, Or.inr ⟨_, hn, u, hu, i, hi, rfl⟩⟩
      · exact h.small _ hn u hu 0 (by decide) 0 P hroot i hi g hg
    rw [htab.frameAt hp, h.frameAt hp, hleaf, hsame]
    by_cases hgp : p / 2 ^ 30 = g
    · -- the new entry is no large page, the missing one was none either
      rw [hgp, (namedTable_eq_some.mp hat).2.1, hz]
      rfl
    · rw [hold _ (hnodeWord 0 (by decide) 0 P hroot _ (by omega)) (by omega)]

/-- **The upper table** in place of none. -/
theorem DirectTables.top {q : Nat} (hz : w (r + 256) = 0) (hq : DirectPage q)
    (hnew : ∀ j < 512, r + 256 ≠ q + j) (hat : namedTable (w' (r + 256)) = some q)
    (hzero : ∀ j < 512, w' (q + j) = 0) :
    DirectTables w' r q ∧ (∀ b, TableWord w' r b → b = r + 256 ∨ ∃ j < 512, b = q + j) ∧
      ∀ p < 2 ^ 39, Talios.frameAt w r p = none := by
  obtain ⟨htree, hleaf⟩ := Tree.Ok.empty (T := directTree) hzero (show DirectPage q from hq)
  have hnode : ∀ l ≤ 1, ∀ k t, directTree.node w' q l k = some t → t = q :=
    fun l _ k t ht => (Tree.root_of_empty (T := directTree) hzero ht).2.2
  have hno : ∀ n u, namedTable (directTree.leaf w' q n) ≠ some u := by
    intro n u hu
    rw [hleaf] at hu
    exact absurd hu (by simp [namedTable, entryHas])
  refine ⟨⟨hat, htree, fun l hl k t ht => ?_, fun g hg => Or.inl (hzero g hg),
    fun n _ u hu => absurd hu (hno n u)⟩, ?_, fun p hp => ?_⟩
  · rw [hnode l hl k t ht]
    exact hnew
  · rintro b (rfl | ⟨P', hP', hb⟩)
    · exact Or.inl rfl
    · obtain rfl : q = P' := Option.some.inj (hat.symm.trans hP')
      rcases hb with ⟨l, hl, k, t, ht, i, hi, rfl⟩ | ⟨n, -, u, hu, -⟩
      · rw [hnode l hl k t ht]
        exact Or.inr ⟨i, hi, rfl⟩
      · exact absurd hu (hno n u)
  · obtain ⟨h1, -⟩ := direct_bits hp
    unfold Talios.frameAt
    simp only [frameFrom, h1, entry_word, hz]
    rfl

end

end Talios
