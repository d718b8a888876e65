import Talios.Mm.PageTable

set_option autoImplicit false

/-! # Trees of page tables

The user half of an address space is a radix tree of depth three (`userTables`). `PageTree` says
that the tables are different pages of the direct map and that an entry above the last level is
zero or names a table. It says nothing of where the tables come from: what `walk_pte` finds in
such a tree, what the processor reads there, and what a new table and a new leaf change, holds of
every memory. The entries of the last level may be any words.
-/

namespace Talios

open Word Bitmap Radix

/-! ## Entries -/

theorem getLsbD_mask {i : Nat} (hi : i < 64) : PAGE_4K_MASK.getLsbD i = decide (12 ≤ i) := by
  revert i
  decide

/-- Flags have no bit from 12 on. -/
def IsFlags (f : BitVec 64) : Prop := f &&& PAGE_4K_MASK = 0

theorem IsFlags.getLsbD {f : BitVec 64} (hf : IsFlags f) {i : Nat} (hi : 12 ≤ i) :
    f.getLsbD i = false := by
  rcases Nat.lt_or_ge i 64 with h64 | h64
  · have := congrArg (fun x : BitVec 64 => x.getLsbD i) hf
    simpa [BitVec.getLsbD_and, getLsbD_mask h64, hi] using this
  · exact BitVec.getLsbD_of_ge f i h64

theorem getLsbD_aligned {p : Nat} (hp : PAGE_4K_SIZE ∣ p) {i : Nat} (hi : i < 12) :
    (BitVec.ofNat 64 p).getLsbD i = false := by
  obtain ⟨m, rfl⟩ := hp
  rw [BitVec.getLsbD_ofNat, PAGE_4K_SIZE, PAGE_4K_SHIFT, Nat.testBit_two_pow_mul]
  simp [Nat.not_le.mpr hi]

/-- The address in an entry put together from an aligned address and flags. -/
theorem entryAddr_or {p : Nat} (hp : PAGE_4K_SIZE ∣ p) (hlt : p < 2 ^ 64) {f : BitVec 64}
    (hf : IsFlags f) : entryAddr (BitVec.ofNat 64 p ||| f) = p := by
  have he : (BitVec.ofNat 64 p ||| f) &&& PAGE_4K_MASK = BitVec.ofNat 64 p := by
    refine BitVec.eq_of_getLsbD_eq (fun i hi => ?_)
    rw [BitVec.getLsbD_and, BitVec.getLsbD_or, getLsbD_mask hi]
    by_cases h12 : 12 ≤ i
    · simp [h12, hf.getLsbD h12]
    · rw [getLsbD_aligned hp (Nat.lt_of_not_le h12)]
      simp [h12]
  rw [entryAddr, he, BitVec.toNat_ofNat, Nat.mod_eq_of_lt hlt]

/-- The flags of such an entry. -/
theorem entryHas_or {p : Nat} (hp : PAGE_4K_SIZE ∣ p) (f : BitVec 64) {g : BitVec 64}
    (hg : IsFlags g) : entryHas (BitVec.ofNat 64 p ||| f) g = entryHas f g := by
  have he : (BitVec.ofNat 64 p ||| f) &&& g = f &&& g := by
    refine BitVec.eq_of_getLsbD_eq (fun i hi => ?_)
    rw [BitVec.getLsbD_and, BitVec.getLsbD_or, BitVec.getLsbD_and]
    by_cases h12 : 12 ≤ i
    · simp [hg.getLsbD h12]
    · rw [getLsbD_aligned hp (Nat.lt_of_not_le h12), Bool.false_or]
  rw [entryHas, entryHas, he]

theorem entryHas_eq_false {e f : BitVec 64} : entryHas e f = false ↔ e &&& f = 0 := by
  simp [entryHas]

theorem ne_zero_of_entryHas {e f : BitVec 64} (h : entryHas e f = true) : e ≠ 0 := by
  rintro rfl
  simp [entryHas] at h

/-- The entry of the table at word `t`. -/
def tableEntry (t : Nat) : BitVec 64 := BitVec.ofNat 64 (virtToPhy (8 * t)) ||| PEA_USER_TABLE

/-! ## The tree -/

/-- A table has 512 entries. -/
theorem fanout_pos : 0 < 512 := by decide

/-- The user half of the tables: of the first table only the first 256 entries. -/
def userTables : Tree where
  fanout := 512
  top := 256
  depth := 3
  child e := if e = 0 ∨ e &&& PEA_PAGE_SIZE ≠ 0 then none else some (tableFromEntry e / 8)
  fanout_pos := fanout_pos
  top_le := by decide
  depth_pos := by decide
  child_zero := by simp

/-- The first word of the first table. -/
def userRoot (pgd : Nat) : Nat := phyToVirt pgd / 8

/-- The entry for page `n` of user space, zero where there is no table for it. -/
def userLeaf (word : Memory) (pgd n : Nat) : BitVec 64 := userTables.leaf word (userRoot pgd) n

/-! ## Tables -/

/-- The page at word `t` is aligned and in the direct map. -/
structure DirectPage (t : Nat) : Prop where
  aligned : PAGE_4K_SIZE ∣ 8 * t
  lower : PAGE_OFFSET ≤ 8 * t
  upper : 8 * t < PAGE_OFFSET + 2 ^ 47

/-- The physical address of such a page. -/
theorem DirectPage.phys {t : Nat} (h : DirectPage t) :
    PAGE_4K_SIZE ∣ virtToPhy (8 * t) ∧ virtToPhy (8 * t) < 2 ^ 64 ∧
      phyToVirt (virtToPhy (8 * t)) = 8 * t := by
  obtain ⟨h1, h2, h3⟩ := h
  refine ⟨?_, ?_, Nat.sub_add_cancel h2⟩
  · unfold virtToPhy PAGE_OFFSET PAGE_4K_SIZE PAGE_4K_SHIFT at *
    omega
  · unfold virtToPhy
    omega

/-- An entry that names the table at word `q` and takes no right away. -/
structure NamesTable (q : Nat) (e : BitVec 64) : Prop where
  table : tableFromEntry e = 8 * q
  present : entryHas e PEA_PRESENT = true
  user : entryHas e PEA_IS_USER = true
  writable : entryHas e PEA_READ_WRITE = true
  small : entryHas e PEA_PAGE_SIZE = false

theorem NamesTable.ne_zero {q : Nat} {e : BitVec 64} (h : NamesTable q e) : e ≠ 0 :=
  ne_zero_of_entryHas h.present

/-- The test of `walk_pte` on such an entry. -/
theorem NamesTable.goes_on {q : Nat} {e : BitVec 64} (h : NamesTable q e) :
    ¬ (e = 0 ∨ e &&& PEA_PAGE_SIZE ≠ 0) := by
  rintro (h0 | h0)
  · exact h.ne_zero h0
  · exact h0 (entryHas_eq_false.mp h.small)

theorem NamesTable.child {q : Nat} {e : BitVec 64} (h : NamesTable q e) :
    userTables.child e = some q := by
  show (if e = 0 ∨ e &&& PEA_PAGE_SIZE ≠ 0 then none else some (tableFromEntry e / 8)) = some q
  rw [if_neg h.goes_on, h.table, Nat.mul_div_cancel_left _ (by decide)]

/-- The entry put together from the address of a page and flags that grant everything. -/
theorem DirectPage.names_flags {t : Nat} (h : DirectPage t) {f : BitVec 64} (hf : IsFlags f)
    (hpr : entryHas f PEA_PRESENT = true) (hus : entryHas f PEA_IS_USER = true)
    (hrw : entryHas f PEA_READ_WRITE = true) (hps : entryHas f PEA_PAGE_SIZE = false) :
    NamesTable t (BitVec.ofNat 64 (virtToPhy (8 * t)) ||| f) := by
  obtain ⟨ha, hlt, hv⟩ := h.phys
  refine ⟨?_, ?_, ?_, ?_, ?_⟩
  · rw [tableFromEntry, entryAddr_or ha hlt hf, hv]
  · rw [entryHas_or ha _ (by unfold IsFlags; decide), hpr]
  · rw [entryHas_or ha _ (by unfold IsFlags; decide), hus]
  · rw [entryHas_or ha _ (by unfold IsFlags; decide), hrw]
  · rw [entryHas_or ha _ (by unfold IsFlags; decide), hps]

theorem DirectPage.names {t : Nat} (h : DirectPage t) : NamesTable t (tableEntry t) :=
  h.names_flags (by unfold IsFlags; decide) (by decide) (by decide) (by decide) (by decide)

theorem DirectPage.entry {t : Nat} (h : DirectPage t) :
    tableFromEntry (tableEntry t) = 8 * t ∧ userTables.child (tableEntry t) = some t ∧
      entryHas (tableEntry t) PEA_PRESENT = true ∧ entryHas (tableEntry t) PEA_IS_USER = true ∧
      entryHas (tableEntry t) PEA_READ_WRITE = true ∧
      entryHas (tableEntry t) PEA_PAGE_SIZE = false := by
  obtain ⟨htab, hpr, hus, hrw, hps⟩ := h.names
  exact ⟨htab, h.names.child, hpr, hus, hrw, hps⟩

/-- Different pages have no word in common. -/
theorem directPage_sep : userTables.Sep DirectPage := by
  intro t u ht hu i hi j hj he
  have hi' : i < 512 := hi
  have hj' : j < 512 := hj
  have h1 := ht.aligned
  have h2 := hu.aligned
  unfold PAGE_4K_SIZE PAGE_4K_SHIFT at h1 h2
  omega

/-! ## Trees -/

/-- **A well-formed tree of tables.** -/
structure PageTree (w : Memory) (pgd : Nat) : Prop where
  aligned : PAGE_4K_SIZE ∣ pgd
  tree : userTables.Ok w (userRoot pgd) DirectPage
  entries : ∀ l < 3, ∀ k t, userTables.node w (userRoot pgd) l k = some t →
    ∀ i < userTables.width l, w (t + i) = 0 ∨ ∃ q, NamesTable q (w (t + i))

variable {w w' : Memory} {pgd : Nat} {s : KMem}

/-- The child that a non-zero entry names. -/
theorem PageTree.child (h : PageTree w pgd) {l k t i : Nat} (hl : l < 3)
    (hn : userTables.node w (userRoot pgd) l k = some t) (hi : i < userTables.width l)
    (hz : w (t + i) ≠ 0) : ∃ q, DirectPage q ∧ NamesTable q (w (t + i)) ∧
      userTables.node w (userRoot pgd) (l + 1) (k * 512 + i) = some q := by
  obtain ⟨q, he⟩ := (h.entries l hl k t hn i hi).resolve_left hz
  have hchild : userTables.node w (userRoot pgd) (l + 1) (k * 512 + i) = some q :=
    (Tree.node_child (T := userTables) hn hi).trans he.child
  exact ⟨q, h.tree.own (l + 1) (show l + 1 ≤ 3 by omega) _ q hchild, he, hchild⟩

/-- A change outside the tables changes nothing. -/
theorem PageTree.congr (h : PageTree w pgd)
    (hw : ∀ l ≤ 3, ∀ k t, userTables.node w (userRoot pgd) l k = some t → ∀ i < userTables.width l,
      w' (t + i) = w (t + i)) :
    PageTree w' pgd ∧
      (∀ l ≤ 3, ∀ k, userTables.node w' (userRoot pgd) l k
        = userTables.node w (userRoot pgd) l k) ∧
      ∀ n, userLeaf w' pgd n = userLeaf w pgd n := by
  obtain ⟨htree, hnode, hleaf⟩ := h.tree.congr hw (fun l hl k t ht => h.tree.own l hl k t ht)
  refine ⟨⟨h.aligned, htree, fun l hl k t ht i hi => ?_⟩, hnode, hleaf⟩
  rw [hnode l (show l ≤ 3 by omega)] at ht
  rw [hw l (by omega) k t ht i hi]
  exact h.entries l hl k t ht i hi

/-- **A store into a leaf** changes that leaf only. -/
theorem PageTree.setLeaf (h : PageTree w pgd) {n a : Nat}
    (ha : userTables.slot w (userRoot pgd) n = some a) (e : BitVec 64) :
    PageTree (Function.update w a e) pgd ∧
      (∀ l ≤ 3, ∀ k, userTables.node (Function.update w a e) (userRoot pgd) l k
        = userTables.node w (userRoot pgd) l k) ∧
      ∀ m, userLeaf (Function.update w a e) pgd m = if m = n then e else userLeaf w pgd m := by
  obtain ⟨t, hta, rfl⟩ := Tree.slot_eq_some.mp ha
  obtain ⟨htree, hnode, hleaf⟩ := h.tree.setLeaf directPage_sep ha e
  refine ⟨⟨h.aligned, htree, fun l hl k u hu i hi => ?_⟩, hnode, hleaf⟩
  rw [hnode l hl.le] at hu
  rw [Function.update_of_ne]
  · exact h.entries l hl k u hu i hi
  · -- an inner entry is no leaf
    intro hc
    have := (h.tree.word_eq directPage_sep hl.le le_rfl hu hta (hi.trans_le (Tree.width_le l))
      (Nat.mod_lt n userTables.fanout_pos) hc).1
    rw [this] at hl
    exact absurd hl (by decide)

/-- **A table of zeros** in place of a missing one changes no leaf. -/
theorem PageTree.link (h : PageTree w pgd) {l k t i q : Nat} (hl : l < 3)
    (hn : userTables.node w (userRoot pgd) l k = some t) (hi : i < userTables.width l)
    (hz : w (t + i) = 0) (hq : DirectPage q)
    (hnew : ∀ l ≤ 3, ∀ k u, userTables.node w (userRoot pgd) l k = some u → u ≠ q)
    (hat : w' (t + i) = tableEntry q) (hzero : ∀ j < 512, w' (q + j) = 0)
    (hold : ∀ l ≤ 3, ∀ k u, userTables.node w (userRoot pgd) l k = some u →
      ∀ j < userTables.width l, u + j ≠ t + i → w' (u + j) = w (u + j)) :
    PageTree w' pgd ∧ userTables.node w' (userRoot pgd) (l + 1) (k * 512 + i) = some q ∧
      (∀ l ≤ 3, ∀ k u, userTables.node w (userRoot pgd) l k = some u →
        userTables.node w' (userRoot pgd) l k = some u) ∧
      (∀ l ≤ 3, ∀ k u, userTables.node w' (userRoot pgd) l k = some u →
        userTables.node w (userRoot pgd) l k = some u ∨ u = q) ∧
      ∀ n, userLeaf w' pgd n = userLeaf w pgd n := by
  obtain ⟨htree, hnode, hkept, hcases, hleaf⟩ := h.tree.link directPage_sep hl hn hi
    (by rw [hz]; exact userTables.child_zero) (by rw [hat]; exact hq.names.child) hzero hold hnew hq
    (fun l hl k u hu => h.tree.own l hl k u hu)
  refine ⟨⟨h.aligned, htree, fun l' hl' k' u hu j hj => ?_⟩, hnode, hkept, hcases, hleaf⟩
  rcases hcases l' hl'.le k' u hu with hu | rfl
  · by_cases hut : u + j = t + i
    · exact Or.inr ⟨q, by rw [hut, hat]; exact hq.names⟩
    · rw [hold l' hl'.le k' u hu j hj hut]
      exact h.entries l' hl' k' u hu j hj
  · exact Or.inl (hzero j (hj.trans_le (Tree.width_le l')))

/-! ## Levels -/

/-- The entry of a table, as the walk computes its address. -/
theorem entry_word (t i : Nat) : (8 * t + i * 8) / 8 = t + i := by omega

/-- The shifts of the last `d` levels before the leaves. -/
def lastShifts : Nat → List Nat
  | 0 => []
  | d + 1 => (12 + 9 * (d + 1)) :: lastShifts d

theorem lastShifts_length (d : Nat) : (lastShifts d).length = d := by
  induction d with
  | zero => rfl
  | succ d ih => rw [lastShifts, List.length_cons, ih]

/-- An index into a table. -/
theorem getBits_lt (vaddr shift : Nat) : getBits vaddr shift 9 < 512 := Nat.mod_lt _ (by decide)

/-- The number of the node for `vaddr` with `d` levels below it before the leaves. -/
def nodeNumber (vaddr d : Nat) : Nat := vaddr / 2 ^ (12 + 9 * (d + 1))

theorem nodeNumber_child (vaddr d : Nat) :
    nodeNumber vaddr (d + 1) * 512 + getBits vaddr (12 + 9 * (d + 1)) 9 = nodeNumber vaddr d := by
  unfold nodeNumber getBits
  rw [show 12 + 9 * (d + 1 + 1) = 12 + 9 * (d + 1) + 9 by omega, Nat.pow_add, ← Nat.div_div_eq_div_mul]
  exact Nat.div_add_mod' _ _

/-- The index the walk takes belongs to user space. -/
theorem index_lt_width {vaddr l d : Nat} (hv : vaddr < USER_LIMIT) (hl : l + (d + 1) = 3) :
    getBits vaddr (12 + 9 * (d + 1)) 9 < userTables.width l := by
  unfold Tree.width getBits
  split
  · obtain rfl : d = 2 := by omega
    show _ < 256
    unfold USER_LIMIT at hv
    omega
  · exact Nat.mod_lt _ (by decide)

/-- Where a node is missing, so is the next one below it. -/
theorem node_none_child {word : Memory} {root vaddr d l : Nat}
    (hn : userTables.node word root l (nodeNumber vaddr (d + 1)) = none) :
    userTables.node word root (l + 1) (nodeNumber vaddr d) = none := by
  cases hc : userTables.node word root (l + 1) (nodeNumber vaddr d) with
  | none => rfl
  | some t =>
      obtain ⟨-, u, hu, -⟩ := Tree.node_parent hc
      have hpar : nodeNumber vaddr d / userTables.fanout = nodeNumber vaddr (d + 1) := by
        rw [← nodeNumber_child vaddr d]
        exact (Tree.child_number (T := userTables) _ (Nat.mod_lt _ (by decide))).1
      rw [hpar, hn] at hu
      exact absurd hu (by simp)

/-- Where a node is missing, so are those below it. -/
theorem node_none_below {word : Memory} {root vaddr e : Nat} : ∀ d l : Nat, e ≤ d →
    userTables.node word root l (nodeNumber vaddr d) = none →
    userTables.node word root (l + (d - e)) (nodeNumber vaddr e) = none := by
  intro d
  induction d with
  | zero =>
      intro l he hn
      obtain rfl : e = 0 := by omega
      exact hn
  | succ d ih =>
      intro l he hn
      rcases Nat.eq_or_lt_of_le he with rfl | hlt
      · rw [Nat.sub_self]
        exact hn
      · have hnext := ih (l + 1) (by omega) (node_none_child hn)
        rwa [show l + (d + 1 - e) = l + 1 + (d - e) by omega]

theorem node_none_of_none (word : Memory) (root vaddr : Nat) (d l : Nat) (hl : l + d = 3)
    (hn : userTables.node word root l (nodeNumber vaddr d) = none) :
    userTables.node word root 3 (nodeNumber vaddr 0) = none := by
  have h0 := node_none_below (e := 0) d l (Nat.zero_le d) hn
  rwa [show l + (d - 0) = 3 by omega] at h0

/-- Where the walk starts. -/
theorem PageTree.root (h : PageTree w pgd) {vaddr : Nat} (hv : vaddr < USER_LIMIT) :
    phyToVirt (alignDown PAGE_4K_SIZE pgd) = 8 * userRoot pgd ∧
      userTables.node w (userRoot pgd) 0 (nodeNumber vaddr 3) = some (userRoot pgd) := by
  have hal : alignDown PAGE_4K_SIZE pgd = pgd := Nat.div_mul_cancel h.aligned
  refine ⟨?_, ?_⟩
  · obtain ⟨q, hq⟩ := h.aligned
    rw [hal, userRoot]
    unfold phyToVirt PAGE_OFFSET PAGE_4K_SIZE PAGE_4K_SHIFT at *
    omega
  · have h0 : nodeNumber vaddr 3 = 0 := by
      unfold nodeNumber USER_LIMIT at *
      omega
    rw [h0]
    rfl

/-- The entry for `vaddr` in the table the walk ends at. -/
theorem slot_of_node {word : Memory} {root vaddr q : Nat}
    (hq : userTables.node word root 3 (nodeNumber vaddr 0) = some q) :
    userTables.slot word root (vaddr / PAGE_4K_SIZE) = some (q + getBits vaddr PAGE_4K_SHIFT 9) := by
  refine Tree.slot_eq_some.mpr ⟨q, ?_, rfl⟩
  have : vaddr / PAGE_4K_SIZE / 512 = nodeNumber vaddr 0 := by
    unfold nodeNumber PAGE_4K_SIZE PAGE_4K_SHIFT
    omega
  exact (congrArg (userTables.node word root 3) this).trans hq

theorem slot_of_none {word : Memory} {root vaddr : Nat}
    (hq : userTables.node word root 3 (nodeNumber vaddr 0) = none) :
    userTables.slot word root (vaddr / PAGE_4K_SIZE) = none := by
  have hn : vaddr / PAGE_4K_SIZE / 512 = nodeNumber vaddr 0 := by
    unfold nodeNumber PAGE_4K_SIZE PAGE_4K_SHIFT
    omega
  unfold Tree.slot
  rw [show userTables.node word root userTables.depth (vaddr / PAGE_4K_SIZE / userTables.fanout)
    = none from (congrArg (userTables.node word root 3) hn).trans hq]
  rfl

/-! ## Walking -/

/-- The table a level of the walk goes on with. -/
theorem walkLevel_of_makeTable {s' : KMem} {entry t : Nat} {create : Bool}
    (hm : makeTable s entry create = some (s', true))
    (he : NamesTable t (s'.word (entry / 8))) :
    walkLevel s entry create = some (s', some (8 * t)) := by
  unfold walkLevel
  rw [hm]
  dsimp only
  rw [if_neg he.goes_on, he.table]

theorem walkLevel_found (entry : Nat) {t : Nat} (he : NamesTable t (s.word (entry / 8)))
    (create : Bool) : walkLevel s entry create = some (s, some (8 * t)) := by
  apply walkLevel_of_makeTable _ he
  rw [makeTable, if_neg]
  rintro ⟨h0, -⟩
  exact he.ne_zero h0

theorem walkLevel_made {s₁ : KMem} (entry : Nat) {t : Nat} (h : DirectPage t)
    (hz : s.word (entry / 8) = 0) (hk : kmalloc s PAGE_4K_SIZE = some (s₁, some (8 * t))) :
    walkLevel s entry true
      = some ((s₁.clear (8 * t) PAGE_4K_SIZE).write entry (tableEntry t), some (8 * t)) := by
  refine walkLevel_of_makeTable ?_ ?_
  · rw [makeTable, if_pos ⟨hz, rfl⟩, hk]
    rfl
  · have he : ((s₁.clear (8 * t) PAGE_4K_SIZE).write entry (tableEntry t)).word (entry / 8)
        = tableEntry t := Function.update_self ..
    rw [he]
    exact h.names

theorem walkTables_cons {s₁ : KMem} {vaddr shift table t : Nat} {create : Bool}
    {shifts : List Nat}
    (h : walkLevel s (table + getBits vaddr shift 9 * 8) create = some (s₁, some t)) :
    walkTables vaddr create (shift :: shifts) s table = walkTables vaddr create shifts s₁ t := by
  rw [walkTables, h]

theorem walkPte_eq (hr : phyToVirt (alignDown PAGE_4K_SIZE pgd) = 8 * userRoot pgd)
    (s : KMem) (vaddr : Nat) (create : Bool) :
    walkPte s pgd vaddr create = (walkTables vaddr create (lastShifts 3) s (8 * userRoot pgd)).map
      (fun r => (r.1, r.2.map (· + getBits vaddr PAGE_4K_SHIFT 9 * 8))) := by
  unfold walkPte
  rw [hr]
  rfl

/-- **The walk without `create`** finds the table for `vaddr` if there is one. -/
theorem PageTree.walkTables_find (h : PageTree s.word pgd) {vaddr : Nat} (hv : vaddr < USER_LIMIT) :
    ∀ d l t : Nat, l + d = 3 →
      userTables.node s.word (userRoot pgd) l (nodeNumber vaddr d) = some t →
      walkTables vaddr false (lastShifts d) s (8 * t)
        = some (s, (userTables.node s.word (userRoot pgd) 3 (nodeNumber vaddr 0)).map (8 * ·)) := by
  intro d
  induction d with
  | zero =>
      intro l t hl hn
      obtain rfl : l = 3 := by omega
      rw [hn]
      rfl
  | succ d ih =>
      intro l t hl hn
      have hi := index_lt_width hv hl
      rw [lastShifts, walkTables]
      by_cases hz : s.word (t + getBits vaddr (12 + 9 * (d + 1)) 9) = 0
      · have hnone : userTables.node s.word (userRoot pgd) (l + 1) (nodeNumber vaddr d) = none := by
          rw [← nodeNumber_child, ← userTables.child_zero, ← hz]
          exact Tree.node_child (T := userTables) hn hi
        rw [walkLevel, makeTable]
        simp only [entry_word, Bool.false_eq_true, and_false, if_false]
        rw [if_pos (Or.inl hz), node_none_of_none _ _ _ d (l + 1) (by omega) hnone]
        rfl
      · obtain ⟨q, -, he, hchild⟩ := h.child (by omega) hn hi hz
        rw [nodeNumber_child] at hchild
        rw [walkLevel_found _ (by rw [entry_word]; exact he)]
        exact ih (l + 1) q (by omega) hchild

/-- **`walk_pte` without `create`** finds the entry for `vaddr` if there is one. -/
theorem PageTree.walkPte_find (h : PageTree s.word pgd) {vaddr : Nat} (hv : vaddr < USER_LIMIT) :
    walkPte s pgd vaddr false
      = some (s, (userTables.slot s.word (userRoot pgd) (vaddr / PAGE_4K_SIZE)).map (8 * ·)) := by
  obtain ⟨hr, hn⟩ := h.root hv
  rw [walkPte_eq hr, h.walkTables_find hv 3 0 _ rfl hn]
  cases hq : userTables.node s.word (userRoot pgd) 3 (nodeNumber vaddr 0) with
  | none =>
      rw [slot_of_none hq]
      rfl
  | some q =>
      rw [slot_of_node hq]
      simp only [Option.map_some, Nat.mul_add, Nat.mul_comm 8 (getBits _ _ _)]

/-- The number of tables a walk to `vaddr` misses, from `table` on. -/
def tablesMissing (word : Memory) (vaddr : Nat) : List Nat → Nat → Nat
  | [], _ => 0
  | shift :: shifts, table =>
      let e := word ((table + getBits vaddr shift 9 * 8) / 8)
      if e = 0 then shifts.length + 1 else tablesMissing word vaddr shifts (tableFromEntry e)

/-- A table of zeros misses all tables below it. -/
theorem tablesMissing_of_zero {q : Nat} (h : ∀ j < 512, w (q + j) = 0) (vaddr d : Nat) :
    tablesMissing w vaddr (lastShifts d) (8 * q) = d := by
  cases d with
  | zero => rfl
  | succ d =>
      rw [lastShifts, tablesMissing, entry_word, h _ (getBits_lt ..), if_pos rfl, lastShifts_length]

/-- The number of tables a walk to `vaddr` misses. -/
def missingTables (word : Memory) (pgd vaddr : Nat) : Nat :=
  tablesMissing word vaddr [PAGE_GDT_SHIFT, PAGE_1G_SHIFT, PAGE_2M_SHIFT]
    (phyToVirt (alignDown PAGE_4K_SIZE pgd))

theorem tablesMissing_le (word : Memory) (vaddr : Nat) :
    ∀ shifts table, tablesMissing word vaddr shifts table ≤ shifts.length
  | [], _ => le_rfl
  | shift :: shifts, table => by
      unfold tablesMissing
      dsimp only
      split_ifs
      · exact le_rfl
      · exact (tablesMissing_le word vaddr shifts _).trans (Nat.le_succ _)

theorem missingTables_le (word : Memory) (pgd vaddr : Nat) : missingTables word pgd vaddr ≤ 3 :=
  tablesMissing_le word vaddr _ _

/-- The tables a walk misses depend on the words of the tables only. -/
theorem PageTree.tablesMissing_congr (h : PageTree w pgd)
    (hw : ∀ l ≤ 3, ∀ k t, userTables.node w (userRoot pgd) l k = some t →
      ∀ i < userTables.width l, w' (t + i) = w (t + i))
    {vaddr : Nat} (hv : vaddr < USER_LIMIT) : ∀ d l t : Nat, l + d = 3 →
      userTables.node w (userRoot pgd) l (nodeNumber vaddr d) = some t →
      tablesMissing w' vaddr (lastShifts d) (8 * t)
        = tablesMissing w vaddr (lastShifts d) (8 * t) := by
  intro d
  induction d with
  | zero => exact fun _ _ _ _ => rfl
  | succ d ih =>
      intro l t hl hn
      have hi := index_lt_width hv hl
      rw [lastShifts, tablesMissing, tablesMissing, entry_word, hw l (by omega) _ t hn _ hi]
      by_cases hz : w (t + getBits vaddr (12 + 9 * (d + 1)) 9) = 0
      · rw [if_pos hz, if_pos hz]
      · obtain ⟨q, -, he, hchild⟩ := h.child (by omega) hn hi hz
        rw [nodeNumber_child] at hchild
        rw [if_neg hz, if_neg hz, he.table]
        exact ih (l + 1) q (by omega) hchild

theorem PageTree.missingTables_congr (h : PageTree w pgd)
    (hw : ∀ l ≤ 3, ∀ k t, userTables.node w (userRoot pgd) l k = some t →
      ∀ i < userTables.width l, w' (t + i) = w (t + i))
    {vaddr : Nat} (hv : vaddr < USER_LIMIT) :
    missingTables w' pgd vaddr = missingTables w pgd vaddr := by
  obtain ⟨hr, hn⟩ := h.root hv
  unfold missingTables
  rw [hr]
  exact h.tablesMissing_congr hw hv 3 0 _ rfl hn

/-- **A single table of zeros** is a tree without leaves. -/
theorem PageTree.empty (ha : PAGE_4K_SIZE ∣ pgd) (hr : DirectPage (userRoot pgd))
    (hz : ∀ i < 256, w (userRoot pgd + i) = 0) :
    PageTree w pgd ∧
      (∀ l k t, userTables.node w (userRoot pgd) l k = some t → t = userRoot pgd) ∧
      (∀ n, userLeaf w pgd n = 0) ∧ ∀ vaddr < USER_LIMIT, missingTables w pgd vaddr = 3 := by
  have hz' : ∀ i < userTables.top, w (userRoot pgd + i) = 0 := hz
  obtain ⟨htree, hleaf⟩ := Tree.Ok.empty hz' hr
  have hpt : PageTree w pgd := by
    refine ⟨ha, htree, fun l _ k t ht i hi => ?_⟩
    obtain ⟨rfl, -, rfl⟩ := Tree.root_of_empty (T := userTables) hz' ht
    exact Or.inl (hz i hi)
  refine ⟨hpt, fun l k t ht => (Tree.root_of_empty (T := userTables) hz' ht).2.2, hleaf,
    fun vaddr hv => ?_⟩
  obtain ⟨hroot, -⟩ := hpt.root hv
  unfold missingTables tablesMissing
  rw [hroot, entry_word, if_pos]
  · rfl
  · exact hz _ (index_lt_width (l := 0) (d := 2) hv rfl)

/-! ## What the processor reads -/

/-- What the processor makes of a leaf below tables that take no right away. -/
def leafMapping (e : BitVec 64) : Option Mapping :=
  if entryHas e PEA_PRESENT then
    some ⟨⟨page4KIndex (entryAddr e), entryHas e PEA_IS_USER, entryHas e PEA_READ_WRITE⟩,
      entryFlags e⟩
  else none

theorem PageTree.mappingFrom_eq (h : PageTree w pgd) {vaddr : Nat} (hv : vaddr < USER_LIMIT) :
    ∀ d l t : Nat, l + d = 3 →
      userTables.node w (userRoot pgd) l (nodeNumber vaddr d) = some t →
      mappingFrom w vaddr (lastShifts d) (8 * t) true true
        = leafMapping (userLeaf w pgd (vaddr / PAGE_4K_SIZE)) := by
  intro d
  induction d with
  | zero =>
      intro l t hl hn
      obtain rfl : l = 3 := by omega
      rw [userLeaf, Tree.leaf_of_slot (slot_of_node hn), lastShifts, mappingFrom, entry_word]
      rfl
  | succ d ih =>
      intro l t hl hn
      have hi := index_lt_width hv hl
      rw [lastShifts, mappingFrom, entry_word]
      by_cases hz : w (t + getBits vaddr (12 + 9 * (d + 1)) 9) = 0
      · have hnone : userTables.node w (userRoot pgd) (l + 1) (nodeNumber vaddr d) = none := by
          rw [← nodeNumber_child, ← userTables.child_zero, ← hz]
          exact Tree.node_child (T := userTables) hn hi
        have hslot := slot_of_none (node_none_of_none _ _ _ d (l + 1) (by omega) hnone)
        rw [hz, userLeaf, Tree.leaf_of_none hslot]
        rfl
      · obtain ⟨q, -, he, hchild⟩ := h.child (by omega) hn hi hz
        rw [nodeNumber_child] at hchild
        simp only [he.present, he.user, he.writable, he.small, he.table, Bool.and_true, if_true,
          Bool.false_eq_true, if_false]
        exact ih (l + 1) q (by omega) hchild

/-- **The processor** reads the leaf for an address of user space. -/
theorem PageTree.mapping_eq (h : PageTree w pgd) {vaddr : Nat} (hv : vaddr < USER_LIMIT) :
    mapping w pgd vaddr = leafMapping (userLeaf w pgd (vaddr / PAGE_4K_SIZE)) := by
  obtain ⟨hr, hn⟩ := h.root hv
  unfold mapping
  rw [hr]
  exact h.mappingFrom_eq hv 3 0 _ rfl hn

/-- The processor's way down to a node, in a memory that has the entries above it. -/
theorem PageTree.mappingFrom_node (h : PageTree w pgd) {vaddr : Nat} : ∀ m ≤ 3, ∀ q,
    userTables.node w (userRoot pgd) m (nodeNumber vaddr (3 - m)) = some q →
    (∀ l < m, ∀ k t, userTables.node w (userRoot pgd) l k = some t → ∀ i < userTables.width l,
      w' (t + i) = w (t + i)) →
    mappingFrom w' vaddr (lastShifts 3) (8 * userRoot pgd) true true
      = mappingFrom w' vaddr (lastShifts (3 - m)) (8 * q) true true := by
  intro m
  induction m with
  | zero =>
      intro _ q hq _
      change (if nodeNumber vaddr 3 = 0 then some (userRoot pgd) else none) = some q at hq
      split at hq
      · rw [← Option.some.inj hq]
      · exact absurd hq (by simp)
  | succ m ih =>
      intro hm q hq hw
      obtain ⟨d, hd⟩ : ∃ d, 3 - m = d + 1 := ⟨2 - m, by omega⟩
      have hd' : 3 - (m + 1) = d := by omega
      rw [hd'] at hq ⊢
      obtain ⟨hi, t, ht, hc⟩ := Tree.node_parent hq
      obtain ⟨hdiv, hmod⟩ := Tree.child_number (T := userTables) (nodeNumber vaddr (d + 1))
        (getBits_lt vaddr (12 + 9 * (d + 1)))
      rw [show nodeNumber vaddr (d + 1) * userTables.fanout + getBits vaddr (12 + 9 * (d + 1)) 9
        = nodeNumber vaddr d from nodeNumber_child vaddr d] at hdiv hmod
      rw [hmod] at hi hc
      rw [hdiv] at ht
      -- the entry that names the node
      obtain ⟨q', he⟩ := (h.entries m (by omega) _ t ht _ hi).resolve_left (fun h0 => by
        rw [h0, userTables.child_zero] at hc
        exact absurd hc (by simp))
      obtain rfl : q' = q := by
        rw [he.child] at hc
        exact Option.some.inj hc
      rw [ih (by omega) t (by rw [hd]; exact ht) (fun l hl => hw l (by omega)), hd, lastShifts,
        mappingFrom, entry_word, hw m (by omega) _ t ht _ hi]
      simp only [he.present, he.user, he.writable, he.small, he.table, Bool.and_true, if_true,
        Bool.false_eq_true, if_false]

/-- An entry that names its own table ends the walk of the processor there. -/
theorem mappingFrom_self {q i vaddr : Nat} (h : NamesTable q (w (q + i))) :
    ∀ d, (∀ e ≤ d, getBits vaddr (12 + 9 * e) 9 = i) →
      mappingFrom w vaddr (lastShifts d) (8 * q) true true ≠ none := by
  intro d
  induction d with
  | zero =>
      intro hi
      rw [lastShifts, mappingFrom, entry_word, show getBits vaddr PAGE_4K_SHIFT 9 = i from hi 0 le_rfl]
      simp [h.present]
  | succ d ih =>
      intro hi
      rw [lastShifts, mappingFrom, entry_word, hi (d + 1) le_rfl]
      simp only [h.present, h.user, h.writable, h.small, h.table, Bool.and_true, if_true,
        Bool.false_eq_true, if_false]
      exact ih (fun e he => hi e (by omega))

/-- Below a missing table nothing is translated. -/
theorem PageTree.mapping_none (h : PageTree w pgd) {vaddr : Nat} (hv : vaddr < USER_LIMIT) {d l : Nat}
    (hl : l + d = 3) (hn : userTables.node w (userRoot pgd) l (nodeNumber vaddr d) = none) :
    mapping w pgd vaddr = none := by
  rw [h.mapping_eq hv, userLeaf,
    Tree.leaf_of_none (slot_of_none (node_none_of_none _ _ _ d l hl hn))]
  rfl

end Talios
