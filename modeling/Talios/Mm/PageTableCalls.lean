import Talios.Mm.PageTableStep

set_option autoImplicit false

/-! # `MapPage4K`, `UnmapPage4K` and `unmap_anonymous_pages`

What the calls do to the leaves of an address space and to the frames of its user, and what the
processor reads in tables that satisfy their invariant.
-/

namespace Talios

open Word Bitmap Dyadic Radix

section

variable {m₀ : MMS} {pool : Nat → Slab} {s : KMem} {out : Nat → Nat} {objs : List Obj} {pgd : Nat}

/-- A frame of a user has an address below `2^47`. -/
theorem UserFrame.lt (hd : DirectMap m₀ pool) {f : Nat} (hf : UserFrame m₀ out f) :
    f < m₀.pagesCount ∧ f * PAGE_4K_SIZE < 2 ^ 47 := by
  obtain ⟨⟨zi, hz, hin⟩, -⟩ := hf
  have h1 := hd.frames zi hz f hin
  refine ⟨h1, lt_of_lt_of_le ?_ hd.count⟩
  exact Nat.mul_lt_mul_of_pos_right h1 (by decide)

/-- The frame a leaf maps, by its address. -/
theorem UserFrame.entryAddr (hd : DirectMap m₀ pool) {f : Nat} (hf : UserFrame m₀ out f)
    (b : Bool) : entryAddr (userPage f b) = f * PAGE_4K_SIZE :=
  entryAddr_userPage (lt_trans (hf.lt hd).2 (by decide)) b

/-- A frame is mapped at one page of an address space at most. -/
theorem TablesInv.page_inj (hd : DirectMap m₀ pool) {w : Memory}
    (ht : TablesInv m₀ w pgd out objs) {n n' f : Nat} {b b' : Bool} (hf : UserFrame m₀ out f)
    (hn : userLeaf w pgd n = userPage f b) (hn' : userLeaf w pgd n' = userPage f b') : n = n' := by
  refine ht.frames n n' (by rw [hn]; exact userPage_ne_zero f b)
    (by rw [hn']; exact userPage_ne_zero f b') ?_
  rw [hn, hn', hf.entryAddr hd, hf.entryAddr hd]

/-- **The entry for page `n`** of a tree in the heap is written. -/
theorem HeapTree.setLeaf (hd : DirectMap m₀ pool) (h : HeapTree m₀ pool pgd s out objs) {n a : Nat}
    (ha : userTables.slot s.word (userRoot pgd) n = some a) (e : BitVec 64) :
    HeapTree m₀ pool pgd (s.write (8 * a) e) out objs ∧
      (∀ l ≤ 3, ∀ k, userTables.node (s.write (8 * a) e).word (userRoot pgd) l k
        = userTables.node s.word (userRoot pgd) l k) ∧
      ∀ m, userLeaf (s.write (8 * a) e).word pgd m = if m = n then e else userLeaf s.word pgd m := by
  have hword : (s.write (8 * a) e).word = Function.update s.word a e := by
    rw [KMem.write, Nat.mul_div_cancel_left _ (by decide)]
  obtain ⟨htree, hnode, hleaf⟩ := h.tree.setLeaf ha e
  obtain ⟨t, hta, rfl⟩ := Tree.slot_eq_some.mp ha
  rw [← hword] at htree hnode hleaf
  refine ⟨⟨h.heap.setWord (fun c hc => ?_), htree, fun l hl k u hu => ?_⟩, hnode, hleaf⟩
  · rw [show Function.update s.word (8 * (t + n % userTables.fanout) / 8) e = _ from hword]
    refine Function.update_of_ne (fun hce => ?_) ..
    exact h.not_mapWord hd.toPoolLayout le_rfl hta (Nat.mod_lt n (by decide)) (hce ▸ hc)
  · rw [hnode l hl] at hu
    exact h.owned l hl k u hu

/-- The entry for page `n` is written: zero, or a frame of the user that is not mapped yet. -/
theorem TablesInv.setLeaf (hd : DirectMap m₀ pool) (h : HeapInv m₀ pool s out objs)
    (ht : TablesInv m₀ s.word pgd out objs) {n a : Nat}
    (ha : userTables.slot s.word (userRoot pgd) n = some a) {e : BitVec 64}
    (he : e = 0 ∨ ∃ f b, UserFrame m₀ out f ∧ e = userPage f b ∧
      ∀ n' b', userLeaf s.word pgd n' ≠ userPage f b') :
    HeapInv m₀ pool (s.write (8 * a) e) out objs ∧
      TablesInv m₀ (s.write (8 * a) e).word pgd out objs ∧
      (∀ l ≤ 3, ∀ k, userTables.node (s.write (8 * a) e).word (userRoot pgd) l k
        = userTables.node s.word (userRoot pgd) l k) ∧
      ∀ m, userLeaf (s.write (8 * a) e).word pgd m = if m = n then e else userLeaf s.word pgd m := by
  have hsep := h.sep hd.toPoolLayout
  have hword : (s.write (8 * a) e).word = Function.update s.word a e := by
    rw [KMem.write, Nat.mul_div_cancel_left _ (by decide)]
  obtain ⟨hset, hnode, hleaf⟩ := (ht.heapTree hd h).setLeaf hd ha e
  refine ⟨hset.heap, ⟨ht.aligned, ⟨hset.owned, hset.tree.tree.inj⟩, fun l hl k u hu i hil => ?_,
    fun m hm => ?_, fun m m' hm hm' hmm => ?_⟩, hnode, hleaf⟩
  · rw [hnode l hl.le] at hu
    obtain ⟨t, hta, rfl⟩ := Tree.slot_eq_some.mp ha
    rw [hword, Function.update_of_ne]
    · exact ht.entries l hl k u hu i hil
    · -- an inner entry is no leaf
      intro hc
      have := (ht.tree.word_eq hsep hl.le le_rfl hu hta (hil.trans_le (Tree.width_le l))
        (Nat.mod_lt n (by decide)) hc).1
      rw [this] at hl
      exact absurd hl (by decide)
  · rw [hleaf] at hm ⊢
    split at hm
    · rename_i hmn
      rw [if_pos hmn]
      obtain ⟨f, b, hf, he, -⟩ := he.resolve_left hm
      exact ⟨f, b, hf, he⟩
    · rename_i hmn
      rw [if_neg hmn]
      exact ht.leaves m hm
  · -- the new frame is mapped nowhere else
    have hnew : ∀ m ≠ n, e ≠ 0 → userLeaf s.word pgd m ≠ 0 →
        entryAddr (userLeaf s.word pgd m) ≠ entryAddr e := by
      intro m _ he0 hm0 heq
      obtain ⟨f, b, hf, rfl, hno⟩ := he.resolve_left he0
      obtain ⟨g, c, hg, hge⟩ := ht.leaves m hm0
      rw [hge, hg.entryAddr hd, hf.entryAddr hd] at heq
      obtain rfl := Nat.eq_of_mul_eq_mul_right (show 0 < PAGE_4K_SIZE by decide) heq
      exact hno m c hge
    rw [hleaf] at hm hm'
    rw [hleaf, hleaf] at hmm
    by_cases h1 : m = n <;> by_cases h2 : m' = n
    · rw [h1, h2]
    · rw [if_pos h1] at hm hmm
      rw [if_neg h2] at hm' hmm
      exact absurd hmm.symm (hnew m' h2 hm hm')
    · rw [if_neg h1] at hm hmm
      rw [if_pos h2] at hm' hmm
      exact absurd hmm (hnew m h1 hm' hm)
    · rw [if_neg h1] at hm hmm
      rw [if_neg h2] at hm' hmm
      exact ht.frames m m' hm hm' hmm

/-- The flags `MapPage4K` is given for a user's page. -/
def userFlags (writable : Bool) : BitVec 64 :=
  PEA_PRESENT ||| PEA_IS_USER ||| if writable then PEA_READ_WRITE else 0

/-- A leaf that is not present is zero. -/
theorem TablesInv.leaf_eq_zero {w : Memory} (ht : TablesInv m₀ w pgd out objs) {n : Nat} :
    userLeaf w pgd n &&& PEA_PRESENT = 0 ↔ userLeaf w pgd n = 0 := by
  constructor
  · intro h0
    by_contra hne
    obtain ⟨f, b, -, he⟩ := ht.leaves n hne
    rw [he, ← entryHas_eq_false, (entryHas_userPage f b).1] at h0
    exact absurd h0 (by simp)
  · intro h0
    rw [h0]
    rfl

/-- **`MapPage4K`** of a user's frame that is not mapped: it fails after a walk, or the entry for
`vaddr`, zero so far, maps the frame. -/
theorem mapPage4K_spec (hd : DirectMap m₀ pool) (h : HeapInv m₀ pool s out objs)
    (ht : TablesInv m₀ s.word pgd out objs) {vaddr f : Nat} (b : Bool) (hv : vaddr < USER_LIMIT)
    (hal : vaddr % PAGE_4K_SIZE = 0) (hf : UserFrame m₀ out f)
    (hroom : PagesRoom s (missingTables s.word pgd vaddr)) :
    ∃ s₁ objs₁, Walked m₀ pool out pgd s objs s₁ objs₁ ∧
      ((∃ r, r ≠ 0 ∧ mapPage4K s pgd vaddr (some f) (userFlags b) = some (s₁, r)) ∨
        ∃ a, mapPage4K s pgd vaddr (some f) (userFlags b)
            = some (s₁.write (8 * a) (userPage f b), 0) ∧
          userTables.slot s₁.word (userRoot pgd) (vaddr / PAGE_4K_SIZE) = some a ∧
          userLeaf s.word pgd (vaddr / PAGE_4K_SIZE) = 0) := by
  obtain ⟨-, -, hphy, -⟩ := h.toHeapCore.held hf
  obtain ⟨s₁, objs₁, hw, hres⟩ := walkPte_create hd h ht hv hroom
  refine ⟨s₁, objs₁, hw, ?_⟩
  unfold mapPage4K
  dsimp only
  rw [hphy, if_neg (by simp [hal])]
  rcases hres with he | ⟨a, he, ha⟩
  · exact Or.inl ⟨-(ENOMEM : Int), by decide, by rw [he]⟩
  · rw [he]
    dsimp only
    rw [Nat.mul_div_cancel_left _ (show 0 < 8 by decide)]
    have hleaf : userLeaf s₁.word pgd (vaddr / PAGE_4K_SIZE) = s₁.word a := Tree.leaf_of_slot ha
    by_cases hpr : s₁.word a &&& PEA_PRESENT = 0
    · right
      refine ⟨a, ?_, ha, ?_⟩
      · rw [if_neg (by simp [hpr])]
        have hmask : userFlags b &&& ~~~ PEA_PAGE_SIZE = userFlags b := by cases b <;> decide
        rw [hmask]
        rfl
      · rw [← hw.leaf, ← hw.tables.leaf_eq_zero, hleaf, hpr]
    · exact Or.inl ⟨-(ENOMEM : Int), by decide, by rw [if_pos hpr]⟩

/-- **`UnmapPage4K`** finds nothing, or clears the entry for `vaddr` and returns its frame. -/
theorem unmapPage4K_spec (hd : DirectMap m₀ pool) (h : HeapInv m₀ pool s out objs)
    (ht : TablesInv m₀ s.word pgd out objs) {vaddr : Nat} (hv : vaddr < USER_LIMIT)
    (hal : vaddr % PAGE_4K_SIZE = 0) :
    (userLeaf s.word pgd (vaddr / PAGE_4K_SIZE) = 0 ∧ unmapPage4K s pgd vaddr = some (s, none)) ∨
    ∃ a f b, UserFrame m₀ out f ∧ userLeaf s.word pgd (vaddr / PAGE_4K_SIZE) = userPage f b ∧
      userTables.slot s.word (userRoot pgd) (vaddr / PAGE_4K_SIZE) = some a ∧
      unmapPage4K s pgd vaddr = some (s.write (8 * a) 0, some f) := by
  unfold unmapPage4K
  rw [if_neg (by simp [hal]), walkPte_find hd h ht hv]
  cases ha : userTables.slot s.word (userRoot pgd) (vaddr / PAGE_4K_SIZE) with
  | none => exact Or.inl ⟨Tree.leaf_of_none ha, rfl⟩
  | some a =>
      have hleaf : userLeaf s.word pgd (vaddr / PAGE_4K_SIZE) = s.word a := Tree.leaf_of_slot ha
      simp only [Option.map_some]
      rw [Nat.mul_div_cancel_left _ (show 0 < 8 by decide)]
      by_cases hpr : s.word a &&& PEA_PRESENT = 0
      · left
        rw [if_pos hpr]
        exact ⟨ht.leaf_eq_zero.mp (by rw [hleaf, hpr]), rfl⟩
      · right
        obtain ⟨f, b, hf, he⟩ := ht.leaves (vaddr / PAGE_4K_SIZE) (by
          rw [hleaf]
          rintro h0
          rw [h0] at hpr
          exact hpr rfl)
        refine ⟨a, f, b, hf, he, rfl, ?_⟩
        rw [if_neg hpr, ← hleaf, he, hf.entryAddr hd, page4KIndex_mul, if_neg]
        have := (hf.lt hd).1
        show ¬ s.mms.pagesCount ≤ f
        rw [h.layout.pagesCount]
        omega

/-! ## Unmapping a range -/

/-- The pages from `lo` up to `hi` have been unmapped and their frames given back. -/
structure Unmapped (m₀ : MMS) (pool : Nat → Slab) (pgd : Nat) (objs : List Obj) (lo hi : Nat)
    (s : KMem) (out : Nat → Nat) (s' : KMem) (out' : Nat → Nat) : Prop where
  heap : HeapInv m₀ pool s' out' objs
  tables : TablesInv m₀ s'.word pgd out' objs
  leaf : ∀ n, userLeaf s'.word pgd n = if lo ≤ n ∧ n < hi then 0 else userLeaf s.word pgd n
  freed : ∀ n f b, lo ≤ n → n < hi → UserFrame m₀ out f → userLeaf s.word pgd n = userPage f b →
    out' f = 0
  kept : ∀ f, (∀ n b, lo ≤ n → n < hi → userLeaf s.word pgd n ≠ userPage f b) → out' f = out f
  cache : s'.cache = s.cache

theorem Unmapped.refl (h : HeapInv m₀ pool s out objs) (ht : TablesInv m₀ s.word pgd out objs)
    (lo : Nat) : Unmapped m₀ pool pgd objs lo lo s out s out :=
  ⟨h, ht, fun n => by rw [if_neg (by omega)], fun n f b h1 h2 => absurd h2 (by omega),
    fun _ _ => rfl, rfl⟩

theorem Unmapped.trans (hd : DirectMap m₀ pool) (ht : TablesInv m₀ s.word pgd out objs)
    {lo mid hi : Nat} {s₁ s₂ : KMem} {out₁ out₂ : Nat → Nat} (hlm : lo ≤ mid)
    (hmh : mid ≤ hi) (h : Unmapped m₀ pool pgd objs lo mid s out s₁ out₁)
    (h' : Unmapped m₀ pool pgd objs mid hi s₁ out₁ s₂ out₂) :
    Unmapped m₀ pool pgd objs lo hi s out s₂ out₂ := by
  refine ⟨h'.heap, h'.tables, fun n => ?_, fun n f b h1 h2 hf he => ?_, fun f hno => ?_,
    h'.cache.trans h.cache⟩
  · rw [h'.leaf, h.leaf]
    by_cases h1 : mid ≤ n ∧ n < hi
    · rw [if_pos h1, if_pos (by omega)]
    · rw [if_neg h1]
      by_cases h2 : lo ≤ n ∧ n < mid
      · rw [if_pos h2, if_pos (by omega)]
      · rw [if_neg h2, if_neg (by omega)]
  · rcases Nat.lt_or_ge n mid with hn | hn
    · -- freed in the first part, so it is mapped nowhere in the second
      have h0 := h.freed n f b h1 hn hf he
      rw [h'.kept f (fun n' b' h3 h4 he' => ?_), h0]
      rw [h.leaf, if_neg (by omega)] at he'
      have := ht.page_inj hd hf he he'
      omega
    · refine h'.freed n f b hn h2 ⟨hf.zone, ?_⟩ (by rw [h.leaf, if_neg (by omega)]; exact he)
      rw [h.kept f (fun n' b' h3 h4 he' => ?_)]
      · exact hf.out
      · have := ht.page_inj hd hf he he'
        omega
  · rw [h'.kept f (fun n b h1 h2 he => ?_), h.kept f (fun n b h1 h2 => hno n b h1 (by omega))]
    rw [h.leaf, if_neg (by omega)] at he
    exact hno n b (by omega) h2 he

/-- One pass of the loop of `unmap_anonymous_pages`. -/
theorem unmapStep (hd : DirectMap m₀ pool) (h : HeapInv m₀ pool s out objs)
    (ht : TablesInv m₀ s.word pgd out objs) {m : Nat} (hm : m * PAGE_4K_SIZE < USER_LIMIT) :
    ∃ s' out', Unmapped m₀ pool pgd objs m (m + 1) s out s' out' ∧
      ∀ fuel, unmapLoop pgd (fuel + 1) (m * PAGE_4K_SIZE) s
        = unmapLoop pgd fuel ((m + 1) * PAGE_4K_SIZE) s' := by
  have hdiv : m * PAGE_4K_SIZE / PAGE_4K_SIZE = m := Nat.mul_div_cancel _ (by decide)
  have hsucc : m * PAGE_4K_SIZE + PAGE_4K_SIZE = (m + 1) * PAGE_4K_SIZE := by
    rw [Nat.add_mul, Nat.one_mul]
  have hone : ∀ n, (m ≤ n ∧ n < m + 1) ↔ n = m := by omega
  rcases unmapPage4K_spec hd h ht hm (Nat.mul_mod_left _ _) with
    ⟨h0, he⟩ | ⟨a, f, b, hf, hleaf, ha, he⟩
  · rw [hdiv] at h0
    refine ⟨s, out, ⟨h, ht, fun n => ?_, fun n g c h1 h2 _ hg => ?_, fun _ _ => rfl, rfl⟩,
      fun fuel => ?_⟩
    · simp only [hone]
      split
      · rename_i hn; rw [hn, h0]
      · rfl
    · obtain rfl : n = m := by omega
      rw [h0] at hg
      exact absurd hg.symm (userPage_ne_zero g c)
    · rw [unmapLoop, he, hsucc]
  · rw [hdiv] at hleaf ha
    obtain ⟨h₁, ht₁, -, hl₁⟩ := ht.setLeaf hd h ha (Or.inl rfl)
    obtain ⟨m', hfree, h₂⟩ := h₁.frameGiven hf
    have hf1 := (h.toHeapCore.held hf).1
    have ht₂ : TablesInv m₀ (s.write (8 * a) 0).word pgd (fun x => out x - ind f 0 x) objs := by
      refine (ht₁.congr (fun _ _ _ _ _ _ _ => rfl) (fun _ hp => hp) (fun n g c hg hgf => ?_)).1
      refine ⟨hgf.zone, ?_⟩
      show 0 < out g - ind f 0 g
      rw [ind_zero, if_neg]
      · exact hgf.out
      · -- the frame is mapped nowhere else
        rintro rfl
        rw [hl₁] at hg
        split at hg
        · exact userPage_ne_zero g c hg.symm
        · rename_i hne
          exact hne (ht.page_inj hd hgf hg hleaf)
    refine ⟨{ s.write (8 * a) 0 with mms := m' }, fun x => out x - ind f 0 x,
      ⟨h₂, ht₂, fun n => ?_, fun n g c h1 h2 hgf hg => ?_, fun g hno => ?_, rfl⟩, fun fuel => ?_⟩
    · simp only [hone]
      exact hl₁ n
    · obtain rfl : n = m := by omega
      have hfg : f * PAGE_4K_SIZE = g * PAGE_4K_SIZE := by
        rw [← hf.entryAddr hd b, ← hgf.entryAddr hd c, ← hleaf, hg]
      obtain rfl := Nat.eq_of_mul_eq_mul_right (show 0 < PAGE_4K_SIZE by decide) hfg
      show out f - ind f 0 f = 0
      rw [ind_zero, if_pos rfl, hf1]
    · show out g - ind f 0 g = out g
      rw [ind_zero, if_neg, Nat.sub_zero]
      rintro rfl
      exact hno m b le_rfl (by omega) hleaf
    · rw [unmapLoop, he]
      dsimp only
      rw [KMem.freePage4K, show freePage4K (s.write (8 * a) 0).mms f 1 = _ from hfree, hsucc]
      rfl

/-- **`unmap_anonymous_pages`** clears the entries of its range and gives their frames back. -/
theorem unmapLoop_spec (hd : DirectMap m₀ pool) : ∀ (fuel m : Nat) (s : KMem) (out : Nat → Nat),
    HeapInv m₀ pool s out objs → TablesInv m₀ s.word pgd out objs →
    (m + fuel) * PAGE_4K_SIZE ≤ USER_LIMIT →
    ∃ s' out', unmapLoop pgd fuel (m * PAGE_4K_SIZE) s = some s' ∧
      Unmapped m₀ pool pgd objs m (m + fuel) s out s' out' := by
  intro fuel
  induction fuel with
  | zero => exact fun m s out h ht _ => ⟨s, out, rfl, Unmapped.refl h ht m⟩
  | succ fuel ih =>
      intro m s out h ht hle
      have hm : m * PAGE_4K_SIZE < USER_LIMIT := by
        refine lt_of_lt_of_le ?_ hle
        exact Nat.mul_lt_mul_of_pos_right (by omega) (by decide)
      obtain ⟨s₁, out₁, hu, hstep⟩ := unmapStep hd h ht hm
      obtain ⟨s₂, out₂, he, hu₂⟩ := ih (m + 1) s₁ out₁ hu.heap hu.tables (by
        rw [show m + 1 + fuel = m + (fuel + 1) by omega]; exact hle)
      refine ⟨s₂, out₂, by rw [hstep, he], ?_⟩
      rw [show m + 1 + fuel = m + (fuel + 1) by omega] at hu₂
      exact hu.trans hd ht (by omega) (by omega) hu₂

/-! ## What the processor reads -/

/-- What the processor makes of a leaf below tables that grant everything. -/
def leafTranslation (e : BitVec 64) : Option Translation :=
  if entryHas e PEA_PRESENT then
    some ⟨page4KIndex (entryAddr e), entryHas e PEA_IS_USER, entryHas e PEA_READ_WRITE⟩
  else none

/-- **The processor** reads the leaf for an address of user space. -/
theorem translate_eq (hd : DirectMap m₀ pool) (h : HeapInv m₀ pool s out objs)
    (ht : TablesInv m₀ s.word pgd out objs) {vaddr : Nat} (hv : vaddr < USER_LIMIT) :
    translate s.word pgd vaddr
      = leafTranslation (userLeaf s.word pgd (vaddr / PAGE_4K_SIZE)) := by
  rw [translate_eq_mapping, (ht.heapTree hd h).tree.mapping_eq hv, leafMapping, leafTranslation]
  split <;> rfl

/-- An address is translated where its page maps a frame. -/
theorem translate_eq_some (hd : DirectMap m₀ pool) (h : HeapInv m₀ pool s out objs)
    (ht : TablesInv m₀ s.word pgd out objs) {vaddr : Nat} (hv : vaddr < USER_LIMIT)
    {t : Translation} : translate s.word pgd vaddr = some t ↔
      ∃ f b, UserFrame m₀ out f ∧ userLeaf s.word pgd (vaddr / PAGE_4K_SIZE) = userPage f b ∧
        t = ⟨f, true, b⟩ := by
  have hpage : ∀ f b, UserFrame m₀ out f → leafTranslation (userPage f b) = some ⟨f, true, b⟩ := by
    intro f b hf
    obtain ⟨hpr, hus, hrw⟩ := entryHas_userPage f b
    rw [leafTranslation, if_pos hpr, hus, hrw, hf.entryAddr hd, page4KIndex_mul]
  rw [translate_eq hd h ht hv]
  constructor
  · intro he
    by_cases h0 : userLeaf s.word pgd (vaddr / PAGE_4K_SIZE) = 0
    · rw [h0] at he
      exact absurd he (by simp [leafTranslation, entryHas])
    · obtain ⟨f, b, hf, hfe⟩ := ht.leaves _ h0
      rw [hfe, hpage f b hf] at he
      exact ⟨f, b, hf, hfe, (Option.some.inj he).symm⟩
  · rintro ⟨f, b, hf, hfe, rfl⟩
    rw [hfe, hpage f b hf]

end

end Talios
