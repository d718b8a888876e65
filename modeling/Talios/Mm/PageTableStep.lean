import Talios.Memory.SlabFrame
import Talios.Mm.PageTree

set_option autoImplicit false

/-! # What the page-table functions do

The tables of an address space are pages of the kernel heap (`HeapTree`). A walk that makes tables
takes them from the class of pages as long as it has free objects (`walkTables_made`). `TablesInv`
says of the tables of one address space that the walk has made them all, and that the leaves map
different frames, held by no one else.
-/

namespace Talios

open Word Bitmap Dyadic Radix

/-! ## Pages of users -/

/-- The entry of a user's page. -/
def userPage (frame : Nat) (writable : Bool) : BitVec 64 :=
  BitVec.ofNat 64 (frame * PAGE_4K_SIZE) |||
    (PEA_PRESENT ||| PEA_IS_USER ||| if writable then PEA_READ_WRITE else 0)

theorem isFlags_userPage (writable : Bool) :
    IsFlags (PEA_PRESENT ||| PEA_IS_USER ||| if writable then PEA_READ_WRITE else 0) := by
  unfold IsFlags
  cases writable <;> decide

theorem entryAddr_userPage {f : Nat} (hf : f * PAGE_4K_SIZE < 2 ^ 64) (w : Bool) :
    entryAddr (userPage f w) = f * PAGE_4K_SIZE :=
  entryAddr_or (Nat.dvd_mul_left ..) hf (isFlags_userPage w)

theorem entryHas_userPage (f : Nat) (w : Bool) :
    entryHas (userPage f w) PEA_PRESENT = true ∧ entryHas (userPage f w) PEA_IS_USER = true ∧
      entryHas (userPage f w) PEA_READ_WRITE = w := by
  have hd : PAGE_4K_SIZE ∣ f * PAGE_4K_SIZE := Nat.dvd_mul_left ..
  unfold userPage
  rw [entryHas_or hd _ (by unfold IsFlags; decide), entryHas_or hd _ (by unfold IsFlags; decide),
    entryHas_or hd _ (by unfold IsFlags; decide)]
  cases w <;> decide

theorem userPage_ne_zero (f : Nat) (w : Bool) : userPage f w ≠ 0 :=
  ne_zero_of_entryHas (entryHas_userPage f w).1

/-! ## Pages of the heap -/

/-- The page of `kmalloc` at word `t`. -/
def PageObj (objs : List Obj) (t : Nat) : Prop := (⟨8 * t, PAGE_4K_SIZE⟩ : Obj) ∈ objs

theorem PageObj.has {t i : Nat} (hi : i < 512) :
    (⟨8 * t, PAGE_4K_SIZE⟩ : Obj).Has (8 * (t + i)) := by
  show 8 * t ≤ 8 * (t + i) ∧ 8 * (t + i) < 8 * t + 2 ^ 12
  omega

section

variable {m₀ : MMS} {pool : Nat → Slab} {s : KMem} {out : Nat → Nat} {objs : List Obj}

/-- Pages of `kmalloc` are separate blocks. -/
theorem HeapInv.sep (hp : PoolLayout m₀ pool) (h : HeapInv m₀ pool s out objs) :
    userTables.Sep (PageObj objs) := by
  intro t u ht hu i hi j hj he
  have := h.ptr_eq hp ht hu (PageObj.has hi) (he ▸ PageObj.has hj)
  exact Nat.eq_of_mul_eq_mul_left (by decide) this

/-- The class of an object of at least a page: it has not grown. -/
theorem HeapInv.page_class (h : HeapInv m₀ pool s out objs) {b : Obj} (hb : b ∈ objs)
    (hs : b.size = PAGE_4K_SIZE) : ∃ i < KMALLOC_SLAB_SIZE, 7 ≤ i ∧ ∃ j,
      (pool i).shape.Taken s.word j ∧ b.ptr = (pool i).vaddress + j * kmallocSize i ∧
      (pool i).shape ∈ s.shapes i := by
  obtain ⟨i, hi, t, ht, j, hj, hpe, hle, -⟩ := h.locate hb
  have hi7 : 7 ≤ i := by
    by_contra hlt
    have h6 := kmallocSize_mono (show i ≤ 6 by omega)
    have : kmallocSize 6 < PAGE_4K_SIZE := by decide
    omega
  rcases h.rings.cases hi ht with rfl | ⟨-, hg⟩
  · exact ⟨i, hi, hi7, j, hj, hpe, ht⟩
  · have := hg.small
    omega

/-- A page of `kmalloc` is aligned and in the direct map. -/
theorem HeapInv.page_bounds (hd : DirectMap m₀ pool) (h : HeapInv m₀ pool s out objs) {b : Obj}
    (hb : b ∈ objs) (hs : b.size = PAGE_4K_SIZE) :
    PAGE_4K_SIZE ∣ b.ptr ∧ PAGE_OFFSET < b.ptr ∧ b.ptr < PAGE_OFFSET + 2 ^ 47 := by
  obtain ⟨i, hi, hi7, j, hj, hpe, ht⟩ := h.page_class hb hs
  have h1 := (h.toHeapCore.counts hd.toPoolLayout).object_data hi ht hj.1 (object_start _ j i).1
    (object_start _ j i).2
  have h2 : (pool i).vaddress ≤ b.ptr ∧ b.ptr < (pool i).vaddress + PAGE_2M_SIZE := by
    rw [hpe]; exact h1
  have h3 := hd.upper i hi
  have h4 : (pool i).addr < (pool i).metaEnd := by
    have := hd.colorMap i hi
    unfold SLAB_STRUCT_SIZE at this
    unfold Slab.metaEnd
    omega
  have h5 := hd.above i hi i hi
  have h6 := hd.lower i hi
  refine ⟨?_, by omega, by omega⟩
  rw [hpe]
  have hsz : PAGE_4K_SIZE ∣ kmallocSize i := by
    obtain ⟨k, rfl⟩ : ∃ k, i = 7 + k := ⟨i - 7, by omega⟩
    refine ⟨2 ^ k, ?_⟩
    unfold kmallocSize PAGE_4K_SIZE PAGE_4K_SHIFT
    rw [pow_add]
    omega
  have hpg : PAGE_4K_SIZE ∣ (pool i).vaddress :=
    Nat.dvd_trans (by unfold PAGE_4K_SIZE PAGE_2M_SIZE; decide) (hd.page i hi)
  exact Nat.dvd_add hpg (Dvd.dvd.mul_left hsz j)

theorem HeapInv.directPage (hd : DirectMap m₀ pool) (h : HeapInv m₀ pool s out objs) {t : Nat}
    (ht : PageObj objs t) : DirectPage t := by
  obtain ⟨h1, h2, h3⟩ := h.page_bounds hd ht rfl
  exact ⟨h1, h2.le, h3⟩

/-- `n` calls of `kmalloc(PAGE_4K_SIZE)` do not grow the class of pages: it has as many free
objects, or no block of 2 MiB can be had for it. -/
def PagesRoom (s : KMem) (n : Nat) : Prop :=
  n ≤ (s.cache 7).totalFree ∨
    ∀ mms page, allocPage s.mms ZONE_NORMAL_INDEX 1 0 ≠ some (mms, some page)

theorem PagesRoom.congr {s s' : KMem} {n : Nat} (h : PagesRoom s n) (hc : s'.cache = s.cache)
    (hm : s'.mms = s.mms) : PagesRoom s' n := by
  unfold PagesRoom
  rw [hc, hm]
  exact h

theorem findClass_page (h : HeapCore m₀ pool s out) :
    findClass s PAGE_4K_SIZE KMALLOC_SLAB_SIZE 0 = some 7 :=
  findClass_eq h.size (by decide) (by decide) (by decide)

/-- **`kmalloc` of a page** while the class has a free object. -/
theorem kmalloc_page_free (hp : PoolLayout m₀ pool) (h : HeapInv m₀ pool s out objs)
    (hf : (s.cache 7).totalFree ≠ 0) :
    ∃ s' q, kmalloc s PAGE_4K_SIZE = some (s', some q) ∧
      HeapInv m₀ pool s' out (⟨q, PAGE_4K_SIZE⟩ :: objs) ∧ s'.mms = s.mms ∧
      s'.shapes = s.shapes ∧ (s'.cache 7).totalFree = (s.cache 7).totalFree - 1 ∧
      (∀ j ≠ 7, s'.cache j = s.cache j) ∧ ∀ a, ¬ s.MapWord a → s'.word a = s.word a :=
  h.kmalloc_pool hp (by decide) (h.tail_eq_nil (by decide) (by decide)) hf
    (show PAGE_4K_SIZE ≤ kmallocSize 7 by decide) (by decide) (kmallocWith (fun _ _ => none))

/-- **`kmalloc` of a page** without a free object and without a block to grow by. -/
theorem kmalloc_page_null (h : HeapInv m₀ pool s out objs) (hf : (s.cache 7).totalFree = 0)
    (hno : ∀ mms page, allocPage s.mms ZONE_NORMAL_INDEX 1 0 ≠ some (mms, some page)) :
    kmalloc s PAGE_4K_SIZE = some (s, none) := by
  unfold kmalloc kmallocWith
  rw [if_neg (by decide), findClass_page h.toHeapCore]
  dsimp only
  rw [if_pos hf]
  rcases allocPage_spec h.inv ZONE_NORMAL_INDEX 0 with ha | ⟨m', p, -, -, ha, -⟩
  · rw [ha]
  · exact absurd ha (hno m' p)

/-! ## Trees in the heap -/

/-- **A tree of tables in the heap**: the tables are pages of `kmalloc` in use. -/
structure HeapTree (m₀ : MMS) (pool : Nat → Slab) (pgd : Nat) (s : KMem) (out : Nat → Nat)
    (objs : List Obj) : Prop where
  heap : HeapInv m₀ pool s out objs
  tree : PageTree s.word pgd
  owned : ∀ l ≤ 3, ∀ k t, userTables.node s.word (userRoot pgd) l k = some t → PageObj objs t

variable {w : Memory} {pgd : Nat}

/-- The words of the tables are no words of a bitmap. -/
theorem HeapTree.not_mapWord (hp : PoolLayout m₀ pool) (h : HeapTree m₀ pool pgd s out objs)
    {l k t i : Nat} (hl : l ≤ 3) (ht : userTables.node s.word (userRoot pgd) l k = some t)
    (hi : i < userTables.width l) : ¬ s.MapWord (t + i) :=
  h.heap.not_mapWord hp (h.owned l hl k t ht) (PageObj.has (hi.trans_le (Tree.width_le l)))

/-- What a walk that makes tables has done to the kernel. -/
structure TablesMade (m₀ : MMS) (pool : Nat → Slab) (out : Nat → Nat) (pgd : Nat) (s : KMem)
    (objs : List Obj) (s' : KMem) (objs' : List Obj) : Prop
    extends HeapTree m₀ pool pgd s' out objs' where
  leaf : ∀ n, userLeaf s'.word pgd n = userLeaf s.word pgd n
  mem : ∀ b ∈ objs, b ∈ objs'
  mms : s'.mms = s.mms
  shapes : s'.shapes = s.shapes
  others : ∀ j ≠ 7, s'.cache j = s.cache j
  nodes : ∀ l ≤ 3, ∀ k t, userTables.node s.word (userRoot pgd) l k = some t →
    userTables.node s'.word (userRoot pgd) l k = some t
  fresh : ∀ l ≤ 3, ∀ k t, userTables.node s'.word (userRoot pgd) l k = some t →
    userTables.node s.word (userRoot pgd) l k = some t ∨ ¬ PageObj objs t
  word : ∀ a, ¬ s.MapWord a → (∀ l ≤ 3, ∀ k t,
    userTables.node s'.word (userRoot pgd) l k = some t → ∀ i < 512, a ≠ t + i) →
    s'.word a = s.word a
  entries : ∀ l < 3, ∀ k t, userTables.node s'.word (userRoot pgd) l k = some t →
    ∀ i < userTables.width l, s'.word (t + i) = 0 ∨
      (userTables.node s.word (userRoot pgd) l k = some t ∧ s'.word (t + i) = s.word (t + i)) ∨
      ∃ q, PageObj objs' q ∧ s'.word (t + i) = tableEntry q

theorem TablesMade.refl (h : HeapTree m₀ pool pgd s out objs) :
    TablesMade m₀ pool out pgd s objs s objs :=
  ⟨h, fun _ => rfl, fun _ hb => hb, rfl, rfl, fun _ _ => rfl, fun _ _ _ _ h => h,
    fun _ _ _ _ h => Or.inl h, fun _ _ _ => rfl, fun _ _ _ _ ht _ _ => Or.inr (Or.inl ⟨ht, rfl⟩)⟩

theorem TablesMade.trans {s₁ s₂ : KMem} {objs₁ objs₂ : List Obj}
    (h : TablesMade m₀ pool out pgd s objs s₁ objs₁)
    (h' : TablesMade m₀ pool out pgd s₁ objs₁ s₂ objs₂) :
    TablesMade m₀ pool out pgd s objs s₂ objs₂ := by
  refine ⟨h'.toHeapTree, fun n => (h'.leaf n).trans (h.leaf n),
    fun b hb => h'.mem b (h.mem b hb), h'.mms.trans h.mms, h'.shapes.trans h.shapes,
    fun j hj => (h'.others j hj).trans (h.others j hj),
    fun l hl k t ht => h'.nodes l hl k t (h.nodes l hl k t ht), fun l hl k t ht => ?_,
    fun a ha hn => ?_, fun l hl k t ht i hi => ?_⟩
  · rcases h'.fresh l hl k t ht with ht | ht
    · exact h.fresh l hl k t ht
    · exact Or.inr (fun hb => ht (h.mem _ hb))
  · have ha' : ¬ s₁.MapWord a := by unfold KMem.MapWord at ha ⊢; rwa [h.shapes]
    rw [h'.word a ha' hn, h.word a ha (fun l hl k t ht => hn l hl k t (h'.nodes l hl k t ht))]
  · rcases h'.entries l hl k t ht i hi with hz | ⟨ht₁, he⟩ | hq
    · exact Or.inl hz
    · rw [he]
      rcases h.entries l hl k t ht₁ i hi with hz | hold | ⟨q, hq, hqe⟩
      · exact Or.inl hz
      · exact Or.inr (Or.inl hold)
      · exact Or.inr (Or.inr ⟨q, h'.mem _ hq, hqe⟩)
    · exact Or.inr (Or.inr hq)

/-! ## Walking -/

/-- The page `u` of zeros becomes the table of entry `i` of the table at `t`. -/
theorem HeapTree.linkTable (hd : DirectMap m₀ pool) (h : HeapTree m₀ pool pgd s out objs)
    {s₁ : KMem} {u : Nat} (h₁ : HeapInv m₀ pool s₁ out (⟨8 * u, PAGE_4K_SIZE⟩ :: objs))
    (hmms : s₁.mms = s.mms) (hsh : s₁.shapes = s.shapes)
    (hothers : ∀ j ≠ 7, s₁.cache j = s.cache j)
    (hfr : ∀ a, ¬ s.MapWord a → s₁.word a = s.word a)
    {l k t i : Nat} (hl : l < 3) (hn : userTables.node s.word (userRoot pgd) l k = some t)
    (hi : i < userTables.width l) (hz : s.word (t + i) = 0) :
    TablesMade m₀ pool out pgd s objs
        ((s₁.clear (8 * u) PAGE_4K_SIZE).write (8 * (t + i)) (tableEntry u))
        (⟨8 * u, PAGE_4K_SIZE⟩ :: objs) ∧
      userTables.node ((s₁.clear (8 * u) PAGE_4K_SIZE).write (8 * (t + i)) (tableEntry u)).word
        (userRoot pgd) (l + 1) (k * 512 + i) = some u ∧
      ∀ j < 512, ((s₁.clear (8 * u) PAGE_4K_SIZE).write (8 * (t + i)) (tableEntry u)).word (u + j)
        = 0 := by
  set objs' : List Obj := ⟨8 * u, PAGE_4K_SIZE⟩ :: objs with hobjs
  set s' := (s₁.clear (8 * u) PAGE_4K_SIZE).write (8 * (t + i)) (tableEntry u) with hs'
  have hi5 : i < 512 := hi.trans_le (Tree.width_le l)
  have hu : PageObj objs' u := List.mem_cons_self
  have hsub : ∀ v, PageObj objs v → PageObj objs' v := fun v hv => List.mem_cons_of_mem _ hv
  have hfresh : ¬ PageObj objs u := by
    intro hold
    have hnd := h₁.nodup
    rw [hobjs, List.map_cons, List.nodup_cons] at hnd
    exact hnd.1 (List.mem_map_of_mem hold)
  have hsep := h₁.sep hd.toPoolLayout
  have htp : PageObj objs t := h.owned l hl.le k t hn
  have hne : ∀ v, PageObj objs v → ∀ j < 512, ∀ j' < 512, v + j ≠ u + j' := by
    intro v hv j hj j' hj' he
    obtain rfl := hsep v u (hsub v hv) hu j hj j' hj' he
    exact hfresh hv
  -- the memory afterwards
  have hword : ∀ a, s'.word a = if a = t + i then tableEntry u else
      if u ≤ a ∧ a < u + 512 then 0 else s₁.word a := by
    intro a
    show Function.update (fill s₁.word (8 * u / 8) (PAGE_4K_SIZE / 8) 0) (8 * (t + i) / 8)
      (tableEntry u) a = _
    rw [Nat.mul_div_cancel_left _ (by decide), Nat.mul_div_cancel_left _ (by decide),
      Function.update_apply]
    rfl
  have hat : s'.word (t + i) = tableEntry u := by rw [hword, if_pos rfl]
  have hzero : ∀ j < 512, s'.word (u + j) = 0 := by
    intro j hj
    rw [hword, if_neg (fun he => hne t htp i hi5 j hj he.symm), if_pos ⟨by omega, by omega⟩]
  have hold : ∀ v, PageObj objs v → ∀ j < 512, v + j ≠ t + i →
      s'.word (v + j) = s.word (v + j) := by
    intro v hv j hj hvt
    rw [hword, if_neg hvt, if_neg]
    · exact hfr _ (h.heap.not_mapWord hd.toPoolLayout hv (PageObj.has hj))
    · rintro ⟨h1, h2⟩
      exact hne v hv j hj (v + j - u) (by omega) (by omega)
  have hheap : HeapInv m₀ pool s' out objs' := by
    refine h₁.setWord (fun a ha => ?_)
    show s'.word a = s₁.word a
    rw [hword, if_neg, if_neg]
    · rintro ⟨h1, h2⟩
      obtain ⟨j, rfl⟩ : ∃ j, a = u + j := ⟨a - u, by omega⟩
      exact h₁.not_mapWord hd.toPoolLayout hu (PageObj.has (by omega)) ha
    · rintro rfl
      exact h₁.not_mapWord hd.toPoolLayout (hsub t htp) (PageObj.has hi5) ha
  obtain ⟨htree, hnew, hnodes, hcases, hleaf⟩ := h.tree.link hl hn hi hz
    (h₁.directPage hd hu) (fun l' hl' k' v hv he => hfresh (he ▸ h.owned l' hl' k' v hv)) hat hzero
    (fun l' hl' k' v hv j hj hvt =>
      hold v (h.owned l' hl' k' v hv) j (hj.trans_le (Tree.width_le l')) hvt)
  refine ⟨⟨⟨hheap, htree, fun l' hl' k' v hv => ?_⟩, hleaf,
    fun b hb => List.mem_cons_of_mem _ hb, hmms, hsh, hothers, hnodes, fun l' hl' k' v hv => ?_,
    fun a ha hno => ?_, fun l' hl' k' v hv j hj => ?_⟩, hnew, hzero⟩
  · rcases hcases l' hl' k' v hv with hv | rfl
    · exact hsub v (h.owned l' hl' k' v hv)
    · exact hu
  · rcases hcases l' hl' k' v hv with hv | rfl
    · exact Or.inl hv
    · exact Or.inr hfresh
  · rw [hword, if_neg (hno l hl.le k t (hnodes l hl.le k t hn) i hi5), if_neg, hfr a ha]
    rintro ⟨h1, h2⟩
    exact hno (l + 1) hl _ u hnew (a - u) (by omega) (by omega)
  · have hj5 := hj.trans_le (Tree.width_le l')
    rcases hcases l' hl'.le k' v hv with hv | rfl
    · by_cases hvt : v + j = t + i
      · exact Or.inr (Or.inr ⟨u, hu, by rw [hvt, hat]⟩)
      · exact Or.inr (Or.inl ⟨hv, hold v (h.owned l' hl'.le k' v hv) j hj5 hvt⟩)
    · exact Or.inl (hzero j hj5)

/-- **One level of the walk**, a free object for the table that is missing: it finds the child or
makes one. -/
theorem HeapTree.walkLevel (hd : DirectMap m₀ pool) (h : HeapTree m₀ pool pgd s out objs)
    {l k t i : Nat} (hl : l < 3) (hn : userTables.node s.word (userRoot pgd) l k = some t)
    (hi : i < userTables.width l) (hf : s.word (t + i) = 0 → (s.cache 7).totalFree ≠ 0) :
    ∃ s' objs' q, Talios.walkLevel s (8 * t + i * 8) true = some (s', some (8 * q)) ∧
      TablesMade m₀ pool out pgd s objs s' objs' ∧
      userTables.node s'.word (userRoot pgd) (l + 1) (k * 512 + i) = some q ∧
      ((s.word (t + i) = 0 ∧ (s'.cache 7).totalFree + 1 = (s.cache 7).totalFree ∧
          ∀ j < 512, s'.word (q + j) = 0) ∨
        (s' = s ∧ NamesTable q (s.word (t + i)))) := by
  by_cases hz : s.word (t + i) = 0
  · obtain ⟨s₁, q, he, h₁, hm, hsh, hfree, hothers, hfr⟩ :=
      kmalloc_page_free hd.toPoolLayout h.heap (hf hz)
    obtain ⟨u, rfl⟩ : ∃ u, q = 8 * u := by
      have := (h₁.page_bounds hd List.mem_cons_self rfl).1
      dsimp only at this
      unfold PAGE_4K_SIZE PAGE_4K_SHIFT at this
      exact ⟨q / 8, by omega⟩
    obtain ⟨hw, hnew, hzero⟩ := h.linkTable hd h₁ hm hsh hothers hfr hl hn hi hz
    have hat : 8 * (t + i) = 8 * t + i * 8 := by omega
    rw [hat] at hw hnew hzero
    refine ⟨_, _, u, ?_, hw, hnew, Or.inl ⟨hz, ?_, hzero⟩⟩
    · exact walkLevel_made _ (h₁.directPage hd List.mem_cons_self) (by rw [entry_word]; exact hz) he
    · show (s₁.cache 7).totalFree + 1 = _
      have := hf hz
      omega
  · obtain ⟨q, -, he, hchild⟩ := h.tree.child hl hn hi hz
    exact ⟨s, objs, q, walkLevel_found _ (by rw [entry_word]; exact he) true, TablesMade.refl h,
      hchild, Or.inr ⟨rfl, he⟩⟩

/-- How far a walk from node `t` of level `l` gets before the class of pages has no free object:
to the last level, or to a table whose entry is zero. -/
structure WalkMade (m₀ : MMS) (pool : Nat → Slab) (out : Nat → Nat) (pgd vaddr : Nat) (s : KMem)
    (objs : List Obj) (d t : Nat) (s' : KMem) (objs' : List Obj) (d' t' : Nat) : Prop where
  made : TablesMade m₀ pool out pgd s objs s' objs'
  level : d' ≤ d
  node : userTables.node s'.word (userRoot pgd) (3 - d') (nodeNumber vaddr d') = some t'
  walk : walkTables vaddr true (lastShifts d) s (8 * t)
    = walkTables vaddr true (lastShifts d') s' (8 * t')
  stop : (d' = 0 ∧ tablesMissing s.word vaddr (lastShifts d) (8 * t) ≤ (s.cache 7).totalFree) ∨
    ∃ d₁, d' = d₁ + 1 ∧ s'.word (t' + getBits vaddr (12 + 9 * (d₁ + 1)) 9) = 0 ∧
      (s'.cache 7).totalFree = 0 ∧
      tablesMissing s.word vaddr (lastShifts d) (8 * t) = (s.cache 7).totalFree + d'

/-- **The walk with `create`** as long as the class of pages has free objects. -/
theorem walkTables_made (hd : DirectMap m₀ pool) {vaddr : Nat} (hv : vaddr < USER_LIMIT) :
    ∀ (d l : Nat) (s : KMem) (objs : List Obj) (t : Nat), l + d = 3 →
      HeapTree m₀ pool pgd s out objs →
      userTables.node s.word (userRoot pgd) l (nodeNumber vaddr d) = some t →
      ∃ s' objs' d' t', WalkMade m₀ pool out pgd vaddr s objs d t s' objs' d' t' ∧
        (s'.cache 7).totalFree + tablesMissing s.word vaddr (lastShifts d) (8 * t)
          = (s.cache 7).totalFree + tablesMissing s'.word vaddr (lastShifts d') (8 * t') := by
  intro d
  induction d with
  | zero =>
      intro l s objs t hl h hn
      obtain rfl : l = 3 := by omega
      exact ⟨s, objs, 0, t, ⟨TablesMade.refl h, le_rfl, hn, rfl, Or.inl ⟨rfl, Nat.zero_le _⟩⟩, rfl⟩
  | succ d ih =>
      intro l s objs t hl h hn
      have hi := index_lt_width hv hl
      by_cases hstop : s.word (t + getBits vaddr (12 + 9 * (d + 1)) 9) = 0 ∧ (s.cache 7).totalFree = 0
      · -- no object for the table that is missing here
        refine ⟨s, objs, d + 1, t, ⟨TablesMade.refl h, le_rfl, ?_, rfl,
          Or.inr ⟨d, rfl, hstop.1, hstop.2, ?_⟩⟩, rfl⟩
        · rw [show 3 - (d + 1) = l by omega]
          exact hn
        · rw [lastShifts, tablesMissing, entry_word, if_pos hstop.1, hstop.2, Nat.zero_add,
            lastShifts_length]
      · obtain ⟨s₁, objs₁, q, he, hw, hq, hcase⟩ := h.walkLevel hd (by omega) hn hi
          (fun hz hf => hstop ⟨hz, hf⟩)
        rw [nodeNumber_child] at hq
        obtain ⟨s₂, objs₂, d', t', ⟨hmade, hlevel, hnode, hwalk, hres⟩, hleft⟩ :=
          ih (l + 1) s₁ objs₁ q (by omega) hw.toHeapTree hq
        have hcount : tablesMissing s.word vaddr (lastShifts (d + 1)) (8 * t) + (s₁.cache 7).totalFree
            = tablesMissing s₁.word vaddr (lastShifts d) (8 * q) + (s.cache 7).totalFree := by
          rw [lastShifts, tablesMissing, entry_word]
          rcases hcase with ⟨hz, hfree, hzero⟩ | ⟨rfl, hnames⟩
          · rw [if_pos hz, tablesMissing_of_zero hzero, ← hfree, lastShifts_length]
            omega
          · rw [if_neg hnames.ne_zero, hnames.table]
        refine ⟨s₂, objs₂, d', t', ⟨hw.trans hmade, hlevel.trans (Nat.le_succ d), hnode, ?_, ?_⟩,
          by omega⟩
        · rw [lastShifts, walkTables, he]
          exact hwalk
        · rcases hres with ⟨h0, hle⟩ | ⟨d₁, hd₁, hz, hf, hm⟩
          · exact Or.inl ⟨h0, by omega⟩
          · exact Or.inr ⟨d₁, hd₁, hz, hf, by omega⟩

theorem walkLevel_null (entry : Nat) (hz : s.word (entry / 8) = 0)
    (hk : kmalloc s PAGE_4K_SIZE = some (s, none)) : walkLevel s entry true = some (s, none) := by
  unfold walkLevel makeTable
  rw [if_pos ⟨hz, rfl⟩, hk]

/-- **`walk_pte` with `create`**, where the class of pages need not grow: it ends at the entry for
`vaddr`, or the tables that are missing cannot be had. -/
theorem HeapTree.walkPte (hd : DirectMap m₀ pool) (h : HeapTree m₀ pool pgd s out objs) {vaddr : Nat}
    (hv : vaddr < USER_LIMIT) (hroom : PagesRoom s (missingTables s.word pgd vaddr)) :
    ∃ s' objs', TablesMade m₀ pool out pgd s objs s' objs' ∧
      ((Talios.walkPte s pgd vaddr true = some (s', none) ∧
          (s.cache 7).totalFree < missingTables s.word pgd vaddr) ∨
        ∃ a, Talios.walkPte s pgd vaddr true = some (s', some (8 * a)) ∧
          userTables.slot s'.word (userRoot pgd) (vaddr / PAGE_4K_SIZE) = some a ∧
          (s'.cache 7).totalFree + missingTables s.word pgd vaddr = (s.cache 7).totalFree) := by
  obtain ⟨hr, hn⟩ := h.tree.root hv
  unfold missingTables at hroom ⊢
  rw [hr] at hroom ⊢
  obtain ⟨s', objs', d', t', ⟨hmade, hlevel, hnode, hwalk, hstop⟩, hleft⟩ :=
    walkTables_made hd hv 3 0 s objs _ rfl h hn
  refine ⟨s', objs', hmade, ?_⟩
  rw [walkPte_eq hr, hwalk]
  rcases hstop with ⟨rfl, hle⟩ | ⟨d₁, rfl, hz, hf, hm⟩
  · right
    refine ⟨t' + getBits vaddr PAGE_4K_SHIFT 9, ?_, slot_of_node hnode, hleft⟩
    rw [lastShifts, walkTables, Nat.mul_add, Nat.mul_comm 8 (getBits _ _ _)]
    rfl
  · left
    have hno := hroom.resolve_left (fun hle => by
      have hle' : tablesMissing s.word vaddr (lastShifts 3) (8 * userRoot pgd) ≤ _ := hle
      omega)
    rw [← hmade.mms] at hno
    have hlev := walkLevel_null (8 * t' + getBits vaddr (12 + 9 * (d₁ + 1)) 9 * 8)
      (by rw [entry_word]; exact hz) (kmalloc_page_null hmade.heap hf hno)
    refine ⟨by rw [lastShifts, walkTables, hlev]; rfl, ?_⟩
    show _ < tablesMissing s.word vaddr (lastShifts 3) (8 * userRoot pgd)
    omega

/-! ## The invariant of an address space -/

/-- The user half of the tables is a tree of pages of the heap, its inner entries name tables the
walk has made, and its leaves are pages of users in different frames. -/
structure TablesInv (m₀ : MMS) (w : Memory) (pgd : Nat) (out : Nat → Nat) (objs : List Obj) :
    Prop where
  aligned : PAGE_4K_SIZE ∣ pgd
  tree : userTables.Ok w (userRoot pgd) (PageObj objs)
  entries : ∀ l < 3, ∀ k t, userTables.node w (userRoot pgd) l k = some t →
    ∀ i < userTables.width l, w (t + i) = 0 ∨ ∃ q, PageObj objs q ∧ w (t + i) = tableEntry q
  leaves : ∀ n, userLeaf w pgd n ≠ 0 → ∃ f b, UserFrame m₀ out f ∧ userLeaf w pgd n = userPage f b
  frames : ∀ n n', userLeaf w pgd n ≠ 0 → userLeaf w pgd n' ≠ 0 →
    entryAddr (userLeaf w pgd n) = entryAddr (userLeaf w pgd n') → n = n'

/-- A change outside the tables changes nothing for the address space. -/
theorem TablesInv.congr (h : TablesInv m₀ w pgd out objs) {w' : Memory} {out' : Nat → Nat}
    {objs' : List Obj}
    (hw : ∀ l ≤ 3, ∀ k t, userTables.node w (userRoot pgd) l k = some t → ∀ i < userTables.width l,
      w' (t + i) = w (t + i))
    (hsub : ∀ t, PageObj objs t → PageObj objs' t)
    (hout : ∀ n f b, userLeaf w pgd n = userPage f b → UserFrame m₀ out f → UserFrame m₀ out' f) :
    TablesInv m₀ w' pgd out' objs' ∧
      (∀ l ≤ 3, ∀ k, userTables.node w' (userRoot pgd) l k
        = userTables.node w (userRoot pgd) l k) ∧
      ∀ n, userLeaf w' pgd n = userLeaf w pgd n := by
  obtain ⟨htree, hnode, hleaf⟩ := h.tree.congr hw
    (fun l hl k t ht => hsub t (h.tree.own l hl k t ht))
  have hleaf' : ∀ n, userLeaf w' pgd n = userLeaf w pgd n := hleaf
  refine ⟨⟨h.aligned, htree, fun l hl k t ht i hi => ?_, fun n hn => ?_, fun n n' hn hn' he => ?_⟩,
    hnode, hleaf⟩
  · have hl3 : l ≤ 3 := by omega
    rw [hnode l hl3] at ht
    rw [hw l hl3 k t ht i hi]
    exact (h.entries l hl k t ht i hi).imp_right (fun ⟨q, hq, he⟩ => ⟨q, hsub q hq, he⟩)
  · rw [hleaf'] at hn ⊢
    obtain ⟨f, b, hf, he⟩ := h.leaves n hn
    exact ⟨f, b, hout n f b he hf, he⟩
  · rw [hleaf'] at hn hn' he
    rw [hleaf'] at he
    exact h.frames n n' hn hn' he

/-- The tables of an address space are a tree in the heap. -/
theorem TablesInv.heapTree (hd : DirectMap m₀ pool) (h : HeapInv m₀ pool s out objs)
    (ht : TablesInv m₀ s.word pgd out objs) : HeapTree m₀ pool pgd s out objs := by
  have hown : ∀ l ≤ 3, ∀ k t, userTables.node s.word (userRoot pgd) l k = some t → PageObj objs t :=
    ht.tree.own
  refine ⟨h, ⟨ht.aligned, ⟨fun l hl k t hn => h.directPage hd (hown l hl k t hn), ht.tree.inj⟩,
    fun l hl k t hn i hi => ?_⟩, hown⟩
  rcases ht.entries l hl k t hn i hi with hz | ⟨q, hq, he⟩
  · exact Or.inl hz
  · exact Or.inr ⟨q, by rw [he]; exact (h.directPage hd hq).names⟩

/-- What a walk that makes tables has done to the kernel. -/
structure Walked (m₀ : MMS) (pool : Nat → Slab) (out : Nat → Nat) (pgd : Nat) (s : KMem)
    (objs : List Obj) (s' : KMem) (objs' : List Obj) : Prop where
  heap : HeapInv m₀ pool s' out objs'
  tables : TablesInv m₀ s'.word pgd out objs'
  leaf : ∀ n, userLeaf s'.word pgd n = userLeaf s.word pgd n
  mem : ∀ b ∈ objs, b ∈ objs'
  mms : s'.mms = s.mms
  shapes : s'.shapes = s.shapes
  nodes : ∀ l ≤ 3, ∀ k t, userTables.node s.word (userRoot pgd) l k = some t →
    userTables.node s'.word (userRoot pgd) l k = some t
  fresh : ∀ l ≤ 3, ∀ k t, userTables.node s'.word (userRoot pgd) l k = some t →
    userTables.node s.word (userRoot pgd) l k = some t ∨ ¬ PageObj objs t
  word : ∀ a, ¬ s.MapWord a → (∀ l ≤ 3, ∀ k t,
    userTables.node s'.word (userRoot pgd) l k = some t → ∀ i < 512, a ≠ t + i) →
    s'.word a = s.word a

theorem Walked.refl (h : HeapInv m₀ pool s out objs) (ht : TablesInv m₀ s.word pgd out objs) :
    Walked m₀ pool out pgd s objs s objs :=
  ⟨h, ht, fun _ => rfl, fun _ hb => hb, rfl, rfl, fun _ _ _ _ h => h, fun _ _ _ _ h => Or.inl h,
    fun _ _ _ => rfl⟩

theorem Walked.trans {s₁ s₂ : KMem} {objs₁ objs₂ : List Obj}
    (h : Walked m₀ pool out pgd s objs s₁ objs₁) (h' : Walked m₀ pool out pgd s₁ objs₁ s₂ objs₂) :
    Walked m₀ pool out pgd s objs s₂ objs₂ := by
  refine ⟨h'.heap, h'.tables, fun n => (h'.leaf n).trans (h.leaf n),
    fun b hb => h'.mem b (h.mem b hb), h'.mms.trans h.mms, h'.shapes.trans h.shapes,
    fun l hl k t ht => h'.nodes l hl k t (h.nodes l hl k t ht), fun l hl k t ht => ?_,
    fun a ha hn => ?_⟩
  · rcases h'.fresh l hl k t ht with ht | ht
    · exact h.fresh l hl k t ht
    · exact Or.inr (fun hb => ht (h.mem _ hb))
  · have ha' : ¬ s₁.MapWord a := by unfold KMem.MapWord at ha ⊢; rwa [h.shapes]
    rw [h'.word a ha' hn, h.word a ha (fun l hl k t ht => hn l hl k t (h'.nodes l hl k t ht))]

/-- A walk in an address space. -/
theorem TablesMade.walked {s' : KMem} {objs' : List Obj} (ht : TablesInv m₀ s.word pgd out objs)
    (h : TablesMade m₀ pool out pgd s objs s' objs') : Walked m₀ pool out pgd s objs s' objs' := by
  refine ⟨h.heap, ⟨ht.aligned, ⟨h.owned, h.tree.tree.inj⟩, fun l hl k t hn i hi => ?_,
    fun n hn => ?_, fun n n' hn hn' he => ?_⟩, h.leaf, h.mem, h.mms, h.shapes, h.nodes, h.fresh, h.word⟩
  · rcases h.entries l hl k t hn i hi with hz | ⟨hold, he⟩ | hq
    · exact Or.inl hz
    · rw [he]
      exact (ht.entries l hl k t hold i hi).imp_right (fun ⟨q, hq, he⟩ => ⟨q, h.mem _ hq, he⟩)
    · exact Or.inr hq
  · rw [h.leaf] at hn ⊢
    exact ht.leaves n hn
  · rw [h.leaf] at hn hn' he
    rw [h.leaf] at he
    exact ht.frames n n' hn hn' he

/-- **`walk_pte` with `create`** ends at the entry for `vaddr`, or `kmalloc` has returned null. -/
theorem walkPte_create (hd : DirectMap m₀ pool) (h : HeapInv m₀ pool s out objs)
    (ht : TablesInv m₀ s.word pgd out objs) {vaddr : Nat} (hv : vaddr < USER_LIMIT)
    (hroom : PagesRoom s (missingTables s.word pgd vaddr)) :
    ∃ s' objs', Walked m₀ pool out pgd s objs s' objs' ∧
      (walkPte s pgd vaddr true = some (s', none) ∨
        ∃ a, walkPte s pgd vaddr true = some (s', some (8 * a)) ∧
          userTables.slot s'.word (userRoot pgd) (vaddr / PAGE_4K_SIZE) = some a) := by
  obtain ⟨s', objs', hmade, hres⟩ := (ht.heapTree hd h).walkPte hd hv hroom
  refine ⟨s', objs', hmade.walked ht, ?_⟩
  rcases hres with ⟨he, -⟩ | ⟨a, he, ha, -⟩
  · exact Or.inl he
  · exact Or.inr ⟨a, he, ha⟩

/-- **`walk_pte` without `create`** finds the entry for `vaddr` if there is one. -/
theorem walkPte_find (hd : DirectMap m₀ pool) (h : HeapInv m₀ pool s out objs)
    (ht : TablesInv m₀ s.word pgd out objs) {vaddr : Nat} (hv : vaddr < USER_LIMIT) :
    walkPte s pgd vaddr false
      = some (s, (userTables.slot s.word (userRoot pgd) (vaddr / PAGE_4K_SIZE)).map (8 * ·)) :=
  (ht.heapTree hd h).tree.walkPte_find hv

end

end Talios
