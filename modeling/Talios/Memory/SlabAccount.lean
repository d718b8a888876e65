import Talios.Memory.SlabLedger

set_option autoImplicit false

/-! # The account of the kernel heap

Three bookkeepings meet in the heap. The page allocator counts the pages it has handed out, the
slab lists cover some of them, and the ledger of the bitmaps says which object is out. `Account`
holds all three together, with the headers of the grown slabs among the objects that are out.

One lemma for each entry: a page taken from the page allocator, a slab grown for a small or a
large class, an object taken and released, a slab dropped and its page given back. The proofs
about `kmalloc` and `kfree` chain these and do not look inside.
-/

namespace Talios

open Word Bitmap Dyadic

/-! ## The pages the heap holds -/

/-- The number of grown slabs the frame `x` belongs to. -/
def grownCover (ring : Nat → List Slab) (x : Nat) : Nat :=
  ∑ i ∈ Finset.range KMALLOC_SLAB_SIZE, (ring i).tail.countP (fun t => decide (Mem t.page 9 x))

section

variable {s : KMem} {i : Nat} {t : Slab}

theorem grownCover_update (hi : i < KMALLOC_SLAB_SIZE) (ring : Nat → List Slab) (l : List Slab)
    (x : Nat) : grownCover (Function.update ring i l) x
        + (ring i).tail.countP (fun t => decide (Mem t.page 9 x))
      = grownCover ring x + l.tail.countP (fun t => decide (Mem t.page 9 x)) := by
  unfold grownCover
  generalize KMALLOC_SLAB_SIZE = n at hi ⊢
  exact sum_range_update hi (fun _ (l : List Slab) => l.tail.countP
    (fun t => decide (Mem t.page 9 x))) ring l

theorem grownCover_pos (hi : i < KMALLOC_SLAB_SIZE) {ring : Nat → List Slab}
    (ht : t ∈ (ring i).tail) {x : Nat} (hx : Mem t.page 9 x) : 0 < grownCover ring x := by
  unfold grownCover
  generalize KMALLOC_SLAB_SIZE = n at hi ⊢
  refine lt_of_lt_of_le (List.countP_pos_iff.mpr ⟨t, ht, by simpa using hx⟩)
    (Finset.single_le_sum (f := fun i => (ring i).tail.countP (fun t => decide (Mem t.page 9 x)))
      (fun _ _ => Nat.zero_le _) (Finset.mem_range.mpr hi))

/-- No class has grown. -/
theorem grownCover_of_tails {ring : Nat → List Slab}
    (htails : ∀ i < KMALLOC_SLAB_SIZE, (ring i).tail = []) (x : Nat) : grownCover ring x = 0 := by
  refine Finset.sum_eq_zero (fun i hi => ?_)
  rw [htails i (Finset.mem_range.mp hi)]
  rfl

/-- The frames of the page a class grows by are those of the new slab. -/
theorem grownCover_insert (hi : i < KMALLOC_SLAB_SIZE) {ring : Nat → List Slab} {n : Slab}
    (hne : ring i ≠ []) (x : Nat) :
    grownCover (Function.update ring i (insertSlab n (ring i))) x
      = grownCover ring x + ind n.page 9 x := by
  obtain ⟨cp, rest, hr⟩ := List.exists_cons_of_ne_nil hne
  have hup := grownCover_update hi ring (insertSlab n (ring i)) x
  rw [hr] at hup ⊢
  simp only [insertSlab, List.tail_cons, List.countP_cons, decide_eq_true_eq] at hup ⊢
  unfold ind
  omega

/-- The page of a slab that leaves its class goes back to the page allocator. -/
theorem grownCover_drop (hi : i < KMALLOC_SLAB_SIZE) {ring : Nat → List Slab} {cp n : Slab}
    {pre post : List Slab} (hr : ring i = cp :: (pre ++ n :: post)) (x : Nat) :
    grownCover (Function.update ring i (cp :: (pre ++ post))) x
      = grownCover ring x - ind n.page 9 x := by
  have hup := grownCover_update hi ring (cp :: (pre ++ post)) x
  rw [hr] at hup
  simp only [List.tail_cons, List.countP_append, List.countP_cons, decide_eq_true_eq] at hup
  unfold ind
  omega

/-! ## Growing a class -/

theorem mem_smallSizes (hi : i < 5) : kmallocSize i ∈ smallSizes := by
  have hmem : i = 0 ∨ i = 1 ∨ i = 2 ∨ i = 3 ∨ i = 4 := by omega
  rcases hmem with rfl | rfl | rfl | rfl | rfl <;> decide

theorem mem_largeSizes {i : Nat} (h5 : 5 ≤ i) (hi : i < KMALLOC_SLAB_SIZE) :
    kmallocSize i ∉ smallSizes ∧ kmallocSize i ∈ largeSizes := by
  unfold KMALLOC_SLAB_SIZE at hi
  obtain ⟨k, rfl⟩ : ∃ k, i = k + 5 := ⟨i - 5, by omega⟩
  have hk : k < 11 := by omega
  clear h5 hi
  revert k
  decide

/-- The slab a class up to 0x200 bytes grows by. -/
abbrev newSlab (i p : Nat) : Slab := smallSlab (kmallocSize i) p (phyToVirt (p * PAGE_4K_SIZE))

theorem five_lt {i : Nat} (hi : i < 5) : i < KMALLOC_SLAB_SIZE := by
  unfold KMALLOC_SLAB_SIZE; omega

/-- The slab a class above 0x200 bytes grows by; its header is the object at `addr`. -/
abbrev newLargeSlab (i p addr : Nat) : Slab :=
  largeSlab (kmallocSize i) p (phyToVirt (p * PAGE_4K_SIZE)) addr

theorem kmallocSize_count {i : Nat} (hi : i < KMALLOC_SLAB_SIZE) :
    0 < PAGE_2M_SIZE / kmallocSize i := by
  refine Nat.div_pos ?_ (kmallocSize_pos i)
  calc kmallocSize i ≤ kmallocSize 15 := kmallocSize_mono (by
        unfold KMALLOC_SLAB_SIZE at hi; omega)
    _ ≤ PAGE_2M_SIZE := by decide

theorem addSlab_mms (s : KMem) (i : Nat) (n : Slab) : (s.addSlab i n).mms = s.mms := by
  rw [KMem.addSlab, KMem.setCache]

theorem joins_addSlab {w : Memory} {n : Slab} (hword : ∀ a, ¬ n.MapWord a → w a = s.word a)
    (hclear : ∀ j < n.colorCount, bit w (n.colorMap / 8) j = false) :
    JoinsClass s ({ s with word := w }.addSlab i n) i n where
  cache := setCache_cache_self ..
  others := fun _ hk => setCache_cache_ne _ hk _
  word := hword
  clear := hclear

/-- **Growing a class up to 0x200 bytes** writes the bitmap of the new slab, all clear, and nothing
else. -/
theorem growSmall_joins (hsize : (s.cache i).size = kmallocSize i) (hi : i < 5) {p : Nat}
    (hphy : (s.mms.page p).phyAddr = p * PAGE_4K_SIZE) :
    JoinsClass s (growSmall s i p) i (newSlab i p) := by
  have hbits : (newSlab i p).colorCount ≤ 64 * (newSlab i p).colorLength :=
    (smallFacts hi p _).bits
  have hgrow : growSmall s i p = { s with
      word := (List.range (newSlab i p).colorCount).foldl
        (fun w j => flipBit w ((newSlab i p).colorMap / 8) j)
        (fill s.word ((newSlab i p).colorMap / 8) (newSlab i p).colorLength (BitVec.allOnes 64))
      }.addSlab i (newSlab i p) := by
    unfold growSmall
    rw [hsize, hphy]
  rw [hgrow]
  apply joins_addSlab
  · intro a ha
    unfold Slab.MapWord at ha
    rw [foldl_flipBit_of_ne (fun j hj => by omega), fill, if_neg ha]
  · intro j hj
    rw [bit_foldl_flipBit, bit_fill_ones (by omega)]
    simp [hj]

/-- **Growing a class above 0x200 bytes** does the same at the start of the page. -/
theorem growLarge_joins (hsize : (s.cache i).size = kmallocSize i) {p : Nat}
    (hphy : (s.mms.page p).phyAddr = p * PAGE_4K_SIZE) (addr : Nat) :
    JoinsClass s (growLarge s i p addr) i (newLargeSlab i p addr) := by
  unfold growLarge
  rw [hsize, hphy]
  apply joins_addSlab
  · intro a ha
    unfold Slab.MapWord at ha
    rw [fill, if_neg ha]
  · intro j hj
    apply bit_fill_zero
    simp only [largeSlab, bitsMapLength] at hj ⊢
    omega

theorem Counts.exists_free (h : Counts s) (hi : i < KMALLOC_SLAB_SIZE)
    (hf : (s.cache i).totalFree ≠ 0) : ∃ t ∈ (s.cache i).ring, t.freeCount ≠ 0 := by
  by_contra hno
  push Not at hno
  refine hf ?_
  rw [h.totalFree i hi]
  refine List.sum_eq_zero (fun x hx => ?_)
  obtain ⟨t, ht, rfl⟩ := List.mem_map.mp hx
  exact hno t ht

/-- Where the least free object is the last one, it is the only one. -/
theorem freeCount_eq_one {word : Memory} {size : Nat} {t : Slab} (h : SlabOk word size t)
    {j : Nat} (hj : j + 1 = t.colorCount) (hb : bit word (t.colorMap / 8) j = false)
    (hlt : ∀ k < j, bit word (t.colorMap / 8) k = true) : t.freeCount = 1 := by
  have hfull : used (setBit word (t.colorMap / 8) j) (t.colorMap / 8) t.colorCount
      = t.colorCount := by
    refine used_eq_iff.mpr (fun k hk => ?_)
    rw [bit_setBit]
    by_cases hkj : k = j
    · simp [hkj]
    · rw [hlt k (by omega)]; rfl
  have hset := used_of_set (n := t.colorCount) (by omega) hb (fun k _ => bit_setBit j k)
  have h1 := h.using_eq
  have h2 := h.free_eq
  omega

end

/-! ## The invariant -/

/-- A slab by which class `i` has grown. Up to 0x200 bytes its header lies in its page, above that it
is an object of its own. -/
structure GrownSlab (m₀ : MMS) (i : Nat) (t : Slab) : Prop extends HeldPage m₀ t where
  small : i < 5 → t.shape = (newSlab i t.page).shape
  large : 5 ≤ i → t.shape = (newLargeSlab i t.page t.addr).shape

/-- The headers that are objects, for rings whose counters are left out or not. -/
def headersOf (ring : Nat → List Slab) : List Nat :=
  (List.range KMALLOC_SLAB_SIZE).flatMap (fun i =>
    if i < 5 then [] else (ring i).tail.map Slab.addr)

/-- The slab headers `kmalloc` has allocated. -/
def KMem.headers (s : KMem) : List Nat := headersOf s.shapes

/-- Such a header is an object of class 2, the least with objects of `sizeof(struct Slab)` bytes. -/
def HeadersIn (ring : Nat → List Slab) : Prop :=
  ∀ p ∈ headersOf ring, ∀ i < KMALLOC_SLAB_SIZE, ∀ t ∈ ring i, ∀ j < t.colorCount,
    p = t.vaddress + j * kmallocSize i → i = 2

/-- Such a header is not the last object of a slab that class 2 has grown by: that object reaches
into the header of its slab. -/
def HeaderFits (ring : Nat → List Slab) (addr : Nat) : Prop :=
  ∀ t ∈ (ring 2).tail, ∀ j < t.colorCount, addr = t.vaddress + j * kmallocSize 2 →
    j + 1 < t.colorCount

def HeadersFit (ring : Nat → List Slab) : Prop := ∀ p ∈ headersOf ring, HeaderFits ring p

/-- The invariant of a heap all of whose classes may grow. `blocks` are the objects handed out to
callers, `out` counts the blocks other users of the page allocator hold. -/
structure Account (m₀ : MMS) (pool : Nat → Slab) (s : KMem) (out : Nat → Nat) (blocks : List Nat) :
    Prop where
  layout : SameLayout m₀ s.mms
  inv : s.mms.Inv (fun x => out x + grownCover s.shapes x)
  start : ∀ i < KMALLOC_SLAB_SIZE, ∃ grown, s.shapes i = (pool i).shape :: grown ∧
    ∀ t ∈ grown, GrownSlab m₀ i t
  ledger : Ledger s (blocks ++ s.headers)
  headersIn : HeadersIn s.shapes

section

variable {m₀ : MMS} {pool : Nat → Slab} {s s' : KMem} {out : Nat → Nat} {blocks : List Nat}
  {ring : Nat → List Slab} {i j : Nat} {t u n : Slab}

/-! ## Headers -/

theorem mem_headersOf {p : Nat} : p ∈ headersOf ring ↔
    ∃ i, 5 ≤ i ∧ i < KMALLOC_SLAB_SIZE ∧ ∃ t ∈ (ring i).tail, t.addr = p := by
  unfold headersOf
  simp only [List.mem_flatMap, List.mem_range]
  constructor
  · rintro ⟨i, hi, hp⟩
    split at hp
    · exact absurd hp (by simp)
    · exact ⟨i, by omega, hi, List.mem_map.mp hp⟩
  · rintro ⟨i, h5, hi, hp⟩
    exact ⟨i, hi, by rw [if_neg (by omega)]; exact List.mem_map.mpr hp⟩

/-- A class up to 0x200 bytes has no headers that are objects. -/
theorem headersOf_update_small (hi : i < 5) (l : List Slab) :
    headersOf (Function.update ring i l) = headersOf ring := by
  unfold headersOf
  refine congrArg (fun f => (List.range KMALLOC_SLAB_SIZE).flatMap f) (funext fun j => ?_)
  by_cases hj : j = i
  · rw [hj, if_pos hi, if_pos hi]
  · rw [Function.update_of_ne hj]

/-- A change of a ring above 0x200 bytes changes the headers by those of that ring. -/
theorem headersOf_update_large (h5 : 5 ≤ i) (hi : i < KMALLOC_SLAB_SIZE)
    (ring : Nat → List Slab) (l : List Slab) :
    (headersOf (Function.update ring i l) ++ (ring i).tail.map Slab.addr).Perm
      (headersOf ring ++ l.tail.map Slab.addr) := by
  unfold headersOf
  obtain ⟨a, b, hab⟩ := List.append_of_mem (List.mem_range.mpr hi)
  have hnd : (a ++ i :: b).Nodup := hab ▸ List.nodup_range
  have hna : i ∉ a := fun h => (List.nodup_append.mp hnd).2.2 i h i (by simp) rfl
  have hnb : i ∉ b := (List.nodup_cons.mp (List.nodup_append.mp hnd).2.1).1
  have hsame : ∀ c : List Nat, i ∉ c →
      c.flatMap (fun k => if k < 5 then [] else (Function.update ring i l k).tail.map Slab.addr)
        = c.flatMap (fun k => if k < 5 then [] else (ring k).tail.map Slab.addr) := by
    intro c hc
    refine List.flatMap_congr (fun k hk => ?_)
    rw [Function.update_of_ne (fun he : k = i => hc (he ▸ hk))]
  rw [hab, List.flatMap_append, List.flatMap_append, List.flatMap_cons, List.flatMap_cons,
    hsame a hna, hsame b hnb, if_neg (by omega), if_neg (by omega), Function.update_self]
  -- the two ends of the list change places
  rw [List.append_assoc, List.append_assoc, List.append_assoc, List.append_assoc]
  apply List.Perm.append_left
  rw [← List.append_assoc]
  exact List.perm_append_comm.trans (List.perm_append_comm.append_left _)

/-! ## Where the slabs lie -/

theorem HeldPage.of_shape (h : HeldPage m₀ t) : HeldPage m₀ t.shape :=
  ⟨h.vaddress, h.aligned, h.zone, h.frames⟩

theorem GrownSlab.of_shape (h : GrownSlab m₀ i t) : GrownSlab m₀ i t.shape :=
  ⟨h.toHeldPage.of_shape, h.small, h.large⟩

theorem GrownSlab.grown (h : GrownSlab m₀ i t) (hi : i < 5) : Grown m₀ i t :=
  ⟨hi, h.small hi, h.aligned, h.zone, h.frames⟩

/-- The bitmap of a slab of a class above 0x200 bytes lies at the start of the page. -/
theorem GrownSlab.largeFacts (h : GrownSlab m₀ i t) (h5 : 5 ≤ i) :
    t.colorMap = t.vaddress ∧ t.colorLength * 8 ≤ PAGE_2M_SIZE := by
  have hsh := h.large h5
  have h1 := congrArg Slab.colorMap hsh
  have h2 := congrArg Slab.colorLength hsh
  simp only [Slab.shape, largeSlab] at h1 h2
  refine ⟨h1.trans h.vaddress.symm, ?_⟩
  rw [h2]
  have hle : PAGE_2M_SIZE / kmallocSize i ≤ PAGE_2M_SIZE / kmallocSize 5 :=
    Nat.div_le_div_left (kmallocSize_mono h5) (kmallocSize_pos 5)
  calc bitsMapLength (PAGE_2M_SIZE / kmallocSize i) * 8
      ≤ bitsMapLength (PAGE_2M_SIZE / kmallocSize 5) * 8 := by
        unfold bitsMapLength
        omega
    _ ≤ PAGE_2M_SIZE := by decide

/-- The bitmap of a slab by which a class has grown lies in its page. -/
theorem GrownSlab.data_of_map (h : GrownSlab m₀ i t) {a : Nat}
    (ha : t.colorMap ≤ a) (ha' : a < t.metaEnd) : t.Data a := by
  rcases Nat.lt_or_ge i 5 with h5 | h5
  · have hmap := (h.grown h5).facts.colorMap
    exact (h.grown h5).data_of_meta ⟨by omega, ha'⟩
  · obtain ⟨h1, h2⟩ := h.largeFacts h5
    unfold Slab.metaEnd at ha'
    exact ⟨by omega, by omega⟩

theorem GrownSlab.colorMap_aligned (h : GrownSlab m₀ i t) : 8 ∣ t.colorMap := by
  have hpage := h.page_aligned
  rcases Nat.lt_or_ge i 5 with h5 | h5
  · have hfacts := (h.grown h5).facts
    have h1 := hfacts.addr
    have h2 := hfacts.colorMap
    have h3 := hfacts.aligned
    unfold PAGE_2M_SIZE PAGE_2M_SHIFT at h1 hpage
    unfold SLAB_STRUCT_SIZE at h2
    omega
  · rw [(h.largeFacts h5).1]
    unfold PAGE_2M_SIZE PAGE_2M_SHIFT at hpage
    omega

/-- A word of a bitmap, as an address. -/
theorem mapWord_addr (h8 : 8 ∣ t.colorMap) {a : Nat} (ha : t.MapWord a) :
    t.colorMap ≤ 8 * a ∧ 8 * a < t.metaEnd := by
  unfold Slab.MapWord at ha
  unfold Slab.metaEnd
  omega

theorem PoolLayout.meta_of_mapWord (hp : PoolLayout m₀ pool) (hi : i < KMALLOC_SLAB_SIZE) {a : Nat}
    (ha : (pool i).MapWord a) : (pool i).Meta (8 * a) := by
  have h1 := hp.aligned i hi
  have h2 := hp.colorMap i hi
  unfold SLAB_STRUCT_SIZE at h2
  obtain ⟨h3, h4⟩ := mapWord_addr (t := pool i) (by omega) ha
  exact ⟨by omega, h4⟩

/-- A slab of a ring is the first one or one the class has grown by. -/
theorem Account.cases (h : Account m₀ pool s out blocks) (hi : i < KMALLOC_SLAB_SIZE)
    (ht : t ∈ s.shapes i) : t = (pool i).shape ∨ (t ∈ (s.shapes i).tail ∧ GrownSlab m₀ i t) := by
  obtain ⟨grown, hr, hg⟩ := h.start i hi
  rw [hr] at ht ⊢
  rcases List.mem_cons.mp ht with rfl | ht
  · exact Or.inl rfl
  · exact Or.inr ⟨ht, hg t ht⟩

theorem Account.grown_of_tail (h : Account m₀ pool s out blocks) (hi : i < KMALLOC_SLAB_SIZE)
    (ht : t ∈ (s.shapes i).tail) : GrownSlab m₀ i t := by
  obtain ⟨grown, hr, hg⟩ := h.start i hi
  rw [hr] at ht
  exact hg t ht

theorem Account.ring_ne_nil (h : Account m₀ pool s out blocks) (hi : i < KMALLOC_SLAB_SIZE) :
    s.shapes i ≠ [] := by
  obtain ⟨grown, hr, -⟩ := h.start i hi
  simp [hr]

/-! ## Pages -/

/-- A page the allocator hands out is no page of the kernel's. -/
theorem handed_page {m m' : MMS} {zi p : Nat} (hl : SameLayout m₀ m) (hinv : m.Inv out)
    (hz : zi < m.zonesCount) (hh : Handed m m' out zi p 9) :
    (∀ x, Mem p 9 x → ¬ KernelFrame m₀ x ∧ out x = 0) ∧
    (m'.page p).phyAddr = p * PAGE_4K_SIZE ∧
    ∃ zi < m₀.zonesCount, ∀ x, Mem p 9 x → (m₀.zone zi).Has x := by
  have hzi := hinv zi hz
  refine ⟨fun x hx => ?_, ?_, zi, ?_, fun x hx => ?_⟩
  · have hin := hh.inside x hx
    have hcov := hh.free x hx
    have hsplit := hzi.split x hin
    refine ⟨?_, by omega⟩
    unfold KernelFrame
    rw [← (hl.pages x).1, ← (hl.pages x).2.2]
    rintro (hk | hk)
    · rw [hzi.layout.zoneStruct x hin] at hk
      exact absurd hk (by simp)
    · rw [Page.resv, if_pos hk] at hsplit
      omega
  · rw [(hh.layout.pages p).2.1]
    exact hzi.layout.phyAddr p (hh.inside p (mem_self p 9))
  · rw [← hl.zonesCount]; exact hz
  · exact (hl.has zi x).mp (hh.inside x hx)

/-- Another user of the page allocator is handed a block. -/
theorem Account.pagesTaken (h : Account m₀ pool s out blocks) {m' : MMS} {zi p k : Nat}
    (hh : Handed s.mms m' (fun x => out x + grownCover s.shapes x) zi p k) :
    Account m₀ pool { s with mms := m' } (fun x => out x + ind p k x) blocks := by
  refine ⟨h.layout.trans hh.layout, ?_, h.start, h.ledger.setMms m', h.headersIn⟩
  have hcov : (fun x => out x + ind p k x + grownCover s.shapes x)
      = fun x => out x + grownCover s.shapes x + ind p k x := by
    funext x
    omega
  show m'.Inv (fun x => out x + ind p k x + grownCover s.shapes x)
  rw [hcov]
  exact hh.inv

/-- The page of the slab `n` is in no ring while another user of the page allocator holds it. -/
theorem Account.fresh (hp : PoolLayout m₀ pool)
    (h : Account m₀ pool s (fun x => out x + ind n.page 9 x) blocks) (hn : HeldPage m₀ n)
    (hj : j < KMALLOC_SLAB_SIZE) (hu : u ∈ s.shapes j) : u.vaddress ≠ n.vaddress := by
  intro hv
  have hself : n.Data n.vaddress := ⟨le_rfl, Nat.lt_add_of_pos_right (Nat.two_pow_pos _)⟩
  rcases h.cases hj hu with rfl | ⟨htail, hg⟩
  · refine hn.not_kernel hself (hp.dataFrames j hj _ ⟨hv.le, ?_⟩)
    rw [← hv]
    exact Nat.lt_add_of_pos_right (Nat.two_pow_pos _)
  · -- the frames of the page would be held twice
    have hpage : u.page = n.page := by
      rw [hg.vaddress, hn.vaddress] at hv
      unfold phyToVirt PAGE_4K_SIZE PAGE_4K_SHIFT at hv
      omega
    obtain ⟨zi, hz, hin⟩ := hn.zone
    have hmem := mem_self n.page 9
    have hsplit := (h.inv zi (by rw [h.layout.zonesCount]; exact hz)).split n.page
      ((h.layout.has zi _).mpr (hin _ hmem))
    have hpos := grownCover_pos hj htail (x := n.page) (by rw [hpage]; exact hmem)
    rw [ind_eq_one hmem] at hsplit
    omega

/-- Nor is a word of its bitmap. -/
theorem Account.fresh_map (hp : PoolLayout m₀ pool)
    (h : Account m₀ pool s (fun x => out x + ind n.page 9 x) blocks)
    (hn : GrownSlab m₀ i n) (hj : j < KMALLOC_SLAB_SIZE) (hu : u ∈ s.shapes j) {a : Nat}
    (ha : u.MapWord a) : ¬ n.MapWord a := by
  intro ha'
  obtain ⟨h1, h2⟩ := mapWord_addr (hn.colorMap_aligned) ha'
  have hdata := hn.data_of_map h1 h2
  rcases h.cases hj hu with rfl | ⟨-, hg⟩
  · exact hn.not_kernel hdata (hp.metaFrames j hj _ (hp.meta_of_mapWord hj ha))
  · obtain ⟨h3, h4⟩ := mapWord_addr (hg.colorMap_aligned) ha
    have hdata' := hg.data_of_map h3 h4
    have hp1 := hn.page_aligned
    have hp2 := hg.page_aligned
    refine h.fresh hp hn.toHeldPage hj hu ?_
    unfold Slab.Data PAGE_2M_SIZE PAGE_2M_SHIFT at *
    omega

/-! ## A slab joins a class -/

/-- What a slab on a page of its own changes by joining class `i`. -/
structure Joined (m₀ : MMS) (pool : Nat → Slab) (s s' : KMem) (i : Nat) (n : Slab) (out : Nat → Nat)
    (ptrs : List Nat) : Prop where
  layout : SameLayout m₀ s'.mms
  inv : s'.mms.Inv (fun x => out x + grownCover s'.shapes x)
  start : ∀ i < KMALLOC_SLAB_SIZE, ∃ grown, s'.shapes i = (pool i).shape :: grown ∧
    ∀ t ∈ grown, GrownSlab m₀ i t
  ledger : Ledger s' ptrs
  joins : JoinsClass s s' i n

/-- No object of the new slab is in the books. -/
theorem Joined.not_mem {ptrs : List Nat} (h : Joined m₀ pool s s' i n out ptrs)
    (hi : i < KMALLOC_SLAB_SIZE) {k : Nat} (hk : k < n.colorCount) :
    n.vaddress + k * kmallocSize i ∉ ptrs := by
  intro hmem
  have hn : n.shape ∈ s'.shapes i := h.joins.mem_shapes.mpr (.inl ⟨rfl, rfl⟩)
  exact h.joins.not_taken k ((h.ledger.taken_iff hi hn hk).mpr hmem)

theorem Account.join (hp : PoolLayout m₀ pool)
    (h : Account m₀ pool s (fun x => out x + ind n.page 9 x) blocks) (hi : i < KMALLOC_SLAB_SIZE)
    (hn : GrownSlab m₀ i n) (hjoin : JoinsClass s s' i n) (hmms : s'.mms = s.mms)
    (hok : SlabOk s'.word (kmallocSize i) n) (haddr : ∀ u ∈ s.shapes i, u.addr ≠ n.addr) :
    Joined m₀ pool s s' i n out (blocks ++ s.headers) := by
  have hapart : RingsApart s'.shapes := by
    rw [hjoin.shapes]
    have hpage : ∀ j < KMALLOC_SLAB_SIZE, ∀ u ∈ s.shapes j, u.vaddress ≠ n.vaddress :=
      fun j hj u hu => h.fresh hp hn.toHeldPage hj hu
    have hmap : ∀ j < KMALLOC_SLAB_SIZE, ∀ u ∈ s.shapes j, ∀ a, u.MapWord a → ¬ n.MapWord a :=
      fun j hj u hu a ha => h.fresh_map hp hn hj hu ha
    exact h.ledger.apart.insert hi hpage hmap haddr
  refine ⟨by rw [hmms]; exact h.layout, ?_, fun j hj => ?_, h.ledger.insert hi hjoin hok hapart, hjoin⟩
  · have hcov : (fun x => out x + grownCover s'.shapes x)
        = fun x => out x + ind n.page 9 x + grownCover s.shapes x := by
      funext x
      rw [hjoin.shapes, grownCover_insert hi (h.ring_ne_nil hi)]
      show out x + (grownCover s.shapes x + ind n.page 9 x) = _
      omega
    rw [hcov, hmms]
    exact h.inv
  · rw [hjoin.shapes]
    by_cases hji : j = i
    · subst hji
      obtain ⟨grown, hr, hg⟩ := h.start j hj
      refine ⟨n.shape :: grown, by rw [Function.update_self, hr]; rfl, ?_⟩
      exact List.forall_mem_cons.mpr ⟨hn.of_shape, hg⟩
    · rw [Function.update_of_ne hji]
      exact h.start j hj

/-- The slab a class up to 0x200 bytes grows by, on a page handed out. -/
theorem grownSlab_small {p : Nat} (hi : i < 5) (ha : 2 ^ 9 ∣ p)
    (hzone : ∃ zi < m₀.zonesCount, ∀ x, Mem p 9 x → (m₀.zone zi).Has x)
    (hframe : ∀ x, Mem p 9 x → ¬ KernelFrame m₀ x) : GrownSlab m₀ i (newSlab i p) :=
  ⟨⟨rfl, ha, hzone, hframe⟩, fun _ => rfl, fun h5 => absurd hi (by omega)⟩

theorem grownSlab_large {p addr : Nat} (h5 : 5 ≤ i) (ha : 2 ^ 9 ∣ p)
    (hzone : ∃ zi < m₀.zonesCount, ∀ x, Mem p 9 x → (m₀.zone zi).Has x)
    (hframe : ∀ x, Mem p 9 x → ¬ KernelFrame m₀ x) : GrownSlab m₀ i (newLargeSlab i p addr) :=
  ⟨⟨rfl, ha, hzone, hframe⟩, fun hi => absurd hi (by omega), fun _ => rfl⟩

theorem JoinsClass.slabOk {size : Nat} (h : JoinsClass s s' i n) (hpos : 0 < n.colorCount)
    (hbits : n.colorCount ≤ 64 * n.colorLength) (hobjects : n.colorCount * size ≤ PAGE_2M_SIZE)
    (hpage : PAGE_2M_SIZE ∣ n.vaddress) (h0 : n.usingCount = 0) (hf : n.freeCount = n.colorCount) :
    SlabOk s'.word size n :=
  ⟨hpos, hbits, hobjects, hpage, h0.trans (used_eq_zero_iff.mpr h.clear).symm, by omega⟩

/-- **A class up to 0x200 bytes grows.** -/
theorem Account.growSmall (hp : PoolLayout m₀ pool) {p : Nat}
    (h : Account m₀ pool s (fun x => out x + ind p 9 x) blocks) (hi : i < 5)
    (hn : GrownSlab m₀ i (newSlab i p)) (hphy : (s.mms.page p).phyAddr = p * PAGE_4K_SIZE) :
    Account m₀ pool (growSmall s i p) out blocks ∧
      JoinsClass s (growSmall s i p) i (newSlab i p) ∧
      (HeadersFit s.shapes → HeadersFit (growSmall s i p).shapes) := by
  have hi' := five_lt hi
  have hfacts := smallFacts hi p (phyToVirt (p * PAGE_4K_SIZE))
  have hjoin := growSmall_joins (h.ledger.size i hi') hi hphy
  have hok := hjoin.slabOk hfacts.pos hfacts.bits hfacts.objects hn.page_aligned rfl rfl
  -- the header lies in the page of its slab
  have hself : ∀ v, GrownSlab m₀ i v → v.Data v.addr := by
    intro v hv
    have hmap := (hv.grown hi).facts.colorMap
    unfold SLAB_STRUCT_SIZE at hmap
    refine (hv.grown hi).data_of_meta ⟨le_rfl, ?_⟩
    unfold Slab.metaEnd
    omega
  have haddr : ∀ u ∈ s.shapes i, u.addr ≠ (newSlab i p).addr := by
    intro u hu he
    have hdata := hself _ hn
    rw [← he] at hdata
    rcases h.cases hi' hu with rfl | ⟨-, hg⟩
    · have hmap := hp.colorMap i hi'
      unfold SLAB_STRUCT_SIZE at hmap
      refine hn.not_kernel hdata (hp.metaFrames i hi' _ ⟨le_rfl, ?_⟩)
      show (pool i).addr < (pool i).colorMap + _
      omega
    · have hdata' := hself u hg
      have hp1 := hn.page_aligned
      have hp2 := hg.page_aligned
      refine h.fresh hp hn.toHeldPage hi' hu ?_
      unfold Slab.Data PAGE_2M_SIZE PAGE_2M_SHIFT at *
      omega
  have hj := h.join hp hi' hn hjoin rfl hok haddr
  have hheaders : (Talios.growSmall s i p).headers = s.headers := by
    rw [KMem.headers, hjoin.shapes]
    exact headersOf_update_small hi _
  refine ⟨⟨hj.layout, hj.inv, hj.start, by rw [hheaders]; exact hj.ledger, ?_⟩, hjoin, ?_⟩
  · intro q hq k hk v hv l hl he
    rw [show headersOf _ = _ from hheaders] at hq
    rcases hjoin.mem_shapes.mp hv with ⟨rfl, rfl⟩ | hv
    · exact absurd (he ▸ List.mem_append_right _ hq) (hj.not_mem hi' hl)
    · exact h.headersIn q hq k hk v hv l hl he
  · intro hfit q hq v hv l hl he
    rw [show headersOf _ = _ from hheaders] at hq
    rcases hjoin.mem_tail (h.ring_ne_nil hi') hv with ⟨rfl, rfl⟩ | hv
    · exact absurd (he ▸ List.mem_append_right _ hq) (hj.not_mem hi' hl)
    · exact hfit q hq v hv l hl he

/-- The address of a header of a first slab is no address in a page of objects. -/
theorem Account.pool_addr_ne (hp : PoolLayout m₀ pool) (h : Account m₀ pool s out blocks)
    (hi : i < KMALLOC_SLAB_SIZE) (hj : j < KMALLOC_SLAB_SIZE) (hu : u ∈ s.shapes j) {a : Nat}
    (ha : (pool i).Meta a) : ¬ u.Data a := by
  intro hdata
  rcases h.cases hj hu with rfl | ⟨-, hg⟩
  · have h1 : (pool j).vaddress ≤ a := hdata.1
    have h2 := hp.above i hi j hj
    have h3 := ha.2
    omega
  · exact hg.not_kernel hdata (hp.metaFrames i hi a ha)

theorem PoolLayout.meta_addr (hp : PoolLayout m₀ pool) (hi : i < KMALLOC_SLAB_SIZE) :
    (pool i).Meta (pool i).addr := by
  have hmap := hp.colorMap i hi
  unfold SLAB_STRUCT_SIZE at hmap
  refine ⟨le_rfl, ?_⟩
  unfold Slab.metaEnd
  omega

/-- The header of a slab that joins is one more. -/
theorem headersOf_insert (h5 : 5 ≤ i) (hi : i < KMALLOC_SLAB_SIZE) (hr : ring i ≠ []) :
    (headersOf (Function.update ring i (insertSlab n (ring i)))).Perm (n.addr :: headersOf ring) := by
  obtain ⟨cp, rest, hcp⟩ := List.exists_cons_of_ne_nil hr
  have hup := headersOf_update_large h5 hi ring (insertSlab n (ring i))
  have htail : (insertSlab n (ring i)).tail = n :: (ring i).tail := by rw [hcp]; rfl
  rw [htail, List.map_cons] at hup
  exact (List.perm_append_right_iff _).mp (hup.trans List.perm_middle)

/-- **A class above 0x200 bytes grows**; the object of class 2 at `addr` becomes the header. -/
theorem Account.growLarge (hp : PoolLayout m₀ pool) {p addr : Nat}
    (h : Account m₀ pool s (fun x => out x + ind p 9 x) (addr :: blocks)) (h5 : 5 ≤ i)
    (hi : i < KMALLOC_SLAB_SIZE) (hn : GrownSlab m₀ i (newLargeSlab i p addr))
    (hphy : (s.mms.page p).phyAddr = p * PAGE_4K_SIZE) {t : Slab} {k : Nat} (ht : t ∈ s.shapes 2)
    (hk : k < t.colorCount) (haddr : addr = t.vaddress + k * kmallocSize 2) :
    Account m₀ pool (growLarge s i p addr) out blocks ∧
      JoinsClass s (growLarge s i p addr) i (newLargeSlab i p addr) ∧
      (HeadersFit s.shapes → HeaderFits s.shapes addr → HeadersFit (growLarge s i p addr).shapes) := by
  have h2 : 2 < KMALLOC_SLAB_SIZE := by decide
  have hjoin := growLarge_joins (h.ledger.size i hi) hphy addr
  have hok : SlabOk (Talios.growLarge s i p addr).word (kmallocSize i) (newLargeSlab i p addr) := by
    refine hjoin.slabOk (kmallocSize_count hi) ?_ (Nat.div_mul_le_self ..) hn.page_aligned rfl rfl
    simp only [largeSlab, bitsMapLength]
    omega
  have hnew : ∀ u ∈ s.shapes i, u.addr ≠ addr := by
    intro u hu he
    rcases h.cases hi hu with rfl | ⟨htail, -⟩
    · -- the first slab's header is no object
      refine h.pool_addr_ne hp hi h2 ht (hp.meta_addr hi) ?_
      have hin := object_start t.vaddress k 2
      rw [← haddr] at hin
      rw [show (pool i).addr = addr from he]
      exact h.ledger.object_data h2 ht hk (by rw [haddr]) hin.2
    · have hmem : u.addr ∈ s.headers := mem_headersOf.mpr ⟨i, h5, hi, u, htail, rfl⟩
      have hnd := h.ledger.ptrsNodup
      rw [List.cons_append, List.nodup_cons] at hnd
      exact hnd.1 (List.mem_append_right _ (he ▸ hmem))
  have hmms : (Talios.growLarge s i p addr).mms = s.mms := by
    rw [Talios.growLarge, addSlab_mms]
  have hj := h.join (n := newLargeSlab i p addr) hp hi hn hjoin hmms hok hnew
  have hheaders : (Talios.growLarge s i p addr).headers.Perm (addr :: s.headers) := by
    rw [KMem.headers, hjoin.shapes]
    exact headersOf_insert h5 hi (h.ring_ne_nil hi)
  have hledger : Ledger (Talios.growLarge s i p addr)
      (blocks ++ (Talios.growLarge s i p addr).headers) := by
    refine hj.ledger.perm ?_
    exact (List.perm_middle.symm).trans (hheaders.symm.append_left _)
  -- a header is an object of a slab that was there
  have hold : ∀ q ∈ (Talios.growLarge s i p addr).headers, q ∈ addr :: blocks ++ s.headers := by
    intro q hq
    rcases List.mem_cons.mp (hheaders.mem_iff.mp hq) with rfl | hq
    · simp
    · exact List.mem_append_right _ hq
  refine ⟨⟨hj.layout, hj.inv, hj.start, hledger, ?_⟩, hjoin, fun hfit hfit' q hq => ?_⟩
  · intro q hq j hj' v hv l hl he
    rcases hjoin.mem_shapes.mp hv with ⟨rfl, rfl⟩ | hv'
    · exact absurd (he ▸ hold q hq) (hj.not_mem hi hl)
    · rcases List.mem_cons.mp (hheaders.mem_iff.mp hq) with hq | hq
      · exact (h.ledger.object_eq hj' h2 hv' ht hl hk (he.symm.trans (hq.trans haddr))).1
      · exact h.headersIn q hq j hj' v hv' l hl he
  · have hring : (Talios.growLarge s i p addr).shapes 2 = s.shapes 2 := by
      rw [hjoin.shapes, Function.update_of_ne (by omega)]
    unfold HeaderFits
    rw [hring]
    rcases List.mem_cons.mp (hheaders.mem_iff.mp hq) with rfl | hq
    · exact hfit'
    · exact hfit q hq

/-! ## Objects taken and given back -/

/-- **`AllocSlab`** on a class with a free object takes one. -/
theorem Account.allocSlab (h : Account m₀ pool s out blocks) (hi : i < KMALLOC_SLAB_SIZE)
    (hfree : ∃ t ∈ (s.cache i).ring, t.freeCount ≠ 0) :
    ∃ s' pre t post k, TakesObject s s' i pre t post k ∧
      Account m₀ pool s' out ((t.vaddress + k * kmallocSize i) :: blocks) := by
  obtain ⟨s', pre, t, post, k, htake, -, hledger⟩ := h.ledger.allocSlab hi hfree
  have hheaders : s'.headers = s.headers := by
    unfold KMem.headers
    rw [htake.shapes]
  refine ⟨s', pre, t, post, k, htake, ?_⟩
  constructor
  · rw [htake.mms]; exact h.layout
  · rw [htake.mms, htake.shapes]; exact h.inv
  · rw [htake.shapes]; exact h.start
  · rw [hheaders]; exact hledger
  · rw [htake.shapes]; exact h.headersIn

/-- **An object is given back.** -/
theorem Account.release (h : Account m₀ pool s out blocks) (hi : i < KMALLOC_SLAB_SIZE)
    {pre post : List Slab} (hr : (s.cache i).ring = pre ++ t :: post) {k ptr : Nat}
    (hk : t.Taken s.word k) (hmem : t.vaddress + k * kmallocSize i ∈ blocks)
    (hoff : (ptr - alignDown PAGE_2M_SIZE ptr) / (s.cache i).size = k) :
    GivesObject s (releaseObject s i t ptr) i pre t post k ∧
      Account m₀ pool (releaseObject s i t ptr) out
        (blocks.erase (t.vaddress + k * kmallocSize i)) := by
  obtain ⟨hgive, hledger⟩ := h.ledger.release hi hr hk hoff
  have hheaders : (releaseObject s i t ptr).headers = s.headers := by
    unfold KMem.headers
    rw [hgive.shapes]
  refine ⟨hgive, ?_⟩
  constructor
  · rw [hgive.mms]; exact h.layout
  · rw [hgive.mms, hgive.shapes]; exact h.inv
  · rw [hgive.shapes]; exact h.start
  · rw [hheaders, ← List.erase_append_left _ hmem]; exact hledger
  · rw [hgive.shapes]; exact h.headersIn

/-! ## A slab leaves a class -/

/-- The header of a slab that leaves is one less. -/
theorem headersOf_drop (h5 : 5 ≤ i) (hi : i < KMALLOC_SLAB_SIZE) {cp : Slab} {pre post : List Slab}
    (hr : ring i = cp :: (pre ++ n :: post)) :
    (headersOf ring).Perm
      (n.addr :: headersOf (Function.update ring i (cp :: (pre ++ post)))) := by
  have hup := headersOf_update_large h5 hi ring (cp :: (pre ++ post))
  rw [hr, List.tail_cons, List.tail_cons, List.map_append, List.map_cons, List.map_append] at hup
  -- the address of the slab moves to the front
  have hfront : (headersOf (Function.update ring i (cp :: (pre ++ post)))
        ++ (pre.map Slab.addr ++ n.addr :: post.map Slab.addr)).Perm
      (n.addr :: headersOf (Function.update ring i (cp :: (pre ++ post)))
        ++ (pre.map Slab.addr ++ post.map Slab.addr)) := by
    refine (List.perm_middle.append_left _).trans ?_
    exact List.perm_middle
  exact (List.perm_append_right_iff _).mp (hup.symm.trans hfront)

/-- The page of a slab that leaves goes back to the page allocator. -/
theorem Account.freePage (h : Account m₀ pool s out blocks) (hi : i < KMALLOC_SLAB_SIZE)
    (ht : t ∈ (s.shapes i).tail) :
    ∃ m', Talios.freePage s.mms t.page 1 = some (m', true) ∧ SameLayout s.mms m' ∧
      m'.Inv (fun x => out x + grownCover s.shapes x - ind t.page 9 x) := by
  have hg := h.grown_of_tail hi ht
  obtain ⟨zi, hz, hin⟩ := hg.zone
  obtain ⟨m', he, hl, hinv⟩ := freePages_spec h.inv
    (show zi < _ by rw [h.layout.zonesCount]; exact hz)
    (show getOrder (1 * 2 ^ 9) < MAX_ORDER by rw [getOrder_block]; decide)
    (show 2 ^ getOrder (1 * 2 ^ 9) ∣ t.page by rw [getOrder_block]; exact hg.aligned)
    (fun x hx => (h.layout.has zi x).mpr (hin x (getOrder_block ▸ hx)))
    (fun x => by
      rw [getOrder_block, ind]
      split
      · rename_i hx
        have := grownCover_pos hi ht hx
        omega
      · exact Nat.zero_le _)
  rw [getOrder_block] at hinv
  exact ⟨m', he, hl, hinv⟩

/-- **A slab without objects that is not `CachePool` leaves its class.** Above 0x200 bytes its header
is an object that is still to be given back. -/
theorem Account.drop (h : Account m₀ pool s out blocks) (hi : i < KMALLOC_SLAB_SIZE)
    {cp : Slab} {pre post : List Slab} (hr : (s.cache i).ring = cp :: (pre ++ t :: post))
    (hu : t.usingCount = 0) :
    ∃ s', dropSlab s i t 0 = some s' ∧ s'.word = s.word ∧
      (∀ j, (s'.shapes j).Sublist (s.shapes j)) ∧
      s'.shapes = Function.update s.shapes i
        (cp.shape :: (pre.map Slab.shape ++ post.map Slab.shape)) ∧
      Account m₀ pool s' out (if i < 5 then blocks else t.addr :: blocks) := by
  have hsh : s.shapes i = cp.shape :: (pre.map Slab.shape ++ t.shape :: post.map Slab.shape) := by
    rw [KMem.shapes, hr]; simp
  have htail : t.shape ∈ (s.shapes i).tail := by rw [hsh]; simp
  obtain ⟨m', he, hl, hinv⟩ := h.freePage hi htail
  have hr' : (s.cache i).ring = (cp :: pre) ++ t :: post := hr
  have hring : (s.cache i).ring.eraseP (fun u => u.addr = t.addr) = cp :: (pre ++ post) := by
    have hne := h.ledger.ne_of_split hi hr'
    rw [hr, ← List.cons_append,
      List.eraseP_append_right _ (fun u hu => by simpa using (hne u (Or.inl hu)).2)]
    simp
  set s' := { s with mms := m' }.setCache i { s.cache i with
    totalFree := (s.cache i).totalFree - t.freeCount, totalUse := (s.cache i).totalUse
    ring := cp :: (pre ++ post) } with hs'
  have hdrop : dropSlab s i t 0 = some s' := by
    unfold dropSlab
    rw [show Talios.freePage s.mms t.page 1 = _ from he]
    dsimp only [Option.map]
    rw [hring, Nat.sub_zero]
  have hothers : ∀ k ≠ i, s'.cache k = s.cache k := fun k hk => setCache_cache_ne _ hk _
  obtain ⟨hledger, hsub, -⟩ := h.ledger.drop hi hr' hu (setCache_cache_self ..) hothers rfl
  have hshapes : s'.shapes = Function.update s.shapes i
      (cp.shape :: (pre.map Slab.shape ++ post.map Slab.shape)) := by
    rw [hs', shapes_setCache]
    simp only [List.map_cons, List.map_append]
    rfl
  refine ⟨s', hdrop, rfl, hsub, hshapes, h.layout.trans hl, ?_, fun j hj => ?_, ?_, ?_⟩
  · have hcov : (fun x => out x + grownCover s'.shapes x)
        = fun x => out x + grownCover s.shapes x - ind t.page 9 x := by
      funext x
      have hle : ind t.page 9 x ≤ grownCover s.shapes x := by
        unfold ind
        split
        · rename_i hx
          exact grownCover_pos hi htail hx
        · exact Nat.zero_le _
      rw [hshapes, grownCover_drop hi hsh]
      show out x + (grownCover s.shapes x - ind t.page 9 x) = _
      omega
    rw [hcov]
    exact hinv
  · by_cases hji : j = i
    · subst hji
      obtain ⟨grown, hst, hgr⟩ := h.start j hj
      rw [hsh] at hst
      obtain ⟨h1, h2⟩ := List.cons.inj hst
      refine ⟨_, by rw [hshapes, Function.update_self, h1], fun u hu => hgr u ?_⟩
      rw [← h2]
      simp only [List.mem_append, List.mem_cons] at hu ⊢
      tauto
    · rw [hshapes, Function.update_of_ne hji]; exact h.start j hj
  · split
    · rename_i h5
      rw [KMem.headers, hshapes, headersOf_update_small h5]
      exact hledger
    · refine hledger.perm ?_
      rw [KMem.headers, KMem.headers, hshapes]
      refine ((headersOf_drop (by omega) hi hsh).append_left _).trans ?_
      exact List.perm_middle
  · intro q hq j hj v hv k hk hqe
    refine h.headersIn q ?_ j hj v ((hsub j).mem hv) k hk hqe
    obtain ⟨l, h5, hl, w, hw, rfl⟩ := mem_headersOf.mp hq
    exact mem_headersOf.mpr ⟨l, h5, hl, w, (hsub l).tail.mem hw, rfl⟩

end

end Talios
