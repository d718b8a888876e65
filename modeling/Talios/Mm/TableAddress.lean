import Talios.Memory.SlabExhaust
import Talios.Mm.PageTree

set_option autoImplicit false

/-! # Addresses of page tables

A table is an object of `kmalloc(PAGE_4K_SIZE)`, and its entry is its physical address with flags in
the low twelve bits. That the address can be read back from the entry needs the object to be aligned.
The first slabs lie where `SlabCacheInit` has put them, the others in blocks of order 9, so every page
of a slab is aligned to 2 MiB, and with it every object to the size of its class.
-/

namespace Talios

open Word Bitmap Dyadic

/-! ## Where objects lie -/

/-- A page of 2 MiB of the direct map. -/
structure MappedPage (v : Nat) : Prop where
  aligned : PAGE_2M_SIZE ∣ v
  lower : PAGE_OFFSET ≤ v
  upper : v + PAGE_2M_SIZE ≤ PAGE_OFFSET + 2 ^ 47

section

variable {m₀ : MMS} {pool : Nat → Slab} {s s' s₂ : KMem} {out : Nat → Nat} {near astray : List Obj}
  {size i : Nat} {t : Slab}

/-- A block of order 9 below `pagesCount` ends in the direct map. -/
theorem block_upper (hd : DirectMap m₀ pool) {page : Nat} (hlast : page + 511 < m₀.pagesCount) :
    phyToVirt (page * PAGE_4K_SIZE) + PAGE_2M_SIZE ≤ PAGE_OFFSET + 2 ^ 47 := by
  have h2m : PAGE_2M_SIZE = 512 * PAGE_4K_SIZE := by decide
  calc phyToVirt (page * PAGE_4K_SIZE) + PAGE_2M_SIZE
      = PAGE_OFFSET + (page + 512) * PAGE_4K_SIZE := by rw [h2m, phyToVirt, Nat.add_mul]; omega
    _ ≤ PAGE_OFFSET + m₀.pagesCount * PAGE_4K_SIZE :=
      Nat.add_le_add_left (Nat.mul_le_mul_right _ hlast) _
    _ ≤ PAGE_OFFSET + 2 ^ 47 := Nat.add_le_add_left hd.count _

theorem HeldPage.mapped (hd : DirectMap m₀ pool) (h : HeldPage m₀ t) : MappedPage t.vaddress := by
  obtain ⟨zi, hz, hin⟩ := h.zone
  have hlast := hd.frames zi hz (t.page + 511) (hin _ ⟨by omega, by omega⟩)
  refine ⟨h.page_aligned, ?_, ?_⟩
  · rw [h.vaddress]
    exact Nat.le_add_left _ _
  · rw [h.vaddress]
    exact block_upper hd hlast

theorem mapped_pool (hd : DirectMap m₀ pool) (hi : i < KMALLOC_SLAB_SIZE) :
    MappedPage (pool i).vaddress := by
  refine ⟨hd.page i hi, ?_, hd.upper i hi⟩
  calc PAGE_OFFSET ≤ (pool i).addr := hd.lower i hi
    _ ≤ (pool i).metaEnd := by
      rw [Slab.metaEnd, hd.colorMap i hi, Nat.add_assoc]
      exact Nat.le_add_right _ _
    _ ≤ (pool i).vaddress := hd.above i hi i hi

/-- **The page of every slab**, of the first ones and of those added later. -/
theorem Parted.mapped (hd : DirectMap m₀ pool) (h : Parted m₀ pool s out near astray)
    (hi : i < KMALLOC_SLAB_SIZE) (ht : t ∈ (s.cache i).ring) : MappedPage t.vaddress := by
  rcases h.mem_cases hi ht with ht' | ⟨h5, ht'⟩
  · rcases h.heap.rings.cases hi (shape_mem ht') with he | ⟨-, hg⟩
    · have hv : t.shape.vaddress = (pool i).shape.vaddress := congrArg Slab.vaddress he
      have hv' : t.vaddress = (pool i).vaddress := hv
      rw [hv']
      exact mapped_pool hd hi
    · have hg' : MappedPage t.shape.vaddress := hg.held.mapped hd
      exact hg'
  · exact (h.grown i h5 hi t ht').toHeldPage.mapped hd

/-- The objects of every slab fit into its page. -/
theorem Parted.objects (h : Parted m₀ pool s out near astray) (hi : i < KMALLOC_SLAB_SIZE)
    (ht : t ∈ (s.cache i).ring) : t.colorCount * kmallocSize i ≤ PAGE_2M_SIZE := by
  rcases h.mem_cases hi ht with ht' | ⟨h5, ht'⟩
  · exact (h.heap.slabs i hi t ht').objects
  · exact ((h.grown i h5 hi t ht').objects h5).1

/-- The page of a slab just added. -/
theorem mapped_new (hd : DirectMap m₀ pool) (h : Parted m₀ pool s out near astray) {mms mms' : MMS}
    {page : Nat} (hpage : allocPage s.mms ZONE_NORMAL_INDEX 1 0 = some (mms, some page))
    (hl : SameLayout mms mms') :
    MappedPage (phyToVirt (mms'.page page).phyAddr) ∧
      mms.Inv (fun x => out x + s.largeCover x + grownCover s.trim.shapes x + ind page 9 x) := by
  obtain ⟨zi, hz, hh⟩ := allocPage_some h.heap.inv hpage
  have hself := mem_self page 9
  -- the block lies in a zone, whose frames know their address
  have hphy : (mms'.page page).phyAddr = page * PAGE_4K_SIZE := by
    rw [(hl.pages page).2.1, (hh.layout.pages page).2.1]
    exact (h.heap.inv zi hz).layout.phyAddr page (hh.inside page hself)
  have hz' : zi < m₀.zonesCount := by rw [← h.heap.layout.zonesCount]; exact hz
  have hlast := hd.frames zi hz' (page + 511)
    ((h.heap.layout.has zi _).mp (hh.inside _ ⟨by omega, by omega⟩))
  obtain ⟨q, hq⟩ := hh.aligned
  refine ⟨⟨?_, Nat.le_add_left _ _, ?_⟩, hh.inv⟩
  · rw [hphy, hq]
    unfold phyToVirt PAGE_2M_SIZE PAGE_2M_SHIFT PAGE_4K_SIZE PAGE_4K_SHIFT PAGE_OFFSET
    omega
  · rw [hphy]
    exact block_upper hd hlast

/-- The call that allocates the header of a slab leaves the other classes alone. -/
theorem header_kept {cov : Nat → Nat} (hinv : s.mms.Inv cov)
    (hsize : ∀ i < KMALLOC_SLAB_SIZE, (s.cache i).size = kmallocSize i) {r : Option Nat}
    (he : kmallocWith (fun _ _ => none) s SLAB_STRUCT_SIZE = some (s₂, r)) :
    SameLayout s.mms s₂.mms ∧ ∀ j ≠ 2, s₂.cache j = s.cache j := by
  have hc : findClass s SLAB_STRUCT_SIZE KMALLOC_SLAB_SIZE 0 = some 2 :=
    findClass_eq hsize (by decide) (by decide) (by decide)
  have hin : (s.cache 2).size ∈ smallSizes := by
    rw [hsize 2 (by decide)]
    exact mem_smallSizes (by decide)
  have hpages : ∀ {mms : MMS} {p : Option Nat}, allocPage s.mms ZONE_NORMAL_INDEX 1 0 = some (mms, p) →
      SameLayout s.mms mms := by
    intro mms p hp
    cases p with
    | none =>
        obtain rfl := allocPages_none hinv hp
        exact SameLayout.refl _
    | some q =>
        obtain ⟨zi, -, hh⟩ := allocPage_some hinv hp
        exact hh.layout
  have halloc : ∀ {s₁ : KMem}, allocSlab s₁ 2 = (s₂, r) → s₂.mms = s₁.mms := by
    intro s₁ ha
    cases r with
    | none => rw [allocSlab_none ha]
    | some p =>
        obtain ⟨-, -, -, -, -, -, -, -, rfl⟩ := allocSlab_taken ha
        rfl
  cases kmallocWith_cases he with
  | refused => exact ⟨SameLayout.refl _, fun _ _ => rfl⟩
  | taken i hc' _ _ ha =>
      obtain rfl := Option.some.inj (hc.symm.trans hc')
      exact ⟨by rw [halloc ha]; exact SameLayout.refl _, fun j hj => allocSlab_others ha hj⟩
  | noPage hp => exact ⟨hpages hp, fun _ _ => rfl⟩
  | @small _ _ i mms page hc' _ _ hp _ ha =>
      obtain rfl := Option.some.inj (hc.symm.trans hc')
      refine ⟨by rw [halloc ha]; exact hpages hp, fun j hj => ?_⟩
      exact (allocSlab_others ha hj).trans (growSmall_others _ 2 _ hj)
  | large i hc' _ _ _ hs _ _ =>
      obtain rfl := Option.some.inj (hc.symm.trans hc')
      exact absurd hin hs
  | illegal i hc' _ hs _ _ =>
      obtain rfl := Option.some.inj (hc.symm.trans hc')
      exact absurd hin hs

end

/-! ## What `kmalloc` returns -/

/-- `p` is a multiple of the size of the class `kmalloc(size)` takes, the least that has room. -/
def NaturallyAligned (size p : Nat) : Prop :=
  ∃ i < KMALLOC_SLAB_SIZE, size ≤ kmallocSize i ∧ (∀ j < i, kmallocSize j < size) ∧ kmallocSize i ∣ p

/-- The table at `p` is read back from every entry put together from its physical address and
flags. -/
def ReadBack (p : Nat) : Prop :=
  virtToPhy p % PAGE_4K_SIZE = 0 ∧ ∀ f, IsFlags f →
    entryAddr (BitVec.ofNat 64 (virtToPhy p) ||| f) = virtToPhy p ∧
      tableFromEntry (BitVec.ofNat 64 (virtToPhy p) ||| f) = p

section

variable {m₀ : MMS} {pool : Nat → Slab} {s s' : KMem} {out : Nat → Nat} {near astray : List Obj}
  {size p : Nat}

theorem kmallocSize_dvd {i : Nat} (hi : i < KMALLOC_SLAB_SIZE) : kmallocSize i ∣ PAGE_2M_SIZE := by
  unfold KMALLOC_SLAB_SIZE at hi
  have he : PAGE_2M_SIZE = kmallocSize i * 2 ^ (16 - i) := by
    rw [kmallocSize, Nat.mul_assoc, ← Nat.pow_add, Nat.add_sub_cancel' (by omega)]
    decide
  exact he ▸ Nat.dvd_mul_right _ _

/-- **Whatever `kmalloc` returns** is an object of its class in a page of the direct map. -/
theorem Parted.kmalloc_object (hd : DirectMap m₀ pool) (h : Parted m₀ pool s out near astray)
    (he : kmalloc s size = some (s', some p)) :
    ∃ i < KMALLOC_SLAB_SIZE, size ≤ kmallocSize i ∧ (∀ j < i, kmallocSize j < size) ∧
      ∃ v j, MappedPage v ∧ p = v + j * kmallocSize i ∧ (j + 1) * kmallocSize i ≤ PAGE_2M_SIZE := by
  have hbig : ¬ 0x100000 < size := by
    intro hbig
    rw [kmalloc, kmallocWith, if_pos hbig] at he
    exact absurd (Prod.mk.inj (Option.some.inj he)).2 (by simp)
  obtain ⟨i, hi, hc, h1, h2⟩ :=
    findClass_spec (s := s) (fun i hi => h.size hi) (Nat.le_of_not_lt hbig)
  refine ⟨i, hi, h1, h2, ?_⟩
  have hsize := h.size hi
  -- the walk takes an object of a slab of the ring it walks
  have hwalk : ∀ {s₁ : KMem}, (s₁.cache i).size = kmallocSize i →
      (∀ t ∈ (s₁.cache i).ring, MappedPage t.vaddress ∧
        t.colorCount * kmallocSize i ≤ PAGE_2M_SIZE) → allocSlab s₁ i = (s', some p) →
      ∃ v j, MappedPage v ∧ p = v + j * kmallocSize i ∧ (j + 1) * kmallocSize i ≤ PAGE_2M_SIZE := by
    intro s₁ hs₁ hring ha
    obtain ⟨pre, t, post, j, hr, -, hj, hp, -⟩ := allocSlab_taken ha
    obtain ⟨hm, hobj⟩ := hring t (by rw [hr]; simp)
    refine ⟨t.vaddress, j, hm, by rw [hp, hs₁], ?_⟩
    exact (Nat.mul_le_mul_right _ hj).trans hobj
  have hold : ∀ t ∈ (s.cache i).ring, MappedPage t.vaddress ∧
      t.colorCount * kmallocSize i ≤ PAGE_2M_SIZE :=
    fun t ht => ⟨h.mapped hd hi ht, h.objects hi ht⟩
  cases kmallocWith_cases he with
  | taken i' hc' _ _ ha =>
      obtain rfl := Option.some.inj (hc.symm.trans hc')
      exact hwalk hsize hold ha
  | @small _ _ i' mms page hc' _ _ hpage hs ha =>
      obtain rfl := Option.some.inj (hc.symm.trans hc')
      have hi5 : i < 5 := by
        by_contra h5
        exact (mem_largeSizes (Nat.le_of_not_lt h5) hi).1 (by rw [← hsize]; exact hs)
      have hnew := (mapped_new hd h hpage (SameLayout.refl mms)).1
      refine hwalk (by rw [growSmall, KMem.addSlab, setCache_cache_self]; exact hsize)
        (fun t ht => ?_) ha
      rw [growSmall, KMem.addSlab, setCache_cache_self, mem_insertSlab] at ht
      rcases ht with rfl | ht
      · refine ⟨hnew, ?_⟩
        have hf := (smallFacts hi5 page (phyToVirt (mms.page page).phyAddr)).objects
        rw [← hsize] at hf ⊢
        exact hf
      · exact hold t ht
  | @large _ s₂ _ i' mms page addr hc' _ _ hpage hs hn ha =>
      obtain rfl := Option.some.inj (hc.symm.trans hc')
      have hne : i ≠ 2 := by
        rintro rfl
        exact hs (by rw [hsize]; exact mem_smallSizes (by decide))
      have hinv := (mapped_new hd h hpage (SameLayout.refl mms)).2
      obtain ⟨hl, hkept⟩ := header_kept (s := { s with mms := mms }) hinv (fun i hi => h.size hi) hn
      have hcache : s₂.cache i = s.cache i := hkept i hne
      have hnew := (mapped_new hd h hpage hl).1
      have hsize₂ : (s₂.cache i).size = kmallocSize i := by rw [hcache]; exact hsize
      refine hwalk (by rw [Talios.growLarge, KMem.addSlab, setCache_cache_self]; exact hsize₂)
        (fun t ht => ?_) ha
      rw [Talios.growLarge, KMem.addSlab, setCache_cache_self, mem_insertSlab] at ht
      rcases ht with rfl | ht
      · refine ⟨hnew, ?_⟩
        show PAGE_2M_SIZE / (s₂.cache i).size * kmallocSize i ≤ PAGE_2M_SIZE
        rw [hsize₂]
        exact Nat.div_mul_le_self _ _
      · exact hold t (by rw [← hcache]; exact ht)

theorem naturallyAligned_of_object {i v j : Nat} (hi : i < KMALLOC_SLAB_SIZE) (hv : MappedPage v) :
    kmallocSize i ∣ v + j * kmallocSize i :=
  Nat.dvd_add ((kmallocSize_dvd hi).trans hv.aligned) (Nat.dvd_mul_left ..)

/-- An aligned page of the direct map is read back from its entries. -/
theorem DirectPage.readBack {t : Nat} (h : DirectPage t) : ReadBack (8 * t) := by
  obtain ⟨ha, hlt, hv⟩ := h.phys
  refine ⟨Nat.mod_eq_zero_of_dvd ha, fun f hf => ⟨entryAddr_or ha hlt hf, ?_⟩⟩
  rw [tableFromEntry, entryAddr_or ha hlt hf, hv]

end

/-- **`kmalloc` is naturally aligned** in every run in which no `kmalloc` hands out an object that
reaches into a header, and page tables are read back from their entries. -/
theorem kmalloc_aligned (img : KernelImage) {k : Kernel} (hk : MemoryReachable img HasLastRoom k)
    {size p : Nat} {mem' : KMem} (he : kmalloc k.mem size = some (mem', some p)) :
    NaturallyAligned size p ∧ (size = PAGE_4K_SIZE → ReadBack p) := by
  obtain ⟨near, astray, -, h⟩ := hk.sound.heap
  obtain ⟨i, hi, h1, h2, v, j, hv, hp, hj⟩ := h.kmalloc_object (directMap_init img) he
  have hdvd : kmallocSize i ∣ p := by
    rw [hp]
    exact naturallyAligned_of_object hi hv
  refine ⟨⟨i, hi, h1, h2, hdvd⟩, fun hpage => ?_⟩
  -- the class of pages
  have hi7 : kmallocSize i = PAGE_4K_SIZE := by
    have h7 : kmallocSize 7 = PAGE_4K_SIZE := by decide
    rcases Nat.lt_trichotomy i 7 with hlt | rfl | hlt
    · have := kmallocSize_mono (show i ≤ 6 by omega)
      have h6 : kmallocSize 6 < PAGE_4K_SIZE := by decide
      omega
    · exact h7
    · have := h2 7 hlt
      omega
  rw [hi7] at hdvd hp hj
  obtain ⟨t, ht⟩ : ∃ t, p = 8 * t := by
    obtain ⟨q, hq⟩ := hdvd
    exact ⟨512 * q, by rw [hq, ← Nat.mul_assoc]; rfl⟩
  have hpos : 0 < PAGE_4K_SIZE := by decide
  rw [ht]
  refine DirectPage.readBack ⟨by rw [← ht]; exact hdvd, ?_, ?_⟩
  · rw [← ht, hp]
    exact hv.lower.trans (Nat.le_add_right _ _)
  · rw [← ht, hp]
    have hup := hv.upper
    rw [Nat.add_mul] at hj
    omega

theorem kmalloc_aligned_example : ∃ k mem' p, MemoryReachable exampleImage HasLastRoom k ∧
    kmalloc k.mem PAGE_4K_SIZE = some (mem', some p) ∧ NaturallyAligned PAGE_4K_SIZE p ∧
    ReadBack p := by
  obtain ⟨mem, he, hinv, hfree⟩ := exampleInv_boot
  have hk : MemoryReachable exampleImage HasLastRoom ⟨mem, [], []⟩ := MemoryReachable.boot he
  obtain ⟨mem', p, hp, -⟩ := hinv.kmalloc (i := 7) (by decide) (by rw [hfree 7]; decide)
    (show PAGE_4K_SIZE ≤ kmallocSize 7 by decide) (by decide)
  obtain ⟨h1, h2⟩ := kmalloc_aligned exampleImage hk hp
  exact ⟨_, mem', p, hk, hp, h1, h2 rfl⟩

/-! ## The page of a slab after its header is written over -/

/-- What the run below needs of the heap of the example. -/
abbrev ExampleAccount (k : Kernel) : Prop :=
  Account (reservedMMS exampleImage.map (kernelReservations exampleImage.endStruct))
    (cachePool exampleImage.endStruct) k.mem (fun _ => 0) (k.live.map Obj.ptr)

/-- Class 0x200 grown once and used up: its objects are all of 0x200 bytes. -/
theorem example_usedUp : ∃ k p, MemoryReachable exampleImage (fun _ _ => True) k ∧
    ExampleAccount k ∧ (k.mem.cache 4).totalFree = 0 ∧ (∀ b ∈ k.live, b.size = 0x200) ∧
    k.mem.shapes 4 = [(cachePool exampleImage.endStruct 4).shape, (newSlab 4 p).shape] := by
  have hp := poolLayout_init exampleImage
  have h4 : 4 < KMALLOC_SLAB_SIZE := by decide
  have h1 : 0x200 ≤ kmallocSize 4 := by decide
  have h2 : ∀ j < 4, kmallocSize j < 0x200 := by decide
  obtain ⟨mem, he, hinv, -⟩ := exampleInv_boot
  have hheap : HeapInv _ _ mem (fun _ => 0) [] := hinv.inv
  have hshape : mem.shapes 4 = [(cachePool exampleImage.endStruct 4).shape] := by
    obtain ⟨grown, hr, -⟩ := hheap.rings.start 4 h4
    have htail := hinv.tails 4 h4
    rw [hr, List.tail_cons] at htail
    rw [hr, htail]
  -- the objects of `CachePool`
  have hacc₀ : ExampleAccount ⟨mem, [], []⟩ := hheap.account hp
  have htails₀ : ∀ j, 5 ≤ j → j < KMALLOC_SLAB_SIZE → (mem.shapes j).tail = [] :=
    fun j _ hj => hinv.tails j hj
  have hboot : MemoryReachable exampleImage (fun _ _ => True) ⟨mem, [], []⟩ := .boot he
  obtain ⟨k₁, hr₁, hacc₁, hup₁⟩ := useUp h4 h1 h2 (fun _ _ _ => trivial) _ _ rfl hboot hacc₀
    (hacc₀.headers_apart hp (headersFit_of_tails htails₀))
  have hsh₁ : k₁.mem.shapes = mem.shapes := hup₁.shapes
  have hlive₁ : ∀ b ∈ k₁.live, b.size = 0x200 :=
    fun b hb => (hup₁.live b hb).resolve_left (by simp)
  -- a slab more
  obtain ⟨m', p, zi, hz, ha, hh⟩ := @example_pages k₁.mem.mms _ hacc₁.layout hacc₁.inv (1 * 2 ^ 9)
    20480 0 (by rw [getOrder_block]; decide) (by rw [getOrder_block]; norm_num) le_rfl
    (by rw [getOrder_block]; norm_num) (fun x _ => by
      rw [hsh₁, grownCover_of_tails hinv.tails])
  rw [getOrder_block] at hh
  obtain ⟨s₁, s₂, pre, post, hjoin, htake, hn, hk, hacc₂, -⟩ := hacc₁.kmalloc_grown hp (by decide) hup₁.free
    h1 h2 hz ha hh (kmallocWith (fun _ _ => none))
  have hsh₂ : s₂.shapes
      = Function.update mem.shapes 4 (insertSlab (newSlab 4 p).shape (mem.shapes 4)) := by
    have hmms : KMem.shapes { k₁.mem with mms := m' } = k₁.mem.shapes := rfl
    rw [htake.shapes, hjoin.shapes, hmms, hsh₁]
  have htails₂ : ∀ j, 5 ≤ j → j < KMALLOC_SLAB_SIZE → (s₂.shapes j).tail = [] := by
    intro j h5 hj
    rw [hsh₂, Function.update_of_ne (by omega)]
    exact hinv.tails j hj
  have hapart₂ := hacc₂.headers_apart hp (headersFit_of_tails htails₂)
  have hr₂ := hr₁.step trivial (MemoryStep.kmalloc 0x200 hk hapart₂)
  -- and its objects
  obtain ⟨k₃, hr₃, hacc₃, hup₃⟩ := useUp h4 h1 h2 (fun _ _ _ => trivial) _ _ rfl hr₂ hacc₂ hapart₂
  refine ⟨k₃, p, hr₃, hacc₃, hup₃.free, fun b hb => ?_, ?_⟩
  · rcases hup₃.live b hb with hb' | hb'
    · rcases List.mem_cons.mp hb' with rfl | hb'
      · rfl
      · exact hlive₁ b hb'
    · exact hb'
  · rw [hup₃.shapes]
    show s₂.shapes 4 = _
    rw [hsh₂, Function.update_self, hshape]
    rfl

/-- The least bit of a word whose first byte is 1. -/
theorem setByte_odd (w : BitVec 64) : (setByte w 0 1).toNat % 2 = 1 := by
  have h : (setByte w 0 1).getLsbD 0 = true := by
    unfold setByte
    simp
  rw [BitVec.getLsbD, Nat.testBit_zero] at h
  simpa using h

/-- The last object of a slab by which class 0x200 has grown lies over the `Vaddress` of its header. -/
theorem lastObject_vaddress {t : Slab} {p : Nat} (ht : t.shape = (newSlab 4 p).shape) {b : Obj}
    (hptr : b.ptr = t.vaddress + 4094 * 512) (hsize : b.size = 0x200) :
    t.colorCount = 4095 ∧ b.Has (t.addr + SLAB_VADDRESS) := by
  have hcount : t.shape.colorCount = (newSlab 4 p).shape.colorCount := congrArg Slab.colorCount ht
  have haddr : t.shape.addr = (newSlab 4 p).shape.addr := congrArg Slab.addr ht
  have hv : t.shape.vaddress = (newSlab 4 p).shape.vaddress := congrArg Slab.vaddress ht
  have haddr' : t.addr = t.vaddress + (PAGE_2M_SIZE - 584) := by
    calc t.addr = phyToVirt (p * PAGE_4K_SIZE) + PAGE_2M_SIZE - structSize (kmallocSize 4) := haddr
      _ = phyToVirt (p * PAGE_4K_SIZE) + (PAGE_2M_SIZE - 584) := Nat.add_sub_assoc (by decide) _
      _ = t.vaddress + (PAGE_2M_SIZE - 584) := by rw [show t.vaddress = _ from hv]; rfl
  constructor
  · calc t.colorCount
        = (PAGE_2M_SIZE - structSize (kmallocSize 4) + kmallocSize 4 - 1) / kmallocSize 4 := hcount
      _ = 4095 := by decide
  · have h2m : PAGE_2M_SIZE = 2097152 := rfl
    unfold Obj.Has SLAB_VADDRESS
    omega

/-- `kmalloc(0x200)` where only the second slab has a free object. -/
theorem kmalloc_second {s : KMem} {c t : Slab} {j : Nat}
    (hsizes : ∀ i < KMALLOC_SLAB_SIZE, (s.cache i).size = kmallocSize i)
    (hring : (s.cache 4).ring = [c, t]) (hfree : (s.cache 4).totalFree ≠ 0) (hc : c.freeCount = 0)
    (ht : t.freeCount ≠ 0) (hcolor : findColor s.word t = some j) :
    ∃ s', kmalloc s 0x200 = some (s', some (t.vaddress + j * 512)) := by
  have h4 : 4 < KMALLOC_SLAB_SIZE := by decide
  have h512 : kmallocSize 4 = 512 := by decide
  have hwalk : allocRing s.word (s.cache 4).size (s.cache 4).ring
      = some ([c, t.take], setBit s.word (t.colorMap / 8) j, t.vaddress + j * 512) := by
    rw [hring, hsizes 4 h4, h512, allocRing, if_pos hc]
    dsimp only
    rw [allocRing, if_neg ht, hcolor]
    rfl
  have halloc : (allocSlab s 4).2 = some (t.vaddress + j * 512) := by
    unfold allocSlab
    dsimp only
    rw [hwalk]
  refine ⟨(allocSlab s 4).1, ?_⟩
  rw [← halloc]
  exact kmalloc_eq_allocSlab (by decide) (findClass_eq hsizes h4 (by decide) (by decide)) hfree _

/-- The last object of the grown slab is written where `Vaddress` lies, and the first object, given back
before that, is handed out again at an odd address. -/
theorem kmalloc_not_aligned :
    ¬ ∀ (img : KernelImage) (k : Kernel), MemoryReachable img (fun _ _ => True) k →
      ∀ (size p : Nat) (mem' : KMem), kmalloc k.mem size = some (mem', some p) →
        NaturallyAligned size p ∧ (size = PAGE_4K_SIZE → ReadBack p) := by
  intro hall
  obtain ⟨k, p, hk, hacc, hfree, hlive, hsh⟩ := example_usedUp
  have h4 : 4 < KMALLOC_SLAB_SIZE := by decide
  have h512 : kmallocSize 4 = 512 := by decide
  have hp := poolLayout_init exampleImage
  obtain ⟨c, t, hring, hct⟩ : ∃ c t, (k.mem.cache 4).ring = [c] ++ t :: [] ∧
      t.shape = (newSlab 4 p).shape := by
    unfold KMem.shapes at hsh
    obtain ⟨c, rest, hr, -, hrest⟩ := List.map_eq_cons_iff.mp hsh
    obtain ⟨t, last, rfl, ht, hnil⟩ := List.map_eq_cons_iff.mp hrest
    exact ⟨c, t, by rw [hr, List.map_eq_nil_iff.mp hnil]; rfl, ht⟩
  have htm : t ∈ (k.mem.cache 4).ring := by rw [hring]; simp
  have hcount : t.colorCount = 4095 :=
    (lastObject_vaddress (b := ⟨t.vaddress + 4094 * 512, 0x200⟩) hct rfl rfl).1
  -- every object is in use
  obtain ⟨htf, htaken⟩ := hacc.taken_of_full h4 hfree htm
  obtain ⟨hcf, -⟩ := hacc.taken_of_full h4 hfree (t := c) (by rw [hring]; simp)
  have hok := hacc.ledger.slabs 4 h4 t htm
  have huse : t.usingCount = 4095 := by
    have := hok.free_eq
    omega
  obtain ⟨b₀, hb₀, hptr₀⟩ := hacc.live_of_taken h4 (by decide) (shape_mem htm)
    (htaken 0 (by omega))
  obtain ⟨b₁, hb₁, hptr₁⟩ := hacc.live_of_taken h4 (by decide) (shape_mem htm)
    (htaken 4094 (by omega))
  rw [h512] at hptr₀ hptr₁
  have hptr₀' : b₀.ptr = t.vaddress + 0 * kmallocSize 4 := by rw [h512]; exact hptr₀
  have hptr₁' : b₁.ptr = t.vaddress + 4094 * 512 := hptr₁
  -- the first object is freed
  obtain ⟨s₁, hfreed, hgive, hacc₁⟩ := hacc.kfree_kept h4 hring (htaken 0 (by omega))
    (by rw [← hptr₀']; exact List.mem_map_of_mem hb₀) (by omega)
  rw [← hptr₀'] at hfreed
  have hr₁ := hk.step trivial (MemoryStep.kfree b₀ hb₀ hfreed)
  have hb₁' : b₁ ∈ k.live.erase b₀ := by
    refine (List.mem_erase_of_ne ?_).mpr hb₁
    rintro rfl
    omega
  have hring₁ : (s₁.cache 4).ring = [c, t.give] := by rw [hgive.cache]; rfl
  have hne : c.addr ≠ t.addr := (hacc.ledger.toCounts.ne_of_split h4 hring c (Or.inl (by simp))).2
  have htg : t.give ∈ (s₁.cache 4).ring := by rw [hring₁]; simp
  -- the last object is written
  have hhas := (lastObject_vaddress hct hptr₁' (hlive b₁ hb₁)).2
  have hr₂ := hr₁.step trivial (MemoryStep.writeVaddress b₁ hb₁' _ 1 hhas 4 h4 t.give htg le_rfl
    (Nat.lt_add_of_pos_right (by decide)))
  rw [show t.addr + SLAB_VADDRESS - (t.give.addr + SLAB_VADDRESS) = 0 from Nat.sub_self _] at hr₂
  set s₂ := s₁.writeVaddress 4 t.give 0 1 with hs₂
  set t' : Slab := { t.give with
    vaddress := (setByte (BitVec.ofNat 64 t.vaddress) 0 1).toNat } with ht'
  have hring₂ : (s₂.cache 4).ring = [c, t'] := by
    rw [hs₂, KMem.writeVaddress, setCache_cache_self]
    dsimp only
    have hne' : ¬ c.addr = t.give.addr := hne
    rw [hring₁, List.map_cons, List.map_cons, List.map_nil, if_neg hne', if_pos rfl]
    rfl
  have hsizes : ∀ i < KMALLOC_SLAB_SIZE, (s₂.cache i).size = kmallocSize i := by
    intro i hi
    by_cases hi4 : i = 4
    · rw [hi4, hs₂, KMem.writeVaddress, setCache_cache_self]
      exact hacc₁.ledger.size 4 h4
    · rw [hs₂, KMem.writeVaddress, setCache_cache_ne _ hi4]
      exact hacc₁.ledger.size i hi
  have hfree₂ : (s₂.cache 4).totalFree = 1 := by
    rw [hs₂, KMem.writeVaddress, setCache_cache_self]
    show (s₁.cache 4).totalFree = 1
    rw [hgive.cache]
    show (k.mem.cache 4).totalFree + 1 = 1
    rw [hfree]
  -- and the first object is taken again
  have hokg := hacc₁.ledger.slabs 4 h4 t.give htg
  have hgf : t.give.freeCount = 1 := by
    show t.freeCount + 1 = 1
    rw [htf]
  have hused : used s₁.word (t.give.colorMap / 8) t.give.colorCount < t.give.colorCount := by
    have := hokg.using_eq
    have := hokg.free_eq
    omega
  obtain ⟨j, hscan, -, -, -⟩ := scan_zero hused
  have hcolor : findColor s₂.word t' = some j := hscan
  obtain ⟨s₃, hkm⟩ := kmalloc_second hsizes hring₂ (by rw [hfree₂]; decide) hcf
    (show t'.freeCount ≠ 0 by rw [show t'.freeCount = 1 from hgf]; decide) hcolor
  obtain ⟨⟨i, -, -, -, hdvd⟩, -⟩ := hall _ _ hr₂ _ _ _ hkm
  have hodd := setByte_odd (BitVec.ofNat 64 t.vaddress)
  have heven : 2 ∣ t'.vaddress + j * 512 := Dvd.dvd.trans (Dvd.intro (16 * 2 ^ i) (by
    rw [kmallocSize, ← Nat.mul_assoc])) hdvd
  have hv : t'.vaddress = (setByte (BitVec.ofNat 64 t.vaddress) 0 1).toNat := rfl
  omega

end Talios
