import Talios.Memory.BuddyRun
import Talios.Memory.Slab

set_option autoImplicit false

/-! # The invariant of the kernel heap

`HeapInv` ties the rings, bitmaps and counters of the size classes to the list of the objects
handed out and to the pages held by the heap. It is stated for a heap no class above 0x200 bytes
of which has grown: a grown class up to 0x200 bytes has its header and bitmap at the end of its
page, behind the objects.
-/

namespace Talios

open Word Bitmap Dyadic

/-! ## One slab -/

/-- A slab whose counters agree with its bitmap. -/
structure SlabOk (word : Memory) (size : Nat) (t : Slab) : Prop where
  pos : 0 < t.colorCount
  bits : t.colorCount ≤ 64 * t.colorLength
  objects : t.colorCount * size ≤ PAGE_2M_SIZE
  page : PAGE_2M_SIZE ∣ t.vaddress
  using_eq : t.usingCount = used word (t.colorMap / 8) t.colorCount
  free_eq : t.freeCount + t.usingCount = t.colorCount

/-- Word `a` belongs to the bitmap of the slab. -/
def Slab.MapWord (t : Slab) (a : Nat) : Prop :=
  t.colorMap / 8 ≤ a ∧ a < t.colorMap / 8 + t.colorLength

/-- Object `j` of the slab has been handed out. -/
def Slab.Taken (t : Slab) (word : Memory) (j : Nat) : Prop :=
  j < t.colorCount ∧ bit word (t.colorMap / 8) j = true

section

variable {word word' : Memory} {size : Nat} {t : Slab}

/-- A slab depends on the words of its bitmap only. -/
theorem SlabOk.frame (h : SlabOk word size t) (hw : ∀ a, t.MapWord a → word' a = word a) :
    SlabOk word' size t := by
  refine ⟨h.pos, h.bits, h.objects, h.page, ?_, h.free_eq⟩
  rw [h.using_eq]
  refine (used_congr (fun i hi => bit_congr (n := t.colorLength) ?_ (fun a h1 h2 => ?_))).symm
  · have := h.bits; omega
  · exact hw a ⟨h1, h2⟩

theorem Slab.taken_congr (hb : t.colorCount ≤ 64 * t.colorLength)
    (hw : ∀ a, t.MapWord a → word' a = word a) (j : Nat) : t.Taken word' j ↔ t.Taken word j := by
  refine and_congr_right (fun hj => ?_)
  rw [bit_congr (n := t.colorLength) (by omega) (fun a h1 h2 => hw a ⟨h1, h2⟩)]

theorem SlabOk.take (h : SlabOk word size t) {j : Nat} (hj : j < t.colorCount)
    (hb : bit word (t.colorMap / 8) j = false) :
    SlabOk (setBit word (t.colorMap / 8) j) size t.take := by
  have hu := used_of_set hj hb (fun k _ => bit_setBit j k)
  have hle : used (setBit word (t.colorMap / 8) j) (t.colorMap / 8) t.colorCount
      ≤ t.colorCount := used_le _
  have h1 := h.using_eq
  have h2 := h.free_eq
  refine ⟨h.pos, h.bits, h.objects, h.page, ?_, ?_⟩
  · show t.usingCount + 1 = used (setBit word (t.colorMap / 8) j) (t.colorMap / 8) t.colorCount
    omega
  · show t.freeCount - 1 + (t.usingCount + 1) = t.colorCount
    omega

theorem SlabOk.give (h : SlabOk word size t) {j : Nat} (hj : t.Taken word j) :
    SlabOk (flipBit word (t.colorMap / 8) j) size t.give := by
  have hu := used_of_clear hj.1 hj.2 (fun k _ => bit_flipBit j k)
  have h1 := h.using_eq
  have h2 := h.free_eq
  refine ⟨h.pos, h.bits, h.objects, h.page, ?_, ?_⟩
  · show t.usingCount - 1 = used (flipBit word (t.colorMap / 8) j) (t.colorMap / 8) t.colorCount
    omega
  · show t.freeCount + 1 + (t.usingCount - 1) = t.colorCount
    omega

theorem SlabOk.using_pos (h : SlabOk word size t) {j : Nat} (hj : t.Taken word j) :
    0 < t.usingCount := by
  by_contra h0
  have hu : used word (t.colorMap / 8) t.colorCount = 0 := by rw [← h.using_eq]; omega
  have := used_eq_zero_iff.mp hu j hj.1
  rw [hj.2] at this
  exact absurd this (by simp)

theorem setBit_mapWord {j a : Nat} (h : SlabOk word size t) (hj : j < t.colorCount)
    (ha : ¬ t.MapWord a) : setBit word (t.colorMap / 8) j a = word a := by
  have := h.bits
  refine setBit_of_ne (fun he => ha ?_)
  exact ⟨by omega, by omega⟩

theorem flipBit_mapWord {j a : Nat} (h : SlabOk word size t) (hj : j < t.colorCount)
    (ha : ¬ t.MapWord a) : flipBit word (t.colorMap / 8) j a = word a := by
  have := h.bits
  refine flipBit_of_ne (fun he => ha ?_)
  exact ⟨by omega, by omega⟩

end

/-! ## The loops -/

/-- A slab that is not `CachePool` stands behind it. -/
theorem exists_cons_of_head_ne {ring pre post : List Slab} {t : Slab} (hring : ring = pre ++ t :: post)
    (hne : ring.head?.map Slab.addr ≠ some t.addr) : ∃ cp pre', pre = cp :: pre' := by
  rw [hring] at hne
  cases pre with
  | nil => exact absurd rfl hne
  | cons cp pre' => exact ⟨cp, pre', rfl⟩

/-- **The walk of `AllocSlab`** takes the least free object of the first slab that has one. -/
theorem allocRing_spec {word : Memory} {size : Nat} :
    ∀ ring : List Slab, (∀ t ∈ ring, SlabOk word size t) → (∃ t ∈ ring, t.freeCount ≠ 0) →
      ∃ pre t post j, ring = pre ++ t :: post ∧ (∀ u ∈ pre, u.freeCount = 0) ∧
        t.freeCount ≠ 0 ∧ j < t.colorCount ∧ bit word (t.colorMap / 8) j = false ∧
        (∀ k < j, bit word (t.colorMap / 8) k = true) ∧
        allocRing word size ring = some (pre ++ t.take :: post,
          setBit word (t.colorMap / 8) j, t.vaddress + j * size) := by
  intro ring
  induction ring with
  | nil => rintro _ ⟨t, ht, _⟩; exact absurd ht (by simp)
  | cons t ring ih =>
      intro hok hex
      by_cases hf : t.freeCount = 0
      · obtain ⟨u, hu, huf⟩ := hex
        have hu' : u ∈ ring := (List.mem_cons.mp hu).resolve_left (fun h => huf (h ▸ hf))
        obtain ⟨pre, v, post, j, rfl, hpre, hv, hj, hb, hlt, he⟩ :=
          ih (fun v hv => hok v (List.mem_cons_of_mem _ hv)) ⟨u, hu', huf⟩
        refine ⟨t :: pre, v, post, j, rfl, ?_, hv, hj, hb, hlt, ?_⟩
        · exact List.forall_mem_cons.mpr ⟨hf, hpre⟩
        · rw [allocRing, if_pos hf, he]
          rfl
      · have h := hok t (by simp)
        have hfree : used word (t.colorMap / 8) t.colorCount < t.colorCount := by
          have := h.using_eq
          have := h.free_eq
          omega
        obtain ⟨j, hs, hj, hb, hlt⟩ := scan_zero hfree
        refine ⟨[], t, ring, j, rfl, by simp, hf, hj, hb, hlt, ?_⟩
        rw [allocRing, if_neg hf, findColor, hs]
        rfl

theorem kmallocSize_pos (i : Nat) : 0 < kmallocSize i := by
  unfold kmallocSize
  exact Nat.mul_pos (by omega) (Nat.two_pow_pos i)

theorem kmallocSize_mono {i j : Nat} (h : i ≤ j) : kmallocSize i ≤ kmallocSize j := by
  unfold kmallocSize
  exact Nat.mul_le_mul_left _ (Nat.pow_le_pow_right (by omega) h)

/-- No class has larger objects than the last. -/
theorem size_le_max {size i : Nat} (hi : i < KMALLOC_SLAB_SIZE) (h1 : size ≤ kmallocSize i) :
    size ≤ 0x100000 := by
  calc size ≤ kmallocSize i := h1
    _ ≤ kmallocSize 15 := kmallocSize_mono (by unfold KMALLOC_SLAB_SIZE at hi; omega)
    _ = 0x100000 := by decide

/-- The class `kmalloc` chooses is the least whose objects are large enough. -/
theorem findClass_spec {s : KMem} (hs : ∀ i < KMALLOC_SLAB_SIZE, (s.cache i).size = kmallocSize i)
    {size : Nat} (hsize : size ≤ 0x100000) :
    ∃ i < KMALLOC_SLAB_SIZE, findClass s size KMALLOC_SLAB_SIZE 0 = some i ∧
      size ≤ kmallocSize i ∧ ∀ j < i, kmallocSize j < size := by
  have key : ∀ (fuel i : Nat), i + fuel = KMALLOC_SLAB_SIZE → 0 < fuel →
      (∀ j < i, kmallocSize j < size) →
      ∃ i' < KMALLOC_SLAB_SIZE, findClass s size fuel i = some i' ∧
        size ≤ kmallocSize i' ∧ ∀ j < i', kmallocSize j < size := by
    intro fuel
    induction fuel with
    | zero => intro i _ h0; omega
    | succ fuel ih =>
        intro i hi _ hlt
        rw [findClass, hs i (by omega)]
        by_cases hc : kmallocSize i < size
        · rw [if_pos hc]
          have hlast : i ≠ 15 := by
            rintro rfl
            exact absurd hc (by unfold kmallocSize; omega)
          unfold KMALLOC_SLAB_SIZE at hi ih
          refine ih (i + 1) (by omega) (by omega) (fun j hj => ?_)
          exact lt_of_le_of_lt (kmallocSize_mono (by omega)) hc
        · rw [if_neg hc]
          exact ⟨i, by omega, rfl, by omega, hlt⟩
  exact key KMALLOC_SLAB_SIZE 0 (by omega) (by unfold KMALLOC_SLAB_SIZE; omega)
    (fun j hj => absurd hj (Nat.not_lt_zero j))

/-- `kfree` finds the slab of an object if no other slab has the same page. -/
theorem findOwner_spec {s : KMem} {i : Nat} {t : Slab} (hi : i < KMALLOC_SLAB_SIZE)
    (ht : t ∈ (s.cache i).ring) (hu : t.usingCount ≠ 0) (htot : (s.cache i).totalUse ≠ 0)
    (huniq : ∀ j < KMALLOC_SLAB_SIZE, ∀ u ∈ (s.cache j).ring, u.vaddress = t.vaddress →
      j = i ∧ u = t) :
    findOwner s t.vaddress KMALLOC_SLAB_SIZE 0 = some (i, t) := by
  have hfind : ∀ j < KMALLOC_SLAB_SIZE, findSlab t.vaddress (s.cache j).ring
      = if j = i then some t else none := by
    intro j hj
    unfold findSlab
    split
    · rename_i hji
      subst hji
      cases hr : List.find? (fun slab => decide (slab.usingCount ≠ 0 ∧ slab.vaddress = t.vaddress))
          (s.cache j).ring with
      | none => exact absurd (List.find?_eq_none.mp hr t ht) (by simp [hu])
      | some u =>
          have h1 := List.find?_some hr
          have h2 := List.mem_of_find?_eq_some hr
          simp only [decide_eq_true_eq] at h1
          rw [(huniq j hj u h2 h1.2).2]
    · rename_i hji
      refine List.find?_eq_none.mpr (fun u hu' => ?_)
      simp only [decide_eq_true_eq, not_and]
      exact fun _ hv => hji (huniq j hj u hu' hv).1
  have key : ∀ (fuel j : Nat), j + fuel = KMALLOC_SLAB_SIZE → j ≤ i →
      findOwner s t.vaddress fuel j = some (i, t) := by
    intro fuel
    induction fuel with
    | zero => intro j hj hji; omega
    | succ fuel ih =>
        intro j hj hji
        rw [findOwner, hfind j (by omega)]
        by_cases he : j = i
        · subst he
          rw [if_neg htot, if_pos rfl]
        · simp only [if_neg he, ite_self]
          exact ih (j + 1) (by omega) (by omega)
  exact key KMALLOC_SLAB_SIZE 0 (by omega) (Nat.zero_le i)

/-! ## Where slabs lie -/

/-- The page frame is the kernel's: outside every zone, or reserved. -/
def KernelFrame (m : MMS) (x : Nat) : Prop :=
  (m.page x).zoneStruct = none ∨ (m.page x).reserved = true

/-- The slab without its counters. -/
def Slab.shape (t : Slab) : Slab := { t with usingCount := 0, freeCount := 0 }

/-- The address belongs to the page of the slab. -/
def Slab.Data (t : Slab) (a : Nat) : Prop := t.vaddress ≤ a ∧ a < t.vaddress + PAGE_2M_SIZE

/-- The address belongs to the header or the bitmap of the slab. -/
def Slab.Meta (t : Slab) (a : Nat) : Prop := t.addr ≤ a ∧ a < t.metaEnd

/-- Where `SlabCacheInit` has put the first slabs: headers and bitmaps one after another, then
the pages, all of it in the kernel's frames. -/
structure PoolLayout (m₀ : MMS) (pool : Nat → Slab) : Prop where
  lower : ∀ i < KMALLOC_SLAB_SIZE, PAGE_OFFSET ≤ (pool i).addr
  aligned : ∀ i < KMALLOC_SLAB_SIZE, 8 ∣ (pool i).addr
  colorMap : ∀ i < KMALLOC_SLAB_SIZE, (pool i).colorMap = (pool i).addr + SLAB_STRUCT_SIZE
  page : ∀ i < KMALLOC_SLAB_SIZE, PAGE_2M_SIZE ∣ (pool i).vaddress
  order : ∀ i j, i < j → j < KMALLOC_SLAB_SIZE → (pool i).metaEnd ≤ (pool j).addr
  above : ∀ i < KMALLOC_SLAB_SIZE, ∀ j < KMALLOC_SLAB_SIZE, (pool i).metaEnd ≤ (pool j).vaddress
  pages : ∀ i < KMALLOC_SLAB_SIZE, ∀ j < KMALLOC_SLAB_SIZE,
    (pool i).vaddress = (pool j).vaddress → i = j
  metaFrames : ∀ i < KMALLOC_SLAB_SIZE, ∀ a, (pool i).Meta a →
    KernelFrame m₀ (page4KIndex (virtToPhy a))
  dataFrames : ∀ i < KMALLOC_SLAB_SIZE, ∀ a, (pool i).Data a →
    KernelFrame m₀ (page4KIndex (virtToPhy a))

/-- The page of a slab is an order-9 block of a zone, none of it the kernel's. -/
structure HeldPage (m₀ : MMS) (t : Slab) : Prop where
  vaddress : t.vaddress = phyToVirt (t.page * PAGE_4K_SIZE)
  aligned : 2 ^ 9 ∣ t.page
  zone : ∃ zi < m₀.zonesCount, ∀ x, Mem t.page 9 x → (m₀.zone zi).Has x
  frames : ∀ x, Mem t.page 9 x → ¬ KernelFrame m₀ x

/-- A slab by which class `i` has grown: an order-9 block of a zone. -/
structure Grown (m₀ : MMS) (i : Nat) (t : Slab) : Prop where
  small : i < 5
  shape : t.shape = (smallSlab (kmallocSize i) t.page (phyToVirt (t.page * PAGE_4K_SIZE))).shape
  aligned : 2 ^ 9 ∣ t.page
  zone : ∃ zi < m₀.zonesCount, ∀ x, Mem t.page 9 x → (m₀.zone zi).Has x
  frames : ∀ x, Mem t.page 9 x → ¬ KernelFrame m₀ x

/-- The rings, counters left out: `CachePool` first, then what the class has grown by. No two
slabs have the same page. -/
structure Rings (m₀ : MMS) (pool : Nat → Slab) (ring : Nat → List Slab) : Prop where
  start : ∀ i < KMALLOC_SLAB_SIZE, ∃ grown, ring i = (pool i).shape :: grown ∧
    ∀ t ∈ grown, Grown m₀ i t
  pages : ∀ i < KMALLOC_SLAB_SIZE, ∀ j < KMALLOC_SLAB_SIZE, ∀ t ∈ ring i, ∀ u ∈ ring j,
    t.vaddress = u.vaddress → i = j
  nodup : ∀ i < KMALLOC_SLAB_SIZE, ((ring i).map Slab.vaddress).Nodup

/-- The layout of a grown slab: objects, header and bitmap follow one another, except that the
last object may reach into the header. -/
structure SmallFacts (ksize : Nat) (t : Slab) : Prop where
  addr : t.addr + structSize ksize = t.vaddress + PAGE_2M_SIZE
  colorMap : t.colorMap = t.addr + SLAB_STRUCT_SIZE
  metaEnd : t.metaEnd ≤ t.vaddress + PAGE_2M_SIZE
  room : structSize ksize ≤ PAGE_2M_SIZE
  aligned : 8 ∣ structSize ksize
  pos : 0 < t.colorCount
  bits : t.colorCount ≤ 64 * t.colorLength
  objects : t.colorCount * ksize ≤ PAGE_2M_SIZE
  first : ksize ≤ PAGE_2M_SIZE - structSize ksize
  fit : ∀ j, j + 1 < t.colorCount → (j + 1) * ksize ≤ PAGE_2M_SIZE - structSize ksize

theorem smallFacts {i : Nat} (hi : i < 5) (page virt : Nat) :
    SmallFacts (kmallocSize i) (smallSlab (kmallocSize i) page virt) := by
  have hmem : i = 0 ∨ i = 1 ∨ i = 2 ∨ i = 3 ∨ i = 4 := by omega
  rcases hmem with rfl | rfl | rfl | rfl | rfl
  all_goals
    norm_num only [smallSlab, Slab.metaEnd, structSize, kmallocSize, SLAB_STRUCT_SIZE,
      PAGE_2M_SIZE, PAGE_2M_SHIFT, bitsMapLength]
    constructor
  all_goals
    norm_num only [Slab.metaEnd, structSize, SLAB_STRUCT_SIZE, PAGE_2M_SIZE, PAGE_2M_SHIFT]
      <;> omega

section

variable {m₀ : MMS} {pool : Nat → Slab} {ring : Nat → List Slab} {i j : Nat} {t u : Slab}

theorem Grown.vaddress (h : Grown m₀ i t) : t.vaddress = phyToVirt (t.page * PAGE_4K_SIZE) :=
  congrArg Slab.vaddress h.shape

theorem Grown.facts (h : Grown m₀ i t) : SmallFacts (kmallocSize i) t := by
  have hf := smallFacts h.small t.page (phyToVirt (t.page * PAGE_4K_SIZE))
  have h1 := congrArg Slab.addr h.shape
  have h2 := congrArg Slab.colorMap h.shape
  have h3 := congrArg Slab.colorLength h.shape
  have h4 := congrArg Slab.colorCount h.shape
  have h5 := h.vaddress
  simp only [Slab.shape] at h1 h2 h3 h4
  constructor
  · rw [h1, h5]; exact hf.addr
  · rw [h1, h2]; exact hf.colorMap
  · rw [Slab.metaEnd, h2, h3, h5]; exact hf.metaEnd
  · exact hf.room
  · exact hf.aligned
  · rw [h4]; exact hf.pos
  · rw [h4, h3]; exact hf.bits
  · rw [h4]; exact hf.objects
  · exact hf.first
  · rw [h4]; exact hf.fit

theorem HeldPage.page_aligned (h : HeldPage m₀ t) : PAGE_2M_SIZE ∣ t.vaddress := by
  obtain ⟨q, hq⟩ := h.aligned
  rw [h.vaddress, hq]
  unfold phyToVirt PAGE_2M_SIZE PAGE_2M_SHIFT PAGE_4K_SIZE PAGE_4K_SHIFT PAGE_OFFSET
  omega

/-- The addresses of the page lie in its frames. -/
theorem HeldPage.frame_mem (h : HeldPage m₀ t) {a : Nat} (ha : t.Data a) :
    Mem t.page 9 (page4KIndex (virtToPhy a)) := by
  unfold Slab.Data at ha
  rw [h.vaddress] at ha
  unfold phyToVirt PAGE_2M_SIZE PAGE_2M_SHIFT PAGE_4K_SIZE PAGE_4K_SHIFT at ha
  unfold Mem page4KIndex virtToPhy PAGE_4K_SIZE PAGE_4K_SHIFT
  omega

theorem HeldPage.not_kernel (h : HeldPage m₀ t) {a : Nat} (ha : t.Data a) :
    ¬ KernelFrame m₀ (page4KIndex (virtToPhy a)) := h.frames _ (h.frame_mem ha)

theorem Grown.held (h : Grown m₀ i t) : HeldPage m₀ t :=
  ⟨h.vaddress, h.aligned, h.zone, h.frames⟩

theorem Grown.page_aligned (h : Grown m₀ i t) : PAGE_2M_SIZE ∣ t.vaddress := h.held.page_aligned

theorem Grown.frame_mem (h : Grown m₀ i t) {a : Nat} (ha : t.Data a) :
    Mem t.page 9 (page4KIndex (virtToPhy a)) := h.held.frame_mem ha

theorem Grown.not_kernel (h : Grown m₀ i t) {a : Nat} (ha : t.Data a) :
    ¬ KernelFrame m₀ (page4KIndex (virtToPhy a)) := h.held.not_kernel ha

theorem Grown.data_of_meta (h : Grown m₀ i t) {a : Nat} (ha : t.Meta a) : t.Data a := by
  have h1 := h.facts.addr
  have h2 := h.facts.metaEnd
  have h3 := h.facts.room
  unfold Slab.Meta at ha
  exact ⟨by omega, by omega⟩

/-- A slab of a ring is the first one or one the class has grown by. -/
theorem Rings.cases (h : Rings m₀ pool ring) (hi : i < KMALLOC_SLAB_SIZE) (ht : t ∈ ring i) :
    t = (pool i).shape ∨ (t ∈ (ring i).tail ∧ Grown m₀ i t) := by
  obtain ⟨grown, hr, hg⟩ := h.start i hi
  rw [hr] at ht ⊢
  rcases List.mem_cons.mp ht with rfl | ht
  · exact Or.inl rfl
  · exact Or.inr ⟨ht, hg t ht⟩

theorem Rings.grown_of_tail (h : Rings m₀ pool ring) (hi : i < KMALLOC_SLAB_SIZE)
    (ht : t ∈ (ring i).tail) : Grown m₀ i t := by
  obtain ⟨grown, hr, hg⟩ := h.start i hi
  rw [hr] at ht
  exact hg t ht

theorem Rings.eq_of_vaddress (h : Rings m₀ pool ring) (hi : i < KMALLOC_SLAB_SIZE)
    (hj : j < KMALLOC_SLAB_SIZE) (ht : t ∈ ring i) (hu : u ∈ ring j)
    (hv : t.vaddress = u.vaddress) : i = j ∧ t = u := by
  obtain rfl := h.pages i hi j hj t ht u hu hv
  exact ⟨rfl, List.inj_on_of_nodup_map (h.nodup i hi) ht hu hv⟩

theorem Rings.page_aligned (hp : PoolLayout m₀ pool) (h : Rings m₀ pool ring)
    (hi : i < KMALLOC_SLAB_SIZE) (ht : t ∈ ring i) : PAGE_2M_SIZE ∣ t.vaddress := by
  rcases h.cases hi ht with rfl | ⟨-, hg⟩
  · exact hp.page i hi
  · exact hg.page_aligned

/-- The pages of two slabs do not meet. -/
theorem Rings.eq_of_data (hp : PoolLayout m₀ pool) (h : Rings m₀ pool ring)
    (hi : i < KMALLOC_SLAB_SIZE) (hj : j < KMALLOC_SLAB_SIZE) (ht : t ∈ ring i) (hu : u ∈ ring j)
    {a : Nat} (ha : t.Data a) (ha' : u.Data a) : i = j ∧ t = u := by
  refine h.eq_of_vaddress hi hj ht hu ?_
  obtain ⟨q, hq⟩ := h.page_aligned hp hi ht
  obtain ⟨r, hr⟩ := h.page_aligned hp hj hu
  unfold Slab.Data PAGE_2M_SIZE PAGE_2M_SHIFT at *
  omega

/-- Only a slab that a class has grown by has its header and bitmap in a page of objects, and
then in its own. -/
theorem Rings.eq_of_data_meta (hp : PoolLayout m₀ pool) (h : Rings m₀ pool ring)
    (hi : i < KMALLOC_SLAB_SIZE) (hj : j < KMALLOC_SLAB_SIZE) (ht : t ∈ ring i) (hu : u ∈ ring j)
    {a : Nat} (ha : t.Data a) (ha' : u.Meta a) : i = j ∧ t = u ∧ t ∈ (ring i).tail := by
  rcases h.cases hj hu with rfl | ⟨hut, hug⟩
  · exfalso
    rcases h.cases hi ht with rfl | ⟨-, htg⟩
    · have h1 := hp.above j hj i hi
      have h2 : (pool i).vaddress ≤ a := ha.1
      have h3 : a < (pool j).metaEnd := ha'.2
      omega
    · exact htg.not_kernel ha (hp.metaFrames j hj a ha')
  · obtain ⟨rfl, rfl⟩ := h.eq_of_data hp hi hj ht hu ha (hug.data_of_meta ha')
    exact ⟨rfl, rfl, hut⟩

/-- The headers and bitmaps of two slabs do not meet. -/
theorem Rings.eq_of_meta (hp : PoolLayout m₀ pool) (h : Rings m₀ pool ring)
    (hi : i < KMALLOC_SLAB_SIZE) (hj : j < KMALLOC_SLAB_SIZE) (ht : t ∈ ring i) (hu : u ∈ ring j)
    {a : Nat} (ha : t.Meta a) (ha' : u.Meta a) : i = j ∧ t = u := by
  rcases h.cases hi ht with rfl | ⟨-, htg⟩
  · rcases h.cases hj hu with rfl | ⟨-, hug⟩
    · have h1 : (pool i).addr ≤ a ∧ a < (pool i).metaEnd := ha
      have h2 : (pool j).addr ≤ a ∧ a < (pool j).metaEnd := ha'
      have h3 := hp.order i j
      have h4 := hp.order j i
      obtain rfl : i = j := by omega
      exact ⟨rfl, rfl⟩
    · exact absurd (hp.metaFrames i hi a ha) (hug.not_kernel (hug.data_of_meta ha'))
  · obtain ⟨h1, h2, -⟩ := h.eq_of_data_meta hp hi hj ht hu (htg.data_of_meta ha) ha'
    exact ⟨h1, h2⟩

theorem Rings.colorMap (hp : PoolLayout m₀ pool) (h : Rings m₀ pool ring)
    (hi : i < KMALLOC_SLAB_SIZE) (ht : t ∈ ring i) :
    8 ∣ t.addr ∧ t.colorMap = t.addr + SLAB_STRUCT_SIZE := by
  rcases h.cases hi ht with rfl | ⟨-, hg⟩
  · exact ⟨hp.aligned i hi, hp.colorMap i hi⟩
  · refine ⟨?_, hg.facts.colorMap⟩
    have h1 := hg.facts.addr
    have h2 := hg.facts.aligned
    have h3 := hg.page_aligned
    unfold PAGE_2M_SIZE PAGE_2M_SHIFT at h1 h3
    omega

/-- A word of a bitmap lies at an address of the slab's header and bitmap. -/
theorem Rings.meta_of_mapWord (hp : PoolLayout m₀ pool) (h : Rings m₀ pool ring)
    (hi : i < KMALLOC_SLAB_SIZE) (ht : t ∈ ring i) {a : Nat} (ha : t.MapWord a) {b : Nat}
    (hb : b / 8 = a) : t.Meta b := by
  obtain ⟨h1, h2⟩ := h.colorMap hp hi ht
  unfold Slab.MapWord at ha
  unfold Slab.Meta Slab.metaEnd
  unfold SLAB_STRUCT_SIZE at h2
  omega

/-- The bitmaps of two slabs have no word in common. -/
theorem Rings.eq_of_mapWord (hp : PoolLayout m₀ pool) (h : Rings m₀ pool ring)
    (hi : i < KMALLOC_SLAB_SIZE) (hj : j < KMALLOC_SLAB_SIZE) (ht : t ∈ ring i) (hu : u ∈ ring j)
    {a : Nat} (ha : t.MapWord a) (ha' : u.MapWord a) : i = j ∧ t = u :=
  h.eq_of_meta hp hi hj ht hu (h.meta_of_mapWord hp hi ht ha (b := 8 * a) (by omega))
    (h.meta_of_mapWord hp hj hu ha' (b := 8 * a) (by omega))

end

end Talios
