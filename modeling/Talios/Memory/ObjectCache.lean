import Talios.Memory.SlabRun

set_option autoImplicit false

/-! # Caches of one's own

`CreatSlab`, `CreateSlabCache`, `AllocSlab` and `FreeSlab` of `memory.c`, for a cache that is not of
the table `KmallocSlabSet`. Its slabs have their header and their bitmap in blocks of `kmalloc`.

`SlabCacheInit` and `kmalloc` set `ColorCount` of the slabs they make, and `CreatSlab` does not.
`AllocSlab` looks for a free object below `ColorCount`, so that it finds none in such a slab.
-/

namespace Talios

open Word Bitmap

/-! ## Data -/

/-- `sizeof(struct SlabCache)`. -/
def SLAB_CACHE_SIZE : Nat := 56

/-- `PATTR(PG_KERNEL)`. -/
def PATTR_PG_KERNEL : Nat := 2 ^ 3

/-- `ALIGN_WITH_LONG`. -/
def alignWithLong (num : Nat) : Nat := alignUp64 8 num

/-- `struct SlabCache` as `CreateSlabCache` makes it, with `Constructor` and `Destructor`. -/
structure ObjectCache extends SlabCache where
  constructor : Option (Nat → Nat → Nat)
  destructor : Option (Nat → Nat → Nat)

/-! ## `memory.c` -/

/-- The slab that `CreatSlab` fills in: `memset` has left zero in `ColorCount` and `UsingCount`. -/
def freshSlab (size addr colorMap page vaddress : Nat) : Slab where
  addr := addr
  page := page
  vaddress := vaddress
  colorMap := colorMap
  usingCount := 0
  freeCount := PAGE_2M_SIZE / size
  colorLength := bitsMapLength (PAGE_2M_SIZE / size)
  colorCount := 0

/-- The page of `CreatSlab`, with the header and the bitmap in the blocks `addr` and `colorMap`. -/
def creatSlabPage (s : KMem) (size : Nat) (zoneSelector : Int) (addr colorMap : Nat) :
    Option (KMem × Option Slab) :=
  match allocPage s.mms zoneSelector 1 PATTR_PG_KERNEL with
  | none => none
  | some (mms, none) =>
      (kfree { s with mms := mms } colorMap).bind (fun r =>
        (kfree r.1 addr).map (fun r => (r.1, none)))
  | some (mms, some page) =>
      some ({ s with mms := mms },
        some (freshSlab size addr colorMap page (phyToVirt (mms.page page).phyAddr)))

/-- `CreatSlab`. -/
def creatSlab (s : KMem) (size : Nat) (zoneSelector : Int) : Option (KMem × Option Slab) :=
  match kmalloc s SLAB_STRUCT_SIZE with
  | none => none
  | some (s₁, none) => some (s₁, none)
  | some (s₁, some addr) =>
      let colorLength := bitsMapLength (PAGE_2M_SIZE / size)
      match kmalloc s₁ (8 * colorLength) with
      | none => none
      | some (s₂, none) => (kfree s₂ addr).map (fun r => (r.1, none))
      | some (s₂, some colorMap) =>
          creatSlabPage { s₂ with word := fill s₂.word (colorMap / 8) colorLength 0 } size
            zoneSelector addr colorMap

/-- `CreateSlabCache`. -/
def createSlabCache (s : KMem) (slabSize : Nat) (constructor destructor : Option (Nat → Nat → Nat)) :
    Option (KMem × Option ObjectCache) :=
  match kmalloc s SLAB_CACHE_SIZE with
  | none => none
  | some (s₁, none) => some (s₁, none)
  | some (s₁, some sc) =>
      match creatSlab s₁ (alignWithLong slabSize) ZONE_NORMAL_INDEX with
      | none => none
      | some (s₂, none) => (kfree s₂ sc).map (fun r => (r.1, none))
      | some (s₂, some slab) =>
          some (s₂, some ⟨⟨alignWithLong slabSize, slab.freeCount, 0, [slab]⟩, constructor, destructor⟩)

/-- The first part of `AllocSlab`: a cache without a free object gets a slab. -/
def growObjects (s : KMem) (sc : ObjectCache) : Option (KMem × Option ObjectCache) :=
  if sc.totalFree = 0 then
    (creatSlab s sc.size ZONE_NORMAL_INDEX).map (fun r => (r.1, r.2.map (fun slab =>
      { sc with totalFree := slab.freeCount, ring := insertSlab slab sc.ring })))
  else some (s, some sc)

/-- `AllocSlab`. -/
def allocObject (s : KMem) (sc : ObjectCache) (arg : Nat) :
    Option (KMem × ObjectCache × Option Nat) :=
  match growObjects s sc with
  | none => none
  | some (s₁, none) => some (s₁, sc, none)
  | some (s₁, some sc₁) =>
      match allocRing s₁.word sc₁.size sc₁.ring with
      | none => some (s₁, sc₁, none)
      | some (ring, word, vaddr) =>
          some ({ s₁ with word := word },
            { sc₁ with totalFree := sc₁.totalFree - 1, totalUse := sc₁.totalUse + 1, ring := ring },
            some ((sc₁.constructor.map (fun f => f vaddr arg)).getD vaddr))

/-- The slab `FreeSlab` takes for an object. -/
def ownerSlab (vaddress : Nat) (ring : List Slab) : Option Slab :=
  ring.find? (fun slab => decide (slab.vaddress ≤ vaddress ∧ vaddress - slab.vaddress < PAGE_2M_SIZE))

/-- The end of `FreeSlab`: a slab without objects is given up where there are enough others. `none`
where it is `CachePool`, which then points to a header that is free. -/
def dropObjectSlab (s : KMem) (sc : ObjectCache) (slab : Slab) : Option (KMem × ObjectCache) :=
  if slab.usingCount = 0 ∧ 3 * slab.colorCount ≤ 2 * sc.totalFree then
    if sc.ring.head?.map Slab.addr = some slab.addr then none
    else do
      let r₁ ← kfree s slab.colorMap
      let r₂ ← freePage r₁.1.mms slab.page 1
      let r₃ ← kfree { r₁.1 with mms := r₂.1 } slab.addr
      some (r₃.1, { sc with
        totalFree := sc.totalFree - slab.colorCount
        ring := sc.ring.eraseP (fun t => t.addr = slab.addr) })
  else some (s, sc)

/-- `FreeSlab`; the result says whether the call returned 1. What `Destructor` does to the object is
left out. -/
def freeObject (s : KMem) (sc : ObjectCache) (vaddress : Nat) :
    Option (KMem × ObjectCache × Bool) :=
  match ownerSlab vaddress sc.ring with
  | none => some (s, sc, false)
  | some slab =>
      let index := (vaddress - slab.vaddress) / sc.size
      (dropObjectSlab { s with word := flipBit s.word (slab.colorMap / 8) index }
        { sc with
          totalFree := sc.totalFree + 1, totalUse := sc.totalUse - 1
          ring := replaceSlab slab.give sc.ring } slab.give).map (fun r => (r.1, r.2, true))

/-! ## Runs -/

/-- The heap, a cache, and the objects of it that are in use. -/
structure ObjectHeap where
  mem : KMem
  cache : ObjectCache
  live : List Nat

inductive CacheStep
  | alloc (arg : Nat)
  | free (vaddress : Nat)

def CacheStep.run (s : ObjectHeap) : CacheStep → Option ObjectHeap
  | .alloc arg => (allocObject s.mem s.cache arg).map (fun r => ⟨r.1, r.2.1, r.2.2.toList ++ s.live⟩)
  | .free vaddress => (freeObject s.mem s.cache vaddress).map (fun r =>
      ⟨r.1, r.2.1, s.live.erase vaddress⟩)

/-- Objects that are in use are freed. -/
def CacheStep.Allowed (s : ObjectHeap) : CacheStep → Prop
  | .alloc _ => True
  | .free vaddress => vaddress ∈ s.live

/-- The states that a cache comes to which `CreateSlabCache` has returned, for objects of `slabSize`
bytes. -/
inductive CacheReachable (slabSize : Nat) : ObjectHeap → Prop
  | create {s s' : KMem} {sc : ObjectCache} {constructor destructor : Option (Nat → Nat → Nat)}
      (h : createSlabCache s slabSize constructor destructor = some (s', some sc)) :
      CacheReachable slabSize ⟨s', sc, []⟩
  | step {s s' : ObjectHeap} (c : CacheStep) (h : CacheReachable slabSize s) (ha : c.Allowed s)
      (hr : c.run s = some s') : CacheReachable slabSize s'

/-! ## What is to hold, and does not -/

/-- `AllocSlab` returns an object where there is a free one. -/
def ObjectHeap.Allocates (s : ObjectHeap) : Prop :=
  0 < s.cache.totalFree → ∀ arg, ∃ mem sc p, allocObject s.mem s.cache arg = some (mem, sc, some p)

/-- The counters of each slab add up to the number of its objects. -/
def ObjectHeap.Counted (s : ObjectHeap) : Prop :=
  ∀ slab ∈ s.cache.ring, slab.usingCount + slab.freeCount = slab.colorCount ∧
    slab.colorCount = PAGE_2M_SIZE / s.cache.size

/-- What holds instead: one slab, with free objects and no colour for them. -/
structure ObjectHeap.Stillborn (s : ObjectHeap) : Prop where
  live : s.live = []
  slab : ∃ slab, s.cache.ring = [slab] ∧ slab.colorCount = 0 ∧ slab.freeCount = s.cache.totalFree
  free : 0 < s.cache.totalFree

section

variable {s s' : KMem} {sc : ObjectCache}

/-- The slab that `CreatSlab` returns. -/
theorem creatSlab_slab {size : Nat} {zoneSelector : Int} {slab : Slab}
    (h : creatSlab s size zoneSelector = some (s', some slab)) :
    slab.colorCount = 0 ∧ slab.freeCount = PAGE_2M_SIZE / size := by
  unfold creatSlab at h
  split at h
  · exact nomatch h
  · exact nomatch h
  · dsimp only at h
    split at h
    · exact nomatch h
    · obtain ⟨r, -, hr⟩ := Option.map_eq_some_iff.mp h
      exact nomatch hr
    · unfold creatSlabPage at h
      split at h
      · exact nomatch h
      · obtain ⟨r, -, hr⟩ := Option.bind_eq_some_iff.mp h
        obtain ⟨r', -, hr'⟩ := Option.map_eq_some_iff.mp hr
        exact nomatch hr'
      · obtain ⟨-, hslab⟩ := Prod.mk.inj (Option.some.inj h)
        obtain rfl := Option.some.inj hslab
        exact ⟨rfl, rfl⟩

/-- The cache that `CreateSlabCache` returns. -/
theorem createSlabCache_stillborn {slabSize : Nat}
    {constructor destructor : Option (Nat → Nat → Nat)} (h1 : 1 ≤ slabSize) (h2 : slabSize ≤ 0x100000)
    (h : createSlabCache s slabSize constructor destructor = some (s', some sc)) :
    ObjectHeap.Stillborn ⟨s', sc, []⟩ := by
  unfold createSlabCache at h
  split at h
  · exact nomatch h
  · exact nomatch h
  · split at h
    · exact nomatch h
    · obtain ⟨r, -, hr⟩ := Option.map_eq_some_iff.mp h
      exact nomatch hr
    · rename_i slab hslab
      obtain ⟨hcolor, hfree⟩ := creatSlab_slab hslab
      obtain ⟨-, hsc⟩ := Prod.mk.inj (Option.some.inj h)
      obtain rfl := Option.some.inj hsc
      refine ⟨rfl, ⟨slab, rfl, hcolor, rfl⟩, ?_⟩
      show 0 < slab.freeCount
      rw [hfree]
      unfold alignWithLong alignUp64 alignDown
      rw [add64_eq (by omega)]
      refine Nat.div_pos ?_ (by omega)
      show _ ≤ 0x200000
      omega

end

/-- `AllocSlab` finds nothing, and changes nothing. -/
theorem ObjectHeap.Stillborn.alloc {s : ObjectHeap} (h : s.Stillborn) (arg : Nat) :
    allocObject s.mem s.cache arg = some (s.mem, s.cache, none) := by
  obtain ⟨slab, hring, hcolor, hfree⟩ := h.slab
  have hgrow : growObjects s.mem s.cache = some (s.mem, some s.cache) :=
    if_neg (Nat.ne_of_gt h.free)
  have hfind : findColor s.mem.word slab = none := by
    unfold findColor
    rw [hcolor]
    rfl
  have hnone : allocRing s.mem.word s.cache.size s.cache.ring = none := by
    rw [hring]
    unfold allocRing
    rw [hfind, ite_self]
    rfl
  unfold allocObject
  rw [hgrow]
  dsimp only
  rw [hnone]

theorem CacheReachable.stillborn {slabSize : Nat} {s : ObjectHeap} (h1 : 1 ≤ slabSize)
    (h2 : slabSize ≤ 0x100000) (h : CacheReachable slabSize s) : s.Stillborn := by
  induction h with
  | create h => exact createSlabCache_stillborn h1 h2 h
  | @step s s' c _ ha hr ih =>
      cases c with
      | alloc arg =>
          rw [CacheStep.run, ih.alloc arg] at hr
          obtain rfl := Option.some.inj hr
          exact ih
      | free vaddress =>
          -- there is no object to free
          have hmem : vaddress ∈ s.live := ha
          rw [ih.live] at hmem
          exact absurd hmem List.not_mem_nil

/-- **A cache of one's own never works**: whatever the size of its objects, in every state it comes to
`AllocSlab` returns `NULL` with objects free, and the counters do not add up. -/
theorem object_cache_never_works {slabSize : Nat} {s : ObjectHeap} (h1 : 1 ≤ slabSize)
    (h2 : slabSize ≤ 0x100000) (h : CacheReachable slabSize s) : ¬ s.Allocates ∧ ¬ s.Counted := by
  have hs := h.stillborn h1 h2
  constructor
  · intro hall
    obtain ⟨mem, sc, p, he⟩ := hall hs.free 0
    rw [hs.alloc 0] at he
    exact nomatch he
  · intro hall
    obtain ⟨slab, hring, hcolor, hfree⟩ := hs.slab
    have hsum := (hall slab (by rw [hring]; exact List.mem_cons_self)).1
    have hpos := hs.free
    omega

/-- A cache for objects of 1 MiB, in the example's kernel. -/
theorem exampleCache : ∃ s, CacheReachable 0x100000 s := by
  obtain ⟨mem, -, hinv, hfree⟩ := exampleInv_boot
  have hf : ∀ i < 3, (mem.cache i).totalFree ≠ 0 := by
    intro i hi
    rw [hfree i]
    interval_cases i <;> decide
  obtain ⟨m₁, sc, h1, hinv₁, -, hne₁⟩ := @ExampleInv.kmalloc _ hinv 1 SLAB_CACHE_SIZE (by decide)
    (hf 1 (by decide)) (by decide) (by decide)
  obtain ⟨m₂, addr, h2, hinv₂, -, hne₂⟩ := @ExampleInv.kmalloc _ hinv₁ 2 SLAB_STRUCT_SIZE (by decide)
    (by rw [hne₁ 2 (by decide)]; exact hf 2 (by decide)) (by decide) (by decide)
  obtain ⟨m₃, colorMap, h3, hinv₃, -⟩ := @ExampleInv.kmalloc _ hinv₂ 0 8 (by decide)
    (by rw [hne₂ 0 (by decide), hne₁ 0 (by decide)]; exact hf 0 (by decide)) (by decide) (by decide)
  have hheap : HeapInv _ _ m₃ (fun _ => 0) _ := hinv₃.inv
  obtain ⟨mms, page, -, -, h4, -⟩ := @example_allocPages _ _ _ hheap hinv₃.tails (1 * 2 ^ 9) 20480
    PATTR_PG_KERNEL (by rw [getOrder_block]; decide) (by rw [getOrder_block]; norm_num) le_rfl
    (by rw [getOrder_block]; norm_num) (fun _ _ => rfl)
  have h4 : allocPage m₃.mms ZONE_NORMAL_INDEX 1 PATTR_PG_KERNEL = some (mms, some page) := h4
  have hsize : alignWithLong 0x100000 = 0x100000 := by decide
  have hlen : 8 * bitsMapLength (PAGE_2M_SIZE / 0x100000) = 8 := by decide
  have hslab : ∃ s' slab, creatSlab m₁ (alignWithLong 0x100000) ZONE_NORMAL_INDEX
      = some (s', some slab) := by
    unfold creatSlab
    rw [hsize, h2]
    dsimp only
    rw [hlen, h3]
    dsimp only
    unfold creatSlabPage
    dsimp only
    rw [h4]
    exact ⟨_, _, rfl⟩
  obtain ⟨s', slab, hslab⟩ := hslab
  have hcache : ∃ s'' c, createSlabCache mem 0x100000 none none = some (s'', some c) := by
    unfold createSlabCache
    rw [h1]
    dsimp only
    rw [hslab]
    exact ⟨_, _, rfl⟩
  obtain ⟨s'', c, hcache⟩ := hcache
  exact ⟨_, CacheReachable.create hcache⟩

theorem object_cache_never_works_example : ∃ s : ObjectHeap, 0 < s.cache.totalFree ∧
    ¬ s.Allocates ∧ ¬ s.Counted := by
  obtain ⟨s, h⟩ := exampleCache
  exact ⟨s, (h.stillborn (by decide) le_rfl).free, object_cache_never_works (by decide) le_rfl h⟩

/-- A cache for objects of 1 MiB does not do what it is for. -/
theorem object_cache_fails : ¬ ∀ (slabSize : Nat) (s : ObjectHeap), 1 ≤ slabSize →
    slabSize ≤ 0x100000 → CacheReachable slabSize s → s.Allocates ∧ s.Counted := by
  intro hall
  obtain ⟨s, h⟩ := exampleCache
  have hs := h.stillborn (by decide) le_rfl
  obtain ⟨mem, sc, p, he⟩ := (hall _ s (by decide) le_rfl h).1 hs.free 0
  rw [hs.alloc 0] at he
  exact nomatch he

end Talios
