import Talios.Lib.Bitmap
import Talios.Memory.Buddy

set_option autoImplicit false

/-! # The kernel heap

`kmalloc` and `kfree` of `memory.c`: sixteen size classes, each a ring of slabs of 2 MiB that
starts at `CachePool`, with a bitmap (`ColorMap`) of the objects handed out.

Addresses are those of the direct map, `PAGE_OFFSET` above the physical ones. The memory is a
function from word indices (address divided by 8) to 64-bit words; the bitmaps are read from and
written to it. A `struct Slab` is a record together with its address, and a ring is the list of
its slabs from `CachePool` on, in the order of `list.next`: `ListBackAdd` at `CachePool` puts a
slab second, `ListDelete` takes one out.

The counters of slabs and classes count objects in memory and do not overflow; the code guards
each of its subtractions by a test. They are natural numbers.

A function answers `none` where the code would write through a null pointer or to a page that
is none.
-/

namespace Talios

open Word Bitmap

def PAGE_OFFSET : Nat := 0xffff800000000000
def KMALLOC_SLAB_SIZE : Nat := 16

/-- `sizeof(struct Slab)`. -/
def SLAB_STRUCT_SIZE : Nat := 72

/-- `PHY_TO_VIRT`. -/
def phyToVirt (addr : Nat) : Nat := addr + PAGE_OFFSET

/-- `VIRT_TO_PHY`. -/
def virtToPhy (addr : Nat) : Nat := addr - PAGE_OFFSET

/-- `BITS_MAP_LENGTH`. -/
def bitsMapLength (count : Nat) : Nat := (count + 63) / 64

/-- `MEM_GAP_ALIGN`. -/
def memGapAlign (addr : Nat) : Nat := alignDown 8 (addr + 64)

/-! ## Data -/

/-- `struct Slab` at address `addr`. `page` is the page frame number of `page`. -/
structure Slab where
  addr : Nat
  page : Nat
  vaddress : Nat
  colorMap : Nat
  usingCount : Nat
  freeCount : Nat
  colorLength : Nat
  colorCount : Nat
deriving DecidableEq

/-- `struct SlabCache` of the table `KmallocSlabSet`: no constructor, no destructor. -/
structure SlabCache where
  size : Nat
  totalFree : Nat
  totalUse : Nat
  ring : List Slab

/-- The memory manager, the memory and `KmallocSlabSet`. -/
structure KMem where
  mms : MMS
  word : Memory
  cache : Nat → SlabCache

def KMem.setCache (s : KMem) (i : Nat) (c : SlabCache) : KMem :=
  { s with cache := Function.update s.cache i c }

/-! ## Allocation -/

/-- The search loop of `AllocSlab` on one slab. -/
def findColor (word : Memory) (slab : Slab) : Option Nat :=
  scan word (slab.colorMap / 8) slab.colorCount slab.colorCount 0

/-- The slab after one of its objects has been handed out. -/
def Slab.take (slab : Slab) : Slab :=
  { slab with freeCount := slab.freeCount - 1, usingCount := slab.usingCount + 1 }

/-- The walk of `AllocSlab` round a ring: the ring and the memory afterwards, and the address of
the object. -/
def allocRing (word : Memory) (size : Nat) : List Slab → Option (List Slab × Memory × Nat)
  | [] => none
  | slab :: rest =>
      -- a slab that claims a free object may have no clear bit; then the walk goes on
      match if slab.freeCount = 0 then none else findColor word slab with
      | some i =>
          some (slab.take :: rest, setBit word (slab.colorMap / 8) i, slab.vaddress + i * size)
      | none => (allocRing word size rest).map (fun r => (slab :: r.1, r.2))

/-- `AllocSlab` on class `i`. `kmalloc` calls it with a class that has free objects, so the
branch that calls `CreatSlab` is not taken. -/
def allocSlab (s : KMem) (i : Nat) : KMem × Option Nat :=
  let c := s.cache i
  match allocRing s.word c.size c.ring with
  | some (ring, word, addr) =>
      ({ s with word := word }.setCache i
        { c with totalFree := c.totalFree - 1, totalUse := c.totalUse + 1, ring := ring },
        some addr)
  | none => (s, none)

/-- `ListBackAdd` of a slab at `CachePool`. -/
def insertSlab (slab : Slab) : List Slab → List Slab
  | [] => [slab]
  | cachePool :: rest => cachePool :: slab :: rest

/-- A slab joins class `i`. -/
def KMem.addSlab (s : KMem) (i : Nat) (slab : Slab) : KMem :=
  let c := s.cache i
  s.setCache i { c with
    totalFree := c.totalFree + slab.freeCount, ring := insertSlab slab c.ring }

/-- `StructSize` of `kmalloc`: the header and the bitmap at the end of the page. -/
def structSize (ksize : Nat) : Nat := SLAB_STRUCT_SIZE + PAGE_2M_SIZE / ksize / 8

/-- The header `kmalloc` puts at the end of a page for a class of up to 0x200 bytes. -/
def smallSlab (ksize page virt : Nat) : Slab :=
  let addr := virt + PAGE_2M_SIZE - structSize ksize
  -- `FreeCount` is rounded up, so that the last object reaches into the header
  let count := (PAGE_2M_SIZE - structSize ksize + ksize - 1) / ksize
  { addr := addr, page := page, vaddress := virt, colorMap := addr + SLAB_STRUCT_SIZE,
    usingCount := 0, freeCount := count, colorLength := bitsMapLength count, colorCount := count }

/-- Growing class `i` of up to 0x200 bytes by the page `page`: the bitmap is filled with ones and
the bit of every object is changed. -/
def growSmall (s : KMem) (i page : Nat) : KMem :=
  let slab := smallSlab (s.cache i).size page (phyToVirt (s.mms.page page).phyAddr)
  let filled := fill s.word (slab.colorMap / 8) slab.colorLength (BitVec.allOnes 64)
  let word := (List.range slab.colorCount).foldl (fun w j => flipBit w (slab.colorMap / 8) j) filled
  { s with word := word }.addSlab i slab

/-- The header of a slab of a class above 0x200 bytes, itself an object at `addr`. -/
def largeSlab (ksize page virt addr : Nat) : Slab :=
  let count := PAGE_2M_SIZE / ksize
  { addr := addr, page := page, vaddress := virt, colorMap := virt,
    usingCount := 0, freeCount := count, colorLength := bitsMapLength count, colorCount := count }

/-- Growing class `i` above 0x200 bytes by the page `page`: the bitmap is at the start of the
page. -/
def growLarge (s : KMem) (i page addr : Nat) : KMem :=
  let slab := largeSlab (s.cache i).size page (phyToVirt (s.mms.page page).phyAddr) addr
  { s with word := fill s.word (slab.colorMap / 8) slab.colorLength 0 }.addSlab i slab

/-- The classes whose headers lie in their pages. -/
def smallSizes : List Nat := [0x20, 0x40, 0x80, 0x100, 0x200]

/-- The classes whose headers are objects of their own. -/
def largeSizes : List Nat :=
  [0x400, 0x800, 0x1000, 0x2000, 0x4000, 0x8000, 0x10000, 0x20000, 0x40000, 0x80000, 0x100000]

/-- The first class from `i` on with objects of `size` bytes; `fuel` is the number of classes
left. -/
def findClass (s : KMem) (size : Nat) : Nat → Nat → Option Nat
  | 0, _ => none
  | fuel + 1, i => if (s.cache i).size < size then findClass s size fuel (i + 1) else some i

/-- `kmalloc` with `nested` for the call that allocates the header of a slab of a class above
0x200 bytes. -/
def kmallocWith (nested : KMem → Nat → Option (KMem × Option Nat)) (s : KMem) (size : Nat) :
    Option (KMem × Option Nat) :=
  if 0x100000 < size then some (s, none)
  else
    match findClass s size KMALLOC_SLAB_SIZE 0 with
    | none => some (s, none)
    | some i =>
        if (s.cache i).totalFree = 0 then
          match allocPage s.mms ZONE_NORMAL_INDEX 1 0 with
          | none => none
          | some (mms, none) => some ({ s with mms := mms }, none)
          | some (mms, some page) =>
              let s₁ := { s with mms := mms }
              if (s.cache i).size ∈ smallSizes then some (allocSlab (growSmall s₁ i page) i)
              else if (s.cache i).size ∈ largeSizes then
                match nested s₁ SLAB_STRUCT_SIZE with
                | some (s₂, some addr) => some (allocSlab (growLarge s₂ i page addr) i)
                -- the result is not tested: the header would be written through null
                | _ => none
              else (freePage mms page 1).map (fun r => ({ s with mms := r.1 }, none))
        else some (allocSlab s i)

/-- `kmalloc`. The nested call asks for `sizeof(struct Slab)` bytes, which a class of up to
0x200 bytes serves, so it does not nest again. -/
def kmalloc (s : KMem) (size : Nat) : Option (KMem × Option Nat) :=
  kmallocWith (kmallocWith (fun _ _ => none)) s size

/-! ## Freeing -/

/-- The slab of a ring that `kfree` takes for the page at `pageAddr`. -/
def findSlab (pageAddr : Nat) (ring : List Slab) : Option Slab :=
  ring.find? (fun slab => decide (slab.usingCount ≠ 0 ∧ slab.vaddress = pageAddr))

/-- The class and slab `kfree` takes, from class `i` on. -/
def findOwner (s : KMem) (pageAddr : Nat) : Nat → Nat → Option (Nat × Slab)
  | 0, _ => none
  | fuel + 1, i =>
      match if (s.cache i).totalUse = 0 then none else findSlab pageAddr (s.cache i).ring with
      | some slab => some (i, slab)
      | none => findOwner s pageAddr fuel (i + 1)

/-- The slab after one of its objects has been taken back. -/
def Slab.give (slab : Slab) : Slab :=
  { slab with usingCount := slab.usingCount - 1, freeCount := slab.freeCount + 1 }

/-- The ring with the slab at the address of `slab` replaced by `slab`. -/
def replaceSlab (slab : Slab) (ring : List Slab) : List Slab :=
  ring.map (fun t => if t.addr = slab.addr then slab else t)

/-- `kfree` up to the test whether the slab is given up: the object of `slab` at `ptr` is
marked free. -/
def releaseObject (s : KMem) (i : Nat) (slab : Slab) (ptr : Nat) : KMem :=
  let c := s.cache i
  let offset := (ptr - alignDown PAGE_2M_SIZE ptr) / c.size
  -- `^=` changes the bit, whatever it was
  { s with word := flipBit s.word (slab.colorMap / 8) offset }.setCache i { c with
    totalFree := c.totalFree + 1, totalUse := c.totalUse - 1,
    ring := replaceSlab slab.give c.ring }

/-- The slab leaves class `i` and its page goes back to the page allocator; `use` is what
`TotalUse` is reduced by. -/
def dropSlab (s : KMem) (i : Nat) (slab : Slab) (use : Nat) : Option KMem :=
  let c := s.cache i
  (freePage s.mms slab.page 1).map (fun r => { s with mms := r.1 }.setCache i { c with
    totalFree := c.totalFree - slab.freeCount, totalUse := c.totalUse - use,
    ring := c.ring.eraseP (fun t => t.addr = slab.addr) })

/-- `kfree` with `nested` for the call that frees the header of a slab of a class above 0x200
bytes; the result says whether the call returned 1. -/
def kfreeWith (nested : KMem → Nat → Option (KMem × Bool)) (s : KMem) (ptr : Nat) :
    Option (KMem × Bool) :=
  match findOwner s (alignDown PAGE_2M_SIZE ptr) KMALLOC_SLAB_SIZE 0 with
  | none => some (s, false)
  | some (i, slab) =>
      let s₁ := releaseObject s i slab ptr
      let slab₁ := slab.give
      -- the slab stays as long as it has objects in use, few others are free, or it is `CachePool`
      if slab₁.usingCount ≠ 0 ∨ (s₁.cache i).totalFree < slab₁.freeCount * 3 / 2 ∨
          (s₁.cache i).ring.head?.map Slab.addr = some slab₁.addr then some (s₁, true)
      else if (s.cache i).size ∈ smallSizes then
        (dropSlab s₁ i slab₁ slab₁.usingCount).map (·, true)
      else
        -- the header is freed last, and the result of this call is not looked at
        match dropSlab s₁ i slab₁ 0 with
        | none => none
        | some s₂ => (nested s₂ slab.addr).map (fun r => (r.1, true))

/-- `kfree`. -/
def kfree (s : KMem) (ptr : Nat) : Option (KMem × Bool) :=
  kfreeWith (kfreeWith (fun _ _ => none)) s ptr

/-! ## Initialisation -/

/-- The sizes of `KmallocSlabSet`: 0x20, 0x40, up to 0x100000. -/
def kmallocSize (i : Nat) : Nat := 0x20 * 2 ^ i

/-- The header of the first slab of class `i`, at `addr`. -/
def poolHeader (i addr : Nat) : Slab :=
  let count := PAGE_2M_SIZE / kmallocSize i
  { addr := addr, page := 0, vaddress := 0, colorMap := addr + SLAB_STRUCT_SIZE,
    usingCount := 0, freeCount := count, colorLength := bitsMapLength count, colorCount := count }

/-- The end of a header and its bitmap. -/
def Slab.metaEnd (slab : Slab) : Nat := slab.colorMap + slab.colorLength * 8

/-- `MMS.EndStruct` before the header of class `i` is placed. -/
def endStructAt (endStruct : Nat) : Nat → Nat
  | 0 => endStruct
  | i + 1 => (poolHeader i (memGapAlign (endStructAt endStruct i))).metaEnd

/-- The header the first loop of `SlabCacheInit` places for class `i`. -/
def initHeader (endStruct i : Nat) : Slab :=
  poolHeader i (memGapAlign (endStructAt endStruct i))

/-- `MMS.EndStruct` after `SlabCacheInit`. -/
def endStructDone (endStruct : Nat) : Nat := endStructAt endStruct KMALLOC_SLAB_SIZE

/-- The page the second loop of `SlabCacheInit` gives class `i`. -/
def poolPage (endStruct i : Nat) : Nat :=
  alignDown PAGE_2M_SIZE (endStructDone endStruct + PAGE_2M_SIZE * i + (PAGE_2M_SIZE - 1))

/-- `CachePool` of class `i`. -/
def cachePool (endStruct i : Nat) : Slab :=
  { initHeader endStruct i with
    page := page4KIndex (virtToPhy (poolPage endStruct i)), vaddress := poolPage endStruct i }

/-- The attributes of the pages of the kernel: `PG_KERNEL`, `PG_KERNEL_INIT`,
`PG_PTABLE_MAPPED`. -/
def KERNEL_ATTR : Nat := 2 ^ 3 ||| 2 ^ 1 ||| 2 ^ 0

/-- The calls of `reserve_phys_range` in `InitMemory` and `SlabCacheInit`. -/
def kernelReservations (endStruct : Nat) : List Reservation :=
  ⟨0, virtToPhy endStruct, KERNEL_ATTR⟩ ::
  ⟨virtToPhy endStruct, virtToPhy (endStructDone endStruct), KERNEL_ATTR⟩ ::
  (List.range KMALLOC_SLAB_SIZE).map (fun i =>
    ⟨virtToPhy (poolPage endStruct i), virtToPhy (poolPage endStruct i) + PAGE_2M_SIZE, KERNEL_ATTR⟩)

/-- What `InitMemory` starts from: the usable memory, `MMS.EndStruct` when `SlabCacheInit` is
called, and the content of the memory. The direct map reaches all of it. -/
structure KernelImage where
  map : MemoryMap
  endStruct : Nat
  word : Memory
  lower : PAGE_OFFSET ≤ endStruct
  upper : endStruct + 2 ^ 26 ≤ PAGE_OFFSET + 2 ^ 47
  direct : map.pagesCount * PAGE_4K_SIZE ≤ 2 ^ 47

/-- The memory with the bitmaps of all classes cleared. -/
def initWord (img : KernelImage) : Memory :=
  (List.range KMALLOC_SLAB_SIZE).foldl (fun w i =>
    fill w ((initHeader img.endStruct i).colorMap / 8) (initHeader img.endStruct i).colorLength 0)
    img.word

/-- `KmallocSlabSet` after `SlabCacheInit`. -/
def initCache (endStruct i : Nat) : SlabCache :=
  { size := kmallocSize i, totalFree := (cachePool endStruct i).colorCount, totalUse := 0,
    ring := [cachePool endStruct i] }

/-- The state `InitMemory` ends in. -/
def initMemory (img : KernelImage) : Option KMem :=
  (bootMMS img.map (kernelReservations img.endStruct)).map
    (fun m => { mms := m, word := initWord img, cache := initCache img.endStruct })

end Talios
