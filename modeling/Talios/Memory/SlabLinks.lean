import Talios.Memory.SlabFailure
import Talios.Memory.SlabRing

set_option autoImplicit false

/-! # Runs of `kmalloc` and `kfree` with the pointers of the lists

`kmalloc` and `kfree` go round the rings by the pointers `list` of the headers, and write these. A new
header is written as a whole: where it is an object of class 2 that reaches into the header of another
slab, its last two fields land on the `list` of that slab.

What the code does once the pointers of a class are no ring is not modelled: a run ends there.
-/

namespace Talios

open Word Bitmap

/-! ## The pointers -/

/-- `ListBackAdd`. -/
def listBackAdd (list : Links.Heap Nat) (a b : Nat) : Links.Heap Nat := list.backAdd a b

/-- The word of a `struct Slab` at an offset; `pageAt` are the addresses of the `struct Page`. -/
def Slab.field (pageAt : Nat → Nat) (slab : Slab) : Nat → Nat
  | 16 => pageAt slab.page
  | 24 => slab.vaddress
  | 32 => slab.colorMap
  | 40 => slab.usingCount
  | 48 => slab.freeCount
  | 56 => slab.colorLength
  | 64 => slab.colorCount
  | _ => slab.addr

/-- The address lies in the header. -/
def Slab.HasByte (slab : Slab) (a : Nat) : Prop := slab.addr ≤ a ∧ a < slab.addr + SLAB_STRUCT_SIZE

instance (slab : Slab) (a : Nat) : Decidable (slab.HasByte a) := inferInstanceAs (Decidable (_ ∧ _))

/-- `kmalloc` fills in a header, `ListInit` included: what this does to the pointers. In
`struct List` `prev` comes first. -/
def writeHeader (pageAt : Nat → Nat) (list : Links.Heap Nat) (slab : Slab) : Links.Heap Nat where
  prev a := if slab.HasByte a then slab.field pageAt (a - slab.addr) else list.prev a
  next a := if slab.HasByte (a + 8) then slab.field pageAt (a + 8 - slab.addr) else list.next a

/-- A new slab is put in behind `CachePool`. -/
def growList (pageAt : Nat → Nat) (list : Links.Heap Nat) (cachePool : Nat) (slab : Slab) :
    Links.Heap Nat :=
  listBackAdd (writeHeader pageAt list slab) cachePool slab.addr

/-- `CachePool` of class `i`. -/
def KMem.cachePool (s : KMem) (i : Nat) : Nat := ((s.cache i).ring.head?.map Slab.addr).getD 0

/-- What `kmalloc` does to the pointers, with `nested` for the call that allocates a header. -/
def kmallocListWith (nested : KMem → Links.Heap Nat → Nat → Links.Heap Nat) (pageAt : Nat → Nat)
    (s : KMem) (list : Links.Heap Nat) (size : Nat) : Links.Heap Nat :=
  if 0x100000 < size then list
  else
    match findClass s size KMALLOC_SLAB_SIZE 0 with
    | none => list
    | some i =>
        if (s.cache i).totalFree = 0 then
          match allocPage s.mms ZONE_NORMAL_INDEX 1 0 with
          | some (mms, some page) =>
              let s₁ := { s with mms := mms }
              if (s.cache i).size ∈ smallSizes then
                growList pageAt list (s.cachePool i)
                  (smallSlab (s.cache i).size page (phyToVirt (mms.page page).phyAddr))
              else if (s.cache i).size ∈ largeSizes then
                -- the nested call may itself put a slab into its ring, before this header is written
                match kmallocWith (fun _ _ => none) s₁ SLAB_STRUCT_SIZE with
                | some (s₂, some addr) =>
                    growList pageAt (nested s₁ list SLAB_STRUCT_SIZE) (s₂.cachePool i)
                      (largeSlab (s.cache i).size page (phyToVirt (s₂.mms.page page).phyAddr) addr)
                | _ => list
              else list
          | _ => list
        else list

def kmallocList (pageAt : Nat → Nat) (s : KMem) (list : Links.Heap Nat) (size : Nat) :
    Links.Heap Nat :=
  kmallocListWith (kmallocListWith (fun _ list _ => list) pageAt) pageAt s list size

/-- What `kfree` does to the pointers, with `nested` for the call that frees a header. -/
def kfreeListWith (nested : KMem → Links.Heap Nat → Nat → Links.Heap Nat) (s : KMem)
    (list : Links.Heap Nat) (ptr : Nat) : Links.Heap Nat :=
  match findOwner s (alignDown PAGE_2M_SIZE ptr) KMALLOC_SLAB_SIZE 0 with
  | none => list
  | some (i, slab) =>
      let s₁ := releaseObject s i slab ptr
      let slab₁ := slab.give
      if slab₁.usingCount ≠ 0 ∨ (s₁.cache i).totalFree < slab₁.freeCount * 3 / 2 ∨
          (s₁.cache i).ring.head?.map Slab.addr = some slab₁.addr then list
      else if (s.cache i).size ∈ smallSizes then listDelete list slab.addr
      else
        -- the slab is unlinked before its header is freed
        match dropSlab s₁ i slab₁ 0 with
        | none => listDelete list slab.addr
        | some s₂ => nested s₂ (listDelete list slab.addr) slab.addr

def kfreeList (s : KMem) (list : Links.Heap Nat) (ptr : Nat) : Links.Heap Nat :=
  kfreeListWith (kfreeListWith (fun _ list _ => list)) s list ptr

/-! ## Runs -/

/-- The heap, the pointers, and the objects handed out to callers. -/
structure LinkedHeap where
  mem : KMem
  list : Links.Heap Nat
  blocks : List Nat

/-- The pointers link the slabs of each class to a ring. -/
def RingsLinked (ring : Nat → List Slab) (list : Links.Heap Nat) : Prop :=
  ∀ i < KMALLOC_SLAB_SIZE, Links.Circular list ((ring i).map Slab.addr)

inductive HeapCall
  | kmalloc (size : Nat)
  | kfree (ptr : Nat)

/-- `kfree` is called with an address in an object that is handed out. -/
inductive HeapCallStep (pageAt : Nat → Nat) : LinkedHeap → HeapCall → LinkedHeap → Prop
  | kmalloc {s : LinkedHeap} {mem' : KMem} {p : Nat} (size : Nat)
      (hring : RingsLinked s.mem.shapes s.list) (h : kmalloc s.mem size = some (mem', some p)) :
      HeapCallStep pageAt s (.kmalloc size)
        ⟨mem', kmallocList pageAt s.mem s.list size, p :: s.blocks⟩
  | kmallocNull {s : LinkedHeap} {mem' : KMem} (size : Nat)
      (hring : RingsLinked s.mem.shapes s.list) (h : kmalloc s.mem size = some (mem', none)) :
      HeapCallStep pageAt s (.kmalloc size) ⟨mem', kmallocList pageAt s.mem s.list size, s.blocks⟩
  | kfree {s : LinkedHeap} {mem' : KMem} {b : Nat} {ok : Bool} (ptr : Nat)
      (hring : RingsLinked s.mem.shapes s.list) (hb : b ∈ s.blocks) (hptr : s.mem.ObjectByte b ptr)
      (h : kfree s.mem ptr = some (mem', ok)) :
      HeapCallStep pageAt s (.kfree ptr) ⟨mem', kfreeList s.mem s.list ptr, s.blocks.erase b⟩

/-- The states reached from what `SlabCacheInit` builds by calls that all meet `ok`. `SlabCacheInit`
calls `ListInit` for the header of each class. -/
inductive LinkedReachable (img : KernelImage) (pageAt : Nat → Nat)
    (ok : LinkedHeap → HeapCall → Prop) : LinkedHeap → Prop
  | boot {mem : KMem} {list : Links.Heap Nat} (h : initMemory img = some mem)
      (hlist : ∀ i < KMALLOC_SLAB_SIZE, list.Alone (cachePool img.endStruct i).addr) :
      LinkedReachable img pageAt ok ⟨mem, list, []⟩
  | step {s s' : LinkedHeap} {c : HeapCall} (h : LinkedReachable img pageAt ok s) (hok : ok s c)
      (hs : HeapCallStep pageAt s c s') : LinkedReachable img pageAt ok s'

/-- If the call makes a class above 0x200 bytes grow, then the object for the header of the new slab
does not reach into the header behind it. -/
def HeaderEndsBefore (s : LinkedHeap) : HeapCall → Prop
  | .kmalloc size => ∀ i, findClass s.mem size KMALLOC_SLAB_SIZE 0 = some i → 5 ≤ i →
      (s.mem.cache i).totalFree = 0 →
      (∃ mms page, allocPage s.mem.mms ZONE_NORMAL_INDEX 1 0 = some (mms, some page)) →
      EndsBefore s.mem 2 SLAB_STRUCT_SIZE
  | .kfree _ => True

/-! ## The books -/

/-- The bit of the object at `p` is set. -/
def KMem.Marked (s : KMem) (p : Nat) : Prop :=
  ∃ i < KMALLOC_SLAB_SIZE, ∃ t ∈ (s.cache i).ring, ∃ j < t.colorCount,
    bit s.word (t.colorMap / 8) j = true ∧ p = t.vaddress + j * (s.cache i).size

/-- The counters, the bitmaps, the rings and the objects agree. -/
structure HeapAccounted (img : KernelImage) (s : LinkedHeap) : Prop where
  slabs : ∀ i < KMALLOC_SLAB_SIZE, ∀ t ∈ (s.mem.cache i).ring,
    t.freeCount + t.usingCount = t.colorCount ∧
      used s.mem.word (t.colorMap / 8) t.colorCount = t.usingCount
  totals : ∀ i < KMALLOC_SLAB_SIZE,
    (s.mem.cache i).totalFree = ((s.mem.cache i).ring.map Slab.freeCount).sum ∧
      (s.mem.cache i).totalUse = ((s.mem.cache i).ring.map Slab.usingCount).sum
  rings : RingsLinked s.mem.shapes s.list
  cachePool : ∀ i < KMALLOC_SLAB_SIZE, s.mem.cachePool i = (cachePool img.endStruct i).addr ∧
    s.mem.cachePool i ∈ (s.mem.shapes i).map Slab.addr
  nodup : (s.blocks ++ s.mem.headers).Nodup
  live : ∀ p, s.mem.Marked p ↔ p ∈ s.blocks ++ s.mem.headers

/-- `kmalloc` answers null, or is about to write through a null pointer of its own, only where there is no
page to be had or the size is too large: `AllocSlab` has found an object whenever it was called. -/
structure KmallocFinds (s : KMem) (size : Nat) : Prop where
  null : ∀ s', kmalloc s size = some (s', none) → 0x100000 < size ∨
    ∀ mms page, allocPage s.mms ZONE_NORMAL_INDEX 1 0 ≠ some (mms, some page)
  header : kmalloc s size = none → LosesPage s

/-- The slab `t` of class `i` is given up. -/
def GivenUp (s s' : KMem) (i : Nat) (t : Slab) : Prop :=
  t ∈ s.shapes i ∧ t ∉ s'.shapes i

/-- A call of `kfree` for the object at `b` has cleared the bit of this object, and that of the header
of a slab that is given up. Such a slab has no object in use left, and is not `CachePool`. -/
structure KfreeExact (s s' : KMem) (b : Nat) : Prop where
  clears : ∀ p, s'.Marked p ↔ s.Marked p ∧ p ≠ b ∧
    ¬ ∃ i < KMALLOC_SLAB_SIZE, 5 ≤ i ∧ ∃ t, GivenUp s s' i t ∧ t.addr = p
  released : ∀ i < KMALLOC_SLAB_SIZE, ∀ t, GivenUp s s' i t →
    t.addr ≠ s.cachePool i ∧ ∀ p, s'.Marked p → ¬ t.Data p

/-- The books are right, and the next call finds what it looks for. -/
structure HeapBooks (img : KernelImage) (s : LinkedHeap) : Prop extends HeapAccounted img s where
  kmalloc : ∀ size, KmallocFinds s.mem size
  kfree : ∀ b ∈ s.blocks, ∀ ptr, s.mem.ObjectByte b ptr →
    ∃ mem', kfree s.mem ptr = some (mem', true) ∧ KfreeExact s.mem mem' b

end Talios
