import Talios.Memory.KernelRun
import Talios.Memory.SlabPartedGrow

set_option autoImplicit false

/-! # All runs of the kernel's memory

Calls of `kmalloc` and `kfree` and of the page allocator, and writes of everyone to memory of their
own, in any order and with nothing asked of the room there is. Classes of all sizes grow. A byte written
into the `Vaddress` of a `struct Slab` changes that field; what else is written into a header, by a
client or by `kmalloc` where it has taken an object that reaches into one, leaves the heap in any state.

`MemoryReachable.inv` is about the runs in which every `kmalloc` has `LastRoom`: there no header is ever
written over.
-/

namespace Talios

open Word Bitmap Dyadic

/-! ## Steps -/

/-- The offset of `Vaddress` in `struct Slab`. -/
def SLAB_VADDRESS : Nat := 24

/-- Two headers meet. -/
def KMem.HeadersMeet (s : KMem) : Prop :=
  ∃ i < KMALLOC_SLAB_SIZE, ∃ j < KMALLOC_SLAB_SIZE, ∃ t ∈ (s.cache i).ring, ∃ u ∈ (s.cache j).ring,
    t.addr ≠ u.addr ∧ ∃ a, (t.addr ≤ a ∧ a < t.addr + SLAB_STRUCT_SIZE) ∧
      (u.addr ≤ a ∧ a < u.addr + SLAB_STRUCT_SIZE)

/-- Byte `k` of the `Vaddress` of a slab of class `i` is written. -/
def KMem.writeVaddress (s : KMem) (i : Nat) (slab : Slab) (k : Nat) (v : BitVec 8) : KMem :=
  s.setCache i { s.cache i with
    ring := (s.cache i).ring.map (fun t => if t.addr = slab.addr then
      { t with vaddress := (setByte (BitVec.ofNat 64 t.vaddress) k v).toNat } else t) }

inductive MemoryEvent
  | kmalloc (size : Nat)
  | kfree (b : Obj)
  | allocPages (selector : Int) (number attr : Nat)
  | freePages (p number : Nat)
  | write (a : Nat) (v : BitVec 8)

inductive MemoryStep : Kernel → MemoryEvent → Kernel → Prop
  | kmalloc {s : Kernel} {mem' : KMem} {p : Nat} (size : Nat)
      (h : kmalloc s.mem size = some (mem', some p)) (hh : ¬ mem'.HeadersMeet) :
      MemoryStep s (.kmalloc size) ⟨mem', ⟨p, size⟩ :: s.live, s.blocks⟩
  | kmallocNull {s : Kernel} {mem' : KMem} (size : Nat)
      (h : kmalloc s.mem size = some (mem', none)) (hh : ¬ mem'.HeadersMeet) :
      MemoryStep s (.kmalloc size) ⟨mem', s.live, s.blocks⟩
  | kmallocClobber {s s' : Kernel} {mem' : KMem} {r : Option Nat} (size : Nat)
      (h : kmalloc s.mem size = some (mem', r)) (hh : mem'.HeadersMeet) :
      MemoryStep s (.kmalloc size) s'
  | kfree {s : Kernel} {mem' : KMem} {ok : Bool} (b : Obj) (hb : b ∈ s.live)
      (h : kfree s.mem b.ptr = some (mem', ok)) :
      MemoryStep s (.kfree b) ⟨mem', s.live.erase b, s.blocks⟩
  | allocPages {s : Kernel} {mms : MMS} {p : Nat} (selector : Int) (number attr : Nat)
      (h : allocPages s.mem.mms selector number attr = some (mms, some p)) :
      MemoryStep s (.allocPages selector number attr)
        ⟨{ s.mem with mms := mms }, s.live, (p, getOrder number) :: s.blocks⟩
  | freePages {s : Kernel} {mms : MMS} {ok : Bool} (p number : Nat)
      (hb : (p, getOrder number) ∈ s.blocks)
      (h : freePages s.mem.mms p number = some (mms, ok)) :
      MemoryStep s (.freePages p number)
        ⟨{ s.mem with mms := mms }, s.live, s.blocks.erase (p, getOrder number)⟩
  | write {s : Kernel} (b : Obj) (hb : b ∈ s.live) (a : Nat) (v : BitVec 8) (ha : b.Has a)
      (hh : ¬ s.mem.Header a) : MemoryStep s (.write a v) ⟨s.mem.writeByte a v, s.live, s.blocks⟩
  | writeVaddress {s : Kernel} (b : Obj) (hb : b ∈ s.live) (a : Nat) (v : BitVec 8) (ha : b.Has a)
      (i : Nat) (hi : i < KMALLOC_SLAB_SIZE) (t : Slab) (ht : t ∈ (s.mem.cache i).ring)
      (h1 : t.addr + SLAB_VADDRESS ≤ a) (h2 : a < t.addr + SLAB_VADDRESS + 8) :
      MemoryStep s (.write a v)
        ⟨s.mem.writeVaddress i t (a - (t.addr + SLAB_VADDRESS)) v, s.live, s.blocks⟩
  | clobber {s s' : Kernel} (b : Obj) (hb : b ∈ s.live) (a : Nat) (v : BitVec 8) (ha : b.Has a)
      (hh : s.mem.Header a)
      (hv : ∀ i < KMALLOC_SLAB_SIZE, ∀ t ∈ (s.mem.cache i).ring,
        ¬ (t.addr + SLAB_VADDRESS ≤ a ∧ a < t.addr + SLAB_VADDRESS + 8)) :
      MemoryStep s (.write a v) s'
  | writePage {s : Kernel} (b : Nat × Nat) (hb : b ∈ s.blocks) (a : Nat) (v : BitVec 8)
      (ha : Mem b.1 b.2 (page4KIndex (virtToPhy a))) :
      MemoryStep s (.write a v) ⟨s.mem.writeByte a v, s.live, s.blocks⟩

/-- The states reached from what `InitMemory` builds by events that all meet `ok`. -/
inductive MemoryReachable (img : KernelImage) (ok : Kernel → MemoryEvent → Prop) : Kernel → Prop
  | boot {mem : KMem} (h : initMemory img = some mem) : MemoryReachable img ok ⟨mem, [], []⟩
  | step {s s' : Kernel} {e : MemoryEvent} (h : MemoryReachable img ok s) (hok : ok s e)
      (hs : MemoryStep s e s') : MemoryReachable img ok s'

/-- No `kmalloc` hands out an object that reaches into a header. -/
def HasLastRoom (s : Kernel) : MemoryEvent → Prop
  | .kmalloc size => LastRoom s.mem size
  | _ => True

/-! ## Headers -/

section

variable {m₀ : MMS} {pool : Nat → Slab} {s s' : KMem} {out : Nat → Nat}
  {near astray : List Obj} {i j : Nat} {t u : Slab}

/-- The header of an astray slab is one of the objects. -/
theorem Parted.header_obj (h5 : 5 ≤ i) (hi : i < KMALLOC_SLAB_SIZE)
    (ht : t ∈ (s.cache i).ring.tail) : (⟨t.addr, SLAB_STRUCT_SIZE⟩ : Obj) ∈ s.headerObjs := by
  refine List.mem_map_of_mem (mem_headersOf.mpr ⟨i, h5, hi, t.shape, ?_, rfl⟩)
  rw [KMem.shapes, ← List.map_tail]
  exact List.mem_map_of_mem ht

/-- A header that is no object lies with the bitmap behind it. -/
theorem Parted.meta_of_header (hp : PoolLayout m₀ pool) (h : Parted m₀ pool s out near astray)
    (hi : i < KMALLOC_SLAB_SIZE) (ht : t ∈ (s.trim.cache i).ring) {a : Nat} (h1 : t.addr ≤ a)
    (h2 : a < t.addr + SLAB_STRUCT_SIZE) : t.shape.Meta a := by
  have hc : t.colorMap = t.addr + SLAB_STRUCT_SIZE :=
    (h.heap.rings.colorMap hp hi (shape_mem ht)).2
  refine ⟨h1, ?_⟩
  show a < t.colorMap + t.colorLength * 8
  omega

/-- **No two headers meet.** -/
theorem Parted.headers_apart (hp : PoolLayout m₀ pool) (h : Parted m₀ pool s out near astray) :
    ¬ s.HeadersMeet := by
  rintro ⟨i, hi, j, hj, t, ht, u, hu, hne, a, ⟨h1, h2⟩, h3, h4⟩
  have hobj : ∀ {k : Nat} {v : Slab}, 5 ≤ k → k < KMALLOC_SLAB_SIZE → v ∈ (s.cache k).ring.tail →
      (⟨v.addr, SLAB_STRUCT_SIZE⟩ : Obj) ∈ near ++ s.headerObjs :=
    fun hk5 hk hv => List.mem_append_right _ (Parted.header_obj hk5 hk hv)
  rcases h.mem_cases hi ht with ht' | ⟨h5, ht'⟩ <;> rcases h.mem_cases hj hu with hu' | ⟨h5', hu'⟩
  · obtain ⟨-, he⟩ := h.heap.rings.eq_of_meta hp hi hj (shape_mem ht') (shape_mem hu')
      (h.meta_of_header hp hi ht' h1 h2) (h.meta_of_header hp hj hu' h3 h4)
    exact hne (congrArg Slab.addr he : t.shape.addr = u.shape.addr)
  · exact h.heap.not_meta hp (hobj h5' hj hu') (a := a) ⟨h3, h4⟩ hi (shape_mem ht')
      (h.meta_of_header hp hi ht' h1 h2)
  · exact h.heap.not_meta hp (hobj h5 hi ht') (a := a) ⟨h1, h2⟩ hj (shape_mem hu')
      (h.meta_of_header hp hj hu' h3 h4)
  · exact hne (h.heap.ptr_eq hp (hobj h5 hi ht') (hobj h5' hj hu') (a := a) ⟨h1, h2⟩ ⟨h3, h4⟩)

/-- The bytes of an astray object lie in the page of its slab. -/
theorem Parted.astray_data (h : Parted m₀ pool s out near astray) {b : Obj} (hb : b ∈ astray)
    {a : Nat} (ha : b.Has a) : ∃ i, 5 ≤ i ∧ i < KMALLOC_SLAB_SIZE ∧
      ∃ t ∈ (s.cache i).ring.tail, t.Data a := by
  obtain ⟨i, h5, hi, t, ht, l, hl, hptr, hsz⟩ := h.inside b hb
  refine ⟨i, h5, hi, t, ht, ?_⟩
  have h1 := ((h.grown i h5 hi t ht).objects h5).1
  have h2 : (l + 1) * kmallocSize i ≤ t.colorCount * kmallocSize i := Nat.mul_le_mul_right _ hl
  rw [Nat.add_mul] at h2
  unfold Obj.Has at ha
  exact ⟨by omega, by omega⟩

/-- **No object meets a header.** -/
theorem Parted.not_header (hp : PoolLayout m₀ pool) (h : Parted m₀ pool s out near astray)
    {b : Obj} (hb : b ∈ near ++ astray) {a : Nat} (ha : b.Has a) : ¬ s.Header a := by
  rintro ⟨i, hi, t, ht, h1, h2⟩
  rcases List.mem_append.mp hb with hb | hb
  · rcases h.mem_cases hi ht with ht' | ⟨h5, ht'⟩
    · exact h.heap.not_meta hp (List.mem_append_left _ hb) ha hi (shape_mem ht')
        (h.meta_of_header hp hi ht' h1 h2)
    · -- the two objects would be one
      have hobj := Parted.header_obj h5 hi ht'
      have he := h.heap.ptr_eq hp (List.mem_append_left _ hb) (List.mem_append_right _ hobj) ha
        (a := a) ⟨h1, h2⟩
      have hnd := h.heap.nodup
      rw [List.map_append, List.nodup_append] at hnd
      exact hnd.2.2 _ (List.mem_map_of_mem hb) _ (List.mem_map_of_mem hobj) he
  · obtain ⟨k, hk5, hk, u, hu, hdata⟩ := h.astray_data hb ha
    have hx := (h.grown k hk5 hk u hu).frame_mem hdata
    refine (h.heap.toHeapCore.held (h.held hk5 hk hu hx)).2.1 ?_
    rcases h.mem_cases hi ht with ht' | ⟨h5, ht'⟩
    · exact h.heap.toHeapCore.frame_of_meta hp hi (shape_mem ht') (h.meta_of_header hp hi ht' h1 h2)
    · exact h.heap.frame_of_object hp (List.mem_append_right _ (Parted.header_obj h5 hi ht'))
        (a := a) ⟨h1, h2⟩

/-- The frame of an astray object is none of the heap's. -/
theorem Parted.astray_frame (h : Parted m₀ pool s out near astray) {b : Obj} (hb : b ∈ astray) {a : Nat}
    (ha : b.Has a) : ¬ HeapFrame m₀ s.trim (page4KIndex (virtToPhy a)) := by
  obtain ⟨i, h5, hi, t, ht, hdata⟩ := h.astray_data hb ha
  exact (h.heap.toHeapCore.held (h.held h5 hi ht ((h.grown i h5 hi t ht).frame_mem hdata))).2.1

/-- **An object of a `CachePool` slab** is near. -/
theorem Parted.near_of_pool (hp : PoolLayout m₀ pool) (h : Parted m₀ pool s out near astray)
    (hi : i < KMALLOC_SLAB_SIZE) {b : Obj} (hb : b ∈ near ++ astray) {a : Nat} (ha : b.Has a)
    (hpool : (pool i).shape.Data a) : b ∈ near := by
  rcases List.mem_append.mp hb with hb | hb
  · exact hb
  · obtain ⟨grown, hst, -⟩ := h.heap.rings.start i hi
    exact absurd (h.heap.toHeapCore.frame_of_data hp hi (by rw [hst]; simp) hpool) (h.astray_frame hb ha)

/-- **No bitmap lies on a near object**, astray ones included. -/
theorem Parted.near_not_mapWord (hp : PoolLayout m₀ pool) (h : Parted m₀ pool s out near astray) {b : Obj}
    (hb : b ∈ near) {a : Nat} (ha : b.Has (8 * a)) : ¬ s.MapWord a := by
  have hb' : b ∈ near ++ s.headerObjs := List.mem_append_left _ hb
  rintro ⟨i, hi, t, ht, hm⟩
  obtain ⟨u, hu, rfl⟩ := List.mem_map.mp ht
  rcases h.mem_cases hi hu with hu' | ⟨h5, hu'⟩
  · exact h.heap.not_mapWord hp hb' ha ⟨i, hi, _, shape_mem hu', hm⟩
  · have hx := (h.grown i h5 hi u hu').frame_mem ((h.grown i h5 hi u hu').data_of_mapWord hm)
    exact (h.heap.toHeapCore.held (h.held h5 hi hu' hx)).2.1 (h.heap.frame_of_object hp hb' ha)

end

/-! ## The invariant of a run -/

/-- The heap is `Parted`, whichever of the objects are near and whichever astray. -/
structure Kernel.Sound (m₀ : MMS) (pool : Nat → Slab) (s : Kernel) : Prop where
  heap : ∃ near astray, s.live.Perm (near ++ astray) ∧
    Parted m₀ pool s.mem (blocksOut s.blocks) near astray
  blocks : ∀ b ∈ s.blocks, BlockOk m₀ b

section

variable {m₀ : MMS} {pool : Nat → Slab} {s s' : KMem} {out : Nat → Nat} {near astray : List Obj}

/-- Memory off the bitmaps that are not astray may change in any way. -/
theorem Parted.setWord (h : Parted m₀ pool s out near astray) {w : Memory}
    (hw : ∀ a, s.trim.MapWord a → w a = s.word a) :
    Parted m₀ pool { s with word := w } out near astray :=
  h.of_tails (fun _ _ _ => rfl) h.totalUse (h.heap.setWord hw)

/-- A client writes into its object. -/
theorem Parted.writeByte (hp : PoolLayout m₀ pool) (h : Parted m₀ pool s out near astray) {b : Obj}
    (hb : b ∈ near ++ astray) {a : Nat} (ha : b.Has a) (v : BitVec 8) :
    Parted m₀ pool (s.writeByte a v) out near astray := by
  refine h.setWord (fun c hc => Function.update_of_ne (fun he => ?_) ..)
  rcases List.mem_append.mp hb with hb | hb
  · obtain ⟨i, hi, t, ht, hm⟩ := hc
    have hmeta := h.heap.rings.meta_of_mapWord hp hi ht hm he.symm
    exact h.heap.not_meta hp (List.mem_append_left _ hb) ha hi ht hmeta
  · obtain ⟨i, h5, hi, t, ht, h1, h2⟩ := h.astray_data hb ha
    -- the page is aligned, so the word lies in it where the byte does
    have hal : PAGE_2M_SIZE ∣ t.vaddress := (h.grown i h5 hi t ht).page_aligned
    have h8 : 8 ∣ t.vaddress := Dvd.dvd.trans (by decide) hal
    refine h.not_mapWord hp h5 hi ht (a := c) ⟨?_, ?_⟩ hc
    · omega
    · omega

/-- A block of the page allocator's is written. -/
theorem Parted.writePage (hp : PoolLayout m₀ pool) (h : Parted m₀ pool s out near astray)
    {a : Nat} (hx : UserFrame m₀ out (page4KIndex (virtToPhy a))) (v : BitVec 8) :
    Parted m₀ pool (s.writeByte a v) out near astray := by
  have hx' : UserFrame m₀ (fun x => out x + s.largeCover x) (page4KIndex (virtToPhy a)) :=
    ⟨hx.1, Nat.lt_of_lt_of_le hx.2 (Nat.le_add_right _ _)⟩
  have hno := (h.heap.toHeapCore.held hx').2.1
  refine h.setWord (fun c hc => Function.update_of_ne (fun he => hno ?_) ..)
  obtain ⟨i, hi, t, ht, hm⟩ := hc
  exact h.heap.toHeapCore.frame_of_meta hp hi ht (h.heap.rings.meta_of_mapWord hp hi ht hm he.symm)

/-- A block of pages is given back. -/
theorem Parted.pagesGiven (h : Parted m₀ pool s out near astray) {p zi number : Nat}
    (hz : zi < m₀.zonesCount) (ho : getOrder number < MAX_ORDER) (ha : 2 ^ getOrder number ∣ p)
    (hin : ∀ x, Mem p (getOrder number) x → (m₀.zone zi).Has x)
    (hout : ∀ x, ind p (getOrder number) x ≤ out x) :
    ∃ m', freePages s.mms p number = some (m', true) ∧
      Parted m₀ pool { s with mms := m' } (fun x => out x - ind p (getOrder number) x) near astray := by
  obtain ⟨m', he, hinv⟩ := h.heap.pagesGiven hz ho ha hin
    (fun x => (hout x).trans (Nat.le_add_right _ _))
  refine ⟨m', he, h.of_tails (fun _ _ _ => rfl) h.totalUse ?_⟩
  have heq : (fun x => out x - ind p (getOrder number) x + s.largeCover x)
      = fun x => out x + s.largeCover x - ind p (getOrder number) x := by
    funext x
    have := hout x
    omega
  rw [heq]
  exact hinv

/-- A heap in which no class above 0x200 bytes has grown. -/
theorem HeapInv.parted {objs : List Obj} (h : HeapInv m₀ pool s out objs) (htrim : s.trim = s)
    (htails : ∀ i, 5 ≤ i → i < KMALLOC_SLAB_SIZE → (s.cache i).ring.tail = []) :
    Parted m₀ pool s out objs [] := by
  have hshapes : ∀ i, 5 ≤ i → i < KMALLOC_SLAB_SIZE → (s.shapes i).tail = [] := by
    intro i h5 hi
    rw [KMem.shapes, ← List.map_tail, htails i h5 hi, List.map_nil]
  have hheaders : s.headerObjs = [] := by
    rw [KMem.headerObjs, KMem.headers, headersOf, List.map_eq_nil_iff, List.flatMap_eq_nil_iff]
    intro i hi
    by_cases h5 : i < 5
    · rw [if_pos h5]
    · rw [if_neg h5, hshapes i (by omega) (List.mem_range.mp hi), List.map_nil]
  have hcover : (fun x => out x + s.largeCover x) = out := by
    funext x
    have hzero : s.largeCover x = 0 := by
      unfold KMem.largeCover grownCover
      refine Finset.sum_eq_zero (fun i hi => ?_)
      unfold KMem.largeShapes
      by_cases h5 : i < 5
      · rw [if_pos h5]
        rfl
      · rw [if_neg h5, hshapes i (by omega) (Finset.mem_range.mp hi)]
        rfl
    omega
  refine ⟨?_, fun i h5 hi t ht => ?_, fun i h5 hi t ht => ?_, fun i h5 hi => h.totalUse i hi,
    fun b hb => absurd hb (by simp)⟩
  · rw [hheaders, hcover, List.append_nil, htrim]
    exact h
  · rw [htails i h5 hi] at ht
    exact absurd ht (by simp)
  · rw [htails i h5 hi] at ht
    exact absurd ht (by simp)

end

section

variable {m₀ : MMS} {pool : Nat → Slab} {s s' : Kernel} {e : MemoryEvent}

/-- The invariant leaves no header to meet another one. -/
theorem Kernel.Sound.kmalloc_apart (hp : PoolLayout m₀ pool) (h : s.Sound m₀ pool) {size : Nat}
    {mem' : KMem} {r : Option Nat} (hroom : LastRoom s.mem size)
    (he : kmalloc s.mem size = some (mem', r)) : ¬ mem'.HeadersMeet := by
  obtain ⟨near, astray, -, hheap⟩ := h.heap
  rcases hheap.kmalloc_spec hp hroom he with ⟨-, h'⟩ | ⟨p, -, h' | h'⟩
  · exact h'.headers_apart hp
  · exact h'.headers_apart hp
  · exact h'.headers_apart hp

/-- **One step** in which no `kmalloc` hands out an object that reaches into a header. -/
theorem Kernel.Sound.step (hd : DirectMap m₀ pool) (h : s.Sound m₀ pool) (hok : HasLastRoom s e)
    (hs : MemoryStep s e s') : s'.Sound m₀ pool := by
  have hp := hd.toPoolLayout
  obtain ⟨near, astray, hperm, hheap⟩ := h.heap
  have hmem : ∀ b ∈ s.live, b ∈ near ++ astray := fun b hb => hperm.mem_iff.mp hb
  cases hs with
  | @kmalloc mem' p size he hh =>
      refine ⟨?_, h.blocks⟩
      rcases hheap.kmalloc_spec hp hok he with ⟨hn, -⟩ | ⟨q, hq, h'⟩
      · exact absurd hn (by simp)
      · obtain rfl := Option.some.inj hq
        rcases h' with h' | h'
        · exact ⟨⟨p, size⟩ :: near, astray, hperm.cons _, h'⟩
        · exact ⟨near, ⟨p, size⟩ :: astray, (hperm.cons _).trans List.perm_middle.symm, h'⟩
  | kmallocNull size he hh =>
      refine ⟨?_, h.blocks⟩
      rcases hheap.kmalloc_spec hp hok he with ⟨-, h'⟩ | ⟨q, hq, -⟩
      · exact ⟨near, astray, hperm, h'⟩
      · exact absurd hq (by simp)
  | kmallocClobber size he hh => exact absurd hh (h.kmalloc_apart hp hok he)
  | @kfree mem' ok b hb he =>
      refine ⟨?_, h.blocks⟩
      by_cases hn : b ∈ near
      · obtain ⟨mem₁, he', h', -⟩ := hheap.kfree_near hp hn (kfreeWith (fun _ _ => none))
        have he₁ : kfreeWith (kfreeWith (fun _ _ => none)) s.mem b.ptr = some (mem', ok) := he
        rw [he₁] at he'
        obtain ⟨rfl, -⟩ := Prod.mk.inj (Option.some.inj he')
        refine ⟨near.erase b, astray, ?_, h'⟩
        rw [← List.erase_append_left _ hn]
        exact hperm.erase b
      · have ha : b ∈ astray := (List.mem_append.mp (hmem b hb)).resolve_left hn
        obtain ⟨mem₁, he', h', -⟩ := hheap.kfree_astray hp ha
        rw [he] at he'
        obtain ⟨rfl, -⟩ := Prod.mk.inj (Option.some.inj he')
        refine ⟨near, astray.erase b, ?_, h'⟩
        rw [← List.erase_append_right _ hn]
        exact hperm.erase b
  | @allocPages mms p selector number attr he =>
      obtain ⟨zi, hz, ho, hh⟩ := allocPages_some hheap.heap.inv he
      have hblock := hh.blockOk hheap.heap.layout hz ho
      refine ⟨⟨near, astray, hperm, ?_⟩, List.forall_mem_cons.mpr ⟨hblock, h.blocks⟩⟩
      dsimp only
      rw [blocksOut_cons]
      exact hheap.pagesTaken hh
  | freePages p number hb he =>
      obtain ⟨ho, ha, zi, hz, hin⟩ := h.blocks _ hb
      obtain ⟨m', he', h'⟩ := hheap.pagesGiven hz ho ha hin (fun x => ind_le_blocksOut hb x)
      have hx := he.symm.trans he'
      obtain ⟨rfl, -⟩ := Prod.mk.inj (Option.some.inj hx)
      refine ⟨⟨near, astray, hperm, ?_⟩, fun b hb' => h.blocks b (List.mem_of_mem_erase hb')⟩
      dsimp only
      rw [blocksOut_erase hb]
      exact h'
  | write b hb a v ha hh =>
      exact ⟨⟨near, astray, hperm, hheap.writeByte hp (hmem b hb) ha v⟩, h.blocks⟩
  | writeVaddress b hb a v ha i hi t ht h1 h2 =>
      refine absurd ⟨i, hi, t, ht, ?_, ?_⟩ (hheap.not_header hp (hmem b hb) ha)
      · omega
      · exact Nat.lt_of_lt_of_le h2 (Nat.add_le_add_left (by decide : 24 + 8 ≤ SLAB_STRUCT_SIZE) t.addr)
  | clobber b hb a v ha hh hv => exact absurd hh (hheap.not_header hp (hmem b hb) ha)
  | writePage b hb a v ha =>
      obtain ⟨zi, hz, hin⟩ := (h.blocks b hb).zone
      refine ⟨⟨near, astray, hperm, hheap.writePage hp ⟨⟨zi, hz, hin _ ha⟩, ?_⟩ v⟩, h.blocks⟩
      calc 0 < ind b.1 b.2 (page4KIndex (virtToPhy a)) := by rw [ind_eq_one ha]; exact Nat.one_pos
        _ ≤ blocksOut s.blocks _ := ind_le_blocksOut hb _

end

/-- **Every state of a run** in which no `kmalloc` hands out an object that reaches into a header
satisfies the invariant. -/
theorem MemoryReachable.sound {img : KernelImage} {s : Kernel}
    (h : MemoryReachable img HasLastRoom s) :
    s.Sound (reservedMMS img.map (kernelReservations img.endStruct)) (cachePool img.endStruct) := by
  induction h with
  | @boot mem h =>
      obtain ⟨mem', he, hinv⟩ := initMemory_spec img
      obtain rfl := Option.some.inj (h.symm.trans he)
      have hcache : mem.cache = initCache img.endStruct := by
        unfold initMemory at h
        obtain ⟨m, -, rfl⟩ := Option.map_eq_some_iff.mp h
        rfl
      have htrim : mem.trim = mem := by
        have heq : mem.trim.cache = mem.cache := by
          funext i
          unfold KMem.trim
          dsimp only
          rw [hcache, SlabCache.trim]
          split
          · rfl
          · rfl
        exact congrArg (KMem.mk mem.mms mem.word) heq
      refine ⟨⟨[], [], List.Perm.nil, ?_⟩, by simp⟩
      exact hinv.parted htrim (fun i _ _ => by rw [hcache]; rfl)
  | step _ hok hs ih => exact ih.step (directMap_init img) hok hs

/-! ## Whole words -/

theorem getLsbD_setByte (w : BitVec 64) {i j : Nat} (v : BitVec 8) (hj : j < 64) :
    (setByte w i v).getLsbD j = if 8 * i ≤ j ∧ j < 8 * i + 8 then v.getLsbD (j - 8 * i)
      else w.getLsbD j := by
  unfold setByte
  rw [BitVec.getLsbD_or, BitVec.getLsbD_and, BitVec.getLsbD_not, BitVec.getLsbD_shiftLeft,
    BitVec.getLsbD_shiftLeft, BitVec.getLsbD_setWidth]
  have hff : ∀ k, (0xff#64).getLsbD k = decide (k < 8) := by
    intro k
    rw [show (0xff#64) = BitVec.ofNat 64 (2 ^ 8 - 1) from rfl, BitVec.getLsbD_ofNat,
      Nat.testBit_two_pow_sub_one]
    by_cases h : k < 8
    · simp [h, show k < 64 by omega]
    · simp [h]
  rw [hff]
  by_cases h1 : 8 * i ≤ j
  · by_cases h2 : j < 8 * i + 8
    · simp [hj, h1, h2, show ¬ j < 8 * i by omega, show j - 8 * i < 8 by omega,
        show j - 8 * i < 64 by omega]
    · rw [BitVec.getLsbD_of_ge v (j - 8 * i) (by omega)]
      simp [hj, h2, show ¬ j - 8 * i < 8 by omega]
  · simp [hj, h1, show j < 8 * i by omega]

/-- The first `n` bytes of `v` over those of `w`. -/
def setBytes (w v : BitVec 64) : Nat → BitVec 64
  | 0 => w
  | n + 1 => setByte (setBytes w v n) n (v.extractLsb' (8 * n) 8)

theorem setBytes_eight (w v : BitVec 64) : setBytes w v 8 = v := by
  have key : ∀ n ≤ 8, ∀ j < 64,
      (setBytes w v n).getLsbD j = if j < 8 * n then v.getLsbD j else w.getLsbD j := by
    intro n
    induction n with
    | zero => exact fun _ j _ => rfl
    | succ n ih =>
        intro hn j hj
        rw [setBytes, getLsbD_setByte _ _ hj, ih (by omega) j hj, BitVec.getLsbD_extractLsb']
        by_cases h1 : j < 8 * n
        · simp [h1, show ¬ 8 * n ≤ j by omega, show j < 8 * (n + 1) by omega]
        · by_cases h2 : j < 8 * n + 8
          · simp [h2, show 8 * n ≤ j by omega, show j < 8 * (n + 1) by omega,
              show j - 8 * n < 8 by omega]
          · simp [h1, h2, show ¬ j < 8 * (n + 1) by omega]
  refine BitVec.eq_of_getLsbD_eq (fun j hj => ?_)
  rw [key 8 le_rfl j hj, if_pos (by omega)]

section

variable {img : KernelImage} {k : Kernel}

/-- The first `n` words of the page at `t` hold `f`. -/
def KMem.setPage (s : KMem) (t n : Nat) (f : Nat → BitVec 64) : KMem :=
  { s with word := fun a => if t ≤ a ∧ a < t + n then f (a - t) else s.word a }

/-- A `kmalloc` that hands out nothing that reaches into a header. -/
theorem MemoryReachable.kmalloc (hk : MemoryReachable img HasLastRoom k) {size p : Nat} {mem' : KMem}
    (hroom : LastRoom k.mem size) (he : Talios.kmalloc k.mem size = some (mem', some p)) :
    MemoryReachable img HasLastRoom ⟨mem', ⟨p, size⟩ :: k.live, k.blocks⟩ :=
  hk.step (e := .kmalloc size) hroom
    (MemoryStep.kmalloc size he (hk.sound.kmalloc_apart (poolLayout_init img) hroom he))

/-- A client writes a byte of its object. -/
theorem MemoryReachable.writeByte (hk : MemoryReachable img HasLastRoom k) {b : Obj}
    (hb : b ∈ k.live) {a : Nat} (ha : b.Has a) (v : BitVec 8) :
    MemoryReachable img HasLastRoom ⟨k.mem.writeByte a v, k.live, k.blocks⟩ := by
  obtain ⟨near, astray, hperm, hheap⟩ := hk.sound.heap
  have hhead := hheap.not_header (poolLayout_init img) (hperm.mem_iff.mp hb) ha
  exact hk.step (e := .write a v) trivial (MemoryStep.write b hb a v ha hhead)

/-- A client writes a word of its object, byte by byte. -/
theorem MemoryReachable.setWord (hk : MemoryReachable img HasLastRoom k) {b : Obj}
    (hb : b ∈ k.live) (a : Nat) (ha : ∀ j < 8, b.Has (8 * a + j)) (v : BitVec 64) :
    MemoryReachable img HasLastRoom
      ⟨{ k.mem with word := Function.update k.mem.word a v }, k.live, k.blocks⟩ := by
  have key : ∀ n ≤ 8, MemoryReachable img HasLastRoom
      ⟨{ k.mem with word := Function.update k.mem.word a (setBytes (k.mem.word a) v n) }, k.live,
        k.blocks⟩ := by
    intro n
    induction n with
    | zero =>
        intro _
        rw [setBytes, Function.update_eq_self]
        exact hk
    | succ n ih =>
        intro hn
        have hnext := (ih (by omega)).writeByte hb (ha n (by omega)) (v.extractLsb' (8 * n) 8)
        have hdiv : (8 * a + n) / 8 = a := by omega
        have hmod : (8 * a + n) % 8 = n := by omega
        unfold KMem.writeByte at hnext
        dsimp only at hnext
        rw [hdiv, hmod, Function.update_self, Function.update_idem] at hnext
        exact hnext
  have h8 := key 8 le_rfl
  rw [setBytes_eight] at h8
  exact h8

/-- **A client fills its page.** -/
theorem MemoryReachable.setPage (hk : MemoryReachable img HasLastRoom k) {t : Nat}
    (hb : (⟨8 * t, PAGE_4K_SIZE⟩ : Obj) ∈ k.live) (f : Nat → BitVec 64) :
    ∀ n ≤ 512, MemoryReachable img HasLastRoom ⟨k.mem.setPage t n f, k.live, k.blocks⟩ := by
  intro n
  induction n with
  | zero =>
      intro _
      have hsame : k.mem.setPage t 0 f = k.mem := by
        refine congrArg (fun w => { k.mem with word := w }) (funext fun a => ?_)
        exact if_neg (by omega)
      rw [hsame]
      exact hk
  | succ n ih =>
      intro hn
      have hnext := (ih (by omega)).setWord hb (t + n)
        (fun j hj => by unfold Obj.Has PAGE_4K_SIZE PAGE_4K_SHIFT; dsimp only; omega) (f n)
      have hword : Function.update (k.mem.setPage t n f).word (t + n) (f n)
          = (k.mem.setPage t (n + 1) f).word := by
        funext a
        by_cases ha : a = t + n
        · rw [ha, Function.update_self]
          show f n = if t ≤ t + n ∧ t + n < t + (n + 1) then f (t + n - t) else _
          rw [if_pos (by omega), Nat.add_sub_cancel_left]
        · rw [Function.update_of_ne ha]
          exact if_congr (by omega) rfl rfl
      rw [hword] at hnext
      exact hnext

end

end Talios
