import Talios.Memory.SlabAccount

set_option autoImplicit false

/-! # What one call of the kernel heap does

`HeapCore` is the part of the heap invariant that does not speak of objects: pages, rings,
bitmaps and counters. `HeapInv` adds the list of the objects handed out. `kmalloc_spec` and
`kfree_spec` say what a call does to it, for any other users of the page allocator (`out`). What a
call does to counters, bitmaps and objects is that of `Ledger`; here the pages are added, and that an
object ends before the header of its slab.
-/

namespace Talios

open Word Bitmap Dyadic

/-! ## The invariant -/

/-- Pages, rings, bitmaps and counters; `out` counts the blocks other users of the page
allocator hold. -/
structure HeapCore (m₀ : MMS) (pool : Nat → Slab) (s : KMem) (out : Nat → Nat) : Prop where
  layout : SameLayout m₀ s.mms
  inv : s.mms.Inv (fun x => out x + grownCover s.shapes x)
  size : ∀ i < KMALLOC_SLAB_SIZE, (s.cache i).size = kmallocSize i
  rings : Rings m₀ pool s.shapes
  slabs : ∀ i < KMALLOC_SLAB_SIZE, ∀ t ∈ (s.cache i).ring, SlabOk s.word (kmallocSize i) t
  totalFree : ∀ i < KMALLOC_SLAB_SIZE,
    (s.cache i).totalFree = ((s.cache i).ring.map Slab.freeCount).sum
  totalUse : ∀ i < KMALLOC_SLAB_SIZE,
    (s.cache i).totalUse = ((s.cache i).ring.map Slab.usingCount).sum

section

variable {m₀ : MMS} {pool : Nat → Slab} {s : KMem} {out : Nat → Nat} {i : Nat} {t t' : Slab}

theorem Rings.apart {ring : Nat → List Slab} (hp : PoolLayout m₀ pool) (h : Rings m₀ pool ring) :
    RingsApart ring := by
  refine ⟨h.pages, h.nodup, fun i hi j hj t ht u hu a ha ha' =>
    h.eq_of_mapWord hp hi hj ht hu ha ha', fun i hi => ?_⟩
  have hmeta : ∀ v ∈ ring i, v.Meta v.addr := by
    intro v hv
    have hmap := (h.colorMap hp hi hv).2
    unfold SLAB_STRUCT_SIZE at hmap
    refine ⟨le_rfl, ?_⟩
    show v.addr < v.colorMap + v.colorLength * 8
    omega
  have hnodup : (ring i).Nodup := (h.nodup i hi).of_map _
  refine hnodup.map_on (fun t ht u hu he => ?_)
  exact (h.eq_of_meta hp hi hi ht hu (hmeta t ht) (he ▸ hmeta u hu)).2

/-- The books of the heap. -/
theorem HeapCore.counts (hp : PoolLayout m₀ pool) (h : HeapCore m₀ pool s out) : Counts s :=
  ⟨h.size, h.rings.apart hp, h.slabs, h.totalFree, h.totalUse⟩

end

/-! ## Objects -/

/-- An object handed out: its address, and the size asked for. -/
structure Obj where
  ptr : Nat
  size : Nat
deriving DecidableEq

/-- The invariant of the heap: the bits set are the objects handed out, and an object of a slab
that a class has grown by ends before the header. -/
structure HeapInv (m₀ : MMS) (pool : Nat → Slab) (s : KMem) (out : Nat → Nat) (objs : List Obj) :
    Prop extends HeapCore m₀ pool s out where
  nodup : (objs.map Obj.ptr).Nodup
  ptrs : ∀ p, p ∈ objs.map Obj.ptr ↔ ∃ i < KMALLOC_SLAB_SIZE, ∃ t ∈ s.shapes i, ∃ j,
    t.Taken s.word j ∧ p = t.vaddress + j * kmallocSize i
  room : ∀ b ∈ objs, ∀ i < KMALLOC_SLAB_SIZE, ∀ t ∈ s.shapes i, ∀ j, t.Taken s.word j →
    b.ptr = t.vaddress + j * kmallocSize i → b.size ≤ kmallocSize i ∧
      (t ∈ (s.shapes i).tail → j * kmallocSize i + b.size ≤ PAGE_2M_SIZE - structSize (kmallocSize i))

section

variable {m₀ : MMS} {pool : Nat → Slab} {s : KMem} {out : Nat → Nat} {objs : List Obj}
  {i : Nat} {t : Slab}

/-- The objects handed out are in the books. -/
theorem HeapInv.ledger (hp : PoolLayout m₀ pool) (h : HeapInv m₀ pool s out objs) :
    Ledger s (objs.map Obj.ptr) := ⟨h.toHeapCore.counts hp, h.nodup, h.ptrs⟩

/-- No class above 0x200 bytes has grown. -/
theorem HeapInv.tail_eq_nil (h : HeapInv m₀ pool s out objs) (h5 : 5 ≤ i)
    (hi : i < KMALLOC_SLAB_SIZE) : (s.shapes i).tail = [] := by
  refine List.eq_nil_iff_forall_not_mem.mpr (fun t ht => ?_)
  have := (h.rings.grown_of_tail hi ht).small
  omega

/-- The invariant as an account without headers that are objects. -/
theorem HeapInv.account (hp : PoolLayout m₀ pool) (h : HeapInv m₀ pool s out objs) :
    Account m₀ pool s out (objs.map Obj.ptr) := by
  have hheaders : s.headers = [] := by
    refine List.eq_nil_iff_forall_not_mem.mpr (fun p hp => ?_)
    obtain ⟨j, h5, hj, t, ht, -⟩ := mem_headersOf.mp hp
    rw [h.tail_eq_nil h5 hj] at ht
    exact absurd ht (by simp)
  refine ⟨h.layout, h.inv, fun j hj => ?_, ?_, fun p hp => ?_⟩
  · obtain ⟨grown, hr, hg⟩ := h.rings.start j hj
    refine ⟨grown, hr, fun t ht => ⟨(hg t ht).held, fun _ => (hg t ht).shape, fun h5 => ?_⟩⟩
    exact absurd (hg t ht).small (by omega)
  · rw [hheaders, List.append_nil]
    exact h.ledger hp
  · rw [show headersOf s.shapes = [] from hheaders] at hp
    exact absurd hp (by simp)

/-- And back, where no class above 0x200 bytes has grown. -/
theorem Account.heapInv (h : Account m₀ pool s out (objs.map Obj.ptr))
    (htails : ∀ j, 5 ≤ j → j < KMALLOC_SLAB_SIZE → (s.shapes j).tail = [])
    (hroom : ∀ b ∈ objs, ∀ i < KMALLOC_SLAB_SIZE, ∀ t ∈ s.shapes i, ∀ j, t.Taken s.word j →
      b.ptr = t.vaddress + j * kmallocSize i → b.size ≤ kmallocSize i ∧
        (t ∈ (s.shapes i).tail →
          j * kmallocSize i + b.size ≤ PAGE_2M_SIZE - structSize (kmallocSize i))) :
    HeapInv m₀ pool s out objs := by
  have hheaders : s.headers = [] := by
    refine List.eq_nil_iff_forall_not_mem.mpr (fun p hp => ?_)
    obtain ⟨j, h5, hj, t, ht, -⟩ := mem_headersOf.mp hp
    rw [htails j h5 hj] at ht
    exact absurd ht (by simp)
  have hledger := h.ledger
  rw [hheaders, List.append_nil] at hledger
  have hrings : Rings m₀ pool s.shapes := by
    refine ⟨fun j hj => ?_, hledger.apart.pages, hledger.apart.nodup⟩
    obtain ⟨grown, hr, hg⟩ := h.start j hj
    refine ⟨grown, hr, fun t ht => (hg t ht).grown ?_⟩
    by_contra h5
    have htail := htails j (by omega) hj
    rw [hr, List.tail_cons] at htail
    rw [htail] at ht
    exact absurd ht (by simp)
  exact ⟨⟨h.layout, h.inv, hledger.size, hrings, hledger.slabs, hledger.totalFree, hledger.totalUse⟩,
    hledger.ptrsNodup, hledger.ptrs, hroom⟩

/-- **`AllocSlab`** hands out the least free object of the first slab that has one. -/
theorem HeapInv.allocSlab (hp : PoolLayout m₀ pool) (h : HeapInv m₀ pool s out objs)
    (hi : i < KMALLOC_SLAB_SIZE) (hfree : ∃ t ∈ (s.cache i).ring, t.freeCount ≠ 0) {size : Nat}
    (hsize : size ≤ kmallocSize i)
    (hroom : ∀ pre t post j, (s.cache i).ring = pre ++ t :: post → (∀ u ∈ pre, u.freeCount = 0) →
      t.freeCount ≠ 0 → j < t.colorCount → bit s.word (t.colorMap / 8) j = false →
      (∀ k < j, bit s.word (t.colorMap / 8) k = true) → t.shape ∈ (s.shapes i).tail →
      j * kmallocSize i + size ≤ PAGE_2M_SIZE - structSize (kmallocSize i)) :
    ∃ s' p, allocSlab s i = (s', some p) ∧ HeapInv m₀ pool s' out (⟨p, size⟩ :: objs) ∧
      s'.shapes = s.shapes ∧ ∀ a, ¬ s.MapWord a → s'.word a = s.word a := by
  obtain ⟨s', pre, t, post, j, htake, hacc⟩ := (h.account hp).allocSlab hi hfree
  have hnew : t.vaddress + j * kmallocSize i ∉ objs.map Obj.ptr := by
    have hnd := hacc.ledger.ptrsNodup
    rw [List.cons_append, List.nodup_cons] at hnd
    exact fun hmem => hnd.1 (List.mem_append_left _ hmem)
  refine ⟨s', _, htake.alloc, ?_, htake.shapes, htake.frame⟩
  have hacc' : Account m₀ pool s' out
    (((⟨t.vaddress + j * kmallocSize i, size⟩ : Obj) :: objs).map Obj.ptr) := hacc
  apply hacc'.heapInv
  · intro k h5 hk
    rw [htake.shapes]
    exact h.tail_eq_nil h5 hk
  · rw [htake.shapes]
    intro b hbm i' hi' u hu k hk hpe
    rcases (htake.taken i' hi' u hu k).mp hk with hk' | ⟨rfl, rfl, rfl⟩
    · rcases List.mem_cons.mp hbm with rfl | hbm
      · -- the new object is no old one
        exact absurd (((h.ledger hp).ptrs _).mpr ⟨i', hi', u, hu, k, hk', hpe⟩) hnew
      · exact h.room b hbm i' hi' u hu k hk' hpe
    · rcases List.mem_cons.mp hbm with rfl | hbm
      · exact ⟨hsize, hroom pre t post k htake.ring htake.before htake.free htake.lt htake.clear
          htake.least⟩
      · have hmem : b.ptr ∈ objs.map Obj.ptr := List.mem_map_of_mem hbm
        rw [hpe] at hmem
        exact absurd hmem hnew

/-- **Growing a class up to 0x200 bytes** hands out no object. -/
theorem HeapInv.grow (hp : PoolLayout m₀ pool) (h : HeapInv m₀ pool s out objs) (hi : i < 5)
    {m' : MMS} {zi p : Nat} (hz : zi < s.mms.zonesCount)
    (hh : Handed s.mms m' (fun x => out x + grownCover s.shapes x) zi p 9) :
    HeapInv m₀ pool (growSmall { s with mms := m' } i p) out objs ∧
      JoinsClass { s with mms := m' } (growSmall { s with mms := m' } i p) i (newSlab i p) := by
  obtain ⟨hframe, hphy, hzone⟩ := handed_page h.layout h.inv hz hh
  have hn := grownSlab_small hi hh.aligned hzone (fun x hx => (hframe x hx).1)
  obtain ⟨hacc, hjoin, -⟩ := ((h.account hp).pagesTaken hh).growSmall hp hi hn hphy
  refine ⟨hacc.heapInv (fun j h5 hj => ?_) (fun b hb j hj u hu k hk hpe => ?_), hjoin⟩
  · rw [hjoin.shapes, Function.update_of_ne (by omega)]
    exact h.tail_eq_nil h5 hj
  · -- the object is an old one, and its slab is where it was
    rcases hjoin.mem_shapes.mp hu with ⟨rfl, rfl⟩ | hu'
    · exact absurd hk (hjoin.not_taken k)
    · have htaken : u.Taken s.word k := by
        refine ((h.ledger hp).taken_iff hj hu' hk.1).mpr ?_
        rw [← hpe]
        exact List.mem_map_of_mem hb
      obtain ⟨h1, h2⟩ := h.room b hb j hj u hu' k htaken hpe
      refine ⟨h1, fun htail => h2 ?_⟩
      rcases hjoin.mem_tail ((h.account hp).ring_ne_nil (five_lt hi)) htail with ⟨rfl, rfl⟩ | htail
      · exact absurd hk (hjoin.not_taken k)
      · exact htail

end

/-! ## The calls -/

/-- What `kmalloc(size)` needs to stay clear of the heap's own data. A class above 0x200 bytes
has a free object, or no page can be had for it. And where the only free object of the first
slab that has one is its last, and the slab is not `CachePool`, the `size` bytes end before the
header behind that object. -/
def HeapRoom (s : KMem) (size : Nat) : Prop :=
  ∀ i, findClass s size KMALLOC_SLAB_SIZE 0 = some i →
    ((s.cache i).totalFree = 0 → 0x200 < size →
      ∀ mms page, allocPage s.mms ZONE_NORMAL_INDEX 1 0 ≠ some (mms, some page)) ∧
    ∀ t ∈ (s.cache i).ring.tail,
      (s.cache i).ring.find? (fun u => decide (u.freeCount ≠ 0)) = some t → t.freeCount = 1 →
      bit s.word (t.colorMap / 8) (t.colorCount - 1) = false →
      t.vaddress + (t.colorCount - 1) * (s.cache i).size + size ≤ t.addr

section

variable {m₀ : MMS} {pool : Nat → Slab} {s : KMem} {out : Nat → Nat} {objs : List Obj} {i : Nat}

/-- What `HeapRoom` says about the object that `AllocSlab` takes. -/
theorem HeapInv.room_of_heapRoom (h : HeapInv m₀ pool s out objs) (hi : i < KMALLOC_SLAB_SIZE)
    {size : Nat} (hsize : size ≤ kmallocSize i)
    (hc : findClass s size KMALLOC_SLAB_SIZE 0 = some i) (hroom : HeapRoom s size)
    {pre post : List Slab} {t : Slab} {j : Nat} (hr : (s.cache i).ring = pre ++ t :: post)
    (hpre : ∀ u ∈ pre, u.freeCount = 0) (htf : t.freeCount ≠ 0) (hj : j < t.colorCount)
    (hb : bit s.word (t.colorMap / 8) j = false)
    (hlt : ∀ k < j, bit s.word (t.colorMap / 8) k = true) (htail : t.shape ∈ (s.shapes i).tail) :
    j * kmallocSize i + size ≤ PAGE_2M_SIZE - structSize (kmallocSize i) := by
  have htm : t ∈ (s.cache i).ring := by rw [hr]; simp
  have hfacts := (h.rings.grown_of_tail hi htail).facts
  rcases Nat.lt_or_ge (j + 1) t.colorCount with hlast | hlast
  · have h1 := hfacts.fit j hlast
    rw [Nat.add_mul] at h1
    omega
  · -- the last object
    have htail' : t ∈ (s.cache i).ring.tail := by
      rw [KMem.shapes, ← List.map_tail] at htail
      obtain ⟨r, hrm, hre⟩ := List.mem_map.mp htail
      have hnd := h.rings.nodup i hi
      rw [KMem.shapes, List.map_map] at hnd
      have hv : r.shape.vaddress = t.shape.vaddress := congrArg Slab.vaddress hre
      rwa [List.inj_on_of_nodup_map hnd (List.mem_of_mem_tail hrm) htm hv] at hrm
    have hfind : (s.cache i).ring.find? (fun u => decide (u.freeCount ≠ 0)) = some t := by
      rw [List.find?_eq_some_iff_append]
      refine ⟨by simpa using htf, pre, post, hr, fun u hu => ?_⟩
      simpa using hpre u hu
    have hone := freeCount_eq_one (h.slabs i hi t htm) (by omega) hb hlt
    have hend := (hroom i hc).2 t htail' hfind hone (by
      rw [show t.colorCount - 1 = j by omega]; exact hb)
    rw [h.size i hi, show t.colorCount - 1 = j by omega] at hend
    have haddr : t.addr + structSize (kmallocSize i) = t.vaddress + PAGE_2M_SIZE := hfacts.addr
    omega

end

end Talios
