import Talios.Memory.SlabInit

set_option autoImplicit false

/-! # Runs of the kernel heap

A run starts in the state `InitMemory` builds. Its events are calls of `kmalloc`, calls of
`kfree` on an object handed out, and writes of single bytes by the owners of objects, each inside
the bytes asked for. A write into a `struct Slab` leaves the heap in any state.

`heap_safe` is about the runs in which every `kmalloc` has room (`HeapRoom`): there the objects
handed out meet neither one another nor the heap's own data. `heap_overlap` is a run in which an
object lies on a bitmap.
-/

namespace Talios

open Word Bitmap Dyadic

/-! ## Runs -/

/-- The heap and the objects handed out and not freed since. -/
structure HeapState where
  mem : KMem
  live : List Obj

/-- The address belongs to the bytes asked for. -/
def Obj.Has (b : Obj) (a : Nat) : Prop := b.ptr ≤ a ∧ a < b.ptr + b.size

/-- The address belongs to a `struct Slab` on a ring. -/
def KMem.Header (s : KMem) (a : Nat) : Prop :=
  ∃ i < KMALLOC_SLAB_SIZE, ∃ t ∈ (s.cache i).ring, t.addr ≤ a ∧ a < t.addr + SLAB_STRUCT_SIZE

/-- The address belongs to the bitmap of a slab on a ring. -/
def KMem.ColorMap (s : KMem) (a : Nat) : Prop :=
  ∃ i < KMALLOC_SLAB_SIZE, ∃ t ∈ (s.cache i).ring,
    t.colorMap ≤ a ∧ a < t.colorMap + t.colorLength * 8

/-- The word with its byte `i` replaced. -/
def setByte (w : BitVec 64) (i : Nat) (v : BitVec 8) : BitVec 64 :=
  (w &&& ~~~(0xff#64 <<< (8 * i))) ||| (v.setWidth 64 <<< (8 * i))

/-- The byte at address `a` is written. -/
def KMem.writeByte (s : KMem) (a : Nat) (v : BitVec 8) : KMem :=
  { s with word := Function.update s.word (a / 8) (setByte (s.word (a / 8)) (a % 8) v) }

inductive HeapEvent
  | kmalloc (size : Nat)
  | kfree (b : Obj)
  | write (a : Nat) (v : BitVec 8)

/-- One event. -/
inductive HeapStep : HeapState → HeapEvent → HeapState → Prop
  | kmalloc {s : HeapState} {mem' : KMem} {p : Nat} (size : Nat)
      (h : kmalloc s.mem size = some (mem', some p)) :
      HeapStep s (.kmalloc size) ⟨mem', ⟨p, size⟩ :: s.live⟩
  | kmallocNull {s : HeapState} {mem' : KMem} (size : Nat)
      (h : kmalloc s.mem size = some (mem', none)) :
      HeapStep s (.kmalloc size) ⟨mem', s.live⟩
  | kfree {s : HeapState} {mem' : KMem} {ok : Bool} (b : Obj) (hb : b ∈ s.live)
      (h : kfree s.mem b.ptr = some (mem', ok)) :
      HeapStep s (.kfree b) ⟨mem', s.live.erase b⟩
  | write {s : HeapState} (b : Obj) (hb : b ∈ s.live) (a : Nat) (v : BitVec 8) (ha : b.Has a)
      (hh : ¬ s.mem.Header a) : HeapStep s (.write a v) ⟨s.mem.writeByte a v, s.live⟩
  | clobber {s : HeapState} {mem' : KMem} (b : Obj) (hb : b ∈ s.live) (a : Nat) (v : BitVec 8)
      (ha : b.Has a) (hh : s.mem.Header a) : HeapStep s (.write a v) ⟨mem', s.live⟩

/-- The states reached from what `InitMemory` builds by events that all meet `ok`. -/
inductive HeapReachable (img : KernelImage) (ok : HeapState → HeapEvent → Prop) :
    HeapState → Prop
  | boot {mem : KMem} (h : initMemory img = some mem) : HeapReachable img ok ⟨mem, []⟩
  | step {s s' : HeapState} {e : HeapEvent} (h : HeapReachable img ok s) (hok : ok s e)
      (hs : HeapStep s e s') : HeapReachable img ok s'

/-- Every `kmalloc` has room. -/
def HasRoom (s : HeapState) : HeapEvent → Prop
  | .kmalloc size => HeapRoom s.mem size
  | _ => True

/-- The objects handed out lie in pages of their classes, and meet neither one another nor the
heap's own data. -/
structure HeapState.Safe (s : HeapState) : Prop where
  inside : ∀ b ∈ s.live, ∃ i < KMALLOC_SLAB_SIZE, ∃ t ∈ (s.mem.cache i).ring,
    b.size ≤ (s.mem.cache i).size ∧ ∀ a, b.Has a → t.Data a
  disjoint : s.live.Pairwise (fun b c => ∀ a, ¬ (b.Has a ∧ c.Has a))
  headers : ∀ b ∈ s.live, ∀ a, b.Has a → ¬ s.mem.Header a
  colorMaps : ∀ b ∈ s.live, ∀ a, b.Has a → ¬ s.mem.ColorMap a

/-! ## The heap invariant implies safety -/

section

variable {m₀ : MMS} {pool : Nat → Slab} {s : KMem} {out : Nat → Nat} {objs : List Obj}

/-- An object handed out, as an object of a slab. -/
theorem HeapInv.locate (h : HeapInv m₀ pool s out objs) {b : Obj} (hb : b ∈ objs) :
    ∃ i < KMALLOC_SLAB_SIZE, ∃ t ∈ s.shapes i, ∃ j, t.Taken s.word j ∧
      b.ptr = t.vaddress + j * kmallocSize i ∧ b.size ≤ kmallocSize i ∧
      (t ∈ (s.shapes i).tail →
        j * kmallocSize i + b.size ≤ PAGE_2M_SIZE - structSize (kmallocSize i)) := by
  obtain ⟨i, hi, t, ht, j, hj, hpe⟩ := (h.ptrs b.ptr).mp (List.mem_map_of_mem hb)
  exact ⟨i, hi, t, ht, j, hj, hpe, h.room b hb i hi t ht j hj hpe⟩

/-- The bytes of an object handed out are bytes of the object of the slab. -/
theorem Obj.has_object {b : Obj} {v j i a : Nat} (hp : b.ptr = v + j * kmallocSize i)
    (hs : b.size ≤ kmallocSize i) (ha : b.Has a) :
    v + j * kmallocSize i ≤ a ∧ a < v + (j + 1) * kmallocSize i := by
  unfold Obj.Has at ha
  rw [Nat.add_mul]
  omega

/-- The objects handed out do not meet the headers and bitmaps. -/
theorem HeapInv.not_meta (hp : PoolLayout m₀ pool) (h : HeapInv m₀ pool s out objs) {b : Obj}
    (hb : b ∈ objs) {a : Nat} (ha : b.Has a) {i : Nat} (hi : i < KMALLOC_SLAB_SIZE) {u : Slab}
    (hu : u ∈ s.shapes i) : ¬ u.Meta a := by
  intro hm
  obtain ⟨k, hk, t, ht, j, hj, hpe, hs, hroom⟩ := h.locate hb
  have hin := Obj.has_object hpe hs ha
  obtain ⟨rfl, rfl, htail⟩ := h.rings.eq_of_data_meta hp hk hi ht hu
    ((h.toHeapCore.counts hp).object_data hk ht hj.1 hin.1 hin.2) hm
  -- the slab is one the class has grown by, and the object ends before its header
  have hend := hroom htail
  have hfacts := (h.rings.grown_of_tail hk htail).facts
  have h1 := hfacts.addr
  have h2 := hfacts.room
  unfold Obj.Has at ha
  unfold Slab.Meta at hm
  omega

/-- Two objects handed out that meet are the same. -/
theorem HeapInv.ptr_eq (hp : PoolLayout m₀ pool) (h : HeapInv m₀ pool s out objs) {b c : Obj}
    (hb : b ∈ objs) (hc : c ∈ objs) {a : Nat} (h1 : b.Has a) (h2 : c.Has a) : b.ptr = c.ptr := by
  obtain ⟨i, hi, t, ht, j, hj, hpe, hs, -⟩ := h.locate hb
  obtain ⟨k, hk, u, hu, l, hl, hpe', hs', -⟩ := h.locate hc
  obtain ⟨rfl, rfl, rfl⟩ := (h.toHeapCore.counts hp).object_unique hi hk ht hu hj.1 hl.1
    (Obj.has_object hpe hs h1) (Obj.has_object hpe' hs' h2)
  rw [hpe, hpe']

theorem HeapInv.disjoint (hp : PoolLayout m₀ pool) (h : HeapInv m₀ pool s out objs) :
    objs.Pairwise (fun b c => ∀ a, ¬ (b.Has a ∧ c.Has a)) := by
  have hne : objs.Pairwise (fun b c => b.ptr ≠ c.ptr) := List.pairwise_map.mp h.nodup
  exact hne.imp_of_mem (fun {b c} hb hc hbc a ⟨h1, h2⟩ => hbc (h.ptr_eq hp hb hc h1 h2))

/-- A change of the memory outside the bitmaps keeps the invariant. -/
theorem HeapInv.setWord (h : HeapInv m₀ pool s out objs) {w : Memory}
    (hw : ∀ a, s.MapWord a → w a = s.word a) : HeapInv m₀ pool { s with word := w } out objs := by
  have hw' : ∀ i < KMALLOC_SLAB_SIZE, ∀ t ∈ s.shapes i, ∀ c, t.MapWord c → w c = s.word c :=
    fun i hi t ht c hc => hw c ⟨i, hi, t, ht, hc⟩
  have htaken : ∀ i < KMALLOC_SLAB_SIZE, ∀ t ∈ s.shapes i, ∀ j,
      t.Taken w j ↔ t.Taken s.word j := by
    intro i hi t ht j
    obtain ⟨r, hr, rfl⟩ := List.mem_map.mp ht
    exact Slab.taken_congr (t := r.shape) (h.slabs i hi r hr).bits (hw' i hi _ ht) j
  refine ⟨⟨h.layout, h.inv, h.size, h.rings, fun i hi t ht => ?_, h.totalFree, h.totalUse⟩,
    h.nodup, fun p => ?_, fun c hc i hi t ht j hj hpe => ?_⟩
  · exact (h.slabs i hi t ht).frame (hw' i hi t.shape (shape_mem ht))
  · rw [h.ptrs p]
    constructor
    · rintro ⟨i, hi, t, ht, j, hj, rfl⟩
      exact ⟨i, hi, t, ht, j, (htaken i hi t ht j).mpr hj, rfl⟩
    · rintro ⟨i, hi, t, ht, j, hj, rfl⟩
      exact ⟨i, hi, t, ht, j, (htaken i hi t ht j).mp hj, rfl⟩
  · exact h.room c hc i hi t ht j ((htaken i hi t ht j).mp hj) hpe

theorem HeapInv.safe (hp : PoolLayout m₀ pool) (h : HeapInv m₀ pool s out objs) :
    HeapState.Safe ⟨s, objs⟩ := by
  refine ⟨fun b hb => ?_, h.disjoint hp, fun b hb a ha hh => ?_, fun b hb a ha hh => ?_⟩
  · obtain ⟨i, hi, t, ht, j, hj, hpe, hs, -⟩ := h.locate hb
    obtain ⟨r, hr, rfl⟩ := List.mem_map.mp ht
    refine ⟨i, hi, r, hr, by rw [h.size i hi]; exact hs, fun a ha => ?_⟩
    have hin := Obj.has_object hpe hs ha
    exact (h.toHeapCore.counts hp).object_data hi ht hj.1 hin.1 hin.2
  · obtain ⟨i, hi, t, ht, h1, h2⟩ := hh
    refine h.not_meta hp hb ha hi (shape_mem ht) ⟨h1, ?_⟩
    have hc : t.colorMap = t.addr + SLAB_STRUCT_SIZE :=
      (h.rings.colorMap hp hi (shape_mem ht)).2
    show a < t.colorMap + t.colorLength * 8
    omega
  · obtain ⟨i, hi, t, ht, h1, h2⟩ := hh
    refine h.not_meta hp hb ha hi (shape_mem ht) ⟨?_, h2⟩
    have hc : t.colorMap = t.addr + SLAB_STRUCT_SIZE :=
      (h.rings.colorMap hp hi (shape_mem ht)).2
    show t.addr ≤ a
    omega

/-- A write into an object handed out keeps the invariant. -/
theorem HeapInv.writeByte (hp : PoolLayout m₀ pool) (h : HeapInv m₀ pool s out objs) {b : Obj}
    (hb : b ∈ objs) {a : Nat} (ha : b.Has a) (v : BitVec 8) :
    HeapInv m₀ pool (s.writeByte a v) out objs := by
  refine h.setWord (fun c hc => Function.update_of_ne (fun he => ?_) ..)
  obtain ⟨i, hi, t, ht, hm⟩ := hc
  exact h.not_meta hp hb ha hi ht (h.rings.meta_of_mapWord hp hi ht hm he.symm)

end

/-! ## Runs in which every `kmalloc` has room -/

/-- The invariant of a run. -/
def HeapState.Inv (img : KernelImage) (s : HeapState) : Prop :=
  HeapInv (reservedMMS img.map (kernelReservations img.endStruct)) (cachePool img.endStruct)
    s.mem (fun _ => 0) s.live

theorem HeapState.Inv.step {img : KernelImage} {s s' : HeapState} {e : HeapEvent}
    (h : s.Inv img) (hok : HasRoom s e) (hs : HeapStep s e s') : s'.Inv img := by
  have hp := poolLayout_init img
  cases hs with
  | kmalloc size he =>
      exact kmalloc_some hp h hok he
  | kmallocNull size he =>
      obtain rfl := kmalloc_none hp h hok he
      exact h
  | kfree b hb he =>
      obtain ⟨mem₁, he', hinv, -⟩ := kfree_spec hp h hb
      rw [he] at he'
      obtain ⟨rfl, -⟩ := Prod.mk.inj (Option.some.inj he')
      exact hinv
  | write b hb a v ha hh => exact HeapInv.writeByte hp h hb ha v
  | clobber b hb a v ha hh => exact absurd hh ((HeapInv.safe hp h).headers b hb a ha)

theorem HeapReachable.inv {img : KernelImage} {s : HeapState}
    (h : HeapReachable img HasRoom s) : s.Inv img := by
  induction h with
  | boot h =>
      obtain ⟨mem, he, hinv⟩ := initMemory_spec img
      obtain rfl := Option.some.inj (h.symm.trans he)
      exact hinv
  | step _ hok hs ih => exact ih.step hok hs

/-- **The heap is safe while every `kmalloc` has room.** The objects handed out meet neither one
another nor the heap's own data, a `kmalloc` with room returns, and so does `kfree`. -/
theorem heap_safe {img : KernelImage} {s : HeapState} (h : HeapReachable img HasRoom s) :
    s.Safe ∧
    (∀ size, HeapRoom s.mem size → ∃ s', HeapStep s (.kmalloc size) s') ∧
    (∀ b ∈ s.live, ∃ mem', kfree s.mem b.ptr = some (mem', true)) := by
  have hp := poolLayout_init img
  refine ⟨HeapInv.safe hp h.inv, fun size hroom => ?_, fun b hb => ?_⟩
  · rcases kmalloc_spec hp h.inv hroom with he | ⟨mem', p, he, -⟩
    · exact ⟨_, HeapStep.kmallocNull size he⟩
    · exact ⟨_, HeapStep.kmalloc size he⟩
  · obtain ⟨mem', he, -⟩ := kfree_spec hp h.inv hb
    exact ⟨mem', he⟩

/-! ## A class above 0x200 bytes that grows -/

theorem kmalloc_eq_allocSlab {s : KMem} {size i : Nat} (hle : size ≤ 0x100000)
    (hc : findClass s size KMALLOC_SLAB_SIZE 0 = some i) (hf : (s.cache i).totalFree ≠ 0)
    (nested : KMem → Nat → Option (KMem × Option Nat)) :
    kmallocWith nested s size = some (allocSlab s i) := by
  unfold kmallocWith
  rw [if_neg (Nat.not_lt.mpr hle), hc]
  dsimp only
  rw [if_neg hf]

/-- `AllocSlab` changes its class only, and there the counters by one. -/
theorem allocSlab_cases (s : KMem) (i : Nat) {s' : KMem} {p : Nat}
    (h : allocSlab s i = (s', some p)) : s'.mms = s.mms ∧
      (s'.cache i).totalFree = (s.cache i).totalFree - 1 ∧ ∀ j ≠ i, s'.cache j = s.cache j := by
  unfold allocSlab at h
  dsimp only at h
  split at h
  · obtain ⟨rfl, -⟩ := Prod.mk.inj h
    exact ⟨rfl, by rw [setCache_cache_self], fun j hj => setCache_cache_ne _ hj _⟩
  · exact absurd (Prod.mk.inj h).2 (by simp)

/-- Class `i` after it has grown once: the objects of `CachePool` are used up, the next slab has
`n` free objects, and its bitmap lies on its first object `v`. -/
structure OnMap (s : KMem) (i v n : Nat) : Prop where
  size : ∀ j < KMALLOC_SLAB_SIZE, (s.cache j).size = kmallocSize j
  totalFree : (s.cache i).totalFree = n
  ring : ∃ cp slab, (s.cache i).ring = [cp, slab] ∧ cp.freeCount = 0 ∧ slab.freeCount = n ∧
    0 < slab.colorCount ∧ 0 < slab.colorLength ∧ slab.colorMap = v ∧ slab.vaddress = v

theorem OnMap.congr {s s' : KMem} {i v n : Nat} (h : OnMap s i v n) (hc : s'.cache = s.cache) :
    OnMap s' i v n := by
  obtain ⟨h1, h2, h3⟩ := h
  exact ⟨by rw [hc]; exact h1, by rw [hc]; exact h2, by rw [hc]; exact h3⟩

theorem OnMap.colorMap {s : KMem} {i v n : Nat} (h : OnMap s i v n)
    (hi : i < KMALLOC_SLAB_SIZE) : s.ColorMap v := by
  obtain ⟨cp, slab, hr, -, -, -, hl, hm, -⟩ := h.ring
  refine ⟨i, hi, slab, by rw [hr]; simp, hm.le, ?_⟩
  show v < slab.colorMap + slab.colorLength * 8
  omega

/-- While the first word of the bitmap is zero, `AllocSlab` hands out the object on the bitmap. -/
theorem OnMap.allocSlab {s : KMem} {i v n : Nat} (h : OnMap s i v (n + 1))
    (hi : i < KMALLOC_SLAB_SIZE) (hz : s.word (v / 8) = 0) :
    ∃ s', Talios.allocSlab s i = (s', some v) ∧ OnMap s' i v n ∧ s'.mms = s.mms ∧
      ∀ a ≠ v / 8, s'.word a = s.word a := by
  obtain ⟨cp, slab, hr, hcp, hf, hc, hl, hm, hv⟩ := h.ring
  have hfind : findColor s.word slab = some 0 := by
    obtain ⟨k, hk⟩ : ∃ k, slab.colorCount = k + 1 := ⟨slab.colorCount - 1, by omega⟩
    have hz' : s.word (slab.colorMap / 8 + 0 / 64) = 0 := by rw [hm]; exact hz
    unfold findColor
    rw [hk, scan, if_pos (by omega), hz', if_neg (by decide), if_pos (by
      unfold bit; rw [hz']; simp)]
  have halloc : allocRing s.word (s.cache i).size [cp, slab]
      = some ([cp, slab.take], setBit s.word (v / 8) 0, v) := by
    rw [allocRing, if_pos hcp]
    dsimp only
    rw [allocRing, if_neg (by omega), hfind]
    simp only [Option.map_some, Nat.zero_mul, Nat.add_zero, hm, hv]
  unfold Talios.allocSlab
  dsimp only
  rw [hr, halloc]
  refine ⟨_, rfl, ⟨fun j hj => ?_, ?_, cp, slab.take, ?_, hcp, ?_, hc, hl, hm, hv⟩, rfl,
    fun a ha => Function.update_of_ne (by simpa using ha) ..⟩
  · by_cases hji : j = i
    · rw [hji, setCache_cache_self]
      exact h.size i hi
    · rw [setCache_cache_ne _ hji]
      exact h.size j hj
  · rw [setCache_cache_self]
    show (s.cache i).totalFree - 1 = n
    rw [h.totalFree]
    omega
  · rw [setCache_cache_self]
  · show slab.freeCount - 1 = n
    omega

/-- A class above 0x200 bytes grows. -/
theorem growLarge_onMap {s : KMem} {i page addr : Nat} (hi : i < KMALLOC_SLAB_SIZE)
    (hsize : ∀ j < KMALLOC_SLAB_SIZE, (s.cache j).size = kmallocSize j)
    (hf : (s.cache i).totalFree = 0) {cp : Slab} (hr : (s.cache i).ring = [cp])
    (hcp : cp.freeCount = 0) {v : Nat} (hv : v = phyToVirt (s.mms.page page).phyAddr) :
    OnMap (growLarge s i page addr) i v (PAGE_2M_SIZE / kmallocSize i) ∧
      (growLarge s i page addr).word
        = fill s.word (v / 8) (bitsMapLength (PAGE_2M_SIZE / kmallocSize i)) 0 := by
  have hcount := kmallocSize_count hi
  have hlen : 0 < bitsMapLength (PAGE_2M_SIZE / kmallocSize i) := by
    unfold bitsMapLength
    omega
  unfold growLarge
  dsimp only
  rw [hsize i hi, ← hv]
  refine ⟨⟨fun j hj => ?_, ?_, cp, largeSlab (kmallocSize i) page v addr, ?_, hcp, rfl, hcount, hlen,
    rfl, rfl⟩, rfl⟩
  · unfold KMem.addSlab
    by_cases hji : j = i
    · rw [hji, setCache_cache_self]
      exact hsize i hi
    · rw [setCache_cache_ne _ hji]
      exact hsize j hj
  · rw [KMem.addSlab, setCache_cache_self]
    show (s.cache i).totalFree + PAGE_2M_SIZE / kmallocSize i = _
    rw [hf, Nat.zero_add]
  · rw [KMem.addSlab, setCache_cache_self]
    show insertSlab _ (s.cache i).ring = _
    rw [hr]
    rfl

theorem findClass_eq {s : KMem} (hs : ∀ i < KMALLOC_SLAB_SIZE, (s.cache i).size = kmallocSize i)
    {size i : Nat} (hi : i < KMALLOC_SLAB_SIZE) (h1 : size ≤ kmallocSize i)
    (h2 : ∀ j < i, kmallocSize j < size) : findClass s size KMALLOC_SLAB_SIZE 0 = some i := by
  obtain ⟨j, hj, he, h3, h4⟩ := findClass_spec hs (size_le_max hi h1)
  rcases Nat.lt_trichotomy i j with hlt | rfl | hlt
  · exact absurd (h4 i hlt) (Nat.not_lt.mpr h1)
  · exact he
  · exact absurd (h2 j hlt) (Nat.not_lt.mpr h3)

/-- **A class that has not grown** and has a free object hands it out. -/
theorem HeapInv.kmalloc_pool {m₀ : MMS} {pool : Nat → Slab} {s : KMem} {out : Nat → Nat}
    {objs : List Obj} (hp : PoolLayout m₀ pool) (h : HeapInv m₀ pool s out objs) {i size : Nat}
    (hi : i < KMALLOC_SLAB_SIZE) (htail : (s.shapes i).tail = [])
    (hf : (s.cache i).totalFree ≠ 0) (h1 : size ≤ kmallocSize i)
    (h2 : ∀ j < i, kmallocSize j < size)
    (nested : KMem → Nat → Option (KMem × Option Nat)) :
    ∃ s' p, kmallocWith nested s size = some (s', some p) ∧
      HeapInv m₀ pool s' out (⟨p, size⟩ :: objs) ∧ s'.mms = s.mms ∧ s'.shapes = s.shapes ∧
      (s'.cache i).totalFree = (s.cache i).totalFree - 1 ∧ (∀ j ≠ i, s'.cache j = s.cache j) ∧
      ∀ a, ¬ s.MapWord a → s'.word a = s.word a := by
  obtain ⟨s', p, he, hinv, hsh, hfr⟩ := h.allocSlab hp hi ((h.toHeapCore.counts hp).exists_free hi hf) h1
    (fun pre t post j _ _ _ _ _ _ ht => by rw [htail] at ht; exact absurd ht (by simp))
  obtain ⟨hm, hfree, hne⟩ := allocSlab_cases s i he
  refine ⟨s', p, ?_, hinv, hm, hsh, hfree, hne, hfr⟩
  rw [← he]
  exact kmalloc_eq_allocSlab (size_le_max hi h1) (findClass_eq h.size hi h1 h2) hf nested

/-- **A class above 0x200 bytes that has not grown** and has no free object hands out the first
object of the new slab, which lies on the bitmap of that slab. -/
theorem HeapInv.kmalloc_onMap {m₀ : MMS} {pool : Nat → Slab} {s : KMem} {out : Nat → Nat}
    {objs : List Obj} (hp : PoolLayout m₀ pool) (h : HeapInv m₀ pool s out objs) {i size : Nat}
    (hi : i < KMALLOC_SLAB_SIZE) (h5 : 5 ≤ i) (htail : (s.shapes i).tail = [])
    (htail₂ : (s.shapes 2).tail = []) (hf : (s.cache i).totalFree = 0)
    (hf₂ : (s.cache 2).totalFree ≠ 0) (h1 : size ≤ kmallocSize i)
    (h2 : ∀ j < i, kmallocSize j < size) {m' : MMS} {page zi : Nat} (hz : zi < s.mms.zonesCount)
    (ha : allocPage s.mms ZONE_NORMAL_INDEX 1 0 = some (m', some page))
    (hh : Handed s.mms m' (fun x => out x + grownCover s.shapes x) zi page 9) {v : Nat}
    (hv : v = phyToVirt (page * PAGE_4K_SIZE)) :
    ∃ s', kmalloc s size = some (s', some v) ∧
      OnMap s' i v (PAGE_2M_SIZE / kmallocSize i - 1) := by
  have hinv₁ := h.pagesTaken hh
  -- the header of the new slab comes from class 2
  obtain ⟨s₂, addr, hnested, hinv₂, hm₂, -, -, hne, -⟩ := hinv₁.kmalloc_pool hp (by decide)
    htail₂ hf₂ (show SLAB_STRUCT_SIZE ≤ kmallocSize 2 by decide) (by decide) (fun _ _ => none)
  have hcache : s₂.cache i = s.cache i := hne i (by omega)
  obtain ⟨cp, hr, hcp⟩ : ∃ cp, (s.cache i).ring = [cp] ∧ cp.freeCount = 0 := by
    have hsum := h.totalFree i hi
    obtain ⟨grown, hst, -⟩ := h.rings.start i hi
    rw [KMem.shapes] at htail hst
    rw [hf] at hsum
    cases hc : (s.cache i).ring with
    | nil => rw [hc] at hst; exact absurd hst (by simp)
    | cons cp rest =>
        rw [hc] at htail hsum
        have hrest : rest = [] := by simpa using htail
        subst hrest
        exact ⟨cp, rfl, by simpa using hsum.symm⟩
  have hphy : (s₂.mms.page page).phyAddr = page * PAGE_4K_SIZE := by
    rw [hm₂]
    have hin := hh.inside page (mem_self page 9)
    exact (hinv₁.inv zi (by rw [← hh.layout.zonesCount] at hz; exact hz)).layout.phyAddr page
      ((hh.layout.has zi page).mpr hin)
  obtain ⟨hmap, hword⟩ := @growLarge_onMap s₂ i page addr hi hinv₂.size (by rw [hcache]; exact hf) cp
    (by rw [hcache]; exact hr) hcp v (by rw [hphy]; exact hv)
  have hcount := kmallocSize_count hi
  have hlen : 0 < bitsMapLength (PAGE_2M_SIZE / kmallocSize i) := by
    unfold bitsMapLength
    omega
  rw [show PAGE_2M_SIZE / kmallocSize i = PAGE_2M_SIZE / kmallocSize i - 1 + 1 by omega] at hmap
  obtain ⟨s', he', hmap', -, -⟩ := hmap.allocSlab hi (by rw [hword, fill, if_pos (by omega)])
  refine ⟨s', ?_, hmap'⟩
  unfold kmalloc
  rw [kmallocWith, if_neg (Nat.not_lt.mpr ?_), findClass_eq h.size hi h1 h2]
  · dsimp only
    rw [if_pos hf, ha]
    dsimp only
    rw [h.size i hi, if_neg (mem_largeSizes h5 hi).1, if_pos (mem_largeSizes h5 hi).2, hnested]
    dsimp only
    rw [he']
  · exact size_le_max hi h1

/-- A machine with 128 MiB: a DMA zone below 640 KiB, a normal zone from 1 MiB on. -/
def exampleMap : MemoryMap where
  ranges := [(0, 0x9f000), (0x100000, 0x8000000)]
  pagesCount := 0x8000
  zoneUnmapedIndex := 0
  aligned := by decide
  nonempty := by decide
  disjoint := by decide
  small := by decide
  below := by decide
  pagesCount_lt := by decide

/-- The kernel's data end at 2 MiB. -/
def exampleImage : KernelImage where
  map := exampleMap
  endStruct := PAGE_OFFSET + 0x200000
  word := fun _ => 0
  lower := Nat.le_add_right _ _
  upper := by norm_num
  direct := by decide

/-- What the example needs to know of a state of its run: only `CachePool` slabs, and the pages
as they were at the start. -/
structure ExampleInv (s : HeapState) : Prop where
  inv : s.Inv exampleImage
  tails : ∀ i < KMALLOC_SLAB_SIZE, (s.mem.shapes i).tail = []

/-- A block from 80 MiB on that no one holds can be had: that memory is not the kernel's. -/
theorem example_pages {m : MMS} {cov : Nat → Nat}
    (hl : SameLayout (reservedMMS exampleImage.map (kernelReservations exampleImage.endStruct)) m)
    (hinv : m.Inv cov) {number b : Nat} (pageAttr : Nat)
    (ho : getOrder number < MAX_ORDER) (hal : 2 ^ getOrder number ∣ b) (hlo : 20480 ≤ b)
    (hhi : b + 2 ^ getOrder number ≤ 32768)
    (hcov : ∀ x, Mem b (getOrder number) x → cov x = 0) :
    ∃ m' q zi, zi < m.zonesCount ∧
      allocPages m ZONE_NORMAL_INDEX number pageAttr = some (m', some q) ∧
      Handed m m' cov zi q (getOrder number) := by
  have hz := sameZones_reservedMMS exampleImage.map (kernelReservations exampleImage.endStruct)
  have hfree : ∀ x, Mem b (getOrder number) x → (m.zone 1).Has x ∧
      (m.page x).reserved = false ∧ cov x = 0 := by
    intro x hx
    have hx0 := hcov x hx
    unfold Mem at hx
    refine ⟨(hl.has 1 x).mpr ((hz.has 1 x).mpr ?_), ?_, hx0⟩
    · have hp : ((initZones exampleImage.map).zone 1).pagesGroup = 256 := by decide
      have hc : ((initZones exampleImage.map).zone 1).pagesCount = 32512 := by decide
      unfold Zone.Has
      rw [hp, hc]
      omega
    · rw [(hl.pages x).2.2]
      rw [page_reservedMMS, reserved_initZones]
      intro r hr
      have hstop := stop_kernelReservations exampleImage hr
      have he : virtToPhy exampleImage.endStruct = 0x200000 := Nat.add_sub_cancel_left ..
      rw [he] at hstop
      unfold page4KIndex alignUp64 alignDown PAGE_4K_SIZE PAGE_4K_SHIFT
      rw [add64_eq (by omega)]
      omega
  have hsel : isThisZone m 1 ZONE_NORMAL_INDEX = true := by
    have hn : m.zoneNormalIndex = 1 := hl.indices.2.1.trans hz.normal
    unfold isThisZone
    rw [hn]
    rfl
  have hcount : 1 < m.zonesCount := by
    rw [hl.zonesCount, hz.zonesCount]
    decide
  exact allocPages_of_free hinv pageAttr ho hcount hsel hal hfree

/-- Blocks can be had while there are `CachePool` slabs only. -/
theorem example_allocPages {s : KMem} {out : Nat → Nat} {objs : List Obj}
    (h : HeapInv (reservedMMS exampleImage.map (kernelReservations exampleImage.endStruct))
      (cachePool exampleImage.endStruct) s out objs)
    (htails : ∀ i < KMALLOC_SLAB_SIZE, (s.shapes i).tail = []) {number b : Nat} (pageAttr : Nat)
    (ho : getOrder number < MAX_ORDER) (hal : 2 ^ getOrder number ∣ b) (hlo : 20480 ≤ b)
    (hhi : b + 2 ^ getOrder number ≤ 32768)
    (hout : ∀ x, Mem b (getOrder number) x → out x = 0) :
    ∃ m' q zi, zi < s.mms.zonesCount ∧
      allocPages s.mms ZONE_NORMAL_INDEX number pageAttr = some (m', some q) ∧
      Handed s.mms m' (fun x => out x + grownCover s.shapes x) zi q (getOrder number) := by
  refine example_pages h.layout h.inv pageAttr ho hal hlo hhi (fun x hx => ?_)
  rw [hout x hx, grownCover_of_tails htails]

/-- The start, and an allocation from a class that has a free object. -/
theorem exampleInv_boot : ∃ mem, initMemory exampleImage = some mem ∧ ExampleInv ⟨mem, []⟩ ∧
    ∀ i, (mem.cache i).totalFree = PAGE_2M_SIZE / kmallocSize i := by
  obtain ⟨mem, he, hinv⟩ := initMemory_spec exampleImage
  have hcache : mem.cache = initCache exampleImage.endStruct := by
    unfold initMemory at he
    obtain ⟨m, -, rfl⟩ := Option.map_eq_some_iff.mp he
    rfl
  refine ⟨mem, he, ⟨hinv, fun i _ => ?_⟩, fun i => ?_⟩
  · rw [KMem.shapes, hcache]
    rfl
  · rw [hcache]
    rfl

theorem ExampleInv.kmalloc {s : HeapState} (h : ExampleInv s) {i size : Nat}
    (hi : i < KMALLOC_SLAB_SIZE) (hf : (s.mem.cache i).totalFree ≠ 0)
    (h1 : size ≤ kmallocSize i) (h2 : ∀ j < i, kmallocSize j < size) :
    ∃ mem' p, Talios.kmalloc s.mem size = some (mem', some p) ∧
      ExampleInv ⟨mem', ⟨p, size⟩ :: s.live⟩ ∧
      (mem'.cache i).totalFree = (s.mem.cache i).totalFree - 1 ∧
      (∀ j ≠ i, mem'.cache j = s.mem.cache j) := by
  have hinv : HeapInv _ _ s.mem (fun _ => 0) s.live := h.inv
  obtain ⟨mem', p, he, hinv', -, hsh, hfree, hne, -⟩ := hinv.kmalloc_pool
    (poolLayout_init exampleImage) hi (h.tails i hi) hf h1 h2 _
  exact ⟨mem', p, he, ⟨hinv', by rw [hsh]; exact h.tails⟩, hfree, hne⟩

theorem ExampleInv.alloc {s : HeapState} (h : ExampleInv s) {i size : Nat}
    (hi : i < KMALLOC_SLAB_SIZE) (hf : (s.mem.cache i).totalFree ≠ 0)
    (h1 : size ≤ kmallocSize i) (h2 : ∀ j < i, kmallocSize j < size) :
    ∃ s', HeapStep s (.kmalloc size) s' ∧ ExampleInv s' ∧ s'.live ≠ [] ∧
      (s'.mem.cache i).totalFree = (s.mem.cache i).totalFree - 1 ∧
      (∀ j ≠ i, s'.mem.cache j = s.mem.cache j) := by
  obtain ⟨mem', p, he, hinv', hfree, hne⟩ := h.kmalloc hi hf h1 h2
  exact ⟨⟨mem', ⟨p, size⟩ :: s.live⟩, HeapStep.kmalloc size he, hinv', by simp, hfree, hne⟩

/-- Every `kmalloc` from such a class has room. -/
theorem ExampleInv.heapRoom {s : HeapState} (h : ExampleInv s) {i size : Nat}
    (hi : i < KMALLOC_SLAB_SIZE) (hf : (s.mem.cache i).totalFree ≠ 0)
    (h1 : size ≤ kmallocSize i) (h2 : ∀ j < i, kmallocSize j < size) : HeapRoom s.mem size := by
  intro i' hc
  obtain rfl : i = i' := Option.some.inj ((findClass_eq h.inv.size hi h1 h2).symm.trans hc)
  refine ⟨fun h0 => absurd h0 hf, fun t ht => ?_⟩
  have htail := h.tails i hi
  rw [KMem.shapes, ← List.map_tail, List.map_eq_nil_iff] at htail
  rw [htail] at ht
  exact absurd ht (by simp)

/-- Two objects of two classes are handed out, and the first of them is given back. -/
theorem heap_safe_example : ∃ s s' b c, HeapReachable exampleImage HasRoom s ∧
    s.live = [c, b] ∧ b.size = 24 ∧ c.size = 100 ∧ s.Safe ∧
    HeapStep s (.kfree b) s' ∧ s'.live = [c] ∧ s'.Safe := by
  obtain ⟨mem, he, hinv, hfree⟩ := exampleInv_boot
  have hf : (mem.cache 0).totalFree ≠ 0 := by rw [hfree 0]; decide
  have h0 : 0 < KMALLOC_SLAB_SIZE := by decide
  have h1 : 24 ≤ kmallocSize 0 := by decide
  have h2 : ∀ j < 0, kmallocSize j < 24 := fun j hj => absurd hj (Nat.not_lt_zero j)
  obtain ⟨mem₁, p, he₁, hinv₁, -, hne₁⟩ := hinv.kmalloc h0 hf h1 h2
  have hr₁ : HeapReachable exampleImage HasRoom ⟨mem₁, [⟨p, 24⟩]⟩ :=
    (HeapReachable.boot he).step (show HasRoom _ (.kmalloc 24) from hinv.heapRoom h0 hf h1 h2)
      (HeapStep.kmalloc 24 he₁)
  have h0' : 2 < KMALLOC_SLAB_SIZE := by decide
  have hf' : (mem₁.cache 2).totalFree ≠ 0 := by
    rw [hne₁ 2 (by decide), hfree 2]
    decide
  have h1' : 100 ≤ kmallocSize 2 := by decide
  have h2' : ∀ j < 2, kmallocSize j < 100 := by decide
  obtain ⟨mem₂, q, he₂, hinv₂, -⟩ := hinv₁.kmalloc h0' hf' h1' h2'
  have hr₂ : HeapReachable exampleImage HasRoom ⟨mem₂, [⟨q, 100⟩, ⟨p, 24⟩]⟩ :=
    hr₁.step (show HasRoom _ (.kmalloc 100) from hinv₁.heapRoom h0' hf' h1' h2')
      (HeapStep.kmalloc 100 he₂)
  have hheap : HeapInv _ _ mem₂ (fun _ => 0) [⟨q, 100⟩, ⟨p, 24⟩] := hinv₂.inv
  obtain ⟨mem₃, he₃, -⟩ := kfree_spec (poolLayout_init exampleImage) hheap
    (show (⟨p, 24⟩ : Obj) ∈ _ from List.mem_cons_of_mem _ List.mem_cons_self)
  have hs := HeapStep.kfree (s := ⟨mem₂, [⟨q, 100⟩, ⟨p, 24⟩]⟩) ⟨p, 24⟩
    (List.mem_cons_of_mem _ List.mem_cons_self) he₃
  have hlive : ([⟨q, 100⟩, ⟨p, 24⟩] : List Obj).erase ⟨p, 24⟩ = [⟨q, 100⟩] := by
    rw [List.erase_cons_tail (by simp), List.erase_cons_head]
  exact ⟨_, _, ⟨p, 24⟩, ⟨q, 100⟩, hr₂, rfl, rfl, rfl, (heap_safe hr₂).1, hs, hlive,
    (heap_safe (hr₂.step (show HasRoom _ (.kfree _) from trivial) hs)).1⟩

/-- Three calls of `kmalloc(0x100000)`: the third object lies on the bitmap of its slab. -/
theorem heap_overlap :
    ¬ ∀ (img : KernelImage) (s : HeapState), HeapReachable img (fun _ _ => True) s → s.Safe := by
  intro hall
  obtain ⟨mem, he, hinv, hfree⟩ := exampleInv_boot
  have h15 : 15 < KMALLOC_SLAB_SIZE := by decide
  have hb : HeapReachable exampleImage (fun _ _ => True) ⟨mem, []⟩ := HeapReachable.boot he
  have hf₀ : (mem.cache 15).totalFree = 2 := by rw [hfree 15]; decide
  obtain ⟨s₁, hs₁, hinv₁, -, hf₁, hne₁⟩ := hinv.alloc h15 (show _ ≠ 0 by rw [hf₀]; decide)
    (show 0x100000 ≤ kmallocSize 15 by decide) (by decide)
  obtain ⟨s₂, hs₂, hinv₂, -, hf₂, hne₂⟩ := hinv₁.alloc h15 (show _ ≠ 0 by rw [hf₁, hf₀]; decide)
    (show 0x100000 ≤ kmallocSize 15 by decide) (by decide)
  have hf' : (s₂.mem.cache 2).totalFree ≠ 0 := by
    rw [hne₂ 2 (by decide), hne₁ 2 (by decide), hfree 2]
    decide
  have hheap : HeapInv _ _ s₂.mem (fun _ => 0) s₂.live := hinv₂.inv
  obtain ⟨m', page, zi, hz, ha, hh⟩ := @example_allocPages _ _ _ hheap hinv₂.tails (1 * 2 ^ 9) 20480 0
    (by rw [getOrder_block]; decide) (by rw [getOrder_block]; norm_num) le_rfl
    (by rw [getOrder_block]; norm_num) (fun _ _ => rfl)
  rw [getOrder_block] at hh
  obtain ⟨mem', hk, hmap⟩ := hheap.kmalloc_onMap (poolLayout_init exampleImage) h15 (by decide)
    (hinv₂.tails 15 h15) (hinv₂.tails 2 (by decide)) (by rw [hf₂, hf₁, hf₀]) hf'
    (show 0x100000 ≤ kmallocSize 15 by decide) (by decide) hz ha hh rfl
  have hr := ((hb.step trivial hs₁).step trivial hs₂).step trivial (HeapStep.kmalloc _ hk)
  exact (hall exampleImage _ hr).colorMaps ⟨_, 0x100000⟩ List.mem_cons_self _
    ⟨le_rfl, Nat.lt_add_of_pos_right (show 0 < 0x100000 by decide)⟩ (hmap.colorMap h15)

end Talios
