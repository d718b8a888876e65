import Talios.Memory.SlabFrame

set_option autoImplicit false

/-! # Runs of the kernel's memory

The states the memory of the kernel goes through before an address space is looked at: calls of
`kmalloc` and `kfree` and of the page allocator, and writes of everyone to memory of their own.
Every `kmalloc` has room.
-/

namespace Talios

open Word Bitmap Dyadic

/-- The memory, the objects `kmalloc` has handed out, and the blocks (first page, order) the page
allocator has. -/
structure Kernel where
  mem : KMem
  live : List Obj
  blocks : List (Nat × Nat)

/-- The number of blocks the frame `x` belongs to. -/
def blocksOut (blocks : List (Nat × Nat)) (x : Nat) : Nat :=
  (blocks.map (fun b => ind b.1 b.2 x)).sum

inductive KernelStep : Kernel → Kernel → Prop
  | kmalloc {s : Kernel} {mem' : KMem} {p : Nat} (size : Nat) (hroom : HeapRoom s.mem size)
      (h : kmalloc s.mem size = some (mem', some p)) :
      KernelStep s ⟨mem', ⟨p, size⟩ :: s.live, s.blocks⟩
  | kmallocNull {s : Kernel} {mem' : KMem} (size : Nat) (hroom : HeapRoom s.mem size)
      (h : kmalloc s.mem size = some (mem', none)) : KernelStep s ⟨mem', s.live, s.blocks⟩
  | kfree {s : Kernel} {mem' : KMem} {ok : Bool} (b : Obj) (hb : b ∈ s.live)
      (h : kfree s.mem b.ptr = some (mem', ok)) : KernelStep s ⟨mem', s.live.erase b, s.blocks⟩
  | allocPages {s : Kernel} {mms : MMS} {p : Nat} (selector : Int) (number attr : Nat)
      (h : allocPages s.mem.mms selector number attr = some (mms, some p)) :
      KernelStep s ⟨{ s.mem with mms := mms }, s.live, (p, getOrder number) :: s.blocks⟩
  | freePages {s : Kernel} {mms : MMS} {ok : Bool} (p number : Nat)
      (hb : (p, getOrder number) ∈ s.blocks)
      (h : freePages s.mem.mms p number = some (mms, ok)) :
      KernelStep s ⟨{ s.mem with mms := mms }, s.live, s.blocks.erase (p, getOrder number)⟩
  | write {s : Kernel} (b : Obj) (hb : b ∈ s.live) (a : Nat) (v : BitVec 8) (ha : b.Has a) :
      KernelStep s ⟨s.mem.writeByte a v, s.live, s.blocks⟩
  | writePage {s : Kernel} (b : Nat × Nat) (hb : b ∈ s.blocks) (a : Nat) (v : BitVec 8)
      (ha : Mem b.1 b.2 (page4KIndex (virtToPhy a))) :
      KernelStep s ⟨s.mem.writeByte a v, s.live, s.blocks⟩

/-- The states reached from what `InitMemory` builds. -/
inductive KernelReachable (img : KernelImage) : Kernel → Prop
  | boot {mem : KMem} (h : initMemory img = some mem) : KernelReachable img ⟨mem, [], []⟩
  | step {s s' : Kernel} (h : KernelReachable img s) (hs : KernelStep s s') : KernelReachable img s'

section

variable {m₀ : MMS} {pool : Nat → Slab} {s s' : Kernel}

/-- A block handed out lies in one zone. -/
structure BlockOk (m₀ : MMS) (b : Nat × Nat) : Prop where
  order : b.2 < MAX_ORDER
  aligned : 2 ^ b.2 ∣ b.1
  zone : ∃ zi < m₀.zonesCount, ∀ x, Mem b.1 b.2 x → (m₀.zone zi).Has x

/-- The invariant of a run. -/
structure Kernel.Inv (m₀ : MMS) (pool : Nat → Slab) (s : Kernel) : Prop where
  heap : HeapInv m₀ pool s.mem (blocksOut s.blocks) s.live
  blocks : ∀ b ∈ s.blocks, BlockOk m₀ b

theorem ind_le_blocksOut {blocks : List (Nat × Nat)} {b : Nat × Nat} (hb : b ∈ blocks) (x : Nat) :
    ind b.1 b.2 x ≤ blocksOut blocks x :=
  List.single_le_sum (fun _ _ => Nat.zero_le _) _
    (List.mem_map_of_mem (f := fun b : Nat × Nat => ind b.1 b.2 x) hb)

theorem blocksOut_cons (b : Nat × Nat) (blocks : List (Nat × Nat)) :
    blocksOut (b :: blocks) = fun x => blocksOut blocks x + ind b.1 b.2 x := by
  funext x
  exact Nat.add_comm _ _

theorem blocksOut_erase {blocks : List (Nat × Nat)} {b : Nat × Nat} (hb : b ∈ blocks) :
    blocksOut (blocks.erase b) = fun x => blocksOut blocks x - ind b.1 b.2 x := by
  funext x
  have h := ((List.perm_cons_erase hb).map (fun b : Nat × Nat => ind b.1 b.2 x)).sum_eq
  rw [List.map_cons, List.sum_cons] at h
  unfold blocksOut
  omega

/-- The block that a call hands out. -/
theorem Handed.blockOk {m m' : MMS} {out : Nat → Nat} {zi p k : Nat} (h : Handed m m' out zi p k)
    (hl : SameLayout m₀ m) (hz : zi < m.zonesCount) (hk : k < MAX_ORDER) : BlockOk m₀ (p, k) := by
  refine ⟨hk, h.aligned, zi, ?_, fun x hx => (hl.has zi x).mp (h.inside x hx)⟩
  rw [← hl.zonesCount]
  exact hz

/-- A write to a block of the page allocator's is no write to the heap's data. -/
theorem Kernel.Inv.writePage (hd : DirectMap m₀ pool) (h : s.Inv m₀ pool) {b : Nat × Nat}
    (hb : b ∈ s.blocks) {a : Nat} (ha : Mem b.1 b.2 (page4KIndex (virtToPhy a))) (v : BitVec 8) :
    HeapInv m₀ pool (s.mem.writeByte a v) (blocksOut s.blocks) s.live := by
  obtain ⟨zi, hz, hin⟩ := (h.blocks b hb).zone
  have hx : UserFrame m₀ (blocksOut s.blocks) (page4KIndex (virtToPhy a)) := by
    refine ⟨⟨zi, hz, hin _ ha⟩, ?_⟩
    have := ind_le_blocksOut hb (page4KIndex (virtToPhy a))
    rw [ind_eq_one ha] at this
    omega
  have hno := (h.heap.toHeapCore.held hx).2.1
  refine h.heap.setWord (fun c hc => Function.update_of_ne (fun he => hno ?_) ..)
  obtain ⟨i, hi, t, ht, hm⟩ := hc
  exact h.heap.toHeapCore.frame_of_meta hd.toPoolLayout hi ht
    (h.heap.rings.meta_of_mapWord hd.toPoolLayout hi ht hm he.symm)

theorem Kernel.Inv.step (hd : DirectMap m₀ pool) (h : s.Inv m₀ pool) (hs : KernelStep s s') :
    s'.Inv m₀ pool := by
  have hp := hd.toPoolLayout
  cases hs with
  | kmalloc size hroom he =>
      exact ⟨kmalloc_some hp h.heap hroom he, h.blocks⟩
  | kmallocNull size hroom he =>
      obtain rfl := kmalloc_none hp h.heap hroom he
      exact h
  | kfree b hb he =>
      obtain ⟨mem₁, he', hinv, -⟩ := kfree_spec hp h.heap hb
      rw [he] at he'
      obtain ⟨rfl, -⟩ := Prod.mk.inj (Option.some.inj he')
      exact ⟨hinv, h.blocks⟩
  | allocPages selector number attr he =>
      obtain ⟨zi, hz, ho, hh⟩ := allocPages_some h.heap.inv he
      refine ⟨?_, List.forall_mem_cons.mpr ⟨hh.blockOk h.heap.layout hz ho, h.blocks⟩⟩
      dsimp only
      rw [blocksOut_cons]
      exact h.heap.pagesTaken hh
  | freePages p number hb he =>
      obtain ⟨ho, ha, zi, hz, hin⟩ := h.blocks _ hb
      obtain ⟨m', he', hinv⟩ := h.heap.pagesGiven hz ho ha hin (fun x => ind_le_blocksOut hb x)
      rw [he] at he'
      obtain ⟨rfl, -⟩ := Prod.mk.inj (Option.some.inj he')
      refine ⟨?_, fun b hb' => h.blocks b (List.mem_of_mem_erase hb')⟩
      dsimp only
      rw [blocksOut_erase hb]
      exact hinv
  | write b hb a v ha => exact ⟨h.heap.writeByte hp hb ha v, h.blocks⟩
  | writePage b hb a v ha => exact ⟨h.writePage hd hb ha v, h.blocks⟩

end

/-- **Every state of a run** satisfies the invariant. -/
theorem KernelReachable.inv {img : KernelImage} {s : Kernel} (h : KernelReachable img s) :
    s.Inv (reservedMMS img.map (kernelReservations img.endStruct)) (cachePool img.endStruct) := by
  induction h with
  | boot h =>
      obtain ⟨mem, he, hinv⟩ := initMemory_spec img
      obtain rfl := Option.some.inj (h.symm.trans he)
      exact ⟨hinv, by simp⟩
  | step _ hs ih => exact ih.step (directMap_init img) hs

/-! ## An example -/

theorem word_init : ∀ a, initWord exampleImage a = 0 := by
  have key : ∀ (l : List Nat) (w : Memory), (∀ a, w a = 0) → ∀ a,
      l.foldl (fun w i => fill w ((initHeader exampleImage.endStruct i).colorMap / 8)
        (initHeader exampleImage.endStruct i).colorLength 0) w a = 0 := by
    intro l
    induction l with
    | nil => exact fun w h => h
    | cons i l ih =>
        intro w h
        refine ih _ (fun a => ?_)
        show (if _ then _ else w a) = 0
        rw [h a, ite_self]
  exact key _ _ (fun _ => rfl)

/-- The kernel of the example after `n` calls of `kmalloc(PAGE_4K_SIZE)`: its memory is zero
outside the bitmaps. -/
structure ExamplePages (n : Nat) (k : Kernel) : Prop where
  reachable : KernelReachable exampleImage k
  inv : ExampleInv ⟨k.mem, k.live⟩
  free : (k.mem.cache 7).totalFree = 512 - n
  others : ∀ j ≠ 7, (k.mem.cache j).totalFree = PAGE_2M_SIZE / kmallocSize j
  zero : ∀ a, ¬ k.mem.MapWord a → k.mem.word a = 0
  page : 0 < n → ∃ q, (⟨q, PAGE_4K_SIZE⟩ : Obj) ∈ k.live

theorem examplePages : ∀ n ≤ 512, ∃ k, ExamplePages n k := by
  intro n
  induction n with
  | zero =>
      intro _
      obtain ⟨mem, he, hinv, hfree⟩ := exampleInv_boot
      have hword : mem.word = initWord exampleImage := by
        unfold initMemory at he
        obtain ⟨m, -, rfl⟩ := Option.map_eq_some_iff.mp he
        rfl
      exact ⟨⟨mem, [], []⟩, KernelReachable.boot he, hinv, hfree 7, fun j _ => hfree j,
        fun a _ => by rw [hword]; exact word_init a, fun h => absurd h (by omega)⟩
  | succ n ih =>
      intro hn
      obtain ⟨k, hk⟩ := ih (by omega)
      have h7 : 7 < KMALLOC_SLAB_SIZE := by decide
      have hf : (k.mem.cache 7).totalFree ≠ 0 := by rw [hk.free]; omega
      have h1 : PAGE_4K_SIZE ≤ kmallocSize 7 := by decide
      have h2 : ∀ j < 7, kmallocSize j < PAGE_4K_SIZE := by decide
      have hinv : HeapInv _ _ k.mem (fun _ => 0) k.live := hk.inv.inv
      obtain ⟨mem', q, he, hinv', -, hsh, hfree, hne, hfr⟩ := hinv.kmalloc_pool
        (poolLayout_init exampleImage) h7 (hk.inv.tails 7 h7) hf h1 h2 _
      have hmap : ∀ a, mem'.MapWord a ↔ k.mem.MapWord a := fun a => by
        unfold KMem.MapWord; rw [hsh]
      refine ⟨⟨mem', ⟨q, PAGE_4K_SIZE⟩ :: k.live, k.blocks⟩,
        hk.reachable.step (KernelStep.kmalloc _ (hk.inv.heapRoom h7 hf h1 h2) he),
        ⟨hinv', by rw [hsh]; exact hk.inv.tails⟩, ?_, fun j hj => ?_, fun a ha => ?_,
        fun _ => ⟨q, List.mem_cons_self⟩⟩
      · show (mem'.cache 7).totalFree = _
        rw [hfree, hk.free]
        omega
      · show (mem'.cache j).totalFree = _
        rw [hne j hj]
        exact hk.others j hj
      · have ha' := fun hm => ha ((hmap a).mpr hm)
        show mem'.word a = 0
        rw [hfr a ha', hk.zero a ha']

/-- While there are `CachePool` slabs only, there is a frame, and then still a block of 2 MiB. -/
theorem example_frame_block {s : KMem} {objs : List Obj}
    (h : HeapInv (reservedMMS exampleImage.map (kernelReservations exampleImage.endStruct))
      (cachePool exampleImage.endStruct) s (fun _ => 0) objs)
    (htails : ∀ i < KMALLOC_SLAB_SIZE, (s.shapes i).tail = []) (pageAttr : Nat) :
    ∃ m₁ f zi, zi < s.mms.zonesCount ∧
      allocPages s.mms ZONE_NORMAL_INDEX 1 pageAttr = some (m₁, some f) ∧
      Handed s.mms m₁ (fun x => 0 + grownCover s.shapes x) zi f 0 ∧
      ∃ m₂ page zj, zj < m₁.zonesCount ∧
        allocPages m₁ ZONE_NORMAL_INDEX (1 * 2 ^ 9) 0 = some (m₂, some page) ∧
        Handed m₁ m₂ (fun x => 0 + ind f 0 x + grownCover s.shapes x) zj page 9 := by
  obtain ⟨m₁, f, zi, hz, ha, hh⟩ := @example_allocPages _ _ _ h htails 1 20480 pageAttr
    (by rw [getOrder_page]; decide) (by rw [getOrder_page]; norm_num) le_rfl
    (by rw [getOrder_page]; norm_num) (fun _ _ => rfl)
  rw [getOrder_page] at hh
  obtain ⟨hheap, -, -⟩ := h.frameTaken hz hh
  -- of two blocks one does not have the frame
  obtain ⟨b, hb1, hb2, hb3, hb4⟩ : ∃ b, 20480 ≤ b ∧ b + 2 ^ 9 ≤ 32768 ∧ 2 ^ 9 ∣ b ∧
      ∀ x, Mem b 9 x → 0 + ind f 0 x = 0 := by
    by_cases hfb : f < 20992
    · refine ⟨20992, by norm_num, by norm_num, by norm_num, fun x hx => ?_⟩
      unfold Mem at hx
      rw [ind_zero, if_neg (by omega)]
    · refine ⟨20480, by norm_num, by norm_num, by norm_num, fun x hx => ?_⟩
      unfold Mem at hx
      rw [ind_zero, if_neg (by omega)]
  obtain ⟨m₂, page, zj, hzj, ha₂, hh₂⟩ := @example_allocPages _ _ _ hheap htails (1 * 2 ^ 9) b 0
    (by rw [getOrder_block]; decide) (by rw [getOrder_block]; exact hb3) hb1 (by rw [getOrder_block]; exact hb2)
    (by rw [getOrder_block]; exact hb4)
  rw [getOrder_block] at hh₂
  exact ⟨m₁, f, zi, hz, ha, hh, m₂, page, zj, hzj, ha₂, hh₂⟩

end Talios
