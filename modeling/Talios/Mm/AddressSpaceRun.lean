import Talios.Memory.KernelRun
import Talios.Mm.AddressSpaceCalls

set_option autoImplicit false

/-! # Areas, page tables and frames agree

Runs of one address space from `lmm_init` on: calls of `do_mmap`, `do_munmap` and
`handle_page_fault` in any order, with any arguments, in a kernel in any state. `space_coherent`
is about the runs in which no call grows the heap by a slab that lies on its own bitmap
(`SpaceRoom`); `space_incoherent` is a run in which a call does, and a table of the address space
becomes a page of its user.
-/

namespace Talios

open Word Bitmap Dyadic Radix

/-! ## What is wanted -/

/-- An address space after `lmm_init`, its user half empty, in the kernel `k`. -/
structure FreshSpace (img : KernelImage) (k : Kernel) (s : Space) : Prop where
  kernel : KernelReachable img k
  mem : s.mem = k.mem
  lmm : ∃ mm, s.mm = lmmInit mm
  pgd : (⟨phyToVirt s.mm.pgd, PAGE_4K_SIZE⟩ : Obj) ∈ k.live
  empty : ∀ i < 256, s.mem.word (phyToVirt s.mm.pgd / 8 + i) = 0

/-- Every address that is present lies in exactly one area, with the rights of that area, in a
frame of its own that is on no free list. -/
structure Space.Coherent (s : Space) : Prop where
  area : ∀ a < USER_LIMIT, ∀ t, translate s.mem.word s.mm.pgd a = some t →
    t.user = true ∧ ∃ v, s.mm.vmaList.filter (fun v => decide (v.start ≤ a ∧ a < v.stop)) = [v] ∧
      (t.writable = true ↔ hasFlag v.prot PROT_WRITE = true)
  frames : ∀ a < USER_LIMIT, ∀ b < USER_LIMIT, ∀ t u, translate s.mem.word s.mm.pgd a = some t →
    translate s.mem.word s.mm.pgd b = some u → t.frame = u.frame →
    a / PAGE_4K_SIZE = b / PAGE_4K_SIZE
  free : ∀ a < USER_LIMIT, ∀ t, translate s.mem.word s.mm.pgd a = some t →
    s.mem.mms.freeBlocks t.frame = 0

/-- In the state before a call: the calls of `kmalloc` it makes have room. -/
def SpaceRoom (s : Space) : SpaceEvent → Prop
  | .mmap a => MmapAllocates s.mm a → HeapRoom s.mem VMA_STRUCT_SIZE
  | .munmap addr len => MunmapSplits s.mm addr len → HeapRoom s.mem VMA_STRUCT_SIZE
  | .fault address errorCode => FaultRoom s.mem s.mm address errorCode

/-! ## The invariant of a run -/

section

variable {m₀ : MMS} {pool : Nat → Slab} {s s' : Space}

/-- The invariant of a run. -/
def Space.Inv (m₀ : MMS) (pool : Nat → Slab) (s : Space) : Prop :=
  AreasOk s.mm.self s.mm.vmaList ∧
    ∃ out objs, SpaceInv m₀ pool s.mem s.mm.pgd s.mm.vmaList out objs

/-- The area an address lies in is the only one. -/
theorem filter_area {id a : Nat} {l : List VmArea} (h : AreasOk id l) {v : VmArea} (hv : v ∈ l)
    (ha : v.start ≤ a ∧ a < v.stop) :
    l.filter (fun v => decide (v.start ≤ a ∧ a < v.stop)) = [v] := by
  obtain ⟨pre, post, rfl⟩ := List.append_of_mem hv
  obtain ⟨-, hord, hcross⟩ := List.pairwise_append.mp h.ordered
  have hpre : pre.filter (fun v => decide (v.start ≤ a ∧ a < v.stop)) = [] := by
    refine List.filter_eq_nil_iff.mpr (fun u hu => ?_)
    have := hcross u hu v (by simp)
    simp only [decide_eq_true_eq]
    omega
  have hpost : post.filter (fun v => decide (v.start ≤ a ∧ a < v.stop)) = [] := by
    refine List.filter_eq_nil_iff.mpr (fun u hu => ?_)
    have := (List.pairwise_cons.mp hord).1 u hu
    simp only [decide_eq_true_eq]
    omega
  rw [List.filter_append, List.filter_cons, if_pos (by simpa using ha), hpre, hpost]
  rfl

/-- Areas are made of whole pages. -/
theorem AreaOk.has_of_hasPage {id a : Nat} {v : VmArea} (h : AreaOk id v)
    (hp : v.HasPage (a / PAGE_4K_SIZE)) : v.start ≤ a ∧ a < v.stop := by
  obtain ⟨q, hq⟩ := h.stopAligned
  unfold VmArea.HasPage at hp
  unfold PAGE_4K_SIZE PAGE_4K_SHIFT at *
  omega

/-- **The invariant gives coherence.** -/
theorem Space.Inv.coherent (hd : DirectMap m₀ pool) (h : s.Inv m₀ pool) : s.Coherent := by
  obtain ⟨hareas, out, objs, h⟩ := h
  refine ⟨fun a ha t ht => ?_, fun a ha b hb t u ht hu he => ?_, fun a ha t ht => ?_⟩
  · obtain ⟨f, b, hf, hfe, rfl⟩ := (translate_eq_some hd h.heap h.tables ha).mp ht
    obtain ⟨v, hv, hp, hb⟩ := h.cover _ f b hfe
    refine ⟨rfl, v, filter_area hareas hv ((hareas.areas v hv).has_of_hasPage hp), ?_⟩
    rw [← hb]
  · obtain ⟨f, c, hf, hfe, rfl⟩ := (translate_eq_some hd h.heap h.tables ha).mp ht
    obtain ⟨g, e, hg, hge, rfl⟩ := (translate_eq_some hd h.heap h.tables hb).mp hu
    obtain rfl : f = g := he
    exact h.tables.page_inj hd hf hfe hge
  · obtain ⟨f, b, hf, hfe, rfl⟩ := (translate_eq_some hd h.heap h.tables ha).mp ht
    obtain ⟨h1, h2, -⟩ := h.heap.toHeapCore.held hf
    obtain ⟨zi, hz, hin⟩ := hf.zone
    have := h.heap.toHeapCore.freeBlocks_add hz hin h2
    show s.mem.mms.freeBlocks f = 0
    omega

/-- An address space after `lmm_init` satisfies the invariant. -/
theorem Space.Inv.fresh (hd : DirectMap m₀ pool) {k : Kernel} (hk : k.Inv m₀ pool)
    (hm : s.mem = k.mem) (hl : ∃ mm, s.mm = lmmInit mm)
    (hpgd : (⟨phyToVirt s.mm.pgd, PAGE_4K_SIZE⟩ : Obj) ∈ k.live)
    (hempty : ∀ i < 256, s.mem.word (phyToVirt s.mm.pgd / 8 + i) = 0) : s.Inv m₀ pool := by
  have hlist : s.mm.vmaList = [] := by
    obtain ⟨mm, he⟩ := hl
    rw [he]
    rfl
  obtain ⟨ha, h1, h2⟩ := hk.heap.page_bounds hd hpgd rfl
  dsimp only at ha h1 h2
  have hal : PAGE_4K_SIZE ∣ s.mm.pgd := by
    unfold phyToVirt PAGE_OFFSET PAGE_4K_SIZE PAGE_4K_SHIFT at ha
    unfold PAGE_4K_SIZE PAGE_4K_SHIFT
    omega
  have hroot : PageObj k.live (userRoot s.mm.pgd) := by
    unfold PageObj userRoot
    have h8 : 8 * (phyToVirt s.mm.pgd / 8) = phyToVirt s.mm.pgd := by
      unfold PAGE_4K_SIZE PAGE_4K_SHIFT at ha
      omega
    rw [h8]
    exact hpgd
  have hempty' : ∀ i < userTables.top, s.mem.word (userRoot s.mm.pgd + i) = 0 := hempty
  obtain ⟨htree, hleaf⟩ := Tree.Ok.empty hempty' hroot
  have hleaf' : ∀ n, userLeaf s.mem.word s.mm.pgd n = 0 := hleaf
  refine ⟨by rw [hlist]; exact areasOk_nil _, blocksOut k.blocks, k.live, ?_, ⟨hal, htree,
    fun l _ n t ht i hi => ?_, fun n hn => absurd (hleaf' n) hn, fun n _ hn => absurd (hleaf' n) hn⟩,
    fun n f b he => ?_, by simp [hlist], by simp [hlist], by simp [hlist]⟩
  · rw [hm]
    exact hk.heap
  · obtain ⟨rfl, -, rfl⟩ := Tree.root_of_empty (T := userTables) hempty' ht
    exact Or.inl (hempty i hi)
  · rw [hleaf'] at he
    exact absurd he.symm (userPage_ne_zero f b)

/-- **One call** with room returns and keeps the invariant. -/
theorem Space.Inv.step (hd : DirectMap m₀ pool) (h : s.Inv m₀ pool) {e : SpaceEvent}
    (hroom : SpaceRoom s e) : ∃ s', s.step e = some s' ∧ s'.Inv m₀ pool := by
  obtain ⟨hareas, out, objs, h⟩ := h
  cases e with
  | mmap a =>
      obtain ⟨mm', mem', r, objs', he, hp, h'⟩ := h.mmap hd hareas hroom
      have hok := (doMmap_ok kernelEnv hareas a (some s.mem)).1
      rw [he] at hok
      exact ⟨⟨mem', mm'⟩, by rw [Space.step, he]; rfl, hok, out, objs', h'⟩
  | munmap addr len =>
      obtain ⟨mm', mem', r, out', objs', he, hp, h', -, -⟩ := h.munmap hd hareas hroom
      have hok := (doMunmap_ok kernelEnv hareas addr len (some s.mem)).1
      rw [he] at hok
      exact ⟨⟨mem', mm'⟩, by rw [Space.step, he]; rfl, hok, out', objs', h'⟩
  | fault address errorCode =>
      obtain ⟨mem', r, out', objs', he, h'⟩ := h.fault hd hareas hroom
      exact ⟨⟨mem', s.mm⟩, by rw [Space.step, he]; rfl, hareas, out', objs', h'⟩

end

/-- **Areas, page tables and frames agree** in every state of a run whose calls all have room;
such a call returns; and where `do_munmap` returns 0, no address of its range is present any more
and every frame that was mapped there is free, once. -/
theorem space_coherent {img : KernelImage} {k : Kernel} {s₀ s : Space} (h₀ : FreshSpace img k s₀)
    (h : SpaceReachable s₀ SpaceRoom s) :
    s.Coherent ∧ (∀ e, SpaceRoom s e → ∃ s', s.step e = some s') ∧
    ∀ addr len mm' mem', SpaceRoom s (.munmap addr len) →
      doMunmap kernelEnv s.mm addr len (some s.mem) = (mm', some mem', 0) →
      ∀ a, addr ≤ a → a < addr + alignUp64 PAGE_4K_SIZE len →
        translate mem'.word mm'.pgd a = none ∧
        ∀ t, translate s.mem.word s.mm.pgd a = some t →
          s.mem.mms.freeBlocks t.frame = 0 ∧ mem'.mms.freeBlocks t.frame = 1 := by
  have hd := directMap_init img
  have hinv : s.Inv (reservedMMS img.map (kernelReservations img.endStruct))
      (cachePool img.endStruct) := by
    induction h with
    | start => exact Space.Inv.fresh hd h₀.kernel.inv h₀.mem h₀.lmm h₀.pgd h₀.empty
    | step _ hok hs ih =>
        obtain ⟨s', he, hinv⟩ := ih.step hd hok
        obtain rfl := Option.some.inj (hs.symm.trans he)
        exact hinv
  refine ⟨hinv.coherent hd, fun e he => ?_, fun addr len mm' mem' hroom he a ha1 ha2 => ?_⟩
  · obtain ⟨s', hs, -⟩ := hinv.step hd he
    exact ⟨s', hs⟩
  · obtain ⟨hareas, out, objs, hsp⟩ := hinv
    obtain ⟨mm₁, mem₁, r, out', objs', he', hpgd, hsp', hrange, hfree⟩ := hsp.munmap hd hareas hroom
    obtain ⟨rfl, h2⟩ := Prod.mk.inj (he.symm.trans he')
    obtain ⟨h3, rfl⟩ := Prod.mk.inj h2
    obtain rfl := Option.some.inj h3
    obtain ⟨hal, hup⟩ := hrange rfl
    have hau : a < USER_LIMIT := ha2.trans_le hup
    obtain ⟨hzero, hfreed⟩ := hfree rfl (a / PAGE_4K_SIZE) (by
      obtain ⟨q, rfl⟩ := hal
      rw [Nat.mul_comm PAGE_4K_SIZE q]
      exact Nat.mul_le_mul_right _ ((Nat.le_div_iff_mul_le (by decide)).mpr (by
        rw [Nat.mul_comm]; exact ha1))) ((Nat.div_mul_le_self _ _).trans_lt ha2)
    refine ⟨?_, fun t ht => ?_⟩
    · rw [translate_eq hd hsp'.heap hsp'.tables hau, hpgd, hzero]
      rfl
    · obtain ⟨f, b, hf, hfe, rfl⟩ := (translate_eq_some hd hsp.heap hsp.tables hau).mp ht
      obtain ⟨h4, h5⟩ := hfreed f b hf hfe
      obtain ⟨h6, h7, -⟩ := hsp.heap.toHeapCore.held hf
      obtain ⟨zi, hz, hin⟩ := hf.zone
      have h8 := hsp.heap.toHeapCore.freeBlocks_add hz hin h7
      have h9 := hsp'.heap.toHeapCore.freeBlocks_add hz hin h5
      show s.mem.mms.freeBlocks f = 0 ∧ mem'.mms.freeBlocks f = 1
      omega

/-! ## An example -/

/-- An address space in the example's kernel. -/
theorem ExamplePages.fresh {n : Nat} {k : Kernel} (h : ExamplePages n k) (hn : 0 < n) :
    ∃ q, (⟨q, PAGE_4K_SIZE⟩ : Obj) ∈ k.live ∧ PAGE_OFFSET < q ∧
      FreshSpace exampleImage k ⟨k.mem, lmmInit ⟨64, virtToPhy q, 0, false, []⟩⟩ := by
  obtain ⟨q, hq⟩ := h.page hn
  have hinv : HeapInv _ _ k.mem (fun _ => 0) k.live := h.inv.inv
  obtain ⟨h1, h2, h3⟩ := hinv.page_bounds (directMap_init exampleImage) hq rfl
  dsimp only at h1 h2 h3
  have hpv : phyToVirt (virtToPhy q) = q := Nat.sub_add_cancel h2.le
  obtain ⟨t, rfl⟩ : ∃ t, q = 8 * t := by
    unfold PAGE_4K_SIZE PAGE_4K_SHIFT at h1
    exact ⟨q / 8, by omega⟩
  refine ⟨8 * t, hq, h2, h.reachable, rfl, ⟨_, rfl⟩, ?_, fun i hi => ?_⟩
  · show (⟨phyToVirt (virtToPhy (8 * t)), PAGE_4K_SIZE⟩ : Obj) ∈ k.live
    rw [hpv]
    exact hq
  · show k.mem.word (phyToVirt (virtToPhy (8 * t)) / 8 + i) = 0
    rw [hpv, Nat.mul_div_cancel_left _ (by decide)]
    exact h.zero _ (hinv.not_mapWord (poolLayout_init exampleImage) hq (PageObj.has (by omega)))

/-- One page at `0x40200000`, readable and writable, private, anonymous and fixed. -/
def exampleArgs : MmapArgs := ⟨none, 0x40200000, 0x1000, 3, 0x32, 0, 0⟩

theorem doMmap_example {σ : Type} {env : VmaEnv σ} {mm : Lmm} (hl : mm.listReady = true)
    (hv : mm.vmaList = []) {s s₁ : σ} {p : Nat} (he : env.kmalloc s = (s₁, some p)) :
    doMmap env mm exampleArgs s
      = ({ mm with vmaList := [mmapArea mm exampleArgs p 0x40200000 0x1000] }, s₁, 0x40200000) := by
  have hc : mmapCheck exampleArgs = .ok 0x1000 := by
    unfold mmapCheck
    iterate 9 rw [if_neg (by decide)]
    dsimp only
    iterate 3 rw [if_neg (by decide)]
    rfl
  have hu : getUnmappedArea mm exampleArgs.addr 0x1000 exampleArgs.flags = 0x40200000 := by
    unfold getUnmappedArea
    rw [if_neg (by decide), if_pos (by decide), if_neg (by decide), if_neg (by decide)]
    rfl
  have hr : rangeIsFree mm 0x40200000 0x1000 = true := by
    unfold rangeIsFree
    rw [if_neg, hv]
    · rfl
    · rw [hl]
      decide
  have hi : insertVma mm (mmapArea mm exampleArgs p 0x40200000 0x1000)
      = ({ mm with vmaList := [mmapArea mm exampleArgs p 0x40200000 0x1000] }, 1) := by
    have hargs : insertArgsOk mm (mmapArea mm exampleArgs p 0x40200000 0x1000) = true := by
      have hstop : add64 0x40200000 0x1000 = 0x40201000 := by decide
      simp only [insertArgsOk, mmapArea, hl, hstop, Bool.and_eq_true, decide_eq_true_eq]
      decide
    unfold insertVma
    rw [if_pos hargs, hv]
    rfl
  unfold doMmap
  rw [hc]
  dsimp only
  rw [hu, if_neg (by decide), hr, if_neg (by decide), he]
  dsimp only
  rw [hi]
  rfl

/-- Mapping one page in the example's kernel. -/
theorem ExamplePages.mmap {n : Nat} {k : Kernel} (h : ExamplePages n k) (mm : Lmm) :
    HeapRoom k.mem VMA_STRUCT_SIZE ∧
    ∃ mem' p, Space.step ⟨k.mem, lmmInit mm⟩ (.mmap exampleArgs)
        = some ⟨mem', { lmmInit mm with
            vmaList := [mmapArea (lmmInit mm) exampleArgs p 0x40200000 0x1000] }⟩ ∧
      ExampleInv ⟨mem', ⟨p, VMA_STRUCT_SIZE⟩ :: k.live⟩ ∧ mem'.cache 7 = k.mem.cache 7 ∧
      (mem'.cache 2).totalFree = PAGE_2M_SIZE / kmallocSize 2 - 1 ∧
      mem'.shapes = k.mem.shapes ∧ ∀ a, ¬ k.mem.MapWord a → mem'.word a = k.mem.word a := by
  have h2 : 2 < KMALLOC_SLAB_SIZE := by decide
  have hf : (k.mem.cache 2).totalFree ≠ 0 := by rw [h.others 2 (by decide)]; decide
  have hle : VMA_STRUCT_SIZE ≤ kmallocSize 2 := by decide
  have hlt : ∀ j < 2, kmallocSize j < VMA_STRUCT_SIZE := by decide
  have hinv : HeapInv _ _ k.mem (fun _ => 0) k.live := h.inv.inv
  obtain ⟨mem', p, he, hinv', -, hsh, hfree, hne, hfr⟩ := hinv.kmalloc_pool
    (poolLayout_init exampleImage) h2 (h.inv.tails 2 h2) hf hle hlt
    (kmallocWith (fun _ _ => none))
  have hk : kernelEnv.kmalloc (some k.mem) = (some mem', some p) := by
    have he' : kmalloc k.mem VMA_STRUCT_SIZE = some (mem', some p) := he
    simp only [kernelEnv, Option.bind_some, he']
  refine ⟨h.inv.heapRoom h2 hf hle hlt, mem', p, ?_, ⟨hinv', by rw [hsh]; exact h.inv.tails⟩,
    hne 7 (by decide), by rw [hfree, h.others 2 (by decide)], hsh, hfr⟩
  have hstep := doMmap_example (rfl : (lmmInit mm).listReady = true) rfl hk
  rw [Space.step, hstep]
  rfl

/-- A page fault leaves the areas alone. -/
theorem Space.step_fault_mm {s s' : Space} {address errorCode : Nat}
    (h : s.step (.fault address errorCode) = some s') : s'.mm = s.mm := by
  obtain ⟨r, -, rfl⟩ := Option.map_eq_some_iff.mp h
  rfl

theorem Space.step_munmap {s s' : Space} {addr len : Nat} (h : s.step (.munmap addr len) = some s') :
    s'.mm = (doMunmap kernelEnv s.mm addr len (some s.mem)).1 ∧
      (doMunmap kernelEnv s.mm addr len (some s.mem)).2.1 = some s'.mem := by
  obtain ⟨mem, he, rfl⟩ := Option.map_eq_some_iff.mp h
  exact ⟨rfl, he⟩

/-- An area that is the whole range goes. -/
theorem munmapLoop_area {σ : Type} (env : VmaEnv σ) (mm : Lmm) {v : VmArea} (hlt : v.start < v.stop)
    (hanon : hasFlag v.mmapFlags MAP_ANONYMOUS = true) (hfile : v.file = none) (s : σ) (unmapped : Bool) :
    munmapLoop env mm v.start v.stop [v] s unmapped
      = ([], env.kfree (env.unmapAnonymousPages s mm.pgd v.start v.stop) v.self, 0) := by
  simp [munmapLoop, hanon, hfile, Nat.not_le.mpr hlt]

/-- Unmapping the one area of a manager returns 0, and leaves no area. -/
theorem doMunmap_example {σ : Type} (env : VmaEnv σ) {mm : Lmm} {p : Nat} {s : σ} (hpgd : mm.pgd ≠ 0)
    (hready : mm.listReady = true) (hv : mm.vmaList = [mmapArea mm exampleArgs p 0x40200000 0x1000]) :
    ¬ MunmapSplits mm 0x40200000 0x1000 ∧ (doMunmap env mm 0x40200000 0x1000 s).2.2 = 0 ∧
      (doMunmap env mm 0x40200000 0x1000 s).1.vmaList = [] := by
  have hstop : add64 0x40200000 0x1000 = 0x40201000 := by decide
  have hc : munmapCheck mm 0x40200000 0x1000 = some 0x1000 := by
    have hlen : alignUp64 PAGE_4K_SIZE 0x1000 = 0x1000 := by decide
    unfold munmapCheck
    dsimp only
    rw [hlen, if_neg, if_neg (by decide), if_neg (by decide), if_neg (by rw [hready]; decide)]
    rintro (h | h | h)
    · exact hpgd h
    · exact absurd h (by decide)
    · exact absurd h (by decide)
  refine ⟨?_, ?_⟩
  · rintro ⟨len, he, v, hmem, hlt, -⟩
    rw [hv, List.mem_singleton] at hmem
    rw [hmem] at hlt
    exact absurd hlt (by simp [mmapArea])
  · unfold doMunmap
    rw [hc]
    dsimp only
    have hloop := munmapLoop_area env mm (v := mmapArea mm exampleArgs p 0x40200000 0x1000)
      (show 0x40200000 < add64 0x40200000 0x1000 by rw [hstop]; decide)
      (show hasFlag exampleArgs.flags MAP_ANONYMOUS = true by decide) rfl s false
    rw [show (mmapArea mm exampleArgs p 0x40200000 0x1000).stop = 0x40200000 + 0x1000 from hstop,
      show (mmapArea mm exampleArgs p 0x40200000 0x1000).start = 0x40200000 from rfl] at hloop
    rw [hv, hloop]
    exact ⟨rfl, rfl⟩

/-- One page is mapped, written to and unmapped. -/
theorem space_coherent_example : ∃ k s₀ s₁ s₂ s₃, FreshSpace exampleImage k s₀ ∧
    (s₀.step (.mmap exampleArgs) = some s₁ ∧ s₁.mm.vmaList ≠ [] ∧ s₁.Coherent) ∧
    (s₁.step (.fault 0x40200000 6) = some s₂ ∧ s₂.Coherent) ∧
    s₂.step (.munmap 0x40200000 0x1000) = some s₃ ∧ s₃.mm.vmaList = [] ∧ s₃.Coherent ∧
    translate s₃.mem.word s₃.mm.pgd 0x40200000 = none := by
  obtain ⟨k, hk⟩ := examplePages 1 (by decide)
  obtain ⟨q, -, hlo, hfresh⟩ := hk.fresh (by decide)
  obtain ⟨hroom, mem', p, hs₁, -, h7, -⟩ := hk.mmap ⟨64, virtToPhy q, 0, false, []⟩
  set mm := lmmInit ⟨64, virtToPhy q, 0, false, []⟩ with hmm
  have hr₁ : SpaceReachable _ SpaceRoom _ := SpaceReachable.start.step
    (show SpaceRoom _ (.mmap exampleArgs) from fun _ => hroom) hs₁
  obtain ⟨hcoh₁, hnext₁, -⟩ := space_coherent hfresh hr₁
  -- of the class of pages one object is in use, and the walk needs three
  have hfault : SpaceRoom ⟨mem', { mm with vmaList := [mmapArea mm exampleArgs p 0x40200000 0x1000] }⟩
      (.fault 0x40200000 6) := by
    intro v _ mms page _
    have hfree : 3 ≤ (mem'.cache 7).totalFree := by
      rw [h7, hk.free]
      decide
    exact Or.inl ((missingTables_le _ _ _).trans hfree)
  obtain ⟨s₂, hs₂⟩ := hnext₁ _ hfault
  have hr₂ := hr₁.step hfault hs₂
  obtain ⟨hcoh₂, hnext₂, hgone⟩ := space_coherent hfresh hr₂
  have hkept : s₂.mm = { mm with vmaList := [mmapArea mm exampleArgs p 0x40200000 0x1000] } :=
    Space.step_fault_mm hs₂
  have hpgd : s₂.mm.pgd ≠ 0 := by
    have hsub : s₂.mm.pgd = q - PAGE_OFFSET := by
      rw [hkept]
      rfl
    omega
  obtain ⟨hnosplit, hret, hlist⟩ := doMunmap_example kernelEnv (s := some s₂.mem) hpgd (by rw [hkept]; rfl)
    (show s₂.mm.vmaList = [mmapArea s₂.mm exampleArgs p 0x40200000 0x1000] by rw [hkept]; rfl)
  have hmunmap : SpaceRoom s₂ (.munmap 0x40200000 0x1000) := fun h => absurd h hnosplit
  obtain ⟨s₃, hs₃⟩ := hnext₂ _ hmunmap
  obtain ⟨hmm₃, hmem₃⟩ := Space.step_munmap hs₃
  have hcall : doMunmap kernelEnv s₂.mm 0x40200000 0x1000 (some s₂.mem) = (s₃.mm, some s₃.mem, 0) := by
    rw [hmm₃, ← hmem₃, ← hret]
  refine ⟨k, _, _, s₂, s₃, hfresh, ⟨hs₁, List.cons_ne_nil _ _, hcoh₁⟩, ⟨hs₂, hcoh₂⟩, hs₃, ?_,
    (space_coherent hfresh (hr₂.step hmunmap hs₃)).1, ?_⟩
  · rw [hcall] at hlist
    exact hlist
  · exact (hgone _ _ _ _ hmunmap hcall 0x40200000 le_rfl (by decide)).1

/-! ## A class of pages that grows -/

/-- The words of the table at `v` and its entry 1 after the tables of a walk have all been made
there. -/
structure Looped (w : Memory) (pml4 v : Nat) : Prop where
  top : w pml4 = tableEntry v
  self : w (v + 1) = tableEntry v
  page : DirectPage v

/-- Where the tables of all levels are one page, page 1 of its second GiB is that page. -/
theorem Looped.translate {w : Memory} {pgd v : Nat} (h : Looped w (userRoot pgd) v)
    (ha : PAGE_4K_SIZE ∣ pgd) :
    ∃ f, translate w pgd 0x40201000 = some ⟨f, true, true⟩ := by
  obtain ⟨htab, -, hpr, hus, hrw, hps⟩ := h.page.entry
  have h0 : (phyToVirt pgd + getBits 0x40201000 PAGE_GDT_SHIFT 9 * 8) / 8 = userRoot pgd := by
    rw [show getBits 0x40201000 PAGE_GDT_SHIFT 9 = 0 by decide]
    rfl
  have h1 : ∀ shift ∈ [PAGE_1G_SHIFT, PAGE_2M_SHIFT, PAGE_4K_SHIFT],
      (8 * v + getBits 0x40201000 shift 9 * 8) / 8 = v + 1 := by
    intro shift hs
    have : getBits 0x40201000 shift 9 = 1 := by
      revert shift
      decide
    rw [this]
    omega
  unfold Talios.translate
  rw [show alignDown PAGE_4K_SIZE pgd = pgd from Nat.div_mul_cancel ha]
  simp only [translateFrom, h0, h.top, hpr, hps, htab, hus, hrw, h1 _ (by simp : PAGE_1G_SHIFT ∈ _),
    h1 _ (by simp : PAGE_2M_SHIFT ∈ [PAGE_1G_SHIFT, PAGE_2M_SHIFT, PAGE_4K_SHIFT]),
    h1 _ (by simp : PAGE_4K_SHIFT ∈ [PAGE_1G_SHIFT, PAGE_2M_SHIFT, PAGE_4K_SHIFT]), h.self]
  exact ⟨_, rfl⟩

/-- The second table of a walk whose first one lies on its own bitmap is the first one again. -/
theorem OnMap.kmalloc {s : KMem} {v n : Nat} (h : OnMap s 7 (8 * v) (n + 1)) (hz : s.word v = 0) :
    ∃ s', Talios.kmalloc s PAGE_4K_SIZE = some (s', some (8 * v)) ∧
      ∀ a ≠ v, s'.word a = s.word a := by
  have h8 : 8 * v / 8 = v := Nat.mul_div_cancel_left _ (by decide)
  obtain ⟨s', he, -, -, hfr⟩ := h.allocSlab (by decide) (by rw [h8]; exact hz)
  rw [h8] at hfr
  refine ⟨s', ?_, hfr⟩
  rw [← he]
  exact kmalloc_eq_allocSlab (by decide) (findClass_eq h.size (by decide) (by decide) (by decide))
    (by rw [h.totalFree]; omega) _

/-- The walk at `0x40200000` in an empty address space, where the new tables lie on their
bitmap. -/
theorem OnMap.walkPte {s s₁ : KMem} {pgd v n : Nat} (ha : PAGE_4K_SIZE ∣ pgd) (hv : DirectPage v)
    (hz : s.word (userRoot pgd) = 0)
    (hk : Talios.kmalloc s PAGE_4K_SIZE = some (s₁, some (8 * v)))
    (h : OnMap s₁ 7 (8 * v) (n + 1)) (hne : userRoot pgd < v ∨ v + 512 ≤ userRoot pgd) :
    ∃ s', walkPte s pgd 0x40200000 true = some (s', some (8 * v)) ∧
      Looped s'.word (userRoot pgd) v ∧ s'.word v = 0 := by
  have h8 : 8 * v / 8 = v := Nat.mul_div_cancel_left _ (by decide)
  have hclear : PAGE_4K_SIZE / 8 = 512 := by decide
  have e1 : (phyToVirt pgd + getBits 0x40200000 PAGE_GDT_SHIFT 9 * 8) / 8 = userRoot pgd := by
    rw [show getBits 0x40200000 PAGE_GDT_SHIFT 9 = 0 by decide]
    rfl
  have e2 : (8 * v + getBits 0x40200000 PAGE_1G_SHIFT 9 * 8) / 8 = v + 1 := by
    rw [entry_word, show getBits 0x40200000 PAGE_1G_SHIFT 9 = 1 by decide]
  have e3 : (8 * v + getBits 0x40200000 PAGE_2M_SHIFT 9 * 8) / 8 = v + 1 := by
    rw [entry_word, show getBits 0x40200000 PAGE_2M_SHIFT 9 = 1 by decide]
  -- the first level
  set entry₁ := phyToVirt pgd + getBits 0x40200000 PAGE_GDT_SHIFT 9 * 8
  have hw₁ := walkLevel_made entry₁ hv (by rw [e1]; exact hz) hk
  set s₂ := (s₁.clear (8 * v) PAGE_4K_SIZE).write entry₁ (tableEntry v) with hs₂
  have hword₂ : ∀ a, s₂.word a = if a = userRoot pgd then tableEntry v else
      if v ≤ a ∧ a < v + 512 then 0 else s₁.word a := by
    intro a
    show Function.update (fill s₁.word (8 * v / 8) (PAGE_4K_SIZE / 8) 0) (entry₁ / 8) _ a = _
    rw [e1, h8, hclear, Function.update_apply]
    rfl
  -- the second level
  obtain ⟨s₃, hk₃, hfr₃⟩ := OnMap.kmalloc (s := s₂) (h.congr rfl)
    (by rw [hword₂, if_neg (by omega), if_pos (by omega)])
  set entry₂ := 8 * v + getBits 0x40200000 PAGE_1G_SHIFT 9 * 8
  have hw₂ := walkLevel_made entry₂ hv
    (by rw [e2, hword₂, if_neg (by omega), if_pos (by omega)]) hk₃
  set s₄ := (s₃.clear (8 * v) PAGE_4K_SIZE).write entry₂ (tableEntry v) with hs₄
  have hword₄ : ∀ a, s₄.word a = if a = v + 1 then tableEntry v else
      if v ≤ a ∧ a < v + 512 then 0 else s₃.word a := by
    intro a
    show Function.update (fill s₃.word (8 * v / 8) (PAGE_4K_SIZE / 8) 0) (entry₂ / 8) _ a = _
    rw [e2, h8, hclear, Function.update_apply]
    rfl
  -- the third level finds the entry of the second
  have hw₃ := walkLevel_found (s := s₄) (t := v) (8 * v + getBits 0x40200000 PAGE_2M_SHIFT 9 * 8)
    (by rw [e3, hword₄, if_pos rfl]; exact hv.names) true
  refine ⟨s₄, ?_, ⟨?_, ?_, hv⟩, ?_⟩
  · have hwalk : walkTables 0x40200000 true [PAGE_GDT_SHIFT, PAGE_1G_SHIFT, PAGE_2M_SHIFT] s
        (phyToVirt pgd) = some (s₄, some (8 * v)) :=
      (walkTables_cons hw₁).trans ((walkTables_cons hw₂).trans (walkTables_cons hw₃))
    unfold Talios.walkPte
    dsimp only
    rw [show alignDown PAGE_4K_SIZE pgd = pgd from Nat.div_mul_cancel ha, hwalk,
      show getBits 0x40200000 PAGE_4K_SHIFT 9 = 0 by decide]
    simp only [Option.map_some, Nat.zero_mul, Nat.add_zero]
  · rw [hword₄, if_neg (by omega), if_neg (by omega), hfr₃ _ (by omega), hword₂, if_pos rfl]
  · rw [hword₄, if_pos rfl]
  · rw [hword₄, if_neg (by omega), if_pos (by omega)]

/-- A page fault at `0x40200000` that ends in one table for all levels. -/
theorem handlePageFault_looped {s s₁ : KMem} {mm : Lmm} {v n page : Nat} {m' : MMS} {vma : VmArea}
    (hc : pageFaultCheck mm 0x40200000 6 = .ok vma)
    (ha : allocPage4K s.mms ZONE_NORMAL_INDEX 1 PG_PTABLE_MAPPED = some (m', some page))
    (hphy : (m'.page page).phyAddr = page * PAGE_4K_SIZE)
    (hal : PAGE_4K_SIZE ∣ mm.pgd) (hv : DirectPage v)
    (hz : ({ s with mms := m' }.clear (phyToVirt (page * PAGE_4K_SIZE)) PAGE_4K_SIZE).word
      (userRoot mm.pgd) = 0)
    (hk : kmalloc ({ s with mms := m' }.clear (phyToVirt (page * PAGE_4K_SIZE)) PAGE_4K_SIZE)
      PAGE_4K_SIZE = some (s₁, some (8 * v)))
    (h : OnMap s₁ 7 (8 * v) (n + 1)) (hne : userRoot mm.pgd < v ∨ v + 512 ≤ userRoot mm.pgd) :
    ∃ s', handlePageFault s mm 0x40200000 6 = some (s', 0) ∧
      Looped s'.word (userRoot mm.pgd) v := by
  obtain ⟨s₂, hw, hloop, hz₂⟩ := OnMap.walkPte hal hv hz hk h hne
  have h8 : 8 * v / 8 = v := Nat.mul_div_cancel_left _ (by decide)
  have hdown : alignDown PAGE_4K_SIZE 0x40200000 = 0x40200000 := by decide
  set s₀ := { s with mms := m' }.clear (phyToVirt (page * PAGE_4K_SIZE)) PAGE_4K_SIZE with hs₀
  have hphy₀ : (s₀.mms.page page).phyAddr = page * PAGE_4K_SIZE := hphy
  have hmap : ∃ e, mapPage4K s₀ mm.pgd 0x40200000 (some page) (pteFlags vma)
      = some (s₂.write (8 * v) e, 0) := by
    unfold mapPage4K
    dsimp only
    rw [hphy₀, if_neg (by simp [PAGE_4K_SIZE, PAGE_4K_SHIFT]), hw]
    dsimp only
    rw [h8, hz₂, if_neg (by decide)]
    exact ⟨_, rfl⟩
  obtain ⟨e, hmap⟩ := hmap
  refine ⟨s₂.write (8 * v) e, ?_, ?_, ?_, hv⟩
  · unfold handlePageFault
    rw [hc]
    dsimp only
    rw [ha]
    dsimp only
    rw [hphy, hdown, hmap]
    dsimp only
    rw [if_neg (by simp)]
  · show Function.update s₂.word (8 * v / 8) e _ = _
    rw [h8, Function.update_of_ne (by omega)]
    exact hloop.top
  · show Function.update s₂.word (8 * v / 8) e _ = _
    rw [h8, Function.update_of_ne (by omega)]
    exact hloop.self

/-- With no page left in its class, a page fault in the example ends so. -/
theorem ExampleInv.fault {mem : KMem} {live : List Obj} {mm : Lmm} {vma : VmArea}
    (h : ExampleInv ⟨mem, live⟩) (hf : (mem.cache 7).totalFree = 0)
    (hf₂ : (mem.cache 2).totalFree ≠ 0) (hal : PAGE_4K_SIZE ∣ mm.pgd)
    (hpgd : (⟨8 * userRoot mm.pgd, PAGE_4K_SIZE⟩ : Obj) ∈ live)
    (hz : mem.word (userRoot mm.pgd) = 0) (hc : pageFaultCheck mm 0x40200000 6 = .ok vma) :
    ∃ s' v, handlePageFault mem mm 0x40200000 6 = some (s', 0) ∧
      Looped s'.word (userRoot mm.pgd) v := by
  have hd := directMap_init exampleImage
  have hheap : HeapInv _ _ mem (fun _ => 0) live := h.inv
  -- the frame, and the block the class grows by
  obtain ⟨m₁, f, zi, hzi, ha, hh, m₂, page, zj, hzj, ha₂, hh₂⟩ :=
    example_frame_block hheap h.tails PG_PTABLE_MAPPED
  obtain ⟨hheap₁, hframe, -⟩ := hheap.frameTaken hzi hh
  obtain ⟨-, -, hphy, -⟩ := hheap₁.toHeapCore.held hframe
  obtain ⟨hheap₂, hword⟩ := hheap₁.clear_frame hd hframe
  obtain ⟨s₀, hs₀⟩ : ∃ s₀, s₀ = { mem with mms := m₁ }.clear (phyToVirt (f * PAGE_4K_SIZE))
    PAGE_4K_SIZE := ⟨_, rfl⟩
  have hcache : s₀.cache = mem.cache := by rw [hs₀]; rfl
  have hmms : s₀.mms = m₁ := by rw [hs₀]; rfl
  have hshapes : s₀.shapes = mem.shapes := by unfold KMem.shapes; rw [hcache]
  rw [← hs₀] at hheap₂ hword
  have htails : ∀ i < KMALLOC_SLAB_SIZE, (s₀.shapes i).tail = [] := by
    rw [hshapes]
    exact h.tails
  rw [← hmms] at hzj ha₂ hh₂
  rw [← hshapes] at hh₂
  obtain ⟨v, hv⟩ : ∃ v, 8 * v = phyToVirt (page * PAGE_4K_SIZE) := by
    refine ⟨phyToVirt (page * PAGE_4K_SIZE) / 8, ?_⟩
    unfold phyToVirt PAGE_OFFSET PAGE_4K_SIZE PAGE_4K_SHIFT
    omega
  obtain ⟨s₁, hk, hmap⟩ := hheap₂.kmalloc_onMap hd.toPoolLayout (by decide) (by decide)
    (htails 7 (by decide)) (htails 2 (by decide)) (by rw [hcache]; exact hf)
    (by rw [hcache]; exact hf₂)
    (show PAGE_4K_SIZE ≤ kmallocSize 7 by decide) (by decide) hzj ha₂ hh₂ hv
  rw [show PAGE_2M_SIZE / kmallocSize 7 - 1 = 510 + 1 by decide] at hmap
  -- the table of the address space lies elsewhere
  have hheap₃ := hheap₂.pagesTaken hh₂
  have hself := mem_self page 9
  have hpage : UserFrame _ (fun x => 0 + ind f 0 x + ind page 9 x) page :=
    ⟨⟨zj, by rw [← hheap₂.layout.zonesCount]; exact hzj,
      (hheap₂.layout.has zj page).mp (hh₂.inside page hself)⟩, by
      show 0 < 0 + ind f 0 page + ind page 9 page
      rw [ind_eq_one hself]
      omega⟩
  have hdirect : DirectPage v := by
    have := (hpage.lt hd).2
    refine ⟨?_, ?_, ?_⟩
    · rw [hv]
      unfold phyToVirt PAGE_OFFSET PAGE_4K_SIZE PAGE_4K_SHIFT
      omega
    · rw [hv]
      unfold phyToVirt
      omega
    · rw [hv]
      unfold phyToVirt
      omega
  have hne : userRoot mm.pgd < v ∨ v + 512 ≤ userRoot mm.pgd := by
    by_contra hin
    refine (hheap₃.toHeapCore.held hpage).2.1 ?_
    have hfr := hheap₃.frame_of_object hd.toPoolLayout hpgd (PageObj.has (i := 0) (by decide))
    rw [show page4KIndex (virtToPhy (8 * (userRoot mm.pgd + 0))) = page by
      unfold phyToVirt PAGE_OFFSET PAGE_4K_SIZE PAGE_4K_SHIFT at hv
      unfold page4KIndex virtToPhy PAGE_OFFSET PAGE_4K_SIZE PAGE_4K_SHIFT
      omega] at hfr
    exact hfr
  have hz₀ : s₀.word (userRoot mm.pgd) = 0 := by
    have hw := hword _ hpgd _ (PageObj.has (i := 0) (by decide))
    rw [Nat.add_zero] at hw
    rw [hw]
    exact hz
  rw [hs₀] at hz₀ hk
  obtain ⟨s', he, hl⟩ := @handlePageFault_looped mem s₁ mm v 510 f m₁ vma hc ha hphy hal hdirect hz₀
    hk hmap hne
  exact ⟨s', v, he, hl⟩

theorem pageFaultCheck_example {mm : Lmm} {p : Nat} (hl : mm.listReady = true) (hp : mm.pgd ≠ 0) :
    ∃ v, pageFaultCheck { mm with vmaList := [mmapArea mm exampleArgs p 0x40200000 0x1000] }
      0x40200000 6 = .ok v := by
  have hstop : add64 0x40200000 0x1000 = 0x40201000 := by decide
  have hdown : alignDown PAGE_4K_SIZE 0x40200000 = 0x40200000 := by decide
  have hfind : findVma { mm with vmaList := [mmapArea mm exampleArgs p 0x40200000 0x1000] }
      0x40200000 = some (mmapArea mm exampleArgs p 0x40200000 0x1000) := by
    unfold findVma
    rw [if_pos hl, List.find?_cons_of_pos]
    simp only [mmapArea, hstop]
    decide
  refine ⟨mmapArea mm exampleArgs p 0x40200000 0x1000, ?_⟩
  unfold pageFaultCheck
  rw [if_neg (by rintro (h | h | h); exacts [hp h, absurd h (by decide), absurd h (by decide)])]
  dsimp only
  rw [hdown, hfind]
  dsimp only
  rw [if_neg, if_neg, if_neg]
  · show ¬ (!hasFlag exampleArgs.flags MAP_ANONYMOUS || exampleArgs.file.isSome) = true
    decide
  · show ¬ (!if faultBit 6 1 then hasFlag exampleArgs.prot PROT_WRITE else _) = true
    rw [if_pos (by decide)]
    decide
  · simp only [mmapArea, hstop]
    decide

/-- With all 512 objects of class 0x1000 in use, one `do_mmap` of one page and a page fault there
make the page's table, the tables above it and the page of `kmalloc` they lie in a page of the
user behind the area. -/
theorem space_incoherent : ¬ ∀ img k s₀ s, FreshSpace img k s₀ →
    SpaceReachable s₀ (fun _ _ => True) s → s.Coherent := by
  intro hall
  obtain ⟨k, hk⟩ := examplePages 512 le_rfl
  obtain ⟨q, hq, hlo, hfresh⟩ := hk.fresh (by decide)
  obtain ⟨-, mem', p, hs, hinv, h7, h2, hsh, hfr⟩ := hk.mmap ⟨64, virtToPhy q, 0, false, []⟩
  set mm := lmmInit ⟨64, virtToPhy q, 0, false, []⟩ with hmm
  have hd := directMap_init exampleImage
  have hheap : HeapInv _ _ k.mem (fun _ => 0) k.live := hk.inv.inv
  obtain ⟨h1, -, -⟩ := hheap.page_bounds hd hq rfl
  have hpgd : phyToVirt mm.pgd = q := Nat.sub_add_cancel hlo.le
  have hal : PAGE_4K_SIZE ∣ mm.pgd := by
    dsimp only at h1
    unfold phyToVirt PAGE_OFFSET at hpgd
    unfold PAGE_4K_SIZE PAGE_4K_SHIFT at *
    omega
  have hroot : 8 * userRoot mm.pgd = q := by
    unfold userRoot
    rw [hpgd]
    dsimp only at h1
    unfold PAGE_4K_SIZE PAGE_4K_SHIFT at h1
    omega
  have hz : mem'.word (userRoot mm.pgd) = 0 := by
    rw [hfr _ (hheap.not_mapWord hd.toPoolLayout hq ?_)]
    · have h0 := hfresh.empty 0 (by decide)
      rw [Nat.add_zero] at h0
      exact h0
    · rw [hroot]
      exact ⟨le_rfl, Nat.lt_add_of_pos_right (show 0 < PAGE_4K_SIZE by decide)⟩
  have hpgd0 : mm.pgd ≠ 0 := by
    intro h0
    rw [h0, phyToVirt] at hpgd
    omega
  obtain ⟨vma, hc⟩ := @pageFaultCheck_example mm p rfl hpgd0
  have hf₂ : (mem'.cache 2).totalFree ≠ 0 := by
    rw [h2, show PAGE_2M_SIZE / kmallocSize 2 = 16384 by decide]
    omega
  obtain ⟨s', v, he, hl⟩ := @ExampleInv.fault mem' _
    { mm with vmaList := [mmapArea mm exampleArgs p 0x40200000 0x1000] } vma hinv
    (by rw [h7, hk.free]) hf₂ hal (by rw [hroot]; exact List.mem_cons_of_mem _ hq) hz hc
  obtain ⟨f, ht⟩ := hl.translate hal
  have hr₁ : SpaceReachable _ (fun _ _ => True) _ := SpaceReachable.start.step trivial hs
  have hr := hr₁.step (e := .fault 0x40200000 6) trivial
    (show Space.step ⟨mem', _⟩ _ = some ⟨s', _⟩ by rw [Space.step, he]; rfl)
  obtain ⟨-, w, hw, -⟩ := (hall exampleImage k _ _ hfresh hr).area 0x40201000 (by decide) _ ht
  have hstop : add64 0x40200000 0x1000 = 0x40201000 := by decide
  simp [mmapArea, hstop] at hw

end Talios
