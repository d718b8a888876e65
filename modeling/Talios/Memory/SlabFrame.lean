import Talios.Memory.SlabRun

set_option autoImplicit false

/-! # Who owns which memory

The heap's own data and its objects lie in the kernel's frames and in the blocks its classes have
grown by; the frames other users of the page allocator hold are none of these. So a store outside
the bitmaps keeps the heap invariant, and a frame can be handed to a user and taken back.
-/

namespace Talios

open Word Bitmap Dyadic

/-- The first slabs and all zones lie in the direct map. -/
structure DirectMap (m₀ : MMS) (pool : Nat → Slab) : Prop extends PoolLayout m₀ pool where
  upper : ∀ i < KMALLOC_SLAB_SIZE, (pool i).vaddress + PAGE_2M_SIZE ≤ PAGE_OFFSET + 2 ^ 47
  frames : ∀ zi < m₀.zonesCount, ∀ x, (m₀.zone zi).Has x → x < m₀.pagesCount
  count : m₀.pagesCount * PAGE_4K_SIZE ≤ 2 ^ 47

section

variable {m₀ : MMS} {pool : Nat → Slab} {s : KMem} {out : Nat → Nat} {objs : List Obj}

/-- The words of an object are no words of a bitmap. -/
theorem HeapInv.not_mapWord (hp : PoolLayout m₀ pool) (h : HeapInv m₀ pool s out objs) {b : Obj}
    (hb : b ∈ objs) {a : Nat} (ha : b.Has (8 * a)) : ¬ s.MapWord a := by
  rintro ⟨i, hi, t, ht, hm⟩
  exact h.not_meta hp hb ha hi ht (h.rings.meta_of_mapWord hp hi ht hm (by omega))

/-- The frames of the heap: kernel frames and the blocks classes have grown by. -/
def HeapFrame (m₀ : MMS) (s : KMem) (x : Nat) : Prop :=
  KernelFrame m₀ x ∨ 0 < grownCover s.shapes x

theorem HeapCore.frame_of_data (hp : PoolLayout m₀ pool) (h : HeapCore m₀ pool s out) {i : Nat}
    (hi : i < KMALLOC_SLAB_SIZE) {t : Slab} (ht : t ∈ s.shapes i) {a : Nat} (ha : t.Data a) :
    HeapFrame m₀ s (page4KIndex (virtToPhy a)) := by
  rcases h.rings.cases hi ht with rfl | ⟨htail, hg⟩
  · exact Or.inl (hp.dataFrames i hi a ha)
  · exact Or.inr (grownCover_pos hi htail (hg.frame_mem ha))

theorem HeapCore.frame_of_meta (hp : PoolLayout m₀ pool) (h : HeapCore m₀ pool s out) {i : Nat}
    (hi : i < KMALLOC_SLAB_SIZE) {t : Slab} (ht : t ∈ s.shapes i) {a : Nat} (ha : t.Meta a) :
    HeapFrame m₀ s (page4KIndex (virtToPhy a)) := by
  rcases h.rings.cases hi ht with rfl | ⟨htail, hg⟩
  · exact Or.inl (hp.metaFrames i hi a ha)
  · exact Or.inr (grownCover_pos hi htail (hg.frame_mem (hg.data_of_meta ha)))

theorem HeapInv.frame_of_object (hp : PoolLayout m₀ pool) (h : HeapInv m₀ pool s out objs)
    {b : Obj} (hb : b ∈ objs) {a : Nat} (ha : b.Has a) :
    HeapFrame m₀ s (page4KIndex (virtToPhy a)) := by
  obtain ⟨i, hi, t, ht, j, hj, hpe, hs, -⟩ := h.locate hb
  have hin := Obj.has_object hpe hs ha
  exact h.toHeapCore.frame_of_data hp hi ht ((h.toHeapCore.counts hp).object_data hi ht hj.1
    hin.1 hin.2)

/-- A frame another user of the page allocator holds. -/
structure UserFrame (m₀ : MMS) (out : Nat → Nat) (x : Nat) : Prop where
  zone : ∃ zi < m₀.zonesCount, (m₀.zone zi).Has x
  out : 0 < out x

/-- **A frame of another user** is no frame of the heap and on no free list. -/
theorem HeapCore.held (h : HeapCore m₀ pool s out) {x : Nat} (hx : UserFrame m₀ out x) :
    out x = 1 ∧ ¬ HeapFrame m₀ s x ∧ (s.mms.page x).phyAddr = x * PAGE_4K_SIZE ∧
      ∀ zi < s.mms.zonesCount, (s.mms.zone zi).Has x →
        cover MAX_ORDER (s.mms.zone zi).freeArea.family x = 0 := by
  obtain ⟨⟨zi, hz, hin⟩, hout⟩ := hx
  have hz' : zi < s.mms.zonesCount := by rw [h.layout.zonesCount]; exact hz
  have hin' := (h.layout.has zi x).mpr hin
  have hsplit := (h.inv zi hz').split x hin'
  refine ⟨by omega, ?_, (h.inv zi hz').layout.phyAddr x hin', fun zj hj hin'' => ?_⟩
  · rintro ((hk | hk) | hg)
    · rw [← (h.layout.pages x).1, (h.inv zi hz').layout.zoneStruct x hin'] at hk
      exact absurd hk (by simp)
    · rw [← (h.layout.pages x).2.2] at hk
      rw [Page.resv, if_pos hk] at hsplit
      omega
    · omega
  · have := (h.inv zj hj).split x hin''
    omega

/-- A page of 4 KiB is handed to another user, and its memory is cleared or not. -/
theorem HeapInv.frameTaken (h : HeapInv m₀ pool s out objs) {m' : MMS} {zi p : Nat}
    (hz : zi < s.mms.zonesCount)
    (hh : Handed s.mms m' (fun x => out x + grownCover s.shapes x) zi p 0) :
    HeapInv m₀ pool { s with mms := m' } (fun x => out x + ind p 0 x) objs ∧
      UserFrame m₀ (fun x => out x + ind p 0 x) p ∧ out p = 0 := by
  have hself := mem_self p 0
  have hin := hh.inside p hself
  have hcov := hh.free p hself
  have hsplit := (h.inv zi hz).split p hin
  refine ⟨h.pagesTaken hh, ⟨⟨zi, ?_, (h.layout.has zi p).mp hin⟩, ?_⟩, by omega⟩
  · rw [← h.layout.zonesCount]; exact hz
  · show 0 < out p + ind p 0 p
    rw [ind_eq_one hself]
    omega

/-- A block comes back from another user. -/
theorem HeapInv.pagesGiven (h : HeapInv m₀ pool s out objs) {p zi number : Nat}
    (hz : zi < m₀.zonesCount) (ho : getOrder number < MAX_ORDER) (ha : 2 ^ getOrder number ∣ p)
    (hin : ∀ x, Mem p (getOrder number) x → (m₀.zone zi).Has x)
    (hout : ∀ x, ind p (getOrder number) x ≤ out x) :
    ∃ m', freePages s.mms p number = some (m', true) ∧
      HeapInv m₀ pool { s with mms := m' } (fun x => out x - ind p (getOrder number) x) objs := by
  obtain ⟨m', he, hl, hinv⟩ := freePages_spec h.inv
    (show zi < _ by rw [h.layout.zonesCount]; exact hz) ho ha
    (fun x hx => (h.layout.has zi x).mpr (hin x hx))
    (fun x => (hout x).trans (Nat.le_add_right _ _))
  refine ⟨m', he, ⟨h.layout.trans hl, ?_, h.size, h.rings, h.slabs, h.totalFree, h.totalUse⟩,
    h.nodup, h.ptrs, h.room⟩
  have hcov : (fun x => out x - ind p (getOrder number) x + grownCover s.shapes x)
      = fun x => out x + grownCover s.shapes x - ind p (getOrder number) x := by
    funext x
    have := hout x
    omega
  show m'.Inv (fun x => out x - ind p (getOrder number) x + grownCover s.shapes x)
  rw [hcov]
  exact hinv

/-- A page of 4 KiB comes back from another user. -/
theorem HeapInv.frameGiven (h : HeapInv m₀ pool s out objs) {p : Nat} (hp : UserFrame m₀ out p) :
    ∃ m', freePage4K s.mms p 1 = some (m', true) ∧
      HeapInv m₀ pool { s with mms := m' } (fun x => out x - ind p 0 x) objs := by
  obtain ⟨⟨zi, hz, hin⟩, hout⟩ := hp
  have h' := h.pagesGiven (p := p) hz (by rw [getOrder_page]; decide) (by rw [getOrder_page]; simp)
    (fun x hx => by rw [getOrder_page] at hx; rw [mem_zero.mp hx]; exact hin)
    (fun x => by
      rw [getOrder_page, ind_zero]
      split
      · rename_i hx
        rw [hx]
        exact hout
      · exact Nat.zero_le _)
  rw [getOrder_page] at h'
  exact h'

end

/-- What `InitMemory` builds lies in the direct map. -/
theorem directMap_init (img : KernelImage) :
    DirectMap (reservedMMS img.map (kernelReservations img.endStruct))
      (cachePool img.endStruct) := by
  have hz := sameZones_reservedMMS img.map (kernelReservations img.endStruct)
  refine ⟨poolLayout_init img, fun i hi => ?_, fun zi hzi x hx => ?_, ?_⟩
  · have h1 := (poolPage_bounds (e := img.endStruct) hi).2
    have h2 := img.upper
    show poolPage img.endStruct i + PAGE_2M_SIZE ≤ _
    omega
  · -- beyond `pagesCount` there are no zones
    rw [hz.pagesCount, pagesCount_initZones]
    by_contra hge
    rw [hz.zonesCount] at hzi
    have hl := (counted_reservedMMS img.map []).layout zi hzi
    have hs := hl.zoneStruct x ((hz.has zi x).mp hx)
    have hs' : ((initZones img.map).page x).zoneStruct = some zi := hs
    rcases kernelFrame_initZones img.map (Nat.le_of_not_lt hge) with hk | hk
    · rw [hs'] at hk
      exact absurd hk (by simp)
    · rw [reserved_initZones] at hk
      exact absurd hk (by simp)
  · rw [hz.pagesCount, pagesCount_initZones]
    exact img.direct

end Talios
