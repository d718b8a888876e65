import Talios.Memory.SlabStep

set_option autoImplicit false

/-! # `kmalloc` and `kfree`

The specification of the two calls on a heap that satisfies its invariant, for a `kmalloc` with
room (`HeapRoom`) and a `kfree` of an object handed out.
-/

namespace Talios

open Word Bitmap Dyadic

section

variable {m₀ : MMS} {pool : Nat → Slab} {s : KMem} {out : Nat → Nat} {objs : List Obj} {i : Nat}

/-! ## Other users of the page allocator -/

/-- Another user of the page allocator is handed a block. -/
theorem HeapInv.pagesTaken (h : HeapInv m₀ pool s out objs) {m' : MMS} {zi p k : Nat}
    (hh : Handed s.mms m' (fun x => out x + grownCover s.shapes x) zi p k) :
    HeapInv m₀ pool { s with mms := m' } (fun x => out x + ind p k x) objs := by
  refine ⟨⟨h.layout.trans hh.layout, ?_, h.size, h.rings, h.slabs, h.totalFree, h.totalUse⟩,
    h.nodup, h.ptrs, h.room⟩
  have hcov : (fun x => out x + ind p k x + grownCover s.shapes x)
      = fun x => out x + grownCover s.shapes x + ind p k x := by
    funext x
    omega
  show m'.Inv (fun x => out x + ind p k x + grownCover s.shapes x)
  rw [hcov]
  exact hh.inv

/-! ## Allocation -/

/-- A class up to 0x200 bytes without a free object grows and hands out the first object of the
new slab. -/
theorem HeapInv.allocSlab_grown (hp : PoolLayout m₀ pool) (h : HeapInv m₀ pool s out objs)
    (hi : i < 5) {size : Nat} (hsize : size ≤ kmallocSize i) (hf : (s.cache i).totalFree = 0)
    {m' : MMS} {zi p : Nat} (hz : zi < s.mms.zonesCount)
    (hh : Handed s.mms m' (fun x => out x + grownCover s.shapes x) zi p 9) :
    ∃ s' q, Talios.allocSlab (growSmall { s with mms := m' } i p) i = (s', some q) ∧
      HeapInv m₀ pool s' out (⟨q, size⟩ :: objs) ∧
      ∀ a, ¬ s'.MapWord a → s'.word a = s.word a := by
  have hi' := five_lt hi
  obtain ⟨hg, hjoin⟩ := h.grow hp hi hz hh
  have hfacts := smallFacts hi p (phyToVirt (p * PAGE_4K_SIZE))
  have hcounts : Counts { s with mms := m' } := ((h.ledger hp).setMms m').toCounts
  have hmem : newSlab i p ∈ ((growSmall { s with mms := m' } i p).cache i).ring := by
    rw [hjoin.cache]
    exact mem_insertSlab.mpr (Or.inl rfl)
  obtain ⟨s', q, he, hinv, hsh, hfr⟩ := hg.allocSlab hp hi'
    ⟨newSlab i p, hmem, Nat.pos_iff_ne_zero.mp hfacts.pos⟩ hsize (by
    intro pre t post j hr hpre htf hj hb hlt htail
    -- the new slab is all free, so its first object is taken
    obtain ⟨-, rfl⟩ := hjoin.first_of_least hcounts hi' hf hfacts.pos (by rw [hr]; simp) htf hlt
    have := hfacts.first
    omega)
  refine ⟨s', q, he, hinv, fun a ha => ?_⟩
  have hs : s'.MapWord a ↔ (growSmall { s with mms := m' } i p).MapWord a := by
    unfold KMem.MapWord; rw [hsh]
  rw [hfr a (fun hm => ha (hs.mpr hm))]
  exact hjoin.word a (fun hm => ha (hs.mpr ⟨i, hi', (newSlab i p).shape, shape_mem hmem, hm⟩))

/-- **`kmalloc` with room** returns null and changes nothing, or hands out an object. -/
theorem kmalloc_spec (hp : PoolLayout m₀ pool) (h : HeapInv m₀ pool s out objs) {size : Nat}
    (hroom : HeapRoom s size) :
    kmalloc s size = some (s, none) ∨
    ∃ s' p, kmalloc s size = some (s', some p) ∧ HeapInv m₀ pool s' out (⟨p, size⟩ :: objs) ∧
      ∀ a, ¬ s.MapWord a → ¬ s'.MapWord a → s'.word a = s.word a := by
  unfold kmalloc kmallocWith
  by_cases hbig : 0x100000 < size
  · rw [if_pos hbig]
    exact Or.inl rfl
  rw [if_neg hbig]
  obtain ⟨i, hi, hc, hsize, hmin⟩ := findClass_spec h.size (Nat.le_of_not_lt hbig)
  rw [hc]
  dsimp only
  by_cases hf : (s.cache i).totalFree = 0
  · rw [if_pos hf]
    rcases allocPage_spec h.inv ZONE_NORMAL_INDEX 0 with he | ⟨m', p, zi, hz, he, hh⟩
    · left
      rw [he]
    · rw [he]
      dsimp only
      -- a class above 0x200 bytes cannot grow here
      have hi5 : i < 5 := by
        by_contra hge
        have h4 := hmin 4 (by omega)
        exact (hroom i hc).1 hf h4 m' p he
      rw [h.size i hi, if_pos (mem_smallSizes hi5)]
      obtain ⟨s', q, he', hinv, hfr⟩ := h.allocSlab_grown hp hi5 hsize hf hz hh
      exact Or.inr ⟨s', q, by rw [he'], hinv, fun a _ ha => hfr a ha⟩
  · rw [if_neg hf]
    obtain ⟨s', q, he', hinv, -, hfr⟩ := h.allocSlab hp hi ((h.toHeapCore.counts hp).exists_free hi hf) hsize
      (fun pre t post j hr hpre htf hj hb hlt htail =>
        h.room_of_heapRoom hi hsize hc hroom hr hpre htf hj hb hlt htail)
    exact Or.inr ⟨s', q, by rw [he'], hinv, fun a ha _ => hfr a ha⟩

/-- A call that has handed out an object. -/
theorem kmalloc_some (hp : PoolLayout m₀ pool) (h : HeapInv m₀ pool s out objs) {size p : Nat}
    (hroom : HeapRoom s size) {s' : KMem} (he : kmalloc s size = some (s', some p)) :
    HeapInv m₀ pool s' out (⟨p, size⟩ :: objs) := by
  rcases kmalloc_spec hp h hroom with he' | ⟨s₁, q, he', hinv, -⟩
  · exact absurd (he.symm.trans he') (by simp)
  · obtain ⟨rfl, hq⟩ := Prod.mk.inj (Option.some.inj (he.symm.trans he'))
    obtain rfl := Option.some.inj hq
    exact hinv

/-- A call that has returned null has changed nothing. -/
theorem kmalloc_none (hp : PoolLayout m₀ pool) (h : HeapInv m₀ pool s out objs) {size : Nat}
    (hroom : HeapRoom s size) {s' : KMem} (he : kmalloc s size = some (s', none)) : s' = s := by
  rcases kmalloc_spec hp h hroom with he' | ⟨s₁, q, he', -⟩
  · exact (Prod.mk.inj (Option.some.inj (he.symm.trans he'))).1
  · exact absurd (he.symm.trans he') (by simp)

/-! ## Freeing -/

theorem mem_map_erase {b : Obj} (hb : b ∈ objs) (hnd : (objs.map Obj.ptr).Nodup) (p : Nat) :
    (p ∈ (objs.erase b).map Obj.ptr ↔ p ∈ objs.map Obj.ptr ∧ p ≠ b.ptr) ∧
      ((objs.erase b).map Obj.ptr).Nodup := by
  have hperm := (List.perm_cons_erase hb).map Obj.ptr
  rw [List.map_cons] at hperm
  have hnd' := hperm.nodup_iff.mp hnd
  refine ⟨?_, (List.nodup_cons.mp hnd').2⟩
  rw [hperm.mem_iff, List.mem_cons]
  constructor
  · intro hp
    exact ⟨Or.inr hp, fun he => (List.nodup_cons.mp hnd').1 (he ▸ hp)⟩
  · rintro ⟨rfl | hp, hne⟩
    · exact absurd rfl hne
    · exact hp

/-- The object at `b.ptr` is marked free. -/
theorem HeapInv.release (hp : PoolLayout m₀ pool) (h : HeapInv m₀ pool s out objs) {b : Obj}
    (hb : b ∈ objs) : ∃ i < KMALLOC_SLAB_SIZE, ∃ pre t post,
      (s.cache i).ring = pre ++ t :: post ∧
      findOwner s (alignDown PAGE_2M_SIZE b.ptr) KMALLOC_SLAB_SIZE 0 = some (i, t) ∧
      ((releaseObject s i t b.ptr).cache i).ring = pre ++ t.give :: post ∧
      HeapInv m₀ pool (releaseObject s i t b.ptr) out (objs.erase b) ∧
      (releaseObject s i t b.ptr).shapes = s.shapes ∧
      ∀ a, ¬ s.MapWord a → (releaseObject s i t b.ptr).word a = s.word a := by
  obtain ⟨i, hi, u, hu, j, hj, hpe⟩ := (h.ptrs b.ptr).mp (List.mem_map_of_mem hb)
  obtain ⟨t, htm, rfl, -⟩ := (h.toHeapCore.counts hp).shape_ok hi hu
  obtain ⟨pre, post, hr⟩ := List.append_of_mem htm
  have hstart : t.vaddress + j * kmallocSize i ≤ b.ptr ∧
      b.ptr < t.vaddress + (j + 1) * kmallocSize i := by
    rw [show b.ptr = t.vaddress + j * kmallocSize i from hpe]
    exact object_start t.vaddress j i
  obtain ⟨hfind, hoff⟩ := (h.ledger hp).findOwner hi htm hj hstart
  obtain ⟨hgive, hledger⟩ := (h.ledger hp).release hi hr hj hoff
  refine ⟨i, hi, pre, t, post, hr, hfind, by rw [hgive.cache], ⟨⟨by rw [hgive.mms]; exact h.layout, ?_,
    hledger.size, ?_, hledger.slabs, hledger.totalFree, hledger.totalUse⟩,
    (mem_map_erase hb h.nodup 0).2, fun p => ?_, fun c hc i' hi' v hv k hk hpc => ?_⟩, hgive.shapes,
    hgive.frame⟩
  · rw [hgive.mms, hgive.shapes]
    exact h.inv
  · rw [hgive.shapes]
    exact h.rings
  · rw [(mem_map_erase hb h.nodup p).1, ← hledger.ptrs p, h.nodup.mem_erase_iff, hpe, and_comm]
    rfl
  · rw [hgive.shapes] at hv ⊢
    exact h.room c (List.mem_of_mem_erase hc) i' hi' v hv k ((hgive.taken i' hi' v hv k).mp hk).1 hpc

/-- A slab without objects that is not `CachePool` leaves its class. -/
theorem HeapInv.drop (hp : PoolLayout m₀ pool) (h : HeapInv m₀ pool s out objs)
    (hi : i < KMALLOC_SLAB_SIZE) {cp : Slab} {pre post : List Slab} {t : Slab}
    (hr : (s.cache i).ring = cp :: pre ++ t :: post) (hu : t.usingCount = 0) (use : Nat)
    (huse : use = 0) :
    ∃ s', dropSlab s i t use = some s' ∧ HeapInv m₀ pool s' out objs ∧ s'.word = s.word ∧
      ∀ j, (s'.shapes j).Sublist (s.shapes j) := by
  subst huse
  have htail : t.shape ∈ (s.shapes i).tail := by rw [KMem.shapes, hr]; simp
  have hi5 := (h.rings.grown_of_tail hi htail).small
  obtain ⟨s', hdrop, hw, hsub, -, hacc⟩ := (h.account hp).drop hi hr hu
  rw [if_pos hi5] at hacc
  refine ⟨s', hdrop, hacc.heapInv (fun j h5 hj => ?_) (fun b hb j hj u hu' k hk hpe => ?_), hw, hsub⟩
  · have hnil := (hsub j).tail
    rw [h.tail_eq_nil h5 hj] at hnil
    exact List.sublist_nil.mp hnil
  · rw [hw] at hk
    obtain ⟨h1, h2⟩ := h.room b hb j hj u ((hsub j).mem hu') k hk hpe
    exact ⟨h1, fun ht => h2 ((hsub j).tail.mem ht)⟩

/-- **`kfree` of an object handed out** returns 1 and takes it back. -/
theorem kfree_spec (hp : PoolLayout m₀ pool) (h : HeapInv m₀ pool s out objs) {b : Obj}
    (hb : b ∈ objs) :
    ∃ s', kfree s b.ptr = some (s', true) ∧ HeapInv m₀ pool s' out (objs.erase b) ∧
      (∀ a, ¬ s.MapWord a → s'.word a = s.word a) ∧ ∀ j, (s'.shapes j).Sublist (s.shapes j) := by
  obtain ⟨i, hi, pre, t, post, hr, hfind, hring, hinv, hsh, hword⟩ := h.release hp hb
  unfold kfree kfreeWith
  rw [hfind]
  dsimp only
  split
  · exact ⟨_, rfl, hinv, hword, fun j => by rw [hsh]⟩
  · rename_i hkeep
    push Not at hkeep
    obtain ⟨hu, -, hne⟩ := hkeep
    -- the slab is not `CachePool`, so the class has grown by it
    obtain ⟨cp, pre', rfl⟩ := exists_cons_of_head_ne hring hne
    have htail : t.shape ∈ (s.shapes i).tail := by rw [KMem.shapes, hr]; simp
    have hi5 := (h.rings.grown_of_tail hi htail).small
    rw [h.size i hi, if_pos (mem_smallSizes hi5)]
    obtain ⟨s', he, hinv', hw, hsub⟩ := hinv.drop hp hi hring hu t.give.usingCount hu
    exact ⟨s', by rw [he]; rfl, hinv', fun a ha => by rw [hw]; exact hword a ha,
      fun j => hsh ▸ hsub j⟩

end

end Talios
