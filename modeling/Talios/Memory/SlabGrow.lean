import Talios.Memory.SlabFrame

set_option autoImplicit false

/-! # The class of pages grows

What `kmalloc` does when class `0x1000` has no free object, whatever the state of the class its
headers come from. The new slab has its bitmap on its first object, and that is the object handed
out (`HeapInv.kmalloc_grows`). Nothing that was in use before is changed, except the bitmaps.
-/

namespace Talios

open Word Bitmap Dyadic

/-- A frame of the heap or of another user of the page allocator. -/
def HeldFrame (m₀ : MMS) (s : KMem) (out : Nat → Nat) (x : Nat) : Prop :=
  HeapFrame m₀ s x ∨ UserFrame m₀ out x

/-- The frame of a word in the direct map. -/
def wordFrame (a : Nat) : Nat := page4KIndex (virtToPhy (8 * a))

/-- There is an object for the header of a slab, or a block of 2 MiB for its class. -/
def HasHeader (s : KMem) : Prop :=
  (s.cache 2).totalFree ≠ 0 ∨ ∃ mms page, allocPage s.mms ZONE_NORMAL_INDEX 1 0 = some (mms, some page)

/-- There is a block of 2 MiB for the class of pages, and then a header for the new slab. -/
def CanGrow (s : KMem) : Prop :=
  ∃ mms page, allocPage s.mms ZONE_NORMAL_INDEX 1 0 = some (mms, some page) ∧
    HasHeader { s with mms := mms }

section

variable {m₀ : MMS} {pool : Nat → Slab} {s : KMem} {out : Nat → Nat} {objs : List Obj}

/-- A block the page allocator hands out was no one's. -/
theorem HeapInv.not_held (h : HeapInv m₀ pool s out objs) {m' : MMS} {zi p : Nat}
    (hz : zi < s.mms.zonesCount)
    (hh : Handed s.mms m' (fun x => out x + grownCover s.shapes x) zi p 9) {x : Nat}
    (hx : Mem p 9 x) : ¬ HeldFrame m₀ s out x := by
  obtain ⟨hk, ho⟩ := (handed_page h.layout h.inv hz hh).1 x hx
  rintro ((hf | hf) | hf)
  · exact hk hf
  · omega
  · have := hf.out
    omega

/-- The words of a slab on a page. -/
theorem HeldPage.wordFrame {t : Slab} (h : HeldPage m₀ t) {a : Nat} (ha : t.Data (8 * a)) :
    Mem t.page 9 (wordFrame a) := h.frame_mem ha

/-- **The header of a new slab**: class 2 hands one out, grown or not, unless it cannot grow. -/
theorem HeapInv.kmalloc_header (hp : PoolLayout m₀ pool) (h : HeapInv m₀ pool s out objs) :
    (kmallocWith (fun _ _ => none) s SLAB_STRUCT_SIZE = some (s, none) ∧ ¬ HasHeader s) ∨
    ∃ s' addr, kmallocWith (fun _ _ => none) s SLAB_STRUCT_SIZE = some (s', some addr) ∧
      HasHeader s ∧ (∀ j < KMALLOC_SLAB_SIZE, (s'.cache j).size = kmallocSize j) ∧
      (∀ j ≠ 2, s'.cache j = s.cache j) ∧ SameLayout s.mms s'.mms ∧
      ∀ a, ¬ s.MapWord a → HeldFrame m₀ s out (wordFrame a) → s'.word a = s.word a := by
  have h2 : 2 < KMALLOC_SLAB_SIZE := by decide
  have hc := findClass_eq h.size h2 (show SLAB_STRUCT_SIZE ≤ kmallocSize 2 by decide) (by decide)
  by_cases hf : (s.cache 2).totalFree = 0
  · rcases allocPage_spec h.inv ZONE_NORMAL_INDEX 0 with ha' | ⟨m', p, zi, hz, ha', hh⟩
    · left
      constructor
      · unfold kmallocWith
        rw [if_neg (by decide), hc]
        dsimp only
        rw [if_pos hf, ha']
      · rintro (hne | ⟨m, q, hq⟩)
        · exact hne hf
        · rw [ha'] at hq
          simp at hq
    · right
      obtain ⟨hg, hjoin⟩ := h.grow hp (by decide : 2 < 5) hz hh
      have hfacts := smallFacts (by decide : 2 < 5) p (phyToVirt (p * PAGE_4K_SIZE))
      have hmem : newSlab 2 p ∈ ((growSmall { s with mms := m' } 2 p).cache 2).ring := by
        rw [hjoin.cache]
        exact mem_insertSlab.mpr (Or.inl rfl)
      obtain ⟨s', pre, t, post, j, htake, -, -⟩ := (hg.ledger hp).allocSlab h2
        ⟨newSlab 2 p, hmem, Nat.pos_iff_ne_zero.mp hfacts.pos⟩
      refine ⟨s', t.vaddress + j * kmallocSize 2, ?_, Or.inr ⟨m', p, ha'⟩, fun k hk => ?_,
        fun k hk => ?_, ?_, fun a ha hheld => ?_⟩
      · unfold kmallocWith
        rw [if_neg (by decide), hc]
        dsimp only
        rw [if_pos hf, ha']
        dsimp only
        rw [h.size 2 h2, if_pos (mem_smallSizes (by decide)), htake.alloc]
      · by_cases hk2 : k = 2
        · rw [hk2, htake.cache]
          exact hg.size 2 h2
        · rw [htake.others k hk2]
          exact hg.size k hk
      · rw [htake.others k hk]
        exact hjoin.others k hk
      · rw [htake.mms]
        exact hh.layout
      · -- the word is in no bitmap, the new one included
        have hnew : ¬ (newSlab 2 p).MapWord a := by
          intro hm
          obtain ⟨-, -, hzone⟩ := handed_page h.layout h.inv hz hh
          have hn := grownSlab_small (by decide : 2 < 5) hh.aligned hzone
            (fun x hx => ((handed_page h.layout h.inv hz hh).1 x hx).1)
          obtain ⟨h3, h4⟩ := mapWord_addr hn.colorMap_aligned hm
          exact h.not_held hz hh (hn.toHeldPage.wordFrame (hn.data_of_map h3 h4)) hheld
        rw [htake.frame a, hjoin.word a hnew]
        rintro ⟨i, hi, t', ht', hm⟩
        rcases hjoin.mem_shapes.mp ht' with ⟨rfl, rfl⟩ | ht'
        · exact hnew hm
        · exact ha ⟨i, hi, t', ht', hm⟩
  · right
    obtain ⟨s', pre, t, post, j, htake, -, -⟩ := (h.ledger hp).allocSlab h2
      ((h.toHeapCore.counts hp).exists_free h2 hf)
    refine ⟨s', t.vaddress + j * kmallocSize 2, ?_, Or.inl hf, fun k hk => ?_, htake.others, ?_,
      fun a ha _ => htake.frame a ha⟩
    · rw [kmalloc_eq_allocSlab (by decide) hc hf, htake.alloc]
    · by_cases hk2 : k = 2
      · rw [hk2, htake.cache]
        exact h.size 2 h2
      · rw [htake.others k hk2]
        exact h.size k hk
    · rw [htake.mms]
      exact SameLayout.refl _

end

end Talios
