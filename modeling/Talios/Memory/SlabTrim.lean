import Talios.Memory.SlabFrame

set_option autoImplicit false

/-! # The heap without its astray slabs

A slab by which a class above 0x200 bytes has grown has its bitmap on its first object, so whoever
holds that object overwrites it: nothing can be said of such a bitmap. `KMem.trim` is the heap without
these slabs. `Parted` says that it satisfies the heap invariant, with the headers of the slabs left out
among its objects and their pages held by another user of the page allocator. What the slabs left out
keep are their pages and their counters. `Parted` holds of every state in which no header has been
written over.
-/

namespace Talios

open Word Bitmap Dyadic

/-! ## Trimming -/

/-- A class without the slabs by which it has grown. -/
def SlabCache.trim (c : SlabCache) : SlabCache := { c with
  totalFree := ((c.ring.take 1).map Slab.freeCount).sum
  totalUse := ((c.ring.take 1).map Slab.usingCount).sum
  ring := c.ring.take 1 }

/-- The heap without the slabs by which classes above 0x200 bytes have grown. -/
def KMem.trim (s : KMem) : KMem := { s with
  cache := fun i => if i < 5 then s.cache i else (s.cache i).trim }

section

variable {s : KMem} {i : Nat}

theorem trim_cache_small (hi : i < 5) : s.trim.cache i = s.cache i := if_pos hi

theorem trim_cache_large (h5 : 5 ≤ i) : s.trim.cache i = (s.cache i).trim :=
  if_neg (Nat.not_lt.mpr h5)

theorem trim_size (s : KMem) (i : Nat) : (s.trim.cache i).size = (s.cache i).size := by
  rcases Nat.lt_or_ge i 5 with hi | h5
  · rw [trim_cache_small hi]
  · rw [trim_cache_large h5]
    rfl

theorem findClass_trim (s : KMem) (size : Nat) : ∀ fuel i : Nat,
    findClass s.trim size fuel i = findClass s size fuel i := by
  intro fuel
  induction fuel with
  | zero => exact fun _ => rfl
  | succ fuel ih =>
      intro i
      rw [findClass, findClass, trim_size, ih]

theorem trim_setCache_small (s : KMem) (hi : i < 5) (c : SlabCache) :
    (s.setCache i c).trim = s.trim.setCache i c := by
  have hcache : (s.setCache i c).trim.cache = (s.trim.setCache i c).cache := by
    funext j
    by_cases hj : j = i
    · rw [hj, trim_cache_small hi, setCache_cache_self, setCache_cache_self]
    · rw [setCache_cache_ne _ hj]
      show (if j < 5 then (s.setCache i c).cache j else ((s.setCache i c).cache j).trim) = _
      rw [setCache_cache_ne _ hj]
      rfl
  exact congrArg (KMem.mk s.mms s.word) hcache

theorem trim_setCache_large (s : KMem) (h5 : 5 ≤ i) (c : SlabCache) :
    (s.setCache i c).trim = s.trim.setCache i c.trim := by
  have hcache : (s.setCache i c).trim.cache = (s.trim.setCache i c.trim).cache := by
    funext j
    by_cases hj : j = i
    · rw [hj, trim_cache_large h5, setCache_cache_self, setCache_cache_self]
    · rw [setCache_cache_ne _ hj]
      show (if j < 5 then (s.setCache i c).cache j else ((s.setCache i c).cache j).trim) = _
      rw [setCache_cache_ne _ hj]
      rfl
  exact congrArg (KMem.mk s.mms s.word) hcache

/-! ## Calls on the small classes -/

/-- On a class up to 0x200 bytes `AllocSlab` does not see the difference. -/
theorem allocSlab_trim (s : KMem) (hi : i < 5) :
    allocSlab s.trim i = ((allocSlab s i).1.trim, (allocSlab s i).2) := by
  unfold allocSlab
  rw [trim_cache_small hi]
  dsimp only
  rw [show s.trim.word = s.word from rfl]
  split
  · rw [trim_setCache_small _ hi]
    rfl
  · rfl

theorem growSmall_trim (s : KMem) (hi : i < 5) (page : Nat) :
    growSmall s.trim i page = (growSmall s i page).trim := by
  unfold growSmall KMem.addSlab
  dsimp only
  rw [trim_cache_small hi, trim_setCache_small _ hi]
  rfl

/-- **`kmalloc` from a class up to 0x200 bytes** does not see the difference. -/
theorem kmallocWith_trim {size : Nat} (hc : findClass s size KMALLOC_SLAB_SIZE 0 = some i) (hi : i < 5)
    (hs : (s.cache i).size = kmallocSize i)
    (nested nested' : KMem → Nat → Option (KMem × Option Nat)) :
    kmallocWith nested s.trim size
      = (kmallocWith nested' s size).map (fun r => (r.1.trim, r.2)) := by
  unfold kmallocWith
  rw [findClass_trim, hc]
  dsimp only
  rw [trim_cache_small hi, hs, show s.trim.mms = s.mms from rfl]
  by_cases hbig : 0x100000 < size
  · rw [if_pos hbig, if_pos hbig]
    rfl
  rw [if_neg hbig, if_neg hbig]
  by_cases hf : (s.cache i).totalFree = 0
  · rw [if_pos hf, if_pos hf]
    cases allocPage s.mms ZONE_NORMAL_INDEX 1 0 with
    | none => rfl
    | some r =>
        rcases r with ⟨mms, _ | page⟩
        · rfl
        · dsimp only
          rw [if_pos (mem_smallSizes hi), if_pos (mem_smallSizes hi)]
          have hg := growSmall_trim { s with mms := mms } hi page
          have ha := allocSlab_trim (growSmall { s with mms := mms } i page) hi
          rw [← hg] at ha
          exact congrArg some ha
  · rw [if_neg hf, if_neg hf]
    exact congrArg some (allocSlab_trim s hi)

end

end Talios
