import Talios.Memory.SlabInvariant

set_option autoImplicit false

/-! # The books of the kernel heap

What `kmalloc` and `kfree` keep in order whatever lies behind the pages: the counters of slabs and
classes, the bitmaps, and the objects handed out. `Ledger` says that they agree. It asks of the slabs
only that no two have a page or a word of a bitmap in common, so that it holds for classes of all
sizes. Each part of a call has one lemma here: an object is taken, an object is given back, a slab joins
a class, a slab leaves it.
-/

namespace Talios

open Word Bitmap

/-! ## Rings -/

/-- The rings without the counters of their slabs. -/
def KMem.shapes (s : KMem) (i : Nat) : List Slab := (s.cache i).ring.map Slab.shape

/-- Word `a` belongs to the bitmap of a slab of some ring. -/
def KMem.MapWord (s : KMem) (a : Nat) : Prop :=
  ∃ i < KMALLOC_SLAB_SIZE, ∃ t ∈ s.shapes i, t.MapWord a

/-- No two slabs have a page or a word of a bitmap in common, and no two of a class their address. -/
structure RingsApart (ring : Nat → List Slab) : Prop where
  pages : ∀ i < KMALLOC_SLAB_SIZE, ∀ j < KMALLOC_SLAB_SIZE, ∀ t ∈ ring i, ∀ u ∈ ring j,
    t.vaddress = u.vaddress → i = j
  nodup : ∀ i < KMALLOC_SLAB_SIZE, ((ring i).map Slab.vaddress).Nodup
  maps : ∀ i < KMALLOC_SLAB_SIZE, ∀ j < KMALLOC_SLAB_SIZE, ∀ t ∈ ring i, ∀ u ∈ ring j, ∀ a,
    t.MapWord a → u.MapWord a → i = j ∧ t = u
  addrs : ∀ i < KMALLOC_SLAB_SIZE, ((ring i).map Slab.addr).Nodup

/-- The counters of all classes agree with the bitmaps. -/
structure Counts (s : KMem) : Prop where
  size : ∀ i < KMALLOC_SLAB_SIZE, (s.cache i).size = kmallocSize i
  apart : RingsApart s.shapes
  slabs : ∀ i < KMALLOC_SLAB_SIZE, ∀ t ∈ (s.cache i).ring, SlabOk s.word (kmallocSize i) t
  totalFree : ∀ i < KMALLOC_SLAB_SIZE,
    (s.cache i).totalFree = ((s.cache i).ring.map Slab.freeCount).sum
  totalUse : ∀ i < KMALLOC_SLAB_SIZE,
    (s.cache i).totalUse = ((s.cache i).ring.map Slab.usingCount).sum

/-- And the bits set are the objects at the addresses `ptrs`. -/
structure Ledger (s : KMem) (ptrs : List Nat) : Prop extends Counts s where
  ptrsNodup : ptrs.Nodup
  ptrs : ∀ p, p ∈ ptrs ↔ ∃ i < KMALLOC_SLAB_SIZE, ∃ t ∈ s.shapes i, ∃ j,
    t.Taken s.word j ∧ p = t.vaddress + j * kmallocSize i

section

variable {s : KMem} {ptrs : List Nat} {ring : Nat → List Slab} {i j : Nat} {t t' u : Slab}

theorem shape_mem (ht : t ∈ (s.cache i).ring) : t.shape ∈ s.shapes i := List.mem_map_of_mem ht

@[simp] theorem setCache_cache_self (s : KMem) (i : Nat) (c : SlabCache) :
    (s.setCache i c).cache i = c := Function.update_self ..

theorem setCache_cache_ne (s : KMem) {i j : Nat} (h : j ≠ i) (c : SlabCache) :
    (s.setCache i c).cache j = s.cache j := Function.update_of_ne h ..

theorem shapes_setCache (s : KMem) (i : Nat) (c : SlabCache) :
    (s.setCache i c).shapes = Function.update s.shapes i (c.ring.map Slab.shape) := by
  funext j
  by_cases h : j = i
  · subst h; simp [KMem.shapes]
  · simp [KMem.shapes, setCache_cache_ne s h, h]

theorem RingsApart.eq_of_vaddress (h : RingsApart ring) (hi : i < KMALLOC_SLAB_SIZE)
    (hj : j < KMALLOC_SLAB_SIZE) (ht : t ∈ ring i) (hu : u ∈ ring j)
    (hv : t.vaddress = u.vaddress) : i = j ∧ t = u := by
  obtain rfl := h.pages i hi j hj t ht u hu hv
  exact ⟨rfl, List.inj_on_of_nodup_map (h.nodup i hi) ht hu hv⟩

/-! ## Objects -/

/-- A slab of a ring, its counters left out. -/
theorem Counts.shape_ok (h : Counts s) (hi : i < KMALLOC_SLAB_SIZE) (ht : t ∈ s.shapes i) :
    ∃ r ∈ (s.cache i).ring, t = r.shape ∧ SlabOk s.word (kmallocSize i) r := by
  obtain ⟨r, hr, rfl⟩ := List.mem_map.mp ht
  exact ⟨r, hr, rfl, h.slabs i hi r hr⟩

/-- The pages of two slabs do not meet. -/
theorem Counts.eq_of_data (h : Counts s) (hi : i < KMALLOC_SLAB_SIZE) (hj : j < KMALLOC_SLAB_SIZE)
    (ht : t ∈ s.shapes i) (hu : u ∈ s.shapes j) {a : Nat} (ha : t.Data a) (ha' : u.Data a) :
    i = j ∧ t = u := by
  refine h.apart.eq_of_vaddress hi hj ht hu ?_
  obtain ⟨r, -, rfl, hr⟩ := h.shape_ok hi ht
  obtain ⟨r', -, rfl, hr'⟩ := h.shape_ok hj hu
  have h1 : PAGE_2M_SIZE ∣ r.shape.vaddress := hr.page
  have h2 : PAGE_2M_SIZE ∣ r'.shape.vaddress := hr'.page
  unfold Slab.Data PAGE_2M_SIZE PAGE_2M_SHIFT at *
  omega

/-- An object lies in the page of its slab. -/
theorem Counts.object_data (h : Counts s) (hi : i < KMALLOC_SLAB_SIZE) (ht : t ∈ s.shapes i)
    {k a : Nat} (hk : k < t.colorCount) (ha : t.vaddress + k * kmallocSize i ≤ a)
    (ha' : a < t.vaddress + (k + 1) * kmallocSize i) : t.Data a := by
  obtain ⟨r, -, rfl, hok⟩ := h.shape_ok hi ht
  have h1 : r.colorCount * kmallocSize i ≤ PAGE_2M_SIZE := hok.objects
  have h2 : (k + 1) * kmallocSize i ≤ r.colorCount * kmallocSize i := Nat.mul_le_mul_right _ hk
  exact ⟨by omega, by omega⟩

/-- An address belongs to one object at most. -/
theorem Counts.object_unique (h : Counts s) {i' : Nat} (hi : i < KMALLOC_SLAB_SIZE)
    (hi' : i' < KMALLOC_SLAB_SIZE) (ht : t ∈ s.shapes i) (hu : u ∈ s.shapes i') {k l a : Nat}
    (hk : k < t.colorCount) (hl : l < u.colorCount)
    (ha : t.vaddress + k * kmallocSize i ≤ a ∧ a < t.vaddress + (k + 1) * kmallocSize i)
    (ha' : u.vaddress + l * kmallocSize i' ≤ a ∧ a < u.vaddress + (l + 1) * kmallocSize i') :
    i = i' ∧ t = u ∧ k = l := by
  obtain ⟨rfl, rfl⟩ := h.eq_of_data hi hi' ht hu (h.object_data hi ht hk ha.1 ha.2)
    (h.object_data hi' hu hl ha'.1 ha'.2)
  refine ⟨rfl, rfl, ?_⟩
  have h1 : k < l + 1 := Nat.lt_of_mul_lt_mul_right (a := kmallocSize i) (by omega)
  have h2 : l < k + 1 := Nat.lt_of_mul_lt_mul_right (a := kmallocSize i) (by omega)
  omega

theorem object_start (v j i : Nat) :
    v + j * kmallocSize i ≤ v + j * kmallocSize i ∧
      v + j * kmallocSize i < v + (j + 1) * kmallocSize i := by
  have := kmallocSize_pos i
  rw [Nat.add_mul]
  omega

/-- An address is the start of one object at most. -/
theorem Counts.object_eq (h : Counts s) {i' : Nat} (hi : i < KMALLOC_SLAB_SIZE)
    (hi' : i' < KMALLOC_SLAB_SIZE) (ht : t ∈ s.shapes i) (hu : u ∈ s.shapes i') {k l : Nat}
    (hk : k < t.colorCount) (hl : l < u.colorCount)
    (he : t.vaddress + k * kmallocSize i = u.vaddress + l * kmallocSize i') :
    i = i' ∧ t = u ∧ k = l :=
  h.object_unique hi hi' ht hu hk hl (object_start t.vaddress k i)
    (he ▸ object_start u.vaddress l i')

/-- The order of the addresses does not matter. -/
theorem Ledger.perm {ptrs' : List Nat} (h : Ledger s ptrs) (hperm : ptrs.Perm ptrs') :
    Ledger s ptrs' :=
  ⟨h.toCounts, hperm.nodup_iff.mp h.ptrsNodup, fun p => by rw [← hperm.mem_iff]; exact h.ptrs p⟩

/-- The page allocator is not in the books. -/
theorem Ledger.setMms (h : Ledger s ptrs) (m : MMS) : Ledger { s with mms := m } ptrs :=
  ⟨⟨h.size, h.apart, h.slabs, h.totalFree, h.totalUse⟩, h.ptrsNodup, h.ptrs⟩

/-- A bit is set where the address of the object is in the books. -/
theorem Ledger.taken_iff (h : Ledger s ptrs) (hi : i < KMALLOC_SLAB_SIZE) (ht : t ∈ s.shapes i)
    {k : Nat} (hk : k < t.colorCount) :
    t.Taken s.word k ↔ t.vaddress + k * kmallocSize i ∈ ptrs := by
  rw [h.ptrs]
  constructor
  · intro htk
    exact ⟨i, hi, t, ht, k, htk, rfl⟩
  · rintro ⟨i', hi', u, hu, l, hl, he⟩
    obtain ⟨rfl, rfl, rfl⟩ := h.toCounts.object_eq hi hi' ht hu hk hl.1 he
    exact hl

/-! ## Changing one slab -/

/-- The bitmap of another slab is not touched by a change of the bitmap of `t`. -/
theorem Counts.word_frame (h : Counts s) (hi : i < KMALLOC_SLAB_SIZE) (ht : t ∈ s.shapes i)
    {word' : Memory} (hw : ∀ a, ¬ t.MapWord a → word' a = s.word a)
    (hj : j < KMALLOC_SLAB_SIZE) (hu : u ∈ s.shapes j) (hne : ¬ (j = i ∧ u = t)) :
    ∀ a, u.MapWord a → word' a = s.word a := by
  intro a ha
  refine hw a (fun ha' => hne ?_)
  exact h.apart.maps j hj i hi u hu t ht a ha ha'

/-- Neither are the objects handed out from it. -/
theorem Counts.taken_frame (h : Counts s) (hi : i < KMALLOC_SLAB_SIZE) (ht : t ∈ s.shapes i)
    {word' : Memory} (hw : ∀ a, ¬ t.MapWord a → word' a = s.word a)
    (hj : j < KMALLOC_SLAB_SIZE) (hu : u ∈ s.shapes j) (hne : ¬ (j = i ∧ u = t)) (k : Nat) :
    u.Taken word' k ↔ u.Taken s.word k := by
  obtain ⟨r, -, rfl, hr⟩ := h.shape_ok hj hu
  exact Slab.taken_congr (t := r.shape) hr.bits (h.word_frame hi ht hw hj hu hne) k

/-- In a ring, the slabs before and after `t` are other slabs, at other addresses. -/
theorem Counts.ne_of_split (h : Counts s) (hi : i < KMALLOC_SLAB_SIZE) {pre post : List Slab}
    (hr : (s.cache i).ring = pre ++ t :: post) :
    ∀ u, u ∈ pre ∨ u ∈ post → u.shape ≠ t.shape ∧ u.addr ≠ t.addr := by
  have hnd := h.apart.addrs i hi
  have hmap : (s.shapes i).map Slab.addr
      = pre.map Slab.addr ++ t.addr :: post.map Slab.addr := by
    rw [KMem.shapes, hr, List.map_map, List.map_append, List.map_cons]
    rfl
  rw [hmap, List.nodup_append] at hnd
  obtain ⟨-, h2, h3⟩ := hnd
  have hne : ∀ u, u ∈ pre ∨ u ∈ post → u.addr ≠ t.addr := by
    rintro u (hu | hu)
    · exact h3 _ (List.mem_map_of_mem hu) t.addr List.mem_cons_self
    · intro he
      have hmem : u.addr ∈ post.map Slab.addr := List.mem_map_of_mem hu
      exact (List.nodup_cons.mp h2).1 (he ▸ hmem)
  intro u hu
  refine ⟨fun he => hne u hu ?_, hne u hu⟩
  exact (congrArg Slab.addr he : u.shape.addr = t.shape.addr)

/-- Replacing one slab by another of the same shape, with a change to its bitmap only. -/
theorem Counts.setSlab (h : Counts s) (hi : i < KMALLOC_SLAB_SIZE) {pre post : List Slab}
    (hr : (s.cache i).ring = pre ++ t :: post) (hsh : t'.shape = t.shape) {word' : Memory}
    (hw : ∀ a, ¬ t.MapWord a → word' a = s.word a) (hok : SlabOk word' (kmallocSize i) t')
    (c' : SlabCache) (hc : c'.size = (s.cache i).size) (hring : c'.ring = pre ++ t' :: post)
    (hf : c'.totalFree + t.freeCount = (s.cache i).totalFree + t'.freeCount)
    (hu : c'.totalUse + t.usingCount = (s.cache i).totalUse + t'.usingCount) :
    Counts ({ s with word := word' }.setCache i c') ∧
      ({ s with word := word' }.setCache i c').shapes = s.shapes := by
  have hshapes : ({ s with word := word' }.setCache i c').shapes = s.shapes := by
    rw [shapes_setCache, hring]
    refine Function.update_eq_iff.mpr ⟨?_, fun _ _ => rfl⟩
    show _ = (s.cache i).ring.map Slab.shape
    rw [hr]
    simp [hsh]
  have htm : t ∈ (s.cache i).ring := by rw [hr]; simp
  -- the slabs whose bitmap is not written
  have hother : ∀ j < KMALLOC_SLAB_SIZE, ∀ v ∈ (s.cache j).ring, ¬ (j = i ∧ v.shape = t.shape) →
      SlabOk word' (kmallocSize j) v := fun j hj v hv hne =>
    (h.slabs j hj v hv).frame (h.word_frame hi (shape_mem htm) hw (u := v.shape) hj (shape_mem hv) hne)
  refine ⟨⟨fun j hj => ?_, by rw [hshapes]; exact h.apart, fun j hj u hu' => ?_, fun j hj => ?_,
    fun j hj => ?_⟩, hshapes⟩
  all_goals by_cases hji : j = i
  · subst hji; rw [setCache_cache_self, hc]; exact h.size j hj
  · rw [setCache_cache_ne _ hji]; exact h.size j hj
  · subst hji
    rw [setCache_cache_self, hring] at hu'
    have hsplit := h.ne_of_split hj hr
    rcases List.mem_append.mp hu' with hv | hv
    · exact hother j hj u (by rw [hr]; simp [hv]) (fun hc => (hsplit u (.inl hv)).1 hc.2)
    · rcases List.mem_cons.mp hv with rfl | hv
      · exact hok
      · exact hother j hj u (by rw [hr]; simp [hv]) (fun hc => (hsplit u (.inr hv)).1 hc.2)
  · rw [setCache_cache_ne _ hji] at hu'
    exact hother j hj u hu' (fun hc => hji hc.1)
  · subst hji
    have := h.totalFree j hj
    rw [hr] at this
    rw [setCache_cache_self, hring]
    simp only [List.map_append, List.map_cons, List.sum_append, List.sum_cons] at this ⊢
    omega
  · rw [setCache_cache_ne _ hji]; exact h.totalFree j hj
  · subst hji
    have := h.totalUse j hj
    rw [hr] at this
    rw [setCache_cache_self, hring]
    simp only [List.map_append, List.map_cons, List.sum_append, List.sum_cons] at this ⊢
    omega
  · rw [setCache_cache_ne _ hji]; exact h.totalUse j hj

/-! ## Objects taken and given back -/

/-- `AllocSlab` has taken object `j` of the slab `t` of class `i`: the first slab with a free object,
and its least one. -/
structure TakesObject (s s' : KMem) (i : Nat) (pre : List Slab) (t : Slab) (post : List Slab)
    (j : Nat) : Prop where
  ring : (s.cache i).ring = pre ++ t :: post
  before : ∀ u ∈ pre, u.freeCount = 0
  free : t.freeCount ≠ 0
  lt : j < t.colorCount
  clear : bit s.word (t.colorMap / 8) j = false
  least : ∀ k < j, bit s.word (t.colorMap / 8) k = true
  alloc : Talios.allocSlab s i = (s', some (t.vaddress + j * kmallocSize i))
  shapes : s'.shapes = s.shapes
  mms : s'.mms = s.mms
  cache : s'.cache i = { s.cache i with
    totalFree := (s.cache i).totalFree - 1, totalUse := (s.cache i).totalUse + 1,
    ring := pre ++ t.take :: post }
  others : ∀ k ≠ i, s'.cache k = s.cache k
  frame : ∀ a, ¬ s.MapWord a → s'.word a = s.word a
  taken : ∀ i' < KMALLOC_SLAB_SIZE, ∀ u ∈ s.shapes i', ∀ k, u.Taken s'.word k ↔
    (u.Taken s.word k ∨ (i' = i ∧ u = t.shape ∧ k = j))

/-- **`AllocSlab`** on a class with a free object takes one. -/
theorem Ledger.allocSlab (h : Ledger s ptrs) (hi : i < KMALLOC_SLAB_SIZE)
    (hfree : ∃ t ∈ (s.cache i).ring, t.freeCount ≠ 0) :
    ∃ s' pre t post j, TakesObject s s' i pre t post j ∧
      (t.vaddress + j * kmallocSize i) ∉ ptrs ∧
      Ledger s' ((t.vaddress + j * kmallocSize i) :: ptrs) := by
  obtain ⟨pre, t, post, j, hr, hpre, htf, hj, hb, hlt, he⟩ :=
    allocRing_spec (s.cache i).ring (h.slabs i hi) hfree
  have htm : t ∈ (s.cache i).ring := by rw [hr]; simp
  have hok := h.slabs i hi t htm
  set w' := setBit s.word (t.colorMap / 8) j with hw'
  have hw : ∀ a, ¬ t.MapWord a → w' a = s.word a := fun a ha => setBit_mapWord hok hj ha
  obtain ⟨hcounts, hshapes⟩ := h.toCounts.setSlab hi hr (show t.take.shape = t.shape from rfl) hw
    (hok.take hj hb) { s.cache i with
      totalFree := (s.cache i).totalFree - 1, totalUse := (s.cache i).totalUse + 1,
      ring := pre ++ t.take :: post } rfl rfl (by
        have h1 := h.totalFree i hi
        rw [hr] at h1
        simp only [List.map_append, List.map_cons, List.sum_append, List.sum_cons] at h1
        show (s.cache i).totalFree - 1 + t.freeCount = (s.cache i).totalFree + (t.freeCount - 1)
        omega) (by
        show (s.cache i).totalUse + 1 + t.usingCount = (s.cache i).totalUse + (t.usingCount + 1)
        omega)
  set s' := { s with word := w' }.setCache i { s.cache i with
      totalFree := (s.cache i).totalFree - 1, totalUse := (s.cache i).totalUse + 1,
      ring := pre ++ t.take :: post } with hs'
  have hword : s'.word = w' := rfl
  have htaken : ∀ i' < KMALLOC_SLAB_SIZE, ∀ u ∈ s.shapes i', ∀ k, u.Taken w' k ↔
      (u.Taken s.word k ∨ (i' = i ∧ u = t.shape ∧ k = j)) := by
    intro i' hi' u hu k
    by_cases hut : i' = i ∧ u = t.shape
    · obtain ⟨rfl, rfl⟩ := hut
      show (k < t.colorCount ∧ bit w' (t.colorMap / 8) k = true) ↔
        ((k < t.colorCount ∧ bit s.word (t.colorMap / 8) k = true) ∨ _)
      rw [hw', bit_setBit]
      by_cases hk : k = j
      · subst hk; simp [hj]
      · simp [hk]
    · rw [h.toCounts.taken_frame hi (shape_mem htm) hw hi' hu hut]
      tauto
  -- the address was that of no object
  have hnew : (t.vaddress + j * kmallocSize i) ∉ ptrs := by
    intro hmem
    obtain ⟨i', hi', u, hu, k, hk, hpe⟩ := (h.ptrs _).mp hmem
    obtain ⟨rfl, rfl, rfl⟩ := h.toCounts.object_eq hi hi' (shape_mem htm) hu hj hk.1 hpe
    have : bit s.word (t.colorMap / 8) j = true := hk.2
    rw [hb] at this
    exact absurd this (by simp)
  have halloc : Talios.allocSlab s i = (s', some (t.vaddress + j * kmallocSize i)) := by
    unfold Talios.allocSlab
    dsimp only
    rw [h.size i hi, he]
    simp only [hs', h.size i hi]
  refine ⟨s', pre, t, post, j, ⟨hr, hpre, htf, hj, hb, hlt, halloc, hshapes, rfl,
    setCache_cache_self .., fun k hk => setCache_cache_ne _ hk _,
    fun a ha => hw a (fun hm => ha ⟨i, hi, t.shape, shape_mem htm, hm⟩), htaken⟩, hnew,
    ⟨hcounts, List.nodup_cons.mpr ⟨hnew, h.ptrsNodup⟩, fun p => ?_⟩⟩
  rw [List.mem_cons, h.ptrs p, hshapes, hword]
  constructor
  · rintro (rfl | ⟨i', hi', u, hu, k, hk, rfl⟩)
    · exact ⟨i, hi, t.shape, shape_mem htm, j,
        (htaken i hi _ (shape_mem htm) j).mpr (Or.inr ⟨rfl, rfl, rfl⟩), rfl⟩
    · exact ⟨i', hi', u, hu, k, (htaken i' hi' u hu k).mpr (Or.inl hk), rfl⟩
  · rintro ⟨i', hi', u, hu, k, hk, rfl⟩
    rcases (htaken i' hi' u hu k).mp hk with hk | ⟨rfl, rfl, rfl⟩
    · exact Or.inr ⟨i', hi', u, hu, k, hk, rfl⟩
    · exact Or.inl rfl

theorem replaceSlab_split {pre post : List Slab} (ht : t'.addr = t.addr)
    (hne : ∀ u, u ∈ pre ∨ u ∈ post → u.addr ≠ t.addr) :
    replaceSlab t' (pre ++ t :: post) = pre ++ t' :: post := by
  have hsame : ∀ l : List Slab, (∀ u ∈ l, u.addr ≠ t.addr) →
      l.map (fun u => if u.addr = t'.addr then t' else u) = l := by
    intro l hl
    calc l.map (fun u => if u.addr = t'.addr then t' else u) = l.map id :=
          List.map_congr_left (fun u hu => if_neg (by rw [ht]; exact hl u hu))
      _ = l := List.map_id l
  unfold replaceSlab
  rw [List.map_append, List.map_cons, hsame pre (fun u hu => hne u (Or.inl hu)),
    hsame post (fun u hu => hne u (Or.inr hu)), if_pos ht.symm]

/-- `kfree` has given object `j` of the slab `t` of class `i` back, up to the test whether the slab
leaves the class. -/
structure GivesObject (s s' : KMem) (i : Nat) (pre : List Slab) (t : Slab) (post : List Slab)
    (j : Nat) : Prop where
  shapes : s'.shapes = s.shapes
  mms : s'.mms = s.mms
  cache : s'.cache i = { s.cache i with
    totalFree := (s.cache i).totalFree + 1, totalUse := (s.cache i).totalUse - 1,
    ring := pre ++ t.give :: post }
  others : ∀ k ≠ i, s'.cache k = s.cache k
  frame : ∀ a, ¬ s.MapWord a → s'.word a = s.word a
  taken : ∀ i' < KMALLOC_SLAB_SIZE, ∀ u ∈ s.shapes i', ∀ k, u.Taken s'.word k ↔
    (u.Taken s.word k ∧ ¬ (i' = i ∧ u = t.shape ∧ k = j))

/-- **`kfree`** of an address in an object handed out finds its slab. -/
theorem Ledger.findOwner (h : Ledger s ptrs) (hi : i < KMALLOC_SLAB_SIZE) (ht : t ∈ (s.cache i).ring)
    {k ptr : Nat} (hk : t.Taken s.word k)
    (hptr : t.vaddress + k * kmallocSize i ≤ ptr ∧ ptr < t.vaddress + (k + 1) * kmallocSize i) :
    Talios.findOwner s (alignDown PAGE_2M_SIZE ptr) KMALLOC_SLAB_SIZE 0 = some (i, t) ∧
    (ptr - alignDown PAGE_2M_SIZE ptr) / (s.cache i).size = k := by
  have hok := h.slabs i hi t ht
  have hpage : alignDown PAGE_2M_SIZE ptr = t.vaddress := by
    obtain ⟨q, hq⟩ := hok.page
    have h1 : t.vaddress ≤ ptr ∧ ptr < t.vaddress + PAGE_2M_SIZE :=
      h.toCounts.object_data hi (shape_mem ht) hk.1 hptr.1 hptr.2
    unfold alignDown PAGE_2M_SIZE PAGE_2M_SHIFT at *
    omega
  have hupos := hok.using_pos hk
  have huse : (s.cache i).totalUse ≠ 0 := by
    obtain ⟨pre, post, hr⟩ := List.append_of_mem ht
    rw [h.totalUse i hi, hr]
    simp only [List.map_append, List.map_cons, List.sum_append, List.sum_cons]
    omega
  rw [hpage]
  constructor
  · refine findOwner_spec hi ht (by omega) huse (fun i' hi' v hv hve => ?_)
    obtain ⟨rfl, -⟩ := h.apart.eq_of_vaddress (t := v.shape) (u := t.shape) hi' hi (shape_mem hv)
      (shape_mem ht) hve
    have hnd := h.apart.nodup i' hi'
    rw [KMem.shapes, List.map_map] at hnd
    exact ⟨rfl, List.inj_on_of_nodup_map hnd hv ht hve⟩
  · rw [h.size i hi]
    have hpos := kmallocSize_pos i
    rw [Nat.div_eq_iff hpos]
    rw [Nat.add_mul] at hptr
    omega

/-- **An object is given back.** -/
theorem Ledger.release (h : Ledger s ptrs) (hi : i < KMALLOC_SLAB_SIZE) {pre post : List Slab}
    (hr : (s.cache i).ring = pre ++ t :: post) {k ptr : Nat} (hk : t.Taken s.word k)
    (hoff : (ptr - alignDown PAGE_2M_SIZE ptr) / (s.cache i).size = k) :
    GivesObject s (releaseObject s i t ptr) i pre t post k ∧
      Ledger (releaseObject s i t ptr) (ptrs.erase (t.vaddress + k * kmallocSize i)) := by
  have htm : t ∈ (s.cache i).ring := by rw [hr]; simp
  have hu := shape_mem htm
  have hok := h.slabs i hi t htm
  have hupos := hok.using_pos hk
  have huse := h.totalUse i hi
  rw [hr] at huse
  simp only [List.map_append, List.map_cons, List.sum_append, List.sum_cons] at huse
  set w' := flipBit s.word (t.colorMap / 8) k with hw'
  have hw : ∀ a, ¬ t.MapWord a → w' a = s.word a := fun a ha => flipBit_mapWord hok hk.1 ha
  have hring := replaceSlab_split (show t.give.addr = t.addr from rfl)
    (fun u hu => (h.toCounts.ne_of_split hi hr u hu).2)
  have hrel : releaseObject s i t ptr = { s with word := w' }.setCache i { s.cache i with
      totalFree := (s.cache i).totalFree + 1, totalUse := (s.cache i).totalUse - 1,
      ring := pre ++ t.give :: post } := by
    unfold releaseObject
    dsimp only
    rw [hoff, hr, hring]
  obtain ⟨hcounts, hshapes⟩ := h.toCounts.setSlab hi hr (show t.give.shape = t.shape from rfl) hw
    (hok.give hk) { s.cache i with
      totalFree := (s.cache i).totalFree + 1, totalUse := (s.cache i).totalUse - 1,
      ring := pre ++ t.give :: post } rfl rfl (by
        show (s.cache i).totalFree + 1 + t.freeCount = (s.cache i).totalFree + (t.freeCount + 1)
        omega) (by
        show (s.cache i).totalUse - 1 + t.usingCount = (s.cache i).totalUse + (t.usingCount - 1)
        omega)
  rw [← hrel] at hcounts hshapes
  have hword : (releaseObject s i t ptr).word = w' := by rw [hrel]; rfl
  have htaken : ∀ i' < KMALLOC_SLAB_SIZE, ∀ v ∈ s.shapes i', ∀ l, v.Taken w' l ↔
      (v.Taken s.word l ∧ ¬ (i' = i ∧ v = t.shape ∧ l = k)) := by
    intro i' hi' v hv l
    by_cases hvt : i' = i ∧ v = t.shape
    · obtain ⟨rfl, rfl⟩ := hvt
      show (l < t.colorCount ∧ bit w' (t.colorMap / 8) l = true) ↔
        ((l < t.colorCount ∧ bit s.word (t.colorMap / 8) l = true) ∧ _)
      rw [hw', bit_flipBit]
      by_cases hl : l = k
      · subst hl
        have : bit s.word (t.colorMap / 8) l = true := hk.2
        simp [this]
      · simp [hl]
    · rw [h.toCounts.taken_frame hi hu hw hi' hv hvt]
      tauto
  refine ⟨⟨hshapes, by rw [hrel]; rfl, by rw [hrel, setCache_cache_self], fun j hj => ?_,
    fun a ha => ?_, fun i' hi' v hv l => by rw [hword]; exact htaken i' hi' v hv l⟩, hcounts,
    h.ptrsNodup.erase _, fun p => ?_⟩
  · rw [hrel, setCache_cache_ne _ hj]
  · rw [hword]
    exact hw a (fun hm => ha ⟨i, hi, t.shape, hu, hm⟩)
  · rw [h.ptrsNodup.mem_erase_iff, h.ptrs p, hshapes, hword]
    constructor
    · rintro ⟨hne, i', hi', v, hv, l, hl, rfl⟩
      refine ⟨i', hi', v, hv, l, (htaken i' hi' v hv l).mpr ⟨hl, ?_⟩, rfl⟩
      rintro ⟨rfl, rfl, rfl⟩
      exact hne rfl
    · rintro ⟨i', hi', v, hv, l, hl, rfl⟩
      obtain ⟨hl', hne⟩ := (htaken i' hi' v hv l).mp hl
      refine ⟨fun he => hne ?_, i', hi', v, hv, l, hl', rfl⟩
      exact h.toCounts.object_eq hi' hi hv hu hl'.1 hk.1 he

/-! ## Slabs that join and leave -/

theorem insertSlab_perm (n : Slab) (l : List Slab) : (insertSlab n l).Perm (n :: l) := by
  cases l with
  | nil => exact List.Perm.refl _
  | cons cp rest => exact List.Perm.swap ..

theorem mem_insertSlab {n : Slab} {l : List Slab} : t ∈ insertSlab n l ↔ t = n ∨ t ∈ l := by
  rw [(insertSlab_perm n l).mem_iff, List.mem_cons]

theorem insertSlab_shape (n : Slab) (l : List Slab) :
    (insertSlab n l).map Slab.shape = insertSlab n.shape (l.map Slab.shape) := by
  cases l <;> rfl

/-- A slab joins class `i`; its page, its bitmap and its address are its own. -/
theorem RingsApart.insert (h : RingsApart ring) (hi : i < KMALLOC_SLAB_SIZE) {n : Slab}
    (hpage : ∀ j < KMALLOC_SLAB_SIZE, ∀ u ∈ ring j, u.vaddress ≠ n.vaddress)
    (hmap : ∀ j < KMALLOC_SLAB_SIZE, ∀ u ∈ ring j, ∀ a, u.MapWord a → ¬ n.MapWord a)
    (haddr : ∀ u ∈ ring i, u.addr ≠ n.addr) :
    RingsApart (Function.update ring i (insertSlab n (ring i))) := by
  have hmem : ∀ j u, u ∈ Function.update ring i (insertSlab n (ring i)) j →
      (j = i ∧ u = n) ∨ u ∈ ring j := by
    intro j u hu
    by_cases hj : j = i
    · subst hj
      rw [Function.update_self, mem_insertSlab] at hu
      exact hu.imp_left (fun he => ⟨rfl, he⟩)
    · rw [Function.update_of_ne hj] at hu
      exact .inr hu
  -- a key that no slab of the class has is new in the list of keys
  have hnodup : ∀ f : Slab → Nat, (∀ j < KMALLOC_SLAB_SIZE, ((ring j).map f).Nodup) →
      (∀ u ∈ ring i, f u ≠ f n) → ∀ j < KMALLOC_SLAB_SIZE,
      ((Function.update ring i (insertSlab n (ring i)) j).map f).Nodup := by
    intro f hf hne j hj
    by_cases hji : j = i
    · subst hji
      rw [Function.update_self, ((insertSlab_perm n (ring j)).map f).nodup_iff, List.map_cons,
        List.nodup_cons]
      refine ⟨fun hm => ?_, hf j hj⟩
      obtain ⟨u, hu, he⟩ := List.mem_map.mp hm
      exact hne u hu he
    · rw [Function.update_of_ne hji]; exact hf j hj
  refine ⟨fun j hj k hk u hu v hv he => ?_, hnodup _ h.nodup (hpage i hi),
    fun j hj k hk u hu v hv a ha ha' => ?_, hnodup _ h.addrs haddr⟩
  · rcases hmem j u hu with ⟨rfl, rfl⟩ | hu' <;> rcases hmem k v hv with ⟨rfl, rfl⟩ | hv'
    · rfl
    · exact absurd he.symm (hpage k hk v hv')
    · exact absurd he (hpage j hj u hu')
    · exact h.pages j hj k hk u hu' v hv' he
  · rcases hmem j u hu with ⟨rfl, rfl⟩ | hu' <;> rcases hmem k v hv with ⟨rfl, rfl⟩ | hv'
    · exact ⟨rfl, rfl⟩
    · exact absurd ha (hmap k hk v hv' a ha')
    · exact absurd ha' (hmap j hj u hu' a ha)
    · exact h.maps j hj k hk u hu' v hv' a ha ha'

/-- The slab `n` has joined class `i` behind `CachePool`; its bitmap is cleared. -/
structure JoinsClass (s s' : KMem) (i : Nat) (n : Slab) : Prop where
  cache : s'.cache i = { s.cache i with
    totalFree := (s.cache i).totalFree + n.freeCount, ring := insertSlab n (s.cache i).ring }
  others : ∀ k ≠ i, s'.cache k = s.cache k
  word : ∀ a, ¬ n.MapWord a → s'.word a = s.word a
  clear : ∀ j < n.colorCount, bit s'.word (n.colorMap / 8) j = false

theorem JoinsClass.shapes {s' : KMem} {n : Slab} (h : JoinsClass s s' i n) :
    s'.shapes = Function.update s.shapes i (insertSlab n.shape (s.shapes i)) := by
  funext j
  by_cases hj : j = i
  · subst hj
    rw [Function.update_self, KMem.shapes, h.cache, insertSlab_shape]
    rfl
  · rw [Function.update_of_ne hj, KMem.shapes, h.others j hj]
    rfl

theorem JoinsClass.mem_shapes {s' : KMem} {n : Slab} (h : JoinsClass s s' i n) :
    u ∈ s'.shapes j ↔ (j = i ∧ u = n.shape) ∨ u ∈ s.shapes j := by
  rw [h.shapes]
  by_cases hj : j = i
  · subst hj
    rw [Function.update_self, mem_insertSlab]
    tauto
  · rw [Function.update_of_ne hj]
    tauto

theorem JoinsClass.mem_tail {s' : KMem} {n : Slab} (h : JoinsClass s s' i n) (hr : s.shapes i ≠ [])
    (hu : u ∈ (s'.shapes j).tail) : (j = i ∧ u = n.shape) ∨ u ∈ (s.shapes j).tail := by
  rw [h.shapes] at hu
  by_cases hj : j = i
  · subst hj
    obtain ⟨cp, rest, hcp⟩ := List.exists_cons_of_ne_nil hr
    rw [Function.update_self, hcp] at hu
    rw [hcp]
    exact (List.mem_cons.mp hu).imp_left (fun he => ⟨rfl, he⟩)
  · rw [Function.update_of_ne hj] at hu
    exact .inr hu

/-- No object of the new slab has been handed out. -/
theorem JoinsClass.not_taken {s' : KMem} {n : Slab} (h : JoinsClass s s' i n) (k : Nat) :
    ¬ n.shape.Taken s'.word k := by
  rintro ⟨hk, hb⟩
  exact absurd (hb.symm.trans (h.clear k hk)) (by simp)

/-- Where a class had no free object, the least one is the first of the slab that has joined it. -/
theorem JoinsClass.first_of_least {s' : KMem} {n : Slab} (hjoin : JoinsClass s s' i n)
    (h : Counts s) (hi : i < KMALLOC_SLAB_SIZE) (hf : (s.cache i).totalFree = 0)
    (hn : 0 < n.colorCount) (ht : t ∈ (s'.cache i).ring) (htf : t.freeCount ≠ 0) {k : Nat}
    (hleast : ∀ l < k, bit s'.word (t.colorMap / 8) l = true) : t = n ∧ k = 0 := by
  have hzero : ∀ u ∈ (s.cache i).ring, u.freeCount = 0 := by
    intro u hu
    have hsum := h.totalFree i hi
    rw [hf] at hsum
    exact List.sum_eq_zero_iff.mp hsum.symm _ (List.mem_map_of_mem hu)
  obtain rfl : t = n := by
    rw [hjoin.cache, mem_insertSlab] at ht
    exact ht.resolve_right (fun ht => htf (hzero t ht))
  refine ⟨rfl, ?_⟩
  by_contra hne
  have h1 := hleast 0 (by omega)
  rw [hjoin.clear 0 hn] at h1
  exact absurd h1 (by simp)

/-- **A slab all of whose objects are free joins a class.** -/
theorem Ledger.insert (h : Ledger s ptrs) (hi : i < KMALLOC_SLAB_SIZE) {s' : KMem} {n : Slab}
    (hjoin : JoinsClass s s' i n) (hn : SlabOk s'.word (kmallocSize i) n)
    (hapart : RingsApart s'.shapes) : Ledger s' ptrs := by
  have h0 : n.usingCount = 0 := hn.using_eq.trans (used_eq_zero_iff.mpr hjoin.clear)
  have hmem : ∀ j u, u ∈ (s'.cache j).ring ↔ (j = i ∧ u = n) ∨ u ∈ (s.cache j).ring := by
    intro j u
    by_cases hj : j = i
    · subst hj
      rw [hjoin.cache, mem_insertSlab]
      tauto
    · rw [hjoin.others j hj]
      tauto
  have hsum : ∀ f : Slab → Nat, ((s'.cache i).ring.map f).sum = f n + ((s.cache i).ring.map f).sum := by
    intro f
    rw [hjoin.cache, ((insertSlab_perm n _).map f).sum_eq, List.map_cons, List.sum_cons]
  have hne : n.shape ∉ s.shapes i := by
    intro hu
    have hnd := hapart.nodup i hi
    rw [hjoin.shapes, Function.update_self, ((insertSlab_perm _ _).map _).nodup_iff, List.map_cons,
      List.nodup_cons] at hnd
    exact hnd.1 (List.mem_map_of_mem hu)
  have hframe : ∀ j < KMALLOC_SLAB_SIZE, ∀ u ∈ s.shapes j, ∀ a, u.MapWord a →
      s'.word a = s.word a := by
    intro j hj u hu a ha
    refine hjoin.word a (fun ha' => ?_)
    obtain ⟨rfl, rfl⟩ := hapart.maps j hj i hi u (hjoin.mem_shapes.mpr (.inr hu)) n.shape
      (hjoin.mem_shapes.mpr (.inl ⟨rfl, rfl⟩)) a ha ha'
    exact hne hu
  have htaken : ∀ j < KMALLOC_SLAB_SIZE, ∀ u ∈ s.shapes j, ∀ k,
      u.Taken s'.word k ↔ u.Taken s.word k := by
    intro j hj u hu k
    obtain ⟨r, -, rfl, hrok⟩ := h.shape_ok hj hu
    exact Slab.taken_congr (t := r.shape) hrok.bits (hframe j hj _ hu) k
  refine ⟨⟨fun j hj => ?_, hapart, fun j hj u hu => ?_, fun j hj => ?_, fun j hj => ?_⟩,
    h.ptrsNodup, fun p => ?_⟩
  · by_cases hji : j = i
    · subst hji; rw [hjoin.cache]; exact h.size j hj
    · rw [hjoin.others j hji]; exact h.size j hj
  · rcases (hmem j u).mp hu with ⟨rfl, rfl⟩ | hu
    · exact hn
    · exact (h.slabs j hj u hu).frame (hframe j hj u.shape (shape_mem hu))
  · by_cases hji : j = i
    · subst hji
      rw [hsum, ← h.totalFree j hj, hjoin.cache, Nat.add_comm]
    · rw [hjoin.others j hji]; exact h.totalFree j hj
  · by_cases hji : j = i
    · subst hji
      rw [hsum, ← h.totalUse j hj, hjoin.cache, h0, Nat.zero_add]
    · rw [hjoin.others j hji]; exact h.totalUse j hj
  · rw [h.ptrs p]
    constructor
    · rintro ⟨j, hj, u, hu, k, hk, rfl⟩
      exact ⟨j, hj, u, hjoin.mem_shapes.mpr (.inr hu), k, (htaken j hj u hu k).mpr hk, rfl⟩
    · rintro ⟨j, hj, u, hu, k, hk, rfl⟩
      rcases hjoin.mem_shapes.mp hu with ⟨rfl, rfl⟩ | hu
      · exact absurd hk (hjoin.not_taken k)
      · exact ⟨j, hj, u, hu, k, (htaken j hj u hu k).mp hk, rfl⟩

/-- A part of the rings is apart if the whole is. -/
theorem RingsApart.sublist {ring' : Nat → List Slab} (h : RingsApart ring)
    (hsub : ∀ i, (ring' i).Sublist (ring i)) : RingsApart ring' where
  pages := fun i hi j hj t ht u hu => h.pages i hi j hj t ((hsub i).mem ht) u ((hsub j).mem hu)
  nodup := fun i hi => ((hsub i).map _).nodup (h.nodup i hi)
  maps := fun i hi j hj t ht u hu => h.maps i hi j hj t ((hsub i).mem ht) u ((hsub j).mem hu)
  addrs := fun i hi => ((hsub i).map _).nodup (h.addrs i hi)

/-- A slab without objects leaves class `i`. -/
theorem Ledger.drop (h : Ledger s ptrs) (hi : i < KMALLOC_SLAB_SIZE) {pre post : List Slab}
    (hr : (s.cache i).ring = pre ++ t :: post) (h0 : t.usingCount = 0) {s' : KMem}
    (hself : s'.cache i = { s.cache i with
      totalFree := (s.cache i).totalFree - t.freeCount, totalUse := (s.cache i).totalUse
      ring := pre ++ post })
    (hothers : ∀ k ≠ i, s'.cache k = s.cache k) (hword : s'.word = s.word) :
    Ledger s' ptrs ∧ (∀ j, (s'.shapes j).Sublist (s.shapes j)) ∧
      ∀ j u, u ∈ s.shapes j → u ∈ s'.shapes j ∨ (j = i ∧ u = t.shape) := by
  have hsub : ∀ j, (s'.shapes j).Sublist (s.shapes j) := by
    intro j
    by_cases hj : j = i
    · subst hj
      rw [KMem.shapes, KMem.shapes, hself, hr]
      exact ((List.Sublist.refl _).append (List.sublist_cons_self _ _)).map _
    · rw [KMem.shapes, hothers j hj]
      rfl
  have hmem : ∀ j u, u ∈ s.shapes j → u ∈ s'.shapes j ∨ (j = i ∧ u = t.shape) := by
    intro j u hu
    by_cases hj : j = i
    · subst hj
      rw [KMem.shapes, hr] at hu
      rw [KMem.shapes, hself]
      simp only [List.map_append, List.map_cons, List.mem_append, List.mem_cons] at hu ⊢
      tauto
    · rw [KMem.shapes, hothers j hj]
      exact .inl hu
  have htm : t ∈ (s.cache i).ring := by rw [hr]; simp
  have hnone : ∀ k, ¬ t.shape.Taken s.word k := fun k hk =>
    absurd ((h.slabs i hi t htm).using_pos (j := k) hk) (by omega)
  refine ⟨⟨⟨fun j hj => ?_, h.apart.sublist hsub, fun j hj u hu => ?_, fun j hj => ?_,
    fun j hj => ?_⟩, h.ptrsNodup, fun p => ?_⟩, hsub, hmem⟩
  · by_cases hji : j = i
    · subst hji; rw [hself]; exact h.size j hj
    · rw [hothers j hji]; exact h.size j hj
  · rw [hword]
    refine h.slabs j hj u ?_
    by_cases hji : j = i
    · subst hji
      rw [hself] at hu
      rw [hr]
      simp only [List.mem_append, List.mem_cons] at hu ⊢
      tauto
    · rwa [hothers j hji] at hu
  · by_cases hji : j = i
    · subst hji
      have := h.totalFree j hj
      rw [hr] at this
      rw [hself]
      simp only [List.map_append, List.map_cons, List.sum_append, List.sum_cons] at this ⊢
      omega
    · rw [hothers j hji]; exact h.totalFree j hj
  · by_cases hji : j = i
    · subst hji
      have := h.totalUse j hj
      rw [hr] at this
      rw [hself]
      simp only [List.map_append, List.map_cons, List.sum_append, List.sum_cons] at this ⊢
      omega
    · rw [hothers j hji]; exact h.totalUse j hj
  · rw [h.ptrs p, hword]
    constructor
    · rintro ⟨j, hj, u, hu, k, hk, rfl⟩
      rcases hmem j u hu with hu | ⟨rfl, rfl⟩
      · exact ⟨j, hj, u, hu, k, hk, rfl⟩
      · exact absurd hk (hnone k)
    · rintro ⟨j, hj, u, hu, k, hk, rfl⟩
      exact ⟨j, hj, u, (hsub j).mem hu, k, hk, rfl⟩

end

end Talios
