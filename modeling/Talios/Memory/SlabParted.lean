import Talios.Memory.SlabTrim

set_option autoImplicit false

/-! # Heaps with astray slabs

The invariant `Parted` and what `kfree` does to it. An object is *near* where the slab it lies in is a
slab of `KMem.trim`, and *astray* in a slab left out.
-/

namespace Talios

open Word Bitmap Dyadic

/-! ## The invariant -/

/-- The rings of the classes above 0x200 bytes. -/
def KMem.largeShapes (s : KMem) (i : Nat) : List Slab := if i < 5 then [] else s.shapes i

/-- The number of astray slabs the frame `x` belongs to. -/
def KMem.largeCover (s : KMem) (x : Nat) : Nat := grownCover s.largeShapes x

/-- The headers that are objects, with the size `kmalloc` asks for. -/
def KMem.headerObjs (s : KMem) : List Obj := s.headers.map (fun a => ⟨a, SLAB_STRUCT_SIZE⟩)

/-- The object lies in the page at `vaddress`. -/
def Obj.InPage (b : Obj) (vaddress : Nat) : Prop := alignDown PAGE_2M_SIZE b.ptr = vaddress

instance (b : Obj) (v : Nat) : Decidable (b.InPage v) := inferInstanceAs (Decidable (_ = _))

/-- The invariant of a heap all of whose classes may grow, and whose astray bitmaps may hold
anything. -/
structure Parted (m₀ : MMS) (pool : Nat → Slab) (s : KMem) (out : Nat → Nat)
    (near astray : List Obj) : Prop where
  heap : HeapInv m₀ pool s.trim (fun x => out x + s.largeCover x) (near ++ s.headerObjs)
  grown : ∀ i, 5 ≤ i → i < KMALLOC_SLAB_SIZE → ∀ t ∈ (s.cache i).ring.tail, GrownSlab m₀ i t
  use : ∀ i, 5 ≤ i → i < KMALLOC_SLAB_SIZE → ∀ t ∈ (s.cache i).ring.tail,
    t.usingCount = astray.countP (fun b => decide (b.InPage t.vaddress))
  totalUse : ∀ i, 5 ≤ i → i < KMALLOC_SLAB_SIZE →
    (s.cache i).totalUse = ((s.cache i).ring.map Slab.usingCount).sum
  inside : ∀ b ∈ astray, ∃ i, 5 ≤ i ∧ i < KMALLOC_SLAB_SIZE ∧ ∃ t ∈ (s.cache i).ring.tail,
    ∃ j < t.colorCount, b.ptr = t.vaddress + j * kmallocSize i ∧ b.size ≤ kmallocSize i

section

variable {m₀ : MMS} {pool : Nat → Slab} {s s' : KMem} {out out' : Nat → Nat}
  {objs near near' astray : List Obj} {i j : Nat} {t u cp : Slab} {pre post : List Slab}

/-- The order of the objects does not matter. -/
theorem HeapInv.perm {objs' : List Obj} (h : HeapInv m₀ pool s out objs) (hperm : objs.Perm objs') :
    HeapInv m₀ pool s out objs' :=
  ⟨h.toHeapCore, (hperm.map Obj.ptr).nodup_iff.mp h.nodup,
    fun p => by rw [← (hperm.map Obj.ptr).mem_iff]; exact h.ptrs p,
    fun b hb => h.room b (hperm.mem_iff.mpr hb)⟩

theorem largeShapes_tail (s : KMem) (h5 : 5 ≤ i) :
    (s.largeShapes i).tail = (s.cache i).ring.tail.map Slab.shape := by
  rw [KMem.largeShapes, if_neg (Nat.not_lt.mpr h5), KMem.shapes, List.map_tail]

/-- Whatever has the same astray slabs has the same headers and pages. -/
theorem headers_of_tails (h : ∀ i, 5 ≤ i → i < KMALLOC_SLAB_SIZE →
    (s'.cache i).ring.tail = (s.cache i).ring.tail) :
    s'.headerObjs = s.headerObjs ∧ s'.largeCover = s.largeCover := by
  have htail : ∀ i, 5 ≤ i → i < KMALLOC_SLAB_SIZE → (s'.shapes i).tail = (s.shapes i).tail := by
    intro i h5 hi
    rw [KMem.shapes, KMem.shapes, ← List.map_tail, ← List.map_tail, h i h5 hi]
  constructor
  · have hheaders : headersOf s'.shapes = headersOf s.shapes := by
      unfold headersOf
      refine List.flatMap_congr (fun i hi => ?_)
      by_cases h5 : i < 5
      · rw [if_pos h5, if_pos h5]
      · rw [if_neg h5, if_neg h5, htail i (by omega) (List.mem_range.mp hi)]
    rw [KMem.headerObjs, KMem.headerObjs, KMem.headers, KMem.headers, hheaders]
  · funext x
    unfold KMem.largeCover grownCover
    refine Finset.sum_congr rfl (fun i hi => ?_)
    unfold KMem.largeShapes
    by_cases h5 : i < 5
    · rw [if_pos h5, if_pos h5]
    · rw [if_neg h5, if_neg h5, htail i (by omega) (Finset.mem_range.mp hi)]

/-- The invariant after a change that leaves the astray slabs alone. -/
theorem Parted.of_tails (h : Parted m₀ pool s out near astray)
    (htails : ∀ i, 5 ≤ i → i < KMALLOC_SLAB_SIZE → (s'.cache i).ring.tail = (s.cache i).ring.tail)
    (huse : ∀ i, 5 ≤ i → i < KMALLOC_SLAB_SIZE →
      (s'.cache i).totalUse = ((s'.cache i).ring.map Slab.usingCount).sum)
    (hheap : HeapInv m₀ pool s'.trim (fun x => out' x + s.largeCover x) (near' ++ s.headerObjs)) :
    Parted m₀ pool s' out' near' astray := by
  obtain ⟨h1, h2⟩ := headers_of_tails htails
  refine ⟨by rw [h1, h2]; exact hheap, fun i h5 hi t ht => ?_, fun i h5 hi t ht => ?_, huse,
    fun b hb => ?_⟩
  · rw [htails i h5 hi] at ht
    exact h.grown i h5 hi t ht
  · rw [htails i h5 hi] at ht
    exact h.use i h5 hi t ht
  · obtain ⟨i, h5, hi, t, ht, hrest⟩ := h.inside b hb
    exact ⟨i, h5, hi, t, by rw [htails i h5 hi]; exact ht, hrest⟩

/-! ## Rings -/

/-- A ring above 0x200 bytes: `CachePool`, and the slabs by which the class has grown. -/
theorem Parted.ring_eq (h : Parted m₀ pool s out near astray) (h5 : 5 ≤ i)
    (hi : i < KMALLOC_SLAB_SIZE) : ∃ cp, (s.cache i).ring = cp :: (s.cache i).ring.tail ∧
      cp.shape = (pool i).shape ∧ (s.trim.cache i).ring = [cp] := by
  obtain ⟨grown, hr, -⟩ := h.heap.rings.start i hi
  rw [KMem.shapes, trim_cache_large h5] at hr
  rw [trim_cache_large h5]
  cases hc : (s.cache i).ring with
  | nil =>
      simp only [SlabCache.trim, hc] at hr
      exact absurd hr (by simp)
  | cons cp tail =>
      simp only [SlabCache.trim, hc, List.take_succ_cons, List.take_zero, List.map_cons,
        List.map_nil, List.cons.injEq] at hr
      exact ⟨cp, rfl, hr.1, by simp [SlabCache.trim, hc]⟩

theorem Parted.mem_cases (h : Parted m₀ pool s out near astray) (hi : i < KMALLOC_SLAB_SIZE)
    (ht : t ∈ (s.cache i).ring) :
    t ∈ (s.trim.cache i).ring ∨ (5 ≤ i ∧ t ∈ (s.cache i).ring.tail) := by
  rcases Nat.lt_or_ge i 5 with h5 | h5
  · exact Or.inl (by rw [trim_cache_small h5]; exact ht)
  · obtain ⟨cp, hr, -, htrim⟩ := h.ring_eq h5 hi
    rw [hr] at ht
    rcases List.mem_cons.mp ht with rfl | ht
    · exact Or.inl (by rw [htrim]; simp)
    · exact Or.inr ⟨h5, ht⟩

theorem Parted.size (h : Parted m₀ pool s out near astray) (hi : i < KMALLOC_SLAB_SIZE) :
    (s.cache i).size = kmallocSize i := by
  rw [← trim_size]
  exact h.heap.size i hi

/-- The frames of an astray slab are held by another user of the page allocator. -/
theorem Parted.held (h : Parted m₀ pool s out near astray) (h5 : 5 ≤ i) (hi : i < KMALLOC_SLAB_SIZE)
    (ht : t ∈ (s.cache i).ring.tail) {x : Nat} (hx : Mem t.page 9 x) :
    UserFrame m₀ (fun x => out x + s.largeCover x) x := by
  obtain ⟨zi, hz, hin⟩ := (h.grown i h5 hi t ht).zone
  have hpos : 0 < s.largeCover x := by
    refine grownCover_pos hi (t := t.shape) ?_ hx
    rw [largeShapes_tail s h5]
    exact List.mem_map_of_mem ht
  exact ⟨⟨zi, hz, hin x hx⟩, Nat.lt_of_lt_of_le hpos (Nat.le_add_left _ _)⟩

/-- No word of an astray page is a word of a bitmap that is not astray. -/
theorem Parted.not_mapWord (hp : PoolLayout m₀ pool) (h : Parted m₀ pool s out near astray)
    (h5 : 5 ≤ i) (hi : i < KMALLOC_SLAB_SIZE) (ht : t ∈ (s.cache i).ring.tail) {a : Nat}
    (ha : t.Data (8 * a)) : ¬ s.trim.MapWord a := by
  rintro ⟨k, hk, v, hv, hm⟩
  have hx := (h.grown i h5 hi t ht).frame_mem ha
  refine (h.heap.toHeapCore.held (h.held h5 hi ht hx)).2.1 ?_
  exact h.heap.toHeapCore.frame_of_meta hp hk hv (h.heap.rings.meta_of_mapWord hp hk hv hm (by omega))

/-- A frame in two of the grown slabs would be held twice. -/
theorem grownCover_two {ring : Nat → List Slab} (hi : i < KMALLOC_SLAB_SIZE)
    (hj : j < KMALLOC_SLAB_SIZE) (hr : ring i = cp :: (pre ++ t :: post)) {x : Nat}
    (hx : Mem t.page 9 x) (hu : u ∈ (if j = i then pre ++ post else (ring j).tail))
    (hxu : Mem u.page 9 x) : 2 ≤ grownCover ring x := by
  have hdrop := grownCover_drop hi hr x
  have hpos : 0 < grownCover (Function.update ring i (cp :: (pre ++ post))) x := by
    refine grownCover_pos hj (t := u) ?_ hxu
    by_cases hji : j = i
    · rw [if_pos hji] at hu
      rw [hji, Function.update_self]
      exact hu
    · rw [if_neg hji] at hu
      rw [Function.update_of_ne hji]
      exact hu
  rw [ind_eq_one hx] at hdrop
  omega

/-- **Astray slabs** have different pages. -/
theorem Parted.page_ne (h : Parted m₀ pool s out near astray) (h5 : 5 ≤ i)
    (hi : i < KMALLOC_SLAB_SIZE) (hr : (s.cache i).ring = cp :: (pre ++ t :: post)) (h5' : 5 ≤ j)
    (hj : j < KMALLOC_SLAB_SIZE)
    (hu : u ∈ (if j = i then pre ++ post else (s.cache j).ring.tail)) : u.vaddress ≠ t.vaddress := by
  intro hv
  have ht : t ∈ (s.cache i).ring.tail := by rw [hr]; simp
  have hut : u ∈ (s.cache j).ring.tail := by
    by_cases hji : j = i
    · rw [if_pos hji, List.mem_append] at hu
      rw [hji, hr, List.tail_cons, List.mem_append, List.mem_cons]
      tauto
    · rwa [if_neg hji] at hu
  have hpage : u.page = t.page := by
    rw [(h.grown i h5 hi t ht).vaddress, (h.grown j h5' hj u hut).vaddress] at hv
    unfold phyToVirt PAGE_4K_SIZE PAGE_4K_SHIFT at hv
    omega
  have hx := mem_self t.page 9
  have hone := (h.heap.toHeapCore.held (h.held h5 hi ht hx)).1
  have htwo : 2 ≤ s.largeCover t.page := by
    refine @grownCover_two i j t.shape u.shape cp.shape (pre.map Slab.shape) (post.map Slab.shape)
      _ hi hj ?_ t.page hx ?_ (hpage ▸ hx)
    · rw [KMem.largeShapes, if_neg (Nat.not_lt.mpr h5), KMem.shapes, hr]
      simp
    · by_cases hji : j = i
      · rw [if_pos hji] at hu ⊢
        rw [← List.map_append]
        exact List.mem_map_of_mem hu
      · rw [if_neg hji] at hu ⊢
        rw [largeShapes_tail s h5']
        exact List.mem_map_of_mem hu
  omega

/-- A slab that is not astray and an astray one have different pages. -/
theorem Parted.page_ne_trim (hp : PoolLayout m₀ pool) (h : Parted m₀ pool s out near astray)
    (hi : i < KMALLOC_SLAB_SIZE) (ht : t ∈ (s.trim.cache i).ring) (h5 : 5 ≤ j)
    (hj : j < KMALLOC_SLAB_SIZE) (hu : u ∈ (s.cache j).ring.tail) : u.vaddress ≠ t.vaddress := by
  intro hv
  have hself : u.Data u.vaddress := ⟨le_rfl, Nat.lt_add_of_pos_right (Nat.two_pow_pos _)⟩
  have hx := (h.grown j h5 hj u hu).frame_mem hself
  refine (h.heap.toHeapCore.held (h.held h5 hj hu hx)).2.1 ?_
  refine h.heap.toHeapCore.frame_of_data hp hi (shape_mem ht) (a := u.vaddress) ?_
  rw [hv]
  exact ⟨le_rfl, Nat.lt_add_of_pos_right (Nat.two_pow_pos _)⟩

/-- **No two slabs have the same page.** -/
theorem Parted.owner (hp : PoolLayout m₀ pool) (h : Parted m₀ pool s out near astray)
    (hi : i < KMALLOC_SLAB_SIZE) (ht : t ∈ (s.cache i).ring) (hj : j < KMALLOC_SLAB_SIZE)
    (hu : u ∈ (s.cache j).ring) (hv : u.vaddress = t.vaddress) : j = i ∧ u = t := by
  rcases h.mem_cases hi ht with ht' | ⟨h5, ht'⟩
  · rcases h.mem_cases hj hu with hu' | ⟨h5', hu'⟩
    · -- two slabs of the trimmed heap
      have hcounts := h.heap.toHeapCore.counts hp
      obtain ⟨rfl, -⟩ := hcounts.apart.eq_of_vaddress (t := u.shape) (u := t.shape) hj hi
        (shape_mem hu') (shape_mem ht') hv
      have hnd := hcounts.apart.nodup j hj
      rw [KMem.shapes, List.map_map] at hnd
      exact ⟨rfl, List.inj_on_of_nodup_map hnd hu' ht' hv⟩
    · exact absurd hv (h.page_ne_trim hp hi ht' h5' hj hu')
  · rcases h.mem_cases hj hu with hu' | ⟨h5', hu'⟩
    · exact absurd hv.symm (h.page_ne_trim hp hj hu' h5 hi ht')
    · -- two astray slabs
      obtain ⟨cp, hr, -⟩ := h.ring_eq h5 hi
      obtain ⟨pre, post, hsplit⟩ := List.append_of_mem ht'
      rw [hsplit] at hr
      by_cases hji : j = i
      · refine ⟨hji, ?_⟩
        subst hji
        rw [hsplit, List.mem_append, List.mem_cons] at hu'
        by_contra hne
        refine h.page_ne h5 hi hr h5 hj (u := u) ?_ hv
        rw [if_pos rfl, List.mem_append]
        tauto
      · refine absurd hv (h.page_ne h5 hi hr h5' hj ?_)
        rw [if_neg hji]
        exact hu'

/-- **The headers of a ring** have different addresses. -/
theorem Parted.addrs (hp : PoolLayout m₀ pool) (h : Parted m₀ pool s out near astray)
    (h5 : 5 ≤ i) (hi : i < KMALLOC_SLAB_SIZE) : ((s.cache i).ring.map Slab.addr).Nodup := by
  obtain ⟨cp, hr, hcp, -⟩ := h.ring_eq h5 hi
  have haddrs : (s.shapes i).tail.map Slab.addr = (s.cache i).ring.tail.map Slab.addr := by
    rw [KMem.shapes, ← List.map_tail, List.map_map]
    rfl
  rw [hr, List.map_cons, List.nodup_cons]
  constructor
  · -- the header of `CachePool` is no object
    intro hmem
    obtain ⟨t, ht, he⟩ := List.mem_map.mp hmem
    have hhead : t.addr ∈ s.headers :=
      mem_headersOf.mpr ⟨i, h5, hi, t.shape, by
        rw [KMem.shapes, ← List.map_tail]; exact List.mem_map_of_mem ht, rfl⟩
    have hobj : (⟨t.addr, SLAB_STRUCT_SIZE⟩ : Obj) ∈ near ++ s.headerObjs :=
      List.mem_append_right _ (List.mem_map_of_mem hhead)
    have hpool : (pool i).shape ∈ s.trim.shapes i := by
      obtain ⟨grown, hst, -⟩ := h.heap.rings.start i hi
      rw [hst]
      exact List.mem_cons_self
    have hhas : Obj.Has ⟨t.addr, SLAB_STRUCT_SIZE⟩ t.addr :=
      ⟨le_rfl, Nat.lt_add_of_pos_right (show 0 < SLAB_STRUCT_SIZE by decide)⟩
    refine h.heap.not_meta hp hobj hhas hi hpool ?_
    have haddr : cp.addr = (pool i).addr :=
      (congrArg Slab.addr hcp : cp.shape.addr = (pool i).shape.addr)
    rw [he, haddr]
    exact hp.meta_addr hi
  · have hnd := h.heap.nodup
    rw [List.map_append, List.nodup_append] at hnd
    have hnd' : s.headers.Nodup := by
      have := hnd.2.1
      rw [KMem.headerObjs, List.map_map] at this
      exact this.of_map _
    rw [KMem.headers, headersOf, List.nodup_flatMap] at hnd'
    have := hnd'.1 i (List.mem_range.mpr hi)
    rw [if_neg (Nat.not_lt.mpr h5), haddrs] at this
    exact this

theorem Parted.addr_ne (hp : PoolLayout m₀ pool) (h : Parted m₀ pool s out near astray)
    (h5 : 5 ≤ i) (hi : i < KMALLOC_SLAB_SIZE) (hr : (s.cache i).ring = pre ++ t :: post) :
    ∀ u, u ∈ pre ∨ u ∈ post → u.addr ≠ t.addr := by
  have hnd := h.addrs hp h5 hi
  rw [hr, List.map_append, List.map_cons, List.nodup_append] at hnd
  rcases hnd with ⟨-, h2, h3⟩
  rintro u (hu | hu)
  · exact h3 _ (List.mem_map_of_mem hu) t.addr List.mem_cons_self
  · intro he
    have hmem : u.addr ∈ post.map Slab.addr := List.mem_map_of_mem hu
    exact (List.nodup_cons.mp h2).1 (he ▸ hmem)

/-! ## Finding a slab -/

/-- What the walk of `kfree` has found. -/
theorem findOwner_some {pageAddr : Nat} : ∀ fuel j : Nat,
    findOwner s pageAddr fuel j = some (i, t) → i < j + fuel ∧ (s.cache i).totalUse ≠ 0 ∧
      t ∈ (s.cache i).ring ∧ t.usingCount ≠ 0 ∧ t.vaddress = pageAddr := by
  intro fuel
  induction fuel with
  | zero => intro j h; exact absurd h (by simp [findOwner])
  | succ fuel ih =>
      intro j h
      rw [findOwner] at h
      split at h
      · rename_i slab hs
        obtain ⟨rfl, rfl⟩ := Prod.mk.inj (Option.some.inj h)
        split at hs
        · exact absurd hs (by simp)
        · rename_i htot
          have h1 := List.find?_some hs
          simp only [decide_eq_true_eq] at h1
          exact ⟨by omega, htot, List.mem_of_find?_eq_some hs, h1.1, h1.2⟩
      · obtain ⟨h1, h2⟩ := ih (j + 1) h
        exact ⟨by omega, h2⟩

/-- **`kfree` finds the slab of a page** that has an object in use. -/
theorem Parted.findOwner (hp : PoolLayout m₀ pool) (h : Parted m₀ pool s out near astray)
    (hi : i < KMALLOC_SLAB_SIZE) (ht : t ∈ (s.cache i).ring) (hu : t.usingCount ≠ 0) :
    Talios.findOwner s t.vaddress KMALLOC_SLAB_SIZE 0 = some (i, t) := by
  have hsum : ∀ l : List Slab, t ∈ l → (l.map Slab.usingCount).sum ≠ 0 := by
    intro l hl
    obtain ⟨pre, post, rfl⟩ := List.append_of_mem hl
    simp only [List.map_append, List.map_cons, List.sum_append, List.sum_cons]
    omega
  have htot : (s.cache i).totalUse ≠ 0 := by
    rcases Nat.lt_or_ge i 5 with h5 | h5
    · have := h.heap.totalUse i hi
      rw [trim_cache_small h5] at this
      rw [this]
      exact hsum _ ht
    · rw [h.totalUse i h5 hi]
      exact hsum _ ht
  exact findOwner_spec hi ht hu htot (fun j hj u hu' hv => h.owner hp hi ht hj hu' hv)

end

end Talios
