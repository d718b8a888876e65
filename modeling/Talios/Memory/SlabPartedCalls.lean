import Talios.Memory.SlabParted

set_option autoImplicit false

/-! # `kfree` and `kmalloc` with astray slabs

What the two calls do to a heap that satisfies `Parted`. On near objects they do what they do to the
trimmed heap; an astray slab keeps its page, and its counters are right whatever its bitmap holds.
-/

namespace Talios

open Word Bitmap Dyadic

section

variable {m₀ : MMS} {pool : Nat → Slab} {s s' : KMem} {out : Nat → Nat}
  {near astray : List Obj} {i j : Nat} {t u cp : Slab} {pre post : List Slab}

/-! ## Trimmed calls -/

theorem releaseObject_others (s : KMem) (i : Nat) (t : Slab) (ptr : Nat) (hj : j ≠ i) :
    (releaseObject s i t ptr).cache j = s.cache j := setCache_cache_ne _ hj _

theorem releaseObject_trim (s : KMem) (hi : i < 5) (t : Slab) (ptr : Nat) :
    (releaseObject s i t ptr).trim = releaseObject s.trim i t ptr := by
  unfold releaseObject
  dsimp only
  rw [trim_setCache_small _ hi, trim_cache_small hi]
  rfl

theorem dropSlab_trim (s : KMem) (hi : i < 5) (t : Slab) (use : Nat) :
    dropSlab s.trim i t use = (dropSlab s i t use).map KMem.trim := by
  unfold dropSlab
  dsimp only
  rw [trim_cache_small hi, Option.map_map, show s.trim.mms = s.mms from rfl]
  refine congrArg (fun f => (freePage s.mms t.page 1).map f) (funext fun r => ?_)
  exact (trim_setCache_small { s with mms := r.1 } hi _).symm

theorem dropSlab_others {use : Nat} (h : dropSlab s i t use = some s') (hj : j ≠ i) :
    s'.cache j = s.cache j := by
  obtain ⟨r, -, rfl⟩ := Option.map_eq_some_iff.mp h
  exact setCache_cache_ne _ hj _

/-- A bitmap of the trimmed heap is one of the heap. -/
theorem mapWord_of_trim {a : Nat} (h : s.trim.MapWord a) : s.MapWord a := by
  rcases h with ⟨k, hk, v, hv, hm⟩
  refine ⟨k, hk, v, ?_, hm⟩
  rcases Nat.lt_or_ge k 5 with h5 | h5
  · rw [KMem.shapes, trim_cache_small h5] at hv
    exact hv
  · rw [KMem.shapes, trim_cache_large h5, SlabCache.trim] at hv
    exact (List.map_subset Slab.shape (List.take_subset 1 _)) hv

/-- Rings of classes up to 0x200 bytes are those of the trimmed heap. -/
theorem shapes_sublist_of_trim (hsmall : ∀ j, (s'.trim.shapes j).Sublist (s.trim.shapes j))
    (hlarge : ∀ j, 5 ≤ j → (s'.shapes j).Sublist (s.shapes j)) (j : Nat) :
    (s'.shapes j).Sublist (s.shapes j) := by
  rcases Nat.lt_or_ge j 5 with h5 | h5
  · have := hsmall j
    rwa [KMem.shapes, KMem.shapes, trim_cache_small h5, trim_cache_small h5] at this
  · exact hlarge j h5

/-! ## Near objects -/

/-- The object of a slab that `kfree` finds is given back. -/
theorem Parted.release_head (hp : PoolLayout m₀ pool) (h : Parted m₀ pool s out near astray)
    (h5 : 5 ≤ i) (hi : i < KMALLOC_SLAB_SIZE) (hr : (s.cache i).ring = cp :: (s.cache i).ring.tail)
    (ptr : Nat) :
    ((releaseObject s i cp ptr).cache i).ring = cp.give :: (s.cache i).ring.tail ∧
      ((releaseObject s i cp ptr).cache i).totalUse = (s.cache i).totalUse - 1 ∧
      (releaseObject s i cp ptr).trim = releaseObject s.trim i cp ptr := by
  have hne : ∀ u, u ∈ [] ∨ u ∈ (s.cache i).ring.tail → u.addr ≠ cp.addr := h.addr_ne hp h5 hi hr
  have hring : replaceSlab cp.give (s.cache i).ring = cp.give :: (s.cache i).ring.tail := by
    have := replaceSlab_split (show cp.give.addr = cp.addr from rfl) hne
    rw [List.nil_append, List.nil_append, ← hr] at this
    exact this
  have hring' : replaceSlab cp.give [cp] = [cp.give] :=
    @replaceSlab_split cp cp.give [] [] (show cp.give.addr = cp.addr from rfl) (by simp)
  have htail : (s.cache i).trim = { s.cache i with
      totalFree := cp.freeCount, totalUse := cp.usingCount, ring := [cp] } := by
    rw [SlabCache.trim, hr]
    rfl
  refine ⟨?_, ?_, ?_⟩
  · unfold releaseObject
    dsimp only
    rw [setCache_cache_self]
    exact hring
  · unfold releaseObject
    dsimp only
    rw [setCache_cache_self]
  · unfold releaseObject
    dsimp only
    rw [trim_setCache_large _ h5, trim_cache_large h5, htail, hring]
    dsimp only
    rw [hring']
    rfl

/-- What a call of `kfree` leaves alone. -/
structure KfreeFrame (s s' : KMem) : Prop where
  word : ∀ a, ¬ s.MapWord a → s'.word a = s.word a
  shapes : ∀ j, (s'.shapes j).Sublist (s.shapes j)

theorem KfreeFrame.mapWord (h : KfreeFrame s s') {a : Nat} (ha : s'.MapWord a) : s.MapWord a := by
  rcases ha with ⟨k, hk, v, hv, hm⟩
  exact ⟨k, hk, v, (h.shapes k).mem hv, hm⟩

theorem KfreeFrame.trans {s'' : KMem} (h : KfreeFrame s s') (h' : KfreeFrame s' s'') :
    KfreeFrame s s'' :=
  ⟨fun a ha => (h'.word a (fun hm => ha (h.mapWord hm))).trans (h.word a ha),
    fun j => (h'.shapes j).trans (h.shapes j)⟩

/-- **`kfree` of a near object in a class up to 0x200 bytes.** -/
theorem Parted.kfree_small (hp : PoolLayout m₀ pool) (h : Parted m₀ pool s out near astray)
    (hi : i < 5) {b : Obj} (hb : b ∈ near) (hr : (s.trim.cache i).ring = pre ++ t :: post)
    (hfind : Talios.findOwner s (alignDown PAGE_2M_SIZE b.ptr) KMALLOC_SLAB_SIZE 0 = some (i, t))
    (hring : ((releaseObject s.trim i t b.ptr).cache i).ring = pre ++ t.give :: post)
    (hinv : HeapInv m₀ pool (releaseObject s.trim i t b.ptr) (fun x => out x + s.largeCover x)
      ((near ++ s.headerObjs).erase b))
    (hsh : (releaseObject s.trim i t b.ptr).shapes = s.trim.shapes)
    (hword : ∀ a, ¬ s.trim.MapWord a → (releaseObject s.trim i t b.ptr).word a = s.word a)
    (nested : KMem → Nat → Option (KMem × Bool)) :
    ∃ s', kfreeWith nested s b.ptr = some (s', true) ∧ Parted m₀ pool s' out (near.erase b) astray ∧
      KfreeFrame s s' := by
  have hi' := five_lt hi
  rw [List.erase_append_left _ hb] at hinv
  have htrim := releaseObject_trim s hi t b.ptr
  have hothers : ∀ j, 5 ≤ j → (releaseObject s i t b.ptr).cache j = s.cache j :=
    fun j h5 => releaseObject_others s i t b.ptr (by omega)
  have hring₁ : ((releaseObject s i t b.ptr).cache i).ring = pre ++ t.give :: post := by
    rw [← trim_cache_small hi, htrim]
    exact hring
  have hframe : KfreeFrame s (releaseObject s i t b.ptr) := by
    refine ⟨fun a ha => ?_, fun j => shapes_sublist_of_trim (fun k => ?_) (fun k h5 => ?_) j⟩
    · rw [← hword a (fun hm => ha (mapWord_of_trim hm)), ← htrim]
      rfl
    · rw [htrim, hsh]
    · rw [KMem.shapes, KMem.shapes, hothers k h5]
  have hparted : Parted m₀ pool (releaseObject s i t b.ptr) out (near.erase b) astray := by
    refine h.of_tails (fun j h5 _ => by rw [hothers j h5]) (fun j h5 hj => ?_) (by rw [htrim]; exact hinv)
    rw [hothers j h5]
    exact h.totalUse j h5 hj
  unfold kfreeWith
  rw [hfind]
  dsimp only
  split
  · exact ⟨_, rfl, hparted, hframe⟩
  · rename_i hkeep
    push Not at hkeep
    rcases hkeep with ⟨hu, -, hne⟩
    -- the slab is not `CachePool`
    obtain ⟨cp, pre', rfl⟩ := exists_cons_of_head_ne hring₁ hne
    rw [h.size hi', if_pos (mem_smallSizes hi)]
    obtain ⟨s₂, he, hinv₂, hw, hsub⟩ := hinv.drop hp hi' hring hu t.give.usingCount hu
    rw [← htrim, dropSlab_trim _ hi] at he
    obtain ⟨s', hdrop, rfl⟩ := Option.map_eq_some_iff.mp he
    have hothers' : ∀ j, 5 ≤ j → s'.cache j = s.cache j :=
      fun j h5 => (dropSlab_others hdrop (by omega)).trans (hothers j h5)
    refine ⟨s', by rw [hdrop]; rfl, ?_, hframe.trans ⟨fun a _ => ?_, fun j =>
      shapes_sublist_of_trim (fun k => ?_) (fun k h5 => ?_) j⟩⟩
    · refine h.of_tails (fun j h5 _ => by rw [hothers' j h5]) (fun j h5 hj => ?_) hinv₂
      rw [hothers' j h5]
      exact h.totalUse j h5 hj
    · have : s'.trim.word = (releaseObject s.trim i t b.ptr).word := hw
      rw [← htrim] at this
      exact congrFun this a
    · rw [htrim]
      exact hsub k
    · rw [KMem.shapes, KMem.shapes, hothers' k h5, hothers k h5]

/-- **`kfree` of a near object** takes it back. -/
theorem Parted.kfree_near (hp : PoolLayout m₀ pool) (h : Parted m₀ pool s out near astray) {b : Obj}
    (hb : b ∈ near) (nested : KMem → Nat → Option (KMem × Bool)) :
    ∃ s', kfreeWith nested s b.ptr = some (s', true) ∧ Parted m₀ pool s' out (near.erase b) astray ∧
      KfreeFrame s s' := by
  obtain ⟨i, hi, pre, t, post, hr, hfind, hring, hinv, hsh, hword⟩ :=
    h.heap.release hp (List.mem_append_left _ hb)
  obtain ⟨-, -, htm, hu, hv⟩ := findOwner_some _ _ hfind
  have htm' : t ∈ (s.cache i).ring := by
    rcases Nat.lt_or_ge i 5 with h5 | h5
    · rwa [trim_cache_small h5] at htm
    · rw [trim_cache_large h5, SlabCache.trim] at htm
      exact List.take_subset 1 _ htm
  have hfind' : Talios.findOwner s (alignDown PAGE_2M_SIZE b.ptr) KMALLOC_SLAB_SIZE 0 = some (i, t) := by
    rw [← hv]
    exact h.findOwner hp hi htm' hu
  rcases Nat.lt_or_ge i 5 with h5 | h5
  · exact h.kfree_small hp h5 hb hr hfind' hring hinv hsh hword nested
  · -- the object lies in `CachePool`, which stays
    obtain ⟨cp, hcp, -, htrim⟩ := h.ring_eq h5 hi
    rw [htrim, List.mem_singleton] at htm
    subst htm
    obtain ⟨hring₁, huse₁, htrim₁⟩ := h.release_head hp h5 hi hcp b.ptr
    have hothers : ∀ j, j ≠ i → (releaseObject s i t b.ptr).cache j = s.cache j :=
      fun j hj => releaseObject_others s i t b.ptr hj
    rw [List.erase_append_left _ hb] at hinv
    refine ⟨releaseObject s i t b.ptr, ?_, ?_, fun a ha => ?_, fun j => ?_⟩
    · unfold kfreeWith
      rw [hfind']
      dsimp only
      rw [if_pos]
      refine Or.inr (Or.inr ?_)
      rw [hring₁]
      rfl
    · refine h.of_tails (fun j _ _ => ?_) (fun j h5' hj => ?_) (by rw [htrim₁]; exact hinv)
      · by_cases hji : j = i
        · rw [hji, hring₁, List.tail_cons]
        · rw [hothers j hji]
      · by_cases hji : j = i
        · subst hji
          have hsum := h.totalUse j h5 hj
          rw [hcp] at hsum
          simp only [List.map_cons, List.sum_cons] at hsum
          rw [huse₁, hring₁, hsum]
          simp only [List.map_cons, List.sum_cons, Slab.give]
          omega
        · rw [hothers j hji]
          exact h.totalUse j h5' hj
    · have hkept := hword a (fun hm => ha (mapWord_of_trim hm))
      rw [← htrim₁] at hkept
      exact hkept
    · by_cases hji : j = i
      · rw [hji, KMem.shapes, KMem.shapes, hring₁, hcp]
        exact List.Sublist.refl _
      · rw [KMem.shapes, KMem.shapes, hothers j hji]

/-! ## Astray objects -/

/-- An astray slab has its objects in its page. -/
theorem GrownSlab.objects (h : GrownSlab m₀ i t) (h5 : 5 ≤ i) :
    t.colorCount * kmallocSize i ≤ PAGE_2M_SIZE ∧ t.colorCount ≤ 64 * t.colorLength := by
  have hsh := h.large h5
  have h1 := congrArg Slab.colorCount hsh
  have h2 := congrArg Slab.colorLength hsh
  simp only [Slab.shape, largeSlab] at h1 h2
  rw [h1, h2]
  refine ⟨Nat.div_mul_le_self .., ?_⟩
  unfold bitsMapLength
  omega

theorem GrownSlab.inPage (h : GrownSlab m₀ i t) (h5 : 5 ≤ i) {b : Obj} (hj : j < t.colorCount)
    (hb : b.ptr = t.vaddress + j * kmallocSize i) : b.InPage t.vaddress := by
  have h1 := (h.objects h5).1
  have h2 : (j + 1) * kmallocSize i ≤ t.colorCount * kmallocSize i := Nat.mul_le_mul_right _ hj
  have h3 := kmallocSize_pos i
  obtain ⟨q, hq⟩ := h.page_aligned
  rw [Nat.add_mul] at h2
  unfold Obj.InPage alignDown
  unfold PAGE_2M_SIZE PAGE_2M_SHIFT at *
  omega

theorem GrownSlab.data_of_mapWord (h : GrownSlab m₀ i t) {a : Nat} (ha : t.MapWord a) :
    t.Data (8 * a) := by
  obtain ⟨h1, h2⟩ := mapWord_addr h.colorMap_aligned ha
  exact h.data_of_map h1 h2

/-- The counters of an astray slab are set, and its bitmap is written. -/
structure SetsAstray (s s' : KMem) (i : Nat) (cp : Slab) (pre : List Slab) (t t' : Slab)
    (post : List Slab) : Prop where
  ring : (s.cache i).ring = cp :: (pre ++ t :: post)
  ring' : (s'.cache i).ring = cp :: (pre ++ t' :: post)
  shape : t'.shape = t.shape
  others : ∀ k ≠ i, s'.cache k = s.cache k
  word : ∀ a, ¬ t.MapWord a → s'.word a = s.word a
  trim : s'.trim = { s.trim with word := s'.word }

theorem SetsAstray.shapes {t' : Slab} (h : SetsAstray s s' i cp pre t t' post) :
    s'.shapes = s.shapes := by
  funext k
  by_cases hk : k = i
  · rw [hk, KMem.shapes, KMem.shapes, h.ring', h.ring]
    simp only [List.map_cons, List.map_append, h.shape]
  · rw [KMem.shapes, KMem.shapes, h.others k hk]

/-- The class as a whole, where the ring of the trimmed heap is not changed. -/
theorem setsAstray_setCache {t' : Slab} (h5 : 5 ≤ i) (hr : (s.cache i).ring = cp :: (pre ++ t :: post))
    (hsh : t'.shape = t.shape) {w : Memory} (hw : ∀ a, ¬ t.MapWord a → w a = s.word a)
    (free use : Nat) :
    SetsAstray s ({ s with word := w }.setCache i { s.cache i with
      totalFree := free, totalUse := use, ring := cp :: (pre ++ t' :: post) }) i cp pre t t' post := by
  refine ⟨hr, by rw [setCache_cache_self], hsh, fun k hk => setCache_cache_ne _ hk _, hw, ?_⟩
  rw [trim_setCache_large _ h5]
  have hcache : (s.trim.setCache i (SlabCache.trim { s.cache i with
      totalFree := free, totalUse := use, ring := cp :: (pre ++ t' :: post) })).cache
      = s.trim.cache := by
    refine Function.update_eq_iff.mpr ⟨?_, fun _ _ => rfl⟩
    rw [trim_cache_large h5, SlabCache.trim, SlabCache.trim, hr]
    rfl
  exact congrArg (KMem.mk s.mms w) hcache

theorem headers_of_shapes (h : s'.shapes = s.shapes) :
    s'.headerObjs = s.headerObjs ∧ s'.largeCover = s.largeCover := by
  constructor
  · rw [KMem.headerObjs, KMem.headerObjs, KMem.headers, KMem.headers, h]
  · funext x
    unfold KMem.largeCover KMem.largeShapes
    rw [h]

theorem GrownSlab.congr {t' : Slab} (h : GrownSlab m₀ i t) (hsh : t'.shape = t.shape) :
    GrownSlab m₀ i t' := by
  have hv : t'.vaddress = t.vaddress := (congrArg Slab.vaddress hsh : t'.shape.vaddress = t.shape.vaddress)
  have hpg : t'.page = t.page := (congrArg Slab.page hsh : t'.shape.page = t.shape.page)
  have ha : t'.addr = t.addr := (congrArg Slab.addr hsh : t'.shape.addr = t.shape.addr)
  refine ⟨⟨by rw [hv, hpg]; exact h.vaddress, by rw [hpg]; exact h.aligned,
    by rw [hpg]; exact h.zone, by rw [hpg]; exact h.frames⟩, fun h5 => ?_, fun h5 => ?_⟩
  · rw [hsh, hpg]
    exact h.small h5
  · rw [hsh, hpg, ha]
    exact h.large h5

/-- **An astray slab changes its counters**, and the list of astray objects with them. -/
theorem Parted.setAstray (hp : PoolLayout m₀ pool) (h : Parted m₀ pool s out near astray)
    (h5 : 5 ≤ i) (hi : i < KMALLOC_SLAB_SIZE) {t' : Slab} (hset : SetsAstray s s' i cp pre t t' post)
    {astray' : List Obj}
    (htot : (s'.cache i).totalUse + t.usingCount = (s.cache i).totalUse + t'.usingCount)
    (huse : t'.usingCount = astray'.countP (fun c => decide (c.InPage t.vaddress)))
    (hcount : ∀ v, v ≠ t.vaddress → astray'.countP (fun c => decide (c.InPage v))
      = astray.countP (fun c => decide (c.InPage v)))
    (hinside : ∀ c ∈ astray', c ∈ astray ∨ ∃ j < t.colorCount,
      c.ptr = t.vaddress + j * kmallocSize i ∧ c.size ≤ kmallocSize i) :
    Parted m₀ pool s' out near astray' := by
  have hr := hset.ring
  have ht : t ∈ (s.cache i).ring.tail := by rw [hr]; simp
  have hg := h.grown i h5 hi t ht
  have hv : t'.vaddress = t.vaddress :=
    (congrArg Slab.vaddress hset.shape : t'.shape.vaddress = t.shape.vaddress)
  have hc : t'.colorCount = t.colorCount :=
    (congrArg Slab.colorCount hset.shape : t'.shape.colorCount = t.shape.colorCount)
  obtain ⟨h1, h2⟩ := headers_of_shapes hset.shapes
  have hself : t' ∈ (s'.cache i).ring.tail := by rw [hset.ring']; simp
  -- a slab afterwards is the one that has changed, or another one
  have hcases : ∀ k u, u ∈ (s'.cache k).ring.tail → (k = i ∧ u = t') ∨
      u ∈ (if k = i then pre ++ post else (s.cache k).ring.tail) := by
    intro k u hu
    by_cases hk : k = i
    · subst hk
      rw [hset.ring', List.tail_cons, List.mem_append, List.mem_cons] at hu
      rw [if_pos rfl, List.mem_append]
      tauto
    · rw [hset.others k hk] at hu
      rw [if_neg hk]
      exact Or.inr hu
  have hold : ∀ k u, u ∈ (if k = i then pre ++ post else (s.cache k).ring.tail) →
      u ∈ (s.cache k).ring.tail := by
    intro k u hu
    by_cases hk : k = i
    · rw [if_pos hk, List.mem_append] at hu
      rw [hk, hr, List.tail_cons, List.mem_append, List.mem_cons]
      tauto
    · rwa [if_neg hk] at hu
  refine ⟨?_, fun k hk5 hk u hu => ?_, fun k hk5 hk u hu => ?_, fun k hk5 hk => ?_, fun c hc' => ?_⟩
  · rw [h1, h2, hset.trim]
    refine h.heap.setWord (fun a ha => hset.word a (fun hm => ?_))
    exact h.not_mapWord hp h5 hi ht (hg.data_of_mapWord hm) ha
  · rcases hcases k u hu with ⟨rfl, rfl⟩ | hu'
    · exact hg.congr hset.shape
    · exact h.grown k hk5 hk u (hold k u hu')
  · rcases hcases k u hu with ⟨rfl, rfl⟩ | hu'
    · rw [hv]
      exact huse
    · rw [hcount _ (h.page_ne h5 hi hr hk5 hk hu')]
      exact h.use k hk5 hk u (hold k u hu')
  · by_cases hki : k = i
    · have hsum := h.totalUse i h5 hi
      rw [hr] at hsum
      rw [hki, hset.ring']
      simp only [List.map_cons, List.map_append, List.sum_cons, List.sum_append] at hsum ⊢
      omega
    · rw [hset.others k hki]
      exact h.totalUse k hk5 hk
  · rcases hinside c hc' with hc' | ⟨l, hl, hptr, hsz⟩
    · obtain ⟨k, hk5, hk, u, hu, l, hl, hptr, hsz⟩ := h.inside c hc'
      by_cases hki : k = i
      · subst hki
        rw [hr, List.tail_cons, List.mem_append, List.mem_cons] at hu
        rcases hu with hu | rfl | hu
        · exact ⟨k, hk5, hk, u, by rw [hset.ring']; simp [hu], l, hl, hptr, hsz⟩
        · exact ⟨k, hk5, hk, t', hself, l, by rw [hc]; exact hl, by rw [hv]; exact hptr, hsz⟩
        · exact ⟨k, hk5, hk, u, by rw [hset.ring']; simp [hu], l, hl, hptr, hsz⟩
      · exact ⟨k, hk5, hk, u, by rw [hset.others k hki]; exact hu, l, hl, hptr, hsz⟩
    · exact ⟨i, h5, hi, t', hself, l, by rw [hc]; exact hl, by rw [hv]; exact hptr, hsz⟩

/-- An astray object is marked free. -/
theorem Parted.release_astray (hp : PoolLayout m₀ pool) (h : Parted m₀ pool s out near astray)
    (h5 : 5 ≤ i) (hi : i < KMALLOC_SLAB_SIZE) (hr : (s.cache i).ring = cp :: (pre ++ t :: post))
    {b : Obj} (hb : b ∈ astray) (hj : j < t.colorCount)
    (hptr : b.ptr = t.vaddress + j * kmallocSize i) :
    SetsAstray s (releaseObject s i t b.ptr) i cp pre t t.give post ∧
      Parted m₀ pool (releaseObject s i t b.ptr) out near (astray.erase b) := by
  have ht : t ∈ (s.cache i).ring.tail := by rw [hr]; simp
  have hg := h.grown i h5 hi t ht
  have hpage : b.InPage t.vaddress := hg.inPage h5 hj hptr
  have hoff : (b.ptr - alignDown PAGE_2M_SIZE b.ptr) / (s.cache i).size = j := by
    rw [show alignDown PAGE_2M_SIZE b.ptr = t.vaddress from hpage, h.size hi, hptr,
      Nat.add_sub_cancel_left]
    exact Nat.mul_div_cancel _ (kmallocSize_pos i)
  have hring : replaceSlab t.give (s.cache i).ring = cp :: (pre ++ t.give :: post) := by
    have hr' : (s.cache i).ring = (cp :: pre) ++ t :: post := hr
    rw [hr']
    exact replaceSlab_split (show t.give.addr = t.addr from rfl) (h.addr_ne hp h5 hi hr')
  have hrel : releaseObject s i t b.ptr = { s with word := flipBit s.word (t.colorMap / 8) j }.setCache i
      { s.cache i with
        totalFree := (s.cache i).totalFree + 1, totalUse := (s.cache i).totalUse - 1,
        ring := cp :: (pre ++ t.give :: post) } := by
    unfold releaseObject
    dsimp only
    rw [hoff, hring]
  have hset : SetsAstray s (releaseObject s i t b.ptr) i cp pre t t.give post := by
    rw [hrel]
    refine setsAstray_setCache h5 hr (show t.give.shape = t.shape from rfl)
      (fun a ha => flipBit_of_ne (fun he => ha ?_)) _ _
    have := (hg.objects h5).2
    exact ⟨by omega, by omega⟩
  have hcount : ∀ v, (astray.erase b).countP (fun c => decide (c.InPage v))
      = astray.countP (fun c => decide (c.InPage v)) - if v = t.vaddress then 1 else 0 := by
    intro v
    rw [List.countP_erase]
    refine congrArg _ (if_congr ?_ rfl rfl)
    rw [decide_eq_true_eq]
    exact ⟨fun hc => hc.2.symm.trans hpage, fun hc => ⟨hb, by rw [hc]; exact hpage⟩⟩
  have huse := h.use i h5 hi t ht
  have hpos : 0 < t.usingCount := by
    rw [huse]
    exact List.countP_pos_iff.mpr ⟨b, hb, decide_eq_true hpage⟩
  refine ⟨hset, h.setAstray hp h5 hi hset ?_ ?_ (fun v hv => ?_)
    (fun c hc => Or.inl (List.mem_of_mem_erase hc))⟩
  · have hsum := h.totalUse i h5 hi
    rw [hr] at hsum
    simp only [List.map_cons, List.map_append, List.sum_cons, List.sum_append] at hsum
    rw [hrel, setCache_cache_self]
    show (s.cache i).totalUse - 1 + t.usingCount = (s.cache i).totalUse + (t.usingCount - 1)
    omega
  · rw [hcount, if_pos rfl, ← huse]
    rfl
  · rw [hcount, if_neg hv, Nat.sub_zero]

/-- **An astray slab without objects** leaves its class; its header is an object that is still to be
given back. -/
theorem Parted.drop_astray (hp : PoolLayout m₀ pool) (h : Parted m₀ pool s out near astray)
    (h5 : 5 ≤ i) (hi : i < KMALLOC_SLAB_SIZE) (hr : (s.cache i).ring = cp :: (pre ++ t :: post))
    (hempty : t.usingCount = 0) :
    ∃ s', dropSlab s i t 0 = some s' ∧
      Parted m₀ pool s' out (⟨t.addr, SLAB_STRUCT_SIZE⟩ :: near) astray ∧ KfreeFrame s s' := by
  have ht : t ∈ (s.cache i).ring.tail := by rw [hr]; simp
  have hg := h.grown i h5 hi t ht
  obtain ⟨zi, hz, hin⟩ := hg.zone
  -- the page goes back
  obtain ⟨m', hfree, hinv⟩ := @HeapInv.pagesGiven _ _ _ _ _ h.heap t.page zi (1 * 2 ^ 9) hz
    (by rw [getOrder_block]; decide) (by rw [getOrder_block]; exact hg.aligned)
    (by rw [getOrder_block]; exact hin) (fun x => by
      rw [getOrder_block, ind]
      split
      · rename_i hx
        exact (h.held h5 hi ht hx).out
      · exact Nat.zero_le _)
  rw [getOrder_block] at hinv
  have hring : (s.cache i).ring.eraseP (fun u => u.addr = t.addr) = cp :: (pre ++ post) := by
    have hr' : (s.cache i).ring = (cp :: pre) ++ t :: post := hr
    have hne := h.addr_ne hp h5 hi hr'
    rw [hr', List.eraseP_append_right _ (fun u hu => by simpa using (hne u (Or.inl hu)))]
    simp
  set c' : SlabCache := { s.cache i with
    totalFree := (s.cache i).totalFree - t.freeCount, totalUse := (s.cache i).totalUse
    ring := cp :: (pre ++ post) } with hc'
  set s' := { s with mms := m' }.setCache i c' with hs'
  have hdrop : dropSlab s i t 0 = some s' := by
    unfold dropSlab freePage
    rw [show freePages s.mms t.page (1 * 2 ^ 9) = _ from hfree]
    dsimp only [Option.map]
    rw [hring, Nat.sub_zero]
  have hself : s'.cache i = c' := setCache_cache_self ..
  have hothers : ∀ k ≠ i, s'.cache k = s.cache k := fun k hk => setCache_cache_ne _ hk _
  have htrim : s'.trim = { s.trim with mms := m' } := by
    rw [hs', trim_setCache_large _ h5]
    have hcache : (s.trim.setCache i c'.trim).cache = s.trim.cache := by
      refine Function.update_eq_iff.mpr ⟨?_, fun _ _ => rfl⟩
      rw [trim_cache_large h5, SlabCache.trim, SlabCache.trim, hr]
      rfl
    exact congrArg (KMem.mk m' s.word) hcache
  have hshapes : s.shapes i = cp.shape :: (pre.map Slab.shape ++ t.shape :: post.map Slab.shape) := by
    rw [KMem.shapes, hr]; simp
  have hshapes' : s'.shapes = Function.update s.shapes i
      (cp.shape :: (pre.map Slab.shape ++ post.map Slab.shape)) := by
    rw [hs', shapes_setCache, hc']
    simp only [List.map_cons, List.map_append]
    rfl
  have hheaders : (near ++ s.headerObjs).Perm
      ((⟨t.addr, SLAB_STRUCT_SIZE⟩ :: near) ++ s'.headerObjs) := by
    have hperm := (headersOf_drop h5 hi hshapes).map (fun a => (⟨a, SLAB_STRUCT_SIZE⟩ : Obj))
    rw [← hshapes'] at hperm
    exact (hperm.append_left near).trans List.perm_middle
  have hcover : ∀ x, s'.largeCover x = s.largeCover x - ind t.page 9 x := by
    intro x
    have hl : s'.largeShapes = Function.update s.largeShapes i
        (cp.shape :: (pre.map Slab.shape ++ post.map Slab.shape)) := by
      funext k
      unfold KMem.largeShapes
      by_cases hk : k = i
      · rw [hk, Function.update_self, if_neg (Nat.not_lt.mpr h5), hshapes', Function.update_self]
      · rw [Function.update_of_ne hk, hshapes', Function.update_of_ne hk]
    rw [KMem.largeCover, hl]
    refine grownCover_drop (n := t.shape) hi ?_ x
    rw [KMem.largeShapes, if_neg (Nat.not_lt.mpr h5)]
    exact hshapes
  have hsub : ∀ k, ((s'.cache k).ring.tail).Sublist (s.cache k).ring.tail := by
    intro k
    by_cases hk : k = i
    · rw [hk, hself, hr, List.tail_cons, List.tail_cons]
      exact (List.sublist_cons_self t post).append_left pre
    · rw [hothers k hk]
  refine ⟨s', hdrop, ⟨?_, fun k hk5 hk u hu => h.grown k hk5 hk u ((hsub k).mem hu),
    fun k hk5 hk u hu => h.use k hk5 hk u ((hsub k).mem hu), fun k hk5 hk => ?_, fun c hc => ?_⟩,
    fun a _ => rfl, fun k => ?_⟩
  · have hout : (fun x => out x + s'.largeCover x)
        = fun x => out x + s.largeCover x - ind t.page 9 x := by
      funext x
      rw [hcover]
      have hle : ind t.page 9 x ≤ s.largeCover x := by
        unfold ind
        split
        · rename_i hx
          have := (h.heap.toHeapCore.held (h.held h5 hi ht hx)).1
          refine grownCover_pos hi (t := t.shape) ?_ hx
          rw [largeShapes_tail s h5]
          exact List.mem_map_of_mem ht
        · exact Nat.zero_le _
      omega
    rw [htrim, hout]
    exact hinv.perm hheaders
  · by_cases hki : k = i
    · subst hki
      have hsum := h.totalUse k hk5 hk
      rw [hr] at hsum
      rw [hself, hc']
      simp only [List.map_cons, List.map_append, List.sum_cons, List.sum_append] at hsum ⊢
      omega
    · rw [hothers k hki]
      exact h.totalUse k hk5 hk
  · -- no object lies in the slab that has left
    obtain ⟨k, hk5, hk, u, hu, l, hl, hptr, hsz⟩ := h.inside c hc
    refine ⟨k, hk5, hk, u, ?_, l, hl, hptr, hsz⟩
    have hne : u ≠ t := by
      rintro rfl
      have hzero := h.use k hk5 hk u hu
      rw [hempty, eq_comm, List.countP_eq_zero] at hzero
      exact hzero c hc (decide_eq_true ((h.grown k hk5 hk u hu).inPage hk5 hl hptr))
    by_cases hki : k = i
    · subst hki
      rw [hself, hc']
      rw [hr, List.tail_cons, List.mem_append, List.mem_cons] at hu
      rw [List.tail_cons, List.mem_append]
      tauto
    · rw [hothers k hki]
      exact hu
  · by_cases hki : k = i
    · rw [hki, hshapes', Function.update_self, hshapes]
      exact ((List.sublist_cons_self _ _).append_left _).cons_cons _
    · rw [hshapes', Function.update_of_ne hki]

/-- **`kfree` of an astray object** takes it back. -/
theorem Parted.kfree_astray (hp : PoolLayout m₀ pool) (h : Parted m₀ pool s out near astray) {b : Obj}
    (hb : b ∈ astray) :
    ∃ s', kfree s b.ptr = some (s', true) ∧ Parted m₀ pool s' out near (astray.erase b) ∧
      KfreeFrame s s' := by
  obtain ⟨i, h5, hi, t, ht, j, hj, hptr, -⟩ := h.inside b hb
  have hg := h.grown i h5 hi t ht
  have hpage := hg.inPage h5 hj hptr
  obtain ⟨cp, hcp, -⟩ := h.ring_eq h5 hi
  obtain ⟨pre, post, hsplit⟩ := List.append_of_mem ht
  rw [hsplit] at hcp
  have huse : t.usingCount ≠ 0 := by
    rw [h.use i h5 hi t ht]
    exact Nat.pos_iff_ne_zero.mp (List.countP_pos_iff.mpr ⟨b, hb, decide_eq_true hpage⟩)
  have hfind := h.findOwner hp hi (List.mem_of_mem_tail ht) huse
  obtain ⟨hset, hparted⟩ := h.release_astray hp h5 hi hcp hb hj hptr
  have hframe : KfreeFrame s (releaseObject s i t b.ptr) := by
    refine ⟨fun a ha => hset.word a (fun hm => ha ?_), fun k => by rw [hset.shapes]⟩
    exact ⟨i, hi, t.shape, shape_mem (List.mem_of_mem_tail ht), hm⟩
  rw [kfree, kfreeWith, show alignDown PAGE_2M_SIZE b.ptr = t.vaddress from hpage, hfind]
  dsimp only
  split
  · exact ⟨_, rfl, hparted, hframe⟩
  · rename_i hkeep
    push Not at hkeep
    rcases hkeep with ⟨hu, -, -⟩
    rw [h.size hi, if_neg (mem_largeSizes h5 hi).1]
    -- the slab leaves, and then its header is given back
    obtain ⟨s₂, hdrop, hparted₂, hframe₂⟩ := hparted.drop_astray hp h5 hi hset.ring' hu
    obtain ⟨s', he, hparted', hframe'⟩ := hparted₂.kfree_near hp
      (b := ⟨t.give.addr, SLAB_STRUCT_SIZE⟩) List.mem_cons_self (fun _ _ => none)
    have he' : kfreeWith (fun _ _ => none) s₂ t.addr = some (s', true) := he
    rw [hdrop]
    dsimp only
    refine ⟨s', by rw [he']; rfl, ?_, (hframe.trans hframe₂).trans hframe'⟩
    rw [List.erase_cons_head] at hparted'
    exact hparted'

end

end Talios
