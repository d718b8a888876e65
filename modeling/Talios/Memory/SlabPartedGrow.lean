import Talios.Memory.SlabPartedCalls

set_option autoImplicit false

/-! # `kmalloc` with astray slabs

`KmallocCase` lists what a call of `kmalloc` can do. `Parted.kmalloc_spec` says that the invariant
survives each of them, while no object is handed out that reaches into a header (`LastRoom`).
-/

namespace Talios

open Word Bitmap Dyadic

/-! ## What a call can do -/

/-- A call of `kmalloc` that comes back, case by case. -/
inductive KmallocCase (nested : KMem → Nat → Option (KMem × Option Nat)) (s : KMem) (size : Nat) :
    KMem → Option Nat → Prop
  | refused : KmallocCase nested s size s none
  | taken {s' : KMem} {r : Option Nat} (i : Nat)
      (hc : findClass s size KMALLOC_SLAB_SIZE 0 = some i) (hle : size ≤ 0x100000)
      (hf : (s.cache i).totalFree ≠ 0) (ha : allocSlab s i = (s', r)) :
      KmallocCase nested s size s' r
  | noPage {mms : MMS} (hp : allocPage s.mms ZONE_NORMAL_INDEX 1 0 = some (mms, none)) :
      KmallocCase nested s size { s with mms := mms } none
  | small {s' : KMem} {r : Option Nat} (i : Nat) {mms : MMS} {page : Nat}
      (hc : findClass s size KMALLOC_SLAB_SIZE 0 = some i) (hle : size ≤ 0x100000)
      (hf : (s.cache i).totalFree = 0)
      (hp : allocPage s.mms ZONE_NORMAL_INDEX 1 0 = some (mms, some page))
      (hs : (s.cache i).size ∈ smallSizes)
      (ha : allocSlab (growSmall { s with mms := mms } i page) i = (s', r)) :
      KmallocCase nested s size s' r
  | large {s' s₂ : KMem} {r : Option Nat} (i : Nat) {mms : MMS} {page addr : Nat}
      (hc : findClass s size KMALLOC_SLAB_SIZE 0 = some i) (hle : size ≤ 0x100000)
      (hf : (s.cache i).totalFree = 0)
      (hp : allocPage s.mms ZONE_NORMAL_INDEX 1 0 = some (mms, some page))
      (hs : (s.cache i).size ∉ smallSizes)
      (hn : nested { s with mms := mms } SLAB_STRUCT_SIZE = some (s₂, some addr))
      (ha : allocSlab (growLarge s₂ i page addr) i = (s', r)) :
      KmallocCase nested s size s' r
  | illegal {mms mms' : MMS} {page : Nat} {ok : Bool} (i : Nat)
      (hc : findClass s size KMALLOC_SLAB_SIZE 0 = some i)
      (hp : allocPage s.mms ZONE_NORMAL_INDEX 1 0 = some (mms, some page))
      (hs : (s.cache i).size ∉ smallSizes) (hl : (s.cache i).size ∉ largeSizes)
      (hfree : freePage mms page 1 = some (mms', ok)) :
      KmallocCase nested s size { s with mms := mms' } none

section

variable {nested : KMem → Nat → Option (KMem × Option Nat)} {s s' : KMem} {size i : Nat}
  {r : Option Nat}

theorem kmallocWith_cases (he : kmallocWith nested s size = some (s', r)) :
    KmallocCase nested s size s' r := by
  unfold kmallocWith at he
  split at he
  · obtain ⟨rfl, rfl⟩ := Prod.mk.inj (Option.some.inj he)
    exact KmallocCase.refused
  rename_i hle
  split at he
  · obtain ⟨rfl, rfl⟩ := Prod.mk.inj (Option.some.inj he)
    exact KmallocCase.refused
  rename_i i hc
  split at he
  · rename_i hf
    split at he
    · exact absurd he (by simp)
    · rename_i mms hp
      obtain ⟨rfl, rfl⟩ := Prod.mk.inj (Option.some.inj he)
      exact KmallocCase.noPage hp
    · rename_i mms page hp
      dsimp only at he
      split at he
      · rename_i hs
        exact KmallocCase.small i hc (Nat.le_of_not_lt hle) hf hp hs (Option.some.inj he)
      · rename_i hs
        split at he
        · split at he
          · rename_i s₂ addr hn
            exact KmallocCase.large i hc (Nat.le_of_not_lt hle) hf hp hs hn (Option.some.inj he)
          · exact absurd he (by simp)
        · rename_i hl
          obtain ⟨⟨mms', ok⟩, hfree, hr'⟩ := Option.map_eq_some_iff.mp he
          obtain ⟨rfl, rfl⟩ := Prod.mk.inj hr'
          exact KmallocCase.illegal i hc hp hs hl hfree
  · rename_i hf
    exact KmallocCase.taken i hc (Nat.le_of_not_lt hle) hf (Option.some.inj he)

/-! ## The walk of `AllocSlab` -/

/-- Whatever the bitmaps hold, the walk takes an object of a slab that counts a free one. -/
theorem allocRing_taken {word : Memory} {size : Nat} :
    ∀ (ring : List Slab) {x : List Slab × Memory × Nat}, allocRing word size ring = some x →
      ∃ pre t post j, ring = pre ++ t :: post ∧ t.freeCount ≠ 0 ∧ j < t.colorCount ∧
        x = (pre ++ t.take :: post, setBit word (t.colorMap / 8) j, t.vaddress + j * size) := by
  intro ring
  induction ring with
  | nil => intro x h; exact absurd h (by simp [allocRing])
  | cons t rest ih =>
      intro x h
      rw [allocRing] at h
      split at h
      · rename_i j hj
        split at hj
        · exact absurd hj (by simp)
        · rename_i hf
          refine ⟨[], t, rest, j, rfl, hf, ?_, (Option.some.inj h).symm⟩
          have hs := @scan_spec word (t.colorMap / 8) t.colorCount t.colorCount 0 (by omega) (Or.inl rfl)
          rw [show scan word (t.colorMap / 8) t.colorCount t.colorCount 0 = some j from hj] at hs
          exact hs.2.1
      · obtain ⟨y, hy, rfl⟩ := Option.map_eq_some_iff.mp h
        obtain ⟨pre, u, post, j, rfl, hf, hj, rfl⟩ := ih hy
        exact ⟨t :: pre, u, post, j, rfl, hf, hj, rfl⟩

/-- What `AllocSlab` does, whatever the bitmaps hold. -/
theorem allocSlab_taken {p : Nat} (h : allocSlab s i = (s', some p)) :
    ∃ pre t post j, (s.cache i).ring = pre ++ t :: post ∧ t.freeCount ≠ 0 ∧ j < t.colorCount ∧
      p = t.vaddress + j * (s.cache i).size ∧
      s' = { s with word := setBit s.word (t.colorMap / 8) j }.setCache i { s.cache i with
        totalFree := (s.cache i).totalFree - 1, totalUse := (s.cache i).totalUse + 1,
        ring := pre ++ t.take :: post } := by
  unfold allocSlab at h
  dsimp only at h
  split at h
  · rename_i ring word addr hr
    obtain ⟨pre, t, post, j, hring, hf, hj, hx⟩ := allocRing_taken _ hr
    obtain ⟨rfl, hx'⟩ := Prod.mk.inj hx
    obtain ⟨rfl, rfl⟩ := Prod.mk.inj hx'
    obtain ⟨rfl, hp⟩ := Prod.mk.inj h
    exact ⟨pre, t, post, j, hring, hf, hj, (Option.some.inj hp).symm, rfl⟩
  · exact absurd (Prod.mk.inj h).2 (by simp)

theorem allocSlab_none (h : allocSlab s i = (s', none)) : s' = s := by
  unfold allocSlab at h
  dsimp only at h
  split at h
  · exact absurd (Prod.mk.inj h).2 (by simp)
  · exact (Prod.mk.inj h).1.symm

end

/-! ## Objects taken -/

section

variable {m₀ : MMS} {pool : Nat → Slab} {s s' : KMem} {out : Nat → Nat}
  {near astray : List Obj} {i j size : Nat} {t u cp : Slab} {pre post : List Slab}

/-- An object of `CachePool` is near. -/
theorem Parted.take_head (hp : PoolLayout m₀ pool) (h : Parted m₀ pool s out near astray)
    (h5 : 5 ≤ i) (hi : i < KMALLOC_SLAB_SIZE) (hsize : size ≤ kmallocSize i)
    (hr : (s.cache i).ring = cp :: post) (htrim : (s.trim.cache i).ring = [cp])
    (hf : cp.freeCount ≠ 0) :
    ∃ s' p, allocSlab s i = (s', some p) ∧ Parted m₀ pool s' out (⟨p, size⟩ :: near) astray := by
  obtain ⟨s₁, p, he, hinv, -⟩ := h.heap.allocSlab hp hi ⟨cp, by rw [htrim]; simp, hf⟩ hsize
    (fun pre t post j _ _ _ _ _ _ htail => by
      rw [KMem.shapes, htrim] at htail
      exact absurd htail (by simp))
  -- the two walks take the same object
  have hok := h.heap.slabs i hi cp (by rw [htrim]; simp)
  have hfree : used s.word (cp.colorMap / 8) cp.colorCount < cp.colorCount := by
    have h1 : cp.usingCount = used s.word (cp.colorMap / 8) cp.colorCount := hok.using_eq
    have h2 := hok.free_eq
    omega
  obtain ⟨j, hs, -⟩ := scan_zero hfree
  have hhead : ∀ rest, allocRing s.word (s.cache i).size (cp :: rest)
      = some (cp.take :: rest, setBit s.word (cp.colorMap / 8) j, cp.vaddress + j * (s.cache i).size) := by
    intro rest
    rw [allocRing, if_neg hf, show findColor s.word cp = some j from hs]
  have hcut : (s.cache i).trim = { s.cache i with
      totalFree := cp.freeCount, totalUse := cp.usingCount, ring := [cp] } := by
    rw [SlabCache.trim, hr]
    rfl
  set c' : SlabCache := { s.cache i with
    totalFree := (s.cache i).totalFree - 1, totalUse := (s.cache i).totalUse + 1,
    ring := cp.take :: post } with hc'
  have ha : allocSlab s i = ({ s with word := setBit s.word (cp.colorMap / 8) j }.setCache i c',
      some (cp.vaddress + j * (s.cache i).size)) := by
    unfold allocSlab
    dsimp only
    rw [hr, hhead]
  have ha' : allocSlab s.trim i = (({ s with word := setBit s.word (cp.colorMap / 8) j }.setCache i c').trim,
      some (cp.vaddress + j * (s.cache i).size)) := by
    unfold allocSlab
    rw [trim_cache_large h5, hcut, trim_setCache_large _ h5]
    dsimp only
    rw [show s.trim.word = s.word from rfl, hhead]
    rfl
  rw [ha'] at he
  obtain ⟨rfl, hpe⟩ := Prod.mk.inj he
  obtain rfl := Option.some.inj hpe
  refine ⟨_, _, ha, h.of_tails (fun k hk5 hk => ?_) (fun k hk5 hk => ?_) hinv⟩
  · by_cases hki : k = i
    · rw [hki, setCache_cache_self, hr]
      rfl
    · rw [setCache_cache_ne _ hki]
  · by_cases hki : k = i
    · have hsum := h.totalUse i h5 hi
      rw [hr] at hsum
      rw [hki, setCache_cache_self, hc']
      simp only [List.map_cons, List.sum_cons, Slab.take] at hsum ⊢
      omega
    · rw [setCache_cache_ne _ hki]
      exact h.totalUse k hk5 hk

/-- An object of another slab is astray. -/
theorem Parted.take_astray (hp : PoolLayout m₀ pool) (h : Parted m₀ pool s out near astray)
    (h5 : 5 ≤ i) (hi : i < KMALLOC_SLAB_SIZE) (hsize : size ≤ kmallocSize i)
    (hr : (s.cache i).ring = cp :: (pre ++ t :: post)) (hj : j < t.colorCount) (free : Nat) :
    Parted m₀ pool ({ s with word := setBit s.word (t.colorMap / 8) j }.setCache i { s.cache i with
        totalFree := free, totalUse := (s.cache i).totalUse + 1,
        ring := cp :: (pre ++ t.take :: post) })
      out near (⟨t.vaddress + j * kmallocSize i, size⟩ :: astray) := by
  have ht : t ∈ (s.cache i).ring.tail := by rw [hr]; simp
  have hg := h.grown i h5 hi t ht
  have hset := @setsAstray_setCache s i t cp pre post t.take h5 hr rfl
    (setBit s.word (t.colorMap / 8) j) (fun a ha => setBit_of_ne (fun he => ha (by
      have := (hg.objects h5).2
      exact ⟨by omega, by omega⟩))) free ((s.cache i).totalUse + 1)
  have hpage : Obj.InPage ⟨t.vaddress + j * kmallocSize i, size⟩ t.vaddress := hg.inPage h5 hj rfl
  have hcount : ∀ v, ((⟨t.vaddress + j * kmallocSize i, size⟩ : Obj) :: astray).countP
      (fun c => decide (c.InPage v))
        = astray.countP (fun c => decide (c.InPage v)) + if v = t.vaddress then 1 else 0 := by
    intro v
    rw [List.countP_cons]
    refine congrArg _ (if_congr ?_ rfl rfl)
    rw [decide_eq_true_eq]
    exact ⟨fun hc => hc.symm.trans hpage, fun hc => by rw [hc]; exact hpage⟩
  refine h.setAstray hp h5 hi hset ?_ ?_ (fun v hv => ?_) (List.forall_mem_cons.mpr
    ⟨Or.inr ⟨j, hj, rfl, hsize⟩, fun c hc => Or.inl hc⟩)
  · rw [setCache_cache_self]
    show (s.cache i).totalUse + 1 + t.usingCount = (s.cache i).totalUse + (t.usingCount + 1)
    omega
  · rw [hcount, if_pos rfl, ← h.use i h5 hi t ht]
    rfl
  · rw [hcount, if_neg hv, Nat.add_zero]

/-- **`AllocSlab` on a class above 0x200 bytes**, whatever the astray bitmaps hold. -/
theorem Parted.allocSlab_large (hp : PoolLayout m₀ pool) (h : Parted m₀ pool s out near astray)
    (h5 : 5 ≤ i) (hi : i < KMALLOC_SLAB_SIZE) (hsize : size ≤ kmallocSize i) :
    allocSlab s i = (s, none) ∨ ∃ s' p, allocSlab s i = (s', some p) ∧
      (Parted m₀ pool s' out (⟨p, size⟩ :: near) astray ∨
        Parted m₀ pool s' out near (⟨p, size⟩ :: astray)) := by
  obtain ⟨cp, hr, -, htrim⟩ := h.ring_eq h5 hi
  by_cases hf : cp.freeCount ≠ 0
  · obtain ⟨s', p, he, hparted⟩ := h.take_head hp h5 hi hsize hr htrim hf
    exact Or.inr ⟨s', p, he, Or.inl hparted⟩
  cases ha : allocSlab s i with
  | mk s' r =>
      cases r with
      | none => exact Or.inl (by rw [allocSlab_none ha])
      | some p =>
          obtain ⟨pre, t, post, j, hring, hfree, hj, rfl, rfl⟩ := allocSlab_taken ha
          -- `CachePool` has no free object, so the slab is another one
          obtain ⟨pre', rfl⟩ : ∃ pre', pre = cp :: pre' := by
            rw [hr] at hring
            cases pre with
            | nil =>
                rw [List.nil_append] at hring
                exact absurd ((List.cons.inj hring).1 ▸ hfree) hf
            | cons c pre' => exact ⟨pre', by rw [(List.cons.inj hring).1]⟩
          right
          rw [h.size hi]
          exact ⟨_, _, rfl, Or.inr (h.take_astray hp h5 hi hsize hring hj _)⟩

/-! ## Classes that grow -/

/-- Another user of the page allocator is handed a block. -/
theorem Parted.pagesTaken (h : Parted m₀ pool s out near astray) {m' : MMS} {zi p k : Nat}
    (hh : Handed s.mms m' (fun x => out x + s.largeCover x + grownCover s.trim.shapes x) zi p k) :
    Parted m₀ pool { s with mms := m' } (fun x => out x + ind p k x) near astray := by
  refine h.of_tails (fun _ _ _ => rfl) h.totalUse ?_
  have hout : (fun x => out x + ind p k x + s.largeCover x)
      = fun x => out x + s.largeCover x + ind p k x := by
    funext x
    omega
  rw [hout]
  exact HeapInv.pagesTaken (s := s.trim) h.heap hh

/-- **A class above 0x200 bytes grows.** The object at `addr` becomes the header of the new slab, and
the page, which another user of the page allocator has held, its page. -/
theorem Parted.growLarge (hp : PoolLayout m₀ pool) {p addr : Nat}
    (h : Parted m₀ pool s (fun x => out x + ind p 9 x) (⟨addr, SLAB_STRUCT_SIZE⟩ :: near) astray)
    (h5 : 5 ≤ i) (hi : i < KMALLOC_SLAB_SIZE) (hn : GrownSlab m₀ i (newLargeSlab i p addr))
    (hphy : (s.mms.page p).phyAddr = p * PAGE_4K_SIZE) :
    Parted m₀ pool (Talios.growLarge s i p addr) out near astray := by
  have hjoin := growLarge_joins (h.size hi) hphy addr
  obtain ⟨cp, hr, -, -⟩ := h.ring_eq h5 hi
  have hne : s.shapes i ≠ [] := by rw [KMem.shapes, hr]; simp
  have hmms : (Talios.growLarge s i p addr).mms = s.mms := by rw [Talios.growLarge, addSlab_mms]
  have hring : ((Talios.growLarge s i p addr).cache i).ring
      = cp :: newLargeSlab i p addr :: (s.cache i).ring.tail := by
    rw [hjoin.cache]
    show insertSlab _ (s.cache i).ring = _
    rw [hr]
    rfl
  have htrim : (Talios.growLarge s i p addr).trim
      = { s.trim with word := (Talios.growLarge s i p addr).word } := by
    have hcache : (Talios.growLarge s i p addr).trim.cache = s.trim.cache := by
      funext k
      by_cases hk : k = i
      · rw [hk, trim_cache_large h5, trim_cache_large h5, hjoin.cache, SlabCache.trim, SlabCache.trim, hr]
        rfl
      · show (if k < 5 then _ else _) = if k < 5 then _ else _
        rw [hjoin.others k hk]
    show KMem.mk (Talios.growLarge s i p addr).mms _ (Talios.growLarge s i p addr).trim.cache = _
    rw [hmms, hcache]
    rfl
  -- the frames of the page are held by another user
  have hframe : ∀ x, Mem p 9 x →
      UserFrame m₀ (fun x => out x + ind p 9 x + s.largeCover x) x := by
    intro x hx
    obtain ⟨zi, hz, hin⟩ := hn.zone
    refine ⟨⟨zi, hz, hin x hx⟩, ?_⟩
    show 0 < out x + ind p 9 x + s.largeCover x
    rw [ind_eq_one hx]
    omega
  have hcover : ∀ x, (Talios.growLarge s i p addr).largeCover x = s.largeCover x + ind p 9 x := by
    intro x
    have hl : (Talios.growLarge s i p addr).largeShapes
        = Function.update s.largeShapes i (insertSlab (newLargeSlab i p addr).shape (s.largeShapes i)) := by
      funext k
      unfold KMem.largeShapes
      rw [if_neg (Nat.not_lt.mpr h5), hjoin.shapes]
      by_cases hk : k = i
      · rw [hk, Function.update_self, Function.update_self, if_neg (Nat.not_lt.mpr h5)]
      · rw [Function.update_of_ne hk, Function.update_of_ne hk]
    rw [KMem.largeCover, hl]
    refine grownCover_insert (n := (newLargeSlab i p addr).shape) hi ?_ x
    rw [KMem.largeShapes, if_neg (Nat.not_lt.mpr h5)]
    exact hne
  have hpage : ∀ k, 5 ≤ k → k < KMALLOC_SLAB_SIZE → ∀ u ∈ (s.cache k).ring.tail,
      u.vaddress ≠ (newLargeSlab i p addr).vaddress := by
    intro k hk5 hk u hu hv
    have hg := h.grown k hk5 hk u hu
    have hpg : u.page = p := by
      rw [hg.vaddress] at hv
      have hv' : phyToVirt (u.page * PAGE_4K_SIZE) = phyToVirt (p * PAGE_4K_SIZE) := hv
      unfold phyToVirt PAGE_4K_SIZE PAGE_4K_SHIFT at hv'
      omega
    have hx := mem_self p 9
    have hone := (h.heap.toHeapCore.held (hframe p hx)).1
    have hpos : 0 < s.largeCover p := by
      refine grownCover_pos hk (t := u.shape) ?_ (show Mem u.page 9 p from by rw [hpg]; exact hx)
      rw [largeShapes_tail s hk5]
      exact List.mem_map_of_mem hu
    rw [ind_eq_one hx] at hone
    omega
  have hmem : ∀ k u, u ∈ ((Talios.growLarge s i p addr).cache k).ring.tail →
      (k = i ∧ u = newLargeSlab i p addr) ∨ u ∈ (s.cache k).ring.tail := by
    intro k u hu
    by_cases hk : k = i
    · subst hk
      rw [hring, List.tail_cons, List.mem_cons] at hu
      exact hu.imp_left (fun he => ⟨rfl, he⟩)
    · rw [hjoin.others k hk] at hu
      exact Or.inr hu
  have hkeep : ∀ k u, u ∈ (s.cache k).ring.tail →
      u ∈ ((Talios.growLarge s i p addr).cache k).ring.tail := by
    intro k u hu
    by_cases hk : k = i
    · subst hk
      rw [hring, List.tail_cons]
      exact List.mem_cons_of_mem _ hu
    · rwa [hjoin.others k hk]
  refine ⟨?_, fun k hk5 hk u hu => ?_, fun k hk5 hk u hu => ?_, fun k hk5 hk => ?_, fun c hc => ?_⟩
  · have hout : (fun x => out x + (Talios.growLarge s i p addr).largeCover x)
        = fun x => out x + ind p 9 x + s.largeCover x := by
      funext x
      rw [hcover]
      omega
    have hheaders : ((⟨addr, SLAB_STRUCT_SIZE⟩ :: near) ++ s.headerObjs).Perm
        (near ++ (Talios.growLarge s i p addr).headerObjs) := by
      have hperm := (headersOf_insert (n := (newLargeSlab i p addr).shape) h5 hi hne).map
        (fun a => (⟨a, SLAB_STRUCT_SIZE⟩ : Obj))
      rw [← hjoin.shapes] at hperm
      exact (List.perm_middle.symm).trans (hperm.symm.append_left near)
    rw [htrim, hout]
    refine (h.heap.setWord (fun a ha => hjoin.word a (fun hm => ?_))).perm hheaders
    -- a word of the new bitmap lies in the page
    rcases ha with ⟨k, hk, v, hv, hmv⟩
    have hx := hn.frame_mem (hn.data_of_mapWord hm)
    refine (h.heap.toHeapCore.held (hframe _ hx)).2.1 ?_
    exact h.heap.toHeapCore.frame_of_meta hp hk hv
      (h.heap.rings.meta_of_mapWord hp hk hv hmv (by omega))
  · rcases hmem k u hu with ⟨rfl, rfl⟩ | hu'
    · exact hn
    · exact h.grown k hk5 hk u hu'
  · rcases hmem k u hu with ⟨rfl, rfl⟩ | hu'
    · -- no object lies in the new slab
      symm
      refine List.countP_eq_zero.mpr (fun c hc hpg => ?_)
      obtain ⟨l, hl5, hl, v, hv, q, hq, hptr, -⟩ := h.inside c hc
      refine hpage l hl5 hl v hv ?_
      exact ((h.grown l hl5 hl v hv).inPage hl5 hq hptr).symm.trans (of_decide_eq_true hpg)
    · exact h.use k hk5 hk u hu'
  · by_cases hk' : k = i
    · subst hk'
      have hsum := h.totalUse k hk5 hk
      rw [hr] at hsum
      rw [hring, hjoin.cache]
      dsimp only
      rw [hsum]
      simp [largeSlab]
    · rw [hjoin.others k hk']
      exact h.totalUse k hk5 hk
  · obtain ⟨k, hk5, hk, u, hu, hrest⟩ := h.inside c hc
    exact ⟨k, hk5, hk, u, hkeep k u hu, hrest⟩

/-! ## The call -/

/-- If class `i` is about to hand out the last free object of a slab by which it has grown, and that
is the slab's last object, then the `size` bytes end before the header behind it. -/
def EndsBefore (s : KMem) (i size : Nat) : Prop :=
  ∀ t ∈ (s.cache i).ring.tail,
    (s.cache i).ring.find? (fun u => decide (u.freeCount ≠ 0)) = some t → t.freeCount = 1 →
    bit s.word (t.colorMap / 8) (t.colorCount - 1) = false →
    t.vaddress + (t.colorCount - 1) * (s.cache i).size + size ≤ t.addr

/-- `kmalloc(size)` hands out no object that reaches into a header, neither to its caller nor to
itself for the header of a new slab. -/
def LastRoom (s : KMem) (size : Nat) : Prop :=
  ∀ i, findClass s size KMALLOC_SLAB_SIZE 0 = some i →
    (i < 5 → EndsBefore s i size) ∧
    (5 ≤ i → (s.cache i).totalFree = 0 →
      (∃ mms page, allocPage s.mms ZONE_NORMAL_INDEX 1 0 = some (mms, some page)) →
      EndsBefore s 2 SLAB_STRUCT_SIZE)

theorem EndsBefore.heapRoom (h : EndsBefore s i size) (hi : i < 5)
    (hc : findClass s size KMALLOC_SLAB_SIZE 0 = some i) (hle : size ≤ kmallocSize i) :
    HeapRoom s.trim size := by
  intro i' hc'
  rw [findClass_trim, hc] at hc'
  obtain rfl := Option.some.inj hc'
  rw [trim_cache_small hi]
  have h200 : size ≤ 0x200 := by
    calc size ≤ kmallocSize i := hle
      _ ≤ kmallocSize 4 := kmallocSize_mono (by omega)
      _ = 0x200 := by decide
  exact ⟨fun _ hbig => absurd h200 (Nat.not_le.mpr hbig), h⟩

theorem growSmall_others (s : KMem) (i page : Nat) (hj : j ≠ i) :
    (growSmall s i page).cache j = s.cache j := setCache_cache_ne _ hj _

theorem allocSlab_others {r : Option Nat} (h : allocSlab s i = (s', r)) (hj : j ≠ i) :
    s'.cache j = s.cache j := by
  cases r with
  | none => rw [allocSlab_none h]
  | some p =>
      obtain ⟨-, -, -, -, -, -, -, -, rfl⟩ := allocSlab_taken h
      exact setCache_cache_ne _ hj _

/-- **`kmalloc` from a class up to 0x200 bytes.** -/
theorem Parted.kmalloc_small (hp : PoolLayout m₀ pool) (h : Parted m₀ pool s out near astray)
    (hi : i < 5) (hc : findClass s size KMALLOC_SLAB_SIZE 0 = some i) (hle : size ≤ kmallocSize i)
    (hroom : EndsBefore s i size) {nested : KMem → Nat → Option (KMem × Option Nat)} {r : Option Nat}
    (he : kmallocWith nested s size = some (s', r)) :
    (r = none ∧ Parted m₀ pool s' out near astray) ∨
      ∃ p, r = some p ∧ Parted m₀ pool s' out (⟨p, size⟩ :: near) astray := by
  have hs := h.size (five_lt hi)
  have htrim : kmalloc s.trim size = some (s'.trim, r) := by
    rw [kmalloc, kmallocWith_trim hc hi hs _ nested, he]
    rfl
  -- the other classes are not touched
  have hothers : ∀ j, 5 ≤ j → s'.cache j = s.cache j := by
    intro j h5
    cases kmallocWith_cases he with
    | refused => rfl
    | taken i' hc' _ _ ha =>
        obtain rfl := Option.some.inj (hc.symm.trans hc')
        exact allocSlab_others ha (by omega)
    | noPage => rfl
    | small i' hc' _ _ _ _ ha =>
        obtain rfl := Option.some.inj (hc.symm.trans hc')
        exact (allocSlab_others ha (by omega)).trans (growSmall_others _ i _ (by omega))
    | large i' hc' _ _ _ hs' _ _ =>
        obtain rfl := Option.some.inj (hc.symm.trans hc')
        exact absurd (mem_smallSizes hi) (by rw [← hs]; exact hs')
    | illegal i' hc' _ hs' _ _ =>
        obtain rfl := Option.some.inj (hc.symm.trans hc')
        exact absurd (mem_smallSizes hi) (by rw [← hs]; exact hs')
  have huse : ∀ j, 5 ≤ j → j < KMALLOC_SLAB_SIZE →
      (s'.cache j).totalUse = ((s'.cache j).ring.map Slab.usingCount).sum := by
    intro j h5 hj
    rw [hothers j h5]
    exact h.totalUse j h5 hj
  have htails : ∀ j, 5 ≤ j → j < KMALLOC_SLAB_SIZE →
      (s'.cache j).ring.tail = (s.cache j).ring.tail := fun j h5 _ => by rw [hothers j h5]
  rcases Talios.kmalloc_spec hp h.heap (hroom.heapRoom hi hc hle) with
    he' | ⟨s₁, p, he', hinv, -⟩
  · rw [htrim] at he'
    obtain ⟨hst, rfl⟩ := Prod.mk.inj (Option.some.inj he')
    exact Or.inl ⟨rfl, h.of_tails htails huse (by rw [hst]; exact h.heap)⟩
  · rw [htrim] at he'
    obtain ⟨rfl, rfl⟩ := Prod.mk.inj (Option.some.inj he')
    exact Or.inr ⟨p, rfl, h.of_tails htails huse hinv⟩

/-- **`kmalloc`** keeps the invariant. -/
theorem Parted.kmalloc_spec (hp : PoolLayout m₀ pool) (h : Parted m₀ pool s out near astray)
    (hroom : LastRoom s size) {r : Option Nat} (he : kmalloc s size = some (s', r)) :
    (r = none ∧ Parted m₀ pool s' out near astray) ∨
      ∃ p, r = some p ∧ (Parted m₀ pool s' out (⟨p, size⟩ :: near) astray ∨
        Parted m₀ pool s' out near (⟨p, size⟩ :: astray)) := by
  by_cases hbig : 0x100000 < size
  · rw [kmalloc, kmallocWith, if_pos hbig] at he
    obtain ⟨rfl, rfl⟩ := Prod.mk.inj (Option.some.inj he)
    exact Or.inl ⟨rfl, h⟩
  obtain ⟨i, hi, hc, hle, -⟩ := findClass_spec (s := s) (fun i hi => h.size hi) (Nat.le_of_not_lt hbig)
  rcases Nat.lt_or_ge i 5 with hi5 | h5
  · rcases h.kmalloc_small hp hi5 hc hle ((hroom i hc).1 hi5) he with hres | ⟨p, hr, hres⟩
    · exact Or.inl hres
    · exact Or.inr ⟨p, hr, Or.inl hres⟩
  -- the last step takes an object, or finds none
  have hlast : ∀ {s₁ : KMem}, Parted m₀ pool s₁ out near astray → allocSlab s₁ i = (s', r) →
      (r = none ∧ Parted m₀ pool s' out near astray) ∨
        ∃ p, r = some p ∧ (Parted m₀ pool s' out (⟨p, size⟩ :: near) astray ∨
          Parted m₀ pool s' out near (⟨p, size⟩ :: astray)) := by
    intro s₁ h₁ ha
    rcases h₁.allocSlab_large hp h5 hi hle with hnone | ⟨s₂, p, hsome, hres⟩
    · rw [ha] at hnone
      obtain ⟨rfl, rfl⟩ := Prod.mk.inj hnone
      exact Or.inl ⟨rfl, h₁⟩
    · rw [ha] at hsome
      obtain ⟨rfl, rfl⟩ := Prod.mk.inj hsome
      exact Or.inr ⟨p, rfl, hres⟩
  have hinv : s.mms.Inv (fun x => out x + s.largeCover x + grownCover s.trim.shapes x) := h.heap.inv
  cases kmallocWith_cases he with
  | refused => exact Or.inl ⟨rfl, h⟩
  | taken i' hc' _ _ ha =>
      obtain rfl := Option.some.inj (hc.symm.trans hc')
      exact hlast h ha
  | noPage hpage =>
      obtain rfl := allocPages_none hinv hpage
      exact Or.inl ⟨rfl, h⟩
  | small i' hc' _ _ _ hs' _ =>
      obtain rfl := Option.some.inj (hc.symm.trans hc')
      exact absurd hs' (by rw [h.size hi]; exact (mem_largeSizes h5 hi).1)
  | illegal i' hc' _ _ hl' _ =>
      obtain rfl := Option.some.inj (hc.symm.trans hc')
      exact absurd (mem_largeSizes h5 hi).2 (by rw [← h.size hi]; exact hl')
  | @large _ s₂ _ i' mms page addr hc' _ hf hpage _ hn ha =>
      obtain rfl := Option.some.inj (hc.symm.trans hc')
      obtain ⟨zi, hz, hh⟩ := allocPage_some hinv hpage
      have h₁ := h.pagesTaken hh
      have hends : EndsBefore { s with mms := mms } 2 SLAB_STRUCT_SIZE :=
        (hroom i hc).2 h5 hf ⟨mms, page, hpage⟩
      have hc₂ := findClass_eq (s := { s with mms := mms }) (fun k hk => h.size hk)
        (show 2 < KMALLOC_SLAB_SIZE by decide) (show SLAB_STRUCT_SIZE ≤ kmallocSize 2 by decide)
        (by decide)
      rcases h₁.kmalloc_small hp (by decide) hc₂ (by decide) hends hn with
        ⟨hnone, -⟩ | ⟨q, hq, h₂⟩
      · exact absurd hnone (by simp)
      obtain rfl := Option.some.inj hq
      -- the page becomes the page of the new slab
      obtain ⟨hframes, hphy, hzone⟩ := handed_page h.heap.layout hinv hz hh
      have hgrown := @grownSlab_large _ i page addr h5 hh.aligned hzone
        (fun x hx => (hframes x hx).1)
      refine hlast (h₂.growLarge hp h5 hi hgrown ?_) ha
      have hl₁ : SameLayout m₀ mms := h₁.heap.layout
      have hl₂ : SameLayout m₀ s₂.mms := h₂.heap.layout
      rw [(hl₂.pages page).2.1, ← (hl₁.pages page).2.1]
      exact hphy

end

end Talios
