import Talios.Memory.MemoryRun

set_option autoImplicit false

/-! # Classes without free objects

A class that still has free objects hands them out one by one, and nothing else of the allocator changes
meanwhile. So a run can go on until the class has none left.
-/

namespace Talios

open Word Bitmap Dyadic

section

variable {m₀ : MMS} {pool : Nat → Slab} {s s' : KMem} {out : Nat → Nat} {blocks : List Nat} {i j : Nat}
  {t u : Slab}

/-- **`kmalloc` from a class with a free object** takes one. -/
theorem Account.kmalloc_taken (h : Account m₀ pool s out blocks) {size : Nat}
    (hi : i < KMALLOC_SLAB_SIZE) (hf : (s.cache i).totalFree ≠ 0) (h1 : size ≤ kmallocSize i)
    (h2 : ∀ j < i, kmallocSize j < size) (nested : KMem → Nat → Option (KMem × Option Nat)) :
    ∃ s' pre t post k, TakesObject s s' i pre t post k ∧
      kmallocWith nested s size = some (s', some (t.vaddress + k * kmallocSize i)) ∧
      Account m₀ pool s' out ((t.vaddress + k * kmallocSize i) :: blocks) := by
  obtain ⟨s', pre, t, post, k, htake, hacc⟩ :=
    h.allocSlab hi (h.ledger.toCounts.exists_free hi hf)
  refine ⟨s', pre, t, post, k, htake, ?_, hacc⟩
  rw [← htake.alloc]
  exact kmalloc_eq_allocSlab (size_le_max hi h1) (findClass_eq h.ledger.size hi h1 h2) hf nested

/-- A class without free objects has handed out every object of its slabs. -/
theorem Account.taken_of_full (h : Account m₀ pool s out blocks) (hi : i < KMALLOC_SLAB_SIZE)
    (hf : (s.cache i).totalFree = 0) (ht : t ∈ (s.cache i).ring) : t.freeCount = 0 ∧
      ∀ k < t.colorCount, t.Taken s.word k := by
  have hsum := h.ledger.totalFree i hi
  rw [hf] at hsum
  have h0 : t.freeCount = 0 := by
    have hle := List.single_le_sum (fun _ _ => Nat.zero_le _) t.freeCount
      (List.mem_map_of_mem (f := Slab.freeCount) ht)
    omega
  have hok := h.ledger.slabs i hi t ht
  have hused : used s.word (t.colorMap / 8) t.colorCount = t.colorCount := by
    have := hok.using_eq
    have := hok.free_eq
    omega
  exact ⟨h0, fun k hk => ⟨hk, used_eq_iff.mp hused k hk⟩⟩

/-- An object of a class other than the one headers come from is some caller's. -/
theorem Account.live_of_taken {objs : List Obj} (h : Account m₀ pool s out (objs.map Obj.ptr))
    (hi : i < KMALLOC_SLAB_SIZE) (hne : i ≠ 2) (ht : t ∈ s.shapes i) {k : Nat}
    (hk : t.Taken s.word k) : ∃ b ∈ objs, b.ptr = t.vaddress + k * kmallocSize i := by
  have hmem := (h.ledger.taken_iff hi ht hk.1).mp hk
  rcases List.mem_append.mp hmem with hmem | hmem
  · exact List.mem_map.mp hmem
  · exact absurd (h.headersIn _ hmem i hi t ht k hk.1 rfl) hne

/-- **`kfree`** of an object of a slab that has others in use. -/
theorem Account.kfree_kept (h : Account m₀ pool s out blocks) (hi : i < KMALLOC_SLAB_SIZE)
    {pre post : List Slab} (hr : (s.cache i).ring = pre ++ t :: post) {k : Nat}
    (hk : t.Taken s.word k) (hmem : t.vaddress + k * kmallocSize i ∈ blocks) (hu : 2 ≤ t.usingCount) :
    ∃ s', kfree s (t.vaddress + k * kmallocSize i) = some (s', true) ∧
      GivesObject s s' i pre t post k ∧
      Account m₀ pool s' out (blocks.erase (t.vaddress + k * kmallocSize i)) := by
  have ht : t ∈ (s.cache i).ring := by rw [hr]; simp
  have hpos := kmallocSize_pos i
  have hin : t.vaddress + k * kmallocSize i < t.vaddress + (k + 1) * kmallocSize i := by
    rw [Nat.add_mul]
    omega
  obtain ⟨hfind, hoff⟩ := h.ledger.findOwner hi ht hk ⟨le_rfl, hin⟩
  obtain ⟨hgive, hacc⟩ := h.release hi hr hk hmem hoff
  refine ⟨_, ?_, hgive, hacc⟩
  have hgu : t.give.usingCount ≠ 0 := by
    show t.usingCount - 1 ≠ 0
    omega
  rw [kfree, kfreeWith, hfind]
  dsimp only
  rw [if_pos (Or.inl hgu)]

/-- Whether headers meet is a matter of where they lie. -/
theorem headersMeet_of_shapes (hsh : s'.shapes = s.shapes) (h : s'.HeadersMeet) : s.HeadersMeet := by
  have hmem : ∀ {i : Nat} {t : Slab}, t ∈ (s'.cache i).ring → ∃ v ∈ (s.cache i).ring, v.addr = t.addr := by
    intro i t ht
    have ht' := shape_mem ht
    rw [hsh] at ht'
    obtain ⟨v, hv, he⟩ := List.mem_map.mp ht'
    have haddr : v.shape.addr = t.shape.addr := congrArg Slab.addr he
    exact ⟨v, hv, haddr⟩
  obtain ⟨i, hi, j, hj, t, ht, u, hu, hne, a, h1, h2⟩ := h
  obtain ⟨t', ht', he⟩ := hmem ht
  obtain ⟨u', hu', he'⟩ := hmem hu
  rw [← he] at h1 hne
  rw [← he'] at h2 hne
  exact ⟨i, hi, j, hj, t', ht', u', hu', hne, a, h1, h2⟩

end

/-! ## Growing by a slab -/

section

variable {m₀ : MMS} {pool : Nat → Slab} {s : KMem} {out : Nat → Nat} {blocks : List Nat} {i j : Nat}
  {t u : Slab}

/-- **A class up to 0x200 bytes that is used up** grows by a slab and hands out its first object. -/
theorem Account.kmalloc_grown (hp : PoolLayout m₀ pool) (h : Account m₀ pool s out blocks)
    (hi : i < 5) (hf : (s.cache i).totalFree = 0) {size : Nat} (h1 : size ≤ kmallocSize i)
    (h2 : ∀ j < i, kmallocSize j < size) {mms : MMS} {p zi : Nat} (hz : zi < s.mms.zonesCount)
    (hpage : allocPage s.mms ZONE_NORMAL_INDEX 1 0 = some (mms, some p))
    (hh : Handed s.mms mms (fun x => out x + grownCover s.shapes x) zi p 9)
    (nested : KMem → Nat → Option (KMem × Option Nat)) :
    ∃ s₁ s' pre post, JoinsClass { s with mms := mms } s₁ i (newSlab i p) ∧
      TakesObject s₁ s' i pre (newSlab i p) post 0 ∧ GrownSlab m₀ i (newSlab i p) ∧
      kmallocWith nested s size = some (s', some (newSlab i p).vaddress) ∧
      Account m₀ pool s' out ((newSlab i p).vaddress :: blocks) ∧ s'.mms = mms ∧
      (HeadersFit s.shapes → HeadersFit s'.shapes) := by
  have hi' := five_lt hi
  obtain ⟨hframe, hphy, hzone⟩ := handed_page h.layout h.inv hz hh
  have hn := grownSlab_small hi hh.aligned hzone (fun x hx => (hframe x hx).1)
  have hpos := (smallFacts hi p (phyToVirt (p * PAGE_4K_SIZE))).pos
  obtain ⟨hacc, hjoin, hfit⟩ := (h.pagesTaken hh).growSmall hp hi hn hphy
  have hmem : newSlab i p ∈ ((Talios.growSmall { s with mms := mms } i p).cache i).ring := by
    rw [hjoin.cache]
    exact mem_insertSlab.mpr (Or.inl rfl)
  obtain ⟨s', pre, t, post, k, htake, hacc'⟩ := hacc.allocSlab hi'
    ⟨_, hmem, Nat.pos_iff_ne_zero.mp hpos⟩
  -- the other slabs have no free object
  have ht : t ∈ ((Talios.growSmall { s with mms := mms } i p).cache i).ring := by
    rw [htake.ring]
    simp
  obtain ⟨rfl, rfl⟩ := hjoin.first_of_least (h.ledger.setMms mms).toCounts hi' hf hpos ht
    htake.free htake.least
  rw [Nat.zero_mul, Nat.add_zero] at hacc'
  have hmms : s'.mms = mms := by
    rw [htake.mms, Talios.growSmall, addSlab_mms]
  refine ⟨_, s', pre, post, hjoin, htake, hn, ?_, hacc', hmms,
    fun hf' => by rw [htake.shapes]; exact hfit hf'⟩
  have halloc := htake.alloc
  rw [Nat.zero_mul, Nat.add_zero] at halloc
  unfold kmallocWith
  rw [if_neg (Nat.not_lt.mpr (size_le_max hi' h1)), findClass_eq h.ledger.size hi' h1 h2]
  dsimp only
  rw [if_pos hf, hpage]
  dsimp only
  rw [h.ledger.size i hi', if_pos (mem_smallSizes hi), halloc]

/-- How a call ends that a class up to 0x200 bytes serves: with null, with an object of a slab that was
there, or with the first object of a new one. -/
inductive SmallCall (m₀ : MMS) (pool : Nat → Slab) (s : KMem) (out : Nat → Nat) (blocks : List Nat)
    (i size : Nat) (nested : KMem → Nat → Option (KMem × Option Nat)) : Prop
  | null (hf : (s.cache i).totalFree = 0)
      (hpage : allocPage s.mms ZONE_NORMAL_INDEX 1 0 = some (s.mms, none))
      (he : kmallocWith nested s size = some (s, none))
  | taken {s' : KMem} {pre post : List Slab} {t : Slab} {k : Nat} (hf : (s.cache i).totalFree ≠ 0)
      (htake : TakesObject s s' i pre t post k)
      (he : kmallocWith nested s size = some (s', some (t.vaddress + k * kmallocSize i)))
      (hacc : Account m₀ pool s' out ((t.vaddress + k * kmallocSize i) :: blocks))
  | grown {s₁ s' : KMem} {mms : MMS} {p : Nat} {pre post : List Slab}
      (hf : (s.cache i).totalFree = 0)
      (hpage : allocPage s.mms ZONE_NORMAL_INDEX 1 0 = some (mms, some p))
      (hlayout : SameLayout s.mms s'.mms) (hphy : (mms.page p).phyAddr = p * PAGE_4K_SIZE)
      (hn : GrownSlab m₀ i (newSlab i p)) (hjoin : JoinsClass { s with mms := mms } s₁ i (newSlab i p))
      (htake : TakesObject s₁ s' i pre (newSlab i p) post 0)
      (he : kmallocWith nested s size = some (s', some (newSlab i p).vaddress))
      (hacc : Account m₀ pool s' out ((newSlab i p).vaddress :: blocks))
      (hfit : HeadersFit s.shapes → HeadersFit s'.shapes)

theorem Account.smallCall (hp : PoolLayout m₀ pool) (h : Account m₀ pool s out blocks) (hi : i < 5)
    {size : Nat} (h1 : size ≤ kmallocSize i) (h2 : ∀ j < i, kmallocSize j < size)
    (nested : KMem → Nat → Option (KMem × Option Nat)) :
    SmallCall m₀ pool s out blocks i size nested := by
  have hi' := five_lt hi
  by_cases hf : (s.cache i).totalFree = 0
  · rcases allocPage_spec h.inv ZONE_NORMAL_INDEX 0 with ha' | ⟨mms, p, zi, hz, ha', hh⟩
    · refine .null hf ha' ?_
      unfold kmallocWith
      rw [if_neg (Nat.not_lt.mpr (size_le_max hi' h1)), findClass_eq h.ledger.size hi' h1 h2]
      dsimp only
      rw [if_pos hf, ha']
    · obtain ⟨-, hphy, -⟩ := handed_page h.layout h.inv hz hh
      obtain ⟨s₁, s', pre, post, hjoin, htake, hn, he, hacc, hmms, hfit⟩ :=
        h.kmalloc_grown hp hi hf h1 h2 hz ha' hh nested
      exact .grown hf ha' (by rw [hmms]; exact hh.layout) hphy hn hjoin htake he hacc hfit
  · obtain ⟨s', pre, t, post, k, htake, he, hacc⟩ := h.kmalloc_taken hi' hf h1 h2 nested
    exact .taken hf htake he hacc

/-! ## Headers -/

/-- While no class above 0x200 bytes has grown there are no headers that are objects. -/
theorem headersFit_of_tails {ring : Nat → List Slab}
    (htails : ∀ j, 5 ≤ j → j < KMALLOC_SLAB_SIZE → (ring j).tail = []) : HeadersFit ring := by
  intro p hp
  obtain ⟨j, h5, hj, t, ht, -⟩ := mem_headersOf.mp hp
  rw [htails j h5 hj] at ht
  exact absurd ht (by simp)

/-- What lies at the bytes of a header. -/
inductive HeaderAt (m₀ : MMS) (pool : Nat → Slab) (s : KMem) (i : Nat) (t : Slab) (a : Nat) : Prop
  | pool (he : t = (pool i).shape) (ha : (pool i).Meta a)
  | small (hi : i < 5) (htail : t ∈ (s.shapes i).tail) (hg : GrownSlab m₀ i t) (h1 : t.addr ≤ a)
      (ha : t.Data a)
  | large (h5 : 5 ≤ i) (htail : t ∈ (s.shapes i).tail) (v : Slab) (hv : v ∈ s.shapes 2) (k : Nat)
      (hk : k < v.colorCount) (he : t.addr = v.vaddress + k * kmallocSize 2)
      (ha : v.vaddress + k * kmallocSize 2 ≤ a ∧ a < v.vaddress + (k + 1) * kmallocSize 2)

/-- A header is one of a first slab, lies in the page of its slab, or is an object. -/
theorem Account.headerAt (hp : PoolLayout m₀ pool) (h : Account m₀ pool s out blocks)
    (hi : i < KMALLOC_SLAB_SIZE) (ht : t ∈ s.shapes i) {a : Nat} (h1 : t.addr ≤ a)
    (h2 : a < t.addr + SLAB_STRUCT_SIZE) : HeaderAt m₀ pool s i t a := by
  rcases h.cases hi ht with rfl | ⟨htail, hg⟩
  · refine .pool rfl ⟨h1, ?_⟩
    have hmap := hp.colorMap i hi
    have h2' : a < (pool i).addr + SLAB_STRUCT_SIZE := h2
    unfold Slab.metaEnd
    omega
  · rcases Nat.lt_or_ge i 5 with hi5 | h5
    · have hmap := (hg.grown hi5).facts.colorMap
      refine .small hi5 htail hg h1 ((hg.grown hi5).data_of_meta ⟨h1, ?_⟩)
      unfold Slab.metaEnd
      omega
    · -- the header is an object of class 2
      have hmem : t.addr ∈ s.headers := mem_headersOf.mpr ⟨i, h5, hi, t, htail, rfl⟩
      obtain ⟨j, hj, v, hv, k, hk, he⟩ := (h.ledger.ptrs t.addr).mp (List.mem_append_right _ hmem)
      obtain rfl := h.headersIn _ hmem j hj v hv k hk.1 he
      have h128 : SLAB_STRUCT_SIZE ≤ kmallocSize 2 := by decide
      refine .large h5 htail v hv k hk.1 he ⟨he ▸ h1, ?_⟩
      rw [Nat.add_mul]
      omega

/-- A header of a small slab starts behind the objects that fit. -/
theorem Account.addr_le (h : Account m₀ pool s out blocks) (hi : i < 5)
    (ht : t ∈ (s.shapes i).tail) {k : Nat} (hk : k + 1 < t.colorCount) :
    t.vaddress + (k + 1) * kmallocSize i ≤ t.addr := by
  have hfacts := ((h.grown_of_tail (five_lt hi) ht).grown hi).facts
  have hfit := hfacts.fit k hk
  have haddr := hfacts.addr
  have hroom := hfacts.room
  omega

/-- A header that is an object of a slab that fits is not in the header of that slab. -/
theorem Account.fits_small (h : Account m₀ pool s out blocks) (hfit : HeadersFit s.shapes)
    (hi : i < 5) (htail : t ∈ (s.shapes i).tail) {a : Nat} (h1 : t.addr ≤ a) (ha : t.Data a)
    (h5 : 5 ≤ j) (hj : j < KMALLOC_SLAB_SIZE) (hutail : u ∈ (s.shapes j).tail) {v : Slab}
    (hv : v ∈ s.shapes 2) {k : Nat} (hk : k < v.colorCount)
    (he : u.addr = v.vaddress + k * kmallocSize 2)
    (ha' : v.vaddress + k * kmallocSize 2 ≤ a ∧ a < v.vaddress + (k + 1) * kmallocSize 2) : False := by
  have h2 : 2 < KMALLOC_SLAB_SIZE := by decide
  have hcounts := h.ledger.toCounts
  obtain ⟨rfl, rfl⟩ := hcounts.eq_of_data (five_lt hi) h2 (List.mem_of_mem_tail htail) hv ha
    (hcounts.object_data h2 hv hk ha'.1 ha'.2)
  have hmem : u.addr ∈ headersOf s.shapes := mem_headersOf.mpr ⟨j, h5, hj, u, hutail, rfl⟩
  have hle := h.addr_le hi htail (hfit _ hmem t htail k hk he)
  omega

/-- The headers that are objects are different ones. -/
theorem Account.large_eq (h : Account m₀ pool s out blocks) (h5 : 5 ≤ i) (hi : i < KMALLOC_SLAB_SIZE)
    (h5' : 5 ≤ j) (hj : j < KMALLOC_SLAB_SIZE) (ht : t ∈ (s.shapes i).tail)
    (hu : u ∈ (s.shapes j).tail) (he : t.addr = u.addr) : i = j ∧ t = u := by
  have hnd : s.headers.Nodup := (List.nodup_append.mp h.ledger.ptrsNodup).2.1
  unfold KMem.headers headersOf at hnd
  obtain ⟨-, hpair⟩ := List.nodup_flatMap.mp hnd
  have hmem : ∀ {k : Nat} {w : Slab}, 5 ≤ k → w ∈ (s.shapes k).tail →
      w.addr ∈ (if k < 5 then [] else (s.shapes k).tail.map Slab.addr) := by
    intro k w hk hw
    rw [if_neg (Nat.not_lt.mpr hk)]
    exact List.mem_map_of_mem hw
  have hdis : ∀ k l : Nat, k < l → l < KMALLOC_SLAB_SIZE → ∀ x : Nat,
      x ∈ (if k < 5 then [] else (s.shapes k).tail.map Slab.addr) →
      x ∉ (if l < 5 then [] else (s.shapes l).tail.map Slab.addr) := by
    intro k l hkl hl x hx hx'
    have hd := List.pairwise_iff_getElem.mp hpair k l (by rw [List.length_range]; omega)
      (by rw [List.length_range]; exact hl) hkl
    rw [List.getElem_range, List.getElem_range] at hd
    exact hd hx hx'
  have hij : i = j := by
    rcases Nat.lt_trichotomy i j with hlt | heq | hlt
    · exact absurd (hmem h5' hu) (hdis i j hlt hj _ (he ▸ hmem h5 ht))
    · exact heq
    · exact absurd (hmem h5 ht) (hdis j i hlt hi _ (he ▸ hmem h5' hu))
  subst hij
  refine ⟨rfl, List.inj_on_of_nodup_map (h.ledger.apart.addrs i hi) (List.mem_of_mem_tail ht)
    (List.mem_of_mem_tail hu) he⟩

/-- **No two headers meet** where those that are objects fit. -/
theorem Account.header_eq (hp : PoolLayout m₀ pool) (h : Account m₀ pool s out blocks)
    (hfit : HeadersFit s.shapes) (hi : i < KMALLOC_SLAB_SIZE) (hj : j < KMALLOC_SLAB_SIZE)
    (ht : t ∈ s.shapes i) (hu : u ∈ s.shapes j) {a : Nat}
    (ha : t.addr ≤ a ∧ a < t.addr + SLAB_STRUCT_SIZE) (ha' : u.addr ≤ a ∧ a < u.addr + SLAB_STRUCT_SIZE) :
    i = j ∧ t = u := by
  have h2 : 2 < KMALLOC_SLAB_SIZE := by decide
  have hcounts := h.ledger.toCounts
  cases h.headerAt hp hi ht ha.1 ha.2 with
  | pool he hm =>
      cases h.headerAt hp hj hu ha'.1 ha'.2 with
      | pool he' hm' =>
          obtain rfl : i = j := by
            rcases Nat.lt_trichotomy i j with hlt | heq | hlt
            · have := hp.order i j hlt hj
              unfold Slab.Meta at hm hm'
              omega
            · exact heq
            · have := hp.order j i hlt hi
              unfold Slab.Meta at hm hm'
              omega
          exact ⟨rfl, he.trans he'.symm⟩
      | small _ _ hg _ hd => exact absurd (hp.metaFrames i hi a hm) (hg.not_kernel hd)
      | large _ _ v hv k hk _ hin =>
          exact absurd (hcounts.object_data h2 hv hk hin.1 hin.2) (h.pool_addr_ne hp hi h2 hv hm)
  | small hi5 htail hg h1 hd =>
      cases h.headerAt hp hj hu ha'.1 ha'.2 with
      | pool _ hm' => exact absurd (hp.metaFrames j hj a hm') (hg.not_kernel hd)
      | small _ _ _ _ hd' => exact hcounts.eq_of_data hi hj ht hu hd hd'
      | large h5 htail' v hv k hk he hin =>
          exact (h.fits_small hfit hi5 htail h1 hd h5 hj htail' hv hk he hin).elim
  | large h5 htail v hv k hk he hin =>
      cases h.headerAt hp hj hu ha'.1 ha'.2 with
      | pool _ hm' =>
          exact absurd (hcounts.object_data h2 hv hk hin.1 hin.2) (h.pool_addr_ne hp hj h2 hv hm')
      | small hi5 htail' _ h1 hd' =>
          exact (h.fits_small hfit hi5 htail' h1 hd' h5 hi htail hv hk he hin).elim
      | large h5' htail' w hw l hl he' hin' =>
          obtain ⟨-, rfl, rfl⟩ := hcounts.object_unique h2 h2 hv hw hk hl hin hin'
          exact h.large_eq h5 hi h5' hj htail htail' (he.trans he'.symm)

theorem Account.headers_apart (hp : PoolLayout m₀ pool) (h : Account m₀ pool s out blocks)
    (hfit : HeadersFit s.shapes) : ¬ s.HeadersMeet := by
  rintro ⟨i, hi, j, hj, t, ht, u, hu, hne, a, ha, ha'⟩
  obtain ⟨-, he⟩ := h.header_eq hp hfit hi hj (shape_mem ht) (shape_mem hu) ha ha'
  exact hne (congrArg Slab.addr he : t.shape.addr = u.shape.addr)
end

/-! ## Runs until a class is used up -/

/-- Class `i` is used up by calls of `kmalloc(size)`, and nothing else has changed. -/
structure UsedUp (k k' : Kernel) (i size : Nat) : Prop where
  free : (k'.mem.cache i).totalFree = 0
  shapes : k'.mem.shapes = k.mem.shapes
  mms : k'.mem.mms = k.mem.mms
  others : ∀ j ≠ i, k'.mem.cache j = k.mem.cache j
  blocks : k'.blocks = k.blocks
  live : ∀ b ∈ k'.live, b ∈ k.live ∨ b.size = size

theorem useUp {img : KernelImage} {m₀ : MMS} {pool : Nat → Slab} {out : Nat → Nat} {i size : Nat}
    {ok : Kernel → MemoryEvent → Prop} (hi : i < KMALLOC_SLAB_SIZE) (h1 : size ≤ kmallocSize i)
    (h2 : ∀ j < i, kmallocSize j < size)
    (hok : ∀ k : Kernel, (k.mem.cache i).totalFree ≠ 0 →
      findClass k.mem size KMALLOC_SLAB_SIZE 0 = some i → ok k (.kmalloc size)) :
    ∀ (n : Nat) (k : Kernel), (k.mem.cache i).totalFree = n →
      MemoryReachable img ok k → Account m₀ pool k.mem out (k.live.map Obj.ptr) →
      ¬ k.mem.HeadersMeet →
      ∃ k', MemoryReachable img ok k' ∧
        Account m₀ pool k'.mem out (k'.live.map Obj.ptr) ∧ UsedUp k k' i size := by
  intro n
  induction n with
  | zero =>
      intro k hn hk hacc _
      exact ⟨k, hk, hacc, hn, rfl, rfl, fun _ _ => rfl, rfl, fun b hb => Or.inl hb⟩
  | succ n ih =>
      intro k hn hk hacc hh
      obtain ⟨s', pre, t, post, l, htake, he, hacc'⟩ := hacc.kmalloc_taken hi (by omega) h1 h2
        (kmallocWith (fun _ _ => none))
      have hh' : ¬ s'.HeadersMeet := fun hm => hh (headersMeet_of_shapes htake.shapes hm)
      have hstep := hk.step (hok k (by omega) (findClass_eq hacc.ledger.size hi h1 h2))
        (MemoryStep.kmalloc size he hh')
      have hfree : (s'.cache i).totalFree = n := by
        rw [htake.cache]
        dsimp only
        omega
      obtain ⟨k', hk', hacc'', hup⟩ := ih _ hfree hstep hacc' hh'
      refine ⟨k', hk', hacc'', hup.free, hup.shapes.trans htake.shapes, hup.mms.trans htake.mms,
        fun j hj => (hup.others j hj).trans (htake.others j hj), hup.blocks, fun b hb => ?_⟩
      rcases hup.live b hb with hb' | hb'
      · rcases List.mem_cons.mp hb' with rfl | hb'
        · exact Or.inr rfl
        · exact Or.inl hb'
      · exact Or.inr hb'

end Talios
