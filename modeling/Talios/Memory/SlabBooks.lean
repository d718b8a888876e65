import Talios.Memory.SlabLinks

set_option autoImplicit false

/-! # The books over whole runs

`Books` adds to the account of the heap that the headers do not reach into each other and that the
pointers link the rings. A new header is then written beside all others, so that a class that grows keeps
its ring (`RingsLinked.grow`); a slab that leaves is unlinked from its own ring only (`RingsLinked.drop`).
One lemma for each call says that it keeps the books; what `kfree` changes is read off the books before
and after (`Account.kfreeExact`).
-/

namespace Talios

open Word Bitmap Dyadic

structure Books (m₀ : MMS) (pool : Nat → Slab) (s : KMem) (list : Links.Heap Nat) (out : Nat → Nat)
    (blocks : List Nat) : Prop extends Account m₀ pool s out blocks where
  fit : HeadersFit s.shapes
  linked : RingsLinked s.shapes list

section

variable {m₀ : MMS} {pool : Nat → Slab} {s s' : KMem} {list : Links.Heap Nat} {out : Nat → Nat}
  {blocks : List Nat} {pageAt : Nat → Nat} {size i j : Nat} {t u n : Slab}

/-! ## The pointers -/

theorem cachePool_of_shapes {rest : List Slab} (h : s.shapes i = t :: rest) :
    s.cachePool i = t.addr := by
  unfold KMem.shapes at h
  unfold KMem.cachePool
  cases hr : (s.cache i).ring with
  | nil => rw [hr] at h; exact absurd h (by simp)
  | cons v l =>
      rw [hr, List.map_cons] at h
      have hv : v.shape = t := (List.cons.inj h).1
      rw [← hv]
      rfl

/-- A header that is not in `n` keeps its pointers where `n` is written. -/
theorem writeHeader_of_apart (hapart : ∀ a, u.HasByte a → ¬ n.HasByte a) :
    (writeHeader pageAt list n).next u.addr = list.next u.addr ∧
      (writeHeader pageAt list n).prev u.addr = list.prev u.addr := by
  have h1 : u.HasByte u.addr := by unfold Slab.HasByte SLAB_STRUCT_SIZE; omega
  have h2 : u.HasByte (u.addr + 8) := by unfold Slab.HasByte SLAB_STRUCT_SIZE; omega
  exact ⟨if_neg (hapart _ h2), if_neg (hapart _ h1)⟩

/-- The slab that has joined class `i` has its header to itself. -/
theorem Account.header_apart (hp : PoolLayout m₀ pool) (h : Account m₀ pool s' out blocks)
    (hfit : HeadersFit s'.shapes) (hi : i < KMALLOC_SLAB_SIZE)
    (hsh : s'.shapes = Function.update s.shapes i (insertSlab n.shape (s.shapes i)))
    (hj : j < KMALLOC_SLAB_SIZE) (hu : u ∈ s.shapes j) {a : Nat} (ha : u.HasByte a) :
    ¬ n.HasByte a := by
  intro ha'
  have hself : s'.shapes i = insertSlab n.shape (s.shapes i) := by rw [hsh, Function.update_self]
  have hn : n.shape ∈ s'.shapes i := by
    rw [hself]
    exact mem_insertSlab.mpr (Or.inl rfl)
  have hu' : u ∈ s'.shapes j := by
    by_cases hji : j = i
    · subst hji
      rw [hself]
      exact mem_insertSlab.mpr (Or.inr hu)
    · rw [hsh, Function.update_of_ne hji]
      exact hu
  obtain ⟨rfl, rfl⟩ := h.header_eq hp hfit hj hi hu' hn ha ha'
  -- the slab would be twice in its ring
  have hnd := h.ledger.apart.addrs j hi
  rw [hself, ((insertSlab_perm _ _).map _).nodup_iff, List.map_cons, List.nodup_cons] at hnd
  exact hnd.1 (List.mem_map_of_mem hu)

/-- **A slab joins a class**: its ring takes it in behind `CachePool`. -/
theorem RingsLinked.grow (hp : PoolLayout m₀ pool) (hl : RingsLinked s.shapes list)
    (h : Account m₀ pool s' out blocks) (hfit : HeadersFit s'.shapes) (hi : i < KMALLOC_SLAB_SIZE)
    (hne : s.shapes i ≠ [])
    (hsh : s'.shapes = Function.update s.shapes i (insertSlab n.shape (s.shapes i))) :
    RingsLinked s'.shapes (growList pageAt list (s.cachePool i) n) := by
  have hapart : ∀ j < KMALLOC_SLAB_SIZE, ∀ u ∈ s.shapes j, ∀ a, u.HasByte a → ¬ n.HasByte a :=
    fun j hj u hu a ha => h.header_apart hp hfit hi hsh hj hu ha
  have hself : ∀ v : Slab, v.HasByte v.addr := fun v => by
    unfold Slab.HasByte SLAB_STRUCT_SIZE
    omega
  have hnew : ∀ j < KMALLOC_SLAB_SIZE, n.addr ∉ (s.shapes j).map Slab.addr := by
    intro j hj hm
    obtain ⟨u, hu, he⟩ := List.mem_map.mp hm
    exact hapart j hj u hu u.addr (hself u) (he ▸ hself n)
  have hkept : ∀ j < KMALLOC_SLAB_SIZE,
      Links.Circular (writeHeader pageAt list n) ((s.shapes j).map Slab.addr) := by
    intro j hj
    refine (hl j hj).congr (fun x hx => ?_)
    obtain ⟨u, hu, rfl⟩ := List.mem_map.mp hx
    exact writeHeader_of_apart (hapart j hj u hu)
  obtain ⟨cp, rest, hr⟩ := List.exists_cons_of_ne_nil hne
  have hcp := cachePool_of_shapes hr
  have hring := hkept i hi
  have hnew' := hnew i hi
  rw [hr, List.map_cons] at hring hnew'
  intro j hj
  unfold growList listBackAdd
  rw [hcp, hsh]
  by_cases hji : j = i
  · subst hji
    rw [Function.update_self, hr]
    exact hring.backAdd hnew'
  · rw [Function.update_of_ne hji]
    refine hring.backAdd_other (hkept j hj) (hnew j hj) (fun x hx hx' => ?_)
    -- a header in two rings would be that of the new slab
    obtain ⟨u, hu, rfl⟩ := List.mem_map.mp hx
    have hx'' : u.addr ∈ (s.shapes i).map Slab.addr := by
      rw [hr]
      exact hx'
    obtain ⟨v, hv, he⟩ := List.mem_map.mp hx''
    have hu' : u ∈ s'.shapes j := by
      rw [hsh, Function.update_of_ne hji]
      exact hu
    have hv' : v ∈ s'.shapes i := by
      rw [hsh, Function.update_self]
      exact mem_insertSlab.mpr (Or.inr hv)
    exact hji (h.header_eq hp hfit hj hi hu' hv' (hself u) (he ▸ hself v)).1

/-- **A slab leaves a class**: its ring closes. -/
theorem RingsLinked.drop (hp : PoolLayout m₀ pool) (hl : RingsLinked s.shapes list)
    (h : Account m₀ pool s out blocks) (hfit : HeadersFit s.shapes) (hi : i < KMALLOC_SLAB_SIZE)
    {pre post : List Slab} (hr : s.shapes i = pre ++ t :: post)
    (hsh : s'.shapes = Function.update s.shapes i (pre ++ post)) :
    RingsLinked s'.shapes (listDelete list t.addr) := by
  have hring := hl i hi
  rw [hr, List.map_append, List.map_cons] at hring
  have hself : ∀ v : Slab, v.HasByte v.addr := fun v => by
    unfold Slab.HasByte SLAB_STRUCT_SIZE
    omega
  intro j hj
  rw [hsh]
  by_cases hji : j = i
  · subst hji
    rw [Function.update_self, List.map_append]
    exact hring.unlink
  · rw [Function.update_of_ne hji]
    refine hring.unlink_other (hl j hj) (fun x hx hx' => ?_)
    obtain ⟨u, hu, rfl⟩ := List.mem_map.mp hx
    have hx'' : u.addr ∈ (s.shapes i).map Slab.addr := by
      rw [hr, List.map_append, List.map_cons]
      exact hx'
    obtain ⟨v, hv, he⟩ := List.mem_map.mp hx''
    exact hji (h.header_eq hp hfit hj hi hu hv (hself u) (he ▸ hself v)).1

/-! ## `kmalloc` -/

/-- An object is taken or given back: no slab has moved. -/
theorem Books.of_shapes (h : Books m₀ pool s list out blocks) {out' : Nat → Nat} {blocks' : List Nat}
    (hacc : Account m₀ pool s' out' blocks') (hsh : s'.shapes = s.shapes) :
    Books m₀ pool s' list out' blocks' :=
  ⟨hacc, by rw [hsh]; exact h.fit, by rw [hsh]; exact h.linked⟩

theorem kmallocListWith_kept {nested : KMem → Links.Heap Nat → Nat → Links.Heap Nat}
    (hc : findClass s size KMALLOC_SLAB_SIZE 0 = some i) (hf : (s.cache i).totalFree ≠ 0) :
    kmallocListWith nested pageAt s list size = list := by
  unfold kmallocListWith
  split
  · rfl
  · rw [hc]
    exact if_neg hf

theorem kmallocListWith_null {nested : KMem → Links.Heap Nat → Nat → Links.Heap Nat}
    (hc : findClass s size KMALLOC_SLAB_SIZE 0 = some i) (hf : (s.cache i).totalFree = 0)
    {mms : MMS} (hpage : allocPage s.mms ZONE_NORMAL_INDEX 1 0 = some (mms, none)) :
    kmallocListWith nested pageAt s list size = list := by
  unfold kmallocListWith
  split
  · rfl
  · rw [hc]
    dsimp only
    rw [if_pos hf, hpage]

/-- **A class up to 0x200 bytes** serves a call. -/
theorem Books.kmalloc_small (hp : PoolLayout m₀ pool) (h : Books m₀ pool s list out blocks) (hi : i < 5)
    (h1 : size ≤ kmallocSize i) (h2 : ∀ j < i, kmallocSize j < size)
    {nested : KMem → Nat → Option (KMem × Option Nat)}
    (nestedList : KMem → Links.Heap Nat → Nat → Links.Heap Nat) {r : Option Nat}
    (he : kmallocWith nested s size = some (s', r)) :
    (r = none ∧ Books m₀ pool s' (kmallocListWith nestedList pageAt s list size) out blocks) ∨
    ∃ p, r = some p ∧
      Books m₀ pool s' (kmallocListWith nestedList pageAt s list size) out (p :: blocks) := by
  have hi' := five_lt hi
  have hc := findClass_eq h.ledger.size hi' h1 h2
  cases h.toAccount.smallCall hp hi h1 h2 nested with
  | null hf hpage he' =>
      obtain ⟨rfl, rfl⟩ := Prod.mk.inj (Option.some.inj (he.symm.trans he'))
      rw [kmallocListWith_null hc hf hpage]
      exact Or.inl ⟨rfl, h⟩
  | taken hf htake he' hacc =>
      obtain ⟨rfl, rfl⟩ := Prod.mk.inj (Option.some.inj (he.symm.trans he'))
      rw [kmallocListWith_kept hc hf]
      exact Or.inr ⟨_, rfl, h.of_shapes hacc htake.shapes⟩
  | @grown s₁ s₂ mms p pre post hf hpage _ hphy _ hjoin htake he' hacc hfit =>
      obtain ⟨rfl, rfl⟩ := Prod.mk.inj (Option.some.inj (he.symm.trans he'))
      have hgrow : kmallocListWith nestedList pageAt s list size
          = growList pageAt list (s.cachePool i) (newSlab i p) := by
        unfold kmallocListWith
        rw [if_neg (Nat.not_lt.mpr (size_le_max hi' h1)), hc]
        dsimp only
        rw [if_pos hf, hpage]
        dsimp only
        rw [h.ledger.size i hi', if_pos (mem_smallSizes hi), hphy]
      rw [hgrow]
      have hsh := htake.shapes.trans hjoin.shapes
      exact Or.inr ⟨_, rfl, hacc, hfit h.fit,
        h.linked.grow hp hacc (hfit h.fit) hi' (h.ring_ne_nil hi') hsh⟩

theorem Account.kmallocList_grown (h : Account m₀ pool s out blocks) (h5 : 5 ≤ i)
    (hi : i < KMALLOC_SLAB_SIZE) (h1 : size ≤ kmallocSize i) (h2 : ∀ j < i, kmallocSize j < size)
    (hf : (s.cache i).totalFree = 0) {mms : MMS} {page addr : Nat} {s₂ : KMem}
    (hpage : allocPage s.mms ZONE_NORMAL_INDEX 1 0 = some (mms, some page))
    (hheader : kmallocWith (fun _ _ => none) { s with mms := mms } SLAB_STRUCT_SIZE
      = some (s₂, some addr))
    (hphy : (s₂.mms.page page).phyAddr = page * PAGE_4K_SIZE) :
    kmallocList pageAt s list size
      = growList pageAt (kmallocListWith (fun _ list _ => list) pageAt { s with mms := mms } list
          SLAB_STRUCT_SIZE) (s₂.cachePool i) (newLargeSlab i page addr) := by
  obtain ⟨hs, hl⟩ := mem_largeSizes h5 hi
  unfold kmallocList
  rw [kmallocListWith, if_neg (Nat.not_lt.mpr (size_le_max hi h1)), findClass_eq h.ledger.size hi h1 h2]
  dsimp only
  rw [if_pos hf, hpage]
  dsimp only
  rw [h.ledger.size i hi, if_neg hs, if_pos hl, hheader]
  dsimp only
  rw [hphy]

/-- **A class above 0x200 bytes** serves a call. -/
theorem Books.kmalloc_large (hp : PoolLayout m₀ pool) (h : Books m₀ pool s list out blocks)
    (h5 : 5 ≤ i) (hi : i < KMALLOC_SLAB_SIZE) (h1 : size ≤ kmallocSize i)
    (h2 : ∀ j < i, kmallocSize j < size)
    (hends : (s.cache i).totalFree = 0 →
      (∃ mms page, allocPage s.mms ZONE_NORMAL_INDEX 1 0 = some (mms, some page)) →
      EndsBefore s 2 SLAB_STRUCT_SIZE) {r : Option Nat} (he : kmalloc s size = some (s', r)) :
    (r = none ∧ Books m₀ pool s' (kmallocList pageAt s list size) out blocks) ∨
    ∃ p, r = some p ∧ Books m₀ pool s' (kmallocList pageAt s list size) out (p :: blocks) := by
  have hc := findClass_eq h.ledger.size hi h1 h2
  by_cases hf : (s.cache i).totalFree = 0
  · cases h.toAccount.largeCall hp h5 hi hf h1 h2 with
    | null hpage he' =>
        obtain ⟨rfl, rfl⟩ := Prod.mk.inj (Option.some.inj (he.symm.trans he'))
        rw [kmallocList, kmallocListWith_null hc hf hpage]
        exact Or.inl ⟨rfl, h⟩
    | loses hl he' => exact absurd (he.symm.trans he') (by simp)
    | @grown mms page addr k s₂ s₃ t pre post hpage _ hheader hphy hacc₁ ht hk haddr hfit₂ hends₂ hjoin
        htake he' hacc hfit =>
        obtain ⟨rfl, rfl⟩ := Prod.mk.inj (Option.some.inj (he.symm.trans he'))
        have hfits := hends₂ (hends hf ⟨mms, page, hpage⟩)
        -- the header first
        have hbooks₁ : Books m₀ pool { s with mms := mms } list (fun x => out x + ind page 9 x) blocks :=
          h.of_shapes hacc₁ rfl
        rcases hbooks₁.kmalloc_small hp (by decide : 2 < 5) (by decide : SLAB_STRUCT_SIZE ≤ kmallocSize 2)
          (by decide) (fun _ list _ => list) hheader with ⟨hn, -⟩ | ⟨q, hq, hbooks₂⟩
        · exact absurd hn (by simp)
        have hgrow := @Account.kmallocList_grown _ _ _ list _ _ pageAt _ _ h.toAccount h5 hi h1 h2 hf _ _ _ _
          hpage hheader hphy
        rw [hgrow]
        have hsh := htake.shapes.trans hjoin.shapes
        have hfit' := hfit (hfit₂ h.fit) hfits
        exact Or.inr ⟨_, rfl, hacc, hfit',
          hbooks₂.linked.grow hp hacc hfit' hi (hbooks₂.ring_ne_nil hi) hsh⟩
  · obtain ⟨s₁, pre, t, post, k, htake, he', hacc⟩ :=
      h.toAccount.kmalloc_taken hi hf h1 h2 (kmallocWith (fun _ _ => none))
    obtain ⟨rfl, rfl⟩ := Prod.mk.inj (Option.some.inj (he.symm.trans he'))
    rw [kmallocList, kmallocListWith_kept hc hf]
    exact Or.inr ⟨_, rfl, h.of_shapes hacc htake.shapes⟩

/-- **`kmalloc`** keeps the books. -/
theorem Books.kmalloc (hp : PoolLayout m₀ pool) (h : Books m₀ pool s list out blocks)
    (hends : HeaderEndsBefore ⟨s, list, blocks⟩ (.kmalloc size)) {r : Option Nat}
    (he : Talios.kmalloc s size = some (s', r)) :
    (r = none ∧ Books m₀ pool s' (kmallocList pageAt s list size) out blocks) ∨
    ∃ p, r = some p ∧ Books m₀ pool s' (kmallocList pageAt s list size) out (p :: blocks) := by
  by_cases hbig : 0x100000 < size
  · have hk : Talios.kmalloc s size = some (s, none) := by rw [Talios.kmalloc, kmallocWith, if_pos hbig]
    obtain ⟨rfl, rfl⟩ := Prod.mk.inj (Option.some.inj (he.symm.trans hk))
    rw [kmallocList, kmallocListWith, if_pos hbig]
    exact Or.inl ⟨rfl, h⟩
  · obtain ⟨i, hi, hc, h1, h2⟩ := findClass_spec h.ledger.size (Nat.le_of_not_lt hbig)
    rcases Nat.lt_or_ge i 5 with hi5 | h5
    · exact h.kmalloc_small hp hi5 h1 h2 _ he
    · exact h.kmalloc_large hp h5 hi h1 h2 (hends i hc h5) he

/-- `AllocSlab` finds an object whenever `kmalloc` calls it. -/
theorem Account.kmallocFinds (hp : PoolLayout m₀ pool) (h : Account m₀ pool s out blocks) (size : Nat) :
    KmallocFinds s size := by
  have hnull : ∀ {mms : MMS}, allocPage s.mms ZONE_NORMAL_INDEX 1 0 = some (mms, none) →
      ∀ m q, allocPage s.mms ZONE_NORMAL_INDEX 1 0 ≠ some (m, some q) := by
    intro mms hpage m q hq
    exact absurd (hq.symm.trans hpage) (by simp)
  refine ⟨fun s' hs' => ?_, fun hn => ?_⟩
  · by_cases hbig : 0x100000 < size
    · exact Or.inl hbig
    right
    obtain ⟨i, hi, hc, h1, h2⟩ := findClass_spec h.ledger.size (Nat.le_of_not_lt hbig)
    by_cases hf : (s.cache i).totalFree = 0
    · rcases Nat.lt_or_ge i 5 with hi5 | h5
      · cases h.smallCall hp hi5 h1 h2 (kmallocWith (fun _ _ => none)) with
        | null _ hpage _ => exact hnull hpage
        | taken hf' => exact absurd hf hf'
        | grown _ _ _ _ _ _ _ he =>
            exact absurd (hs'.symm.trans he) (by simp)
      · cases h.largeCall hp h5 hi hf h1 h2 with
        | null hpage _ => exact hnull hpage
        | loses _ he => exact absurd (hs'.symm.trans he) (by simp)
        | grown _ _ _ _ _ _ _ _ _ _ _ _ he =>
            exact absurd (hs'.symm.trans he) (by simp)
    · obtain ⟨s₁, pre, t, post, k, -, he, -⟩ :=
        h.kmalloc_taken hi hf h1 h2 (kmallocWith (fun _ _ => none))
      exact absurd (hs'.symm.trans he) (by simp)
  · obtain ⟨i, -, -, -, hl⟩ := (kmalloc_clean hp h size).2.mp hn
    exact hl

/-! ## `kfree` -/

/-- Where fewer slabs are left, fewer headers have to fit. -/
theorem HeadersFit.mono {ring ring' : Nat → List Slab} (h : HeadersFit ring)
    (hsub : ∀ j, (ring' j).Sublist (ring j)) : HeadersFit ring' := by
  intro p hp t ht k hk he
  obtain ⟨j, h5, hj, u, hu, rfl⟩ := mem_headersOf.mp hp
  exact h _ (mem_headersOf.mpr ⟨j, h5, hj, u, (hsub j).tail.mem hu, rfl⟩) t ((hsub 2).tail.mem ht) k hk he

/-- **A slab without objects that is not `CachePool` leaves its class.** -/
theorem Books.drop (hp : PoolLayout m₀ pool) (h : Books m₀ pool s list out blocks)
    (hi : i < KMALLOC_SLAB_SIZE) {cp : Slab} {pre post : List Slab}
    (hr : (s.cache i).ring = cp :: (pre ++ t :: post)) (hu : t.usingCount = 0) :
    ∃ s', dropSlab s i t 0 = some s' ∧ (∀ j, (s'.shapes j).Sublist (s.shapes j)) ∧
      Books m₀ pool s' (listDelete list t.addr) out (if i < 5 then blocks else t.addr :: blocks) := by
  obtain ⟨s', hdrop, -, hsub, hsh, hacc⟩ := h.toAccount.drop hi hr hu
  have hr' : s.shapes i = (cp.shape :: pre.map Slab.shape) ++ t.shape :: post.map Slab.shape := by
    rw [KMem.shapes, hr]
    simp
  have hsh' : s'.shapes = Function.update s.shapes i
      ((cp.shape :: pre.map Slab.shape) ++ post.map Slab.shape) := hsh
  have hlinked := h.linked.drop (t := t.shape) hp h.toAccount h.fit hi hr' hsh'
  exact ⟨s', hdrop, hsub, hacc, h.fit.mono hsub, hlinked⟩

/-- The object at `b` is in use, and `ptr` lies in it: `kfree` finds its slab. -/
structure OwnerFound (s : KMem) (b ptr i : Nat) (pre : List Slab) (t : Slab) (post : List Slab) (k : Nat) :
    Prop where
  lt : i < KMALLOC_SLAB_SIZE
  ring : (s.cache i).ring = pre ++ t :: post
  taken : t.Taken s.word k
  block : b = t.vaddress + k * kmallocSize i
  owner : findOwner s (alignDown PAGE_2M_SIZE ptr) KMALLOC_SLAB_SIZE 0 = some (i, t)
  offset : (ptr - alignDown PAGE_2M_SIZE ptr) / (s.cache i).size = k

theorem Account.ownerFound (h : Account m₀ pool s out blocks) {b ptr k : Nat} (hb : b ∈ blocks)
    (hi : i < KMALLOC_SLAB_SIZE) (ht : t ∈ (s.cache i).ring) (hk : k < t.colorCount)
    (he : b = t.vaddress + k * kmallocSize i) (h1 : b ≤ ptr) (h2 : ptr < b + kmallocSize i) :
    ∃ pre post, OwnerFound s b ptr i pre t post k := by
  have htaken : t.Taken s.word k :=
    (h.ledger.taken_iff hi (shape_mem ht) hk).mpr (List.mem_append_left _ (he ▸ hb))
  have hin : t.vaddress + k * kmallocSize i ≤ ptr ∧ ptr < t.vaddress + (k + 1) * kmallocSize i := by
    rw [Nat.add_mul]
    omega
  obtain ⟨hfind, hoff⟩ := h.ledger.findOwner hi ht htaken hin
  obtain ⟨pre, post, hr⟩ := List.append_of_mem ht
  exact ⟨pre, post, hi, hr, htaken, he, hfind, hoff⟩

/-- The test of `kfree` whether the slab stays. -/
abbrev SlabStays (s : KMem) (i : Nat) (slab : Slab) : Prop :=
  slab.usingCount ≠ 0 ∨ (s.cache i).totalFree < slab.freeCount * 3 / 2 ∨
    (s.cache i).ring.head?.map Slab.addr = some slab.addr

theorem OwnerFound.release (h : Books m₀ pool s list out blocks) {b ptr k : Nat} {pre post : List Slab}
    (hfound : OwnerFound s b ptr i pre t post k) (hb : b ∈ blocks) :
    GivesObject s (releaseObject s i t ptr) i pre t post k ∧
      Books m₀ pool (releaseObject s i t ptr) list out (blocks.erase b) := by
  obtain ⟨hgive, hacc⟩ := h.toAccount.release hfound.lt hfound.ring hfound.taken
    (hfound.block ▸ hb) hfound.offset
  rw [← hfound.block] at hacc
  exact ⟨hgive, h.of_shapes hacc hgive.shapes⟩

/-- A slab that does not stay is not the first of its ring, and has no objects. -/
theorem GivesObject.not_stays {pre post : List Slab} {k : Nat} (h : GivesObject s s' i pre t post k)
    (hstays : ¬ SlabStays s' i t.give) : t.give.usingCount = 0 ∧
      ∃ cp pre', (s'.cache i).ring = cp :: (pre' ++ t.give :: post) := by
  unfold SlabStays at hstays
  push Not at hstays
  obtain ⟨h0, -, hne⟩ := hstays
  have hring : (s'.cache i).ring = pre ++ t.give :: post := by rw [h.cache]
  obtain ⟨cp, pre', rfl⟩ := exists_cons_of_head_ne hring hne
  exact ⟨h0, cp, pre', hring⟩

/-- **`kfree` in a class up to 0x200 bytes.** -/
theorem Books.kfree_small (hp : PoolLayout m₀ pool) (h : Books m₀ pool s list out blocks) {b ptr k : Nat}
    {pre post : List Slab} (hfound : OwnerFound s b ptr i pre t post k) (hi : i < 5) (hb : b ∈ blocks)
    (nested : KMem → Nat → Option (KMem × Bool))
    (nestedList : KMem → Links.Heap Nat → Nat → Links.Heap Nat) :
    ∃ s', kfreeWith nested s ptr = some (s', true) ∧ (∀ j, (s'.shapes j).Sublist (s.shapes j)) ∧
      Books m₀ pool s' (kfreeListWith nestedList s list ptr) out (blocks.erase b) := by
  have hi' := five_lt hi
  obtain ⟨hgive, hbooks⟩ := hfound.release h hb
  unfold kfreeWith kfreeListWith
  rw [hfound.owner]
  dsimp only
  by_cases hstays : SlabStays (releaseObject s i t ptr) i t.give
  · rw [if_pos hstays, if_pos hstays]
    exact ⟨_, rfl, fun j => by rw [hgive.shapes], hbooks⟩
  · obtain ⟨h0, cp, pre', hring⟩ := hgive.not_stays hstays
    obtain ⟨s', hdrop, hsub, hbooks'⟩ := hbooks.drop hp hi' hring h0
    rw [if_pos hi] at hbooks'
    rw [if_neg hstays, if_neg hstays, h.ledger.size i hi', if_pos (mem_smallSizes hi),
      if_pos (mem_smallSizes hi), h0, hdrop]
    exact ⟨s', rfl, fun j => hgive.shapes ▸ hsub j, hbooks'⟩

/-- **`kfree`** keeps the books. -/
theorem Books.kfree (hp : PoolLayout m₀ pool) (h : Books m₀ pool s list out blocks) {b ptr : Nat}
    (hb : b ∈ blocks) (hptr : s.ObjectByte b ptr) :
    ∃ s', Talios.kfree s ptr = some (s', true) ∧ (∀ j, (s'.shapes j).Sublist (s.shapes j)) ∧
      Books m₀ pool s' (kfreeList s list ptr) out (blocks.erase b) := by
  obtain ⟨i, hi', t, ht, k, hk, he, h1, h2⟩ := hptr
  obtain ⟨pre, post, hfound⟩ := h.toAccount.ownerFound hb hi' ht hk he h1 h2
  rcases Nat.lt_or_ge i 5 with hi | h5
  · exact h.kfree_small hp hfound hi hb _ _
  obtain ⟨hgive, hbooks⟩ := hfound.release h hb
  unfold Talios.kfree kfreeList
  rw [kfreeWith, kfreeListWith, hfound.owner]
  dsimp only
  by_cases hstays : SlabStays (releaseObject s i t ptr) i t.give
  · rw [if_pos hstays, if_pos hstays]
    exact ⟨_, rfl, fun j => by rw [hgive.shapes], hbooks⟩
  · -- the slab leaves, and then its header is given back
    obtain ⟨h0, cp, pre', hring⟩ := hgive.not_stays hstays
    obtain ⟨s₂, hdrop, hsub, hbooks₂⟩ := hbooks.drop hp hi' hring h0
    rw [if_neg (Nat.not_lt.mpr h5)] at hbooks₂
    have hsh : (releaseObject s i t ptr).shapes i
        = cp.shape :: (pre'.map Slab.shape ++ t.give.shape :: post.map Slab.shape) := by
      rw [KMem.shapes, hring]
      simp
    have hhead : t.addr ∈ s.headers := by
      refine mem_headersOf.mpr ⟨i, h5, hi', t.give.shape, ?_, rfl⟩
      rw [← hgive.shapes, hsh]
      simp
    have hmem : t.addr ∈ t.addr :: blocks.erase b := List.mem_cons_self
    obtain ⟨j, hj, u, hu, l, hl, hhe⟩ :=
      (hbooks₂.ledger.ptrs t.addr).mp (List.mem_append_left _ hmem)
    obtain rfl := h.headersIn _ hhead j hj u (hgive.shapes ▸ (hsub j).mem hu) l hl.1 hhe
    obtain ⟨r, hr, rfl⟩ := List.mem_map.mp hu
    obtain ⟨pre₂, post₂, hfound₂⟩ := hbooks₂.toAccount.ownerFound hmem hj hr hl.1 hhe le_rfl
      (Nat.lt_add_of_pos_right (kmallocSize_pos 2))
    obtain ⟨s', hcall, hsub', hbooks'⟩ := hbooks₂.kfree_small hp hfound₂ (by decide) hmem
      (fun _ _ => none) (fun _ list _ => list)
    rw [if_neg hstays, if_neg hstays, h.ledger.size i hi', if_neg (mem_largeSizes h5 hi').1,
      if_neg (mem_largeSizes h5 hi').1, hdrop]
    dsimp only
    have herase : (t.give.addr :: blocks.erase b).erase t.addr = blocks.erase b :=
      List.erase_cons_head ..
    rw [herase] at hbooks'
    refine ⟨s', by rw [hcall]; rfl, fun j => (hsub' j).trans (hgive.shapes ▸ hsub j), hbooks'⟩

/-! ## What is marked -/

/-- The bits set are the objects in the books. -/
theorem Ledger.marked_iff {ptrs : List Nat} (h : Ledger s ptrs) (p : Nat) : s.Marked p ↔ p ∈ ptrs := by
  rw [h.ptrs p]
  constructor
  · rintro ⟨i, hi, t, ht, k, hk, hb, he⟩
    exact ⟨i, hi, t.shape, shape_mem ht, k, ⟨hk, hb⟩, by rw [← h.size i hi]; exact he⟩
  · rintro ⟨i, hi, t, ht, k, hk, he⟩
    obtain ⟨r, hr, rfl⟩ := List.mem_map.mp ht
    exact ⟨i, hi, r, hr, k, hk.1, hk.2, by rw [h.size i hi]; exact he⟩

/-- The slabs a class has grown by are not its first one. -/
theorem Account.addr_ne_pool (h : Account m₀ pool s out blocks) (hi : i < KMALLOC_SLAB_SIZE)
    (ht : t ∈ (s.shapes i).tail) : t.addr ≠ (pool i).addr := by
  obtain ⟨grown, hr, -⟩ := h.start i hi
  have hnd := h.ledger.apart.addrs i hi
  rw [hr] at ht hnd
  rw [List.map_cons, List.nodup_cons] at hnd
  intro he
  exact hnd.1 (List.mem_map.mpr ⟨t, ht, he⟩)

theorem Account.cachePool_eq (h : Account m₀ pool s out blocks) (hi : i < KMALLOC_SLAB_SIZE) :
    s.cachePool i = (pool i).addr := by
  obtain ⟨grown, hr, -⟩ := h.start i hi
  exact cachePool_of_shapes (t := (pool i).shape) hr

/-- A slab that is given up is not the first one. -/
theorem Account.givenUp_tail (h : Account m₀ pool s out blocks) {out' : Nat → Nat}
    {blocks' : List Nat} (h' : Account m₀ pool s' out' blocks') (hi : i < KMALLOC_SLAB_SIZE)
    (ht : GivenUp s s' i t) : t ∈ (s.shapes i).tail := by
  rcases h.cases hi ht.1 with rfl | ⟨htail, -⟩
  · obtain ⟨grown, hr, -⟩ := h'.start i hi
    exact absurd (hr ▸ List.mem_cons_self) ht.2
  · exact htail

/-- The headers that are objects are those before, less those of the slabs that are given up. -/
theorem Account.headers_iff (h : Account m₀ pool s out blocks) {out' : Nat → Nat}
    {blocks' : List Nat} (h' : Account m₀ pool s' out' blocks')
    (hsub : ∀ j, (s'.shapes j).Sublist (s.shapes j)) (p : Nat) : p ∈ s'.headers ↔ p ∈ s.headers ∧
      ¬ ∃ i < KMALLOC_SLAB_SIZE, 5 ≤ i ∧ ∃ t, GivenUp s s' i t ∧ t.addr = p := by
  constructor
  · intro hp
    obtain ⟨j, h5, hj, u, hu, rfl⟩ := mem_headersOf.mp hp
    have hu' := (hsub j).tail.mem hu
    refine ⟨mem_headersOf.mpr ⟨j, h5, hj, u, hu', rfl⟩, ?_⟩
    rintro ⟨i, hi, h5', t, ht, he⟩
    obtain ⟨rfl, rfl⟩ := h.large_eq h5' hi h5 hj (h.givenUp_tail h' hi ht) hu' he
    exact ht.2 (List.mem_of_mem_tail hu)
  · rintro ⟨hp, hkept⟩
    obtain ⟨j, h5, hj, u, hu, rfl⟩ := mem_headersOf.mp hp
    have hu' : u ∈ s'.shapes j := by
      by_contra hno
      exact hkept ⟨j, hj, h5, u, ⟨List.mem_of_mem_tail hu, hno⟩, rfl⟩
    rcases h'.cases hj hu' with rfl | ⟨htail, -⟩
    · exact absurd rfl (h.addr_ne_pool (t := (pool j).shape) hj hu)
    · exact mem_headersOf.mpr ⟨j, h5, hj, u, htail, rfl⟩

theorem Account.kfreeExact (h : Account m₀ pool s out blocks) {b : Nat} (hb : b ∈ blocks)
    (h' : Account m₀ pool s' out (blocks.erase b))
    (hsub : ∀ j, (s'.shapes j).Sublist (s.shapes j)) : KfreeExact s s' b := by
  have hnd := List.nodup_append.mp h.ledger.ptrsNodup
  have hdis : ∀ p ∈ blocks, p ∉ s.headers := fun p hp hp' => hnd.2.2 p hp p hp' rfl
  constructor
  · intro p
    rw [h'.ledger.marked_iff, h.ledger.marked_iff, List.mem_append, List.mem_append,
      h.headers_iff h' hsub, hnd.1.mem_erase_iff]
    constructor
    · rintro (⟨hne, hp⟩ | ⟨hp, hkept⟩)
      · refine ⟨Or.inl hp, hne, ?_⟩
        rintro ⟨i, hi, h5, t, ht, rfl⟩
        exact hdis _ hp (mem_headersOf.mpr ⟨i, h5, hi, t, h.givenUp_tail h' hi ht, rfl⟩)
      · exact ⟨Or.inr hp, fun he => hdis b hb (he ▸ hp), hkept⟩
    · rintro ⟨hp | hp, hne, hkept⟩
      · exact Or.inl ⟨hne, hp⟩
      · exact Or.inr ⟨hp, hkept⟩
  · intro i hi t ht
    refine ⟨?_, ?_⟩
    · rw [h.cachePool_eq hi]
      exact h.addr_ne_pool hi (h.givenUp_tail h' hi ht)
    · rintro p ⟨j, hj, u, hu, k, hk, -, rfl⟩ hdata
      -- the object lies in the page of a slab that has stayed
      have hu' := (hsub j).mem (shape_mem hu)
      have hin := object_start u.vaddress k j
      rw [h'.ledger.size j hj] at hdata
      obtain ⟨rfl, rfl⟩ := h.ledger.toCounts.eq_of_data hi hj ht.1 hu' hdata
        (h.ledger.toCounts.object_data hj hu' hk le_rfl hin.2)
      exact ht.2 (shape_mem hu)

end

end Talios
