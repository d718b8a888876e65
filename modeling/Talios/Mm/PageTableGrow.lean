import Talios.Memory.SlabGrow
import Talios.Mm.PageTableStep

set_option autoImplicit false

/-! # Walks that make the class of pages grow

The first table a walk gets from a slab by which class `0x1000` has grown lies on the bitmap of
that slab. `walk_pte` clears it, and with it the bitmap. Where it is the last table the walk needs
this does no harm to the tables. Where another one is missing, the next page handed out is the
same page, or the bitmap is read from an entry of the table: the page becomes a table below itself
(`PageOnMap.loops`), and an address no one has mapped is translated to it.
-/

namespace Talios

open Word Bitmap Dyadic Radix

/-! ## The new slab -/

/-- Class `0x1000` after it has grown by the page at word `q`: the objects of `CachePool` are used
up, the next slab has `n` free objects, and its bitmap lies on its first object. -/
structure PageOnMap (s : KMem) (q n : Nat) : Prop where
  size : ∀ j < KMALLOC_SLAB_SIZE, (s.cache j).size = kmallocSize j
  totalFree : (s.cache 7).totalFree = n
  ring : ∃ cp slab, (s.cache 7).ring = [cp, slab] ∧ cp.freeCount = 0 ∧ slab.freeCount = n ∧
    slab.colorCount = 512 ∧ slab.colorMap = 8 * q ∧ slab.vaddress = 8 * q

section

variable {s : KMem} {q n : Nat}

theorem PageOnMap.congr {s' : KMem} (h : PageOnMap s q n) (hc : s'.cache = s.cache) :
    PageOnMap s' q n := by
  obtain ⟨h1, h2, h3⟩ := h
  exact ⟨by rw [hc]; exact h1, by rw [hc]; exact h2, by rw [hc]; exact h3⟩

/-- `AllocSlab` reads the bitmap from word `q`: it hands out the object of the first clear bit. -/
theorem PageOnMap.allocSlab (h : PageOnMap s q (n + 1)) {j : Nat} (hj : j < 64)
    (hclear : (s.word q).getLsbD j = false) (hset : ∀ k < j, (s.word q).getLsbD k = true) :
    ∃ s', Talios.allocSlab s 7 = (s', some (8 * (q + 512 * j))) ∧ PageOnMap s' q n ∧
      s'.mms = s.mms ∧ s'.word = Function.update s.word q (s.word q ||| 1#64 <<< j) := by
  obtain ⟨cp, slab, hr, hcp, hf, hc, hm, hv⟩ := h.ring
  have h7 : 7 < KMALLOC_SLAB_SIZE := by decide
  have hbase : slab.colorMap / 8 = q := by rw [hm, Nat.mul_div_cancel_left _ (by decide)]
  have hbit : ∀ k < 64, bit s.word q k = (s.word q).getLsbD k := by
    intro k hk
    unfold bit
    rw [Nat.div_eq_of_lt hk, Nat.add_zero, Nat.mod_eq_of_lt hk]
  have hfind : findColor s.word slab = some j := by
    unfold findColor
    rw [hbase, hc]
    apply scan_eq_some (by omega)
    · rw [hbit j hj, hclear]
    · intro k hk
      rw [hbit k (by omega), hset k hk]
  have halloc : allocRing s.word (s.cache 7).size [cp, slab]
      = some ([cp, slab.take], setBit s.word q j, 8 * (q + 512 * j)) := by
    rw [allocRing, if_pos hcp]
    dsimp only
    rw [allocRing, if_neg (by omega), hfind]
    simp only [Option.map_some, hbase, hv, h.size 7 h7, Option.some.injEq, Prod.mk.injEq, true_and]
    unfold kmallocSize
    omega
  unfold Talios.allocSlab
  dsimp only
  rw [hr, halloc]
  refine ⟨_, rfl, ⟨fun k hk => ?_, ?_, cp, slab.take, ?_, hcp, ?_, hc, hm, hv⟩, rfl, ?_⟩
  · by_cases hk7 : k = 7
    · rw [hk7, setCache_cache_self]
      exact h.size 7 h7
    · rw [setCache_cache_ne _ hk7]
      exact h.size k hk
  · rw [setCache_cache_self]
    show (s.cache 7).totalFree - 1 = n
    rw [h.totalFree]
    omega
  · rw [setCache_cache_self]
  · show slab.freeCount - 1 = n
    omega
  · show setBit s.word q j = _
    unfold setBit
    rw [Nat.div_eq_of_lt hj, Nat.mod_eq_of_lt hj, Nat.add_zero]

/-- So does `kmalloc` of a page. -/
theorem PageOnMap.kmalloc (h : PageOnMap s q (n + 1)) {j : Nat} (hj : j < 64)
    (hclear : (s.word q).getLsbD j = false) (hset : ∀ k < j, (s.word q).getLsbD k = true) :
    ∃ s', Talios.kmalloc s PAGE_4K_SIZE = some (s', some (8 * (q + 512 * j))) ∧ PageOnMap s' q n ∧
      s'.mms = s.mms ∧ s'.word = Function.update s.word q (s.word q ||| 1#64 <<< j) := by
  obtain ⟨s', he, hrest⟩ := h.allocSlab hj hclear hset
  refine ⟨s', ?_, hrest⟩
  rw [Talios.kmalloc, kmalloc_eq_allocSlab (by decide)
    (findClass_eq h.size (show 7 < KMALLOC_SLAB_SIZE by decide) (by decide) (by decide))
    (by rw [h.totalFree]; omega), he]

theorem growLarge_mms (s : KMem) (i page addr : Nat) : (growLarge s i page addr).mms = s.mms := by
  rw [growLarge, addSlab_mms]

/-- The class of pages grows by the page at word `q`. -/
theorem growLarge_onMap_page {page addr : Nat}
    (hsize : ∀ j < KMALLOC_SLAB_SIZE, (s.cache j).size = kmallocSize j)
    (hf : (s.cache 7).totalFree = 0) {cp : Slab} (hr : (s.cache 7).ring = [cp])
    (hcp : cp.freeCount = 0) (hq : phyToVirt (s.mms.page page).phyAddr = 8 * q) :
    PageOnMap (growLarge s 7 page addr) q (511 + 1) ∧
      (growLarge s 7 page addr).word = fill s.word q 8 0 := by
  have h7 : 7 < KMALLOC_SLAB_SIZE := by decide
  have hcount : PAGE_2M_SIZE / kmallocSize 7 = 512 := by decide
  unfold growLarge
  dsimp only
  rw [hsize 7 h7, hq]
  refine ⟨⟨fun j hj => ?_, ?_, cp, largeSlab (kmallocSize 7) page (8 * q) addr, ?_, hcp, hcount,
    hcount, rfl, rfl⟩, ?_⟩
  · unfold KMem.addSlab
    by_cases hj7 : j = 7
    · rw [hj7, setCache_cache_self]
      exact hsize 7 h7
    · rw [setCache_cache_ne _ hj7]
      exact hsize j hj
  · rw [KMem.addSlab, setCache_cache_self]
    show (s.cache 7).totalFree + PAGE_2M_SIZE / kmallocSize 7 = _
    rw [hf, hcount]
  · rw [KMem.addSlab, setCache_cache_self]
    show insertSlab _ (s.cache 7).ring = _
    rw [hr]
    rfl
  · show fill s.word (8 * q / 8) (bitsMapLength (PAGE_2M_SIZE / kmallocSize 7)) 0 = _
    rw [Nat.mul_div_cancel_left _ (by decide), hcount]
    rfl

end

/-- The class of pages has grown onto the page at word `q`, its first object is handed out. -/
structure GrownOnto (m₀ : MMS) (s : KMem) (out : Nat → Nat) (s' : KMem) (q : Nat) : Prop where
  onMap : PageOnMap s' q 511
  direct : ∀ k < 512, DirectPage (q + 512 * k)
  apart : ∀ a, q ≤ a → a < q + 2 ^ 18 → ¬ HeldFrame m₀ s out (wordFrame a)
  layout : SameLayout s.mms s'.mms
  word : ∀ a, ¬ s.MapWord a → HeldFrame m₀ s out (wordFrame a) → s'.word a = s.word a

section

variable {m₀ : MMS} {pool : Nat → Slab} {s : KMem} {out : Nat → Nat} {objs : List Obj}

/-- The first slab of the class of pages, when the class has no free object. -/
theorem HeapInv.pages_used (h : HeapInv m₀ pool s out objs) (hf : (s.cache 7).totalFree = 0) :
    ∃ cp, (s.cache 7).ring = [cp] ∧ cp.freeCount = 0 := by
  have h7 : 7 < KMALLOC_SLAB_SIZE := by decide
  have htail := h.tail_eq_nil (by decide) h7
  have hsum := h.totalFree 7 h7
  obtain ⟨grown, hst, -⟩ := h.rings.start 7 h7
  rw [KMem.shapes] at htail hst
  rw [hf] at hsum
  cases hc : (s.cache 7).ring with
  | nil =>
      rw [hc] at hst
      exact absurd hst (by simp)
  | cons cp rest =>
      rw [hc] at htail hsum
      have hrest : rest = [] := by simpa using htail
      subst hrest
      exact ⟨cp, rfl, by simpa using hsum.symm⟩

/-- The pages of a block of 2 MiB in the direct map. -/
theorem directPage_block {p q : Nat} (ha : 2 ^ 9 ∣ p) (hq : 8 * q = phyToVirt (p * PAGE_4K_SIZE))
    (hlt : (p + 511 + 1) * PAGE_4K_SIZE ≤ 2 ^ 47) {k : Nat} (hk : k < 512) :
    DirectPage (q + 512 * k) := by
  have hsize : PAGE_4K_SIZE = 4096 := by decide
  unfold phyToVirt at hq
  rw [hsize] at hq hlt
  refine ⟨?_, ?_, ?_⟩
  · rw [hsize]
    unfold PAGE_OFFSET at hq
    omega
  · omega
  · omega

/-- `kmalloc` of a page by growing. -/
theorem HeapInv.kmalloc_page_grow (h : HeapInv m₀ pool s out objs) (hf : (s.cache 7).totalFree = 0)
    {m' : MMS} {page : Nat}
    (ha : allocPage s.mms ZONE_NORMAL_INDEX 1 0 = some (m', some page)) :
    kmalloc s PAGE_4K_SIZE
      = (kmallocWith (fun _ _ => none) { s with mms := m' } SLAB_STRUCT_SIZE).bind (fun r =>
          r.2.map (fun addr => Talios.allocSlab (growLarge r.1 7 page addr) 7)) := by
  unfold kmalloc
  rw [kmallocWith, if_neg (by decide), findClass_page h.toHeapCore]
  dsimp only
  rw [if_pos hf, ha]
  dsimp only
  rw [h.size 7 (by decide), if_neg (by decide), if_pos (by decide)]
  rcases kmallocWith (fun _ _ => none) { s with mms := m' } SLAB_STRUCT_SIZE with
    _ | ⟨s₂, _ | addr⟩ <;> rfl

/-- **`kmalloc` of a page** without a free object, when a block can be had: it goes wrong for want
of a header, or hands out the page its own bitmap lies on. -/
theorem HeapInv.kmalloc_grows (hd : DirectMap m₀ pool) (h : HeapInv m₀ pool s out objs)
    (hf : (s.cache 7).totalFree = 0) {m' : MMS} {page : Nat}
    (ha : allocPage s.mms ZONE_NORMAL_INDEX 1 0 = some (m', some page)) :
    (kmalloc s PAGE_4K_SIZE = none ∧ ¬ CanGrow s) ∨
    ∃ s' q, kmalloc s PAGE_4K_SIZE = some (s', some (8 * q)) ∧ CanGrow s ∧
      GrownOnto m₀ s out s' q := by
  have h7 : 7 < KMALLOC_SLAB_SIZE := by decide
  obtain ⟨zi, hz, hh⟩ := allocPage_some h.inv ha
  obtain ⟨hfree, hphy, hzone⟩ := handed_page h.layout h.inv hz hh
  have hinv₁ := h.pagesTaken hh
  have hcall := h.kmalloc_page_grow hf ha
  have hgrow : CanGrow s ↔ HasHeader { s with mms := m' } := by
    constructor
    · rintro ⟨m, q, he, hhead⟩
      rw [ha] at he
      obtain ⟨rfl, rfl⟩ : m' = m ∧ page = q := by simpa using he
      exact hhead
    · exact fun hhead => ⟨m', page, ha, hhead⟩
  rcases hinv₁.kmalloc_header hd.toPoolLayout with
    ⟨hn, hno⟩ | ⟨s₂, addr, hn, hhas, hsize, hothers, hlay, hword⟩
  · left
    rw [hcall, hn]
    exact ⟨rfl, fun hc => hno (hgrow.mp hc)⟩
  right
  -- the slab is made, and its first object taken
  obtain ⟨q, hq⟩ : ∃ q, 8 * q = phyToVirt (page * PAGE_4K_SIZE) := by
    refine ⟨phyToVirt (page * PAGE_4K_SIZE) / 8, ?_⟩
    unfold phyToVirt PAGE_OFFSET PAGE_4K_SIZE PAGE_4K_SHIFT
    omega
  obtain ⟨cp, hr, hcp⟩ := h.pages_used hf
  have hc7 : s₂.cache 7 = s.cache 7 := hothers 7 (by decide)
  obtain ⟨hon, hw⟩ := @growLarge_onMap_page s₂ q page addr hsize (by rw [hc7]; exact hf) cp
    (by rw [hc7]; exact hr) hcp (by rw [(hlay.pages page).2.1, hq]; exact congrArg phyToVirt hphy)
  have hz0 : (growLarge s₂ 7 page addr).word q = 0 := by rw [hw, fill, if_pos (by omega)]
  obtain ⟨s', he, hon', hm', hw'⟩ := hon.allocSlab (j := 0) (by decide) (by rw [hz0]; rfl)
    (fun k hk => absurd hk (by omega))
  have hapart : ∀ a, q ≤ a → a < q + 2 ^ 18 → ¬ HeldFrame m₀ s out (wordFrame a) := by
    intro a h1 h2
    apply h.not_held hz hh
    unfold Mem wordFrame page4KIndex virtToPhy
    unfold phyToVirt PAGE_OFFSET PAGE_4K_SIZE PAGE_4K_SHIFT at *
    omega
  refine ⟨s', q, ?_, hgrow.mpr hhas, hon', fun k hk => ?_, hapart, ?_, fun a ha hheld => ?_⟩
  · rw [hcall, hn]
    exact congrArg some he
  · -- the page lies in the direct map
    obtain ⟨zj, hzj, hin⟩ := hzone
    exact directPage_block hh.aligned hq ((Nat.mul_le_mul_right _ (hd.frames zj hzj (page + 511)
      (hin _ ⟨by omega, by omega⟩))).trans hd.count) hk
  · rw [hm', growLarge_mms]
    exact hh.layout.trans hlay
  · have hne : a < q ∨ q + 2 ^ 18 ≤ a := by
      by_contra hin
      exact hapart a (by omega) (by omega) hheld
    rw [hw', Function.update_of_ne (by omega), hw, fill, if_neg (by omega)]
    exact hword a ha (hheld.imp_right (fun hu => ⟨hu.zone, Nat.add_pos_left hu.out _⟩))

end

/-! ## The walk goes on below such a table -/

section

variable {s : KMem} {q n : Nat}

/-- A level whose missing table is again the page at word `q`: the bit that `AllocSlab` sets is
cleared with the table. -/
theorem PageOnMap.level (h : PageOnMap s q (n + 1)) (hq : DirectPage q) (hz : s.word q = 0) {j : Nat}
    (hj : s.word (q + j) = 0) :
    ∃ s', walkLevel s (8 * q + j * 8) true = some (s', some (8 * q)) ∧ PageOnMap s' q n ∧
      s'.mms = s.mms ∧ ∀ a, s'.word a = if a = q + j then tableEntry q else
        if q ≤ a ∧ a < q + 512 then 0 else s.word a := by
  obtain ⟨s₁, hk, hon, hm, hw⟩ := h.kmalloc (j := 0) (by decide) (by rw [hz]; rfl)
    (fun k hk => absurd hk (Nat.not_lt_zero k))
  rw [Nat.mul_zero, Nat.add_zero] at hk
  refine ⟨_, walkLevel_made _ hq (by rw [entry_word]; exact hj) hk, hon.congr rfl, hm, fun a => ?_⟩
  show Function.update (fill s₁.word (8 * q / 8) (PAGE_4K_SIZE / 8) 0) ((8 * q + j * 8) / 8) _ a = _
  rw [entry_word, Nat.mul_div_cancel_left _ (by decide), Function.update_apply, fill]
  by_cases ha : a = q + j
  · rw [if_pos ha, if_pos ha]
  · rw [if_neg ha, if_neg ha, hw]
    by_cases hin : q ≤ a ∧ a < q + 512
    · rw [if_pos hin]
      exact if_pos hin
    · rw [if_neg hin, Function.update_of_ne (by omega)]
      exact if_neg hin

/-- The bits of an entry below the address. -/
theorem DirectPage.getLsbD_entry (hq : DirectPage q) {k : Nat} (hk : k < 12) :
    (tableEntry q).getLsbD k = PEA_USER_TABLE.getLsbD k := by
  rw [tableEntry, BitVec.getLsbD_or, getLsbD_aligned hq.phys.1 hk, Bool.false_or]

/-- A level whose missing table is the object of bit 3: entry 0 of the table at `q` names `q`, and
its lowest three bits are set. -/
theorem PageOnMap.level_third (h : PageOnMap s q (n + 1)) (hq : DirectPage q)
    (hq₃ : DirectPage (q + 512 * 3)) (hz : s.word q = tableEntry q) {j : Nat} (hj0 : j ≠ 0)
    (hj512 : j < 512) (hj : s.word (q + j) = 0) :
    ∃ s', walkLevel s (8 * q + j * 8) true = some (s', some (8 * (q + 512 * 3))) ∧ s'.mms = s.mms ∧
      s'.word q = tableEntry q ||| 8 ∧ ∀ a, a < q ∨ q + 2 ^ 18 ≤ a → s'.word a = s.word a := by
  obtain ⟨s₁, hk, hon, hm, hw⟩ := h.kmalloc (j := 3) (by decide)
    (by rw [hz, hq.getLsbD_entry (by decide)]; rfl)
    (fun k hk => by
      rw [hz, hq.getLsbD_entry (by omega)]
      obtain rfl | rfl | rfl : k = 0 ∨ k = 1 ∨ k = 2 := by omega
      all_goals rfl)
  refine ⟨_, walkLevel_made _ hq₃ (by rw [entry_word]; exact hj) hk, hm, ?_, fun a ha => ?_⟩
  · show Function.update (fill s₁.word (8 * (q + 512 * 3) / 8) (PAGE_4K_SIZE / 8) 0)
      ((8 * q + j * 8) / 8) _ q = _
    rw [entry_word, Function.update_of_ne (by omega), fill, if_neg (by omega), hw,
      Function.update_self, hz]
    rfl
  · show Function.update (fill s₁.word (8 * (q + 512 * 3) / 8) (PAGE_4K_SIZE / 8) 0)
      ((8 * q + j * 8) / 8) _ a = _
    rw [entry_word, Function.update_of_ne (by omega), fill, if_neg, hw,
      Function.update_of_ne (by omega)]
    unfold PAGE_4K_SIZE PAGE_4K_SHIFT
    omega

/-- After a walk below the page at word `q`, `d` levels deep: entry `i` of the page names the page
itself. The walk stands at the table `r`; if all its indices were `i`, the entry it ends at is
present. -/
structure LoopedWalk (s s' : KMem) (q vaddr d r i : Nat) : Prop where
  index : i < 512
  self : NamesTable q (s'.word (q + i))
  lower : q ≤ r
  upper : r + 512 ≤ q + 2 ^ 18
  mms : s'.mms = s.mms
  word : ∀ a, a < q ∨ q + 2 ^ 18 ≤ a → s'.word a = s.word a
  other : entryHas (s'.word (r + getBits vaddr PAGE_4K_SHIFT 9)) PEA_PRESENT = true ∨
    ∃ e ≤ d, getBits vaddr (12 + 9 * e) 9 ≠ i

/-- The walk stands at the page itself. -/
theorem LoopedWalk.table {s' : KMem} {vaddr d i : Nat} (hi : i < 512)
    (hself : NamesTable q (s'.word (q + i))) (hm : s'.mms = s.mms)
    (hout : ∀ a, a < q ∨ q + 2 ^ 18 ≤ a → s'.word a = s.word a) :
    LoopedWalk s s' q vaddr d q i := by
  refine ⟨hi, hself, le_rfl, by omega, hm, hout, ?_⟩
  by_cases he : getBits vaddr (12 + 9 * 0) 9 = i
  · left
    rw [show getBits vaddr PAGE_4K_SHIFT 9 = i from he]
    exact hself.present
  · exact Or.inr ⟨0, Nat.zero_le d, he⟩

/-- **A walk that misses a table below the page at word `q`.** -/
theorem PageOnMap.loops (h : PageOnMap s q (n + 2)) (hdir : ∀ k < 512, DirectPage (q + 512 * k))
    (hz : ∀ j < 512, s.word (q + j) = 0) (vaddr : Nat) {d : Nat} (hd : d = 1 ∨ d = 2) :
    ∃ s' r i, walkTables vaddr true (lastShifts d) s (8 * q) = some (s', some (8 * r)) ∧
      LoopedWalk s s' q vaddr d r i := by
  have hq : DirectPage q := hdir 0 (by decide)
  have hz0 : s.word q = 0 := hz 0 (by decide)
  obtain ⟨d, rfl⟩ : ∃ e, d = e + 1 := ⟨d - 1, by omega⟩
  obtain ⟨j, hj⟩ : ∃ j, getBits vaddr (12 + 9 * (d + 1)) 9 = j := ⟨_, rfl⟩
  have hj512 : j < 512 := hj ▸ getBits_lt vaddr _
  -- the first level makes entry `j` of the page name the page
  obtain ⟨s₁, hw₁, hon₁, hm₁, hword₁⟩ := h.level hq hz0 (hz j hj512)
  rw [← hj] at hw₁
  have hself₁ : s₁.word (q + j) = tableEntry q := by rw [hword₁, if_pos rfl]
  have hzero₁ : ∀ k < 512, k ≠ j → s₁.word (q + k) = 0 := by
    intro k hk hkj
    rw [hword₁, if_neg (by omega), if_pos (by omega)]
  have hout₁ : ∀ a, a < q ∨ q + 2 ^ 18 ≤ a → s₁.word a = s.word a := by
    intro a ha
    rw [hword₁, if_neg (by omega), if_neg (by omega)]
  have hname₁ : NamesTable q (s₁.word (q + j)) := by
    rw [hself₁]
    exact hq.names
  rw [lastShifts, walkTables_cons hw₁]
  rcases hd with hd | hd
  · obtain rfl : d = 0 := by omega
    exact ⟨s₁, q, j, rfl, LoopedWalk.table hj512 hname₁ hm₁ hout₁⟩
  obtain rfl : d = 1 := by omega
  obtain ⟨k, hk⟩ : ∃ k, getBits vaddr (12 + 9 * (0 + 1)) 9 = k := ⟨_, rfl⟩
  have hk512 : k < 512 := hk ▸ getBits_lt vaddr _
  rw [lastShifts]
  by_cases hkj : k = j
  · -- the second level finds that entry
    have hw₂ := walkLevel_found (s := s₁) (t := q) (8 * q + getBits vaddr (12 + 9 * (0 + 1)) 9 * 8)
      (by rw [entry_word, hk, hkj]; exact hname₁) true
    rw [walkTables_cons hw₂]
    exact ⟨s₁, q, j, rfl, LoopedWalk.table hj512 hname₁ hm₁ hout₁⟩
  · have hmiss : s₁.word (q + k) = 0 := hzero₁ k hk512 hkj
    by_cases hj0 : j = 0
    · -- the entry that names the page is read as the bitmap
      subst hj0
      obtain ⟨s₂, hw₂, hm₂, hself₂, hout₂⟩ := hon₁.level_third hq (hdir 3 (by decide))
        (by simpa using hself₁) hkj hk512 hmiss
      rw [← hk] at hw₂
      rw [walkTables_cons hw₂]
      refine ⟨s₂, q + 512 * 3, 0, rfl, by decide, ?_, by omega, by omega, hm₂.trans hm₁,
        fun a ha => (hout₂ a ha).trans (hout₁ a ha), Or.inr ⟨1, by decide, ?_⟩⟩
      · rw [Nat.add_zero, hself₂, tableEntry, BitVec.or_assoc]
        exact hq.names_flags (by unfold IsFlags; decide) (by decide) (by decide) (by decide)
          (by decide)
      · rw [show 12 + 9 * 1 = 12 + 9 * (0 + 1) by decide, hk]
        exact hkj
    · -- the bitmap is clear again: the second table is the page, too
      obtain ⟨s₂, hw₂, -, hm₂, hword₂⟩ := hon₁.level hq
        (by simpa using hzero₁ 0 (by decide) (Ne.symm hj0)) hmiss
      rw [← hk] at hw₂
      rw [walkTables_cons hw₂]
      refine ⟨s₂, q, k, rfl, LoopedWalk.table hk512 ?_ (hm₂.trans hm₁) (fun a ha => ?_)⟩
      · rw [hword₂, if_pos rfl]
        exact hq.names
      · rw [hword₂, if_neg (by omega), if_neg (by omega)]
        exact hout₁ a ha

end

/-! ## The first table of a slab -/

section

variable {m₀ : MMS} {pool : Nat → Slab} {s : KMem} {out : Nat → Nat} {objs : List Obj} {pgd : Nat}

/-- The words of the tables are held, and so not of a block handed out. -/
theorem HeapTree.held (hd : DirectMap m₀ pool) (h : HeapTree m₀ pool pgd s out objs) {l k t i : Nat}
    (hl : l ≤ 3) (ht : userTables.node s.word (userRoot pgd) l k = some t) (hi : i < 512) :
    HeldFrame m₀ s out (wordFrame (t + i)) :=
  Or.inl (h.heap.frame_of_object hd.toPoolLayout (h.owned l hl k t ht) (PageObj.has hi))

/-- The memory after the page at word `q`, by which the class has grown, has become the table of
the entry at word `a`. -/
structure LinkedGrown (m₀ : MMS) (s : KMem) (out : Nat → Nat) (pgd a q : Nat) (s' : KMem) : Prop where
  onMap : PageOnMap s' q 511
  tree : PageTree s'.word pgd
  leaf : ∀ n, userLeaf s'.word pgd n = userLeaf s.word pgd n
  layout : SameLayout s.mms s'.mms
  zero : ∀ j < 512, s'.word (q + j) = 0
  cases : ∀ l ≤ 3, ∀ k t, userTables.node s'.word (userRoot pgd) l k = some t →
    userTables.node s.word (userRoot pgd) l k = some t ∨ t = q
  word : ∀ b, ¬ s.MapWord b → HeldFrame m₀ s out (wordFrame b) → b ≠ a → s'.word b = s.word b

/-- **The first table from a slab by which the class has grown** is linked: the tree stays
well-formed, and no leaf is changed. -/
theorem HeapTree.linkGrown (hd : DirectMap m₀ pool) (h : HeapTree m₀ pool pgd s out objs) {s₁ : KMem}
    {q : Nat} (hg : GrownOnto m₀ s out s₁ q) {l k t i : Nat} (hl : l < 3)
    (hn : userTables.node s.word (userRoot pgd) l k = some t) (hi : i < userTables.width l)
    (hz : s.word (t + i) = 0) :
    LinkedGrown m₀ s out pgd (t + i) q
        ((s₁.clear (8 * q) PAGE_4K_SIZE).write (8 * t + i * 8) (tableEntry q)) ∧
      userTables.node ((s₁.clear (8 * q) PAGE_4K_SIZE).write (8 * t + i * 8) (tableEntry q)).word
        (userRoot pgd) (l + 1) (k * 512 + i) = some q := by
  set s' := (s₁.clear (8 * q) PAGE_4K_SIZE).write (8 * t + i * 8) (tableEntry q) with hs'
  have hword : ∀ b, s'.word b = if b = t + i then tableEntry q else
      if q ≤ b ∧ b < q + 512 then 0 else s₁.word b := by
    intro b
    show Function.update (fill s₁.word (8 * q / 8) (PAGE_4K_SIZE / 8) 0) ((8 * t + i * 8) / 8)
      (tableEntry q) b = _
    rw [entry_word, Nat.mul_div_cancel_left _ (by decide), Function.update_apply]
    rfl
  -- no word of a table lies in the block
  have hout : ∀ l ≤ 3, ∀ k u, userTables.node s.word (userRoot pgd) l k = some u → ∀ j < 512,
      u + j < q ∨ q + 2 ^ 18 ≤ u + j := by
    intro l hl k u hu j hj
    by_contra hin
    exact hg.apart (u + j) (by omega) (by omega) (h.held hd hl hu hj)
  have hi5 : i < 512 := hi.trans_le (Tree.width_le l)
  have hentry := hout l hl.le k t hn i hi5
  have hkeep : ∀ b, ¬ s.MapWord b → HeldFrame m₀ s out (wordFrame b) → b ≠ t + i →
      s'.word b = s.word b := by
    intro b hb hheld hne
    have hbq : b < q ∨ q + 2 ^ 18 ≤ b := by
      by_contra hin
      exact hg.apart b (by omega) (by omega) hheld
    rw [hword, if_neg hne, if_neg (by omega), hg.word b hb hheld]
  have hzero : ∀ j < 512, s'.word (q + j) = 0 := by
    intro j hj
    rw [hword, if_neg (by omega), if_pos (by omega)]
  obtain ⟨htree, hnode, -, hcases, hleaf⟩ := h.tree.link hl hn hi hz
    (hg.direct 0 (by decide)) (fun l' hl' k' u hu he => by
      have := hout l' hl' k' u hu 0 (by decide)
      omega)
    (show s'.word (t + i) = tableEntry q by rw [hword, if_pos rfl]) hzero
    (fun l' hl' k' u hu j hj hne => hkeep _ (h.not_mapWord hd.toPoolLayout hl' hu hj)
      (h.held hd hl' hu (hj.trans_le (Tree.width_le l'))) hne)
  exact ⟨⟨hg.onMap.congr rfl, htree, hleaf, hg.layout, hzero, hcases, hkeep⟩, hnode⟩

/-! ## Whole walks -/

theorem CanGrow.congr {s' : KMem} (hm : s'.mms = s.mms) (hc : s'.cache 2 = s.cache 2) :
    CanGrow s' ↔ CanGrow s := by
  unfold CanGrow HasHeader
  dsimp only
  rw [hm, hc]

/-- A frame of a user holds no word of the heap. -/
theorem HeapInv.user_word (hd : DirectMap m₀ pool) (h : HeapInv m₀ pool s out objs) {b : Nat}
    (hb : UserFrame m₀ out (wordFrame b)) : ¬ s.MapWord b := by
  rintro ⟨i, hi, t, ht, hm⟩
  refine (h.toHeapCore.held hb).2.1 ?_
  exact h.toHeapCore.frame_of_meta hd.toPoolLayout hi ht
    (h.rings.meta_of_mapWord hd.toPoolLayout hi ht hm (by omega))

theorem HeapTree.user_table (hd : DirectMap m₀ pool) (h : HeapTree m₀ pool pgd s out objs)
    {l k t i : Nat} (hl : l ≤ 3) (ht : userTables.node s.word (userRoot pgd) l k = some t)
    (hi : i < 512) : ¬ UserFrame m₀ out (wordFrame (t + i)) := fun hu =>
  (h.heap.toHeapCore.held hu).2.1
    (h.heap.frame_of_object hd.toPoolLayout (h.owned l hl k t ht) (PageObj.has hi))

/-- A walk that has ended at the entry at word `a`, in a tree that is well-formed. -/
structure WalkEnds (m₀ : MMS) (s : KMem) (out : Nat → Nat) (pgd vaddr : Nat) (s' : KMem) (a : Nat) :
    Prop where
  tree : PageTree s'.word pgd
  leaf : ∀ n, userLeaf s'.word pgd n = userLeaf s.word pgd n
  slot : userTables.slot s'.word (userRoot pgd) (vaddr / PAGE_4K_SIZE) = some a
  layout : SameLayout s.mms s'.mms
  user : ∀ b, UserFrame m₀ out (wordFrame b) → s'.word b = s.word b
  apart : ¬ UserFrame m₀ out (wordFrame a)

/-- A walk after which the processor translates the page at `u`, whatever is written to the entry at
word `a` if that is not present. -/
structure WalkLoops (s : KMem) (pgd vaddr : Nat) (s' : KMem) (a u : Nat) : Prop where
  upper : u < USER_LIMIT
  aligned : PAGE_4K_SIZE ∣ u
  before : mapping s.word pgd u = none
  after : ∀ w', (∀ b, b ≠ a ∨ entryHas (s'.word b) PEA_PRESENT = true → w' b = s'.word b) →
    mapping w' pgd u ≠ none
  other : entryHas (s'.word a) PEA_PRESENT = false → u / PAGE_4K_SIZE ≠ vaddr / PAGE_4K_SIZE

/-- A walk changes no word of a frame of a user. -/
theorem TablesMade.user (hd : DirectMap m₀ pool) (h : HeapTree m₀ pool pgd s out objs)
    {s' : KMem} {objs' : List Obj} (hm : TablesMade m₀ pool out pgd s objs s' objs') {b : Nat}
    (hb : UserFrame m₀ out (wordFrame b)) : s'.word b = s.word b := by
  refine hm.word b (h.heap.user_word hd hb) (fun l hl k t ht i hi he => ?_)
  exact hm.toHeapTree.user_table hd hl ht hi (he ▸ hb)

theorem TablesMade.walkEnds (hd : DirectMap m₀ pool) (h : HeapTree m₀ pool pgd s out objs)
    {s' : KMem} {objs' : List Obj} (hm : TablesMade m₀ pool out pgd s objs s' objs')
    {vaddr a : Nat}
    (ha : userTables.slot s'.word (userRoot pgd) (vaddr / PAGE_4K_SIZE) = some a) :
    WalkEnds m₀ s out pgd vaddr s' a := by
  refine ⟨hm.tree, hm.leaf, ha, hm.mms ▸ SameLayout.refl _, fun b hb => hm.user hd h hb, ?_⟩
  obtain ⟨t, ht, rfl⟩ := Tree.slot_eq_some.mp ha
  exact hm.toHeapTree.user_table hd le_rfl ht (Nat.mod_lt _ (by decide))

/-- The address whose last indices are all `i`. -/
theorem exists_self {vaddr i d : Nat} (hv : vaddr < USER_LIMIT) (hi : i < 512) (hd : d = 1 ∨ d = 2) :
    ∃ u < USER_LIMIT, PAGE_4K_SIZE ∣ u ∧ nodeNumber u d = nodeNumber vaddr d ∧
      ∀ e ≤ d, getBits u (12 + 9 * e) 9 = i := by
  unfold USER_LIMIT at hv ⊢
  unfold PAGE_4K_SIZE PAGE_4K_SHIFT nodeNumber getBits
  rcases hd with rfl | rfl
  · obtain ⟨k, hk⟩ : ∃ k, vaddr / 2 ^ 30 = k := ⟨_, rfl⟩
    have h12 : (k * 2 ^ 30 + i * 2 ^ 21 + i * 2 ^ 12) / 2 ^ 12 = (k * 512 + i) * 512 + i := by omega
    have h21 : (k * 2 ^ 30 + i * 2 ^ 21 + i * 2 ^ 12) / 2 ^ 21 = k * 512 + i := by omega
    refine ⟨k * 2 ^ 30 + i * 2 ^ 21 + i * 2 ^ 12, by omega, by omega, by omega, fun e he => ?_⟩
    obtain rfl | rfl : e = 0 ∨ e = 1 := by omega
    · rw [show 12 + 9 * 0 = 12 by decide, h12]
      omega
    · rw [show 12 + 9 * 1 = 21 by decide, h21]
      omega
  · obtain ⟨k, hk⟩ : ∃ k, vaddr / 2 ^ 39 = k := ⟨_, rfl⟩
    have h12 : (k * 2 ^ 39 + i * 2 ^ 30 + i * 2 ^ 21 + i * 2 ^ 12) / 2 ^ 12
        = ((k * 512 + i) * 512 + i) * 512 + i := by omega
    have h21 : (k * 2 ^ 39 + i * 2 ^ 30 + i * 2 ^ 21 + i * 2 ^ 12) / 2 ^ 21
        = (k * 512 + i) * 512 + i := by omega
    have h30 : (k * 2 ^ 39 + i * 2 ^ 30 + i * 2 ^ 21 + i * 2 ^ 12) / 2 ^ 30 = k * 512 + i := by omega
    refine ⟨k * 2 ^ 39 + i * 2 ^ 30 + i * 2 ^ 21 + i * 2 ^ 12, by omega, by omega, by omega,
      fun e he => ?_⟩
    obtain rfl | rfl | rfl : e = 0 ∨ e = 1 ∨ e = 2 := by omega
    · rw [show 12 + 9 * 0 = 12 by decide, h12]
      omega
    · rw [show 12 + 9 * 1 = 21 by decide, h21]
      omega
    · rw [show 12 + 9 * 2 = 30 by decide, h30]
      omega

/-- Below the page at word `q` the walk loops: the address whose last indices all name the page is
translated. -/
theorem LinkedGrown.walkLoops (hd : DirectMap m₀ pool) (h : HeapTree m₀ pool pgd s out objs)
    {vaddr d a q r i : Nat} {s₂ s₃ : KMem} (hv : vaddr < USER_LIMIT) (hd2 : d = 1 ∨ d = 2)
    (hlink : LinkedGrown m₀ s out pgd a q s₂)
    (hapart : ∀ b, q ≤ b → b < q + 2 ^ 18 → ¬ HeldFrame m₀ s out (wordFrame b))
    (hq : userTables.node s₂.word (userRoot pgd) (3 - d) (nodeNumber vaddr d) = some q)
    (hnone : userTables.node s.word (userRoot pgd) (3 - d) (nodeNumber vaddr d) = none)
    (hw : LoopedWalk s₂ s₃ q vaddr d r i) :
    ∃ u, WalkLoops s pgd vaddr s₃ (r + getBits vaddr PAGE_4K_SHIFT 9) u := by
  obtain ⟨u, hu, hal, hnum, hindex⟩ := exists_self hv hw.index hd2
  have hr512 := getBits_lt vaddr PAGE_4K_SHIFT
  refine ⟨u, hu, hal, h.tree.mapping_none (l := 3 - d) (d := d) hu (by omega) (by rw [hnum]; exact hnone),
    fun w' hw' => ?_, fun hno he => ?_⟩
  · have hself : NamesTable q (w' (q + i)) := by
      rw [hw' (q + i) (Or.inr hw.self.present)]
      exact hw.self
    have hpath : mappingFrom w' u (lastShifts 3) (8 * userRoot pgd) true true
        = mappingFrom w' u (lastShifts (3 - (3 - d))) (8 * q) true true := by
      apply hlink.tree.mappingFrom_node (3 - d) (by omega) q
      · rw [show 3 - (3 - d) = d by omega, hnum]
        exact hq
      · intro l hl k t ht j hj
        -- the tables above are not in the block
        have hout : t + j < q ∨ q + 2 ^ 18 ≤ t + j := by
          rcases hlink.cases l (by omega) k t ht with hold | rfl
          · by_contra hin
            exact hapart (t + j) (by omega) (by omega)
              (h.held hd (by omega) hold (hj.trans_le (Tree.width_le l)))
          · have := (hlink.tree.tree.inj l (show l ≤ 3 by omega) (3 - d) (show 3 - d ≤ 3 by omega) k _
              t ht hq).1
            omega
        have hlow := hw.lower
        have hup := hw.upper
        rw [hw' _ (Or.inl (by omega)), hw.word _ hout]
    obtain ⟨hr, -⟩ := h.tree.root hu
    unfold mapping
    rw [hr]
    show mappingFrom w' u (lastShifts 3) (8 * userRoot pgd) true true ≠ none
    rw [hpath, show 3 - (3 - d) = d by omega]
    exact mappingFrom_self hself d hindex
  · rcases hw.other with hpr | ⟨e, hed, hne⟩
    · rw [hno] at hpr
      exact absurd hpr (by simp)
    · -- the page has the indices of `vaddr`
      refine hne ?_
      rw [← hindex e hed]
      unfold getBits
      unfold PAGE_4K_SIZE PAGE_4K_SHIFT at he
      rw [Nat.pow_add, ← Nat.div_div_eq_div_mul, ← Nat.div_div_eq_div_mul, he]

/-- **A walk that makes the class of pages grow** goes wrong for want of a header, or ends in a
well-formed tree, if the table from the new slab is the last one missing, or makes the processor
translate an address it did not translate before. -/
theorem HeapTree.walkPte_grows (hd : DirectMap m₀ pool) (h : HeapTree m₀ pool pgd s out objs)
    {vaddr : Nat} (hv : vaddr < USER_LIMIT)
    (hlack : (s.cache 7).totalFree < missingTables s.word pgd vaddr) {m' : MMS} {page : Nat}
    (ha : allocPage s.mms ZONE_NORMAL_INDEX 1 0 = some (m', some page)) :
    (Talios.walkPte s pgd vaddr true = none ∧ ¬ CanGrow s) ∨
    (CanGrow s ∧ missingTables s.word pgd vaddr = (s.cache 7).totalFree + 1 ∧
      ∃ s' a, Talios.walkPte s pgd vaddr true = some (s', some (8 * a)) ∧
        WalkEnds m₀ s out pgd vaddr s' a) ∨
    (CanGrow s ∧ (s.cache 7).totalFree + 1 < missingTables s.word pgd vaddr ∧
      ∃ s' a u, Talios.walkPte s pgd vaddr true = some (s', some (8 * a)) ∧
        WalkLoops s pgd vaddr s' a u) := by
  obtain ⟨hr, hn⟩ := h.tree.root hv
  unfold missingTables at hlack ⊢
  rw [hr] at hlack ⊢
  obtain ⟨s₀, objs₀, d', t, ⟨hmade, hlevel, hnode, hwalk, hstop⟩, -⟩ :=
    walkTables_made hd hv 3 0 s objs _ rfl h hn
  have hmiss : tablesMissing s.word vaddr [PAGE_GDT_SHIFT, PAGE_1G_SHIFT, PAGE_2M_SHIFT]
      (8 * userRoot pgd) = tablesMissing s.word vaddr (lastShifts 3) (8 * userRoot pgd) := rfl
  rw [hmiss] at hlack ⊢
  obtain ⟨d, rfl, hz, hf, hm⟩ := hstop.resolve_left (fun hc => by
    have := hc.2
    omega)
  have hi := index_lt_width (l := 3 - (d + 1)) (d := d) hv (by omega)
  have hgrow : CanGrow s₀ ↔ CanGrow s := CanGrow.congr hmade.mms (hmade.others 2 (by decide))
  rcases hmade.heap.kmalloc_grows hd hf (by rw [hmade.mms]; exact ha) with
    ⟨hk, hno⟩ | ⟨s₁, q, hk, hcan, hg⟩
  · -- no header: the level goes wrong
    left
    refine ⟨?_, fun hc => hno (hgrow.mpr hc)⟩
    have hlev : Talios.walkLevel s₀ (8 * t + getBits vaddr (12 + 9 * (d + 1)) 9 * 8) true = none := by
      unfold Talios.walkLevel makeTable
      rw [if_pos ⟨by rw [entry_word]; exact hz, rfl⟩, hk]
    rw [walkPte_eq hr, hwalk, lastShifts, walkTables, hlev]
    rfl
  right
  obtain ⟨hlink, hq⟩ := hmade.toHeapTree.linkGrown hd hg (by omega) hnode hi hz
  have hdirect : DirectPage q := hg.direct 0 (by decide)
  have hlev := walkLevel_made (8 * t + getBits vaddr (12 + 9 * (d + 1)) 9 * 8) hdirect
    (by rw [entry_word]; exact hz) hk
  rw [show 3 - (d + 1) + 1 = 3 - d by omega, nodeNumber_child] at hq
  set s₂ := (s₁.clear (8 * q) PAGE_4K_SIZE).write (8 * t + getBits vaddr (12 + 9 * (d + 1)) 9 * 8)
    (tableEntry q)
  rw [walkPte_eq hr, hwalk, show walkTables vaddr true (lastShifts (d + 1)) s₀ (8 * t) = _ from
    walkTables_cons hlev]
  by_cases hd0 : d = 0
  · -- it was the last table missing
    subst hd0
    left
    refine ⟨hgrow.mp hcan, hm, s₂, q + getBits vaddr PAGE_4K_SHIFT 9, ?_, hlink.tree,
      fun n => (hlink.leaf n).trans (hmade.leaf n), slot_of_node hq, hmade.mms ▸ hlink.layout,
      fun b hb => ?_, fun hu => ?_⟩
    · rw [lastShifts, walkTables, Nat.mul_add, Nat.mul_comm 8 (getBits _ _ _)]
      rfl
    · rw [hlink.word b (hmade.heap.user_word hd hb) (Or.inr hb) (fun he => ?_)]
      · refine hmade.word b (h.heap.user_word hd hb) (fun l hl k u hu i hi he => ?_)
        exact hmade.toHeapTree.user_table hd hl hu hi (he ▸ hb)
      · exact hmade.toHeapTree.user_table hd (by omega) hnode (getBits_lt ..) (he ▸ hb)
    · have := getBits_lt vaddr PAGE_4K_SHIFT
      exact hg.apart _ (by omega) (by omega) (Or.inr hu)
  · right
    obtain ⟨s₃, r, i, hloop, hw⟩ := hlink.onMap.loops (n := 509) hg.direct hlink.zero vaddr
      (show d = 1 ∨ d = 2 by omega)
    have hnone : userTables.node s₀.word (userRoot pgd) (3 - d) (nodeNumber vaddr d) = none := by
      rw [← nodeNumber_child, ← userTables.child_zero, ← hz, show 3 - d = 3 - (d + 1) + 1 by omega]
      exact Tree.node_child (T := userTables) hnode hi
    obtain ⟨u, hu⟩ := hlink.walkLoops hd hmade.toHeapTree hv (by omega) hg.apart hq hnone hw
    refine ⟨hgrow.mp hcan, by omega, s₃, r + getBits vaddr PAGE_4K_SHIFT 9, u, ?_, hu.upper,
      hu.aligned, ?_, hu.after, hu.other⟩
    · rw [hloop, Nat.mul_add, Nat.mul_comm 8 (getBits _ _ _)]
      rfl
    · rw [h.tree.mapping_eq hu.upper, ← hmade.leaf, ← hmade.tree.mapping_eq hu.upper]
      exact hu.before

end

end Talios
