import Talios.Memory.SlabExhaust
import Talios.Memory.SlabGrow

set_option autoImplicit false

/-! # Calls of `kmalloc` that fail

A call that returns null leaves everything as it was: it has asked for nothing, or for a page of 2 MiB
that was not there. But where a class above 0x200 bytes has got its page and there is no object for the
header of the new slab, `kmalloc` writes to the null pointer the nested call has returned. `kmalloc_clean`
says exactly when a call does neither that nor hands out memory that is in use.
-/

namespace Talios

open Word Bitmap Dyadic

/-! ## Clean calls -/

/-- The byte at `a` belongs to the object of a slab that starts at `q`. -/
def KMem.ObjectByte (s : KMem) (q a : Nat) : Prop :=
  ∃ i < KMALLOC_SLAB_SIZE, ∃ t ∈ (s.cache i).ring, ∃ j < t.colorCount,
    q = t.vaddress + j * kmallocSize i ∧ q ≤ a ∧ a < q + kmallocSize i

/-- The block at `p` is an object with room for `size` bytes, and these meet no object in use, no header
and no bitmap. -/
structure UsableBlock (s : KMem) (blocks : List Nat) (size p : Nat) : Prop where
  object : ∃ i < KMALLOC_SLAB_SIZE, size ≤ kmallocSize i ∧ ∃ t ∈ (s.cache i).ring,
    ∃ j < t.colorCount, p = t.vaddress + j * kmallocSize i
  fresh : p ∉ blocks
  objects : ∀ a, p ≤ a → a < p + size → ∀ q ∈ blocks, ¬ s.ObjectByte q a
  headers : ∀ a, p ≤ a → a < p + size → ¬ s.Header a
  colorMaps : ∀ a, p ≤ a → a < p + size → ¬ s.ColorMap a

/-- The call comes back, with a usable block or with null and everything as it was. -/
def KmallocClean (s : KMem) (blocks : List Nat) (size : Nat) : Prop :=
  ∃ s' r, kmalloc s size = some (s', r) ∧
    ((r = none ∧ s' = s) ∨ ∃ p, r = some p ∧ UsableBlock s' blocks size p)

/-- Class `i` is not about to hand out the object that lies on the bitmap of its slab. -/
def OffMap (s : KMem) (i : Nat) : Prop :=
  ∀ t ∈ (s.cache i).ring.tail,
    (s.cache i).ring.find? (fun u => decide (u.freeCount ≠ 0)) = some t →
    bit s.word (t.colorMap / 8) 0 = true

/-- What a clean call needs. A class above 0x200 bytes must not grow. -/
def KmallocRoom (s : KMem) (size : Nat) : Prop :=
  ∀ i, findClass s size KMALLOC_SLAB_SIZE 0 = some i →
    (i < 5 → EndsBefore s i size) ∧
    (5 ≤ i → OffMap s i ∧ ((s.cache i).totalFree = 0 →
      ∀ mms page, allocPage s.mms ZONE_NORMAL_INDEX 1 0 ≠ some (mms, some page)))

/-- A page can be had, but then no header for a slab on it. -/
def LosesPage (s : KMem) : Prop :=
  ∃ mms page, allocPage s.mms ZONE_NORMAL_INDEX 1 0 = some (mms, some page) ∧
    ¬ HasHeader { s with mms := mms }

section

variable {m₀ : MMS} {pool : Nat → Slab} {s s' : KMem} {out : Nat → Nat} {blocks : List Nat}
  {size i k : Nat} {t : Slab}

/-! ## Blocks that are usable -/

/-- The bytes of an object by which page they lie in. -/
theorem object_bytes {v j a : Nat} (hs : size ≤ kmallocSize i) (h1 : v + j * kmallocSize i ≤ a)
    (h2 : a < v + j * kmallocSize i + size) :
    v + j * kmallocSize i ≤ a ∧ a < v + (j + 1) * kmallocSize i := by
  rw [Nat.add_mul]
  omega

/-- **An object handed out is usable** if it ends before the header in its page and does not lie on the
bitmap there. -/
theorem Account.usable (hp : PoolLayout m₀ pool) {p : Nat} (h : Account m₀ pool s out (p :: blocks))
    (hi : i < KMALLOC_SLAB_SIZE) (ht : t ∈ s.shapes i) (hk : k < t.colorCount)
    (he : p = t.vaddress + k * kmallocSize i) (hs : size ≤ kmallocSize i)
    (hend : i < 5 → t ∈ (s.shapes i).tail → p + size ≤ t.addr)
    (hmap : 5 ≤ i → t ∈ (s.shapes i).tail → k ≠ 0) : UsableBlock s blocks size p := by
  have hnd := h.ledger.ptrsNodup
  rw [List.cons_append, List.nodup_cons] at hnd
  have hcounts := h.ledger.toCounts
  have hslot : ∀ {a : Nat}, p ≤ a → a < p + size →
      t.vaddress + k * kmallocSize i ≤ a ∧ a < t.vaddress + (k + 1) * kmallocSize i := by
    intro a h1 h2
    rw [he] at h1 h2
    exact object_bytes hs h1 h2
  have hdata : ∀ {a : Nat}, p ≤ a → a < p + size → t.Data a :=
    fun h1 h2 => hcounts.object_data hi ht hk (hslot h1 h2).1 (hslot h1 h2).2
  -- no other object has the bytes
  have hother : ∀ {a q : Nat} {i' l : Nat} {u : Slab}, p ≤ a → a < p + size → i' < KMALLOC_SLAB_SIZE →
      u ∈ s.shapes i' → l < u.colorCount → q = u.vaddress + l * kmallocSize i' → q ≤ a →
      a < q + kmallocSize i' → q = p := by
    intro a q i' l u h1 h2 hi' hu hl hq h3 h4
    have hslot' := @object_bytes (kmallocSize i') i' u.vaddress l a le_rfl (hq ▸ h3) (hq ▸ h4)
    obtain ⟨rfl, rfl, rfl⟩ := hcounts.object_unique hi hi' ht hu hk hl (hslot h1 h2) hslot'
    rw [hq, he]
  -- a bitmap in the page is that of the slab, and lies behind the object or in front of it
  have hbitmap : ∀ {a : Nat} {i' : Nat} {u : Slab}, p ≤ a → a < p + size → i' < KMALLOC_SLAB_SIZE →
      u ∈ s.shapes i' → u.colorMap ≤ a → a < u.metaEnd → False := by
    intro a i' u h1 h2 hi' hu h3 h4
    rcases h.cases hi' hu with rfl | ⟨htail, hg⟩
    · have hm : (pool i').Meta a := by
        have hcm := hp.colorMap i' hi'
        have h3' : (pool i').colorMap ≤ a := h3
        exact ⟨by omega, h4⟩
      exact h.pool_addr_ne hp hi' hi ht hm (hdata h1 h2)
    · obtain ⟨rfl, rfl⟩ := hcounts.eq_of_data hi hi' ht hu (hdata h1 h2) (hg.data_of_map h3 h4)
      rcases Nat.lt_or_ge i 5 with hi5 | h5
      · have := hend hi5 htail
        have := (hg.grown hi5).facts.colorMap
        omega
      · -- the bitmap is no longer than the first object
        have hne := hmap h5 htail
        obtain ⟨hm, -⟩ := hg.largeFacts h5
        have hlen : t.colorLength * 8 ≤ kmallocSize i := by
          have hl := congrArg Slab.colorLength (hg.large h5)
          have hl' : t.colorLength = bitsMapLength (PAGE_2M_SIZE / kmallocSize i) := hl
          have hle : PAGE_2M_SIZE / kmallocSize i ≤ PAGE_2M_SIZE / kmallocSize 5 :=
            Nat.div_le_div_left (kmallocSize_mono h5) (kmallocSize_pos 5)
          have h2048 : PAGE_2M_SIZE / kmallocSize 5 = 2048 := by decide
          calc t.colorLength * 8 ≤ 256 := by
                rw [hl']
                unfold bitsMapLength
                omega
            _ ≤ kmallocSize 5 := by decide
            _ ≤ kmallocSize i := kmallocSize_mono h5
        have h1k : kmallocSize i ≤ k * kmallocSize i :=
          Nat.le_mul_of_pos_left _ (Nat.pos_of_ne_zero hne)
        unfold Slab.metaEnd at h4
        omega
  obtain ⟨r, hr, hsh, -⟩ := hcounts.shape_ok hi ht
  refine ⟨⟨i, hi, hs, r, hr, k, ?_, ?_⟩, fun hm => hnd.1 (List.mem_append_left _ hm), ?_, ?_, ?_⟩
  · rw [hsh] at hk
    exact hk
  · rw [hsh] at he
    exact he
  · rintro a h1 h2 q hq ⟨i', hi', u, hu, l, hl, hqe, h3, h4⟩
    have hqp := hother h1 h2 hi' (shape_mem hu) hl hqe h3 h4
    exact hnd.1 (List.mem_append_left _ (hqp ▸ hq))
  · rintro a h1 h2 ⟨i', hi', u, hu, h3, h4⟩
    rcases h.cases hi' (shape_mem hu) with hsh' | ⟨htail, hg⟩
    · have hm : (pool i').Meta a := by
        have haddr : u.addr = (pool i').addr := by
          have hx : u.shape.addr = (pool i').shape.addr := congrArg Slab.addr hsh'
          exact hx
        have hcm := hp.colorMap i' hi'
        refine ⟨by omega, ?_⟩
        unfold Slab.metaEnd
        omega
      exact h.pool_addr_ne hp hi' hi ht hm (hdata h1 h2)
    · rcases Nat.lt_or_ge i' 5 with hi5 | h5
      · -- the header is in the page of its slab
        have hfacts := (hg.grown hi5).facts
        have hcm : u.colorMap = u.addr + SLAB_STRUCT_SIZE := hfacts.colorMap
        have hmeta : u.shape.Meta a := by
          refine ⟨h3, ?_⟩
          show a < u.colorMap + u.colorLength * 8
          omega
        obtain ⟨rfl, rfl⟩ := hcounts.eq_of_data hi hi' ht (shape_mem hu) (hdata h1 h2)
          ((hg.grown hi5).data_of_meta hmeta)
        have hle : p + size ≤ u.addr := hend hi5 htail
        omega
      · -- the header is an object of class 2
        have hhead : u.addr ∈ s.headers := mem_headersOf.mpr ⟨i', h5, hi', u.shape, htail, rfl⟩
        obtain ⟨j, hj, w, hw, l, hl, hq⟩ := (h.ledger.ptrs u.addr).mp (List.mem_append_right _ hhead)
        obtain rfl := h.headersIn _ hhead j hj w hw l hl.1 hq
        have h128 : SLAB_STRUCT_SIZE ≤ kmallocSize 2 := by decide
        have hqp := hother h1 h2 hj hw hl.1 hq h3 (by omega)
        exact hnd.1 (List.mem_append_right _ (hqp ▸ hhead))
  · rintro a h1 h2 ⟨i', hi', u, hu, h3, h4⟩
    exact hbitmap h1 h2 hi' (shape_mem hu) h3 h4

/-! ## The object that is handed out -/

/-- A slab that is not the first of its ring. -/
theorem Account.mem_tail (h : Account m₀ pool s out blocks) (hi : i < KMALLOC_SLAB_SIZE)
    {pre post : List Slab} (hr : (s.cache i).ring = pre ++ t :: post)
    (ht : t.shape ∈ (s.shapes i).tail) : t ∈ (s.cache i).ring.tail := by
  cases pre with
  | cons c pre =>
      rw [hr]
      simp
  | nil =>
      have hnd := h.ledger.apart.nodup i hi
      rw [KMem.shapes, hr, List.nil_append, List.map_cons] at hnd ht
      rw [List.map_cons, List.nodup_cons] at hnd
      exact absurd (List.mem_map_of_mem ht) hnd.1

/-- The slab `AllocSlab` takes an object of is the one it finds first. -/
theorem TakesObject.find {pre post : List Slab} (h : TakesObject s s' i pre t post k) :
    (s.cache i).ring.find? (fun u => decide (u.freeCount ≠ 0)) = some t := by
  rw [h.ring, List.find?_append]
  have hnone : pre.find? (fun u => decide (u.freeCount ≠ 0)) = none := by
    refine List.find?_eq_none.mpr (fun u hu => ?_)
    simp [h.before u hu]
  rw [hnone, Option.none_or, List.find?_cons_of_pos (by simpa using h.free)]

/-- A slab with one free object has one clear bit. -/
theorem SlabOk.only_clear {word : Memory} {l : Nat} (h : SlabOk word size t) (hf : t.freeCount = 1)
    (hk : k < t.colorCount) (hl : l < t.colorCount) (hbk : bit word (t.colorMap / 8) k = false)
    (hbl : bit word (t.colorMap / 8) l = false) : l = k := by
  have hset := used_of_set hk hbk (fun j _ => @bit_setBit word (t.colorMap / 8) k j)
  have hfull : used (setBit word (t.colorMap / 8) k) (t.colorMap / 8) t.colorCount = t.colorCount := by
    have := h.using_eq
    have := h.free_eq
    omega
  have hbit := used_eq_iff.mp hfull l hl
  rw [bit_setBit, hbl] at hbit
  simpa using hbit

/-- The last object of a slab by which a class up to 0x200 bytes has grown starts before the header. -/
theorem Grown.last_le (hg : Grown m₀ i t) :
    t.vaddress + (t.colorCount - 1) * kmallocSize i ≤ t.addr := by
  have haddr := hg.facts.addr
  have hroom := hg.facts.room
  rcases Nat.lt_or_ge 1 t.colorCount with h1 | h1
  · have hfit := hg.facts.fit (t.colorCount - 2) (by omega)
    rw [show t.colorCount - 2 + 1 = t.colorCount - 1 by omega] at hfit
    omega
  · rw [show t.colorCount - 1 = 0 by omega, Nat.zero_mul]
    omega

/-- **A class up to 0x200 bytes with a free object.** -/
theorem Account.clean_small (hp : PoolLayout m₀ pool) (h : Account m₀ pool s out blocks) (hi : i < 5)
    {pre post : List Slab} (htake : TakesObject s s' i pre t post k)
    (hacc : Account m₀ pool s' out ((t.vaddress + k * kmallocSize i) :: blocks))
    (hs : size ≤ kmallocSize i) :
    UsableBlock s' blocks size (t.vaddress + k * kmallocSize i) ↔ EndsBefore s i size := by
  have hi' := five_lt hi
  have htm : t ∈ (s.cache i).ring := by rw [htake.ring]; simp
  have hok := h.ledger.slabs i hi' t htm
  have hsize := h.ledger.size i hi'
  constructor
  · intro husable u hu hfind hone hlast
    obtain rfl : t = u := Option.some.inj (htake.find.symm.trans hfind)
    have hpos := hok.pos
    have hk : t.colorCount - 1 = k :=
      hok.only_clear hone htake.lt (by omega) htake.clear hlast
    have hg : Grown m₀ i t.shape := by
      have htail : t.shape ∈ (s.shapes i).tail := by
        rw [KMem.shapes, ← List.map_tail]
        exact List.mem_map_of_mem hu
      exact (h.grown_of_tail hi' htail).grown hi
    by_contra hover
    have hle : t.vaddress + (t.colorCount - 1) * kmallocSize i ≤ t.addr := hg.last_le
    rw [hsize] at hover
    rw [hk] at hover hle
    refine husable.headers t.addr hle (by omega) ⟨i, hi', t.take, ?_, le_rfl, ?_⟩
    · rw [htake.cache]
      simp
    · exact Nat.lt_add_of_pos_right (by decide)
  · intro hends
    have htshape : t.shape ∈ s'.shapes i := by
      rw [htake.shapes]
      exact shape_mem htm
    refine hacc.usable hp hi' htshape htake.lt rfl hs (fun _ htail => ?_) (fun h5 => absurd hi (by omega))
    rw [htake.shapes] at htail
    have hg := (h.grown_of_tail hi' htail).grown hi
    have haddr : t.addr + structSize (kmallocSize i) = t.vaddress + PAGE_2M_SIZE := hg.facts.addr
    have hlt := htake.lt
    rcases Nat.lt_or_ge (k + 1) t.colorCount with hin | hlast
    · have hfit : (k + 1) * kmallocSize i ≤ PAGE_2M_SIZE - structSize (kmallocSize i) :=
        hg.facts.fit k hin
      have hroom := hg.facts.room
      rw [Nat.add_mul] at hfit
      show _ ≤ t.addr
      omega
    · have hk : k = t.colorCount - 1 := by omega
      have hone := freeCount_eq_one hok (by omega) htake.clear htake.least
      have := hends t (h.mem_tail hi' htake.ring htail) htake.find hone (by rw [← hk]; exact htake.clear)
      rw [hsize, ← hk] at this
      exact this

/-- **A class above 0x200 bytes with a free object.** -/
theorem Account.clean_large (hp : PoolLayout m₀ pool) (h : Account m₀ pool s out blocks) (h5 : 5 ≤ i)
    (hi : i < KMALLOC_SLAB_SIZE) {pre post : List Slab} (htake : TakesObject s s' i pre t post k)
    (hacc : Account m₀ pool s' out ((t.vaddress + k * kmallocSize i) :: blocks))
    (hs : size ≤ kmallocSize i) (hpos : 0 < size) :
    UsableBlock s' blocks size (t.vaddress + k * kmallocSize i) ↔ OffMap s i := by
  have htm : t ∈ (s.cache i).ring := by rw [htake.ring]; simp
  constructor
  · intro husable u hu hfind
    obtain rfl : t = u := Option.some.inj (htake.find.symm.trans hfind)
    by_contra hclear
    have hk : k = 0 := by
      by_contra hne
      exact hclear (htake.least 0 (Nat.pos_of_ne_zero hne))
    have htail : t.shape ∈ (s.shapes i).tail := by
      rw [KMem.shapes, ← List.map_tail]
      exact List.mem_map_of_mem hu
    obtain ⟨hm, -⟩ := (h.grown_of_tail hi htail).largeFacts h5
    have hm' : t.colorMap = t.vaddress := hm
    have hok := h.ledger.slabs i hi t htm
    have hlen : 0 < t.colorLength := by
      have := hok.pos
      have := hok.bits
      omega
    refine husable.colorMaps _ le_rfl (Nat.lt_add_of_pos_right hpos) ⟨i, hi, t.take, ?_, ?_, ?_⟩
    · rw [htake.cache]
      simp
    · rw [hk, Nat.zero_mul]
      exact hm'.le
    · rw [hk, Nat.zero_mul]
      show _ < t.colorMap + t.colorLength * 8
      omega
  · intro hoff
    have htshape : t.shape ∈ s'.shapes i := by
      rw [htake.shapes]
      exact shape_mem htm
    refine hacc.usable hp hi htshape htake.lt rfl hs (fun hi5 => absurd h5 (by omega))
      (fun _ htail hk => ?_)
    rw [htake.shapes] at htail
    have hbit := hoff t (h.mem_tail hi htake.ring htail) htake.find
    have hclear := htake.clear
    rw [hk, hbit] at hclear
    exact absurd hclear (by simp)

/-! ## Growing a class above 0x200 bytes -/

/-- The header of a slab that class 2 has grown by lies in its last object. -/
theorem GrownSlab.last_header (hg : GrownSlab m₀ 2 t) : 1 < t.colorCount ∧
    t.addr = t.vaddress + (t.colorCount - 1) * kmallocSize 2 + 56 := by
  have hsh := hg.small (by decide)
  have hc : t.colorCount = (PAGE_2M_SIZE - structSize (kmallocSize 2) + kmallocSize 2 - 1)
      / kmallocSize 2 := congrArg Slab.colorCount hsh
  have ha := (hg.grown (by decide)).facts.addr
  have h2 : kmallocSize 2 = 128 := by decide
  have hs : structSize (kmallocSize 2) = 2120 := by
    rw [h2]
    rfl
  rw [hs, h2] at hc
  rw [hs] at ha
  rw [h2]
  unfold PAGE_2M_SIZE PAGE_2M_SHIFT at hc ha
  omega

/-- Where class 2 is not about to hand out such an object, the next header fits. -/
theorem TakesObject.headerFits (h : Account m₀ pool s out blocks) {pre post : List Slab}
    (htake : TakesObject s s' 2 pre t post k) (hends : EndsBefore s 2 SLAB_STRUCT_SIZE) :
    HeaderFits s.shapes (t.vaddress + k * kmallocSize 2) := by
  have h2 : 2 < KMALLOC_SLAB_SIZE := by decide
  have htm : t ∈ (s.cache 2).ring := by rw [htake.ring]; simp
  intro u hu j hj he
  obtain ⟨-, rfl, rfl⟩ := h.ledger.toCounts.object_eq h2 h2 (shape_mem htm) (List.mem_of_mem_tail hu)
    htake.lt hj he
  by_contra hlast
  have hlt := htake.lt
  have hj' : k + 1 = t.colorCount := by
    have hlast' : ¬ k + 1 < t.colorCount := hlast
    omega
  have hone := freeCount_eq_one (h.ledger.slabs 2 h2 t htm) hj' htake.clear htake.least
  have hk : t.colorCount - 1 = k := by omega
  have hend := hends t (h.mem_tail h2 htake.ring hu) htake.find hone (by rw [hk]; exact htake.clear)
  have hover : t.addr = t.vaddress + (t.colorCount - 1) * kmallocSize 2 + 56 :=
    (h.grown_of_tail h2 hu).last_header.2
  rw [h.ledger.size 2 h2] at hend
  unfold SLAB_STRUCT_SIZE at hend
  omega

/-- **The call for a header** takes an object of class 2, or finds none. -/
theorem Account.kmalloc_header (hp : PoolLayout m₀ pool) (h : Account m₀ pool s out blocks) :
    (kmallocWith (fun _ _ => none) s SLAB_STRUCT_SIZE = some (s, none) ∧ ¬ HasHeader s) ∨
    (HasHeader s ∧ ∃ s' t k, t ∈ s'.shapes 2 ∧ k < t.colorCount ∧
      kmallocWith (fun _ _ => none) s SLAB_STRUCT_SIZE
        = some (s', some (t.vaddress + k * kmallocSize 2)) ∧
      (∀ j ≠ 2, s'.cache j = s.cache j) ∧ SameLayout s.mms s'.mms ∧
      Account m₀ pool s' out ((t.vaddress + k * kmallocSize 2) :: blocks) ∧
      (HeadersFit s.shapes → HeadersFit s'.shapes) ∧
      (EndsBefore s 2 SLAB_STRUCT_SIZE → HeaderFits s'.shapes (t.vaddress + k * kmallocSize 2))) := by
  have h2 : 2 < KMALLOC_SLAB_SIZE := by decide
  cases h.smallCall hp (by decide : 2 < 5) (by decide : SLAB_STRUCT_SIZE ≤ kmallocSize 2) (by decide)
    (fun _ _ => none) with
  | null hf hpage he =>
      refine Or.inl ⟨he, ?_⟩
      rintro (hne | ⟨m, q, hq⟩)
      · exact hne hf
      · exact absurd (hq.symm.trans hpage) (by simp)
  | @taken s' pre post t k hf htake he hacc =>
      have ht : t ∈ (s.cache 2).ring := by rw [htake.ring]; simp
      refine Or.inr ⟨Or.inl hf, s', t.shape, k, ?_, htake.lt, he, htake.others, ?_, hacc, ?_, ?_⟩
      · rw [htake.shapes]
        exact shape_mem ht
      · rw [htake.mms]
        exact SameLayout.refl _
      · rw [htake.shapes]
        exact id
      · intro hends
        have hfits := htake.headerFits h hends
        rw [htake.shapes]
        exact hfits
  | @grown s₁ s' mms p pre post hf hpage hlayout hphy hn hjoin htake he hacc hfit =>
      have hzero : (newSlab 2 p).shape.vaddress + 0 * kmallocSize 2 = (newSlab 2 p).vaddress := by
        rw [Nat.zero_mul, Nat.add_zero]
        rfl
      have hmem : (newSlab 2 p).shape ∈ s'.shapes 2 := by
        rw [htake.shapes]
        exact hjoin.mem_shapes.mpr (Or.inl ⟨rfl, rfl⟩)
      refine Or.inr ⟨Or.inr ⟨mms, p, hpage⟩, s', (newSlab 2 p).shape, 0, hmem, htake.lt, ?_,
        fun j hj => ?_, hlayout, ?_, hfit, fun _ u hu j hj he' => ?_⟩
      · rw [hzero]
        exact he
      · rw [htake.others j hj]
        exact hjoin.others j hj
      · rw [hzero]
        exact hacc
      · -- the first of many objects
        obtain ⟨-, rfl, rfl⟩ := hacc.ledger.toCounts.object_eq h2 h2 hmem (List.mem_of_mem_tail hu)
          htake.lt hj he'
        exact hn.of_shape.last_header.1

/-- How a call ends that a class above 0x200 bytes serves which is used up: with null, with a page but
no header, or with the first object of a new slab. -/
inductive LargeCall (m₀ : MMS) (pool : Nat → Slab) (s : KMem) (out : Nat → Nat) (blocks : List Nat)
    (i size : Nat) : Prop
  | null (hpage : allocPage s.mms ZONE_NORMAL_INDEX 1 0 = some (s.mms, none))
      (he : kmalloc s size = some (s, none))
  | loses (hl : LosesPage s) (he : kmalloc s size = none)
  | grown {mms : MMS} {page addr k : Nat} {s₂ s' : KMem} {t : Slab} {pre post : List Slab}
      (hpage : allocPage s.mms ZONE_NORMAL_INDEX 1 0 = some (mms, some page))
      (hhas : HasHeader { s with mms := mms })
      (hheader : kmallocWith (fun _ _ => none) { s with mms := mms } SLAB_STRUCT_SIZE
        = some (s₂, some addr))
      (hphy : (s₂.mms.page page).phyAddr = page * PAGE_4K_SIZE)
      (hacc₁ : Account m₀ pool { s with mms := mms } (fun x => out x + ind page 9 x) blocks)
      (ht : t ∈ s₂.shapes 2) (hk : k < t.colorCount) (haddr : addr = t.vaddress + k * kmallocSize 2)
      (hfit₂ : HeadersFit s.shapes → HeadersFit s₂.shapes)
      (hends : EndsBefore s 2 SLAB_STRUCT_SIZE → HeaderFits s₂.shapes addr)
      (hjoin : JoinsClass s₂ (Talios.growLarge s₂ i page addr) i (newLargeSlab i page addr))
      (htake : TakesObject (Talios.growLarge s₂ i page addr) s' i pre (newLargeSlab i page addr) post 0)
      (he : kmalloc s size = some (s', some (newLargeSlab i page addr).vaddress))
      (hacc : Account m₀ pool s' out ((newLargeSlab i page addr).vaddress :: blocks))
      (hfit : HeadersFit s₂.shapes → HeaderFits s₂.shapes addr → HeadersFit s'.shapes)

/-- **`kmalloc` from a class above 0x200 bytes that is used up.** -/
theorem Account.largeCall (hp : PoolLayout m₀ pool) (h : Account m₀ pool s out blocks)
    (h5 : 5 ≤ i) (hi : i < KMALLOC_SLAB_SIZE) (hf : (s.cache i).totalFree = 0)
    (h1 : size ≤ kmallocSize i) (h2 : ∀ j < i, kmallocSize j < size) :
    LargeCall m₀ pool s out blocks i size := by
  have hc := findClass_eq h.ledger.size hi h1 h2
  have hnull : ∀ {mms : MMS}, allocPage s.mms ZONE_NORMAL_INDEX 1 0 = some (mms, none) →
      kmalloc s size = some ({ s with mms := mms }, none) := by
    intro mms hr
    unfold kmalloc
    rw [kmallocWith, if_neg (Nat.not_lt.mpr (size_le_max hi h1)), hc]
    dsimp only
    rw [if_pos hf, hr]
  have hcall : ∀ {mms : MMS} {page : Nat} {q : Option (KMem × Option Nat)},
      allocPage s.mms ZONE_NORMAL_INDEX 1 0 = some (mms, some page) →
      kmallocWith (fun _ _ => none) { s with mms := mms } SLAB_STRUCT_SIZE = q →
      kmalloc s size = q.bind (fun t =>
        t.2.map (fun addr => Talios.allocSlab (Talios.growLarge t.1 i page addr) i)) := by
    intro mms page q hr hq
    obtain ⟨hs, hl⟩ := mem_largeSizes h5 hi
    rw [← h.ledger.size i hi] at hs hl
    unfold kmalloc
    rw [kmallocWith, if_neg (Nat.not_lt.mpr (size_le_max hi h1)), hc]
    dsimp only
    rw [if_pos hf, hr]
    dsimp only
    rw [if_neg hs, if_pos hl, hq]
    rcases q with _ | ⟨s₂, _ | addr⟩ <;> rfl
  rcases allocPage_spec h.inv ZONE_NORMAL_INDEX 0 with ha' | ⟨mms, p, zi, hz, ha', hh⟩
  · exact .null ha' (hnull ha')
  rcases (h.pagesTaken hh).kmalloc_header hp with
    ⟨hk, hno⟩ | ⟨hhas, s₂, t, k, ht, hk, hcallee, hkept, hl, hacc, hfit₂, hends⟩
  · refine .loses ⟨mms, p, ha', hno⟩ ?_
    rw [hcall ha' hk]
    rfl
  · -- the new slab joins, and its first object is handed out
    obtain ⟨hframe, hphy, hzone⟩ := handed_page h.layout h.inv hz hh
    set addr := t.vaddress + k * kmallocSize 2 with haddr
    have hn := @grownSlab_large _ i p addr h5 hh.aligned hzone (fun x hx => (hframe x hx).1)
    have hphy' : (s₂.mms.page p).phyAddr = p * PAGE_4K_SIZE := by
      rw [(hl.pages p).2.1]
      exact hphy
    obtain ⟨hgrown, hjoin, hfit⟩ := hacc.growLarge hp h5 hi hn hphy' ht hk haddr
    have hpos : 0 < (newLargeSlab i p addr).colorCount := kmallocSize_count hi
    have hmem : newLargeSlab i p addr ∈ ((Talios.growLarge s₂ i p addr).cache i).ring := by
      rw [hjoin.cache]
      exact mem_insertSlab.mpr (Or.inl rfl)
    obtain ⟨s', pre, u, post, l, htake, hacc'⟩ := hgrown.allocSlab hi
      ⟨_, hmem, Nat.pos_iff_ne_zero.mp hpos⟩
    have hu : u ∈ ((Talios.growLarge s₂ i p addr).cache i).ring := by
      rw [htake.ring]
      simp
    have hf₂ : (s₂.cache i).totalFree = 0 := by
      rw [hkept i (by omega)]
      exact hf
    obtain ⟨rfl, rfl⟩ := hjoin.first_of_least hacc.ledger.toCounts hi hf₂ hpos hu htake.free htake.least
    have halloc := htake.alloc
    rw [Nat.zero_mul, Nat.add_zero] at halloc hacc'
    refine .grown ha' hhas hcallee hphy' (h.pagesTaken hh) ht hk haddr hfit₂ hends hjoin htake ?_ hacc'
      (fun hf₁ hf₃ => by rw [htake.shapes]; exact hfit hf₁ hf₃)
    rw [hcall ha' hcallee]
    exact congrArg some halloc

/-- The first object of a slab of a class above 0x200 bytes lies on the bitmap. -/
theorem TakesObject.colorMap {p addr : Nat} {pre post : List Slab} (hi : i < KMALLOC_SLAB_SIZE)
    (htake : TakesObject s s' i pre (newLargeSlab i p addr) post 0) :
    s'.ColorMap (newLargeSlab i p addr).vaddress := by
  refine ⟨i, hi, (newLargeSlab i p addr).take, ?_, le_rfl, ?_⟩
  · rw [htake.cache]
    simp
  · have hlen : 0 < bitsMapLength (PAGE_2M_SIZE / kmallocSize i) := by
      have := kmallocSize_count hi
      unfold bitsMapLength
      omega
    exact Nat.lt_add_of_pos_right (Nat.mul_pos hlen (by decide))

end

/-! ## When a call is clean -/

theorem findClass_le {s : KMem} {size : Nat} : ∀ fuel i : Nat, ∀ {j : Nat},
    findClass s size fuel i = some j → i ≤ j ∧ j < i + fuel ∧ size ≤ (s.cache j).size := by
  intro fuel
  induction fuel with
  | zero => exact fun i j h => absurd h (by simp [findClass])
  | succ fuel ih =>
      intro i j h
      rw [findClass] at h
      split at h
      · obtain ⟨h1, h2, h3⟩ := ih (i + 1) h
        exact ⟨by omega, by omega, h3⟩
      · rename_i hle
        obtain rfl := Option.some.inj h
        exact ⟨le_rfl, by omega, Nat.le_of_not_lt hle⟩

section

variable {m₀ : MMS} {pool : Nat → Slab} {s : KMem} {out : Nat → Nat} {blocks : List Nat} {size i : Nat}

/-- A call that returns null with everything as it was is clean. -/
theorem KmallocClean.of_none (h : kmalloc s size = some (s, none)) : KmallocClean s blocks size :=
  ⟨s, none, h, Or.inl ⟨rfl, rfl⟩⟩

theorem kmallocClean_some {s' : KMem} {p : Nat} (h : kmalloc s size = some (s', some p)) :
    KmallocClean s blocks size ↔ UsableBlock s' blocks size p := by
  constructor
  · rintro ⟨s₁, r, he, hr⟩
    obtain ⟨rfl, rfl⟩ := Prod.mk.inj (Option.some.inj (h.symm.trans he))
    rcases hr with ⟨hn, -⟩ | ⟨q, hq, hu⟩
    · exact absurd hn (by simp)
    · obtain rfl := Option.some.inj hq
      exact hu
  · exact fun hu => ⟨s', some p, h, Or.inr ⟨p, rfl, hu⟩⟩

/-- No slab of a class that is used up has a free object. -/
theorem Account.find_none (h : Account m₀ pool s out blocks) (hi : i < KMALLOC_SLAB_SIZE)
    (hf : (s.cache i).totalFree = 0) :
    (s.cache i).ring.find? (fun u => decide (u.freeCount ≠ 0)) = none := by
  refine List.find?_eq_none.mpr (fun u hu => ?_)
  simp [(h.taken_of_full hi hf hu).1]

/-- **A class up to 0x200 bytes**: clean where the last object of a grown slab ends before its header. -/
theorem Account.kmalloc_small (hp : PoolLayout m₀ pool) (h : Account m₀ pool s out blocks) (hi : i < 5)
    (h1 : size ≤ kmallocSize i) (h2 : ∀ j < i, kmallocSize j < size) :
    (KmallocClean s blocks size ↔ EndsBefore s i size) ∧ kmalloc s size ≠ none := by
  have hi' := five_lt hi
  have hends : (s.cache i).totalFree = 0 → EndsBefore s i size := by
    intro hf t ht hfind
    rw [h.find_none hi' hf] at hfind
    exact absurd hfind (by simp)
  cases h.smallCall hp hi h1 h2 (kmallocWith (fun _ _ => none)) with
  | null hf _ he =>
      have hk : kmalloc s size = some (s, none) := he
      exact ⟨⟨fun _ => hends hf, fun _ => KmallocClean.of_none hk⟩, by rw [hk]; simp⟩
  | @taken s' pre post t k _ htake he hacc =>
      have hk : kmalloc s size = some (s', some (t.vaddress + k * kmallocSize i)) := he
      refine ⟨?_, by rw [hk]; simp⟩
      rw [kmallocClean_some hk]
      exact h.clean_small hp hi htake hacc h1
  | @grown s₁ s' mms p pre post hf _ _ _ hn hjoin htake he hacc _ =>
      have hk : kmalloc s size = some (s', some (newSlab i p).vaddress) := he
      refine ⟨⟨fun _ => hends hf, fun _ => (kmallocClean_some hk).mpr ?_⟩, by rw [hk]; simp⟩
      -- the first object of the new slab
      have hmem : (newSlab i p).shape ∈ s'.shapes i := by
        rw [htake.shapes]
        exact hjoin.mem_shapes.mpr (Or.inl ⟨rfl, rfl⟩)
      refine hacc.usable hp hi' hmem htake.lt ?_ h1 (fun _ _ => ?_) (fun h5 => absurd hi (by omega))
      · rw [Nat.zero_mul, Nat.add_zero]
        rfl
      · have hfacts := (hn.grown hi).facts
        have haddr := hfacts.addr
        have hfirst := hfacts.first
        have hroom := hfacts.room
        show (newSlab i p).vaddress + size ≤ (newSlab i p).addr
        omega

/-- **A class above 0x200 bytes**: clean where it does not grow and the object is not on the bitmap. -/
theorem Account.kmalloc_large (hp : PoolLayout m₀ pool) (h : Account m₀ pool s out blocks)
    (h5 : 5 ≤ i) (hi : i < KMALLOC_SLAB_SIZE) (h1 : size ≤ kmallocSize i)
    (h2 : ∀ j < i, kmallocSize j < size) :
    (KmallocClean s blocks size ↔ (OffMap s i ∧ ((s.cache i).totalFree = 0 →
      ∀ mms page, allocPage s.mms ZONE_NORMAL_INDEX 1 0 ≠ some (mms, some page)))) ∧
    (kmalloc s size = none ↔ (s.cache i).totalFree = 0 ∧ LosesPage s) := by
  have hpos : 0 < size := Nat.lt_of_le_of_lt (Nat.zero_le _) (h2 0 (by omega))
  by_cases hf : (s.cache i).totalFree = 0
  · have hoff : OffMap s i := by
      intro t ht hfind
      rw [h.find_none hi hf] at hfind
      exact absurd hfind (by simp)
    cases h.largeCall hp h5 hi hf h1 h2 with
    | null hpage hk =>
        have hno : ∀ mms page, allocPage s.mms ZONE_NORMAL_INDEX 1 0 ≠ some (mms, some page) := by
          intro m q hq
          exact absurd (hq.symm.trans hpage) (by simp)
        refine ⟨⟨fun _ => ⟨hoff, fun _ => hno⟩, fun _ => KmallocClean.of_none hk⟩, ?_⟩
        rw [hk]
        refine ⟨fun hn => absurd hn (by simp), ?_⟩
        rintro ⟨-, mms, page, hpage', -⟩
        exact absurd hpage' (hno mms page)
    | loses hl hk =>
        refine ⟨⟨?_, fun hroom => ?_⟩, fun _ => ⟨hf, hl⟩, fun _ => hk⟩
        · rintro ⟨s', r, he, -⟩
          rw [hk] at he
          exact absurd he (by simp)
        · obtain ⟨mms, page, hpage, -⟩ := hl
          exact absurd hpage (hroom.2 hf mms page)
    | @grown mms page addr k s₂ s' t pre post hpage hhas _ _ _ _ _ _ _ _ _ htake hk _ _ =>
        refine ⟨⟨fun hclean => ?_, fun hroom => absurd hpage (hroom.2 hf mms page)⟩, ?_⟩
        · have husable := (kmallocClean_some hk).mp hclean
          exact absurd (htake.colorMap hi)
            (husable.colorMaps _ le_rfl (Nat.lt_add_of_pos_right hpos))
        · rw [hk]
          refine ⟨fun hn => absurd hn (by simp), ?_⟩
          rintro ⟨-, mms', page', hpage', hno⟩
          have hx := hpage.symm.trans hpage'
          obtain ⟨rfl, -⟩ := Prod.mk.inj (Option.some.inj hx)
          exact absurd hhas hno
  · obtain ⟨s', pre, t, post, k, htake, hk, hacc⟩ :=
      h.kmalloc_taken hi hf h1 h2 (kmallocWith (fun _ _ => none))
    have hk' : kmalloc s size = some (s', some (t.vaddress + k * kmallocSize i)) := hk
    constructor
    · rw [kmallocClean_some hk', h.clean_large hp h5 hi htake hacc h1 hpos]
      exact ⟨fun hoff => ⟨hoff, fun h0 => absurd h0 hf⟩, fun hroom => hroom.1⟩
    · rw [hk']
      exact ⟨fun hn => absurd hn (by simp), fun hx => absurd hx.1 hf⟩

end

/-- **`kmalloc` is clean** exactly where it has room, and runs into the null pointer of its own nested
call exactly where a class above 0x200 bytes is used up, a page can be had for it, and no header. -/
theorem kmalloc_clean {m₀ : MMS} {pool : Nat → Slab} {s : KMem} {out : Nat → Nat} {blocks : List Nat}
    (hp : PoolLayout m₀ pool) (h : Account m₀ pool s out blocks) (size : Nat) :
    (KmallocClean s blocks size ↔ KmallocRoom s size) ∧
    (kmalloc s size = none ↔ ∃ i, findClass s size KMALLOC_SLAB_SIZE 0 = some i ∧ 5 ≤ i ∧
      (s.cache i).totalFree = 0 ∧ LosesPage s) := by
  by_cases hbig : 0x100000 < size
  · have hk : kmalloc s size = some (s, none) := by rw [kmalloc, kmallocWith, if_pos hbig]
    have hno : ∀ i, findClass s size KMALLOC_SLAB_SIZE 0 ≠ some i := by
      intro i hc
      obtain ⟨-, hi, hle⟩ := findClass_le _ _ hc
      rw [h.ledger.size i (by omega)] at hle
      have hmax : kmallocSize i ≤ kmallocSize 15 :=
        kmallocSize_mono (by unfold KMALLOC_SLAB_SIZE at hi; omega)
      have h15 : kmallocSize 15 = 0x100000 := by decide
      omega
    refine ⟨⟨fun _ i hc => absurd hc (hno i), fun _ => KmallocClean.of_none hk⟩, ?_⟩
    rw [hk]
    refine ⟨fun hn => absurd hn (by simp), ?_⟩
    rintro ⟨i, hc, -⟩
    exact absurd hc (hno i)
  obtain ⟨i, hi, hc, h1, h2⟩ := findClass_spec h.ledger.size (Nat.le_of_not_lt hbig)
  have hroom : KmallocRoom s size ↔ (i < 5 → EndsBefore s i size) ∧
      (5 ≤ i → OffMap s i ∧ ((s.cache i).totalFree = 0 →
        ∀ mms page, allocPage s.mms ZONE_NORMAL_INDEX 1 0 ≠ some (mms, some page))) := by
    constructor
    · exact fun hr => hr i hc
    · intro hr i' hc'
      obtain rfl := Option.some.inj (hc.symm.trans hc')
      exact hr
  rw [hroom]
  rcases Nat.lt_or_ge i 5 with hi5 | h5
  · obtain ⟨hclean, hne⟩ := h.kmalloc_small hp hi5 h1 h2
    constructor
    · rw [hclean]
      exact ⟨fun he => ⟨fun _ => he, fun h5 => absurd hi5 (by omega)⟩, fun hr => hr.1 hi5⟩
    · refine ⟨fun hn => absurd hn hne, ?_⟩
      rintro ⟨i', hc', h5, -⟩
      obtain rfl := Option.some.inj (hc.symm.trans hc')
      exact absurd hi5 (by omega)
  · obtain ⟨hclean, hnone⟩ := h.kmalloc_large hp h5 hi h1 h2
    constructor
    · rw [hclean]
      exact ⟨fun he => ⟨fun hi5 => absurd h5 (by omega), fun _ => he⟩, fun hr => hr.2 h5⟩
    · rw [hnone]
      constructor
      · rintro ⟨hf, hl⟩
        exact ⟨i, hc, h5, hf, hl⟩
      · rintro ⟨i', hc', -, hf, hl⟩
        obtain rfl := Option.some.inj (hc.symm.trans hc')
        exact ⟨hf, hl⟩

/-- A heap in which one page is in use already. -/
theorem kmalloc_clean_example : ∃ mem mem' p, initMemory exampleImage = some mem ∧
    kmalloc mem PAGE_4K_SIZE = some (mem', some p) ∧ KmallocClean mem' [p] PAGE_4K_SIZE ∧
    kmalloc mem' PAGE_4K_SIZE ≠ none := by
  obtain ⟨mem, he, hinv, hfree⟩ := exampleInv_boot
  have hpos : ∀ i < KMALLOC_SLAB_SIZE, (mem.cache i).totalFree ≠ 0 := by
    intro i hi
    rw [hfree i]
    exact Nat.pos_iff_ne_zero.mp (kmallocSize_count hi)
  obtain ⟨mem', p, hk, hinv', hfree', hne⟩ := hinv.kmalloc (i := 7) (by decide) (hpos 7 (by decide))
    (show PAGE_4K_SIZE ≤ kmallocSize 7 by decide) (by decide)
  have hp := poolLayout_init exampleImage
  have hheap : HeapInv _ _ mem' (fun _ => 0) [⟨p, PAGE_4K_SIZE⟩] := hinv'.inv
  obtain ⟨hclean, hnone⟩ := kmalloc_clean hp (hheap.account hp) PAGE_4K_SIZE
  have hpos' : ∀ i < KMALLOC_SLAB_SIZE, (mem'.cache i).totalFree ≠ 0 := by
    intro i hi
    by_cases h7 : i = 7
    · obtain rfl := h7
      rw [hfree', hfree 7]
      decide
    · rw [hne i h7]
      exact hpos i hi
  have htail : ∀ i < KMALLOC_SLAB_SIZE, (mem'.cache i).ring.tail = [] := by
    intro i hi
    have ht := hinv'.tails i hi
    rw [KMem.shapes, ← List.map_tail, List.map_eq_nil_iff] at ht
    exact ht
  refine ⟨mem, mem', p, he, hk, hclean.mpr (fun i hc => ?_), fun hn => ?_⟩
  · obtain ⟨-, hi, -⟩ := findClass_le _ _ hc
    have hi' : i < KMALLOC_SLAB_SIZE := by omega
    refine ⟨fun _ t ht => ?_, fun _ => ⟨fun t ht => ?_, fun h0 => absurd h0 (hpos' i hi')⟩⟩
    · rw [htail i hi'] at ht
      exact absurd ht (by simp)
    · rw [htail i hi'] at ht
      exact absurd ht (by simp)
  · obtain ⟨i, hc, -, h0, -⟩ := hnone.mp hn
    obtain ⟨-, hi, -⟩ := findClass_le _ _ hc
    exact hpos' i (by omega) h0

/-! ## The last page -/

/-- The number of frames below `count` that no one holds. -/
def freeFrames (count : Nat) (cov : Nat → Nat) : Nat :=
  ((Finset.range count).filter (fun x => cov x = 0)).card

theorem freeFrames_lt {count p : Nat} {cov cov' : Nat → Nat} (hp : p < count) (h0 : cov p = 0)
    (hcov : ∀ x, cov' x = cov x + ind p 9 x) : freeFrames count cov' < freeFrames count cov := by
  refine Finset.card_lt_card ⟨fun x hx => ?_, fun hsub => ?_⟩
  · obtain ⟨hx, h0⟩ := Finset.mem_filter.mp hx
    rw [hcov] at h0
    exact Finset.mem_filter.mpr ⟨hx, Nat.eq_zero_of_add_eq_zero_right h0⟩
  · obtain ⟨-, hmem⟩ := Finset.mem_filter.mp
      (hsub (Finset.mem_filter.mpr ⟨Finset.mem_range.mpr hp, h0⟩))
    have hone := ind_eq_one (mem_self p 9)
    rw [hcov] at hmem
    omega

/-- The page allocator's users take pages of 2 MiB until there is one left. -/
theorem lastPage {img : KernelImage} {m₀ : MMS} {pool : Nat → Slab} (hd : DirectMap m₀ pool) :
    ∀ (n : Nat) (k : Kernel),
      freeFrames m₀.pagesCount (fun x => blocksOut k.blocks x + grownCover k.mem.shapes x) = n →
      MemoryReachable img (fun _ _ => True) k →
      Account m₀ pool k.mem (blocksOut k.blocks) (k.live.map Obj.ptr) →
      (∃ mms page, allocPage k.mem.mms ZONE_NORMAL_INDEX 1 0 = some (mms, some page)) →
      ∃ k', MemoryReachable img (fun _ _ => True) k' ∧
        Account m₀ pool k'.mem (blocksOut k'.blocks) (k'.live.map Obj.ptr) ∧
        k'.mem.cache = k.mem.cache ∧
        ∃ mms page, allocPage k'.mem.mms ZONE_NORMAL_INDEX 1 0 = some (mms, some page) ∧
          ∀ mms' page', allocPage mms ZONE_NORMAL_INDEX 1 0 ≠ some (mms', some page') := by
  intro n
  induction n using Nat.strong_induction_on with
  | _ n ih =>
      intro k hn hk hacc hpage
      obtain ⟨mms, page, hpage⟩ := hpage
      by_cases hmore : ∃ mms' page', allocPage mms ZONE_NORMAL_INDEX 1 0 = some (mms', some page')
      · obtain ⟨zi, hz, hh⟩ := allocPage_some hacc.inv hpage
        let k₁ : Kernel := ⟨{ k.mem with mms := mms }, k.live, (page, 9) :: k.blocks⟩
        have hstep : MemoryReachable img (fun _ _ => True) k₁ := by
          have := hk.step trivial (MemoryStep.allocPages ZONE_NORMAL_INDEX (1 * 2 ^ 9) 0 hpage)
          rw [getOrder_block] at this
          exact this
        have hout : blocksOut k₁.blocks = fun x => blocksOut k.blocks x + ind page 9 x :=
          blocksOut_cons _ _
        have hacc' : Account m₀ pool k₁.mem (blocksOut k₁.blocks) (k₁.live.map Obj.ptr) := by
          rw [hout]
          exact hacc.pagesTaken hh
        -- the frame `page` is free no longer
        obtain ⟨hframe, -, zj, hzj, hin⟩ := handed_page hacc.layout hacc.inv hz hh
        have hself := mem_self page 9
        have hcard : freeFrames m₀.pagesCount
            (fun x => blocksOut k₁.blocks x + grownCover k₁.mem.shapes x) < n := by
          rw [← hn]
          refine freeFrames_lt (hd.frames zj hzj page (hin page hself)) (hframe page hself).2 (fun x => ?_)
          have hx := congrFun hout x
          have hshapes : k₁.mem.shapes = k.mem.shapes := rfl
          rw [hx, hshapes]
          omega
        exact ih _ hcard k₁ rfl hstep hacc' hmore
      · push Not at hmore
        exact ⟨k, hk, hacc, rfl, mms, page, hpage, hmore⟩

/-- The classes of pages and of headers are used up, and there is one page of 2 MiB left. -/
theorem kmalloc_not_clean :
    ¬ ∀ (img : KernelImage) (k : Kernel), MemoryReachable img (fun _ _ => True) k →
      ∀ size, KmallocClean k.mem (k.live.map Obj.ptr) size := by
  intro hall
  have hp := poolLayout_init exampleImage
  have h7 : 7 < KMALLOC_SLAB_SIZE := by decide
  have h1 : PAGE_4K_SIZE ≤ kmallocSize 7 := by decide
  have h2 : ∀ j < 7, kmallocSize j < PAGE_4K_SIZE := by decide
  obtain ⟨mem, he, hinv, -⟩ := exampleInv_boot
  have hheap : HeapInv _ _ mem (fun _ => 0) [] := hinv.inv
  have hacc := hheap.account hp
  have hapart : ¬ mem.HeadersMeet := hacc.headers_apart hp (headersFit_of_tails (fun j _ hj => hinv.tails j hj))
  have hboot : MemoryReachable exampleImage (fun _ _ => True) ⟨mem, [], []⟩ := .boot he
  obtain ⟨k₁, hk₁, hacc₁, hup₁⟩ := useUp h7 h1 h2 (fun _ _ _ => trivial) _ _ rfl hboot hacc hapart
  have hapart₁ : ¬ k₁.mem.HeadersMeet := fun hm => hapart (headersMeet_of_shapes hup₁.shapes hm)
  obtain ⟨k₂, hk₂, hacc₂, hup₂⟩ := useUp (by decide : 2 < KMALLOC_SLAB_SIZE)
    (show SLAB_STRUCT_SIZE ≤ kmallocSize 2 by decide) (by decide)
    (fun _ _ _ => trivial) _ k₁ rfl hk₁ hacc₁ hapart₁
  have hsh : k₂.mem.shapes = mem.shapes := hup₂.shapes.trans hup₁.shapes
  have hblocks : blocksOut k₂.blocks = fun _ => 0 := by
    rw [hup₂.blocks, hup₁.blocks]
    rfl
  obtain ⟨m', page, zi, -, hpage, -⟩ := @example_pages k₂.mem.mms _ hacc₂.layout hacc₂.inv (1 * 2 ^ 9)
    20480 0 (by rw [getOrder_block]; decide) (by rw [getOrder_block]; norm_num) le_rfl
    (by rw [getOrder_block]; norm_num) (fun x _ => by
      rw [hsh, grownCover_of_tails hinv.tails])
  rw [← hblocks] at hacc₂
  obtain ⟨k₃, hk₃, hacc₃, hcache, mms, last, hlast, hno⟩ :=
    lastPage (directMap_init exampleImage) _ k₂ rfl hk₂ hacc₂ ⟨m', page, hpage⟩
  have hf₇ : (k₃.mem.cache 7).totalFree = 0 := by
    rw [hcache, hup₂.others 7 (by decide)]
    exact hup₁.free
  have hf₂ : (k₃.mem.cache 2).totalFree = 0 := by
    rw [hcache]
    exact hup₂.free
  have hloses : LosesPage k₃.mem := by
    refine ⟨mms, last, hlast, ?_⟩
    rintro (hne | ⟨mms', page', hpage'⟩)
    · exact hne hf₂
    · exact hno mms' page' hpage'
  have hnone := (hacc₃.kmalloc_large hp (by decide) h7 h1 h2).2.mpr ⟨hf₇, hloses⟩
  obtain ⟨s', r, hr, -⟩ := hall exampleImage k₃ hk₃ PAGE_4K_SIZE
  rw [hnone] at hr
  exact absurd hr (by simp)

end Talios
