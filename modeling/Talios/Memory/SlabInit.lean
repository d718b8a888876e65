import Talios.Memory.BuddyBoot
import Talios.Memory.SlabCalls

set_option autoImplicit false

/-! # The heap `InitMemory` builds

`SlabCacheInit` puts the headers and bitmaps of the first slabs behind the kernel's data and their
pages behind these, and reserves all of it before `init_buddy_system` runs. So the heap starts
in a state that satisfies its invariant.
-/

namespace Talios

open Word Bitmap Dyadic

/-! ## Reserved frames -/

section

variable {m : MMS} {x : Nat}

theorem kernelFrame_reservePage_self (attr pfn : Nat) :
    KernelFrame (reservePage attr m pfn) pfn := by
  unfold reservePage
  dsimp only
  cases hz : (m.page pfn).zoneStruct with
  | none => exact Or.inl hz
  | some zi =>
      by_cases hr : (m.page pfn).reserved = true
      · simp only [if_pos hr]
        exact Or.inr hr
      · simp only [if_neg hr]
        right
        simp [MMS.setPage]

/-- Reserving another page leaves a kernel frame what it is. -/
theorem KernelFrame.reservePage (h : KernelFrame m x) (attr pfn : Nat) :
    KernelFrame (reservePage attr m pfn) x := by
  by_cases hx : x = pfn
  · subst hx; exact kernelFrame_reservePage_self attr x
  · unfold KernelFrame
    rw [reservePage_page_ne hx]
    exact h

theorem KernelFrame.foldl (h : KernelFrame m x) (attr : Nat) (l : List Nat) :
    KernelFrame (l.foldl (Talios.reservePage attr) m) x := by
  induction l generalizing m with
  | nil => exact h
  | cons y l ih => exact ih (h.reservePage attr y)

theorem kernelFrame_foldl_of_mem (attr : Nat) {l : List Nat} (hx : x ∈ l) :
    KernelFrame (l.foldl (reservePage attr) m) x := by
  induction l generalizing m with
  | nil => exact absurd hx (by simp)
  | cons y l ih =>
      rw [List.foldl_cons]
      rcases List.mem_cons.mp hx with rfl | hx
      · exact (kernelFrame_reservePage_self attr x).foldl attr l
      · exact ih hx

theorem KernelFrame.reservePhysRange (h : KernelFrame m x) (start stop attr : Nat) :
    KernelFrame (reservePhysRange m start stop attr) x := h.foldl attr _

/-- `reserve_phys_range` makes kernel frames of the frames it is given. -/
theorem kernelFrame_reservePhysRange {start stop a : Nat} (attr : Nat) (h1 : start ≤ a)
    (h2 : a < stop) (hstop : stop + PAGE_4K_SIZE ≤ 2 ^ 64)
    (hlast : m.pagesCount ≤ page4KIndex a → KernelFrame m (page4KIndex a)) :
    KernelFrame (reservePhysRange m start stop attr) (page4KIndex a) := by
  rcases Nat.lt_or_ge (page4KIndex a) m.pagesCount with hlt | hge
  · refine kernelFrame_foldl_of_mem attr ?_
    have hup : alignUp64 PAGE_4K_SIZE stop = alignDown PAGE_4K_SIZE (stop + (PAGE_4K_SIZE - 1)) := by
      unfold alignUp64
      rw [add64_eq (by unfold PAGE_4K_SIZE PAGE_4K_SHIFT at *; omega)]
    rw [hup, List.mem_range'_1]
    unfold page4KIndex alignDown PAGE_4K_SIZE PAGE_4K_SHIFT at *
    omega
  · exact (hlast hge).reservePhysRange start stop attr

end

/-- A frame behind all reservations keeps its page structure. -/
theorem page_reservedMMS (map : MemoryMap) {rs : List Reservation} {x : Nat}
    (hx : ∀ r ∈ rs, page4KIndex (alignUp64 PAGE_4K_SIZE r.stop) ≤ x) :
    (reservedMMS map rs).page x = (initZones map).page x := by
  have hfold : ∀ (attr : Nat) (l : List Nat) (m : MMS), x ∉ l →
      (l.foldl (reservePage attr) m).page x = m.page x := by
    intro attr l
    induction l with
    | nil => exact fun m _ => rfl
    | cons y l ih =>
        intro m hn
        rw [List.mem_cons, not_or] at hn
        rw [List.foldl_cons, ih _ hn.2, reservePage_page_ne hn.1]
  unfold reservedMMS
  generalize initZones map = m
  induction rs generalizing m with
  | nil => rfl
  | cons r rs ih =>
      rw [List.foldl_cons, ih (fun r' hr' => hx r' (by simp [hr']))]
      refine hfold r.attr _ m (fun hmem => ?_)
      rw [List.mem_range'_1] at hmem
      have := hx r (by simp)
      omega

/-- A frame behind the last one belongs to no zone. -/
theorem kernelFrame_initZones (map : MemoryMap) {x : Nat} (hx : map.pagesCount ≤ x) :
    KernelFrame (initZones map) x := by
  have key : ∀ (rs : List (Nat × Nat)) (m : MMS), (m.page x).zoneStruct = none →
      (∀ r ∈ rs, PAGE_4K_SIZE ∣ r.1 ∧ PAGE_4K_SIZE ∣ r.2) → (∀ r ∈ rs, r.1 < r.2) →
      (∀ r ∈ rs, r.2 ≤ map.pagesCount * PAGE_4K_SIZE) →
      ((rs.foldl addZone m).page x).zoneStruct = none := by
    intro rs
    induction rs with
    | nil => intro m h _ _ _; exact h
    | cons r rs ih =>
        intro m h ha hne hb
        refine ih _ ?_ (fun r' hr' => ha r' (by simp [hr'])) (fun r' hr' => hne r' (by simp [hr']))
          (fun r' hr' => hb r' (by simp [hr']))
        have h1 := ha r (by simp)
        have h2 := hb r (by simp)
        have h3 := hne r (by simp)
        unfold addZone
        dsimp only
        rw [if_neg]
        · exact h
        · unfold page4KIndex PAGE_4K_SIZE PAGE_4K_SHIFT at *
          omega
  exact Or.inl (key map.ranges _ rfl map.aligned map.nonempty map.below)

/-- Every frame of a reservation is a kernel frame. -/
theorem kernelFrame_reservedMMS (map : MemoryMap) {rs : List Reservation} {r : Reservation}
    (hr : r ∈ rs) {a : Nat} (h1 : r.start ≤ a) (h2 : a < r.stop)
    (hstop : r.stop + PAGE_4K_SIZE ≤ 2 ^ 64) :
    KernelFrame (reservedMMS map rs) (page4KIndex a) := by
  have hmono : ∀ (rs : List Reservation) (m : MMS) (x : Nat), KernelFrame m x →
      KernelFrame (rs.foldl (fun m r => reservePhysRange m r.start r.stop r.attr) m) x := by
    intro rs
    induction rs with
    | nil => intro m x h; exact h
    | cons r rs ih => intro m x h; exact ih _ x (h.reservePhysRange r.start r.stop r.attr)
  have key : ∀ (rs : List Reservation) (m : MMS), r ∈ rs →
      (m.pagesCount ≤ page4KIndex a → KernelFrame m (page4KIndex a)) →
      KernelFrame (rs.foldl (fun m r => reservePhysRange m r.start r.stop r.attr) m)
        (page4KIndex a) := by
    intro rs
    induction rs with
    | nil => intro m h; exact absurd h (by simp)
    | cons r' rs ih =>
        intro m hmem hlast
        rw [List.foldl_cons]
        rcases List.mem_cons.mp hmem with rfl | hmem
        · exact hmono rs _ _ (kernelFrame_reservePhysRange r.attr h1 h2 hstop hlast)
        · refine ih _ hmem (fun hge => ?_)
          rw [(sameZones_reservePhysRange m r'.start r'.stop r'.attr).pagesCount] at hge
          exact (hlast hge).reservePhysRange r'.start r'.stop r'.attr
  refine key rs _ hr (fun hge => kernelFrame_initZones map ?_)
  rwa [pagesCount_initZones] at hge

/-! ## Where the first slabs lie -/

theorem memGapAlign_bounds (a : Nat) :
    a ≤ memGapAlign a ∧ memGapAlign a ≤ a + 64 ∧ 8 ∣ memGapAlign a := by
  unfold memGapAlign alignDown
  omega

section

variable (e : Nat)

theorem metaEnd_initHeader (i : Nat) : (initHeader e i).metaEnd = endStructAt e (i + 1) := rfl

theorem metaEnd_cachePool (i : Nat) : (cachePool e i).metaEnd = endStructAt e (i + 1) := by
  unfold Slab.metaEnd
  show (initHeader e i).colorMap + (initHeader e i).colorLength * 8 = _
  exact metaEnd_initHeader e i

theorem endStructAt_le_addr (i : Nat) : endStructAt e i ≤ (initHeader e i).addr :=
  (memGapAlign_bounds _).1

theorem endStructAt_step (i : Nat) :
    endStructAt e i ≤ endStructAt e (i + 1) ∧ endStructAt e (i + 1) ≤ endStructAt e i + 8328 := by
  have h1 := memGapAlign_bounds (endStructAt e i)
  have h2 : PAGE_2M_SIZE / kmallocSize i ≤ 65536 := by
    calc PAGE_2M_SIZE / kmallocSize i ≤ PAGE_2M_SIZE / kmallocSize 0 :=
          Nat.div_le_div_left (kmallocSize_mono (Nat.zero_le i)) (kmallocSize_pos 0)
      _ = 65536 := by decide
  rw [← metaEnd_initHeader]
  simp only [initHeader, poolHeader, Slab.metaEnd, bitsMapLength, SLAB_STRUCT_SIZE]
  omega

theorem endStructAt_mono {i j : Nat} (h : i ≤ j) : endStructAt e i ≤ endStructAt e j := by
  induction h with
  | refl => exact le_rfl
  | step _ ih => exact ih.trans (endStructAt_step e _).1

theorem endStructAt_le (i : Nat) : endStructAt e i ≤ e + 8328 * i := by
  induction i with
  | zero => exact Nat.le_refl _
  | succ i ih =>
      calc endStructAt e (i + 1) ≤ endStructAt e i + 8328 := (endStructAt_step e i).2
        _ ≤ e + 8328 * i + 8328 := Nat.add_le_add_right ih _
        _ = e + 8328 * (i + 1) := by ring

theorem endStructDone_le : endStructDone e ≤ e + 8328 * 16 := endStructAt_le e KMALLOC_SLAB_SIZE

theorem le_endStructDone {i : Nat} (hi : i ≤ KMALLOC_SLAB_SIZE) :
    endStructAt e i ≤ endStructDone e := endStructAt_mono e hi

theorem poolPage_eq (i : Nat) : poolPage e i = poolPage e 0 + PAGE_2M_SIZE * i := by
  unfold poolPage alignDown PAGE_2M_SIZE PAGE_2M_SHIFT
  omega

theorem poolPage_bounds {i : Nat} (hi : i < KMALLOC_SLAB_SIZE) :
    endStructDone e ≤ poolPage e i ∧ poolPage e i + PAGE_2M_SIZE ≤ e + 2 ^ 26 := by
  have h1 := endStructDone_le e
  unfold KMALLOC_SLAB_SIZE at hi
  unfold poolPage alignDown PAGE_2M_SIZE PAGE_2M_SHIFT
  omega

end

/-- The reservations end 64 MiB behind the kernel's data. -/
theorem stop_kernelReservations (img : KernelImage) {r : Reservation}
    (hr : r ∈ kernelReservations img.endStruct) : r.stop ≤ virtToPhy img.endStruct + 2 ^ 26 := by
  have hlow := img.lower
  have hdone := endStructDone_le img.endStruct
  unfold kernelReservations at hr
  simp only [List.mem_cons, List.mem_map, List.mem_range] at hr
  rcases hr with rfl | rfl | ⟨i, hi, rfl⟩
  · exact Nat.le_add_right _ _
  · show virtToPhy (endStructDone img.endStruct) ≤ _
    unfold virtToPhy
    omega
  · have h1 := poolPage_bounds img.endStruct hi
    have h2 := le_endStructDone img.endStruct (Nat.zero_le KMALLOC_SLAB_SIZE)
    have h3 : endStructAt img.endStruct 0 = img.endStruct := rfl
    show virtToPhy (poolPage img.endStruct i) + PAGE_2M_SIZE ≤ _
    unfold virtToPhy
    omega

/-- **The layout `SlabCacheInit` sets up.** -/
theorem poolLayout_init (img : KernelImage) :
    PoolLayout (reservedMMS img.map (kernelReservations img.endStruct))
      (cachePool img.endStruct) := by
  have hlow := img.lower
  have hup := img.upper
  have hoff : PAGE_OFFSET + 2 ^ 47 = 2 ^ 64 := by norm_num [PAGE_OFFSET]
  have hdone := endStructDone_le img.endStruct
  have hps : PAGE_4K_SIZE = 4096 := rfl
  have hmeta : (⟨virtToPhy img.endStruct, virtToPhy (endStructDone img.endStruct), KERNEL_ATTR⟩ :
      Reservation) ∈ kernelReservations img.endStruct := by
    unfold kernelReservations
    exact List.mem_cons_of_mem _ List.mem_cons_self
  have hdata : ∀ i < KMALLOC_SLAB_SIZE, (⟨virtToPhy (poolPage img.endStruct i),
      virtToPhy (poolPage img.endStruct i) + PAGE_2M_SIZE, KERNEL_ATTR⟩ : Reservation)
        ∈ kernelReservations img.endStruct := by
    intro i hi
    unfold kernelReservations
    exact List.mem_cons_of_mem _ (List.mem_cons_of_mem _
      (List.mem_map.mpr ⟨i, List.mem_range.mpr hi, rfl⟩))
  have haddr : ∀ i, endStructAt img.endStruct i ≤ (cachePool img.endStruct i).addr :=
    endStructAt_le_addr img.endStruct
  have hend : ∀ i, (cachePool img.endStruct i).metaEnd = endStructAt img.endStruct (i + 1) :=
    metaEnd_cachePool img.endStruct
  have hstart : ∀ i, img.endStruct ≤ (cachePool img.endStruct i).addr := fun i =>
    (endStructAt_mono img.endStruct (Nat.zero_le i)).trans (haddr i)
  have hlast : ∀ i < KMALLOC_SLAB_SIZE,
      (cachePool img.endStruct i).metaEnd ≤ endStructDone img.endStruct := by
    intro i hi
    rw [hend i]
    exact le_endStructDone img.endStruct hi
  refine ⟨fun i _ => hlow.trans (hstart i), fun i _ => (memGapAlign_bounds _).2.2, fun i _ => rfl,
    fun i _ => dvd_alignDown _ _, fun i j hij _ => ?_, fun i hi j hj => ?_,
    fun i _ j _ hv => ?_, fun i hi a ha => ?_, fun i hi a ha => ?_⟩
  · rw [hend i]
    exact (endStructAt_mono img.endStruct hij).trans (haddr j)
  · exact (hlast i hi).trans (poolPage_bounds img.endStruct hj).1
  · have hv' : poolPage img.endStruct i = poolPage img.endStruct j := hv
    rw [poolPage_eq, poolPage_eq img.endStruct j] at hv'
    unfold PAGE_2M_SIZE PAGE_2M_SHIFT at hv'
    omega
  · have h1 := hstart i
    have h2 := hlast i hi
    unfold Slab.Meta at ha
    refine kernelFrame_reservedMMS img.map hmeta ?_ ?_ ?_
    all_goals
      unfold virtToPhy
      dsimp only
      omega
  · have h1 := poolPage_bounds img.endStruct hi
    have ha' : poolPage img.endStruct i ≤ a ∧ a < poolPage img.endStruct i + PAGE_2M_SIZE := ha
    have hge : PAGE_OFFSET ≤ poolPage img.endStruct i :=
      hlow.trans ((le_endStructDone img.endStruct (Nat.zero_le _)).trans h1.1)
    refine kernelFrame_reservedMMS img.map (hdata i hi) ?_ ?_ ?_
    all_goals
      unfold virtToPhy
      dsimp only
      omega

/-! ## The heap at the start -/

/-- The words of all bitmaps are clear. -/
theorem initWord_eq_zero (img : KernelImage) {i a : Nat} (hi : i < KMALLOC_SLAB_SIZE)
    (ha : (cachePool img.endStruct i).MapWord a) : initWord img a = 0 := by
  have key : ∀ n, i < n → (List.range n).foldl (fun w i =>
      fill w ((initHeader img.endStruct i).colorMap / 8)
        (initHeader img.endStruct i).colorLength 0) img.word a = 0 := by
    intro n
    induction n with
    | zero => intro h; omega
    | succ n ih =>
        intro hlt
        rw [List.range_succ, List.foldl_append]
        simp only [List.foldl_cons, List.foldl_nil]
        unfold fill
        split
        · rfl
        · rename_i hn
          rcases Nat.eq_or_lt_of_le (Nat.le_of_lt_succ hlt) with rfl | hlt'
          · exact absurd ha hn
          · exact ih hlt'
  exact key KMALLOC_SLAB_SIZE hi

theorem slabOk_init (img : KernelImage) {i : Nat} (hi : i < KMALLOC_SLAB_SIZE) :
    SlabOk (initWord img) (kmallocSize i) (cachePool img.endStruct i) := by
  have hbits : (cachePool img.endStruct i).colorCount
      ≤ 64 * (cachePool img.endStruct i).colorLength := by
    show PAGE_2M_SIZE / kmallocSize i ≤ 64 * bitsMapLength (PAGE_2M_SIZE / kmallocSize i)
    unfold bitsMapLength
    omega
  refine ⟨?_, hbits, Nat.div_mul_le_self _ _, dvd_alignDown _ _, ?_, rfl⟩
  · refine Nat.div_pos ?_ (kmallocSize_pos i)
    calc kmallocSize i ≤ kmallocSize 15 := kmallocSize_mono (by
          unfold KMALLOC_SLAB_SIZE at hi; omega)
      _ ≤ PAGE_2M_SIZE := by decide
  · refine (used_eq_zero_iff.mpr (fun j hj => ?_)).symm
    unfold bit
    rw [initWord_eq_zero img hi ⟨by omega, by omega⟩]
    simp

/-- **`InitMemory`** ends in a heap that satisfies its invariant, with nothing handed out. -/
theorem initMemory_spec (img : KernelImage) :
    ∃ s, initMemory img = some s ∧
      HeapInv (reservedMMS img.map (kernelReservations img.endStruct)) (cachePool img.endStruct) s
        (fun _ => 0) [] := by
  obtain ⟨m, he, hl, hinv⟩ :=
    initBuddySystem_spec (counted_reservedMMS img.map (kernelReservations img.endStruct))
  have hpool := poolLayout_init img
  have hshape : ∀ i, (cachePool img.endStruct i).shape.vaddress
      = (cachePool img.endStruct i).vaddress := fun _ => rfl
  refine ⟨⟨m, initWord img, initCache img.endStruct⟩, ?_, ⟨hl, ?_, fun i _ => rfl, ⟨fun i _ => ?_,
    fun i hi j hj t ht u hu hv => ?_, fun i _ => ?_⟩, fun i hi t ht => ?_, fun i _ => ?_,
    fun i _ => ?_⟩, List.nodup_nil, fun p => ?_, fun b hb => absurd hb (by simp)⟩
  · unfold initMemory
    rw [show bootMMS img.map (kernelReservations img.endStruct) = some m from he]
    rfl
  · have hcov : ∀ x, grownCover (KMem.shapes ⟨m, initWord img, initCache img.endStruct⟩) x = 0 :=
      fun x => Finset.sum_eq_zero (fun i _ => rfl)
    simp only [hcov]
    exact hinv
  · exact ⟨[], rfl, by simp⟩
  · rw [List.mem_singleton.mp ht, List.mem_singleton.mp hu] at hv
    exact hpool.pages i hi j hj hv
  · exact List.nodup_singleton _
  · rw [List.mem_singleton.mp ht]
    exact slabOk_init img hi
  · simp [initCache]
    rfl
  · simp [initCache]
    rfl
  · constructor
    · intro hp
      exact absurd hp (by simp)
    · rintro ⟨i, hi, t, ht, j, ⟨hj, hb⟩, -⟩
      rw [List.mem_singleton.mp ht] at hj hb
      have h0 := (slabOk_init img hi).using_pos (j := j) ⟨hj, hb⟩
      exact absurd h0 (Nat.lt_irrefl 0)

end Talios
