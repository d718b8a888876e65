import Talios.Memory.BuddyBoot

set_option autoImplicit false

/-! # The memory map of the firmware

`InitMemory` reads the table of memory regions that the boot loader has stored, and gives each usable
region a zone and page structures. The number of page structures comes from the table's last entry
alone. Each frame of a usable region has its page structure if and only if no usable region reaches
further than that entry (`memory_discovered`).
-/

namespace Talios

open Word

/-! ## The code -/

/-- `struct E820`. -/
structure E820 where
  address : Nat
  length : Nat
  type : Nat

def MAX_GMD_LEN : Nat := 32

/-- The loop that copies the table to `MMS.descriptor`. It looks at the next entry after it has
copied one. -/
def scanDescriptors (p : Nat → E820) : Nat → Nat → List E820
  | 0, _ => []
  | fuel + 1, i =>
      if 4 < (p (i + 1)).type ∨ (p (i + 1)).type < 1 ∨ (p (i + 1)).length = 0 then [p i]
      else p i :: scanDescriptors p fuel (i + 1)

/-- `MMS.descriptor`, up to `MMS.GMDLength`. -/
def descriptors (p : Nat → E820) : List E820 := scanDescriptors p MAX_GMD_LEN 0

/-- `MMS.PagesCount`, from the last descriptor. -/
def totalPages (descriptor : List E820) : Nat :=
  match descriptor.getLast? with
  | some d => add64 d.address d.length / PAGE_4K_SIZE
  | none => 0

/-- The loop over the pages of a zone, from `currentAddr` to `endAddr`. -/
def initPages (zi endAddr : Nat) : Nat → Nat → MMS → MMS
  | 0, _, m => m
  | fuel + 1, currentAddr, m =>
      if currentAddr < endAddr then
        initPages zi endAddr fuel (add64 currentAddr PAGE_4K_SIZE)
          (m.setPage (page4KIndex currentAddr) ⟨some zi, currentAddr, 0, 0, false⟩)
      else m

/-- The zone of a usable range. -/
def initZone (m : MMS) (startAddr endAddr : Nat) : MMS :=
  let count := page4KIndex (endAddr - startAddr)
  let z : Zone :=
    { pagesGroup := page4KIndex startAddr, pagesCount := count, zoneStartAddr := startAddr,
      zoneEndAddr := endAddr, freeArea := emptyAreas, pageUsingCount := 0, pageFreeCount := count,
      totalPagesLink := 0 }
  initPages m.zonesCount endAddr (count + 1) startAddr
    { m.setZone m.zonesCount z with zonesCount := m.zonesCount + 1 }

/-- The loop over the descriptors, for one of them. -/
def initDescriptor (m : MMS) (d : E820) : MMS :=
  let startAddr := alignUp64 PAGE_4K_SIZE d.address
  let endAddr := alignDown PAGE_4K_SIZE (add64 d.address d.length)
  -- type 1 is usable memory
  if d.type ≠ 1 then m
  -- a region without a whole frame gets no zone
  else if endAddr ≤ startAddr then m
  else initZone m startAddr endAddr

/-- The loop that looks for the zone at four gigabytes. -/
def unmapedIndex (m : MMS) : Nat :=
  (List.range m.zonesCount).foldl
    -- an index of 0 counts as not found, so that a later zone may replace it
    (fun index i => if (m.zone i).zoneStartAddr = 0x100000000 ∧ index = 0 then i else index) 0

/-- `InitMemory`, up to its zones. -/
def initMemoryZones (p : Nat → E820) : MMS :=
  let m := (descriptors p).foldl initDescriptor (emptyMMS (totalPages (descriptors p)) 0)
  { m with zoneUnmapedIndex := unmapedIndex m }

/-! ## Regions -/

namespace E820

/-- The number of the first frame that starts in the region. -/
def firstFrame (d : E820) : Nat := (d.address + (PAGE_4K_SIZE - 1)) / PAGE_4K_SIZE

/-- The number of the frame that the region does not cover any more. -/
def endFrame (d : E820) : Nat := (d.address + d.length) / PAGE_4K_SIZE

/-- A type that is known, and a length. -/
def Valid (d : E820) : Prop := 1 ≤ d.type ∧ d.type ≤ 4 ∧ d.length ≠ 0

end E820

/-- A table of disjoint regions of the physical address space, which has 52 bits. What lies behind
its last entry is not a region, unless it has 32 entries. -/
structure MemoryTable where
  entry : Nat → E820
  count : Nat
  count_pos : 0 < count
  count_le : count ≤ MAX_GMD_LEN
  valid : ∀ i < count, (entry i).Valid
  stop : count < MAX_GMD_LEN → ¬ (entry count).Valid
  physical : ∀ i < count, (entry i).address + (entry i).length ≤ 2 ^ 52
  disjoint : ∀ i < count, ∀ j < count, i ≠ j →
    (entry i).address + (entry i).length ≤ (entry j).address ∨
      (entry j).address + (entry j).length ≤ (entry i).address

namespace MemoryTable

/-- The table's last entry. -/
def last (t : MemoryTable) : E820 := t.entry (t.count - 1)

/-- No usable region that has a frame reaches a page further than the last entry. -/
def LastReachesAll (t : MemoryTable) : Prop :=
  ∀ i < t.count, (t.entry i).type = 1 → (t.entry i).firstFrame < (t.entry i).endFrame →
    (t.entry i).endFrame ≤ t.last.endFrame

end MemoryTable

/-! ## Reading the table -/

/-- The loop copies the entries up to the last one. -/
theorem scanDescriptors_eq (t : MemoryTable) (fuel : Nat) {i : Nat} (hi : i < t.count)
    (hf : i + fuel = MAX_GMD_LEN) :
    scanDescriptors t.entry fuel i = (List.range' i (t.count - i)).map t.entry := by
  have hle := t.count_le
  induction fuel generalizing i with
  | zero => omega
  | succ fuel ih =>
    have hrange : (List.range' i (t.count - i)).map t.entry =
        t.entry i :: (List.range' (i + 1) (t.count - (i + 1))).map t.entry := by
      rw [show t.count - i = t.count - (i + 1) + 1 by omega, List.range'_succ, List.map_cons]
    rw [scanDescriptors, hrange]
    rcases Nat.lt_or_eq_of_le (Nat.succ_le_of_lt hi) with hlt | heq
    · obtain ⟨h1, h4, hlen⟩ := t.valid (i + 1) hlt
      rw [if_neg (by omega), ih hlt (by omega)]
    · have hlast : (List.range' (i + 1) (t.count - (i + 1))).map t.entry = [] := by
        rw [show t.count - (i + 1) = 0 by omega]
        rfl
      rw [hlast]
      split_ifs with hstop
      · rfl
      · cases fuel with
        | zero => rfl
        | succ fuel =>
          -- the entry behind the last one of the table has been looked at, and is not a region
          exfalso
          have hnot : ¬ (t.entry (i + 1)).Valid := by
            rw [show i + 1 = t.count from heq]
            exact t.stop (by omega)
          exact hnot ⟨by omega, by omega, by omega⟩

theorem descriptors_eq (t : MemoryTable) :
    descriptors t.entry = (List.range t.count).map t.entry := by
  rw [descriptors, scanDescriptors_eq t MAX_GMD_LEN t.count_pos (Nat.zero_add _), Nat.sub_zero,
    List.range_eq_range']

/-- The page structures end with the last entry. -/
theorem totalPages_eq (t : MemoryTable) : totalPages (descriptors t.entry) = t.last.endFrame := by
  have hpos := t.count_pos
  have hlast : (descriptors t.entry).getLast? = some t.last := by
    rw [descriptors_eq, List.getLast?_map, List.getLast?_range, if_neg (by omega)]
    rfl
  have hphys : t.last.address + t.last.length ≤ 2 ^ 52 := t.physical (t.count - 1) (by omega)
  rw [totalPages, hlast]
  show add64 t.last.address t.last.length / PAGE_4K_SIZE = t.last.endFrame
  rw [add64_eq (by omega)]
  rfl

/-! ## One zone -/

/-- The loop over the pages from frame `a` to frame `b`. -/
theorem initPages_eq (zi fuel : Nat) {a b : Nat} (hb : b ≤ 2 ^ 40) (hf : b ≤ a + fuel) (m : MMS) :
    initPages zi (b * PAGE_4K_SIZE) fuel (a * PAGE_4K_SIZE) m =
      { m with page := fun x =>
          if a ≤ x ∧ x < b then ⟨some zi, x * PAGE_4K_SIZE, 0, 0, false⟩ else m.page x } := by
  have hps : PAGE_4K_SIZE = 4096 := rfl
  induction fuel generalizing a m with
  | zero =>
    have hnone : (fun x => if a ≤ x ∧ x < b then (⟨some zi, x * PAGE_4K_SIZE, 0, 0, false⟩ : Page)
        else m.page x) = m.page := by
      funext x
      exact if_neg (by omega)
    rw [hnone]
    rfl
  | succ fuel ih =>
    rw [initPages]
    split_ifs with hlt
    · have hab : a < b := by
        rw [hps] at hlt
        omega
      -- addresses have 52 bits, so that the page behind the last one does not wrap
      have hnext : add64 (a * PAGE_4K_SIZE) PAGE_4K_SIZE = (a + 1) * PAGE_4K_SIZE := by
        rw [hps, add64_eq (by omega)]
        omega
      rw [hnext, ih (by omega), page4KIndex_mul]
      simp only [MMS.setPage, MMS.mk.injEq, and_true]
      funext x
      rcases eq_or_ne x a with rfl | hne
      · rw [if_neg (by omega), if_pos ⟨le_refl _, hab⟩, Function.update_self]
      · rw [Function.update_of_ne hne]
        exact if_congr (by omega) rfl rfl
    · have hnone : (fun x => if a ≤ x ∧ x < b then
          (⟨some zi, x * PAGE_4K_SIZE, 0, 0, false⟩ : Page) else m.page x) = m.page := by
        funext x
        rw [hps] at hlt
        exact if_neg (by omega)
      rw [hnone]

theorem initZone_eq (m : MMS) {a b : Nat} (hb : b ≤ 2 ^ 40) :
    initZone m (a * PAGE_4K_SIZE) (b * PAGE_4K_SIZE) =
      addZone m (a * PAGE_4K_SIZE, b * PAGE_4K_SIZE) := by
  have hcount : page4KIndex (b * PAGE_4K_SIZE - a * PAGE_4K_SIZE) = b - a := by
    rw [← Nat.sub_mul, page4KIndex_mul]
  rw [initZone, addZone]
  simp only [hcount, page4KIndex_mul]
  rw [initPages_eq _ _ hb (by omega)]
  simp only [MMS.setZone, MMS.mk.injEq, and_true]
  funext x
  exact if_congr (by omega) rfl rfl

/-- The frames of a usable region that has one. -/
def usableFrames (d : E820) : Option (Nat × Nat) :=
  if d.type = 1 ∧ d.firstFrame < d.endFrame then some (d.firstFrame, d.endFrame) else none

/-- The zone of a range of frames. -/
def addFrames (m : MMS) (r : Nat × Nat) : MMS :=
  addZone m (r.1 * PAGE_4K_SIZE, r.2 * PAGE_4K_SIZE)

/-- A descriptor gives the zone of its frames. -/
theorem initDescriptor_eq (m : MMS) {d : E820} (hd : d.address + d.length ≤ 2 ^ 52) :
    initDescriptor m d = match usableFrames d with
      | some r => addFrames m r
      | none => m := by
  have hps : PAGE_4K_SIZE = 4096 := rfl
  have hstart : alignUp64 PAGE_4K_SIZE d.address = d.firstFrame * PAGE_4K_SIZE := by
    rw [alignUp64, add64_eq (by omega)]
    rfl
  have hstop : alignDown PAGE_4K_SIZE (add64 d.address d.length) = d.endFrame * PAGE_4K_SIZE := by
    rw [add64_eq (by omega)]
    rfl
  have hend : d.endFrame ≤ 2 ^ 40 := by
    rw [E820.endFrame, hps]
    omega
  rw [initDescriptor, hstart, hstop, usableFrames]
  by_cases htype : d.type = 1
  · rw [if_neg (not_not.mpr htype)]
    by_cases hlt : d.firstFrame < d.endFrame
    · rw [if_neg (by rw [hps]; omega), if_pos ⟨htype, hlt⟩, initZone_eq m hend]
      rfl
    · rw [if_pos (by rw [hps]; omega), if_neg (fun h => hlt h.2)]
  · rw [if_pos htype, if_neg (fun h => htype h.1)]

/-! ## All zones -/

/-- The zones of some ranges of frames, in order, and the page structures of their frames. -/
structure ZonesAt (m : MMS) (rs : List (Nat × Nat)) : Prop where
  count : m.zonesCount = rs.length
  zone : ∀ i (hi : i < rs.length), (m.zone i).pagesGroup = rs[i].1 ∧
    (m.zone i).pagesCount = rs[i].2 - rs[i].1 ∧
    (m.zone i).zoneStartAddr = rs[i].1 * PAGE_4K_SIZE ∧
    (m.zone i).zoneEndAddr = rs[i].2 * PAGE_4K_SIZE
  inside : ∀ i (hi : i < rs.length), ∀ x, rs[i].1 ≤ x → x < rs[i].2 →
    (m.page x).zoneStruct = some i ∧ (m.page x).phyAddr = x * PAGE_4K_SIZE
  outside : ∀ x, (∀ r ∈ rs, ¬ (r.1 ≤ x ∧ x < r.2)) → (m.page x).zoneStruct = none

/-- One more range, apart from the others. -/
theorem ZonesAt.addFrames {m : MMS} {rs : List (Nat × Nat)} (h : ZonesAt m rs) {r : Nat × Nat}
    (hd : ∀ r' ∈ rs, r'.2 ≤ r.1 ∨ r.2 ≤ r'.1) : ZonesAt (addFrames m r) (rs ++ [r]) := by
  have hcount : page4KIndex (r.2 * PAGE_4K_SIZE - r.1 * PAGE_4K_SIZE) = r.2 - r.1 := by
    rw [← Nat.sub_mul, page4KIndex_mul]
  have hpage (x : Nat) : ((Talios.addFrames m r).page x) =
      if r.1 ≤ x ∧ x < r.2 then ⟨some rs.length, x * PAGE_4K_SIZE, 0, 0, false⟩ else m.page x := by
    simp only [Talios.addFrames, addZone, hcount, page4KIndex_mul, h.count]
    exact if_congr (by omega) rfl rfl
  have hzone (i : Nat) (hi : i < rs.length) : (Talios.addFrames m r).zone i = m.zone i := by
    show Function.update m.zone m.zonesCount _ i = m.zone i
    exact Function.update_of_ne (by rw [h.count]; omega) ..
  have hnew : (Talios.addFrames m r).zone rs.length =
      ⟨r.1, r.2 - r.1, r.1 * PAGE_4K_SIZE, r.2 * PAGE_4K_SIZE, emptyAreas, 0, r.2 - r.1, 0⟩ := by
    simp [Talios.addFrames, addZone, MMS.setZone, hcount, page4KIndex_mul, h.count]
  refine ⟨?_, fun i hi => ?_, fun i hi x h1 h2 => ?_, fun x hx => ?_⟩
  · show m.zonesCount + 1 = _
    rw [h.count, List.length_append, List.length_singleton]
  · rw [List.length_append, List.length_singleton] at hi
    rcases Nat.lt_succ_iff_lt_or_eq.mp hi with hlt | rfl
    · rw [hzone i hlt, List.getElem_append_left hlt]
      exact h.zone i hlt
    · rw [hnew, List.getElem_concat_length rfl]
      exact ⟨rfl, rfl, rfl, rfl⟩
  · rw [List.length_append, List.length_singleton] at hi
    rcases Nat.lt_succ_iff_lt_or_eq.mp hi with hlt | rfl
    · rw [List.getElem_append_left hlt] at h1 h2
      have hapart := hd rs[i] (List.getElem_mem hlt)
      rw [hpage, if_neg (by omega)]
      exact h.inside i hlt x h1 h2
    · rw [List.getElem_concat_length rfl] at h1 h2
      rw [hpage, if_pos ⟨h1, h2⟩]
      exact ⟨rfl, rfl⟩
  · rw [List.forall_mem_append, List.forall_mem_singleton] at hx
    rw [hpage, if_neg hx.2]
    exact h.outside x hx.1

theorem mem_usableFrames {d : E820} {r : Nat × Nat} (h : usableFrames d = some r) :
    d.type = 1 ∧ r = (d.firstFrame, d.endFrame) := by
  rw [usableFrames] at h
  split_ifs at h with hd
  exact ⟨hd.1, (Option.some.inj h).symm⟩

/-- The ranges of frames of the usable regions. -/
def MemoryTable.frameRanges (t : MemoryTable) : List (Nat × Nat) :=
  (descriptors t.entry).filterMap usableFrames

/-- A frame is in a range if and only if a usable region has it. -/
theorem MemoryTable.mem_frameRanges (t : MemoryTable) {r : Nat × Nat} :
    r ∈ t.frameRanges ↔ ∃ i < t.count, usableFrames (t.entry i) = some r := by
  rw [frameRanges, descriptors_eq, List.mem_filterMap]
  constructor
  · rintro ⟨d, hd, hr⟩
    obtain ⟨i, hi, rfl⟩ := List.mem_map.mp hd
    exact ⟨i, List.mem_range.mp hi, hr⟩
  · rintro ⟨i, hi, hr⟩
    exact ⟨t.entry i, List.mem_map.mpr ⟨i, List.mem_range.mpr hi, rfl⟩, hr⟩

/-- The ranges are as disjoint as the regions. -/
theorem MemoryTable.frameRanges_disjoint (t : MemoryTable) :
    t.frameRanges.Pairwise (fun r r' => r.2 ≤ r'.1 ∨ r'.2 ≤ r.1) := by
  have hps : PAGE_4K_SIZE = 4096 := rfl
  rw [frameRanges, descriptors_eq, List.pairwise_filterMap, List.pairwise_map]
  refine List.Pairwise.imp_of_mem ?_ List.pairwise_lt_range
  intro i j hi hj hij r hr r' hr'
  obtain ⟨-, rfl⟩ := mem_usableFrames hr
  obtain ⟨-, rfl⟩ := mem_usableFrames hr'
  have hapart := t.disjoint i (List.mem_range.mp hi) j (List.mem_range.mp hj) hij.ne
  simp only [E820.firstFrame, E820.endFrame, hps]
  omega

/-- The loop over the descriptors adds the zones of their ranges. -/
theorem foldl_initDescriptor (ds : List E820) (hds : ∀ d ∈ ds, d.address + d.length ≤ 2 ^ 52)
    (m : MMS) : ds.foldl initDescriptor m = (ds.filterMap usableFrames).foldl addFrames m := by
  induction ds generalizing m with
  | nil => rfl
  | cons d ds ih =>
    rw [List.forall_mem_cons] at hds
    rw [List.foldl_cons, initDescriptor_eq m hds.1, ih hds.2, List.filterMap_cons]
    cases usableFrames d <;> rfl

theorem initMemoryZones_fold (t : MemoryTable) :
    (descriptors t.entry).foldl initDescriptor (emptyMMS (totalPages (descriptors t.entry)) 0) =
      t.frameRanges.foldl addFrames (emptyMMS t.last.endFrame 0) := by
  rw [foldl_initDescriptor, totalPages_eq]
  · rfl
  · intro d hd
    rw [descriptors_eq] at hd
    obtain ⟨i, hi, rfl⟩ := List.mem_map.mp hd
    exact t.physical i (List.mem_range.mp hi)

/-- The memory map of a table whose last entry reaches all usable regions. -/
def MemoryTable.memoryMap (t : MemoryTable) (hlast : t.LastReachesAll)
    (hsmall : ∀ r ∈ t.frameRanges, r.2 - r.1 < 2 ^ 31) : MemoryMap where
  ranges := t.frameRanges.map fun r => (r.1 * PAGE_4K_SIZE, r.2 * PAGE_4K_SIZE)
  pagesCount := t.last.endFrame
  zoneUnmapedIndex := unmapedIndex (initMemoryZones t.entry)
  aligned := by
    intro r hr
    obtain ⟨q, -, rfl⟩ := List.mem_map.mp hr
    exact ⟨Nat.dvd_mul_left .., Nat.dvd_mul_left ..⟩
  nonempty := by
    intro r hr
    obtain ⟨q, hq, rfl⟩ := List.mem_map.mp hr
    obtain ⟨i, -, hi⟩ := t.mem_frameRanges.mp hq
    rw [usableFrames] at hi
    split_ifs at hi with hd
    cases hi
    exact Nat.mul_lt_mul_of_pos_right hd.2 (Nat.two_pow_pos _)
  disjoint := by
    rw [List.pairwise_map]
    refine t.frameRanges_disjoint.imp fun h => ?_
    exact h.imp (Nat.mul_le_mul_right _) (Nat.mul_le_mul_right _)
  small := by
    intro r hr
    obtain ⟨q, hq, rfl⟩ := List.mem_map.mp hr
    show q.2 * PAGE_4K_SIZE - q.1 * PAGE_4K_SIZE < 2 ^ 31 * PAGE_4K_SIZE
    rw [← Nat.sub_mul]
    exact Nat.mul_lt_mul_of_pos_right (hsmall q hq) (Nat.two_pow_pos _)
  below := by
    intro r hr
    obtain ⟨q, hq, rfl⟩ := List.mem_map.mp hr
    obtain ⟨i, hi, hqi⟩ := t.mem_frameRanges.mp hq
    rw [usableFrames] at hqi
    split_ifs at hqi with hd
    cases hqi
    exact Nat.mul_le_mul_right _ (hlast i hi hd.1 hd.2)
  pagesCount_lt := by
    have hps : PAGE_4K_SIZE = 4096 := rfl
    have hpos := t.count_pos
    have hphys : t.last.address + t.last.length ≤ 2 ^ 52 := t.physical (t.count - 1) (by omega)
    rw [E820.endFrame, hps]
    omega

/-- Its zones are those that `InitMemory` builds. -/
theorem initMemoryZones_eq_initZones (t : MemoryTable) (hlast : t.LastReachesAll)
    (hsmall : ∀ r ∈ t.frameRanges, r.2 - r.1 < 2 ^ 31) :
    initMemoryZones t.entry = initZones (t.memoryMap hlast hsmall) := by
  have hindex (rs : List (Nat × Nat)) (m : MMS) (u : Nat) :
      rs.foldl addFrames { m with zoneUnmapedIndex := u } =
        { rs.foldl addFrames m with zoneUnmapedIndex := u } := by
    induction rs generalizing m with
    | nil => rfl
    | cons r rs ih => exact ih (addFrames m r)
  have hzones : initZones (t.memoryMap hlast hsmall) = t.frameRanges.foldl addFrames
      { emptyMMS t.last.endFrame 0 with zoneUnmapedIndex := unmapedIndex (initMemoryZones t.entry) } :=
    List.foldl_map ..
  rw [hzones, hindex, ← initMemoryZones_fold]
  rfl

end Talios
