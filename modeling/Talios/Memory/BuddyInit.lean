import Talios.Memory.BuddyStep

set_option autoImplicit false

/-! # The state `init_buddy_system` builds

Before the free lists exist, the page structures and the zone counters agree on what is reserved
(`Counted`): this holds for the zones of `InitMemory` and is kept by every `reserve_phys_range`.
`init_buddy_system` then walks over each zone and puts its unreserved pages on the lists; the
loop invariant `Filled` says that exactly the unreserved pages below the cursor are covered.
-/

namespace Talios

open Word Dyadic

/-! ## Zones and reservations -/

/-- Zone counters and page structures agree on the reserved pages. -/
structure Counted (m : MMS) : Prop where
  layout : ∀ zi < m.zonesCount, ZoneLayout m zi
  home : ∀ x zi, (m.page x).zoneStruct = some zi → zi < m.zonesCount ∧ (m.zone zi).Has x
  total : ∀ zi < m.zonesCount,
    (m.zone zi).pageFreeCount + (m.zone zi).pageUsingCount = (m.zone zi).pagesCount
  link : ∀ zi < m.zonesCount, (m.zone zi).totalPagesLink = (m.zone zi).pageUsingCount
  using_eq : ∀ zi < m.zonesCount, (m.zone zi).pageUsingCount
    = ∑ x ∈ Finset.Ico (m.zone zi).pagesGroup ((m.zone zi).pagesGroup + (m.zone zi).pagesCount),
        (m.page x).resv
  refCount : ∀ x, (m.page x).refCount = (m.page x).resv

theorem resv_le_one (p : Page) : p.resv ≤ 1 := by
  unfold Page.resv
  split <;> omega

/-- The zone counters after one page has been reserved. -/
def Zone.reserveOne (z : Zone) (link : Nat) : Zone :=
  { z with
    pageFreeCount := sub64 z.pageFreeCount 1
    pageUsingCount := add64 z.pageUsingCount 1
    totalPagesLink := add64 z.totalPagesLink link }

/-- What `reserve_phys_range` does to a page: nothing, or mark an unreserved page of a zone. -/
theorem reservePage_cases {m : MMS} (h : Counted m) (attr pfn : Nat) :
    reservePage attr m pfn = m ∨
    ∃ zi, (m.page pfn).zoneStruct = some zi ∧ (m.page pfn).resv = 0 ∧
      reservePage attr m pfn = (m.setZone zi ((m.zone zi).reserveOne 1)).setPage pfn
        { m.page pfn with
          reserved := true, attr := (m.page pfn).attr ||| attr, refCount := 1 } := by
  unfold reservePage
  dsimp only
  cases hzs : (m.page pfn).zoneStruct with
  | none => exact Or.inl rfl
  | some zi =>
      by_cases hres : (m.page pfn).reserved = true
      · simp only [if_pos hres]
        exact Or.inl trivial
      · have hresv : (m.page pfn).resv = 0 := by unfold Page.resv; rw [if_neg hres]
        have href : (m.page pfn).refCount = 0 := by rw [h.refCount, hresv]
        refine Or.inr ⟨zi, rfl, hresv, ?_⟩
        simp only [if_neg hres, if_pos href, Zone.reserveOne]

/-- Reserving one page. -/
theorem Counted.reservePage {m : MMS} (h : Counted m) (attr pfn : Nat) :
    Counted (reservePage attr m pfn) := by
  rcases reservePage_cases h attr pfn with he | ⟨zi, hzs, hresv, he⟩
  · rw [he]; exact h
  obtain ⟨hi, hhas⟩ := h.home pfn zi hzs
  rw [he]
  set z' := (m.zone zi).reserveOne 1 with hz'
  set p' : Page := { m.page pfn with
    reserved := true, attr := (m.page pfn).attr ||| attr, refCount := 1 } with hp'
  set m' := (m.setZone zi z').setPage pfn p' with hm'
  have hzone : ∀ zj, m'.zone zj = if zj = zi then z' else m.zone zj := by
    intro zj
    by_cases hj : zj = zi
    · subst hj; simp [hm', MMS.setPage, MMS.setZone]
    · simp [hm', MMS.setPage, MMS.setZone, hj]
  have hpage : ∀ x, m'.page x = if x = pfn then p' else m.page x := by
    intro x
    by_cases hx : x = pfn
    · subst hx; simp [hm', MMS.setPage]
    · simp [hm', MMS.setPage, MMS.setZone, hx]
  have hsame : ∀ zj, (m'.zone zj).pagesGroup = (m.zone zj).pagesGroup ∧
      (m'.zone zj).pagesCount = (m.zone zj).pagesCount ∧
      (m'.zone zj).zoneStartAddr = (m.zone zj).zoneStartAddr ∧
      (m'.zone zj).zoneEndAddr = (m.zone zj).zoneEndAddr := by
    intro zj
    rw [hzone zj]
    split
    · rename_i hj; subst hj; exact ⟨rfl, rfl, rfl, rfl⟩
    · exact ⟨rfl, rfl, rfl, rfl⟩
  have hkeep : ∀ x, (m'.page x).zoneStruct = (m.page x).zoneStruct ∧
      (m'.page x).phyAddr = (m.page x).phyAddr := by
    intro x
    rw [hpage x]
    split
    · rename_i hx; subst hx; exact ⟨rfl, rfl⟩
    · exact ⟨rfl, rfl⟩
  have hhas' : ∀ zj x, (m'.zone zj).Has x ↔ (m.zone zj).Has x := by
    intro zj x; unfold Zone.Has; rw [(hsame zj).1, (hsame zj).2.1]
  have hlay : ∀ zj < m.zonesCount, ZoneLayout m' zj := by
    intro zj hj
    obtain ⟨h1, h2, h3, h4⟩ := hsame zj
    have hl := h.layout zj hj
    refine ⟨by rw [h3, h1, hl.start], by rw [h4, h1, h2, hl.stop], by rw [h2]; exact hl.small,
      fun x hx => ?_, fun x hx => ?_⟩
    · rw [(hkeep x).1]; exact hl.zoneStruct x ((hhas' zj x).mp hx)
    · rw [(hkeep x).2]; exact hl.phyAddr x ((hhas' zj x).mp hx)
  have hsum : ∀ zj < m.zonesCount,
      ∑ x ∈ Finset.Ico (m.zone zj).pagesGroup ((m.zone zj).pagesGroup + (m.zone zj).pagesCount),
        (m'.page x).resv
      = (∑ x ∈ Finset.Ico (m.zone zj).pagesGroup
          ((m.zone zj).pagesGroup + (m.zone zj).pagesCount), (m.page x).resv)
        + if zj = zi then 1 else 0 := by
    intro zj hj
    by_cases hji : zj = zi
    · subst hji
      have hmem : pfn ∈ Finset.Ico (m.zone zj).pagesGroup
          ((m.zone zj).pagesGroup + (m.zone zj).pagesCount) := Finset.mem_Ico.mpr hhas
      rw [if_pos rfl, ← Finset.add_sum_erase _ _ hmem,
        ← Finset.add_sum_erase _ (fun x => (m.page x).resv) hmem, hresv]
      have h1 : (m'.page pfn).resv = 1 := by rw [hpage, if_pos rfl]; rfl
      have h2 : ∀ x ∈ (Finset.Ico (m.zone zj).pagesGroup
          ((m.zone zj).pagesGroup + (m.zone zj).pagesCount)).erase pfn,
          (m'.page x).resv = (m.page x).resv := by
        intro x hx
        rw [hpage, if_neg (Finset.ne_of_mem_erase hx)]
      rw [h1, Finset.sum_congr rfl h2]
      omega
    · rw [if_neg hji, Nat.add_zero]
      refine Finset.sum_congr rfl (fun x hx => ?_)
      have hne : x ≠ pfn := by
        rintro rfl
        have := (h.layout zj hj).zoneStruct x (Finset.mem_Ico.mp hx)
        rw [hzs] at this
        exact hji (Option.some.inj this).symm
      rw [hpage, if_neg hne]
  -- the zone has an unreserved page, so its counters do not wrap
  have hroom : (m.zone zi).pageUsingCount < (m.zone zi).pagesCount := by
    have h1 := hsum zi hi
    rw [if_pos rfl, ← h.using_eq zi hi] at h1
    have h2 : ∑ x ∈ Finset.Ico (m.zone zi).pagesGroup
        ((m.zone zi).pagesGroup + (m.zone zi).pagesCount), (m'.page x).resv
        ≤ (m.zone zi).pagesCount := by
      refine le_trans (Finset.sum_le_card_nsmul _ _ 1 (fun x _ => resv_le_one _)) (by simp)
    omega
  have hsmall := (h.layout zi hi).small
  have htot := h.total zi hi
  refine ⟨hlay, fun x zj hx => ?_, fun zj hj => ?_, fun zj hj => ?_, fun zj hj => ?_,
    fun x => ?_⟩
  · rw [(hkeep x).1] at hx
    exact ⟨(h.home x zj hx).1, (hhas' zj x).mpr (h.home x zj hx).2⟩
  · rw [hzone zj]
    split
    · rename_i hji; subst hji
      simp only [hz', Zone.reserveOne]
      rw [sub64_eq (by omega) (by omega), add64_eq (by omega)]
      omega
    · exact h.total zj hj
  · rw [hzone zj]
    split
    · rename_i hji; subst hji
      simp only [hz', Zone.reserveOne]
      rw [h.link zj hi]
    · exact h.link zj hj
  · rw [(hsame zj).1, (hsame zj).2.1, hsum zj hj, ← h.using_eq zj hj, hzone zj]
    split
    · rename_i hji; subst hji
      simp only [hz', Zone.reserveOne]
      rw [add64_eq (by omega)]
    · rfl
  · rw [hpage x]
    split
    · rfl
    · exact h.refCount x

theorem Counted.reservePhysRange {m : MMS} (h : Counted m) (start stop attr : Nat) :
    Counted (reservePhysRange m start stop attr) := by
  unfold Talios.reservePhysRange
  dsimp only
  generalize List.range' _ _ = l
  induction l generalizing m with
  | nil => exact h
  | cons pfn l ih => exact ih (h.reservePage attr pfn)

/-- The zones built from the ranges `rs`. -/
structure ZonesOf (m : MMS) (rs : List (Nat × Nat)) : Prop where
  counted : Counted m
  range : ∀ zi < m.zonesCount, ∃ r ∈ rs,
    (m.zone zi).zoneStartAddr = r.1 ∧ (m.zone zi).zoneEndAddr = r.2

theorem zonesOf_emptyMMS (n u : Nat) : ZonesOf (emptyMMS n u) [] :=
  ⟨⟨fun _ h => absurd h (Nat.not_lt_zero _), fun _ _ h => by simp [emptyMMS] at h,
    fun _ h => absurd h (Nat.not_lt_zero _), fun _ h => absurd h (Nat.not_lt_zero _),
    fun _ h => absurd h (Nat.not_lt_zero _), fun _ => rfl⟩, fun _ h => absurd h (Nat.not_lt_zero _)⟩

/-- Adding the zone of one more range. -/
theorem ZonesOf.addZone {m : MMS} {rs : List (Nat × Nat)} (h : ZonesOf m rs) {r : Nat × Nat}
    (ha : PAGE_4K_SIZE ∣ r.1 ∧ PAGE_4K_SIZE ∣ r.2) (hne : r.1 < r.2)
    (hs : r.2 - r.1 < 2 ^ 31 * PAGE_4K_SIZE)
    (hd : ∀ r' ∈ rs, r'.2 ≤ r.1 ∨ r.2 ≤ r'.1) : ZonesOf (addZone m r) (rs ++ [r]) := by
  obtain ⟨⟨a, ha⟩, ⟨b, hb⟩⟩ := ha
  have hps : 0 < PAGE_4K_SIZE := Nat.two_pow_pos _
  have hab : a < b := by
    rw [ha, hb] at hne
    exact Nat.lt_of_mul_lt_mul_left hne
  have hfirst : page4KIndex r.1 = a := by
    rw [ha, Nat.mul_comm]; exact page4KIndex_mul a
  have hcount : page4KIndex (r.2 - r.1) = b - a := by
    rw [ha, hb, ← Nat.mul_sub, Nat.mul_comm]; exact page4KIndex_mul _
  set m' := Talios.addZone m r with hm'
  have hzone : ∀ zj, zj ≠ m.zonesCount → m'.zone zj = m.zone zj := by
    intro zj hj; simp [hm', Talios.addZone, MMS.setZone, hj]
  have hnew : m'.zone m.zonesCount
      = ⟨a, b - a, r.1, r.2, emptyAreas, 0, b - a, 0⟩ := by
    simp [hm', Talios.addZone, MMS.setZone, hfirst, hcount]
  have hpage : ∀ x, m'.page x = if a ≤ x ∧ x < b then
      ⟨some m.zonesCount, x * PAGE_4K_SIZE, 0, 0, false⟩ else m.page x := by
    intro x
    simp only [hm', Talios.addZone, hfirst, hcount]
    have : a + (b - a) = b := by omega
    rw [this]
  have hcnt : m'.zonesCount = m.zonesCount + 1 := rfl
  -- the pages of the earlier zones are outside the new range
  have hout : ∀ zj < m.zonesCount, ∀ x, (m.zone zj).Has x → ¬ (a ≤ x ∧ x < b) := by
    intro zj hj x hx hx'
    obtain ⟨r', hr', h1, h2⟩ := h.range zj hj
    have hl := h.counted.layout zj hj
    have h3 := hl.start
    have h4 := hl.stop
    unfold Zone.Has at hx
    rcases hd r' hr' with hd' | hd'
    · have : ((m.zone zj).pagesGroup + (m.zone zj).pagesCount) * PAGE_4K_SIZE ≤ a * PAGE_4K_SIZE := by
        rw [← h4, h2, Nat.mul_comm a, ← ha]; exact hd'
      have := Nat.le_of_mul_le_mul_right this hps
      omega
    · have : b * PAGE_4K_SIZE ≤ (m.zone zj).pagesGroup * PAGE_4K_SIZE := by
        rw [← h3, h1, Nat.mul_comm b, ← hb]; exact hd'
      have := Nat.le_of_mul_le_mul_right this hps
      omega
  refine ⟨⟨fun zj hj => ?_, fun x zj hx => ?_, fun zj hj => ?_, fun zj hj => ?_, fun zj hj => ?_,
    fun x => ?_⟩, fun zj hj => ?_⟩
  · rw [hcnt] at hj
    by_cases hji : zj = m.zonesCount
    · subst hji
      have hsm : b - a < 2 ^ 31 := by
        rw [ha, hb, ← Nat.mul_sub, Nat.mul_comm] at hs
        exact Nat.lt_of_mul_lt_mul_right hs
      refine ⟨?_, ?_, ?_, fun x hx => ?_, fun x hx => ?_⟩ <;> rw [hnew] at *
      · rw [ha, Nat.mul_comm]
      · simp only
        rw [show a + (b - a) = b by omega, hb, Nat.mul_comm]
      · exact hsm
      all_goals
        have hx' : a ≤ x ∧ x < b := by unfold Zone.Has at hx; simp only at hx; omega
        rw [hpage, if_pos hx']
    · have hl := h.counted.layout zj (by omega)
      refine ⟨?_, ?_, ?_, fun x hx => ?_, fun x hx => ?_⟩ <;> rw [hzone zj hji] at *
      · exact hl.start
      · exact hl.stop
      · exact hl.small
      · rw [hpage, if_neg (hout zj (by omega) x hx)]; exact hl.zoneStruct x hx
      · rw [hpage, if_neg (hout zj (by omega) x hx)]; exact hl.phyAddr x hx
  · rw [hpage x] at hx
    by_cases hx' : a ≤ x ∧ x < b
    · rw [if_pos hx'] at hx
      obtain rfl : m.zonesCount = zj := by simpa using hx
      refine ⟨by rw [hcnt]; omega, ?_⟩
      rw [hnew]
      unfold Zone.Has
      simp only
      omega
    · rw [if_neg hx'] at hx
      have := h.counted.home x zj hx
      rw [hcnt, hzone zj (by omega)]
      exact ⟨by omega, this.2⟩
  · rw [hcnt] at hj
    by_cases hji : zj = m.zonesCount
    · subst hji; rw [hnew]; rfl
    · rw [hzone zj hji]; exact h.counted.total zj (by omega)
  · rw [hcnt] at hj
    by_cases hji : zj = m.zonesCount
    · subst hji; rw [hnew]
    · rw [hzone zj hji]; exact h.counted.link zj (by omega)
  · rw [hcnt] at hj
    by_cases hji : zj = m.zonesCount
    · subst hji
      rw [hnew]
      simp only
      symm
      refine Finset.sum_eq_zero (fun x hx => ?_)
      have hx' := Finset.mem_Ico.mp hx
      rw [hpage, if_pos (by omega)]
      rfl
    · rw [hzone zj hji, h.counted.using_eq zj (by omega)]
      refine Finset.sum_congr rfl (fun x hx => ?_)
      rw [hpage, if_neg (hout zj (by omega) x (Finset.mem_Ico.mp hx))]
  · rw [hpage x]
    split
    · rfl
    · exact h.counted.refCount x
  · rw [hcnt] at hj
    by_cases hji : zj = m.zonesCount
    · subst hji
      exact ⟨r, by simp, by rw [hnew], by rw [hnew]⟩
    · obtain ⟨r', hr', h1, h2⟩ := h.range zj (by omega)
      exact ⟨r', by simp [hr'], by rw [hzone zj hji]; exact h1, by rw [hzone zj hji]; exact h2⟩

theorem zonesOf_foldl :
    ∀ (rs done : List (Nat × Nat)) (m : MMS), ZonesOf m done →
      (∀ r ∈ rs, PAGE_4K_SIZE ∣ r.1 ∧ PAGE_4K_SIZE ∣ r.2) → (∀ r ∈ rs, r.1 < r.2) →
      (∀ r ∈ rs, r.2 - r.1 < 2 ^ 31 * PAGE_4K_SIZE) →
      (done ++ rs).Pairwise (fun r r' => r.2 ≤ r'.1 ∨ r'.2 ≤ r.1) →
      ZonesOf (rs.foldl addZone m) (done ++ rs)
  | [], done, m, h, _, _, _, _ => by simpa using h
  | r :: rs, done, m, h, ha, hne, hs, hd => by
      have hd' : ∀ r' ∈ done, r'.2 ≤ r.1 ∨ r.2 ≤ r'.1 := fun r' hr' =>
        (List.pairwise_append.mp hd).2.2 r' hr' r (by simp)
      have := zonesOf_foldl rs (done ++ [r]) (addZone m r)
        (h.addZone (ha r (by simp)) (hne r (by simp)) (hs r (by simp)) hd')
        (fun r' hr' => ha r' (by simp [hr'])) (fun r' hr' => hne r' (by simp [hr']))
        (fun r' hr' => hs r' (by simp [hr'])) (by simpa using hd)
      simpa using this

/-- Page structures and counters agree when `init_buddy_system` is called. -/
theorem counted_reservedMMS (map : MemoryMap) (rs : List Reservation) :
    Counted (reservedMMS map rs) := by
  have h0 : Counted (initZones map) :=
    (zonesOf_foldl map.ranges [] _ (zonesOf_emptyMMS _ _) map.aligned map.nonempty map.small
      (by simpa using map.disjoint)).counted
  unfold reservedMMS
  generalize initZones map = m at h0
  induction rs generalizing m with
  | nil => exact h0
  | cons r rs ih => exact ih _ (h0.reservePhysRange r.start r.stop r.attr)

/-! ## Filling the free lists -/

/-- The memory manager with the free areas of zone `zi` replaced. -/
def MMS.withAreas (m : MMS) (zi : Nat) (fa : FreeAreas) : MMS :=
  m.setZone zi ((m.zone zi).withAreas fa)

@[simp] theorem withAreas_zone_self (m : MMS) (zi : Nat) (fa : FreeAreas) :
    (m.withAreas zi fa).zone zi = (m.zone zi).withAreas fa := Function.update_self ..

theorem withAreas_zone_ne (m : MMS) {zi zj : Nat} (h : zj ≠ zi) (fa : FreeAreas) :
    (m.withAreas zi fa).zone zj = m.zone zj := Function.update_of_ne h ..

@[simp] theorem withAreas_withAreas (m : MMS) (zi : Nat) (fa fa' : FreeAreas) :
    (m.withAreas zi fa).withAreas zi fa' = m.withAreas zi fa' := by
  unfold MMS.withAreas MMS.setZone
  simp [Zone.withAreas]

theorem sameLayout_withAreas (m : MMS) (zi : Nat) (fa : FreeAreas) :
    SameLayout m (m.withAreas zi fa) := by
  refine ⟨rfl, rfl, fun zj => ?_, fun _ => ⟨rfl, rfl, rfl⟩, rfl, rfl, rfl⟩
  by_cases h : zj = zi
  · subst h; rw [withAreas_zone_self]; exact ⟨rfl, rfl, rfl, rfl⟩
  · rw [withAreas_zone_ne m h]; exact ⟨rfl, rfl, rfl, rfl⟩

theorem Counted.withAreas {m : MMS} (h : Counted m) (zi : Nat) (fa : FreeAreas) :
    Counted (m.withAreas zi fa) := by
  have hl := sameLayout_withAreas m zi fa
  have hz : ∀ zj, ((m.withAreas zi fa).zone zj).pageFreeCount = (m.zone zj).pageFreeCount ∧
      ((m.withAreas zi fa).zone zj).pageUsingCount = (m.zone zj).pageUsingCount ∧
      ((m.withAreas zi fa).zone zj).totalPagesLink = (m.zone zj).totalPagesLink := by
    intro zj
    by_cases hj : zj = zi
    · subst hj; rw [withAreas_zone_self]; exact ⟨rfl, rfl, rfl⟩
    · rw [withAreas_zone_ne m hj]; exact ⟨rfl, rfl, rfl⟩
  refine ⟨fun zj hj => hl.layout (h.layout zj hj), fun x zj hx => ?_, fun zj hj => ?_,
    fun zj hj => ?_, fun zj hj => ?_, h.refCount⟩
  · exact ⟨(h.home x zj hx).1, (hl.has zj x).mpr (h.home x zj hx).2⟩
  · rw [(hz zj).1, (hz zj).2.1, (hl.zones zj).2.1]; exact h.total zj hj
  · rw [(hz zj).2.2, (hz zj).2.1]; exact h.link zj hj
  · rw [(hz zj).2.1, (hl.zones zj).1, (hl.zones zj).2.1]; exact h.using_eq zj hj

section

variable {m : MMS} {zi : Nat}

/-- The free lists cover exactly the unreserved pages among the first `c` of the zone. -/
structure Filled (m : MMS) (zi : Nat) (fa : FreeAreas) (c : Nat) : Prop where
  areas : Areas (m.zone zi).pagesGroup ((m.zone zi).pagesGroup + (m.zone zi).pagesCount) fa
  le : c ≤ (m.zone zi).pagesCount
  cover : ∀ x, cover MAX_ORDER fa.family x
    = if (m.zone zi).pagesGroup ≤ x ∧ x < (m.zone zi).pagesGroup + c ∧ (m.page x).reserved = false
      then 1 else 0

theorem cover_emptyAreas (x : Nat) : cover MAX_ORDER emptyAreas.family x = 0 := by
  unfold cover emptyAreas FreeAreas.family
  simp

theorem filled_zero (m : MMS) (zi : Nat) : Filled m zi emptyAreas 0 := by
  refine ⟨⟨⟨?_, ?_, ?_⟩, fun k _ => rfl, ?_⟩, Nat.zero_le _, fun x => ?_⟩
  · intro k _ p hp; simp [emptyAreas, FreeAreas.family] at hp
  · intro k _ p hp; simp [emptyAreas, FreeAreas.family] at hp
  · intro k _ p hp; simp [emptyAreas, FreeAreas.family] at hp
  · simp [weight, emptyAreas, FreeAreas.family]
  · rw [cover_emptyAreas, if_neg (by omega)]

theorem pickOrder_spec (remains abs : Nat) (hr : 0 < remains) :
    ∀ order, pickOrder remains abs order ≤ order ∧ 2 ^ pickOrder remains abs order ≤ remains ∧
      2 ^ pickOrder remains abs order ∣ abs := by
  intro order
  induction order with
  | zero => exact ⟨le_rfl, hr, one_dvd abs⟩
  | succ order ih =>
      rw [pickOrder]
      by_cases h : 2 ^ (order + 1) ≤ remains ∧ abs % 2 ^ (order + 1) = 0
      · rw [if_pos h]
        exact ⟨le_rfl, h.1, Nat.dvd_of_mod_eq_zero h.2⟩
      · rw [if_neg h]
        exact ⟨Nat.le_succ_of_le ih.1, ih.2⟩

/-- One block of a run: `init_buddy_system` frees it and moves the cursor behind it. -/
theorem Filled.free {fa : FreeAreas} {c k : Nat} (h : Filled m zi fa c)
    (hl : ZoneLayout m zi) (hk : k < MAX_ORDER)
    (ha : 2 ^ k ∣ (m.zone zi).pagesGroup + c) (hle : c + 2 ^ k ≤ (m.zone zi).pagesCount)
    (hres : ∀ b, c ≤ b → b < c + 2 ^ k →
      (m.page ((m.zone zi).pagesGroup + b)).reserved = false) :
    ∃ fa', freePagesCore (m.withAreas zi fa) ((m.zone zi).pagesGroup + c) k
        = some (m.withAreas zi fa') ∧ Filled m zi fa' (c + 2 ^ k) := by
  have hpos := Nat.two_pow_pos k
  have hsmall := hl.small
  set p := (m.zone zi).pagesGroup + c with hp
  have hcov : ∀ x, Dyadic.cover MAX_ORDER fa.family x + ind p k x
      = if (m.zone zi).pagesGroup ≤ x ∧ x < (m.zone zi).pagesGroup + (c + 2 ^ k) ∧
          (m.page x).reserved = false then 1 else 0 := by
    intro x
    rw [h.cover x]
    by_cases hx : Mem p k x
    · rw [ind_eq_one hx]
      unfold Mem at hx
      have hr := hres (x - (m.zone zi).pagesGroup) (by omega) (by omega)
      rw [show (m.zone zi).pagesGroup + (x - (m.zone zi).pagesGroup) = x by omega] at hr
      rw [if_neg (by omega), if_pos ⟨by omega, by omega, hr⟩]
    · rw [ind, if_neg hx, Nat.add_zero]
      unfold Mem at hx
      exact if_congr (by constructor <;> rintro ⟨h1, h2, h3⟩ <;> exact ⟨h1, by omega, h3⟩) rfl rfl
  have hw : weight MAX_ORDER fa.family ≤ (m.zone zi).pagesCount := by
    rw [weight_eq_sum_cover h.areas.wf.inside]
    refine le_trans (Finset.sum_le_card_nsmul _ _ 1 (fun x _ => ?_)) (by simp)
    rw [h.cover x]
    split <;> omega
  have hheld : Held (m.zone zi).pagesGroup ((m.zone zi).pagesGroup + (m.zone zi).pagesCount)
      fa p k := by
    refine ⟨hk, ha, by omega, by omega, fun x => ?_, by omega⟩
    rw [hcov x]
    split <;> omega
  set r := mergeLoop (m.zone zi).pagesGroup ((m.zone zi).pagesGroup + (m.zone zi).pagesCount)
    (MAX_ORDER - 1 - k) p k fa with hr
  obtain ⟨ha', hc', -⟩ := merge_pushFree_spec hk h.areas hheld hr.symm rfl
  refine ⟨r.1.pushFree r.2.2 r.2.1, ?_, ha', hle, fun x => ?_⟩
  · have hl' := (sameLayout_withAreas m zi fa).layout hl
    have hhas : ((m.withAreas zi fa).zone zi).Has p := by
      rw [withAreas_zone_self]
      exact ⟨by show (m.zone zi).pagesGroup ≤ p; omega,
        by show p < (m.zone zi).pagesGroup + (m.zone zi).pagesCount; omega⟩
    rw [freePagesCore_eq hl' hhas, withAreas_zone_self,
      ← withAreas_withAreas m zi fa (r.1.pushFree r.2.2 r.2.1)]
    show _ = some ((m.withAreas zi fa).setZone zi
      (((m.withAreas zi fa).zone zi).withAreas (r.1.pushFree r.2.2 r.2.1)))
    rw [withAreas_zone_self]
    rfl
  · rw [hc' x, hcov x]

/-- The loop over a run of unreserved pages. -/
theorem cursorLoop_spec (hl : ZoneLayout m zi) {runEnd : Nat}
    (hend : runEnd ≤ (m.zone zi).pagesCount) :
    ∀ (fuel cursor : Nat) (fa : FreeAreas), Filled m zi fa cursor → cursor ≤ runEnd →
      runEnd - cursor ≤ fuel →
      (∀ b, cursor ≤ b → b < runEnd → (m.page ((m.zone zi).pagesGroup + b)).reserved = false) →
      ∃ fa', cursorLoop zi runEnd fuel cursor (m.withAreas zi fa) = some (m.withAreas zi fa') ∧
        Filled m zi fa' runEnd := by
  intro fuel
  induction fuel with
  | zero =>
      intro cursor fa h hle hf _
      obtain rfl : cursor = runEnd := by omega
      exact ⟨fa, rfl, h⟩
  | succ fuel ih =>
      intro cursor fa h hle hf hres
      rw [cursorLoop]
      by_cases hlt : cursor < runEnd
      · rw [if_pos hlt, withAreas_zone_self]
        have habs : page4KIndex ((m.zone zi).withAreas fa).zoneStartAddr + cursor
            = (m.zone zi).pagesGroup + cursor := by
          show page4KIndex (m.zone zi).zoneStartAddr + cursor = _
          rw [hl.start, page4KIndex_mul]
        dsimp only
        rw [habs]
        obtain ⟨hk, hsz, hdv⟩ := pickOrder_spec (runEnd - cursor)
          ((m.zone zi).pagesGroup + cursor) (by omega) (MAX_ORDER - 1)
        set k := pickOrder (runEnd - cursor) ((m.zone zi).pagesGroup + cursor) (MAX_ORDER - 1)
        have hpos := Nat.two_pow_pos k
        obtain ⟨fa₁, he, hF⟩ := h.free hl (k := k) (by unfold MAX_ORDER at hk ⊢; omega) hdv
          (by omega) (fun b hb hb' => hres b hb (by omega))
        obtain ⟨fa', he', hF'⟩ := ih (cursor + 2 ^ k) fa₁ hF (by omega) (by omega)
          (fun b hb hb' => hres b (by omega) hb')
        have hcore : freePagesCore (m.withAreas zi fa)
            (((m.zone zi).withAreas fa).pagesGroup + cursor) k = some (m.withAreas zi fa₁) := he
        refine ⟨fa', ?_, hF'⟩
        rw [hcore]
        exact he'
      · rw [if_neg hlt]
        obtain rfl : cursor = runEnd := by omega
        exact ⟨fa, rfl, h⟩

/-- The run of unreserved pages from `bp` on. -/
theorem runLoop_spec (m : MMS) (zi : Nat) :
    ∀ (fuel bp : Nat), bp ≤ (m.zone zi).pagesCount →
      bp ≤ runLoop m zi fuel bp ∧ runLoop m zi fuel bp ≤ (m.zone zi).pagesCount ∧
      ∀ b, bp ≤ b → b < runLoop m zi fuel bp →
        (m.page ((m.zone zi).pagesGroup + b)).reserved = false := by
  intro fuel
  induction fuel with
  | zero => intro bp hbp; exact ⟨le_rfl, hbp, fun b h1 h2 => absurd h2 (Nat.not_lt.mpr h1)⟩
  | succ fuel ih =>
      intro bp hbp
      rw [runLoop]
      split
      · rename_i h
        obtain ⟨h1, h2, h3⟩ := ih (bp + 1) h.1
        refine ⟨by omega, h2, fun b hb hb' => ?_⟩
        rcases Nat.eq_or_lt_of_le hb with rfl | hlt
        · exact h.2
        · exact h3 b hlt hb'
      · exact ⟨le_rfl, hbp, fun b h1 h2 => absurd h2 (Nat.not_lt.mpr h1)⟩

theorem lt_runLoop {bp : Nat} (hbp : bp < (m.zone zi).pagesCount)
    (hres : (m.page ((m.zone zi).pagesGroup + bp)).reserved = false) :
    bp < runLoop m zi (m.zone zi).pagesCount bp := by
  obtain ⟨n, hn⟩ : ∃ n, (m.zone zi).pagesCount = n + 1 := ⟨(m.zone zi).pagesCount - 1, by omega⟩
  rw [hn, runLoop, if_pos ⟨hbp, hres⟩]
  exact (runLoop_spec m zi n (bp + 1) hbp).1

/-- Skipping a reserved page. -/
theorem Filled.skip {fa : FreeAreas} {c : Nat} (h : Filled m zi fa c)
    (hc : c < (m.zone zi).pagesCount)
    (hres : (m.page ((m.zone zi).pagesGroup + c)).reserved = true) : Filled m zi fa (c + 1) := by
  refine ⟨h.areas, hc, fun x => ?_⟩
  rw [h.cover x]
  refine if_congr ⟨fun ⟨h1, h2, h3⟩ => ⟨h1, by omega, h3⟩, fun ⟨h1, h2, h3⟩ => ⟨h1, ?_, h3⟩⟩ rfl rfl
  rcases Nat.lt_or_ge x ((m.zone zi).pagesGroup + c) with hlt | hge
  · exact hlt
  · obtain rfl : x = (m.zone zi).pagesGroup + c := by omega
    rw [hres] at h3
    exact absurd h3 (by simp)

/-- **The walk over a zone** ends with the lists covering exactly its unreserved pages. -/
theorem bpLoop_spec (hl : ZoneLayout m zi) :
    ∀ (fuel bp : Nat) (fa : FreeAreas), Filled m zi fa bp → (m.zone zi).pagesCount - bp ≤ fuel →
      ∃ fa', bpLoop zi fuel bp (m.withAreas zi fa) = some (m.withAreas zi fa') ∧
        Filled m zi fa' (m.zone zi).pagesCount := by
  intro fuel
  induction fuel with
  | zero =>
      intro bp fa h hf
      have := h.le
      obtain rfl : bp = (m.zone zi).pagesCount := by omega
      exact ⟨fa, rfl, h⟩
  | succ fuel ih =>
      intro bp fa h hf
      have hcount : ((m.zone zi).withAreas fa).pagesCount = (m.zone zi).pagesCount := rfl
      have hpage : (m.withAreas zi fa).page (((m.zone zi).withAreas fa).pagesGroup + bp)
          = m.page ((m.zone zi).pagesGroup + bp) := rfl
      rw [bpLoop, withAreas_zone_self]
      dsimp only
      rw [hcount, hpage]
      by_cases hlt : bp < (m.zone zi).pagesCount
      · rw [if_pos hlt]
        by_cases hres : (m.page ((m.zone zi).pagesGroup + bp)).reserved = true
        · rw [if_pos hres]
          exact ih (bp + 1) fa (h.skip hlt hres) (by omega)
        · rw [if_neg hres]
          have hrun : ∀ n b, runLoop (m.withAreas zi fa) zi n b = runLoop m zi n b := by
            intro n
            induction n with
            | zero => intro b; rfl
            | succ n ihn =>
                intro b
                rw [runLoop, runLoop, withAreas_zone_self, ihn]
                rfl
          rw [hrun]
          obtain ⟨h1, h2, h3⟩ := runLoop_spec m zi (m.zone zi).pagesCount bp (le_of_lt hlt)
          have h4 := lt_runLoop hlt (by simpa using hres)
          obtain ⟨fa₁, he, hF⟩ := cursorLoop_spec hl h2 (m.zone zi).pagesCount bp fa h h1
            (by omega) h3
          rw [he]
          exact ih _ fa₁ hF (by omega)
      · rw [if_neg hlt]
        have := h.le
        obtain rfl : bp = (m.zone zi).pagesCount := by omega
        exact ⟨fa, rfl, h⟩

/-- A zone that has been walked over satisfies the invariant with nothing handed out. -/
theorem Filled.zoneInv {fa : FreeAreas} (h : Filled m zi fa (m.zone zi).pagesCount)
    (hc : Counted m) (hi : zi < m.zonesCount) : ZoneInv (m.withAreas zi fa) (fun _ => 0) zi := by
  have hl := sameLayout_withAreas m zi fa
  have hone : ∀ x, (m.zone zi).Has x →
      Dyadic.cover MAX_ORDER fa.family x + (m.page x).resv = 1 := by
    intro x hx
    rw [h.cover x]
    unfold Page.resv
    by_cases hr : (m.page x).reserved = true
    · rw [if_pos hr, if_neg (by simp [hr])]
    · rw [if_neg hr, if_pos ⟨hx.1, hx.2, by simpa using hr⟩]
  have hsum : weight MAX_ORDER fa.family + (m.zone zi).pageUsingCount = (m.zone zi).pagesCount := by
    rw [weight_eq_sum_cover h.areas.wf.inside, hc.using_eq zi hi, ← Finset.sum_add_distrib]
    rw [Finset.sum_congr rfl (fun x hx => hone x (Finset.mem_Ico.mp hx))]
    simp
  have htot := hc.total zi hi
  refine ⟨hl.layout (hc.layout zi hi), ?_, fun x hx => ?_, fun x hx => ?_, ?_, ?_, ?_⟩
    <;> rw [withAreas_zone_self] at *
  · exact h.areas
  · exact hone x hx
  · have h1 := hone x hx
    have h2 := hc.refCount x
    show (m.page x).refCount + Dyadic.cover MAX_ORDER fa.family x = 1
    omega
  · show (m.zone zi).pageFreeCount = weight MAX_ORDER fa.family
    omega
  · exact htot
  · exact hc.link zi hi

end

/-- **`init_buddy_system`** terminates in a state that satisfies the invariant, with nothing
handed out, and with the layout and reservations it was called with. -/
theorem initBuddySystem_spec {m : MMS} (h : Counted m) :
    ∃ m', initBuddySystem m = some m' ∧ SameLayout m m' ∧ m'.Inv (fun _ => 0) := by
  have key : ∀ (fuel zi : Nat) (m : MMS), Counted m → zi + fuel = m.zonesCount →
      (∀ zj < zi, ZoneInv m (fun _ => 0) zj) →
      ∃ m', initBuddyFrom fuel zi m = some m' ∧ SameLayout m m' ∧ m'.Inv (fun _ => 0) := by
    intro fuel
    induction fuel with
    | zero =>
        intro zi m _ hz hdone
        exact ⟨m, rfl, SameLayout.refl m, fun zj hj => hdone zj (by omega)⟩
    | succ fuel ih =>
        intro zi m hc hz hdone
        obtain ⟨fa, he, hF⟩ := bpLoop_spec (hc.layout zi (by omega)) (m.zone zi).pagesCount 0
          emptyAreas (filled_zero m zi) (by omega)
        have hl := sameLayout_withAreas m zi fa
        obtain ⟨m', he', hl', hinv⟩ := ih (zi + 1) (m.withAreas zi fa) (hc.withAreas zi fa)
          (by rw [hl.zonesCount]; omega) (fun zj hj => by
            rcases Nat.eq_or_lt_of_le (Nat.le_of_lt_succ hj) with rfl | hlt
            · exact hF.zoneInv hc (by omega)
            · exact (hdone zj hlt).frame hl (withAreas_zone_ne m (by omega) fa)
                (fun x _ => ⟨rfl, rfl⟩))
        refine ⟨m', ?_, hl.trans hl', hinv⟩
        have hloop : bpLoop zi (m.zone zi).pagesCount 0
            (m.setZone zi ((m.zone zi).withAreas emptyAreas)) = some (m.withAreas zi fa) := he
        rw [initBuddyFrom, hloop]
        exact he'
  exact key m.zonesCount 0 m h (by omega) (fun zj hj => absurd hj (Nat.not_lt_zero _))

end Talios
