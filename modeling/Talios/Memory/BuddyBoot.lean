import Talios.Memory.BuddyRun

set_option autoImplicit false

/-! # The state `init_buddy_system` builds

Which pages are on the free lists at the start, in terms of the memory map and the reservations
alone. The zones are the usable ranges, a page of a zone is reserved when one of the reservations
covers it, and the lists hold the rest as maximal blocks. The walk over a zone ends by its own
test, with any number of rounds left.
-/

namespace Talios

open Word Dyadic

/-! ## Reservations -/

/-- Reserving a page writes no other page structure. -/
theorem reservePage_page_ne {m : MMS} {x pfn : Nat} (hx : x ≠ pfn) (attr : Nat) :
    (reservePage attr m pfn).page x = m.page x := by
  unfold reservePage
  dsimp only
  cases (m.page pfn).zoneStruct with
  | none => rfl
  | some zi =>
      dsimp only
      split
      · rfl
      · exact Function.update_of_ne hx ..

theorem reservePage_zoneStruct (m : MMS) (attr pfn x : Nat) :
    ((reservePage attr m pfn).page x).zoneStruct = (m.page x).zoneStruct := by
  by_cases hx : x = pfn
  · subst hx
    unfold reservePage
    dsimp only
    cases hz : (m.page x).zoneStruct with
    | none => exact hz
    | some zi =>
        dsimp only
        split
        · exact hz
        · simp [MMS.setPage]
  · rw [reservePage_page_ne hx]

/-- Reserving a page marks it, if it belongs to a zone, and no other one. -/
theorem reservePage_reserved (m : MMS) (attr pfn x : Nat) :
    ((reservePage attr m pfn).page x).reserved = true
      ↔ (m.page x).reserved = true ∨ x = pfn ∧ (m.page x).zoneStruct ≠ none := by
  by_cases hx : x = pfn
  · subst hx
    unfold reservePage
    dsimp only
    cases hz : (m.page x).zoneStruct with
    | none => simp
    | some zi =>
        dsimp only
        split
        · rename_i hr
          simp [hr]
        · simp [MMS.setPage]
  · rw [reservePage_page_ne hx]
    simp [hx]

theorem reservePage_phyAddr (m : MMS) (attr pfn x : Nat) :
    ((reservePage attr m pfn).page x).phyAddr = (m.page x).phyAddr := by
  by_cases hx : x = pfn
  · subst hx
    unfold reservePage
    dsimp only
    cases (m.page x).zoneStruct with
    | none => rfl
    | some zi =>
        dsimp only
        split
        · rfl
        · simp [MMS.setPage]
  · rw [reservePage_page_ne hx]

/-- What reservations do not change. -/
structure SameZones (m m' : MMS) : Prop where
  pagesCount : m'.pagesCount = m.pagesCount
  zonesCount : m'.zonesCount = m.zonesCount
  normal : m'.zoneNormalIndex = m.zoneNormalIndex
  has : ∀ zi x, (m'.zone zi).Has x ↔ (m.zone zi).Has x

theorem SameZones.refl (m : MMS) : SameZones m m := ⟨rfl, rfl, rfl, fun _ _ => Iff.rfl⟩

theorem SameZones.trans {m₁ m₂ m₃ : MMS} (h : SameZones m₁ m₂) (h' : SameZones m₂ m₃) :
    SameZones m₁ m₃ :=
  ⟨h'.pagesCount.trans h.pagesCount, h'.zonesCount.trans h.zonesCount, h'.normal.trans h.normal,
    fun zi x => (h'.has zi x).trans (h.has zi x)⟩

theorem sameZones_reservePage (attr : Nat) (m : MMS) (pfn : Nat) :
    SameZones m (reservePage attr m pfn) := by
  unfold reservePage
  dsimp only
  cases (m.page pfn).zoneStruct with
  | none => exact SameZones.refl m
  | some zi =>
      dsimp only
      split
      · exact SameZones.refl m
      · refine ⟨rfl, rfl, rfl, fun zj x => ?_⟩
        unfold Zone.Has MMS.setPage MMS.setZone
        by_cases hj : zj = zi
        · subst hj; simp
        · simp [hj]

theorem sameZones_reservePhysRange (m : MMS) (start stop attr : Nat) :
    SameZones m (reservePhysRange m start stop attr) := by
  have key : ∀ (l : List Nat) (m : MMS), SameZones m (l.foldl (reservePage attr) m) := by
    intro l
    induction l with
    | nil => exact SameZones.refl
    | cons y l ih => exact fun m => (sameZones_reservePage attr m y).trans (ih _)
  exact key _ m

theorem sameZones_reservedMMS (map : MemoryMap) (rs : List Reservation) :
    SameZones (initZones map) (reservedMMS map rs) := by
  unfold reservedMMS
  generalize initZones map = m
  induction rs generalizing m with
  | nil => exact SameZones.refl m
  | cons r rs ih => exact (sameZones_reservePhysRange m r.start r.stop r.attr).trans (ih _)

/-- The page frame `x` is among the pages, rounded outwards, of the reservation. -/
def Reservation.Covers (r : Reservation) (pagesCount x : Nat) : Prop :=
  page4KIndex (alignDown PAGE_4K_SIZE r.start) ≤ x ∧
    x < min (page4KIndex (alignUp64 PAGE_4K_SIZE r.stop)) pagesCount

theorem reserved_reservePhysRange {m : MMS} (r : Reservation) {x : Nat}
    (hz : (m.page x).zoneStruct ≠ none) :
    ((reservePhysRange m r.start r.stop r.attr).page x).zoneStruct ≠ none ∧
      (((reservePhysRange m r.start r.stop r.attr).page x).reserved = true
        ↔ (m.page x).reserved = true ∨ r.Covers m.pagesCount x) := by
  have key : ∀ (l : List Nat) (m : MMS), (m.page x).zoneStruct ≠ none →
      ((l.foldl (reservePage r.attr) m).page x).zoneStruct ≠ none ∧
        (((l.foldl (reservePage r.attr) m).page x).reserved = true
          ↔ (m.page x).reserved = true ∨ x ∈ l) := by
    intro l
    induction l with
    | nil => intro m hz; exact ⟨hz, by simp⟩
    | cons y l ih =>
        intro m hz
        obtain ⟨h1, h2⟩ := ih (reservePage r.attr m y) (by rwa [reservePage_zoneStruct])
        refine ⟨h1, ?_⟩
        rw [List.foldl_cons, h2, reservePage_reserved, List.mem_cons, or_assoc]
        simp [hz]
  obtain ⟨h1, h2⟩ := key (List.range' (page4KIndex (alignDown PAGE_4K_SIZE r.start))
    (min (page4KIndex (alignUp64 PAGE_4K_SIZE r.stop)) m.pagesCount
      - page4KIndex (alignDown PAGE_4K_SIZE r.start))) m hz
  refine ⟨h1, h2.trans (or_congr_right ?_)⟩
  rw [List.mem_range'_1]
  unfold Reservation.Covers
  omega

theorem reserved_initZones (map : MemoryMap) (x : Nat) :
    ((initZones map).page x).reserved = false := by
  have key : ∀ (rs : List (Nat × Nat)) (m : MMS), (m.page x).reserved = false →
      ((rs.foldl addZone m).page x).reserved = false := by
    intro rs
    induction rs with
    | nil => exact fun m h => h
    | cons r rs ih =>
        intro m h
        refine ih _ ?_
        unfold addZone
        dsimp only
        split
        · rfl
        · exact h
  exact key map.ranges _ rfl

/-- The page structures outside the zones are all zero. -/
theorem phyAddr_initZones (map : MemoryMap) (x : Nat) :
    ((initZones map).page x).phyAddr = x * PAGE_4K_SIZE ∨ ((initZones map).page x).phyAddr = 0 := by
  have key : ∀ (rs : List (Nat × Nat)) (m : MMS),
      ((m.page x).phyAddr = x * PAGE_4K_SIZE ∨ (m.page x).phyAddr = 0) →
      ((rs.foldl addZone m).page x).phyAddr = x * PAGE_4K_SIZE ∨
        ((rs.foldl addZone m).page x).phyAddr = 0 := by
    intro rs
    induction rs with
    | nil => exact fun m h => h
    | cons r rs ih =>
        intro m h
        refine ih _ ?_
        unfold addZone
        dsimp only
        split
        · exact Or.inl rfl
        · exact h
  exact key map.ranges _ (Or.inr rfl)

theorem phyAddr_reservedMMS (map : MemoryMap) (rs : List Reservation) (x : Nat) :
    ((reservedMMS map rs).page x).phyAddr = ((initZones map).page x).phyAddr := by
  have hpages : ∀ (l : List Nat) (m : MMS) (attr : Nat),
      ((l.foldl (reservePage attr) m).page x).phyAddr = (m.page x).phyAddr := by
    intro l
    induction l with
    | nil => exact fun _ _ => rfl
    | cons y l ih => exact fun m attr => (ih _ attr).trans (reservePage_phyAddr m attr y x)
  unfold reservedMMS
  generalize initZones map = m
  induction rs generalizing m with
  | nil => rfl
  | cons r rs ih => exact (ih _).trans (hpages _ m r.attr)

theorem pagesCount_initZones (map : MemoryMap) : (initZones map).pagesCount = map.pagesCount := by
  have key : ∀ (rs : List (Nat × Nat)) (m : MMS), (rs.foldl addZone m).pagesCount = m.pagesCount := by
    intro rs
    induction rs with
    | nil => intro m; rfl
    | cons r rs ih => intro m; exact ih _
  exact key map.ranges _

/-- A page of a zone is reserved when some reservation covers it, however many do. -/
theorem reserved_reservedMMS (map : MemoryMap) (rs : List Reservation) {x : Nat}
    (hz : ((initZones map).page x).zoneStruct ≠ none) :
    ((reservedMMS map rs).page x).reserved = true
      ↔ ∃ r ∈ rs, r.Covers map.pagesCount x := by
  have key : ∀ (rs : List Reservation) (m : MMS), (m.page x).zoneStruct ≠ none →
      m.pagesCount = map.pagesCount →
      (((rs.foldl (fun m r => reservePhysRange m r.start r.stop r.attr) m).page x).reserved = true
        ↔ (m.page x).reserved = true ∨ ∃ r ∈ rs, r.Covers map.pagesCount x) := by
    intro rs
    induction rs with
    | nil => intro m _ _; simp
    | cons r rs ih =>
        intro m hz hc
        obtain ⟨h1, h2⟩ := reserved_reservePhysRange r hz
        rw [List.foldl_cons, ih _ h1 ((sameZones_reservePhysRange m _ _ _).pagesCount.trans hc),
          h2, hc, or_assoc]
        simp
  have := key rs (initZones map) hz (pagesCount_initZones map)
  rwa [reserved_initZones map x, or_iff_right (by simp)] at this

/-! ## The zones of the memory map -/

/-- The zones are the usable ranges, in their order. -/
theorem zone_initZones (map : MemoryMap) :
    (initZones map).zonesCount = map.ranges.length ∧
    ∀ zi (hz : zi < map.ranges.length),
      ((initZones map).zone zi).pagesGroup = page4KIndex map.ranges[zi].1 ∧
      ((initZones map).zone zi).pagesCount
        = page4KIndex (map.ranges[zi].2 - map.ranges[zi].1) := by
  have key : ∀ (rs : List (Nat × Nat)) (m : MMS),
      (rs.foldl addZone m).zonesCount = m.zonesCount + rs.length ∧
      (∀ zi < m.zonesCount, (rs.foldl addZone m).zone zi = m.zone zi) ∧
      ∀ i (hi : i < rs.length),
        ((rs.foldl addZone m).zone (m.zonesCount + i)).pagesGroup = page4KIndex rs[i].1 ∧
        ((rs.foldl addZone m).zone (m.zonesCount + i)).pagesCount
          = page4KIndex (rs[i].2 - rs[i].1) := by
    intro rs
    induction rs with
    | nil => exact fun m => ⟨rfl, fun _ _ => rfl, fun i hi => absurd hi (by simp)⟩
    | cons r rs ih =>
        intro m
        obtain ⟨h1, h2, h3⟩ := ih (addZone m r)
        have hcount : (addZone m r).zonesCount = m.zonesCount + 1 := rfl
        rw [hcount] at h1 h2 h3
        refine ⟨?_, fun zi hz => ?_, fun i hi => ?_⟩
        · rw [List.foldl_cons, h1, List.length_cons]
          omega
        · rw [List.foldl_cons, h2 zi (by omega)]
          simp [addZone, MMS.setZone, Function.update_of_ne (Nat.ne_of_lt hz)]
        · cases i with
          | zero =>
              rw [List.foldl_cons, Nat.add_zero, h2 m.zonesCount (by omega)]
              simp [addZone, MMS.setZone]
          | succ i =>
              have := h3 i (by simpa using hi)
              rw [Nat.add_assoc, Nat.add_comm 1] at this
              exact this
  obtain ⟨h1, -, h3⟩ := key map.ranges (emptyMMS map.pagesCount map.zoneUnmapedIndex)
  have h0 : (emptyMMS map.pagesCount map.zoneUnmapedIndex).zonesCount = 0 := rfl
  rw [h0, Nat.zero_add] at h1
  refine ⟨h1, fun zi hz => ?_⟩
  have := h3 zi hz
  rwa [h0, Nat.zero_add] at this

/-- The pages of a zone are those of its range. -/
theorem has_initZones (map : MemoryMap) {zi : Nat} (hz : zi < map.ranges.length) (x : Nat) :
    ((initZones map).zone zi).Has x
      ↔ map.ranges[zi].1 ≤ x * PAGE_4K_SIZE ∧ x * PAGE_4K_SIZE < map.ranges[zi].2 := by
  have hmem := List.getElem_mem hz
  obtain ⟨⟨a, ha⟩, ⟨b, hb⟩⟩ := map.aligned _ hmem
  have hne := map.nonempty _ hmem
  obtain ⟨h1, h2⟩ := (zone_initZones map).2 zi hz
  unfold Zone.Has
  rw [h1, h2]
  unfold page4KIndex PAGE_4K_SIZE PAGE_4K_SHIFT at *
  omega

theorem zoneStruct_initZones (map : MemoryMap) {zi x : Nat} (hz : zi < map.ranges.length)
    (hx : map.ranges[zi].1 ≤ x * PAGE_4K_SIZE ∧ x * PAGE_4K_SIZE < map.ranges[zi].2) :
    ((initZones map).page x).zoneStruct ≠ none := by
  have hc : Counted (initZones map) := counted_reservedMMS map []
  rw [(hc.layout zi (by rw [(zone_initZones map).1]; exact hz)).zoneStruct x
    ((has_initZones map hz x).mpr hx)]
  simp

/-! ## The loops end by themselves -/

theorem sameLayout_freePagesCore {m m' : MMS} {p order : Nat}
    (h : freePagesCore m p order = some m') : SameLayout m m' := by
  unfold freePagesCore at h
  cases hz : (m.page p).zoneStruct with
  | none => simp [hz] at h
  | some zi =>
      simp only [hz, Option.some.injEq] at h
      rw [← h]
      exact sameLayout_withAreas m zi _

theorem sameLayout_cursorLoop (zi runEnd : Nat) : ∀ (fuel cursor : Nat) (m m' : MMS),
    cursorLoop zi runEnd fuel cursor m = some m' → SameLayout m m' := by
  intro fuel
  induction fuel with
  | zero =>
      intro cursor m m' h
      obtain rfl := Option.some.inj h
      exact SameLayout.refl m
  | succ fuel ih =>
      intro cursor m m' h
      rw [cursorLoop] at h
      split at h
      · dsimp only at h
        split at h
        · exact absurd h (by simp)
        · rename_i m₁ he
          exact (sameLayout_freePagesCore he).trans (ih _ _ _ h)
      · obtain rfl := Option.some.inj h
        exact SameLayout.refl m

/-- A run of pages is cut up in at most as many rounds as it has pages. -/
theorem cursorLoop_fuel (zi runEnd n : Nat) : ∀ (fuel cursor : Nat) (m : MMS),
    runEnd - cursor ≤ fuel →
      cursorLoop zi runEnd (fuel + n) cursor m = cursorLoop zi runEnd fuel cursor m := by
  intro fuel
  induction fuel with
  | zero =>
      intro cursor m h
      cases n with
      | zero => rfl
      | succ n => simp [cursorLoop, Nat.not_lt.mpr (show runEnd ≤ cursor by omega)]
  | succ fuel ih =>
      intro cursor m h
      rw [Nat.add_right_comm, cursorLoop, cursorLoop]
      by_cases hlt : cursor < runEnd
      · rw [if_pos hlt, if_pos hlt]
        dsimp only
        -- every block has at least one page
        have hpos := Nat.two_pow_pos (pickOrder (runEnd - cursor)
          (page4KIndex (m.zone zi).zoneStartAddr + cursor) (MAX_ORDER - 1))
        split
        · rfl
        · exact ih _ _ (by omega)
      · rw [if_neg hlt, if_neg hlt]

theorem runLoop_fuel (m : MMS) (zi n : Nat) : ∀ (fuel bp : Nat),
    (m.zone zi).pagesCount - bp ≤ fuel → runLoop m zi (fuel + n) bp = runLoop m zi fuel bp := by
  intro fuel
  induction fuel with
  | zero =>
      intro bp h
      cases n with
      | zero => rfl
      | succ n => simp [runLoop, Nat.not_lt.mpr (show (m.zone zi).pagesCount ≤ bp by omega)]
  | succ fuel ih =>
      intro bp h
      rw [Nat.add_right_comm, runLoop, runLoop, ih (bp + 1) (by omega)]

/-- A zone is walked over in at most as many rounds as it has pages. -/
theorem bpLoop_fuel (zi n : Nat) : ∀ (fuel bp : Nat) (m : MMS),
    (m.zone zi).pagesCount - bp ≤ fuel → bpLoop zi (fuel + n) bp m = bpLoop zi fuel bp m := by
  intro fuel
  induction fuel with
  | zero =>
      intro bp m h
      cases n with
      | zero => rfl
      | succ n => simp [bpLoop, Nat.not_lt.mpr (show (m.zone zi).pagesCount ≤ bp by omega)]
  | succ fuel ih =>
      intro bp m h
      rw [Nat.add_right_comm, bpLoop, bpLoop]
      dsimp only
      by_cases hlt : bp < (m.zone zi).pagesCount
      · rw [if_pos hlt, if_pos hlt]
        by_cases hres : (m.page ((m.zone zi).pagesGroup + bp)).reserved = true
        · rw [if_pos hres, if_pos hres]
          exact ih (bp + 1) m (by omega)
        · rw [if_neg hres, if_neg hres]
          have hrun := lt_runLoop hlt (by simpa using hres)
          split
          · rfl
          · rename_i m' he
            refine ih _ m' ?_
            rw [((sameLayout_cursorLoop _ _ _ _ _ _ he).zones zi).2.1]
            omega
      · rw [if_neg hlt, if_neg hlt]

/-! ## No list beyond the last order -/

/-- The zone has no block of an order its `free_area` array does not have. -/
def Zone.OrdersBelow (z : Zone) : Prop := ∀ k, MAX_ORDER ≤ k → z.freeList k = []

theorem mergeLoop_above (first last : Nat) : ∀ (fuel pageIndex order : Nat) (fa : FreeAreas),
    order + fuel < MAX_ORDER →
      (mergeLoop first last fuel pageIndex order fa).2.2 < MAX_ORDER ∧
      ∀ k, MAX_ORDER ≤ k → (mergeLoop first last fuel pageIndex order fa).1 k = fa k := by
  intro fuel
  induction fuel with
  | zero => exact fun pageIndex order fa h => ⟨h, fun _ _ => rfl⟩
  | succ fuel ih =>
      intro pageIndex order fa h
      rw [mergeLoop]
      split
      · exact ⟨by show order < MAX_ORDER; omega, fun _ _ => rfl⟩
      · split
        · obtain ⟨h1, h2⟩ := ih _ (order + 1) (fa.removeFree order (pageIndex ^^^ 2 ^ order))
            (by omega)
          refine ⟨h1, fun k hk => (h2 k hk).trans ?_⟩
          exact Function.update_of_ne (by omega) ..
        · exact ⟨by show order < MAX_ORDER; omega, fun _ _ => rfl⟩

theorem ordersBelow_freePagesCore {m m' : MMS} {p order : Nat} (ho : order < MAX_ORDER)
    (h : freePagesCore m p order = some m') (zj : Nat) (hz : (m.zone zj).OrdersBelow) :
    (m'.zone zj).OrdersBelow := by
  unfold freePagesCore at h
  cases hzs : (m.page p).zoneStruct with
  | none => simp [hzs] at h
  | some zi =>
      simp only [hzs, Option.some.injEq] at h
      subst h
      intro k hk
      by_cases hj : zj = zi
      · subst hj
        obtain ⟨h1, h2⟩ := mergeLoop_above (page4KIndex (m.zone zj).zoneStartAddr)
          (page4KIndex (m.zone zj).zoneEndAddr) (MAX_ORDER - 1 - order)
          (page4KIndex (m.page p).phyAddr) order (m.zone zj).freeArea (by omega)
        simp only [MMS.setZone, Function.update_self, Zone.withAreas, FreeAreas.pushFree,
          Zone.freeList]
        rw [Function.update_of_ne (by omega), h2 k hk]
        exact hz k hk
      · simp only [MMS.setZone, Function.update_of_ne hj]
        exact hz k hk

theorem ordersBelow_cursorLoop (zi runEnd zj : Nat) : ∀ (fuel cursor : Nat) (m m' : MMS),
    cursorLoop zi runEnd fuel cursor m = some m' → (m.zone zj).OrdersBelow →
      (m'.zone zj).OrdersBelow := by
  intro fuel
  induction fuel with
  | zero =>
      intro cursor m m' h hz
      obtain rfl := Option.some.inj h
      exact hz
  | succ fuel ih =>
      intro cursor m m' h hz
      rw [cursorLoop] at h
      split at h
      · rename_i hlt
        dsimp only at h
        split at h
        · exact absurd h (by simp)
        · rename_i m₁ he
          have ho := (pickOrder_spec (runEnd - cursor)
            (page4KIndex (m.zone zi).zoneStartAddr + cursor) (by omega) (MAX_ORDER - 1)).1
          exact ih _ _ _ h (ordersBelow_freePagesCore
            (lt_of_le_of_lt ho (by decide)) he zj hz)
      · obtain rfl := Option.some.inj h
        exact hz

theorem ordersBelow_bpLoop (zi zj : Nat) : ∀ (fuel bp : Nat) (m m' : MMS),
    bpLoop zi fuel bp m = some m' → (m.zone zj).OrdersBelow → (m'.zone zj).OrdersBelow := by
  intro fuel
  induction fuel with
  | zero =>
      intro bp m m' h hz
      obtain rfl := Option.some.inj h
      exact hz
  | succ fuel ih =>
      intro bp m m' h hz
      rw [bpLoop] at h
      dsimp only at h
      split at h
      · split at h
        · exact ih _ _ _ h hz
        · split at h
          · exact absurd h (by simp)
          · rename_i m₁ he
            exact ih _ _ _ h (ordersBelow_cursorLoop _ _ zj _ _ _ _ he hz)
      · obtain rfl := Option.some.inj h
        exact hz

theorem ordersBelow_initBuddySystem {m m' : MMS} (h : initBuddySystem m = some m')
    {zi : Nat} (hi : zi < m.zonesCount) : (m'.zone zi).OrdersBelow := by
  have key : ∀ (fuel zj : Nat) (m : MMS), initBuddyFrom fuel zj m = some m' →
      (∀ zi < zj, (m.zone zi).OrdersBelow) → ∀ zi < zj + fuel, (m'.zone zi).OrdersBelow := by
    intro fuel
    induction fuel with
    | zero =>
        intro zj m h hdone
        obtain rfl := Option.some.inj h
        exact hdone
    | succ fuel ih =>
        intro zj m h hdone
        rw [initBuddyFrom] at h
        split at h
        · exact absurd h (by simp)
        · rename_i m₁ he
          rw [show zj + (fuel + 1) = zj + 1 + fuel by omega]
          refine ih (zj + 1) m₁ h (fun zi hz => ordersBelow_bpLoop _ zi _ _ _ _ he ?_)
          -- the lists of the zone at hand have just been emptied
          rcases Nat.eq_or_lt_of_le (Nat.le_of_lt_succ hz) with rfl | hlt
          · intro k _
            simp [MMS.setZone, Zone.withAreas, Zone.freeList, emptyAreas]
          · simp only [MMS.setZone, Function.update_of_ne (Nat.ne_of_lt hlt)]
            exact hdone zi hlt
  exact key m.zonesCount 0 m h (fun _ h => absurd h (Nat.not_lt_zero _)) zi (by omega)

/-! ## What the lists hold -/

/-- The page frame `x` of the range `r` is usable: no reservation covers it. -/
def Usable (map : MemoryMap) (rs : List Reservation) (r : Nat × Nat) (x : Nat) : Prop :=
  (r.1 ≤ x * PAGE_4K_SIZE ∧ x * PAGE_4K_SIZE < r.2) ∧
    ¬ ∃ q ∈ rs, q.Covers map.pagesCount x

/-- The free lists of the zone and its counter are those of the usable pages of the range. -/
structure ZoneExact (map : MemoryMap) (rs : List Reservation) (r : Nat × Nat) (z : Zone) :
    Prop where
  union : ∀ x, (∃ k p, p ∈ z.freeList k ∧ Mem p k x) ↔ Usable map rs r x
  order : ∀ k p, p ∈ z.freeList k → k ≤ MAX_ORDER - 1
  aligned : ∀ k p, p ∈ z.freeList k → 2 ^ k ∣ p
  maximal : ∀ k p, p ∈ z.freeList k → Maximal MAX_ORDER (Usable map rs r) p k
  nodup : ∀ k, (z.freeList k).Nodup
  disjoint : ∀ k p, p ∈ z.freeList k → ∀ j q, q ∈ z.freeList j → (p, k) ≠ (q, j) →
    ∀ x, ¬ (Mem p k x ∧ Mem q j x)
  freeCount : z.pageFreeCount = Set.ncard {x | Usable map rs r x}

/-- At the start the pages on the lists are the usable ones. -/
theorem freePage_boot {map : MemoryMap} {rs : List Reservation} {m : MMS}
    (h : bootMMS map rs = some m) {zi : Nat} (hz : zi < map.ranges.length) (x : Nat) :
    (⟨m, []⟩ : BuddyState).FreePage zi x ↔ Usable map rs map.ranges[zi] x := by
  have hl := (buddyInv_boot h).layout
  have hs := sameZones_reservedMMS map rs
  have hhas : (m.zone zi).Has x
      ↔ map.ranges[zi].1 ≤ x * PAGE_4K_SIZE ∧ x * PAGE_4K_SIZE < map.ranges[zi].2 := by
    rw [hl.has, hs.has, has_initZones map hz]
  unfold BuddyState.FreePage Usable
  rw [hhas]
  constructor
  · rintro ⟨h1, h2, -⟩
    refine ⟨h1, fun hc => ?_⟩
    rw [(hl.pages x).2.2, ← Bool.not_eq_true] at h2
    exact h2 ((reserved_reservedMMS map rs (zoneStruct_initZones map hz h1)).mpr hc)
  · rintro ⟨h1, h2⟩
    refine ⟨h1, ?_, by simp⟩
    rw [(hl.pages x).2.2, ← Bool.not_eq_true,
      reserved_reservedMMS map rs (zoneStruct_initZones map hz h1)]
    exact h2

/-- The counter of free pages, counted page by page. -/
theorem ZoneInv.freeCount_eq_ncard {m : MMS} {out : Nat → Nat} {zi : Nat} (h : ZoneInv m out zi) :
    (m.zone zi).pageFreeCount
      = Set.ncard {x | 0 < cover MAX_ORDER (m.zone zi).freeArea.family x} := by
  set S := (Finset.Ico (m.zone zi).pagesGroup
    ((m.zone zi).pagesGroup + (m.zone zi).pagesCount)).filter
      (fun x => 0 < cover MAX_ORDER (m.zone zi).freeArea.family x) with hS
  have hset : {x | 0 < cover MAX_ORDER (m.zone zi).freeArea.family x} = (S : Set Nat) := by
    ext x
    rw [hS]
    simp only [Set.mem_ofPred_eq, Finset.coe_filter, Finset.mem_Ico]
    refine ⟨fun hx => ⟨?_, hx⟩, fun hx => hx.2⟩
    obtain ⟨k, hk, p, hp, hm⟩ := cover_pos_iff.mp hx
    exact (h.free_page hk hp hm).1
  calc (m.zone zi).pageFreeCount
      = weight MAX_ORDER (m.zone zi).freeArea.family := h.free
    _ = ∑ x ∈ Finset.Ico (m.zone zi).pagesGroup
          ((m.zone zi).pagesGroup + (m.zone zi).pagesCount),
        if 0 < cover MAX_ORDER (m.zone zi).freeArea.family x then 1 else 0 := by
      rw [weight_eq_sum_cover h.areas.wf.inside]
      refine Finset.sum_congr rfl (fun x _ => ?_)
      have := h.cover_le_one x
      split <;> omega
    _ = S.card := by rw [hS, Finset.card_filter]
    _ = Set.ncard {x | 0 < cover MAX_ORDER (m.zone zi).freeArea.family x} := by
      rw [hset, Set.ncard_coe_finset]

/-- **The start covers exactly the usable pages.** For every memory map and every list of
reservations `init_buddy_system` builds a state in which the blocks on the lists of each zone
make up its usable pages, each block maximal, and `PageFreeCount` is the number of these pages.
Its loops end by themselves: more rounds change nothing. -/
theorem initBuddy_exact (map : MemoryMap) (rs : List Reservation) :
    (∃ m, bootMMS map rs = some m ∧ m.zonesCount = map.ranges.length ∧
      ∀ zi (hz : zi < map.ranges.length), ZoneExact map rs map.ranges[zi] (m.zone zi)) ∧
    (∀ (m : MMS) (zi n : Nat),
      bpLoop zi ((m.zone zi).pagesCount + n) 0 m = bpLoop zi (m.zone zi).pagesCount 0 m) ∧
    (∀ (m : MMS) (zi bp n : Nat),
      runLoop m zi ((m.zone zi).pagesCount + n) bp = runLoop m zi (m.zone zi).pagesCount bp) ∧
    (∀ (m : MMS) (zi bp runEnd n : Nat), runEnd ≤ (m.zone zi).pagesCount →
      cursorLoop zi runEnd ((m.zone zi).pagesCount + n) bp m
        = cursorLoop zi runEnd (m.zone zi).pagesCount bp m) := by
  refine ⟨?_, fun m zi n => bpLoop_fuel zi n _ 0 m (by omega),
    fun m zi bp n => runLoop_fuel m zi n _ bp (by omega),
    fun m zi bp runEnd n h => cursorLoop_fuel zi runEnd n _ bp m (by omega)⟩
  obtain ⟨m, he, hl, hinv⟩ := initBuddySystem_spec (counted_reservedMMS map rs)
  have hb := buddyInv_boot he
  have hcount : m.zonesCount = map.ranges.length := by
    rw [hl.zonesCount, (sameZones_reservedMMS map rs).zonesCount, (zone_initZones map).1]
  refine ⟨m, he, hcount, fun zi hz => ?_⟩
  have hi : zi < m.zonesCount := by rw [hcount]; exact hz
  have hfree : (⟨m, []⟩ : BuddyState).FreePage zi = Usable map rs map.ranges[zi] :=
    funext (fun x => propext (freePage_boot he hz x))
  have horder : ∀ k p, p ∈ (m.zone zi).freeList k → k < MAX_ORDER := by
    intro k p hp
    by_contra hge
    rw [ordersBelow_initBuddySystem he (by rw [← hl.zonesCount]; exact hi) k (by omega)] at hp
    exact absurd hp (by simp)
  have hmax : ∀ k p, p ∈ (m.zone zi).freeList k →
      Maximal MAX_ORDER (Usable map rs map.ranges[zi]) p k := by
    intro k p hp
    rw [← hfree]
    exact (hb.freeList_iff_maximal hi p k).mp ⟨horder k p hp, hp⟩
  have hcons := hb.consistent hi
  refine ⟨fun x => ?_, fun k p hp => Nat.le_pred_of_lt (horder k p hp),
    fun k p hp => (hmax k p hp).2.1, hmax, fun k => ?_, fun k p hp j q hq =>
      hcons.disjoint k (horder k p hp) p hp j (horder j q hq) q hq, ?_⟩
  · rw [← freePage_boot he hz x, ← hb.cover_pos_iff_freePage hi x, cover_pos_iff]
    constructor
    · rintro ⟨k, p, hp, hx⟩
      exact ⟨k, horder k p hp, p, hp, hx⟩
    · rintro ⟨k, -, p, hp, hx⟩
      exact ⟨k, p, hp, hx⟩
  · by_cases hk : k < MAX_ORDER
    · exact hcons.nodup k hk
    · rw [List.eq_nil_iff_forall_not_mem.mpr (fun p hp => hk (horder k p hp))]
      exact List.nodup_nil
  · rw [(hinv zi hi).freeCount_eq_ncard]
    congr 1
    ext x
    exact (hb.cover_pos_iff_freePage hi x).trans (freePage_boot he hz x)

end Talios
