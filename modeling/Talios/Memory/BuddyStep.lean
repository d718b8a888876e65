import Talios.Memory.BuddyInvariant

set_option autoImplicit false

/-! # What one call of the page allocator does

The allocator invariant `MMS.Inv m out` relates the memory manager to the number `out x` of
blocks handed out that the page `x` belongs to: every page of a zone is free, reserved or handed
out, exactly one of these once, and the counters agree with the lists. `allocPages_spec` and
`freePages_spec` say what a call does to it.
-/

namespace Talios

open Word Dyadic

/-! ## The invariant -/

/-- The page frame `x` belongs to the zone. -/
def Zone.Has (z : Zone) (x : Nat) : Prop := z.pagesGroup ≤ x ∧ x < z.pagesGroup + z.pagesCount

/-- What `InitMemory` fixes about zone `zi` and its pages. -/
structure ZoneLayout (m : MMS) (zi : Nat) : Prop where
  start : (m.zone zi).zoneStartAddr = (m.zone zi).pagesGroup * PAGE_4K_SIZE
  stop : (m.zone zi).zoneEndAddr
    = ((m.zone zi).pagesGroup + (m.zone zi).pagesCount) * PAGE_4K_SIZE
  small : (m.zone zi).pagesCount < 2 ^ 31
  zoneStruct : ∀ x, (m.zone zi).Has x → (m.page x).zoneStruct = some zi
  phyAddr : ∀ x, (m.zone zi).Has x → (m.page x).phyAddr = x * PAGE_4K_SIZE

/-- `reserved` as a number. -/
def Page.resv (p : Page) : Nat := if p.reserved then 1 else 0

/-- The invariant of zone `zi`. -/
structure ZoneInv (m : MMS) (out : Nat → Nat) (zi : Nat) : Prop where
  layout : ZoneLayout m zi
  areas : Areas (m.zone zi).pagesGroup ((m.zone zi).pagesGroup + (m.zone zi).pagesCount)
    (m.zone zi).freeArea
  split : ∀ x, (m.zone zi).Has x →
    cover MAX_ORDER (m.zone zi).freeArea.family x + (m.page x).resv + out x = 1
  refCount : ∀ x, (m.zone zi).Has x →
    (m.page x).refCount + cover MAX_ORDER (m.zone zi).freeArea.family x = 1
  free : (m.zone zi).pageFreeCount = weight MAX_ORDER (m.zone zi).freeArea.family
  total : (m.zone zi).pageFreeCount + (m.zone zi).pageUsingCount = (m.zone zi).pagesCount
  link : (m.zone zi).totalPagesLink = (m.zone zi).pageUsingCount

/-- The invariant of the allocator; `out` counts the blocks handed out at each page. -/
def MMS.Inv (m : MMS) (out : Nat → Nat) : Prop := ∀ zi < m.zonesCount, ZoneInv m out zi

/-- What no call of the allocator changes. -/
structure SameLayout (m m' : MMS) : Prop where
  pagesCount : m'.pagesCount = m.pagesCount
  zonesCount : m'.zonesCount = m.zonesCount
  zones : ∀ zi, (m'.zone zi).pagesGroup = (m.zone zi).pagesGroup ∧
    (m'.zone zi).pagesCount = (m.zone zi).pagesCount ∧
    (m'.zone zi).zoneStartAddr = (m.zone zi).zoneStartAddr ∧
    (m'.zone zi).zoneEndAddr = (m.zone zi).zoneEndAddr
  pages : ∀ x, (m'.page x).zoneStruct = (m.page x).zoneStruct ∧
    (m'.page x).phyAddr = (m.page x).phyAddr ∧ (m'.page x).reserved = (m.page x).reserved
  indices : m'.zoneDmaIndex = m.zoneDmaIndex ∧ m'.zoneNormalIndex = m.zoneNormalIndex ∧
    m'.zoneUnmapedIndex = m.zoneUnmapedIndex

theorem SameLayout.refl (m : MMS) : SameLayout m m :=
  ⟨rfl, rfl, fun _ => ⟨rfl, rfl, rfl, rfl⟩, fun _ => ⟨rfl, rfl, rfl⟩, rfl, rfl, rfl⟩

theorem SameLayout.trans {m₁ m₂ m₃ : MMS} (h : SameLayout m₁ m₂) (h' : SameLayout m₂ m₃) :
    SameLayout m₁ m₃ := by
  refine ⟨h'.pagesCount.trans h.pagesCount, h'.zonesCount.trans h.zonesCount, fun zi => ?_,
    fun x => ?_, ?_⟩
  · obtain ⟨a, b, c, d⟩ := h.zones zi
    obtain ⟨a', b', c', d'⟩ := h'.zones zi
    exact ⟨a'.trans a, b'.trans b, c'.trans c, d'.trans d⟩
  · obtain ⟨a, b, c⟩ := h.pages x
    obtain ⟨a', b', c'⟩ := h'.pages x
    exact ⟨a'.trans a, b'.trans b, c'.trans c⟩
  · obtain ⟨a, b, c⟩ := h.indices
    obtain ⟨a', b', c'⟩ := h'.indices
    exact ⟨a'.trans a, b'.trans b, c'.trans c⟩

theorem SameLayout.has {m m' : MMS} (h : SameLayout m m') (zi x : Nat) :
    (m'.zone zi).Has x ↔ (m.zone zi).Has x := by
  unfold Zone.Has
  rw [(h.zones zi).1, (h.zones zi).2.1]

theorem SameLayout.layout {m m' : MMS} (h : SameLayout m m') {zi : Nat} (hl : ZoneLayout m zi) :
    ZoneLayout m' zi := by
  obtain ⟨hg, hc, hs, he⟩ := h.zones zi
  refine ⟨by rw [hs, hg, hl.start], by rw [he, hg, hc, hl.stop], by rw [hc]; exact hl.small,
    fun x hx => ?_, fun x hx => ?_⟩
  · rw [(h.pages x).1]; exact hl.zoneStruct x ((h.has zi x).mp hx)
  · rw [(h.pages x).2.1]; exact hl.phyAddr x ((h.has zi x).mp hx)

section

variable {m : MMS} {out : Nat → Nat} {zi : Nat}

theorem ZoneInv.cover_le_one (h : ZoneInv m out zi) (x : Nat) :
    cover MAX_ORDER (m.zone zi).freeArea.family x ≤ 1 := by
  by_cases hx : (m.zone zi).Has x
  · have := h.split x hx; omega
  · -- a block that contains `x` lies inside the zone
    refine Nat.le_succ_of_le (Nat.le_of_eq ?_)
    by_contra hne
    obtain ⟨k, hk, p, hp, hm⟩ := cover_pos_iff.mp (Nat.pos_of_ne_zero hne)
    have hin := h.areas.wf.inside k hk p hp
    unfold Zone.Has at hx
    unfold Mem at hm
    omega

/-- A zone of which nothing has changed keeps its invariant. -/
theorem ZoneInv.frame (h : ZoneInv m out zi) {m' : MMS} {out' : Nat → Nat}
    (hl : SameLayout m m') (hz : m'.zone zi = m.zone zi)
    (hp : ∀ x, (m.zone zi).Has x → m'.page x = m.page x ∧ out' x = out x) :
    ZoneInv m' out' zi := by
  refine ⟨hl.layout h.layout, ?_, fun x hx => ?_, fun x hx => ?_, ?_, ?_, ?_⟩
  · rw [hz]; exact h.areas
  · rw [hz] at hx ⊢
    rw [(hp x hx).1, (hp x hx).2]; exact h.split x hx
  · rw [hz] at hx ⊢
    rw [(hp x hx).1]; exact h.refCount x hx
  · rw [hz]; exact h.free
  · rw [hz]; exact h.total
  · rw [hz]; exact h.link

/-- A page belongs to one zone only. -/
theorem MMS.Inv.zone_unique (h : m.Inv out) {zi zj x : Nat} (hi : zi < m.zonesCount)
    (hj : zj < m.zonesCount) (hx : (m.zone zi).Has x) (hx' : (m.zone zj).Has x) : zi = zj := by
  have h1 := (h zi hi).layout.zoneStruct x hx
  have h2 := (h zj hj).layout.zoneStruct x hx'
  rw [h1] at h2
  exact Option.some.inj h2

/-! ## Handing out and taking back a block -/

/-- Both bookkeeping functions: new free areas and counters for zone `zi`, and `f` applied to
the pages of the block of order `k` at `p`. -/
def account (m : MMS) (zi p k : Nat) (z : Zone) (f : Page → Page) : MMS :=
  (m.setZone zi z).mapPages p (2 ^ k) f

theorem account_zone_self (m : MMS) (zi p k : Nat) (z : Zone) (f : Page → Page) :
    (account m zi p k z f).zone zi = z := Function.update_self ..

theorem account_zone_ne (m : MMS) {zi zj : Nat} (h : zj ≠ zi) (p k : Nat) (z : Zone)
    (f : Page → Page) : (account m zi p k z f).zone zj = m.zone zj := Function.update_of_ne h ..

theorem account_page_mem (m : MMS) (zi : Nat) {p k x : Nat} (hx : Mem p k x) (z : Zone)
    (f : Page → Page) : (account m zi p k z f).page x = f (m.page x) := if_pos hx

theorem account_page_not_mem (m : MMS) (zi : Nat) {p k x : Nat} (hx : ¬ Mem p k x) (z : Zone)
    (f : Page → Page) : (account m zi p k z f).page x = m.page x := if_neg hx

/-- The zone after handing out a block of order `k`, `fa` being what is left on the lists. -/
def Zone.taken (z : Zone) (fa : FreeAreas) (k : Nat) : Zone :=
  { z with
    freeArea := fa
    pageFreeCount := sub64 z.pageFreeCount (2 ^ k)
    pageUsingCount := add64 z.pageUsingCount (2 ^ k)
    totalPagesLink := add64 z.totalPagesLink (2 ^ k) }

/-- The zone after taking back a block of order `k`. -/
def Zone.given (z : Zone) (fa : FreeAreas) (k : Nat) : Zone :=
  { z with
    freeArea := fa
    pageFreeCount := add64 z.pageFreeCount (2 ^ k)
    pageUsingCount := sub64 z.pageUsingCount (2 ^ k)
    totalPagesLink := sub64 z.totalPagesLink (2 ^ k) }

def Page.taken (flags : Nat) (p : Page) : Page :=
  { p with refCount := add64 p.refCount 1, attr := p.attr ||| flags }

def Page.given (p : Page) : Page := { p with refCount := sub64 p.refCount 1, attr := 0 }

theorem accountAlloc_eq (m : MMS) (zi p k flags : Nat) (fa : FreeAreas) :
    accountAlloc (m.setZone zi ((m.zone zi).withAreas fa)) zi p k flags
      = account m zi p k ((m.zone zi).taken fa k) (Page.taken flags) := by
  simp [accountAlloc, account, MMS.setZone, Zone.withAreas, Zone.taken]
  rfl

theorem accountFree_eq (m : MMS) (zi p k : Nat) (fa : FreeAreas) :
    accountFree (m.setZone zi ((m.zone zi).withAreas fa)) zi p k
      = account m zi p k ((m.zone zi).given fa k) Page.given := by
  simp [accountFree, account, MMS.setZone, Zone.withAreas, Zone.given]
  rfl

/-- The bookkeeping keeps the layout. -/
theorem sameLayout_account {z : Zone} {f : Page → Page} (zi p k : Nat)
    (hz : z.pagesGroup = (m.zone zi).pagesGroup ∧ z.pagesCount = (m.zone zi).pagesCount ∧
      z.zoneStartAddr = (m.zone zi).zoneStartAddr ∧ z.zoneEndAddr = (m.zone zi).zoneEndAddr)
    (hf : ∀ q, (f q).zoneStruct = q.zoneStruct ∧ (f q).phyAddr = q.phyAddr ∧
      (f q).reserved = q.reserved) : SameLayout m (account m zi p k z f) := by
  refine ⟨rfl, rfl, fun zj => ?_, fun x => ?_, rfl, rfl, rfl⟩
  · by_cases h : zj = zi
    · subst h; rw [account_zone_self]; exact hz
    · rw [account_zone_ne m h]; exact ⟨rfl, rfl, rfl, rfl⟩
  · by_cases h : Mem p k x
    · rw [account_page_mem m zi h]; exact hf _
    · rw [account_page_not_mem m zi h]; exact ⟨rfl, rfl, rfl⟩

/-- A block that covers a page of zone `zi` and lies inside it misses every other zone. -/
theorem MMS.Inv.not_mem_other (h : m.Inv out) (hi : zi < m.zonesCount) {p k zj x : Nat}
    (hin : ∀ x, Mem p k x → (m.zone zi).Has x) (hj : zj < m.zonesCount) (hne : zj ≠ zi)
    (hx : (m.zone zj).Has x) : ¬ Mem p k x :=
  fun hm => hne (h.zone_unique hj hi hx (hin x hm))

/-- Taking the free block of order `k` at `p` off the lists and accounting for it. -/
theorem MMS.Inv.take (h : m.Inv out) (hi : zi < m.zonesCount) {fa : FreeAreas} {p k : Nat}
    (flags : Nat)
    (ha : Areas (m.zone zi).pagesGroup ((m.zone zi).pagesGroup + (m.zone zi).pagesCount) fa)
    (hin : ∀ x, Mem p k x → (m.zone zi).Has x)
    (hc : ∀ x, cover MAX_ORDER fa.family x + ind p k x
      = cover MAX_ORDER (m.zone zi).freeArea.family x)
    (hw : weight MAX_ORDER fa.family + 2 ^ k = weight MAX_ORDER (m.zone zi).freeArea.family) :
    (account m zi p k ((m.zone zi).taken fa k) (Page.taken flags)).Inv
      (fun x => out x + ind p k x) := by
  set m' := account m zi p k ((m.zone zi).taken fa k) (Page.taken flags) with hm'
  have hl : SameLayout m m' :=
    sameLayout_account zi p k ⟨rfl, rfl, rfl, rfl⟩ (fun _ => ⟨rfl, rfl, rfl⟩)
  intro zj hj
  rw [hl.zonesCount] at hj
  by_cases hji : zj = zi
  · subst hji
    have hz := h zj hi
    have hzone : m'.zone zj = (m.zone zj).taken fa k := account_zone_self ..
    have hfree := hz.free
    have htot := hz.total
    have hlink := hz.link
    have hsmall := hz.layout.small
    refine ⟨hl.layout hz.layout, by rw [hzone]; exact ha, fun x hx => ?_, fun x hx => ?_, ?_, ?_, ?_⟩
    · have h1 := hz.split x ((hl.has zj x).mp hx)
      have h2 := hc x
      have h3 : (m'.page x).resv = (m.page x).resv := by
        unfold Page.resv; rw [(hl.pages x).2.2]
      rw [hzone, h3]
      simp only [Zone.taken]
      omega
    · have h1 := hz.refCount x ((hl.has zj x).mp hx)
      have h2 := hc x
      rw [hzone]
      simp only [Zone.taken]
      by_cases hm : Mem p k x
      · rw [ind_eq_one hm] at h2
        rw [hm', account_page_mem m zj hm]
        simp only [Page.taken]
        rw [add64_eq (by omega)]
        omega
      · rw [ind, if_neg hm] at h2
        rw [hm', account_page_not_mem m zj hm]
        omega
    · rw [hzone]
      simp only [Zone.taken]
      rw [sub64_eq (by omega) (by omega)]
      omega
    · rw [hzone]
      simp only [Zone.taken]
      rw [sub64_eq (by omega) (by omega), add64_eq (by omega)]
      omega
    · rw [hzone]
      simp only [Zone.taken]
      rw [hlink]
  · refine (h zj hj).frame hl (account_zone_ne m hji ..) (fun x hx => ?_)
    have hm := h.not_mem_other hi hin hj hji hx
    exact ⟨account_page_not_mem m zi hm .., by rw [ind, if_neg hm]; rfl⟩

/-- Putting the block of order `k` at `p` back on the lists and accounting for it. -/
theorem MMS.Inv.give (h : m.Inv out) (hi : zi < m.zonesCount) {fa : FreeAreas} {p k : Nat}
    (ha : Areas (m.zone zi).pagesGroup ((m.zone zi).pagesGroup + (m.zone zi).pagesCount) fa)
    (hin : ∀ x, Mem p k x → (m.zone zi).Has x)
    (hout : ∀ x, ind p k x ≤ out x)
    (hc : ∀ x, cover MAX_ORDER fa.family x
      = cover MAX_ORDER (m.zone zi).freeArea.family x + ind p k x)
    (hw : weight MAX_ORDER fa.family = weight MAX_ORDER (m.zone zi).freeArea.family + 2 ^ k) :
    (account m zi p k ((m.zone zi).given fa k) Page.given).Inv (fun x => out x - ind p k x) := by
  set m' := account m zi p k ((m.zone zi).given fa k) Page.given with hm'
  have hl : SameLayout m m' :=
    sameLayout_account zi p k ⟨rfl, rfl, rfl, rfl⟩ (fun _ => ⟨rfl, rfl, rfl⟩)
  intro zj hj
  rw [hl.zonesCount] at hj
  by_cases hji : zj = zi
  · subst hji
    have hz := h zj hi
    have hzone : m'.zone zj = (m.zone zj).given fa k := account_zone_self ..
    -- the counters stay in range: the free pages are pages of the zone
    have hle : weight MAX_ORDER fa.family ≤ (m.zone zj).pagesCount := by
      rw [weight_eq_sum_cover ha.wf.inside]
      refine le_trans (Finset.sum_le_card_nsmul _ _ 1 (fun x hx => ?_)) (by simp)
      have hx' : (m.zone zj).Has x := Finset.mem_Ico.mp hx
      have h1 := hz.split x hx'
      have h2 := hc x
      have h3 := hout x
      omega
    have hfree := hz.free
    have htot := hz.total
    have hlink := hz.link
    have hsmall := hz.layout.small
    refine ⟨hl.layout hz.layout, by rw [hzone]; exact ha, fun x hx => ?_, fun x hx => ?_, ?_, ?_, ?_⟩
    · have h1 := hz.split x ((hl.has zj x).mp hx)
      have h2 := hc x
      have h4 := hout x
      have h3 : (m'.page x).resv = (m.page x).resv := by
        unfold Page.resv; rw [(hl.pages x).2.2]
      rw [hzone, h3]
      simp only [Zone.given]
      omega
    · have hx' := (hl.has zj x).mp hx
      have h1 := hz.refCount x hx'
      have h2 := hc x
      have h3 := hz.split x hx'
      have h4 := hout x
      rw [hzone]
      simp only [Zone.given]
      by_cases hm : Mem p k x
      · rw [ind_eq_one hm] at h2 h4
        rw [hm', account_page_mem m zj hm]
        simp only [Page.given]
        rw [sub64_eq (by omega) (by omega)]
        omega
      · rw [ind, if_neg hm] at h2
        rw [hm', account_page_not_mem m zj hm]
        omega
    · rw [hzone]
      simp only [Zone.given]
      rw [add64_eq (by omega)]
      omega
    · rw [hzone]
      simp only [Zone.given]
      rw [sub64_eq (by omega) (by omega), add64_eq (by omega)]
      omega
    · rw [hzone]
      simp only [Zone.given]
      rw [hlink]
  · refine (h zj hj).frame hl (account_zone_ne m hji ..) (fun x hx => ?_)
    have hm := h.not_mem_other hi hin hj hji hx
    exact ⟨account_page_not_mem m zi hm .., by rw [ind, if_neg hm]; rfl⟩

/-! ## The calls -/

/-- The block of order `k` at `p`, free in zone `zi` of `m`, has been handed out in `m'`. -/
structure Handed (m m' : MMS) (out : Nat → Nat) (zi p k : Nat) : Prop where
  inv : m'.Inv (fun x => out x + ind p k x)
  layout : SameLayout m m'
  aligned : 2 ^ k ∣ p
  inside : ∀ x, Mem p k x → (m.zone zi).Has x
  free : ∀ x, Mem p k x → 0 < cover MAX_ORDER (m.zone zi).freeArea.family x

/-- `get_page_from_freelist` hands out a free block of the order asked for, unless the lists of
that order and of all larger ones are empty. -/
theorem freelistLoop_spec (h : m.Inv out) (hi : zi < m.zonesCount) {order : Nat} (flags : Nat) :
    ∀ (fuel i : Nat), order ≤ i → i + fuel = MAX_ORDER →
      (freelistLoop zi order flags fuel i m = some (m, none) ∧
        ∀ j, i ≤ j → j < MAX_ORDER → (m.zone zi).freeArea.family j = []) ∨
      ∃ m' p, freelistLoop zi order flags fuel i m = some (m', some p) ∧
        Handed m m' out zi p order := by
  have hz := h zi hi
  intro fuel
  induction fuel with
  | zero =>
      intro i _ hif
      exact Or.inl ⟨rfl, fun j hj hj' => by omega⟩
  | succ fuel ih =>
      intro i hoi hif
      have hiM : i < MAX_ORDER := by omega
      rw [freelistLoop]
      have hnr := hz.areas.nrFree i hiM
      by_cases hzero : ((m.zone zi).freeArea i).nrFree = 0
      · rw [if_pos hzero]
        rcases ih (i + 1) (by omega) (by omega) with ⟨he, hall⟩ | hsome
        · refine Or.inl ⟨he, fun j hj hj' => ?_⟩
          rcases Nat.eq_or_lt_of_le hj with rfl | hlt
          · exact List.eq_nil_of_length_eq_zero (hnr ▸ hzero)
          · exact hall j hlt hj'
        · exact Or.inr hsome
      · rw [if_neg hzero]
        right
        set fa := (m.zone zi).freeArea with hfa
        obtain ⟨p, rest, hlist⟩ : ∃ p rest, (fa i).freeList = p :: rest := by
          cases hl : (fa i).freeList with
          | nil => exact absurd (by rw [hnr, hl]; rfl) hzero
          | cons p rest => exact ⟨p, rest, rfl⟩
        have hmem : p ∈ fa.family i := by
          show p ∈ (fa i).freeList
          simp [hlist]
        have hheld := hz.areas.held_of_mem (fun x => hz.cover_le_one x) hiM hmem
        obtain ⟨fa', hs, hhd, ha', hh', hc', hw'⟩ := splitBuddy_spec i fa p hoi
          (by rw [hlist]; rfl) (hz.areas.removeFree hiM hmem) hheld
        obtain ⟨rest', hlist'⟩ : ∃ rest', (fa' order).freeList = p :: rest' := by
          cases hl : (fa' order).freeList with
          | nil => simp [hl] at hhd
          | cons q t => simp [hl] at hhd; exact ⟨t, by rw [hhd]⟩
        have hin : ∀ x, Mem p order x → (m.zone zi).Has x := by
          intro x hx
          have h1 := hh'.lower
          have h2 := hh'.upper
          unfold Mem at hx
          unfold Zone.Has
          omega
        have hzs : (m.page p).zoneStruct = some zi :=
          hz.layout.zoneStruct p (hin p (mem_self p order))
        have hcov : ∀ x, cover MAX_ORDER (fa'.removeFree order p).family x + ind p order x
            = cover MAX_ORDER fa.family x := by
          intro x
          rw [hc' x, family_removeFree, cover_remove hiM hmem]
        have hwt : weight MAX_ORDER (fa'.removeFree order p).family + 2 ^ order
            = weight MAX_ORDER fa.family := by
          rw [hw', family_removeFree, weight_remove hiM hmem]
        refine ⟨account m zi p order ((m.zone zi).taken (fa'.removeFree order p) order)
          (Page.taken flags), p, ?_, ?_⟩
        · rw [hs]
          simp only [hlist']
          rw [show ((m.setZone zi ((m.zone zi).withAreas (fa'.removeFree order p))).page p).zoneStruct
            = some zi from hzs]
          simp only [accountAlloc_eq]
        · refine ⟨h.take hi flags ha' hin hcov hwt,
            sameLayout_account zi p order ⟨rfl, rfl, rfl, rfl⟩ (fun _ => ⟨rfl, rfl, rfl⟩),
            hh'.aligned, hin, fun x hx => ?_⟩
          have hpos := hcov x
          rw [ind_eq_one hx] at hpos
          show 0 < cover MAX_ORDER fa.family x
          omega

/-- The zone loop of `alloc_pages`. -/
theorem allocLoop_spec (h : m.Inv out) (selector : Int) {order : Nat} (ho : order < MAX_ORDER)
    (attr : Nat) :
    ∀ (fuel zj : Nat), zj + fuel = m.zonesCount →
      (allocLoop selector order attr fuel zj m = some (m, none) ∧
        ∀ zi, zj ≤ zi → zi < m.zonesCount → isThisZone m zi selector = true →
          ∀ j, order ≤ j → j < MAX_ORDER → (m.zone zi).freeArea.family j = []) ∨
      ∃ m' p zi, zi < m.zonesCount ∧ isThisZone m zi selector = true ∧
        allocLoop selector order attr fuel zj m = some (m', some p) ∧
        Handed m m' out zi p order := by
  intro fuel
  induction fuel with
  | zero =>
      intro zj hzj
      exact Or.inl ⟨rfl, fun zi h1 h2 => by omega⟩
  | succ fuel ih =>
      intro zj hzj
      rw [allocLoop]
      by_cases hsel : isThisZone m zj selector = true
      · rw [if_pos hsel]
        rcases freelistLoop_spec h (show zj < _ by omega) (signExtend32 attr) (MAX_ORDER - order)
          order le_rfl (by omega) with ⟨he, hall⟩ | ⟨m', p, he, hh⟩
        · simp only [allocPagesZone, getPageFromFreelist, he]
          rcases ih (zj + 1) (by omega) with ⟨he', hall'⟩ | hsome
          · refine Or.inl ⟨he', fun zi hzi hlt hs => ?_⟩
            rcases Nat.eq_or_lt_of_le hzi with rfl | hlt'
            · exact hall
            · exact hall' zi hlt' hlt hs
          · exact Or.inr hsome
        · refine Or.inr ⟨m', p, zj, by omega, hsel, ?_, hh⟩
          simp only [allocPagesZone, getPageFromFreelist, he]
      · rw [if_neg hsel]
        rcases ih (zj + 1) (by omega) with ⟨he', hall'⟩ | hsome
        · refine Or.inl ⟨he', fun zi hzi hlt hs => ?_⟩
          rcases Nat.eq_or_lt_of_le hzi with rfl | hlt'
          · exact absurd hs hsel
          · exact hall' zi hlt' hlt hs
        · exact Or.inr hsome

/-- **`alloc_pages`.** It hands out a free block of order `get_order(number)` of the selected
zone, or returns `NULL` and changes nothing; then no zone it may use has such a block. -/
theorem allocPages_spec (h : m.Inv out) (selector : Int) (number pageAttr : Nat) :
    (allocPages m selector number pageAttr = some (m, none) ∧
      (getOrder number < MAX_ORDER → ∀ zi < m.zonesCount, isThisZone m zi selector = true →
        ∀ j, getOrder number ≤ j → j < MAX_ORDER → (m.zone zi).freeArea.family j = [])) ∨
    ∃ m' p zi, zi < m.zonesCount ∧ isThisZone m zi selector = true ∧
      getOrder number < MAX_ORDER ∧ allocPages m selector number pageAttr = some (m', some p) ∧
      Handed m m' out zi p (getOrder number) := by
  unfold allocPages
  by_cases ho : MAX_ORDER ≤ getOrder number
  · rw [if_pos ho]
    exact Or.inl ⟨rfl, fun hlt => absurd ho (by omega)⟩
  · rw [if_neg ho]
    rcases allocLoop_spec h selector (Nat.lt_of_not_le ho)
      (if selector = ZONE_UNMAPED_INDEX then pageAttr else pageAttr ||| PG_PTABLE_MAPPED)
      m.zonesCount 0 (by omega) with ⟨he, hall⟩ | ⟨m', p, zi, hzi, hsel, he, hh⟩
    · exact Or.inl ⟨he, fun _ zi hzi => hall zi (Nat.zero_le zi) hzi⟩
    · exact Or.inr ⟨m', p, zi, hzi, hsel, by omega, he, hh⟩

/-- A block of 2 MiB is one of the largest order but one. -/
theorem getOrder_block : getOrder (1 * 2 ^ 9) = 9 := by decide

theorem getOrder_page : getOrder 1 = 0 := by decide

/-- A call that has returned a block. -/
theorem allocPages_some (h : m.Inv out) {selector : Int} {number pageAttr p : Nat} {m' : MMS}
    (he : allocPages m selector number pageAttr = some (m', some p)) :
    ∃ zi < m.zonesCount, getOrder number < MAX_ORDER ∧
      Handed m m' out zi p (getOrder number) := by
  rcases allocPages_spec h selector number pageAttr with
    ⟨he', -⟩ | ⟨m₁, q, zi, hi, -, ho, he', hh⟩
  · exact absurd (he.symm.trans he') (by simp)
  · obtain ⟨rfl, hq⟩ := Prod.mk.inj (Option.some.inj (he.symm.trans he'))
    obtain rfl := Option.some.inj hq
    exact ⟨zi, hi, ho, hh⟩

/-- A call that has returned `NULL` has changed nothing. -/
theorem allocPages_none (h : m.Inv out) {selector : Int} {number pageAttr : Nat} {m' : MMS}
    (he : allocPages m selector number pageAttr = some (m', none)) : m' = m := by
  rcases allocPages_spec h selector number pageAttr with ⟨he', -⟩ | ⟨m₁, q, -, -, -, -, he', -⟩
  · exact (Prod.mk.inj (Option.some.inj (he.symm.trans he'))).1
  · exact absurd (he.symm.trans he') (by simp)

/-- **`AllocPage`** of one block of 2 MiB. -/
theorem allocPage_spec (h : m.Inv out) (selector : Int) (pageAttr : Nat) :
    allocPage m selector 1 pageAttr = some (m, none) ∨
    ∃ m' p zi, zi < m.zonesCount ∧ allocPage m selector 1 pageAttr = some (m', some p) ∧
      Handed m m' out zi p 9 := by
  rcases allocPages_spec h selector (1 * 2 ^ 9) pageAttr with
    ⟨he, -⟩ | ⟨m', p, zi, hi, -, -, he, hh⟩
  · exact Or.inl he
  · rw [getOrder_block] at hh
    exact Or.inr ⟨m', p, zi, hi, he, hh⟩

theorem allocPage_some (h : m.Inv out) {selector : Int} {pageAttr p : Nat} {m' : MMS}
    (he : allocPage m selector 1 pageAttr = some (m', some p)) :
    ∃ zi < m.zonesCount, Handed m m' out zi p 9 := by
  obtain ⟨zi, hi, -, hh⟩ := allocPages_some h he
  rw [getOrder_block] at hh
  exact ⟨zi, hi, hh⟩

/-- **`AllocPage4K`** of one page. -/
theorem allocPage4K_spec (h : m.Inv out) (selector : Int) (pageAttr : Nat) :
    allocPage4K m selector 1 pageAttr = some (m, none) ∨
    ∃ m' p zi, zi < m.zonesCount ∧ allocPage4K m selector 1 pageAttr = some (m', some p) ∧
      Handed m m' out zi p 0 := by
  rcases allocPages_spec h selector 1 pageAttr with ⟨he, -⟩ | ⟨m', p, zi, hi, -, -, he, hh⟩
  · exact Or.inl he
  · rw [getOrder_page] at hh
    exact Or.inr ⟨m', p, zi, hi, he, hh⟩

/-- Where an aligned block of the order asked for is free in the zone selected, `alloc_pages`
returns a block. -/
theorem allocPages_of_free (h : m.Inv out) {selector : Int} {number : Nat} (pageAttr : Nat)
    (ho : getOrder number < MAX_ORDER) (hi : zi < m.zonesCount)
    (hsel : isThisZone m zi selector = true) {p : Nat} (ha : 2 ^ getOrder number ∣ p)
    (hfree : ∀ x, Mem p (getOrder number) x →
      (m.zone zi).Has x ∧ (m.page x).reserved = false ∧ out x = 0) :
    ∃ m' q zj, zj < m.zonesCount ∧ allocPages m selector number pageAttr = some (m', some q) ∧
      Handed m m' out zj q (getOrder number) := by
  have hcov : ∀ x, Mem p (getOrder number) x →
      0 < cover MAX_ORDER (m.zone zi).freeArea.family x := by
    intro x hx
    obtain ⟨h1, h2, h3⟩ := hfree x hx
    have hsplit := (h zi hi).split x h1
    rw [Page.resv, h2, h3] at hsplit
    simp only [Bool.false_eq_true, if_false] at hsplit
    omega
  rcases allocPages_spec h selector number pageAttr with
    ⟨-, hnone⟩ | ⟨m', q, zj, hj, -, -, he, hh⟩
  · obtain ⟨j, hj, q, hq, hle, -⟩ := exists_containing (h zi hi).areas.wf _ p ho ha hcov
    rw [hnone ho zi hi hsel j hle hj] at hq
    exact absurd hq (by simp)
  · exact ⟨m', q, zj, hj, he, hh⟩

theorem page4KIndex_mul (n : Nat) : page4KIndex (n * PAGE_4K_SIZE) = n :=
  Nat.mul_div_cancel n (Nat.two_pow_pos _)

/-- `__free_pages_core` on a page of a zone whose layout is known. -/
theorem freePagesCore_eq {m : MMS} {zi p : Nat} (hl : ZoneLayout m zi) (hp : (m.zone zi).Has p)
    (k : Nat) :
    freePagesCore m p k = some (m.setZone zi ((m.zone zi).withAreas
      ((mergeLoop (m.zone zi).pagesGroup ((m.zone zi).pagesGroup + (m.zone zi).pagesCount)
          (MAX_ORDER - 1 - k) p k (m.zone zi).freeArea).1.pushFree
        (mergeLoop (m.zone zi).pagesGroup ((m.zone zi).pagesGroup + (m.zone zi).pagesCount)
          (MAX_ORDER - 1 - k) p k (m.zone zi).freeArea).2.2
        (mergeLoop (m.zone zi).pagesGroup ((m.zone zi).pagesGroup + (m.zone zi).pagesCount)
          (MAX_ORDER - 1 - k) p k (m.zone zi).freeArea).2.1))) := by
  unfold freePagesCore
  rw [hl.zoneStruct p hp]
  simp only [hl.start, hl.stop, hl.phyAddr p hp, page4KIndex_mul]

/-- **`free_pages`.** A block that is handed out goes back to the free lists. -/
theorem freePages_spec (h : m.Inv out) (hi : zi < m.zonesCount) {p number : Nat}
    (ho : getOrder number < MAX_ORDER) (ha : 2 ^ getOrder number ∣ p)
    (hin : ∀ x, Mem p (getOrder number) x → (m.zone zi).Has x)
    (hout : ∀ x, ind p (getOrder number) x ≤ out x) :
    ∃ m', freePages m p number = some (m', true) ∧ SameLayout m m' ∧
      m'.Inv (fun x => out x - ind p (getOrder number) x) := by
  set k := getOrder number with hk
  have hz := h zi hi
  have hself := hin p (mem_self p k)
  have hheld : Held (m.zone zi).pagesGroup ((m.zone zi).pagesGroup + (m.zone zi).pagesCount)
      (m.zone zi).freeArea p k := by
    have hpos := Nat.two_pow_pos k
    have hlast := hin (p + 2 ^ k - 1) ⟨by omega, by omega⟩
    unfold Zone.Has at hself hlast
    refine ⟨ho, ha, hself.1, by omega, fun x => ?_, ?_⟩
    · by_cases hx : Mem p k x
      · have h1 := hz.split x (hin x hx)
        have h2 := hout x
        omega
      · rw [ind, if_neg hx]
        exact hz.cover_le_one x
    · have h1 := hz.free
      have h2 := hz.total
      have h3 := hz.layout.small
      omega
  set r := mergeLoop (m.zone zi).pagesGroup ((m.zone zi).pagesGroup + (m.zone zi).pagesCount)
    (MAX_ORDER - 1 - k) p k (m.zone zi).freeArea with hr
  obtain ⟨ha', hc', hw'⟩ := merge_pushFree_spec ho hz.areas hheld hr.symm rfl
  refine ⟨account m zi p k ((m.zone zi).given (r.1.pushFree r.2.2 r.2.1) k) Page.given, ?_,
    sameLayout_account zi p k ⟨rfl, rfl, rfl, rfl⟩ (fun _ => ⟨rfl, rfl, rfl⟩),
    h.give hi ha' hin hout hc' hw'⟩
  unfold freePages freePagesOrder
  rw [← hk, if_neg (by omega), freePagesCore_eq hz.layout hself, hz.layout.zoneStruct p hself,
    ← hr]
  simp only [accountFree_eq, Option.map_some]

end

end Talios
