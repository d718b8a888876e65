import Talios.Memory.BuddyInit

set_option autoImplicit false

/-! # Runs of the page allocator

A run starts in the state `init_buddy_system` builds and makes calls of `alloc_pages`, with any
arguments, and of `free_pages`, each on a block handed out before with the same number of pages
and not freed since. The two results are about every state a run can reach: the free lists, the
blocks handed out and the counters agree, and the free lists are a function of the set of free
pages.
-/

namespace Talios

open Word Dyadic

/-! ## Runs -/

/-- A block handed out: its first page, and the number of pages asked for. -/
structure Block where
  page : Nat
  number : Nat
deriving DecidableEq

/-- The block has `2 ^ order` pages. -/
def Block.order (b : Block) : Nat := getOrder b.number

/-- The page frame `x` belongs to the block. -/
def Block.Has (b : Block) (x : Nat) : Prop := Mem b.page b.order x

/-- The memory manager and the blocks handed out and not freed since. -/
structure BuddyState where
  mms : MMS
  live : List Block

/-- One call that returned. -/
inductive BuddyStep : BuddyState → BuddyState → Prop
  | alloc {s : BuddyState} {m' : MMS} {p : Nat} (selector : Int) (number pageAttr : Nat)
      (h : allocPages s.mms selector number pageAttr = some (m', some p)) :
      BuddyStep s ⟨m', ⟨p, number⟩ :: s.live⟩
  | allocNull {s : BuddyState} {m' : MMS} (selector : Int) (number pageAttr : Nat)
      (h : allocPages s.mms selector number pageAttr = some (m', none)) :
      BuddyStep s ⟨m', s.live⟩
  | free {s : BuddyState} {m' : MMS} {ok : Bool} (b : Block) (hb : b ∈ s.live)
      (h : freePages s.mms b.page b.number = some (m', ok)) :
      BuddyStep s ⟨m', s.live.erase b⟩

/-- The states a run can reach from what `init_buddy_system` builds for a memory map and the
reservations made before. -/
inductive BuddyReachable (map : MemoryMap) (rs : List Reservation) : BuddyState → Prop
  | boot {m : MMS} (h : bootMMS map rs = some m) : BuddyReachable map rs ⟨m, []⟩
  | step {s s' : BuddyState} (h : BuddyReachable map rs s) (hs : BuddyStep s s') :
      BuddyReachable map rs s'

/-! ## The invariant of a run -/

/-- The number of blocks handed out that `x` belongs to. -/
def liveCover (live : List Block) (x : Nat) : Nat :=
  live.countP (fun b => decide (Mem b.page b.order x))

theorem liveCover_cons (b : Block) (live : List Block) (x : Nat) :
    liveCover (b :: live) x = liveCover live x + ind b.page b.order x := by
  unfold liveCover ind
  rw [List.countP_cons]
  simp only [decide_eq_true_eq]

theorem liveCover_erase {b : Block} {live : List Block} (hb : b ∈ live) (x : Nat) :
    liveCover (live.erase b) x + ind b.page b.order x = liveCover live x := by
  rw [← liveCover_cons]
  exact ((List.perm_cons_erase hb).countP_eq _).symm

theorem liveCover_pos_iff {live : List Block} {x : Nat} :
    0 < liveCover live x ↔ ∃ b ∈ live, b.Has x := by
  simp [liveCover, List.countP_pos_iff, Block.Has]

/-- Where a page is handed out at most once, two blocks handed out do not meet. -/
theorem pairwise_of_liveCover_le_one {live : List Block} (h : ∀ x, liveCover live x ≤ 1) :
    live.Pairwise (fun b c => ∀ x, ¬ (b.Has x ∧ c.Has x)) := by
  induction live with
  | nil => exact List.Pairwise.nil
  | cons b live ih =>
      refine List.Pairwise.cons (fun c hc x hx => ?_) (ih (fun x => ?_))
      · have h1 := h x
        have h2 := liveCover_pos_iff.mpr ⟨c, hc, hx.2⟩
        rw [liveCover_cons, ind_eq_one hx.1] at h1
        omega
      · have h1 := h x
        rw [liveCover_cons] at h1
        omega

/-- The invariant of a run; `m₀` is the memory manager before `init_buddy_system`. -/
structure BuddyInv (m₀ : MMS) (s : BuddyState) : Prop where
  inv : s.mms.Inv (liveCover s.live)
  layout : SameLayout m₀ s.mms
  order : ∀ b ∈ s.live, b.order < MAX_ORDER
  aligned : ∀ b ∈ s.live, 2 ^ b.order ∣ b.page
  inside : ∀ b ∈ s.live, ∃ zi < m₀.zonesCount, ∀ x, b.Has x → (m₀.zone zi).Has x

section

variable {m₀ : MMS} {s : BuddyState}

theorem buddyInv_boot {map : MemoryMap} {rs : List Reservation} {m : MMS}
    (h : bootMMS map rs = some m) : BuddyInv (reservedMMS map rs) ⟨m, []⟩ := by
  obtain ⟨m', he, hl, hinv⟩ := initBuddySystem_spec (counted_reservedMMS map rs)
  obtain rfl : m = m' := Option.some.inj (h.symm.trans he)
  exact ⟨hinv, hl, by simp, by simp, by simp⟩

/-- A call of `alloc_pages` that returns a block. -/
theorem BuddyInv.alloc (h : BuddyInv m₀ s) {m' : MMS} {p number zi : Nat}
    (hi : zi < s.mms.zonesCount) (ho : getOrder number < MAX_ORDER)
    (hh : Handed s.mms m' (liveCover s.live) zi p (getOrder number)) :
    BuddyInv m₀ ⟨m', ⟨p, number⟩ :: s.live⟩ := by
  refine ⟨?_, h.layout.trans hh.layout, ?_, ?_, ?_⟩
  · rw [show liveCover (⟨p, number⟩ :: s.live)
        = fun x => liveCover s.live x + ind p (getOrder number) x from funext (liveCover_cons _ _)]
    exact hh.inv
  · exact List.forall_mem_cons.mpr ⟨ho, h.order⟩
  · exact List.forall_mem_cons.mpr ⟨hh.aligned, h.aligned⟩
  · refine List.forall_mem_cons.mpr ⟨⟨zi, ?_, fun x hx => ?_⟩, h.inside⟩
    · rw [← h.layout.zonesCount]; exact hi
    · exact (h.layout.has zi x).mp (hh.inside x hx)

/-- `free_pages` of a block handed out returns, and keeps the invariant. -/
theorem BuddyInv.free (h : BuddyInv m₀ s) {b : Block} (hb : b ∈ s.live) :
    ∃ m', freePages s.mms b.page b.number = some (m', true) ∧
      BuddyInv m₀ ⟨m', s.live.erase b⟩ := by
  obtain ⟨zi, hi, hin⟩ := h.inside b hb
  have hout : ∀ x, ind b.page (getOrder b.number) x ≤ liveCover s.live x := by
    intro x
    have := liveCover_erase hb x
    unfold Block.order at this
    omega
  obtain ⟨m', he, hl, hinv⟩ := freePages_spec h.inv (by rw [h.layout.zonesCount]; exact hi)
    (h.order b hb) (h.aligned b hb) (fun x hx => (h.layout.has zi x).mpr (hin x hx)) hout
  refine ⟨m', he, ?_, h.layout.trans hl, ?_, ?_, ?_⟩
  · rw [show liveCover (s.live.erase b)
        = fun x => liveCover s.live x - ind b.page (getOrder b.number) x from funext (fun x => by
          have := liveCover_erase hb x
          unfold Block.order at this
          omega)]
    exact hinv
  · exact fun c hc => h.order c (List.mem_of_mem_erase hc)
  · exact fun c hc => h.aligned c (List.mem_of_mem_erase hc)
  · exact fun c hc => h.inside c (List.mem_of_mem_erase hc)

theorem BuddyInv.step (h : BuddyInv m₀ s) {s' : BuddyState} (hs : BuddyStep s s') :
    BuddyInv m₀ s' := by
  cases hs with
  | alloc selector number pageAttr he =>
      obtain ⟨zi, hi, ho, hh⟩ := allocPages_some h.inv he
      exact h.alloc hi ho hh
  | allocNull selector number pageAttr he =>
      obtain rfl := allocPages_none h.inv he
      exact h
  | free b hb he =>
      obtain ⟨m₁, he', hinv⟩ := h.free hb
      rw [he] at he'
      obtain ⟨rfl, -⟩ := Prod.mk.inj (Option.some.inj he')
      exact hinv

end

theorem BuddyReachable.inv {map : MemoryMap} {rs : List Reservation} {s : BuddyState}
    (h : BuddyReachable map rs s) : BuddyInv (reservedMMS map rs) s := by
  induction h with
  | boot h => exact buddyInv_boot h
  | step _ hs ih => exact ih.step hs

/-! ## The free lists, the blocks handed out and the counters agree -/

/-- The free list of order `k` of the zone. -/
abbrev Zone.freeList (z : Zone) (k : Nat) : List Nat := (z.freeArea k).freeList

/-- Zone `zi` is consistent with the blocks handed out. -/
structure ZoneConsistent (s : BuddyState) (zi : Nat) : Prop where
  aligned : ∀ k < MAX_ORDER, ∀ p ∈ (s.mms.zone zi).freeList k, 2 ^ k ∣ p
  inside : ∀ k < MAX_ORDER, ∀ p ∈ (s.mms.zone zi).freeList k, ∀ x, Mem p k x →
    (s.mms.zone zi).Has x
  nodup : ∀ k < MAX_ORDER, ((s.mms.zone zi).freeList k).Nodup
  disjoint : ∀ k < MAX_ORDER, ∀ p ∈ (s.mms.zone zi).freeList k,
    ∀ j < MAX_ORDER, ∀ q ∈ (s.mms.zone zi).freeList j, (p, k) ≠ (q, j) →
      ∀ x, ¬ (Mem p k x ∧ Mem q j x)
  notReserved : ∀ k < MAX_ORDER, ∀ p ∈ (s.mms.zone zi).freeList k, ∀ x, Mem p k x →
    (s.mms.page x).reserved = false
  notLive : ∀ k < MAX_ORDER, ∀ p ∈ (s.mms.zone zi).freeList k, ∀ b ∈ s.live,
    ∀ x, ¬ (Mem p k x ∧ b.Has x)
  nrFree : ∀ k < MAX_ORDER,
    ((s.mms.zone zi).freeArea k).nrFree = ((s.mms.zone zi).freeList k).length
  coalesced : ∀ k < MAX_ORDER - 1, ∀ p ∈ (s.mms.zone zi).freeList k,
    buddy p k ∉ (s.mms.zone zi).freeList k
  freeCount : (s.mms.zone zi).pageFreeCount
    = ∑ k ∈ Finset.range MAX_ORDER, ((s.mms.zone zi).freeArea k).nrFree * 2 ^ k
  total : (s.mms.zone zi).pageFreeCount + (s.mms.zone zi).pageUsingCount
    = (s.mms.zone zi).pagesCount
  link : (s.mms.zone zi).totalPagesLink
    = ∑ i ∈ Finset.range (s.mms.zone zi).pagesCount,
        (s.mms.page ((s.mms.zone zi).pagesGroup + i)).refCount

section

variable {m : MMS} {out : Nat → Nat} {zi k p x : Nat}

/-- A page of a free block belongs to the zone and is neither reserved nor handed out. -/
theorem ZoneInv.free_page (h : ZoneInv m out zi) (hk : k < MAX_ORDER)
    (hp : p ∈ (m.zone zi).freeList k) (hx : Mem p k x) :
    (m.zone zi).Has x ∧ (m.page x).reserved = false ∧ out x = 0 := by
  have hin := h.areas.wf.inside k hk p hp
  have hhas : (m.zone zi).Has x := by
    unfold Mem at hx
    exact ⟨by omega, by omega⟩
  have hpos : 0 < cover MAX_ORDER (m.zone zi).freeArea.family x :=
    cover_pos_iff.mpr ⟨k, hk, p, hp, hx⟩
  have hsplit := h.split x hhas
  refine ⟨hhas, ?_, by omega⟩
  by_contra hr
  rw [Page.resv, if_pos (by simpa using hr)] at hsplit
  omega

/-- `TotalPagesLink` counts the pages that are not free, each of which has `RefCount` 1. -/
theorem ZoneInv.link_eq_sum (h : ZoneInv m out zi) :
    (m.zone zi).totalPagesLink
      = ∑ x ∈ Finset.Ico (m.zone zi).pagesGroup ((m.zone zi).pagesGroup + (m.zone zi).pagesCount),
          (m.page x).refCount := by
  have hsum : ∑ x ∈ Finset.Ico (m.zone zi).pagesGroup
        ((m.zone zi).pagesGroup + (m.zone zi).pagesCount), (m.page x).refCount
      + weight MAX_ORDER (m.zone zi).freeArea.family = (m.zone zi).pagesCount := by
    rw [weight_eq_sum_cover h.areas.wf.inside, ← Finset.sum_add_distrib,
      Finset.sum_congr rfl (fun x hx => h.refCount x (Finset.mem_Ico.mp hx))]
    simp
  have h1 := h.free
  have h2 := h.total
  have h3 := h.link
  omega

end

theorem BuddyInv.consistent {m₀ : MMS} {s : BuddyState} (h : BuddyInv m₀ s) {zi : Nat}
    (hi : zi < s.mms.zonesCount) : ZoneConsistent s zi where
  aligned := (h.inv zi hi).areas.wf.aligned
  inside k hk p hp x hx := ((h.inv zi hi).free_page hk hp hx).1
  nodup k hk := nodup_of_cover_le_one (h.inv zi hi).cover_le_one hk
  disjoint k hk p hp j hj q hq hne x hx := by
    obtain ⟨rfl, rfl⟩ := eq_of_cover_le_one ((h.inv zi hi).cover_le_one x) hk hj hp hq hx.1 hx.2
    exact hne rfl
  notReserved k hk p hp x hx := ((h.inv zi hi).free_page hk hp hx).2.1
  notLive k hk p hp b hb x hx := by
    have h0 := ((h.inv zi hi).free_page hk hp hx.1).2.2
    have h1 := liveCover_pos_iff.mpr ⟨b, hb, hx.2⟩
    omega
  nrFree := (h.inv zi hi).areas.nrFree
  coalesced k hk := (h.inv zi hi).areas.wf.lonely k (by omega)
  freeCount := by
    rw [(h.inv zi hi).free]
    exact Finset.sum_congr rfl (fun k hk => by
      rw [(h.inv zi hi).areas.nrFree k (Finset.mem_range.mp hk)]; rfl)
  total := (h.inv zi hi).total
  link := by
    rw [(h.inv zi hi).link_eq_sum, Finset.sum_Ico_eq_sum_range, Nat.add_sub_cancel_left]

theorem BuddyInv.live_disjoint {m₀ : MMS} {s : BuddyState} (h : BuddyInv m₀ s) :
    s.live.Pairwise (fun b c => ∀ x, ¬ (b.Has x ∧ c.Has x)) := by
  refine pairwise_of_liveCover_le_one (fun x => ?_)
  by_contra hx
  obtain ⟨b, hb, hbx⟩ := liveCover_pos_iff.mp (show 0 < liveCover s.live x by omega)
  obtain ⟨zi, hi, hin⟩ := h.inside b hb
  have := (h.inv zi (by rw [h.layout.zonesCount]; exact hi)).split x
    ((h.layout.has zi x).mpr (hin x hbx))
  omega

/-- **Allocator invariant.** In every state a run reaches, every zone is consistent with the
blocks handed out, these do not meet, and the next call returns. -/
theorem buddy_consistent {map : MemoryMap} {rs : List Reservation} {s : BuddyState}
    (h : BuddyReachable map rs s) :
    (∀ zi < s.mms.zonesCount, ZoneConsistent s zi) ∧
    s.live.Pairwise (fun b c => ∀ x, ¬ (b.Has x ∧ c.Has x)) ∧
    (∀ selector number pageAttr, ∃ s', BuddyStep s s' ∧
      (allocPages s.mms selector number pageAttr).map Prod.fst = some s'.mms) ∧
    (∀ b ∈ s.live, ∃ m', freePages s.mms b.page b.number = some (m', true)) := by
  have hinv := h.inv
  refine ⟨fun zi hi => hinv.consistent hi, hinv.live_disjoint, fun selector number pageAttr => ?_,
    fun b hb => ?_⟩
  · rcases allocPages_spec hinv.inv selector number pageAttr with
      ⟨he, -⟩ | ⟨m', p, zi, -, -, -, he, -⟩
    · exact ⟨_, BuddyStep.allocNull selector number pageAttr he, by rw [he]; rfl⟩
    · exact ⟨_, BuddyStep.alloc selector number pageAttr he, by rw [he]; rfl⟩
  · obtain ⟨m', he, -⟩ := hinv.free hb
    exact ⟨m', he⟩

/-- A small machine: a DMA zone of 15 pages and a normal zone of 32 pages that does not start
at a multiple of its size. -/
def smallMap : MemoryMap where
  ranges := [(0x1000, 0x10000), (0x15000, 0x35000)]
  pagesCount := 64
  zoneUnmapedIndex := 0
  aligned := by decide
  nonempty := by decide
  disjoint := by decide
  small := by decide
  below := by decide
  pagesCount_lt := by decide

/-- The state after `alloc_pages(ZONE_NORMAL_INDEX, 3, 0)` on the small machine. -/
theorem smallMap_reachable : ∃ s, BuddyReachable smallMap [⟨0x18000, 0x19000, 0⟩] s ∧
    s.live = [⟨48, 3⟩] := by
  have hrun : ((bootMMS smallMap [⟨0x18000, 0x19000, 0⟩]).bind
      (fun m => (allocPages m ZONE_NORMAL_INDEX 3 0).map Prod.snd)) = some (some 48) := by
    decide +kernel
  obtain ⟨m, hm, hrun⟩ := Option.bind_eq_some_iff.mp hrun
  obtain ⟨⟨m', p⟩, ha, rfl⟩ := Option.map_eq_some_iff.mp hrun
  exact ⟨_, (BuddyReachable.boot hm).step (BuddyStep.alloc _ 3 _ ha), rfl⟩

theorem buddy_consistent_smallMap : ∃ s, BuddyReachable smallMap [⟨0x18000, 0x19000, 0⟩] s ∧
    s.live = [⟨48, 3⟩] ∧ ∀ zi < s.mms.zonesCount, ZoneConsistent s zi := by
  obtain ⟨s, hs, hl⟩ := smallMap_reachable
  exact ⟨s, hs, hl, (buddy_consistent hs).1⟩

/-! ## The free lists are a function of the free pages -/

/-- The page `x` of zone `zi` is free: neither reserved nor in a block handed out. -/
def BuddyState.FreePage (s : BuddyState) (zi x : Nat) : Prop :=
  (s.mms.zone zi).Has x ∧ (s.mms.page x).reserved = false ∧ ∀ b ∈ s.live, ¬ b.Has x

/-- The lists cover exactly the free pages. -/
theorem BuddyInv.cover_pos_iff_freePage {m₀ : MMS} {s : BuddyState} (h : BuddyInv m₀ s) {zi : Nat}
    (hi : zi < s.mms.zonesCount) (x : Nat) :
    0 < cover MAX_ORDER (s.mms.zone zi).freeArea.family x ↔ s.FreePage zi x := by
  have hz := h.inv zi hi
  constructor
  · intro hpos
    obtain ⟨k, hk, p, hp, hx⟩ := cover_pos_iff.mp hpos
    obtain ⟨h1, h2, h3⟩ := hz.free_page hk hp hx
    refine ⟨h1, h2, fun b hb hbx => ?_⟩
    have := liveCover_pos_iff.mpr ⟨b, hb, hbx⟩
    omega
  · rintro ⟨h1, h2, h3⟩
    have hsplit := hz.split x h1
    have hlive : liveCover s.live x = 0 := by
      by_contra hne
      obtain ⟨b, hb, hbx⟩ := liveCover_pos_iff.mp (Nat.pos_of_ne_zero hne)
      exact h3 b hb hbx
    rw [Page.resv, h2, hlive] at hsplit
    simp only [Bool.false_eq_true, if_false] at hsplit
    omega

theorem BuddyInv.freeList_iff_maximal {m₀ : MMS} {s : BuddyState} (h : BuddyInv m₀ s) {zi : Nat}
    (hi : zi < s.mms.zonesCount) (p k : Nat) :
    (k < MAX_ORDER ∧ p ∈ (s.mms.zone zi).freeList k) ↔ Maximal MAX_ORDER (s.FreePage zi) p k := by
  have hz := h.inv zi hi
  rw [show s.FreePage zi = fun x => 0 < cover MAX_ORDER (s.mms.zone zi).freeArea.family x from
    funext (fun x => propext (h.cover_pos_iff_freePage hi x).symm)]
  exact mem_iff_maximal hz.areas.wf hz.cover_le_one p k

/-- **Canonical free lists.** In every state a run reaches, the blocks on the free lists of a
zone are the maximal aligned blocks of free pages. So two runs that end with the same pages free
have the same lists up to order, and freeing everything restores the lists of the start. -/
theorem freeLists_canonical {map : MemoryMap} {rs : List Reservation} {s : BuddyState}
    (h : BuddyReachable map rs s) {zi : Nat} (hi : zi < s.mms.zonesCount) :
    (∀ p k, (k < MAX_ORDER ∧ p ∈ (s.mms.zone zi).freeList k) ↔
      Maximal MAX_ORDER (s.FreePage zi) p k) ∧
    (∀ s', BuddyReachable map rs s' → (∀ x, s.FreePage zi x ↔ s'.FreePage zi x) →
      ∀ k < MAX_ORDER, ∀ p, p ∈ (s.mms.zone zi).freeList k ↔ p ∈ (s'.mms.zone zi).freeList k) ∧
    (s.live = [] → ∀ m, bootMMS map rs = some m →
      ∀ k < MAX_ORDER, ∀ p, p ∈ (s.mms.zone zi).freeList k ↔ p ∈ (m.zone zi).freeList k) := by
  have hsame : ∀ s', BuddyReachable map rs s' → (∀ x, s.FreePage zi x ↔ s'.FreePage zi x) →
      ∀ k < MAX_ORDER, ∀ p, p ∈ (s.mms.zone zi).freeList k ↔ p ∈ (s'.mms.zone zi).freeList k := by
    intro s' h' hfree k hk p
    have hi' : zi < s'.mms.zonesCount := by
      rw [h'.inv.layout.zonesCount, ← h.inv.layout.zonesCount]; exact hi
    have h1 := h.inv.freeList_iff_maximal hi p k
    have h2 := h'.inv.freeList_iff_maximal hi' p k
    rw [show s.FreePage zi = s'.FreePage zi from funext (fun x => propext (hfree x))] at h1
    have := h1.trans h2.symm
    simpa [hk] using this
  refine ⟨h.inv.freeList_iff_maximal hi, hsame, fun hlive m hm => hsame ⟨m, []⟩ (.boot hm) ?_⟩
  -- with nothing handed out, the free pages are those of the start
  intro x
  have hl := h.inv.layout
  have hl' := (buddyInv_boot hm).layout
  unfold BuddyState.FreePage
  rw [hl.has, hl'.has, (hl.pages x).2.2, (hl'.pages x).2.2, hlive]

theorem freeLists_canonical_smallMap :
    ∃ s, BuddyReachable smallMap [⟨0x18000, 0x19000, 0⟩] s ∧ s.live = [⟨48, 3⟩] ∧
      1 < s.mms.zonesCount ∧ ∀ p k, (k < MAX_ORDER ∧ p ∈ (s.mms.zone 1).freeList k) ↔
        Maximal MAX_ORDER (s.FreePage 1) p k := by
  obtain ⟨s, hs, hl⟩ := smallMap_reachable
  have hz : 1 < s.mms.zonesCount := by
    rw [hs.inv.layout.zonesCount]
    decide +kernel
  exact ⟨s, hs, hl, hz, (freeLists_canonical hs hz).1⟩

end Talios
