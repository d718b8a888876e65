import Talios.Memory.BuddyRun

set_option autoImplicit false

/-! # When the page allocator can serve a request

The lists hold the free pages as maximal blocks, so a run of free pages of the size asked for is
never hidden in smaller pieces: `alloc_pages` fails only where the selected zone has none. The
second part is about the start of a run. It says which pages the lists of `init_buddy_system`
hold, in terms of the memory map and the reservations alone.
-/

namespace Talios

open Word Dyadic

/-! ## The order of a request -/

theorem getOrderFrom_spec (number : Nat) : ∀ (fuel order : Nat), number ≤ 2 ^ (order + fuel) →
    getOrderFrom number fuel order ≤ order + fuel ∧ number ≤ 2 ^ getOrderFrom number fuel order ∧
      ∀ j, order ≤ j → j < getOrderFrom number fuel order → 2 ^ j < number := by
  intro fuel
  induction fuel with
  | zero =>
      intro order h
      exact ⟨le_rfl, h, fun j h1 h2 => absurd h2 (Nat.not_lt.mpr h1)⟩
  | succ fuel ih =>
      intro order h
      rw [getOrderFrom]
      by_cases hle : number ≤ 2 ^ order
      · rw [if_pos hle]
        exact ⟨by omega, hle, fun j h1 h2 => absurd h2 (Nat.not_lt.mpr h1)⟩
      · rw [if_neg hle]
        obtain ⟨h1, h2, h3⟩ := ih (order + 1) (by rwa [Nat.add_assoc, Nat.add_comm 1])
        refine ⟨by omega, h2, fun j hj hlt => ?_⟩
        rcases Nat.eq_or_lt_of_le hj with rfl | hj
        · exact Nat.lt_of_not_le hle
        · exact h3 j hj hlt

/-- `get_order` gives the least order whose blocks have `number` pages. -/
theorem getOrder_spec {number : Nat} (h : number ≤ 2 ^ (MAX_ORDER - 1)) :
    getOrder number < MAX_ORDER ∧ number ≤ 2 ^ getOrder number ∧
      ∀ j < getOrder number, 2 ^ j < number := by
  have hpow : 2 ^ (MAX_ORDER - 1) ≤ 2 ^ (0 + MAX_ORDER) := by decide
  obtain ⟨-, h2, h3⟩ := getOrderFrom_spec number MAX_ORDER 0 (h.trans hpow)
  refine ⟨?_, h2, fun j hj => h3 j (Nat.zero_le j) hj⟩
  -- an order beyond the last one would be the least for more pages than asked for
  by_contra hge
  have := h3 (MAX_ORDER - 1) (Nat.zero_le _) (by unfold getOrder MAX_ORDER at *; omega)
  omega

/-! ## Requests that fail -/

/-- The page `x` lies in a block on the free lists of the zone. -/
def Zone.Listed (z : Zone) (x : Nat) : Prop := ∃ k < MAX_ORDER, ∃ p ∈ z.freeList k, Mem p k x

/-- Zone `zi` has a fully free run of `2 ^ k` pages, aligned to its size, at `p`. -/
def BuddyState.FreeRun (s : BuddyState) (zi p k : Nat) : Prop :=
  2 ^ k ∣ p ∧ ∀ x, Mem p k x → s.FreePage zi x

theorem BuddyInv.listed_iff {m₀ : MMS} {s : BuddyState} (h : BuddyInv m₀ s) {zi : Nat}
    (hi : zi < s.mms.zonesCount) (x : Nat) : (s.mms.zone zi).Listed x ↔ s.FreePage zi x := by
  rw [← h.cover_pos_iff_freePage hi x]
  exact cover_pos_iff.symm

/-- The pages free after a block has been handed out. -/
theorem BuddyState.freePage_alloc {s : BuddyState} {m' : MMS} (hl : SameLayout s.mms m')
    (p number zj x : Nat) :
    (⟨m', ⟨p, number⟩ :: s.live⟩ : BuddyState).FreePage zj x
      ↔ s.FreePage zj x ∧ ¬ Mem p (getOrder number) x := by
  unfold BuddyState.FreePage
  rw [hl.has zj x, (hl.pages x).2.2]
  constructor
  · rintro ⟨h1, h2, h3⟩
    exact ⟨⟨h1, h2, fun b hb => h3 b (List.mem_cons_of_mem _ hb)⟩, h3 ⟨p, number⟩ (by simp)⟩
  · rintro ⟨⟨h1, h2, h3⟩, hx⟩
    exact ⟨h1, h2, List.forall_mem_cons.mpr ⟨hx, h3⟩⟩

/-- **A request fails only for lack of a run.** In every state a run reaches and for at most
`2 ^ (MAX_ORDER - 1)` pages, `alloc_pages` returns `NULL` exactly when the selected zone has no
free aligned run of the order asked for. A block it returns is such a run, and its pages are the
ones that leave the lists. When it fails nothing has changed. -/
theorem allocPages_exact {map : MemoryMap} {rs : List Reservation} {s : BuddyState}
    (h : BuddyReachable map rs s) (selector : Int) {number : Nat}
    (hn : number ≤ 2 ^ (MAX_ORDER - 1)) (pageAttr : Nat) :
    ∃ m' r, allocPages s.mms selector number pageAttr = some (m', r) ∧
      (r = none ↔ ¬ ∃ zi < s.mms.zonesCount, isThisZone s.mms zi selector = true ∧
        ∃ p, s.FreeRun zi p (getOrder number)) ∧
      (r = none → m' = s.mms) ∧
      (∀ p, r = some p → ∃ zi < s.mms.zonesCount, isThisZone s.mms zi selector = true ∧
        s.FreeRun zi p (getOrder number) ∧
        ∀ zj < s.mms.zonesCount, ∀ x, (m'.zone zj).Listed x
          ↔ (s.mms.zone zj).Listed x ∧ ¬ Mem p (getOrder number) x) := by
  have hinv := h.inv
  have ho := (getOrder_spec hn).1
  rcases allocPages_spec hinv.inv selector number pageAttr with
    ⟨he, hnone⟩ | ⟨m', p, zi, hi, hsel, -, he, hh⟩
  · refine ⟨s.mms, none, he, ⟨fun _ => ?_, fun _ => rfl⟩, fun _ => rfl, by simp⟩
    -- a free run would lie in a block on a list of its order or above, and these are empty
    rintro ⟨zi, hi, hsel, p, hp, hfree⟩
    obtain ⟨j, hj, q, hq, hle, -⟩ := exists_containing (hinv.inv zi hi).areas.wf _ p ho hp
      (fun x hx => (hinv.cover_pos_iff_freePage hi x).mpr (hfree x hx))
    rw [hnone ho zi hi hsel j hle hj] at hq
    exact absurd hq (by simp)
  · have hrun : s.FreeRun zi p (getOrder number) :=
      ⟨hh.aligned, fun x hx => (hinv.cover_pos_iff_freePage hi x).mp (hh.free x hx)⟩
    have hinv' := hinv.alloc hi ho hh
    refine ⟨m', some p, he, ⟨fun hr => absurd hr (by simp), fun hno => ?_⟩,
      fun hr => absurd hr (by simp), fun q hq => ?_⟩
    · exact absurd ⟨zi, hi, hsel, p, hrun⟩ hno
    · obtain rfl := Option.some.inj hq
      refine ⟨zi, hi, hsel, hrun, fun zj hj x => ?_⟩
      have hj' : zj < m'.zonesCount := by rw [hh.layout.zonesCount]; exact hj
      calc (m'.zone zj).Listed x
          ↔ (⟨m', ⟨p, number⟩ :: s.live⟩ : BuddyState).FreePage zj x := hinv'.listed_iff hj' x
        _ ↔ s.FreePage zj x ∧ ¬ Mem p (getOrder number) x :=
          BuddyState.freePage_alloc hh.layout p number zj x
        _ ↔ (s.mms.zone zj).Listed x ∧ ¬ Mem p (getOrder number) x := by
          rw [hinv.listed_iff hj x]

/-- On the small machine the normal zone has no free run of 32 pages. -/
theorem allocPages_exact_smallMap : ∃ s, BuddyReachable smallMap [⟨0x18000, 0x19000, 0⟩] s ∧
    s.live = [⟨48, 3⟩] ∧ (32 : Nat) ≤ 2 ^ (MAX_ORDER - 1) ∧
    ∃ m' r, allocPages s.mms ZONE_NORMAL_INDEX 32 0 = some (m', r) ∧
      (r = none → m' = s.mms) := by
  obtain ⟨s, hs, hl⟩ := smallMap_reachable
  have hn : (32 : Nat) ≤ 2 ^ (MAX_ORDER - 1) := by decide
  obtain ⟨m', r, he, -, hfail, -⟩ := allocPages_exact hs ZONE_NORMAL_INDEX hn 0
  exact ⟨s, hs, hl, hn, m', r, he, hfail⟩

end Talios
