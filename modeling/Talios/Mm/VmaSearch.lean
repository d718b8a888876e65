import Talios.Lib.Interval
import Talios.Mm.VmaRun

set_option autoImplicit false

/-! # Looking for room in an address space

`range_is_free`, `find_unmapped_area`, `__get_unmapped_area` and `insert_vma` each test for
overlap and bounds in their own way. On a list that is in order the tests agree: the first is
freedom of the range, the second is exact first fit, and what the third returns the fourth
accepts. From this follows what `do_mmap` does for every manager, hint and length.
-/

namespace Talios

open Word Interval

/-- A length rounded up to pages. -/
def pageUp (len : Nat) : Nat := (len + (PAGE_4K_SIZE - 1)) / PAGE_4K_SIZE * PAGE_4K_SIZE

theorem alignUp64_eq_pageUp {a : Nat} (h : a + PAGE_4K_SIZE ≤ 2 ^ 64) :
    alignUp64 PAGE_4K_SIZE a = pageUp a := by
  unfold alignUp64
  rw [add64_eq (by unfold PAGE_4K_SIZE PAGE_4K_SHIFT at *; omega)]
  rfl

theorem pageUp_of_dvd {a : Nat} (h : PAGE_4K_SIZE ∣ a) : pageUp a = a := by
  unfold pageUp PAGE_4K_SIZE PAGE_4K_SHIFT at *
  omega

/-- Addresses of user space are aligned without a carry. -/
theorem alignUp64_user {a : Nat} (h : PAGE_4K_SIZE ∣ a) (hle : a ≤ USER_LIMIT) :
    alignUp64 PAGE_4K_SIZE a = a := by
  rw [alignUp64_eq_pageUp (by unfold PAGE_4K_SIZE PAGE_4K_SHIFT USER_LIMIT at *; omega),
    pageUp_of_dvd h]

/-- A list of areas in order, as a sorted list of intervals. -/
theorem AreasOk.sorted {id : Nat} {l : List VmArea} (h : AreasOk id l) :
    Sorted VmArea.start VmArea.stop l := ⟨fun v hv => (h.areas v hv).lt, h.ordered⟩

/-- No area of the list meets `[start, stop)`. -/
abbrev RangeFree (l : List VmArea) (start stop : Nat) : Prop :=
  Free VmArea.start VmArea.stop l start stop

/-! ## `range_is_free` -/

theorem rangeLoop_iff {start stop : Nat} : ∀ l : List VmArea, Sorted VmArea.start VmArea.stop l →
    (rangeLoop start stop l = true ↔ RangeFree l start stop) := by
  intro l
  induction l with
  | nil => exact fun _ => iff_of_true rfl (free_nil start stop)
  | cons v rest ih =>
      intro h
      rw [rangeLoop]
      by_cases h1 : stop ≤ v.start
      · rw [if_pos h1]
        exact iff_of_true rfl (h.free_of_le h1)
      · rw [if_neg h1, RangeFree, free_cons]
        by_cases h2 : start < v.stop
        · rw [if_pos ⟨h2, by omega⟩]
          refine iff_of_false (by simp) (fun hf => ?_)
          unfold Apart at hf
          omega
        · rw [if_neg (fun hc => h2 hc.1), ih (sorted_cons.mp h).2.2]
          exact (and_iff_right (Or.inr (by omega))).symm

/-- **`range_is_free`**: the range is not empty, lies in user space and meets no area. -/
theorem rangeIsFree_iff {mm : Lmm} (hready : mm.listReady = true)
    (h : Sorted VmArea.start VmArea.stop mm.vmaList) (start len : Nat) :
    rangeIsFree mm start len = true ↔
      0 < len ∧ PAGE_4K_SIZE ≤ start ∧ start + len ≤ USER_LIMIT ∧
        RangeFree mm.vmaList start (start + len) := by
  unfold rangeIsFree
  split
  · rename_i hbad
    rw [hready] at hbad
    refine iff_of_false (by simp) ?_
    rintro ⟨h1, h2, h3, -⟩
    rcases hbad with hb | hb | hb | hb | hb
    · exact absurd hb (by simp)
    all_goals omega
  · rename_i hok
    push Not at hok
    rw [rangeLoop_iff mm.vmaList h]
    constructor
    · intro hf
      exact ⟨by omega, hok.2.2.1, by omega, hf⟩
    · exact fun hf => hf.2.2.2

/-! ## `find_unmapped_area` -/

/-- What a search for an area returns: an address or `-ENOMEM`. -/
def searchResult : Option Nat → Nat
  | some a => a
  | none => negErr ENOMEM

/-- The address from which `find_unmapped_area` searches. -/
def searchBase (mm : Lmm) : Nat :=
  if mm.mmapBase = 0 then DEFAULT_MMAP_BASE else max mm.mmapBase PAGE_4K_SIZE

/-- The scan of `find_unmapped_area` is a first-fit scan. -/
theorem unmappedLoop_spec {len : Nat} : ∀ (l : List VmArea) (cur : Nat),
    Sorted VmArea.start VmArea.stop l → (∀ v ∈ l, PAGE_4K_SIZE ∣ v.stop ∧ v.stop ≤ USER_LIMIT) →
    PAGE_4K_SIZE ∣ cur → 0 < len → cur + len ≤ USER_LIMIT →
    ∃ o, unmappedLoop len l cur = searchResult o ∧
      FirstFit VmArea.start VmArea.stop PAGE_4K_SIZE len USER_LIMIT l cur o := by
  intro l
  induction l with
  | nil =>
      intro cur _ _ hcur _ hle
      refine ⟨some cur, ?_, FirstFit.accept ⟨hcur, hle, free_nil _ _⟩⟩
      rw [unmappedLoop, if_pos (by omega)]
      rfl
  | cons v rest ih =>
      intro cur h hok hcur hpos hle
      obtain ⟨hv, hrest⟩ := List.forall_mem_cons.mp hok
      have hsorted := (sorted_cons.mp h).2.2
      rw [unmappedLoop]
      by_cases h1 : v.stop ≤ cur
      · rw [if_pos h1]
        obtain ⟨o, he, hf⟩ := ih cur hsorted hrest hcur hpos hle
        exact ⟨o, he, hf.skip h1⟩
      rw [if_neg h1]
      by_cases h2 : cur ≤ v.start ∧ len ≤ v.start - cur
      · rw [if_pos h2]
        exact ⟨some cur, rfl, FirstFit.accept ⟨hcur, hle, h.free_of_le (by omega)⟩⟩
      · -- the area is in the way: the scan goes on behind it
        rw [if_neg h2]
        dsimp only
        rw [if_pos (show cur < v.stop by omega), alignUp64_user hv.1 hv.2]
        have hgap : v.start < cur + len := by omega
        by_cases h3 : USER_LIMIT ≤ v.stop ∨ USER_LIMIT - v.stop < len
        · rw [if_pos h3]
          exact ⟨none, rfl, (FirstFit.giveUp (by omega)).jump (by omega) hgap⟩
        · rw [if_neg h3]
          obtain ⟨o, he, hf⟩ := ih v.stop hsorted hrest hv.1 hpos (by omega)
          exact ⟨o, he, hf.jump (by omega) hgap⟩

/-- The address the scan of `find_unmapped_area` starts at: `mmap_base` rounded up to a page. -/
def searchStart (mm : Lmm) : Nat :=
  let base := if mm.mmapBase ≠ 0 then alignUp64 PAGE_4K_SIZE mm.mmapBase else DEFAULT_MMAP_BASE
  if base < PAGE_4K_SIZE then PAGE_4K_SIZE else base

theorem searchStart_page (mm : Lmm) :
    PAGE_4K_SIZE ∣ searchStart mm ∧ PAGE_4K_SIZE ≤ searchStart mm := by
  have hbase : PAGE_4K_SIZE ∣ if mm.mmapBase ≠ 0 then alignUp64 PAGE_4K_SIZE mm.mmapBase
      else DEFAULT_MMAP_BASE := by
    split
    · exact dvd_alignDown _ _
    · decide
  unfold searchStart
  dsimp only
  generalize (if mm.mmapBase ≠ 0 then alignUp64 PAGE_4K_SIZE mm.mmapBase
    else DEFAULT_MMAP_BASE) = base at hbase ⊢
  by_cases h : base < PAGE_4K_SIZE
  · rw [if_pos h]
    exact ⟨dvd_refl _, le_rfl⟩
  · rw [if_neg h]
    exact ⟨hbase, Nat.le_of_not_lt h⟩

/-- With an aligned base in user space no rounding happens. -/
theorem searchStart_eq {mm : Lmm} (hbase : PAGE_4K_SIZE ∣ mm.mmapBase)
    (hlt : mm.mmapBase < USER_LIMIT) : searchStart mm = searchBase mm := by
  unfold searchStart searchBase
  rw [alignUp64_user hbase hlt.le]
  by_cases h0 : mm.mmapBase = 0
  · simp only [h0, ne_eq, not_true_eq_false, if_true, if_false]
    rw [if_neg (by decide)]
  · simp only [h0, ne_eq, not_false_eq_true, if_true, if_false]
    split <;> omega

/-- Whatever the base is, the search is a first-fit scan from the address it is rounded to. -/
theorem findUnmappedArea_firstFit {id : Nat} {mm : Lmm} (h : LmmOk id mm) {len : Nat}
    (hpos : 0 < len) (hlen : PAGE_4K_SIZE ∣ len) :
    ∃ o, findUnmappedArea mm len = searchResult o ∧
      FirstFit VmArea.start VmArea.stop PAGE_4K_SIZE len USER_LIMIT mm.vmaList
        (searchStart mm) o := by
  obtain ⟨hdvd, hge⟩ := searchStart_page mm
  unfold findUnmappedArea
  split
  · rename_i hbad
    refine ⟨none, rfl, FirstFit.giveUp ?_⟩
    rw [h.ready] at hbad
    rcases hbad with hb | hb | hb | hb
    · exact absurd hb (by simp)
    · omega
    · exact absurd (Nat.mod_eq_zero_of_dvd hlen) hb
    · omega
  · show ∃ o, (if USER_LIMIT ≤ searchStart mm ∨ USER_LIMIT - searchStart mm < len then
      negErr ENOMEM else unmappedLoop len mm.vmaList (searchStart mm)) = searchResult o ∧ _
    split
    · exact ⟨none, rfl, FirstFit.giveUp (by omega)⟩
    · exact unmappedLoop_spec mm.vmaList _ h.areas.sorted
        (fun v hv => ⟨(h.areas.areas v hv).stopAligned, (h.areas.areas v hv).upper⟩) hdvd hpos
        (by omega)

/-- An address of user space is no error code. -/
theorem ne_negErr_of_user {a e : Nat} (ha : a ≤ USER_LIMIT) (he : e ≤ 4095) : a ≠ negErr e := by
  unfold negErr
  unfold USER_LIMIT at ha
  omega

/-- **`find_unmapped_area` is exact first fit.** On every list in order, for every page-aligned
`mmap_base` in user space and every non-zero multiple of the page size, the result is the least
aligned address from the base on at which the range ends in user space and meets no area, and
`-ENOMEM` exactly when there is no such address. -/
theorem findUnmappedArea_exact {id : Nat} {mm : Lmm} (h : LmmOk id mm)
    (hbase : PAGE_4K_SIZE ∣ mm.mmapBase) (hlt : mm.mmapBase < USER_LIMIT) {len : Nat}
    (hpos : 0 < len) (hlen : PAGE_4K_SIZE ∣ len) :
    (findUnmappedArea mm len = negErr ENOMEM ↔
      ¬ ∃ a, searchBase mm ≤ a ∧ PAGE_4K_SIZE ∣ a ∧ a + len ≤ USER_LIMIT ∧
        RangeFree mm.vmaList a (a + len)) ∧
    (findUnmappedArea mm len ≠ negErr ENOMEM →
      IsLeast {a | searchBase mm ≤ a ∧ PAGE_4K_SIZE ∣ a ∧ a + len ≤ USER_LIMIT ∧
        RangeFree mm.vmaList a (a + len)} (findUnmappedArea mm len)) := by
  obtain ⟨o, he, hf⟩ := findUnmappedArea_firstFit h hpos hlen
  rw [searchStart_eq hbase hlt] at hf
  rw [he]
  cases o with
  | none =>
      refine ⟨iff_of_true rfl ?_, fun hne => absurd rfl hne⟩
      rintro ⟨a, ha, hfit⟩
      exact hf a ha hfit
  | some r =>
      have hr : r ≠ negErr ENOMEM :=
        ne_negErr_of_user (by have := hf.1.2.2.1; omega) (by decide)
      refine ⟨iff_of_false hr (fun hno => hno ⟨r, hf.1⟩), fun _ => hf⟩

/-- A manager with two areas and a gap of two pages between them. -/
def gapLmm : Lmm where
  self := 64
  pgd := 0x1000
  mmapBase := 0x2000
  listReady := true
  vmaList := [⟨128, 64, 0x2000, 0x3000, 3, 0, 0x22, 0, none⟩,
    ⟨256, 64, 0x5000, 0x8000, 3, 0, 0x22, 0, none⟩]

theorem gapLmm_ok : LmmOk 64 gapLmm := by
  refine ⟨rfl, rfl, areasOk_cons.mpr ⟨?_, by decide, areasOk_cons.mpr ⟨?_, by simp, areasOk_nil 64⟩⟩⟩
  · exact ⟨by decide, by decide, by decide, by decide, by decide, rfl⟩
  · exact ⟨by decide, by decide, by decide, by decide, by decide, rfl⟩

/-- A gap of exactly the length asked for is taken. -/
theorem findUnmappedArea_exact_gapLmm : findUnmappedArea gapLmm 0x2000 = 0x3000 ∧
    (findUnmappedArea gapLmm 0x2000 ≠ negErr ENOMEM →
      IsLeast {a | searchBase gapLmm ≤ a ∧ PAGE_4K_SIZE ∣ a ∧ a + 0x2000 ≤ USER_LIMIT ∧
        RangeFree gapLmm.vmaList a (a + 0x2000)} (findUnmappedArea gapLmm 0x2000)) :=
  ⟨by decide, (findUnmappedArea_exact gapLmm_ok (by decide) (by decide) (by decide)
    (by decide)).2⟩

/-! ## The checks of `do_mmap` -/

/-- A request `do_mmap` supports: anonymous, either shared or private, of a length that can be
rounded up and with a page offset that passes both overflow checks. -/
structure MmapArgs.Valid (a : MmapArgs) : Prop where
  pos : 0 < a.len
  prot : hasOther a.prot (PROT_READ ||| PROT_WRITE ||| PROT_EXEC) = false
  flags : hasOther a.flags (MAP_SHARED ||| MAP_PRIVATE ||| MAP_FIXED ||| MAP_ANONYMOUS) = false
  sharing : hasFlag a.flags MAP_SHARED ≠ hasFlag a.flags MAP_PRIVATE
  anonymous : hasFlag a.flags MAP_ANONYMOUS = true
  file : a.file = none
  len_le : a.len ≤ USER_LIMIT - (PAGE_4K_SIZE - 1)
  pages : pageUp a.len / PAGE_4K_SIZE ≤ 2 ^ 64 - 1 - a.pgoff
  pgoff : a.pgoff ≤ (2 ^ 64 - 1) / PAGE_4K_SIZE

/-- The length of a request, rounded up. -/
theorem pageUp_bounds {len : Nat} (hpos : 0 < len) (hle : len ≤ USER_LIMIT - (PAGE_4K_SIZE - 1)) :
    alignUp64 PAGE_4K_SIZE len = pageUp len ∧ 0 < pageUp len ∧ pageUp len ≤ USER_LIMIT := by
  refine ⟨alignUp64_eq_pageUp ?_, ?_, ?_⟩
  all_goals
    unfold USER_LIMIT PAGE_4K_SIZE PAGE_4K_SHIFT at hle
    try unfold pageUp
    unfold PAGE_4K_SIZE PAGE_4K_SHIFT
    try unfold USER_LIMIT
    omega

theorem dvd_pageUp (len : Nat) : PAGE_4K_SIZE ∣ pageUp len := Nat.dvd_mul_left _ _

/-- `do_mmap` checks what `Valid` says, and goes on with the length rounded up. -/
theorem mmapCheck_iff (a : MmapArgs) (len : Nat) :
    mmapCheck a = .ok len ↔ a.Valid ∧ len = pageUp a.len := by
  constructor
  · intro h
    obtain ⟨hanon, hfile⟩ := mmapCheck_anon h
    unfold mmapCheck at h
    obtain ⟨h1, h⟩ := ok_of_check h
    obtain ⟨h2, h⟩ := ok_of_check h
    obtain ⟨h3, h⟩ := ok_of_check h
    obtain ⟨h4, h⟩ := ok_of_check h
    obtain ⟨h5, h⟩ := ok_of_check h
    obtain ⟨-, h⟩ := ok_of_check h
    obtain ⟨-, h⟩ := ok_of_check h
    obtain ⟨-, h⟩ := ok_of_check h
    obtain ⟨h6, h⟩ := ok_of_check h
    dsimp only at h
    obtain ⟨-, h⟩ := ok_of_check h
    obtain ⟨h7, h⟩ := ok_of_check h
    obtain ⟨h8, h⟩ := ok_of_check h
    obtain ⟨heq, -⟩ := pageUp_bounds (Nat.pos_of_ne_zero h1) (by omega)
    rw [heq] at h h7
    refine ⟨⟨by omega, by simpa using h2, by simpa using h3, ?_, hanon, hfile, by omega,
      by omega, by omega⟩, (Except.ok.inj h).symm⟩
    revert h4 h5
    cases hasFlag a.flags MAP_SHARED <;> cases hasFlag a.flags MAP_PRIVATE <;> simp
  · rintro ⟨h, rfl⟩
    obtain ⟨heq, hpos, hle⟩ := pageUp_bounds h.pos h.len_le
    have hsharing := h.sharing
    have h1 := h.pos
    have h2 := h.len_le
    have h3 := h.pages
    have h4 := h.pgoff
    unfold mmapCheck
    rw [heq, if_neg (by omega), if_neg (by simp [h.prot]), if_neg (by simp [h.flags]),
      if_neg, if_neg, if_neg (by simp [h.file]), if_neg (by simp [h.anonymous]),
      if_neg (by simp [h.anonymous]), if_neg (by omega)]
    · dsimp only
      rw [if_neg (by omega), if_neg (by omega), if_neg (by omega)]
    all_goals
      revert hsharing
      cases hasFlag a.flags MAP_SHARED <;> cases hasFlag a.flags MAP_PRIVATE <;> simp

/-- A check that fails gives its own code, or a later one does. -/
theorem error_of_check {α : Type} {c : Prop} [Decidable c] {e r : Nat} {x : Except Nat α}
    (h : (if c then .error e else x) = .error r) : r = e ∨ x = .error r := by
  by_cases hc : c
  · rw [if_pos hc] at h
    exact Or.inl (Except.error.inj h).symm
  · rw [if_neg hc] at h
    exact Or.inr h

/-- The error codes of the checks. -/
theorem mmapCheck_error {a : MmapArgs} {e : Nat} (h : mmapCheck a = .error e) :
    e ∈ [EINVAL, EBADF, EOPNOTSUPP, ENOMEM, EOVERFLOW].map negErr := by
  unfold mmapCheck at h
  rcases error_of_check h with rfl | h
  · simp
  rcases error_of_check h with rfl | h
  · simp
  rcases error_of_check h with rfl | h
  · simp
  rcases error_of_check h with rfl | h
  · simp
  rcases error_of_check h with rfl | h
  · simp
  rcases error_of_check h with rfl | h
  · simp
  rcases error_of_check h with rfl | h
  · simp
  rcases error_of_check h with rfl | h
  · simp
  rcases error_of_check h with rfl | h
  · simp
  dsimp only at h
  rcases error_of_check h with rfl | h
  · simp
  rcases error_of_check h with rfl | h
  · simp
  rcases error_of_check h with rfl | h
  · simp
  · exact nomatch h

/-! ## `__get_unmapped_area` and `insert_vma` -/

/-- Either kind of request: what the address is when there is one. -/
theorem getUnmappedArea_spec {id : Nat} {mm : Lmm} (h : LmmOk id mm) (addr : Nat) {len flags : Nat}
    (hpos : 0 < len) (hlen : PAGE_4K_SIZE ∣ len)
    (hlt : getUnmappedArea mm addr len flags < 2 ^ 63) :
    PAGE_4K_SIZE ∣ getUnmappedArea mm addr len flags ∧
      PAGE_4K_SIZE ≤ getUnmappedArea mm addr len flags ∧
      getUnmappedArea mm addr len flags + len ≤ USER_LIMIT ∧
      (hasFlag flags MAP_FIXED = true → getUnmappedArea mm addr len flags = addr) ∧
      (hasFlag flags MAP_FIXED = false → RangeFree mm.vmaList
        (getUnmappedArea mm addr len flags) (getUnmappedArea mm addr len flags + len)) := by
  have hcheck : ¬ (len = 0 ∨ len % PAGE_4K_SIZE ≠ 0) := by
    simp [Nat.ne_of_gt hpos, Nat.mod_eq_zero_of_dvd hlen]
  unfold getUnmappedArea at hlt ⊢
  rw [if_neg hcheck] at hlt ⊢
  by_cases hf : hasFlag flags MAP_FIXED = true
  · rw [if_pos hf] at hlt ⊢
    by_cases h1 : addr % PAGE_4K_SIZE ≠ 0
    · rw [if_pos h1] at hlt
      exact absurd hlt (by decide)
    rw [if_neg h1] at hlt ⊢
    by_cases h2 : addr < PAGE_4K_SIZE ∨ USER_LIMIT ≤ addr ∨ USER_LIMIT - addr < len
    · rw [if_pos h2] at hlt
      exact absurd hlt (by decide)
    rw [if_neg h2]
    push Not at h1 h2
    exact ⟨Nat.dvd_of_mod_eq_zero h1, h2.1, by omega, fun _ => rfl, fun hn => by simp [hf] at hn⟩
  · rw [if_neg hf] at hlt ⊢
    by_cases h1 : addr ≠ 0 ∧ rangeIsFree mm (alignDown PAGE_4K_SIZE addr) len = true
    · rw [if_pos h1]
      obtain ⟨-, h2, h3, h4⟩ := (rangeIsFree_iff h.ready h.areas.sorted _ _).mp h1.2
      exact ⟨dvd_alignDown _ _, h2, h3, fun hn => absurd hn hf, fun _ => h4⟩
    · rw [if_neg h1] at hlt ⊢
      obtain ⟨o, he, hfit⟩ := findUnmappedArea_firstFit h hpos hlen
      rw [he] at hlt ⊢
      cases o with
      | none => exact absurd hlt (by decide)
      | some r =>
          obtain ⟨hge, hdvd, hup, hfree⟩ := hfit.1
          exact ⟨hdvd, (searchStart_page mm).2.trans hge, hup, fun hn => absurd hn hf,
            fun _ => hfree⟩

/-- The errors: a search gives `-ENOMEM`, a fixed address may also be refused as unaligned. -/
theorem getUnmappedArea_error {id : Nat} {mm : Lmm} (h : LmmOk id mm) (addr : Nat)
    {len flags : Nat} (hpos : 0 < len) (hlen : PAGE_4K_SIZE ∣ len)
    (hge : 2 ^ 63 ≤ getUnmappedArea mm addr len flags) :
    getUnmappedArea mm addr len flags = negErr ENOMEM ∨
      hasFlag flags MAP_FIXED = true ∧ getUnmappedArea mm addr len flags = negErr EINVAL := by
  have hcheck : ¬ (len = 0 ∨ len % PAGE_4K_SIZE ≠ 0) := by
    simp [Nat.ne_of_gt hpos, Nat.mod_eq_zero_of_dvd hlen]
  unfold getUnmappedArea at hge ⊢
  rw [if_neg hcheck] at hge ⊢
  by_cases hf : hasFlag flags MAP_FIXED = true
  · rw [if_pos hf] at hge ⊢
    split_ifs at hge ⊢ with h1 h2
    · exact Or.inr ⟨hf, rfl⟩
    · exact Or.inl rfl
    · push Not at h2
      unfold USER_LIMIT at h2
      omega
  · rw [if_neg hf] at hge ⊢
    by_cases h1 : addr ≠ 0 ∧ rangeIsFree mm (alignDown PAGE_4K_SIZE addr) len = true
    · rw [if_pos h1] at hge
      obtain ⟨-, -, h3, -⟩ := (rangeIsFree_iff h.ready h.areas.sorted _ _).mp h1.2
      unfold USER_LIMIT at h3
      omega
    · rw [if_neg h1] at hge ⊢
      obtain ⟨o, he, hfit⟩ := findUnmappedArea_firstFit h hpos hlen
      rw [he] at hge ⊢
      cases o with
      | none => exact Or.inl rfl
      | some r =>
          have := hfit.1.2.2.1
          unfold USER_LIMIT at this
          exact absurd hge (by simp only [searchResult]; omega)

/-- A fixed address that is aligned and in bounds is taken as it is. -/
theorem getUnmappedArea_fixed (mm : Lmm) {addr len flags : Nat} (hpos : 0 < len)
    (hlen : PAGE_4K_SIZE ∣ len) (hf : hasFlag flags MAP_FIXED = true) (ha : PAGE_4K_SIZE ∣ addr)
    (hlow : PAGE_4K_SIZE ≤ addr) (hup : addr + len ≤ USER_LIMIT) :
    getUnmappedArea mm addr len flags = addr := by
  unfold getUnmappedArea
  rw [if_neg (by simp [Nat.ne_of_gt hpos, Nat.mod_eq_zero_of_dvd hlen]), if_pos hf,
    if_neg (by simp [Nat.mod_eq_zero_of_dvd ha]), if_neg (by omega)]

theorem insertLoop_of_free {v : VmArea} : ∀ l : List VmArea, RangeFree l v.start v.stop →
    ∃ l', insertLoop v l = some l' := by
  intro l
  induction l with
  | nil => exact fun _ => ⟨[v], rfl⟩
  | cons p rest ih =>
      intro h
      obtain ⟨hp, hrest⟩ := free_cons.mp h
      rw [insertLoop]
      by_cases h1 : v.stop ≤ p.start
      · exact ⟨_, if_pos h1⟩
      · rw [if_neg h1]
        rcases hp with hle | hle
        · exact absurd hle h1
        · obtain ⟨l', hl⟩ := ih hrest
          exact ⟨p :: l', by rw [if_neg (by omega), hl]; rfl⟩

/-- **`insert_vma` accepts** every area that is aligned, in user space and meets no other. -/
theorem insertVma_of_free {id : Nat} {mm : Lmm} (h : LmmOk id mm) {v : VmArea}
    (hstart : PAGE_4K_SIZE ∣ v.start) (hstop : PAGE_4K_SIZE ∣ v.stop)
    (hlow : PAGE_4K_SIZE ≤ v.start) (hlt : v.start < v.stop) (hup : v.stop ≤ USER_LIMIT)
    (hfree : RangeFree mm.vmaList v.start v.stop) :
    ∃ l, insertVma mm v = ({ mm with vmaList := l }, 1) ∧
      l.Perm ({ v with vmMm := mm.self } :: mm.vmaList) := by
  have hargs : insertArgsOk mm v = true := by
    simp [insertArgsOk, h.ready, hlt, hlow, hup, Nat.mod_eq_zero_of_dvd hstart,
      Nat.mod_eq_zero_of_dvd hstop]
  obtain ⟨l, hl⟩ := insertLoop_of_free (v := { v with vmMm := mm.self }) mm.vmaList hfree
  obtain rfl := h.self
  refine ⟨l, ?_, (insertLoop_spec (areaOk_of_insertArgsOk hargs) _ _ h.areas hl).2⟩
  unfold insertVma
  rw [if_pos hargs, hl]

/-! ## `do_mmap` -/

/-- The request has been served at `addr`: the list has one area more, with the range, prot and
flags asked for. -/
structure Mapped (mm mm' : Lmm) (a : MmapArgs) (addr : Nat) : Prop where
  aligned : PAGE_4K_SIZE ∣ addr
  lower : PAGE_4K_SIZE ≤ addr
  upper : addr + pageUp a.len ≤ USER_LIMIT
  free : RangeFree mm.vmaList addr (addr + pageUp a.len)
  fixed : hasFlag a.flags MAP_FIXED = true → addr = a.addr
  list : ∃ v : VmArea, mm' = { mm with vmaList := mm'.vmaList } ∧
    mm'.vmaList.Perm (v :: mm.vmaList) ∧ v.start = addr ∧ v.stop = addr + pageUp a.len ∧
    v.prot = a.prot ∧ v.flags = a.vmFlags ∧ v.mmapFlags = a.flags ∧
    v.fileOffset = a.pgoff * PAGE_4K_SIZE % 2 ^ 64 ∧ v.file = a.file

/-- `insert_vma` takes the area `do_mmap` has built. -/
theorem insertVma_mmapArea {id : Nat} {mm : Lmm} (h : LmmOk id mm) {a : MmapArgs}
    (ha : a.Valid) {addr : Nat} (haddr : addr = getUnmappedArea mm a.addr (pageUp a.len) a.flags)
    (hlt : addr < 2 ^ 63)
    (hfree : hasFlag a.flags MAP_FIXED = true → RangeFree mm.vmaList addr (addr + pageUp a.len))
    (self : Nat) :
    ∃ l, insertVma mm (mmapArea mm a self addr (pageUp a.len)) = ({ mm with vmaList := l }, 1) ∧
      Mapped mm { mm with vmaList := l } a addr := by
  obtain ⟨-, hpos, -⟩ := pageUp_bounds ha.pos ha.len_le
  have hdvd := dvd_pageUp a.len
  obtain ⟨h1, h2, h3, h4, h5⟩ := getUnmappedArea_spec h a.addr hpos hdvd (haddr ▸ hlt)
  rw [← haddr] at h1 h2 h3 h4 h5
  have hrange : RangeFree mm.vmaList addr (addr + pageUp a.len) := by
    by_cases hf : hasFlag a.flags MAP_FIXED = true
    · exact hfree hf
    · exact h5 (by simpa using hf)
  have hstop : add64 addr (pageUp a.len) = addr + pageUp a.len :=
    add64_eq (by unfold USER_LIMIT at h3; omega)
  have hstop' : (mmapArea mm a self addr (pageUp a.len)).stop = addr + pageUp a.len := hstop
  obtain ⟨l, he, hperm⟩ := insertVma_of_free h (v := mmapArea mm a self addr (pageUp a.len)) h1
    (by rw [hstop']; exact dvd_add h1 hdvd) h2
    (by rw [hstop']; show addr < _; omega) (by rw [hstop']; exact h3)
    (by rw [hstop']; exact hrange)
  exact ⟨l, he, h1, h2, h3, hrange, h4, _, rfl, hperm, rfl, hstop, rfl, rfl, rfl, rfl, rfl⟩

section

variable {σ : Type} (env : VmaEnv σ) {id : Nat} {mm : Lmm}

/-- The ways a call of `do_mmap` can end. -/
theorem doMmap_cases (h : LmmOk id mm) (a : MmapArgs) (s : σ) :
    (¬ a.Valid ∧ ∃ e ∈ [EINVAL, EBADF, EOPNOTSUPP, ENOMEM, EOVERFLOW].map negErr,
      doMmap env mm a s = (mm, s, e)) ∨
    (a.Valid ∧ 2 ^ 63 ≤ getUnmappedArea mm a.addr (pageUp a.len) a.flags ∧
      doMmap env mm a s = (mm, s, getUnmappedArea mm a.addr (pageUp a.len) a.flags)) ∨
    (a.Valid ∧ hasFlag a.flags MAP_FIXED = true ∧
      getUnmappedArea mm a.addr (pageUp a.len) a.flags = a.addr ∧
      ¬ RangeFree mm.vmaList a.addr (a.addr + pageUp a.len) ∧
      doMmap env mm a s = (mm, s, negErr EEXIST)) ∨
    (a.Valid ∧ (hasFlag a.flags MAP_FIXED = true →
        RangeFree mm.vmaList a.addr (a.addr + pageUp a.len)) ∧
      doMmap env mm a s = (mm, (env.kmalloc s).1, negErr ENOMEM)) ∨
    (a.Valid ∧ ∃ l addr, addr < 2 ^ 63 ∧
      doMmap env mm a s = ({ mm with vmaList := l }, (env.kmalloc s).1, addr) ∧
      Mapped mm { mm with vmaList := l } a addr) := by
  cases hc : mmapCheck a with
  | error e =>
      refine Or.inl ⟨fun hv => ?_, e, mmapCheck_error hc, by unfold doMmap; rw [hc]⟩
      rw [(mmapCheck_iff a _).mpr ⟨hv, rfl⟩] at hc
      exact nomatch hc
  | ok len =>
      obtain ⟨hv, rfl⟩ := (mmapCheck_iff a len).mp hc
      obtain ⟨-, hpos, -⟩ := pageUp_bounds hv.pos hv.len_le
      generalize haddr : getUnmappedArea mm a.addr (pageUp a.len) a.flags = addr
      by_cases hge : 2 ^ 63 ≤ addr
      · exact Or.inr (Or.inl ⟨hv, hge, by unfold doMmap; rw [hc]; dsimp only; rw [haddr, if_pos hge]⟩)
      have hlt : addr < 2 ^ 63 := by omega
      obtain ⟨-, h2, h3, h4, -⟩ := getUnmappedArea_spec h a.addr hpos (dvd_pageUp a.len)
        (haddr ▸ hlt)
      rw [haddr] at h2 h3 h4
      by_cases hbad : hasFlag a.flags MAP_FIXED = true ∧ rangeIsFree mm addr (pageUp a.len) = false
      · obtain ⟨hf, hr⟩ := hbad
        refine Or.inr (Or.inr (Or.inl ⟨hv, hf, h4 hf, fun hfree => ?_, ?_⟩))
        · rw [(rangeIsFree_iff h.ready h.areas.sorted _ _).mpr
            ⟨hpos, h2, h3, by rw [h4 hf]; exact hfree⟩] at hr
          exact absurd hr (by simp)
        · unfold doMmap
          rw [hc]
          dsimp only
          rw [haddr, if_neg hge, if_pos (by simp [hf, hr])]
      -- from here on the range is free
      have hfree : hasFlag a.flags MAP_FIXED = true →
          RangeFree mm.vmaList addr (addr + pageUp a.len) := by
        intro hf
        have hr : rangeIsFree mm addr (pageUp a.len) = true := by
          by_contra hno
          exact hbad ⟨hf, by simpa using hno⟩
        exact ((rangeIsFree_iff h.ready h.areas.sorted _ _).mp hr).2.2.2
      have hpass : ¬ (hasFlag a.flags MAP_FIXED && !rangeIsFree mm addr (pageUp a.len)) = true := by
        intro hb
        rw [Bool.and_eq_true, Bool.not_eq_true'] at hb
        exact hbad hb
      rcases hk : env.kmalloc s with ⟨s₁, _ | p⟩
      · refine Or.inr (Or.inr (Or.inr (Or.inl ⟨hv, fun hf => ?_, ?_⟩)))
        · have := hfree hf
          rwa [h4 hf] at this
        · unfold doMmap
          rw [hc]
          dsimp only
          rw [haddr, if_neg hge, if_neg hpass, hk]
      · obtain ⟨l, he, hm⟩ := insertVma_mmapArea h hv haddr.symm hlt hfree p
        refine Or.inr (Or.inr (Or.inr (Or.inr ⟨hv, l, addr, hlt, ?_, hm⟩)))
        unfold doMmap
        rw [hc]
        dsimp only
        rw [haddr, if_neg hge, if_neg hpass, hk]
        dsimp only
        rw [he]
        rfl

/-- **What `do_mmap` does.** For every list in order and all arguments: an address it returns is
aligned, its range in user space and free before, and the list has one area more with that range,
prot and flags; with `MAP_FIXED` it is the address asked for. An error leaves the list. Without
`MAP_FIXED` a request is never refused as overlapping: `insert_vma` takes every area it is given,
and a supported request can only run out of addresses or memory. A supported request at a fixed
aligned address in bounds is refused with `-EEXIST` exactly when its range meets an area. -/
theorem doMmap_spec (h : LmmOk id mm) (a : MmapArgs) (s : σ) :
    ((doMmap env mm a s).2.2 < 2 ^ 63 →
      Mapped mm (doMmap env mm a s).1 a (doMmap env mm a s).2.2) ∧
    (2 ^ 63 ≤ (doMmap env mm a s).2.2 → (doMmap env mm a s).1 = mm) ∧
    (hasFlag a.flags MAP_FIXED = false →
      (doMmap env mm a s).2.2 ≠ negErr EEXIST ∧
      (a.Valid → 2 ^ 63 ≤ (doMmap env mm a s).2.2 → (doMmap env mm a s).2.2 = negErr ENOMEM) ∧
      (a.Valid → getUnmappedArea mm a.addr (pageUp a.len) a.flags < 2 ^ 63 → ∀ p,
        (insertVma mm (mmapArea mm a p (getUnmappedArea mm a.addr (pageUp a.len) a.flags)
          (pageUp a.len))).2 = 1)) ∧
    (hasFlag a.flags MAP_FIXED = true → a.Valid → PAGE_4K_SIZE ∣ a.addr →
      PAGE_4K_SIZE ≤ a.addr → a.addr + pageUp a.len ≤ USER_LIMIT →
      ((doMmap env mm a s).2.2 = negErr EEXIST ↔
        ¬ RangeFree mm.vmaList a.addr (a.addr + pageUp a.len))) := by
  have hinsert : hasFlag a.flags MAP_FIXED = false → a.Valid →
      getUnmappedArea mm a.addr (pageUp a.len) a.flags < 2 ^ 63 → ∀ p,
      (insertVma mm (mmapArea mm a p (getUnmappedArea mm a.addr (pageUp a.len) a.flags)
        (pageUp a.len))).2 = 1 := by
    intro hf hv hlt p
    obtain ⟨l, he, -⟩ := insertVma_mmapArea h hv rfl hlt (fun hn => by simp [hf] at hn) p
    rw [he]
  rcases doMmap_cases env h a s with ⟨hv, e, he, hr⟩ | ⟨hv, hge, hr⟩ | ⟨hv, hf, ha, hfree, hr⟩ |
    ⟨hv, hfree, hr⟩ | ⟨hv, l, addr, hlt, hr, hm⟩ <;> rw [hr]
  · -- the checks refuse the request
    have hcode : 2 ^ 63 ≤ e ∧ e ≠ negErr EEXIST := by
      simp only [List.map_cons, List.map_nil, List.mem_cons, List.not_mem_nil, or_false] at he
      rcases he with rfl | rfl | rfl | rfl | rfl <;> decide
    exact ⟨fun hlt => absurd hlt (by simpa using hcode.1), fun _ => rfl,
      fun hf => ⟨hcode.2, fun hv' => absurd hv' hv, hinsert hf⟩, fun _ hv' => absurd hv' hv⟩
  · -- no address
    obtain ⟨-, hpos, -⟩ := pageUp_bounds hv.pos hv.len_le
    refine ⟨fun hlt => absurd hlt (by simpa using hge), fun _ => rfl, fun hf => ?_,
      fun hf _ h1 h2 h3 => ?_⟩
    · have hno : getUnmappedArea mm a.addr (pageUp a.len) a.flags = negErr ENOMEM := by
        rcases getUnmappedArea_error h a.addr hpos (dvd_pageUp _) hge with he | ⟨hn, -⟩
        · exact he
        · simp [hf] at hn
      refine ⟨?_, fun _ _ => hno, hinsert hf⟩
      show getUnmappedArea mm a.addr (pageUp a.len) a.flags ≠ negErr EEXIST
      rw [hno]
      decide
    · rw [getUnmappedArea_fixed mm hpos (dvd_pageUp _) hf h1 h2 h3] at hge
      unfold USER_LIMIT at h3
      omega
  · -- the fixed range is taken
    refine ⟨fun hlt => absurd hlt (by show ¬ negErr EEXIST < 2 ^ 63; decide), fun _ => rfl,
      fun hn => by simp [hf] at hn,
      fun _ _ _ _ _ => iff_of_true rfl hfree⟩
  · -- no memory for the area
    exact ⟨fun hlt => absurd hlt (by show ¬ negErr ENOMEM < 2 ^ 63; decide), fun _ => rfl,
      fun hf => ⟨by show negErr ENOMEM ≠ negErr EEXIST; decide, fun _ _ => rfl, hinsert hf⟩,
      fun hf _ _ _ _ => iff_of_false (by show negErr ENOMEM ≠ negErr EEXIST; decide)
        (fun hno => hno (hfree hf))⟩
  · -- the request is served
    have hne : ∀ e, e ≤ 4095 → addr ≠ negErr e :=
      fun e he => ne_negErr_of_user (by have := hm.upper; omega) he
    refine ⟨fun _ => hm, fun hge => absurd hlt (by simpa using hge),
      fun hf => ⟨hne _ (by decide), fun _ hge => absurd hlt (by simpa using hge), hinsert hf⟩,
      fun hf _ _ _ _ => iff_of_false (hne _ (by decide)) (fun hno => hno ?_)⟩
    have := hm.free
    rwa [hm.fixed hf] at this

end

/-- Two pages mapped at a hint in the gap, and a fixed request on top of an area. -/
theorem doMmap_spec_gapLmm :
    ((doMmap exampleEnv gapLmm ⟨none, 0x3000, 0x1001, 3, 0x22, 0, 0⟩ 0).2.2 = 0x3000 ∧
      Mapped gapLmm (doMmap exampleEnv gapLmm ⟨none, 0x3000, 0x1001, 3, 0x22, 0, 0⟩ 0).1
        ⟨none, 0x3000, 0x1001, 3, 0x22, 0, 0⟩ 0x3000) ∧
    (doMmap exampleEnv gapLmm ⟨none, 0x7000, 0x1000, 3, 0x32, 0, 0⟩ 0).2.2 = negErr EEXIST := by
  have hr : (doMmap exampleEnv gapLmm ⟨none, 0x3000, 0x1001, 3, 0x22, 0, 0⟩ 0).2.2 = 0x3000 := by
    decide
  have hm := (doMmap_spec exampleEnv gapLmm_ok ⟨none, 0x3000, 0x1001, 3, 0x22, 0, 0⟩ 0).1
    (by rw [hr]; decide)
  rw [hr] at hm
  exact ⟨⟨hr, hm⟩, by decide⟩

end Talios
