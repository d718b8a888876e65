import Talios.Mm.Vma

set_option autoImplicit false

/-! # The heap of a process

`sys_brk`, `do_brk` and `MapUserRange4K` on the pages of a process. The page tables are what they
mean: the frame of every page that is mapped. What `AllocPage4K` returns for a page, and whether
`walk_pte` gets its tables, are inputs of the call, so that an allocation may fail at any page.
A call for whose tables the class of pages of `kmalloc` has to grow does what it is given: the tables
are no map then. For the other calls `Talios.Mm.UserPages` proves this module of the tables themselves.

`sys_brk` stores what `do_brk` returns in `EndBrk`, also where that is an error: `brk_heap` says
which runs are right.
-/

namespace Talios

open Word

/-! ## Pages -/

/-- The frame of a page, by the 36 bits of its number that the tables use. -/
abbrev Pages := Nat → Option Nat

def pageNo (vaddr : Nat) : Nat := vaddr / PAGE_4K_SIZE % 2 ^ 36

/-- What happens when a page is to be mapped: `AllocPage4K` returns null, or a page for which
`walk_pte` has no table, or has one. -/
inductive PageOutcome
  | noPage
  | noTable (page : Nat)
  | ready (page : Nat)

/-- `MapPage4K`, of a page that is mapped already or has no table: `-ENOMEM`. -/
def mapUserPage (pages : Pages) (vaddr : Nat) : PageOutcome → Pages × Int
  | .noPage => (pages, -(ENOMEM : Int))
  | .noTable _ => (pages, -(ENOMEM : Int))
  | .ready page =>
      if (pages (pageNo vaddr)).isSome then (pages, -(ENOMEM : Int))
      else (Function.update pages (pageNo vaddr) (some page), 0)

/-- `UnmapPage4K`. -/
def unmapUserPage (pages : Pages) (vaddr : Nat) : Pages :=
  if vaddr % PAGE_4K_SIZE ≠ 0 then pages else Function.update pages (pageNo vaddr) none

/-- The loop of `MapUserRange4K` over `n` pages: the address at which it fails, if it does. -/
def mapRangeLoop (outcome : Nat → PageOutcome) : Nat → Nat → Pages → Pages × Option Nat
  | 0, _, pages => (pages, none)
  | n + 1, vaddr, pages =>
      match mapUserPage pages vaddr (outcome vaddr) with
      | (pages', 0) => mapRangeLoop outcome n (vaddr + PAGE_4K_SIZE) pages'
      | (pages', _) => (pages', some vaddr)

/-- The loop after a failure, from `vaddr` down to `first`. -/
def unmapBack (first : Nat) : Nat → Nat → Pages → Pages
  | 0, _, pages => pages
  | n + 1, vaddr, pages =>
      if vaddr = first then pages
      else unmapBack first n (vaddr - PAGE_4K_SIZE) (unmapUserPage pages (vaddr - PAGE_4K_SIZE))

/-- `MapUserRange4K`. -/
def mapUserRange4K (pages : Pages) (outcome : Nat → PageOutcome) (start size : Nat) :
    Pages × Int :=
  let first := alignDown PAGE_4K_SIZE start
  let last := alignUp64 PAGE_4K_SIZE (add64 start size)
  match mapRangeLoop outcome ((last - first) / PAGE_4K_SIZE) first pages with
  | (pages', none) => (pages', 0)
  | (pages', some vaddr) =>
      (unmapBack first ((vaddr - first) / PAGE_4K_SIZE) vaddr pages', -(ENOMEM : Int))

/-! ## The calls -/

/-- The heap of a process, and its pages. -/
structure Brk where
  startBrk : Nat
  endBrk : Nat
  pages : Pages

/-- What `MapUserRange4K` leaves and returns in a call for which the class of pages of `kmalloc`
grows, or has grown before: a table may lie on the bitmap of its own slab then, and any page be mapped.
There is nothing in the other calls. -/
abbrev GrownRange := Option (Pages × Int)

/-- `MapUserRange4K` in such a call or another one. -/
def mapUserPages (pages : Pages) (grown : GrownRange) (outcome : Nat → PageOutcome) (start size : Nat) :
    Pages × Int :=
  grown.getD (mapUserRange4K pages outcome start size)

@[simp] theorem mapUserPages_none (pages : Pages) (outcome : Nat → PageOutcome) (start size : Nat) :
    mapUserPages pages none outcome start size = mapUserRange4K pages outcome start size := rfl

/-- `do_brk`. -/
def doBrk (s : Brk) (grown : GrownRange) (outcome : Nat → PageOutcome) (start size : Nat) : Brk × Nat :=
  let stop := alignUp64 PAGE_4K_SIZE (add64 start size)
  let r := mapUserPages s.pages grown outcome start size
  if r.2 ≠ 0 then ({ s with pages := r.1 }, negErr ENOMEM)
  else ({ s with pages := r.1, endBrk := stop }, stop)

/-- `sys_brk`. -/
def sysBrk (s : Brk) (grown : GrownRange) (outcome : Nat → PageOutcome) (brk : Nat) : Brk × Nat :=
  let newBrk := alignUp64 PAGE_4K_SIZE brk
  if newBrk = 0 then (s, s.startBrk)
  else if newBrk < s.endBrk then (s, 0)
  else
    let r := doBrk s grown outcome s.endBrk (sub64 newBrk s.endBrk)
    ({ r.1 with endBrk := r.2 }, r.2)

def CODE_START_ADDR : Nat := 0x800000
def STACK_START_ADDR : Nat := 0xa00000
def BRK_START_ADDR : Nat := 0xc00000

/-- `do_execve`, of the pages: the window of code and stack is mapped in a fresh address space, or
the call fails. -/
def execveBrk (grown : GrownRange) (outcome : Nat → PageOutcome) : Option Brk :=
  let r := mapUserPages (fun _ => none) grown outcome CODE_START_ADDR
    (STACK_START_ADDR - CODE_START_ADDR)
  if r.2 ≠ 0 then none else some ⟨BRK_START_ADDR, BRK_START_ADDR, r.1⟩

/-- A call of `sys_brk`, with what the allocations in it do. -/
structure BrkCall where
  brk : Nat
  grown : GrownRange
  outcome : Nat → PageOutcome
  lt : brk < 2 ^ 64

/-- The states reached after a `do_execve` that meets `okExec` by calls that all meet `ok`. -/
inductive BrkReachable (okExec : GrownRange → Prop) (ok : Brk → BrkCall → Prop) : Brk → Prop
  | exec {grown : GrownRange} {outcome : Nat → PageOutcome} {s : Brk}
      (h : execveBrk grown outcome = some s) (hok : okExec grown) : BrkReachable okExec ok s
  | step {s : Brk} (c : BrkCall) (h : BrkReachable okExec ok s) (hok : ok s c) :
      BrkReachable okExec ok (sysBrk s c.grown c.outcome c.brk).1

/-! ## What is wanted -/

/-- The heap is a range of whole pages of user space, and from its start on exactly its pages are
mapped. -/
structure Brk.Ok (s : Brk) : Prop where
  aligned : PAGE_4K_SIZE ∣ s.endBrk
  lower : s.startBrk ≤ s.endBrk
  upper : s.endBrk ≤ USER_LIMIT
  mapped : ∀ a, s.startBrk ≤ a → a < USER_LIMIT →
    ((s.pages (a / PAGE_4K_SIZE)).isSome = true ↔ a < s.endBrk)

/-- The value is a negative error code. -/
def IsError (v : Nat) : Prop := 2 ^ 64 - 4096 < v

instance (v : Nat) : Decidable (IsError v) := inferInstanceAs (Decidable (_ < _))

/-- A call for more heap extends it, or reports an error and changes nothing. -/
def Brk.CallOk (s : Brk) (c : BrkCall) : Prop :=
  s.endBrk < c.brk →
    ((sysBrk s c.grown c.outcome c.brk).2 = alignUp64 PAGE_4K_SIZE c.brk ∧
      c.brk ≤ alignUp64 PAGE_4K_SIZE c.brk ∧
      (sysBrk s c.grown c.outcome c.brk).1.endBrk = alignUp64 PAGE_4K_SIZE c.brk) ∨
    (IsError (sysBrk s c.grown c.outcome c.brk).2 ∧ (sysBrk s c.grown c.outcome c.brk).1.endBrk = s.endBrk ∧
      (sysBrk s c.grown c.outcome c.brk).1.pages = s.pages)

/-- In the state before a call: the class of pages does not grow, the break asked for is in user space,
and no allocation fails. -/
def Brk.Room (s : Brk) (c : BrkCall) : Prop :=
  c.grown = none ∧ c.brk ≤ USER_LIMIT ∧ ∀ n, s.endBrk ≤ n * PAGE_4K_SIZE → n * PAGE_4K_SIZE < c.brk →
    ∃ page, c.outcome (n * PAGE_4K_SIZE) = .ready page

/-! ## Mapping a range -/

/-- All pages of the range `[k, l)` can be mapped. -/
def AllReady (outcome : Nat → PageOutcome) (k l : Nat) : Prop :=
  ∀ i, k ≤ i → i < l → ∃ page, outcome (i * PAGE_4K_SIZE) = .ready page

section

variable {outcome : Nat → PageOutcome} {pages : Pages}

theorem pageNo_mul {k : Nat} (h : k * PAGE_4K_SIZE < USER_LIMIT) :
    pageNo (k * PAGE_4K_SIZE) = k := by
  unfold pageNo
  rw [Nat.mul_div_cancel _ (by decide)]
  have h : k * 4096 < 0x0000800000000000 := h
  exact Nat.mod_eq_of_lt (by omega)

theorem unmapUserPage_mul {k : Nat} (h : k * PAGE_4K_SIZE < USER_LIMIT) :
    unmapUserPage pages (k * PAGE_4K_SIZE) = Function.update pages k none := by
  rw [unmapUserPage, if_neg (by rw [Nat.mul_mod_left]; simp), pageNo_mul h]

theorem mapUserPage_ready {vaddr page : Nat} (h : pages (pageNo vaddr) = none) :
    mapUserPage pages vaddr (.ready page)
      = (Function.update pages (pageNo vaddr) (some page), 0) := by
  rw [mapUserPage, h]
  rfl

/-- A page for which something is missing is not mapped. -/
theorem mapUserPage_fail {vaddr : Nat} {o : PageOutcome} (h : ∀ page, o ≠ .ready page) :
    mapUserPage pages vaddr o = (pages, -(ENOMEM : Int)) := by
  cases o with
  | noPage => rfl
  | noTable page => rfl
  | ready page => exact absurd rfl (h page)

/-- A page that cannot be mapped ends the loop. -/
theorem mapRangeLoop_stop {n vaddr : Nat}
    (h : mapUserPage pages vaddr (outcome vaddr) = (pages, -(ENOMEM : Int))) :
    mapRangeLoop outcome (n + 1) vaddr pages = (pages, some vaddr) := by
  rw [mapRangeLoop, h]
  rfl

theorem mapRangeLoop_go {n vaddr page : Nat} (hpage : outcome vaddr = .ready page)
    (hnone : pages (pageNo vaddr) = none) :
    mapRangeLoop outcome (n + 1) vaddr pages = mapRangeLoop outcome n (vaddr + PAGE_4K_SIZE)
      (Function.update pages (pageNo vaddr) (some page)) := by
  rw [mapRangeLoop, hpage, mapUserPage_ready hnone]
  rfl

/-- **The loop of `MapUserRange4K`** comes to its end exactly if every page is free and can be had. -/
theorem mapRangeLoop_none (n : Nat) : ∀ (k : Nat) (pages : Pages),
    (k + n) * PAGE_4K_SIZE ≤ USER_LIMIT →
    ((mapRangeLoop outcome n (k * PAGE_4K_SIZE) pages).2 = none ↔ ∀ i, k ≤ i → i < k + n →
      pages i = none ∧ ∃ page, outcome (i * PAGE_4K_SIZE) = .ready page) := by
  induction n with
  | zero =>
      intro k pages _
      exact iff_of_true rfl (fun i h1 h2 => absurd h2 (by omega))
  | succ n ih =>
      intro k pages hle
      have hk : k * PAGE_4K_SIZE < USER_LIMIT := by
        refine lt_of_lt_of_le ?_ hle
        exact Nat.mul_lt_mul_of_pos_right (by omega) (by decide)
      have hno := pageNo_mul hk
      have hnext : k * PAGE_4K_SIZE + PAGE_4K_SIZE = (k + 1) * PAGE_4K_SIZE := by
        rw [Nat.add_mul, Nat.one_mul]
      rw [mapRangeLoop]
      by_cases hfirst : pages k = none ∧ ∃ page, outcome (k * PAGE_4K_SIZE) = .ready page
      · obtain ⟨hfree, page, hpage⟩ := hfirst
        rw [hpage, mapUserPage_ready (by rw [hno]; exact hfree), hno, hnext]
        refine (ih (k + 1) _ (by rw [show k + 1 + n = k + (n + 1) by omega]; exact hle)).trans ?_
        constructor
        · intro h i h1 h2
          rcases Nat.eq_or_lt_of_le h1 with rfl | h1
          · exact ⟨hfree, page, hpage⟩
          · have hi := h i h1 (by omega)
            rw [Function.update_of_ne (by omega)] at hi
            exact hi
        · intro h i h1 h2
          rw [Function.update_of_ne (by omega)]
          exact h i (by omega) (by omega)
      · have hfail : mapUserPage pages (k * PAGE_4K_SIZE) (outcome (k * PAGE_4K_SIZE))
            = (pages, -(ENOMEM : Int)) := by
          by_cases hr : ∃ page, outcome (k * PAGE_4K_SIZE) = .ready page
          · obtain ⟨page, hpage⟩ := hr
            rw [hpage, mapUserPage, hno, if_pos]
            exact Option.isSome_iff_ne_none.mpr (fun h => hfirst ⟨h, page, hpage⟩)
          · push Not at hr
            exact mapUserPage_fail hr
        rw [hfail]
        exact iff_of_false (fun h => by cases h) (fun h => hfirst (h k le_rfl (by omega)))

/-- Where the loop ends before, the pages in front of that were not mapped, and only they are now. -/
theorem mapRangeLoop_failed (n : Nat) : ∀ (k v : Nat) (pages pages' : Pages),
    (k + n) * PAGE_4K_SIZE ≤ USER_LIMIT →
    mapRangeLoop outcome n (k * PAGE_4K_SIZE) pages = (pages', some v) →
    ∃ j < n, v = (k + j) * PAGE_4K_SIZE ∧ (∀ i, k ≤ i → i < k + j → pages i = none) ∧
      ∀ i, ¬ (k ≤ i ∧ i < k + j) → pages' i = pages i := by
  induction n with
  | zero => exact fun k v pages pages' _ h => nomatch (Prod.mk.inj h).2
  | succ n ih =>
      intro k v pages pages' hle h
      have hk : k * PAGE_4K_SIZE < USER_LIMIT :=
        lt_of_lt_of_le (Nat.mul_lt_mul_of_pos_right (by omega) (by decide)) hle
      have hno := pageNo_mul hk
      have hstop : mapUserPage pages (k * PAGE_4K_SIZE) (outcome (k * PAGE_4K_SIZE))
            = (pages, -(ENOMEM : Int)) → ∃ j < n + 1, v = (k + j) * PAGE_4K_SIZE ∧
          (∀ i, k ≤ i → i < k + j → pages i = none) ∧
          ∀ i, ¬ (k ≤ i ∧ i < k + j) → pages' i = pages i := by
        intro hfail
        rw [mapRangeLoop_stop hfail] at h
        obtain ⟨rfl, hv⟩ := Prod.mk.inj h
        exact ⟨0, by omega, (Option.some.inj hv).symm, fun i h1 h2 => absurd h2 (by omega),
          fun _ _ => rfl⟩
      by_cases hr : ∃ page, outcome (k * PAGE_4K_SIZE) = .ready page
      · obtain ⟨page, hpage⟩ := hr
        by_cases hnone : pages k = none
        · have hnext : k * PAGE_4K_SIZE + PAGE_4K_SIZE = (k + 1) * PAGE_4K_SIZE := by
            rw [Nat.add_mul, Nat.one_mul]
          rw [mapRangeLoop_go hpage (by rw [hno]; exact hnone), hno, hnext] at h
          obtain ⟨j, hj, hv, hfree, hother⟩ := ih (k + 1) v _ pages'
            (by rw [show k + 1 + n = k + (n + 1) by omega]; exact hle) h
          refine ⟨j + 1, by omega, by rw [hv, show k + 1 + j = k + (j + 1) by omega],
            fun i h1 h2 => ?_, fun i hi => ?_⟩
          · by_cases hik : i = k
            · rw [hik]
              exact hnone
            · have hi := hfree i (by omega) (by omega)
              rwa [Function.update_of_ne hik] at hi
          · rw [hother i (by omega), Function.update_of_ne (by omega)]
        · refine hstop ?_
          rw [hpage, mapUserPage, hno, if_pos (Option.isSome_iff_ne_none.mpr hnone)]
      · push Not at hr
        exact hstop (mapUserPage_fail hr)

/-- The pages with the frames `frames` from page `k` on. -/
def withFrames (pages : Pages) (k : Nat) (frames : List Nat) : Pages := fun i =>
  if k ≤ i ∧ i < k + frames.length then frames[i - k]? else pages i

/-- Where the loop comes to its end, the pages have the frames it was given. -/
theorem mapRangeLoop_all (frames : List Nat) : ∀ (k : Nat) (pages : Pages),
    (k + frames.length) * PAGE_4K_SIZE ≤ USER_LIMIT →
    (∀ i, k ≤ i → i < k + frames.length → pages i = none) →
    (∀ i (h : i < frames.length), outcome ((k + i) * PAGE_4K_SIZE) = .ready frames[i]) →
    mapRangeLoop outcome frames.length (k * PAGE_4K_SIZE) pages
      = (withFrames pages k frames, none) := by
  induction frames with
  | nil =>
      intro k pages _ _ _
      refine Prod.ext (funext fun i => ?_) rfl
      exact (if_neg (by simp)).symm
  | cons f frames ih =>
      intro k pages hle hfree hready
      rw [List.length_cons] at hle hfree
      have hk : k * PAGE_4K_SIZE < USER_LIMIT :=
        lt_of_lt_of_le (Nat.mul_lt_mul_of_pos_right (by omega) (by decide)) hle
      have hno := pageNo_mul hk
      have hnext : k * PAGE_4K_SIZE + PAGE_4K_SIZE = (k + 1) * PAGE_4K_SIZE := by
        rw [Nat.add_mul, Nat.one_mul]
      have hpage := hready 0 (by simp)
      rw [Nat.add_zero] at hpage
      rw [List.length_cons, mapRangeLoop_go hpage (by rw [hno]; exact hfree k le_rfl (by omega)), hno,
        hnext, ih (k + 1) _ (by rw [show k + 1 + frames.length = k + (frames.length + 1) by omega]; exact hle)
          (fun i h1 h2 => by rw [Function.update_of_ne (by omega)]; exact hfree i (by omega) (by omega))
          (fun i h => by
            have hi := hready (i + 1) (by simpa using h)
            rwa [show k + (i + 1) = k + 1 + i by omega] at hi)]
      refine Prod.ext (funext fun i => ?_) rfl
      show withFrames _ (k + 1) frames i = withFrames pages k (f :: frames) i
      unfold withFrames
      rw [List.length_cons]
      by_cases hik : i = k
      · rw [hik, if_neg (by omega), if_pos (by omega), Function.update_self, Nat.sub_self]
        rfl
      · rw [Function.update_of_ne hik]
        by_cases hin : k + 1 ≤ i ∧ i < k + 1 + frames.length
        · rw [if_pos hin, if_pos (by omega), show i - k = i - (k + 1) + 1 by omega]
          rfl
        · rw [if_neg hin, if_neg (by omega)]

/-- The pages from `k` on are unmapped again. -/
theorem unmapBack_spec (k : Nat) : ∀ (m : Nat) (pages : Pages),
    (k + m) * PAGE_4K_SIZE ≤ USER_LIMIT →
    ∀ i, unmapBack (k * PAGE_4K_SIZE) m ((k + m) * PAGE_4K_SIZE) pages i
      = if k ≤ i ∧ i < k + m then none else pages i := by
  intro m
  induction m with
  | zero =>
      intro pages _ i
      rw [unmapBack, if_neg (by omega)]
  | succ m ih =>
      intro pages hle i
      have hsub : (k + (m + 1)) * PAGE_4K_SIZE - PAGE_4K_SIZE = (k + m) * PAGE_4K_SIZE := by
        rw [← Nat.add_assoc, Nat.add_mul, Nat.one_mul, Nat.add_sub_cancel]
      have hne : (k + (m + 1)) * PAGE_4K_SIZE ≠ k * PAGE_4K_SIZE := by
        intro h
        have := Nat.eq_of_mul_eq_mul_right (show 0 < PAGE_4K_SIZE by decide) h
        omega
      have hlt : (k + m) * PAGE_4K_SIZE < USER_LIMIT := by
        refine lt_of_lt_of_le ?_ hle
        exact Nat.mul_lt_mul_of_pos_right (by omega) (by decide)
      rw [unmapBack, if_neg hne, hsub, ih _ hlt.le, unmapUserPage_mul hlt]
      by_cases hi : i = k + m
      · subst hi
        rw [if_neg (by omega), Function.update_self, if_pos (by omega)]
      · rw [Function.update_of_ne hi]
        by_cases hin : k ≤ i ∧ i < k + m
        · rw [if_pos hin, if_pos (by omega)]
        · rw [if_neg hin, if_neg (by omega)]

/-- `MapUserRange4K` of `n` pages from page `k` on. -/
theorem mapUserRange4K_loop {k n : Nat} (hle : (k + n) * PAGE_4K_SIZE ≤ USER_LIMIT) :
    mapUserRange4K pages outcome (k * PAGE_4K_SIZE) (n * PAGE_4K_SIZE)
      = match mapRangeLoop outcome n (k * PAGE_4K_SIZE) pages with
        | (pages', none) => (pages', 0)
        | (pages', some vaddr) => (unmapBack (k * PAGE_4K_SIZE)
            ((vaddr - k * PAGE_4K_SIZE) / PAGE_4K_SIZE) vaddr pages', -(ENOMEM : Int)) := by
  have hlim : USER_LIMIT + PAGE_4K_SIZE < 2 ^ 64 := by decide
  have hP : PAGE_4K_SIZE = 4096 := rfl
  have hfirst : alignDown PAGE_4K_SIZE (k * PAGE_4K_SIZE) = k * PAGE_4K_SIZE := by
    unfold alignDown
    rw [Nat.mul_div_cancel _ (by decide)]
  have hadd : add64 (k * PAGE_4K_SIZE) (n * PAGE_4K_SIZE) = (k + n) * PAGE_4K_SIZE := by
    rw [Nat.add_mul, add64_eq (by rw [← Nat.add_mul]; omega)]
  have hlast : alignUp64 PAGE_4K_SIZE ((k + n) * PAGE_4K_SIZE) = (k + n) * PAGE_4K_SIZE := by
    unfold alignUp64 alignDown
    rw [add64_eq (by omega)]
    show ((k + n) * 4096 + 4095) / 4096 * 4096 = (k + n) * 4096
    omega
  have hcount : ((k + n) * PAGE_4K_SIZE - k * PAGE_4K_SIZE) / PAGE_4K_SIZE = n := by
    rw [Nat.add_mul, Nat.add_sub_cancel_left, Nat.mul_div_cancel _ (by decide)]
  unfold mapUserRange4K
  rw [hadd, hlast, hfirst]
  dsimp only
  rw [hcount]

/-- A call that fails has changed nothing. -/
theorem mapUserRange4K_failed {k n : Nat} (hle : (k + n) * PAGE_4K_SIZE ≤ USER_LIMIT)
    (h : (mapRangeLoop outcome n (k * PAGE_4K_SIZE) pages).2 ≠ none) :
    mapUserRange4K pages outcome (k * PAGE_4K_SIZE) (n * PAGE_4K_SIZE)
      = (pages, -(ENOMEM : Int)) := by
  rw [mapUserRange4K_loop hle]
  rcases hr : mapRangeLoop outcome n (k * PAGE_4K_SIZE) pages with ⟨pages', _ | v⟩
  · rw [hr] at h
    exact absurd rfl h
  · obtain ⟨j, hj, rfl, hfree, hother⟩ := mapRangeLoop_failed n k v pages pages' hle hr
    have hcount : ((k + j) * PAGE_4K_SIZE - k * PAGE_4K_SIZE) / PAGE_4K_SIZE = j := by
      rw [Nat.add_mul, Nat.add_sub_cancel_left, Nat.mul_div_cancel _ (by decide)]
    dsimp only
    rw [hcount]
    refine Prod.ext (funext fun i => ?_) rfl
    show unmapBack _ _ _ _ i = pages i
    rw [unmapBack_spec k j pages' ((Nat.mul_le_mul_right _ (by omega)).trans hle) i]
    split
    · rename_i hin
      exact (hfree i hin.1 hin.2).symm
    · rename_i hout
      exact hother i hout

/-- **`MapUserRange4K`** of pages that are not mapped: all are mapped, or nothing is changed. -/
theorem mapUserRange4K_spec {k n : Nat} (hle : (k + n) * PAGE_4K_SIZE ≤ USER_LIMIT)
    (hfree : ∀ i, k ≤ i → i < k + n → pages i = none) :
    (AllReady outcome k (k + n) ∧ ∃ pages',
      mapUserRange4K pages outcome (k * PAGE_4K_SIZE) (n * PAGE_4K_SIZE) = (pages', 0) ∧
      ∀ i, if k ≤ i ∧ i < k + n then (pages' i).isSome = true else pages' i = pages i) ∨
    (¬ AllReady outcome k (k + n) ∧
      mapUserRange4K pages outcome (k * PAGE_4K_SIZE) (n * PAGE_4K_SIZE)
        = (pages, -(ENOMEM : Int))) := by
  by_cases hall : AllReady outcome k (k + n)
  · -- the frames in the order of the pages
    choose frame hframe using hall
    have hlen : (List.ofFn (fun i : Fin n => frame (k + i) (by omega) (by omega))).length = n :=
      List.length_ofFn
    have hloop := @mapRangeLoop_all outcome
      (List.ofFn (fun i : Fin n => frame (k + i) (by omega) (by omega))) k pages (by rw [hlen]; exact hle)
      (by rw [hlen]; exact hfree) (fun i h => by rw [List.getElem_ofFn]; exact hframe ..)
    rw [hlen] at hloop
    refine Or.inl ⟨fun i h1 h2 => ⟨_, hframe i h1 h2⟩, _, by rw [mapUserRange4K_loop hle, hloop],
      fun i => ?_⟩
    unfold withFrames
    rw [hlen]
    by_cases hin : k ≤ i ∧ i < k + n
    · rw [if_pos hin, if_pos hin, List.getElem?_eq_getElem (by omega)]
      rfl
    · rw [if_neg hin, if_neg hin]
  · refine Or.inr ⟨hall, mapUserRange4K_failed hle (fun hc => hall fun i h1 h2 => ?_)⟩
    exact ((mapRangeLoop_none n k pages hle).mp hc i h1 h2).2

/-- A range is mapped only if it was free. -/
theorem mapUserRange4K_free {k n : Nat} (hle : (k + n) * PAGE_4K_SIZE ≤ USER_LIMIT)
    (h : (mapUserRange4K pages outcome (k * PAGE_4K_SIZE) (n * PAGE_4K_SIZE)).2 = 0) :
    ∀ i, k ≤ i → i < k + n → pages i = none := by
  by_cases hr : (mapRangeLoop outcome n (k * PAGE_4K_SIZE) pages).2 = none
  · exact fun i h1 h2 => ((mapRangeLoop_none n k pages hle).mp hr i h1 h2).1
  · rw [mapUserRange4K_failed hle hr] at h
    exact absurd h (by simp [ENOMEM])

end

/-! ## `sys_brk` -/

theorem page_mul (n : Nat) : n * PAGE_4K_SIZE = 4096 * n := by
  rw [show PAGE_4K_SIZE = 4096 from rfl, Nat.mul_comm]

/-- The break rounded up to pages, where that does not wrap around. -/
theorem alignUp_page {a : Nat} (h : a + 4095 < 2 ^ 64) :
    alignUp64 PAGE_4K_SIZE a = (a + 4095) / 4096 * PAGE_4K_SIZE := by
  unfold alignUp64 alignDown
  rw [show PAGE_4K_SIZE - 1 = 4095 from rfl, add64_eq h, show PAGE_4K_SIZE = 4096 from rfl]

/-- `EndBrk` is the end of page `k`. -/
theorem Brk.Ok.endBrk_eq {s : Brk} (hs : s.Ok) : ∃ k, s.endBrk = k * PAGE_4K_SIZE := by
  obtain ⟨k, hk⟩ := hs.aligned
  exact ⟨k, hk.trans (Nat.mul_comm _ _)⟩

section

variable {s : Brk} {c : BrkCall}

theorem doBrk_eq (grown : GrownRange) (outcome : Nat → PageOutcome) (start size : Nat) :
    doBrk s grown outcome start size
      = if (mapUserPages s.pages grown outcome start size).2 ≠ 0
        then (⟨s.startBrk, s.endBrk, (mapUserPages s.pages grown outcome start size).1⟩,
          negErr ENOMEM)
        else (⟨s.startBrk, alignUp64 PAGE_4K_SIZE (add64 start size),
            (mapUserPages s.pages grown outcome start size).1⟩,
          alignUp64 PAGE_4K_SIZE (add64 start size)) := rfl

/-- A call that goes on to `do_brk`. -/
theorem sysBrk_grow {l : Nat} (hl : alignUp64 PAGE_4K_SIZE c.brk = l * PAGE_4K_SIZE)
    (hlt : l * PAGE_4K_SIZE < 2 ^ 64) (h0 : l ≠ 0) (hge : s.endBrk ≤ l * PAGE_4K_SIZE) :
    sysBrk s c.grown c.outcome c.brk
      = if (mapUserPages s.pages c.grown c.outcome s.endBrk (l * PAGE_4K_SIZE - s.endBrk)).2 ≠ 0
        then (⟨s.startBrk, negErr ENOMEM,
          (mapUserPages s.pages c.grown c.outcome s.endBrk (l * PAGE_4K_SIZE - s.endBrk)).1⟩,
          negErr ENOMEM)
        else (⟨s.startBrk, l * PAGE_4K_SIZE,
          (mapUserPages s.pages c.grown c.outcome s.endBrk (l * PAGE_4K_SIZE - s.endBrk)).1⟩,
          l * PAGE_4K_SIZE) := by
  have hml := page_mul l
  have hstop : alignUp64 PAGE_4K_SIZE (add64 s.endBrk (l * PAGE_4K_SIZE - s.endBrk))
      = l * PAGE_4K_SIZE := by
    rw [add64_eq (by omega), Nat.add_sub_cancel' hge, alignUp_page (by omega)]
    congr 1
    omega
  unfold sysBrk
  dsimp only
  rw [hl, if_neg (by omega), if_neg (by omega), sub64_eq hge hlt, doBrk_eq, hstop]
  generalize mapUserPages s.pages c.grown c.outcome s.endBrk (l * PAGE_4K_SIZE - s.endBrk) = r
  by_cases hf : r.2 ≠ 0
  · rw [if_pos hf, if_pos hf]
  · rw [if_neg hf, if_neg hf]

theorem allReady_iff {k : Nat} (hk : s.endBrk = k * PAGE_4K_SIZE) (hg : c.grown = none)
    (hb : c.brk ≤ USER_LIMIT) : AllReady c.outcome k ((c.brk + 4095) / 4096) ↔ s.Room c := by
  have hmk := page_mul k
  constructor
  · intro h
    refine ⟨hg, hb, fun n h1 h2 => h n ?_ ?_⟩
    · have := page_mul n
      omega
    · have := page_mul n
      omega
  · intro h n h1 h2
    have := page_mul n
    exact h.2.2 n (by omega) (by omega)

/-- Behind the heap nothing is mapped. -/
theorem Brk.Ok.free (hs : s.Ok) {i : Nat} (h1 : s.endBrk ≤ i * PAGE_4K_SIZE)
    (h2 : i * PAGE_4K_SIZE < USER_LIMIT) : s.pages i = none := by
  have hm := hs.mapped (i * PAGE_4K_SIZE) (hs.lower.trans h1) h2
  rw [Nat.mul_div_cancel _ (by decide)] at hm
  cases hp : s.pages i with
  | none => rfl
  | some p =>
      rw [hp] at hm
      have := hm.mp rfl
      omega

/-- The heap after its pages have been mapped. -/
theorem Brk.Ok.extend (hs : s.Ok) {k l : Nat} {pages' : Pages} (hk : s.endBrk = k * PAGE_4K_SIZE)
    (hkl : k ≤ l) (hl : l * PAGE_4K_SIZE ≤ USER_LIMIT)
    (hmap : ∀ i, if k ≤ i ∧ i < l then (pages' i).isSome = true else pages' i = s.pages i) :
    Brk.Ok ⟨s.startBrk, l * PAGE_4K_SIZE, pages'⟩ := by
  have hmk := page_mul k
  have hml := page_mul l
  have hlow := hs.lower
  refine ⟨Nat.dvd_mul_left _ _, ?_, hl, fun a h1 h2 => ?_⟩
  · show s.startBrk ≤ l * PAGE_4K_SIZE
    omega
  · show (pages' (a / PAGE_4K_SIZE)).isSome = true ↔ a < l * PAGE_4K_SIZE
    have hi := hmap (a / PAGE_4K_SIZE)
    have hold := hs.mapped a h1 h2
    have hdiv : a / PAGE_4K_SIZE = a / 4096 := rfl
    by_cases hin : k ≤ a / PAGE_4K_SIZE ∧ a / PAGE_4K_SIZE < l
    · rw [if_pos hin] at hi
      exact iff_of_true hi (by omega)
    · rw [if_neg hin] at hi
      rw [hi, hold]
      omega

/-- A call for more heap, in user space: the heap is extended, or `EndBrk` becomes an error code. -/
theorem sysBrk_user (hs : s.Ok) {l : Nat} (hg : c.grown = none) (hb : c.brk ≤ USER_LIMIT)
    (hl : (c.brk + 4095) / 4096 = l) (h0 : l ≠ 0) (hge : s.endBrk ≤ l * PAGE_4K_SIZE) :
    (s.Room c ∧ (sysBrk s c.grown c.outcome c.brk).1.Ok ∧
      (sysBrk s c.grown c.outcome c.brk).2 = l * PAGE_4K_SIZE ∧
      (sysBrk s c.grown c.outcome c.brk).1.endBrk = l * PAGE_4K_SIZE) ∨
    (¬ s.Room c ∧ (sysBrk s c.grown c.outcome c.brk).1.endBrk = negErr ENOMEM) := by
  have hL : USER_LIMIT = 0x0000800000000000 := rfl
  obtain ⟨k, hk⟩ := hs.endBrk_eq
  have hmk := page_mul k
  have hml := page_mul l
  have hup := alignUp_page (a := c.brk) (by omega)
  have hready := allReady_iff hk hg hb
  rw [hl] at hup hready
  have hkl : k ≤ l := by omega
  have hlim : l * PAGE_4K_SIZE ≤ USER_LIMIT := by omega
  have hgrow := sysBrk_grow hup (by omega) h0 hge
  rw [hg, mapUserPages_none] at hgrow
  have hspec := @mapUserRange4K_spec c.outcome s.pages k (l - k)
    (by rw [Nat.add_sub_cancel' hkl]; exact hlim) (fun i h1 h2 => by
      have hmi := page_mul i
      exact hs.free (by omega) (by omega))
  rw [Nat.add_sub_cancel' hkl, Nat.sub_mul, ← hk] at hspec
  rw [hg, hgrow]
  rcases hspec with ⟨hall, pages', he, hmap⟩ | ⟨hall, he⟩
  · rw [he, if_neg (by simp)]
    exact Or.inl ⟨hready.mp hall, hs.extend hk hkl hlim hmap, rfl, rfl⟩
  · rw [he, if_pos (by simp [ENOMEM])]
    exact Or.inr ⟨mt hready.mpr hall, rfl⟩

/-- A call beyond user space: it is taken for a question, or `EndBrk` leaves user space. -/
theorem sysBrk_beyond (hs : s.Ok) (hb : USER_LIMIT < c.brk) :
    (sysBrk s c.grown c.outcome c.brk = (s, s.startBrk) ∧ alignUp64 PAGE_4K_SIZE c.brk = 0) ∨
    USER_LIMIT < (sysBrk s c.grown c.outcome c.brk).1.endBrk := by
  have hL : USER_LIMIT = 0x0000800000000000 := rfl
  have hup := hs.upper
  by_cases hwrap : c.brk + 4095 < 2 ^ 64
  · right
    have halign := alignUp_page hwrap
    generalize hl : (c.brk + 4095) / 4096 = l at halign
    have hml := page_mul l
    rw [sysBrk_grow halign (by omega) (by omega) (by omega)]
    generalize mapUserPages s.pages c.grown c.outcome s.endBrk (l * PAGE_4K_SIZE - s.endBrk) = r
    by_cases hf : r.2 ≠ 0
    · rw [if_pos hf]
      show USER_LIMIT < negErr ENOMEM
      decide
    · rw [if_neg hf]
      show USER_LIMIT < l * PAGE_4K_SIZE
      omega
  · left
    have hlt := c.lt
    have hzero : alignUp64 PAGE_4K_SIZE c.brk = 0 := by
      unfold alignUp64 alignDown add64
      rw [show PAGE_4K_SIZE - 1 = 4095 from rfl, show PAGE_4K_SIZE = 4096 from rfl]
      omega
    refine ⟨?_, hzero⟩
    unfold sysBrk
    dsimp only
    rw [hzero, if_pos rfl]

/-- A call that does not ask for more. -/
theorem sysBrk_less (hs : s.Ok) (hg : c.grown = none) (hb : c.brk ≤ s.endBrk) :
    s.Room c ∧ (sysBrk s c.grown c.outcome c.brk).1.Ok := by
  have hL : USER_LIMIT = 0x0000800000000000 := rfl
  have hup := hs.upper
  have hroom : s.Room c := ⟨hg, hb.trans hup, fun n h1 h2 => absurd h2 (by omega)⟩
  refine ⟨hroom, ?_⟩
  have halign := alignUp_page (a := c.brk) (by omega)
  obtain ⟨k, hk⟩ := hs.endBrk_eq
  have hmk := page_mul k
  have hml := page_mul ((c.brk + 4095) / 4096)
  by_cases h0 : (c.brk + 4095) / 4096 = 0
  · unfold sysBrk
    dsimp only
    rw [halign, if_pos (by omega)]
    exact hs
  by_cases hlt : (c.brk + 4095) / 4096 * PAGE_4K_SIZE < s.endBrk
  · unfold sysBrk
    dsimp only
    rw [halign, if_neg (by omega), if_pos hlt]
    exact hs
  · rcases sysBrk_user hs hg (hb.trans hup) rfl h0 (by omega) with ⟨-, hok, -⟩ | ⟨hno, -⟩
    · exact hok
    · exact absurd hroom hno

/-- **One call**: it does what it should exactly where the break asked for is in user space and no
allocation fails. -/
theorem sysBrk_ok (hs : s.Ok) (c : BrkCall) (hg : c.grown = none) :
    (sysBrk s c.grown c.outcome c.brk).1.Ok ∧ s.CallOk c ↔ s.Room c := by
  have hL : USER_LIMIT = 0x0000800000000000 := rfl
  have hup := hs.upper
  have hlow := hs.lower
  by_cases hmore : s.endBrk < c.brk
  · by_cases hb : c.brk ≤ USER_LIMIT
    · have hml := page_mul ((c.brk + 4095) / 4096)
      have halign := alignUp_page (a := c.brk) (by omega)
      rcases sysBrk_user hs hg hb rfl (by omega) (by omega) with ⟨hr, hok, h1, h2⟩ | ⟨hr, he⟩
      · refine iff_of_true ⟨hok, fun _ => Or.inl ⟨?_, ?_, ?_⟩⟩ hr
        · rw [h1, halign]
        · rw [halign]
          omega
        · rw [h2, halign]
      · refine iff_of_false (fun h => ?_) hr
        have hle := h.1.upper
        rw [he] at hle
        exact absurd hle (by decide)
    · refine iff_of_false (fun h => ?_) (fun h => hb h.2.1)
      rcases sysBrk_beyond hs (Nat.lt_of_not_le hb) with ⟨he, h0⟩ | hgt
      · rcases h.2 hmore with ⟨-, hle, -⟩ | ⟨herr, -⟩
        · omega
        · rw [he] at herr
          have herr : 2 ^ 64 - 4096 < s.startBrk := herr
          omega
      · have := h.1.upper
        omega
  · obtain ⟨hr, hok⟩ := sysBrk_less (c := c) hs hg (Nat.le_of_not_lt hmore)
    exact iff_of_true ⟨hok, fun h => absurd h hmore⟩ hr

end

/-- The heap of a new process starts at `BRK_START_ADDR`. -/
theorem execveBrk_start {grown : GrownRange} {outcome : Nat → PageOutcome} {s : Brk}
    (h : execveBrk grown outcome = some s) :
    s.startBrk = BRK_START_ADDR ∧ s.endBrk = BRK_START_ADDR := by
  unfold execveBrk at h
  dsimp only at h
  generalize mapUserPages (fun _ => none) grown outcome CODE_START_ADDR
    (STACK_START_ADDR - CODE_START_ADDR) = r at h
  by_cases hf : r.2 ≠ 0
  · rw [if_pos hf] at h
    cases h
  · rw [if_neg hf] at h
    cases h
    exact ⟨rfl, rfl⟩

/-- After `do_execve` the heap is empty. -/
theorem execveBrk_ok {outcome : Nat → PageOutcome} {s : Brk}
    (h : execveBrk none outcome = some s) : s.Ok := by
  have hspec := @mapUserRange4K_spec outcome (fun _ => none) 0x800 0x200 (by decide)
    (fun _ _ _ => rfl)
  unfold execveBrk at h
  rw [mapUserPages_none, show CODE_START_ADDR = 0x800 * PAGE_4K_SIZE from rfl,
    show STACK_START_ADDR - 0x800 * PAGE_4K_SIZE = 0x200 * PAGE_4K_SIZE from rfl] at h
  rcases hspec with ⟨-, pages', he, hmap⟩ | ⟨-, he⟩
  · rw [he] at h
    dsimp only at h
    rw [if_neg (by simp)] at h
    cases h
    refine ⟨show PAGE_4K_SIZE ∣ BRK_START_ADDR by decide, le_rfl,
      show BRK_START_ADDR ≤ USER_LIMIT by decide, fun a h1 h2 => ?_⟩
    have h1 : 0xc00000 ≤ a := h1
    have hi := hmap (a / PAGE_4K_SIZE)
    have hdiv : a / PAGE_4K_SIZE = a / 4096 := rfl
    rw [if_neg (by omega)] at hi
    show (pages' (a / PAGE_4K_SIZE)).isSome = true ↔ a < 0xc00000
    rw [hi]
    exact iff_of_false (by simp) (by omega)
  · rw [he] at h
    dsimp only at h
    rw [if_pos (by simp [ENOMEM])] at h
    cases h

/-- **The heap**: in every run for which the class of pages does not grow, and whose calls ask for user
space and have their allocations, every state is right; and the next call for which the class does not
grow does what it should exactly if it is one more of them. -/
theorem brk_heap (s : Brk) (h : BrkReachable (· = none) Brk.Room s) :
    s.Ok ∧ ∀ c, c.grown = none →
      ((sysBrk s c.grown c.outcome c.brk).1.Ok ∧ s.CallOk c ↔ s.Room c) := by
  have hs : s.Ok := by
    induction h with
    | exec h hg => exact execveBrk_ok (hg ▸ h)
    | step c _ hok ih => exact ((sysBrk_ok ih c hok.1).mpr hok).1
  exact ⟨hs, sysBrk_ok hs⟩

theorem execveBrk_ready :
    ∃ s, execveBrk none (fun _ => .ready 0) = some s ∧ s.endBrk = 0xc00000 := by
  have hspec := @mapUserRange4K_spec (fun _ => .ready 0) (fun _ => none) 0x800 0x200 (by decide)
    (fun _ _ _ => rfl)
  unfold execveBrk
  rw [mapUserPages_none, show CODE_START_ADDR = 0x800 * PAGE_4K_SIZE from rfl,
    show STACK_START_ADDR - 0x800 * PAGE_4K_SIZE = 0x200 * PAGE_4K_SIZE from rfl]
  rcases hspec with ⟨-, pages', he, -⟩ | ⟨hno, -⟩
  · rw [he]
    dsimp only
    rw [if_neg (by simp)]
    exact ⟨_, rfl, rfl⟩
  · exact absurd (fun _ _ _ => ⟨0, rfl⟩) hno

/-- The first page of the heap is asked for. -/
theorem brk_heap_example : ∃ s, BrkReachable (· = none) Brk.Room s ∧ s.endBrk = 0xc01000 ∧ s.Ok := by
  obtain ⟨s, hs, he⟩ := execveBrk_ready
  have hroom : s.Room ⟨0xc01000, none, fun _ => .ready 0, by decide⟩ :=
    ⟨rfl, show 0xc01000 ≤ USER_LIMIT by decide, fun n _ _ => ⟨0, rfl⟩⟩
  have hr := BrkReachable.step ⟨0xc01000, none, fun _ => .ready 0, by decide⟩
    (@BrkReachable.exec (· = none) _ _ _ s hs rfl) hroom
  refine ⟨_, hr, ?_, (brk_heap _ hr).1⟩
  rcases @sysBrk_user s ⟨0xc01000, none, fun _ => .ready 0, by decide⟩ (execveBrk_ok hs) 0xc01 rfl
    (show 0xc01000 ≤ USER_LIMIT by decide) rfl (by decide) (by rw [he]; decide) with
    ⟨-, -, -, h⟩ | ⟨hno, -⟩
  · rw [h]
    decide
  · exact absurd hroom hno

/-- There is no page to be had: `EndBrk` becomes `-ENOMEM`. -/
theorem brk_heap_fails : ¬ ∀ s, BrkReachable (fun _ => True) (fun _ _ => True) s → s.Ok := by
  intro hall
  obtain ⟨s, hs, he⟩ := execveBrk_ready
  have hok := hall _ (BrkReachable.step ⟨0xc01000, none, fun _ => .noPage, by decide⟩
    (.exec hs trivial) trivial)
  rcases @sysBrk_user s ⟨0xc01000, none, fun _ => .noPage, by decide⟩ (execveBrk_ok hs) 0xc01 rfl
    (show 0xc01000 ≤ USER_LIMIT by decide) rfl (by decide) (by rw [he]; decide) with
    ⟨hroom, -⟩ | ⟨-, h⟩
  · obtain ⟨page, hpage⟩ := hroom.2.2 0xc00 (by rw [he]; decide) (by decide)
    cases hpage
  · have hle := hok.upper
    rw [h] at hle
    exact absurd hle (by decide)

end Talios
