import Talios.Mm.VmaRun
import Talios.Mm.Brk

set_option autoImplicit false

/-! # The parts of a user address space

`do_mmap`, `do_munmap` and `sys_brk` on one process: the window of code and stack, which is two
constants of `do_execve`, the heap, which is two fields of the manager, and the list of areas. Each
call looks at one of the three only, so that nothing keeps them apart but its arguments:
`userSpace_partition` says which runs are right.

As in `Talios.Mm.Brk` the page tables are what they mean, in the calls for which the class of pages of
`kmalloc` has not grown; another call does what it is given.
-/

namespace Talios

open Word

/-! ## The calls -/

/-- The loop of `unmap_anonymous_pages`. -/
def unmapPagesLoop : Nat → Nat → Pages → Pages
  | 0, _, pages => pages
  | n + 1, address, pages =>
      unmapPagesLoop n (address + PAGE_4K_SIZE) (unmapUserPage pages address)

/-- The rest of the kernel, for one call: the pages of the process, and what `kmalloc` returns each
time it is called. -/
def pagesEnv : VmaEnv (Pages × List (Option Nat)) where
  kmalloc s := ((s.1, s.2.tail), s.2.headD none)
  kfree s _ := s
  unmapAnonymousPages s _ start stop :=
    (unmapPagesLoop ((stop - start + (PAGE_4K_SIZE - 1)) / PAGE_4K_SIZE) start s.1, s.2)

/-- What a process has of user space. -/
structure UserSpace where
  mm : Lmm
  brk : Brk

/-- The calls. `grown` is what `do_munmap` leaves of the pages where the class of pages has grown. -/
inductive SpaceCall
  | mmap (a : MmapArgs) (blocks : List (Option Nat))
  | munmap (addr len : Nat) (blocks : List (Option Nat)) (grown : Option Pages)
  | brk (c : BrkCall)

def UserSpace.call (s : UserSpace) : SpaceCall → UserSpace
  | .mmap a blocks =>
      let r := doMmap pagesEnv s.mm a (s.brk.pages, blocks)
      ⟨r.1, { s.brk with pages := r.2.1.1 }⟩
  | .munmap addr len blocks grown =>
      let r := doMunmap pagesEnv s.mm addr len (s.brk.pages, blocks)
      ⟨r.1, { s.brk with pages := grown.getD r.2.1.1 }⟩
  | .brk c => ⟨s.mm, (sysBrk s.brk c.grown c.outcome c.brk).1⟩

/-- `do_execve` with a fresh manager. -/
def execveSpace (mm : Lmm) (grown : GrownRange) (outcome : Nat → PageOutcome) : Option UserSpace :=
  (execveBrk grown outcome).map (fun brk => ⟨lmmInit mm, brk⟩)

/-- The states reached after a `do_execve` that meets `okExec` by calls that all meet `ok`. -/
inductive UserReachable (okExec : GrownRange → Prop) (ok : UserSpace → SpaceCall → Prop) :
    UserSpace → Prop
  | exec {mm : Lmm} {grown : GrownRange} {outcome : Nat → PageOutcome} {s : UserSpace}
      (h : execveSpace mm grown outcome = some s) (hok : okExec grown) : UserReachable okExec ok s
  | step {s : UserSpace} (c : SpaceCall) (h : UserReachable okExec ok s) (hok : ok s c) :
      UserReachable okExec ok (s.call c)

/-! ## What is wanted -/

/-- The address is in the window of code and stack, or in the heap. -/
def UserSpace.InUse (s : UserSpace) (a : Nat) : Prop :=
  (CODE_START_ADDR ≤ a ∧ a < STACK_START_ADDR) ∨ (s.brk.startBrk ≤ a ∧ a < s.brk.endBrk)

/-- `[start, stop)` is free of both. -/
def UserSpace.Avoids (s : UserSpace) (start stop : Nat) : Prop :=
  ∀ a, start ≤ a → a < stop → ¬ s.InUse a

/-- No area meets the window or the heap. -/
def UserSpace.Partition (s : UserSpace) : Prop :=
  ∀ v ∈ s.mm.vmaList, s.Avoids v.start v.stop

/-- The call leaves the pages of the window and the heap where they are. -/
def UserSpace.Keeps (s : UserSpace) (c : SpaceCall) : Prop :=
  ∀ a, a < USER_LIMIT → s.InUse a →
    (s.call c).brk.pages (a / PAGE_4K_SIZE) = s.brk.pages (a / PAGE_4K_SIZE)

/-! ## When it is so -/

/-- The class of pages has not grown for the call. -/
def SpaceCall.Ungrown : SpaceCall → Prop
  | .mmap _ _ => True
  | .munmap _ _ _ grown => grown = none
  | .brk c => c.grown = none

/-- Where `do_mmap` is sent to: the address of a fixed mapping, a hint that is free, or else what
`find_unmapped_area` finds. -/
def mmapPlace (mm : Lmm) (a : MmapArgs) (len : Nat) : Nat :=
  if hasFlag a.flags MAP_FIXED then a.addr
  else if a.addr ≠ 0 ∧ rangeIsFree mm (alignDown PAGE_4K_SIZE a.addr) len = true then
    alignDown PAGE_4K_SIZE a.addr
  else findUnmappedArea mm len

/-- The heap can be extended by the pages up to `stop`. -/
def Brk.Extends (s : Brk) (c : BrkCall) (stop : Nat) : Prop :=
  ∀ n, s.endBrk ≤ n * PAGE_4K_SIZE → n * PAGE_4K_SIZE < stop →
    s.pages n = none ∧ ∃ page, c.outcome (n * PAGE_4K_SIZE) = .ready page

/-- In the state before a call: a mapping that is free of areas and gets its block is sent to a
place free of window and heap; a heap that grows finds no area in its way, and one that cannot grow
finds no area above its start. -/
def UserSpace.Apart (s : UserSpace) : SpaceCall → Prop
  | .mmap a blocks => ∀ len, mmapCheck a = .ok len → (blocks.headD none).isSome = true →
      mmapPlace s.mm a len % PAGE_4K_SIZE = 0 → rangeIsFree s.mm (mmapPlace s.mm a len) len = true →
      s.Avoids (mmapPlace s.mm a len) (mmapPlace s.mm a len + len)
  | .munmap _ _ _ _ => True
  | .brk c =>
      alignUp64 PAGE_4K_SIZE c.brk ≠ 0 → s.brk.endBrk ≤ alignUp64 PAGE_4K_SIZE c.brk →
      ∀ v ∈ s.mm.vmaList, ∀ a, v.start ≤ a → a < v.stop → s.brk.startBrk ≤ a →
        alignUp64 PAGE_4K_SIZE c.brk ≤ a ∧ s.brk.Extends c (alignUp64 PAGE_4K_SIZE c.brk)

/-- Besides, the class of pages has not grown. -/
def UserSpace.Clear (s : UserSpace) (c : SpaceCall) : Prop := c.Ungrown ∧ s.Apart c

/-! ## `do_mmap` -/

/-- `insert_vma` and `range_is_free` agree on what is free. -/
theorem insertLoop_isSome (v : VmArea) : ∀ l : List VmArea,
    (insertLoop v l).isSome = rangeLoop v.start v.stop l := by
  intro l
  induction l with
  | nil => rfl
  | cons p rest ih =>
      rw [insertLoop, rangeLoop]
      by_cases h1 : v.stop ≤ p.start
      · rw [if_pos h1, if_pos h1]
        rfl
      · rw [if_neg h1, if_neg h1]
        by_cases h2 : v.start < p.stop
        · rw [if_pos h2, if_pos ⟨h2, Nat.lt_of_not_le h1⟩]
          rfl
        · rw [if_neg h2, if_neg (fun h => h2 h.1), Option.isSome_map, ih]

/-- The length `do_mmap` goes on with. -/
theorem mmapCheck_len {a : MmapArgs} {len : Nat} (h : mmapCheck a = .ok len) :
    len ≠ 0 ∧ len % PAGE_4K_SIZE = 0 ∧ len ≤ USER_LIMIT := by
  unfold mmapCheck at h
  obtain ⟨-, h⟩ := ok_of_check h
  obtain ⟨-, h⟩ := ok_of_check h
  obtain ⟨-, h⟩ := ok_of_check h
  obtain ⟨-, h⟩ := ok_of_check h
  obtain ⟨-, h⟩ := ok_of_check h
  obtain ⟨-, h⟩ := ok_of_check h
  obtain ⟨-, h⟩ := ok_of_check h
  obtain ⟨-, h⟩ := ok_of_check h
  obtain ⟨-, h⟩ := ok_of_check h
  obtain ⟨hlen, h⟩ := ok_of_check h
  obtain ⟨-, h⟩ := ok_of_check h
  obtain ⟨-, h⟩ := ok_of_check h
  obtain rfl := Except.ok.inj h
  push Not at hlen
  refine ⟨hlen.1, ?_, hlen.2⟩
  unfold alignUp64 alignDown
  exact Nat.mul_mod_left _ _

/-- An address that is no error code is the place `do_mmap` was sent to. -/
theorem getUnmappedArea_place {mm : Lmm} {a : MmapArgs} {len : Nat}
    (h : getUnmappedArea mm a.addr len a.flags < 2 ^ 63) :
    getUnmappedArea mm a.addr len a.flags = mmapPlace mm a len := by
  have herr : ∀ e, e ≤ 100 → ¬ negErr e < 2 ^ 63 := by
    intro e he
    unfold negErr
    omega
  unfold getUnmappedArea mmapPlace at *
  split at h
  · exact absurd h (herr EINVAL (by decide))
  rename_i hlen
  rw [if_neg hlen]
  split at h
  · rename_i hfix
    rw [if_pos hfix, if_pos hfix]
    split at h
    · exact absurd h (herr EINVAL (by decide))
    rename_i hal
    rw [if_neg hal]
    split at h
    · exact absurd h (herr ENOMEM (by decide))
    rename_i hrange
    rw [if_neg hrange]
  · rename_i hfix
    rw [if_neg hfix, if_neg hfix]

/-- A place that is free is what `__get_unmapped_area` returns. -/
theorem getUnmappedArea_of_free {mm : Lmm} {a : MmapArgs} {len : Nat} (h0 : len ≠ 0)
    (hlen : len % PAGE_4K_SIZE = 0) (hal : mmapPlace mm a len % PAGE_4K_SIZE = 0)
    (hfree : rangeIsFree mm (mmapPlace mm a len) len = true) :
    getUnmappedArea mm a.addr len a.flags = mmapPlace mm a len := by
  unfold getUnmappedArea
  rw [if_neg (by omega)]
  unfold mmapPlace at *
  split
  · rename_i hfix
    rw [if_pos hfix] at hal hfree
    rw [if_neg (by omega)]
    unfold rangeIsFree at hfree
    split at hfree
    · cases hfree
    · rename_i hrange
      rw [if_neg (fun h => hrange (Or.inr (Or.inr h)))]
  · rfl

section

variable {mm : Lmm} {a : MmapArgs} {blocks : List (Option Nat)} {pages : Pages}

/-- The area of a call that has an address, as `insert_vma` sees it. -/
theorem mmapArea_insert {p addr len : Nat} (haddr : addr < 2 ^ 63) (h0 : len ≠ 0)
    (hlen : len % PAGE_4K_SIZE = 0) (hle : len ≤ USER_LIMIT) :
    (insertVma mm (mmapArea mm a p addr len)).2 = 1 ↔
      addr % PAGE_4K_SIZE = 0 ∧ rangeIsFree mm addr len = true := by
  have hL : USER_LIMIT = 0x0000800000000000 := rfl
  have hP : PAGE_4K_SIZE = 4096 := rfl
  have hstop : (mmapArea mm a p addr len).stop = addr + len := add64_eq (by omega)
  have hsome : (insertLoop (mmapArea mm a p addr len) mm.vmaList).isSome
      = rangeLoop addr (addr + len) mm.vmaList := by
    rw [insertLoop_isSome, hstop]
    rfl
  have hargs : insertArgsOk mm (mmapArea mm a p addr len) = true ↔
      mm.listReady = true ∧ PAGE_4K_SIZE ≤ addr ∧ addr + len ≤ USER_LIMIT ∧
        addr % PAGE_4K_SIZE = 0 := by
    simp only [insertArgsOk, Bool.and_eq_true, decide_eq_true_eq, hstop]
    show (((((mm.listReady = true ∧ addr < addr + len) ∧ PAGE_4K_SIZE ≤ addr) ∧
      addr + len ≤ USER_LIMIT) ∧ addr % PAGE_4K_SIZE = 0) ∧ (addr + len) % PAGE_4K_SIZE = 0) ↔ _
    constructor
    · rintro ⟨⟨⟨⟨⟨h1, -⟩, h3⟩, h4⟩, h5⟩, -⟩
      exact ⟨h1, h3, h4, h5⟩
    · rintro ⟨h1, h3, h4, h5⟩
      exact ⟨⟨⟨⟨⟨h1, by omega⟩, h3⟩, h4⟩, h5⟩, by
        rw [Nat.add_mod, h5, hlen, Nat.zero_mod]⟩
  unfold insertVma rangeIsFree
  by_cases hok : insertArgsOk mm (mmapArea mm a p addr len) = true
  · obtain ⟨h1, h2, h3, h4⟩ := hargs.mp hok
    rw [if_pos hok, if_neg (by rw [h1]; simp; omega), ← hsome]
    split
    · rename_i l hloop
      exact iff_of_true rfl ⟨h4, Option.isSome_iff_exists.mpr ⟨l, hloop⟩⟩
    · rename_i hloop
      have hnone : insertLoop (mmapArea mm a p addr len) mm.vmaList = none := hloop
      rw [hnone]
      exact iff_of_false (fun h => absurd h (show ¬ -(EEXIST : Int) = 1 by decide)) (by simp)
  · rw [if_neg hok]
    refine iff_of_false (fun h => absurd h (show ¬ -(EINVAL : Int) = 1 by decide)) ?_
    rintro ⟨h4, hfree⟩
    split at hfree
    · cases hfree
    rename_i hrange
    push Not at hrange
    obtain ⟨h1, h2, h3, h5, h6⟩ := hrange
    exact hok (hargs.mpr ⟨by simpa using h1, h3, by omega, h4⟩)

/-- **`do_mmap`** lists one more area, at the place it is sent to, exactly where that place is free
and there is a block for it. -/
theorem doMmap_place (hok : AreasOk mm.self mm.vmaList) :
    (doMmap pagesEnv mm a (pages, blocks)).2.1.1 = pages ∧
    ((∃ len v, (mmapCheck a = .ok len ∧ (blocks.headD none).isSome = true ∧
        mmapPlace mm a len % PAGE_4K_SIZE = 0 ∧ rangeIsFree mm (mmapPlace mm a len) len = true) ∧
        v.start = mmapPlace mm a len ∧ v.stop = mmapPlace mm a len + len ∧
        (doMmap pagesEnv mm a (pages, blocks)).1.vmaList.Perm (v :: mm.vmaList)) ∨
      ((∀ len, ¬ (mmapCheck a = .ok len ∧ (blocks.headD none).isSome = true ∧
        mmapPlace mm a len % PAGE_4K_SIZE = 0 ∧ rangeIsFree mm (mmapPlace mm a len) len = true)) ∧
        (doMmap pagesEnv mm a (pages, blocks)).1 = mm)) := by
  have hL : USER_LIMIT = 0x0000800000000000 := rfl
  unfold doMmap
  cases hc : mmapCheck a with
  | error e => exact ⟨rfl, Or.inr ⟨fun len h => (nomatch h.1), rfl⟩⟩
  | ok len =>
      obtain ⟨h0, hmod, hle⟩ := mmapCheck_len hc
      -- a call that gives up before `kmalloc` was sent to a place that is not free
      have hback : ∀ len', (.ok len : Except Nat Nat) = .ok len' ∧
          (blocks.headD none).isSome = true ∧ mmapPlace mm a len' % PAGE_4K_SIZE = 0 ∧
          rangeIsFree mm (mmapPlace mm a len') len' = true →
          getUnmappedArea mm a.addr len a.flags = mmapPlace mm a len ∧ len' = len ∧
          mmapPlace mm a len < USER_LIMIT := by
        rintro len' ⟨he, -, h1, h2⟩
        obtain rfl := Except.ok.inj he
        refine ⟨getUnmappedArea_of_free h0 hmod h1 h2, rfl, ?_⟩
        unfold rangeIsFree at h2
        split at h2
        · cases h2
        · omega
      dsimp only
      by_cases haddr : 2 ^ 63 ≤ getUnmappedArea mm a.addr len a.flags
      · rw [if_pos haddr]
        refine ⟨rfl, Or.inr ⟨fun len' h => ?_, rfl⟩⟩
        obtain ⟨h1, -, h2⟩ := hback len' h
        omega
      rw [if_neg haddr]
      have hplace := getUnmappedArea_place (Nat.lt_of_not_le haddr)
      rw [hplace] at haddr ⊢
      by_cases hfix : (hasFlag a.flags MAP_FIXED && !rangeIsFree mm (mmapPlace mm a len) len) = true
      · rw [if_pos hfix]
        refine ⟨rfl, Or.inr ⟨fun len' h => ?_, rfl⟩⟩
        obtain ⟨-, rfl, -⟩ := hback len' h
        rw [h.2.2.2] at hfix
        simp at hfix
      rw [if_neg hfix]
      cases hb : blocks.headD none with
      | none =>
          have hk : pagesEnv.kmalloc (pages, blocks) = ((pages, blocks.tail), none) := by
            rw [← hb]
            rfl
          rw [hk]
          exact ⟨rfl, Or.inr ⟨fun len' h => (nomatch h.2.1), rfl⟩⟩
      | some p =>
          have hk : pagesEnv.kmalloc (pages, blocks) = ((pages, blocks.tail), some p) := by
            rw [← hb]
            rfl
          rw [hk]
          dsimp only
          have hins := @mmapArea_insert mm a p (mmapPlace mm a len) len (by omega) h0 hmod hle
          rcases insertVma_cases hok (mmapArea mm a p (mmapPlace mm a len) len) with
            ⟨r, hr1, hi⟩ | ⟨l, hi, hperm⟩
          · rw [hi] at hins ⊢
            have hno := mt hins.mpr hr1
            split
            · rename_i h1
              exact absurd (Prod.mk.inj h1).2 hr1
            · rename_i mm' ret _ h1
              obtain ⟨rfl, rfl⟩ := Prod.mk.inj h1
              refine ⟨rfl, Or.inr ⟨fun len' h => ?_, rfl⟩⟩
              obtain rfl := Except.ok.inj h.1
              exact hno h.2.2
          · rw [hi] at hins ⊢
            refine ⟨rfl, Or.inl ⟨len, _, ⟨rfl, rfl, hins.mp rfl⟩, rfl, ?_, hperm⟩⟩
            exact add64_eq (by omega)

end

/-! ## `do_munmap` -/

/-- What `do_munmap` does to the rest of the kernel is allocating, freeing, and unmapping parts of
areas. -/
theorem munmapLoop_state {σ : Type} (env : VmaEnv σ) {R : σ → Prop} {mm : Lmm} {addr stop : Nat}
    (hk : ∀ s, R s → R (env.kmalloc s).1) (hf : ∀ s p, R s → R (env.kfree s p))
    (ha : PAGE_4K_SIZE ∣ addr) (hs : PAGE_4K_SIZE ∣ stop) (hlt : addr < stop) :
    ∀ (l : List VmArea) (s : σ) (u : Bool), AreasOk mm.self l →
      (∀ v ∈ l, ∀ us ue s, PAGE_4K_SIZE ∣ us → PAGE_4K_SIZE ∣ ue → v.start ≤ us → us < ue →
        ue ≤ v.stop → R s → R (env.unmapAnonymousPages s mm.pgd us ue)) →
      R s → R (munmapLoop env mm addr stop l s u).2.1 := by
  intro l
  induction l with
  | nil => exact fun s u _ _ hR => hR
  | cons v rest ih =>
      intro s u h hun hR
      obtain ⟨hv, -, hrest⟩ := areasOk_cons.mp h
      have hun' := fun w hw => hun w (List.mem_cons_of_mem v hw)
      rw [munmapLoop]
      split
      · exact ih s u hrest hun' hR
      rename_i hbefore
      split
      · exact hR
      rename_i hbehind
      split
      · exact hR
      dsimp only
      set us := if v.start < addr then addr else v.start with hus
      set ue := if stop < v.stop then stop else v.stop with hue
      have husd : PAGE_4K_SIZE ∣ us := by rw [hus]; split; exacts [ha, hv.startAligned]
      have hued : PAGE_4K_SIZE ∣ ue := by rw [hue]; split; exacts [hs, hv.stopAligned]
      have hb : v.start ≤ us ∧ us < ue ∧ ue ≤ v.stop := by
        have := hv.lt
        rw [hus, hue]
        split <;> split <;> omega
      have hunmap : ∀ s, R s → R (env.unmapAnonymousPages s mm.pgd us ue) :=
        fun s => hun v List.mem_cons_self us ue s husd hued hb.1 hb.2.1 hb.2.2
      split
      · have hk₁ := hk s hR
        revert hk₁
        rcases env.kmalloc s with ⟨s₁, _ | p⟩
        · exact fun hk₁ => hk₁
        · exact fun hk₁ => ih _ true hrest hun' (hunmap s₁ hk₁)
      · split
        · exact ih _ true hrest hun' (hf _ _ (hunmap s hR))
        · split
          · exact ih _ true hrest hun' (hunmap s hR)
          · exact ih _ true hrest hun' (hunmap s hR)

/-- **`unmap_anonymous_pages`** unmaps the pages of its range, and no others. -/
theorem unmapPagesLoop_spec : ∀ (n k : Nat) (pages : Pages), (k + n) * PAGE_4K_SIZE ≤ USER_LIMIT →
    ∀ i, unmapPagesLoop n (k * PAGE_4K_SIZE) pages i
      = if k ≤ i ∧ i < k + n then none else pages i := by
  intro n
  induction n with
  | zero =>
      intro k pages _ i
      rw [unmapPagesLoop, if_neg (by omega)]
  | succ n ih =>
      intro k pages hle i
      have hk : k * PAGE_4K_SIZE < USER_LIMIT := by
        refine lt_of_lt_of_le ?_ hle
        exact Nat.mul_lt_mul_of_pos_right (by omega) (by decide)
      have hnext : k * PAGE_4K_SIZE + PAGE_4K_SIZE = (k + 1) * PAGE_4K_SIZE := by
        rw [Nat.add_mul, Nat.one_mul]
      rw [unmapPagesLoop, hnext, ih (k + 1) _
        (by rw [show k + 1 + n = k + (n + 1) by omega]; exact hle) i, unmapUserPage_mul hk]
      by_cases hik : i = k
      · rw [hik, if_neg (by omega), Function.update_self, if_pos (by omega)]
      · rw [Function.update_of_ne hik]
        by_cases hin : k + 1 ≤ i ∧ i < k + 1 + n
        · rw [if_pos hin, if_pos (by omega)]
        · rw [if_neg hin, if_neg (by omega)]

section

variable {mm : Lmm} {blocks : List (Option Nat)} {pages : Pages}

/-- **`do_munmap`** unmaps no page outside the areas. -/
theorem doMunmap_pages (hok : AreasOk mm.self mm.vmaList) {addr len a : Nat}
    (hout : ∀ v ∈ mm.vmaList, ¬ (v.start ≤ a ∧ a < v.stop)) :
    (doMunmap pagesEnv mm addr len (pages, blocks)).2.1.1 (a / PAGE_4K_SIZE)
      = pages (a / PAGE_4K_SIZE) := by
  unfold doMunmap
  cases hc : munmapCheck mm addr len with
  | none => rfl
  | some len' =>
      obtain ⟨h1, h2, h3, -⟩ := munmapCheck_spec hc
      refine munmapLoop_state pagesEnv
        (R := fun s => s.1 (a / PAGE_4K_SIZE) = pages (a / PAGE_4K_SIZE))
        (fun s hR => hR) (fun s p hR => hR) h1 (dvd_add h1 h2) (by omega) mm.vmaList
        (pages, blocks) false hok ?_ rfl
      rintro v hv us ue s ⟨k, rfl⟩ ⟨l, rfl⟩ hs hlt he hR
      have hup := (hok.areas v hv).upper
      have hmk := page_mul k
      have hml := page_mul l
      rw [Nat.mul_comm] at hmk hml
      have hcount : (PAGE_4K_SIZE * l - PAGE_4K_SIZE * k + (PAGE_4K_SIZE - 1)) / PAGE_4K_SIZE
          = l - k := by
        rw [hmk, hml, show PAGE_4K_SIZE - 1 = 4095 from rfl, show PAGE_4K_SIZE = 4096 from rfl]
        omega
      show unmapPagesLoop _ _ s.1 _ = _
      have hin : ¬ (k ≤ a / PAGE_4K_SIZE ∧ a / PAGE_4K_SIZE < k + (l - k)) := by
        intro hin
        have hdiv : a / PAGE_4K_SIZE = a / 4096 := rfl
        exact hout v hv ⟨by omega, by omega⟩
      rw [hcount, Nat.mul_comm, unmapPagesLoop_spec _ _ _ (by
        rw [Nat.add_sub_cancel' (by omega), Nat.mul_comm]
        omega), if_neg hin, hR]

end

/-! ## `sys_brk` -/

/-- A call that reaches `do_brk`: `EndBrk` is the new break, or the error code where the heap cannot
be extended. -/
theorem sysBrk_endBrk {s : Brk} {c : BrkCall} {k l : Nat} (hk : s.endBrk = k * PAGE_4K_SIZE)
    (hl : alignUp64 PAGE_4K_SIZE c.brk = l * PAGE_4K_SIZE) (hlt : l * PAGE_4K_SIZE < 2 ^ 64)
    (h0 : l ≠ 0) (hge : s.endBrk ≤ l * PAGE_4K_SIZE) :
    (sysBrk s c.grown c.outcome c.brk).1.startBrk = s.startBrk ∧
    ((sysBrk s c.grown c.outcome c.brk).1.endBrk = l * PAGE_4K_SIZE ∨
      (sysBrk s c.grown c.outcome c.brk).1.endBrk = negErr ENOMEM) ∧
    (c.grown = none → l * PAGE_4K_SIZE ≤ USER_LIMIT →
      ((sysBrk s c.grown c.outcome c.brk).1.endBrk = l * PAGE_4K_SIZE ↔
        s.Extends c (l * PAGE_4K_SIZE))) := by
  have hL : USER_LIMIT = 0x0000800000000000 := rfl
  have hE : negErr ENOMEM = 2 ^ 64 - 12 := rfl
  have hmk := page_mul k
  have hml := page_mul l
  have hkl : k ≤ l := by omega
  rw [sysBrk_grow hl hlt h0 hge]
  have hrange : c.grown = none → l * PAGE_4K_SIZE ≤ USER_LIMIT →
      ((mapUserPages s.pages c.grown c.outcome s.endBrk (l * PAGE_4K_SIZE - s.endBrk)).2 = 0 ↔
        s.Extends c (l * PAGE_4K_SIZE)) := by
    intro hg hle
    rw [hg, mapUserPages_none]
    have hnone := @mapRangeLoop_none c.outcome (l - k) k s.pages
      (by rw [Nat.add_sub_cancel' hkl]; exact hle)
    rw [Nat.add_sub_cancel' hkl] at hnone
    have hstop : alignUp64 PAGE_4K_SIZE (l * PAGE_4K_SIZE) = l * PAGE_4K_SIZE := by
      rw [alignUp_page (by omega)]
      congr 1
      omega
    have hfirst : alignDown PAGE_4K_SIZE (k * PAGE_4K_SIZE) = k * PAGE_4K_SIZE := by
      unfold alignDown
      rw [Nat.mul_div_cancel _ (by decide)]
    unfold mapUserRange4K
    rw [add64_eq (by omega), Nat.add_sub_cancel' hge, hstop, hk, hfirst]
    dsimp only
    rw [← Nat.sub_mul, Nat.mul_div_cancel _ (by decide)]
    refine Iff.trans ?_ (hnone.trans ?_)
    · generalize mapRangeLoop c.outcome (l - k) (k * PAGE_4K_SIZE) s.pages = r
      rcases r with ⟨pages', _ | vaddr⟩
      · exact iff_of_true rfl rfl
      · exact iff_of_false (fun h => absurd h (show ¬ -(ENOMEM : Int) = 0 by decide))
          (fun h => by cases h)
    · constructor
      · intro h n h1 h2
        have hmn := page_mul n
        exact h n (by omega) (by omega)
      · intro h n h1 h2
        have hmn := page_mul n
        exact h n (by omega) (by omega)
  generalize mapUserPages s.pages c.grown c.outcome s.endBrk (l * PAGE_4K_SIZE - s.endBrk) = r
    at hrange ⊢
  by_cases hf : r.2 ≠ 0
  · rw [if_pos hf]
    refine ⟨rfl, Or.inr rfl, fun hg hle => ?_⟩
    refine iff_of_false ?_ (fun h => hf ((hrange hg hle).mpr h))
    show ¬ negErr ENOMEM = l * PAGE_4K_SIZE
    omega
  · rw [if_neg hf]
    push Not at hf
    exact ⟨rfl, Or.inl rfl, fun hg hle => iff_of_true rfl ((hrange hg hle).mp hf)⟩

theorem alignUp64_page (a : Nat) :
    ∃ l, alignUp64 PAGE_4K_SIZE a = l * PAGE_4K_SIZE ∧ l * PAGE_4K_SIZE ≤ 2 ^ 64 - 4096 := by
  refine ⟨add64 a (PAGE_4K_SIZE - 1) / PAGE_4K_SIZE, rfl, ?_⟩
  have hlt : add64 a (PAGE_4K_SIZE - 1) < 2 ^ 64 := Nat.mod_lt _ (by decide)
  have hm := page_mul (add64 a (PAGE_4K_SIZE - 1) / PAGE_4K_SIZE)
  have hdiv : add64 a (PAGE_4K_SIZE - 1) / PAGE_4K_SIZE = add64 a (PAGE_4K_SIZE - 1) / 4096 := rfl
  omega

/-- The break is a page, or the error code that `sys_brk` has stored. -/
def Brk.Paged (s : Brk) : Prop :=
  (∃ k, s.endBrk = k * PAGE_4K_SIZE) ∨ s.endBrk = negErr ENOMEM

/-- What `sys_brk` does to the break. -/
theorem Brk.Paged.cases {s : Brk} (hs : s.Paged) (c : BrkCall) :
    ((alignUp64 PAGE_4K_SIZE c.brk = 0 ∨ alignUp64 PAGE_4K_SIZE c.brk < s.endBrk) ∧
      (sysBrk s c.grown c.outcome c.brk).1 = s) ∨
    (alignUp64 PAGE_4K_SIZE c.brk ≠ 0 ∧ s.endBrk ≤ alignUp64 PAGE_4K_SIZE c.brk ∧
      ∃ k l, s.endBrk = k * PAGE_4K_SIZE ∧ alignUp64 PAGE_4K_SIZE c.brk = l * PAGE_4K_SIZE ∧
        l * PAGE_4K_SIZE < 2 ^ 64 ∧ l ≠ 0) := by
  obtain ⟨l, hl, hlt⟩ := alignUp64_page c.brk
  by_cases h0 : alignUp64 PAGE_4K_SIZE c.brk = 0
  · refine Or.inl ⟨Or.inl h0, ?_⟩
    unfold sysBrk
    dsimp only
    rw [if_pos h0]
  by_cases h1 : alignUp64 PAGE_4K_SIZE c.brk < s.endBrk
  · refine Or.inl ⟨Or.inr h1, ?_⟩
    unfold sysBrk
    dsimp only
    rw [if_neg h0, if_pos h1]
  refine Or.inr ⟨h0, Nat.le_of_not_lt h1, ?_⟩
  rcases hs with ⟨k, hk⟩ | he
  · refine ⟨k, l, hk, hl, by omega, ?_⟩
    rintro rfl
    exact h0 (hl.trans (Nat.zero_mul _))
  · have hE : negErr ENOMEM = 2 ^ 64 - 12 := rfl
    omega

/-- It stays where it can be. -/
theorem Brk.Paged.sysBrk {s : Brk} (hs : s.Paged) (c : BrkCall) :
    (sysBrk s c.grown c.outcome c.brk).1.Paged := by
  rcases hs.cases c with ⟨-, he⟩ | ⟨-, hge, k, l, hk, hl, hlt, h0⟩
  · rw [he]
    exact hs
  · rw [hl] at hge
    obtain ⟨-, hend, -⟩ := sysBrk_endBrk hk hl hlt h0 hge
    exact hend.imp_left (fun h => ⟨l, h⟩)

/-! ## Runs -/

/-- What the calls keep in every run: the list is in order, and the break is where it can be. -/
structure UserSpace.Ok (s : UserSpace) : Prop where
  areas : AreasOk s.mm.self s.mm.vmaList
  endBrk : s.brk.Paged

section

variable {s : UserSpace}

/-- Every call keeps the list in order and the break where it can be. -/
theorem UserSpace.Ok.call (hs : s.Ok) (c : SpaceCall) : (s.call c).Ok := by
  cases c with
  | mmap a blocks =>
      exact ⟨(doMmap_ok pagesEnv hs.areas a (s.brk.pages, blocks)).1, hs.endBrk⟩
  | munmap addr len blocks grown =>
      exact ⟨(doMunmap_ok pagesEnv hs.areas addr len (s.brk.pages, blocks)).1, hs.endBrk⟩
  | brk c =>
      exact ⟨hs.areas, hs.endBrk.sysBrk c⟩

/-- **One call** keeps the parts of user space apart exactly where its arguments are clear of the
other two. -/
theorem UserSpace.Partition.call (hp : s.Partition) (hs : s.Ok) (c : SpaceCall) (hg : c.Ungrown) :
    (s.call c).Partition ↔ s.Clear c := by
  refine Iff.trans ?_ (and_iff_right hg).symm
  cases c with
  | mmap a blocks =>
      show (∀ v ∈ (doMmap pagesEnv s.mm a (s.brk.pages, blocks)).1.vmaList,
        s.Avoids v.start v.stop) ↔ _
      obtain ⟨-, hm⟩ := @doMmap_place s.mm a blocks s.brk.pages hs.areas
      rcases hm with ⟨len, v, ⟨hc, hb, hal, hfree⟩, hstart, hstop, hperm⟩ | ⟨hno, he⟩
      · constructor
        · intro h len' hc' _ _ _
          obtain rfl := Except.ok.inj (hc.symm.trans hc')
          have hv := h v (hperm.mem_iff.mpr List.mem_cons_self)
          rw [hstart, hstop] at hv
          exact hv
        · intro h w hw
          rcases List.mem_cons.mp (hperm.mem_iff.mp hw) with rfl | hw
          · rw [hstart, hstop]
            exact h len hc hb hal hfree
          · exact hp w hw
      · rw [he]
        exact iff_of_true hp (fun len hc hb hal hfree => absurd ⟨hc, hb, hal, hfree⟩ (hno len))
  | munmap addr len blocks grown =>
      refine iff_of_true ?_ trivial
      show ∀ v ∈ (doMunmap pagesEnv s.mm addr len (s.brk.pages, blocks)).1.vmaList,
        s.Avoids v.start v.stop
      unfold doMunmap
      cases hc : munmapCheck s.mm addr len with
      | none => exact hp
      | some len' =>
          intro v hv b h1 h2
          obtain ⟨ha, hl, h0, -⟩ := munmapCheck_spec hc
          obtain ⟨w, hw, h3, h4⟩ := (munmapLoop_spec pagesEnv s.mm ha (dvd_add ha hl) (by omega)
            s.mm.vmaList (s.brk.pages, blocks) false hs.areas).2 v hv
          exact hp w hw b (h3.trans h1) (h2.trans_le h4)
  | brk c =>
      have hL : USER_LIMIT = 0x0000800000000000 := rfl
      have hE : negErr ENOMEM = 2 ^ 64 - 12 := rfl
      rcases hs.endBrk.cases c with ⟨h01, he⟩ | ⟨h0', hge, k, l, hk, hl, hlt, h0⟩
      · refine iff_of_true ?_ (fun h0 h1 => ?_)
        · show (⟨s.mm, (sysBrk s.brk c.grown c.outcome c.brk).1⟩ : UserSpace).Partition
          rw [he]
          exact hp
        · rcases h01 with h | h <;> omega
      · rw [hl] at hge
        obtain ⟨hstart, hend, hext⟩ := sysBrk_endBrk hk hl hlt h0 hge
        constructor
        · intro h _ _ v hv a h1 h2 h3
          have hup := (hs.areas.areas v hv).upper
          have hle : (sysBrk s.brk c.grown c.outcome c.brk).1.endBrk ≤ a := by
            by_contra hlt
            refine h v hv a h1 h2 (Or.inr ⟨?_, ?_⟩)
            · exact hstart.le.trans h3
            · exact Nat.lt_of_not_le hlt
          rw [hl]
          rcases hend with he | he
          · exact ⟨by omega, (hext hg (by omega)).mp he⟩
          · omega
        · intro h v hv a h1 h2
          rintro (hwin | ⟨h3, h4⟩)
          · exact hp v hv a h1 h2 (Or.inl hwin)
          · have hup := (hs.areas.areas v hv).upper
            have h3 : (sysBrk s.brk c.grown c.outcome c.brk).1.startBrk ≤ a := h3
            have h4 : a < (sysBrk s.brk c.grown c.outcome c.brk).1.endBrk := h4
            obtain ⟨h5, h6⟩ := h h0' (by omega) v hv a h1 h2 (by omega)
            rw [hl] at h5 h6
            have := (hext hg (by omega)).mpr h6
            omega

/-- `do_munmap` leaves the window and the heap alone where no area meets them. -/
theorem UserSpace.Partition.keeps (hp : s.Partition) (hs : s.Ok) (addr len : Nat)
    (blocks : List (Option Nat)) : s.Keeps (.munmap addr len blocks none) := by
  intro a _ hin
  exact doMunmap_pages hs.areas (fun v hv h => hp v hv a h.1 h.2 hin)

end

/-- After `do_execve` there is no area, and no heap. -/
theorem execveSpace_ok {mm : Lmm} {outcome : Nat → PageOutcome} {s : UserSpace}
    (h : execveSpace mm none outcome = some s) : s.Ok ∧ s.Partition := by
  obtain ⟨b, hb, rfl⟩ := Option.map_eq_some_iff.mp h
  exact ⟨⟨areasOk_nil _, Or.inl (execveBrk_ok hb).endBrk_eq⟩, fun v hv => absurd hv (by simp [lmmInit])⟩

/-- **The parts of user space**: in every run for which the class of pages does not grow, and whose
calls are clear of what they do not look at, no area meets the window or the heap, and `do_munmap`
unmaps no page of these; and the next call for which the class has not grown keeps it so exactly if it
is one more of them. -/
theorem userSpace_partition (s : UserSpace) (h : UserReachable (· = none) UserSpace.Clear s) :
    s.Partition ∧ (∀ addr len blocks, s.Keeps (.munmap addr len blocks none)) ∧
      ∀ c, c.Ungrown → ((s.call c).Partition ↔ s.Clear c) := by
  have hs : s.Ok ∧ s.Partition := by
    induction h with
    | exec h hg => exact execveSpace_ok (hg ▸ h)
    | step c _ hok ih => exact ⟨ih.1.call c, (ih.2.call ih.1 c hok.1).mpr hok⟩
  exact ⟨hs.2, hs.2.keeps hs.1, hs.2.call hs.1⟩

/-! ### Runs of one call -/

/-- One page at `addr`, readable and writable, private, anonymous and fixed. -/
def fixedArgs (addr : Nat) : MmapArgs := ⟨none, addr, 0x1000, 3, 0x32, 0, 0⟩

theorem mmapCheck_fixed (addr : Nat) : mmapCheck (fixedArgs addr) = .ok 0x1000 := by
  show mmapCheck (fixedArgs 0) = .ok 0x1000
  unfold mmapCheck
  iterate 9 rw [if_neg (by decide)]
  dsimp only
  iterate 3 rw [if_neg (by decide)]
  rfl

theorem mmapPlace_fixed (mm : Lmm) (addr len : Nat) : mmapPlace mm (fixedArgs addr) len = addr := by
  have hfix : hasFlag (fixedArgs addr).flags MAP_FIXED = true := by
    show hasFlag 0x32 MAP_FIXED = true
    decide
  unfold mmapPlace
  rw [if_pos hfix]
  rfl

/-- The process of the examples: no area is mapped yet. -/
theorem execveSpace_ready : ∃ s,
    execveSpace ⟨64, 0x1000, 0, false, []⟩ none (fun _ => .ready 0) = some s ∧
    s.brk.endBrk = 0xc00000 ∧ s.brk.Ok ∧
    ∀ addr, PAGE_4K_SIZE ≤ addr → addr + 0x1000 ≤ USER_LIMIT →
      rangeIsFree s.mm addr 0x1000 = true := by
  obtain ⟨b, hb, he⟩ := execveBrk_ready
  refine ⟨⟨lmmInit _, b⟩, Option.map_eq_some_iff.mpr ⟨b, hb, rfl⟩, he, execveBrk_ok hb,
    fun addr h1 h2 => ?_⟩
  have hL : USER_LIMIT = 0x0000800000000000 := rfl
  unfold rangeIsFree
  rw [if_neg (by simp [lmmInit]; omega)]
  rfl

/-- A page is mapped far from window and heap, the heap grows by a page, and the first one is unmapped
again. -/
theorem userSpace_partition_example : ∃ s, UserReachable (· = none) UserSpace.Clear s ∧
    s.brk.endBrk = 0xc01000 ∧ (∃ v ∈ s.mm.vmaList, v.start = 0x40200000 ∧ v.stop = 0x40201000) ∧
    s.Partition ∧ (s.call (.munmap 0x40200000 0x1000 [] none)).Partition := by
  obtain ⟨s, hs, hend, hbrk, hfree⟩ := execveSpace_ready
  have hclear : s.Apart (.mmap (fixedArgs 0x40200000) [some 64]) := by
    intro len hc _ _ _ a h3 h4
    obtain rfl := Except.ok.inj (hc.symm.trans (mmapCheck_fixed _))
    rw [mmapPlace_fixed] at h3 h4
    rintro (⟨-, h⟩ | ⟨-, h⟩)
    · have h : a < 0xa00000 := h
      omega
    · omega
  have hexec : UserReachable (· = none) UserSpace.Clear s := .exec hs rfl
  have hr := hexec.step (.mmap (fixedArgs 0x40200000) [some 64]) ⟨trivial, hclear⟩
  -- the area, and nothing else, is listed
  obtain ⟨hpages, hplace⟩ := @doMmap_place s.mm (fixedArgs 0x40200000) [some 64] s.brk.pages
    (execveSpace_ok hs).1.areas
  rcases hplace with ⟨len, v, ⟨hc, -⟩, hlow, hup, hperm⟩ | ⟨hno, -⟩
  swap
  · exact absurd ⟨mmapCheck_fixed _, rfl, by rw [mmapPlace_fixed]; decide, by
      rw [mmapPlace_fixed]; exact hfree _ (by decide) (by decide)⟩ (hno 0x1000)
  obtain rfl := Except.ok.inj (hc.symm.trans (mmapCheck_fixed _))
  rw [mmapPlace_fixed] at hlow hup
  have hempty : s.mm.vmaList = [] := by
    obtain ⟨b, -, rfl⟩ := Option.map_eq_some_iff.mp hs
    rfl
  rw [hempty] at hperm
  let c : BrkCall := ⟨0xc01000, none, fun _ => .ready 0, by decide⟩
  have htop : alignUp64 PAGE_4K_SIZE c.brk = 0xc01 * PAGE_4K_SIZE := by decide
  have hext : (s.call (.mmap (fixedArgs 0x40200000) [some 64])).brk.Extends c (0xc01 * PAGE_4K_SIZE) := by
    refine fun n hn1 hn2 => ⟨?_, 0, rfl⟩
    have hn1 : s.brk.endBrk ≤ n * PAGE_4K_SIZE := hn1
    show (doMmap pagesEnv s.mm _ (s.brk.pages, [some 64])).2.1.1 n = none
    rw [hpages]
    exact hbrk.free hn1 (hn2.trans (by decide))
  have hroom : (s.call (.mmap (fixedArgs 0x40200000) [some 64])).Apart (.brk c) := by
    intro _ _ w hw a h1 _ _
    obtain rfl := List.mem_singleton.mp (hperm.mem_iff.mp hw)
    have hP := page_mul 0xc01
    rw [htop]
    exact ⟨by omega, hext⟩
  have hr' := hr.step (.brk c) ⟨rfl, hroom⟩
  have hr'' := hr'.step (.munmap 0x40200000 0x1000 [] none) ⟨rfl, trivial⟩
  refine ⟨_, hr', ?_, ⟨v, hperm.mem_iff.mpr List.mem_cons_self, hlow, hup⟩,
    (userSpace_partition _ hr').1, (userSpace_partition _ hr'').1⟩
  have hgrown := (sysBrk_endBrk (k := 0xc00) (l := 0xc01)
    (show (s.call (.mmap (fixedArgs 0x40200000) [some 64])).brk.endBrk = 0xc00 * PAGE_4K_SIZE from hend)
    htop (by decide) (by decide) (hend.le.trans (by decide))).2.2
  exact (hgrown rfl (by decide)).mpr hext

/-- A page is mapped at the first address of the program. -/
theorem userSpace_not_partition :
    ¬ ∀ s, UserReachable (fun _ => True) (fun _ _ => True) s → s.Partition := by
  intro hall
  obtain ⟨s, hs, -, -, hfree⟩ := execveSpace_ready
  obtain ⟨hok, hp⟩ := execveSpace_ok hs
  have h := hall _ (UserReachable.step (.mmap (fixedArgs 0x800000) [some 64]) (.exec hs trivial)
    trivial)
  have hclear := ((hp.call hok (.mmap (fixedArgs 0x800000) [some 64]) trivial).mp h).2 0x1000 (mmapCheck_fixed _) rfl
    (by rw [mmapPlace_fixed]; decide)
    (by rw [mmapPlace_fixed]; exact hfree _ (by decide) (by decide))
  rw [mmapPlace_fixed] at hclear
  exact hclear 0x800000 le_rfl (by decide) (Or.inl (by decide))

end Talios
