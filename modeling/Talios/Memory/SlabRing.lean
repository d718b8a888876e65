import Talios.Lib.Links
import Talios.Memory.Slab

set_option autoImplicit false

/-! # The ring of a cache

`DeleteSlabCache` and `FreeSlab` on the pointers of the ring. The calls of `kfree` and `FreePage`
are recorded: they do not write to the blocks and pages they are given, so that what is read from a
header after it has been freed is what it held.

`ListDelete` links the node it takes out to itself. `DeleteSlabCache` then steps to the next of this
very node, finds its ring empty and frees it once more (`deleteSlabCache_once`). `FreeSlab` may give
up the slab that `CachePool` points to (`freeSlab_keeps`).
-/

namespace Talios

open Bitmap

/-! ## Data -/

/-- What is given back. -/
inductive Release
  | kfree (ptr : Nat)
  | freePage (page number : Nat)
deriving DecidableEq

/-- A `struct SlabCache` at `addr`, and the headers of its slabs: `list` and the other fields, by the
address of the header. -/
structure RingCache where
  addr : Nat
  size : Nat
  totalFree : Nat
  totalUse : Nat
  cachePool : Nat
  list : Links.Heap Nat
  slab : Nat → Slab
  word : Memory

/-- `ListDelete`. -/
def listDelete (list : Links.Heap Nat) (a : Nat) : Links.Heap Nat := list.unlink a

/-- `ListNext`. -/
def listNext (list : Links.Heap Nat) (a : Nat) : Nat := list.next a

/-- `ListIsEmpty`. -/
def listIsEmpty (list : Links.Heap Nat) (a : Nat) : Bool := list.Alone a

/-! ## `memory.c` -/

/-- `kfree(slab->ColorMap)`, `FreePage(slab->page, 1)` and `kfree(slab)`. -/
def RingCache.releases (s : RingCache) (a : Nat) : List Release :=
  [.kfree (s.slab a).colorMap, .freePage (s.slab a).page 1, .kfree a]

/-- The loop of `DeleteSlabCache`; none where the rounds have run out. -/
def deleteLoop (s : RingCache) : Nat → Links.Heap Nat → Nat → List Release →
    Option (Links.Heap Nat × Nat × List Release)
  | 0, _, _, _ => none
  | fuel + 1, list, slab, log =>
      if listIsEmpty list slab then some (list, slab, log)
      else
        let list := listDelete list slab
        deleteLoop s fuel list (listNext list slab) (log ++ s.releases slab)

/-- `DeleteSlabCache`: its value, the pointers, and what has been given back. -/
def deleteSlabCache (s : RingCache) (fuel : Nat) : Option (Nat × Links.Heap Nat × List Release) :=
  if s.totalUse ≠ 0 then some (0, s.list, [])
  else
    (deleteLoop s fuel s.list s.cachePool []).map (fun r =>
      (1, listDelete r.1 r.2.1, r.2.2 ++ s.releases r.2.1 ++ [.kfree s.addr]))

/-- The page of a slab has the address. -/
def RingCache.covers (s : RingCache) (vaddress a : Nat) : Bool :=
  decide ((s.slab a).vaddress ≤ vaddress ∧ vaddress - (s.slab a).vaddress < PAGE_2M_SIZE)

/-- `index` in `FreeSlab`. -/
def RingCache.index (s : RingCache) (vaddress a : Nat) : Nat :=
  (vaddress - (s.slab a).vaddress) / s.size

/-- `FreeSlab` up to the test whether the slab is given up. -/
def RingCache.giveBack (s : RingCache) (vaddress a : Nat) : RingCache :=
  { s with
    word := flipBit s.word ((s.slab a).colorMap / 8) (s.index vaddress a)
    slab := Function.update s.slab a (s.slab a).give
    totalFree := s.totalFree + 1
    totalUse := s.totalUse - 1 }

/-- The slab is given up: `slab->UsingCount == 0 && SC->TotalFree >= slab->ColorCount * 1.5`. -/
def RingCache.gives (s : RingCache) (a : Nat) : Bool :=
  decide ((s.slab a).usingCount = 0 ∧ 3 * (s.slab a).colorCount ≤ 2 * s.totalFree)

/-- `FreeSlab`: its value, the cache, and what has been given back. What `Destructor` does to the
object is left out. The option is none where the rounds have run out. -/
def freeSlab (s : RingCache) (fuel vaddress : Nat) : Option (Nat × RingCache × List Release) :=
  (s.list.find (s.covers vaddress) s.cachePool fuel s.cachePool).map (fun found =>
    match found with
    | none => (0, s, [])
    | some a =>
        let s := s.giveBack vaddress a
        if s.gives a then
          (1, { s with
            totalFree := s.totalFree - (s.slab a).colorCount, list := listDelete s.list a },
            s.releases a)
        else (1, s, []))

/-! ## `DeleteSlabCache` -/

/-- All that a cache has: what belongs to its slabs, and the cache itself. -/
def RingCache.owned (s : RingCache) (ring : List Nat) : List Release :=
  ring.flatMap s.releases ++ [.kfree s.addr]

/-- The ring of a cache, from `CachePool` on. Its headers, bitmaps and pages are different ones. -/
structure RingCache.Ring (s : RingCache) (ring : List Nat) : Prop where
  circular : Links.Circular s.list ring
  head : ring.head? = some s.cachePool
  distinct : (s.owned ring).Nodup

/-- `DeleteSlabCache` ends; it has given back all that the cache has, each once, the cache itself
last, and no slab is on a ring any more. -/
def RingCache.DeletedOnce (s : RingCache) (ring : List Nat) : Prop :=
  ∃ fuel list log, deleteSlabCache s fuel = some (1, list, log) ∧ log.Perm (s.owned ring) ∧
    log.getLast? = some (.kfree s.addr) ∧ ∀ a ∈ ring, list.Alone a

section

variable {s : RingCache} {ring : List Nat}

theorem listIsEmpty_iff (list : Links.Heap Nat) (a : Nat) :
    listIsEmpty list a = true ↔ list.Alone a := decide_eq_true_iff

/-- The loop with a slab that is alone. -/
theorem deleteLoop_alone {list : Links.Heap Nat} {a : Nat} (fuel : Nat) (log : List Release)
    (h : list.Alone a) : deleteLoop s (fuel + 1) list a log = some (list, a, log) :=
  if_pos ((listIsEmpty_iff list a).mpr h)

/-- The loop with a slab that is not: it ends with the same slab, after one round. -/
theorem deleteLoop_more {list : Links.Heap Nat} {a : Nat} (fuel : Nat) (log : List Release)
    (h : ¬ list.Alone a) : deleteLoop s (fuel + 2) list a log
      = some (listDelete list a, a, log ++ s.releases a) := by
  have halone : (listDelete list a).Alone a := Links.unlink_alone
  have hnext : listNext (listDelete list a) a = a := halone.1
  rw [deleteLoop, if_neg (fun he => h ((listIsEmpty_iff list a).mp he))]
  dsimp only
  rw [hnext]
  exact deleteLoop_alone fuel _ halone

/-- `DeleteSlabCache` where `CachePool` is not alone: its slab is released twice. -/
theorem deleteSlabCache_more (huse : s.totalUse = 0) (hmore : ¬ s.list.Alone s.cachePool)
    {fuel ret : Nat} {list : Links.Heap Nat} {log : List Release}
    (hrun : deleteSlabCache s fuel = some (ret, list, log)) :
    log = s.releases s.cachePool ++ s.releases s.cachePool ++ [.kfree s.addr] := by
  unfold deleteSlabCache at hrun
  rw [if_neg (fun h => h huse)] at hrun
  match fuel, hrun with
  | 0, hrun => cases hrun
  | 1, hrun =>
      rw [deleteLoop, if_neg (fun he => hmore ((listIsEmpty_iff _ _).mp he))] at hrun
      cases hrun
  | fuel + 2, hrun =>
      rw [deleteLoop_more fuel [] hmore] at hrun
      exact (congrArg (fun r => r.2.2) (Option.some.inj hrun)).symm

/-- **`DeleteSlabCache` releases each slab once** exactly if there is one slab. -/
theorem deleteSlabCache_once (hring : s.Ring ring) (huse : s.totalUse = 0) :
    s.DeletedOnce ring ↔ ring.length = 1 := by
  rcases List.head?_eq_some_iff.mp hring.head with ⟨m, rfl⟩
  have hcirc := hring.circular
  cases m with
  | nil =>
      -- the loop is not entered
      have halone : s.list.Alone s.cachePool := hcirc.alone_iff.mpr rfl
      refine iff_of_true ⟨1, listDelete s.list s.cachePool, s.owned [s.cachePool], ?_, .refl _, ?_,
        fun a ha => ?_⟩ rfl
      · rw [deleteSlabCache, if_neg (fun h => h huse), deleteLoop_alone 0 [] halone]
        simp [RingCache.owned]
      · simp [RingCache.owned]
      · rw [List.mem_singleton.mp ha]
        exact Links.unlink_alone
  | cons b m =>
      have hmore : ¬ s.list.Alone s.cachePool := fun h => nomatch hcirc.alone_iff.mp h
      refine iff_of_false ?_ (by simp)
      rintro ⟨fuel, list, log, hrun, hperm, -⟩
      have hnodup : log.Nodup := hperm.nodup_iff.mpr hring.distinct
      rw [deleteSlabCache_more huse hmore hrun, List.append_assoc] at hnodup
      have hdisj := List.disjoint_of_nodup_append hnodup
      have hmem : Release.kfree s.cachePool ∈ s.releases s.cachePool := by
        simp [RingCache.releases]
      exact hdisj hmem (List.mem_append_left _ hmem)

end

/-! ## `FreeSlab` -/

/-- The totals are the sums over the slabs of a ring. -/
structure RingCache.Summed (s : RingCache) (ring : List Nat) : Prop where
  totalFree : s.totalFree = (ring.map (fun a => (s.slab a).freeCount)).sum
  totalUse : s.totalUse = (ring.map (fun a => (s.slab a).usingCount)).sum

/-- A cache whose slabs have objects, and whose counters add up. The slabs have different pages. -/
structure RingCache.Ok (s : RingCache) (ring : List Nat) : Prop extends s.Ring ring where
  counts : ∀ a ∈ ring, (s.slab a).usingCount + (s.slab a).freeCount = (s.slab a).colorCount
  color : ∀ a ∈ ring, 0 < (s.slab a).colorCount
  pages : ∀ a ∈ ring, ∀ b ∈ ring, ∀ v, s.covers v a = true → s.covers v b = true → a = b
  summed : s.Summed ring

/-- There is an object in use at the address, in slab `a`. -/
structure RingCache.Live (s : RingCache) (ring : List Nat) (vaddress a : Nat) : Prop where
  mem : a ∈ ring
  covers : s.covers vaddress a = true
  index : s.index vaddress a < (s.slab a).colorCount
  bit : bit s.word ((s.slab a).colorMap / 8) (s.index vaddress a) = true
  used : 0 < (s.slab a).usingCount

/-- The bit of the object is cleared, and nothing else is written. -/
structure RingCache.BitCleared (s s' : RingCache) (vaddress a : Nat) : Prop where
  bit : ∀ j, bit s'.word ((s.slab a).colorMap / 8) j
    = (bit s.word ((s.slab a).colorMap / 8) j && decide (j ≠ s.index vaddress a))
  frame : ∀ i, i ≠ (s.slab a).colorMap / 8 + s.index vaddress a / 64 → s'.word i = s.word i

/-- The slabs of a ring that have not been released. -/
def remaining (ring : List Nat) (log : List Release) : List Nat :=
  ring.filter (fun a => decide (Release.kfree a ∉ log))

/-- `FreeSlab` returns 1, the bit of the object is cleared, and the cache is usable: the slabs that
have not been released are its ring, with `CachePool` on it, and its counters add up. -/
def RingCache.KeptUsable (s : RingCache) (ring : List Nat) (vaddress a : Nat) : Prop :=
  ∃ s' log, freeSlab s ring.length vaddress = some (1, s', log) ∧ s.BitCleared s' vaddress a ∧
    Links.Circular s'.list (remaining ring log) ∧ s'.cachePool ∈ remaining ring log ∧
    s'.Summed (remaining ring log) ∧
    ∀ b ∈ remaining ring log,
      (s'.slab b).usingCount + (s'.slab b).freeCount = (s'.slab b).colorCount

/-- The condition: it is not the last object of the slab that `CachePool` points to, with so many
objects free that the slab is given up. -/
def RingCache.SparesPool (s : RingCache) (a : Nat) : Prop :=
  ¬ (a = s.cachePool ∧ (s.slab a).usingCount = 1 ∧
    3 * (s.slab a).colorCount ≤ 2 * (s.totalFree + 1))

section

variable {s : RingCache} {ring : List Nat} {vaddress a : Nat}

/-- No bitmap lies where a header lies. -/
theorem RingCache.Ring.colorMap_ne (h : s.Ring ring) {b : Nat} (ha : a ∈ ring) (hb : b ∈ ring) :
    (s.slab a).colorMap ≠ b := by
  intro heq
  have hnodup := (List.nodup_append.mp h.distinct).1
  rw [List.nodup_flatMap] at hnodup
  by_cases hab : a = b
  · subst hab
    have := hnodup.1 a ha
    simp [RingCache.releases, heq] at this
  · have : Std.Symm (Function.onFun List.Disjoint s.releases) := ⟨fun _ _ h => h.symm⟩
    have hdisj : List.Disjoint (s.releases a) (s.releases b) := hnodup.2.forall ha hb hab
    have h1 : Release.kfree b ∈ s.releases a := by simp [RingCache.releases, heq]
    have h2 : Release.kfree b ∈ s.releases b := by simp [RingCache.releases]
    exact hdisj h1 h2

/-- The search finds the slab of the object. -/
theorem RingCache.Ok.find (h : s.Ok ring) (hl : s.Live ring vaddress a) :
    s.list.find (s.covers vaddress) s.cachePool ring.length s.cachePool = some (some a) := by
  rcases List.head?_eq_some_iff.mp h.head with ⟨m, rfl⟩
  have hfind : (s.cachePool :: m).find? (s.covers vaddress) = some a := by
    cases hf : (s.cachePool :: m).find? (s.covers vaddress) with
    | none => exact absurd hl.covers (List.find?_eq_none.mp hf a hl.mem)
    | some b =>
        have hb := List.mem_of_find?_eq_some hf
        have hcov := List.find?_some hf
        rw [h.pages b hb a hl.mem vaddress hcov hl.covers]
  rw [h.circular.find_eq (by simp), hfind]

/-- The bit of an object in use is changed: it is cleared. -/
theorem RingCache.Live.bitCleared (hl : s.Live ring vaddress a) :
    s.BitCleared (s.giveBack vaddress a) vaddress a := by
  constructor
  · intro j
    show Bitmap.bit (flipBit _ _ _) _ _ = _
    rw [bit_flipBit]
    by_cases hj : j = s.index vaddress a
    · rw [hj, hl.bit]
      simp
    · simp [hj]
  · exact fun i hi => flipBit_of_ne hi

/-- What remains of a ring once one of its slabs has been released. -/
theorem RingCache.Ring.remaining_eq (h : s.Ring ring) {xs ys : List Nat}
    (hsplit : ring = xs ++ a :: ys) : remaining ring (s.releases a) = xs ++ ys := by
  have ha : a ∈ ring := by simp [hsplit]
  have hiff : ∀ b ∈ ring, (Release.kfree b ∉ s.releases a ↔ b ≠ a) := by
    intro b hb
    have hne := h.colorMap_ne ha hb
    constructor
    · rintro hno rfl
      exact hno (by simp [RingCache.releases])
    · intro hba hin
      have hin : b = (s.slab a).colorMap ∨ b = a := by simpa [RingCache.releases] using hin
      rcases hin with hin | hin
      · exact hne hin.symm
      · exact hba hin
  have hfilter : remaining ring (s.releases a) = ring.filter (fun b => decide (b ≠ a)) :=
    List.filter_congr (fun b hb => decide_eq_decide.mpr (hiff b hb))
  have hnodup := h.circular.nodup
  rw [hsplit] at hnodup
  have hnot := List.nodup_append.mp hnodup
  have hcons := List.nodup_cons.mp hnot.2.1
  have hxs : xs.filter (fun b => decide (b ≠ a)) = xs :=
    List.filter_eq_self.mpr (fun b hb =>
      decide_eq_true (fun heq => hnot.2.2 b hb a List.mem_cons_self heq))
  have hys : ys.filter (fun b => decide (b ≠ a)) = ys :=
    List.filter_eq_self.mpr (fun b hb => decide_eq_true (fun heq => hcons.1 (heq ▸ hb)))
  rw [hfilter, hsplit, List.filter_append, List.filter_cons_of_neg (by simp), hxs, hys]

/-- A sum over a ring in which one slab has changed. -/
theorem sum_split (f g : Nat → Nat) {xs ys : List Nat} (hnodup : (xs ++ a :: ys).Nodup)
    (hfg : ∀ b, b ≠ a → g b = f b) :
    ((xs ++ a :: ys).map f).sum = ((xs ++ ys).map f).sum + f a ∧
    ((xs ++ a :: ys).map g).sum = ((xs ++ ys).map f).sum + g a ∧
    ((xs ++ ys).map g).sum = ((xs ++ ys).map f).sum := by
  have hnot := List.nodup_append.mp hnodup
  have hcons := List.nodup_cons.mp hnot.2.1
  have hxs : xs.map g = xs.map f :=
    List.map_congr_left (fun b hb => hfg b (fun heq => hnot.2.2 b hb a List.mem_cons_self heq))
  have hys : ys.map g = ys.map f :=
    List.map_congr_left (fun b hb => hfg b (fun heq => hcons.1 (heq ▸ hb)))
  refine ⟨?_, ?_, ?_⟩
  · simp only [List.map_append, List.map_cons, List.sum_append, List.sum_cons]
    omega
  · simp only [List.map_append, List.map_cons, List.sum_append, List.sum_cons, hxs, hys]
    omega
  · simp only [List.map_append, hxs, hys]

/-- The counters once the object has been given back, over the whole ring and without its slab. -/
theorem RingCache.Ok.giveBack_summed (h : s.Ok ring) (hl : s.Live ring vaddress a)
    {xs ys : List Nat} (hsplit : ring = xs ++ a :: ys) :
    (s.giveBack vaddress a).Summed ring ∧
    (s.giveBack vaddress a).totalFree
      = ((xs ++ ys).map (fun b => ((s.giveBack vaddress a).slab b).freeCount)).sum
        + ((s.slab a).freeCount + 1) ∧
    (s.giveBack vaddress a).totalUse
      = ((xs ++ ys).map (fun b => ((s.giveBack vaddress a).slab b).usingCount)).sum
        + ((s.slab a).usingCount - 1) := by
  have hnodup := h.circular.nodup
  rw [hsplit] at hnodup
  have hslab : ∀ b, b ≠ a → (s.giveBack vaddress a).slab b = s.slab b :=
    fun b hb => Function.update_of_ne hb _ _
  have hself : (s.giveBack vaddress a).slab a = (s.slab a).give := Function.update_self ..
  have hfree := sum_split (fun b => (s.slab b).freeCount)
    (fun b => ((s.giveBack vaddress a).slab b).freeCount) hnodup (fun b hb => by rw [hslab b hb])
  have huse := sum_split (fun b => (s.slab b).usingCount)
    (fun b => ((s.giveBack vaddress a).slab b).usingCount) hnodup (fun b hb => by rw [hslab b hb])
  have h1 := h.summed.totalFree
  have h2 := h.summed.totalUse
  have hpos := hl.used
  have hf : ((s.giveBack vaddress a).slab a).freeCount = (s.slab a).freeCount + 1 := by
    rw [hself]
    rfl
  have hu : ((s.giveBack vaddress a).slab a).usingCount = (s.slab a).usingCount - 1 := by
    rw [hself]
    rfl
  have htf : (s.giveBack vaddress a).totalFree = s.totalFree + 1 := rfl
  have htu : (s.giveBack vaddress a).totalUse = s.totalUse - 1 := rfl
  rw [hsplit] at h1 h2
  refine ⟨⟨?_, ?_⟩, ?_, ?_⟩
  · rw [hsplit, hfree.2.1, htf, h1, hfree.1, hf]
    omega
  · rw [hsplit, huse.2.1, htu, h2, huse.1, hu]
    omega
  · rw [hfree.2.2, htf, h1, hfree.1]
    omega
  · rw [huse.2.2, htu, h2, huse.1]
    omega

/-- The counters of each slab still add up. -/
theorem RingCache.Ok.giveBack_counts (h : s.Ok ring) (hl : s.Live ring vaddress a) :
    ∀ b ∈ ring, ((s.giveBack vaddress a).slab b).usingCount
      + ((s.giveBack vaddress a).slab b).freeCount
        = ((s.giveBack vaddress a).slab b).colorCount := by
  intro b hb
  have hpos := hl.used
  have hcount := h.counts b hb
  by_cases hba : b = a
  · have hself : (s.giveBack vaddress a).slab b = (s.slab b).give := by
      rw [hba]
      exact Function.update_self ..
    rw [hself]
    rw [← hba] at hpos
    show (s.slab b).usingCount - 1 + ((s.slab b).freeCount + 1) = (s.slab b).colorCount
    omega
  · have hother : (s.giveBack vaddress a).slab b = s.slab b := Function.update_of_ne hba _ _
    rw [hother]
    exact hcount

/-- The slab is not given up: it stays, and so does the ring. -/
theorem RingCache.Ok.keeps (h : s.Ok ring) (hl : s.Live ring vaddress a)
    (hno : (s.giveBack vaddress a).gives a = false) : s.KeptUsable ring vaddress a := by
  have hrun : freeSlab s ring.length vaddress = some (1, s.giveBack vaddress a, []) := by
    unfold freeSlab
    rw [h.find hl, Option.map_some]
    dsimp only
    rw [if_neg (by simp [hno])]
  have hrem : remaining ring [] = ring := by simp [remaining]
  rcases List.append_of_mem hl.mem with ⟨xs, ys, hsplit⟩
  refine ⟨s.giveBack vaddress a, [], hrun, hl.bitCleared, ?_⟩
  rw [hrem]
  refine ⟨h.circular, ?_, (h.giveBack_summed hl hsplit).1, h.giveBack_counts hl⟩
  exact List.mem_of_mem_head? (by rw [h.head]; rfl)

/-- The slab is given up: the rest of the ring is left, and the cache has what is free there. -/
theorem RingCache.Ok.gives_up (h : s.Ok ring) (hl : s.Live ring vaddress a)
    (hyes : (s.giveBack vaddress a).gives a = true) :
    (s.KeptUsable ring vaddress a ↔ a ≠ s.cachePool) := by
  rcases List.append_of_mem hl.mem with ⟨xs, ys, hsplit⟩
  have hself : (s.giveBack vaddress a).slab a = (s.slab a).give := Function.update_self ..
  have hrel : (s.giveBack vaddress a).releases a = s.releases a := by
    unfold RingCache.releases
    rw [hself]
    rfl
  let s' : RingCache := { s.giveBack vaddress a with
    totalFree := (s.giveBack vaddress a).totalFree - ((s.giveBack vaddress a).slab a).colorCount
    list := listDelete s.list a }
  have hrun : freeSlab s ring.length vaddress = some (1, s', s.releases a) := by
    unfold freeSlab
    rw [h.find hl, Option.map_some]
    dsimp only
    rw [if_pos hyes, hrel]
    rfl
  have hrem := h.remaining_eq hsplit
  constructor
  · rintro ⟨s₁, log, hrun₁, -, -, hmem, -⟩ rfl
    rw [hrun] at hrun₁
    have heq := Option.some.inj hrun₁
    have hlog : s.releases s.cachePool = log := congrArg (fun r => r.2.2) heq
    have hpool : s.cachePool = s₁.cachePool := congrArg (fun r => r.2.1.cachePool) heq
    rw [← hpool, ← hlog] at hmem
    have hnot := of_decide_eq_true (List.mem_filter.mp hmem).2
    exact hnot (by simp [RingCache.releases])
  · intro hne
    refine ⟨s', s.releases a, hrun, ⟨hl.bitCleared.bit, hl.bitCleared.frame⟩, ?_⟩
    rw [hrem]
    have hcirc := h.circular
    rw [hsplit] at hcirc
    have hsum := h.giveBack_summed hl hsplit
    have hzero : (s.slab a).usingCount - 1 = 0 := by
      have := (of_decide_eq_true hyes).1
      rw [hself] at this
      exact this
    have hcolor : ((s.giveBack vaddress a).slab a).colorCount = (s.slab a).freeCount + 1 := by
      have hc := h.counts a hl.mem
      have hpos := hl.used
      rw [hself]
      show (s.slab a).colorCount = _
      omega
    refine ⟨hcirc.unlink, ?_, ⟨?_, ?_⟩, fun b hb => ?_⟩
    · have hpool : s.cachePool ∈ ring := List.mem_of_mem_head? (by rw [h.head]; rfl)
      rw [hsplit] at hpool
      rcases List.mem_append.mp hpool with hp | hp
      · exact List.mem_append_left _ hp
      · rcases List.mem_cons.mp hp with hp | hp
        · exact absurd hp.symm hne
        · exact List.mem_append_right _ hp
    · show (s.giveBack vaddress a).totalFree - ((s.giveBack vaddress a).slab a).colorCount = _
      rw [hsum.2.1, hcolor, Nat.add_sub_cancel]
    · show (s.giveBack vaddress a).totalUse = _
      rw [hsum.2.2, hzero, Nat.add_zero]
    · apply h.giveBack_counts hl b
      rw [hsplit]
      rcases List.mem_append.mp hb with hb | hb
      · exact List.mem_append_left _ hb
      · exact List.mem_append_right _ (List.mem_cons_of_mem _ hb)

/-- **`FreeSlab` keeps the cache usable** exactly if it does not give up the slab that `CachePool`
points to. -/
theorem freeSlab_keeps (h : s.Ok ring) (hl : s.Live ring vaddress a) :
    s.KeptUsable ring vaddress a ↔ s.SparesPool a := by
  have hself : (s.giveBack vaddress a).slab a = (s.slab a).give := Function.update_self ..
  have hpos := hl.used
  have hgives : (s.giveBack vaddress a).gives a = true ↔
      (s.slab a).usingCount = 1 ∧ 3 * (s.slab a).colorCount ≤ 2 * (s.totalFree + 1) := by
    unfold RingCache.gives
    rw [decide_eq_true_iff, hself]
    show (s.slab a).usingCount - 1 = 0 ∧ 3 * (s.slab a).colorCount ≤ 2 * (s.totalFree + 1) ↔ _
    omega
  unfold RingCache.SparesPool
  cases hg : (s.giveBack vaddress a).gives a with
  | true =>
      rw [h.gives_up hl hg]
      have := hgives.mp hg
      tauto
  | false =>
      refine iff_of_true (h.keeps hl hg) (fun hall => ?_)
      have := hgives.mpr hall.2
      rw [hg] at this
      cases this

end

/-! ## Two slabs -/

/-- A header at `addr` of a slab with two objects of 1 MiB, one of them in use if `used` is 1. -/
def exampleHeader (addr used : Nat) : Slab where
  addr := addr
  page := addr
  vaddress := addr * 0x100000
  colorMap := addr + 8
  usingCount := used
  freeCount := 2 - used
  colorLength := 1
  colorCount := 2

/-- The slabs 16, with `used` objects in use, and 32; 16 is `CachePool`. -/
def examplePair (used : Nat) : RingCache where
  addr := 64
  size := 0x100000
  totalFree := 4 - used
  totalUse := used
  cachePool := 16
  list := ⟨fun a => if a = 16 then 32 else 16, fun a => if a = 16 then 32 else 16⟩
  slab := fun a => if a = 16 then exampleHeader 16 used else exampleHeader 32 0
  word := fun _ => 1

theorem examplePair_circular (used : Nat) : Links.Circular (examplePair used).list [16, 32] := by
  refine ⟨by decide, fun i a b ha hb => ?_⟩
  match i with
  | 0 =>
      cases ha
      cases hb
      exact ⟨rfl, rfl⟩
  | 1 =>
      cases ha
      cases hb
      exact ⟨rfl, rfl⟩
  | i + 2 => cases ha

theorem examplePair_ring {used : Nat} (h : used ≤ 1) : (examplePair used).Ring [16, 32] := by
  refine ⟨examplePair_circular used, rfl, ?_⟩
  interval_cases used <;> decide

/-- One slab. -/
def exampleAlone : RingCache :=
  { examplePair 0 with list := ⟨fun a => a, fun a => a⟩ }

theorem exampleAlone_ring : exampleAlone.Ring [16] :=
  ⟨Links.circular_singleton.mpr ⟨rfl, rfl⟩, rfl, by decide⟩

theorem deleteSlabCache_once_example : exampleAlone.DeletedOnce [16] :=
  (deleteSlabCache_once exampleAlone_ring rfl).mpr rfl

/-- Two slabs: the first is released twice, the second never. -/
theorem deleteSlabCache_not_once : ¬ ∀ (s : RingCache) (ring : List Nat), s.Ring ring →
    s.totalUse = 0 → s.DeletedOnce ring := by
  intro hall
  rcases hall (examplePair 0) [16, 32] (examplePair_ring (by decide)) rfl with
    ⟨fuel, list, log, hrun, hperm, -⟩
  have hmore : ¬ (examplePair 0).list.Alone (examplePair 0).cachePool :=
    fun h => absurd h.1 (by decide)
  have hcount := hperm.count_eq (Release.kfree 32)
  rw [deleteSlabCache_more rfl hmore hrun] at hcount
  exact absurd hcount (by decide)

/-- The object in use is in slab 32. -/
def exampleOther : RingCache :=
  { examplePair 1 with slab := fun a => if a = 16 then exampleHeader 16 0 else exampleHeader 32 1 }

/-- Two pages that do not overlap. -/
theorem exampleOther_pages (u u' : Nat) (v : Nat)
    (h1 : (exampleHeader 16 u).vaddress ≤ v ∧ v - (exampleHeader 16 u).vaddress < PAGE_2M_SIZE)
    (h2 : (exampleHeader 32 u').vaddress ≤ v ∧ v - (exampleHeader 32 u').vaddress < PAGE_2M_SIZE) :
    False := by
  have e1 : (exampleHeader 16 u).vaddress = 0x1000000 := rfl
  have e2 : (exampleHeader 32 u').vaddress = 0x2000000 := rfl
  have e3 : PAGE_2M_SIZE = 0x200000 := rfl
  omega

theorem exampleOther_ok : exampleOther.Ok [16, 32] where
  toRing := ⟨examplePair_circular 1, rfl, by decide⟩
  counts := by decide
  color := by decide
  pages := by
    intro a ha b hb v h1 h2
    have h1 := of_decide_eq_true h1
    have h2 := of_decide_eq_true h2
    fin_cases ha <;> fin_cases hb
    · rfl
    · exact (exampleOther_pages 0 1 v h1 h2).elim
    · exact (exampleOther_pages 0 1 v h2 h1).elim
    · rfl
  summed := ⟨by decide, by decide⟩

/-- The slab behind `CachePool` becomes empty, and is released. -/
theorem freeSlab_keeps_example : exampleOther.KeptUsable [16, 32] 0x2000000 32 := by
  apply (freeSlab_keeps exampleOther_ok
    ⟨by decide, by decide, by decide, by decide, by decide⟩).mpr
  exact fun h => absurd h.1 (by decide)

theorem examplePair_ok : (examplePair 1).Ok [16, 32] where
  toRing := examplePair_ring le_rfl
  counts := by decide
  color := by decide
  pages := by
    intro a ha b hb v h1 h2
    have h1 := of_decide_eq_true h1
    have h2 := of_decide_eq_true h2
    fin_cases ha <;> fin_cases hb
    · rfl
    · exact (exampleOther_pages 1 0 v h1 h2).elim
    · exact (exampleOther_pages 1 0 v h2 h1).elim
    · rfl
  summed := ⟨by decide, by decide⟩

/-- The slab that `CachePool` points to becomes empty, and is released. -/
theorem freeSlab_not_keeps : ¬ ∀ (s : RingCache) (ring : List Nat) (vaddress a : Nat), s.Ok ring →
    s.Live ring vaddress a → s.KeptUsable ring vaddress a := by
  intro hall
  have hl : (examplePair 1).Live [16, 32] 0x1000000 16 :=
    ⟨by decide, by decide, by decide, by decide, by decide⟩
  have hkept := hall (examplePair 1) [16, 32] 0x1000000 16 examplePair_ok hl
  exact (examplePair_ok.gives_up hl (by decide)).mp hkept rfl

end Talios
