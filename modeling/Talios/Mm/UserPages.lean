import Talios.Mm.UserRangeRun
import Talios.Mm.Partition

set_option autoImplicit false

/-! # The pages of a process in its tables

`Talios.Mm.Brk` has the pages of a process as a map from pages to frames. Here this map is read off the
tables (`mappedPages`), and each function on the tables does to it what the function on the map does:
`MapPage4K`, `UnmapPage4K`, `MapUserRange4K`, `unmap_anonymous_pages`. The inputs of the function on the
map are what the allocators come to. So a run of `do_execve` and `sys_brk` on the tables is one on the
map (`BrkMem.Reachable.pages`).

All of it rests on the class of pages of `kmalloc`: for the tables of a call it need not grow, and it has
not grown before (`TableRoom`, `RangeRoom`, `HeapTree`). Calls that do not meet this are the ones with
`GrownRange`.
-/

namespace Talios

open Word Bitmap Dyadic Radix

/-! ## The map -/

/-- The frames of the pages of user space that are mapped. -/
def mappedPages (w : Memory) (pgd : Nat) : Pages := fun n =>
  if n * PAGE_4K_SIZE < USER_LIMIT then
    (mapping w pgd (n * PAGE_4K_SIZE)).map (fun m => m.frame)
  else none

section

variable {w w' : Memory} {pgd vaddr : Nat}

/-- A page of user space by its address. -/
theorem pageNo_user (hv : vaddr < USER_LIMIT) : pageNo vaddr = vaddr / PAGE_4K_SIZE := by
  have hv : vaddr < 0x0000800000000000 := hv
  unfold pageNo
  exact Nat.mod_eq_of_lt (by unfold PAGE_4K_SIZE PAGE_4K_SHIFT; omega)

theorem page_lt (hv : vaddr < USER_LIMIT) : vaddr / PAGE_4K_SIZE * PAGE_4K_SIZE < USER_LIMIT :=
  (Nat.div_mul_le_self _ _).trans_lt hv

theorem mappedPages_pageNo (h : PageTree w pgd) (hv : vaddr < USER_LIMIT) :
    mappedPages w pgd (pageNo vaddr) = (mapping w pgd vaddr).map (fun m => m.frame) := by
  rw [pageNo_user hv, mappedPages, if_pos (page_lt hv),
    h.mapping_page (page_lt hv) hv (Nat.mul_div_cancel _ (by decide))]

/-- The map is what the processor reads. -/
theorem PageTree.mappedPages_translate (h : PageTree w pgd) (hv : vaddr < USER_LIMIT) :
    mappedPages w pgd (pageNo vaddr) = (translate w pgd vaddr).map (fun t => t.frame) := by
  rw [mappedPages_pageNo h hv, translate_eq_mapping, Option.map_map]
  rfl

/-- The map by the leaves of the tree. -/
theorem PageTree.mappedPages_leaf (h : PageTree w pgd) {n : Nat} (hn : n * PAGE_4K_SIZE < USER_LIMIT) :
    mappedPages w pgd n = (leafMapping (userLeaf w pgd n)).map (fun m => m.frame) := by
  rw [mappedPages, if_pos hn, h.mapping_eq hn, Nat.mul_div_cancel _ (by decide)]

theorem MapSame.mappedPages (h : MapSame w w' pgd) :
    Talios.mappedPages w' pgd = Talios.mappedPages w pgd := by
  funext n
  unfold Talios.mappedPages
  split
  · rename_i hn
    rw [h _ hn]
  · rfl

/-- An update of the tables is one of the map. -/
theorem MapUpdate.mappedPages {m : Option Mapping} (h : MapUpdate w w' pgd vaddr m)
    (hv : vaddr < USER_LIMIT) : Talios.mappedPages w' pgd
      = Function.update (Talios.mappedPages w pgd) (pageNo vaddr) (m.map (fun m => m.frame)) := by
  funext n
  rw [pageNo_user hv]
  by_cases hnv : n = vaddr / PAGE_4K_SIZE
  · have hn := hnv ▸ page_lt hv
    rw [hnv, Function.update_self, Talios.mappedPages, if_pos (page_lt hv), h _ (page_lt hv),
      if_pos (Nat.mul_div_cancel _ (by decide))]
  · rw [Function.update_of_ne hnv]
    unfold Talios.mappedPages
    split
    · rename_i hn
      rw [h _ hn, Nat.mul_div_cancel _ (by decide), if_neg hnv]
    · rfl

end

/-! ## One page -/

section

variable {m₀ : MMS} {pool : Nat → Slab} {s : KMem} {out : Nat → Nat} {objs : List Obj}
  {pgd vaddr : Nat}

/-- **`MapPage4K`** maps the page of the map, where the tables can be had without harm; whether they can
be had at all is the input. -/
theorem HeapTree.mapPage4K_pages (hd : DirectMap m₀ pool) (h : HeapTree m₀ pool pgd s out objs)
    (hv : vaddr < USER_LIMIT) (hal : PAGE_4K_SIZE ∣ vaddr)
    (hroom : TableRoom s (missingTables s.word pgd vaddr)) {page : Nat}
    (hphy : (s.mms.page page).phyAddr = page * PAGE_4K_SIZE) (hpage : page < s.mms.pagesCount)
    {flags : BitVec 64} (hf : IsFlags flags) (hpr : entryHas flags PEA_PRESENT = true)
    (hps : entryHas flags PEA_PAGE_SIZE = false) :
    ∃ s' r o, Talios.mapPage4K s pgd vaddr (some page) flags = some (s', r) ∧
      PageTree s'.word pgd ∧ (TablesHad s (missingTables s.word pgd vaddr) → o = .ready page) ∧
      (¬ TablesHad s (missingTables s.word pgd vaddr) → o = .noTable page) ∧
      mapUserPage (mappedPages s.word pgd) vaddr o = (mappedPages s'.word pgd, r) := by
  have hdvd : PAGE_4K_SIZE ∣ (s.mms.page page).phyAddr := hphy ▸ Nat.dvd_mul_left ..
  have hlt : (s.mms.page page).phyAddr < 2 ^ 64 := by
    have hcount := hd.count
    rw [← h.heap.layout.pagesCount] at hcount
    unfold PAGE_4K_SIZE PAGE_4K_SHIFT at *
    omega
  have hold := mappedPages_pageNo h.tree hv
  rcases h.mapPage4K hd hv hal hroom hdvd flags with
    ⟨s₁, objs₁, he, hmade, hwhy⟩ | ⟨s₀, a, he, hends, hm, hhad⟩
  · -- refused: the page is mapped, or a table is missing
    have hsame := (h.tree.mapSame hmade.tree hmade.leaf).mappedPages
    by_cases hhad : TablesHad s (missingTables s.word pgd vaddr)
    · have hm := hwhy.resolve_right (not_not_intro hhad)
      refine ⟨s₁, _, .ready page, he, hmade.tree, fun _ => rfl, fun hno => absurd hhad hno, ?_⟩
      rw [mapUserPage, hold, if_pos (by rw [Option.isSome_map]; exact Option.isSome_iff_ne_none.mpr hm),
        hsame]
    · refine ⟨s₁, _, .noTable page, he, hmade.tree, fun hc => absurd hc hhad, fun _ => rfl, ?_⟩
      rw [mapUserPage, hsame]
  · rw [flags_and_not hps] at he
    obtain ⟨htree, hmap⟩ := hends.write h.tree (BitVec.ofNat 64 (s.mms.page page).phyAddr ||| flags)
    rw [leafMapping_or hdvd hlt hf hpr] at hmap
    refine ⟨_, 0, .ready page, he, htree, fun _ => rfl, fun hno => absurd hhad hno, ?_⟩
    have hindex : page4KIndex (s.mms.page page).phyAddr = page := by
      rw [hphy]
      exact Nat.mul_div_cancel _ (by decide)
    rw [hm] at hold
    rw [mapUserPage_ready hold, hmap.mappedPages hv, hindex]
    rfl

/-- **`UnmapPage4K`** unmaps the page of the map, and returns its frame. -/
theorem PageTree.unmapPage4K_pages (h : PageTree s.word pgd) (hv : vaddr < USER_LIMIT)
    (hal : PAGE_4K_SIZE ∣ vaddr)
    (hlt : ∀ m, mapping s.word pgd vaddr = some m → m.frame < s.mms.pagesCount) :
    ∃ s', Talios.unmapPage4K s pgd vaddr = some (s', mappedPages s.word pgd (pageNo vaddr)) ∧
      s'.mms = s.mms ∧ PageTree s'.word pgd ∧
      mappedPages s'.word pgd = unmapUserPage (mappedPages s.word pgd) vaddr := by
  have hunmap : unmapUserPage (mappedPages s.word pgd) vaddr
      = Function.update (mappedPages s.word pgd) (pageNo vaddr) none :=
    if_neg (not_not_intro (Nat.mod_eq_zero_of_dvd hal))
  rw [mappedPages_pageNo h hv, hunmap]
  cases hm : mapping s.word pgd vaddr with
  | none =>
      refine ⟨s, h.unmapPage4K_none hv hm, rfl, h, ?_⟩
      have hold := mappedPages_pageNo h hv
      rw [hm] at hold
      exact (Function.update_eq_self_iff.mpr hold.symm).symm
  | some m =>
      obtain ⟨s', he, hmms, htree, hup⟩ := h.unmapPage4K hv hal hm (hlt m hm)
      exact ⟨s', he, hmms, htree, hup.mappedPages hv⟩

/-- The tables of another address space: objects of the heap too, and none of them in the tree at `pgd`. -/
structure OtherTree (s : KMem) (objs : List Obj) (pgd other : Nat) : Prop where
  tree : PageTree s.word other
  owned : ∀ l ≤ 3, ∀ k t, userTables.node s.word (userRoot other) l k = some t → PageObj objs t
  apart : ∀ l ≤ 3, ∀ k t, userTables.node s.word (userRoot other) l k = some t →
    ∀ l' ≤ 3, ∀ k', userTables.node s.word (userRoot pgd) l' k' ≠ some t

/-- Another address space is left alone by whatever changes the tables at `pgd` only. -/
theorem OtherTree.step {other : Nat} (h : OtherTree s objs pgd other) {s' : KMem} {objs' : List Obj}
    (hs : TreeStep pgd s objs s' objs') :
    OtherTree s' objs' pgd other ∧ MapSame s.word s'.word other := by
  obtain ⟨htree, hnode, hleaf⟩ := @PageTree.congr _ s'.word _ h.tree (fun l hl k t hn i hi => by
    refine hs.kept _ (h.owned l hl k t hn) (fun l' hl' k' t' hn' hptr => ?_) _
      (PageObj.has (hi.trans_le (Tree.width_le l)))
    have htt : t = t' := Nat.eq_of_mul_eq_mul_left (by decide) hptr
    exact h.apart l hl k t hn l' hl' k' (htt ▸ hn'))
  refine ⟨⟨htree, fun l hl k t hn => ?_, fun l hl k t hn l' hl' k' hn' => ?_⟩,
    h.tree.mapSame htree hleaf⟩
  · rw [hnode l hl] at hn
    exact hs.mem _ (h.owned l hl k t hn)
  · -- a new table was no object before
    rw [hnode l hl] at hn
    rcases hs.fresh l' hl' k' t hn' with hold | hnew
    · exact h.apart l hl k t hn l' hl' k' hold
    · exact hnew (h.owned l hl k t hn)

/-! ## A range -/

theorem alignDown_mul (k : Nat) : alignDown PAGE_4K_SIZE (k * PAGE_4K_SIZE) = k * PAGE_4K_SIZE := by
  unfold alignDown
  rw [Nat.mul_div_cancel _ (by decide)]

theorem rangePages_mul (k n : Nat) : rangePages (k * PAGE_4K_SIZE) (n * PAGE_4K_SIZE) = n := by
  unfold rangePages
  rw [show PAGE_4K_SIZE = 4096 from rfl]
  omega

/-- Whole pages of user space. -/
theorem userRange_mul {m : MMS} {k n : Nat} (hle : (k + n) * PAGE_4K_SIZE ≤ USER_LIMIT) :
    UserRange m (k * PAGE_4K_SIZE) (n * PAGE_4K_SIZE) := by
  have hL : USER_LIMIT = 0x0000800000000000 := rfl
  refine ⟨?_, fun i hi _ => ?_⟩
  · rw [← Nat.add_mul, show PAGE_4K_SIZE - 1 = 4095 from rfl]
    omega
  · rw [rangePages_mul] at hi
    rw [alignDown_mul, ← Nat.add_mul]
    exact lt_of_lt_of_le (Nat.mul_lt_mul_of_pos_right (by omega) (by decide)) hle

/-- `AllocPage4K` has no frame for page `i` of a range, or there are not enough tables. -/
def RangeShort (s : KMem) (pgd first i : Nat) : Prop :=
  framesTaken s.mms (i + 1) = none ∨ (s.cache 7).totalFree < rangeMissing s.word pgd first (i + 1)

/-- The frames of a range are the map's. -/
theorem RangeHeld.mappedPages {frames : List Nat} {s' : KMem} {objs' : List Obj} {k : Nat}
    (h : RangeHeld m₀ pool pgd s out objs (k * PAGE_4K_SIZE) frames s' objs') :
    Talios.mappedPages s'.word pgd = withFrames (Talios.mappedPages s.word pgd) k frames := by
  funext i
  unfold withFrames
  by_cases hi : i * PAGE_4K_SIZE < USER_LIMIT
  · have hle : k * PAGE_4K_SIZE ≤ i * PAGE_4K_SIZE ↔ k ≤ i :=
      Nat.mul_le_mul_right_iff (by decide)
    have hsub : (i * PAGE_4K_SIZE - k * PAGE_4K_SIZE) / PAGE_4K_SIZE = i - k := by
      rw [← Nat.sub_mul, Nat.mul_div_cancel _ (by decide)]
    have hold : (mapping s.word pgd (i * PAGE_4K_SIZE)).map (fun m => m.frame)
        = Talios.mappedPages s.word pgd i := by
      rw [Talios.mappedPages, if_pos hi]
    rw [Talios.mappedPages, if_pos hi, h.map _ hi]
    unfold rangeMapping
    rw [hsub]
    by_cases hk : k ≤ i
    · rw [if_pos (hle.mpr hk)]
      by_cases hlen : i - k < frames.length
      · rw [if_pos (by omega), List.getElem?_eq_getElem hlen]
        rfl
      · rw [if_neg (by omega), List.getElem?_eq_none (Nat.le_of_not_lt hlen)]
        exact hold
    · rw [if_neg (mt hle.mp hk), if_neg (by omega)]
      exact hold
  · -- the frames are of pages of user space
    have hout : ¬ (k ≤ i ∧ i < k + frames.length) := by
      rintro ⟨h1, h2⟩
      have hup := h.upper (i - k) (by omega)
      rw [← Nat.add_mul, Nat.add_sub_cancel' h1] at hup
      exact hi hup
    rw [if_neg hout, Talios.mappedPages, if_neg hi, Talios.mappedPages, if_neg hi]

theorem mappedPages_range {k i : Nat} (hi : (k + i) * PAGE_4K_SIZE < USER_LIMIT) :
    mappedPages s.word pgd (k + i)
      = (mapping s.word pgd (k * PAGE_4K_SIZE + i * PAGE_4K_SIZE)).map (fun m => m.frame) := by
  rw [mappedPages, if_pos hi, Nat.add_mul]

/-- **`MapUserRange4K`** maps the range of the map, where the class of pages need not grow. A page is
refused on the map only if there is no frame or no table for it. -/
theorem HeapTree.mapUserRange4K_pages (hd : DirectMap m₀ pool)
    (h : HeapTree m₀ pool pgd s out objs) {k n : Nat} (hle : (k + n) * PAGE_4K_SIZE ≤ USER_LIMIT)
    (hroom : RangeRoom s pgd (k * PAGE_4K_SIZE) n) :
    ∃ s' r out' objs' outcome,
      s.mapUserRange4K pgd (k * PAGE_4K_SIZE) (n * PAGE_4K_SIZE) = some (s', r) ∧
      HeapTree m₀ pool pgd s' out' objs' ∧
      (∀ i < n, (∃ f, outcome ((k + i) * PAGE_4K_SIZE) = .ready f) ∨
        RangeShort s pgd (k * PAGE_4K_SIZE) i) ∧
      Talios.mapUserRange4K (mappedPages s.word pgd) outcome (k * PAGE_4K_SIZE) (n * PAGE_4K_SIZE)
        = (mappedPages s'.word pgd, r) := by
  have hlt : ∀ i < n, (k + i) * PAGE_4K_SIZE < USER_LIMIT := fun i hi =>
    lt_of_lt_of_le (Nat.mul_lt_mul_of_pos_right (by omega) (by decide)) hle
  have hrun := h.rangeRun hd (userRange_mul (m := m₀) hle)
    (by rw [alignDown_mul, rangePages_mul]; exact hroom)
  rw [alignDown_mul, rangePages_mul] at hrun
  rcases hrun with ⟨s', objs', frames, he, hlen, hmade⟩ | ⟨s', objs', j, he, hj, hheld, hstops⟩
  · -- every page gets its frame
    refine ⟨s', 0, _, objs', fun v => .ready (frames.getD (v / PAGE_4K_SIZE - k) 0), he,
      hmade.toHeapTree, fun i _ => Or.inl ⟨_, rfl⟩, ?_⟩
    have hloop := @mapRangeLoop_all (fun v => .ready (frames.getD (v / PAGE_4K_SIZE - k) 0)) frames k
      (mappedPages s.word pgd) (by rw [hlen]; exact hle) (fun i h1 h2 => ?_) (fun i hi => ?_)
    · rw [mapUserRange4K_loop hle, ← hlen, hloop, hmade.toRangeHeld.mappedPages]
    · have hbefore := hmade.before (i - k) (by omega)
      have hi := @mappedPages_range s pgd k (i - k) (hlt _ (by omega))
      rw [hbefore, Nat.add_sub_cancel' h1] at hi
      exact hi
    · rw [Nat.mul_div_cancel _ (by decide), Nat.add_sub_cancel_left, List.getD_eq_getElem?_getD,
        List.getElem?_eq_getElem hi]
      rfl
  · -- page `j` is mapped, or is short of a frame or a table
    have hsame : mappedPages s'.word pgd = mappedPages s.word pgd := by
      rw [hheld.mappedPages]
      funext i
      exact if_neg (by simp)
    have hfails : ∀ outcome, (mappedPages s.word pgd (k + j) = none →
          ∀ f, outcome ((k + j) * PAGE_4K_SIZE) ≠ .ready f) →
        Talios.mapUserRange4K (mappedPages s.word pgd) outcome (k * PAGE_4K_SIZE) (n * PAGE_4K_SIZE)
          = (mappedPages s'.word pgd, -(ENOMEM : Int)) := by
      intro outcome hno
      rw [hsame]
      refine mapUserRange4K_failed hle (fun hc => ?_)
      obtain ⟨hfree, f, hf⟩ := (mapRangeLoop_none n k _ hle).mp hc (k + j) (by omega) (by omega)
      exact hno hfree f hf
    rcases hstops with hmapped | hshort
    · refine ⟨s', _, _, objs', fun _ => .ready 0, he, hheld.toHeapTree, fun i _ => Or.inl ⟨0, rfl⟩,
        hfails _ (fun hfree => ?_)⟩
      rw [mappedPages_range (hlt j hj), Option.map_eq_none_iff] at hfree
      exact absurd hfree hmapped
    · refine ⟨s', _, _, objs', fun v => if v = (k + j) * PAGE_4K_SIZE then .noPage else .ready 0, he,
        hheld.toHeapTree, fun i _ => ?_, hfails _ (fun _ f => ?_)⟩
      · by_cases hi : i = j
        · exact Or.inr (hi ▸ hshort)
        · refine Or.inl ⟨0, if_neg (fun hc => hi ?_)⟩
          exact Nat.add_left_cancel (Nat.eq_of_mul_eq_mul_right (by decide) hc)
      · rw [if_pos rfl]
        exact fun hc => nomatch hc

/-- **`unmap_anonymous_pages`** unmaps the range of the map, in an address space whose leaves are frames
of its user. -/
theorem TablesInv.unmapAnonymousPages_pages (hd : DirectMap m₀ pool) (h : HeapInv m₀ pool s out objs)
    (ht : TablesInv m₀ s.word pgd out objs) {k l : Nat} (hkl : k ≤ l) (hle : l * PAGE_4K_SIZE ≤ USER_LIMIT)
    (blocks : List (Option Nat)) :
    ∃ s' out', unmapAnonymousPages s pgd (k * PAGE_4K_SIZE) (l * PAGE_4K_SIZE) = some s' ∧
      HeapInv m₀ pool s' out' objs ∧ TablesInv m₀ s'.word pgd out' objs ∧
      pagesEnv.unmapAnonymousPages (mappedPages s.word pgd, blocks) pgd (k * PAGE_4K_SIZE)
        (l * PAGE_4K_SIZE) = (mappedPages s'.word pgd, blocks) := by
  have hcount : (l * PAGE_4K_SIZE - k * PAGE_4K_SIZE + (PAGE_4K_SIZE - 1)) / PAGE_4K_SIZE = l - k := by
    rw [← Nat.sub_mul, show PAGE_4K_SIZE = 4096 from rfl]
    omega
  obtain ⟨s', out', he, hun⟩ := unmapLoop_spec hd (l - k) k s out h ht
    (by rw [Nat.add_sub_cancel' hkl]; exact hle)
  refine ⟨s', out', ?_, hun.heap, hun.tables, Prod.ext (funext fun i => ?_) rfl⟩
  · rw [unmapAnonymousPages, hcount]
    exact he
  · show unmapPagesLoop _ _ (mappedPages s.word pgd) i = mappedPages s'.word pgd i
    rw [hcount, unmapPagesLoop_spec _ _ _ (by rw [Nat.add_sub_cancel' hkl]; exact hle)]
    by_cases hi : i * PAGE_4K_SIZE < USER_LIMIT
    · have hleaf := hun.leaf i
      rw [(ht.heapTree hd h).tree.mappedPages_leaf hi,
        (hun.tables.heapTree hd hun.heap).tree.mappedPages_leaf hi, hleaf]
      split
      · rfl
      · rfl
    · rw [mappedPages, if_neg hi, mappedPages, if_neg hi, ite_self]

end

/-! ## `sys_brk` -/

/-- The heap of a process, with the kernel. -/
structure BrkMem where
  startBrk : Nat
  endBrk : Nat
  mem : KMem

/-- The heap with its pages. -/
def BrkMem.pages (s : BrkMem) (pgd : Nat) : Brk := ⟨s.startBrk, s.endBrk, mappedPages s.mem.word pgd⟩

/-- `do_brk`. -/
def BrkMem.doBrk (s : BrkMem) (pgd start size : Nat) : Option (BrkMem × Nat) :=
  let stop := alignUp64 PAGE_4K_SIZE (add64 start size)
  (s.mem.mapUserRange4K pgd start size).map (fun r =>
    if r.2 ≠ 0 then ({ s with mem := r.1 }, negErr ENOMEM)
    else ({ s with mem := r.1, endBrk := stop }, stop))

/-- `sys_brk`. -/
def BrkMem.sysBrk (s : BrkMem) (pgd brk : Nat) : Option (BrkMem × Nat) :=
  let newBrk := alignUp64 PAGE_4K_SIZE brk
  if newBrk = 0 then some (s, s.startBrk)
  else if newBrk < s.endBrk then some (s, 0)
  else
    (s.doBrk pgd s.endBrk (sub64 newBrk s.endBrk)).map (fun r => ({ r.1 with endBrk := r.2 }, r.2))

/-- For the tables of the pages that `sys_brk` maps the class of pages need not grow. -/
def BrkMem.TablesRoom (s : BrkMem) (pgd brk : Nat) : Prop :=
  RangeRoom s.mem pgd s.endBrk ((alignUp64 PAGE_4K_SIZE brk - s.endBrk) / PAGE_4K_SIZE)

/-- The kernel and the heap of the process with the tables at `pgd`, after `do_execve` and calls of
`sys_brk` in user space for whose tables the class of pages need not grow. In between the rest of the
kernel runs, and leaves the pages of the process as they are. -/
inductive BrkMem.Reachable (m₀ : MMS) (pool : Nat → Slab) (pgd : Nat) : BrkMem → Prop
  | exec {s s' : KMem} {out : Nat → Nat} {objs : List Obj} (h : HeapTree m₀ pool pgd s out objs)
      (hempty : ∀ u < USER_LIMIT, mapping s.word pgd u = none)
      (hroom : RangeRoom s pgd CODE_START_ADDR 512)
      (he : s.mapUserRange4K pgd CODE_START_ADDR (STACK_START_ADDR - CODE_START_ADDR)
        = some (s', 0)) :
      BrkMem.Reachable m₀ pool pgd ⟨BRK_START_ADDR, BRK_START_ADDR, s'⟩
  | brk {s s' : BrkMem} {brk v : Nat} (h : BrkMem.Reachable m₀ pool pgd s) (hbrk : brk ≤ USER_LIMIT)
      (hroom : s.TablesRoom pgd brk) (he : s.sysBrk pgd brk = some (s', v)) :
      BrkMem.Reachable m₀ pool pgd s'
  | rest {s : BrkMem} {mem : KMem} {out : Nat → Nat} {objs : List Obj}
      (h : BrkMem.Reachable m₀ pool pgd s) (htree : HeapTree m₀ pool pgd mem out objs)
      (hsame : MapSame s.mem.word mem.word pgd) :
      BrkMem.Reachable m₀ pool pgd { s with mem := mem }

section

variable {m₀ : MMS} {pool : Nat → Slab} {out : Nat → Nat} {objs : List Obj} {pgd : Nat} {s : BrkMem}

/-- A call that goes on to `do_brk`. -/
theorem BrkMem.sysBrk_grow {brk l : Nat} (hl : alignUp64 PAGE_4K_SIZE brk = l * PAGE_4K_SIZE)
    (hlt : l * PAGE_4K_SIZE < 2 ^ 64 - 4095) (h0 : l * PAGE_4K_SIZE ≠ 0)
    (hge : s.endBrk ≤ l * PAGE_4K_SIZE) :
    s.sysBrk pgd brk
      = (s.mem.mapUserRange4K pgd s.endBrk (l * PAGE_4K_SIZE - s.endBrk)).map (fun r =>
          if r.2 ≠ 0 then (⟨s.startBrk, negErr ENOMEM, r.1⟩, negErr ENOMEM)
          else (⟨s.startBrk, l * PAGE_4K_SIZE, r.1⟩, l * PAGE_4K_SIZE)) := by
  have hml := page_mul l
  have hstop : alignUp64 PAGE_4K_SIZE (add64 s.endBrk (l * PAGE_4K_SIZE - s.endBrk))
      = l * PAGE_4K_SIZE := by
    rw [add64_eq (by omega), Nat.add_sub_cancel' hge, alignUp_page (by omega)]
    congr 1
    omega
  unfold BrkMem.sysBrk BrkMem.doBrk
  dsimp only
  rw [hl, if_neg h0, if_neg (by omega), sub64_eq hge (by omega), hstop, Option.map_map]
  congr 1
  funext r
  show _ = if r.2 ≠ 0 then _ else _
  rw [Function.comp_apply]
  split <;> rfl

/-- **`sys_brk`** on the tables does what it does on the map; a page is refused there only if there is no
frame or no table for it. -/
theorem BrkMem.sysBrk_pages (hd : DirectMap m₀ pool) (h : HeapTree m₀ pool pgd s.mem out objs)
    (hs : (s.pages pgd).Paged) {brk : Nat} (hb : brk ≤ USER_LIMIT) (hroom : s.TablesRoom pgd brk) :
    ∃ s' v out' objs', s.sysBrk pgd brk = some (s', v) ∧ HeapTree m₀ pool pgd s'.mem out' objs' ∧
      ∃ c : BrkCall, c.brk = brk ∧ c.grown = none ∧
        (∀ n, s.endBrk ≤ n * PAGE_4K_SIZE → n * PAGE_4K_SIZE < brk →
          (∃ f, c.outcome (n * PAGE_4K_SIZE) = .ready f) ∨
            RangeShort s.mem pgd s.endBrk (n - s.endBrk / PAGE_4K_SIZE)) ∧
        Talios.sysBrk (s.pages pgd) c.grown c.outcome c.brk = (s'.pages pgd, v) := by
  have hL : USER_LIMIT = 0x0000800000000000 := rfl
  have halign := alignUp_page (a := brk) (by omega)
  obtain ⟨l, hl⟩ : ∃ l, l = (brk + 4095) / 4096 := ⟨_, rfl⟩
  rw [← hl] at halign
  have hml := page_mul l
  have hlt : brk < 2 ^ 64 := by omega
  by_cases h0 : l * PAGE_4K_SIZE = 0
  · refine ⟨s, s.startBrk, out, objs, ?_, h, ⟨brk, none, fun _ => .ready 0, hlt⟩, rfl, rfl,
      fun n _ _ => Or.inl ⟨0, rfl⟩, ?_⟩
    · unfold BrkMem.sysBrk
      exact if_pos (halign.trans h0)
    · unfold Talios.sysBrk
      exact if_pos (halign.trans h0)
  by_cases h1 : l * PAGE_4K_SIZE < s.endBrk
  · refine ⟨s, 0, out, objs, ?_, h, ⟨brk, none, fun _ => .ready 0, hlt⟩, rfl, rfl,
      fun n _ _ => Or.inl ⟨0, rfl⟩, ?_⟩
    · unfold BrkMem.sysBrk
      exact (if_neg (by rw [halign]; exact h0)).trans (if_pos (by rw [halign]; exact h1))
    · unfold Talios.sysBrk
      exact (if_neg (by rw [halign]; exact h0)).trans (if_pos (by rw [halign]; exact h1))
  -- the break is a page, as the error code is above it
  obtain ⟨k, hk⟩ : ∃ k, s.endBrk = k * PAGE_4K_SIZE := by
    rcases hs with hk | he
    · exact hk
    · have he : s.endBrk = 2 ^ 64 - 12 := he
      omega
  have hmk := page_mul k
  have hkl : k ≤ l := by omega
  have hsize : l * PAGE_4K_SIZE - s.endBrk = (l - k) * PAGE_4K_SIZE := by
    rw [hk, Nat.sub_mul]
  unfold BrkMem.TablesRoom at hroom
  rw [halign, hsize, hk, Nat.mul_div_cancel _ (by decide)] at hroom
  obtain ⟨mem, r, out', objs', outcome, he, htree, hready, hmap⟩ :=
    h.mapUserRange4K_pages hd (k := k) (n := l - k) (by rw [Nat.add_sub_cancel' hkl]; omega) hroom
  have hcall := @BrkMem.sysBrk_grow pgd s _ _ halign (by omega) h0 (Nat.le_of_not_lt h1)
  have hcall' := Talios.sysBrk_grow (s := s.pages pgd) (c := ⟨brk, none, outcome, hlt⟩) halign
    (by omega) (by rintro rfl; exact h0 (Nat.zero_mul _)) (Nat.le_of_not_lt h1)
  rw [show (s.pages pgd).endBrk = s.endBrk from rfl, mapUserPages_none, hsize, hk] at hcall'
  rw [show (s.pages pgd).pages = mappedPages s.mem.word pgd from rfl, hmap] at hcall'
  rw [hsize, hk, he, Option.map_some] at hcall
  have hready' : ∀ n, s.endBrk ≤ n * PAGE_4K_SIZE → n * PAGE_4K_SIZE < brk →
      (∃ f, outcome (n * PAGE_4K_SIZE) = .ready f) ∨
        RangeShort s.mem pgd s.endBrk (n - s.endBrk / PAGE_4K_SIZE) := by
    intro n h2 h3
    have hmn := page_mul n
    have hn := hready (n - k) (by omega)
    rw [Nat.add_sub_cancel' (by omega)] at hn
    rwa [hk, Nat.mul_div_cancel _ (by decide)]
  by_cases hr : r = 0
  · rw [if_neg (not_not_intro hr)] at hcall hcall'
    exact ⟨_, _, out', objs', hcall, htree, _, rfl, rfl, hready', hcall'⟩
  · rw [if_pos hr] at hcall hcall'
    exact ⟨_, _, out', objs', hcall, htree, _, rfl, rfl, hready', hcall'⟩

/-- So a call with frames and tables for its pages extends the heap. -/
theorem BrkMem.sysBrk_ok (hd : DirectMap m₀ pool) (h : HeapTree m₀ pool pgd s.mem out objs)
    (hs : (s.pages pgd).Ok) {brk : Nat} (hb : brk ≤ USER_LIMIT) (hroom : s.TablesRoom pgd brk)
    (hhad : ∀ n, s.endBrk ≤ n * PAGE_4K_SIZE → n * PAGE_4K_SIZE < brk →
      ¬ RangeShort s.mem pgd s.endBrk (n - s.endBrk / PAGE_4K_SIZE)) :
    ∃ s' v out' objs', s.sysBrk pgd brk = some (s', v) ∧ HeapTree m₀ pool pgd s'.mem out' objs' ∧
      (s'.pages pgd).Ok ∧ (s.endBrk < brk → v = alignUp64 PAGE_4K_SIZE brk ∧ s'.endBrk = v) := by
  obtain ⟨s', v, out', objs', he, htree, c, rfl, hg, hready, hmap⟩ :=
    BrkMem.sysBrk_pages hd h (Or.inl hs.endBrk_eq) hb hroom
  have hc : (s.pages pgd).Room c :=
    ⟨hg, hb, fun n h1 h2 => (hready n h1 h2).resolve_right (hhad n h1 h2)⟩
  have hok := ((Talios.sysBrk_ok hs c hg).mpr hc).1
  rw [hmap] at hok
  refine ⟨s', v, out', objs', he, htree, hok, fun hmore => ?_⟩
  have hL : USER_LIMIT = 0x0000800000000000 := rfl
  have hml := page_mul ((c.brk + 4095) / 4096)
  have hge : (s.pages pgd).endBrk ≤ (c.brk + 4095) / 4096 * PAGE_4K_SIZE := by
    show s.endBrk ≤ _
    omega
  rcases sysBrk_user hs hg hb rfl (by omega) hge with ⟨-, -, hv, hend⟩ | ⟨hno, -⟩
  · rw [hmap] at hv hend
    exact ⟨hv.trans (alignUp_page (by omega)).symm, hend.trans hv.symm⟩
  · exact absurd hc hno

/-- **A run on the tables is one on the map.** -/
theorem BrkMem.Reachable.pages (hd : DirectMap m₀ pool) (h : BrkMem.Reachable m₀ pool pgd s) :
    (∃ out objs, HeapTree m₀ pool pgd s.mem out objs) ∧ (s.pages pgd).Paged ∧
      BrkReachable (· = none) (fun _ c => c.grown = none) (s.pages pgd) := by
  induction h with
  | @exec s s' out objs h hempty hroom he =>
      have hnone : mappedPages s.word pgd = fun _ => none := by
        funext n
        unfold mappedPages
        split
        · rename_i hn
          rw [hempty _ hn]
          rfl
        · rfl
      obtain ⟨mem, r, out', objs', outcome, he', htree, -, hmap⟩ :=
        h.mapUserRange4K_pages hd (k := 0x800) (n := 512) (by decide) hroom
      obtain ⟨rfl, rfl⟩ := Prod.mk.inj (Option.some.inj (he'.symm.trans he))
      refine ⟨⟨out', objs', htree⟩, Or.inl ⟨0xc00, rfl⟩, ?_⟩
      refine @BrkReachable.exec (· = none) _ none outcome _ ?_ rfl
      unfold execveBrk
      rw [mapUserPages_none, ← hnone]
      rw [show CODE_START_ADDR = 0x800 * PAGE_4K_SIZE from rfl,
        show STACK_START_ADDR - 0x800 * PAGE_4K_SIZE = 512 * PAGE_4K_SIZE from rfl, hmap]
      rfl
  | @brk s s' brk v _ hbrk hroom he ih =>
      obtain ⟨⟨out, objs, htree⟩, hpaged, hrun⟩ := ih
      obtain ⟨s₁, v₁, out', objs', he', htree', c, hc, hg, -, hmap⟩ :=
        BrkMem.sysBrk_pages hd htree hpaged hbrk hroom
      obtain ⟨rfl, rfl⟩ := Prod.mk.inj (Option.some.inj (he'.symm.trans he))
      have hstate := congrArg Prod.fst hmap
      rw [show (s₁.pages pgd, v₁).1 = s₁.pages pgd from rfl] at hstate
      refine ⟨⟨out', objs', htree'⟩, ?_, ?_⟩
      · rw [← hstate]
        exact hpaged.sysBrk c
      · rw [← hstate]
        exact hrun.step c hg
  | @rest s mem out objs _ htree hsame ih =>
      obtain ⟨-, hpaged, hrun⟩ := ih
      refine ⟨⟨out, objs, htree⟩, hpaged, ?_⟩
      have hstate : BrkMem.pages { s with mem := mem } pgd = s.pages pgd := by
        unfold BrkMem.pages
        rw [hsame.mappedPages]
      rw [hstate]
      exact hrun

end

end Talios
