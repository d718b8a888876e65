import Talios.Mm.UserPages
import Talios.Task.Fork

set_option autoImplicit false

/-! # Copying pages on the tables

`copy_user_range` on the tables in memory. `MapPage4K` enters a frame in the tables of the child, and
`memcopy` reads the page through those of the parent, which the processor uses. While the class of pages
of `kmalloc` need not grow (`KMem.CopyRoom`), this loop does what `Talios.Task.Fork` has on the maps of
pages, as long as the parent has the pages (`TablesCopying.copyUserLoop`).
-/

namespace Talios

open Word Bitmap Dyadic Radix

/-! ## The code -/

/-- The words of the frame `f` are copied to the frame of `page`. -/
def KMem.copyFrame (s : KMem) (f page : Nat) : KMem :=
  let src := phyToVirt (f * PAGE_4K_SIZE) / 8
  let dst := phyToVirt (s.mms.page page).phyAddr / 8
  { s with word := fun a =>
      if dst ≤ a ∧ a < dst + PAGE_4K_SIZE / 8 then s.word (src + (a - dst)) else s.word a }

/-- `memcopy` of the page at `vaddr` to the frame of `page`. A page that is missing is a page fault inside
the kernel. -/
def KMem.copyPage (s : KMem) (mm : Lmm) (vaddr page : Nat) : Option KMem :=
  match translate s.word mm.pgd vaddr with
  | some t => some (s.copyFrame t.frame page)
  | none =>
      match Talios.handlePageFault s mm vaddr 0 with
      | some (s', 0) =>
          (translate s'.word mm.pgd vaddr).map (fun t => s'.copyFrame t.frame page)
      | _ => none

/-- The body of the loop of `copy_user_range`: whether the page has been copied. -/
def KMem.copyUserPage (s : KMem) (mm : Lmm) (pgd vaddr : Nat) : Option (KMem × Bool) :=
  match allocPage4K s.mms ZONE_NORMAL_INDEX 1 PG_PTABLE_MAPPED with
  | none => none
  | some (mms, none) => some ({ s with mms := mms }, false)
  | some (mms, some page) =>
      match Talios.mapPage4K { s with mms := mms } pgd vaddr (some page) PEA_USER_PAGE with
      | none => none
      | some (s₁, r) =>
          if r ≠ 0 then (s₁.freePage4K page).map (·, false)
          else (s₁.copyPage mm vaddr page).map (·, true)

/-- The loop of `copy_user_range`. -/
def KMem.copyUserLoop (mm : Lmm) (pgd : Nat) : List Nat → KMem → Option (KMem × Bool)
  | [], s => some (s, true)
  | v :: l, s =>
      match s.copyUserPage mm pgd v with
      | some (s₁, true) => KMem.copyUserLoop mm pgd l s₁
      | r => r

/-- `copy_user_range`: whether it returns 0. -/
def KMem.copyUserRange (s : KMem) (mm : Lmm) (pgd start stop : Nat) : Option (KMem × Bool) :=
  KMem.copyUserLoop mm pgd (rangeAddrs start stop) s

/-- Window and heap are copied. -/
def KMem.copyRanges (s : KMem) (mm : Lmm) (pgd startBrk endBrk : Nat) : Option (KMem × Bool) :=
  match s.copyUserRange mm pgd CODE_START_ADDR STACK_START_ADDR with
  | some (s₁, true) =>
      if startBrk < endBrk then s₁.copyUserRange mm pgd startBrk endBrk else some (s₁, true)
  | r => r

/-- The tables of a page can be had without growing, once it has its frame. -/
def KMem.PageRoom (s : KMem) (pgd vaddr : Nat) : Prop :=
  ∀ mms f, allocPage4K s.mms ZONE_NORMAL_INDEX 1 PG_PTABLE_MAPPED = some (mms, some f) →
    PagesRoom { s with mms := mms } (missingTables s.word pgd vaddr)

/-- What the allocations for a page come to: a frame, and the tables that it misses. -/
def KMem.pageOutcome (s : KMem) (pgd vaddr : Nat) : PageOutcome :=
  match allocPage4K s.mms ZONE_NORMAL_INDEX 1 PG_PTABLE_MAPPED with
  | some (_, some f) =>
      if (s.cache 7).totalFree < missingTables s.word pgd vaddr then .noTable f else .ready f
  | _ => .noPage

/-- The loop comes to the page `v` of a list with the memory `s'`. -/
def KMem.ComesTo (mm : Lmm) (pgd : Nat) (l : List Nat) (s : KMem) (v : Nat) (s' : KMem) : Prop :=
  ∃ pre post, l = pre ++ v :: post ∧ KMem.copyUserLoop mm pgd pre s = some (s', true)

/-- The class of pages need not grow for any page that the loop comes to. -/
def KMem.CopyRoom (mm : Lmm) (pgd : Nat) (l : List Nat) (s : KMem) : Prop :=
  ∀ v s', KMem.ComesTo mm pgd l s v s' → s'.PageRoom pgd v

/-- The input of the model says what the allocations for these pages come to. -/
def ForkEnv.Agrees (env : ForkEnv) (mm : Lmm) (pgd : Nat) (l : List Nat) (s : KMem) : Prop :=
  ∀ v s', KMem.ComesTo mm pgd l s v s' → env.outcome v = s'.pageOutcome pgd v

/-! ## Frames -/

/-- Byte `j` of a frame. -/
def frameByte (w : Memory) (f j : Nat) : UInt8 :=
  UInt8.ofNat ((w (phyToVirt (f * PAGE_4K_SIZE) / 8 + j / 8)).toNat / 2 ^ (8 * (j % 8)))

section

variable {m₀ : MMS} {pool : Nat → Slab} {s s' : KMem} {out : Nat → Nat} {objs objs' : List Obj}
  {pgd vaddr f : Nat}

theorem frameByte_congr {w w' : Memory} {g : Nat}
    (h : ∀ i < PAGE_4K_SIZE / 8, w' (phyToVirt (f * PAGE_4K_SIZE) / 8 + i)
      = w (phyToVirt (g * PAGE_4K_SIZE) / 8 + i)) {j : Nat} (hj : j < PAGE_4K_SIZE) :
    frameByte w' f j = frameByte w g j := by
  have hj8 : j / 8 < PAGE_4K_SIZE / 8 := Nat.div_lt_div_of_lt_of_dvd (by decide) hj
  unfold frameByte
  rw [h _ hj8]

/-- Writing to the frame of a user changes no table. -/
theorem HeapTree.frameWritten (hd : DirectMap m₀ pool) (h : HeapTree m₀ pool pgd s out objs)
    (hf : UserFrame m₀ out f) {w : Memory} (hw : ∀ a, wordFrame a ≠ f → w a = s.word a) :
    HeapTree m₀ pool pgd { s with word := w } out objs ∧ MapSame s.word w pgd ∧
      TreeStep pgd s objs { s with word := w } objs := by
  obtain ⟨hheap, hobj⟩ := h.heap.frameWritten hd hf hw
  obtain ⟨htree, hnode, hleaf⟩ := @PageTree.congr _ w _ h.tree (fun l hl k t ht i hi =>
    hobj _ (h.owned l hl k t ht) _ (PageObj.has (hi.trans_le (Tree.width_le l))))
  have hold : ∀ l ≤ 3, ∀ k t, userTables.node w (userRoot pgd) l k = some t →
      userTables.node s.word (userRoot pgd) l k = some t := by
    intro l hl k t ht
    rwa [hnode l hl] at ht
  exact ⟨⟨hheap, htree, fun l hl k t ht => h.owned l hl k t (hold l hl k t ht)⟩,
    h.tree.mapSame htree hleaf, rfl, fun _ hb => hb, fun l hl k t ht => Or.inl (hold l hl k t ht),
    fun b hb _ a ha => hobj b hb a ha⟩

/-- The words of a copy. -/
theorem copyFrame_word (hphy : (s.mms.page f).phyAddr = f * PAGE_4K_SIZE) {g : Nat} :
    (∀ a, wordFrame a ≠ f → (s.copyFrame g f).word a = s.word a) ∧
      ∀ i < PAGE_4K_SIZE / 8, (s.copyFrame g f).word (phyToVirt (f * PAGE_4K_SIZE) / 8 + i)
        = s.word (phyToVirt (g * PAGE_4K_SIZE) / 8 + i) := by
  unfold KMem.copyFrame
  rw [hphy]
  refine ⟨fun a ha => if_neg (fun hc => ha ?_), fun i hi => ?_⟩
  · obtain ⟨i, rfl⟩ := Nat.exists_eq_add_of_le hc.1
    exact wordFrame_add (by omega)
  · dsimp only
    rw [if_pos ⟨Nat.le_add_right .., by omega⟩, Nat.add_sub_cancel_left]

end

/-! ## One page -/

/-- The child and its parent on the tables, and a copy on the maps: it has the pages of both, and the
bytes of all frames in use. -/
structure TablesCopying (m₀ : MMS) (pool : Nat → Slab) (mm : Lmm) (pgd : Nat) (s : KMem)
    (out : Nat → Nat) (objs : List Obj) (c : Copying) : Prop
    extends HeapTree m₀ pool pgd s out objs where
  other : OtherTree s objs pgd mm.pgd
  frames : ∀ u < USER_LIMIT, ∀ m, mapping s.word mm.pgd u = some m → UserFrame m₀ out m.frame
  entries : ∀ i, c.entries.lookup i = mappedPages s.word pgd i
  parent : c.sys.parent.pages = mappedPages s.word mm.pgd
  phys : ∀ g, UserFrame m₀ out g → ∀ j < PAGE_4K_SIZE, c.sys.phys g j = frameByte s.word g j

section

variable {m₀ : MMS} {pool : Nat → Slab} {mm : Lmm} {pgd v f g : Nat} {s s' : KMem} {out : Nat → Nat}
  {objs objs' : List Obj} {c c' : Copying}

/-- The page has been refused, and its frame is free again. -/
theorem TablesCopying.refused (h : TablesCopying m₀ pool mm pgd s out objs c)
    (ht : HeapTree m₀ pool pgd s' out objs') (hs : TreeStep pgd s objs s' objs')
    (hmap : MapSame s.word s'.word pgd)
    (huser : ∀ b, UserFrame m₀ out (wordFrame b) → s'.word b = s.word b)
    (he : c'.entries = c.entries) (hp : c'.sys.parent = c.sys.parent)
    (hphys : c'.sys.phys = c.sys.phys) : TablesCopying m₀ pool mm pgd s' out objs' c' := by
  obtain ⟨hother, hsame⟩ := h.other.step hs
  refine ⟨ht, hother, fun u hu m hm => ?_, fun i => ?_, ?_, fun x hx j hj => ?_⟩
  · rw [hsame u hu] at hm
    exact h.frames u hu m hm
  · rw [he, h.entries, hmap.mappedPages]
  · rw [hp, h.parent, hsame.mappedPages]
  · rw [hphys, h.phys x hx j hj]
    exact (frameByte_congr (fun i hi => huser _ (by rw [wordFrame_add hi]; exact hx)) hj).symm

/-- With one more frame in use the others still are. -/
theorem userFrame_add {x : Nat} (hx : UserFrame m₀ out x) :
    UserFrame m₀ (fun x => out x + ind f 0 x) x := ⟨hx.zone, Nat.add_pos_left hx.out _⟩

/-- The page has been mapped to the frame `f`, with the bytes of the frame `g`. -/
theorem TablesCopying.copied (h : TablesCopying m₀ pool mm pgd s out objs c) (hv : v < USER_LIMIT)
    (ht : HeapTree m₀ pool pgd s' (fun x => out x + ind f 0 x) objs')
    (hs : TreeStep pgd s objs s' objs') {m : Mapping} (hmap : MapUpdate s.word s'.word pgd v (some m))
    (hm : m.frame = f)
    (huser : ∀ b, wordFrame b ≠ f → UserFrame m₀ out (wordFrame b) → s'.word b = s.word b)
    (hcopy : ∀ i < PAGE_4K_SIZE / 8, s'.word (phyToVirt (f * PAGE_4K_SIZE) / 8 + i)
      = s.word (phyToVirt (g * PAGE_4K_SIZE) / 8 + i))
    (hg : UserFrame m₀ out g) (he : c'.entries = (pageNo v, f) :: c.entries)
    (hp : c'.sys.parent = c.sys.parent)
    (hphys : c'.sys.phys = Function.update c.sys.phys f (c.sys.phys g)) :
    TablesCopying m₀ pool mm pgd s' (fun x => out x + ind f 0 x) objs' c' := by
  obtain ⟨hother, hsame⟩ := h.other.step hs
  refine ⟨ht, hother, fun u hu m hm => ?_, fun i => ?_, ?_, fun x hx j hj => ?_⟩
  · rw [hsame u hu] at hm
    exact userFrame_add (h.frames u hu m hm)
  · rw [he, List.lookup_cons, hmap.mappedPages hv, Option.map_some, hm]
    by_cases hi : i = pageNo v
    · rw [hi, Function.update_self, beq_self_eq_true]
    · rw [Function.update_of_ne hi, beq_false_of_ne hi]
      exact h.entries i
  · rw [hp, h.parent, hsame.mappedPages]
  · rw [hphys]
    by_cases hxf : x = f
    · rw [hxf, Function.update_self, h.phys g hg j hj]
      exact (frameByte_congr hcopy hj).symm
    · have hold : UserFrame m₀ out x := by
        have hpos := hx.out
        rw [ind_zero, if_neg hxf, Nat.add_zero] at hpos
        exact ⟨hx.zone, hpos⟩
      rw [Function.update_of_ne hxf, h.phys x hold j hj]
      refine (frameByte_congr (fun i hi => huser _ ?_ ?_) hj).symm
      · rw [wordFrame_add hi]
        exact hxf
      · rw [wordFrame_add hi]
        exact hold

section

variable {mms : MMS} {s₁ : KMem} {objs₁ : List Obj}

/-- The walk to a page that has got the frame `f` leaves all pages and all frames of users as they are. -/
theorem TablesCopying.walked (hd : DirectMap m₀ pool) (h : TablesCopying m₀ pool mm pgd s out objs c)
    (h₁ : HeapTree m₀ pool pgd { s with mms := mms } (fun x => out x + ind f 0 x) objs)
    (hmade : TablesMade m₀ pool (fun x => out x + ind f 0 x) pgd { s with mms := mms } objs s₁ objs₁) :
    TreeStep pgd s objs s₁ objs₁ ∧ MapSame s.word s₁.word pgd ∧
      ∀ b, UserFrame m₀ out (wordFrame b) → s₁.word b = s.word b :=
  ⟨TreeStep.trans h₁ TreeStep.of_word (hmade.treeStep hd h₁.heap),
    h.tree.mapSame hmade.tree hmade.leaf, fun _ hb => hmade.user hd h₁ (userFrame_add hb)⟩

/-- `MapPage4K` refuses the page, and the frame goes back. -/
theorem TablesCopying.copyUserPage_refused (hd : DirectMap m₀ pool)
    (h : TablesCopying m₀ pool mm pgd s out objs c) (hv : v < USER_LIMIT)
    (ha : allocPage4K s.mms ZONE_NORMAL_INDEX 1 PG_PTABLE_MAPPED = some (mms, some f))
    (hf : UserFrame m₀ (fun x => out x + ind f 0 x) f)
    (h₁ : HeapTree m₀ pool pgd { s with mms := mms } (fun x => out x + ind f 0 x) objs)
    (hmade : TablesMade m₀ pool (fun x => out x + ind f 0 x) pgd { s with mms := mms } objs s₁ objs₁)
    (hmap : Talios.mapPage4K { s with mms := mms } pgd v (some f) PEA_USER_PAGE
      = some (s₁, -(ENOMEM : Int)))
    (hwhy : mapping s.word pgd v ≠ none ∨ (s.cache 7).totalFree < missingTables s.word pgd v)
    {env : ForkEnv} (ho : env.outcome v = s.pageOutcome pgd v) :
    ∃ s' c', s.copyUserPage mm pgd v = some (s', false) ∧
      TablesCopying m₀ pool mm pgd s' out objs₁ c' ∧ c'.sys.parent = c.sys.parent ∧
      Talios.copyUserPage env c v = .failed c' := by
  obtain ⟨hstep, hsame, huser⟩ := h.walked hd h₁ hmade
  obtain ⟨m', hgive, hheap⟩ := hmade.heap.frameGiven hf
  rw [show (fun x => out x + ind f 0 x - ind f 0 x) = out from
    funext (fun x => Nat.add_sub_cancel ..)] at hheap
  have hcall : s.copyUserPage mm pgd v = some ({ s₁ with mms := m' }, false) := by
    rw [KMem.copyUserPage, ha]
    dsimp only
    rw [hmap]
    dsimp only
    rw [if_pos (show -(ENOMEM : Int) ≠ 0 by decide), KMem.freePage4K, hgive]
    rfl
  have hrefused : ∀ c' : Copying, c'.entries = c.entries → c'.sys.parent = c.sys.parent →
      c'.sys.phys = c.sys.phys →
      TablesCopying m₀ pool mm pgd { s₁ with mms := m' } out objs₁ c' := fun c' =>
    h.refused ⟨hheap, hmade.tree, hmade.owned⟩
      (TreeStep.trans hmade.toHeapTree hstep TreeStep.of_word) hsame huser
  rw [KMem.pageOutcome, ha] at ho
  dsimp only at ho
  by_cases hlack : (s.cache 7).totalFree < missingTables s.word pgd v
  · rw [if_pos hlack] at ho
    refine ⟨_, c.link (env.tables v), hcall, hrefused _ rfl rfl rfl, rfl, ?_⟩
    rw [Talios.copyUserPage, ho]
  · -- the page is mapped already
    rw [if_neg hlack] at ho
    refine ⟨_, c, hcall, hrefused c rfl rfl rfl, rfl, ?_⟩
    have hsome : (c.entries.lookup (pageNo v)).isSome = true := by
      rw [h.entries, mappedPages_pageNo h.tree hv, Option.isSome_map]
      exact Option.isSome_iff_ne_none.mpr (hwhy.resolve_right hlack)
    rw [Talios.copyUserPage, ho]
    dsimp only
    rw [if_pos hsome]

/-- The page is mapped, and read through the tables of the parent. -/
theorem TablesCopying.copyUserPage_mapped (hd : DirectMap m₀ pool)
    (h : TablesCopying m₀ pool mm pgd s out objs c) (hv : v < USER_LIMIT)
    (ha : allocPage4K s.mms ZONE_NORMAL_INDEX 1 PG_PTABLE_MAPPED = some (mms, some f))
    (hf : UserFrame m₀ (fun x => out x + ind f 0 x) f) (hphy : (mms.page f).phyAddr = f * PAGE_4K_SIZE)
    (h₁ : HeapTree m₀ pool pgd { s with mms := mms } (fun x => out x + ind f 0 x) objs)
    (hmade : TablesMade m₀ pool (fun x => out x + ind f 0 x) pgd { s with mms := mms } objs s₁ objs₁)
    {a : Nat} (hslot : userTables.slot s₁.word (userRoot pgd) (v / PAGE_4K_SIZE) = some a)
    (hmap : Talios.mapPage4K { s with mms := mms } pgd v (some f) PEA_USER_PAGE
      = some (s₁.write (8 * a) (BitVec.ofNat 64 (f * PAGE_4K_SIZE) ||| PEA_USER_PAGE), 0))
    (hnone : mapping s.word pgd v = none) {m : Mapping} (hm : mapping s.word mm.pgd v = some m)
    {env : ForkEnv} (ho : env.outcome v = .ready f) :
    ∃ s' c', s.copyUserPage mm pgd v = some (s', true) ∧
      TablesCopying m₀ pool mm pgd s' (fun x => out x + ind f 0 x) objs₁ c' ∧
      c'.sys.parent = c.sys.parent ∧ Talios.copyUserPage env c v = .done c' := by
  obtain ⟨hstep, hsame, huser⟩ := h.walked hd h₁ hmade
  have hg := h.frames v hv m hm
  obtain ⟨e, he⟩ : ∃ e, e = BitVec.ofNat 64 (f * PAGE_4K_SIZE) ||| PEA_USER_PAGE := ⟨_, rfl⟩
  have hleaf : leafMapping e = some (flagsMapping f PEA_USER_PAGE) := by
    rw [he, leafMapping_or (Nat.dvd_mul_left ..) (lt_trans (hf.lt hd).2 (by decide))
      (by unfold IsFlags; decide) (by decide), show page4KIndex (f * PAGE_4K_SIZE) = f from
      Nat.mul_div_cancel _ (by decide)]
  rw [← he] at hmap
  -- the entry is written
  obtain ⟨s₂, hs₂⟩ : ∃ s₂, s₂ = s₁.write (8 * a) e := ⟨_, rfl⟩
  have h₂ := (hmade.toHeapTree.setLeaf hd hslot e).1
  have hstep₂ := TreeStep.trans hmade.toHeapTree hstep (hmade.toHeapTree.treeStep_write hd hslot e)
  have hword₂ : s₂.word = Function.update s₁.word a e := by
    rw [hs₂, KMem.write, Nat.mul_div_cancel_left _ (by decide)]
  have hup := (hmade.tree.mapUpdate hslot e).2
  have hphy₂ : (s₂.mms.page f).phyAddr = f * PAGE_4K_SIZE := by
    rw [hs₂]
    show (s₁.mms.page f).phyAddr = _
    rw [hmade.mms]
    exact hphy
  rw [← hs₂] at hmap h₂ hstep₂
  rw [← hword₂, hleaf] at hup
  have huser₂ : ∀ b, UserFrame m₀ out (wordFrame b) → s₂.word b = s.word b := by
    intro b hb
    have hne : b ≠ a := by
      rintro rfl
      exact (hmade.walkEnds hd h₁ hslot).apart (userFrame_add hb)
    rw [hword₂, Function.update_of_ne hne, huser b hb]
  -- the page is copied
  obtain ⟨hothers, hwords⟩ := @copyFrame_word s₂ f hphy₂ m.frame
  obtain ⟨h₃, hsame₃, hstep₃⟩ := h₂.frameWritten hd hf hothers
  have hread : s₂.copyPage mm v f = some (s₂.copyFrame m.frame f) := by
    rw [KMem.copyPage, translate_eq_mapping, (h.other.step hstep₂).2 v hv, hm]
    rfl
  have hcall : s.copyUserPage mm pgd v = some (s₂.copyFrame m.frame f, true) := by
    rw [KMem.copyUserPage, ha]
    dsimp only
    rw [hmap]
    dsimp only
    rw [if_neg (not_not_intro rfl), hread]
    rfl
  have hno : ¬ (c.entries.lookup (pageNo v)).isSome = true := by
    rw [h.entries, mappedPages_pageNo h.tree hv, hnone]
    exact Bool.false_ne_true
  have hpages : c.sys.parent.pages (pageNo v) = some m.frame := by
    rw [h.parent, mappedPages_pageNo h.other.tree hv, hm]
    rfl
  have hfrom : copyFromParent env
      { (c.link (env.tables v)).sys with frames := insert f (c.link (env.tables v)).sys.frames } v f
      = some { (c.link (env.tables v)).sys with
          frames := insert f (c.link (env.tables v)).sys.frames
          phys := Function.update c.sys.phys f (c.sys.phys m.frame) } := by
    unfold copyFromParent
    rw [show (c.link (env.tables v)).sys.parent.pages (pageNo v) = some m.frame from hpages]
    rfl
  refine ⟨_, { c.link (env.tables v) with
      sys := { (c.link (env.tables v)).sys with
        frames := insert f (c.link (env.tables v)).sys.frames
        phys := Function.update c.sys.phys f (c.sys.phys m.frame) }
      entries := (pageNo v, f) :: c.entries }, hcall, ?_, rfl, ?_⟩
  · refine h.copied (m := flagsMapping f PEA_USER_PAGE) hv h₃ (TreeStep.trans h₂ hstep₂ hstep₃)
      (fun u hu => ?_) rfl (fun b hb hub => ?_) (fun i hi => ?_) hg rfl rfl rfl
    · rw [hsame₃ u hu]
      exact hsame.trans_update hup u hu
    · exact (hothers b hb).trans (huser₂ b hub)
    · exact (hwords i hi).trans (huser₂ _ (by rw [wordFrame_add hi]; exact hg))
  · rw [Talios.copyUserPage, ho]
    dsimp only
    rw [if_neg hno, hfrom]
    rfl

end

/-- **One pass** of the loop on the tables is one on the maps, for a page that the parent has. -/
theorem TablesCopying.copyUserPage (hd : DirectMap m₀ pool)
    (h : TablesCopying m₀ pool mm pgd s out objs c) (hv : v < USER_LIMIT) (hal : PAGE_4K_SIZE ∣ v)
    (hpage : (c.sys.parent.pages (pageNo v)).isSome = true) (hroom : s.PageRoom pgd v) {env : ForkEnv}
    (ho : env.outcome v = s.pageOutcome pgd v) :
    ∃ s' ok out' objs' c', s.copyUserPage mm pgd v = some (s', ok) ∧
      TablesCopying m₀ pool mm pgd s' out' objs' c' ∧ c'.sys.parent = c.sys.parent ∧
      Talios.copyUserPage env c v = if ok then .done c' else .failed c' := by
  rcases allocPage4K_spec h.heap.inv ZONE_NORMAL_INDEX PG_PTABLE_MAPPED with
    ha | ⟨mms, f, zi, hz, ha, hh⟩
  · -- there is no frame
    rw [KMem.pageOutcome, ha] at ho
    refine ⟨s, false, out, objs, c, ?_, h, rfl, ?_⟩
    · rw [KMem.copyUserPage, ha]
    · rw [Talios.copyUserPage, ho]
      rfl
  obtain ⟨hheap, hf, -⟩ := h.heap.frameTaken hz hh
  have hphy : (mms.page f).phyAddr = f * PAGE_4K_SIZE := (hheap.toHeapCore.held hf).2.2.1
  have h₁ : HeapTree m₀ pool pgd { s with mms := mms } (fun x => out x + ind f 0 x) objs :=
    ⟨hheap, h.tree, h.owned⟩
  obtain ⟨s₁, objs₁, hmade, ⟨hmap, hwhy⟩ | ⟨a, hmap, hslot, hnone, hleft⟩⟩ :=
    h₁.mapPage4K_made hd hv hal (hroom mms f ha) (hphy ▸ Nat.dvd_mul_left ..) PEA_USER_PAGE
  · obtain ⟨s', c', hcall, h', hp, hcopy⟩ :=
      h.copyUserPage_refused hd hv ha hf h₁ hmade hmap hwhy ho
    exact ⟨s', false, out, objs₁, c', hcall, h', hp, hcopy⟩
  · have hready : env.outcome v = .ready f := by
      rw [ho, KMem.pageOutcome, ha]
      refine if_neg (Nat.not_lt.mpr ?_)
      exact (Nat.le_add_left _ _).trans_eq hleft
    obtain ⟨m, hm⟩ : ∃ m, mapping s.word mm.pgd v = some m := by
      rw [h.parent, mappedPages_pageNo h.other.tree hv, Option.isSome_map] at hpage
      exact Option.isSome_iff_exists.mp hpage
    rw [show (({ s with mms := mms } : KMem).mms.page f).phyAddr = f * PAGE_4K_SIZE from hphy,
      flags_and_not (by decide)] at hmap
    obtain ⟨s', c', hcall, h', hp, hcopy⟩ :=
      h.copyUserPage_mapped hd hv ha hf hphy h₁ hmade hslot hmap hnone hm hready
    exact ⟨s', true, _, objs₁, c', hcall, h', hp, hcopy⟩

/-! ## All pages -/

theorem KMem.ComesTo.head (mm : Lmm) (pgd v : Nat) (l : List Nat) (s : KMem) :
    KMem.ComesTo mm pgd (v :: l) s v s := ⟨[], l, rfl, rfl⟩

theorem KMem.ComesTo.tail {l : List Nat} {s₁ : KMem} {w : Nat}
    (hs : s.copyUserPage mm pgd v = some (s₁, true)) (h : KMem.ComesTo mm pgd l s₁ w s') :
    KMem.ComesTo mm pgd (v :: l) s w s' := by
  obtain ⟨pre, post, rfl, hpre⟩ := h
  refine ⟨v :: pre, post, rfl, ?_⟩
  rw [KMem.copyUserLoop, hs]
  exact hpre

/-- **The loop of `copy_user_range`** on the tables is the loop on the maps, for pages that the parent
has. -/
theorem TablesCopying.copyUserLoop (hd : DirectMap m₀ pool) {env : ForkEnv} : ∀ (l : List Nat)
    {s : KMem} {out : Nat → Nat} {objs : List Obj} {c : Copying},
    TablesCopying m₀ pool mm pgd s out objs c →
    (∀ v ∈ l, v < USER_LIMIT ∧ PAGE_4K_SIZE ∣ v ∧ (c.sys.parent.pages (pageNo v)).isSome = true) →
    KMem.CopyRoom mm pgd l s → env.Agrees mm pgd l s →
    ∃ s' ok out' objs' c', KMem.copyUserLoop mm pgd l s = some (s', ok) ∧
      TablesCopying m₀ pool mm pgd s' out' objs' c' ∧ c'.sys.parent = c.sys.parent ∧
      Talios.copyUserLoop env l c = if ok then .done c' else .failed c'
  | [], s, out, objs, c, h, _, _, _ => ⟨s, true, out, objs, c, rfl, h, rfl, rfl⟩
  | v :: l, s, out, objs, c, h, hl, hroom, hagree => by
      obtain ⟨hv, hal, hpage⟩ := hl v List.mem_cons_self
      have hhead := KMem.ComesTo.head mm pgd v l s
      obtain ⟨s₁, ok, out₁, objs₁, c₁, hcall, h₁, hp₁, hcopy⟩ :=
        h.copyUserPage hd hv hal hpage (hroom v s hhead) (hagree v s hhead)
      rw [KMem.copyUserLoop, hcall, Talios.copyUserLoop, hcopy]
      cases ok with
      | false => exact ⟨s₁, false, out₁, objs₁, c₁, rfl, h₁, hp₁, rfl⟩
      | true =>
          obtain ⟨s₂, ok, out₂, objs₂, c₂, hcall₂, h₂, hp₂, hcopy₂⟩ :=
            TablesCopying.copyUserLoop hd l h₁
              (fun w hw => by rw [hp₁]; exact hl w (List.mem_cons_of_mem v hw))
              (fun w s' hw => hroom w s' (hw.tail hcall)) (fun w s' hw => hagree w s' (hw.tail hcall))
          exact ⟨s₂, ok, out₂, objs₂, c₂, hcall₂, h₂, hp₂.trans hp₁, hcopy₂⟩

theorem KMem.copyUserLoop_append (l l' : List Nat) (s : KMem) :
    KMem.copyUserLoop mm pgd (l ++ l') s
      = match KMem.copyUserLoop mm pgd l s with
        | some (s₁, true) => KMem.copyUserLoop mm pgd l' s₁
        | r => r := by
  induction l generalizing s with
  | nil => rfl
  | cons v l ih =>
      rw [List.cons_append, KMem.copyUserLoop, KMem.copyUserLoop]
      rcases s.copyUserPage mm pgd v with _ | ⟨s₁, _ | _⟩
      · rfl
      · rfl
      · exact ih s₁

/-- Both ranges are one list of pages. -/
theorem KMem.copyRanges_eq (s : KMem) (p : Process) :
    s.copyRanges mm pgd p.space.brk.startBrk p.space.brk.endBrk
      = KMem.copyUserLoop mm pgd (copyAddrs p) s := by
  unfold KMem.copyRanges copyAddrs KMem.copyUserRange
  rw [KMem.copyUserLoop_append]
  rcases KMem.copyUserLoop mm pgd (rangeAddrs CODE_START_ADDR STACK_START_ADDR) s with
    _ | ⟨s₁, _ | _⟩
  · rfl
  · rfl
  · dsimp only
    split <;> rfl

/-- The pages of a range that ends with a page of user space. -/
theorem mem_rangeAddrs {start stop : Nat} (hal : PAGE_4K_SIZE ∣ stop) (hle : stop ≤ USER_LIMIT)
    (hv : v ∈ rangeAddrs start stop) : v < USER_LIMIT ∧ PAGE_4K_SIZE ∣ v ∧
      ∃ a, start ≤ a ∧ a < stop ∧ a / PAGE_4K_SIZE = pageNo v := by
  obtain ⟨i, hi, rfl⟩ := List.mem_map.mp hv
  rw [List.mem_range, alignUp64_user hal hle] at hi
  have hlow : alignDown PAGE_4K_SIZE start ≤ start := Nat.div_mul_le_self ..
  have hup : start < alignDown PAGE_4K_SIZE start + PAGE_4K_SIZE := Nat.lt_div_mul_add (by decide)
  have hdvd := dvd_alignDown PAGE_4K_SIZE start
  have hmul := (Nat.le_div_iff_mul_le (by decide)).mp (Nat.succ_le_of_lt hi)
  rw [Nat.succ_mul] at hmul
  have hpos : 0 < PAGE_4K_SIZE := by decide
  have hlt : alignDown PAGE_4K_SIZE start + i * PAGE_4K_SIZE < USER_LIMIT := by omega
  refine ⟨hlt, Dvd.dvd.add hdvd (Nat.dvd_mul_left ..),
    max start (alignDown PAGE_4K_SIZE start + i * PAGE_4K_SIZE), le_max_left .., by omega, ?_⟩
  rw [pageNo_user hlt]
  obtain ⟨q, hq⟩ := hdvd
  rw [hq] at hlow hup ⊢
  unfold PAGE_4K_SIZE PAGE_4K_SHIFT at *
  omega

/-- **The pages of the child**: what `copy_mm` does behind the page directory is what it does on the
maps. -/
theorem TablesCopying.copyPages (hd : DirectMap m₀ pool) (h : TablesCopying m₀ pool mm pgd s out objs c)
    {env : ForkEnv} (hg : env.grown = none)
    (hwindow : ∀ i, 2048 ≤ i → i < 2560 → (c.sys.parent.pages i).isSome = true)
    (hbrk : c.sys.parent.space.brk.Ok)
    (hroom : KMem.CopyRoom mm pgd (copyAddrs c.sys.parent) s)
    (hagree : env.Agrees mm pgd (copyAddrs c.sys.parent) s) :
    ∃ s' ok out' objs' c',
      s.copyRanges mm pgd c.sys.parent.space.brk.startBrk c.sys.parent.space.brk.endBrk = some (s', ok) ∧
      TablesCopying m₀ pool mm pgd s' out' objs' c' ∧ c'.sys.parent = c.sys.parent ∧
      Talios.copyPages env c = if ok then .done c' else .failed c' := by
  rw [KMem.copyRanges_eq, copyPages_eq hg]
  refine h.copyUserLoop hd _ (fun v hv => ?_) hroom hagree
  rcases List.mem_append.mp hv with hv | hv
  · have hstop : PAGE_4K_SIZE ∣ STACK_START_ADDR := by
      unfold PAGE_4K_SIZE PAGE_4K_SHIFT STACK_START_ADDR
      omega
    have hle : STACK_START_ADDR ≤ USER_LIMIT := by
      unfold STACK_START_ADDR USER_LIMIT
      omega
    obtain ⟨hlt, hal, a, h1, h2, ha⟩ := mem_rangeAddrs hstop hle hv
    have h1 : 0x800000 ≤ a := h1
    have h2 : a < 0xa00000 := h2
    have hP : PAGE_4K_SIZE = 4096 := rfl
    refine ⟨hlt, hal, ?_⟩
    rw [← ha, hP]
    exact hwindow _ (by omega) (by omega)
  · split at hv
    · obtain ⟨hlt, hal, a, h1, h2, ha⟩ := mem_rangeAddrs hbrk.aligned hbrk.upper hv
      refine ⟨hlt, hal, ?_⟩
      rw [← ha]
      exact (hbrk.mapped a h1 (h2.trans_le hbrk.upper)).mpr h2
    · exact absurd hv List.not_mem_nil

/-- A child without pages, whose tables are apart from those of the parent. -/
theorem HeapTree.tablesCopying (h : HeapTree m₀ pool pgd s out objs)
    (hnone : ∀ u < USER_LIMIT, mapping s.word pgd u = none) (hother : OtherTree s objs pgd mm.pgd)
    (hframes : ∀ u < USER_LIMIT, ∀ m, mapping s.word mm.pgd u = some m → UserFrame m₀ out m.frame)
    {sys : ForkSys} (hparent : sys.parent.pages = mappedPages s.word mm.pgd)
    (hphys : ∀ g, UserFrame m₀ out g → ∀ j < PAGE_4K_SIZE, sys.phys g j = frameByte s.word g j) :
    TablesCopying m₀ pool mm pgd s out objs ⟨sys, [], []⟩ := by
  refine ⟨h, hother, hframes, fun i => ?_, hparent, hphys⟩
  unfold mappedPages
  split
  · rename_i hi
    rw [hnone _ hi]
    rfl
  · rfl

end

end Talios
