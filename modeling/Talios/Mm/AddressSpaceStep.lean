import Talios.Mm.AddressSpace
import Talios.Mm.PageTableCalls

set_option autoImplicit false

/-! # What the calls on an address space do

`SpaceInv` ties the three parts together: every leaf of the tables maps a frame of its own, lies
in an area of the list and has the rights of that area. One lemma for each call says that it is
kept; for `do_munmap` also what becomes of the frames.
-/

namespace Talios

open Word Bitmap Dyadic Radix

/-! ## Frames on the free lists -/

/-- The number of free blocks, of all zones, the frame `x` belongs to. -/
def MMS.freeBlocks (m : MMS) (x : Nat) : Nat :=
  ∑ zi ∈ Finset.range m.zonesCount, cover MAX_ORDER (m.zone zi).freeArea.family x

section

variable {m₀ : MMS} {pool : Nat → Slab} {s : KMem} {out : Nat → Nat} {objs : List Obj} {pgd : Nat}

/-- The free blocks of a frame are known from who has it. -/
theorem HeapCore.freeBlocks_eq (h : HeapCore m₀ pool s out) (x : Nat) :
    (∃ zi < m₀.zonesCount, (m₀.zone zi).Has x) ∧
        s.mms.freeBlocks x + out x + grownCover s.shapes x + (m₀.page x).resv = 1 ∨
      (¬ ∃ zi < m₀.zonesCount, (m₀.zone zi).Has x) ∧ s.mms.freeBlocks x = 0 := by
  -- a block on the list of a zone lies in it
  have hother : ∀ zj ∈ Finset.range s.mms.zonesCount, ¬ (s.mms.zone zj).Has x →
      cover MAX_ORDER (s.mms.zone zj).freeArea.family x = 0 := by
    intro zj hj hno
    by_contra hpos
    obtain ⟨k, hk, p, hp, hmem⟩ := cover_pos_iff.mp (Nat.pos_of_ne_zero hpos)
    have hins := (h.inv zj (Finset.mem_range.mp hj)).areas.wf.inside k hk p hp
    apply hno
    unfold Mem at hmem
    unfold Zone.Has
    omega
  by_cases hx : ∃ zi < m₀.zonesCount, (m₀.zone zi).Has x
  · left
    refine ⟨hx, ?_⟩
    obtain ⟨zi, hz, hin⟩ := hx
    have hz' : zi < s.mms.zonesCount := by
      rw [h.layout.zonesCount]
      exact hz
    have hin' := (h.layout.has zi x).mpr hin
    have hsplit := (h.inv zi hz').split x hin'
    have hsum : s.mms.freeBlocks x = cover MAX_ORDER (s.mms.zone zi).freeArea.family x := by
      refine Finset.sum_eq_single_of_mem zi (Finset.mem_range.mpr hz') (fun zj hj hne => ?_)
      refine hother zj hj (fun hhas => hne ?_)
      have h1 := (h.inv zj (Finset.mem_range.mp hj)).layout.zoneStruct x hhas
      rw [(h.inv zi hz').layout.zoneStruct x hin'] at h1
      exact (Option.some.inj h1).symm
    have hres : (s.mms.page x).resv = (m₀.page x).resv := by
      unfold Page.resv
      rw [(h.layout.pages x).2.2]
    rw [hsum, ← hres]
    omega
  · right
    refine ⟨hx, Finset.sum_eq_zero (fun zj hj => hother zj hj (fun hhas => hx ⟨zj, ?_, ?_⟩))⟩
    · rw [← h.layout.zonesCount]
      exact Finset.mem_range.mp hj
    · exact (h.layout.has zj x).mp hhas

/-- With the same holders the same frames are free. -/
theorem HeapCore.freeBlocks_congr (h : HeapCore m₀ pool s out) {s' : KMem}
    (h' : HeapCore m₀ pool s' out) (hs : s'.shapes = s.shapes) (x : Nat) :
    s'.mms.freeBlocks x = s.mms.freeBlocks x := by
  have h1 := h.freeBlocks_eq x
  have h2 := h'.freeBlocks_eq x
  rw [hs] at h2
  rcases h1 with ⟨hx, h1⟩ | ⟨hx, h1⟩
  · have := h2.resolve_right (fun hc => hc.1 hx)
    omega
  · have := h2.resolve_left (fun hc => hx hc.1)
    omega

/-- A frame of a zone that the heap does not use is free or held, and not both. -/
theorem HeapCore.freeBlocks_add (h : HeapCore m₀ pool s out) {zi x : Nat} (hz : zi < m₀.zonesCount)
    (hin : (m₀.zone zi).Has x) (hx : ¬ HeapFrame m₀ s x) : s.mms.freeBlocks x + out x = 1 := by
  obtain ⟨-, hsum⟩ := (h.freeBlocks_eq x).resolve_right (fun hc => hc.1 ⟨zi, hz, hin⟩)
  have hres : (m₀.page x).resv = 0 := by
    rw [Page.resv, if_neg]
    exact fun hr => hx (Or.inl (Or.inr hr))
  have hgrown : grownCover s.shapes x = 0 := by
    by_contra hne
    exact hx (Or.inr (Nat.pos_of_ne_zero hne))
  omega

theorem grownCover_sublist {ring ring' : Nat → List Slab} (h : ∀ j, (ring' j).Sublist (ring j))
    (x : Nat) : grownCover ring' x ≤ grownCover ring x :=
  Finset.sum_le_sum (fun i _ => (h i).tail.countP_le)

/-! ## The invariant -/

/-- Page `n` of user space belongs to the area. -/
def VmArea.HasPage (v : VmArea) (n : Nat) : Prop :=
  v.start ≤ n * PAGE_4K_SIZE ∧ n * PAGE_4K_SIZE < v.stop

/-- The kernel with the tables at `pgd` and the areas of one address space. -/
structure SpaceInv (m₀ : MMS) (pool : Nat → Slab) (s : KMem) (pgd : Nat) (areas : List VmArea)
    (out : Nat → Nat) (objs : List Obj) : Prop where
  heap : HeapInv m₀ pool s out objs
  tables : TablesInv m₀ s.word pgd out objs
  cover : ∀ n f b, userLeaf s.word pgd n = userPage f b →
    ∃ v ∈ areas, v.HasPage n ∧ b = hasFlag v.prot PROT_WRITE
  blocks : ∀ v ∈ areas, (⟨v.self, VMA_STRUCT_SIZE⟩ : Obj) ∈ objs
  nodup : (areas.map VmArea.self).Nodup
  anon : ∀ v ∈ areas, hasFlag v.mmapFlags MAP_ANONYMOUS = true ∧ v.file = none

variable {areas : List VmArea}

/-- The words of the tables are no words of a bitmap. -/
theorem SpaceInv.table_word (hd : DirectMap m₀ pool) (h : SpaceInv m₀ pool s pgd areas out objs)
    {l k t i : Nat} (hl : l ≤ 3) (ht : userTables.node s.word (userRoot pgd) l k = some t)
    (hi : i < userTables.width l) : ¬ s.MapWord (t + i) :=
  h.heap.not_mapWord hd.toPoolLayout (h.tables.tree.own l hl k t ht)
    (PageObj.has (hi.trans_le (Tree.width_le l)))

/-- The kernel has changed outside the tables, and no page of the heap has been given back. -/
theorem SpaceInv.frame (h : SpaceInv m₀ pool s pgd areas out objs) {s' : KMem} {objs' : List Obj}
    (hheap : HeapInv m₀ pool s' out objs')
    (hw : ∀ l ≤ 3, ∀ k t, userTables.node s.word (userRoot pgd) l k = some t →
      ∀ i < userTables.width l, s'.word (t + i) = s.word (t + i))
    (hpages : ∀ t, PageObj objs t → PageObj objs' t)
    (hblocks : ∀ v ∈ areas, (⟨v.self, VMA_STRUCT_SIZE⟩ : Obj) ∈ objs') :
    SpaceInv m₀ pool s' pgd areas out objs' ∧
      ∀ n, userLeaf s'.word pgd n = userLeaf s.word pgd n := by
  obtain ⟨ht, -, hleaf⟩ := h.tables.congr hw hpages (fun _ _ _ _ hf => hf)
  exact ⟨⟨hheap, ht, fun n f b he => h.cover n f b (by rw [← hleaf]; exact he), hblocks, h.nodup,
    h.anon⟩, hleaf⟩

/-- **`kmalloc` of an area** with room. -/
theorem SpaceInv.kmalloc (hd : DirectMap m₀ pool) (h : SpaceInv m₀ pool s pgd areas out objs)
    (hroom : HeapRoom s VMA_STRUCT_SIZE) :
    kernelEnv.kmalloc (some s) = (some s, none) ∨
    ∃ s' p, kernelEnv.kmalloc (some s) = (some s', some p) ∧
      SpaceInv m₀ pool s' pgd areas out (⟨p, VMA_STRUCT_SIZE⟩ :: objs) ∧
      ∀ n, userLeaf s'.word pgd n = userLeaf s.word pgd n := by
  rcases kmalloc_spec hd.toPoolLayout h.heap hroom with he | ⟨s', p, he, hinv, hfr⟩
  · exact Or.inl (by simp only [kernelEnv, Option.bind_some, he])
  · refine Or.inr ⟨s', p, by simp only [kernelEnv, Option.bind_some, he], ?_⟩
    refine h.frame hinv (fun l hl k t ht i hi => ?_) (fun t ht => List.mem_cons_of_mem _ ht)
      (fun v hv => List.mem_cons_of_mem _ (h.blocks v hv))
    refine hfr _ (h.table_word hd hl ht hi) ?_
    exact hinv.not_mapWord hd.toPoolLayout
      (List.mem_cons_of_mem _ (h.tables.tree.own l hl k t ht))
      (PageObj.has (hi.trans_le (Tree.width_le l)))

/-- **`kfree` of a block** that is no area of the list. -/
theorem SpaceInv.kfree (hd : DirectMap m₀ pool) (h : SpaceInv m₀ pool s pgd areas out objs)
    {p : Nat} (hp : (⟨p, VMA_STRUCT_SIZE⟩ : Obj) ∈ objs) (hno : p ∉ areas.map VmArea.self) :
    ∃ s', kernelEnv.kfree (some s) p = some s' ∧
      SpaceInv m₀ pool s' pgd areas out (objs.erase ⟨p, VMA_STRUCT_SIZE⟩) ∧
      (∀ n, userLeaf s'.word pgd n = userLeaf s.word pgd n) ∧
      ∀ x, HeapFrame m₀ s' x → HeapFrame m₀ s x := by
  obtain ⟨s', he, hinv, hfr, hsub⟩ := kfree_spec hd.toPoolLayout h.heap hp
  have he' : Talios.kfree s p = some (s', true) := he
  obtain ⟨hinv', hleaf⟩ := h.frame hinv
    (fun l hl k t ht i hi => hfr _ (h.table_word hd hl ht hi))
    (fun t ht => (List.mem_erase_of_ne (by
      intro hc
      have hsize : PAGE_4K_SIZE = VMA_STRUCT_SIZE := congrArg Obj.size hc
      exact absurd hsize (by decide))).mpr ht)
    (fun v hv => (List.mem_erase_of_ne (by
      intro hc
      have hptr : v.self = p := congrArg Obj.ptr hc
      exact hno (hptr ▸ List.mem_map_of_mem hv))).mpr (h.blocks v hv))
  refine ⟨s', by simp only [kernelEnv, Option.bind_some, he', Option.map_some], hinv', hleaf,
    fun x hx => hx.imp_right (fun hpos => ?_)⟩
  exact lt_of_lt_of_le hpos (grownCover_sublist hsub x)

/-! ## Page faults -/

/-- Writing to the frame of a user changes no heap data and no table. -/
theorem HeapInv.frameWritten (hd : DirectMap m₀ pool) (h : HeapInv m₀ pool s out objs) {f : Nat}
    (hf : UserFrame m₀ out f) {w : Memory}
    (hw : ∀ a, page4KIndex (virtToPhy (8 * a)) ≠ f → w a = s.word a) :
    HeapInv m₀ pool { s with word := w } out objs ∧
      ∀ b ∈ objs, ∀ a, b.Has (8 * a) → w a = s.word a := by
  obtain ⟨-, hheap, -, -⟩ := h.toHeapCore.held hf
  refine ⟨h.setWord (fun a ha => hw a (fun hc => ?_)), fun b hb a hba => hw a (fun hc => ?_)⟩
  · obtain ⟨i, hi, t, ht, hm⟩ := ha
    refine hheap ?_
    rw [← hc]
    exact h.toHeapCore.frame_of_meta hd.toPoolLayout hi ht
      (h.rings.meta_of_mapWord hd.toPoolLayout hi ht hm (by omega))
  · refine hheap ?_
    rw [← hc]
    exact h.frame_of_object hd.toPoolLayout hb hba

/-- So does clearing it. -/
theorem HeapInv.clear_frame (hd : DirectMap m₀ pool) (h : HeapInv m₀ pool s out objs) {f : Nat}
    (hf : UserFrame m₀ out f) :
    HeapInv m₀ pool (s.clear (phyToVirt (f * PAGE_4K_SIZE)) PAGE_4K_SIZE) out objs ∧
      ∀ b ∈ objs, ∀ a, b.Has (8 * a) →
        (s.clear (phyToVirt (f * PAGE_4K_SIZE)) PAGE_4K_SIZE).word a = s.word a := by
  refine h.frameWritten hd hf (fun a ha => if_neg (fun hc => ha ?_))
  -- a cleared word lies in the frame
  unfold phyToVirt PAGE_OFFSET PAGE_4K_SIZE PAGE_4K_SHIFT at hc
  unfold page4KIndex virtToPhy PAGE_OFFSET PAGE_4K_SIZE PAGE_4K_SHIFT
  omega

/-- The area `handle_page_fault` finds. -/
theorem pageFaultCheck_ok {mm : Lmm} {address errorCode : Nat} {v : VmArea}
    (h : pageFaultCheck mm address errorCode = .ok v) :
    v ∈ mm.vmaList ∧ v.start ≤ alignDown PAGE_4K_SIZE address ∧
      alignDown PAGE_4K_SIZE address < v.stop := by
  unfold pageFaultCheck at h
  split at h
  · exact absurd h (by simp)
  dsimp only at h
  split at h
  · exact absurd h (by simp)
  rename_i w hfind
  split at h
  · exact absurd h (by simp)
  rename_i hin
  split at h
  · exact absurd h (by simp)
  split at h
  · exact absurd h (by simp)
  obtain rfl := Except.ok.inj h
  unfold findVma at hfind
  split at hfind
  · exact ⟨List.mem_of_find?_eq_some hfind, by omega, by omega⟩
  · exact absurd hfind (by simp)

/-- In the state before a page fault: once the frame is taken, the tables the walk makes do not
grow the class of pages. -/
def FaultRoom (s : KMem) (mm : Lmm) (address errorCode : Nat) : Prop :=
  ∀ v, pageFaultCheck mm address errorCode = .ok v → ∀ mms page,
    allocPage4K s.mms ZONE_NORMAL_INDEX 1 PG_PTABLE_MAPPED = some (mms, some page) →
    PagesRoom { s with mms := mms }
      (missingTables s.word mm.pgd (alignDown PAGE_4K_SIZE address))

/-- The frame a leaf maps is held. -/
theorem TablesInv.userFrame (hd : DirectMap m₀ pool) {w : Memory}
    (ht : TablesInv m₀ w pgd out objs) {n f : Nat} {b : Bool} (hf : f * PAGE_4K_SIZE < 2 ^ 64)
    (he : userLeaf w pgd n = userPage f b) : UserFrame m₀ out f := by
  obtain ⟨g, c, hg, hge⟩ := ht.leaves n (by rw [he]; exact userPage_ne_zero f b)
  have hfg : f * PAGE_4K_SIZE = g * PAGE_4K_SIZE := by
    rw [← entryAddr_userPage hf b, ← hg.entryAddr hd c, ← he, hge]
  rwa [Nat.eq_of_mul_eq_mul_right (show 0 < PAGE_4K_SIZE by decide) hfg]

/-- A walk keeps the invariant. -/
theorem SpaceInv.walked (h : SpaceInv m₀ pool s pgd areas out objs) {s' : KMem}
    {objs' : List Obj} (hw : Walked m₀ pool out pgd s objs s' objs') :
    SpaceInv m₀ pool s' pgd areas out objs' :=
  ⟨hw.heap, hw.tables, fun n f b he => h.cover n f b (by rw [← hw.leaf]; exact he),
    fun v hv => hw.mem _ (h.blocks v hv), h.nodup, h.anon⟩

/-- A frame has been taken and cleared. -/
theorem SpaceInv.frameTaken (hd : DirectMap m₀ pool) (h : SpaceInv m₀ pool s pgd areas out objs)
    {m' : MMS} {zi f : Nat} (hz : zi < s.mms.zonesCount)
    (hh : Handed s.mms m' (fun x => out x + grownCover s.shapes x) zi f 0) :
    SpaceInv m₀ pool ({ s with mms := m' }.clear (phyToVirt (m'.page f).phyAddr) PAGE_4K_SIZE) pgd
        areas (fun x => out x + ind f 0 x) objs ∧
      UserFrame m₀ (fun x => out x + ind f 0 x) f ∧
      (∀ n b, userLeaf s.word pgd n ≠ userPage f b) ∧
      ∀ b ∈ objs, ∀ a, b.Has (8 * a) →
        ({ s with mms := m' }.clear (phyToVirt (m'.page f).phyAddr) PAGE_4K_SIZE).word a
          = s.word a := by
  obtain ⟨hheap, hf, hf0⟩ := h.heap.frameTaken hz hh
  obtain ⟨-, -, hphy, -⟩ := hheap.toHeapCore.held hf
  rw [show (m'.page f).phyAddr = _ from hphy]
  obtain ⟨hheap', hword⟩ := hheap.clear_frame hd hf
  have hnot : ∀ n b, userLeaf s.word pgd n ≠ userPage f b := by
    intro n b he
    have := (h.tables.userFrame hd (lt_trans (hf.lt hd).2 (by decide)) he).out
    omega
  obtain ⟨htab, -, hleaf⟩ := h.tables.congr
    (fun l hl k t ht i hi => hword _ (h.tables.tree.own l hl k t ht) _
      (PageObj.has (hi.trans_le (Tree.width_le l))))
    (fun _ ht => ht) (fun _ _ _ _ hg => ⟨hg.zone, Nat.add_pos_left hg.out _⟩)
  exact ⟨⟨hheap', htab, fun n g b he => h.cover n g b (by rw [← hleaf]; exact he), h.blocks, h.nodup,
    h.anon⟩, hf, hnot, hword⟩

/-- A frame that is not mapped is given back. -/
theorem SpaceInv.frameGiven (h : SpaceInv m₀ pool s pgd areas out objs)
    {f : Nat} (hf : UserFrame m₀ out f) (hnot : ∀ n b, userLeaf s.word pgd n ≠ userPage f b) :
    ∃ s', s.freePage4K f = some s' ∧
      SpaceInv m₀ pool s' pgd areas (fun x => out x - ind f 0 x) objs := by
  obtain ⟨m', he, hheap⟩ := h.heap.frameGiven hf
  refine ⟨{ s with mms := m' }, by rw [KMem.freePage4K, he]; rfl, hheap, ?_, h.cover, h.blocks,
    h.nodup, h.anon⟩
  refine (h.tables.congr (fun _ _ _ _ _ _ _ => rfl) (fun _ ht => ht) (fun n g b hg hgf => ?_)).1
  refine ⟨hgf.zone, ?_⟩
  show 0 < out g - ind f 0 g
  rw [ind_zero, if_neg]
  · exact hgf.out
  · rintro rfl
    exact hnot n b hg

/-- **`handle_page_fault`** keeps the invariant, whatever it returns. -/
theorem SpaceInv.fault (hd : DirectMap m₀ pool) {mm : Lmm}
    (h : SpaceInv m₀ pool s mm.pgd mm.vmaList out objs) (hareas : AreasOk mm.self mm.vmaList)
    {address errorCode : Nat} (hroom : FaultRoom s mm address errorCode) :
    ∃ s' r out' objs', handlePageFault s mm address errorCode = some (s', r) ∧
      SpaceInv m₀ pool s' mm.pgd mm.vmaList out' objs' := by
  unfold handlePageFault
  cases hc : pageFaultCheck mm address errorCode with
  | error e => exact ⟨s, e, out, objs, rfl, h⟩
  | ok v =>
      obtain ⟨hv, hlo, hhi⟩ := pageFaultCheck_ok hc
      have huser : alignDown PAGE_4K_SIZE address < USER_LIMIT :=
        hhi.trans_le (hareas.areas v hv).upper
      have hal : alignDown PAGE_4K_SIZE address % PAGE_4K_SIZE = 0 := Nat.mul_mod_left _ _
      have hdiv : alignDown PAGE_4K_SIZE address / PAGE_4K_SIZE * PAGE_4K_SIZE
          = alignDown PAGE_4K_SIZE address := Nat.div_mul_cancel (dvd_alignDown _ _)
      dsimp only
      rcases allocPage4K_spec h.heap.inv ZONE_NORMAL_INDEX PG_PTABLE_MAPPED with
        he | ⟨m', f, zi, hz, he, hh⟩
      · rw [he]
        exact ⟨s, _, out, objs, rfl, h⟩
      · have hroom' := hroom v hc m' f he
        rw [he]
        dsimp only
        obtain ⟨h₁, hf, hnot, hword⟩ := h.frameTaken hd hz hh
        set s₁ := { s with mms := m' }.clear (phyToVirt (m'.page f).phyAddr) PAGE_4K_SIZE
        have hnodes : ∀ l ≤ 3, ∀ k t, userTables.node s.word (userRoot mm.pgd) l k = some t →
            ∀ i < userTables.width l, s₁.word (t + i) = s.word (t + i) :=
          fun l hl k t ht i hi => hword _ (h.tables.tree.own l hl k t ht) _
            (PageObj.has (hi.trans_le (Tree.width_le l)))
        have hleaf₁ : ∀ n, userLeaf s₁.word mm.pgd n = userLeaf s.word mm.pgd n :=
          (h.tables.congr hnodes (fun _ ht => ht) (fun _ _ _ _ hg => hg)).2.2
        have hmiss := (h.tables.heapTree hd h.heap).tree.missingTables_congr hnodes huser
        obtain ⟨s₂, objs₂, hw, hres⟩ := mapPage4K_spec hd h₁.heap h₁.tables
          (hasFlag v.prot PROT_WRITE) huser hal hf (by rw [hmiss]; exact hroom'.congr rfl rfl)
        have h₂ := h₁.walked hw
        have hnot₂ : ∀ n b, userLeaf s₂.word mm.pgd n ≠ userPage f b := by
          intro n b
          rw [hw.leaf, hleaf₁]
          exact hnot n b
        rcases hres with ⟨r, hr, hm⟩ | ⟨a, hm, ha, -⟩
        · -- the frame goes back
          obtain ⟨s₃, hfree, h₃⟩ := h₂.frameGiven hf hnot₂
          rw [show mapPage4K s₁ mm.pgd _ (some f) (pteFlags v) = _ from hm]
          dsimp only
          rw [if_pos hr, hfree]
          exact ⟨s₃, _, _, objs₂, rfl, h₃⟩
        · rw [show mapPage4K s₁ mm.pgd _ (some f) (pteFlags v) = _ from hm]
          dsimp only
          rw [if_neg (by simp)]
          obtain ⟨hheap, htab, -, hleaf⟩ := h₂.tables.setLeaf hd h₂.heap ha
            (Or.inr ⟨f, _, hf, rfl, hnot₂⟩)
          refine ⟨_, _, _, objs₂, rfl, hheap, htab, fun n g b hg => ?_, h₂.blocks, h₂.nodup, h₂.anon⟩
          rw [hleaf] at hg
          split at hg
          · rename_i hn
            refine ⟨v, hv, ?_, ?_⟩
            · unfold VmArea.HasPage
              rw [hn, hdiv]
              exact ⟨hlo, hhi⟩
            · rw [← (entryHas_userPage g b).2.2, ← hg, (entryHas_userPage f _).2.2]
          · exact h₂.cover n g b hg

end

end Talios
