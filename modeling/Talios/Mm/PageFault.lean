import Talios.Mm.AddressSpaceStep
import Talios.Mm.PageMap
import Talios.Mm.VmaSearch

set_option autoImplicit false

/-! # Page faults

`handle_page_fault` for any manager whose list of areas is in order and any well-formed tree of
tables. A fault is answered with a page of zeros when the areas ask for it and the memory can be
had; otherwise nothing is mapped and the frame goes back. Both hold exactly where the tables of
`MapPage4K` can be had without harm.
-/

namespace Talios

open Word Bitmap Dyadic Radix Interval

/-! ## The checks -/

/-- The page of the fault is to be had on demand, from the area `v`. -/
structure DemandFault (mm : Lmm) (address errorCode : Nat) (v : VmArea) : Prop where
  pgd : mm.pgd ≠ 0
  notPresent : faultBit errorCode 0 = false
  notReserved : faultBit errorCode 3 = false
  mem : v ∈ mm.vmaList
  inside : Has VmArea.start VmArea.stop v (alignDown PAGE_4K_SIZE address)
  write : faultBit errorCode 1 = true → hasFlag v.prot PROT_WRITE = true
  fetch : faultBit errorCode 1 = false → faultBit errorCode 4 = true →
    hasFlag v.prot PROT_EXEC = true
  read : faultBit errorCode 1 = false → faultBit errorCode 4 = false →
    hasFlag v.prot PROT_READ = true
  anonymous : hasFlag v.mmapFlags MAP_ANONYMOUS = true
  noFile : v.file = none

theorem pageFaultAccessAllowed_iff (v : VmArea) (errorCode : Nat) :
    pageFaultAccessAllowed v errorCode = true ↔
      (faultBit errorCode 1 = true → hasFlag v.prot PROT_WRITE = true) ∧
      (faultBit errorCode 1 = false → faultBit errorCode 4 = true →
        hasFlag v.prot PROT_EXEC = true) ∧
      (faultBit errorCode 1 = false → faultBit errorCode 4 = false →
        hasFlag v.prot PROT_READ = true) := by
  unfold pageFaultAccessAllowed
  cases faultBit errorCode 1 <;> cases faultBit errorCode 4 <;> simp

/-- In a sorted list `find_vma` and the test behind it find the area of the address. -/
theorem findVma_iff {id : Nat} {mm : Lmm} (h : LmmOk id mm) {a : Nat} {v : VmArea} :
    (findVma mm a = some v ∧ v.start ≤ a ∧ a < v.stop)
      ↔ v ∈ mm.vmaList ∧ Has VmArea.start VmArea.stop v a := by
  unfold findVma
  rw [if_pos h.ready]
  have hsorted := h.areas.sorted
  constructor
  · rintro ⟨hf, hin⟩
    exact ⟨List.mem_of_find?_eq_some hf, hin⟩
  · rintro ⟨hv, hin⟩
    refine ⟨?_, hin⟩
    cases hf : mm.vmaList.find? (fun vma => decide (a < vma.stop)) with
    | none => simpa [hin.2] using List.find?_eq_none.mp hf v hv
    | some w =>
        -- the areas before `v` end before `a`
        have hw : a < w.stop := by simpa using List.find?_some hf
        obtain ⟨pre, post, he, hpre⟩ := (List.find?_eq_some_iff_append.mp hf).2
        rw [he] at hv hsorted
        rcases List.mem_append.mp hv with hvp | hvp
        · simpa [hin.2] using hpre v hvp
        · rcases List.mem_cons.mp hvp with rfl | hvp
          · rfl
          · have hle := (List.pairwise_cons.mp (List.pairwise_append.mp hsorted.ordered).2.1).1 v hvp
            exact absurd (hw.trans_le (hle.trans hin.1)) (lt_irrefl a)

/-- **The checks of `handle_page_fault`.** -/
theorem pageFaultCheck_iff {id : Nat} {mm : Lmm} (h : LmmOk id mm) {address errorCode : Nat}
    {v : VmArea} :
    pageFaultCheck mm address errorCode = .ok v ↔ DemandFault mm address errorCode v := by
  unfold pageFaultCheck
  constructor
  · intro he
    split at he
    · exact absurd he (by simp)
    rename_i hbits
    dsimp only at he
    split at he
    · exact absurd he (by simp)
    rename_i w hfind
    split at he
    · exact absurd he (by simp)
    rename_i hin
    split at he
    · exact absurd he (by simp)
    rename_i hacc
    split at he
    · exact absurd he (by simp)
    rename_i hanon
    obtain rfl := Except.ok.inj he
    obtain ⟨hmem, hhas⟩ := (findVma_iff h).mp ⟨hfind, by omega, by omega⟩
    obtain ⟨hwr, hfe, hre⟩ := (pageFaultAccessAllowed_iff w errorCode).mp (by simpa using hacc)
    simp only [not_or, Bool.not_eq_true] at hbits
    simp only [Bool.or_eq_true, Bool.not_eq_true', not_or, Bool.not_eq_false,
      Option.isSome_iff_ne_none, not_not] at hanon
    exact ⟨hbits.1, hbits.2.2, hbits.2.1, hmem, hhas, hwr, hfe, hre, hanon.1, hanon.2⟩
  · intro hd
    obtain ⟨hfind, hlo, hhi⟩ := (findVma_iff h).mpr ⟨hd.mem, hd.inside⟩
    have hacc := (pageFaultAccessAllowed_iff v errorCode).mpr ⟨hd.write, hd.fetch, hd.read⟩
    rw [if_neg (by simp [hd.pgd, hd.notPresent, hd.notReserved])]
    dsimp only
    rw [hfind]
    dsimp only
    rw [if_neg (by omega), if_neg (by simp [hacc]), if_neg (by simp [hd.anonymous, hd.noFile])]

theorem pageFaultCheck_error {mm : Lmm} {address errorCode : Nat} {e : Int}
    (h : pageFaultCheck mm address errorCode = .error e) : e ≠ 0 := by
  unfold pageFaultCheck at h
  split at h
  · rw [← Except.error.inj h]
    decide
  dsimp only at h
  split at h
  · rw [← Except.error.inj h]
    decide
  split at h
  · rw [← Except.error.inj h]
    decide
  split at h
  · rw [← Except.error.inj h]
    decide
  split at h
  · rw [← Except.error.inj h]
    decide
  · exact absurd h (by simp)

/-! ## The frame -/

section

variable {m₀ : MMS} {pool : Nat → Slab} {s : KMem} {out : Nat → Nat} {objs : List Obj} {pgd : Nat}

/-- The memory after the frame `f` has been taken and cleared: the tree, and what the heap keeps, are
as before. -/
structure FrameCleared (m₀ : MMS) (pool : Nat → Slab) (pgd : Nat) (s : KMem) (out : Nat → Nat)
    (objs : List Obj) (mms : MMS) (f : Nat) (s₁ : KMem) : Prop where
  tree : HeapTree m₀ pool pgd s₁ (fun x => out x + ind f 0 x) objs
  user : UserFrame m₀ (fun x => out x + ind f 0 x) f
  phyAddr : (s₁.mms.page f).phyAddr = f * PAGE_4K_SIZE
  mms : s₁.mms = mms
  cache : s₁.cache = s.cache
  node : ∀ l ≤ 3, ∀ k, userTables.node s₁.word (userRoot pgd) l k
    = userTables.node s.word (userRoot pgd) l k
  same : MapSame s.word s₁.word pgd
  missing : ∀ vaddr < USER_LIMIT, missingTables s₁.word pgd vaddr = missingTables s.word pgd vaddr
  word : ∀ b ∈ objs, ∀ a, b.Has (8 * a) → s₁.word a = s.word a
  zero : ∀ i < PAGE_4K_SIZE / 8, s₁.word (phyToVirt (f * PAGE_4K_SIZE) / 8 + i) = 0

theorem HeapTree.frameCleared (hd : DirectMap m₀ pool) (h : HeapTree m₀ pool pgd s out objs)
    {mms : MMS} {zi f : Nat} (hz : zi < s.mms.zonesCount)
    (hh : Handed s.mms mms (fun x => out x + grownCover s.shapes x) zi f 0) :
    FrameCleared m₀ pool pgd s out objs mms f
      ({ s with mms := mms }.clear (phyToVirt (mms.page f).phyAddr) PAGE_4K_SIZE) := by
  obtain ⟨hheap, hf, -⟩ := h.heap.frameTaken hz hh
  obtain ⟨-, -, hphy, -⟩ := hheap.toHeapCore.held hf
  have hphy' : (mms.page f).phyAddr = f * PAGE_4K_SIZE := hphy
  rw [hphy']
  obtain ⟨hheap', hword⟩ := hheap.clear_frame hd hf
  set s₁ := { s with mms := mms }.clear (phyToVirt (f * PAGE_4K_SIZE)) PAGE_4K_SIZE with hs₁
  have hnodes : ∀ l ≤ 3, ∀ k t, userTables.node s.word (userRoot pgd) l k = some t →
      ∀ i < userTables.width l, s₁.word (t + i) = s.word (t + i) := fun l hl k t ht i hi =>
    hword _ (h.owned l hl k t ht) _ (PageObj.has (hi.trans_le (Tree.width_le l)))
  obtain ⟨htree, hnode, hleaf⟩ := h.tree.congr hnodes
  refine ⟨⟨hheap', htree, fun l hl k t ht => ?_⟩, hf, hphy', rfl, rfl, hnode,
    h.tree.mapSame htree hleaf, fun vaddr hv => h.tree.missingTables_congr hnodes hv, hword,
    fun i hi => ?_⟩
  · rw [hnode l hl] at ht
    exact h.owned l hl k t ht
  · show fill s.word (phyToVirt (f * PAGE_4K_SIZE) / 8) (PAGE_4K_SIZE / 8) 0 _ = 0
    rw [fill, if_pos (by omega)]

/-- No object of the heap has changed, the tables at `pgd` apart. -/
def HeapKept (objs : List Obj) (pgd : Nat) (s s' : KMem) : Prop :=
  ∀ b ∈ objs, (∀ l ≤ 3, ∀ k t, userTables.node s.word (userRoot pgd) l k = some t → b.ptr ≠ 8 * t) →
    ∀ a, b.Has (8 * a) → s'.word a = s.word a

/-- A walk changes tables only. -/
theorem TablesMade.heapKept (hd : DirectMap m₀ pool) (h : HeapInv m₀ pool s out objs) {s' : KMem}
    {objs' : List Obj} (hm : TablesMade m₀ pool out pgd s objs s' objs') :
    HeapKept objs pgd s s' := by
  intro b hb hno a ha
  refine hm.word a (h.not_mapWord hd.toPoolLayout hb ha) (fun l hl k t ht i hi hc => ?_)
  have hptr : b.ptr = 8 * t := by
    refine hm.heap.ptr_eq hd.toPoolLayout (hm.mem b hb) (hm.owned l hl k t ht) ha ?_
    rw [hc]
    exact PageObj.has hi
  rcases hm.fresh l hl k t ht with hold | hnew
  · exact hno l hl k t hold hptr
  · -- the objects at one address are one
    have heq : b = ⟨8 * t, PAGE_4K_SIZE⟩ :=
      List.inj_on_of_nodup_map hm.heap.nodup (hm.mem b hb) (hm.owned l hl k t ht) hptr
    apply hnew
    unfold PageObj
    rw [← heq]
    exact hb

/-- What `handle_page_fault` does once it has a frame. -/
theorem handlePageFault_eq {mm : Lmm} {address errorCode : Nat} {v : VmArea}
    (hc : pageFaultCheck mm address errorCode = .ok v) {mms : MMS} {f : Nat}
    (ha : allocPage4K s.mms ZONE_NORMAL_INDEX 1 PG_PTABLE_MAPPED = some (mms, some f)) :
    handlePageFault s mm address errorCode
      = (mapPage4K ({ s with mms := mms }.clear (phyToVirt (mms.page f).phyAddr) PAGE_4K_SIZE) mm.pgd
          (alignDown PAGE_4K_SIZE address) (some f) (pteFlags v)).bind (fun r =>
            if r.2 ≠ 0 then (r.1.freePage4K f).map (·, -(ENOMEM : Int)) else some (r.1, 0)) := by
  unfold handlePageFault
  rw [hc]
  dsimp only
  rw [ha]
  dsimp only
  cases mapPage4K ({ s with mms := mms }.clear (phyToVirt (mms.page f).phyAddr) PAGE_4K_SIZE) mm.pgd
    (alignDown PAGE_4K_SIZE address) (some f) (pteFlags v) <;> rfl

/-! ## The fault -/

/-- The memory for a page can be had: a frame, and then the tables that are missing. -/
def FaultMemory (s : KMem) (pgd pageAddress : Nat) : Prop :=
  ∃ mms f, allocPage4K s.mms ZONE_NORMAL_INDEX 1 PG_PTABLE_MAPPED = some (mms, some f) ∧
    TablesHad { s with mms := mms } (missingTables s.word pgd pageAddress)

/-- The page of `address` has been mapped, to a frame of zeros with the rights of the area. -/
structure FaultMapped (s : KMem) (mm : Lmm) (address : Nat) (v : VmArea) (s' : KMem) : Prop where
  tree : PageTree s'.word mm.pgd
  frame : ∃ mms f, allocPage4K s.mms ZONE_NORMAL_INDEX 1 PG_PTABLE_MAPPED = some (mms, some f) ∧
    MapUpdate s.word s'.word mm.pgd (alignDown PAGE_4K_SIZE address)
      (some ⟨⟨f, true, hasFlag v.prot PROT_WRITE⟩, pteFlags v⟩) ∧
    ∀ i < PAGE_4K_SIZE / 8, s'.word (phyToVirt (f * PAGE_4K_SIZE) / 8 + i) = 0

/-- Nothing has been mapped, and the frame that was taken has been freed again. -/
structure FaultRefused (s : KMem) (objs : List Obj) (pgd : Nat) (s' : KMem) : Prop where
  same : MapSame s.word s'.word pgd
  kept : HeapKept objs pgd s s'
  free : ∀ x, s'.mms.freeBlocks x = s.mms.freeBlocks x

theorem FaultRefused.refl (s : KMem) (objs : List Obj) (pgd : Nat) : FaultRefused s objs pgd s :=
  ⟨MapSame.refl _ _, fun _ _ _ _ _ => rfl, fun _ => rfl⟩

/-- The flags of `handle_page_fault`. -/
theorem pteFlags_spec (v : VmArea) : IsFlags (pteFlags v) ∧
    entryHas (pteFlags v) PEA_PRESENT = true ∧ entryHas (pteFlags v) PEA_PAGE_SIZE = false ∧
    ∀ f, flagsMapping f (pteFlags v) = ⟨⟨f, true, hasFlag v.prot PROT_WRITE⟩, pteFlags v⟩ := by
  refine ⟨isFlags_userPage _, ?_, ?_, fun f => ?_⟩
  · unfold pteFlags
    cases hasFlag v.prot PROT_WRITE <;> decide
  · unfold pteFlags
    cases hasFlag v.prot PROT_WRITE <;> decide
  · have hus : entryHas (pteFlags v) PEA_IS_USER = true := by
      unfold pteFlags
      cases hasFlag v.prot PROT_WRITE <;> decide
    have hrw : entryHas (pteFlags v) PEA_READ_WRITE = hasFlag v.prot PROT_WRITE := by
      unfold pteFlags
      cases hasFlag v.prot PROT_WRITE <;> decide
    rw [flagsMapping, hus, hrw]

/-- The frame goes back when `MapPage4K` has been refused. -/
theorem FrameCleared.refused (hd : DirectMap m₀ pool) (h : HeapTree m₀ pool pgd s out objs)
    {mms : MMS} {f : Nat} {s₁ s₂ : KMem} {objs₂ : List Obj}
    (hf : FrameCleared m₀ pool pgd s out objs mms f s₁)
    (hm : TablesMade m₀ pool (fun x => out x + ind f 0 x) pgd s₁ objs s₂ objs₂) :
    ∃ s₃, s₂.freePage4K f = some s₃ ∧ FaultRefused s objs pgd s₃ := by
  obtain ⟨m₃, hgive, hheap⟩ := hm.heap.frameGiven hf.user
  have hfree : s₂.freePage4K f = some { s₂ with mms := m₃ } := by
    rw [KMem.freePage4K, hgive]
    rfl
  refine ⟨{ s₂ with mms := m₃ }, hfree, fun u hu => ?_, fun b hb hno a hba => ?_, fun x => ?_⟩
  · exact (hf.tree.tree.mapSame hm.tree hm.leaf u hu).trans (hf.same u hu)
  · refine (hm.heapKept hd hf.tree.heap b hb (fun l hl k t ht => ?_) a hba).trans (hf.word b hb a hba)
    rw [hf.node l hl] at ht
    exact hno l hl k t ht
  · have hout : (fun x => out x + ind f 0 x - ind f 0 x) = out :=
      funext (fun x => Nat.add_sub_cancel ..)
    rw [hout] at hheap
    refine h.heap.toHeapCore.freeBlocks_congr hheap.toHeapCore ?_ x
    show s₂.shapes = s.shapes
    rw [hm.shapes]
    unfold KMem.shapes
    rw [hf.cache]

/-- The frame of a word of a frame. -/
theorem wordFrame_add {g i : Nat} (hi : i < PAGE_4K_SIZE / 8) :
    wordFrame (phyToVirt (g * PAGE_4K_SIZE) / 8 + i) = g := by
  unfold wordFrame page4KIndex virtToPhy phyToVirt PAGE_OFFSET
  unfold PAGE_4K_SIZE PAGE_4K_SHIFT at *
  omega

/-- The entry the walk has ended at is written. -/
theorem FrameCleared.mapped (hd : DirectMap m₀ pool) {mm : Lmm} {address : Nat} {v : VmArea}
    {mms : MMS} {f a : Nat} {s₁ s₂ : KMem}
    (ha : allocPage4K s.mms ZONE_NORMAL_INDEX 1 PG_PTABLE_MAPPED = some (mms, some f))
    (hf : FrameCleared m₀ pool mm.pgd s out objs mms f s₁)
    (hw : WalkEnds m₀ s₁ (fun x => out x + ind f 0 x) mm.pgd (alignDown PAGE_4K_SIZE address) s₂ a) :
    FaultMapped s mm address v
      (s₂.write (8 * a) (BitVec.ofNat 64 (f * PAGE_4K_SIZE) ||| pteFlags v)) := by
  obtain ⟨hflags, hpr, -, hmapping⟩ := pteFlags_spec v
  obtain ⟨htree, hup⟩ := hw.write hf.tree.tree (BitVec.ofNat 64 (f * PAGE_4K_SIZE) ||| pteFlags v)
  rw [leafMapping_or (Nat.dvd_mul_left ..) (lt_trans (hf.user.lt hd).2 (by decide)) hflags hpr,
    show page4KIndex (f * PAGE_4K_SIZE) = f from Nat.mul_div_cancel _ (by decide), hmapping] at hup
  refine ⟨htree, mms, f, ha, hf.same.trans_update hup, fun i hi => ?_⟩
  -- the words of the frame are cleared, and are no entries
  have hframe : UserFrame m₀ (fun x => out x + ind f 0 x)
      (wordFrame (phyToVirt (f * PAGE_4K_SIZE) / 8 + i)) := by
    rw [wordFrame_add hi]
    exact hf.user
  have hne : phyToVirt (f * PAGE_4K_SIZE) / 8 + i ≠ a := by
    rintro rfl
    exact hw.apart hframe
  rw [KMem.write, Nat.mul_div_cancel_left _ (by decide)]
  show Function.update s₂.word a _ _ = 0
  rw [Function.update_of_ne hne, hw.user _ hframe]
  exact hf.zero i hi

/-- **A page fault that passes the checks and gets a frame**, where the tables can be had without
harm. -/
theorem HeapTree.fault_room (hd : DirectMap m₀ pool) {mm : Lmm}
    (h : HeapTree m₀ pool mm.pgd s out objs) {address errorCode : Nat} {v : VmArea}
    (hc : pageFaultCheck mm address errorCode = .ok v)
    (hv : alignDown PAGE_4K_SIZE address < USER_LIMIT) {mms : MMS} {f : Nat} {s₁ : KMem}
    (ha : allocPage4K s.mms ZONE_NORMAL_INDEX 1 PG_PTABLE_MAPPED = some (mms, some f))
    (hs₁ : s₁ = { s with mms := mms }.clear (phyToVirt (mms.page f).phyAddr) PAGE_4K_SIZE)
    (hf : FrameCleared m₀ pool mm.pgd s out objs mms f s₁)
    (hroom : TableRoom s₁ (missingTables s₁.word mm.pgd (alignDown PAGE_4K_SIZE address))) :
    ∃ s' r, handlePageFault s mm address errorCode = some (s', r) ∧
      ((r = 0 ∧ mapping s₁.word mm.pgd (alignDown PAGE_4K_SIZE address) = none ∧
          TablesHad s₁ (missingTables s₁.word mm.pgd (alignDown PAGE_4K_SIZE address)) ∧
          FaultMapped s mm address v s') ∨
        (r ≠ 0 ∧ (mapping s₁.word mm.pgd (alignDown PAGE_4K_SIZE address) ≠ none ∨
            ¬ TablesHad s₁ (missingTables s₁.word mm.pgd (alignDown PAGE_4K_SIZE address))) ∧
          FaultRefused s objs mm.pgd s')) := by
  rw [handlePageFault_eq hc ha, ← hs₁]
  have hdvd : PAGE_4K_SIZE ∣ (s₁.mms.page f).phyAddr := by
    rw [hf.phyAddr]
    exact Nat.dvd_mul_left ..
  rcases hf.tree.mapPage4K hd hv (dvd_alignDown _ _) hroom hdvd (pteFlags v) with
    ⟨s₂, objs₂, he, hmade, hwhy⟩ | ⟨s₂, a, he, hends, hm, hhad⟩
  · obtain ⟨s₃, hfree, hrefused⟩ := hf.refused hd h hmade
    refine ⟨s₃, -(ENOMEM : Int), ?_, Or.inr ⟨by decide, hwhy, hrefused⟩⟩
    rw [he, Option.bind_some, if_pos (show -(ENOMEM : Int) ≠ 0 by decide), hfree]
    rfl
  · rw [hf.phyAddr, flags_and_not (pteFlags_spec v).2.2.1] at he
    refine ⟨_, 0, ?_, Or.inl ⟨rfl, hm, hhad, hf.mapped hd ha hends⟩⟩
    rw [he]
    rfl

/-- **A page fault that passes the checks and gets a frame**, where the tables cannot be had without
harm: it goes wrong, or maps a page it should not. -/
theorem HeapTree.fault_harm (hd : DirectMap m₀ pool) {mm : Lmm} {address errorCode : Nat} {v : VmArea}
    (hc : pageFaultCheck mm address errorCode = .ok v)
    (hv : alignDown PAGE_4K_SIZE address < USER_LIMIT) {mms : MMS} {f : Nat} {s₁ : KMem}
    (ha : allocPage4K s.mms ZONE_NORMAL_INDEX 1 PG_PTABLE_MAPPED = some (mms, some f))
    (hs₁ : s₁ = { s with mms := mms }.clear (phyToVirt (mms.page f).phyAddr) PAGE_4K_SIZE)
    (hf : FrameCleared m₀ pool mm.pgd s out objs mms f s₁)
    (hroom : ¬ TableRoom s₁ (missingTables s₁.word mm.pgd (alignDown PAGE_4K_SIZE address))) :
    handlePageFault s mm address errorCode = none ∨
      ∃ s' r u, handlePageFault s mm address errorCode = some (s', r) ∧ u < USER_LIMIT ∧
        mapping s.word mm.pgd u = none ∧ mapping s'.word mm.pgd u ≠ none ∧
        (r = 0 → u / PAGE_4K_SIZE ≠ alignDown PAGE_4K_SIZE address / PAGE_4K_SIZE) := by
  rw [handlePageFault_eq hc ha, ← hs₁]
  have hdvd : PAGE_4K_SIZE ∣ (s₁.mms.page f).phyAddr := by
    rw [hf.phyAddr]
    exact Nat.dvd_mul_left ..
  rcases hf.tree.mapPage4K_harm hd hv (dvd_alignDown _ _) hroom hdvd (pteFlags v) with
    he | ⟨s₂, r, u, he, hu, hbefore, hafter, hother⟩
  · left
    rw [he]
    rfl
  rw [hf.same u hu] at hbefore
  rw [he, Option.bind_some]
  dsimp only
  by_cases hr : r = 0
  · right
    exact ⟨s₂, 0, u, if_neg (not_not.mpr hr), hu, hbefore, hafter, fun _ => hother hr⟩
  · -- the frame goes back, the tables stay
    rw [if_pos hr, KMem.freePage4K]
    cases Talios.freePage4K s₂.mms f 1 with
    | none => exact Or.inl rfl
    | some x =>
        right
        exact ⟨{ s₂ with mms := x.1 }, -(ENOMEM : Int), u, rfl, hu, hbefore, hafter,
          fun h0 => absurd h0 (by decide)⟩

/-! ## The specification -/

/-- **The specification of `handle_page_fault`.** It returns 0 when the page is to be had on demand,
is not mapped, and the memory for it can be had; then exactly that page is mapped, to a frame of
zeros. Otherwise nothing is mapped. -/
def FaultAnswered (s : KMem) (objs : List Obj) (mm : Lmm) (address errorCode : Nat) : Prop :=
  ∃ s' r, handlePageFault s mm address errorCode = some (s', r) ∧
    (r = 0 ↔ ∃ v, DemandFault mm address errorCode v ∧
      mapping s.word mm.pgd (alignDown PAGE_4K_SIZE address) = none ∧
      FaultMemory s mm.pgd (alignDown PAGE_4K_SIZE address)) ∧
    (r = 0 → ∃ v, DemandFault mm address errorCode v ∧ FaultMapped s mm address v s') ∧
    (r ≠ 0 → FaultRefused s objs mm.pgd s')

/-- Once a fault that passes the checks has its frame, the tables can be had without harm. -/
def FaultTables (s : KMem) (mm : Lmm) (address errorCode : Nat) : Prop :=
  ∀ v, DemandFault mm address errorCode v → ∀ mms f,
    allocPage4K s.mms ZONE_NORMAL_INDEX 1 PG_PTABLE_MAPPED = some (mms, some f) →
    TableRoom { s with mms := mms }
      (missingTables s.word mm.pgd (alignDown PAGE_4K_SIZE address))

/-- A fault that is refused before anything has been done. -/
theorem faultAnswered_refused {mm : Lmm} {address errorCode : Nat} {r : Int} (hr : r ≠ 0)
    (he : handlePageFault s mm address errorCode = some (s, r))
    (hno : ∀ v, DemandFault mm address errorCode v →
      ¬ FaultMemory s mm.pgd (alignDown PAGE_4K_SIZE address)) :
    FaultAnswered s objs mm address errorCode := by
  refine ⟨s, r, he, iff_of_false hr ?_, fun h0 => absurd h0 hr, fun _ => FaultRefused.refl ..⟩
  rintro ⟨v, hv, -, hmem⟩
  exact hno v hv hmem

/-- **`handle_page_fault`** meets its specification exactly when `FaultTables` holds. -/
theorem HeapInv.faultAnswered_iff (hd : DirectMap m₀ pool) {id : Nat} {mm : Lmm} (hmm : LmmOk id mm)
    (h : HeapInv m₀ pool s out objs)
    (htree : mm.pgd ≠ 0 → HeapTree m₀ pool mm.pgd s out objs) (address errorCode : Nat) :
    FaultAnswered s objs mm address errorCode ↔ FaultTables s mm address errorCode := by
  cases hc : pageFaultCheck mm address errorCode with
  | error e =>
      -- the fault does not pass the checks
      have hno : ∀ v, ¬ DemandFault mm address errorCode v := by
        intro v hv
        rw [(pageFaultCheck_iff hmm).mpr hv] at hc
        exact absurd hc (by simp)
      refine iff_of_true (faultAnswered_refused (pageFaultCheck_error hc) ?_
        (fun v hv => absurd hv (hno v))) (fun v hv => absurd hv (hno v))
      rw [handlePageFault, hc]
  | ok v =>
      have hdem := (pageFaultCheck_iff hmm).mp hc
      have hv : alignDown PAGE_4K_SIZE address < USER_LIMIT :=
        hdem.inside.2.trans_le (hmm.areas.areas v hdem.mem).upper
      have htree := htree hdem.pgd
      rcases allocPage4K_spec h.inv ZONE_NORMAL_INDEX PG_PTABLE_MAPPED with
        ha | ⟨mms, f, zi, hz, ha, hh⟩
      · -- there is no frame
        have hnone : ∀ mms f,
            allocPage4K s.mms ZONE_NORMAL_INDEX 1 PG_PTABLE_MAPPED ≠ some (mms, some f) := by
          intro mms f hf
          rw [ha] at hf
          exact absurd hf (by simp)
        refine iff_of_true (faultAnswered_refused (r := -(ENOMEM : Int)) (by decide) ?_ ?_)
          (fun _ _ mms f hf => absurd hf (hnone mms f))
        · rw [handlePageFault, hc]
          dsimp only
          rw [ha]
        · rintro w hw ⟨mms, f, hf, -⟩
          exact hnone mms f hf
      · obtain ⟨s₁, hs₁⟩ : ∃ s₁, s₁ =
          { s with mms := mms }.clear (phyToVirt (mms.page f).phyAddr) PAGE_4K_SIZE := ⟨_, rfl⟩
        have hf := htree.frameCleared hd hz hh
        rw [← hs₁] at hf
        -- the state after the frame, in terms of the state before
        have hmap := hf.same _ hv
        have hmiss := hf.missing _ hv
        have hroom := @TableRoom.congr { s with mms := mms } s₁
          (missingTables s.word mm.pgd (alignDown PAGE_4K_SIZE address)) hf.cache hf.mms
        have hhad := @TablesHad.congr { s with mms := mms } s₁
          (missingTables s.word mm.pgd (alignDown PAGE_4K_SIZE address)) hf.cache hf.mms
        have htables : FaultTables s mm address errorCode ↔ TableRoom s₁
            (missingTables s₁.word mm.pgd (alignDown PAGE_4K_SIZE address)) := by
          rw [hmiss, hroom]
          constructor
          · exact fun hall => hall v hdem mms f ha
          · intro hr w _ mms' f' ha'
            rw [ha] at ha'
            obtain ⟨rfl, -⟩ := Prod.mk.inj (Option.some.inj ha')
            exact hr
        rw [htables]
        by_cases hr : TableRoom s₁ (missingTables s₁.word mm.pgd (alignDown PAGE_4K_SIZE address))
        · refine iff_of_true ?_ hr
          obtain ⟨s', r, hres, hcase⟩ := htree.fault_room hd hc hv ha hs₁ hf hr
          rw [hmap, hmiss, hhad] at hcase
          refine ⟨s', r, hres, ⟨fun h0 => ?_, ?_⟩, fun h0 => ?_, fun hne => ?_⟩
          · obtain ⟨-, hm, hgot, -⟩ := hcase.resolve_right (fun hcase => hcase.1 h0)
            exact ⟨v, hdem, hm, mms, f, ha, hgot⟩
          · rintro ⟨w, -, hm, mms', f', ha', hgot⟩
            rw [ha] at ha'
            obtain ⟨rfl, -⟩ := Prod.mk.inj (Option.some.inj ha')
            by_contra hne
            obtain ⟨-, hwhy, -⟩ := hcase.resolve_left (fun hcase => hne hcase.1)
            rcases hwhy with hwhy | hwhy
            · exact hwhy hm
            · exact hwhy hgot
          · obtain ⟨-, -, -, hmapped⟩ := hcase.resolve_right (fun hcase => hcase.1 h0)
            exact ⟨v, hdem, hmapped⟩
          · exact (hcase.resolve_left (fun hcase => hne hcase.1)).2.2
        · refine iff_of_false ?_ hr
          rintro ⟨s', r, hres, -, hyes, hnot⟩
          rcases HeapTree.fault_harm hd hc hv ha hs₁ hf hr with
            hnone | ⟨s'', r', u, hres', hu, hbefore, hafter, hother⟩
          · rw [hres] at hnone
            exact absurd hnone (by simp)
          · rw [hres] at hres'
            obtain ⟨rfl, rfl⟩ := Prod.mk.inj (Option.some.inj hres')
            apply hafter
            by_cases h0 : r = 0
            · obtain ⟨w, -, -, mms', f', -, hup, -⟩ := hyes h0
              rw [hup u hu, if_neg (hother h0), hbefore]
            · rw [(hnot h0).same u hu, hbefore]

end

/-- **`handle_page_fault`**, in every kernel that runs, meets its specification exactly when
`FaultTables` holds. -/
theorem handlePageFault_spec {img : KernelImage} {k : Kernel} (hk : KernelReachable img k) {id : Nat}
    {mm : Lmm} (hmm : LmmOk id mm)
    (htree : mm.pgd ≠ 0 → PageTree k.mem.word mm.pgd ∧ k.Owns mm.pgd) (address errorCode : Nat) :
    FaultAnswered k.mem k.live mm address errorCode ↔ FaultTables k.mem mm address errorCode := by
  have hinv := hk.inv.heap
  apply hinv.faultAnswered_iff (directMap_init img) hmm
  intro hp
  exact ⟨hinv, (htree hp).1, (htree hp).2⟩

/-! ## An example -/

/-- One page of memory at `0x40200000`, readable and writable. -/
def exampleArea : VmArea := ⟨1, 64, 0x40200000, 0x40201000, 3, 0, 0x22, 0, none⟩

/-- The manager with this area. -/
def exampleLmm (pgd : Nat) : Lmm := ⟨64, pgd, 0, true, [exampleArea]⟩

theorem exampleLmm_ok (pgd : Nat) : LmmOk 64 (exampleLmm pgd) := by
  refine ⟨rfl, rfl, areasOk_cons.mpr ⟨?_, by simp, areasOk_nil 64⟩⟩
  constructor <;> decide

/-- A write to the page. -/
theorem demandFault_example {pgd : Nat} (hp : pgd ≠ 0) :
    DemandFault (exampleLmm pgd) 0x40200000 6 exampleArea := by
  refine ⟨hp, ?_, ?_, List.mem_cons_self, ⟨?_, ?_⟩, ?_, ?_, ?_, ?_, rfl⟩ <;> decide

theorem handlePageFault_spec_example : ∃ k pgd, KernelReachable exampleImage k ∧
    FaultAnswered k.mem k.live (exampleLmm pgd) 0x40200000 6 := by
  obtain ⟨k, hk⟩ := examplePages 1 (by decide)
  obtain ⟨pgd, -, ht, hown, hall⟩ := hk.tree (by decide)
  refine ⟨k, pgd, hk.reachable, (handlePageFault_spec hk.reachable (exampleLmm_ok pgd)
    (fun _ => ⟨ht, hown⟩) 0x40200000 6).mpr (fun v _ mms f _ => Or.inl (Or.inl ?_))⟩
  show missingTables k.mem.word pgd 0x40200000 ≤ (k.mem.cache 7).totalFree
  rw [(hall _ (by decide)).2, hk.free]
  decide

/-- With all 512 objects of class 0x1000 in use, the fault needs three tables. -/
theorem handlePageFault_no_spec : ¬ ∀ img k id mm address errorCode, KernelReachable img k →
    LmmOk id mm → (mm.pgd ≠ 0 → PageTree k.mem.word mm.pgd ∧ k.Owns mm.pgd) →
    FaultAnswered k.mem k.live mm address errorCode := by
  intro hall
  obtain ⟨k, hk⟩ := examplePages 512 le_rfl
  obtain ⟨pgd, hp, ht, hown, hempty⟩ := hk.tree (by decide)
  have hinv : HeapInv _ _ k.mem (fun _ => 0) k.live := hk.inv.inv
  have hfault := hall exampleImage k 64 (exampleLmm pgd) 0x40200000 6 hk.reachable (exampleLmm_ok pgd)
    (fun _ => ⟨ht, hown⟩)
  have htables := (hinv.faultAnswered_iff (directMap_init exampleImage) (exampleLmm_ok pgd)
    (fun _ => ⟨hinv, ht, hown⟩) 0x40200000 6).mp hfault
  obtain ⟨m₁, f, -, -, ha, -, m₂, block, -, -, hb, -⟩ :=
    example_frame_block hinv hk.inv.tails PG_PTABLE_MAPPED
  have hroom := htables exampleArea (demandFault_example hp) m₁ f ha
  have hmiss : missingTables k.mem.word pgd 0x40200000 = 3 := (hempty _ (by decide)).2
  have hfree : (k.mem.cache 7).totalFree = 0 := by rw [hk.free]
  rcases hroom with (hle | hno) | ⟨heq, -⟩
  · have hle' : missingTables k.mem.word pgd 0x40200000 ≤ (k.mem.cache 7).totalFree := hle
    rw [hmiss, hfree] at hle'
    exact absurd hle' (by decide)
  · exact hno m₂ block hb
  · have heq' : missingTables k.mem.word pgd 0x40200000 = (k.mem.cache 7).totalFree + 1 := heq
    rw [hmiss, hfree] at heq'
    exact absurd heq' (by decide)

end Talios
