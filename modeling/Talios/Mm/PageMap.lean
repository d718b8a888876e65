import Talios.Memory.KernelRun
import Talios.Mm.PageTableGrow

set_option autoImplicit false

/-! # Page tables as a map

`MapPage4K` and `UnmapPage4K` on any well-formed tree of tables in a running kernel. An address
space is a map from pages to mappings, and the two functions update it at one page. That holds
exactly where the walk needs no table after the first one from a slab by which the class of pages
has grown (`TableRoom`), and the page structure knows its frame.
-/

namespace Talios

open Word Bitmap Dyadic Radix

/-! ## Updates -/

/-- No address of user space is mapped differently. -/
def MapSame (w w' : Memory) (pgd : Nat) : Prop := ∀ u < USER_LIMIT, mapping w' pgd u = mapping w pgd u

/-- The page of `vaddr` has the mapping `m`, and every other one what it had. -/
def MapUpdate (w w' : Memory) (pgd vaddr : Nat) (m : Option Mapping) : Prop :=
  ∀ u < USER_LIMIT, mapping w' pgd u
    = if u / PAGE_4K_SIZE = vaddr / PAGE_4K_SIZE then m else mapping w pgd u

variable {w w' : Memory} {pgd vaddr : Nat}

theorem MapSame.refl (w : Memory) (pgd : Nat) : MapSame w w pgd := fun _ _ => rfl

/-- Trees with the same leaves map the same. -/
theorem PageTree.mapSame (h : PageTree w pgd) (h' : PageTree w' pgd)
    (hl : ∀ n, userLeaf w' pgd n = userLeaf w pgd n) : MapSame w w' pgd := by
  intro u hu
  rw [h'.mapping_eq hu, hl, ← h.mapping_eq hu]

/-- **A store into a leaf** is an update. -/
theorem PageTree.mapUpdate (h : PageTree w pgd) {a : Nat}
    (ha : userTables.slot w (userRoot pgd) (vaddr / PAGE_4K_SIZE) = some a) (e : BitVec 64) :
    PageTree (Function.update w a e) pgd ∧
      MapUpdate w (Function.update w a e) pgd vaddr (leafMapping e) := by
  obtain ⟨htree, -, hleaf⟩ := h.setLeaf ha e
  refine ⟨htree, fun u hu => ?_⟩
  rw [htree.mapping_eq hu, hleaf]
  by_cases hn : u / PAGE_4K_SIZE = vaddr / PAGE_4K_SIZE
  · rw [if_pos hn, if_pos hn]
  · rw [if_neg hn, if_neg hn, ← h.mapping_eq hu]

theorem MapSame.trans_update {w₁ : Memory} {m : Option Mapping} (h : MapSame w w₁ pgd)
    (h' : MapUpdate w₁ w' pgd vaddr m) : MapUpdate w w' pgd vaddr m := by
  intro u hu
  rw [h' u hu, h u hu]

/-! ## Leaves -/

/-- The flags of an entry put together from an aligned address and flags. -/
theorem entryFlags_or {p : Nat} (hp : PAGE_4K_SIZE ∣ p) {f : BitVec 64} (hf : IsFlags f) :
    entryFlags (BitVec.ofNat 64 p ||| f) = f := by
  unfold entryFlags
  refine BitVec.eq_of_getLsbD_eq (fun i hi => ?_)
  rw [BitVec.getLsbD_and, BitVec.getLsbD_or, BitVec.getLsbD_not, getLsbD_mask hi]
  by_cases h12 : 12 ≤ i
  · simp [h12, hf.getLsbD h12]
  · rw [getLsbD_aligned hp (Nat.lt_of_not_le h12)]
    simp [h12, hi]

/-- The mapping of the frame `frame` with `flags`. -/
def flagsMapping (frame : Nat) (flags : BitVec 64) : Mapping :=
  ⟨⟨frame, entryHas flags PEA_IS_USER, entryHas flags PEA_READ_WRITE⟩, flags⟩

theorem leafMapping_or {p : Nat} (hp : PAGE_4K_SIZE ∣ p) (hlt : p < 2 ^ 64) {f : BitVec 64}
    (hf : IsFlags f) (hpr : entryHas f PEA_PRESENT = true) :
    leafMapping (BitVec.ofNat 64 p ||| f) = some (flagsMapping (page4KIndex p) f) := by
  unfold leafMapping flagsMapping
  rw [entryHas_or hp f (g := PEA_PRESENT) (by unfold IsFlags; decide),
    entryHas_or hp f (g := PEA_IS_USER) (by unfold IsFlags; decide),
    entryHas_or hp f (g := PEA_READ_WRITE) (by unfold IsFlags; decide), entryAddr_or hp hlt hf,
    entryFlags_or hp hf, if_pos hpr]

theorem leafMapping_eq_none {e : BitVec 64} : leafMapping e = none ↔ e &&& PEA_PRESENT = 0 := by
  unfold leafMapping
  rw [← entryHas_eq_false]
  cases entryHas e PEA_PRESENT <;> simp

/-- Flags without `PEA_PAGE_SIZE` lose nothing in `MapPage4K`. -/
theorem flags_and_not {f : BitVec 64} (hf : entryHas f PEA_PAGE_SIZE = false) :
    f &&& ~~~ PEA_PAGE_SIZE = f := by
  have h0 := entryHas_eq_false.mp hf
  refine BitVec.eq_of_getLsbD_eq (fun i hi => ?_)
  have hbit := congrArg (fun x : BitVec 64 => x.getLsbD i) h0
  simp only [BitVec.getLsbD_and] at hbit
  rw [BitVec.getLsbD_and, BitVec.getLsbD_not]
  cases hc : PEA_PAGE_SIZE.getLsbD i <;> simp_all

/-- The mapping of an address is that of the leaf the walk ends at. -/
theorem PageTree.mapping_slot (h : PageTree w pgd) (hv : vaddr < USER_LIMIT) {a : Nat}
    (ha : userTables.slot w (userRoot pgd) (vaddr / PAGE_4K_SIZE) = some a) :
    mapping w pgd vaddr = leafMapping (w a) := by
  rw [h.mapping_eq hv, userLeaf, Tree.leaf_of_slot ha]

/-- Above a table nothing is missing. -/
theorem PageTree.tablesMissing_node (h : PageTree w pgd) (hv : vaddr < USER_LIMIT) {q : Nat}
    (hq : userTables.node w (userRoot pgd) 3 (nodeNumber vaddr 0) = some q) : ∀ d l t : Nat,
    l + d = 3 → userTables.node w (userRoot pgd) l (nodeNumber vaddr d) = some t →
    tablesMissing w vaddr (lastShifts d) (8 * t) = 0 := by
  intro d
  induction d with
  | zero => exact fun _ _ _ _ => rfl
  | succ d ih =>
      intro l t hl hn
      have hi := index_lt_width hv hl
      rw [lastShifts, tablesMissing, entry_word]
      by_cases hz : w (t + getBits vaddr (12 + 9 * (d + 1)) 9) = 0
      · -- the node at level 3 would be missing as well
        have hnone : userTables.node w (userRoot pgd) (l + 1) (nodeNumber vaddr d) = none := by
          rw [← nodeNumber_child, ← userTables.child_zero, ← hz]
          exact Tree.node_child (T := userTables) hn hi
        rw [node_none_of_none _ _ _ d (l + 1) (by omega) hnone] at hq
        exact absurd hq (by simp)
      · obtain ⟨q', -, he, hchild⟩ := h.child (by omega) hn hi hz
        rw [nodeNumber_child] at hchild
        rw [if_neg hz, he.table]
        exact ih (l + 1) q' (by omega) hchild

/-- A page that is mapped misses no table. -/
theorem PageTree.missingTables_mapped (h : PageTree w pgd) (hv : vaddr < USER_LIMIT)
    (hm : mapping w pgd vaddr ≠ none) : missingTables w pgd vaddr = 0 := by
  cases hq : userTables.node w (userRoot pgd) 3 (nodeNumber vaddr 0) with
  | none => exact absurd (h.mapping_none hv (l := 3) (d := 0) rfl hq) hm
  | some q =>
      obtain ⟨hr, hn⟩ := h.root hv
      unfold missingTables
      rw [hr]
      exact h.tablesMissing_node hv hq 3 0 _ rfl hn

/-! ## Unmapping -/

/-- `UnmapPage4K` clears the entry of a page that is mapped to a frame there is a page structure
for. -/
theorem PageTree.unmapPage4K_eq {s : KMem} (h : PageTree s.word pgd) (hv : vaddr < USER_LIMIT)
    (hal : PAGE_4K_SIZE ∣ vaddr) {m : Mapping} (hm : mapping s.word pgd vaddr = some m)
    (hlt : m.frame < s.mms.pagesCount) :
    ∃ a, userTables.slot s.word (userRoot pgd) (vaddr / PAGE_4K_SIZE) = some a ∧
      Talios.unmapPage4K s pgd vaddr = some (s.write (8 * a) 0, some m.frame) := by
  cases hs : userTables.slot s.word (userRoot pgd) (vaddr / PAGE_4K_SIZE) with
  | none =>
      rw [h.mapping_eq hv, userLeaf, Tree.leaf_of_none hs] at hm
      exact absurd hm (by simp [leafMapping, entryHas])
  | some a =>
      rw [h.mapping_slot hv hs] at hm
      have hpr : s.word a &&& PEA_PRESENT ≠ 0 := by
        rw [Ne, ← leafMapping_eq_none, hm]
        simp
      have hframe : page4KIndex (entryAddr (s.word a)) = m.frame := by
        unfold leafMapping at hm
        split at hm
        · rw [← Option.some.inj hm]
        · exact absurd hm (by simp)
      refine ⟨a, rfl, ?_⟩
      unfold Talios.unmapPage4K
      rw [if_neg (by rw [Nat.mod_eq_zero_of_dvd hal]; simp), h.walkPte_find hv, hs]
      dsimp only [Option.map_some]
      rw [Nat.mul_div_cancel_left _ (by decide), if_neg hpr, hframe]
      exact if_neg (Nat.not_le.mpr hlt)

/-- **`UnmapPage4K`** of such a page. -/
theorem PageTree.unmapPage4K {s : KMem} (h : PageTree s.word pgd) (hv : vaddr < USER_LIMIT)
    (hal : PAGE_4K_SIZE ∣ vaddr) {m : Mapping} (hm : mapping s.word pgd vaddr = some m)
    (hlt : m.frame < s.mms.pagesCount) :
    ∃ s', Talios.unmapPage4K s pgd vaddr = some (s', some m.frame) ∧ s'.mms = s.mms ∧
      PageTree s'.word pgd ∧ MapUpdate s.word s'.word pgd vaddr none := by
  obtain ⟨a, ha, he⟩ := h.unmapPage4K_eq hv hal hm hlt
  obtain ⟨htree, hup⟩ := h.mapUpdate ha 0
  refine ⟨s.write (8 * a) 0, he, rfl, ?_, ?_⟩
  · rw [KMem.write, Nat.mul_div_cancel_left _ (by decide)]
    exact htree
  · rw [KMem.write, Nat.mul_div_cancel_left _ (by decide)]
    exact hup

/-- `UnmapPage4K` of a page that is not mapped. -/
theorem PageTree.unmapPage4K_none {s : KMem} (h : PageTree s.word pgd) (hv : vaddr < USER_LIMIT)
    (hm : mapping s.word pgd vaddr = none) : Talios.unmapPage4K s pgd vaddr = some (s, none) := by
  unfold Talios.unmapPage4K
  split
  · rfl
  rw [h.walkPte_find hv]
  cases hs : userTables.slot s.word (userRoot pgd) (vaddr / PAGE_4K_SIZE) with
  | none => rfl
  | some a =>
      rw [h.mapping_slot hv hs, leafMapping_eq_none] at hm
      dsimp only [Option.map_some]
      rw [Nat.mul_div_cancel_left _ (by decide), if_pos hm]

/-! ## Mapping -/

/-- The tables a walk needs can be had without harm: the class of pages has the free objects for
them, or cannot grow, or the first page from the new slab is the last one needed. -/
def TableRoom (s : KMem) (n : Nat) : Prop :=
  PagesRoom s n ∨ n = (s.cache 7).totalFree + 1 ∧ CanGrow s

/-- The tables a walk needs can be had. -/
def TablesHad (s : KMem) (n : Nat) : Prop := n ≤ (s.cache 7).totalFree ∨ CanGrow s

section

variable {m₀ : MMS} {pool : Nat → Slab} {s : KMem} {out : Nat → Nat} {objs : List Obj}

theorem TableRoom.congr {s' : KMem} {n : Nat} (hc : s'.cache = s.cache) (hm : s'.mms = s.mms) :
    TableRoom s' n ↔ TableRoom s n := by
  unfold TableRoom PagesRoom
  rw [CanGrow.congr hm (congrFun hc 2), hc, hm]

theorem TablesHad.congr {s' : KMem} {n : Nat} (hc : s'.cache = s.cache) (hm : s'.mms = s.mms) :
    TablesHad s' n ↔ TablesHad s n := by
  unfold TablesHad
  rw [CanGrow.congr hm (congrFun hc 2), hc]

/-- Without a block of 2 MiB the class cannot grow. -/
theorem not_canGrow (hno : ∀ mms page, allocPage s.mms ZONE_NORMAL_INDEX 1 0 ≠ some (mms, some page)) :
    ¬ CanGrow s := by
  rintro ⟨mms, page, he, -⟩
  exact hno mms page he

/-- **`walk_pte` with `create`**, where the tables can be had without harm. -/
theorem HeapTree.walkPte_room (hd : DirectMap m₀ pool) (h : HeapTree m₀ pool pgd s out objs)
    (hv : vaddr < USER_LIMIT) (hroom : TableRoom s (missingTables s.word pgd vaddr)) :
    (∃ s' objs', Talios.walkPte s pgd vaddr true = some (s', none) ∧
        TablesMade m₀ pool out pgd s objs s' objs' ∧
        ¬ TablesHad s (missingTables s.word pgd vaddr)) ∨
      ∃ s' a, Talios.walkPte s pgd vaddr true = some (s', some (8 * a)) ∧
        WalkEnds m₀ s out pgd vaddr s' a ∧ TablesHad s (missingTables s.word pgd vaddr) := by
  by_cases hp : PagesRoom s (missingTables s.word pgd vaddr)
  · obtain ⟨s', objs', hmade, ⟨he, hlt⟩ | ⟨a, he, ha, hleft⟩⟩ := h.walkPte hd hv hp
    · left
      refine ⟨s', objs', he, hmade, ?_⟩
      rintro (hle | hgrow)
      · exact Nat.not_le.mpr hlt hle
      · exact not_canGrow (hp.resolve_left (Nat.not_le.mpr hlt)) hgrow
    · right
      exact ⟨s', a, he, hmade.walkEnds hd h ha, Or.inl (by omega)⟩
  · obtain ⟨heq, hgrow⟩ := hroom.resolve_left hp
    have hgrow' := hgrow
    obtain ⟨mms, page, ha, -⟩ := hgrow
    right
    rcases h.walkPte_grows hd hv (by omega) ha with
      ⟨-, hno⟩ | ⟨-, -, s', a, he, hends⟩ | ⟨-, hlt, -⟩
    · exact absurd hgrow' hno
    · exact ⟨s', a, he, hends, Or.inr hgrow'⟩
    · omega

/-- The entry a walk has ended at is written. -/
theorem WalkEnds.write (h : PageTree s.word pgd) {s' : KMem} {a : Nat}
    (hends : WalkEnds m₀ s out pgd vaddr s' a) (e : BitVec 64) :
    PageTree (s'.write (8 * a) e).word pgd ∧
      MapUpdate s.word (s'.write (8 * a) e).word pgd vaddr (leafMapping e) := by
  obtain ⟨htree, hup⟩ := hends.tree.mapUpdate hends.slot e
  rw [KMem.write, Nat.mul_div_cancel_left _ (by decide)]
  exact ⟨htree, (h.mapSame hends.tree hends.leaf).trans_update hup⟩

/-- `MapPage4K` of an aligned page and an aligned frame, after its walk. -/
theorem mapPage4K_eq (hal : PAGE_4K_SIZE ∣ vaddr) {page : Nat}
    (hpage : PAGE_4K_SIZE ∣ (s.mms.page page).phyAddr) (flags : BitVec 64) :
    Talios.mapPage4K s pgd vaddr (some page) flags = (Talios.walkPte s pgd vaddr true).map (fun r =>
      match r.2 with
      | none => (r.1, -(ENOMEM : Int))
      | some pte =>
          if r.1.word (pte / 8) &&& PEA_PRESENT ≠ 0 then (r.1, -(ENOMEM : Int))
          else (r.1.write pte (BitVec.ofNat 64 (s.mms.page page).phyAddr |||
            (flags &&& ~~~ PEA_PAGE_SIZE)), 0)) := by
  unfold Talios.mapPage4K
  dsimp only
  rw [if_neg (by rw [Nat.mod_eq_zero_of_dvd hal, Nat.mod_eq_zero_of_dvd hpage]; simp)]
  rcases Talios.walkPte s pgd vaddr true with _ | ⟨s', _ | pte⟩
  · rfl
  · rfl
  · dsimp only [Option.map_some]
    split <;> rfl

/-- **`MapPage4K`**, where the class of pages need not grow: it is refused, or writes the entry the
walk ends at. -/
theorem HeapTree.mapPage4K_made (hd : DirectMap m₀ pool) (h : HeapTree m₀ pool pgd s out objs)
    (hv : vaddr < USER_LIMIT) (hal : PAGE_4K_SIZE ∣ vaddr)
    (hroom : PagesRoom s (missingTables s.word pgd vaddr)) {page : Nat}
    (hpage : PAGE_4K_SIZE ∣ (s.mms.page page).phyAddr) (flags : BitVec 64) :
    ∃ s' objs', TablesMade m₀ pool out pgd s objs s' objs' ∧
      ((Talios.mapPage4K s pgd vaddr (some page) flags = some (s', -(ENOMEM : Int)) ∧
          (mapping s.word pgd vaddr ≠ none ∨
            (s.cache 7).totalFree < missingTables s.word pgd vaddr)) ∨
        ∃ a, Talios.mapPage4K s pgd vaddr (some page) flags
            = some (s'.write (8 * a) (BitVec.ofNat 64 (s.mms.page page).phyAddr |||
                (flags &&& ~~~ PEA_PAGE_SIZE)), 0) ∧
          userTables.slot s'.word (userRoot pgd) (vaddr / PAGE_4K_SIZE) = some a ∧
          mapping s.word pgd vaddr = none ∧
          (s'.cache 7).totalFree + missingTables s.word pgd vaddr = (s.cache 7).totalFree) := by
  obtain ⟨s', objs', hmade, hres⟩ := h.walkPte hd hv hroom
  refine ⟨s', objs', hmade, ?_⟩
  rw [mapPage4K_eq hal hpage]
  rcases hres with ⟨he, hlt⟩ | ⟨a, he, ha, hleft⟩
  · rw [he]
    exact Or.inl ⟨rfl, Or.inr hlt⟩
  have hleaf : leafMapping (s'.word a) = mapping s.word pgd vaddr := by
    rw [← hmade.tree.mapping_slot hv ha, h.tree.mapSame hmade.tree hmade.leaf vaddr hv]
  rw [he]
  dsimp only [Option.map_some]
  rw [Nat.mul_div_cancel_left _ (by decide)]
  by_cases hpr : s'.word a &&& PEA_PRESENT = 0
  · rw [if_neg (not_not.mpr hpr)]
    exact Or.inr ⟨a, rfl, ha, hleaf ▸ leafMapping_eq_none.mpr hpr, hleft⟩
  · rw [if_pos hpr, ← hleaf, Ne, leafMapping_eq_none]
    exact Or.inl ⟨rfl, Or.inl hpr⟩

/-- **`MapPage4K`**, where the tables can be had without harm: it is refused, and the tables made by
then are all it has done, or it writes the entry the walk ends at. -/
theorem HeapTree.mapPage4K (hd : DirectMap m₀ pool) (h : HeapTree m₀ pool pgd s out objs)
    (hv : vaddr < USER_LIMIT) (hal : PAGE_4K_SIZE ∣ vaddr)
    (hroom : TableRoom s (missingTables s.word pgd vaddr)) {page : Nat}
    (hpage : PAGE_4K_SIZE ∣ (s.mms.page page).phyAddr) (flags : BitVec 64) :
    (∃ s' objs', Talios.mapPage4K s pgd vaddr (some page) flags = some (s', -(ENOMEM : Int)) ∧
        TablesMade m₀ pool out pgd s objs s' objs' ∧
        (mapping s.word pgd vaddr ≠ none ∨ ¬ TablesHad s (missingTables s.word pgd vaddr))) ∨
      ∃ s' a, Talios.mapPage4K s pgd vaddr (some page) flags
          = some (s'.write (8 * a) (BitVec.ofNat 64 (s.mms.page page).phyAddr |||
              (flags &&& ~~~ PEA_PAGE_SIZE)), 0) ∧
        WalkEnds m₀ s out pgd vaddr s' a ∧ mapping s.word pgd vaddr = none ∧
        TablesHad s (missingTables s.word pgd vaddr) := by
  by_cases hm : mapping s.word pgd vaddr = none
  · rw [mapPage4K_eq hal hpage]
    rcases h.walkPte_room hd hv hroom with ⟨s', objs', he, hmade, hno⟩ | ⟨s', a, he, hends, hhad⟩
    · left
      rw [he]
      exact ⟨s', objs', rfl, hmade, Or.inr hno⟩
    · right
      have hleaf : leafMapping (s'.word a) = none := by
        rw [← hends.tree.mapping_slot hv hends.slot,
          h.tree.mapSame hends.tree hends.leaf vaddr hv, hm]
      refine ⟨s', a, ?_, hends, hm, hhad⟩
      rw [he]
      dsimp only [Option.map_some]
      rw [Nat.mul_div_cancel_left _ (by decide), if_neg (not_not.mpr (leafMapping_eq_none.mp hleaf))]
  · -- the page is mapped, so no table is missing
    left
    have hzero := h.tree.missingTables_mapped hv hm
    obtain ⟨s', objs', hmade, ⟨he, -⟩ | ⟨-, -, -, hno, -⟩⟩ := h.mapPage4K_made hd hv hal
      (Or.inl (by rw [hzero]; exact Nat.zero_le _)) hpage flags
    · exact ⟨s', objs', he, hmade, Or.inl hm⟩
    · exact absurd hno hm

/-- **`MapPage4K`**, where the tables cannot be had without harm: it goes wrong, or maps a page that
was not mapped and is not the one asked for. -/
theorem HeapTree.mapPage4K_harm (hd : DirectMap m₀ pool) (h : HeapTree m₀ pool pgd s out objs)
    (hv : vaddr < USER_LIMIT) (hal : PAGE_4K_SIZE ∣ vaddr)
    (hroom : ¬ TableRoom s (missingTables s.word pgd vaddr)) {page : Nat}
    (hpage : PAGE_4K_SIZE ∣ (s.mms.page page).phyAddr) (flags : BitVec 64) :
    Talios.mapPage4K s pgd vaddr (some page) flags = none ∨
      ∃ s' r u, Talios.mapPage4K s pgd vaddr (some page) flags = some (s', r) ∧ u < USER_LIMIT ∧
        mapping s.word pgd u = none ∧ mapping s'.word pgd u ≠ none ∧
        (r = 0 → u / PAGE_4K_SIZE ≠ vaddr / PAGE_4K_SIZE) := by
  -- the class of pages has too few free objects, and there is a block for it
  have hlack : (s.cache 7).totalFree < missingTables s.word pgd vaddr := by
    by_contra hle
    exact hroom (Or.inl (Or.inl (Nat.le_of_not_lt hle)))
  obtain ⟨mms, block, ha⟩ : ∃ mms block,
      allocPage s.mms ZONE_NORMAL_INDEX 1 0 = some (mms, some block) := by
    by_contra hno
    exact hroom (Or.inl (Or.inr (fun mms block he => hno ⟨mms, block, he⟩)))
  rw [mapPage4K_eq hal hpage]
  rcases h.walkPte_grows hd hv hlack ha with ⟨he, -⟩ | ⟨hgrow, heq, -⟩ | ⟨-, -, s', a, u, he, hloop⟩
  · left
    rw [he]
    rfl
  · exact absurd (Or.inr ⟨heq, hgrow⟩) hroom
  · right
    rw [he]
    dsimp only [Option.map_some]
    rw [Nat.mul_div_cancel_left _ (by decide)]
    by_cases hpr : s'.word a &&& PEA_PRESENT = 0
    · refine ⟨s'.write (8 * a) (BitVec.ofNat 64 (s.mms.page page).phyAddr |||
        (flags &&& ~~~ PEA_PAGE_SIZE)), 0, u, congrArg some (if_neg (not_not.mpr hpr)), hloop.upper,
        hloop.before, ?_, fun _ => hloop.other (entryHas_eq_false.mpr hpr)⟩
      apply hloop.after
      intro b hb
      have hne : b ≠ a := by
        rcases hb with hne | hpb
        · exact hne
        · rintro rfl
          rw [entryHas_eq_false.mpr hpr] at hpb
          exact absurd hpb (by simp)
      rw [KMem.write, Nat.mul_div_cancel_left _ (by decide)]
      exact Function.update_of_ne hne ..
    · exact ⟨s', -(ENOMEM : Int), u, congrArg some (if_pos hpr), hloop.upper, hloop.before,
        hloop.after _ (fun _ _ => rfl), fun h0 => absurd h0 (by decide)⟩

/-! ## The specification -/

/-- **`MapPage4K` of `page` at `vaddr`, then twice `UnmapPage4K`**, as operations of a map: the page
is entered at `vaddr` and nowhere else, unless `vaddr` is mapped or a table cannot be had, and
then nothing is changed; it is returned and removed again, and the second time there is nothing to
return. -/
def MapsAndUnmaps (s : KMem) (pgd vaddr page : Nat) (flags : BitVec 64) : Prop :=
  ∃ s₁ r, Talios.mapPage4K s pgd vaddr (some page) flags = some (s₁, r) ∧ PageTree s₁.word pgd ∧
    ((r = 0 ∧ mapping s.word pgd vaddr = none ∧ TablesHad s (missingTables s.word pgd vaddr) ∧
        MapUpdate s.word s₁.word pgd vaddr (some (flagsMapping page flags)) ∧
        ∃ s₂, unmapPage4K s₁ pgd vaddr = some (s₂, some page) ∧ PageTree s₂.word pgd ∧
          MapUpdate s₁.word s₂.word pgd vaddr none ∧
          ∃ s₃, unmapPage4K s₂ pgd vaddr = some (s₃, none) ∧ PageTree s₃.word pgd ∧
            MapSame s₂.word s₃.word pgd) ∨
      (r ≠ 0 ∧
        (mapping s.word pgd vaddr ≠ none ∨ ¬ TablesHad s (missingTables s.word pgd vaddr)) ∧
        MapSame s.word s₁.word pgd))

/-- When that is so: the tables can be had without harm, and the page structure knows its frame,
unless the call is refused. -/
def MapRoom (s : KMem) (pgd vaddr page : Nat) : Prop :=
  TableRoom s (missingTables s.word pgd vaddr) ∧
    (mapping s.word pgd vaddr ≠ none ∨ ¬ TablesHad s (missingTables s.word pgd vaddr) ∨
      (s.mms.page page).phyAddr = page * PAGE_4K_SIZE)

/-- **The page tables are a map** exactly when `MapRoom` holds. -/
theorem HeapTree.mapsAndUnmaps_iff (hd : DirectMap m₀ pool) (h : HeapTree m₀ pool pgd s out objs)
    (hv : vaddr < USER_LIMIT) (hal : PAGE_4K_SIZE ∣ vaddr) {page : Nat}
    (hpage : page < s.mms.pagesCount)
    (hphy : (s.mms.page page).phyAddr = page * PAGE_4K_SIZE ∨ (s.mms.page page).phyAddr = 0)
    {flags : BitVec 64} (hf : IsFlags flags) (hpr : entryHas flags PEA_PRESENT = true)
    (hps : entryHas flags PEA_PAGE_SIZE = false) :
    MapsAndUnmaps s pgd vaddr page flags ↔ MapRoom s pgd vaddr page := by
  have hdvd : PAGE_4K_SIZE ∣ (s.mms.page page).phyAddr := by
    rcases hphy with he | he
    · rw [he]
      exact Nat.dvd_mul_left ..
    · rw [he]
      exact Nat.dvd_zero _
  have hlt : (s.mms.page page).phyAddr < 2 ^ 64 := by
    have hcount := hd.count
    rw [← h.heap.layout.pagesCount] at hcount
    unfold PAGE_4K_SIZE PAGE_4K_SHIFT at *
    omega
  by_cases hroom : TableRoom s (missingTables s.word pgd vaddr)
  swap
  · -- the tables cannot be had without harm
    refine iff_of_false ?_ (fun hc => hroom hc.1)
    rintro ⟨s₁, r, he, -, hres⟩
    rcases h.mapPage4K_harm hd hv hal hroom hdvd flags with
      hnone | ⟨s', r', u, he', hu, hbefore, hafter, hother⟩
    · rw [he] at hnone
      exact absurd hnone (by simp)
    · rw [he] at he'
      obtain ⟨rfl, rfl⟩ := Prod.mk.inj (Option.some.inj he')
      rcases hres with ⟨h0, -, -, hup, -⟩ | ⟨-, -, hsame⟩
      · apply hafter
        rw [hup u hu, if_neg (hother h0), hbefore]
      · apply hafter
        rw [hsame u hu, hbefore]
  rcases h.mapPage4K hd hv hal hroom hdvd flags with
    ⟨s₁, objs₁, he, hmade, hwhy⟩ | ⟨s₀, a, he, hends, hm, hhad⟩
  · -- the call is refused
    refine iff_of_true ⟨s₁, _, he, hmade.tree, Or.inr ⟨by decide, hwhy, ?_⟩⟩
      ⟨hroom, hwhy.imp_right Or.inl⟩
    exact h.tree.mapSame hmade.tree hmade.leaf
  · rw [flags_and_not hps] at he
    obtain ⟨htree, hmap⟩ := hends.write h.tree (BitVec.ofNat 64 (s.mms.page page).phyAddr ||| flags)
    rw [leafMapping_or hdvd hlt hf hpr] at hmap
    constructor
    · -- the frame that is mapped is the page's
      rintro ⟨s₁, r, he', -, ⟨-, -, -, hup', -⟩ | ⟨hr, -⟩⟩
      · rw [he] at he'
        obtain ⟨rfl, -⟩ := Prod.mk.inj (Option.some.inj he')
        have hframe := (hmap vaddr hv).symm.trans (hup' vaddr hv)
        rw [if_pos rfl, if_pos rfl] at hframe
        have hindex : page4KIndex (s.mms.page page).phyAddr = page :=
          congrArg (fun m : Mapping => m.frame) (Option.some.inj hframe)
        refine ⟨hroom, Or.inr (Or.inr ?_)⟩
        calc (s.mms.page page).phyAddr
            = page4KIndex (s.mms.page page).phyAddr * PAGE_4K_SIZE := (Nat.div_mul_cancel hdvd).symm
          _ = page * PAGE_4K_SIZE := by rw [hindex]
      · rw [he] at he'
        obtain ⟨-, rfl⟩ := Prod.mk.inj (Option.some.inj he')
        exact absurd rfl hr
    · rintro ⟨-, hne | hno | hidx⟩
      · exact absurd hm hne
      · exact absurd hhad hno
      have hindex : page4KIndex (s.mms.page page).phyAddr = page := by
        rw [hidx]
        exact Nat.mul_div_cancel _ (by decide)
      rw [hindex] at hmap
      refine ⟨_, 0, he, htree, Or.inl ⟨rfl, hm, hhad, hmap, ?_⟩⟩
      obtain ⟨s₂, hun, -, htree₂, hup₂⟩ := htree.unmapPage4K hv hal (m := flagsMapping page flags)
        (by rw [hmap vaddr hv, if_pos rfl])
        (by
          show page < s₀.mms.pagesCount
          rw [hends.layout.pagesCount]
          exact hpage)
      refine ⟨s₂, hun, htree₂, hup₂, s₂, htree₂.unmapPage4K_none hv ?_, htree₂, MapSame.refl _ _⟩
      rw [hup₂ vaddr hv, if_pos rfl]

end

/-- The tables at `pgd` are pages of `kmalloc` in use. -/
def Kernel.Owns (k : Kernel) (pgd : Nat) : Prop :=
  ∀ l ≤ 3, ∀ n t, userTables.node k.mem.word (userRoot pgd) l n = some t → PageObj k.live t

/-- **The page tables are a map**, in every kernel that runs, exactly when `MapRoom` holds. -/
theorem mapPage4K_map {img : KernelImage} {k : Kernel} (hk : KernelReachable img k) {pgd : Nat}
    (ht : PageTree k.mem.word pgd) (hown : k.Owns pgd) {vaddr : Nat} (hv : vaddr < USER_LIMIT)
    (hal : PAGE_4K_SIZE ∣ vaddr) {page : Nat} (hpage : page < k.mem.mms.pagesCount)
    {flags : BitVec 64} (hf : IsFlags flags) (hpr : entryHas flags PEA_PRESENT = true)
    (hps : entryHas flags PEA_PAGE_SIZE = false) :
    MapsAndUnmaps k.mem pgd vaddr page flags ↔ MapRoom k.mem pgd vaddr page := by
  have hinv := hk.inv.heap
  refine HeapTree.mapsAndUnmaps_iff (directMap_init img) ⟨hinv, ht, hown⟩ hv hal hpage ?_ hf hpr hps
  rw [(hinv.layout.pages page).2.1, phyAddr_reservedMMS]
  exact phyAddr_initZones ..

/-! ## An example -/

/-- An empty address space in the example's kernel. -/
theorem ExamplePages.tree {n : Nat} {k : Kernel} (h : ExamplePages n k) (hn : 0 < n) :
    ∃ pgd, pgd ≠ 0 ∧ PageTree k.mem.word pgd ∧ k.Owns pgd ∧ ∀ vaddr < USER_LIMIT,
      mapping k.mem.word pgd vaddr = none ∧ missingTables k.mem.word pgd vaddr = 3 := by
  obtain ⟨q, hq⟩ := h.page hn
  have hd := directMap_init exampleImage
  have hinv : HeapInv _ _ k.mem (fun _ => 0) k.live := h.inv.inv
  obtain ⟨h1, h2, -⟩ := hinv.page_bounds hd hq rfl
  dsimp only at h1 h2
  obtain ⟨t, rfl⟩ : ∃ t, q = 8 * t := by
    unfold PAGE_4K_SIZE PAGE_4K_SHIFT at h1
    exact ⟨q / 8, by omega⟩
  have hobj : PageObj k.live t := hq
  have hdirect := hinv.directPage hd hobj
  have hroot : userRoot (virtToPhy (8 * t)) = t := by
    rw [userRoot, hdirect.phys.2.2, Nat.mul_div_cancel_left _ (by decide)]
  obtain ⟨htree, hnode, hleaf, hmiss⟩ := PageTree.empty (w := k.mem.word) hdirect.phys.1
    (by rw [hroot]; exact hdirect)
    (fun i hi => by
      rw [hroot]
      exact h.zero _ (hinv.not_mapWord hd.toPoolLayout hobj (PageObj.has (by omega))))
  refine ⟨virtToPhy (8 * t), ?_, htree, fun l _ n u hu => ?_, fun vaddr hv => ⟨?_, hmiss vaddr hv⟩⟩
  · unfold virtToPhy
    omega
  · rw [hnode l n u hu, hroot]
    exact hobj
  · rw [htree.mapping_eq hv, hleaf]
    rfl

/-- The page structures of the example. -/
theorem ExamplePages.page_lt {n : Nat} {k : Kernel} (h : ExamplePages n k) :
    k.mem.mms.pagesCount = 0x8000 := by
  have hinv : HeapInv _ _ k.mem (fun _ => 0) k.live := h.inv.inv
  rw [hinv.layout.pagesCount, (sameZones_reservedMMS _ _).pagesCount, pagesCount_initZones]
  rfl

theorem mapPage4K_map_example : ∃ k pgd, KernelReachable exampleImage k ∧ PageTree k.mem.word pgd ∧
    MapsAndUnmaps k.mem pgd 0x40200000 20480 PEA_USER_PAGE := by
  obtain ⟨k, hk⟩ := examplePages 1 (by decide)
  obtain ⟨pgd, -, ht, hown, hall⟩ := hk.tree (by decide)
  have hv : 0x40200000 < USER_LIMIT := by decide
  refine ⟨k, pgd, hk.reachable, ht, (mapPage4K_map hk.reachable ht hown hv (by decide)
    (by rw [hk.page_lt]; decide) (by unfold IsFlags; decide) (by decide) (by decide)).mpr
    ⟨?_, Or.inr (Or.inr ?_)⟩⟩
  · rw [(hall _ hv).2]
    exact Or.inl (Or.inl (by rw [hk.free]; decide))
  · have hinv : HeapInv _ _ k.mem (fun _ => 0) k.live := hk.inv.inv
    rw [(hinv.layout.pages 20480).2.1, phyAddr_reservedMMS]
    decide

/-- With all 512 objects of class 0x1000 in use, `MapPage4K` needs three tables. -/
theorem mapPage4K_no_map : ¬ ∀ img k pgd vaddr page flags, KernelReachable img k →
    PageTree k.mem.word pgd → k.Owns pgd → vaddr < USER_LIMIT → PAGE_4K_SIZE ∣ vaddr →
    page < k.mem.mms.pagesCount → IsFlags flags → entryHas flags PEA_PRESENT = true →
    entryHas flags PEA_PAGE_SIZE = false → MapsAndUnmaps k.mem pgd vaddr page flags := by
  intro hall
  obtain ⟨k, hk⟩ := examplePages 512 le_rfl
  obtain ⟨pgd, -, ht, hown, hempty⟩ := hk.tree (by decide)
  have hv : 0x40200000 < USER_LIMIT := by decide
  have hinv : HeapInv _ _ k.mem (fun _ => 0) k.live := hk.inv.inv
  have hmap := hall exampleImage k pgd 0x40200000 20480 PEA_USER_PAGE hk.reachable ht hown hv
    (by decide) (by rw [hk.page_lt]; decide) (by unfold IsFlags; decide) (by decide) (by decide)
  have hroom := (HeapTree.mapsAndUnmaps_iff (directMap_init exampleImage) ⟨hinv, ht, hown⟩ hv
    (by decide) (by rw [hk.page_lt]; decide)
    (by rw [(hinv.layout.pages 20480).2.1, phyAddr_reservedMMS]; exact phyAddr_initZones ..)
    (by unfold IsFlags; decide) (by decide) (by decide)).mp hmap
  -- there is a block, and none of the objects is left
  have hfree : (k.mem.cache 7).totalFree = 0 := by rw [hk.free]
  obtain ⟨m', block, zi, -, ha, -⟩ := @example_allocPages _ _ _ hinv hk.inv.tails (1 * 2 ^ 9) 20480 0
    (by rw [getOrder_block]; decide) (by rw [getOrder_block]; norm_num) le_rfl
    (by rw [getOrder_block]; norm_num) (fun _ _ => rfl)
  rcases hroom.1 with (hle | hno) | ⟨heq, -⟩
  · rw [(hempty _ hv).2, hfree] at hle
    exact absurd hle (by decide)
  · exact hno m' block ha
  · rw [(hempty _ hv).2, hfree] at heq
    exact absurd heq (by decide)

end Talios
