import Talios.Memory.KernelRun
import Talios.Mm.DirectTables

set_option autoImplicit false

/-! # Runs of `InitPageTable`

After `InitMemory` the class of pages has 512 free objects, and the direct map of 512 GiB needs one
table more than that at most. So no table but the last one can make the class grow, and the harm
a grown class of pages does (its objects lie on its own bitmap) comes too late: after that table no
other is asked for.

`DirectState` is what holds between two passes of the loops, `DirectStep` what a pass leaves as it
was: the addresses that are mapped to themselves, and the words of the kernel image that are no
words of the tables.
-/

namespace Talios

open Word Bitmap Dyadic Radix

/-! ## Words of the image -/

/-- The word lies in the kernel image, which ends at `e`. -/
def ImageWord (e a : Nat) : Prop := PAGE_OFFSET ≤ 8 * a ∧ 8 * a < e

/-- The image lies below the heap, in frames of the kernel. -/
structure ImageBelow (m₀ : MMS) (pool : Nat → Slab) (e : Nat) : Prop where
  below : ∀ i < KMALLOC_SLAB_SIZE, e ≤ (pool i).addr
  frames : ∀ a, ImageWord e a → KernelFrame m₀ (wordFrame a)

section

variable {m₀ : MMS} {pool : Nat → Slab} {s : KMem} {out : Nat → Nat} {objs : List Obj} {e a : Nat}

theorem ImageBelow.not_mapWord (hi : ImageBelow m₀ pool e) (hp : PoolLayout m₀ pool)
    (h : HeapInv m₀ pool s out objs) (ha : ImageWord e a) : ¬ s.MapWord a := by
  rintro ⟨i, hlt, t, ht, hm⟩
  have hmeta := h.rings.meta_of_mapWord hp hlt ht hm (b := 8 * a) (by omega)
  rcases h.rings.cases hlt ht with rfl | ⟨-, hg⟩
  · have h1 : (pool i).addr ≤ 8 * a := hmeta.1
    have h2 := hi.below i hlt
    have h3 := ha.2
    omega
  · exact hg.not_kernel (hg.data_of_meta hmeta) (hi.frames a ha)

theorem ImageBelow.not_object (hi : ImageBelow m₀ pool e) (hp : PoolLayout m₀ pool)
    (h : HeapInv m₀ pool s out objs) (ha : ImageWord e a) {b : Obj} (hb : b ∈ objs) :
    ¬ b.Has (8 * a) := by
  intro hhas
  obtain ⟨i, hlt, t, ht, j, hj, hpe, hs, -⟩ := h.locate hb
  have hin := Obj.has_object hpe hs hhas
  have hdata : t.Data (8 * a) :=
    (h.toHeapCore.counts hp).object_data hlt ht hj.1 hin.1 hin.2
  rcases h.rings.cases hlt ht with rfl | ⟨-, hg⟩
  · have h1 : (pool i).vaddress ≤ 8 * a := hdata.1
    have h2 := hi.below i hlt
    have h3 := hp.above i hlt i hlt
    have h4 := hp.colorMap i hlt
    have h5 := ha.2
    unfold Slab.metaEnd at h3
    omega
  · exact hg.not_kernel hdata (hi.frames a ha)

end

/-! ## The entries `InitPageTable` makes -/

/-- The entry of a table of the direct map. -/
def superTable (t : Nat) : BitVec 64 := BitVec.ofNat 64 (virtToPhy (8 * t)) ||| PEA_SUPERVISOR_TABLE

theorem namedTable_superTable {t : Nat} (h : DirectPage t) : namedTable (superTable t) = some t := by
  obtain ⟨ha, hlt, hv⟩ := h.phys
  refine namedTable_eq_some.mpr ⟨?_, ?_, ?_⟩
  · rw [superTable, entryHas_or ha _ (by unfold IsFlags; decide)]
    decide
  · rw [superTable, entryHas_or ha _ (by unfold IsFlags; decide)]
    decide
  · rw [superTable, tableFromEntry, entryAddr_or ha hlt (by unfold IsFlags; decide), hv]

/-- The entry of a block of 2 MiB. -/
def superBlock (physical : Nat) : BitVec 64 := BitVec.ofNat 64 physical ||| PEA_SUPERVISOR_ENTRY

theorem superBlock_spec {physical : Nat} (h : PAGE_2M_SIZE ∣ physical) (hlt : physical < 2 ^ 39) :
    entryHas (superBlock physical) PEA_PRESENT = true ∧
      entryHas (superBlock physical) PEA_PAGE_SIZE = true ∧
      entryAddr (superBlock physical) = physical := by
  have h4 : PAGE_4K_SIZE ∣ physical := Nat.dvd_trans (by decide) h
  refine ⟨?_, ?_, ?_⟩
  · rw [superBlock, entryHas_or h4 _ (by unfold IsFlags; decide)]
    decide
  · rw [superBlock, entryHas_or h4 _ (by unfold IsFlags; decide)]
    decide
  · exact entryAddr_or h4 (lt_trans hlt (by decide)) (by unfold IsFlags; decide)

/-- The frame such an entry leads to is that of the address itself. -/
theorem leafFrame_superBlock {w : Memory} {n p : Nat} (hp : p < 2 ^ 39) (hn : p / 2 ^ 21 = n) :
    leafFrame w (PAGE_OFFSET + p) (superBlock (n * PAGE_2M_SIZE)) = some (p / PAGE_4K_SIZE) := by
  have h2m : PAGE_2M_SIZE = 2 ^ 21 := by decide
  obtain ⟨h1, h2, h3⟩ := superBlock_spec
    (show PAGE_2M_SIZE ∣ n * PAGE_2M_SIZE from Nat.dvd_mul_left ..) (by rw [h2m]; omega)
  have hal : alignDown (2 ^ PAGE_2M_SHIFT) (n * PAGE_2M_SIZE) = n * 2 ^ 21 := by
    rw [h2m]
    exact congrArg (· * 2 ^ 21) (Nat.mul_div_cancel n (by decide))
  have hoff : (PAGE_OFFSET + p) % 2 ^ PAGE_2M_SHIFT = p % 2 ^ 21 := (direct_bits hp).2.2.2.2
  have hsplit : n * 2 ^ 21 + p % 2 ^ 21 = p := by rw [← hn]; exact Nat.div_add_mod' _ _
  unfold leafFrame
  rw [if_pos h1, if_pos h2, h3, hal, hoff, hsplit]
  rfl

/-! ## What a pass keeps -/

/-- The words of the image that are no words of the tables stay what they are, and so do the
addresses of the first 512 GiB that are mapped to themselves. -/
structure DirectStep (e r : Nat) (s s' : KMem) : Prop where
  layout : SameLayout s.mms s'.mms
  words : ∀ a, ImageWord e a → ¬ TableWord s.word r a →
    ¬ TableWord s'.word r a ∧ s'.word a = s.word a
  frames : ∀ p < 2 ^ 39, frameAt s.word r p = some (p / PAGE_4K_SIZE) →
    frameAt s'.word r p = some (p / PAGE_4K_SIZE)

theorem DirectStep.refl (e r : Nat) (s : KMem) : DirectStep e r s s :=
  ⟨SameLayout.refl _, fun _ _ h => ⟨h, rfl⟩, fun _ _ h => h⟩

theorem DirectStep.trans {e r : Nat} {s s₁ s₂ : KMem} (h : DirectStep e r s s₁)
    (h' : DirectStep e r s₁ s₂) : DirectStep e r s s₂ := by
  refine ⟨h.layout.trans h'.layout, fun a ha hn => ?_, fun p hp hf => h'.frames p hp (h.frames p hp hf)⟩
  obtain ⟨h1, h2⟩ := h.words a ha hn
  obtain ⟨h3, h4⟩ := h'.words a ha h1
  exact ⟨h3, h4.trans h2⟩

/-- The tables that are missing below entry 256 of the table at `r`. -/
def directMissing (w : Memory) (r : Nat) : Nat :=
  match namedTable (w (r + 256)) with
  | none => 513
  | some P => ((Finset.range 512).filter (fun g => w (P + g) = 0)).card

theorem directMissing_of_slot {w : Memory} {r P : Nat} (h : namedTable (w (r + 256)) = some P) :
    directMissing w r = ((Finset.range 512).filter (fun g => w (P + g) = 0)).card := by
  rw [directMissing, h]

theorem directMissing_ne_zero {w : Memory} {r P g : Nat} (h : namedTable (w (r + 256)) = some P)
    (hg : g < 512) (hz : w (P + g) = 0) : directMissing w r ≠ 0 := by
  rw [directMissing_of_slot h]
  exact Finset.card_ne_zero_of_mem (Finset.mem_filter.mpr ⟨Finset.mem_range.mpr hg, hz⟩)

/-- **The heap while tables may be missing**: the words of the tables lie in the image or in pages
of `kmalloc`, the class of pages has an object for every missing table but `extra`, and there is one for the
header of a slab. -/
structure DirectHeap (m₀ : MMS) (pool : Nat → Slab) (e r extra : Nat) (s : KMem) (objs : List Obj) :
    Prop where
  heap : HeapInv m₀ pool s (fun _ => 0) objs
  words : ∀ a, TableWord s.word r a → ImageWord e a ∨ ∃ t, PageObj objs t ∧ t ≤ a ∧ a < t + 512
  tables : s.word (r + 256) = 0 ∨ ∃ P, DirectTables s.word r P
  room : directMissing s.word r ≤ (s.cache 7).totalFree + extra
  header : (s.cache 2).totalFree ≠ 0

/-- No table is missing. -/
def DirectDone (r : Nat) (s : KMem) : Prop :=
  ∃ P, DirectTables s.word r P ∧ ∀ g < 512, s.word (P + g) ≠ 0

/-- What holds between two passes. -/
def DirectState (m₀ : MMS) (pool : Nat → Slab) (e r extra : Nat) (s : KMem) : Prop :=
  (∃ objs, DirectHeap m₀ pool e r extra s objs) ∨ DirectDone r s

/-- The page `u` has become the table that the entry at word `x` names. -/
structure FreshTable (e r : Nat) (s : KMem) (x u : Nat) (s' : KMem) : Prop where
  page : DirectPage u
  fresh : ∀ j < 512, ¬ TableWord s.word r (u + j) ∧ ¬ ImageWord e (u + j)
  entry : s'.word x = superTable u
  zero : ∀ j < 512, s'.word (u + j) = 0
  old : ∀ b, TableWord s.word r b → b ≠ x → s'.word b = s.word b
  image : ∀ a, ImageWord e a → a ≠ x → s'.word a = s.word a
  layout : SameLayout s.mms s'.mms

section

variable {m₀ : MMS} {pool : Nat → Slab} {s s' : KMem} {objs : List Obj} {e r extra x u P : Nat}

/-- The memory after the page is cleared and the entry written. -/
theorem table_word (s₁ : KMem) (x u a : Nat) : ((s₁.clear (8 * u) PAGE_4K_SIZE).write (8 * x)
    (superTable u)).word a
      = if a = x then superTable u else if u ≤ a ∧ a < u + 512 then 0 else s₁.word a := by
  show Function.update (fill s₁.word (8 * u / 8) (PAGE_4K_SIZE / 8) 0) (8 * x / 8) (superTable u) a = _
  rw [Nat.mul_div_cancel_left _ (by decide), Nat.mul_div_cancel_left _ (by decide),
    Function.update_apply]
  rfl

/-- The words of the tables are no words of a bitmap, and no words of a page just handed out. -/
theorem DirectHeap.not_mapWord (hi : ImageBelow m₀ pool e) (hp : PoolLayout m₀ pool)
    (h : DirectHeap m₀ pool e r extra s objs) {a : Nat} (ha : TableWord s.word r a) :
    ¬ s.MapWord a := by
  rcases h.words a ha with himg | ⟨t, ht, h1, h2⟩
  · exact hi.not_mapWord hp h.heap himg
  · have := h.heap.not_mapWord hp ht (PageObj.has (i := a - t) (by omega))
    rwa [Nat.add_sub_cancel' h1] at this

/-- **A table from a free object** of the class of pages. -/
theorem DirectHeap.take (hd : DirectMap m₀ pool) (hi : ImageBelow m₀ pool e)
    (h : DirectHeap m₀ pool e r extra s objs) (hx : TableWord s.word r x)
    (hf : (s.cache 7).totalFree ≠ 0) :
    ∃ s₁ u, kmalloc s PAGE_4K_SIZE = some (s₁, some (8 * u)) ∧
      FreshTable e r s x u ((s₁.clear (8 * u) PAGE_4K_SIZE).write (8 * x) (superTable u)) ∧
      HeapInv m₀ pool ((s₁.clear (8 * u) PAGE_4K_SIZE).write (8 * x) (superTable u)) (fun _ => 0)
        (⟨8 * u, PAGE_4K_SIZE⟩ :: objs) ∧
      (s₁.cache 7).totalFree + 1 = (s.cache 7).totalFree ∧ s₁.cache 2 = s.cache 2 := by
  have hp := hd.toPoolLayout
  obtain ⟨s₁, q, he, h₁, hm, hsh, hfree, hothers, hfr⟩ := kmalloc_page_free hp h.heap hf
  obtain ⟨u, rfl⟩ : ∃ u, q = 8 * u := by
    have := (h₁.page_bounds hd List.mem_cons_self rfl).1
    dsimp only at this
    unfold PAGE_4K_SIZE PAGE_4K_SHIFT at this
    exact ⟨q / 8, by omega⟩
  have hu : PageObj (⟨8 * u, PAGE_4K_SIZE⟩ :: objs) u := List.mem_cons_self
  have himg : ∀ j < 512, ¬ ImageWord e (u + j) := fun j hj ha =>
    hi.not_object hp h₁ ha hu (PageObj.has hj)
  have hfresh : ∀ j < 512, ¬ TableWord s.word r (u + j) := by
    intro j hj ha
    rcases h.words _ ha with ha | ⟨t, ht, h1, h2⟩
    · exact himg j hj ha
    · -- the page would be one handed out before
      have htu := h₁.sep hp t u (List.mem_cons_of_mem _ ht) hu (u + j - t)
        (show u + j - t < 512 by omega) j hj (by omega)
      have hnd := h₁.nodup
      rw [List.map_cons, List.nodup_cons] at hnd
      exact hnd.1 (List.mem_map_of_mem (htu ▸ ht))
  have hmap : ∀ a, s₁.MapWord a → s.MapWord a := by
    intro a ha
    unfold KMem.MapWord at ha ⊢
    rwa [hsh] at ha
  have hnu : ∀ a, u ≤ a ∧ a < u + 512 → ∃ j < 512, a = u + j := fun a ha => ⟨a - u, by omega, by omega⟩
  refine ⟨s₁, u, he, ⟨h₁.directPage hd hu, fun j hj => ⟨hfresh j hj, himg j hj⟩, ?_, fun j hj => ?_,
    fun b hb hbx => ?_, fun a ha hax => ?_, ?_⟩, h₁.setWord (fun a ha => ?_), ?_, hothers 2 (by decide)⟩
  · rw [table_word, if_pos rfl]
  · rw [table_word, if_neg, if_pos ⟨by omega, by omega⟩]
    rintro rfl
    exact hfresh j hj hx
  · rw [table_word, if_neg hbx, if_neg, hfr b (h.not_mapWord hi hp hb)]
    intro hin
    obtain ⟨j, hj, rfl⟩ := hnu b hin
    exact hfresh j hj hb
  · rw [table_word, if_neg hax, if_neg, hfr a (hi.not_mapWord hp h.heap ha)]
    intro hin
    obtain ⟨j, hj, rfl⟩ := hnu a hin
    exact himg j hj ha
  · show SameLayout s.mms s₁.mms
    rw [hm]
    exact SameLayout.refl _
  · show ((s₁.clear (8 * u) PAGE_4K_SIZE).write (8 * x) (superTable u)).word a = s₁.word a
    rw [table_word, if_neg, if_neg]
    · intro hin
      obtain ⟨j, hj, rfl⟩ := hnu a hin
      exact h₁.not_mapWord hp hu (PageObj.has hj) ha
    · rintro rfl
      exact h.not_mapWord hi hp hx (hmap a ha)
  · omega

/-- **A table by growing** the class of pages: the heap is harmed, the tables are not. -/
theorem DirectHeap.grow (hd : DirectMap m₀ pool) (hi : ImageBelow m₀ pool e)
    (h : DirectHeap m₀ pool e r extra s objs) (hx : TableWord s.word r x) {s₁ : KMem}
    (hg : GrownOnto m₀ s (fun _ => 0) s₁ u) :
    FreshTable e r s x u ((s₁.clear (8 * u) PAGE_4K_SIZE).write (8 * x) (superTable u)) := by
  have hp := hd.toPoolLayout
  have himgHeld : ∀ a, ImageWord e a → HeldFrame m₀ s (fun _ => 0) (wordFrame a) := fun a ha =>
    Or.inl (Or.inl (hi.frames a ha))
  have hheld : ∀ a, TableWord s.word r a → HeldFrame m₀ s (fun _ => 0) (wordFrame a) := by
    intro a ha
    rcases h.words a ha with himg | ⟨t, ht, h1, h2⟩
    · exact himgHeld a himg
    · have hhas := PageObj.has (t := t) (i := a - t) (by omega)
      rw [Nat.add_sub_cancel' h1] at hhas
      exact Or.inl (h.heap.frame_of_object hp ht hhas)
  have hin : ∀ a, HeldFrame m₀ s (fun _ => 0) (wordFrame a) → ¬ (u ≤ a ∧ a < u + 512) :=
    fun a ha hin => hg.apart a hin.1 (by omega) ha
  refine ⟨by simpa using hg.direct 0 (by decide), fun j hj => ⟨fun ha => ?_, fun ha => ?_⟩, ?_,
    fun j hj => ?_, fun b hb hbx => ?_, fun a ha hax => ?_, hg.layout⟩
  · exact hin _ (hheld _ ha) ⟨by omega, by omega⟩
  · exact hin _ (himgHeld _ ha) ⟨by omega, by omega⟩
  · rw [table_word, if_pos rfl]
  · rw [table_word, if_neg, if_pos ⟨by omega, by omega⟩]
    rintro rfl
    exact hin _ (hheld _ hx) ⟨by omega, by omega⟩
  · rw [table_word, if_neg hbx, if_neg (hin b (hheld b hb)),
      hg.word b (h.not_mapWord hi hp hb) (hheld b hb)]
  · rw [table_word, if_neg hax, if_neg (hin a (himgHeld a ha)),
      hg.word a (hi.not_mapWord hp h.heap ha) (himgHeld a ha)]

/-- The words of the image outside the tables, when a table has been added. -/
theorem FreshTable.words (hf : FreshTable e r s x u s') (hx : TableWord s.word r x)
    (hw : ∀ b, TableWord s'.word r b → TableWord s.word r b ∨ ∃ j < 512, b = u + j) :
    ∀ a, ImageWord e a → ¬ TableWord s.word r a → ¬ TableWord s'.word r a ∧ s'.word a = s.word a := by
  intro a ha hn
  refine ⟨fun hc => ?_, hf.image a ha (fun he => hn (he ▸ hx))⟩
  rcases hw a hc with hc | ⟨j, hj, rfl⟩
  · exact hn hc
  · exact (hf.fresh j hj).2 ha

/-- **A fresh upper table.** -/
theorem FreshTable.top (hf : FreshTable e r s (r + 256) u s') (hz : s.word (r + 256) = 0) :
    DirectTables s'.word r u ∧ DirectStep e r s s' ∧ directMissing s'.word r = 512 ∧
      ∀ b, TableWord s'.word r b → TableWord s.word r b ∨ ∃ j < 512, b = u + j := by
  obtain ⟨htab, hwords, hnone⟩ := DirectTables.top hz hf.page
    (fun j hj hc => (hf.fresh j hj).1 (Or.inl hc.symm))
    (show namedTable (s'.word (r + 256)) = some u by
      rw [hf.entry]
      exact namedTable_superTable hf.page)
    hf.zero
  have hw : ∀ b, TableWord s'.word r b → TableWord s.word r b ∨ ∃ j < 512, b = u + j :=
    fun b hb => (hwords b hb).imp_left Or.inl
  refine ⟨htab, ⟨hf.layout, hf.words (Or.inl rfl) hw, fun p hp hfr => ?_⟩, ?_, hw⟩
  · rw [hnone p hp] at hfr
    exact absurd hfr (by simp)
  · rw [directMissing_of_slot htab.slot, Finset.filter_true_of_mem, Finset.card_range]
    intro g hg
    exact hf.zero g (Finset.mem_range.mp hg)

/-- **A fresh table for gigabyte `g`.** -/
theorem FreshTable.link {g : Nat} (h : DirectTables s.word r P) (hg : g < 512)
    (hz : s.word (P + g) = 0) (hf : FreshTable e r s (P + g) u s') :
    DirectTables s'.word r P ∧ DirectStep e r s s' ∧
      directMissing s'.word r + 1 = directMissing s.word r ∧
      (∀ b, TableWord s'.word r b → TableWord s.word r b ∨ ∃ j < 512, b = u + j) ∧
      s'.word (P + g) ≠ 0 ∧ ∀ g' < 512, g' ≠ g → s'.word (P + g') = s.word (P + g') := by
  have hx : ∀ g' < 512, TableWord s.word r (P + g') := fun g' hg' =>
    Or.inr ⟨P, h.slot, Or.inl ⟨0, by decide, 0, P, direct_node_zero 0, g', hg', rfl⟩⟩
  have hat : namedTable (s'.word (P + g)) = some u := by
    rw [hf.entry]
    exact namedTable_superTable hf.page
  obtain ⟨htab, hw, hframe⟩ := h.link hg hz hf.page (fun j hj => (hf.fresh j hj).1) hat
    hf.zero hf.old
  have hne : s'.word (P + g) ≠ 0 := by
    intro hc
    rw [hc] at hat
    exact absurd hat (by simp [namedTable, entryHas])
  have hother : ∀ g' < 512, g' ≠ g → s'.word (P + g') = s.word (P + g') := fun g' hg' hgg =>
    hf.old _ (hx g' hg') (by omega)
  refine ⟨htab, ⟨hf.layout, hf.words (hx g hg) hw, fun p hp hfr => ?_⟩, ?_, hw, hne, hother⟩
  · rw [hframe p hp]
    exact hfr
  · rw [directMissing_of_slot htab.slot, directMissing_of_slot h.slot]
    have hmem : g ∈ (Finset.range 512).filter (fun g => s.word (P + g) = 0) :=
      Finset.mem_filter.mpr ⟨Finset.mem_range.mpr hg, hz⟩
    have herase : (Finset.range 512).filter (fun g => s'.word (P + g) = 0)
        = ((Finset.range 512).filter (fun g => s.word (P + g) = 0)).erase g := by
      ext g'
      simp only [Finset.mem_filter, Finset.mem_range, Finset.mem_erase]
      constructor
      · rintro ⟨hg', h0⟩
        have hgg : g' ≠ g := by
          rintro rfl
          exact hne h0
        exact ⟨hgg, hg', by rw [← hother g' hg' hgg]; exact h0⟩
      · rintro ⟨hgg, hg', h0⟩
        exact ⟨hg', by rw [hother g' hg' hgg]; exact h0⟩
    rw [herase]
    exact Finset.card_erase_add_one hmem

/-! ## The tables a pass asks for -/

/-- The heap after a table has come from a free object. -/
theorem DirectHeap.taken (h : DirectHeap m₀ pool e r extra s objs) {s₁ : KMem} {b : BitVec 64}
    (hheap : HeapInv m₀ pool ((s₁.clear (8 * u) PAGE_4K_SIZE).write (8 * x) b) (fun _ => 0)
      (⟨8 * u, PAGE_4K_SIZE⟩ :: objs))
    (hfree : (s₁.cache 7).totalFree + 1 = (s.cache 7).totalFree) (h2 : s₁.cache 2 = s.cache 2)
    (htab : DirectTables ((s₁.clear (8 * u) PAGE_4K_SIZE).write (8 * x) b).word r P)
    (hmiss : directMissing ((s₁.clear (8 * u) PAGE_4K_SIZE).write (8 * x) b).word r + 1
      = directMissing s.word r)
    (hw : ∀ a, TableWord ((s₁.clear (8 * u) PAGE_4K_SIZE).write (8 * x) b).word r a →
      TableWord s.word r a ∨ ∃ j < 512, a = u + j) :
    DirectHeap m₀ pool e r extra ((s₁.clear (8 * u) PAGE_4K_SIZE).write (8 * x) b)
      (⟨8 * u, PAGE_4K_SIZE⟩ :: objs) := by
  refine ⟨hheap, fun a ha => ?_, Or.inr ⟨P, htab⟩, ?_, ?_⟩
  · rcases hw a ha with ha | ⟨j, hj, rfl⟩
    · rcases h.words a ha with himg | ⟨t, ht, hin⟩
      · exact Or.inl himg
      · exact Or.inr ⟨t, List.mem_cons_of_mem _ ht, hin⟩
    · exact Or.inr ⟨u, List.mem_cons_self, by omega, by omega⟩
  · show _ ≤ (s₁.cache 7).totalFree + extra
    have := h.room
    omega
  · show (s₁.cache 2).totalFree ≠ 0
    rw [h2]
    exact h.header

/-- The upper table is there, or can always be made. -/
theorem DirectState.makeTop (hd : DirectMap m₀ pool) (hi : ImageBelow m₀ pool e) (hex : extra ≤ 1)
    (h : DirectState m₀ pool e r extra s) :
    ∃ s' P, makeDirectTable s (8 * r + 256 * 8) = some (s', true) ∧
      DirectState m₀ pool e r extra s' ∧ DirectStep e r s s' ∧ DirectTables s'.word r P := by
  by_cases hz : s.word (r + 256) = 0
  · have hmake : makeDirectTable s (8 * r + 256 * 8) = _ := if_pos (by rw [entry_word]; exact hz)
    rcases h with ⟨objs, h⟩ | ⟨P, htab, -⟩
    · have hmiss : directMissing s.word r = 513 := by rw [directMissing, hz]; rfl
      have hroom := h.room
      obtain ⟨s₁, u, he, hfresh, hheap, hfree, h2⟩ := h.take hd hi (x := r + 256) (Or.inl rfl) (by omega)
      obtain ⟨htab, hstep, hmiss', hw⟩ := hfresh.top hz
      refine ⟨_, u, ?_, Or.inl ⟨_, h.taken hheap hfree h2 htab (by omega) hw⟩, hstep, htab⟩
      rw [hmake, he, show 8 * r + 256 * 8 = 8 * (r + 256) by omega]
      rfl
    · have := htab.slot
      rw [hz] at this
      exact absurd this (by simp [namedTable, entryHas])
  · have hmake : makeDirectTable s (8 * r + 256 * 8) = some (s, true) :=
      if_neg (by rw [entry_word]; exact hz)
    rcases h with ⟨objs, h⟩ | ⟨P, htab, hall⟩
    · obtain ⟨P, htab⟩ := h.tables.resolve_left hz
      exact ⟨s, P, hmake, Or.inl ⟨objs, h⟩, DirectStep.refl e r s, htab⟩
    · exact ⟨s, P, hmake, Or.inr ⟨P, htab, hall⟩, DirectStep.refl e r s, htab⟩

/-- The table of gigabyte `g` is there, or can be made, or `kmalloc` has no page for the last one. -/
theorem DirectState.makeLower (hd : DirectMap m₀ pool) (hi : ImageBelow m₀ pool e)
    (hex : extra ≤ 1) (h : DirectState m₀ pool e r extra s)
    (ht : DirectTables s.word r P) {g : Nat} (hg : g < 512) :
    ∃ s' made, makeDirectTable s (8 * P + g * 8) = some (s', made) ∧
      DirectState m₀ pool e r extra s' ∧ DirectStep e r s s' ∧ DirectTables s'.word r P ∧
      (made = true → s'.word (P + g) ≠ 0) ∧ (extra = 0 → made = true) := by
  by_cases hz : s.word (P + g) = 0
  · have hmake : makeDirectTable s (8 * P + g * 8) = _ := if_pos (by rw [entry_word]; exact hz)
    have hx : TableWord s.word r (P + g) :=
      Or.inr ⟨P, ht.slot, Or.inl ⟨0, by decide, 0, P, direct_node_zero 0, g, hg, rfl⟩⟩
    rcases h with ⟨objs, h⟩ | ⟨P', htab, hall⟩
    · have hmiss := directMissing_ne_zero ht.slot hg hz
      by_cases hf : (s.cache 7).totalFree = 0
      · have hroom := h.room
        by_cases hblock : ∃ mms page, allocPage s.mms ZONE_NORMAL_INDEX 1 0 = some (mms, some page)
        · -- the class grows, and this is the last table
          obtain ⟨m', page, ha⟩ := hblock
          rcases h.heap.kmalloc_grows hd hf ha with ⟨-, hno⟩ | ⟨s₁, u, he, -, hgrown⟩
          · exact absurd ⟨m', page, ha, Or.inl h.header⟩ hno
          · have hfresh := h.grow hd hi hx hgrown
            obtain ⟨htab, hstep, hmiss', -, hne, hother⟩ := hfresh.link ht hg hz
            refine ⟨_, true, ?_, Or.inr ⟨P, htab, fun g' hg' hc => ?_⟩, hstep, htab, fun _ => hne,
              fun _ => rfl⟩
            · rw [hmake, he, show 8 * P + g * 8 = 8 * (P + g) by omega]
              rfl
            · have := directMissing_ne_zero htab.slot hg' hc
              omega
        · refine ⟨s, false, ?_, Or.inl ⟨objs, h⟩, DirectStep.refl e r s, ht,
            fun hc => absurd hc (by decide), fun h0 => by omega⟩
          rw [hmake, kmalloc_page_null h.heap hf (fun mms page he => hblock ⟨mms, page, he⟩)]
      · obtain ⟨s₁, u, he, hfresh, hheap, hfree, h2⟩ := h.take hd hi hx hf
        obtain ⟨htab, hstep, hmiss', hw, hne, -⟩ := hfresh.link ht hg hz
        refine ⟨_, true, ?_, Or.inl ⟨_, h.taken hheap hfree h2 htab hmiss' hw⟩, hstep, htab,
          fun _ => hne, fun _ => rfl⟩
        rw [hmake, he, show 8 * P + g * 8 = 8 * (P + g) by omega]
        rfl
    · obtain rfl : P = P' := Option.some.inj (ht.slot.symm.trans htab.slot)
      exact absurd hz (hall g hg)
  · exact ⟨s, true, if_neg (by rw [entry_word]; exact hz), h, DirectStep.refl e r s, ht, fun _ => hz,
      fun _ => rfl⟩

/-- **The entry of block `n` is written.** -/
theorem DirectState.setBlock (hi : ImageBelow m₀ pool e) (hp : PoolLayout m₀ pool)
    (h : DirectState m₀ pool e r extra s) (ht : DirectTables s.word r P) {n a : Nat}
    (hn : n < 2 ^ 18) (ha : directTree.slot s.word P n = some a) :
    DirectState m₀ pool e r extra (s.write (8 * a) (superBlock (n * PAGE_2M_SIZE))) ∧
      DirectStep e r s (s.write (8 * a) (superBlock (n * PAGE_2M_SIZE))) ∧
      ∀ p < 2 ^ 39, p / 2 ^ 21 = n →
        frameAt (s.write (8 * a) (superBlock (n * PAGE_2M_SIZE))).word r p
          = some (p / PAGE_4K_SIZE) := by
  set b := superBlock (n * PAGE_2M_SIZE) with hb
  have hword : (s.write (8 * a) b).word = Function.update s.word a b := by
    rw [KMem.write, Nat.mul_div_cancel_left _ (by decide)]
  have h2m : PAGE_2M_SIZE = 2 ^ 21 := by decide
  have hnamed : namedTable b = none := by
    have hps := (superBlock_spec
      (show PAGE_2M_SIZE ∣ n * PAGE_2M_SIZE from Nat.dvd_mul_left ..) (by rw [h2m]; omega)).2.1
    rw [namedTable, if_neg]
    rintro ⟨-, hc⟩
    rw [hb, hps] at hc
    exact absurd hc (by decide)
  obtain ⟨htab, hw, htop, hframe⟩ := ht.setBlock ha hnamed
  rw [← hword] at htab hw htop hframe
  obtain ⟨t, hta, hat⟩ := Tree.slot_eq_some.mp ha
  have hxa : TableWord s.word r a :=
    Or.inr ⟨P, ht.slot, Or.inl ⟨1, le_rfl, _, t, hta, _, Nat.mod_lt n (by decide), hat.symm⟩⟩
  refine ⟨?_, ⟨SameLayout.refl _, fun c hc hnc => ⟨fun hc' => hnc (hw c hc'), ?_⟩,
    fun p hp hfr => ?_⟩, fun p hp hpn => ?_⟩
  · rcases h with ⟨objs, h⟩ | ⟨P', htab', hall⟩
    · refine Or.inl ⟨objs, h.heap.setWord (fun c hc => ?_), fun c hc => h.words c (hw c hc),
        Or.inr ⟨P, htab⟩, ?_, h.header⟩
      · show (s.write (8 * a) b).word c = s.word c
        rw [hword]
        refine Function.update_of_ne (fun he => h.not_mapWord hi hp hxa ?_) ..
        rwa [he] at hc
      · have hroom := h.room
        rw [directMissing_of_slot ht.slot] at hroom
        rw [directMissing_of_slot htab.slot, Finset.filter_congr (fun g hg => by
          rw [htop g (Finset.mem_range.mp hg)])]
        exact hroom
    · obtain rfl : P = P' := Option.some.inj (ht.slot.symm.trans htab'.slot)
      exact Or.inr ⟨P, htab, fun g hg => by rw [htop g hg]; exact hall g hg⟩
  · rw [hword]
    refine Function.update_of_ne (fun he => hnc ?_) ..
    rwa [he]
  · rw [hframe p hp]
    split
    · exact leafFrame_superBlock hp (by assumption)
    · exact hfr
  · rw [hframe p hp, if_pos hpn]
    exact leafFrame_superBlock hp hpn

/-- **One pass of the inner loop.** -/
theorem DirectState.mapDirect (hd : DirectMap m₀ pool) (hi : ImageBelow m₀ pool e)
    (hex : extra ≤ 1) (h : DirectState m₀ pool e r extra s) {n : Nat}
    (hn : n < 2 ^ 18) :
    ∃ s' made, Talios.mapDirect (8 * r) (n * PAGE_2M_SIZE) s = some (s', made) ∧
      DirectState m₀ pool e r extra s' ∧ DirectStep e r s s' ∧
      (made = true → ∀ p < 2 ^ 39, p / 2 ^ 21 = n → frameAt s'.word r p = some (p / PAGE_4K_SIZE)) ∧
      (extra = 0 → made = true) := by
  have h2m : PAGE_2M_SIZE = 2 ^ 21 := by decide
  have hlt : n * PAGE_2M_SIZE < 2 ^ 39 := by rw [h2m]; omega
  have hadd : add64 PAGE_OFFSET (n * PAGE_2M_SIZE) = PAGE_OFFSET + n * PAGE_2M_SIZE :=
    add64_eq (by unfold PAGE_OFFSET; omega)
  obtain ⟨h1, h2, h3, -⟩ := direct_bits hlt
  have hg : n * PAGE_2M_SIZE / 2 ^ 30 = n / 512 := by rw [h2m]; omega
  have hj : n * PAGE_2M_SIZE / 2 ^ 21 % 512 = n % 512 := by rw [h2m]; omega
  have hg512 : n / 512 < 512 := by omega
  obtain ⟨s₁, P, hmk₁, hst₁, hs₁, ht₁⟩ := h.makeTop hd hi hex
  obtain ⟨s₂, made, hmk₂, hst₂, hs₂, ht₂, hne, hmade⟩ := hst₁.makeLower hd hi hex ht₁ hg512
  obtain ⟨-, hps, htab⟩ := namedTable_eq_some.mp ht₁.slot
  have hcall : Talios.mapDirect (8 * r) (n * PAGE_2M_SIZE) s
      = if made = false then some (s₂, false)
        else if s₂.word (P + n / 512) &&& PEA_PAGE_SIZE ≠ 0 then some (s₂, true)
        else some (s₂.write (tableFromEntry (s₂.word (P + n / 512)) + n % 512 * 8)
          (superBlock (n * PAGE_2M_SIZE)), true) := by
    unfold Talios.mapDirect
    simp only [hadd, h1, h2, h3, hg, hj, hmk₁, entry_word]
    rw [if_neg (by rw [entryHas_eq_false.mp hps]; simp), htab, hmk₂]
    simp only [entry_word]
    cases made <;> rfl
  cases made with
  | false =>
      exact ⟨s₂, false, hcall, hst₂, hs₁.trans hs₂, fun hc => absurd hc (by decide), hmade⟩
  | true =>
      rcases ht₂.entries _ hg512 with h0 | hgiga | ⟨q, hq⟩
      · exact absurd h0 (hne rfl)
      · -- the gigabyte is one page
        refine ⟨s₂, true, ?_, hst₂, hs₁.trans hs₂, fun _ p hp hpn => ?_, fun _ => rfl⟩
        · rw [hcall]
          refine if_pos (fun hc => ?_)
          have := hgiga.large
          rw [entryHas_eq_false.mpr hc] at this
          exact absurd this (by decide)
        · rw [ht₂.frameAt hp, if_pos]
          rw [show p / 2 ^ 30 = n / 512 by omega]
          exact hgiga.large
      · obtain ⟨-, hps', htab'⟩ := namedTable_eq_some.mp hq
        have hslot : directTree.slot s₂.word P n = some (q + n % 512) := by
          rw [direct_slot hn, hq]
          rfl
        obtain ⟨hst, hs, hfr⟩ := hst₂.setBlock hi hd.toPoolLayout ht₂ hn hslot
        refine ⟨_, true, ?_, hst, (hs₁.trans hs₂).trans hs, fun _ => hfr, fun _ => rfl⟩
        rw [hcall, if_neg (by decide), if_neg (by rw [entryHas_eq_false.mp hps']; simp), htab',
          show 8 * q + n % 512 * 8 = 8 * (q + n % 512) by omega]

end

/-! ## The loops -/

/-- **A loop whose passes keep `I` and `R`**: what a pass has done lasts, and the flag of the loop is
that of all its passes. -/
theorem eachOf_spec {α : Type} (body : α → KMem → Option (KMem × Bool)) {I : KMem → Prop}
    {R : KMem → KMem → Prop} {D : α → KMem → Prop} {Q : Prop} (hrefl : ∀ s, R s s)
    (htrans : ∀ s s₁ s₂, R s s₁ → R s₁ s₂ → R s s₂) (hmono : ∀ x s s', R s s' → D x s → D x s') :
    ∀ (xs : List α), (∀ x ∈ xs, ∀ s, I s → ∃ s' made, body x s = some (s', made) ∧ I s' ∧ R s s' ∧
        (made = true → D x s') ∧ (Q → made = true)) →
      ∀ s, I s → ∃ s' made, eachOf body xs s = some (s', made) ∧ I s' ∧ R s s' ∧
        (made = true → ∀ x ∈ xs, D x s') ∧ (Q → made = true)
  | [], _, s, hs => ⟨s, true, rfl, hs, hrefl s, fun _ x hx => absurd hx (by simp), fun _ => rfl⟩
  | x :: xs, hstep, s, hs => by
      obtain ⟨s₁, made₁, he₁, hs₁, hr₁, hd₁, hsure₁⟩ := hstep x List.mem_cons_self s hs
      obtain ⟨s₂, made₂, he₂, hs₂, hr₂, hd₂, hsure₂⟩ := eachOf_spec body hrefl htrans hmono xs
        (fun y hy => hstep y (List.mem_cons_of_mem x hy)) s₁ hs₁
      refine ⟨s₂, made₁ && made₂, ?_, hs₂, htrans s s₁ s₂ hr₁ hr₂, fun hm y hy => ?_, fun hsure => ?_⟩
      · rw [eachOf, he₁]
        dsimp only
        rw [he₂]
        rfl
      · rw [Bool.and_eq_true] at hm
        rcases List.mem_cons.mp hy with rfl | hy
        · exact hmono y s₁ s₂ hr₂ (hd₁ hm.1)
        · exact hd₂ hm.2 y hy
      · rw [hsure₁ hsure, hsure₂ hsure]
        rfl

/-- The inner loop goes over whole blocks, and over every block with an address of the zone. -/
theorem zoneBlocks_spec {zone : Zone} (hle : zone.zoneEndAddr ≤ 2 ^ 39) :
    (∀ x ∈ zoneBlocks zone, ∃ n < 2 ^ 18, x = n * PAGE_2M_SIZE) ∧
      ∀ p, zone.zoneStartAddr ≤ p → p < zone.zoneEndAddr →
        p / 2 ^ 21 * PAGE_2M_SIZE ∈ zoneBlocks zone := by
  have h2m : PAGE_2M_SIZE = 2 ^ 21 := by decide
  have hup : alignUp64 PAGE_2M_SIZE zone.zoneEndAddr
      = (zone.zoneEndAddr + (2 ^ 21 - 1)) / 2 ^ 21 * 2 ^ 21 := by
    unfold alignUp64
    rw [h2m, add64_eq (by omega)]
    rfl
  unfold zoneBlocks
  rw [hup, h2m]
  dsimp only [alignDown]
  refine ⟨fun x hx => ?_, fun p h1 h2 => ?_⟩
  · obtain ⟨i, hi, rfl⟩ := List.mem_range'.mp hx
    exact ⟨zone.zoneStartAddr / 2 ^ 21 + i, by omega, by omega⟩
  · exact List.mem_range'.mpr ⟨p / 2 ^ 21 - zone.zoneStartAddr / 2 ^ 21, by omega, by omega⟩

section

variable {m₀ : MMS} {pool : Nat → Slab} {s : KMem} {e r extra : Nat}

/-- The addresses of the zone below 512 GiB are mapped to themselves. -/
def ZoneMapped (r : Nat) (zone : Zone) (s : KMem) : Prop :=
  ∀ p < 2 ^ 39, zone.zoneStartAddr ≤ p → p < zone.zoneEndAddr →
    frameAt s.word r p = some (p / PAGE_4K_SIZE)

theorem ZoneMapped.mono {zone : Zone} {s' : KMem} (hs : DirectStep e r s s')
    (h : ZoneMapped r zone s) : ZoneMapped r zone s' :=
  fun p hp h1 h2 => hs.frames p hp (h p hp h1 h2)

/-- **The inner loop.** -/
theorem DirectState.zone (hd : DirectMap m₀ pool) (hi : ImageBelow m₀ pool e)
    (hex : extra ≤ 1) (h : DirectState m₀ pool e r extra s) {zone : Zone}
    (hle : zone.zoneEndAddr ≤ 2 ^ 39) :
    ∃ s' made, eachOf (Talios.mapDirect (8 * r)) (zoneBlocks zone) s = some (s', made) ∧
      DirectState m₀ pool e r extra s' ∧ DirectStep e r s s' ∧
      (made = true → ZoneMapped r zone s') ∧ (extra = 0 → made = true) := by
  obtain ⟨hblocks, hcover⟩ := zoneBlocks_spec hle
  obtain ⟨s', made, he, hs, hstep, hdone, hsure⟩ := eachOf_spec (Talios.mapDirect (8 * r))
    (I := DirectState m₀ pool e r extra) (R := DirectStep e r)
    (D := fun x s' => ∀ p < 2 ^ 39, p / 2 ^ 21 * PAGE_2M_SIZE = x →
      frameAt s'.word r p = some (p / PAGE_4K_SIZE))
    (DirectStep.refl e r) (fun _ _ _ => DirectStep.trans)
    (fun x s s' hss hx p hp hpx => hss.frames p hp (hx p hp hpx)) (zoneBlocks zone)
    (fun x hx s hs => by
      obtain ⟨n, hn, rfl⟩ := hblocks x hx
      obtain ⟨s', made, he, hs', hstep, hdone, hsure⟩ := hs.mapDirect hd hi hex hn
      exact ⟨s', made, he, hs', hstep, fun hm p hp hpx =>
        hdone hm p hp (Nat.eq_of_mul_eq_mul_right (by decide) hpx), hsure⟩) s h
  refine ⟨s', made, he, hs, hstep, fun hm p hp h1 h2 => ?_, hsure⟩
  exact hdone hm _ (hcover p h1 h2) p hp rfl

/-- **Both loops**, from a state that has room for the tables. -/
theorem DirectState.initPageTable (hd : DirectMap m₀ pool) (hi : ImageBelow m₀ pool e) {cr3 : Nat}
    (hex : extra ≤ 1) (h : DirectState m₀ pool e (pml4Word cr3) extra s)
    (hz : ∀ zi < s.mms.zonesCount, (s.mms.zone zi).zoneEndAddr ≤ 2 ^ 39) :
    ∃ s' made, Talios.initPageTable s cr3 = some (s', made) ∧
      DirectStep e (pml4Word cr3) s s' ∧
      (made = true → ∀ zi < s.mms.zonesCount, ZoneMapped (pml4Word cr3) (s.mms.zone zi) s') ∧
      (extra = 0 → made = true) := by
  obtain ⟨s', made, he, -, hstep, hdone, hsure⟩ := eachOf_spec
    (fun zi t => eachOf (Talios.mapDirect (8 * pml4Word cr3)) (zoneBlocks (t.mms.zone zi)) t)
    (I := fun t => DirectState m₀ pool e (pml4Word cr3) extra t ∧ SameLayout s.mms t.mms)
    (R := DirectStep e (pml4Word cr3)) (D := fun zi => ZoneMapped (pml4Word cr3) (s.mms.zone zi))
    (Q := extra = 0) (DirectStep.refl _ _) (fun _ _ _ => DirectStep.trans)
    (fun zi t t' htt hx => hx.mono htt) (List.range s.mms.zonesCount)
    (fun zi hzi t ht => by
      obtain ⟨ht, hl⟩ := ht
      -- the zones are those of the start
      obtain ⟨-, -, hstart, hstop⟩ := hl.zones zi
      have hle : (t.mms.zone zi).zoneEndAddr ≤ 2 ^ 39 := by
        rw [hstop]
        exact hz zi (List.mem_range.mp hzi)
      obtain ⟨t', made, he, ht', hstep, hmap, hsure⟩ := ht.zone hd hi hex hle
      refine ⟨t', made, he, ⟨ht', hl.trans hstep.layout⟩, hstep, fun hm => ?_, hsure⟩
      have := hmap hm
      unfold ZoneMapped at this ⊢
      rwa [hstart, hstop] at this) s ⟨h, SameLayout.refl _⟩
  refine ⟨s', made, ?_, hstep, fun hm zi hzi => hdone hm zi (List.mem_range.mpr hzi), hsure⟩
  rw [Talios.initPageTable, ← pml4Word_eq]
  exact he

end

/-! ## After `InitMemory` -/

/-- The kernel image lies below `MMS.EndStruct`. -/
theorem imageBelow_init (img : KernelImage) :
    ImageBelow (reservedMMS img.map (kernelReservations img.endStruct)) (cachePool img.endStruct)
      img.endStruct := by
  refine ⟨fun i _ => ?_, fun a ha => ?_⟩
  · calc img.endStruct = endStructAt img.endStruct 0 := rfl
      _ ≤ endStructAt img.endStruct i := endStructAt_mono _ (Nat.zero_le i)
      _ ≤ (cachePool img.endStruct i).addr := endStructAt_le_addr _ i
  · obtain ⟨h1, h2⟩ := ha
    have hup := img.upper
    refine kernelFrame_reservedMMS img.map (r := ⟨0, virtToPhy img.endStruct, KERNEL_ATTR⟩)
      List.mem_cons_self (Nat.zero_le _) ?_ ?_
    · show virtToPhy (8 * a) < virtToPhy img.endStruct
      unfold virtToPhy
      omega
    · show virtToPhy img.endStruct + PAGE_4K_SIZE ≤ 2 ^ 64
      unfold virtToPhy PAGE_OFFSET PAGE_4K_SIZE PAGE_4K_SHIFT at *
      omega

/-- **The tables `InitPageTable` finds**: those of the direct map of the first 512 GiB lie in the
image, which ends at `e`, and map nothing wrongly; what lies above 512 GiB is translated by other
words of the image. -/
structure BootTables (e : Nat) (w : Memory) (cr3 : Nat) : Prop where
  words : ∀ a, TableWord w (pml4Word cr3) a → ImageWord e a
  tables : w (pml4Word cr3 + 256) = 0 ∨ ∃ P, DirectTables w (pml4Word cr3) P
  others : ∀ p, 2 ^ 39 ≤ p → p < 2 ^ 47 → ∀ a ∈ wordsRead w cr3 (PAGE_OFFSET + p),
    ImageWord e a ∧ ¬ TableWord w (pml4Word cr3) a

theorem BootTables.state (img : KernelImage) {s : KMem} (hs : initMemory img = some s) {cr3 : Nat}
    (h : BootTables img.endStruct s.word cr3) :
    DirectState (reservedMMS img.map (kernelReservations img.endStruct)) (cachePool img.endStruct)
      img.endStruct (pml4Word cr3) (if s.word (pml4Word cr3 + 256) = 0 then 1 else 0) s := by
  obtain ⟨mem, he, hinv⟩ := initMemory_spec img
  obtain rfl := Option.some.inj (he.symm.trans hs)
  obtain ⟨m, -, hmem⟩ := Option.map_eq_some_iff.mp he
  have h7 : (mem.cache 7).totalFree = 512 := by
    rw [← hmem]
    show PAGE_2M_SIZE / kmallocSize 7 = 512
    decide
  have h2 : (mem.cache 2).totalFree ≠ 0 := by
    rw [← hmem]
    show PAGE_2M_SIZE / kmallocSize 2 ≠ 0
    decide
  refine Or.inl ⟨[], hinv, fun a ha => Or.inl (h.words a ha), h.tables, ?_, h2⟩
  rw [h7]
  rcases h.tables with h0 | ⟨P, htab⟩
  · have hnone : namedTable 0 = none := by decide
    rw [if_pos h0, directMissing, h0, hnone]
  · rw [directMissing_of_slot htab.slot]
    exact ((Finset.card_filter_le _ _).trans (Finset.card_range 512).le).trans (Nat.le_add_right _ _)

/-- **The direct map after `InitPageTable`**: it has every address of every zone unless `kmalloc` has
failed, which it does not where the processor has a table for the first 512 GiB; and it keeps every
address it had. -/
theorem initPageTable_directMap (img : KernelImage) {s : KMem} (hs : initMemory img = some s)
    {cr3 : Nat} (hz : ∀ zi < s.mms.zonesCount, (s.mms.zone zi).zoneEndAddr ≤ 2 ^ 39)
    (ht : BootTables img.endStruct s.word cr3) :
    ∃ s' made, initPageTable s cr3 = some (s', made) ∧
      (made = true → ∀ zi < s.mms.zonesCount, ∀ p, (s.mms.zone zi).zoneStartAddr ≤ p →
        p < (s.mms.zone zi).zoneEndAddr → DirectAt s'.word cr3 p) ∧
      (∀ p < 2 ^ 47, DirectAt s.word cr3 p → DirectAt s'.word cr3 p) ∧
      (s.word (pml4Word cr3 + 256) ≠ 0 → made = true) := by
  obtain ⟨s', made, he, hstep, hdone, hsure⟩ := (ht.state img hs).initPageTable (directMap_init img)
    (imageBelow_init img) (by split <;> decide) hz
  refine ⟨s', made, he, fun hm zi hzi p h1 h2 => ?_, fun p hp hat => ?_, fun hne => ?_⟩
  · have hend := hz zi hzi
    exact directAt_iff.mpr (hdone hm zi hzi p (by omega) h1 h2)
  · by_cases hlow : p < 2 ^ 39
    · exact directAt_iff.mpr (hstep.frames p hlow (directAt_iff.mp hat))
    · -- above 512 GiB the processor reads words that have not been written
      have hsame := @physAddr_congr _ s'.word cr3 (PAGE_OFFSET + p)
        (fun a ha => by
          obtain ⟨himg, hno⟩ := ht.others p (by omega) hp a ha
          exact (hstep.words a himg hno).2)
      rw [DirectAt, hsame]
      exact hat
  · exact hsure (if_neg hne)

/-! ## The tables of `head.S` -/

/-- The first word of page `k` of physical memory. -/
def pageWord (k : Nat) : Nat := PAGE_OFFSET / 8 + k * 512

/-- Entry `i` of the table in page `k`: `__PML4E` at `0x101000`, then `__PDPTE`, `__PDE` and the two
tables of the frame buffer. -/
def headTable : Nat → Nat → BitVec 64
  | 0x101, i => if i = 0 ∨ i = 256 then 0x102007 else if i = 257 then 0x104007 else 0
  | 0x102, i => if i = 0 then 0x103007 else 0
  | 0x103, i => BitVec.ofNat 64 (i * PAGE_2M_SIZE) ||| 0x87
  | 0x104, i => if i = 0 then 0x105007 else 0
  | 0x105, i => if i < 7 then BitVec.ofNat 64 (0xe0000000 + i * PAGE_2M_SIZE) ||| 0x87 else 0
  | _, _ => 0

/-- The memory with the tables of `head.S`. -/
def headWord (a : Nat) : BitVec 64 := headTable (a / 512 - PAGE_OFFSET / 4096) (a % 512)

/-- A kernel image with these tables. -/
def headImage : KernelImage := { exampleImage with word := headWord }

theorem headWord_at (k : Nat) {i : Nat} (hi : i < 512) :
    headWord (pageWord k + i) = headTable k i := by
  have hpage : (pageWord k + i) / 512 - PAGE_OFFSET / 4096 = k := by
    unfold pageWord PAGE_OFFSET
    omega
  have hidx : (pageWord k + i) % 512 = i := by
    unfold pageWord PAGE_OFFSET
    omega
  rw [headWord, hpage, hidx]

/-- Clearing the bitmaps of the heap leaves the image alone. -/
theorem initWord_image (img : KernelImage) {a : Nat} (ha : 8 * a < img.endStruct) :
    initWord img a = img.word a := by
  have key : ∀ (l : List Nat) (w : Memory), l.foldl (fun w i =>
      fill w ((initHeader img.endStruct i).colorMap / 8) (initHeader img.endStruct i).colorLength 0) w a
        = w a := by
    intro l
    induction l with
    | nil => exact fun w => rfl
    | cons i l ih =>
        intro w
        rw [List.foldl_cons, ih, fill, if_neg]
        have h1 : img.endStruct ≤ (initHeader img.endStruct i).addr :=
          (endStructAt_mono _ (Nat.zero_le i)).trans (endStructAt_le_addr _ i)
        have h2 : (initHeader img.endStruct i).colorMap
            = (initHeader img.endStruct i).addr + SLAB_STRUCT_SIZE := rfl
        unfold SLAB_STRUCT_SIZE at h2
        omega
  exact key _ _

section

variable {w : Memory} {k i : Nat}

theorem directPage_pageWord (hk : k < 2 ^ 35) : DirectPage (pageWord k) := by
  unfold pageWord
  refine ⟨?_, ?_, ?_⟩
  · unfold PAGE_OFFSET PAGE_4K_SIZE PAGE_4K_SHIFT
    omega
  · unfold PAGE_OFFSET
    omega
  · unfold PAGE_OFFSET
    omega

/-- Pages of different numbers have no word in common. -/
theorem pageWord_ne {k k' i i' : Nat} (h : k ≠ k') (hi : i < 512) (hi' : i' < 512) :
    pageWord k + i ≠ pageWord k' + i' := by
  unfold pageWord
  omega

/-- The first 512 pages lie in the image. -/
theorem imageWord_pageWord (hk : k < 512) (hi : i < 512) :
    ImageWord headImage.endStruct (pageWord k + i) := by
  show PAGE_OFFSET ≤ 8 * (pageWord k + i) ∧ 8 * (pageWord k + i) < PAGE_OFFSET + 0x200000
  unfold pageWord PAGE_OFFSET
  omega

/-- The memory has the tables of `head.S`. -/
def HasHead (w : Memory) : Prop := ∀ k < 512, ∀ i < 512, w (pageWord k + i) = headTable k i

theorem HasHead.named (hw : HasHead w) {g : Nat} (hg : g < 512) :
    namedTable (w (pageWord 0x102 + g)) = if g = 0 then some (pageWord 0x103) else none := by
  rw [hw _ (by decide) g hg]
  show namedTable (if g = 0 then 0x103007 else 0) = _
  split <;> decide

/-- The nodes of the tree are `__PDPTE` and `__PDE`. -/
theorem HasHead.node_cases (hw : HasHead w) {l k t : Nat} (hl : l ≤ 1)
    (h : directTree.node w (pageWord 0x102) l k = some t) :
    (l = 0 ∧ k = 0 ∧ t = pageWord 0x102) ∨ (l = 1 ∧ k = 0 ∧ t = pageWord 0x103) := by
  rcases direct_node_cases hl h with h | ⟨hl1, hk, ht⟩
  · exact Or.inl h
  · rw [hw.named hk] at ht
    split at ht
    · exact Or.inr ⟨hl1, by assumption, (Option.some.inj ht).symm⟩
    · exact absurd ht (by simp)

/-- The entries for blocks name no tables. -/
theorem HasHead.leaf (hw : HasHead w) {n : Nat} (hn : n < 2 ^ 18) :
    namedTable (directTree.leaf w (pageWord 0x102) n) = none := by
  by_cases h0 : n / 512 = 0
  · have hn' : n < 512 := by omega
    rw [direct_leaf hn (q := pageWord 0x103) (by rw [hw.named (by omega), if_pos h0]),
      hw _ (by decide) _ (by omega)]
    have h4 : PAGE_4K_SIZE ∣ n % 512 * PAGE_2M_SIZE := Dvd.dvd.mul_left (by decide) _
    rw [namedTable, if_neg]
    rintro ⟨-, hc⟩
    have hps : entryHas (headTable 0x103 (n % 512)) PEA_PAGE_SIZE = true := by
      show entryHas (BitVec.ofNat 64 (n % 512 * PAGE_2M_SIZE) ||| 0x87) PEA_PAGE_SIZE = true
      rw [entryHas_or h4 _ (by unfold IsFlags; decide)]
      decide
    rw [hps] at hc
    exact absurd hc (by decide)
  · rw [direct_leaf_none hn (by rw [hw.named (by omega), if_neg h0])]
    decide

theorem HasHead.slot (hw : HasHead w) :
    namedTable (w (pageWord 0x101 + 256)) = some (pageWord 0x102) := by
  rw [hw _ (by decide) _ (by decide)]
  decide

theorem HasHead.tables (hw : HasHead w) : DirectTables w (pageWord 0x101) (pageWord 0x102) := by
  refine ⟨hw.slot, ⟨fun l hl k t ht => ?_, fun l hl l' hl' k k' t ht ht' => ?_⟩,
    fun l hl k t ht i hi => ?_, fun g hg => ?_, fun n hn q hq => ?_⟩
  · rcases hw.node_cases hl ht with ⟨-, -, rfl⟩ | ⟨-, -, rfl⟩ <;>
      exact directPage_pageWord (by decide)
  · rcases hw.node_cases hl ht with ⟨rfl, rfl, rfl⟩ | ⟨rfl, rfl, rfl⟩ <;>
      rcases hw.node_cases hl' ht' with ⟨rfl, rfl, h⟩ | ⟨rfl, rfl, h⟩
    · exact ⟨rfl, rfl⟩
    · exact absurd h (by decide)
    · exact absurd h (by decide)
    · exact ⟨rfl, rfl⟩
  · rcases hw.node_cases hl ht with ⟨-, -, rfl⟩ | ⟨-, -, rfl⟩ <;>
      exact pageWord_ne (by decide) (by decide) hi
  · by_cases h0 : g = 0
    · exact Or.inr (Or.inr ⟨_, by rw [hw.named hg, if_pos h0]⟩)
    · left
      rw [hw _ (by decide) g hg]
      exact if_neg h0
  · rw [hw.leaf hn] at hq
    exact absurd hq (by simp)

/-- The words of the tables of the direct map. -/
theorem HasHead.tableWord (hw : HasHead w) {a : Nat} (ha : TableWord w (pageWord 0x101) a) :
    a = pageWord 0x101 + 256 ∨ ∃ i < 512, a = pageWord 0x102 + i ∨ a = pageWord 0x103 + i := by
  rcases ha with rfl | ⟨P, hP, hcases⟩
  · exact Or.inl rfl
  · obtain rfl := Option.some.inj (hw.slot.symm.trans hP)
    rcases hcases with ⟨l, hl, k, t, ht, i, hi, rfl⟩ | ⟨n, hn, q, hq, -⟩
    · rcases hw.node_cases hl ht with ⟨-, -, rfl⟩ | ⟨-, -, rfl⟩
      · exact Or.inr ⟨i, hi, Or.inl rfl⟩
      · exact Or.inr ⟨i, hi, Or.inr rfl⟩
    · rw [hw.leaf hn] at hq
      exact absurd hq (by simp)

/-- Above 512 GiB the processor reads the first table and those of the frame buffer. -/
theorem HasHead.wordsRead (hw : HasHead w) {p : Nat} (h39 : 2 ^ 39 ≤ p) (h47 : p < 2 ^ 47) {a : Nat}
    (ha : a ∈ wordsRead w 0x101000 (PAGE_OFFSET + p)) :
    ∃ i < 512, (a = pageWord 0x101 + i ∧ i ≠ 256) ∨ a = pageWord 0x104 + i ∨ a = pageWord 0x105 + i := by
  have hroot : phyToVirt (alignDown PAGE_4K_SIZE 0x101000) = 8 * pageWord 0x101 := by decide
  have hidx : getBits (PAGE_OFFSET + p) PAGE_GDT_SHIFT 9 = 256 + p / 2 ^ 39 := by
    unfold getBits PAGE_OFFSET PAGE_GDT_SHIFT
    omega
  have hlt : 256 + p / 2 ^ 39 < 512 := by omega
  unfold Talios.wordsRead at ha
  rw [hroot] at ha
  rcases mem_wordsFrom ha with rfl | ⟨q, hq, ha⟩
  · exact ⟨_, getBits_lt _ _, Or.inl ⟨rfl, by omega⟩⟩
  -- the only table there is that of the frame buffer
  have hq4 : q = pageWord 0x104 := by
    rw [hidx, hw _ (by decide) _ hlt] at hq
    have hval : headTable 0x101 (256 + p / 2 ^ 39) = if p / 2 ^ 39 = 1 then 0x104007 else 0 := by
      show (if 256 + p / 2 ^ 39 = 0 ∨ 256 + p / 2 ^ 39 = 256 then (0x102007 : BitVec 64)
        else if 256 + p / 2 ^ 39 = 257 then 0x104007 else 0) = _
      rw [if_neg (by omega)]
      congr 1
      rw [eq_iff_iff]
      omega
    rw [hval] at hq
    split at hq
    · exact (Option.some.inj ((by decide : namedTable 0x104007 = some (pageWord 0x104)).symm.trans hq)).symm
    · exact absurd hq (by simp [namedTable, entryHas])
  subst hq4
  rcases mem_wordsFrom ha with rfl | ⟨q, hq, ha⟩
  · exact ⟨_, getBits_lt _ _, Or.inr (Or.inl rfl)⟩
  have hq5 : q = pageWord 0x105 := by
    rw [hw _ (by decide) _ (getBits_lt _ _)] at hq
    change namedTable (if getBits (PAGE_OFFSET + p) PAGE_1G_SHIFT 9 = 0 then 0x105007 else 0) = _ at hq
    split at hq
    · exact (Option.some.inj ((by decide : namedTable 0x105007 = some (pageWord 0x105)).symm.trans hq)).symm
    · exact absurd hq (by simp [namedTable, entryHas])
  subst hq5
  rcases mem_wordsFrom ha with rfl | ⟨q, hq, -⟩
  · exact ⟨_, getBits_lt _ _, Or.inr (Or.inr rfl)⟩
  -- its entries are pages of 2 MiB
  exfalso
  set j := getBits (PAGE_OFFSET + p) PAGE_2M_SHIFT 9 with hj
  rw [hw _ (by decide) _ (getBits_lt _ _), ← hj] at hq
  change namedTable (if j < 7 then BitVec.ofNat 64 (0xe0000000 + j * PAGE_2M_SIZE) ||| 0x87 else 0) = _
    at hq
  split at hq
  · have h4 : PAGE_4K_SIZE ∣ 0xe0000000 + j * PAGE_2M_SIZE :=
      Nat.dvd_add (by decide) (Dvd.dvd.mul_left (by decide) _)
    have hps := (namedTable_eq_some.mp hq).2.1
    rw [entryHas_or h4 _ (by unfold IsFlags; decide)] at hps
    exact absurd hps (by decide)
  · exact absurd hq (by simp [namedTable, entryHas])

/-- **The tables of `head.S`** are tables `InitPageTable` can start from. -/
theorem HasHead.bootTables (hw : HasHead w) : BootTables headImage.endStruct w 0x101000 := by
  have hroot : pml4Word 0x101000 = pageWord 0x101 := by decide
  refine ⟨fun a ha => ?_, Or.inr ⟨_, by rw [hroot]; exact hw.tables⟩, fun p h39 h47 a ha => ?_⟩
  · rw [hroot] at ha
    rcases hw.tableWord ha with rfl | ⟨i, hi, rfl | rfl⟩
    · exact imageWord_pageWord (by decide) (by decide)
    · exact imageWord_pageWord (by decide) hi
    · exact imageWord_pageWord (by decide) hi
  · rw [hroot]
    rcases hw.wordsRead h39 h47 ha with ⟨i, hi, ⟨rfl, hne⟩ | rfl | rfl⟩
    · refine ⟨imageWord_pageWord (by decide) hi, fun hc => ?_⟩
      rcases hw.tableWord hc with hc | ⟨j, hj, hc | hc⟩
      · omega
      · exact pageWord_ne (by decide) hi hj hc
      · exact pageWord_ne (by decide) hi hj hc
    · refine ⟨imageWord_pageWord (by decide) hi, fun hc => ?_⟩
      rcases hw.tableWord hc with hc | ⟨j, hj, hc | hc⟩
      · exact pageWord_ne (by decide) hi (by decide) hc
      · exact pageWord_ne (by decide) hi hj hc
      · exact pageWord_ne (by decide) hi hj hc
    · refine ⟨imageWord_pageWord (by decide) hi, fun hc => ?_⟩
      rcases hw.tableWord hc with hc | ⟨j, hj, hc | hc⟩
      · exact pageWord_ne (by decide) hi (by decide) hc
      · exact pageWord_ne (by decide) hi hj hc
      · exact pageWord_ne (by decide) hi hj hc

end

theorem hasHead_init : HasHead (initWord headImage) := by
  intro k hk i hi
  have hword : headImage.word = headWord := by rw [headImage]
  have himg := imageWord_pageWord hk hi
  rw [initWord_image headImage himg.2, hword, headWord_at k hi]

theorem initPageTable_directMap_head : ∃ s s', initMemory headImage = some s ∧
    initPageTable s 0x101000 = some (s', true) ∧ s.mms.zonesCount = 2 ∧
    ∀ zi < s.mms.zonesCount, ∀ p, (s.mms.zone zi).zoneStartAddr ≤ p →
      p < (s.mms.zone zi).zoneEndAddr → DirectAt s'.word 0x101000 p := by
  obtain ⟨s, hs, hinv⟩ := initMemory_spec headImage
  obtain ⟨m, -, hm⟩ := Option.map_eq_some_iff.mp hs
  have hword : s.word = initWord headImage := by rw [← hm]
  have hhead : HasHead s.word := by rw [hword]; exact hasHead_init
  have hsame := sameZones_reservedMMS headImage.map (kernelReservations headImage.endStruct)
  have hcount : s.mms.zonesCount = 2 := by
    rw [hinv.layout.zonesCount, hsame.zonesCount]
    decide
  have hz : ∀ zi < s.mms.zonesCount, (s.mms.zone zi).zoneEndAddr ≤ 2 ^ 39 := by
    intro zi hzi
    have hl := (hinv.inv zi hzi).layout
    have hfirst : (s.mms.zone zi).Has (if zi = 0 then 0 else 0x100) := by
      refine (hinv.layout.has zi _).mpr ((hsame.has zi _).mpr ?_)
      obtain rfl | rfl : zi = 0 ∨ zi = 1 := by omega
      · exact ⟨by decide, by decide⟩
      · exact ⟨by decide, by decide⟩
    -- the last frame of the zone is a frame of the memory map
    have hlast := (directMap_init headImage).frames zi
      (by rw [← hinv.layout.zonesCount]; exact hzi)
      ((s.mms.zone zi).pagesGroup + (s.mms.zone zi).pagesCount - 1)
      ((hinv.layout.has zi _).mp ⟨by have := hfirst.1; have := hfirst.2; omega,
        by have := hfirst.1; have := hfirst.2; omega⟩)
    have hpages := hsame.pagesCount
    rw [pagesCount_initZones] at hpages
    rw [hpages] at hlast
    have hmap : headImage.map.pagesCount = 0x8000 := rfl
    rw [hl.stop, show PAGE_4K_SIZE = 4096 by decide]
    omega
  obtain ⟨s', made, he, hdone, -, hmade⟩ := initPageTable_directMap headImage hs hz
    (by exact hhead.bootTables)
  have hmade' : made = true := by
    apply hmade
    intro h0
    have := hhead.slot
    rw [show pageWord 0x101 = pml4Word 0x101000 by decide, h0] at this
    exact absurd this (by simp [namedTable, entryHas])
  rw [hmade'] at he
  exact ⟨s, s', hs, he, hcount, hdone hmade'⟩

end Talios
