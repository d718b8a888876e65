import Talios.Mm.UserRange

set_option autoImplicit false

/-! # `MapUserRange4K`, all or nothing

What the first loop has done after some pages (`RangeMade`), and what the second loop takes back
(`RangeHeld`): the tables that were made stay, everything else is as before the call. The class of
pages must not grow for the tables, and how many of them are needed can be counted before the call
(`RangeRoom`).
-/

namespace Talios

open Word Bitmap Dyadic Radix

section

variable {m₀ : MMS} {pool : Nat → Slab} {s s₁ s₂ : KMem} {out : Nat → Nat}
  {objs objs₁ objs₂ : List Obj} {pgd first n : Nat}

/-! ## Steps -/

/-- A step that changes tables only, and makes tables of new objects only. -/
structure TreeStep (pgd : Nat) (s : KMem) (objs : List Obj) (s' : KMem) (objs' : List Obj) : Prop where
  shapes : s'.shapes = s.shapes
  mem : ∀ b ∈ objs, b ∈ objs'
  fresh : ∀ l ≤ 3, ∀ k t, userTables.node s'.word (userRoot pgd) l k = some t →
    userTables.node s.word (userRoot pgd) l k = some t ∨ ¬ PageObj objs t
  kept : HeapKept objs pgd s s'

theorem TreeStep.refl (pgd : Nat) (s : KMem) (objs : List Obj) : TreeStep pgd s objs s objs :=
  ⟨rfl, fun _ hb => hb, fun _ _ _ _ ht => Or.inl ht, fun _ _ _ _ _ => rfl⟩

theorem TreeStep.trans (h₁ : HeapTree m₀ pool pgd s₁ out objs₁) (h : TreeStep pgd s objs s₁ objs₁)
    (h' : TreeStep pgd s₁ objs₁ s₂ objs₂) : TreeStep pgd s objs s₂ objs₂ := by
  refine ⟨h'.shapes.trans h.shapes, fun b hb => h'.mem b (h.mem b hb), fun l hl k t ht => ?_,
    fun b hb hno a ha => ?_⟩
  · rcases h'.fresh l hl k t ht with ht | ht
    · exact h.fresh l hl k t ht
    · exact Or.inr (fun hb => ht (h.mem _ hb))
  · refine (h'.kept b (h.mem b hb) (fun l hl k t ht hptr => ?_) a ha).trans (h.kept b hb hno a ha)
    rcases h.fresh l hl k t ht with hold | hnew
    · exact hno l hl k t hold hptr
    · -- the objects at one address are one
      have heq : b = ⟨8 * t, PAGE_4K_SIZE⟩ :=
        List.inj_on_of_nodup_map h₁.heap.nodup (h.mem b hb) (h₁.owned l hl k t ht) hptr
      apply hnew
      unfold PageObj
      rw [← heq]
      exact hb

/-- The allocator of pages alone has changed. -/
theorem TreeStep.of_word {mms : MMS} : TreeStep pgd s objs { s with mms := mms } objs :=
  ⟨rfl, fun _ hb => hb, fun _ _ _ _ ht => Or.inl ht, fun _ _ _ _ _ => rfl⟩

/-- A walk makes tables. -/
theorem TablesMade.treeStep (hd : DirectMap m₀ pool) (h : HeapInv m₀ pool s out objs)
    (hm : TablesMade m₀ pool out pgd s objs s₁ objs₁) : TreeStep pgd s objs s₁ objs₁ :=
  ⟨hm.shapes, hm.mem, hm.fresh, hm.heapKept hd h⟩

/-- A frame is taken and cleared. -/
theorem FrameCleared.treeStep {mms : MMS} {f : Nat}
    (h : FrameCleared m₀ pool pgd s out objs mms f s₁) : TreeStep pgd s objs s₁ objs := by
  refine ⟨?_, fun _ hb => hb, fun l hl k t ht => ?_, fun b hb _ a ha => h.word b hb a ha⟩
  · unfold KMem.shapes
    rw [h.cache]
  · rw [h.node l hl] at ht
    exact Or.inl ht

/-- The entry of a page is written. -/
theorem HeapTree.treeStep_write (hd : DirectMap m₀ pool) (h : HeapTree m₀ pool pgd s out objs)
    {n a : Nat} (ha : userTables.slot s.word (userRoot pgd) n = some a) (e : BitVec 64) :
    TreeStep pgd s objs (s.write (8 * a) e) objs := by
  obtain ⟨-, hnode, -⟩ := h.setLeaf hd ha e
  obtain ⟨t, ht, rfl⟩ := Tree.slot_eq_some.mp ha
  refine ⟨rfl, fun _ hb => hb, fun l hl k u hu => ?_, fun b hb hno c hc => ?_⟩
  · rw [hnode l hl] at hu
    exact Or.inl hu
  · rw [KMem.write, Nat.mul_div_cancel_left _ (by decide)]
    refine Function.update_of_ne (fun hce => ?_) ..
    apply hno 3 le_rfl _ t ht
    refine h.heap.ptr_eq hd.toPoolLayout hb (h.owned 3 le_rfl _ t ht) hc ?_
    rw [hce]
    exact PageObj.has (Nat.mod_lt n (by decide))

/-! ## The frames of a range -/

/-- The mapping of `u` once the pages from `first` on have the frames `frames`. -/
def rangeMapping (m : Nat → Option Mapping) (first : Nat) (frames : List Nat) (u : Nat) :
    Option Mapping :=
  if first ≤ u then
    match frames[(u - first) / PAGE_4K_SIZE]? with
    | some f => some (flagsMapping f PEA_USER_PAGE)
    | none => m u
  else m u

/-- The pages of users with the frames `frames`. -/
def heldBy (out : Nat → Nat) (frames : List Nat) (x : Nat) : Nat := out x + frames.count x

theorem rangeMapping_nil (m : Nat → Option Mapping) (first u : Nat) :
    rangeMapping m first [] u = m u := by
  unfold rangeMapping
  split <;> rfl

theorem rangeMapping_after (m : Nat → Option Mapping) {frames : List Nat} {u : Nat}
    (hu : frames.length ≤ (u - first) / PAGE_4K_SIZE) : rangeMapping m first frames u = m u := by
  unfold rangeMapping
  rw [List.getElem?_eq_none hu]
  split <;> rfl

/-- The page that follows the ones with a frame. -/
theorem rangePage_eq (hal : PAGE_4K_SIZE ∣ first) {k u : Nat} :
    u / PAGE_4K_SIZE = (first + k * PAGE_4K_SIZE) / PAGE_4K_SIZE
      ↔ first ≤ u ∧ (u - first) / PAGE_4K_SIZE = k := by
  obtain ⟨p, rfl⟩ := hal
  unfold PAGE_4K_SIZE PAGE_4K_SHIFT
  omega

theorem rangeMapping_concat (m : Nat → Option Mapping) (hal : PAGE_4K_SIZE ∣ first)
    (frames : List Nat) (f u : Nat) : rangeMapping m first (frames ++ [f]) u
      = if u / PAGE_4K_SIZE = (first + frames.length * PAGE_4K_SIZE) / PAGE_4K_SIZE
        then some (flagsMapping f PEA_USER_PAGE) else rangeMapping m first frames u := by
  unfold rangeMapping
  by_cases hu : first ≤ u
  · rw [if_pos hu, if_pos hu]
    by_cases hk : (u - first) / PAGE_4K_SIZE = frames.length
    · rw [if_pos ((rangePage_eq hal).mpr ⟨hu, hk⟩), hk, List.getElem?_concat_length]
    · rw [if_neg (fun hc => hk ((rangePage_eq hal).mp hc).2)]
      rcases Nat.lt_or_gt_of_ne hk with hlt | hgt
      · rw [List.getElem?_append_left hlt]
      · rw [List.getElem?_eq_none hgt.le, List.getElem?_eq_none]
        rw [List.length_append]
        exact hgt
  · rw [if_neg hu, if_neg hu, if_neg (fun hc => hu ((rangePage_eq hal).mp hc).1)]

theorem heldBy_concat (out : Nat → Nat) (frames : List Nat) (f : Nat) :
    heldBy out (frames ++ [f]) = fun x => heldBy out frames x + ind f 0 x := by
  funext x
  unfold heldBy
  rw [List.count_append, List.count_singleton, ind_zero, Nat.add_assoc]
  congr 2
  exact if_congr (by rw [beq_iff_eq, eq_comm]) rfl rfl

/-! ## Pages that are held -/

/-- The pages of the range from its first one on have the frames `frames`; the memory is otherwise as
before the call, but for tables. -/
structure RangeHeld (m₀ : MMS) (pool : Nat → Slab) (pgd : Nat) (s : KMem) (out : Nat → Nat)
    (objs : List Obj) (first : Nat) (frames : List Nat) (s' : KMem) (objs' : List Obj) : Prop
    extends HeapTree m₀ pool pgd s' (heldBy out frames) objs' where
  zone : ∀ f ∈ frames, ∃ zi < m₀.zonesCount, (m₀.zone zi).Has f
  upper : ∀ i < frames.length, first + i * PAGE_4K_SIZE < USER_LIMIT
  before : ∀ i < frames.length, mapping s.word pgd (first + i * PAGE_4K_SIZE) = none
  map : ∀ u < USER_LIMIT, mapping s'.word pgd u = rangeMapping (mapping s.word pgd) first frames u
  step : TreeStep pgd s objs s' objs'

variable {frames : List Nat} {f : Nat}

theorem RangeHeld.user (h : RangeHeld m₀ pool pgd s out objs first frames s₁ objs₁) (hf : f ∈ frames) :
    UserFrame m₀ (heldBy out frames) f :=
  ⟨h.zone f hf, Nat.add_pos_right _ (List.count_pos_iff.mpr hf)⟩

/-- The frames are different. -/
theorem RangeHeld.nodup (h : RangeHeld m₀ pool pgd s out objs first frames s₁ objs₁) :
    frames.Nodup := by
  refine List.nodup_iff_count_le_one.mpr (fun f => ?_)
  by_cases hf : f ∈ frames
  · have hone : out f + frames.count f = 1 := (h.heap.toHeapCore.held (h.user hf)).1
    omega
  · rw [List.count_eq_zero_of_not_mem hf]
    exact Nat.zero_le 1

/-- Where another frame can be had, there are more page structures than frames. -/
theorem RangeHeld.length_lt (hd : DirectMap m₀ pool)
    (h : RangeHeld m₀ pool pgd s out objs first frames s₁ objs₁) (hfree : heldBy out frames f = 0)
    (hlt : f < m₀.pagesCount) : frames.length < m₀.pagesCount := by
  have hnot : f ∉ frames := fun hf => (h.user hf).out.ne' hfree
  have hsub : f :: frames ⊆ List.range m₀.pagesCount := by
    refine List.cons_subset.mpr ⟨List.mem_range.mpr hlt, fun g hg => ?_⟩
    exact List.mem_range.mpr ((h.user hg).lt hd).1
  have hle := ((List.nodup_cons.mpr ⟨hnot, h.nodup⟩).subperm hsub).length_le
  rwa [List.length_range, List.length_cons] at hle

/-- The frames have been taken from the free ones, each once. -/
theorem RangeHeld.freeBlocks (h₀ : HeapTree m₀ pool pgd s out objs)
    (h : RangeHeld m₀ pool pgd s out objs first frames s₁ objs₁) (x : Nat) :
    s₁.mms.freeBlocks x + frames.count x = s.mms.freeBlocks x := by
  have h1 := h₀.heap.toHeapCore.freeBlocks_eq x
  have h2 := h.heap.toHeapCore.freeBlocks_eq x
  rw [h.step.shapes] at h2
  rcases h1 with ⟨hx, h1⟩ | ⟨hx, h1⟩
  · obtain ⟨-, h2⟩ := h2.resolve_right (fun hc => hc.1 hx)
    unfold heldBy at h2
    omega
  · obtain ⟨-, h2⟩ := h2.resolve_left (fun hc => hx hc.1)
    rw [List.count_eq_zero_of_not_mem (fun hf => hx (h.zone x hf)), h1, h2]

/-- The mapping of an address is that of its page. -/
theorem PageTree.mapping_page {w : Memory} (h : PageTree w pgd) {u v : Nat} (hu : u < USER_LIMIT)
    (hv : v < USER_LIMIT) (he : u / PAGE_4K_SIZE = v / PAGE_4K_SIZE) :
    mapping w pgd u = mapping w pgd v := by
  rw [h.mapping_eq hu, h.mapping_eq hv, he]

/-- Without frames nothing is mapped that was not before. -/
theorem HeapTree.rangeHeld (h : HeapTree m₀ pool pgd s out objs) (first : Nat) :
    RangeHeld m₀ pool pgd s out objs first [] s objs := by
  refine ⟨h, fun f hf => absurd hf List.not_mem_nil, fun i hi => absurd hi (Nat.not_lt_zero i),
    fun i hi => absurd hi (Nat.not_lt_zero i), fun u _ => ?_, TreeStep.refl pgd s objs⟩
  rw [rangeMapping_nil]

/-! ## Taking back -/

/-- **One pass of the second loop** gives the last page back. -/
theorem RangeHeld.unmapLast (hd : DirectMap m₀ pool) (h₀ : HeapTree m₀ pool pgd s out objs)
    (hal : PAGE_4K_SIZE ∣ first)
    (h : RangeHeld m₀ pool pgd s out objs first (frames ++ [f]) s₁ objs₁) :
    ∃ s₂, KMem.unmapRange pgd first (frames.length + 1) s₁
        = KMem.unmapRange pgd first frames.length s₂ ∧
      RangeHeld m₀ pool pgd s out objs first frames s₂ objs₁ := by
  have hlen : (frames ++ [f]).length = frames.length + 1 := by
    rw [List.length_append, List.length_singleton]
  have hin : f ∈ frames ++ [f] := List.mem_append_right _ (List.mem_singleton.mpr rfl)
  obtain ⟨v, hv⟩ : ∃ v, v = first + frames.length * PAGE_4K_SIZE := ⟨_, rfl⟩
  have hvlt : v < USER_LIMIT := hv ▸ h.upper _ (by omega)
  have hval : PAGE_4K_SIZE ∣ v := hv ▸ Dvd.dvd.add hal (Nat.dvd_mul_left ..)
  -- the page is mapped to its frame
  have hmap : mapping s₁.word pgd v = some (flagsMapping f PEA_USER_PAGE) := by
    rw [h.map v hvlt, rangeMapping_concat _ hal, ← hv, if_pos rfl]
  have hlt : f < s₁.mms.pagesCount := by
    rw [h.heap.layout.pagesCount]
    exact ((h.user hin).lt hd).1
  obtain ⟨a, ha, he⟩ := h.tree.unmapPage4K_eq hvlt hval hmap hlt
  change Talios.unmapPage4K s₁ pgd v = some (s₁.write (8 * a) 0, some f) at he
  have hset := (h.toHeapTree.setLeaf hd ha 0).1
  have hstep := h.toHeapTree.treeStep_write hd ha 0
  obtain ⟨m', hgive, hheap⟩ := hset.heap.frameGiven (h.user hin)
  have hout : (fun x => heldBy out (frames ++ [f]) x - ind f 0 x) = heldBy out frames := by
    rw [heldBy_concat]
    exact funext (fun x => Nat.add_sub_cancel ..)
  rw [hout] at hheap
  refine ⟨{ s₁.write (8 * a) 0 with mms := m' }, ?_, ⟨hheap, hset.tree, hset.owned⟩,
    fun g hg => h.zone g (List.mem_append_left _ hg), fun i hi => h.upper i (by omega),
    fun i hi => h.before i (by omega), fun u hu => ?_,
    TreeStep.trans hset (TreeStep.trans h.toHeapTree h.step hstep) TreeStep.of_word⟩
  · rw [KMem.unmapRange, ← hv, he]
    dsimp only
    rw [KMem.freePage4K, show Talios.freePage4K (s₁.write (8 * a) 0).mms f 1 = _ from hgive]
    rfl
  · obtain ⟨-, hup⟩ := h.tree.mapUpdate ha 0
    have hword : (s₁.write (8 * a) 0).word = Function.update s₁.word a 0 := by
      rw [KMem.write, Nat.mul_div_cancel_left _ (by decide)]
    show mapping (s₁.write (8 * a) 0).word pgd u = _
    rw [hword, hup u hu]
    by_cases hpage : u / PAGE_4K_SIZE = v / PAGE_4K_SIZE
    · -- the page was not mapped before the call
      have hk := ((rangePage_eq hal).mp (hv ▸ hpage)).2
      rw [if_pos hpage, rangeMapping_after _ hk.ge, h₀.tree.mapping_page hu hvlt hpage, hv,
        h.before _ (by omega)]
      exact leafMapping_eq_none.mpr rfl
    · rw [if_neg hpage, h.map u hu, rangeMapping_concat _ hal, ← hv, if_neg hpage]

/-- **The second loop** gives all pages back. -/
theorem RangeHeld.unmapRange (hd : DirectMap m₀ pool) (h₀ : HeapTree m₀ pool pgd s out objs)
    (hal : PAGE_4K_SIZE ∣ first) (frames : List Nat) : ∀ s₁,
    RangeHeld m₀ pool pgd s out objs first frames s₁ objs₁ →
    ∃ s₂, KMem.unmapRange pgd first frames.length s₁ = some s₂ ∧
      RangeHeld m₀ pool pgd s out objs first [] s₂ objs₁ := by
  induction frames using List.reverseRecOn with
  | nil => exact fun s₁ h => ⟨s₁, rfl, h⟩
  | append_singleton frames f ih =>
      intro s₁ h
      obtain ⟨s₂, he, h₂⟩ := h.unmapLast hd h₀ hal
      obtain ⟨s₃, he', h₃⟩ := ih s₂ h₂
      refine ⟨s₃, ?_, h₃⟩
      rw [List.length_append, List.length_singleton, he, he']

/-- Then everything is as before the call. -/
theorem RangeHeld.refused (h₀ : HeapTree m₀ pool pgd s out objs)
    (h : RangeHeld m₀ pool pgd s out objs first [] s₁ objs₁) : FaultRefused s objs pgd s₁ := by
  refine ⟨fun u hu => ?_, h.step.kept, fun x => ?_⟩
  · rw [h.map u hu, rangeMapping_nil]
  · exact h.freeBlocks h₀ x

/-! ## Pages that are made -/

/-- What the first loop has done: the frames are those of its calls of `AllocPage4K`, they are zero, and
no more tables have been made than the pages miss. -/
structure RangeMade (m₀ : MMS) (pool : Nat → Slab) (pgd : Nat) (s : KMem) (out : Nat → Nat)
    (objs : List Obj) (first : Nat) (frames : List Nat) (s' : KMem) (objs' : List Obj) : Prop
    extends RangeHeld m₀ pool pgd s out objs first frames s' objs' where
  nodes : ∀ l ≤ 3, ∀ k t, userTables.node s.word (userRoot pgd) l k = some t →
    userTables.node s'.word (userRoot pgd) l k = some t
  mms : framesTaken s.mms frames.length = some s'.mms
  zero : ∀ g ∈ frames, ∀ i < PAGE_4K_SIZE / 8,
    s'.word (phyToVirt (g * PAGE_4K_SIZE) / 8 + i) = 0
  left : (s.cache 7).totalFree
    ≤ (s'.cache 7).totalFree + rangeMissing s.word pgd first frames.length

/-- Why the first loop ends at page `k`: it is mapped, or there is no frame, or there are not enough
tables. -/
def RangeStops (s : KMem) (pgd first k : Nat) : Prop :=
  mapping s.word pgd (first + k * PAGE_4K_SIZE) ≠ none ∨ framesTaken s.mms (k + 1) = none ∨
    (s.cache 7).totalFree < rangeMissing s.word pgd first (k + 1)

/-- The class of pages need not grow: whenever the first loop comes to the tables of a page, there are
free objects for all tables that the pages so far miss, or there is no block to grow by. -/
def RangeRoom (s : KMem) (pgd first n : Nat) : Prop :=
  ∀ k < n, (∀ j ≤ k, mapping s.word pgd (first + j * PAGE_4K_SIZE) = none) →
    ∀ mms, framesTaken s.mms (k + 1) = some mms →
      rangeMissing s.word pgd first (k + 1) ≤ (s.cache 7).totalFree ∨
        ∀ m page, allocPage mms ZONE_NORMAL_INDEX 1 0 ≠ some (m, some page)

theorem HeapTree.rangeMade (h : HeapTree m₀ pool pgd s out objs) (first : Nat) :
    RangeMade m₀ pool pgd s out objs first [] s objs := by
  refine ⟨h.rangeHeld first, fun _ _ _ _ ht => ht, rfl, fun g hg => absurd hg List.not_mem_nil, ?_⟩
  exact Nat.le_add_right _ _

/-- What the next page misses. -/
theorem RangeMade.missing_le (h : RangeMade m₀ pool pgd s out objs first frames s₁ objs₁)
    (hal : PAGE_4K_SIZE ∣ first) (hv : first + frames.length * PAGE_4K_SIZE < USER_LIMIT) :
    missingTables s₁.word pgd (first + frames.length * PAGE_4K_SIZE)
        + rangeMissing s.word pgd first frames.length
      ≤ rangeMissing s.word pgd first (frames.length + 1) := by
  refine h.tree.rangeMissing_succ hv h.nodes (fun j hj => ?_)
  have hk := ((rangePage_eq (k := j) (u := first + j * PAGE_4K_SIZE) hal).mp rfl)
  rw [h.map _ (h.upper j hj), rangeMapping, if_pos hk.1, hk.2, List.getElem?_eq_getElem hj]
  exact Option.some_ne_none _

/-- The next page is mapped if it was before the call. -/
theorem RangeHeld.mapping_next (h : RangeHeld m₀ pool pgd s out objs first frames s₁ objs₁)
    (hal : PAGE_4K_SIZE ∣ first) (hv : first + frames.length * PAGE_4K_SIZE < USER_LIMIT) :
    mapping s₁.word pgd (first + frames.length * PAGE_4K_SIZE)
      = mapping s.word pgd (first + frames.length * PAGE_4K_SIZE) := by
  have hk := (rangePage_eq (k := frames.length) hal).mp rfl
  rw [h.map _ hv, rangeMapping_after _ hk.2.ge]

section

variable {mms : MMS} {v : Nat}

/-- The tables of the next page can be had without growing. -/
theorem RangeMade.room (h : RangeMade m₀ pool pgd s out objs first frames s₁ objs₁)
    (hal : PAGE_4K_SIZE ∣ first) (hroom : RangeRoom s pgd first n) (hn : frames.length < n)
    (hv : v = first + frames.length * PAGE_4K_SIZE) (hvlt : v < USER_LIMIT)
    (hmms : framesTaken s.mms (frames.length + 1) = some mms)
    (hf : FrameCleared m₀ pool pgd s₁ (heldBy out frames) objs₁ mms f s₂) :
    PagesRoom s₂ (missingTables s₂.word pgd v) := by
  have hnext := h.mapping_next hal (hv ▸ hvlt)
  have hmiss := h.missing_le hal (hv ▸ hvlt)
  have hleft := h.left
  rw [← hv] at hnext hmiss
  unfold PagesRoom
  rw [hf.mms, hf.cache]
  by_cases hm : mapping s.word pgd v = none
  · have hunmapped : ∀ j ≤ frames.length, mapping s.word pgd (first + j * PAGE_4K_SIZE) = none := by
      intro j hj
      rcases Nat.lt_or_eq_of_le hj with hlt | rfl
      · exact h.before j hlt
      · exact hv ▸ hm
    rw [hf.missing v hvlt]
    rcases hroom _ hn hunmapped mms hmms with hle | hno
    · left
      omega
    · exact Or.inr hno
  · -- a page that is mapped misses no table
    left
    rw [hf.tree.tree.missingTables_mapped hvlt (by rw [hf.same v hvlt, hnext]; exact hm)]
    exact Nat.zero_le _

/-- `MapPage4K` has been refused, and the frame goes back. -/
theorem RangeMade.refusedPage (hd : DirectMap m₀ pool)
    (h : RangeMade m₀ pool pgd s out objs first frames s₁ objs₁)
    (hf : FrameCleared m₀ pool pgd s₁ (heldBy out frames) objs₁ mms f s₂) {s₃ : KMem}
    {objs₃ : List Obj}
    (hm : TablesMade m₀ pool (fun x => heldBy out frames x + ind f 0 x) pgd s₂ objs₁ s₃ objs₃) :
    ∃ s₄, s₃.freePage4K f = some s₄ ∧
      RangeHeld m₀ pool pgd s out objs first frames s₄ objs₃ := by
  obtain ⟨m', hgive, hheap⟩ := hm.heap.frameGiven hf.user
  have hout : (fun x => heldBy out frames x + ind f 0 x - ind f 0 x) = heldBy out frames :=
    funext (fun x => Nat.add_sub_cancel ..)
  rw [hout] at hheap
  refine ⟨{ s₃ with mms := m' }, ?_, ⟨hheap, hm.tree, hm.owned⟩, h.zone, h.upper, h.before,
    fun u hu => ?_, ?_⟩
  · rw [KMem.freePage4K, hgive]
    rfl
  · rw [← h.map u hu, ← hf.same u hu]
    exact hf.tree.tree.mapSame hm.tree hm.leaf u hu
  · have hstep := TreeStep.trans h.toHeapTree h.step hf.treeStep
    have hstep' := TreeStep.trans hf.tree hstep (hm.treeStep hd hf.tree.heap)
    exact TreeStep.trans hm.toHeapTree hstep' TreeStep.of_word

/-- The words of another frame of the range are as before the clearing. -/
theorem frame_word {g i : Nat} (hg : g ≠ f) (hi : i < PAGE_4K_SIZE / 8) (w : Memory) :
    fill w (phyToVirt (f * PAGE_4K_SIZE) / 8) (PAGE_4K_SIZE / 8) 0
        (phyToVirt (g * PAGE_4K_SIZE) / 8 + i)
      = w (phyToVirt (g * PAGE_4K_SIZE) / 8 + i) := by
  refine if_neg ?_
  unfold phyToVirt PAGE_OFFSET
  unfold PAGE_4K_SIZE PAGE_4K_SHIFT at *
  omega

/-- `MapPage4K` has entered the frame. -/
theorem RangeMade.mappedPage (hd : DirectMap m₀ pool)
    (h : RangeMade m₀ pool pgd s out objs first frames s₁ objs₁) (hal : PAGE_4K_SIZE ∣ first)
    (hv : v = first + frames.length * PAGE_4K_SIZE) (hvlt : v < USER_LIMIT)
    (hnone : mapping s.word pgd v = none)
    (hmms : framesTaken s.mms (frames.length + 1) = some mms)
    (hf : FrameCleared m₀ pool pgd s₁ (heldBy out frames) objs₁ mms f s₂)
    (hclear : s₂.word = fill s₁.word (phyToVirt (f * PAGE_4K_SIZE) / 8) (PAGE_4K_SIZE / 8) 0)
    (hfree : heldBy out frames f = 0) {s₃ : KMem} {objs₃ : List Obj}
    (hm : TablesMade m₀ pool (fun x => heldBy out frames x + ind f 0 x) pgd s₂ objs₁ s₃ objs₃)
    {a : Nat} (ha : userTables.slot s₃.word (userRoot pgd) (v / PAGE_4K_SIZE) = some a)
    (hleft : (s₃.cache 7).totalFree + missingTables s₂.word pgd v = (s₂.cache 7).totalFree) :
    RangeMade m₀ pool pgd s out objs first (frames ++ [f])
      (s₃.write (8 * a) (BitVec.ofNat 64 (f * PAGE_4K_SIZE) ||| PEA_USER_PAGE)) objs₃ := by
  have hlen : (frames ++ [f]).length = frames.length + 1 := by
    rw [List.length_append, List.length_singleton]
  obtain ⟨e, he⟩ : ∃ e, e = BitVec.ofNat 64 (f * PAGE_4K_SIZE) ||| PEA_USER_PAGE := ⟨_, rfl⟩
  have hleaf : leafMapping e = some (flagsMapping f PEA_USER_PAGE) := by
    rw [he, leafMapping_or (Nat.dvd_mul_left ..) (lt_trans (hf.user.lt hd).2 (by decide))
      (by unfold IsFlags; decide) (by decide), show page4KIndex (f * PAGE_4K_SIZE) = f from
      Nat.mul_div_cancel _ (by decide)]
  rw [← he]
  have hword : (s₃.write (8 * a) e).word = Function.update s₃.word a e := by
    rw [KMem.write, Nat.mul_div_cancel_left _ (by decide)]
  obtain ⟨hset, hnode, -⟩ := hm.toHeapTree.setLeaf hd ha e
  have hends := hm.walkEnds hd hf.tree ha
  have hmem : ∀ g ∈ frames ++ [f], UserFrame m₀ (fun x => heldBy out frames x + ind f 0 x) g := by
    intro g hg
    rcases List.mem_append.mp hg with hg | hg
    · exact ⟨h.zone g hg, Nat.add_pos_left (h.user hg).out _⟩
    · rw [List.mem_singleton.mp hg]
      exact hf.user
  refine ⟨⟨?_, fun g hg => (hmem g hg).zone, fun i hi => ?_, fun i hi => ?_, fun u hu => ?_, ?_⟩,
    fun l hl k t ht => ?_, ?_, fun g hg i hi => ?_, ?_⟩
  · rw [heldBy_concat]
    exact hset
  · rcases Nat.lt_succ_iff_lt_or_eq.mp (hlen ▸ hi) with hi | rfl
    · exact h.upper i hi
    · exact hv ▸ hvlt
  · rcases Nat.lt_succ_iff_lt_or_eq.mp (hlen ▸ hi) with hi | rfl
    · exact h.before i hi
    · exact hv ▸ hnone
  · -- the entry is the only change
    obtain ⟨-, hup⟩ := hm.tree.mapUpdate ha e
    have hsame : mapping s₃.word pgd u = rangeMapping (mapping s.word pgd) first frames u := by
      rw [← h.map u hu, ← hf.same u hu]
      exact hf.tree.tree.mapSame hm.tree hm.leaf u hu
    rw [hword, hup u hu, hleaf, hsame, rangeMapping_concat _ hal, ← hv]
  · have hstep := TreeStep.trans h.toHeapTree h.step hf.treeStep
    have hstep' := TreeStep.trans hf.tree hstep (hm.treeStep hd hf.tree.heap)
    exact TreeStep.trans hm.toHeapTree hstep' (hm.toHeapTree.treeStep_write hd ha e)
  · rw [hnode l hl]
    refine hm.nodes l hl k t ?_
    rw [hf.node l hl]
    exact h.nodes l hl k t ht
  · rw [hlen, hmms, ← hf.mms, ← hm.mms]
    rfl
  · -- the words of the frames are no entries
    have hframe := hmem g hg
    rw [← wordFrame_add (g := g) hi] at hframe
    have hne : phyToVirt (g * PAGE_4K_SIZE) / 8 + i ≠ a := by
      rintro rfl
      exact hends.apart hframe
    rw [hword, Function.update_of_ne hne, hends.user _ hframe]
    rcases List.mem_append.mp hg with hold | hnew
    · have hgf : g ≠ f := by
        rintro rfl
        exact (h.user hold).out.ne' hfree
      rw [hclear, frame_word hgf hi]
      exact h.zero g hold i hi
    · rw [List.mem_singleton.mp hnew]
      exact hf.zero i hi
  · have hmiss := h.missing_le hal (hv ▸ hvlt)
    rw [← hv, ← hf.missing v hvlt] at hmiss
    have hold := h.left
    have hcache := congrArg SlabCache.totalFree (congrFun hf.cache 7)
    rw [hlen]
    show _ ≤ (s₃.cache 7).totalFree + _
    omega

/-- What the first loop does with a page once it has a frame. -/
theorem mapRangePage_eq {vaddr : Nat}
    (ha : allocPage4K s.mms ZONE_NORMAL_INDEX 1 PG_PTABLE_MAPPED = some (mms, some f)) :
    s.mapRangePage pgd vaddr
      = (mapPage4K ({ s with mms := mms }.clear (phyToVirt (mms.page f).phyAddr) PAGE_4K_SIZE) pgd
          vaddr (some f) PEA_USER_PAGE).bind (fun r =>
            if r.2 ≠ 0 then (r.1.freePage4K f).map (·, false) else some (r.1, true)) := by
  rw [KMem.mapRangePage, ha]
  dsimp only
  cases mapPage4K ({ s with mms := mms }.clear (phyToVirt (mms.page f).phyAddr) PAGE_4K_SIZE) pgd
    vaddr (some f) PEA_USER_PAGE <;> rfl

/-- **A page whose tables cannot be had without harm**: the loop goes wrong, or a page is mapped that
should not be. -/
theorem HeapTree.mapRangePage_harm (hd : DirectMap m₀ pool) (h : HeapTree m₀ pool pgd s out objs)
    (hvlt : v < USER_LIMIT) (hval : PAGE_4K_SIZE ∣ v) {zi : Nat} (hz : zi < s.mms.zonesCount)
    (ha : allocPage4K s.mms ZONE_NORMAL_INDEX 1 PG_PTABLE_MAPPED = some (mms, some f))
    (hh : Handed s.mms mms (fun x => out x + grownCover s.shapes x) zi f 0)
    (hroom : ¬ TableRoom { s with mms := mms } (missingTables s.word pgd v)) :
    s.mapRangePage pgd v = none ∨
      ∃ s' b u, s.mapRangePage pgd v = some (s', b) ∧ u < USER_LIMIT ∧
        mapping s.word pgd u = none ∧ mapping s'.word pgd u ≠ none ∧
        (b = true → u / PAGE_4K_SIZE ≠ v / PAGE_4K_SIZE) := by
  have hf := h.frameCleared hd hz hh
  obtain ⟨s₂, hs₂⟩ : ∃ s₂, s₂ =
    { s with mms := mms }.clear (phyToVirt (mms.page f).phyAddr) PAGE_4K_SIZE := ⟨_, rfl⟩
  rw [mapRangePage_eq ha, ← hs₂]
  rw [← hs₂] at hf
  have hdvd : PAGE_4K_SIZE ∣ (s₂.mms.page f).phyAddr := by
    rw [hf.phyAddr]
    exact Nat.dvd_mul_left ..
  have hroom₂ : ¬ TableRoom s₂ (missingTables s₂.word pgd v) := by
    rw [hf.missing v hvlt, @TableRoom.congr { s with mms := mms } s₂ _ hf.cache hf.mms]
    exact hroom
  rcases hf.tree.mapPage4K_harm hd hvlt hval hroom₂ hdvd PEA_USER_PAGE with
    he | ⟨s₃, r, u, he, hu, hbefore, hafter, hother⟩
  · left
    rw [he]
    rfl
  rw [hf.same u hu] at hbefore
  rw [he, Option.bind_some]
  dsimp only
  by_cases hr : r = 0
  · right
    exact ⟨s₃, true, u, if_neg (not_not.mpr hr), hu, hbefore, hafter, fun _ => hother hr⟩
  · rw [if_pos hr, KMem.freePage4K]
    cases Talios.freePage4K s₃.mms f 1 with
    | none => exact Or.inl rfl
    | some x =>
        right
        exact ⟨{ s₃ with mms := x.1 }, false, u, rfl, hu, hbefore, hafter,
          fun hb => absurd hb Bool.false_ne_true⟩

/-- **One pass of the first loop**: it maps the next page, or has done nothing and ends for a
reason. -/
theorem RangeMade.page (hd : DirectMap m₀ pool)
    (h : RangeMade m₀ pool pgd s out objs first frames s₁ objs₁) (hal : PAGE_4K_SIZE ∣ first)
    (hn : frames.length < n) (hroom : RangeRoom s pgd first n)
    (huser : frames.length < m₀.pagesCount → first + frames.length * PAGE_4K_SIZE < USER_LIMIT) :
    (∃ s₂ objs₂, s₁.mapRangePage pgd (first + frames.length * PAGE_4K_SIZE) = some (s₂, false) ∧
        RangeHeld m₀ pool pgd s out objs first frames s₂ objs₂ ∧
        RangeStops s pgd first frames.length) ∨
      ∃ s₂ objs₂ f, s₁.mapRangePage pgd (first + frames.length * PAGE_4K_SIZE) = some (s₂, true) ∧
        RangeMade m₀ pool pgd s out objs first (frames ++ [f]) s₂ objs₂ := by
  obtain ⟨v, hv⟩ : ∃ v, v = first + frames.length * PAGE_4K_SIZE := ⟨_, rfl⟩
  rw [← hv] at huser ⊢
  rcases allocPage4K_spec h.heap.inv ZONE_NORMAL_INDEX PG_PTABLE_MAPPED with
    ha | ⟨mms, f, zi, hz, ha, hh⟩
  · -- there is no frame
    refine Or.inl ⟨s₁, objs₁, ?_, h.toRangeHeld, Or.inr (Or.inl ?_)⟩
    · rw [KMem.mapRangePage, ha]
    · rw [framesTaken, h.mms, Option.bind_some, ha]
  obtain ⟨s₂, hs₂⟩ : ∃ s₂, s₂ =
    { s₁ with mms := mms }.clear (phyToVirt (mms.page f).phyAddr) PAGE_4K_SIZE := ⟨_, rfl⟩
  have hf := h.toHeapTree.frameCleared hd hz hh
  rw [← hs₂] at hf
  have hfree := (h.heap.frameTaken hz hh).2.2
  have hclear : s₂.word
      = fill s₁.word (phyToVirt (f * PAGE_4K_SIZE) / 8) (PAGE_4K_SIZE / 8) 0 := by
    rw [← hf.phyAddr, hf.mms, hs₂]
    rfl
  have hmms : framesTaken s.mms (frames.length + 1) = some mms := by
    rw [framesTaken, h.mms, Option.bind_some, ha]
  have hvlt : v < USER_LIMIT := huser (h.length_lt hd hfree (hf.user.lt hd).1)
  have hval : PAGE_4K_SIZE ∣ v := hv ▸ Dvd.dvd.add hal (Nat.dvd_mul_left ..)
  have hdvd : PAGE_4K_SIZE ∣ (s₂.mms.page f).phyAddr := by
    rw [hf.phyAddr]
    exact Nat.dvd_mul_left ..
  have hcall : s₁.mapRangePage pgd v = _ := mapRangePage_eq ha
  rw [← hs₂] at hcall
  have hnext := h.mapping_next hal (hv ▸ hvlt)
  have hmiss := h.missing_le hal (hv ▸ hvlt)
  have hleft := h.left
  rw [← hv] at hnext hmiss
  obtain ⟨s₃, objs₃, hmade, ⟨hmap, hwhy⟩ | ⟨a, hmap, hslot, hnone, hfew⟩⟩ :=
    hf.tree.mapPage4K_made hd hvlt hval (h.room hal hroom hn hv hvlt hmms hf) hdvd PEA_USER_PAGE
  · left
    obtain ⟨s₄, hgive, hheld⟩ := h.refusedPage hd hf hmade
    refine ⟨s₄, objs₃, ?_, hheld, ?_⟩
    · rw [hcall, hmap, Option.bind_some, if_pos (show -(ENOMEM : Int) ≠ 0 by decide), hgive]
      rfl
    · rcases hwhy with hmapped | hlack
      · left
        rw [← hv, ← hnext, ← hf.same v hvlt]
        exact hmapped
      · right
        right
        rw [hf.missing v hvlt, hf.cache] at hlack
        omega
  · right
    rw [hf.same v hvlt, hnext] at hnone
    rw [hf.phyAddr, flags_and_not (by decide)] at hmap
    refine ⟨_, objs₃, f, ?_, h.mappedPage hd hal hv hvlt hnone hmms hf hclear hfree hmade hslot hfew⟩
    rw [hcall, hmap]
    rfl

end

/-- **The first loop** maps its pages, or ends at one of them for a reason. -/
theorem RangeMade.mapRange (hd : DirectMap m₀ pool) (hal : PAGE_4K_SIZE ∣ first)
    (hroom : RangeRoom s pgd first n)
    (huser : ∀ k < n, k < m₀.pagesCount → first + k * PAGE_4K_SIZE < USER_LIMIT) :
    ∀ (m : Nat) (s₁ : KMem) (objs₁ : List Obj) (frames : List Nat),
      RangeMade m₀ pool pgd s out objs first frames s₁ objs₁ → frames.length + m = n →
      (∃ s₂ objs₂ frames₂, KMem.mapRange pgd m (first + frames.length * PAGE_4K_SIZE) s₁
          = some (s₂, none) ∧ frames₂.length = n ∧
          RangeMade m₀ pool pgd s out objs first frames₂ s₂ objs₂) ∨
        ∃ s₂ objs₂ frames₂, KMem.mapRange pgd m (first + frames.length * PAGE_4K_SIZE) s₁
          = some (s₂, some (first + frames₂.length * PAGE_4K_SIZE)) ∧ frames₂.length < n ∧
          RangeHeld m₀ pool pgd s out objs first frames₂ s₂ objs₂ ∧
          RangeStops s pgd first frames₂.length := by
  intro m
  induction m with
  | zero => exact fun s₁ objs₁ frames h hlen => Or.inl ⟨s₁, objs₁, frames, rfl, hlen, h⟩
  | succ m ih =>
      intro s₁ objs₁ frames h hlen
      have hn : frames.length < n := by omega
      rcases h.page hd hal hn hroom (huser _ hn) with
        ⟨s₂, objs₂, he, hheld, hstops⟩ | ⟨s₂, objs₂, f, he, hmade⟩
      · right
        refine ⟨s₂, objs₂, frames, ?_, hn, hheld, hstops⟩
        rw [KMem.mapRange, he]
      · have hlen₂ : (frames ++ [f]).length = frames.length + 1 := by
          rw [List.length_append, List.length_singleton]
        have hrest := ih s₂ objs₂ _ hmade (by omega)
        have hnext : first + (frames ++ [f]).length * PAGE_4K_SIZE
            = first + frames.length * PAGE_4K_SIZE + PAGE_4K_SIZE := by
          rw [hlen₂, Nat.add_mul, Nat.one_mul, Nat.add_assoc]
        rw [hnext] at hrest
        rw [KMem.mapRange, he]
        exact hrest

/-! ## The specification -/

/-- The number of pages of a range, rounded to whole pages. -/
def rangePages (start size : Nat) : Nat :=
  (start + size + (PAGE_4K_SIZE - 1)) / PAGE_4K_SIZE - start / PAGE_4K_SIZE

/-- The `n` pages from `first` on, not mapped before, have been mapped to frames of zeros of their own,
which were free; nothing else has changed but the tables. -/
structure RangeMapped (s : KMem) (objs : List Obj) (pgd first n : Nat) (s' : KMem) : Prop where
  before : ∀ i < n, mapping s.word pgd (first + i * PAGE_4K_SIZE) = none
  frames : ∃ frames : List Nat, frames.length = n ∧ frames.Nodup ∧
    (∀ u < USER_LIMIT, mapping s'.word pgd u = rangeMapping (mapping s.word pgd) first frames u) ∧
    (∀ f ∈ frames, ∀ i < PAGE_4K_SIZE / 8, s'.word (phyToVirt (f * PAGE_4K_SIZE) / 8 + i) = 0) ∧
    ∀ x, s'.mms.freeBlocks x + frames.count x = s.mms.freeBlocks x
  kept : HeapKept objs pgd s s'

/-- **`MapUserRange4K` does all or nothing**: it returns 0 and has mapped all pages of the range, or it
has come to one that cannot be mapped, and nothing is mapped and all frames are free again. -/
def RangeAnswered (s : KMem) (objs : List Obj) (pgd start size : Nat) : Prop :=
  ∃ s' r, s.mapUserRange4K pgd start size = some (s', r) ∧ PageTree s'.word pgd ∧
    ((r = 0 ∧ RangeMapped s objs pgd (alignDown PAGE_4K_SIZE start) (rangePages start size) s') ∨
      (r ≠ 0 ∧ FaultRefused s objs pgd s' ∧
        ∃ k < rangePages start size, RangeStops s pgd (alignDown PAGE_4K_SIZE start) k))

/-- The range is one of user space, as far as there are page structures for its pages. -/
def UserRange (m : MMS) (start size : Nat) : Prop :=
  start + size + (PAGE_4K_SIZE - 1) < 2 ^ 64 ∧
    ∀ i < rangePages start size, i < m.pagesCount →
      alignDown PAGE_4K_SIZE start + i * PAGE_4K_SIZE < USER_LIMIT

/-- The number of pages as the code has it. -/
theorem UserRange.pages {m : MMS} {start size : Nat} (h : UserRange m start size) :
    (alignUp64 PAGE_4K_SIZE (add64 start size) - alignDown PAGE_4K_SIZE start) / PAGE_4K_SIZE
      = rangePages start size := by
  have hwrap := h.1
  have hsize : PAGE_4K_SIZE = 4096 := rfl
  unfold rangePages alignUp64 alignDown add64
  rw [hsize] at hwrap ⊢
  omega

/-- The call as its two loops. -/
theorem UserRange.call_eq {m : MMS} {start size : Nat} (h : UserRange m start size) (s : KMem)
    (pgd : Nat) : s.mapUserRange4K pgd start size
      = (KMem.mapRange pgd (rangePages start size) (alignDown PAGE_4K_SIZE start) s).bind (fun r =>
          match r.2 with
          | none => some (r.1, 0)
          | some vaddr => (KMem.unmapRange pgd (alignDown PAGE_4K_SIZE start)
              ((vaddr - alignDown PAGE_4K_SIZE start) / PAGE_4K_SIZE) r.1).map
                (·, -(ENOMEM : Int))) := by
  rw [KMem.mapUserRange4K, h.pages]
  rcases KMem.mapRange pgd (rangePages start size) (alignDown PAGE_4K_SIZE start) s with
    _ | ⟨s₁, _ | v⟩ <;> rfl

/-- **`MapUserRange4K`**, where the class of pages need not grow, has made its pages, or everything is
as before the call. -/
theorem HeapTree.rangeRun (hd : DirectMap m₀ pool) (h : HeapTree m₀ pool pgd s out objs)
    {start size : Nat} (huser : UserRange m₀ start size)
    (hroom : RangeRoom s pgd (alignDown PAGE_4K_SIZE start) (rangePages start size)) :
    (∃ s' objs' frames, s.mapUserRange4K pgd start size = some (s', 0) ∧
        frames.length = rangePages start size ∧
        RangeMade m₀ pool pgd s out objs (alignDown PAGE_4K_SIZE start) frames s' objs') ∨
      ∃ s' objs' k, s.mapUserRange4K pgd start size = some (s', -(ENOMEM : Int)) ∧
        k < rangePages start size ∧
        RangeHeld m₀ pool pgd s out objs (alignDown PAGE_4K_SIZE start) [] s' objs' ∧
        RangeStops s pgd (alignDown PAGE_4K_SIZE start) k := by
  obtain ⟨first, hfirst⟩ : ∃ first, first = alignDown PAGE_4K_SIZE start := ⟨_, rfl⟩
  have hal : PAGE_4K_SIZE ∣ first := hfirst ▸ dvd_alignDown _ _
  have hcall := huser.call_eq s pgd
  have huser' := huser.2
  rw [← hfirst] at hcall hroom huser' ⊢
  have hrun := RangeMade.mapRange hd hal hroom huser' (rangePages start size) s objs []
    (h.rangeMade first) (Nat.zero_add _)
  rw [List.length_nil, Nat.zero_mul, Nat.add_zero] at hrun
  rcases hrun with ⟨s₁, objs₁, frames, he, hlen, hmade⟩ | ⟨s₁, objs₁, frames, he, hlt, hheld, hstops⟩
  · refine Or.inl ⟨s₁, objs₁, frames, ?_, hlen, hmade⟩
    rw [hcall, he]
    rfl
  · obtain ⟨s₂, hback, hnothing⟩ := hheld.unmapRange hd h hal
    refine Or.inr ⟨s₂, objs₁, frames.length, ?_, hlt, hnothing, hstops⟩
    rw [hcall, he, Option.bind_some]
    dsimp only
    rw [Nat.add_sub_cancel_left, Nat.mul_div_cancel _ (by decide), hback]
    rfl

/-- So it does all or nothing. -/
theorem HeapTree.rangeAnswered (hd : DirectMap m₀ pool) (h : HeapTree m₀ pool pgd s out objs)
    {start size : Nat} (huser : UserRange m₀ start size)
    (hroom : RangeRoom s pgd (alignDown PAGE_4K_SIZE start) (rangePages start size)) :
    RangeAnswered s objs pgd start size := by
  rcases h.rangeRun hd huser hroom with
    ⟨s', objs', frames, he, hlen, hmade⟩ | ⟨s', objs', k, he, hk, hheld, hstops⟩
  · refine ⟨s', 0, he, hmade.tree, Or.inl ⟨rfl, fun i hi => ?_, ⟨frames, hlen, hmade.nodup,
      hmade.map, hmade.zero, hmade.freeBlocks h⟩, hmade.step.kept⟩⟩
    exact hmade.before i (hlen ▸ hi)
  · exact ⟨s', -(ENOMEM : Int), he, hheld.tree, Or.inr ⟨by decide, hheld.refused h, k, hk, hstops⟩⟩

end

/-- **`MapUserRange4K`**, in every kernel that runs, does all or nothing where `RangeRoom` holds. -/
theorem mapUserRange4K_all_or_nothing {img : KernelImage} {k : Kernel} (hk : KernelReachable img k)
    {pgd : Nat} (ht : PageTree k.mem.word pgd) (hown : k.Owns pgd) {start size : Nat}
    (huser : UserRange k.mem.mms start size)
    (hroom : RangeRoom k.mem pgd (alignDown PAGE_4K_SIZE start) (rangePages start size)) :
    RangeAnswered k.mem k.live pgd start size := by
  have hinv := hk.inv.heap
  have htree : HeapTree _ _ pgd k.mem _ k.live := ⟨hinv, ht, hown⟩
  refine htree.rangeAnswered (directMap_init img) ⟨huser.1, fun i hi hlt => ?_⟩ hroom
  refine huser.2 i hi ?_
  rw [hinv.layout.pagesCount]
  exact hlt

/-! ## An example -/

/-- Three pages, of which the last two lie in another table than the first. -/
theorem userRange_three {m : MMS} : UserRange m 0x403ff000 0x3000 := by
  have hpages : rangePages 0x403ff000 0x3000 = 3 := by decide
  refine ⟨by decide, fun i hi _ => ?_⟩
  rw [hpages] at hi
  interval_cases i <;> decide

theorem mapUserRange4K_example : ∃ k pgd, KernelReachable exampleImage k ∧
    RangeAnswered k.mem k.live pgd 0x403ff000 0x3000 := by
  obtain ⟨k, hk⟩ := examplePages 1 (by decide)
  obtain ⟨pgd, -, ht, hown, -⟩ := hk.tree (by decide)
  refine ⟨k, pgd, hk.reachable, mapUserRange4K_all_or_nothing hk.reachable ht hown userRange_three
    (fun i hi _ _ _ => Or.inl ?_)⟩
  rw [show rangePages 0x403ff000 0x3000 = 3 by decide] at hi
  refine (rangeMissing_le ..).trans ?_
  rw [hk.free]
  omega

theorem userRange_example {m : MMS} : UserRange m 0x40200000 0x1000 := by
  have hpages : rangePages 0x40200000 0x1000 = 1 := by decide
  refine ⟨by decide, fun i hi _ => ?_⟩
  obtain rfl : i = 0 := by omega
  decide

/-- With all 512 objects of class 0x1000 in use, one page needs three tables. -/
theorem mapUserRange4K_not_all_or_nothing : ¬ ∀ img k pgd start size, KernelReachable img k →
    PageTree k.mem.word pgd → k.Owns pgd → UserRange k.mem.mms start size →
    RangeAnswered k.mem k.live pgd start size := by
  intro hall
  obtain ⟨k, hk⟩ := examplePages 512 le_rfl
  obtain ⟨pgd, -, ht, hown, hempty⟩ := hk.tree (by decide)
  have hinv : HeapInv _ _ k.mem (fun _ => 0) k.live := hk.inv.inv
  have hv : 0x40200000 < USER_LIMIT := by decide
  have hal : PAGE_4K_SIZE ∣ 0x40200000 := by decide
  have hpages : rangePages 0x40200000 0x1000 = 1 := by decide
  have hdown : alignDown PAGE_4K_SIZE 0x40200000 = 0x40200000 := by decide
  obtain ⟨s', r, he, -, hres⟩ := hall exampleImage k pgd 0x40200000 0x1000 hk.reachable ht hown
    userRange_example
  obtain ⟨m₁, f, zi, hz, ha, hh, m₂, block, -, -, hb, -⟩ :=
    example_frame_block hinv hk.inv.tails PG_PTABLE_MAPPED
  have hmiss : missingTables k.mem.word pgd 0x40200000 = 3 := (hempty _ hv).2
  have hfree : (k.mem.cache 7).totalFree = 0 := by rw [hk.free]
  have hroom : ¬ TableRoom { k.mem with mms := m₁ } (missingTables k.mem.word pgd 0x40200000) := by
    rw [hmiss]
    rintro ((hle | hno) | ⟨heq, -⟩)
    · have hle' : 3 ≤ (k.mem.cache 7).totalFree := hle
      omega
    · exact hno m₂ block hb
    · have heq' : 3 = (k.mem.cache 7).totalFree + 1 := heq
      omega
  have htree : HeapTree _ _ pgd k.mem (fun _ => 0) k.live := ⟨hinv, ht, hown⟩
  rw [(userRange_example (m := k.mem.mms)).call_eq, hpages, hdown, KMem.mapRange] at he
  rw [hpages, hdown] at hres
  rcases htree.mapRangePage_harm (directMap_init exampleImage) hv hal hz ha hh hroom with
    hgone | ⟨s₁, b, u, hpage, hu, hbefore, hafter, hother⟩
  · rw [hgone] at he
    cases he
  rw [hpage] at he
  cases b with
  | true =>
      -- the call returns 0, and another page is mapped
      cases he
      obtain ⟨-, hmapped⟩ := hres.resolve_right (fun hc => hc.1 rfl)
      obtain ⟨frames, hlen, -, hmap, -⟩ := hmapped.frames
      obtain ⟨g, rfl⟩ := List.length_eq_one_iff.mp hlen
      apply hafter
      have hone := rangeMapping_concat (mapping k.mem.word pgd) hal [] g u
      rw [List.nil_append, List.length_nil, Nat.zero_mul, Nat.add_zero, if_neg (hother rfl),
        rangeMapping_nil, hbefore] at hone
      rw [hmap u hu, hone]
  | false =>
      -- the call fails, and a page is mapped
      cases he
      obtain ⟨-, hrefused, -⟩ := hres.resolve_left (fun hc => absurd hc.1 (by decide))
      exact hafter ((hrefused.same u hu).trans hbefore)

end Talios
