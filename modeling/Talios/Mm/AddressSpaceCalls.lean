import Talios.Mm.AddressSpaceStep

set_option autoImplicit false

/-! # `do_mmap` and `do_munmap` over the kernel

Both keep `SpaceInv`. For `do_munmap` the loop over the areas is followed twice: up to the first
area that meets the range, where an area may be split and `kmalloc` is called, and from there on,
where every area starts inside the range or behind it and frames only come back.
-/

namespace Talios

open Word Bitmap Dyadic Radix

section

variable {m₀ : MMS} {pool : Nat → Slab} {s : KMem} {out : Nat → Nat} {objs : List Obj} {pgd : Nat}
  {areas : List VmArea}

/-! ## `do_mmap` -/

/-- `do_mmap` gets as far as `kmalloc`. -/
def MmapAllocates (mm : Lmm) (a : MmapArgs) : Prop :=
  ∃ len, mmapCheck a = .ok len ∧ getUnmappedArea mm a.addr len a.flags < 2 ^ 63 ∧
    (hasFlag a.flags MAP_FIXED && !rangeIsFree mm (getUnmappedArea mm a.addr len a.flags) len)
      = false

/-- A block `kmalloc` has just handed out is no area of the list. -/
theorem SpaceInv.fresh_area {p : Nat}
    (h : SpaceInv m₀ pool s pgd areas out (⟨p, VMA_STRUCT_SIZE⟩ :: objs))
    (hb : ∀ v ∈ areas, (⟨v.self, VMA_STRUCT_SIZE⟩ : Obj) ∈ objs) : p ∉ areas.map VmArea.self := by
  intro hp
  obtain ⟨v, hv, rfl⟩ := List.mem_map.mp hp
  have hnd := h.heap.nodup
  rw [List.map_cons, List.nodup_cons] at hnd
  exact hnd.1 (List.mem_map.mpr ⟨_, hb v hv, rfl⟩)

/-- **`do_mmap`** keeps the invariant, whatever it returns. -/
theorem SpaceInv.mmap (hd : DirectMap m₀ pool) {mm : Lmm}
    (h : SpaceInv m₀ pool s mm.pgd mm.vmaList out objs) (hareas : AreasOk mm.self mm.vmaList)
    {a : MmapArgs} (hroom : MmapAllocates mm a → HeapRoom s VMA_STRUCT_SIZE) :
    ∃ mm' s' r objs', doMmap kernelEnv mm a (some s) = (mm', some s', r) ∧ mm'.pgd = mm.pgd ∧
      SpaceInv m₀ pool s' mm'.pgd mm'.vmaList out objs' := by
  unfold doMmap
  cases hc : mmapCheck a with
  | error e => exact ⟨mm, s, e, objs, rfl, rfl, h⟩
  | ok len =>
      dsimp only
      split
      · exact ⟨mm, s, _, objs, rfl, rfl, h⟩
      rename_i haddr
      split
      · exact ⟨mm, s, _, objs, rfl, rfl, h⟩
      rename_i hfixed
      have hr := hroom ⟨len, hc, Nat.lt_of_not_le haddr, by simpa using hfixed⟩
      set addr := getUnmappedArea mm a.addr len a.flags
      rcases h.kmalloc hd hr with he | ⟨s₁, p, he, h₁, -⟩
      · rw [he]
        exact ⟨mm, s, _, objs, rfl, rfl, h⟩
      · rw [he]
        dsimp only
        have hfresh := h₁.fresh_area h.blocks
        rcases insertVma_cases hareas (mmapArea mm a p addr len) with ⟨r, hr1, hi⟩ | ⟨l, hi, hperm⟩
        · -- the block goes back
          obtain ⟨s₂, he₂, h₂, -⟩ := h₁.kfree hd List.mem_cons_self hfresh
          rw [hi]
          split
          · rename_i h1
            exact absurd (Prod.mk.inj h1).2 hr1
          · rename_i mm' ret _ h1
            obtain ⟨rfl, rfl⟩ := Prod.mk.inj h1
            exact ⟨mm, s₂, _, _, by rw [he₂], rfl, h₂⟩
        · rw [hi]
          have hmem : ∀ v ∈ mm.vmaList, v ∈ l := fun v hv =>
            hperm.mem_iff.mpr (List.mem_cons_of_mem _ hv)
          have hold : ∀ {P : VmArea → Prop},
              P { mmapArea mm a p addr len with vmMm := mm.self } → (∀ v ∈ mm.vmaList, P v) →
              ∀ v ∈ l, P v :=
            fun h1 h2 v hv => List.forall_mem_cons.mpr ⟨h1, h2⟩ v (hperm.mem_iff.mp hv)
          refine ⟨_, s₁, addr, _, rfl, rfl, h₁.heap, h₁.tables, fun n f b hf => ?_,
            hold List.mem_cons_self (fun v hv => h₁.blocks v hv), ?_,
            hold (mmapCheck_anon hc) h₁.anon⟩
          · obtain ⟨v, hv, hp⟩ := h₁.cover n f b hf
            exact ⟨v, hmem v hv, hp⟩
          · rw [(hperm.map VmArea.self).nodup_iff, List.map_cons, List.nodup_cons]
            exact ⟨hfresh, h₁.nodup⟩

/-! ## `do_munmap` -/

/-- Leaves have only been cleared, and the frames of those that were are free. -/
structure Released (m₀ : MMS) (pgd : Nat) (s : KMem) (out : Nat → Nat) (s' : KMem)
    (out' : Nat → Nat) : Prop where
  leaf : ∀ n, userLeaf s'.word pgd n = userLeaf s.word pgd n ∨ userLeaf s'.word pgd n = 0
  freed : ∀ n f b, UserFrame m₀ out f → userLeaf s.word pgd n = userPage f b →
    userLeaf s'.word pgd n = 0 → out' f = 0 ∧ ¬ HeapFrame m₀ s' f

/-- Frames no one uses have not been taken. -/
def StayFree (m₀ : MMS) (s : KMem) (out : Nat → Nat) (s' : KMem) (out' : Nat → Nat) : Prop :=
  ∀ f < m₀.pagesCount, out f = 0 → ¬ HeapFrame m₀ s f → out' f = 0 ∧ ¬ HeapFrame m₀ s' f

/-- The leaves are the same. -/
theorem Released.of_leaf {s' : KMem} (out' : Nat → Nat)
    (h : ∀ n, userLeaf s'.word pgd n = userLeaf s.word pgd n) : Released m₀ pgd s out s' out' :=
  ⟨fun n => Or.inl (h n), fun n f b _ he h0 => by
    rw [h, he] at h0
    exact absurd h0 (userPage_ne_zero f b)⟩

theorem Released.trans (hd : DirectMap m₀ pool) {s₁ s₂ : KMem} {out₁ out₂ : Nat → Nat}
    {objs₁ : List Obj} (ht : TablesInv m₀ s₁.word pgd out₁ objs₁)
    (h : Released m₀ pgd s out s₁ out₁) (h' : Released m₀ pgd s₁ out₁ s₂ out₂)
    (hs : StayFree m₀ s₁ out₁ s₂ out₂) : Released m₀ pgd s out s₂ out₂ := by
  refine ⟨fun n => ?_, fun n f b hf he h0 => ?_⟩
  · rcases h'.leaf n with h1 | h1
    · rw [h1]; exact h.leaf n
    · exact Or.inr h1
  · rcases h.leaf n with h1 | h1
    · rw [he] at h1
      exact h'.freed n f b (ht.userFrame hd (lt_trans (hf.lt hd).2 (by decide)) h1) h1 h0
    · obtain ⟨h2, h3⟩ := h.freed n f b hf he h1
      exact hs f (hf.lt hd).1 h2 h3

theorem StayFree.trans {s₁ s₂ : KMem} {out₁ out₂ : Nat → Nat} (h : StayFree m₀ s out s₁ out₁)
    (h' : StayFree m₀ s₁ out₁ s₂ out₂) : StayFree m₀ s out s₂ out₂ := by
  intro f hlt hf hx
  obtain ⟨h1, h2⟩ := h f hlt hf hx
  exact h' f hlt h1 h2

/-- **Part of an area is unmapped**: `l` is what is left of the area. -/
theorem SpaceInv.unmapPart (hd : DirectMap m₀ pool) {pre rest l : List VmArea} {v : VmArea}
    (h : SpaceInv m₀ pool s pgd (pre ++ v :: rest) out objs) {us ue : Nat}
    (hus : PAGE_4K_SIZE ∣ us) (hue : PAGE_4K_SIZE ∣ ue) (hle : us ≤ ue) (huser : ue ≤ USER_LIMIT)
    (hleft : ∀ n, v.HasPage n → ¬ (us ≤ n * PAGE_4K_SIZE ∧ n * PAGE_4K_SIZE < ue) →
      ∃ w ∈ l, w.HasPage n ∧ w.prot = v.prot)
    (hblocks : ∀ w ∈ l, (⟨w.self, VMA_STRUCT_SIZE⟩ : Obj) ∈ objs)
    (hnodup : ((pre ++ l ++ rest).map VmArea.self).Nodup)
    (hanon : ∀ w ∈ l, hasFlag w.mmapFlags MAP_ANONYMOUS = true ∧ w.file = none) :
    ∃ s' out', kernelEnv.unmapAnonymousPages (some s) pgd us ue = some s' ∧
      SpaceInv m₀ pool s' pgd (pre ++ l ++ rest) out' objs ∧ Released m₀ pgd s out s' out' ∧
      StayFree m₀ s out s' out' ∧
      ∀ n, us ≤ n * PAGE_4K_SIZE → n * PAGE_4K_SIZE < ue → userLeaf s'.word pgd n = 0 := by
  obtain ⟨lo, rfl⟩ := hus
  obtain ⟨hi, rfl⟩ := hue
  have hlh : lo ≤ hi := Nat.le_of_mul_le_mul_left hle (by decide)
  have hrange : ∀ n, (PAGE_4K_SIZE * lo ≤ n * PAGE_4K_SIZE ∧ n * PAGE_4K_SIZE < PAGE_4K_SIZE * hi)
      ↔ (lo ≤ n ∧ n < lo + (hi - lo)) := by
    intro n
    unfold PAGE_4K_SIZE PAGE_4K_SHIFT
    omega
  obtain ⟨s', out', he, hu⟩ := unmapLoop_spec hd (hi - lo) lo s out h.heap h.tables (by
    rw [Nat.add_sub_cancel' hlh, Nat.mul_comm]; exact huser)
  have hfuel : (PAGE_4K_SIZE * hi - PAGE_4K_SIZE * lo + (PAGE_4K_SIZE - 1)) / PAGE_4K_SIZE
      = hi - lo := by
    unfold PAGE_4K_SIZE PAGE_4K_SHIFT
    omega
  have hstay : StayFree m₀ s out s' out' := by
    intro f hlt hf hx
    have hsh : s'.shapes = s.shapes := by unfold KMem.shapes; rw [hu.cache]
    refine ⟨?_, by unfold HeapFrame at hx ⊢; rwa [hsh]⟩
    -- a frame no one holds is not mapped, so it is not touched
    rw [hu.kept f (fun n b _ _ hfe => ?_), hf]
    have hlt' : f * PAGE_4K_SIZE < 2 ^ 64 := by
      calc f * PAGE_4K_SIZE ≤ m₀.pagesCount * PAGE_4K_SIZE := Nat.mul_le_mul_right _ hlt.le
        _ ≤ 2 ^ 47 := hd.count
        _ < 2 ^ 64 := by decide
    have := (h.tables.userFrame hd hlt' hfe).out
    omega
  refine ⟨s', out', ?_, ⟨hu.heap, hu.tables, fun n f b hfe => ?_, fun w hw => ?_, hnodup,
    fun w hw => ?_⟩, ⟨fun n => ?_, fun n f b hf hfe h0 => ?_⟩, hstay, fun n h1 h2 => ?_⟩
  · simp only [kernelEnv, Option.bind_some, unmapAnonymousPages, hfuel]
    rw [Nat.mul_comm]
    exact he
  · rw [hu.leaf] at hfe
    split at hfe
    · exact absurd hfe.symm (userPage_ne_zero f b)
    · rename_i hout
      rw [← hrange] at hout
      obtain ⟨w, hw, hp, hb⟩ := h.cover n f b hfe
      rcases List.mem_append.mp hw with hw | hw
      · exact ⟨w, by simp [hw], hp, hb⟩
      · rcases List.mem_cons.mp hw with rfl | hw
        · obtain ⟨w', hw', hp', he'⟩ := hleft n hp hout
          exact ⟨w', by simp [hw'], hp', by rw [hb, he']⟩
        · exact ⟨w, by simp [hw], hp, hb⟩
  · rcases List.mem_append.mp hw with hw | hw
    · rcases List.mem_append.mp hw with hw | hw
      · exact h.blocks w (by simp [hw])
      · exact hblocks w hw
    · exact h.blocks w (by simp [hw])
  · rcases List.mem_append.mp hw with hw | hw
    · rcases List.mem_append.mp hw with hw | hw
      · exact h.anon w (by simp [hw])
      · exact hanon w hw
    · exact h.anon w (by simp [hw])
  · rw [hu.leaf]
    split
    · exact Or.inr rfl
    · exact Or.inl rfl
  · rw [hu.leaf] at h0
    split at h0
    · rename_i hin
      have hout := hu.freed n f b hin.1 hin.2 hf hfe
      have hsh : s'.shapes = s.shapes := by unfold KMem.shapes; rw [hu.cache]
      refine ⟨hout, ?_⟩
      have hno := (h.heap.toHeapCore.held hf).2.1
      unfold HeapFrame at hno ⊢
      rwa [hsh]
    · rw [hfe] at h0
      exact absurd h0 (userPage_ne_zero f b)
  · rw [hu.leaf, if_pos ((hrange n).mp ⟨h1, h2⟩)]

/-- Taking one area out of a list leaves its blocks apart. -/
theorem not_mem_of_nodup {pre rest : List VmArea} {v : VmArea}
    (h : ((pre ++ v :: rest).map VmArea.self).Nodup) :
    v.self ∉ (pre ++ rest).map VmArea.self ∧ ((pre ++ rest).map VmArea.self).Nodup := by
  rw [(List.perm_middle.map VmArea.self).nodup_iff, List.map_cons, List.nodup_cons] at h
  exact h

/-- The area keeps its block when its bounds change. -/
theorem nodup_of_self_eq {pre rest : List VmArea} {v w : VmArea} (hw : w.self = v.self)
    (h : ((pre ++ v :: rest).map VmArea.self).Nodup) :
    ((pre ++ [w] ++ rest).map VmArea.self).Nodup := by
  simpa [hw] using h

variable {mm : Lmm} {addr stop : Nat}

/-- What the loop of `do_munmap` has done: `l` are the areas it was given, `r` its result. -/
structure Munmapped (m₀ : MMS) (pool : Nat → Slab) (mm : Lmm) (addr stop : Nat)
    (pre l : List VmArea) (s : KMem) (out : Nat → Nat) (r : List VmArea × Option KMem × Int)
    (s' : KMem) (out' : Nat → Nat) (objs' : List Obj) : Prop where
  mem : r.2.1 = some s'
  inv : SpaceInv m₀ pool s' mm.pgd (pre ++ r.1) out' objs'
  released : Released m₀ mm.pgd s out s' out'
  absent : r.2.2 = 0 → ∀ v ∈ l, ∀ n, v.HasPage n → addr ≤ n * PAGE_4K_SIZE →
    n * PAGE_4K_SIZE < stop → userLeaf s'.word mm.pgd n = 0

/-- The loop stops here. -/
theorem Munmapped.done {pre l : List VmArea} (h : SpaceInv m₀ pool s mm.pgd (pre ++ l) out objs)
    {ret : Int} (habs : ret = 0 → ∀ v ∈ l, stop ≤ v.start) :
    Munmapped m₀ pool mm addr stop pre l s out (l, some s, ret) s out objs := by
  refine ⟨rfl, h, Released.of_leaf out (fun _ => rfl), fun h0 v hv n hp _ hn => ?_⟩
  have := habs h0 v hv
  unfold VmArea.HasPage at hp
  omega

/-- The loop goes on behind the area `v`, of which `l` is left. -/
theorem Munmapped.next (hd : DirectMap m₀ pool) {pre rest l : List VmArea} {v : VmArea}
    {s₁ s' : KMem} {out₁ out' : Nat → Nat} {objs₁ objs' : List Obj}
    {r : List VmArea × Option KMem × Int}
    (h₁ : SpaceInv m₀ pool s₁ mm.pgd (pre ++ l ++ rest) out₁ objs₁)
    (hrel : Released m₀ mm.pgd s out s₁ out₁)
    (habs : ∀ n, v.HasPage n → addr ≤ n * PAGE_4K_SIZE → n * PAGE_4K_SIZE < stop →
      userLeaf s₁.word mm.pgd n = 0)
    (hr : Munmapped m₀ pool mm addr stop (pre ++ l) rest s₁ out₁ r s' out' objs')
    (hstay : StayFree m₀ s₁ out₁ s' out') :
    Munmapped m₀ pool mm addr stop pre (v :: rest) s out (l ++ r.1, r.2) s' out' objs' := by
  refine ⟨hr.mem, by rw [← List.append_assoc]; exact hr.inv,
    hrel.trans hd h₁.tables hr.released hstay, fun h0 w hw n hp h1 h2 => ?_⟩
  rcases List.mem_cons.mp hw with rfl | hw
  · rcases hr.released.leaf n with he | he
    · rw [he, habs n hp h1 h2]
    · exact he
  · exact hr.absent h0 w hw n hp h1 h2

/-- **The loop of `do_munmap` on areas that start in its range or behind it**: no area is split,
so `kmalloc` is not called and no frame is taken. -/
theorem SpaceInv.munmapRest (hd : DirectMap m₀ pool) (hs : PAGE_4K_SIZE ∣ stop) (addr : Nat) :
    ∀ (l pre : List VmArea) (s : KMem) (out : Nat → Nat) (objs : List Obj) (u : Bool),
      AreasOk mm.self l → (∀ v ∈ l, addr ≤ v.start) →
      SpaceInv m₀ pool s mm.pgd (pre ++ l) out objs →
      ∃ s' out' objs', Munmapped m₀ pool mm addr stop pre l s out
          (munmapLoop kernelEnv mm addr stop l (some s) u) s' out' objs' ∧
        StayFree m₀ s out s' out' := by
  intro l
  induction l with
  | nil =>
      intro pre s out objs u _ _ h
      exact ⟨s, out, objs, Munmapped.done h (fun _ v hv => absurd hv (by simp)),
        fun f _ h1 h2 => ⟨h1, h2⟩⟩
  | cons v rest ih =>
      intro pre s out objs u hok hstart h
      obtain ⟨hv, hord, hrest⟩ := areasOk_cons.mp hok
      have hlo := hstart v (by simp)
      have hlt := hv.lt
      have hanon := h.anon v (by simp)
      have hstart' : ∀ w ∈ rest, addr ≤ w.start := fun w hw => hstart w (by simp [hw])
      rw [munmapLoop, if_neg (by omega)]
      by_cases hbehind : stop ≤ v.start
      · rw [if_pos hbehind]
        refine ⟨s, out, objs, Munmapped.done h (fun _ w hw => ?_), fun f _ h1 h2 => ⟨h1, h2⟩⟩
        rcases List.mem_cons.mp hw with rfl | hw
        · exact hbehind
        · have := hord w hw
          omega
      rw [if_neg hbehind, if_neg (by simp [hanon])]
      dsimp only
      rw [if_neg (show ¬ v.start < addr by omega)]
      set ue := if stop < v.stop then stop else v.stop with hue
      have hued : PAGE_4K_SIZE ∣ ue := by rw [hue]; split; exacts [hs, hv.stopAligned]
      have hub : v.start < ue ∧ ue ≤ v.stop ∧ (ue = stop ∨ ue = v.stop) ∧ ue ≤ stop := by
        rw [hue]
        split <;> omega
      obtain ⟨hue1, hue2, hue3, hue4⟩ := hub
      rw [if_neg (by omega)]
      -- the pages of the area in the range are those below `ue`
      have habs : ∀ n, v.HasPage n → n * PAGE_4K_SIZE < stop →
          v.start ≤ n * PAGE_4K_SIZE ∧ n * PAGE_4K_SIZE < ue := by
        intro n hp h1
        unfold VmArea.HasPage at hp
        omega
      by_cases hall : v.start = v.start ∧ ue = v.stop
      · rw [if_pos hall]
        obtain ⟨hno, hnd⟩ := not_mem_of_nodup h.nodup
        obtain ⟨s₁, out₁, he₁, h₁, hrel, hst, hz⟩ := h.unmapPart hd (l := []) hv.startAligned hued
          hue1.le (hue2.trans hv.upper) (fun n hp hn => by
            unfold VmArea.HasPage at hp
            omega) (by simp) (by simpa using hnd) (by simp)
        rw [List.append_nil] at h₁
        obtain ⟨s₂, he₂, h₂, hleaf₂, hsub₂⟩ := h₁.kfree hd (h.blocks v (by simp)) hno
        have hst₂ : StayFree m₀ s₁ out₁ s₂ out₁ := fun f _ h1 h2 => ⟨h1, fun hx => h2 (hsub₂ f hx)⟩
        rw [he₁, he₂]
        obtain ⟨s', out', objs', hm, hst'⟩ := ih pre s₂ out₁ _ true hrest hstart' h₂
        refine ⟨s', out', objs', ?_, (hst.trans hst₂).trans hst'⟩
        refine Munmapped.next hd (l := []) (by rw [List.append_nil]; exact h₂)
          (hrel.trans hd h₁.tables (Released.of_leaf out₁ hleaf₂) hst₂) (fun n hp _ h2 => ?_)
          (by rw [List.append_nil]; exact hm) hst'
        obtain ⟨h3, h4⟩ := habs n hp h2
        rw [hleaf₂, hz n h3 h4]
      · rw [if_neg hall, if_pos rfl]
        obtain ⟨s₁, out₁, he₁, h₁, hrel, hst, hz⟩ := h.unmapPart hd (l := [{ v with start := ue }])
          hv.startAligned hued hue1.le (hue2.trans hv.upper) (fun n hp hn => by
            refine ⟨_, List.mem_singleton_self _, ?_, rfl⟩
            unfold VmArea.HasPage at hp ⊢
            dsimp only
            omega) (List.forall_mem_singleton.mpr (h.blocks v (by simp)))
          (nodup_of_self_eq (v := v) (w := { v with start := ue }) rfl h.nodup)
          (List.forall_mem_singleton.mpr hanon)
        rw [he₁]
        obtain ⟨s', out', objs', hm, hst'⟩ := ih (pre ++ [{ v with start := ue }]) s₁ out₁ objs true
          hrest hstart' h₁
        refine ⟨s', out', objs', Munmapped.next hd h₁ hrel (fun n hp _ h2 => ?_) hm hst',
          hst.trans hst'⟩
        obtain ⟨h3, h4⟩ := habs n hp h2
        exact hz n h3 h4

/-- `do_munmap` splits an area. -/
def MunmapSplits (mm : Lmm) (addr len : Nat) : Prop :=
  ∃ len', munmapCheck mm addr len = some len' ∧
    ∃ v ∈ mm.vmaList, v.start < addr ∧ addr + len' < v.stop

/-- **The loop of `do_munmap`.** -/
theorem SpaceInv.munmapLoop (hd : DirectMap m₀ pool) (ha : PAGE_4K_SIZE ∣ addr)
    (hs : PAGE_4K_SIZE ∣ stop) (hlt : addr < stop) (h : SpaceInv m₀ pool s mm.pgd areas out objs)
    (hroom : (∃ v ∈ areas, v.start < addr ∧ stop < v.stop) → HeapRoom s VMA_STRUCT_SIZE) :
    ∀ l pre : List VmArea, pre ++ l = areas → AreasOk mm.self l →
      ∃ s' out' objs', Munmapped m₀ pool mm addr stop pre l s out
        (Talios.munmapLoop kernelEnv mm addr stop l (some s) false) s' out' objs' := by
  intro l
  induction l with
  | nil =>
      rintro pre rfl _
      exact ⟨s, out, objs, Munmapped.done h (fun _ v hv => absurd hv (by simp))⟩
  | cons v rest ih =>
      intro pre hpre hok
      have h' := h
      rw [← hpre] at h'
      obtain ⟨hv, hord, hrest⟩ := areasOk_cons.mp hok
      have hvlt := hv.lt
      have hanon := h'.anon v (by simp)
      rw [Talios.munmapLoop]
      by_cases hbefore : v.stop ≤ addr
      · rw [if_pos hbefore]
        obtain ⟨s', out', objs', hm⟩ := ih (pre ++ [v]) (by simpa using hpre) hrest
        refine ⟨s', out', objs', hm.mem, by simpa using hm.inv, hm.released,
          fun h0 w hw n hp h1 h2 => ?_⟩
        rcases List.mem_cons.mp hw with rfl | hw
        · unfold VmArea.HasPage at hp
          omega
        · exact hm.absent h0 w hw n hp h1 h2
      rw [if_neg hbefore]
      by_cases hbehind : stop ≤ v.start
      · rw [if_pos hbehind]
        refine ⟨s, out, objs, Munmapped.done h' (fun _ w hw => ?_)⟩
        rcases List.mem_cons.mp hw with rfl | hw
        · exact hbehind
        · have := hord w hw
          omega
      rw [if_neg hbehind, if_neg (by simp [hanon])]
      dsimp only
      have hstart' : ∀ w ∈ rest, addr ≤ w.start := fun w hw => by
        have := hord w hw
        omega
      set us := if v.start < addr then addr else v.start with hus
      set ue := if stop < v.stop then stop else v.stop with hue
      have husd : PAGE_4K_SIZE ∣ us := by rw [hus]; split; exacts [ha, hv.startAligned]
      have hued : PAGE_4K_SIZE ∣ ue := by rw [hue]; split; exacts [hs, hv.stopAligned]
      have hb : v.start ≤ us ∧ us < ue ∧ ue ≤ v.stop ∧ us ≤ max addr v.start ∧ min stop v.stop ≤ ue := by
        rw [hus, hue]
        split <;> split <;> omega
      obtain ⟨hb1, hb2, hb3, hb4, hb5⟩ := hb
      -- the pages of the area in the range are those from `us` to `ue`
      have habs : ∀ n, v.HasPage n → addr ≤ n * PAGE_4K_SIZE → n * PAGE_4K_SIZE < stop →
          us ≤ n * PAGE_4K_SIZE ∧ n * PAGE_4K_SIZE < ue := by
        intro n hp h1 h2
        unfold VmArea.HasPage at hp
        omega
      by_cases hsplit : v.start < us ∧ ue < v.stop
      · rw [if_pos hsplit]
        have hr := hroom ⟨v, by rw [← hpre]; simp, by omega, by omega⟩
        rcases h'.kmalloc hd hr with he | ⟨s₁, p, he, h₁, hleaf₁⟩
        · rw [he]
          exact ⟨s, out, objs, Munmapped.done h' (fun h0 => absurd h0 (by decide))⟩
        · rw [he]
          dsimp only
          set left : VmArea := { v with stop := us } with hleft
          set right : VmArea := { v with
            self := p, vmMm := mm.self, start := ue
            fileOffset := add64 v.fileOffset (ue - v.start) } with hright
          have hfresh := h₁.fresh_area h'.blocks
          obtain ⟨s₂, out₂, he₂, h₂, hrel, hst, hz⟩ := h₁.unmapPart hd (l := [left, right]) husd hued
            hb2.le (hb3.trans hv.upper) (fun n hp hn => by
              rcases Nat.lt_or_ge (n * PAGE_4K_SIZE) us with h3 | h3
              · exact ⟨left, by simp, ⟨hp.1, h3⟩, rfl⟩
              · refine ⟨right, by simp, ⟨?_, hp.2⟩, rfl⟩
                show ue ≤ n * PAGE_4K_SIZE
                omega)
            (by
              intro w hw
              rcases List.mem_cons.mp hw with rfl | hw
              · exact h₁.blocks v (by simp)
              · obtain rfl := List.mem_singleton.mp hw
                exact List.mem_cons_self)
            (by
              have hperm : (pre ++ [left, right] ++ rest).Perm (right :: (pre ++ [left] ++ rest)) := by
                simpa using @List.perm_middle _ right (pre ++ [left]) rest
              rw [(hperm.map VmArea.self).nodup_iff, List.map_cons, List.nodup_cons]
              refine ⟨fun hmem => hfresh ?_, nodup_of_self_eq (v := v) (w := left) rfl h₁.nodup⟩
              simpa using hmem)
            (by
              intro w hw
              rcases List.mem_cons.mp hw with rfl | hw
              · exact hanon
              · obtain rfl := List.mem_singleton.mp hw
                exact hanon)
          rw [he₂]
          obtain ⟨s', out', objs', hm, hst'⟩ := SpaceInv.munmapRest hd hs addr rest
            (pre ++ [left, right]) s₂ out₂ _ true hrest hstart' h₂
          have hrel' : Released m₀ mm.pgd s out s₂ out₂ := by
            refine ⟨fun n => ?_, fun n f b hf hfe h0 => hrel.freed n f b hf (by rw [hleaf₁, hfe]) h0⟩
            rw [← hleaf₁]
            exact hrel.leaf n
          refine ⟨s', out', objs', Munmapped.next hd h₂ hrel' (fun n hp h1 h2 => ?_) hm hst'⟩
          obtain ⟨h3, h4⟩ := habs n hp h1 h2
          exact hz n h3 h4
      rw [if_neg hsplit]
      -- the area goes, or one end of it is left
      have hpart : ∀ vs : List VmArea, (∀ n, v.HasPage n → ¬ (us ≤ n * PAGE_4K_SIZE ∧
            n * PAGE_4K_SIZE < ue) → ∃ w ∈ vs, w.HasPage n ∧ w.prot = v.prot) →
          (∀ w ∈ vs, w.self = v.self ∧ w.mmapFlags = v.mmapFlags ∧ w.file = v.file) →
          ((pre ++ vs ++ rest).map VmArea.self).Nodup →
          ∃ s₁ out₁, kernelEnv.unmapAnonymousPages (some s) mm.pgd us ue = some s₁ ∧
            SpaceInv m₀ pool s₁ mm.pgd (pre ++ vs ++ rest) out₁ objs ∧
            Released m₀ mm.pgd s out s₁ out₁ ∧ StayFree m₀ s out s₁ out₁ ∧
            ∀ n, v.HasPage n → addr ≤ n * PAGE_4K_SIZE → n * PAGE_4K_SIZE < stop →
              userLeaf s₁.word mm.pgd n = 0 := by
        intro vs h1 h2 h3
        obtain ⟨s₁, out₁, he₁, h₁, hrel, hst, hz⟩ := h'.unmapPart hd husd hued hb2.le
          (hb3.trans hv.upper) h1 (fun w hw => by
            rw [(h2 w hw).1]; exact h'.blocks v (by simp)) h3
          (fun w hw => by rw [(h2 w hw).2.1, (h2 w hw).2.2]; exact hanon)
        refine ⟨s₁, out₁, he₁, h₁, hrel, hst, fun n hp h4 h5 => ?_⟩
        obtain ⟨h6, h7⟩ := habs n hp h4 h5
        exact hz n h6 h7
      by_cases hall : us = v.start ∧ ue = v.stop
      · rw [if_pos hall]
        obtain ⟨hno, hnd⟩ := not_mem_of_nodup h'.nodup
        obtain ⟨s₁, out₁, he₁, h₁, hrel, -, hz⟩ := hpart [] (fun n hp hn => by
          unfold VmArea.HasPage at hp
          omega) (by simp) (by simpa using hnd)
        rw [List.append_nil] at h₁
        obtain ⟨s₂, he₂, h₂, hleaf₂, hsub₂⟩ := h₁.kfree hd (h'.blocks v (by simp)) hno
        have hst₂ : StayFree m₀ s₁ out₁ s₂ out₁ := fun f _ h1 h2 => ⟨h1, fun hx => h2 (hsub₂ f hx)⟩
        rw [he₁, he₂]
        obtain ⟨s', out', objs', hm, hst'⟩ := SpaceInv.munmapRest hd hs addr rest pre s₂
          out₁ _ true hrest hstart' h₂
        refine ⟨s', out', objs', Munmapped.next hd (l := []) (by rw [List.append_nil]; exact h₂)
          (hrel.trans hd h₁.tables (Released.of_leaf out₁ hleaf₂) hst₂) (fun n hp h1 h2 => ?_)
          (by rw [List.append_nil]; exact hm) hst'⟩
        rw [hleaf₂, hz n hp h1 h2]
      rw [if_neg hall]
      by_cases hfirst : us = v.start
      · rw [if_pos hfirst]
        obtain ⟨s₁, out₁, he₁, h₁, hrel, -, hz⟩ := hpart [{ v with start := ue }] (fun n hp hn => by
          refine ⟨_, List.mem_singleton_self _, ⟨?_, hp.2⟩, rfl⟩
          unfold VmArea.HasPage at hp
          show ue ≤ n * PAGE_4K_SIZE
          omega) (List.forall_mem_singleton.mpr ⟨rfl, rfl, rfl⟩)
          (nodup_of_self_eq (v := v) (w := { v with start := ue }) rfl h'.nodup)
        rw [he₁]
        obtain ⟨s', out', objs', hm, hst'⟩ := SpaceInv.munmapRest hd hs addr rest _ s₁
          out₁ objs true hrest hstart' h₁
        exact ⟨s', out', objs', Munmapped.next hd h₁ hrel hz hm hst'⟩
      · rw [if_neg hfirst]
        obtain ⟨s₁, out₁, he₁, h₁, hrel, -, hz⟩ := hpart [{ v with stop := us }] (fun n hp hn => by
          refine ⟨_, List.mem_singleton_self _, ⟨hp.1, ?_⟩, rfl⟩
          unfold VmArea.HasPage at hp
          show n * PAGE_4K_SIZE < us
          omega) (List.forall_mem_singleton.mpr ⟨rfl, rfl, rfl⟩)
          (nodup_of_self_eq (v := v) (w := { v with stop := us }) rfl h'.nodup)
        rw [he₁]
        obtain ⟨s', out', objs', hm, hst'⟩ := SpaceInv.munmapRest hd hs addr rest _ s₁
          out₁ objs true hrest hstart' h₁
        exact ⟨s', out', objs', Munmapped.next hd h₁ hrel hz hm hst'⟩

theorem munmapCheck_len {len len' : Nat} (h : munmapCheck mm addr len = some len') :
    len' = alignUp64 PAGE_4K_SIZE len := by
  unfold munmapCheck at h
  split at h
  · exact absurd h (by simp)
  split at h
  · exact absurd h (by simp)
  dsimp only at h
  split at h
  · exact absurd h (by simp)
  split at h
  · exact absurd h (by simp)
  exact (Option.some.inj h).symm

/-- **`do_munmap`** keeps the invariant, whatever it returns; where it returns 0, no page of the
range is mapped any more and the frames that were are free. -/
theorem SpaceInv.munmap (hd : DirectMap m₀ pool)
    (h : SpaceInv m₀ pool s mm.pgd mm.vmaList out objs) (hareas : AreasOk mm.self mm.vmaList)
    {len : Nat} (hroom : MunmapSplits mm addr len → HeapRoom s VMA_STRUCT_SIZE) :
    ∃ mm' s' r out' objs', doMunmap kernelEnv mm addr len (some s) = (mm', some s', r) ∧
      mm'.pgd = mm.pgd ∧ SpaceInv m₀ pool s' mm'.pgd mm'.vmaList out' objs' ∧
      (r = 0 → PAGE_4K_SIZE ∣ addr ∧ addr + alignUp64 PAGE_4K_SIZE len ≤ USER_LIMIT) ∧
      (r = 0 → ∀ n, addr ≤ n * PAGE_4K_SIZE →
        n * PAGE_4K_SIZE < addr + alignUp64 PAGE_4K_SIZE len →
        userLeaf s'.word mm.pgd n = 0 ∧ ∀ f b, UserFrame m₀ out f →
          userLeaf s.word mm.pgd n = userPage f b → out' f = 0 ∧ ¬ HeapFrame m₀ s' f) := by
  unfold doMunmap
  cases hc : munmapCheck mm addr len with
  | none => exact ⟨mm, s, _, out, objs, rfl, rfl, h, fun h0 => absurd h0 (by decide),
      fun h0 => absurd h0 (by decide)⟩
  | some len' =>
      obtain ⟨h1, h2, h3, -, h5, -⟩ := munmapCheck_spec hc
      obtain ⟨s', out', objs', hm⟩ := h.munmapLoop hd h1 (dvd_add h1 h2) (by omega)
        (fun ⟨v, hv, hv1, hv2⟩ => hroom ⟨len', hc, v, hv, hv1, hv2⟩) mm.vmaList [] rfl hareas
      dsimp only
      refine ⟨_, s', _, out', objs', Prod.ext rfl (Prod.ext hm.mem rfl), rfl, hm.inv,
        fun _ => ⟨h1, by rw [← munmapCheck_len hc]; exact h5⟩, fun h0 n hn1 hn2 => ?_⟩
      rw [← munmapCheck_len hc] at hn2
      have hzero : userLeaf s'.word mm.pgd n = 0 := by
        by_cases hl : userLeaf s.word mm.pgd n = 0
        · rcases hm.released.leaf n with he | he
          · rw [he, hl]
          · exact he
        · obtain ⟨f, b, -, he⟩ := h.tables.leaves n hl
          obtain ⟨v, hv, hp, -⟩ := h.cover n f b he
          exact hm.absent h0 v hv n hp hn1 hn2
      exact ⟨hzero, fun f b hf he => hm.released.freed n f b hf he hzero⟩

end

end Talios
