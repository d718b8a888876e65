import Talios.Memory.SlabExhaust
import Talios.Mm.FreeTablesRun
import Talios.Mm.PageTableGrow
import Talios.Mm.TableAddress

set_option autoImplicit false

/-! # A page table on a bitmap

Runs of the example's kernel that build page tables by hand: one in which no table lies on a bitmap, and
one in which the first object of a slab by which class `0x1000` has grown is a page table. Its first
entry is the first word of the bitmap of that slab, and `kfree` of a table of the same slab changes it.
-/

namespace Talios

open Word Bitmap Dyadic Radix

/-! ## The objects of class `0x1000` in use -/

section

variable {img : KernelImage} {out : Nat → Nat} {i size : Nat}

/-- `useUp` while no class has grown, with the invariant of the heap. -/
theorem usePool (hi : i < KMALLOC_SLAB_SIZE) (h5 : 5 ≤ i) (h1 : size ≤ kmallocSize i)
    (h2 : ∀ j < i, kmallocSize j < size) :
    ∀ (n : Nat) (k : Kernel), (k.mem.cache i).totalFree = n → MemoryReachable img HasLastRoom k →
      HeapInv (reservedMMS img.map (kernelReservations img.endStruct)) (cachePool img.endStruct)
        k.mem out k.live → (k.mem.shapes i).tail = [] →
      ∃ k', MemoryReachable img HasLastRoom k' ∧
        HeapInv (reservedMMS img.map (kernelReservations img.endStruct)) (cachePool img.endStruct)
          k'.mem out k'.live ∧ UsedUp k k' i size := by
  have hp := poolLayout_init img
  intro n
  induction n with
  | zero =>
      intro k hn hk hheap _
      exact ⟨k, hk, hheap, hn, rfl, rfl, fun _ _ => rfl, rfl, fun b hb => Or.inl hb⟩
  | succ n ih =>
      intro k hn hk hheap htail
      have hf : (k.mem.cache i).totalFree ≠ 0 := by omega
      obtain ⟨s', p, he, hheap', hmms, hsh, hfree, hne, -⟩ := hheap.kmalloc_pool hp hi htail hf h1 h2
        (kmallocWith (fun _ _ => none))
      have hroom : LastRoom k.mem size := by
        intro j hj
        obtain rfl := Option.some.inj (hj.symm.trans (findClass_eq hheap.size hi h1 h2))
        exact ⟨fun hlt => absurd hlt (Nat.not_lt.mpr h5), fun _ h0 => absurd h0 hf⟩
      have hstep := hk.kmalloc hroom he
      obtain ⟨k', hk', hheap'', hup⟩ := ih ⟨s', ⟨p, size⟩ :: k.live, k.blocks⟩ (by
        show (s'.cache i).totalFree = n
        omega) hstep hheap' (by rw [hsh]; exact htail)
      refine ⟨k', hk', hheap'', hup.free, hup.shapes.trans hsh, hup.mms.trans hmms,
        fun j hj => (hup.others j hj).trans (hne j hj), hup.blocks, fun b hb => ?_⟩
      rcases hup.live b hb with hb' | hb'
      · rcases List.mem_cons.mp hb' with rfl | hb'
        · exact Or.inr rfl
        · exact Or.inl hb'
      · exact Or.inr hb'

end

/-- What the example needs to know of its heap. -/
abbrev ExampleHeap (k : Kernel) : Prop :=
  HeapInv (reservedMMS exampleImage.map (kernelReservations exampleImage.endStruct))
    (cachePool exampleImage.endStruct) k.mem (blocksOut k.blocks) k.live

/-- The kernel of the example with one frame handed out and all objects of class 0x1000 in use. -/
structure ExampleFull (k : Kernel) (frame v : Nat) : Prop where
  reachable : MemoryReachable exampleImage HasLastRoom k
  heap : ExampleHeap k
  blocks : k.blocks = [(frame, 0)]
  tails : ∀ i < KMALLOC_SLAB_SIZE, (k.mem.shapes i).tail = []
  free : (k.mem.cache 7).totalFree = 0
  headers : (k.mem.cache 2).totalFree ≠ 0
  room : ∃ m' page, allocPage k.mem.mms ZONE_NORMAL_INDEX 1 0 = some (m', some page)
  pages : ∀ j < 512, PageObj k.live (v + 512 * j)
  pool : 8 * v = (cachePool exampleImage.endStruct 7).vaddress

theorem exampleFull : ∃ k frame v, ExampleFull k frame v := by
  have hp := poolLayout_init exampleImage
  have h7 : 7 < KMALLOC_SLAB_SIZE := by decide
  obtain ⟨mem, he, hinv, hfree⟩ := exampleInv_boot
  have hheap : HeapInv _ _ mem (fun _ => 0) [] := hinv.inv
  -- a frame
  obtain ⟨m₁, f, zi, hz, ha, hh, m₂, page, -, -, ha₂, -⟩ := example_frame_block hheap hinv.tails 0
  obtain ⟨hheap₁, -, -⟩ := hheap.frameTaken hz hh
  have hboot : MemoryReachable exampleImage HasLastRoom ⟨mem, [], []⟩ := MemoryReachable.boot he
  have hr₁ := hboot.step (e := .allocPages ZONE_NORMAL_INDEX 1 0) trivial
    (MemoryStep.allocPages ZONE_NORMAL_INDEX 1 0 ha)
  have hout : (fun x => 0 + ind f 0 x) = blocksOut [(f, getOrder 1)] := by
    funext x
    rw [getOrder_page]
    simp [blocksOut]
  rw [hout] at hheap₁
  -- and the objects of class 0x1000
  obtain ⟨k, hk, hheap₂, hup⟩ := @usePool exampleImage _ 7 PAGE_4K_SIZE h7 (by decide) (by decide)
    (by decide) _ _ rfl hr₁ hheap₁ (hinv.tails 7 h7)
  have hblocks : k.blocks = [(f, 0)] := by rw [hup.blocks, getOrder_page]
  obtain ⟨cp, hring, -⟩ := hheap₂.pages_used hup.free
  have hcp : cp ∈ (k.mem.cache 7).ring := by rw [hring]; simp
  have hshape : cp.shape = (cachePool exampleImage.endStruct 7).shape := by
    obtain ⟨grown, hst, -⟩ := hheap₂.rings.start 7 h7
    rw [KMem.shapes, hring, List.map_cons] at hst
    exact (List.cons.inj hst).1
  have hcount : cp.colorCount = 512 := by
    have hc : cp.shape.colorCount = (cachePool exampleImage.endStruct 7).shape.colorCount :=
      congrArg Slab.colorCount hshape
    have hpool : (cachePool exampleImage.endStruct 7).shape.colorCount = 512 := by decide
    exact hc.trans hpool
  have hacc := hheap₂.account hp
  have htaken := (hacc.taken_of_full h7 hup.free hcp).2
  have hv : cp.vaddress = (cachePool exampleImage.endStruct 7).vaddress :=
    (congrArg Slab.vaddress hshape : cp.shape.vaddress = _)
  have h8 : 8 ∣ cp.vaddress := by
    have hal : PAGE_2M_SIZE ∣ cp.vaddress := by
      rw [hv]
      exact (directMap_init exampleImage).page 7 h7
    exact Dvd.dvd.trans (by decide) hal
  refine ⟨k, f, cp.vaddress / 8, hk, ?_, hblocks, ?_, hup.free, ?_, ?_, fun j hj => ?_,
    (Nat.mul_div_cancel' h8).trans hv⟩
  · unfold ExampleHeap
    rw [hup.blocks]
    exact hheap₂
  · rw [hup.shapes]
    exact hinv.tails
  · rw [hup.others 2 (by decide)]
    show (mem.cache 2).totalFree ≠ 0
    rw [hfree 2]
    decide
  · rw [hup.mms]
    exact ⟨m₂, page, ha₂⟩
  · obtain ⟨b, hb, hptr⟩ := hacc.live_of_taken h7 (by decide) (shape_mem hcp)
      (htaken j (by omega))
    have hsize : b.size = PAGE_4K_SIZE := (hup.live b hb).resolve_left (by simp)
    have hb' : b = ⟨8 * (cp.vaddress / 8 + 512 * j), PAGE_4K_SIZE⟩ := by
      have h7' : kmallocSize 7 = 4096 := by decide
      have hptr' : b.ptr = cp.vaddress + j * kmallocSize 7 := hptr
      rw [h7'] at hptr'
      cases b with
      | mk ptr size =>
          dsimp only at hptr' hsize
          rw [hptr', hsize, Obj.mk.injEq]
          exact ⟨by omega, rfl⟩
    unfold PageObj
    rw [← hb']
    exact hb

/-! ## A tree built by hand -/

/-- Five tables: `b` is empty, and `a` has one leaf. -/
structure HandTree (w : Memory) (root q r b a : Nat) (e : BitVec 64) : Prop where
  first : ∀ i < 512, w (root + i) = if i = 0 then tableEntry q else 0
  upper : ∀ i < 512, w (q + i) = if i = 0 then tableEntry r else 0
  middle : ∀ i < 512, w (r + i) = if i = 0 then tableEntry b else if i = 1 then tableEntry a else 0
  empty : ∀ i < 512, w (b + i) = 0
  leaf : ∀ i < 512, w (a + i) = if i = 0 then e else 0

/-- Pages of the direct map, no two of them the same. -/
structure HandPages (root q r b a : Nat) : Prop where
  direct : ∀ t ∈ [root, q, r, b, a], DirectPage t
  nodup : [root, q, r, b, a].Nodup

/-- The tables are written. -/
def handTables (s : KMem) (root q r b a : Nat) (e : BitVec 64) : KMem :=
  ((((s.setPage root 512 (fun i => if i = 0 then tableEntry q else 0)).setPage q 512
    (fun i => if i = 0 then tableEntry r else 0)).setPage r 512
    (fun i => if i = 0 then tableEntry b else if i = 1 then tableEntry a else 0)).setPage b 512
    (fun _ => 0)).setPage a 512 (fun i => if i = 0 then e else 0)

section

variable {s : KMem} {w : Memory} {root q r b a t u : Nat} {e : BitVec 64} {f : Nat → BitVec 64}

theorem setPage_self {i : Nat} (hi : i < 512) : (s.setPage t 512 f).word (t + i) = f i := by
  show (if t ≤ t + i ∧ t + i < t + 512 then f (t + i - t) else _) = f i
  rw [if_pos ⟨by omega, by omega⟩, Nat.add_sub_cancel_left]

/-- The other pages keep their words. -/
theorem setPage_other (ht : DirectPage t) (hu : DirectPage u) (hne : u ≠ t) {i : Nat} (hi : i < 512) :
    (s.setPage t 512 f).word (u + i) = s.word (u + i) := by
  refine if_neg (fun hin => hne ?_)
  exact directPage_sep u t hu ht i hi (u + i - t) (show u + i - t < 512 by omega) (by omega)

theorem handTables_tree (h : HandPages root q r b a) :
    HandTree (handTables s root q r b a e).word root q r b a e := by
  obtain ⟨hd, hnd⟩ := h
  have dr := hd root (by simp)
  have dq := hd q (by simp)
  have dr' := hd r (by simp)
  have db := hd b (by simp)
  have da := hd a (by simp)
  simp only [List.nodup_cons, List.mem_cons, List.not_mem_nil, or_false, not_or] at hnd
  obtain ⟨⟨h1, h2, h3, h4⟩, ⟨h5, h6, h7⟩, ⟨h8, h9⟩, h10, -⟩ := hnd
  unfold handTables
  refine ⟨fun i hi => ?_, fun i hi => ?_, fun i hi => ?_, fun i hi => ?_, fun i hi => ?_⟩
  · rw [setPage_other da dr h4 hi, setPage_other db dr h3 hi, setPage_other dr' dr h2 hi,
      setPage_other dq dr h1 hi, setPage_self hi]
  · rw [setPage_other da dq h7 hi, setPage_other db dq h6 hi, setPage_other dr' dq h5 hi,
      setPage_self hi]
  · rw [setPage_other da dr' h9 hi, setPage_other db dr' h8 hi, setPage_self hi]
  · rw [setPage_other da db h10 hi, setPage_self hi]
  · rw [setPage_self hi]

/-! ## What the tree holds -/

theorem flatMap_two {g : Nat → List TableRelease} : ∀ {n : Nat}, 2 ≤ n →
    (∀ i, 2 ≤ i → i < n → g i = []) → (List.range n).flatMap g = g 0 ++ g 1 := by
  intro n hn
  induction n, hn using Nat.le_induction with
  | base =>
      intro _
      simp [List.range_succ]
  | succ n hn ih =>
      intro hg
      rw [List.range_succ, List.flatMap_append, ih (fun i h1 h2 => hg i h1 (by omega)),
        List.flatMap_singleton, hg n hn (by omega), List.append_nil]

/-- A table with one entry or two. -/
theorem tableLog_two {L : Memory → BitVec 64 → List TableRelease} (hz : L w 0 = [])
    (h : ∀ i, 2 ≤ i → i < 512 → w (t + i) = 0) :
    tableLog L w (8 * t) = L w (w (t + 0)) ++ L w (w (t + 1)) ++ [.table (8 * t)] := by
  rw [tableLog, Nat.mul_div_cancel_left _ (by decide : 0 < 8), flatMap_two (by decide)]
  intro i h1 h2
  rw [h i h1 h2, hz]

/-- The entry of a table. -/
theorem userEntry_table (hq : DirectPage q) (l : Nat) : UserEntry l (tableEntry q) :=
  Or.inr ⟨hq.names.present, fun hps => absurd (hq.names.small.symm.trans hps) (by decide)⟩

theorem levelLog_tableEntry (hq : DirectPage q) {l d : Nat} (hl : l + (d + 1) = 3) :
    levelLog (d + 1) w (tableEntry q) = tableLog (levelLog d) w (8 * q) := by
  have hn := hq.names
  cases (userEntry_table hq l).kind hl w with
  | empty hz _ => exact absurd hz hn.ne_zero
  | block _ _ hps _ => exact absurd (hn.small.symm.trans hps) (by decide)
  | table _ _ hchild hlog =>
      rw [hn.child] at hchild
      rw [hlog, ← Option.some.inj hchild]

/-- The tree holds the frame of its leaf and the four tables below the first. -/
theorem HandTree.userLog (h : HandTree w root q r b a e) (hp : HandPages root q r b a)
    {pgd : Nat} (hroot : userRoot pgd = root) (he : entryHas e PEA_PRESENT = true) :
    userLog w pgd = [.table (8 * b), .frame (page4KIndex (entryAddr e)), .table (8 * a),
      .table (8 * r), .table (8 * q)] := by
  have hz := fun d => levelLog_zero w d
  -- the tables from below
  have hb : tableLog (levelLog 0) w (8 * b) = [.table (8 * b)] := by
    rw [tableLog_two (hz 0) (fun i _ hi => h.empty i hi), h.empty 0 (by decide), h.empty 1 (by decide),
      hz 0]
    rfl
  have ha : tableLog (levelLog 0) w (8 * a)
      = [.frame (page4KIndex (entryAddr e)), .table (8 * a)] := by
    have hleaf : levelLog 0 w e = [.frame (page4KIndex (entryAddr e))] := if_pos (entryHas_eq_true.mp he)
    rw [tableLog_two (hz 0) (fun i h2 hi => by rw [h.leaf i hi, if_neg (by omega)]),
      h.leaf 0 (by decide), h.leaf 1 (by decide), if_pos rfl, if_neg (by decide), hz 0, hleaf]
    rfl
  have hr : tableLog (levelLog 1) w (8 * r) = [.table (8 * b),
      .frame (page4KIndex (entryAddr e)), .table (8 * a), .table (8 * r)] := by
    rw [tableLog_two (hz 1) (fun i h2 hi => by rw [h.middle i hi, if_neg (by omega), if_neg (by omega)]),
      h.middle 0 (by decide), h.middle 1 (by decide), if_pos rfl, if_neg (by decide), if_pos rfl,
      levelLog_tableEntry (hp.direct b (by simp)) (show 2 + (0 + 1) = 3 from rfl), hb,
      levelLog_tableEntry (hp.direct a (by simp)) (show 2 + (0 + 1) = 3 from rfl), ha]
    rfl
  have hq : tableLog (levelLog 2) w (8 * q) = [.table (8 * b),
      .frame (page4KIndex (entryAddr e)), .table (8 * a), .table (8 * r), .table (8 * q)] := by
    rw [tableLog_two (hz 2) (fun i h2 hi => by rw [h.upper i hi, if_neg (by omega)]),
      h.upper 0 (by decide), h.upper 1 (by decide), if_pos rfl, if_neg (by decide), hz 2,
      levelLog_tableEntry (hp.direct r (by simp)) (show 1 + (1 + 1) = 3 from rfl), hr]
    rfl
  have hlevel : pml4eLog = levelLog 3 := rfl
  rw [Talios.userLog, hroot, hlevel, flatMap_two (by decide) (fun i h2 hi => by
    rw [h.first i (by omega), if_neg (by omega), hz 3]), h.first 0 (by decide), h.first 1 (by decide),
    if_pos rfl, if_neg (by decide), hz 3,
    levelLog_tableEntry (hp.direct q (by simp)) (show 0 + (2 + 1) = 3 from rfl), hq]
  rfl

/-- The child of a table with one entry. -/
theorem child_of_single (hq : DirectPage q) {c : Prop} [Decidable c]
    (h : userTables.child (if c then tableEntry q else 0) = some t) : t = q := by
  split at h
  · rw [hq.names.child] at h
    exact (Option.some.inj h).symm
  · rw [userTables.child_zero] at h
    exact absurd h (by simp)

/-- Above the last level there are the first three tables. -/
theorem HandTree.nodes (h : HandTree w root q r b a e) (hp : HandPages root q r b a) {pgd : Nat}
    (hroot : userRoot pgd = root) {l k : Nat} (hl : l < 3)
    (ht : userTables.node w (userRoot pgd) l k = some t) :
    (l = 0 ∧ t = root) ∨ (l = 1 ∧ t = q) ∨ (l = 2 ∧ t = r) := by
  have h0 : ∀ k t, userTables.node w (userRoot pgd) 0 k = some t → t = root := by
    intro k t ht
    change (if k = 0 then some (userRoot pgd) else none) = some t at ht
    split at ht
    · rw [← Option.some.inj ht, hroot]
    · exact absurd ht (by simp)
  have h1 : ∀ k t, userTables.node w (userRoot pgd) 1 k = some t → t = q := by
    intro k t ht
    obtain ⟨-, u, hu, hc⟩ := Tree.node_parent ht
    have hi : k % userTables.fanout < 512 := Nat.mod_lt _ (by decide)
    rw [h0 _ u hu, h.first _ hi] at hc
    exact child_of_single (hp.direct q (by simp)) hc
  have h2 : ∀ k t, userTables.node w (userRoot pgd) 2 k = some t → t = r := by
    intro k t ht
    obtain ⟨-, u, hu, hc⟩ := Tree.node_parent ht
    have hi : k % userTables.fanout < 512 := Nat.mod_lt _ (by decide)
    rw [h1 _ u hu, h.upper _ hi] at hc
    exact child_of_single (hp.direct r (by simp)) hc
  obtain rfl | rfl | rfl : l = 0 ∨ l = 1 ∨ l = 2 := by omega
  · exact Or.inl ⟨rfl, h0 k t ht⟩
  · exact Or.inr (Or.inl ⟨rfl, h1 k t ht⟩)
  · exact Or.inr (Or.inr ⟨rfl, h2 k t ht⟩)

theorem HandTree.entries (h : HandTree w root q r b a e) (hp : HandPages root q r b a) {pgd : Nat}
    (hroot : userRoot pgd = root) : UserEntries w pgd := by
  intro l hl k t ht i hi
  have hi' : i < 512 := hi.trans_le (Tree.width_le l)
  rcases h.nodes hp hroot hl ht with ⟨rfl, rfl⟩ | ⟨rfl, rfl⟩ | ⟨rfl, rfl⟩
  · rw [h.first i hi']
    split
    · exact userEntry_table (hp.direct q (by simp)) _
    · exact Or.inl rfl
  · rw [h.upper i hi']
    split
    · exact userEntry_table (hp.direct r (by simp)) _
    · exact Or.inl rfl
  · rw [h.middle i hi']
    split
    · exact userEntry_table (hp.direct b (by simp)) _
    · split
      · exact userEntry_table (hp.direct a (by simp)) _
      · exact Or.inl rfl

/-- **The tree is a well-formed user half**, if its tables and the frame of its leaf are handed out. -/
theorem HandTree.userHalf {m₀ : MMS} {live : List Obj} {out : Nat → Nat} {f : Nat}
    (h : HandTree s.word root q r b a (userPage f true)) (hp : HandPages root q r b a) {pgd : Nat}
    (hal : PAGE_4K_SIZE ∣ pgd) (hroot : phyToVirt pgd = 8 * root)
    (hlive : ∀ t ∈ [root, q, r, b, a], PageObj live t) (hf : BlockOk m₀ (f, 0))
    (hlt : f * PAGE_4K_SIZE < 2 ^ 64) (hout : ∀ x, ind f 0 x ≤ out x) : UserHalf m₀ s live out pgd := by
  have hroot' : userRoot pgd = root := by
    rw [userRoot, hroot]
    exact Nat.mul_div_cancel_left _ (by decide)
  have hindex : page4KIndex (entryAddr (userPage f true)) = f := by
    rw [entryAddr_userPage hlt]
    exact Nat.mul_div_cancel _ (by decide)
  have hlog := h.userLog hp hroot' (entryHas_userPage f true).1
  rw [hindex] at hlog
  have hnd := hp.nodup
  simp only [List.nodup_cons, List.mem_cons, List.not_mem_nil, or_false, not_or] at hnd
  have htables : tablesOf (Talios.userLog s.word pgd) = [8 * b, 8 * a, 8 * r, 8 * q] := by
    rw [hlog]
    rfl
  refine ⟨hal, h.entries hp hroot', ?_, fun x => ?_, ?_, ?_⟩
  · rw [hlog]
    simp only [List.forall_mem_cons]
    exact ⟨(hp.direct b (by simp)).aligned, hf, (hp.direct a (by simp)).aligned,
      (hp.direct r (by simp)).aligned, (hp.direct q (by simp)).aligned, by simp⟩
  · rw [hlog]
    simpa [framesOf, TableRelease.covers] using hout x
  · rw [htables]
    simp only [List.forall_mem_cons]
    exact ⟨hlive b (by simp), hlive a (by simp), hlive r (by simp), hlive q (by simp), by simp⟩
  · rw [htables, hroot]
    simp only [List.nodup_cons, List.mem_cons, List.not_mem_nil, or_false, not_or, not_false_eq_true,
      List.nodup_nil, and_true]
    omega

end

/-- The words of the tables. -/
theorem HandTree.inTables {w : Memory} {root q r b a v : Nat} {e : BitVec 64}
    (h : HandTree w root q r b a e) (hp : HandPages root q r b a) {pgd : Nat}
    (hroot : userRoot pgd = root) (he : entryHas e PEA_PRESENT = true)
    (hv : (userRoot pgd ≤ v ∧ v < userRoot pgd + 512) ∨ InTables (Talios.userLog w pgd) v) :
    ∃ t ∈ [root, q, r, b, a], ∃ i < 512, v = t + i := by
  rcases hv with ⟨h1, h2⟩ | ⟨p, hmem, h1, h2⟩
  · exact ⟨root, by simp, v - root, by omega, by omega⟩
  · have htables : tablesOf [.table (8 * b), .frame (page4KIndex (entryAddr e)), .table (8 * a),
        .table (8 * r), .table (8 * q)] = [8 * b, 8 * a, 8 * r, 8 * q] := rfl
    rw [h.userLog hp hroot he, htables] at hmem
    have hmem' : p = 8 * b ∨ p = 8 * a ∨ p = 8 * r ∨ p = 8 * q := by simpa using hmem
    rcases hmem' with rfl | rfl | rfl | rfl
    · exact ⟨b, by simp, v - b, by omega, by omega⟩
    · exact ⟨a, by simp, v - a, by omega, by omega⟩
    · exact ⟨r, by simp, v - r, by omega, by omega⟩
    · exact ⟨q, by simp, v - q, by omega, by omega⟩

/-! ## Runs -/

section

variable {img : KernelImage} {k : Kernel} {root q r b a f : Nat}

theorem MemoryReachable.handTables (hk : MemoryReachable img HasLastRoom k)
    (hlive : ∀ t ∈ [root, q, r, b, a], PageObj k.live t) (e : BitVec 64) :
    MemoryReachable img HasLastRoom ⟨Talios.handTables k.mem root q r b a e, k.live, k.blocks⟩ := by
  have h1 := hk.setPage (hlive root (by simp)) (fun i => if i = 0 then tableEntry q else 0) 512 le_rfl
  have h2 := h1.setPage (hlive q (by simp)) (fun i => if i = 0 then tableEntry r else 0) 512 le_rfl
  have h3 := h2.setPage (hlive r (by simp))
    (fun i => if i = 0 then tableEntry b else if i = 1 then tableEntry a else 0) 512 le_rfl
  have h4 := h3.setPage (hlive b (by simp)) (fun _ => 0) 512 le_rfl
  exact h4.setPage (hlive a (by simp)) (fun i => if i = 0 then e else 0) 512 le_rfl

/-- A frame of a run lies in the direct map. -/
theorem MemoryReachable.frame_lt (hk : MemoryReachable img HasLastRoom k) (hf : (f, 0) ∈ k.blocks) :
    f * PAGE_4K_SIZE < 2 ^ 47 := by
  have hd := directMap_init img
  obtain ⟨zi, hz, hin⟩ := (hk.sound.blocks _ hf).zone
  have hlt := hd.frames zi hz f (hin f (mem_self f 0))
  calc f * PAGE_4K_SIZE < _ * PAGE_4K_SIZE := Nat.mul_lt_mul_of_pos_right hlt (by decide)
    _ ≤ 2 ^ 47 := hd.count

/-- The tables written into pages of a run, and a frame of the run mapped. -/
theorem MemoryReachable.handHalf (hk : MemoryReachable img HasLastRoom k)
    (hp : HandPages root q r b a) (hlive : ∀ t ∈ [root, q, r, b, a], PageObj k.live t)
    (hf : (f, 0) ∈ k.blocks) :
    UserHalf (reservedMMS img.map (kernelReservations img.endStruct))
      (Talios.handTables k.mem root q r b a (userPage f true)) k.live (blocksOut k.blocks)
      (virtToPhy (8 * root)) := by
  have hb := hk.sound.blocks _ hf
  obtain ⟨hal, -, hroot⟩ := (hp.direct root (by simp)).phys
  exact (handTables_tree hp).userHalf hp hal hroot hlive hb ((hk.frame_lt hf).trans (by decide))
    (fun x => ind_le_blocksOut hf x)

end

/-- **`FreeUserPageTables` frees everything exactly once**, in every run, where no bitmap of the heap lies
on a table. -/
theorem freeUserPageTables_frees (img : KernelImage) {k : Kernel}
    (hk : MemoryReachable img HasLastRoom k) {pgd : Nat}
    (hu : UserHalf (reservedMMS img.map (kernelReservations img.endStruct)) k.mem k.live
      (blocksOut k.blocks) pgd) (hmap : TablesOffMaps k.mem pgd) :
    ∃ r, freeUserPageTables k.mem pgd = some r ∧
      UserHalfFreed (reservedMMS img.map (kernelReservations img.endStruct)) (cachePool img.endStruct)
        k.mem k.live (blocksOut k.blocks) pgd r := by
  obtain ⟨near, astray, hperm, hheap⟩ := hk.sound.heap
  have hholds : Holds _ _ k.mem k.live (blocksOut k.blocks) := ⟨near, astray, hperm, hheap⟩
  exact hholds.freeUserPageTables (directMap_init img) hu hmap

theorem freeUserPageTables_example : ∃ k pgd, MemoryReachable exampleImage HasLastRoom k ∧
    (∃ v < USER_LIMIT, translate k.mem.word pgd v ≠ none) ∧
    ∃ r, freeUserPageTables k.mem pgd = some r ∧
      UserHalfFreed (reservedMMS exampleImage.map (kernelReservations exampleImage.endStruct))
        (cachePool exampleImage.endStruct) k.mem k.live (blocksOut k.blocks) pgd r := by
  obtain ⟨k, f, v, hk⟩ := exampleFull
  have hd := directMap_init exampleImage
  have hlive : ∀ t ∈ [v, v + 512, v + 1024, v + 1536, v + 2048], PageObj k.live t := by
    simp only [List.forall_mem_cons]
    exact ⟨hk.pages 0 (by decide), hk.pages 1 (by decide), hk.pages 2 (by decide),
      hk.pages 3 (by decide), hk.pages 4 (by decide), by simp⟩
  have hpages : HandPages v (v + 512) (v + 1024) (v + 1536) (v + 2048) :=
    ⟨fun t ht => hk.heap.directPage hd (hlive t ht), by simp⟩
  have hr := hk.reachable.handTables hlive (userPage f true)
  have hu := hk.reachable.handHalf hpages hlive (f := f) (by rw [hk.blocks]; simp)
  have hvirt : phyToVirt (virtToPhy (8 * v)) = 8 * v := (hpages.direct v (by simp)).phys.2.2
  have hroot : userRoot (virtToPhy (8 * v)) = v := by
    rw [userRoot, hvirt]
    exact Nat.mul_div_cancel_left _ (by decide)
  have htree := @handTables_tree k.mem _ _ _ _ _ (userPage f true) hpages
  -- the tables are objects of `CachePool`
  have hmap : TablesOffMaps (handTables k.mem v (v + 512) (v + 1024) (v + 1536) (v + 2048)
      (userPage f true)) (virtToPhy (8 * v)) := by
    intro a ha
    obtain ⟨t, ht, i, hi, rfl⟩ := htree.inTables hpages hroot (entryHas_userPage f true).1 ha
    exact hk.heap.not_mapWord hd.toPoolLayout (hlive t ht) (PageObj.has hi)
  obtain ⟨r, he, hfreed⟩ := freeUserPageTables_frees exampleImage hr hu hmap
  refine ⟨_, _, hr, ?_, r, he, hfreed⟩
  have hlog := htree.userLog hpages hroot (entryHas_userPage f true).1
  have hframe : framesOf (userLog (handTables k.mem v (v + 512) (v + 1024) (v + 1536) (v + 2048)
      (userPage f true)).word (virtToPhy (8 * v))) (page4KIndex (entryAddr (userPage f true))) ≠ 0 := by
    refine framesOf_ne_zero.mpr ⟨.frame (page4KIndex (entryAddr (userPage f true))), ?_,
      covers_frame.mpr rfl⟩
    rw [hlog]
    simp
  obtain ⟨x, hx, tr, htr, -⟩ := (hu.entries.framesOf_iff hu.root.1).mp hframe
  exact ⟨x, hx, by rw [htr]; simp⟩

/-! ## A page table on a bitmap -/

/-- The object `b` has bit 62 of the first word of the bitmap, and that word is the first of the object
`a`. The other three tables are objects of `CachePool`. -/
structure MapTables (k : Kernel) (frame root q r b a : Nat) : Prop where
  reachable : MemoryReachable exampleImage HasLastRoom k
  frame : (frame, 0) ∈ k.blocks
  onMap : PageOnMap k.mem a 510
  bit : b = a + 512 * 62
  live : ∀ t ∈ [root, q, r, b, a], PageObj k.live t
  pages : HandPages root q r b a
  pool : ∀ t ∈ [root, q, r], (cachePool exampleImage.endStruct 7).shape.Data (8 * t)

theorem exampleMapTables : ∃ k frame root q r b a, MapTables k frame root q r b a := by
  obtain ⟨k, f, v, hk⟩ := exampleFull
  have hd := directMap_init exampleImage
  have h7 : findClass k.mem PAGE_4K_SIZE KMALLOC_SLAB_SIZE 0 = some 7 :=
    findClass_page hk.heap.toHeapCore
  -- the class grows onto the page at word `a`
  have hroom : LastRoom k.mem PAGE_4K_SIZE := by
    intro i hi
    obtain rfl := Option.some.inj (h7.symm.trans hi)
    refine ⟨fun hlt => absurd hlt (by decide), fun _ _ _ t ht => ?_⟩
    have htail := hk.tails 2 (by decide)
    rw [KMem.shapes, ← List.map_tail, List.map_eq_nil_iff] at htail
    rw [htail] at ht
    exact absurd ht (by simp)
  obtain ⟨m', page, ha⟩ := hk.room
  rcases hk.heap.kmalloc_grows hd hk.free ha with ⟨-, hno⟩ | ⟨s₁, a, he, -, hon⟩
  · exact absurd ⟨m', page, ha, Or.inl hk.headers⟩ hno
  have hr₁ := hk.reachable.kmalloc hroom he
  -- its first word is written
  set w : BitVec 64 := BitVec.ofNat 64 (2 ^ 62 - 1) with hw
  have hbits : ∀ j < 64, w.getLsbD j = decide (j < 62) := by
    rw [hw]
    decide
  have hr₂ := hr₁.setPage (t := a) List.mem_cons_self (fun i => if i = 0 then w else 0) 512 le_rfl
  have hon₂ : PageOnMap (s₁.setPage a 512 (fun i => if i = 0 then w else 0)) a (510 + 1) :=
    hon.onMap.congr rfl
  have hword : (s₁.setPage a 512 (fun i => if i = 0 then w else 0)).word a = w := by
    have := @setPage_self s₁ a (fun i => if i = 0 then w else 0) 0 (by decide)
    exact this
  -- and the object of bit 62 taken
  obtain ⟨s₃, he₃, hon₃, -, -⟩ := hon₂.kmalloc (j := 62) (by decide)
    (by rw [hword, hbits 62 (by decide)]; rfl)
    (fun j hj => by rw [hword, hbits j (by omega)]; exact decide_eq_true hj)
  have hroom₃ : LastRoom (s₁.setPage a 512 (fun i => if i = 0 then w else 0)) PAGE_4K_SIZE := by
    intro i hi
    have h7' := findClass_eq hon₂.size (show 7 < KMALLOC_SLAB_SIZE by decide)
      (show PAGE_4K_SIZE ≤ kmallocSize 7 by decide) (by decide)
    obtain rfl := Option.some.inj (h7'.symm.trans hi)
    refine ⟨fun hlt => absurd hlt (by decide), fun _ h0 => ?_⟩
    rw [hon₂.totalFree] at h0
    exact absurd h0 (by decide)
  have hr₃ := hr₂.kmalloc hroom₃ he₃
  have hpages : ∀ j < 512, DirectPage (v + 512 * j) :=
    fun j hj => hk.heap.directPage hd (hk.pages j hj)
  -- the old pages are not in the new slab
  have hapart : ∀ j < 512, v + 512 * j < a ∨ a + 2 ^ 18 ≤ v + 512 * j := by
    intro j hj
    by_contra hin
    exact hon.apart (v + 512 * j) (by omega) (by omega) (Or.inl
      (hk.heap.frame_of_object hd.toPoolLayout (hk.pages j hj) (PageObj.has (by decide : 0 < 512))))
  refine ⟨_, f, v, v + 512, v + 1024, a + 512 * 62, a, hr₃, by rw [hk.blocks]; simp, hon₃, rfl, ?_,
    ⟨?_, ?_⟩, ?_⟩
  · simp only [List.forall_mem_cons]
    exact ⟨List.mem_cons_of_mem _ (List.mem_cons_of_mem _ (hk.pages 0 (by decide))),
      List.mem_cons_of_mem _ (List.mem_cons_of_mem _ (hk.pages 1 (by decide))),
      List.mem_cons_of_mem _ (List.mem_cons_of_mem _ (hk.pages 2 (by decide))),
      List.mem_cons_self, List.mem_cons_of_mem _ List.mem_cons_self, by simp⟩
  · simp only [List.forall_mem_cons]
    exact ⟨hpages 0 (by decide), hpages 1 (by decide), hpages 2 (by decide),
      hon.direct 62 (by decide), hon.direct 0 (by decide), by simp⟩
  · have h0 := hapart 0 (by decide)
    have h1 := hapart 1 (by decide)
    have h2 := hapart 2 (by decide)
    simp only [List.nodup_cons, List.mem_cons, List.not_mem_nil, or_false, not_or, not_false_eq_true,
      List.nodup_nil, and_true]
    omega
  · have hv := hk.pool
    have hdata : ∀ j < 512, (cachePool exampleImage.endStruct 7).shape.Data (8 * (v + 512 * j)) := by
      intro j hj
      show (cachePool exampleImage.endStruct 7).vaddress ≤ _ ∧
        _ < (cachePool exampleImage.endStruct 7).vaddress + PAGE_2M_SIZE
      rw [← hv]
      unfold PAGE_2M_SIZE PAGE_2M_SHIFT
      omega
    simp only [List.forall_mem_cons]
    exact ⟨hdata 0 (by decide), hdata 1 (by decide), hdata 2 (by decide), by simp⟩

section

variable {m₀ : MMS} {pool : Nat → Slab} {s : KMem} {rest : List Obj} {out : Nat → Nat} {a b f : Nat}

/-- **`kfree` of the object `b`** changes the first word of `a`. -/
theorem PageOnMap.kfree_bit (hd : DirectMap m₀ pool) (hon : PageOnMap s a 510)
    (hb : b = a + 512 * 62) (h : Holds m₀ pool s (⟨8 * b, PAGE_4K_SIZE⟩ :: rest) out) :
    ∃ s', kfree s (8 * b) = some (s', true) ∧ Holds m₀ pool s' rest out ∧ KfreeFrame s s' ∧
      s'.word = flipBit s.word a 62 ∧ ¬ s'.trim.MapWord a := by
  have hp := hd.toPoolLayout
  have h7 : 7 < KMALLOC_SLAB_SIZE := by decide
  obtain ⟨s', he, hholds, hframe⟩ := h.kfree hp
  obtain ⟨cp, slab, hr, -, hf, -, hmap, hv⟩ := hon.ring
  have hslab : slab ∈ (s.cache 7).ring := by rw [hr]; simp
  have hal : alignDown PAGE_2M_SIZE (8 * b) = 8 * a := by
    obtain ⟨near, astray, -, hpart⟩ := h
    obtain ⟨c, hc⟩ := (hpart.mapped hd h7 hslab).aligned
    rw [hv] at hc
    unfold alignDown PAGE_2M_SIZE PAGE_2M_SHIFT at *
    omega
  -- the slab `kfree` finds
  have hfind : findOwner s (alignDown PAGE_2M_SIZE (8 * b)) KMALLOC_SLAB_SIZE 0 = some (7, slab) := by
    cases hfo : findOwner s (alignDown PAGE_2M_SIZE (8 * b)) KMALLOC_SLAB_SIZE 0 with
    | none =>
        have he' : kfree s (8 * b) = some (s, false) := by
          rw [kfree, kfreeWith, hfo]
        exact absurd (he'.symm.trans he) (by simp)
    | some r =>
        obtain ⟨i, t⟩ := r
        obtain ⟨hi, -, ht, -, hvt⟩ := findOwner_some _ _ hfo
        obtain ⟨near, astray, -, hpart⟩ := h
        obtain ⟨rfl, rfl⟩ := hpart.owner hp h7 hslab (by omega) ht (by rw [hvt, hal, hv])
        rfl
  have hrel : s' = releaseObject s 7 slab (8 * b) := by
    have he' : kfree s (8 * b) = some (releaseObject s 7 slab (8 * b), true) := by
      rw [kfree, kfreeWith, hfind]
      dsimp only
      rw [if_pos]
      refine Or.inr (Or.inl ?_)
      unfold releaseObject
      dsimp only
      rw [setCache_cache_self]
      show (s.cache 7).totalFree + 1 < (slab.freeCount + 1) * 3 / 2
      rw [hon.totalFree, hf]
      decide
    have hx := he.symm.trans he'
    exact (Prod.mk.inj (Option.some.inj hx)).1
  refine ⟨s', he, hholds, hframe, ?_, ?_⟩
  · have hsize : (s.cache 7).size = 4096 := (hon.size 7 h7).trans (by decide)
    rw [hrel]
    show flipBit s.word (slab.colorMap / 8) ((8 * b - alignDown PAGE_2M_SIZE (8 * b)) / (s.cache 7).size)
      = flipBit s.word a 62
    rw [hal, hmap, hsize, hb, Nat.mul_div_cancel_left _ (by decide : 0 < 8)]
    congr 1
    omega
  · obtain ⟨near, astray, -, hpart⟩ := hholds
    have hring : slab.give ∈ (s'.cache 7).ring.tail := by
      rw [hrel]
      unfold releaseObject
      dsimp only
      rw [setCache_cache_self]
      show slab.give ∈ (replaceSlab slab.give (s.cache 7).ring).tail
      rw [hr, replaceSlab, List.map_cons, List.map_cons, List.tail_cons,
        if_pos (show slab.addr = slab.give.addr from rfl)]
      exact List.mem_cons_self
    refine hpart.not_mapWord hp (by decide) h7 hring ?_
    have hv' : slab.give.vaddress = 8 * a := hv
    unfold Slab.Data
    rw [hv']
    unfold PAGE_2M_SIZE PAGE_2M_SHIFT
    omega

/-- The leaf with bit 62 changed names no frame. -/
theorem flipped_leaf (hlt : f * PAGE_4K_SIZE < 2 ^ 47) :
    (userPage f true ^^^ 1#64 <<< 62) &&& PEA_PRESENT ≠ 0 ∧
      2 ^ 50 ≤ page4KIndex (entryAddr (userPage f true ^^^ 1#64 <<< 62)) := by
  have hlow : ∀ e : BitVec 64, e &&& PEA_PRESENT ≠ 0 → (e ^^^ 1#64 <<< 62) &&& PEA_PRESENT ≠ 0 := by
    intro e he
    have h0 : (1#64 <<< 62) &&& PEA_PRESENT = 0 := by decide
    have hand : (e ^^^ 1#64 <<< 62) &&& PEA_PRESENT
        = (e &&& PEA_PRESENT) ^^^ ((1#64 <<< 62) &&& PEA_PRESENT) := by
      refine BitVec.eq_of_getLsbD_eq (fun i _ => ?_)
      simp only [BitVec.getLsbD_and, BitVec.getLsbD_xor, Bool.and_xor_distrib_right]
    rw [hand, h0, show (0 : BitVec 64) = 0#64 from rfl, BitVec.xor_zero]
    exact he
  refine ⟨hlow _ (entryHas_eq_true.mp (entryHas_userPage f true).1), ?_⟩
  have hbit : (entryAddr (userPage f true ^^^ 1#64 <<< 62)).testBit 62 = true := by
    show ((userPage f true ^^^ 1#64 <<< 62) &&& PAGE_4K_MASK).getLsbD 62 = true
    have hclear : (userPage f true).getLsbD 62 = false := by
      rw [userPage, BitVec.getLsbD_or, BitVec.getLsbD_ofNat]
      have h62 : (f * PAGE_4K_SIZE).testBit 62 = false :=
        Nat.testBit_lt_two_pow (Nat.lt_of_lt_of_le hlt (by decide))
      rw [h62]
      decide
    have hset : (1#64 <<< 62).getLsbD 62 = true := by decide
    rw [BitVec.getLsbD_and, getLsbD_mask (by decide), BitVec.getLsbD_xor, hclear, hset]
    rfl
  have hge := Nat.ge_two_pow_of_testBit hbit
  calc 2 ^ 50 = 2 ^ 62 / PAGE_4K_SIZE := by decide
    _ ≤ page4KIndex (entryAddr (userPage f true ^^^ 1#64 <<< 62)) := Nat.div_le_div_right hge

/-! ## The loops on it -/

/-- A loop that has nothing to do from the third entry on. -/
theorem loop_two {step : TableFreeing → Nat → Option TableFreeing} {x y z : TableFreeing}
    (h0 : step x 0 = some y) (h1 : step y 1 = some z) : ∀ {n : Nat}, 2 ≤ n →
    (∀ i, 2 ≤ i → i < n → step z i = some z) → (List.range n).foldlM step x = some z := by
  intro n hn
  induction n, hn using Nat.le_induction with
  | base =>
      intro _
      have hrange : List.range 2 = [0, 1] := rfl
      rw [hrange, List.foldlM_cons, h0, Option.bind_eq_bind, Option.bind_some, List.foldlM_cons, h1]
      rfl
  | succ n hn ih =>
      intro h
      rw [List.range_succ, List.foldlM_append, ih (fun i hi hlt => h i hi (by omega)),
        Option.bind_eq_bind, Option.bind_some, List.foldlM_cons, h n hn (by omega)]
      rfl

theorem freePte_zero {x : TableFreeing} {t i : Nat} (h : x.mem.word (t + i) = 0) :
    freePte (8 * t) x i = some x := by
  unfold freePte
  rw [entry_word, h]
  rfl

theorem freePde_zero {x : TableFreeing} {t i : Nat} (h : x.mem.word (t + i) = 0) :
    freePde (8 * t) x i = some x := by
  unfold freePde
  rw [entry_word, h]
  rfl

theorem freePdpte_zero {x : TableFreeing} {t i : Nat} (h : x.mem.word (t + i) = 0) :
    freePdpte (8 * t) x i = some x := by
  unfold freePdpte
  rw [entry_word, h]
  rfl

theorem freePml4e_zero {x : TableFreeing} {t i : Nat} (h : x.mem.word (t + i) = 0) :
    freePml4e (8 * t) x i = some x := by
  unfold freePml4e
  rw [entry_word, h]
  rfl

/-- An entry that names a table whose entries have been dealt with. -/
theorem freePde_table {x y : TableFreeing} {t q i : Nat} (hq : DirectPage q)
    (h : x.mem.word (t + i) = tableEntry q) (hloop : (List.range 512).foldlM (freePte (8 * q)) x = some y) :
    freePde (8 * t) x i = freeTable (8 * q) (8 * t + i * 8) y := by
  unfold freePde
  rw [entry_word, h]
  dsimp only
  rw [if_neg hq.names.ne_zero, if_neg (not_not.mpr (entryHas_eq_false.mp hq.names.small)),
    hq.names.table, hloop]
  rfl

theorem freePdpte_table {x y : TableFreeing} {t q i : Nat} (hq : DirectPage q)
    (h : x.mem.word (t + i) = tableEntry q) (hloop : (List.range 512).foldlM (freePde (8 * q)) x = some y) :
    freePdpte (8 * t) x i = freeTable (8 * q) (8 * t + i * 8) y := by
  unfold freePdpte
  rw [entry_word, h]
  dsimp only
  rw [if_neg hq.names.goes_on, hq.names.table, hloop]
  rfl

theorem freePml4e_table {x y : TableFreeing} {t q i : Nat} (hq : DirectPage q)
    (h : x.mem.word (t + i) = tableEntry q) (hloop : (List.range 512).foldlM (freePdpte (8 * q)) x = some y) :
    freePml4e (8 * t) x i = freeTable (8 * q) (8 * t + i * 8) y := by
  unfold freePml4e
  rw [entry_word, h]
  dsimp only
  rw [if_neg hq.names.goes_on, hq.names.table, hloop]
  rfl

theorem freeTable_some {x : TableFreeing} {s' : KMem} {t entry : Nat} (h : kfree x.mem t = some (s', true)) :
    freeTable t entry x = some ⟨s'.write entry 0, x.log ++ [.table t]⟩ := by
  rw [freeTable, h]
  rfl

/-- The entry `i` of the table at `t` is written. -/
theorem write_entry (s : KMem) (t i : Nat) (v : BitVec 64) :
    (s.write (8 * t + i * 8) v).word = Function.update s.word (t + i) v := by
  rw [KMem.write, entry_word]

/-- The table `a` after `b` has been freed: the loop over it clears the changed leaf and gives nothing
back. -/
theorem lostLeaf (log : List TableRelease) (hd : DirectMap m₀ pool) (hl : SameLayout m₀ s.mms)
    (hlt : f * PAGE_4K_SIZE < 2 ^ 47) (h0 : s.word a = userPage f true ^^^ 1#64 <<< 62)
    (hz : ∀ i, 1 ≤ i → i < 512 → s.word (a + i) = 0) :
    (List.range 512).foldlM (freePte (8 * a)) ⟨s, log⟩ = some ⟨s.write (8 * a + 0 * 8) 0, log⟩ := by
  obtain ⟨hpr, hbig⟩ := flipped_leaf hlt
  have hcount : s.mms.pagesCount ≤ 2 ^ 50 := by
    have hle : s.mms.pagesCount * PAGE_4K_SIZE ≤ 2 ^ 47 := by
      rw [hl.pagesCount]
      exact hd.count
    unfold PAGE_4K_SIZE PAGE_4K_SHIFT at hle
    omega
  have hz' : ∀ i, 1 ≤ i → i < 512 → (s.write (8 * a + 0 * 8) 0).word (a + i) = 0 := by
    intro i h1 hi
    rw [write_entry, Function.update_of_ne (by omega)]
    exact hz i h1 hi
  refine loop_two (y := ⟨s.write (8 * a + 0 * 8) 0, log⟩) ?_ (freePte_zero (hz' 1 le_rfl (by decide)))
    (by decide) (fun i h2 hi => freePte_zero (hz' i (by omega) hi))
  have hpage : ¬ page4KIndex (entryAddr (userPage f true ^^^ 1#64 <<< 62)) < s.mms.pagesCount :=
    Nat.not_lt.mpr (hcount.trans hbig)
  unfold freePte
  dsimp only
  rw [entry_word, Nat.add_zero, h0, if_pos hpr, if_neg hpage]

/-- A store off the bitmaps that are not astray. -/
theorem Holds.write_astray {objs : List Obj} {c : Nat} (h : Holds m₀ pool s objs out)
    (hc : ¬ s.trim.MapWord (c / 8)) (v : BitVec 64) : Holds m₀ pool (s.write c v) objs out := by
  obtain ⟨near, astray, hperm, hpart⟩ := h
  refine ⟨near, astray, hperm, hpart.setWord (fun d hd => Function.update_of_ne (fun he => hc ?_) ..)⟩
  rw [← he]
  exact hd

/-- **The frame is lost.** Every table is freed, and no frame is given back. -/
theorem lostFrame_run {root q r pgd : Nat} (hd : DirectMap m₀ pool)
    (h : HandTree s.word root q r b a (userPage f true)) (hp : HandPages root q r b a)
    (hon : PageOnMap s a 510) (hb : b = a + 512 * 62)
    (hholds : Holds m₀ pool s (⟨8 * b, PAGE_4K_SIZE⟩ :: ⟨8 * a, PAGE_4K_SIZE⟩ ::
      ⟨8 * r, PAGE_4K_SIZE⟩ :: ⟨8 * q, PAGE_4K_SIZE⟩ :: rest) out)
    (hoff : ∀ t ∈ [root, q, r], ∀ i < 512, ¬ s.MapWord (t + i)) (hlt : f * PAGE_4K_SIZE < 2 ^ 47)
    (hroot : phyToVirt (alignDown PAGE_4K_SIZE pgd) = 8 * root) :
    ∃ s', freeUserPageTables s pgd
      = some ⟨s', [.table (8 * b), .table (8 * a), .table (8 * r), .table (8 * q)]⟩ := by
  have hpool := hd.toPoolLayout
  have hne : ∀ t ∈ [root, q, r, b, a], ∀ u ∈ [root, q, r, b, a], t ≠ u → ∀ i < 512, ∀ j < 512,
      t + i ≠ u + j := fun t ht u hu htu i hi j hj he =>
    htu (directPage_sep t u (hp.direct t ht) (hp.direct u hu) i hi j hj he)
  have hnd := hp.nodup
  simp only [List.nodup_cons, List.mem_cons, List.not_mem_nil, or_false, not_or] at hnd
  obtain ⟨⟨h1, h2, h3, h4⟩, ⟨h5, h6, h7⟩, ⟨h8, h9⟩, h10, -⟩ := hnd
  -- `b` is freed
  obtain ⟨s₁, he₁, hh₁, hf₁, hw₁, htrim⟩ := hon.kfree_bit hd hb hholds
  have hword₁ : ∀ c, c ≠ a → s₁.word c = s.word c := fun c hc => by rw [hw₁, flipBit_of_ne hc]
  have hmap₁ : ∀ c, s₁.MapWord c → s.MapWord c := fun c => hf₁.mapWord
  have hoffs : ∀ {s' : KMem}, (∀ c, s'.MapWord c → s.MapWord c) → ∀ t ∈ [root, q, r], ∀ i < 512,
      ¬ s'.MapWord ((8 * t + i * 8) / 8) := by
    intro s' hmap t ht i hi hm
    rw [entry_word] at hm
    exact hoff t ht i hi (hmap _ hm)
  -- the entry of `b` is cleared, and the loop over `a` clears its leaf
  have hh₁' := hh₁.write (hoffs hmap₁ r (by simp) 0 (by decide)) 0
  have hh₁'' := hh₁'.write_astray (c := 8 * a + 0 * 8) (by rw [entry_word]; exact htrim) 0
  obtain ⟨s₂, he₂, hh₂, hf₂⟩ := hh₁''.kfree hpool
  have hmap₂ : ∀ c, s₂.MapWord c → s.MapWord c := fun c hm => hmap₁ c (hf₂.mapWord hm)
  have hword₂ : ∀ c, ¬ s.MapWord c → c ≠ a → c ≠ r → s₂.word c = s.word c := by
    intro c hc hca hcr
    rw [hf₂.word c (fun hm => hc (hmap₁ c hm)), write_entry, Function.update_of_ne (by omega),
      write_entry, Function.update_of_ne (by omega), hword₁ c hca]
  have hh₂' := hh₂.write (hoffs hmap₂ r (by simp) 1 (by decide)) 0
  obtain ⟨s₃, he₃, hh₃, hf₃⟩ := hh₂'.kfree hpool
  have hmap₃ : ∀ c, s₃.MapWord c → s.MapWord c := fun c hm => hmap₂ c (hf₃.mapWord hm)
  have hword₃ : ∀ c, ¬ s.MapWord c → c ≠ a → c ≠ r → c ≠ r + 1 → s₃.word c = s.word c := by
    intro c hc hca hcr hcr1
    rw [hf₃.word c (fun hm => hc (hmap₂ c hm)), write_entry, Function.update_of_ne (by omega),
      hword₂ c hc hca hcr]
  have hh₃' := hh₃.write (hoffs hmap₃ q (by simp) 0 (by decide)) 0
  obtain ⟨s₄, he₄, -, hf₄⟩ := hh₃'.kfree hpool
  have hword₄ : ∀ c, ¬ s.MapWord c → c ≠ a → c ≠ r → c ≠ r + 1 → c ≠ q → s₄.word c = s.word c := by
    intro c hc hca hcr hcr1 hcq
    rw [hf₄.word c (fun hm => hc (hmap₃ c hm)), write_entry, Function.update_of_ne (by omega),
      hword₃ c hc hca hcr hcr1]
  -- the loops, from the inside
  have hstepb : freePde (8 * r) ⟨s, []⟩ 0 = some ⟨s₁.write (8 * r + 0 * 8) 0, [.table (8 * b)]⟩ := by
    have hloop : (List.range 512).foldlM (freePte (8 * b)) ⟨s, []⟩ = some ⟨s, []⟩ :=
      loop_two (freePte_zero (h.empty 0 (by decide))) (freePte_zero (h.empty 1 (by decide))) (by decide)
        (fun i _ hi => freePte_zero (h.empty i hi))
    rw [freePde_table (hp.direct b (by simp)) ((h.middle 0 (by decide)).trans (if_pos rfl)) hloop,
      freeTable_some he₁]
    rfl
  have hstepa : freePde (8 * r) ⟨s₁.write (8 * r + 0 * 8) 0, [.table (8 * b)]⟩ 1
      = some ⟨s₂.write (8 * r + 1 * 8) 0, [.table (8 * b), .table (8 * a)]⟩ := by
    have hold : ∀ c, c ≠ a → c ≠ r → (s₁.write (8 * r + 0 * 8) 0).word c = s.word c := by
      intro c hca hcr
      rw [write_entry, Function.update_of_ne (by omega), hword₁ c hca]
    have har : ∀ i < 512, ∀ j < 512, a + i ≠ r + j :=
      hne a (by simp) r (by simp) (Ne.symm h9)
    have hleaf : (s₁.write (8 * r + 0 * 8) 0).word a = userPage f true ^^^ 1#64 <<< 62 := by
      have hx := har 0 (by decide) 0 (by decide)
      rw [write_entry, Function.update_of_ne (by omega), hw₁]
      show Function.update s.word (a + 62 / 64) (s.word (a + 62 / 64) ^^^ 1#64 <<< (62 % 64)) a = _
      rw [show a + 62 / 64 = a from rfl, Function.update_self]
      have := (h.leaf 0 (by decide)).trans (if_pos rfl)
      rw [Nat.add_zero] at this
      rw [this]
    have hl : SameLayout m₀ (s₁.write (8 * r + 0 * 8) 0).mms := hh₁'.layout
    have hloop := lostLeaf [.table (8 * b)] hd hl hlt hleaf (fun i hi1 hi => by
      have hx := har i hi 0 (by decide)
      rw [hold _ (by omega) (by omega), h.leaf i hi, if_neg (by omega)])
    have hentry : (s₁.write (8 * r + 0 * 8) 0).word (r + 1) = tableEntry a := by
      have hx := har 0 (by decide) 1 (by decide)
      rw [hold _ (by omega) (by omega), h.middle 1 (by decide), if_neg (by decide), if_pos rfl]
    rw [freePde_table (hp.direct a (by simp)) hentry hloop, freeTable_some he₂]
    rfl
  have hoff0 : ∀ t ∈ [root, q, r], ∀ i < 512, t + i ≠ a := fun t ht i hi =>
    hne t (by simp at ht ⊢; omega) a (by simp) (by simp at ht; omega) i hi 0 (by decide)
  have hloopr : (List.range 512).foldlM (freePde (8 * r)) ⟨s, []⟩
      = some ⟨s₂.write (8 * r + 1 * 8) 0, [.table (8 * b), .table (8 * a)]⟩ := by
    refine loop_two hstepb hstepa (by decide) (fun i h2 hi => freePde_zero ?_)
    show (s₂.write (8 * r + 1 * 8) 0).word (r + i) = 0
    rw [write_entry, Function.update_of_ne (by omega), hword₂ _ (hoff r (by simp) i hi)
      (hoff0 r (by simp) i hi) (by omega), h.middle i hi, if_neg (by omega), if_neg (by omega)]
  have hstepr : freePdpte (8 * q) ⟨s, []⟩ 0 = some ⟨s₃.write (8 * q + 0 * 8) 0,
      [.table (8 * b), .table (8 * a), .table (8 * r)]⟩ := by
    rw [freePdpte_table (hp.direct r (by simp)) ((h.upper 0 (by decide)).trans (if_pos rfl)) hloopr,
      freeTable_some he₃]
    rfl
  have hqr : ∀ i < 512, ∀ j < 512, q + i ≠ r + j := hne q (by simp) r (by simp) h5
  have hzeroq : ∀ i, 1 ≤ i → i < 512 → (s₃.write (8 * q + 0 * 8) 0).word (q + i) = 0 := by
    intro i hi1 hi
    have hx := hqr i hi 0 (by decide)
    have hy := hqr i hi 1 (by decide)
    rw [write_entry, Function.update_of_ne (by omega), hword₃ _ (hoff q (by simp) i hi)
      (hoff0 q (by simp) i hi) (by omega) (by omega), h.upper i hi, if_neg (by omega)]
  have hloopq : (List.range 512).foldlM (freePdpte (8 * q)) ⟨s, []⟩ = some ⟨s₃.write (8 * q + 0 * 8) 0,
      [.table (8 * b), .table (8 * a), .table (8 * r)]⟩ :=
    loop_two hstepr (freePdpte_zero (hzeroq 1 le_rfl (by decide))) (by decide)
      (fun i h2 hi => freePdpte_zero (hzeroq i (by omega) hi))
  have hstepq : freePml4e (8 * root) ⟨s, []⟩ 0 = some ⟨s₄.write (8 * root + 0 * 8) 0,
      [.table (8 * b), .table (8 * a), .table (8 * r), .table (8 * q)]⟩ := by
    rw [freePml4e_table (hp.direct q (by simp)) ((h.first 0 (by decide)).trans (if_pos rfl)) hloopq,
      freeTable_some he₄]
    rfl
  have hzero : ∀ i, 1 ≤ i → i < 512 → (s₄.write (8 * root + 0 * 8) 0).word (root + i) = 0 := by
    intro i hi1 hi
    have hx := hne root (by simp) r (by simp) h2 i hi 0 (by decide)
    have hy := hne root (by simp) r (by simp) h2 i hi 1 (by decide)
    have hz := hne root (by simp) q (by simp) h1 i hi 0 (by decide)
    rw [write_entry, Function.update_of_ne (by omega), hword₄ _ (hoff root (by simp) i hi)
      (hoff0 root (by simp) i hi) (by omega) (by omega) (by omega), h.first i hi, if_neg (by omega)]
  refine ⟨s₄.write (8 * root + 0 * 8) 0, ?_⟩
  rw [freeUserPageTables, hroot]
  exact loop_two hstepq (freePml4e_zero (hzero 1 le_rfl (by decide))) (by decide)
    (fun i h2 hi => freePml4e_zero (hzero i (by omega) (by omega)))

end

/-- Where the first object of a slab is a page table, the frame its first entry names is lost. -/
theorem freeUserPageTables_loses_frame :
    ¬ ∀ (img : KernelImage) (k : Kernel), MemoryReachable img HasLastRoom k → ∀ pgd : Nat,
      UserHalf (reservedMMS img.map (kernelReservations img.endStruct)) k.mem k.live
        (blocksOut k.blocks) pgd →
      ∃ r, freeUserPageTables k.mem pgd = some r ∧
        UserHalfFreed (reservedMMS img.map (kernelReservations img.endStruct))
          (cachePool img.endStruct) k.mem k.live (blocksOut k.blocks) pgd r := by
  intro hall
  obtain ⟨k, f, root, q, r, b, a, hk⟩ := exampleMapTables
  have hd := directMap_init exampleImage
  have hp := hk.pages
  have hr := hk.reachable.handTables hk.live (userPage f true)
  have hu := hk.reachable.handHalf hp hk.live hk.frame
  have htree := @handTables_tree k.mem _ _ _ _ _ (userPage f true) hp
  have hvirt : phyToVirt (virtToPhy (8 * root)) = 8 * root := (hp.direct root (by simp)).phys.2.2
  have hroot : userRoot (virtToPhy (8 * root)) = root := by
    rw [userRoot, hvirt]
    exact Nat.mul_div_cancel_left _ (by decide)
  have hstart : phyToVirt (alignDown PAGE_4K_SIZE (virtToPhy (8 * root))) = 8 * root := by
    rw [hu.root.1, hroot]
  have hlog := htree.userLog hp hroot (entryHas_userPage f true).1
  -- the pages of `CachePool` are near
  obtain ⟨near, astray, hperm, hheap⟩ := hr.sound.heap
  have hoff : ∀ t ∈ [root, q, r], ∀ i < 512,
      ¬ (handTables k.mem root q r b a (userPage f true)).MapWord (t + i) := by
    intro t ht i hi
    have hobj : PageObj k.live t := hk.live t (by simp at ht ⊢; omega)
    have hnear := hheap.near_of_pool hd.toPoolLayout (show 7 < KMALLOC_SLAB_SIZE by decide)
      (hperm.mem_iff.mp hobj) (PageObj.has (by decide : 0 < 512)) (hk.pool t ht)
    exact hheap.near_not_mapWord hd.toPoolLayout hnear (PageObj.has hi)
  obtain ⟨live', hobjs⟩ := hu.perm
  rw [hlog] at hobjs
  have hholds : Holds _ _ (handTables k.mem root q r b a (userPage f true)) k.live (blocksOut k.blocks) :=
    ⟨near, astray, hperm, hheap⟩
  obtain ⟨s', he⟩ := lostFrame_run hd htree hp (hk.onMap.congr rfl) hk.bit (hholds.perm hobjs) hoff
    (hk.reachable.frame_lt hk.frame) hstart
  obtain ⟨x, he', hfreed⟩ := hall _ _ hr _ hu
  obtain rfl := Option.some.inj (he.symm.trans he')
  -- the frame was mapped
  obtain ⟨v, hv, tr, htr, hframe⟩ := (hu.entries.framesOf_iff hu.root.1
    (x := page4KIndex (entryAddr (userPage f true)))).mp (framesOf_ne_zero.mpr
      ⟨.frame (page4KIndex (entryAddr (userPage f true))), by rw [hlog]; simp, covers_frame.mpr rfl⟩)
  exact absurd (hfreed.frames v hv tr htr) (by simp [framesOf, TableRelease.covers])

end Talios
