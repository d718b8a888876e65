import Talios.Memory.SlabBooks

set_option autoImplicit false

/-! # The books over whole runs

`heap_books` is about the runs in which no class above 0x200 bytes grows by a header that reaches into
another one: every state reached has its books in order. `heap_books_broken` is a run in which one does:
class 2 has grown, and the last object of its new slab becomes a header. It is written over the `list` of
that slab, whose ring then goes on at address 2048.
-/

namespace Talios

open Word Bitmap Dyadic

/-! ## Runs -/

section

variable {img : KernelImage} {pageAt : Nat → Nat} {s s' : LinkedHeap} {c : HeapCall}

/-- The books of a state of a run; no one else has pages of the page allocator. -/
def LinkedHeap.Sound (img : KernelImage) (s : LinkedHeap) : Prop :=
  Books (reservedMMS img.map (kernelReservations img.endStruct)) (Talios.cachePool img.endStruct) s.mem
    s.list (fun _ => 0) s.blocks

/-- **One call** in which no new header reaches into another one. -/
theorem LinkedHeap.Sound.step (h : s.Sound img) (hok : HeaderEndsBefore s c)
    (hs : HeapCallStep pageAt s c s') : s'.Sound img := by
  have hp := poolLayout_init img
  cases hs with
  | kmalloc size _ he =>
      rcases @Books.kmalloc _ _ _ _ _ _ _ pageAt _ hp h hok _ he with ⟨hn, -⟩ | ⟨q, hq, h'⟩
      · exact absurd hn (by simp)
      · obtain rfl := Option.some.inj hq
        exact h'
  | kmallocNull size _ he =>
      rcases @Books.kmalloc _ _ _ _ _ _ _ pageAt _ hp h hok _ he with ⟨-, h'⟩ | ⟨q, hq, -⟩
      · exact h'
      · exact absurd hq (by simp)
  | kfree ptr _ hb hptr he =>
      obtain ⟨mem', he', -, h'⟩ := Books.kfree hp h hb hptr
      obtain ⟨rfl, -⟩ := Prod.mk.inj (Option.some.inj (he.symm.trans he'))
      exact h'

/-- The heap that `SlabCacheInit` builds. -/
theorem LinkedHeap.sound_boot {mem : KMem} {list : Links.Heap Nat} (h : initMemory img = some mem)
    (hlist : ∀ i < KMALLOC_SLAB_SIZE, list.Alone (Talios.cachePool img.endStruct i).addr) :
    LinkedHeap.Sound img ⟨mem, list, []⟩ := by
  obtain ⟨mem', he, hinv⟩ := initMemory_spec img
  obtain rfl := Option.some.inj (h.symm.trans he)
  have hring : ∀ i, mem.shapes i = [(Talios.cachePool img.endStruct i).shape] := by
    unfold initMemory at h
    obtain ⟨m, -, rfl⟩ := Option.map_eq_some_iff.mp h
    exact fun _ => rfl
  refine ⟨hinv.account (poolLayout_init img), headersFit_of_tails (fun j _ _ => ?_), fun i hi => ?_⟩
  · rw [hring]
    rfl
  · show Links.Circular list ((mem.shapes i).map Slab.addr)
    rw [hring]
    exact Links.circular_singleton.mpr (hlist i hi)

/-- **Every state of a run** in which no new header reaches into another one. -/
theorem LinkedReachable.sound (h : LinkedReachable img pageAt HeaderEndsBefore s) : s.Sound img := by
  induction h with
  | boot h hlist => exact LinkedHeap.sound_boot h hlist
  | step _ hok hs ih => exact ih.step hok hs

/-- What the invariant says about the books. -/
theorem LinkedHeap.Sound.books (h : s.Sound img) : HeapBooks img s where
  slabs i hi t ht := by
    have hok := h.ledger.slabs i hi t ht
    have h1 := hok.using_eq
    have h2 := hok.free_eq
    exact ⟨by omega, h1.symm⟩
  totals i hi := ⟨h.ledger.totalFree i hi, h.ledger.totalUse i hi⟩
  rings := h.linked
  cachePool i hi := by
    refine ⟨h.toAccount.cachePool_eq hi, ?_⟩
    obtain ⟨grown, hr, -⟩ := h.start i hi
    rw [h.toAccount.cachePool_eq hi, hr]
    exact List.mem_cons_self
  nodup := h.ledger.ptrsNodup
  live := h.ledger.marked_iff
  kmalloc := h.toAccount.kmallocFinds (poolLayout_init img)
  kfree b hb ptr hptr := by
    obtain ⟨mem', he, hsub, h'⟩ := Books.kfree (poolLayout_init img) h hb hptr
    exact ⟨mem', he, h.toAccount.kfreeExact hb h'.toAccount hsub⟩

end

/-! ## A ring written over -/

section

variable {img : KernelImage} {pageAt : Nat → Nat} {s : LinkedHeap} {size i : Nat}

/-- A run under a condition is one under a weaker condition. -/
theorem LinkedReachable.mono {ok ok' : LinkedHeap → HeapCall → Prop}
    (h : LinkedReachable img pageAt ok s) (hok : ∀ s c, ok s c → ok' s c) :
    LinkedReachable img pageAt ok' s := by
  induction h with
  | boot h hlist => exact .boot h hlist
  | step _ hc hs ih => exact ih.step (hok _ _ hc) hs

/-- A call that a class with a free object serves. -/
theorem LinkedReachable.take (h : LinkedReachable img pageAt HeaderEndsBefore s)
    (hi : i < KMALLOC_SLAB_SIZE) (h1 : size ≤ kmallocSize i) (h2 : ∀ j < i, kmallocSize j < size)
    (hf : (s.mem.cache i).totalFree ≠ 0) :
    ∃ s' pre t post k, LinkedReachable img pageAt HeaderEndsBefore s' ∧
      TakesObject s.mem s'.mem i pre t post k := by
  obtain ⟨mem', pre, t, post, k, htake, he, -⟩ :=
    h.sound.toAccount.kmalloc_taken hi hf h1 h2 (kmallocWith (fun _ _ => none))
  have hok : HeaderEndsBefore s (.kmalloc size) := by
    intro j hc _ h0
    obtain rfl := Option.some.inj ((findClass_eq h.sound.ledger.size hi h1 h2).symm.trans hc)
    exact absurd h0 hf
  exact ⟨_, pre, t, post, k, h.step hok (.kmalloc size h.sound.linked he), htake⟩

/-- Only class `i` has changed, and no slab has moved. -/
structure OnlyClass (s s' : LinkedHeap) (i : Nat) : Prop where
  shapes : s'.mem.shapes = s.mem.shapes
  mms : s'.mem.mms = s.mem.mms
  others : ∀ j ≠ i, s'.mem.cache j = s.mem.cache j

theorem OnlyClass.cons {s' s'' : LinkedHeap} {pre post : List Slab} {t : Slab} {k : Nat}
    (htake : TakesObject s.mem s'.mem i pre t post k) (h : OnlyClass s' s'' i) : OnlyClass s s'' i :=
  ⟨h.shapes.trans htake.shapes, h.mms.trans htake.mms,
    fun j hj => (h.others j hj).trans (htake.others j hj)⟩

/-- **A class is used up.** -/
theorem LinkedReachable.useUp (hi : i < KMALLOC_SLAB_SIZE) (h1 : size ≤ kmallocSize i)
    (h2 : ∀ j < i, kmallocSize j < size) : ∀ (n : Nat) (s : LinkedHeap),
    (s.mem.cache i).totalFree = n → LinkedReachable img pageAt HeaderEndsBefore s →
    ∃ s', LinkedReachable img pageAt HeaderEndsBefore s' ∧ (s'.mem.cache i).totalFree = 0 ∧
      OnlyClass s s' i := by
  intro n
  induction n with
  | zero => exact fun s hn h => ⟨s, h, hn, rfl, rfl, fun _ _ => rfl⟩
  | succ n ih =>
      intro s hn h
      obtain ⟨s', pre, t, post, k, h', htake⟩ := h.take hi h1 h2 (by omega)
      have hfree : (s'.mem.cache i).totalFree = n := by
        rw [htake.cache]
        dsimp only
        omega
      obtain ⟨s'', h'', h0, honly⟩ := ih s' hfree h'
      exact ⟨s'', h'', h0, honly.cons htake⟩

/-- **An object of a class is the next** some time, if it is free. -/
theorem LinkedReachable.reach (hi : i < KMALLOC_SLAB_SIZE) (h1 : size ≤ kmallocSize i)
    (h2 : ∀ j < i, kmallocSize j < size) {u : Slab} {l : Nat} (hl : l < u.colorCount) :
    ∀ (n : Nat) (s : LinkedHeap), (s.mem.cache i).totalFree = n →
    LinkedReachable img pageAt HeaderEndsBefore s → u ∈ s.mem.shapes i → ¬ u.Taken s.mem.word l →
    ∃ s' mem' pre t post, LinkedReachable img pageAt HeaderEndsBefore s' ∧ OnlyClass s s' i ∧
      TakesObject s'.mem mem' i pre t post l ∧ t.shape = u := by
  intro n
  induction n with
  | zero =>
      intro s hn h hu hfree
      obtain ⟨r, hr, rfl⟩ := List.mem_map.mp hu
      exact absurd ((h.sound.toAccount.taken_of_full hi hn hr).2 l hl) hfree
  | succ n ih =>
      intro s hn h hu hfree
      obtain ⟨s', pre, t, post, k, h', htake⟩ := h.take hi h1 h2 (by omega)
      by_cases hnext : u = t.shape ∧ l = k
      · obtain ⟨rfl, rfl⟩ := hnext
        exact ⟨s, s'.mem, pre, t, post, h, ⟨rfl, rfl, fun _ _ => rfl⟩, htake, rfl⟩
      · have hn' : (s'.mem.cache i).totalFree = n := by
          rw [htake.cache]
          dsimp only
          omega
        have hfree' : ¬ u.Taken s'.mem.word l := by
          rw [htake.taken i hi u hu l]
          rintro (hx | ⟨-, he⟩)
          · exact hfree hx
          · exact hnext he
        obtain ⟨s'', mem', pre', t', post', h'', honly, htake', he⟩ :=
          ih s' hn' h' (by rw [htake.shapes]; exact hu) hfree'
        exact ⟨s'', mem', pre', t', post', h'', honly.cons htake, htake', he⟩

/-- Whether `AllocSlab` finds an object, and which, does not depend on the page allocator. -/
theorem allocSlab_setMms (mem : KMem) (mms : MMS) (i : Nat) :
    (allocSlab { mem with mms := mms } i).2 = (allocSlab mem i).2 := by
  unfold allocSlab
  dsimp only
  split
  · rfl
  · rfl

/-- **The header that is written over a list.** Class 2 is about to hand out the last object of the slab
`t` by which it has grown, and a class above 0x200 bytes grows: then `t` is followed by what the new
header has in `ColorCount`. -/
theorem LinkedReachable.clobber (h : LinkedReachable img pageAt HeaderEndsBefore s)
    (h5 : 5 ≤ i) (hi : i < KMALLOC_SLAB_SIZE) (hf : (s.mem.cache i).totalFree = 0)
    (h1 : size ≤ kmallocSize i) (h2 : ∀ j < i, kmallocSize j < size) {mem₁ : KMem} {t : Slab}
    {pre post : List Slab} (htake : TakesObject s.mem mem₁ 2 pre t post (t.colorCount - 1))
    (htail : t.shape ∈ (s.mem.shapes 2).tail)
    (hpage : ∃ mms page, allocPage s.mem.mms ZONE_NORMAL_INDEX 1 0 = some (mms, some page)) :
    ∃ s', LinkedReachable img pageAt (fun _ _ => True) s' ∧ s'.mem.shapes 2 = s.mem.shapes 2 ∧
      s'.list.next t.addr = PAGE_2M_SIZE / kmallocSize i := by
  have hp := poolLayout_init img
  have hacc := h.sound.toAccount
  have h2' : 2 < KMALLOC_SLAB_SIZE := by decide
  have hfree₂ : (s.mem.cache 2).totalFree ≠ 0 := by
    intro h0
    have ht : t ∈ (s.mem.cache 2).ring := by rw [htake.ring]; simp
    exact htake.free (hacc.taken_of_full h2' h0 ht).1
  cases hacc.largeCall hp h5 hi hf h1 h2 with
  | null hpage' _ =>
      obtain ⟨mms, page, hpage⟩ := hpage
      exact absurd (hpage.symm.trans hpage') (by simp)
  | loses hl _ =>
      obtain ⟨mms, page, -, hno⟩ := hl
      exact absurd (Or.inl hfree₂) hno
  | @grown mms page addr k s₂ mem' v pre' post' hpage' _ hheader hphy hacc₁ _ _ _ _ _ hjoin htake' he
      _ _ =>
      -- the header is the last object of the slab
      have hheader' : SLAB_STRUCT_SIZE ≤ kmallocSize 2 := by decide
      obtain ⟨s₃, pre₂, u, post₂, l, htake₂, he₂, hacc₂⟩ := hacc₁.kmalloc_taken h2' hfree₂ hheader'
        (by decide) (fun _ _ => none)
      obtain ⟨rfl, haddr⟩ := Prod.mk.inj (Option.some.inj (he₂.symm.trans hheader))
      have hlast : addr = t.vaddress + (t.colorCount - 1) * kmallocSize 2 := by
        have hx := allocSlab_setMms s.mem mms 2
        rw [htake.alloc, htake₂.alloc] at hx
        exact (Option.some.inj haddr).symm.trans (Option.some.inj hx)
      have hover : t.addr = addr + 56 := by
        rw [hlast]
        exact (hacc.grown_of_tail h2' htail).last_header.2
      have hsh : s₃.shapes = s.mem.shapes := htake₂.shapes
      refine ⟨_, (h.mono (fun _ _ _ => trivial)).step trivial (.kmalloc size h.sound.linked he), ?_, ?_⟩
      · show mem'.shapes 2 = _
        rw [htake'.shapes, hjoin.shapes, Function.update_of_ne (by omega), hsh]
      · have hc₂ := findClass_eq hacc₁.ledger.size h2' hheader' (by decide)
        -- `CachePool` of the class that grows is another header
        have hpool : t.addr ≠ (Talios.cachePool img.endStruct i).addr := by
          intro heq
          obtain ⟨grown, hr, -⟩ := hacc.start i hi
          have hmem : (Talios.cachePool img.endStruct i).shape ∈ s.mem.shapes i := by
            rw [hr]
            exact List.mem_cons_self
          have hbyte : t.shape.HasByte t.addr := ⟨le_rfl, Nat.lt_add_of_pos_right (by decide)⟩
          have := (hacc.header_eq hp h.sound.fit h2' hi (List.mem_of_mem_tail htail) hmem hbyte
            ⟨heq.symm.le, heq ▸ hbyte.2⟩).1
          omega
        have hbyte : (newLargeSlab i page addr).HasByte (t.addr + 8) := by
          show addr ≤ t.addr + 8 ∧ t.addr + 8 < addr + SLAB_STRUCT_SIZE
          unfold SLAB_STRUCT_SIZE
          omega
        have hoff : t.addr + 8 - (newLargeSlab i page addr).addr = 64 := by
          show t.addr + 8 - addr = 64
          omega
        have hnew : t.addr ≠ (newLargeSlab i page addr).addr := by
          show t.addr ≠ addr
          omega
        show (kmallocList pageAt s.mem s.list size).next t.addr = _
        rw [hacc.kmallocList_grown h5 hi h1 h2 hf hpage' hheader hphy, kmallocListWith_kept hc₂ hfree₂,
          growList, listBackAdd, Links.backAdd_next_of_ne (by rw [hacc₂.cachePool_eq hi]; exact hpool) hnew]
        have hwrite : (writeHeader pageAt s.list (newLargeSlab i page addr)).next t.addr
            = (newLargeSlab i page addr).field pageAt (t.addr + 8 - (newLargeSlab i page addr).addr) :=
          if_pos hbyte
        rw [hwrite, hoff]
        rfl

end

/-- A header of class 2 lies in the direct map. -/
theorem Account.pageOffset_le {m₀ : MMS} {pool : Nat → Slab} {mem : KMem} {out : Nat → Nat}
    {blocks : List Nat} {t : Slab} (hp : PoolLayout m₀ pool) (h : Account m₀ pool mem out blocks)
    (ht : t ∈ mem.shapes 2) : PAGE_OFFSET ≤ t.addr := by
  have h2 : 2 < KMALLOC_SLAB_SIZE := by decide
  rcases h.cases h2 ht with rfl | ⟨-, hg⟩
  · exact hp.lower 2 h2
  · rw [hg.last_header.2, hg.vaddress, phyToVirt]
    omega

/-- The example with the classes 0x400 and 0x80 used up. -/
theorem example_bothUsedUp (pageAt : Nat → Nat) : ∃ s,
    LinkedReachable exampleImage pageAt HeaderEndsBefore s ∧ (s.mem.cache 5).totalFree = 0 ∧
    (s.mem.cache 2).totalFree = 0 ∧ ∀ j < KMALLOC_SLAB_SIZE, (s.mem.shapes j).tail = [] := by
  obtain ⟨mem, he, hinv, -⟩ := exampleInv_boot
  have hboot : LinkedReachable exampleImage pageAt HeaderEndsBefore ⟨mem, ⟨id, id⟩, []⟩ :=
    .boot he (fun _ _ => ⟨rfl, rfl⟩)
  obtain ⟨s₁, hr₁, hf₁, honly₁⟩ := LinkedReachable.useUp (by decide : 5 < KMALLOC_SLAB_SIZE)
    (by decide : 0x400 ≤ kmallocSize 5) (by decide) _ _ rfl hboot
  obtain ⟨s₂, hr₂, hf₂, honly₂⟩ := LinkedReachable.useUp (by decide : 2 < KMALLOC_SLAB_SIZE)
    (by decide : 0x80 ≤ kmallocSize 2) (by decide) _ _ rfl hr₁
  have hsh₂ : s₂.mem.shapes = mem.shapes := honly₂.shapes.trans honly₁.shapes
  refine ⟨s₂, hr₂, ?_, hf₂, ?_⟩
  · rw [honly₂.others 5 (by decide)]
    exact hf₁
  · rw [hsh₂]
    exact hinv.tails

/-- Beside the page at `p` there is another one. -/
theorem example_pageBeside {mem : KMem} {blocks : List Nat} {p : Nat}
    (h : Account (reservedMMS exampleImage.map (kernelReservations exampleImage.endStruct))
      (cachePool exampleImage.endStruct) mem (fun _ => 0) blocks) (hp : 2 ^ 9 ∣ p)
    (hcover : ∀ x, grownCover mem.shapes x ≤ ind p 9 x) :
    ∃ mms page, allocPage mem.mms ZONE_NORMAL_INDEX 1 0 = some (mms, some page) := by
  -- of two blocks one is not the page
  obtain ⟨b, hb1, hb2, hb3, hb4⟩ : ∃ b, 20480 ≤ b ∧ b + 2 ^ 9 ≤ 32768 ∧ 2 ^ 9 ∣ b ∧
      ∀ x, Mem b 9 x → ind p 9 x = 0 := by
    by_cases hpb : p = 20480
    · refine ⟨20992, by norm_num, by norm_num, by norm_num, fun x hx => ?_⟩
      have hno : ¬ Mem p 9 x := by
        unfold Mem at hx ⊢
        omega
      exact if_neg hno
    · refine ⟨20480, by norm_num, by norm_num, by norm_num, fun x hx => ?_⟩
      have hno : ¬ Mem p 9 x := by
        unfold Mem at hx ⊢
        omega
      exact if_neg hno
  obtain ⟨mms, page, zi, -, ha, -⟩ := @example_pages mem.mms _ h.layout h.inv (1 * 2 ^ 9) b 0
    (by rw [getOrder_block]; decide) (by rw [getOrder_block]; exact hb3) hb1
    (by rw [getOrder_block]; exact hb2) (fun x hx => by
      rw [getOrder_block] at hx
      have hle := hcover x
      rw [hb4 x hx] at hle
      omega)
  exact ⟨mms, page, ha⟩

/-- The example with class 0x400 used up, where class 0x80 is about to hand out the last object of a slab
it has grown by, and there is a page of 2 MiB. -/
theorem example_lastObject (pageAt : Nat → Nat) : ∃ s mem₁ pre t post,
    LinkedReachable exampleImage pageAt HeaderEndsBefore s ∧ (s.mem.cache 5).totalFree = 0 ∧
    TakesObject s.mem mem₁ 2 pre t post (t.colorCount - 1) ∧ t.shape ∈ (s.mem.shapes 2).tail ∧
    ∃ mms page, allocPage s.mem.mms ZONE_NORMAL_INDEX 1 0 = some (mms, some page) := by
  have hp := poolLayout_init exampleImage
  have h2 : 2 < KMALLOC_SLAB_SIZE := by decide
  obtain ⟨s₂, hr₂, hf₁, hf₂, htails⟩ := example_bothUsedUp pageAt
  have hacc₂ := hr₂.sound.toAccount
  -- class 0x80 grows
  cases hacc₂.smallCall hp (by decide : 2 < 5) (by decide : 0x80 ≤ kmallocSize 2) (by decide)
    (kmallocWith (fun _ _ => none)) with
  | null _ hpage _ =>
      obtain ⟨mms, page, ha⟩ := example_pageBeside hacc₂ (dvd_zero _) (fun x => by
        rw [grownCover_of_tails htails]
        exact Nat.zero_le _)
      exact absurd (hpage.symm.trans ha) (by simp)
  | taken hf' => exact absurd hf₂ hf'
  | @grown s' mem₃ mms p pre post _ hpage _ _ hn hjoin htake he₃ _ _ =>
      have hok : HeaderEndsBefore s₂ (.kmalloc 0x80) := by
        intro j hc h5' _
        obtain rfl := Option.some.inj
          ((findClass_eq hacc₂.ledger.size h2 (by decide) (by decide)).symm.trans hc)
        omega
      have hr₃ := hr₂.step hok (.kmalloc 0x80 hr₂.sound.linked he₃)
      have hsh₃ : mem₃.shapes = Function.update s₂.mem.shapes 2
          (insertSlab (newSlab 2 p).shape (s₂.mem.shapes 2)) := htake.shapes.trans hjoin.shapes
      have hnew : (newSlab 2 p).shape ∈ s'.shapes 2 := hjoin.mem_shapes.mpr (Or.inl ⟨rfl, rfl⟩)
      have hcount := hn.last_header.1
      have hlt : (newSlab 2 p).colorCount - 1 < (newSlab 2 p).shape.colorCount := by
        show (newSlab 2 p).colorCount - 1 < (newSlab 2 p).colorCount
        omega
      have hlast : ¬ (newSlab 2 p).shape.Taken mem₃.word ((newSlab 2 p).colorCount - 1) := by
        rw [htake.taken 2 h2 _ hnew]
        rintro (hx | ⟨-, -, h0⟩)
        · exact hjoin.not_taken _ hx
        · omega
      -- and hands out its objects but the last
      obtain ⟨s₄, mem₁, pre₄, t, post₄, hr₄, honly₄, htake₄, hshape⟩ := LinkedReachable.reach h2
        (by decide : 0x80 ≤ kmallocSize 2) (by decide) hlt _ _ rfl hr₃ (htake.shapes ▸ hnew) hlast
      have hcolor : t.shape.colorCount = (newSlab 2 p).shape.colorCount :=
        congrArg Slab.colorCount hshape
      have hcolor' : t.colorCount = (newSlab 2 p).colorCount := hcolor
      have hsh₄ : s₄.mem.shapes = mem₃.shapes := honly₄.shapes
      refine ⟨s₄, mem₁, pre₄, t, post₄, hr₄, ?_, by rw [hcolor']; exact htake₄, ?_, ?_⟩
      · rw [honly₄.others 5 (by decide)]
        show (mem₃.cache 5).totalFree = 0
        rw [htake.others 5 (by decide), hjoin.others 5 (by decide)]
        exact hf₁
      · obtain ⟨cp, rest, hcp⟩ := List.exists_cons_of_ne_nil (hacc₂.ring_ne_nil h2)
        rw [hshape, hsh₄, hsh₃, Function.update_self, hcp]
        exact List.mem_cons_self
      · refine example_pageBeside hr₄.sound.toAccount hn.aligned (fun x => ?_)
        rw [hsh₄, hsh₃, grownCover_insert h2 (hacc₂.ring_ne_nil h2), grownCover_of_tails htails,
          Nat.zero_add]
        exact le_rfl

/-! ## All runs -/

/-- **The books are right** in every run in which no class above 0x200 bytes grows by a header that
reaches into another one. -/
theorem heap_books (img : KernelImage) (pageAt : Nat → Nat) {s : LinkedHeap}
    (h : LinkedReachable img pageAt HeaderEndsBefore s) : HeapBooks img s :=
  h.sound.books

/-- Class 0x80 has grown, and class 0x400 is used up. -/
theorem heap_books_example : ∃ s, LinkedReachable exampleImage id HeaderEndsBefore s ∧
    (s.mem.cache 5).totalFree = 0 ∧ (s.mem.shapes 2).tail ≠ [] ∧ HeapBooks exampleImage s := by
  obtain ⟨s, mem₁, pre, t, post, hr, hf, -, htail, -⟩ := example_lastObject id
  exact ⟨s, hr, hf, List.ne_nil_of_mem htail, heap_books exampleImage id hr⟩

/-- The last object of a slab of class 0x80 becomes the header of a slab of class 0x400. -/
theorem heap_books_broken :
    ¬ ∀ (img : KernelImage) (pageAt : Nat → Nat) (s : LinkedHeap),
      LinkedReachable img pageAt (fun _ _ => True) s → HeapBooks img s := by
  intro hall
  obtain ⟨s, mem₁, pre, t, post, hr, hf, htake, htail, hpage⟩ := example_lastObject id
  obtain ⟨s', hr', hsh, hnext⟩ := hr.clobber le_rfl (by decide) hf (by decide : 0x400 ≤ kmallocSize 5)
    (by decide) htake htail hpage
  have hring := (hall exampleImage id s' hr').rings 2 (by decide)
  rw [hsh] at hring
  have hmem := hring.next_mem (List.mem_map_of_mem (List.mem_of_mem_tail htail))
  obtain ⟨u, hu, he⟩ := List.mem_map.mp hmem
  have hle := hr.sound.toAccount.pageOffset_le (poolLayout_init exampleImage) hu
  have hnext' : s'.list.next t.shape.addr = PAGE_2M_SIZE / kmallocSize 5 := hnext
  rw [he, hnext'] at hle
  exact absurd hle (by decide)

end Talios
