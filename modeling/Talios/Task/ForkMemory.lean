import Talios.Mm.AddressSpaceRun
import Talios.Task.Fork

set_option autoImplicit false

/-! # The memory of a child

What `do_fork` without `CLONE_VM` makes of the memory of the parent. The child gets the pages that
`copy_mm` copies, each in a frame of its own and writable, and the list of areas. The pages behind the
areas are not copied, and neither is what the parent may not write kept so:
`fork_preserves_memory` says which parents are right.
-/

namespace Talios

open Bytes Word

/-! ## The memory of the child -/

/-- `AllocPage4K` returns pages that are free, and never one twice. -/
structure ForkEnv.Fresh (env : ForkEnv) (s : ForkSys) : Prop where
  free : ∀ v page, env.outcome v = .ready page → page ∉ s.frames
  distinct : ∀ v w page, env.outcome v = .ready page → env.outcome w = .ready page → v = w

/-- The child has the pages of the parent in frames of its own, and its areas; the parent is as it
was. -/
structure ForkSys.Preserved (s s' : ForkSys) (child : Process) : Prop where
  pages : ∀ i f, s.parent.pages i = some f → ∃ f', child.pages i = some f' ∧ f' ≠ f ∧
    s'.phys f' = s.phys f ∧ child.writable i = s.parent.writable i
  absent : ∀ i, s.parent.pages i = none → child.pages i = none
  areas : child.space.mm.vmaList.map VmArea.content
    = s.parent.space.mm.vmaList.map VmArea.content
  parent : s'.parent = s.parent
  contents : ∀ i f, s.parent.pages i = some f → s'.phys f = s.phys f

/-- The pages of the address space are those that `copy_mm` copies, and all may be written. -/
def Process.OnlyCopied (p : Process) : Prop :=
  ∀ i, ((p.pages i).isSome = true ↔ i ∈ (copyAddrs p).map pageNo) ∧
    ((p.pages i).isSome = true → p.writable i = true)

/-- The state of the loops if the pages `before` were all there. -/
structure CopiedExact (env : ForkEnv) (s : ForkSys) (before : List Nat) (c : Copying) : Prop where
  parent : c.sys.parent = s.parent
  old : ∀ f ∈ s.frames, c.sys.phys f = s.phys f
  new : ∀ i f', c.entries.lookup i = some f' → ∃ v ∈ before, pageNo v = i ∧
    env.outcome v = .ready f' ∧ ∃ f, s.parent.pages i = some f ∧ c.sys.phys f' = s.phys f

section

variable {env : ForkEnv} {s : ForkSys} {before : List Nat} {c c' : Copying} {v : Nat}

/-- A page that is there is copied to a frame of its own. -/
theorem CopiedExact.page (h : CopiedExact env s before c) (hfresh : env.Fresh s)
    (hmapped : ∀ i f, s.parent.pages i = some f → f ∈ s.frames)
    (hsome : (s.parent.pages (pageNo v)).isSome = true)
    (he : copyUserPage env c v = .done c') : CopiedExact env s (before ++ [v]) c' := by
  obtain ⟨f, hf⟩ := Option.isSome_iff_exists.mp hsome
  unfold copyUserPage at he
  cases hout : env.outcome v with
  | noPage =>
      rw [hout] at he
      exact nomatch he
  | noTable page =>
      rw [hout] at he
      exact nomatch he
  | ready page =>
      rw [hout] at he
      dsimp only at he
      split at he
      · exact nomatch he
      · rename_i hnew
        unfold copyFromParent at he
        rw [show (c.link (env.tables v)).sys.parent.pages (pageNo v) = some f by
          show c.sys.parent.pages (pageNo v) = some f
          rw [h.parent, hf]] at he
        obtain rfl := ForkStage.done.inj he
        have hphys : ∀ q, q ≠ page →
            Function.update c.sys.phys page (c.sys.phys f) q = c.sys.phys q :=
          fun q hq => Function.update_of_ne hq _ _
        have hpage : page ∉ s.frames := hfresh.free v page hout
        refine ⟨h.parent, fun q hq => ?_, fun i f' hi => ?_⟩
        · exact (hphys q (fun hc => hpage (hc ▸ hq))).trans (h.old q hq)
        · have hi' : List.lookup i ((pageNo v, page) :: c.entries) = some f' := hi
          rw [List.lookup_cons] at hi'
          by_cases hiv : i = pageNo v
          · rw [hiv, BEq.rfl] at hi'
            obtain rfl := Option.some.inj hi'
            refine ⟨v, by simp, hiv.symm, hout, f, hiv ▸ hf, ?_⟩
            exact (Function.update_self ..).trans (h.old f (hmapped _ f hf))
          · rw [beq_eq_false_iff_ne.mpr hiv] at hi'
            obtain ⟨w, hw, hwi, hwout, g, hg, hgphys⟩ := h.new i f' hi'
            refine ⟨w, List.mem_append_left _ hw, hwi, hwout, g, hg, ?_⟩
            -- the frame of an earlier page is another one
            have hne : f' ≠ page := by
              rintro rfl
              exact hiv (hwi.symm.trans (congrArg pageNo (hfresh.distinct w v _ hwout hout)))
            exact (hphys f' hne).trans hgphys

/-- All pages of a list that are there are copied. -/
theorem CopiedExact.loop (hfresh : env.Fresh s)
    (hmapped : ∀ i f, s.parent.pages i = some f → f ∈ s.frames) :
    ∀ (l before : List Nat) (c c' : Copying), CopiedExact env s before c →
    (∀ v ∈ l, (s.parent.pages (pageNo v)).isSome = true) → copyUserLoop env l c = .done c' →
    CopiedExact env s (before ++ l) c' := by
  intro l
  induction l with
  | nil =>
      intro before c c' h _ he
      obtain rfl := ForkStage.done.inj he
      rw [List.append_nil]
      exact h
  | cons v l ih =>
      intro before c c' h hl he
      obtain ⟨hv, hl⟩ := List.forall_mem_cons.mp hl
      rw [copyUserLoop] at he
      cases hp : copyUserPage env c v with
      | done c₁ =>
          rw [hp] at he
          have hnext := ih _ _ _ (h.page hfresh hmapped hv hp) hl he
          rw [List.append_assoc] at hnext
          exact hnext
      | null =>
          rw [hp] at he
          cases he
      | halted =>
          rw [hp] at he
          cases he
      | failed c₁ =>
          rw [hp] at he
          cases he

end

/-- A call without `CLONE_VM` that succeeds has copied the address space. -/
theorem forked_copied {current : Nat} {cloneFs : Bool} {env : ForkEnv} {s s' : ForkSys}
    {child : ForkChild} (hg : env.grown = none)
    (h : doFork current false cloneFs env s = some (.forked s' child)) :
    ∃ tsk heap c mm heap', MmCopied env (s.linkChild current tsk) heap c mm ∧
      child.mm = some (c.child mm) ∧ s' = { c.sys with heap := heap' } := by
  unfold doFork at h
  cases htask : env.taskBlock with
  | none =>
      rw [htask] at h
      exact nomatch h
  | some tsk =>
      rw [htask] at h
      dsimp only at h
      rw [if_neg Bool.false_ne_true] at h
      rcases copyMm_spec env (s.linkChild current tsk) hg with
        ⟨-, he | ⟨s₁, he, -⟩⟩ | ⟨-, -, he⟩ | ⟨-, -, heap, c, mm, he, hcopied⟩
      · rw [he] at h
        exact nomatch h
      · rw [he] at h
        exact nomatch h
      · rw [he] at h
        exact nomatch h
      · rw [he] at h
        rcases forkFiles_cases h with ⟨-, -, s₁, err, hr, -⟩ | ⟨-, s₁, handles, hr, heap', rfl⟩
        · exact nomatch hr
        · obtain ⟨rfl, rfl⟩ := ForkResult.forked.inj hr
          exact ⟨tsk, heap, c, mm, heap', hcopied, rfl, rfl⟩

/-- The child has the pages that are copied, and all may be written. -/
theorem MmCopied.child_pages {env : ForkEnv} {s : ForkSys} {heap : FileHeap} {c : Copying} {mm : Lmm}
    (h : MmCopied env s heap c mm) (i : Nat) :
    ((c.child mm).pages i).isSome = true ↔ i ∈ (copyAddrs s.parent).map pageNo :=
  h.copied.keys i

/-- If just these pages are there, the memory of the parent is preserved. -/
theorem MmCopied.preserved {env : ForkEnv} {s : ForkSys} {heap heap' : FileHeap} {c : Copying}
    {mm : Lmm} (h : MmCopied env s heap c mm) (hfresh : env.Fresh s)
    (hmapped : ∀ i f, s.parent.pages i = some f → f ∈ s.frames) (hp : s.parent.OnlyCopied) :
    s.Preserved { c.sys with heap := heap' } (c.child mm) := by
  have hstart : CopiedExact env { s with heap := heap } [] ⟨{ s with heap := heap }, [], []⟩ :=
    ⟨rfl, fun _ _ => rfl, fun _ _ hi => nomatch hi⟩
  have hall : ∀ v ∈ copyAddrs s.parent, (s.parent.pages (pageNo v)).isSome = true :=
    fun v hv => (hp (pageNo v)).1.mpr (List.mem_map_of_mem hv)
  have hexact := CopiedExact.loop (s := { s with heap := heap }) ⟨hfresh.free, hfresh.distinct⟩
    hmapped _ _ _ _ hstart hall h.loop
  refine ⟨fun i f hi => ?_, fun i hi => ?_, h.areas, hexact.parent,
    fun i f hi => hexact.old f (hmapped i f hi)⟩
  · have hsome : (s.parent.pages i).isSome = true := by rw [hi]; rfl
    obtain ⟨f', hf'⟩ := Option.isSome_iff_exists.mp
      ((h.child_pages i).mpr ((hp i).1.mp hsome))
    obtain ⟨v, -, -, hout, g, hg, hphys⟩ := hexact.new i f' hf'
    obtain rfl : g = f := Option.some.inj (hg.symm.trans hi)
    refine ⟨f', hf', ?_, hphys, ((hp i).2 hsome).symm⟩
    rintro rfl
    exact hfresh.free v _ hout (hmapped i _ hi)
  · by_contra hc
    have hmem := (h.child_pages i).mp (Option.isSome_iff_ne_none.mpr hc)
    have hsome := (hp i).1.mpr hmem
    rw [hi] at hsome
    exact nomatch hsome

/-- If the memory is preserved, just these pages are there. -/
theorem MmCopied.onlyCopied {env : ForkEnv} {s s' : ForkSys} {heap : FileHeap} {c : Copying} {mm : Lmm}
    (h : MmCopied env s heap c mm) (hpres : s.Preserved s' (c.child mm)) : s.parent.OnlyCopied := by
  intro i
  constructor
  · rw [← h.child_pages i]
    constructor
    · intro hsome
      obtain ⟨f, hf⟩ := Option.isSome_iff_exists.mp hsome
      obtain ⟨f', hf', -⟩ := hpres.pages i f hf
      rw [hf']
      rfl
    · intro hsome
      by_contra hc
      rw [hpres.absent i (Option.not_isSome_iff_eq_none.mp hc)] at hsome
      exact nomatch hsome
  · intro hsome
    obtain ⟨f, hf⟩ := Option.isSome_iff_exists.mp hsome
    obtain ⟨f', -, -, -, hw⟩ := hpres.pages i f hf
    exact hw.symm

/-- What is preserved does not depend on the task that is linked. -/
theorem ForkSys.Preserved.congr {s t s' : ForkSys} {child : Process} (h : s.Preserved s' child)
    (hparent : t.parent = s.parent) (hphys : t.phys = s.phys) : t.Preserved s' child := by
  refine ⟨?_, ?_, ?_, ?_, ?_⟩
  · rw [hparent, hphys]
    exact h.pages
  · rw [hparent]
    exact h.absent
  · rw [hparent]
    exact h.areas
  · rw [hparent]
    exact h.parent
  · rw [hparent, hphys]
    exact h.contents

/-- **A child has the memory of its parent**, where the class of pages does not grow, if and only if the
pages of the parent are the window and the heap, and all of them may be written. -/
theorem fork_preserves_memory {current : Nat} {cloneFs : Bool} {env : ForkEnv} {s s' : ForkSys}
    {child : ForkChild} (hgrown : env.grown = none) (hfresh : env.Fresh s)
    (hmapped : ∀ i f, s.parent.pages i = some f → f ∈ s.frames)
    (h : doFork current false cloneFs env s = some (.forked s' child)) :
    (∃ mm, child.mm = some mm ∧ s.Preserved s' mm) ↔ s.parent.OnlyCopied := by
  obtain ⟨tsk, heap, c, mm, heap', hcopied, hmm, rfl⟩ := forked_copied hgrown h
  constructor
  · rintro ⟨mm', hmm', hpres⟩
    obtain rfl := Option.some.inj (hmm.symm.trans hmm')
    exact hcopied.onlyCopied (hpres.congr rfl rfl)
  · intro hp
    have hpres := @MmCopied.preserved _ _ _ heap' _ _ hcopied ⟨hfresh.free, hfresh.distinct⟩ hmapped hp
    exact ⟨_, hmm, hpres.congr rfl rfl⟩

/-! ### Runs of one call -/

theorem rangeAddrs_pages {k l : Nat} (hkl : k ≤ l) (hl : l ≤ 2 ^ 36) :
    (rangeAddrs (k * PAGE_4K_SIZE) (l * PAGE_4K_SIZE)).map pageNo = List.range' k (l - k) := by
  have hP : PAGE_4K_SIZE = 4096 := rfl
  have hfirst : alignDown PAGE_4K_SIZE (k * PAGE_4K_SIZE) = k * PAGE_4K_SIZE := by
    unfold alignDown
    rw [Nat.mul_div_cancel _ (by decide)]
  have hlast : alignUp64 PAGE_4K_SIZE (l * PAGE_4K_SIZE) = l * PAGE_4K_SIZE := by
    rw [alignUp_page (by rw [hP]; omega), hP]
    omega
  unfold rangeAddrs
  dsimp only
  rw [hfirst, hlast, ← Nat.sub_mul, Nat.mul_div_cancel _ (by decide), List.map_map,
    List.range'_eq_map_range]
  apply List.map_congr_left
  intro i hi
  have hi := List.mem_range.mp hi
  show (k * PAGE_4K_SIZE + i * PAGE_4K_SIZE) / PAGE_4K_SIZE % 2 ^ 36 = k + i
  rw [← Nat.add_mul, Nat.mul_div_cancel _ (by decide)]
  omega

/-- No page is refused, if there are pages and tables for all. -/
theorem not_copyFails {env : ForkEnv} {p : Process} {l : List Nat}
    (hready : ∀ v ∈ l, ∃ page, env.outcome v = .ready page) (hl : (l.map pageNo).Nodup) :
    ¬ env.CopyFails p [] l := by
  rintro ⟨pre, v, post, rfl, -, hno | hold⟩
  · obtain ⟨page, hpage⟩ := hready v (by simp)
    exact hno page hpage
  · rw [List.map_append, List.map_cons] at hl
    have hdisj := (List.nodup_append.mp hl).2.2
    exact hdisj _ hold _ List.mem_cons_self rfl

/-- With `CLONE_FS` a call succeeds if nothing fails and the pages can be read. -/
theorem doFork_forked {current tsk : Nat} {env : ForkEnv} {s : ForkSys} (hg : env.grown = none)
    (htask : env.taskBlock = some tsk) (hno : ¬ env.MmFails s.parent)
    (hread : ∀ v ∈ copyAddrs s.parent, env.Readable s.parent v) :
    ∃ s' child, doFork current false true env s = some (.forked s' child) := by
  unfold doFork
  rw [htask]
  dsimp only
  rw [if_neg Bool.false_ne_true]
  rcases copyMm_spec env (s.linkChild current tsk) hg with
    ⟨hf, -⟩ | ⟨-, ⟨v, hv, hr⟩, -⟩ | ⟨-, -, heap, c, mm, he, -⟩
  · exact absurd hf hno
  · exact absurd (hread v hv) hr
  · rw [he]
    exact ⟨_, _, rfl⟩

/-- The frames that a loop of `MapUserRange4K` maps are those it is given. -/
theorem mapRangeLoop_frames {outcome : Nat → PageOutcome} {P : Nat → Prop}
    (hout : ∀ v f, outcome v = .ready f → P f) : ∀ (n v : Nat) (pages : Pages),
    (∀ i f, pages i = some f → P f) →
    ∀ i f, (mapRangeLoop outcome n v pages).1 i = some f → P f := by
  intro n
  induction n with
  | zero => exact fun v pages h => h
  | succ n ih =>
      intro v pages h
      have hstop : mapUserPage pages v (outcome v) = (pages, -(ENOMEM : Int)) →
          ∀ i f, (mapRangeLoop outcome (n + 1) v pages).1 i = some f → P f := by
        intro he
        rw [mapRangeLoop_stop he]
        exact h
      cases ho : outcome v with
      | noPage => exact hstop (by rw [ho]; rfl)
      | noTable page => exact hstop (by rw [ho]; rfl)
      | ready page =>
          cases hp : pages (pageNo v) with
          | some f => exact hstop (by rw [ho, mapUserPage, hp]; rfl)
          | none =>
              rw [mapRangeLoop_go ho hp]
              apply ih
              intro i f hi
              by_cases hiv : i = pageNo v
              · rw [hiv, Function.update_self] at hi
                exact hout v f (ho.trans (congrArg _ (Option.some.inj hi)))
              · rw [Function.update_of_ne hiv] at hi
                exact h i f hi

/-- A process that starts, in frames below `0x100000`. -/
theorem exampleProcess : ∃ s : UserSpace,
    execveSpace ⟨64, 0x1000, 0, false, []⟩ none (fun v => .ready (v / 4096 % 0x100000)) = some s ∧
    s.mm = lmmInit ⟨64, 0x1000, 0, false, []⟩ ∧ s.brk.startBrk = s.brk.endBrk ∧
    (∀ i, (s.brk.pages i).isSome = true ↔ 2048 ≤ i ∧ i < 2560) ∧
    ∀ i f, s.brk.pages i = some f → f < 0x1000000 := by
  have hfree : WindowFree (fun _ => none) := fun _ _ _ => rfl
  obtain ⟨pages, he, hmap⟩ := mapWindow_ok hfree
    (show AllReady (fun v => .ready (v / 4096 % 0x100000)) 2048 2560 from fun _ _ _ => ⟨_, rfl⟩)
  have hbrk : execveBrk none (fun v => .ready (v / 4096 % 0x100000))
      = some ⟨BRK_START_ADDR, BRK_START_ADDR, pages⟩ := by
    unfold execveBrk
    rw [mapUserPages_none, he]
    rfl
  refine ⟨⟨lmmInit _, ⟨BRK_START_ADDR, BRK_START_ADDR, pages⟩⟩,
    Option.map_eq_some_iff.mpr ⟨_, hbrk, rfl⟩, rfl, rfl, fun i => ?_, ?_⟩
  · show (pages i).isSome = true ↔ _
    have hi := hmap i
    split at hi
    · rename_i hw
      exact iff_of_true hi hw
    · rename_i hw
      rw [hi]
      exact iff_of_false Bool.false_ne_true hw
  · rw [mapWindow_eq, mapUserRange4K_loop window_upper] at he
    have hframes := @mapRangeLoop_frames (fun v => .ready (v / 4096 % 0x100000))
      (fun f => f < 0x1000000) (fun v f hf => by obtain rfl := PageOutcome.ready.inj hf; omega)
      512 (2048 * PAGE_4K_SIZE) (fun _ => none) (fun i f hi => nomatch hi)
    rcases hr : mapRangeLoop (fun v => .ready (v / 4096 % 0x100000)) 512 (2048 * PAGE_4K_SIZE)
      (fun _ => none) with ⟨pages', _ | vaddr⟩
    · rw [hr] at he hframes
      obtain ⟨rfl, -⟩ := Prod.mk.inj he
      exact hframes
    · rw [hr] at he
      exact nomatch (Prod.mk.inj he).2

theorem exampleFork_fresh (p : Process) : exampleFork.Fresh (exampleParent p) where
  free := by
    intro v page h hmem
    have hlt := Finset.mem_range.mp hmem
    obtain rfl := PageOutcome.ready.inj h
    omega
  distinct := by
    intro v w page hv hw
    obtain rfl := PageOutcome.ready.inj hv
    exact Nat.add_left_cancel (PageOutcome.ready.inj hw).symm

section

variable {p : Process}

/-- The pages that are copied of a process without a heap. -/
theorem copyAddrs_window (hbrk : p.space.brk.startBrk = p.space.brk.endBrk) :
    (copyAddrs p).map pageNo = List.range' 2048 512 := by
  unfold copyAddrs
  rw [if_neg (by omega), List.append_nil]
  exact rangeAddrs_pages (k := 2048) (l := 2560) (by decide) (by decide)

/-- A process without a heap, with its window and at most one area, makes a child. -/
theorem exampleFork_forked (hself : p.space.mm.self = 64) (hready : p.space.mm.listReady = true)
    (hvmas : p.space.mm.vmaList.length ≤ 1) (hbrk : p.space.brk.startBrk = p.space.brk.endBrk)
    (hwindow : ∀ i, 2048 ≤ i → i < 2560 → (p.pages i).isSome = true) :
    ∃ s' child, doFork 0x100 false true exampleFork (exampleParent p) = some (.forked s' child) := by
  apply doFork_forked rfl rfl
  · rintro (h | ⟨b, hb, h | h | ⟨k, hk, hn⟩⟩ | h | h)
    · exact nomatch h
    · obtain rfl := Option.some.inj hb
      exact absurd (hself.symm.trans h) (by decide)
    · exact nomatch hready.symm.trans h
    · have hk : k < p.space.mm.vmaList.length := hk
      obtain rfl : k = 0 := by omega
      exact nomatch hn
    · exact nomatch h
    · refine not_copyFails (fun v _ => ⟨_, rfl⟩) ?_ h
      show ((copyAddrs p).map pageNo).Nodup
      rw [copyAddrs_window hbrk]
      exact List.nodup_range'
  · intro v hv
    have hmem : pageNo v ∈ (copyAddrs p).map pageNo := List.mem_map_of_mem hv
    rw [copyAddrs_window hbrk, List.mem_range'_1] at hmem
    exact .inl (hwindow _ hmem.1 hmem.2)

end

/-- A process that has just started makes a child with the same memory. -/
theorem fork_preserves_memory_example : ∃ p s' child, ProcReachable p ∧
    doFork 0x100 false true exampleFork (exampleParent p) = some (.forked s' child) ∧
    ∃ mm, child.mm = some mm ∧ (exampleParent p).Preserved s' mm := by
  obtain ⟨s, hs, hmm, hbrk, hpages, hframes⟩ := exampleProcess
  obtain ⟨s', child, h⟩ := @exampleFork_forked ⟨s, fun _ => true⟩ (by rw [hmm]; rfl)
    (by rw [hmm]; rfl) (by rw [hmm]; decide) hbrk (fun i h1 h2 => (hpages i).mpr ⟨h1, h2⟩)
  have hmapped : ∀ i f, (exampleParent ⟨s, fun _ => true⟩).parent.pages i = some f →
      f ∈ Finset.range 0x1000000 := fun i f hi => Finset.mem_range.mpr (hframes i f hi)
  refine ⟨_, s', child, .exec hs, h, (fork_preserves_memory rfl (exampleFork_fresh _) hmapped h).mpr
    fun i => ⟨?_, fun _ => rfl⟩⟩
  show _ ↔ i ∈ (copyAddrs ⟨s, fun _ => true⟩).map pageNo
  rw [copyAddrs_window hbrk, List.mem_range'_1]
  exact hpages i

/-- A process that has mapped one page, and written to it. -/
theorem exampleMapped : ∃ p, ProcReachable p ∧ p.space.mm.self = 64 ∧
    p.space.mm.listReady = true ∧ p.space.mm.vmaList.length ≤ 1 ∧
    p.space.brk.startBrk = p.space.brk.endBrk ∧ p.pages 0x40200 = some 0x200000 ∧
    ∀ i, 2048 ≤ i → i < 2560 → (p.pages i).isSome = true := by
  obtain ⟨s, hs, hmm, hbrk, hpages, -⟩ := exampleProcess
  have hready : s.mm.listReady = true := by rw [hmm]; rfl
  have hmmap := @doMmap_example _ pagesEnv s.mm hready (by rw [hmm]; rfl)
    (s.brk.pages, [some 0x7000]) _ 0x7000 rfl
  obtain ⟨vma, hcheck⟩ := @pageFaultCheck_example s.mm 0x7000 hready (by rw [hmm]; decide)
  have hcall : s.call (.mmap exampleArgs [some 0x7000])
      = ⟨{ s.mm with vmaList := [mmapArea s.mm exampleArgs 0x7000 0x40200000 0x1000] }, s.brk⟩ := by
    unfold UserSpace.call
    dsimp only
    rw [hmmap]
  have hnone : s.brk.pages 0x40200 = none := by
    rw [← Option.not_isSome_iff_eq_none, hpages]
    decide
  have hmapped : ProcReachable ⟨_, fun i => (s.brk.pages i).isNone || true⟩ :=
    .step (.call (.mmap exampleArgs [some 0x7000])) (.exec hs)
  rw [hcall] at hmapped
  have hfault := @handlePageFault_ok ⟨⟨{ s.mm with
    vmaList := [mmapArea s.mm exampleArgs 0x7000 0x40200000 0x1000] }, s.brk⟩,
    fun i => (s.brk.pages i).isNone || true⟩ 0x40200000 6 0x200000 vma hcheck hnone
  have hreach := ProcReachable.step (.fault 0x40200000 6 (.ready 0x200000)) hmapped
  rw [Process.step, hfault] at hreach
  refine ⟨_, hreach, ?_, hready, le_rfl, hbrk, ?_, fun i h1 h2 => ?_⟩
  · show s.mm.self = 64
    rw [hmm]
    rfl
  · show Function.update s.brk.pages 0x40200 (some 0x200000) 0x40200 = some 0x200000
    rw [Function.update_self]
  · show (Function.update s.brk.pages 0x40200 _ i).isSome = true
    rw [Function.update_of_ne (by omega)]
    exact (hpages i).mpr ⟨h1, h2⟩

/-- The page is missing in its child. -/
theorem fork_loses_page : ∃ p s' child, ProcReachable p ∧ exampleFork.Fresh (exampleParent p) ∧
    doFork 0x100 false true exampleFork (exampleParent p) = some (.forked s' child) ∧
    ¬ ∃ mm, child.mm = some mm ∧ (exampleParent p).Preserved s' mm := by
  obtain ⟨p, hreach, hself, hready, hvmas, hbrk, hpage, hwindow⟩ := exampleMapped
  obtain ⟨s', child, h⟩ := exampleFork_forked hself hready hvmas hbrk hwindow
  refine ⟨p, s', child, hreach, exampleFork_fresh p, h, ?_⟩
  rintro ⟨mm, hmm, hpres⟩
  obtain ⟨tsk, heap, c, mm', heap', hcopied, hmm', -⟩ := forked_copied rfl h
  obtain rfl := Option.some.inj (hmm'.symm.trans hmm)
  have honly := (hcopied.onlyCopied (hpres.congr rfl rfl) 0x40200).1.mp
    (show (p.pages 0x40200).isSome = true by rw [hpage]; rfl)
  have hmem : 0x40200 ∈ (copyAddrs p).map pageNo := honly
  rw [copyAddrs_window hbrk, List.mem_range'_1] at hmem
  omega

end Talios
