import Talios.Lib.Split
import Talios.Mm.Partition
import Talios.Mm.AddressSpace
import Talios.Task.Execve

set_option autoImplicit false

/-! # Making a child

`do_fork` with `copy_mm`, `copy_files` and the labels after a failure, `task.c`. The parent has an
address space as `do_execve`, the calls on memory and page faults leave it (`ProcReachable`); every
`kmalloc` and every page may be refused.

The page tables are what they mean, as in `Talios.Mm.Brk`, while the class of pages of `kmalloc` has not
grown (`ForkEnv.grown`); `Talios.Task.ForkTables` has the copying on the tables themselves.

`copy_mm` takes back what it has allocated, but `do_fork` links the child into the ring of tasks before
that, and no label unlinks it: `fork_all_or_nothing` says which calls are right.
-/

namespace Talios

open Bytes Word

/-! ## Address spaces -/

def EAGAIN : Nat := 11

/-- The contents of the frames. -/
abbrev Frames := Nat → Buffer

/-- An address space, and for each page that is mapped whether it may be written. -/
structure Process where
  space : UserSpace
  writable : Nat → Bool

def Process.pages (p : Process) : Pages := p.space.brk.pages

/-- `handle_page_fault`, of the pages: what happens when the page is to be mapped is an input; the
value says that the function returns 0. -/
def Process.handlePageFault (p : Process) (address errorCode : Nat) (outcome : PageOutcome) :
    Process × Bool :=
  match pageFaultCheck p.space.mm address errorCode with
  | .error _ => (p, false)
  | .ok vma =>
      let pageAddress := alignDown PAGE_4K_SIZE address
      match mapUserPage p.pages pageAddress outcome with
      | (pages, 0) =>
          (⟨{ p.space with brk := { p.space.brk with pages := pages } },
            Function.update p.writable (pageNo pageAddress) (hasFlag vma.prot PROT_WRITE)⟩, true)
      | (_, _) => (p, false)

/-- What happens to an address space: a call on memory, or a page fault. -/
inductive ProcEvent
  | call (c : SpaceCall)
  | fault (address errorCode : Nat) (outcome : PageOutcome)

/-- The pages that a call maps may be written. -/
def Process.step (p : Process) : ProcEvent → Process
  | .call c => ⟨p.space.call c, fun i => (p.pages i).isNone || p.writable i⟩
  | .fault address errorCode outcome => (p.handlePageFault address errorCode outcome).1

/-- The address spaces reached after `do_execve`, with page faults for which the class of pages does not
grow. -/
inductive ProcReachable : Process → Prop
  | exec {mm : Lmm} {grown : GrownRange} {outcome : Nat → PageOutcome} {s : UserSpace}
      (h : execveSpace mm grown outcome = some s) : ProcReachable ⟨s, fun _ => true⟩
  | step {p : Process} (e : ProcEvent) (h : ProcReachable p) : ProcReachable (p.step e)

/-! ## `copy_mm` -/

/-- What `do_fork` works on: the ring of tasks, the parent with its files, the blocks of `kmalloc`
that are live, and the frames that are not free. -/
structure ForkSys where
  next : Nat → Nat
  globalPid : Nat
  parent : Process
  files : TaskFiles
  heap : FileHeap
  frames : Finset Nat
  phys : Frames

/-- The page table of the child: the pages with their frames, and the tables that were made. -/
structure Copying where
  sys : ForkSys
  entries : List (Nat × Nat)
  tables : List Nat

/-- How a part of the call ends: it uses a null pointer, the kernel stops in a page fault, the part
fails, or it is done. -/
inductive ForkStage (α β : Type)
  | null
  | halted
  | failed (s : α)
  | done (s : β)

/-- What copying the pages leaves where the tables are no map: the pages of the child and its tables, the
pages of the parent, and memory. -/
structure GrownCopy where
  entries : List (Nat × Nat)
  tables : List Nat
  parent : Pages
  heap : FileHeap
  frames : Finset Nat
  phys : Frames

/-- What the allocations of the call return. For a page of the child, and for one of the parent that
is missing when it is read, this is what happens to it, and the tables that `walk_pte` makes. `grown` is
for a call in which the class of pages grows for the page directory or a table, or has grown before. -/
structure ForkEnv where
  taskBlock : Option Nat
  lmmBlock : Option Nat
  vmaBlocks : List (Option Nat)
  pgdBlock : Option Nat
  outcome : Nat → PageOutcome
  tables : Nat → List Nat
  faultOutcome : Nat → PageOutcome
  faultTables : Nat → List Nat
  fileBlocks : List (Option Nat)
  grown : Option (ForkStage GrownCopy GrownCopy)

/-- `kmalloc` with the result `q`. -/
def FileHeap.take (h : FileHeap) (q : Nat) : FileHeap := { h with alive := insert q h.alive }

/-- The tables that are made for an address. -/
def Copying.link (c : Copying) (tables : List Nat) : Copying :=
  { c with
    sys := { c.sys with heap := tables.foldl FileHeap.take c.sys.heap }
    tables := c.tables ++ tables }

/-- `memcopy` of a page of the parent to the frame `page`. A page that is missing is a page fault
inside the kernel. -/
def copyFromParent (env : ForkEnv) (s : ForkSys) (v page : Nat) : Option ForkSys :=
  match s.parent.pages (pageNo v) with
  | some f => some { s with phys := Function.update s.phys page (s.phys f) }
  | none =>
      match s.parent.handlePageFault v 0 (env.faultOutcome v), env.faultOutcome v with
      | (parent, true), .ready f =>
          some { s with
            parent := parent
            heap := (env.faultTables v).foldl FileHeap.take s.heap
            frames := insert f s.frames
            phys := Function.update (Function.update s.phys f (fun _ => 0)) page (fun _ => 0) }
      | _, _ => none

/-- The body of the loop of `copy_user_range`. -/
def copyUserPage (env : ForkEnv) (c : Copying) (v : Nat) : ForkStage Copying Copying :=
  match env.outcome v with
  | .noPage => .failed c
  | .noTable _ => .failed (c.link (env.tables v))
  | .ready page =>
      if (c.entries.lookup (pageNo v)).isSome then .failed c
      else
        let c := c.link (env.tables v)
        match copyFromParent env { c.sys with frames := insert page c.sys.frames } v page with
        | none => .halted
        | some s => .done { c with sys := s, entries := (pageNo v, page) :: c.entries }

/-- The addresses `copy_user_range` goes through. -/
def rangeAddrs (start stop : Nat) : List Nat :=
  let first := alignDown PAGE_4K_SIZE start
  (List.range ((alignUp64 PAGE_4K_SIZE stop - first) / PAGE_4K_SIZE)).map
    (fun i => first + i * PAGE_4K_SIZE)

/-- The loop of `copy_user_range`. -/
def copyUserLoop (env : ForkEnv) : List Nat → Copying → ForkStage Copying Copying
  | [], c => .done c
  | v :: l, c =>
      match copyUserPage env c v with
      | .done c' => copyUserLoop env l c'
      | r => r

/-- `copy_user_range`. -/
def copyUserRange (env : ForkEnv) (c : Copying) (start stop : Nat) : ForkStage Copying Copying :=
  copyUserLoop env (rangeAddrs start stop) c

/-- The blocks of `kmalloc` as `vma_clone_all` uses them, with its results. -/
def blocksEnv : VmaEnv (FileHeap × List (Option Nat)) where
  kmalloc s :=
    match s.2.headD none with
    | none => ((s.1, s.2.tail), none)
    | some q => ((s.1.take q, s.2.tail), some q)
  kfree s q := (s.1.kfree q, s.2)
  unmapAnonymousPages s _ _ _ := s

/-- `FreeUserPageTables`: all frames and all tables of the child. -/
def Copying.freeUserPageTables (c : Copying) : ForkSys :=
  { c.sys with
    frames := c.entries.foldl (fun frames e => frames.erase e.2) c.sys.frames
    heap := c.tables.foldl FileHeap.kfree c.sys.heap }

/-- What follows the label `fail` of `copy_mm`. -/
def copyMmFail (c : Copying) (mm : Lmm) : ForkSys :=
  let s := c.freeUserPageTables
  let heap := (vmaDestroyAll blocksEnv mm (s.heap, [])).2.1
  { s with heap := (heap.kfree mm.pgd).kfree mm.self }

/-- Window and heap are copied. -/
def copyRanges (env : ForkEnv) (c : Copying) : ForkStage Copying Copying :=
  let brk := c.sys.parent.space.brk
  match copyUserRange env c CODE_START_ADDR STACK_START_ADDR with
  | .done c =>
      if brk.startBrk < brk.endBrk then copyUserRange env c brk.startBrk brk.endBrk else .done c
  | r => r

/-- The pages and memory are those of `g`. -/
def Copying.grown (c : Copying) (g : GrownCopy) : Copying where
  sys := { c.sys with
    parent := { c.sys.parent with
      space := ⟨c.sys.parent.space.mm, { c.sys.parent.space.brk with pages := g.parent }⟩ }
    heap := g.heap
    frames := g.frames
    phys := g.phys }
  entries := g.entries
  tables := g.tables

/-- The part of `copy_mm` behind the page directory. -/
def copyPages (env : ForkEnv) (c : Copying) : ForkStage Copying Copying :=
  match env.grown with
  | none => copyRanges env c
  | some .null => .null
  | some .halted => .halted
  | some (.failed g) => .failed (c.grown g)
  | some (.done g) => .done (c.grown g)

/-- The address space of the child. -/
def Copying.child (c : Copying) (mm : Lmm) : Process where
  space := ⟨mm, { c.sys.parent.space.brk with pages := fun i => c.entries.lookup i }⟩
  writable := fun _ => true

/-- `copy_mm` without `CLONE_VM`. The null that `kmalloc` returns for the page directory is not seen
behind `VIRT_TO_PHY`, and the copy into it uses it. -/
def copyMm (env : ForkEnv) (s : ForkSys) : ForkStage ForkSys (ForkSys × Process) :=
  match env.lmmBlock with
  | none => .failed s
  | some b =>
      let src := s.parent.space.mm
      match vmaCloneAll blocksEnv src (lmmInit { src with self := b }) (s.heap.take b, env.vmaBlocks)
        with
      | (mm, (heap, _), r) =>
          if r ≠ 0 then .failed { s with heap := heap.kfree b }
          else
            match env.pgdBlock with
            | none => .null
            | some g =>
                let mm := { mm with pgd := g }
                match copyPages env ⟨{ s with heap := heap.take g }, [], []⟩ with
                | .null => .null
                | .halted => .halted
                | .failed c => .failed (copyMmFail c mm)
                | .done c => .done (c.sys, c.child mm)

/-! ## `do_fork` -/

/-- The child: its task, and its own address space if it has one. -/
structure ForkChild where
  task : Nat
  pid : Nat
  files : TaskFiles
  mm : Option Process

/-- What `do_fork` comes to. -/
inductive ForkResult
  | null
  | halted
  | failed (s : ForkSys) (err : Nat)
  | forked (s : ForkSys) (child : ForkChild)

/-- The labels `copy_files_fail` and below, for a child with the given handles; behind a `copy_mm`
that fails `exit_mm` finds no manager. -/
def forkFail (s : ForkSys) (tsk : Nat) (files : TaskFiles) : ForkResult :=
  .failed { s with heap := (exitFiles files s.heap).2.kfree tsk } ENOMEM

/-- `copy_files`, and the rest of `do_fork`. -/
def forkFiles (env : ForkEnv) (cloneFs : Bool) (s : ForkSys) (child : ForkChild) :
    Option ForkResult :=
  if cloneFs then some (.forked s child)
  else
    match copyFiles s.files.handles env.fileBlocks s.heap with
    | none => none
    | some (handles, heap, true) =>
        some (forkFail { s with heap := heap } child.task { child.files with handles := handles })
    | some (handles, heap, false) =>
        some (.forked { s with heap := heap }
          { child with files := { child.files with handles := handles } })

/-- The child is a copy of the parent, linked behind it. -/
def ForkSys.linkChild (s : ForkSys) (current tsk : Nat) : ForkSys :=
  { s with
    next := Function.update (Function.update s.next tsk (s.next current)) current tsk
    globalPid := s.globalPid + 1
    heap := s.heap.take tsk }

/-- `do_fork` by the task `current`; `none` where `fileBlocks` are no results of `kmalloc`. -/
def doFork (current : Nat) (cloneVm cloneFs : Bool) (env : ForkEnv) (s : ForkSys) :
    Option ForkResult :=
  match env.taskBlock with
  | none => some (.failed s EAGAIN)
  | some tsk =>
      let files : TaskFiles := { s.files with vfork := s.files.vfork || cloneVm }
      let linked := s.linkChild current tsk
      if cloneVm then forkFiles env cloneFs linked ⟨tsk, s.globalPid, files, none⟩
      else
        match copyMm env linked with
        | .null => some .null
        | .halted => some .halted
        | .failed s => some (forkFail s tsk files)
        | .done (s', mm) => forkFiles env cloneFs s' ⟨tsk, s.globalPid, files, some mm⟩

/-! ## What can be copied -/

/-- The pages `copy_mm` copies, in its order. -/
def copyAddrs (p : Process) : List Nat :=
  rangeAddrs CODE_START_ADDR STACK_START_ADDR ++
    if p.space.brk.startBrk < p.space.brk.endBrk then
      rangeAddrs p.space.brk.startBrk p.space.brk.endBrk
    else []

/-- The page of the parent is there, or a page fault puts it there. -/
def ForkEnv.Readable (env : ForkEnv) (p : Process) (v : Nat) : Prop :=
  (p.pages (pageNo v)).isSome = true ∨
    (∃ vma, pageFaultCheck p.space.mm v 0 = .ok vma) ∧ ∃ f, env.faultOutcome v = .ready f

/-- The page of the child is not mapped: there is no page or no table for it, or it is one of those in
front of it. -/
def ForkEnv.Refused (env : ForkEnv) (before : List Nat) (v : Nat) : Prop :=
  (∀ page, env.outcome v ≠ .ready page) ∨ pageNo v ∈ before.map pageNo

/-- A page is refused, and those in front of it can be read. -/
def ForkEnv.CopyFails (env : ForkEnv) (p : Process) (before l : List Nat) : Prop :=
  ∃ pre v post, l = pre ++ v :: post ∧ (∀ w ∈ pre, env.Readable p w) ∧ env.Refused (before ++ pre) v

/-- The state of the loops of `copy_mm` that have copied the pages `before`, for a call from `s`. -/
structure Copied (s : ForkSys) (before : List Nat) (c : Copying) : Prop where
  keys : ∀ i, (c.entries.lookup i).isSome = true ↔ i ∈ before.map pageNo
  next : c.sys.next = s.next
  files : c.sys.files = s.files
  mm : c.sys.parent.space.mm = s.parent.space.mm
  startBrk : c.sys.parent.space.brk.startBrk = s.parent.space.brk.startBrk
  endBrk : c.sys.parent.space.brk.endBrk = s.parent.space.brk.endBrk
  pages : ∀ i, i ∉ before.map pageNo → c.sys.parent.pages i = s.parent.pages i

section

variable {env : ForkEnv} {s : ForkSys} {before : List Nat} {c : Copying} {v : Nat}

theorem pageNo_alignDown (v : Nat) : pageNo (alignDown PAGE_4K_SIZE v) = pageNo v := by
  unfold pageNo alignDown
  rw [Nat.mul_div_cancel _ (by decide)]

/-- A page fault in an area maps the page. -/
theorem handlePageFault_ok {p : Process} {address errorCode f : Nat} {vma : VmArea}
    (hcheck : pageFaultCheck p.space.mm address errorCode = .ok vma)
    (hnone : p.pages (pageNo address) = none) :
    p.handlePageFault address errorCode (.ready f)
      = (⟨⟨p.space.mm, { p.space.brk with
          pages := Function.update p.pages (pageNo address) (some f) }⟩,
        Function.update p.writable (pageNo address) (hasFlag vma.prot PROT_WRITE)⟩, true) := by
  unfold Process.handlePageFault
  rw [hcheck]
  dsimp only
  rw [mapUserPage_ready (by rw [pageNo_alignDown, hnone]), pageNo_alignDown]
  rfl

/-- A page fault maps the page it is for, or nothing. -/
theorem handlePageFault_cases (p : Process) (v : Nat) (outcome : PageOutcome)
    (hnone : p.pages (pageNo v) = none) :
    ((∃ vma, pageFaultCheck p.space.mm v 0 = .ok vma) ∧ ∃ f, outcome = .ready f ∧
      ∃ p', p.handlePageFault v 0 outcome = (p', true) ∧ p'.space.mm = p.space.mm ∧
        p'.space.brk.startBrk = p.space.brk.startBrk ∧ p'.space.brk.endBrk = p.space.brk.endBrk ∧
        p'.pages = Function.update p.pages (pageNo v) (some f)) ∨
    (¬ ((∃ vma, pageFaultCheck p.space.mm v 0 = .ok vma) ∧ ∃ f, outcome = .ready f) ∧
      (p.handlePageFault v 0 outcome).2 = false) := by
  cases hcheck : pageFaultCheck p.space.mm v 0 with
  | error e =>
      refine .inr ⟨(fun h => nomatch h.1.choose_spec), ?_⟩
      rw [Process.handlePageFault, hcheck]
  | ok vma =>
      cases outcome with
      | noPage =>
          refine .inr ⟨(fun h => nomatch h.2.choose_spec), ?_⟩
          rw [Process.handlePageFault, hcheck]
          rfl
      | noTable page =>
          refine .inr ⟨(fun h => nomatch h.2.choose_spec), ?_⟩
          rw [Process.handlePageFault, hcheck]
          rfl
      | ready f =>
          exact .inl ⟨⟨vma, rfl⟩, f, rfl, _, handlePageFault_ok hcheck hnone, rfl, rfl, rfl, rfl⟩

/-- Reading a page of the parent: what it changes. -/
theorem copyFromParent_cases (h : Copied s before c) (hnew : pageNo v ∉ before.map pageNo)
    (page : Nat) (s₁ : ForkSys) (h₁ : s₁.parent = c.sys.parent) :
    (env.Readable s.parent v ∧ ∃ s', copyFromParent env s₁ v page = some s' ∧ s'.next = s₁.next ∧
      s'.files = s₁.files ∧ s'.parent.space.mm = s₁.parent.space.mm ∧
      s'.parent.space.brk.startBrk = s₁.parent.space.brk.startBrk ∧
      s'.parent.space.brk.endBrk = s₁.parent.space.brk.endBrk ∧
      ∀ i, i ≠ pageNo v → s'.parent.pages i = s₁.parent.pages i) ∨
    (¬ env.Readable s.parent v ∧ copyFromParent env s₁ v page = none) := by
  have hpage : s₁.parent.pages (pageNo v) = s.parent.pages (pageNo v) := by
    rw [h₁]
    exact h.pages _ hnew
  have hmm : s₁.parent.space.mm = s.parent.space.mm := by rw [h₁, h.mm]
  unfold copyFromParent
  cases hp : s.parent.pages (pageNo v) with
  | some f =>
      rw [hpage, hp]
      refine .inl ⟨.inl (by rw [hp]; rfl), _, rfl, rfl, rfl, rfl, rfl, rfl, fun _ _ => rfl⟩
  | none =>
      rw [hp] at hpage
      rw [hpage]
      dsimp only
      rcases handlePageFault_cases s₁.parent v (env.faultOutcome v) hpage with
        ⟨⟨vma, hvma⟩, f, hf, p', hfault, h1, h2, h3, h4⟩ | ⟨hno, hfault⟩
      · rw [hmm] at hvma
        refine .inl ⟨.inr ⟨⟨vma, hvma⟩, f, hf⟩, ?_⟩
        rw [hfault, hf]
        refine ⟨_, rfl, rfl, rfl, h1, h2, h3, fun i hi => ?_⟩
        show p'.pages i = s₁.parent.pages i
        rw [h4, Function.update_of_ne hi]
      · rw [hmm] at hno
        refine .inr ⟨?_, ?_⟩
        · rintro (hsome | hok)
          · rw [hp] at hsome
            exact nomatch hsome
          · exact hno hok
        · rcases hr : s₁.parent.handlePageFault v 0 (env.faultOutcome v) with ⟨p', b⟩
          rw [hr] at hfault
          obtain rfl : b = false := hfault
          rfl

/-- **One page**: it is refused, or cannot be read, or is copied. -/
theorem copyUserPage_spec (h : Copied s before c) (v : Nat) :
    (env.Refused before v ∧ ∃ c', copyUserPage env c v = .failed c' ∧ c'.sys.next = s.next) ∨
    (¬ env.Refused before v ∧ ¬ env.Readable s.parent v ∧ copyUserPage env c v = .halted) ∨
    (¬ env.Refused before v ∧ env.Readable s.parent v ∧
      ∃ c', copyUserPage env c v = .done c' ∧ Copied s (before ++ [v]) c') := by
  unfold copyUserPage ForkEnv.Refused
  cases hout : env.outcome v with
  | noPage => exact .inl ⟨.inl (fun _ h => nomatch h), _, rfl, h.next⟩
  | noTable page => exact .inl ⟨.inl (fun _ h => nomatch h), _, rfl, h.next⟩
  | ready page =>
      dsimp only
      by_cases hold : pageNo v ∈ before.map pageNo
      · rw [if_pos ((h.keys _).mpr hold)]
        exact .inl ⟨.inr hold, _, rfl, h.next⟩
      · have hgo : ¬ ((∀ q, PageOutcome.ready page ≠ .ready q) ∨ pageNo v ∈ before.map pageNo) := by
          rintro (h1 | h1)
          · exact h1 page rfl
          · exact hold h1
        rw [if_neg (mt (h.keys _).mp hold)]
        rcases copyFromParent_cases h hold page
            { (c.link (env.tables v)).sys with
              frames := insert page (c.link (env.tables v)).sys.frames } rfl with
          ⟨hread, s', hs', h1, h2, h3, h4, h5, h6⟩ | ⟨hread, hs'⟩
        · rw [hs']
          refine .inr (.inr ⟨hgo, hread, _, rfl, ?_⟩)
          refine ⟨fun i => ?_, h1.trans h.next, h2.trans h.files, h3.trans h.mm,
            h4.trans h.startBrk, h5.trans h.endBrk, fun i hi => ?_⟩
          · show (List.lookup i ((pageNo v, page) :: c.entries)).isSome = true ↔ _
            rw [List.map_append, List.mem_append, ← h.keys i, List.lookup_cons]
            by_cases hi : i = pageNo v
            · simp [hi]
            · rw [beq_eq_false_iff_ne.mpr hi]
              simp [hi]
          · rw [List.map_append, List.mem_append, not_or] at hi
            rw [h6 i (fun hc => hi.2 (by simp [hc]))]
            exact h.pages i hi.1
        · rw [hs']
          exact .inr (.inl ⟨hgo, hread, rfl⟩)

theorem copyFails_cons {p : Process} {l : List Nat} :
    env.CopyFails p before (v :: l) ↔
      env.Refused before v ∨ (env.Readable p v ∧ env.CopyFails p (before ++ [v]) l) := by
  unfold ForkEnv.CopyFails
  rw [Split.exists_cons (P := fun pre w => (∀ x ∈ pre, env.Readable p x) ∧
    env.Refused (before ++ pre) w)]
  refine or_congr ?_ ?_
  · rw [List.append_nil]
    exact and_iff_right (fun _ hx => nomatch hx)
  · -- the pages in front of the one that is refused begin with `v`
    constructor
    · rintro ⟨pre, w, post, heq, hpre, hw⟩
      rw [List.forall_mem_cons] at hpre
      refine ⟨hpre.1, pre, w, post, heq, hpre.2, ?_⟩
      rw [List.append_assoc]
      exact hw
    · rintro ⟨hv, pre, w, post, heq, hpre, hw⟩
      rw [List.append_assoc] at hw
      exact ⟨pre, w, post, heq, List.forall_mem_cons.mpr ⟨hv, hpre⟩, hw⟩

/-- **The pages of a range**: one is refused, or cannot be read, or all are copied. -/
theorem copyUserLoop_spec : ∀ (l before : List Nat) (c : Copying), Copied s before c →
    (env.CopyFails s.parent before l ∧
      ∃ c', copyUserLoop env l c = .failed c' ∧ c'.sys.next = s.next) ∨
    (¬ env.CopyFails s.parent before l ∧ (∃ v ∈ l, ¬ env.Readable s.parent v) ∧
      copyUserLoop env l c = .halted) ∨
    (¬ env.CopyFails s.parent before l ∧ (∀ v ∈ l, env.Readable s.parent v) ∧
      ∃ c', copyUserLoop env l c = .done c' ∧ Copied s (before ++ l) c') := by
  intro l
  induction l with
  | nil =>
      intro before c h
      have hno : ¬ env.CopyFails s.parent before [] := by
        rintro ⟨pre, v, post, heq, -⟩
        exact absurd heq (by simp)
      refine .inr (.inr ⟨hno, (fun _ hv => nomatch hv), c, rfl, ?_⟩)
      rw [List.append_nil]
      exact h
  | cons v l ih =>
      intro before c h
      rw [copyFails_cons, copyUserLoop]
      rcases copyUserPage_spec h v with ⟨href, c', he, hn⟩ | ⟨href, hread, he⟩ |
        ⟨href, hread, c', he, h'⟩
      · rw [he]
        exact .inl ⟨.inl href, c', rfl, hn⟩
      · rw [he]
        refine .inr (.inl ⟨?_, ⟨v, List.mem_cons_self, hread⟩, rfl⟩)
        rintro (h1 | h1)
        · exact href h1
        · exact hread h1.1
      · rw [he]
        dsimp only
        rcases ih _ c' h' with ⟨hf, hrest⟩ | ⟨hf, ⟨w, hw, hwr⟩, hrest⟩ | ⟨hf, hall, c'', hrest, h''⟩
        · exact .inl ⟨.inr ⟨hread, hf⟩, hrest⟩
        · refine .inr (.inl ⟨?_, ⟨w, List.mem_cons_of_mem _ hw, hwr⟩, hrest⟩)
          rintro (h1 | h1)
          · exact href h1
          · exact hf h1.2
        · refine .inr (.inr ⟨?_, List.forall_mem_cons.mpr ⟨hread, hall⟩, c'', hrest, ?_⟩)
          · rintro (h1 | h1)
            · exact href h1
            · exact hf h1.2
          · rw [List.append_assoc] at h''
            exact h''

theorem copyUserLoop_append (l l' : List Nat) (c : Copying) :
    copyUserLoop env (l ++ l') c
      = match copyUserLoop env l c with
        | .done c' => copyUserLoop env l' c'
        | r => r := by
  induction l generalizing c with
  | nil => rfl
  | cons v l ih =>
      rw [List.cons_append, copyUserLoop, copyUserLoop]
      cases copyUserPage env c v with
      | done c' => exact ih c'
      | _ => rfl

/-- Both ranges are one list of pages. -/
theorem copyPages_eq (hg : env.grown = none) (c : Copying) :
    copyPages env c = copyUserLoop env (copyAddrs c.sys.parent) c := by
  unfold copyPages
  rw [hg]
  unfold copyRanges copyAddrs copyUserRange
  rw [copyUserLoop_append]
  dsimp only
  cases copyUserLoop env (rangeAddrs CODE_START_ADDR STACK_START_ADDR) c with
  | done c' =>
      dsimp only
      split <;> rfl
  | _ => rfl

end

/-! ## `copy_mm` as a whole -/

/-- The areas cannot be cloned into the manager at `b`. -/
def ForkEnv.CloneFails (env : ForkEnv) (mm : Lmm) (b : Nat) : Prop :=
  mm.self = b ∨ mm.listReady = false ∨ ∃ k < mm.vmaList.length, env.vmaBlocks.getD k none = none

/-- An allocation of `copy_mm` fails: of the manager, an area, the page directory or a page. -/
def ForkEnv.MmFails (env : ForkEnv) (p : Process) : Prop :=
  env.lmmBlock = none ∨ (∃ b, env.lmmBlock = some b ∧ env.CloneFails p.space.mm b) ∨
    env.pgdBlock = none ∨ env.CopyFails p [] (copyAddrs p)

/-- An area without its address and its manager. -/
def VmArea.content (v : VmArea) : VmArea := { v with self := 0, vmMm := 0 }

/-- The areas are cloned if every block is there. -/
theorem cloneLoop_blocks : ∀ (l : List VmArea) (dst : Lmm) (h : FileHeap) (rs : List (Option Nat)),
    ((∃ k < l.length, rs.getD k none = none) ∧
      (cloneLoop blocksEnv l dst (h, rs)).2.2 ≠ 0) ∨
    ((¬ ∃ k < l.length, rs.getD k none = none) ∧ (cloneLoop blocksEnv l dst (h, rs)).2.2 = 0 ∧
      (cloneLoop blocksEnv l dst (h, rs)).1.vmaList.map VmArea.content
        = dst.vmaList.map VmArea.content ++ l.map VmArea.content) := by
  intro l
  induction l with
  | nil => exact fun dst h rs => .inr ⟨(fun h => by obtain ⟨_, hk, _⟩ := h; cases hk), rfl, by simp [cloneLoop]⟩
  | cons v l ih =>
      intro dst h rs
      rw [cloneLoop]
      dsimp only [blocksEnv]
      cases hr : rs.headD none with
      | none =>
          refine .inl ⟨⟨0, Nat.succ_pos _, ?_⟩, ?_⟩
          · rw [← hr]
            cases rs <;> rfl
          · dsimp only
            decide
      | some q =>
          have hshift : ∀ k, rs.getD (k + 1) none = rs.tail.getD k none := by
            intro k
            cases rs <;> rfl
          have hzero : rs.getD 0 none = some q := by
            rw [← hr]
            cases rs <;> rfl
          have hiff : (∃ k < (v :: l).length, rs.getD k none = none) ↔
              ∃ k < l.length, rs.tail.getD k none = none := by
            constructor
            · rintro ⟨k, hk, hn⟩
              cases k with
              | zero =>
                  rw [hzero] at hn
                  cases hn
              | succ k => exact ⟨k, Nat.lt_of_succ_lt_succ hk, (hshift k).symm.trans hn⟩
            · rintro ⟨k, hk, hn⟩
              exact ⟨k + 1, Nat.succ_lt_succ hk, (hshift k).trans hn⟩
          rw [hiff]
          dsimp only
          refine (ih { dst with vmaList := dst.vmaList ++ [{ v with self := q, vmMm := dst.self }] }
            (h.take q) rs.tail).imp id ?_
          rintro ⟨h1, h2, h3⟩
          refine ⟨h1, h2, h3.trans ?_⟩
          rw [List.map_append, List.append_assoc]
          rfl

/-- **The list of areas**: it is cloned, or the call fails. -/
theorem vmaCloneAll_blocks (env : ForkEnv) (src : Lmm) (b : Nat) (h : FileHeap) :
    (env.CloneFails src b ∧ (vmaCloneAll blocksEnv src (lmmInit { src with self := b })
      (h, env.vmaBlocks)).2.2 ≠ 0) ∨
    (¬ env.CloneFails src b ∧ (vmaCloneAll blocksEnv src (lmmInit { src with self := b })
      (h, env.vmaBlocks)).2.2 = 0 ∧
      (vmaCloneAll blocksEnv src (lmmInit { src with self := b })
        (h, env.vmaBlocks)).1.vmaList.map VmArea.content = src.vmaList.map VmArea.content) := by
  unfold vmaCloneAll ForkEnv.CloneFails
  by_cases h1 : src.self = b
  · rw [if_pos (.inl h1)]
    exact .inl ⟨.inl h1, show -(EINVAL : Int) ≠ 0 by decide⟩
  by_cases h2 : src.listReady = false
  · rw [if_pos (.inr (.inl h2))]
    exact .inl ⟨.inr (.inl h2), show -(EINVAL : Int) ≠ 0 by decide⟩
  have hgo : ¬ (src.self = (lmmInit { src with self := b }).self ∨ src.listReady = false ∨
      (lmmInit { src with self := b }).listReady = false) := by
    rintro (h | h | h)
    · exact h1 h
    · exact h2 h
    · exact nomatch h
  rw [if_neg hgo]
  rcases cloneLoop_blocks src.vmaList (lmmInit { src with self := b }) h env.vmaBlocks with
    ⟨hk, hr⟩ | ⟨hk, hr, hl⟩
  · exact .inl ⟨.inr (.inr hk), hr⟩
  · refine .inr ⟨?_, hr, hl⟩
    rintro (h | h | h)
    · exact h1 h
    · exact h2 h
    · exact hk h

theorem copied_start (s : ForkSys) : Copied s [] ⟨s, [], []⟩ where
  keys := fun _ => ⟨(fun h => nomatch h), (fun h => nomatch h)⟩
  next := rfl
  files := rfl
  mm := rfl
  startBrk := rfl
  endBrk := rfl
  pages := fun _ _ => rfl

/-- What `copy_mm` has done when it ends well: the loop has run over all pages, and the areas are
those of the parent. -/
structure MmCopied (env : ForkEnv) (s : ForkSys) (heap : FileHeap) (c : Copying) (mm : Lmm) : Prop where
  loop : copyUserLoop env (copyAddrs s.parent) ⟨{ s with heap := heap }, [], []⟩ = .done c
  copied : Copied { s with heap := heap } (copyAddrs s.parent) c
  areas : mm.vmaList.map VmArea.content = s.parent.space.mm.vmaList.map VmArea.content

/-- **`copy_mm`**: an allocation fails, or a page of the parent cannot be read, or the address space is
copied. -/
theorem copyMm_spec (env : ForkEnv) (s : ForkSys) (hg : env.grown = none) :
    (env.MmFails s.parent ∧
      (copyMm env s = .null ∨ ∃ s', copyMm env s = .failed s' ∧ s'.next = s.next)) ∨
    (¬ env.MmFails s.parent ∧ (∃ v ∈ copyAddrs s.parent, ¬ env.Readable s.parent v) ∧
      copyMm env s = .halted) ∨
    (¬ env.MmFails s.parent ∧ (∀ v ∈ copyAddrs s.parent, env.Readable s.parent v) ∧
      ∃ heap c mm, copyMm env s = .done (c.sys, c.child mm) ∧ MmCopied env s heap c mm) := by
  unfold copyMm
  cases hb : env.lmmBlock with
  | none => exact .inl ⟨.inl hb, .inr ⟨s, rfl, rfl⟩⟩
  | some b =>
      dsimp only
      rcases hclone : vmaCloneAll blocksEnv s.parent.space.mm
        (lmmInit { s.parent.space.mm with self := b }) (s.heap.take b, env.vmaBlocks)
        with ⟨mm, ⟨heap, rs⟩, r⟩
      have hspec := vmaCloneAll_blocks env s.parent.space.mm b (s.heap.take b)
      rw [hclone] at hspec
      rcases hspec with ⟨hf, hr⟩ | ⟨hf, hr, hl⟩
      · dsimp only at hr ⊢
        rw [if_pos hr]
        exact .inl ⟨.inr (.inl ⟨b, hb, hf⟩), .inr ⟨_, rfl, rfl⟩⟩
      · dsimp only at hr ⊢
        rw [if_neg (not_not_intro hr)]
        cases hpgd : env.pgdBlock with
        | none => exact .inl ⟨.inr (.inr (.inl hpgd)), .inl rfl⟩
        | some g =>
            have hfails : env.MmFails s.parent ↔ env.CopyFails s.parent [] (copyAddrs s.parent) := by
              constructor
              · rintro (h | ⟨b', h, h'⟩ | h | h)
                · exact nomatch hb.symm.trans h
                · obtain rfl := Option.some.inj (hb.symm.trans h)
                  exact absurd h' hf
                · exact nomatch hpgd.symm.trans h
                · exact h
              · exact fun h => .inr (.inr (.inr h))
            rw [hfails]
            dsimp only
            rw [copyPages_eq hg]
            rcases @copyUserLoop_spec env { s with heap := heap.take g } (copyAddrs s.parent) [] _
              (copied_start _) with ⟨h1, c, he, hn⟩ | ⟨h1, h2, he⟩ | ⟨h1, h2, c, he, hc⟩
            · rw [he]
              exact .inl ⟨h1, .inr ⟨_, rfl, hn⟩⟩
            · rw [he]
              exact .inr (.inl ⟨h1, h2, rfl⟩)
            · rw [he]
              rw [List.nil_append] at hc
              exact .inr (.inr ⟨h1, h2, heap.take g, c, { mm with pgd := g }, rfl, he, hc, hl⟩)

/-! ## A call that fails -/

/-- A file object of the child is refused. -/
def ForkEnv.FilesFail (env : ForkEnv) (f : TaskFiles) : Prop :=
  ∃ k < f.files.length, env.fileBlocks[k]? = some none

/-- The call comes to an allocation that fails, other than that of the task. -/
def ForkEnv.Fails (env : ForkEnv) (cloneVm cloneFs : Bool) (s : ForkSys) : Prop :=
  (cloneVm = false ∧ env.MmFails s.parent) ∨
  ((cloneVm = true ∨ ∀ v ∈ copyAddrs s.parent, env.Readable s.parent v) ∧
    cloneFs = false ∧ env.FilesFail s.files)

/-- Nothing has changed: the ring of tasks, the parent's address space, its files, the blocks and the
pages. -/
structure ForkSys.Unchanged (env : ForkEnv) (s s' : ForkSys) : Prop where
  ring : ∀ t, env.taskBlock ≠ some t → s'.next t = s.next t
  parent : s'.parent = s.parent
  contents : ∀ f ∈ s.frames, s'.phys f = s.phys f
  files : s'.files = s.files
  blocks : s'.heap = s.heap
  frames : s'.frames = s.frames

/-- A call that returns an error has changed nothing, and no failed allocation is used. -/
def ForkResult.AllOrNothing (env : ForkEnv) (s : ForkSys) : ForkResult → Prop
  | .null => False
  | .halted => True
  | .failed s' _ => s.Unchanged env s'
  | .forked _ _ => True

/-- `copy_files` stops at the first block that is refused. -/
theorem copyFiles_error : ∀ (l rs : List (Option Nat)) (h : FileHeap)
    (r : List (Option Nat) × FileHeap × Bool), copyFiles l rs h = some r →
    (r.2.2 = true ↔ ∃ k < (l.filterMap id).length, rs[k]? = some none) := by
  intro l rs h
  induction l, rs, h using copyFiles.induct with
  | case1 rs h =>
      intro r hr
      obtain rfl := Option.some.inj hr
      simp
  | case2 l rs h ih =>
      intro r hr
      rw [copyFiles] at hr
      obtain ⟨r', hr', rfl⟩ := Option.map_eq_some_iff.mp hr
      exact ih r' hr'
  | case3 =>
      intro r hr
      cases hr
  | case4 q l rs h =>
      intro r hr
      obtain rfl := Option.some.inj hr
      exact iff_of_true rfl ⟨0, by simp, rfl⟩
  | case5 q l p rs h hk =>
      intro r hr
      rw [copyFiles, hk] at hr
      cases hr
  | case6 q l p rs h h' hk ih =>
      intro r hr
      rw [copyFiles, hk] at hr
      obtain ⟨r', hr', rfl⟩ := Option.map_eq_some_iff.mp hr
      refine (ih r' hr').trans ?_
      constructor
      · rintro ⟨k, hk, hn⟩
        exact ⟨k + 1, Nat.succ_lt_succ hk, hn⟩
      · rintro ⟨k, hk, hn⟩
        cases k with
        | zero => cases hn
        | succ k => exact ⟨k, Nat.lt_of_succ_lt_succ hk, hn⟩

section

variable {env : ForkEnv} {s : ForkSys} {cloneVm cloneFs : Bool} {r : ForkResult}

/-- The end of the call fails if a file object is refused. -/
theorem forkFiles_cases {child : ForkChild} (h : forkFiles env cloneFs s child = some r) :
    (cloneFs = false ∧ env.FilesFail s.files ∧ ∃ s' err, r = .failed s' err ∧ s'.next = s.next) ∨
    (¬ (cloneFs = false ∧ env.FilesFail s.files) ∧ ∃ s' handles, r = .forked s' { child with
      files := { child.files with handles := handles } } ∧ ∃ heap, s' = { s with heap := heap }) := by
  unfold forkFiles at h
  by_cases hfs : cloneFs = true
  · rw [if_pos hfs] at h
    obtain rfl := Option.some.inj h
    refine .inr ⟨fun hc => ?_, s, child.files.handles, rfl, s.heap, rfl⟩
    rw [hfs] at hc
    exact nomatch hc.1
  · rw [if_neg hfs] at h
    have hfs' : cloneFs = false := Bool.eq_false_iff.mpr hfs
    rcases hc : copyFiles s.files.handles env.fileBlocks s.heap with _ | ⟨handles, heap, b⟩
    · rw [hc] at h
      exact nomatch h
    · have hiff := copyFiles_error _ _ _ _ hc
      rw [hc] at h
      cases b with
      | true =>
          obtain rfl := Option.some.inj h
          exact .inl ⟨hfs', hiff.mp rfl, _, _, rfl, rfl⟩
      | false =>
          obtain rfl := Option.some.inj h
          exact .inr ⟨(fun hf => nomatch hiff.mpr hf.2), _, handles, rfl, heap, rfl⟩

/-- **`do_fork`** behind the allocation of the task: with the child linked it fails, or it stops or
succeeds. -/
theorem doFork_cases {current tsk : Nat} (hg : cloneVm = true ∨ env.grown = none)
    (htask : env.taskBlock = some tsk) (h : doFork current cloneVm cloneFs env s = some r) :
    (env.Fails cloneVm cloneFs s ∧ (r = .null ∨
      ∃ s' err, r = .failed s' err ∧ s'.next = (s.linkChild current tsk).next)) ∨
    (¬ env.Fails cloneVm cloneFs s ∧ (r = .halted ∨ ∃ s' child, r = .forked s' child)) := by
  unfold doFork at h
  rw [htask] at h
  dsimp only at h
  cases cloneVm with
  | true =>
      rw [if_pos rfl] at h
      rcases forkFiles_cases h with ⟨hfs, hf, s', err, rfl, hn⟩ | ⟨hno, s', handles, rfl, -⟩
      · exact .inl ⟨.inr ⟨.inl rfl, hfs, hf⟩, .inr ⟨s', err, rfl, hn⟩⟩
      · refine .inr ⟨?_, .inr ⟨_, _, rfl⟩⟩
        rintro (⟨hc, -⟩ | ⟨-, hf⟩)
        · exact nomatch hc
        · exact hno hf
  | false =>
      rw [if_neg Bool.false_ne_true] at h
      rcases copyMm_spec env (s.linkChild current tsk) (hg.resolve_left Bool.false_ne_true) with
        ⟨hf, he | ⟨s', he, hn⟩⟩ | ⟨hf, ⟨v, hv, hread⟩, he⟩ | ⟨hf, hread, heap, c, mm, he, hcopied⟩
      · rw [he] at h
        obtain rfl := Option.some.inj h
        exact .inl ⟨.inl ⟨rfl, hf⟩, .inl rfl⟩
      · rw [he] at h
        obtain rfl := Option.some.inj h
        exact .inl ⟨.inl ⟨rfl, hf⟩, .inr ⟨_, _, rfl, hn⟩⟩
      · rw [he] at h
        obtain rfl := Option.some.inj h
        refine .inr ⟨?_, .inl rfl⟩
        rintro (⟨-, hc⟩ | ⟨hc | hc, -⟩)
        · exact hf hc
        · exact nomatch hc
        · exact hread (hc v hv)
      · rw [he] at h
        have hfiles : c.sys.files = s.files := hcopied.copied.files
        rcases forkFiles_cases h with ⟨hfs, hff, s', err, rfl, hn⟩ | ⟨hno, s', handles, rfl, -⟩
        · rw [hfiles] at hff
          exact .inl ⟨.inr ⟨.inr hread, hfs, hff⟩, .inr ⟨s', err, rfl, hn.trans hcopied.copied.next⟩⟩
        · rw [hfiles] at hno
          refine .inr ⟨?_, .inr ⟨_, _, rfl⟩⟩
          rintro (⟨-, hc⟩ | ⟨-, hc⟩)
          · exact hf hc
          · exact hno hc

end

/-- **A call of `do_fork` does all or nothing**, where the class of pages does not grow, if and only if the
block of the task is refused, or no allocation behind it is. The block is none of a task that lives. -/
theorem fork_all_or_nothing {current : Nat} {cloneVm cloneFs : Bool} {env : ForkEnv} {s : ForkSys}
    {r : ForkResult} (hgrown : cloneVm = true ∨ env.grown = none) (hfresh : ∀ tsk, env.taskBlock = some tsk → current ≠ tsk ∧ s.next current ≠ tsk)
    (h : doFork current cloneVm cloneFs env s = some r) :
    r.AllOrNothing env s ↔ env.taskBlock = none ∨ ¬ env.Fails cloneVm cloneFs s := by
  cases htask : env.taskBlock with
  | none =>
      unfold doFork at h
      rw [htask] at h
      obtain rfl := Option.some.inj h
      exact iff_of_true ⟨fun _ _ => rfl, rfl, fun _ _ => rfl, rfl, rfl, rfl⟩ (.inl rfl)
  | some tsk =>
      obtain ⟨hcur, hnext⟩ := hfresh tsk htask
      rcases doFork_cases hgrown htask h with ⟨hf, hr⟩ | ⟨hf, hr⟩
      · refine iff_of_false (fun hall => ?_) ?_
        · rcases hr with rfl | ⟨s', err, rfl, hn⟩
          · exact hall
          · -- the child is still linked behind the parent
            have hring := hall.ring current (by rw [htask]; exact fun hc => hcur (Option.some.inj hc).symm)
            rw [hn] at hring
            exact hnext (hring.symm.trans (Function.update_self ..))
        · rintro (hc | hc)
          · exact nomatch hc
          · exact hc hf
      · refine iff_of_true ?_ (.inr hf)
        rcases hr with rfl | ⟨s', child, rfl⟩
        · trivial
        · trivial

/-- Memory is there for everything. -/
def exampleFork : ForkEnv where
  taskBlock := some 0x5000
  lmmBlock := some 0x6000
  vmaBlocks := [some 0x7000]
  pgdBlock := some 0x8000
  outcome := fun v => .ready (0x1000000 + v)
  tables := fun _ => []
  faultOutcome := fun _ => .noPage
  faultTables := fun _ => []
  fileBlocks := [some 0x9000]
  grown := none

/-- The task at `0x100` has the address space `p` and the file object `0x2000`; its frames are among
the first `0x1000000`. -/
def exampleParent (p : Process) : ForkSys where
  next := fun _ => 0x100
  globalPid := 2
  parent := p
  files := ⟨[some 0x2000], false⟩
  heap := ⟨{0x2000}, false⟩
  frames := Finset.range 0x1000000
  phys := fun f _ => UInt8.ofNat f

/-- An address space of which nothing is mapped. -/
def exampleEmpty : Process :=
  ⟨⟨lmmInit ⟨64, 0x1000, 0, false, []⟩, ⟨BRK_START_ADDR, BRK_START_ADDR, fun _ => none⟩⟩, fun _ => true⟩

/-- The block of the task is refused, and nothing is done. -/
theorem fork_all_or_nothing_example :
    (ForkResult.failed (exampleParent exampleEmpty) EAGAIN).AllOrNothing
      { exampleFork with taskBlock := none } (exampleParent exampleEmpty) :=
  (@fork_all_or_nothing 0x100 false false { exampleFork with taskBlock := none } _ _ (.inr rfl)
    (fun _ h => nomatch h) rfl).mpr (.inl rfl)

/-- The manager of the child is refused. The parent is left with a task behind it that is freed, and
its open file is freed too. -/
theorem fork_leaves_child : ∃ s',
    doFork 0x100 false false { exampleFork with lmmBlock := none } (exampleParent exampleEmpty)
      = some (.failed s' ENOMEM) ∧
    s'.next 0x100 = 0x5000 ∧ 0x5000 ∉ s'.heap.alive ∧ s'.files.files = [0x2000] ∧
    0x2000 ∉ s'.heap.alive ∧
    ¬ (ForkResult.failed s' ENOMEM).AllOrNothing { exampleFork with lmmBlock := none }
      (exampleParent exampleEmpty) := by
  refine ⟨_, rfl, rfl, by decide, rfl, by decide, fun h => ?_⟩
  exact absurd (h.ring 0x100 (by decide)) (by decide)

end Talios
