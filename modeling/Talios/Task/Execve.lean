import Talios.Fs.Fat32Chain
import Talios.Fs.OpenEntry
import Talios.Mm.Brk
import Talios.Task.Files

set_option autoImplicit false

/-! # Loading a program

`do_execve` and `open_exec_file` of `task.c`. A `LocalMemManager` is known by its address, and is
what its page table means: the frame of every page of user space that is mapped, and the bytes that
are seen there. What the allocations of the call return, the disk and the path are inputs of it.

The call writes the registers first, then replaces or fills the address space, then closes the files,
and looks at the file last. So nearly every failure leaves the task without what it had
(`execve_spares_caller`). And as the kind of every node that `path_walk` finds is `FS_ATTR_DIR`, no
file can be executed (`execve_loads`).
-/

namespace Talios

open Bytes Word

/-! ## Data -/

def USER_CS : Nat := 0x28
def USER_DS : Nat := 0x30

/-- `struct PtRegs`. -/
structure PtRegs where
  r15 : Nat
  r14 : Nat
  r13 : Nat
  r12 : Nat
  r11 : Nat
  r10 : Nat
  r9 : Nat
  r8 : Nat
  rbx : Nat
  rcx : Nat
  rdx : Nat
  rsi : Nat
  rdi : Nat
  rbp : Nat
  ds : Nat
  es : Nat
  rax : Nat
  func : Nat
  errCode : Nat
  rip : Nat
  cs : Nat
  rflag : Nat
  rsp : Nat
  ss : Nat
deriving DecidableEq

/-- A `LocalMemManager` with the user half of its page table. -/
structure UserMm where
  pages : Pages
  mem : Buffer
  vmas : List VmArea
  startCode : Nat
  startStack : Nat
  startBrk : Nat
  endBrk : Nat

/-- Behind `memset` and `lmm_init`, with an empty page table. -/
def freshMm : UserMm := ⟨fun _ => none, fun _ => 0, [], 0, 0, 0, 0⟩

/-- The task that calls: its saved registers, `lmm`, its files and `PF_VFORK`; and all managers and
file objects that are allocated. -/
structure Exec where
  regs : PtRegs
  lmm : Option Nat
  files : TaskFiles
  mm : Nat → Option UserMm
  heap : FileHeap

/-- What the call meets: the results of `kmalloc` for the manager, for its page directory and for the
file object, what happens for each page, the walk of the path, which is a string that the walk reads
behind the new page table, and what `ret_val` of `fat32_read` holds where it is not set. -/
structure ExecEnv where
  lmmBlock : Option Nat
  pgdBlock : Bool
  outcome : Nat → PageOutcome
  grown : GrownRange
  walk : WalkEnv
  path : List UInt8
  string : 0 ∉ path
  filp : Option Nat
  stale : Int

/-! ## `do_execve` -/

/-- The registers of a program that starts. -/
def execRegs (regs : PtRegs) : PtRegs :=
  { regs with
    rdx := CODE_START_ADDR, rcx := STACK_START_ADDR, rax := 1
    r10 := CODE_START_ADDR, r11 := STACK_START_ADDR
    es := USER_DS, ds := USER_DS, cs := USER_CS, ss := USER_DS }

/-- How a part of the call ends: in a fault of the kernel, with an error, or well. -/
inductive ExecStage
  | fault
  | error (s : Exec) (err : Nat)
  | next (s : Exec)

/-- The part under `PF_VFORK`: the task gets a manager of its own. The null that `kmalloc` returns
for the page directory is not seen behind `VIRT_TO_PHY`, and the copy into it faults. -/
def execLmm (s : Exec) (env : ExecEnv) : ExecStage :=
  if s.files.vfork then
    match env.lmmBlock with
    | none => .error { s with lmm := none } ENOMEM
    | some p =>
        if env.pgdBlock then
          .next { s with lmm := some p, mm := Function.update s.mm p (some freshMm) }
        else .fault
  else .next s

/-- The window filled with zeros. -/
def zeroWindow (mem : Buffer) : Buffer :=
  overlay mem CODE_START_ADDR (STACK_START_ADDR - CODE_START_ADDR) (fun _ => 0)

/-- A manager behind `MapUserRange4K`. -/
def UserMm.loaded (m : UserMm) (pages : Pages) : UserMm :=
  { m with
    pages := pages, mem := zeroWindow m.mem, startCode := CODE_START_ADDR
    startStack := STACK_START_ADDR, startBrk := BRK_START_ADDR, endBrk := BRK_START_ADDR }

/-- `MapUserRange4K` of the window of code and stack. -/
def ExecEnv.mapWindow (env : ExecEnv) (pages : Pages) : Pages × Int :=
  mapUserPages pages env.grown env.outcome CODE_START_ADDR (STACK_START_ADDR - CODE_START_ADDR)

/-- The window is mapped; otherwise the address space is given up. -/
def execMap (s : Exec) (env : ExecEnv) : ExecStage :=
  match s.lmm with
  | none => .fault
  | some p =>
      match s.mm p with
      | none => .fault
      | some m =>
          let r := env.mapWindow m.pages
          if r.2 ≠ 0 then
            .error { s with lmm := none, mm := Function.update s.mm p none } ENOMEM
          else .next { s with mm := Function.update s.mm p (some (m.loaded r.1)) }

/-- `exit_files`, and `PF_VFORK` is cleared. -/
def execFiles (s : Exec) : Exec :=
  let r := exitFiles s.files s.heap
  { s with files := { r.1 with vfork := false }, heap := r.2 }

/-- `open_exec_file`: an error, or the file object and the node that it reads; `none` where `path_walk`
does not return. -/
def openExecFile (env : ExecEnv) : Option (Nat ⊕ Nat × FoundNode) :=
  match env.walk.walk env.path with
  | some (.returned none) => some (.inl ENOENT)
  | some (.returned (some dentry)) =>
      if dentry.dirNode.nodeAttribute = FS_ATTR_DIR then some (.inl EISDIR)
      else
        match env.filp with
        | none => some (.inl ENOMEM)
        | some filp => some (.inr (filp, dentry.dirNode))
  | _ => none

/-- The program is read to the start of the window; `none` where the super block is null. -/
def execRead (s : Exec) (env : ExecEnv) (node : FoundNode) : Option (Exec × Nat) :=
  match s.lmm.bind s.mm, s.lmm with
  | some m, some p =>
      if node.sb then
        let r := fat32Read env.walk.sb env.walk.disk node.inode (zeroWindow m.mem) CODE_START_ADDR
          node.fileSize 0
        some ({ s with mm := Function.update s.mm p (some { m with mem := r.1 }) },
          ulong (r.2.ret.getD env.stale))
      else none
  | _, _ => none

/-- `open_exec_file`, and the rest of the call. -/
def execLoad (s : Exec) (env : ExecEnv) : Option (Exec × Nat) :=
  match openExecFile env with
  | none => none
  | some (.inl err) => some (s, negErr err)
  | some (.inr (filp, node)) =>
      execRead { s with heap := { s.heap with alive := insert filp s.heap.alive } } env node

/-- `do_execve`; `none` where it faults, or does not return. -/
def doExecve (s : Exec) (env : ExecEnv) : Option (Exec × Nat) :=
  match execLmm { s with regs := execRegs s.regs } env with
  | .fault => none
  | .error s err => some (s, negErr err)
  | .next s =>
      match execMap s env with
      | .fault => none
      | .error s err => some (s, negErr err)
      | .next s => execLoad (execFiles s) env

/-! ## The address space -/

/-- No page of the window is mapped. -/
def WindowFree (pages : Pages) : Prop := ∀ i, 2048 ≤ i → i < 2560 → pages i = none

/-- The manager in which the window is mapped, if the call comes to that. -/
def Exec.target (s : Exec) (env : ExecEnv) : Option (Nat × UserMm) :=
  if s.files.vfork then
    if env.pgdBlock then env.lmmBlock.map (fun p => (p, freshMm)) else none
  else s.lmm.bind (fun p => (s.mm p).map (fun m => (p, m)))

/-- No allocation for the window fails. -/
def ExecEnv.PagesReady (env : ExecEnv) : Prop := AllReady env.outcome 2048 2560

section

variable {pages : Pages} {outcome : Nat → PageOutcome}

theorem mapWindow_eq : mapUserRange4K pages outcome CODE_START_ADDR
      (STACK_START_ADDR - CODE_START_ADDR)
    = mapUserRange4K pages outcome (2048 * PAGE_4K_SIZE) (512 * PAGE_4K_SIZE) := rfl

theorem window_upper : (2048 + 512) * PAGE_4K_SIZE ≤ USER_LIMIT := by decide

/-- **The window is mapped** if it is free and no allocation fails, and then nothing else is. -/
theorem mapWindow_ok (hfree : WindowFree pages) (hready : AllReady outcome 2048 2560) :
    ∃ pages', mapUserRange4K pages outcome CODE_START_ADDR (STACK_START_ADDR - CODE_START_ADDR)
        = (pages', 0) ∧
      ∀ i, if 2048 ≤ i ∧ i < 2560 then (pages' i).isSome = true else pages' i = pages i := by
  rw [mapWindow_eq]
  rcases @mapUserRange4K_spec outcome pages 2048 512 window_upper hfree with
    ⟨-, pages', he, hmap⟩ | ⟨hall, -⟩
  · exact ⟨pages', he, hmap⟩
  · exact absurd hready hall

/-- Otherwise the call fails. -/
theorem mapWindow_fail (h : ¬ (WindowFree pages ∧ AllReady outcome 2048 2560)) :
    (mapUserRange4K pages outcome CODE_START_ADDR (STACK_START_ADDR - CODE_START_ADDR)).2 ≠ 0 := by
  rw [mapWindow_eq]
  by_cases hfree : WindowFree pages
  · rcases @mapUserRange4K_spec outcome pages 2048 512 window_upper hfree with
      ⟨hall, -⟩ | ⟨-, he⟩
    · exact absurd ⟨hfree, hall⟩ h
    · rw [he]
      simp [ENOMEM]
  · intro hz
    exact hfree (mapUserRange4K_free window_upper hz)

end

/-- The window cannot be mapped: a page of it is mapped already, or an allocation fails. -/
def ExecEnv.WindowFails (env : ExecEnv) (pages : Pages) : Prop :=
  match env.grown with
  | some r => r.2 ≠ 0
  | none => ¬ (WindowFree pages ∧ env.PagesReady)

/-- The task in front of `MapUserRange4K`. -/
def Exec.prepared (s : Exec) (p : Nat) (m : UserMm) : Exec :=
  { s with regs := execRegs s.regs, lmm := some p, mm := Function.update s.mm p (some m) }

/-- The task with the window mapped, its files closed. -/
def Exec.ready (s : Exec) (p : Nat) (m : UserMm) (pages : Pages) : Exec :=
  execFiles { s with
    regs := execRegs s.regs, lmm := some p, mm := Function.update s.mm p (some (m.loaded pages)) }

section

variable {s : Exec} {env : ExecEnv} {p : Nat} {m : UserMm}

/-! ## The parts of the call -/

theorem isError_negErr {err : Nat} (h1 : 0 < err) (h2 : err < 4096) : IsError (negErr err) := by
  unfold IsError negErr
  omega

theorem execLmm_target (h : s.target env = some (p, m)) :
    execLmm { s with regs := execRegs s.regs } env = .next (s.prepared p m) := by
  unfold Exec.target at h
  unfold execLmm
  by_cases hv : s.files.vfork = true
  · rw [if_pos hv] at h ⊢
    by_cases hg : env.pgdBlock = true
    · rw [if_pos hg] at h
      obtain ⟨q, hq, he⟩ := Option.map_eq_some_iff.mp h
      obtain ⟨rfl, rfl⟩ := Prod.mk.inj he
      rw [hq]
      dsimp only
      rw [if_pos hg]
      rfl
    · rw [if_neg hg] at h
      exact nomatch h
  · rw [if_neg hv] at h ⊢
    obtain ⟨q, hq, hm⟩ := Option.bind_eq_some_iff.mp h
    obtain ⟨m', hm', he⟩ := Option.map_eq_some_iff.mp hm
    obtain ⟨rfl, rfl⟩ := Prod.mk.inj he
    unfold Exec.prepared
    rw [← hm', Function.update_eq_self, ← hq]

/-- The call faults, or fails for want of a manager, where it does not come to the window. -/
theorem doExecve_no_target (h : s.target env = none) :
    doExecve s env = if s.files.vfork = true ∧ env.lmmBlock = none
      then some ({ s with regs := execRegs s.regs, lmm := none }, negErr ENOMEM) else none := by
  unfold Exec.target at h
  unfold doExecve execLmm
  by_cases hv : s.files.vfork = true
  · rw [if_pos hv] at h ⊢
    cases hb : env.lmmBlock with
    | none => rw [if_pos ⟨hv, rfl⟩]
    | some q =>
        rw [hb] at h
        have hg : ¬ env.pgdBlock = true := fun hg => by
          rw [if_pos hg] at h
          exact nomatch h
        rw [if_neg (fun hc => nomatch hc.2)]
        dsimp only
        rw [if_neg hg]
  · rw [if_neg hv] at h ⊢
    rw [if_neg (fun hc => hv hc.1)]
    dsimp only
    unfold execMap
    cases hl : s.lmm with
    | none => rfl
    | some q =>
        rw [hl] at h
        have hq : s.mm q = none := by
          rw [Option.bind_some, Option.map_eq_none_iff] at h
          exact h
        dsimp only
        rw [hq]

theorem doExecve_target (h : s.target env = some (p, m)) :
    doExecve s env = match execMap (s.prepared p m) env with
      | .fault => none
      | .error s err => some (s, negErr err)
      | .next s => execLoad (execFiles s) env := by
  unfold doExecve
  rw [execLmm_target h]

theorem windowFails_iff (pages : Pages) :
    env.WindowFails pages ↔ (env.mapWindow pages).2 ≠ 0 := by
  unfold ExecEnv.WindowFails ExecEnv.mapWindow
  cases env.grown with
  | some r => exact Iff.rfl
  | none =>
      constructor
      · exact mapWindow_fail
      · rintro h ⟨hfree, hready⟩
        obtain ⟨pages', he, -⟩ := mapWindow_ok hfree hready
        exact h (congrArg Prod.snd he)

/-- The window cannot be mapped. -/
theorem doExecve_unmapped (h : s.target env = some (p, m)) (hn : env.WindowFails m.pages) :
    ∃ s', doExecve s env = some (s', negErr ENOMEM) ∧ s'.lmm = none ∧
      s'.regs = execRegs s.regs ∧ s'.files = s.files ∧ s'.heap = s.heap := by
  rw [doExecve_target h]
  unfold execMap
  dsimp only [Exec.prepared]
  rw [Function.update_self]
  dsimp only
  rw [if_pos ((windowFails_iff _).mp hn)]
  exact ⟨_, rfl, rfl, rfl, rfl, rfl⟩

/-- The window is mapped, and the program is looked for. -/
theorem doExecve_mapped (h : s.target env = some (p, m)) (hn : ¬ env.WindowFails m.pages) :
    doExecve s env = execLoad (s.ready p m (env.mapWindow m.pages).1) env := by
  have hz : ¬ (env.mapWindow m.pages).2 ≠ 0 := mt (windowFails_iff _).mpr hn
  rw [doExecve_target h]
  unfold execMap
  dsimp only [Exec.prepared]
  rw [Function.update_self]
  dsimp only
  rw [if_neg hz, Function.update_idem]
  rfl

/-- No path leads to a file that can be opened. -/
theorem openExecFile_cases (env : ExecEnv) :
    openExecFile env = none ∨ ∃ err, 0 < err ∧ err < 4096 ∧ openExecFile env = some (.inl err) := by
  unfold openExecFile
  cases hwalk : env.walk.walk env.path with
  | none => exact .inl rfl
  | some r =>
      cases r with
      | outside => exact .inl rfl
      | returned walked =>
          cases walked with
          | none => exact .inr ⟨ENOENT, by decide, by decide, rfl⟩
          | some dentry =>
              dsimp only
              rw [if_pos (walk_directory env.string hwalk)]
              exact .inr ⟨EISDIR, by decide, by decide, rfl⟩

/-- So the call does not return, or it fails. -/
theorem execLoad_cases (s : Exec) (env : ExecEnv) :
    (openExecFile env = none ∧ execLoad s env = none) ∨
    ∃ err, openExecFile env = some (.inl err) ∧ IsError (negErr err) ∧
      execLoad s env = some (s, negErr err) := by
  unfold execLoad
  rcases openExecFile_cases env with h | ⟨err, h1, h2, h⟩
  · rw [h]
    exact .inl ⟨rfl, rfl⟩
  · rw [h]
    exact .inr ⟨err, rfl, isError_negErr h1 h2, rfl⟩

end

/-! ## The caller of a call that fails -/

/-- The caller has what it had: its address space with all contents, its files and its registers. -/
structure Exec.Intact (s s' : Exec) : Prop where
  lmm : s'.lmm = s.lmm
  mm : ∀ p, s.lmm = some p → s'.mm p = s.mm p
  handles : s'.files.handles = s.files.handles
  objects : ∀ q ∈ s.files.files, q ∈ s.heap.alive → q ∈ s'.heap.alive
  regs : s'.regs = s.regs

/-- A call that returns an error leaves the caller intact. -/
def Exec.SparesCaller (s : Exec) (env : ExecEnv) : Prop :=
  ∀ s' r, doExecve s env = some (s', r) → IsError r → s.Intact s'

/-- The call fails before it closes the files. -/
def Exec.FailsEarly (s : Exec) (env : ExecEnv) : Prop :=
  (s.files.vfork = true ∧ env.lmmBlock = none) ∨
  ∃ p m, s.target env = some (p, m) ∧ env.WindowFails m.pages

/-- The call fails when the files are closed. -/
def Exec.FailsLate (s : Exec) (env : ExecEnv) : Prop :=
  (∃ p m, s.target env = some (p, m) ∧ ¬ env.WindowFails m.pages) ∧
    ∃ err, openExecFile env = some (.inl err)

/-- The task has nothing to lose: no manager, and the registers of a program that starts. -/
def Exec.Bare (s : Exec) : Prop :=
  s.files.vfork = true ∧ s.lmm = none ∧ s.regs = execRegs s.regs

section

variable {s : Exec} {env : ExecEnv}

/-- A call that fails late has replaced the address space, or mapped the window in it. -/
theorem Exec.FailsLate.not_intact (h : s.FailsLate env) (hgrown : env.grown = none)
    (hfresh : ∀ p, env.lmmBlock = some p → s.lmm ≠ some p) :
    ∃ s' r, doExecve s env = some (s', r) ∧ IsError r ∧ ¬ s.Intact s' := by
  obtain ⟨⟨p, m, ht, hn⟩, err, hopen⟩ := h
  have he := doExecve_mapped ht hn
  rcases execLoad_cases (s.ready p m (env.mapWindow m.pages).1) env with
    ⟨hnone, -⟩ | ⟨err', -, herr, hload⟩
  · rw [hopen] at hnone
    cases hnone
  rw [hload] at he
  refine ⟨_, _, he, herr, fun hi => ?_⟩
  have hlmm : s.lmm = some p := hi.lmm.symm
  have hmm : (s.ready p m (env.mapWindow m.pages).1).mm p = s.mm p := hi.mm p hlmm
  rw [show (s.ready p m (env.mapWindow m.pages).1).mm p = some (m.loaded (env.mapWindow m.pages).1)
    from Function.update_self ..] at hmm
  unfold ExecEnv.WindowFails at hn
  rw [hgrown] at hn
  obtain ⟨hfree, hready⟩ := not_not.mp hn
  obtain ⟨pages, hwindow, hmap⟩ := mapWindow_ok hfree hready
  unfold Exec.target at ht
  by_cases hv : s.files.vfork = true
  · rw [if_pos hv] at ht
    split at ht
    · obtain ⟨q, hq, heq⟩ := Option.map_eq_some_iff.mp ht
      obtain ⟨rfl, -⟩ := Prod.mk.inj heq
      exact hfresh q hq hlmm
    · exact nomatch ht
  · rw [if_neg hv, hlmm, Option.bind_some] at ht
    obtain ⟨m', hm', heq⟩ := Option.map_eq_some_iff.mp ht
    obtain ⟨-, rfl⟩ := Prod.mk.inj heq
    rw [hm'] at hmm
    have hpages : (env.mapWindow m'.pages).1 = m'.pages :=
      congrArg UserMm.pages (Option.some.inj hmm)
    unfold ExecEnv.mapWindow at hpages
    rw [hgrown, mapUserPages_none, hwindow] at hpages
    -- a page of the window is mapped now
    have hpage := hmap 2048
    rw [if_pos (by decide), show pages = m'.pages from hpages,
      hfree 2048 le_rfl (by decide)] at hpage
    exact nomatch hpage

/-- A call that fails early leaves the task without an address space. -/
theorem Exec.FailsEarly.intact_iff (h : s.FailsEarly env) :
    ∃ s' r, doExecve s env = some (s', r) ∧ IsError r ∧
      (s.Intact s' ↔ s.lmm = none ∧ s.regs = execRegs s.regs) := by
  have hiff : ∀ s' : Exec, s'.lmm = none → s'.regs = execRegs s.regs → s'.files = s.files →
      s'.heap = s.heap → (s.Intact s' ↔ s.lmm = none ∧ s.regs = execRegs s.regs) := by
    intro s' h1 h2 h3 h4
    constructor
    · intro hi
      exact ⟨hi.lmm.symm.trans h1, hi.regs.symm.trans h2⟩
    · rintro ⟨h5, h6⟩
      refine ⟨h1.trans h5.symm, fun p hp => ?_, by rw [h3], fun q _ hq => by rw [h4]; exact hq,
        h2.trans h6.symm⟩
      rw [h5] at hp
      exact nomatch hp
  have herr : IsError (negErr ENOMEM) := isError_negErr (by decide) (by decide)
  rcases h with ⟨hv, hb⟩ | ⟨p, m, ht, hn⟩
  · have ht : s.target env = none := by
      unfold Exec.target
      rw [if_pos hv, hb]
      split <;> rfl
    refine ⟨_, _, ?_, herr, hiff { s with regs := execRegs s.regs, lmm := none } rfl rfl rfl rfl⟩
    rw [doExecve_no_target ht, if_pos ⟨hv, hb⟩]
  · obtain ⟨s', he, h1, h2, h3, h4⟩ := doExecve_unmapped ht hn
    exact ⟨s', _, he, herr, hiff s' h1 h2 h3 h4⟩

/-- A task without a manager gets one only under `PF_VFORK`. -/
theorem target_vfork {p : Nat} {m : UserMm} (ht : s.target env = some (p, m)) (hl : s.lmm = none) :
    s.files.vfork = true := by
  by_contra hv
  unfold Exec.target at ht
  rw [if_neg hv, hl] at ht
  exact nomatch ht

/-- A call that returns fails early or late. -/
theorem fails_cases {s' : Exec} {r : Nat} (he : doExecve s env = some (s', r)) :
    IsError r ∧ (s.FailsEarly env ∨ s.FailsLate env) := by
  have hnomem : IsError (negErr ENOMEM) := isError_negErr (by decide) (by decide)
  cases ht : s.target env with
  | none =>
      rw [doExecve_no_target ht] at he
      split at he
      · rename_i h
        cases he
        exact ⟨hnomem, .inl (.inl h)⟩
      · exact nomatch he
  | some t =>
      obtain ⟨p, m⟩ := t
      by_cases hn : env.WindowFails m.pages
      · obtain ⟨s'', he', -⟩ := doExecve_unmapped ht hn
        rw [he'] at he
        cases he
        exact ⟨hnomem, .inl (.inr ⟨p, m, ht, hn⟩)⟩
      · rw [doExecve_mapped ht hn] at he
        rcases execLoad_cases (s.ready p m (env.mapWindow m.pages).1) env with
          ⟨-, hload⟩ | ⟨err, hopen, herr, hload⟩
        · rw [hload] at he
          cases he
        · rw [hload] at he
          cases he
          exact ⟨herr, .inr ⟨⟨p, m, ht, hn⟩, err, hopen⟩⟩

end

/-- **A call that fails leaves the caller intact** if it does not come to the end of `open_exec_file`,
and fails early only for a task that had nothing to lose; and where the cache of the tables does not
grow, only then. -/
theorem execve_spares_caller {s : Exec} {env : ExecEnv}
    (hfresh : ∀ p, env.lmmBlock = some p → s.lmm ≠ some p) :
    (¬ s.FailsLate env ∧ (s.FailsEarly env → s.Bare) → s.SparesCaller env) ∧
    (env.grown = none → s.SparesCaller env → ¬ s.FailsLate env ∧ (s.FailsEarly env → s.Bare)) := by
  constructor
  · rintro ⟨hlate, hearly⟩ s' r he herr
    rcases (fails_cases he).2 with hf | hf
    · obtain ⟨-, hl, hregs⟩ := hearly hf
      obtain ⟨s'', r', he', -, hiff⟩ := hf.intact_iff
      rw [he] at he'
      obtain ⟨rfl, -⟩ := Prod.mk.inj (Option.some.inj he')
      exact hiff.mpr ⟨hl, hregs⟩
    · exact absurd hf hlate
  · intro hgrown hall
    refine ⟨fun hlate => ?_, fun hearly => ?_⟩
    · obtain ⟨s', r, he, herr, hn⟩ := hlate.not_intact hgrown hfresh
      exact hn (hall s' r he herr)
    · obtain ⟨s', r, he, herr, hiff⟩ := hearly.intact_iff
      obtain ⟨hl, hregs⟩ := hiff.mp (hall s' r he herr)
      refine ⟨?_, hl, hregs⟩
      rcases hearly with ⟨hv, -⟩ | ⟨p, m, ht, -⟩
      · exact hv
      · exact target_vfork ht hl

/-- A child made by `vfork` that shares the manager at `0x1000` and has one file open. -/
def exampleVfork : Exec where
  regs := ⟨0, 0, 0, 0, 0, 0, 0, 0, 0, 0, 0, 0, 0, 0, 0, 0, 0, 0, 0, 0, 0, 0, 0, 0⟩
  lmm := some 0x1000
  files := ⟨[some 0x2000], true⟩
  mm := fun p => if p = 0x1000 then some freshMm else none
  heap := ⟨{0x2000}, false⟩

/-- A walk on the volume with the file `A`, with memory for everything. -/
def exampleWalk : WalkEnv where
  sb := exampleSb
  disk := entryDisk
  rootClus := 2
  memory := ⟨fun _ _ => true, fun _ _ => true, fun _ _ => true⟩
  fuel := 1

/-- Memory is there for everything, and the path is `A`. -/
def exampleExec : ExecEnv where
  lmmBlock := some 0x3000
  pgdBlock := true
  outcome vaddr := .ready (2 ^ 20 + vaddr / 4096)
  grown := none
  walk := exampleWalk
  path := [65]
  string := by decide
  filp := some 0x4000
  stale := 0

theorem exampleExec_ready : exampleExec.PagesReady := fun _ _ _ => ⟨_, rfl⟩

/-- The file is found, as a directory. -/
theorem openExecFile_example : openExecFile exampleExec = some (.inl EISDIR) := by
  have hnode : nodeLookup exampleSb entryDisk 1 (rootNode 2) [65] = some (some entryNode) := by
    rw [nodeLookup_root, show fat32Lookup exampleSb entryDisk (rootNode 2).inode [65] 1
      = some (.found entryNode) from entryNode_found]
  have hwalk : exampleWalk.walk [65]
      = some (.returned (some (.child [65] entryNode (.root (rootNode 2))))) := by
    rw [walk_eq_fatWalk _ (fun _ _ => rfl) (fun _ _ => rfl) (fun _ _ => rfl)]
    show fatWalk exampleSb entryDisk 2 [65] 1 = _
    rw [fatWalk_cons (by decide) (show components [65] = [65] :: [] by decide), if_neg (by decide),
      hnode]
    rfl
  unfold openExecFile
  rw [show exampleExec.walk.walk exampleExec.path = _ from hwalk]
  rfl

/-- A child of `vfork` whose first `execve` has failed, without a manager, and with the registers of a
program that starts. -/
def exampleBare : Exec where
  regs := execRegs exampleVfork.regs
  lmm := none
  files := ⟨[some 0x2000], true⟩
  mm := fun p => if p = 0x1000 then some freshMm else none
  heap := ⟨{0x2000}, false⟩

/-- It has nothing to lose by a call that finds no memory. -/
theorem execve_spares_caller_example :
    exampleBare.SparesCaller { exampleExec with lmmBlock := none } ∧
    ∃ s', doExecve exampleBare { exampleExec with lmmBlock := none } = some (s', negErr ENOMEM) := by
  refine ⟨(execve_spares_caller (fun p hp => (Option.some_ne_none p hp.symm).elim)).1 ⟨?_, fun _ => ⟨rfl, rfl, rfl⟩⟩, _, rfl⟩
  rintro ⟨⟨p, m, ht, -⟩, -⟩
  exact nomatch ht

/-- The child made by `vfork` executes the file. It is told that this is a directory, with an empty
address space in place of the one it had, its file closed and its registers overwritten. -/
theorem execve_file_not_intact : ¬ exampleVfork.SparesCaller exampleExec := by
  have hlate : exampleVfork.FailsLate exampleExec := by
    refine ⟨⟨0x3000, freshMm, rfl, fun h => h ⟨fun _ _ _ => rfl, exampleExec_ready⟩⟩, EISDIR,
      openExecFile_example⟩
  have hfresh : ∀ p, exampleExec.lmmBlock = some p → exampleVfork.lmm ≠ some p := by
    intro p hp hl
    exact absurd (hp.trans hl.symm) (by decide)
  obtain ⟨s', r, he, herr, hn⟩ := hlate.not_intact rfl hfresh
  exact fun hall => hn (hall s' r he herr)

/-! ## The program that is loaded -/

/-- The address space holds a program of `size` bytes and nothing else. -/
structure UserMm.Holds (m : UserMm) (size : Nat) (byte : Nat → Option UInt8) : Prop where
  pages : ∀ i, (m.pages i).isSome = true ↔ 2048 ≤ i ∧ i < 2560
  program : ∀ q < size, byte q = some (m.mem (CODE_START_ADDR + q))
  zeros : ∀ q, size ≤ q → q < STACK_START_ADDR - CODE_START_ADDR →
    m.mem (CODE_START_ADDR + q) = 0
  heap : m.startBrk = m.endBrk
  vmas : m.vmas = []

/-- The call returns no error, the task has the program in an address space of its own, and whatever
a parent had in front of a `vfork` is as it was. -/
structure Exec.Executes (s : Exec) (env : ExecEnv) (size : Nat) (byte : Nat → Option UInt8)
    (s' : Exec) (r : Nat) : Prop where
  call : doExecve s env = some (s', r)
  ok : ¬ IsError r
  loaded : ∃ p m, s'.lmm = some p ∧ s'.mm p = some m ∧ m.Holds size byte
  parent : s.files.vfork = true → s'.lmm ≠ s.lmm ∧
    (∀ q m, s.mm q = some m → s'.mm q = some m) ∧ s.heap.alive ⊆ s'.heap.alive

/-- The path leads to a regular file of at most 0x200000 bytes, with the size and the first cluster of
its entry and a chain of clusters. -/
structure ExecEnv.Names (env : ExecEnv) (inode : Inode) (chain : List Nat) : Prop where
  node : ∃ node, Resolves env.walk.sb env.walk.disk (rootNode env.walk.rootClus)
    (components env.path) node ∧ entryFile (node.entry env.walk.sb env.walk.disk) ∧
    inode.fileSize = getLE (node.entry env.walk.sb env.walk.disk) 28 4 ∧
    inode.firstCluster = node.firstCluster
  chain : FileChain env.walk.sb env.walk.disk inode chain
  size : inode.fileSize ≤ 0x200000

/-- Enough memory is free: for a manager and its page directory, for the pages of the window with
their tables, for the walk and for the file object. -/
structure ExecEnv.Enough (env : ExecEnv) (s : Exec) : Prop where
  lmm : ∃ p, env.lmmBlock = some p ∧ s.mm p = none ∧ s.lmm ≠ some p
  pgd : env.pgdBlock = true
  pages : env.PagesReady
  grown : env.grown = none
  entry : ∀ node name, env.walk.memory.entry node name = true
  buffer : ∀ node name, env.walk.memory.buffer node name = true
  node : ∀ node name, env.walk.memory.node node name = true
  filp : ∃ filp, env.filp = some filp

/-- **No program is executed**, whatever the task and the path: a call that returns returns an
error. -/
theorem execve_loads (s : Exec) (env : ExecEnv) (size : Nat) (byte : Nat → Option UInt8) :
    (∀ s' r, doExecve s env = some (s', r) → IsError r) ∧
    ¬ ∃ s' r, s.Executes env size byte s' r := by
  have herr : ∀ s' r, doExecve s env = some (s', r) → IsError r := fun s' r he => (fails_cases he).1
  refine ⟨herr, ?_⟩
  rintro ⟨s', r, h⟩
  exact h.ok (herr s' r h.call)

/-- The file `A` of 100 bytes is not executed, with memory for everything. -/
theorem execve_no_file : ¬ ∀ (s : Exec) (env : ExecEnv) (inode : Inode) (chain : List Nat),
    env.Names inode chain → env.Enough s →
    ∃ s' r, s.Executes env inode.fileSize (fileByte env.walk.sb env.walk.disk chain) s' r := by
  intro hall
  have hchain : FileChain exampleSb entryDisk ⟨100, 5, 2, 0, 0, 0⟩ [5] := {
    first := rfl
    linked := List.isChain_singleton 5
    last := fun c hc => by
      cases hc
      decide +kernel
    cluster := fun c hc => by
      rw [List.mem_singleton.mp hc]
      decide
    nodup := List.nodup_singleton 5
    size := by decide
    dentry := show DataCluster exampleSb 2 by decide
    notMem := show 2 ∉ [5] by decide
    slot := by decide }
  have hnames : exampleExec.Names ⟨100, 5, 2, 0, 0, 0⟩ [5] := {
    node := ⟨entryNode, .last entryNode_found, ⟨by decide +kernel, by decide +kernel⟩, by decide +kernel, rfl⟩
    chain := hchain
    size := by decide }
  have henough : exampleExec.Enough exampleVfork := {
    lmm := ⟨0x3000, rfl, rfl, by decide⟩
    pgd := rfl
    pages := exampleExec_ready
    grown := rfl
    entry := fun _ _ => rfl
    buffer := fun _ _ => rfl
    node := fun _ _ => rfl
    filp := ⟨0x4000, rfl⟩ }
  obtain ⟨s', r, h⟩ := hall _ _ _ _ hnames henough
  exact h.ok (fails_cases h.call).1

end Talios
