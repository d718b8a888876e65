import Talios.Memory.KernelRun

set_option autoImplicit false

/-! # Kernel stacks and `CURRENT`

A task is known by the address of its `TaskStruct`, which is the start of its kernel stack:
`GetCurrent` clears the low bits of the stack pointer. Two places rely on it. `DoPageFault` looks
up the faulting task so, and `do_fork` lays out the stack of a new task so.

The first part follows a page fault from the gate of `SysVectorInit` through the stacks of the
TSS that `main` sets up to `DoPageFault` and `ret_from_exception`. The second part looks at the
block that `do_fork` allocates for a task.
-/

namespace Talios

open Word

def STACK_SIZE : Nat := 32768

/-- `sizeof(TaskStruct)`: 16 words, 20 file handles, two links. -/
def TASK_STRUCT_SIZE : Nat := 288

/-- `sizeof(struct ThreadStruct)`. -/
def THREAD_STRUCT_SIZE : Nat := 64

/-- `sizeof(struct PtRegs)`. -/
def PT_REGS_SIZE : Nat := 192

/-- `GetCurrent`, with the stack pointer at `rsp`. -/
def getCurrent (rsp : Nat) : Nat := alignDown STACK_SIZE rsp

/-! ## Gates and stacks -/

structure GateStruct where
  low : Nat
  high : Nat

/-- `SetIdtGate`. -/
def setIdtGate (flag ist addr : Nat) : GateStruct where
  low := (addr % 2 ^ 16 + addr / 2 ^ 16 % 2 ^ 16 * 2 ^ 48 + flag * 2 ^ 40 + ist * 2 ^ 32
    + 0x8 * 2 ^ 16) % 2 ^ 64
  high := addr / 2 ^ 32

/-- `SetTrapGate`. -/
def setTrapGate (ist addr : Nat) : GateStruct := setIdtGate 0x8F ist addr

/-- The entry points of `entry.S`. -/
structure TrapEntries where
  divideError : Nat
  invalidTSS : Nat
  pageFault : Nat
  generalPurpose : Nat
  doubleFault : Nat
  alignmentCheckFault : Nat
  undefinedOpcodeFault : Nat

/-- `SysVectorInit` on the descriptor table. -/
def sysVectorInit (e : TrapEntries) (idt : Nat → GateStruct) : Nat → GateStruct
  | 0 => setTrapGate 1 e.divideError
  | 10 => setTrapGate 1 e.invalidTSS
  | 14 => setTrapGate 1 e.pageFault
  | 13 => setTrapGate 1 e.generalPurpose
  | 8 => setTrapGate 1 e.doubleFault
  | 17 => setTrapGate 1 e.alignmentCheckFault
  | 6 => setTrapGate 1 e.undefinedOpcodeFault
  | n => idt n

/-- The stacks of `struct TssStruct`; `ist n` is `istn`. -/
structure TssStruct where
  rsp0 : Nat
  rsp1 : Nat
  rsp2 : Nat
  ist : Nat → Nat

/-- `main` on the TSS of the boot processor: `SetTss`, then the block at `ist` for all of
`ist1` to `ist7`. -/
def mainTss (stackStart ist : Nat) : TssStruct :=
  let tss : TssStruct := ⟨stackStart, stackStart, stackStart, fun _ => 0xffff800000007c00⟩
  { tss with ist := fun _ => ist + STACK_SIZE }

/-- `__Switch_To` on the TSS, to a task with this `rsp0`: it is set, the rest written again. -/
def switchTss (tss : TssStruct) (rsp0 : Nat) : TssStruct :=
  let tss := { tss with rsp0 := rsp0 }
  ⟨tss.rsp0, tss.rsp1, tss.rsp2, tss.ist⟩

/-! ## A page fault -/

inductive CpuMode
  | user | kernel

/-- The stack the processor switches to for a gate: that of its interrupt stack table if the gate
names one, else `rsp0` when it comes from user mode. -/
def gateStack (tss : TssStruct) (gate : GateStruct) (mode : CpuMode) (rsp : Nat) : Nat :=
  if gate.low / 2 ^ 32 % 8 ≠ 0 then tss.ist (gate.low / 2 ^ 32 % 8)
  else match mode with
    | .user => tss.rsp0
    | .kernel => rsp

/-- The stack pointer at `page_fault`: the processor has pushed `ss`, `rsp`, the flags, `cs`,
`rip` and the error code on the aligned stack. -/
def faultRsp (tss : TssStruct) (gate : GateStruct) (mode : CpuMode) (rsp : Nat) : Nat :=
  alignDown 16 (gateStack tss gate mode rsp) - 6 * 8

/-- `CURRENT` in `DoPageFault`: `page_fault` pushes the function, `error_code` 17 registers and
the return address; `frame` is what `DoPageFault` itself has on the stack. -/
def doPageFaultCurrent (tss : TssStruct) (gate : GateStruct) (mode : CpuMode) (rsp frame : Nat) :
    Nat :=
  getCurrent (faultRsp tss gate mode rsp - 8 - 17 * 8 - 8 - frame)

/-- `CURRENT` in `ret_from_exception`, after the call has returned. -/
def retFromExceptionCurrent (tss : TssStruct) (gate : GateStruct) (mode : CpuMode) (rsp : Nat) :
    Nat :=
  getCurrent (faultRsp tss gate mode rsp - 8 - 17 * 8)

/-- All gates of `SysVectorInit` name `ist1`. -/
theorem setTrapGate_ist (addr : Nat) : (setTrapGate 1 addr).low / 2 ^ 32 % 8 = 1 := by
  show (addr % 2 ^ 16 + addr / 2 ^ 16 % 2 ^ 16 * 2 ^ 48 + 0x8F * 2 ^ 40 + 1 * 2 ^ 32
    + 0x8 * 2 ^ 16) % 2 ^ 64 / 2 ^ 32 % 8 = 1
  omega

/-- A switch keeps the interrupt stacks. -/
theorem foldl_switchTss_ist (l : List Nat) (tss : TssStruct) :
    (l.foldl switchTss tss).ist = tss.ist := by
  induction l generalizing tss with
  | nil => rfl
  | cons r l ih => exact ih (switchTss tss r)

/-- Below the top of an aligned block, `CURRENT` is the block. -/
theorem getCurrent_eq {p d : Nat} (hp : STACK_SIZE ∣ p) (h0 : 0 < d) (hd : d ≤ STACK_SIZE) :
    getCurrent (p + STACK_SIZE - d) = p := by
  obtain ⟨q, rfl⟩ := hp
  unfold getCurrent alignDown STACK_SIZE at *
  omega

/-- A page fault is taken at the end of the interrupt stack, in any mode and after any switches. -/
theorem alignDown_gateStack {p : Nat} (hp : STACK_SIZE ∣ p) (e : TrapEntries)
    (idt : Nat → GateStruct) (stackStart : Nat) (switches : List Nat) (mode : CpuMode) (rsp : Nat) :
    alignDown 16 (gateStack (switches.foldl switchTss (mainTss stackStart p))
      (sysVectorInit e idt 14) mode rsp) = p + STACK_SIZE := by
  unfold gateStack
  rw [show sysVectorInit e idt 14 = setTrapGate 1 e.pageFault from rfl, setTrapGate_ist,
    if_pos (by decide), foldl_switchTss_ist]
  show alignDown 16 (p + STACK_SIZE) = p + STACK_SIZE
  obtain ⟨q, rfl⟩ := hp
  unfold alignDown STACK_SIZE
  omega

/-- **Whoever faults, `CURRENT` is the interrupt stack.** -/
theorem pageFault_current {p : Nat} (hp : STACK_SIZE ∣ p) (e : TrapEntries)
    (idt : Nat → GateStruct) (stackStart : Nat) (switches : List Nat) (mode : CpuMode) (rsp : Nat) :
    (∀ frame, frame + 200 ≤ STACK_SIZE →
      doPageFaultCurrent (switches.foldl switchTss (mainTss stackStart p))
        (sysVectorInit e idt 14) mode rsp frame = p) ∧
    retFromExceptionCurrent (switches.foldl switchTss (mainTss stackStart p))
      (sysVectorInit e idt 14) mode rsp = p := by
  unfold doPageFaultCurrent retFromExceptionCurrent faultRsp
  rw [alignDown_gateStack hp e idt stackStart switches mode rsp]
  constructor
  · intro frame hf
    rw [show p + STACK_SIZE - 6 * 8 - 8 - 17 * 8 - 8 - frame
      = p + STACK_SIZE - (200 + frame) by omega]
    exact getCurrent_eq hp (by omega) (by omega)
  · rw [show p + STACK_SIZE - 6 * 8 - 8 - 17 * 8 = p + STACK_SIZE - 192 by omega]
    exact getCurrent_eq hp (by decide) (by decide)

/-! ## The interrupt stack is no task -/

/-- The tasks of the kernel: that of the image, and the blocks of `do_fork`. -/
def IsTask (img : KernelImage) (k : Kernel) (t : Nat) : Prop :=
  t < img.endStruct ∨ (⟨t, TASK_STRUCT_SIZE⟩ : Obj) ∈ k.live

/-- The class of a block of `STACK_SIZE` bytes has not grown. -/
theorem HeapInv.stack_class {m₀ : MMS} {pool : Nat → Slab} {s : KMem} {out : Nat → Nat}
    {objs : List Obj} (h : HeapInv m₀ pool s out objs) {p : Nat}
    (hp : (⟨p, STACK_SIZE⟩ : Obj) ∈ objs) :
    ∃ i < KMALLOC_SLAB_SIZE, 10 ≤ i ∧ ∃ j, p = (pool i).vaddress + j * kmallocSize i := by
  obtain ⟨i, hi, t, ht, j, -, hpe, hle, -⟩ := h.locate hp
  have hi10 : 10 ≤ i := by
    by_contra hlt
    have h9 := kmallocSize_mono (show i ≤ 9 by omega)
    have : kmallocSize 9 < STACK_SIZE := by decide
    dsimp only at hle
    omega
  rcases h.rings.cases hi ht with rfl | ⟨-, hg⟩
  · exact ⟨i, hi, hi10, j, hpe⟩
  · have := hg.small
    omega

theorem istStack_spec {img : KernelImage} {k : Kernel} (hk : KernelReachable img k) {p : Nat}
    (hp : (⟨p, STACK_SIZE⟩ : Obj) ∈ k.live) :
    STACK_SIZE ∣ p ∧ ∀ t, IsTask img k t → t ≠ p := by
  obtain ⟨i, hi, hi10, j, hpe⟩ := hk.inv.heap.stack_class hp
  refine ⟨?_, ?_⟩
  · have hsz : STACK_SIZE ∣ kmallocSize i := by
      obtain ⟨d, rfl⟩ : ∃ d, i = 10 + d := ⟨i - 10, by omega⟩
      refine ⟨2 ^ d, ?_⟩
      unfold kmallocSize STACK_SIZE
      rw [pow_add]
      omega
    have hpg : STACK_SIZE ∣ (cachePool img.endStruct i).vaddress :=
      Nat.dvd_trans (by decide) ((poolLayout_init img).page i hi)
    rw [hpe]
    exact Nat.dvd_add hpg (Dvd.dvd.mul_left hsz j)
  · rintro t (ht | ht) rfl
    · -- the image ends before the first pages of the heap
      have h1 := (poolPage_bounds (e := img.endStruct) hi).1
      have h2 := le_endStructDone img.endStruct (Nat.zero_le KMALLOC_SLAB_SIZE)
      have h3 : (cachePool img.endStruct i).vaddress = poolPage img.endStruct i := rfl
      have h4 : endStructAt img.endStruct 0 = img.endStruct := rfl
      omega
    · -- two blocks of the heap have two addresses
      have := List.inj_on_of_nodup_map hk.inv.heap.nodup ht hp rfl
      exact absurd (congrArg Obj.size this) (show ¬ TASK_STRUCT_SIZE = STACK_SIZE by decide)

/-- **`DoPageFault` looks at no task**: the block that `CURRENT` denotes there and in
`ret_from_exception` is the interrupt stack, whichever task has faulted, in whichever mode, after
any number of task switches. -/
theorem pageFault_no_task {img : KernelImage} {k : Kernel} (hk : KernelReachable img k) {p : Nat}
    (hp : (⟨p, STACK_SIZE⟩ : Obj) ∈ k.live) {t : Nat} (ht : IsTask img k t) (e : TrapEntries)
    (idt : Nat → GateStruct) (stackStart : Nat) (switches : List Nat) (mode : CpuMode) (rsp : Nat) :
    (∀ frame, frame + 200 ≤ STACK_SIZE →
      doPageFaultCurrent (switches.foldl switchTss (mainTss stackStart p))
        (sysVectorInit e idt 14) mode rsp frame ≠ t) ∧
    retFromExceptionCurrent (switches.foldl switchTss (mainTss stackStart p))
      (sysVectorInit e idt 14) mode rsp ≠ t := by
  obtain ⟨hal, hne⟩ := istStack_spec hk hp
  obtain ⟨h1, h2⟩ := pageFault_current hal e idt stackStart switches mode rsp
  refine ⟨fun frame hf => ?_, ?_⟩
  · rw [h1 frame hf]
    exact (hne t ht).symm
  · rw [h2]
    exact (hne t ht).symm

/-- The example's kernel once `main` has allocated the interrupt stack. -/
theorem istStack_example : ∃ k p, KernelReachable exampleImage k ∧
    (⟨p, STACK_SIZE⟩ : Obj) ∈ k.live := by
  obtain ⟨mem, he, hinv, hfree⟩ := exampleInv_boot
  have h10 : 10 < KMALLOC_SLAB_SIZE := by decide
  have hf : (mem.cache 10).totalFree ≠ 0 := by rw [hfree 10]; decide
  have h1 : STACK_SIZE ≤ kmallocSize 10 := by decide
  have h2 : ∀ j < 10, kmallocSize j < STACK_SIZE := by decide
  have hheap : HeapInv _ _ mem (fun _ => 0) [] := hinv.inv
  obtain ⟨mem', p, hk, -⟩ := hheap.kmalloc_pool (poolLayout_init exampleImage) h10
    (hinv.tails 10 h10) hf h1 h2 (kmallocWith (fun _ _ => none))
  exact ⟨_, p, (KernelReachable.boot he).step
    (KernelStep.kmalloc _ (hinv.heapRoom h10 hf h1 h2) hk), List.mem_cons_self⟩

/-- A fault of the first task in user mode. -/
theorem pageFault_no_task_example : ∃ k p, KernelReachable exampleImage k ∧
    (⟨p, STACK_SIZE⟩ : Obj) ∈ k.live ∧ ∀ e idt,
      retFromExceptionCurrent (mainTss 0 p) (sysVectorInit e idt 14) .user 0 ≠ PAGE_OFFSET := by
  obtain ⟨k, p, hk, hp⟩ := istStack_example
  have ht : IsTask exampleImage k PAGE_OFFSET := Or.inl (by decide)
  exact ⟨k, p, hk, hp, fun e idt => (pageFault_no_task hk hp ht e idt 0 [] .user 0).2⟩

theorem pageFault_current_false : ¬ ∀ (img : KernelImage) (k : Kernel) (p t : Nat)
    (e : TrapEntries) (idt : Nat → GateStruct) (stackStart : Nat) (switches : List Nat)
    (mode : CpuMode) (rsp frame : Nat), KernelReachable img k →
      (⟨p, STACK_SIZE⟩ : Obj) ∈ k.live → IsTask img k t → frame + 200 ≤ STACK_SIZE →
      doPageFaultCurrent (switches.foldl switchTss (mainTss stackStart p))
        (sysVectorInit e idt 14) mode rsp frame = t := by
  intro hall
  obtain ⟨k, p, hk, hp⟩ := istStack_example
  have ht : IsTask exampleImage k PAGE_OFFSET := Or.inl (by decide)
  obtain ⟨hal, hne⟩ := istStack_spec hk hp
  have h1 := hall exampleImage k p PAGE_OFFSET ⟨0, 0, 0, 0, 0, 0, 0⟩ (fun _ => ⟨0, 0⟩) 0 [] .user 0 0
    hk hp ht (by decide)
  have h2 := (pageFault_current hal ⟨0, 0, 0, 0, 0, 0, 0⟩ (fun _ => ⟨0, 0⟩) 0 [] .user 0).1 0
    (by decide)
  exact hne _ ht (h1.symm.trans h2)

/-! ## The block of a new task -/

/-- A state of the heap that `kmalloc` and `kfree` can meet: any calls, and any change of memory,
of the page allocator and of the slabs in between. Only the sizes of `KmallocSlabSet` are fixed. -/
inductive HeapMet (img : KernelImage) : KMem → Prop
  | boot {s : KMem} (h : initMemory img = some s) : HeapMet img s
  | kmalloc {s s' : KMem} {r : Option Nat} (h : HeapMet img s) (size : Nat)
      (he : kmalloc s size = some (s', r)) : HeapMet img s'
  | kfree {s s' : KMem} {ok : Bool} (h : HeapMet img s) (ptr : Nat)
      (he : kfree s ptr = some (s', ok)) : HeapMet img s'
  | change {s s' : KMem} (h : HeapMet img s) (hs : ∀ i, (s'.cache i).size = (s.cache i).size) :
      HeapMet img s'

/-- The bytes of the object that `kmalloc(size)` hands out at `p`: one of the chosen class. -/
def ObjectHas (s : KMem) (size p a : Nat) : Prop :=
  ∃ i, findClass s size KMALLOC_SLAB_SIZE 0 = some i ∧ p ≤ a ∧ a < p + (s.cache i).size

/-- What `copy_thread` and `GetCurrent` take for granted about the block `p` that `do_fork` gets
in the state `s`: `PtRegs` at the end of the stack, `ThreadStruct` behind the task. -/
structure OwnsStack (s : KMem) (live : List Obj) (p : Nat) : Prop where
  aligned : STACK_SIZE ∣ p
  covers : ∀ a, p ≤ a → a < p + STACK_SIZE → ObjectHas s TASK_STRUCT_SIZE p a
  current : ∀ rsp, p ≤ rsp → rsp < p + STACK_SIZE → getCurrent rsp = p
  regs : ∀ a, p + STACK_SIZE - PT_REGS_SIZE ≤ a → a < p + STACK_SIZE →
    ObjectHas s TASK_STRUCT_SIZE p a ∧ ∀ b ∈ live, ¬ b.Has a
  thread : ∀ a, p + TASK_STRUCT_SIZE ≤ a → a < p + TASK_STRUCT_SIZE + THREAD_STRUCT_SIZE →
    ObjectHas s TASK_STRUCT_SIZE p a ∧ ∀ b ∈ live, ¬ b.Has a

section

variable {s s' : KMem}

theorem setCache_size (s : KMem) (i : Nat) {c : SlabCache} (hc : c.size = (s.cache i).size)
    (j : Nat) : ((s.setCache i c).cache j).size = (s.cache j).size := by
  by_cases h : j = i
  · rw [h, setCache_cache_self, hc]
  · rw [setCache_cache_ne _ h]

theorem allocSlab_size {i : Nat} {r : Option Nat} (h : some (allocSlab s i) = some (s', r))
    (j : Nat) : (s'.cache j).size = (s.cache j).size := by
  unfold allocSlab at h
  dsimp only at h
  split at h
  · cases h
    refine setCache_size _ i ?_ j
    rfl
  · cases h
    rfl

theorem growSmall_size (i page j : Nat) :
    ((growSmall s i page).cache j).size = (s.cache j).size := by
  refine setCache_size _ i ?_ j
  rfl

theorem growLarge_size (i page addr j : Nat) :
    ((growLarge s i page addr).cache j).size = (s.cache j).size := by
  refine setCache_size _ i ?_ j
  rfl

/-- `kmalloc` changes no size. -/
theorem kmallocWith_size {nested : KMem → Nat → Option (KMem × Option Nat)}
    (hn : ∀ t n t' r, nested t n = some (t', r) → ∀ j, (t'.cache j).size = (t.cache j).size)
    {size : Nat} {r : Option Nat} (h : kmallocWith nested s size = some (s', r)) (j : Nat) :
    (s'.cache j).size = (s.cache j).size := by
  unfold kmallocWith at h
  split at h
  · cases h; rfl
  split at h
  · cases h; rfl
  rename_i i _
  split at h
  · split at h
    · cases h
    · cases h; rfl
    · dsimp only at h
      split at h
      · rw [allocSlab_size h, growSmall_size]
      split at h
      · split at h
        · rename_i s₂ addr he
          rw [allocSlab_size h, growLarge_size, hn _ _ _ _ he j]
        · cases h
      · obtain ⟨r, -, hr⟩ := Option.map_eq_some_iff.mp h
        cases hr; rfl
  · exact allocSlab_size h j

theorem kmalloc_size {size : Nat} {r : Option Nat} (h : kmalloc s size = some (s', r)) (j : Nat) :
    (s'.cache j).size = (s.cache j).size :=
  kmallocWith_size (fun _ _ _ _ he =>
    kmallocWith_size (fun _ _ _ _ hf => absurd hf (by simp)) he) h j

theorem releaseObject_size (i : Nat) (slab : Slab) (ptr j : Nat) :
    ((releaseObject s i slab ptr).cache j).size = (s.cache j).size := by
  refine setCache_size _ i ?_ j
  rfl

theorem dropSlab_size {i use : Nat} {slab : Slab} (h : dropSlab s i slab use = some s') (j : Nat) :
    (s'.cache j).size = (s.cache j).size := by
  unfold dropSlab at h
  obtain ⟨r, -, rfl⟩ := Option.map_eq_some_iff.mp h
  refine setCache_size _ i ?_ j
  rfl

/-- `kfree` changes no size. -/
theorem kfreeWith_size {nested : KMem → Nat → Option (KMem × Bool)}
    (hn : ∀ t p t' r, nested t p = some (t', r) → ∀ j, (t'.cache j).size = (t.cache j).size)
    {ptr : Nat} {r : Bool} (h : kfreeWith nested s ptr = some (s', r)) (j : Nat) :
    (s'.cache j).size = (s.cache j).size := by
  unfold kfreeWith at h
  split at h
  · cases h; rfl
  dsimp only at h
  split at h
  · cases h
    exact releaseObject_size _ _ _ j
  split at h
  · obtain ⟨s₂, he, hr⟩ := Option.map_eq_some_iff.mp h
    cases hr
    rw [dropSlab_size he, releaseObject_size]
  · split at h
    · cases h
    · rename_i s₂ he
      obtain ⟨r', hr, hr'⟩ := Option.map_eq_some_iff.mp h
      cases hr'
      rw [hn _ _ _ _ hr j, dropSlab_size he, releaseObject_size]

theorem kfree_size {ptr : Nat} {r : Bool} (h : kfree s ptr = some (s', r)) (j : Nat) :
    (s'.cache j).size = (s.cache j).size :=
  kfreeWith_size (fun _ _ _ _ he =>
    kfreeWith_size (fun _ _ _ _ hf => absurd hf (by simp)) he) h j

end

theorem HeapMet.size {img : KernelImage} {s : KMem} (h : HeapMet img s) (i : Nat) :
    (s.cache i).size = kmallocSize i := by
  induction h with
  | boot h =>
      unfold initMemory at h
      obtain ⟨m, -, rfl⟩ := Option.map_eq_some_iff.mp h
      rfl
  | kmalloc _ _ he ih => rw [kmalloc_size he, ih]
  | kfree _ _ he ih => rw [kfree_size he, ih]
  | change _ hs ih => rw [hs, ih]

/-- **No task owns its stack**: the block of `do_fork` is an object of 0x200 bytes, and `PtRegs`
lies outside of it, in every state in which the allocation succeeds. -/
theorem fork_not_ownsStack {img : KernelImage} {s s' : KMem} (hs : HeapMet img s) {p : Nat}
    (_he : kmalloc s TASK_STRUCT_SIZE = some (s', some p)) (live : List Obj) :
    (∀ a, ObjectHas s TASK_STRUCT_SIZE p a ↔ p ≤ a ∧ a < p + 0x200) ∧ ¬ OwnsStack s live p := by
  have hc : findClass s TASK_STRUCT_SIZE KMALLOC_SLAB_SIZE 0 = some 4 :=
    findClass_eq (fun i _ => hs.size i) (by decide) (by decide) (by decide)
  have hobj : ∀ a, ObjectHas s TASK_STRUCT_SIZE p a ↔ p ≤ a ∧ a < p + 0x200 := by
    intro a
    have h4 : (s.cache 4).size = 0x200 := hs.size 4
    constructor
    · rintro ⟨i, hi, ha⟩
      obtain rfl := Option.some.inj (hc.symm.trans hi)
      rwa [h4] at ha
    · intro ha
      exact ⟨4, hc, by rwa [h4]⟩
  refine ⟨hobj, fun h => ?_⟩
  obtain ⟨hin, -⟩ := h.regs (p + STACK_SIZE - PT_REGS_SIZE) le_rfl (by
    unfold STACK_SIZE PT_REGS_SIZE
    omega)
  rw [hobj] at hin
  unfold STACK_SIZE PT_REGS_SIZE at hin
  omega

/-- The first task allocation of the example's kernel. -/
theorem forkBlock_example : ∃ s s' p, HeapMet exampleImage s ∧
    kmalloc s TASK_STRUCT_SIZE = some (s', some p) := by
  obtain ⟨mem, he, hinv, hfree⟩ := exampleInv_boot
  have h4 : 4 < KMALLOC_SLAB_SIZE := by decide
  have hf : (mem.cache 4).totalFree ≠ 0 := by rw [hfree 4]; decide
  have hheap : HeapInv _ _ mem (fun _ => 0) [] := hinv.inv
  obtain ⟨mem', p, hk, -⟩ := hheap.kmalloc_pool (poolLayout_init exampleImage) h4
    (hinv.tails 4 h4) hf (show TASK_STRUCT_SIZE ≤ kmallocSize 4 by decide) (by decide)
    (kmallocWith (fun _ _ => none))
  exact ⟨mem, mem', p, HeapMet.boot he, hk⟩

theorem fork_not_ownsStack_example : ∃ s s' p, HeapMet exampleImage s ∧
    kmalloc s TASK_STRUCT_SIZE = some (s', some p) ∧ ¬ OwnsStack s [] p := by
  obtain ⟨s, s', p, hs, he⟩ := forkBlock_example
  exact ⟨s, s', p, hs, he, (fork_not_ownsStack hs he []).2⟩

theorem ownsStack_false : ¬ ∀ (img : KernelImage) (s s' : KMem) (live : List Obj) (p : Nat),
    HeapMet img s → kmalloc s TASK_STRUCT_SIZE = some (s', some p) → OwnsStack s live p := by
  intro hall
  obtain ⟨s, s', p, hs, he⟩ := forkBlock_example
  have hcov := (hall _ s s' [] p hs he).covers (p + 0x200) (Nat.le_add_right _ _)
    (Nat.add_lt_add_left (by decide) p)
  obtain ⟨i, hi, -, hlt⟩ := hcov
  have hc : findClass s TASK_STRUCT_SIZE KMALLOC_SLAB_SIZE 0 = some 4 :=
    findClass_eq (fun i _ => hs.size i) (by decide) (by decide) (by decide)
  obtain rfl := Option.some.inj (hc.symm.trans hi)
  have h4 : (s.cache 4).size = 0x200 := hs.size 4
  omega

end Talios
