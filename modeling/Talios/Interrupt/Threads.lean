import Talios.Interrupt.Gate
import Talios.Interrupt.SystemCall

set_option autoImplicit false

/-! # Tasks that are switched

`SWITCH_TO` with `__Switch_To`, `copy_thread`, and the threads of the kernel, on one memory with a stack for each
task at the top of its block. The task that runs is the one whose block the stack pointer is in.

Between two switches the running task does what it likes, but for the stacks of the waiting tasks, of which
it writes what they have lent out only: the nodes on a stack that stand in a list. `thread_resumes` and
`thread_starts` say what a task then finds when it is switched to: its stack pointer, its stack and `rax`,
and its own stack for the next entry into the kernel; but in the registers that a function of C keeps, what
the task before has had there.
-/

namespace Talios.Interrupt

open Machine

/-! ## Data -/

/-- `struct ThreadStruct`, without what belongs to faults. -/
structure ThreadStruct where
  rsp0 : Word
  rip : Word
  rsp : Word
  fs : Word
  gs : Word

/-- The addresses that a task is switched to. -/
structure Labels where
  behindSwitch : Word
  kernelThreadFunc : Word
  retSystemCall : Word
  kernelThreadFunc_ne : kernelThreadFunc ≠ behindSwitch
  retSystemCall_ne : retSystemCall ≠ behindSwitch

/-- The processor, and what is kept for the tasks, which are given by the addresses of their blocks. -/
structure Threads where
  cpu : Cpu
  fs : BitVec 16
  gs : BitVec 16
  thread : Word → ThreadStruct
  preemptCount : Word → Int
  tss : Tss
  sysenterEsp : Word

/-- What a function of C leaves where it need not keep anything. -/
structure Scratch where
  reg : Reg → Word
  rflags : Word
  mem : Word → Word

/-- The registers that a function of C keeps. -/
def calleeSaved : List Reg := [.rbx, .rbp, .r12, .r13, .r14, .r15]

/-- `GetCurrent`. -/
def getCurrent (rsp : Word) : Word := rsp &&& ~~~0x7fff

/-- `STACK_SIZE`. -/
def stackSize : Word := 0x8000

namespace Threads

/-! ## Switching -/

/-- The body of `__Switch_To`, on the stack that the stack pointer is at. -/
def body (x : Scratch) (c : Cpu) : Cpu :=
  { c with
    reg := fun r => if r ∈ calleeSaved then c.reg r else x.reg r
    rflags := x.rflags
    mem := fun a => if getCurrent a = getCurrent c.rsp ∧ a.toNat < c.rsp.toNat then x.mem a else c.mem a }

/-- `__Switch_To`. -/
def switchTo (s : Threads) (prev next : Word) (x : Scratch) : Threads :=
  let s := { s with tss := Interrupt.switchTo s.tss (s.thread next).rsp0 }
  let s := { s with sysenterEsp := (s.thread next).rsp0 }
  let thread := { s.thread prev with fs := s.fs.setWidth 64, gs := s.gs.setWidth 64 }
  let s := { s with thread := Function.update s.thread prev thread }
  let s := { s with fs := (s.thread next).fs.setWidth 16, gs := (s.thread next).gs.setWidth 16 }
  let s := { s with preemptCount := Function.update s.preemptCount prev (s.preemptCount prev - 1) }
  let s := { s with cpu := body x s.cpu }
  { s with cpu := { s.cpu with rip := s.cpu.mem s.cpu.rsp, rsp := s.cpu.rsp + 8 } }

/-- `SWITCH_TO` from the current task, up to `__Switch_To`. The operands are in registers before. -/
def switchEntry (n : Labels) (s : Threads) (next : Word) : Threads :=
  let prev := getCurrent s.cpu.rsp
  let rsp := (s.thread next).rsp
  let rip := (s.thread next).rip
  let s := { s with cpu := s.cpu.push (s.cpu.reg .rax) }
  let s := { s with thread := Function.update s.thread prev { s.thread prev with rsp := s.cpu.rsp } }
  let s := { s with cpu := { s.cpu with rsp := rsp } }
  let s := { s with cpu := s.cpu.set .rax n.behindSwitch }
  let s := { s with thread := Function.update s.thread prev { s.thread prev with rip := s.cpu.reg .rax } }
  { s with cpu := s.cpu.push rip }

/-- `SWITCH_TO`, with the instruction behind its label where the processor comes to it. -/
def SWITCH_TO (n : Labels) (s : Threads) (next : Word) (x : Scratch) : Threads :=
  let s' := (s.switchEntry n next).switchTo (getCurrent s.cpu.rsp) next x
  if s'.cpu.rip = n.behindSwitch then { s' with cpu := { s'.cpu with toState := s'.cpu.pop .rax } } else s'

/-- Stores to memory, and to what is kept for the tasks. -/
def write (s : Threads) (mem : Word → Word) (thread : Word → ThreadStruct) : Threads :=
  { s with cpu := { s.cpu with mem := mem }, thread := thread }

@[simp] theorem write_rsp (s : Threads) (mem : Word → Word) (thread : Word → ThreadStruct) :
    (s.write mem thread).cpu.rsp = s.cpu.rsp := rfl

@[simp] theorem write_mem (s : Threads) (mem : Word → Word) (thread : Word → ThreadStruct) :
    (s.write mem thread).cpu.mem = mem := rfl

@[simp] theorem write_thread (s : Threads) (mem : Word → Word) (thread : Word → ThreadStruct) :
    (s.write mem thread).thread = thread := rfl

@[simp] theorem write_sysenterEsp (s : Threads) (mem : Word → Word) (thread : Word → ThreadStruct) :
    (s.write mem thread).sysenterEsp = s.sysenterEsp := rfl

@[simp] theorem write_tss (s : Threads) (mem : Word → Word) (thread : Word → ThreadStruct) :
    (s.write mem thread).tss = s.tss := rfl

/-- `copy_thread`. The frame lies at the top of the block, as if it had been pushed there. -/
def copyThread (n : Labels) (s : Threads) (task : Word) (kthread : Bool) (regs : PtRegs) (stackStart : Nat) :
    Threads :=
  let childregs := regsWords (copyThreadRegs regs stackStart)
  let current := getCurrent s.cpu.rsp
  s.write (State.pushList ⟨s.cpu.reg, task + stackSize, s.cpu.mem⟩ childregs.reverse).mem
    (Function.update s.thread task
      ⟨task + stackSize, if kthread then n.kernelThreadFunc else n.retSystemCall, task + stackSize - 192,
        (s.thread current).fs, (s.thread current).gs⟩)

section

variable {n : Labels} {s : Threads} {task : Word} {kthread : Bool} {regs : PtRegs} {stackStart : Nat}

@[simp] theorem copyThread_rsp : (s.copyThread n task kthread regs stackStart).cpu.rsp = s.cpu.rsp :=
  write_rsp _ _ _

@[simp] theorem copyThread_sysenterEsp :
    (s.copyThread n task kthread regs stackStart).sysenterEsp = s.sysenterEsp :=
  write_sysenterEsp _ _ _

@[simp] theorem copyThread_tss : (s.copyThread n task kthread regs stackStart).tss = s.tss := write_tss _ _ _

theorem copyThread_self : (s.copyThread n task kthread regs stackStart).thread task =
    ⟨task + stackSize, if kthread then n.kernelThreadFunc else n.retSystemCall, task + stackSize - 192,
      (s.thread (getCurrent s.cpu.rsp)).fs, (s.thread (getCurrent s.cpu.rsp)).gs⟩ := by
  unfold copyThread
  rw [write_thread, Function.update_self]

theorem copyThread_of_ne {t : Word} (ht : t ≠ task) :
    (s.copyThread n task kthread regs stackStart).thread t = s.thread t := by
  unfold copyThread
  rw [write_thread, Function.update_of_ne ht]

end

end Threads

/-! ## Runs -/

/-- What a task that waits has been left with, and what of its stack it has lent out. -/
structure Left where
  rsp : Word
  rip : Word
  fs : Word
  gs : Word
  mem : Word → Word
  lent : Word → Prop

/-- The words that are for the task `t` alone: its stack, but for what it has lent out. -/
def Left.Owns (l : Left) (t a : Word) : Prop :=
  getCurrent a = t ∧ l.rsp.toNat ≤ a.toNat ∧ ¬ l.lent a

/-- What the current task is left with at a switch. -/
def Threads.leave (n : Labels) (s : Threads) (lent : Word → Prop) : Left :=
  ⟨s.cpu.rsp - 8, n.behindSwitch, s.fs.setWidth 64, s.gs.setWidth 64, (s.cpu.push (s.cpu.reg .rax)).mem, lent⟩

/-- What a task is left with by `copy_thread`. -/
def Threads.born (s : Threads) (task : Word) : Left :=
  ⟨(s.thread task).rsp, (s.thread task).rip, (s.thread task).fs, (s.thread task).gs, s.cpu.mem, fun _ => False⟩

/-- The kernel, and the tasks that wait to be switched to. -/
structure System where
  threads : Threads
  waiting : Word → Option Left

def System.current (y : System) : Word := getCurrent y.threads.cpu.rsp

inductive Event
  | run (cpu : Cpu) (fs gs : BitVec 16) (preemptCount : Word → Int)
  | copyThread (task : Word) (kthread : Bool) (regs : PtRegs) (stackStart : Nat)
  | switch (next : Word) (lent : Word → Prop) (x : Scratch)

/-- What happens. A new task has a block of its own, and a task that switches has room on its stack for what
the switch puts there. -/
inductive SystemStep (n : Labels) : System → Event → System → Prop
  | run {s : Threads} {w : Word → Option Left} {c : Cpu} {fs gs : BitVec 16} {preemptCount : Word → Int}
      (hcur : getCurrent c.rsp = getCurrent s.cpu.rsp)
      (hmem : ∀ t l, w t = some l → ∀ a, l.Owns t a → c.mem a = s.cpu.mem a) :
      SystemStep n ⟨s, w⟩ (.run c fs gs preemptCount)
        ⟨{ s with cpu := c, fs := fs, gs := gs, preemptCount := preemptCount }, w⟩
  | copyThread {s : Threads} {w : Word → Option Left} {task : Word} {kthread : Bool} {regs : PtRegs}
      {stackStart : Nat} (hblock : getCurrent task = task) (hnew : w task = none)
      (hne : task ≠ getCurrent s.cpu.rsp) (htop : task.toNat + 0x8000 < 2 ^ 64) :
      SystemStep n ⟨s, w⟩ (.copyThread task kthread regs stackStart)
        ⟨s.copyThread n task kthread regs stackStart,
          Function.update w task (some ((s.copyThread n task kthread regs stackStart).born task))⟩
  | switch {s : Threads} {w : Word → Option Left} {next : Word} {l : Left} {lent : Word → Prop} {x : Scratch}
      (hnext : w next = some l) (hroom : getCurrent (s.cpu.rsp - 16) = getCurrent s.cpu.rsp)
      (hlent : ¬ lent (s.cpu.rsp - 8)) :
      SystemStep n ⟨s, w⟩ (.switch next lent x)
        ⟨s.SWITCH_TO n next x,
          Function.update (Function.update w next none) (getCurrent s.cpu.rsp) (some (s.leave n lent))⟩

inductive SystemSteps (n : Labels) : System → List Event → System → Prop
  | nil {y : System} : SystemSteps n y [] y
  | cons {y y' z : System} {e : Event} {es : List Event} : SystemStep n y e y' → SystemSteps n y' es z →
      SystemSteps n y (e :: es) z

/-- After `TaskInit`: one task, and its stack is the one for entries into the kernel. -/
structure System.Boot (y : System) : Prop where
  alone : y.waiting = fun _ => none
  rsp0 : (y.threads.thread y.current).rsp0 = y.current + stackSize
  sysenterEsp : y.threads.sysenterEsp = y.current + stackSize
  tss : loadLong y.threads.tss (rspField 0) = y.current + stackSize

/-! ## Blocks -/

/-- The low bits are cleared. -/
theorem mask_toNat (n : Nat) (a : Word) :
    (a &&& ~~~BitVec.ofNat 64 (2 ^ n - 1)).toNat = a.toNat / 2 ^ n * 2 ^ n := by
  have hshift : a &&& ~~~BitVec.ofNat 64 (2 ^ n - 1) = a >>> n <<< n := by
    apply BitVec.eq_of_getLsbD_eq
    intro i hi
    rw [BitVec.getLsbD_and, BitVec.getLsbD_not, BitVec.getLsbD_shiftLeft, BitVec.getLsbD_ushiftRight,
      BitVec.getLsbD_ofNat, Nat.testBit_two_pow_sub_one]
    by_cases h : i < n
    · simp [h, hi]
    · have hadd : n + (i - n) = i := by omega
      rw [hadd]
      simp [h, hi]
  have hle : a.toNat / 2 ^ n * 2 ^ n ≤ a.toNat := Nat.div_mul_le_self _ _
  have ha := a.isLt
  rw [hshift, BitVec.toNat_shiftLeft, BitVec.toNat_ushiftRight, Nat.shiftLeft_eq, Nat.shiftRight_eq_div_pow]
  exact Nat.mod_eq_of_lt (by omega)

theorem getCurrent_toNat (a : Word) : (getCurrent a).toNat = a.toNat / 2 ^ 15 * 2 ^ 15 := by
  have hmask : ~~~(0x7fff : Word) = ~~~BitVec.ofNat 64 (2 ^ 15 - 1) := by decide
  unfold getCurrent
  rw [hmask, mask_toNat]

theorem getCurrent_idem (a : Word) : getCurrent (getCurrent a) = getCurrent a := by
  apply BitVec.eq_of_toNat_eq
  rw [getCurrent_toNat, getCurrent_toNat]
  omega

/-- A block has the addresses of its size. -/
theorem getCurrent_eq_iff {a t : Word} (ht : getCurrent t = t) :
    getCurrent a = t ↔ t.toNat ≤ a.toNat ∧ a.toNat < t.toNat + 0x8000 := by
  have hnat := getCurrent_toNat t
  rw [ht] at hnat
  rw [← BitVec.toNat_inj, getCurrent_toNat]
  omega

/-- Words further down in a block. -/
theorem toNat_sub_of_block {a d : Word} (hd : d.toNat < 2 ^ 15) (h : getCurrent (a - d) = getCurrent a) :
    (a - d).toNat = a.toNat - d.toNat ∧ d.toNat ≤ a.toNat := by
  have hnat := congrArg BitVec.toNat h
  have ha := a.isLt
  have hsub := BitVec.toNat_sub a d
  rw [getCurrent_toNat, getCurrent_toNat] at hnat
  omega

/-- What lies between two words of a block. -/
theorem getCurrent_between {a b c t : Word} (ha : getCurrent a = t) (hc : getCurrent c = t)
    (hab : a.toNat ≤ b.toNat) (hbc : b.toNat ≤ c.toNat) : getCurrent b = t := by
  have ht : getCurrent t = t := by rw [← ha, getCurrent_idem]
  rw [getCurrent_eq_iff ht] at ha hc ⊢
  omega

/-- The words below the top of a block. -/
theorem getCurrent_top {t d : Word} (ht : getCurrent t = t) (htop : t.toNat + 0x8000 < 2 ^ 64)
    (h0 : 0 < d.toNat) (hd : d.toNat ≤ 0x8000) : getCurrent (t + stackSize - d) = t := by
  have hsize : stackSize.toNat = 0x8000 := rfl
  have hsub := BitVec.toNat_sub (t + stackSize) d
  have hadd := BitVec.toNat_add t stackSize
  rw [getCurrent_eq_iff ht]
  omega

/-! ## A switch -/

section

variable {n : Labels} {s : Threads} {next : Word} {x : Scratch}

/-- What a switch does, from the task that runs to another one. -/
structure Switched (n : Labels) (s : Threads) (next : Word) (d : Threads) : Prop where
  rip : d.cpu.rip = (s.thread next).rip
  rsp : d.cpu.rsp = if (s.thread next).rip = n.behindSwitch then (s.thread next).rsp + 8 else (s.thread next).rsp
  rax : (s.thread next).rip = n.behindSwitch →
    d.cpu.reg .rax = (s.cpu.push (s.cpu.reg .rax)).mem (s.thread next).rsp
  saved : ∀ r ∈ calleeSaved, d.cpu.reg r = s.cpu.reg r
  mem : ∀ a, (getCurrent a = next → (s.thread next).rsp.toNat ≤ a.toNat) →
    d.cpu.mem a = (s.cpu.push (s.cpu.reg .rax)).mem a
  thread : d.thread = Function.update s.thread (getCurrent s.cpu.rsp)
    ⟨(s.thread (getCurrent s.cpu.rsp)).rsp0, n.behindSwitch, s.cpu.rsp - 8, s.fs.setWidth 64, s.gs.setWidth 64⟩
  fs : d.fs = (s.thread next).fs.setWidth 16
  gs : d.gs = (s.thread next).gs.setWidth 16
  sysenterEsp : d.sysenterEsp = (s.thread next).rsp0
  tss : loadLong d.tss (rspField 0) = (s.thread next).rsp0

/-- `__Switch_To`, entered from `SWITCH_TO`. -/
theorem switchTo_switchEntry (hne : next ≠ getCurrent s.cpu.rsp) (hin : getCurrent (s.thread next).rsp = next)
    (hroom : getCurrent ((s.thread next).rsp - 8) = next) {d : Threads}
    (hd : d = (s.switchEntry n next).switchTo (getCurrent s.cpu.rsp) next x) :
    d.cpu.rip = (s.thread next).rip ∧ d.cpu.rsp = (s.thread next).rsp ∧
    (∀ r ∈ calleeSaved, d.cpu.reg r = s.cpu.reg r) ∧
    (∀ a, (getCurrent a = next → (s.thread next).rsp.toNat ≤ a.toNat) →
      d.cpu.mem a = (s.cpu.push (s.cpu.reg .rax)).mem a) ∧
    d.thread = Function.update s.thread (getCurrent s.cpu.rsp) ⟨(s.thread (getCurrent s.cpu.rsp)).rsp0,
      n.behindSwitch, s.cpu.rsp - 8, s.fs.setWidth 64, s.gs.setWidth 64⟩ ∧
    d.fs = (s.thread next).fs.setWidth 16 ∧ d.gs = (s.thread next).gs.setWidth 16 ∧
    d.sysenterEsp = (s.thread next).rsp0 ∧ loadLong d.tss (rspField 0) = (s.thread next).rsp0 := by
  obtain ⟨hsub, hle⟩ := toNat_sub_of_block (d := 8) (by decide) (hroom.trans hin.symm)
  have h8 : (8 : Word).toNat = 8 := rfl
  have hmem : ∀ a, d.cpu.mem a = if getCurrent a = getCurrent ((s.thread next).rsp - 8) ∧
        a.toNat < ((s.thread next).rsp - 8).toNat then x.mem a
      else Function.update (s.cpu.push (s.cpu.reg .rax)).mem ((s.thread next).rsp - 8) (s.thread next).rip a := by
    intro a
    rw [hd]
    rfl
  refine ⟨?_, ?_, ?_, ?_, ?_, ?_, ?_, ?_, ?_⟩
  · have hrip : d.cpu.rip = d.cpu.mem ((s.thread next).rsp - 8) := by
      rw [hd]
      rfl
    rw [hrip, hmem, if_neg (fun h => Nat.lt_irrefl _ h.2), Function.update_self]
  · rw [hd]
    exact BitVec.sub_add_cancel _ 8
  · intro r hr
    have hreg : d.cpu.reg r
        = if r ∈ calleeSaved then Function.update s.cpu.reg .rax n.behindSwitch r else x.reg r := by
      rw [hd]
      rfl
    have hrax : r ≠ .rax := by
      rintro rfl
      exact absurd hr (by decide)
    rw [hreg, if_pos hr, Function.update_of_ne hrax]
  · intro a ha
    rw [hroom, hsub, h8] at hmem
    have hna : ¬ (getCurrent a = next ∧ a.toNat < (s.thread next).rsp.toNat - 8) := by
      rintro ⟨h1, h2⟩
      have := ha h1
      omega
    have hne8 : a ≠ (s.thread next).rsp - 8 := by
      rintro rfl
      have := ha hroom
      omega
    rw [hmem, if_neg hna, Function.update_of_ne hne8]
  · rw [hd]
    simp only [Threads.switchTo, Threads.switchEntry, Function.update_self, Function.update_idem]
    rfl
  · rw [hd]
    simp only [Threads.switchTo, Threads.switchEntry, Function.update_of_ne hne]
  · rw [hd]
    simp only [Threads.switchTo, Threads.switchEntry, Function.update_of_ne hne]
  · rw [hd]
    simp only [Threads.switchTo, Threads.switchEntry, Function.update_of_ne hne]
  · rw [hd]
    simp only [Threads.switchTo, Threads.switchEntry, Function.update_of_ne hne]
    exact switchTo_rsp0 _ _

theorem switched (hne : next ≠ getCurrent s.cpu.rsp) (hin : getCurrent (s.thread next).rsp = next)
    (hroom : getCurrent ((s.thread next).rsp - 8) = next) : Switched n s next (s.SWITCH_TO n next x) := by
  obtain ⟨hrip, hrsp, hreg, hmem, hthread, hfs, hgs, hesp, htss⟩ :=
    switchTo_switchEntry (n := n) (x := x) hne hin hroom rfl
  unfold Threads.SWITCH_TO
  generalize (s.switchEntry n next).switchTo (getCurrent s.cpu.rsp) next x = d at *
  dsimp only
  by_cases hlabel : (s.thread next).rip = n.behindSwitch
  · rw [if_pos (hrip.trans hlabel)]
    refine ⟨hrip, ?_, fun _ => ?_, ?_, hmem, hthread, hfs, hgs, hesp, htss⟩
    · rw [if_pos hlabel, ← hrsp]
      rfl
    · show Function.update d.cpu.reg .rax (d.cpu.mem d.cpu.rsp) .rax = _
      rw [Function.update_self, hrsp]
      exact hmem _ (fun _ => le_refl _)
    · intro r hr
      have hrax : r ≠ .rax := by
        rintro rfl
        exact absurd hr (by decide)
      rw [← hreg r hr]
      exact Function.update_of_ne hrax _ _
  · rw [if_neg (fun h => hlabel (hrip.symm.trans h))]
    refine ⟨hrip, ?_, fun h => absurd h hlabel, hreg, hmem, hthread, hfs, hgs, hesp, htss⟩
    rw [if_neg hlabel, hrsp]

end

/-! ## The invariant -/

/-- A waiting task has what it has been left with. -/
structure Kept (n : Labels) (s : Threads) (t : Word) (l : Left) : Prop where
  thread : s.thread t = ⟨t + stackSize, l.rip, l.rsp, l.fs, l.gs⟩
  inside : getCurrent l.rsp = t
  room : getCurrent (l.rsp - 8) = t
  mem : ∀ a, l.Owns t a → s.cpu.mem a = l.mem a
  popped : l.rip = n.behindSwitch → getCurrent (l.rsp + 8) = t ∧ ¬ l.lent l.rsp

structure Inv (n : Labels) (y : System) : Prop where
  kept : ∀ t l, y.waiting t = some l → Kept n y.threads t l
  running : y.waiting y.current = none
  rsp0 : (y.threads.thread y.current).rsp0 = y.current + stackSize
  sysenterEsp : y.threads.sysenterEsp = y.current + stackSize
  tss : loadLong y.threads.tss (rspField 0) = y.current + stackSize

theorem Inv.of_current {n : Labels} {s : Threads} {w : Word → Option Left} {t : Word}
    (hcur : getCurrent s.cpu.rsp = t) (hkept : ∀ t l, w t = some l → Kept n s t l) (hrunning : w t = none)
    (hrsp0 : (s.thread t).rsp0 = t + stackSize) (hesp : s.sysenterEsp = t + stackSize)
    (htss : loadLong s.tss (rspField 0) = t + stackSize) : Inv n ⟨s, w⟩ := by
  subst hcur
  exact ⟨hkept, hrunning, hrsp0, hesp, htss⟩

theorem System.Boot.inv {n : Labels} {y : System} (h : y.Boot) : Inv n y where
  kept := by
    intro t l hl
    rw [h.alone] at hl
    simp at hl
  running := by rw [h.alone]
  rsp0 := h.rsp0
  sysenterEsp := h.sysenterEsp
  tss := h.tss

section

variable {n : Labels} {s : Threads} {w : Word → Option Left}

/-- What a switch pushes is in the block of the task that switches. -/
theorem push_mem {v a : Word} (hroom : getCurrent (s.cpu.rsp - 16) = getCurrent s.cpu.rsp)
    (ha : getCurrent a ≠ getCurrent s.cpu.rsp) : (s.cpu.push v).mem a = s.cpu.mem a := by
  obtain ⟨hsub, hle⟩ := toNat_sub_of_block (d := 16) (by decide) hroom
  have h16 : (16 : Word).toNat = 16 := rfl
  have hblock : getCurrent (s.cpu.rsp - 8) = getCurrent s.cpu.rsp :=
    getCurrent_between hroom rfl (by bv_omega) (by bv_omega)
  have hne : a ≠ s.cpu.rsp - 8 := by
    rintro rfl
    exact ha hblock
  exact Function.update_of_ne hne _ _

/-- The task that has been switched to runs. -/
theorem Kept.current {next : Word} {l : Left} {d : Threads} (h : Kept n s next l) (hd : Switched n s next d) :
    getCurrent d.cpu.rsp = next := by
  rw [hd.rsp, h.thread]
  by_cases hlabel : l.rip = n.behindSwitch
  · rw [if_pos hlabel]
    exact (h.popped hlabel).1
  · rw [if_neg hlabel]
    exact h.inside

/-- The task that switches is left with what it will need. -/
theorem Switched.kept_leave {next : Word} {lent : Word → Prop} {d : Threads} (hd : Switched n s next d)
    (hne : next ≠ getCurrent s.cpu.rsp)
    (hrsp0 : (s.thread (getCurrent s.cpu.rsp)).rsp0 = getCurrent s.cpu.rsp + stackSize)
    (hroom : getCurrent (s.cpu.rsp - 16) = getCurrent s.cpu.rsp) (hlent : ¬ lent (s.cpu.rsp - 8)) :
    Kept n d (getCurrent s.cpu.rsp) (s.leave n lent) := by
  obtain ⟨hsub, hle⟩ := toNat_sub_of_block (d := 16) (by decide) hroom
  have h16 : (16 : Word).toNat = 16 := rfl
  have h8 : (s.cpu.rsp - 8).toNat = s.cpu.rsp.toNat - 8 := by bv_omega
  have hroom8 : s.cpu.rsp - 8 - 8 = s.cpu.rsp - 16 := by bv_omega
  constructor
  · rw [hd.thread, Function.update_self, hrsp0]
    rfl
  · show getCurrent (s.cpu.rsp - 8) = _
    exact getCurrent_between hroom rfl (by omega) (by omega)
  · show getCurrent (s.cpu.rsp - 8 - 8) = _
    rw [hroom8, hroom]
  · intro a ha
    exact hd.mem a (fun h => absurd (h.symm.trans ha.1) hne)
  · intro _
    refine ⟨?_, hlent⟩
    show getCurrent (s.cpu.rsp - 8 + 8) = _
    rw [BitVec.sub_add_cancel]

/-- A task that waits goes on waiting. -/
theorem Switched.kept {next t : Word} {l : Left} {d : Threads} (hd : Switched n s next d) (h : Kept n s t l)
    (hnext : t ≠ next) (hcur : t ≠ getCurrent s.cpu.rsp)
    (hroom : getCurrent (s.cpu.rsp - 16) = getCurrent s.cpu.rsp) :
    Kept n d t l := by
  refine ⟨?_, h.inside, h.room, fun a ha => ?_, h.popped⟩
  · rw [hd.thread, Function.update_of_ne hcur, h.thread]
  · rw [hd.mem a (fun h' => absurd (ha.1.symm.trans h') hnext), push_mem hroom (by rw [ha.1]; exact hcur)]
    exact h.mem a ha

/-- `copy_thread` writes the frame at the top of the new task's block, and nothing else. -/
theorem copyThread_mem {task : Word} {kthread : Bool} {regs : PtRegs} {stackStart : Nat}
    (hblock : getCurrent task = task) (htop : task.toNat + 0x8000 < 2 ^ 64) {a : Word}
    (ha : getCurrent a ≠ task) :
    (s.copyThread n task kthread regs stackStart).cpu.mem a = s.cpu.mem a := by
  have hwrites := State.pushList_writesBelow ⟨s.cpu.reg, task + stackSize, s.cpu.mem⟩
    (regsWords (copyThreadRegs regs stackStart)).reverse
  unfold Threads.copyThread
  rw [Threads.write_mem]
  refine hwrites a (fun i hi => ?_)
  have hlen : i < 24 := hi
  rintro rfl
  refine ha (getCurrent_top hblock htop ?_ ?_)
  · bv_omega
  · bv_omega

theorem copyThread_born {task : Word} {kthread : Bool} {regs : PtRegs} {stackStart : Nat}
    (hblock : getCurrent task = task) (htop : task.toNat + 0x8000 < 2 ^ 64) :
    Kept n (s.copyThread n task kthread regs stackStart) task
      ((s.copyThread n task kthread regs stackStart).born task) := by
  unfold Threads.born
  rw [Threads.copyThread_self]
  have hsub : task + stackSize - 192 - 8 = task + stackSize - 200 := by bv_omega
  constructor
  · exact Threads.copyThread_self
  · exact getCurrent_top hblock htop (by decide) (by decide)
  · rw [hsub]
    exact getCurrent_top hblock htop (by decide) (by decide)
  · exact fun _ _ => rfl
  · intro hrip
    cases kthread with
    | true => exact absurd hrip n.kernelThreadFunc_ne
    | false => exact absurd hrip n.retSystemCall_ne

end

/-- **A step keeps what the waiting tasks have been left with.** -/
theorem SystemStep.inv {n : Labels} {y z : System} {e : Event} (h : SystemStep n y e z) (hy : Inv n y) :
    Inv n z := by
  obtain ⟨hkept, hrunning, hrsp0, hesp, htss⟩ := hy
  cases h with
  | @run s w c fs gs preemptCount hcur hmem =>
      refine Inv.of_current hcur (fun t l hl => ?_) hrunning hrsp0 hesp htss
      have hk := hkept t l hl
      exact ⟨hk.thread, hk.inside, hk.room, fun a ha => (hmem t l hl a ha).trans (hk.mem a ha), hk.popped⟩
  | @copyThread s w task kthread regs stackStart hblock hnew hne htop =>
      have hborn := @copyThread_born n s task kthread regs stackStart hblock htop
      have hmem : ∀ a, getCurrent a ≠ task →
          (s.copyThread n task kthread regs stackStart).cpu.mem a = s.cpu.mem a :=
        fun a ha => copyThread_mem hblock htop ha
      refine Inv.of_current (congrArg getCurrent Threads.copyThread_rsp) (fun t l hl => ?_) ?_ ?_ ?_ ?_
      · by_cases ht : t = task
        · rw [ht, Function.update_self, Option.some.injEq] at hl
          rw [← hl, ht]
          exact hborn
        · rw [Function.update_of_ne ht] at hl
          have hk := hkept t l hl
          refine ⟨(Threads.copyThread_of_ne ht).trans hk.thread, hk.inside, hk.room, fun a ha => ?_, hk.popped⟩
          exact (hmem a (fun h => ht (ha.1.symm.trans h))).trans (hk.mem a ha)
      · exact (Function.update_of_ne hne.symm _ _).trans hrunning
      · rw [Threads.copyThread_of_ne hne.symm]
        exact hrsp0
      · rw [Threads.copyThread_sysenterEsp]
        exact hesp
      · rw [Threads.copyThread_tss]
        exact htss
  | @switch s w next l lent x hnext hroom hlent =>
      have hk := hkept next l hnext
      have hne : next ≠ getCurrent s.cpu.rsp := by
        rintro rfl
        exact absurd (hnext.symm.trans hrunning) (by simp)
      have hd : Switched n s next (s.SWITCH_TO n next x) :=
        switched hne (by rw [hk.thread]; exact hk.inside) (by rw [hk.thread]; exact hk.room)
      have hcur := hk.current hd
      generalize s.SWITCH_TO n next x = d at *
      have hthread : d.thread next = s.thread next := by
        rw [hd.thread, Function.update_of_ne hne]
      refine Inv.of_current hcur (fun t l' hl => ?_) ?_ ?_ ?_ ?_
      · by_cases ht : t = getCurrent s.cpu.rsp
        · rw [ht, Function.update_self, Option.some.injEq] at hl
          rw [← hl, ht]
          exact hd.kept_leave hne hrsp0 hroom hlent
        · rw [Function.update_of_ne ht] at hl
          have htn : t ≠ next := by
            rintro rfl
            rw [Function.update_self] at hl
            simp at hl
          rw [Function.update_of_ne htn] at hl
          exact hd.kept (hkept t l' hl) htn ht hroom
      · rw [Function.update_of_ne hne, Function.update_self]
      · rw [hthread, hk.thread]
      · rw [hd.sysenterEsp, hk.thread]
      · rw [hd.tss, hk.thread]

theorem SystemSteps.inv {n : Labels} {y z : System} {es : List Event} (h : SystemSteps n y es z)
    (hy : Inv n y) : Inv n z := by
  induction h with
  | nil => exact hy
  | cons hstep _ ih => exact ih (hstep.inv hy)

/-- A task waits, with what it has been left with, until it is switched to. -/
theorem SystemSteps.waiting {n : Labels} {y z : System} {es : List Event} {t : Word} {l : Left}
    (h : SystemSteps n y es z)
    (hy : Inv n y) (hl : y.waiting t = some l) (hnot : ∀ lent x, Event.switch t lent x ∉ es) :
    z.waiting t = some l := by
  induction h with
  | nil => exact hl
  | @cons y y' z e es hstep _ ih =>
      refine ih (hstep.inv hy) ?_ (fun lent x hmem => hnot lent x (List.mem_cons_of_mem e hmem))
      cases hstep with
      | run => exact hl
      | @copyThread s w task kthread regs stackStart _ hnew =>
          have hne : t ≠ task := by
            rintro rfl
            exact absurd (hl.symm.trans hnew) (by simp)
          exact (Function.update_of_ne hne _ _).trans hl
      | @switch s w next l' lent x hnext =>
          have hne : t ≠ next := by
            rintro rfl
            exact hnot lent x List.mem_cons_self
          have hcur : t ≠ getCurrent s.cpu.rsp := by
            rintro rfl
            exact absurd (hl.symm.trans hy.running) (by simp)
          exact (Function.update_of_ne hcur _ _).trans ((Function.update_of_ne hne _ _).trans hl)

/-! ## What a task finds -/

/-- What a task finds when it is switched to with what it has been left with. -/
structure Found (n : Labels) (t : Word) (l : Left) (b d : Threads) : Prop where
  current : getCurrent d.cpu.rsp = t
  rip : d.cpu.rip = l.rip
  rsp : d.cpu.rsp = if l.rip = n.behindSwitch then l.rsp + 8 else l.rsp
  rax : l.rip = n.behindSwitch → d.cpu.reg .rax = l.mem l.rsp
  mem : ∀ a, l.Owns t a → d.cpu.mem a = l.mem a
  fs : d.fs = l.fs.setWidth 16
  gs : d.gs = l.gs.setWidth 16
  saved : ∀ r ∈ calleeSaved, d.cpu.reg r = b.cpu.reg r
  sysenterEsp : d.sysenterEsp = t + stackSize
  tss : loadLong d.tss (rspField 0) = t + stackSize

theorem SystemStep.found {n : Labels} {z z' : System} {t : Word} {l : Left} {lent : Word → Prop} {x : Scratch}
    (h : SystemStep n z (.switch t lent x) z') (hz : Inv n z) (hl : z.waiting t = some l) :
    Found n t l z.threads z'.threads := by
  cases h with
  | @switch s w _ l' _ _ hnext hroom hlent =>
      have hk := hz.kept t l hl
      have hne : t ≠ getCurrent s.cpu.rsp := by
        rintro rfl
        exact absurd (hl.symm.trans hz.running) (by simp)
      have hthread : s.thread t = ⟨t + stackSize, l.rip, l.rsp, l.fs, l.gs⟩ := hk.thread
      have hd : Switched n s t (s.SWITCH_TO n t x) :=
        switched hne (by rw [hthread]; exact hk.inside) (by rw [hthread]; exact hk.room)
      have hmem : ∀ a, l.Owns t a → (s.SWITCH_TO n t x).cpu.mem a = l.mem a := by
        intro a ha
        rw [hd.mem a (fun _ => by rw [hthread]; exact ha.2.1), push_mem hroom (by rw [ha.1]; exact hne)]
        exact hk.mem a ha
      have hcur := hk.current hd
      obtain ⟨hrip, hrsp, hrax, hsaved, -, -, hfs, hgs, hesp, htss⟩ := hd
      rw [hthread] at hrip hrsp hrax hfs hgs hesp htss
      refine ⟨hcur, hrip, hrsp, fun hlabel => ?_, hmem, hfs, hgs, hsaved, hesp, htss⟩
      have hown : l.Owns t l.rsp := ⟨hk.inside, le_refl _, (hk.popped hlabel).2⟩
      rw [hrax hlabel, push_mem hroom (by rw [hown.1]; exact hne)]
      exact hk.mem l.rsp hown

/-- A task that goes on behind its switch. -/
structure Resumed (n : Labels) (t : Word) (lent : Word → Prop) (c b d : Threads) : Prop where
  rip : d.cpu.rip = n.behindSwitch
  rsp : d.cpu.rsp = c.cpu.rsp
  rax : d.cpu.reg .rax = c.cpu.reg .rax
  stack : ∀ a, getCurrent a = t → c.cpu.rsp.toNat ≤ a.toNat → ¬ lent a → d.cpu.mem a = c.cpu.mem a
  fs : d.fs = c.fs
  gs : d.gs = c.gs
  sysenterEsp : d.sysenterEsp = t + stackSize
  tss : loadLong d.tss (rspField 0) = t + stackSize
  saved : ∀ r ∈ calleeSaved, d.cpu.reg r = b.cpu.reg r

/-- **A task that has switched goes on** when it is switched to the next time, whatever the other tasks have
done: it finds its stack pointer, its stack, `rax`, `fs` and `gs`. But `rbx`, `rbp` and `r12` to `r15` are
those of the task that has switched to it. -/
theorem thread_resumes {n : Labels} {y₀ y y' z z' : System} {es es' : List Event} {next : Word}
    {lent lent' : Word → Prop} {x x' : Scratch} (hboot : y₀.Boot) (h : SystemSteps n y₀ es y)
    (hout : SystemStep n y (.switch next lent x) y') (hwait : SystemSteps n y' es' z)
    (hnot : ∀ lent x, Event.switch y.current lent x ∉ es') (hin : SystemStep n z (.switch y.current lent' x') z') :
    Resumed n y.current lent y.threads z.threads z'.threads := by
  have hy : Inv n y := h.inv hboot.inv
  have hy' : Inv n y' := hout.inv hy
  have hleft : y'.waiting y.current = some (y.threads.leave n lent) ∧
      getCurrent (y.threads.cpu.rsp - 16) = y.current ∧ ¬ lent (y.threads.cpu.rsp - 8) := by
    cases hout with
    | switch _ hroom hlent => exact ⟨Function.update_self _ _ _, hroom, hlent⟩
  obtain ⟨hleft, hroom, hlent⟩ := hleft
  obtain ⟨-, hrip, hrsp, hrax, hmem, hfs, hgs, hsaved, hesp, htss⟩ :=
    hin.found (hwait.inv hy') (hwait.waiting hy' hleft hnot)
  obtain ⟨hsub, hle⟩ := toNat_sub_of_block (d := 16) (by decide) hroom
  have h16 : (16 : Word).toNat = 16 := rfl
  refine ⟨hrip, ?_, ?_, fun a ha hge hna => ?_, ?_, ?_, hesp, htss, hsaved⟩
  · have hlabel : (y.threads.leave n lent).rip = n.behindSwitch := rfl
    rw [hrsp, if_pos hlabel]
    exact BitVec.sub_add_cancel _ 8
  · rw [hrax rfl]
    exact Function.update_self _ _ _
  · have hown : (y.threads.leave n lent).Owns y.current a := by
      refine ⟨ha, ?_, hna⟩
      show (y.threads.cpu.rsp - 8).toNat ≤ a.toNat
      bv_omega
    have hne : a ≠ y.threads.cpu.rsp - 8 := by
      rintro rfl
      bv_omega
    rw [hmem a hown]
    exact Function.update_of_ne hne _ _
  · have hwidth : (y.threads.fs.setWidth 64).setWidth 16 = y.threads.fs := by simp
    exact hfs.trans hwidth
  · have hwidth : (y.threads.gs.setWidth 64).setWidth 16 = y.threads.gs := by simp
    exact hgs.trans hwidth

/-! ## New tasks -/

/-- The registers that `KernelThread` makes a task from. -/
def kernelThreadRegs (n : Labels) (func args : Word) : PtRegs where
  r15 := 0
  r14 := 0
  r13 := 0
  r12 := 0
  r11 := 0
  r10 := 0
  r9 := 0
  r8 := 0
  rbx := func.toNat
  rcx := 0
  rdx := args.toNat
  rsi := 0
  rdi := 0
  rbp := 0
  ds := 0x10
  es := 0x10
  rax := 0
  func := 0
  errCode := 0
  rip := n.kernelThreadFunc.toNat
  cs := 8
  rflag := 1 <<< 9
  rsp := 0
  ss := 0x10

/-- `KernelThreadFunc`, up to the call of the function in `rbx`. -/
def kernelThreadFunc (k : Image) (c : Cpu) : Cpu :=
  let c := run k c (popRegs ++ [.addRsp 0x38])
  c.set .rdi (c.reg .rdx)

/-- `KernelThreadFunc`, up to the call of `DoExit`. -/
def kernelThreadExit (k : Image) (c : Cpu) : Cpu :=
  let c := k.callee (c.reg .rbx) c
  c.set .rdi (c.reg .rax)

/-- The frame that `copy_thread` has written is on the stack. -/
theorem copyThread_stack {n : Labels} {s : Threads} {task : Word} {kthread : Bool} {regs : PtRegs}
    {stackStart : Nat} :
    WordsAt (s.copyThread n task kthread regs stackStart).cpu.mem (task + stackSize - 192)
      (regsWords (copyThreadRegs regs stackStart)) := by
  have hempty : State.Stack (⟨s.cpu.reg, task + stackSize, s.cpu.mem⟩ : State Reg) [] := trivial
  have hpushed := hempty.pushList (regsWords (copyThreadRegs regs stackStart)).reverse (by simp [regsWords])
  rw [List.reverse_reverse, List.append_nil] at hpushed
  unfold State.Stack at hpushed
  rw [State.pushList_rsp] at hpushed
  unfold Threads.copyThread
  rw [Threads.write_mem]
  exact hpushed

/-- A task that has been made by `copy_thread` and switched to for the first time. -/
structure Started (n : Labels) (task : Word) (kthread : Bool) (regs : PtRegs) (b d : Threads) : Prop where
  rip : d.cpu.rip = if kthread then n.kernelThreadFunc else n.retSystemCall
  rsp : d.cpu.rsp = task + stackSize - 192
  stack : d.cpu.Stack (regsWords regs)
  sysenterEsp : d.sysenterEsp = task + stackSize
  tss : loadLong d.tss (rspField 0) = task + stackSize
  saved : ∀ r ∈ calleeSaved, d.cpu.reg r = b.cpu.reg r

theorem thread_starts {n : Labels} {y₀ y y' z z' : System} {es es' : List Event} {task : Word} {kthread : Bool}
    {regs : PtRegs} {stackStart : Nat} {lent : Word → Prop} {x : Scratch} (hboot : y₀.Boot) (h : SystemSteps n y₀ es y)
    (hnew : SystemStep n y (.copyThread task kthread regs stackStart) y') (hwait : SystemSteps n y' es' z)
    (hnot : ∀ lent x, Event.switch task lent x ∉ es') (hin : SystemStep n z (.switch task lent x) z') :
    Started n task kthread (copyThreadRegs regs stackStart) z.threads z'.threads := by
  have hy : Inv n y := h.inv hboot.inv
  have hy' : Inv n y' := hnew.inv hy
  have hborn : ∃ l, y'.waiting task = some l ∧
      l.rip = (if kthread then n.kernelThreadFunc else n.retSystemCall) ∧
      l.rsp = task + stackSize - 192 ∧ (∀ a, ¬ l.lent a) ∧
      WordsAt l.mem l.rsp (regsWords (copyThreadRegs regs stackStart)) ∧
      getCurrent task = task ∧ task.toNat + 0x8000 < 2 ^ 64 := by
    cases hnew with
    | @copyThread s w _ _ _ _ hblock hfree hne htop =>
        refine ⟨(s.copyThread n task kthread regs stackStart).born task, Function.update_self _ _ _, ?_⟩
        unfold Threads.born
        rw [Threads.copyThread_self]
        refine ⟨rfl, rfl, fun _ h => h, ?_, hblock, htop⟩
        dsimp only
        exact @copyThread_stack n s task kthread regs stackStart
  obtain ⟨l, hl, hrip, hrsp, hlent, hwords, hblock, htop⟩ := hborn
  have hfound := hin.found (hwait.inv hy') (hwait.waiting hy' hl hnot)
  have hlabel : l.rip ≠ n.behindSwitch := by
    rw [hrip]
    cases kthread with
    | true => exact n.kernelThreadFunc_ne
    | false => exact n.retSystemCall_ne
  have hsp : z'.threads.cpu.rsp = l.rsp := by
    rw [hfound.rsp, if_neg hlabel]
  refine ⟨hfound.rip.trans hrip, hsp.trans hrsp, ?_, hfound.sysenterEsp, hfound.tss, hfound.saved⟩
  unfold State.Stack
  rw [hsp]
  refine hwords.congr (fun i hi => hfound.mem _ ?_)
  have hlen : i < 24 := hi
  rw [hrsp]
  have hat : task + stackSize - 192 + 8 * BitVec.ofNat 64 i
      = task + stackSize - BitVec.ofNat 64 (192 - 8 * i) := by
    bv_omega
  have hge : (task + stackSize - 192).toNat ≤ (task + stackSize - 192 + 8 * BitVec.ofNat 64 i).toNat := by
    have hsize : stackSize.toNat = 0x8000 := rfl
    bv_omega
  refine ⟨?_, by rw [hrsp]; exact hge, hlent _⟩
  rw [hat]
  refine getCurrent_top hblock htop ?_ ?_
  · bv_omega
  · bv_omega

/-- What a function that `KernelThread` has been called with finds. -/
structure AtFunc (func args top : Word) (c : Cpu) : Prop where
  rbx : c.reg .rbx = func
  rdi : c.reg .rdi = args
  rsp : c.rsp = top
  seg : ∀ g, c.seg g = 0x10

/-- **A thread of the kernel starts.** When a task that `KernelThread` has made is switched to for the first time,
`KernelThreadFunc` calls its function with its argument, on an empty stack of its own and with the kernel's
data segments; it calls `DoExit` with what the function returns. -/
theorem kernelThread_starts {n : Labels} {y₀ y y' z z' : System} {es es' : List Event} {task func args : Word}
    {lent : Word → Prop} {x : Scratch} (hboot : y₀.Boot) (h : SystemSteps n y₀ es y)
    (hnew : SystemStep n y (.copyThread task true (kernelThreadRegs n func args) 0) y') (hwait : SystemSteps n y' es' z)
    (hnot : ∀ lent x, Event.switch task lent x ∉ es') (hin : SystemStep n z (.switch task lent x) z') (k : Image) :
    z'.threads.cpu.rip = n.kernelThreadFunc ∧
    AtFunc func args (task + stackSize) (kernelThreadFunc k z'.threads.cpu) ∧
    (kernelThreadExit k (kernelThreadFunc k z'.threads.cpu)).reg .rdi
      = (k.callee func (kernelThreadFunc k z'.threads.cpu)).reg .rax ∧
    z'.threads.sysenterEsp = task + stackSize := by
  have hstart := thread_starts hboot h hnew hwait hnot hin
  have hrun : kernelThreadFunc k z'.threads.cpu = Cpu.set { z'.threads.cpu with
      reg := regsReg (copyThreadRegs (kernelThreadRegs n func args) 0),
      seg := regsSeg (copyThreadRegs (kernelThreadRegs n func args) 0),
      rsp := z'.threads.cpu.rsp + 136 + 0x38, rflags := k.alu (run k z'.threads.cpu popRegs) } .rdi
        (regsReg (copyThreadRegs (kernelThreadRegs n func args) 0) .rdx) := by
    unfold kernelThreadFunc
    rw [run_append, popRegs_run hstart.stack]
    rfl
  have hrbx : (kernelThreadFunc k z'.threads.cpu).reg .rbx = func := by
    rw [hrun]
    exact BitVec.ofNat_toNat 64 func
  refine ⟨hstart.rip, ⟨hrbx, ?_, ?_, ?_⟩, ?_, hstart.sysenterEsp⟩
  · rw [hrun]
    exact BitVec.ofNat_toNat 64 args
  · rw [hrun]
    show z'.threads.cpu.rsp + 136 + 0x38 = task + stackSize
    rw [hstart.rsp]
    bv_omega
  · intro g
    rw [hrun]
    cases g <;> rfl
  · unfold kernelThreadExit
    rw [hrbx]
    dsimp only [Cpu.set]
    rw [Function.update_self]

/-! ## Two tasks -/

def someLabels : Labels :=
  ⟨0xffff800000110000, 0xffff800000112000, 0xffff800000114000, by decide, by decide⟩

/-- The stack pointers of the first task and of a thread, and the block of the thread. -/
def bootRsp : Word := 0xffff800000107000
def initRsp : Word := 0xffff800000307000
def initTask : Word := 0xffff800000300000

/-- The kernel after `TaskInit`. -/
def bootSystem : System where
  threads :=
    { cpu := ⟨⟨fun _ => 7, bootRsp, fun _ => 0⟩, fun _ => 0x10, 8, 0x10, 0xffff800000104000, 2⟩
      fs := 0x10
      gs := 0x10
      thread := fun _ => ⟨0xffff800000108000, 0, 0, 0x10, 0x10⟩
      preemptCount := fun _ => 0
      tss := storeLong (fun _ => 0) (rspField 0) 0xffff800000108000
      sysenterEsp := 0xffff800000108000 }
  waiting := fun _ => none

theorem bootSystem_boot : bootSystem.Boot where
  alone := rfl
  rsp0 := rfl
  sysenterEsp := rfl
  tss := loadLong_storeLong _ _ _

def someScratch : Scratch := ⟨fun _ => 9, 2, fun _ => 9⟩

section

variable {n : Labels} {y : System}

theorem exists_copyThread {task : Word} {regs : PtRegs} (hblock : getCurrent task = task)
    (hnew : y.waiting task = none) (hne : task ≠ y.current) (htop : task.toNat + 0x8000 < 2 ^ 64) :
    ∃ z, SystemStep n y (.copyThread task true regs 0) z ∧ z.threads.cpu.rsp = y.threads.cpu.rsp ∧
      ∃ l, z.waiting task = some l :=
  ⟨_, .copyThread hblock hnew hne htop, Threads.copyThread_rsp, _, Function.update_self _ _ _⟩

theorem exists_switch (hy : Inv n y) {t : Word} {l : Left} (hl : y.waiting t = some l)
    (hroom : getCurrent (y.threads.cpu.rsp - 16) = y.current) (x : Scratch) :
    ∃ z, SystemStep n y (.switch t (fun _ => False) x) z ∧ z.current = t ∧ ∃ l, z.waiting y.current = some l := by
  have hstep : SystemStep n y (.switch t (fun _ => False) x) _ := .switch hl hroom (fun h => h)
  exact ⟨_, hstep, (hstep.found hy hl).current, _, Function.update_self _ _ _⟩

theorem exists_run {rsp : Word} (hrsp : getCurrent rsp = y.current) :
    ∃ e z, SystemStep n y e z ∧ z.threads.cpu.rsp = rsp ∧ z.waiting = y.waiting ∧ ∀ t lent x, Event.switch t lent x ≠ e := by
  obtain ⟨s, w⟩ := y
  have hstep : SystemStep n ⟨s, w⟩ (.run { s.cpu with rsp := rsp } s.fs s.gs s.preemptCount) _ :=
    .run hrsp (fun _ _ _ _ _ => rfl)
  exact ⟨_, _, hstep, rfl, rfl, fun _ _ _ h => by simp at h⟩

end

/-- A thread is made and switched to, and it switches back: each finds what it should. -/
theorem exists_switches : ∃ y y' z z' e,
    SystemStep someLabels bootSystem
      (.copyThread initTask true (kernelThreadRegs someLabels 0xffff800000116000 10) 0) y ∧
    SystemStep someLabels y (.switch initTask (fun _ => False) someScratch) y' ∧ SystemStep someLabels y' e z ∧
    (∀ t lent x, Event.switch t lent x ≠ e) ∧
    SystemStep someLabels z (.switch y.current (fun _ => False) someScratch) z' ∧ y.threads.cpu.rsp = bootRsp := by
  obtain ⟨y, hcopy, hrsp, l, hl⟩ := @exists_copyThread someLabels bootSystem initTask
    (kernelThreadRegs someLabels 0xffff800000116000 10) (by decide) rfl (by decide) (by decide)
  have hcur : y.current = bootSystem.current := congrArg getCurrent hrsp
  have hy : Inv someLabels y := hcopy.inv bootSystem_boot.inv
  obtain ⟨y', hout, hthread, l', hl'⟩ := exists_switch hy hl (by rw [hcur, hrsp]; decide) someScratch
  obtain ⟨e, z, hrun, hrsp', hwait, hne⟩ := @exists_run someLabels y' initRsp (by rw [hthread]; decide)
  have hz : Inv someLabels z := hrun.inv (hout.inv hy)
  have hroom : getCurrent (z.threads.cpu.rsp - 16) = z.current := by
    unfold System.current
    rw [hrsp']
    decide
  obtain ⟨z', hin, -, -⟩ := exists_switch hz ((congrFun hwait _).trans hl') hroom someScratch
  exact ⟨y, y', z, z', e, hcopy, hout, hrun, hne, hin, hrsp⟩

theorem thread_resumes_boot : ∃ (y : System) (z z' : Threads), Resumed someLabels y.current (fun _ => False) y.threads z z' ∧
    z'.cpu.rsp = bootRsp := by
  obtain ⟨y, y', z, z', e, hcopy, hout, hrun, hne, hin, hrsp⟩ := exists_switches
  have hresumed := thread_resumes bootSystem_boot (.cons hcopy .nil) hout (.cons hrun .nil)
    (fun lent x h => hne _ lent x (List.mem_singleton.mp h)) hin
  exact ⟨y, z.threads, z'.threads, hresumed, hresumed.rsp.trans hrsp⟩

theorem kernelThread_starts_boot : ∃ d : Threads, d.cpu.rip = someLabels.kernelThreadFunc ∧
    AtFunc 0xffff800000116000 10 (initTask + stackSize) (kernelThreadFunc busyImage d.cpu) := by
  obtain ⟨y, y', z, z', e, hcopy, hout, -⟩ := exists_switches
  obtain ⟨hrip, hat, -⟩ := kernelThread_starts bootSystem_boot .nil hcopy .nil (by simp) hout busyImage
  exact ⟨y'.threads, hrip, hat⟩

end Talios.Interrupt
