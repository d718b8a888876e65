import Talios.Lib.Machine
import Talios.Task.Execve

set_option autoImplicit false

/-! # The instructions of the entry code

The registers of the processor and the instructions that `entry.S`, `BUILD_IRQ` and the system calls of
the user library are written in, with the source in front as in their text. The C functions they call are
inputs: an image gives the addresses of the symbols, and what a function has done when it returns.
-/

namespace Talios.Interrupt

open Machine

/-! ## Data -/

/-- The general registers but the stack pointer. -/
inductive Reg
  | rax | rbx | rcx | rdx | rsi | rdi | rbp | r8 | r9 | r10 | r11 | r12 | r13 | r14 | r15
deriving DecidableEq

inductive Seg
  | ds | es
deriving DecidableEq

structure Cpu extends State Reg where
  seg : Seg → BitVec 16
  cs : BitVec 16
  ss : BitVec 16
  rip : Word
  rflags : Word

/-- What the code refers to. -/
inductive Symbol
  | doDivideError | doInvalidTss | doPageFault | doGeneralPurpose | doDoubleFault
  | doAlignmentCheckFault | doUndefinedOpcodeFault | doIRQ | doSoftirq | schedule
  | retFromIntr | systemCallTable | softirqStatus
deriving DecidableEq

/-- The addresses of the symbols, what the function at an address has done when it returns, and what an
arithmetic instruction leaves in the flags. -/
structure Image where
  sym : Symbol → Word
  callee : Word → Cpu → Cpu
  alu : Cpu → Word

inductive Instr
  | push (r : Reg)
  | pushImm (v : Word)
  | pop (r : Reg)
  | addRsp (n : Word)
  | subRsp (n : Word)
  | movImm (v : Word) (r : Reg)
  | movRsp (r : Reg)
  | load (d : Word) (r : Reg)
  | loadAt (d : Word) (base r : Reg)
  | store (r : Reg) (d : Word)
  | fromSeg (s : Seg) (r : Reg)
  | toSeg (r : Reg) (s : Seg)
  | lea (s : Symbol) (r : Reg)
  | xchg (q r : Reg)
  | xchgTop (r : Reg)
  | and (v : Word) (r : Reg)
  | call (s : Symbol)
  | callReg (r : Reg)
  | callIndexed (base index : Reg)
  | cld
  | sti

/-! ## Execution -/

def Cpu.set (c : Cpu) (r : Reg) (v : Word) : Cpu := { c with reg := Function.update c.reg r v }

def Cpu.push (c : Cpu) (v : Word) : Cpu := { c with toState := c.toState.push v }

/-- One instruction. -/
def Instr.exec (k : Image) (c : Cpu) : Instr → Cpu
  | push r => c.push (c.reg r)
  | pushImm v => c.push v
  | pop r => { c with toState := c.toState.pop r }
  | addRsp n => { c with rsp := c.rsp + n, rflags := k.alu c }
  | subRsp n => { c with rsp := c.rsp - n, rflags := k.alu c }
  | movImm v r => c.set r v
  | movRsp r => c.set r c.rsp
  | load d r => c.set r (c.mem (c.rsp + d))
  | loadAt d base r => c.set r (c.mem (c.reg base + d))
  | store r d => { c with mem := Function.update c.mem (c.rsp + d) (c.reg r) }
  | fromSeg s r => c.set r ((c.seg s).setWidth 64)
  | toSeg r s => { c with seg := Function.update c.seg s ((c.reg r).setWidth 16) }
  | lea s r => c.set r (k.sym s)
  | xchg q r => (c.set q (c.reg r)).set r (c.reg q)
  | xchgTop r => { c.set r (c.mem c.rsp) with mem := Function.update c.mem c.rsp (c.reg r) }
  | and v r => { c.set r (c.reg r &&& v) with rflags := k.alu c }
  | call s => k.callee (k.sym s) c
  | callReg r => k.callee (c.reg r) c
  | callIndexed base index => k.callee (c.mem (c.reg base + c.reg index * 8)) c
  | cld => { c with rflags := c.rflags &&& ~~~ 0x400#64 }
  | sti => { c with rflags := c.rflags ||| 0x200#64 }

/-- Instructions one after the other. -/
def run (k : Image) (c : Cpu) (is : List Instr) : Cpu := is.foldl (Instr.exec k) c

theorem run_append (k : Image) (c : Cpu) (is js : List Instr) :
    run k c (is ++ js) = run k (run k c is) js := List.foldl_append

@[simp] theorem run_nil (k : Image) (c : Cpu) : run k c [] = c := rfl

@[simp] theorem run_cons (k : Image) (c : Cpu) (i : Instr) (is : List Instr) :
    run k c (i :: is) = run k (i.exec k c) is := rfl

theorem run_pushes (k : Image) (c : Cpu) (rs : List Reg) :
    run k c (rs.map .push) = { c with toState := c.toState.pushAll rs } := by
  induction rs generalizing c with
  | nil => rfl
  | cons r rs ih => exact ih (c.push (c.reg r))

theorem run_pops (k : Image) (c : Cpu) (rs : List Reg) :
    run k c (rs.map .pop) = { c with toState := c.toState.popAll rs } := by
  induction rs generalizing c with
  | nil => rfl
  | cons r rs ih => exact ih { c with toState := c.toState.pop r }

/-! ## Contexts -/

/-- What a program has in the processor. -/
structure Context where
  reg : Reg → Word
  seg : Seg → BitVec 16
  cs : BitVec 16
  ss : BitVec 16
  rip : Word
  rsp : Word
  rflags : Word

def Cpu.context (c : Cpu) : Context := ⟨c.reg, c.seg, c.cs, c.ss, c.rip, c.rsp, c.rflags⟩

/-- `struct PtRegs` in memory, in the order of its fields. -/
def regsWords (p : PtRegs) : List Word :=
  [p.r15, p.r14, p.r13, p.r12, p.r11, p.r10, p.r9, p.r8, p.rbx, p.rcx, p.rdx, p.rsi, p.rdi, p.rbp,
    p.ds, p.es, p.rax, p.func, p.errCode, p.rip, p.cs, p.rflag, p.rsp, p.ss].map (BitVec.ofNat 64)

/-- The registers that a `PtRegs` stands for. -/
def regsReg (p : PtRegs) (r : Reg) : Word :=
  BitVec.ofNat 64 (match r with
    | .rax => p.rax | .rbx => p.rbx | .rcx => p.rcx | .rdx => p.rdx | .rsi => p.rsi | .rdi => p.rdi
    | .rbp => p.rbp | .r8 => p.r8 | .r9 => p.r9 | .r10 => p.r10 | .r11 => p.r11 | .r12 => p.r12
    | .r13 => p.r13 | .r14 => p.r14 | .r15 => p.r15)

def regsSeg (p : PtRegs) (s : Seg) : BitVec 16 :=
  BitVec.ofNat 16 (match s with | .ds => p.ds | .es => p.es)

/-- The context that `iretq` takes from a frame. -/
def regsContext (p : PtRegs) : Context where
  reg := regsReg p
  seg := regsSeg p
  cs := BitVec.ofNat 16 p.cs
  ss := BitVec.ofNat 16 p.ss
  rip := BitVec.ofNat 64 p.rip
  rsp := BitVec.ofNat 64 p.rsp
  rflags := BitVec.ofNat 64 p.rflag

/-- The frame of a context, with the two words between the registers and what the processor pushes. -/
def Context.regs (x : Context) (func errCode : Word) : PtRegs where
  r15 := (x.reg .r15).toNat
  r14 := (x.reg .r14).toNat
  r13 := (x.reg .r13).toNat
  r12 := (x.reg .r12).toNat
  r11 := (x.reg .r11).toNat
  r10 := (x.reg .r10).toNat
  r9 := (x.reg .r9).toNat
  r8 := (x.reg .r8).toNat
  rbx := (x.reg .rbx).toNat
  rcx := (x.reg .rcx).toNat
  rdx := (x.reg .rdx).toNat
  rsi := (x.reg .rsi).toNat
  rdi := (x.reg .rdi).toNat
  rbp := (x.reg .rbp).toNat
  ds := (x.seg .ds).toNat
  es := (x.seg .es).toNat
  rax := (x.reg .rax).toNat
  func := func.toNat
  errCode := errCode.toNat
  rip := x.rip.toNat
  cs := x.cs.toNat
  rflag := x.rflags.toNat
  rsp := x.rsp.toNat
  ss := x.ss.toNat

theorem regsReg_regs (x : Context) (func errCode : Word) : regsReg (x.regs func errCode) = x.reg := by
  funext r
  cases r <;> exact BitVec.ofNat_toNat _ _

theorem regsSeg_regs (x : Context) (func errCode : Word) : regsSeg (x.regs func errCode) = x.seg := by
  funext s
  cases s <;> exact BitVec.ofNat_toNat _ _

/-- A context is what its frame stands for. -/
theorem regsContext_regs (x : Context) (func errCode : Word) :
    regsContext (x.regs func errCode) = x := by
  rw [regsContext, regsReg_regs, regsSeg_regs]
  simp [Context.regs]

theorem regsWords_regs (x : Context) (func errCode : Word) :
    regsWords (x.regs func errCode) =
      [x.reg .r15, x.reg .r14, x.reg .r13, x.reg .r12, x.reg .r11, x.reg .r10, x.reg .r9, x.reg .r8,
        x.reg .rbx, x.reg .rcx, x.reg .rdx, x.reg .rsi, x.reg .rdi, x.reg .rbp,
        (x.seg .ds).setWidth 64, (x.seg .es).setWidth 64, x.reg .rax, func, errCode, x.rip,
        x.cs.setWidth 64, x.rflags, x.rsp, x.ss.setWidth 64] := by
  simp [regsWords, Context.regs, BitVec.ofNat_toNat]

end Talios.Interrupt
