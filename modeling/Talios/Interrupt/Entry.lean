import Talios.Interrupt.Cpu

set_option autoImplicit false

/-! # Exceptions and interrupts

The entries of `entry.S` and those of `BUILD_IRQ`, from the words that the processor pushes to `iretq`.
Every one of them makes the stack a `struct PtRegs` before it calls a C function, and `restore_all` takes
all of it away. `nmi` is left out: no gate leads to it.

`interrupt_transparent` says that a program does not see that it has been interrupted, whatever the
functions do with the registers, as long as they return and leave the frame alone.
-/

namespace Talios.Interrupt

open Machine

/-! ## `entry.S` -/

def RAX : Word := 0x80
def FUNC : Word := 0x88
def ERRCODE : Word := 0x90

def TSK_FLAGS : Word := 0x8
def TSK_PREEMPT : Word := 0x18

/-- The registers that are pushed behind `rax`, `es` and `ds`. -/
def savedRegs : List Reg :=
  [.rbp, .rdi, .rsi, .rdx, .rcx, .rbx, .r8, .r9, .r10, .r11, .r12, .r13, .r14, .r15]

/-- The registers that are popped before `ds`, `es` and `rax`. -/
def restoredRegs : List Reg :=
  [.r15, .r14, .r13, .r12, .r11, .r10, .r9, .r8, .rbx, .rcx, .rdx, .rsi, .rdi, .rbp]

/-- The pushes of `error_code` and `SAVE_ALL_REGS`. -/
def saveRegs : List Instr :=
  [.push .rax, .fromSeg .es .rax, .push .rax, .fromSeg .ds .rax, .push .rax] ++ savedRegs.map .push

/-- The pops of `restore_all` and `ret_system_call`. -/
def popRegs : List Instr :=
  restoredRegs.map .pop ++
    [.pop .rax, .toSeg .rax .ds, .pop .rax, .toSeg .rax .es, .pop .rax]

/-- What `iretq` does. The checks of the two selectors are left out: they pass for those a running program
had, and the words are the processor's own. -/
def iretq (c : Cpu) : Cpu :=
  { c with
    rip := c.mem c.rsp
    cs := (c.mem (c.rsp + 8)).setWidth 16
    rflags := c.mem (c.rsp + 16)
    rsp := c.mem (c.rsp + 24)
    ss := (c.mem (c.rsp + 32)).setWidth 16 }

/-- `restore_all`. -/
def restoreAll (k : Image) (c : Cpu) : Cpu := iretq (run k c (popRegs ++ [.addRsp 0x10]))

/-- `GET_CURRENT(%rbx)`. -/
def getCurrentRbx : List Instr := [.movRsp .rbx, .and (-32768) .rbx]

/-- `ret_from_intr`, with `softirq_handler` and `reschedule`. -/
def retFromIntr (k : Image) (c : Cpu) : Cpu :=
  let c := run k c [.movImm (-1) .rcx]
  -- softirq_handler
  let c := if c.mem (k.sym .softirqStatus) &&& c.reg .rcx ≠ 0 then run k c [.call .doSoftirq] else c
  let c := run k c (getCurrentRbx ++ [.loadAt TSK_PREEMPT .rbx .rcx])
  if c.reg .rcx ≠ 0 then restoreAll k c
  else
    let c := run k c [.loadAt TSK_FLAGS .rbx .rcx]
    -- reschedule
    if c.reg .rcx &&& 2 ≠ 0 then restoreAll k (run k c [.call .schedule]) else restoreAll k c

/-- The stack that the processor takes for a gate, what it loads from it, and the flags it goes on
with. -/
structure Gate where
  top : Word
  handler : Word
  cs : BitVec 16
  ss : BitVec 16
  rflags : Word

/-- What the processor does before the first instruction of an entry. -/
def Gate.enter (g : Gate) (c : Cpu) : Cpu :=
  let s := { c with rsp := g.top }
  let s := ((((s.push (c.ss.setWidth 64)).push c.rsp).push c.rflags).push (c.cs.setWidth 64)).push c.rip
  { s with rip := g.handler, cs := g.cs, ss := g.ss, rflags := g.rflags }

inductive Exception
  | divideError | invalidTSS | pageFault | generalPurpose | doubleFault | alignmentCheckFault
  | undefinedOpcodeFault
deriving DecidableEq

/-- The function of an entry. -/
def Exception.func : Exception → Symbol
  | divideError => .doDivideError
  | invalidTSS => .doInvalidTss
  | pageFault => .doPageFault
  | generalPurpose => .doGeneralPurpose
  | doubleFault => .doDoubleFault
  | alignmentCheckFault => .doAlignmentCheckFault
  | undefinedOpcodeFault => .doUndefinedOpcodeFault

/-- The processor pushes an error code. -/
def Exception.pushesErrorCode : Exception → Bool
  | divideError | undefinedOpcodeFault => false
  | _ => true

/-- The first instruction of the entries for the exceptions without an error code. -/
def Exception.pushZero : Exception → List Instr
  | divideError | undefinedOpcodeFault => [.pushImm 0]
  | _ => []

/-- An entry, up to its jump to `error_code`. -/
def Exception.entry (e : Exception) : List Instr :=
  e.pushZero ++ [.push .rax, .lea e.func .rax, .xchgTop .rax]

/-- `error_code`, up to the call of the function. -/
def errorCode : List Instr :=
  saveRegs ++
    [.cld, .load ERRCODE .rsi, .load FUNC .rdx, .movImm 0x10 .rdi, .toSeg .rdi .ds, .toSeg .rdi .es,
      .movRsp .rdi]

/-- An exception, up to the call of its function. -/
def Exception.toCall (k : Image) (e : Exception) (g : Gate) (code : Word) (c : Cpu) : Cpu :=
  let c := g.enter c
  let c := if e.pushesErrorCode then c.push code else c
  run k c (e.entry ++ errorCode)

/-- An exception of a program, up to the return to it. -/
def Exception.handle (k : Image) (e : Exception) (g : Gate) (code : Word) (c : Cpu) : Cpu :=
  retFromIntr k (run k (e.toCall k g code c) [.callReg .rdx])

/-- `BUILD_IRQ`, up to its jump to `DoIRQ`. -/
def irqEntry (nr : Word) : List Instr :=
  [.pushImm 0, .push .rax, .cld] ++ saveRegs ++
    [.movImm 0x10 .rdx, .toSeg .rdx .es, .toSeg .rdx .ds, .lea .doIRQ .rax, .movRsp .rdi,
      .movImm nr .rsi, .lea .retFromIntr .rax, .push .rax]

/-- An interrupt, up to the first instruction of `DoIRQ`. -/
def irqToCall (k : Image) (nr : Word) (g : Gate) (c : Cpu) : Cpu := run k (g.enter c) (irqEntry nr)

/-- An interrupt of a program, up to the return to it. `DoIRQ` returns to the address on the stack; there is
no result if that is not `ret_from_intr`. -/
def irqHandle (k : Image) (nr : Word) (g : Gate) (c : Cpu) : Option Cpu :=
  let c := k.callee (k.sym .doIRQ) (irqToCall k nr g c)
  if c.mem c.rsp = k.sym .retFromIntr then some (retFromIntr k { c with rsp := c.rsp + 8 }) else none

/-! ## The frame -/

/-- Functions come back with the stack pointer they were called with, and leave the first `n` words on the
stack alone. -/
structure Image.Keeps (k : Image) (n : Nat) : Prop where
  rsp : ∀ a c, (k.callee a c).rsp = c.rsp
  words : ∀ a c, ∀ i < n,
    (k.callee a c).mem (c.rsp + 8 * BitVec.ofNat 64 i) = c.mem (c.rsp + 8 * BitVec.ofNat 64 i)

/-- What lies on the stack stays there in a call. -/
theorem Image.Keeps.stack {k : Image} {n : Nat} (h : k.Keeps n) {c : Cpu} {ws : List Word}
    (hs : c.Stack ws) (hn : ws.length ≤ n) (a : Word) : (k.callee a c).Stack ws := by
  unfold State.Stack
  rw [h.rsp]
  exact WordsAt.congr hs (fun i hi => h.words a c i (by omega))

section

variable {k : Image} {c : Cpu} {ws : List Word} {p : PtRegs}

/-- The words that are pushed, in their order. -/
def savedWords (c : Cpu) : List Word :=
  c.reg .rax :: (c.seg .es).setWidth 64 :: (c.seg .ds).setWidth 64 :: savedRegs.map c.reg

theorem savedWords_length (c : Cpu) : (savedWords c).length = 17 := rfl

/-- What the pushes do. -/
theorem saveRegs_run (k : Image) (c : Cpu) :
    (run k c saveRegs).mem = (c.toState.pushList (savedWords c)).mem ∧
    (run k c saveRegs).rsp = (c.toState.pushList (savedWords c)).rsp ∧
    ∀ r, r ≠ .rax → (run k c saveRegs).reg r = c.reg r := by
  rw [saveRegs, run_append, run_pushes]
  refine ⟨rfl, rfl, fun r hr => ?_⟩
  rw [State.pushAll, State.pushList_reg]
  simp [run, Instr.exec, Cpu.set, Cpu.push, State.push, hr]

/-- The registers lie on the stack as in `struct PtRegs`. -/
theorem saveRegs_stack (h : c.Stack ws) (hlen : ws.length ≤ 2 ^ 60) :
    (run k c saveRegs).Stack (restoredRegs.map c.reg ++
      (c.seg .ds).setWidth 64 :: (c.seg .es).setWidth 64 :: c.reg .rax :: ws) := by
  obtain ⟨hmem, hrsp, -⟩ := saveRegs_run k c
  have hpush := h.pushList (savedWords c) (by rw [savedWords_length]; omega)
  unfold State.Stack
  rw [hmem, hrsp]
  exact hpush

theorem regsWords_eq (p : PtRegs) : regsWords p = restoredRegs.map (regsReg p) ++
    [p.ds, p.es, p.rax, p.func, p.errCode, p.rip, p.cs, p.rflag, p.rsp, p.ss].map (BitVec.ofNat 64) :=
  rfl

/-- What is popped: the registers of the frame. -/
theorem popRegs_run (h : c.Stack (regsWords p)) :
    run k c popRegs = { c with reg := regsReg p, seg := regsSeg p, rsp := c.rsp + 136 } := by
  rw [regsWords_eq] at h
  have hreg := State.Stack.popAll_reg h
  have hrest := State.Stack.popAll h (List.length_map _)
  have hmem := c.toState.popAll_mem restoredRegs
  have hrsp := c.toState.popAll_rsp restoredRegs
  rw [popRegs, run_append, run_pops]
  generalize c.toState.popAll restoredRegs = s at *
  obtain ⟨reg, rsp, mem⟩ := s
  dsimp only at hreg hmem hrsp
  subst hreg hmem hrsp
  obtain ⟨hds, hes, hrax, -⟩ := hrest
  dsimp only at hds hes hrax
  have hlen : c.rsp + 8 * BitVec.ofNat 64 restoredRegs.length + 8 + 8 + 8 = c.rsp + 136 := by
    rw [show restoredRegs.length = 14 from rfl]
    bv_omega
  simp only [run_cons, run_nil, Instr.exec, State.pop, hds, hes, hrax, hlen, Function.update_self,
    Function.update_idem]
  have hregs : Function.update (fun r => if r ∈ restoredRegs then regsReg p r else c.reg r) .rax
      (BitVec.ofNat 64 p.rax) = regsReg p := by
    funext r
    cases r <;> simp [restoredRegs, regsReg]
  have hsegs : Function.update (Function.update c.seg .ds ((BitVec.ofNat 64 p.ds).setWidth 16)) .es
      ((BitVec.ofNat 64 p.es).setWidth 16) = regsSeg p := by
    funext s
    cases s <;> simp [regsSeg]
  rw [hregs, hsegs]

/-- A word of the frame, at its distance from the stack pointer. -/
theorem frame_word (h : c.Stack (regsWords p)) {i : Nat} {d w : Word} (hd : d = 8 * BitVec.ofNat 64 i)
    (hw : (regsWords p)[i]? = some w) : c.mem (c.rsp + d) = w := by
  obtain ⟨hi, rfl⟩ := List.getElem?_eq_some_iff.mp hw
  rw [hd]
  exact WordsAt.get h hi

/-- `restore_all` takes all of the context from the frame. -/
theorem restoreAll_context (h : c.Stack (regsWords p)) :
    (restoreAll k c).context = regsContext p := by
  have hrip : c.mem (c.rsp + 152#64) = BitVec.ofNat 64 p.rip := frame_word h (i := 19) (by rfl) rfl
  have hcs : c.mem (c.rsp + 160#64) = BitVec.ofNat 64 p.cs := frame_word h (i := 20) (by rfl) rfl
  have hflag : c.mem (c.rsp + 168#64) = BitVec.ofNat 64 p.rflag := frame_word h (i := 21) (by rfl) rfl
  have hrsp : c.mem (c.rsp + 176#64) = BitVec.ofNat 64 p.rsp := frame_word h (i := 22) (by rfl) rfl
  have hss : c.mem (c.rsp + 184#64) = BitVec.ofNat 64 p.ss := frame_word h (i := 23) (by rfl) rfl
  rw [restoreAll, run_append, popRegs_run h]
  simp only [run_cons, run_nil, Instr.exec, iretq, Cpu.context, regsContext, BitVec.add_assoc]
  simp [hrip, hcs, hflag, hrsp, hss]

/-- So does `ret_from_intr`, along each of its ways. -/
theorem retFromIntr_context (hk : k.Keeps 24) (h : c.Stack (regsWords p)) :
    (retFromIntr k c).context = regsContext p := by
  have hcall : ∀ {d : Cpu} (s : Symbol), d.Stack (regsWords p) →
      (run k d [.call s]).Stack (regsWords p) :=
    fun s hd => hk.stack hd (Nat.le_refl 24) (k.sym s)
  have hsoft : ∀ d : Cpu, d.Stack (regsWords p) →
      (run k d (getCurrentRbx ++ [.loadAt TSK_PREEMPT .rbx .rcx])).Stack (regsWords p) :=
    fun d hd => hd
  unfold retFromIntr
  dsimp only
  split <;> split
  · exact restoreAll_context (hsoft _ (hcall _ h))
  · split
    · exact restoreAll_context (hcall _ (hsoft _ (hcall _ h)))
    · exact restoreAll_context (hsoft _ (hcall _ h))
  · exact restoreAll_context (hsoft _ h)
  · split
    · exact restoreAll_context (hcall _ (hsoft _ h))
    · exact restoreAll_context (hsoft _ h)

/-- What the processor pushes. -/
theorem Gate.enter_stack (g : Gate) (c : Cpu) (ws : List Word) (h : WordsAt c.mem g.top ws)
    (hlen : ws.length ≤ 2 ^ 60) :
    (g.enter c).Stack (c.rip :: c.cs.setWidth 64 :: c.rflags :: c.rsp :: c.ss.setWidth 64 :: ws) := by
  have h0 : ({ c with rsp := g.top } : Cpu).Stack ws := h
  have h1 := h0.push (by omega) (c.ss.setWidth 64)
  have h2 := h1.push (by rw [List.length_cons]; omega) c.rsp
  have h3 := h2.push (by simp only [List.length_cons]; omega) c.rflags
  have h4 := h3.push (by simp only [List.length_cons]; omega) (c.cs.setWidth 64)
  exact h4.push (by simp only [List.length_cons]; omega) c.rip

/-- `rax` makes room for the function, and has its value back. -/
theorem pushFunc_run (s : Symbol) :
    run k c [.push .rax, .lea s .rax, .xchgTop .rax] = c.push (k.sym s) := by
  have hreg : Function.update (Function.update c.reg .rax (k.sym s)) .rax (c.reg .rax) = c.reg := by
    rw [Function.update_idem, Function.update_eq_self]
  simp only [run_cons, run_nil, Instr.exec, Cpu.set, Cpu.push, State.push, Function.update_self,
    Function.update_idem, hreg]

/-- `error_code` completes the frame, and passes it on with the error code. -/
theorem errorCode_run {func err rip rflags rsp : Word} {cs ss : BitVec 16} {x : Context}
    (h : c.Stack [func, err, rip, cs.setWidth 64, rflags, rsp, ss.setWidth 64])
    (hx : x = ⟨c.reg, c.seg, cs, ss, rip, rsp, rflags⟩) :
    (run k c errorCode).Stack (regsWords (x.regs func err)) ∧
      (run k c errorCode).reg .rdx = func ∧ (run k c errorCode).reg .rsi = err ∧
      (run k c errorCode).reg .rdi = (run k c errorCode).rsp := by
  subst hx
  have hsave := saveRegs_stack (k := k) h (by simp)
  rw [errorCode, run_append]
  generalize run k c saveRegs = d at hsave
  have hstack : d.Stack (regsWords (Context.regs ⟨c.reg, c.seg, cs, ss, rip, rsp, rflags⟩ func err)) := by
    rw [regsWords_regs]
    exact hsave
  have hfunc := frame_word hstack (i := 17) (d := FUNC) (by rfl) (by rw [regsWords_regs]; rfl)
  have herr := frame_word hstack (i := 18) (d := ERRCODE) (by rfl) (by rw [regsWords_regs]; rfl)
  exact ⟨hstack, hfunc, herr, rfl⟩

end

/-! ## Exceptions -/

/-- The error code that a function gets. -/
def Exception.errCode (e : Exception) (code : Word) : Word := if e.pushesErrorCode then code else 0

/-- What the function of an exception gets: the frame of the context, and the error code. -/
structure Called (d : Cpu) (x : Context) (func err : Word) : Prop where
  rdx : d.reg .rdx = func
  rdi : d.reg .rdi = d.rsp
  rsi : d.reg .rsi = err
  stack : d.Stack (regsWords (x.regs func err))

variable {k : Image}

theorem Exception.toCall_called (e : Exception) (g : Gate) (code : Word) (c : Cpu) :
    Called (e.toCall k g code c) c.context (k.sym e.func) (e.errCode code) := by
  have hpushed := g.enter_stack c [] trivial (by simp)
  have hcode := hpushed.push (by simp) (e.errCode code)
  have hfunc := hcode.push (by simp) (k.sym e.func)
  have hentry : (run k (if e.pushesErrorCode then (g.enter c).push code else g.enter c) e.entry)
      = ((g.enter c).push (e.errCode code)).push (k.sym e.func) := by
    rw [Exception.entry, run_append, pushFunc_run]
    cases e <;> rfl
  obtain ⟨hstack, hrdx, hrsi, hrdi⟩ := errorCode_run (k := k)
    (c := ((g.enter c).push (e.errCode code)).push (k.sym e.func)) (x := c.context) hfunc rfl
  rw [← hentry, ← run_append] at hstack hrdx hrsi hrdi
  exact ⟨hrdx, hrdi, hrsi, hstack⟩

theorem Image.Keeps.mono {m n : Nat} (h : k.Keeps n) (hm : m ≤ n) : k.Keeps m :=
  ⟨h.rsp, fun a c i hi => h.words a c i (Nat.lt_of_lt_of_le hi hm)⟩

theorem Exception.handle_context (hk : k.Keeps 24) (e : Exception) (g : Gate) (code : Word) (c : Cpu) :
    (e.handle k g code c).context = c.context := by
  have hcall := e.toCall_called (k := k) g code c
  have hret := hk.stack hcall.stack (Nat.le_refl 24) ((e.toCall k g code c).reg .rdx)
  exact (retFromIntr_context hk hret).trans (regsContext_regs _ _ _)

/-! ## Interrupts -/

theorem irqToCall_stack (nr : Word) (g : Gate) (c : Cpu) :
    (irqToCall k nr g c).Stack
      (k.sym .retFromIntr :: regsWords (c.context.regs (c.reg .rax) 0)) ∧
    (irqToCall k nr g c).reg .rdi = (irqToCall k nr g c).rsp + 8 ∧
    (irqToCall k nr g c).reg .rsi = nr := by
  have hpushed := g.enter_stack c [] trivial (by simp)
  have herr := hpushed.push (by simp) 0
  have hfunc := herr.push (by simp) (c.reg .rax)
  have hrun : (run k (g.enter c) [.pushImm 0, .push .rax, .cld]).Stack
      [c.reg .rax, 0, c.rip, c.cs.setWidth 64, c.rflags, c.rsp, c.ss.setWidth 64] := hfunc
  have hsave := saveRegs_stack (k := k) hrun (by simp)
  rw [irqToCall, irqEntry, run_append, run_append]
  generalize run k (run k (g.enter c) [.pushImm 0, .push .rax, .cld]) saveRegs = d at hsave
  have hstack : d.Stack (regsWords (c.context.regs (c.reg .rax) 0)) := by
    rw [regsWords_regs]
    exact hsave
  refine ⟨hstack.push (by rw [regsWords_regs]; simp) (k.sym .retFromIntr), ?_, rfl⟩
  exact (BitVec.sub_add_cancel d.rsp 8).symm

theorem irqHandle_context (hk : k.Keeps 25) (nr : Word) (g : Gate) (c : Cpu) :
    ∃ d, irqHandle k nr g c = some d ∧ d.context = c.context := by
  have hcall := (irqToCall_stack (k := k) nr g c).1
  have hret := hk.stack hcall (by rw [List.length_cons, regsWords_regs]; simp) (k.sym .doIRQ)
  refine ⟨_, if_pos hret.1, ?_⟩
  have hframe : ({ k.callee (k.sym .doIRQ) (irqToCall k nr g c) with
      rsp := (k.callee (k.sym .doIRQ) (irqToCall k nr g c)).rsp + 8 } : Cpu).Stack
      (regsWords (c.context.regs (c.reg .rax) 0)) := hret.2
  exact (retFromIntr_context (hk.mono (by simp)) hframe).trans (regsContext_regs _ _ _)

/-- **A program does not see that it has been interrupted.** Whatever the functions do with the registers
and with memory, as long as they leave the frame alone: all registers, segments and flags, the instruction
and the stack are those of before, for every exception and every interrupt, and each function gets the frame
of the context. -/
theorem interrupt_transparent (hk : k.Keeps 25) (g : Gate) (c : Cpu) :
    (∀ (e : Exception) (code : Word),
      Called (e.toCall k g code c) c.context (k.sym e.func) (e.errCode code) ∧
      (e.handle k g code c).context = c.context) ∧
    ∀ nr, ((irqToCall k nr g c).Stack
        (k.sym .retFromIntr :: regsWords (c.context.regs (c.reg .rax) 0)) ∧
      (irqToCall k nr g c).reg .rdi = (irqToCall k nr g c).rsp + 8 ∧
      (irqToCall k nr g c).reg .rsi = nr) ∧
      ∃ d, irqHandle k nr g c = some d ∧ d.context = c.context :=
  ⟨fun e code => ⟨e.toCall_called g code c, e.handle_context (hk.mono (by simp)) g code c⟩,
    fun nr => ⟨irqToCall_stack nr g c, irqHandle_context hk nr g c⟩⟩

/-- Functions that leave other values in registers and flags, and a program in user mode. -/
def busyImage : Image :=
  ⟨fun _ => 0, fun _ c => ((c.set .rax 0x2a).set .rbx 0x2b).set .r12 0x2c, fun c => c.rflags ^^^ 0x8d5⟩

theorem busyImage_keeps (n : Nat) : busyImage.Keeps n := ⟨fun _ _ => rfl, fun _ _ _ _ => rfl⟩

def userCpu : Cpu :=
  ⟨⟨fun _ => 7, 0x9ffff8, fun _ => 0⟩, fun _ => 0x30, 0x28, 0x30, 0x800000, 0x202⟩

def userGate : Gate := ⟨0x8000, 0x100000, 8, 0x10, 2⟩

theorem interrupt_transparent_user :
    (Exception.pageFault.handle busyImage userGate 6 userCpu).context = userCpu.context ∧
    ∃ d, irqHandle busyImage 0x21 userGate userCpu = some d ∧ d.context = userCpu.context :=
  have h := interrupt_transparent (busyImage_keeps 25) userGate userCpu
  ⟨(h.1 .pageFault 6).2, (h.2 0x21).2⟩

end Talios.Interrupt
