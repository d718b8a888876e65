import Talios.Interrupt.Entry

set_option autoImplicit false

/-! # System calls

A call of the user library, `LABEL_SYSCALL` in `user/lib.c`, and `Syscall` and `ret_system_call` in
`entry.S`. `sysenter` and `sysexit` keep nothing themselves: the user side passes the address to return to
and its stack in `r10` and `r11`, and the kernel side swaps them with `rdx` and `rcx` for `sysexit`.

`systemCall_returns` is a whole call; `forked_child` and `exec_starts` are the two ways in which a program
comes out of a call that it has not made.
-/

namespace Talios.Interrupt

open Machine

/-! ## The calls -/

/-- The functions of `syscalls.h`. -/
inductive SysFunc
  | noSystemCall | sysPutstring | sysOpen | sysClose | sysRead | sysWrite | sysLseek | sysFork | sysVfork
  | sysExecve | sysBrk | sysIoctl | sysReboot | sysChdir | sysFchdir | sysGetdents
deriving DecidableEq

def MAX_SYSTEM_CALL_NR : Nat := 128

/-- `system_call_table`. -/
def systemCallTable : Nat → SysFunc
  | 1 => .sysPutstring
  | 2 => .sysOpen
  | 3 => .sysClose
  | 4 => .sysRead
  | 5 => .sysWrite
  | 6 => .sysLseek
  | 7 => .sysFork
  | 8 => .sysVfork
  | 9 => .sysExecve
  | 10 => .sysBrk
  | 11 => .sysIoctl
  | 12 => .sysReboot
  | 13 => .sysChdir
  | 14 => .sysFchdir
  | 15 => .sysGetdents
  | _ => .noSystemCall

/-- The functions that `SYSFUNC_DEF` makes in the user library. -/
inductive LibFunc
  | putstring | open | close | read | lseek | write | fork | vfork | execve | brk | reboot | chdir | fchdir
  | getdents
deriving DecidableEq

/-- `__NR_name`, in the user library. -/
def LibFunc.nr : LibFunc → Nat
  | putstring => 1
  | .open => 2
  | close => 3
  | read => 4
  | write => 5
  | lseek => 6
  | fork => 7
  | vfork => 8
  | execve => 9
  | brk => 10
  | reboot => 12
  | chdir => 13
  | fchdir => 14
  | getdents => 15

/-- The function of the kernel with that name. -/
def LibFunc.sysFunc : LibFunc → SysFunc
  | putstring => .sysPutstring
  | .open => .sysOpen
  | close => .sysClose
  | read => .sysRead
  | write => .sysWrite
  | lseek => .sysLseek
  | fork => .sysFork
  | vfork => .sysVfork
  | execve => .sysExecve
  | brk => .sysBrk
  | reboot => .sysReboot
  | chdir => .sysChdir
  | fchdir => .sysFchdir
  | getdents => .sysGetdents

/-- The two lists of numbers agree. -/
theorem systemCallTable_nr (f : LibFunc) :
    f.nr < MAX_SYSTEM_CALL_NR ∧ systemCallTable f.nr = f.sysFunc := by
  cases f <;> exact ⟨by decide, rfl⟩

/-! ## Into the kernel and back -/

/-- What a user program is linked with: the label behind `sysenter`, and `errno`. -/
structure UserImage where
  label : Word
  errno : Word

/-- `LABEL_SYSCALL` of `user/lib.c`, up to `sysenter`. -/
def labelSyscall (u : UserImage) (nr : Word) : List Instr :=
  [.movImm nr .rax, .push .r11, .push .r10, .movImm u.label .r10, .movRsp .r11]

/-- `sysenter`, with the registers that `TaskInit` and `__Switch_To` set up. -/
def sysenter (esp : Word) (c : Cpu) : Cpu :=
  { c with rsp := esp, cs := 8, ss := 0x10, rflags := c.rflags &&& ~~~ 0x200#64 }

/-- `Syscall`, up to the call. -/
def syscallEntry : List Instr :=
  [.sti, .subRsp 0x38, .cld] ++ saveRegs ++
    [.movImm 0x10 .rax, .toSeg .rax .ds, .toSeg .rax .es, .load RAX .rax, .lea .systemCallTable .rbx]

/-- `ret_system_call`, up to `sysexit`. -/
def retSystemCall : List Instr :=
  [.store .rax RAX] ++ popRegs ++ [.addRsp 0x38, .xchg .r11 .rcx, .xchg .r10 .rdx, .sti]

/-- `sysexit`, for a program of 64 bits. -/
def sysexit (c : Cpu) : Cpu :=
  { c with rip := c.reg .rdx, rsp := c.reg .rcx, cs := 0x2b, ss := 0x33 }

/-- Behind `sysenter`: the registers are taken back, an error goes to `errno`, and the call returns. -/
def labelSyscallRet (k : Image) (u : UserImage) (c : Cpu) : Cpu :=
  let c := run k c [.xchg .rdx .r10, .xchg .rcx .r11, .pop .r10, .pop .r11]
  let c := { c with rflags := k.alu c }
  let c :=
    if c.reg .rax < -0x1000 then c
    else { c.set .rax (-1) with mem := Function.update c.mem u.errno (c.reg .rax) }
  { c with rip := c.mem c.rsp, rsp := c.rsp + 8 }

/-- A call, up to the instruction that calls the function of the kernel. -/
def syscallToCall (k : Image) (u : UserImage) (esp : Word) (nr : Word) (c : Cpu) : Cpu :=
  run k (sysenter esp (run k c (labelSyscall u nr))) syscallEntry

/-- The kernel from there on. -/
def syscallBack (k : Image) (c : Cpu) : Cpu :=
  sysexit (run k (run k c [.callIndexed .rbx .rax, .store .rax RAX]) retSystemCall)

/-- A call of the user library; there is no result if it comes back to another place. -/
def systemCall (k : Image) (u : UserImage) (esp : Word) (nr : Word) (c : Cpu) : Option Cpu :=
  let c := syscallBack k (syscallToCall k u esp nr c)
  if c.rip = u.label then some (labelSyscallRet k u c) else none

/-! ## `ret_system_call` -/

section

variable {k : Image} {c : Cpu} {p : PtRegs}

/-- The registers of a program that comes out of the kernel. -/
def exitReg (p : PtRegs) (rax : Word) : Reg → Word
  | .rax => rax
  | .rcx => regsReg p .r11
  | .r11 => regsReg p .rcx
  | .rdx => regsReg p .r10
  | .r10 => regsReg p .rdx
  | r => regsReg p r

/-- `rax` goes to its place in the frame. -/
theorem store_rax (h : c.Stack (regsWords p)) :
    (run k c [.store .rax RAX]).Stack (regsWords { p with rax := (c.reg .rax).toNat }) := by
  have hset := WordsAt.set (v := c.reg .rax) h (by simp [regsWords]) (i := 16) (by simp [regsWords])
  have hwords : (regsWords p).set 16 (c.reg .rax)
      = regsWords { p with rax := (c.reg .rax).toNat } := by
    simp [regsWords, BitVec.ofNat_toNat]
  rw [hwords] at hset
  exact hset

/-- **`ret_system_call` and `sysexit`**: the program goes on at `r10`, with the stack at `r11`, and has in
`rax` what is there when the kernel leaves, not what the frame says. -/
theorem retSystemCall_exit (h : c.Stack (regsWords p)) :
    (sysexit (run k c retSystemCall)).reg = exitReg p (c.reg .rax) ∧
    (sysexit (run k c retSystemCall)).seg = regsSeg p ∧
    (sysexit (run k c retSystemCall)).rip = regsReg p .r10 ∧
    (sysexit (run k c retSystemCall)).rsp = regsReg p .r11 ∧
    (sysexit (run k c retSystemCall)).mem = Function.update c.mem (c.rsp + RAX) (c.reg .rax) := by
  have hstored := store_rax (k := k) h
  rw [retSystemCall, run_append, run_append]
  have hpop := popRegs_run (k := k) hstored
  rw [hpop]
  have hreg : ∀ r, r ≠ .rax → regsReg { p with rax := (c.reg .rax).toNat } r = regsReg p r := by
    intro r hr
    cases r <;> first | rfl | exact absurd rfl hr
  have hrax : regsReg { p with rax := (c.reg .rax).toNat } .rax = c.reg .rax := BitVec.ofNat_toNat _ _
  refine ⟨?_, rfl, hreg .r10 (by decide), hreg .r11 (by decide), rfl⟩
  funext r
  cases r <;> simp [run, Instr.exec, Cpu.set, sysexit, exitReg, hreg, hrax]

/-- What a call of the library returns for the value of the kernel's function. -/
def returned (v : Word) : Word := if v < -0x1000 then v else -1

/-- The registers of a program that comes out of the call it has made. -/
structure CameBack (u : UserImage) (c : Cpu) (v : Word) (d : Cpu) : Prop where
  reg : d.reg = Function.update c.reg .rax (returned v)
  seg : d.seg = c.seg
  rip : d.rip = c.mem c.rsp
  rsp : d.rsp = c.rsp + 8
  errno : ¬ v < -0x1000 → d.mem u.errno = v

/-- Behind `sysenter`: the two registers that were swapped, and the two on the stack, are back. -/
theorem labelSyscallRet_cameBack {u : UserImage} {d : Cpu} {v : Word}
    (hreg : d.reg = exitReg p v)
    (hp : ∀ r, r ≠ .rax → r ≠ .r10 → r ≠ .r11 → regsReg p r = c.reg r) (hseg : d.seg = c.seg)
    (hrsp : d.rsp = c.rsp - 16)
    (hmem : WordsAt d.mem (c.rsp - 16) [c.reg .r10, c.reg .r11, c.mem c.rsp])
    (herrno : u.errno ≠ c.rsp) : CameBack u c v (labelSyscallRet k u d) := by
  obtain ⟨h10, h11, hra, -⟩ := hmem
  rw [← hrsp] at h10 h11 hra
  have htop : d.rsp + 8 + 8 = c.rsp := by
    rw [hrsp]
    bv_omega
  have hback : run k d [.xchg .rdx .r10, .xchg .rcx .r11, .pop .r10, .pop .r11]
      = { d with reg := Function.update c.reg .rax v, rsp := c.rsp } := by
    have hregs : (run k d [.xchg .rdx .r10, .xchg .rcx .r11, .pop .r10, .pop .r11]).reg
        = Function.update c.reg .rax v := by
      funext r
      simp only [run_cons, run_nil, Instr.exec, Cpu.set, State.pop, h10, h11, hreg]
      cases r <;> simp [exitReg, hp]
    have hsp : (run k d [.xchg .rdx .r10, .xchg .rcx .r11, .pop .r10, .pop .r11]).rsp = c.rsp := htop
    rw [← hregs, ← hsp]
    rfl
  rw [htop] at hra
  unfold labelSyscallRet
  rw [hback]
  dsimp only
  have hrax : Function.update c.reg .rax v .rax = v := Function.update_self _ _ _
  by_cases hv : v < -0x1000
  · rw [if_pos (hrax ▸ hv)]
    refine ⟨?_, hseg, hra, rfl, fun h => absurd hv h⟩
    rw [returned, if_pos hv]
  · rw [if_neg (hrax ▸ hv)]
    refine ⟨?_, hseg, ?_, rfl, fun _ => (Function.update_self _ _ _).trans hrax⟩
    · rw [returned, if_neg hv]
      exact Function.update_idem _ _ _
    · exact (Function.update_of_ne herrno.symm _ d.mem).trans hra

end

/-! ## A call -/

section

variable {k : Image} {u : UserImage} {esp : Word} {c : Cpu}

/-- The frame of a call: the registers at `sysenter`, and below them what the kernel stack has held. -/
def callFrame (esp : Word) (x : Cpu) : PtRegs :=
  let old (i : Nat) := x.mem (esp - 0x38 + 8 * BitVec.ofNat 64 i)
  { x.context.regs (old 0) (old 1) with
    rip := (old 2).toNat, cs := (old 3).toNat, rflag := (old 4).toNat, rsp := (old 5).toNat
    ss := (old 6).toNat }

/-- What the kernel finds when it calls the function. -/
structure AtCall (k : Image) (esp : Word) (x d : Cpu) : Prop where
  stack : d.Stack (regsWords (callFrame esp x))
  rsp : d.rsp = esp - 192
  rax : d.reg .rax = x.reg .rax
  rbx : d.reg .rbx = k.sym .systemCallTable
  reg : ∀ r, r ≠ .rax → r ≠ .rbx → d.reg r = x.reg r
  mem : WritesBelow esp 24 x.mem d.mem

theorem callFrame_words (esp : Word) (x : Cpu) : regsWords (callFrame esp x) = restoredRegs.map x.reg ++
    (x.seg .ds).setWidth 64 :: (x.seg .es).setWidth 64 :: x.reg .rax ::
      (List.range 7).map (fun i => x.mem (esp - 0x38 + 8 * BitVec.ofNat 64 i)) := by
  simp [regsWords, callFrame, Context.regs, restoredRegs, List.range_succ, Cpu.context]

theorem syscallEntry_atCall (k : Image) (esp : Word) (x : Cpu) :
    AtCall k esp x (run k (sysenter esp x) syscallEntry) := by
  rw [syscallEntry, run_append, run_append]
  have hold : (run k (sysenter esp x) [.sti, .subRsp 0x38, .cld]).Stack
      ((List.range 7).map (fun i => x.mem (esp - 0x38 + 8 * BitVec.ofNat 64 i))) := by
    refine wordsAt_iff.mpr (fun i hi => ?_)
    rw [List.getElem_map, List.getElem_range]
    rfl
  have hsave := saveRegs_stack (k := k) hold (by simp)
  obtain ⟨hmem, hrsp, hreg⟩ := saveRegs_run k (run k (sysenter esp x) [.sti, .subRsp 0x38, .cld])
  have hwrites := State.pushList_writesBelow
    (run k (sysenter esp x) [.sti, .subRsp 0x38, .cld]).toState
    (savedWords (run k (sysenter esp x) [.sti, .subRsp 0x38, .cld]))
  rw [State.pushList_rsp, savedWords_length] at hrsp
  rw [← hmem, savedWords_length] at hwrites
  generalize run k (run k (sysenter esp x) [.sti, .subRsp 0x38, .cld]) saveRegs = d at *
  have hstack : d.Stack (regsWords (callFrame esp x)) := by
    rw [callFrame_words]
    exact hsave
  have hrax : d.mem (d.rsp + RAX) = x.reg .rax :=
    frame_word hstack (i := 16) (by rfl) (by rw [callFrame_words]; rfl)
  have hesp : d.rsp = esp - 192 := by
    rw [hrsp]
    simp only [run_cons, run_nil, Instr.exec, sysenter]
    bv_omega
  refine ⟨hstack, hesp, hrax, rfl, fun r h1 h2 => ?_, ?_⟩
  · simp only [run_cons, run_nil, Instr.exec, Cpu.set, Function.update_of_ne h1,
      Function.update_of_ne h2]
    exact hreg r h1
  · intro b hb
    refine hwrites b (fun i hi => ?_)
    have hadd : esp - 0x38 - 8 * BitVec.ofNat 64 (i + 1) = esp - 8 * BitVec.ofNat 64 (i + 7 + 1) := by
      bv_omega
    have hne := hb (i + 7) (by omega)
    rw [← hadd] at hne
    exact hne

/-- Where things lie: the table of the functions, the top of the kernel's stack, the top of the user's and
`errno` are apart. -/
structure CallLayout (k : Image) (fn : SysFunc → Word) (u : UserImage) (esp : Word) (c : Cpu) : Prop where
  table : ∀ n < MAX_SYSTEM_CALL_NR,
    c.mem (k.sym .systemCallTable + 8 * BitVec.ofNat 64 n) = fn (systemCallTable n)
  tableKernel : ∀ n < MAX_SYSTEM_CALL_NR, ∀ i < 24,
    k.sym .systemCallTable + 8 * BitVec.ofNat 64 n ≠ esp - 8 * BitVec.ofNat 64 (i + 1)
  tableUser : ∀ n < MAX_SYSTEM_CALL_NR, ∀ i < 2,
    k.sym .systemCallTable + 8 * BitVec.ofNat 64 n ≠ c.rsp - 8 * BitVec.ofNat 64 (i + 1)
  userKernel : ∀ j < 3, ∀ i < 24,
    c.rsp - 16 + 8 * BitVec.ofNat 64 j ≠ esp - 8 * BitVec.ofNat 64 (i + 1)
  errno : u.errno ≠ c.rsp

/-- A call that leaves the frame alone, and the three words on top of the user's stack, from `b` on. -/
structure Calm (b : Word) (d d' : Cpu) : Prop where
  rsp : d'.rsp = d.rsp
  frame : ∀ i < 24, d'.mem (d.rsp + 8 * BitVec.ofNat 64 i) = d.mem (d.rsp + 8 * BitVec.ofNat 64 i)
  user : ∀ i < 3, d'.mem (b + 8 * BitVec.ofNat 64 i) = d.mem (b + 8 * BitVec.ofNat 64 i)

/-- What the library has done at `sysenter`. -/
structure AtSysenter (u : UserImage) (nr : Word) (c x : Cpu) : Prop where
  rax : x.reg .rax = nr
  r10 : x.reg .r10 = u.label
  r11 : x.reg .r11 = c.rsp - 16
  reg : ∀ r, r ≠ .rax → r ≠ .r10 → r ≠ .r11 → x.reg r = c.reg r
  seg : x.seg = c.seg
  stack : WordsAt x.mem (c.rsp - 16) [c.reg .r10, c.reg .r11, c.mem c.rsp]
  mem : WritesBelow c.rsp 2 c.mem x.mem

theorem labelSyscall_atSysenter (k : Image) (u : UserImage) (nr : Word) (c : Cpu) :
    AtSysenter u nr c (run k c (labelSyscall u nr)) := by
  have hsub : c.rsp - 8 - 8 = c.rsp - 16 := by bv_omega
  have htop : c.toState.Stack [c.mem c.rsp] := ⟨rfl, trivial⟩
  have hstack := htop.pushList [c.reg .r11, c.reg .r10] (by simp)
  have hwrites := c.toState.pushList_writesBelow [c.reg .r11, c.reg .r10]
  unfold State.Stack at hstack
  rw [State.pushList_rsp] at hstack
  refine ⟨rfl, rfl, hsub, fun r h1 h2 h3 => ?_, rfl, ?_, hwrites⟩
  · simp [run, labelSyscall, Instr.exec, Cpu.set, Cpu.push, State.push, h1, h2, h3]
  · have haddr : c.rsp - 8 * BitVec.ofNat 64 [c.reg .r11, c.reg .r10].length = c.rsp - 16 := by
      rw [show [c.reg .r11, c.reg .r10].length = 2 from rfl]
      bv_omega
    rw [haddr] at hstack
    exact hstack

/-- The word that `callq *(%rbx, %rax, 8)` reads. -/
theorem AtCall.entry {fn : SysFunc → Word} {x d : Cpu} {n : Nat} (h : AtCall k esp x d)
    (hx : AtSysenter u (BitVec.ofNat 64 n) c x) (hl : CallLayout k fn u esp c)
    (hn : n < MAX_SYSTEM_CALL_NR) :
    d.mem (d.reg .rbx + d.reg .rax * 8) = fn (systemCallTable n) := by
  rw [h.rbx, h.rax, hx.rax, BitVec.mul_comm, h.mem _ (fun i hi => hl.tableKernel n hn i hi),
    hx.mem _ (fun i hi => hl.tableUser n hn i hi)]
  exact hl.table n hn

/-- The user's words are there when the kernel calls the function. -/
theorem AtCall.userStack {fn : SysFunc → Word} {x d : Cpu} {nr : Word} (h : AtCall k esp x d)
    (hx : AtSysenter u nr c x) (hl : CallLayout k fn u esp c) :
    WordsAt d.mem (c.rsp - 16) [c.reg .r10, c.reg .r11, c.mem c.rsp] :=
  h.mem.holds hx.stack (fun i hi j hj => hl.userKernel j hj i hi)

/-- **A call of the library.** The kernel's function with its name is called, with the arguments in their
registers. If it leaves the frame alone, all registers but `rax` are as before the call, which returns to
its caller with the value, or with -1 and the value in `errno`. -/
theorem systemCall_returns {fn : SysFunc → Word} (hl : CallLayout k fn u esp c) (f : LibFunc) {d d' : Cpu}
    (hd : d = syscallToCall k u esp (BitVec.ofNat 64 f.nr) c) (hd' : d' = k.callee (fn f.sysFunc) d)
    (hcalm : Calm (c.rsp - 16) d d') :
    (∀ r ∈ [Reg.rdi, .rsi, .rdx, .rcx, .r8, .r9], d.reg r = c.reg r) ∧
    ∃ e, systemCall k u esp (BitVec.ofNat 64 f.nr) c = some e ∧ CameBack u c (d'.reg .rax) e := by
  obtain ⟨hnr, hfn⟩ := systemCallTable_nr f
  have hx := labelSyscall_atSysenter k u (BitVec.ofNat 64 f.nr) c
  have hat : AtCall k esp (run k c (labelSyscall u (BitVec.ofNat 64 f.nr))) d := by
    rw [hd]
    exact syscallEntry_atCall k esp _
  generalize run k c (labelSyscall u (BitVec.ofNat 64 f.nr)) = x at hx hat
  have hargs : ∀ r ∈ [Reg.rdi, .rsi, .rdx, .rcx, .r8, .r9], d.reg r = c.reg r := by
    intro r hr
    have hne : r ≠ .rax ∧ r ≠ .rbx ∧ r ≠ .r10 ∧ r ≠ .r11 := by
      refine ⟨?_, ?_, ?_, ?_⟩ <;> (rintro rfl; revert hr; decide)
    rw [hat.reg r hne.1 hne.2.1, hx.reg r hne.1 hne.2.2.1 hne.2.2.2]
  refine ⟨hargs, ?_⟩
  have hcall : run k d [.callIndexed .rbx .rax] = d' := by
    rw [hd', ← hfn]
    exact congrArg (fun a => k.callee a d) (hat.entry hx hl hnr)
  have hframe : d'.Stack (regsWords (callFrame esp x)) := by
    unfold State.Stack
    rw [hcalm.rsp]
    exact WordsAt.congr hat.stack (fun i hi => hcalm.frame i hi)
  have hstored := store_rax (k := k) hframe
  obtain ⟨hreg, hseg, hrip, hrsp, hmem⟩ := retSystemCall_exit (k := k) hstored
  have hexit : syscallBack k d = sysexit (run k (run k d' [.store .rax RAX]) retSystemCall) := by
    rw [← hcall]
    rfl
  rw [← hexit] at hreg hseg hrip hrsp hmem
  -- the frame has the registers of `sysenter`
  have hx10 : regsReg (callFrame esp x) .r10 = u.label := (BitVec.ofNat_toNat _ _).trans hx.r10
  have hx11 : regsReg (callFrame esp x) .r11 = c.rsp - 16 := (BitVec.ofNat_toNat _ _).trans hx.r11
  have hregs : ∀ r, r ≠ .rax → r ≠ .r10 → r ≠ .r11 →
      regsReg { callFrame esp x with rax := (d'.reg .rax).toNat } r = c.reg r := by
    intro r h1 h2 h3
    rw [← hx.reg r h1 h2 h3]
    cases r <;> first | exact absurd rfl h1 | exact BitVec.ofNat_toNat _ _
  have hsegs : (syscallBack k d).seg = c.seg := by
    have hsegs : regsSeg { callFrame esp x with rax := (d'.reg .rax).toNat } = x.seg :=
      regsSeg_regs x.context 0 0
    rw [hseg, hsegs, hx.seg]
  have huser : WordsAt (syscallBack k d).mem (c.rsp - 16) [c.reg .r10, c.reg .r11, c.mem c.rsp] := by
    refine WordsAt.congr (hat.userStack hx hl) (fun j hj => ?_)
    have hne : c.rsp - 16 + 8 * BitVec.ofNat 64 j ≠ d'.rsp + RAX := by
      have haddr : d'.rsp + RAX = esp - 8 * BitVec.ofNat 64 (7 + 1) := by
        rw [hcalm.rsp, hat.rsp, RAX]
        bv_omega
      rw [haddr]
      exact hl.userKernel j hj 7 (by decide)
    have hstore : (syscallBack k d).mem (c.rsp - 16 + 8 * BitVec.ofNat 64 j)
        = d'.mem (c.rsp - 16 + 8 * BitVec.ofNat 64 j) := by
      rw [hmem]
      exact (Function.update_of_ne hne _ _).trans (Function.update_of_ne hne _ _)
    rw [hstore]
    exact hcalm.user j hj
  refine ⟨labelSyscallRet k u (syscallBack k d), ?_,
    labelSyscallRet_cameBack hreg hregs hsegs (hrsp.trans hx11) huser hl.errno⟩
  unfold systemCall
  rw [← hd]
  exact if_pos (hrip.trans hx10)

end

/-- A kernel whose functions all lie at one address and return 5, and a program. -/
def fiveImage : Image := ⟨fun _ => 0x100000, fun _ c => c.set .rax 5, fun c => c.rflags⟩

def fiveUser : UserImage := ⟨0x800040, 0x800800⟩

def fiveCpu : Cpu :=
  ⟨⟨fun _ => 7, 0x9fffe0, fun _ => 0x300000⟩, fun _ => 0x30, 0x28, 0x30, 0x800020, 0x202⟩

theorem fiveLayout : CallLayout fiveImage (fun _ => 0x300000) fiveUser 0x8000 fiveCpu where
  table := fun _ _ => rfl
  tableKernel := fun n hn i hi => by
    have hsym : fiveImage.sym .systemCallTable = 0x100000#64 := rfl
    rw [MAX_SYSTEM_CALL_NR] at hn
    rw [hsym]
    bv_omega
  tableUser := fun n hn i hi => by
    have hsym : fiveImage.sym .systemCallTable = 0x100000#64 := rfl
    have hrsp : fiveCpu.rsp = 0x9fffe0#64 := rfl
    rw [MAX_SYSTEM_CALL_NR] at hn
    rw [hsym, hrsp]
    bv_omega
  userKernel := fun j hj i hi => by
    have hrsp : fiveCpu.rsp = 0x9fffe0#64 := rfl
    rw [hrsp]
    bv_omega
  errno := by decide

theorem systemCall_returns_five :
    ∃ e, systemCall fiveImage fiveUser 0x8000 (BitVec.ofNat 64 LibFunc.read.nr) fiveCpu = some e ∧
      CameBack fiveUser fiveCpu 5 e :=
  (systemCall_returns fiveLayout .read rfl rfl ⟨rfl, fun _ _ => rfl, fun _ _ => rfl⟩).2

/-! ## Programs that start -/

/-- The frame that `copy_thread` writes for the new task. -/
def copyThreadRegs (regs : PtRegs) (stackStart : Nat) : PtRegs :=
  { regs with rax := 0, rsp := stackStart }

section

variable {k : Image} {u : UserImage} {esp : Word} {c x d : Cpu}

/-- **A program that has been forked.** When its task is switched to, at `ret_system_call` with the frame of
`copy_thread`, it comes out of the call of its parent: the same place, stack and registers. But `rax` is
what the switch has left there, and not the zero in the frame. -/
theorem forked_child {nr : Word} {stackStart : Nat} (hx : AtSysenter u nr c x)
    (hframe : d.Stack (regsWords (copyThreadRegs (callFrame esp x) stackStart)))
    (huser : WordsAt d.mem (c.rsp - 16) [c.reg .r10, c.reg .r11, c.mem c.rsp])
    (hapart : ∀ j < 3, c.rsp - 16 + 8 * BitVec.ofNat 64 j ≠ d.rsp + RAX) (herrno : u.errno ≠ c.rsp) :
    (sysexit (run k d retSystemCall)).rip = u.label ∧
    CameBack u c (d.reg .rax) (labelSyscallRet k u (sysexit (run k d retSystemCall))) := by
  obtain ⟨hreg, hseg, hrip, hrsp, hmem⟩ := retSystemCall_exit (k := k) hframe
  have hx10 : regsReg (callFrame esp x) .r10 = u.label := (BitVec.ofNat_toNat _ _).trans hx.r10
  have hx11 : regsReg (callFrame esp x) .r11 = c.rsp - 16 := (BitVec.ofNat_toNat _ _).trans hx.r11
  have hregs : ∀ r, r ≠ .rax → r ≠ .r10 → r ≠ .r11 →
      regsReg (copyThreadRegs (callFrame esp x) stackStart) r = c.reg r := by
    intro r h1 h2 h3
    rw [← hx.reg r h1 h2 h3]
    cases r <;> first | exact absurd rfl h1 | exact BitVec.ofNat_toNat _ _
  have hsegs : regsSeg (copyThreadRegs (callFrame esp x) stackStart) = x.seg :=
    regsSeg_regs x.context 0 0
  refine ⟨hrip.trans hx10, labelSyscallRet_cameBack hreg hregs (by rw [hseg, hsegs, hx.seg])
    (hrsp.trans hx11) ?_ herrno⟩
  refine WordsAt.congr huser (fun j hj => ?_)
  rw [hmem]
  exact Function.update_of_ne (hapart j hj) _ _

end

/-- A task at `ret_system_call`, with a frame at the top of its stack. -/
def frameCpu (mem : Word → Word) (top : Word) (p : PtRegs) (rax : Word) : Cpu :=
  ⟨State.pushList ⟨fun _ => rax, top, mem⟩ (regsWords p).reverse, fun _ => 0x10, 8, 0x10, 0x100000, 2⟩

theorem frameCpu_stack (mem : Word → Word) (top : Word) (p : PtRegs) (rax : Word) :
    (frameCpu mem top p rax).Stack (regsWords p) := by
  have hempty : State.Stack (⟨fun _ => rax, top, mem⟩ : State Reg) [] := trivial
  have hpushed := hempty.pushList (regsWords p).reverse (by simp [regsWords])
  rw [List.reverse_reverse, List.append_nil] at hpushed
  exact hpushed

theorem forked_child_five :
    CameBack fiveUser fiveCpu 3 (labelSyscallRet fiveImage fiveUser (sysexit (run fiveImage
      (frameCpu (run fiveImage fiveCpu (labelSyscall fiveUser 7)).mem 0x10000
        (copyThreadRegs (callFrame 0x8000 (run fiveImage fiveCpu (labelSyscall fiveUser 7))) 0) 3)
      retSystemCall))) :=
  (forked_child (labelSyscall_atSysenter fiveImage fiveUser 7 fiveCpu) (frameCpu_stack _ _ _ _)
    (WritesBelow.holds (State.pushList_writesBelow _ _)
      (labelSyscall_atSysenter fiveImage fiveUser 7 fiveCpu).stack
      (by decide +kernel)) (by decide +kernel) (by decide)).2

section

variable {s s' : Exec} {env : ExecEnv}

theorem execLmm_regs {t : Exec} (h : execLmm s env = .next t ∨ ∃ err, execLmm s env = .error t err) :
    t.regs = s.regs := by
  unfold execLmm at h
  split at h
  · split at h
    · simp only [reduceCtorEq, ExecStage.error.injEq, false_or] at h
      obtain ⟨-, rfl, -⟩ := h
      rfl
    · split at h
      · simp only [ExecStage.next.injEq, reduceCtorEq, exists_false, or_false] at h
        rw [← h]
      · simp at h
  · simp only [ExecStage.next.injEq, reduceCtorEq, exists_false, or_false] at h
    rw [h]

theorem execMap_regs {t : Exec} (h : execMap s env = .next t ∨ ∃ err, execMap s env = .error t err) :
    t.regs = s.regs := by
  unfold execMap at h
  split at h
  · simp at h
  · split at h
    · simp at h
    · dsimp only at h
      split at h
      · simp only [reduceCtorEq, ExecStage.error.injEq, false_or] at h
        obtain ⟨-, rfl, -⟩ := h
        rfl
      · simp only [ExecStage.next.injEq, reduceCtorEq, exists_false, or_false] at h
        rw [← h]

theorem execLoad_regs {v : Nat} (h : execLoad s env = some (s', v)) : s'.regs = s.regs := by
  rcases execLoad_cases s env with ⟨-, hnone⟩ | ⟨err, -, -, hload⟩
  · rw [hnone] at h
    cases h
  · rw [hload] at h
    cases h
    rfl

/-- `do_execve` has written the registers of the new program when it returns, also where it fails. -/
theorem doExecve_regs {v : Nat} (h : doExecve s env = some (s', v)) : s'.regs = execRegs s.regs := by
  unfold doExecve at h
  cases hlmm : execLmm { s with regs := execRegs s.regs } env with
  | fault =>
      rw [hlmm] at h
      simp at h
  | error t err =>
      rw [hlmm] at h
      obtain ⟨rfl, -⟩ := by simpa using h
      exact execLmm_regs (.inr ⟨err, hlmm⟩)
  | next t =>
      have ht := execLmm_regs (.inl hlmm)
      rw [hlmm] at h
      dsimp only at h
      cases hmap : execMap t env with
      | fault =>
          rw [hmap] at h
          simp at h
      | error t' err =>
          rw [hmap] at h
          obtain ⟨rfl, -⟩ := by simpa using h
          exact (execMap_regs (.inr ⟨err, hmap⟩)).trans ht
      | next t' =>
          rw [hmap] at h
          rw [execLoad_regs h]
          exact (execMap_regs (.inl hmap)).trans ht

theorem doExecve_nomem (hv : s.files.vfork = true) (hb : env.lmmBlock = none) :
    doExecve s env = some ({ s with regs := execRegs s.regs, lmm := none }, negErr ENOMEM) := by
  unfold doExecve execLmm
  dsimp only
  rw [if_pos hv, hb]

/-- The registers in the frame that an `execve` has not written. -/
theorem regsReg_execRegs (p : PtRegs) {r : Reg} (hr : r ∉ [Reg.rax, .rcx, .rdx, .r10, .r11]) :
    regsReg (execRegs p) r = regsReg p r := by
  cases r <;> first | rfl | exact absurd (by decide) hr

/-- **A program that has been executed** comes out of the kernel at the start of the window and with its
stack at the end, with the data segments of the user. That is so whatever `do_execve` returns: a call that
fails does not come back either, but starts the window with the error in `rax`. -/
theorem exec_starts {k : Image} {d : Cpu} {v : Nat} (h : doExecve s env = some (s', v))
    (hframe : d.Stack (regsWords s'.regs)) (hrax : d.reg .rax = BitVec.ofNat 64 v) :
    (sysexit (run k d retSystemCall)).rip = BitVec.ofNat 64 CODE_START_ADDR ∧
    (sysexit (run k d retSystemCall)).rsp = BitVec.ofNat 64 STACK_START_ADDR ∧
    (∀ g, (sysexit (run k d retSystemCall)).seg g = BitVec.ofNat 16 USER_DS) ∧
    (sysexit (run k d retSystemCall)).reg .rax = BitVec.ofNat 64 v ∧
    ∀ r ∉ [Reg.rax, .rcx, .rdx, .r10, .r11],
      (sysexit (run k d retSystemCall)).reg r = regsReg s.regs r := by
  obtain ⟨hreg, hseg, hrip, hrsp, -⟩ := retSystemCall_exit (k := k) hframe
  rw [doExecve_regs h] at hreg hseg hrip hrsp
  refine ⟨hrip, hrsp, fun g => ?_, ?_, fun r hr => ?_⟩
  · rw [hseg]
    cases g <;> rfl
  · rw [hreg]
    exact hrax
  · rw [hreg, ← regsReg_execRegs s.regs hr]
    cases r <;> first | rfl | exact absurd (by decide) hr

end

theorem exec_starts_nomem :
    (sysexit (run fiveImage (frameCpu (fun _ => 0) 0x8000 (execRegs exampleVfork.regs)
      (BitVec.ofNat 64 (negErr ENOMEM))) retSystemCall)).rip = BitVec.ofNat 64 CODE_START_ADDR :=
  (exec_starts (doExecve_nomem (rfl : exampleVfork.files.vfork = true)
    (rfl : ({ exampleExec with lmmBlock := none } : ExecEnv).lmmBlock = none))
    (frameCpu_stack _ _ _ _) rfl).1

end Talios.Interrupt
