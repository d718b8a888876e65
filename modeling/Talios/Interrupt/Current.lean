import Talios.Interrupt.Threads
import Talios.Task.Stack

set_option autoImplicit false

/-! # `CURRENT` on the words of the processor

`Talios.Task.Stack` follows a page fault with numbers, and keeps of the segment its stacks. Here the gates are
packed word by word, the segment is an array of 32-bit words, and the entry code runs on the registers. The
numbers are those of the words: for `SetIdtGate` and `SysVectorInit`, for `main` and every switch of tasks, for
the stack of a gate, and so for `CURRENT` in `DoPageFault` and in `ret_from_exception`.
-/

namespace Talios.Interrupt

open Machine Word

/-! ## Gates -/

/-- The numbers of the words of a gate. -/
def GateStruct.toNat (g : GateStruct) : Talios.GateStruct := ⟨g.low.toNat, g.high.toNat⟩

def IdtTable.toNat (idt : IdtTable) (v : Nat) : Talios.GateStruct := (idt v).toNat

def Entries.toNat (es : Entries) : TrapEntries where
  divideError := (es.exception .divideError).toNat
  invalidTSS := (es.exception .invalidTSS).toNat
  pageFault := (es.exception .pageFault).toNat
  generalPurpose := (es.exception .generalPurpose).toNat
  doubleFault := (es.exception .doubleFault).toNat
  alignmentCheckFault := (es.exception .alignmentCheckFault).toNat
  undefinedOpcodeFault := (es.exception .undefinedOpcodeFault).toNat

/-- **`SetIdtGate` packs the numbers of a gate**, for a type of one byte and a stack of three bits. -/
theorem setIdtGate_toNat {flag ist : Word} (hflag : flag.toNat < 2 ^ 8) (hist : ist.toNat < 2 ^ 3)
    (addr : Word) :
    (setIdtGate flag ist addr).toNat = Talios.setIdtGate flag.toNat ist.toNat addr.toNat := by
  obtain ⟨lo, mid, hi, hlo, hmid, hhi, haddr⟩ := exists_parts addr
  have hzero : (0 : Word).toNat < 65536 := by decide
  obtain ⟨h0, h16, h32⟩ := parts_toNat hzero hzero hlo hmid haddr
  have hlow : (setIdtGate flag ist addr).low = movw 0 addr + movw 0 (addr >>> 16) <<< 48 + flag <<< 40 +
      ist <<< 32 + (0x8 : Word) <<< 16 := rfl
  have hhigh : (setIdtGate flag ist addr).high = addr >>> 16 >>> 16 := rfl
  refine congrArg₂ Talios.GateStruct.mk ?_ ?_
  · rw [hlow, packed_toNat (by omega) (by omega) hflag hist, h0, h16, haddr]
    omega
  · rw [hhigh, h32, haddr]
    omega

/-- **`SysVectorInit` fills the table with the same gates.** -/
theorem sysVectorInit_toNat (es : Entries) (idt : IdtTable) (v : Nat) :
    IdtTable.toNat (sysVectorInit es idt) v = Talios.sysVectorInit es.toNat (IdtTable.toNat idt) v := by
  obtain ⟨hset, hkeep⟩ := sysVectorInit_apply es idt
  have hgate : ∀ e : Exception, IdtTable.toNat (sysVectorInit es idt) e.vector
      = Talios.setTrapGate 1 (es.exception e).toNat := by
    intro e
    unfold IdtTable.toNat
    rw [hset e]
    exact setIdtGate_toNat (by decide) (by decide) (es.exception e)
  by_cases hex : ∃ e : Exception, v = e.vector
  · obtain ⟨e, rfl⟩ := hex
    rw [hgate e]
    cases e <;> rfl
  · have hne : ∀ e : Exception, v ≠ e.vector := fun e he => hex ⟨e, he⟩
    have hword : IdtTable.toNat (sysVectorInit es idt) v = IdtTable.toNat idt v :=
      congrArg GateStruct.toNat (hkeep v hne)
    rw [hword]
    unfold Talios.sysVectorInit
    split
    · exact absurd rfl (hne .divideError)
    · exact absurd rfl (hne .invalidTSS)
    · exact absurd rfl (hne .pageFault)
    · exact absurd rfl (hne .generalPurpose)
    · exact absurd rfl (hne .doubleFault)
    · exact absurd rfl (hne .alignmentCheckFault)
    · exact absurd rfl (hne .undefinedOpcodeFault)
    · rfl

/-- The gates of the exceptions stay when `InitIoApic` has set those of the interrupts. -/
theorem bootIdt_toNat (es : Entries) (idt : IdtTable) (e : Exception) :
    IdtTable.toNat (bootIdt es idt) e.vector = Talios.sysVectorInit es.toNat (IdtTable.toNat idt) e.vector := by
  have hlow : e.vector < 32 := by cases e <;> decide
  have hboot : bootIdt es idt e.vector = sysVectorInit es idt e.vector := by
    unfold bootIdt initIoApicGates
    rw [intrGates_apply, if_neg (by omega), (sysVectorInit_apply es _).1 e, (sysVectorInit_apply es idt).1 e]
  rw [← sysVectorInit_toNat]
  exact congrArg GateStruct.toNat hboot

/-! ## The segment -/

/-- The segment has these stacks. -/
structure Tss.Has (t : Tss) (tss : TssStruct) : Prop where
  rsp0 : (loadLong t (rspField 0)).toNat = tss.rsp0
  rsp1 : (loadLong t (rspField 1)).toNat = tss.rsp1
  rsp2 : (loadLong t (rspField 2)).toNat = tss.rsp2
  ist : ∀ n, 1 ≤ n → n ≤ 7 → (loadLong t (istField n)).toNat = tss.ist n

/-- A segment with the fields of another, but for the first. -/
theorem Tss.Has.sameFields {t t' : Tss} {tss : TssStruct} (h : t.Has tss) {rsp0 : Word}
    (hf : t'.SameFields t rsp0) : t'.Has (switchTss tss rsp0.toNat) where
  rsp0 := by rw [hf _ (by decide), if_pos rfl]; rfl
  rsp1 := by rw [hf _ (by decide), if_neg (by decide), h.rsp1]; rfl
  rsp2 := by rw [hf _ (by decide), if_neg (by decide), h.rsp2]; rfl
  ist := by
    intro n h1 h2
    have hne : istField n ≠ rspField 0 := by unfold istField rspField; omega
    rw [hf _ (by unfold istField; omega), if_neg hne, h.ist n h1 h2]
    rfl

/-- **`__Switch_To` changes the stacks as `switchTss` does.** -/
theorem Tss.Has.switchTo {t : Tss} {tss : TssStruct} (h : t.Has tss) (rsp0 : Word) :
    Has (switchTo t rsp0) (switchTss tss rsp0.toNat) := by
  refine h.sameFields fun j hj => ?_
  unfold Interrupt.switchTo
  rw [setTssAgain_field hj, loadLong_storeLong, loadLong_storeLong_odd (by decide) hj]
  split_ifs <;> rfl

/-- `TaskInit` is one more switch. -/
theorem Tss.Has.taskInit {t : Tss} {tss : TssStruct} (h : t.Has tss) (rsp0 : Word) :
    Has (taskInitTss t rsp0) (switchTss tss rsp0.toNat) := by
  refine h.sameFields fun j hj => ?_
  unfold taskInitTss
  rw [loadLong_storeLong_odd (by decide) hj, setTssAgain_field hj]
  split_ifs <;> rfl

/-- `main` does not touch what `SetTss` has put in front of the interrupt stacks. -/
theorem mainTss_rsp (t : Tss) (stackStart istPtr : Word) {n : Nat} (hn : n ≤ 2) :
    loadLong (mainTss t stackStart istPtr) (rspField n) = stackStart := by
  have hkeep : ∀ (m k : Nat) (t : Tss), 1 ≤ k →
      loadLong ((List.range' k m).foldl (fun t n => storeLong t (istField n) istPtr) t) (rspField n)
        = loadLong t (rspField n) := by
    intro m
    induction m with
    | zero => exact fun _ _ _ => rfl
    | succ m ih =>
        intro k t hk
        have hne : rspField n ≠ istField k := by unfold istField rspField; omega
        rw [List.range'_succ, List.foldl_cons, ih (k + 1) _ (by omega),
          loadLong_storeLong_odd (by unfold istField; omega) (by unfold rspField; omega), if_neg hne]
  unfold mainTss
  dsimp only
  rw [hkeep 7 1 _ (le_refl 1)]
  unfold setTss
  dsimp only
  have hodd : rspField n % 2 = 1 := by unfold rspField; omega
  simp only [loadLong_storeLong_odd (by decide : 1 % 2 = 1) hodd, loadLong_storeLong_odd (by decide : 3 % 2 = 1) hodd,
    loadLong_storeLong_odd (by decide : 5 % 2 = 1) hodd, loadLong_storeLong_odd (by decide : 9 % 2 = 1) hodd,
    loadLong_storeLong_odd (by decide : 11 % 2 = 1) hodd, loadLong_storeLong_odd (by decide : 13 % 2 = 1) hodd,
    loadLong_storeLong_odd (by decide : 15 % 2 = 1) hodd, loadLong_storeLong_odd (by decide : 17 % 2 = 1) hodd,
    loadLong_storeLong_odd (by decide : 19 % 2 = 1) hodd, loadLong_storeLong_odd (by decide : 21 % 2 = 1) hodd]
  interval_cases n <;> rfl

theorem mainTss_has (t : Tss) (stackStart istPtr : Word) {p : Nat} (hp : istPtr.toNat = p + STACK_SIZE) :
    (mainTss t stackStart istPtr).Has (Talios.mainTss stackStart.toNat p) where
  rsp0 := congrArg BitVec.toNat (mainTss_rsp t stackStart istPtr (by decide))
  rsp1 := congrArg BitVec.toNat (mainTss_rsp t stackStart istPtr (by decide))
  rsp2 := congrArg BitVec.toNat (mainTss_rsp t stackStart istPtr (by decide))
  ist := fun n h1 h2 => by rw [mainTss_ist stackStart istPtr h1 h2, hp]; rfl

/-- **After any switches** the segment has the stacks that the numbers say. -/
theorem bootTss_has (t : Tss) (stackStart istPtr rsp0 : Word) (switches : List Word) {p : Nat}
    (hp : istPtr.toNat = p + STACK_SIZE) :
    (bootTss t stackStart istPtr rsp0 switches).Has
      (((rsp0 :: switches).map BitVec.toNat).foldl switchTss (Talios.mainTss stackStart.toNat p)) := by
  have hrun : ∀ (switches : List Word) (t : Tss) (tss : TssStruct), t.Has tss →
      Tss.Has (switches.foldl switchTo t) ((switches.map BitVec.toNat).foldl switchTss tss) := by
    intro switches
    induction switches with
    | nil => exact fun _ _ h => h
    | cons r switches ih => exact fun t tss h => ih _ _ (h.switchTo r)
  exact hrun switches _ _ ((mainTss_has t stackStart istPtr hp).taskInit rsp0)

/-! ## A page fault -/

def Cpu.mode (c : Cpu) : CpuMode := if c.cpl ≠ 0 then .user else .kernel

theorem aligned_toNat (a : Word) : (a &&& ~~~(0xf : Word)).toNat = alignDown 16 a.toNat := by
  have hmask : ~~~(0xf : Word) = ~~~BitVec.ofNat 64 (2 ^ 4 - 1) := by decide
  rw [hmask, mask_toNat]
  rfl

/-- **The processor takes the stack of `gateStack`.** -/
theorem deliver_top {t : Tss} {tss : TssStruct} (h : t.Has tss) (g : GateStruct) (c : Cpu) :
    (deliver t g c).top.toNat = alignDown 16 (gateStack tss g.toNat c.mode c.rsp.toNat) := by
  have hnum : g.ist.toNat = g.toNat.low / 2 ^ 32 % 8 := by
    unfold GateStruct.ist GateStruct.toNat
    rw [BitVec.extractLsb'_toNat, Nat.shiftRight_eq_div_pow]
  have hlt : g.ist.toNat < 8 := g.ist.isLt
  unfold deliver gateStack
  dsimp only
  rw [aligned_toNat, ← hnum]
  congr 1
  by_cases hist : g.ist = 0
  · have h0 : g.ist.toNat = 0 := by
      rw [hist]
      rfl
    rw [if_neg (show ¬ g.ist ≠ 0 from not_not.mpr hist), if_neg (show ¬ g.ist.toNat ≠ 0 from not_not.mpr h0)]
    unfold Cpu.mode Cpu.cpl
    by_cases hcpl : c.cs.setWidth 2 ≠ 0
    · rw [if_pos hcpl, if_pos hcpl, h.rsp0]
    · rw [if_neg hcpl, if_neg hcpl]
  · have hne : g.ist.toNat ≠ 0 := fun h0 => hist (BitVec.eq_of_toNat_eq h0)
    rw [if_pos hist, if_pos hne]
    exact h.ist _ (by omega) (by omega)

theorem getCurrent_number (a : Word) : (getCurrent a).toNat = Talios.getCurrent a.toNat := getCurrent_toNat a

/-- `GET_CURRENT(%rbx)` computes `GetCurrent`. -/
theorem getCurrentRbx_run (k : Image) (c : Cpu) :
    (run k c getCurrentRbx).reg .rbx = getCurrent c.rsp := by
  simp only [getCurrentRbx, run_cons, run_nil, Instr.exec, Cpu.set, Function.update_self]
  rfl

/-- `n` words are pushed. -/
theorem iterate_push (n : Nat) (a : Word) : (fun a : Word => a - 8)^[n] a = a - 8 * BitVec.ofNat 64 n := by
  induction n generalizing a with
  | zero => exact (BitVec.sub_zero a).symm
  | succ n ih =>
      rw [Function.iterate_succ_apply, ih, BitVec.ofNat_add]
      bv_omega

/-- An entry has pushed 24 words when its function is called. -/
theorem Exception.toCall_rsp (k : Image) (e : Exception) (g : Gate) (code : Word) (c : Cpu) :
    (e.toCall k g code c).rsp = g.top - 192 := by
  have hpushes : (e.toCall k g code c).rsp = (fun a : Word => a - 8)^[24] g.top := by
    cases e <;> rfl
  rw [hpushes, iterate_push]
  rfl

theorem toNat_sub_ofNat {a : Word} {n : Nat} (h : n ≤ a.toNat) :
    (a - BitVec.ofNat 64 n).toNat = a.toNat - n := by
  have ha := a.isLt
  rw [BitVec.toNat_sub, BitVec.toNat_ofNat]
  omega

/-- **`CURRENT` in `DoPageFault` and in `ret_from_exception`** is what the numbers say, for a fault in any mode
on any segment and gate, where the stack has room for the frame. -/
theorem pageFault_current_toNat {t : Tss} {tss : TssStruct} (h : t.Has tss) (g : GateStruct) (k : Image)
    (code : Word) (c : Cpu) {frame : Nat} (hroom : 200 + frame ≤ (deliver t g c).top.toNat) :
    (getCurrent ((Exception.pageFault.toCall k (deliver t g c) code c).rsp - 8 - BitVec.ofNat 64 frame)).toNat
      = doPageFaultCurrent tss g.toNat c.mode c.rsp.toNat frame ∧
    ∀ d : Cpu, d.rsp = (Exception.pageFault.toCall k (deliver t g c) code c).rsp →
      ((run k d getCurrentRbx).reg .rbx).toNat
        = retFromExceptionCurrent tss g.toNat c.mode c.rsp.toNat := by
  have htop := deliver_top h g c
  have hrsp : (Exception.pageFault.toCall k (deliver t g c) code c).rsp.toNat = (deliver t g c).top.toNat - 192 := by
    rw [Exception.toCall_rsp]
    exact toNat_sub_ofNat (n := 192) (by omega)
  unfold doPageFaultCurrent retFromExceptionCurrent faultRsp
  rw [← htop]
  refine ⟨?_, fun d hd => ?_⟩
  · have hcall : ((Exception.pageFault.toCall k (deliver t g c) code c).rsp - 8).toNat
        = (deliver t g c).top.toNat - 192 - 8 := by
      rw [← hrsp]
      exact toNat_sub_ofNat (n := 8) (by omega)
    rw [getCurrent_number, toNat_sub_ofNat (by omega), hcall]
    refine congrArg Talios.getCurrent ?_
    omega
  · rw [getCurrentRbx_run, getCurrent_number, hd, hrsp]
    refine congrArg Talios.getCurrent ?_
    omega

/-- **After the start of the kernel and any switches**, whoever faults, `CURRENT` is the interrupt stack. -/
theorem bootTables_current (es : Entries) (idt : IdtTable) (t : Tss) {istPtr : Word} {p : Nat}
    (hp : istPtr.toNat = p + STACK_SIZE) (hal : STACK_SIZE ∣ p) (stackStart rsp0 : Word) (switches : List Word)
    (k : Image) (code : Word) (c : Cpu) {g : Gate}
    (hg : g = deliver (bootTss t stackStart istPtr rsp0 switches) (bootIdt es idt Exception.pageFault.vector) c)
    {frame : Nat} (hroom : frame + 200 ≤ STACK_SIZE) :
    (getCurrent ((Exception.pageFault.toCall k g code c).rsp - 8 - BitVec.ofNat 64 frame)).toNat = p ∧
    ∀ d : Cpu, d.rsp = (Exception.pageFault.toCall k g code c).rsp →
      ((run k d getCurrentRbx).reg .rbx).toNat = p := by
  have htss := bootTss_has t stackStart istPtr rsp0 switches hp
  have hgate : (bootIdt es idt Exception.pageFault.vector).toNat
      = Talios.sysVectorInit es.toNat (IdtTable.toNat idt) 14 := bootIdt_toNat es idt .pageFault
  obtain ⟨hfault, hret⟩ := pageFault_current hal es.toNat (IdtTable.toNat idt) stackStart.toNat
    ((rsp0 :: switches).map BitVec.toNat) c.mode c.rsp.toNat
  have htop : g.top.toNat = p + STACK_SIZE := by
    rw [hg, deliver_top htss, hgate]
    exact alignDown_gateStack hal es.toNat _ _ _ _ _
  subst hg
  have hsame := @pageFault_current_toNat _ _ htss (bootIdt es idt Exception.pageFault.vector) k code c
    frame (by rw [htop]; omega)
  rw [hgate, hfault frame hroom, hret] at hsame
  exact hsame

end Talios.Interrupt
