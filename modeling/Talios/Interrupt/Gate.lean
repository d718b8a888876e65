import Talios.Interrupt.Entry

set_option autoImplicit false

/-! # The tables that the processor delivers interrupts with

The gates of the interrupt descriptor table and the task state segment, as `head.S`, `SetIdtGate`, `SetTss` and
`__Switch_To` write them, and what the processor reads from them. A gate is packed by shifts and additions
from an address, a number of a stack and a type; `vectors_delivered` says where each of the 256 vectors
leads, and on which stack, after the start of the kernel and any switches of tasks.
-/

namespace Talios.Interrupt

open Machine

/-! ## Gates -/

/-- `struct GateStruct`. -/
structure GateStruct where
  low : Word
  high : Word

/-- `movw`: the low half of the low half is replaced. -/
def movw (d s : Word) : Word := (d &&& ~~~0xffff) ||| (s &&& 0xffff)

/-- `SetIdtGate`, with what it puts into `(%rdi)`. -/
def setIdtGate (flag ist codeAddr : Word) : GateStruct :=
  let rsi := flag
  let rdx := ist
  let rcx := codeAddr
  let rax : Word := 0
  let rbx : Word := 0
  let rax := movw rax rcx
  let rcx := rcx >>> 16
  let rbx := movw rbx rcx
  let rcx := rcx >>> 16
  let rbx := rbx <<< 48
  let rax := rax + rbx
  let rsi := rsi <<< 40
  let rax := rax + rsi
  let rdx := rdx <<< 32
  let rax := rax + rdx
  let rbx := (0x8 : Word) <<< 16
  let rax := rax + rbx
  ⟨rax, rcx⟩

/-- `setup_IDT`, up to its loop. `SelectorData64` is in `rax` before, and the number of a register in
`rcx`. -/
def setupIDT (ignoreIDT : Word) : GateStruct :=
  let rax : Word := 0x10
  let rcx : Word := 0x1b
  let rdx := ignoreIDT
  let rax := movw rax rdx
  let rdx := rdx >>> 16
  let rcx := movw rcx rdx
  let rdx := rdx >>> 16
  let rcx := rcx <<< 48
  let rax := rax + rcx
  let rcx := (0x8e00 : Word) <<< 32
  let rax := rax + rcx
  let rcx := (0x8 : Word) <<< 16
  let rax := rax + rcx
  ⟨rax, rdx⟩

abbrev IdtTable := Nat → GateStruct

/-- `st_IDT`, with `rcx` rounds left and `rdi` at entry `i`. -/
def stIDT (g : GateStruct) : Nat → Nat → IdtTable → IdtTable
  | 0, _, idt => idt
  | rcx + 1, i, idt => stIDT g rcx (i + 1) (Function.update idt i g)

def setIntrGate (idt : IdtTable) (num : Nat) (ist addr : Word) : IdtTable :=
  Function.update idt num (setIdtGate 0x8e ist addr)

def setTrapGate (idt : IdtTable) (num : Nat) (ist addr : Word) : IdtTable :=
  Function.update idt num (setIdtGate 0x8f ist addr)

/-- The addresses of the entries: of the exceptions, `interrupt` and `ignore_IDT`. -/
structure Entries where
  exception : Exception → Word
  interrupt : Nat → Word
  ignoreIDT : Word

/-- `SysVectorInit`. -/
def sysVectorInit (es : Entries) (idt : IdtTable) : IdtTable :=
  let idt := setTrapGate idt 0 1 (es.exception .divideError)
  let idt := setTrapGate idt 10 1 (es.exception .invalidTSS)
  let idt := setTrapGate idt 14 1 (es.exception .pageFault)
  let idt := setTrapGate idt 13 1 (es.exception .generalPurpose)
  let idt := setTrapGate idt 8 1 (es.exception .doubleFault)
  let idt := setTrapGate idt 17 1 (es.exception .alignmentCheckFault)
  setTrapGate idt 6 1 (es.exception .undefinedOpcodeFault)

/-- The loop over the gates in `InitIoApic`. -/
def initIoApicGates (es : Entries) (idt : IdtTable) : IdtTable :=
  (List.range' 32 24).foldl (fun idt i => setIntrGate idt i 0 (es.interrupt (i - 32))) idt

/-- The table after the start of the kernel. -/
def bootIdt (es : Entries) (idt : IdtTable) : IdtTable :=
  initIoApicGates es (sysVectorInit es (stIDT (setupIDT es.ignoreIDT) 256 0 idt))

/-! ## The task state segment -/

/-- `TssTable`, and `struct TssStruct`, which is packed: words of 32 bits. -/
abbrev Tss := Nat → BitVec 32

/-- A store through `(unsigned long *)(TssTable + i)`, or to a field at that place. -/
def storeLong (t : Tss) (i : Nat) (v : Word) : Tss :=
  Function.update (Function.update t i (v.setWidth 32)) (i + 1) ((v >>> 32).setWidth 32)

def loadLong (t : Tss) (i : Nat) : Word := (t i).setWidth 64 + (t (i + 1)).setWidth 64 <<< 32

/-- The places of the fields `rsp0`, `rsp1`, `rsp2`, and of `ist1` to `ist7`. -/
def rspField (n : Nat) : Nat := 1 + 2 * n
def istField (n : Nat) : Nat := 7 + 2 * n

/-- `SetTss`. -/
def setTss (t : Tss) (rsp0 rsp1 rsp2 ist1 ist2 ist3 ist4 ist5 ist6 ist7 : Word) : Tss :=
  let t := storeLong t 1 rsp0
  let t := storeLong t 3 rsp1
  let t := storeLong t 5 rsp2
  let t := storeLong t 9 ist1
  let t := storeLong t 11 ist2
  let t := storeLong t 13 ist3
  let t := storeLong t 15 ist4
  let t := storeLong t 17 ist5
  let t := storeLong t 19 ist6
  storeLong t 21 ist7

/-- `SetTss` with the fields as they are, but for the first. -/
def setTssAgain (t : Tss) (rsp0 : Word) : Tss :=
  setTss t rsp0 (loadLong t (rspField 1)) (loadLong t (rspField 2)) (loadLong t (istField 1))
    (loadLong t (istField 2)) (loadLong t (istField 3)) (loadLong t (istField 4)) (loadLong t (istField 5))
    (loadLong t (istField 6)) (loadLong t (istField 7))

/-- `main`, up to `ist7`. -/
def mainTss (t : Tss) (stackStart istPtr : Word) : Tss :=
  let t := setTss t stackStart stackStart stackStart 0xffff800000007c00 0xffff800000007c00
    0xffff800000007c00 0xffff800000007c00 0xffff800000007c00 0xffff800000007c00 0xffff800000007c00
  (List.range' 1 7).foldl (fun t n => storeLong t (istField n) istPtr) t

/-- `TaskInit`. -/
def taskInitTss (t : Tss) (rsp0 : Word) : Tss := storeLong (setTssAgain t rsp0) (rspField 0) rsp0

/-- `__Switch_To` to a thread with this `rsp0`. -/
def switchTo (t : Tss) (rsp0 : Word) : Tss :=
  let t := storeLong t (rspField 0) rsp0
  setTssAgain t (loadLong t (rspField 0))

/-- The segment after the start of the kernel and some switches. -/
def bootTss (t : Tss) (stackStart istPtr rsp0 : Word) (switches : List Word) : Tss :=
  switches.foldl switchTo (taskInitTss (mainTss t stackStart istPtr) rsp0)

/-- `setup_TSS64`: the descriptor of the segment, which the task register selects. -/
def setupTSS64 (initTss : Word) : GateStruct :=
  let rdx := initTss
  let rax : Word := 0x89
  let rax := rax <<< 40
  let ecx := rdx.setWidth 32
  let ecx := ecx >>> 24
  let rcx : Word := ecx.setWidth 64 <<< 56
  let rax := rax + rcx
  let ecx := rdx.setWidth 32
  let ecx := ecx &&& 0xffffff
  let rcx : Word := ecx.setWidth 64 <<< 16
  let rax := rax + rcx
  let rax := rax + 103
  ⟨rax, rdx >>> 32⟩

/-! ## The processor -/

namespace GateStruct

def offset (g : GateStruct) : Word :=
  (g.low.extractLsb' 0 16).setWidth 64 + (g.low.extractLsb' 48 16).setWidth 64 <<< 16 +
    (g.high.extractLsb' 0 32).setWidth 64 <<< 32

def selector (g : GateStruct) : BitVec 16 := g.low.extractLsb' 16 16
def ist (g : GateStruct) : BitVec 3 := g.low.extractLsb' 32 3
def type (g : GateStruct) : BitVec 4 := g.low.extractLsb' 40 4
def dpl (g : GateStruct) : BitVec 2 := g.low.extractLsb' 45 2
def present (g : GateStruct) : Bool := g.low.getLsbD 47

/-- What the two words mean as the descriptor of a segment. -/
def segBase (g : GateStruct) : Word :=
  (g.low.extractLsb' 16 24).setWidth 64 + (g.low.extractLsb' 56 8).setWidth 64 <<< 24 +
    (g.high.extractLsb' 0 32).setWidth 64 <<< 32

def segLimit (g : GateStruct) : Nat :=
  (g.low.extractLsb' 0 16).toNat + (g.low.extractLsb' 48 4).toNat * 2 ^ 16

end GateStruct

/-- Delivery through a gate to a handler at the highest privilege: the stack of the gate, or that of the task
where the privilege changes, or the one there is. An interrupt gate clears `IF`. -/
def deliver (t : Tss) (g : GateStruct) (c : Cpu) : Gate where
  top := (if g.ist ≠ 0 then loadLong t (istField g.ist.toNat)
    else if c.cs.setWidth 2 ≠ 0 then loadLong t (rspField 0) else c.rsp) &&& ~~~0xf
  handler := g.offset
  cs := g.selector
  ss := if c.cs.setWidth 2 ≠ 0 then 0 else c.ss
  rflags := c.rflags &&& ~~~(if g.type = 0xe then 0x34300 else 0x34100)

/-! ## Packing -/

/-- A gate leads to the address, in the code segment of the kernel, for the kernel's use, and is there. -/
structure GateStruct.LeadsTo (g : GateStruct) (addr : Word) (ist : BitVec 3) (type : BitVec 4) : Prop where
  offset : g.offset = addr
  selector : g.selector = 8
  ist : g.ist = ist
  type : g.type = type
  dpl : g.dpl = 0
  present : g.present = true

theorem movw_toNat {d : Word} (hd : d.toNat < 65536) (s : Word) : (movw d s).toNat = s.toNat % 65536 := by
  have hmask : d &&& ~~~0xffff#64 = 0#64 := by
    apply BitVec.eq_of_getLsbD_eq
    intro i hi
    rw [BitVec.getLsbD_and, BitVec.getLsbD_not, BitVec.getLsbD_zero]
    by_cases h16 : i < 16
    · have hbit : (0xffff#64).getLsbD i = true := by
        interval_cases i <;> rfl
      rw [hbit, Bool.not_true, Bool.and_false, Bool.and_false]
    · have hpow : 2 ^ 16 ≤ 2 ^ i := Nat.pow_le_pow_right (by decide) (by omega)
      have hbit : d.getLsbD i = false := Nat.testBit_lt_two_pow (by omega)
      rw [hbit, Bool.false_and]
  show ((d &&& ~~~0xffff#64) ||| (s &&& 0xffff#64)).toNat = _
  rw [hmask, BitVec.zero_or, BitVec.toNat_and]
  exact Nat.and_two_pow_sub_one_eq_mod s.toNat 16

/-- The words of a gate, by the numbers that are packed. -/
structure GateStruct.Packs (g : GateStruct) (lo mid hi ist type : Nat) : Prop where
  low : g.low.toNat = lo + mid * 2 ^ 48 + (2 ^ 47 + type * 2 ^ 40) + ist * 2 ^ 32 + 8 * 2 ^ 16
  high : g.high.toNat = hi
  lo_lt : lo < 2 ^ 16
  mid_lt : mid < 2 ^ 16
  hi_lt : hi < 2 ^ 32
  ist_lt : ist < 2 ^ 3
  type_lt : type < 2 ^ 4

/-- A field is the rest of what stands in front of its place. -/
theorem field_toNat {x : Word} {start n front : Nat} (h1 : front * 2 ^ start ≤ x.toNat)
    (h2 : x.toNat < (front + 1) * 2 ^ start) : (x.extractLsb' start n).toNat = front % 2 ^ n := by
  rw [BitVec.extractLsb'_toNat, Nat.shiftRight_eq_div_pow, Nat.div_eq_of_lt_le h1 h2]

/-- What the processor reads is what has been packed. -/
theorem GateStruct.Packs.leadsTo {g : GateStruct} {lo mid hi : Nat} {ist : BitVec 3} {type : BitVec 4}
    (h : g.Packs lo mid hi ist.toNat type.toNat) {addr : Word} (haddr : addr.toNat = lo + mid * 2 ^ 16 + hi * 2 ^ 32) :
    g.LeadsTo addr ist type := by
  obtain ⟨hlow, hhigh, hlo, hmid, hhi, hist, htype⟩ := h
  have hfield := fun start n front => @field_toNat g.low start n front
  rw [hlow] at hfield
  constructor
  · have h0 : (g.low.extractLsb' 0 16).toNat = lo := by
      rw [BitVec.extractLsb'_toNat, Nat.shiftRight_eq_div_pow, hlow]
      omega
    have h48 : (g.low.extractLsb' 48 16).toNat = mid := by
      rw [hfield 48 16 mid (by omega) (by omega)]
      omega
    have h32 : (g.high.extractLsb' 0 32).toNat = hi := by
      rw [BitVec.extractLsb'_toNat, Nat.shiftRight_eq_div_pow, hhigh]
      omega
    apply BitVec.eq_of_toNat_eq
    unfold GateStruct.offset
    simp only [BitVec.toNat_add, BitVec.toNat_shiftLeft, BitVec.toNat_setWidth, Nat.shiftLeft_eq, h0, h48, h32,
      haddr]
    omega
  · apply BitVec.eq_of_toNat_eq
    unfold GateStruct.selector
    rw [hfield 16 16 (mid * 2 ^ 32 + 2 ^ 31 + type.toNat * 2 ^ 24 + ist.toNat * 2 ^ 16 + 8) (by omega) (by omega),
      show (8 : BitVec 16).toNat = 8 from rfl]
    omega
  · apply BitVec.eq_of_toNat_eq
    unfold GateStruct.ist
    rw [hfield 32 3 (mid * 2 ^ 16 + 2 ^ 15 + type.toNat * 2 ^ 8 + ist.toNat) (by omega) (by omega)]
    omega
  · apply BitVec.eq_of_toNat_eq
    unfold GateStruct.type
    rw [hfield 40 4 (mid * 2 ^ 8 + 2 ^ 7 + type.toNat) (by omega) (by omega)]
    omega
  · apply BitVec.eq_of_toNat_eq
    unfold GateStruct.dpl
    rw [hfield 45 2 (mid * 2 ^ 3 + 2 ^ 2) (by omega) (by omega), show (0 : BitVec 2).toNat = 0 from rfl]
    omega
  · have hdiv : g.low.toNat / 2 ^ 47 = mid * 2 + 1 := by
      rw [hlow]
      exact Nat.div_eq_of_lt_le (by omega) (by omega)
    unfold GateStruct.present BitVec.getLsbD
    rw [Nat.testBit_eq_decide_div_mod_eq, decide_eq_true_eq, hdiv]
    omega

/-- The parts of an address. -/
theorem exists_parts (addr : Word) : ∃ lo mid hi, lo < 2 ^ 16 ∧ mid < 2 ^ 16 ∧ hi < 2 ^ 32 ∧
    addr.toNat = lo + mid * 2 ^ 16 + hi * 2 ^ 32 := by
  have haddr := addr.isLt
  refine ⟨addr.toNat % 2 ^ 16, addr.toNat / 2 ^ 16 % 2 ^ 16, addr.toNat / 2 ^ 32, ?_, ?_, ?_, ?_⟩ <;> omega

/-- The parts do not overlap. -/
theorem packed_toNat {lo mid flag ist : Word} (hlo : lo.toNat < 2 ^ 16) (hmid : mid.toNat < 2 ^ 16)
    (hflag : flag.toNat < 2 ^ 8) (hist : ist.toNat < 2 ^ 3) :
    (lo + mid <<< 48 + flag <<< 40 + ist <<< 32 + (0x8 : Word) <<< 16).toNat
      = lo.toNat + mid.toNat * 2 ^ 48 + flag.toNat * 2 ^ 40 + ist.toNat * 2 ^ 32 + 8 * 2 ^ 16 := by
  have hsel : ((0x8 : Word) <<< 16).toNat = 8 * 2 ^ 16 := by decide
  rw [BitVec.toNat_add, BitVec.toNat_add, BitVec.toNat_add, BitVec.toNat_add, BitVec.toNat_shiftLeft,
    BitVec.toNat_shiftLeft, BitVec.toNat_shiftLeft, hsel, Nat.shiftLeft_eq, Nat.shiftLeft_eq, Nat.shiftLeft_eq]
  omega

/-- `movw` leaves the parts of an address, and what is left behind the shifts is the third. -/
theorem parts_toNat {d d' addr : Word} (hd : d.toNat < 65536) (hd' : d'.toNat < 65536) {lo mid hi : Nat}
    (hlo : lo < 2 ^ 16) (hmid : mid < 2 ^ 16) (haddr : addr.toNat = lo + mid * 2 ^ 16 + hi * 2 ^ 32) :
    (movw d addr).toNat = lo ∧ (movw d' (addr >>> 16)).toNat = mid ∧ (addr >>> 16 >>> 16).toNat = hi := by
  have hshift : (addr >>> 16).toNat = mid + hi * 2 ^ 16 := by
    rw [BitVec.toNat_ushiftRight, Nat.shiftRight_eq_div_pow, haddr]
    omega
  refine ⟨?_, ?_, ?_⟩
  · rw [movw_toNat hd, haddr]
    omega
  · rw [movw_toNat hd', hshift]
    omega
  · rw [BitVec.toNat_ushiftRight, Nat.shiftRight_eq_div_pow, hshift]
    omega

/-- **`SetIdtGate` packs a gate** of any address, for a number of a stack and a type with the bit for a
gate that is there. -/
theorem setIdtGate_leadsTo (addr : Word) (ist : BitVec 3) (type : BitVec 4) :
    (setIdtGate (0x80 + type.setWidth 64) (ist.setWidth 64) addr).LeadsTo addr ist type := by
  have hist := ist.isLt
  have htype := type.isLt
  obtain ⟨lo, mid, hi, hlo, hmid, hhi, haddr⟩ := exists_parts addr
  have hzero : (0 : Word).toNat < 65536 := by decide
  obtain ⟨h0, h16, h32⟩ := parts_toNat hzero hzero hlo hmid haddr
  have hflag : (0x80 + type.setWidth 64 : Word).toNat = 0x80 + type.toNat := by
    have h80 : (0x80 : Word).toNat = 0x80 := by decide
    rw [BitVec.toNat_add, h80, BitVec.toNat_setWidth]
    omega
  have hset : (ist.setWidth 64).toNat = ist.toNat := by
    rw [BitVec.toNat_setWidth]
    omega
  have hlow : (setIdtGate (0x80 + type.setWidth 64) (ist.setWidth 64) addr).low
      = movw 0 addr + movw 0 (addr >>> 16) <<< 48 + (0x80 + type.setWidth 64) <<< 40 +
        (ist.setWidth 64) <<< 32 + (0x8 : Word) <<< 16 := rfl
  refine GateStruct.Packs.leadsTo ⟨?_, h32, hlo, hmid, hhi, hist, htype⟩ haddr
  rw [hlow, packed_toNat (by omega) (by omega) (by omega) (by omega), h0, h16, hflag, hset]
  omega

/-- `setup_IDT` packs an interrupt gate without a stack. -/
theorem setupIDT_leadsTo (addr : Word) : (setupIDT addr).LeadsTo addr 0 0xe := by
  obtain ⟨lo, mid, hi, hlo, hmid, hhi, haddr⟩ := exists_parts addr
  obtain ⟨h0, h16, h32⟩ := @parts_toNat 0x10 0x1b addr (by decide) (by decide) _ _ _ hlo hmid haddr
  have hflag : (0x8e00 : Word) <<< 32 = (0x8e : Word) <<< 40 + (0 : Word) <<< 32 := by decide
  have hlow : (setupIDT addr).low = movw 0x10 addr + movw 0x1b (addr >>> 16) <<< 48 + (0x8e : Word) <<< 40 +
      (0 : Word) <<< 32 + (0x8 : Word) <<< 16 := by
    rw [BitVec.add_assoc _ _ ((0 : Word) <<< 32), ← hflag]
    rfl
  have h8e : (0x8e : Word).toNat = 0x8e := by decide
  have hz : (0 : Word).toNat = 0 := by decide
  have he : (0xe : BitVec 4).toNat = 14 := by decide
  have hz' : (0 : BitVec 3).toNat = 0 := by decide
  refine GateStruct.Packs.leadsTo ⟨?_, h32, hlo, hmid, hhi, by decide, by decide⟩ haddr
  rw [hlow, packed_toNat (by omega) (by omega) (by omega) (by omega), h0, h16, h8e, hz, he, hz']
  omega

/-- `setup_TSS64` packs an available segment of 104 bytes at any address. -/
theorem setupTSS64_describes (initTss : Word) :
    (setupTSS64 initTss).segBase = initTss ∧ (setupTSS64 initTss).segLimit = 103 ∧
      (setupTSS64 initTss).type = 9 ∧ (setupTSS64 initTss).present = true := by
  have hlt := initTss.isLt
  obtain ⟨b, m, h, hb, hm, hh, haddr⟩ : ∃ b m h, b < 2 ^ 24 ∧ m < 2 ^ 8 ∧ h < 2 ^ 32 ∧
      initTss.toNat = b + m * 2 ^ 24 + h * 2 ^ 32 := by
    refine ⟨initTss.toNat % 2 ^ 24, initTss.toNat / 2 ^ 24 % 2 ^ 8, initTss.toNat / 2 ^ 32, ?_, ?_, ?_, ?_⟩ <;> omega
  have hmid : (initTss.setWidth 32 >>> 24).toNat = m := by
    rw [BitVec.toNat_ushiftRight, BitVec.toNat_setWidth, Nat.shiftRight_eq_div_pow]
    omega
  have hbase : (initTss.setWidth 32 &&& 0xffffff).toNat = b := by
    have hmask : (0xffffff : BitVec 32).toNat = 2 ^ 24 - 1 := by decide
    rw [BitVec.toNat_and, hmask, Nat.and_two_pow_sub_one_eq_mod, BitVec.toNat_setWidth]
    omega
  have hlow : (setupTSS64 initTss).low = (0x89 : Word) <<< 40 +
      (initTss.setWidth 32 >>> 24).setWidth 64 <<< 56 + (initTss.setWidth 32 &&& 0xffffff).setWidth 64 <<< 16 + 103 := rfl
  have hflag : ((0x89 : Word) <<< 40).toNat = 0x89 * 2 ^ 40 := by decide
  have h103 : (103 : Word).toNat = 103 := by decide
  have hlowNat : (setupTSS64 initTss).low.toNat = m * 2 ^ 56 + 0x89 * 2 ^ 40 + b * 2 ^ 16 + 103 := by
    rw [hlow, BitVec.toNat_add, BitVec.toNat_add, BitVec.toNat_add, hflag, h103]
    simp only [BitVec.toNat_shiftLeft, BitVec.toNat_setWidth, Nat.shiftLeft_eq, hmid, hbase]
    omega
  have hhigh : (setupTSS64 initTss).high.toNat = h := by
    show (initTss >>> 32).toNat = h
    rw [BitVec.toNat_ushiftRight, Nat.shiftRight_eq_div_pow]
    omega
  have hfield := fun start n front => @field_toNat (setupTSS64 initTss).low start n front
  rw [hlowNat] at hfield
  refine ⟨?_, ?_, ?_, ?_⟩
  · have h16 : ((setupTSS64 initTss).low.extractLsb' 16 24).toNat = b := by
      rw [hfield 16 24 (m * 2 ^ 40 + 0x89 * 2 ^ 24 + b) (by omega) (by omega)]
      omega
    have h56 : ((setupTSS64 initTss).low.extractLsb' 56 8).toNat = m := by
      rw [hfield 56 8 m (by omega) (by omega)]
      omega
    have h32 : ((setupTSS64 initTss).high.extractLsb' 0 32).toNat = h := by
      rw [BitVec.extractLsb'_toNat, Nat.shiftRight_eq_div_pow, hhigh]
      omega
    apply BitVec.eq_of_toNat_eq
    unfold GateStruct.segBase
    simp only [BitVec.toNat_add, BitVec.toNat_shiftLeft, BitVec.toNat_setWidth, Nat.shiftLeft_eq, h16, h56, h32,
      haddr]
    omega
  · unfold GateStruct.segLimit
    rw [hfield 48 4 (m * 2 ^ 8) (by omega) (by omega), BitVec.extractLsb'_toNat, Nat.shiftRight_eq_div_pow, hlowNat]
    omega
  · apply BitVec.eq_of_toNat_eq
    unfold GateStruct.type
    rw [hfield 40 4 (m * 2 ^ 16 + 0x89) (by omega) (by omega), show (9 : BitVec 4).toNat = 9 from rfl]
    omega
  · have hdiv : (setupTSS64 initTss).low.toNat / 2 ^ 47 = m * 2 ^ 9 + 1 := by
      rw [hlowNat]
      exact Nat.div_eq_of_lt_le (by omega) (by omega)
    unfold GateStruct.present BitVec.getLsbD
    rw [Nat.testBit_eq_decide_div_mod_eq, decide_eq_true_eq, hdiv]
    omega

/-! ## The table -/

section

variable {g : GateStruct} {idt : IdtTable}

/-- `st_IDT` fills the entries that it goes over. -/
theorem stIDT_apply : ∀ (rcx i : Nat) (idt : IdtTable) (v : Nat),
    stIDT g rcx i idt v = if i ≤ v ∧ v < i + rcx then g else idt v
  | 0, i, idt, v => by
      rw [stIDT, if_neg (by omega)]
  | rcx + 1, i, idt, v => by
      rw [stIDT, stIDT_apply rcx (i + 1)]
      by_cases hv : v = i
      · rw [if_neg (by omega), if_pos (by omega), hv, Function.update_self]
      · rw [Function.update_of_ne hv]
        split_ifs <;> first | rfl | omega

end

/-- The vector of an exception. -/
def Exception.vector : Exception → Nat
  | divideError => 0
  | undefinedOpcodeFault => 6
  | doubleFault => 8
  | invalidTSS => 10
  | generalPurpose => 13
  | pageFault => 14
  | alignmentCheckFault => 17

theorem sysVectorInit_apply (es : Entries) (idt : IdtTable) :
    (∀ e : Exception, sysVectorInit es idt e.vector = setIdtGate 0x8f 1 (es.exception e)) ∧
    ∀ v, (∀ e : Exception, v ≠ e.vector) → sysVectorInit es idt v = idt v := by
  unfold sysVectorInit setTrapGate
  constructor
  · intro e
    cases e <;> rfl
  · intro v hv
    have h1 := hv .divideError
    have h2 := hv .invalidTSS
    have h3 := hv .pageFault
    have h4 := hv .generalPurpose
    have h5 := hv .doubleFault
    have h6 := hv .alignmentCheckFault
    have h7 := hv .undefinedOpcodeFault
    simp only [Exception.vector] at h1 h2 h3 h4 h5 h6 h7
    simp only [Function.update_of_ne, ne_eq, h1, h2, h3, h4, h5, h6, h7, not_false_eq_true]

theorem intrGates_apply (es : Entries) : ∀ (n start : Nat) (idt : IdtTable) (v : Nat),
    (List.range' start n).foldl (fun idt i => setIntrGate idt i 0 (es.interrupt (i - 32))) idt v
      = if start ≤ v ∧ v < start + n then setIdtGate 0x8e 0 (es.interrupt (v - 32)) else idt v
  | 0, start, idt, v => by
      rw [if_neg (by omega)]
      rfl
  | n + 1, start, idt, v => by
      rw [List.range'_succ, List.foldl_cons, intrGates_apply es n (start + 1)]
      unfold setIntrGate
      by_cases hv : v = start
      · rw [if_neg (by omega), if_pos (by omega), hv, Function.update_self]
      · rw [Function.update_of_ne hv]
        by_cases hin : start + 1 ≤ v ∧ v < start + 1 + n
        · rw [if_pos hin, if_pos (by omega)]
        · rw [if_neg hin, if_neg (by omega)]

/-- Where a vector leads: the entry, the number of the stack and the type. -/
def Entries.target (es : Entries) (v : Nat) : Word × BitVec 3 × BitVec 4 :=
  if v = 0 then (es.exception .divideError, 1, 0xf)
  else if v = 6 then (es.exception .undefinedOpcodeFault, 1, 0xf)
  else if v = 8 then (es.exception .doubleFault, 1, 0xf)
  else if v = 10 then (es.exception .invalidTSS, 1, 0xf)
  else if v = 13 then (es.exception .generalPurpose, 1, 0xf)
  else if v = 14 then (es.exception .pageFault, 1, 0xf)
  else if v = 17 then (es.exception .alignmentCheckFault, 1, 0xf)
  else if 32 ≤ v ∧ v < 56 then (es.interrupt (v - 32), 0, 0xe)
  else (es.ignoreIDT, 0, 0xe)

theorem Entries.target_exception (es : Entries) (e : Exception) :
    es.target e.vector = (es.exception e, 1, 0xf) := by
  cases e <;> simp [target, Exception.vector]

theorem Entries.target_other (es : Entries) {v : Nat} (h : ∀ e : Exception, v ≠ e.vector) :
    es.target v = if 32 ≤ v ∧ v < 56 then (es.interrupt (v - 32), 0, 0xe) else (es.ignoreIDT, 0, 0xe) := by
  have h1 := h .divideError
  have h2 := h .invalidTSS
  have h3 := h .pageFault
  have h4 := h .generalPurpose
  have h5 := h .doubleFault
  have h6 := h .alignmentCheckFault
  have h7 := h .undefinedOpcodeFault
  simp only [Exception.vector] at h1 h2 h3 h4 h5 h6 h7
  unfold target
  rw [if_neg h1, if_neg h7, if_neg h5, if_neg h2, if_neg h4, if_neg h3, if_neg h6]

/-- **Every vector leads to its entry** after the start of the kernel. -/
theorem bootIdt_leadsTo (es : Entries) (idt : IdtTable) {v : Nat} (hv : v < 256) :
    (bootIdt es idt v).LeadsTo (es.target v).1 (es.target v).2.1 (es.target v).2.2 := by
  unfold bootIdt initIoApicGates
  rw [intrGates_apply]
  by_cases hex : ∃ e : Exception, v = e.vector
  · obtain ⟨e, rfl⟩ := hex
    have hlow : e.vector < 32 := by cases e <;> decide
    rw [if_neg (by omega), (sysVectorInit_apply es _).1 e, es.target_exception e]
    exact setIdtGate_leadsTo (es.exception e) 1 0xf
  · have hne : ∀ e : Exception, v ≠ e.vector := fun e he => hex ⟨e, he⟩
    rw [es.target_other hne]
    split_ifs with h32
    · exact setIdtGate_leadsTo (es.interrupt (v - 32)) 0 0xe
    · rw [(sysVectorInit_apply es _).2 v hne, stIDT_apply, if_pos ⟨Nat.zero_le v, by omega⟩]
      exact setupIDT_leadsTo es.ignoreIDT

/-! ## The segment -/

section

variable {t : Tss}

theorem loadLong_storeLong (t : Tss) (i : Nat) (v : Word) : loadLong (storeLong t i v) i = v := by
  have hlow : storeLong t i v i = v.setWidth 32 := by
    unfold storeLong
    rw [Function.update_of_ne (by omega), Function.update_self]
  have hhigh : storeLong t i v (i + 1) = (v >>> 32).setWidth 32 := by
    unfold storeLong
    rw [Function.update_self]
  have hv := v.isLt
  apply BitVec.eq_of_toNat_eq
  unfold loadLong
  rw [hlow, hhigh, BitVec.toNat_add, BitVec.toNat_shiftLeft, BitVec.toNat_setWidth, BitVec.toNat_setWidth,
    BitVec.toNat_setWidth, BitVec.toNat_setWidth, BitVec.toNat_ushiftRight, Nat.shiftLeft_eq,
    Nat.shiftRight_eq_div_pow]
  omega

/-- The fields stand at odd places, and each has two words. -/
theorem loadLong_storeLong_odd {i j : Nat} (hi : i % 2 = 1) (hj : j % 2 = 1) (v : Word) :
    loadLong (storeLong t i v) j = if j = i then v else loadLong t j := by
  by_cases h : j = i
  · rw [if_pos h, h, loadLong_storeLong]
  · rw [if_neg h]
    unfold loadLong storeLong
    rw [Function.update_of_ne (by omega), Function.update_of_ne h, Function.update_of_ne (by omega),
      Function.update_of_ne (by omega)]

/-- The fields of another segment, but for the first. -/
def Tss.SameFields (t' t : Tss) (rsp0 : Word) : Prop :=
  ∀ j, j % 2 = 1 → loadLong t' j = if j = rspField 0 then rsp0 else loadLong t j

/-- A field is stored as it is. -/
theorem Tss.SameFields.store {t' : Tss} {rsp0 : Word} (h : t'.SameFields t rsp0) {i : Nat} (hi : i % 2 = 1)
    (hne : i ≠ rspField 0) : SameFields (storeLong t' i (loadLong t i)) t rsp0 := by
  intro j hj
  rw [loadLong_storeLong_odd hi hj, h j hj]
  by_cases hji : j = i
  · rw [if_pos hji, hji, if_neg hne]
  · rw [if_neg hji]

/-- `SetTss` with the fields as they are changes the first only. -/
theorem setTssAgain_field {j : Nat} (hj : j % 2 = 1) (rsp0 : Word) :
    loadLong (setTssAgain t rsp0) j = if j = rspField 0 then rsp0 else loadLong t j := by
  have hfirst : Tss.SameFields (storeLong t (rspField 0) rsp0) t rsp0 := fun j hj =>
    loadLong_storeLong_odd (by decide) hj rsp0
  have h3 := hfirst.store (i := rspField 1) (by decide) (by decide)
  have h5 := h3.store (i := rspField 2) (by decide) (by decide)
  have h9 := h5.store (i := istField 1) (by decide) (by decide)
  have h11 := h9.store (i := istField 2) (by decide) (by decide)
  have h13 := h11.store (i := istField 3) (by decide) (by decide)
  have h15 := h13.store (i := istField 4) (by decide) (by decide)
  have h17 := h15.store (i := istField 5) (by decide) (by decide)
  have h19 := h17.store (i := istField 6) (by decide) (by decide)
  have h21 := h19.store (i := istField 7) (by decide) (by decide)
  exact h21 j hj

theorem mainTss_ist (stackStart istPtr : Word) {n : Nat} (h1 : 1 ≤ n) (h2 : n ≤ 7) :
    loadLong (mainTss t stackStart istPtr) (istField n) = istPtr := by
  have hall : ∀ (m k : Nat) (t : Tss), k ≤ n → n < k + m →
      loadLong ((List.range' k m).foldl (fun t n => storeLong t (istField n) istPtr) t) (istField n)
        = istPtr := by
    have hkeep : ∀ (m k : Nat) (t : Tss), loadLong t (istField n) = istPtr →
        loadLong ((List.range' k m).foldl (fun t n => storeLong t (istField n) istPtr) t) (istField n)
          = istPtr := by
      intro m
      induction m with
      | zero => exact fun _ _ h => h
      | succ m ih =>
          intro k t h
          rw [List.range'_succ, List.foldl_cons]
          refine ih (k + 1) _ ?_
          rw [loadLong_storeLong_odd (by unfold istField; omega) (by unfold istField; omega), h, ite_self]
    intro m
    induction m with
    | zero => intro k t h1 h2; omega
    | succ m ih =>
        intro k t h1 h2
        rw [List.range'_succ, List.foldl_cons]
        by_cases hk : k = n
        · rw [hk]
          exact hkeep m _ _ (loadLong_storeLong t (istField n) istPtr)
        · exact ih (k + 1) _ (by omega) (by omega)
  exact hall 7 1 _ h1 (by omega)

/-- The stacks that the processor takes: that of the task, and one for all gates with a number. -/
structure Tss.Stacks (t : Tss) (rsp0 istPtr : Word) : Prop where
  rsp0 : loadLong t (rspField 0) = rsp0
  ist : ∀ n, 1 ≤ n → n ≤ 7 → loadLong t (istField n) = istPtr

/-- A switch sets the first field. -/
theorem switchTo_rsp0 (t : Tss) (rsp0 : Word) : loadLong (switchTo t rsp0) (rspField 0) = rsp0 := by
  unfold switchTo
  rw [setTssAgain_field (by decide), if_pos rfl, loadLong_storeLong]

theorem Tss.Stacks.switchTo {old istPtr : Word} (h : t.Stacks old istPtr) (rsp0 : Word) :
    Stacks (switchTo t rsp0) rsp0 istPtr := by
  have hodd : ∀ n, istField n % 2 = 1 := fun n => by unfold istField; omega
  constructor
  · exact switchTo_rsp0 t rsp0
  · intro n h1 h2
    unfold Interrupt.switchTo
    have hne : istField n ≠ rspField 0 := by unfold istField rspField; omega
    rw [setTssAgain_field (hodd n), if_neg hne, loadLong_storeLong_odd (by decide) (hodd n), if_neg hne]
    exact h.ist n h1 h2

theorem taskInitTss_stacks (t : Tss) (stackStart istPtr rsp0 : Word) :
    Tss.Stacks (taskInitTss (mainTss t stackStart istPtr) rsp0) rsp0 istPtr := by
  have hodd : ∀ n, istField n % 2 = 1 := fun n => by unfold istField; omega
  unfold taskInitTss
  constructor
  · exact loadLong_storeLong _ _ _
  · intro n h1 h2
    have hne : istField n ≠ rspField 0 := by unfold istField rspField; omega
    rw [loadLong_storeLong_odd (by decide) (hodd n), if_neg hne, setTssAgain_field (hodd n), if_neg hne]
    exact mainTss_ist stackStart istPtr h1 h2

/-- **After any switches** the stack of the task is that of the last one. -/
theorem bootTss_stacks (t : Tss) (stackStart istPtr rsp0 : Word) (switches : List Word) :
    Tss.Stacks (bootTss t stackStart istPtr rsp0 switches) (switches.getLastD rsp0) istPtr := by
  unfold bootTss
  have hrun : ∀ (switches : List Word) (t : Tss) (old : Word), t.Stacks old istPtr →
      Tss.Stacks (switches.foldl switchTo t) (switches.getLastD old) istPtr := by
    intro switches
    induction switches with
    | nil => exact fun _ _ h => h
    | cons r switches ih =>
        intro t old h
        rw [List.foldl_cons, List.getLastD_cons]
        exact ih _ r (h.switchTo r)
  exact hrun switches _ rsp0 (taskInitTss_stacks t stackStart istPtr rsp0)

end

/-! ## Delivery -/

/-- The privilege of a program. -/
def Cpu.cpl (c : Cpu) : BitVec 2 := c.cs.setWidth 2

/-- **Where the vectors lead**, after the start of the kernel and any switches of tasks. An exception is taken by
its entry, on the one stack of all gates with a number, with interrupts as they were, and the program goes
on as before, whatever the functions do that leave its frame alone; an interrupt is taken by its entry, on the
stack of the task that has been switched to last, or on the one in use if the kernel has been interrupted,
with interrupts off; and so are all other vectors, by `ignore_IDT`. The stacks are read from the segment that
the task register selects, and all of them lie in it. -/
theorem vectors_delivered (es : Entries) (idt : IdtTable) (t : Tss) (initTss stackStart istPtr rsp0 : Word)
    (switches : List Word) (c : Cpu) :
    ((setupTSS64 initTss).segBase = initTss ∧
      ∀ n, n ≤ 7 → 4 * (istField n + 1) + 3 ≤ (setupTSS64 initTss).segLimit) ∧
    (∀ e : Exception,
      deliver (bootTss t stackStart istPtr rsp0 switches) (bootIdt es idt e.vector) c
        = ⟨istPtr &&& ~~~0xf, es.exception e, 8, if c.cpl ≠ 0 then 0 else c.ss, c.rflags &&& ~~~0x34100⟩ ∧
      ∀ (k : Image), k.Keeps 25 → ∀ code, (e.handle k
        (deliver (bootTss t stackStart istPtr rsp0 switches) (bootIdt es idt e.vector) c) code c).context
          = c.context) ∧
    ∀ v < 256, (∀ e : Exception, v ≠ e.vector) →
      deliver (bootTss t stackStart istPtr rsp0 switches) (bootIdt es idt v) c
        = ⟨(if c.cpl ≠ 0 then switches.getLastD rsp0 else c.rsp) &&& ~~~0xf,
            if 32 ≤ v ∧ v < 56 then es.interrupt (v - 32) else es.ignoreIDT, 8,
            if c.cpl ≠ 0 then 0 else c.ss, c.rflags &&& ~~~0x34300⟩ := by
  obtain ⟨hrsp0, hist⟩ := bootTss_stacks t stackStart istPtr rsp0 switches
  obtain ⟨hbase, hlimit, -, -⟩ := setupTSS64_describes initTss
  have hin : ∀ n, n ≤ 7 → 4 * (istField n + 1) + 3 ≤ (setupTSS64 initTss).segLimit := by
    intro n hn
    rw [hlimit]
    unfold istField
    omega
  refine ⟨⟨hbase, hin⟩, fun e => ⟨?_, fun k hk code => e.handle_context (hk.mono (by simp)) _ code c⟩,
    fun v hv hne => ?_⟩
  · have hlow : e.vector < 256 := by cases e <;> decide
    obtain ⟨hoff, hsel, hnum, htype, -, -⟩ := bootIdt_leadsTo es idt hlow
    rw [es.target_exception e] at hoff hnum htype
    dsimp only at hoff hnum htype
    unfold deliver
    rw [hoff, hsel, hnum, htype, if_pos (show (1 : BitVec 3) ≠ 0 by decide),
      if_neg (show ¬ (0xf : BitVec 4) = 0xe by decide)]
    show Gate.mk (loadLong _ (istField 1) &&& _) _ _ _ _ = _
    rw [hist 1 (by decide) (by decide)]
    rfl
  · obtain ⟨hoff, hsel, hnum, htype, -, -⟩ := bootIdt_leadsTo es idt hv
    rw [es.target_other hne] at hoff hnum htype
    have hzero : (bootIdt es idt v).ist = 0 := by
      rw [hnum]
      split_ifs <;> rfl
    have hintr : (bootIdt es idt v).type = 0xe := by
      rw [htype]
      split_ifs <;> rfl
    have haddr : (bootIdt es idt v).offset = if 32 ≤ v ∧ v < 56 then es.interrupt (v - 32) else es.ignoreIDT := by
      rw [hoff]
      split_ifs <;> rfl
    unfold deliver
    rw [haddr, hsel, hzero, hintr, if_neg (fun h : (0 : BitVec 3) ≠ 0 => h rfl), if_pos rfl, hrsp0]
    rfl

/-- The entries at some places of the kernel. -/
def someEntries : Entries :=
  ⟨fun e => 0xffff800000110000 + BitVec.ofNat 64 (16 * e.vector), fun i => 0xffff800000120000 + BitVec.ofNat 64 (16 * i),
    0xffff8000001000f0⟩

/-- A program at the lowest privilege. -/
def ringCpu : Cpu := { userCpu with cs := 0x2b, ss := 0x33 }

/-- A fault of a program, and a key pressed while it runs, after a switch of tasks. -/
theorem vectors_delivered_keyboard :
    (Exception.pageFault.handle busyImage
      (deliver (bootTss (fun _ => 0) 0 0xffff800000300000 0 [0xffff800000408000])
        (bootIdt someEntries (fun _ => ⟨0, 0⟩) Exception.pageFault.vector) ringCpu) 6 ringCpu).context = ringCpu.context ∧
    deliver (bootTss (fun _ => 0) 0 0xffff800000300000 0 [0xffff800000408000])
        (bootIdt someEntries (fun _ => ⟨0, 0⟩) 33) ringCpu
      = ⟨0xffff800000408000 &&& ~~~0xf, someEntries.interrupt 1, 8, 0, ringCpu.rflags &&& ~~~0x34300⟩ := by
  obtain ⟨-, hfault, hother⟩ := vectors_delivered someEntries (fun _ => ⟨0, 0⟩) (fun _ => 0) 0xffff800000180000 0
    0xffff800000300000 0 [0xffff800000408000] ringCpu
  refine ⟨(hfault .pageFault).2 busyImage (busyImage_keeps 25) 6, ?_⟩
  have hne : ∀ e : Exception, 33 ≠ e.vector := by
    intro e
    cases e <;> decide
  rw [hother 33 (by decide) hne, if_pos (show ringCpu.cpl ≠ 0 by decide), if_pos (by decide),
    if_pos (show ringCpu.cpl ≠ 0 by decide)]
  rfl

end Talios.Interrupt
