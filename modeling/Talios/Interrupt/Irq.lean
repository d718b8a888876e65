import Talios.Lib.Trace
import Talios.Interrupt.Cpu

set_option autoImplicit false

/-! # Interrupts of devices

`RegisterIrq`, `UnregisterIrq` and `DoIRQ` of `interrupt.c` with the I/O APIC of `apic.c`, as it is built
with `APIC`. The entries of the redirection table are read and written in halves through an index register
and a data window, and an interrupt can come between any two of these accesses: a function is a list of
steps. `DefaultDisable` goes to the 8259A.

`irq_served` says what an interrupt meets at any point of any sequence of such calls.
-/

namespace Talios.Interrupt

open Machine

/-! ## Data -/

/-- The I/O APIC, with its index register and the registers behind the window. -/
structure IoApic where
  index : BitVec 8
  reg : BitVec 8 → BitVec 32

/-- `IrqDescT`. The controllers are all made by `BuildController`, so that a pointer to one is there or
not; the handler is an address, or null. -/
structure IrqDesc where
  controller : Bool
  handler : Word
  parameter : Word
deriving DecidableEq

def NR_IRQS : Nat := 24
def SMP_IPI_IRQS : Nat := 10

/-- `InterruptDesc`, `smp_ipi_desc`, the I/O APIC, the masks of the 8259A, and the local variable `value` of
the function that runs. -/
structure Irqs where
  desc : Nat → IrqDesc
  ipi : Nat → IrqDesc
  ioApic : IoApic
  master : BitVec 8
  slave : BitVec 8
  value : BitVec 64

/-- An access to the tables or to the hardware, or a computation with `value`. -/
inductive Step
  | handler (irq : Nat) (h : Word)
  | parameter (irq : Nat) (v : Word)
  | controller (irq : Nat) (b : Bool)
  | load (v : BitVec 64)
  | and (m : BitVec 64)
  | index (i : BitVec 8)
  | readHigh
  | readLow
  | writeLow
  | writeHigh
  | setMask8259a (irq : BitVec 8)
  | master (v : BitVec 8)
  | slave (v : BitVec 8)

def Irqs.setDesc (s : Irqs) (irq : Nat) (d : IrqDesc) : Irqs :=
  { s with desc := Function.update s.desc (irq - 32) d }

def Irqs.data (s : Irqs) : BitVec 32 := s.ioApic.reg s.ioApic.index

def Irqs.setData (s : Irqs) (v : BitVec 32) : Irqs :=
  { s with ioApic := { s.ioApic with reg := Function.update s.ioApic.reg s.ioApic.index v } }

/-- `SetMask8259a`. -/
def setMask8259a (s : Irqs) (irq : BitVec 8) : Irqs :=
  if irq < 8 then { s with master := s.master ||| (1#32 <<< irq.toNat).setWidth 8 }
  else { s with slave := s.slave ||| (1#32 <<< (irq.toNat - 8)).setWidth 8 }

def Step.exec (s : Irqs) : Step → Irqs
  | handler irq h => s.setDesc irq { s.desc (irq - 32) with handler := h }
  | parameter irq v => s.setDesc irq { s.desc (irq - 32) with parameter := v }
  | controller irq b => s.setDesc irq { s.desc (irq - 32) with controller := b }
  | load v => { s with value := v }
  | and m => { s with value := s.value &&& m }
  | index i => { s with ioApic := { s.ioApic with index := i } }
  | readHigh => { s with value := s.data.setWidth 64 <<< 32 }
  | readLow => { s with value := s.value ||| s.data.setWidth 64 }
  | writeLow => s.setData ((s.value &&& 0xffffffff).setWidth 32)
  | writeHigh => s.setData ((s.value >>> 32).setWidth 32)
  | setMask8259a irq => Interrupt.setMask8259a s irq
  | master v => { s with master := v }
  | slave v => { s with slave := v }

/-! ## `apic.c` -/

def ioApicRteRead (i : BitVec 8) : List Step := [.index (i + 1), .readHigh, .index i, .readLow]

def ioApicRteWrite (i : BitVec 8) : List Step := [.index i, .writeLow, .index (i + 1), .writeHigh]

/-- `(irq << 1) - 0x30`, as an `unsigned char`. -/
def rteIndex (irq : Nat) : BitVec 8 := BitVec.ofNat 8 (irq * 2) - 0x30

def apicEnable (irq : Nat) : List Step :=
  ioApicRteRead (rteIndex irq) ++ .and (~~~ 0x10000) :: ioApicRteWrite (rteIndex irq)

def apicInstall (irq : Nat) (arg : BitVec 64) : List Step := .load arg :: ioApicRteWrite (rteIndex irq)

def apicUninstall (irq : Nat) : List Step := .load 0x10000 :: ioApicRteWrite (rteIndex irq)

/-- `DefaultDisable`. -/
def defaultDisable (irq : Nat) : List Step := [.setMask8259a (BitVec.ofNat 8 (irq - 0x20))]

def registerIrq (irq : Nat) (arg : BitVec 64) (handler parameter : Word) : List Step :=
  [.handler irq handler, .parameter irq parameter, .controller irq true] ++
    (apicInstall irq arg ++ apicEnable irq)

/-- `UnregisterIrq`, for a descriptor that has a controller. -/
def unregisterIrq (irq : Nat) : List Step :=
  defaultDisable irq ++ (apicUninstall irq ++
    [.parameter irq 0, .handler irq 0, .controller irq false])

/-- What `DoIRQ` does: the call of the handler with the frame, the number and the parameter, and how often
it signals the end of the interrupt. -/
structure Served where
  call : Option (Word × Nat × Word)
  eois : Nat
deriving DecidableEq

/-- `DoIRQ`; there is no result where the descriptor is none of the two tables. -/
def doIRQ (s : Irqs) (nr : Nat) : Option Served :=
  let serve (d : IrqDesc) (eois : Nat) : Served :=
    ⟨if d.handler ≠ 0 then some (d.handler, nr, d.parameter) else none,
      if d.controller then eois + 1 else eois⟩
  if nr ≤ 0x80 then
    if 32 ≤ nr ∧ nr < 32 + NR_IRQS then some (serve (s.desc (nr - 32)) 0) else none
  else if 200 ≤ nr ∧ nr < 200 + SMP_IPI_IRQS then some (serve (s.ipi (nr - 200)) 1) else none

/-! ## The hardware -/

/-- The lower and the upper half of an entry. -/
def Irqs.low (s : Irqs) (n : Nat) : BitVec 32 := s.ioApic.reg (BitVec.ofNat 8 (0x10 + 2 * n))
def Irqs.high (s : Irqs) (n : Nat) : BitVec 32 := s.ioApic.reg (BitVec.ofNat 8 (0x10 + 2 * n) + 1)

def Irqs.Masked (s : Irqs) (n : Nat) : Prop := (s.low n).getLsbD 16 = true

instance (s : Irqs) (n : Nat) : Decidable (s.Masked n) := inferInstanceAs (Decidable (_ = true))

/-- A device raises the interrupt of a pin: nothing if that is masked, otherwise the entry of its vector
calls `DoIRQ`. -/
def raise (s : Irqs) (n : Nat) : Option (Option Served) :=
  if s.Masked n then none else some (doIRQ s ((s.low n).setWidth 8).toNat)

/-! ## The window -/

/-- The two halves of a value. -/
def lowHalf (v : BitVec 64) : BitVec 32 := (v &&& 0xffffffff).setWidth 32
def highHalf (v : BitVec 64) : BitVec 32 := (v >>> 32).setWidth 32

theorem lowHalf_toNat (v : BitVec 64) : (lowHalf v).toNat = v.toNat % 2 ^ 32 := by
  have hmask : BitVec.toNat (4294967295 : BitVec 64) = 2 ^ 32 - 1 := rfl
  rw [lowHalf, BitVec.toNat_setWidth, BitVec.toNat_and, hmask, Nat.and_two_pow_sub_one_eq_mod, Nat.mod_mod]

theorem lowHalf_and_getLsbD (v : BitVec 64) : (lowHalf (v &&& ~~~ 0x10000)).getLsbD 16 = false := by
  simp [lowHalf]

theorem lowHalf_setWidth (v : BitVec 64) : (lowHalf v).setWidth 8 = v.setWidth 8 := by
  apply BitVec.eq_of_toNat_eq
  rw [BitVec.toNat_setWidth, BitVec.toNat_setWidth, lowHalf_toNat]
  omega

theorem and_setWidth (v : BitVec 64) : (v &&& ~~~ 0x10000).setWidth 8 = v.setWidth 8 := by
  rw [BitVec.setWidth_and]
  exact BitVec.and_allOnes

/-! ## Calls -/

/-- What a driver registers: the entry of the redirection table, the handler and the parameter. -/
structure Registration where
  arg : BitVec 64
  handler : Word
  parameter : Word

inductive Call
  | register (n : Nat) (r : Registration)
  | unregister (n : Nat)

def Call.steps : Call → List Step
  | register n r => registerIrq (n + 32) r.arg r.handler r.parameter
  | unregister n => unregisterIrq (n + 32)

/-- Who has each pin. -/
abbrev Owners := Nat → Option Registration

/-- Behind a call. -/
def Call.next (own : Owners) : Call → Owners
  | register n r => Function.update own n (some r)
  | unregister n => Function.update own n none

/-- What the drivers keep to: a pin that is free, a handler, and the vector of the pin; or a pin that is
taken. -/
def Call.Fits (own : Owners) : Call → Prop
  | register n r => n < NR_IRQS ∧ own n = none ∧ r.handler ≠ 0 ∧ r.arg.setWidth 8 = BitVec.ofNat 8 (n + 32)
  | unregister n => n < NR_IRQS ∧ own n ≠ none

/-- A pin that is not masked has its descriptor and its vector. -/
def PinSafe (own : Owners) (desc : Nat → IrqDesc) (reg : BitVec 8 → BitVec 32) (n : Nat) : Prop :=
  (reg (BitVec.ofNat 8 (0x10 + 2 * n))).getLsbD 16 = true ∨
  ∃ r, own n = some r ∧ r.handler ≠ 0 ∧ desc n = ⟨true, r.handler, r.parameter⟩ ∧
    (reg (BitVec.ofNat 8 (0x10 + 2 * n))).setWidth 8 = BitVec.ofNat 8 (n + 32)

def SafeAt (own : Owners) (desc : Nat → IrqDesc) (reg : BitVec 8 → BitVec 32) : Prop :=
  ∀ n < NR_IRQS, PinSafe own desc reg n

def Safe (own : Owners) (s : Irqs) : Prop := SafeAt own s.desc s.ioApic.reg

/-- The 64 bits of an entry. -/
def Irqs.entry (s : Irqs) (n : Nat) : BitVec 64 := (s.high n).setWidth 64 <<< 32 ||| (s.low n).setWidth 64

/-- Between two calls. -/
structure Routed (own : Owners) (s : Irqs) : Prop where
  free : ∀ n < NR_IRQS, own n = none → s.Masked n
  taken : ∀ n < NR_IRQS, ∀ r, own n = some r → r.handler ≠ 0 ∧
    r.arg.setWidth 8 = BitVec.ofNat 8 (n + 32) ∧ s.desc n = ⟨true, r.handler, r.parameter⟩ ∧
    s.low n = lowHalf (r.arg &&& ~~~ 0x10000) ∧ s.high n = highHalf (r.arg &&& ~~~ 0x10000)
  pic : s.master = 0xff ∧ s.slave = 0xff

section

variable {own : Owners} {s : Irqs} {n : Nat} {r : Registration}

theorem Routed.safe (h : Routed own s) : Safe own s := by
  intro n hn
  cases ho : own n with
  | none => exact .inl (h.free n hn ho)
  | some r =>
      obtain ⟨hh, hv, hd, hl, -⟩ := h.taken n hn r ho
      refine .inr ⟨r, ho, hh, hd, ?_⟩
      rw [← Irqs.low, hl, lowHalf_setWidth, and_setWidth, hv]

theorem SafeAt.update {desc desc' : Nat → IrqDesc} {reg reg' : BitVec 8 → BitVec 32}
    {own' : Owners} (h : SafeAt own desc reg) (hn : n < NR_IRQS)
    (hother : ∀ m < NR_IRQS, m ≠ n → own' m = own m ∧ desc' m = desc m ∧
      reg' (BitVec.ofNat 8 (0x10 + 2 * m)) = reg (BitVec.ofNat 8 (0x10 + 2 * m)))
    (hself : PinSafe own' desc' reg' n) : SafeAt own' desc' reg' := by
  intro m hm
  by_cases hmn : m = n
  · subst hmn
    exact hself
  · obtain ⟨h1, h2, h3⟩ := hother m hm hmn
    unfold PinSafe
    rw [h1, h2, h3]
    exact h m hm

/-- A call for a pin leaves the others as they are. -/
theorem Routed.update {own' : Owners} {t : Irqs} (h : Routed own s)
    (hother : ∀ m < NR_IRQS, m ≠ n →
      own' m = own m ∧ t.desc m = s.desc m ∧ t.low m = s.low m ∧ t.high m = s.high m)
    (hfree : own' n = none → t.Masked n)
    (htaken : ∀ r, own' n = some r → r.handler ≠ 0 ∧ r.arg.setWidth 8 = BitVec.ofNat 8 (n + 32) ∧
      t.desc n = ⟨true, r.handler, r.parameter⟩ ∧ t.low n = lowHalf (r.arg &&& ~~~ 0x10000) ∧
      t.high n = highHalf (r.arg &&& ~~~ 0x10000))
    (hpic : t.master = 0xff ∧ t.slave = 0xff) : Routed own' t := by
  refine ⟨fun m hm hown => ?_, fun m hm r hown => ?_, hpic⟩
  · by_cases hmn : m = n
    · subst hmn
      exact hfree hown
    · obtain ⟨h1, -, h3, -⟩ := hother m hm hmn
      rw [Irqs.Masked, h3]
      exact h.free m hm (h1 ▸ hown)
  · by_cases hmn : m = n
    · subst hmn
      exact htaken r hown
    · obtain ⟨h1, h2, h3, h4⟩ := hother m hm hmn
      rw [h2, h3, h4]
      exact h.taken m hm r (h1 ▸ hown)

/-- An interrupt that is served: the handler with its parameter, and one end of interrupt. -/
def servedBy (n : Nat) (r : Registration) : Option Served := some ⟨some (r.handler, n + 32, r.parameter), 1⟩

theorem raise_served {d : IrqDesc} (hn : n < NR_IRQS) (hd : s.desc n = d) (hc : d.controller = true)
    (hh : d.handler ≠ 0) (hmask : ¬ s.Masked n) (hvec : (s.low n).setWidth 8 = BitVec.ofNat 8 (n + 32)) :
    raise s n = some (some ⟨some (d.handler, n + 32, d.parameter), 1⟩) := by
  have hnr : ((s.low n).setWidth 8).toNat = n + 32 := by
    rw [hvec, BitVec.toNat_ofNat]
    unfold NR_IRQS at hn
    omega
  rw [raise, if_neg hmask, hnr, doIRQ]
  unfold NR_IRQS at hn ⊢
  dsimp only
  rw [if_pos (by omega), if_pos (by omega), Nat.add_sub_cancel, hd, if_pos hh, hc]
  rfl

theorem Safe.raise (h : Safe own s) (hn : n < NR_IRQS) :
    raise s n = none ∨ ∃ r, own n = some r ∧ raise s n = some (servedBy n r) := by
  by_cases hm : s.Masked n
  · exact .inl (if_pos hm)
  · rcases h n hn with hmask | ⟨r, ho, hh, hd, hvec⟩
    · exact absurd hmask hm
    · exact .inr ⟨r, ho, raise_served hn hd rfl hh hm hvec⟩

theorem Routed.raise (h : Routed own s) (hn : n < NR_IRQS) : raise s n = (own n).map (servedBy n) := by
  cases ho : own n with
  | none => exact if_pos (h.free n hn ho)
  | some r =>
      obtain ⟨hh, hv, hd, hl, -⟩ := h.taken n hn r ho
      have hmask : ¬ s.Masked n := by
        rw [Irqs.Masked, hl, lowHalf_and_getLsbD]
        exact Bool.false_ne_true
      exact raise_served hn hd rfl hh hmask (by rw [hl, lowHalf_setWidth, and_setWidth, hv])

end

end Talios.Interrupt
