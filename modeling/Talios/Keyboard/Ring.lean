import Talios.Lib.Ring
import Talios.Fs.Fat32

set_option autoImplicit false

/-! # The buffer of the keyboard

`KeyboardHandler`, `keyboard_read`, `keyboard_open`, `keyboard_close` and `keyboard_ioctl` of
`keyboard.c` on the ring of `KeyboardInBuf`. The two pointers are their distances from `buf`, of 64
bits, and the bytes are those from `buf` on, the ring and what lies behind it.

A read is the part of `keyboard_read` behind `sleep_on`, which the task comes to at once where there
is something to read, and some time after that otherwise.
-/

namespace Talios

open Bytes
open Word

/-! ## Data -/

def KB_BUF_SIZE : Nat := 100

def KEY_CMD_RESET_BUFFER : Nat := 1

/-- `KeyboardInBuf`; `count` is an `int`. -/
structure KeyboardInBuf where
  pHead : Nat
  pTail : Nat
  count : Int
  buf : Buffer

/-- `KeyboardInit`, in the block that `kmalloc` has returned. -/
def keyboardInit (block : Buffer) : KeyboardInBuf :=
  ⟨0, 0, 0, overlay block 0 KB_BUF_SIZE (fun _ => 0)⟩

/-! ## `keyboard.c` -/

/-- What `keyboard_close`, `keyboard_open` and the reset command do to the ring. -/
def keyboardReset (kb : KeyboardInBuf) : KeyboardInBuf :=
  ⟨0, 0, 0, overlay kb.buf 0 KB_BUF_SIZE (fun _ => 0)⟩

/-- `keyboard_close`. -/
def keyboardClose (kb : KeyboardInBuf) : KeyboardInBuf := keyboardReset kb

/-- `keyboard_open`. -/
def keyboardOpen (kb : KeyboardInBuf) : KeyboardInBuf := keyboardReset kb

/-- `keyboard_ioctl`. -/
def keyboardIoctl (kb : KeyboardInBuf) (cmd : Nat) : KeyboardInBuf :=
  if cmd = KEY_CMD_RESET_BUFFER then keyboardReset kb else kb

/-- The cell `KeyboardHandler` writes. -/
def KeyboardInBuf.cell (kb : KeyboardInBuf) : Nat := if kb.pHead = KB_BUF_SIZE then 0 else kb.pHead

/-- `KeyboardHandler`, for the byte `x` of the port. -/
def keyboardHandler (kb : KeyboardInBuf) (x : UInt8) : KeyboardInBuf where
  pHead := add64 kb.cell 1
  pTail := kb.pTail
  count := int32 (kb.count + 1)
  buf := Function.update kb.buf kb.cell x

/-- `counter` of `keyboard_read`. -/
def KeyboardInBuf.counter (kb : KeyboardInBuf) (count : Nat) : Nat :=
  if count < ulong kb.count then count else ulong kb.count

/-- `KBIB->buf - KBIB->PTail + KB_BUF_SIZE`. -/
def KeyboardInBuf.room (kb : KeyboardInBuf) : Nat := ulong (KB_BUF_SIZE - kb.pTail)

/-- The copies of `keyboard_read`, each from a place of the ring to the start of the user buffer,
with its length. -/
def KeyboardInBuf.copies (kb : KeyboardInBuf) (count : Nat) : List Area :=
  if kb.counter count ≤ kb.room then [(kb.pTail, kb.counter count)]
  -- the second copy starts at `PHead`, not at `buf`
  else [(kb.pTail, kb.room), (kb.pHead, kb.counter count - kb.room)]

/-- `copy_to_user`, from the ring. -/
def copyToUser (kb : KeyboardInBuf) (dst : Nat) (mem : Buffer) (copy : Area) : Buffer :=
  if verifyArea dst copy.2 then storeAt mem dst copy.2 (bytesAt kb.buf copy.1) else mem

/-- `keyboard_read` behind `sleep_on`: the ring, the memory of the task, and the value returned. -/
def keyboardRead (kb : KeyboardInBuf) (mem : Buffer) (buf count : Nat) :
    KeyboardInBuf × Buffer × Int :=
  let counter := kb.counter count
  let pTail := if counter ≤ kb.room then add64 kb.pTail counter
    else sub64 (add64 kb.pHead counter) kb.room
  ({ kb with pTail := pTail, count := int32 (kb.count - counter) },
    (kb.copies count).foldl (copyToUser kb buf) mem, int32 counter)

/-! ## Runs -/

/-- What happens to the ring. -/
inductive KeyboardStep
  | arrive (x : UInt8)
  | read (buf count : Nat)
  | openFile
  | close
  | ioctl (cmd : Nat)

/-- The ring, the memory of the readers, the bytes that arrived, and those that were delivered. -/
structure Keyboard where
  kb : KeyboardInBuf
  mem : Buffer
  arrived : List UInt8
  delivered : List UInt8

/-- The first `n` bytes of a user buffer. -/
def userBytes (mem : Buffer) (buf n : Nat) : List UInt8 :=
  (List.range n).map (bytesAt mem buf)

def KeyboardStep.run (s : Keyboard) : KeyboardStep → Keyboard
  | .arrive x => { s with kb := keyboardHandler s.kb x, arrived := s.arrived ++ [x] }
  | .read buf count =>
      let r := keyboardRead s.kb s.mem buf count
      ⟨r.1, r.2.1, s.arrived, s.delivered ++ userBytes r.2.1 buf r.2.2.toNat⟩
  | .openFile => { s with kb := keyboardOpen s.kb }
  | .close => { s with kb := keyboardClose s.kb }
  | .ioctl cmd => { s with kb := keyboardIoctl s.kb cmd }

/-- The state behind `KeyboardInit`. -/
def keyboardStart (block mem : Buffer) : Keyboard := ⟨keyboardInit block, mem, [], []⟩

/-- A state that a run comes to whose steps all meet `ok`. -/
inductive KeyboardReachable (ok : Keyboard → KeyboardStep → Prop) : Keyboard → Prop
  | init (block mem : Buffer) : KeyboardReachable ok (keyboardStart block mem)
  | step {s : Keyboard} (c : KeyboardStep) (h : KeyboardReachable ok s) (hok : ok s c) :
      KeyboardReachable ok (c.run s)

/-! ## The ring is well formed -/

structure KeyboardInBuf.WellFormed (kb : KeyboardInBuf) : Prop where
  nonneg : 0 ≤ kb.count
  le : kb.count ≤ KB_BUF_SIZE
  head : kb.pHead ≤ KB_BUF_SIZE
  tail : kb.pTail ≤ KB_BUF_SIZE
  congr : (kb.pHead - kb.pTail : Int) ≡ kb.count [ZMOD KB_BUF_SIZE]

/-- A read copies from the cells of the ring only. -/
def KeyboardInBuf.ReadsInside (kb : KeyboardInBuf) (count : Nat) : Prop :=
  ∀ copy ∈ kb.copies count, copy.1 + copy.2 ≤ KB_BUF_SIZE

/-- A read that takes no byte from beyond the end of the ring. -/
def KeyboardInBuf.Straight (kb : KeyboardInBuf) (count : Nat) : Prop :=
  min (count : Int) kb.count ≤ KB_BUF_SIZE - kb.pTail

/-- No byte arrives at a full ring, and no read goes round its end. -/
def KeyboardStep.Fits (s : Keyboard) : KeyboardStep → Prop
  | .arrive _ => s.kb.count < KB_BUF_SIZE
  | .read _ count => s.kb.Straight count
  | _ => True

instance (s : Keyboard) : ∀ c : KeyboardStep, Decidable (c.Fits s)
  | .arrive _ => inferInstanceAs (Decidable (s.kb.count < KB_BUF_SIZE))
  | .read _ count => inferInstanceAs (Decidable (min (count : Int) s.kb.count ≤ _))
  | .openFile | .close | .ioctl _ => inferInstanceAs (Decidable True)

section

variable {kb : KeyboardInBuf} {count : Nat}

/-- A number that is read off the ring. -/
theorem KeyboardInBuf.WellFormed.exists_count (h : kb.WellFormed) :
    ∃ n : Nat, kb.count = n ∧ n ≤ KB_BUF_SIZE := by
  refine ⟨kb.count.toNat, (Int.toNat_of_nonneg h.nonneg).symm, ?_⟩
  have := h.le
  omega

theorem KeyboardInBuf.WellFormed.counter_eq (h : kb.WellFormed) :
    kb.counter count = min count kb.count.toNat := by
  obtain ⟨n, hn, hle⟩ := h.exists_count
  unfold KeyboardInBuf.counter
  rw [hn, ulong_eq (by unfold KB_BUF_SIZE at hle; omega), Int.toNat_natCast]
  split <;> omega

theorem KeyboardInBuf.WellFormed.room_eq (h : kb.WellFormed) :
    kb.room = KB_BUF_SIZE - kb.pTail := by
  have htail := h.tail
  unfold KeyboardInBuf.room
  rw [← Nat.cast_sub htail]
  exact ulong_eq (by unfold KB_BUF_SIZE; omega)

theorem KeyboardInBuf.WellFormed.counter_le (h : kb.WellFormed) (hs : kb.Straight count) :
    kb.counter count ≤ kb.room := by
  have htail := h.tail
  have hnonneg := h.nonneg
  unfold KeyboardInBuf.Straight at hs
  rw [h.counter_eq, h.room_eq]
  omega

/-- The state behind `KeyboardInit` and behind every reset. -/
theorem KeyboardInBuf.wellFormed_empty (buf : Buffer) : (⟨0, 0, 0, buf⟩ : KeyboardInBuf).WellFormed :=
  ⟨le_rfl, Int.natCast_nonneg _, Nat.zero_le _, Nat.zero_le _, Int.ModEq.refl _⟩

/-- The cell that is written is the one behind the unread bytes. -/
theorem KeyboardInBuf.WellFormed.cell_eq (h : kb.WellFormed) :
    kb.cell = (kb.pTail + kb.count.toNat) % KB_BUF_SIZE := by
  have hhead := h.head
  obtain ⟨n, hn, hle⟩ := h.exists_count
  have hcongr : ((kb.pHead : Int) - kb.pTail) % 100 = kb.count % 100 := h.congr
  unfold KeyboardInBuf.cell KB_BUF_SIZE at *
  rw [hn, Int.toNat_natCast]
  split <;> omega

/-- A byte arrives at a ring that is not full. -/
theorem KeyboardInBuf.WellFormed.keyboardHandler (h : kb.WellFormed) (hc : kb.count < KB_BUF_SIZE)
    (x : UInt8) : (keyboardHandler kb x).WellFormed := by
  have hnonneg := h.nonneg
  have hcell := h.cell_eq
  have hlt : kb.cell < KB_BUF_SIZE := hcell ▸ Nat.mod_lt _ (by decide)
  have hcount : int32 (kb.count + 1) = kb.count + 1 := by
    unfold KB_BUF_SIZE at hc
    exact int32_eq (by omega) (by omega)
  have hhead : add64 kb.cell 1 = kb.cell + 1 := by
    unfold KB_BUF_SIZE at hlt
    exact add64_eq (by omega)
  refine ⟨?_, ?_, ?_, h.tail, ?_⟩
  · show 0 ≤ int32 (kb.count + 1)
    omega
  · show int32 (kb.count + 1) ≤ KB_BUF_SIZE
    omega
  · show add64 kb.cell 1 ≤ KB_BUF_SIZE
    omega
  · show ((add64 kb.cell 1 : Nat) - kb.pTail : Int) ≡ int32 (kb.count + 1) [ZMOD KB_BUF_SIZE]
    rw [hcount, hhead]
    unfold KB_BUF_SIZE at *
    show ((kb.cell + 1 : Nat) - kb.pTail : Int) % 100 = (kb.count + 1) % 100
    omega

/-- What a read does that does not go round the end of the ring. -/
theorem KeyboardInBuf.WellFormed.keyboardRead_eq (h : kb.WellFormed) (hs : kb.Straight count)
    (mem : Buffer) (buf : Nat) :
    keyboardRead kb mem buf count
      = ({ kb with pTail := kb.pTail + kb.counter count, count := kb.count - kb.counter count },
          copyToUser kb buf mem (kb.pTail, kb.counter count), (kb.counter count : Int)) := by
  have hle := h.counter_le hs
  have hroom := h.room_eq
  have hcounter := @KeyboardInBuf.WellFormed.counter_eq kb count h
  have htail := h.tail
  have hnonneg := h.nonneg
  have hcount := h.le
  unfold KB_BUF_SIZE at hroom htail hcount
  have h1 : add64 kb.pTail (kb.counter count) = kb.pTail + kb.counter count := add64_eq (by omega)
  have h2 : int32 (kb.count - kb.counter count) = kb.count - kb.counter count :=
    int32_eq (by omega) (by omega)
  have h3 : int32 (kb.counter count) = kb.counter count := int32_eq (by omega) (by omega)
  unfold keyboardRead KeyboardInBuf.copies
  dsimp only
  rw [if_pos hle, if_pos hle, h1, h2, h3]
  rfl

theorem KeyboardInBuf.WellFormed.keyboardRead (h : kb.WellFormed) (hs : kb.Straight count)
    (mem : Buffer) (buf : Nat) : (keyboardRead kb mem buf count).1.WellFormed := by
  have hle := h.counter_le hs
  have hroom := h.room_eq
  have hcounter := @KeyboardInBuf.WellFormed.counter_eq kb count h
  have htail := h.tail
  have hnonneg := h.nonneg
  have hcount := h.le
  have hcongr := h.congr
  rw [h.keyboardRead_eq hs]
  refine ⟨?_, ?_, h.head, ?_, ?_⟩
  · show 0 ≤ kb.count - kb.counter count
    omega
  · show kb.count - kb.counter count ≤ KB_BUF_SIZE
    omega
  · show kb.pTail + kb.counter count ≤ KB_BUF_SIZE
    omega
  · show ((kb.pHead : Int) - (kb.pTail + kb.counter count : Nat)) ≡ kb.count - kb.counter count
      [ZMOD KB_BUF_SIZE]
    have := hcongr.sub_right (kb.counter count : Int)
    rwa [sub_sub, ← Nat.cast_add] at this

theorem KeyboardInBuf.WellFormed.readsInside (h : kb.WellFormed) (hs : kb.Straight count) :
    kb.ReadsInside count := by
  have hle := h.counter_le hs
  have htail := h.tail
  rw [h.room_eq] at hle
  intro copy hcopy
  unfold KeyboardInBuf.copies at hcopy
  rw [if_pos (h.counter_le hs), List.mem_singleton] at hcopy
  subst hcopy
  show kb.pTail + kb.counter count ≤ KB_BUF_SIZE
  omega

end

/-- One step keeps the ring well formed. -/
theorem KeyboardStep.wellFormed {s : Keyboard} (h : s.kb.WellFormed) (c : KeyboardStep)
    (hc : c.Fits s) : (c.run s).kb.WellFormed := by
  cases c with
  | arrive x => exact h.keyboardHandler hc x
  | read buf count => exact h.keyboardRead hc s.mem buf
  | openFile => exact KeyboardInBuf.wellFormed_empty _
  | close => exact KeyboardInBuf.wellFormed_empty _
  | ioctl cmd =>
      show (keyboardIoctl s.kb cmd).WellFormed
      unfold keyboardIoctl
      split
      · exact KeyboardInBuf.wellFormed_empty _
      · exact h

/-- **The ring stays well formed**, in every run in which no byte arrives at a full ring and no read
goes round the end of it; and every such read copies from the ring only. -/
theorem keyboard_ring_well_formed {s : Keyboard} (h : KeyboardReachable (fun s c => c.Fits s) s) :
    s.kb.WellFormed ∧ ∀ buf count, (KeyboardStep.read buf count).Fits s → s.kb.ReadsInside count := by
  have hwf : s.kb.WellFormed := by
    induction h with
    | init block mem => exact KeyboardInBuf.wellFormed_empty _
    | step c _ hok ih => exact c.wellFormed ih hok
  exact ⟨hwf, fun _ _ hs => hwf.readsInside hs⟩

/-- A run of steps. -/
def Keyboard.steps (s : Keyboard) (cs : List KeyboardStep) : Keyboard :=
  cs.foldl (fun s c => c.run s) s

/-- Every step of the run meets `ok` where it is made. -/
def Keyboard.Along (ok : Keyboard → KeyboardStep → Prop) (s : Keyboard) : List KeyboardStep → Prop
  | [] => True
  | c :: cs => ok s c ∧ (c.run s).Along ok cs

instance Keyboard.decidableAlong {ok : Keyboard → KeyboardStep → Prop}
    [∀ s c, Decidable (ok s c)] : ∀ s cs, Decidable (Keyboard.Along ok s cs)
  | _, [] => .isTrue trivial
  | s, c :: cs => @instDecidableAnd _ _ _ (Keyboard.decidableAlong (c.run s) cs)

theorem KeyboardReachable.steps {ok : Keyboard → KeyboardStep → Prop} {s : Keyboard}
    (h : KeyboardReachable ok s) {cs : List KeyboardStep} (hok : s.Along ok cs) :
    KeyboardReachable ok (s.steps cs) := by
  induction cs generalizing s with
  | nil => exact h
  | cons c cs ih => exact ih (h.step c hok.1) hok.2

/-- A start with all bytes zero. -/
def exampleKeyboard : Keyboard := keyboardStart (fun _ => 0) (fun _ => 0)

theorem keyboard_ring_well_formed_example :
    (exampleKeyboard.steps [.arrive 7]).kb.WellFormed ∧
      (exampleKeyboard.steps [.arrive 7]).kb.ReadsInside 1 := by
  have h : KeyboardReachable (fun s c => c.Fits s) (exampleKeyboard.steps [.arrive 7]) :=
    (KeyboardReachable.init _ _).steps (by decide)
  obtain ⟨h1, h2⟩ := keyboard_ring_well_formed h
  exact ⟨h1, h2 0 1 (by decide)⟩

/-- A hundred and one bytes arrive and nobody reads: `count` is above the size of the ring. -/
theorem keyboard_ring_overrun :
    ¬ ∀ s, KeyboardReachable (fun _ _ => True) s → s.kb.WellFormed := by
  intro h
  have hr : KeyboardReachable (fun _ _ => True)
      (exampleKeyboard.steps (List.replicate 101 (.arrive 7))) :=
    (KeyboardReachable.init _ _).steps (by decide +kernel)
  have hle := (h _ hr).le
  exact absurd hle (by decide +kernel)

/-! ## The ring is a queue -/

open Ring

/-- The ring is used as a queue: a byte arrives where fewer than `KB_BUF_SIZE` are unread, and is read
into a buffer of the user. -/
def KeyboardStep.Room (s : Keyboard) : KeyboardStep → Prop
  | .arrive _ => s.arrived.length - s.delivered.length < KB_BUF_SIZE
  | .read buf count => buf + min count s.kb.count.toNat ≤ TASK_SIZE
  | _ => False

instance (s : Keyboard) : ∀ c : KeyboardStep, Decidable (c.Room s)
  | .arrive _ => inferInstanceAs (Decidable (_ < KB_BUF_SIZE))
  | .read _ _ => inferInstanceAs (Decidable (_ ≤ TASK_SIZE))
  | .openFile | .close | .ioctl _ => inferInstanceAs (Decidable False)

/-- The bytes in the ring are those that arrived and were not delivered. -/
structure Keyboard.Inv (s : Keyboard) : Prop where
  wellFormed : s.kb.WellFormed
  arrived : s.arrived
    = s.delivered ++ window KB_BUF_SIZE s.kb.buf s.kb.pTail s.kb.count.toNat

section

variable {s : Keyboard}

theorem Keyboard.Inv.length_arrived (h : s.Inv) :
    s.arrived.length = s.delivered.length + s.kb.count.toNat := by
  rw [h.arrived, List.length_append, length_window]

/-- A byte arrives. -/
theorem Keyboard.Inv.arrive (h : s.Inv) (x : UInt8) (hc : (KeyboardStep.arrive x).Room s) :
    ((KeyboardStep.arrive x).run s).Inv := by
  have hlen := h.length_arrived
  have hnonneg := h.wellFormed.nonneg
  have hc : s.arrived.length - s.delivered.length < KB_BUF_SIZE := hc
  have hlt : s.kb.count.toNat < KB_BUF_SIZE := by omega
  refine ⟨h.wellFormed.keyboardHandler (by omega) x, ?_⟩
  have hcount : (keyboardHandler s.kb x).count.toNat = s.kb.count.toNat + 1 := by
    show (int32 (s.kb.count + 1)).toNat = _
    unfold KB_BUF_SIZE at hlt
    rw [int32_eq (by omega) (by omega)]
    omega
  show s.arrived ++ [x] = s.delivered ++ window KB_BUF_SIZE
    (Function.update s.kb.buf s.kb.cell x) s.kb.pTail (keyboardHandler s.kb x).count.toNat
  rw [hcount, h.wellFormed.cell_eq, window_update hlt, ← List.append_assoc, ← h.arrived]

/-- What is found in the user buffer behind a copy. -/
theorem userBytes_copyToUser {kb : KeyboardInBuf} {buf n tail : Nat} (mem : Buffer)
    (hbuf : buf + n ≤ TASK_SIZE) (htail : tail + n ≤ KB_BUF_SIZE) :
    userBytes (copyToUser kb buf mem (tail, n)) buf n = window KB_BUF_SIZE kb.buf tail n := by
  rw [window_eq_of_le htail]
  unfold TASK_SIZE at hbuf
  unfold KB_BUF_SIZE at htail
  have hverify : verifyArea buf n = true := by
    unfold verifyArea add64 TASK_SIZE
    rw [Nat.mod_eq_of_lt (by omega)]
    exact decide_eq_true hbuf
  refine List.map_congr_left (fun i hi => ?_)
  have hi := List.mem_range.mp hi
  have haddr : add64 buf i = buf + i := add64_eq (by omega)
  have hsub : sub64 (buf + i) buf = i := by
    rw [sub64_eq (by omega) (by omega)]
    omega
  unfold copyToUser
  rw [if_pos hverify, bytesAt, haddr, storeAt, hsub, if_pos hi, bytesAt, add64_eq (by omega)]

/-- A read delivers the oldest bytes of the ring. -/
theorem Keyboard.Inv.read (h : s.Inv) (buf count : Nat)
    (hbuf : (KeyboardStep.read buf count).Room s) (hs : s.kb.Straight count) :
    ((KeyboardStep.read buf count).run s).Inv := by
  have hbuf : buf + min count s.kb.count.toNat ≤ TASK_SIZE := hbuf
  have hwf := h.wellFormed
  have hle := hwf.counter_le hs
  have htail := hwf.tail
  have hnonneg := hwf.nonneg
  rw [hwf.room_eq] at hle
  rw [← hwf.counter_eq] at hbuf
  have hcounter := @KeyboardInBuf.WellFormed.counter_eq s.kb count hwf
  have hsplit : s.kb.count.toNat
      = s.kb.counter count + (s.kb.count - s.kb.counter count).toNat := by omega
  refine ⟨hwf.keyboardRead hs s.mem buf, ?_⟩
  dsimp only [KeyboardStep.run]
  rw [hwf.keyboardRead_eq hs]
  dsimp only
  rw [Int.toNat_natCast, userBytes_copyToUser s.mem hbuf (by omega), List.append_assoc,
    ← window_add, ← hsplit]
  exact h.arrived

end

/-- **The ring is a queue**, in every run whose reads do not go round its end. -/
theorem keyboard_fifo {s : Keyboard}
    (h : KeyboardReachable (fun s c => c.Room s ∧ c.Fits s) s) :
    s.delivered <+: s.arrived ∧ s.kb.count = s.arrived.length - s.delivered.length ∧
      ∀ buf count, (KeyboardStep.read buf count).Fits s →
        (keyboardRead s.kb s.mem buf count).2.2
          = min (count : Int) (s.arrived.length - s.delivered.length) := by
  have hinv : s.Inv := by
    induction h with
    | init block mem => exact ⟨KeyboardInBuf.wellFormed_empty _, rfl⟩
    | step c _ hok ih =>
        cases c with
        | arrive x => exact ih.arrive x hok.1
        | read buf count => exact ih.read buf count hok.1 hok.2
        | openFile => exact hok.1.elim
        | close => exact hok.1.elim
        | ioctl cmd => exact hok.1.elim
  have hlen := hinv.length_arrived
  have hnonneg := hinv.wellFormed.nonneg
  refine ⟨⟨_, hinv.arrived.symm⟩, by omega, fun buf count hc => ?_⟩
  rw [hinv.wellFormed.keyboardRead_eq hc]
  show (s.kb.counter count : Int) = _
  rw [hinv.wellFormed.counter_eq]
  omega

/-- Three bytes, two of them read, one more byte, and a read of all that is left. -/
def someSteps : List KeyboardStep :=
  [.arrive 7, .arrive 8, .arrive 9, .read 0x800000 2, .arrive 10, .read 0x800002 5]

theorem keyboard_fifo_example :
    (exampleKeyboard.steps someSteps).delivered <+: [7, 8, 9, 10] ∧
      (exampleKeyboard.steps someSteps).delivered.length = 4 ∧
      (exampleKeyboard.steps someSteps).kb.count = 0 := by
  have h : KeyboardReachable (fun s c => c.Room s ∧ c.Fits s) (exampleKeyboard.steps someSteps) :=
    (KeyboardReachable.init _ _).steps (by decide +kernel)
  obtain ⟨hfifo, hcount, -⟩ := keyboard_fifo h
  exact ⟨hfifo, by decide +kernel, hcount.trans (by decide +kernel)⟩

/-- A hundred bytes, all of them read, and one byte more. -/
def straddlingSteps : List KeyboardStep :=
  List.replicate 100 (.arrive 0) ++ [.read 0x800000 100, .arrive 7, .read 0x800000 1]

/-- The tail stands at the end of the ring, and the byte that arrived is the first of the ring. The
read copies the one the head points to. -/
theorem keyboard_fifo_straddling :
    ¬ ∀ s, KeyboardReachable (fun s c => c.Room s) s → s.delivered <+: s.arrived := by
  intro h
  have hr : KeyboardReachable (fun s c => c.Room s) (exampleKeyboard.steps straddlingSteps) :=
    (KeyboardReachable.init _ _).steps (by decide +kernel)
  exact absurd (h _ hr) (by decide +kernel)

end Talios
