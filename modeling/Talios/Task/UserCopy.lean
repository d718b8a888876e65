import Talios.Fs.PathWalk
import Talios.Fs.Fat32Copy
import Talios.Keyboard.Ring
import Talios.Memory.Slab

set_option autoImplicit false

/-! # Copies from and to the caller

`copy_from_user`, `copy_to_user`, `strncpy_from_user` and `strnlen_user` in one address space of 64
bits, with the addresses that they access on the side of the caller, in the order of the accesses. A
fault would end a call at one of them. What the functions do to the memory is what the modules of the
file system and of the keyboard say (`strnlenUser_ret`, `copyBytes_mem`).

`verify_area` adds the size to the pointer without a test for wrap-around, so that a pointer near the
end of the address space passes. A system call hands over the pointer of its caller, or a sum of it
and an offset (`SystemCall.userCalls`); `user_range_checked` says for which ones this goes wrong.
-/

namespace Talios

open Bytes Word

namespace UserCopy

/-! ## `lib.c` -/

/-- The addresses of `n` bytes from `a` on. -/
def span (a n : Nat) : List Nat := (List.range n).map (add64 a)

/-- The registers of a string instruction, the memory, and what has been read and written. -/
structure Strings where
  rsi : Nat
  rdi : Nat
  mem : Buffer
  reads : List Nat
  writes : List Nat

/-- `movsb` and `movsq`: one and eight bytes. -/
def movs (w : Nat) (s : Strings) : Strings where
  rsi := add64 s.rsi w
  rdi := add64 s.rdi w
  mem := storeAt s.mem s.rdi w (bytesAt s.mem s.rsi)
  reads := s.reads ++ span s.rsi w
  writes := s.writes ++ span s.rdi w

/-- `rep` in front of it, with `rcx`. -/
def repMovs (w : Nat) : Nat → Strings → Strings
  | 0, s => s
  | rcx + 1, s => repMovs w rcx (movs w s)

/-- The instructions of both copies: quadwords, and the bytes that are left. -/
def copyBytes (mem : Buffer) (src dst size : Nat) : Strings :=
  repMovs 1 (size % 8) (repMovs 8 (size / 8) ⟨src, dst, mem, [], []⟩)

/-- What a call leaves behind: its value, the memory, and the addresses of the caller's memory that it
has accessed. -/
structure Result where
  ret : Nat
  mem : Buffer
  accessed : List Nat

/-- `copy_from_user`. Behind the instructions `size` is 0. -/
def copyFromUser (mem : Buffer) (src dst size : Nat) : Result :=
  if verifyArea src size then
    let s := copyBytes mem src dst size
    ⟨0, s.mem, s.reads⟩
  else ⟨0, mem, []⟩

/-- `copy_to_user`. -/
def copyToUser (mem : Buffer) (src dst size : Nat) : Result :=
  if verifyArea dst size then
    let s := copyBytes mem src dst size
    ⟨0, s.mem, s.writes⟩
  else ⟨0, mem, []⟩

/-- `strncpy_from_user`. -/
def strncpyFromUser (mem : Buffer) (src dst size : Nat) : Result :=
  let r := copyFromUser mem src dst size
  { r with mem := storeAt r.mem (add64 dst size) 1 (fun _ => 0) }

/-- The loop of `strnlen_user`, with `Ptr - src` and how far it is from `size`: the value, and what has
been read. The byte is read before the distance is compared. -/
def strnlenLoop (mem : Buffer) (src : Nat) : Nat → Nat → Nat × List Nat
  | 0, i => (i, [add64 src i])
  | n + 1, i =>
      if mem (add64 src i) = 0 then (i, [add64 src i])
      else
        let r := strnlenLoop mem src n (i + 1)
        (r.1, add64 src i :: r.2)

/-- `strnlen_user`. -/
def strnlenUser (mem : Buffer) (src size : Nat) : Result :=
  if verifyArea src size then
    let r := strnlenLoop mem src size 0
    ⟨r.1, mem, r.2⟩
  else ⟨0, mem, []⟩

/-! ## System calls -/

/-- A call of one of the functions. -/
inductive UserCall
  | copyFromUser (src dst size : Nat)
  | copyToUser (src dst size : Nat)
  | strncpyFromUser (src dst size : Nat)
  | strnlenUser (src size : Nat)

/-- The pointer to the memory of the caller. -/
def UserCall.pointer : UserCall → Nat
  | .copyFromUser src _ _ => src
  | .copyToUser _ dst _ => dst
  | .strncpyFromUser src _ _ => src
  | .strnlenUser src _ => src

def UserCall.size : UserCall → Nat
  | .copyFromUser _ _ size => size
  | .copyToUser _ _ size => size
  | .strncpyFromUser _ _ size => size
  | .strnlenUser _ size => size

def UserCall.run (mem : Buffer) : UserCall → Result
  | .copyFromUser src dst size => UserCopy.copyFromUser mem src dst size
  | .copyToUser src dst size => UserCopy.copyToUser mem src dst size
  | .strncpyFromUser src dst size => UserCopy.strncpyFromUser mem src dst size
  | .strnlenUser src size => UserCopy.strnlenUser mem src size

/-- The calls of `sys_open` and of `sys_chdir`, with the page that `kmalloc` has returned. -/
def pathCalls (mem : Buffer) (filename path : Nat) : List UserCall :=
  let pathlen := (strnlenUser mem filename PAGE_4K_SIZE).ret
  .strnlenUser filename PAGE_4K_SIZE ::
    if pathlen = 0 ∨ PAGE_4K_SIZE ≤ pathlen then [] else [.strncpyFromUser filename path pathlen]

/-- The calls of `keyboard_read`, with the address of the ring. -/
def keyboardCalls (kb : KeyboardInBuf) (ring buf count : Nat) : List UserCall :=
  (kb.copies count).map (fun copy => .copyToUser (add64 ring copy.1) buf copy.2)

/-- The calls of the loop in `fat32_read`, with the address of the cluster's buffer. -/
def readLoopCalls (sb : SbInfo) (disk : Buffer) (buffer buf : Nat) : Nat → ReadLoop → List UserCall
  | 0, _ => []
  | fuel + 1, s =>
      let s' := fat32ReadStep sb disk buf s
      (if add64 buf s.offset < TASK_SIZE then
        [.copyToUser (add64 buffer s.offset) (add64 buf s.index) (chunk sb s.remainder s.offset)]
      else []) ++
      if s'.remainder ≠ 0 ∧ s'.clus ≠ 0 then readLoopCalls sb disk buffer buf fuel s' else []

/-- The calls of `fat32_read`. -/
def readCalls (sb : SbInfo) (disk : Buffer) (inode : Inode) (mem : Buffer)
    (buffer buf count position : Nat) : List UserCall :=
  let remainder := readRemainder inode count position
  readLoopCalls sb disk buffer buf (remainder + 1)
    ⟨startCluster sb inode position, remainder, 0, position % sb.bytePerClus, mem, []⟩

/-- The calls of the loop in `fat32_write`. -/
def writeLoopCalls (sb : SbInfo) (mem : Buffer) (buffer buf lba : Nat) :
    Nat → WriteLoop → List UserCall
  | 0, _ => []
  | fuel + 1, s =>
      let s' := fat32WriteStep sb mem buf lba s
      (if add64 buf s.offset < TASK_SIZE then
        [.copyFromUser (add64 buf s.index) (add64 buffer s.offset) (chunk sb s.remainder s.offset)]
      else []) ++
      if s'.remainder ≠ 0 ∧ s'.clus ≠ 0 then writeLoopCalls sb mem buffer buf lba fuel s' else []

/-- The calls of `fat32_write` once it has a cluster. -/
def writeAtCalls (sb : SbInfo) (disk mem : Buffer) (buffer buf count position clus : Nat) :
    List UserCall :=
  let lba := clusToLba sb clus
  writeLoopCalls sb mem buffer buf lba (count + 1)
    ⟨clus, count, 0, position % sb.bytePerClus, ideRead disk lba sb.secPerClus newBuffer, disk, []⟩

/-- The calls of `fat32_write`. -/
def writeCalls (sb : SbInfo) (disk : Buffer) (inode : Inode) (mem : Buffer)
    (buffer buf count position : Nat) : List UserCall :=
  let clus := startCluster sb inode position
  if clus = 0 then
    let clus := fat32FindNextAvaliableCluster sb disk
    if clus = 0 then []
    else
      let inode := { inode with firstCluster := clus }
      let disk := fat32TableWrite sb (fat32WriteInode sb disk inode) clus 0xffffff8
      writeAtCalls sb disk mem buffer buf count position clus
  else writeAtCalls sb disk mem buffer buf count position clus

/-- A system call that comes to one of the functions: the state it works on, the buffer that `kmalloc`
returns, and what the caller passes. -/
inductive SystemCall
  | sysOpen (path filename : UInt64)
  | sysChdir (path filename : UInt64)
  | keyboardRead (kb : KeyboardInBuf) (ring buf count : UInt64)
  | fat32Read (sb : SbInfo) (disk : Buffer) (inode : Inode) (buffer buf count position : UInt64)
  | fat32Write (sb : SbInfo) (disk : Buffer) (inode : Inode) (buffer buf count position : UInt64)

/-- The calls that a system call makes. -/
def SystemCall.userCalls (mem : Buffer) : SystemCall → List UserCall
  | .sysOpen path filename => pathCalls mem filename.toNat path.toNat
  | .sysChdir path filename => pathCalls mem filename.toNat path.toNat
  | .keyboardRead kb ring buf count => keyboardCalls kb ring.toNat buf.toNat count.toNat
  | .fat32Read sb disk inode buffer buf count position =>
      readCalls sb disk inode mem buffer.toNat buf.toNat count.toNat position.toNat
  | .fat32Write sb disk inode buffer buf count position =>
      writeCalls sb disk inode mem buffer.toNat buf.toNat count.toNat position.toNat

/-- No address of the kernel half has been accessed. -/
def Result.BelowKernel (r : Result) : Prop := ∀ x ∈ r.accessed, x < PAGE_OFFSET

/-- The sum does not wrap around, or it does and is still out of range. -/
def SumFits (a n : Nat) : Prop := a + n < 2 ^ 64 ∨ 2 ^ 64 + TASK_SIZE < a + n

instance (a n : Nat) : Decidable (SumFits a n) := inferInstanceAs (Decidable (_ ∨ _))

/-! ## The string instructions -/

theorem add64_add64 (a m i : Nat) : add64 (add64 a m) i = add64 a (m + i) := by
  unfold add64
  rw [Nat.mod_add_mod, Nat.add_assoc]

theorem span_add (a m n : Nat) : span a (m + n) = span a m ++ span (add64 a m) n := by
  unfold span
  rw [List.range_add, List.map_append, List.map_map]
  congr 1
  apply List.map_congr_left
  intro i _
  exact (add64_add64 a m i).symm

/-- The first of the addresses, and those behind it. -/
theorem span_succ (a i n : Nat) : span (add64 a i) (n + 1) = add64 a i :: span (add64 a (i + 1)) n := by
  rw [Nat.add_comm n 1, span_add, add64_add64]
  show [add64 (add64 a i) 0] ++ _ = _
  rw [add64_add64, Nat.add_zero]
  rfl

theorem span_congr {a b n : Nat} (h : ∀ i, add64 a i = add64 b i) : span a n = span b n :=
  List.map_congr_left (fun i _ => h i)

/-- `m` bytes of a copy from `src` to `dst` have been moved. -/
structure Moved (src dst m : Nat) (s : Strings) : Prop where
  rsi : ∀ i, add64 s.rsi i = add64 src (m + i)
  rdi : ∀ i, add64 s.rdi i = add64 dst (m + i)
  reads : s.reads = span src m
  writes : s.writes = span dst m

section

variable {src dst m n w : Nat} {s : Strings} {mem : Buffer}

theorem Moved.start (mem : Buffer) : Moved src dst 0 ⟨src, dst, mem, [], []⟩ := by
  refine ⟨fun i => ?_, fun i => ?_, rfl, rfl⟩
  · rw [Nat.zero_add]
  · rw [Nat.zero_add]

theorem Moved.movs (h : Moved src dst m s) (w : Nat) : Moved src dst (m + w) (movs w s) := by
  have hspan : ∀ {a b : Nat}, (∀ i, add64 a i = add64 b (m + i)) →
      span b m ++ span a w = span b (m + w) := by
    intro a b hab
    rw [span_add, span_congr fun i => (hab i).trans (add64_add64 b m i).symm]
  refine ⟨fun i => ?_, fun i => ?_, ?_, ?_⟩
  · show add64 (add64 s.rsi w) i = _
    rw [add64_add64, h.rsi, Nat.add_assoc]
  · show add64 (add64 s.rdi w) i = _
    rw [add64_add64, h.rdi, Nat.add_assoc]
  · show s.reads ++ span s.rsi w = _
    rw [h.reads, hspan h.rsi]
  · show s.writes ++ span s.rdi w = _
    rw [h.writes, hspan h.rdi]

theorem Moved.repMovs (w : Nat) : ∀ (rcx : Nat) {m : Nat} {s : Strings}, Moved src dst m s →
    Moved src dst (m + rcx * w) (repMovs w rcx s)
  | 0, m, s, h => by
      rw [Nat.zero_mul]
      exact h
  | rcx + 1, m, s, h => by
      have hrest := (h.movs w).repMovs w rcx
      rw [Nat.add_assoc, Nat.add_comm w, ← Nat.succ_mul] at hrest
      exact hrest

/-- **What a copy accesses**: `size` bytes from each pointer on. -/
theorem copyBytes_moved (mem : Buffer) (src dst size : Nat) :
    Moved src dst size (copyBytes mem src dst size) := by
  have hstart : Moved src dst 0 ⟨src, dst, mem, [], []⟩ := Moved.start mem
  have h := (hstart.repMovs 8 (size / 8)).repMovs 1 (size % 8)
  have hsize : 0 + size / 8 * 8 + size % 8 * 1 = size := by omega
  rw [hsize] at h
  exact h

/-- The source of a copy is apart from where it goes. -/
def Apart (src dst n : Nat) : Prop := ∀ i < n, n ≤ sub64 (add64 src i) dst

/-- `m` bytes have been moved, and the memory is what it was with them written to `dst`. -/
structure Copied (mem : Buffer) (src dst m : Nat) (s : Strings) : Prop where
  moved : Moved src dst m s
  mem : s.mem = storeAt mem dst m (bytesAt mem src)

theorem Copied.movs (h : Copied mem src dst m s) (ha : Apart src dst n) (hm : m + w ≤ n)
    (hn : n < 2 ^ 64) : Copied mem src dst (m + w) (movs w s) := by
  refine ⟨h.moved.movs w, ?_⟩
  -- the bytes that are read now have not been written
  have hread : ∀ i < w, bytesAt s.mem s.rsi i = bytesAt mem src (m + i) := by
    intro i hi
    have hfar := ha (m + i) (by omega)
    show s.mem (add64 s.rsi i) = mem (add64 src (m + i))
    rw [h.moved.rsi, h.mem]
    exact if_neg (by omega)
  have hdst : s.rdi % 2 ^ 64 = (dst + m) % 2 ^ 64 := h.moved.rdi 0
  funext a
  show (if sub64 a s.rdi < w then bytesAt s.mem s.rsi (sub64 a s.rdi) else s.mem a)
    = if sub64 a dst < m + w then bytesAt mem src (sub64 a dst) else mem a
  have hsub : sub64 a s.rdi = (sub64 a dst + 2 ^ 64 - m) % 2 ^ 64 := by
    unfold sub64
    omega
  have hlt : sub64 a dst < 2 ^ 64 := Nat.mod_lt _ (by decide)
  by_cases h1 : sub64 a dst < m
  · rw [if_neg (by omega), if_pos (by omega), h.mem]
    exact if_pos h1
  · by_cases h2 : sub64 a dst < m + w
    · have hplace : m + sub64 a s.rdi = sub64 a dst := by omega
      rw [if_pos (by omega), if_pos h2, hread _ (by omega), hplace]
    · rw [if_neg (by omega), if_neg h2, h.mem]
      exact if_neg h1

theorem Copied.repMovs (ha : Apart src dst n) (hn : n < 2 ^ 64) (w : Nat) :
    ∀ (rcx : Nat) {m : Nat} {s : Strings}, Copied mem src dst m s → m + rcx * w ≤ n →
      Copied mem src dst (m + rcx * w) (repMovs w rcx s)
  | 0, m, s, h, _ => by
      rw [Nat.zero_mul]
      exact h
  | rcx + 1, m, s, h, hm => by
      have hsum : m + (rcx + 1) * w = m + w + rcx * w := by
        rw [Nat.succ_mul, Nat.add_assoc, Nat.add_comm w]
      rw [hsum] at hm ⊢
      exact (h.movs ha (by omega) hn).repMovs ha hn w rcx hm

/-- **What a copy does to the memory**, where the source is apart from the destination. -/
theorem copyBytes_mem (ha : Apart src dst n) (hn : n < 2 ^ 64) (mem : Buffer) :
    (copyBytes mem src dst n).mem = storeAt mem dst n (bytesAt mem src) := by
  have hstart : Copied mem src dst 0 ⟨src, dst, mem, [], []⟩ :=
    ⟨Moved.start mem, funext fun a => (if_neg (Nat.not_lt_zero _)).symm⟩
  have h := (hstart.repMovs ha hn 8 (n / 8) (by omega)).repMovs ha hn 1 (n % 8) (by omega)
  have hsize : 0 + n / 8 * 8 + n % 8 * 1 = n := by omega
  rw [hsize] at h
  exact h.mem

end

/-! ## `strnlen_user` -/

/-- The loop goes on to the first zero, and reads it, or to the end. -/
theorem strnlenLoop_spec (mem : Buffer) (src : Nat) : ∀ n i : Nat,
    ∃ k ≤ n, strnlenLoop mem src n i = (i + k, span (add64 src i) (k + 1)) ∧
      (∀ j < k, mem (add64 src (i + j)) ≠ 0) ∧ (k < n → mem (add64 src (i + k)) = 0) := by
  have hone : ∀ i, [add64 src i] = span (add64 src i) (0 + 1) := fun i => (span_succ src i 0).symm
  intro n
  induction n with
  | zero =>
      intro i
      refine ⟨0, le_rfl, ?_, fun j hj => absurd hj (Nat.not_lt_zero j), fun h => absurd h (by omega)⟩
      rw [strnlenLoop, ← hone, Nat.add_zero]
  | succ n ih =>
      intro i
      by_cases hz : mem (add64 src i) = 0
      · refine ⟨0, Nat.zero_le _, ?_, fun j hj => absurd hj (Nat.not_lt_zero j), fun _ => hz⟩
        rw [strnlenLoop, if_pos hz, ← hone, Nat.add_zero]
      · obtain ⟨k, hk, hloop, hset, hzero⟩ := ih (i + 1)
        refine ⟨k + 1, by omega, ?_, fun j hj => ?_, fun h => ?_⟩
        · rw [strnlenLoop, if_neg hz, hloop]
          dsimp only
          have hsum : i + 1 + k = i + (k + 1) := by omega
          rw [hsum, span_succ src i]
        · cases j with
          | zero => exact hz
          | succ j =>
              have := hset j (by omega)
              rwa [Nat.add_right_comm] at this
        · have := hzero (by omega)
          rwa [Nat.add_right_comm] at this

/-- The value is the one that the callers of `strnlen_user` use. -/
theorem strnlenUser_ret (mem : Buffer) (src size : Nat) :
    (strnlenUser mem src size).ret = Talios.strnlenUser mem src size := by
  unfold strnlenUser Talios.strnlenUser
  by_cases hv : verifyArea src size = true
  · rw [if_pos hv, if_pos hv]
    obtain ⟨k, hk, hloop, hset, hzero⟩ := strnlenLoop_spec mem src size 0
    rw [hloop]
    simp only [Nat.zero_add] at hset hzero ⊢
    symm
    by_cases hend : k < size
    · rw [List.findIdx_eq (by simpa using hend)]
      exact ⟨by simpa using hzero hend, fun j hj => by simpa using hset j hj⟩
    · obtain rfl : k = size := by omega
      rw [List.findIdx_eq_length_of_false (fun j hj => by simpa using hset j (List.mem_range.mp hj)),
        List.length_range]
  · rw [if_neg hv, if_neg hv]

/-! ## The range check -/

/-- The check is right exactly where the sum fits. -/
theorem verifyArea_sound_iff {a n : Nat} (ha : a < 2 ^ 64) (hn : n < 2 ^ 64) :
    (verifyArea a n = true → a + n ≤ TASK_SIZE) ↔ SumFits a n := by
  unfold verifyArea SumFits add64 TASK_SIZE
  rw [decide_eq_true_eq]
  omega

/-- A range that has been let through is free of kernel addresses exactly where the sum fits. -/
theorem span_below_iff {a n : Nat} (ha : a < 2 ^ 64) (hn : n < 2 ^ 64)
    (hv : verifyArea a n = true) : (∀ x ∈ span a n, x < PAGE_OFFSET) ↔ SumFits a n := by
  have hmem : (∀ x ∈ span a n, x < PAGE_OFFSET) ↔ ∀ i < n, add64 a i < PAGE_OFFSET := by
    unfold span
    rw [List.forall_mem_map]
    exact forall_congr' fun i => by rw [List.mem_range]
  rw [hmem]
  constructor
  · intro hbelow
    rw [← verifyArea_sound_iff ha hn]
    intro _
    by_contra hover
    have hsum : add64 a n ≤ TASK_SIZE := of_decide_eq_true hv
    -- the sum wraps around, so that the last address of all is in the range
    have hlast : a + (2 ^ 64 - 1 - a) = 2 ^ 64 - 1 := by omega
    have hwrap : 2 ^ 64 ≤ a + n := by
      by_contra hfits
      rw [add64_eq (by omega)] at hsum
      exact hover hsum
    have htop := hbelow (2 ^ 64 - 1 - a) (by omega)
    rw [add64_eq (by omega), hlast] at htop
    exact absurd htop (by decide)
  · intro hfits i hi
    have hle := (verifyArea_sound_iff ha hn).mpr hfits hv
    have hlimit : TASK_SIZE < PAGE_OFFSET := by decide
    have hoffset : PAGE_OFFSET < 2 ^ 64 := by decide
    rw [add64_eq (by omega)]
    omega

section

variable {a n : Nat} (ha : a < 2 ^ 64) (hn : n < 2 ^ 64) (m : Buffer)
include ha hn

/-- Nothing is accessed where the check refuses, and then the sum fits. -/
theorem sumFits_of_refused (hv : ¬ verifyArea a n = true) : SumFits a n :=
  (verifyArea_sound_iff ha hn).mp (fun h => absurd h hv)

theorem copyFromUser_below_iff (dst : Nat) :
    (copyFromUser m a dst n).BelowKernel ↔ SumFits a n := by
  unfold copyFromUser Result.BelowKernel
  by_cases hv : verifyArea a n = true
  · rw [if_pos hv, ← span_below_iff ha hn hv]
    dsimp only
    rw [(copyBytes_moved m a dst n).reads]
  · rw [if_neg hv]
    exact iff_of_true (List.forall_mem_nil _) (sumFits_of_refused ha hn hv)

theorem strncpyFromUser_below_iff (dst : Nat) :
    (strncpyFromUser m a dst n).BelowKernel ↔ SumFits a n := by
  -- the zero behind the bytes goes to the kernel's buffer
  have haccessed : (strncpyFromUser m a dst n).accessed = (copyFromUser m a dst n).accessed := by
    rw [strncpyFromUser]
  have hcopy := copyFromUser_below_iff ha hn m dst
  unfold Result.BelowKernel at *
  rw [haccessed]
  exact hcopy

theorem copyToUser_below_iff (src : Nat) :
    (copyToUser m src a n).BelowKernel ↔ SumFits a n := by
  unfold copyToUser Result.BelowKernel
  by_cases hv : verifyArea a n = true
  · rw [if_pos hv, ← span_below_iff ha hn hv]
    dsimp only
    rw [(copyBytes_moved m src a n).writes]
  · rw [if_neg hv]
    exact iff_of_true (List.forall_mem_nil _) (sumFits_of_refused ha hn hv)

/-- `strnlen_user` reads a byte at its pointer, and at most one behind the range. With a size of at most
`TASK_SIZE` only a pointer to the kernel half can wrap around. -/
theorem strnlenUser_below_iff (hsize : n ≤ TASK_SIZE) :
    (strnlenUser m a n).BelowKernel ↔ SumFits a n := by
  have hlimit : TASK_SIZE < PAGE_OFFSET := by decide
  have hhalf : PAGE_OFFSET + TASK_SIZE < 2 ^ 64 := by decide
  unfold strnlenUser Result.BelowKernel
  by_cases hv : verifyArea a n = true
  · obtain ⟨k, hk, hloop, -, -⟩ := strnlenLoop_spec m a n 0
    rw [if_pos hv, hloop]
    constructor
    · intro hbelow
      have hfirst : add64 a 0 < PAGE_OFFSET := by
        apply hbelow
        rw [span_succ]
        exact List.mem_cons_self
      rw [add64_eq (by omega)] at hfirst
      exact Or.inl (by omega)
    · intro hfits x hx
      have hle := (verifyArea_sound_iff ha hn).mpr hfits hv
      obtain ⟨i, hi, rfl⟩ := List.mem_map.mp hx
      have hi := List.mem_range.mp hi
      rw [add64_add64, add64_eq (by omega)]
      omega
  · rw [if_neg hv]
    exact iff_of_true (List.forall_mem_nil _) (sumFits_of_refused ha hn hv)

end

/-! ## What system calls hand over -/

/-- A call with a pointer and a size of 64 bits; `strnlen_user` gets the size of a page. -/
structure UserCall.Handed (c : UserCall) : Prop where
  pointer : c.pointer < 2 ^ 64
  size : c.size < 2 ^ 64
  strnlen : ∀ src size, c = .strnlenUser src size → size = PAGE_4K_SIZE

theorem UserCall.Handed.below_iff {c : UserCall} (h : c.Handed) (m : Buffer) :
    (c.run m).BelowKernel ↔ SumFits c.pointer c.size := by
  cases c with
  | copyFromUser src dst size => exact copyFromUser_below_iff h.pointer h.size m dst
  | copyToUser src dst size => exact copyToUser_below_iff h.pointer h.size m src
  | strncpyFromUser src dst size => exact strncpyFromUser_below_iff h.pointer h.size m dst
  | strnlenUser src size =>
      have hsize : size ≤ TASK_SIZE := by
        rw [h.strnlen src size rfl]
        decide
      exact strnlenUser_below_iff h.pointer h.size m hsize

theorem add64_lt (a b : Nat) : add64 a b < 2 ^ 64 := Nat.mod_lt _ (by decide)

theorem chunk_lt (sb : SbInfo) (r o : Nat) : chunk sb r o < 2 ^ 64 := by
  have h1 := chunk_le sb r o
  have h2 := sb.bytePerClus_lt
  omega

theorem handed_pathCalls (mem : Buffer) {filename : Nat} (path : Nat) (hf : filename < 2 ^ 64) :
    ∀ c ∈ pathCalls mem filename path, c.Handed := by
  intro c hc
  rcases List.mem_cons.mp hc with rfl | hc
  · refine ⟨hf, ?_, fun src size h => ?_⟩
    · show PAGE_4K_SIZE < 2 ^ 64
      decide
    · cases h
      rfl
  · split at hc
    · cases hc
    · rename_i hlen
      obtain rfl := List.mem_singleton.mp hc
      have hpage : PAGE_4K_SIZE < 2 ^ 64 := by decide
      refine ⟨hf, ?_, fun src size h => nomatch h⟩
      show (strnlenUser mem filename PAGE_4K_SIZE).ret < 2 ^ 64
      omega

theorem handed_keyboardCalls (kb : KeyboardInBuf) (ring : Nat) {buf count : Nat}
    (hb : buf < 2 ^ 64) (hc : count < 2 ^ 64) : ∀ c ∈ keyboardCalls kb ring buf count, c.Handed := by
  have hulong : ∀ x : Int, ulong x < 2 ^ 64 := by
    intro x
    unfold ulong
    omega
  have hcounter : kb.counter count < 2 ^ 64 := by
    unfold KeyboardInBuf.counter
    split
    · exact hc
    · exact hulong _
  have hroom : kb.room < 2 ^ 64 := hulong _
  have hsize : ∀ copy ∈ kb.copies count, copy.2 < 2 ^ 64 := by
    unfold KeyboardInBuf.copies
    split
    · simpa using hcounter
    · simp only [List.forall_mem_cons]
      exact ⟨hroom, by omega, List.forall_mem_nil _⟩
  intro c hmem
  obtain ⟨copy, hcopy, rfl⟩ := List.mem_map.mp hmem
  exact ⟨hb, hsize copy hcopy, fun src size h => nomatch h⟩

theorem handed_readLoopCalls (sb : SbInfo) (disk : Buffer) (buffer buf fuel : Nat) :
    ∀ s : ReadLoop, ∀ c ∈ readLoopCalls sb disk buffer buf fuel s, c.Handed := by
  induction fuel with
  | zero => exact fun s c hc => nomatch hc
  | succ fuel ih =>
      intro s c hc
      rcases List.mem_append.mp hc with hc | hc
      · split at hc
        · obtain rfl := List.mem_singleton.mp hc
          exact ⟨add64_lt _ _, chunk_lt sb _ _, fun src size h => nomatch h⟩
        · cases hc
      · split at hc
        · exact ih _ c hc
        · cases hc

theorem handed_writeLoopCalls (sb : SbInfo) (mem : Buffer) (buffer buf lba fuel : Nat) :
    ∀ s : WriteLoop, ∀ c ∈ writeLoopCalls sb mem buffer buf lba fuel s, c.Handed := by
  induction fuel with
  | zero => exact fun s c hc => nomatch hc
  | succ fuel ih =>
      intro s c hc
      rcases List.mem_append.mp hc with hc | hc
      · split at hc
        · obtain rfl := List.mem_singleton.mp hc
          exact ⟨add64_lt _ _, chunk_lt sb _ _, fun src size h => nomatch h⟩
        · cases hc
      · split at hc
        · exact ih _ c hc
        · cases hc

theorem handed_userCalls (mem : Buffer) (s : SystemCall) : ∀ c ∈ s.userCalls mem, c.Handed := by
  cases s with
  | sysOpen path filename => exact handed_pathCalls mem _ filename.toNat_lt
  | sysChdir path filename => exact handed_pathCalls mem _ filename.toNat_lt
  | keyboardRead kb ring buf count => exact handed_keyboardCalls kb _ buf.toNat_lt count.toNat_lt
  | fat32Read sb disk inode buffer buf count position => exact handed_readLoopCalls sb disk _ _ _ _
  | fat32Write sb disk inode buffer buf count position =>
      intro c hc
      change c ∈ writeCalls _ _ _ _ _ _ _ _ at hc
      unfold writeCalls at hc
      dsimp only at hc
      split at hc
      · split at hc
        · cases hc
        · exact handed_writeLoopCalls sb mem _ _ _ _ _ c hc
      · exact handed_writeLoopCalls sb mem _ _ _ _ _ c hc

/-- **The range check, and the copies behind it**: the check is right for a pointer and a size, and a
call that a system call makes stays out of the kernel half, exactly where the sum fits. -/
theorem user_range_checked (a n : UInt64) (s : SystemCall) (mem m : Buffer) :
    ((verifyArea a.toNat n.toNat = true → a.toNat + n.toNat ≤ TASK_SIZE) ↔
      SumFits a.toNat n.toNat) ∧
    ∀ c ∈ s.userCalls mem, (c.run m).BelowKernel ↔ SumFits c.pointer c.size :=
  ⟨verifyArea_sound_iff a.toNat_lt n.toNat_lt,
    fun c hc => (handed_userCalls mem s c hc).below_iff m⟩

/-- A name at the last address of all: `sys_open` reads it. -/
theorem kernel_name_read :
    (verifyArea 0xffffffffffffffff PAGE_4K_SIZE = true ∧
      ¬ 0xffffffffffffffff + PAGE_4K_SIZE ≤ TASK_SIZE) ∧
    ∀ (path : UInt64) (mem : Buffer),
      .strnlenUser 0xffffffffffffffff PAGE_4K_SIZE
          ∈ (SystemCall.sysOpen path 0xffffffffffffffff).userCalls mem ∧
        ¬ ((UserCall.strnlenUser 0xffffffffffffffff PAGE_4K_SIZE).run mem).BelowKernel := by
  refine ⟨by decide, fun path mem => ⟨List.mem_cons_self, fun hbelow => ?_⟩⟩
  have hfits := (strnlenUser_below_iff (by decide) (by decide) mem (by decide)).mp hbelow
  exact absurd hfits (by decide)

end UserCopy

end Talios
