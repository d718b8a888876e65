import Talios.Lib.Follow
import Talios.Lib.Packed

set_option autoImplicit false

/-! # The boot disk

`Func_ReadSector` and `Func_Get_FAT_Entry`, which `boot.asm` and `fat12.inc` both have, on a disk of 1.44
MiB. A sector that the disk does not have is asked for again and again, and a quotient that is too large
stops the processor: in both cases there is no result.

The pushes go below `BaseOfStack`, where the BIOS has its data too, and its calls write to the screen. Nothing
is read from there but what has been pushed, and the statements are about the other addresses (`Ram`).
-/

namespace Talios.Boot

open Bytes

/-! ## `fat12.inc` -/

def BPB_BytesPerSec : Nat := 512
def BPB_RootEntCnt : Nat := 224
def BPB_SecPerTrk : Nat := 18
def BPB_NumHeads : Nat := 2

def RootDirSectors : Nat := 14
def SectorNumOfRootDirStart : Nat := 19
def FirstFATSecNum : Nat := 1
def SectorBalance : Nat := 17

/-- The tracks of a side, and the sectors of the disk. -/
def CYLINDERS : Nat := 80
def SECTORS : Nat := 2880

/-- Where neither the stack and the data of the BIOS are nor the screen and the memory of the BIOS. -/
def Ram (a : Nat) : Prop := 0x7c00 ≤ a ∧ a < 0x9f000 ∨ 0x100000 ≤ a

instance (a : Nat) : Decidable (Ram a) := inferInstanceAs (Decidable (_ ∨ _))

/-- `div` by a byte: the quotient in `al` and the remainder in `ah`. -/
def divByte (ax d : Nat) : Option (Nat × Nat) := if ax / d < 256 then some (ax / d, ax % d) else none

/-- Cylinder, head and sector, in the registers they are passed in. -/
structure Chs where
  ch : Nat
  dh : Nat
  cl : Nat
deriving DecidableEq

/-- The bytes of a disk from a sector on. -/
def sectorBytes (disk : Buffer) (lba : Nat) : Buffer := fun i => disk (lba * BPB_BytesPerSec + i)

/-- `int 13h` with `ah = 2`: the bytes of `num` sectors of a track. -/
def int13 (disk : Buffer) (num : Nat) (p : Chs) : Option Buffer :=
  if p.ch < CYLINDERS ∧ p.dh < BPB_NumHeads ∧ 1 ≤ p.cl ∧ p.cl - 1 + num ≤ BPB_SecPerTrk then
    some (sectorBytes disk ((p.ch * BPB_NumHeads + p.dh) * BPB_SecPerTrk + (p.cl - 1)))
  else none

/-- Where `Func_ReadSector` looks for a sector. -/
def lbaToChs (lba : Nat) : Option Chs :=
  (divByte lba BPB_SecPerTrk).bind fun q =>
    (divByte q.1 BPB_NumHeads).map fun r => ⟨r.1, r.2, q.2 + 1⟩

/-- `Func_ReadSector`, with the linear address of the buffer: memory, and the registers it leaves. -/
def funcReadSector (disk mem : Buffer) (lba num addr : Nat) : Option (Buffer × Chs) :=
  (lbaToChs lba).bind fun p =>
    (int13 disk num p).map fun data => (overlay mem addr (num * BPB_BytesPerSec) data, p)

/-- `Func_Get_FAT_Entry`, with the place of the byte `Odd`: memory, and the entry. -/
def funcGetFATEntry (disk mem : Buffer) (odd ax : Nat) : Option (Buffer × Nat) :=
  let mem : Buffer := Function.update mem odd 0
  -- div bx
  if ax * 3 / 2 < 65536 then
    let mem : Buffer := if ax * 3 % 2 = 0 then mem else Function.update mem odd 1
    let q := ax * 3 / 2 / BPB_BytesPerSec
    let rest := ax * 3 / 2 % BPB_BytesPerSec
    (funcReadSector disk mem (q + FirstFATSecNum) 2 0x8000).map fun r =>
      let w := getLE r.1 (0x8000 + rest) 2
      (r.1, (if r.1 odd = (1 : UInt8) then w >>> 4 else w) &&& 0x0fff)
  else none

/-! ## Sectors -/

section

variable {disk mem : Buffer} {lba num addr odd : Nat}

/-- The track and the place on it stand for the sector. -/
theorem lbaToChs_eq (h : lba < SECTORS) :
    lbaToChs lba = some ⟨lba / 36, lba / 18 % 2, lba % 18 + 1⟩ := by
  unfold SECTORS at h
  have h1 : divByte lba BPB_SecPerTrk = some (lba / 18, lba % 18) :=
    if_pos (show lba / 18 < 256 by omega)
  have h2 : divByte (lba / 18) BPB_NumHeads = some (lba / 18 / 2, lba / 18 % 2) :=
    if_pos (show lba / 18 / 2 < 256 by omega)
  rw [lbaToChs, h1, Option.bind_some, h2, Nat.div_div_eq_div_mul]
  rfl

/-- **`Func_ReadSector` reads the sectors that are asked for**, if they are on the disk and on one track,
and does not come back otherwise. -/
theorem funcReadSector_eq : funcReadSector disk mem lba num addr =
    if lba < SECTORS ∧ lba % 18 + num ≤ 18 then
      some (overlay mem addr (num * BPB_BytesPerSec) (sectorBytes disk lba),
        ⟨lba / 36, lba / 18 % 2, lba % 18 + 1⟩)
    else none := by
  by_cases hlt : lba < SECTORS
  · rw [funcReadSector, lbaToChs_eq hlt, Option.bind_some]
    unfold SECTORS at hlt
    by_cases htrack : lba % 18 + num ≤ 18
    · have hon : lba / 36 < CYLINDERS ∧ lba / 18 % 2 < BPB_NumHeads ∧ 1 ≤ lba % 18 + 1 ∧
          lba % 18 + 1 - 1 + num ≤ BPB_SecPerTrk := by
        unfold CYLINDERS BPB_NumHeads BPB_SecPerTrk
        omega
      have hlba : (lba / 36 * BPB_NumHeads + lba / 18 % 2) * BPB_SecPerTrk + (lba % 18 + 1 - 1) = lba := by
        unfold BPB_NumHeads BPB_SecPerTrk
        omega
      rw [int13, if_pos hon, hlba, if_pos ⟨hlt, htrack⟩]
      rfl
    · rw [int13, if_neg, if_neg (fun h => htrack h.2)]
      · rfl
      · intro h
        have := h.2.2.2
        unfold BPB_SecPerTrk at this
        dsimp only at this
        omega
  · rw [if_neg (fun h => hlt h.1), funcReadSector, lbaToChs, divByte]
    unfold SECTORS at hlt
    by_cases hq : lba / BPB_SecPerTrk < 256
    · rw [if_pos hq, Option.bind_some, divByte]
      unfold BPB_SecPerTrk at hq ⊢
      dsimp only
      rw [if_pos (by unfold BPB_NumHeads; omega), Option.map_some, Option.bind_some, int13, if_neg]
      · rfl
      · intro h
        have := h.1
        unfold CYLINDERS BPB_NumHeads at this
        dsimp only at this
        omega
    · rw [if_neg hq]
      rfl

/-! ## The table -/

/-- The entry of a cluster in the first table of a disk. -/
def fatEntry (disk : Buffer) (c : Nat) : Nat := entry12 (sectorBytes disk FirstFATSecNum) c

/-- What `Func_Get_FAT_Entry` leaves in `Odd`. -/
def oddFlag (c : Nat) : UInt8 := if c % 2 = 1 then 1 else 0

theorem oddFlag_eq_one {c : Nat} : oddFlag c = 1 ↔ c % 2 = 1 := by
  unfold oddFlag
  split_ifs with h
  · exact iff_of_true rfl h
  · exact iff_of_false (by decide) h

/-- Memory behind `Func_Get_FAT_Entry`: the sector of the entry and the next one, and `Odd`. -/
def fatWindow (disk mem : Buffer) (odd c : Nat) : Buffer :=
  overlay (Function.update mem odd (oddFlag c)) 0x8000 1024 (sectorBytes disk (c * 3 / 2 / 512 + 1))

theorem fatWindow_of_ne {a c : Nat} (ha : ¬ (0x8000 ≤ a ∧ a < 0x8400)) (hne : a ≠ odd) :
    fatWindow disk mem odd c a = mem a := by
  rw [fatWindow, overlay_of_not_mem (by omega), Function.update_of_ne hne]

theorem fatWindow_odd {c : Nat} (hodd : ¬ (0x8000 ≤ odd ∧ odd < 0x8400)) :
    fatWindow disk mem odd c odd = oddFlag c := by
  rw [fatWindow, overlay_of_not_mem (by omega), Function.update_self]

theorem shift_and (w : Nat) (hw : w < 65536) : (w >>> 4) &&& 0x0fff = w / 16 := by
  rw [Nat.shiftRight_eq_div_pow, show (0x0fff : Nat) = 2 ^ 12 - 1 from rfl,
    Nat.and_two_pow_sub_one_eq_mod]
  omega

/-- **`Func_Get_FAT_Entry` reads the entry of a cluster**, also where it lies across two sectors. -/
theorem funcGetFATEntry_eq {c : Nat} (hc : c < 4096) (hodd : ¬ (0x8000 ≤ odd ∧ odd < 0x8400)) :
    funcGetFATEntry disk mem odd c = some (fatWindow disk mem odd c, fatEntry disk c) := by
  have hq : c * 3 / 2 / 512 + 1 < SECTORS ∧ (c * 3 / 2 / 512 + 1) % 18 + 2 ≤ 18 := by
    have hle : c * 3 / 2 / 512 ≤ 11 := by omega
    unfold SECTORS
    omega
  have hget : getLE (fatWindow disk mem odd c) (0x8000 + c * 3 / 2 % 512) 2
      = getLE (sectorBytes disk FirstFATSecNum) (c * 3 / 2) 2 := by
    apply getLE_congr
    intro j hj
    have hin : fatWindow disk mem odd c (0x8000 + c * 3 / 2 % 512 + j)
        = sectorBytes disk (c * 3 / 2 / 512 + 1) (0x8000 + c * 3 / 2 % 512 + j - 0x8000) :=
      overlay_of_mem (by omega) (by omega)
    have haddr : (c * 3 / 2 / 512 + 1) * BPB_BytesPerSec + (0x8000 + c * 3 / 2 % 512 + j - 0x8000)
        = FirstFATSecNum * BPB_BytesPerSec + (c * 3 / 2 + j) := by
      unfold BPB_BytesPerSec FirstFATSecNum
      omega
    rw [hin, sectorBytes, sectorBytes, haddr]
  have hlt : getLE (sectorBytes disk FirstFATSecNum) (c * 3 / 2) 2 < 256 ^ 2 := getLE_lt _ _
  -- the flag is stored twice, the second time only for an odd product
  have hflag : (if c * 3 % 2 = 0 then Function.update mem odd 0
      else Function.update (Function.update mem odd 0) odd 1) = Function.update mem odd (oddFlag c) := by
    unfold oddFlag
    by_cases hpar : c % 2 = 1
    · rw [if_neg (by omega), if_pos hpar, Function.update_idem]
    · rw [if_pos (by omega), if_neg hpar]
  unfold funcGetFATEntry
  rw [if_pos (by omega), hflag, BPB_BytesPerSec, FirstFATSecNum]
  dsimp only
  rw [funcReadSector_eq, if_pos hq, Option.map_some]
  dsimp only
  refine congrArg some (Prod.ext rfl ?_)
  have hwin : overlay (Function.update mem odd (oddFlag c)) 0x8000 (2 * BPB_BytesPerSec)
      (sectorBytes disk (c * 3 / 2 / 512 + 1)) = fatWindow disk mem odd c := rfl
  have hone : fatWindow disk mem odd c odd = 1 ↔ c % 2 = 1 := by
    rw [fatWindow_odd hodd, oddFlag_eq_one]
  rw [hwin, hget, fatEntry, entry12]
  by_cases hpar : c % 2 = 1
  · rw [if_pos (hone.mpr hpar), if_pos hpar]
    exact shift_and _ hlt
  · rw [if_neg (fun h => hpar (hone.mp h)), if_neg hpar]
    exact Nat.and_two_pow_sub_one_eq_mod _ 12

/-- A cluster is on the disk; or the sum of 16 bits is no sector, or its entry has no place. -/
theorem cluster_cases (disk : Buffer) (odd c : Nat) :
    (c + 31 < SECTORS ∧ c < 4096 ∧ (c + 31) % 65536 = c + 31) ∨
    (¬ c + 31 < SECTORS ∧
      (¬ (c + 31) % 65536 < SECTORS ∨ ∀ mem, funcGetFATEntry disk mem odd c = none)) := by
  unfold SECTORS
  by_cases hc : c + 31 < 2880
  · exact .inl ⟨hc, by omega, by omega⟩
  · right
    refine ⟨hc, ?_⟩
    by_cases hlba : (c + 31) % 65536 < 2880
    · right
      have hbig : 65505 ≤ c := by omega
      exact fun mem => if_neg (by omega)
    · exact .inl hlba

/-- **`Func_Get_FAT_Entry` returns what has been packed into the table**. Apart from the stack it writes its
window, and whether the cluster is odd. -/
theorem funcGetFATEntry_packed {es : List Nat} (hes : ∀ e ∈ es, e < 4096)
    (hdisk : ∀ j < (pack12 es).length, disk (512 + j) = (pack12 es).getD j 0) {c e : Nat}
    (hc : c < 4096) (he : es[c]? = some e) (hodd : ¬ (0x8000 ≤ odd ∧ odd < 0x8400)) :
    ∃ mem', funcGetFATEntry disk mem odd c = some (mem', e) ∧ mem' odd = oddFlag c ∧
      ∀ a, Ram a → a ≠ odd → ¬ (0x8000 ≤ a ∧ a < 0x8400) → mem' a = mem a := by
  have hentry : fatEntry disk c = e := entry12_pack12 hes (fun j hj => hdisk j hj) he
  refine ⟨fatWindow disk mem odd c, ?_, fatWindow_odd hodd, fun a _ hne ha => fatWindow_of_ne ha hne⟩
  rw [funcGetFATEntry_eq hc hodd, hentry]

end

/-- A table with files of one and of two clusters. -/
def fatDisk : Buffer := fun a => (pack12 [0xff0, 0xfff, 0xfff, 4, 0xfff]).getD (a - 512) 0

theorem funcGetFATEntry_packed_fatDisk : ∃ mem',
    funcGetFATEntry fatDisk (fun _ => 0) 0x7c6c 3 = some (mem', 4) ∧ mem' 0x7c6c = 1 ∧
    ∀ a, Ram a → a ≠ 0x7c6c → ¬ (0x8000 ≤ a ∧ a < 0x8400) → mem' a = 0 :=
  funcGetFATEntry_packed (by decide : ∀ e ∈ [0xff0, 0xfff, 0xfff, 4, 0xfff], e < 4096) (by decide)
    (by decide) rfl (by decide)

end Talios.Boot
