import Talios.Fs.Fat32Chain

set_option autoImplicit false

/-! # The position of an open file

`fat32_lseek` and `sys_lseek`, and what `sys_read`, `sys_write` and `sys_lseek` do with the position.
A position and a file size are the numbers that the 64 bits stand for without sign. `fat32_lseek`
computes in them and returns an `int`, so that `sys_lseek` reports a position from `2 ^ 31` on as a
negative value (`sysLseek_reports`).
-/

namespace Talios

open Bytes Word

def SEEK_SET : Int := 0
def SEEK_CUR : Int := 1
def SEEK_END : Int := 2
def SEEK_MAX : Int := 3
def MAX_HANDLE_PER_TASK : Nat := 20

/-! ## Seeking -/

/-- `file`, with the `index_node` of its dentry. -/
structure OpenFile where
  inode : Inode
  position : Nat

/-- `pos` in `fat32_lseek`; none for an unknown origin. -/
def seekPos (f : OpenFile) (offset origin : Int) : Option Nat :=
  if origin = SEEK_SET then some (ulong offset)
  else if origin = SEEK_CUR then some (add64 f.position (ulong offset))
  else if origin = SEEK_END then some (add64 f.inode.fileSize (ulong offset))
  else none

/-- `fat32_lseek`. The comparison `pos < 0` is one of numbers without sign. -/
def fat32Lseek (f : OpenFile) (offset origin : Int) : Int × OpenFile :=
  match seekPos f offset origin with
  | none => (-(EINVAL : Int), f)
  | some pos =>
      if f.inode.fileSize < pos ∨ pos < 0 then (-(EOVERFLOW : Int), f)
      else (toInt pos, { f with position := pos })

/-- `sys_lseek` of a file on the volume; `none` where the code reads through a null handle. -/
def sysLseek (handleArray : List (Option OpenFile)) (fd offset whence : Int) :
    Option (Int × List (Option OpenFile)) :=
  if fd < 0 ∨ (MAX_HANDLE_PER_TASK : Int) ≤ fd then some (-(EBADF : Int), handleArray)
  else if whence < 0 ∨ SEEK_MAX ≤ whence then some (-(EINVAL : Int), handleArray)
  else
    match handleArray[fd.toNat]? with
    | some (some f) =>
        let r := fat32Lseek f offset whence
        some (r.1, handleArray.set fd.toNat (some r.2))
    | _ => none

/-- The number that a `long` with these 64 bits stands for. -/
def long (a : Nat) : Int := (a : Int).bmod (2 ^ 64)

/-- Where a call is to go: the base of its origin plus the offset. -/
def seekTarget (f : OpenFile) (offset whence : Int) : Option Int :=
  if whence = SEEK_SET then some offset
  else if whence = SEEK_CUR then some (long f.position + offset)
  else if whence = SEEK_END then some (f.inode.fileSize + offset)
  else none

/-- The target lies in the file. -/
def SeekInFile (f : OpenFile) (offset whence t : Int) : Prop :=
  seekTarget f offset whence = some t ∧ 0 ≤ t ∧ t ≤ f.inode.fileSize

/-- A call on handle `fd` says where it went: the value is the target, and the file is there; or it
is a negative error and the target does not lie in the file, and nothing has changed. -/
def SeekReported (handleArray : List (Option OpenFile)) (fd : Nat) (f : OpenFile)
    (offset whence : Int) : Option (Int × List (Option OpenFile)) → Prop
  | none => False
  | some (ret, handleArray') =>
      (∃ t : Int, SeekInFile f offset whence t ∧ ret = t ∧
        handleArray' = handleArray.set fd (some { f with position := t.toNat })) ∨
      ((∀ t, ¬ SeekInFile f offset whence t) ∧ ret < 0 ∧ handleArray' = handleArray)

section

variable {f : OpenFile} {offset whence : Int}

theorem long_congr (a : Nat) : long a % 2 ^ 64 = (a : Int) % 2 ^ 64 :=
  Int.bmod_emod

theorem long_bounds (a : Nat) : -2 ^ 63 ≤ long a ∧ long a < 2 ^ 63 := by
  have h1 := Int.le_bmod (x := (a : Int)) (m := 2 ^ 64) (by decide)
  have h2 := Int.bmod_lt (x := (a : Int)) (m := 2 ^ 64) (by decide)
  unfold long
  omega

theorem ulong_cast (a : Int) : (ulong a : Int) = a % 2 ^ 64 := by
  unfold ulong
  omega

theorem add64_cast (a : Nat) (b : Int) : (add64 a (ulong b) : Int) = (a + b) % 2 ^ 64 := by
  unfold add64 ulong
  omega

/-- The position that is computed is the target, up to a multiple of `2 ^ 64`. -/
theorem seekPos_target (f : OpenFile) (offset whence : Int) :
    (seekPos f offset whence).map (fun pos : Nat => (pos : Int))
      = (seekTarget f offset whence).map (· % 2 ^ 64) := by
  have hl := long_congr f.position
  have hcur : ((f.position : Int) + offset) % 2 ^ 64 = (long f.position + offset) % 2 ^ 64 := by
    omega
  unfold seekPos seekTarget
  by_cases h0 : whence = SEEK_SET
  · rw [if_pos h0, if_pos h0, Option.map_some, Option.map_some, ulong_cast]
  rw [if_neg h0, if_neg h0]
  by_cases h1 : whence = SEEK_CUR
  · rw [if_pos h1, if_pos h1, Option.map_some, Option.map_some, add64_cast, hcur]
  rw [if_neg h1, if_neg h1]
  by_cases h2 : whence = SEEK_END
  · rw [if_pos h2, if_pos h2, Option.map_some, Option.map_some, add64_cast]
  · rw [if_neg h2, if_neg h2, Option.map_none, Option.map_none]

/-- The target is the sum of two values of type `long`. -/
theorem seekTarget_bounds (ho : -2 ^ 63 ≤ offset ∧ offset < 2 ^ 63)
    (hs : f.inode.fileSize < 2 ^ 32) {t : Int} (ht : seekTarget f offset whence = some t) :
    -2 ^ 64 ≤ t ∧ t < 2 ^ 64 := by
  have hl := long_bounds f.position
  unfold seekTarget at ht
  by_cases h0 : whence = SEEK_SET
  · rw [if_pos h0] at ht
    have := Option.some.inj ht
    omega
  rw [if_neg h0] at ht
  by_cases h1 : whence = SEEK_CUR
  · rw [if_pos h1] at ht
    have := Option.some.inj ht
    omega
  rw [if_neg h1] at ht
  by_cases h2 : whence = SEEK_END
  · rw [if_pos h2] at ht
    have := Option.some.inj ht
    omega
  · rw [if_neg h2] at ht
    cases ht

/-- An origin that `sys_lseek` lets through has a target. -/
theorem seekTarget_isSome (f : OpenFile) (offset : Int)
    (h : ¬ (whence < 0 ∨ SEEK_MAX ≤ whence)) :
    ∃ t, seekTarget f offset whence = some t := by
  have hcases : whence = SEEK_SET ∨ whence = SEEK_CUR ∨ whence = SEEK_END := by
    unfold SEEK_MAX at h
    unfold SEEK_SET SEEK_CUR SEEK_END
    omega
  rcases hcases with rfl | rfl | rfl
  · exact ⟨_, rfl⟩
  · exact ⟨_, rfl⟩
  · exact ⟨_, rfl⟩

/-- An origin that it does not let through has none. -/
theorem seekTarget_none (h : whence < 0 ∨ SEEK_MAX ≤ whence) :
    seekTarget f offset whence = none := by
  unfold SEEK_MAX at h
  unfold seekTarget SEEK_SET SEEK_CUR SEEK_END
  rw [if_neg (by omega), if_neg (by omega), if_neg (by omega)]

/-- What `fat32_lseek` does for a target: it is accepted where its 64 bits stand for a number up to the
file size. -/
theorem fat32Lseek_eq {t : Int} (ht : seekTarget f offset whence = some t) :
    fat32Lseek f offset whence
      = if t % 2 ^ 64 ≤ f.inode.fileSize
        then (toInt (t % 2 ^ 64).toNat, { f with position := (t % 2 ^ 64).toNat })
        else (-(EOVERFLOW : Int), f) := by
  have hmap := seekPos_target f offset whence
  rw [ht, Option.map_some] at hmap
  rcases Option.map_eq_some_iff.mp hmap with ⟨pos, hpos, hcast⟩
  have hnat : (t % 2 ^ 64).toNat = pos := by omega
  unfold fat32Lseek
  rw [hpos, hnat, ← hcast]
  dsimp only
  by_cases hle : pos ≤ f.inode.fileSize
  · rw [if_neg (by omega), if_pos (by omega)]
  · rw [if_pos (by omega), if_neg (by omega)]

/-- The condition: the target is not a position in the file that an `int` does not hold, nor is it so
far below zero that its 64 bits stand for a position in the file. -/
def SeekRepresentable (f : OpenFile) (offset whence : Int) : Prop :=
  ∀ t, seekTarget f offset whence = some t →
    ¬ (2 ^ 31 ≤ t ∧ t ≤ f.inode.fileSize) ∧ ¬ t + 2 ^ 64 ≤ f.inode.fileSize

theorem toInt_eq {n : Nat} (h : n < 2 ^ 31) : toInt n = n := Int.bmod_eq_of_le (by omega) (by omega)

/-- A position that an `int` does not hold becomes negative. -/
theorem toInt_neg {n : Nat} (h1 : 2 ^ 31 ≤ n) (h2 : n < 2 ^ 32) : toInt n < 0 := by
  unfold toInt
  rw [Int.bmod_def]
  have hmod : (n : Int) % ((2 ^ 32 : Nat) : Int) = n := Int.emod_eq_of_lt (by omega) (by omega)
  rw [hmod, if_neg (by omega)]
  omega

/-- Where the target is that far below zero, the file was not at the position that is computed. -/
theorem position_ne_of_wrapped (ho : -2 ^ 63 ≤ offset ∧ offset < 2 ^ 63)
    (hs : f.inode.fileSize < 2 ^ 32) {t : Int} (ht : seekTarget f offset whence = some t)
    (hw : t + 2 ^ 64 ≤ f.inode.fileSize) (h0 : 0 ≤ t + 2 ^ 64) :
    (f.position : Int) ≠ t + 2 ^ 64 := by
  intro hp
  have hlong : long f.position = f.position := Int.bmod_eq_of_le (by omega) (by omega)
  unfold seekTarget at ht
  by_cases hset : whence = SEEK_SET
  · rw [if_pos hset] at ht
    have := Option.some.inj ht
    omega
  rw [if_neg hset] at ht
  by_cases hcur : whence = SEEK_CUR
  · rw [if_pos hcur, hlong] at ht
    have := Option.some.inj ht
    omega
  rw [if_neg hcur] at ht
  by_cases hend : whence = SEEK_END
  · rw [if_pos hend] at ht
    have := Option.some.inj ht
    omega
  · rw [if_neg hend] at ht
    cases ht

end

section

variable {handleArray : List (Option OpenFile)} {fd : Nat} {f : OpenFile} {offset whence : Int}

theorem sysLseek_eq (hfd : fd < MAX_HANDLE_PER_TASK) (hf : handleArray[fd]? = some (some f))
    (hw : ¬ (whence < 0 ∨ SEEK_MAX ≤ whence)) :
    sysLseek handleArray fd offset whence = some ((fat32Lseek f offset whence).1,
      handleArray.set fd (some (fat32Lseek f offset whence).2)) := by
  unfold sysLseek
  rw [if_neg (by omega), if_neg hw, Int.toNat_natCast, hf]

/-- Writing the handle back as it was. -/
theorem set_handle (hf : handleArray[fd]? = some (some f)) :
    handleArray.set fd (some f) = handleArray := by
  rcases List.getElem?_eq_some_iff.mp hf with ⟨hlt, hget⟩
  rw [← hget]
  exact List.set_getElem_self hlt

/-- A handle that is written back as it was held the same file. -/
theorem eq_of_set_handle {f' : OpenFile} (hf : handleArray[fd]? = some (some f))
    (h : handleArray.set fd (some f') = handleArray) : f' = f := by
  rcases List.getElem?_eq_some_iff.mp hf with ⟨hlt, -⟩
  have hget : (handleArray.set fd (some f'))[fd]? = some (some f') :=
    List.getElem?_set_self hlt
  rw [h, hf] at hget
  exact (Option.some.inj (Option.some.inj hget)).symm

/-- **`sys_lseek` reports where it went** exactly under `SeekRepresentable`. -/
theorem sysLseek_reports (hfd : fd < MAX_HANDLE_PER_TASK) (hf : handleArray[fd]? = some (some f))
    (hs : f.inode.fileSize < 2 ^ 32) (ho : -2 ^ 63 ≤ offset ∧ offset < 2 ^ 63) :
    SeekReported handleArray fd f offset whence (sysLseek handleArray fd offset whence) ↔
      SeekRepresentable f offset whence := by
  by_cases hw : whence < 0 ∨ SEEK_MAX ≤ whence
  · -- the origin is refused
    have hnone : seekTarget f offset whence = none := seekTarget_none hw
    have hcall : sysLseek handleArray fd offset whence
        = some (-(EINVAL : Int), handleArray) := by
      unfold sysLseek
      rw [if_neg (by omega), if_pos hw]
    rw [hcall]
    refine iff_of_true (Or.inr ⟨fun t ht => ?_, by decide, rfl⟩) (fun t ht => ?_)
    · rw [SeekInFile, hnone] at ht
      cases ht.1
    · rw [hnone] at ht
      cases ht
  rcases seekTarget_isSome f offset hw with ⟨t, ht⟩
  have hb := seekTarget_bounds ho hs ht
  have huniq : ∀ t', seekTarget f offset whence = some t' → t' = t :=
    fun t' ht' => Option.some.inj (ht'.symm.trans ht)
  rw [sysLseek_eq hfd hf hw, fat32Lseek_eq ht]
  by_cases hacc : t % 2 ^ 64 ≤ f.inode.fileSize
  · rw [if_pos hacc]
    by_cases h0 : 0 ≤ t
    · have hmod : t % 2 ^ 64 = t := by omega
      rw [hmod] at hacc ⊢
      by_cases h31 : t < 2 ^ 31
      · -- the file goes where it was to go
        refine iff_of_true (Or.inl ⟨t, ⟨ht, h0, hacc⟩, ?_, rfl⟩) (fun t' ht' => ?_)
        · rw [toInt_eq (by omega)]
          omega
        · rw [huniq t' ht']
          omega
      · -- it goes there, and the value is negative
        have hneg : toInt t.toNat < 0 := toInt_neg (by omega) (by omega)
        refine iff_of_false (fun h => ?_) (fun h => (h t ht).1 ⟨by omega, hacc⟩)
        rcases h with ⟨t', ht', hret, -⟩ | ⟨hno, -⟩
        · have := ht'.2.1
          omega
        · exact hno t ⟨ht, h0, hacc⟩
    · -- the sum has wrapped around
      have hmod : t % 2 ^ 64 = t + 2 ^ 64 := by omega
      rw [hmod] at hacc ⊢
      refine iff_of_false (fun h => ?_) (fun h => (h t ht).2 hacc)
      rcases h with ⟨t', ht', -, -⟩ | ⟨-, -, hsame⟩
      · have := huniq t' ht'.1
        have := ht'.2.1
        omega
      · have hpos := congrArg OpenFile.position (eq_of_set_handle hf hsame)
        dsimp only at hpos
        have := position_ne_of_wrapped ho hs ht hacc (by omega)
        omega
  · -- the target is refused
    rw [if_neg hacc]
    have hneg : -(EOVERFLOW : Int) < 0 := by decide
    refine iff_of_true (Or.inr ⟨fun t' ht' => ?_, hneg, set_handle hf⟩) (fun t' ht' => ?_)
    · have := huniq t' ht'.1
      have := ht'.2
      omega
    · rw [huniq t' ht']
      omega

end

/-- To the middle of a file of 100 bytes. -/
theorem sysLseek_reports_example :
    SeekReported [some ⟨exampleInode, 0⟩] 0 ⟨exampleInode, 0⟩ 50 SEEK_SET
      (sysLseek [some ⟨exampleInode, 0⟩] (0 : Nat) 50 SEEK_SET) := by
  refine (sysLseek_reports (by decide) rfl (by decide) (by decide)).mpr (fun t ht => ?_)
  have ht : 50 = t := Option.some.inj ht
  have hs : ((⟨exampleInode, 0⟩ : OpenFile).inode.fileSize : Int) = 100 := rfl
  omega

/-- A file of `2 ^ 31` bytes. -/
def largeFile : OpenFile := ⟨{ exampleInode with fileSize := 2 ^ 31 }, 0⟩

/-- To its end: the position is set, and the value is negative. -/
theorem sysLseek_not_reports : ¬ ∀ (handleArray : List (Option OpenFile)) (fd : Nat) (f : OpenFile)
    (offset whence : Int), fd < MAX_HANDLE_PER_TASK → handleArray[fd]? = some (some f) →
    f.inode.fileSize < 2 ^ 32 → -2 ^ 63 ≤ offset ∧ offset < 2 ^ 63 →
    SeekReported handleArray fd f offset whence (sysLseek handleArray fd offset whence) := by
  intro hall
  have h := hall [some largeFile] 0 largeFile 0 SEEK_END (by decide) rfl (by decide) (by decide)
  have ht : seekTarget largeFile 0 SEEK_END = some (2 ^ 31) := by decide
  have hin : SeekInFile largeFile 0 SEEK_END (2 ^ 31) := ⟨ht, by decide, by decide⟩
  have hneg : toInt ((2 ^ 31 % 2 ^ 64 : Int).toNat) < 0 := toInt_neg (by decide) (by decide)
  rw [sysLseek_eq (f := largeFile) (by decide) rfl (by decide), fat32Lseek_eq ht,
    if_pos (by decide)] at h
  rcases h with ⟨t, ht, hret, -⟩ | ⟨hno, -⟩
  · have := ht.2.1
    dsimp only at hret
    omega
  · exact hno _ hin

/-! ## The bytes that a read copies -/

section

variable {sb : SbInfo} {disk : Buffer} {buf : Nat}

/-- **A read stays in the file** where the position is in it and `position + count` does not wrap
around: it copies no more than there is, and the position stays in the file. -/
theorem fat32Read_within {inode : Inode} {count position : Nat} (mem : Buffer)
    (hp : position ≤ inode.fileSize) (hs : inode.fileSize < 2 ^ 64)
    (hw : position + count < 2 ^ 64) :
    areaBytes (fat32Read sb disk inode mem buf count position).2.areas
      ≤ inode.fileSize - position ∧
    (fat32Read sb disk inode mem buf count position).2.position ≤ inode.fileSize := by
  have hrem : readRemainder inode count position ≤ inode.fileSize - position := by
    unfold readRemainder
    rw [add64_eq hw]
    split
    · rw [sub64_eq hp hs]
    · omega
  have hloop := @readOnward_loop sb disk buf
    (readRemainder inode count position + 1) ⟨startCluster sb inode position,
      readRemainder inode count position, 0, position % sb.bytePerClus, mem, []⟩
  have hsum := hloop.sum
  have hbytes := hloop.bytes
  dsimp only at hsum hbytes
  have hnil : areaBytes [] = 0 := rfl
  constructor
  · show areaBytes (fat32ReadLoop sb disk buf _ _).areas ≤ _
    omega
  · show add64 position (fat32ReadLoop sb disk buf _ _).index ≤ _
    rw [add64_eq (by omega)]
    omega

/-- After a write the position is in the file, and the file has not become shorter. -/
theorem fat32Write_within (inode : Inode) (mem : Buffer) (count : Nat) {position : Nat}
    (hp : position ≤ inode.fileSize) (hs : inode.fileSize < 2 ^ 64) :
    inode.fileSize ≤ (fat32Write sb disk inode mem buf count position).1.inode.fileSize ∧
    (fat32Write sb disk inode mem buf count position).1.inode.fileSize < 2 ^ 64 ∧
    (fat32Write sb disk inode mem buf count position).2.position
      ≤ (fat32Write sb disk inode mem buf count position).1.inode.fileSize := by
  have hat : ∀ (d : Buffer) (i : Inode) (clus : Nat), i.fileSize = inode.fileSize →
      inode.fileSize ≤ (fat32WriteAt sb d i mem buf count position clus).1.inode.fileSize ∧
      (fat32WriteAt sb d i mem buf count position clus).1.inode.fileSize < 2 ^ 64 ∧
      (fat32WriteAt sb d i mem buf count position clus).2.position
        ≤ (fat32WriteAt sb d i mem buf count position clus).1.inode.fileSize := by
    intro d i clus hi
    unfold fat32WriteAt
    dsimp only
    split
    · rename_i hlt
      exact ⟨by dsimp only; omega, Nat.mod_lt _ (by decide), le_rfl⟩
    · rename_i hlt
      exact ⟨by dsimp only; omega, by dsimp only; omega, by dsimp only; omega⟩
  unfold fat32Write
  dsimp only
  split
  · split
    · exact ⟨le_rfl, hs, hp⟩
    · exact hat _ _ _ rfl
  · exact hat _ _ _ rfl

end

/-- `fat32_lseek` accepts a position in the file, or leaves the position as it was. -/
theorem fat32Lseek_position_le {f : OpenFile} (h : f.position ≤ f.inode.fileSize)
    (offset origin : Int) : (fat32Lseek f offset origin).2.position ≤ f.inode.fileSize := by
  unfold fat32Lseek
  split
  · exact h
  · split
    · exact h
    · dsimp only
      omega

end Talios
