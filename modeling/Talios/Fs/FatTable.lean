import Talios.Fs.Fat32Chain

set_option autoImplicit false

/-! # The table of a volume

`fat32_table_read` and `fat32_table_write` split an index into a sector and a slot of it. This is done
here for sectors of any size; with the sectors of the disk these are the functions of the model
(`fat32TableRead_eq`, `fat32TableWrite_eq`). The search for a free cluster is another loop over the
table, and never finds one.
-/

namespace Talios

open Bytes Word

/-! ## Sectors of any size -/

/-- The fields of `FAT32_sb_info` that describe the table, with the ranges of their types: a sector
has at least one slot. -/
structure TableInfo where
  bytePerSec : Nat
  secPerFat : Nat
  fat1StartSector : Nat
  bytePerSec_ge : 4 ≤ bytePerSec
  bytePerSec_lt : bytePerSec < 2 ^ 16
  secPerFat_lt : secPerFat < 2 ^ 32
  fat1StartSector_lt : fat1StartSector < 2 ^ 32

/-- `ide_transfer` with `ATA_READ_CMD`, of one sector. -/
def readSector (v : TableInfo) (disk : Buffer) (lba : Nat) (buffer : Buffer) : Buffer :=
  overlay buffer 0 v.bytePerSec (fun b => disk (lba * v.bytePerSec + b))

/-- `ide_transfer` with `ATA_WRITE_CMD`, of one sector. -/
def writeSector (v : TableInfo) (disk : Buffer) (lba : Nat) (buffer : Buffer) : Buffer :=
  overlay disk (lba * v.bytePerSec) v.bytePerSec buffer

/-- `fsb->byte_per_sec >> 2`. -/
def TableInfo.slots (v : TableInfo) : Nat := v.bytePerSec / 4

/-- `sec_index`; the index is an `unsigned int`. -/
def TableInfo.secIndex (v : TableInfo) (index : Nat) : Nat := index % 2 ^ 32 / v.slots

/-- `sec_offset`, in bytes. -/
def TableInfo.secOffset (v : TableInfo) (index : Nat) : Nat := index % 2 ^ 32 % v.slots * 4

/-- `fat32_table_read`. -/
def TableInfo.fat32TableRead (v : TableInfo) (disk : Buffer) (index : Nat) : Nat :=
  let fatSlace := readSector v disk (v.fat1StartSector + v.secIndex index) newBuffer
  let entry := getLE fatSlace (v.secOffset index) 4
  if entry < 0xffffff7 then entry else 0

/-- `fat32_table_write`. -/
def TableInfo.fat32TableWrite (v : TableInfo) (disk : Buffer) (index content : Nat) : Buffer :=
  let fatSlace := putLE (readSector v disk (v.fat1StartSector + v.secIndex index) newBuffer)
    (v.secOffset index) 4 content
  writeSector v (writeSector v disk (v.fat1StartSector + v.secIndex index) fatSlace)
    (v.fat1StartSector + v.secPerFat + v.secIndex index) fatSlace

/-- The table of a volume whose sectors are those of the disk. -/
def SbInfo.table (sb : SbInfo) : TableInfo where
  bytePerSec := sb.bytePerSec
  secPerFat := sb.secPerFat
  fat1StartSector := sb.fat1StartSector
  bytePerSec_ge := by rw [sb.bytePerSec_eq]; decide
  bytePerSec_lt := by rw [sb.bytePerSec_eq]; decide
  secPerFat_lt := by
    have hfst := sb.fstDataSector_eq
    have hlt := sb.fstDataSector_lt
    have hnum : sb.secPerFat ≤ sb.fatNum * sb.secPerFat :=
      Nat.le_mul_of_pos_left _ sb.fatNum_pos
    omega
  fat1StartSector_lt := by
    have hfst := sb.fstDataSector_eq
    have hlt := sb.fstDataSector_lt
    omega

theorem fat32TableRead_eq (sb : SbInfo) (disk : Buffer) (index : Nat) :
    fat32TableRead sb disk index = sb.table.fat32TableRead disk index := by
  have hb : sb.bytePerSec = 1 * BYTE_PER_VSEC := by rw [sb.bytePerSec_eq, Nat.one_mul]
  have hread : ∀ lba, readSector sb.table disk lba newBuffer = ideRead disk lba 1 newBuffer := by
    intro lba
    show overlay newBuffer 0 sb.bytePerSec (fun b => disk (lba * sb.bytePerSec + b)) = _
    rw [hb, Nat.one_mul]
    rfl
  unfold fat32TableRead TableInfo.fat32TableRead
  rw [hread]
  rfl

theorem fat32TableWrite_eq (sb : SbInfo) (disk : Buffer) (index content : Nat) :
    fat32TableWrite sb disk index content = sb.table.fat32TableWrite disk index content := by
  have hb : sb.bytePerSec = 1 * BYTE_PER_VSEC := by rw [sb.bytePerSec_eq, Nat.one_mul]
  have hread : ∀ d lba, readSector sb.table d lba newBuffer = ideRead d lba 1 newBuffer := by
    intro d lba
    show overlay newBuffer 0 sb.bytePerSec (fun b => d (lba * sb.bytePerSec + b)) = _
    rw [hb, Nat.one_mul]
    rfl
  have hwrite : ∀ d lba b, writeSector sb.table d lba b = ideWrite d lba 1 b := by
    intro d lba b
    show overlay d (lba * sb.bytePerSec) sb.bytePerSec b = _
    rw [hb, Nat.one_mul]
    rfl
  unfold fat32TableWrite TableInfo.fat32TableWrite
  rw [hread, hwrite, hwrite]
  rfl

/-! ## The laws -/

/-- The index is one of the table. -/
structure TableInfo.Within (v : TableInfo) (index : Nat) : Prop where
  lt : index < 2 ^ 32
  entries : index < v.secPerFat * v.slots

/-- The two copies of the table agree. -/
def TableInfo.CopiesAgree (v : TableInfo) (disk : Buffer) : Prop :=
  ∀ s < v.secPerFat, ∀ b < v.bytePerSec,
    disk ((v.fat1StartSector + v.secPerFat + s) * v.bytePerSec + b)
      = disk ((v.fat1StartSector + s) * v.bytePerSec + b)

section

variable {v : TableInfo} {disk : Buffer} {i j content : Nat}

theorem TableInfo.slots_pos (v : TableInfo) : 0 < v.slots :=
  Nat.div_pos v.bytePerSec_ge (by decide)

theorem TableInfo.Within.secIndex_lt (h : v.Within i) : v.secIndex i < v.secPerFat := by
  unfold secIndex
  rw [Nat.mod_eq_of_lt h.lt]
  exact Nat.div_lt_of_lt_mul (by rw [Nat.mul_comm]; exact h.entries)

/-- A slot lies in its sector. -/
theorem TableInfo.secOffset_lt (v : TableInfo) (i : Nat) : v.secOffset i + 4 ≤ v.bytePerSec := by
  have hmod := Nat.mod_lt (i % 2 ^ 32) v.slots_pos
  have hmul : v.slots * 4 ≤ v.bytePerSec := Nat.div_mul_le_self _ _
  unfold secOffset
  omega

/-- Sector and slot give the index. -/
theorem TableInfo.Within.eq_of_split (hi : v.Within i) (hj : v.Within j)
    (hsec : v.secIndex i = v.secIndex j) (hoff : v.secOffset i = v.secOffset j) : i = j := by
  unfold secIndex at hsec
  unfold secOffset at hoff
  rw [Nat.mod_eq_of_lt hi.lt, Nat.mod_eq_of_lt hj.lt] at hsec hoff
  calc i = v.slots * (i / v.slots) + i % v.slots := (Nat.div_add_mod _ _).symm
    _ = v.slots * (j / v.slots) + j % v.slots := by rw [hsec, Nat.eq_of_mul_eq_mul_right (by decide) hoff]
    _ = j := Nat.div_add_mod _ _

/-- A byte of a sector, after a sector has been written. -/
theorem writeSector_byte (s lba : Nat) (buffer : Buffer) {b : Nat} (hb : b < v.bytePerSec) :
    writeSector v disk lba buffer (s * v.bytePerSec + b)
      = if s = lba then buffer b else disk (s * v.bytePerSec + b) := by
  unfold writeSector
  split
  · rename_i hs
    rw [hs, overlay_of_mem (by omega) (by omega), Nat.add_sub_cancel_left]
  · rename_i hs
    apply overlay_of_not_mem
    rintro ⟨h1, h2⟩
    apply hs
    -- both sectors hold the byte
    have hpos : 0 < v.bytePerSec := by omega
    have hdiv : (s * v.bytePerSec + b) / v.bytePerSec = s := by
      rw [Nat.mul_comm, Nat.mul_add_div hpos, Nat.div_eq_of_lt hb, Nat.add_zero]
    have hlba : (s * v.bytePerSec + b) / v.bytePerSec = lba := by
      apply Nat.div_eq_of_lt_le
      · exact h1
      · rw [Nat.add_mul, Nat.one_mul]
        exact h2
    exact hdiv.symm.trans hlba

/-- What a write leaves in a sector: the two copies of the sector of the index get the new slice. -/
theorem fat32TableWrite_byte (s : Nat) {b : Nat} (hb : b < v.bytePerSec) :
    v.fat32TableWrite disk i content (s * v.bytePerSec + b)
      = if s = v.fat1StartSector + v.secPerFat + v.secIndex i ∨ s = v.fat1StartSector + v.secIndex i
        then putLE (readSector v disk (v.fat1StartSector + v.secIndex i) newBuffer)
          (v.secOffset i) 4 content b
        else disk (s * v.bytePerSec + b) := by
  unfold TableInfo.fat32TableWrite
  rw [writeSector_byte s _ _ hb, writeSector_byte s _ _ hb]
  by_cases h2 : s = v.fat1StartSector + v.secPerFat + v.secIndex i
  · rw [if_pos h2, if_pos (Or.inl h2)]
  · by_cases h1 : s = v.fat1StartSector + v.secIndex i
    · rw [if_neg h2, if_pos h1, if_pos (Or.inr h1)]
    · rw [if_neg h2, if_neg h1, if_neg (fun h => h.elim h2 h1)]

theorem readSector_byte (lba : Nat) (buffer : Buffer) {b : Nat} (hb : b < v.bytePerSec) :
    readSector v disk lba buffer b = disk (lba * v.bytePerSec + b) := overlay_zero_left hb

/-- The entry that is read behind a write. -/
theorem getLE_write (hi : v.Within i) (hj : v.Within j) :
    getLE (readSector v (v.fat32TableWrite disk i content) (v.fat1StartSector + v.secIndex j)
      newBuffer) (v.secOffset j) 4
      = if j = i then content % 256 ^ 4
        else getLE (readSector v disk (v.fat1StartSector + v.secIndex j) newBuffer)
          (v.secOffset j) 4 := by
  have hlt := hj.secIndex_lt
  have hslot := v.secOffset_lt j
  by_cases hsec : v.secIndex i = v.secIndex j
  · -- the same sector
    have hslice : getLE (readSector v (v.fat32TableWrite disk i content)
        (v.fat1StartSector + v.secIndex j) newBuffer) (v.secOffset j) 4
        = getLE (putLE (readSector v disk (v.fat1StartSector + v.secIndex i) newBuffer)
            (v.secOffset i) 4 content) (v.secOffset j) 4 := by
      apply getLE_congr
      intro k hk
      rw [readSector_byte _ _ (by omega), fat32TableWrite_byte _ (by omega),
        if_pos (Or.inr (by rw [hsec]))]
    rw [hslice]
    by_cases hji : j = i
    · rw [if_pos hji, hji, getLE_putLE]
    · rw [if_neg hji]
      have hoff : v.secOffset j ≠ v.secOffset i :=
        fun h => hji (hj.eq_of_split hi hsec.symm h)
      have hmul : ∀ n, v.secOffset n % 4 = 0 := fun n => Nat.mul_mod_left _ _
      have h1 := hmul i
      have h2 := hmul j
      rw [getLE_putLE_ne (by omega), hsec]
  · -- another sector of the first copy
    have hji : j ≠ i := fun h => hsec (by rw [h])
    rw [if_neg hji]
    apply getLE_congr
    intro k hk
    rw [readSector_byte _ _ (by omega), readSector_byte _ _ (by omega),
      fat32TableWrite_byte _ (by omega), if_neg]
    rintro (h | h)
    · omega
    · exact hsec (by omega)

/-- **The laws of the table**: what is read behind a write, the copies, and the other sectors. -/
theorem fat32Table_laws (v : TableInfo) (disk : Buffer) (i j content : Nat) (hi : v.Within i)
    (hj : v.Within j) (hc : content < 0xffffff7) :
    v.fat32TableRead (v.fat32TableWrite disk i content) j
        = (if j = i then content else v.fat32TableRead disk j) ∧
      (v.CopiesAgree disk → v.CopiesAgree (v.fat32TableWrite disk i content)) ∧
      ∀ s, s ≠ v.fat1StartSector + v.secIndex i →
        s ≠ v.fat1StartSector + v.secPerFat + v.secIndex i → ∀ b < v.bytePerSec,
        v.fat32TableWrite disk i content (s * v.bytePerSec + b) = disk (s * v.bytePerSec + b) := by
  refine ⟨?_, fun hagree s hs b hb => ?_, fun s h1 h2 b hb => ?_⟩
  · unfold TableInfo.fat32TableRead
    dsimp only
    rw [getLE_write hi hj]
    by_cases hji : j = i
    · rw [if_pos hji, if_pos hji, Nat.mod_eq_of_lt (by omega), if_pos hc]
    · rw [if_neg hji, if_neg hji]
  · have hlt := hi.secIndex_lt
    rw [fat32TableWrite_byte _ hb, fat32TableWrite_byte _ hb]
    by_cases hsec : s = v.secIndex i
    · rw [if_pos (Or.inl (by rw [hsec])), if_pos (Or.inr (by rw [hsec]))]
    · rw [if_neg (by omega), if_neg (by omega)]
      exact hagree s hs b hb
  · rw [fat32TableWrite_byte s hb, if_neg]
    rintro (h | h)
    · exact h2 h
    · exact h1 h

end

theorem fat32Table_laws_example :
    exampleSb.table.fat32TableRead (exampleSb.table.fat32TableWrite exampleDisk 5 9) 5 = 9 :=
  (fat32Table_laws exampleSb.table exampleDisk 5 5 9 ⟨by decide, by decide⟩ ⟨by decide, by decide⟩
    (by decide)).1

/-! ## The search for a free cluster -/

/-- The low 28 bits of an entry of the table are zero. -/
def FreeEntry (sb : SbInfo) (disk : Buffer) (k : Nat) : Prop :=
  k < sb.secPerFat * 128 ∧ fatEntry sb disk k % 2 ^ 28 = 0

/-- The search finds the first free entry, and 0 stands for none; a write to an empty file fails for
want of clusters only if there is none. -/
structure FindsFree (sb : SbInfo) (disk : Buffer) : Prop where
  least : ∀ k, FreeEntry sb disk k → (∀ l < k, ¬ FreeEntry sb disk l) →
    fat32FindNextAvaliableCluster sb disk = k
  zero : fat32FindNextAvaliableCluster sb disk = 0 ↔ ∀ k, ¬ FreeEntry sb disk k
  write : ∀ (inode : Inode) (mem : Buffer) (buf count : Nat), inode.firstCluster = 0 →
    (fat32Write sb disk inode mem buf count 0).2.ret = some (-(ENOSPC : Int)) →
    ∀ k, ¬ FreeEntry sb disk k

/-- **The search is right where the table is full**: it always says 0. -/
theorem fat32FindNextAvaliableCluster_exact (sb : SbInfo) (disk : Buffer) :
    FindsFree sb disk ↔ ∀ k < sb.secPerFat * 128, fatEntry sb disk k % 2 ^ 28 ≠ 0 := by
  have hzero := fat32FindNextAvaliableCluster_eq sb disk
  have hfull : (∀ k, ¬ FreeEntry sb disk k) ↔
      ∀ k < sb.secPerFat * 128, fatEntry sb disk k % 2 ^ 28 ≠ 0 := by
    constructor
    · intro h k hk hfree
      exact h k ⟨hk, hfree⟩
    · rintro h k ⟨hk, hfree⟩
      exact h k hk hfree
  rw [← hfull]
  constructor
  · intro h
    exact h.zero.mp hzero
  · intro h
    exact ⟨fun k hk _ => absurd hk (h k), iff_of_true hzero h, fun _ _ _ _ _ _ => h⟩

/-- A table whose entry 9 is free. -/
def freeDisk : Buffer := putLE exampleDisk (32 * 512 + 9 * 4) 4 0

theorem fat32FindNextAvaliableCluster_misses :
    ¬ ∀ (sb : SbInfo) (disk : Buffer), FindsFree sb disk := by
  intro hall
  have hfree : FreeEntry exampleSb freeDisk 9 := ⟨by decide, by decide +kernel⟩
  have hzero := fat32FindNextAvaliableCluster_eq exampleSb freeDisk
  exact (hall exampleSb freeDisk).zero.mp hzero 9 hfree

end Talios
