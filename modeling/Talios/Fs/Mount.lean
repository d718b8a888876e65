import Talios.Fs.DirNames
import Talios.Fs.PathFiles
import Talios.Lib.Fields

set_option autoImplicit false

/-! # Mounting the disk

`register_filesystem` and `mount_fs` of `vfs.c`, and `DISK1_FAT32_FS_INIT` with `fat32_read_superblock`. The
first sector of the disk is read once and is both the partition table and the boot sector of the volume,
so what is mounted is a volume that starts with the disk.

The boot sector that a volume is given is the super block that is made of it (`volume_mounts`). What comes
next in `init` does not get far: the entry that `make_keyboard_file` asks for is never written back
(`makeKeyboardFile_stops`).
-/

namespace Talios.Mount

open Bytes Word

/-! ## The first sector -/

/-- `disk_boot_sector`, as far as it is looked at. -/
structure BootSector where
  bytesPerSec : Nat
  secsPerClus : Nat
  rsvdSecCnt : Nat
  numFATs : Nat
  totSec32 : Nat
  fatsz32 : Nat
  rootClus : Nat
  fsInfo : Nat
  bkBootSec : Nat
  deriving DecidableEq

/-- `(disk_boot_sector *)buf`. -/
def bootSector (buf : Buffer) : BootSector where
  bytesPerSec := getLE buf 11 2
  secsPerClus := getLE buf 13 1
  rsvdSecCnt := getLE buf 14 2
  numFATs := getLE buf 16 1
  totSec32 := getLE buf 32 4
  fatsz32 := getLE buf 36 4
  rootClus := getLE buf 44 4
  fsInfo := getLE buf 48 2
  bkBootSec := getLE buf 50 2

/-- `disk_partition_table_entry`, as far as it is looked at. -/
structure PartitionEntry where
  startLba : Nat
  totalSectors : Nat
  deriving DecidableEq

/-- `((disk_partition_table *)buf)->DPTE[i]`. -/
def dpte (buf : Buffer) (i : Nat) : PartitionEntry where
  startLba := getLE buf (446 + 16 * i + 8) 4
  totalSectors := getLE buf (446 + 16 * i + 12) 4

/-! ## `fat32.c` -/

/-- A super block: its `FAT32_sb_info`, and the first cluster of the root. -/
structure SuperBlock where
  startSec : Nat
  totalSectors : Nat
  secCount : Nat
  bytePerSec : Nat
  fatNum : Nat
  fat1StartSector : Nat
  fstDataSector : Nat
  bytePerClus : Nat
  secPerFat : Nat
  secPerClus : Nat
  fsInfoFlat : Nat
  bootsectorBkFlat : Nat
  fsInfo : Buffer
  rootClus : Nat

/-- `fat32_read_superblock`. The sums and the product of sectors are those of `unsigned int`. -/
def fat32ReadSuperblock (disk : Buffer) (entry : PartitionEntry) (buf : Buffer) : SuperBlock :=
  let fbs := bootSector buf
  { bytePerClus := fbs.secsPerClus * fbs.bytesPerSec
    bytePerSec := fbs.bytesPerSec
    fat1StartSector := (entry.startLba + fbs.rsvdSecCnt) % 2 ^ 32
    fatNum := fbs.numFATs
    fstDataSector :=
      ((entry.startLba + fbs.rsvdSecCnt) % 2 ^ 32 + fbs.numFATs * fbs.fatsz32 % 2 ^ 32) % 2 ^ 32
    secCount := fbs.totSec32
    secPerFat := fbs.fatsz32
    startSec := entry.startLba
    totalSectors := entry.totalSectors
    fsInfoFlat := fbs.fsInfo
    bootsectorBkFlat := fbs.bkBootSec
    secPerClus := fbs.secsPerClus
    fsInfo := ideRead disk ((entry.startLba + fbs.fsInfo) % 2 ^ 32) 1 newBuffer
    rootClus := fbs.rootClus }

/-! ## `vfs.c` -/

/-- `file_system_type`; the pointer `read_super_block` may be null. -/
structure FileSystemType (σ : Type) where
  name : List UInt8
  readSuperBlock : Option (PartitionEntry → Buffer → σ)

/-- `filesystem`, the head of the list. Its name is "filesystem". -/
def filesystem (σ : Type) : FileSystemType σ where
  name := [102, 105, 108, 101, 115, 121, 115, 116, 101, 109]
  readSuperBlock := none

section

variable {σ : Type}

/-- The list from `&filesystem` on, of which `fss` is behind the head. -/
def fromHead (fss : List (FileSystemType σ)) : List (FileSystemType σ) := filesystem σ :: fss

/-- `register_filesystem`: its value, and what is behind the head. -/
def registerFilesystem (fss : List (FileSystemType σ)) (fs : FileSystemType σ) :
    Nat × List (FileSystemType σ) :=
  if (fromHead fss).any (fun p => p.name == fs.name) then (0, fss) else (1, fs :: fss)

/-- What `mount_fs` comes to. -/
inductive Mounted (σ : Type)
  | nullCall
  | unmatched
  | mounted (sb : σ)

/-- `mount_fs`. -/
def mountFs (fss : List (FileSystemType σ)) (name : List UInt8) (entry : PartitionEntry) (buf : Buffer) :
    Mounted σ :=
  match (fromHead fss).find? (fun p => p.name == name) with
  | none => .unmatched
  | some p =>
      match p.readSuperBlock with
      | none => .nullCall
      | some f => .mounted (f entry buf)

/-- A number of calls of `register_filesystem`. -/
def registerAll (fss : List (FileSystemType σ)) (rs : List (FileSystemType σ)) : List (FileSystemType σ) :=
  rs.foldl (fun l fs => (registerFilesystem l fs).2) fss

end

/-- `FAT32_filesystem`, whose name is "FAT32". -/
def fat32Filesystem (disk : Buffer) : FileSystemType SuperBlock where
  name := [70, 65, 84, 51, 50]
  readSuperBlock := some (fat32ReadSuperblock disk)

/-- `DISK1_FAT32_FS_INIT`. -/
def disk1Fat32FsInit (disk : Buffer) (fss : List (FileSystemType SuperBlock)) : Mounted SuperBlock :=
  let buf := ideRead disk 0 1 newBuffer
  let fss := (registerFilesystem fss (fat32Filesystem disk)).2
  mountFs fss (fat32Filesystem disk).name (dpte buf 0) buf

/-! ## What is wanted -/

/-- What the functions of the file system rely on. -/
structure SuperBlock.Sound (s : SuperBlock) : Prop where
  bytePerSec : s.bytePerSec = BYTE_PER_VSEC
  bytePerClus : s.bytePerClus = s.secPerClus * s.bytePerSec
  secPerClus_pos : 0 < s.secPerClus
  secPerClus_lt : s.secPerClus < 256
  fatNum_pos : 0 < s.fatNum
  fstDataSector_eq : s.fstDataSector = s.fat1StartSector + s.fatNum * s.secPerFat
  fstDataSector_lt : s.fstDataSector < 2 ^ 32

/-- The super block, as the file system uses it. -/
def SuperBlock.info (s : SuperBlock) (h : s.Sound) : SbInfo where
  bytePerSec := s.bytePerSec
  bytePerClus := s.bytePerClus
  secPerClus := s.secPerClus
  secPerFat := s.secPerFat
  fatNum := s.fatNum
  fat1StartSector := s.fat1StartSector
  fstDataSector := s.fstDataSector
  bytePerSec_eq := h.bytePerSec
  bytePerClus_eq := h.bytePerClus
  secPerClus_pos := h.secPerClus_pos
  secPerClus_lt := h.secPerClus_lt
  fatNum_pos := h.fatNum_pos
  fstDataSector_eq := h.fstDataSector_eq
  fstDataSector_lt := h.fstDataSector_lt

/-- A volume that starts with the disk: reserved sectors, tables, clusters. -/
structure Volume where
  secPerClus : Nat
  rsvdSecCnt : Nat
  numFATs : Nat
  fatsz32 : Nat
  totSec32 : Nat
  rootClus : Nat
  fsInfo : Nat
  bkBootSec : Nat
  secPerClus_pos : 0 < secPerClus
  secPerClus_lt : secPerClus < 256
  rsvdSecCnt_lt : rsvdSecCnt < 2 ^ 16
  numFATs_pos : 0 < numFATs
  numFATs_lt : numFATs < 256
  totSec32_lt : totSec32 < 2 ^ 32
  rootClus_lt : rootClus < 2 ^ 32
  fsInfo_pos : 0 < fsInfo
  fsInfo_lt : fsInfo < 2 ^ 16
  bkBootSec_lt : bkBootSec < 2 ^ 16
  fits : rsvdSecCnt + numFATs * fatsz32 < 2 ^ 32

def Volume.sb (v : Volume) : SbInfo where
  bytePerSec := BYTE_PER_VSEC
  bytePerClus := v.secPerClus * BYTE_PER_VSEC
  secPerClus := v.secPerClus
  secPerFat := v.fatsz32
  fatNum := v.numFATs
  fat1StartSector := v.rsvdSecCnt
  fstDataSector := v.rsvdSecCnt + v.numFATs * v.fatsz32
  bytePerSec_eq := rfl
  bytePerClus_eq := rfl
  secPerClus_pos := v.secPerClus_pos
  secPerClus_lt := v.secPerClus_lt
  fatNum_pos := v.numFATs_pos
  fstDataSector_eq := rfl
  fstDataSector_lt := v.fits

/-- The fields of the first sector; no partition starts behind it. -/
def Volume.fields (v : Volume) : List PackedField :=
  [⟨11, 2, 512⟩, ⟨13, 1, v.secPerClus⟩, ⟨14, 2, v.rsvdSecCnt⟩, ⟨16, 1, v.numFATs⟩, ⟨32, 4, v.totSec32⟩,
    ⟨36, 4, v.fatsz32⟩, ⟨44, 4, v.rootClus⟩, ⟨48, 2, v.fsInfo⟩, ⟨50, 2, v.bkBootSec⟩, ⟨454, 4, 0⟩]

/-- The disk with the first sector of a volume. -/
def Volume.format (v : Volume) (disk : Buffer) : Buffer := putFields disk v.fields

/-! ## The list of file systems -/

section

variable {σ : Type}

/-- A registration adds its file system to what is found, where nothing was. -/
theorem registerFilesystem_find (fss : List (FileSystemType σ)) (fs : FileSystemType σ) (name : List UInt8) :
    (fromHead (registerFilesystem fss fs).2).find? (fun p => p.name == name)
      = ((fromHead fss).find? (fun p => p.name == name)).or ([fs].find? (fun p => p.name == name)) := by
  unfold registerFilesystem
  split
  · rename_i hany
    by_cases hname : fs.name = name
    · have hsome : ((fromHead fss).find? (fun p => p.name == name)).isSome = true := by
        rw [List.find?_isSome]
        simpa [hname] using hany
      rw [Option.or_of_isSome hsome]
    · have hfs : (fs.name == name) = false := by simpa using hname
      simp only [List.find?_cons, hfs, List.find?_nil, Option.or_none]
  · rename_i hany
    have hnew : ∀ p ∈ fromHead fss, p.name ≠ fs.name := by simpa using hany
    have hhead : (filesystem σ).name ≠ fs.name := hnew _ List.mem_cons_self
    by_cases hname : fs.name = name
    · have hnone : (fromHead fss).find? (fun p => p.name == name) = none := by
        rw [List.find?_eq_none]
        intro p hp
        simpa [← hname] using hnew p hp
      have hhead' : ((filesystem σ).name == name) = false := by simpa [← hname] using hhead
      have hfs : (fs.name == name) = true := by simpa using hname
      rw [hnone, Option.none_or]
      simp only [fromHead, List.find?_cons, hhead', hfs]
    · have hfs : (fs.name == name) = false := by simpa using hname
      simp only [fromHead, List.find?_cons, hfs, List.find?_nil, Option.or_none]

/-- **A file system is the first one that was registered under its name.** -/
theorem registerAll_find (fss rs : List (FileSystemType σ)) (name : List UInt8) :
    (fromHead (registerAll fss rs)).find? (fun p => p.name == name)
      = ((fromHead fss).find? (fun p => p.name == name)).or (rs.find? (fun p => p.name == name)) := by
  induction rs generalizing fss with
  | nil => simp [registerAll]
  | cons fs rs ih =>
      rw [registerAll, List.foldl_cons]
      calc (fromHead (registerAll (registerFilesystem fss fs).2 rs)).find? (fun p => p.name == name)
          = ((fromHead (registerFilesystem fss fs).2).find? (fun p => p.name == name)).or
              (rs.find? (fun p => p.name == name)) := ih _
        _ = (((fromHead fss).find? (fun p => p.name == name)).or ([fs].find? (fun p => p.name == name))).or
              (rs.find? (fun p => p.name == name)) := by rw [registerFilesystem_find]
        _ = ((fromHead fss).find? (fun p => p.name == name)).or
              ((fs :: rs).find? (fun p => p.name == name)) := by
          rw [Option.or_assoc, ← List.find?_append, List.singleton_append]

end

/-- `mount_fs` calls what the first registration under the name gave. -/
theorem disk1Fat32FsInit_registered (disk : Buffer) {rs : List (FileSystemType SuperBlock)}
    (hfree : ∀ fs ∈ rs, fs.name ≠ (fat32Filesystem disk).name) :
    disk1Fat32FsInit disk (registerAll [] rs)
      = .mounted (fat32ReadSuperblock disk (dpte (ideRead disk 0 1 newBuffer) 0)
          (ideRead disk 0 1 newBuffer)) := by
  have hnone : rs.find? (fun p => p.name == (fat32Filesystem disk).name) = none := by
    rw [List.find?_eq_none]
    intro p hp
    simpa using hfree p hp
  have hhead : (fromHead ([] : List (FileSystemType SuperBlock))).find?
      (fun p => p.name == (fat32Filesystem disk).name) = none := rfl
  have hself : [fat32Filesystem disk].find? (fun p => p.name == (fat32Filesystem disk).name)
      = some (fat32Filesystem disk) := rfl
  unfold disk1Fat32FsInit mountFs
  dsimp only
  rw [registerFilesystem_find, registerAll_find, hhead, hnone, hself]
  rfl

/-! ## The super block -/

/-- The sector that is read holds the bytes of the disk. -/
theorem getLE_firstSector (disk : Buffer) {i n : Nat} (h : i + n ≤ BYTE_PER_VSEC) :
    getLE (ideRead disk 0 1 newBuffer) i n = getLE disk i n := by
  apply getLE_congr
  intro j hj
  unfold ideRead
  rw [overlay_zero_left (by omega), Nat.zero_mul, Nat.zero_add]

/-- **What is mounted is sound** where the sectors are of 512 bytes, there are tables and clusters, and the
sum of the sectors in front of the clusters does not go round. -/
theorem fat32ReadSuperblock_sound_iff (disk : Buffer) (entry : PartitionEntry) (buf : Buffer) :
    (fat32ReadSuperblock disk entry buf).Sound ↔
      (bootSector buf).bytesPerSec = 512 ∧ 0 < (bootSector buf).secsPerClus ∧ 0 < (bootSector buf).numFATs ∧
        (entry.startLba + (bootSector buf).rsvdSecCnt) % 2 ^ 32
          + (bootSector buf).numFATs * (bootSector buf).fatsz32 < 2 ^ 32 := by
  have hclus : (bootSector buf).secsPerClus < 256 := getLE_lt 13 1
  constructor
  · intro h
    have heq := h.fstDataSector_eq
    have hlt := h.fstDataSector_lt
    simp only [fat32ReadSuperblock] at heq hlt
    exact ⟨h.bytePerSec, h.secPerClus_pos, h.fatNum_pos, by omega⟩
  · rintro ⟨hbyte, hspc, hnum, hsum⟩
    refine ⟨hbyte, rfl, hspc, hclus, hnum, ?_, ?_⟩
    · simp only [fat32ReadSuperblock]
      omega
    · exact Nat.mod_lt _ (by decide)

section

variable (v : Volume) (disk : Buffer)

theorem Volume.fatsz32_lt : v.fatsz32 < 2 ^ 32 := by
  have hle : v.fatsz32 ≤ v.numFATs * v.fatsz32 := Nat.le_mul_of_pos_left _ v.numFATs_pos
  have hfits := v.fits
  omega

theorem Volume.fields_apart : v.fields.Pairwise PackedField.Apart := by
  unfold Volume.fields
  simp [PackedField.Apart]

/-- A field of the first sector is read back from the disk. -/
theorem Volume.read_field {x : PackedField} (hx : x ∈ v.fields) (hlt : x.value < 256 ^ x.width)
    (hpos : x.pos + x.width ≤ BYTE_PER_VSEC) :
    getLE (ideRead (v.format disk) 0 1 newBuffer) x.pos x.width = x.value := by
  rw [getLE_firstSector _ hpos]
  exact getLE_putFields v.fields_apart hx hlt

/-- **The boot sector is the one that was written.** -/
theorem Volume.bootSector_format : bootSector (ideRead (v.format disk) 0 1 newBuffer)
    = ⟨512, v.secPerClus, v.rsvdSecCnt, v.numFATs, v.totSec32, v.fatsz32, v.rootClus, v.fsInfo,
        v.bkBootSec⟩ := by
  have read := fun (pos width value : Nat) (hx : PackedField.mk pos width value ∈ v.fields)
    (hlt : value < 256 ^ width) (hpos : pos + width ≤ BYTE_PER_VSEC) => v.read_field disk hx hlt hpos
  unfold bootSector
  rw [read 11 2 512 (by simp [Volume.fields]) (by decide) (by decide),
    read 13 1 v.secPerClus (by simp [Volume.fields]) v.secPerClus_lt (by decide),
    read 14 2 v.rsvdSecCnt (by simp [Volume.fields]) v.rsvdSecCnt_lt (by decide),
    read 16 1 v.numFATs (by simp [Volume.fields]) v.numFATs_lt (by decide),
    read 32 4 v.totSec32 (by simp [Volume.fields]) v.totSec32_lt (by decide),
    read 36 4 v.fatsz32 (by simp [Volume.fields]) v.fatsz32_lt (by decide),
    read 44 4 v.rootClus (by simp [Volume.fields]) v.rootClus_lt (by decide),
    read 48 2 v.fsInfo (by simp [Volume.fields]) v.fsInfo_lt (by decide),
    read 50 2 v.bkBootSec (by simp [Volume.fields]) v.bkBootSec_lt (by decide)]

theorem Volume.startLba_format : (dpte (ideRead (v.format disk) 0 1 newBuffer) 0).startLba = 0 :=
  v.read_field disk (x := ⟨454, 4, 0⟩) (by simp [Volume.fields]) (by decide) (by decide)

/-- A sector behind the first is that of the disk. -/
theorem Volume.ideRead_format {lba : Nat} (h : 0 < lba) :
    ideRead (v.format disk) lba 1 newBuffer = ideRead disk lba 1 newBuffer := by
  unfold ideRead
  apply overlay_congr
  intro j hj
  apply putFields_of_ge
  intro x hx
  have hend : x.pos + x.width ≤ BYTE_PER_VSEC := by
    simp only [Volume.fields, List.mem_cons, List.not_mem_nil, or_false] at hx
    rcases hx with rfl | rfl | rfl | rfl | rfl | rfl | rfl | rfl | rfl | rfl <;> simp [BYTE_PER_VSEC]
  calc x.pos + x.width ≤ BYTE_PER_VSEC := hend
    _ ≤ lba * BYTE_PER_VSEC := Nat.le_mul_of_pos_left _ h
    _ ≤ lba * BYTE_PER_VSEC + j := Nat.le_add_right _ _

/-- **A volume is mounted as it was made**: whatever file systems are registered before, if none is named as
FAT32 is, the super block is sound, has the reserved sectors, tables and clusters of the volume and its root,
and holds the sector of free clusters. -/
theorem volume_mounts (rs : List (FileSystemType SuperBlock))
    (hfree : ∀ fs ∈ rs, fs.name ≠ (fat32Filesystem (v.format disk)).name) :
    ∃ s, disk1Fat32FsInit (v.format disk) (registerAll [] rs) = .mounted s ∧
      (∃ h : s.Sound, s.info h = v.sb) ∧ s.rootClus = v.rootClus ∧ s.secCount = v.totSec32 ∧
      s.startSec = 0 ∧ s.bootsectorBkFlat = v.bkBootSec ∧ s.fsInfo = ideRead disk v.fsInfo 1 newBuffer := by
  have hboot := v.bootSector_format disk
  have hstart := v.startLba_format disk
  have hfits := v.fits
  refine ⟨_, disk1Fat32FsInit_registered _ hfree, ?_, ?_, ?_, ?_, ?_, ?_⟩
  · have hsound := (fat32ReadSuperblock_sound_iff (v.format disk)
      (dpte (ideRead (v.format disk) 0 1 newBuffer) 0) (ideRead (v.format disk) 0 1 newBuffer)).mpr (by
        rw [hboot, hstart]
        refine ⟨rfl, v.secPerClus_pos, v.numFATs_pos, ?_⟩
        dsimp only
        omega)
    refine ⟨hsound, ?_⟩
    have hfat := v.rsvdSecCnt_lt
    simp only [SuperBlock.info, Volume.sb, SbInfo.mk.injEq, fat32ReadSuperblock, hboot, hstart]
    refine ⟨rfl, rfl, trivial, trivial, trivial, ?_, ?_⟩ <;> omega
  · simp only [fat32ReadSuperblock, hboot]
  · simp only [fat32ReadSuperblock, hboot]
  · simp only [fat32ReadSuperblock, hstart]
  · simp only [fat32ReadSuperblock, hboot]
  · have hlt := v.fsInfo_lt
    simp only [fat32ReadSuperblock, hboot, hstart, Nat.zero_add]
    rw [Nat.mod_eq_of_lt (by omega)]
    exact v.ideRead_format disk v.fsInfo_pos

end

/-- A volume of 128 megabytes, with four sectors in a cluster. -/
def exampleVolume : Volume where
  secPerClus := 4
  rsvdSecCnt := 38
  numFATs := 2
  fatsz32 := 509
  totSec32 := 262144
  rootClus := 2
  fsInfo := 1
  bkBootSec := 6
  secPerClus_pos := Nat.le_of_ble_eq_true rfl
  secPerClus_lt := Nat.le_of_ble_eq_true rfl
  rsvdSecCnt_lt := Nat.le_of_ble_eq_true rfl
  numFATs_pos := Nat.le_of_ble_eq_true rfl
  numFATs_lt := Nat.le_of_ble_eq_true rfl
  totSec32_lt := Nat.le_of_ble_eq_true rfl
  rootClus_lt := Nat.le_of_ble_eq_true rfl
  fsInfo_pos := Nat.le_of_ble_eq_true rfl
  fsInfo_lt := Nat.le_of_ble_eq_true rfl
  bkBootSec_lt := Nat.le_of_ble_eq_true rfl
  fits := Nat.le_of_ble_eq_true rfl

/-- Another file system is registered first. -/
def otherFilesystem : FileSystemType SuperBlock where
  name := [109, 105, 110, 105, 120]
  readSuperBlock := none

theorem volume_mounts_example :
    ∃ s, disk1Fat32FsInit (exampleVolume.format newBuffer) (registerAll [] [otherFilesystem]) = .mounted s ∧
      (∃ h : s.Sound, s.info h = exampleVolume.sb) ∧ s.rootClus = 2 ∧ s.secCount = 262144 ∧
      s.startSec = 0 ∧ s.bootsectorBkFlat = 6 ∧ s.fsInfo = ideRead newBuffer 1 1 newBuffer := by
  apply volume_mounts exampleVolume newBuffer [otherFilesystem]
  intro fs hfs
  rw [List.mem_singleton.mp hfs]
  decide

/-! ## The keyboard's file -/

/-- The path "/KEYBOARD.DEV", and its name. -/
def KEYBOARD_NAME : List UInt8 := [75, 69, 89, 66, 79, 65, 82, 68, 46, 68, 69, 86]
def KEYBOARD_PATH : List UInt8 := 47 :: KEYBOARD_NAME

/-- What `make_keyboard_file` comes to: `path_walk` returns null, and `dentry->dir_node` is read through it;
`dir_node->sb` is null, and `sb->sb_ops` is read through it; or the entry is written. -/
inductive KeyboardFile
  | nullEntry
  | nullSuperBlock
  | written (disk : Buffer)

/-- `make_keyboard_file`, with a bound on the rounds of the lookup; none where `path_walk` does not return, or
stores outside its buffer. -/
def makeKeyboardFile (sb : SbInfo) (disk : Buffer) (rootClus fuel : Nat) : Option KeyboardFile :=
  match fatWalk sb disk rootClus KEYBOARD_PATH fuel with
  | none => none
  | some .outside => none
  | some (.returned none) => some .nullEntry
  | some (.returned (some dentry)) =>
      let node := dentry.dirNode
      let inode := { node.inode with firstCluster := node.firstCluster ||| 0xf0000000 }
      if node.sb then some (.written (fat32WriteInode sb disk inode)) else some .nullSuperBlock

section

variable {sb : SbInfo} {disk : Buffer} {rootClus : Nat}

/-- What the lookup of the name in the root makes of it. -/
theorem makeKeyboardFile_eq (fuel : Nat) : makeKeyboardFile sb disk rootClus fuel =
    match fat32Lookup sb disk (rootNode rootClus).inode KEYBOARD_NAME fuel with
    | some .missing => some .nullEntry
    | some (.found _) => some .nullSuperBlock
    | _ => none := by
  have hcomp : components KEYBOARD_PATH = [KEYBOARD_NAME] := by decide +kernel
  unfold makeKeyboardFile
  rw [fatWalk_cons (by decide) hcomp, if_neg (by decide), nodeLookup_root]
  cases hl : fat32Lookup sb disk (rootNode rootClus).inode KEYBOARD_NAME fuel with
  | none => rfl
  | some r =>
      cases r with
      | missing => rfl
      | outside => rfl
      | found node =>
          have hsb : node.sb = false := (fat32Lookup_found hl).1.sb
          simp only [afterFirst, DirEntry.dirNode, hsb]
          rfl

/-- What the search of the root for the name comes to, with enough rounds. -/
theorem makeKeyboardFile_scan {chain : List Nat} (h : DirChain sb disk (rootNode rootClus).inode chain)
    (r : KeyboardFile) : (∃ fuel, makeKeyboardFile sb disk rootClus fuel = some r) ↔
      (∃ k, lookupScan KEYBOARD_NAME (dirSlots sb disk chain) 0 newBuffer = .found k) ∧ r = .nullSuperBlock ∨
      (∃ b, lookupScan KEYBOARD_NAME (dirSlots sb disk chain) 0 newBuffer = .next b) ∧ r = .nullEntry := by
  have hname : KEYBOARD_NAME.takeWhile (· ≠ 0) = KEYBOARD_NAME := by decide
  have hslots := fat32Lookup_slots h KEYBOARD_NAME
  rw [hname] at hslots
  constructor
  · rintro ⟨fuel, hm⟩
    rw [makeKeyboardFile_eq] at hm
    cases hl : fat32Lookup sb disk (rootNode rootClus).inode KEYBOARD_NAME fuel with
    | none =>
        rw [hl] at hm
        cases hm
    | some res =>
        rw [hl, (hslots res).mp ⟨fuel, hl⟩] at hm
        cases hs : lookupScan KEYBOARD_NAME (dirSlots sb disk chain) 0 newBuffer with
        | outside =>
            rw [hs] at hm
            cases hm
        | found k =>
            rw [hs] at hm
            exact Or.inl ⟨⟨k, rfl⟩, (Option.some.inj hm).symm⟩
        | next b =>
            rw [hs] at hm
            exact Or.inr ⟨⟨b, rfl⟩, (Option.some.inj hm).symm⟩
  · obtain ⟨fuel, hl⟩ := (hslots _).mpr rfl
    rintro (⟨⟨k, hs⟩, rfl⟩ | ⟨⟨b, hs⟩, rfl⟩)
    · refine ⟨fuel, ?_⟩
      rw [makeKeyboardFile_eq, hl, hs]
      rfl
    · refine ⟨fuel, ?_⟩
      rw [makeKeyboardFile_eq, hl, hs]
      rfl

/-- **The file of the keyboard is never made**: where the root has an entry of its name, the super block of
the node that is found is null, and where it has none the entry is, so that `init` reads through a null
pointer before it comes to `do_execve`. -/
theorem makeKeyboardFile_stops {chain : List Nat} (h : DirChain sb disk (rootNode rootClus).inode chain) :
    ((∃ fuel, makeKeyboardFile sb disk rootClus fuel = some .nullSuperBlock) ↔
      ∃ k, lookupScan KEYBOARD_NAME (dirSlots sb disk chain) 0 newBuffer = .found k) ∧
    ((∃ fuel, makeKeyboardFile sb disk rootClus fuel = some .nullEntry) ↔
      ∃ b, lookupScan KEYBOARD_NAME (dirSlots sb disk chain) 0 newBuffer = .next b) ∧
    ∀ fuel disk', makeKeyboardFile sb disk rootClus fuel ≠ some (.written disk') := by
  refine ⟨?_, ?_, ?_⟩
  · simpa using makeKeyboardFile_scan h .nullSuperBlock
  · simpa using makeKeyboardFile_scan h .nullEntry
  · intro fuel disk' hw
    rw [makeKeyboardFile_eq] at hw
    split at hw <;> cases hw

end

theorem makeKeyboardFile_stops_example :
    ((∃ fuel, makeKeyboardFile exampleSb entryDisk 2 fuel = some .nullSuperBlock) ↔
      ∃ k, lookupScan KEYBOARD_NAME (dirSlots exampleSb entryDisk [2]) 0 newBuffer = .found k) ∧
    ((∃ fuel, makeKeyboardFile exampleSb entryDisk 2 fuel = some .nullEntry) ↔
      ∃ b, lookupScan KEYBOARD_NAME (dirSlots exampleSb entryDisk [2]) 0 newBuffer = .next b) ∧
    ∀ fuel disk', makeKeyboardFile exampleSb entryDisk 2 fuel ≠ some (.written disk') :=
  makeKeyboardFile_stops entryDisk_chain

end Talios.Mount
