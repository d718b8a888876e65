import Talios.Lib.Bytes
import Talios.Mm.Vma
import Mathlib.Tactic

set_option autoImplicit false

/-! # FAT32

`fat32_read`, `fat32_write` and `fat32_readdir` with the functions they call, and the system calls
over them. The disk is a function from byte addresses to bytes; `ide_transfer` moves whole sectors
and returns 1. A buffer that a function gets from `kmalloc` is a value of its own, apart from the
memory of the caller. The areas of that memory that a call reads or writes are recorded.
-/

namespace Talios

open Bytes Word

def TASK_SIZE : Nat := 0x00007fffffffffff
def ENOSPC : Nat := 28
def BYTE_PER_VSEC : Nat := 512

/-- `sizeof(FAT32_Directory)`. -/
def DIRECTORY_SIZE : Nat := 32

/-! ## The volume -/

/-- `FAT32_sb_info` of a volume whose sectors are those of the disk, as `fat32_read_superblock`
fills it in: the sector numbers are sums of 32-bit numbers, and `BPB_SecsPerClus` is a byte. -/
structure SbInfo where
  bytePerSec : Nat
  bytePerClus : Nat
  secPerClus : Nat
  secPerFat : Nat
  fatNum : Nat
  fat1StartSector : Nat
  fstDataSector : Nat
  bytePerSec_eq : bytePerSec = BYTE_PER_VSEC
  bytePerClus_eq : bytePerClus = secPerClus * bytePerSec
  secPerClus_pos : 0 < secPerClus
  secPerClus_lt : secPerClus < 256
  fatNum_pos : 0 < fatNum
  fstDataSector_eq : fstDataSector = fat1StartSector + fatNum * secPerFat
  fstDataSector_lt : fstDataSector < 2 ^ 32

/-- `index_node` and its `FAT32_inode_info`. -/
structure Inode where
  fileSize : Nat
  firstCluster : Nat
  dentryLocation : Nat
  dentryPosition : Nat
  writeDate : Nat
  writeTime : Nat

/-- `ide_transfer` with `ATA_READ_CMD`. -/
def ideRead (disk : Buffer) (lba count : Nat) (buffer : Buffer) : Buffer :=
  overlay buffer 0 (count * BYTE_PER_VSEC) (fun i => disk (lba * BYTE_PER_VSEC + i))

/-- `ide_transfer` with `ATA_WRITE_CMD`. -/
def ideWrite (disk : Buffer) (lba count : Nat) (buffer : Buffer) : Buffer :=
  overlay disk (lba * BYTE_PER_VSEC) (count * BYTE_PER_VSEC) buffer

/-- A buffer whose contents do not matter. -/
def newBuffer : Buffer := fun _ => 0

/-- `CLUS_TO_LBA`. -/
def clusToLba (sb : SbInfo) (clus : Nat) : Nat :=
  add64 sb.fstDataSector (sub64 clus 2 * sb.secPerClus)

/-- `fat32_table_read`; the index is an `unsigned int`. -/
@[irreducible] def fat32TableRead (sb : SbInfo) (disk : Buffer) (clus : Nat) : Nat :=
  let index := clus % 2 ^ 32
  let fatSlace := ideRead disk (sb.fat1StartSector + index / (sb.bytePerSec / 4)) 1 newBuffer
  let entry := getLE fatSlace (index % (sb.bytePerSec / 4) * 4) 4
  if entry < 0xffffff7 then entry else 0

/-- `fat32_table_write`. -/
def fat32TableWrite (sb : SbInfo) (disk : Buffer) (clus content : Nat) : Buffer :=
  let index := clus % 2 ^ 32
  let secIndex := index / (sb.bytePerSec / 4)
  let fatSlace := putLE (ideRead disk (sb.fat1StartSector + secIndex) 1 newBuffer)
    (index % (sb.bytePerSec / 4) * 4) 4 content
  ideWrite (ideWrite disk (sb.fat1StartSector + secIndex) 1 fatSlace)
    (sb.fat1StartSector + sb.secPerFat + secIndex) 1 fatSlace

/-- `fat32_find_next_avaliale_cluster`. In `fat_slace[j] & 0xfffffff == 0` the comparison comes
first. -/
def fat32FindNextAvaliableCluster (sb : SbInfo) (disk : Buffer) : Nat :=
  ((List.range sb.secPerFat).findSome? (fun i =>
    let fatSlace := ideRead disk (sb.fat1StartSector + i) 1 newBuffer
    (List.range 128).findSome? (fun j =>
      if getLE fatSlace (j * 4) 4 &&& (if 0xfffffff = 0 then 1 else 0) ≠ 0
      then some (i * 128 + j) else none))).getD 0

/-- `fat32_write_inode`. -/
def fat32WriteInode (sb : SbInfo) (disk : Buffer) (inode : Inode) : Buffer :=
  let lba := clusToLba sb inode.dentryLocation
  let buf := ideRead disk lba sb.secPerClus newBuffer
  let tentry := inode.dentryPosition * DIRECTORY_SIZE
  let buf := putLE buf (tentry + 28) 4 inode.fileSize
  let buf := putLE buf (tentry + 20) 2 (inode.firstCluster / 2 ^ 16)
  let buf := putLE buf (tentry + 26) 2 inode.firstCluster
  let buf := putLE buf (tentry + 24) 2 inode.writeDate
  let buf := putLE buf (tentry + 22) 2 inode.writeTime
  ideWrite disk lba sb.secPerClus buf

/-! ## The memory of the caller -/

/-- `verify_area`. -/
def verifyArea (area size : Nat) : Bool := add64 area size ≤ TASK_SIZE

/-- An area of memory: where it starts, and its length. -/
abbrev Area := Nat × Nat

/-- No byte of the areas lies at `TASK_SIZE` or above. -/
def UserOnly (areas : List Area) : Prop :=
  ∀ r ∈ areas, ∀ i < r.2, add64 r.1 i < TASK_SIZE

/-- `n` bytes of the caller's memory, from address `src` on. -/
def bytesAt (mem : Buffer) (src : Nat) : Buffer := fun i => mem (add64 src i)

/-- `n` bytes from `dst` on are written into the caller's memory. -/
def storeAt (mem : Buffer) (dst n : Nat) (g : Buffer) : Buffer :=
  fun a => if sub64 a dst < n then g (sub64 a dst) else mem a

/-- Which branch copies, and whether it does: the area at `addr`, with the pointer `checked` compared
with `TASK_SIZE`. Below it `copy_from_user` and `copy_to_user` verify the area, above it `memcopy`
copies as it is. -/
def copies (checked addr length : Nat) : Bool :=
  if checked < TASK_SIZE then verifyArea addr length else true

/-! ## Reading a file -/

/-- The variables of the loop in `fat32_read`, the caller's memory, and the areas written. -/
structure ReadLoop where
  clus : Nat
  remainder : Nat
  index : Nat
  offset : Nat
  mem : Buffer
  areas : List Area

/-- `length` in the loops of `fat32_read` and `fat32_write`. -/
def chunk (sb : SbInfo) (remainder offset : Nat) : Nat :=
  min (sb.bytePerClus - offset) (min remainder sb.bytePerClus)

/-- The body of the loop. -/
def fat32ReadStep (sb : SbInfo) (disk : Buffer) (buf : Nat) (s : ReadLoop) : ReadLoop :=
  let buffer := ideRead disk (clusToLba sb s.clus) sb.secPerClus newBuffer
  let length := chunk sb s.remainder s.offset
  let dest := add64 buf s.index
  let copied := copies (add64 buf s.offset) dest length
  { clus := fat32TableRead sb disk s.clus
    remainder := s.remainder - length
    index := s.index + length
    offset := 0
    mem := if copied then storeAt s.mem dest length (fun i => buffer (s.offset + i)) else s.mem
    areas := if copied then s.areas ++ [(dest, length)] else s.areas }

/-- `do … while(remainder && clus)`. A round that leaves a remainder makes it smaller, so that
`remainder + 1` rounds are enough. -/
def fat32ReadLoop (sb : SbInfo) (disk : Buffer) (buf : Nat) : Nat → ReadLoop → ReadLoop
  | 0, s => s
  | fuel + 1, s =>
      let s' := fat32ReadStep sb disk buf s
      if s'.remainder ≠ 0 ∧ s'.clus ≠ 0 then fat32ReadLoop sb disk buf fuel s' else s'

/-- The result of a call: the value, none where `ret_val` has not been set. -/
structure Outcome where
  ret : Option Int
  position : Nat
  areas : List Area

/-- A value as an `int`. -/
def toInt (x : Nat) : Int := (x : Int).bmod (2 ^ 32)

/-- `remainder` at the start of `fat32_read`. -/
def readRemainder (inode : Inode) (count position : Nat) : Nat :=
  if inode.fileSize < add64 position count then sub64 inode.fileSize position else count

/-- The cluster at which both functions start. -/
def startCluster (sb : SbInfo) (inode : Inode) (position : Nat) : Nat :=
  add64 inode.firstCluster (position / sb.bytePerClus)

/-- `fat32_read`. -/
def fat32Read (sb : SbInfo) (disk : Buffer) (inode : Inode) (mem : Buffer)
    (buf count position : Nat) : Buffer × Outcome :=
  let remainder := readRemainder inode count position
  let s := fat32ReadLoop sb disk buf (remainder + 1)
    ⟨startCluster sb inode position, remainder, 0, position % sb.bytePerClus, mem, []⟩
  (s.mem, ⟨if s.remainder = 0 then some (toInt s.index) else none,
    add64 position s.index, s.areas⟩)

/-! ## Writing a file -/

/-- The variables of the loop in `fat32_write`, the disk, and the areas read. -/
structure WriteLoop where
  clus : Nat
  remainder : Nat
  index : Nat
  offset : Nat
  buffer : Buffer
  disk : Buffer
  areas : List Area

/-- The body of the loop; `lba` is not a variable of it. -/
def fat32WriteStep (sb : SbInfo) (mem : Buffer) (buf lba : Nat) (s : WriteLoop) : WriteLoop :=
  let length := chunk sb s.remainder s.offset
  let source := add64 buf s.index
  let copied := copies (add64 buf s.offset) source length
  let buffer := if copied then overlay s.buffer s.offset length (bytesAt mem source) else s.buffer
  let disk := ideWrite s.disk lba sb.secPerClus buffer
  { clus := fat32TableRead sb disk s.clus
    remainder := s.remainder - length
    index := s.index + length
    offset := 0
    buffer := buffer
    disk := disk
    areas := if copied then s.areas ++ [(source, length)] else s.areas }

def fat32WriteLoop (sb : SbInfo) (mem : Buffer) (buf lba : Nat) : Nat → WriteLoop → WriteLoop
  | 0, s => s
  | fuel + 1, s =>
      let s' := fat32WriteStep sb mem buf lba s
      if s'.remainder ≠ 0 ∧ s'.clus ≠ 0 then fat32WriteLoop sb mem buf lba fuel s' else s'

/-- The volume and the file after a write. -/
structure Written where
  disk : Buffer
  inode : Inode

/-- `fat32_write` once it has a cluster. -/
def fat32WriteAt (sb : SbInfo) (disk : Buffer) (inode : Inode) (mem : Buffer)
    (buf count position clus : Nat) : Written × Outcome :=
  let lba := clusToLba sb clus
  let s := fat32WriteLoop sb mem buf lba (count + 1)
    ⟨clus, count, 0, position % sb.bytePerClus, ideRead disk lba sb.secPerClus newBuffer, disk, []⟩
  let position' := add64 position s.index
  let ret := if s.remainder = 0 then some (toInt s.index) else none
  if inode.fileSize < position' then
    let inode' := { inode with fileSize := position' }
    (⟨fat32WriteInode sb s.disk inode', inode'⟩, ⟨ret, position', s.areas⟩)
  else (⟨s.disk, inode⟩, ⟨ret, position', s.areas⟩)

/-- `fat32_write`. -/
def fat32Write (sb : SbInfo) (disk : Buffer) (inode : Inode) (mem : Buffer)
    (buf count position : Nat) : Written × Outcome :=
  let clus := startCluster sb inode position
  if clus = 0 then
    let clus := fat32FindNextAvaliableCluster sb disk
    if clus = 0 then (⟨disk, inode⟩, ⟨some (-(ENOSPC : Int)), position, []⟩)
    else
      let inode := { inode with firstCluster := clus }
      let disk := fat32TableWrite sb (fat32WriteInode sb disk inode) clus 0xffffff8
      fat32WriteAt sb disk inode mem buf count position clus
  else fat32WriteAt sb disk inode mem buf count position clus

/-! ## Reading a directory -/

/-- The first loop of `fat32_readdir`; none where a chain ends too early. -/
def skipClusters (sb : SbInfo) (disk : Buffer) : Nat → Nat → Option Nat
  | 0, clus => some clus
  | n + 1, clus =>
      let clus' := fat32TableRead sb disk clus
      if clus' = 0 then none else skipClusters sb disk n clus'

/-- `dir_name[0]` marks a slot that is not used. -/
def slotDeleted (e : Buffer) : Bool := e 0 == 0xe5 || e 0 == 0x05 || e 0 == 0x00

/-- `dir_attr == ATTR_LONG_NAME`. -/
def slotLongName (e : Buffer) : Bool := e 11 == 0x0f

/-- The letters of a long-name slot go into `name_buf`: five, six and two of them, the low bytes of
16-bit characters. -/
def putLongName (e nameBuf : Buffer) : Buffer :=
  let ord := (e 0).toNat % 64
  let base := sub64 ord 1 * 13 % 2 ^ 64
  let nameBuf := overlay nameBuf base 5 (fun k => e (1 + 2 * k))
  let nameBuf := overlay nameBuf (add64 base 5) 6 (fun k => e (14 + 2 * k))
  let nameBuf := overlay nameBuf (add64 base 11) 2 (fun k => e (28 + 2 * k))
  if (e 0).toNat / 64 % 2 = 1 then overlay nameBuf (add64 base 13) 1 (fun _ => 0) else nameBuf

/-- `lower_case`, of one letter. -/
def lowerCase (c : UInt8) : UInt8 := if 65 ≤ c ∧ c ≤ 90 then c - 65 + 97 else c

/-- `name_buf` and `nl` for a slot with a short name: what lies before the first blank, and the
extension after a dot. `lower_case(name_buf + base)` changes letters that are then overwritten. -/
def shortName (e nameBuf : Buffer) : Buffer × Nat :=
  let name := ((List.range 8).map e).takeWhile (· ≠ 32)
  let ext := ((List.range 3).map (fun j => e (8 + j))).takeWhile (· ≠ 32)
  let name := if (e 12).toNat / 8 % 2 = 1 then name.map lowerCase else name
  let all := if ext = [] then name else name ++ 46 :: ext
  (overlay nameBuf 0 (all.length + 1) (fun i => all.getD i 0), all.length)

/-- `StringLen(name_buf)`: no slot puts a letter behind the first thousand. -/
def stringLen (nameBuf : Buffer) : Nat := (List.range 1024).findIdx (fun i => nameBuf i == 0)

/-- The variables of the loops in `fat32_readdir`. -/
structure DirLoop where
  diskBuf : Buffer
  nameBuf : Buffer
  position : Nat

/-- A name has been found: `name_buf`, its length, and `filp->position`. -/
structure DirName where
  name : Buffer
  namelen : Nat
  position : Nat

/-- The loop over the slots of a cluster, from slot `i` on. -/
def readdirSlots : Nat → Nat → DirLoop → DirLoop ⊕ DirName
  | 0, _, s => .inl s
  | n + 1, i, s =>
      let e : Buffer := fun j => s.diskBuf (i * DIRECTORY_SIZE + j)
      let position := s.position + DIRECTORY_SIZE
      if slotDeleted e then readdirSlots n (i + 1) { s with position := position }
      else if slotLongName e then
        readdirSlots n (i + 1)
          { s with nameBuf := putLongName e s.nameBuf, position := position }
      else if s.nameBuf 0 ≠ 0 then .inr ⟨s.nameBuf, stringLen s.nameBuf, position⟩
      else
        let r := shortName e s.nameBuf
        .inr ⟨r.1, if r.2 ≠ 0 then r.2 else stringLen r.1, position⟩

/-- `while(clus)`: only the first sector of a cluster is read. The outer option is none where the
rounds have run out. -/
def readdirLoop (sb : SbInfo) (disk : Buffer) : Nat → Nat → DirLoop → Option (Option DirName)
  | 0, _, _ => none
  | fuel + 1, clus, s =>
      if clus = 0 then some none
      else
        let diskBuf := ideRead disk (clusToLba sb clus) 1 s.diskBuf
        let first := s.position % sb.bytePerClus / DIRECTORY_SIZE
        match readdirSlots (sb.bytePerClus / DIRECTORY_SIZE - first) first
            { s with diskBuf := diskBuf } with
        | .inr r => some (some r)
        | .inl s' => readdirLoop sb disk fuel (fat32TableRead sb disk clus) s'

/-- `fat32_readdir` up to the call of `filler`; `stale` is what `disk_buf` holds at first. -/
def fat32Readdir (sb : SbInfo) (disk : Buffer) (inode : Inode) (stale : Buffer)
    (fuel position : Nat) : Option (Option DirName) :=
  match skipClusters sb disk (position / sb.bytePerClus) inode.firstCluster with
  | none => some none
  | some clus => readdirLoop sb disk fuel clus ⟨stale, newBuffer, position⟩

/-- `sizeof(dirent)`. -/
def DIRENT_SIZE : Nat := 24

/-- `fill_dentry`: the areas it writes, and its value. -/
def fillDentry (buf namelen : Nat) : List Area × Int :=
  if buf < TASK_SIZE ∧ verifyArea buf (DIRENT_SIZE + namelen) = false then ([], -(EFAULT : Int))
  else ([(add64 buf DIRENT_SIZE, namelen), (buf, DIRENT_SIZE)], toInt (DIRENT_SIZE + namelen))

/-! ## The system calls -/

/-- A call on an open file or directory: what it passes. The count of `sys_getdents` is a `long`,
negative from `2 ^ 63` on. -/
inductive FileCall
  | read (buf count : Nat)
  | write (buf count : Nat)
  | getdents (buf count : Nat)

/-- The pointer that the caller passes. -/
def FileCall.buf : FileCall → Nat
  | .read buf _ => buf
  | .write buf _ => buf
  | .getdents buf _ => buf

/-- The areas of memory that the kernel writes through `buf`, and for `sys_write` those it reads
into the file. `fuel` bounds the rounds of the search in `sys_getdents`; `stale` is what its buffer
holds at first. -/
def FileCall.areas (sb : SbInfo) (disk : Buffer) (inode : Inode) (position : Nat)
    (mem stale : Buffer) (fuel : Nat) : FileCall → List Area
  | .read buf count => (fat32Read sb disk inode mem buf count position).2.areas
  | .write buf count => (fat32Write sb disk inode mem buf count position).2.areas
  | .getdents buf count =>
      if 2 ^ 63 ≤ count then []
      else
        match fat32Readdir sb disk inode stale fuel position with
        | some (some r) => (fillDentry buf r.namelen).1
        | _ => []

end Talios
