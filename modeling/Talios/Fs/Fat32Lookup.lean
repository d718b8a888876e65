import Talios.Fs.Fat32Copy

set_option autoImplicit false

/-! # Looking up a name

`fat32_lookup` with `fsde` and `fdn2sde`. The long-name slots before an entry are put together in
`lname_buf`, which has 256 bytes: a store outside it ends the model. An entry without long name is
compared by its eleven letters, in upper case and without blanks; dots are left out of the name
that is looked up.
-/

namespace Talios

open Bytes Word

def FS_ATTR_DIR : Nat := 0
def FS_ATTR_FILE : Nat := 1
def FS_ATTR_DEVICE : Nat := 2
def BYTE_PER_VSEC_SHIFT : Nat := 9

/-! ## Names -/

/-- `upper_case`, of one letter. -/
def upperCase (c : UInt8) : UInt8 := if 97 ≤ c ∧ c ≤ 122 then c + 65 - 97 else c

/-- `fsde`: what `sname_buf` holds, up to its end. -/
def fsde (e : Buffer) : List UInt8 :=
  ((((List.range 11).map e).filter (· ≠ 32)).takeWhile (· ≠ 0)).map upperCase

/-- `fdn2sde` of a name. -/
def fdn2sde (dirName : List UInt8) : List UInt8 :=
  (dirName.filter (fun c => c ≠ 46 ∧ c ≠ 32)).map upperCase

/-- The string in a name buffer. -/
def cString (buf : Buffer) : List UInt8 := (List.range (stringLen buf)).map buf

/-- The last byte that a long-name slot is stored to lies in a buffer of 256 bytes; the index wraps
for number 0. -/
def longNameFits (e : Buffer) : Bool :=
  sub64 ((e 0).toNat % 64) 1 * 13 % 2 ^ 64 + 13 + (e 0).toNat / 64 % 2 ≤ 256

/-! ## What is found -/

/-- `index_node` with its `FAT32_inode_info`, as `fat32_lookup` leaves them. `sb` says that the
pointer to the super block is not null. -/
structure FoundNode where
  fileSize : Nat
  blocks : Nat
  nodeAttribute : Nat
  sb : Bool
  firstCluster : Nat
  dentryLocation : Nat
  dentryPosition : Nat
  createDate : Nat
  createTime : Nat
  writeDate : Nat
  writeTime : Nat
deriving DecidableEq

/-- `(dir_fst_clus_hi << 16) + dir_fst_clus_lo`, an `int` that is widened. -/
def entryCluster (e : Buffer) : Nat :=
  let clus := getLE e 20 2 * 2 ^ 16 + getLE e 26 2
  if clus < 2 ^ 31 then clus else clus + (2 ^ 64 - 2 ^ 32)

/-- The node for slot `i` of cluster `clus`. -/
def foundNode (sb : SbInfo) (e : Buffer) (clus i : Nat) : FoundNode :=
  let fileSize := getLE e 28 4
  let node : FoundNode :=
    { fileSize := fileSize
      blocks := sub64 (add64 fileSize sb.bytePerClus) 1 / 2 ^ BYTE_PER_VSEC_SHIFT
      nodeAttribute := if e 11 = 0x10 then FS_ATTR_DIR else FS_ATTR_FILE
      sb := true
      firstCluster := entryCluster e
      dentryLocation := clus
      dentryPosition := i
      createDate := getLE e 16 2
      createTime := getLE e 14 2
      writeDate := getLE e 24 2
      writeTime := getLE e 22 2 }
  -- `memset(tnode, 0, sizeof(FAT32_inode_info))` clears the first 32 bytes of the node itself
  let node := { node with fileSize := 0, blocks := 0, nodeAttribute := 0, sb := false }
  if getLE e 20 2 / 2 ^ 12 ≠ 0 ∧ node.nodeAttribute &&& FS_ATTR_FILE ≠ 0 then
    { node with nodeAttribute := node.nodeAttribute ||| FS_ATTR_DEVICE }
  else node

/-! ## The loops -/

/-- What comes of some slots: a store outside `lname_buf`, an entry at an index, or `lname_buf` for the
slots that follow. -/
inductive Scan
  | outside
  | found (i : Nat)
  | next (lnameBuf : Buffer)

/-- The body of the loop over the slots, for slot `i`. -/
def lookupSlot (name : List UInt8) (e : Buffer) (i : Nat) (lnameBuf : Buffer) : Scan :=
  if slotLongName e then
    if longNameFits e then .next (putLongName e lnameBuf) else .outside
  else if lnameBuf 0 ≠ 0 then
    if name = cString lnameBuf then .found i else .next newBuffer
  else if 256 ≤ (fdn2sde name).length then .outside
  else if fdn2sde name = fsde e then .found i
  else .next newBuffer

/-- The loop over the slots, from index `i` on. -/
def lookupScan (name : List UInt8) : List Buffer → Nat → Buffer → Scan
  | [], _, lnameBuf => .next lnameBuf
  | e :: es, i, lnameBuf =>
      match lookupSlot name e i lnameBuf with
      | .outside => .outside
      | .found i => .found i
      | .next lnameBuf => lookupScan name es (i + 1) lnameBuf

/-- The first `n` slots of a buffer. -/
def slots (diskBuf : Buffer) (n : Nat) : List Buffer := (List.range n).map (slot diskBuf)

/-- The result of `fat32_lookup`; `outside` is a store outside `lname_buf`. -/
inductive LookupResult
  | outside
  | missing
  | found (node : FoundNode)

/-- `while(clus != 0)`. The option is none where the rounds have run out. -/
def lookupLoop (sb : SbInfo) (disk : Buffer) (name : List UInt8) :
    Nat → Nat → Buffer → Option LookupResult
  | 0, _, _ => none
  | fuel + 1, clus, lnameBuf =>
      if clus = 0 then some .missing
      else
        let diskBuf := ideRead disk (clusToLba sb clus) sb.secPerClus newBuffer
        match lookupScan name (slots diskBuf (sb.bytePerClus / DIRECTORY_SIZE)) 0 lnameBuf with
        | .outside => some .outside
        | .found i => some (.found (foundNode sb (slot diskBuf i) clus i))
        | .next lnameBuf => lookupLoop sb disk name fuel (fat32TableRead sb disk clus) lnameBuf

/-- `fat32_lookup` of a name, which ends at its first zero. -/
def fat32Lookup (sb : SbInfo) (disk : Buffer) (inode : Inode) (name : List UInt8) (fuel : Nat) :
    Option LookupResult :=
  lookupLoop sb disk (name.takeWhile (· ≠ 0)) fuel (inode.firstCluster % 2 ^ 28) newBuffer

end Talios
