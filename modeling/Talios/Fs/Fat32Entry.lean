import Talios.Fs.Fat32Slots

set_option autoImplicit false

/-! # The entry of a file

What `fat32_lookup` says about the entry it has found, and what `fat32_write_inode` writes back.
`fat32_lookup` clears the first fields of the node after it has set them, so that the node never
has the super block, and a file that is written back gets the size 0 (`fat32WriteInode_same_iff`).
-/

namespace Talios

open Bytes Word

/-! ## What the two functions are for -/

/-- The slot a node was made for. -/
def FoundNode.entry (sb : SbInfo) (disk : Buffer) (node : FoundNode) : Buffer :=
  slot (ideRead disk (clusToLba sb node.dentryLocation) sb.secPerClus newBuffer)
    node.dentryPosition

/-- The node as `fat32_write_inode` takes it. -/
def FoundNode.inode (node : FoundNode) : Inode :=
  ⟨node.fileSize, node.firstCluster, node.dentryLocation, node.dentryPosition, node.writeDate,
    node.writeTime⟩

/-- What the attributes of an entry stand for. -/
def entryKind (e : Buffer) : Nat :=
  if e 11 = 0x10 then FS_ATTR_DIR
  else if getLE e 20 2 / 2 ^ 12 ≠ 0 then FS_ATTR_FILE ||| FS_ATTR_DEVICE
  else FS_ATTR_FILE

/-- The node carries what the entry says. -/
structure NodeDecodes (e : Buffer) (clus i : Nat) (node : FoundNode) : Prop where
  fileSize : node.fileSize = getLE e 28 4
  firstCluster : node.firstCluster = getLE e 20 2 * 2 ^ 16 + getLE e 26 2
  kind : node.nodeAttribute = entryKind e
  sb : node.sb = true
  location : node.dentryLocation = clus
  position : node.dentryPosition = i

/-- The bytes of a cluster are as they were. -/
def ClusterSame (sb : SbInfo) (clus : Nat) (disk disk' : Buffer) : Prop :=
  ∀ j < sb.bytePerClus,
    disk' (clusToLba sb clus * BYTE_PER_VSEC + j) = disk (clusToLba sb clus * BYTE_PER_VSEC + j)

/-- Decoding and encoding agree: the node carries what the entry says, writing it back changes
nothing, and a new size and a new first cluster are found again, with everything outside the entry
as it was. -/
structure EntryAgrees (sb : SbInfo) (disk : Buffer) (inode : Inode) (name : List UInt8)
    (node : FoundNode) : Prop where
  decodes : NodeDecodes (node.entry sb disk) node.dentryLocation node.dentryPosition node
  same : ClusterSame sb node.dentryLocation disk (fat32WriteInode sb disk node.inode)
  changed : ∀ fileSize < 2 ^ 32, ∀ firstCluster < 2 ^ 28,
    let disk' := fat32WriteInode sb disk
      { node.inode with fileSize := fileSize, firstCluster := firstCluster }
    (∃ fuel node', fat32Lookup sb disk' inode name fuel = some (.found node') ∧
      node'.fileSize = fileSize ∧ node'.firstCluster = firstCluster) ∧
    ∀ a, ¬ (clusToLba sb node.dentryLocation * BYTE_PER_VSEC + node.dentryPosition * DIRECTORY_SIZE
          ≤ a ∧
        a < clusToLba sb node.dentryLocation * BYTE_PER_VSEC
          + (node.dentryPosition + 1) * DIRECTORY_SIZE) →
      disk' a = disk a

/-! ## The node that is found -/

/-- What `fat32_lookup` makes of a slot. -/
structure LookedUp (e : Buffer) (node : FoundNode) : Prop where
  fileSize : node.fileSize = 0
  blocks : node.blocks = 0
  nodeAttribute : node.nodeAttribute = 0
  sb : node.sb = false
  firstCluster : node.firstCluster = entryCluster e
  createDate : node.createDate = getLE e 16 2
  createTime : node.createTime = getLE e 14 2
  writeDate : node.writeDate = getLE e 24 2
  writeTime : node.writeTime = getLE e 22 2

section

variable {sb : SbInfo} {disk : Buffer} {name : List UInt8} {node : FoundNode}

theorem foundNode_lookedUp (e : Buffer) (clus i : Nat) : LookedUp e (foundNode sb e clus i) := by
  have hnot : ¬ (getLE e 20 2 / 2 ^ 12 ≠ 0 ∧ 0 &&& FS_ATTR_FILE ≠ 0) := fun h => h.2 rfl
  unfold foundNode
  dsimp only
  rw [if_neg hnot]
  constructor <;> rfl

/-- What is found is a slot of a cluster. -/
theorem lookupLoop_found : ∀ (fuel clus : Nat) (lnameBuf : Buffer),
    lookupLoop sb disk name fuel clus lnameBuf = some (.found node) →
    ∃ c i, i < sb.slotsPerClus ∧
      node = foundNode sb (slot (ideRead disk (clusToLba sb c) sb.secPerClus newBuffer) i) c i
  | 0, _, _, h => by cases h
  | fuel + 1, clus, lnameBuf, h => by
      rw [lookupLoop] at h
      by_cases hc : clus = 0
      · rw [if_pos hc] at h
        cases h
      rw [if_neg hc] at h
      dsimp only at h
      split at h
      · cases h
      · rename_i k hk
        have hlt := (lookupScan_found name _ _ _ hk).2
        rw [slots_length, Nat.zero_add] at hlt
        cases h
        exact ⟨clus, k, hlt, rfl⟩
      · exact lookupLoop_found fuel _ _ h

/-- **A node that is found** was made for its slot. -/
theorem fat32Lookup_found {inode : Inode} {fuel : Nat}
    (h : fat32Lookup sb disk inode name fuel = some (.found node)) :
    LookedUp (node.entry sb disk) node ∧ node.dentryPosition < sb.slotsPerClus := by
  rcases lookupLoop_found _ _ _ h with ⟨c, i, hi, rfl⟩
  unfold FoundNode.entry
  rw [foundNode_dentryLocation, foundNode_dentryPosition]
  exact ⟨foundNode_lookedUp _ _ _, hi⟩

/-- The halves of the first cluster are those of the entry, also where it has been extended. -/
theorem entryCluster_halves (e : Buffer) :
    entryCluster e / 2 ^ 16 % 256 ^ 2 = getLE e 20 2 ∧ entryCluster e % 256 ^ 2 = getLE e 26 2 := by
  have hhi := getLE_lt (f := e) 20 2
  have hlo := getLE_lt (f := e) 26 2
  unfold entryCluster
  dsimp only
  split
  · constructor <;> omega
  · constructor <;> omega

/-- What is written back: all fields are those of the entry, except for the size. -/
theorem writeInode_buffer (buf : Buffer) {i : Nat} (h : LookedUp (slot buf i) node) :
    putLE (putLE (putLE (putLE (putLE buf (i * DIRECTORY_SIZE + 28) 4 node.fileSize)
      (i * DIRECTORY_SIZE + 20) 2 (node.firstCluster / 2 ^ 16))
      (i * DIRECTORY_SIZE + 26) 2 node.firstCluster)
      (i * DIRECTORY_SIZE + 24) 2 node.writeDate)
      (i * DIRECTORY_SIZE + 22) 2 node.writeTime
    = putLE buf (i * DIRECTORY_SIZE + 28) 4 0 := by
  have hslot : ∀ k n, getLE (slot buf i) k n = getLE buf (i * DIRECTORY_SIZE + k) n :=
    fun k n => getLE_congr (fun j _ => by unfold slot; rw [Nat.add_assoc])
  have hhalves := entryCluster_halves (slot buf i)
  have hdate := getLE_lt (f := slot buf i) 24 2
  have htime := getLE_lt (f := slot buf i) 22 2
  have hput : ∀ (b : Buffer) (k v : Nat), v % 256 ^ 2 = getLE b (i * DIRECTORY_SIZE + k) 2 →
      putLE b (i * DIRECTORY_SIZE + k) 2 v = b := fun b k v hv => putLE_eq_self_iff.mpr hv
  have hkeep : ∀ k, k + 2 ≤ 28 →
      getLE (putLE buf (i * DIRECTORY_SIZE + 28) 4 0) (i * DIRECTORY_SIZE + k) 2
        = getLE (slot buf i) k 2 := by
    intro k hk
    rw [getLE_putLE_ne (by omega), hslot]
  rw [h.fileSize, h.firstCluster, h.writeDate, h.writeTime]
  rw [hput _ 20 _ (by rw [hkeep 20 (by omega)]; exact hhalves.1),
    hput _ 26 _ (by rw [hkeep 26 (by omega)]; exact hhalves.2),
    hput _ 24 _ (by rw [hkeep 24 (by omega)]; exact Nat.mod_eq_of_lt hdate),
    hput _ 22 _ (by rw [hkeep 22 (by omega)]; exact Nat.mod_eq_of_lt htime)]

/-- **Writing a node back** that was looked up leaves the cluster as it was exactly if the entry has the
size 0. -/
theorem fat32WriteInode_same_iff {inode : Inode} {fuel : Nat}
    (h : fat32Lookup sb disk inode name fuel = some (.found node)) :
    ClusterSame sb node.dentryLocation disk (fat32WriteInode sb disk node.inode) ↔
      getLE (node.entry sb disk) 28 4 = 0 := by
  rcases fat32Lookup_found h with ⟨hl, hi⟩
  have hbytes := sb.bytePerClus_eq_mul
  have hend : node.dentryPosition * DIRECTORY_SIZE + 32 ≤ sb.bytePerClus := by
    rw [sb.bytePerClus_slots]
    unfold DIRECTORY_SIZE
    omega
  let buf := ideRead disk (clusToLba sb node.dentryLocation) sb.secPerClus newBuffer
  have hbuf : ∀ j < sb.bytePerClus,
      buf j = disk (clusToLba sb node.dentryLocation * BYTE_PER_VSEC + j) :=
    fun j hj => overlay_zero_left (by omega)
  have hdisk : ∀ j < sb.bytePerClus, fat32WriteInode sb disk node.inode
      (clusToLba sb node.dentryLocation * BYTE_PER_VSEC + j)
        = putLE buf (node.dentryPosition * DIRECTORY_SIZE + 28) 4 0 j := by
    intro j hj
    have hwrite := writeInode_buffer buf hl
    unfold fat32WriteInode FoundNode.inode
    dsimp only
    rw [show ideRead disk (clusToLba sb node.dentryLocation) sb.secPerClus newBuffer = buf from rfl,
      hwrite]
    unfold ideWrite
    rw [overlay_of_mem (by omega) (by omega), Nat.add_sub_cancel_left]
  have hsize : getLE (node.entry sb disk) 28 4
      = getLE buf (node.dentryPosition * DIRECTORY_SIZE + 28) 4 :=
    getLE_congr (fun j _ => by rw [Nat.add_assoc]; rfl)
  have hself := putLE_eq_self_iff (f := buf) (i := node.dentryPosition * DIRECTORY_SIZE + 28)
    (n := 4) (v := 0)
  rw [hsize]
  constructor
  · intro hsame
    refine (hself.mp ?_).symm
    funext j
    by_cases hj : j < sb.bytePerClus
    · rw [← hdisk j hj, hsame j hj, hbuf j hj]
    · exact putLE_of_not_mem (by omega)
  · intro hzero j hj
    rw [hdisk j hj, hself.mpr (by rw [hzero, Nat.zero_mod]), hbuf j hj]

theorem entryCluster_eq_iff (e : Buffer) :
    entryCluster e = getLE e 20 2 * 2 ^ 16 + getLE e 26 2 ↔ getLE e 20 2 < 2 ^ 15 := by
  have hhi := getLE_lt (f := e) 20 2
  have hlo := getLE_lt (f := e) 26 2
  unfold entryCluster
  dsimp only
  split
  · constructor <;> omega
  · constructor <;> omega

theorem entryKind_eq_zero_iff (e : Buffer) : 0 = entryKind e ↔ e 11 = 0x10 := by
  unfold entryKind
  split
  · rename_i h
    exact iff_of_true rfl h
  · rename_i h
    split
    · exact iff_of_false (by decide) h
    · exact iff_of_false (by decide) h

/-- **Decoding and encoding never agree**: the node that is found has no super block. Its size is that of
the entry where that is 0, its first cluster where that is no negative `int`, and its attributes for
directories; and the entry that is written back is the old one where the size is 0. -/
theorem fat32Lookup_not_agrees {inode : Inode} {fuel : Nat}
    (h : fat32Lookup sb disk inode name fuel = some (.found node)) :
    ¬ EntryAgrees sb disk inode name node ∧
    (node.fileSize = getLE (node.entry sb disk) 28 4 ↔ getLE (node.entry sb disk) 28 4 = 0) ∧
    (node.firstCluster = getLE (node.entry sb disk) 20 2 * 2 ^ 16 + getLE (node.entry sb disk) 26 2 ↔
      getLE (node.entry sb disk) 20 2 < 2 ^ 15) ∧
    (node.nodeAttribute = entryKind (node.entry sb disk) ↔ node.entry sb disk 11 = 0x10) ∧
    (ClusterSame sb node.dentryLocation disk (fat32WriteInode sb disk node.inode) ↔
      getLE (node.entry sb disk) 28 4 = 0) := by
  have hl := (fat32Lookup_found h).1
  refine ⟨fun hagree => ?_, ?_, ?_, ?_, fat32WriteInode_same_iff h⟩
  · exact absurd (hagree.decodes.sb.symm.trans hl.sb) (by decide)
  · rw [hl.fileSize]
    exact eq_comm
  · rw [hl.firstCluster]
    exact entryCluster_eq_iff _
  · rw [hl.nodeAttribute]
    exact entryKind_eq_zero_iff _

end

/-- A directory with the file `A`, of 100 bytes. -/
def entryDisk : Buffer := fun a =>
  if a < 34 * 512 then 0xff
  else if a = 34 * 512 then 65
  else if a < 34 * 512 + 11 then 32
  else if a = 34 * 512 + 11 then 0x20
  else if a = 34 * 512 + 26 then 5
  else if a = 34 * 512 + 28 then 100
  else 0

def entryDir : Inode := ⟨0, 2, 0, 0, 0, 0⟩

/-- The file is found. -/
def entryNode : FoundNode := ⟨0, 0, 0, false, 5, 2, 0, 0, 0, 0, 0⟩

theorem entryNode_found :
    fat32Lookup exampleSb entryDisk entryDir [65] 1 = some (.found entryNode) := by
  let buf := ideRead entryDisk (clusToLba exampleSb 2) 1 newBuffer
  have hslot : lookupSlot [65] (slot buf 0) 0 newBuffer = .found 0 := by
    unfold lookupSlot
    rw [if_neg (by decide), if_neg (by decide), if_neg (by decide), if_pos (by decide +kernel)]
  have hscan : lookupScan [65] (slots buf 16) 0 newBuffer = .found 0 := by
    show lookupScan [65] (slot buf 0 :: _) 0 newBuffer = _
    rw [lookupScan, hslot]
  have hnode : foundNode exampleSb (slot buf 0) 2 0 = entryNode := by decide +kernel
  have hname : List.takeWhile (· ≠ 0) [(65 : UInt8)] = [65] := by decide
  have hclus : entryDir.firstCluster % 2 ^ 28 = 2 := by decide
  unfold fat32Lookup
  rw [hname, hclus, lookupLoop, if_neg (by decide)]
  dsimp only
  rw [show lookupScan [65] (slots (ideRead entryDisk (clusToLba exampleSb 2) exampleSb.secPerClus
    newBuffer) (exampleSb.bytePerClus / DIRECTORY_SIZE)) 0 newBuffer = .found 0 from hscan]
  exact congrArg (fun n => some (LookupResult.found n)) hnode

theorem fat32Lookup_not_agrees_example :
    ¬ EntryAgrees exampleSb entryDisk entryDir [65] entryNode :=
  (fat32Lookup_not_agrees entryNode_found).1

/-- The file has lost its size, its attributes and its super block. -/
theorem fat32Lookup_loses_size : ¬ ∀ (sb : SbInfo) (disk : Buffer) (inode : Inode)
    (name : List UInt8) (fuel : Nat) (node : FoundNode),
    fat32Lookup sb disk inode name fuel = some (.found node) →
    EntryAgrees sb disk inode name node := by
  intro hall
  have h := (hall exampleSb entryDisk entryDir [65] 1 entryNode entryNode_found).decodes.fileSize
  have hsize : getLE (entryNode.entry exampleSb entryDisk) 28 4 = 100 := by decide +kernel
  rw [hsize] at h
  exact absurd h (by decide)

end Talios
