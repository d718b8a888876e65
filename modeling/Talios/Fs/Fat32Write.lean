import Talios.Fs.Fat32Copy

set_option autoImplicit false

/-! # What a write changes

`fat32_write` takes the cluster `first_cluster + position / byte_per_clus` and writes every round to
it. `fat32Write_contents` says when the file then has the bytes that were written, and
`fat32Write_isolated` when no other file or directory has changed.
-/

namespace Talios

open Bytes Word

/-! ## Clusters on the disk -/

/-- Where a cluster starts on the disk. -/
def clusterAddr (sb : SbInfo) (c : Nat) : Nat :=
  sb.fstDataSector * BYTE_PER_VSEC + (c - 2) * sb.bytePerClus

/-- Byte `i` of a cluster. -/
def clusterByte (sb : SbInfo) (disk : Buffer) (c i : Nat) : UInt8 := disk (clusterAddr sb c + i)

section

variable {sb : SbInfo} {disk d : Buffer} {c c' i j : Nat}

theorem clusToLba_mul (h2 : 2 ≤ c) (hc : c < 2 ^ 40) :
    clusToLba sb c * BYTE_PER_VSEC = clusterAddr sb c := by
  rw [clusToLba_eq h2 hc, clusterAddr, sb.bytePerClus_eq_mul]
  ring

/-- Clusters do not overlap. -/
theorem clusterAddr_inj (h2 : 2 ≤ c) (h2' : 2 ≤ c') (hi : i < sb.bytePerClus)
    (hj : j < sb.bytePerClus) (h : clusterAddr sb c + i = clusterAddr sb c' + j) :
    c = c' ∧ i = j := by
  unfold clusterAddr at h
  have hb : 0 < sb.bytePerClus := by omega
  have heq : i + (c - 2) * sb.bytePerClus = j + (c' - 2) * sb.bytePerClus := by omega
  have hdiv := congrArg (· / sb.bytePerClus) heq
  rw [Nat.add_mul_div_right _ _ hb, Nat.add_mul_div_right _ _ hb, Nat.div_eq_of_lt hi,
    Nat.div_eq_of_lt hj] at hdiv
  have hcc : c = c' := by omega
  rw [hcc] at heq
  exact ⟨hcc, by omega⟩

theorem ideRead_cluster (h2 : 2 ≤ c) (hc : c < 2 ^ 40) (b : Buffer) (hi : i < sb.bytePerClus) :
    ideRead disk (clusToLba sb c) sb.secPerClus b i = clusterByte sb disk c i := by
  rw [ideRead, overlay_zero_left (by rw [← sb.bytePerClus_eq_mul]; exact hi), clusToLba_mul h2 hc,
    clusterByte]

theorem clusterByte_ideWrite (h2 : 2 ≤ c) (hc : c < 2 ^ 40) (b : Buffer)
    (hi : i < sb.bytePerClus) :
    clusterByte sb (ideWrite disk (clusToLba sb c) sb.secPerClus b) c i = b i := by
  rw [clusterByte, ideWrite, clusToLba_mul h2 hc, ← sb.bytePerClus_eq_mul,
    overlay_of_mem (Nat.le_add_right _ _) (by omega), Nat.add_sub_cancel_left]

theorem clusterByte_ideWrite_ne (h2 : 2 ≤ c) (hc : c < 2 ^ 40) (h2' : 2 ≤ c') (hne : c' ≠ c)
    (b : Buffer) (hi : i < sb.bytePerClus) :
    clusterByte sb (ideWrite disk (clusToLba sb c) sb.secPerClus b) c' i
      = clusterByte sb disk c' i := by
  rw [clusterByte, ideWrite, clusToLba_mul h2 hc, ← sb.bytePerClus_eq_mul, overlay_of_not_mem]
  · rfl
  · rintro ⟨h1, h3⟩
    have h4 : clusterAddr sb c' + i = clusterAddr sb c + (clusterAddr sb c' + i - clusterAddr sb c) :=
      by omega
    exact hne (clusterAddr_inj h2' h2 hi (by omega) h4).1

/-- `fat32_write_inode` changes the entry of the file, and nothing else. -/
theorem clusterByte_writeInode {inode : Inode} (h2 : 2 ≤ inode.dentryLocation)
    (hc : inode.dentryLocation < 2 ^ 40) (h2' : 2 ≤ c') (hi : i < sb.bytePerClus)
    (hne : c' = inode.dentryLocation → i < inode.dentryPosition * DIRECTORY_SIZE ∨
      inode.dentryPosition * DIRECTORY_SIZE + DIRECTORY_SIZE ≤ i) :
    clusterByte sb (fat32WriteInode sb disk inode) c' i = clusterByte sb disk c' i := by
  unfold fat32WriteInode
  dsimp only
  by_cases hcc : c' = inode.dentryLocation
  · have hout := hne hcc
    unfold DIRECTORY_SIZE at *
    subst hcc
    rw [clusterByte_ideWrite h2 hc _ hi]
    unfold putLE
    rw [overlay_of_not_mem (by omega), overlay_of_not_mem (by omega), overlay_of_not_mem (by omega),
      overlay_of_not_mem (by omega), overlay_of_not_mem (by omega), ideRead_cluster h2 hc _ hi]
  · exact clusterByte_ideWrite_ne h2 hc h2' hcc _ hi

end

/-! ## The loop -/

section

variable {sb : SbInfo} {mem : Buffer} {buf lba : Nat}

/-- Every round writes to the same place. -/
theorem fat32WriteLoop_disk : ∀ (fuel : Nat) (s : WriteLoop),
    (fat32WriteLoop sb mem buf lba (fuel + 1) s).disk = ideWrite s.disk lba sb.secPerClus
      (fat32WriteLoop sb mem buf lba (fuel + 1) s).buffer := by
  intro fuel
  induction fuel with
  | zero =>
      intro s
      rw [show fat32WriteLoop sb mem buf lba 1 s = fat32WriteStep sb mem buf lba s from ite_self _]
      rfl
  | succ fuel ih =>
      intro s
      rw [fat32WriteLoop]
      split
      · rw [ih]
        exact overlay_overlay
      · rfl

theorem fat32WriteStep_of_mem {x : Nat} {s : WriteLoop}
    (hcp : copies (add64 buf s.offset) (add64 buf s.index) (chunk sb s.remainder s.offset) = true)
    (hx : s.offset ≤ x) (hx' : x < s.offset + chunk sb s.remainder s.offset) :
    (fat32WriteStep sb mem buf lba s).buffer x = mem (add64 buf (s.index + (x - s.offset))) := by
  show (if _ then _ else _ : Buffer) x = _
  rw [if_pos hcp, overlay_of_mem hx hx', bytesAt, add64, add64, Nat.mod_add_mod, Nat.add_assoc]
  rfl

theorem fat32WriteStep_of_not {x : Nat} {s : WriteLoop}
    (h : copies (add64 buf s.offset) (add64 buf s.index) (chunk sb s.remainder s.offset) = true →
      ¬ (s.offset ≤ x ∧ x < s.offset + chunk sb s.remainder s.offset)) :
    (fat32WriteStep sb mem buf lba s).buffer x = s.buffer x := by
  show (if _ then _ else _ : Buffer) x = _
  split
  · rename_i hcp
    exact overlay_of_not_mem (h hcp)
  · rfl

/-- Memory holds only `v` where the rest of the copy comes from. -/
def OnlyByte (mem : Buffer) (buf : Nat) (v : UInt8) (s : WriteLoop) : Prop :=
  ∀ i, s.index ≤ i → i < s.index + s.remainder → mem (add64 buf i) = v

theorem OnlyByte.step {v : UInt8} {s : WriteLoop} (h : OnlyByte mem buf v s) :
    OnlyByte mem buf v (fat32WriteStep sb mem buf lba s) := by
  intro i h1 h2
  have hcr := chunk_le_remainder sb s.remainder s.offset
  have h1 : s.index + chunk sb s.remainder s.offset ≤ i := h1
  have h2 : i < s.index + chunk sb s.remainder s.offset
    + (s.remainder - chunk sb s.remainder s.offset) := h2
  exact h i (by omega) (by omega)

/-- A byte of the buffer that has the value `v` keeps it. -/
theorem fat32WriteLoop_keep {x : Nat} {v : UInt8} : ∀ (fuel : Nat) (s : WriteLoop),
    s.buffer x = v → OnlyByte mem buf v s →
    (fat32WriteLoop sb mem buf lba fuel s).buffer x = v := by
  intro fuel
  induction fuel with
  | zero => exact fun s h _ => h
  | succ fuel ih =>
      intro s hx hm
      have hcr := chunk_le_remainder sb s.remainder s.offset
      have hstep : (fat32WriteStep sb mem buf lba s).buffer x = v := by
        by_cases hin : copies (add64 buf s.offset) (add64 buf s.index)
            (chunk sb s.remainder s.offset) = true ∧
            s.offset ≤ x ∧ x < s.offset + chunk sb s.remainder s.offset
        · rw [fat32WriteStep_of_mem hin.1 hin.2.1 hin.2.2]
          exact hm _ (by omega) (by omega)
        · rw [fat32WriteStep_of_not (fun hcp h => hin ⟨hcp, h⟩)]
          exact hx
      rw [fat32WriteLoop]
      split
      · exact ih _ hstep hm.step
      · exact hstep

/-- A byte that the first round writes. -/
theorem fat32WriteLoop_first {x : Nat} {v : UInt8} (fuel : Nat) (s : WriteLoop)
    (hcp : copies (add64 buf s.offset) (add64 buf s.index) (chunk sb s.remainder s.offset) = true)
    (hx : s.offset ≤ x) (hx' : x < s.offset + chunk sb s.remainder s.offset)
    (hm : OnlyByte mem buf v s) : (fat32WriteLoop sb mem buf lba (fuel + 1) s).buffer x = v := by
  have hcr := chunk_le_remainder sb s.remainder s.offset
  have hstep : (fat32WriteStep sb mem buf lba s).buffer x = v := by
    rw [fat32WriteStep_of_mem hcp hx hx']
    exact hm _ (by omega) (by omega)
  rw [fat32WriteLoop]
  split
  · exact fat32WriteLoop_keep _ _ hstep hm.step
  · exact hstep

/-- A write that goes to the end of the cluster at most is made in one round. -/
theorem fat32WriteLoop_one (fuel : Nat) {s : WriteLoop}
    (h : s.offset + s.remainder ≤ sb.bytePerClus) :
    fat32WriteLoop sb mem buf lba (fuel + 1) s = fat32WriteStep sb mem buf lba s ∧
      chunk sb s.remainder s.offset = s.remainder := by
  have hc : chunk sb s.remainder s.offset = s.remainder := by
    unfold chunk
    omega
  refine ⟨?_, hc⟩
  rw [fat32WriteLoop, if_neg]
  rintro ⟨h1, -⟩
  exact h1 (show s.remainder - chunk sb s.remainder s.offset = 0 by omega)

end

/-! ## Files -/

/-- A cluster that has an entry in the file allocation table. -/
def DataCluster (sb : SbInfo) (c : Nat) : Prop := 2 ≤ c ∧ c < sb.secPerFat * 128

instance (sb : SbInfo) (c : Nat) : Decidable (DataCluster sb c) :=
  inferInstanceAs (Decidable (_ ∧ _))

/-- The file has a valid chain of clusters, and an entry in a directory whose clusters are not of the
chain. -/
structure FileChain (sb : SbInfo) (disk : Buffer) (inode : Inode) (chain : List Nat) : Prop where
  first : inode.firstCluster = chain.headD 0
  linked : chain.IsChain (fun c c' => fat32TableRead sb disk c = c')
  last : ∀ c ∈ chain.getLast?, fat32TableRead sb disk c = 0
  cluster : ∀ c ∈ chain, DataCluster sb c
  nodup : chain.Nodup
  size : inode.fileSize ≤ chain.length * sb.bytePerClus
  dentry : DataCluster sb inode.dentryLocation
  notMem : inode.dentryLocation ∉ chain
  slot : (inode.dentryPosition + 1) * DIRECTORY_SIZE ≤ sb.bytePerClus

/-- Byte `q` of the file with a chain. -/
def fileByte (sb : SbInfo) (disk : Buffer) (chain : List Nat) (q : Nat) : Option UInt8 :=
  (chain[q / sb.bytePerClus]?).map (fun c => clusterByte sb disk c (q % sb.bytePerClus))

section

variable {sb : SbInfo} {disk : Buffer} {inode : Inode} {chain : List Nat} {position : Nat}

theorem DataCluster.lt {c : Nat} (h : DataCluster sb c) : c < 2 ^ 39 := by
  have h1 := sb.fstDataSector_lt
  have h2 := sb.fstDataSector_eq
  have h3 : 1 * sb.secPerFat ≤ sb.fatNum * sb.secPerFat :=
    Nat.mul_le_mul_right _ sb.fatNum_pos
  have := h.2
  omega

theorem FileChain.length_le (h : FileChain sb disk inode chain) : chain.length ≤ 2 ^ 39 := by
  have hsub : chain ⊆ List.range (2 ^ 39) := fun c hc => List.mem_range.mpr (h.cluster c hc).lt
  have := (List.subperm_of_subset h.nodup hsub).length_le
  rwa [List.length_range] at this

theorem FileChain.firstCluster_lt (h : FileChain sb disk inode chain) :
    inode.firstCluster < 2 ^ 39 := by
  rw [h.first]
  cases chain with
  | nil => simp
  | cons c l => exact (h.cluster c List.mem_cons_self).lt

/-- The cluster at which a write starts. -/
theorem FileChain.startCluster_eq (h : FileChain sb disk inode chain)
    (hp : position ≤ inode.fileSize) :
    position / sb.bytePerClus ≤ chain.length ∧
    startCluster sb inode position = inode.firstCluster + position / sb.bytePerClus ∧
    startCluster sb inode position < 2 ^ 40 ∧
    (startCluster sb inode position ≠ 0 → 2 ≤ startCluster sb inode position) := by
  have hlen := h.length_le
  have hfst := h.firstCluster_lt
  have hb := sb.bytePerClus_ge
  have hk : position / sb.bytePerClus ≤ chain.length :=
    Nat.div_le_of_le_mul ((hp.trans h.size).trans_eq (Nat.mul_comm _ _))
  have heq : startCluster sb inode position
      = inode.firstCluster + position / sb.bytePerClus := by
    unfold startCluster
    exact add64_eq (by omega)
  refine ⟨hk, heq, by omega, fun h0 => ?_⟩
  rw [heq] at h0 ⊢
  cases chain with
  | nil =>
      have h1 := h.first
      simp only [List.headD_nil] at h1
      simp only [List.length_nil, Nat.le_zero] at hk
      omega
  | cons c l =>
      have h1 := (h.cluster c List.mem_cons_self).1
      rw [h.first, List.headD_cons]
      exact h1.trans (Nat.le_add_right _ _)

/-- The loop of a write to a cluster. -/
def writeLoop (sb : SbInfo) (disk mem : Buffer) (buf count position clus : Nat) : WriteLoop :=
  fat32WriteLoop sb mem buf (clusToLba sb clus) (count + 1)
    ⟨clus, count, 0, position % sb.bytePerClus,
      ideRead disk (clusToLba sb clus) sb.secPerClus newBuffer, disk, []⟩

/-- The directory entry of the file: its bytes in the cluster of the directory. -/
def InEntry (inode : Inode) (i : Nat) : Prop :=
  inode.dentryPosition * DIRECTORY_SIZE ≤ i ∧
    i < inode.dentryPosition * DIRECTORY_SIZE + DIRECTORY_SIZE

/-- The end of a write, after the loop. -/
def writeEnd (sb : SbInfo) (inode : Inode) (position : Nat) (s : WriteLoop) : Written :=
  if inode.fileSize < add64 position s.index then
    ⟨fat32WriteInode sb s.disk { inode with fileSize := add64 position s.index },
      { inode with fileSize := add64 position s.index }⟩
  else ⟨s.disk, inode⟩

theorem fat32Write_of_ne (mem : Buffer) (buf count : Nat) (h0 : startCluster sb inode position ≠ 0) :
    fat32Write sb disk inode mem buf count position
      = (writeEnd sb inode position
          (writeLoop sb disk mem buf count position (startCluster sb inode position)),
        ⟨if (writeLoop sb disk mem buf count position (startCluster sb inode position)).remainder = 0
          then some (toInt
            (writeLoop sb disk mem buf count position (startCluster sb inode position)).index)
          else none,
        add64 position
          (writeLoop sb disk mem buf count position (startCluster sb inode position)).index,
        (writeLoop sb disk mem buf count position (startCluster sb inode position)).areas⟩) := by
  unfold fat32Write
  dsimp only
  rw [if_neg h0]
  unfold writeEnd
  by_cases hg : inode.fileSize < add64 position
      (writeLoop sb disk mem buf count position (startCluster sb inode position)).index
  · rw [if_pos hg]
    exact if_pos hg
  · rw [if_neg hg]
    exact if_neg hg

theorem fat32Write_of_zero (mem : Buffer) (buf count : Nat)
    (h0 : startCluster sb inode position = 0) :
    fat32Write sb disk inode mem buf count position
      = (⟨disk, inode⟩, ⟨some (-(ENOSPC : Int)), position, []⟩) := by
  unfold fat32Write
  dsimp only
  rw [if_pos h0, if_pos (fat32FindNextAvaliableCluster_eq sb disk)]

/-- **What a write changes**: the cluster at which it starts, and the entry of the file. -/
theorem FileChain.clusterByte_write (h : FileChain sb disk inode chain)
    (hp : position ≤ inode.fileSize) (h0 : startCluster sb inode position ≠ 0) (mem : Buffer)
    (buf count : Nat) {c i : Nat} (h2 : 2 ≤ c) (hi : i < sb.bytePerClus)
    (hD : c = inode.dentryLocation → ¬ InEntry inode i) :
    clusterByte sb (fat32Write sb disk inode mem buf count position).1.disk c i
      = if c = startCluster sb inode position
        then (writeLoop sb disk mem buf count position c).buffer i
        else clusterByte sb disk c i := by
  obtain ⟨-, -, hlt, hge⟩ := h.startCluster_eq hp
  have hdisk : clusterByte sb
      (writeLoop sb disk mem buf count position (startCluster sb inode position)).disk c i
      = if c = startCluster sb inode position
        then (writeLoop sb disk mem buf count position c).buffer i
        else clusterByte sb disk c i := by
    unfold writeLoop
    rw [fat32WriteLoop_disk]
    split
    · rename_i hc
      rw [hc]
      exact clusterByte_ideWrite (hge h0) hlt _ hi
    · rename_i hc
      exact clusterByte_ideWrite_ne (hge h0) hlt h2 hc _ hi
  rw [fat32Write_of_ne mem buf count h0]
  dsimp only
  generalize writeLoop sb disk mem buf count position (startCluster sb inode position) = s at hdisk ⊢
  unfold writeEnd
  split
  · have hDlt := h.dentry.lt
    refine (@clusterByte_writeInode sb s.disk c i
      { inode with fileSize := add64 position s.index } h.dentry.1 (by dsimp only; omega) h2 hi
      (fun hc => ?_)).trans hdisk
    have := hD hc
    unfold InEntry at this
    dsimp only
    omega
  · exact hdisk

/-- The file allocation table is not written. -/
theorem FileChain.sameTable_write (h : FileChain sb disk inode chain)
    (hp : position ≤ inode.fileSize) (mem : Buffer) (buf count : Nat) :
    SameTable sb disk (fat32Write sb disk inode mem buf count position).1.disk := by
  by_cases h0 : startCluster sb inode position = 0
  · rw [fat32Write_of_zero mem buf count h0]
    exact fun _ _ => rfl
  obtain ⟨-, -, hlt, hge⟩ := h.startCluster_eq hp
  have hl : ∀ c, 2 ≤ c → c < 2 ^ 40 → sb.fstDataSector ≤ clusToLba sb c := by
    intro c h2 hc
    rw [clusToLba_eq h2 hc]
    exact Nat.le_add_right _ _
  have hdisk : SameTable sb disk
      (writeLoop sb disk mem buf count position (startCluster sb inode position)).disk := by
    unfold writeLoop
    rw [fat32WriteLoop_disk]
    exact sameTable_ideWrite (fun _ _ => rfl) (hl _ (hge h0) hlt)
  rw [fat32Write_of_ne mem buf count h0]
  have hDlt := h.dentry.lt
  dsimp only
  generalize writeLoop sb disk mem buf count position (startCluster sb inode position) = s at hdisk ⊢
  unfold writeEnd
  split
  · exact sameTable_ideWrite hdisk (hl _ h.dentry.1 (by dsimp only; omega))
  · exact hdisk

end

/-! ## Isolation -/

/-- A cluster without a successor that the write has linked to the file. -/
def NewlyLinked (sb : SbInfo) (disk : Buffer) (w : Written) (chain : List Nat) (c : Nat) : Prop :=
  fat32TableRead sb disk c = 0 ∧
    ((∃ c' ∈ chain, fat32TableRead sb w.disk c' = c) ∨ w.inode.firstCluster = c)

/-- Of the data clusters that are not of the chain and not newly linked to it, nothing has changed but
the entry of the file; their entries in the table are as before. -/
structure Isolated (sb : SbInfo) (disk : Buffer) (inode : Inode) (chain : List Nat)
    (w : Written) : Prop where
  table : ∀ c, DataCluster sb c → c ∉ chain → ¬ NewlyLinked sb disk w chain c →
    fat32TableRead sb w.disk c = fat32TableRead sb disk c
  data : ∀ c, DataCluster sb c → c ∉ chain → ¬ NewlyLinked sb disk w chain c →
    ∀ i < sb.bytePerClus, clusterByte sb w.disk c i = clusterByte sb disk c i ∨
      c = inode.dentryLocation ∧ InEntry inode i

/-- The cluster is the one with the entry of the file, and the write stays in the entry. -/
def OnlyEntry (sb : SbInfo) (disk : Buffer) (inode : Inode) (clus offset count : Nat) : Prop :=
  clus = inode.dentryLocation ∧ InEntry inode offset ∧
  offset + chunk sb count offset ≤ inode.dentryPosition * DIRECTORY_SIZE + DIRECTORY_SIZE ∧
  (count = chunk sb count offset ∨ fat32TableRead sb disk clus = 0)

section

variable {sb : SbInfo} {disk : Buffer} {inode : Inode} {chain : List Nat} {position : Nat}

theorem copies_zero (sb : SbInfo) {o i r : Nat} (ho : o < sb.bytePerClus) (hi : i < 2 ^ 40) :
    copies (add64 0 o) (add64 0 i) (chunk sb r o) = true := by
  have hlt := sb.bytePerClus_lt
  have hc := chunk_le sb r o
  have h0 : ∀ x < 2 ^ 41, add64 0 x = x := fun x hx => by rw [add64_eq (by omega), Nat.zero_add]
  unfold copies
  split
  · rw [h0 i (by omega)]
    refine decide_eq_true ?_
    unfold TASK_SIZE
    rw [add64_eq (by omega)]
    omega
  · rfl

/-- Two rounds are made. -/
theorem writeLoop_two {mem : Buffer} {buf count clus : Nat} (h2 : 2 ≤ clus) (hc : clus < 2 ^ 40)
    (he : clus < sb.entries)
    (hr : count ≠ chunk sb count (position % sb.bytePerClus))
    (hn : fat32TableRead sb disk clus ≠ 0) :
    ∃ s : WriteLoop, writeLoop sb disk mem buf count position clus
        = fat32WriteLoop sb mem buf (clusToLba sb clus) (count - 1 + 1) s ∧ s.offset = 0 ∧
      s.index = sb.bytePerClus - position % sb.bytePerClus ∧ s.remainder = count - s.index ∧
      0 < s.remainder := by
  have hcr := chunk_le_remainder sb count (position % sb.bytePerClus)
  have hce := chunk_eq sb (lt_of_le_of_ne hcr (Ne.symm hr))
  unfold writeLoop
  rw [fat32WriteLoop, if_pos]
  · refine ⟨_, by rw [Nat.sub_add_cancel (by omega)], rfl, ?_, ?_, ?_⟩
    · show 0 + chunk sb count (position % sb.bytePerClus) = _
      omega
    · show count - chunk sb count (position % sb.bytePerClus)
        = count - (0 + chunk sb count (position % sb.bytePerClus))
      omega
    · show 0 < count - chunk sb count (position % sb.bytePerClus)
      omega
  · refine ⟨?_, ?_⟩
    · show count - chunk sb count (position % sb.bytePerClus) ≠ 0
      omega
    · have hst : ∀ b : Buffer, SameTable sb disk (ideWrite disk (clusToLba sb clus) sb.secPerClus b) :=
        fun b => sameTable_ideWrite (fun _ _ => rfl)
          (by rw [clusToLba_eq h2 hc]; exact Nat.le_add_right _ _)
      show fat32TableRead sb (ideWrite disk _ _ _) clus ≠ 0
      rw [fat32TableRead_congr (hst _) he]
      exact hn

/-- One round, or the chain ends behind it: what lies outside the area of the round stays. -/
theorem writeLoop_buffer_of_not {mem : Buffer} {buf count clus i : Nat} (h2 : 2 ≤ clus)
    (hc : clus < 2 ^ 40) (hi : i < sb.bytePerClus)
    (hone : count = chunk sb count (position % sb.bytePerClus) ∨
      clus < sb.entries ∧ fat32TableRead sb disk clus = 0)
    (hout : ¬ (position % sb.bytePerClus ≤ i ∧
      i < position % sb.bytePerClus + chunk sb count (position % sb.bytePerClus))) :
    (writeLoop sb disk mem buf count position clus).buffer i = clusterByte sb disk clus i := by
  unfold writeLoop
  rw [fat32WriteLoop, if_neg]
  · rw [fat32WriteStep_of_not (fun _ => hout)]
    exact ideRead_cluster h2 hc _ hi
  · rintro ⟨h1, h3⟩
    have h1 : count - chunk sb count (position % sb.bytePerClus) ≠ 0 := h1
    have hst : ∀ b : Buffer, SameTable sb disk (ideWrite disk (clusToLba sb clus) sb.secPerClus b) :=
      fun b => sameTable_ideWrite (fun _ _ => rfl)
        (by rw [clusToLba_eq h2 hc]; exact Nat.le_add_right _ _)
    have h3 : fat32TableRead sb (ideWrite disk _ _ _) clus ≠ 0 := h3
    rcases hone with hone | ⟨he, hone⟩
    · omega
    · rw [fat32TableRead_congr (hst _) he] at h3
      exact h3 hone

theorem DataCluster.entries {c : Nat} (h : DataCluster sb c) : c < sb.entries := by
  have h3 : 1 * sb.secPerFat ≤ sb.fatNum * sb.secPerFat :=
    Nat.mul_le_mul_right _ sb.fatNum_pos
  have := h.2
  unfold SbInfo.entries
  omega

theorem next_mem {l : List Nat} {f : Nat → Nat} (hl : l.IsChain (fun c c' => f c = c'))
    (hlast : ∀ c ∈ l.getLast?, f c = 0) : ∀ c ∈ l, f c = 0 ∨ f c ∈ l := by
  induction l with
  | nil => exact fun c hc => absurd hc (by simp)
  | cons a l ih =>
      intro c hc
      cases l with
      | nil =>
          rw [List.mem_singleton.mp hc]
          exact Or.inl (hlast a rfl)
      | cons b l =>
          obtain ⟨hab, hl⟩ := List.isChain_cons_cons.mp hl
          rcases List.mem_cons.mp hc with rfl | hc
          · exact Or.inr (by rw [hab]; simp)
          · exact (ih hl hlast c hc).imp_right (List.mem_cons_of_mem a)

/-- No cluster is ever linked to a file. -/
theorem FileChain.not_newlyLinked (h : FileChain sb disk inode chain)
    (hp : position ≤ inode.fileSize) (h0 : startCluster sb inode position ≠ 0) (mem : Buffer)
    (buf count : Nat) {c : Nat} (hc : DataCluster sb c) (hmem : c ∉ chain) :
    ¬ NewlyLinked sb disk (fat32Write sb disk inode mem buf count position).1 chain c := by
  obtain ⟨hk, heq, -, -⟩ := h.startCluster_eq hp
  rintro ⟨-, ⟨c', hc', hn⟩ | hf⟩
  · rw [fat32TableRead_congr (h.sameTable_write hp mem buf count) (h.cluster c' hc').entries] at hn
    rcases next_mem h.linked h.last c' hc' with h1 | h1
    · have := hc.1
      omega
    · exact hmem (hn ▸ h1)
  · have hfirst : (fat32Write sb disk inode mem buf count position).1.inode.firstCluster
        = inode.firstCluster := by
      rw [fat32Write_of_ne mem buf count h0]
      unfold writeEnd
      dsimp only
      split <;> rfl
    rw [hfirst, h.first] at hf
    cases chain with
    | nil =>
        have := hc.1
        rw [List.headD_nil] at hf
        omega
    | cons a l => exact hmem (hf ▸ List.mem_cons_self)

/-- A byte outside the entry is written, where a write to a data cluster does not stay in it. -/
theorem exists_written {clus count : Nat} (hD : DataCluster sb clus) (hcount : 0 < count)
    (hslot : (inode.dentryPosition + 1) * DIRECTORY_SIZE ≤ sb.bytePerClus)
    (hno : ¬ OnlyEntry sb disk inode clus (position % sb.bytePerClus) count) :
    ∃ i < sb.bytePerClus, (clus = inode.dentryLocation → ¬ InEntry inode i) ∧
      ∀ v, (writeLoop sb disk (fun _ => v) 0 count position clus).buffer i = v := by
  have ho := sb.offset_lt position
  have hlt := sb.bytePerClus_lt
  have hge := sb.bytePerClus_ge
  have hcle := chunk_le sb count (position % sb.bytePerClus)
  have hcpos := chunk_pos sb hcount ho
  have hDlt := hD.lt
  have hone : ∀ v s, OnlyByte (fun _ => v) 0 v s := fun v s i _ _ => rfl
  -- the first round writes every byte of its area
  have hfirst : ∀ i, position % sb.bytePerClus ≤ i →
      i < position % sb.bytePerClus + chunk sb count (position % sb.bytePerClus) →
      ∀ v, (writeLoop sb disk (fun _ => v) 0 count position clus).buffer i = v := by
    intro i h1 h3 v
    unfold writeLoop
    exact fat32WriteLoop_first _ _ (copies_zero sb ho (by dsimp only; omega)) h1 h3 (hone v _)
  by_cases hin : clus = inode.dentryLocation ∧ InEntry inode (position % sb.bytePerClus)
  · obtain ⟨hcD, hs1, hs2⟩ := hin
    unfold OnlyEntry InEntry at *
    unfold DIRECTORY_SIZE at *
    by_cases hend : position % sb.bytePerClus + chunk sb count (position % sb.bytePerClus)
        ≤ inode.dentryPosition * 32 + 32
    · -- the area ends with the entry, so there is a second round, which starts at byte 0
      have hmore : count ≠ chunk sb count (position % sb.bytePerClus) ∧
          fat32TableRead sb disk clus ≠ 0 := by
        constructor
        · exact fun h => hno ⟨hcD, ⟨hs1, hs2⟩, hend, Or.inl h⟩
        · exact fun h => hno ⟨hcD, ⟨hs1, hs2⟩, hend, Or.inr h⟩
      have hce := chunk_eq sb (lt_of_le_of_ne (chunk_le_remainder sb count _) (Ne.symm hmore.1))
      refine ⟨0, by omega, fun _ h => by omega, fun v => ?_⟩
      obtain ⟨s, he, hs0, hsi, hsr, hpos⟩ := @writeLoop_two sb disk position (fun _ => v) 0 count clus
        hD.1 (by omega) hD.entries hmore.1 hmore.2
      rw [he]
      refine fat32WriteLoop_first _ s ?_ (by omega) ?_ (hone v s)
      · rw [hs0]
        exact copies_zero sb (by omega) (by omega)
      · rw [hs0, Nat.zero_add]
        exact chunk_pos sb hpos (by omega)
    · exact ⟨inode.dentryPosition * 32 + 32, by omega, fun _ h => by omega,
        hfirst _ (by omega) (by omega)⟩
  · exact ⟨position % sb.bytePerClus, ho, fun h1 h3 => hin ⟨h1, h3⟩, hfirst _ le_rfl (by omega)⟩

end

/-- **Isolation**: for every buffer only the clusters of the file change, exactly where nothing is
written, the cluster at which the write starts is one of the file or none of the volume, or the write
stays in the entry of the file. -/
theorem fat32Write_isolated (sb : SbInfo) (disk : Buffer) (inode : Inode) (chain : List Nat)
    (position count : Nat) (h : FileChain sb disk inode chain) (hp : position ≤ inode.fileSize) :
    (∀ mem buf, buf < 2 ^ 64 → Isolated sb disk inode chain
      (fat32Write sb disk inode mem buf count position).1) ↔
    count = 0 ∨ inode.firstCluster + position / sb.bytePerClus ∈ chain ∨
      ¬ DataCluster sb (inode.firstCluster + position / sb.bytePerClus) ∨
      OnlyEntry sb disk inode (inode.firstCluster + position / sb.bytePerClus)
        (position % sb.bytePerClus) count := by
  obtain ⟨-, heq, hlt, hge⟩ := h.startCluster_eq hp
  rw [← heq]
  constructor
  · intro hall
    by_contra hno
    push Not at hno
    obtain ⟨hcount, hmem, hD, hno⟩ := hno
    have h0 : startCluster sb inode position ≠ 0 := fun h0 => by
      have := hD.1
      omega
    obtain ⟨i, hi, hne, hv⟩ := exists_written hD (Nat.pos_of_ne_zero hcount) h.slot hno
    -- a buffer whose bytes are not what the cluster has at byte `i`
    have hw := (hall (fun _ => clusterByte sb disk (startCluster sb inode position) i + 1) 0
      (by decide)).data _ hD hmem (h.not_newlyLinked hp h0 _ 0 count hD hmem) i hi
    rw [h.clusterByte_write hp h0 _ 0 count hD.1 hi hne, if_pos rfl, hv] at hw
    rcases hw with hw | ⟨hcD, hin⟩
    · exact absurd hw (by simp)
    · exact hne hcD hin
  · intro hcond mem buf _
    refine ⟨fun c hc _ _ => fat32TableRead_congr (h.sameTable_write hp mem buf count) hc.entries,
      fun c hc hmem _ i hi => ?_⟩
    by_cases h0 : startCluster sb inode position = 0
    · rw [fat32Write_of_zero mem buf count h0]
      exact Or.inl rfl
    by_cases hD : c = inode.dentryLocation ∧ InEntry inode i
    · exact Or.inr hD
    left
    rw [h.clusterByte_write hp h0 mem buf count hc.1 hi (fun h1 h3 => hD ⟨h1, h3⟩)]
    split
    · rename_i hcc
      subst hcc
      rcases hcond with hcount | hin | hno | ⟨hcD, hs, hend, hone⟩
      · subst hcount
        have hz : chunk sb 0 (position % sb.bytePerClus) = 0 :=
          Nat.le_zero.mp (chunk_le_remainder sb 0 _)
        exact writeLoop_buffer_of_not (hge h0) hlt hi (Or.inl hz.symm) (by omega)
      · exact absurd hin hmem
      · exact absurd hc hno
      · refine writeLoop_buffer_of_not (hge h0) hlt hi (hone.imp_right (fun h => ⟨hc.entries, h⟩)) ?_
        rintro ⟨h1, h3⟩
        exact hD ⟨hcD, hs.1.trans h1, by omega⟩
    · rfl

theorem exampleDisk_end (c : Nat) (hc : c < 128) : fat32TableRead exampleSb exampleDisk c = 0 := by
  revert c
  decide +kernel

/-- A file of one cluster. -/
theorem exampleChain (size : Nat) (hs : size ≤ 512) :
    FileChain exampleSb exampleDisk ⟨size, 5, 2, 3, 0, 0⟩ [5] where
  first := rfl
  linked := List.isChain_singleton 5
  last := fun c hc => by
    cases hc
    exact exampleDisk_end 5 (by decide)
  cluster := fun c hc => by
    rw [List.mem_singleton.mp hc]
    decide
  nodup := List.nodup_singleton 5
  size := hs
  dentry := show DataCluster exampleSb 2 by decide
  notMem := show 2 ∉ [5] by decide
  slot := show (3 + 1) * 32 ≤ 512 by decide

/-- A write in the first cluster. -/
theorem fat32Write_isolated_example :
    Isolated exampleSb exampleDisk ⟨100, 5, 2, 3, 0, 0⟩ [5]
      (fat32Write exampleSb exampleDisk ⟨100, 5, 2, 3, 0, 0⟩ (fun _ => 7) 0x800000 10 0).1 :=
  (fat32Write_isolated exampleSb exampleDisk ⟨100, 5, 2, 3, 0, 0⟩ [5] 0 10
    (exampleChain 100 (by decide)) (by decide)).mpr (Or.inr (Or.inl (by decide)))
    (fun _ => 7) 0x800000 (by decide)

/-- A file fills its only cluster; what is appended goes to the next cluster of the disk, which is
another file's. -/
theorem fat32Write_not_isolated :
    ¬ ∀ (sb : SbInfo) (disk : Buffer) (inode : Inode) (chain : List Nat) (position count : Nat)
      (mem : Buffer) (buf : Nat), FileChain sb disk inode chain → position ≤ inode.fileSize →
      buf < 2 ^ 64 → Isolated sb disk inode chain
        (fat32Write sb disk inode mem buf count position).1 := by
  intro hall
  have h := hall exampleSb exampleDisk ⟨512, 5, 2, 3, 0, 0⟩ [5] 512 1 (fun _ => 7) 0
    (exampleChain 512 le_rfl) le_rfl (by decide)
  have h6 : DataCluster exampleSb 6 := by decide
  have hbyte := h.data 6 h6 (by decide) ((exampleChain 512 le_rfl).not_newlyLinked le_rfl
    (by decide) _ _ _ h6 (by decide)) 0 (by decide)
  rcases hbyte with hb | hb
  · exact absurd hb (by decide +kernel)
  · exact absurd hb.1 (by decide)

/-! ## What was written is read -/

/-- A write of the `count` bytes at `buf` has done what it should: the position and the size are
moved, a read gives the bytes back, and the bytes of the file are the old ones with the new ones in
their place. -/
structure WriteRead (sb : SbInfo) (disk : Buffer) (inode : Inode) (chain : List Nat) (mem : Buffer)
    (buf count position : Nat) (r : Written × Outcome) : Prop where
  moved : r.2.position = position + count
  size : r.1.inode.fileSize = max inode.fileSize (position + count)
  back : ∀ mem' buf', buf' + count ≤ TASK_SIZE →
    (fat32Read sb r.1.disk r.1.inode mem' buf' count position).2.ret = some (count : Int) ∧
    ∀ i < count, (fat32Read sb r.1.disk r.1.inode mem' buf' count position).1 (buf' + i)
      = mem (buf + i)
  contents : ∀ q < max inode.fileSize (position + count), fileByte sb r.1.disk chain q
    = if position ≤ q ∧ q < position + count then some (mem (buf + (q - position)))
      else fileByte sb disk chain q

section

variable {sb : SbInfo} {disk mem : Buffer} {inode : Inode} {chain : List Nat}
  {buf count position : Nat}

/-- A buffer in user space is copied. -/
theorem copies_user {o i n : Nat} (h : buf + i + n ≤ TASK_SIZE) :
    copies (add64 buf o) (add64 buf i) n = true := by
  unfold copies
  split
  · unfold TASK_SIZE at h
    have hbi : add64 buf i = buf + i := add64_eq (by omega)
    refine decide_eq_true ?_
    rw [hbi, add64_eq (by omega)]
    exact h
  · rfl

/-- The loop of a write that stays in one cluster. -/
theorem writeLoop_one {clus : Nat} (h2 : 2 ≤ clus) (hc : clus < 2 ^ 40)
    (hbuf : buf + count ≤ TASK_SIZE)
    (hfit : position % sb.bytePerClus + count ≤ sb.bytePerClus) :
    (writeLoop sb disk mem buf count position clus).remainder = 0 ∧
    (writeLoop sb disk mem buf count position clus).index = count ∧
    ∀ i < sb.bytePerClus, (writeLoop sb disk mem buf count position clus).buffer i
      = if position % sb.bytePerClus ≤ i ∧ i < position % sb.bytePerClus + count
        then mem (buf + (i - position % sb.bytePerClus)) else clusterByte sb disk clus i := by
  unfold writeLoop
  obtain ⟨hone, hch⟩ := @fat32WriteLoop_one sb mem buf (clusToLba sb clus) count
    ⟨clus, count, 0, position % sb.bytePerClus,
      ideRead disk (clusToLba sb clus) sb.secPerClus newBuffer, disk, []⟩ hfit
  have hch : chunk sb count (position % sb.bytePerClus) = count := hch
  rw [hone]
  refine ⟨?_, ?_, fun i hi => ?_⟩
  · show count - chunk sb count (position % sb.bytePerClus) = 0
    omega
  · show 0 + chunk sb count (position % sb.bytePerClus) = count
    omega
  · split
    · rename_i hin
      have hTS : TASK_SIZE < 2 ^ 64 := by decide
      rw [fat32WriteStep_of_mem (copies_user (by dsimp only; omega)) hin.1 (by dsimp only; omega)]
      dsimp only
      rw [Nat.zero_add, add64_eq (by omega)]
    · rename_i hout
      rw [fat32WriteStep_of_not (fun _ => by dsimp only; rwa [hch])]
      exact ideRead_cluster h2 hc _ hi

/-- The loop stops after one round, with something left. -/
theorem writeLoop_remainder {clus : Nat} (h2 : 2 ≤ clus) (hc : clus < 2 ^ 40)
    (he : clus < sb.entries) (hr : count ≠ chunk sb count (position % sb.bytePerClus))
    (hn : fat32TableRead sb disk clus = 0) :
    (writeLoop sb disk mem buf count position clus).remainder ≠ 0 := by
  have hcr := chunk_le_remainder sb count (position % sb.bytePerClus)
  unfold writeLoop
  rw [fat32WriteLoop, if_neg]
  · show count - chunk sb count (position % sb.bytePerClus) ≠ 0
    omega
  · rintro ⟨-, h3⟩
    have hst : ∀ b : Buffer, SameTable sb disk (ideWrite disk (clusToLba sb clus) sb.secPerClus b) :=
      fun b => sameTable_ideWrite (fun _ _ => rfl)
        (by rw [clusToLba_eq h2 hc]; exact Nat.le_add_right _ _)
    have h3 : fat32TableRead sb (ideWrite disk _ _ _) clus ≠ 0 := h3
    rw [fat32TableRead_congr (hst _) he] at h3
    exact h3 hn

/-- A position and a place in one cluster. -/
theorem div_eq_of_fit {b p q n : Nat} (hfit : p % b + n ≤ b) (h1 : p ≤ q) (h2 : q < p + n) :
    q / b = p / b ∧ q % b = p % b + (q - p) := by
  have hdm := Nat.div_add_mod p b
  have hq : q = (p % b + (q - p)) + b * (p / b) := by omega
  have hlt : p % b + (q - p) < b := by omega
  constructor
  · rw [hq, Nat.add_mul_div_left _ _ (by omega), Nat.div_eq_of_lt hlt, Nat.zero_add]
  · conv_lhs => rw [hq, Nat.add_mul_mod_self_left, Nat.mod_eq_of_lt hlt]

/-- A read that stays in one cluster. -/
theorem fat32Read_one {buf' : Nat} {mem' : Buffer} (h2 : 2 ≤ startCluster sb inode position)
    (hc : startCluster sb inode position < 2 ^ 40) (hbuf : buf' + count ≤ TASK_SIZE)
    (hfit : position % sb.bytePerClus + count ≤ sb.bytePerClus)
    (hsize : position + count ≤ inode.fileSize) (hlt : position + count < 2 ^ 64) :
    (fat32Read sb disk inode mem' buf' count position).2.ret = some (toInt count) ∧
    ∀ i < count, (fat32Read sb disk inode mem' buf' count position).1 (buf' + i)
      = clusterByte sb disk (startCluster sb inode position) (position % sb.bytePerClus + i) := by
  have hr : readRemainder inode count position = count := by
    unfold readRemainder
    rw [add64_eq hlt, if_neg (by omega)]
  have hch : chunk sb count (position % sb.bytePerClus) = count := by
    unfold chunk
    omega
  have hloop : ∀ s : ReadLoop, s.remainder = count → s.offset = position % sb.bytePerClus →
      fat32ReadLoop sb disk buf' (count + 1) s = fat32ReadStep sb disk buf' s := by
    intro s h1 h3
    rw [fat32ReadLoop, if_neg]
    rintro ⟨h4, -⟩
    have h4 : s.remainder - chunk sb s.remainder s.offset ≠ 0 := h4
    rw [h1, h3] at h4
    omega
  have hTS : TASK_SIZE < 2 ^ 64 := by decide
  have hb0 : add64 buf' 0 = buf' := add64_eq (by omega)
  unfold fat32Read
  dsimp only
  rw [hr, hloop _ rfl rfl]
  constructor
  · show (if count - chunk sb count (position % sb.bytePerClus) = 0
      then some (toInt (0 + chunk sb count (position % sb.bytePerClus))) else none) = _
    rw [hch, Nat.sub_self, if_pos rfl, Nat.zero_add]
  · intro i hi
    show (if copies (add64 buf' (position % sb.bytePerClus)) (add64 buf' 0)
      (chunk sb count (position % sb.bytePerClus)) then storeAt mem' (add64 buf' 0)
      (chunk sb count (position % sb.bytePerClus)) _ else mem') (buf' + i) = _
    rw [hch, if_pos (copies_user (by omega)), hb0]
    unfold storeAt
    rw [sub64_eq (by omega) (by omega), Nat.add_sub_cancel_left, if_pos hi]
    exact ideRead_cluster h2 hc _ (show position % sb.bytePerClus + i < sb.bytePerClus by omega)

/-- A write that stays in one cluster, which is the one of the position. -/
theorem FileChain.writeRead (h : FileChain sb disk inode chain) (hp : position ≤ inode.fileSize)
    (h0 : startCluster sb inode position ≠ 0) (hbuf : buf + count ≤ TASK_SIZE)
    (hint : toInt count = count) (hfit : position % sb.bytePerClus + count ≤ sb.bytePerClus)
    (hk : 0 < count → chain[position / sb.bytePerClus]? = some (startCluster sb inode position)) :
    WriteRead sb disk inode chain mem buf count position
      (fat32Write sb disk inode mem buf count position) := by
  obtain ⟨hkl, heq, hlt, hge⟩ := h.startCluster_eq hp
  have h2 := hge h0
  obtain ⟨hrem, hidx, hbyte⟩ := @writeLoop_one sb disk mem buf count position _ h2 hlt hbuf hfit
  have hsmall : position + count < 2 ^ 64 := by
    have h1 := h.size
    have h3 : chain.length * sb.bytePerClus ≤ 2 ^ 39 * 2 ^ 17 :=
      Nat.mul_le_mul h.length_le (le_of_lt sb.bytePerClus_lt)
    have := sb.bytePerClus_lt
    omega
  have hsize : (fat32Write sb disk inode mem buf count position).1.inode.fileSize
      = max inode.fileSize (position + count) ∧
      (fat32Write sb disk inode mem buf count position).1.inode.firstCluster
        = inode.firstCluster := by
    rw [fat32Write_of_ne mem buf count h0]
    dsimp only
    unfold writeEnd
    rw [hidx, add64_eq hsmall]
    split
    · exact ⟨by dsimp only; omega, rfl⟩
    · exact ⟨by dsimp only; omega, rfl⟩
  have hstart : startCluster sb (fat32Write sb disk inode mem buf count position).1.inode position
      = startCluster sb inode position := by
    unfold startCluster
    rw [hsize.2]
  have hclus := fun {c i : Nat} (hc : c ∈ chain) (hi : i < sb.bytePerClus) =>
    h.clusterByte_write hp h0 mem buf count (h.cluster c hc).1 hi
      (fun hD => absurd (hD ▸ hc) h.notMem)
  refine ⟨?_, hsize.1, fun mem' buf' hb' => ?_, fun q hq => ?_⟩
  · rw [fat32Write_of_ne mem buf count h0]
    dsimp only
    rw [hidx, add64_eq hsmall]
  · obtain ⟨h1, h3⟩ := @fat32Read_one sb (fat32Write sb disk inode mem buf count position).1.disk
      (fat32Write sb disk inode mem buf count position).1.inode count position buf' mem'
      (by rw [hstart]; exact h2) (by rw [hstart]; exact hlt) hb' hfit (by rw [hsize.1]; omega) hsmall
    refine ⟨by rw [h1, hint], fun i hi => ?_⟩
    have hmem : startCluster sb inode position ∈ chain := List.mem_of_getElem? (hk (by omega))
    rw [h3 i hi, hstart, hclus hmem (by omega), if_pos rfl, hbyte _ (by omega),
      if_pos ⟨by omega, by omega⟩, Nat.add_sub_cancel_left]
  · unfold fileByte
    by_cases hin : position ≤ q ∧ q < position + count
    · obtain ⟨hd, hm⟩ := div_eq_of_fit hfit hin.1 hin.2
      have hkc := hk (by omega)
      rw [if_pos hin, hd, hkc, Option.map_some, hclus (List.mem_of_getElem? hkc) (by omega),
        if_pos rfl, hbyte _ (by omega), if_pos ⟨by omega, by omega⟩, hm, Nat.add_sub_cancel_left]
    · rw [if_neg hin]
      cases hc : chain[q / sb.bytePerClus]? with
      | none => rfl
      | some c =>
          rw [Option.map_some, Option.map_some, hclus (List.mem_of_getElem? hc) (sb.offset_lt q)]
          split
          · rename_i hcc
            rw [hcc, hbyte _ (sb.offset_lt q), if_neg]
            rintro ⟨h1, h3⟩
            -- the chain has the cluster once, so `q` would be in the area of the write
            have hcnt : 0 < count := by omega
            have hidxs : q / sb.bytePerClus = position / sb.bytePerClus := by
              obtain ⟨hl1, hg1⟩ := List.getElem?_eq_some_iff.mp hc
              obtain ⟨hl2, hg2⟩ := List.getElem?_eq_some_iff.mp (hk hcnt)
              exact (h.nodup.getElem_inj_iff).mp (hg1.trans (hcc.trans hg2.symm))
            have hdq := Nat.div_add_mod q sb.bytePerClus
            have hdp := Nat.div_add_mod position sb.bytePerClus
            rw [hidxs] at hdq
            exact hin ⟨by omega, by omega⟩
          · rfl

/-- The cluster of the position is not the one that is written. -/
theorem FileChain.not_contents (h : FileChain sb disk inode chain) (hp : position ≤ inode.fileSize)
    (h0 : startCluster sb inode position ≠ 0) (hcount : 0 < count)
    (hk : chain[position / sb.bytePerClus]? ≠ some (startCluster sb inode position)) :
    ∃ mem, ¬ WriteRead sb disk inode chain mem buf count position
      (fat32Write sb disk inode mem buf count position) := by
  cases hc : chain[position / sb.bytePerClus]? with
  | none =>
      refine ⟨fun _ => 0, fun hw => ?_⟩
      have hq := hw.contents position (by omega)
      rw [if_pos ⟨le_rfl, by omega⟩, fileByte, hc] at hq
      cases hq
  | some c =>
      have hmem := List.mem_of_getElem? hc
      refine ⟨fun _ => clusterByte sb disk c (position % sb.bytePerClus) + 1, fun hw => ?_⟩
      have hq := hw.contents position (by omega)
      rw [if_pos ⟨le_rfl, by omega⟩, fileByte, hc, Option.map_some,
        h.clusterByte_write hp h0 _ buf count (h.cluster c hmem).1 (sb.offset_lt position)
          (fun hD => absurd (hD ▸ hmem) h.notMem), if_neg (fun he => hk (by rw [hc, he]))] at hq
      exact absurd (Option.some.inj hq) (by simp)

/-- The write goes over the end of the cluster: the last round writes to its first byte. -/
theorem FileChain.not_fit (h : FileChain sb disk inode chain) (hp : position ≤ inode.fileSize)
    (h0 : startCluster sb inode position ≠ 0) (hbuf : buf + count ≤ TASK_SIZE)
    (hret : ∀ mem, (fat32Write sb disk inode mem buf count position).2.ret = some (count : Int))
    (hfit : sb.bytePerClus < position % sb.bytePerClus + count)
    (hk : chain[position / sb.bytePerClus]? = some (startCluster sb inode position)) :
    ∃ mem, ¬ WriteRead sb disk inode chain mem buf count position
      (fat32Write sb disk inode mem buf count position) := by
  obtain ⟨-, -, hlt, hge⟩ := h.startCluster_eq hp
  have h2 := hge h0
  have hmem := List.mem_of_getElem? hk
  have hD := h.cluster _ hmem
  have ho := sb.offset_lt position
  have hr : count ≠ chunk sb count (position % sb.bytePerClus) := by
    have := chunk_le sb count (position % sb.bytePerClus)
    omega
  have hn : fat32TableRead sb disk (startCluster sb inode position) ≠ 0 := by
    intro hn
    have hrem := @writeLoop_remainder sb disk newBuffer buf count position _ h2 hlt hD.entries hr hn
    have hret := hret newBuffer
    rw [fat32Write_of_ne newBuffer buf count h0] at hret
    dsimp only at hret
    rw [if_neg hrem] at hret
    cases hret
  -- the byte after the first one has a new value for byte 0 of the cluster, the first yet another
  refine ⟨fun a => if a = buf
    then clusterByte sb disk (startCluster sb inode position) 0 + 1 + 1
    else clusterByte sb disk (startCluster sb inode position) 0 + 1, fun hw => ?_⟩
  generalize hm : (fun a => if a = buf
    then clusterByte sb disk (startCluster sb inode position) 0 + 1 + 1
    else clusterByte sb disk (startCluster sb inode position) 0 + 1 : Buffer) = mem at hw
  have hTS : TASK_SIZE < 2 ^ 64 := by decide
  obtain ⟨s, hs, hs0, hsi, hsr, hpos⟩ := @writeLoop_two sb disk position mem buf count
    (startCluster sb inode position) h2 hlt hD.entries hr hn
  have hbyte : (writeLoop sb disk mem buf count position (startCluster sb inode position)).buffer 0
      = clusterByte sb disk (startCluster sb inode position) 0 + 1 := by
    rw [hs]
    have hcr := chunk_le_remainder sb s.remainder s.offset
    refine fat32WriteLoop_first _ s (copies_user (by omega)) (by omega) ?_ (fun i h1 h3 => ?_)
    · rw [hs0, Nat.zero_add]
      exact chunk_pos sb hpos (by omega)
    · rw [add64_eq (by omega), ← hm]
      exact if_neg (by omega)
  have hdm := Nat.div_add_mod position sb.bytePerClus
  have hq := hw.contents (sb.bytePerClus * (position / sb.bytePerClus)) (by omega)
  rw [fileByte, Nat.mul_div_cancel_left _ (by omega), hk, Option.map_some, Nat.mul_mod_right,
    h.clusterByte_write hp h0 mem buf count h2 (by omega)
      (fun hDl => absurd (hDl ▸ hmem) h.notMem), if_pos rfl, hbyte] at hq
  by_cases hin : position ≤ sb.bytePerClus * (position / sb.bytePerClus)
  · rw [if_pos ⟨hin, by omega⟩, show sb.bytePerClus * (position / sb.bytePerClus) - position = 0 by
      omega, Nat.add_zero, ← hm] at hq
    exact absurd (Option.some.inj hq) (by simp)
  · rw [if_neg (fun h => hin h.1), fileByte, Nat.mul_div_cancel_left _ (by omega), hk,
      Option.map_some, Nat.mul_mod_right] at hq
    exact absurd (Option.some.inj hq) (by simp)

end

/-- **Write, then read**: a write that returns `count` has done what it should, for every contents of
the buffer, exactly where it writes nothing, or stays in one cluster that is the one of the position
in the chain. -/
theorem fat32Write_contents (sb : SbInfo) (disk : Buffer) (inode : Inode) (chain : List Nat)
    (buf count position : Nat) (h : FileChain sb disk inode chain) (hp : position ≤ inode.fileSize)
    (hbuf : buf + count ≤ TASK_SIZE)
    (hret : ∀ mem, (fat32Write sb disk inode mem buf count position).2.ret = some (count : Int)) :
    (∀ mem, WriteRead sb disk inode chain mem buf count position
      (fat32Write sb disk inode mem buf count position)) ↔
    count = 0 ∨ position % sb.bytePerClus + count ≤ sb.bytePerClus ∧
      chain[position / sb.bytePerClus]?
        = some (inode.firstCluster + position / sb.bytePerClus) := by
  obtain ⟨-, heq, hlt, hge⟩ := h.startCluster_eq hp
  have h0 : startCluster sb inode position ≠ 0 := by
    intro h0
    have := hret newBuffer
    rw [fat32Write_of_zero newBuffer buf count h0] at this
    have := Option.some.inj this
    unfold ENOSPC at this
    omega
  rw [← heq]
  have ho := sb.offset_lt position
  constructor
  · intro hall
    by_contra hno
    push Not at hno
    obtain ⟨hcount, hno⟩ := hno
    by_cases hk : chain[position / sb.bytePerClus]? = some (startCluster sb inode position)
    · obtain ⟨mem, hw⟩ := h.not_fit hp h0 hbuf hret (Nat.lt_of_not_le (fun hf => hno hf hk)) hk
      exact hw (hall mem)
    · obtain ⟨mem, hw⟩ := @FileChain.not_contents sb disk inode chain buf count position h hp h0
        (Nat.pos_of_ne_zero hcount) hk
      exact hw (hall mem)
  · intro hcond mem
    have hfit : position % sb.bytePerClus + count ≤ sb.bytePerClus := by
      rcases hcond with rfl | ⟨hf, -⟩
      · omega
      · exact hf
    have hint : toInt count = count := by
      obtain ⟨hrem, hidx, -⟩ := @writeLoop_one sb disk mem buf count position _ (hge h0) hlt hbuf hfit
      have hr := hret mem
      rw [fat32Write_of_ne mem buf count h0] at hr
      dsimp only at hr
      rw [if_pos hrem, hidx] at hr
      exact Option.some.inj hr
    refine h.writeRead hp h0 hbuf hint hfit (fun hpos => ?_)
    rcases hcond with rfl | ⟨-, hk⟩
    · exact absurd hpos (by omega)
    · exact hk

/-- Ten bytes at the start of a file of one cluster. -/
theorem fat32Write_contents_example :
    WriteRead exampleSb exampleDisk ⟨100, 5, 2, 3, 0, 0⟩ [5] (fun _ => 7) 0x800000 10 0
      (fat32Write exampleSb exampleDisk ⟨100, 5, 2, 3, 0, 0⟩ (fun _ => 7) 0x800000 10 0) := by
  refine (fat32Write_contents exampleSb exampleDisk ⟨100, 5, 2, 3, 0, 0⟩ [5] 0x800000 10 0
    (exampleChain 100 (by decide)) (by decide) (by decide) (fun mem => ?_)).mpr
    (Or.inr ⟨by decide, by decide⟩) (fun _ => 7)
  obtain ⟨hrem, hidx, -⟩ := @writeLoop_one exampleSb exampleDisk mem 0x800000 10 0
    (startCluster exampleSb ⟨100, 5, 2, 3, 0, 0⟩ 0) (by decide) (by decide) (by decide) (by decide)
  rw [fat32Write_of_ne mem 0x800000 10 (by decide)]
  dsimp only
  rw [if_pos hrem, hidx]
  decide

/-- A disk on which cluster 6 comes after cluster 5. -/
def exampleDisk2 : Buffer := putLE exampleDisk (32 * 512 + 5 * 4) 4 6

theorem exampleChain2 : FileChain exampleSb exampleDisk2 ⟨1024, 5, 2, 3, 0, 0⟩ [5, 6] where
  first := rfl
  linked := List.isChain_pair.mpr (by decide +kernel)
  last := fun c hc => by
    cases hc
    decide +kernel
  cluster := by decide
  nodup := by decide
  size := by decide
  dentry := by decide
  notMem := by decide
  slot := by decide

/-- 513 bytes at the start of a file of two clusters of 512: the last of them goes to the start. -/
theorem fat32Write_not_contents :
    ¬ ∀ (sb : SbInfo) (disk : Buffer) (inode : Inode) (chain : List Nat) (mem : Buffer)
      (buf count position : Nat), FileChain sb disk inode chain → position ≤ inode.fileSize →
      buf + count ≤ TASK_SIZE →
      (fat32Write sb disk inode mem buf count position).2.ret = some (count : Int) →
      WriteRead sb disk inode chain mem buf count position
        (fat32Write sb disk inode mem buf count position) := by
  intro hall
  have h := hall exampleSb exampleDisk2 ⟨1024, 5, 2, 3, 0, 0⟩ [5, 6]
    (fun a => if a = 0x800000 then 1 else 2) 0x800000 513 0 exampleChain2 (by decide) (by decide)
    (by decide +kernel)
  have hb := (h.back newBuffer 0x800000 (by decide)).2 0 (by decide)
  exact absurd hb (by decide +kernel)

end Talios
