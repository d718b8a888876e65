import Talios.Fs.Fat32Chain

set_option autoImplicit false

/-! # Reading a whole file

`fat32_read` from the start of a file to its end, as `do_execve` calls it: the loop goes along the
chain of clusters, and the buffer holds the bytes of the file.
-/

namespace Talios

open Bytes Word

section

variable {sb : SbInfo} {disk : Buffer} {buf : Nat}

/-- What the loop does with what is left of the file, which has the clusters `chain`. -/
structure ReadWhole (sb : SbInfo) (disk : Buffer) (buf : Nat) (chain : List Nat) (s s' : ReadLoop) :
    Prop where
  remainder : s'.remainder = 0
  index : s'.index = s.index + s.remainder
  bytes : ∀ q < s.remainder, fileByte sb disk chain q = some (s'.mem (buf + s.index + q))
  frame : ∀ a < 2 ^ 64, ¬ (buf + s.index ≤ a ∧ a < buf + s.index + s.remainder) →
    s'.mem a = s.mem a

/-- Nothing is left: the round copies nothing, whatever the cluster. -/
theorem readWhole_empty {s : ReadLoop} (chain : List Nat) (fuel : Nat) (hz : s.remainder = 0) :
    ReadWhole sb disk buf chain s (fat32ReadLoop sb disk buf (fuel + 1) s) := by
  have hch : chunk sb s.remainder s.offset = 0 := Nat.le_zero.mp (hz ▸ chunk_le_remainder sb _ _)
  have hrem : (fat32ReadStep sb disk buf s).remainder = 0 := by
    show s.remainder - chunk sb s.remainder s.offset = 0
    omega
  rw [fat32ReadLoop, if_neg (fun h => h.1 hrem)]
  refine ⟨hrem, ?_, fun q hq => absurd hq (by omega), fun a _ _ => ?_⟩
  · show s.index + chunk sb s.remainder s.offset = _
    rw [hch, hz]
  · show (if copies _ _ (chunk sb s.remainder s.offset)
      then storeAt s.mem _ (chunk sb s.remainder s.offset) _ else s.mem) a = _
    rw [hch]
    split
    · exact if_neg (Nat.not_lt_zero _)
    · rfl

/-- **The loop of `fat32_read`** along the rest of a chain. -/
theorem fat32ReadLoop_whole (l : List Nat) (fuel : Nat) (s : ReadLoop)
    (hlinked : (s.clus :: l).IsChain (fun c c' => fat32TableRead sb disk c = c'))
    (hdata : ∀ d ∈ s.clus :: l, DataCluster sb d) (ho : s.offset = 0)
    (hsize : s.remainder ≤ (l.length + 1) * sb.bytePerClus) (hfuel : s.remainder ≤ fuel)
    (hbuf : buf + s.index + s.remainder ≤ TASK_SIZE) :
    ReadWhole sb disk buf (s.clus :: l) s (fat32ReadLoop sb disk buf (fuel + 1) s) := by
  have hTS : TASK_SIZE < 2 ^ 64 := by decide
  have hb := sb.bytePerClus_ge
  have hw : Writable sb buf (s.index + s.remainder) := Or.inl (by omega)
  have hat := readLoop_chain l fuel s hlinked hdata (by omega) (by omega) hfuel hw
  have hbytes := hat.bytes
  rw [ho] at hbytes
  refine ⟨hat.remainder, hat.index, fun q hq => ?_, readLoop_frame _ _ (by omega)⟩
  have := hbytes q hq
  rwa [Nat.zero_add] at this

/-- **A whole file is read** into a buffer of the user: the value is its size, and the buffer holds
its bytes. -/
theorem FileChain.read_whole {inode : Inode} {chain : List Nat} {mem : Buffer}
    (h : FileChain sb disk inode chain) (hbuf : buf + inode.fileSize ≤ TASK_SIZE)
    (hsize : inode.fileSize < 2 ^ 31) :
    (fat32Read sb disk inode mem buf inode.fileSize 0).2.ret = some (inode.fileSize : Int) ∧
    (∀ q < inode.fileSize, fileByte sb disk chain q
      = some ((fat32Read sb disk inode mem buf inode.fileSize 0).1 (buf + q))) ∧
    ∀ a < 2 ^ 64, ¬ (buf ≤ a ∧ a < buf + inode.fileSize) →
      (fat32Read sb disk inode mem buf inode.fileSize 0).1 a = mem a := by
  have hr : readRemainder inode inode.fileSize 0 = inode.fileSize := by
    unfold readRemainder
    rw [add64_eq (by omega), if_neg (by omega)]
  have hstart : startCluster sb inode 0 = inode.firstCluster := by
    have hlt := h.firstCluster_lt
    unfold startCluster
    rw [Nat.zero_div, add64_eq (by omega), Nat.add_zero]
  have hint : toInt inode.fileSize = inode.fileSize := Int.bmod_eq_of_le (by omega) (by omega)
  have hwhole : ReadWhole sb disk buf chain
      ⟨inode.firstCluster, inode.fileSize, 0, 0, mem, []⟩
      (fat32ReadLoop sb disk buf (inode.fileSize + 1)
        ⟨inode.firstCluster, inode.fileSize, 0, 0, mem, []⟩) := by
    cases chain with
    | nil =>
        have hsz := h.size
        rw [List.length_nil, Nat.zero_mul] at hsz
        exact readWhole_empty [] _ (Nat.le_zero.mp hsz)
    | cons c l =>
        have hfirst : inode.firstCluster = c := h.first
        have hsz := h.size
        have hlinked := h.linked
        have hcluster := h.cluster
        rw [← hfirst] at hlinked hcluster ⊢
        exact fat32ReadLoop_whole l inode.fileSize
          ⟨inode.firstCluster, inode.fileSize, 0, 0, mem, []⟩ hlinked hcluster rfl hsz le_rfl hbuf
  unfold fat32Read
  rw [hr, hstart, Nat.zero_mod]
  dsimp only
  have hbytes := hwhole.bytes
  have hframe := hwhole.frame
  have hindex := hwhole.index
  dsimp only at hbytes hframe hindex
  rw [Nat.add_zero] at hframe hbytes
  refine ⟨?_, hbytes, hframe⟩
  rw [if_pos hwhole.remainder, hindex, Nat.zero_add, hint]

end

end Talios
