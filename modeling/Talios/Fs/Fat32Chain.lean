import Talios.Fs.Fat32Write

set_option autoImplicit false

/-! # Reading along the chain

`fat32_read` from any position of a file, as against the bytes of the file: the clusters of its
chain, which the lower 28 bits of the entries of the table give, one after the other. The loop goes
along the chain, but it starts at cluster `first_cluster + position / byte_per_clus`.
`fat32Read_delivers` says when the bytes are nevertheless those of the file.
-/

namespace Talios

open Bytes Word

/-! ## The entries of the table -/

/-- The entry of a cluster, with its upper four bits. -/
def fatEntry (sb : SbInfo) (disk : Buffer) (c : Nat) : Nat :=
  getLE disk (sb.fat1StartSector * BYTE_PER_VSEC + c * 4) 4

section

variable {sb : SbInfo} {disk d : Buffer} {c : Nat}

theorem fat32TableRead_entry (hc : c < 2 ^ 32) : fat32TableRead sb disk c
    = if fatEntry sb disk c < 0xffffff7 then fatEntry sb disk c else 0 := by
  have hsec : sb.bytePerSec / 4 = 128 := by rw [sb.bytePerSec_eq]; rfl
  have hget : getLE (ideRead disk (sb.fat1StartSector + c / 128) 1 newBuffer) (c % 128 * 4) 4
      = fatEntry sb disk c := by
    apply getLE_congr
    intro j hj
    have hlt : c % 128 * 4 + j < 1 * BYTE_PER_VSEC := by
      unfold BYTE_PER_VSEC
      omega
    have haddr : (sb.fat1StartSector + c / 128) * BYTE_PER_VSEC + (c % 128 * 4 + j)
        = sb.fat1StartSector * BYTE_PER_VSEC + c * 4 + j := by
      unfold BYTE_PER_VSEC
      omega
    rw [ideRead, overlay_zero_left hlt, haddr]
  unfold fat32TableRead
  rw [hsec, Nat.mod_eq_of_lt hc]
  dsimp only
  rw [hget]

/-- The entry of a data cluster is in the table. -/
theorem fatEntry_congr (h : SameTable sb disk d) (hc : DataCluster sb c) :
    fatEntry sb d c = fatEntry sb disk c := by
  have hfst := sb.fstDataSector_eq
  have hlt := hc.2
  have hnum : sb.secPerFat ≤ sb.fatNum * sb.secPerFat :=
    Nat.le_mul_of_pos_left _ sb.fatNum_pos
  apply getLE_congr
  intro j hj
  apply h
  unfold BYTE_PER_VSEC
  omega

end

/-! ## What a read copies -/

/-- The number of bytes in some areas. -/
def areaBytes (areas : List Area) : Nat := (areas.map Prod.snd).sum

theorem areaBytes_append (l l' : List Area) :
    areaBytes (l ++ l') = areaBytes l + areaBytes l' := by
  simp [areaBytes]

section

variable {sb : SbInfo} {disk : Buffer} {buf : Nat}

/-- What is copied and what is left is what was left; nothing else is copied. -/
structure ReadOnward (s s' : ReadLoop) : Prop where
  sum : s'.index + s'.remainder = s.index + s.remainder
  bytes : areaBytes s'.areas + s.index ≤ areaBytes s.areas + s'.index

/-- One round. -/
theorem readOnward_step (s : ReadLoop) : ReadOnward s (fat32ReadStep sb disk buf s) := by
  have hle := chunk_le_remainder sb s.remainder s.offset
  constructor
  · show s.index + chunk sb s.remainder s.offset + (s.remainder - chunk sb s.remainder s.offset) = _
    omega
  · show areaBytes (if copies _ _ _ then s.areas ++ [(add64 buf s.index,
      chunk sb s.remainder s.offset)] else s.areas) + s.index
        ≤ areaBytes s.areas + (s.index + chunk sb s.remainder s.offset)
    split
    · rw [areaBytes_append]
      simp [areaBytes]
      omega
    · omega

theorem ReadOnward.trans {s s' s'' : ReadLoop} (h : ReadOnward s s') (h' : ReadOnward s' s'') :
    ReadOnward s s'' := by
  have h1 := h.sum
  have h2 := h'.sum
  have h3 := h.bytes
  have h4 := h'.bytes
  exact ⟨by omega, by omega⟩

/-- All rounds. -/
theorem readOnward_loop : ∀ (fuel : Nat) (s : ReadLoop),
    ReadOnward s (fat32ReadLoop sb disk buf fuel s)
  | 0, _ => ⟨rfl, le_rfl⟩
  | fuel + 1, s => by
      have hstep : ReadOnward s (fat32ReadStep sb disk buf s) := readOnward_step s
      rw [fat32ReadLoop]
      split
      · exact hstep.trans (readOnward_loop fuel _)
      · exact hstep

end

/-! ## The buffer of the caller -/

/-- `n` bytes from `buf` on can be written: they are in user space, or the buffer is one of the
kernel's. -/
def Writable (sb : SbInfo) (buf n : Nat) : Prop :=
  buf + n ≤ TASK_SIZE ∨ (TASK_SIZE ≤ buf ∧ buf + sb.bytePerClus + n ≤ 2 ^ 64)

section

variable {sb : SbInfo} {disk : Buffer} {buf n : Nat}

theorem Writable.lt (h : Writable sb buf n) : buf + n < 2 ^ 64 := by
  have hb := sb.bytePerClus_ge
  have hTS : TASK_SIZE < 2 ^ 64 := by decide
  rcases h with h | ⟨-, h⟩ <;> omega

theorem Writable.copies {o i k : Nat} (h : Writable sb buf n) (ho : o < sb.bytePerClus)
    (hi : i + k ≤ n) : copies (add64 buf o) (add64 buf i) k = true := by
  rcases h with h | ⟨h1, h2⟩
  · exact copies_user (by omega)
  · unfold Talios.copies
    rw [if_neg]
    rw [add64_eq (by omega)]
    omega

/-- What one round writes. -/
theorem readStep_mem {s : ReadLoop} (hw : Writable sb buf (s.index + s.remainder))
    (ho : s.offset < sb.bytePerClus) (h2 : 2 ≤ s.clus) (hc : s.clus < 2 ^ 40) {a : Nat}
    (ha : a < 2 ^ 64) :
    (fat32ReadStep sb disk buf s).mem a
      = if buf + s.index ≤ a ∧ a < buf + s.index + chunk sb s.remainder s.offset
        then clusterByte sb disk s.clus (s.offset + (a - (buf + s.index))) else s.mem a := by
  have hlt := hw.lt
  have hle := chunk_le_remainder sb s.remainder s.offset
  have hle' := chunk_le sb s.remainder s.offset
  have hdest : add64 buf s.index = buf + s.index := add64_eq (by omega)
  show (if copies (add64 buf s.offset) (add64 buf s.index) (chunk sb s.remainder s.offset)
    then storeAt s.mem (add64 buf s.index) (chunk sb s.remainder s.offset)
      (fun i => ideRead disk (clusToLba sb s.clus) sb.secPerClus newBuffer (s.offset + i))
    else s.mem) a = _
  rw [if_pos (hw.copies ho (by omega)), hdest]
  unfold storeAt
  by_cases hin : buf + s.index ≤ a ∧ a < buf + s.index + chunk sb s.remainder s.offset
  · rw [if_pos hin, sub64_eq hin.1 ha, if_pos (by omega)]
    exact ideRead_cluster h2 hc _ (by omega)
  · rw [if_neg hin, if_neg]
    unfold sub64
    omega

/-- What one round does not write. -/
theorem readStep_frame {s : ReadLoop} (hlt : buf + s.index + s.remainder < 2 ^ 64) {a : Nat}
    (ha : a < 2 ^ 64) (hout : ¬ (buf + s.index ≤ a ∧ a < buf + s.index + s.remainder)) :
    (fat32ReadStep sb disk buf s).mem a = s.mem a := by
  have hle := chunk_le_remainder sb s.remainder s.offset
  have hdest : add64 buf s.index = buf + s.index := add64_eq (by omega)
  show (if copies (add64 buf s.offset) (add64 buf s.index) (chunk sb s.remainder s.offset)
    then storeAt s.mem (add64 buf s.index) (chunk sb s.remainder s.offset)
      (fun i => ideRead disk (clusToLba sb s.clus) sb.secPerClus newBuffer (s.offset + i))
    else s.mem) a = _
  split
  · unfold storeAt
    rw [hdest, if_neg]
    unfold sub64
    omega
  · rfl

/-- What all rounds do not write. -/
theorem readLoop_frame : ∀ (fuel : Nat) (s : ReadLoop), buf + s.index + s.remainder < 2 ^ 64 →
    ∀ a < 2 ^ 64, ¬ (buf + s.index ≤ a ∧ a < buf + s.index + s.remainder) →
      (fat32ReadLoop sb disk buf fuel s).mem a = s.mem a
  | 0, _, _, _, _, _ => rfl
  | fuel + 1, s, hlt, a, ha, hout => by
      have hle := chunk_le_remainder sb s.remainder s.offset
      have hstep := @readStep_frame sb disk buf s hlt a ha hout
      have hindex : (fat32ReadStep sb disk buf s).index = s.index + chunk sb s.remainder s.offset :=
        rfl
      have hrem : (fat32ReadStep sb disk buf s).remainder
          = s.remainder - chunk sb s.remainder s.offset := rfl
      rw [fat32ReadLoop]
      split
      · rw [readLoop_frame fuel _ (by omega) a ha (by omega)]
        exact hstep
      · exact hstep

/-! ## The loop -/

/-- The loop has read what was left of the file, whose clusters are those of `chain` from the offset
on. -/
structure ReadAt (sb : SbInfo) (disk : Buffer) (buf : Nat) (chain : List Nat) (s s' : ReadLoop) :
    Prop where
  remainder : s'.remainder = 0
  index : s'.index = s.index + s.remainder
  bytes : ∀ q < s.remainder,
    fileByte sb disk chain (s.offset + q) = some (s'.mem (buf + s.index + q))

/-- Behind the first cluster of a chain comes the rest of it. -/
theorem fileByte_cons_add (c : Nat) (l : List Nat) (q : Nat) :
    fileByte sb disk (c :: l) (q + sb.bytePerClus) = fileByte sb disk l q := by
  have hb : 0 < sb.bytePerClus := lt_of_lt_of_le (by decide) sb.bytePerClus_ge
  unfold fileByte
  rw [Nat.add_div_right q hb, Nat.add_mod_right]
  rfl

theorem fileByte_cons_lt (c : Nat) (l : List Nat) {q : Nat} (hq : q < sb.bytePerClus) :
    fileByte sb disk (c :: l) q = some (clusterByte sb disk c q) := by
  unfold fileByte
  rw [Nat.div_eq_of_lt hq, Nat.mod_eq_of_lt hq]
  rfl

/-- Nothing is left after the round. -/
theorem readLoop_last {s : ReadLoop} (fuel : Nat)
    (h : chunk sb s.remainder s.offset = s.remainder) :
    fat32ReadLoop sb disk buf (fuel + 1) s = fat32ReadStep sb disk buf s ∧
    (fat32ReadStep sb disk buf s).remainder = 0 ∧
    (fat32ReadStep sb disk buf s).index = s.index + s.remainder := by
  have hrem : (fat32ReadStep sb disk buf s).remainder = 0 := by
    show s.remainder - chunk sb s.remainder s.offset = 0
    omega
  refine ⟨?_, hrem, ?_⟩
  · rw [fat32ReadLoop, if_neg (fun h => h.1 hrem)]
  · show s.index + chunk sb s.remainder s.offset = _
    rw [h]

/-- The last round reads what is left of its cluster. -/
theorem readAt_last {s : ReadLoop} (l : List Nat) (fuel : Nat)
    (hw : Writable sb buf (s.index + s.remainder)) (ho : s.offset < sb.bytePerClus)
    (hD : DataCluster sb s.clus) (hfit : s.offset + s.remainder ≤ sb.bytePerClus) :
    ReadAt sb disk buf (s.clus :: l) s (fat32ReadLoop sb disk buf (fuel + 1) s) := by
  have hch : chunk sb s.remainder s.offset = s.remainder := by
    unfold chunk
    omega
  have hlt := hw.lt
  have hlast := @readLoop_last sb disk buf s fuel hch
  rw [hlast.1]
  refine ⟨hlast.2.1, hlast.2.2, fun q hq => ?_⟩
  rw [readStep_mem hw ho hD.1 (hD.lt.trans (by decide)) (by omega), hch, if_pos (by omega),
    fileByte_cons_lt _ _ (by omega), Nat.add_sub_cancel_left]

/-- The first byte that is read is that of the cluster at which the loop starts. -/
theorem readLoop_first {s : ReadLoop} (fuel : Nat)
    (hw : Writable sb buf (s.index + s.remainder)) (ho : s.offset < sb.bytePerClus)
    (h2 : 2 ≤ s.clus) (hc : s.clus < 2 ^ 40) (hpos : 0 < s.remainder) :
    (fat32ReadLoop sb disk buf (fuel + 1) s).mem (buf + s.index)
      = clusterByte sb disk s.clus s.offset := by
  have hlt := hw.lt
  have hch := chunk_pos sb hpos ho
  have hle := chunk_le_remainder sb s.remainder s.offset
  have hstep : (fat32ReadStep sb disk buf s).mem (buf + s.index)
      = clusterByte sb disk s.clus s.offset := by
    rw [readStep_mem hw ho h2 hc (by omega), if_pos (by omega), Nat.sub_self, Nat.add_zero]
  have hindex : (fat32ReadStep sb disk buf s).index = s.index + chunk sb s.remainder s.offset :=
    rfl
  have hrem : (fat32ReadStep sb disk buf s).remainder
      = s.remainder - chunk sb s.remainder s.offset := rfl
  rw [fat32ReadLoop]
  split
  · rw [readLoop_frame fuel _ (by omega) _ (by omega) (by omega)]
    exact hstep
  · exact hstep

/-- A round that leaves something goes to the end of the cluster. -/
theorem readLoop_next {s : ReadLoop} (fuel : Nat) (ho : s.offset < sb.bytePerClus)
    (hmore : sb.bytePerClus < s.offset + s.remainder) :
    (fat32ReadStep sb disk buf s).clus = fat32TableRead sb disk s.clus ∧
    (fat32ReadStep sb disk buf s).index = s.index + (sb.bytePerClus - s.offset) ∧
    (fat32ReadStep sb disk buf s).remainder = s.remainder - (sb.bytePerClus - s.offset) ∧
    (fat32ReadStep sb disk buf s).offset = 0 ∧
    fat32ReadLoop sb disk buf (fuel + 1) s
      = if fat32TableRead sb disk s.clus ≠ 0
        then fat32ReadLoop sb disk buf fuel (fat32ReadStep sb disk buf s)
        else fat32ReadStep sb disk buf s := by
  have hch : chunk sb s.remainder s.offset = sb.bytePerClus - s.offset := by
    unfold chunk
    omega
  have hindex : (fat32ReadStep sb disk buf s).index = s.index + (sb.bytePerClus - s.offset) := by
    show s.index + chunk sb s.remainder s.offset = _
    rw [hch]
  have hrem : (fat32ReadStep sb disk buf s).remainder
      = s.remainder - (sb.bytePerClus - s.offset) := by
    show s.remainder - chunk sb s.remainder s.offset = _
    rw [hch]
  refine ⟨rfl, hindex, hrem, rfl, ?_⟩
  rw [fat32ReadLoop]
  have hne : (fat32ReadStep sb disk buf s).remainder ≠ 0 := by omega
  by_cases hn : fat32TableRead sb disk s.clus = 0
  · rw [if_neg (fun h => h.2 hn), if_neg (fun h => h hn)]
  · rw [if_pos ⟨hne, hn⟩, if_pos hn]

/-- A round in front of the others. -/
theorem readAt_step {s s' : ReadLoop} {l : List Nat}
    (hw : Writable sb buf (s.index + s.remainder)) (ho : s.offset < sb.bytePerClus)
    (hD : DataCluster sb s.clus) (hmore : sb.bytePerClus < s.offset + s.remainder)
    (hframe : ∀ a < 2 ^ 64, a < buf + s.index + (sb.bytePerClus - s.offset) →
      s'.mem a = (fat32ReadStep sb disk buf s).mem a)
    (h : ReadAt sb disk buf l (fat32ReadStep sb disk buf s) s') :
    ReadAt sb disk buf (s.clus :: l) s s' := by
  have hlt := hw.lt
  rcases @readLoop_next sb disk buf s 0 ho hmore with ⟨-, hindex, hrem, hoff, -⟩
  have hch : chunk sb s.remainder s.offset = sb.bytePerClus - s.offset := by
    unfold chunk
    omega
  have hbytes := h.bytes
  rw [hindex, hrem, hoff] at hbytes
  refine ⟨h.remainder, ?_, fun q hq => ?_⟩
  · rw [h.index, hindex, hrem]
    omega
  · by_cases hqb : s.offset + q < sb.bytePerClus
    · -- this byte is of the round
      rw [hframe _ (by omega) (by omega),
        readStep_mem hw ho hD.1 (hD.lt.trans (by decide)) (by omega), hch, if_pos (by omega),
        fileByte_cons_lt _ _ hqb, Nat.add_sub_cancel_left]
    · -- this one of a later round
      have hsplit : s.offset + q = 0 + (q - (sb.bytePerClus - s.offset)) + sb.bytePerClus := by
        omega
      have haddr : buf + s.index + q = buf + (s.index + (sb.bytePerClus - s.offset))
          + (q - (sb.bytePerClus - s.offset)) := by omega
      rw [hsplit, fileByte_cons_add, haddr]
      exact hbytes _ (by omega)

/-- **The loop along a chain** that is long enough. -/
theorem readLoop_chain : ∀ (l : List Nat) (fuel : Nat) (s : ReadLoop),
    (s.clus :: l).IsChain (fun c c' => fat32TableRead sb disk c = c') →
    (∀ d ∈ s.clus :: l, DataCluster sb d) → s.offset < sb.bytePerClus →
    s.offset + s.remainder ≤ (l.length + 1) * sb.bytePerClus → s.remainder ≤ fuel →
    Writable sb buf (s.index + s.remainder) →
    ReadAt sb disk buf (s.clus :: l) s (fat32ReadLoop sb disk buf (fuel + 1) s) := by
  intro l
  induction l with
  | nil =>
      intro fuel s _ hdata ho hsize _ hw
      rw [List.length_nil, Nat.zero_add, Nat.one_mul] at hsize
      exact readAt_last [] fuel hw ho (hdata _ List.mem_cons_self) hsize
  | cons c' l ih =>
      intro fuel s hlinked hdata ho hsize hfuel hw
      have hD := hdata _ List.mem_cons_self
      have hb := sb.bytePerClus_ge
      by_cases hle : s.offset + s.remainder ≤ sb.bytePerClus
      · exact readAt_last (c' :: l) fuel hw ho hD hle
      rcases List.isChain_cons_cons.mp hlinked with ⟨hnext, hrest⟩
      rcases @readLoop_next sb disk buf s fuel ho (by omega) with ⟨hclus, hindex, hrem, hoff, hloop⟩
      rw [hnext] at hclus hloop
      have hc' := (hdata c' (by simp)).1
      rw [hloop, if_pos (by omega)]
      have hlt := hw.lt
      have hdata' : ∀ d ∈ (fat32ReadStep sb disk buf s).clus :: l, DataCluster sb d := by
        rw [hclus]
        exact fun d hd => hdata d (List.mem_cons_of_mem _ hd)
      have hsize' : (fat32ReadStep sb disk buf s).offset + (fat32ReadStep sb disk buf s).remainder
          ≤ (l.length + 1) * sb.bytePerClus := by
        rw [List.length_cons, Nat.add_mul, Nat.one_mul] at hsize
        rw [hoff, hrem]
        omega
      have hw' : Writable sb buf ((fat32ReadStep sb disk buf s).index
          + (fat32ReadStep sb disk buf s).remainder) := by
        rw [hindex, hrem, show s.index + (sb.bytePerClus - s.offset)
          + (s.remainder - (sb.bytePerClus - s.offset)) = s.index + s.remainder by omega]
        exact hw
      obtain ⟨fuel, rfl⟩ : ∃ k, fuel = k + 1 := ⟨fuel - 1, by omega⟩
      have ih' := ih fuel (fat32ReadStep sb disk buf s) (by rw [hclus]; exact hrest) hdata'
        (by omega) hsize' (by omega) hw'
      rw [hclus] at ih'
      refine readAt_step hw ho hD (by omega) (fun a ha hlow => ?_) ih'
      exact readLoop_frame _ _ (by omega) a ha (by omega)

/-- The loop along a chain that is too short leaves something. -/
theorem readLoop_short : ∀ (l : List Nat) (fuel : Nat) (s : ReadLoop),
    (s.clus :: l).IsChain (fun c c' => fat32TableRead sb disk c = c') → (∀ d ∈ l, d ≠ 0) →
    (∀ c ∈ (s.clus :: l).getLast?, fat32TableRead sb disk c = 0) → s.offset < sb.bytePerClus →
    (l.length + 1) * sb.bytePerClus < s.offset + s.remainder → l.length ≤ fuel →
    (fat32ReadLoop sb disk buf (fuel + 1) s).remainder ≠ 0 := by
  intro l
  induction l with
  | nil =>
      intro fuel s _ _ hlast ho hsize _
      rw [List.length_nil, Nat.zero_add, Nat.one_mul] at hsize
      rcases @readLoop_next sb disk buf s fuel ho hsize with ⟨-, -, hrem, -, hloop⟩
      have hzero : fat32TableRead sb disk s.clus = 0 := hlast _ rfl
      rw [hloop, if_neg (fun h => h hzero), hrem]
      omega
  | cons c' l ih =>
      intro fuel s hlinked hne hlast ho hsize hfuel
      have hb := sb.bytePerClus_ge
      rw [List.length_cons, Nat.add_mul, Nat.one_mul] at hsize
      have hmul : sb.bytePerClus ≤ (l.length + 1) * sb.bytePerClus := Nat.le_mul_of_pos_left _ (by omega)
      rw [List.length_cons] at hfuel
      rcases List.isChain_cons_cons.mp hlinked with ⟨hnext, hrest⟩
      rcases @readLoop_next sb disk buf s fuel ho (by omega) with ⟨hclus, hindex, hrem, hoff, hloop⟩
      rw [hnext] at hclus hloop
      rw [hloop, if_pos (hne c' List.mem_cons_self)]
      obtain ⟨fuel, rfl⟩ : ∃ k, fuel = k + 1 := ⟨fuel - 1, by omega⟩
      apply ih
      · rw [hclus]
        exact hrest
      · exact fun d hd => hne d (List.mem_cons_of_mem _ hd)
      · intro c hc
        rw [hclus] at hc
        exact hlast c (by rwa [List.getLast?_cons_cons])
      · omega
      · omega
      · omega

end

/-! ## The file -/

/-- The file has a valid chain of clusters, which the lower 28 bits of the entries give, and which is
long enough for its size. -/
structure LowChain (sb : SbInfo) (disk : Buffer) (inode : Inode) (chain : List Nat) : Prop where
  first : inode.firstCluster = chain.headD 0
  linked : chain.IsChain (fun c c' => fatEntry sb disk c % 2 ^ 28 = c')
  cluster : ∀ c ∈ chain, DataCluster sb c ∧ c < 0xffffff7
  nodup : chain.Nodup
  size : inode.fileSize ≤ chain.length * sb.bytePerClus

/-- How many bytes a read is to deliver. -/
def readable (inode : Inode) (count position : Nat) : Nat := min count (inode.fileSize - position)

/-- A read delivers the bytes of the file, and nothing else; its value is their number, and the
position goes on by it. -/
structure ReadDelivers (sb : SbInfo) (disk : Buffer) (inode : Inode) (chain : List Nat)
    (mem : Buffer) (buf count position : Nat) (r : Buffer × Outcome) : Prop where
  ret : r.2.ret = some (readable inode count position : Int)
  moved : r.2.position = position + readable inode count position
  bytes : ∀ q < readable inode count position,
    fileByte sb disk chain (position + q) = some (r.1 (buf + q))
  frame : ∀ a < 2 ^ 64, ¬ (buf ≤ a ∧ a < buf + readable inode count position) → r.1 a = mem a

/-- A read delivers the bytes of the file, whatever the data clusters hold. -/
def ReadsFile (sb : SbInfo) (disk : Buffer) (inode : Inode) (chain : List Nat)
    (buf count position : Nat) : Prop :=
  ∀ disk' mem : Buffer, SameTable sb disk disk' →
    ReadDelivers sb disk' inode chain mem buf count position
      (fat32Read sb disk' inode mem buf count position)

/-- The condition: there is nothing to deliver; or the number of bytes fits into an `int`, the chain
reaches the position without leaving the clusters that follow the first, and the entries that lead
to the other bytes have no upper bits. -/
def ReadStraight (sb : SbInfo) (disk : Buffer) (inode : Inode) (chain : List Nat)
    (count position : Nat) : Prop :=
  readable inode count position = 0 ∨
  (readable inode count position < 2 ^ 31 ∧
    chain[position / sb.bytePerClus]? = some (inode.firstCluster + position / sb.bytePerClus) ∧
    ∀ i c, position / sb.bytePerClus ≤ i →
      (i + 1) * sb.bytePerClus < position + readable inode count position →
      chain[i]? = some c → fatEntry sb disk c < 2 ^ 28)

section

variable {sb : SbInfo} {disk disk' : Buffer} {inode : Inode} {chain : List Nat}
  {buf count position : Nat}

/-- The chain is that of any disk with the same table. -/
theorem LowChain.congr (h : LowChain sb disk inode chain) (hd : SameTable sb disk disk') :
    LowChain sb disk' inode chain := by
  refine { h with linked := ?_ }
  rw [List.isChain_iff_getElem]
  intro i hi
  have hD := (h.cluster chain[i] (List.getElem_mem _)).1
  rw [fatEntry_congr hd hD]
  exact h.linked.getElem i hi

theorem LowChain.length_le (h : LowChain sb disk inode chain) : chain.length ≤ 2 ^ 28 := by
  have hsub : chain ⊆ List.range (2 ^ 28) :=
    fun c hc => List.mem_range.mpr ((h.cluster c hc).2.trans (by decide))
  have := (List.subperm_of_subset h.nodup hsub).length_le
  rwa [List.length_range] at this

theorem LowChain.fileSize_lt (h : LowChain sb disk inode chain) : inode.fileSize < 2 ^ 46 := by
  have hlen := h.length_le
  have hb := sb.bytePerClus_lt
  have hsize := h.size
  have hmul : chain.length * sb.bytePerClus ≤ 2 ^ 28 * 2 ^ 17 :=
    Nat.mul_le_mul hlen (by omega)
  omega

/-- What is to be delivered is what the code takes for it. -/
theorem readRemainder_eq (hp : position ≤ inode.fileSize) (hs : inode.fileSize < 2 ^ 64)
    (hw : position + count < 2 ^ 64) :
    readRemainder inode count position = readable inode count position := by
  unfold readRemainder readable
  rw [add64_eq hw]
  split
  · rw [sub64_eq hp hs]
    omega
  · omega

/-- The variables of the loop at the start. -/
def readStart (sb : SbInfo) (inode : Inode) (mem : Buffer) (count position : Nat) : ReadLoop :=
  ⟨startCluster sb inode position, readable inode count position, 0,
    position % sb.bytePerClus, mem, []⟩

theorem fat32Read_loop (mem : Buffer) (hp : position ≤ inode.fileSize)
    (hs : inode.fileSize < 2 ^ 64) (hw : position + count < 2 ^ 64) :
    fat32Read sb disk inode mem buf count position
      = ((fat32ReadLoop sb disk buf (readable inode count position + 1)
          (readStart sb inode mem count position)).mem,
        ⟨if (fat32ReadLoop sb disk buf (readable inode count position + 1)
            (readStart sb inode mem count position)).remainder = 0
          then some (toInt (fat32ReadLoop sb disk buf (readable inode count position + 1)
            (readStart sb inode mem count position)).index) else none,
        add64 position (fat32ReadLoop sb disk buf (readable inode count position + 1)
          (readStart sb inode mem count position)).index,
        (fat32ReadLoop sb disk buf (readable inode count position + 1)
          (readStart sb inode mem count position)).areas⟩) := by
  unfold fat32Read readStart
  rw [readRemainder_eq hp hs hw]

theorem LowChain.startCluster_eq (h : LowChain sb disk inode chain)
    (hp : position ≤ inode.fileSize) :
    startCluster sb inode position = inode.firstCluster + position / sb.bytePerClus ∧
    startCluster sb inode position < 2 ^ 40 := by
  have hlen := h.length_le
  have hb := sb.bytePerClus_ge
  have hk : position / sb.bytePerClus ≤ chain.length :=
    Nat.div_le_of_le_mul ((hp.trans h.size).trans_eq (Nat.mul_comm _ _))
  have hfirst : inode.firstCluster < 2 ^ 28 := by
    rw [h.first]
    cases chain with
    | nil => simp
    | cons c l => exact (h.cluster c List.mem_cons_self).2.trans (by decide)
  have heq : startCluster sb inode position
      = inode.firstCluster + position / sb.bytePerClus := add64_eq (by omega)
  exact ⟨heq, by omega⟩

/-! ## The clusters that a read goes through -/

/-- `n` clusters of a chain, from index `k` on. -/
def chainPart (chain : List Nat) (k n : Nat) : List Nat := (chain.drop k).take n

theorem chainPart_length {k n : Nat} (h : k + n ≤ chain.length) :
    (chainPart chain k n).length = n := by
  rw [chainPart, List.length_take, List.length_drop]
  omega

theorem chainPart_getElem? {k n i : Nat} (hi : i < n) :
    (chainPart chain k n)[i]? = chain[k + i]? := by
  rw [chainPart, List.getElem?_take_of_lt hi, List.getElem?_drop]

/-- The part begins with the cluster at index `k`. -/
theorem chainPart_cons {k n c : Nat} (hc : chain[k]? = some c) :
    ∃ l, chainPart chain k (n + 1) = c :: l := by
  rcases List.getElem?_eq_some_iff.mp hc with ⟨hlt, hget⟩
  refine ⟨(chain.drop (k + 1)).take n, ?_⟩
  rw [chainPart, List.drop_eq_getElem_cons hlt, hget, List.take_succ_cons]

/-- An entry without upper bits is read as it is. -/
theorem LowChain.read_next (h : LowChain sb disk inode chain) {i c c' : Nat}
    (hc : chain[i]? = some c) (hc' : chain[i + 1]? = some c')
    (hup : fatEntry sb disk c < 2 ^ 28) : fat32TableRead sb disk c = c' := by
  rcases List.getElem?_eq_some_iff.mp hc with ⟨hlt, rfl⟩
  rcases List.getElem?_eq_some_iff.mp hc' with ⟨hlt', rfl⟩
  have hD := (h.cluster chain[i] (List.getElem_mem _)).1
  have hD' := (h.cluster chain[i + 1] (List.getElem_mem _)).2
  have hlink := h.linked.getElem i hlt'
  rw [Nat.mod_eq_of_lt hup] at hlink
  have h32 : chain[i] < 2 ^ 32 :=
    (h.cluster chain[i] (List.getElem_mem _)).2.trans (by decide)
  rw [fat32TableRead_entry h32, hlink, if_pos hD']

/-- One with upper bits ends the chain. -/
theorem LowChain.read_upper (h : LowChain sb disk inode chain) {c : Nat} (hc : c ∈ chain)
    (hup : 2 ^ 28 ≤ fatEntry sb disk c) : fat32TableRead sb disk c = 0 := by
  have h32 : c < 2 ^ 32 := (h.cluster c hc).2.trans (by decide)
  rw [fat32TableRead_entry h32, if_neg (by omega)]

/-- The clusters of a part follow each other, as far as their entries have no upper bits. -/
theorem LowChain.part_linked (h : LowChain sb disk inode chain) {k n : Nat}
    (hn : k + n ≤ chain.length)
    (hup : ∀ i c, k ≤ i → i + 1 < k + n → chain[i]? = some c → fatEntry sb disk c < 2 ^ 28) :
    (chainPart chain k n).IsChain (fun c c' => fat32TableRead sb disk c = c') := by
  rw [List.isChain_iff_getElem]
  intro i hi
  have hlen := chainPart_length hn
  have hc : chain[k + i]? = some (chainPart chain k n)[i] := by
    rw [← chainPart_getElem? (n := n) (by omega), List.getElem?_eq_getElem]
  have hc' : chain[k + i + 1]? = some (chainPart chain k n)[i + 1] := by
    rw [Nat.add_assoc, ← chainPart_getElem? (n := n) (by omega), List.getElem?_eq_getElem]
  exact h.read_next hc hc' (hup (k + i) _ (by omega) (by omega) hc)

theorem LowChain.part_data (h : LowChain sb disk inode chain) {k n : Nat} :
    ∀ c ∈ chainPart chain k n, DataCluster sb c :=
  fun c hc => (h.cluster c (List.mem_of_mem_drop (List.mem_of_mem_take hc))).1

/-- The bytes of a part are bytes of the file. -/
theorem fileByte_chainPart {n q : Nat} (p : Nat) (hq : p % sb.bytePerClus + q < n * sb.bytePerClus) :
    fileByte sb disk (chainPart chain (p / sb.bytePerClus) n) (p % sb.bytePerClus + q)
      = fileByte sb disk chain (p + q) := by
  have hb : 0 < sb.bytePerClus := lt_of_lt_of_le (by decide) sb.bytePerClus_ge
  have hdm := Nat.div_add_mod p sb.bytePerClus
  have hsum : p + q = p % sb.bytePerClus + q + sb.bytePerClus * (p / sb.bytePerClus) := by omega
  have hdiv : (p + q) / sb.bytePerClus
      = p / sb.bytePerClus + (p % sb.bytePerClus + q) / sb.bytePerClus := by
    rw [hsum, Nat.add_mul_div_left _ _ hb, Nat.add_comm]
  have hmod : (p + q) % sb.bytePerClus = (p % sb.bytePerClus + q) % sb.bytePerClus := by
    rw [hsum, Nat.add_mul_mod_self_left]
  have hlt : (p % sb.bytePerClus + q) / sb.bytePerClus < n :=
    Nat.div_lt_of_lt_mul (by rwa [Nat.mul_comm])
  unfold fileByte
  rw [hdiv, hmod, chainPart_getElem? hlt]

/-- What the loop is to do for the read to deliver. -/
structure LoopDelivers (sb : SbInfo) (disk : Buffer) (inode : Inode) (chain : List Nat)
    (buf count position : Nat) (s : ReadLoop) : Prop where
  remainder : s.remainder = 0
  index : s.index = readable inode count position
  bytes : ∀ q < readable inode count position,
    fileByte sb disk chain (position + q) = some (s.mem (buf + q))
  lt : readable inode count position < 2 ^ 31

theorem LoopDelivers.readDelivers {mem : Buffer} (hp : position ≤ inode.fileSize)
    (hs : inode.fileSize < 2 ^ 64) (hw : position + count < 2 ^ 64)
    (hbuf : Writable sb buf (readable inode count position))
    (h : LoopDelivers sb disk inode chain buf count position
      (fat32ReadLoop sb disk buf (readable inode count position + 1)
        (readStart sb inode mem count position))) :
    ReadDelivers sb disk inode chain mem buf count position
      (fat32Read sb disk inode mem buf count position) := by
  have hlt := hbuf.lt
  have hle : readable inode count position ≤ count := Nat.min_le_left _ _
  have hint : toInt (readable inode count position) = readable inode count position :=
    Int.bmod_eq_of_le (by have := h.lt; omega) (by have := h.lt; omega)
  rw [fat32Read_loop mem hp hs hw]
  constructor
  · dsimp only
    rw [if_pos h.remainder, h.index, hint]
  · dsimp only
    rw [h.index, add64_eq (by omega)]
  · exact h.bytes
  · intro a ha hout
    apply readLoop_frame _ (readStart sb inode mem count position) hlt a ha
    exact hout

/-- The clusters that the bytes are in: the last byte is in the last of them, and they are of the
chain. -/
theorem LowChain.needed (h : LowChain sb disk inode chain) {m : Nat} (hm : 0 < m)
    (hsize : position + m ≤ inode.fileSize) :
    ∃ n, position % sb.bytePerClus + m ≤ (n + 1) * sb.bytePerClus ∧
      n * sb.bytePerClus < position % sb.bytePerClus + m ∧
      position / sb.bytePerClus + (n + 1) ≤ chain.length := by
  have hb : 0 < sb.bytePerClus := lt_of_lt_of_le (by decide) sb.bytePerClus_ge
  have hdm := Nat.div_add_mod position sb.bytePerClus
  have hn := Nat.div_add_mod (position % sb.bytePerClus + m - 1) sb.bytePerClus
  have hlt := Nat.mod_lt (position % sb.bytePerClus + m - 1) hb
  refine ⟨(position % sb.bytePerClus + m - 1) / sb.bytePerClus, ?_, ?_, ?_⟩
  · rw [Nat.add_mul, Nat.one_mul, Nat.mul_comm]
    omega
  · rw [Nat.mul_comm]
    omega
  · -- the last byte is in a cluster of the chain
    have hlast : position + m - 1 < chain.length * sb.bytePerClus :=
      lt_of_lt_of_le (by omega) h.size
    have hsum : position + m - 1 = position % sb.bytePerClus + m - 1
        + sb.bytePerClus * (position / sb.bytePerClus) := by omega
    have hdiv : (position + m - 1) / sb.bytePerClus
        = (position % sb.bytePerClus + m - 1) / sb.bytePerClus + position / sb.bytePerClus := by
      rw [hsum, Nat.add_mul_div_left _ _ hb]
    have hidx : (position + m - 1) / sb.bytePerClus < chain.length :=
      Nat.div_lt_of_lt_mul (by rwa [Nat.mul_comm])
    omega

/-- The loop with nothing to copy. -/
theorem loopDelivers_nothing (mem : Buffer) (hzero : readable inode count position = 0) :
    LoopDelivers sb disk inode chain buf count position
      (fat32ReadLoop sb disk buf (readable inode count position + 1)
        (readStart sb inode mem count position)) := by
  have hrem : (readStart sb inode mem count position).remainder = 0 := hzero
  have hch : chunk sb (readStart sb inode mem count position).remainder
      (readStart sb inode mem count position).offset
      = (readStart sb inode mem count position).remainder := by
    have hle := chunk_le_remainder sb (readStart sb inode mem count position).remainder
      (readStart sb inode mem count position).offset
    omega
  have hlast := @readLoop_last sb disk buf _ (readable inode count position) hch
  rw [hlast.1]
  refine ⟨hlast.2.1, ?_, fun q hq => absurd hq (by omega), by omega⟩
  rw [hlast.2.2]
  exact Nat.zero_add _

/-- The loop along the clusters that the bytes are in. -/
theorem LowChain.loopDelivers (h : LowChain sb disk inode chain) (hp : position ≤ inode.fileSize)
    (hbuf : Writable sb buf (readable inode count position)) (mem : Buffer)
    (hpos : 0 < readable inode count position) (h31 : readable inode count position < 2 ^ 31)
    (hstart : chain[position / sb.bytePerClus]?
      = some (inode.firstCluster + position / sb.bytePerClus))
    (hup : ∀ i c, position / sb.bytePerClus ≤ i →
      (i + 1) * sb.bytePerClus < position + readable inode count position →
      chain[i]? = some c → fatEntry sb disk c < 2 ^ 28) :
    LoopDelivers sb disk inode chain buf count position
      (fat32ReadLoop sb disk buf (readable inode count position + 1)
        (readStart sb inode mem count position)) := by
  have hdm := Nat.div_add_mod position sb.bytePerClus
  have hm : position + readable inode count position ≤ inode.fileSize := by
    unfold readable
    omega
  rcases h.needed hpos hm with ⟨n, hfit, hin, hlen⟩
  rcases @chainPart_cons chain (position / sb.bytePerClus) n _ hstart with ⟨l, hl⟩
  have hclus : (readStart sb inode mem count position).clus
      = inode.firstCluster + position / sb.bytePerClus := (h.startCluster_eq hp).1
  have hlength : l.length = n := by
    have := chainPart_length hlen
    rw [hl, List.length_cons] at this
    omega
  have hlinked : ((inode.firstCluster + position / sb.bytePerClus) :: l).IsChain
      (fun c c' => fat32TableRead sb disk c = c') := by
    rw [← hl]
    refine h.part_linked hlen (fun i c hi hlt hc => hup i c hi ?_ hc)
    have hmul : (i + 1) * sb.bytePerClus ≤ (position / sb.bytePerClus + n) * sb.bytePerClus :=
      Nat.mul_le_mul_right _ (by omega)
    rw [Nat.add_mul (position / sb.bytePerClus), Nat.mul_comm (position / sb.bytePerClus)] at hmul
    omega
  have hdata : ∀ d ∈ (inode.firstCluster + position / sb.bytePerClus) :: l, DataCluster sb d := by
    rw [← hl]
    exact h.part_data
  have hw : Writable sb buf ((readStart sb inode mem count position).index
      + (readStart sb inode mem count position).remainder) := by
    show Writable sb buf (0 + readable inode count position)
    rwa [Nat.zero_add]
  rw [← hclus] at hlinked hdata
  have hat := readLoop_chain l (readable inode count position)
    (readStart sb inode mem count position) hlinked hdata (sb.offset_lt position)
    (by rw [hlength]; exact hfit) le_rfl hw
  refine ⟨hat.remainder, hat.index.trans (Nat.zero_add _), fun q hq => ?_, h31⟩
  have hq' := hat.bytes q hq
  rw [hclus, ← hl] at hq'
  have hbyte : fileByte sb disk (chainPart chain (position / sb.bytePerClus) (n + 1))
      (position % sb.bytePerClus + q) = fileByte sb disk chain (position + q) :=
    fileByte_chainPart position (by omega)
  exact hbyte.symm.trans hq'

/-- **Under the condition** a read delivers the bytes of the file. -/
theorem LowChain.readsFile (h : LowChain sb disk inode chain) (hp : position ≤ inode.fileSize)
    (hw : position + count < 2 ^ 64) (hbuf : Writable sb buf (readable inode count position))
    (hstraight : ReadStraight sb disk inode chain count position) :
    ReadsFile sb disk inode chain buf count position := by
  intro disk' mem hd
  apply LoopDelivers.readDelivers hp (h.fileSize_lt.trans (by decide)) hw hbuf
  rcases Nat.eq_zero_or_pos (readable inode count position) with hzero | hpos
  · exact loopDelivers_nothing mem hzero
  rcases hstraight with hzero | ⟨h31, hstart, hup⟩
  · omega
  · refine (h.congr hd).loopDelivers hp hbuf mem hpos h31 hstart (fun i c hi hlt hc => ?_)
    rw [fatEntry_congr hd (h.cluster c (List.mem_of_getElem? hc)).1]
    exact hup i c hi hlt hc

/-! ## The condition is needed -/

/-- A read that delivers some bytes delivers no more than an `int` holds. -/
theorem ReadDelivers.lt {mem : Buffer} (hp : position ≤ inode.fileSize)
    (hs : inode.fileSize < 2 ^ 64) (hw : position + count < 2 ^ 64)
    (h : ReadDelivers sb disk inode chain mem buf count position
      (fat32Read sb disk inode mem buf count position)) :
    readable inode count position < 2 ^ 31 ∧
    (fat32ReadLoop sb disk buf (readable inode count position + 1)
      (readStart sb inode mem count position)).remainder = 0 := by
  have hsum := (@readOnward_loop sb disk buf (readable inode count position + 1)
    (readStart sb inode mem count position)).sum
  have hret := h.ret
  rw [fat32Read_loop mem hp hs hw] at hret
  dsimp only at hret
  by_cases hrem : (fat32ReadLoop sb disk buf (readable inode count position + 1)
      (readStart sb inode mem count position)).remainder = 0
  · rw [if_pos hrem] at hret
    have hindex : (fat32ReadLoop sb disk buf (readable inode count position + 1)
        (readStart sb inode mem count position)).index = readable inode count position := by
      rw [hrem, Nat.add_zero] at hsum
      exact hsum.trans (Nat.zero_add _)
    rw [hindex] at hret
    have hint : toInt (readable inode count position) = readable inode count position :=
      Option.some.inj hret
    have hlt := Int.bmod_lt (x := (readable inode count position : Int)) (m := 2 ^ 32) (by decide)
    unfold toInt at hint
    exact ⟨by omega, hrem⟩
  · rw [if_neg hrem] at hret
    cases hret

/-- The disk with another byte at one place of a data cluster. -/
def changeByte (sb : SbInfo) (disk : Buffer) (c i : Nat) (v : UInt8) : Buffer :=
  overlay disk (clusterAddr sb c + i) 1 (fun _ => v)

theorem sameTable_changeByte (c i : Nat) (v : UInt8) :
    SameTable sb disk (changeByte sb disk c i v) := by
  intro a ha
  apply overlay_of_lt
  unfold clusterAddr
  omega

theorem clusterByte_changeByte (c i : Nat) (v : UInt8) :
    clusterByte sb (changeByte sb disk c i v) c i = v := by
  unfold clusterByte changeByte
  exact overlay_of_mem le_rfl (Nat.lt_succ_self _)

theorem clusterByte_changeByte_ne {c c' i : Nat} (v : UInt8) (h2 : 2 ≤ c) (h2' : 2 ≤ c')
    (hne : c' ≠ c) (hi : i < sb.bytePerClus) :
    clusterByte sb (changeByte sb disk c i v) c' i = clusterByte sb disk c' i := by
  unfold clusterByte changeByte
  apply overlay_of_not_mem
  intro h
  exact hne (clusterAddr_inj h2' h2 hi hi (by omega)).1

/-- The first byte tells at which cluster the loop has started. -/
theorem LowChain.start_of_reads (h : LowChain sb disk inode chain)
    (hp : position ≤ inode.fileSize) (hw : position + count < 2 ^ 64)
    (hbuf : Writable sb buf (readable inode count position))
    (hpos : 0 < readable inode count position)
    (hreads : ReadsFile sb disk inode chain buf count position) :
    chain[position / sb.bytePerClus]?
      = some (inode.firstCluster + position / sb.bytePerClus) := by
  have hs : inode.fileSize < 2 ^ 64 := h.fileSize_lt.trans (by decide)
  have hm : position + readable inode count position ≤ inode.fileSize := by
    unfold readable
    omega
  rcases h.needed hpos hm with ⟨n, -, -, hlen⟩
  rcases h.startCluster_eq hp with ⟨hclus, hclt⟩
  have ho := sb.offset_lt position
  have hc : chain[position / sb.bytePerClus]? = some chain[position / sb.bytePerClus] :=
    List.getElem?_eq_getElem (by omega)
  have hD := (h.cluster _ (List.mem_of_getElem? hc)).1
  have hfirst : 2 ≤ inode.firstCluster := by
    rw [h.first]
    cases chain with
    | nil => exact absurd hlen (by simp)
    | cons c l => exact (h.cluster c List.mem_cons_self).1.1
  have hstart2 : 2 ≤ startCluster sb inode position := by
    rw [hclus]
    exact hfirst.trans (Nat.le_add_right _ _)
  by_contra hne
  have hne' : startCluster sb inode position ≠ chain[position / sb.bytePerClus] := by
    rw [hclus]
    intro heq
    rw [heq] at hne
    exact hne hc
  -- the two clusters get different bytes at the offset
  let v := clusterByte sb disk (startCluster sb inode position) (position % sb.bytePerClus) + 1
  let disk' := changeByte sb disk chain[position / sb.bytePerClus] (position % sb.bytePerClus) v
  have hd := (hreads disk' newBuffer (sameTable_changeByte _ _ _)).bytes 0 hpos
  rw [fat32Read_loop newBuffer hp hs hw] at hd
  have hbyte := @readLoop_first sb disk' buf (readStart sb inode newBuffer count position)
    (readable inode count position) (by show Writable sb buf (0 + _); rwa [Nat.zero_add]) ho
    hstart2 hclt hpos
  have hold : clusterByte sb disk' (startCluster sb inode position) (position % sb.bytePerClus)
      = clusterByte sb disk (startCluster sb inode position) (position % sb.bytePerClus) :=
    clusterByte_changeByte_ne v hD.1 hstart2 hne' ho
  have hnew : fileByte sb disk' chain (position + 0) = some v := by
    unfold fileByte
    rw [Nat.add_zero, hc, Option.map_some]
    exact congrArg some (clusterByte_changeByte _ _ _)
  have hv : v = clusterByte sb disk (startCluster sb inode position)
      (position % sb.bytePerClus) := by
    rw [hnew] at hd
    rw [← hold]
    exact (Option.some.inj hd).trans hbyte
  have hnat := congrArg UInt8.toNat hv
  rw [UInt8.toNat_add] at hnat
  have := (clusterByte sb disk (startCluster sb inode position)
    (position % sb.bytePerClus)).toNat_lt
  have h1 : (1 : UInt8).toNat = 1 := rfl
  omega

/-- The loop has not come to an entry with upper bits. -/
theorem LowChain.upper_of_reads (h : LowChain sb disk inode chain)
    (hp : position ≤ inode.fileSize) {mem : Buffer}
    (hstart : chain[position / sb.bytePerClus]?
      = some (inode.firstCluster + position / sb.bytePerClus))
    (hrem : (fat32ReadLoop sb disk buf (readable inode count position + 1)
      (readStart sb inode mem count position)).remainder = 0) :
    ∀ i c, position / sb.bytePerClus ≤ i →
      (i + 1) * sb.bytePerClus < position + readable inode count position →
      chain[i]? = some c → fatEntry sb disk c < 2 ^ 28 := by
  have hb := sb.bytePerClus_ge
  have hdm := Nat.div_add_mod position sb.bytePerClus
  have hm : position + readable inode count position ≤ inode.fileSize := by
    unfold readable
    omega
  intro i
  induction i using Nat.strong_induction_on with
  | _ i ih =>
      intro c hi hlt hc
      by_contra hup
      -- the part of the chain up to this cluster is too short
      obtain ⟨n, rfl⟩ : ∃ n, i = position / sb.bytePerClus + n :=
        ⟨i - position / sb.bytePerClus, by omega⟩
      have hlen : position / sb.bytePerClus + (n + 1) ≤ chain.length :=
        (List.getElem?_eq_some_iff.mp hc).1
      rcases @chainPart_cons chain (position / sb.bytePerClus) n _ hstart with ⟨l, hl⟩
      have hlength : l.length = n := by
        have := chainPart_length hlen
        rw [hl, List.length_cons] at this
        omega
      have hclus : (readStart sb inode mem count position).clus
          = inode.firstCluster + position / sb.bytePerClus := (h.startCluster_eq hp).1
      have hlinked : ((inode.firstCluster + position / sb.bytePerClus) :: l).IsChain
          (fun c c' => fat32TableRead sb disk c = c') := by
        rw [← hl]
        refine h.part_linked hlen (fun j d hj hjn hd => ih j (by omega) d hj ?_ hd)
        exact lt_of_le_of_lt (Nat.mul_le_mul_right _ (by omega)) hlt
      have hdata : ∀ d ∈ l, d ≠ 0 := by
        intro d hd
        have hmem : d ∈ chainPart chain (position / sb.bytePerClus) (n + 1) := by
          rw [hl]
          exact List.mem_cons_of_mem _ hd
        have := (h.part_data d hmem).1
        omega
      have hlast : ∀ d ∈ ((inode.firstCluster + position / sb.bytePerClus) :: l).getLast?,
          fat32TableRead sb disk d = 0 := by
        intro d hd
        rw [← hl, List.getLast?_eq_getElem?, chainPart_length hlen, Nat.add_sub_cancel,
          chainPart_getElem? (Nat.lt_succ_self n), hc] at hd
        rw [← Option.some.inj hd]
        exact h.read_upper (List.mem_of_getElem? hc) (by omega)
      have hroom : (l.length + 1) * sb.bytePerClus
          < (readStart sb inode mem count position).offset
            + (readStart sb inode mem count position).remainder := by
        show _ < position % sb.bytePerClus + readable inode count position
        have hsplit : (position / sb.bytePerClus + n + 1) * sb.bytePerClus
            = sb.bytePerClus * (position / sb.bytePerClus) + (n + 1) * sb.bytePerClus := by ring
        rw [hlength]
        omega
      have hfuel : l.length ≤ readable inode count position := by
        have hle : n * 1 ≤ n * sb.bytePerClus := Nat.mul_le_mul_left _ (by omega)
        have ho := sb.offset_lt position
        have hroom' : (l.length + 1) * sb.bytePerClus
            < position % sb.bytePerClus + readable inode count position := hroom
        rw [hlength, Nat.add_mul, Nat.one_mul] at hroom'
        omega
      rw [← hclus] at hlinked hlast
      exact readLoop_short l (readable inode count position)
        (readStart sb inode mem count position) hlinked hdata hlast (sb.offset_lt position) hroom
        hfuel hrem

/-- **`fat32_read` returns the bytes of the file** exactly under `ReadStraight`. -/
theorem fat32Read_delivers (sb : SbInfo) (disk : Buffer) (inode : Inode) (chain : List Nat)
    (buf count position : Nat) (h : LowChain sb disk inode chain)
    (hp : position ≤ inode.fileSize) (hw : position + count < 2 ^ 64)
    (hbuf : Writable sb buf (readable inode count position)) :
    ReadsFile sb disk inode chain buf count position ↔
      ReadStraight sb disk inode chain count position := by
  constructor
  · intro hreads
    rcases Nat.eq_zero_or_pos (readable inode count position) with hzero | hpos
    · exact Or.inl hzero
    · have hs : inode.fileSize < 2 ^ 64 := h.fileSize_lt.trans (by decide)
      have hlt := (hreads disk newBuffer (fun _ _ => rfl)).lt hp hs hw
      have hstart := h.start_of_reads hp hw hbuf hpos hreads
      exact Or.inr ⟨hlt.1, hstart, h.upper_of_reads hp hstart hlt.2⟩
  · exact h.readsFile hp hw hbuf

end

/-- A file of two clusters that follow each other. -/
theorem exampleLowChain :
    LowChain exampleSb exampleDisk2 ⟨1024, 5, 2, 3, 0, 0⟩ [5, 6] where
  first := rfl
  linked := List.isChain_pair.mpr (by decide +kernel)
  cluster := by decide
  nodup := by decide
  size := by decide

theorem fat32Read_delivers_example :
    ReadsFile exampleSb exampleDisk2 ⟨1024, 5, 2, 3, 0, 0⟩ [5, 6] 0x800000 1000 24 := by
  apply (fat32Read_delivers exampleSb exampleDisk2 ⟨1024, 5, 2, 3, 0, 0⟩ [5, 6] 0x800000 1000 24
    exampleLowChain (by decide) (by decide) (Or.inl (by decide))).mpr
  refine Or.inr ⟨by decide, rfl, fun i c _ hlt hc => ?_⟩
  have hi : i = 0 := by
    have hr : readable ⟨1024, 5, 2, 3, 0, 0⟩ 1000 24 = 1000 := rfl
    have hb : exampleSb.bytePerClus = 512 := rfl
    rw [hr, hb] at hlt
    omega
  subst hi
  have hc : 5 = c := Option.some.inj hc
  rw [← hc]
  decide +kernel

/-- A disk on which cluster 7 comes after cluster 5. -/
def exampleDisk3 : Buffer := putLE exampleDisk (32 * 512 + 5 * 4) 4 7

theorem exampleLowChain3 :
    LowChain exampleSb exampleDisk3 ⟨1024, 5, 2, 3, 0, 0⟩ [5, 7] where
  first := rfl
  linked := List.isChain_pair.mpr (by decide +kernel)
  cluster := by decide
  nodup := by decide
  size := by decide

/-- The second cluster of that file: cluster 6 is read instead. -/
theorem fat32Read_not_delivers : ¬ ∀ (sb : SbInfo) (disk : Buffer) (inode : Inode)
    (chain : List Nat) (buf count position : Nat), LowChain sb disk inode chain →
    position ≤ inode.fileSize → position + count < 2 ^ 64 →
    Writable sb buf (readable inode count position) →
    ReadsFile sb disk inode chain buf count position := by
  intro hall
  have hreads := hall exampleSb exampleDisk3 ⟨1024, 5, 2, 3, 0, 0⟩ [5, 7] 0x800000 1 512
    exampleLowChain3 (by decide) (by decide) (Or.inl (by decide))
  have hstart := exampleLowChain3.start_of_reads (by decide) (by decide) (Or.inl (by decide))
    (by decide) hreads
  exact absurd hstart (by decide)

end Talios
