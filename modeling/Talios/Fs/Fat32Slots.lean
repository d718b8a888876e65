import Talios.Fs.Fat32Lookup

set_option autoImplicit false

/-! # The slots of a directory

A directory is a chain of clusters, and its slots are those of its clusters one after the other.
`fat32_lookup` is a scan of these slots (`fat32Lookup_slots`). `fat32_readdir` is a scan as well, but
of what it has read of them: the first sector of each cluster (`fat32Readdir_slots`).
-/

namespace Talios

open Bytes Word

/-! ## Chains -/

/-- The number of slots in a cluster. -/
def SbInfo.slotsPerClus (sb : SbInfo) : Nat := sb.bytePerClus / DIRECTORY_SIZE

theorem SbInfo.slotsPerClus_eq (sb : SbInfo) : sb.slotsPerClus = sb.secPerClus * 16 := by
  have h := sb.bytePerClus_eq_mul
  unfold SbInfo.slotsPerClus DIRECTORY_SIZE
  unfold BYTE_PER_VSEC at h
  omega

theorem SbInfo.slotsPerClus_pos (sb : SbInfo) : 0 < sb.slotsPerClus := by
  have h := sb.secPerClus_pos
  rw [sb.slotsPerClus_eq]
  omega

theorem SbInfo.bytePerClus_slots (sb : SbInfo) :
    sb.bytePerClus = sb.slotsPerClus * DIRECTORY_SIZE := by
  rw [sb.bytePerClus_eq_mul, sb.slotsPerClus_eq, BYTE_PER_VSEC, DIRECTORY_SIZE]
  ring

/-- The clusters follow each other in the table, and the table ends the chain after the last. -/
def ClusterChain (sb : SbInfo) (disk : Buffer) : List Nat → Prop
  | [] => True
  | c :: l => c ≠ 0 ∧ fat32TableRead sb disk c = l.headD 0 ∧ ClusterChain sb disk l

/-- The clusters of a directory. The upper four bits of a cluster number are not part of it. -/
structure DirChain (sb : SbInfo) (disk : Buffer) (inode : Inode) (chain : List Nat) : Prop where
  first : inode.firstCluster = chain.headD 0
  first_lt : inode.firstCluster < 2 ^ 28
  nonempty : chain ≠ []
  links : ClusterChain sb disk chain

section

variable {sb : SbInfo} {disk stale : Buffer}

/-- A chain is given by its first cluster. -/
theorem ClusterChain.unique : ∀ {l l' : List Nat}, ClusterChain sb disk l →
    ClusterChain sb disk l' → l.headD 0 = l'.headD 0 → l = l'
  | [], [], _, _, _ => rfl
  | [], _ :: _, _, h', hhead => absurd hhead.symm h'.1
  | _ :: _, [], h, _, hhead => absurd hhead h.1
  | c :: l, c' :: l', h, h', hhead => by
      have hc : c = c' := hhead
      have hl : l.headD 0 = l'.headD 0 := by rw [← h.2.1, ← h'.2.1, hc]
      rw [hc, h.2.2.unique h'.2.2 hl]

theorem ClusterChain.of_append {l' : List Nat} : ∀ {l : List Nat},
    ClusterChain sb disk (l ++ l') → ClusterChain sb disk l'
  | [], h => h
  | _ :: _, h => h.2.2.of_append

/-- No cluster comes twice. -/
theorem ClusterChain.nodup {l : List Nat} (h : ClusterChain sb disk l) : l.Nodup := by
  induction l with
  | nil => exact List.nodup_nil
  | cons c l ih =>
      refine List.nodup_cons.mpr ⟨fun hmem => ?_, ih h.2.2⟩
      -- the chain from the second `c` on would be the whole chain
      rcases List.append_of_mem hmem with ⟨a, b, hab⟩
      have hb : ClusterChain sb disk (c :: b) := by
        apply ClusterChain.of_append (l := a)
        rw [← hab]
        exact h.2.2
      have heq : c :: l = c :: b := h.unique hb rfl
      have hlen := congrArg List.length heq
      rw [hab] at hlen
      simp at hlen
      omega

end

/-- The slots of a cluster. -/
def clusterSlots (sb : SbInfo) (disk : Buffer) (clus : Nat) : List Buffer :=
  slots (ideRead disk (clusToLba sb clus) sb.secPerClus newBuffer) sb.slotsPerClus

/-- The slots of a directory. -/
def dirSlots (sb : SbInfo) (disk : Buffer) (chain : List Nat) : List Buffer :=
  chain.flatMap (clusterSlots sb disk)

@[simp] theorem slots_length (diskBuf : Buffer) (n : Nat) : (slots diskBuf n).length = n := by
  simp [slots]

@[simp] theorem clusterSlots_length (sb : SbInfo) (disk : Buffer) (clus : Nat) :
    (clusterSlots sb disk clus).length = sb.slotsPerClus := slots_length _ _

theorem dirSlots_cons (sb : SbInfo) (disk : Buffer) (c : Nat) (l : List Nat) :
    dirSlots sb disk (c :: l) = clusterSlots sb disk c ++ dirSlots sb disk l := List.flatMap_cons

/-! ## Looking up is a scan -/

/-- The index of what is found, counted from another slot. -/
def Scan.shift (n : Nat) : Scan → Scan
  | .outside => .outside
  | .found i => .found (n + i)
  | .next lnameBuf => .next lnameBuf

/-- More slots follow. -/
def Scan.andThen (f : Buffer → Scan) : Scan → Scan
  | .outside => .outside
  | .found i => .found i
  | .next lnameBuf => f lnameBuf

theorem lookupSlot_shift (name : List UInt8) (e : Buffer) (n i : Nat) (lnameBuf : Buffer) :
    lookupSlot name e (n + i) lnameBuf = (lookupSlot name e i lnameBuf).shift n := by
  unfold lookupSlot
  repeat' split
  all_goals rfl

theorem lookupScan_shift (name : List UInt8) (n : Nat) : ∀ (es : List Buffer) (i : Nat)
    (lnameBuf : Buffer),
    lookupScan name es (n + i) lnameBuf = (lookupScan name es i lnameBuf).shift n
  | [], _, _ => rfl
  | e :: es, i, lnameBuf => by
      rw [lookupScan, lookupScan, lookupSlot_shift]
      cases lookupSlot name e i lnameBuf with
      | outside => rfl
      | found j => rfl
      | next lnameBuf => exact lookupScan_shift name n es (i + 1) lnameBuf

theorem lookupScan_append (name : List UInt8) (es' : List Buffer) : ∀ (es : List Buffer) (i : Nat)
    (lnameBuf : Buffer), lookupScan name (es ++ es') i lnameBuf
      = (lookupScan name es i lnameBuf).andThen (lookupScan name es' (i + es.length))
  | [], _, _ => rfl
  | e :: es, i, lnameBuf => by
      rw [List.cons_append, lookupScan, lookupScan]
      cases lookupSlot name e i lnameBuf with
      | outside => rfl
      | found j => rfl
      | next lnameBuf =>
          dsimp only
          rw [lookupScan_append, List.length_cons, Nat.add_comm es.length, Nat.add_assoc]

/-- What is found is one of the slots. -/
theorem lookupScan_found (name : List UInt8) {k : Nat} : ∀ (es : List Buffer) (i : Nat)
    (lnameBuf : Buffer), lookupScan name es i lnameBuf = .found k → i ≤ k ∧ k < i + es.length
  | [], _, _, h => by cases h
  | e :: es, i, lnameBuf, h => by
      have hslot : lookupSlot name e i lnameBuf = .found k → k = i := by
        unfold lookupSlot
        repeat' split
        all_goals
          intro h
          cases h <;> rfl
      rw [lookupScan] at h
      rw [List.length_cons]
      cases hs : lookupSlot name e i lnameBuf with
      | outside =>
          rw [hs] at h
          cases h
      | found j =>
          rw [hs] at h
          have hk : k = i := hslot (hs.trans h)
          omega
      | next lnameBuf' =>
          rw [hs] at h
          have := lookupScan_found name es (i + 1) lnameBuf' h
          omega

/-- The node for slot `k` of a directory. -/
def nodeAt (sb : SbInfo) (disk : Buffer) (chain : List Nat) (k : Nat) : FoundNode :=
  let clus := chain.getD (k / sb.slotsPerClus) 0
  let diskBuf := ideRead disk (clusToLba sb clus) sb.secPerClus newBuffer
  foundNode sb (slot diskBuf (k % sb.slotsPerClus)) clus (k % sb.slotsPerClus)

/-- What a scan of the slots of a directory means for the lookup. -/
def Scan.result (sb : SbInfo) (disk : Buffer) (chain : List Nat) : Scan → LookupResult
  | .outside => .outside
  | .found k => .found (nodeAt sb disk chain k)
  | .next _ => .missing

section

variable {sb : SbInfo} {disk stale : Buffer}

theorem nodeAt_add (c : Nat) (l : List Nat) (k : Nat) :
    nodeAt sb disk (c :: l) (sb.slotsPerClus + k) = nodeAt sb disk l k := by
  have hdiv : (sb.slotsPerClus + k) / sb.slotsPerClus = k / sb.slotsPerClus + 1 :=
    Nat.add_div_left k sb.slotsPerClus_pos
  have hmod : (sb.slotsPerClus + k) % sb.slotsPerClus = k % sb.slotsPerClus :=
    Nat.add_mod_left _ _
  unfold nodeAt
  rw [hdiv, hmod, List.getD_cons_succ]

theorem nodeAt_lt (c : Nat) (l : List Nat) {k : Nat} (hk : k < sb.slotsPerClus) :
    nodeAt sb disk (c :: l) k
      = foundNode sb (slot (ideRead disk (clusToLba sb c) sb.secPerClus newBuffer) k) c k := by
  unfold nodeAt
  rw [Nat.div_eq_of_lt hk, Nat.mod_eq_of_lt hk, List.getD_cons_zero]

theorem Scan.result_shift (c : Nat) (l : List Nat) (s : Scan) :
    (s.shift sb.slotsPerClus).result sb disk (c :: l) = s.result sb disk l := by
  cases s with
  | outside => rfl
  | found k => exact congrArg LookupResult.found (nodeAt_add c l k)
  | next lnameBuf => rfl

/-- The loop over the clusters: it ends with the result of the scan, once it has rounds enough. -/
theorem lookupLoop_slots (name : List UInt8) : ∀ (chain : List Nat) (fuel : Nat)
    (lnameBuf : Buffer), ClusterChain sb disk chain →
    (∀ r, lookupLoop sb disk name fuel (chain.headD 0) lnameBuf = some r →
      r = (lookupScan name (dirSlots sb disk chain) 0 lnameBuf).result sb disk chain) ∧
    (chain.length < fuel → lookupLoop sb disk name fuel (chain.headD 0) lnameBuf
      = some ((lookupScan name (dirSlots sb disk chain) 0 lnameBuf).result sb disk chain))
  | chain, 0, lnameBuf, _ => ⟨fun r h => (by cases h), fun h => absurd h (by omega)⟩
  | [], fuel + 1, lnameBuf, _ => ⟨fun r h => by cases h; rfl, fun _ => rfl⟩
  | c :: l, fuel + 1, lnameBuf, hchain => by
      rw [List.headD_cons, lookupLoop, if_neg hchain.1, dirSlots_cons, lookupScan_append,
        Nat.zero_add, clusterSlots_length]
      have hscan : lookupScan name (clusterSlots sb disk c) 0 lnameBuf
          = lookupScan name (slots (ideRead disk (clusToLba sb c) sb.secPerClus newBuffer)
              (sb.bytePerClus / DIRECTORY_SIZE)) 0 lnameBuf := rfl
      dsimp only
      rw [← hscan, hchain.2.1]
      cases hs : lookupScan name (clusterSlots sb disk c) 0 lnameBuf with
      | outside => exact ⟨fun r h => by cases h; rfl, fun _ => rfl⟩
      | found k =>
          have hk := lookupScan_found name _ _ _ hs
          rw [clusterSlots_length, Nat.zero_add] at hk
          have hnode : (Scan.found k).result sb disk (c :: l) = .found (foundNode sb
              (slot (ideRead disk (clusToLba sb c) sb.secPerClus newBuffer) k) c k) :=
            congrArg LookupResult.found (nodeAt_lt c l hk.2)
          dsimp only [Scan.andThen]
          rw [hnode]
          exact ⟨fun r h => by cases h; rfl, fun _ => rfl⟩
      | next lnameBuf' =>
          have ih := lookupLoop_slots name l fuel lnameBuf' hchain.2.2
          dsimp only [Scan.andThen]
          have hshift := lookupScan_shift name sb.slotsPerClus (dirSlots sb disk l) 0 lnameBuf'
          rw [Nat.add_zero] at hshift
          rw [hshift, Scan.result_shift]
          exact ⟨ih.1, fun h => ih.2 (by simpa using h)⟩

/-- **`fat32_lookup` is a scan** of the slots of the directory, from the first on. -/
theorem fat32Lookup_slots {inode : Inode} {chain : List Nat} (h : DirChain sb disk inode chain)
    (name : List UInt8) (r : LookupResult) :
    (∃ fuel, fat32Lookup sb disk inode name fuel = some r) ↔
      r = (lookupScan (name.takeWhile (· ≠ 0)) (dirSlots sb disk chain) 0 newBuffer).result sb disk
        chain := by
  have hfirst : inode.firstCluster % 2 ^ 28 = chain.headD 0 := by
    rw [Nat.mod_eq_of_lt h.first_lt, h.first]
  have hloop := @lookupLoop_slots sb disk (name.takeWhile (· ≠ 0)) chain
  unfold fat32Lookup
  rw [hfirst]
  constructor
  · rintro ⟨fuel, hr⟩
    exact (hloop fuel newBuffer h.links).1 r hr
  · rintro rfl
    exact ⟨chain.length + 1, (hloop (chain.length + 1) newBuffer h.links).2 (by omega)⟩

theorem foundNode_dentryLocation (e : Buffer) (clus i : Nat) :
    (foundNode sb e clus i).dentryLocation = clus := by
  unfold foundNode
  dsimp only
  split <;> rfl

theorem foundNode_dentryPosition (e : Buffer) (clus i : Nat) :
    (foundNode sb e clus i).dentryPosition = i := by
  unfold foundNode
  dsimp only
  split <;> rfl

/-- A node says which slot it was made for. -/
theorem DirChain.nodeAt_slot {inode : Inode} {chain : List Nat} (h : DirChain sb disk inode chain)
    {k k' : Nat} (hk : k < chain.length * sb.slotsPerClus)
    (hk' : k' < chain.length * sb.slotsPerClus)
    (hloc : (nodeAt sb disk chain k).dentryLocation = chain.getD (k' / sb.slotsPerClus) 0)
    (hpos : (nodeAt sb disk chain k).dentryPosition = k' % sb.slotsPerClus) : k = k' := by
  rw [nodeAt, foundNode_dentryLocation] at hloc
  rw [nodeAt, foundNode_dentryPosition] at hpos
  have hq : k / sb.slotsPerClus < chain.length :=
    Nat.div_lt_of_lt_mul (by rwa [Nat.mul_comm])
  have hq' : k' / sb.slotsPerClus < chain.length :=
    Nat.div_lt_of_lt_mul (by rwa [Nat.mul_comm])
  rw [List.getD_eq_getElem _ _ hq, List.getD_eq_getElem _ _ hq'] at hloc
  have hdiv : k / sb.slotsPerClus = k' / sb.slotsPerClus :=
    (h.links.nodup.getElem_inj_iff).mp hloc
  calc k = sb.slotsPerClus * (k / sb.slotsPerClus) + k % sb.slotsPerClus :=
        (Nat.div_add_mod _ _).symm
    _ = sb.slotsPerClus * (k' / sb.slotsPerClus) + k' % sb.slotsPerClus := by rw [hdiv, hpos]
    _ = k' := Nat.div_add_mod _ _

end

/-! ## Listing is a scan -/

/-- What `fat32_readdir` returns for a slot with a name. -/
def slotName (e nameBuf : Buffer) (position : Nat) : DirName :=
  if nameBuf 0 ≠ 0 then ⟨nameBuf, stringLen nameBuf, position⟩
  else ⟨(shortName e nameBuf).1,
    if (shortName e nameBuf).2 ≠ 0 then (shortName e nameBuf).2
    else stringLen (shortName e nameBuf).1, position⟩

/-- The loop over the slots, for any number of clusters. -/
def readdirScan : List Buffer → Nat → Buffer → Buffer ⊕ DirName
  | [], _, nameBuf => .inl nameBuf
  | e :: es, position, nameBuf =>
      if slotDeleted e then readdirScan es (position + DIRECTORY_SIZE) nameBuf
      else if slotLongName e then
        readdirScan es (position + DIRECTORY_SIZE) (putLongName e nameBuf)
      else .inr (slotName e nameBuf (position + DIRECTORY_SIZE))

theorem readdirScan_deleted {e : Buffer} (h : slotDeleted e = true) (es : List Buffer)
    (position : Nat) (nameBuf : Buffer) : readdirScan (e :: es) position nameBuf
      = readdirScan es (position + DIRECTORY_SIZE) nameBuf := if_pos h

theorem readdirScan_long {e : Buffer} (hd : slotDeleted e = false) (h : slotLongName e = true)
    (es : List Buffer) (position : Nat) (nameBuf : Buffer) :
    readdirScan (e :: es) position nameBuf
      = readdirScan es (position + DIRECTORY_SIZE) (putLongName e nameBuf) :=
  (if_neg (by simp [hd])).trans (if_pos h)

theorem readdirScan_name {e : Buffer} (hd : slotDeleted e = false) (h : slotLongName e = false)
    (es : List Buffer) (position : Nat) (nameBuf : Buffer) :
    readdirScan (e :: es) position nameBuf
      = .inr (slotName e nameBuf (position + DIRECTORY_SIZE)) :=
  (if_neg (by simp [hd])).trans (if_neg (by simp [h]))

theorem readdirScan_append (es' : List Buffer) : ∀ (es : List Buffer) (position : Nat)
    (nameBuf : Buffer), readdirScan (es ++ es') position nameBuf
      = match readdirScan es position nameBuf with
        | .inl nameBuf' => readdirScan es' (position + es.length * DIRECTORY_SIZE) nameBuf'
        | .inr r => .inr r
  | [], position, _ => by simp [readdirScan]
  | e :: es, position, nameBuf => by
      have hlen : position + (e :: es).length * DIRECTORY_SIZE
          = position + DIRECTORY_SIZE + es.length * DIRECTORY_SIZE := by
        rw [List.length_cons]
        ring
      rw [List.cons_append, hlen]
      cases hd : slotDeleted e with
      | true => rw [readdirScan_deleted hd, readdirScan_deleted hd, readdirScan_append]
      | false =>
          cases hl : slotLongName e with
          | true => rw [readdirScan_long hd hl, readdirScan_long hd hl, readdirScan_append]
          | false => rw [readdirScan_name hd hl, readdirScan_name hd hl]

/-- The loop over the slots of one cluster. -/
theorem readdirSlots_scan : ∀ (n i : Nat) (s : DirLoop), readdirSlots n i s
    = match readdirScan ((List.range' i n).map (slot s.diskBuf)) s.position s.nameBuf with
      | .inl nameBuf => .inl ⟨s.diskBuf, nameBuf, s.position + n * DIRECTORY_SIZE⟩
      | .inr r => .inr r
  | 0, i, s => by simp [readdirSlots, readdirScan]
  | n + 1, i, s => by
      have hlen : s.position + (n + 1) * DIRECTORY_SIZE
          = s.position + DIRECTORY_SIZE + n * DIRECTORY_SIZE := by ring
      rw [List.range'_succ, List.map_cons, hlen]
      cases hd : slotDeleted (slot s.diskBuf i) with
      | true =>
          rw [readdirScan_deleted hd, show readdirSlots (n + 1) i s = _ from if_pos hd,
            readdirSlots_scan]
      | false =>
          have hd' : ¬ slotDeleted (slot s.diskBuf i) = true := by simp [hd]
          cases hl : slotLongName (slot s.diskBuf i) with
          | true =>
              rw [readdirScan_long hd hl,
                show readdirSlots (n + 1) i s = _ from (if_neg hd').trans (if_pos hl),
                readdirSlots_scan]
              rfl
          | false =>
              have hl' : ¬ slotLongName (slot s.diskBuf i) = true := by simp [hl]
              rw [readdirScan_name hd hl,
                show readdirSlots (n + 1) i s = _ from (if_neg hd').trans (if_neg hl'), slotName]
              split <;> rfl

/-- The slots of a cluster as `fat32_readdir` has them: its first sector, and behind it what
`disk_buf` holds. -/
def seenSlots (sb : SbInfo) (disk stale : Buffer) (clus : Nat) : List Buffer :=
  slots (ideRead disk (clusToLba sb clus) 1 stale) sb.slotsPerClus

/-- The slots of a directory as `fat32_readdir` has them. -/
def dirSeen (sb : SbInfo) (disk stale : Buffer) (chain : List Nat) : List Buffer :=
  chain.flatMap (seenSlots sb disk stale)

@[simp] theorem seenSlots_length (sb : SbInfo) (disk stale : Buffer) (clus : Nat) :
    (seenSlots sb disk stale clus).length = sb.slotsPerClus := slots_length _ _

theorem dirSeen_cons (sb : SbInfo) (disk stale : Buffer) (c : Nat) (l : List Nat) :
    dirSeen sb disk stale (c :: l) = seenSlots sb disk stale c ++ dirSeen sb disk stale l :=
  List.flatMap_cons

theorem slots_drop (diskBuf : Buffer) (n i : Nat) :
    (slots diskBuf n).drop i = (List.range' i (n - i)).map (slot diskBuf) := by
  unfold slots
  rw [← List.map_drop, List.range_eq_range', List.drop_range', Nat.zero_add, Nat.mul_one]

end Talios
