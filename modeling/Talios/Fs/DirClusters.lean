import Talios.Fs.Fat32Slots

set_option autoImplicit false

/-! # The clusters of a directory on any disk

The links of the table lead from the first cluster of a directory to others, and nothing says that
they come to an end. With `n` rounds `fat32_lookup` and `fat32_readdir` come to the first `n` of these
clusters (`clusters`), and each is a scan of their slots (`lookupLoop_clusters`,
`readdirLoop_clusters`). Hence the two functions come to an end where the links do, or where they find
what they look for (`dirScans_finish`).
-/

namespace Talios

open Bytes Word

/-! ## Clusters -/

/-- The first `n` clusters from `clus` on: as many as there are before the links end. -/
def clusters (sb : SbInfo) (disk : Buffer) : Nat → Nat → List Nat
  | 0, _ => []
  | n + 1, clus =>
      if clus = 0 then [] else clus :: clusters sb disk n (fat32TableRead sb disk clus)

/-- The links from `clus` on come to an end. -/
def ChainEnd (sb : SbInfo) (disk : Buffer) (clus : Nat) : Prop :=
  ∃ n, (clusters sb disk n clus).length < n

/-- `readdirLoop` with `filp->position` as the call leaves it. -/
def readdirLoopAt (sb : SbInfo) (disk : Buffer) :
    Nat → Nat → DirLoop → Option (Option DirName × Nat)
  | 0, _, _ => none
  | fuel + 1, clus, s =>
      if clus = 0 then some (none, s.position)
      else
        let diskBuf := ideRead disk (clusToLba sb clus) 1 s.diskBuf
        let first := s.position % sb.bytePerClus / DIRECTORY_SIZE
        match readdirSlots (sb.bytePerClus / DIRECTORY_SIZE - first) first
            { s with diskBuf := diskBuf } with
        | .inr r => some (some r, r.position)
        | .inl s' => readdirLoopAt sb disk fuel (fat32TableRead sb disk clus) s'

section

variable {sb : SbInfo} {disk : Buffer}

theorem clusters_zero (n : Nat) : clusters sb disk n 0 = [] := by
  cases n with
  | zero => rfl
  | succ n => exact if_pos rfl

theorem clusters_succ (n : Nat) {clus : Nat} (hc : clus ≠ 0) :
    clusters sb disk (n + 1) clus = clus :: clusters sb disk n (fat32TableRead sb disk clus) :=
  if_neg hc

/-- A chain that goes round in one cluster never ends. -/
theorem not_chainEnd_of_self {clus : Nat} (hc : clus ≠ 0)
    (hself : fat32TableRead sb disk clus = clus) : ¬ ChainEnd sb disk clus := by
  have hlen : ∀ n, (clusters sb disk n clus).length = n := by
    intro n
    induction n with
    | zero => rfl
    | succ n ih => rw [clusters_succ n hc, hself, List.length_cons, ih]
  rintro ⟨n, hn⟩
  rw [hlen] at hn
  exact absurd hn (Nat.lt_irrefl n)

/-! ## Looking up -/

/-- With `n` rounds the search is a scan of the slots of the first `n` clusters; without result it has
come to an end where the links have. -/
theorem lookupLoop_clusters (name : List UInt8) : ∀ (n clus : Nat) (lnameBuf : Buffer),
    lookupLoop sb disk name n clus lnameBuf
      = match lookupScan name (dirSlots sb disk (clusters sb disk n clus)) 0 lnameBuf with
        | .next _ => if (clusters sb disk n clus).length < n then some .missing else none
        | s => some (s.result sb disk (clusters sb disk n clus))
  | 0, _, _ => rfl
  | n + 1, clus, lnameBuf => by
      by_cases hc : clus = 0
      · rw [hc, clusters_zero]
        rfl
      have hcons := @clusters_succ sb disk n _ hc
      rw [lookupLoop, if_neg hc, hcons, dirSlots_cons, lookupScan_append, Nat.zero_add,
        clusterSlots_length]
      have hscan : lookupScan name (clusterSlots sb disk clus) 0 lnameBuf
          = lookupScan name (slots (ideRead disk (clusToLba sb clus) sb.secPerClus newBuffer)
              (sb.bytePerClus / DIRECTORY_SIZE)) 0 lnameBuf := rfl
      dsimp only
      rw [← hscan]
      cases hs : lookupScan name (clusterSlots sb disk clus) 0 lnameBuf with
      | outside => rfl
      | found k =>
          have hk := lookupScan_found name _ _ _ hs
          rw [clusterSlots_length, Nat.zero_add] at hk
          have hnode := @nodeAt_lt sb disk clus
            (clusters sb disk n (fat32TableRead sb disk clus)) _ hk.2
          exact (congrArg (fun r => some (LookupResult.found r)) hnode).symm
      | next lnameBuf' =>
          have hshift := lookupScan_shift name sb.slotsPerClus
            (dirSlots sb disk (clusters sb disk n (fat32TableRead sb disk clus))) 0 lnameBuf'
          rw [Nat.add_zero] at hshift
          dsimp only [Scan.andThen]
          rw [hshift, lookupLoop_clusters name n]
          cases lookupScan name
            (dirSlots sb disk (clusters sb disk n (fat32TableRead sb disk clus))) 0 lnameBuf' with
          | outside => rfl
          | found k =>
              exact congrArg (fun r => some (LookupResult.found r)) (nodeAt_add clus _ k).symm
          | next b => simp only [Scan.shift, List.length_cons, Nat.add_lt_add_iff_right]

/-! ## Listing -/

/-- The slots behind the first ones of a cluster. -/
theorem dirSeen_drop (stale : Buffer) (clus : Nat) (l : List Nat) (p : Nat) :
    (dirSeen sb disk stale (clus :: l)).drop (p % sb.bytePerClus / DIRECTORY_SIZE)
      = (seenSlots sb disk stale clus).drop (p % sb.bytePerClus / DIRECTORY_SIZE)
        ++ dirSeen sb disk stale l := by
  have hlt := sb.offset_lt p
  have hfirst : p % sb.bytePerClus / DIRECTORY_SIZE ≤ sb.slotsPerClus :=
    Nat.div_le_div_right hlt.le
  rw [dirSeen_cons, List.drop_append_of_le_length (by rwa [seenSlots_length])]

/-- Reading another cluster first changes nothing: its sector is overwritten. -/
theorem dirSeen_ideRead (stale : Buffer) (lba : Nat) (l : List Nat) :
    dirSeen sb disk (ideRead disk lba 1 stale) l = dirSeen sb disk stale l := by
  unfold dirSeen seenSlots
  simp only [ideRead_ideRead]

/-- Without the position it is the function of before. -/
theorem readdirLoopAt_fst : ∀ (fuel clus : Nat) (s : DirLoop),
    (readdirLoopAt sb disk fuel clus s).map Prod.fst = readdirLoop sb disk fuel clus s
  | 0, _, _ => rfl
  | fuel + 1, clus, s => by
      rw [readdirLoopAt, readdirLoop]
      by_cases hc : clus = 0
      · rw [if_pos hc, if_pos hc]
        rfl
      · rw [if_neg hc, if_neg hc]
        dsimp only
        cases readdirSlots (sb.bytePerClus / DIRECTORY_SIZE
          - s.position % sb.bytePerClus / DIRECTORY_SIZE)
          (s.position % sb.bytePerClus / DIRECTORY_SIZE)
          { s with diskBuf := ideRead disk (clusToLba sb clus) 1 s.diskBuf } with
        | inr r => rfl
        | inl s' => exact readdirLoopAt_fst fuel _ _

/-- With `n` rounds the listing is a scan of what it reads of the first `n` clusters. -/
theorem readdirLoopAt_clusters : ∀ (n clus : Nat) (s : DirLoop),
    readdirLoopAt sb disk n clus s
      = match readdirScan ((dirSeen sb disk s.diskBuf (clusters sb disk n clus)).drop
            (s.position % sb.bytePerClus / DIRECTORY_SIZE)) s.position s.nameBuf with
        | .inl _ => if (clusters sb disk n clus).length < n then
            some (none, s.position + ((dirSeen sb disk s.diskBuf (clusters sb disk n clus)).drop
              (s.position % sb.bytePerClus / DIRECTORY_SIZE)).length * DIRECTORY_SIZE) else none
        | .inr r => some (some r, r.position)
  | 0, _, _ => by
      rw [clusters, dirSeen, List.flatMap_nil, List.drop_nil]
      rfl
  | n + 1, clus, s => by
      by_cases hc : clus = 0
      · rw [hc, clusters_zero, dirSeen, List.flatMap_nil, List.drop_nil]
        rfl
      rw [readdirLoopAt, if_neg hc, clusters_succ n hc, dirSeen_drop, readdirScan_append]
      dsimp only
      rw [readdirSlots_scan]
      dsimp only
      rw [← slots_drop, show slots (ideRead disk (clusToLba sb clus) 1 s.diskBuf)
        (sb.bytePerClus / DIRECTORY_SIZE) = seenSlots sb disk s.diskBuf clus from rfl]
      cases readdirScan ((seenSlots sb disk s.diskBuf clus).drop
        (s.position % sb.bytePerClus / DIRECTORY_SIZE)) s.position s.nameBuf with
      | inr r => rfl
      | inl nameBuf =>
          dsimp only
          rw [readdirLoopAt_clusters n, next_first, List.drop_zero, dirSeen_ideRead,
            List.length_append, List.length_drop, seenSlots_length, List.length_cons, Nat.add_mul,
            ← Nat.add_assoc]
          simp only [Nat.add_lt_add_iff_right]
          rfl

theorem readdirLoop_clusters (n clus : Nat) (s : DirLoop) :
    readdirLoop sb disk n clus s
      = match readdirScan ((dirSeen sb disk s.diskBuf (clusters sb disk n clus)).drop
            (s.position % sb.bytePerClus / DIRECTORY_SIZE)) s.position s.nameBuf with
        | .inl _ => if (clusters sb disk n clus).length < n then some none else none
        | .inr r => some (some r) := by
  rw [← readdirLoopAt_fst, readdirLoopAt_clusters]
  cases readdirScan ((dirSeen sb disk s.diskBuf (clusters sb disk n clus)).drop
    (s.position % sb.bytePerClus / DIRECTORY_SIZE)) s.position s.nameBuf with
  | inr r => rfl
  | inl nameBuf =>
      dsimp only
      split
      · rfl
      · rfl

/-- A scan finds nothing where no slot is used. -/
theorem readdirScan_inl : ∀ (es : List Buffer) (position : Nat) (nameBuf : Buffer),
    (∃ nameBuf', readdirScan es position nameBuf = .inl nameBuf') ↔
      ∀ e ∈ es, slotUsed e = false
  | [], _, nameBuf => iff_of_true ⟨nameBuf, rfl⟩ (fun _ h => absurd h List.not_mem_nil)
  | e :: es, position, nameBuf => by
      rw [List.forall_mem_cons]
      cases hd : slotDeleted e with
      | true =>
          rw [readdirScan_deleted hd, readdirScan_inl]
          exact (and_iff_right (by simp [slotUsed, hd])).symm
      | false =>
          cases hl : slotLongName e with
          | true =>
              rw [readdirScan_long hd hl, readdirScan_inl]
              exact (and_iff_right (by simp [slotUsed, hl])).symm
          | false =>
              rw [readdirScan_name hd hl]
              refine iff_of_false (fun h => by obtain ⟨_, h⟩ := h; cases h) (fun h => ?_)
              exact absurd h.1 (by simp [slotUsed, hd, hl])

/-! ## Coming to an end -/

/-- The search for a name stops at one of the slots. -/
def SearchStops (sb : SbInfo) (disk : Buffer) (name : List UInt8) (clus : Nat) : Prop :=
  ∃ n, ∀ lnameBuf,
    lookupScan name (dirSlots sb disk (clusters sb disk n clus)) 0 newBuffer ≠ .next lnameBuf

/-- One of the slots from `first` on is used. -/
def ListingStops (sb : SbInfo) (disk stale : Buffer) (clus first : Nat) : Prop :=
  ∃ n, ∃ e ∈ (dirSeen sb disk stale (clusters sb disk n clus)).drop first, slotUsed e = true

theorem lookupLoop_finishes (name : List UInt8) (clus : Nat) :
    (∃ fuel r, lookupLoop sb disk name fuel clus newBuffer = some r) ↔
      ChainEnd sb disk clus ∨ SearchStops sb disk name clus := by
  constructor
  · rintro ⟨n, r, hr⟩
    rw [lookupLoop_clusters] at hr
    cases hs : lookupScan name (dirSlots sb disk (clusters sb disk n clus)) 0 newBuffer with
    | outside => exact Or.inr ⟨n, fun b hb => nomatch hs.symm.trans hb⟩
    | found k => exact Or.inr ⟨n, fun b hb => nomatch hs.symm.trans hb⟩
    | next lnameBuf =>
        rw [hs] at hr
        dsimp only at hr
        split at hr
        · exact Or.inl ⟨n, by assumption⟩
        · cases hr
  · rintro (⟨n, hn⟩ | ⟨n, hn⟩)
    · refine ⟨n, ?_⟩
      rw [lookupLoop_clusters]
      cases lookupScan name (dirSlots sb disk (clusters sb disk n clus)) 0 newBuffer with
      | outside => exact ⟨_, rfl⟩
      | found k => exact ⟨_, rfl⟩
      | next lnameBuf => exact ⟨_, if_pos hn⟩
    · refine ⟨n, ?_⟩
      rw [lookupLoop_clusters]
      cases hs : lookupScan name (dirSlots sb disk (clusters sb disk n clus)) 0 newBuffer with
      | outside => exact ⟨_, rfl⟩
      | found k => exact ⟨_, rfl⟩
      | next lnameBuf => exact absurd hs (hn lnameBuf)

theorem readdirLoop_finishes (clus : Nat) (s : DirLoop) :
    (∃ fuel r, readdirLoop sb disk fuel clus s = some r) ↔
      ChainEnd sb disk clus ∨
      ListingStops sb disk s.diskBuf clus (s.position % sb.bytePerClus / DIRECTORY_SIZE) := by
  constructor
  · rintro ⟨n, r, hr⟩
    rw [readdirLoop_clusters] at hr
    split at hr
    · split at hr
      · exact Or.inl ⟨n, by assumption⟩
      · cases hr
    · rename_i d hd
      right
      by_contra hnone
      have hall : ∀ e ∈ (dirSeen sb disk s.diskBuf (clusters sb disk n clus)).drop
          (s.position % sb.bytePerClus / DIRECTORY_SIZE), slotUsed e = false := by
        intro e he
        by_contra hu
        exact hnone ⟨n, e, he, by simpa using hu⟩
      rcases (readdirScan_inl _ s.position s.nameBuf).mpr hall with ⟨b, hb⟩
      exact nomatch hd.symm.trans hb
  · rintro (⟨n, hn⟩ | ⟨n, e, he, hu⟩)
    · refine ⟨n, ?_⟩
      rw [readdirLoop_clusters]
      split
      · exact ⟨_, if_pos hn⟩
      · exact ⟨_, rfl⟩
    · refine ⟨n, ?_⟩
      rw [readdirLoop_clusters]
      split
      · rename_i b hb
        have hfalse := (readdirScan_inl _ _ _).mp ⟨b, hb⟩ e he
        rw [hu] at hfalse
        cases hfalse
      · exact ⟨_, rfl⟩

/-- The two functions come to an end. -/
structure ScansFinish (sb : SbInfo) (disk : Buffer) (inode : Inode) (name : List UInt8)
    (stale : Buffer) (position : Nat) : Prop where
  lookup : ∃ fuel r, fat32Lookup sb disk inode name fuel = some r
  readdir : ∃ fuel r, fat32Readdir sb disk inode stale fuel position = some r

/-- **The scans of a directory come to an end** where its links do, or where they find something: the
search the name, and the listing a slot that is used. -/
theorem dirScans_finish (sb : SbInfo) (disk : Buffer) (inode : Inode) (name : List UInt8)
    (stale : Buffer) (position : Nat) :
    ScansFinish sb disk inode name stale position ↔
      (ChainEnd sb disk (inode.firstCluster % 2 ^ 28) ∨
        SearchStops sb disk (name.takeWhile (· ≠ 0)) (inode.firstCluster % 2 ^ 28)) ∧
      ∀ clus, skipClusters sb disk (position / sb.bytePerClus) inode.firstCluster = some clus →
        ChainEnd sb disk clus ∨
        ListingStops sb disk stale clus (position % sb.bytePerClus / DIRECTORY_SIZE) := by
  have hreaddir : (∃ fuel r, fat32Readdir sb disk inode stale fuel position = some r) ↔
      ∀ clus, skipClusters sb disk (position / sb.bytePerClus) inode.firstCluster = some clus →
        ChainEnd sb disk clus ∨
        ListingStops sb disk stale clus (position % sb.bytePerClus / DIRECTORY_SIZE) := by
    unfold fat32Readdir
    cases skipClusters sb disk (position / sb.bytePerClus) inode.firstCluster with
    | none => exact iff_of_true ⟨0, _, rfl⟩ (fun clus h => nomatch h)
    | some c =>
        refine (readdirLoop_finishes c ⟨stale, newBuffer, position⟩).trans
          ⟨fun h clus hclus => ?_, fun h => h c rfl⟩
        cases hclus
        exact h
  constructor
  · intro h
    exact ⟨(lookupLoop_finishes _ _).mp h.lookup, hreaddir.mp h.readdir⟩
  · intro h
    exact ⟨(lookupLoop_finishes _ _).mpr h.1, hreaddir.mpr h.2⟩

end

/-- A directory of one empty cluster whose link leads to itself. -/
def cyclicDisk : Buffer := putLE exampleDisk (32 * 512 + 5 * 4) 4 5

theorem cyclicDisk_self : fat32TableRead exampleSb cyclicDisk 5 = 5 := by decide +kernel

/-- No slot of it is used. -/
theorem cyclicDisk_slots (n : Nat) :
    ∀ e ∈ dirSlots exampleSb cyclicDisk (clusters exampleSb cyclicDisk n 5), e = newBuffer := by
  have hread : ideRead cyclicDisk (clusToLba exampleSb 5) 1 newBuffer = newBuffer := by
    apply overlay_eq_self
    intro j hj
    have hlba : clusToLba exampleSb 5 = 37 := by decide
    rw [hlba]
    unfold cyclicDisk putLE
    rw [overlay_of_ge (by unfold BYTE_PER_VSEC; omega)]
    exact if_neg (by unfold BYTE_PER_VSEC; omega)
  have hslots : ∀ e ∈ clusterSlots exampleSb cyclicDisk 5, e = newBuffer := by
    intro e he
    unfold clusterSlots at he
    rw [show ideRead cyclicDisk (clusToLba exampleSb 5) exampleSb.secPerClus newBuffer = newBuffer
      from hread] at he
    rcases List.mem_map.mp he with ⟨i, -, rfl⟩
    rfl
  induction n with
  | zero => exact fun e he => absurd he List.not_mem_nil
  | succ n ih =>
      intro e he
      rw [clusters_succ n (by decide), cyclicDisk_self, dirSlots_cons] at he
      rcases List.mem_append.mp he with h | h
      · exact hslots e h
      · exact ih e h

theorem lookupScan_empty : ∀ (es : List Buffer) (i : Nat), (∀ e ∈ es, e = newBuffer) →
    lookupScan [65] es i newBuffer = .next newBuffer
  | [], _, _ => rfl
  | e :: es, i, h => by
      have hslot : lookupSlot [65] newBuffer i newBuffer = .next newBuffer := by
        unfold lookupSlot
        rw [if_neg (by decide), if_neg (by decide), if_neg (by decide), if_neg (by decide)]
      rw [List.forall_mem_cons] at h
      rw [lookupScan, h.1, hslot]
      exact lookupScan_empty es (i + 1) h.2

/-- The search for a name that is not there never ends. -/
theorem dirScans_not_finish : ¬ ∀ (sb : SbInfo) (disk : Buffer) (inode : Inode)
    (name : List UInt8) (stale : Buffer) (position : Nat),
    ScansFinish sb disk inode name stale position := by
  intro hall
  have hfinish := (hall exampleSb cyclicDisk exampleInode [65] newBuffer 0).lookup
  rcases (lookupLoop_finishes [65] 5).mp hfinish with hend | ⟨n, hn⟩
  · exact not_chainEnd_of_self (by decide) cyclicDisk_self hend
  · exact hn newBuffer (lookupScan_empty _ 0 (cyclicDisk_slots n))

end Talios
