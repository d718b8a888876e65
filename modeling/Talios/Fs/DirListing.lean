import Talios.Fs.DirLayout
import Talios.Fs.Getdents

set_option autoImplicit false

/-! # Listing a directory

The calls of `fat32_readdir` on an open directory, one after the other from position 0 on. Each goes on
where the last one stopped, so that together they pass the names in one list of slots: those that the
calls see of the clusters (`dirCalls_listed`). The list is right for the entries of the directory where
each cluster is one sector, and each entry is one that the scan gets right (`readdir_lists`).
-/

namespace Talios

open Bytes Word

/-! ## Where a call stops -/

/-- `fat32_readdir` with `filp->position` as the call leaves it. -/
def fat32ReaddirAt (sb : SbInfo) (disk : Buffer) (inode : Inode) (stale : Buffer)
    (fuel position : Nat) : Option (Option DirName × Nat) :=
  match skipClusters sb disk (position / sb.bytePerClus) inode.firstCluster with
  | none => some (none, position)
  | some clus => readdirLoopAt sb disk fuel clus ⟨stale, newBuffer, position⟩

/-- The calls on a directory that has just been opened: call `k` finds `stale k` in `disk_buf` and
`pos k` in `filp->position`, and returns `res k`. -/
structure DirCalls (sb : SbInfo) (disk : Buffer) (inode : Inode) (stale : Nat → Buffer)
    (pos : Nat → Nat) (res : Nat → Option DirName) : Prop where
  start : pos 0 = 0
  call : ∀ k, ∃ fuel, fat32ReaddirAt sb disk inode (stale k) fuel (pos k) = some (res k, pos (k + 1))

/-- The letters that are passed on. -/
def DirName.letters (r : DirName) : List Nat :=
  (List.range r.namelen).map (fun i => (r.name i).toNat)

/-- Of what the calls find, these are the values in their order; from then on all calls return 0. -/
def Passes {α : Type} (sb : SbInfo) (disk : Buffer) (inode : Inode) (value : DirName → α)
    (values : List α) : Prop :=
  ∀ stale, ∃ pos res, DirCalls sb disk inode stale pos res ∧ ∀ k, (res k).map value = values[k]?

/-- The calls pass these names. -/
def PassesNames (sb : SbInfo) (disk : Buffer) (inode : Inode) (names : List (List Nat)) : Prop :=
  Passes sb disk inode DirName.letters names

/-- The calls pass each of these names for the entry that ends at its position. -/
def PassesEntries (sb : SbInfo) (disk : Buffer) (inode : Inode) (entries : List (List Nat × Nat)) :
    Prop :=
  Passes sb disk inode (fun r => (r.letters, r.position)) entries

/-- What the calls find in some slots, one name after the other. -/
def listed : List Buffer → Nat → Buffer → List DirName
  | [], _, _ => []
  | e :: es, position, nameBuf =>
      if slotDeleted e then listed es (position + DIRECTORY_SIZE) nameBuf
      else if slotLongName e then listed es (position + DIRECTORY_SIZE) (putLongName e nameBuf)
      else slotName e nameBuf (position + DIRECTORY_SIZE) ::
        listed es (position + DIRECTORY_SIZE) newBuffer

/-! ## One call -/

section

variable {sb : SbInfo} {disk stale : Buffer}

/-- Without the position it is the function of before. -/
theorem fat32ReaddirAt_fst (inode : Inode) (fuel position : Nat) :
    (fat32ReaddirAt sb disk inode stale fuel position).map Prod.fst
      = fat32Readdir sb disk inode stale fuel position := by
  unfold fat32ReaddirAt fat32Readdir
  cases skipClusters sb disk (position / sb.bytePerClus) inode.firstCluster with
  | none => rfl
  | some clus => exact readdirLoopAt_fst _ _ _

/-- What the loop comes to in the slots that it goes over. -/
def scanEnd (es : List Buffer) (position : Nat) (nameBuf : Buffer) : Option DirName × Nat :=
  match readdirScan es position nameBuf with
  | .inl _ => (none, position + es.length * DIRECTORY_SIZE)
  | .inr r => (some r, r.position)

theorem scanEnd_nil (position : Nat) (nameBuf : Buffer) :
    scanEnd [] position nameBuf = (none, position) := by
  unfold scanEnd
  rw [readdirScan, List.length_nil, Nat.zero_mul, Nat.add_zero]

theorem slotName_position (e nameBuf : Buffer) (position : Nat) :
    (slotName e nameBuf position).position = position := by
  unfold slotName
  split <;> rfl

/-- A scan stops inside a limit where all slots up to the first used one do. -/
theorem scanEnd_le {limit : Nat} : ∀ (es : List Buffer) {position : Nat} (nameBuf : Buffer),
    position ≤ limit →
    (∀ l e, l ++ [e] <+: es → (∀ e' ∈ l, slotUsed e' = false) →
      position + (l.length + 1) * DIRECTORY_SIZE ≤ limit) →
    (scanEnd es position nameBuf).2 ≤ limit
  | [], position, nameBuf, hp, _ => by
      rw [scanEnd_nil]
      exact hp
  | e :: es, position, nameBuf, _, h => by
      have hfirst : position + DIRECTORY_SIZE ≤ limit := by
        have h1 := h [] e (List.prefix_append [e] es) (fun _ he => absurd he List.not_mem_nil)
        rwa [List.length_nil, Nat.zero_add, Nat.one_mul] at h1
      have hlen : position + (e :: es).length * DIRECTORY_SIZE
          = position + DIRECTORY_SIZE + es.length * DIRECTORY_SIZE := by
        rw [List.length_cons]
        ring
      -- an unused slot: the others lie one slot further on
      have hrest : slotUsed e = false → ∀ b,
          (scanEnd es (position + DIRECTORY_SIZE) b).2 ≤ limit := by
        intro hu b
        refine scanEnd_le es b hfirst fun l e' hpre hl => ?_
        have h1 := h (e :: l) e' ((List.prefix_cons_inj e).mpr hpre)
          (List.forall_mem_cons.mpr ⟨hu, hl⟩)
        calc position + DIRECTORY_SIZE + (l.length + 1) * DIRECTORY_SIZE
            = position + ((e :: l).length + 1) * DIRECTORY_SIZE := by
              rw [List.length_cons]
              ring
          _ ≤ limit := h1
      cases hd : slotDeleted e with
      | true =>
          have h1 := hrest (by simp [slotUsed, hd]) nameBuf
          unfold scanEnd at h1 ⊢
          rw [readdirScan_deleted hd, hlen]
          exact h1
      | false =>
          cases hl : slotLongName e with
          | true =>
              have h1 := hrest (by simp [slotUsed, hl]) (putLongName e nameBuf)
              unfold scanEnd at h1 ⊢
              rw [readdirScan_long hd hl, hlen]
              exact h1
          | false =>
              unfold scanEnd
              rw [readdirScan_name hd hl]
              dsimp only
              rwa [slotName_position]

/-- The loop over the clusters: it ends as the scan does, once it has rounds enough. -/
theorem readdirLoopAt_chain : ∀ (chain : List Nat) (fuel : Nat) (s : DirLoop),
    ClusterChain sb disk chain →
    (∀ x, readdirLoopAt sb disk fuel (chain.headD 0) s = some x →
      x = scanEnd ((dirSeen sb disk s.diskBuf chain).drop
        (s.position % sb.bytePerClus / DIRECTORY_SIZE)) s.position s.nameBuf) ∧
    (chain.length < fuel → readdirLoopAt sb disk fuel (chain.headD 0) s
      = some (scanEnd ((dirSeen sb disk s.diskBuf chain).drop
        (s.position % sb.bytePerClus / DIRECTORY_SIZE)) s.position s.nameBuf))
  | chain, 0, s, _ => ⟨fun x h => (by cases h), fun h => absurd h (by omega)⟩
  | [], fuel + 1, s, _ => by
      rw [dirSeen, List.flatMap_nil, List.drop_nil, scanEnd_nil]
      exact ⟨fun x h => (Option.some.inj h).symm, fun _ => rfl⟩
  | c :: l, fuel + 1, s, hchain => by
      have hfirst : s.position % sb.bytePerClus / DIRECTORY_SIZE ≤ sb.slotsPerClus :=
        Nat.div_le_div_right (sb.offset_lt s.position).le
      rw [List.headD_cons, readdirLoopAt, if_neg hchain.1, dirSeen_drop]
      unfold scanEnd
      rw [readdirScan_append]
      dsimp only
      rw [readdirSlots_scan]
      dsimp only
      rw [← slots_drop, show slots (ideRead disk (clusToLba sb c) 1 s.diskBuf)
        (sb.bytePerClus / DIRECTORY_SIZE) = seenSlots sb disk s.diskBuf c from rfl, hchain.2.1]
      cases readdirScan ((seenSlots sb disk s.diskBuf c).drop
        (s.position % sb.bytePerClus / DIRECTORY_SIZE)) s.position s.nameBuf with
      | inr r => exact ⟨fun x h => (Option.some.inj h).symm, fun _ => rfl⟩
      | inl nameBuf =>
          -- the next cluster is read from its first slot on
          have ih := readdirLoopAt_chain l fuel ⟨ideRead disk (clusToLba sb c) 1 s.diskBuf, nameBuf,
            s.position + (sb.bytePerClus / DIRECTORY_SIZE
              - s.position % sb.bytePerClus / DIRECTORY_SIZE) * DIRECTORY_SIZE⟩ hchain.2.2
          dsimp only at ih ⊢
          rw [next_first, List.drop_zero, dirSeen_ideRead] at ih
          have hlen : ((seenSlots sb disk s.diskBuf c).drop
              (s.position % sb.bytePerClus / DIRECTORY_SIZE)).length
              = sb.bytePerClus / DIRECTORY_SIZE
                - s.position % sb.bytePerClus / DIRECTORY_SIZE := by
            rw [List.length_drop, seenSlots_length]
            rfl
          have hend : s.position + ((seenSlots sb disk s.diskBuf c).drop
              (s.position % sb.bytePerClus / DIRECTORY_SIZE) ++ dirSeen sb disk s.diskBuf l).length
                * DIRECTORY_SIZE
              = s.position + (sb.bytePerClus / DIRECTORY_SIZE
                - s.position % sb.bytePerClus / DIRECTORY_SIZE) * DIRECTORY_SIZE
                + (dirSeen sb disk s.diskBuf l).length * DIRECTORY_SIZE := by
            rw [List.length_append, hlen]
            ring
          rw [hend, hlen]
          exact ⟨ih.1, fun h => ih.2 (by simpa using h)⟩

/-- The first loop leads to the cluster of the position. -/
theorem ClusterChain.skipClusters_eq : ∀ (k : Nat) {chain : List Nat},
    ClusterChain sb disk chain → chain ≠ [] →
    skipClusters sb disk k (chain.headD 0)
      = if k < chain.length then some ((chain.drop k).headD 0) else none
  | 0, chain, _, hne => by
      rw [if_pos (List.length_pos_of_ne_nil hne)]
      rfl
  | k + 1, [], _, hne => absurd rfl hne
  | k + 1, c :: l, h, _ => by
      rw [List.headD_cons, skipClusters, h.2.1, List.drop_succ_cons, List.length_cons]
      cases l with
      | nil =>
          rw [if_neg (show ¬ k + 1 < ([] : List Nat).length + 1 by simp)]
          rfl
      | cons c' l' =>
          have hc : ((c' :: l').headD 0) ≠ 0 := h.2.2.1
          rw [if_neg hc, h.2.2.skipClusters_eq k (by simp)]
          simp only [Nat.add_lt_add_iff_right]

theorem dirSeen_length (chain : List Nat) :
    (dirSeen sb disk stale chain).length = chain.length * sb.slotsPerClus := by
  induction chain with
  | nil => simp [dirSeen]
  | cons c l ih =>
      rw [dirSeen_cons, List.length_append, seenSlots_length, ih, List.length_cons]
      ring

theorem dirSeen_drop_clusters : ∀ (k : Nat) (chain : List Nat),
    (dirSeen sb disk stale chain).drop (k * sb.slotsPerClus)
      = dirSeen sb disk stale (chain.drop k)
  | 0, chain => by rw [Nat.zero_mul, List.drop_zero, List.drop_zero]
  | k + 1, [] => by rw [List.drop_nil, dirSeen, List.flatMap_nil, List.drop_nil]
  | k + 1, c :: l => by
      have hmul : (k + 1) * sb.slotsPerClus
          = (seenSlots sb disk stale c).length + k * sb.slotsPerClus := by
        rw [seenSlots_length]
        ring
      rw [dirSeen_cons, hmul, ← List.drop_drop, List.drop_left, dirSeen_drop_clusters k l,
        List.drop_succ_cons]

theorem ClusterChain.drop {k : Nat} {chain : List Nat} (h : ClusterChain sb disk chain) :
    ClusterChain sb disk (chain.drop k) := by
  apply ClusterChain.of_append (l := chain.take k)
  rwa [List.take_append_drop]

/-- **One call** from slot `j` on is the scan from there on. -/
theorem fat32ReaddirAt_slots {inode : Inode} {chain : List Nat} (h : DirChain sb disk inode chain)
    {j : Nat} (hj : j ≤ (dirSeen sb disk stale chain).length) (x : Option DirName × Nat) :
    (∃ fuel, fat32ReaddirAt sb disk inode stale fuel (j * DIRECTORY_SIZE) = some x) ↔
      x = scanEnd ((dirSeen sb disk stale chain).drop j) (j * DIRECTORY_SIZE) newBuffer := by
  have hpos := sb.slotsPerClus_pos
  have hsize : 0 < DIRECTORY_SIZE := by decide
  have hdiv : j * DIRECTORY_SIZE / sb.bytePerClus = j / sb.slotsPerClus := by
    rw [sb.bytePerClus_slots]
    exact Nat.mul_div_mul_right j sb.slotsPerClus hsize
  have hmod : j * DIRECTORY_SIZE % sb.bytePerClus / DIRECTORY_SIZE = j % sb.slotsPerClus := by
    rw [sb.bytePerClus_slots, Nat.mul_mod_mul_right, Nat.mul_div_cancel _ hsize]
  rw [dirSeen_length] at hj
  unfold fat32ReaddirAt
  rw [hdiv, h.first, h.links.skipClusters_eq _ h.nonempty]
  by_cases hlt : j / sb.slotsPerClus < chain.length
  · rw [if_pos hlt]
    dsimp only
    have hdrop : (dirSeen sb disk stale (chain.drop (j / sb.slotsPerClus))).drop
        (j % sb.slotsPerClus) = (dirSeen sb disk stale chain).drop j := by
      rw [← dirSeen_drop_clusters, List.drop_drop, Nat.mul_comm, Nat.div_add_mod]
    have hloop := @readdirLoopAt_chain sb disk (chain.drop (j / sb.slotsPerClus))
    constructor
    · rintro ⟨fuel, hx⟩
      have hres := (hloop fuel _ h.links.drop).1 x hx
      dsimp only at hres
      rwa [hmod, hdrop] at hres
    · rintro rfl
      have hres := (hloop ((chain.drop (j / sb.slotsPerClus)).length + 1)
        ⟨stale, newBuffer, j * DIRECTORY_SIZE⟩ h.links.drop).2 (Nat.lt_succ_self _)
      dsimp only at hres
      rw [hmod, hdrop] at hres
      exact ⟨_, hres⟩
  · -- the position is the end of the last cluster
    have hend : j = chain.length * sb.slotsPerClus := by
      have := (Nat.le_div_iff_mul_le hpos).mp (Nat.not_lt.mp hlt)
      omega
    have hdrop : (dirSeen sb disk stale chain).drop j = [] := by
      exact List.drop_eq_nil_of_le (by rw [dirSeen_length, hend])
    rw [if_neg hlt, hdrop, scanEnd_nil]
    exact ⟨fun hx => (Option.some.inj hx.choose_spec).symm, fun hx => ⟨0, by rw [hx]⟩⟩

/-! ## The bytes of a slot -/

/-- A slot has 32 bytes. -/
def cutSlot (e : Buffer) : Buffer := fun j => if j < DIRECTORY_SIZE then e j else 0

theorem cutSlot_of_lt (e : Buffer) {j : Nat} (hj : j < 32) : cutSlot e j = e j := if_pos hj

theorem slotDeleted_cut (e : Buffer) : slotDeleted (cutSlot e) = slotDeleted e := rfl

theorem slotLongName_cut (e : Buffer) : slotLongName (cutSlot e) = slotLongName e := rfl

theorem putLongName_cut (e nameBuf : Buffer) :
    putLongName (cutSlot e) nameBuf = putLongName e nameBuf := by
  unfold putLongName
  dsimp only
  rw [overlay_congr (fun k => e (1 + 2 * k)) (fun k hk => cutSlot_of_lt e (by omega)),
    overlay_congr (fun k => e (14 + 2 * k)) (fun k hk => cutSlot_of_lt e (by omega)),
    overlay_congr (fun k => e (28 + 2 * k)) (fun k hk => cutSlot_of_lt e (by omega)),
    cutSlot_of_lt e (show 0 < 32 by decide)]

theorem shortName_cut (e nameBuf : Buffer) :
    shortName (cutSlot e) nameBuf = shortName e nameBuf := by
  have hname : (List.range 8).map (cutSlot e) = (List.range 8).map e :=
    List.map_congr_left (fun i hi => cutSlot_of_lt e (by have := List.mem_range.mp hi; omega))
  have hext : (List.range 3).map (fun j => cutSlot e (8 + j)) = (List.range 3).map (fun j => e (8 + j)) :=
    List.map_congr_left (fun i hi => cutSlot_of_lt e (by have := List.mem_range.mp hi; omega))
  unfold shortName
  rw [hname, hext, cutSlot_of_lt e (show 12 < 32 by decide)]

theorem slotName_cut (e nameBuf : Buffer) (position : Nat) :
    slotName (cutSlot e) nameBuf position = slotName e nameBuf position := by
  unfold slotName
  rw [shortName_cut]

/-- A scan reads nothing else. -/
theorem readdirScan_cut : ∀ (es : List Buffer) (position : Nat) (nameBuf : Buffer),
    readdirScan (es.map cutSlot) position nameBuf = readdirScan es position nameBuf
  | [], _, _ => rfl
  | e :: es, position, nameBuf => by
      rw [List.map_cons, readdirScan, readdirScan, slotDeleted_cut, slotLongName_cut,
        putLongName_cut, slotName_cut, readdirScan_cut es, readdirScan_cut es]

theorem scanEnd_cut (es : List Buffer) (position : Nat) (nameBuf : Buffer) :
    scanEnd (es.map cutSlot) position nameBuf = scanEnd es position nameBuf := by
  unfold scanEnd
  rw [readdirScan_cut, List.length_map]

/-! ## All calls -/

/-- A scan finds the first name of the list, and the rest of the list lies behind it. -/
theorem listed_scan : ∀ (es : List Buffer) (position : Nat) (nameBuf : Buffer),
    match readdirScan es position nameBuf with
    | .inl _ => listed es position nameBuf = []
    | .inr r => ∃ n ≤ es.length, r.position = position + n * DIRECTORY_SIZE ∧
        listed es position nameBuf = r :: listed (es.drop n) r.position newBuffer
  | [], _, _ => rfl
  | e :: es, position, nameBuf => by
      -- a slot without name: the scan goes on behind it
      have hskip : ∀ b, (match readdirScan es (position + DIRECTORY_SIZE) b with
          | .inl _ => listed es (position + DIRECTORY_SIZE) b = []
          | .inr r => ∃ n ≤ (e :: es).length, r.position = position + n * DIRECTORY_SIZE ∧
              listed es (position + DIRECTORY_SIZE) b
                = r :: listed ((e :: es).drop n) r.position newBuffer) := by
        intro b
        have ih := listed_scan es (position + DIRECTORY_SIZE) b
        cases hs : readdirScan es (position + DIRECTORY_SIZE) b with
        | inl b' =>
            rw [hs] at ih
            exact ih
        | inr r =>
            rw [hs] at ih
            rcases ih with ⟨n, hn, hpos, hlist⟩
            refine ⟨n + 1, Nat.succ_le_succ hn, ?_, hlist⟩
            rw [hpos]
            ring
      rw [listed]
      cases hd : slotDeleted e with
      | true =>
          rw [readdirScan_deleted hd, if_pos rfl]
          exact hskip nameBuf
      | false =>
          rw [if_neg (by decide)]
          cases hl : slotLongName e with
          | true =>
              rw [readdirScan_long hd hl, if_pos rfl]
              exact hskip (putLongName e nameBuf)
          | false =>
              rw [readdirScan_name hd hl, if_neg (by decide)]
              exact ⟨1, Nat.le_add_left 1 es.length, by rw [slotName_position, Nat.one_mul],
                by rw [slotName_position, List.drop_succ_cons, List.drop_zero]⟩

/-- A call finds the first name from its slot on, and stops where the others follow. -/
theorem scanEnd_listed (es : List Buffer) {j : Nat} (hj : j ≤ es.length) :
    (scanEnd (es.drop j) (j * DIRECTORY_SIZE) newBuffer).1
      = (listed (es.drop j) (j * DIRECTORY_SIZE) newBuffer).head? ∧
    ∃ j' ≤ es.length, (scanEnd (es.drop j) (j * DIRECTORY_SIZE) newBuffer).2 = j' * DIRECTORY_SIZE ∧
      (listed (es.drop j) (j * DIRECTORY_SIZE) newBuffer).tail
        = listed (es.drop j') (j' * DIRECTORY_SIZE) newBuffer := by
  have hscan := listed_scan (es.drop j) (j * DIRECTORY_SIZE) newBuffer
  have hlen : (es.drop j).length = es.length - j := List.length_drop
  unfold scanEnd
  cases hs : readdirScan (es.drop j) (j * DIRECTORY_SIZE) newBuffer with
  | inl b =>
      rw [hs] at hscan
      dsimp only at hscan ⊢
      refine ⟨(congrArg List.head? hscan).symm, es.length, le_rfl, ?_, ?_⟩
      · rw [hlen, ← Nat.add_mul, Nat.add_sub_cancel' hj]
      · rw [hscan, List.drop_length]
        rfl
  | inr r =>
      rw [hs] at hscan
      rcases hscan with ⟨n, hn, hpos, hlist⟩
      have hend : r.position = (j + n) * DIRECTORY_SIZE := by
        rw [hpos]
        ring
      refine ⟨(congrArg List.head? hlist).symm, j + n, by omega, hend, ?_⟩
      rw [hlist, List.tail_cons, List.drop_drop, hend]

/-- `filp->position` before call `k`. -/
def callPos (es : List Buffer) : Nat → Nat
  | 0 => 0
  | k + 1 => (scanEnd (es.drop (callPos es k / DIRECTORY_SIZE)) (callPos es k) newBuffer).2

/-- Call `k` starts at a slot, and finds the first of the names that are left. -/
theorem callPos_spec (es : List Buffer) (k : Nat) :
    ∃ j ≤ es.length, callPos es k = j * DIRECTORY_SIZE ∧
      (listed es 0 newBuffer).drop k = listed (es.drop j) (j * DIRECTORY_SIZE) newBuffer ∧
      scanEnd (es.drop j) (j * DIRECTORY_SIZE) newBuffer
        = ((listed es 0 newBuffer)[k]?, callPos es (k + 1)) := by
  have hcall : ∀ k j, j ≤ es.length → callPos es k = j * DIRECTORY_SIZE →
      (listed es 0 newBuffer).drop k = listed (es.drop j) (j * DIRECTORY_SIZE) newBuffer →
      scanEnd (es.drop j) (j * DIRECTORY_SIZE) newBuffer
        = ((listed es 0 newBuffer)[k]?, callPos es (k + 1)) := by
    intro k j hj hpos hdrop
    have hslot : callPos es k / DIRECTORY_SIZE = j := by
      rw [hpos]
      exact Nat.mul_div_cancel j (by decide)
    apply Prod.ext
    · rw [(scanEnd_listed es hj).1, ← hdrop, List.head?_drop]
    · rw [callPos, hslot, hpos]
  induction k with
  | zero =>
      have hpos : callPos es 0 = 0 * DIRECTORY_SIZE := (Nat.zero_mul _).symm
      have hdrop : (listed es 0 newBuffer).drop 0
          = listed (es.drop 0) (0 * DIRECTORY_SIZE) newBuffer := by
        rw [List.drop_zero, List.drop_zero, Nat.zero_mul]
      exact ⟨0, Nat.zero_le _, hpos, hdrop, hcall 0 0 (Nat.zero_le _) hpos hdrop⟩
  | succ k ih =>
      rcases ih with ⟨j, hj, -, hdrop, hend⟩
      rcases (scanEnd_listed es hj).2 with ⟨j', hj', hpos', htail⟩
      rw [hend] at hpos'
      have hdrop' : (listed es 0 newBuffer).drop (k + 1)
          = listed (es.drop j') (j' * DIRECTORY_SIZE) newBuffer := by
        rw [← htail, ← hdrop, List.tail_drop]
      exact ⟨j', hj', hpos', hdrop', hcall (k + 1) j' hj' hpos' hdrop'⟩

/-- **All calls**: they find the names of the list one after the other. -/
theorem dirCalls_listed {inode : Inode} {chain : List Nat} (h : DirChain sb disk inode chain)
    {stale : Nat → Buffer} {es : List Buffer}
    (hseen : ∀ k, (dirSeen sb disk (stale k) chain).map cutSlot = es.map cutSlot)
    (pos : Nat → Nat) (res : Nat → Option DirName) :
    DirCalls sb disk inode stale pos res ↔
      (∀ k, pos k = callPos es k) ∧ ∀ k, res k = (listed es 0 newBuffer)[k]? := by
  have hone : ∀ k x, (∃ fuel, fat32ReaddirAt sb disk inode (stale k) fuel (callPos es k) = some x) ↔
      x = ((listed es 0 newBuffer)[k]?, callPos es (k + 1)) := by
    intro k x
    rcases callPos_spec es k with ⟨j, hj, hpos, -, hend⟩
    have hlen := congrArg List.length (hseen k)
    rw [List.length_map, List.length_map] at hlen
    have hsame : scanEnd ((dirSeen sb disk (stale k) chain).drop j) (j * DIRECTORY_SIZE) newBuffer
        = scanEnd (es.drop j) (j * DIRECTORY_SIZE) newBuffer := by
      rw [← scanEnd_cut, List.map_drop, hseen k, ← List.map_drop, scanEnd_cut]
    have hslots := fat32ReaddirAt_slots h (hj.trans_eq hlen.symm) x
    rwa [hsame, hend, ← hpos] at hslots
  constructor
  · intro hcalls
    have hpos : ∀ k, pos k = callPos es k := by
      intro k
      induction k with
      | zero => exact hcalls.start
      | succ k ih =>
          have hk := hcalls.call k
          rw [ih] at hk
          exact congrArg Prod.snd ((hone k _).mp hk)
    refine ⟨hpos, fun k => ?_⟩
    have hk := hcalls.call k
    rw [hpos k] at hk
    exact congrArg Prod.fst ((hone k _).mp hk)
  · rintro ⟨hpos, hres⟩
    refine ⟨hpos 0, fun k => ?_⟩
    rw [hpos k]
    apply (hone k _).mpr
    rw [hpos (k + 1), hres k]

end

end Talios
