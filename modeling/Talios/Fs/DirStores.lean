import Talios.Fs.DirClusters

set_option autoImplicit false

/-! # Stores into the name buffers

`lname_buf` and `name_buf` have 256 bytes. The letters of a long-name slot go where the number in the
slot says, and nothing checks it. From 1 to 19 the numbers are safe; 0 wraps around, and 20, which the
longest names need, is too large.
-/

namespace Talios

open Bytes Word

/-! ## The indices -/

/-- `GetBits(ldir_ord, 0, 6)`. -/
def longNumber (e : Buffer) : Nat := (e 0).toNat % 64

/-- The indices that a long-name slot is stored to. -/
def longNameStores (e : Buffer) : List Nat :=
  let base := sub64 (longNumber e) 1 * 13 % 2 ^ 64
  (List.range 5).map (fun k => add64 base k)
    ++ (List.range 6).map (fun k => add64 base (k + 5))
    ++ (List.range 2).map (fun k => add64 base (k + 11))
    ++ if (e 0).toNat / 64 % 2 = 1 then [add64 base 13] else []

/-- The indices that a short name is stored to. `lower_case(name_buf + base)` comes first: it changes
capital letters up to the next zero. -/
def shortNameStores (e nameBuf : Buffer) : List Nat :=
  let base := (((List.range 8).map e).takeWhile (· ≠ 32)).length
  let lower := (List.range' base (stringLen (fun i => nameBuf (base + i)))).filter
    (fun i => lowerCase (nameBuf i) ≠ nameBuf i)
  (if (e 12).toNat / 16 % 2 = 1 then lower else []) ++ List.range ((shortName e nameBuf).2 + 1)

/-- The indices of `name_buf` that the loop over some slots stores to. -/
def scanStores : List Buffer → Buffer → List Nat
  | [], _ => []
  | e :: es, nameBuf =>
      if slotDeleted e then scanStores es nameBuf
      else if slotLongName e then longNameStores e ++ scanStores es (putLongName e nameBuf)
      else if nameBuf 0 ≠ 0 then []
      else shortNameStores e nameBuf

/-- The indices of `name_buf` that `fat32_readdir` stores to, which goes through the slots as
`readdirLoop_clusters` says. -/
def readdirStores (sb : SbInfo) (disk : Buffer) (inode : Inode) (stale : Buffer)
    (fuel position : Nat) : List Nat :=
  match skipClusters sb disk (position / sb.bytePerClus) inode.firstCluster with
  | none => []
  | some clus => scanStores ((dirSeen sb disk stale (clusters sb disk fuel clus)).drop
      (position % sb.bytePerClus / DIRECTORY_SIZE)) newBuffer

/-- No store goes outside the buffers, for any name that `path_walk` may look up and any position. -/
structure NameBuffersInside (sb : SbInfo) (disk : Buffer) (inode : Inode) (stale : Buffer) :
    Prop where
  lookup : ∀ (name : List UInt8) (fuel : Nat), name.length ≤ 255 →
    fat32Lookup sb disk inode name fuel ≠ some .outside
  readdir : ∀ (fuel position : Nat), ∀ i ∈ readdirStores sb disk inode stale fuel position, i < 256

/-- The number of a long-name slot is one that fits. -/
def NumberFits (e : Buffer) : Prop := 1 ≤ longNumber e ∧ longNumber e ≤ 19

/-! ## A long-name slot -/

theorem longBase_eq {e : Buffer} (h : 1 ≤ longNumber e) :
    sub64 (longNumber e) 1 * 13 % 2 ^ 64 = (longNumber e - 1) * 13 := by
  have hlt : longNumber e < 64 := Nat.mod_lt _ (by decide)
  have hsub : sub64 (longNumber e) 1 = longNumber e - 1 := by
    unfold sub64
    omega
  rw [hsub]
  omega

theorem longBase_zero {e : Buffer} (h : longNumber e = 0) :
    sub64 (longNumber e) 1 * 13 % 2 ^ 64 = 2 ^ 64 - 13 := by
  rw [h]
  rfl

theorem longNameFits_iff (e : Buffer) : longNameFits e = true ↔ NumberFits e := by
  have hlt : longNumber e < 64 := Nat.mod_lt _ (by decide)
  have hfits : longNameFits e
      = decide (sub64 (longNumber e) 1 * 13 % 2 ^ 64 + 13 + (e 0).toNat / 64 % 2 ≤ 256) := rfl
  rw [hfits, decide_eq_true_eq, NumberFits]
  rcases Nat.eq_zero_or_pos (longNumber e) with h0 | hpos
  · rw [longBase_zero h0]
    omega
  · rw [longBase_eq hpos]
    omega

/-- The stores of a slot lie in the buffer where its number fits. -/
theorem longNameStores_inside (e : Buffer) :
    (∀ i ∈ longNameStores e, i < 256) ↔ NumberFits e := by
  have hlt : longNumber e < 64 := Nat.mod_lt _ (by decide)
  constructor
  · intro h
    -- the eleventh letter alone decides
    have h10 : add64 (sub64 (longNumber e) 1 * 13 % 2 ^ 64) 10 < 256 := by
      apply h
      simp only [longNameStores, List.mem_append, List.mem_map, List.mem_range]
      exact Or.inl (Or.inl (Or.inr ⟨5, by decide, rfl⟩))
    unfold NumberFits
    rcases Nat.eq_zero_or_pos (longNumber e) with h0 | hpos
    · rw [longBase_zero h0] at h10
      exact absurd h10 (by decide)
    · rw [longBase_eq hpos, add64_eq (by omega)] at h10
      omega
  · rintro ⟨h1, h19⟩ i hi
    have hadd : ∀ k ≤ 13, add64 ((longNumber e - 1) * 13) k < 256 := by
      intro k hk
      rw [add64_eq (by omega)]
      omega
    unfold longNameStores at hi
    rw [longBase_eq h1] at hi
    dsimp only at hi
    simp only [List.mem_append, List.mem_map, List.mem_range] at hi
    rcases hi with ((⟨k, hk, rfl⟩ | ⟨k, hk, rfl⟩) | ⟨k, hk, rfl⟩) | hi
    · exact hadd k (by omega)
    · exact hadd (k + 5) (by omega)
    · exact hadd (k + 11) (by omega)
    · split at hi
      · rw [List.mem_singleton.mp hi]
        exact hadd 13 le_rfl
      · exact absurd hi List.not_mem_nil

/-! ## What the buffers hold -/

/-- Behind the letters of nineteen slots there are only zeros. -/
def ZeroBehind (nameBuf : Buffer) : Prop := ∀ i, 247 ≤ i → nameBuf i = 0

theorem zeroBehind_new : ZeroBehind newBuffer := fun _ _ => rfl

/-- The letters of a slot whose number fits. -/
theorem putLongName_eq {e nameBuf : Buffer} (h : 1 ≤ longNumber e) :
    putLongName e nameBuf =
      let base := (longNumber e - 1) * 13
      let letters := overlay (overlay (overlay nameBuf base 5 (fun k => e (1 + 2 * k)))
        (base + 5) 6 (fun k => e (14 + 2 * k))) (base + 11) 2 (fun k => e (28 + 2 * k))
      if (e 0).toNat / 64 % 2 = 1 then overlay letters (base + 13) 1 (fun _ => 0) else letters := by
  have hlt : longNumber e < 64 := Nat.mod_lt _ (by decide)
  have hadd : ∀ k ≤ 13, add64 ((longNumber e - 1) * 13) k = (longNumber e - 1) * 13 + k :=
    fun k hk => add64_eq (by omega)
  have hbase : sub64 ((e 0).toNat % 64) 1 * 13 % 2 ^ 64 = (longNumber e - 1) * 13 := longBase_eq h
  unfold putLongName
  simp only [hbase, hadd 5 (by decide), hadd 11 (by decide), hadd 13 (by decide)]

theorem ZeroBehind.putLongName {e nameBuf : Buffer} (h : ZeroBehind nameBuf) (he : NumberFits e) :
    ZeroBehind (putLongName e nameBuf) := by
  have h19 := he.2
  rw [putLongName_eq he.1]
  generalize hb : (longNumber e - 1) * 13 = base
  have hbase : base + 13 ≤ 247 := by omega
  intro i hi
  have hletters : overlay (overlay (overlay nameBuf base 5 (fun k => e (1 + 2 * k)))
      (base + 5) 6 (fun k => e (14 + 2 * k))) (base + 11) 2 (fun k => e (28 + 2 * k)) i = 0 := by
    rw [overlay_of_ge (by omega), overlay_of_ge (by omega), overlay_of_ge (by omega)]
    exact h i hi
  dsimp only
  split
  · by_cases hlast : i < base + 13 + 1
    · rw [overlay_of_mem (by omega) hlast]
    · rw [overlay_of_ge (by omega)]
      exact hletters
  · exact hletters

/-- A string that starts at `base` ends before index 248. -/
theorem ZeroBehind.stringLen_le {nameBuf : Buffer} (h : ZeroBehind nameBuf) {base : Nat}
    (hb : base ≤ 247) : base + stringLen (fun i => nameBuf (base + i)) ≤ 247 := by
  have hle : stringLen (fun i => nameBuf (base + i)) ≤ 247 - base := by
    unfold stringLen
    by_contra hgt
    rw [Nat.not_le] at hgt
    have hnot := List.not_of_lt_findIdx hgt
    have hzero : nameBuf (base + (247 - base)) = 0 := by
      rw [Nat.add_sub_cancel' hb]
      exact h 247 le_rfl
    rw [List.getElem_range] at hnot
    dsimp only at hnot
    rw [hzero] at hnot
    exact absurd hnot (by decide)
  omega

theorem shortNameStores_inside {e nameBuf : Buffer} (h : ZeroBehind nameBuf) :
    ∀ i ∈ shortNameStores e nameBuf, i < 256 := by
  have hbase : (((List.range 8).map e).takeWhile (· ≠ 32)).length ≤ 8 :=
    (List.takeWhile_prefix _).length_le.trans (by simp)
  have hlen := h.stringLen_le (hbase.trans (by decide))
  have h12 := shortName_length_le e nameBuf
  intro i hi
  unfold shortNameStores at hi
  dsimp only at hi
  rcases List.mem_append.mp hi with hi | hi
  · split at hi
    · have hrange := (List.mem_filter.mp hi).1
      rw [List.mem_range'_1] at hrange
      omega
    · exact absurd hi List.not_mem_nil
  · rw [List.mem_range] at hi
    omega

/-! ## The scans -/

/-- The listing stays in its buffer where the numbers of the long-name slots fit that it goes
through. -/
theorem scanStores_inside : ∀ (es : List Buffer) {nameBuf : Buffer}, ZeroBehind nameBuf →
    (∀ e ∈ es, slotDeleted e = false → slotLongName e = true → NumberFits e) →
    ∀ i ∈ scanStores es nameBuf, i < 256
  | [], _, _, _ => fun i hi => absurd hi List.not_mem_nil
  | e :: es, nameBuf, hz, h => by
      have hes := @scanStores_inside es nameBuf hz
        (fun e he => h e (List.mem_cons_of_mem _ he))
      rw [scanStores]
      cases hd : slotDeleted e with
      | true => exact hes
      | false =>
          rw [if_neg (by decide)]
          cases hl : slotLongName e with
          | true =>
              have hfit := h e List.mem_cons_self hd hl
              rw [if_pos rfl]
              intro i hi
              rcases List.mem_append.mp hi with hi | hi
              · exact (longNameStores_inside e).mpr hfit i hi
              · exact scanStores_inside es (hz.putLongName hfit)
                  (fun e he => h e (List.mem_cons_of_mem _ he)) i hi
          | false =>
              rw [if_neg (by decide)]
              split
              · exact fun i hi => absurd hi List.not_mem_nil
              · exact shortNameStores_inside hz

/-- A search never stores outside its buffer where the numbers of all long-name slots fit. -/
theorem lookupScan_inside {name : List UInt8} (hname : name.length ≤ 255) :
    ∀ (es : List Buffer) (i : Nat) (lnameBuf : Buffer),
    (∀ e ∈ es, slotLongName e = true → NumberFits e) →
    lookupScan name es i lnameBuf ≠ .outside
  | [], _, _, _ => fun h => by cases h
  | e :: es, i, lnameBuf, h => by
      have hfdn : ¬ 256 ≤ (fdn2sde name).length := by
        unfold fdn2sde
        rw [List.length_map]
        have := List.length_filter_le (fun c => c ≠ 46 ∧ c ≠ 32) name
        omega
      have hslot : lookupSlot name e i lnameBuf ≠ .outside := by
        unfold lookupSlot
        cases hl : slotLongName e with
        | true =>
            rw [if_pos rfl, if_pos ((longNameFits_iff e).mpr (h e List.mem_cons_self hl))]
            exact fun hs => by cases hs
        | false =>
            rw [if_neg (by decide), if_neg hfdn]
            repeat' split
            all_goals exact fun hs => by cases hs
      rw [lookupScan]
      cases hs : lookupSlot name e i lnameBuf with
      | outside => exact absurd hs hslot
      | found k => exact fun hk => by cases hk
      | next b =>
          exact lookupScan_inside hname es (i + 1) b (fun e he => h e (List.mem_cons_of_mem _ he))

/-- A name that no entry has: it is longer than any that slots with numbers up to 19 can hold. -/
def noName : List UInt8 := List.replicate 250 65

theorem noName_fdn2sde : fdn2sde noName = noName := by
  unfold fdn2sde noName
  rw [List.filter_eq_self.mpr, List.map_replicate]
  · rfl
  · intro c hc
    rw [List.eq_of_mem_replicate hc]
    rfl

/-- No entry has it. -/
theorem lookupSlot_noName {e : Buffer} (i : Nat) {lnameBuf : Buffer} (hz : ZeroBehind lnameBuf) :
    (slotLongName e = true → NumberFits e) ∧
      (∃ b, lookupSlot noName e i lnameBuf = .next b ∧ ZeroBehind b) ∨
    lookupSlot noName e i lnameBuf = .outside := by
  have hlen : noName.length = 250 := List.length_replicate
  unfold lookupSlot
  rw [noName_fdn2sde, hlen]
  cases hl : slotLongName e with
  | true =>
      rw [if_pos rfl]
      cases hf : longNameFits e with
      | true =>
          have hfit := (longNameFits_iff e).mp hf
          exact Or.inl ⟨fun _ => hfit, _, if_pos rfl, hz.putLongName hfit⟩
      | false => exact Or.inr (if_neg (by decide))
  | false =>
      refine Or.inl ⟨fun h => (nomatch h), newBuffer, ?_, zeroBehind_new⟩
      have hlong : noName ≠ cString lnameBuf := by
        intro h
        have hs : stringLen lnameBuf ≤ 247 := by
          have := hz.stringLen_le (Nat.zero_le 247)
          simpa using this
        have hl := congrArg List.length h
        rw [hlen, cString, List.length_map, List.length_range] at hl
        omega
      have hshort : noName ≠ fsde e := by
        intro h
        have hl := congrArg List.length h
        have h11 : (fsde e).length ≤ 11 := by
          unfold fsde
          rw [List.length_map]
          calc _ ≤ (((List.range 11).map e).filter (· ≠ 32)).length :=
                (List.takeWhile_prefix _).length_le
            _ ≤ ((List.range 11).map e).length := List.length_filter_le _ _
            _ = 11 := by simp
        omega
      rw [if_neg (by decide), if_neg hlong]
      rw [if_neg (show ¬ 256 ≤ 250 by decide), if_neg hshort, ite_self]

/-- The search for it goes through all slots, or comes to one whose number does not fit. -/
theorem lookupScan_noName : ∀ (es : List Buffer) (i : Nat) {lnameBuf : Buffer},
    ZeroBehind lnameBuf → lookupScan noName es i lnameBuf ≠ .outside →
    ∀ e ∈ es, slotLongName e = true → NumberFits e
  | [], _, _, _, _ => fun e he => absurd he List.not_mem_nil
  | e :: es, i, lnameBuf, hz, h => by
      rw [lookupScan] at h
      rcases lookupSlot_noName (e := e) i hz with ⟨hfit, b, hs, hb⟩ | hs
      · rw [hs] at h
        intro e' he'
        rcases List.mem_cons.mp he' with rfl | he'
        · exact hfit
        · exact lookupScan_noName es (i + 1) hb h e' he'
      · rw [hs] at h
        exact absurd rfl h

/-! ## The clusters that a listing comes to -/

section

variable {sb : SbInfo} {disk : Buffer}

/-- One more link. -/
theorem skipClusters_succ : ∀ (k first : Nat), skipClusters sb disk (k + 1) first
    = match skipClusters sb disk k first with
      | none => none
      | some clus =>
          if fat32TableRead sb disk clus = 0 then none else some (fat32TableRead sb disk clus)
  | 0, _ => rfl
  | k + 1, first => by
      rw [skipClusters]
      conv_rhs => rw [skipClusters]
      split
      · rfl
      · exact skipClusters_succ k _

theorem skipClusters_clusters {first : Nat} : ∀ (n k clus c : Nat),
    skipClusters sb disk k first = some clus → c ∈ clusters sb disk n clus →
    ∃ k', skipClusters sb disk k' first = some c ∧ c ≠ 0
  | 0, _, _, _, _, hc => absurd hc List.not_mem_nil
  | n + 1, k, clus, c, hk, hc => by
      by_cases h0 : clus = 0
      · rw [h0, clusters_zero] at hc
        exact absurd hc List.not_mem_nil
      rw [clusters_succ n h0] at hc
      rcases List.mem_cons.mp hc with rfl | hc
      · exact ⟨k, hk, h0⟩
      · by_cases hnext : fat32TableRead sb disk clus = 0
        · rw [hnext, clusters_zero] at hc
          exact absurd hc List.not_mem_nil
        · refine skipClusters_clusters n (k + 1) _ c ?_ hc
          rw [skipClusters_succ, hk]
          exact if_neg hnext

/-- **The name buffers hold** where the number of every long-name slot of the directory is one from 1 to
19, in deleted slots as well, and so is that of every long-name slot that is not deleted among those
that the listing sees. -/
theorem nameBuffers_inside (sb : SbInfo) (disk : Buffer) (inode : Inode) (stale : Buffer) :
    NameBuffersInside sb disk inode stale ↔
      (∀ n, ∀ e ∈ dirSlots sb disk (clusters sb disk n (inode.firstCluster % 2 ^ 28)),
        slotLongName e = true → 1 ≤ longNumber e ∧ longNumber e ≤ 19) ∧
      ∀ k clus, skipClusters sb disk k inode.firstCluster = some clus → clus ≠ 0 →
        ∀ e ∈ seenSlots sb disk stale clus, slotDeleted e = false → slotLongName e = true →
          1 ≤ longNumber e ∧ longNumber e ≤ 19 := by
  constructor
  · intro h
    refine ⟨fun n => ?_, fun k clus hk h0 e he hd hl => ?_⟩
    · have hname := h.lookup noName n (by unfold noName; rw [List.length_replicate]; decide)
      have hzero : noName.takeWhile (· ≠ 0) = noName := by
        unfold noName
        rw [List.takeWhile_replicate]
        exact if_pos rfl
      unfold fat32Lookup at hname
      rw [hzero, lookupLoop_clusters] at hname
      apply lookupScan_noName _ 0 zeroBehind_new
      intro hout
      rw [hout] at hname
      exact hname rfl
    · -- a call at the position of the slot goes through it first
      rcases List.mem_map.mp he with ⟨i, hi, rfl⟩
      rw [List.mem_range] at hi
      have hb := sb.bytePerClus_slots
      have hlt : i * DIRECTORY_SIZE < sb.bytePerClus := by
        rw [hb]
        exact Nat.mul_lt_mul_of_pos_right hi (by decide)
      have hdiv : (k * sb.bytePerClus + i * DIRECTORY_SIZE) / sb.bytePerClus = k := by
        rw [Nat.mul_comm k, Nat.mul_add_div (by omega), Nat.div_eq_of_lt hlt, Nat.add_zero]
      have hmod : (k * sb.bytePerClus + i * DIRECTORY_SIZE) % sb.bytePerClus / DIRECTORY_SIZE = i := by
        rw [Nat.mul_comm k, Nat.mul_add_mod, Nat.mod_eq_of_lt hlt]
        exact Nat.mul_div_cancel i (by decide)
      have hstores := h.readdir 1 (k * sb.bytePerClus + i * DIRECTORY_SIZE)
      unfold readdirStores at hstores
      rw [hdiv, hk, hmod] at hstores
      dsimp only at hstores
      rw [clusters_succ 0 h0, dirSeen_cons, List.drop_append_of_le_length
        (by rw [seenSlots_length]; omega), seenSlots, slots_drop,
        show sb.slotsPerClus - i = sb.slotsPerClus - i - 1 + 1 by omega, List.range'_succ,
        List.map_cons, List.cons_append, scanStores, hd, if_neg (by decide), if_pos hl] at hstores
      exact (longNameStores_inside _).mp
        (fun j hj => hstores j (List.mem_append_left _ hj))
  · rintro ⟨hlook, hread⟩
    refine ⟨fun name fuel hname hout => ?_, fun fuel position => ?_⟩
    · unfold fat32Lookup at hout
      rw [lookupLoop_clusters] at hout
      have hlen : (name.takeWhile (· ≠ 0)).length ≤ 255 :=
        (List.takeWhile_prefix _).length_le.trans hname
      have hin := lookupScan_inside hlen _ 0 newBuffer (hlook fuel)
      cases hs : lookupScan (name.takeWhile (· ≠ 0))
        (dirSlots sb disk (clusters sb disk fuel (inode.firstCluster % 2 ^ 28))) 0 newBuffer with
      | outside => exact hin hs
      | found k =>
          rw [hs] at hout
          cases hout
      | next b =>
          rw [hs] at hout
          dsimp only at hout
          split at hout
          · cases hout
          · cases hout
    · unfold readdirStores
      cases hk : skipClusters sb disk (position / sb.bytePerClus) inode.firstCluster with
      | none => exact fun i hi => absurd hi List.not_mem_nil
      | some clus =>
          apply scanStores_inside _ zeroBehind_new
          intro e he hd hl
          have hmem := List.mem_of_mem_drop he
          rcases List.mem_flatMap.mp hmem with ⟨c, hc, hec⟩
          rcases skipClusters_clusters fuel _ clus c hk hc with ⟨k', hk', h0⟩
          exact hread k' c hk' h0 e hec hd hl

end

/-- A directory that begins with the last slot of a name of 255 letters, which has the number 20. -/
def longNameDisk : Buffer := fun a =>
  if a < 34 * 512 then 0xff
  else if a = 37 * 512 then 0x54
  else if a = 37 * 512 + 11 then 0x0f
  else 0

theorem longNameDisk_outside :
    fat32Lookup exampleSb longNameDisk exampleInode [65] 1 = some .outside := by
  let buf := ideRead longNameDisk (clusToLba exampleSb 5) 1 newBuffer
  have hslot : lookupSlot [65] (slot buf 0) 0 newBuffer = .outside := by
    unfold lookupSlot
    rw [if_pos (by decide), if_neg (by decide)]
  have hscan : lookupScan [65] (slots buf 16) 0 newBuffer = .outside := by
    show lookupScan [65] (slot buf 0 :: _) 0 newBuffer = _
    rw [lookupScan, hslot]
  have hname : List.takeWhile (· ≠ 0) [(65 : UInt8)] = [65] := by decide
  have hclus : exampleInode.firstCluster % 2 ^ 28 = 5 := by decide
  unfold fat32Lookup
  rw [hname, hclus, lookupLoop, if_neg (by decide)]
  dsimp only
  rw [show lookupScan [65] (slots (ideRead longNameDisk (clusToLba exampleSb 5)
    exampleSb.secPerClus newBuffer) (exampleSb.bytePerClus / DIRECTORY_SIZE)) 0 newBuffer = .outside
    from hscan]

theorem nameBuffers_outside : ¬ ∀ (sb : SbInfo) (disk : Buffer) (inode : Inode) (stale : Buffer),
    NameBuffersInside sb disk inode stale := by
  intro hall
  have h := (hall exampleSb longNameDisk exampleInode newBuffer).lookup [65] 1 (by decide)
  exact h longNameDisk_outside

end Talios
