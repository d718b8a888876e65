import Talios.Boot.Fat12

set_option autoImplicit false

/-! # The boot sector

`boot.asm`: it looks for `LOADER.BIN` in the root directory, loads the clusters of the file one behind the
other to `0x1000:0`, and jumps there. `boot_iff` says for which disks it comes to the jump, and
`boot_memory` what lies in memory then: the offset in the segment wraps around, so that a file of more than
128 clusters overwrites its own beginning.
-/

namespace Talios.Boot

open Bytes

/-! ## `boot.asm` -/

/-- `Ld_File_Name`. -/
def Ld_File_Name : List UInt8 := [76, 79, 65, 68, 69, 82, 32, 32, 66, 73, 78]

def BaseOfLoader : Nat := 0x1000

/-- Two bytes of the boot sector that are written: the number of the drive, and `Odd`. -/
def BS_DrvNum : Nat := 0x7c24
def bootOdd : Nat := 0x7c6c

/-- `Cmp_Entry_Name_Next`: `lodsb` goes through what is left of the name. Whether the loop has come to the
end of it, `bx` and `di`. -/
def cmpEntryNameNext (mem : Buffer) : List UInt8 → Nat → Nat → Bool × Nat × Nat
  | [], bx, di => (true, bx, di)
  | al :: rest, bx, _ =>
      if al = mem bx then cmpEntryNameNext mem rest ((bx + 1) % 65536) bx
      else (false, (bx + 1) % 65536, bx)

/-- `Loop_Entries_Name_Next`, for the entries that `dx` counts: `dx` and `di` at its end. -/
def loopEntriesNameNext (mem : Buffer) : Nat → Nat → Nat → Nat × Nat
  | 0, _, di => (0, di)
  | dx + 1, bx, di =>
      let r := cmpEntryNameNext mem Ld_File_Name bx di
      if r.1 then (dx, r.2.2)
      else loopEntriesNameNext mem dx (((r.2.1 &&& 0xffe0) + 0x20) % 65536) r.2.2

/-- A round of `Loop_Get_Loader_Next`, with memory and `bx`. -/
def loopGetLoaderNext (disk : Buffer) (ax : Nat) (s : Buffer × Nat) : Option ((Buffer × Nat) × Nat) :=
  let lba := (ax + RootDirSectors + SectorBalance) % 65536
  (funcReadSector disk s.1 lba 1 (BaseOfLoader * 16 + s.2)).bind fun r =>
    (funcGetFATEntry disk r.1 bootOdd ax).map fun e => ((e.1, (s.2 + BPB_BytesPerSec) % 65536), e.2)

/-- The boot sector, up to the jump to the loader, with the number of the drive in `dl` and its disk; `fuel`
bounds the number of clusters. -/
def boot (fuel : Nat) (disk : Buffer) (dl : UInt8) (mem : Buffer) : Option Buffer :=
  let mem : Buffer := Function.update mem BS_DrvNum dl
  (funcReadSector disk mem SectorNumOfRootDirStart RootDirSectors 0x8000).bind fun r =>
    let s := loopEntriesNameNext r.1 BPB_RootEntCnt 0x8000 0
    -- Loop_Root_Dir_Fail
    if s.1 = 0 then none
    else
      (Follow.loop (loopGetLoaderNext disk) 0x0fff fuel (getLE r.1 ((s.2 &&& 0xffe0) + 0x1a) 2)
        (r.1, 0)).map Prod.fst

/-! ## The directory -/

/-- The byte of an entry of the root directory. -/
def dirByte (disk : Buffer) (k j : Nat) : UInt8 := sectorBytes disk SectorNumOfRootDirStart (32 * k + j)

/-- The first `n` characters of an entry are those of a name. -/
def NameIs (disk : Buffer) (name : List UInt8) (k : Nat) : Prop :=
  ∀ j (h : j < name.length), dirByte disk k j = name[j]

instance (disk : Buffer) (name : List UInt8) (k : Nat) : Decidable (NameIs disk name k) :=
  inferInstanceAs (Decidable (∀ j (h : j < name.length), dirByte disk k j = name[j]))

/-- Its first cluster. -/
def firstCluster (disk : Buffer) (k : Nat) : Nat := getLE (dirByte disk k) 0x1a 2

/-- The root directory in memory, from an address on. -/
def RootAt (disk mem : Buffer) (base : Nat) : Prop :=
  ∀ i < RootDirSectors * BPB_BytesPerSec, mem (base + i) = sectorBytes disk SectorNumOfRootDirStart i

section

variable {disk mem : Buffer}

/-- The name is there: all of it is gone through. -/
theorem cmpEntryNameNext_match {name : List UInt8} {bx di : Nat} (hbx : bx + name.length < 65536)
    (h : ∀ j (hj : j < name.length), mem (bx + j) = name[j]) : cmpEntryNameNext mem name bx di
      = (true, bx + name.length, if name = [] then di else bx + name.length - 1) := by
  induction name generalizing bx di with
  | nil => rfl
  | cons a name ih =>
      rw [List.length_cons] at hbx
      have ha : a = mem bx := (h 0 (by simp)).symm
      have hmod : (bx + 1) % 65536 = bx + 1 := Nat.mod_eq_of_lt (by omega)
      have hrest : ∀ j (hj : j < name.length), mem (bx + 1 + j) = name[j] := by
        intro j hj
        have := h (j + 1) (by simpa using hj)
        rw [Nat.add_assoc, Nat.add_comm 1]
        exact this
      have hend : (if name = [] then bx else bx + 1 + name.length - 1) = bx + name.length := by
        by_cases hn : name = []
        · subst hn
          rfl
        · rw [if_neg hn]
          omega
      rw [cmpEntryNameNext, if_pos ha, hmod, ih (by omega) hrest, hend, if_neg (List.cons_ne_nil _ _),
        List.length_cons, Nat.add_assoc, Nat.add_comm 1]
      rfl

/-- The name is not there: `bx` is behind the character that differs. -/
theorem cmpEntryNameNext_differ {name : List UInt8} (bx di : Nat) (hbx : bx + name.length < 65536)
    (h : ¬ ∀ j (hj : j < name.length), mem (bx + j) = name[j]) :
    ∃ x, bx < x ∧ x ≤ bx + name.length ∧ cmpEntryNameNext mem name bx di = (false, x, x - 1) := by
  induction name generalizing bx di with
  | nil => exact absurd (fun j hj => absurd hj (Nat.not_lt_zero j)) h
  | cons a name ih =>
      rw [List.length_cons] at hbx
      have hmod : (bx + 1) % 65536 = bx + 1 := Nat.mod_eq_of_lt (by omega)
      rw [cmpEntryNameNext, hmod, List.length_cons]
      by_cases ha : a = mem bx
      · have hrest : ¬ ∀ j (hj : j < name.length), mem (bx + 1 + j) = name[j] := by
          intro hrest
          refine h (fun j hj => ?_)
          cases j with
          | zero => exact ha.symm
          | succ j =>
              have := hrest j (by simpa using hj)
              rwa [Nat.add_assoc, Nat.add_comm 1] at this
        obtain ⟨x, h1, h2, hx⟩ := ih (bx + 1) bx (by omega) hrest
        rw [if_pos ha]
        exact ⟨x, by omega, by omega, hx⟩
      · rw [if_neg ha]
        exact ⟨bx + 1, by omega, by omega, rfl⟩

/-- `and` with `0xffe0` goes back to the beginning of an entry. -/
theorem and_ffe0 {x : Nat} (h : x < 65536) : x &&& 0xffe0 = x / 32 * 32 := by
  have hdiv : (x &&& 0xffe0) / 2 ^ 5 = x / 2 ^ 5 &&& 2 ^ 11 - 1 := Nat.and_div_two_pow
  have hmod : (x &&& 0xffe0) % 2 ^ 5 = x % 2 ^ 5 &&& 0 := Nat.and_mod_two_pow
  rw [Nat.and_two_pow_sub_one_eq_mod] at hdiv
  rw [Nat.and_zero] at hmod
  omega

/-- The search from entry `k` on: the first entry with the name, unless it is the last of all. -/
theorem loopEntriesNameNext_spec (hroot : RootAt disk mem 0x8000) (k dx di : Nat)
    (hk : k + dx = BPB_RootEntCnt) :
    (∃ e, k ≤ e ∧ e < BPB_RootEntCnt ∧ NameIs disk Ld_File_Name e ∧
      (∀ i, k ≤ i → i < e → ¬ NameIs disk Ld_File_Name i) ∧
      loopEntriesNameNext mem dx (0x8000 + 32 * k) di = (BPB_RootEntCnt - 1 - e, 0x8000 + 32 * e + 10)) ∨
    (∀ i, k ≤ i → i < BPB_RootEntCnt → ¬ NameIs disk Ld_File_Name i) ∧
      (loopEntriesNameNext mem dx (0x8000 + 32 * k) di).1 = 0 := by
  induction dx generalizing k di with
  | zero =>
      right
      exact ⟨fun i h1 h2 => absurd h1 (by omega), rfl⟩
  | succ dx ih =>
      unfold BPB_RootEntCnt at hk
      have hlen : Ld_File_Name.length = 11 := rfl
      have hin : 0x8000 + 32 * k + Ld_File_Name.length < 65536 := by omega
      have hname : NameIs disk Ld_File_Name k ↔
          ∀ j (hj : j < Ld_File_Name.length), mem (0x8000 + 32 * k + j) = Ld_File_Name[j] := by
        refine forall_congr' (fun j => forall_congr' (fun hj => ?_))
        rw [dirByte, ← hroot (32 * k + j) (by unfold RootDirSectors BPB_BytesPerSec; omega), Nat.add_assoc]
      by_cases hk' : NameIs disk Ld_File_Name k
      · left
        refine ⟨k, le_rfl, by unfold BPB_RootEntCnt; omega, hk', fun i h1 h2 => absurd h1 (by omega), ?_⟩
        rw [loopEntriesNameNext, cmpEntryNameNext_match hin (hname.mp hk')]
        have hdx : dx = BPB_RootEntCnt - 1 - k := by
          unfold BPB_RootEntCnt
          omega
        rw [← hdx]
        rfl
      · obtain ⟨x, h1, h2, hx⟩ := cmpEntryNameNext_differ _ di hin (fun h => hk' (hname.mpr h))
        have hnext : ((x &&& 0xffe0) + 0x20) % 65536 = 0x8000 + 32 * (k + 1) := by
          rw [and_ffe0 (by omega)]
          omega
        have hloop : loopEntriesNameNext mem (dx + 1) (0x8000 + 32 * k) di
            = loopEntriesNameNext mem dx (0x8000 + 32 * (k + 1)) (x - 1) := by
          rw [loopEntriesNameNext, hx, ← hnext]
          rfl
        rw [hloop]
        rcases ih (k + 1) (x - 1) (by unfold BPB_RootEntCnt; omega) with
          ⟨e, he, helt, hename, hfirst, heq⟩ | ⟨hnone, hzero⟩
        · left
          refine ⟨e, by omega, helt, hename, fun i h1 h2 => ?_, heq⟩
          rcases Nat.eq_or_lt_of_le h1 with rfl | h1
          · exact hk'
          · exact hfirst i h1 h2
        · right
          refine ⟨fun i h1 h2 => ?_, hzero⟩
          rcases Nat.eq_or_lt_of_le h1 with rfl | h1
          · exact hk'
          · exact hnone i h1 h2

end

/-! ## The clusters -/

/-- What a round does for a cluster. -/
def loadSector (disk : Buffer) (s : Buffer × Nat) (c : Nat) : Option (Buffer × Nat) :=
  if c + 31 < SECTORS then
    some (fatWindow disk (overlay s.1 (0x10000 + s.2) 512 (sectorBytes disk (c + 31))) bootOdd c,
      (s.2 + 512) % 65536)
  else none

/-- The segment behind the load of some clusters: a cluster lies at its place until another one comes
there. -/
structure Segment (disk mem : Buffer) (cs : List Nat) (mem' : Buffer) : Prop where
  written : ∀ m c, cs[m]? = some c → (∀ m', m < m' → m' < cs.length → m' % 128 ≠ m % 128) →
    ∀ i < 512, mem' (0x10000 + 512 * (m % 128) + i) = sectorBytes disk (c + 31) i
  other : ∀ a, a ≠ bootOdd → ¬ (0x8000 ≤ a ∧ a < 0x8400) →
    (∀ m < cs.length, ¬ (0x10000 + 512 * (m % 128) ≤ a ∧ a < 0x10000 + 512 * (m % 128) + 512)) →
    mem' a = mem a

section

variable {disk mem mem' : Buffer} {cs : List Nat}

/-- A round is the load of the cluster, and its successor in the table. -/
theorem loopGetLoaderNext_eq (c : Nat) (s : Buffer × Nat) :
    loopGetLoaderNext disk c s = (loadSector disk s c).map (fun s' => (s', fatEntry disk c)) := by
  have hsum : c + RootDirSectors + SectorBalance = c + 31 := rfl
  unfold loopGetLoaderNext
  dsimp only
  rw [funcReadSector_eq, hsum, loadSector]
  rcases cluster_cases disk bootOdd c with ⟨hc, hlt, hlba⟩ | ⟨hc, hlba | hentry⟩
  · rw [hlba, if_pos ⟨hc, by omega⟩, if_pos hc, Option.bind_some, funcGetFATEntry_eq hlt (by decide),
      Option.map_some,
      Option.map_some, Nat.one_mul, BPB_BytesPerSec, BaseOfLoader]
  · rw [if_neg hc, if_neg (fun h => hlba h.1)]
    rfl
  · rw [if_neg hc, Option.map_none, Option.bind_eq_none_iff]
    intro r _
    rw [hentry, Option.map_none]

theorem loadSectors_segment (mem : Buffer) (hcs : ∀ c ∈ cs, c + 31 < SECTORS) :
    ∃ mem', cs.foldlM (loadSector disk) (mem, 0) = some (mem', 512 * cs.length % 65536) ∧
      Segment disk mem cs mem' := by
  induction cs using List.reverseRecOn with
  | nil => exact ⟨mem, rfl, fun m c h => by simp at h, fun _ _ _ _ => rfl⟩
  | append_singleton cs c ih =>
      obtain ⟨mem1, hfold, hseg⟩ := ih (fun x hx => hcs x (by simp [hx]))
      have hc : c + 31 < SECTORS := hcs c (by simp)
      have hplace : 512 * cs.length % 65536 = 512 * (cs.length % 128) := by omega
      have hbx : (512 * cs.length % 65536 + 512) % 65536 = 512 * (cs ++ [c]).length % 65536 := by
        rw [List.length_append, List.length_singleton]
        omega
      refine ⟨fatWindow disk (overlay mem1 (0x10000 + 512 * cs.length % 65536) 512
        (sectorBytes disk (c + 31))) bootOdd c, ?_, ?_⟩
      · rw [List.foldlM_append, hfold]
        simp only [Option.bind_eq_bind, Option.bind_some, List.foldlM_cons, List.foldlM_nil, loadSector,
          if_pos hc, hbx]
        rfl
      · rw [hplace]
        constructor
        · intro m x hm hlast i hi
          -- the window of the table and the boot sector lie below the segment
          rw [fatWindow_of_ne (by omega) (by unfold bootOdd; omega)]
          by_cases hlt : m < cs.length
          · rw [List.getElem?_append_left hlt] at hm
            have hne : cs.length % 128 ≠ m % 128 := hlast cs.length hlt (by simp)
            rw [overlay_of_not_mem (by omega)]
            refine hseg.written m x hm (fun m' h1 h2 => hlast m' h1 ?_) i hi
            rw [List.length_append]
            omega
          · have hlen := (List.getElem?_eq_some_iff.mp hm).1
            rw [List.length_append, List.length_singleton] at hlen
            obtain rfl : m = cs.length := by omega
            rw [List.getElem?_append_right le_rfl, Nat.sub_self] at hm
            obtain rfl : c = x := by simpa using hm
            rw [overlay_of_mem (by omega) (by omega), Nat.add_sub_cancel_left]
        · intro a hne ha hout
          have hin := hout cs.length (by simp)
          rw [fatWindow_of_ne ha hne, overlay_of_not_mem hin]
          refine hseg.other a hne ha (fun m hm => hout m ?_)
          rw [List.length_append]
          omega

theorem loadSectors_inRange {s r : Buffer × Nat} (h : cs.foldlM (loadSector disk) s = some r) :
    ∀ c ∈ cs, c + 31 < SECTORS := by
  refine Follow.foldlM_forall (fun s c hsome => ?_) h
  by_contra hne
  rw [loadSector, if_neg hne] at hsome
  simp at hsome

end

/-! ## The boot sector -/

/-- The disk has the file: the entry that is found first, and the clusters from its first one to the one
with the mark `0xfff`, all of them on the disk. -/
structure HasFile (disk : Buffer) (name : List UInt8) (e : Nat) (cs : List Nat) : Prop where
  named : NameIs disk name e
  first : ∀ i < e, ¬ NameIs disk name i
  chain : Follow.Chain (fatEntry disk) 0x0fff (firstCluster disk e) cs
  onDisk : ∀ c ∈ cs, c + 31 < SECTORS

theorem HasFile.unique {disk : Buffer} {name : List UInt8} {e e' : Nat} {cs cs' : List Nat}
    (h : HasFile disk name e cs) (h' : HasFile disk name e' cs') : e = e' ∧ cs = cs' := by
  have he : e = e' := by
    rcases Nat.lt_trichotomy e e' with hlt | heq | hlt
    · exact absurd h.named (h'.first e hlt)
    · exact heq
    · exact absurd h'.named (h.first e' hlt)
  subst he
  exact ⟨rfl, h.chain.unique h'.chain⟩

/-- The clusters of a file are different and on the disk. -/
theorem HasFile.length_le {disk : Buffer} {name : List UInt8} {e : Nat} {cs : List Nat}
    (h : HasFile disk name e cs) : cs.length ≤ 2849 :=
  h.chain.length_le (fun x hx => by
    have := h.onDisk x hx
    unfold SECTORS at this
    omega)

section

variable {disk mem mem' : Buffer} {fuel : Nat} {dl : UInt8}

/-- Memory with the number of the drive and the root directory. -/
def rootMem (disk : Buffer) (dl : UInt8) (mem : Buffer) : Buffer :=
  overlay (Function.update mem BS_DrvNum dl) 0x8000 (RootDirSectors * BPB_BytesPerSec)
    (sectorBytes disk SectorNumOfRootDirStart)

theorem rootAt_overlay (disk mem : Buffer) : RootAt disk (overlay mem 0x8000 (RootDirSectors * BPB_BytesPerSec)
    (sectorBytes disk SectorNumOfRootDirStart)) 0x8000 := by
  intro i hi
  rw [overlay_of_mem (by omega) (by omega), Nat.add_sub_cancel_left]

/-- The first cluster, as it is read from memory. -/
theorem RootAt.firstCluster (h : RootAt disk mem 0x8000) {e : Nat} (he : e < BPB_RootEntCnt) :
    getLE mem (0x8000 + 32 * e + 0x1a) 2 = firstCluster disk e := by
  apply getLE_congr
  intro j hj
  unfold BPB_RootEntCnt at he
  rw [dirByte, ← h _ (by unfold RootDirSectors BPB_BytesPerSec; omega)]
  congr 1
  omega

/-- The run of the boot sector, along the file. -/
theorem boot_eq_some : boot fuel disk dl mem = some mem' ↔
    ∃ e cs, e < BPB_RootEntCnt - 1 ∧ HasFile disk Ld_File_Name e cs ∧ cs.length ≤ fuel ∧
      (cs.foldlM (loadSector disk) (rootMem disk dl mem, 0)).map Prod.fst = some mem' := by
  have hread : funcReadSector disk (Function.update mem BS_DrvNum dl) SectorNumOfRootDirStart RootDirSectors 0x8000
      = some (rootMem disk dl mem, ⟨0, 1, 2⟩) := by
    rw [funcReadSector_eq]
    rfl
  have hroot : RootAt disk (rootMem disk dl mem) 0x8000 := rootAt_overlay disk _
  unfold boot
  dsimp only
  rw [hread, Option.bind_some]
  dsimp only
  generalize rootMem disk dl mem = m at hroot
  rcases loopEntriesNameNext_spec hroot 0 BPB_RootEntCnt 0 (Nat.zero_add _) with
    ⟨e, -, he, hname, hfirst, heq⟩ | ⟨hnone, hzero⟩
  · have hfirst' : ∀ i < e, ¬ NameIs disk Ld_File_Name i := fun i hi => hfirst i (Nat.zero_le i) hi
    rw [heq]
    dsimp only
    by_cases hlast : BPB_RootEntCnt - 1 - e = 0
    · rw [if_pos hlast]
      refine iff_of_false (by simp) ?_
      rintro ⟨e', cs, he', hfile, -⟩
      rcases Nat.lt_trichotomy e e' with hlt | rfl | hlt
      · exact hfile.first e hlt hname
      · omega
      · exact hfirst' e' hlt hfile.named
    · have hdi : (0x8000 + 32 * e + 10) &&& 0xffe0 = 0x8000 + 32 * e := by
        unfold BPB_RootEntCnt at he
        rw [and_ffe0 (by omega)]
        omega
      rw [if_neg hlast, hdi, hroot.firstCluster he, Option.map_eq_some_iff]
      constructor
      · rintro ⟨s, hs, rfl⟩
        obtain ⟨cs, hchain, hlen, hfold⟩ := (Follow.loop_eq_some loopGetLoaderNext_eq).mp hs
        exact ⟨e, cs, by omega, ⟨hname, hfirst', hchain, loadSectors_inRange hfold⟩, hlen, by
          rw [hfold]
          rfl⟩
      · rintro ⟨e', cs, -, hfile, hlen, hfold⟩
        have hee : e' = e := by
          rcases Nat.lt_trichotomy e' e with hlt | heq | hlt
          · exact absurd hfile.named (hfirst' e' hlt)
          · exact heq
          · exact absurd hname (hfile.first e hlt)
        subst hee
        obtain ⟨s, hs, rfl⟩ := Option.map_eq_some_iff.mp hfold
        exact ⟨s, (Follow.loop_eq_some loopGetLoaderNext_eq).mpr ⟨cs, hfile.chain, hlen, hs⟩, rfl⟩
  · rw [if_pos hzero]
    refine iff_of_false (by simp) ?_
    rintro ⟨e, cs, he, hfile, -⟩
    exact hnone e (Nat.zero_le e) (by omega) hfile.named

end

end Talios.Boot
