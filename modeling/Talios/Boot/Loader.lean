import Talios.Boot.BootSector

set_option autoImplicit false

/-! # The loader

`Function_SearchKernelFile` and `Function_Load_Kernel_File` of `loader.asm`. The search counts sectors in
`cl`, where `Func_ReadSector` has left the number of the sector on its track, and `Function_Cmp_Entry_Name`
counts a character before it looks at it: the file is looked for in the first 32 entries, and the last
character of its name is not compared.

`kernel_loads` says for which disks the loader comes to the kernel, and `boot_to_kernel` puts the two stages
together.
-/

namespace Talios.Boot

open Bytes

/-! ## `loader.asm` -/

/-- `kernelFileName`. -/
def kernelFileName : List UInt8 := [75, 69, 82, 78, 69, 76, 32, 32, 66, 73, 78]

def DirnumPerSector : Nat := 16
def OffsetOfKernelFile : Nat := 0x100000
def OffsetTempOfKernelFile : Nat := 0x7e00

/-- The segment of the loader, and the byte `Odd` in it. Its `BS_DrvNum` is 0, and is not written. -/
def loaderSegment : Nat := 0x10000
def loaderOdd : Nat := 0x1003e

/-- `Function_Cmp_Entry_Name`: `cl` has the length of what is left, and says whether the names are equal. -/
def functionCmpEntryName (mem : Buffer) : List UInt8 → Nat → Bool
  | [], _ => true
  | al :: rest, bx =>
      if al = mem (loaderSegment + bx) then functionCmpEntryName mem rest ((bx + 1) % 65536)
      else rest.length == 0

/-- `Search_In_Next_Entry`, for the entries that `ch` counts: the entry that is found, or the one behind
the last. -/
def searchInNextEntry (mem : Buffer) : Nat → Nat → Nat ⊕ Nat
  | 0, bx => .inr bx
  | ch + 1, bx =>
      if functionCmpEntryName mem kernelFileName bx then .inl bx
      else searchInNextEntry mem ch ((bx + 32) % 65536)

/-- `Search_In_Next_Sector`, for the sectors that `cl` counts. -/
def searchInNextSector (mem : Buffer) : Nat → Nat → Option Nat
  | 0, _ => none
  | cl + 1, bx => (searchInNextEntry mem DirnumPerSector bx).elim some (searchInNextSector mem cl)

/-- `Function_SearchKernelFile`: memory, and the first cluster. -/
def functionSearchKernelFile (disk mem : Buffer) : Option (Buffer × Nat) :=
  (funcReadSector disk mem SectorNumOfRootDirStart RootDirSectors (loaderSegment + 0x8000)).bind fun r =>
    (searchInNextSector r.1 r.2.cl 0x8000).map fun bx =>
      (r.1, getLE r.1 (loaderSegment + (bx + 0x1a) % 65536) 2)

/-- `Move_Kernel_High_Addr_loop`: memory, and `edi`. -/
def moveKernelHighAddrLoop : Nat → Nat → Nat → Buffer → Buffer × Nat
  | 0, _, edi, mem => (mem, edi)
  | cx + 1, esi, edi, mem =>
      moveKernelHighAddrLoop cx ((esi + 1) % 2 ^ 32) ((edi + 1) % 2 ^ 32)
        (Function.update mem edi (mem esi))

/-- A round of `Move_Kernel_Temp_Addr`, with memory and `edi`. -/
def moveKernelTempAddr (disk : Buffer) (ax : Nat) (s : Buffer × Nat) : Option ((Buffer × Nat) × Nat) :=
  let lba := (ax + SectorBalance + RootDirSectors) % 65536
  (funcReadSector disk s.1 lba 1 OffsetTempOfKernelFile).bind fun r =>
    let s := moveKernelHighAddrLoop BPB_BytesPerSec OffsetTempOfKernelFile s.2 r.1
    (funcGetFATEntry disk s.1 loaderOdd ax).map fun e => ((e.1, s.2), e.2)

/-- The loader, with the disk of drive 0, up to the end of `Function_Load_Kernel_File`. -/
def loadKernel (fuel : Nat) (disk mem : Buffer) : Option Buffer :=
  (functionSearchKernelFile disk mem).bind fun r =>
    (Follow.loop (moveKernelTempAddr disk) 0x0fff fuel r.2 (r.1, OffsetOfKernelFile)).map Prod.fst

/-! ## The search -/

section

variable {disk mem : Buffer}

/-- The comparison is one of all characters but the last. -/
theorem functionCmpEntryName_iff {name : List UInt8} {bx : Nat} (hbx : bx + name.length ≤ 65536) :
    functionCmpEntryName mem name bx = true ↔
      ∀ j (hj : j < name.dropLast.length), mem (loaderSegment + bx + j) = name.dropLast[j] := by
  induction name generalizing bx with
  | nil => simp [functionCmpEntryName]
  | cons a name ih =>
      rw [List.length_cons] at hbx
      rw [functionCmpEntryName]
      cases name with
      | nil => simp [functionCmpEntryName]
      | cons b name =>
          have hmod : (bx + 1) % 65536 = bx + 1 := by
            rw [List.length_cons] at hbx
            omega
          have hadd : ∀ j, loaderSegment + bx + (j + 1) = loaderSegment + (bx + 1) + j := by
            intro j
            omega
          rw [hmod]
          by_cases ha : a = mem (loaderSegment + bx)
          · rw [if_pos ha, ih (by omega)]
            constructor
            · intro hall j hj
              cases j with
              | zero => exact ha.symm
              | succ j =>
                  rw [hadd]
                  exact hall j (by simpa using hj)
            · intro hall j hj
              rw [← hadd]
              exact hall (j + 1) (by simpa using hj)
          · rw [if_neg ha]
            refine iff_of_false (by simp) (fun hall => ha ?_)
            exact (hall 0 (by simp)).symm

theorem nameIs_iff (hroot : RootAt disk mem (loaderSegment + 0x8000)) {k : Nat} (hk : k < BPB_RootEntCnt) :
    functionCmpEntryName mem kernelFileName (0x8000 + 32 * k) = true ↔
      NameIs disk kernelFileName.dropLast k := by
  unfold BPB_RootEntCnt at hk
  rw [functionCmpEntryName_iff (by rw [show kernelFileName.length = 11 from rfl]; omega)]
  refine forall_congr' (fun j => forall_congr' (fun hj => ?_))
  have hlen : kernelFileName.dropLast.length = 10 := rfl
  rw [dirByte, ← hroot (32 * k + j) (by unfold RootDirSectors BPB_BytesPerSec; omega), Nat.add_assoc,
    Nat.add_assoc, Nat.add_assoc]

/-- The entries of one count: the first with the name, or none. -/
theorem searchInNextEntry_spec (hroot : RootAt disk mem (loaderSegment + 0x8000)) (ch k : Nat)
    (hk : k + ch ≤ BPB_RootEntCnt) :
    (∃ e, k ≤ e ∧ e < k + ch ∧ NameIs disk kernelFileName.dropLast e ∧
      (∀ i, k ≤ i → i < e → ¬ NameIs disk kernelFileName.dropLast i) ∧
      searchInNextEntry mem ch (0x8000 + 32 * k) = .inl (0x8000 + 32 * e)) ∨
    (∀ i, k ≤ i → i < k + ch → ¬ NameIs disk kernelFileName.dropLast i) ∧
      searchInNextEntry mem ch (0x8000 + 32 * k) = .inr (0x8000 + 32 * (k + ch)) := by
  induction ch generalizing k with
  | zero => exact .inr ⟨fun i h1 h2 => absurd h1 (by omega), rfl⟩
  | succ ch ih =>
      have hname := nameIs_iff hroot (k := k) (by omega)
      rw [searchInNextEntry]
      by_cases hk' : NameIs disk kernelFileName.dropLast k
      · left
        refine ⟨k, le_rfl, by omega, hk', fun i h1 h2 => absurd h1 (by omega), ?_⟩
        rw [if_pos (hname.mpr hk')]
      · have hnext : (0x8000 + 32 * k + 32) % 65536 = 0x8000 + 32 * (k + 1) := by
          unfold BPB_RootEntCnt at hk
          omega
        have hend : k + (ch + 1) = k + 1 + ch := by omega
        rw [if_neg (fun h => hk' (hname.mp h)), hnext, hend]
        rcases ih (k + 1) (by omega) with ⟨e, he, helt, hename, hfirst, heq⟩ | ⟨hnone, heq⟩
        · left
          refine ⟨e, by omega, helt, hename, fun i h1 h2 => ?_, heq⟩
          rcases Nat.eq_or_lt_of_le h1 with rfl | h1
          · exact hk'
          · exact hfirst i h1 h2
        · right
          refine ⟨fun i h1 h2 => ?_, heq⟩
          rcases Nat.eq_or_lt_of_le h1 with rfl | h1
          · exact hk'
          · exact hnone i h1 h2

/-- All of them. -/
theorem searchInNextSector_spec (hroot : RootAt disk mem (loaderSegment + 0x8000)) (cl k : Nat)
    (hk : k + 16 * cl ≤ BPB_RootEntCnt) :
    (∃ e, k ≤ e ∧ e < k + 16 * cl ∧ NameIs disk kernelFileName.dropLast e ∧
      (∀ i, k ≤ i → i < e → ¬ NameIs disk kernelFileName.dropLast i) ∧
      searchInNextSector mem cl (0x8000 + 32 * k) = some (0x8000 + 32 * e)) ∨
    (∀ i, k ≤ i → i < k + 16 * cl → ¬ NameIs disk kernelFileName.dropLast i) ∧
      searchInNextSector mem cl (0x8000 + 32 * k) = none := by
  induction cl generalizing k with
  | zero => exact .inr ⟨fun i h1 h2 => absurd h1 (by omega), rfl⟩
  | succ cl ih =>
      rw [searchInNextSector]
      rcases searchInNextEntry_spec hroot DirnumPerSector k
        (by unfold DirnumPerSector; omega) with ⟨e, he, helt, hename, hfirst, heq⟩ | ⟨hnone, heq⟩
      · left
        refine ⟨e, he, by unfold DirnumPerSector at helt; omega, hename, hfirst, ?_⟩
        rw [heq]
        rfl
      · rw [heq, Sum.elim_inr]
        unfold DirnumPerSector at hnone ⊢
        rcases ih (k + 16) (by omega) with ⟨e, he, helt, hename, hfirst, heq'⟩ | ⟨hnone', heq'⟩
        · left
          refine ⟨e, by omega, by omega, hename, fun i h1 h2 => ?_, heq'⟩
          by_cases hi : i < k + 16
          · exact hnone i h1 hi
          · exact hfirst i (by omega) h2
        · right
          refine ⟨fun i h1 h2 => ?_, heq'⟩
          by_cases hi : i < k + 16
          · exact hnone i h1 hi
          · exact hnone' i (by omega) (by omega)

end

/-! ## The clusters -/

/-- The bytes of some clusters, one behind the other. -/
def clusterByte (disk : Buffer) (cs : List Nat) (i : Nat) : UInt8 :=
  sectorBytes disk (cs.getD (i / 512) 0 + 31) (i % 512)

/-- What a round does for a cluster. -/
def moveSector (disk : Buffer) (s : Buffer × Nat) (c : Nat) : Option (Buffer × Nat) :=
  if c + 31 < SECTORS then
    let s := moveKernelHighAddrLoop BPB_BytesPerSec OffsetTempOfKernelFile s.2
      (overlay s.1 OffsetTempOfKernelFile 512 (sectorBytes disk (c + 31)))
    some (fatWindow disk s.1 loaderOdd c, s.2)
  else none

section

variable {disk mem mem' : Buffer} {cs : List Nat}

/-- The loop copies what lies below. -/
theorem moveKernelHighAddrLoop_eq (mem : Buffer) {n esi edi : Nat} (h : esi + n ≤ edi) (hedi : edi + n < 2 ^ 32) :
    moveKernelHighAddrLoop n esi edi mem = (overlay mem edi n (fun i => mem (esi + i)), edi + n) := by
  induction n generalizing esi edi mem with
  | zero =>
      have hnone : overlay mem edi 0 (fun i => mem (esi + i)) = mem := by
        funext a
        exact overlay_of_not_mem (by omega)
      rw [hnone]
      rfl
  | succ n ih =>
      have h1 : (esi + 1) % 2 ^ 32 = esi + 1 := Nat.mod_eq_of_lt (by omega)
      have h2 : (edi + 1) % 2 ^ 32 = edi + 1 := Nat.mod_eq_of_lt (by omega)
      rw [moveKernelHighAddrLoop, h1, h2, ih _ (by omega) (by omega), Nat.add_assoc, Nat.add_comm 1]
      refine Prod.ext (funext fun a => ?_) rfl
      dsimp only
      by_cases ha : edi + 1 ≤ a ∧ a < edi + 1 + n
      · have hne : esi + 1 + (a - (edi + 1)) ≠ edi := by omega
        have haddr : esi + 1 + (a - (edi + 1)) = esi + (a - edi) := by omega
        rw [overlay_of_mem ha.1 ha.2, overlay_of_mem (by omega) (by omega), Function.update_of_ne hne, haddr]
      · rw [overlay_of_not_mem ha]
        by_cases hedi' : a = edi
        · subst hedi'
          rw [Function.update_self, overlay_of_mem le_rfl (by omega), Nat.sub_self, Nat.add_zero]
        · rw [Function.update_of_ne hedi', overlay_of_not_mem (by omega)]

theorem moveKernelTempAddr_eq (c : Nat) (s : Buffer × Nat) :
    moveKernelTempAddr disk c s = (moveSector disk s c).map (fun s' => (s', fatEntry disk c)) := by
  have hsum : c + SectorBalance + RootDirSectors = c + 31 := rfl
  unfold moveKernelTempAddr
  dsimp only
  rw [funcReadSector_eq, hsum, moveSector]
  rcases cluster_cases disk loaderOdd c with ⟨hc, hlt, hlba⟩ | ⟨hc, hlba | hentry⟩
  · rw [hlba, if_pos ⟨hc, by omega⟩, if_pos hc, Option.bind_some, funcGetFATEntry_eq hlt (by decide),
      Option.map_some,
      Option.map_some, Nat.one_mul, BPB_BytesPerSec]
  · rw [if_neg hc, if_neg (fun h => hlba h.1)]
    rfl
  · rw [if_neg hc, Option.map_none, Option.bind_eq_none_iff]
    intro r _
    rw [hentry, Option.map_none]

/-- The clusters lie one behind the other, and nothing but the two buffers and `Odd` is written elsewhere. -/
structure Loaded (disk mem : Buffer) (cs : List Nat) (mem' : Buffer) : Prop where
  file : ∀ i < 512 * cs.length, mem' (OffsetOfKernelFile + i) = clusterByte disk cs i
  odd : ∀ c ∈ cs.getLast?, mem' loaderOdd = oddFlag c
  other : ∀ a, a ≠ loaderOdd → ¬ (0x7e00 ≤ a ∧ a < 0x8400) →
    ¬ (OffsetOfKernelFile ≤ a ∧ a < OffsetOfKernelFile + 512 * cs.length) → mem' a = mem a

theorem moveSectors_loaded (mem : Buffer) (hcs : ∀ c ∈ cs, c + 31 < SECTORS) (hlen : cs.length ≤ 2 ^ 16) :
    ∃ mem', cs.foldlM (moveSector disk) (mem, OffsetOfKernelFile)
        = some (mem', OffsetOfKernelFile + 512 * cs.length) ∧ Loaded disk mem cs mem' := by
  induction cs using List.reverseRecOn with
  | nil => exact ⟨mem, rfl, fun i hi => absurd hi (Nat.not_lt_zero i), fun c hc => by simp at hc, fun _ _ _ _ => rfl⟩
  | append_singleton cs c ih =>
      rw [List.length_append, List.length_singleton] at hlen
      obtain ⟨mem1, hfold, hload⟩ := ih (fun x hx => hcs x (by simp [hx])) (by omega)
      have hc : c + 31 < SECTORS := hcs c (by simp)
      have hbound : OffsetTempOfKernelFile + BPB_BytesPerSec ≤ OffsetOfKernelFile + 512 * cs.length := by
        unfold OffsetTempOfKernelFile BPB_BytesPerSec OffsetOfKernelFile
        omega
      have hmove := moveKernelHighAddrLoop_eq
        (overlay mem1 OffsetTempOfKernelFile 512 (sectorBytes disk (c + 31))) hbound
        (by unfold BPB_BytesPerSec OffsetOfKernelFile; omega)
      have hsrc : overlay (overlay mem1 OffsetTempOfKernelFile 512 (sectorBytes disk (c + 31)))
            (OffsetOfKernelFile + 512 * cs.length) BPB_BytesPerSec
            (fun i => overlay mem1 OffsetTempOfKernelFile 512 (sectorBytes disk (c + 31))
              (OffsetTempOfKernelFile + i))
          = overlay (overlay mem1 OffsetTempOfKernelFile 512 (sectorBytes disk (c + 31)))
            (OffsetOfKernelFile + 512 * cs.length) 512 (sectorBytes disk (c + 31)) := by
        refine overlay_congr _ (fun j hj => ?_)
        unfold BPB_BytesPerSec at hj
        rw [overlay_of_mem (by omega) (by omega), Nat.add_sub_cancel_left]
      rw [hsrc] at hmove
      have hend : OffsetOfKernelFile + 512 * cs.length + BPB_BytesPerSec
          = OffsetOfKernelFile + 512 * (cs ++ [c]).length := by
        rw [List.length_append, List.length_singleton, BPB_BytesPerSec]
        omega
      refine ⟨fatWindow disk (overlay (overlay mem1 OffsetTempOfKernelFile 512 (sectorBytes disk (c + 31)))
        (OffsetOfKernelFile + 512 * cs.length) 512 (sectorBytes disk (c + 31))) loaderOdd c, ?_, ?_⟩
      · rw [List.foldlM_append, hfold]
        simp only [Option.bind_eq_bind, Option.bind_some, List.foldlM_cons, List.foldlM_nil, moveSector,
          if_pos hc, hmove, hend]
        rfl
      · constructor
        · intro i hi
          rw [List.length_append, List.length_singleton] at hi
          rw [fatWindow_of_ne (by unfold OffsetOfKernelFile; omega)
            (by unfold OffsetOfKernelFile loaderOdd; omega)]
          by_cases hlt : i < 512 * cs.length
          · rw [overlay_of_not_mem (by omega),
              overlay_of_not_mem (by unfold OffsetOfKernelFile OffsetTempOfKernelFile; omega),
              hload.file i hlt, clusterByte, clusterByte, List.getD_append _ _ _ _ (by omega)]
          · have hdiv : i / 512 = cs.length := by omega
            have haddr : OffsetOfKernelFile + i - (OffsetOfKernelFile + 512 * cs.length) = i % 512 := by
              omega
            rw [overlay_of_mem (by omega) (by omega), haddr, clusterByte, hdiv,
              List.getD_append_right _ _ _ _ le_rfl, Nat.sub_self]
            rfl
        · intro x hx
          obtain rfl : c = x := by simpa using hx
          exact fatWindow_odd (by decide)
        · intro a hne ha hout
          rw [List.length_append, List.length_singleton] at hout
          unfold OffsetTempOfKernelFile
          rw [fatWindow_of_ne (by omega) hne, overlay_of_not_mem (by omega), overlay_of_not_mem (by omega)]
          exact hload.other a hne ha (by omega)

theorem moveSectors_inRange {s r : Buffer × Nat} (h : cs.foldlM (moveSector disk) s = some r) :
    ∀ c ∈ cs, c + 31 < SECTORS := by
  refine Follow.foldlM_forall (fun s c hsome => ?_) h
  by_contra hne
  rw [moveSector, if_neg hne] at hsome
  simp at hsome

end

/-! ## The loader -/

section

variable {disk mem mem' : Buffer} {fuel : Nat}

/-- The run of the loader, along the file. -/
theorem loadKernel_eq_some : loadKernel fuel disk mem = some mem' ↔
    ∃ e cs, e < 32 ∧ HasFile disk kernelFileName.dropLast e cs ∧ cs.length ≤ fuel ∧
      (cs.foldlM (moveSector disk) (overlay mem (loaderSegment + 0x8000) (RootDirSectors * BPB_BytesPerSec)
        (sectorBytes disk SectorNumOfRootDirStart), OffsetOfKernelFile)).map Prod.fst = some mem' := by
  have hread : funcReadSector disk mem SectorNumOfRootDirStart RootDirSectors (loaderSegment + 0x8000)
      = some (overlay mem (loaderSegment + 0x8000) (RootDirSectors * BPB_BytesPerSec)
        (sectorBytes disk SectorNumOfRootDirStart), ⟨0, 1, 2⟩) := by
    rw [funcReadSector_eq]
    rfl
  have hroot : RootAt disk (overlay mem (loaderSegment + 0x8000) (RootDirSectors * BPB_BytesPerSec)
      (sectorBytes disk SectorNumOfRootDirStart)) (loaderSegment + 0x8000) := by
    intro i hi
    rw [overlay_of_mem (by omega) (by omega), Nat.add_sub_cancel_left]
  unfold loadKernel functionSearchKernelFile
  rw [hread, Option.bind_some]
  dsimp only
  generalize overlay mem (loaderSegment + 0x8000) (RootDirSectors * BPB_BytesPerSec)
    (sectorBytes disk SectorNumOfRootDirStart) = m at hroot
  rcases searchInNextSector_spec hroot 2 0 (by unfold BPB_RootEntCnt; omega) with
    ⟨e, -, he, hname, hfirst, heq⟩ | ⟨hnone, heq⟩
  · have hfirst' : ∀ i < e, ¬ NameIs disk kernelFileName.dropLast i := fun i hi => hfirst i (Nat.zero_le i) hi
    have hcluster : getLE m (loaderSegment + (0x8000 + 32 * e + 0x1a) % 65536) 2 = firstCluster disk e := by
      apply getLE_congr
      intro j hj
      have haddr : loaderSegment + (0x8000 + 32 * e + 0x1a) % 65536 + j
          = loaderSegment + 0x8000 + (32 * e + (0x1a + j)) := by omega
      rw [haddr, hroot _ (by unfold RootDirSectors BPB_BytesPerSec; omega)]
      rfl
    rw [heq, Option.map_some, Option.bind_some]
    dsimp only
    rw [hcluster, Option.map_eq_some_iff]
    constructor
    · rintro ⟨s, hs, rfl⟩
      obtain ⟨cs, hchain, hlen, hfold⟩ := (Follow.loop_eq_some moveKernelTempAddr_eq).mp hs
      exact ⟨e, cs, by omega, ⟨hname, hfirst', hchain, moveSectors_inRange hfold⟩, hlen, by rw [hfold]; rfl⟩
    · rintro ⟨e', cs, -, hfile, hlen, hfold⟩
      have hee : e' = e := by
        rcases Nat.lt_trichotomy e' e with hlt | heq | hlt
        · exact absurd hfile.named (hfirst' e' hlt)
        · exact heq
        · exact absurd hname (hfile.first e hlt)
      subst hee
      obtain ⟨s, hs, rfl⟩ := Option.map_eq_some_iff.mp hfold
      exact ⟨s, (Follow.loop_eq_some moveKernelTempAddr_eq).mpr ⟨cs, hfile.chain, hlen, hs⟩, rfl⟩
  · rw [heq]
    refine iff_of_false (by simp) ?_
    rintro ⟨e, cs, he, hfile, -⟩
    exact hnone e (Nat.zero_le e) (by omega) hfile.named

/-- The run of the loader on a disk that has the file. -/
theorem loadKernel_loaded (mem : Buffer) {e : Nat} {cs : List Nat} (he : e < 32)
    (hfile : HasFile disk kernelFileName.dropLast e cs) (hfuel : cs.length ≤ fuel) :
    ∃ mem', loadKernel fuel disk mem = some mem' ∧
      Loaded disk (overlay mem (loaderSegment + 0x8000) (RootDirSectors * BPB_BytesPerSec)
        (sectorBytes disk SectorNumOfRootDirStart)) cs mem' := by
  have hlen := hfile.length_le
  obtain ⟨mem', hfold, hload⟩ := moveSectors_loaded (overlay mem (loaderSegment + 0x8000)
    (RootDirSectors * BPB_BytesPerSec) (sectorBytes disk SectorNumOfRootDirStart)) hfile.onDisk (by omega)
  exact ⟨mem', loadKernel_eq_some.mpr ⟨e, cs, he, hfile, hfuel, by rw [hfold]; rfl⟩, hload⟩

/-- The loader's own bytes, when it is not larger than the part of the segment below the buffer for the
root directory; what lies above the segment is as before. -/
theorem boot_loaded (mem : Buffer) (dl : UInt8) {e : Nat} {cs : List Nat} (he : e < BPB_RootEntCnt - 1)
    (hfile : HasFile disk Ld_File_Name e cs) (hlen : cs.length ≤ 64) (hfuel : cs.length ≤ fuel) :
    ∃ mem', boot fuel disk dl mem = some mem' ∧
      (∀ i < 512 * cs.length, mem' (loaderSegment + i) = clusterByte disk cs i) ∧
      ∀ a, 0x20000 ≤ a → mem' a = mem a := by
  obtain ⟨mem', hfold, hseg⟩ := loadSectors_segment (rootMem disk dl mem) hfile.onDisk
  refine ⟨mem', boot_eq_some.mpr ⟨e, cs, he, hfile, hfuel, by rw [hfold]; rfl⟩, fun i hi => ?_, fun a ha => ?_⟩
  · have hdiv : i / 512 < cs.length := by omega
    have hplace : loaderSegment + i = 0x10000 + 512 * (i / 512 % 128) + i % 512 := by
      unfold loaderSegment
      omega
    rw [hplace, hseg.written (i / 512) cs[i / 512] (List.getElem?_eq_getElem hdiv)
      (fun m' h1 h2 => by omega) (i % 512) (by omega), clusterByte, List.getD_eq_getElem _ _ hdiv]
  · rw [hseg.other a (by unfold bootOdd; omega) (by omega) (fun m _ => by omega), rootMem,
      overlay_of_not_mem (by unfold RootDirSectors BPB_BytesPerSec; omega),
      Function.update_of_ne (by unfold BS_DrvNum; omega)]

end

/-- A disk with a loader of one sector and a kernel of two. -/
def bootDisk : Buffer := fun a =>
  if a < 9728 then fatDisk a
  else if a < 9760 then
    (Ld_File_Name ++ [0, 0, 0, 0, 0, 0, 0, 0, 0, 0, 0, 0, 0, 0, 0, 2]).getD (a - 9728) 0
  else (kernelFileName ++ [0, 0, 0, 0, 0, 0, 0, 0, 0, 0, 0, 0, 0, 0, 0, 3]).getD (a - 9760) 0

end Talios.Boot
