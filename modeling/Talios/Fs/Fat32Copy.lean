import Talios.Fs.Fat32

set_option autoImplicit false

/-! # The user/kernel boundary

Which areas of memory `sys_read`, `sys_write` and `sys_getdents` touch through the pointer of the
caller. The loops of `fat32_read` and `fat32_write` go through the same areas (`areasOf`), so that
one analysis is enough for both. `fileCall_userOnly` says exactly when no byte at `TASK_SIZE` or above
is touched.
-/

namespace Talios

open Bytes Word

/-! ## The cluster size -/

theorem SbInfo.bytePerClus_ge (sb : SbInfo) : 512 ≤ sb.bytePerClus := by
  have h := sb.secPerClus_pos
  rw [sb.bytePerClus_eq, sb.bytePerSec_eq, BYTE_PER_VSEC]
  omega

theorem SbInfo.bytePerClus_lt (sb : SbInfo) : sb.bytePerClus < 2 ^ 17 := by
  have h := sb.secPerClus_lt
  rw [sb.bytePerClus_eq, sb.bytePerSec_eq, BYTE_PER_VSEC]
  omega

theorem SbInfo.bytePerClus_eq_mul (sb : SbInfo) :
    sb.bytePerClus = sb.secPerClus * BYTE_PER_VSEC := by
  rw [sb.bytePerClus_eq, sb.bytePerSec_eq]

theorem SbInfo.offset_lt (sb : SbInfo) (position : Nat) :
    position % sb.bytePerClus < sb.bytePerClus :=
  Nat.mod_lt _ (by have := sb.bytePerClus_ge; omega)

theorem chunk_le_remainder (sb : SbInfo) (r o : Nat) : chunk sb r o ≤ r :=
  (Nat.min_le_right _ _).trans (Nat.min_le_left _ _)

theorem chunk_le (sb : SbInfo) (r o : Nat) : chunk sb r o ≤ sb.bytePerClus - o :=
  Nat.min_le_left _ _

/-- A round goes to the end of the cluster, or it ends the copy. -/
theorem chunk_eq (sb : SbInfo) {r o : Nat} (h : chunk sb r o < r) :
    chunk sb r o = sb.bytePerClus - o := by
  unfold chunk at *
  omega

theorem chunk_pos (sb : SbInfo) {r o : Nat} (hr : 0 < r) (ho : o < sb.bytePerClus) :
    0 < chunk sb r o := by
  unfold chunk
  omega

/-! ## The areas of a copy -/

/-- The area of one round. -/
def roundArea (sb : SbInfo) (buf r i o : Nat) : List Area :=
  if copies (add64 buf o) (add64 buf i) (chunk sb r o) then [(add64 buf i, chunk sb r o)] else []

/-- The areas of `n` rounds. -/
def areasOf (sb : SbInfo) (buf : Nat) : Nat → Nat → Nat → Nat → List Area
  | 0, _, _, _ => []
  | n + 1, r, i, o => roundArea sb buf r i o ++
      areasOf sb buf n (r - chunk sb r o) (i + chunk sb r o) 0

theorem userOnly_append {l l' : List Area} : UserOnly (l ++ l') ↔ UserOnly l ∧ UserOnly l' :=
  List.forall_mem_append

theorem userOnly_nil : UserOnly [] := fun _ h => absurd h (by simp)

theorem userOnly_singleton {a n : Nat} :
    UserOnly [(a, n)] ↔ ∀ i < n, add64 a i < TASK_SIZE := by
  unfold UserOnly
  rw [List.forall_mem_singleton]

/-- An area that lies below `TASK_SIZE`. -/
theorem userOnly_of_le {a n : Nat} (h : a + n ≤ TASK_SIZE) : UserOnly [(a, n)] := by
  rw [userOnly_singleton]
  intro i hi
  unfold TASK_SIZE at *
  rw [add64_eq (by omega)]
  omega

/-- An area with a byte at `TASK_SIZE` or above. -/
theorem not_userOnly_of_ge {a n i : Nat} (hi : i < n) (h : TASK_SIZE ≤ a + i)
    (h' : a + i < 2 ^ 64) : ¬ UserOnly [(a, n)] := by
  rw [userOnly_singleton]
  intro hall
  have := hall i hi
  rw [add64_eq h'] at this
  omega

section

variable (sb : SbInfo) {buf r i o : Nat}

theorem roundArea_of_copies (h : copies (add64 buf o) (add64 buf i) (chunk sb r o) = true) :
    roundArea sb buf r i o = [(add64 buf i, chunk sb r o)] := if_pos h

theorem roundArea_of_not (h : copies (add64 buf o) (add64 buf i) (chunk sb r o) = false) :
    roundArea sb buf r i o = [] := if_neg (by simp [h])

/-- A round whose pointer is in user space, and that is verified. -/
theorem roundArea_user (hbo : buf + o < TASK_SIZE) (hi : buf + i < 2 ^ 63) :
    UserOnly (roundArea sb buf r i o) := by
  have hlt := sb.bytePerClus_lt
  have hc := chunk_le sb r o
  have hbuf : add64 buf o < TASK_SIZE := by
    unfold TASK_SIZE at *
    rw [add64_eq (by omega)]
    exact hbo
  cases hv : copies (add64 buf o) (add64 buf i) (chunk sb r o) with
  | false =>
      rw [roundArea_of_not sb hv]
      exact userOnly_nil
  | true =>
      rw [roundArea_of_copies sb hv]
      unfold copies at hv
      rw [if_pos hbuf] at hv
      have hv : add64 (add64 buf i) (chunk sb r o) ≤ TASK_SIZE := of_decide_eq_true hv
      have hbi : add64 buf i = buf + i := add64_eq (by omega)
      rw [hbi, add64_eq (by omega)] at hv
      rw [hbi]
      exact userOnly_of_le hv

/-- The rounds after the first, with a pointer in user space. -/
theorem areasOf_user (hbuf : buf < TASK_SIZE) (n : Nat) :
    ∀ r i : Nat, buf + i + n * 2 ^ 17 < 2 ^ 63 → UserOnly (areasOf sb buf n r i 0) := by
  induction n with
  | zero => exact fun _ _ _ => userOnly_nil
  | succ n ih =>
      intro r i hi
      have hlt := sb.bytePerClus_lt
      have hc := chunk_le sb r 0
      refine userOnly_append.mpr ⟨roundArea_user sb (by omega) (by omega), ih _ _ ?_⟩
      rw [Nat.succ_mul] at hi
      omega

end

/-- The condition on a copy of `r` bytes from offset `o` of a cluster: it stays in user space.
Where the pointer plus `o` wraps around, nothing is copied, unless there is a second round. -/
def UserBuffer (sb : SbInfo) (buf o r next : Nat) : Prop :=
  r = 0 ∨
  (buf < TASK_SIZE ∧ (buf + o < TASK_SIZE ∨ buf + chunk sb r o ≤ TASK_SIZE)) ∨
  (2 ^ 64 ≤ buf + o ∧ buf + chunk sb r o < 2 ^ 64 ∧ (r = chunk sb r o ∨ next = 0))

/-- **The areas of a copy**: `n` rounds stay in user space exactly under `UserBuffer`. -/
theorem areasOf_userOnly (sb : SbInfo) {buf o r n next : Nat} (hbuf : buf < 2 ^ 64)
    (ho : o < sb.bytePerClus) (hn : n < 2 ^ 33)
    (hmore : 0 < n ↔ r ≠ chunk sb r o ∧ next ≠ 0) :
    UserOnly (areasOf sb buf (n + 1) r 0 o) ↔ UserBuffer sb buf o r next := by
  have hlt := sb.bytePerClus_lt
  have hcle := chunk_le sb r o
  have hcr := chunk_le_remainder sb r o
  have hb0 : add64 buf 0 = buf := add64_eq hbuf
  rw [areasOf, userOnly_append, Nat.zero_add]
  unfold UserBuffer
  by_cases hr : r = 0
  · -- nothing is asked for
    have hc : chunk sb r o = 0 := by omega
    have hn0 : n = 0 := by
      by_contra hne
      exact (hmore.mp (by omega)).1 (by omega)
    refine iff_of_true ⟨?_, by rw [hn0]; exact userOnly_nil⟩ (Or.inl hr)
    unfold roundArea
    rw [hc]
    split
    · exact userOnly_singleton.mpr (fun i hi => absurd hi (by omega))
    · exact userOnly_nil
  have hcpos : 0 < chunk sb r o := chunk_pos sb (by omega) ho
  have hTS : TASK_SIZE = 0x00007fffffffffff := rfl
  by_cases hu : buf < TASK_SIZE
  · -- the later rounds verify what they copy
    have hlater : UserOnly (areasOf sb buf n (r - chunk sb r o) (chunk sb r o) 0) :=
      areasOf_user sb hu n _ _ (by omega)
    by_cases hbo : buf + o < TASK_SIZE
    · exact iff_of_true ⟨roundArea_user sb hbo (by omega), hlater⟩
        (Or.inr (Or.inl ⟨hu, Or.inl hbo⟩))
    · -- the first is not verified
      have hcp : copies (add64 buf o) (add64 buf 0) (chunk sb r o) = true := by
        unfold copies
        rw [if_neg (by rw [add64_eq (by omega)]; exact hbo)]
      rw [roundArea_of_copies sb hcp, hb0]
      by_cases hfit : buf + chunk sb r o ≤ TASK_SIZE
      · exact iff_of_true ⟨userOnly_of_le hfit, hlater⟩ (Or.inr (Or.inl ⟨hu, Or.inr hfit⟩))
      · refine iff_of_false (fun h => ?_) (fun h => ?_)
        · exact not_userOnly_of_ge (i := chunk sb r o - 1) (by omega) (by omega) (by omega) h.1
        · rcases h with h | ⟨-, h | h⟩ | ⟨h, -⟩
          · exact hr h
          · exact hbo h
          · exact hfit h
          · omega
  · by_cases hwrap : 2 ^ 64 ≤ buf + o
    · -- the pointer that is compared with `TASK_SIZE` has wrapped around
      have hchk : add64 buf o < TASK_SIZE := by
        unfold add64
        omega
      have hcp : copies (add64 buf o) (add64 buf 0) (chunk sb r o)
          = decide (add64 buf (chunk sb r o) ≤ TASK_SIZE) := by
        unfold copies
        rw [if_pos hchk, hb0]
        rfl
      by_cases hend : buf + chunk sb r o < 2 ^ 64
      · rw [roundArea_of_not sb (by rw [hcp, add64_eq hend]; exact decide_eq_false (by omega))]
        by_cases hn0 : n = 0
        · have hno := mt hmore.mpr (by omega)
          refine iff_of_true ⟨userOnly_nil, by rw [hn0]; exact userOnly_nil⟩
            (Or.inr (Or.inr ⟨hwrap, hend, ?_⟩))
          tauto
        · -- a second round copies to where the first would have ended
          have hmo := hmore.mp (by omega)
          refine iff_of_false (fun h => ?_) (fun h => ?_)
          · obtain ⟨m, rfl⟩ : ∃ m, n = m + 1 := ⟨n - 1, by omega⟩
            have h2 := (userOnly_append.mp (show UserOnly (_ ++ _) from h.2)).1
            have hcp2 : copies (add64 buf 0) (add64 buf (chunk sb r o))
                (chunk sb (r - chunk sb r o) 0) = true := by
              unfold copies
              rw [if_neg (by rw [hb0]; exact hu)]
            rw [roundArea_of_copies sb hcp2, add64_eq hend] at h2
            exact not_userOnly_of_ge (i := 0) (chunk_pos sb (by omega) (by omega)) (by omega)
              (by omega) h2
          · rcases h with h | ⟨h, -⟩ | ⟨-, -, h | h⟩
            · exact hr h
            · exact hu h
            · exact hmo.1 h
            · exact hmo.2 h
      · rw [roundArea_of_copies sb (by rw [hcp]; exact decide_eq_true (by unfold add64; omega)), hb0]
        refine iff_of_false (fun h => ?_) (fun h => ?_)
        · exact not_userOnly_of_ge (i := 0) hcpos (by omega) (by omega) h.1
        · rcases h with h | ⟨h, -⟩ | ⟨-, h, -⟩
          · exact hr h
          · exact hu h
          · exact hend h
    · -- `memcopy` to a kernel address
      have hcp : copies (add64 buf o) (add64 buf 0) (chunk sb r o) = true := by
        unfold copies
        rw [if_neg (by rw [add64_eq (by omega)]; omega)]
      rw [roundArea_of_copies sb hcp, hb0]
      refine iff_of_false (fun h => ?_) (fun h => ?_)
      · exact not_userOnly_of_ge (i := 0) hcpos (by omega) (by omega) h.1
      · rcases h with h | ⟨h, -⟩ | ⟨h, -⟩
        · exact hr h
        · exact hu h
        · exact hwrap h

/-! ## The chain of clusters -/

/-- The number of entries in all copies of the file allocation table. -/
def SbInfo.entries (sb : SbInfo) : Nat := sb.fatNum * sb.secPerFat * 128

/-- The chain from a cluster on has `m + 1` clusters, each with an entry in the table. -/
structure ChainEnds (sb : SbInfo) (disk : Buffer) (clus m : Nat) : Prop where
  entry : ∀ j ≤ m, (fat32TableRead sb disk)^[j] clus < sb.entries ∧
    (fat32TableRead sb disk)^[j] clus ≠ 1
  ends : (fat32TableRead sb disk)^[m + 1] clus = 0

/-- The two disks have the same file allocation tables. -/
def SameTable (sb : SbInfo) (d d' : Buffer) : Prop :=
  ∀ a < sb.fstDataSector * BYTE_PER_VSEC, d' a = d a

section

variable {sb : SbInfo} {disk d d' : Buffer} {clus m : Nat}

theorem ChainEnds.entries (h : ChainEnds sb disk clus m) : clus < sb.entries :=
  (h.entry 0 (Nat.zero_le m)).1

theorem ChainEnds.next (h : ChainEnds sb disk clus (m + 1)) :
    ChainEnds sb disk (fat32TableRead sb disk clus) m := by
  refine ⟨fun j hj => ?_, ?_⟩
  · rw [← Function.iterate_succ_apply]
    exact h.entry (j + 1) (by omega)
  · rw [← Function.iterate_succ_apply]
    exact h.ends

theorem ChainEnds.last (h : ChainEnds sb disk clus 0) : fat32TableRead sb disk clus = 0 := h.ends

theorem SbInfo.entries_lt (sb : SbInfo) : sb.entries < 2 ^ 39 := by
  have h1 := sb.fstDataSector_lt
  have h2 := sb.fstDataSector_eq
  unfold SbInfo.entries
  omega

/-- Only the table is read. -/
theorem fat32TableRead_congr (h : SameTable sb d d') (hc : clus < sb.entries) :
    fat32TableRead sb d' clus = fat32TableRead sb d clus := by
  have hsec : sb.bytePerSec / 4 = 128 := by rw [sb.bytePerSec_eq]; rfl
  have hfst := sb.fstDataSector_eq
  have hle : clus % 2 ^ 32 ≤ clus := Nat.mod_le _ _
  unfold SbInfo.entries at hc
  unfold fat32TableRead
  rw [hsec]
  have hbuf : getLE (ideRead d' (sb.fat1StartSector + clus % 2 ^ 32 / 128) 1 newBuffer)
      (clus % 2 ^ 32 % 128 * 4) 4
      = getLE (ideRead d (sb.fat1StartSector + clus % 2 ^ 32 / 128) 1 newBuffer)
      (clus % 2 ^ 32 % 128 * 4) 4 := by
    apply getLE_congr
    intro j hj
    have hlt : clus % 2 ^ 32 % 128 * 4 + j < 1 * BYTE_PER_VSEC := by
      unfold BYTE_PER_VSEC
      omega
    unfold ideRead
    rw [overlay_zero_left hlt, overlay_zero_left hlt]
    apply h
    unfold BYTE_PER_VSEC at *
    omega
  dsimp only
  rw [hbuf]

/-- A data cluster lies behind the table. -/
theorem clusToLba_eq (h2 : 2 ≤ clus) (hc : clus < 2 ^ 40) :
    clusToLba sb clus = sb.fstDataSector + (clus - 2) * sb.secPerClus := by
  have h3 := sb.fstDataSector_lt
  have h4 : (clus - 2) * sb.secPerClus ≤ 2 ^ 40 * 2 ^ 8 :=
    Nat.mul_le_mul (by omega) (by have := sb.secPerClus_lt; omega)
  unfold clusToLba
  rw [sub64_eq h2 (by omega), add64_eq (by omega)]

/-- A write to a data cluster leaves the table alone. -/
theorem sameTable_ideWrite {lba n : Nat} {b : Buffer} (h : SameTable sb disk d)
    (hl : sb.fstDataSector ≤ lba) : SameTable sb disk (ideWrite d lba n b) := by
  intro a ha
  have hle := Nat.mul_le_mul_right BYTE_PER_VSEC hl
  rw [ideWrite, overlay_of_lt (by omega)]
  exact h a ha

end

/-! ## The two loops -/

/-- The rounds of `fat32_read`. -/
theorem fat32ReadLoop_areas {sb : SbInfo} {disk : Buffer} {buf : Nat} :
    ∀ (fuel m : Nat) (s : ReadLoop), ChainEnds sb disk s.clus m →
      ∃ n ≤ m, (fat32ReadLoop sb disk buf (fuel + 1) s).areas
          = s.areas ++ areasOf sb buf (n + 1) s.remainder s.index s.offset ∧
        (0 < n ↔ 0 < fuel ∧ s.remainder ≠ chunk sb s.remainder s.offset ∧
          fat32TableRead sb disk s.clus ≠ 0) := by
  intro fuel
  induction fuel with
  | zero =>
      intro m s _
      have hone : fat32ReadLoop sb disk buf 1 s = fat32ReadStep sb disk buf s := ite_self _
      refine ⟨0, Nat.zero_le m, ?_, by simp⟩
      rw [hone, areasOf, areasOf, List.append_nil, roundArea]
      show (if _ then _ else _) = _
      split <;> simp
  | succ fuel ih =>
      intro m s hs
      have hstep : (fat32ReadStep sb disk buf s).areas
          = s.areas ++ roundArea sb buf s.remainder s.index s.offset := by
        rw [roundArea]
        show (if _ then _ else _) = _
        split <;> simp
      have hcr := chunk_le_remainder sb s.remainder s.offset
      rw [fat32ReadLoop]
      split
      · rename_i hgo
        have hgo : s.remainder - chunk sb s.remainder s.offset ≠ 0 ∧
          fat32TableRead sb disk s.clus ≠ 0 := hgo
        cases m with
        | zero => exact absurd hs.last hgo.2
        | succ m =>
            obtain ⟨n, hn, ha, -⟩ := ih m (fat32ReadStep sb disk buf s) hs.next
            refine ⟨n + 1, by omega, ?_, iff_of_true (by omega) ⟨by omega, by omega, hgo.2⟩⟩
            rw [ha, hstep, areasOf, List.append_assoc]
            rfl
      · rename_i hstop
        have hstop : ¬ (s.remainder - chunk sb s.remainder s.offset ≠ 0 ∧
          fat32TableRead sb disk s.clus ≠ 0) := hstop
        refine ⟨0, Nat.zero_le m, by rw [hstep]; simp [areasOf], iff_of_false (by omega) ?_⟩
        rintro ⟨-, h1, h2⟩
        exact hstop ⟨by omega, h2⟩

/-- The rounds of `fat32_write`, which go to a data cluster. -/
theorem fat32WriteLoop_areas {sb : SbInfo} {disk mem : Buffer} {buf lba : Nat}
    (hl : sb.fstDataSector ≤ lba) :
    ∀ (fuel m : Nat) (s : WriteLoop), SameTable sb disk s.disk → ChainEnds sb disk s.clus m →
      ∃ n ≤ m, (fat32WriteLoop sb mem buf lba (fuel + 1) s).areas
          = s.areas ++ areasOf sb buf (n + 1) s.remainder s.index s.offset ∧
        (0 < n ↔ 0 < fuel ∧ s.remainder ≠ chunk sb s.remainder s.offset ∧
          fat32TableRead sb disk s.clus ≠ 0) := by
  intro fuel
  induction fuel with
  | zero =>
      intro m s _ _
      have hone : fat32WriteLoop sb mem buf lba 1 s = fat32WriteStep sb mem buf lba s := ite_self _
      refine ⟨0, Nat.zero_le m, ?_, by simp⟩
      rw [hone, areasOf, areasOf, List.append_nil, roundArea]
      show (if _ then _ else _) = _
      split <;> simp
  | succ fuel ih =>
      intro m s hd hs
      have hstep : (fat32WriteStep sb mem buf lba s).areas
          = s.areas ++ roundArea sb buf s.remainder s.index s.offset := by
        rw [roundArea]
        show (if _ then _ else _) = _
        split <;> simp
      have hd' : SameTable sb disk (fat32WriteStep sb mem buf lba s).disk :=
        sameTable_ideWrite hd hl
      have hclus : (fat32WriteStep sb mem buf lba s).clus = fat32TableRead sb disk s.clus :=
        fat32TableRead_congr hd' hs.entries
      have hcr := chunk_le_remainder sb s.remainder s.offset
      rw [fat32WriteLoop]
      split
      · rename_i hgo
        have hr : s.remainder - chunk sb s.remainder s.offset ≠ 0 := hgo.1
        have hc := hclus ▸ hgo.2
        cases m with
        | zero => exact absurd hs.last hc
        | succ m =>
            obtain ⟨n, hn, ha, -⟩ := ih m (fat32WriteStep sb mem buf lba s) hd' (hclus ▸ hs.next)
            refine ⟨n + 1, by omega, ?_, iff_of_true (by omega) ⟨by omega, by omega, hc⟩⟩
            rw [ha, hstep, areasOf, List.append_assoc]
            rfl
      · rename_i hstop
        refine ⟨0, Nat.zero_le m, by rw [hstep]; simp [areasOf], iff_of_false (by omega) ?_⟩
        rintro ⟨-, h1, h2⟩
        exact hstop ⟨show s.remainder - chunk sb s.remainder s.offset ≠ 0 by omega, hclus ▸ h2⟩

/-! ## The directory -/

/-- A slot whose name `fat32_readdir` returns. -/
def slotUsed (e : Buffer) : Bool := !slotDeleted e && !slotLongName e

/-- Slot `i` of a buffer. -/
def slot (diskBuf : Buffer) (i : Nat) : Buffer := fun j => diskBuf (i * DIRECTORY_SIZE + j)

/-- No slot from slot `first` of cluster `clus` on, to the end of the chain, is used. -/
def NoneUsed (sb : SbInfo) (disk stale : Buffer) (clus first : Nat) : Prop :=
  ∀ j, (∀ j' ≤ j, (fat32TableRead sb disk)^[j'] clus ≠ 0) →
    ∀ i, (j = 0 → first ≤ i) → i < sb.bytePerClus / DIRECTORY_SIZE →
      slotUsed (slot (ideRead disk (clusToLba sb ((fat32TableRead sb disk)^[j] clus)) 1 stale) i)
        = false

/-- A short name has at most twelve letters. -/
theorem shortName_length_le (e nameBuf : Buffer) : (shortName e nameBuf).2 ≤ 12 := by
  have h8 : (((List.range 8).map e).takeWhile (· ≠ 32)).length ≤ 8 :=
    (List.takeWhile_prefix _).length_le.trans (by simp)
  have h3 : (((List.range 3).map (fun j => e (8 + j))).takeWhile (· ≠ 32)).length ≤ 3 :=
    (List.takeWhile_prefix _).length_le.trans (by simp)
  show (if _ then _ else _ : List UInt8).length ≤ 12
  split <;> split <;> first
    | omega
    | simp only [List.length_map, List.length_append, List.length_cons]; omega

theorem shortName_le (e nameBuf : Buffer) : (shortName e nameBuf).2 ≤ 1024 :=
  (shortName_length_le e nameBuf).trans (by decide)

theorem stringLen_le (nameBuf : Buffer) : stringLen nameBuf ≤ 1024 :=
  List.findIdx_le_length.trans (by rw [List.length_range])

/-- What the loop over `n` slots from slot `i` on says about them. -/
def SlotsScanned (n i : Nat) (s : DirLoop) : DirLoop ⊕ DirName → Prop
  | .inl s' => s'.diskBuf = s.diskBuf ∧ s'.position = s.position + n * DIRECTORY_SIZE ∧
      ∀ k, i ≤ k → k < i + n → slotUsed (slot s.diskBuf k) = false
  | .inr r => r.namelen ≤ 1024 ∧ ∃ k, i ≤ k ∧ k < i + n ∧ slotUsed (slot s.diskBuf k) = true

theorem SlotsScanned.skip {n i : Nat} {s s₁ : DirLoop} {r : DirLoop ⊕ DirName}
    (hr : SlotsScanned n (i + 1) s₁ r) (hd : s₁.diskBuf = s.diskBuf)
    (hp : s₁.position = s.position + DIRECTORY_SIZE)
    (hu : slotUsed (slot s.diskBuf i) = false) : SlotsScanned (n + 1) i s r := by
  cases r with
  | inl s' =>
      refine ⟨hr.1.trans hd, by rw [hr.2.1, hp]; ring, fun k h1 h2 => ?_⟩
      rcases Nat.eq_or_lt_of_le h1 with rfl | hlt
      · exact hu
      · exact hd ▸ hr.2.2 k hlt (by omega)
  | inr r =>
      obtain ⟨hn, k, hk1, hk2, hk3⟩ := hr
      exact ⟨hn, k, by omega, by omega, hd ▸ hk3⟩

theorem SlotsScanned.found {n i namelen position : Nat} {s : DirLoop} {name : Buffer}
    (hn : namelen ≤ 1024) (hu : slotUsed (slot s.diskBuf i) = true) :
    SlotsScanned (n + 1) i s (.inr ⟨name, namelen, position⟩) :=
  ⟨hn, i, le_rfl, by omega, hu⟩

/-- The slots of one cluster. -/
theorem readdirSlots_spec : ∀ (n i : Nat) (s : DirLoop),
    SlotsScanned n i s (readdirSlots n i s) := by
  intro n
  induction n with
  | zero => exact fun i s => ⟨rfl, by simp, fun k h1 h2 => absurd h2 (by omega)⟩
  | succ n ih =>
      intro i s
      by_cases hdel : slotDeleted (slot s.diskBuf i) = true
      · rw [show readdirSlots (n + 1) i s = _ from if_pos hdel]
        exact (ih (i + 1) _).skip rfl rfl (by simp [slotUsed, hdel])
      by_cases hlong : slotLongName (slot s.diskBuf i) = true
      · rw [show readdirSlots (n + 1) i s = _ from (if_neg hdel).trans (if_pos hlong)]
        exact (ih (i + 1) _).skip rfl rfl (by simp [slotUsed, hlong])
      -- the slot is used
      have hused : slotUsed (slot s.diskBuf i) = true := by
        simp only [slotUsed, Bool.and_eq_true, Bool.not_eq_true', Bool.eq_false_iff]
        exact ⟨hdel, hlong⟩
      rw [show readdirSlots (n + 1) i s = _ from (if_neg hdel).trans (if_neg hlong)]
      split
      · exact SlotsScanned.found (stringLen_le _) hused
      · refine SlotsScanned.found ?_ hused
        split
        · exact shortName_le _ _
        · exact stringLen_le _

section

variable {sb : SbInfo} {disk stale : Buffer}

theorem ideRead_ideRead {lba lba' : Nat} :
    ideRead disk lba 1 (ideRead disk lba' 1 stale) = ideRead disk lba 1 stale := overlay_overlay

/-- Once a cluster has been gone through, the next starts at its first slot. -/
theorem next_first (sb : SbInfo) (p : Nat) :
    (p + (sb.bytePerClus / DIRECTORY_SIZE - p % sb.bytePerClus / DIRECTORY_SIZE) * DIRECTORY_SIZE)
      % sb.bytePerClus / DIRECTORY_SIZE = 0 := by
  have hlt := sb.offset_lt p
  have hge := sb.bytePerClus_ge
  have hmul : sb.bytePerClus = sb.bytePerClus / 32 * 32 := by
    have h := sb.bytePerClus_eq_mul
    unfold BYTE_PER_VSEC at h
    omega
  have hdm := Nat.div_add_mod p sb.bytePerClus
  unfold DIRECTORY_SIZE
  generalize sb.bytePerClus = b at *
  have heq : p + (b / 32 - p % b / 32) * 32 = p % b % 32 + b * (p / b + 1) := by
    rw [Nat.mul_add, Nat.mul_one]
    omega
  rw [heq, Nat.add_mul_mod_self_left, Nat.mod_eq_of_lt (by omega)]
  omega

/-- The cluster at which the search starts is unused, and so is the rest of the chain. -/
theorem noneUsed_step {clus first lba : Nat}
    (hfirst : clus ≠ 0 → ∀ i, first ≤ i → i < sb.bytePerClus / DIRECTORY_SIZE →
      slotUsed (slot (ideRead disk (clusToLba sb clus) 1 stale) i) = false) :
    NoneUsed sb disk stale clus first ↔
      (clus ≠ 0 → NoneUsed sb disk (ideRead disk lba 1 stale) (fat32TableRead sb disk clus) 0) := by
  constructor
  · intro h hc j hj i _ hi
    rw [ideRead_ideRead, ← Function.iterate_succ_apply]
    refine h (j + 1) (fun j' hj' => ?_) i (fun h0 => absurd h0 (by omega)) hi
    cases j' with
    | zero => exact hc
    | succ j' =>
        rw [Function.iterate_succ_apply]
        exact hj j' (by omega)
  · intro h j hj i h0 hi
    have hc : clus ≠ 0 := hj 0 (by omega)
    cases j with
    | zero => exact hfirst hc i (h0 rfl) hi
    | succ j =>
        have := h hc j (fun j' hj' => ?_) i (fun _ => Nat.zero_le i) hi
        · rwa [ideRead_ideRead, ← Function.iterate_succ_apply] at this
        · rw [← Function.iterate_succ_apply]
          exact hj (j' + 1) (by omega)

/-- One round of the search: a used slot of the cluster is found, or there is none and the search
goes on at the next cluster. -/
theorem readdirLoop_succ (fuel : Nat) {clus : Nat} (s : DirLoop) (hc : clus ≠ 0) :
    (∃ r, readdirLoop sb disk (fuel + 1) clus s = some (some r) ∧ r.namelen ≤ 1024 ∧
      ∃ k, s.position % sb.bytePerClus / DIRECTORY_SIZE ≤ k ∧ k < sb.bytePerClus / DIRECTORY_SIZE ∧
        slotUsed (slot (ideRead disk (clusToLba sb clus) 1 s.diskBuf) k) = true) ∨
    ∃ s', readdirLoop sb disk (fuel + 1) clus s
        = readdirLoop sb disk fuel (fat32TableRead sb disk clus) s' ∧
      s'.diskBuf = ideRead disk (clusToLba sb clus) 1 s.diskBuf ∧
      s'.position % sb.bytePerClus / DIRECTORY_SIZE = 0 ∧
      ∀ k, s.position % sb.bytePerClus / DIRECTORY_SIZE ≤ k → k < sb.bytePerClus / DIRECTORY_SIZE →
        slotUsed (slot (ideRead disk (clusToLba sb clus) 1 s.diskBuf) k) = false := by
  have hscan := readdirSlots_spec
    (sb.bytePerClus / DIRECTORY_SIZE - s.position % sb.bytePerClus / DIRECTORY_SIZE)
    (s.position % sb.bytePerClus / DIRECTORY_SIZE)
    { s with diskBuf := ideRead disk (clusToLba sb clus) 1 s.diskBuf }
  rw [readdirLoop, if_neg hc]
  dsimp only
  split
  · rename_i r hr
    rw [hr] at hscan
    obtain ⟨hn, k, hk1, hk2, hk3⟩ := hscan
    exact Or.inl ⟨r, rfl, hn, k, hk1, by omega, hk3⟩
  · rename_i s' hs'
    rw [hs'] at hscan
    obtain ⟨hd, hp, hall⟩ := hscan
    exact Or.inr ⟨s', rfl, hd, by rw [hp, next_first], fun k h1 h2 => hall k h1 (by omega)⟩

theorem readdirLoop_namelen : ∀ (fuel clus : Nat) (s : DirLoop) (r : DirName),
    readdirLoop sb disk fuel clus s = some (some r) → r.namelen ≤ 1024 := by
  intro fuel
  induction fuel with
  | zero => exact fun clus s r h => by cases h
  | succ fuel ih =>
      intro clus s r hr
      by_cases hc : clus = 0
      · rw [readdirLoop, if_pos hc] at hr
        cases hr
      rcases readdirLoop_succ fuel s hc with ⟨r', he, hn, -⟩ | ⟨s', he, -⟩
      · rw [he] at hr
        cases hr
        exact hn
      · exact ih _ _ r (he.symm.trans hr)

/-- The search finds no name where no slot is used. -/
theorem readdirLoop_none : ∀ (fuel clus : Nat) (s : DirLoop),
    NoneUsed sb disk s.diskBuf clus (s.position % sb.bytePerClus / DIRECTORY_SIZE) →
    ∀ r, readdirLoop sb disk fuel clus s ≠ some (some r) := by
  intro fuel
  induction fuel with
  | zero => exact fun clus s _ r h => by cases h
  | succ fuel ih =>
      intro clus s hs r
      by_cases hc : clus = 0
      · rw [readdirLoop, if_pos hc]
        exact fun h => by cases h
      have hfirst := hs 0 (fun j' hj' => by rwa [Nat.le_zero.mp hj'])
      rcases readdirLoop_succ fuel s hc with ⟨r', he, -, k, hk1, hk2, hk3⟩ | ⟨s', he, hd, hp, hall⟩
      · exact absurd ((hfirst k (fun _ => hk1) hk2).symm.trans hk3) (by decide)
      · rw [he]
        apply ih
        rw [hp, hd]
        exact (noneUsed_step (fun _ => hall)).mp hs hc

/-- It finds one where a slot is used. -/
theorem readdirLoop_found {clus : Nat} {s : DirLoop} (hnot : ¬ NoneUsed sb disk s.diskBuf clus
    (s.position % sb.bytePerClus / DIRECTORY_SIZE)) :
    ∃ fuel r, readdirLoop sb disk fuel clus s = some (some r) := by
  unfold NoneUsed at hnot
  push Not at hnot
  obtain ⟨j, hj, i, h0, hi, hu⟩ := hnot
  refine ⟨j + 1, ?_⟩
  induction j generalizing clus s with
  | zero =>
      have hc : clus ≠ 0 := hj 0 le_rfl
      rcases readdirLoop_succ 0 s hc with ⟨r, he, -⟩ | ⟨s', -, -, -, hall⟩
      · exact ⟨r, he⟩
      · exact absurd (hall i (h0 rfl) hi) hu
  | succ j ih =>
      have hc : clus ≠ 0 := hj 0 (by omega)
      rcases readdirLoop_succ (j + 1) s hc with ⟨r, he, -⟩ | ⟨s', he, hd, hp, -⟩
      · exact ⟨r, he⟩
      · rw [he]
        refine ih (fun j' hj' => ?_) (fun _ => ?_) ?_
        · rw [← Function.iterate_succ_apply]
          exact hj (j' + 1) (by omega)
        · rw [hp]
          exact Nat.zero_le i
        · rw [hd, ideRead_ideRead, ← Function.iterate_succ_apply]
          exact hu

end

/-! ## The calls -/

/-- `fill_dentry` writes to user space, or is given a kernel address. -/
theorem fillDentry_userOnly {buf namelen : Nat} (hbuf : buf < 2 ^ 64) (hn : namelen ≤ 1024) :
    UserOnly (fillDentry buf namelen).1 ↔ buf < TASK_SIZE := by
  have hTS : TASK_SIZE = 0x00007fffffffffff := rfl
  unfold fillDentry
  by_cases hu : buf < TASK_SIZE
  · refine iff_of_true ?_ hu
    split
    · exact userOnly_nil
    · rename_i hv
      have hsum : add64 buf (DIRENT_SIZE + namelen) = buf + (DIRENT_SIZE + namelen) :=
        add64_eq (by unfold DIRENT_SIZE; omega)
      have hv : buf + (DIRENT_SIZE + namelen) ≤ TASK_SIZE := by
        by_contra hno
        exact hv ⟨hu, decide_eq_false (by rwa [hsum])⟩
      have h24 : add64 buf DIRENT_SIZE = buf + DIRENT_SIZE :=
        add64_eq (by unfold DIRENT_SIZE; omega)
      rw [h24]
      exact userOnly_append.mpr ⟨userOnly_of_le (by omega), userOnly_of_le (by omega)⟩
  · refine iff_of_false (fun h => ?_) hu
    rw [if_neg (fun h => hu h.1)] at h
    have h := (userOnly_append.mp (show UserOnly ([_] ++ [_]) from h)).2
    exact not_userOnly_of_ge (i := 0) (by decide) (by omega) (by omega) h

/-- The condition on a call, in the state before it. -/
def FileCall.InUserSpace (sb : SbInfo) (disk : Buffer) (inode : Inode) (position : Nat)
    (stale : Buffer) : FileCall → Prop
  | .read buf count => UserBuffer sb buf (position % sb.bytePerClus)
      (readRemainder inode count position) (fat32TableRead sb disk (startCluster sb inode position))
  | .write buf count => startCluster sb inode position = 0 ∨
      UserBuffer sb buf (position % sb.bytePerClus) count
        (fat32TableRead sb disk (startCluster sb inode position))
  | .getdents buf count => buf < TASK_SIZE ∨ 2 ^ 63 ≤ count ∨
      ∀ clus, skipClusters sb disk (position / sb.bytePerClus) inode.firstCluster = some clus →
        NoneUsed sb disk stale clus (position % sb.bytePerClus / DIRECTORY_SIZE)

theorem fat32Read_userOnly {sb : SbInfo} {disk mem : Buffer} {inode : Inode}
    {buf count position m : Nat} (hbuf : buf < 2 ^ 64) (hm : m ≤ 2 ^ 32)
    (hchain : ChainEnds sb disk (startCluster sb inode position) m) :
    UserOnly (fat32Read sb disk inode mem buf count position).2.areas ↔
      UserBuffer sb buf (position % sb.bytePerClus) (readRemainder inode count position)
        (fat32TableRead sb disk (startCluster sb inode position)) := by
  obtain ⟨n, hn, ha, hmore⟩ := @fat32ReadLoop_areas sb disk buf
    (readRemainder inode count position) m ⟨startCluster sb inode position, readRemainder inode count position, 0,
      position % sb.bytePerClus, mem, []⟩ hchain
  rw [show (fat32Read sb disk inode mem buf count position).2.areas = _ from ha, List.nil_append]
  have hcr := chunk_le_remainder sb (readRemainder inode count position)
    (position % sb.bytePerClus)
  refine areasOf_userOnly sb hbuf (sb.offset_lt position) (by omega) (hmore.trans ?_)
  dsimp only
  constructor
  · exact fun h => h.2
  · exact fun h => ⟨by omega, h⟩

/-- There is no cluster to be had. -/
theorem fat32FindNextAvaliableCluster_eq (sb : SbInfo) (disk : Buffer) :
    fat32FindNextAvaliableCluster sb disk = 0 := by
  unfold fat32FindNextAvaliableCluster
  rw [List.findSome?_eq_none_iff.mpr]
  · rfl
  · intro i _
    rw [List.findSome?_eq_none_iff]
    intro j _
    simp

theorem fat32Write_userOnly {sb : SbInfo} {disk mem : Buffer} {inode : Inode}
    {buf count position m : Nat} (hbuf : buf < 2 ^ 64) (hm : m ≤ 2 ^ 32)
    (hchain : ChainEnds sb disk (startCluster sb inode position) m) :
    UserOnly (fat32Write sb disk inode mem buf count position).2.areas ↔
      startCluster sb inode position = 0 ∨
      UserBuffer sb buf (position % sb.bytePerClus) count
        (fat32TableRead sb disk (startCluster sb inode position)) := by
  unfold fat32Write
  dsimp only
  by_cases hc : startCluster sb inode position = 0
  · rw [if_pos hc, if_pos (fat32FindNextAvaliableCluster_eq sb disk)]
    exact iff_of_true userOnly_nil (Or.inl hc)
  rw [if_neg hc, or_iff_right hc]
  have h1 := (hchain.entry 0 (Nat.zero_le m)).2
  have hl : sb.fstDataSector ≤ clusToLba sb (startCluster sb inode position) := by
    have hlt := hchain.entries.trans sb.entries_lt
    rw [clusToLba_eq (by rw [Function.iterate_zero_apply] at h1; omega) (by omega)]
    exact Nat.le_add_right _ _
  obtain ⟨n, hn, ha, hmore⟩ := @fat32WriteLoop_areas sb disk mem buf _ hl count m
    ⟨startCluster sb inode position, count, 0, position % sb.bytePerClus,
      ideRead disk (clusToLba sb (startCluster sb inode position)) sb.secPerClus newBuffer, disk, []⟩
    (fun _ _ => rfl) hchain
  have hareas : (fat32WriteAt sb disk inode mem buf count position
      (startCluster sb inode position)).2.areas = areasOf sb buf (n + 1) count 0
        (position % sb.bytePerClus) := by
    unfold fat32WriteAt
    dsimp only
    split <;> exact ha
  have hcr := chunk_le_remainder sb count (position % sb.bytePerClus)
  rw [hareas]
  refine areasOf_userOnly sb hbuf (sb.offset_lt position) (by omega) (hmore.trans ?_)
  dsimp only
  constructor
  · exact fun h => h.2
  · exact fun h => ⟨by omega, h⟩

/-- `sys_getdents`, however long the search goes on. -/
theorem getdents_userOnly {sb : SbInfo} {disk mem stale : Buffer} {inode : Inode}
    {buf count position : Nat} (hbuf : buf < 2 ^ 64) :
    (∀ fuel, UserOnly (FileCall.areas sb disk inode position mem stale fuel (.getdents buf count))) ↔
      FileCall.InUserSpace sb disk inode position stale (.getdents buf count) := by
  unfold FileCall.InUserSpace FileCall.areas
  dsimp only
  by_cases hc : 2 ^ 63 ≤ count
  · simp only [if_pos hc]
    exact iff_of_true (fun _ => userOnly_nil) (Or.inr (Or.inl hc))
  simp only [hc, if_false, false_or]
  unfold fat32Readdir
  cases hsk : skipClusters sb disk (position / sb.bytePerClus) inode.firstCluster with
  | none => exact iff_of_true (fun _ => userOnly_nil) (Or.inr (fun _ h => by cases h))
  | some clus =>
      constructor
      · intro h
        by_contra hno
        rw [not_or, not_forall] at hno
        obtain ⟨hu, clus', hno⟩ := hno
        rw [Classical.not_imp] at hno
        obtain ⟨he, hno⟩ := hno
        cases he
        -- a used slot is found, and its name goes to a kernel address
        obtain ⟨fuel, r, hr⟩ := readdirLoop_found (s := ⟨stale, newBuffer, position⟩) hno
        have hfill := h fuel
        dsimp only at hfill
        rw [hr] at hfill
        exact hu ((fillDentry_userOnly hbuf (readdirLoop_namelen _ _ _ _ hr)).mp hfill)
      · intro h fuel
        dsimp only
        split
        · rename_i r hr
          rcases h with hu | hnone
          · exact (fillDentry_userOnly hbuf (readdirLoop_namelen _ _ _ _ hr)).mpr hu
          · exact absurd hr (readdirLoop_none fuel clus _ (hnone clus rfl) r)
        · exact userOnly_nil

/-- **The user/kernel boundary**: exactly under `InUserSpace` a call touches no byte at `TASK_SIZE` or
above through the pointer it is given. -/
theorem fileCall_userOnly (sb : SbInfo) (disk mem stale : Buffer) (inode : Inode) (position m : Nat)
    (call : FileCall) (hbuf : call.buf < 2 ^ 64) (hm : m ≤ 2 ^ 32)
    (hchain : ChainEnds sb disk (startCluster sb inode position) m) :
    (∀ fuel, UserOnly (call.areas sb disk inode position mem stale fuel)) ↔
      call.InUserSpace sb disk inode position stale := by
  cases call with
  | read buf count =>
      exact (forall_const Nat).trans (fat32Read_userOnly hbuf hm hchain)
  | write buf count =>
      exact (forall_const Nat).trans (fat32Write_userOnly hbuf hm hchain)
  | getdents buf count => exact getdents_userOnly hbuf

/-- Sectors of 512 bytes, and data from sector 34 on. -/
theorem exampleSb_bytePerSec : 512 = BYTE_PER_VSEC := rfl
theorem exampleSb_data : 34 = 32 + 2 * 1 := rfl
theorem exampleSb_data_lt : 34 < 2 ^ 32 := by decide

/-- A volume with one sector in a cluster. -/
def exampleSb : SbInfo where
  bytePerSec := 512
  bytePerClus := 512
  secPerClus := 1
  secPerFat := 1
  fatNum := 2
  fat1StartSector := 32
  fstDataSector := 34
  bytePerSec_eq := exampleSb_bytePerSec
  bytePerClus_eq := rfl
  secPerClus_pos := Nat.one_pos
  secPerClus_lt := by decide
  fatNum_pos := Nat.two_pos
  fstDataSector_eq := exampleSb_data
  fstDataSector_lt := exampleSb_data_lt

/-- A disk on which every cluster is the last of its chain. -/
def exampleDisk : Buffer := fun a => if a < 34 * 512 then 0xff else 0

def exampleInode : Inode := ⟨100, 5, 2, 3, 0, 0⟩

theorem exampleDisk_chain : ChainEnds exampleSb exampleDisk
    (startCluster exampleSb exampleInode 0) 0 := by
  refine ⟨fun j hj => ?_, by decide +kernel⟩
  rw [Nat.le_zero.mp hj]
  decide

/-- `sys_read` into a user buffer. -/
theorem fileCall_userOnly_example :
    UserOnly ((FileCall.read 0x800000 10).areas exampleSb exampleDisk exampleInode 0
      newBuffer newBuffer 0) :=
  (fileCall_userOnly exampleSb exampleDisk newBuffer newBuffer exampleInode 0 0
    (.read 0x800000 10) (by decide) (by decide) exampleDisk_chain).mpr
    (Or.inr (Or.inl ⟨by decide, Or.inl (by decide)⟩)) 0

/-- `sys_read` to a kernel address writes there. -/
theorem fileCall_not_userOnly :
    ¬ ∀ (sb : SbInfo) (disk mem stale : Buffer) (inode : Inode) (position m : Nat)
      (call : FileCall), call.buf < 2 ^ 64 → m ≤ 2 ^ 32 →
      ChainEnds sb disk (startCluster sb inode position) m →
      ∀ fuel, UserOnly (call.areas sb disk inode position mem stale fuel) := by
  intro hall
  have h := hall exampleSb exampleDisk newBuffer newBuffer exampleInode 0 0
    (.read 0xffff800000000000 10) (by decide) (by decide) exampleDisk_chain 0
  have hareas : (FileCall.read 0xffff800000000000 10).areas exampleSb exampleDisk exampleInode 0
      newBuffer newBuffer 0 = [(0xffff800000000000, 10)] := by decide
  rw [hareas] at h
  exact not_userOnly_of_ge (i := 0) (by decide) (by decide) (by decide) h

end Talios
