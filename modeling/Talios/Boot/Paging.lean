import Talios.Boot.Loader
import Talios.Mm.DirectTablesRun

set_option autoImplicit false

/-! # The first page tables

The loader writes page tables for the first 12 MiB at `0x90000` and turns paging on. The first thing that the
kernel does is to put its own tables into `CR3`: they stand in its file, at the offset of `__PML4E` in
`head.S`. `kernel_mapped` follows the bytes of that file from the disk to the addresses that the kernel is
linked at: the tables of the loader and those of the kernel take every address of the first 12 MiB, and its
alias at `PAGE_OFFSET`, to the same place, so that the change of the tables does not move the code.
-/

namespace Talios.Boot

open Bytes Word Bitmap

/-! ## The loader, behind the kernel -/

/-- The size of what `int 15h` stores for one entry. -/
def MEM_STRUCT_SIZE : Nat := 20

def MemStructBufferAddr : Nat := 0x7E00

/-- `Get_MemStruct`: the BIOS stores its entries one behind the other. -/
def getMemStruct : List Buffer → Nat → Buffer → Buffer
  | [], _, mem => mem
  | e :: es, edi, mem => getMemStruct es (edi + MEM_STRUCT_SIZE) (overlay mem edi MEM_STRUCT_SIZE e)

/-- The stores of `Has_Long_Mode`, which go to the low halves of the entries. -/
def loaderTables : List (Nat × Nat) :=
  [(0x90000, 0x91007), (0x90800, 0x91007), (0x91000, 0x92007), (0x92000, 0x000083), (0x92008, 0x200083),
    (0x92010, 0x400083), (0x92018, 0x600083), (0x92020, 0x800083), (0x92028, 0xa00083)]

/-- `Has_Long_Mode`, up to the load of `GDTR`. -/
def hasLongMode (mem : Buffer) : Buffer := loaderTables.foldl (fun mem s => putLE mem s.1 4 s.2) mem

/-- The memory as the words that the processor reads tables from. -/
def physWord (mem : Buffer) : Memory := fun a => BitVec.ofNat 64 (getLE mem (8 * a - PAGE_OFFSET) 8)

/-! ## The way of the processor -/

section

variable {w : Memory} {k4 k3 k2 v p : Nat}

theorem physWord_pageWord (mem : Buffer) (k i : Nat) :
    physWord mem (pageWord k + i) = BitVec.ofNat 64 (getLE mem (k * 4096 + 8 * i) 8) := by
  have haddr : 8 * (pageWord k + i) - PAGE_OFFSET = k * 4096 + 8 * i := by
    unfold pageWord PAGE_OFFSET
    omega
  rw [physWord, haddr]

/-- An entry for the table in page `k`. -/
theorem tableEntry_spec {k : Nat} (hk : k < 2 ^ 35) {e : BitVec 64} (he : e = BitVec.ofNat 64 (k * 4096) ||| 7) :
    entryHas e PEA_PRESENT = true ∧ entryHas e PEA_PAGE_SIZE = false ∧ tableFromEntry e = 8 * pageWord k := by
  have hdvd : PAGE_4K_SIZE ∣ k * 4096 := Nat.dvd_mul_left 4096 k
  subst he
  refine ⟨?_, ?_, ?_⟩
  · rw [entryHas_or hdvd 7 (by unfold IsFlags; decide)]
    decide
  · rw [entryHas_or hdvd 7 (by unfold IsFlags; decide)]
    decide
  · rw [tableFromEntry, entryAddr_or hdvd (by omega) (by unfold IsFlags; decide)]
    unfold phyToVirt pageWord PAGE_OFFSET
    omega

/-- An entry for block `p` of 2 MiB. -/
theorem blockEntry_spec {p : Nat} (hp : p < 2 ^ 30) {f e : BitVec 64} (hf : f = 0x83 ∨ f = 0x87)
    (he : e = BitVec.ofNat 64 (p * 2 ^ 21) ||| f) :
    entryHas e PEA_PRESENT = true ∧ entryHas e PEA_PAGE_SIZE = true ∧ entryAddr e = p * 2 ^ 21 := by
  have hdvd : PAGE_4K_SIZE ∣ p * 2 ^ 21 := Dvd.dvd.mul_left (by decide) p
  subst he
  refine ⟨?_, ?_, ?_⟩
  · rw [entryHas_or hdvd f (by unfold IsFlags; decide)]
    rcases hf with rfl | rfl <;> decide
  · rw [entryHas_or hdvd f (by unfold IsFlags; decide)]
    rcases hf with rfl | rfl <;> decide
  · refine entryAddr_or hdvd (by omega) ?_
    rcases hf with rfl | rfl <;> (unfold IsFlags; decide)

/-- Through two tables to a page of 2 MiB. -/
theorem physAddr_big (hk3 : k3 < 2 ^ 35) (hk2 : k2 < 2 ^ 35) (hp : p < 2 ^ 30) {f : BitVec 64}
    (hf : f = 0x83 ∨ f = 0x87)
    (h4 : w (pageWord k4 + v / 2 ^ 39 % 512) = BitVec.ofNat 64 (k3 * 4096) ||| 7)
    (h3 : w (pageWord k3 + v / 2 ^ 30 % 512) = BitVec.ofNat 64 (k2 * 4096) ||| 7)
    (h2 : w (pageWord k2 + v / 2 ^ 21 % 512) = BitVec.ofNat 64 (p * 2 ^ 21) ||| f) :
    physAddr w (k4 * 4096) v = some (p * 2 ^ 21 + v % 2 ^ 21) := by
  have hroot : phyToVirt (alignDown PAGE_4K_SIZE (k4 * 4096)) = 8 * pageWord k4 := by
    unfold phyToVirt alignDown PAGE_4K_SIZE PAGE_4K_SHIFT pageWord PAGE_OFFSET
    omega
  have hslot : ∀ k shift : Nat, (8 * pageWord k + getBits v shift 9 * 8) / 8 = pageWord k + v / 2 ^ shift % 512 := by
    intro k shift
    unfold getBits
    omega
  obtain ⟨p4, s4, t4⟩ := tableEntry_spec hk3 h4
  obtain ⟨p3, s3, t3⟩ := tableEntry_spec hk2 h3
  obtain ⟨p2, s2, a2⟩ := blockEntry_spec hp hf h2
  have hwalk : frameFrom w v [PAGE_GDT_SHIFT, PAGE_1G_SHIFT, PAGE_2M_SHIFT] (8 * pageWord k4)
      = some (page4KIndex (alignDown (2 ^ 21) (p * 2 ^ 21) + v % 2 ^ 21)) := by
    simp only [frameFrom, PAGE_GDT_SHIFT, PAGE_1G_SHIFT, PAGE_2M_SHIFT, hslot, p4, s4, t4, p3, s3, t3, p2, s2, a2,
      if_true, Bool.false_eq_true, if_false]
  rw [physAddr_eq, hroot, hwalk, Option.map_some]
  refine congrArg some ?_
  unfold page4KIndex alignDown PAGE_4K_SIZE PAGE_4K_SHIFT
  omega

end

/-! ## The tables of the loader -/

theorem getLE_add (f : Buffer) : ∀ m i n : Nat, getLE f i (m + n) = getLE f i m + 256 ^ m * getLE f (i + m) n
  | 0, i, n => by simp [getLE]
  | m + 1, i, n => by
      have hplace : i + 1 + m = i + (m + 1) := by omega
      rw [Nat.add_right_comm, getLE, getLE_add f m (i + 1) n, getLE, hplace]
      ring

theorem getLE_zero {f : Buffer} : ∀ {n i : Nat}, (∀ j < n, f (i + j) = 0) → getLE f i n = 0
  | 0, _, _ => rfl
  | n + 1, i, h => by
      have hrest : getLE f (i + 1) n = 0 := getLE_zero (fun j hj => by
        rw [Nat.add_assoc, Nat.add_comm 1 j]
        exact h (j + 1) (by omega))
      have hfirst : f i = 0 := h 0 (by omega)
      rw [getLE, hrest, hfirst]
      rfl

section

variable {l : List (Nat × Nat)} {mem : Buffer}

/-- Bytes between the stores. -/
theorem getLE_stores_of_apart {a n : Nat} (h : ∀ s ∈ l, a + n ≤ s.1 ∨ s.1 + 4 ≤ a) :
    getLE (l.foldl (fun mem s => putLE mem s.1 4 s.2) mem) a n = getLE mem a n := by
  induction l generalizing mem with
  | nil => rfl
  | cons s l ih =>
      rw [List.foldl_cons, ih (fun s' hs => h s' (List.mem_cons_of_mem s hs))]
      exact getLE_putLE_ne (h s List.mem_cons_self)

/-- Stores to different multiples of 8. -/
theorem getLE_stores (hdvd : ∀ s ∈ l, s.1 % 8 = 0) (hnodup : (l.map Prod.fst).Nodup) {a v : Nat}
    (hmem : (a, v) ∈ l) (hv : v < 2 ^ 32) : getLE (l.foldl (fun mem s => putLE mem s.1 4 s.2) mem) a 4 = v := by
  induction l generalizing mem with
  | nil => simp at hmem
  | cons s l ih =>
      rw [List.map_cons, List.nodup_cons] at hnodup
      have hrest : ∀ s' ∈ l, s'.1 % 8 = 0 := fun s' hs => hdvd s' (List.mem_cons_of_mem s hs)
      rw [List.foldl_cons]
      rcases List.mem_cons.mp hmem with rfl | hmem
      · have ha : a % 8 = 0 := hdvd (a, v) List.mem_cons_self
        rw [getLE_stores_of_apart (fun s' hs => ?_), getLE_putLE]
        · omega
        · have hne : s'.1 ≠ a := fun h => hnodup.1 (List.mem_map.mpr ⟨s', hs, h⟩)
          have := hrest s' hs
          omega
      · exact ih hrest hnodup.2 hmem

end

/-- The entries that the loader has stored, where their high halves were zero. -/
theorem hasLongMode_word {mem : Buffer} (hzero : ∀ a, 0x90000 ≤ a → a < 0x93000 → mem a = 0) {k i v : Nat}
    (hmem : (k * 4096 + 8 * i, v) ∈ loaderTables) :
    physWord (hasLongMode mem) (pageWord k + i) = BitVec.ofNat 64 v := by
  have hall : ∀ s ∈ loaderTables, s.1 % 8 = 0 ∧ s.2 < 2 ^ 32 ∧ 0x90000 ≤ s.1 ∧ s.1 + 8 ≤ 0x93000 := by decide
  have hnodup : (loaderTables.map Prod.fst).Nodup := by decide
  rw [physWord_pageWord]
  obtain ⟨a, ha⟩ : ∃ a, a = k * 4096 + 8 * i := ⟨_, rfl⟩
  rw [← ha] at hmem ⊢
  have hat : a % 8 = 0 ∧ v < 2 ^ 32 ∧ 0x90000 ≤ a ∧ a + 8 ≤ 0x93000 := hall (a, v) hmem
  obtain ⟨h8, hv, hlow, hhigh⟩ := hat
  have hsplit := getLE_add (hasLongMode mem) 4 a 4
  have h4 : getLE (hasLongMode mem) a 4 = v := getLE_stores (fun s hs => (hall s hs).1) hnodup hmem hv
  have h0 : getLE (hasLongMode mem) (a + 4) 4 = 0 := by
    unfold hasLongMode
    rw [getLE_stores_of_apart (fun s hs => by have := (hall s hs).1; omega)]
    exact getLE_zero (fun j hj => hzero _ (by omega) (by omega))
  rw [hsplit, h4, h0, Nat.mul_zero, Nat.add_zero]

/-- The parts of an address of the first GiB, and of its alias. -/
theorem alias_parts {v p : Nat} (hv : v = p ∨ v = PAGE_OFFSET + p) (hp : p < 2 ^ 30) :
    (v / 2 ^ 39 % 512 = 0 ∨ v / 2 ^ 39 % 512 = 256) ∧ v / 2 ^ 30 % 512 = 0 ∧ v / 2 ^ 21 % 512 = p / 2 ^ 21 ∧
      v % 2 ^ 21 = p % 2 ^ 21 := by
  have hoff : PAGE_OFFSET = 0xffff800000000000 := rfl
  rcases hv with rfl | rfl
  · omega
  · omega

/-- **The tables of the loader** take an address of the first 12 MiB, and its alias, to itself. -/
theorem hasLongMode_physAddr {mem : Buffer} (hzero : ∀ a, 0x90000 ≤ a → a < 0x93000 → mem a = 0) {v p : Nat}
    (hv : v = p ∨ v = PAGE_OFFSET + p) (hp : p < 6 * 2 ^ 21) :
    physAddr (physWord (hasLongMode mem)) 0x90000 v = some p := by
  obtain ⟨h39, h30, h21, hoff⟩ := alias_parts hv (by omega)
  have hblock : ∀ j < 6, (0x92 * 4096 + 8 * j, j * 2 ^ 21 + 0x83) ∈ loaderTables := by decide
  have hor : ∀ j < 6, BitVec.ofNat 64 (j * 2 ^ 21 + 0x83) = BitVec.ofNat 64 (j * 2 ^ 21) ||| 0x83 := by decide
  have hwalk := @physAddr_big (physWord (hasLongMode mem)) 0x90 0x91 0x92 v (p / 2 ^ 21) (by decide) (by decide)
    (by omega) 0x83 (Or.inl rfl) ?_ ?_ ?_
  · rw [hoff, Nat.div_add_mod'] at hwalk
    exact hwalk
  · rcases h39 with h39 | h39
    · rw [h39, hasLongMode_word hzero (v := 0x91007) (by decide)]
      decide
    · rw [h39, hasLongMode_word hzero (v := 0x91007) (by decide)]
      decide
  · rw [h30, hasLongMode_word hzero (v := 0x92007) (by decide)]
    decide
  · have hj : p / 2 ^ 21 < 6 := by omega
    rw [h21, hasLongMode_word hzero (hblock _ hj), hor _ hj]

/-! ## The tables of the kernel -/

/-- The tables of `head.S` are where the kernel is. -/
def HeadTables (w : Memory) : Prop :=
  ∀ k, 0x101 ≤ k → k ≤ 0x105 → ∀ i < 512, w (pageWord k + i) = headTable k i

section

variable {w : Memory} {v p : Nat}

/-- **The tables of the kernel** take an address of the first GiB, and its alias, to itself. -/
theorem HeadTables.physAddr (hw : HeadTables w) (hv : v = p ∨ v = PAGE_OFFSET + p) (hp : p < 2 ^ 30) :
    physAddr w 0x101000 v = some p := by
  obtain ⟨h39, h30, h21, hoff⟩ := alias_parts hv hp
  have hwalk := @physAddr_big w 0x101 0x102 0x103 v (p / 2 ^ 21) (by decide) (by decide) (by omega) 0x87
    (Or.inr rfl) ?_ ?_ ?_
  · rw [hoff, Nat.div_add_mod'] at hwalk
    exact hwalk
  · rw [hw 0x101 (by decide) (by decide) _ (by omega)]
    rcases h39 with h39 | h39 <;> (rw [h39]; decide)
  · rw [h30, hw 0x102 (by decide) (by decide) 0 (by decide)]
    decide
  · rw [h21, hw 0x103 (by decide) (by decide) _ (by omega)]
    rfl

/-- The frame buffer, in the second slot of the upper half. -/
theorem HeadTables.frameBuffer (hw : HeadTables w) {x : Nat} (hx : x < 7 * 2 ^ 21) :
    Talios.physAddr w 0x101000 (0xffff808000000000 + x) = some (0xe0000000 + x) := by
  have hwalk := @physAddr_big w 0x101 0x104 0x105 (0xffff808000000000 + x) (0x700 + x / 2 ^ 21) (by decide)
    (by decide) (by omega) 0x87 (Or.inr rfl) ?_ ?_ ?_
  · rw [hwalk]
    refine congrArg some ?_
    omega
  · have h39 : (0xffff808000000000 + x) / 2 ^ 39 % 512 = 257 := by omega
    rw [h39, hw 0x101 (by decide) (by decide) _ (by decide)]
    decide
  · have h30 : (0xffff808000000000 + x) / 2 ^ 30 % 512 = 0 := by omega
    rw [h30, hw 0x104 (by decide) (by decide) _ (by decide)]
    decide
  · have h21 : (0xffff808000000000 + x) / 2 ^ 21 % 512 = x / 2 ^ 21 := by omega
    have hsum : (0x700 + x / 2 ^ 21) * 2 ^ 21 = 0xe0000000 + x / 2 ^ 21 * PAGE_2M_SIZE := by
      rw [show PAGE_2M_SIZE = 2 ^ 21 from by decide]
      omega
    rw [h21, hw 0x105 (by decide) (by decide) _ (by omega), hsum]
    exact if_pos (by omega)

end

/-! ## From the disk to the addresses of the kernel -/

theorem getMemStruct_other : ∀ (es : List Buffer) (edi : Nat) (mem : Buffer) {a : Nat},
    ¬ (edi ≤ a ∧ a < edi + MEM_STRUCT_SIZE * es.length) → getMemStruct es edi mem a = mem a
  | [], _, _, _, _ => rfl
  | e :: es, edi, mem, a, h => by
      unfold MEM_STRUCT_SIZE at h
      rw [List.length_cons] at h
      rw [getMemStruct, getMemStruct_other es _ _ (by unfold MEM_STRUCT_SIZE; omega),
        overlay_of_not_mem (by unfold MEM_STRUCT_SIZE; omega)]

theorem hasLongMode_other {mem : Buffer} {a : Nat} (h : ¬ (0x90000 ≤ a ∧ a < 0x93000)) :
    hasLongMode mem a = mem a := by
  have hall : ∀ s ∈ loaderTables, 0x90000 ≤ s.1 ∧ s.1 + 4 ≤ 0x93000 := by decide
  have hfold : ∀ l : List (Nat × Nat), (∀ s ∈ l, 0x90000 ≤ s.1 ∧ s.1 + 4 ≤ 0x93000) → ∀ mem : Buffer,
      l.foldl (fun mem s => putLE mem s.1 4 s.2) mem a = mem a := by
    intro l
    induction l with
    | nil => exact fun _ _ => rfl
    | cons s l ih =>
        intro hl mem
        have hs := hl s List.mem_cons_self
        rw [List.foldl_cons, ih (fun s' hs' => hl s' (List.mem_cons_of_mem s hs')), putLE_of_not_mem (by omega)]
  exact hfold loaderTables hall mem

/-- The loader behind `Function_Load_Kernel_File`. -/
def enterKernel (es : List Buffer) (mem : Buffer) : Buffer := hasLongMode (getMemStruct es MemStructBufferAddr mem)

/-- A file of the kernel has its tables where `head.S` puts them. -/
def HasHeadTables (file : Buffer) : Prop :=
  ∀ k, 0x101 ≤ k → k ≤ 0x105 → ∀ i < 512, getLE file ((k - 0x100) * 4096 + 8 * i) 8 = (headTable k i).toNat

section

variable {disk mem : Buffer} {e e' : Nat} {cs ks : List Nat}

/-- **The kernel where it is linked.** On a disk in drive 0 with both files, whose kernel has its tables, on a machine
whose memory from `0x90000` on is clear, the boot sector and the loader come to the kernel. With the tables of
the loader the first 12 MiB are at their own addresses and at `PAGE_OFFSET`; the tables of the kernel have
them at the same places, as they have all of the first GiB, and the frame buffer; and what is there from
1 MiB on is the file of the kernel. -/
theorem kernel_mapped (he : e < BPB_RootEntCnt - 1) (hloader : HasFile disk Ld_File_Name e cs)
    (hlen : cs.length ≤ 64) (he' : e' < 32) (hkernel : HasFile disk kernelFileName.dropLast e' ks)
    (htables : HasHeadTables (clusterByte disk ks)) (hsize : 0x6000 ≤ 512 * ks.length)
    (hzero : ∀ a, 0x90000 ≤ a → a < 0x93000 → mem a = 0) {es : List Buffer} (hes : es.length ≤ 1600) :
    ∃ fuel mem1 mem2, boot fuel disk 0 mem = some mem1 ∧ loadKernel fuel disk mem1 = some mem2 ∧
      (∀ p < 6 * 2 ^ 21, ∀ v, v = p ∨ v = PAGE_OFFSET + p →
        physAddr (physWord (enterKernel es mem2)) 0x90000 v = some p ∧
        physAddr (physWord (enterKernel es mem2)) 0x101000 v = some p) ∧
      (∀ p < 2 ^ 30, DirectAt (physWord (enterKernel es mem2)) 0x101000 p) ∧
      (∀ x < 7 * 2 ^ 21,
        physAddr (physWord (enterKernel es mem2)) 0x101000 (0xffff808000000000 + x) = some (0xe0000000 + x)) ∧
      ∀ i < 512 * ks.length, enterKernel es mem2 (OffsetOfKernelFile + i) = clusterByte disk ks i := by
  obtain ⟨mem1, h1, -, habove⟩ := boot_loaded mem 0 he hloader hlen (Nat.le_max_left _ ks.length)
  obtain ⟨mem2, h2, hload⟩ := loadKernel_loaded mem1 he' hkernel (Nat.le_max_right cs.length _)
  have hmem : ∀ a, 0x20000 ≤ a → getMemStruct es MemStructBufferAddr mem2 a = mem2 a := by
    intro a ha
    exact getMemStruct_other es _ mem2 (by unfold MEM_STRUCT_SIZE MemStructBufferAddr; omega)
  have hclear : ∀ a, 0x90000 ≤ a → a < 0x93000 → getMemStruct es MemStructBufferAddr mem2 a = 0 := by
    intro a ha1 ha2
    rw [hmem a (by omega), hload.other a (by unfold loaderOdd; omega) (by omega)
        (by unfold OffsetOfKernelFile; omega),
      overlay_of_not_mem (by unfold loaderSegment RootDirSectors BPB_BytesPerSec; omega), habove a (by omega)]
    exact hzero a ha1 ha2
  have hfile : ∀ i < 512 * ks.length, enterKernel es mem2 (OffsetOfKernelFile + i) = clusterByte disk ks i := by
    intro i hi
    unfold enterKernel
    rw [hasLongMode_other (by unfold OffsetOfKernelFile; omega), hmem _ (by unfold OffsetOfKernelFile; omega)]
    exact hload.file i hi
  have hhead : HeadTables (physWord (enterKernel es mem2)) := by
    intro k hk1 hk2 i hi
    have hget : getLE (enterKernel es mem2) (k * 4096 + 8 * i) 8
        = getLE (clusterByte disk ks) ((k - 0x100) * 4096 + 8 * i) 8 := by
      apply getLE_congr
      intro j hj
      have hplace : k * 4096 + 8 * i + j = OffsetOfKernelFile + ((k - 0x100) * 4096 + 8 * i + j) := by
        unfold OffsetOfKernelFile
        omega
      rw [hplace]
      exact hfile _ (by omega)
    rw [physWord_pageWord, hget, htables k hk1 hk2 i hi, BitVec.ofNat_toNat, BitVec.setWidth_eq]
  refine ⟨_, mem1, mem2, h1, h2, fun p hp v hv => ⟨?_, ?_⟩, fun p hp => ?_, fun x hx => ?_, hfile⟩
  · exact hasLongMode_physAddr hclear hv hp
  · exact hhead.physAddr hv (by omega)
  · exact hhead.physAddr (Or.inr rfl) hp
  · exact hhead.frameBuffer hx

end

/-! ## A kernel that is its tables -/

def tablesFile : Buffer := fun a =>
  UInt8.ofNat ((headTable (0x100 + a / 4096) (a % 4096 / 8)).toNat / 256 ^ (a % 8))

theorem tablesFile_hasHeadTables {file : Buffer} (h : ∀ a < 0x6000, file a = tablesFile a) : HasHeadTables file := by
  intro k hk1 hk2 i hi
  have hget := @getLE_of_digits file 8 ((k - 0x100) * 4096 + 8 * i) (headTable k i).toNat ?_
  · rw [hget]
    exact Nat.mod_eq_of_lt (headTable k i).isLt
  · intro j hj
    have hpage : 0x100 + ((k - 0x100) * 4096 + 8 * i + j) / 4096 = k := by omega
    have hentry : ((k - 0x100) * 4096 + 8 * i + j) % 4096 / 8 = i := by omega
    have hbyte : ((k - 0x100) * 4096 + 8 * i + j) % 8 = j := by omega
    rw [h _ (by omega), tablesFile, hpage, hentry, hbyte]

/-- A table of the disk with a file of 48 clusters, from the fourth on. -/
def tablesFat : List Nat := [0xff0, 0xfff, 0xfff] ++ List.range' 4 47 ++ [0xfff]

/-- A disk with a loader of one sector and this kernel. -/
def tablesDisk : Buffer := fun a =>
  if a < 9728 then (pack12 tablesFat).getD (a - 512) 0
  else if a < 17408 then bootDisk a
  else tablesFile (a - 17408)

theorem tablesDisk_fatEntry {c v : Nat} (h : tablesFat[c]? = some v) : fatEntry tablesDisk c = v := by
  refine @entry12_pack12 _ tablesFat (by decide) (fun j hj => ?_) _ _ h
  have hlen : (pack12 tablesFat).length = 77 := by decide
  have hplace : sectorBytes tablesDisk FirstFATSecNum j = tablesDisk (512 + j) := rfl
  rw [hplace, tablesDisk, if_pos (by omega), Nat.add_sub_cancel_left]

theorem tablesDisk_chain : ∀ n c : Nat, 3 ≤ c → c + n = 50 →
    Follow.Chain (fatEntry tablesDisk) 0x0fff c (List.range' c (n + 1))
  | 0, c, _, hn => by
      have hc : c = 50 := hn
      subst hc
      exact .last (tablesDisk_fatEntry (by decide))
  | n + 1, c, hc, hn => by
      have hget : tablesFat[c]? = some (c + 1) := by
        have hall : ∀ c < 50, 3 ≤ c → tablesFat[c]? = some (c + 1) := by decide
        exact hall c (by omega) hc
      have hnext := tablesDisk_fatEntry hget
      rw [List.range'_succ]
      refine .step ?_ ?_
      · rw [hnext]
        omega
      · rw [hnext]
        exact tablesDisk_chain n (c + 1) (by omega) (by omega)

theorem tablesDisk_loader : HasFile tablesDisk Ld_File_Name 0 [2] where
  named := by decide
  first := fun i hi => absurd hi (Nat.not_lt_zero i)
  chain := .last (tablesDisk_fatEntry (by decide))
  onDisk := by decide

theorem tablesDisk_kernel : HasFile tablesDisk kernelFileName.dropLast 1 (List.range' 3 48) where
  named := by decide
  first := by decide
  chain := tablesDisk_chain 47 3 (by decide) (by decide)
  onDisk := by decide

theorem tablesDisk_file : ∀ a < 0x6000, clusterByte tablesDisk (List.range' 3 48) a = tablesFile a := by
  intro a ha
  have hlen : a / 512 < 48 := by omega
  have hcluster : (List.range' 3 48).getD (a / 512) 0 = 3 + a / 512 := by
    rw [List.getD_eq_getElem _ _ (by rw [List.length_range']; exact hlen), List.getElem_range', Nat.one_mul]
  have hplace : (3 + a / 512 + 31) * BPB_BytesPerSec + a % 512 = 17408 + a := by
    unfold BPB_BytesPerSec
    omega
  rw [clusterByte, hcluster, sectorBytes, hplace, tablesDisk, if_neg (by omega), if_neg (by omega),
    Nat.add_sub_cancel_left]

theorem kernel_mapped_tablesDisk : ∃ fuel mem1 mem2, boot fuel tablesDisk 0 (fun _ => 0) = some mem1 ∧
    loadKernel fuel tablesDisk mem1 = some mem2 ∧
    DirectAt (physWord (enterKernel [fun _ => 1] mem2)) 0x101000 OffsetOfKernelFile := by
  obtain ⟨fuel, mem1, mem2, h1, h2, -, hdirect, -⟩ := @kernel_mapped tablesDisk (fun _ => 0) 0 1 [2]
    (List.range' 3 48) (by decide) tablesDisk_loader (by decide) (by decide) tablesDisk_kernel
    (tablesFile_hasHeadTables tablesDisk_file) (by decide) (fun _ _ _ => rfl) [fun _ => 1] (by decide)
  exact ⟨fuel, mem1, mem2, h1, h2, hdirect OffsetOfKernelFile (by decide)⟩

end Talios.Boot
