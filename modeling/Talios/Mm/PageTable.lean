import Talios.Lib.Radix
import Talios.Mm.Vma

set_option autoImplicit false

/-! # Page tables

`walk_pte`, `MapPage4K` and `UnmapPage4K` of `memory.c` on the four levels of tables of an
address space. The tables lie in the memory the kernel heap is in and are pages of `kmalloc`; an
entry is a word of it. `translate` is what the processor makes of the tables.

A function answers `none` where `kmalloc`, `kfree` or the page allocator does.
-/

namespace Talios

open Word Bitmap

def PAGE_GDT_SHIFT : Nat := 39
def PAGE_1G_SHIFT : Nat := 30

def PEA_PRESENT : BitVec 64 := 1
def PEA_READ_WRITE : BitVec 64 := 2
def PEA_IS_USER : BitVec 64 := 4
def PEA_PAGE_SIZE : BitVec 64 := 0x80
def PEA_USER_TABLE : BitVec 64 := PEA_PRESENT ||| PEA_READ_WRITE ||| PEA_IS_USER
def PEA_USER_PAGE : BitVec 64 := PEA_USER_TABLE

def PAGE_4K_MASK : BitVec 64 := ~~~ 0xfff

/-- `GetBits`. -/
def getBits (num pos count : Nat) : Nat := num / 2 ^ pos % 2 ^ count

/-! ## Memory accesses -/

/-- The word at address `a` is written. -/
def KMem.write (s : KMem) (a : Nat) (v : BitVec 64) : KMem :=
  { s with word := Function.update s.word (a / 8) v }

/-- `memset(a, 0, n)`, for whole words. -/
def KMem.clear (s : KMem) (a n : Nat) : KMem := { s with word := fill s.word (a / 8) (n / 8) 0 }

/-! ## Walking the tables -/

/-- The physical address in an entry. -/
def entryAddr (entry : BitVec 64) : Nat := (entry &&& PAGE_4K_MASK).toNat

/-- `table_from_entry`. -/
def tableFromEntry (entry : BitVec 64) : Nat := phyToVirt (entryAddr entry)

/-- A new table for the entry at `entry`, if it is zero and `create` asks for one; the result
says whether the walk goes on. -/
def makeTable (s : KMem) (entry : Nat) (create : Bool) : Option (KMem × Bool) :=
  if s.word (entry / 8) = 0 ∧ create = true then
    match kmalloc s PAGE_4K_SIZE with
    | none => none
    -- no page for the table; those made for the levels above stay
    | some (s₁, none) => some (s₁, false)
    | some (s₁, some page) =>
        some ((s₁.clear page PAGE_4K_SIZE).write entry
          (BitVec.ofNat 64 (virtToPhy page) ||| PEA_USER_TABLE), true)
  else some (s, true)

/-- One level of `walk_pte`: the table the entry at `entry` names. -/
def walkLevel (s : KMem) (entry : Nat) (create : Bool) : Option (KMem × Option Nat) :=
  match makeTable s entry create with
  | none => none
  | some (s₁, false) => some (s₁, none)
  | some (s₁, true) =>
      let e := s₁.word (entry / 8)
      -- an entry of a large page ends the walk
      if e = 0 ∨ e &&& PEA_PAGE_SIZE ≠ 0 then some (s₁, none)
      else some (s₁, some (tableFromEntry e))

/-- The levels of `walk_pte` from `table` on; the source repeats one level for each of the
shifts. -/
def walkTables (vaddr : Nat) (create : Bool) :
    List Nat → KMem → Nat → Option (KMem × Option Nat)
  | [], s, table => some (s, some table)
  | shift :: shifts, s, table =>
      match walkLevel s (table + getBits vaddr shift 9 * 8) create with
      | some (s₁, some table₁) => walkTables vaddr create shifts s₁ table₁
      | some (s₁, none) => some (s₁, none)
      | none => none

/-- `walk_pte`: the address of the entry for `vaddr`, or null. -/
def walkPte (s : KMem) (pgd vaddr : Nat) (create : Bool) : Option (KMem × Option Nat) :=
  let pml4 := phyToVirt (alignDown PAGE_4K_SIZE pgd)
  (walkTables vaddr create [PAGE_GDT_SHIFT, PAGE_1G_SHIFT, PAGE_2M_SHIFT] s pml4).map
    (fun r => (r.1, r.2.map (· + getBits vaddr PAGE_4K_SHIFT 9 * 8)))

/-- `MapPage4K`; `page` is a page frame number or null. -/
def mapPage4K (s : KMem) (pgd vaddr : Nat) (page : Option Nat) (flags : BitVec 64) :
    Option (KMem × Int) :=
  match page with
  | none => some (s, -(EINVAL : Int))
  | some page =>
      let phyAddr := (s.mms.page page).phyAddr
      if vaddr % PAGE_4K_SIZE ≠ 0 ∨ phyAddr % PAGE_4K_SIZE ≠ 0 then some (s, -(EINVAL : Int))
      else
        match walkPte s pgd vaddr true with
        | none => none
        | some (s₁, none) => some (s₁, -(ENOMEM : Int))
        | some (s₁, some pte) =>
            -- mapped already
            if s₁.word (pte / 8) &&& PEA_PRESENT ≠ 0 then some (s₁, -(ENOMEM : Int))
            else some (s₁.write pte (BitVec.ofNat 64 phyAddr ||| (flags &&& ~~~ PEA_PAGE_SIZE)), 0)

/-- `UnmapPage4K`: the page that was mapped, or null. -/
def unmapPage4K (s : KMem) (pgd vaddr : Nat) : Option (KMem × Option Nat) :=
  if vaddr % PAGE_4K_SIZE ≠ 0 then some (s, none)
  else
    match walkPte s pgd vaddr false with
    | none => none
    | some (s₁, none) => some (s₁, none)
    | some (s₁, some pte) =>
        let e := s₁.word (pte / 8)
        if e &&& PEA_PRESENT = 0 then some (s₁, none)
        else
          let page := page4KIndex (entryAddr e)
          -- the entry is cleared even if its frame has no page structure
          let s₂ := s₁.write pte 0
          if s₂.mms.pagesCount ≤ page then some (s₂, none) else some (s₂, some page)

/-- `FreePage4K(page, 1)`. -/
def KMem.freePage4K (s : KMem) (page : Nat) : Option KMem :=
  (Talios.freePage4K s.mms page 1).map (fun r => { s with mms := r.1 })

/-- The loop of `unmap_anonymous_pages`; `fuel` is the number of pages left. -/
def unmapLoop (pgd : Nat) : Nat → Nat → KMem → Option KMem
  | 0, _, s => some s
  | fuel + 1, address, s =>
      match unmapPage4K s pgd address with
      | none => none
      | some (s₁, none) => unmapLoop pgd fuel (address + PAGE_4K_SIZE) s₁
      | some (s₁, some page) =>
          match s₁.freePage4K page with
          | none => none
          | some s₂ => unmapLoop pgd fuel (address + PAGE_4K_SIZE) s₂

/-- `unmap_anonymous_pages`. -/
def unmapAnonymousPages (s : KMem) (pgd start stop : Nat) : Option KMem :=
  unmapLoop pgd ((stop - start + (PAGE_4K_SIZE - 1)) / PAGE_4K_SIZE) start s

/-! ## What the processor reads -/

/-- The frame a user address is translated to, and the rights of the way there. -/
structure Translation where
  frame : Nat
  user : Bool
  writable : Bool
deriving DecidableEq

/-- The flag is set in an entry. -/
def entryHas (entry flag : BitVec 64) : Bool := entry &&& flag != 0

/-- The way of the processor from `table` on. The rights are those of all entries on the way; an
entry with `PEA_PAGE_SIZE` is a leaf. -/
def translateFrom (word : Memory) (vaddr : Nat) :
    List Nat → Nat → Bool → Bool → Option Translation
  | [], table, user, writable =>
      let e := word ((table + getBits vaddr PAGE_4K_SHIFT 9 * 8) / 8)
      if entryHas e PEA_PRESENT then
        some ⟨page4KIndex (entryAddr e), user && entryHas e PEA_IS_USER,
          writable && entryHas e PEA_READ_WRITE⟩
      else none
  | shift :: shifts, table, user, writable =>
      let e := word ((table + getBits vaddr shift 9 * 8) / 8)
      let user' := user && entryHas e PEA_IS_USER
      let writable' := writable && entryHas e PEA_READ_WRITE
      if entryHas e PEA_PRESENT then
        if entryHas e PEA_PAGE_SIZE then
          some ⟨page4KIndex (alignDown (2 ^ shift) (entryAddr e) + vaddr % 2 ^ shift), user',
            writable'⟩
        else translateFrom word vaddr shifts (tableFromEntry e) user' writable'
      else none

/-- What the processor makes of `vaddr` with `pgd` in `CR3`; `none` where an entry on the way is
not present. -/
def translate (word : Memory) (pgd vaddr : Nat) : Option Translation :=
  translateFrom word vaddr [PAGE_GDT_SHIFT, PAGE_1G_SHIFT, PAGE_2M_SHIFT]
    (phyToVirt (alignDown PAGE_4K_SIZE pgd)) true true

/-- A translation with the low twelve bits of the entry it ends at. -/
structure Mapping extends Translation where
  flags : BitVec 64
deriving DecidableEq

/-- The low twelve bits of an entry. -/
def entryFlags (entry : BitVec 64) : BitVec 64 := entry &&& ~~~ PAGE_4K_MASK

/-- `translateFrom` with the flags of the last entry. -/
def mappingFrom (word : Memory) (vaddr : Nat) :
    List Nat → Nat → Bool → Bool → Option Mapping
  | [], table, user, writable =>
      let e := word ((table + getBits vaddr PAGE_4K_SHIFT 9 * 8) / 8)
      if entryHas e PEA_PRESENT then
        some ⟨⟨page4KIndex (entryAddr e), user && entryHas e PEA_IS_USER,
          writable && entryHas e PEA_READ_WRITE⟩, entryFlags e⟩
      else none
  | shift :: shifts, table, user, writable =>
      let e := word ((table + getBits vaddr shift 9 * 8) / 8)
      let user' := user && entryHas e PEA_IS_USER
      let writable' := writable && entryHas e PEA_READ_WRITE
      if entryHas e PEA_PRESENT then
        if entryHas e PEA_PAGE_SIZE then
          some ⟨⟨page4KIndex (alignDown (2 ^ shift) (entryAddr e) + vaddr % 2 ^ shift), user',
            writable'⟩, entryFlags e⟩
        else mappingFrom word vaddr shifts (tableFromEntry e) user' writable'
      else none

/-- What the tables at `pgd` say of `vaddr`: `translate` with the flags. -/
def mapping (word : Memory) (pgd vaddr : Nat) : Option Mapping :=
  mappingFrom word vaddr [PAGE_GDT_SHIFT, PAGE_1G_SHIFT, PAGE_2M_SHIFT]
    (phyToVirt (alignDown PAGE_4K_SIZE pgd)) true true

theorem translateFrom_eq_mappingFrom (word : Memory) (vaddr : Nat) :
    ∀ (shifts : List Nat) (table : Nat) (user writable : Bool),
      translateFrom word vaddr shifts table user writable
        = (mappingFrom word vaddr shifts table user writable).map Mapping.toTranslation := by
  intro shifts
  induction shifts with
  | nil =>
      intro table user writable
      rw [translateFrom, mappingFrom]
      split <;> rfl
  | cons shift shifts ih =>
      intro table user writable
      rw [translateFrom, mappingFrom]
      split
      · split
        · rfl
        · exact ih _ _ _
      · rfl

theorem translate_eq_mapping (word : Memory) (pgd vaddr : Nat) :
    translate word pgd vaddr = (mapping word pgd vaddr).map Mapping.toTranslation :=
  translateFrom_eq_mappingFrom word vaddr _ _ _ _

end Talios
