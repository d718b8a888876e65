import Talios.Mm.PageTable
import Talios.Mm.VmaRun

set_option autoImplicit false

/-! # Address spaces

`handle_page_fault` of `memory.c`, and the calls of `mmap.c` over the kernel's own heap and page
tables: an address space is a list of areas and a tree of tables, in one kernel memory.

The bytes of a `vm_area_struct` are not read through the memory: an area is the record `VmArea`,
its block of the heap is only taken and given back.
-/

namespace Talios

open Word Bitmap

/-- `sizeof(vm_area_struct)`. -/
def VMA_STRUCT_SIZE : Nat := 80

/-! ## Page faults -/

/-- The bit of a page fault's error code is set. -/
def faultBit (errorCode i : Nat) : Bool := errorCode.testBit i

/-- `page_fault_access_allowed`. -/
def pageFaultAccessAllowed (vma : VmArea) (errorCode : Nat) : Bool :=
  if faultBit errorCode 1 then hasFlag vma.prot PROT_WRITE
  else if faultBit errorCode 4 then hasFlag vma.prot PROT_EXEC
  else hasFlag vma.prot PROT_READ

/-- The checks of `handle_page_fault`: an error, or the area of the page. -/
def pageFaultCheck (mm : Lmm) (address errorCode : Nat) : Except Int VmArea :=
  if mm.pgd = 0 ∨ faultBit errorCode 3 = true ∨ faultBit errorCode 0 = true then
    .error (-(EFAULT : Int))
  else
    let pageAddress := alignDown PAGE_4K_SIZE address
    match findVma mm pageAddress with
    | none => .error (-(EFAULT : Int))
    | some vma =>
        if pageAddress < vma.start ∨ vma.stop ≤ pageAddress then .error (-(EFAULT : Int))
        else if !pageFaultAccessAllowed vma errorCode then .error (-(EACCES : Int))
        else if !hasFlag vma.mmapFlags MAP_ANONYMOUS || vma.file.isSome then
          .error (-(EOPNOTSUPP : Int))
        else .ok vma

/-- `pte_flags` of `handle_page_fault`. -/
def pteFlags (vma : VmArea) : BitVec 64 :=
  PEA_PRESENT ||| PEA_IS_USER ||| if hasFlag vma.prot PROT_WRITE then PEA_READ_WRITE else 0

/-- `handle_page_fault`. -/
def handlePageFault (s : KMem) (mm : Lmm) (address errorCode : Nat) : Option (KMem × Int) :=
  match pageFaultCheck mm address errorCode with
  | .error e => some (s, e)
  | .ok vma =>
      match allocPage4K s.mms ZONE_NORMAL_INDEX 1 PG_PTABLE_MAPPED with
      | none => none
      | some (mms, none) => some ({ s with mms := mms }, -(ENOMEM : Int))
      | some (mms, some page) =>
          let s₁ := { s with mms := mms }.clear (phyToVirt (mms.page page).phyAddr) PAGE_4K_SIZE
          match mapPage4K s₁ mm.pgd (alignDown PAGE_4K_SIZE address) (some page) (pteFlags vma) with
          | none => none
          | some (s₂, r) =>
              if r ≠ 0 then (s₂.freePage4K page).map (·, -(ENOMEM : Int)) else some (s₂, 0)

/-! ## The calls on areas over the kernel -/

/-- `kmalloc`, `kfree` and `unmap_anonymous_pages` for the calls on areas; `none` is a kernel
that has gone wrong. -/
def kernelEnv : VmaEnv (Option KMem) where
  kmalloc s :=
    match s.bind (fun s => kmalloc s VMA_STRUCT_SIZE) with
    | none => (none, none)
    | some (s', p) => (some s', p)
  kfree s p := s.bind (fun s => (kfree s p).map Prod.fst)
  unmapAnonymousPages s pgd start stop := s.bind (fun s => unmapAnonymousPages s pgd start stop)

/-! ## Runs -/

/-- The kernel and the manager of one address space. -/
structure Space where
  mem : KMem
  mm : Lmm

inductive SpaceEvent
  | mmap (a : MmapArgs)
  | munmap (addr len : Nat)
  | fault (address errorCode : Nat)

/-- One call; `none` if the kernel goes wrong. -/
def Space.step (s : Space) : SpaceEvent → Option Space
  | .mmap a =>
      let r := doMmap kernelEnv s.mm a (some s.mem)
      r.2.1.map (fun mem => ⟨mem, r.1⟩)
  | .munmap addr len =>
      let r := doMunmap kernelEnv s.mm addr len (some s.mem)
      r.2.1.map (fun mem => ⟨mem, r.1⟩)
  | .fault address errorCode =>
      (handlePageFault s.mem s.mm address errorCode).map (fun r => ⟨r.1, s.mm⟩)

/-- The states reached from `start` by calls that all meet `ok`. -/
inductive SpaceReachable (start : Space) (ok : Space → SpaceEvent → Prop) : Space → Prop
  | start : SpaceReachable start ok start
  | step {s s' : Space} {e : SpaceEvent} (h : SpaceReachable start ok s) (hok : ok s e)
      (hs : s.step e = some s') : SpaceReachable start ok s'

end Talios
