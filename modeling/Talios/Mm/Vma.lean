import Talios.Memory.Slab

set_option autoImplicit false

/-! # Memory areas of a process

The functions of `vma.c` and `mmap.c` on the list of `vm_area_struct` of a `LocalMemManager`.
The list is the sequence of the areas from `vma_list.next` on; the area knows its own address
(`self`), which is what `kfree` is given, and the address of its manager.

`kmalloc`, `kfree` and `unmap_anonymous_pages` act on the rest of the kernel, a state of type
`σ` that the functions here thread through (`VmaEnv`).
-/

namespace Talios

open Word

def USER_LIMIT : Nat := 0x0000800000000000
def DEFAULT_MMAP_BASE : Nat := 0x0000004000000000

def EBADF : Nat := 9
def ENOMEM : Nat := 12
def EACCES : Nat := 13
def EFAULT : Nat := 14
def EEXIST : Nat := 17
def EINVAL : Nat := 22
def EOVERFLOW : Nat := 75
def EOPNOTSUPP : Nat := 95

def PROT_READ : Nat := 1
def PROT_WRITE : Nat := 2
def PROT_EXEC : Nat := 4

def MAP_SHARED : Nat := 0x01
def MAP_PRIVATE : Nat := 0x02
def MAP_FIXED : Nat := 0x10
def MAP_ANONYMOUS : Nat := 0x20

/-- `(unsigned long)-err`. -/
def negErr (err : Nat) : Nat := 2 ^ 64 - err

/-- `flags & bit` as a truth value. -/
def hasFlag (flags bit : Nat) : Bool := flags &&& bit != 0

/-- `flags & ~mask` as a truth value. -/
def hasOther (flags mask : Nat) : Bool := flags &&& (2 ^ 64 - 1 - mask) != 0

/-! ## Data -/

/-- `struct vm_area_struct`: the addresses `[start, stop)`. -/
structure VmArea where
  self : Nat
  vmMm : Nat
  start : Nat
  stop : Nat
  prot : Nat
  flags : Nat
  mmapFlags : Nat
  fileOffset : Nat
  file : Option Nat
deriving DecidableEq

/-- `struct LocalMemManager` at address `self`. `listReady` says that `vma_list.next` and
`vma_list.prev` are not null. -/
structure Lmm where
  self : Nat
  pgd : Nat
  mmapBase : Nat
  listReady : Bool
  vmaList : List VmArea

/-- What the functions on areas use of the rest of the kernel: `kmalloc` of a
`vm_area_struct`, which may return null, `kfree`, and `unmap_anonymous_pages`. -/
structure VmaEnv (σ : Type) where
  kmalloc : σ → σ × Option Nat
  kfree : σ → Nat → σ
  unmapAnonymousPages : σ → Nat → Nat → Nat → σ

/-! ## `vma.c` -/

/-- `lmm_init`. -/
def lmmInit (mm : Lmm) : Lmm :=
  { mm with listReady := true, vmaList := [], mmapBase := DEFAULT_MMAP_BASE }

/-- `find_vma`: the first area that ends behind `addr`. -/
def findVma (mm : Lmm) (addr : Nat) : Option VmArea :=
  if mm.listReady then mm.vmaList.find? (fun vma => decide (addr < vma.stop)) else none

/-- The loop of `insert_vma`; `none` is `-EEXIST`. -/
def insertLoop (vma : VmArea) : List VmArea → Option (List VmArea)
  | [] => some [vma]
  | p :: rest =>
      if vma.stop ≤ p.start then some (vma :: p :: rest)
      else if vma.start < p.stop then none
      else (insertLoop vma rest).map (p :: ·)

/-- The argument checks of `insert_vma`. -/
def insertArgsOk (mm : Lmm) (vma : VmArea) : Bool :=
  mm.listReady && decide (vma.start < vma.stop) && decide (PAGE_4K_SIZE ≤ vma.start) &&
    decide (vma.stop ≤ USER_LIMIT) && decide (vma.start % PAGE_4K_SIZE = 0) &&
    decide (vma.stop % PAGE_4K_SIZE = 0)

/-- `insert_vma`; the result is 1, `-EINVAL` or `-EEXIST`. -/
def insertVma (mm : Lmm) (vma : VmArea) : Lmm × Int :=
  if insertArgsOk mm vma then
    match insertLoop { vma with vmMm := mm.self } mm.vmaList with
    | some l => ({ mm with vmaList := l }, 1)
    | none => (mm, -(EEXIST : Int))
  else (mm, -(EINVAL : Int))

/-- The loop of `range_is_free`. -/
def rangeLoop (start stop : Nat) : List VmArea → Bool
  | [] => true
  | vma :: rest =>
      if stop ≤ vma.start then true
      else if start < vma.stop ∧ vma.start < stop then false
      else rangeLoop start stop rest

/-- `range_is_free`. -/
def rangeIsFree (mm : Lmm) (start len : Nat) : Bool :=
  if mm.listReady = false ∨ len = 0 ∨ start < PAGE_4K_SIZE ∨ USER_LIMIT ≤ start ∨
      USER_LIMIT - start < len then false
  else rangeLoop start (start + len) mm.vmaList

/-- The loop of `find_unmapped_area`, which stands at `cur`. -/
def unmappedLoop (len : Nat) : List VmArea → Nat → Nat
  | [], cur => if len ≤ USER_LIMIT - cur then cur else negErr ENOMEM
  | vma :: rest, cur =>
      if vma.stop ≤ cur then unmappedLoop len rest cur
      else if cur ≤ vma.start ∧ len ≤ vma.start - cur then cur
      else
        let cur' := if cur < vma.stop then alignUp64 PAGE_4K_SIZE vma.stop else cur
        if USER_LIMIT ≤ cur' ∨ USER_LIMIT - cur' < len then negErr ENOMEM
        else unmappedLoop len rest cur'

/-- `find_unmapped_area`. -/
def findUnmappedArea (mm : Lmm) (len : Nat) : Nat :=
  if mm.listReady = false ∨ len = 0 ∨ len % PAGE_4K_SIZE ≠ 0 ∨ USER_LIMIT - PAGE_4K_SIZE < len then
    negErr ENOMEM
  else
    let base := if mm.mmapBase ≠ 0 then alignUp64 PAGE_4K_SIZE mm.mmapBase else DEFAULT_MMAP_BASE
    let cur := if base < PAGE_4K_SIZE then PAGE_4K_SIZE else base
    if USER_LIMIT ≤ cur ∨ USER_LIMIT - cur < len then negErr ENOMEM
    else unmappedLoop len mm.vmaList cur

section

variable {σ : Type} (env : VmaEnv σ)

/-- `vma_destroy_all`: every area is taken off the list and freed. -/
def vmaDestroyAll (mm : Lmm) (s : σ) : Lmm × σ :=
  if mm.listReady then
    ({ mm with vmaList := [] }, mm.vmaList.foldl (fun s vma => env.kfree s vma.self) s)
  else (mm, s)

/-- The loop of `vma_clone_all` over the areas of the source. -/
def cloneLoop : List VmArea → Lmm → σ → Lmm × σ × Int
  | [], dst, s => (dst, s, 0)
  | vma :: rest, dst, s =>
      match env.kmalloc s with
      | (s₁, none) =>
          let (dst', s₂) := vmaDestroyAll env dst s₁
          (dst', s₂, -(ENOMEM : Int))
      | (s₁, some p) =>
          cloneLoop rest
            { dst with vmaList := dst.vmaList ++ [{ vma with self := p, vmMm := dst.self }] } s₁

/-- `vma_clone_all`: the destination, the rest of the kernel and the result. -/
def vmaCloneAll (src dst : Lmm) (s : σ) : Lmm × σ × Int :=
  if src.self = dst.self ∨ src.listReady = false ∨ dst.listReady = false then
    (dst, s, -(EINVAL : Int))
  else cloneLoop env src.vmaList dst s

/-! ## `mmap.c` -/

/-- `__get_unmapped_area`. -/
def getUnmappedArea (mm : Lmm) (addr len flags : Nat) : Nat :=
  if len = 0 ∨ len % PAGE_4K_SIZE ≠ 0 then negErr EINVAL
  else if hasFlag flags MAP_FIXED then
    if addr % PAGE_4K_SIZE ≠ 0 then negErr EINVAL
    else if addr < PAGE_4K_SIZE ∨ USER_LIMIT ≤ addr ∨ USER_LIMIT - addr < len then negErr ENOMEM
    else addr
  else if addr ≠ 0 ∧ rangeIsFree mm (alignDown PAGE_4K_SIZE addr) len = true then
    alignDown PAGE_4K_SIZE addr
  else findUnmappedArea mm len

/-- The arguments of `do_mmap`. -/
structure MmapArgs where
  file : Option Nat
  addr : Nat
  len : Nat
  prot : Nat
  flags : Nat
  vmFlags : Nat
  pgoff : Nat

/-- The checks of `do_mmap` before it looks for an address: an error, or the length rounded up
to pages. -/
def mmapCheck (a : MmapArgs) : Except Nat Nat :=
  if a.len = 0 then .error (negErr EINVAL)
  else if hasOther a.prot (PROT_READ ||| PROT_WRITE ||| PROT_EXEC) then .error (negErr EINVAL)
  else if hasOther a.flags (MAP_SHARED ||| MAP_PRIVATE ||| MAP_FIXED ||| MAP_ANONYMOUS) then
    .error (negErr EINVAL)
  else if hasFlag a.flags MAP_SHARED && hasFlag a.flags MAP_PRIVATE then .error (negErr EINVAL)
  else if !hasFlag a.flags MAP_SHARED && !hasFlag a.flags MAP_PRIVATE then .error (negErr EINVAL)
  else if hasFlag a.flags MAP_ANONYMOUS && a.file.isSome then .error (negErr EINVAL)
  else if !hasFlag a.flags MAP_ANONYMOUS && a.file.isNone then .error (negErr EBADF)
  else if !hasFlag a.flags MAP_ANONYMOUS then .error (negErr EOPNOTSUPP)
  else if USER_LIMIT - (PAGE_4K_SIZE - 1) < a.len then .error (negErr ENOMEM)
  else
    let len := alignUp64 PAGE_4K_SIZE a.len
    if len = 0 ∨ USER_LIMIT < len then .error (negErr ENOMEM)
    else if 2 ^ 64 - 1 - a.pgoff < len / PAGE_4K_SIZE then .error (negErr EOVERFLOW)
    else if (2 ^ 64 - 1) / PAGE_4K_SIZE < a.pgoff then .error (negErr EOVERFLOW)
    else .ok len

/-- The area `do_mmap` inserts. -/
def mmapArea (mm : Lmm) (a : MmapArgs) (self addr len : Nat) : VmArea :=
  { self := self, vmMm := mm.self, start := addr, stop := add64 addr len, prot := a.prot,
    flags := a.vmFlags, mmapFlags := a.flags, fileOffset := a.pgoff * PAGE_4K_SIZE % 2 ^ 64,
    file := a.file }

/-- `do_mmap` on the manager of the current task; the result is an address or a negative error
code. -/
def doMmap (mm : Lmm) (a : MmapArgs) (s : σ) : Lmm × σ × Nat :=
  match mmapCheck a with
  | .error e => (mm, s, e)
  | .ok len =>
      let addr := getUnmappedArea mm a.addr len a.flags
      if 2 ^ 63 ≤ addr then (mm, s, addr)
      else if hasFlag a.flags MAP_FIXED && !rangeIsFree mm addr len then (mm, s, negErr EEXIST)
      else
        match env.kmalloc s with
        | (s₁, none) => (mm, s₁, negErr ENOMEM)
        | (s₁, some p) =>
            match insertVma mm (mmapArea mm a p addr len) with
            | (mm', 1) => (mm', s₁, addr)
            | (mm', ret) =>
                (mm', env.kfree s₁ p, if ret < 0 then negErr ret.natAbs else negErr EEXIST)

/-- The loop of `do_munmap` over the areas from here on: what is left of them, the rest of the
kernel, and the result. An area that is split leaves two. -/
def munmapLoop (mm : Lmm) (addr stop : Nat) : List VmArea → σ → Bool → List VmArea × σ × Int
  | [], s, unmapped => ([], s, if unmapped then 0 else -(EINVAL : Int))
  | vma :: rest, s, unmapped =>
      if vma.stop ≤ addr then
        let r := munmapLoop mm addr stop rest s unmapped
        (vma :: r.1, r.2)
      else if stop ≤ vma.start then (vma :: rest, s, if unmapped then 0 else -(EINVAL : Int))
      else if !hasFlag vma.mmapFlags MAP_ANONYMOUS || vma.file.isSome then
        (vma :: rest, s, -(EOPNOTSUPP : Int))
      else
        let unmapStart := if vma.start < addr then addr else vma.start
        let unmapEnd := if stop < vma.stop then stop else vma.stop
        if vma.start < unmapStart ∧ unmapEnd < vma.stop then
          match env.kmalloc s with
          | (s₁, none) => (vma :: rest, s₁, -(ENOMEM : Int))
          | (s₁, some p) =>
              let right := { vma with
                self := p, vmMm := mm.self, start := unmapEnd
                fileOffset := add64 vma.fileOffset (unmapEnd - vma.start) }
              let s₂ := env.unmapAnonymousPages s₁ mm.pgd unmapStart unmapEnd
              let r := munmapLoop mm addr stop rest s₂ true
              ({ vma with stop := unmapStart } :: right :: r.1, r.2)
        else
          let s₁ := env.unmapAnonymousPages s mm.pgd unmapStart unmapEnd
          if unmapStart = vma.start ∧ unmapEnd = vma.stop then
            munmapLoop mm addr stop rest (env.kfree s₁ vma.self) true
          else if unmapStart = vma.start then
            let r := munmapLoop mm addr stop rest s₁ true
            ({ vma with start := unmapEnd } :: r.1, r.2)
          else
            let r := munmapLoop mm addr stop rest s₁ true
            ({ vma with stop := unmapStart } :: r.1, r.2)

/-- The argument checks of `do_munmap`: the length rounded up to pages. -/
def munmapCheck (mm : Lmm) (addr len : Nat) : Option Nat :=
  if mm.pgd = 0 ∨ len = 0 ∨ addr % PAGE_4K_SIZE ≠ 0 then none
  else if USER_LIMIT - (PAGE_4K_SIZE - 1) < len then none
  else
    let len := alignUp64 PAGE_4K_SIZE len
    if addr < PAGE_4K_SIZE ∨ USER_LIMIT ≤ addr ∨ len = 0 ∨ USER_LIMIT - addr < len then none
    else if mm.listReady = false then none
    else some len

/-- `do_munmap` on the manager of the current task. -/
def doMunmap (mm : Lmm) (addr len : Nat) (s : σ) : Lmm × σ × Int :=
  match munmapCheck mm addr len with
  | none => (mm, s, -(EINVAL : Int))
  | some len =>
      let r := munmapLoop env mm addr (addr + len) mm.vmaList s false
      ({ mm with vmaList := r.1 }, r.2)

end

end Talios
