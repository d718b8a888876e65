import Talios.Fs.FilePosition
import Talios.Keyboard.Ring
import Talios.Task.Files

set_option autoImplicit false

/-! # The descriptors of a task

`sys_open` and `sys_close` on the `handle_array` of one task, with the file objects, their nodes and
the ring of the keyboard, and the calls that take a descriptor.

`sys_open` lets `f_ops->open` and `O_TRUNC` do their work before it looks for a free handle
(`sysOpen_clean`); only the node of the root can be one that another file has. The other calls compare
a descriptor with the size of the table and do not look whether its handle is null
(`closed_descriptor_rejected`).
-/

namespace Talios

open Bytes Word

def EMFILE : Nat := 24
def ENAMETOOLONG : Nat := 36

/-! ## Data -/

/-- The tables of operations: `FAT32_f_ops`, which every node has, and `keyboard_operation`. -/
inductive FileOperations where
  | fat32
  | keyboard

/-- `file`, with the `dir_node` of its dentry: none for that of `fsb->root`. -/
structure FileObject where
  dirNode : Option FoundNode
  mode : BitVec 32
  position : Nat
  fOps : FileOperations

/-- The handles of `CURRENT`, the file objects by address, which of them are allocated, the node of
`fsb->root`, and the ring of the keyboard. -/
structure Descriptors where
  handleArray : Nat → Option Nat
  file : Nat → FileObject
  heap : FileHeap
  root : FoundNode
  kbib : KeyboardInBuf

namespace Descriptors

/-- A call of `sys_open`: its arguments and the memory they point to, the disk, what `kmalloc` returns
for the page of the path and in the walk, and the result of `kmalloc(sizeof(file))`, which is not in
use. -/
structure OpenCall (s : Descriptors) where
  mem : Buffer
  filename : Nat
  flag : BitVec 32
  disk : Buffer
  pathPage : Bool
  memory : WalkMemory
  fuel : Nat
  filp : Option Nat
  fresh : ∀ p, filp = some p → p ∉ s.heap.alive

/-! ## `sys_open` -/

/-- The walk of a call. -/
def walkEnv (sb : SbInfo) (s : Descriptors) (call : s.OpenCall) : WalkEnv :=
  ⟨sb, call.disk, s.root.firstCluster, call.memory, call.fuel⟩

/-- The entry that is opened, or the error of a call that has not allocated a file object yet; none
where `path_walk` does not return. -/
def openTarget (sb : SbInfo) (s : Descriptors) (call : s.OpenCall) :
    Option (Int ⊕ DirEntry FoundNode) :=
  let pathlen := strnlenUser call.mem call.filename PAGE_4K_SIZE
  if call.pathPage = false then some (.inl (-(ENOMEM : Int)))
  else if pathlen = 0 then some (.inl (-(EFAULT : Int)))
  else if PAGE_4K_SIZE ≤ pathlen then some (.inl (-(ENAMETOOLONG : Int)))
  else
    let path := strncpyFromUser call.mem call.filename newBuffer pathlen
    match (s.walkEnv sb call).walk (((List.range PAGE_4K_SIZE).map path).takeWhile (· ≠ 0)) with
    | some (.returned walked) => some (openEntry call.flag walked)
    | _ => none

/-- The node that a file object of the entry has for its own. -/
def ownNode : DirEntry FoundNode → Option FoundNode
  | .root _ => none
  | .child _ node _ => some node

/-- `filp->f_ops`. -/
def openOps (dentry : DirEntry FoundNode) : FileOperations :=
  if dentry.dirNode.nodeAttribute &&& FS_ATTR_DEVICE ≠ 0 then .keyboard else .fat32

/-- `filp->f_ops->open`. -/
def callOpen (s : Descriptors) : FileOperations → Int × Descriptors
  | .fat32 => (1, s)
  | .keyboard => (1, { s with kbib := keyboardOpen s.kbib })

/-- The file object of `kmalloc`, filled in. -/
def newFile (s : Descriptors) (p : Nat) (f : FileObject) : Descriptors :=
  { s with
    heap := { s.heap with alive := insert p s.heap.alive }
    file := Function.update s.file p f }

/-- `kfree` of a file object. -/
def kfree (s : Descriptors) (p : Nat) : Descriptors := { s with heap := s.heap.kfree p }

/-- `filp->dentry->dir_node`. -/
def nodeOf (s : Descriptors) (p : Nat) : FoundNode := (s.file p).dirNode.getD s.root

/-- `O_TRUNC`. -/
def truncate (s : Descriptors) (p : Nat) (flag : BitVec 32) : Descriptors :=
  match (s.file p).dirNode with
  | none => { s with root := truncatedNode flag s.root }
  | some node =>
      { s with
        file := Function.update s.file p
          { s.file p with dirNode := some (truncatedNode flag node) } }

/-- `O_APPEND`. -/
def seekEnd (s : Descriptors) (p : Nat) (flag : BitVec 32) : Descriptors :=
  { s with
    file := Function.update s.file p { s.file p with position := openPosition flag (s.nodeOf p) } }

/-- The loop over the handles. -/
def freeHandle (s : Descriptors) : Option Nat :=
  (List.range MAX_HANDLE_PER_TASK).find? (fun i => (s.handleArray i).isNone)

/-- `sys_open` from `kmalloc(sizeof(file))` on. -/
def openDentry (s : Descriptors) (dentry : DirEntry FoundNode) (flag : BitVec 32) (p : Nat) :
    Int × Descriptors :=
  let fOps := openOps dentry
  let r := (s.newFile p ⟨ownNode dentry, flag, 0, fOps⟩).callOpen fOps
  if r.1 ≠ 1 then (-(EFAULT : Int), r.2.kfree p)
  else
    let s := (r.2.truncate p flag).seekEnd p flag
    -- only here does it look for a handle; the file has been opened and truncated
    match s.freeHandle with
    | none => (-(EMFILE : Int), s.kfree p)
    | some fd => (fd, { s with handleArray := Function.update s.handleArray fd (some p) })

/-- How `sys_open` ends: the walk does not return, a null file object is cleared, or it returns. -/
inductive OpenResult where
  | lost
  | nullFile
  | returned (r : Int) (s : Descriptors)

/-- `sys_open`. -/
def sysOpen (sb : SbInfo) (s : Descriptors) (call : s.OpenCall) : OpenResult :=
  match openTarget sb s call with
  | none => .lost
  | some (.inl error) => .returned error s
  | some (.inr dentry) =>
      match call.filp with
      | none => .nullFile
      | some p =>
          .returned (s.openDentry dentry call.flag p).1 (s.openDentry dentry call.flag p).2

/-! ## The calls that take a descriptor -/

/-- What the operations of an open file do, and the value of `res` where there is no operation or it
returns nothing. -/
structure Operations where
  ioctl : Nat → Nat → Nat → Descriptors → Int × Descriptors
  read : Nat → Nat → Nat → Descriptors → Int × Descriptors
  write : Nat → Nat → Nat → Descriptors → Int × Descriptors
  lseek : Nat → Int → Int → Descriptors → Int × Descriptors
  readdir : Nat → Nat → Descriptors → Int × Descriptors
  res : Int

/-- The form of the calls: the descriptor is compared with the size of the table, then another
argument is checked, then `filp` is followed. `none` is a null `filp`. -/
def onHandle (s : Descriptors) (fd : Int) (check : Option Int) (call : Nat → Int × Descriptors) :
    Option (Int × Descriptors) :=
  if fd < 0 ∨ (MAX_HANDLE_PER_TASK : Int) ≤ fd then some (-(EBADF : Int), s)
  else
    match check with
    | some error => some (error, s)
    -- no test for a null handle
    | none => (s.handleArray fd.toNat).map call

/-- `filp->f_ops->close`, if there is one. -/
def callClose (ops : Operations) (s : Descriptors) : FileOperations → Int × Descriptors
  | .fat32 => (ops.res, s)
  | .keyboard => (1, { s with kbib := keyboardClose s.kbib })

/-- `sys_close`. -/
def sysClose (ops : Operations) (s : Descriptors) (fd : Int) : Option (Int × Descriptors) :=
  s.onHandle fd none fun p =>
    let r := s.callClose ops (s.file p).fOps
    let s := r.2.kfree p
    (r.1, { s with handleArray := Function.update s.handleArray fd.toNat none })

/-- `sys_ioctl`. -/
def sysIoctl (ops : Operations) (s : Descriptors) (fd : Int) (request args : Nat) :
    Option (Int × Descriptors) := s.onHandle fd none fun p => ops.ioctl p request args s

/-- `sys_read`. The check of `count` is one of a number without sign. -/
def sysRead (ops : Operations) (s : Descriptors) (fd : Int) (buf count : Nat) :
    Option (Int × Descriptors) := s.onHandle fd none fun p => ops.read p buf count s

/-- `sys_write`. So is this one. -/
def sysWrite (ops : Operations) (s : Descriptors) (fd : Int) (buf count : Nat) :
    Option (Int × Descriptors) := s.onHandle fd none fun p => ops.write p buf count s

/-- `sys_lseek`. -/
def sysLseek (ops : Operations) (s : Descriptors) (fd offset whence : Int) :
    Option (Int × Descriptors) :=
  s.onHandle fd (if whence < 0 ∨ SEEK_MAX ≤ whence then some (-(EINVAL : Int)) else none)
    fun p => ops.lseek p offset whence s

/-- `sys_getdents`. -/
def sysGetdents (ops : Operations) (s : Descriptors) (fd : Int) (dirent : Nat) (count : Int) :
    Option (Int × Descriptors) :=
  s.onHandle fd (if count < 0 then some (-(EINVAL : Int)) else none)
    fun p => ops.readdir p dirent s

/-! ## What is wanted -/

/-- No node, no open file, no buffer of a device and no handle has changed, and the file objects that
are allocated are the same. -/
structure Untouched (s s' : Descriptors) : Prop where
  handleArray : s'.handleArray = s.handleArray
  root : s'.root = s.root
  file : ∀ p ∈ s.heap.alive, s'.file p = s.file p
  kbib : s'.kbib = s.kbib
  heap : s'.heap = s.heap

/-- The call does not clear a null file object, and an error has no effect. -/
def OpenClean (sb : SbInfo) (s : Descriptors) (call : s.OpenCall) : Prop :=
  sysOpen sb s call ≠ .nullFile ∧
    ∀ r s', sysOpen sb s call = .returned r s' → r < 0 → s.Untouched s'

/-- Opening the entry changes a node that other files have: the root is truncated. -/
def OpenChanges (s : Descriptors) (dentry : DirEntry FoundNode) (flag : BitVec 32) : Prop :=
  ownNode dentry = none ∧ flag &&& O_TRUNC ≠ 0 ∧ s.root.fileSize ≠ 0

/-- The descriptor does not stand for an open file. -/
def Closed (s : Descriptors) (fd : Int) : Prop :=
  fd < 0 ∨ (MAX_HANDLE_PER_TASK : Int) ≤ fd ∨ s.handleArray fd.toNat = none

/-- All calls reject the descriptor and change nothing. -/
structure Rejects (ops : Operations) (s : Descriptors) (fd : Int) : Prop where
  close : s.sysClose ops fd = some (-(EBADF : Int), s)
  ioctl : ∀ request args, s.sysIoctl ops fd request args = some (-(EBADF : Int), s)
  read : ∀ buf count, s.sysRead ops fd buf count = some (-(EBADF : Int), s)
  write : ∀ buf count, s.sysWrite ops fd buf count = some (-(EBADF : Int), s)
  lseek : ∀ offset whence, s.sysLseek ops fd offset whence = some (-(EBADF : Int), s)
  getdents : ∀ dirent count, s.sysGetdents ops fd dirent count = some (-(EBADF : Int), s)

/-- The states that calls of `sys_open` and `sys_close` come to, from a table without handles. -/
inductive Reachable (sb : SbInfo) (ops : Operations) : Descriptors → Prop
  | init (s : Descriptors) (h : ∀ i, s.handleArray i = none) : Reachable sb ops s
  | openFile {s s' : Descriptors} {r : Int} (h : Reachable sb ops s) (call : s.OpenCall)
      (hs : sysOpen sb s call = .returned r s') : Reachable sb ops s'
  | close {s s' : Descriptors} {r : Int} (h : Reachable sb ops s) (fd : Int)
      (hs : s.sysClose ops fd = some (r, s')) : Reachable sb ops s'

/-! ## The steps of `sys_open` -/

theorem Untouched.refl (s : Descriptors) : s.Untouched s :=
  ⟨rfl, rfl, fun _ _ => rfl, rfl, rfl⟩

section

variable {s : Descriptors} {p : Nat} {dentry : DirEntry FoundNode} {flag : BitVec 32}

/-- A file object that is allocated and freed leaves the heap as it was. -/
theorem kfree_newFile {t : Descriptors} (hp : p ∉ s.heap.alive)
    (ht : t.heap = { s.heap with alive := insert p s.heap.alive }) : (t.kfree p).heap = s.heap := by
  rw [kfree, ht, FileHeap.kfree, if_pos (Finset.mem_insert_self p _)]
  rw [Finset.erase_insert hp]

/-- What `truncate` does. -/
theorem truncate_same (s : Descriptors) (p : Nat) (flag : BitVec 32) :
    (s.truncate p flag).handleArray = s.handleArray ∧ (s.truncate p flag).heap = s.heap ∧
      (s.truncate p flag).kbib = s.kbib ∧ ∀ q, q ≠ p → (s.truncate p flag).file q = s.file q := by
  unfold truncate
  cases (s.file p).dirNode with
  | none => exact ⟨rfl, rfl, rfl, fun _ _ => rfl⟩
  | some node => exact ⟨rfl, rfl, rfl, fun q hq => Function.update_of_ne hq ..⟩

theorem truncate_root (s : Descriptors) (p : Nat) (flag : BitVec 32) :
    (s.truncate p flag).root =
      if (s.file p).dirNode = none then truncatedNode flag s.root else s.root := by
  unfold truncate
  cases (s.file p).dirNode with
  | none => rfl
  | some node => rfl

/-- A file object that has been filled in, opened and placed. -/
def prepared (s : Descriptors) (dentry : DirEntry FoundNode) (flag : BitVec 32) (p : Nat) :
    Descriptors :=
  ((s.newFile p ⟨ownNode dentry, flag, 0, .fat32⟩).truncate p flag).seekEnd p flag

/-- Before the handles are looked at, the root has been truncated where it is opened and that is asked
for. -/
theorem prepared_spec (s : Descriptors) (dentry : DirEntry FoundNode) (flag : BitVec 32) (p : Nat) :
    (s.prepared dentry flag p).handleArray = s.handleArray ∧
      (s.prepared dentry flag p).heap = { s.heap with alive := insert p s.heap.alive } ∧
      (∀ q, q ≠ p → (s.prepared dentry flag p).file q = s.file q) ∧
      (s.prepared dentry flag p).kbib = s.kbib ∧
      (s.prepared dentry flag p).root =
        if ownNode dentry = none then truncatedNode flag s.root else s.root := by
  obtain ⟨k1, k2, k3, k4⟩ := truncate_same (s.newFile p ⟨ownNode dentry, flag, 0, .fat32⟩) p flag
  refine ⟨k1, k2, fun q hq => ?_, k3, ?_⟩
  · refine (Function.update_of_ne hq ..).trans ((k4 q hq).trans ?_)
    exact Function.update_of_ne hq ..
  · refine (truncate_root ..).trans ?_
    have hnode : ((s.newFile p ⟨ownNode dentry, flag, 0, .fat32⟩).file p).dirNode = ownNode dentry := by
      unfold newFile
      dsimp only
      rw [Function.update_self]
    rw [hnode]
    rfl

/-- `sys_open` from the file object on: no free handle, or a handle. -/
theorem openDentry_cases (s : Descriptors) (flag : BitVec 32) (p : Nat)
    (hops : openOps dentry = .fat32) :
    (s.freeHandle = none ∧
      s.openDentry dentry flag p = (-(EMFILE : Int), (s.prepared dentry flag p).kfree p)) ∨
    ∃ fd : Nat, s.freeHandle = some fd ∧
      s.openDentry dentry flag p = ((fd : Int), { s.prepared dentry flag p with
        handleArray := Function.update (s.prepared dentry flag p).handleArray fd (some p) }) := by
  have hfree : (s.prepared dentry flag p).freeHandle = s.freeHandle := by
    unfold freeHandle
    rw [(prepared_spec s dentry flag p).1]
  have hopen : s.openDentry dentry flag p = match (s.prepared dentry flag p).freeHandle with
      | none => (-(EMFILE : Int), (s.prepared dentry flag p).kfree p)
      | some fd => ((fd : Int), { s.prepared dentry flag p with
          handleArray := Function.update (s.prepared dentry flag p).handleArray fd (some p) }) := by
    unfold openDentry
    rw [hops]
    rfl
  rw [hfree] at hopen
  cases hfd : s.freeHandle with
  | none =>
      rw [hfd] at hopen
      exact .inl ⟨rfl, hopen⟩
  | some fd =>
      rw [hfd] at hopen
      exact .inr ⟨fd, rfl, hopen⟩

/-- The error of a full table has no effect if and only if opening the entry changes nothing. -/
theorem untouched_prepared_iff (hp : p ∉ s.heap.alive) :
    s.Untouched ((s.prepared dentry flag p).kfree p) ↔ ¬ s.OpenChanges dentry flag := by
  obtain ⟨h1, h2, h3, h4, h5⟩ := prepared_spec s dentry flag p
  constructor
  · rintro h ⟨hroot, htrunc, hsize⟩
    have hkept : (s.prepared dentry flag p).root = s.root := h.root
    rw [h5, if_pos hroot] at hkept
    have hzero := truncatedNode_fileSize flag s.root
    rw [if_pos htrunc, hkept] at hzero
    exact hsize hzero
  · intro h
    refine ⟨h1, ?_, fun q hq => ?_, h4, kfree_newFile hp h2⟩
    · show (s.prepared dentry flag p).root = s.root
      rw [h5]
      split_ifs with hroot
      · unfold truncatedNode
        split_ifs with htrunc
        · have hsize : s.root.fileSize = 0 := by
            by_contra hne
            exact h ⟨hroot, htrunc, hne⟩
          rw [← hsize]
        · rfl
      · rfl
    · exact h3 q (fun hqp => hp (hqp ▸ hq))

end

/-! ## The calls -/

section

variable {sb : SbInfo} {s : Descriptors} {call : s.OpenCall}

theorem sysOpen_of_inl {error : Int} (h : openTarget sb s call = some (.inl error)) :
    sysOpen sb s call = .returned error s := by
  rw [sysOpen, h]

theorem sysOpen_of_inr {dentry : DirEntry FoundNode} {p : Nat}
    (h : openTarget sb s call = some (.inr dentry)) (hp : call.filp = some p) :
    sysOpen sb s call =
      .returned (s.openDentry dentry call.flag p).1 (s.openDentry dentry call.flag p).2 := by
  rw [sysOpen, h]
  dsimp only
  rw [hp]

/-- The path of a call that has a page for it. -/
theorem openTarget_userPath (sb : SbInfo) (s : Descriptors) (call : s.OpenCall)
    (hpage : call.pathPage = true) :
    (userPath call.mem call.filename = none ∧
      ∃ error < 0, openTarget sb s call = some (.inl error)) ∨
    ∃ path, userPath call.mem call.filename = some path ∧
      openTarget sb s call = match (s.walkEnv sb call).walk path with
        | some (.returned walked) => some (openEntry call.flag walked)
        | _ => none := by
  have hno : ¬ call.pathPage = false := by simp [hpage]
  unfold userPath openTarget
  dsimp only
  rw [if_neg hno]
  by_cases h0 : strnlenUser call.mem call.filename PAGE_4K_SIZE = 0
  · rw [if_pos (.inl h0), if_pos h0]
    exact .inl ⟨rfl, _, by decide, rfl⟩
  · rw [if_neg h0]
    by_cases h1 : PAGE_4K_SIZE ≤ strnlenUser call.mem call.filename PAGE_4K_SIZE
    · rw [if_pos (.inr h1), if_pos h1]
      exact .inl ⟨rfl, _, by decide, rfl⟩
    · rw [if_neg (not_or.mpr ⟨h0, h1⟩), if_neg h1]
      exact .inr ⟨_, rfl, rfl⟩

/-- The entry of a call that opens one. -/
theorem openTarget_inr {dentry : DirEntry FoundNode}
    (h : openTarget sb s call = some (.inr dentry)) :
    ∃ path, userPath call.mem call.filename = some path ∧
      (s.walkEnv sb call).walk path = some (.returned (some dentry)) := by
  have hpage : call.pathPage = true := by
    by_contra hno
    rw [Bool.not_eq_true] at hno
    unfold openTarget at h
    rw [if_pos hno] at h
    cases h
  rcases openTarget_userPath sb s call hpage with ⟨-, error, -, herror⟩ | ⟨path, hpath, htarget⟩
  · rw [herror] at h
    cases h
  · rw [htarget] at h
    split at h
    · rename_i walked hwalk
      rw [openEntry_eq_inr (Option.some.inj h)] at hwalk
      exact ⟨path, hpath, hwalk⟩
    · cases h

/-- No entry that is opened is a device. -/
theorem openTarget_ops {dentry : DirEntry FoundNode}
    (h : openTarget sb s call = some (.inr dentry)) : openOps dentry = .fat32 := by
  obtain ⟨path, hpath, hwalk⟩ := openTarget_inr h
  unfold openOps
  rw [walk_directory (@PathCall.Passes.nonzero _ _ _ .sysOpen hpath) hwalk]
  rfl

end

/-- `sys_open` does not clear a null file object, and its errors have no effect, if and only if a call
that gets as far as the file object has memory for it, and finds a free handle or does not truncate
the root before it looks for one. -/
theorem sysOpen_clean (sb : SbInfo) (s : Descriptors) (call : s.OpenCall) :
    OpenClean sb s call ↔
      ∀ dentry, openTarget sb s call = some (.inr dentry) →
        call.filp ≠ none ∧ ((∃ fd < MAX_HANDLE_PER_TASK, s.handleArray fd = none) ∨
          ¬ s.OpenChanges dentry call.flag) := by
  have hfree : s.freeHandle = none ↔ ¬ ∃ fd < MAX_HANDLE_PER_TASK, s.handleArray fd = none := by
    rw [freeHandle, List.find?_eq_none]
    simp
  cases htarget : openTarget sb s call with
  | none =>
    have hlost : sysOpen sb s call = .lost := by rw [sysOpen, htarget]
    refine iff_of_true ⟨?_, fun r s' h => ?_⟩ (fun dentry h => (by cases h))
    · rw [hlost]
      exact fun h => (by cases h)
    · rw [hlost] at h
      cases h
  | some target =>
    cases target with
    -- A call that has failed before it asked for a file object has changed nothing.
    | inl error =>
      have hret := sysOpen_of_inl htarget
      refine iff_of_true ⟨?_, fun r s' h _ => ?_⟩ (fun dentry h => (by cases h))
      · rw [hret]
        exact fun h => (by cases h)
      · rw [hret] at h
        cases h
        exact Untouched.refl s
    | inr dentry =>
      have hops := openTarget_ops htarget
      cases hfilp : call.filp with
      | none =>
        have hnull : sysOpen sb s call = .nullFile := by
          rw [sysOpen, htarget]
          dsimp only
          rw [hfilp]
        exact iff_of_false (fun h => h.1 hnull) (fun h => (h dentry rfl).1 rfl)
      | some p =>
        have hp := call.fresh p hfilp
        have hret := sysOpen_of_inr htarget hfilp
        constructor
        · rintro ⟨-, hclean⟩ dentry' hdentry
          cases hdentry
          refine ⟨by simp, ?_⟩
          by_contra hno
          obtain ⟨hfull, hchanges⟩ := not_or.mp hno
          -- Of the ends of `openDentry`, only the one for a full table can leave something behind.
          rcases openDentry_cases s call.flag p hops with ⟨-, heq⟩ | ⟨fd, hfd, -⟩
          · rw [heq] at hret
            have hun := hclean _ _ hret (show -(EMFILE : Int) < 0 by decide)
            exact (untouched_prepared_iff hp).mp hun (not_not.mp hchanges)
          · rw [hfree.mpr hfull] at hfd
            cases hfd
        · intro h
          obtain ⟨-, hor⟩ := h dentry rfl
          rw [OpenClean, hret]
          refine ⟨fun hnull => (by cases hnull), fun r s' hrun hneg => ?_⟩
          cases hrun
          rcases openDentry_cases s call.flag p hops with ⟨hfull, heq⟩ | ⟨fd, -, heq⟩
          · rw [heq]
            exact (untouched_prepared_iff hp).mpr (hor.resolve_left (hfree.mp hfull))
          · rw [heq] at hneg
            -- a descriptor is no error
            exact absurd hneg (by simp)

/-- The path `/` leads to the root. -/
theorem openTarget_slash (sb : SbInfo) (s : Descriptors) (call : s.OpenCall)
    (hpath : userPath call.mem call.filename = some [47]) (hpage : call.pathPage = true)
    (hflag : call.flag &&& O_DIRECTORY ≠ 0) :
    openTarget sb s call = some (.inr (.root (rootNode s.root.firstCluster))) := by
  have hentry : openEntry call.flag (some (.root (rootNode s.root.firstCluster)))
      = .inr (.root (rootNode s.root.firstCluster)) := by
    unfold openEntry
    dsimp only
    rw [if_neg (fun h => hflag h.1), if_neg (fun h => h.2 rfl)]
  have hwalk : (s.walkEnv sb call).walk [47]
      = some (.returned (some (.root (rootNode s.root.firstCluster)))) := walk_slash _
  rcases openTarget_userPath sb s call hpage with ⟨hnone, -⟩ | ⟨path, hsome, htarget⟩
  · rw [hnone] at hpath
    cases hpath
  · rw [hsome] at hpath
    obtain rfl := Option.some.inj hpath
    rw [htarget, hwalk]
    exact congrArg some hentry

/-- What the run of all tasks sees of a call. -/
def OpenCall.args {s : Descriptors} (call : s.OpenCall) : OpenArgs :=
  ⟨call.disk, call.mem, call.filename, call.flag, call.memory, call.fuel, call.filp.isSome,
    s.freeHandle.isSome⟩

/-- The new file object, and the root, are those of `OpenFiles.openDentry`. -/
theorem prepared_openDentry (s : Descriptors) (call : s.OpenCall) (dentry : DirEntry FoundNode)
    (p : Nat) (files : List FileHandle) :
    let s' := s.prepared dentry call.flag p
    OpenFiles.openDentry ⟨s.root, files⟩ call.args dentry =
      ⟨s'.root, if s.freeHandle.isSome then files ++ [⟨(s'.file p).dirNode, (s'.file p).position⟩]
        else files⟩ := by
  have hnew : (s.newFile p ⟨ownNode dentry, call.flag, 0, .fat32⟩).file p
      = ⟨ownNode dentry, call.flag, 0, .fat32⟩ := by
    unfold newFile
    dsimp only
    rw [Function.update_self]
  unfold OpenFiles.openDentry prepared seekEnd nodeOf truncate
  dsimp only
  rw [hnew]
  cases dentry with
  | root node =>
      rw [show ownNode (.root node) = none from rfl] at hnew
      dsimp only [ownNode]
      rw [Function.update_self, hnew]
      rfl
  | child name node parent =>
      dsimp only [ownNode]
      rw [Function.update_self, Function.update_self]
      rfl

/-- **A call of `sys_open` in the run of all tasks.** -/
theorem sysOpen_openFiles {sb : SbInfo} {s s' : Descriptors} {call : s.OpenCall}
    (hpage : call.pathPage = true) {r : Int} (h : sysOpen sb s call = .returned r s')
    (files : List FileHandle) :
    (r < 0 ∧ OpenFiles.sysOpen sb ⟨s.root, files⟩ call.args = some ⟨s'.root, files⟩) ∨
    ∃ (fd p : Nat), r = fd ∧ s'.handleArray fd = some p ∧
      OpenFiles.sysOpen sb ⟨s.root, files⟩ call.args
        = some ⟨s'.root, files ++ [⟨(s'.file p).dirNode, (s'.file p).position⟩]⟩ := by
  unfold OpenFiles.sysOpen
  rw [show call.args.mem = call.mem from rfl, show call.args.filename = call.filename from rfl,
    show OpenFiles.walkEnv sb ⟨s.root, files⟩ call.args = s.walkEnv sb call from rfl]
  rcases openTarget_userPath sb s call hpage with ⟨hpath, error, hneg, herror⟩ | ⟨path, hpath, htarget⟩
  · rw [sysOpen_of_inl herror] at h
    cases h
    rw [hpath]
    exact .inl ⟨hneg, rfl⟩
  · rw [hpath]
    dsimp only
    cases hwalk : (s.walkEnv sb call).walk path with
    | none =>
        rw [hwalk] at htarget
        rw [sysOpen, htarget] at h
        cases h
    | some result =>
        rw [hwalk] at htarget
        cases result with
        | outside =>
            rw [sysOpen, htarget] at h
            cases h
        | returned walked =>
            dsimp only at htarget ⊢
            rw [show call.args.flag = call.flag from rfl]
            cases hentry : openEntry call.flag walked with
            | inl error =>
                rw [hentry] at htarget
                rw [sysOpen_of_inl htarget] at h
                cases h
                exact .inl ⟨openEntry_neg hentry, rfl⟩
            | inr dentry =>
                rw [hentry] at htarget
                cases hfilp : call.filp with
                | none =>
                    rw [sysOpen, htarget] at h
                    dsimp only at h
                    rw [hfilp] at h
                    cases h
                | some p =>
                    rw [sysOpen_of_inr htarget hfilp] at h
                    dsimp only
                    rw [if_pos (show call.args.filp = true by rw [OpenCall.args, hfilp]; rfl),
                      prepared_openDentry s call dentry p files]
                    rcases openDentry_cases s call.flag p (openTarget_ops htarget) with
                      ⟨hfull, heq⟩ | ⟨fd, hfd, heq⟩
                    · rw [heq] at h
                      cases h
                      rw [hfull]
                      exact .inl ⟨show -(EMFILE : Int) < 0 by decide, rfl⟩
                    · rw [heq] at h
                      cases h
                      rw [hfd]
                      exact .inr ⟨fd, p, rfl, Function.update_self .., rfl⟩

/-- A table without a free handle, and a root to which 512 bytes have been written. -/
def fullTable : Descriptors where
  handleArray i := some i
  file _ := ⟨none, 0, 0, .fat32⟩
  heap := ⟨Finset.range 20, false⟩
  root := { rootNode 5 with fileSize := 512 }
  kbib := keyboardInit newBuffer

/-- The root is to be opened with `O_TRUNC`. -/
def truncatingOpen : fullTable.OpenCall where
  mem := slashMem
  filename := 0
  flag := O_DIRECTORY ||| O_TRUNC
  disk := exampleDisk
  pathPage := true
  memory := ⟨fun _ _ => true, fun _ _ => true, fun _ _ => true⟩
  fuel := 1
  filp := some 20
  fresh := by
    intro p hp
    cases hp
    decide

/-- The call fails, and the root has lost its contents. -/
theorem fullTable_truncates : ¬ OpenClean exampleSb fullTable truncatingOpen := by
  have htarget := openTarget_slash exampleSb fullTable truncatingOpen slashMem_path rfl (by decide)
  have hchanges : fullTable.OpenChanges (.root (rootNode 5)) truncatingOpen.flag :=
    ⟨rfl, by decide, by decide⟩
  rintro ⟨-, hclean⟩
  have hret := @sysOpen_of_inr _ _ _ _ 20 htarget rfl
  rcases openDentry_cases fullTable truncatingOpen.flag 20 (openTarget_ops htarget) with
    ⟨-, heq⟩ | ⟨fd, hfd, -⟩
  · rw [heq] at hret
    have hun := hclean _ _ hret (show -(EMFILE : Int) < 0 by decide)
    exact (untouched_prepared_iff (truncatingOpen.fresh 20 rfl)).mp hun hchanges
  · have hfull : fullTable.freeHandle = none := by decide
    rw [hfull] at hfd
    cases hfd

/-- What a call does that is given a descriptor of a handle that is null. -/
theorem onHandle_null {s : Descriptors} {fd : Int} (h0 : 0 ≤ fd) (h1 : fd < MAX_HANDLE_PER_TASK)
    (hnull : s.handleArray fd.toNat = none) (call : Nat → Int × Descriptors) :
    s.onHandle fd none call = none := by
  unfold onHandle
  rw [if_neg (by omega), hnull]
  rfl

/-- What it does with a descriptor that is none of the table. -/
theorem onHandle_outside {s : Descriptors} {fd : Int} (h : fd < 0 ∨ (MAX_HANDLE_PER_TASK : Int) ≤ fd)
    (check : Option Int) (call : Nat → Int × Descriptors) :
    s.onHandle fd check call = some (-(EBADF : Int), s) := by
  unfold onHandle
  exact if_pos h

/-- In whatever state runs of `sys_open` and `sys_close` come to, every call rejects a descriptor
that does not stand for an open file, if and only if it is not one of a null handle of the table. -/
theorem closed_descriptor_rejected (ops : Operations) (s : Descriptors) (fd : Int) :
    (s.Closed fd → s.Rejects ops fd) ↔
      ¬ (0 ≤ fd ∧ fd < MAX_HANDLE_PER_TASK ∧ s.handleArray fd.toNat = none) := by
  constructor
  · rintro h ⟨h0, h1, hnull⟩
    have hclose := (h (.inr (.inr hnull))).close
    rw [sysClose, onHandle_null h0 h1 hnull] at hclose
    cases hclose
  · intro h hclosed
    have hout : fd < 0 ∨ (MAX_HANDLE_PER_TASK : Int) ≤ fd := by
      rcases hclosed with hlt | hge | hnull
      · exact .inl hlt
      · exact .inr hge
      · by_contra hin
        exact h ⟨by omega, by omega, hnull⟩
    exact {
      close := onHandle_outside hout ..
      ioctl := fun _ _ => onHandle_outside hout ..
      read := fun _ _ => onHandle_outside hout ..
      write := fun _ _ => onHandle_outside hout ..
      lseek := fun _ _ => onHandle_outside hout ..
      getdents := fun _ _ => onHandle_outside hout .. }

/-- A table without handles. -/
def emptyTable : Descriptors where
  handleArray _ := none
  file _ := ⟨none, 0, 0, .fat32⟩
  heap := ⟨∅, false⟩
  root := rootNode 5
  kbib := keyboardInit newBuffer

/-- The root is to be opened. -/
def plainOpen : emptyTable.OpenCall where
  mem := slashMem
  filename := 0
  flag := O_DIRECTORY
  disk := exampleDisk
  pathPage := true
  memory := ⟨fun _ _ => true, fun _ _ => true, fun _ _ => true⟩
  fuel := 1
  filp := some 7
  fresh := fun _ _ => Finset.notMem_empty _

/-- Operations that do nothing. -/
def idle : Operations where
  ioctl _ _ _ s := (0, s)
  read _ _ _ s := (0, s)
  write _ _ _ s := (0, s)
  lseek _ _ _ s := (0, s)
  readdir _ _ s := (0, s)
  res := 0

/-- The root is opened as descriptor 0 and closed. To close it once more follows a null pointer. -/
theorem closed_twice :
    ∃ s, Reachable exampleSb idle s ∧ s.Closed 0 ∧ s.sysClose idle 0 = none ∧
      ¬ s.Rejects idle 0 := by
  have htarget := openTarget_slash exampleSb emptyTable plainOpen slashMem_path rfl (by decide)
  have hopen : Reachable exampleSb idle
      (emptyTable.openDentry (.root (rootNode 5)) O_DIRECTORY 7).2 :=
    .openFile (.init emptyTable fun _ => rfl) plainOpen (sysOpen_of_inr htarget rfl)
  have hnull : (((emptyTable.openDentry (.root (rootNode 5)) O_DIRECTORY 7).2.sysClose idle 0).map
      fun r => r.2.handleArray 0) = some none := rfl
  obtain ⟨⟨r, s⟩, hclose, hs⟩ := Option.map_eq_some_iff.mp hnull
  have htwice : s.sysClose idle 0 = none := onHandle_null (le_refl 0) (by decide) hs _
  refine ⟨s, hopen.close 0 hclose, .inr (.inr hs), htwice, fun h => ?_⟩
  rw [h.close] at htwice
  cases htwice

end Descriptors

end Talios
