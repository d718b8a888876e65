import Talios.Fs.PathFiles

set_option autoImplicit false

/-! # What a path opens

`path_walk` from `fsb->root` on, with what its calls of `kmalloc` return, and the checks of the kind of
what it finds. As `fat32_lookup` clears the first fields of every node that it makes, a walk that
returns an entry has found the root, or a node without size and super block whose kind is
`FS_ATTR_DIR` (`walk_cases`).
-/

namespace Talios

open Bytes Word

def ENOENT : Nat := 2
def ENOTDIR : Nat := 20
def EISDIR : Nat := 21

def O_TRUNC : BitVec 32 := 0o001000
def O_APPEND : BitVec 32 := 0o002000
def O_DIRECTORY : BitVec 32 := 0o040000

/-! ## The walk -/

/-- Whether `kmalloc` has memory when a name is looked up in a node: for the entry and its name, in
`path_walk`; for the buffer, and for the node, in `fat32_lookup`. -/
structure WalkMemory where
  entry : FoundNode → List UInt8 → Bool
  buffer : FoundNode → List UInt8 → Bool
  node : FoundNode → List UInt8 → Bool

/-- What a walk meets: the volume, the first cluster of its root, the memory, and a bound on the
rounds of each lookup. -/
structure WalkEnv where
  sb : SbInfo
  disk : Buffer
  rootClus : Nat
  memory : WalkMemory
  fuel : Nat

namespace WalkEnv

variable (env : WalkEnv)

/-- The loop of `path_walk` up to the result of `lookup`: without an entry it gives up. `fat32_lookup`
does not look at the results of `kmalloc`, and goes on with a null pointer. -/
def lookup (node : FoundNode) (name : List UInt8) : Option (Option FoundNode) :=
  if env.memory.entry node name = false then some none
  else if env.memory.buffer node name = false then none
  else
    match nodeLookup env.sb env.disk env.fuel node name with
    | some (some found) => if env.memory.node node name then some (some found) else none
    | r => r

/-- `path_walk`. -/
def walk (path : List UInt8) : Option (WalkResult FoundNode) :=
  pathWalk env.lookup (rootNode env.rootClus) path

end WalkEnv

/-- What `sys_open` makes of the result of `path_walk`: an error, or the entry to be opened. -/
def openEntry (flag : BitVec 32) : Option (DirEntry FoundNode) → Int ⊕ DirEntry FoundNode
  | none => .inl (-(ENOENT : Int))
  | some dentry =>
      let attr := dentry.dirNode.nodeAttribute
      if flag &&& O_DIRECTORY = 0 ∧ attr = FS_ATTR_DIR then .inl (-(EISDIR : Int))
      else if flag &&& O_DIRECTORY ≠ 0 ∧ attr ≠ FS_ATTR_DIR then .inl (-(ENOTDIR : Int))
      else .inr dentry

/-- The node of the entry behind the branch of `O_TRUNC`. -/
def truncatedNode (flag : BitVec 32) (node : FoundNode) : FoundNode :=
  if flag &&& O_TRUNC ≠ 0 then { node with fileSize := 0 } else node

/-- The position of the file object behind the branch of `O_APPEND`. -/
def openPosition (flag : BitVec 32) (node : FoundNode) : Nat :=
  if flag &&& O_APPEND ≠ 0 then node.fileSize else 0

/-! ## What is found -/

/-- A node as `fat32_lookup` leaves it. -/
structure Cleared (node : FoundNode) : Prop where
  fileSize : node.fileSize = 0
  nodeAttribute : node.nodeAttribute = FS_ATTR_DIR
  sb : node.sb = false

section

variable {env : WalkEnv} {path : List UInt8}

theorem nodeLookup_cleared {sb : SbInfo} {disk : Buffer} {fuel : Nat} {node found : FoundNode}
    {name : List UInt8} (h : nodeLookup sb disk fuel node name = some (some found)) :
    Cleared found := by
  unfold nodeLookup at h
  split_ifs at h
  split at h
  · cases h
  · rename_i hl
    cases h
    have hl := (fat32Lookup_found hl).1
    exact ⟨hl.fileSize, hl.nodeAttribute, hl.sb⟩
  · cases h

theorem lookup_found {node found : FoundNode} {name : List UInt8}
    (h : env.lookup node name = some (some found)) : Cleared found := by
  unfold WalkEnv.lookup at h
  cases hn : nodeLookup env.sb env.disk env.fuel node name with
  | none =>
      rw [hn] at h
      split_ifs at h
      cases h
  | some r =>
      rw [hn] at h
      cases r with
      | none => split_ifs at h <;> cases h
      | some f =>
          dsimp only at h
          split_ifs at h
          · cases h
          · cases h
            exact nodeLookup_cleared hn

/-- In such a node nothing is found. -/
theorem lookup_cleared {node : FoundNode} (h : Cleared node) (name : List UInt8) :
    env.lookup node name = none ∨ env.lookup node name = some none := by
  have hn : nodeLookup env.sb env.disk env.fuel node name = none := by
    unfold nodeLookup
    rw [h.sb]
    rfl
  unfold WalkEnv.lookup
  rw [hn]
  split_ifs <;> simp

/-- Behind a node in which nothing is found the walk comes to its end, if it returns an entry. -/
theorem pathWalkLoop_end {ν : Type} {lookup : ν → List UInt8 → Option (Option ν)}
    {parent : DirEntry ν}
    (h : ∀ name, lookup parent.dirNode name = none ∨ lookup parent.dirNode name = some none)
    {rest : List UInt8} (h0 : 0 ∉ rest) {dentry : DirEntry ν}
    (hret : pathWalkLoop lookup rest parent (some parent) = some (.returned (some dentry))) :
    dentry = parent := by
  by_cases hnil : rest = []
  · rw [hnil, pathWalkLoop_nil] at hret
    cases hret
    rfl
  rcases @pathWalkLoop_step _ _ _ lookup _ h0 hnil parent (some parent) with
    ⟨-, hloop⟩ | ⟨name, rest', -, -, -, hloop⟩
  · rw [hloop] at hret
    cases hret
    rfl
  · rw [hloop] at hret
    split_ifs at hret
    · cases hret
    · rcases h name with hn | hn
      · rw [hn] at hret
        cases hret
      · rw [hn] at hret
        cases hret

/-- **What a walk returns**: no entry, the root, or an entry of the root whose node has been
cleared. -/
theorem walk_cases (h0 : 0 ∉ path) {dentry : DirEntry FoundNode}
    (h : env.walk path = some (.returned (some dentry))) :
    dentry = .root (rootNode env.rootClus) ∨
      ∃ name node, dentry = .child name node (.root (rootNode env.rootClus)) ∧ Cleared node := by
  unfold WalkEnv.walk pathWalk at h
  by_cases hnil : path = []
  · rw [hnil, pathWalkLoop_nil] at h
    cases h
  rcases @pathWalkLoop_step _ _ _ env.lookup _ h0 hnil (.root (rootNode env.rootClus)) none with
    ⟨-, hloop⟩ | ⟨name, rest, -, hrest, -, hloop⟩
  · rw [hloop] at h
    cases h
    exact .inl rfl
  · rw [hloop] at h
    split_ifs at h
    · cases h
    · rw [show (DirEntry.root (rootNode env.rootClus)).dirNode = rootNode env.rootClus from rfl] at h
      cases hn : env.lookup (rootNode env.rootClus) name with
      | none =>
          rw [hn] at h
          cases h
      | some r =>
          rw [hn] at h
          cases r with
          | none => cases h
          | some node =>
              have hnode := lookup_found hn
              have hend := @pathWalkLoop_end _ env.lookup
                (.child name node (.root (rootNode env.rootClus))) (lookup_cleared hnode)
              exact .inr ⟨name, node, hend hrest h, hnode⟩

/-- So its kind is that of a directory. -/
theorem walk_directory (h0 : 0 ∉ path) {dentry : DirEntry FoundNode}
    (h : env.walk path = some (.returned (some dentry))) :
    dentry.dirNode.nodeAttribute = FS_ATTR_DIR := by
  rcases walk_cases h0 h with rfl | ⟨name, node, rfl, hnode⟩
  · rfl
  · exact hnode.nodeAttribute

/-- The entry to be opened is the one found. -/
theorem openEntry_eq_inr {flag : BitVec 32} {walked : Option (DirEntry FoundNode)}
    {dentry : DirEntry FoundNode} (h : openEntry flag walked = .inr dentry) :
    walked = some dentry := by
  cases walked with
  | none => cases h
  | some d =>
      unfold openEntry at h
      dsimp only at h
      split_ifs at h
      exact congrArg some (Sum.inr.inj h)

theorem openEntry_neg {flag : BitVec 32} {walked : Option (DirEntry FoundNode)} {error : Int}
    (h : openEntry flag walked = .inl error) : error < 0 := by
  cases walked with
  | none =>
      cases h
      decide
  | some d =>
      unfold openEntry at h
      dsimp only at h
      split_ifs at h
      · cases h
        decide
      · cases h
        decide

/-- A position behind it is the size, or 0. -/
theorem openPosition_le (flag : BitVec 32) (node : FoundNode) :
    openPosition flag node ≤ node.fileSize := by
  unfold openPosition
  split_ifs
  · exact le_rfl
  · exact Nat.zero_le _

theorem truncatedNode_fileSize (flag : BitVec 32) (node : FoundNode) :
    (truncatedNode flag node).fileSize = if flag &&& O_TRUNC ≠ 0 then 0 else node.fileSize := by
  unfold truncatedNode
  split_ifs <;> rfl

/-- With memory for everything the walk is that of `fatWalk`. -/
theorem walk_eq_fatWalk (env : WalkEnv) (hentry : ∀ node name, env.memory.entry node name = true)
    (hbuffer : ∀ node name, env.memory.buffer node name = true)
    (hnode : ∀ node name, env.memory.node node name = true) (path : List UInt8) :
    env.walk path = fatWalk env.sb env.disk env.rootClus path env.fuel := by
  have hlookup : env.lookup = nodeLookup env.sb env.disk env.fuel := by
    funext node name
    unfold WalkEnv.lookup
    rw [hentry, hbuffer, if_neg (by decide), if_neg (by decide)]
    cases nodeLookup env.sb env.disk env.fuel node name with
    | none => rfl
    | some r =>
        cases r with
        | none => rfl
        | some found => exact if_pos (hnode node name)
  unfold WalkEnv.walk fatWalk
  rw [hlookup]

/-- The path `/` leads to the root. -/
theorem walk_slash (env : WalkEnv) :
    env.walk [47] = some (.returned (some (.root (rootNode env.rootClus)))) := by
  rcases @pathWalkLoop_step _ _ _ env.lookup [47] (by decide) (by decide)
    (.root (rootNode env.rootClus)) none with ⟨-, hloop⟩ | ⟨name, rest, hcomp, -⟩
  · exact hloop
  · rw [show components [47] = [] by decide] at hcomp
    cases hcomp

end

/-- Memory with the path `/` at address 0. -/
def slashMem : Buffer := fun a => if a = 0 then 47 else 0

theorem slashMem_path : userPath slashMem 0 = some [47] := by
  refine userPath_eq_some ⟨fun i hi => ?_, rfl, by decide⟩ (by decide) (by decide) (by decide)
  obtain rfl : i = 0 := by simpa using hi
  rfl

end Talios
