import Talios.Fs.Fat32Entry
import Talios.Fs.DirClusters
import Talios.Fs.PathWalk

set_option autoImplicit false

/-! # Paths through files

`path_walk` on a FAT32 volume. Nothing in it asks whether a name in the middle of a path is that of a
directory: the next name is looked up in whatever has been found. But `fat32_lookup` has cleared the
super block of every node but the root, so that the next lookup reads through a null pointer, before
any data is read.
-/

namespace Talios

open Bytes Word

/-! ## The walk on a volume -/

/-- `parent->dir_node->inode_ops->lookup`; none where it does not return, which is so for a node
without super block. -/
def nodeLookup (sb : SbInfo) (disk : Buffer) (fuel : Nat) (node : FoundNode) (name : List UInt8) :
    Option (Option FoundNode) :=
  if node.sb then
    match fat32Lookup sb disk node.inode name fuel with
    | some .missing => some none
    | some (.found found) => some (some found)
    | _ => none
  else none

/-- The node of `fsb->root`, as `fat32_read_superblock` makes it. -/
def rootNode (rootClus : Nat) : FoundNode := ⟨0, 0, FS_ATTR_DIR, true, rootClus, 0, 0, 0, 0, 0, 0⟩

/-- `path_walk`, with a bound on the rounds of each lookup. -/
def fatWalk (sb : SbInfo) (disk : Buffer) (rootClus : Nat) (path : List UInt8) (fuel : Nat) :
    Option (WalkResult FoundNode) :=
  pathWalk (nodeLookup sb disk fuel) (rootNode rootClus) path

/-! ## Directories and files -/

/-- `ATTR_DIRECTORY` is set. -/
def entryDirectory (e : Buffer) : Prop := (e 11).toNat / 16 % 2 = 1

/-- The entry of a regular file or of a device: neither a directory nor a volume label. -/
def entryFile (e : Buffer) : Prop := (e 11).toNat / 16 % 2 = 0 ∧ (e 11).toNat / 8 % 2 = 0

/-- The names lead from a node to another one, with directories in between. -/
inductive Resolves (sb : SbInfo) (disk : Buffer) : FoundNode → List (List UInt8) → FoundNode → Prop
  | last {node found : FoundNode} {name : List UInt8} {fuel : Nat}
      (hfound : fat32Lookup sb disk node.inode name fuel = some (.found found)) :
      Resolves sb disk node [name] found
  | next {node found last : FoundNode} {name : List UInt8} {names : List (List UInt8)} {fuel : Nat}
      (hfound : fat32Lookup sb disk node.inode name fuel = some (.found found))
      (hdir : entryDirectory (found.entry sb disk))
      (hrest : Resolves sb disk found names last) : Resolves sb disk node (name :: names) last

/-- A name of the path that is not the last is that of a file. -/
def ThroughFile (sb : SbInfo) (disk : Buffer) (rootClus : Nat) (path : List UInt8) : Prop :=
  ∃ pre post node, components path = pre ++ post ∧ post ≠ [] ∧
    Resolves sb disk (rootNode rootClus) pre node ∧ entryFile (node.entry sb disk)

/-- The clusters of the directories of a volume. -/
inductive InDirectory (sb : SbInfo) (disk : Buffer) (rootClus : Nat) : Nat → Prop
  | root {n c : Nat} (hc : c ∈ clusters sb disk n (rootClus % 2 ^ 28)) :
      InDirectory sb disk rootClus c
  | sub {c c' n : Nat} {e : Buffer} (hdir : InDirectory sb disk rootClus c)
      (he : e ∈ clusterSlots sb disk c) (hused : slotUsed e = true) (hattr : entryDirectory e)
      (hc : c' ∈ clusters sb disk n (entryCluster e % 2 ^ 28)) : InDirectory sb disk rootClus c'

/-- Two volumes that agree on their directories. Two that differ in the data of regular files only
are such. -/
def SameDirectories (sb : SbInfo) (disk disk' : Buffer) (rootClus : Nat) : Prop :=
  ∀ c, InDirectory sb disk rootClus c →
    fat32TableRead sb disk' c = fat32TableRead sb disk c ∧ ClusterSame sb c disk disk'

/-- Only directories are gone through: a path through a file is refused, and the data of files does
not matter. -/
structure OnlyDirectories (sb : SbInfo) (disk : Buffer) (rootClus : Nat) (path : List UInt8) :
    Prop where
  refused : ThroughFile sb disk rootClus path →
    ∃ fuel, fatWalk sb disk rootClus path fuel = some (.returned none)
  blind : ∀ disk', SameDirectories sb disk disk' rootClus → ∀ r,
    (∃ fuel, fatWalk sb disk rootClus path fuel = some r) ↔
      ∃ fuel, fatWalk sb disk' rootClus path fuel = some r

/-! ## Lookups -/

section

variable {sb : SbInfo} {disk disk' : Buffer}

theorem ideRead_congr {clus : Nat} (h : ClusterSame sb clus disk disk') :
    ideRead disk' (clusToLba sb clus) sb.secPerClus newBuffer
      = ideRead disk (clusToLba sb clus) sb.secPerClus newBuffer := by
  have hb : sb.secPerClus * BYTE_PER_VSEC = sb.bytePerClus := sb.bytePerClus_eq_mul.symm
  unfold ideRead
  rw [hb]
  exact overlay_congr _ h

/-- A search reads the clusters of the directory and their links only. -/
theorem lookupLoop_congr (name : List UInt8) : ∀ (fuel clus : Nat) (lnameBuf : Buffer),
    (∀ n, ∀ c ∈ clusters sb disk n clus,
      fat32TableRead sb disk' c = fat32TableRead sb disk c ∧ ClusterSame sb c disk disk') →
    lookupLoop sb disk' name fuel clus lnameBuf = lookupLoop sb disk name fuel clus lnameBuf
  | 0, _, _, _ => rfl
  | fuel + 1, clus, lnameBuf, h => by
      rw [lookupLoop, lookupLoop]
      by_cases hc : clus = 0
      · rw [if_pos hc, if_pos hc]
      rw [if_neg hc, if_neg hc]
      have hself := h 1 clus (by rw [clusters_succ 0 hc]; exact List.mem_cons_self)
      dsimp only
      rw [ideRead_congr hself.2, hself.1]
      split
      · rfl
      · rfl
      · apply lookupLoop_congr name fuel
        intro n c hmem
        exact h (n + 1) c (by rw [clusters_succ n hc]; exact List.mem_cons_of_mem _ hmem)

/-- More rounds do not change what has been found. -/
theorem lookupLoop_mono (name : List UInt8) (k : Nat) {r : LookupResult} :
    ∀ (fuel clus : Nat) (lnameBuf : Buffer), lookupLoop sb disk name fuel clus lnameBuf = some r →
    lookupLoop sb disk name (fuel + k) clus lnameBuf = some r
  | 0, _, _, h => nomatch h
  | fuel + 1, clus, lnameBuf, h => by
      have hadd : fuel + 1 + k = fuel + k + 1 := by omega
      rw [hadd]
      rw [lookupLoop] at h ⊢
      by_cases hc : clus = 0
      · rw [if_pos hc] at h ⊢
        exact h
      rw [if_neg hc] at h ⊢
      dsimp only at h ⊢
      split at h
      · exact h
      · exact h
      · exact lookupLoop_mono name k fuel _ _ h

/-- Two searches for a name agree. -/
theorem fat32Lookup_unique {inode : Inode} {name : List UInt8} {fuel fuel' : Nat}
    {r r' : LookupResult} (h : fat32Lookup sb disk inode name fuel = some r)
    (h' : fat32Lookup sb disk inode name fuel' = some r') : r = r' := by
  have h1 := lookupLoop_mono _ fuel' _ _ _ h
  have h2 := lookupLoop_mono _ fuel _ _ _ h'
  rw [Nat.add_comm fuel' fuel] at h2
  exact Option.some.inj (h1.symm.trans h2)

theorem nodeLookup_root (rootClus : Nat) (name : List UInt8) (fuel : Nat) :
    nodeLookup sb disk fuel (rootNode rootClus) name =
      match fat32Lookup sb disk (rootNode rootClus).inode name fuel with
      | some .missing => some none
      | some (.found found) => some (some found)
      | _ => none := if_pos rfl

/-- Nothing is looked up in a node that has been found. -/
theorem nodeLookup_found {node found : FoundNode} {name : List UInt8} {fuel fuel' : Nat}
    (h : fat32Lookup sb disk node.inode name fuel = some (.found found)) (name' : List UInt8) :
    nodeLookup sb disk' fuel' found name' = none := by
  have hsb := (fat32Lookup_found h).1.sb
  unfold nodeLookup
  rw [hsb]
  rfl

/-! ## The walk looks into the root only -/

/-- Behind a node in which nothing is looked up the walk ends: with this node where no name is left. -/
theorem pathWalkLoop_stuck {ν : Type} {lookup : ν → List UInt8 → Option (Option ν)}
    {parent : DirEntry ν} (h : ∀ name, lookup parent.dirNode name = none) {rest : List UInt8}
    (h0 : 0 ∉ rest) :
    pathWalkLoop lookup rest parent (some parent) =
      match components rest with
      | [] => some (.returned (some parent))
      | name :: _ => if NAME_SIZE ≤ name.length then some .outside else none := by
  by_cases hnil : rest = []
  · rw [hnil, pathWalkLoop_nil, components_nil]
    rfl
  rcases @pathWalkLoop_step _ _ _ lookup _ h0 hnil parent (some parent) with
    ⟨hcomp, hloop⟩ | ⟨name, rest', hcomp, -, -, hloop⟩
  · rw [hloop, hcomp]
    rfl
  · rw [hloop, hcomp, h]
    rfl

theorem nodeLookup_eq_some {rootClus fuel : Nat} {name : List UInt8} {found : FoundNode}
    (h : nodeLookup sb disk fuel (rootNode rootClus) name = some (some found)) :
    fat32Lookup sb disk (rootNode rootClus).inode name fuel = some (.found found) := by
  rw [nodeLookup_root] at h
  split at h
  · cases h
  · rename_i hf
    cases h
    exact hf
  · cases h

/-- What comes of the first name. -/
def afterFirst (rootClus : Nat) (name : List UInt8) (names : List (List UInt8)) :
    Option (Option FoundNode) → Option (WalkResult FoundNode)
  | none => none
  | some none => some (.returned none)
  | some (some node) =>
      match names with
      | [] => some (.returned (some (.child name node (.root (rootNode rootClus)))))
      | name' :: _ => if NAME_SIZE ≤ name'.length then some .outside else none

/-- The walk looks up one name, in the root. -/
theorem fatWalk_cons {rootClus : Nat} {path name : List UInt8} {names : List (List UInt8)}
    (h0 : 0 ∉ path) (hcomp : components path = name :: names) (fuel : Nat) :
    fatWalk sb disk rootClus path fuel = if NAME_SIZE ≤ name.length then some .outside
      else afterFirst rootClus name names (nodeLookup sb disk fuel (rootNode rootClus) name) := by
  have hnil : path ≠ [] := by
    rintro rfl
    rw [components_nil] at hcomp
    cases hcomp
  unfold fatWalk pathWalk
  rcases @pathWalkLoop_step _ _ _ (nodeLookup sb disk fuel) _ h0 hnil
    (.root (rootNode rootClus)) none with ⟨hc, -⟩ | ⟨name', rest, hc, hrest, -, hloop⟩
  · rw [hc] at hcomp
    cases hcomp
  rw [hc] at hcomp
  cases (List.cons.inj hcomp).1
  rw [hloop, ← (List.cons.inj hcomp).2]
  split
  · rfl
  cases hn : nodeLookup sb disk fuel (rootNode rootClus) name with
  | none =>
      rw [show (DirEntry.root (rootNode rootClus)).dirNode = rootNode rootClus from rfl, hn]
      rfl
  | some r =>
      rw [show (DirEntry.root (rootNode rootClus)).dirNode = rootNode rootClus from rfl, hn]
      cases r with
      | none => rfl
      | some node =>
          have hf := nodeLookup_eq_some hn
          exact pathWalkLoop_stuck (fun name => nodeLookup_found hf name) hrest

/-- **The walk reads the directories only**, and of these only the root. -/
theorem fatWalk_congr {rootClus : Nat} (h : SameDirectories sb disk disk' rootClus)
    {path : List UInt8} (h0 : 0 ∉ path) (fuel : Nat) :
    fatWalk sb disk' rootClus path fuel = fatWalk sb disk rootClus path fuel := by
  have hlookup : ∀ name, nodeLookup sb disk' fuel (rootNode rootClus) name
      = nodeLookup sb disk fuel (rootNode rootClus) name := by
    intro name
    have hclus : (rootNode rootClus).inode.firstCluster = rootClus := rfl
    rw [nodeLookup_root, nodeLookup_root]
    unfold fat32Lookup
    rw [hclus, lookupLoop_congr _ fuel _ _ (fun n c hc => h c (.root hc))]
  cases hcomp : components path with
  | nil =>
      by_cases hnil : path = []
      · unfold fatWalk pathWalk
        rw [hnil, pathWalkLoop_nil, pathWalkLoop_nil]
      · have hend : ∀ d, fatWalk sb d rootClus path fuel
            = some (.returned (some (.root (rootNode rootClus)))) := by
          intro d
          rcases @pathWalkLoop_step _ _ _ (nodeLookup sb d fuel) _ h0 hnil
            (.root (rootNode rootClus)) none with ⟨-, hloop⟩ | ⟨name', rest, hc, -⟩
          · exact hloop
          · rw [hcomp] at hc
            cases hc
        rw [hend, hend]
  | cons name names => rw [fatWalk_cons h0 hcomp, fatWalk_cons h0 hcomp, hlookup]

/-- A path through a file is never refused. -/
theorem fatWalk_not_refused {rootClus : Nat} {path : List UInt8} (h0 : 0 ∉ path)
    (h : ThroughFile sb disk rootClus path) (fuel : Nat) :
    fatWalk sb disk rootClus path fuel ≠ some (.returned none) := by
  rcases h with ⟨pre, post, node, hpath, hpost, hres, -⟩
  -- the first name is found, and there is another behind it
  have hfirst : ∃ name name' names found fuel', components path = name :: name' :: names ∧
      fat32Lookup sb disk (rootNode rootClus).inode name fuel' = some (.found found) := by
    rcases List.exists_cons_of_ne_nil hpost with ⟨p, post', rfl⟩
    cases hres with
    | last hfound => exact ⟨_, p, post', _, _, hpath, hfound⟩
    | next hfound hdir hrest =>
        cases hrest with
        | last hfound' => exact ⟨_, _, p :: post', _, _, hpath, hfound⟩
        | next hfound' hdir' hrest' => exact ⟨_, _, _, _, _, hpath, hfound⟩
  rcases hfirst with ⟨name, name', names, found, fuel', hcomp, hfound⟩
  rw [fatWalk_cons h0 hcomp]
  split
  · exact fun heq => nomatch heq
  cases hn : nodeLookup sb disk fuel (rootNode rootClus) name with
  | none => exact fun heq => nomatch heq
  | some r =>
      cases r with
      | none =>
          rw [nodeLookup_root] at hn
          split at hn
          · rename_i hmissing
            cases fat32Lookup_unique hmissing hfound
          · cases hn
          · cases hn
      | some node' =>
          unfold afterFirst
          dsimp only
          split
          · exact fun heq => nomatch heq
          · exact fun heq => nomatch heq

/-- **Only directories are gone through** where the path does not lead through a file: one that does is
not refused. -/
theorem pathWalk_onlyDirectories (sb : SbInfo) (disk : Buffer) (rootClus : Nat) (path : List UInt8)
    (h0 : 0 ∉ path) :
    OnlyDirectories sb disk rootClus path ↔ ¬ ThroughFile sb disk rootClus path := by
  constructor
  · intro h hfile
    rcases h.refused hfile with ⟨fuel, hfuel⟩
    exact fatWalk_not_refused h0 hfile fuel hfuel
  · intro hnot
    refine ⟨fun hfile => absurd hfile hnot, fun disk' hsame r => ?_⟩
    apply exists_congr
    intro fuel
    rw [fatWalk_congr hsame h0]

end

/-- The path `A/B`, where `A` is a file of 100 bytes. -/
theorem entryDisk_throughFile : ThroughFile exampleSb entryDisk 2 [65, 47, 66] :=
  ⟨[[65]], [[66]], entryNode, by decide, by decide, .last entryNode_found, by decide +kernel,
    by decide +kernel⟩

theorem pathWalk_onlyDirectories_example :
    ¬ OnlyDirectories exampleSb entryDisk 2 [65, 47, 66] :=
  fun h => (pathWalk_onlyDirectories exampleSb entryDisk 2 [65, 47, 66] (by decide)).mp h
    entryDisk_throughFile

/-- The path is not refused. -/
theorem pathWalk_through_file : ¬ ∀ (sb : SbInfo) (disk : Buffer) (rootClus : Nat)
    (path : List UInt8), 0 ∉ path → OnlyDirectories sb disk rootClus path := by
  intro hall
  rcases (hall exampleSb entryDisk 2 [65, 47, 66] (by decide)).refused entryDisk_throughFile with
    ⟨fuel, hfuel⟩
  exact fatWalk_not_refused (by decide) entryDisk_throughFile fuel hfuel

end Talios
