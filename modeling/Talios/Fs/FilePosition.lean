import Talios.Fs.DirListing
import Talios.Fs.OpenEntry
import Talios.Fs.OpenFile

set_option autoImplicit false

/-! # The positions of the open files

Runs of `sys_open`, `sys_close`, `sys_fork` and the calls that read or move the position of an open
file. All files that are opened at the root share its node, so that a second `sys_open` can truncate
what the first has written. Every other node belongs to the file it was found for: it has no super
block, and the calls that look for one do not return.
-/

namespace Talios

open Bytes Word

/-! ## The calls -/

/-- `file`: the `dir_node` of its dentry, none for that of `fsb->root`, and its position. -/
structure FileHandle where
  node : Option FoundNode
  position : Nat

/-- The node of `fsb->root`, and the open files of all tasks. -/
structure OpenFiles where
  root : FoundNode
  files : List FileHandle

/-- A call that takes an open file. `stale` is what the buffer of `fat32_readdir` holds at first, and
`fuel` bounds its rounds. -/
inductive PositionCall
  | read (buf count : Nat)
  | write (buf count : Nat)
  | lseek (offset whence : Int)
  | getdents (stale : Buffer) (fuel : Nat)

/-- What a `sys_open` meets: the disk, the memory of the caller with the path in it, the flags, what
`kmalloc` returns, and whether the task has a free handle. -/
structure OpenArgs where
  disk : Buffer
  mem : Buffer
  filename : Nat
  flag : BitVec 32
  memory : WalkMemory
  fuel : Nat
  filp : Bool
  freeHandle : Bool

inductive PositionEvent
  | sysOpen (a : OpenArgs)
  | sysClose (k : Nat)
  | fork (k : Nat)
  | call (disk mem : Buffer) (k : Nat) (c : PositionCall)

namespace OpenFiles

/-- `filp->dentry->dir_node`. -/
def nodeOf (s : OpenFiles) (f : FileHandle) : FoundNode := f.node.getD s.root

/-- File `k` gets a position, and its node, which other files may share, is overwritten. -/
def update (s : OpenFiles) (k : Nat) (f : FileHandle) (node : FoundNode) (position : Nat) :
    OpenFiles :=
  match f.node with
  | none => ⟨node, s.files.set k ⟨none, position⟩⟩
  | some _ => ⟨s.root, s.files.set k ⟨some node, position⟩⟩

/-- The walk of a call of `sys_open`. -/
def walkEnv (sb : SbInfo) (s : OpenFiles) (a : OpenArgs) : WalkEnv :=
  ⟨sb, a.disk, s.root.firstCluster, a.memory, a.fuel⟩

/-- The end of `sys_open`, which truncates and looks for the end before it looks for a handle. -/
def openDentry (s : OpenFiles) (a : OpenArgs) (dentry : DirEntry FoundNode) : OpenFiles :=
  match dentry with
  | .root _ =>
      let node := truncatedNode a.flag s.root
      ⟨node, if a.freeHandle then s.files ++ [⟨none, openPosition a.flag node⟩] else s.files⟩
  | .child _ found _ =>
      let node := truncatedNode a.flag found
      ⟨s.root, if a.freeHandle then s.files ++ [⟨some node, openPosition a.flag node⟩] else s.files⟩

/-- `sys_open`; `none` where it does not return. -/
def sysOpen (sb : SbInfo) (s : OpenFiles) (a : OpenArgs) : Option OpenFiles :=
  match userPath a.mem a.filename with
  | none => some s
  | some path =>
      match (s.walkEnv sb a).walk path with
      | some (.returned walked) =>
          match openEntry a.flag walked with
          | .inl _ => some s
          | .inr dentry => if a.filp then some (s.openDentry a dentry) else none
      | _ => none

end OpenFiles

/-- The node behind a write. -/
def FoundNode.setInode (node : FoundNode) (inode : Inode) : FoundNode :=
  { node with fileSize := inode.fileSize, firstCluster := inode.firstCluster }

namespace OpenFiles

/-- A call on file `k`, and the areas of memory that a read writes. `disk` and `mem` are what the disk
and the memory of the caller hold. All operations but `fat32_lseek` follow the super block of the
node: `none` where that is null, or where the call does not return. -/
def call (sb : SbInfo) (disk mem : Buffer) (s : OpenFiles) (k : Nat) (f : FileHandle) :
    PositionCall → Option (OpenFiles × List Area)
  | .read buf count =>
      if (s.nodeOf f).sb then
        let r := (fat32Read sb disk (s.nodeOf f).inode mem buf count f.position).2
        some (s.update k f (s.nodeOf f) r.position, r.areas)
      else none
  | .write buf count =>
      if (s.nodeOf f).sb then
        let r := fat32Write sb disk (s.nodeOf f).inode mem buf count f.position
        some (s.update k f ((s.nodeOf f).setInode r.1.inode) r.2.position, [])
      else none
  | .lseek offset whence =>
      if whence < 0 ∨ SEEK_MAX ≤ whence then some (s, [])
      else
        let r := (fat32Lseek ⟨(s.nodeOf f).inode, f.position⟩ offset whence).2
        some (s.update k f (s.nodeOf f) r.position, [])
  | .getdents stale fuel =>
      if (s.nodeOf f).sb then
        (fat32ReaddirAt sb disk (s.nodeOf f).inode stale fuel f.position).map
          (fun r => (s.update k f (s.nodeOf f) r.2, []))
      else none

/-- One call of a task; `fork` gives the child a file object of its own. -/
def step (sb : SbInfo) (s : OpenFiles) : PositionEvent → Option OpenFiles
  | .sysOpen a => s.sysOpen sb a
  | .sysClose k => some { s with files := s.files.eraseIdx k }
  | .fork k => s.files[k]?.map (fun f => { s with files := s.files ++ [f] })
  | .call disk mem k c => s.files[k]?.bind (fun f => (s.call sb disk mem k f c).map Prod.fst)

/-- The states reached from the mount of the volume on by calls that all meet `ok`. -/
inductive Reached (sb : SbInfo) (rootClus : Nat) (ok : OpenFiles → PositionEvent → Prop) :
    OpenFiles → Prop
  | mount : Reached sb rootClus ok ⟨rootNode rootClus, []⟩
  | step {s s' : OpenFiles} {e : PositionEvent} (h : Reached sb rootClus ok s) (hok : ok s e)
      (hs : s.step sb e = some s') : Reached sb rootClus ok s'

/-! ## When the positions stay in the files -/

/-- The call truncates the root. -/
def TruncatesRoot (sb : SbInfo) (s : OpenFiles) (a : OpenArgs) : Prop :=
  a.flag &&& O_TRUNC ≠ 0 ∧ ∃ path walked node, userPath a.mem a.filename = some path ∧
    (s.walkEnv sb a).walk path = some (.returned walked) ∧ openEntry a.flag walked = .inr (.root node)

/-- The slots that lie behind a position in the clusters of `n` rounds of `fat32_readdir`. -/
def slotsBehind (sb : SbInfo) (disk stale : Buffer) (inode : Inode) (position n : Nat) :
    List Buffer :=
  match skipClusters sb disk (position / sb.bytePerClus) inode.firstCluster with
  | none => []
  | some clus => (dirSeen sb disk stale (clusters sb disk n clus)).drop
      (position % sb.bytePerClus / DIRECTORY_SIZE)

/-- The slots behind a position, up to the first used one, end inside the file size, with 32 bytes for
each. -/
def SlotsInside (sb : SbInfo) (disk stale : Buffer) (inode : Inode) (position : Nat) : Prop :=
  ∀ n l e, l ++ [e] <+: slotsBehind sb disk stale inode position n →
    (∀ e' ∈ l, slotUsed e' = false) → position + (l.length + 1) * DIRECTORY_SIZE ≤ inode.fileSize

/-- In the state before a call: the root is truncated only while all files that are open at it are
at position 0; position and count of a read have a sum of 64 bits; and the slots that `fat32_readdir`
looks at, by which it moves the position, end inside the file size. -/
def Fits (sb : SbInfo) (s : OpenFiles) : PositionEvent → Prop
  | .sysOpen a => s.TruncatesRoot sb a → ∀ f ∈ s.files, f.node = none → f.position = 0
  | .call _ _ k (.read _ count) => ∀ f, s.files[k]? = some f → (s.nodeOf f).sb = true →
      f.position + count < 2 ^ 64
  | .call disk _ k (.getdents stale _) => ∀ f, s.files[k]? = some f → (s.nodeOf f).sb = true →
      SlotsInside sb disk stale (s.nodeOf f).inode f.position
  | _ => True

/-- The positions are in the files. -/
structure Inv (s : OpenFiles) : Prop where
  root : s.root.fileSize < 2 ^ 64
  size : ∀ f ∈ s.files, (s.nodeOf f).fileSize < 2 ^ 64
  le : ∀ f ∈ s.files, f.position ≤ (s.nodeOf f).fileSize

section

variable {sb : SbInfo} {s s' : OpenFiles} {k : Nat} {f : FileHandle}

/-- One position changes, and the file has not become shorter. -/
theorem Inv.update (h : s.Inv) {node : FoundNode} {p : Nat}
    (hle : (s.nodeOf f).fileSize ≤ node.fileSize) (hs : node.fileSize < 2 ^ 64)
    (hp : p ≤ node.fileSize) : (s.update k f node p).Inv := by
  obtain ⟨fnode, fpos⟩ := f
  cases fnode with
  | none =>
      -- the other files of the root see its new size
      refine ⟨hs, fun g hg => ?_, fun g hg => ?_⟩
      · rcases List.mem_or_eq_of_mem_set hg with hg | rfl
        · obtain ⟨_ | n, q⟩ := g
          · exact hs
          · exact h.size _ hg
        · exact hs
      · rcases List.mem_or_eq_of_mem_set hg with hg | rfl
        · obtain ⟨_ | n, q⟩ := g
          · exact (h.le _ hg).trans hle
          · exact h.le _ hg
        · exact hp
  | some n =>
      refine ⟨h.root, fun g hg => ?_, fun g hg => ?_⟩
      · rcases List.mem_or_eq_of_mem_set hg with hg | rfl
        · exact h.size g hg
        · exact hs
      · rcases List.mem_or_eq_of_mem_set hg with hg | rfl
        · exact h.le g hg
        · exact hp

/-- `fat32_readdir` moves the position by the slots that it has looked at. -/
theorem SlotsInside.le {disk stale : Buffer} {inode : Inode} {position fuel : Nat}
    (h : SlotsInside sb disk stale inode position) (hp : position ≤ inode.fileSize)
    {r : Option DirName × Nat} (hr : fat32ReaddirAt sb disk inode stale fuel position = some r) :
    r.2 ≤ inode.fileSize := by
  unfold fat32ReaddirAt at hr
  cases hskip : skipClusters sb disk (position / sb.bytePerClus) inode.firstCluster with
  | none =>
      rw [hskip] at hr
      cases hr
      exact hp
  | some clus =>
      rw [hskip] at hr
      dsimp only at hr
      have hbehind : slotsBehind sb disk stale inode position fuel
          = (dirSeen sb disk stale (clusters sb disk fuel clus)).drop
            (position % sb.bytePerClus / DIRECTORY_SIZE) := by
        unfold slotsBehind
        rw [hskip]
      have hend := scanEnd_le (slotsBehind sb disk stale inode position fuel) newBuffer hp (h fuel)
      rw [readdirLoopAt_clusters] at hr
      dsimp only at hr
      rw [← hbehind] at hr
      unfold scanEnd at hend
      cases hscan : readdirScan (slotsBehind sb disk stale inode position fuel) position newBuffer with
      | inl nameBuf =>
          rw [hscan] at hr hend
          dsimp only at hr
          split_ifs at hr
          cases hr
          exact hend
      | inr d =>
          rw [hscan] at hr hend
          cases hr
          exact hend

/-- **One call** on an open file keeps the positions in the files, and copies no more than there is. -/
theorem Inv.call (h : s.Inv) {disk mem : Buffer} {c : PositionCall}
    (hk : s.files[k]? = some f) (hc : s.Fits sb (.call disk mem k c)) {r : OpenFiles × List Area}
    (hr : s.call sb disk mem k f c = some r) :
    r.1.Inv ∧ areaBytes r.2 ≤ (s.nodeOf f).fileSize - f.position := by
  have hf : f ∈ s.files := List.mem_of_getElem? hk
  have hp := h.le f hf
  have hs := h.size f hf
  cases c with
  | read buf count =>
      unfold OpenFiles.call at hr
      dsimp only at hr
      split_ifs at hr with hsb
      obtain rfl := Option.some.inj hr
      have hread := @fat32Read_within sb disk buf (s.nodeOf f).inode count f.position mem hp hs
        (hc f hk hsb)
      exact ⟨h.update le_rfl hs hread.2, hread.1⟩
  | write buf count =>
      unfold OpenFiles.call at hr
      dsimp only at hr
      split_ifs at hr
      obtain rfl := Option.some.inj hr
      have hw := @fat32Write_within sb disk buf (s.nodeOf f).inode mem count f.position hp hs
      exact ⟨h.update hw.1 hw.2.1 hw.2.2, Nat.zero_le _⟩
  | lseek offset whence =>
      unfold OpenFiles.call at hr
      dsimp only at hr
      split_ifs at hr
      · obtain rfl := Option.some.inj hr
        exact ⟨h, Nat.zero_le _⟩
      · obtain rfl := Option.some.inj hr
        exact ⟨h.update le_rfl hs
          (fat32Lseek_position_le (f := ⟨(s.nodeOf f).inode, f.position⟩) hp _ _), Nat.zero_le _⟩
  | getdents stale fuel =>
      unfold OpenFiles.call at hr
      dsimp only at hr
      split_ifs at hr with hsb
      obtain ⟨q, hq, rfl⟩ := Option.map_eq_some_iff.mp hr
      exact ⟨h.update le_rfl hs ((hc f hk hsb).le hp hq), Nat.zero_le _⟩

/-- One more file, or none. -/
theorem Inv.append (h : s.Inv) {g : FileHandle} {free : Bool}
    (hs : (s.nodeOf g).fileSize < 2 ^ 64) (hp : g.position ≤ (s.nodeOf g).fileSize) :
    Inv ⟨s.root, if free then s.files ++ [g] else s.files⟩ := by
  cases free with
  | false => exact h
  | true =>
      refine ⟨h.root, fun q hq => ?_, fun q hq => ?_⟩
      · rcases List.mem_append.mp hq with hq | hq
        · exact h.size q hq
        · rw [List.mem_singleton.mp hq]
          exact hs
      · rcases List.mem_append.mp hq with hq | hq
        · exact h.le q hq
        · rw [List.mem_singleton.mp hq]
          exact hp

/-- The root is truncated while its files are at position 0. -/
theorem Inv.truncate (h : s.Inv) (hzero : ∀ f ∈ s.files, f.node = none → f.position = 0) :
    Inv ⟨{ s.root with fileSize := 0 }, s.files⟩ := by
  refine ⟨show 0 < 2 ^ 64 by decide, fun f hf => ?_, fun f hf => ?_⟩
  · have hsize := h.size f hf
    obtain ⟨_ | n, p⟩ := f
    · exact show 0 < 2 ^ 64 by decide
    · exact hsize
  · have hle := h.le f hf
    have hpos := hzero f hf
    obtain ⟨_ | n, p⟩ := f
    · exact (hpos rfl).le
    · exact hle

/-- **`sys_open`** keeps the positions in the files. -/
theorem Inv.sysOpen (h : s.Inv) {a : OpenArgs} (hok : s.Fits sb (.sysOpen a))
    (hs : s.sysOpen sb a = some s') : s'.Inv := by
  unfold OpenFiles.sysOpen at hs
  cases hpath : userPath a.mem a.filename with
  | none =>
      rw [hpath] at hs
      cases hs
      exact h
  | some path =>
      rw [hpath] at hs
      dsimp only at hs
      split at hs
      · rename_i walked hwalk
        cases hentry : openEntry a.flag walked with
        | inl error =>
            rw [hentry] at hs
            cases hs
            exact h
        | inr dentry =>
            rw [hentry] at hs
            dsimp only at hs
            split_ifs at hs
            obtain rfl := Option.some.inj hs
            cases dentry with
            | root node =>
                unfold openDentry
                dsimp only
                by_cases ht : a.flag &&& O_TRUNC ≠ 0
                · have hzero := hok ⟨ht, path, walked, node, hpath, hwalk, hentry⟩
                  unfold truncatedNode
                  rw [if_pos ht]
                  exact Inv.append (h.truncate hzero) (show 0 < 2 ^ 64 by decide)
                    (openPosition_le _ _)
                · unfold truncatedNode
                  rw [if_neg ht]
                  exact h.append h.root (openPosition_le _ _)
            | child name found parent =>
                -- a node that has been found has no size
                have hzero : found.fileSize = 0 := by
                  have h0 := @PathCall.Passes.nonzero _ _ _ .sysOpen hpath
                  rw [openEntry_eq_inr hentry] at hwalk
                  rcases walk_cases h0 hwalk with hc | ⟨name', node', hc, hnode⟩
                  · cases hc
                  · cases hc
                    exact hnode.fileSize
                unfold openDentry
                dsimp only
                refine h.append (g := ⟨some _, _⟩) ?_ (openPosition_le _ _)
                show (truncatedNode a.flag found).fileSize < _
                rw [truncatedNode_fileSize, hzero]
                split_ifs <;> decide
      · cases hs

/-- **One step** keeps the positions in the files. -/
theorem Inv.step (h : s.Inv) {e : PositionEvent} (hok : s.Fits sb e) (hs : s.step sb e = some s') :
    s'.Inv := by
  cases e with
  | sysOpen a => exact h.sysOpen hok hs
  | sysClose k =>
      cases hs
      exact ⟨h.root, fun f hf => h.size f (List.mem_of_mem_eraseIdx hf),
        fun f hf => h.le f (List.mem_of_mem_eraseIdx hf)⟩
  | fork k =>
      obtain ⟨f, hf, rfl⟩ := Option.map_eq_some_iff.mp hs
      have hmem : f ∈ s.files := List.mem_of_getElem? hf
      exact @Inv.append _ h _ true (h.size f hmem) (h.le f hmem)
  | call disk mem k c =>
      obtain ⟨f, hf, hcall⟩ := Option.bind_eq_some_iff.mp hs
      obtain ⟨r, hr, rfl⟩ := Option.map_eq_some_iff.mp hcall
      exact (h.call hf hok hr).1

theorem Reached.inv {rootClus : Nat} (h : Reached sb rootClus (Fits sb) s) : s.Inv := by
  induction h with
  | mount =>
      exact ⟨show 0 < 2 ^ 64 by decide, fun f hf => absurd hf List.not_mem_nil,
        fun f hf => absurd hf List.not_mem_nil⟩
  | step _ hok hs ih => exact ih.step hok hs

end

/-- **Reads never pass the end of the file**: in every state of a run whose calls all meet the
condition, all positions are in the files, and a read that meets it copies no more bytes than there
are. -/
theorem reads_within_file {sb : SbInfo} {rootClus : Nat} {s : OpenFiles}
    (h : Reached sb rootClus (Fits sb) s) :
    (∀ f ∈ s.files, f.position ≤ (s.nodeOf f).fileSize) ∧
    ∀ (disk mem : Buffer) (k : Nat) (f : FileHandle) (buf count : Nat) (r : OpenFiles × List Area),
      s.files[k]? = some f → f.position + count < 2 ^ 64 →
      s.call sb disk mem k f (.read buf count) = some r →
      areaBytes r.2 ≤ (s.nodeOf f).fileSize - f.position := by
  refine ⟨h.inv.le, fun disk mem k f buf count r hk hc hr => ?_⟩
  have hfits : s.Fits sb (.call disk mem k (.read buf count)) := by
    intro g hg _
    obtain rfl := Option.some.inj (hk.symm.trans hg)
    exact hc
  exact (h.inv.call hk hfits hr).2

/-! ## An example -/

/-- The root is opened, with memory for everything. -/
def openRoot (flag : BitVec 32) : OpenArgs where
  disk := exampleDisk
  mem := slashMem
  filename := 0
  flag := flag
  memory := ⟨fun _ _ => true, fun _ _ => true, fun _ _ => true⟩
  fuel := 1
  filp := true
  freeHandle := true

theorem sysOpen_openRoot (s : OpenFiles) {flag : BitVec 32} (hflag : flag &&& O_DIRECTORY ≠ 0) :
    s.sysOpen exampleSb (openRoot flag)
      = some (s.openDentry (openRoot flag) (.root (rootNode s.root.firstCluster))) := by
  have hentry : openEntry flag (some (.root (rootNode s.root.firstCluster)))
      = .inr (.root (rootNode s.root.firstCluster)) := by
    unfold openEntry
    dsimp only
    rw [if_neg (fun h => hflag h.1), if_neg (fun h => h.2 rfl)]
  have hwalk : (s.walkEnv exampleSb (openRoot flag)).walk [47]
      = some (.returned (some (.root (rootNode s.root.firstCluster)))) := walk_slash _
  unfold OpenFiles.sysOpen
  rw [show userPath (openRoot flag).mem (openRoot flag).filename = some [47] from slashMem_path]
  dsimp only
  rw [hwalk]
  dsimp only
  rw [show openEntry (openRoot flag).flag _ = _ from hentry]
  dsimp only
  rw [if_pos (show (openRoot flag).filp = true from rfl)]

/-- The root behind a write of ten bytes. -/
def writtenRoot : FoundNode := { rootNode 5 with fileSize := 10 }

/-- Ten bytes are written to it. -/
theorem write_root : OpenFiles.call exampleSb exampleDisk newBuffer ⟨rootNode 5, [⟨none, 0⟩]⟩ 0
    ⟨none, 0⟩ (.write 0x800000 10) = some (⟨writtenRoot, [⟨none, 10⟩]⟩, []) := by
  have hclus : startCluster exampleSb (rootNode 5).inode 0 = 5 := by decide
  have hloop : ∀ s : WriteLoop, s.remainder = 10 → s.offset = 0 →
      fat32WriteLoop exampleSb newBuffer 0x800000 (clusToLba exampleSb 5) 11 s
        = fat32WriteStep exampleSb newBuffer 0x800000 (clusToLba exampleSb 5) s := by
    intro s hr ho
    have hzero : (fat32WriteStep exampleSb newBuffer 0x800000 (clusToLba exampleSb 5) s).remainder
        = 0 := by
      show s.remainder - chunk exampleSb s.remainder s.offset = 0
      rw [hr, ho]
      decide
    rw [fat32WriteLoop, if_neg (fun h => h.1 hzero)]
  unfold OpenFiles.call
  rw [show (OpenFiles.nodeOf ⟨rootNode 5, [⟨none, 0⟩]⟩ ⟨none, 0⟩) = rootNode 5 from rfl]
  dsimp only
  rw [if_pos (show (rootNode 5).sb = true from rfl)]
  unfold fat32Write
  rw [hclus]
  dsimp only
  rw [if_neg (by decide)]
  unfold fat32WriteAt
  dsimp only
  rw [hloop _ rfl rfl, if_pos (by decide)]
  rfl

theorem step_openRoot (root : FoundNode) (files : List FileHandle) :
    OpenFiles.step exampleSb ⟨root, files⟩ (.sysOpen (openRoot O_DIRECTORY))
      = some ⟨root, files ++ [⟨none, 0⟩]⟩ := by
  unfold OpenFiles.step
  dsimp only
  have hnode : truncatedNode O_DIRECTORY root = root := if_neg (by decide)
  have hpos : openPosition O_DIRECTORY root = 0 := if_neg (by decide)
  rw [sysOpen_openRoot _ (by decide)]
  unfold openDentry
  dsimp only
  rw [show (openRoot O_DIRECTORY).flag = O_DIRECTORY from rfl, hnode, hpos,
    if_pos (show (openRoot O_DIRECTORY).freeHandle = true from rfl)]

/-- The root has been opened, and ten bytes have been written to it. -/
theorem reached_written {ok : OpenFiles → PositionEvent → Prop}
    (hopen : ok ⟨rootNode 5, []⟩ (.sysOpen (openRoot O_DIRECTORY)))
    (hwrite : ok ⟨rootNode 5, [⟨none, 0⟩]⟩ (.call exampleDisk newBuffer 0 (.write 0x800000 10))) :
    Reached exampleSb 5 ok ⟨writtenRoot, [⟨none, 10⟩]⟩ := by
  have h1 : Reached exampleSb 5 ok ⟨rootNode 5, [⟨none, 0⟩]⟩ :=
    Reached.mount.step hopen (step_openRoot _ _)
  refine h1.step hwrite ?_
  unfold OpenFiles.step
  dsimp only
  rw [List.getElem?_cons_zero, Option.bind_some, write_root, Option.map_some]

/-- It is read from its start, by a second file that is opened at it. -/
theorem reads_within_file_example : ∃ s, Reached exampleSb 5 (Fits exampleSb) s ∧
    s.files = [⟨none, 10⟩, ⟨none, 0⟩] ∧ ∀ r, s.call exampleSb exampleDisk newBuffer 1 ⟨none, 0⟩
      (.read 0x800000 100) = some r → areaBytes r.2 ≤ 10 := by
  have hno : ∀ s, Fits exampleSb s (.sysOpen (openRoot O_DIRECTORY)) :=
    fun s h => absurd (show (openRoot O_DIRECTORY).flag &&& O_TRUNC = 0 by decide) h.1
  have hs : Reached exampleSb 5 (Fits exampleSb) ⟨writtenRoot, [⟨none, 10⟩, ⟨none, 0⟩]⟩ :=
    (reached_written (hno _) trivial).step (hno _) (step_openRoot _ _)
  refine ⟨_, hs, rfl, fun r hr => ?_⟩
  exact (reads_within_file hs).2 _ _ 1 _ _ _ r rfl (by decide) hr

/-- Behind the ten bytes position and count wrap around, and a read copies the rest of the cluster. -/
theorem reads_past_end : ¬ ∀ (sb : SbInfo) (rootClus : Nat) (s : OpenFiles) (disk mem : Buffer)
    (k : Nat) (f : FileHandle) (buf count : Nat) (r : OpenFiles × List Area),
    Reached sb rootClus (fun _ _ => True) s → s.files[k]? = some f → count < 2 ^ 64 →
    s.call sb disk mem k f (.read buf count) = some r →
    areaBytes r.2 ≤ (s.nodeOf f).fileSize - f.position := by
  intro hall
  have hrem : readRemainder writtenRoot.inode (2 ^ 64 - 1) 10 = 2 ^ 64 - 1 := by decide
  have hclus : startCluster exampleSb writtenRoot.inode 10 = 5 := by decide
  have hend : (fat32ReadStep exampleSb exampleDisk 0x800000
      ⟨5, 2 ^ 64 - 1, 0, 10, newBuffer, []⟩).clus = 0 := exampleDisk_end 5 (by decide)
  have hareas : (fat32Read exampleSb exampleDisk writtenRoot.inode newBuffer 0x800000 (2 ^ 64 - 1)
      10).2.areas = [(0x800000, 502)] := by
    show (fat32ReadLoop exampleSb exampleDisk 0x800000 (readRemainder writtenRoot.inode _ 10 + 1)
      ⟨startCluster exampleSb writtenRoot.inode 10, readRemainder writtenRoot.inode _ 10, 0,
        10 % exampleSb.bytePerClus, newBuffer, []⟩).areas = _
    rw [hrem, hclus, fat32ReadLoop, if_neg (fun h => h.2 hend)]
    decide
  have h := hall exampleSb 5 ⟨writtenRoot, [⟨none, 10⟩]⟩ exampleDisk newBuffer 0 ⟨none, 10⟩ 0x800000
    (2 ^ 64 - 1) _ (reached_written trivial trivial) rfl (by decide) rfl
  rw [show OpenFiles.nodeOf ⟨writtenRoot, [⟨none, 10⟩]⟩ ⟨none, 10⟩ = writtenRoot from rfl] at h
  dsimp only at h
  rw [hareas] at h
  exact absurd h (by decide)

end OpenFiles

end Talios
