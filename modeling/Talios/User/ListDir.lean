import Talios.Fs.DirNames
import Talios.User.Shell

set_option autoImplicit false

/-! # Listing the current directory

The loop of `ls_command`, from the slots on the disk to the text on the screen: `readdir` clears the buffer
of its `DIR` and calls `getdents`, `sys_getdents` calls `fat32_readdir`, which passes the next name to
`fill_dentry`, and `printf` prints the string in the record. The loop ends with the first call that passes
no name (`ls_lists`).
-/

namespace Talios

open Bytes Word Strings

namespace Shell

/-! ## The calls -/

/-- The size of `buf` in a `DIR`. -/
def DIR_BUF_SIZE : Nat := 256

/-- `fill_dentry` on the memory from `addr` on: what it holds then, and the value. -/
def fillDentryAt (addr : Nat) (buf : Buffer) (r : DirName) : Buffer × Int :=
  if addr < TASK_SIZE ∧ verifyArea addr (DIRENT_SIZE + r.namelen) = false then (buf, -(EFAULT : Int))
  else
    let buf := overlay buf DIRENT_SIZE r.namelen r.name
    (putLE (putLE (putLE buf 8 8 r.namelen) 0 8 0) 16 8 0, toInt (DIRENT_SIZE + r.namelen))

/-- `sys_getdents` on an open directory: the memory, the value, and `filp->position`. -/
def sysGetdentsAt (sb : SbInfo) (disk : Buffer) (inode : Inode) (stale : Buffer) (fuel addr : Nat)
    (buf : Buffer) (position : Nat) : Option (Buffer × Int × Nat) :=
  (fat32ReaddirAt sb disk inode stale fuel position).map (fun x =>
    match x.1 with
    | none => (buf, 0, x.2)
    | some r => ((fillDentryAt addr buf r).1, (fillDentryAt addr buf r).2, x.2))

/-- `readdir`: whether it returns the record in `buf`. -/
def readdir (sb : SbInfo) (disk : Buffer) (inode : Inode) (stale : Buffer) (fuel addr : Nat) (buf : Buffer)
    (position : Nat) : Option (Bool × Buffer × Nat) :=
  (sysGetdentsAt sb disk inode stale fuel addr (overlay buf 0 DIR_BUF_SIZE (fun _ => 0)) position).map
    (fun x => (decide (0 < x.2.1), x.1, x.2.2))

/-- The format `"%s\n"`. -/
def nameFormat : CString := argvFormat

/-- The loop of `ls_command`, from call `k` of `readdir` on, with `n` rounds at most. Call `k` finds `stale k`
in `disk_buf`. -/
def lsLoop (sb : SbInfo) (disk : Buffer) (inode : Inode) (stale : Nat → Buffer) (fuel addr : Nat) :
    Nat → Nat → Buffer → Nat → Option (List Act)
  | 0, _, _, _ => none
  | n + 1, k, buf, position => do
      let r ← readdir sb disk inode (stale k) fuel addr buf position
      if r.1 then do
        let s ← stringAt (DIR_BUF_SIZE - DIRENT_SIZE) (fun i => r.2.1 (DIRENT_SIZE + i)) 0
        let acts ← lsLoop sb disk inode stale fuel addr n (k + 1) r.2.1 r.2.2
        pure (.printf nameFormat (stringArg s) :: acts)
      else pure []

/-- `ls_command`, behind `opendir`. -/
def lsCommand (sb : SbInfo) (disk : Buffer) (inode : Inode) (stale : Nat → Buffer) (fuel addr n : Nat)
    (buf : Buffer) : Option (List Act) := lsLoop sb disk inode stale fuel addr n 0 buf 0

/-! ## One name -/

section

variable {addr : Nat} {buf : Buffer} {r : DirName}

/-- The letters of a name stand in the record, with zeros behind them. -/
theorem fillDentryAt_string (huser : addr + DIR_BUF_SIZE ≤ TASK_SIZE) (hzero : 0 ∉ r.letters)
    (hlen : r.letters.length < 200) :
    0 < (fillDentryAt addr (overlay buf 0 DIR_BUF_SIZE (fun _ => 0)) r).2 ∧
    ∃ s, stringAt (DIR_BUF_SIZE - DIRENT_SIZE)
        (fun i => (fillDentryAt addr (overlay buf 0 DIR_BUF_SIZE (fun _ => 0)) r).1 (DIRENT_SIZE + i)) 0 = some s ∧
      s.bytes = r.letters.map UInt8.ofNat := by
  have hn : r.namelen < 200 := by
    unfold DirName.letters at hlen
    simpa using hlen
  have hsize : DIRENT_SIZE = 24 := rfl
  have hbuf : DIR_BUF_SIZE = 256 := rfl
  have htask : TASK_SIZE = 0x00007fffffffffff := rfl
  have harea : ¬ (addr < TASK_SIZE ∧ verifyArea addr (DIRENT_SIZE + r.namelen) = false) := by
    rintro ⟨-, h⟩
    unfold verifyArea add64 at h
    rw [decide_eq_false_iff_not] at h
    omega
  unfold fillDentryAt
  rw [if_neg harea]
  dsimp only
  constructor
  · unfold toInt
    rw [Int.bmod_eq_of_le (by omega) (by omega)]
    omega
  · set f : Buffer := fun i => putLE (putLE (putLE (overlay (overlay buf 0 DIR_BUF_SIZE (fun _ => 0))
      DIRENT_SIZE r.namelen r.name) 8 8 r.namelen) 0 8 0) 16 8 0 (DIRENT_SIZE + i) with hf
    have hfields : ∀ i, f i = overlay (overlay buf 0 DIR_BUF_SIZE (fun _ => 0)) DIRENT_SIZE r.namelen r.name
        (DIRENT_SIZE + i) := by
      intro i
      rw [hf]
      dsimp only
      unfold putLE
      rw [overlay_of_ge (by omega), overlay_of_ge (by omega), overlay_of_ge (by omega)]
    have hletter : ∀ i < r.namelen, f i = r.name i := by
      intro i hi
      rw [hfields, overlay_of_mem (by omega) (by omega), Nat.add_sub_cancel_left]
    have hend : f r.namelen = 0 := by
      rw [hfields, overlay_of_ge le_rfl, overlay_zero_left (by omega)]
    have hname : ∀ i < r.namelen, r.name i ≠ 0 := by
      intro i hi h0
      refine hzero (List.mem_map.mpr ⟨i, List.mem_range.mpr hi, ?_⟩)
      rw [h0]
      rfl
    have hseek : seek (· != 0) f (DIR_BUF_SIZE - DIRENT_SIZE) 0 = some r.namelen := by
      refine seek_eq (by rw [hend]; rfl) (fun i _ hi => ?_) (Nat.zero_le _) (by omega)
      rw [hletter i hi]
      simpa using hname i hi
    refine ⟨stringFrom (DIR_BUF_SIZE - DIRENT_SIZE) f 0, by unfold stringAt; rw [hseek]; rfl, ?_⟩
    have htext : ∀ i ≤ (r.letters.map UInt8.ofNat).length, f i = (r.letters.map UInt8.ofNat).getD i 0 := by
      intro i hi
      have hl : (r.letters.map UInt8.ofNat).length = r.namelen := by simp [DirName.letters]
      rw [hl] at hi
      by_cases hlast : i = r.namelen
      · rw [hlast, hend, List.getD_eq_default _ _ hl.le]
      · rw [hletter i (by omega), List.getD_eq_getElem _ _ (by omega)]
        simp [DirName.letters]
    have hzero' : 0 ∉ r.letters.map UInt8.ofNat := by
      intro h
      unfold DirName.letters at h
      rw [List.map_map, List.mem_map] at h
      obtain ⟨i, hi, h0⟩ := h
      refine hname i (List.mem_range.mp hi) ?_
      simpa using h0
    exact untilZero_text hzero' htext (Nat.zero_le _) (by simp [DirName.letters]; omega)

end

/-! ## All names -/

section

variable {sb : SbInfo} {disk : Buffer} {inode : Inode} {chain : List Nat} {fuel : Nat}

/-- The result of a call that ends is that of each call with rounds for all clusters. -/
theorem fat32ReaddirAt_fuel (h : DirChain sb disk inode chain) (hf : chain.length < fuel) {stale : Buffer}
    {position fuel' : Nat} {x : Option DirName × Nat}
    (hx : fat32ReaddirAt sb disk inode stale fuel' position = some x) :
    fat32ReaddirAt sb disk inode stale fuel position = some x := by
  unfold fat32ReaddirAt at hx ⊢
  rw [h.first, h.links.skipClusters_eq _ h.nonempty] at hx ⊢
  by_cases hlt : position / sb.bytePerClus < chain.length
  · rw [if_pos hlt] at hx ⊢
    dsimp only at hx ⊢
    have hend := (readdirLoopAt_chain (chain.drop (position / sb.bytePerClus)) fuel' _ h.links.drop).1 x hx
    rw [hend]
    refine (readdirLoopAt_chain (chain.drop (position / sb.bytePerClus)) fuel _ h.links.drop).2 ?_
    rw [List.length_drop]
    exact lt_of_le_of_lt (Nat.sub_le _ _) hf
  · rw [if_neg hlt] at hx ⊢
    exact hx

variable {stale : Nat → Buffer} {pos : Nat → Nat} {res : Nat → Option DirName} {names : List (List Nat)}
  {addr : Nat}

/-- **From call `k` on**, the loop prints the names that are left. -/
theorem lsLoop_names (arrays : Arrays) (h : DirChain sb disk inode chain) (hf : chain.length < fuel)
    (hcalls : DirCalls sb disk inode stale pos res) (hres : ∀ k, (res k).map DirName.letters = names[k]?)
    (hnames : ∀ l ∈ names, 0 ∉ l ∧ l.length < 200) (huser : addr + DIR_BUF_SIZE ≤ TASK_SIZE) :
    ∀ (rest : List (List Nat)) (n k : Nat) (buf : Buffer), names.drop k = rest → rest.length < n →
      (lsLoop sb disk inode stale fuel addr n k buf (pos k)).map (List.map (Act.event arrays))
        = some (rest.map (fun l => .text (l.map UInt8.ofNat ++ [10]))) := by
  intro rest
  induction rest with
  | nil =>
      intro n k buf hdrop hn
      obtain ⟨n, rfl⟩ : ∃ m, n = m + 1 := ⟨n - 1, by simp at hn; omega⟩
      have hnone : res k = none := by
        have hk := hres k
        rw [List.getElem?_eq_none (List.drop_eq_nil_iff.mp hdrop)] at hk
        exact Option.map_eq_none_iff.mp hk
      obtain ⟨fuel', hcall⟩ := hcalls.call k
      have hread := fat32ReaddirAt_fuel h hf hcall
      rw [hnone] at hread
      rw [lsLoop]
      unfold readdir sysGetdentsAt
      rw [hread]
      rfl
  | cons l rest ih =>
      intro n k buf hdrop hn
      obtain ⟨n, rfl⟩ : ∃ m, n = m + 1 := ⟨n - 1, by simp at hn; omega⟩
      rw [List.length_cons] at hn
      have hlk : names[k]? = some l := by
        rw [← List.head?_drop, hdrop]
        rfl
      obtain ⟨r, hr, hletters⟩ : ∃ r, res k = some r ∧ r.letters = l :=
        Option.map_eq_some_iff.mp ((hres k).trans hlk)
      obtain ⟨hzero, hlen⟩ := hnames l (List.mem_of_getElem? hlk)
      rw [← hletters] at hzero hlen
      obtain ⟨fuel', hcall⟩ := hcalls.call k
      have hread := fat32ReaddirAt_fuel h hf hcall
      rw [hr] at hread
      obtain ⟨hpos, s, hstring, hbytes⟩ := @fillDentryAt_string addr buf r huser hzero hlen
      have hrest : names.drop (k + 1) = rest := by
        rw [← List.tail_drop, hdrop]
        rfl
      have hloop := ih n (k + 1)
        (fillDentryAt addr (overlay buf 0 DIR_BUF_SIZE (fun _ => 0)) r).1 hrest (by omega)
      have hevent : (Act.printf nameFormat (stringArg s)).event arrays
          = .text (l.map UInt8.ofNat ++ [10]) := by
        have hshort : s.bytes.length < 1023 := by
          rw [hbytes, List.length_map]
          omega
        rw [← hletters, ← hbytes]
        exact event_word arrays s hshort
      obtain ⟨acts, hacts, hevents⟩ := Option.map_eq_some_iff.mp hloop
      rw [lsLoop]
      unfold readdir sysGetdentsAt
      rw [hread]
      simp only [Option.map_some, Option.bind_eq_bind, Option.bind_some, decide_eq_true_eq, hpos, if_true,
        hstring, hacts, pure, List.map_cons, hevent, hevents]

end

/-- An entry that is listed right has a short name, or a long one of five parts at most. -/
theorem shownName_length {group : List Buffer} {e : Buffer} (h : (DirItem.entry group e).ListsRight) :
    (shownName group e).length < 200 := by
  have htrim : ∀ s : List UInt8, (trimmed s).length ≤ s.length := fun s =>
    (List.rdropWhile_prefix _ s).length_le
  unfold shownName
  split_ifs with hg
  · have hbase : (trimmed (shortBase e)).length ≤ 8 := htrim (shortBase e)
    have hext : (trimmed (shortExt e)).length ≤ 3 := htrim (shortExt e)
    rw [List.length_map]
    unfold shortShown withDot
    split_ifs <;> simp <;> omega
  · have hfew := (h.2.1 hg).1
    have hunits := (List.takeWhile_prefix (· ≠ 0) (l := groupUnits group)).length_le
    rw [groupUnits_length] at hunits
    have : (longUnits group).length ≤ 13 * group.length := hunits
    omega

/-- **`ls` prints the names in the directory**, each on a line of its own and in their order, and comes to
an end: for a directory whose list comes out right, whatever the buffers have held before. -/
theorem ls_lists (arrays : Arrays) {sb : SbInfo} {disk : Buffer} {inode : Inode} {chain : List Nat}
    (h : DirChain sb disk inode chain) (layout : DirLayout (dirSlots sb disk chain)) (hright : layout.ListsRight sb)
    (hzero : ∀ x ∈ layout.names, 0 ∉ x.1) (stale : Nat → Buffer) (buf : Buffer) {addr fuel n : Nat}
    (huser : addr + DIR_BUF_SIZE ≤ TASK_SIZE) (hf : chain.length < fuel) (hn : layout.names.length < n) :
    (lsCommand sb disk inode stale fuel addr n buf).map (List.map (Act.event arrays))
      = some (layout.names.map (fun x => .text (x.1.map UInt8.ofNat ++ [10]))) := by
  have hpasses : PassesEntries sb disk inode layout.names :=
    (passes_layout h layout (listed_entries_iff layout.wellFormed)).mpr hright
  obtain ⟨pos, res, hcalls, hres⟩ := hpasses stale
  have hletters : ∀ k, (res k).map DirName.letters = (layout.names.map Prod.fst)[k]? := by
    intro k
    have hk := congrArg (Option.map Prod.fst) (hres k)
    rw [Option.map_map] at hk
    rw [List.getElem?_map]
    exact hk
  have hnames : ∀ l ∈ layout.names.map Prod.fst, 0 ∉ l ∧ l.length < 200 := by
    intro l hl
    obtain ⟨x, hx, rfl⟩ := List.mem_map.mp hl
    refine ⟨hzero x hx, ?_⟩
    obtain ⟨y, hy, rfl⟩ := List.mem_map.mp hx
    exact shownName_length (hright.2.1 _ (mem_entriesFrom _ _ hy))
  have hloop := lsLoop_names arrays h hf hcalls hletters hnames huser (layout.names.map Prod.fst) n 0 buf rfl
    (by rwa [List.length_map])
  rw [hcalls.start, List.map_map] at hloop
  exact hloop

/-- The directory with the file `A`. -/
theorem ls_lists_entryDisk :
    (lsCommand exampleSb entryDisk entryDir (fun _ => newBuffer) 2 0x800000 2 newBuffer).map
        (List.map (Act.event ⟨fun _ => 0, fun _ => 0, fun _ => 0, fun _ => 0⟩))
      = some [.text [65, 10]] := by
  have htail : ∀ e ∈ entryLayout.tail, slotUsed e = false := by decide +kernel
  have hnames : entryLayout.names = [([65], 32)] := by decide +kernel
  have hright : entryLayout.ListsRight exampleSb := by
    refine ⟨rfl, List.forall_mem_singleton.mpr ⟨by decide +kernel, fun hne => absurd rfl hne,
      fun _ => ⟨by decide +kernel, by decide +kernel, fun h16 => ?_⟩⟩, htail⟩
    exact absurd h16 (by decide +kernel)
  have hls := ls_lists ⟨fun _ => 0, fun _ => 0, fun _ => 0, fun _ => 0⟩ entryDisk_chain entryLayout hright
    (by rw [hnames]; decide) (fun _ => newBuffer) newBuffer (show 0x800000 + DIR_BUF_SIZE ≤ TASK_SIZE by decide)
    (show 1 < 2 by decide) (show entryLayout.names.length < 2 by rw [hnames]; decide)
  rw [hnames] at hls
  exact hls

end Shell

end Talios
