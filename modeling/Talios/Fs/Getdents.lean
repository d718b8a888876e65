import Talios.Fs.DirClusters
import Talios.Fs.Fat32Entry

set_option autoImplicit false

/-! # The record of an entry

`sys_getdents` checks that its count is not negative, and then passes the buffer on without it.
`fill_dentry` writes 24 bytes and the name of the next entry, however many the caller has room for.
-/

namespace Talios

open Bytes Word

/-! ## The next entry -/

/-- What `name_buf` holds behind slots that have no name of their own. -/
def heldLetters (es : List Buffer) (nameBuf : Buffer) : Buffer :=
  es.foldl (fun nameBuf e => if slotDeleted e then nameBuf else putLongName e nameBuf) nameBuf

/-- The length of the name that is passed on for a slot. -/
def nameLength (e nameBuf : Buffer) : Nat := (slotName e nameBuf 0).namelen

/-- The slot whose name comes next, and the letters of the long-name slots before it. -/
structure NextSlot (sb : SbInfo) (disk : Buffer) (inode : Inode) (stale : Buffer) (position : Nat)
    (e nameBuf : Buffer) : Prop where
  used : slotUsed e = true
  found : ∃ clus n pre post,
    skipClusters sb disk (position / sb.bytePerClus) inode.firstCluster = some clus ∧
    (dirSeen sb disk stale (clusters sb disk n clus)).drop
      (position % sb.bytePerClus / DIRECTORY_SIZE) = pre ++ e :: post ∧
    (∀ s ∈ pre, slotUsed s = false) ∧ nameBuf = heldLetters pre newBuffer

/-- No byte of the areas lies outside the `count` bytes from `buf` on. -/
def WithinBuffer (buf count : Nat) (areas : List Area) : Prop :=
  ∀ r ∈ areas, ∀ i < r.2, sub64 (add64 r.1 i) buf < count

/-! ## The scan up to it -/

theorem slotUsed_iff (e : Buffer) :
    slotUsed e = true ↔ slotDeleted e = false ∧ slotLongName e = false := by
  unfold slotUsed
  cases slotDeleted e <;> cases slotLongName e <;> decide

/-- The scan goes over the slots without a name, to the first that has one. -/
theorem readdirScan_first {e : Buffer} (hu : slotUsed e = true) (post : List Buffer) :
    ∀ (pre : List Buffer) (position : Nat) (nameBuf : Buffer), (∀ s ∈ pre, slotUsed s = false) →
    readdirScan (pre ++ e :: post) position nameBuf
      = .inr (slotName e (heldLetters pre nameBuf) (position + (pre.length + 1) * DIRECTORY_SIZE))
  | [], position, nameBuf, _ => by
      have hboth := (slotUsed_iff e).mp hu
      rw [List.nil_append, readdirScan_name hboth.1 hboth.2, List.length_nil, Nat.zero_add,
        Nat.one_mul]
      rfl
  | s :: pre, position, nameBuf, h => by
      rw [List.forall_mem_cons] at h
      have hlen : position + ((s :: pre).length + 1) * DIRECTORY_SIZE
          = position + DIRECTORY_SIZE + (pre.length + 1) * DIRECTORY_SIZE := by
        rw [List.length_cons]
        ring
      rw [List.cons_append, hlen]
      cases hd : slotDeleted s with
      | true =>
          have hheld : heldLetters (s :: pre) nameBuf = heldLetters pre nameBuf := by
            unfold heldLetters
            rw [List.foldl_cons, hd, if_pos rfl]
          rw [readdirScan_deleted hd, hheld, readdirScan_first hu post pre _ _ h.2]
      | false =>
          have hl : slotLongName s = true := by
            have := h.1
            unfold slotUsed at this
            rw [hd] at this
            simpa using this
          have hheld : heldLetters (s :: pre) nameBuf
              = heldLetters pre (putLongName s nameBuf) := by
            unfold heldLetters
            rw [List.foldl_cons, hd, if_neg (by decide)]
          rw [readdirScan_long hd hl, hheld, readdirScan_first hu post pre _ _ h.2]

/-- What a scan finds is the first slot with a name. -/
theorem readdirScan_inr {r : DirName} : ∀ (es : List Buffer) (position : Nat) (nameBuf : Buffer),
    readdirScan es position nameBuf = .inr r →
    ∃ pre e post, es = pre ++ e :: post ∧ (∀ s ∈ pre, slotUsed s = false) ∧ slotUsed e = true := by
  intro es position nameBuf h
  have hsome : ¬ ∀ e ∈ es, slotUsed e = false := by
    intro hall
    rcases (readdirScan_inl es position nameBuf).mpr hall with ⟨b, hb⟩
    exact nomatch h.symm.trans hb
  clear h
  induction es with
  | nil => exact absurd (fun e he => absurd he List.not_mem_nil) hsome
  | cons s es ih =>
      cases hs : slotUsed s with
      | true => exact ⟨[], s, es, rfl, fun _ h => absurd h List.not_mem_nil, hs⟩
      | false =>
          rw [List.forall_mem_cons] at hsome
          rcases ih (fun hall => hsome ⟨hs, hall⟩) with ⟨pre, e, post, rfl, hpre, hu⟩
          exact ⟨s :: pre, e, post, rfl, List.forall_mem_cons.mpr ⟨hs, hpre⟩, hu⟩

section

variable {sb : SbInfo} {disk stale : Buffer} {inode : Inode} {position : Nat}

theorem slotName_namelen (e nameBuf : Buffer) (p : Nat) :
    (slotName e nameBuf p).namelen = nameLength e nameBuf := by
  unfold nameLength slotName
  split <;> rfl

/-- A call finds a name where there is a next slot, and passes on its length. -/
theorem fat32Readdir_next (l : Nat) :
    (∃ fuel r, fat32Readdir sb disk inode stale fuel position = some (some r) ∧ r.namelen = l) ↔
      ∃ e nameBuf, NextSlot sb disk inode stale position e nameBuf ∧ nameLength e nameBuf = l := by
  unfold fat32Readdir
  constructor
  · rintro ⟨fuel, r, hr, rfl⟩
    cases hk : skipClusters sb disk (position / sb.bytePerClus) inode.firstCluster with
    | none =>
        rw [hk] at hr
        cases hr
    | some clus =>
        rw [hk] at hr
        dsimp only at hr
        rw [readdirLoop_clusters] at hr
        dsimp only at hr
        split at hr
        · split at hr
          · cases hr
          · cases hr
        · rename_i d hd
          cases hr
          rcases readdirScan_inr _ _ _ hd with ⟨pre, e, post, hsplit, hpre, hu⟩
          refine ⟨e, heldLetters pre newBuffer, ⟨hu, clus, fuel, pre, post, hk, hsplit, hpre, rfl⟩, ?_⟩
          rw [hsplit, readdirScan_first hu post pre _ _ hpre] at hd
          cases hd
          exact (slotName_namelen _ _ _).symm
  · rintro ⟨e, nameBuf, ⟨hu, clus, n, pre, post, hk, hsplit, hpre, rfl⟩, rfl⟩
    refine ⟨n, slotName e (heldLetters pre newBuffer)
      (position + (pre.length + 1) * DIRECTORY_SIZE), ?_, slotName_namelen _ _ _⟩
    rw [hk]
    dsimp only
    rw [readdirLoop_clusters]
    dsimp only
    rw [hsplit, readdirScan_first hu post pre _ _ hpre]

/-! ## The record -/

theorem sub64_add64 {buf k : Nat} (hb : buf < 2 ^ 64) (hk : k < 2 ^ 64) :
    sub64 (add64 buf k) buf = k := by
  unfold sub64 add64
  omega

/-- What `fill_dentry` writes lies in the buffer where the record fits, or nothing is written. -/
theorem fillDentry_within {buf count l : Nat} (hb : buf < 2 ^ 64) (hl : l ≤ 1024) :
    WithinBuffer buf count (fillDentry buf l).1 ↔
      (buf < TASK_SIZE ∧ verifyArea buf (DIRENT_SIZE + l) = false) ∨ DIRENT_SIZE + l ≤ count := by
  unfold fillDentry
  split
  · rename_i href
    exact iff_of_true (fun r hr => absurd hr List.not_mem_nil) (Or.inl href)
  · rename_i href
    rw [or_iff_right href]
    have hadd : ∀ i, add64 (add64 buf DIRENT_SIZE) i = add64 buf (DIRENT_SIZE + i) := by
      intro i
      unfold add64
      omega
    have hsize : DIRENT_SIZE = 24 := rfl
    constructor
    · intro h
      -- the last byte of the fields, and the last letter
      have hfields := h (buf, DIRENT_SIZE) (by simp) 23 (show 23 < DIRENT_SIZE by decide)
      rw [sub64_add64 hb (by decide)] at hfields
      rcases Nat.eq_zero_or_pos l with h0 | hpos
      · omega
      · have hname := h (add64 buf DIRENT_SIZE, l) (by simp) (l - 1) (Nat.sub_lt hpos Nat.one_pos)
        dsimp only at hname
        rw [hadd, sub64_add64 hb (by omega)] at hname
        omega
    · intro h r hr i hi
      rcases List.mem_cons.mp hr with rfl | hr
      · dsimp only at hi ⊢
        rw [hadd, sub64_add64 hb (by omega)]
        omega
      · rw [List.mem_singleton.mp hr] at hi ⊢
        dsimp only at hi ⊢
        rw [sub64_add64 hb (by omega)]
        omega

/-- **The caller's buffer**: `sys_getdents` stays in it where the record of the next entry fits, where
there is no next entry, or where nothing is written at all. -/
theorem getdents_within (sb : SbInfo) (disk : Buffer) (inode : Inode) (mem stale : Buffer)
    (position buf count : Nat) (hb : buf < 2 ^ 64) :
    (∀ fuel, WithinBuffer buf count
      ((FileCall.getdents buf count).areas sb disk inode position mem stale fuel)) ↔
      2 ^ 63 ≤ count ∨ ∀ e nameBuf, NextSlot sb disk inode stale position e nameBuf →
        (buf < TASK_SIZE ∧ verifyArea buf (DIRENT_SIZE + nameLength e nameBuf) = false) ∨
          DIRENT_SIZE + nameLength e nameBuf ≤ count := by
  unfold FileCall.areas
  dsimp only
  by_cases hc : 2 ^ 63 ≤ count
  · simp only [if_pos hc]
    exact iff_of_true (fun _ r hr => absurd hr List.not_mem_nil) (Or.inl hc)
  simp only [hc, if_false, false_or]
  have hlen : ∀ fuel r, fat32Readdir sb disk inode stale fuel position = some (some r) →
      r.namelen ≤ 1024 := by
    intro fuel r hr
    unfold fat32Readdir at hr
    split at hr
    · cases hr
    · exact readdirLoop_namelen _ _ _ _ hr
  constructor
  · intro h e nameBuf hnext
    rcases (fat32Readdir_next (nameLength e nameBuf)).mpr ⟨e, nameBuf, hnext, rfl⟩ with
      ⟨fuel, r, hr, hl⟩
    have hw := h fuel
    rw [hr] at hw
    rw [← hl]
    exact (fillDentry_within hb (hlen fuel r hr)).mp hw
  · intro h fuel
    cases hr : fat32Readdir sb disk inode stale fuel position with
    | none => exact fun r hr => absurd hr List.not_mem_nil
    | some o =>
        cases o with
        | none => exact fun r hr => absurd hr List.not_mem_nil
        | some r =>
            rcases (fat32Readdir_next r.namelen).mp ⟨fuel, r, hr, rfl⟩ with
              ⟨e, nameBuf, hnext, hl⟩
            apply (fillDentry_within hb (hlen fuel r hr)).mpr
            rw [← hl]
            exact h e nameBuf hnext

end

/-- The file `A` comes next in its directory. -/
theorem entryDisk_next : ∃ e, NextSlot exampleSb entryDisk entryDir newBuffer 0 e newBuffer ∧
    nameLength e newBuffer = 1 := by
  have hcons : dirSeen exampleSb entryDisk newBuffer (clusters exampleSb entryDisk 1 2)
      = slot (ideRead entryDisk 34 1 newBuffer) 0 ::
        (List.range' 1 15).map (slot (ideRead entryDisk 34 1 newBuffer)) := rfl
  refine ⟨slot (ideRead entryDisk 34 1 newBuffer) 0, ⟨by decide +kernel, 2, 1, [], _, rfl, hcons,
    fun _ h => absurd h List.not_mem_nil, rfl⟩, by decide +kernel⟩

/-- Ten bytes are not enough for it. -/
theorem getdents_within_example : ¬ ∀ fuel, WithinBuffer 0x800000 10
    ((FileCall.getdents 0x800000 10).areas exampleSb entryDisk entryDir 0 newBuffer newBuffer fuel) := by
  intro h
  rcases entryDisk_next with ⟨e, hnext, hlen⟩
  rcases (getdents_within exampleSb entryDisk entryDir newBuffer newBuffer 0 0x800000 10
    (by decide)).mp h with hc | hall
  · exact absurd hc (by decide)
  · rcases hall e newBuffer hnext with href | hfit
    · rw [hlen] at href
      exact absurd href.2 (by decide)
    · rw [hlen] at hfit
      exact absurd hfit (by decide)

theorem getdents_beyond : ¬ ∀ (sb : SbInfo) (disk : Buffer) (inode : Inode) (mem stale : Buffer)
    (position buf count fuel : Nat), buf < 2 ^ 64 → WithinBuffer buf count
      ((FileCall.getdents buf count).areas sb disk inode position mem stale fuel) := by
  intro hall
  have hareas : (FileCall.getdents 0x800000 10).areas exampleSb entryDisk entryDir 0 newBuffer
      newBuffer 1 = [(0x800018, 1), (0x800000, 24)] := by decide +kernel
  have h := hall exampleSb entryDisk entryDir newBuffer newBuffer 0 0x800000 10 1 (by decide)
  rw [hareas] at h
  exact absurd (h (0x800000, 24) (by simp) 23 (by decide)) (by decide)

end Talios
