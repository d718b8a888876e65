import Talios.Disk.Request
import Talios.Lib.Bytes
import Talios.Lib.Word

set_option autoImplicit false

/-! # One transfer

What `cmd_out` and the handlers of the disk's interrupts do for one request of `ide_transfer`.

The device follows the protocol of programmed transfers: it takes 256 words for each sector that is
written, and interrupts once for each sector. `rep outsw` reads the words from where `rsi` points, a
register that the code does not set. The words of a write are those of its buffer if and only if
there is one sector, and `rsi` points to the same words (`write_transfers_words`).

The handlers print the errors they see. What `ide_transfer` returns does not depend on them
(`disk_errors_reported`).
-/

namespace Talios

open Bytes Word

def ATA_WRITE_CMD : Int := 0x34
def ATA_READ_CMD : Int := 0x24

def DISK_STATUS_REQ : UInt8 := (1 : UInt8) <<< 3
def DISK_STATUS_ERROR : UInt8 := (1 : UInt8) <<< 0

def SECONDARY_CHANNEL_CMD_ERROR_STATUS : Nat := 0x171
def SECONDARY_CHANNEL_CMD_SECTOR_NUM : Nat := 0x172
def SECONDARY_CHANNEL_CMD_SECTOR : Nat := 0x173
def SECONDARY_CHANNEL_CMD_COLUMN1 : Nat := 0x174
def SECONDARY_CHANNEL_CMD_COLUMN2 : Nat := 0x175
def SECONDARY_CHANNEL_CMD_CONF_REGISTER : Nat := 0x176
def SECONDARY_CHANNEL_CMD_STATUS_CMD : Nat := 0x177

/-! ## Issuing a command -/

/-- The byte `GetBits(num, pos, 8)`. -/
def byteAt (num pos : Nat) : Nat := num / 2 ^ pos % 2 ^ 8

/-- `OUT8b`, of `cmd_out` for a read or a write. -/
def commandBlock (cmd count lba : Nat) : List (Nat × Nat) :=
  [(SECONDARY_CHANNEL_CMD_CONF_REGISTER, 0x40),
    (SECONDARY_CHANNEL_CMD_ERROR_STATUS, 0),
    (SECONDARY_CHANNEL_CMD_SECTOR_NUM, byteAt count 8),
    (SECONDARY_CHANNEL_CMD_SECTOR, byteAt lba 24),
    (SECONDARY_CHANNEL_CMD_COLUMN1, byteAt lba 32),
    (SECONDARY_CHANNEL_CMD_COLUMN2, byteAt lba 40),
    (SECONDARY_CHANNEL_CMD_ERROR_STATUS, 0),
    (SECONDARY_CHANNEL_CMD_SECTOR_NUM, byteAt count 0),
    (SECONDARY_CHANNEL_CMD_SECTOR, byteAt lba 0),
    (SECONDARY_CHANNEL_CMD_COLUMN1, byteAt lba 8),
    (SECONDARY_CHANNEL_CMD_COLUMN2, byteAt lba 16),
    (SECONDARY_CHANNEL_CMD_STATUS_CMD, cmd)]

/-- The number of sectors that the device takes from the two writes of its register, where zero
stands for 65536. -/
def programmedSectors (writes : List (Nat × Nat)) : Nat :=
  let bytes := (writes.filter (fun w => w.1 = SECONDARY_CHANNEL_CMD_SECTOR_NUM)).map Prod.snd
  let n := bytes.getD 0 0 * 2 ^ 8 + bytes.getD 1 0
  if n = 0 then 2 ^ 16 else n

/-- It is the low 16 bits of the count. -/
theorem programmedSectors_commandBlock (cmd count lba : Nat) :
    programmedSectors (commandBlock cmd count lba) =
      if count % 2 ^ 16 = 0 then 2 ^ 16 else count % 2 ^ 16 := by
  have hbytes : byteAt count 8 * 2 ^ 8 + byteAt count 0 = count % 2 ^ 16 := by
    unfold byteAt
    omega
  rw [← hbytes]
  rfl

/-! ## Writing -/

/-- The word at an address. -/
def wordAt (mem : Buffer) (a : Nat) : Nat :=
  (mem (a % 2 ^ 64)).toNat + 2 ^ 8 * (mem ((a + 1) % 2 ^ 64)).toNat

/-- The words of a buffer. -/
def wordsAt (mem : Buffer) (a num : Nat) : List Nat := (List.range num).map fun i => wordAt mem (a + 2 * i)

/-- `port_outsw`: `buffer` goes to `rdi`, which `rep outsw` does not read. -/
def portOutsw (mem : Buffer) (rsi _buffer num : Nat) : List Nat := wordsAt mem rsi num

/-- A write on its way: the node, the words sent to the data port, the sectors the device has been
asked for, its interrupts, and whether `end_request` has been called. -/
structure DiskWrite where
  count : Nat
  buffer : Nat
  sent : List Nat
  sectors : Nat
  interrupts : Nat
  ended : Bool

/-- `cmd_out`, for a write. -/
def cmdOutWrite (mem : Buffer) (rsi lba count buffer : Nat) : DiskWrite where
  count := count % 2 ^ 32
  buffer := buffer
  -- the only words that a write sends: `write_handler` has no `port_outsw`
  sent := portOutsw mem rsi buffer 256
  sectors := programmedSectors (commandBlock ATA_WRITE_CMD.toNat (count % 2 ^ 32) lba)
  interrupts := 0
  ended := false

/-- `write_handler`. -/
def writeHandler (w : DiskWrite) : DiskWrite :=
  -- `count--` on an `unsigned int`: a count of zero goes on at `2^32 - 1`
  let count := (w.count + (2 ^ 32 - 1)) % 2 ^ 32
  { w with
    count := count
    buffer := (w.buffer + 512) % 2 ^ 64
    interrupts := w.interrupts + 1
    ended := decide (count = 0) }

/-- The device interrupts when it has the words of one more sector. -/
def DiskWrite.interruptDue (w : DiskWrite) : Bool :=
  decide (w.interrupts < w.sectors ∧ 256 * (w.interrupts + 1) ≤ w.sent.length)

/-- The interrupts of a request, up to its end. -/
def writeInterrupts : Nat → DiskWrite → DiskWrite
  | 0, w => w
  | fuel + 1, w =>
      if w.ended = false ∧ w.interruptDue = true then writeInterrupts fuel (writeHandler w) else w

/-- `ide_transfer(ATA_WRITE_CMD, lba, count, buffer)`, with all interrupts of its request. The device
has at most one for each sector. -/
def ideTransferWrite (mem : Buffer) (rsi lba count buffer : Nat) : DiskWrite :=
  let w := cmdOutWrite mem rsi lba count buffer
  writeInterrupts w.sectors w

/-- The words of the buffer have been sent, 256 for each sector, and the request has ended with the
last interrupt. -/
structure WordsTransferred (mem : Buffer) (count buffer : Nat) (w : DiskWrite) : Prop where
  sent : w.sent = wordsAt mem buffer (256 * count)
  ended : w.ended = true
  interrupts : w.interrupts = count

/-- The handler sends nothing. -/
theorem writeHandler_sent (w : DiskWrite) : (writeHandler w).sent = w.sent := by
  unfold writeHandler
  rfl

theorem writeInterrupts_sent (fuel : Nat) (w : DiskWrite) : (writeInterrupts fuel w).sent = w.sent := by
  induction fuel generalizing w with
  | zero => rfl
  | succ fuel ih =>
    rw [writeInterrupts]
    split_ifs
    · exact (ih (writeHandler w)).trans (writeHandler_sent w)
    · rfl

theorem wordsAt_length (mem : Buffer) (a num : Nat) : (wordsAt mem a num).length = num := by
  rw [wordsAt, List.length_map, List.length_range]

/-- A write of one sector ends with its only interrupt. -/
theorem ideTransferWrite_one (mem : Buffer) (rsi lba buffer : Nat) :
    ideTransferWrite mem rsi lba 1 buffer = writeHandler (cmdOutWrite mem rsi lba 1 buffer) := by
  have hsectors : (cmdOutWrite mem rsi lba 1 buffer).sectors = 1 := by
    rw [cmdOutWrite, programmedSectors_commandBlock]
    norm_num
  have hdue : (cmdOutWrite mem rsi lba 1 buffer).interruptDue = true := by
    have hlen : (cmdOutWrite mem rsi lba 1 buffer).sent.length = 256 := wordsAt_length ..
    rw [DiskWrite.interruptDue, hsectors, hlen]
    rfl
  rw [ideTransferWrite, hsectors, writeInterrupts, if_pos ⟨rfl, hdue⟩, writeInterrupts]

/-- A write transfers the words of its buffer if and only if it is one of a single sector, and `rsi`
points to the same words as the buffer. -/
theorem write_transfers_words (mem : Buffer) (rsi lba count buffer : Nat) :
    WordsTransferred mem count buffer (ideTransferWrite mem rsi lba count buffer) ↔
      count = 1 ∧ ∀ i < 256, wordAt mem (rsi + 2 * i) = wordAt mem (buffer + 2 * i) := by
  have hsent : (ideTransferWrite mem rsi lba count buffer).sent = wordsAt mem rsi 256 := by
    rw [ideTransferWrite, writeInterrupts_sent]
    rfl
  constructor
  · intro h
    -- 256 words were sent, so that the buffer has exactly that many
    have heq : wordsAt mem rsi 256 = wordsAt mem buffer (256 * count) := hsent.symm.trans h.sent
    have hlen := congrArg List.length heq
    rw [wordsAt_length, wordsAt_length] at hlen
    obtain rfl : count = 1 := by omega
    refine ⟨rfl, fun i hi => ?_⟩
    exact List.map_inj_left.mp heq i (List.mem_range.mpr hi)
  · rintro ⟨rfl, hwords⟩
    have hrun := ideTransferWrite_one mem rsi lba buffer
    refine ⟨?_, ?_, ?_⟩
    · rw [hsent]
      exact List.map_congr_left fun i hi => hwords i (List.mem_range.mp hi)
    · rw [hrun]
      simp [writeHandler, cmdOutWrite]
    · rw [hrun, writeHandler, cmdOutWrite]

/-- Two sectors: the second one is never sent, and the request does not end. -/
theorem second_sector_unsent :
    ¬ WordsTransferred (fun _ => 0) 2 0 (ideTransferWrite (fun _ => 0) 0 0 2 0) := by
  intro h
  have hlen := congrArg List.length h.sent
  have hsent : (cmdOutWrite (fun _ => 0) 0 0 2 0).sent.length = 256 := wordsAt_length ..
  rw [ideTransferWrite, writeInterrupts_sent, wordsAt_length, hsent] at hlen
  omega

/-! ## Errors -/

/-- How the transfer of a sector has ended. -/
inductive SectorResult where
  | transferred
  | error
  | noData
deriving DecidableEq

/-- What `read_handler` sees. It reads the status once for the error bit, and once more for data;
`status i` is the value of the read number `i`, and the result comes with the number of the next. -/
def readHandlerLook (status : Nat → UInt8) (i : Nat) : SectorResult × Nat :=
  if status i &&& DISK_STATUS_ERROR ≠ 0 then (.error, i + 1)
  else if status (i + 1) &&& DISK_STATUS_REQ ≠ 0 then (.transferred, i + 2)
  else (.noData, i + 2)

/-- What `write_handler` sees. -/
def writeHandlerLook (status : Nat → UInt8) (i : Nat) : SectorResult × Nat :=
  if status i &&& DISK_STATUS_ERROR ≠ 0 then (.error, i + 1) else (.transferred, i + 1)

/-- The node of a request, the number of the next read of the status, the results of its sectors, and
whether `end_request` has been called. -/
structure TransferRun where
  count : Nat
  buffer : Nat
  statusReads : Nat
  results : List SectorResult
  ended : Bool

/-- `read_handler` and `write_handler`. -/
def TransferRun.interrupt (look : Nat → SectorResult × Nat) (t : TransferRun) : TransferRun :=
  let seen := look t.statusReads
  let count := (t.count + (2 ^ 32 - 1)) % 2 ^ 32
  { count := count
    buffer := (t.buffer + 512) % 2 ^ 64
    statusReads := seen.2
    results := t.results ++ [seen.1]
    ended := decide (count = 0) }

/-- The request after `k` interrupts of the device. Once it has ended, they are not its own. -/
def transferRun (look : Nat → SectorResult × Nat) (count buffer : Nat) : Nat → TransferRun
  | 0 => ⟨count % 2 ^ 32, buffer, 0, [], false⟩
  | k + 1 =>
      if (transferRun look count buffer k).ended = true then transferRun look count buffer k
      else (transferRun look count buffer k).interrupt look

/-- The handler that `make_request` chooses. -/
def handlerLook (cmd : Int) (status : Nat → UInt8) : Nat → SectorResult × Nat :=
  if cmd = ATA_READ_CMD then readHandlerLook status else writeHandlerLook status

/-- What `ide_transfer` has returned after `k` interrupts, if it has. -/
def ideTransferResult (cmd : Int) (status : Nat → UInt8) (count buffer k : Nat) : Option Int :=
  if cmd ≠ ATA_READ_CMD ∧ cmd ≠ ATA_WRITE_CMD then some 0
  else if (transferRun (handlerLook cmd status) count buffer k).ended = true then some 1
  else none

/-- `!errno` and `!res`: the branch of `fat32_read`, `fat32_write` and `fat32_readdir` for an error of
the disk. -/
def ioErrorBranch (errno : Int) : Bool := errno == 0

/-- A value that is not zero says that all sectors have been transferred, and the callers take the
branch for an error whenever one has not. -/
structure DiskErrorsReported (cmd : Int) (status : Nat → UInt8) (count buffer : Nat) : Prop where
  reported : ∀ k r, ideTransferResult cmd status count buffer k = some r → r ≠ 0 →
    ∀ s ∈ (transferRun (handlerLook cmd status) count buffer k).results, s = .transferred
  branch : ∀ k r, ideTransferResult cmd status count buffer k = some r →
    cmd = ATA_READ_CMD ∨ cmd = ATA_WRITE_CMD →
    (∃ s ∈ (transferRun (handlerLook cmd status) count buffer k).results, s ≠ .transferred) →
    ioErrorBranch r = true

/-- The number of interrupts until the node's count is zero. -/
def requestInterrupts (count : Nat) : Nat := if count % 2 ^ 32 = 0 then 2 ^ 32 else count % 2 ^ 32

/-- No interrupt of the request sees an error bit, and those of a read see data. -/
def NoSectorFails (cmd : Int) (status : Nat → UInt8) (count : Nat) : Prop :=
  ∀ i < requestInterrupts count,
    if cmd = ATA_READ_CMD then
      status (2 * i) &&& DISK_STATUS_ERROR = 0 ∧ status (2 * i + 1) &&& DISK_STATUS_REQ ≠ 0
    else status i &&& DISK_STATUS_ERROR = 0

section

variable (look : Nat → SectorResult × Nat) (count buffer : Nat)

/-- The results of the first `k` looks at the status, and the number of the next read. -/
def looks : Nat → List SectorResult × Nat
  | 0 => ([], 0)
  | k + 1 => ((looks k).1 ++ [(look (looks k).2).1], (look (looks k).2).2)

/-- When a good look moves on by `w` reads, all are good if and only if they are at multiples of
`w`. -/
theorem looks_good {w : Nat} (hw : ∀ i, (look i).1 = .transferred → (look i).2 = i + w) (k : Nat) :
    ((∀ s ∈ (looks look k).1, s = .transferred) ↔ ∀ i < k, (look (w * i)).1 = .transferred) ∧
      ((∀ s ∈ (looks look k).1, s = .transferred) → (looks look k).2 = w * k) := by
  -- Only while all looks were good is the position of the next read known, so that both go together.
  induction k with
  | zero => simp [looks]
  | succ k ih =>
    obtain ⟨hiff, hpos⟩ := ih
    constructor
    · rw [looks, List.forall_mem_append, List.forall_mem_singleton]
      constructor
      · rintro ⟨hall, hlast⟩ i hi
        rw [hpos hall] at hlast
        rcases Nat.lt_succ_iff_lt_or_eq.mp hi with hi | rfl
        · exact hiff.mp hall i hi
        · exact hlast
      · intro h
        have hall := hiff.mpr fun i hi => h i (by omega)
        refine ⟨hall, ?_⟩
        rw [hpos hall]
        exact h k (by omega)
    · intro h
      rw [looks, List.forall_mem_append, List.forall_mem_singleton] at h
      show (look (looks look k).2).2 = w * (k + 1)
      rw [hw _ h.2, hpos h.1]
      ring

theorem interrupt_count (t : TransferRun) :
    (t.interrupt look).count = (t.count + (2 ^ 32 - 1)) % 2 ^ 32 := by
  rw [TransferRun.interrupt]

theorem interrupt_ended (t : TransferRun) :
    (t.interrupt look).ended = decide ((t.count + (2 ^ 32 - 1)) % 2 ^ 32 = 0) := by
  rw [TransferRun.interrupt]

/-- After `k` interrupts, up to the last one, the count stands for those that are still to come. -/
theorem transferRun_eq {k : Nat} (hk : k ≤ requestInterrupts count) :
    (transferRun look count buffer k).count = (requestInterrupts count - k) % 2 ^ 32 ∧
      (transferRun look count buffer k).ended = decide (k = requestInterrupts count) ∧
      (transferRun look count buffer k).results = (looks look k).1 ∧
      (transferRun look count buffer k).statusReads = (looks look k).2 := by
  have hpos : 0 < requestInterrupts count ∧ requestInterrupts count ≤ 2 ^ 32 := by
    unfold requestInterrupts
    split_ifs <;> omega
  induction k with
  | zero =>
    refine ⟨?_, ?_, rfl, rfl⟩
    · show count % 2 ^ 32 = _
      unfold requestInterrupts
      split_ifs <;> omega
    · exact (decide_eq_false (by omega)).symm
  | succ k ih =>
    obtain ⟨hcount, hended, hresults, hreads⟩ := ih (by omega)
    -- short of the last interrupt the count is not zero, and the request goes on
    have hrun : transferRun look count buffer (k + 1) =
        (transferRun look count buffer k).interrupt look := by
      rw [transferRun, if_neg]
      rw [hended, decide_eq_true_eq]
      omega
    have hdown : ((transferRun look count buffer k).count + (2 ^ 32 - 1)) % 2 ^ 32 =
        (requestInterrupts count - (k + 1)) % 2 ^ 32 := by
      rw [hcount]
      omega
    rw [hrun]
    refine ⟨(interrupt_count ..).trans hdown, ?_, ?_, ?_⟩
    · rw [interrupt_ended, hdown, decide_eq_decide]
      omega
    · show (transferRun look count buffer k).results ++
        [(look (transferRun look count buffer k).statusReads).1] = _
      rw [hresults, hreads]
      rfl
    · show (look (transferRun look count buffer k).statusReads).2 = _
      rw [hreads]
      rfl

/-- A request that has ended has had all its interrupts. -/
theorem transferRun_ended {k : Nat} (h : (transferRun look count buffer k).ended = true) :
    (transferRun look count buffer k).results = (looks look (requestInterrupts count)).1 := by
  have hlast := transferRun_eq look count buffer (le_refl (requestInterrupts count))
  -- later interrupts belong to other requests and change nothing
  have hafter : ∀ k, requestInterrupts count ≤ k →
      transferRun look count buffer k = transferRun look count buffer (requestInterrupts count) := by
    intro k hk
    induction k, hk using Nat.le_induction with
    | base => rfl
    | succ k hk ih =>
      have hended : (transferRun look count buffer k).ended = true := by
        rw [ih, hlast.2.1]
        exact decide_eq_true rfl
      have hstay : transferRun look count buffer (k + 1) = transferRun look count buffer k := by
        rw [transferRun]
        exact if_pos hended
      exact hstay.trans ih
  rcases le_total k (requestInterrupts count) with hle | hge
  · have hk := transferRun_eq look count buffer hle
    rw [hk.2.1, decide_eq_true_eq] at h
    rw [hk.2.2.1, h]
  · rw [hafter k hge]
    exact hlast.2.2.1

end

theorem readHandlerLook_transferred (status : Nat → UInt8) (i : Nat) :
    ((readHandlerLook status i).1 = .transferred ↔
      status i &&& DISK_STATUS_ERROR = 0 ∧ status (i + 1) &&& DISK_STATUS_REQ ≠ 0) ∧
      ((readHandlerLook status i).1 = .transferred → (readHandlerLook status i).2 = i + 2) := by
  rw [readHandlerLook]
  split_ifs with herr hreq
  · simp [herr]
  · simp [not_not.mp herr, hreq]
  · simp [hreq]

theorem writeHandlerLook_transferred (status : Nat → UInt8) (i : Nat) :
    ((writeHandlerLook status i).1 = .transferred ↔ status i &&& DISK_STATUS_ERROR = 0) ∧
      ((writeHandlerLook status i).1 = .transferred → (writeHandlerLook status i).2 = i + 1) := by
  rw [writeHandlerLook]
  split_ifs with herr
  · simp [herr]
  · simp [not_not.mp herr]

/-- All sectors are transferred if and only if no interrupt sees a failure. -/
theorem looks_iff_noSectorFails (cmd : Int) (status : Nat → UInt8) (count : Nat) :
    (∀ s ∈ (looks (handlerLook cmd status) (requestInterrupts count)).1, s = .transferred) ↔
      NoSectorFails cmd status count := by
  unfold NoSectorFails handlerLook
  by_cases hcmd : cmd = ATA_READ_CMD
  · simp only [if_pos hcmd]
    rw [(looks_good _ (fun i => (readHandlerLook_transferred status i).2) _).1]
    exact forall₂_congr fun i _ => (readHandlerLook_transferred status (2 * i)).1
  · simp only [if_neg hcmd]
    rw [(looks_good _ (fun i => (writeHandlerLook_transferred status i).2) _).1]
    simp only [one_mul]
    exact forall₂_congr fun i _ => (writeHandlerLook_transferred status i).1

/-- The errors of the disk are reported if and only if there are none, or `ide_transfer` makes no
request. -/
theorem disk_errors_reported (cmd : Int) (status : Nat → UInt8) (count buffer : Nat) :
    DiskErrorsReported cmd status count buffer ↔
      (cmd ≠ ATA_READ_CMD ∧ cmd ≠ ATA_WRITE_CMD) ∨ NoSectorFails cmd status count := by
  rw [← looks_iff_noSectorFails]
  by_cases hcmd : cmd ≠ ATA_READ_CMD ∧ cmd ≠ ATA_WRITE_CMD
  -- `ide_transfer` lets no other command through, and returns 0
  · refine iff_of_true ⟨fun k r hr hne => ?_, fun k r _ hor => ?_⟩ (.inl hcmd)
    · rw [ideTransferResult, if_pos hcmd] at hr
      exact absurd (Option.some.inj hr).symm hne
    · exact absurd hor (not_or.mpr hcmd)
  · rw [or_iff_right hcmd]
    constructor
    -- The result is 1 whatever the sectors were, so that it tells the truth only if none failed.
    · intro h
      have hlast := transferRun_eq (handlerLook cmd status) count buffer
        (le_refl (requestInterrupts count))
      have hended : (transferRun (handlerLook cmd status) count buffer
          (requestInterrupts count)).ended = true := by
        rw [hlast.2.1]
        exact decide_eq_true rfl
      have hresult : ideTransferResult cmd status count buffer (requestInterrupts count) =
          some 1 := by
        rw [ideTransferResult, if_neg hcmd, if_pos hended]
      rw [← hlast.2.2.1]
      exact h.reported _ 1 hresult one_ne_zero
    · intro hall
      have hended {k : Nat} {r : Int} (hr : ideTransferResult cmd status count buffer k = some r) :
          (transferRun (handlerLook cmd status) count buffer k).results =
            (looks (handlerLook cmd status) (requestInterrupts count)).1 := by
        rw [ideTransferResult, if_neg hcmd] at hr
        split_ifs at hr with hend
        exact transferRun_ended _ _ _ hend
      refine ⟨fun k r hr _ => ?_, fun k r hr _ hfail => ?_⟩
      · rw [hended hr]
        exact hall
      · rw [hended hr] at hfail
        obtain ⟨s, hs, hne⟩ := hfail
        exact absurd (hall s hs) hne

/-- A read of one sector whose interrupt sees the error bit. -/
theorem read_error_unreported :
    ideTransferResult ATA_READ_CMD (fun _ => 1) 1 0 1 = some 1 ∧
      ¬ DiskErrorsReported ATA_READ_CMD (fun _ => 1) 1 0 := by
  have hresult : ideTransferResult ATA_READ_CMD (fun _ => 1) 1 0 1 = some 1 := by decide
  refine ⟨hresult, fun h => ?_⟩
  have hdone := h.reported 1 1 hresult one_ne_zero .error (by decide)
  cases hdone

end Talios
