import Talios.Disk.Transfer

set_option autoImplicit false

/-! # Three kinds of requests

The queue of `disk.c` with all commands that `make_request` accepts, from `ide_transfer` and from
`ide_ioctl`. The branch of `make_request` for `ATA_GET_DISK_ID_CMD` runs on into the default, so that
its request has a handler that does nothing. The device takes 16 bits of the number of sectors, the
node 32.

A request has ended by the last interrupt that the device raises for it in all runs without a request
for the disk's identity, with no more than 65536 sectors in each read and one in each write
(`disk_queue_never_wedges`): for a write `cmd_out` sends the words of one sector and nothing sends
the others, so that the device interrupts once. Behind a request of another kind everything stops
(`wedged_forever`).

Interrupts are off from `cli` in `ide_transfer` on, so that its request is one step; `ide_ioctl` does
not turn them off. What the device makes of the command that `ide_ioctl` writes to its port at once is
left out.
-/

namespace Talios

open Word

/-! ## Data -/

/-- The commands that `make_request` accepts. -/
inductive RequestCmd where
  | read
  | write
  | getDiskId
deriving DecidableEq

/-- `end_handler`. -/
inductive EndHandler where
  | readHandler
  | writeHandler
  | getDiskIdHandler
  | otherHandler
deriving DecidableEq

/-- `struct block_buffer_node` in the queue: `serial` stands for its address, `asked` is the number of
sectors it was made with, and `interrupts` counts those the device has raised for it. -/
structure QueuedRequest where
  serial : Nat
  cmd : RequestCmd
  endHandler : EndHandler
  asked : Nat
  count : Nat
  lba : Nat
  tsk : Nat
  interrupts : Nat

/-- A task that runs or sleeps. -/
inductive WaitState where
  | running
  | uninterruptable
deriving DecidableEq

/-- How far a task has come in `ide_ioctl`: outside, behind `block_request_count++`, or behind
`ListForeAdd`. -/
inductive IoctlPoint where
  | outside
  | counted (node : QueuedRequest)
  | added

/-- `disk_request_queue`, the tasks, those that `end_request` has put back in the scheduler's queue,
and the requests that were ended. -/
structure DiskQueue where
  queueList : List QueuedRequest
  inUsing : Option QueuedRequest
  blockRequestCount : Int
  state : Nat → WaitState
  point : Nat → IoctlPoint
  made : Nat
  woken : List Nat
  ended : List QueuedRequest

namespace DiskQueue

/-! ## The code -/

/-- `make_request`. The last branch falls through. -/
def makeRequest (q : DiskQueue) (tsk : Nat) (cmd : RequestCmd) (blocks count : Nat) :
    QueuedRequest where
  serial := q.made
  cmd := cmd
  endHandler :=
    match cmd with
    | .read => .readHandler
    | .write => .writeHandler
    -- the `break` is missing: `other_handler` of the default stays
    | .getDiskId => .otherHandler
  asked := count
  count := count % 2 ^ 32
  lba := blocks
  tsk := tsk
  interrupts := 0

/-- `cmd_out`; `none` where it takes the head of an empty list for a node. -/
def cmdOut (q : DiskQueue) : Option DiskQueue :=
  match q.queueList with
  | [] => none
  | node :: rest =>
      some { q with
        inUsing := some node
        queueList := rest
        blockRequestCount := q.blockRequestCount - 1 }

/-- The end of `submit`. -/
def issue (q : DiskQueue) : Option DiskQueue := if q.inUsing.isNone then q.cmdOut else some q

/-- `ide_transfer` by the task `t`, which goes to sleep. -/
def ideTransfer (q : DiskQueue) (t : Nat) (cmd : RequestCmd) (blocks count : Nat) :
    Option DiskQueue :=
  issue { q with
    state := Function.update q.state t .uninterruptable
    blockRequestCount := q.blockRequestCount + 1
    queueList := q.queueList ++ [q.makeRequest t cmd blocks count]
    made := q.made + 1 }

/-- `ide_ioctl` up to `block_request_count++`. -/
def ideIoctl (q : DiskQueue) (t : Nat) : DiskQueue :=
  { q with
    blockRequestCount := q.blockRequestCount + 1
    point := Function.update q.point t (.counted (q.makeRequest t .getDiskId 0 0))
    made := q.made + 1 }

/-- The next step of a task in `ide_ioctl`: `ListForeAdd`, or the end of `submit`, behind which it
returns. -/
def ioctlNext (q : DiskQueue) (t : Nat) : Option DiskQueue :=
  match q.point t with
  | .outside => none
  | .counted node =>
      some { q with
        queueList := q.queueList ++ [node]
        point := Function.update q.point t .added }
  | .added => issue { q with point := Function.update q.point t .outside }

/-- `end_request`. -/
def endRequest (q : DiskQueue) (node : QueuedRequest) : Option DiskQueue :=
  let q := { q with inUsing := none }
  (if q.blockRequestCount ≠ 0 then q.cmdOut else some q).map fun q =>
    { q with
      state := Function.update q.state node.tsk .running
      woken := q.woken ++ [node.tsk]
      ended := q.ended ++ [node] }

/-- What `read_handler` and `write_handler` do to the node. -/
@[irreducible]
def countDown (node : QueuedRequest) : QueuedRequest :=
  { node with count := (node.count + (2 ^ 32 - 1)) % 2 ^ 32 }

/-- `node->end_handler`. -/
def callHandler (q : DiskQueue) (node : QueuedRequest) : Option DiskQueue :=
  match node.endHandler with
  | .readHandler | .writeHandler =>
      let node := countDown node
      if node.count = 0 then q.endRequest node else some { q with inUsing := some node }
  | .getDiskIdHandler => q.endRequest node
  -- The node is not cleared from `in_using`: only `end_request` does that.
  | .otherHandler => some { q with inUsing := some node }

/-- `disk_irq_handler`. -/
def diskIrqHandler (q : DiskQueue) : Option DiskQueue :=
  match q.inUsing with
  | none => none
  | some node => q.callHandler { node with interrupts := node.interrupts + 1 }

/-- The state behind `disk_init`. -/
def init (state : Nat → WaitState) : DiskQueue := ⟨[], none, 0, state, fun _ => .outside, 0, [], []⟩

/-! ## Runs -/

/-- The code of a command, for the device. -/
def commandCode : RequestCmd → Nat
  | .read => 0x24
  | .write => 0x34
  | .getDiskId => 0xec

/-- The sectors whose words are sent for a write: those that `cmd_out` sends at once. -/
def SENT_SECTORS : Nat := 1

/-- The interrupts that the device raises for a request: one for each sector that is read, one for each
that it has the words of, or one with its identity. -/
def deviceInterrupts (r : QueuedRequest) : Nat :=
  let asked := programmedSectors (commandBlock (commandCode r.cmd) (r.asked % 2 ^ 32) r.lba)
  match r.cmd with
  | .read => asked
  | .write => min asked SENT_SECTORS
  | .getDiskId => 1

inductive QueueStep where
  | transfer (t : Nat) (cmd : RequestCmd) (blocks count : Nat)
  | ioctl (t : Nat)
  | ioctlNext (t : Nat)
  | interrupt

def step (q : DiskQueue) : QueueStep → Option DiskQueue
  | .transfer t cmd blocks count => q.ideTransfer t cmd blocks count
  | .ioctl t => some (q.ideIoctl t)
  | .ioctlNext t => q.ioctlNext t
  | .interrupt => q.diskIrqHandler

/-- When a step can be made: a task that runs and is not in `ide_ioctl` makes a request, with at
least one sector and a command that `ide_transfer` lets through; the device interrupts for the request
in service until its last interrupt. -/
def Allowed (q : DiskQueue) : QueueStep → Prop
  | .transfer t cmd _ count =>
      q.state t = .running ∧ q.point t = .outside ∧ cmd ≠ .getDiskId ∧ 1 ≤ count
  | .ioctl t => q.state t = .running ∧ q.point t = .outside
  | .ioctlNext t => q.state t = .running
  | .interrupt => ∃ r, q.inUsing = some r ∧ r.interrupts < deviceInterrupts r

/-- The states of the runs whose steps all meet `ok`. -/
inductive Reachable (ok : QueueStep → Prop) : DiskQueue → Prop
  | init (state : Nat → WaitState) : Reachable ok (init state)
  | step {q q' : DiskQueue} (h : Reachable ok q) (c : QueueStep) (ha : q.Allowed c) (hok : ok c)
      (hs : q.step c = some q') : Reachable ok q'

/-! ## What is wanted -/

/-- The sectors that may be asked for with a command: up to 65536 for a read, one for a write. -/
def maxSectors (cmd : RequestCmd) : Nat := if cmd = .write then 1 else 2 ^ 16

/-- The condition on the steps: no request for the disk's identity, and a number of sectors whose low
32 bits are not zero, and no more than 65536 for a read and one for a write. -/
def GoodStep : QueueStep → Prop
  | .transfer _ cmd _ count => 1 ≤ count % 2 ^ 32 ∧ count % 2 ^ 32 ≤ maxSectors cmd
  | .ioctl _ => False
  | _ => True

/-! ## The invariant -/

/-- A request of a good step that is waiting or in service: its count stands for the interrupts that
are still to come. -/
structure Counted (r : QueuedRequest) : Prop where
  cmd : r.cmd ≠ .getDiskId
  handler : r.endHandler = .readHandler ∨ r.endHandler = .writeHandler
  asked : r.asked % 2 ^ 32 ≤ maxSectors r.cmd
  count : r.count + r.interrupts = r.asked % 2 ^ 32
  left : 0 < r.count

/-- The part of the invariant that holds while a request is handed over. -/
structure Waiting (q : DiskQueue) : Prop where
  count : q.blockRequestCount = q.queueList.length
  outside : ∀ t, q.point t = .outside
  counted : ∀ r ∈ q.queueList, Counted r

structure Inv (q : DiskQueue) : Prop extends Waiting q where
  idle : q.inUsing = none → q.queueList = []
  service : ∀ r, q.inUsing = some r → Counted r

theorem init_inv (state : Nat → WaitState) : (init state).Inv := by
  refine ⟨⟨rfl, fun _ => rfl, ?_⟩, fun _ => rfl, ?_⟩
  · intro r hr
    cases hr
  · intro r hr
    cases hr

/-- The device raises as many interrupts as the count has been set to. -/
theorem Counted.deviceInterrupts {r : QueuedRequest} (h : Counted r) :
    deviceInterrupts r = r.asked % 2 ^ 32 := by
  have hcount := h.count
  have hleft := h.left
  have hasked := h.asked
  have hmax : maxSectors r.cmd ≤ 2 ^ 16 := by
    unfold maxSectors
    split_ifs <;> omega
  have hprogrammed : programmedSectors (commandBlock (commandCode r.cmd) (r.asked % 2 ^ 32) r.lba)
      = r.asked % 2 ^ 32 := by
    rw [programmedSectors_commandBlock]
    split_ifs <;> omega
  unfold DiskQueue.deviceInterrupts
  rw [hprogrammed]
  cases hcmd : r.cmd with
  | read => rfl
  | write =>
    rw [hcmd] at hasked
    exact Nat.min_eq_left hasked
  | getDiskId => exact absurd hcmd h.cmd

/-- What `make_request` builds for `ide_transfer`, in a good step. -/
theorem makeRequest_counted (q : DiskQueue) (t : Nat) {cmd : RequestCmd} (blocks : Nat) {count : Nat}
    (hcmd : cmd ≠ .getDiskId) (hpos : 1 ≤ count % 2 ^ 32) (hmax : count % 2 ^ 32 ≤ maxSectors cmd) :
    Counted (q.makeRequest t cmd blocks count) := by
  refine ⟨hcmd, ?_, hmax, rfl, hpos⟩
  cases cmd with
  | read => exact .inl rfl
  | write => exact .inr rfl
  | getDiskId => exact absurd rfl hcmd

variable {q q' : DiskQueue}

/-- `cmd_out` puts the head of the list in service. -/
theorem cmdOut_spec (h : q.Waiting) (hne : q.queueList ≠ []) :
    ∃ q', q.cmdOut = some q' ∧ q'.Inv ∧ q'.inUsing = q.queueList.head? ∧ q'.state = q.state ∧
      q'.woken = q.woken ∧ q'.ended = q.ended := by
  obtain ⟨node, rest, hlist⟩ := List.exists_cons_of_ne_nil hne
  have hcounted := h.counted
  rw [hlist, List.forall_mem_cons] at hcounted
  refine ⟨{ q with
      inUsing := some node
      queueList := rest
      blockRequestCount := q.blockRequestCount - 1 },
    by rw [cmdOut, hlist], ⟨⟨?_, h.outside, hcounted.2⟩, ?_, ?_⟩, by rw [hlist]; rfl, rfl, rfl, rfl⟩
  -- the head leaves the list, and the counter goes down with it
  · show q.blockRequestCount - 1 = rest.length
    rw [h.count, hlist, List.length_cons]
    omega
  · intro hnone
    cases hnone
  · intro r hr
    cases hr
    exact hcounted.1

/-- The end of `submit` keeps the invariant. -/
theorem issue_inv (h : q.Waiting) (hne : q.queueList ≠ [])
    (hservice : ∀ r, q.inUsing = some r → Counted r) (hq : q.issue = some q') : q'.Inv := by
  rw [issue] at hq
  split_ifs at hq with hidle
  · obtain ⟨q₁, hout, hinv, -⟩ := cmdOut_spec h hne
    rw [hout] at hq
    cases hq
    exact hinv
  · cases hq
    refine ⟨h, fun hnone => ?_, hservice⟩
    rw [hnone] at hidle
    exact absurd rfl hidle

/-- `ide_transfer` keeps the invariant. -/
theorem ideTransfer_inv (h : q.Inv) {t : Nat} {cmd : RequestCmd} {blocks count : Nat}
    (hcmd : cmd ≠ .getDiskId) (hpos : 1 ≤ count % 2 ^ 32) (hmax : count % 2 ^ 32 ≤ maxSectors cmd)
    (hq : q.ideTransfer t cmd blocks count = some q') : q'.Inv := by
  refine issue_inv (q := { q with
    state := Function.update q.state t .uninterruptable
    blockRequestCount := q.blockRequestCount + 1
    queueList := q.queueList ++ [q.makeRequest t cmd blocks count]
    made := q.made + 1 }) ⟨?_, h.outside, ?_⟩ ?_ h.service hq
  · show q.blockRequestCount + 1 = ((q.queueList ++ [_]).length : Int)
    rw [h.count, List.length_append, List.length_singleton]
    push_cast
    rfl
  · intro r hr
    rcases List.mem_append.mp hr with hr | hr
    · exact h.counted r hr
    · rw [List.mem_singleton.mp hr]
      exact makeRequest_counted q t blocks hcmd hpos hmax
  · exact List.append_ne_nil_of_right_ne_nil _ (List.cons_ne_nil _ _)

/-- `end_request` starts the next request and wakes the task. -/
theorem endRequest_spec (h : q.Waiting) (node : QueuedRequest) :
    ∃ q', q.endRequest node = some q' ∧ q'.Inv ∧ q'.inUsing = q.queueList.head? ∧
      q'.state = Function.update q.state node.tsk .running ∧ q'.woken = q.woken ++ [node.tsk] ∧
      q'.ended = q.ended ++ [node] := by
  -- The counter, not the list, tells whether one waits; in the invariant they agree.
  have hstart : ∃ q₁ : DiskQueue,
      (if q.blockRequestCount ≠ 0 then cmdOut { q with inUsing := none }
        else some { q with inUsing := none }) = some q₁ ∧ q₁.Inv ∧
      q₁.inUsing = q.queueList.head? ∧ q₁.state = q.state ∧ q₁.woken = q.woken ∧
      q₁.ended = q.ended := by
    by_cases hempty : q.queueList = []
    · have hzero : q.blockRequestCount = 0 := by
        rw [h.count, hempty]
        rfl
      rw [if_neg (not_not.mpr hzero)]
      refine ⟨_, rfl, ⟨⟨h.count, h.outside, h.counted⟩, fun _ => hempty, ?_⟩, ?_, rfl, rfl, rfl⟩
      · intro r hr
        cases hr
      · rw [hempty]
        rfl
    · have hcount : q.blockRequestCount ≠ 0 := by
        rw [h.count]
        exact_mod_cast (List.length_pos_of_ne_nil hempty).ne'
      rw [if_pos hcount]
      exact cmdOut_spec (q := { q with inUsing := none }) ⟨h.count, h.outside, h.counted⟩ hempty
  obtain ⟨q₁, hq₁, hinv, hhead, hstate, hwoken, hended⟩ := hstart
  refine ⟨{ q₁ with
      state := Function.update q₁.state node.tsk .running
      woken := q₁.woken ++ [node.tsk]
      ended := q₁.ended ++ [node] }, ?_, ⟨⟨hinv.count, hinv.outside, hinv.counted⟩, hinv.idle,
    hinv.service⟩, hhead, ?_, ?_, ?_⟩
  · exact congrArg (Option.map _) hq₁
  · rw [hstate]
  · rw [hwoken]
  · rw [hended]

/-- The node of a request in service, behind its next interrupt. -/
def interrupted (r : QueuedRequest) : QueuedRequest :=
  countDown { r with interrupts := r.interrupts + 1 }

theorem interrupted_frame (r : QueuedRequest) :
    interrupted r =
      { r with count := (interrupted r).count, interrupts := r.interrupts + 1 } := by
  rw [interrupted, countDown]

theorem interrupted_count {r : QueuedRequest} (h : Counted r) :
    (interrupted r).count = r.count - 1 := by
  have hleft := h.left
  have hcount := h.count
  have hasked := Nat.mod_lt r.asked (show 0 < 2 ^ 32 by decide)
  -- the count was not zero, so that it does not wrap
  rw [interrupted, countDown]
  show (r.count + (2 ^ 32 - 1)) % 2 ^ 32 = r.count - 1
  omega

/-- Short of its last interrupt, a counted request stays one. -/
theorem Counted.interrupted {r : QueuedRequest} (h : Counted r)
    (hne : (DiskQueue.interrupted r).count ≠ 0) : Counted (DiskQueue.interrupted r) := by
  have hcount := interrupted_count h
  have hsum := h.count
  have hleft := h.left
  rw [interrupted_frame]
  refine ⟨h.cmd, h.handler, h.asked, ?_, Nat.pos_of_ne_zero hne⟩
  show (DiskQueue.interrupted r).count + (r.interrupts + 1) = r.asked % 2 ^ 32
  omega

theorem callHandler_counted (node : QueuedRequest)
    (h : node.endHandler = .readHandler ∨ node.endHandler = .writeHandler) :
    q.callHandler node = if (countDown node).count = 0 then q.endRequest (countDown node)
      else some { q with inUsing := some (countDown node) } := by
  unfold callHandler
  rcases h with hread | hwrite
  · rw [hread]
  · rw [hwrite]

/-- The handler of a counted request ends it when the count is zero. -/
theorem diskIrqHandler_counted {r : QueuedRequest} (hr : q.inUsing = some r) (h : Counted r) :
    q.diskIrqHandler = if (interrupted r).count = 0 then q.endRequest (interrupted r)
      else some { q with inUsing := some (interrupted r) } := by
  rw [diskIrqHandler, hr]
  exact callHandler_counted { r with interrupts := r.interrupts + 1 } h.handler

/-- An interrupt keeps the invariant. -/
theorem diskIrqHandler_inv (h : q.Inv) (hq : q.diskIrqHandler = some q') : q'.Inv := by
  cases hr : q.inUsing with
  | none =>
    rw [diskIrqHandler, hr] at hq
    cases hq
  | some r =>
    have hcounted := h.service r hr
    rw [diskIrqHandler_counted hr hcounted] at hq
    split_ifs at hq with hzero
    · obtain ⟨q₁, hend, hinv, -⟩ := endRequest_spec h.toWaiting (interrupted r)
      rw [hend] at hq
      cases hq
      exact hinv
    · cases hq
      refine ⟨⟨h.count, h.outside, h.counted⟩, fun hnone => ?_, fun r' hr' => ?_⟩
      · cases hnone
      · cases hr'
        exact hcounted.interrupted hzero

/-- A good step keeps the invariant. -/
theorem Inv.step (h : q.Inv) {c : QueueStep} (ha : q.Allowed c) (hok : GoodStep c)
    (hs : q.step c = some q') : q'.Inv := by
  cases c with
  | transfer t cmd blocks count => exact ideTransfer_inv h ha.2.2.1 hok.1 hok.2 hs
  | ioctl t => exact hok.elim
  | ioctlNext t =>
    -- in runs of good steps no task is in `ide_ioctl`
    have hnone : q.ioctlNext t = none := by rw [ioctlNext, h.outside t]
    exact absurd (hnone.symm.trans hs) (Option.some_ne_none q').symm
  | interrupt => exact diskIrqHandler_inv h hs

theorem Reachable.inv (h : Reachable GoodStep q) : q.Inv := by
  induction h with
  | init state => exact init_inv state
  | step _ c ha hok hs ih => exact ih.step ha hok hs

/-- The request `serial` is in service with the handler that does nothing. -/
def Stuck (serial : Nat) (q : DiskQueue) : Prop :=
  ∃ r, q.inUsing = some r ∧ r.serial = serial ∧ r.endHandler = .otherHandler

/-- With a request in service, the end of `submit` does nothing. -/
theorem issue_busy {r : QueuedRequest} (hs : q.issue = some q') (hr : q.inUsing = some r) :
    q' = q := by
  rw [issue, hr] at hs
  cases hs
  rfl

/-- No step ends a stuck request or issues another one. -/
theorem Stuck.step {serial : Nat} (h : q.Stuck serial) {c : QueueStep}
    (hs : q.step c = some q') : q'.Stuck serial ∧ q'.ended = q.ended := by
  obtain ⟨r, hr, hserial, hhandler⟩ := h
  cases c with
  | transfer t cmd blocks count =>
    rw [DiskQueue.step, ideTransfer] at hs
    rw [issue_busy hs hr]
    exact ⟨⟨r, hr, hserial, hhandler⟩, rfl⟩
  | ioctl t =>
    cases hs
    exact ⟨⟨r, hr, hserial, hhandler⟩, rfl⟩
  | ioctlNext t =>
    rw [DiskQueue.step, ioctlNext] at hs
    split at hs
    · cases hs
    · cases hs
      exact ⟨⟨r, hr, hserial, hhandler⟩, rfl⟩
    · rw [issue_busy hs hr]
      exact ⟨⟨r, hr, hserial, hhandler⟩, rfl⟩
  | interrupt =>
    -- the handler that does nothing only counts the interrupt
    rw [DiskQueue.step, diskIrqHandler, hr] at hs
    unfold callHandler at hs
    simp only [hhandler] at hs
    cases hs
    exact ⟨⟨_, rfl, hserial, rfl⟩, rfl⟩

/-- A stuck request stays in service in all that follows, and no other request ends. -/
theorem wedged_forever {serial : Nat} (h : q.Stuck serial)
    (hrun : Relation.ReflTransGen (fun q q' => ∃ c, q.step c = some q') q q') :
    q'.Stuck serial ∧ q'.ended = q.ended := by
  induction hrun with
  | refl => exact ⟨h, rfl⟩
  | tail _ hlast ih =>
    obtain ⟨c, hs⟩ := hlast
    obtain ⟨hstuck, hended⟩ := ih.1.step hs
    exact ⟨hstuck, hended.trans ih.2⟩

end DiskQueue

end Talios
